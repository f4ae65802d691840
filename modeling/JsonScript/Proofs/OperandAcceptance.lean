import JsonScript.Proofs.Grammar

/-!
# The readers of operands accept exactly the grammar

A reading succeeds or names a malformation. For each reader, whether it succeeds
is said in the words of the grammar; what it returns, and where it complains,
plays no part in the proofs. They follow the readers' own recursion.

## Main results

* `Reading.succeeds_object`, `Reading.succeeds_member` — steps that readers are
  made of.
* `Operand.succeeds_read_iff` — operands.
* `Operand.readPair_eq_variable_iff` — pairs whose left part is a variable.
-/

namespace JsonScript

/-! ## Success -/

/-- The reading found no malformation. -/
def Reading.Succeeds {α : Type} (x : Reading α) : Prop := ∃ a, x = .ok a

namespace Reading

variable {α β : Type}

@[simp] theorem succeeds_ok (a : α) : Succeeds (.ok a : Reading α) := ⟨a, rfl⟩

@[simp] theorem succeeds_pure (a : α) : Succeeds (pure a : Reading α) := ⟨a, rfl⟩

@[simp] theorem not_succeeds_fail (e : Malformation) (place : Location) :
    ¬ Succeeds (fail e place : Reading α) := nofun

@[simp] theorem succeeds_map (f : α → β) (x : Reading α) :
    Succeeds (x.map f) ↔ Succeeds x := by
  cases x with
  | ok a => exact ⟨fun _ => ⟨a, rfl⟩, fun _ => ⟨f a, rfl⟩⟩
  | error e => exact ⟨nofun, nofun⟩

theorem map_eq_ok {f : α → β} {x : Reading α} {b : β} (h : x.map f = .ok b) :
    ∃ a, x = .ok a ∧ f a = b := by
  cases x with
  | ok a => exact ⟨a, rfl, Except.ok.inj h⟩
  | error e => cases h

theorem bind_eq_ok (x : Reading α) (f : α → Reading β) (b : β) :
    x >>= f = .ok b ↔ ∃ a, x = .ok a ∧ f a = .ok b := by
  cases x with
  | ok a =>
      constructor
      · intro h
        exact ⟨a, rfl, h⟩
      · rintro ⟨_, h, hf⟩
        cases h
        exact hf
  | error e => exact ⟨nofun, nofun⟩

/-- Wording a complaint does not change what is read. -/
theorem mapError_eq_ok_iff (f : LoadError → Diagnostic) (x : Reading α) (a : α) :
    x.mapError f = .ok a ↔ x = .ok a := by
  cases x with
  | ok b =>
      show (Except.ok b : Except Diagnostic α) = .ok a ↔ _
      rw [Except.ok.injEq, Except.ok.injEq]
  | error e =>
      constructor
      · intro h
        cases h
      · intro h
        cases h

theorem succeeds_bind (x : Reading α) (f : α → Reading β) :
    Succeeds (x >>= f) ↔ ∃ a, x = .ok a ∧ Succeeds (f a) := by
  constructor
  · rintro ⟨b, h⟩
    obtain ⟨a, ha, hb⟩ := (bind_eq_ok x f b).1 h
    exact ⟨a, ha, b, hb⟩
  · rintro ⟨a, ha, b, hb⟩
    exact ⟨b, (bind_eq_ok x f b).2 ⟨a, ha, hb⟩⟩

theorem succeeds_bind_pure (x : Reading α) (f : α → β) :
    Succeeds (x >>= fun a => pure (f a)) ↔ Succeeds x :=
  succeeds_map f x

/-- Where the rest succeeds whatever was read, the parts succeed on their own. -/
theorem succeeds_bind_const (x : Reading α) (f : α → Reading β) {P : Prop}
    (hf : ∀ a, x = .ok a → (Succeeds (f a) ↔ P)) :
    Succeeds (x >>= f) ↔ Succeeds x ∧ P := by
  rw [succeeds_bind]
  constructor
  · rintro ⟨a, h, hs⟩
    exact ⟨⟨a, h⟩, (hf a h).1 hs⟩
  · rintro ⟨⟨a, h⟩, hp⟩
    exact ⟨a, h, (hf a h).2 hp⟩

/-- The node is an object, and its members fit. -/
theorem succeeds_object {what : String} {place : Location} {j : Json}
    {rest : { members : Json.Members // j = .object members } → Reading β}
    {P : Json.Members → Prop} (hrest : ∀ members h, Succeeds (rest ⟨members, h⟩) ↔ P members) :
    Succeeds (requireObject what place j >>= rest) ↔
      ∃ members, j = .object members ∧ P members := by
  rw [succeeds_bind]
  constructor
  · rintro ⟨⟨members, h⟩, _, hs⟩
    exact ⟨members, h, (hrest members h).1 hs⟩
  · rintro ⟨members, rfl, hp⟩
    exact ⟨⟨members, rfl⟩, rfl, (hrest members rfl).2 hp⟩

theorem requireMember_eq {name : String} (place : Location) {members : Json.Members}
    {j : Json} (h : members.lookup name = some j) :
    requireMember name place members = .ok ⟨j, h⟩ := by
  unfold requireMember
  revert h
  generalize members.lookup name = o
  rintro rfl
  rfl

theorem succeeds_requireMember (name : String) (place : Location) (members : Json.Members)
    (f : { content : Json // members.lookup name = some content } → Reading β) :
    Succeeds (requireMember name place members >>= f) ↔
      ∃ j, ∃ h : members.lookup name = some j, Succeeds (f ⟨j, h⟩) := by
  rw [succeeds_bind]
  constructor
  · rintro ⟨⟨j, h⟩, _, hs⟩
    exact ⟨j, h, hs⟩
  · rintro ⟨j, h, hs⟩
    exact ⟨⟨j, h⟩, requireMember_eq place h, hs⟩

/-- A member is there and fits, and then the rest succeeds. -/
theorem succeeds_member {name : String} {place : Location} {members : Json.Members}
    {read : Json → Reading α} {rest : α → Reading β} {P : Json → Prop} {Q : Prop}
    (hread : ∀ j, members.lookup name = some j → (Succeeds (read j) ↔ P j))
    (hrest : ∀ a, Succeeds (rest a) ↔ Q) :
    Succeeds (requireMember name place members >>= fun m => read m.1 >>= rest) ↔
      (∃ j, members.lookup name = some j ∧ P j) ∧ Q := by
  rw [succeeds_requireMember]
  constructor
  · rintro ⟨j, hj, hs⟩
    rw [succeeds_bind_const _ _ fun a _ => hrest a, hread j hj] at hs
    exact ⟨⟨j, hj, hs.1⟩, hs.2⟩
  · rintro ⟨⟨j, hj, hp⟩, hq⟩
    refine ⟨j, hj, ?_⟩
    rw [succeeds_bind_const _ _ fun a _ => hrest a, hread j hj]
    exact ⟨hp, hq⟩

/-- A member is there and fits, and then nothing can fail any more. -/
theorem succeeds_last_member {name : String} {place : Location} {members : Json.Members}
    {read : Json → Reading α} {rest : α → Reading β} {P : Json → Prop}
    (hread : ∀ j, members.lookup name = some j → (Succeeds (read j) ↔ P j))
    (hrest : ∀ a, Succeeds (rest a)) :
    Succeeds (requireMember name place members >>= fun m => read m.1 >>= rest) ↔
      ∃ j, members.lookup name = some j ∧ P j := by
  rw [succeeds_member hread fun a => iff_of_true (hrest a) trivial, and_true]

theorem succeeds_requireString (e : Malformation) (place : Location) (j : Json) :
    Succeeds (requireString e place j) ↔ j.IsString := by
  cases j with
  | string s => exact ⟨fun _ => ⟨s, rfl⟩, fun _ => ⟨s, rfl⟩⟩
  | null | bool _ | number _ | array _ | object _ => exact ⟨nofun, nofun⟩

end Reading

/-! ## Keys -/

theorem Operator.isSome_ofName?_iff (key : String) :
    (∃ op, Operator.ofName? key = some op) ↔ key ∈ operatorKeys := by
  constructor
  · rintro ⟨op, h⟩
    rw [Operator.ofName?.eq_def] at h
    split at h
    all_goals first | decide | cases h
  · intro h
    simp only [operatorKeys, arithmeticKeys, List.cons_append, List.nil_append, List.mem_cons,
      List.not_mem_nil, or_false] at h
    rcases h with rfl | rfl | rfl | rfl | rfl | rfl | rfl | rfl | rfl | rfl | rfl | rfl
    all_goals exact ⟨_, rfl⟩

theorem Operator.ofName?_eq_none_iff (key : String) :
    Operator.ofName? key = none ↔ key ∉ operatorKeys := by
  rw [← Operator.isSome_ofName?_iff, Option.eq_none_iff_forall_ne_some, not_exists]

theorem Operator.isArithmetic_iff {key : String} {op : Operator}
    (h : Operator.ofName? key = some op) : op.isArithmetic = true ↔ key ∈ arithmeticKeys := by
  rw [Operator.ofName?.eq_def] at h
  split at h
  all_goals first | (cases h; decide) | cases h

theorem Json.isSome_toValue?_iff (j : Json) : (∃ v, j.toValue? = some v) ↔ j.IsScalar := by
  cases j <;> simp [Json.toValue?, Json.IsScalar]

theorem Json.toValue?_eq_none_iff (j : Json) : j.toValue? = none ↔ ¬ j.IsScalar := by
  rw [← Json.isSome_toValue?_iff, Option.eq_none_iff_forall_ne_some, not_exists]

theorem isUpdate_iff (key : String) (body : Json) :
    isUpdate key body = true ↔ key ∈ arithmeticKeys ∧ body.NamesVariable := by
  rw [isUpdate.eq_def]
  split
  · rename_i op members hop
    rw [Bool.and_eq_true, Operator.isArithmetic_iff hop, Option.isSome_iff_exists]
    constructor
    · rintro ⟨hkey, j, hj⟩
      exact ⟨hkey, members, j, rfl, hj⟩
    · rintro ⟨hkey, _, j, h, hj⟩
      cases h
      exact ⟨hkey, j, hj⟩
  · rename_i hno
    constructor
    · intro h
      cases h
    · rintro ⟨hkey, members, j, rfl, _⟩
      have : key ∈ operatorKeys := List.mem_append_left _ hkey
      obtain ⟨op, hop⟩ := (Operator.isSome_ofName?_iff key).2 this
      exact absurd rfl (hno op members hop)

/-! ## Operands -/

namespace Operand

open Reading

/-- Every operand is read, and every pair of operands; nothing else is. -/
theorem succeeds_read_and_readPair :
    (∀ place j, Succeeds (read place j) ↔ IsOperand j) ∧
      (∀ place j, Succeeds (readPair place j) ↔ IsPair IsOperand IsOperand j) := by
  apply read_induct
  -- Scalars, and arrays, which have no value.
  case string =>
    intro place name
    rw [read_string]
    exact iff_of_true (succeeds_ok _) (.scalar trivial)
  case scalar =>
    intro place j v hv hs
    rw [read_scalar place hv hs]
    exact iff_of_true (succeeds_ok _) (.scalar ((Json.isSome_toValue?_iff j).1 ⟨v, hv⟩))
  case array =>
    intro place items
    rw [read_array]
    refine iff_of_false (not_succeeds_fail _ _) ?_
    rintro ⟨⟨⟩⟩
  -- An object with one member, in the order in which its key is looked at: updates in
  -- place first, so that their bodies are never read as operands.
  case update =>
    intro place key body hupdate
    rw [read_of_isUpdate place hupdate, isOperand_single_iff]
    refine iff_of_false (not_succeeds_fail _ _) ?_
    have h := (isUpdate_iff key body).1 hupdate
    rintro (⟨rfl, _⟩ | ⟨rfl, _⟩ | ⟨_, hvalue, _⟩)
    · exact absurd h.1 (by decide)
    · exact absurd h.1 (by decide)
    · exact hvalue h
  case not =>
    intro place body ih
    rw [read_not, succeeds_map, ih, isOperand_single_iff]
    constructor
    · intro h
      exact .inl ⟨rfl, h⟩
    · rintro (⟨_, h⟩ | ⟨h, _⟩ | ⟨h, _⟩)
      · exact h
      · exact absurd h (by decide)
      · exact absurd h (by decide)
  case literal =>
    intro place body
    cases hv : body.toValue? with
    | some v =>
        rw [read_literal place body hv]
        have hs := (Json.isSome_toValue?_iff body).1 ⟨v, hv⟩
        exact iff_of_true (succeeds_ok _) (.literal hs)
    | none =>
        rw [read_literal_of_none place hv, isOperand_single_iff]
        refine iff_of_false (not_succeeds_fail _ _) ?_
        rintro (⟨h, _⟩ | ⟨_, h⟩ | ⟨h, _⟩)
        · exact absurd h (by decide)
        · exact (Json.toValue?_eq_none_iff body).1 hv h
        · exact absurd h (by decide)
  case operator =>
    intro place key body op hop hupdate ih
    rw [read_operator place hop hupdate, succeeds_map, ih, isOperand_single_iff]
    rw [Bool.eq_false_iff, Ne, isUpdate_iff] at hupdate
    have hkey := (Operator.isSome_ofName?_iff key).1 ⟨op, hop⟩
    obtain ⟨hnot, hliteral⟩ := Operator.ne_of_ofName? hop
    simp only [hnot, hliteral, hkey, hupdate, false_and, false_or, true_and,
      not_false_eq_true]
  case noValue =>
    intro place key body hkey
    rw [read_of_not_isOperandKey place body hkey, isOperand_single_iff]
    obtain ⟨hop, hnot, hliteral⟩ := (isOperandKey_eq_false_iff key).1 hkey
    refine iff_of_false (not_succeeds_fail _ _) ?_
    rintro (⟨h, _⟩ | ⟨h, _⟩ | ⟨h, _⟩)
    · exact hnot h
    · exact hliteral h
    · exact (Operator.ofName?_eq_none_iff key).1 hop h
  case notOneKey =>
    intro place members hmembers
    rw [read_of_not_single place hmembers]
    exact iff_of_false (not_succeeds_fail _ _) (not_isOperand_object hmembers)
  -- Pairs.
  case arrayPair =>
    intro place l r ihl ihr
    rw [readPair, isPair_array_iff, ← ihl, ← ihr]
    refine succeeds_bind_const _ _ fun left _ => ?_
    exact succeeds_bind_pure _ _
  case objectPair =>
    intro place members ihl ihr
    rw [readPair, isPair_object_iff]
    refine succeeds_member ihl fun left => ?_
    refine succeeds_last_member ihr fun right => ?_
    exact succeeds_pure _
  case notPair =>
    intro place j harray hobject
    rw [readPair]
    · refine iff_of_false (not_succeeds_fail _ _) fun h => ?_
      cases h with
      | array => exact harray _ _ rfl
      | object => exact hobject _ rfl
    · exact harray
    · exact hobject

theorem succeeds_read_iff (place : Location) (j : Json) : Succeeds (read place j) ↔ IsOperand j :=
  succeeds_read_and_readPair.1 place j

theorem succeeds_readPair_iff (place : Location) (j : Json) :
    Succeeds (readPair place j) ↔ IsPair IsOperand IsOperand j :=
  succeeds_read_and_readPair.2 place j

theorem succeeds_readAll_iff (place : Location) (items : List Json) :
    ∀ i, Succeeds (readAll place i items) ↔ ∀ j ∈ items, IsOperand j := by
  induction items with
  | nil =>
      intro i
      exact iff_of_true (succeeds_ok _) nofun
  | cons j rest ih =>
      intro i
      rw [readAll, List.forall_mem_cons, ← succeeds_read_iff (place.item i), ← ih (i + 1)]
      exact succeeds_bind_const _ _ fun e _ => succeeds_bind_pure _ _

/-- A key that may stand for a value stands for an operator, a negation or a literal. -/
theorem readKeyed_ne_variable (place : Location) (key : String) (body : Json) (name : String) :
    readKeyed place key body ≠ .ok (.variable name) := by
  intro h
  rw [readKeyed.eq_def] at h
  split at h
  · obtain ⟨_, _, hvariable⟩ := map_eq_ok h
    cases hvariable
  · split at h <;> cases h
  · split at h
    · obtain ⟨_, _, hvariable⟩ := map_eq_ok h
      cases hvariable
    · cases h

/-- Only a string reads to a variable. -/
theorem read_eq_variable_iff (place : Location) (j : Json) :
    (∃ name, read place j = .ok (.variable name)) ↔ j.IsString := by
  constructor
  · rintro ⟨name, h⟩
    rw [read.eq_def] at h
    split at h
    · exact ⟨_, rfl⟩
    · cases h
    · split at h
      · cases h
      · split at h
        · exact absurd h (readKeyed_ne_variable _ _ _ name)
        · cases h
    · cases h
    · split at h <;> cases h
  · rintro ⟨s, rfl⟩
    exact ⟨s, read_string place s⟩

/-- What a pair reads to, part by part. -/
theorem readPair_object_eq_ok_iff (place : Location) (members : Json.Members) (a b : Expr) :
    readPair place (.object members) = .ok (a, b) ↔
      (∃ l, members.lookup "left" = some l ∧ read (place.key "left") l = .ok a) ∧
        (∃ r, members.lookup "right" = some r ∧ read (place.key "right") r = .ok b) := by
  rw [readPair]
  constructor
  · intro h
    obtain ⟨⟨l, hl⟩, _, h⟩ := (bind_eq_ok _ _ _).1 h
    obtain ⟨left, hleft, h⟩ := (bind_eq_ok _ _ _).1 h
    obtain ⟨⟨r, hr⟩, _, h⟩ := (bind_eq_ok _ _ _).1 h
    obtain ⟨right, hright, h⟩ := (bind_eq_ok _ _ _).1 h
    cases h
    exact ⟨⟨l, hl, hleft⟩, ⟨r, hr, hright⟩⟩
  · rintro ⟨⟨l, hl, hleft⟩, ⟨r, hr, hright⟩⟩
    rw [requireMember_eq place hl, requireMember_eq place hr]
    refine (bind_eq_ok _ _ _).2 ⟨_, rfl, (bind_eq_ok _ _ _).2 ⟨a, hleft, ?_⟩⟩
    exact (bind_eq_ok _ _ _).2 ⟨_, rfl, (bind_eq_ok _ _ _).2 ⟨b, hright, rfl⟩⟩

/-- A pair whose left part reads to a variable. -/
theorem readPair_eq_variable_iff (place : Location) (j : Json) :
    (∃ name value, readPair place j = .ok (.variable name, value)) ↔
      IsPair Json.IsString IsOperand j := by
  constructor
  · rintro ⟨name, value, h⟩
    have hpair := (succeeds_readPair_iff place j).1 ⟨_, h⟩
    cases hpair with
    | array left right =>
        rw [readPair] at h
        obtain ⟨a, ha, h⟩ := (bind_eq_ok _ _ _).1 h
        obtain ⟨b, _, h⟩ := (bind_eq_ok _ _ _).1 h
        cases h
        exact .array ((read_eq_variable_iff _ _).1 ⟨name, ha⟩) right
    | @object members l r hl hr left right =>
        obtain ⟨⟨l', hl', h⟩, _⟩ := (readPair_object_eq_ok_iff place members _ _).1 h
        cases hl.symm.trans hl'
        exact .object hl hr ((read_eq_variable_iff _ _).1 ⟨name, h⟩) right
  · intro h
    cases h with
    | @array l r left right =>
        obtain ⟨s, rfl⟩ := left
        obtain ⟨e, he⟩ := (succeeds_read_iff (place.item 1) r).2 right
        refine ⟨s, e, ?_⟩
        rw [readPair, read_string, he]
        rfl
    | @object members l r hl hr left right =>
        obtain ⟨s, rfl⟩ := left
        obtain ⟨e, he⟩ := (succeeds_read_iff (place.key "right") r).2 right
        refine ⟨s, e, (readPair_object_eq_ok_iff place members _ _).2 ⟨⟨_, hl, ?_⟩, r, hr, he⟩⟩
        exact read_string _ s

end Operand

end JsonScript
