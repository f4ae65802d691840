import JsonScript.Proofs.OperandAcceptance
import Mathlib.Data.List.Forall2

/-!
# What readers return

A node stands for an expression wherever it stands in the document: places only
go into complaints. `Denotes` says so without any reader, and the readers of
operands return what is denoted. The readers of actions, operations and
routines look members up by name and read them, so what they return is said by
one condition for each member (`HasMember`). Where the member stands among the
others, and which other members there are, plays no part.

## Main results

* `hasMember_around` — one member among others.
* `Operand.read_eq_ok_iff` — operands are read to what they denote.
* `Block.readTarget_eq_ok_iff`, `Block.readPrinted_eq_ok_iff`,
  `Block.readAction_arithmetic_eq_ok_iff` — actions.
* `Block.readOperation_if_eq_ok_iff` and its companions — control operations.
* `Routine.read_eq_ok_iff` — routines.
-/

namespace JsonScript

/-! ## Members -/

/-- The member of this name is there, and its content fits. -/
def HasMember (name : String) (P : Json → Prop) (members : Json.Members) : Prop :=
  ∃ j, members.lookup name = some j ∧ P j

/-- The member of this name fits if it is there, and otherwise `Q` holds. -/
def HasMemberOr (name : String) (P : Json → Prop) (Q : Prop) (members : Json.Members) : Prop :=
  HasMember name P members ∨ members.lookup name = none ∧ Q

section Members

variable {name : String} {P : Json → Prop} {Q : Prop} {members : Json.Members} {j : Json}

theorem hasMember_iff_of_lookup_eq_some (h : members.lookup name = some j) :
    HasMember name P members ↔ P j := by
  constructor
  · rintro ⟨j', hj', hp⟩
    cases h.symm.trans hj'
    exact hp
  · intro hp
    exact ⟨j, h, hp⟩

theorem not_hasMember_of_lookup_eq_none (h : members.lookup name = none) :
    ¬ HasMember name P members := by
  rintro ⟨j, hj, _⟩
  cases h.symm.trans hj

theorem hasMemberOr_iff_of_lookup_eq_some (h : members.lookup name = some j) :
    HasMemberOr name P Q members ↔ P j := by
  rw [HasMemberOr, hasMember_iff_of_lookup_eq_some h, h]
  simp only [reduceCtorEq, false_and, or_false]

theorem hasMemberOr_iff_of_lookup_eq_none (h : members.lookup name = none) :
    HasMemberOr name P Q members ↔ Q := by
  rw [HasMemberOr, iff_false_intro (not_hasMember_of_lookup_eq_none h)]
  simp only [h, true_and, false_or]

end Members

section Hole

variable {name : String} {before after : Json.Members} {P : Json → Prop} {Q : Prop}

theorem Json.lookup_eq_none_iff (members : Json.Members) :
    members.lookup name = none ↔ name ∉ Json.keys members := by
  induction members with
  | nil => exact iff_of_true rfl List.not_mem_nil
  | cons m rest ih =>
      obtain ⟨k, v⟩ := m
      by_cases h : name = k
      · subst h
        simp [Json.keys]
      · have hkey : (name == k) = false := beq_false_of_ne h
        rw [List.lookup_cons, hkey, ih]
        simp [Json.keys, h]

theorem Json.not_mem_keys_of_append (h : name ∉ Json.keys (before ++ after)) :
    name ∉ Json.keys before := by
  intro hmem
  apply h
  rw [Json.keys, List.map_append]
  exact List.mem_append_left _ hmem

/-- Looking up in members around one of a given name. -/
theorem Json.lookup_around (hbefore : name ∉ Json.keys before) (j : Json) (n : String) :
    (before ++ (name, j) :: after).lookup n =
      if n = name then some j else (before ++ after).lookup n := by
  rw [List.lookup_append, List.lookup_append]
  by_cases h : n = name
  · subst h
    rw [(Json.lookup_eq_none_iff before).2 hbefore, List.lookup_cons_self]
    simp
  · have hkey : (n == name) = false := beq_false_of_ne h
    rw [List.lookup_cons, hkey]
    simp [h]

theorem Json.lookup_around_eq_none_iff (hbefore : name ∉ Json.keys before) (j : Json)
    (n : String) :
    (before ++ (name, j) :: after).lookup n = none ↔
      n ≠ name ∧ (before ++ after).lookup n = none := by
  rw [Json.lookup_around hbefore]
  split <;> simp [*]

theorem hasMember_around (hbefore : name ∉ Json.keys before) (j : Json) (n : String) :
    HasMember n P (before ++ (name, j) :: after) ↔
      if n = name then P j else HasMember n P (before ++ after) := by
  simp only [HasMember, Json.lookup_around hbefore]
  split <;> simp

theorem hasMemberOr_around (hbefore : name ∉ Json.keys before) (j : Json) (n : String) :
    HasMemberOr n P Q (before ++ (name, j) :: after) ↔
      if n = name then P j else HasMemberOr n P Q (before ++ after) := by
  simp only [HasMemberOr, hasMember_around hbefore, Json.lookup_around hbefore]
  split <;> simp

end Hole

namespace Reading

variable {α β : Type}

theorem pure_eq_ok_iff (a b : α) : (pure a : Reading α) = .ok b ↔ b = a := by
  rw [eq_comm (a := b)]
  exact Except.ok.injEq a b ▸ .rfl

theorem map_eq_ok_iff (f : α → β) (x : Reading α) (b : β) :
    x.map f = .ok b ↔ ∃ a, x = .ok a ∧ b = f a := by
  cases x with
  | ok a =>
      constructor
      · rintro ⟨⟩
        exact ⟨a, rfl, rfl⟩
      · rintro ⟨_, ⟨⟩, rfl⟩
        rfl
  | error e => exact ⟨nofun, nofun⟩

/-- The node is an object, and what follows is about its members. -/
theorem object_bind_eq_ok_iff {what : String} {place : Location} {j : Json}
    {rest : { members : Json.Members // j = .object members } → Reading β} {b : β}
    {P : Json.Members → Prop}
    (hrest : ∀ members h, rest ⟨members, h⟩ = .ok b ↔ P members) :
    requireObject what place j >>= rest = .ok b ↔
      ∃ members, j = .object members ∧ P members := by
  rw [bind_eq_ok]
  constructor
  · rintro ⟨⟨members, h⟩, _, hb⟩
    exact ⟨members, h, (hrest members h).1 hb⟩
  · rintro ⟨members, rfl, hp⟩
    exact ⟨⟨members, rfl⟩, rfl, (hrest members rfl).2 hp⟩

theorem bind_eq_ok_iff {x : Reading α} {rest : α → Reading β} {b : β} {P Q : α → Prop}
    (hx : ∀ a, x = .ok a ↔ P a) (hrest : ∀ a, rest a = .ok b ↔ Q a) :
    x >>= rest = .ok b ↔ ∃ a, P a ∧ Q a := by
  rw [bind_eq_ok]
  exact exists_congr fun a => and_congr (hx a) (hrest a)

/-- The member is there and is read. -/
theorem member_eq_ok_iff {name : String} {place : Location} {members : Json.Members}
    {read : Json → Reading α} {a : α} {P : Json → Prop} (hread : ∀ j, read j = .ok a ↔ P j) :
    (requireMember name place members >>= fun m => read m.1) = .ok a ↔
      HasMember name P members := by
  rw [bind_eq_ok]
  constructor
  · rintro ⟨⟨j, h⟩, _, ha⟩
    exact ⟨j, h, (hread j).1 ha⟩
  · rintro ⟨j, h, hp⟩
    exact ⟨⟨j, h⟩, requireMember_eq place h, (hread j).2 hp⟩

/-- The member is there and is read, and what follows is about what was read. -/
theorem member_bind_eq_ok_iff {name : String} {place : Location} {members : Json.Members}
    {read : Json → Reading α} {rest : α → Reading β} {b : β} {P : α → Json → Prop}
    {Q : α → Prop} (hread : ∀ a j, read j = .ok a ↔ P a j)
    (hrest : ∀ a, rest a = .ok b ↔ Q a) :
    (requireMember name place members >>= fun m => read m.1 >>= rest) = .ok b ↔
      ∃ a, HasMember name (P a) members ∧ Q a := by
  rw [← bind_assoc]
  exact bind_eq_ok_iff (fun a => member_eq_ok_iff (hread a)) hrest

theorem requireString_eq_ok_iff (e : Malformation) (place : Location) (j : Json) (s : String) :
    requireString e place j = .ok s ↔ j = .string s := by
  cases j with
  | string s' =>
      rw [Json.string.injEq]
      exact ⟨fun h => Except.ok.inj h, fun h => congrArg _ h⟩
  | null | bool _ | number _ | array _ | object _ => exact ⟨nofun, nofun⟩

end Reading

/-! ## Operands -/

/-- The body of an operator has these two parts, in one of the two spellings. -/
inductive HasParts : Json → Json → Json → Prop where
  | array (l r : Json) : HasParts (.array [l, r]) l r
  | object {members : Json.Members} {l r : Json} (hl : members.lookup "left" = some l)
      (hr : members.lookup "right" = some r) : HasParts (.object members) l r

/-- The node stands for the expression. -/
inductive Denotes : Json → Expr → Prop where
  | variable (name : String) : Denotes (.string name) (.variable name)
  | scalar {j : Json} {v : Value} (h : j.toValue? = some v) (hs : ¬ j.IsString) :
      Denotes j (.literal v)
  | not {body : Json} {e : Expr} (h : Denotes body e) : Denotes (.object [("not", body)]) (.not e)
  | literal {body : Json} {v : Value} (h : body.toValue? = some v) :
      Denotes (.object [("literal", body)]) (.literal v)
  | operator {key : String} {op : Operator} {body l r : Json} {a b : Expr}
      (hop : Operator.ofName? key = some op) (hvalue : isUpdate key body = false)
      (hparts : HasParts body l r) (left : Denotes l a) (right : Denotes r b) :
      Denotes (.object [(key, body)]) (.binary op a b)

/-- The body of an operator stands for two expressions. -/
def DenotesPair (body : Json) (a b : Expr) : Prop :=
  ∃ l r, HasParts body l r ∧ Denotes l a ∧ Denotes r b

theorem HasParts.eq_and_eq {body l r l' r' : Json} (h : HasParts body l r)
    (h' : HasParts body l' r') : l = l' ∧ r = r' := by
  cases h with
  | array =>
      cases h'
      exact ⟨rfl, rfl⟩
  | object hl hr =>
      cases h' with
      | object hl' hr' =>
          cases hl.symm.trans hl'
          cases hr.symm.trans hr'
          exact ⟨rfl, rfl⟩

theorem HasParts.denotesPair_iff {body l r : Json} (h : HasParts body l r) (a b : Expr) :
    DenotesPair body a b ↔ Denotes l a ∧ Denotes r b := by
  constructor
  · rintro ⟨l', r', h', hl, hr⟩
    obtain ⟨rfl, rfl⟩ := h.eq_and_eq h'
    exact ⟨hl, hr⟩
  · rintro ⟨hl, hr⟩
    exact ⟨l, r, h, hl, hr⟩

theorem denotesPair_object_iff (members : Json.Members) (a b : Expr) :
    DenotesPair (.object members) a b ↔
      HasMember "left" (Denotes · a) members ∧ HasMember "right" (Denotes · b) members := by
  constructor
  · rintro ⟨l, r, hparts, hl, hr⟩
    cases hparts with
    | object hleft hright => exact ⟨⟨l, hleft, hl⟩, r, hright, hr⟩
  · rintro ⟨⟨l, hleft, hl⟩, r, hright, hr⟩
    exact ⟨l, r, .object hleft hright, hl, hr⟩

/-- The node is an array of nodes that stand for the expressions. -/
def DenotesAll (j : Json) (es : List Expr) : Prop :=
  ∃ items, j = .array items ∧ List.Forall₂ Denotes items es

theorem denotesAll_array_iff (items : List Json) (es : List Expr) :
    DenotesAll (.array items) es ↔ List.Forall₂ Denotes items es := by
  constructor
  · rintro ⟨_, ⟨⟩, h⟩
    exact h
  · intro h
    exact ⟨items, rfl, h⟩

theorem not_denotes_array (items : List Json) (e : Expr) : ¬ Denotes (.array items) e := by
  intro h
  cases h with
  | scalar h => cases h

theorem denotes_string_iff (name : String) (e : Expr) :
    Denotes (.string name) e ↔ e = .variable name := by
  constructor
  · intro h
    cases h with
    | «variable» => rfl
    | scalar _ hs => exact absurd ⟨name, rfl⟩ hs
  · rintro rfl
    exact .variable name

theorem denotes_scalar_iff {j : Json} (hs : ¬ j.IsString) (e : Expr) (h : j.IsScalar) :
    Denotes j e ↔ ∃ v, j.toValue? = some v ∧ e = .literal v := by
  constructor
  · intro hd
    cases hd with
    | «variable» name => exact absurd ⟨name, rfl⟩ hs
    | @scalar _ v hv _ => exact ⟨v, hv, rfl⟩
    | not | literal | operator => exact absurd h id
  · rintro ⟨v, hv, rfl⟩
    exact .scalar hv hs

/-- What an object with one member stands for, by its key. -/
theorem denotes_single_iff (key : String) (body : Json) (e : Expr) :
    Denotes (.object [(key, body)]) e ↔
      key = "not" ∧ (∃ x, Denotes body x ∧ e = .not x) ∨
        key = "literal" ∧ (∃ v, body.toValue? = some v ∧ e = .literal v) ∨
        ∃ op, Operator.ofName? key = some op ∧ isUpdate key body = false ∧
          ∃ a b, DenotesPair body a b ∧ e = .binary op a b := by
  constructor
  · intro h
    cases h with
    | scalar hv => cases hv
    | @not _ x hx => exact .inl ⟨rfl, x, hx, rfl⟩
    | @literal _ v hv => exact .inr (.inl ⟨rfl, v, hv, rfl⟩)
    | @operator _ op _ l r a b hop hvalue hparts hl hr =>
        exact .inr (.inr ⟨op, hop, hvalue, a, b, ⟨l, r, hparts, hl, hr⟩, rfl⟩)
  · rintro (⟨rfl, x, hx, rfl⟩ | ⟨rfl, v, hv, rfl⟩ | ⟨op, hop, hvalue, a, b, hpair, rfl⟩)
    · exact .not hx
    · exact .literal hv
    · obtain ⟨l, r, hparts, hl, hr⟩ := hpair
      exact .operator hop hvalue hparts hl hr

theorem denotes_not_iff (body : Json) (e : Expr) :
    Denotes (.object [("not", body)]) e ↔ ∃ x, Denotes body x ∧ e = .not x := by
  simp [denotes_single_iff, Operator.ofName?]

theorem denotes_literal_iff (body : Json) (e : Expr) :
    Denotes (.object [("literal", body)]) e ↔ ∃ v, body.toValue? = some v ∧ e = .literal v := by
  simp [denotes_single_iff, Operator.ofName?]

theorem denotes_operator_iff {key : String} {op : Operator} (hop : Operator.ofName? key = some op)
    (body : Json) (e : Expr) :
    Denotes (.object [(key, body)]) e ↔
      isUpdate key body = false ∧ ∃ a b, DenotesPair body a b ∧ e = .binary op a b := by
  obtain ⟨hnot, hliteral⟩ := Operator.ne_of_ofName? hop
  simp [denotes_single_iff, hnot, hliteral, hop]

namespace Operand

open Reading

theorem readPair_array_eq_ok_iff (place : Location) (l r : Json) (a b : Expr) :
    readPair place (.array [l, r]) = .ok (a, b) ↔
      read (place.item 0) l = .ok a ∧ read (place.item 1) r = .ok b := by
  rw [readPair]
  constructor
  · intro h
    obtain ⟨left, hleft, h⟩ := (bind_eq_ok _ _ _).1 h
    obtain ⟨right, hright, h⟩ := (bind_eq_ok _ _ _).1 h
    cases h
    exact ⟨hleft, hright⟩
  · rintro ⟨hleft, hright⟩
    exact (bind_eq_ok _ _ _).2 ⟨a, hleft, (bind_eq_ok _ _ _).2 ⟨b, hright, rfl⟩⟩

/-- What is read is denoted. -/
theorem denotes_of_read_and_readPair :
    (∀ place j e, read place j = .ok e → Denotes j e) ∧
      (∀ place j a b, readPair place j = .ok (a, b) → DenotesPair j a b) := by
  apply read_induct
  -- Scalars, and arrays, which have no value.
  case string =>
    intro place name e h
    rw [read_string] at h
    cases h
    exact .variable name
  case scalar =>
    intro place j v hv hs e h
    rw [read_scalar place hv hs] at h
    cases h
    refine .scalar hv ?_
    rintro ⟨s, rfl⟩
    exact hs s (Option.some.inj hv).symm
  case array =>
    intro place items e h
    rw [read_array] at h
    cases h
  -- An object with one member, in the order in which its key is looked at.
  case update =>
    intro place key body hupdate e h
    rw [read_of_isUpdate place hupdate] at h
    cases h
  case not =>
    intro place body ih e h
    rw [read_not] at h
    obtain ⟨x, hx, rfl⟩ := (map_eq_ok_iff _ _ _).1 h
    exact .not (ih x hx)
  case literal =>
    intro place body e h
    cases hv : body.toValue? with
    | some v =>
        rw [read_literal place body hv] at h
        cases h
        exact .literal hv
    | none =>
        rw [read_literal_of_none place hv] at h
        cases h
  case operator =>
    intro place key body op hop hvalue ih e h
    rw [read_operator place hop hvalue] at h
    obtain ⟨⟨a, b⟩, hpair, rfl⟩ := (map_eq_ok_iff _ _ _).1 h
    obtain ⟨l, r, hparts, hl, hr⟩ := ih a b hpair
    exact .operator hop hvalue hparts hl hr
  case noValue =>
    intro place key body hkey e h
    rw [read_of_not_isOperandKey place body hkey] at h
    cases h
  case notOneKey =>
    intro place members hmembers e h
    rw [read_of_not_single place hmembers] at h
    cases h
  -- Pairs.
  case arrayPair =>
    intro place l r ihl ihr a b h
    obtain ⟨hl, hr⟩ := (readPair_array_eq_ok_iff place l r a b).1 h
    exact ⟨l, r, .array l r, ihl a hl, ihr b hr⟩
  case objectPair =>
    intro place members ihl ihr a b h
    obtain ⟨⟨l, hl, hleft⟩, r, hr, hright⟩ := (readPair_object_eq_ok_iff place members a b).1 h
    exact ⟨l, r, .object hl hr, ihl l hl a hleft, ihr r hr b hright⟩
  case notPair =>
    intro place j harray hobject a b h
    rw [readPair] at h
    · cases h
    · exact harray
    · exact hobject

/-- What is denoted is read, in any place. -/
theorem read_of_denotes {j : Json} {e : Expr} (h : Denotes j e) (place : Location) :
    read place j = .ok e := by
  induction h generalizing place with
  | «variable» name => exact read_string place name
  | @scalar j v h hs =>
      refine read_scalar place h ?_
      rintro s rfl
      exact hs ⟨s, Json.eq_string_of_toValue? h⟩
  | not _ ih => rw [read_not, ih]; rfl
  | literal h => exact read_literal place _ h
  | @operator key op body l r a b hop hvalue hparts _ _ ihl ihr =>
      have hpair : readPair (place.key key) body = .ok (a, b) := by
        cases hparts with
        | array => exact (readPair_array_eq_ok_iff ..).2 ⟨ihl _, ihr _⟩
        | object hl hr =>
            exact (readPair_object_eq_ok_iff ..).2 ⟨⟨l, hl, ihl _⟩, r, hr, ihr _⟩
      rw [read_operator place hop hvalue, hpair]
      rfl

/-- Operands are read to what they denote. -/
theorem read_eq_ok_iff (place : Location) (j : Json) (e : Expr) :
    read place j = .ok e ↔ Denotes j e :=
  ⟨denotes_of_read_and_readPair.1 place j e, fun h => read_of_denotes h place⟩

theorem readPair_eq_ok_iff (place : Location) (j : Json) (a b : Expr) :
    readPair place j = .ok (a, b) ↔ DenotesPair j a b := by
  refine ⟨denotes_of_read_and_readPair.2 place j a b, ?_⟩
  rintro ⟨l, r, hparts, hl, hr⟩
  cases hparts with
  | array => exact (readPair_array_eq_ok_iff ..).2 ⟨read_of_denotes hl _, read_of_denotes hr _⟩
  | object hl' hr' =>
      exact (readPair_object_eq_ok_iff ..).2
        ⟨⟨l, hl', read_of_denotes hl _⟩, r, hr', read_of_denotes hr _⟩

theorem readAll_eq_ok_iff (place : Location) (items : List Json) :
    ∀ i es, readAll place i items = .ok es ↔ List.Forall₂ Denotes items es := by
  induction items with
  | nil =>
      intro i es
      rw [readAll, List.forall₂_nil_left_iff, Except.ok.injEq, eq_comm]
  | cons j rest ih =>
      intro i es
      rw [readAll, List.forall₂_cons_left_iff, bind_eq_ok]
      constructor
      · rintro ⟨e, he, h⟩
        obtain ⟨more, hmore, h⟩ := (bind_eq_ok _ _ _).1 h
        cases h
        exact ⟨e, more, (read_eq_ok_iff _ _ _).1 he, (ih _ _).1 hmore, rfl⟩
      · rintro ⟨e, more, he, hmore, rfl⟩
        exact ⟨e, (read_eq_ok_iff _ _ _).2 he,
          (bind_eq_ok _ _ _).2 ⟨more, (ih _ _).2 hmore, rfl⟩⟩

end Operand

/-! ## Actions -/

/-- The body names a variable and holds an operand that stands for the
expression. -/
def DenotesTarget (body : Json) (name : String) (e : Expr) : Prop :=
  ∃ members, body = .object members ∧ HasMember "var" (· = .string name) members ∧
    HasMember "value" (Denotes · e) members

theorem denotesTarget_object_iff (members : Json.Members) (name : String) (e : Expr) :
    DenotesTarget (.object members) name e ↔
      HasMember "var" (· = .string name) members ∧ HasMember "value" (Denotes · e) members := by
  constructor
  · rintro ⟨_, ⟨⟩, h⟩
    exact h
  · intro h
    exact ⟨members, rfl, h⟩

theorem DenotesTarget.namesVariable {body : Json} {name : String} {e : Expr}
    (h : DenotesTarget body name e) : body.NamesVariable := by
  obtain ⟨members, rfl, ⟨j, hvar, _⟩, _⟩ := h
  exact ⟨members, j, rfl, hvar⟩

/-- The body of an arithmetic key tells which variable to update and what with. -/
def DenotesUpdate (body : Json) (name : String) (e : Expr) : Prop :=
  DenotesTarget body name e ∨ ¬ body.NamesVariable ∧ DenotesPair body (.variable name) e

/-- The node stands for the operands that are printed. -/
def DenotesPrinted (j : Json) (es : List Expr) : Prop :=
  DenotesAll j es ∨ ∃ e, Denotes j e ∧ es = [e]

/-- Exactly one of the two counts is there, and it stands for the expression. -/
def DenotesCount (members : Json.Members) (e : Expr) : Prop :=
  HasMember "times" (Denotes · e) members ∧ members.lookup "count" = none ∨
    HasMember "count" (Denotes · e) members ∧ members.lookup "times" = none

namespace Block

open Reading

theorem readTarget_eq_ok_iff (place : Location) (body : Json) (name : String) (e : Expr) :
    readTarget place body = .ok (name, e) ↔ DenotesTarget body name e := by
  rw [readTarget, DenotesTarget]
  refine object_bind_eq_ok_iff fun members _ => ?_
  refine (member_bind_eq_ok_iff (fun s j => requireString_eq_ok_iff _ _ j s) fun s =>
    member_bind_eq_ok_iff (fun e' j => Operand.read_eq_ok_iff _ j e') fun e' => .rfl).trans ?_
  constructor
  · rintro ⟨s, hvar, e', hvalue, ⟨⟩⟩
    exact ⟨hvar, hvalue⟩
  · rintro ⟨hvar, hvalue⟩
    exact ⟨name, hvar, e, hvalue, rfl⟩

theorem readPrinted_eq_ok_iff (place : Location) (body : Json) (es : List Expr) :
    readPrinted place body = .ok es ↔ DenotesPrinted body es := by
  rw [readPrinted.eq_def, DenotesPrinted]
  split
  · rename_i items
    rw [Operand.readAll_eq_ok_iff, denotesAll_array_iff]
    refine (or_iff_left ?_).symm
    rintro ⟨e, h, _⟩
    exact not_denotes_array items e h
  · rename_i hno
    simp only [map_eq_ok_iff, Operand.read_eq_ok_iff]
    refine (or_iff_right ?_).symm
    rintro ⟨items, rfl, _⟩
    exact hno items rfl

theorem readOperatorStatement_eq_ok_iff (place : Location) {op : Operator}
    (harithmetic : op.isArithmetic = true) (body : Json) (action : Action) :
    readOperatorStatement place op body = .ok action ↔
      ∃ name e, DenotesPair body (.variable name) e ∧ action = .update op name e := by
  rw [readOperatorStatement, if_pos harithmetic, bind_eq_ok]
  constructor
  · rintro ⟨⟨left, e⟩, hpair, h⟩
    split at h
    · rename_i name value heq
      cases heq
      cases h
      exact ⟨name, e, (Operand.readPair_eq_ok_iff ..).1 hpair, rfl⟩
    · cases h
  · rintro ⟨name, e, hpair, rfl⟩
    exact ⟨_, (Operand.readPair_eq_ok_iff ..).2 hpair, rfl⟩

/-- The key of an operator is none of the keys that stand for themselves. -/
theorem readAction_operator (place : Location) {key : String} {op : Operator}
    (hop : Operator.ofName? key = some op) (body : Json) :
    readAction place key body =
      if isUpdate key body then
        (readTarget place body).map fun (name, value) => .update op name value
      else readOperatorStatement place op body := by
  have hkey := (Operator.isSome_ofName?_iff key).1 ⟨op, hop⟩
  rw [readAction_eq]
  split
  case h_6 => rw [hop]
  all_goals exact absurd hkey (by decide)

/-- Arithmetic in the place of a statement. -/
theorem readAction_arithmetic_eq_ok_iff (place : Location) {key : String} {op : Operator}
    (hop : Operator.ofName? key = some op) (hkey : key ∈ arithmeticKeys) (body : Json)
    (action : Action) :
    readAction place key body = .ok action ↔
      ∃ name e, DenotesUpdate body name e ∧ action = .update op name e := by
  rw [readAction_operator place hop]
  by_cases hvariable : body.NamesVariable
  · rw [if_pos ((isUpdate_iff key body).2 ⟨hkey, hvariable⟩), map_eq_ok_iff]
    simp only [DenotesUpdate, hvariable, not_true_eq_false, false_and, or_false, Prod.exists,
      readTarget_eq_ok_iff]
  · have hupdate : ¬ isUpdate key body = true := fun h =>
      hvariable ((isUpdate_iff key body).1 h).2
    have htarget : ∀ name e, ¬ DenotesTarget body name e := fun _ _ h =>
      hvariable h.namesVariable
    have harithmetic := (Operator.isArithmetic_iff hop).2 hkey
    rw [if_neg hupdate, readOperatorStatement_eq_ok_iff place harithmetic]
    simp only [DenotesUpdate, hvariable, htarget, not_false_eq_true, true_and, false_or]

/-- A key that is no control operation stands for an action. -/
theorem readOperation_act (place : Location) {key : String} (body : Json)
    (hcontrol : key ∉ ["if", "loop", "while", "call"]) :
    readOperation place key body = (readAction (place.key key) key body).map (.act place) := by
  simp only [List.mem_cons, List.not_mem_nil, or_false, not_or] at hcontrol
  obtain ⟨hif, hloop, hwhile, hcall⟩ := hcontrol
  rw [readOperation]
  · exact hif
  · exact hloop
  · exact hwhile
  · exact hcall

/-! ## Control operations -/

theorem readCondition_eq_ok_iff (place : Location) (members : Json.Members) (e : Expr) :
    readCondition place members = .ok e ↔ HasMember "condition" (Denotes · e) members := by
  rw [readCondition]
  exact member_eq_ok_iff fun j => Operand.read_eq_ok_iff _ j e

theorem readCount_eq_ok_iff (place : Location) (members : Json.Members) (e : Expr) :
    readCount place members = .ok e ↔ DenotesCount members e := by
  rw [readCount.eq_def, DenotesCount]
  split
  · rename_i j htimes hcount
    rw [Operand.read_eq_ok_iff, hasMember_iff_of_lookup_eq_some htimes, htimes, hcount]
    simp only [reduceCtorEq, and_false, or_false, and_true]
  · rename_i j htimes hcount
    rw [Operand.read_eq_ok_iff, hasMember_iff_of_lookup_eq_some hcount, htimes, hcount]
    simp only [reduceCtorEq, and_false, false_or, and_true]
  · rename_i htimes hcount
    refine iff_of_false nofun ?_
    rintro (⟨⟨j, hj, _⟩, hnone⟩ | ⟨⟨j, hj, _⟩, hnone⟩)
    · exact htimes j hj hnone
    · exact hcount j hnone hj

theorem readArguments_eq_ok_iff (place : Location) (members : Json.Members) (es : List Expr) :
    readArguments place members = .ok es ↔
      HasMemberOr "arguments" (DenotesAll · es) (es = []) members := by
  rw [readArguments.eq_def]
  split
  · rename_i items h
    rw [Operand.readAll_eq_ok_iff, hasMemberOr_iff_of_lookup_eq_some h, denotesAll_array_iff]
  · rename_i j hno h
    rw [hasMemberOr_iff_of_lookup_eq_some h]
    refine iff_of_false nofun ?_
    rintro ⟨items, rfl, _⟩
    exact hno items rfl
  · rename_i h
    rw [hasMemberOr_iff_of_lookup_eq_none h, Except.ok.injEq, eq_comm]

theorem readCall_eq_ok_iff (place : Location) (body : Json) (name : String) (es : List Expr) :
    readCall place body = .ok (name, es) ↔ ∃ members, body = .object members ∧
      HasMember "function" (· = .string name) members ∧
        HasMemberOr "arguments" (DenotesAll · es) (es = []) members := by
  rw [readCall]
  refine object_bind_eq_ok_iff fun members _ => ?_
  refine (member_bind_eq_ok_iff (fun s j => requireString_eq_ok_iff _ _ j s) fun s =>
    bind_eq_ok_iff (fun es' => readArguments_eq_ok_iff _ members es') fun es' => .rfl).trans ?_
  constructor
  · rintro ⟨s, hname, es', harguments, ⟨⟩⟩
    exact ⟨hname, harguments⟩
  · rintro ⟨hname, harguments⟩
    exact ⟨name, hname, es, harguments, rfl⟩

theorem readOperation_if_eq_ok_iff (place : Location) (body : Json) (o : Operation) :
    readOperation place "if" body = .ok o ↔ ∃ members, body = .object members ∧
      ∃ condition, HasMember "condition" (Denotes · condition) members ∧
      ∃ thenBlock,
        HasMember "then" (read ((place.key "if").key "then") · = .ok thenBlock) members ∧
      ∃ elseBlock,
        HasMemberOr "else" (read ((place.key "if").key "else") · = .ok elseBlock)
          (elseBlock = []) members ∧
        o = .choose place condition thenBlock elseBlock := by
  rw [readOperation]
  refine object_bind_eq_ok_iff fun members _ => ?_
  refine bind_eq_ok_iff (fun condition => readCondition_eq_ok_iff _ members condition) fun c => ?_
  refine member_bind_eq_ok_iff (fun _ _ => .rfl) fun thenBlock => ?_
  dsimp only
  split
  · rename_i j hj
    simp only [hasMemberOr_iff_of_lookup_eq_some hj]
    exact bind_eq_ok_iff (fun _ => .rfl) fun _ => pure_eq_ok_iff _ _
  · rename_i hnone
    simp only [hasMemberOr_iff_of_lookup_eq_none hnone]
    exact bind_eq_ok_iff (fun _ => pure_eq_ok_iff _ _) fun _ => pure_eq_ok_iff _ _

theorem readOperation_loop_eq_ok_iff (place : Location) (body : Json) (o : Operation) :
    readOperation place "loop" body = .ok o ↔ ∃ members, body = .object members ∧
      ∃ count, DenotesCount members count ∧
      ∃ block, HasMember "body" (read ((place.key "loop").key "body") · = .ok block) members ∧
        o = .times place count block := by
  rw [readOperation]
  refine object_bind_eq_ok_iff fun members _ => ?_
  refine bind_eq_ok_iff (fun count => readCount_eq_ok_iff _ members count) fun count => ?_
  exact member_bind_eq_ok_iff (fun _ _ => .rfl) fun block => pure_eq_ok_iff _ _

theorem readOperation_while_eq_ok_iff (place : Location) (body : Json) (o : Operation) :
    readOperation place "while" body = .ok o ↔ ∃ members, body = .object members ∧
      ∃ condition, HasMember "condition" (Denotes · condition) members ∧
      ∃ block, HasMember "body" (read ((place.key "while").key "body") · = .ok block) members ∧
        o = .whilst place condition block := by
  rw [readOperation]
  refine object_bind_eq_ok_iff fun members _ => ?_
  refine bind_eq_ok_iff (fun condition => readCondition_eq_ok_iff _ members condition) fun c => ?_
  exact member_bind_eq_ok_iff (fun _ _ => .rfl) fun block => pure_eq_ok_iff _ _

theorem readOperation_call (place : Location) (body : Json) :
    readOperation place "call" body =
      (readCall (place.key "call") body).map fun (name, arguments) =>
        .call place name arguments := by
  rw [readOperation]

end Block

/-! ## Routines -/

namespace Routine

open Reading

theorem read_eq_ok_iff (place : Location) (name : String) (j : Json) (r : Routine) :
    read place name j = .ok r ↔ ∃ members, j = .object members ∧
      ∃ parameters,
        HasMember "parameters"
          (readParameterList (place.key "parameters") · = .ok parameters) members ∧
      ∃ body, HasMember "body" (Block.read (place.key "body") · = .ok body) members ∧
        r = ⟨name, parameters, body⟩ := by
  rw [read]
  refine object_bind_eq_ok_iff fun members _ => ?_
  refine member_bind_eq_ok_iff (fun _ _ => .rfl) fun parameters => ?_
  exact member_bind_eq_ok_iff (fun _ _ => .rfl) fun body => pure_eq_ok_iff _ _

end Routine

end JsonScript
