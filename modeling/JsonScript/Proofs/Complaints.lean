import JsonScript.Proofs.OperationSources

/-!
# Where complaints point to

A tree that is no program is refused with one complaint. It names a place, unless
the tree is not even a document. The place is a path that can be followed in the
document, and at its end is the node that the complaint is about: a node of the
wrong kind, an object that lacks the member that is named, or a member whose key
has no business where it stands.

`Json.Flawed` says that steps into a node lead to a flaw. A reader complains about
the node that it reads (`Reading.Complains`) if all its complaints point to flaws
below its place. Reading a part complains about the whole, since the step to the
part goes before the steps to the flaw; so one lemma for each reader suffices, in
which the readers of its parts are not looked into again.

## Main results

* `Operand.complains_read` — operands.
* `Block.complains_read` — blocks, with all that is nested in them.
* `Program.complains_ofJson` — documents.
* `load_error_points_into_document` — the same for loading.
-/

namespace JsonScript

/-! ## Flaws -/

/-- The node itself is not what it must be. -/
def Malformation.IsOf (m : Malformation) (node : Json) : Prop :=
  match m with
  | .notAnObject _ => ∀ members, node ≠ .object members
  | .missingField name => ∃ members, node = .object members ∧ name ∉ Json.keys members
  | .notABlock | .parametersNotArray | .argumentsNotArray => ∀ items, node ≠ .array items
  | .variableNotScalar | .literalNotScalar => ¬ node.IsScalar
  | .parameterNotString | .functionNameNotString | .targetNotString => ¬ node.IsString
  | .notOneCount =>
      ∃ members, node = .object members ∧
        ("times" ∈ Json.keys members ↔ "count" ∈ Json.keys members)
  | .arrayAsValue => ∃ items, node = .array items
  | .notOneKey => ∃ members, node = .object members ∧ members.length ≠ 1
  | .notTwoOperands => (∀ l r, node ≠ .array [l, r]) ∧ ∀ members, node ≠ .object members
  | _ => False

/-- The node does not belong under its key, or the other way round. -/
def Malformation.IsOfMember (m : Malformation) (key : String) (node : Json) : Prop :=
  match m with
  | .unexpectedSection name => name = key ∧ key ∉ ["variables", "functions", "main"]
  | .updateAsValue name => name = key ∧ isUpdate key node = true
  | .noValue name => name = key ∧ key ∉ "not" :: "literal" :: operatorKeys
  | .unusedValue what =>
      what = key ∧ key ∈ ["not", "literal"] ∨
        ∃ op, Operator.ofName? key = some op ∧ what = op.name ∧
          ¬ (op.isArithmetic = true ∧ ∃ name e, DenotesUpdate node name e)
  | _ => False

/-- The steps lead from the node to one that has the flaw. -/
inductive Json.Flawed (m : Malformation) : Json → List Step → Prop where
  /-- The node itself. -/
  | here {j : Json} (h : m.IsOf j) : Flawed m j []
  /-- A member, together with its key. -/
  | member {members : Json.Members} {key : String} {content : Json}
      (hcontent : members.lookup key = some content) (h : m.IsOfMember key content) :
      Flawed m (.object members) [.key key]
  /-- An item that was there before. -/
  | repeated {items : List Json} {name : String} {i k : Nat} (hlt : i < k)
      (hfirst : items[i]? = some (.string name)) (hagain : items[k]? = some (.string name))
      (hm : m = .duplicateParameter name) : Flawed m (.array items) [.item k]
  /-- Further down. -/
  | down {j inner : Json} {step : Step} {steps : List Step} (hstep : j.step? step = some inner)
      (h : Flawed m inner steps) : Flawed m j (step :: steps)

/-- Steps to a flaw can be followed. -/
theorem Json.Flawed.exists_at? {m : Malformation} {j : Json} {steps : List Step}
    (h : j.Flawed m steps) : ∃ node, j.at? steps = some node := by
  induction h with
  | here => exact ⟨_, rfl⟩
  | @member members key content hcontent =>
      refine ⟨content, ?_⟩
      rw [at?_cons]
      show (members.lookup key).bind _ = _
      rw [hcontent]
      rfl
  | @repeated items name i k _ _ hagain =>
      refine ⟨.string name, ?_⟩
      rw [at?_cons]
      show items[k]?.bind _ = _
      rw [hagain]
      rfl
  | down hstep _ ih =>
      obtain ⟨node, hnode⟩ := ih
      exact ⟨node, by rw [at?_cons, hstep, Option.bind_some, hnode]⟩

/-! ## Complaints -/

/-- Whatever the reading complains about is a flaw of the node, at the place of the flaw,
where the node itself is at the given place. -/
def Reading.Complains {α : Type} (place : Location) (j : Json) (x : Reading α) : Prop :=
  ∀ e, x = .error e → ∃ steps, e.location = some (place.down steps) ∧
    j.Flawed e.malformation steps

theorem Reading.requireMember_eq_fail {name : String} (place : Location)
    {members : Json.Members} (h : members.lookup name = none) :
    requireMember name place members = fail (.missingField name) place := by
  unfold requireMember
  revert h
  generalize members.lookup name = o
  rintro rfl
  rfl

namespace Reading.Complains

variable {α β : Type} {place : Location} {j : Json} {x : Reading α}

theorem ok (a : α) : Complains place j (.ok a : Reading α) := nofun

theorem fail {m : Malformation} (h : m.IsOf j) :
    Complains place j (Reading.fail m place : Reading α) := by
  rintro _ ⟨⟩
  exact ⟨[], by rw [Location.down_nil], .here h⟩

theorem bind {f : α → Reading β} (h : x.Complains place j)
    (hf : ∀ a, x = .ok a → (f a).Complains place j) : Complains place j (x >>= f) := by
  intro e he
  cases x with
  | error e' =>
      cases he
      exact h e rfl
  | ok a => exact hf a rfl e he

theorem map {f : α → β} (h : x.Complains place j) : Complains place j (x.map f) := by
  intro e he
  cases x with
  | error e' =>
      cases he
      exact h e rfl
  | ok a => cases he

/-- A complaint about a part is one about the whole. -/
theorem down {inner : Json} {step : Step} (hstep : j.step? step = some inner)
    (h : x.Complains (place.down [step]) inner) : x.Complains place j := by
  intro e he
  obtain ⟨steps, hlocation, hflaw⟩ := h e he
  exact ⟨step :: steps, by rw [hlocation, Location.down_down]; rfl, .down hstep hflaw⟩

theorem key {members : Json.Members} {name : String} {content : Json}
    (hcontent : members.lookup name = some content) (h : x.Complains (place.key name) content) :
    x.Complains place (.object members) :=
  @down _ _ _ x content (.key name) hcontent h

theorem item {items : List Json} {i : Nat} {content : Json} (hcontent : items[i]? = some content)
    (h : x.Complains (place.item i) content) : x.Complains place (.array items) :=
  @down _ _ _ x content (.item i) hcontent h

/-- A complaint about a key. -/
theorem failMember {members : Json.Members} {name : String} {content : Json} {m : Malformation}
    (hcontent : members.lookup name = some content) (h : m.IsOfMember name content) :
    Complains place (.object members) (Reading.fail m (place.key name) : Reading α) := by
  rintro _ ⟨⟩
  exact ⟨[.key name], rfl, .member hcontent h⟩

theorem requireObject (what : String) : Complains place j (Reading.requireObject what place j) := by
  cases j with
  | object members => exact .ok _
  | null | bool | number | string | array => exact .fail nofun

theorem requireMember (name : String) (members : Json.Members) :
    Complains place (.object members) (Reading.requireMember name place members) := by
  rcases Option.eq_none_or_eq_some (members.lookup name) with hlookup | ⟨content, hlookup⟩
  · rw [requireMember_eq_fail place hlookup]
    exact .fail ⟨members, rfl, (Json.lookup_eq_none_iff members).1 hlookup⟩
  · rw [requireMember_eq place hlookup]
    exact .ok _

theorem requireString {m : Malformation} (h : ∀ node : Json, ¬ node.IsString → m.IsOf node) :
    Complains place j (Reading.requireString m place j) := by
  cases j with
  | string s => exact .ok s
  | null | bool | number | array | object => exact .fail (h _ (by rintro ⟨_, ⟨⟩⟩))

/-- A reader goes on with the member that an object must have. -/
theorem member {members : Json.Members} {name : String}
    {f : { content : Json // members.lookup name = some content } → Reading β}
    (hf : ∀ content, (f content).Complains place (.object members)) :
    Complains place (.object members) (Reading.requireMember name place members >>= f) :=
  (requireMember name members).bind fun content _ => hf content

end Reading.Complains

/-! ## Operands -/

namespace Operand

open Reading

theorem complains_read_and_readPair :
    (∀ place j, (read place j).Complains place j) ∧
      ∀ place j, (readPair place j).Complains place j := by
  apply read_induct
  -- Scalars, and arrays, which have no value.
  case string =>
    intro place name
    rw [read_string]
    exact .ok _
  case scalar =>
    intro place j v hv hs
    rw [read_scalar place hv hs]
    exact .ok _
  case array =>
    intro place items
    rw [read_array]
    exact .fail ⟨items, rfl⟩
  -- An object with one member, in the order in which its key is looked at.
  case update =>
    intro place key body hupdate
    rw [read_of_isUpdate place hupdate]
    exact .failMember (List.lookup_cons_self ..) ⟨rfl, hupdate⟩
  case not =>
    intro place body ih
    rw [read_not]
    exact .key rfl ih.map
  case literal =>
    intro place body
    cases hv : body.toValue? with
    | some v =>
        rw [read_literal place body hv]
        exact .ok _
    | none =>
        rw [read_literal_of_none place hv]
        exact .key rfl (.fail ((Json.toValue?_eq_none_iff body).1 hv))
  case operator =>
    intro place key body op hop hupdate ih
    rw [read_operator place hop hupdate]
    exact .key (List.lookup_cons_self ..) ih.map
  case noValue =>
    intro place key body hkey
    rw [read_of_not_isOperandKey place body hkey]
    refine .failMember (List.lookup_cons_self ..) ⟨rfl, ?_⟩
    obtain ⟨hop, hnot, hliteral⟩ := (isOperandKey_eq_false_iff key).1 hkey
    have hoperator := (Operator.ofName?_eq_none_iff key).1 hop
    simp only [List.mem_cons, hnot, hliteral, hoperator, or_self, not_false_eq_true]
  case notOneKey =>
    intro place members hmembers
    rw [read_of_not_single place hmembers]
    refine .fail ⟨members, rfl, fun hlength => ?_⟩
    obtain ⟨⟨key, body⟩, rfl⟩ := List.length_eq_one_iff.1 hlength
    exact hmembers key body rfl
  -- Pairs.
  case arrayPair =>
    intro place l r ihl ihr
    rw [readPair]
    refine Complains.bind (.item rfl ihl) fun left _ => ?_
    exact Complains.bind (.item rfl ihr) fun right _ => .ok _
  case objectPair =>
    intro place members ihl ihr
    rw [readPair]
    refine .member fun l => ?_
    refine Complains.bind (.key l.2 (ihl l.1 l.2)) fun left _ => ?_
    refine .member fun r => ?_
    exact Complains.bind (.key r.2 (ihr r.1 r.2)) fun right _ => .ok _
  case notPair =>
    intro place j harray hobject
    rw [readPair]
    · exact .fail ⟨harray, hobject⟩
    · exact harray
    · exact hobject

theorem complains_read (place : Location) (j : Json) : (read place j).Complains place j :=
  complains_read_and_readPair.1 place j

/-- The items from some number on. -/
theorem complains_readAll (place : Location) {items all : List Json} {i : Nat}
    (hitems : ∀ n j, items[n]? = some j → all[i + n]? = some j) :
    Reading.Complains place (.array all) (readAll place i items) := by
  induction items generalizing i with
  | nil => exact .ok _
  | cons j rest ih =>
      rw [readAll]
      refine Complains.bind (.item (hitems 0 j rfl) (complains_read _ j)) fun e _ => ?_
      refine Complains.bind (ih fun n j' hn => ?_) fun es _ => .ok _
      rw [Nat.add_assoc, Nat.add_comm 1]
      exact hitems (n + 1) j' hn

end Operand

/-! ## Blocks -/

namespace Block

open Reading

variable {place : Location} {members : Json.Members} {body : Json}

theorem complains_readTarget (place : Location) (body : Json) :
    (readTarget place body).Complains place body := by
  refine (Complains.requireObject "target").bind ?_
  rintro ⟨members, rfl⟩ _
  refine .member fun target => ?_
  refine Complains.bind (.key target.2 (.requireString fun _ h => h)) fun name _ => ?_
  refine .member fun operand => ?_
  exact Complains.bind (.key operand.2 (Operand.complains_read _ _)) fun value _ => .ok _

theorem complains_readPrinted (place : Location) (body : Json) :
    (readPrinted place body).Complains place body := by
  cases body with
  | array items => exact Operand.complains_readAll place fun n j hn => by rwa [Nat.zero_add]
  | null | bool | number | string | object => exact (Operand.complains_read place _).map

/-- An operator whose value is used by nothing: one that computes no number, or one whose
left operand is no variable that it could be written to. -/
theorem complains_readOperatorStatement {key : String} {op : Operator}
    (hbody : members.lookup key = some body) (hop : Operator.ofName? key = some op)
    (hupdate : ¬ isUpdate key body = true) :
    (readOperatorStatement (place.key key) op body).Complains place (.object members) := by
  rw [readOperatorStatement]
  cases harithmetic : op.isArithmetic with
  | false =>
      have hflaw : (Malformation.unusedValue op.name).IsOfMember key body :=
        .inr ⟨op, hop, rfl, fun h => absurd h.1 (by simp [harithmetic])⟩
      exact .failMember hbody hflaw
  | true =>
      rw [if_pos rfl]
      refine Complains.bind (.key hbody (Operand.complains_read_and_readPair.2 _ body)) ?_
      rintro ⟨left, right⟩ hpair
      split
      · exact .ok _
      · rename_i hleft
        have hvariable : ¬ body.NamesVariable := fun h =>
          hupdate ((isUpdate_iff key body).2 ⟨(Operator.isArithmetic_iff hop).1 harithmetic, h⟩)
        refine .failMember hbody (.inr ⟨op, hop, rfl, ?_⟩)
        rintro ⟨-, name, e, htarget | ⟨-, hdenotes⟩⟩
        · exact hvariable htarget.namesVariable
        · have hread := (Operand.readPair_eq_ok_iff (place.key key) body _ _).2 hdenotes
          rw [hpair] at hread
          cases hread
          exact hleft name _ rfl

/-- The reader of an action complains about the body, or about the key that it stands under. -/
theorem complains_readAction {key : String} (hbody : members.lookup key = some body) :
    (readAction (place.key key) key body).Complains place (.object members) := by
  have target (f : String × Expr → Action) :
      Reading.Complains place (.object members) ((readTarget (place.key key) body).map f) :=
    .key hbody (complains_readTarget _ body).map
  rw [readAction_eq]
  split
  · exact target _
  · exact target _
  · exact .key hbody (complains_readPrinted _ body).map
  · exact .failMember hbody (.inl ⟨rfl, by decide⟩)
  · exact .failMember hbody (.inl ⟨rfl, by decide⟩)
  · cases hop : Operator.ofName? key with
    | none => exact .ok _
    | some op =>
        by_cases hupdate : isUpdate key body = true
        · simp only [hupdate, if_true]
          exact target _
        · simp only [hupdate, Bool.false_eq_true, if_false]
          exact complains_readOperatorStatement hbody hop hupdate

theorem complains_readCount (place : Location) (members : Json.Members) :
    (readCount place members).Complains place (.object members) := by
  rw [readCount.eq_def]
  split
  · rename_i j htimes _
    exact .key htimes (Operand.complains_read _ j)
  · rename_i j _ hcount
    exact .key hcount (Operand.complains_read _ j)
  · rename_i htimes hcount
    refine .fail ⟨members, rfl, ?_⟩
    rw [← not_iff_not, ← Json.lookup_eq_none_iff, ← Json.lookup_eq_none_iff]
    constructor
    · exact fun h => Option.eq_none_iff_forall_ne_some.2 fun j hj => hcount j h hj
    · exact fun h => Option.eq_none_iff_forall_ne_some.2 fun j hj => htimes j hj h

theorem complains_readArguments (place : Location) (members : Json.Members) :
    (readArguments place members).Complains place (.object members) := by
  rw [readArguments.eq_def]
  split
  · rename_i items harguments
    exact .key harguments (Operand.complains_readAll _ fun n j hn => by rwa [Nat.zero_add])
  · rename_i j harray harguments
    exact .key harguments (.fail harray)
  · exact .ok _

theorem complains_readCondition (place : Location) (members : Json.Members) :
    (readCondition place members).Complains place (.object members) :=
  .member fun condition => .key condition.2 (Operand.complains_read _ _)

theorem complains_readCall (place : Location) (body : Json) :
    (readCall place body).Complains place body := by
  refine (Complains.requireObject "'call'").bind ?_
  rintro ⟨members, rfl⟩ _
  refine .member fun function => ?_
  refine Complains.bind (.key function.2 (.requireString fun _ h => h)) fun name _ => ?_
  exact (complains_readArguments place members).bind fun es _ => .ok _

/-- Among the members of a statement object no key comes twice, so that each of them is found
under its key. Among those that are read, some may be read already. -/
theorem complains_read_and_readOperation :
    (∀ place j, j.UniqueKeys → (read place j).Complains place j) ∧
      (∀ place i items, (∀ j ∈ items, j.UniqueKeys) → ∀ all : List Json,
        (∀ n j, items[n]? = some j → all[i + n]? = some j) →
          (readStatements place i items).Complains place (.array all)) ∧
      (∀ place j, j.UniqueKeys → (readStatement place j).Complains place j) ∧
      (∀ place members, (∀ m ∈ members, m.2.UniqueKeys) → ∀ all : Json.Members,
        (∀ m ∈ members, all.lookup m.1 = some m.2) →
          (readOperations place members).Complains place (.object all)) ∧
      ∀ place key body, body.UniqueKeys → ∀ all : Json.Members, all.lookup key = some body →
        (readOperation place key body).Complains place (.object all) := by
  apply read.mutual_induct
    (fun place j => j.UniqueKeys → (read place j).Complains place j)
    (fun place i items => (∀ j ∈ items, j.UniqueKeys) → ∀ all : List Json,
      (∀ n j, items[n]? = some j → all[i + n]? = some j) →
        (readStatements place i items).Complains place (.array all))
    (fun place j => j.UniqueKeys → (readStatement place j).Complains place j)
    (fun place members => (∀ m ∈ members, m.2.UniqueKeys) → ∀ all : Json.Members,
      (∀ m ∈ members, all.lookup m.1 = some m.2) →
        (readOperations place members).Complains place (.object all))
    (fun place key body => body.UniqueKeys → ∀ all : Json.Members,
      all.lookup key = some body → (readOperation place key body).Complains place (.object all))
  -- Blocks and their items.
  case case1 =>
    intro place items ih hunique
    rw [read]
    exact ih ((Json.uniqueKeys_array_iff items).1 hunique) items fun n j hn => by
      rwa [Nat.zero_add]
  case case2 =>
    intro place j harray _
    rw [read]
    · exact .fail harray
    · exact harray
  case case3 =>
    intro place i _ all _
    rw [readStatements_nil]
    exact .ok _
  case case4 =>
    intro place i j rest ihj ihrest hunique all hall
    obtain ⟨hj, hrest⟩ := List.forall_mem_cons.1 hunique
    rw [readStatements]
    refine Complains.bind (.item (hall 0 j rfl) (ihj hj)) fun operations _ => ?_
    refine Complains.bind (ihrest hrest all fun n j' hn => ?_) fun more _ => .ok _
    rw [Nat.add_assoc, Nat.add_comm 1]
    exact hall (n + 1) j' hn
  -- Statement objects and their members.
  case case5 =>
    intro place members ih hunique
    obtain ⟨hkeys, hmembers⟩ := (Json.uniqueKeys_object_iff members).1 hunique
    rw [readStatement]
    exact ih hmembers members fun m hm =>
      (NameMap.lookup_eq_some_iff_mem hkeys m.1 m.2).2 hm
  case case6 =>
    intro place j hobject _
    rw [readStatement]
    · exact .fail hobject
    · exact hobject
  case case7 =>
    intro place _ all _
    rw [readOperations_nil]
    exact .ok _
  case case8 =>
    intro place key body rest ihbody ihrest hunique all hall
    obtain ⟨hbody, hrest⟩ := List.forall_mem_cons.1 hunique
    obtain ⟨hfirst, hlater⟩ := List.forall_mem_cons.1 hall
    rw [readOperations]
    refine Complains.bind (ihbody hbody all hfirst) fun operation _ => ?_
    exact Complains.bind (ihrest hrest all hlater) fun more _ => .ok _
  -- Operations, by their keys.
  case case9 =>
    intro place body inner ihthen ihelse hunique all hbody
    rw [readOperation]
    refine .key hbody ((Complains.requireObject "'if'").bind ?_)
    rintro ⟨members, rfl⟩ _
    obtain ⟨_, hmembers⟩ := (Json.uniqueKeys_object_iff members).1 hunique
    refine (complains_readCondition _ members).bind fun condition _ => ?_
    refine .member fun content => ?_
    refine Complains.bind (.key content.2 (ihthen members rfl _ content.2 ?_)) fun _ _ => ?_
    · exact hmembers _ (Json.mem_of_lookup content.2)
    · split
      · rename_i j helse
        have hj := hmembers _ (Json.mem_of_lookup helse)
        exact Complains.bind (.key helse (ihelse members rfl j helse hj)) fun _ _ => .ok _
      · exact .ok _
  case case10 =>
    intro place body inner ih hunique all hbody
    rw [readOperation]
    refine .key hbody ((Complains.requireObject "'loop'").bind ?_)
    rintro ⟨members, rfl⟩ _
    obtain ⟨_, hmembers⟩ := (Json.uniqueKeys_object_iff members).1 hunique
    refine (complains_readCount _ members).bind fun count _ => ?_
    refine .member fun content => ?_
    refine Complains.bind (.key content.2 (ih members rfl _ content.2 ?_)) fun _ _ => .ok _
    exact hmembers _ (Json.mem_of_lookup content.2)
  case case11 =>
    intro place body inner ih hunique all hbody
    rw [readOperation]
    refine .key hbody ((Complains.requireObject "'while'").bind ?_)
    rintro ⟨members, rfl⟩ _
    obtain ⟨_, hmembers⟩ := (Json.uniqueKeys_object_iff members).1 hunique
    refine (complains_readCondition _ members).bind fun condition _ => ?_
    refine .member fun content => ?_
    refine Complains.bind (.key content.2 (ih members rfl _ content.2 ?_)) fun _ _ => .ok _
    exact hmembers _ (Json.mem_of_lookup content.2)
  case case12 =>
    intro place body _ all hbody
    rw [readOperation_call]
    exact .key hbody (complains_readCall _ body).map
  case case13 =>
    intro place key body hif hloop hwhile hcall _ all hbody
    have hcontrol : key ∉ ["if", "loop", "while", "call"] := by
      simp only [List.mem_cons, List.not_mem_nil, or_false, not_or]
      exact ⟨hif, hloop, hwhile, hcall⟩
    rw [readOperation_act place body hcontrol]
    exact (complains_readAction hbody).map

theorem complains_read {j : Json} (hunique : j.UniqueKeys) (place : Location) :
    (read place j).Complains place j :=
  complains_read_and_readOperation.1 place j hunique

end Block

/-! ## Routines and variables -/

open Reading

namespace Routine

theorem complains_readParameters (place : Location) {items all : List Json} {i : Nat}
    (hitems : ∀ n j, items[n]? = some j → all[i + n]? = some j) :
    Reading.Complains place (.array all) (readParameters place i items) := by
  induction items generalizing i with
  | nil => exact .ok _
  | cons j rest ih =>
      rw [readParameters]
      refine Complains.bind (.item (hitems 0 j rfl) (.requireString fun _ h => h)) fun name _ => ?_
      refine Complains.bind (ih fun n j' hn => ?_) fun names _ => .ok _
      rw [Nat.add_assoc, Nat.add_comm 1]
      exact hitems (n + 1) j' hn

/-- A name that is refused stands among those before it. -/
theorem complains_checkDistinct (place : Location) (names : List String) :
    ∀ before, Reading.Complains place (.array ((before ++ names).map .string))
      (checkDistinct place before names) := by
  induction names with
  | nil => exact fun before => .ok _
  | cons name rest ih =>
      intro before
      rw [checkDistinct]
      split
      · rename_i hbefore
        rintro _ ⟨⟩
        obtain ⟨i, hi⟩ := List.mem_iff_getElem?.1 (List.contains_iff_mem.1 hbefore)
        have hlt : i < before.length := (List.getElem?_eq_some_iff.1 hi).1
        refine ⟨[.item before.length], rfl, @Json.Flawed.repeated _ _ name _ _ hlt ?_ ?_ rfl⟩
        · rw [List.getElem?_map, List.getElem?_append_left hlt, hi, Option.map_some]
        · rw [List.getElem?_map, List.getElem?_append_right (Nat.le_refl _), Nat.sub_self]
          rfl
      · have hrest := ih (before ++ [name])
        rwa [List.append_assoc, List.singleton_append] at hrest

theorem complains_readParameterList (place : Location) (j : Json) :
    (readParameterList place j).Complains place j := by
  rw [readParameterList.eq_def]
  split
  · rename_i items
    refine (complains_readParameters place fun n j hn => by rwa [Nat.zero_add]).bind ?_
    intro names hnames
    rw [(readParameters_eq_ok_iff place items 0 names).1 hnames]
    exact (complains_checkDistinct place names []).bind fun _ _ => .ok _
  · rename_i harray
    exact .fail harray

theorem complains_read (place : Location) (name : String) {j : Json} (hunique : j.UniqueKeys) :
    (read place name j).Complains place j := by
  refine (Complains.requireObject "function definition").bind ?_
  rintro ⟨members, rfl⟩ _
  obtain ⟨_, hmembers⟩ := (Json.uniqueKeys_object_iff members).1 hunique
  refine .member fun listed => ?_
  refine Complains.bind (.key listed.2 (complains_readParameterList _ _)) fun parameters _ => ?_
  refine .member fun block => ?_
  have hblock := hmembers _ (Json.mem_of_lookup block.2)
  exact Complains.bind (.key block.2 (Block.complains_read hblock _)) fun body _ => .ok _

end Routine

/-- Under distinct keys that the table does not have yet, no name is refused. -/
theorem RoutineTable.complains_readInto (place : Location) {members all : Json.Members}
    (hunique : ∀ m ∈ members, m.2.UniqueKeys) (hall : ∀ m ∈ members, all.lookup m.1 = some m.2)
    (hkeys : (Json.keys members).Nodup) {table : RoutineTable}
    (hfresh : ∀ key ∈ Json.keys members, table.routines.contains key = false) :
    (table.readInto place members).Complains place (.object all) := by
  induction members generalizing table with
  | nil => exact .ok _
  | cons m rest ih =>
      obtain ⟨name, content⟩ := m
      obtain ⟨hcontent, hrest⟩ := List.forall_mem_cons.1 hunique
      obtain ⟨hfirst, hlater⟩ := List.forall_mem_cons.1 hall
      obtain ⟨hname, hnames⟩ := List.nodup_cons.1 hkeys
      rw [readInto]
      refine Complains.bind (.key hfirst (Routine.complains_read _ name hcontent)) fun r hr => ?_
      have hr : r.name = name := Routine.name_of_read hr
      split
      · rename_i table' hdefine
        refine ih hrest hlater hnames fun key hkey => ?_
        rw [contains_define? hdefine, hr, hfresh key (List.mem_cons_of_mem _ hkey),
          Bool.or_false]
        exact beq_false_of_ne fun h => hname (h ▸ hkey)
      · rename_i hdefine
        rw [define?_eq_none_iff, hr, hfresh name List.mem_cons_self] at hdefine
        cases hdefine

theorem Program.complains_readVariables (place : Location) {members all : Json.Members}
    (hall : ∀ m ∈ members, all.lookup m.1 = some m.2) :
    (readVariables place members).Complains place (.object all) := by
  induction members with
  | nil => exact .ok _
  | cons m rest ih =>
      obtain ⟨name, content⟩ := m
      obtain ⟨hfirst, hlater⟩ := List.forall_mem_cons.1 hall
      rw [readVariables]
      split
      · rename_i hscalar
        exact .key hfirst (.fail ((Json.toValue?_eq_none_iff content).1 hscalar))
      · exact (ih hlater).map

/-! ## Documents -/

/-- Where a path with this root starts: a document without sections is a main block, and
else the root names a section, or all of them together. -/
def Json.root? (document : Json) (root : String) : Option Json :=
  match document with
  | .array _ => if root = "main" then some document else none
  | .object [("program", content)] =>
      if root = "program" then some content else content.step? (.key root)
  | _ => none

/-- The complaint has a place, which is the path from a root to the flaw. -/
def LoadError.PointsInto (document : Json) (e : LoadError) : Prop :=
  ∃ root ∈ ["main", "variables", "functions", "program"], ∃ steps node,
    e.location = some ⟨root, steps⟩ ∧ document.root? root = some node ∧
      node.Flawed e.malformation steps

theorem LoadError.pointsInto_of_complains {α : Type} {x : Reading α} {e : LoadError}
    (he : x = .error e) {document node : Json} (root : String)
    (hroot : root ∈ ["main", "variables", "functions", "program"])
    (hnode : document.root? root = some node) (h : x.Complains (.ofRoot root) node) :
    e.PointsInto document := by
  obtain ⟨steps, hlocation, hflaw⟩ := h e he
  exact ⟨root, hroot, steps, node, hlocation, hnode, hflaw⟩

namespace Program

/-- Each section has a root of its own, but for one that nobody knows. -/
theorem pointsInto_readSection {sections : Json.Members} {key : String} {content : Json}
    (hcontent : sections.lookup key = some content) (hunique : content.UniqueKeys)
    {p : Program} {e : LoadError} (he : p.readSection key content = .error e) :
    e.PointsInto (.object [("program", .object sections)]) := by
  rw [readSection.eq_def] at he
  split at he
  · refine LoadError.pointsInto_of_complains he "variables" (by decide) hcontent ?_
    refine (Complains.requireObject "variables").bind ?_
    rintro ⟨members, rfl⟩ _
    obtain ⟨hkeys, _⟩ := (Json.uniqueKeys_object_iff members).1 hunique
    refine (complains_readVariables _ fun m hm => ?_).bind fun bindings _ => .ok _
    exact (NameMap.lookup_eq_some_iff_mem hkeys m.1 m.2).2 hm
  · refine LoadError.pointsInto_of_complains he "functions" (by decide) hcontent ?_
    refine (Complains.requireObject "functions").bind ?_
    rintro ⟨members, rfl⟩ _
    obtain ⟨hkeys, hmembers⟩ := (Json.uniqueKeys_object_iff members).1 hunique
    refine (RoutineTable.complains_readInto _ hmembers (fun m hm => ?_) hkeys fun _ _ => rfl).bind
      fun routines _ => .ok _
    exact (NameMap.lookup_eq_some_iff_mem hkeys m.1 m.2).2 hm
  · exact LoadError.pointsInto_of_complains he "main" (by decide) hcontent
      ((Block.complains_read hunique _).bind fun main _ => .ok _)
  · rename_i hvariables hfunctions hmain
    have hunknown : key ∉ ["variables", "functions", "main"] := by
      simp only [List.mem_cons, List.not_mem_nil, or_false, not_or]
      exact ⟨hvariables, hfunctions, hmain⟩
    have hflaw : (Malformation.unexpectedSection key).IsOfMember key content := ⟨rfl, hunknown⟩
    exact LoadError.pointsInto_of_complains he "program" (by decide) rfl
      (.failMember hcontent hflaw)

theorem pointsInto_readSections {sections all : Json.Members}
    (hunique : ∀ m ∈ sections, m.2.UniqueKeys) (hall : ∀ m ∈ sections, all.lookup m.1 = some m.2)
    {p : Program} {e : LoadError} (he : p.readSections sections = .error e) :
    e.PointsInto (.object [("program", .object all)]) := by
  induction sections generalizing p with
  | nil => cases he
  | cons m rest ih =>
      obtain ⟨key, content⟩ := m
      obtain ⟨hcontent, hrest⟩ := List.forall_mem_cons.1 hunique
      obtain ⟨hfirst, hlater⟩ := List.forall_mem_cons.1 hall
      rw [readSections] at he
      cases hp : p.readSection key content with
      | ok p' =>
          rw [hp] at he
          exact ih hrest hlater he
      | error e' =>
          rw [hp] at he
          cases he
          exact pointsInto_readSection hfirst hcontent hp

/-- A tree is refused without a place only if it is neither a block nor a program object. -/
theorem pointsInto_ofJson {j : Json} (hunique : j.UniqueKeys) {e : LoadError}
    (he : ofJson j = .error e) :
    e.PointsInto j ∨
      e = ⟨.notADocument, none⟩ ∧ (∀ items, j ≠ .array items) ∧
        ∀ content, j ≠ .object [("program", content)] := by
  rw [ofJson.eq_def] at he
  split at he
  · exact .inl (LoadError.pointsInto_of_complains he "main" (by decide) rfl
      (Block.complains_read hunique _).map)
  · rename_i content
    have hcontent := ((Json.uniqueKeys_object_iff _).1 hunique).2 _ List.mem_cons_self
    cases content with
    | object sections =>
        obtain ⟨hkeys, hsections⟩ := (Json.uniqueKeys_object_iff sections).1 hcontent
        exact .inl (pointsInto_readSections hsections
          (fun m hm => (NameMap.lookup_eq_some_iff_mem hkeys m.1 m.2).2 hm) he)
    | null | bool | number | string | array =>
        refine .inl (LoadError.pointsInto_of_complains he "program" (by decide) rfl (.fail ?_))
        intro members h
        cases h
  · rename_i harray hprogram
    cases he
    exact .inr ⟨rfl, harray, hprogram⟩

end Program

/-- **Complaints point into the document.**  Let a tree without repeated keys be refused. The
diagnostic has no place exactly if the tree is neither an array nor an object whose only key
is `program`. Otherwise its place is a path that starts at one of the four roots and can be
followed in the document, and that ends at a node with the flaw that the message names: a
node of the wrong kind, an object without the member, or a member with its key. -/
theorem load_error_points_into_document {j : Json} {d : Diagnostic} (hunique : j.UniqueKeys)
    (h : Program.load j = .error d) :
    (d.location = none ↔
      (∀ items, j ≠ .array items) ∧ ∀ content, j ≠ .object [("program", content)]) ∧
    (d.location ≠ none →
      ∃ root ∈ ["main", "variables", "functions", "program"], ∃ steps top node m,
        d.location = some ⟨root, steps⟩ ∧
        (Location.mk root steps).render = root ++ Step.renderAll steps ∧
        j.root? root = some top ∧ top.at? steps = some node ∧
        top.Flawed m steps ∧ d.fault = .malformed m.message) := by
  have hmap : ∃ e, Program.ofJson j = .error e ∧ d = e.toDiagnostic := by
    rw [Program.load] at h
    cases hread : Program.ofJson j with
    | ok p =>
        rw [hread] at h
        cases h
    | error e =>
        rw [hread] at h
        cases h
        exact ⟨e, rfl, rfl⟩
  obtain ⟨e, he, rfl⟩ := hmap
  rcases Program.pointsInto_ofJson hunique he with hpoints | ⟨rfl, harray, hprogram⟩
  · obtain ⟨root, hroot, steps, top, hlocation, htop, hflaw⟩ := hpoints
    obtain ⟨node, hnode⟩ := hflaw.exists_at?
    refine ⟨iff_of_false ?_ ?_, fun _ => ⟨root, hroot, steps, top, node, e.malformation,
      hlocation, Location.render_down (.ofRoot root) steps, htop, hnode, hflaw, rfl⟩⟩
    · show ¬ e.location = none
      rw [hlocation]
      exact Option.some_ne_none _
    · rintro ⟨harray, hprogram⟩
      rw [Json.root?.eq_def] at htop
      split at htop
      · exact harray _ rfl
      · exact hprogram _ rfl
      · cases htop
  · exact ⟨iff_of_true rfl ⟨harray, hprogram⟩, fun h => absurd rfl h⟩

/-- A repetition in a branch, whose count negates an array. -/
def negatedArray : Json :=
  .object [("program", .object [("main", .array [
    .object [("if", .object [("condition", .bool true), ("then", .array [
      .object [("loop", .object [("count", .object [("not", .array [])]),
        ("body", .array [])])]])])]])])]

theorem load_negatedArray :
    Program.load negatedArray = .error ⟨.malformed Malformation.arrayAsValue.message,
      some ⟨"main", [.item 0, .key "if", .key "then", .item 0, .key "loop", .key "count",
        .key "not"]⟩⟩ := by
  have hcount (place : Location) : Operand.read place (.object [("not", .array [])]) =
      fail .arrayAsValue (place.key "not") := by
    rw [Operand.read_not, Operand.read_array]
    rfl
  have hloop (place : Location) : Block.readOperation place "loop" (.object [
      ("count", .object [("not", .array [])]), ("body", .array [])]) =
      fail .arrayAsValue (((place.key "loop").key "count").key "not") := by
    rw [Block.readOperation]
    show Operand.read _ _ >>= _ = _
    rw [hcount]
    rfl
  have hthen (place : Location) : Block.read place (.array [.object [("loop", .object [
      ("count", .object [("not", .array [])]), ("body", .array [])])]]) =
      fail .arrayAsValue ((((place.item 0).key "loop").key "count").key "not") := by
    rw [Block.read, Block.readStatements, Block.readStatement, Block.readOperations, hloop]
    rfl
  have hcondition (place : Location) :
      Operand.read place (.bool true) = .ok (.literal (.bool true)) :=
    Operand.read_scalar place rfl fun s => by simp
  have hmain (place : Location) : Block.read place (.array [.object [("if", .object [
      ("condition", .bool true), ("then", .array [.object [("loop", .object [
        ("count", .object [("not", .array [])]), ("body", .array [])])]])])]]) =
      fail .arrayAsValue
        (((((((place.item 0).key "if").key "then").item 0).key "loop").key "count").key "not") := by
    rw [Block.read, Block.readStatements, Block.readStatement, Block.readOperations,
      Block.readOperation]
    show ((Operand.read _ _ >>= fun condition => Block.read _ _ >>= _) >>= _) >>= _ = _
    rw [hcondition, hthen]
    rfl
  rw [Program.load, negatedArray]
  show ((Block.read _ _ >>= _) >>= _).mapError _ = _
  rw [hmain]
  rfl

/-- The path can be followed down to the array. -/
theorem load_error_points_into_document_negatedArray :
    negatedArray.UniqueKeys ∧ ∃ d, Program.load negatedArray = .error d ∧
      (d.location.map Location.render = some "main[0].if.then[0].loop.count.not") ∧
      (∃ top m, negatedArray.root? "main" = some top ∧ top.Flawed m [.item 0, .key "if",
        .key "then", .item 0, .key "loop", .key "count", .key "not"] ∧
          d.fault = .malformed m.message) := by
  have hunique : negatedArray.UniqueKeys := by
    have htrue : (Json.bool true).UniqueKeys := .scalar trivial
    simp [negatedArray, Json.keys, htrue]
  refine ⟨hunique, _, load_negatedArray, by decide, ?_⟩
  obtain ⟨-, hpoints⟩ := load_error_points_into_document hunique load_negatedArray
  obtain ⟨root, -, steps, top, node, m, hlocation, -, htop, hnode, hflaw, hfault⟩ :=
    hpoints (Option.some_ne_none _)
  cases hlocation
  exact ⟨top, m, htop, hflaw, hfault⟩

end JsonScript
