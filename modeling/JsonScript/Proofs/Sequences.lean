import JsonScript.Proofs.ReadingPlaces
import JsonScript.Proofs.Relocation
import JsonScript.Proofs.Spelling

/-!
# Statements with several keys

A statement object with several keys is a sequence: one object for each of its
members, in their order, stands for the same operations. An object without keys
stands for none, and can be left out. `Splits` lists the documents that differ in
one such replacement, in any block at any depth.

Splitting shifts what comes later in the block, and all that is nested in it. So
the programs that are read differ in the places of their operations, and in
nothing else. The invariant is `ReadsAlike`: whatever the first node is read to at
some place, the second one is read to at every place, but for the places. Nothing
that runs looks at places, so the programs run alike.

## Main results

* `readsAlike_split` — a block with one statement split.
* `Within.readsAlike` — what it stands in.
* `load_of_split` — documents with any number of statements split.
-/

namespace JsonScript

/-! ## Splitting -/

/-- One object for each of the members. -/
def Json.singles (members : Json.Members) : List Json := members.map fun m => .object [m]

/-- One statement in one block is split, somewhere in a node in the position. -/
inductive Splits : Position → Json → Json → Prop where
  | here (before : List Json) (members : Json.Members) (after : List Json) :
      Splits .block (.array (before ++ .object members :: after))
        (.array (before ++ (Json.singles members ++ after)))
  | inside {p q : Position} {put : Json → Json} {j j' : Json} (hput : Within p q put)
      (h : Splits p j j') : Splits q (put j) (put j')

/-! ## Code at other places -/

/-- Any two places. -/
def Location.Anywhere (_ _ : Location) : Prop := True

theorem Location.descends_anywhere : Descends Anywhere where
  key _ _ := trivial
  item _ _ := trivial

/-- The same block, wherever it stands. -/
abbrev SameCode : List Operation → List Operation → Prop := BlockMoved Location.Anywhere

/-- One place for everything, so that places can be forgotten. -/
def Location.nowhere (_ : Location) : Location := .ofRoot ""

mutual

theorem Operation.relocate_nowhere_of_moved : ∀ {op op' : Operation},
    op.Moved Location.Anywhere op' → op.relocate Location.nowhere = op'.relocate Location.nowhere
  | .act _ _, _, .act _ _ => by simp only [Operation.relocate, Location.nowhere]
  | .choose _ _ _ _, _, .choose _ _ hthen helse => by
      simp only [Operation.relocate, Location.nowhere, relocateBlock_nowhere_of_sameCode hthen,
        relocateBlock_nowhere_of_sameCode helse]
  | .times _ _ _, _, .times _ _ hbody => by
      simp only [Operation.relocate, Location.nowhere, relocateBlock_nowhere_of_sameCode hbody]
  | .whilst _ _ _, _, .whilst _ _ hbody => by
      simp only [Operation.relocate, Location.nowhere, relocateBlock_nowhere_of_sameCode hbody]
  | .call _ _ _, _, .call _ _ _ => by simp only [Operation.relocate, Location.nowhere]

theorem relocateBlock_nowhere_of_sameCode : ∀ {block block' : List Operation},
    SameCode block block' →
      relocateBlock Location.nowhere block = relocateBlock Location.nowhere block'
  | [], _, .nil => rfl
  | _ :: _, _, .cons hop hrest => by
      simp only [relocateBlock, Operation.relocate_nowhere_of_moved hop,
        relocateBlock_nowhere_of_sameCode hrest]

end

/-- The same routine, but for the places of its operations. -/
def Routine.SameButPlaces (r r' : Routine) : Prop :=
  r.relocate Location.nowhere = r'.relocate Location.nowhere

/-- The same routines, but for the places of their operations. -/
def RoutineTable.SameButPlaces (t t' : RoutineTable) : Prop :=
  t.relocate Location.nowhere = t'.relocate Location.nowhere

/-- The same program, but for the places of its operations. -/
def Program.SameButPlaces (p p' : Program) : Prop :=
  p.relocate Location.nowhere = p'.relocate Location.nowhere

theorem Program.sameButPlaces_iff (p p' : Program) :
    p.SameButPlaces p' ↔ p.bindings = p'.bindings ∧ p.routines.SameButPlaces p'.routines ∧
      relocateBlock Location.nowhere p.main = relocateBlock Location.nowhere p'.main := by
  rw [SameButPlaces, relocate, relocate, Program.mk.injEq]
  rfl

/-! ## Statements -/

namespace Block

/-- The two lists of statement objects are read alike, at all places and with all numbers. -/
def ListsAlike (items items' : List Json) : Prop :=
  ∀ place place' i i', Reading.Moves SameCode (readStatements place i items)
    (readStatements place' i' items')

theorem readStatements_append (place : Location) (i : Nat) (items more : List Json) :
    readStatements place i (items ++ more) = do
      let operations ← readStatements place i items
      let rest ← readStatements place (i + items.length) more
      return operations ++ rest := by
  induction items generalizing i with
  | nil =>
      rw [readStatements_nil, List.nil_append, List.length_nil, Nat.add_zero]
      exact (bind_pure _).symm
  | cons j items ih =>
      rw [List.cons_append, readStatements, readStatements, ih, List.length_cons,
        Nat.add_comm items.length, ← Nat.add_assoc]
      simp only [bind_assoc, pure_bind, List.append_assoc]

theorem readStatements_single (place : Location) (i : Nat) (j : Json) :
    readStatements place i [j] = readStatement (place.item i) j := by
  rw [readStatements, readStatements_nil]
  cases readStatement (place.item i) j with
  | error e => rfl
  | ok operations => exact congrArg Except.ok operations.append_nil

/-- The first member stands for what an object with this member alone stands for. -/
theorem readOperations_cons (place : Location) (m : String × Json) (rest : Json.Members) :
    readOperations place (m :: rest) = do
      let operations ← readStatement place (.object [m])
      let more ← readOperations place rest
      return operations ++ more := by
  obtain ⟨key, body⟩ := m
  rw [readStatement, readOperations, readOperations, readOperations_nil]
  cases readOperation place key body with
  | error e => rfl
  | ok o => rfl

theorem moves_readStatement_anywhere (place place' : Location) (j : Json) :
    (readStatement place j).Moves SameCode (readStatement place' j) :=
  moves_readStatement Location.descends_anywhere (fun _ _ h => h) trivial j

namespace ListsAlike

theorem append {items items' more more' : List Json} (h : ListsAlike items items')
    (hmore : ListsAlike more more') : ListsAlike (items ++ more) (items' ++ more') := by
  intro place place' i i'
  rw [readStatements_append, readStatements_append]
  refine Reading.Moves.bind (h place place' i i') fun _ _ hoperations => ?_
  refine Reading.Moves.bind (hmore place place' _ _) fun _ _ hrest => ?_
  exact .ok (List.rel_append hoperations hrest)

theorem single {j j' : Json} (h : ∀ place place', (readStatement place j).Moves SameCode
    (readStatement place' j')) : ListsAlike [j] [j'] := by
  intro place place' i i'
  rw [readStatements_single, readStatements_single]
  exact h _ _

theorem refl : ∀ items : List Json, ListsAlike items items
  | [] => fun place place' i i' => by
      rw [readStatements_nil, readStatements_nil]
      exact .ok .nil
  | j :: rest => (single fun place place' => moves_readStatement_anywhere place place' j).append
      (refl rest)

/-- An object, and one object for each of its members. The object has one place for all of
its members, the objects have a place each. -/
theorem singles (members : Json.Members) :
    ListsAlike [.object members] (Json.singles members) := by
  have hmoves : ∀ place place' i', Reading.Moves SameCode (readOperations place members)
      (readStatements place' i' (Json.singles members)) := by
    induction members with
    | nil =>
        intro place place' i'
        rw [readOperations_nil, Json.singles, List.map_nil, readStatements_nil]
        exact .ok .nil
    | cons m rest ih =>
        intro place place' i'
        rw [readOperations_cons, Json.singles, List.map_cons, readStatements]
        refine (moves_readStatement_anywhere place _ _).bind fun _ _ hoperations => ?_
        refine Reading.Moves.bind (ih place place' (i' + 1)) fun _ _ hmore => ?_
        exact .ok (List.rel_append hoperations hmore)
  intro place place' i i'
  rw [readStatements_single, readStatement]
  exact hmoves _ place' i'

end ListsAlike

theorem readOperations_append (place : Location) (members more : Json.Members) :
    readOperations place (members ++ more) = do
      let operations ← readOperations place members
      let rest ← readOperations place more
      return operations ++ rest := by
  induction members with
  | nil =>
      rw [readOperations_nil, List.nil_append]
      exact (bind_pure _).symm
  | cons m members ih =>
      rw [List.cons_append, readOperations_cons, readOperations_cons, ih]
      simp only [bind_assoc, pure_bind, List.append_assoc]

theorem moves_readOperations_anywhere (place place' : Location) (members : Json.Members) :
    Reading.Moves SameCode (readOperations place members) (readOperations place' members) :=
  (moves_read_and_readOperation Location.descends_anywhere fun _ _ h => h).2.2.2.1
    place members place' trivial

theorem moves_read_anywhere (place place' : Location) (j : Json) :
    (read place j).Moves SameCode (read place' j) :=
  moves_read Location.descends_anywhere (fun _ _ h => h) trivial j

end Block

/-! ## Nodes read alike -/

open Block

/-- What the first node in a position is read to at any place, the second one is read to at
any other place, but for the places. Operands are no part of this: nothing in them has a
place. -/
def ReadsAlike : Position → Json → Json → Prop
  | .operand, _, _ => False
  | .pair, _, _ => False
  | .operation key, j, j' => ∀ place place',
      (readOperation place key j).Moves (Operation.Moved Location.Anywhere)
        (readOperation place' key j')
  | .statement, j, j' => ∀ place place',
      (readStatement place j).Moves SameCode (readStatement place' j')
  | .block, j, j' => j.IsArray ∧ j'.IsArray ∧
      ∀ place place', (Block.read place j).Moves SameCode (Block.read place' j')
  | .definition, j, j' => ∀ place name,
      (Routine.read place name j).Moves Routine.SameButPlaces (Routine.read place name j')
  | .programSection key, j, j' => ∀ p p' : Program, p.SameButPlaces p' →
      (p.readSection key j).Moves Program.SameButPlaces (p'.readSection key j')
  | .document, j, j' =>
      (Program.ofJson j).Moves Program.SameButPlaces (Program.ofJson j')

/-! ### Members that are blocks -/

section Members

variable {name : String} {before after : Json.Members} {j j' : Json} {place : Location}
  {block : List Operation}

/-- Of members that differ in one block, every block is read alike. -/
theorem ReadsAlike.hasMember (h : ReadsAlike .block j j') (hbefore : name ∉ Json.keys before)
    {n : String} (place' : Location)
    (hmember : HasMember n (Block.read place · = .ok block) (before ++ (name, j) :: after)) :
    ∃ block', HasMember n (Block.read place' · = .ok block') (before ++ (name, j') :: after) ∧
      SameCode block block' := by
  by_cases hn : n = name
  · simp only [hasMember_around hbefore, if_pos hn] at hmember ⊢
    exact h.2.2 place place' _ hmember
  · simp only [hasMember_around hbefore, if_neg hn] at hmember ⊢
    obtain ⟨j, hj, hread⟩ := hmember
    obtain ⟨block', hread', hsame⟩ := moves_read_anywhere place place' j _ hread
    exact ⟨block', ⟨j, hj, hread'⟩, hsame⟩

theorem ReadsAlike.hasMemberOr (h : ReadsAlike .block j j') (hbefore : name ∉ Json.keys before)
    {n : String} (place' : Location)
    (hmember : HasMemberOr n (Block.read place · = .ok block) (block = [])
      (before ++ (name, j) :: after)) :
    ∃ block', HasMemberOr n (Block.read place' · = .ok block') (block' = [])
      (before ++ (name, j') :: after) ∧ SameCode block block' := by
  rcases hmember with hmember | ⟨hnone, rfl⟩
  · obtain ⟨block', hmember', hsame⟩ := h.hasMember hbefore place' hmember
    exact ⟨block', .inl hmember', hsame⟩
  · have hnone' := (Json.lookup_around_eq_none_iff hbefore j' n).2
      ((Json.lookup_around_eq_none_iff hbefore j n).1 hnone)
    exact ⟨[], .inr ⟨hnone', rfl⟩, .nil⟩

end Members

/-! ### Operations -/

section Operations

variable {name : String} {before : Json.Members} (hbefore : name ∉ Json.keys before)
  (after : Json.Members) {j j' : Json} (h : ReadsAlike .block j j')
include hbefore h

theorem ReadsAlike.branch (hcondition : "condition" ≠ name) :
    ReadsAlike (.operation "if") (.object (before ++ (name, j) :: after))
      (.object (before ++ (name, j') :: after)) := by
  intro place place' o ho
  obtain ⟨_, ⟨⟩, condition, hc, thenBlock, hthen, elseBlock, helse, rfl⟩ :=
    (readOperation_if_eq_ok_iff ..).1 ho
  obtain ⟨thenBlock', hthen', hsame⟩ := h.hasMember hbefore ((place'.key "if").key "then") hthen
  obtain ⟨elseBlock', helse', hsame'⟩ :=
    h.hasMemberOr hbefore ((place'.key "if").key "else") helse
  simp only [hasMember_around hbefore, if_neg hcondition] at hc
  refine ⟨_, (readOperation_if_eq_ok_iff ..).2 ⟨_, rfl, condition, ?_, thenBlock', hthen',
    elseBlock', helse', rfl⟩, .choose trivial condition hsame hsame'⟩
  simpa only [hasMember_around hbefore, if_neg hcondition] using hc

theorem ReadsAlike.loopBody (htimes : "times" ≠ name) (hcount : "count" ≠ name) :
    ReadsAlike (.operation "loop") (.object (before ++ (name, j) :: after))
      (.object (before ++ (name, j') :: after)) := by
  intro place place' o ho
  obtain ⟨_, ⟨⟩, count, hc, block, hbody, rfl⟩ := (readOperation_loop_eq_ok_iff ..).1 ho
  obtain ⟨block', hbody', hsame⟩ := h.hasMember hbefore ((place'.key "loop").key "body") hbody
  refine ⟨_, (readOperation_loop_eq_ok_iff ..).2 ⟨_, rfl, count, ?_, block', hbody', rfl⟩,
    .times trivial count hsame⟩
  simpa only [DenotesCount, hasMember_around hbefore, Json.lookup_around_eq_none_iff hbefore,
    if_neg htimes, if_neg hcount] using hc

theorem ReadsAlike.whileBody (hcondition : "condition" ≠ name) :
    ReadsAlike (.operation "while") (.object (before ++ (name, j) :: after))
      (.object (before ++ (name, j') :: after)) := by
  intro place place' o ho
  obtain ⟨_, ⟨⟩, condition, hc, block, hbody, rfl⟩ := (readOperation_while_eq_ok_iff ..).1 ho
  obtain ⟨block', hbody', hsame⟩ := h.hasMember hbefore ((place'.key "while").key "body") hbody
  refine ⟨_, (readOperation_while_eq_ok_iff ..).2 ⟨_, rfl, condition, ?_, block', hbody', rfl⟩,
    .whilst trivial condition hsame⟩
  simpa only [hasMember_around hbefore, if_neg hcondition] using hc

end Operations

/-! ### Statements and blocks -/

theorem ReadsAlike.operation {key : String} {j j' : Json} (h : ReadsAlike (.operation key) j j')
    (before after : Json.Members) :
    ReadsAlike .statement (.object (before ++ (key, j) :: after))
      (.object (before ++ (key, j') :: after)) := by
  intro place place'
  rw [readStatement, readStatement, readOperations_append, readOperations_append]
  refine (moves_readOperations_anywhere place place' before).bind fun _ _ hbefore => ?_
  refine Reading.Moves.bind (R := SameCode) ?_ fun _ _ hrest => .ok (List.rel_append hbefore hrest)
  rw [readOperations, readOperations]
  refine (h place place').bind fun _ _ ho => ?_
  exact (moves_readOperations_anywhere place place' after).bind fun _ _ hafter =>
    .ok (.cons ho hafter)

/-- Some statements in the middle of a block are replaced. -/
theorem readsAlike_block {items items' : List Json} (h : ListsAlike items items')
    (before after : List Json) :
    ReadsAlike .block (.array (before ++ (items ++ after)))
      (.array (before ++ (items' ++ after))) := by
  refine ⟨⟨_, rfl⟩, ⟨_, rfl⟩, fun place place' => ?_⟩
  rw [Block.read, Block.read]
  exact (ListsAlike.refl before).append (h.append (.refl after)) place place' 0 0

theorem ReadsAlike.statement {j j' : Json} (h : ReadsAlike .statement j j')
    (before after : List Json) :
    ReadsAlike .block (.array (before ++ j :: after)) (.array (before ++ j' :: after)) :=
  readsAlike_block (.single h) before after

/-- A block with one statement split. -/
theorem readsAlike_split (before : List Json) (members : Json.Members) (after : List Json) :
    ReadsAlike .block (.array (before ++ .object members :: after))
      (.array (before ++ (Json.singles members ++ after))) :=
  readsAlike_block (.singles members) before after

/-! ### Documents -/

theorem ReadsAlike.routineBody {before : Json.Members} (hbefore : "body" ∉ Json.keys before)
    (after : Json.Members) {j j' : Json} (h : ReadsAlike .block j j') :
    ReadsAlike .definition (.object (before ++ ("body", j) :: after))
      (.object (before ++ ("body", j') :: after)) := by
  intro place name r hr
  obtain ⟨_, ⟨⟩, parameters, hparameters, body, hbody, rfl⟩ := (Routine.read_eq_ok_iff ..).1 hr
  obtain ⟨body', hbody', hsame⟩ := h.hasMember hbefore (place.key "body") hbody
  refine ⟨_, (Routine.read_eq_ok_iff ..).2 ⟨_, rfl, parameters, ?_, body', hbody', rfl⟩, ?_⟩
  · simpa only [hasMember_around hbefore, String.reduceEq, if_false] using hparameters
  · rw [Routine.SameButPlaces, Routine.relocate, Routine.relocate,
      relocateBlock_nowhere_of_sameCode hsame]

/-- Routines that are the same but for places are defined, or refused, together. -/
theorem RoutineTable.map_define? (h : Location → Location) (t : RoutineTable) (r : Routine) :
    (t.define? r).map (relocate h) = (t.relocate h).define? (r.relocate h) := by
  have hcontains : (t.relocate h).routines.contains (r.relocate h).name =
      t.routines.contains r.name := by
    simp only [relocate, Routine.relocate, NameMap.contains, NameMap.get?_map, Option.isSome_map]
  rw [define?, define?, hcontains]
  split
  · rfl
  · rw [Option.map_some, Option.some.injEq, relocate, RoutineTable.mk.injEq]
    apply NameMap.ext_get?
    intro name
    simp only [relocate, Routine.relocate, NameMap.get?_map, NameMap.get?_insert]
    split <;> rfl

/-- Routines with the same name, and definitions that are read alike. -/
def DefinitionsAlike (m m' : String × Json) : Prop :=
  m.1 = m'.1 ∧ ReadsAlike .definition m.2 m'.2

theorem moves_readInto (place : Location) {members members' : Json.Members}
    (hmembers : List.Forall₂ DefinitionsAlike members members') {t t' : RoutineTable} (ht : t.SameButPlaces t') :
    Reading.Moves RoutineTable.SameButPlaces (t.readInto place members)
      (t'.readInto place members') := by
  induction hmembers generalizing t t' with
  | nil => exact .ok ht
  | @cons m m' _ _ hm _ ih =>
      obtain ⟨name, content⟩ := m
      obtain ⟨_, content'⟩ := m'
      obtain ⟨rfl, hcontent⟩ := hm
      rw [RoutineTable.readInto, RoutineTable.readInto]
      refine Reading.Moves.bind (hcontent (place.key name) name) fun r r' hr => ?_
      have hdefine := t.map_define? Location.nowhere r
      rw [show t.relocate _ = _ from ht, show r.relocate _ = _ from hr,
        ← t'.map_define? Location.nowhere r'] at hdefine
      cases hd : t.define? r with
      | none => exact .fail _ _
      | some u =>
          rw [hd, Option.map_some, Eq.comm, Option.map_eq_some_iff] at hdefine
          obtain ⟨u', hd', hu⟩ := hdefine
          rw [hd']
          exact ih hu.symm

section Sections

variable {p p' : Program} (hp : p.SameButPlaces p')
include hp

theorem moves_readVariables (content : Json) :
    Reading.Moves Program.SameButPlaces (p.readSection "variables" content)
      (p'.readSection "variables" content) := by
  obtain ⟨-, hroutines, hmain⟩ := (Program.sameButPlaces_iff p p').1 hp
  rw [Program.readSection, Program.readSection]
  intro q hq
  obtain ⟨members, hmembers, hq⟩ := (Reading.bind_eq_ok _ _ _).1 hq
  obtain ⟨bindings, hbindings, ⟨⟩⟩ := (Reading.bind_eq_ok _ _ _).1 hq
  refine ⟨{ p' with bindings }, (Reading.bind_eq_ok _ _ _).2 ⟨members, hmembers,
    (Reading.bind_eq_ok _ _ _).2 ⟨bindings, hbindings, rfl⟩⟩, ?_⟩
  exact (Program.sameButPlaces_iff _ _).2 ⟨rfl, hroutines, hmain⟩

theorem moves_readFunctions {members members' : Json.Members}
    (hmembers : List.Forall₂ DefinitionsAlike members members') :
    Reading.Moves Program.SameButPlaces (p.readSection "functions" (.object members))
      (p'.readSection "functions" (.object members')) := by
  obtain ⟨hbindings, -, hmain⟩ := (Program.sameButPlaces_iff p p').1 hp
  rw [Program.readSection, Program.readSection]
  exact (moves_readInto _ hmembers rfl).bind fun t t' ht =>
    .ok ((Program.sameButPlaces_iff _ _).2 ⟨hbindings, ht, hmain⟩)

theorem moves_readMain {j j' : Json} (h : ∀ place place',
    (Block.read place j).Moves SameCode (Block.read place' j')) :
    Reading.Moves Program.SameButPlaces (p.readSection "main" j) (p'.readSection "main" j') := by
  obtain ⟨hbindings, hroutines, -⟩ := (Program.sameButPlaces_iff p p').1 hp
  rw [Program.readSection, Program.readSection]
  exact Reading.Moves.bind (h _ _) fun main main' hmain => .ok
    ((Program.sameButPlaces_iff _ _).2
      ⟨hbindings, hroutines, relocateBlock_nowhere_of_sameCode hmain⟩)

end Sections

theorem definitionsAlike_self (members : Json.Members) :
    List.Forall₂ DefinitionsAlike members members :=
  List.forall₂_same.2 fun _ _ => ⟨rfl, fun _ _ r hr => ⟨r, hr, rfl⟩⟩

theorem readsAlike_section_self (key : String) (content : Json) :
    ReadsAlike (.programSection key) content content := by
  intro p p' hp
  by_cases hvariables : key = "variables"
  · subst hvariables
    exact moves_readVariables hp content
  by_cases hfunctions : key = "functions"
  · subst hfunctions
    cases content with
    | object members => exact moves_readFunctions hp (definitionsAlike_self members)
    | null | bool | number | string | array => exact .fail _ _
  by_cases hmain : key = "main"
  · subst hmain
    exact moves_readMain hp fun place place' => moves_read_anywhere place place' content
  · rw [Program.readSection]
    · exact .fail _ _
    all_goals assumption

theorem ReadsAlike.routine {j j' : Json} (h : ReadsAlike .definition j j') (name : String)
    (before after : Json.Members) :
    ReadsAlike (.programSection "functions") (.object (before ++ (name, j) :: after))
      (.object (before ++ (name, j') :: after)) := by
  intro p p' hp
  have hchanged : DefinitionsAlike (name, j) (name, j') := ⟨rfl, h⟩
  exact moves_readFunctions hp (List.rel_append (definitionsAlike_self before)
    (.cons hchanged (definitionsAlike_self after)))

/-- Sections with the same key, and contents that are read alike. -/
def SectionsAlike (m m' : String × Json) : Prop :=
  m.1 = m'.1 ∧ ReadsAlike (.programSection m.1) m.2 m'.2

theorem moves_readSections {sections sections' : Json.Members}
    (hsections : List.Forall₂ SectionsAlike sections sections') {p p' : Program}
    (hp : p.SameButPlaces p') :
    Reading.Moves Program.SameButPlaces (p.readSections sections)
      (p'.readSections sections') := by
  induction hsections generalizing p p' with
  | nil => exact .ok hp
  | @cons m m' _ _ hm _ ih =>
      obtain ⟨key, content⟩ := m
      obtain ⟨_, content'⟩ := m'
      obtain ⟨rfl, hcontent⟩ := hm
      rw [Program.readSections, Program.readSections]
      exact (hcontent p p' hp).bind fun _ _ hq => ih hq

theorem ReadsAlike.programSection {key : String} {j j' : Json}
    (h : ReadsAlike (.programSection key) j j') (before after : Json.Members) :
    ReadsAlike .document (.object [("program", .object (before ++ (key, j) :: after))])
      (.object [("program", .object (before ++ (key, j') :: after))]) := by
  have hself : ∀ members : Json.Members, List.Forall₂ SectionsAlike members members :=
    fun members => List.forall₂_same.2 fun m _ => ⟨rfl, readsAlike_section_self m.1 m.2⟩
  have hchanged : SectionsAlike (key, j) (key, j') := ⟨rfl, h⟩
  exact moves_readSections (List.rel_append (hself before) (.cons hchanged (hself after))) rfl

theorem ReadsAlike.bare {j j' : Json} (h : ReadsAlike .block j j') : ReadsAlike .document j j' := by
  obtain ⟨⟨items, rfl⟩, ⟨items', rfl⟩, hread⟩ := h
  intro p hp
  rw [Program.ofJson_array] at hp
  obtain ⟨main, hmain, rfl⟩ := (Reading.map_eq_ok_iff ..).1 hp
  obtain ⟨main', hmain', hsame⟩ := hread (.ofRoot "main") (.ofRoot "main") main hmain
  refine ⟨{ Program.empty with main := main' }, ?_, ?_⟩
  · rw [Program.ofJson_array]
    exact (Reading.map_eq_ok_iff ..).2 ⟨main', hmain', rfl⟩
  · exact (Program.sameButPlaces_iff _ _).2
      ⟨rfl, rfl, relocateBlock_nowhere_of_sameCode hsame⟩

/-- What nodes stand in that are read alike is read alike. -/
theorem Within.readsAlike {p q : Position} {put : Json → Json} (hput : Within p q put)
    {j j' : Json} (h : ReadsAlike p j j') : ReadsAlike q (put j) (put j') := by
  cases hput with
  | negated | operands | left | right | part | updated | value | printed | printedItem
  | condition | count | argument => exact h.elim
  | branch hname hbefore after =>
      refine h.branch hbefore after ?_
      rintro rfl
      exact absurd hname (by decide)
  | body hkey hbefore after =>
      simp only [List.mem_cons, List.not_mem_nil, or_false] at hkey
      rcases hkey with rfl | rfl
      · exact h.loopBody hbefore after (by decide) (by decide)
      · exact h.whileBody hbefore after (by decide)
  | operation key before after => exact h.operation before after
  | statement before after => exact h.statement before after
  | routineBody hbefore after => exact h.routineBody hbefore after
  | routine name before after => exact h.routine name before after
  | main => exact fun p p' hp => moves_readMain hp h.2.2
  | programSection key before after => exact h.programSection before after
  | bare => exact h.bare

theorem Splits.readsAlike {p : Position} {j j' : Json} (h : Splits p j j') :
    ReadsAlike p j j' := by
  induction h with
  | here before members after => exact readsAlike_split before members after
  | inside hput _ ih => exact hput.readsAlike ih

/-! ## Runs -/

/-- Two runs of programs that are the same but for places have ended: with the same fault if
any, on machines that are the same but for their routines' places, and with the same faults
noted, in the same order. -/
structure EndsButPlaces (r : Option Diagnostic) (m : Machine) (r' : Option Diagnostic)
    (m' : Machine) : Prop where
  fault : r.map Diagnostic.fault = r'.map Diagnostic.fault
  warnings : m.warnings.map Diagnostic.fault = m'.warnings.map Diagnostic.fault
  environment : m.environment = m'.environment
  sink : m.sink = m'.sink
  limits : m.limits = m'.limits
  depth : m.depth = m'.depth
  steps : m.steps = m'.steps

/-- Two outcomes that are related to one and the same. -/
theorem Outcome.Rel.meet {Q R : Option Diagnostic → Machine → Option Diagnostic → Machine → Prop}
    {o o' o'' : Outcome} (h : Outcome.Rel Q o o'') (h' : Outcome.Rel Q o' o'')
    (hmeet : ∀ r m r' m' r'' m'', Q r m r'' m'' → Q r' m' r'' m'' → R r m r' m') :
    Outcome.Rel R o o' := by
  cases h with
  | done h =>
      cases h' with
      | done h' => exact .done (hmeet _ _ _ _ _ _ h h')
  | failed h =>
      cases h' with
      | failed h' => exact .failed (hmeet _ _ _ _ _ _ h h')
  | outOfFuel =>
      cases h' with
      | outOfFuel => exact .outOfFuel

theorem EndsRelocated.faults {h : Location → Location} {t : RoutineTable}
    {r r' : Option Diagnostic} {m m' : Machine} (hends : EndsRelocated h t #[] r m r' m') :
    EndsButPlaces r m r' m' := by
  obtain ⟨rfl, notes, hnotes, rfl⟩ := hends
  have hfault : Diagnostic.fault ∘ Diagnostic.relocate h = Diagnostic.fault := rfl
  refine ⟨?_, ?_, rfl, rfl, rfl, rfl, rfl⟩
  · rw [Option.map_map, hfault]
  · rw [hnotes, Array.empty_append, Array.empty_append, Array.map_map, hfault]

/-- Two runs that end as one and the same run does, but for places. -/
theorem EndsButPlaces.meet {r r' r'' : Option Diagnostic} {m m' m'' : Machine}
    (h : EndsButPlaces r m r'' m'') (h' : EndsButPlaces r' m' r'' m'') :
    EndsButPlaces r m r' m' where
  fault := h.fault.trans h'.fault.symm
  warnings := h.warnings.trans h'.warnings.symm
  environment := h.environment.trans h'.environment.symm
  sink := h.sink.trans h'.sink.symm
  limits := h.limits.trans h'.limits.symm
  depth := h.depth.trans h'.depth.symm
  steps := h.steps.trans h'.steps.symm

/-- Both programs run as the program does that has one place everywhere. -/
theorem Program.SameButPlaces.run {p p' : Program} (h : p.SameButPlaces p') (fuel : Nat)
    (m : Machine) : Outcome.Rel EndsButPlaces (m.run fuel p) (m.run fuel p') := by
  have hrun (p : Program) : Outcome.Rel EndsButPlaces (m.run fuel p)
      (m.run fuel (p.relocate Location.nowhere)) :=
    (Machine.endsRelocated_runBlock Location.nowhere fuel p.main (m.load p)).mono
      fun _ _ _ _ hends => hends.faults
  have hleft := hrun p
  rw [show p.relocate _ = _ from h] at hleft
  exact hleft.meet (hrun p') fun _ _ _ _ _ _ h₁ h₂ => h₁.meet h₂

/-! ## Split documents -/

/-- **A statement with several keys is a sequence.**  Split any number of statement objects
of an accepted document, in any blocks, into objects with one key each, in the same order.
The new document is accepted. Its program is the same but for the places of its operations.
On every machine it ends exactly if the other one does, with the same fault if any, the same
output, variables and steps, and with the same faults noted in the same order. -/
theorem load_of_split {j j' : Json} {p : Program}
    (h : Relation.ReflTransGen (Splits .document) j j') (hload : Program.load j = .ok p) :
    ∃ p', Program.load j' = .ok p' ∧ p.SameButPlaces p' ∧ ∀ (fuel : Nat) (m : Machine),
      Outcome.Rel EndsButPlaces (m.run fuel p) (m.run fuel p') := by
  have hsame : ∃ p', Program.load j' = .ok p' ∧ p.SameButPlaces p' := by
    induction h with
    | refl => exact ⟨p, hload, rfl⟩
    | tail _ hstep ih =>
        obtain ⟨q, hq, hp⟩ := ih
        obtain ⟨p', hload', hsame⟩ := hstep.readsAlike q ((Program.load_eq_ok_iff _ _).1 hq)
        exact ⟨p', (Program.load_eq_ok_iff _ _).2 hload', hp.trans hsame⟩
  obtain ⟨p', hload', hp⟩ := hsame
  exact ⟨p', hload', hp, fun fuel m => hp.run fuel m⟩

/-- A routine and a branch with a statement of several keys each, and a statement without
keys before the branch. -/
def sequencesDocument : Json :=
  .object [("program", .object [
    ("functions", .object [("inner", .object [("parameters", .array []), ("body", .array [
      .object [("second", .null), ("third", .null)]])])]),
    ("main", .array [
      .object [],
      .object [("if", .object [("condition", .bool true), ("then", .array [
        .object [("first", .null), ("call", .object [("function", .string "inner")]),
          ("fourth", .null)]])])]])])]

/-- The same with one key in each statement. -/
def singlesDocument : Json :=
  .object [("program", .object [
    ("functions", .object [("inner", .object [("parameters", .array []), ("body", .array [
      .object [("second", .null)], .object [("third", .null)]])])]),
    ("main", .array [
      .object [("if", .object [("condition", .bool true), ("then", .array [
        .object [("first", .null)], .object [("call", .object [("function", .string "inner")])],
        .object [("fourth", .null)]])])]])])]

/-- What the first document stands for. -/
def sequencesProgram : Program :=
  let body := ((Location.ofRoot "functions").key "inner").key "body"
  let choice := (Location.ofRoot "main").item 1
  let branch := ((choice.key "if").key "then").item 0
  { Program.empty with
    routines := ⟨.ofList [("inner", ⟨"inner", [], [
      .act (body.item 0) (.unknown "second"), .act (body.item 0) (.unknown "third")]⟩)]⟩
    main := [.choose choice (.literal (.bool true)) [
      .act branch (.unknown "first"), .call branch "inner" [],
      .act branch (.unknown "fourth")] []] }

theorem load_sequencesDocument : Program.load sequencesDocument = .ok sequencesProgram := by
  have hunknown (key : String) (hcontrol : key ∉ ["if", "loop", "while", "call"])
      (haction : ∀ place, Block.readAction place key .null = .ok (.unknown key))
      (place : Location) :
      Block.readOperation place key .null = .ok (.act place (.unknown key)) := by
    rw [Block.readOperation_act place _ hcontrol, haction]
    rfl
  have hfirst := hunknown "first" (by decide) fun _ => rfl
  have hsecond := hunknown "second" (by decide) fun _ => rfl
  have hthird := hunknown "third" (by decide) fun _ => rfl
  have hfourth := hunknown "fourth" (by decide) fun _ => rfl
  have hcall (place : Location) : Block.readOperation place "call"
      (.object [("function", .string "inner")]) = .ok (.call place "inner" []) := by
    rw [Block.readOperation_call]
    rfl
  have hthen (place : Location) : Block.read place (.array [
      .object [("first", .null), ("call", .object [("function", .string "inner")]),
        ("fourth", .null)]]) = .ok [.act (place.item 0) (.unknown "first"),
          .call (place.item 0) "inner" [], .act (place.item 0) (.unknown "fourth")] := by
    simp only [Block.read, readStatements, readStatement, readOperations, hfirst, hcall, hfourth]
    rfl
  have hchoice (place : Location) : Block.readOperation place "if" (.object [
      ("condition", .bool true), ("then", .array [.object [("first", .null),
        ("call", .object [("function", .string "inner")]), ("fourth", .null)]])]) =
      .ok (.choose place (.literal (.bool true)) _ []) :=
    (Block.readOperation_if_eq_ok_iff ..).2 ⟨_, rfl, _,
      ⟨_, rfl, .scalar rfl (by rintro ⟨_, ⟨⟩⟩)⟩, _, ⟨_, rfl, hthen _⟩, _, .inr ⟨rfl, rfl⟩, rfl⟩
  have hbody (place : Location) : Block.read place (.array [
      .object [("second", .null), ("third", .null)]]) =
        .ok [.act (place.item 0) (.unknown "second"), .act (place.item 0) (.unknown "third")] := by
    simp only [Block.read, readStatements, readStatement, readOperations, hsecond, hthird]
    rfl
  have hroutine (place : Location) : Routine.read place "inner" (.object [
      ("parameters", .array []), ("body", .array [
        .object [("second", .null), ("third", .null)]])]) = .ok ⟨"inner", [], _⟩ :=
    (Routine.read_eq_ok_iff ..).2 ⟨_, rfl, _, ⟨_, rfl, rfl⟩, _, ⟨_, rfl, hbody _⟩, rfl⟩
  have hfunctions : RoutineTable.empty.readInto (.ofRoot "functions") [("inner", .object [
      ("parameters", .array []), ("body", .array [
        .object [("second", .null), ("third", .null)]])])] = .ok sequencesProgram.routines := by
    rw [RoutineTable.readInto, hroutine]
    rfl
  have hmain : Block.read (.ofRoot "main") (.array [.object [], .object [("if", .object [
      ("condition", .bool true), ("then", .array [.object [("first", .null),
        ("call", .object [("function", .string "inner")]), ("fourth", .null)]])])]]) =
      .ok sequencesProgram.main := by
    simp only [Block.read, readStatements, readStatement, readOperations, hchoice]
    rfl
  rw [Program.load_eq_ok_iff]
  show Program.empty.readSections _ = _
  rw [Program.readSections, Program.readSection]
  show (RoutineTable.empty.readInto _ _ >>= _) >>= _ = _
  rw [hfunctions]
  show (Block.read _ _ >>= _) >>= _ = _
  rw [hmain]
  rfl

/-- The routine, the branch and the main block are split one after the other. -/
theorem split_sequencesDocument :
    Relation.ReflTransGen (Splits .document) sequencesDocument singlesDocument := by
  have hroutine : Splits (.programSection "functions") _ _ :=
    .inside (.routine "inner" [] []) (.inside (@Within.routineBody [("parameters", .array [])]
      (by decide) []) (.here [] [("second", .null), ("third", .null)] []))
  have hbranch : Splits (.operation "if") _ _ :=
    .inside (@Within.branch "then" (by decide) [("condition", .bool true)] (by decide) [])
      (.here [] [("first", .null), ("call", .object [("function", .string "inner")]),
        ("fourth", .null)] [])
  have hmain {j j' : Json} (h : Splits .block j j') (routines : Json) :
      Splits .document (.object [("program", .object [("functions", routines), ("main", j)])])
        (.object [("program", .object [("functions", routines), ("main", j')])]) :=
    .inside (.programSection "main" [_] []) (.inside .main h)
  refine .head (.inside (.programSection "functions" [] [_]) hroutine)
    (.head (hmain (.here [] [] [_]) _) (.single ?_))
  exact hmain (.inside (.statement [] []) (.inside (.operation "if" [] []) hbranch)) _

/-- Four warnings, two of them from the call between the other two. -/
theorem load_of_split_sequences :
    Relation.ReflTransGen (Splits .document) sequencesDocument singlesDocument ∧
      Program.load sequencesDocument = .ok sequencesProgram ∧
      ∃ p', Program.load singlesDocument = .ok p' ∧ sequencesProgram.SameButPlaces p' ∧
        ∃ m', (Machine.start ⟨1, none⟩ .emptyBuffer).run 12 p' = .done m' ∧
          m'.warnings.map Diagnostic.fault = #[.unknownOperation "first",
            .unknownOperation "second", .unknownOperation "third", .unknownOperation "fourth"] := by
  obtain ⟨p', hload, hsame, hruns⟩ := load_of_split split_sequencesDocument load_sequencesDocument
  refine ⟨split_sequencesDocument, load_sequencesDocument, p', hload, hsame, ?_⟩
  have hrun : ∃ m p₁ p₂ p₃ p₄,
      (Machine.start ⟨1, none⟩ .emptyBuffer).run 12 sequencesProgram = .done m ∧
        m.warnings = #[⟨.unknownOperation "first", p₁⟩, ⟨.unknownOperation "second", p₂⟩,
          ⟨.unknownOperation "third", p₃⟩, ⟨.unknownOperation "fourth", p₄⟩] :=
    ⟨_, _, _, _, _, rfl, rfl⟩
  obtain ⟨m, p₁, p₂, p₃, p₄, hdone, hwarnings⟩ := hrun
  have hends := hruns 12 (Machine.start ⟨1, none⟩ .emptyBuffer)
  rw [hdone] at hends
  generalize Machine.run 12 p' _ = o at hends ⊢
  cases hends with
  | done h =>
      refine ⟨_, rfl, ?_⟩
      rw [← h.warnings, hwarnings]
      simp

end JsonScript
