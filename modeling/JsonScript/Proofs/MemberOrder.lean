import JsonScript.Machine.Run
import JsonScript.Proofs.DocumentReadings
import JsonScript.Proofs.ReadingPlaces
import JsonScript.Proofs.Spelling
import Mathlib.Data.List.Perm.Basic

/-!
# The order of members

The keys of a statement object are operations one after the other, and the items
of an array come in order. Everywhere else a document says things by name: the
fields of an operation, of a pair of operands and of a definition, the variables,
the routines, and the sections of a program. `Reorders` lists the documents that
differ in the order of such members, somewhere.

They stand for the same program, but for the order in which the variables at the
start are listed, and a program does not see that order. The invariant is
`AgreesUnordered`: below the sections two nodes are read to the same (`Agrees`),
sections make programs alike into programs alike.

## Main results

* `Unordered.agrees` — the order of the members of one object.
* `Reorders.agrees` — and of everything it stands in.
* `load_of_reordered` — reordered documents load to programs that run the same.
-/

namespace JsonScript

/-! ## Reordered documents -/

/-- The positions whose objects say things by name. -/
inductive Unordered : Position → Prop where
  | pair : Unordered .pair
  | operation {key : String}
      (hkey : key ∈ ["if", "loop", "while", "call"] ++ "declare" :: "assign" :: arithmeticKeys) :
      Unordered (.operation key)
  | definition : Unordered .definition
  | programSection {key : String} (hkey : key ∈ ["variables", "functions"]) :
      Unordered (.programSection key)

/-- The members of one object come in another order, somewhere. -/
inductive Reorders : Position → Json → Json → Prop where
  | members {p : Position} (hp : Unordered p) {members members' : Json.Members}
      (h : members.Perm members') : Reorders p (.object members) (.object members')
  | sections {sections sections' : Json.Members} (h : sections.Perm sections') :
      Reorders .document (.object [("program", .object sections)])
        (.object [("program", .object sections')])
  | inside {p q : Position} {put : Json → Json} {j j' : Json} (hput : Within p q put)
      (h : Reorders p j j') : Reorders q (put j) (put j')

namespace Json

theorem uniqueKeys_object_iff_of_perm {members members' : Members} (h : members.Perm members') :
    UniqueKeys (.object members) ↔ UniqueKeys (.object members') := by
  have hkeys : (keys members).Perm (keys members') := h.map Prod.fst
  simp only [uniqueKeys_object_iff, hkeys.nodup_iff, h.mem_iff]

theorem uniqueKeys_member_iff (name : String) (j : Json) (before after : Members) :
    UniqueKeys (.object (before ++ (name, j) :: after)) ↔
      j.UniqueKeys ∧ (keys before ++ name :: keys after).Nodup ∧
        ∀ m ∈ before ++ after, UniqueKeys m.2 := by
  rw [uniqueKeys_object_iff, keys, List.map_append, List.map_cons, List.forall_mem_append,
    List.forall_mem_append, List.forall_mem_cons]
  tauto

theorem uniqueKeys_item_iff (j : Json) (before after : List Json) :
    UniqueKeys (.array (before ++ j :: after)) ↔
      j.UniqueKeys ∧ ∀ item ∈ before ++ after, UniqueKeys item := by
  rw [uniqueKeys_array_iff, List.forall_mem_append, List.forall_mem_append, List.forall_mem_cons]
  tauto

end Json

theorem Within.uniqueKeys {p q : Position} {put : Json → Json} (hput : Within p q put) {j : Json}
    (h : (put j).UniqueKeys) : j.UniqueKeys := by
  cases hput with
  | negated | operands | left | right | updated | printed | main | bare => simp_all
  | printedItem | statement => exact ((Json.uniqueKeys_item_iff ..).1 h).1
  | argument =>
      exact ((Json.uniqueKeys_item_iff ..).1 ((Json.uniqueKeys_member_iff ..).1 h).1).1
  | programSection =>
      have hsections := ((Json.uniqueKeys_object_iff _).1 h).2 _ List.mem_cons_self
      exact ((Json.uniqueKeys_member_iff ..).1 hsections).1
  | part | value | condition | branch | count | body | operation | routineBody | routine =>
      exact ((Json.uniqueKeys_member_iff ..).1 h).1

/-- Whether keys are unique in what a node stands in depends on the node only in
this respect. -/
theorem Within.uniqueKeys_iff {p q : Position} {put : Json → Json} (hput : Within p q put)
    {j j' : Json} (h : j.UniqueKeys ↔ j'.UniqueKeys) :
    (put j).UniqueKeys ↔ (put j').UniqueKeys := by
  cases hput with
  | negated | operands | left | right | updated | printed | main | bare => simp [Json.keys, h]
  | printedItem | statement => rw [Json.uniqueKeys_item_iff, Json.uniqueKeys_item_iff, h]
  | argument =>
      rw [Json.uniqueKeys_member_iff, Json.uniqueKeys_member_iff, Json.uniqueKeys_item_iff,
        Json.uniqueKeys_item_iff, h]
  | programSection =>
      simp only [Json.uniqueKeys_object_iff [_], List.forall_mem_singleton,
        Json.uniqueKeys_member_iff, h]
      rfl
  | part | value | condition | branch | count | body | operation | routineBody | routine =>
      rw [Json.uniqueKeys_member_iff, Json.uniqueKeys_member_iff, h]

theorem Reorders.uniqueKeys_iff {p : Position} {j j' : Json} (h : Reorders p j j') :
    j.UniqueKeys ↔ j'.UniqueKeys := by
  induction h with
  | members _ h => exact Json.uniqueKeys_object_iff_of_perm h
  | sections h =>
      have hsections := Json.uniqueKeys_object_iff_of_perm h
      simp only [Json.uniqueKeys_object_iff [_], List.forall_mem_singleton, hsections]
      rfl
  | inside hput _ ih => exact hput.uniqueKeys_iff ih

/-! ## Members by name

Readers that look members up by name find the same in another order. -/

section Lookup

variable {members members' : Json.Members} (h : ∀ name, members.lookup name = members'.lookup name)
include h

theorem hasMember_congr (name : String) (P : Json → Prop) :
    HasMember name P members ↔ HasMember name P members' := by
  rw [HasMember, HasMember, h]

theorem hasMemberOr_congr (name : String) (P : Json → Prop) (Q : Prop) :
    HasMemberOr name P Q members ↔ HasMemberOr name P Q members' := by
  rw [HasMemberOr, HasMemberOr, h, hasMember_congr h]

theorem agrees_pair_of_lookup : Agrees .pair (.object members) (.object members') := by
  refine ⟨?_, fun a b => ?_, fun name e => ?_⟩
  · simp only [namesVariable_object_iff, hasMember_congr h]
  · simp only [denotesPair_object_iff, hasMember_congr h]
  · simp only [denotesTarget_object_iff, hasMember_congr h]

theorem agrees_target_of_lookup {key : String} (hkey : key ∈ ["declare", "assign"]) :
    Agrees (.operation key) (.object members) (.object members') := by
  have htarget := (agrees_pair_of_lookup h).2.2
  have hread : ∀ place, (Block.readTarget place (.object members)).Same
      (Block.readTarget place (.object members')) := by
    rintro place ⟨name, e⟩
    rw [Block.readTarget_eq_ok_iff, Block.readTarget_eq_ok_iff, htarget]
  simp only [List.mem_cons, List.not_mem_nil, or_false] at hkey
  rcases hkey with rfl | rfl
  · exact agrees_act (by decide) fun place => (hread place).map _
  · exact agrees_act (by decide) fun place => (hread place).map _

theorem agrees_control_of_lookup {key : String} (hkey : key ∈ ["if", "loop", "while", "call"]) :
    Agrees (.operation key) (.object members) (.object members') := by
  simp only [List.mem_cons, List.not_mem_nil, or_false] at hkey
  rcases hkey with rfl | rfl | rfl | rfl
  · intro place o
    simp only [Block.readOperation_if_eq_ok_iff, Json.object.injEq, exists_eq_left',
      hasMember_congr h, hasMemberOr_congr h]
  · intro place o
    simp only [Block.readOperation_loop_eq_ok_iff, Json.object.injEq, exists_eq_left',
      DenotesCount, hasMember_congr h, h]
  · intro place o
    simp only [Block.readOperation_while_eq_ok_iff, Json.object.injEq, exists_eq_left',
      hasMember_congr h]
  · apply agrees_call
    rintro place ⟨name, es⟩
    simp only [Block.readCall_eq_ok_iff, Json.object.injEq, exists_eq_left', hasMember_congr h,
      hasMemberOr_congr h]

theorem agrees_definition_of_lookup : Agrees .definition (.object members) (.object members') := by
  intro place name r
  simp only [Routine.read_eq_ok_iff, Json.object.injEq, exists_eq_left', hasMember_congr h]

end Lookup

/-! ## Programs alike -/

/-- Programs that differ in the order of the variables bound at the start. -/
structure Program.Alike (p p' : Program) : Prop where
  main : p'.main = p.main
  routines : p'.routines = p.routines
  bindings : p'.bindings.Perm p.bindings

namespace Program.Alike

theorem refl (p : Program) : p.Alike p := ⟨rfl, rfl, .refl _⟩

theorem trans {p p' p'' : Program} (h : p.Alike p') (h' : p'.Alike p'') : p.Alike p'' :=
  ⟨h'.main.trans h.main, h'.routines.trans h.routines, h'.bindings.trans h.bindings⟩

/-- Where all names differ, the order of the variables does not matter to a machine. -/
theorem load_eq {p p' : Program} (h : p.Alike p') (hnames : (p.bindings.map Prod.fst).Nodup)
    (m : Machine) : m.load p' = m.load p := by
  have hmap := NameMap.ofList_eq_of_perm h.bindings.symm hnames
  rw [Machine.load, Machine.load, h.routines, Environment.ofList, Environment.ofList, hmap]

theorem run_eq {p p' : Program} (h : p.Alike p') (hnames : (p.bindings.map Prod.fst).Nodup)
    (fuel : Nat) (m : Machine) : m.run fuel p' = m.run fuel p := by
  rw [Machine.run, Machine.run, h.main, h.load_eq hnames]

end Program.Alike

theorem DenotesBindings.of_perm {members members' : Json.Members}
    (h : members.Perm members') {bindings : List (String × Value)}
    (hbindings : DenotesBindings (.object members) bindings) :
    ∃ bindings', DenotesBindings (.object members') bindings' ∧ bindings'.Perm bindings := by
  obtain ⟨_, ⟨⟩, hbinds⟩ := hbindings
  obtain ⟨bindings', hbinds', hperm⟩ := List.perm_comp_forall₂ h.symm hbinds
  exact ⟨bindings', ⟨members', rfl, hbinds'⟩, hperm⟩

theorem DenotesRoutines.of_perm {members members' : Json.Members} (h : members.Perm members')
    (hkeys : (Json.keys members).Nodup) {table : RoutineTable}
    (htable : DenotesRoutines (.object members) table) :
    DenotesRoutines (.object members') table := by
  obtain ⟨_, ⟨⟩, routines, hdefines, rfl⟩ := htable
  obtain ⟨routines', hdefines', hperm⟩ := List.perm_comp_forall₂ h.symm hdefines
  have hmap := NameMap.ofList_eq_of_perm (hperm.symm.map fun r => (r.name, r))
    (nodup_names_of_defines hkeys hdefines)
  exact ⟨members', rfl, routines', hdefines', congrArg RoutineTable.mk hmap⟩

/-! ## Agreement -/

/-- Two nodes in a position are read to the same, and sections and documents to
programs alike. -/
def AgreesUnordered : Position → Json → Json → Prop
  | .programSection key, j, j' => ∀ p p' : Program, p.Alike p' →
      Reading.Moves Program.Alike (p.readSection key j) (p'.readSection key j')
  | .document, j, j' => Reading.Moves Program.Alike (Program.ofJson j) (Program.ofJson j')
  | .operand, j, j' => Agrees .operand j j'
  | .pair, j, j' => Agrees .pair j j'
  | .operation key, j, j' => Agrees (.operation key) j j'
  | .statement, j, j' => Agrees .statement j j'
  | .block, j, j' => Agrees .block j j'
  | .definition, j, j' => Agrees .definition j j'

/-- A section is read into programs alike. -/
theorem moves_readSection {p p' : Program} (h : p.Alike p') (key : String) (content : Json) :
    Reading.Moves Program.Alike (p.readSection key content) (p'.readSection key content) := by
  intro q hq
  rw [Program.readSection.eq_def] at hq ⊢
  split at hq
  · obtain ⟨⟨members, rfl⟩, _, hq⟩ := (Reading.bind_eq_ok _ _ _).1 hq
    obtain ⟨bindings, hbindings, ⟨⟩⟩ := (Reading.bind_eq_ok _ _ _).1 hq
    refine ⟨{ p' with bindings }, ?_, h.main, h.routines, .refl _⟩
    exact (Reading.bind_eq_ok _ _ _).2
      ⟨⟨members, rfl⟩, rfl, (Reading.bind_eq_ok _ _ _).2 ⟨bindings, hbindings, rfl⟩⟩
  · obtain ⟨⟨members, rfl⟩, _, hq⟩ := (Reading.bind_eq_ok _ _ _).1 hq
    obtain ⟨routines, hroutines, ⟨⟩⟩ := (Reading.bind_eq_ok _ _ _).1 hq
    refine ⟨{ p' with routines }, ?_, h.main, rfl, h.bindings⟩
    exact (Reading.bind_eq_ok _ _ _).2
      ⟨⟨members, rfl⟩, rfl, (Reading.bind_eq_ok _ _ _).2 ⟨routines, hroutines, rfl⟩⟩
  · obtain ⟨main, hmain, ⟨⟩⟩ := (Reading.bind_eq_ok _ _ _).1 hq
    exact ⟨{ p' with main }, (Reading.bind_eq_ok _ _ _).2 ⟨main, hmain, rfl⟩, rfl, h.routines,
      h.bindings⟩
  · cases hq

theorem Agrees.unordered {p : Position} {j j' : Json} (h : Agrees p j j') :
    AgreesUnordered p j j' := by
  cases p with
  | programSection key =>
      intro p p' halike q hq
      obtain ⟨q', hq', halike'⟩ := moves_readSection halike key j q hq
      exact ⟨q', (h p' q').1 hq', halike'⟩
  | document => exact fun p hp => ⟨p, (h p).1 hp, .refl p⟩
  | operand | pair | operation | statement | block | definition => exact h

/-- The order of the members of one object. -/
theorem Unordered.agrees {p : Position} (hp : Unordered p) {members members' : Json.Members}
    (h : members.Perm members') (hunique : (Json.object members).UniqueKeys) :
    AgreesUnordered p (.object members) (.object members') := by
  have hkeys := ((Json.uniqueKeys_object_iff members).1 hunique).1
  have hunique' := (Json.uniqueKeys_object_iff_of_perm h).1 hunique
  have hlookup := NameMap.lookup_eq_of_perm h hkeys
  cases hp with
  | pair => exact agrees_pair_of_lookup hlookup
  | operation hkey =>
      rcases List.mem_append.1 hkey with hkey | hkey
      · exact agrees_control_of_lookup hlookup hkey
      rcases List.mem_cons.1 hkey with rfl | hkey
      · exact agrees_target_of_lookup hlookup (by decide)
      rcases List.mem_cons.1 hkey with rfl | hkey
      · exact agrees_target_of_lookup hlookup (by decide)
      · exact (agrees_pair_of_lookup hlookup).updated hkey
  | definition => exact agrees_definition_of_lookup hlookup
  | programSection hkey =>
      intro p p' halike q hq
      simp only [List.mem_cons, List.not_mem_nil, or_false] at hkey
      rcases hkey with rfl | rfl
      · obtain ⟨bindings, hbindings, rfl⟩ := (Program.readSection_variables_eq_ok_iff ..).1 hq
        obtain ⟨bindings', hbindings', hperm⟩ := hbindings.of_perm h
        exact ⟨{ p' with bindings := bindings' },
          (Program.readSection_variables_eq_ok_iff ..).2 ⟨bindings', hbindings', rfl⟩,
          halike.main, halike.routines, hperm⟩
      · obtain ⟨routines, hroutines, rfl⟩ :=
          (Program.readSection_functions_eq_ok_iff _ _ hunique).1 hq
        exact ⟨{ p' with routines },
          (Program.readSection_functions_eq_ok_iff _ _ hunique').2
            ⟨routines, hroutines.of_perm h hkeys, rfl⟩,
          halike.main, rfl, halike.bindings⟩

/-- The order of the sections of a program. -/
theorem assembledFrom_iff_of_perm {sections sections' : Json.Members}
    (h : sections.Perm sections') (hkeys : (Json.keys sections).Nodup) (p q : Program) :
    p.AssembledFrom q sections ↔ p.AssembledFrom q sections' := by
  have hlookup := NameMap.lookup_eq_of_perm h hkeys
  have hmem : ∀ key, key ∈ Json.keys sections ↔ key ∈ Json.keys sections' := fun key =>
    (h.map Prod.fst).mem_iff
  constructor
  · rintro ⟨hknown, hbindings, hroutines, hmain⟩
    exact ⟨fun key hk => hknown key ((hmem key).2 hk), (hasMemberOr_congr hlookup ..).1 hbindings,
      (hasMemberOr_congr hlookup ..).1 hroutines, (hasMemberOr_congr hlookup ..).1 hmain⟩
  · rintro ⟨hknown, hbindings, hroutines, hmain⟩
    exact ⟨fun key hk => hknown key ((hmem key).1 hk), (hasMemberOr_congr hlookup ..).2 hbindings,
      (hasMemberOr_congr hlookup ..).2 hroutines, (hasMemberOr_congr hlookup ..).2 hmain⟩

theorem agreesUnordered_sections {sections sections' : Json.Members}
    (h : sections.Perm sections') (hunique : (Json.object sections).UniqueKeys) :
    AgreesUnordered .document (.object [("program", .object sections)])
      (.object [("program", .object sections')]) := by
  obtain ⟨hkeys, hcontents⟩ := (Json.uniqueKeys_object_iff sections).1 hunique
  obtain ⟨hkeys', hcontents'⟩ := (Json.uniqueKeys_object_iff sections').1
    ((Json.uniqueKeys_object_iff_of_perm h).1 hunique)
  intro q hq
  have hassembled := (Program.readSections_eq_ok_iff sections hcontents .empty q hkeys).1 hq
  have hassembled' := (assembledFrom_iff_of_perm h hkeys .empty q).1 hassembled
  exact ⟨q, (Program.readSections_eq_ok_iff sections' hcontents' .empty q hkeys').2 hassembled',
    .refl q⟩

/-- A section among others. -/
theorem AgreesUnordered.programSection {key : String} {j j' : Json}
    (h : AgreesUnordered (.programSection key) j j') (before after : Json.Members) :
    AgreesUnordered .document (.object [("program", .object (before ++ (key, j) :: after))])
      (.object [("program", .object (before ++ (key, j') :: after))]) := by
  have hafter : ∀ (sections : Json.Members) (p p' : Program), p.Alike p' →
      Reading.Moves Program.Alike (p.readSections sections) (p'.readSections sections) := by
    intro sections
    induction sections with
    | nil => exact fun p p' halike => .ok halike
    | cons m rest ih =>
        intro p p' halike
        rw [Program.readSections, Program.readSections]
        exact (moves_readSection halike m.1 m.2).bind ih
  have hbefore : ∀ p p' : Program, p.Alike p' →
      Reading.Moves Program.Alike (p.readSections (before ++ (key, j) :: after))
        (p'.readSections (before ++ (key, j') :: after)) := by
    induction before with
    | nil =>
        intro p p' halike
        rw [List.nil_append, List.nil_append, Program.readSections, Program.readSections]
        exact (h p p' halike).bind (hafter after)
    | cons m rest ih =>
        intro p p' halike
        rw [List.cons_append, List.cons_append, Program.readSections, Program.readSections]
        exact (moves_readSection halike m.1 m.2).bind ih
  exact hbefore .empty .empty (.refl _)

/-- What nodes that agree stand in agrees. -/
theorem Within.agreesUnordered {p q : Position} {put : Json → Json} (hput : Within p q put)
    {j j' : Json} (h : AgreesUnordered p j j') : AgreesUnordered q (put j) (put j') := by
  cases p with
  | programSection key =>
      cases hput with
      | programSection key before after => exact h.programSection before after
  | document => cases hput
  | operand | pair | operation | statement | block | definition =>
      exact (hput.agrees h).unordered

theorem Reorders.agrees {q : Position} {j j' : Json} (h : Reorders q j j')
    (hunique : j.UniqueKeys) : AgreesUnordered q j j' := by
  induction h with
  | members hp h => exact hp.agrees h hunique
  | sections h =>
      have hsections := ((Json.uniqueKeys_object_iff _).1 hunique).2 _ List.mem_cons_self
      exact agreesUnordered_sections h hsections
  | inside hput _ ih => exact hput.agreesUnordered (ih (hput.uniqueKeys hunique))

/-! ## Reordered documents load to programs that run the same -/

/-- Reordering in several places. -/
theorem ofJson_of_reordered {j j' : Json} {p : Program} (hunique : j.UniqueKeys)
    (h : Relation.ReflTransGen (Reorders .document) j j') (hload : Program.ofJson j = .ok p) :
    j'.UniqueKeys ∧ ∃ p', Program.ofJson j' = .ok p' ∧ p.Alike p' := by
  induction h with
  | refl => exact ⟨hunique, p, hload, .refl p⟩
  | tail _ hstep ih =>
      obtain ⟨hunique', p', hload', halike⟩ := ih
      obtain ⟨p'', hload'', halike'⟩ := hstep.agrees hunique' p' hload'
      exact ⟨hstep.uniqueKeys_iff.1 hunique', p'', hload'', halike.trans halike'⟩

/-- **The order of members changes nothing.**  A document whose sections,
variables, routines or fields come in another order, in any number of places, is
accepted too. It has the same main block, the same routines and the same
variables at the start, and every machine runs it in the same way: the outcome is
the same, with the output, the warnings and the variables at the end. -/
theorem load_of_reordered {j j' : Json} {p : Program} (hunique : j.UniqueKeys)
    (h : Relation.ReflTransGen (Reorders .document) j j') (hload : Program.load j = .ok p) :
    ∃ p', Program.load j' = .ok p' ∧ p'.main = p.main ∧ p'.routines = p.routines ∧
      p'.bindings.Perm p.bindings ∧ ∀ fuel (m : Machine), m.run fuel p' = m.run fuel p := by
  rw [Program.load_eq_ok_iff] at hload
  obtain ⟨_, p', hload', halike⟩ := ofJson_of_reordered hunique h hload
  have hnames := Program.nodup_names_of_ofJson hunique hload
  exact ⟨p', (Program.load_eq_ok_iff j' p').2 hload', halike.main, halike.routines,
    halike.bindings, halike.run_eq hnames⟩

/-- A document with all sections, in the usual order. -/
def documentOf (bindings routines main : Json) : Json :=
  .object [("program", .object [("variables", bindings), ("functions", routines),
    ("main", main)])]

/-- A document with the fields in the usual order. -/
def orderedDocument : Json :=
  documentOf (.object [("a", .bool true), ("b", .null)])
    (.object [("f", .object [("parameters", .array [.string "x"]), ("body", .array [])])])
    (.array [.object [("declare", .object [("var", .string "c"), ("value", .string "b")])]])

/-- The same document, with the sections, the variables and the fields of the
definition and of the declaration in another order. -/
def shuffledDocument : Json :=
  .object [("program", .object [
    ("main", .array [.object [("declare", .object [
      ("value", .string "b"), ("var", .string "c")])]]),
    ("functions", .object [("f", .object [
      ("body", .array []), ("parameters", .array [.string "x"])])]),
    ("variables", .object [("b", .null), ("a", .bool true)])])]

/-- The program of the document in the usual order. -/
def orderedProgram : Program :=
  { bindings := [("a", .bool true), ("b", .null)]
    routines := ⟨.ofList [("f", ⟨"f", ["x"], []⟩)]⟩
    main := [.act ((Location.ofRoot "main").item 0) (.declare "c" (.variable "b"))] }

theorem uniqueKeys_orderedDocument : orderedDocument.UniqueKeys := by
  have htrue : (Json.bool true).UniqueKeys := .scalar trivial
  have hnull : Json.null.UniqueKeys := .scalar trivial
  simp [orderedDocument, documentOf, Json.keys, htrue, hnull]

theorem load_orderedDocument : Program.load orderedDocument = .ok orderedProgram := by
  have hdeclare : Block.readOperation ((Location.ofRoot "main").item 0) "declare"
      (.object [("var", .string "c"), ("value", .string "b")]) =
        .ok (.act ((Location.ofRoot "main").item 0) (.declare "c" (.variable "b"))) := by
    have htarget : Block.readTarget (((Location.ofRoot "main").item 0).key "declare")
        (.object [("var", .string "c"), ("value", .string "b")]) = .ok ("c", .variable "b") :=
      (Block.readTarget_eq_ok_iff ..).2 ⟨_, rfl, ⟨_, rfl, rfl⟩, _, rfl, .variable "b"⟩
    rw [Block.readOperation_act _ _ (by decide), Block.readAction, htarget]
    rfl
  have hmain : Block.read (.ofRoot "main") (.array [.object [("declare", .object [
      ("var", .string "c"), ("value", .string "b")])]]) = .ok orderedProgram.main := by
    simp only [Block.read, Block.readStatements, Block.readStatement, Block.readOperations,
      hdeclare]
    rfl
  have hbody : Block.read (((Location.ofRoot "functions").key "f").key "body") (.array []) =
      .ok [] := by
    rw [Block.read, Block.readStatements_nil]
  have hroutine : Routine.read ((Location.ofRoot "functions").key "f") "f" (.object [
      ("parameters", .array [.string "x"]), ("body", .array [])]) = .ok ⟨"f", ["x"], []⟩ :=
    (Routine.read_eq_ok_iff ..).2 ⟨_, rfl, _, ⟨_, rfl, rfl⟩, _, ⟨_, rfl, hbody⟩, rfl⟩
  rw [Program.load_eq_ok_iff, Program.ofJson_eq_ok_iff uniqueKeys_orderedDocument]
  refine .inr ⟨_, rfl, by decide, .inl ⟨_, rfl, _, rfl, ?_⟩, .inl ⟨_, rfl, _, rfl, ?_⟩,
    .inl ⟨_, rfl, hmain⟩⟩
  · exact .cons ⟨rfl, rfl⟩ (.cons ⟨rfl, rfl⟩ .nil)
  · exact ⟨_, .cons hroutine .nil, rfl⟩

/-- Each part is reordered by itself, the sections at last. -/
theorem reordered_shuffledDocument :
    Relation.ReflTransGen (Reorders .document) orderedDocument shuffledDocument := by
  have hbindings : ∀ routines main, Reorders .document
      (documentOf (.object [("a", .bool true), ("b", .null)]) routines main)
      (documentOf (.object [("b", .null), ("a", .bool true)]) routines main) := fun _ _ =>
    .inside (.programSection "variables" [] [_, _])
      (.members (.programSection (by decide)) (.swap _ _ _))
  have hdefinition : ∀ bindings main, Reorders .document
      (documentOf bindings (.object [("f", .object [
        ("parameters", .array [.string "x"]), ("body", .array [])])]) main)
      (documentOf bindings (.object [("f", .object [
        ("body", .array []), ("parameters", .array [.string "x"])])]) main) := fun _ _ =>
    .inside (.programSection "functions" [_] [_])
      (.inside (.routine "f" [] []) (.members .definition (.swap _ _ _)))
  have hdeclaration : ∀ bindings routines, Reorders .document
      (documentOf bindings routines (.array [.object [("declare", .object [
        ("var", .string "c"), ("value", .string "b")])]]))
      (documentOf bindings routines (.array [.object [("declare", .object [
        ("value", .string "b"), ("var", .string "c")])]])) := fun _ _ =>
    .inside (.programSection "main" [_, _] []) (.inside .main (.inside (.statement [] [])
      (.inside (.operation "declare" [] []) (.members (.operation (by decide)) (.swap _ _ _)))))
  exact (((Relation.ReflTransGen.single (hbindings _ _)).tail (hdefinition _ _)).tail
    (hdeclaration _ _)).tail (.sections (List.reverse_perm _).symm)

theorem load_of_reordered_ordered :
    orderedDocument.UniqueKeys ∧
      Relation.ReflTransGen (Reorders .document) orderedDocument shuffledDocument ∧
      Program.load orderedDocument = .ok orderedProgram ∧
      ∃ p, Program.load shuffledDocument = .ok p ∧ p.main = orderedProgram.main ∧
        p.routines = orderedProgram.routines ∧ p.bindings.Perm orderedProgram.bindings ∧
        ∀ fuel (m : Machine), m.run fuel p = m.run fuel orderedProgram :=
  ⟨uniqueKeys_orderedDocument, reordered_shuffledDocument, load_orderedDocument,
    load_of_reordered uniqueKeys_orderedDocument reordered_shuffledDocument
      load_orderedDocument⟩

end JsonScript
