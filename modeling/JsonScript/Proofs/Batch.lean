import JsonScript.Proofs.Acceptance
import JsonScript.Proofs.ReadingPlaces
import Mathlib

/-!
# A batch of statements and its lines

An array of statement objects can be read as one block and run at once, or its
statements can be read from lines of their own and run one after the other, up to
the first that fails. Both come to the same. Only the places differ: what is at
`input[i]` in the batch is at `input` in a line. Places in routines stay.

One text is refused though all the others are accepted: the array is nested deeper by
one than its statements, so a statement that is nested as deeply as a text may be has a
line but is in no batch.

An array is also a program's main block. As such it has the root `main`.

The first half aligns the block of a batch with its lines, by the readers' lack of
interest in places. The second half runs them side by side, one statement at a
time.

## Main results

* `aligned_of_readStatements` — a batch is made of what its lines are read as.
* `Aligned.runLines_of_runBlock`, `Aligned.runBlock_of_runLines` — runs of a batch
  and runs of its lines.
* `succeeds_readInput_batch_iff`, `succeeds_readInput_line_iff` — which texts are accepted.
* `batch_agrees_with_lines` — all of it together, from the texts on.
* `not_readInput_batch_of_nested` — a line that no batch has for a statement.
-/

namespace JsonScript

/-! ## Lines of input -/

/-- The warnings that were noted between two moments. -/
def Machine.notedSince (m m' : Machine) : List Diagnostic :=
  m'.warnings.toList.drop m.warnings.size

/-- Reads and runs lines of input one at a time, up to the first that cannot be
read or fails. What each line noted is told apart. -/
def Machine.runLines (refusal : String → String) (fuel : Nat) (m : Machine) :
    List String → Outcome × List (List Diagnostic)
  | [] => (.done m, [])
  | line :: rest =>
      match Block.readInput refusal line with
      | .error d => (.failed d m, [])
      | .ok operations =>
          match m.runBlock fuel operations with
          | .done m' =>
              let (outcome, noted) := runLines refusal fuel m' rest
              (outcome, m.notedSince m' :: noted)
          | .failed d m' => (.failed d m', [m.notedSince m'])
          | .outOfFuel => (.outOfFuel, [])

theorem Machine.Notes.notedSince {m n : Machine} {notes : List Diagnostic} (h : m.Notes n notes) :
    m.notedSince n = notes := by
  rw [Machine.notedSince, show n.warnings.toList = m.warnings.toList ++ notes from h,
    ← Array.length_toList, List.drop_left]

/-! ## Reading -/

namespace Block

theorem readInput_eq_ok_iff {refusal : String → String} {text : String} {j : Json}
    (h : Json.read text = .ok j) (operations : List Operation) :
    readInput refusal text = .ok operations ↔ ofInput j = .ok operations := by
  rw [readInput, h]
  exact Reading.mapError_eq_ok_iff _ _ operations

theorem succeeds_ofInput_array_iff (items : List Json) :
    Reading.Succeeds (ofInput (.array items)) ↔ ∀ j ∈ items, IsStatement j := by
  rw [← isBlock_array_iff]
  exact succeeds_read_iff _ _

theorem succeeds_ofInput_object_iff (members : Json.Members) :
    Reading.Succeeds (ofInput (.object members)) ↔ IsStatement (.object members) :=
  succeeds_read_and_readOperation.2.2.1 _ _

end Block

/-- Where an operation of a batch is when its statement, that of number `i`, is
read alone. Operations of routines are where they were. -/
inductive Location.Alone (table : RoutineTable) (i : Nat) : Location → Location → Prop where
  | statement {place place' : Location}
      (h : ((Location.ofRoot "input").item i).Below (.ofRoot "input") place place') :
      Alone table i place place'
  | routine {name : String} {routine : Routine} {op : Operation}
      (found : table.find name = .ok routine) (h : Occurs op routine.body) :
      Alone table i op.place op.place

theorem RoutineTable.moved_alone (table : RoutineTable) (i : Nat) :
    table.Moved (Location.Alone table i) table := by
  intro name
  cases hname : table.routines.get? name with
  | none => exact .none
  | some routine =>
      have hfind : table.find name = .ok routine := by rw [RoutineTable.find, hname]
      exact .some ⟨rfl, blockMoved_self routine.body fun op hop => .routine hfind hop⟩

/-- The block is that of statements which can also be read from these lines, the
first of them with number `i`. -/
inductive Aligned (refusal : String → String) (table : RoutineTable) :
    Nat → List Operation → List String → Prop where
  | nil (i : Nat) : Aligned refusal table i [] []
  | cons {i : Nat} {operations alone more : List Operation} {line : String} {lines : List String}
      (read : Block.readInput refusal line = .ok alone)
      (moved : BlockMoved (Location.Alone table i) operations alone)
      (rest : Aligned refusal table (i + 1) more lines) :
      Aligned refusal table i (operations ++ more) (line :: lines)

/-- A batch is made of what its lines are read as. -/
theorem aligned_of_readStatements (refusal : String → String) (table : RoutineTable)
    {lines : List String} {items : List Json}
    (hlines : List.Forall₂ (fun line j => Json.read line = .ok j) lines items)
    (hobjects : ∀ j ∈ items, ∃ members, j = .object members) {i : Nat}
    {operations : List Operation}
    (h : Block.readStatements (.ofRoot "input") i items = .ok operations) :
    Aligned refusal table i operations lines := by
  induction hlines generalizing i operations with
  | nil =>
      rw [Block.readStatements_nil] at h
      cases h
      exact .nil i
  | @cons line j lines items hline _ ih =>
      rw [Block.readStatements] at h
      obtain ⟨first, hfirst, h⟩ := (Reading.bind_eq_ok _ _ _).1 h
      obtain ⟨more, hmore, h⟩ := (Reading.bind_eq_ok _ _ _).1 h
      cases h
      obtain ⟨members, rfl⟩ := hobjects j List.mem_cons_self
      obtain ⟨alone, halone, hmoved⟩ := Block.moves_readStatement (Location.descends_below _ _)
        (fun _ _ => Location.Alone.statement) (Location.below_self _ _) _ first hfirst
      exact .cons ((Block.readInput_eq_ok_iff hline alone).2 halone) hmoved
        (ih (fun j hj => hobjects j (List.mem_cons_of_mem _ hj)) hmore)

/-! ## Running -/

/-- The diagnostics of a batch, and those of its statements run one at a time,
the first of them with number `i`: the same, with places related as the number
tells. -/
inductive SameReports (ρ : Nat → Location → Location → Prop) :
    Nat → List Diagnostic → Option Diagnostic → List (List Diagnostic) → Option Diagnostic → Prop
    where
  | finished (i : Nat) : SameReports ρ i [] none [] none
  | passed {i : Nat} {notes notes' more : List Diagnostic} {noted : List (List Diagnostic)}
      {r r' : Option Diagnostic} (h : List.Forall₂ (Diagnostic.Moved (ρ i)) notes notes')
      (rest : SameReports ρ (i + 1) more r noted r') :
      SameReports ρ i (notes ++ more) r (notes' :: noted) r'
  | stopped {i : Nat} {notes notes' : List Diagnostic} {d d' : Diagnostic}
      (h : List.Forall₂ (Diagnostic.Moved (ρ i)) notes notes') (hd : d.Moved (ρ i) d') :
      SameReports ρ i notes (some d) [notes'] (some d')

/-- A batch that started on the first machine, and its lines that started on the
second one, have ended alike: the machines differ in their warnings only, and the
diagnostics are the same but for their places. -/
structure EndsAlike (table : RoutineTable) (i : Nat) (m m' : Machine)
    (r : Option Diagnostic) (n : Machine) (r' : Option Diagnostic) (n' : Machine)
    (noted : List (List Diagnostic)) : Prop where
  machine : n.withoutWarnings = n'.withoutWarnings
  reports : ∃ notes, m.Notes n notes ∧ m'.Notes n' noted.flatten ∧
    SameReports (Location.Alone table) i notes r noted r'

theorem Machine.Notes.append {m₁ m₂ m₃ : Machine} {notes more : List Diagnostic}
    (h₁ : m₁.Notes m₂ notes) (h₂ : m₂.Notes m₃ more) : m₁.Notes m₃ (notes ++ more) := by
  rw [Machine.Notes] at *
  rw [h₂, h₁, List.append_assoc]

theorem Machine.notes_nil (m : Machine) : m.Notes m [] := (List.append_nil _).symm

namespace EndsAlike

variable {table : RoutineTable} {i : Nat} {m m' n n' : Machine}

theorem finished (h : m.withoutWarnings = m'.withoutWarnings) :
    EndsAlike table i m m' none m none m' [] :=
  ⟨h, [], m.notes_nil, m'.notes_nil, .finished i⟩

section Statement

variable {notes notes' : List Diagnostic} (hnotes : m.Notes n notes) (hnotes' : m'.Notes n' notes')
  (hmoved : List.Forall₂ (Diagnostic.Moved (Location.Alone table i)) notes notes')
include hnotes hnotes' hmoved

theorem passed {m₁ m₁' : Machine} {r r' : Option Diagnostic} {noted : List (List Diagnostic)}
    (h : EndsAlike table (i + 1) n n' r m₁ r' m₁' noted) :
    EndsAlike table i m m' r m₁ r' m₁' (m'.notedSince n' :: noted) := by
  obtain ⟨hmachine, more, hmore, hmore', hreports⟩ := h
  rw [hnotes'.notedSince]
  exact ⟨hmachine, notes ++ more, hnotes.append hmore, hnotes'.append hmore',
    .passed hmoved hreports⟩

theorem stopped {d d' : Diagnostic} (h : n.withoutWarnings = n'.withoutWarnings)
    (hd : d.Moved (Location.Alone table i) d') :
    EndsAlike table i m m' (some d) n (some d') n' [m'.notedSince n'] := by
  rw [hnotes'.notedSince]
  exact ⟨h, notes, hnotes, by simpa using hnotes', .stopped hmoved hd⟩

end Statement

end EndsAlike

theorem Machine.runLines_of_done {refusal : String → String} {fuel : Nat} {m m' : Machine}
    {line : String} {rest : List String} {operations : List Operation}
    (hread : Block.readInput refusal line = .ok operations)
    (hrun : m.runBlock fuel operations = .done m') :
    m.runLines refusal fuel (line :: rest) =
      ((m'.runLines refusal fuel rest).1,
        m.notedSince m' :: (m'.runLines refusal fuel rest).2) := by
  rw [Machine.runLines, hread]
  simp only [hrun]

theorem Machine.runLines_of_failed {refusal : String → String} {fuel : Nat} {m m' : Machine}
    {line : String} {rest : List String} {operations : List Operation} {d : Diagnostic}
    (hread : Block.readInput refusal line = .ok operations)
    (hrun : m.runBlock fuel operations = .failed d m') :
    m.runLines refusal fuel (line :: rest) = (.failed d m', [m.notedSince m']) := by
  rw [Machine.runLines, hread]
  simp only [hrun]

namespace Aligned

variable {refusal : String → String} {table : RoutineTable} {i : Nat}
  {operations : List Operation} {lines : List String}

/-- If a batch ends, then so do its lines. -/
theorem runLines_of_runBlock (h : Aligned refusal table i operations lines) {fuel : Nat}
    {m m' n : Machine} {r : Option Diagnostic} (hm : m.withoutWarnings = m'.withoutWarnings)
    (htable : m.routines = table) (hrun : m.runBlock fuel operations = .ended r n) :
    ∃ r' n' noted, m'.runLines refusal fuel lines = (.ended r' n', noted) ∧
      EndsAlike table i m m' r n r' n' noted := by
  induction h generalizing m m' with
  | nil i =>
      obtain ⟨rfl, rfl⟩ := Runs.block_nil_iff.1 (Runs.of_run (t := .block []) hrun)
      exact ⟨none, m', [], rfl, .finished hm⟩
  | @cons i first alone more line lines hread hmoved _ ih =>
      have hself : m.routines.Moved (Location.Alone table i) m.routines :=
        htable ▸ table.moved_alone i
      have hbeside := hmoved.run_beside hm hself fuel
      rcases Machine.runBlock_of_append hrun with ⟨d, rfl, hfirst⟩ | ⟨m₁, hfirst, hmore⟩
      · -- The statement fails, and its line is the last one that is run.
        obtain ⟨r', n', halone, hr, hn, notes, notes', hnotes, hnotes', hsame⟩ :=
          hbeside.ended hfirst
        cases hr with
        | @some _ d' hd =>
            exact ⟨some d', n', _, Machine.runLines_of_failed hread halone,
              .stopped hnotes hnotes' hsame hn hd⟩
      · -- The rest starts on machines that again differ in their warnings only.
        obtain ⟨r', m₁', halone, hr, hn, notes, notes', hnotes, hnotes', hsame⟩ :=
          hbeside.ended hfirst
        cases hr
        have hframe := (Runs.of_run (t := .block first) hfirst).sameFrame
        obtain ⟨r', n', noted, hlines, hends⟩ := ih hn (hframe.routines.trans htable) hmore
        refine ⟨r', n', m'.notedSince m₁' :: noted, ?_, .passed hnotes hnotes' hsame hends⟩
        rw [Machine.runLines_of_done hread halone, hlines]

/-- If lines end, then so does the batch. -/
theorem runBlock_of_runLines (h : Aligned refusal table i operations lines) {fuel : Nat}
    {m m' n' : Machine} {r' : Option Diagnostic} {noted : List (List Diagnostic)}
    (hm : m.withoutWarnings = m'.withoutWarnings) (htable : m.routines = table)
    (hrun : m'.runLines refusal fuel lines = (.ended r' n', noted)) :
    ∃ r n, Runs (.block operations) m r n ∧ EndsAlike table i m m' r n r' n' noted := by
  induction h generalizing m m' noted with
  | nil i =>
      obtain ⟨ho, rfl⟩ := Prod.mk.inj hrun
      obtain ⟨rfl, rfl⟩ := Outcome.eq_of_done_eq_ended ho
      exact ⟨none, m, Runs.block_nil_iff.2 ⟨rfl, rfl⟩, .finished hm⟩
  | @cons i first alone more line lines hread hmoved _ ih =>
      have hself : m.routines.Moved (Location.Alone table i) m.routines :=
        htable ▸ table.moved_alone i
      have hbeside := hmoved.run_beside hm hself fuel
      cases halone : m'.runBlock fuel alone with
      | outOfFuel =>
          rw [Machine.runLines, hread] at hrun
          simp only [halone] at hrun
          exact absurd (Prod.mk.inj hrun).1 (Outcome.ended_ne_outOfFuel r' n')
      | failed d' m₁' =>
          rw [Machine.runLines_of_failed hread halone] at hrun
          obtain ⟨ho, rfl⟩ := Prod.mk.inj hrun
          obtain ⟨rfl, rfl⟩ := Outcome.eq_of_failed_eq_ended ho
          have halone : m'.runBlock fuel alone = .ended (some d') m₁' := halone
          obtain ⟨r, n, hfirst, hr, hn, notes, notes', hnotes, hnotes', hsame⟩ :=
            hbeside.ended_left halone
          cases hr with
          | @some d _ hd =>
              exact ⟨some d, n, Runs.block_append_iff.2 (.inl ⟨nofun, .of_run hfirst⟩),
                .stopped hnotes hnotes' hsame hn hd⟩
      | done m₁' =>
          rw [Machine.runLines_of_done hread halone] at hrun
          obtain ⟨ho, rfl⟩ := Prod.mk.inj hrun
          have halone : m'.runBlock fuel alone = .ended none m₁' := halone
          obtain ⟨r, m₁, hfirst, hr, hn, notes, notes', hnotes, hnotes', hsame⟩ :=
            hbeside.ended_left halone
          cases hr
          have hfirst := Runs.of_run (t := .block first) hfirst
          obtain ⟨r, n, hmore, hends⟩ := ih hn (hfirst.sameFrame.routines.trans htable)
            (Prod.ext ho rfl)
          exact ⟨r, n, Runs.block_append_iff.2 (.inr ⟨m₁, hfirst, hmore⟩),
            .passed hnotes hnotes' hsame hends⟩

end Aligned

/-! ## Main blocks -/

theorem Program.succeeds_load_array_iff (items : List Json) :
    (∃ p, load (.array items) = .ok p) ↔ ∀ j ∈ items, IsStatement j := by
  simp only [load_eq_ok_iff, ofJson_array]
  rw [← isBlock_array_iff, ← Block.succeeds_read_iff (.ofRoot "main")]
  exact Reading.succeeds_map _ _

/-- The root of a program's main block, and that of a block of input. -/
abbrev Location.MainInput : Location → Location → Prop :=
  (Location.ofRoot "main").Below (.ofRoot "input")

/-- On a new machine, an array runs as a program as it does as input, but for the
root of the places. -/
theorem Program.run_of_array {items : List Json} {p : Program} {operations : List Operation}
    (hp : Program.load (.array items) = .ok p)
    (hoperations : Block.ofInput (.array items) = .ok operations) (limits : Limits) (sink : Sink)
    (fuel : Nat) :
    Outcome.Rel
      (fun r n r' n' => Option.Rel (Diagnostic.Moved Location.MainInput) r r' ∧
        n.withoutWarnings = n'.withoutWarnings ∧
        List.Forall₂ (Diagnostic.Moved Location.MainInput) n.warnings.toList n'.warnings.toList)
      ((Machine.start limits sink).run fuel p)
      ((Machine.start limits sink).runBlock fuel operations) := by
  rw [Program.load_eq_ok_iff, Program.ofJson_array, Reading.map_eq_ok_iff] at hp
  obtain ⟨main, hmain, rfl⟩ := hp
  obtain ⟨operations', hoperations', hmoved⟩ := Block.moves_read (Location.descends_below _ _)
    (fun _ _ h => h) (Location.below_self (.ofRoot "main") (.ofRoot "input")) (.array items)
    main hmain
  cases hoperations.symm.trans hoperations'
  have hself : RoutineTable.empty.Moved Location.MainInput RoutineTable.empty := fun _ => .none
  have hstart : ((Machine.start limits sink).load { Program.empty with main }).withoutWarnings =
      (Machine.start limits sink).withoutWarnings := rfl
  refine (hmoved.run_beside hstart hself fuel).mono ?_
  rintro r n r' n' ⟨hr, hn, notes, notes', hnotes, hnotes', hsame⟩
  refine ⟨hr, hn, ?_⟩
  rw [show n.warnings.toList = notes from hnotes, show n'.warnings.toList = notes' from hnotes']
  exact hsame

/-! ## From the texts on -/

section Texts

variable {refusal : String → String}

/-- The text of a tree is accepted as input if the tree is not nested too deeply and what is
left of it is. -/
theorem Block.succeeds_readInput_iff {text : String} {w : Json} (hw : w.SpelledBy text) :
    (∃ operations, readInput refusal text = .ok operations) ↔
      w.depth ≤ Reader.maxDepth ∧ Reading.Succeeds (ofInput w.merged) := by
  have hread := Json.read_of_spelledBy hw
  by_cases hdepth : w.depth ≤ Reader.maxDepth
  · rw [if_pos hdepth] at hread
    simp only [readInput_eq_ok_iff hread, and_iff_right hdepth, Reading.Succeeds]
  · rw [if_neg hdepth] at hread
    refine iff_of_false ?_ fun h => hdepth h.1
    rintro ⟨operations, h⟩
    rw [readInput, hread] at h
    cases h

/-- A text that is accepted as input is read to what is left of its tree. -/
theorem Block.read_of_readInput {text : String} {w : Json} (hw : w.SpelledBy text)
    {operations : List Operation} (h : readInput refusal text = .ok operations) :
    Json.read text = .ok w.merged := by
  obtain ⟨hdepth, -⟩ := (succeeds_readInput_iff hw).1 ⟨operations, h⟩
  rw [Json.read_of_spelledBy hw, if_pos hdepth]

/-- A batch is accepted if its statements are and none of them is nested as deeply as a text
may be. -/
theorem succeeds_readInput_batch_iff {batch : String} {items : List Json}
    (hbatch : (Json.array items).SpelledBy batch) :
    (∃ operations, Block.readInput refusal batch = .ok operations) ↔
      (∀ w ∈ items, w.depth < Reader.maxDepth) ∧ ∀ w ∈ items, IsStatement w.merged := by
  rw [Block.succeeds_readInput_iff hbatch, Json.merged, Block.succeeds_ofInput_array_iff,
    Json.mergedItems_eq_map, List.forall_mem_map, Json.depth_array_le_iff]

theorem succeeds_readInput_line_iff {line : String} {w : Json} (hline : w.SpelledBy line)
    (hobject : ∃ members, w = .object members) :
    (∃ operations, Block.readInput refusal line = .ok operations) ↔
      w.depth ≤ Reader.maxDepth ∧ IsStatement w.merged := by
  obtain ⟨members, rfl⟩ := hobject
  rw [Block.succeeds_readInput_iff hline, Json.merged, Block.succeeds_ofInput_object_iff]

theorem succeeds_readInput_lines_iff {lines : List String} {items : List Json}
    (hlines : List.Forall₂ (fun line w => Json.SpelledBy w line) lines items)
    (hobjects : ∀ w ∈ items, ∃ members, w = .object members) :
    (∀ line ∈ lines, ∃ operations, Block.readInput refusal line = .ok operations) ↔
      ∀ w ∈ items, w.depth ≤ Reader.maxDepth ∧ IsStatement w.merged := by
  induction hlines with
  | nil => exact iff_of_true nofun nofun
  | @cons line w lines items hline _ ih =>
      obtain ⟨hobject, hobjects⟩ := List.forall_mem_cons.1 hobjects
      rw [List.forall_mem_cons, List.forall_mem_cons, ih hobjects,
        succeeds_readInput_line_iff hline hobject]

/-- Lines that are not nested too deeply are read to what is left of their trees. -/
theorem read_lines {lines : List String} {items : List Json}
    (hlines : List.Forall₂ (fun line w => Json.SpelledBy w line) lines items)
    (hdepths : ∀ w ∈ items, w.depth < Reader.maxDepth) :
    List.Forall₂ (fun line j => Json.read line = .ok j) lines (Json.mergedItems items) := by
  induction hlines with
  | nil => exact .nil
  | @cons line w lines items hline _ ih =>
      obtain ⟨hdepth, hdepths⟩ := List.forall_mem_cons.1 hdepths
      refine .cons ?_ (ih hdepths)
      rw [Json.read_of_spelledBy hline, if_pos hdepth.le]

/-- A batch that is accepted is made of what its lines are read as. -/
theorem aligned_of_readInput (table : RoutineTable) {batch : String} {lines : List String}
    {items : List Json} (hbatch : (Json.array items).SpelledBy batch)
    (hlines : List.Forall₂ (fun line w => Json.SpelledBy w line) lines items)
    (hobjects : ∀ w ∈ items, ∃ members, w = .object members) {operations : List Operation}
    (h : Block.readInput refusal batch = .ok operations) :
    Aligned refusal table 0 operations lines := by
  obtain ⟨hdepths, -⟩ := (succeeds_readInput_batch_iff hbatch).1 ⟨operations, h⟩
  have hobjects' : ∀ j ∈ Json.mergedItems items, ∃ members, j = .object members := by
    rw [Json.mergedItems_eq_map, List.forall_mem_map]
    intro w hw
    obtain ⟨members, rfl⟩ := hobjects w hw
    exact ⟨_, by rw [Json.merged]⟩
  have hstatements : Block.readStatements (.ofRoot "input") 0 (Json.mergedItems items) =
      .ok operations := by
    rw [← (Block.readInput_eq_ok_iff (Block.read_of_readInput hbatch h) operations).1 h,
      Json.merged, Block.ofInput, Block.read]
  exact aligned_of_readStatements refusal table (read_lines hlines hdepths) hobjects' hstatements

end Texts

/-- **A batch of statements and its lines agree.**  Take a text of an array of
objects, and for each of these a text of its own.

The batch is accepted as input exactly if every line is and none of them is nested as
deeply as a text may be, since the batch is nested deeper by one. If so, then on every
machine the batch run at once and the lines read and run one at a time, up to the
first that fails, end alike, and one of them ends if the other does: with the same
variables, output, steps and frame, and with the same diagnostics, those of
statement `i` having `input` for the leading `input[i]` of the batch.

As a tree the array is accepted as a program exactly if the batch is accepted as input,
but for the nesting, and as a text without exception. On a new machine it runs in the same
way as both, with `main` for `input`. -/
theorem batch_agrees_with_lines (refusal : String → String) {batch : String}
    {lines : List String} {items : List Json} (hbatch : (Json.array items).SpelledBy batch)
    (hlines : List.Forall₂ (fun line w => Json.SpelledBy w line) lines items)
    (hobjects : ∀ w ∈ items, ∃ members, w = .object members) :
    ((∃ operations, Block.readInput refusal batch = .ok operations) ↔
      (∀ line ∈ lines, ∃ operations, Block.readInput refusal line = .ok operations) ∧
        ∀ w ∈ items, w.depth < Reader.maxDepth) ∧
    (∀ operations, Block.readInput refusal batch = .ok operations → ∀ m : Machine,
      (∀ fuel r n, m.runBlock fuel operations = .ended r n →
        ∃ r' n' noted, m.runLines refusal fuel lines = (.ended r' n', noted) ∧
          EndsAlike m.routines 0 m m r n r' n' noted) ∧
      ∀ fuel r' n' noted, m.runLines refusal fuel lines = (.ended r' n', noted) →
        ∃ fuel' r n, m.runBlock fuel' operations = .ended r n ∧
          EndsAlike m.routines 0 m m r n r' n' noted) ∧
    ((∃ operations, Block.readInput refusal batch = .ok operations) ↔
      (∃ p, Program.load (Json.array items).merged = .ok p) ∧
        ∀ w ∈ items, w.depth < Reader.maxDepth) ∧
    ((∃ operations, Block.readInput refusal batch = .ok operations) ↔
      ∃ p, Program.read refusal batch = .ok p) ∧
    ∀ p operations, Program.load (Json.array items).merged = .ok p →
      Block.readInput refusal batch = .ok operations → ∀ limits sink fuel,
        Outcome.Rel
          (fun r n r' n' => Option.Rel (Diagnostic.Moved Location.MainInput) r r' ∧
            n.withoutWarnings = n'.withoutWarnings ∧
            List.Forall₂ (Diagnostic.Moved Location.MainInput) n.warnings.toList
              n'.warnings.toList)
          ((Machine.start limits sink).run fuel p)
          ((Machine.start limits sink).runBlock fuel operations) := by
  have haccepted : (∃ operations, Block.readInput refusal batch = .ok operations) ↔ _ :=
    succeeds_readInput_batch_iff hbatch
  have hloaded : (∃ p, Program.load (Json.array items).merged = .ok p) ↔
      ∀ w ∈ items, IsStatement w.merged := by
    rw [Json.merged, Program.succeeds_load_array_iff, Json.mergedItems_eq_map,
      List.forall_mem_map]
  refine ⟨?lines, fun operations h m => ?runs, ?tree, ?text, fun p operations hp h => ?program⟩
  case lines =>
    rw [haccepted, succeeds_readInput_lines_iff hlines hobjects]
    constructor
    · rintro ⟨hdepths, hstatements⟩
      exact ⟨fun w hw => ⟨(hdepths w hw).le, hstatements w hw⟩, hdepths⟩
    · rintro ⟨hstatements, hdepths⟩
      exact ⟨hdepths, fun w hw => (hstatements w hw).2⟩
  case runs =>
    have haligned := aligned_of_readInput m.routines hbatch hlines hobjects h
    refine ⟨fun fuel r n hrun => haligned.runLines_of_runBlock rfl rfl hrun, ?_⟩
    intro fuel r' n' noted hrun
    obtain ⟨r, n, hruns, hends⟩ := haligned.runBlock_of_runLines rfl rfl hrun
    obtain ⟨fuel', hfuel'⟩ := hruns.exists_run
    exact ⟨fuel', r, n, hfuel', hends⟩
  case tree =>
    rw [haccepted, hloaded, and_comm]
  case text =>
    simp only [haccepted, Program.read_eq_ok_iff_of_spelledBy hbatch, ← Program.load_eq_ok_iff,
      exists_and_left, hloaded, Json.depth_array_le_iff]
  case program =>
    rw [Json.merged] at hp
    have hread := Block.read_of_readInput hbatch h
    rw [Json.merged] at hread
    exact Program.run_of_array hp ((Block.readInput_eq_ok_iff hread operations).1 h)

/-- The first statement warns about its key. The second one calls a routine that
warns, and then fails, so that the last one is not run. -/
theorem batch_agrees_with_lines_failing :
    let batch := "[\x7b\"k\":null\x7d," ++
      "\x7b\"call\":\x7b\"function\":\"f\"\x7d,\"print\":\"z\"\x7d,\x7b\x7d]"
    let lines : List String :=
      ["\x7b\"k\":null\x7d", "\x7b\"call\":\x7b\"function\":\"f\"\x7d,\"print\":\"z\"\x7d",
        "\x7b\x7d"]
    let items : List Json :=
      [.object [("k", .null)],
        .object [("call", .object [("function", .string "f")]), ("print", .string "z")],
        .object []]
    let routines : RoutineTable := ⟨.ofList [("f", ⟨"f", [],
      [.act (.ofRoot "f") (.assign "z" (.literal .null))]⟩)]⟩
    let m := { Machine.start ⟨2, none⟩ .emptyBuffer with routines }
    let d : Diagnostic := ⟨.undefinedVariable "z", some ⟨"input", [.item 1]⟩⟩
    let warnings : Array Diagnostic :=
      #[⟨.unknownOperation "k", some ⟨"input", [.item 0]⟩⟩,
        ⟨.undeclaredAssignment "z", some (.ofRoot "f")⟩]
    (Json.array items).SpelledBy batch ∧
      List.Forall₂ (fun line w => Json.SpelledBy w line) lines items ∧
      (∀ w ∈ items, ∃ members, w = .object members) ∧
      (∀ line ∈ lines, ∃ operations, Block.readInput id line = .ok operations) ∧
      (∃ p, Program.load (Json.array items).merged = .ok p) ∧
      (∃ p, Program.read id batch = .ok p) ∧
      ∃ operations n r' n' noted, Block.readInput id batch = .ok operations ∧
        m.runBlock 20 operations = .ended (some d) n ∧ n.warnings = warnings ∧
        m.runLines id 20 lines = (.ended r' n', noted) ∧
        EndsAlike m.routines 0 m m (some d) n r' n' noted := by
  intro batch lines items routines m d warnings
  have hnull := (Json.Spells.word .null).single "k"
  have hcall := ((Json.Spells.string "f").single "function").pair "call" "print" (.string "z")
  have hnone : ∀ p ∈ ([] : List (String × Json × List Token)), p.2.1.Spells p.2.2 := nofun
  have hempty := Json.Spells.object hnone
  have hall : ∀ p ∈ [(_, _), (_, _), (_, _)], Json.Spells p.1 p.2 :=
    List.forall_mem_cons.2 ⟨hnull,
      List.forall_mem_cons.2 ⟨hcall, List.forall_mem_singleton.2 hempty⟩⟩
  have hbatch : (Json.array items).SpelledBy batch := ⟨_, by cbv, Json.Spells.array hall⟩
  have hlines : List.Forall₂ (fun line w => Json.SpelledBy w line) lines items :=
    .cons ⟨_, by cbv, hnull⟩ (.cons ⟨_, by cbv, hcall⟩ (.cons ⟨_, by cbv, hempty⟩ .nil))
  have hobjects : ∀ w ∈ items, ∃ members, w = .object members := by
    simp [items]
  obtain ⟨haccepted, hruns, htree, htext, -⟩ := batch_agrees_with_lines id hbatch hlines hobjects
  have hread : Block.readInput id batch = .ok
      [.act ⟨"input", [.item 0]⟩ (.unknown "k"), .call ⟨"input", [.item 1]⟩ "f" [],
        .act ⟨"input", [.item 1]⟩ (.print [.variable "z"])] := by cbv
  have hrun := (hruns _ hread m).1 20 (some d) { m with steps := 4, warnings } rfl
  obtain ⟨r', n', noted, hlinesRun, hends⟩ := hrun
  exact ⟨hbatch, hlines, hobjects, (haccepted.1 ⟨_, hread⟩).1, (htree.1 ⟨_, hread⟩).1,
    htext.1 ⟨_, hread⟩, _, _, r', n', noted, hread, rfl, rfl, hlinesRun, hends⟩

/-! ## A line that is nested as deeply as a text may be -/

namespace Token

theorem scan_cons {c : Char} {rest after : List Char} {t : Token} (hblank : isBlank c = false)
    (hone : scanOne (c :: rest) = .ok (t, after)) :
    scan (c :: rest) = (scan after).map (t :: ·) := by
  rw [scan, hblank, if_neg Bool.false_ne_true]
  split
  · rename_i e he
    cases he.symm.trans hone
  · rename_i t' after' hafter
    cases hafter.symm.trans hone
    rfl

theorem scan_replicate {c : Char} {t : Token} (hblank : isBlank c = false)
    (hmark : mark? c = some t) (rest : List Char) (n : Nat) :
    scan (List.replicate n c ++ rest) = (scan rest).map (List.replicate n t ++ ·) := by
  induction n with
  | zero =>
      rw [List.replicate_zero, List.nil_append]
      cases scan rest <;> rfl
  | succ n ih =>
      have hone : scanOne (c :: (List.replicate n c ++ rest)) =
          .ok (t, List.replicate n c ++ rest) := by
        rw [scanOne, hmark]
      rw [List.replicate_succ, List.cons_append, scan_cons hblank hone, ih]
      cases scan rest <;> rfl

end Token

/-- Arrays in arrays, the innermost of them empty. -/
def Json.nestedArrays : Nat → Json
  | 0 => .array []
  | n + 1 => .array [nestedArrays n]

theorem Json.depth_nestedArrays (n : Nat) : (nestedArrays n).depth = n + 1 := by
  induction n with
  | zero => rfl
  | succ n ih =>
      rw [nestedArrays, depth, depthOfItems, depthOfItems, ih, Nat.max_zero]

theorem Json.spells_nestedArrays (n : Nat) : (nestedArrays n).Spells
    (List.replicate (n + 1) .openBracket ++ List.replicate (n + 1) .closeBracket) := by
  induction n with
  | zero =>
      have hnone : ∀ p ∈ ([] : List (Json × List Token)), p.1.Spells p.2 := nofun
      exact .array hnone
  | succ n ih =>
      have hone : ∀ p ∈ [(nestedArrays n, _)], Json.Spells p.1 p.2 := List.forall_mem_singleton.2 ih
      have harray := Json.Spells.array hone
      rw [List.replicate_succ, List.replicate_succ' (n := n + 1)]
      simpa [Token.separated, nestedArrays] using harray

/-- A statement that nobody knows, with arrays in arrays. -/
def nestedStatement (n : Nat) : Json := .object [("zap", .nestedArrays n)]

/-- The line of the statement. -/
def nestedLine (n : Nat) : String :=
  "\x7b\"zap\":" ++
    String.ofList (List.replicate (n + 1) '[' ++ List.replicate (n + 1) ']') ++ "\x7d"

/-- The tokens of the line. -/
def nestedTokens (n : Nat) : List Token :=
  .openBrace :: .string "zap" :: .colon :: (List.replicate (n + 1) .openBracket ++
    (List.replicate (n + 1) .closeBracket ++ [.closeBrace]))

theorem depth_nestedStatement (n : Nat) : (nestedStatement n).depth = n + 2 := by
  rw [nestedStatement, Json.depth, Json.depthOfMembers, Json.depthOfMembers,
    Json.depth_nestedArrays, Nat.max_zero]

theorem spells_nestedStatement (n : Nat) : (nestedStatement n).Spells (nestedTokens n) := by
  have hspells := Json.Spells.single "zap" (Json.spells_nestedArrays n)
  simpa [Token.member, nestedStatement, nestedTokens] using hspells

theorem scan_nestedLine (n : Nat) (rest : List Char) :
    Token.scan ((nestedLine n).toList ++ rest) = (Token.scan rest).map (nestedTokens n ++ ·) := by
  have htext : (nestedLine n).toList ++ rest = '{' :: '"' :: 'z' :: 'a' :: 'p' :: '"' :: ':' ::
      (List.replicate (n + 1) '[' ++ (List.replicate (n + 1) ']' ++ '}' :: rest)) := by
    simp [nestedLine]
  rw [htext, Token.scan_cons rfl rfl, Token.scan_cons rfl rfl, Token.scan_cons rfl rfl,
    Token.scan_replicate rfl rfl, Token.scan_replicate rfl rfl, Token.scan_cons rfl rfl]
  cases Token.scan rest with
  | error e => rfl
  | ok tokens => simp [nestedTokens, Except.map]

theorem spelledBy_nestedLine (n : Nat) : (nestedStatement n).SpelledBy (nestedLine n) := by
  have hscan := scan_nestedLine n []
  rw [List.append_nil, Token.scan, Except.map, List.append_nil] at hscan
  exact ⟨_, hscan, spells_nestedStatement n⟩

theorem spelledBy_nestedBatch (n : Nat) :
    (Json.array [nestedStatement n]).SpelledBy ("[" ++ nestedLine n ++ "]") := by
  have hscan : Token.scan ("[" ++ nestedLine n ++ "]").toList =
      .ok (.openBracket :: (nestedTokens n ++ [.closeBracket])) := by
    have htext : ("[" ++ nestedLine n ++ "]").toList = '[' :: ((nestedLine n).toList ++ [']']) := by
      simp
    rw [htext, Token.scan_cons rfl rfl, scan_nestedLine, Token.scan_cons rfl rfl, Token.scan]
    rfl
  have hone : ∀ p ∈ [(nestedStatement n, nestedTokens n)], Json.Spells p.1 p.2 :=
    List.forall_mem_singleton.2 (spells_nestedStatement n)
  have harray := Json.Spells.array hone
  refine ⟨_, hscan, ?_⟩
  simpa [Token.separated] using harray

/-- A line may be nested as deeply as a text may be. It is accepted then, but no batch that has
it for a statement, although as a tree the batch is a program. -/
theorem not_readInput_batch_of_nested :
    let w := nestedStatement 125
    let line := nestedLine 125
    w.SpelledBy line ∧ (Json.array [w]).SpelledBy ("[" ++ line ++ "]") ∧
      ∀ refusal, (∃ operations, Block.readInput refusal line = .ok operations) ∧
        (∃ p, Program.load (.array [w]) = .ok p) ∧
        ¬ ∃ operations, Block.readInput refusal ("[" ++ line ++ "]") = .ok operations := by
  intro w line
  have hline : w.SpelledBy line := spelledBy_nestedLine 125
  have hbatch : (Json.array [w]).SpelledBy ("[" ++ line ++ "]") := spelledBy_nestedBatch 125
  have hdepth : w.depth = Reader.maxDepth := depth_nestedStatement 125
  have hunknown (body : Json) : IsStatement (.object [("zap", body)]) := by
    rw [isStatement_object_iff, List.forall_mem_singleton]
    exact .unknown (show "zap" ∉ vocabulary by decide)
  refine ⟨hline, hbatch, fun refusal => ⟨?_, ?_, ?_⟩⟩
  · exact (succeeds_readInput_line_iff hline ⟨_, rfl⟩).2 ⟨hdepth.le, hunknown _⟩
  · exact (Program.succeeds_load_array_iff [w]).2 (List.forall_mem_singleton.2 (hunknown _))
  · intro haccepted
    obtain ⟨hdepths, -⟩ := (succeeds_readInput_batch_iff hbatch).1 haccepted
    exact absurd hdepth (hdepths w List.mem_cons_self).ne

end JsonScript
