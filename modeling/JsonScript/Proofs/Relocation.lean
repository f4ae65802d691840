import JsonScript.Proofs.Places

/-!
# Other places for the same program

Any function on places can be applied to a program, at every operation of its
main block and its routines. The run of the program that comes out is that of
the original, and its diagnostics are those of the original at the places that
the function gives. The function need not keep places apart. So nothing compares
places, and no diagnostic changes its place on the way out of repetitions and
calls.

## Main results

* `moved_relocateBlock`, `RoutineTable.moved_relocate` — the same code at the
  places that the function gives.
* `run_relocate` — its runs.
-/

namespace JsonScript

/-! ## Relocated programs -/

mutual

/-- The operation with its place exchanged, and so at every depth. -/
def Operation.relocate (h : Location → Location) : Operation → Operation
  | .act place action => .act (h place) action
  | .choose place condition thenBlock elseBlock =>
      .choose (h place) condition (relocateBlock h thenBlock) (relocateBlock h elseBlock)
  | .times place count body => .times (h place) count (relocateBlock h body)
  | .whilst place condition body => .whilst (h place) condition (relocateBlock h body)
  | .call place name arguments => .call (h place) name arguments

/-- The block with all places exchanged. -/
def relocateBlock (h : Location → Location) : List Operation → List Operation
  | [] => []
  | op :: rest => op.relocate h :: relocateBlock h rest

end

/-- The routine with all places exchanged. -/
def Routine.relocate (h : Location → Location) (r : Routine) : Routine :=
  { r with body := relocateBlock h r.body }

/-- The routines with all places exchanged. -/
def RoutineTable.relocate (h : Location → Location) (t : RoutineTable) : RoutineTable :=
  ⟨t.routines.map (Routine.relocate h)⟩

/-- The program with all places exchanged. -/
def Program.relocate (h : Location → Location) (p : Program) : Program :=
  { p with routines := p.routines.relocate h, main := relocateBlock h p.main }

/-- The diagnostic with its place exchanged. -/
def Diagnostic.relocate (h : Location → Location) (d : Diagnostic) : Diagnostic :=
  { d with location := d.location.map h }

/-! ## The same code at other places -/

variable {h : Location → Location}

/-- The second place is given by the function. -/
def Location.SentBy (h : Location → Location) (place place' : Location) : Prop :=
  h place = place'

theorem Location.sentBy_self (h : Location → Location) (place : Location) :
    SentBy h place (h place) := rfl

mutual

theorem Operation.moved_relocate (h : Location → Location) :
    ∀ op : Operation, op.Moved (Location.SentBy h) (op.relocate h)
  | .act place action => .act (place.sentBy_self h) action
  | .choose place condition thenBlock elseBlock =>
      .choose (place.sentBy_self h) condition (moved_relocateBlock h thenBlock)
        (moved_relocateBlock h elseBlock)
  | .times place count body => .times (place.sentBy_self h) count (moved_relocateBlock h body)
  | .whilst place condition body =>
      .whilst (place.sentBy_self h) condition (moved_relocateBlock h body)
  | .call place name arguments => .call (place.sentBy_self h) name arguments

theorem moved_relocateBlock (h : Location → Location) :
    ∀ block : List Operation, BlockMoved (Location.SentBy h) block (relocateBlock h block)
  | [] => .nil
  | op :: rest => .cons (op.moved_relocate h) (moved_relocateBlock h rest)

end

theorem RoutineTable.moved_relocate (h : Location → Location) (t : RoutineTable) :
    t.Moved (Location.SentBy h) (t.relocate h) := by
  intro name
  rw [RoutineTable.relocate, NameMap.get?_map]
  cases t.routines.get? name with
  | none => exact .none
  | some r => exact .some ⟨rfl, moved_relocateBlock h r.body⟩

/-! ## Diagnostics -/

theorem Diagnostic.eq_relocate_of_moved {d d' : Diagnostic}
    (hd : d.Moved (Location.SentBy h) d') : d' = d.relocate h := by
  obtain ⟨fault, location⟩ := d
  obtain ⟨fault', location'⟩ := d'
  obtain ⟨rfl, hlocation⟩ := hd
  cases hlocation with
  | some hplace => rw [relocate, Option.map_some, show h _ = _ from hplace]
  | none => rfl

theorem Diagnostic.eq_map_relocate_of_rel {r r' : Option Diagnostic}
    (hr : Option.Rel (Diagnostic.Moved (Location.SentBy h)) r r') :
    r' = r.map (Diagnostic.relocate h) := by
  cases hr with
  | some hd => rw [Option.map_some, Diagnostic.eq_relocate_of_moved hd]
  | none => rfl

theorem Diagnostic.eq_map_relocate_of_forall₂ {notes notes' : List Diagnostic}
    (hnotes : List.Forall₂ (Diagnostic.Moved (Location.SentBy h)) notes notes') :
    notes' = notes.map (Diagnostic.relocate h) := by
  induction hnotes with
  | nil => rfl
  | cons hd _ ih => rw [List.map_cons, ← ih, Diagnostic.eq_relocate_of_moved hd]

/-! ## Runs -/

/-- A block that started with these warnings has ended, and so has the relocated
block: with the same diagnostic if any, and on the same machine, but for the places
in its routines, in the diagnostic and in the warnings that were added. -/
structure EndsRelocated (h : Location → Location) (routines : RoutineTable)
    (warnings : Array Diagnostic) (r : Option Diagnostic) (n : Machine)
    (r' : Option Diagnostic) (n' : Machine) : Prop where
  diagnostic : r' = r.map (Diagnostic.relocate h)
  machine : ∃ notes, n.warnings = warnings ++ notes ∧
    n' = { n with
      routines := routines.relocate h
      warnings := warnings ++ notes.map (Diagnostic.relocate h) }

theorem Machine.endsRelocated_runBlock (h : Location → Location) (fuel : Nat)
    (operations : List Operation) (m : Machine) :
    Outcome.Rel (EndsRelocated h m.routines m.warnings) (m.runBlock fuel operations)
      (({ m with routines := m.routines.relocate h } : Machine).runBlock fuel
        (relocateBlock h operations)) := by
  have hstart : Machine.Moved (Location.SentBy h) m { m with routines := m.routines.relocate h }
      m { m with routines := m.routines.relocate h } :=
    ⟨rfl, rfl, m.routines.moved_relocate h, rfl, rfl, [], #[], #[], .nothing rfl rfl,
      .nothing rfl rfl, .nil⟩
  refine ((moved_relocateBlock h operations).run hstart fuel).imp ?_
  rintro r n r' n' - ho' ⟨hr, hn⟩
  obtain ⟨lines, notes, notes', ha, ha', hnotes⟩ := hn.added
  have hroutines : n'.routines = m.routines.relocate h :=
    (Runs.of_run (t := .block (relocateBlock h operations)) ho').sameFrame.routines
  have hsink : n'.sink = n.sink := by rw [ha'.sink, ha.sink]
  have hnotes' : notes' = notes.map (Diagnostic.relocate h) := by
    rw [← Array.toList_inj, Array.toList_map]
    exact Diagnostic.eq_map_relocate_of_forall₂ hnotes
  have hwarnings : n'.warnings = m.warnings ++ notes.map (Diagnostic.relocate h) := by
    rw [ha'.warnings, hnotes']
  exact ⟨Diagnostic.eq_map_relocate_of_rel hr, notes, ha.warnings,
    Machine.ext hn.limits.symm hn.environment.symm hroutines hsink hwarnings hn.depth.symm
      hn.steps.symm⟩

/-- **Places never influence a run.**  Exchange all places of a block and of the
routines by any function. On every machine, and with the same fuel, the new block
ends exactly if the old one does: with the same variables, output and steps, and
with the diagnostics of the old one, the fatal one and those noted, at the places
that the function gives. The same holds for whole programs, which start without
warnings. (The function may give any text for the written form of a place: any
text is the written form of the place with this root and no steps.) -/
theorem run_relocate (h : Location → Location) :
    (∀ (fuel : Nat) (operations : List Operation) (m : Machine),
      Outcome.Rel (EndsRelocated h m.routines m.warnings) (m.runBlock fuel operations)
        (({ m with routines := m.routines.relocate h } : Machine).runBlock fuel
          (relocateBlock h operations))) ∧
    ∀ (fuel : Nat) (p : Program) (m : Machine),
      Outcome.Rel (EndsRelocated h p.routines #[]) (m.run fuel p) (m.run fuel (p.relocate h)) :=
  ⟨Machine.endsRelocated_runBlock h, fun fuel p m =>
    Machine.endsRelocated_runBlock h fuel p.main (m.load p)⟩

end JsonScript
