import JsonScript.Proofs.Effects
import JsonScript.Proofs.Faults
import JsonScript.Proofs.Logs

/-!
# Where diagnostics come from

Every diagnostic of a run is made by a single plan. One that ends the run is made
by a plan that fails, and its place is that of the task. One that is only noted is
made by an action that warns, and its place is that of the action. A run comes
to no tasks but those over the operations of its block and of the routines
(`Machine.Runnable`), so the place is that of an operation written there.

## Main results

* `Fault.isFatal_of_raises` — faults that can end a run are fatal.
* `Runs.exists_place` — a diagnostic that ends a run is about an operation
  that can be run.
* `Runs.notes` — a run notes what its actions warn about, and nothing else.
* `diagnostics_of_run` — severity, kind and place of whatever a run complains
  about.
-/

namespace JsonScript

/-! ## Operations that can be run -/

/-- The operation stands in the block or in the body of a routine, at any depth. -/
inductive Machine.Runnable (m : Machine) (block : List Operation) (op : Operation) : Prop where
  | inBlock (h : Occurs op block)
  | inRoutine {name : String} {routine : Routine} (found : m.routines.find name = .ok routine)
      (h : Occurs op routine.body)

theorem Machine.inherited_runnable (m : Machine) (block : List Operation) :
    Inherited (m.Runnable block) := by
  intro op h inner hinner op' hop'
  cases h with
  | inBlock h => exact .inBlock (h.inner hinner hop')
  | inRoutine found h => exact .inRoutine found (h.inner hinner hop')

theorem Reaches.over_runnable {block : List Operation} {calls : Nat} {t : Task}
    {m m' : Machine} (h : Reaches (.block block) m calls t m') : t.Over (m.Runnable block) :=
  have inBlock : (Task.block block).Over (m.Runnable block) := fun _ hop => .inBlock (.here hop)
  Reaches.over (m.inherited_runnable block) inBlock
    (fun _ _ _ found _ hop => .inRoutine found (.here hop)) h

/-! ## Fatal diagnostics -/

/-- The place that a task complains about. -/
def Task.place? : Task → Option Location
  | .block _ => none
  | .operation op | .dispatch op => some op.place
  | .times _ place _ | .whilst place _ _ => some place

theorem Task.Over.exists_place {S : Operation → Prop} {t : Task} {place : Location}
    (ht : t.Over S) (h : t.place? = some place) : ∃ op, S op ∧ op.place = place := by
  cases t with
  | block operations => cases h
  | operation op | dispatch op => exact ⟨op, ht, Option.some.inj h⟩
  | times rounds place' body =>
      obtain ⟨count, ht⟩ := ht
      exact ⟨_, ht, Option.some.inj h⟩
  | whilst place' condition body => exact ⟨_, ht, Option.some.inj h⟩

theorem Task.place?_of_fails {t : Task} {env : Environment} {d : Diagnostic}
    (h : (t.decision env).Fails d) : t.place? = d.location ∧ d.location ≠ none := by
  revert h
  fun_cases Task.decision env t
  all_goals
    intro h
    cases h
  all_goals exact ⟨rfl, Option.some_ne_none _⟩

theorem Task.place?_of_count {t : Task} {env : Environment} {place : Location} {left : Left}
    (h : t.decision env = .count place left) : t.place? = some place := by
  revert h
  fun_cases Task.decision env t
  all_goals
    intro h
    cases h
  all_goals rfl

/-- A plan that fails complains about the place of its task. -/
theorem Machine.place?_of_plan {t : Task} {m m₁ : Machine} {d : Diagnostic}
    (h : m.plan t = .go (.failure d) m₁) : ∃ place, d.location = some place ∧
      t.place? = some place := by
  have hfails (h : (t.decision m.environment).Fails d) :
      ∃ place, d.location = some place ∧ t.place? = some place := by
    obtain ⟨hplace, hsome⟩ := Task.place?_of_fails h
    obtain ⟨place, hd⟩ := Option.ne_none_iff_exists'.1 hsome
    exact ⟨place, hd, hplace.trans hd⟩
  cases Machine.goes_of_plan h with
  | keep decided => exact hfails (decided ▸ rfl)
  | count decided => exact hfails (decided ▸ rfl)
  | exhausted decided => exact ⟨_, rfl, Task.place?_of_count decided⟩
  | refused decided => exact ⟨_, rfl, by rw [Task.eq_call_of_decision decided]; rfl⟩

/-- A diagnostic that ends a run is about an operation that can be run. -/
theorem Runs.exists_place {block : List Operation} {m m' : Machine} {d : Diagnostic}
    (h : Runs (.block block) m (some d) m') :
    ∃ op, m.Runnable block op ∧ d.location = some op.place := by
  obtain ⟨calls, t, m₁, m₂, hreached, hp⟩ := h.exists_failure
  obtain ⟨place, hd, hplace⟩ := Machine.place?_of_plan hp
  obtain ⟨op, hop, rfl⟩ := hreached.over_runnable.exists_place hplace
  exact ⟨op, hop, hd⟩

/-- Faults that can end a run are fatal. -/
theorem Fault.isFatal_of_raises {limits : Limits} {fault : Fault} (h : limits.Raises fault) :
    fault.isFatal = true := by
  cases fault with
  | undeclaredAssignment | unknownOperation => exact absurd h id
  | _ => rfl

/-! ## Warnings -/

/-- What an action may warn about: an assignment or an update, that its name was
never declared; an unknown operation, that its key is unknown. -/
inductive Action.Warns : Action → Fault → Prop where
  | assign (name : String) (e : Expr) : Warns (.assign name e) (.undeclaredAssignment name)
  | update (op : Operator) (name : String) (e : Expr) :
      Warns (.update op name e) (.undeclaredAssignment name)
  | unknown (key : String) : Warns (.unknown key) (.unknownOperation key)

theorem Action.Warns.isFatal {action : Action} {fault : Fault} (h : action.Warns fault) :
    fault.isFatal = false := by
  cases h <;> rfl

/-- An action warns about nothing else. -/
theorem Action.warns_of_effect {env : Environment} {action : Action} {fault : Fault}
    (h : action.effect env = .ok (.warn fault)) : action.Warns fault := by
  cases Action.makes_of_effect h with
  | assignUnbound name e _ => exact .assign name e
  | updateUnbound op name e _ => exact .update op name e
  | unknown key => exact .unknown key

/-- A warning of an action among those with the property, about its place. -/
def Diagnostic.NotedBy (S : Operation → Prop) (d : Diagnostic) : Prop :=
  ∃ place action, S (.act place action) ∧ action.Warns d.fault ∧ d.location = some place

theorem Machine.Goes.notes {S : Operation → Prop} {t : Task} {left : Left} {m m' : Machine}
    (ht : t.Over S) (h : m.Goes t left m') :
    ∃ notes, m'.warnings = m.warnings ++ notes ∧ ∀ d ∈ notes, Diagnostic.NotedBy S d := by
  have silent : ∃ notes : Array Diagnostic, m.warnings = m.warnings ++ notes ∧
      ∀ d ∈ notes, Diagnostic.NotedBy S d := ⟨#[], by simp, by simp⟩
  cases h with
  | keep | count | exhausted | refused => exact silent
  | @commit place effect decided =>
      obtain ⟨action, rfl, he⟩ := Task.exists_action decided
      refine ⟨effect.notes place, (m.adds_commit place effect).warnings, fun d hd => ?_⟩
      cases effect with
      | become | print => simp [Effect.notes] at hd
      | warn fault =>
          cases (by simpa [Effect.notes] using hd : d = ⟨fault, some place⟩)
          exact ⟨place, action, ht, Action.warns_of_effect he, rfl⟩

/-- A run notes what its actions warn about, and nothing else. -/
theorem Runs.notes {block : List Operation} {m m' : Machine} {r : Option Diagnostic}
    (h : Runs (.block block) m r m') :
    ∃ notes, m'.warnings = m.warnings ++ notes ∧
      ∀ d ∈ notes, Diagnostic.NotedBy (m.Runnable block) d := by
  refine h.rel_of_reached
    (R := fun n n' => ∃ notes, n'.warnings = n.warnings ++ notes ∧
      ∀ d ∈ notes, Diagnostic.NotedBy (m.Runnable block) d) ?_ ?_ ?_
  · rintro n₁ n₂ n₃ ⟨notes, h₁, hnotes⟩ ⟨more, h₂, hmore⟩
    refine ⟨notes ++ more, by rw [h₂, h₁, Array.append_assoc], fun d hd => ?_⟩
    exact (Array.mem_append.1 hd).elim (hnotes d) (hmore d)
  · exact fun hreached hgoes => hgoes.notes hreached.over_runnable
  · exact fun _ h => h

/-! ## Whole runs -/

/-- **Whatever a run complains about has a cause and a place.**  The diagnostic
that ends a run is fatal, is about a fault of evaluation, of a call or of a limit
of the machine, and has the place of an operation that can be run. A diagnostic
that is noted meanwhile is not fatal, and is the warning of an assignment, an
update or an unknown operation that can be run, at the place of this. -/
theorem diagnostics_of_run {fuel : Nat} {operations : List Operation} {m m' : Machine}
    {r : Option Diagnostic} (h : m.runBlock fuel operations = .ended r m') :
    (∀ d, r = some d → d.isFatal = true ∧ m.limits.Raises d.fault ∧
      ∃ op, m.Runnable operations op ∧ d.location = some op.place) ∧
    ∃ notes, m'.warnings = m.warnings ++ notes ∧
      ∀ d ∈ notes, d.isFatal = false ∧ ∃ place action,
        m.Runnable operations (.act place action) ∧ action.Warns d.fault ∧
          d.location = some place := by
  have hr := Runs.of_run (t := .block operations) h
  constructor
  · rintro d rfl
    exact ⟨Fault.isFatal_of_raises hr.raises, hr.raises, hr.exists_place⟩
  · obtain ⟨notes, hw, hnotes⟩ := hr.notes
    refine ⟨notes, hw, fun d hd => ?_⟩
    obtain ⟨place, action, hrunnable, hwarns, hplace⟩ := hnotes d hd
    exact ⟨hwarns.isFatal, place, action, hrunnable, hwarns, hplace⟩

/-- A routine that assigns in vain in a repetition, and then asks for a name that
nobody has bound. -/
def complainingRoutines : RoutineTable := ⟨.ofList
  [("f", ⟨"f", [], [.whilst (.ofRoot "f") (.literal (.bool true))
    [.act (.ofRoot "assign") (.assign "y" (.literal .null)),
      .act (.ofRoot "print") (.print [.variable "z"])]]⟩)]⟩

theorem diagnostics_of_run_complaining :
    let m := { Machine.start ⟨2, some 9⟩ .silent with routines := complainingRoutines }
    let operations : List Operation :=
      [.act (.ofRoot "main") (.unknown "frobnicate"),
        .choose (.ofRoot "if") (.literal (.bool true)) [.call (.ofRoot "then") "f" []] []]
    let d : Diagnostic := ⟨.undefinedVariable "z", some (.ofRoot "print")⟩
    let warnings : Array Diagnostic :=
      #[⟨.unknownOperation "frobnicate", some (.ofRoot "main")⟩,
        ⟨.undeclaredAssignment "y", some (.ofRoot "assign")⟩]
    ∃ m', m.runBlock 20 operations = .ended (some d) m' ∧ m'.warnings = warnings ∧
      (d.isFatal = true ∧ m.limits.Raises d.fault ∧
        ∃ op, m.Runnable operations op ∧ d.location = some op.place) ∧
      ∀ note ∈ warnings, note.isFatal = false ∧ ∃ place action,
        m.Runnable operations (.act place action) ∧ action.Warns note.fault ∧
          note.location = some place := by
  intro m operations d warnings
  have hrun : m.runBlock 20 operations = .ended (some d) { m with warnings, steps := 7 } := rfl
  obtain ⟨hfatal, notes, hnotes, hwarns⟩ := diagnostics_of_run hrun
  have hall : notes = warnings := by simpa [m, Machine.start] using hnotes.symm
  exact ⟨_, hrun, rfl, hfatal d rfl, hall ▸ hwarns⟩

end JsonScript
