import JsonScript.Proofs.Effects
import JsonScript.Proofs.Runs

/-!
# Writing to variables

There are two ways to give a bound variable another value. An assignment evaluates an
expression and takes the value over. An update in place applies an operator to the value
that the variable has and to that of an expression. Where the name is bound, the update
does what the assignment of the operation does, on every machine.

The two differ on names that are not bound. An update looks up its name before anything
else, so it warns and evaluates nothing. An assignment evaluates its expression first, so
it warns only if there is a value, and ends the run if there is none.

Both count a step before they look at anything, so neither warns on a machine that has no
step left.

## Main results

* `Machine.runOperation_act` — an action whose step is admitted comes to its effect.
* `update_as_assignment` — an update in place is the assignment of the operation.
* `write_to_unbound` — what comes of writing to a name that is not bound.
-/

namespace JsonScript

namespace Machine

variable {m : Machine} {place : Location}

/-! ## Single actions -/

/-- An action whose step is admitted comes to its effect. -/
theorem runOperation_act (hsteps : m.HasStepLeft) (fuel : Nat) (place : Location)
    (action : Action) :
    m.runOperation (fuel + 2) (.act place action) =
      match action.effect m.environment with
      | .ok effect => .done (m.tick.commit place effect)
      | .error fault => .failed ⟨fault, some place⟩ m.tick := by
  simp only [runOperation, m.exhausted?_tick_eq_none_iff.2 hsteps, dispatch]
  rfl

/-- Actions with the same effect are run in the same way, whatever is left of the steps. -/
theorem runOperation_act_congr {action other : Action}
    (h : action.effect m.environment = other.effect m.environment) (fuel : Nat)
    (place : Location) :
    m.runOperation fuel (.act place action) = m.runOperation fuel (.act place other) := by
  have htick : action.effect m.tick.environment = other.effect m.tick.environment := h
  match fuel with
  | 0 => simp only [runOperation]
  | 1 => simp only [runOperation, dispatch, Operation.place]
  | fuel + 2 => simp only [runOperation, dispatch, Operation.place, htick]

/-- An action always ends. -/
theorem exists_ended_runOperation_act (m : Machine) (place : Location) (action : Action) :
    ∃ r n, ∀ fuel, m.runOperation (fuel + 2) (.act place action) = .ended r n := by
  cases hexhausted : m.tick.exhausted? with
  | some fault =>
      refine ⟨some ⟨fault, some place⟩, m.tick, fun fuel => ?_⟩
      simp only [runOperation, hexhausted]
      rfl
  | none =>
      have hsteps := m.exhausted?_tick_eq_none_iff.1 hexhausted
      cases heffect : action.effect m.environment with
      | ok effect =>
          refine ⟨none, m.tick.commit place effect, fun fuel => ?_⟩
          rw [runOperation_act hsteps, heffect]
          rfl
      | error fault =>
          refine ⟨some ⟨fault, some place⟩, m.tick, fun fuel => ?_⟩
          rw [runOperation_act hsteps, heffect]
          rfl

/-! ## Warnings instead of effects -/

/-- The machine with one more step counted and one more warning noted. -/
def warned (m : Machine) (d : Diagnostic) : Machine :=
  { m with warnings := m.warnings.push d, steps := m.steps + 1 }

/-- The machine skips the operation: it counts the step, notes the diagnostic as a warning,
and goes on with whatever follows. -/
def Skips (m : Machine) (op : Operation) (d : Diagnostic) : Prop :=
  ∀ fuel, m.runOperation (fuel + 2) op = .done (m.warned d) ∧
    ∀ rest, m.runBlock (fuel + 3) (op :: rest) = (m.warned d).runBlock (fuel + 2) rest

theorem skips_of_effect {action : Action} {fault : Fault} (hsteps : m.HasStepLeft)
    (heffect : action.effect m.environment = .ok (.warn fault)) :
    m.Skips (.act place action) ⟨fault, some place⟩ := by
  intro fuel
  have hdone : m.runOperation (fuel + 2) (.act place action) =
      .done (m.warned ⟨fault, some place⟩) := by
    rw [runOperation_act hsteps, heffect]
    rfl
  refine ⟨hdone, fun rest => ?_⟩
  rw [runBlock_cons, hdone]

end Machine

/-! ## Updates and assignments -/

/-- **An update in place is the assignment of the operation.**  On every machine where
the name is bound, the update ends, and with any fuel it runs as the assignment of the
operator applied to the variable and the operand does. Where the name is not bound, an
update whose step is admitted is skipped with one warning, whatever its operand is. -/
theorem update_as_assignment (m : Machine) (place : Location) (op : Operator) (name : String)
    (operand : Expr) :
    let update : Operation := .act place (.update op name operand)
    let assignment : Operation := .act place (.assign name (.binary op (.variable name) operand))
    (m.environment.contains name = true →
      (∀ fuel, m.runOperation fuel update = m.runOperation fuel assignment) ∧
        ∃ r n, ∀ fuel, m.runOperation (fuel + 2) update = .ended r n) ∧
    (m.environment.contains name = false → m.HasStepLeft →
      m.Skips update ⟨.undeclaredAssignment name, some place⟩) := by
  intro update assignment
  refine ⟨fun hbound => ⟨fun fuel => ?_, m.exists_ended_runOperation_act place _⟩, ?_⟩
  · exact Machine.runOperation_act_congr (Action.effect_update_of_contains operand hbound) fuel
      place
  · intro hunbound hsteps
    exact Machine.skips_of_effect hsteps (Action.effect_update_of_unbound operand hunbound)

/-- An update that reads its own target, with the last step that is left, and one of a
name that is not bound, whose operand has no value. -/
theorem update_as_assignment_lastStep :
    let m := { Machine.start ⟨8, some 3⟩ .emptyBuffer with
      environment := .ofList [("x", .bool true)], steps := 2 }
    let operand : Expr := .not (.variable "x")
    m.environment.contains "x" = true ∧
      m.runOperation 2 (.act (.ofRoot "main") (.update .and "x" operand)) =
        m.runOperation 2 (.act (.ofRoot "main")
          (.assign "x" (.binary .and (.variable "x") operand))) ∧
      m.runOperation 2 (.act (.ofRoot "main") (.update .and "x" operand)) =
        .done { m with environment := .ofList [("x", .bool false)], steps := 3 } ∧
      m.environment.contains "y" = false ∧ m.HasStepLeft ∧
      m.Skips (.act (.ofRoot "main") (.update .divide "y" (.variable "z")))
        ⟨.undeclaredAssignment "y", some (.ofRoot "main")⟩ := by
  intro m operand
  have hsteps : m.HasStepLeft := by
    intro limit hlimit
    cases hlimit
    decide
  have hbound : m.environment.contains "x" = true := rfl
  have hunbound : m.environment.contains "y" = false := rfl
  have hsame := (update_as_assignment m (.ofRoot "main") .and "x" operand).1 hbound
  have hskips := (update_as_assignment m (.ofRoot "main") .divide "y" (.variable "z")).2 hunbound
  exact ⟨hbound, hsame.1 2, rfl, hunbound, hsteps, hskips hsteps⟩

/-- Without a step left, an update of a name that is not bound does not warn: it ends the
run. -/
theorem not_update_of_unbound_succeeds :
    ¬ ∀ (m : Machine) (place : Location) (op : Operator) (name : String) (operand : Expr),
      m.environment.contains name = false →
        ∃ fuel n, m.runOperation fuel (.act place (.update op name operand)) = .done n := by
  intro h
  obtain ⟨fuel, n, hrun⟩ :=
    h (.start ⟨128, some 0⟩ .emptyBuffer) (.ofRoot "main") .add "ghost" (.literal .null) rfl
  cases fuel with
  | zero => cases hrun
  | succ fuel => cases hrun

/-! ## Names that are not bound -/

/-- **What comes of writing to a name that is not bound**, where the step is admitted. An
update is skipped with one warning, whatever its operand is. An assignment is skipped in
the same way if its expression has a value; if it has none, the fault of the expression
ends the run, and nothing but the step count has changed. -/
theorem write_to_unbound {m : Machine} {name : String}
    (hunbound : m.environment.contains name = false) (hsteps : m.HasStepLeft)
    (place : Location) (op : Operator) (e : Expr) :
    let update : Operation := .act place (.update op name e)
    let assignment : Operation := .act place (.assign name e)
    let warning : Diagnostic := ⟨.undeclaredAssignment name, some place⟩
    m.Skips update warning ∧
    (∀ v, e.eval m.environment = .ok v → m.Skips assignment warning) ∧
    ∀ fault, e.eval m.environment = .error fault → ∀ fuel,
      m.runOperation (fuel + 2) assignment =
        .failed ⟨fault, some place⟩ { m with steps := m.steps + 1 } := by
  intro update assignment warning
  have hassign := Action.effect_assign_of_unbound e hunbound
  refine ⟨?_, fun v hv => ?_, fun fault hfault fuel => ?_⟩
  · exact Machine.skips_of_effect hsteps (Action.effect_update_of_unbound e hunbound)
  · rw [hv] at hassign
    exact Machine.skips_of_effect hsteps hassign
  · rw [hfault] at hassign
    rw [Machine.runOperation_act hsteps, hassign]
    rfl

/-- An expression without a value, and one with a value. -/
theorem write_to_unbound_unreadable :
    let m := Machine.start ⟨8, some 5⟩ .emptyBuffer
    let warning : Diagnostic := ⟨.undeclaredAssignment "x", some (.ofRoot "main")⟩
    m.environment.contains "x" = false ∧ m.HasStepLeft ∧
      m.Skips (.act (.ofRoot "main") (.update .add "x" (.variable "y"))) warning ∧
      m.Skips (.act (.ofRoot "main") (.assign "x" (.literal .null))) warning ∧
      m.runOperation 9 (.act (.ofRoot "main") (.assign "x" (.variable "y"))) =
        .failed ⟨.undefinedVariable "y", some (.ofRoot "main")⟩ { m with steps := 1 } := by
  intro m warning
  have hsteps : m.HasStepLeft := by
    intro limit hlimit
    cases hlimit
    decide
  have hunbound : m.environment.contains "x" = false := rfl
  obtain ⟨hupdate, -, hfails⟩ :=
    write_to_unbound hunbound hsteps (.ofRoot "main") .add (.variable "y")
  obtain ⟨-, hassign, -⟩ :=
    write_to_unbound hunbound hsteps (.ofRoot "main") .add (.literal .null)
  exact ⟨hunbound, hsteps, hupdate, hassign .null rfl, hfails _ rfl 7⟩

/-- An assignment to a name that is not bound need not be skipped: its expression may
have no value. -/
theorem not_assign_to_unbound_succeeds :
    ¬ ∀ (m : Machine) (place : Location) (name : String) (e : Expr),
      m.environment.contains name = false → m.HasStepLeft →
        ∃ fuel n, m.runOperation fuel (.act place (.assign name e)) = .done n := by
  intro h
  have hsteps : (Machine.start .default .emptyBuffer).HasStepLeft := nofun
  obtain ⟨fuel, n, hrun⟩ :=
    h (.start .default .emptyBuffer) (.ofRoot "main") "ghost" (.variable "nothing") rfl hsteps
  match fuel, hrun with
  | 0, hrun => cases hrun
  | 1, hrun => cases hrun
  | fuel + 2, hrun => cases hrun

end JsonScript
