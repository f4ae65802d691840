import JsonScript.Proofs.Calls
import JsonScript.Proofs.Runs

/-!
# Failures that leave no trace

An operation counts its step, then evaluates all that it needs, and only then does
something. So an operation that fails on its own, and not in a block that it runs, has
done nothing but count the step: no variable has changed, nothing of a line has been
printed, and no scope is left behind.

For a call the reasons not to start come in a fixed order: no step is left, then those of
`Machine.Refuses`. A call for which there is no such reason runs the body of its routine.

## Main results

* `Runs.eq_tick_of_failsFirst` — a failure before anything is done.
* `failures_leave_no_trace` — all operations, and the order of the reasons of a call.
-/

namespace JsonScript

/-! ## Operations that fail before anything is done -/

/-- If the operation fails on this machine, it fails before anything is done: it holds no
block, or it does not come to running one. -/
inductive Machine.FailsFirst (m : Machine) : Operation → Prop where
  | act (place : Location) (action : Action) : FailsFirst m (.act place action)
  | choose {place : Location} {condition : Expr} {thenBlock elseBlock : List Operation}
      {fault : Fault} (fails : condition.evalCondition m.environment = .error fault) :
      FailsFirst m (.choose place condition thenBlock elseBlock)
  | times {place : Location} {count : Expr} {body : List Operation} {fault : Fault}
      (fails : count.evalCount m.environment = .error fault) :
      FailsFirst m (.times place count body)
  | whilst {place : Location} {condition : Expr} {body : List Operation} {fault : Fault}
      (fails : condition.evalCondition m.environment = .error fault) :
      FailsFirst m (.whilst place condition body)
  | call {place : Location} {name : String} {arguments : List Expr} {fault : Fault}
      (refused : m.Refuses name arguments fault) : FailsFirst m (.call place name arguments)
  | exhausted {op : Operation} (spent : ¬ m.HasStepLeft) : FailsFirst m op

theorem Runs.eq_of_keep_failure {t : Task} {m n : Machine} {d : Diagnostic} {place : Location}
    (fault : Fault) (h : Runs t m (some d) n)
    (hd : t.decision m.environment = .keep (.failure ⟨fault, some place⟩)) :
    n = m ∧ d.location = some place := by
  rw [Runs.iff_plan, Machine.plan, hd] at h
  obtain ⟨hfailed, rfl⟩ := h
  cases hfailed
  exact ⟨rfl, rfl⟩

/-- A failure once the step is counted, one case for each kind of operation. -/
theorem Runs.eq_of_failsFirst {op : Operation} {m n : Machine} {d : Diagnostic}
    (hop : m.FailsFirst op) (hsteps : m.HasStepLeft)
    (h : Runs (.dispatch op) m.tick (some d) n) : n = m.tick ∧ d.location = some op.place := by
  have henvironment : m.tick.environment = m.environment := rfl
  cases hop with
  | act place action =>
      rcases Runs.act_iff.1 h with ⟨fault, -, hd, rfl⟩ | ⟨_, -, ⟨⟩, -⟩
      cases hd
      exact ⟨rfl, rfl⟩
  | @choose _ _ _ _ fault fails =>
      refine Runs.eq_of_keep_failure fault h ?_
      rw [Task.decision, henvironment, fails]
      rfl
  | @times _ _ _ fault fails =>
      refine Runs.eq_of_keep_failure fault h ?_
      rw [Task.decision, henvironment, fails]
      rfl
  | @whilst place condition body fault fails =>
      have hrounds : Runs (.whilst place condition body) m.tick (some d) n := Runs.iff_plan.1 h
      refine Runs.eq_of_keep_failure fault hrounds ?_
      rw [Task.decision, henvironment, fails]
      rfl
  | call refused =>
      rcases Runs.call_iff.1 h with ⟨fault, -, hd, rfl⟩ | ⟨_, _, _, hprepared, -⟩
      · cases hd
        exact ⟨rfl, rfl⟩
      · have hrefused := Machine.prepareCall_of_refuses refused
        cases hprepared.symm.trans hrefused
  | exhausted spent => exact absurd hsteps spent

/-- An operation that fails before anything is done has counted its step and done nothing
else. -/
theorem Runs.eq_tick_of_failsFirst {op : Operation} {m n : Machine} {d : Diagnostic}
    (hop : m.FailsFirst op) (h : Runs (.operation op) m (some d) n) :
    n = m.tick ∧ d.location = some op.place := by
  rcases Runs.operation_iff.1 h with ⟨fault, -, hd, rfl⟩ | ⟨hexhausted, hdispatch⟩
  · cases hd
    exact ⟨rfl, rfl⟩
  · exact Runs.eq_of_failsFirst hop (m.exhausted?_tick_eq_none_iff.1 hexhausted) hdispatch

/-! ## Calls -/

namespace Machine

variable {m : Machine}

/-- Without a step left an operation fails, whatever it is. -/
theorem runOperation_of_spent {limit : Nat} (hlimit : m.limits.maxSteps = some limit)
    (hsteps : limit ≤ m.steps) (fuel : Nat) (op : Operation) :
    m.runOperation (fuel + 1) op =
      .failed ⟨.stepLimitExceeded limit, some op.place⟩ m.tick := by
  have hexhausted : m.tick.exhausted? = some (.stepLimitExceeded limit) :=
    (m.tick.exhausted?_eq_some_iff _).2 ⟨limit, hlimit, Nat.lt_succ_of_le hsteps, rfl⟩
  simp only [runOperation, hexhausted]

/-- The end of a call, from the end of its body. -/
def callEnds (caller : Machine) : Outcome → Outcome
  | .done n => .done (n.leave caller.environment)
  | .failed d n => .failed d (n.leave caller.environment)
  | .outOfFuel => .outOfFuel

/-- A call whose step is admitted is prepared, and then runs the body of its routine. -/
theorem runOperation_call (hsteps : m.HasStepLeft) (fuel : Nat) (place : Location)
    (name : String) (arguments : List Expr) :
    m.runOperation (fuel + 2) (.call place name arguments) =
      match m.prepareCall name arguments with
      | .ok (routine, environment) =>
          m.callEnds ((m.tick.enter environment).runBlock fuel routine.body)
      | .error fault => .failed ⟨fault, some place⟩ m.tick := by
  have hprepare : m.tick.prepareCall name arguments = m.prepareCall name arguments := rfl
  simp only [runOperation, m.exhausted?_tick_eq_none_iff.2 hsteps, dispatch, hprepare]
  rcases m.prepareCall name arguments with fault | ⟨routine, environment⟩
  · rfl
  · rfl

end Machine

/-- **Failures before anything is done leave no trace.**  If an operation that can only
fail before anything is done does fail, then nothing but the step count has changed.
A call fails for the first of these reasons that there is, in this order: no step is left,
no routine has the name, the number of arguments is wrong, too many calls are active, an
argument has no value. If there is none of them, the body of the routine starts. -/
theorem failures_leave_no_trace (m : Machine) :
    (∀ op fuel d n, m.FailsFirst op → m.runOperation fuel op = .failed d n →
      n = { m with steps := m.steps + 1 } ∧ d.location = some op.place) ∧
    ∀ place name arguments fuel,
      let called := m.runOperation (fuel + 2) (.call place name arguments)
      (∀ limit, m.limits.maxSteps = some limit → limit ≤ m.steps →
        called = .failed ⟨.stepLimitExceeded limit, some place⟩
          { m with steps := m.steps + 1 }) ∧
      (m.HasStepLeft →
        (∀ fault, m.Refuses name arguments fault →
          called = .failed ⟨fault, some place⟩ { m with steps := m.steps + 1 }) ∧
        ((∀ fault, ¬ m.Refuses name arguments fault) →
          ∃ r vs, m.routines.find name = .ok r ∧
            Expr.evalAll m.environment arguments = .ok vs ∧
            called = m.callEnds ((m.tick.enter (.ofList (r.parameters.zip vs))).runBlock fuel
              r.body))) := by
  refine ⟨fun op fuel d n hop hrun => ?_, fun place name arguments fuel => ?_⟩
  · exact Runs.eq_tick_of_failsFirst hop (.of_run (t := .operation op) (r := some d) hrun)
  intro called
  refine ⟨fun limit hlimit hsteps => ?spent, fun hsteps => ⟨fun fault hrefused => ?refused,
    fun hrefused => ?prepared⟩⟩
  case spent => exact Machine.runOperation_of_spent hlimit hsteps (fuel + 1) _
  case refused =>
    have hcalled := Machine.runOperation_call hsteps fuel place name arguments
    rw [Machine.prepareCall_of_refuses hrefused] at hcalled
    exact hcalled
  case prepared =>
    rcases m.refuses_or_prepareCall_eq_ok name arguments with
      ⟨fault, hfault⟩ | ⟨r, vs, hfind, -, -, hvalues, hprepare⟩
    · exact absurd hfault (hrefused fault)
    · have hcalled := Machine.runOperation_call hsteps fuel place name arguments
      rw [hprepare] at hcalled
      exact ⟨r, vs, hfind, hvalues, hcalled⟩

/-- A routine with two parameters. -/
def pairRoutine : Routine :=
  ⟨"pair", ["a", "b"], [.act (.ofRoot "pair") (.print [.variable "b"])]⟩

/-- A line whose second value cannot be read, and calls that fail for each of the reasons,
most of them with a later reason besides; the last call starts. -/
theorem failures_leave_no_trace_pair :
    let main : Location := .ofRoot "main"
    let x : Expr := .variable "x"
    let y : Expr := .variable "y"
    let m : Machine := { Machine.start ⟨1, some 9⟩ .emptyBuffer with
      environment := .ofList [("x", .bool true)], routines := ⟨.ofList [("pair", pairRoutine)]⟩ }
    let deep : Machine := { m with depth := 1 }
    let spent : Machine := { m with steps := 9 }
    (∃ d n, m.runOperation 9 (.act main (.print [x, y])) = .failed d n ∧
      n = { m with steps := 1 } ∧ d.location = some main) ∧
    spent.runOperation 9 (.call main "ghost" [y]) =
      .failed ⟨.stepLimitExceeded 9, some main⟩ { spent with steps := 10 } ∧
    deep.runOperation 9 (.call main "ghost" [y]) =
      .failed ⟨.undefinedFunction "ghost", some main⟩ { deep with steps := 1 } ∧
    deep.runOperation 9 (.call main "pair" [y]) =
      .failed ⟨.arityMismatch 2 1, some main⟩ { deep with steps := 1 } ∧
    deep.runOperation 9 (.call main "pair" [x, y]) =
      .failed ⟨.stackOverflow 1, some main⟩ { deep with steps := 1 } ∧
    m.runOperation 9 (.call main "pair" [x, y]) =
      .failed ⟨.undefinedVariable "y", some main⟩ { m with steps := 1 } ∧
    m.runOperation 9 (.call main "pair" [x, x]) =
      .done { m with steps := 2, sink := .buffer "true\n" } := by
  intro main x y m deep spent
  have hm : m.HasStepLeft := by
    intro limit hlimit
    cases hlimit
    decide
  have hdeep : deep.HasStepLeft := hm
  have hfind : m.routines.find "pair" = .ok pairRoutine := rfl
  have hdeepFind : deep.routines.find "pair" = .ok pairRoutine := rfl
  have hghost : ∀ r, deep.routines.find "ghost" ≠ .ok r := nofun
  have hsplit : [x, y] = [x] ++ y :: [] := rfl
  have hx : ∀ e ∈ [x], ∃ v, e.eval m.environment = .ok v := by
    intro e he
    rw [List.mem_singleton.1 he]
    exact ⟨_, rfl⟩
  have hstarts : ∀ fault, ¬ m.Refuses "pair" [x, x] fault := by
    intro fault hrefused
    cases Machine.prepareCall_of_refuses hrefused
  obtain ⟨hfails, hcalls⟩ := failures_leave_no_trace m
  have hdeepCalls := (failures_leave_no_trace deep).2
  have hspentCalls := (failures_leave_no_trace spent).2
  have hprint : m.runOperation 9 (.act main (.print [x, y])) =
      .failed ⟨.undefinedVariable "y", some main⟩ { m with steps := 1 } := rfl
  obtain ⟨r, vs, hr, hvs, hcalled⟩ := ((hcalls main "pair" [x, x] 7).2 hm).2 hstarts
  refine ⟨⟨_, _, hprint, hfails _ _ _ _ (.act main _) hprint⟩,
    (hspentCalls main "ghost" [y] 7).1 9 rfl (Nat.le_refl 9),
    ((hdeepCalls main "ghost" [y] 7).2 hdeep).1 _ (.undefined hghost),
    ((hdeepCalls main "pair" [y] 7).2 hdeep).1 _ (.arity hdeepFind (by decide)),
    ((hdeepCalls main "pair" [x, y] 7).2 hdeep).1 _ (.depth hdeepFind rfl (Nat.le_refl 1)),
    ((hcalls main "pair" [x, y] 7).2 hm).1 _
      (.argument hfind rfl Nat.zero_lt_one hsplit hx rfl), ?_⟩
  cases hfind.symm.trans hr
  cases hvs
  exact hcalled.trans rfl

end JsonScript
