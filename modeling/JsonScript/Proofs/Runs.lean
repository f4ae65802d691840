import JsonScript.Machine.Run

/-!
# Runs as derivations

`Machine.runBlock` and its companions are five functions that share one supply
of fuel. A proof about a run has no use for the fuel, and should not go through
the same ten branches each time. This module takes the functions apart once.

A `Task` is anything that one of the five functions runs. What a machine does
about a task at once is found in two stages, neither of which recurses:

```
  task ──decision──▶ keep | commit | count | call ──follow──▶ plan
```

`Task.decision` reads the variables and nothing else. `Machine.follow` is all
that can happen to a machine: it stays, an effect is committed, a step is
counted, or a call is prepared. So a fact about one step is a split into four
cases, and `Runs`, the relation that follows plans to their end, is the
induction principle for facts about whole runs.

The body of a call runs with variables of its own, and on every way out of it
the caller takes up its own again. That is a rule of `Runs` and not a plan.

## Main results

* `Task.run_succ` — a unit of fuel carries out one plan.
* `Task.run_mono` — more fuel keeps the outcome of a run that ends.
* `runs_iff` — a run is derivable exactly when some fuel suffices for it.
* `Runs.deterministic` — a task ends in one way on one machine.
* `Runs.block_append_iff` — blocks one behind the other.
* `Runs.rel_of_moves` — what holds of a single move, and survives a call, holds
  from the start of a run to its end.
-/

namespace JsonScript

/-! ## Tasks -/

/-- A piece of work for a machine. -/
inductive Task where
  /-- A block. -/
  | block (operations : List Operation)
  /-- An operation whose step is still to be counted. -/
  | operation (op : Operation)
  /-- An operation whose step is counted. -/
  | dispatch (op : Operation)
  /-- The rounds that are left of a repetition. -/
  | times (rounds : Nat) (place : Location) (body : List Operation)
  /-- The rounds of a conditional repetition. -/
  | whilst (place : Location) (condition : Expr) (body : List Operation)

/-- Does a task with some fuel. -/
def Task.run (fuel : Nat) : Task → Machine → Outcome
  | .block operations, m => m.runBlock fuel operations
  | .operation op, m => m.runOperation fuel op
  | .dispatch op, m => m.dispatch fuel op
  | .times rounds place body, m => m.runTimes fuel rounds place body
  | .whilst place condition body, m => m.runWhilst fuel place condition body

/-- The outcome of a run that ends: without a diagnostic, or with a fatal one. -/
def Outcome.ended : Option Diagnostic → Machine → Outcome
  | none, m => .done m
  | some d, m => .failed d m

/-! ## Decisions and plans -/

/-- What is left to do about a task. -/
inductive Left where
  /-- Nothing. -/
  | nothing
  /-- To report a fatal diagnostic. -/
  | failure (diagnostic : Diagnostic)
  /-- Another task. -/
  | task (t : Task)
  /-- Two tasks, the second one to follow if the first succeeds. -/
  | seq (first rest : Task)

/-- What the variables decide about a task. -/
inductive Decision where
  /-- To go on at once. -/
  | keep (left : Left)
  /-- To make an effect happen. -/
  | commit (place : Location) (effect : Effect)
  /-- To count a step and go on, unless the step is one too many. -/
  | count (place : Location) (left : Left)
  /-- To call a routine. -/
  | call (place : Location) (name : String) (arguments : List Expr)

/-- What the variables decide about a task. -/
def Task.decision (env : Environment) : Task → Decision
  | .block [] => .keep .nothing
  | .block (op :: rest) => .keep (.seq (.operation op) (.block rest))
  | .operation op => .count op.place (.task (.dispatch op))
  | .dispatch (.act place action) =>
      match action.effect env with
      | .ok effect => .commit place effect
      | .error fault => .keep (.failure ⟨fault, some place⟩)
  | .dispatch (.choose place condition thenBlock elseBlock) =>
      match condition.evalCondition env with
      | .ok true => .keep (.task (.block thenBlock))
      | .ok false => .keep (.task (.block elseBlock))
      | .error fault => .keep (.failure ⟨fault, some place⟩)
  | .dispatch (.times place count body) =>
      match count.evalCount env with
      | .ok n => .keep (.task (.times n place body))
      | .error fault => .keep (.failure ⟨fault, some place⟩)
  | .dispatch (.whilst place condition body) => .keep (.task (.whilst place condition body))
  | .dispatch (.call place name arguments) => .call place name arguments
  | .times 0 _ _ => .keep .nothing
  | .times (rounds + 1) place body =>
      .count place (.seq (.block body) (.times rounds place body))
  | .whilst place condition body =>
      match condition.evalCondition env with
      | .error fault => .keep (.failure ⟨fault, some place⟩)
      | .ok false => .keep .nothing
      | .ok true => .count place (.seq (.block body) (.whilst place condition body))

/-- What a machine does about a task at once, and what is then left to do. -/
inductive Plan where
  /-- Something is left to do on this machine. -/
  | go (left : Left) (machine : Machine)
  /-- A body is left that runs with variables of its own. -/
  | call (body : List Operation) (environment : Environment)

/-- Acts on a decision. -/
def Machine.follow (m : Machine) : Decision → Plan
  | .keep left => .go left m
  | .commit place effect => .go .nothing (m.commit place effect)
  | .count place left =>
      match m.tick.exhausted? with
      | some fault => .go (.failure ⟨fault, some place⟩) m.tick
      | none => .go left m.tick
  | .call place name arguments =>
      match m.prepareCall name arguments with
      | .ok (routine, environment) => .call routine.body environment
      | .error fault => .go (.failure ⟨fault, some place⟩) m

/-- What a machine does about a task at once. -/
def Machine.plan (m : Machine) (t : Task) : Plan := m.follow (t.decision m.environment)

/-- Does what a plan leaves to do, with some fuel. -/
def Plan.carryOut (fuel : Nat) (m : Machine) : Plan → Outcome
  | .go .nothing m' => .done m'
  | .go (.failure d) m' => .failed d m'
  | .go (.task t) m' => t.run fuel m'
  | .go (.seq t rest) m' =>
      match t.run fuel m' with
      | .done m'' => rest.run fuel m''
      | .failed d m'' => .failed d m''
      | .outOfFuel => .outOfFuel
  | .call body environment =>
      match (Task.block body).run fuel (m.enter environment) with
      | .done m' => .done (m'.leave m.environment)
      | .failed d m' => .failed d (m'.leave m.environment)
      | .outOfFuel => .outOfFuel

theorem Task.run_zero (t : Task) (m : Machine) : t.run 0 m = .outOfFuel := by
  cases t <;> simp only [Task.run, Machine.runBlock, Machine.runOperation, Machine.dispatch,
    Machine.runTimes, Machine.runWhilst]

/-- Whether a machine is exhausted depends on its limits and its steps. -/
theorem Machine.exhausted?_congr {m m' : Machine} (hlimits : m.limits = m'.limits)
    (hsteps : m.steps = m'.steps) : m.exhausted? = m'.exhausted? := by
  rw [Machine.exhausted?, Machine.exhausted?, hlimits, hsteps]

theorem Machine.exhausted?_eq_some_iff (m : Machine) (fault : Fault) :
    m.exhausted? = some fault ↔
      ∃ limit, m.limits.maxSteps = some limit ∧ limit < m.steps ∧
        fault = .stepLimitExceeded limit := by
  rw [Machine.exhausted?]
  cases m.limits.maxSteps with
  | none => simp
  | some limit => simp [eq_comm]

theorem Machine.exhausted?_of_unlimited {m : Machine} (h : m.limits.maxSteps = none) :
    m.exhausted? = none := by
  rw [Machine.exhausted?, h]

/-- The step limit, if there is one, admits one step more. -/
def Machine.HasStepLeft (m : Machine) : Prop :=
  ∀ limit, m.limits.maxSteps = some limit → m.steps < limit

theorem Machine.exhausted?_tick_eq_none_iff (m : Machine) :
    m.tick.exhausted? = none ↔ m.HasStepLeft := by
  rw [Option.eq_none_iff_forall_ne_some]
  simp only [ne_eq, Machine.exhausted?_eq_some_iff, Machine.HasStepLeft]
  constructor
  · intro h limit hlimit
    exact Nat.lt_of_not_le fun hsteps => h _ ⟨limit, hlimit, Nat.lt_succ_of_le hsteps, rfl⟩
  · rintro h _ ⟨limit, hlimit, hsteps, -⟩
    exact absurd (h limit hlimit) (Nat.not_lt.2 (Nat.le_of_lt_succ hsteps))

theorem Machine.follow_count (m : Machine) (place : Location) (left : Left) :
    m.follow (.count place left) =
      .go (match m.tick.exhausted? with
        | some fault => .failure ⟨fault, some place⟩
        | none => left) m.tick := by
  rw [Machine.follow]
  cases m.tick.exhausted? <;> rfl

/-- A unit of fuel carries out one plan. -/
theorem Task.run_succ (fuel : Nat) (t : Task) (m : Machine) :
    t.run (fuel + 1) m = (m.plan t).carryOut fuel m := by
  match t with
  | .block [] => rfl
  | .block (op :: rest) => rfl
  | .operation op =>
      rw [Machine.plan, Task.decision, Machine.follow_count]
      simp only [Task.run, Machine.runOperation]
      cases m.tick.exhausted? <;> rfl
  | .dispatch (.act place action) =>
      simp only [Task.run, Machine.dispatch, Machine.plan, Task.decision]
      cases action.effect m.environment <;> rfl
  | .dispatch (.choose place condition thenBlock elseBlock) =>
      simp only [Task.run, Machine.dispatch, Machine.plan, Task.decision]
      rcases condition.evalCondition m.environment with fault | (_ | _) <;> rfl
  | .dispatch (.times place count body) =>
      simp only [Task.run, Machine.dispatch, Machine.plan, Task.decision]
      cases count.evalCount m.environment <;> rfl
  | .dispatch (.whilst place condition body) => rfl
  | .dispatch (.call place name arguments) =>
      simp only [Task.run, Machine.dispatch, Machine.plan, Task.decision, Machine.follow]
      cases m.prepareCall name arguments <;> rfl
  | .times 0 place body => rfl
  | .times (rounds + 1) place body =>
      rw [Machine.plan, Task.decision, Machine.follow_count]
      simp only [Task.run, Machine.runTimes]
      cases m.tick.exhausted? <;> rfl
  | .whilst place condition body =>
      simp only [Task.run, Machine.runWhilst, Machine.plan, Task.decision]
      rcases condition.evalCondition m.environment with fault | (_ | _)
      · rfl
      · rfl
      · rw [Machine.follow_count]
        simp only
        cases m.tick.exhausted? <;> rfl

/-! ## Outcomes of plans -/

theorem Outcome.ended_injective {r₁ r₂ : Option Diagnostic} {m₁ m₂ : Machine}
    (h : Outcome.ended r₁ m₁ = .ended r₂ m₂) : r₁ = r₂ ∧ m₁ = m₂ := by
  cases r₁ <;> cases r₂ <;> simp_all [Outcome.ended]

theorem Outcome.eq_of_done_eq_ended {m₁ m₂ : Machine} {r : Option Diagnostic}
    (h : Outcome.done m₁ = .ended r m₂) : none = r ∧ m₁ = m₂ :=
  Outcome.ended_injective h

theorem Outcome.eq_of_failed_eq_ended {d : Diagnostic} {m₁ m₂ : Machine} {r : Option Diagnostic}
    (h : Outcome.failed d m₁ = .ended r m₂) : some d = r ∧ m₁ = m₂ :=
  Outcome.ended_injective h

theorem Outcome.ended_ne_outOfFuel (r : Option Diagnostic) (m : Machine) :
    Outcome.outOfFuel ≠ .ended r m := by
  cases r <;> exact nofun

/-- Of two tasks, the first one fails, or the second one ends. -/
theorem Plan.carryOut_seq_eq_ended {fuel : Nat} {m m₁ m' : Machine} {t rest : Task}
    {r : Option Diagnostic} (h : (Plan.go (.seq t rest) m₁).carryOut fuel m = .ended r m') :
    (∃ d, r = some d ∧ t.run fuel m₁ = .ended (some d) m') ∨
      ∃ m₂, t.run fuel m₁ = .ended none m₂ ∧ rest.run fuel m₂ = .ended r m' := by
  rw [Plan.carryOut] at h
  cases ht : t.run fuel m₁ with
  | done m₂ =>
      rw [ht] at h
      exact .inr ⟨m₂, rfl, h⟩
  | failed d m₂ =>
      rw [ht] at h
      obtain ⟨rfl, rfl⟩ := Outcome.eq_of_failed_eq_ended h
      exact .inl ⟨d, rfl, rfl⟩
  | outOfFuel =>
      rw [ht] at h
      exact absurd h (Outcome.ended_ne_outOfFuel r m')

/-- A call ends as its body does, with the caller's variables. -/
theorem Plan.carryOut_call_eq_ended {fuel : Nat} {m m' : Machine} {body : List Operation}
    {environment : Environment} {r : Option Diagnostic}
    (h : (Plan.call body environment).carryOut fuel m = .ended r m') :
    ∃ m₁, (Task.block body).run fuel (m.enter environment) = .ended r m₁ ∧
      m' = m₁.leave m.environment := by
  rw [Plan.carryOut] at h
  cases hb : (Task.block body).run fuel (m.enter environment) with
  | done m₁ =>
      rw [hb] at h
      obtain ⟨rfl, rfl⟩ := Outcome.eq_of_done_eq_ended h
      exact ⟨m₁, rfl, rfl⟩
  | failed d m₁ =>
      rw [hb] at h
      obtain ⟨rfl, rfl⟩ := Outcome.eq_of_failed_eq_ended h
      exact ⟨m₁, rfl, rfl⟩
  | outOfFuel =>
      rw [hb] at h
      exact absurd h (Outcome.ended_ne_outOfFuel r m')

private theorem carryOut_seq_of_failed {fuel : Nat} {m m₁ m' : Machine} {t rest : Task}
    {d : Diagnostic} (h : t.run fuel m₁ = .ended (some d) m') :
    (Plan.go (.seq t rest) m₁).carryOut fuel m = .ended (some d) m' := by
  rw [Plan.carryOut, h]
  rfl

private theorem carryOut_seq_of_done {fuel : Nat} {m m₁ m₂ : Machine} {t rest : Task}
    (h : t.run fuel m₁ = .ended none m₂) :
    (Plan.go (.seq t rest) m₁).carryOut fuel m = rest.run fuel m₂ := by
  rw [Plan.carryOut, h]
  rfl

private theorem carryOut_call_of_ended {fuel : Nat} {m m₁ : Machine} {body : List Operation}
    {environment : Environment} {r : Option Diagnostic}
    (h : (Task.block body).run fuel (m.enter environment) = .ended r m₁) :
    (Plan.call body environment).carryOut fuel m = .ended r (m₁.leave m.environment) := by
  rw [Plan.carryOut, h]
  cases r <;> rfl

/-- More fuel keeps the outcome of a run that ends. -/
theorem Task.run_mono {fuel n : Nat} {t : Task} {m m' : Machine} {r : Option Diagnostic}
    (h : t.run fuel m = .ended r m') (hle : fuel ≤ n) : t.run n m = .ended r m' := by
  induction fuel generalizing n t m r m' with
  | zero =>
      rw [Task.run_zero] at h
      exact absurd h (Outcome.ended_ne_outOfFuel r m')
  | succ fuel ih =>
      obtain ⟨n, rfl⟩ : ∃ k, n = k + 1 := ⟨n - 1, by omega⟩
      have hle : fuel ≤ n := by omega
      rw [Task.run_succ] at h ⊢
      rcases hp : m.plan t with ⟨_ | d | t' | ⟨t₁, t₂⟩, m₁⟩ | ⟨body, environment⟩
      · rwa [hp] at h
      · rwa [hp] at h
      · rw [hp] at h
        exact ih h hle
      · rw [hp] at h
        rcases Plan.carryOut_seq_eq_ended h with ⟨d, rfl, h₁⟩ | ⟨m₂, h₁, h₂⟩
        · exact carryOut_seq_of_failed (ih h₁ hle)
        · rw [carryOut_seq_of_done (ih h₁ hle)]
          exact ih h₂ hle
      · rw [hp] at h
        obtain ⟨m₁, h₁, rfl⟩ := Plan.carryOut_call_eq_ended h
        exact carryOut_call_of_ended (ih h₁ hle)

/-! ## Derivations -/

/-- The task ends on the machine, with this diagnostic if there is one, and
leaves this machine behind. -/
inductive Runs : Task → Machine → Option Diagnostic → Machine → Prop where
  | finish {t : Task} {m m' : Machine} (plan : m.plan t = .go .nothing m') : Runs t m none m'
  | fail {t : Task} {m m' : Machine} {d : Diagnostic}
      (plan : m.plan t = .go (.failure d) m') : Runs t m (some d) m'
  | go {t t' : Task} {m m₁ m' : Machine} {r : Option Diagnostic}
      (plan : m.plan t = .go (.task t') m₁) (rest : Runs t' m₁ r m') : Runs t m r m'
  | stop {t t₁ t₂ : Task} {m m₁ m' : Machine} {d : Diagnostic}
      (plan : m.plan t = .go (.seq t₁ t₂) m₁) (first : Runs t₁ m₁ (some d) m') :
      Runs t m (some d) m'
  | seq {t t₁ t₂ : Task} {m m₁ m₂ m' : Machine} {r : Option Diagnostic}
      (plan : m.plan t = .go (.seq t₁ t₂) m₁) (first : Runs t₁ m₁ none m₂)
      (rest : Runs t₂ m₂ r m') : Runs t m r m'
  | call {t : Task} {m m' : Machine} {body : List Operation} {environment : Environment}
      {r : Option Diagnostic} (plan : m.plan t = .call body environment)
      (inside : Runs (.block body) (m.enter environment) r m') :
      Runs t m r (m'.leave m.environment)

theorem Runs.of_run {fuel : Nat} {t : Task} {m m' : Machine} {r : Option Diagnostic}
    (h : t.run fuel m = .ended r m') : Runs t m r m' := by
  induction fuel generalizing t m r m' with
  | zero =>
      rw [Task.run_zero] at h
      exact absurd h (Outcome.ended_ne_outOfFuel r m')
  | succ fuel ih =>
      rw [Task.run_succ] at h
      rcases hp : m.plan t with ⟨_ | d | t' | ⟨t₁, t₂⟩, m₁⟩ | ⟨body, environment⟩
      · rw [hp] at h
        obtain ⟨rfl, rfl⟩ := Outcome.eq_of_done_eq_ended h
        exact .finish hp
      · rw [hp] at h
        obtain ⟨rfl, rfl⟩ := Outcome.eq_of_failed_eq_ended h
        exact .fail hp
      · rw [hp] at h
        exact .go hp (ih h)
      · rw [hp] at h
        rcases Plan.carryOut_seq_eq_ended h with ⟨d, rfl, h₁⟩ | ⟨m₂, h₁, h₂⟩
        · exact .stop hp (ih h₁)
        · exact .seq hp (ih h₁) (ih h₂)
      · rw [hp] at h
        obtain ⟨m₁, h₁, rfl⟩ := Plan.carryOut_call_eq_ended h
        exact .call hp (ih h₁)

theorem Runs.exists_run {t : Task} {m m' : Machine} {r : Option Diagnostic}
    (h : Runs t m r m') : ∃ fuel, t.run fuel m = .ended r m' := by
  induction h with
  | finish hp => exact ⟨1, by rw [Task.run_succ, hp]; rfl⟩
  | fail hp => exact ⟨1, by rw [Task.run_succ, hp]; rfl⟩
  | go hp _ ih =>
      obtain ⟨fuel, ih⟩ := ih
      exact ⟨fuel + 1, by rw [Task.run_succ, hp]; exact ih⟩
  | stop hp _ ih =>
      obtain ⟨fuel, ih⟩ := ih
      exact ⟨fuel + 1, by rw [Task.run_succ, hp]; exact carryOut_seq_of_failed ih⟩
  | seq hp _ _ ih₁ ih₂ =>
      obtain ⟨f₁, ih₁⟩ := ih₁
      obtain ⟨f₂, ih₂⟩ := ih₂
      refine ⟨max f₁ f₂ + 1, ?_⟩
      rw [Task.run_succ, hp, carryOut_seq_of_done (Task.run_mono ih₁ (Nat.le_max_left ..))]
      exact Task.run_mono ih₂ (Nat.le_max_right ..)
  | call hp _ ih =>
      obtain ⟨fuel, ih⟩ := ih
      exact ⟨fuel + 1, by rw [Task.run_succ, hp]; exact carryOut_call_of_ended ih⟩

/-- A run is derivable exactly when some fuel suffices for it. -/
theorem runs_iff {t : Task} {m m' : Machine} {r : Option Diagnostic} :
    Runs t m r m' ↔ ∃ fuel, t.run fuel m = .ended r m' :=
  ⟨Runs.exists_run, fun ⟨_, h⟩ => .of_run h⟩

/-- The run of a program is that of its main block on the loaded machine. -/
theorem runs_main_iff {p : Program} {m m' : Machine} {r : Option Diagnostic} :
    Runs (.block p.main) (m.load p) r m' ↔ ∃ fuel, m.run fuel p = .ended r m' :=
  runs_iff

/-- A task ends in one way on one machine. -/
theorem Runs.deterministic {t : Task} {m m₁ m₂ : Machine} {r₁ r₂ : Option Diagnostic}
    (h₁ : Runs t m r₁ m₁) (h₂ : Runs t m r₂ m₂) : r₁ = r₂ ∧ m₁ = m₂ := by
  obtain ⟨f₁, h₁⟩ := h₁.exists_run
  obtain ⟨f₂, h₂⟩ := h₂.exists_run
  have h₁ := Task.run_mono h₁ (Nat.le_max_left f₁ f₂)
  have h₂ := Task.run_mono h₂ (Nat.le_max_right f₁ f₂)
  exact Outcome.ended_injective (h₁.symm.trans h₂)

/-! ## Runs of given tasks

The rules of `Runs`, read backwards and put together: what a run of a task is
follows from the task's plan. -/

/-- What a plan comes to on the machine that made it. -/
def Plan.Ends (m : Machine) (r : Option Diagnostic) (m' : Machine) : Plan → Prop
  | .go .nothing m₁ => r = none ∧ m' = m₁
  | .go (.failure d) m₁ => r = some d ∧ m' = m₁
  | .go (.task t) m₁ => Runs t m₁ r m'
  | .go (.seq t₁ t₂) m₁ =>
      (r ≠ none ∧ Runs t₁ m₁ r m') ∨ ∃ m₂, Runs t₁ m₁ none m₂ ∧ Runs t₂ m₂ r m'
  | .call body environment =>
      ∃ m₁, Runs (.block body) (m.enter environment) r m₁ ∧ m' = m₁.leave m.environment

theorem Runs.iff_plan {t : Task} {m m' : Machine} {r : Option Diagnostic} :
    Runs t m r m' ↔ (m.plan t).Ends m r m' := by
  constructor
  · intro h
    cases h with
    | finish hp => rw [hp]; exact ⟨rfl, rfl⟩
    | fail hp => rw [hp]; exact ⟨rfl, rfl⟩
    | go hp h => rw [hp]; exact h
    | stop hp h => rw [hp]; exact .inl ⟨nofun, h⟩
    | seq hp h₁ h₂ => rw [hp]; exact .inr ⟨_, h₁, h₂⟩
    | call hp h => rw [hp]; exact ⟨_, h, rfl⟩
  · intro h
    rcases hp : m.plan t with ⟨_ | d | t' | ⟨t₁, t₂⟩, m₁⟩ | ⟨body, environment⟩
    · rw [hp] at h
      obtain ⟨rfl, rfl⟩ := h
      exact .finish hp
    · rw [hp] at h
      obtain ⟨rfl, rfl⟩ := h
      exact .fail hp
    · rw [hp] at h
      exact .go hp h
    · rw [hp] at h
      rcases h with ⟨hr, h⟩ | ⟨m₂, h₁, h₂⟩
      · obtain ⟨d, rfl⟩ := Option.ne_none_iff_exists'.1 hr
        exact .stop hp h
      · exact .seq hp h₁ h₂
    · rw [hp] at h
      obtain ⟨m₁, h, rfl⟩ := h
      exact .call hp h

theorem Runs.block_nil_iff {m m' : Machine} {r : Option Diagnostic} :
    Runs (.block []) m r m' ↔ r = none ∧ m' = m :=
  Runs.iff_plan

theorem Runs.block_cons_iff {op : Operation} {rest : List Operation} {m m' : Machine}
    {r : Option Diagnostic} :
    Runs (.block (op :: rest)) m r m' ↔
      (r ≠ none ∧ Runs (.operation op) m r m') ∨
        ∃ m₁, Runs (.operation op) m none m₁ ∧ Runs (.block rest) m₁ r m' :=
  Runs.iff_plan

/-- Two blocks one behind the other: the second one follows if the first one
succeeds. -/
theorem Runs.block_append_iff {first rest : List Operation} {m m' : Machine}
    {r : Option Diagnostic} :
    Runs (.block (first ++ rest)) m r m' ↔
      (r ≠ none ∧ Runs (.block first) m r m') ∨
        ∃ m₁, Runs (.block first) m none m₁ ∧ Runs (.block rest) m₁ r m' := by
  induction first generalizing m with
  | nil =>
      simp only [List.nil_append, Runs.block_nil_iff, true_and, exists_eq_left]
      constructor
      · exact .inr
      · rintro (⟨hr, rfl, -⟩ | h)
        · exact absurd rfl hr
        · exact h
  | cons op more ih =>
      rw [List.cons_append, Runs.block_cons_iff, Runs.block_cons_iff]
      simp only [Runs.block_cons_iff, ih, ne_eq, not_true_eq_false, false_and, false_or]
      constructor
      · rintro (⟨hr, h⟩ | ⟨m₁, h₁, ⟨hr, h⟩ | ⟨m₂, h₂, h⟩⟩)
        · exact .inl ⟨hr, .inl ⟨hr, h⟩⟩
        · exact .inl ⟨hr, .inr ⟨m₁, h₁, h⟩⟩
        · exact .inr ⟨m₂, ⟨m₁, h₁, h₂⟩, h⟩
      · rintro (⟨hr, ⟨-, h⟩ | ⟨m₁, h₁, h⟩⟩ | ⟨m₂, ⟨m₁, h₁, h₂⟩, h⟩)
        · exact .inl ⟨hr, h⟩
        · exact .inr ⟨m₁, h₁, .inl ⟨hr, h⟩⟩
        · exact .inr ⟨m₁, h₁, .inr ⟨m₂, h₂, h⟩⟩

/-- The fuel that suffices for two blocks suffices for each of them. -/
theorem Machine.runBlock_of_append {fuel : Nat} {first rest : List Operation} {m m' : Machine}
    {r : Option Diagnostic} (h : m.runBlock fuel (first ++ rest) = .ended r m') :
    (∃ d, r = some d ∧ m.runBlock fuel first = .ended (some d) m') ∨
      ∃ m₁, m.runBlock fuel first = .ended none m₁ ∧ m₁.runBlock fuel rest = .ended r m' := by
  have hzero (operations : List Operation) (m : Machine) : m.runBlock 0 operations = .outOfFuel :=
    Task.run_zero (.block operations) m
  induction first generalizing fuel m with
  | nil =>
      cases fuel with
      | zero =>
          rw [hzero] at h
          exact absurd h (Outcome.ended_ne_outOfFuel r m')
      | succ fuel => exact .inr ⟨m, rfl, h⟩
  | cons op more ih =>
      cases fuel with
      | zero =>
          rw [hzero] at h
          exact absurd h (Outcome.ended_ne_outOfFuel r m')
      | succ fuel =>
          rw [List.cons_append, Machine.runBlock_cons] at h
          simp only [Machine.runBlock_cons]
          cases hop : m.runOperation fuel op with
          | outOfFuel =>
              rw [hop] at h
              exact absurd h (Outcome.ended_ne_outOfFuel r m')
          | failed d m₁ =>
              rw [hop] at h
              obtain ⟨rfl, rfl⟩ := Outcome.eq_of_failed_eq_ended h
              exact .inl ⟨d, rfl, rfl⟩
          | done m₁ =>
              rw [hop] at h
              rcases ih h with hfailed | ⟨m₂, h₁, h₂⟩
              · exact .inl hfailed
              · exact .inr ⟨m₂, h₁, Task.run_mono (t := .block rest) h₂ (Nat.le_succ fuel)⟩

theorem Runs.operation_iff {op : Operation} {m m' : Machine} {r : Option Diagnostic} :
    Runs (.operation op) m r m' ↔
      (∃ fault, m.tick.exhausted? = some fault ∧ r = some ⟨fault, some op.place⟩ ∧
          m' = m.tick) ∨
        (m.tick.exhausted? = none ∧ Runs (.dispatch op) m.tick r m') := by
  rw [Runs.iff_plan, Machine.plan, Task.decision, Machine.follow]
  cases m.tick.exhausted? <;> simp [Plan.Ends]

theorem Runs.act_iff {place : Location} {action : Action} {m m' : Machine}
    {r : Option Diagnostic} :
    Runs (.dispatch (.act place action)) m r m' ↔
      (∃ fault, action.effect m.environment = .error fault ∧
          r = some ⟨fault, some place⟩ ∧ m' = m) ∨
        ∃ effect, action.effect m.environment = .ok effect ∧ r = none ∧
          m' = m.commit place effect := by
  rw [Runs.iff_plan, Machine.plan, Task.decision]
  cases action.effect m.environment <;> simp [Machine.follow, Plan.Ends]

theorem Runs.call_iff {place : Location} {name : String} {arguments : List Expr}
    {m m' : Machine} {r : Option Diagnostic} :
    Runs (.dispatch (.call place name arguments)) m r m' ↔
      (∃ fault, m.prepareCall name arguments = .error fault ∧
          r = some ⟨fault, some place⟩ ∧ m' = m) ∨
        ∃ routine environment m₁, m.prepareCall name arguments = .ok (routine, environment) ∧
          Runs (.block routine.body) (m.enter environment) r m₁ ∧
          m' = m₁.leave m.environment := by
  rw [Runs.iff_plan, Machine.plan, Task.decision, Machine.follow]
  rcases m.prepareCall name arguments with fault | ⟨routine, environment⟩
  · simp [Plan.Ends]
  · constructor
    · rintro ⟨m₁, h, rfl⟩
      exact .inr ⟨routine, environment, m₁, rfl, h, rfl⟩
    · rintro (⟨_, h, _⟩ | ⟨_, _, m₁, h, hb, rfl⟩)
      · cases h
      · cases h
        exact ⟨m₁, hb, rfl⟩

/-! ## Moves -/

/-- What a plan does to its machine: nothing, a step counted, or an action. -/
inductive Machine.Move (m : Machine) : Machine → Prop where
  | stay : Move m m
  | tick : Move m m.tick
  | commit {action : Action} {effect : Effect} (place : Location)
      (h : action.effect m.environment = .ok effect) : Move m (m.commit place effect)

theorem Task.exists_action {t : Task} {env : Environment} {place : Location} {effect : Effect}
    (h : t.decision env = .commit place effect) :
    ∃ action, t = .dispatch (.act place action) ∧ action.effect env = .ok effect := by
  revert h
  fun_cases Task.decision env t
  all_goals
    intro h
    cases h
  case case4 action he => exact ⟨action, rfl, he⟩

/-- How a machine comes to what is left of a task. -/
inductive Machine.Goes (m : Machine) (t : Task) : Left → Machine → Prop where
  | keep {left : Left} (decided : t.decision m.environment = .keep left) : Goes m t left m
  | commit {place : Location} {effect : Effect}
      (decided : t.decision m.environment = .commit place effect) :
      Goes m t .nothing (m.commit place effect)
  | count {place : Location} {left : Left}
      (decided : t.decision m.environment = .count place left)
      (admitted : m.tick.exhausted? = none) : Goes m t left m.tick
  | exhausted {place : Location} {left : Left} {fault : Fault}
      (decided : t.decision m.environment = .count place left)
      (exceeded : m.tick.exhausted? = some fault) : Goes m t (.failure ⟨fault, some place⟩) m.tick
  | refused {place : Location} {name : String} {arguments : List Expr} {fault : Fault}
      (decided : t.decision m.environment = .call place name arguments)
      (unprepared : m.prepareCall name arguments = .error fault) :
      Goes m t (.failure ⟨fault, some place⟩) m

/-- Plans are made in no other way. -/
theorem Machine.goes_of_plan {t : Task} {m m₁ : Machine} {left : Left}
    (h : m.plan t = .go left m₁) : m.Goes t left m₁ := by
  rw [Machine.plan] at h
  cases hd : t.decision m.environment with
  | keep left' =>
      rw [hd] at h
      cases h
      exact .keep hd
  | commit place effect =>
      rw [hd] at h
      cases h
      exact .commit hd
  | count place left' =>
      rw [hd, Machine.follow] at h
      cases he : m.tick.exhausted? <;> rw [he] at h <;> cases h
      · exact .count hd he
      · exact .exhausted hd he
  | call place name arguments =>
      rw [hd, Machine.follow] at h
      cases hc : m.prepareCall name arguments <;> rw [hc] at h <;> cases h
      exact .refused hd hc

/-- One move. -/
theorem Machine.Goes.move {t : Task} {m m₁ : Machine} {left : Left} (h : m.Goes t left m₁) :
    m.Move m₁ := by
  cases h with
  | keep | refused => exact .stay
  | count | exhausted => exact .tick
  | commit decided =>
      obtain ⟨action, -, he⟩ := Task.exists_action decided
      exact .commit _ he

/-- A plan makes one move. -/
theorem Machine.move_of_plan {t : Task} {m m₁ : Machine} {left : Left}
    (h : m.plan t = .go left m₁) : m.Move m₁ :=
  (Machine.goes_of_plan h).move

section Rel

variable {R : Machine → Machine → Prop}

/-- What holds of a single move, and survives a call, holds from the start of a
run to its end. -/
theorem Runs.rel_of_moves (trans : ∀ {m₁ m₂ m₃}, R m₁ m₂ → R m₂ m₃ → R m₁ m₃)
    (move : ∀ {m m' : Machine}, m.Move m' → R m m')
    (call : ∀ {m m' : Machine} (environment : Environment),
      R (m.enter environment) m' → R m (m'.leave m.environment))
    {t : Task} {m m' : Machine} {r : Option Diagnostic} (h : Runs t m r m') : R m m' := by
  have planned {t : Task} {left : Left} {m m₁ : Machine} (hp : m.plan t = .go left m₁) :
      R m m₁ := move (Machine.move_of_plan hp)
  induction h with
  | finish hp => exact planned hp
  | fail hp => exact planned hp
  | go hp _ ih => exact trans (planned hp) ih
  | stop hp _ ih => exact trans (planned hp) ih
  | seq hp _ _ ih₁ ih₂ => exact trans (planned hp) (trans ih₁ ih₂)
  | call _ _ ih => exact call _ ih

end Rel

end JsonScript
