import JsonScript.Proofs.Logs
import JsonScript.Proofs.Reach

/-!
# A step limit ends every run

A conditional repetition leads back to itself and a call leads to code of any
size, so no part of a program gets smaller as it runs. What gets smaller under
a step limit is the number of steps that are left. Between one counted step and
the next only a few plans are made: a block comes to its first operation, a
counted operation comes to a repetition or to a block, and an operation or a
round of a repetition counts before anything else (`Task.waits`). So a lead
uses up a step or waits less for the next one.

## Main results

* `Leads.counts_or_waits_less` — no way leads around the counting.
* `Runs.exists_of_stepLimit` — every task ends under a step limit.
* `Runs.steps_le` — one step beyond the limit is the last.
* `Runs.steps_lt_bound` — a step limit keeps the count within 64 bits.
-/

namespace JsonScript

/-! ## Waiting for a step -/

/-- How many plans a task may make before a step is counted. -/
def Task.waits : Task → Nat
  | .operation _ | .times .. | .whilst .. => 0
  | .block _ => 1
  | .dispatch _ => 2

/-- A task that goes on as another one without counting waits less from then. -/
theorem Task.waits_lt_of_keep {t t' : Task} {env : Environment}
    (h : t.decision env = .keep (.task t')) : t'.waits < t.waits := by
  revert h
  fun_cases Task.decision env t
  all_goals
    intro h
    cases h
  -- Only a counted operation goes on as another task.
  all_goals simp only [Task.waits, Nat.one_lt_two, Nat.zero_lt_two]

/-- Without counting, only a block leaves two tasks, and the first one counts. -/
theorem Task.operation_of_keep {t t₁ t₂ : Task} {env : Environment}
    (h : t.decision env = .keep (.seq t₁ t₂)) :
    ∃ op rest, t = .block (op :: rest) ∧ t₁ = .operation op := by
  revert h
  fun_cases Task.decision env t
  all_goals
    intro h
    cases h
  exact ⟨_, _, rfl, rfl⟩

theorem Runs.counts_of_operation {op : Operation} {m m' : Machine}
    (h : Runs (.operation op) m none m') : m.tick.exhausted? = none ∧ m.steps < m'.steps := by
  rcases Runs.operation_iff.1 h with ⟨_, _, hr, _⟩ | ⟨he, hd⟩
  · cases hr
  · exact ⟨he, hd.extends.steps⟩

/-- No way leads around the counting: a lead has counted a step that the limit
admits, or waits less for the next one. -/
theorem Leads.counts_or_waits_less {calls : Nat} {t t' : Task} {m m' : Machine}
    (h : Leads calls t m t' m') :
    m.tick.exhausted? = none ∧ m.steps < m'.steps ∨
      m'.steps = m.steps ∧ t'.waits < t.waits := by
  cases h with
  | go hp =>
      rcases Machine.leaves_of_plan hp rfl with ⟨hd, rfl⟩ | ⟨-, he, rfl⟩
      · exact .inr ⟨rfl, Task.waits_lt_of_keep hd⟩
      · exact .inl ⟨he, Nat.lt_succ_self _⟩
  | first hp =>
      rcases Machine.leaves_of_plan hp (.inl rfl) with ⟨hd, rfl⟩ | ⟨-, he, rfl⟩
      · obtain ⟨op, rest, rfl, rfl⟩ := Task.operation_of_keep hd
        exact .inr ⟨rfl, Nat.zero_lt_one⟩
      · exact .inl ⟨he, Nat.lt_succ_self _⟩
  | second hp hr =>
      rcases Machine.leaves_of_plan hp (.inr rfl) with ⟨hd, rfl⟩ | ⟨-, he, rfl⟩
      · obtain ⟨op, rest, rfl, rfl⟩ := Task.operation_of_keep hd
        exact .inl hr.counts_of_operation
      · exact .inl ⟨he, hr.extends.steps⟩
  | call hp =>
      obtain ⟨place, name, arguments, routine, rfl, -⟩ := Machine.prepareCall_of_plan hp
      exact .inr ⟨rfl, Nat.lt_succ_self 1⟩

/-! ## Ending under a step limit -/

section Limit

variable {limit : Nat} {t : Task} {m m' : Machine}

theorem Machine.steps_lt_of_not_exhausted (hlimit : m.limits.maxSteps = some limit)
    (h : m.tick.exhausted? = none) : m.steps < limit :=
  (m.exhausted?_tick_eq_none_iff.1 h) limit hlimit

/-- Every task ends under a step limit. -/
theorem Runs.exists_of_stepLimit (hlimit : m.limits.maxSteps = some limit) :
    ∃ r m', Runs t m r m' := by
  -- The steps that are left come first, the plans until the next one second.
  refine Runs.exists_of_measure (P := fun _ m => m.limits.maxSteps = some limit)
    (Prod.lex Nat.lt_wfRel Nat.lt_wfRel).wf (fun t m => (limit - m.steps, t.waits)) ?_ hlimit
  intro calls t t' m m' hlimit hl
  refine ⟨by rw [hl.deeper.limits]; exact hlimit, ?_⟩
  rcases hl.counts_or_waits_less with ⟨he, hlt⟩ | ⟨hsteps, hwaits⟩
  · have hleft := Machine.steps_lt_of_not_exhausted hlimit he
    exact .left _ _ (by show limit - m'.steps < limit - m.steps; omega)
  · rw [hsteps]
    exact .right _ hwaits

/-! ## The last step -/

/-- A plan counts no step beyond the limit, unless it is to complain about it. -/
theorem Machine.steps_le_of_plan {left : Left} (hlimit : m.limits.maxSteps = some limit)
    (h : m.plan t = .go left m') :
    m'.steps ≤ max limit m.steps + 1 ∧
      ((∀ d, left ≠ .failure d) → m'.steps ≤ max limit m.steps) := by
  have kept : m'.steps ≤ max limit m.steps → m'.steps ≤ max limit m.steps + 1 ∧
      ((∀ d, left ≠ .failure d) → m'.steps ≤ max limit m.steps) :=
    fun hle => ⟨Nat.le_succ_of_le hle, fun _ => hle⟩
  cases Machine.goes_of_plan h with
  | keep | refused => exact kept (Nat.le_max_right ..)
  | @commit place effect _ => cases effect <;> exact kept (Nat.le_max_right ..)
  | count _ admitted =>
      have hlt := Machine.steps_lt_of_not_exhausted hlimit admitted
      exact kept (Nat.le_trans hlt (Nat.le_max_left ..))
  | exhausted =>
      exact ⟨Nat.succ_le_succ (Nat.le_max_right ..), fun hleft => absurd rfl (hleft _)⟩

/-- One step beyond the limit is the last, and a run that succeeds takes none. -/
theorem Runs.steps_le {r : Option Diagnostic} (h : Runs t m r m')
    (hlimit : m.limits.maxSteps = some limit) :
    m'.steps ≤ max limit m.steps + 1 ∧ (r = none → m'.steps ≤ max limit m.steps) := by
  have limited {t : Task} {left : Left} {m m₁ : Machine} (hp : m.plan t = .go left m₁)
      (h : m.limits.maxSteps = some limit) : m₁.limits.maxSteps = some limit := by
    rw [(Machine.SameFrame.of_plan hp).limits]
    exact h
  induction h with
  | @finish t m m' hp =>
      obtain ⟨hend, hdone⟩ := Machine.steps_le_of_plan hlimit hp
      exact ⟨hend, fun _ => hdone nofun⟩
  | @fail t m m' d hp => exact ⟨(Machine.steps_le_of_plan hlimit hp).1, nofun⟩
  | @go t t' m m₁ m' r hp _ ih =>
      have hplan := (Machine.steps_le_of_plan hlimit hp).2 nofun
      obtain ⟨hend, hdone⟩ := ih (limited hp hlimit)
      exact ⟨by omega, fun hr => by have := hdone hr; omega⟩
  | @stop t t₁ t₂ m m₁ m' d hp _ ih =>
      have hplan := (Machine.steps_le_of_plan hlimit hp).2 nofun
      obtain ⟨hend, -⟩ := ih (limited hp hlimit)
      exact ⟨by omega, nofun⟩
  | @seq t t₁ t₂ m m₁ m₂ m' r hp hr₁ _ ih₁ ih₂ =>
      have hplan := (Machine.steps_le_of_plan hlimit hp).2 nofun
      have hlimit₁ := limited hp hlimit
      have hlimit₂ : m₂.limits.maxSteps = some limit := by
        rw [hr₁.sameFrame.limits]
        exact hlimit₁
      have hfirst := (ih₁ hlimit₁).2 rfl
      obtain ⟨hend, hdone⟩ := ih₂ hlimit₂
      exact ⟨by omega, fun hr => by have := hdone hr; omega⟩
  | call _ _ ih => exact ih hlimit

/-- The count of steps stays within 64 bits if the limit and the steps that were taken before
leave room for one more. -/
theorem Runs.steps_lt_bound {r : Option Diagnostic} (h : Runs t m r m')
    (hlimit : m.limits.maxSteps = some limit) (hroom : limit + 1 < Counter.bound)
    (hstart : m.steps + 1 < Counter.bound) : m'.steps < Counter.bound := by
  obtain ⟨hend, -⟩ := h.steps_le hlimit
  calc m'.steps ≤ max limit m.steps + 1 := hend
    _ = max (limit + 1) (m.steps + 1) := (Nat.add_max_add_right ..).symm
    _ < Counter.bound := Nat.max_lt.2 ⟨hroom, hstart⟩

end Limit

/-- **A step limit ends every run.**  On every machine with a step limit, every
block ends, and it takes at most one step beyond the limit, or beyond those
that were taken before. -/
theorem runBlock_ends_under_step_limit {m : Machine} {limit : Nat}
    (hlimit : m.limits.maxSteps = some limit) (operations : List Operation) :
    ∃ fuel r m', m.runBlock fuel operations = .ended r m' ∧
      m'.steps ≤ max limit m.steps + 1 := by
  obtain ⟨r, m', hr⟩ := Runs.exists_of_stepLimit (t := .block operations) hlimit
  obtain ⟨fuel, hf⟩ := hr.exists_run
  exact ⟨fuel, r, m', hf, (hr.steps_le hlimit).1⟩

/-- Two routines that call each other, one of them out of a repetition without
end, and a repetition without end and without a body. -/
def endlessRoutines : RoutineTable := ⟨.ofList
  [("ping", ⟨"ping", [], [.call (.ofRoot "ping") "pong" []]⟩),
   ("pong", ⟨"pong", [],
    [.whilst (.ofRoot "pong") (.literal (.bool true)) [.call (.ofRoot "pong") "ping" []]]⟩)]⟩

theorem runBlock_ends_under_step_limit_endless :
    let m := { Machine.start ⟨128, some 9⟩ .emptyBuffer with
      routines := endlessRoutines, steps := 4 }
    m.limits.maxSteps = some 9 ∧
      (∃ fuel r m', m.runBlock fuel [.call (.ofRoot "main") "ping" []] = .ended r m' ∧
        m'.steps ≤ 10) ∧
      ∃ fuel r m', m.runBlock fuel [.whilst (.ofRoot "main") (.literal (.bool true)) []] =
        .ended r m' ∧ m'.steps ≤ 10 := by
  intro m
  have hlimit : m.limits.maxSteps = some 9 := rfl
  exact ⟨hlimit, runBlock_ends_under_step_limit hlimit _, runBlock_ends_under_step_limit hlimit _⟩

end JsonScript
