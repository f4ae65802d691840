import JsonScript.Proofs.Repetition

/-!
# A conditional repetition unfolds

A conditional repetition tests its condition, and if that holds it runs its body and
then starts over. So it comes to the same as a choice on the condition between nothing
and a block that holds the body and, behind it, the repetition itself. The law does not
say that the repetition ends: it relates the ends of the two, and if one has none then
the other has none.

The steps are counted at different moments. The repetition counts one before its body
and none before it starts over, where the block counts one for the repetition that
stands in it. So the two have counted equally many when the first round is done, and
differ by one if the body fails in it.

A repetition that succeeds has tested its condition last, whatever the limits are.

## Main results

* `Runs.unfolded_of_whilst`, `Runs.whilst_of_unfolded` — the first round, both ways.
* `Machine.evalCondition_of_runWhilst` — the condition is false at the end.
* `whilst_unfolds` — the whole operation.
-/

namespace JsonScript

theorem Expr.evalCondition_eq_ok_iff (env : Environment) (e : Expr) (b : Bool) :
    e.evalCondition env = .ok b ↔ e.eval env = .ok (.bool b) := by
  rw [evalCondition]
  cases e.eval env with
  | error fault => simp [bind, Except.bind]
  | ok v => cases v <;> simp [bind, Except.bind, Value.asBool?]

/-! ## The first round -/

section FirstRound

variable {place : Location} {condition : Expr} {body : List Operation} {m n : Machine}
  {r : Option Diagnostic}

/-- A choice between nothing and one round of a conditional repetition with the
repetition behind it. -/
def Operation.unfolded (place : Location) (condition : Expr) (body : List Operation) :
    Operation :=
  .choose place condition (body ++ [.whilst place condition body]) []

/-- Both read the condition first, and do nothing unless it holds. -/
theorem Runs.unfolded_iff_whilst_of_ne_true
    (hc : condition.evalCondition m.environment ≠ .ok true) :
    Runs (.dispatch (.unfolded place condition body)) m r n ↔
      Runs (.whilst place condition body) m r n := by
  rw [Operation.unfolded, Runs.iff_plan, Runs.iff_plan, Machine.plan, Machine.plan,
    Task.decision, Task.decision]
  rcases hread : condition.evalCondition m.environment with fault | (_ | _)
  · exact .rfl
  · exact Runs.block_nil_iff
  · exact absurd hread hc

/-- The round is the body, and then the repetition, which counts its step. -/
theorem Runs.unfolded_iff_of_true (h : m.limits.maxSteps = none)
    (hc : condition.evalCondition m.environment = .ok true) :
    Runs (.dispatch (.unfolded place condition body)) m r n ↔
      (r ≠ none ∧ Runs (.block body) m r n) ∨
        ∃ m₁, Runs (.block body) m none m₁ ∧
          ∃ n₀, Runs (.whilst place condition body) m₁ r n₀ ∧ n = n₀.later 1 := by
  have hchosen : Runs (.dispatch (.unfolded place condition body)) m r n ↔
      Runs (.block (body ++ [.whilst place condition body])) m r n := by
    rw [Operation.unfolded, Runs.iff_plan, Machine.plan, Task.decision, hc]
    exact .rfl
  have hagain {m₁ : Machine} (hbody : Runs (.block body) m none m₁) :
      Runs (.block [.whilst place condition body]) m₁ r n ↔
        ∃ n₀, Runs (.whilst place condition body) m₁ r n₀ ∧ n = n₀.later 1 := by
    have hm₁ : m₁.limits.maxSteps = none := by rw [hbody.sameFrame.limits, h]
    have hdispatch {n₀ : Machine} : Runs (.dispatch (.whilst place condition body)) m₁ r n₀ ↔
        Runs (.whilst place condition body) m₁ r n₀ := Runs.iff_plan
    rw [Runs.block_singleton_iff, Runs.operation_later_iff hm₁]
    simp only [hdispatch]
  rw [hchosen, Runs.block_append_iff]
  exact or_congr_right (exists_congr fun m₁ => and_congr_right hagain)

theorem Runs.whilst_iff_of_true (h : m.limits.maxSteps = none)
    (hc : condition.evalCondition m.environment = .ok true) :
    Runs (.whilst place condition body) m r n ↔
      ∃ n₀, n = n₀.later 1 ∧ ((r ≠ none ∧ Runs (.block body) m r n₀) ∨
        ∃ m₁, Runs (.block body) m none m₁ ∧ Runs (.whilst place condition body) m₁ r n₀) :=
  Runs.counted_iff h (by rw [Task.decision, hc])

/-- The unfolding does what the repetition does. It has counted one step less if the
body fails in the first round, and otherwise equally many. -/
theorem Runs.unfolded_of_whilst (h : m.limits.maxSteps = none)
    (hr : Runs (.whilst place condition body) m r n) :
    ∃ n', Runs (.dispatch (.unfolded place condition body)) m r n' ∧
      ∃ more ≤ 1, n = n'.later more ∧ (r = none → more = 0) := by
  by_cases hc : condition.evalCondition m.environment = .ok true
  · obtain ⟨n₀, rfl, ⟨hfailed, hbody⟩ | ⟨m₁, hbody, hrest⟩⟩ :=
      (Runs.whilst_iff_of_true h hc).1 hr
    · refine ⟨n₀, (Runs.unfolded_iff_of_true h hc).2 (.inl ⟨hfailed, hbody⟩), 1, Nat.le_refl 1,
        rfl, fun hnone => absurd hnone hfailed⟩
    · exact ⟨n₀.later 1, (Runs.unfolded_iff_of_true h hc).2 (.inr ⟨m₁, hbody, n₀, hrest, rfl⟩), 0,
        Nat.zero_le 1, rfl, fun _ => rfl⟩
  · exact ⟨n, (Runs.unfolded_iff_whilst_of_ne_true hc).2 hr, 0, Nat.zero_le 1, rfl, fun _ => rfl⟩

/-- The repetition ends if its unfolding does. -/
theorem Runs.whilst_of_unfolded (h : m.limits.maxSteps = none)
    (hr : Runs (.dispatch (.unfolded place condition body)) m r n) :
    ∃ n', Runs (.whilst place condition body) m r n' := by
  by_cases hc : condition.evalCondition m.environment = .ok true
  · rcases (Runs.unfolded_iff_of_true h hc).1 hr with
      ⟨hfailed, hbody⟩ | ⟨m₁, hbody, n₀, hrest, rfl⟩
    · exact ⟨n.later 1, (Runs.whilst_iff_of_true h hc).2 ⟨n, rfl, .inl ⟨hfailed, hbody⟩⟩⟩
    · exact ⟨n₀.later 1, (Runs.whilst_iff_of_true h hc).2 ⟨n₀, rfl, .inr ⟨m₁, hbody, hrest⟩⟩⟩
  · exact ⟨n, (Runs.unfolded_iff_whilst_of_ne_true hc).1 hr⟩

end FirstRound

/-! ## The last test -/

/-- Rounds that succeed end where the condition is false. The induction is on the fuel,
which goes down by one with every round. -/
theorem Machine.evalCondition_of_runWhilst {fuel : Nat} {place : Location} {condition : Expr}
    {body : List Operation} {m n : Machine}
    (h : m.runWhilst fuel place condition body = .done n) :
    condition.evalCondition n.environment = .ok false := by
  induction fuel generalizing m with
  | zero =>
      rw [runWhilst] at h
      cases h
  | succ fuel ih =>
      rw [runWhilst] at h
      split at h
      case h_1 => cases h
      case h_2 hread =>
        cases h
        exact hread
      case h_3 =>
        dsimp only at h
        split at h
        · cases h
        split at h
        case h_1 => exact ih h
        case h_2 | h_3 => cases h

theorem Runs.evalCondition_of_whilst {place : Location} {condition : Expr}
    {body : List Operation} {m n : Machine}
    (h : Runs (.operation (.whilst place condition body)) m none n) :
    condition.evalCondition n.environment = .ok false := by
  rcases Runs.operation_iff.1 h with ⟨_, _, ⟨⟩, _⟩ | ⟨_, hdispatch⟩
  have hrounds : Runs (.whilst place condition body) m.tick none n := Runs.iff_plan.1 hdispatch
  obtain ⟨fuel, hrun⟩ := hrounds.exists_run
  exact Machine.evalCondition_of_runWhilst hrun

/-! ## Whole operations -/

/-- **A conditional repetition unfolds, and ends only where its condition is false.**  On
a machine without a step limit, a conditional repetition ends exactly if the choice on
its condition between nothing and its body with the repetition behind it does. Then both
end with the same diagnostic if any, and on machines that differ in nothing but the steps
counted: equally many after a success, and at most one more by the repetition otherwise.
On any machine, where the repetition succeeds its condition has become false. -/
theorem whilst_unfolds (m : Machine) (place : Location) (condition : Expr)
    (body : List Operation) :
    let loop : Operation := .whilst place condition body
    let unfolding : Operation := .unfolded place condition body
    (m.limits.maxSteps = none →
      ((∃ fuel r n, m.runOperation fuel loop = .ended r n) ↔
        ∃ fuel r n, m.runOperation fuel unfolding = .ended r n) ∧
      ∀ fuel fuel' r r' n n', m.runOperation fuel loop = .ended r n →
        m.runOperation fuel' unfolding = .ended r' n' →
          r = r' ∧ n = { n' with steps := n.steps } ∧
            n'.steps ≤ n.steps ∧ n.steps ≤ n'.steps + 1 ∧ (r = none → n.steps = n'.steps)) ∧
    ∀ fuel n, m.runOperation fuel loop = .done n →
      condition.eval n.environment = .ok (.bool false) := by
  intro loop unfolding
  have hrounds {m n : Machine} {r : Option Diagnostic} :
      Runs (.dispatch loop) m r n ↔ Runs (.whilst place condition body) m r n := Runs.iff_plan
  refine ⟨fun h => ⟨⟨?_, ?_⟩, ?_⟩, ?_⟩
  · rintro ⟨fuel, r, n, hrun⟩
    obtain ⟨n₀, hloop, -⟩ := (Runs.operation_later_iff h).1 (.of_run (t := .operation _) hrun)
    obtain ⟨n', hunfolding, -⟩ := Runs.unfolded_of_whilst h (hrounds.1 hloop)
    obtain ⟨fuel', hrun'⟩ := ((Runs.operation_later_iff h).2 ⟨n', hunfolding, rfl⟩).exists_run
    exact ⟨fuel', r, _, hrun'⟩
  · rintro ⟨fuel', r, n', hrun'⟩
    obtain ⟨n₀, hunfolding, -⟩ :=
      (Runs.operation_later_iff h).1 (.of_run (t := .operation _) hrun')
    obtain ⟨n, hloop⟩ := Runs.whilst_of_unfolded h hunfolding
    obtain ⟨fuel, hrun⟩ := ((Runs.operation_later_iff h).2 ⟨n, hrounds.2 hloop, rfl⟩).exists_run
    exact ⟨fuel, r, _, hrun⟩
  · intro fuel fuel' r r' n n' hrun hrun'
    obtain ⟨n₀, hloop, rfl⟩ := (Runs.operation_later_iff h).1 (.of_run (t := .operation _) hrun)
    obtain ⟨n₁, hunfolding, more, hmore, rfl, hall⟩ :=
      Runs.unfolded_of_whilst h (hrounds.1 hloop)
    have hended := (Runs.operation_later_iff h).2 ⟨n₁, hunfolding, rfl⟩
    obtain ⟨rfl, rfl⟩ := hended.deterministic (.of_run (t := .operation _) hrun')
    have hcomm : (n₁.later more).later 1 = (n₁.later 1).later more := by
      rw [Machine.later_later, Machine.later_later, Nat.add_comm]
    rw [hcomm]
    refine ⟨rfl, rfl, Nat.le_add_right .., Nat.add_le_add_left hmore _, fun hr => ?_⟩
    rw [hall hr]
    rfl
  · intro fuel n hrun
    have hended : Runs (.operation loop) m none n := .of_run (t := .operation _) hrun
    exact (Expr.evalCondition_eq_ok_iff ..).1 hended.evalCondition_of_whilst

/-- A body that prints the variable of the condition and gives it another value. -/
def settlingBody : List Operation :=
  [.act (.ofRoot "body") (.print [.variable "go"]),
    .act (.ofRoot "body") (.assign "go" (.variable "again")),
    .act (.ofRoot "body") (.assign "again" (.literal (.bool false)))]

/-- Two rounds in one case, and in the other a condition that fails after one round. -/
theorem whilst_unfolds_settling :
    let condition : Expr := .variable "go"
    let loop : Operation := .whilst (.ofRoot "main") condition settlingBody
    let m (again : Value) : Machine := { Machine.start ⟨8, none⟩ .emptyBuffer with
      environment := .ofList [("again", again), ("go", .bool true)] }
    let d : Diagnostic :=
      ⟨.typeMismatch "bool condition" "string", some (.ofRoot "main")⟩
    (m (.bool true)).limits.maxSteps = none ∧
      (∃ fuel n, (m (.bool true)).runOperation fuel loop = .ended none n ∧
        n = { m (.bool false) with
          environment := .ofList [("again", .bool false), ("go", .bool false)]
          sink := .buffer "true\ntrue\n", steps := 9 } ∧
        condition.eval n.environment = .ok (.bool false)) ∧
      ∃ fuel n, (m (.string "no")).runOperation fuel loop = .ended (some d) n ∧
        n.sink = .buffer "true\n" := by
  intro condition loop m d
  let unfolding : Operation := .unfolded (.ofRoot "main") condition settlingBody
  have htrue : (m (.bool true)).runOperation 20 unfolding = .ended none
      { m (.bool false) with
        environment := .ofList [("again", .bool false), ("go", .bool false)]
        sink := .buffer "true\ntrue\n", steps := 9 } := by cbv
  have hno : (m (.string "no")).runOperation 20 unfolding = .ended (some d)
      { m (.bool false) with
        environment := .ofList [("again", .bool false), ("go", .string "no")]
        sink := .buffer "true\n", steps := 5 } := by cbv
  obtain ⟨hunfolds, hexit⟩ :=
    whilst_unfolds (m (.bool true)) (.ofRoot "main") condition settlingBody
  obtain ⟨hends, hsame⟩ := hunfolds rfl
  obtain ⟨fuel, _, n, hrun⟩ := hends.2 ⟨20, _, _, htrue⟩
  obtain ⟨rfl, hn, -, -, hsteps⟩ := hsame _ _ _ _ _ _ hrun htrue
  rw [hsteps rfl] at hn
  obtain ⟨hunfolds', -⟩ :=
    whilst_unfolds (m (.string "no")) (.ofRoot "main") condition settlingBody
  obtain ⟨hends', hsame'⟩ := hunfolds' rfl
  obtain ⟨fuel', _, n', hrun'⟩ := hends'.2 ⟨20, _, _, hno⟩
  obtain ⟨rfl, hn', -⟩ := hsame' _ _ _ _ _ _ hrun' hno
  exact ⟨rfl, ⟨fuel, n, hrun, hn, hexit fuel n hrun⟩, fuel', n', hrun', by rw [hn']⟩

end JsonScript
