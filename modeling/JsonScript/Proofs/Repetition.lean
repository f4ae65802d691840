import JsonScript.Proofs.Logs
import Mathlib

/-!
# A repetition is its body repeated

A repetition reads its count once and then runs its body that many times. Without a
step limit this comes to the same as a block that holds as many copies of the body,
one behind the other, whatever the body does: it may fail in any round, and it may
change the variables of the count.

The two differ in the steps that they count, since a repetition counts one for itself
and one before each round. Without a limit nothing reads the number of steps, so a run
may start with any number of them and goes the same way (`Runs.later_iff`). What is left
is an induction on the rounds, in which each round moves the counted step behind the
rest of the run.

## Main results

* `Runs.later_iff` — steps that were counted before are only added up.
* `Runs.block_of_times`, `Runs.times_of_block` — rounds and copies of the body.
* `repetition_ends_as_copies` — the whole operation.
-/

namespace JsonScript

/-! ## Steps that were counted before -/

/-- The machine with some more steps counted. -/
def Machine.later (more : Nat) (m : Machine) : Machine := { m with steps := m.steps + more }

theorem Machine.later_later (m : Machine) (more others : Nat) :
    (m.later more).later others = m.later (more + others) := by
  simp only [later, Nat.add_assoc]

/-- The machines have no step limit, and the second one is the first one with some
more steps counted. -/
structure Machine.Ahead (more : Nat) (m n : Machine) : Prop where
  unlimited : m.limits.maxSteps = none
  eq : n = m.later more

theorem Machine.Ahead.lockstep (more : Nat) : Lockstep (Machine.Ahead more) where
  environment h := by
    rw [h.eq]
    rfl
  exhausted {m n} h := by
    have hn : n.limits.maxSteps = none := by
      rw [h.eq]
      exact h.unlimited
    rw [Machine.exhausted?_of_unlimited h.unlimited, Machine.exhausted?_of_unlimited hn]
  prepareCall h name arguments := by
    rw [h.eq]
    rfl
  tick {m n} h := by
    refine ⟨h.unlimited, ?_⟩
    rw [h.eq]
    simp only [tick, later, Nat.add_right_comm]
  commit {m n} h place effect := by
    rw [h.eq]
    cases effect <;> exact ⟨h.unlimited, rfl⟩
  enter h environment := by
    rw [h.eq]
    exact ⟨h.unlimited, rfl⟩
  leave h environment := by
    rw [h.eq]
    exact ⟨h.unlimited, rfl⟩

/-- Without a step limit, steps that were counted before a run are added to those that
it counts, and change nothing else. -/
theorem Runs.later_iff {t : Task} {m n : Machine} {r : Option Diagnostic}
    (h : m.limits.maxSteps = none) (more : Nat) :
    Runs t (m.later more) r n ↔ ∃ n₀, Runs t m r n₀ ∧ n = n₀.later more := by
  have hlockstep := Machine.Ahead.lockstep more
  constructor
  · intro hr
    obtain ⟨fuel, hf⟩ := hr.exists_run
    obtain ⟨_, n₀, hf₀, rfl, hn⟩ := (hlockstep.run fuel t ⟨h, rfl⟩).ended_left hf
    exact ⟨n₀, .of_run hf₀, hn.eq⟩
  · rintro ⟨n₀, hr, rfl⟩
    obtain ⟨_, hr', hn⟩ := hlockstep.runs hr ⟨h, rfl⟩
    exact hn.eq ▸ hr'

/-! ## Rounds -/

section Rounds

variable {place : Location} {body : List Operation} {m n : Machine} {r : Option Diagnostic}

theorem Runs.times_zero_iff : Runs (.times 0 place body) m r n ↔ r = none ∧ n = m :=
  Runs.iff_plan

/-- Where a step is counted and two tasks follow, the step may as well be counted at the
end. -/
theorem Runs.counted_iff {t first rest : Task} (h : m.limits.maxSteps = none)
    (hd : t.decision m.environment = .count place (.seq first rest)) :
    Runs t m r n ↔
      ∃ n₀, n = n₀.later 1 ∧ ((r ≠ none ∧ Runs first m r n₀) ∨
        ∃ m₁, Runs first m none m₁ ∧ Runs rest m₁ r n₀) := by
  have hfree : m.tick.exhausted? = none := Machine.exhausted?_of_unlimited h
  have htick : m.tick = m.later 1 := rfl
  rw [Runs.iff_plan, Machine.plan, hd, Machine.follow_count, hfree, htick]
  simp only [Plan.Ends, Runs.later_iff h]
  constructor
  · rintro (⟨hr, n₀, hfirst, rfl⟩ | ⟨_, ⟨m₁, hfirst, rfl⟩, hrest⟩)
    · exact ⟨n₀, rfl, .inl ⟨hr, hfirst⟩⟩
    · have hm₁ : m₁.limits.maxSteps = none := by rw [hfirst.sameFrame.limits, h]
      obtain ⟨n₀, hrest', rfl⟩ := (Runs.later_iff hm₁ 1).1 hrest
      exact ⟨n₀, rfl, .inr ⟨m₁, hfirst, hrest'⟩⟩
  · rintro ⟨n₀, rfl, ⟨hr, hfirst⟩ | ⟨m₁, hfirst, hrest⟩⟩
    · exact .inl ⟨hr, n₀, hfirst, rfl⟩
    · have hm₁ : m₁.limits.maxSteps = none := by rw [hfirst.sameFrame.limits, h]
      exact .inr ⟨m₁.later 1, ⟨m₁, hfirst, rfl⟩, (Runs.later_iff hm₁ 1).2 ⟨n₀, hrest, rfl⟩⟩

/-- A round is the body, and then the rounds that are left. -/
theorem Runs.times_succ_iff (h : m.limits.maxSteps = none) {rounds : Nat} :
    Runs (.times (rounds + 1) place body) m r n ↔
      ∃ n₀, n = n₀.later 1 ∧ ((r ≠ none ∧ Runs (.block body) m r n₀) ∨
        ∃ m₁, Runs (.block body) m none m₁ ∧ Runs (.times rounds place body) m₁ r n₀) :=
  Runs.counted_iff h rfl

/-- A block that holds so many copies of another one. -/
def copies (k : Nat) (body : List Operation) : List Operation := (List.replicate k body).flatten

theorem copies_succ (k : Nat) (body : List Operation) :
    copies (k + 1) body = body ++ copies k body := by
  rw [copies, List.replicate_succ, List.flatten_cons, copies]

/-- The second machine is the first one with the steps of some rounds counted besides,
at most so many, and exactly so many after a success. -/
def Machine.AfterRounds (k : Nat) (r : Option Diagnostic) (m n : Machine) : Prop :=
  ∃ rounds ≤ k, n = m.later rounds ∧ (r = none → rounds = k)

theorem Machine.AfterRounds.again {k : Nat} (h : Machine.AfterRounds k r m n) :
    Machine.AfterRounds (k + 1) r m (n.later 1) := by
  obtain ⟨rounds, hle, rfl, hall⟩ := h
  exact ⟨rounds + 1, Nat.succ_le_succ hle, later_later .., fun hr => congrArg (· + 1) (hall hr)⟩

/-- The copies of the body do what the rounds do. -/
theorem Runs.block_of_times {k : Nat} (h : m.limits.maxSteps = none)
    (hr : Runs (.times k place body) m r n) :
    ∃ n', Runs (.block (copies k body)) m r n' ∧ n'.AfterRounds k r n := by
  induction k generalizing m n with
  | zero =>
      obtain ⟨rfl, rfl⟩ := Runs.times_zero_iff.1 hr
      exact ⟨n, Runs.block_nil_iff.2 ⟨rfl, rfl⟩, 0, Nat.le_refl 0, rfl, fun _ => rfl⟩
  | succ k ih =>
      rw [copies_succ]
      obtain ⟨n₀, rfl, ⟨hfailed, hbody⟩ | ⟨m₁, hbody, hrest⟩⟩ := (Runs.times_succ_iff h).1 hr
      · have hcopies : Runs (.block (body ++ copies k body)) m r n₀ :=
          Runs.block_append_iff.2 (.inl ⟨hfailed, hbody⟩)
        exact ⟨n₀, hcopies, 1, Nat.le_add_left 1 k, rfl, fun hnone => absurd hnone hfailed⟩
      · have hm₁ : m₁.limits.maxSteps = none := by rw [hbody.sameFrame.limits, h]
        obtain ⟨n', hcopies, hafter⟩ := ih hm₁ hrest
        exact ⟨n', Runs.block_append_iff.2 (.inr ⟨m₁, hbody, hcopies⟩), hafter.again⟩

/-- The rounds end if the copies of the body do. -/
theorem Runs.times_of_block {k : Nat} (place : Location) (h : m.limits.maxSteps = none)
    (hr : Runs (.block (copies k body)) m r n) :
    ∃ n', Runs (.times k place body) m r n' := by
  induction k generalizing m with
  | zero => exact ⟨n, Runs.times_zero_iff.2 (Runs.block_nil_iff.1 hr)⟩
  | succ k ih =>
      rw [copies_succ] at hr
      rcases Runs.block_append_iff.1 hr with ⟨hfailed, hbody⟩ | ⟨m₁, hbody, hrest⟩
      · exact ⟨n.later 1, (Runs.times_succ_iff h).2 ⟨n, rfl, .inl ⟨hfailed, hbody⟩⟩⟩
      · have hm₁ : m₁.limits.maxSteps = none := by rw [hbody.sameFrame.limits, h]
        obtain ⟨n₀, hrounds⟩ := ih hm₁ hrest
        exact ⟨n₀.later 1, (Runs.times_succ_iff h).2 ⟨n₀, rfl, .inr ⟨m₁, hbody, hrounds⟩⟩⟩

theorem Runs.block_singleton_iff {op : Operation} :
    Runs (.block [op]) m r n ↔ Runs (.operation op) m r n := by
  rw [Runs.block_cons_iff]
  constructor
  · rintro (⟨-, h⟩ | ⟨m₁, h, hnil⟩)
    · exact h
    · obtain ⟨rfl, rfl⟩ := Runs.block_nil_iff.1 hnil
      exact h
  · intro h
    cases r with
    | some d => exact .inl ⟨nofun, h⟩
    | none => exact .inr ⟨n, h, Runs.block_nil_iff.2 ⟨rfl, rfl⟩⟩

/-- An operation counts its step, which may as well be counted at the end. -/
theorem Runs.operation_later_iff {op : Operation} (h : m.limits.maxSteps = none) :
    Runs (.operation op) m r n ↔ ∃ n₀, Runs (.dispatch op) m r n₀ ∧ n = n₀.later 1 := by
  have hfree : m.tick.exhausted? = none := Machine.exhausted?_of_unlimited h
  have htick : m.tick = m.later 1 := rfl
  rw [Runs.operation_iff, hfree, htick, Runs.later_iff h]
  simp

/-- A repetition counts one step for itself, reads its count, and runs its rounds. -/
theorem Runs.repetition_iff {k : Nat} {count : Expr} (h : m.limits.maxSteps = none)
    (hcount : count.evalCount m.environment = .ok k) :
    Runs (.block [.times place count body]) m r n ↔
      ∃ n₀, Runs (.times k place body) m r n₀ ∧ n = n₀.later 1 := by
  have hdispatch {n₀ : Machine} : Runs (.dispatch (.times place count body)) m r n₀ ↔
      Runs (.times k place body) m r n₀ := by
    rw [Runs.iff_plan, Machine.plan, Task.decision, hcount]
    exact .rfl
  rw [Runs.block_singleton_iff, Runs.operation_later_iff h]
  simp only [hdispatch]

end Rounds

/-! ## Whole repetitions -/

/-- **A repetition is its body repeated.**  On a machine without a step limit, let the
count of a repetition come to `k`. The repetition ends exactly if so many copies of its
body, one behind the other, do. Then both end with the same diagnostic if any, and on
machines that differ in nothing but the steps counted: after a success the repetition
has counted `k + 1` steps more, and otherwise not more than that. -/
theorem repetition_ends_as_copies {m : Machine} (h : m.limits.maxSteps = none) {count : Expr}
    {k : Nat} (hcount : count.evalCount m.environment = .ok k) (place : Location)
    (body : List Operation) :
    ((∃ fuel r n, m.runBlock fuel [.times place count body] = .ended r n) ↔
      ∃ fuel r n, m.runBlock fuel (copies k body) = .ended r n) ∧
    ∀ fuel fuel' r r' n n', m.runBlock fuel [.times place count body] = .ended r n →
      m.runBlock fuel' (copies k body) = .ended r' n' →
        r = r' ∧ n = { n' with steps := n.steps } ∧ n.steps ≤ n'.steps + (k + 1) ∧
          (r = none → n.steps = n'.steps + (k + 1)) := by
  refine ⟨⟨?_, ?_⟩, ?_⟩
  · rintro ⟨fuel, r, n, hrun⟩
    obtain ⟨n₀, hrounds, -⟩ := (Runs.repetition_iff h hcount).1 (.of_run (t := .block _) hrun)
    obtain ⟨n', hcopies, -⟩ := Runs.block_of_times h hrounds
    obtain ⟨fuel', hrun'⟩ := hcopies.exists_run
    exact ⟨fuel', r, n', hrun'⟩
  · rintro ⟨fuel', r, n', hrun'⟩
    obtain ⟨n₀, hrounds⟩ := Runs.times_of_block place h (.of_run (t := .block _) hrun')
    have hrepetition := (Runs.repetition_iff h hcount).2 ⟨n₀, hrounds, rfl⟩
    obtain ⟨fuel, hrun⟩ := hrepetition.exists_run
    exact ⟨fuel, r, _, hrun⟩
  · intro fuel fuel' r r' n n' hrun hrun'
    obtain ⟨n₀, hrounds, rfl⟩ := (Runs.repetition_iff h hcount).1 (.of_run (t := .block _) hrun)
    obtain ⟨n₁, hcopies, hafter⟩ := Runs.block_of_times h hrounds
    obtain ⟨rfl, rfl⟩ := hcopies.deterministic (.of_run (t := .block _) hrun')
    obtain ⟨rounds, hle, hn, hall⟩ := hafter.again
    rw [hn]
    refine ⟨rfl, rfl, Nat.add_le_add_left hle _, fun hr => ?_⟩
    exact congrArg (n₁.steps + ·) (hall hr)

/-- A body that gives the variable of the count another value, and that fails in the
third round. -/
def shiftingBody : List Operation :=
  [.act (.ofRoot "body") (.print [.variable "go"]),
    .act (.ofRoot "body") (.assign "n" (.literal (.string "changed"))),
    .choose (.ofRoot "body") (.variable "go")
      [.act (.ofRoot "then") (.assign "go" (.variable "again")),
        .act (.ofRoot "then") (.assign "again" (.literal (.bool false)))]
      [.act (.ofRoot "else") (.print [.variable "ghost"])]]

theorem repetition_ends_as_copies_shifting :
    let count : Expr := .variable "n"
    let loop : Operation := .times (.ofRoot "main") count shiftingBody
    let m (x : Float) : Machine := { Machine.start ⟨8, none⟩ .emptyBuffer with
      environment := .ofList [("again", .bool true), ("go", .bool true), ("n", .number x)] }
    let d : Diagnostic := ⟨.undefinedVariable "ghost", some (.ofRoot "else")⟩
    let changed : Environment :=
      .ofList [("again", .bool false), ("go", .bool false), ("n", .string "changed")]
    let two : Machine := { m 2 with
      environment := changed, sink := .buffer "true\ntrue\n", steps := 10 }
    let three : Machine := { m 4 with
      environment := changed, sink := .buffer "true\ntrue\nfalse\n", steps := 14 }
    count.evalCount (m 2).environment = .ok 2 ∧ count.evalCount (m 4).environment = .ok 4 ∧
      (∃ fuel n, (m 2).runBlock fuel [loop] = .ended none n ∧ n = { two with steps := n.steps } ∧
        n.steps = two.steps + 3) ∧
      ∃ fuel n, (m 4).runBlock fuel [loop] = .ended (some d) n ∧
        n = { three with steps := n.steps } ∧ n.steps ≤ three.steps + 5 := by
  intro count loop m d changed two three
  have htwo : count.evalCount (m 2).environment = .ok 2 := rfl
  have hfour : count.evalCount (m 4).environment = .ok 4 := rfl
  have hcopies : (m 2).runBlock 20 (copies 2 shiftingBody) = .ended none two := by cbv
  have hcopies' : (m 4).runBlock 20 (copies 4 shiftingBody) = .ended (some d) three := by cbv
  obtain ⟨hends, hsame⟩ :=
    repetition_ends_as_copies (m := m 2) rfl htwo (.ofRoot "main") shiftingBody
  obtain ⟨fuel, _, n, hrun⟩ := hends.2 ⟨20, _, _, hcopies⟩
  obtain ⟨rfl, hn, -, hsteps⟩ := hsame _ _ _ _ _ _ hrun hcopies
  obtain ⟨hends', hsame'⟩ :=
    repetition_ends_as_copies (m := m 4) rfl hfour (.ofRoot "main") shiftingBody
  obtain ⟨fuel', _, n', hrun'⟩ := hends'.2 ⟨20, _, _, hcopies'⟩
  obtain ⟨rfl, hn', hsteps', -⟩ := hsame' _ _ _ _ _ _ hrun' hcopies'
  exact ⟨htwo, hfour, ⟨fuel, n, hrun, hn, hsteps rfl⟩, fuel', n', hrun', hn', hsteps'⟩

end JsonScript
