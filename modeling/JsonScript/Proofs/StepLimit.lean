import JsonScript.Proofs.Restriction

/-!
# The step limit

A step limit does nothing to a run that stays within it, and stops any other
run at the first step beyond it. Steps are counted in three places, before an
operation and before a round of either repetition; all three are decisions to
`count`, so there is one case in which a limited machine can part from an
unlimited one.

## Main results

* `run_within_or_beyond_step_limit` — the limited run is the unlimited run up
  to the limit, exactly.
-/

namespace JsonScript

/-- The machine with another limit on its steps. -/
def Machine.withMaxSteps (limit : Option Nat) (m : Machine) : Machine :=
  { m with limits := { m.limits with maxSteps := limit } }

theorem Machine.withMaxSteps_commit (limit : Option Nat) (m : Machine) (place : Location)
    (effect : Effect) :
    (m.commit place effect).withMaxSteps limit = (m.withMaxSteps limit).commit place effect := by
  cases effect <;> rfl

/-- The tightening of an unlimited machine to `limit` steps. -/
def stepRestriction (limit : Nat) : Restriction where
  tighten := Machine.withMaxSteps (some limit)
  Within m := m.limits.maxSteps = none ∧ m.steps ≤ limit
  Cut fault c := fault = .stepLimitExceeded limit ∧ c.steps = limit + 1

namespace stepRestriction

variable {limit : Nat} {m : Machine} {t : Task}

theorem within_of_move {m' : Machine} (h : m.Move m') (hsteps : m'.steps ≤ limit)
    (hm : (stepRestriction limit).Within m) : (stepRestriction limit).Within m' := by
  refine ⟨?_, hsteps⟩
  rw [(Machine.SameFrame.of_move h).limits]
  exact hm.1

/-- A plan that counts a step is followed, or stopped at the very step that the
limit forbids. -/
private theorem count {place : Location} {left : Left}
    (hm : (stepRestriction limit).Within m)
    (hd : t.decision m.environment = .count place left) :
    (stepRestriction limit).Follows t m ∨ (stepRestriction limit).Stops t m := by
  have hfree : m.tick.exhausted? = none := Machine.exhausted?_of_unlimited hm.1
  have hplan : m.plan t = .go left m.tick := by
    rw [Machine.plan, hd, Machine.follow_count, hfree]
  have hlimited : (m.withMaxSteps (some limit)).plan t =
      (m.withMaxSteps (some limit)).follow (.count place left) := by
    rw [← hd]
    rfl
  have hexhausted : (m.withMaxSteps (some limit)).tick.exhausted? =
      if limit < m.steps + 1 then some (.stepLimitExceeded limit) else none := rfl
  by_cases hlt : m.steps < limit
  · left
    have hgoes : ¬ limit < m.steps + 1 := by omega
    constructor
    · show (m.withMaxSteps (some limit)).plan t = _
      rw [hlimited, Machine.follow_count, hexhausted, if_neg hgoes, hplan]
      rfl
    · intro left₁ m₁ hm₁
      cases hplan.symm.trans hm₁
      exact ⟨hm.1, hlt⟩
  · right
    have hle : m.steps ≤ limit := hm.2
    have hstops : limit < m.steps + 1 := by omega
    refine ⟨.stepLimitExceeded limit, place, m.tick.withMaxSteps (some limit), ?_,
      ⟨rfl, ?_⟩, ?_⟩
    · show (m.withMaxSteps (some limit)).plan t = _
      rw [hlimited, Machine.follow_count, hexhausted, if_pos hstops]
      rfl
    · show m.steps + 1 = limit + 1
      omega
    · intro r m' hr
      obtain ⟨hsteps, lines, notes, ha⟩ := hr.extends_of_plan hplan
      exact ⟨hsteps, lines, notes, ha.sink, ha.warnings⟩

theorem plan (t : Task) (hm : (stepRestriction limit).Within m) :
    (stepRestriction limit).Follows t m ∨ (stepRestriction limit).Stops t m := by
  have hplan : (m.withMaxSteps (some limit)).plan t =
      (m.withMaxSteps (some limit)).follow (t.decision m.environment) := rfl
  cases hd : t.decision m.environment with
  | keep left =>
      refine .inl ⟨?_, ?_⟩
      · show (m.withMaxSteps (some limit)).plan t = _
        rw [hplan, Machine.plan, hd]
        rfl
      · intro left₁ m₁ hm₁
        rw [Machine.plan, hd] at hm₁
        cases hm₁
        exact hm
  | commit place effect =>
      refine .inl ⟨?_, ?_⟩
      · show (m.withMaxSteps (some limit)).plan t = _
        rw [hplan, Machine.plan, hd, Machine.follow, ← Machine.withMaxSteps_commit]
        rfl
      · intro left₁ m₁ hm₁
        refine within_of_move (Machine.move_of_plan hm₁) ?_ hm
        rw [Machine.plan, hd] at hm₁
        cases hm₁
        cases effect <;> exact hm.2
  | count place left => exact count hm hd
  | call place name arguments =>
      have hprep : (m.withMaxSteps (some limit)).prepareCall name arguments =
          m.prepareCall name arguments := rfl
      refine .inl ⟨?_, ?_⟩
      · show (m.withMaxSteps (some limit)).plan t = _
        rw [hplan, Machine.plan, hd]
        simp only [Machine.follow, hprep]
        cases m.prepareCall name arguments <;> rfl
      · intro left₁ m₁ hm₁
        rw [Machine.plan, hd, Machine.follow] at hm₁
        cases hc : m.prepareCall name arguments <;> rw [hc] at hm₁ <;> cases hm₁
        exact hm

theorem sound (limit : Nat) : (stepRestriction limit).Sound where
  environment _ := rfl
  enter _ _ := rfl
  leave _ _ := rfl
  within_enter _ h := h
  within_leave _ h := h
  cut_leave _ h := h
  plan t h := plan t h

end stepRestriction

/-- **The step limit is an exact cut-off.**  Let the run of a program without a
step limit end. Then it ends under every limit. If it counts no more steps than
the limit, it ends in the same way on the same machine; otherwise it ends with
the complaint about the limit, one step beyond it, and the unlimited run only
adds to what it has printed and warned about. -/
theorem run_within_or_beyond_step_limit {p : Program} {m m' : Machine} {fuel : Nat}
    {r : Option Diagnostic} (h : (m.withMaxSteps none).run fuel p = .ended r m') (limit : Nat) :
    ∃ fuel' r₁ m₁, (m.withMaxSteps (some limit)).run fuel' p = .ended r₁ m₁ ∧
      (m'.steps ≤ limit → r₁ = r ∧ m₁ = m'.withMaxSteps (some limit)) ∧
      (limit < m'.steps → (∃ place, r₁ = some ⟨.stepLimitExceeded limit, some place⟩) ∧
        m₁.steps = limit + 1 ∧ ∃ lines notes, m₁.Adds lines notes m') := by
  have hr := Runs.of_run (t := .block p.main) h
  have hm : (stepRestriction limit).Within ((m.withMaxSteps none).load p) :=
    ⟨rfl, Nat.zero_le limit⟩
  rcases Restriction.runs (stepRestriction.sound limit) hr hm with
    ⟨⟨_, hle⟩, hk⟩ | ⟨fault, place, c, hk, ⟨rfl, hc⟩, hsteps, hlogs⟩
  · obtain ⟨fuel', hf⟩ := hk.exists_run
    refine ⟨fuel', r, m'.withMaxSteps (some limit), hf, fun _ => ⟨rfl, rfl⟩, fun hlt => ?_⟩
    exact absurd hlt (Nat.not_lt.2 hle)
  · obtain ⟨fuel', hf⟩ := hk.exists_run
    refine ⟨fuel', _, c, hf, fun hle => ?_, fun _ => ⟨⟨place, rfl⟩, hc, hlogs⟩⟩
    omega

/-- A program of five steps: it prints in one round of a conditional repetition
and then puts an end to it. -/
def oneRound : Program where
  bindings := [("go", .bool true)]
  routines := .empty
  main :=
    [.whilst (.ofRoot "main") (.variable "go")
      [.act (.ofRoot "body") (.print [.variable "go"]),
        .act (.ofRoot "body") (.assign "go" (.not (.variable "go")))],
      .act (.ofRoot "main") (.print [.variable "go"])]

theorem run_within_or_beyond_step_limit_oneRound :
    let m := Machine.start ⟨8, none⟩ .emptyBuffer
    ∃ m', (m.withMaxSteps none).run 20 oneRound = .ended none m' ∧ m'.steps = 5 ∧
      (∃ fuel' r₁ m₁, (m.withMaxSteps (some 3)).run fuel' oneRound = .ended r₁ m₁ ∧
        (∃ place, r₁ = some ⟨.stepLimitExceeded 3, some place⟩) ∧ m₁.steps = 4 ∧
        ∃ lines notes, m₁.Adds lines notes m') ∧
      ∃ fuel' r₁ m₁, (m.withMaxSteps (some 5)).run fuel' oneRound = .ended r₁ m₁ ∧
        r₁ = none ∧ m₁ = m'.withMaxSteps (some 5) := by
  intro m
  have hrun : (m.withMaxSteps none).run 20 oneRound =
      .ended none { m.load oneRound with
        environment := .ofList [("go", .bool false)]
        sink := .buffer "true\nfalse\n", steps := 5 } := rfl
  refine ⟨_, hrun, rfl, ?_, ?_⟩
  · obtain ⟨fuel', r₁, m₁, hf, _, hbeyond⟩ := run_within_or_beyond_step_limit hrun 3
    exact ⟨fuel', r₁, m₁, hf, hbeyond (by decide)⟩
  · obtain ⟨fuel', r₁, m₁, hf, hwithin, _⟩ := run_within_or_beyond_step_limit hrun 5
    exact ⟨fuel', r₁, m₁, hf, hwithin (by decide)⟩

end JsonScript
