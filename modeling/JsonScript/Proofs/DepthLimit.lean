import JsonScript.Proofs.Faults
import JsonScript.Proofs.Reach
import JsonScript.Proofs.Restriction

/-!
# The limit on active calls

A limit on the depth is read in one place, when a call is prepared: after the
routine was found and the arguments were counted, and before any argument is
evaluated. So two machines that differ in this limit prepare the same call in
the same way, or the one with the lower limit refuses it. A run under the lower
limit is the run under the higher one, up to the first call that is refused.

The limit is also kept: the body of a routine is entered only while fewer calls
are active than the limit says. Active calls are counted here along the way to
the body, and not read off the machine.

## Main results

* `Reaches.calls_lt_of_plan` — no body is entered beyond the limit.
* `Runs.of_withMaxDepth`, `Runs.adds_of_stackOverflow` — one task under two
  limits.
* `run_under_depth_limits` — lower and higher limits compared.
-/

namespace JsonScript

/-- The machine with another limit on its active calls. -/
def Machine.withMaxDepth (limit : Nat) (m : Machine) : Machine :=
  { m with limits := { m.limits with maxDepth := limit } }

/-- The body of a routine is entered only while fewer calls are active than the
limit says. -/
theorem Reaches.calls_lt_of_plan {t t' : Task} {m m' : Machine} {calls : Nat}
    {body : List Operation} {environment : Environment} (h : Reaches t m calls t' m')
    (hp : m'.plan t' = .call body environment) : m.depth + calls < m.limits.maxDepth := by
  obtain ⟨_, _, _, _, -, hprepared, -⟩ := Machine.prepareCall_of_plan hp
  have hd := h.deeper
  rw [← hd.depth, ← hd.limits]
  exact (Machine.of_prepareCall hprepared).2

/-! ## The lower limit as a restriction -/

/-- The tightening of a machine with the limit `high` to the limit `low`. -/
def depthRestriction (low high : Nat) : Restriction where
  tighten := Machine.withMaxDepth low
  Within m := m.limits.maxDepth = high
  Cut fault _ := fault = .stackOverflow low

/-- Under a lower limit a call is prepared in the same way, or it is refused. -/
theorem Machine.prepareCall_withMaxDepth {m : Machine} {low : Nat}
    (hle : low ≤ m.limits.maxDepth) (name : String) (arguments : List Expr) :
    (m.withMaxDepth low).prepareCall name arguments = .error (.stackOverflow low) ∨
      (m.withMaxDepth low).prepareCall name arguments = m.prepareCall name arguments := by
  have hroutines : (m.withMaxDepth low).routines = m.routines := rfl
  have hlimit : (m.withMaxDepth low).limits.maxDepth = low := rfl
  have hcalls : (m.withMaxDepth low).depth = m.depth := rfl
  have henvironment : (m.withMaxDepth low).environment = m.environment := rfl
  rw [Machine.prepareCall, Machine.prepareCall, hroutines, hlimit, hcalls, henvironment]
  cases m.routines.find name with
  | error fault => exact .inr rfl
  | ok r =>
      dsimp only
      by_cases harity : r.parameters.length ≠ arguments.length
      · rw [if_pos harity, if_pos harity]
        exact .inr rfl
      rw [if_neg harity, if_neg harity]
      by_cases hdepth : low ≤ m.depth
      · rw [if_pos hdepth]
        exact .inl rfl
      · have hhigh : ¬ m.limits.maxDepth ≤ m.depth := by omega
        rw [if_neg hdepth, if_neg hhigh]
        exact .inr rfl

namespace depthRestriction

variable {low high : Nat} {m : Machine} {t : Task}

theorem within_of_plan {left : Left} {m₁ : Machine} (hp : m.plan t = .go left m₁)
    (hm : (depthRestriction low high).Within m) : (depthRestriction low high).Within m₁ := by
  show m₁.limits.maxDepth = high
  rw [(Machine.SameFrame.of_plan hp).limits]
  exact hm

/-- A call is refused, and the other machine may go on. -/
private theorem stops {place : Location} {name : String} {arguments : List Expr}
    (hd : t.decision m.environment = .call place name arguments)
    (hrefused : (m.withMaxDepth low).prepareCall name arguments =
      .error (.stackOverflow low)) : (depthRestriction low high).Stops t m := by
  refine ⟨.stackOverflow low, place, m.withMaxDepth low, ?_, rfl, fun r m' hr => ?_⟩
  · have hplan : (m.withMaxDepth low).plan t =
        (m.withMaxDepth low).follow (t.decision m.environment) := rfl
    show (m.withMaxDepth low).plan t = _
    rw [hplan, hd, Machine.follow, hrefused]
  · obtain ⟨hsteps, lines, notes, ha⟩ := hr.extends
    exact ⟨hsteps, lines, notes, ha.sink, ha.warnings⟩

theorem plan (hle : low ≤ high) (t : Task) (hm : (depthRestriction low high).Within m) :
    (depthRestriction low high).Follows t m ∨ (depthRestriction low high).Stops t m := by
  have hplan : (m.withMaxDepth low).plan t =
      (m.withMaxDepth low).follow (t.decision m.environment) := rfl
  have follows (h : (m.withMaxDepth low).follow (t.decision m.environment) =
      (m.follow (t.decision m.environment)).map (Machine.withMaxDepth low)) :
      (depthRestriction low high).Follows t m :=
    ⟨hplan.trans h, fun _ _ hp => within_of_plan hp hm⟩
  cases hd : t.decision m.environment with
  | keep left =>
      rw [hd] at follows
      exact .inl (follows rfl)
  | commit place effect =>
      rw [hd] at follows
      refine .inl (follows ?_)
      cases effect <;> rfl
  | count place left =>
      rw [hd] at follows
      refine .inl (follows ?_)
      have hsame : (m.withMaxDepth low).tick.exhausted? = m.tick.exhausted? := rfl
      rw [Machine.follow_count, Machine.follow_count, hsame]
      rfl
  | call place name arguments =>
      have hm' : m.limits.maxDepth = high := hm
      rcases Machine.prepareCall_withMaxDepth (hm' ▸ hle) name arguments with
        hrefused | hsame
      · exact .inr (stops hd hrefused)
      · rw [hd] at follows
        refine .inl (follows ?_)
        rw [Machine.follow, Machine.follow, hsame]
        cases m.prepareCall name arguments <;> rfl

theorem sound (hle : low ≤ high) : (depthRestriction low high).Sound where
  environment _ := rfl
  enter _ _ := rfl
  leave _ _ := rfl
  within_enter _ h := h
  within_leave _ h := h
  cut_leave _ h := h
  plan t h := plan hle t h

end depthRestriction

/-! ## Runs under two limits -/

section Runs

variable {low high : Nat} {t : Task} {m m₁ m₂ : Machine}

theorem Machine.withMaxDepth_self (h : m.limits.maxDepth = high) : m.withMaxDepth high = m := by
  rw [← h]
  rfl

/-- A run that does not end for want of depth is the run under the higher
limit. -/
theorem Runs.of_withMaxDepth {r : Option Diagnostic} (hle : low ≤ high)
    (h : Runs t (m.withMaxDepth low) r m₁)
    (hdeep : ∀ limit place, r ≠ some ⟨.stackOverflow limit, place⟩) :
    Runs t (m.withMaxDepth high) r (m₁.withMaxDepth high) := by
  have hm : (depthRestriction low high).Within (m.withMaxDepth high) := rfl
  rcases Restriction.runs_of_tighter (m := m.withMaxDepth high) (depthRestriction.sound hle) h hm
    with ⟨m₂, hr, hw, rfl⟩ | ⟨_, place, heq, rfl⟩
  · have hback : ((depthRestriction low high).tighten m₂).withMaxDepth high =
        m₂.withMaxDepth high := rfl
    rw [hback, Machine.withMaxDepth_self hw]
    exact hr
  · exact absurd heq (hdeep low (some place))

/-- What a run that ends for want of depth has printed and warned about is where
the run under the higher limit goes on from. -/
theorem Runs.adds_of_stackOverflow {limit : Nat} {place : Option Location}
    {r : Option Diagnostic} (hle : low ≤ high)
    (h : Runs t (m.withMaxDepth low) (some ⟨.stackOverflow limit, place⟩) m₁)
    (h' : Runs t (m.withMaxDepth high) r m₂) : ∃ lines notes, m₁.Adds lines notes m₂ := by
  have hm : (depthRestriction low high).Within (m.withMaxDepth high) := rfl
  rcases Restriction.runs (depthRestriction.sound hle) h' hm with
    ⟨-, hkept⟩ | ⟨_, _, c, hcut, -, -, hlogs⟩
  · obtain ⟨-, rfl⟩ := h.deterministic hkept
    exact ⟨[], #[], .nothing rfl rfl⟩
  · obtain ⟨-, rfl⟩ := h.deterministic hcut
    exact hlogs

end Runs

/-! ## Whole programs -/

/-- **The depth limit only cuts runs, and is never exceeded.**  Under the lower
of two limits, a body is entered only while fewer calls are active. A run that
does not end for want of depth is the run under the higher limit. One that does
complains about the lower limit, and the run under the higher limit, if it
ends, only adds to what was printed and warned about. -/
theorem run_under_depth_limits {low high : Nat} (hle : low ≤ high) (p : Program) (m : Machine) :
    (∀ calls t m₁ body environment,
      Reaches (.block p.main) ((m.withMaxDepth low).load p) calls t m₁ →
        m₁.plan t = .call body environment → calls < low) ∧
    ∀ fuel r m₁, (m.withMaxDepth low).run fuel p = .ended r m₁ →
      ((∀ limit place, r ≠ some ⟨.stackOverflow limit, place⟩) →
        ∃ fuel', (m.withMaxDepth high).run fuel' p = .ended r (m₁.withMaxDepth high)) ∧
      ∀ limit place, r = some ⟨.stackOverflow limit, place⟩ →
        limit = low ∧ ∀ fuel' r' m₂, (m.withMaxDepth high).run fuel' p = .ended r' m₂ →
          ∃ lines notes, m₁.Adds lines notes m₂ := by
  refine ⟨?_, fun fuel r m₁ hrun => ⟨fun hdeep => ?_, ?_⟩⟩
  · intro calls t m₁ body environment hreaches hp
    have hlt := hreaches.calls_lt_of_plan hp
    rwa [show ((m.withMaxDepth low).load p).depth = 0 from rfl, Nat.zero_add] at hlt
  · have hr : Runs (.block p.main) ((m.load p).withMaxDepth low) r m₁ := Runs.of_run hrun
    exact (hr.of_withMaxDepth hle hdeep).exists_run
  · rintro limit place rfl
    have hr : Runs (.block p.main) ((m.load p).withMaxDepth low) _ m₁ := Runs.of_run hrun
    refine ⟨hr.raises, fun fuel' r' m₂ hrun' => ?_⟩
    have hr' : Runs (.block p.main) ((m.load p).withMaxDepth high) r' m₂ := Runs.of_run hrun'
    exact hr.adds_of_stackOverflow hle hr'

/-- A program that prints in its main block and then two calls deep. -/
def nestedPrinting : Program where
  bindings := [("x", .bool true)]
  routines := ⟨.ofList
    [("outer", ⟨"outer", [],
      [.act (.ofRoot "outer") (.declare "x" (.literal (.bool false))),
        .call (.ofRoot "outer") "inner" [.variable "x"]]⟩),
     ("inner", ⟨"inner", ["y"], [.act (.ofRoot "inner") (.print [.variable "y"])]⟩)]⟩
  main := [.act (.ofRoot "main") (.print [.variable "x"]), .call (.ofRoot "main") "outer" []]

theorem run_under_depth_limits_nestedPrinting :
    let m := Machine.start ⟨9, none⟩ .emptyBuffer
    let d : Diagnostic := ⟨.stackOverflow 1, some (.ofRoot "outer")⟩
    (∃ calls t m₁ body environment,
      Reaches (.block nestedPrinting.main) ((m.withMaxDepth 1).load nestedPrinting) calls t m₁ ∧
        m₁.plan t = .call body environment ∧ calls < 1) ∧
    (∃ m₁ m₂, (m.withMaxDepth 1).run 20 nestedPrinting = .ended (some d) m₁ ∧
      (m.withMaxDepth 3).run 20 nestedPrinting = .ended none m₂ ∧
      m₁.sink.captured = "true\n" ∧ m₂.sink.captured = "true\nfalse\n" ∧
      ∃ lines notes, m₁.Adds lines notes m₂) ∧
    ∃ m₁ fuel', (m.withMaxDepth 2).run 20 nestedPrinting = .ended none m₁ ∧
      (m.withMaxDepth 3).run fuel' nestedPrinting = .ended none (m₁.withMaxDepth 3) := by
  intro m d
  have overflow : (m.withMaxDepth 1).run 20 nestedPrinting =
      .ended (some d) { (m.withMaxDepth 1).load nestedPrinting with
        sink := .buffer "true\n", steps := 4 } := rfl
  have enough (limit : Nat) (h : 2 ≤ limit) : (m.withMaxDepth limit).run 20 nestedPrinting =
      .ended none { (m.withMaxDepth limit).load nestedPrinting with
        sink := .buffer "true\nfalse\n", steps := 5 } := by
    obtain ⟨limit, rfl⟩ : ∃ k, limit = k + 2 := ⟨limit - 2, by omega⟩
    rfl
  refine ⟨?_, ?_, ?_⟩
  · -- The call in the main block, which follows the printing.
    have reached : Reaches (.block nestedPrinting.main)
        ((m.withMaxDepth 1).load nestedPrinting) 0 (.dispatch (.call (.ofRoot "main") "outer" []))
        { (m.withMaxDepth 1).load nestedPrinting with sink := .buffer "true\n", steps := 2 } :=
      .lead (.lead (.lead .start (.second rfl (.of_run (show Task.run 9 _ _ = _ from rfl))))
        (.first rfl)) (.go rfl)
    exact ⟨_, _, _, _, _, reached, rfl,
      (run_under_depth_limits (Nat.le_refl 1) nestedPrinting m).1 _ _ _ _ _ reached rfl⟩
  · have cut := (run_under_depth_limits (by decide : 1 ≤ 3) nestedPrinting m).2 20 _ _ overflow
    exact ⟨_, _, overflow, enough 3 (by decide), rfl, rfl,
      (cut.2 1 _ rfl).2 20 _ _ (enough 3 (by decide))⟩
  · have kept := (run_under_depth_limits (by decide : 2 ≤ 3) nestedPrinting m).2 20 _ _
      (enough 2 (by decide))
    obtain ⟨fuel', hf⟩ := kept.1 nofun
    exact ⟨_, fuel', enough 2 (by decide), hf⟩

end JsonScript
