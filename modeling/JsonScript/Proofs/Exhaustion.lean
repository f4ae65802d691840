import JsonScript.Proofs.Failures
import JsonScript.Proofs.Faults
import JsonScript.Proofs.Independence
import JsonScript.Proofs.StepBudget
import JsonScript.Proofs.StepLimit

/-!
# Exhausted machines

A machine that complained about its step limit has taken a step too many, wherever the
complaint came up: before an operation, before a round of a repetition, or in the body
of a routine. Steps are never counted back, so the machine stays beyond its limit
(`Machine.Exhausted`), and an operation fails before it does anything. The only way out
is to start over: then all the steps that the limit allows are there again
(`Machine.HasFullBudget`).

## Main results

* `Runs.exhausted` — a complaint about the limit leaves the machine beyond it.
* `Machine.Exhausted.serveAll` — which it stays until it starts over.
* `Machine.hasFullBudget` — a machine that has taken no steps.
* `exhaustion_lasts` — whole sessions.
-/

namespace JsonScript

/-! ## Beyond the limit -/

/-- The machine has taken more steps than the limit allows. -/
structure Machine.Exhausted (limit : Nat) (m : Machine) : Prop where
  limited : m.limits.maxSteps = some limit
  steps : limit < m.steps

/-- Only a step too many makes a plan complain about the limit. -/
theorem Machine.exhausted_of_plan {t : Task} {m m₁ : Machine} {limit : Nat}
    {location : Option Location}
    (h : m.plan t = .go (.failure ⟨.stepLimitExceeded limit, location⟩) m₁) :
    m₁.Exhausted limit := by
  cases Machine.fails_of_plan h with
  | evaluation fault => exact absurd fault id
  | exhausted exceeded =>
      obtain ⟨_, hlimit, hsteps, hfault⟩ := (m.tick.exhausted?_eq_some_iff _).1 exceeded
      cases hfault
      exact ⟨hlimit, hsteps⟩
  | @refused _ name arguments _ refuses =>
      change m.Refuses name arguments (.stepLimitExceeded limit) at refuses
      cases refuses with
      | argument _ _ _ _ _ fails => exact absurd (Expr.evaluates_eval _ _ _ fails) id

/-- A run that complains about the limit leaves the machine beyond it, however deep
inside calls and repetitions the complaint came up. -/
theorem Runs.exhausted {t : Task} {m n : Machine} {limit : Nat} {location : Option Location}
    (h : Runs t m (some ⟨.stepLimitExceeded limit, location⟩) n) : n.Exhausted limit := by
  generalize hr : some _ = r at h
  induction h with
  | finish => cases hr
  | fail hp =>
      cases hr
      exact Machine.exhausted_of_plan hp
  | go _ _ ih => exact ih hr
  | stop _ _ ih => exact ih hr
  | seq _ _ _ _ ih => exact ih hr
  | call _ _ ih => exact ⟨(ih hr).limited, (ih hr).steps⟩

namespace Machine.Exhausted

variable {limit : Nat} {m n : Machine}

/-- The first operation of a block is one too many, and fails before it does anything. -/
theorem runBlock (h : m.Exhausted limit) (fuel : Nat) (op : Operation) (rest : List Operation) :
    m.runBlock (fuel + 2) (op :: rest) =
      .failed ⟨.stepLimitExceeded limit, some op.place⟩ m.tick := by
  rw [runBlock_cons, runOperation_of_spent h.limited (Nat.le_of_lt h.steps)]

/-- A request leaves the machine beyond the limit, unless it makes it start over. -/
theorem serve (h : m.Exhausted limit) {fuel : Nat} {request : Request} {a : Answer}
    (hkeeps : request.startsOver = false) (hserve : m.serve fuel request = some (a, n)) :
    n.Exhausted limit := by
  cases request with
  | run | reset => cases hkeeps
  | execute operations =>
      obtain ⟨r, -, hr⟩ := Outcome.answer?_eq_some hserve
      have hruns := Runs.of_run (t := .block operations) hr
      exact ⟨by rw [hruns.sameFrame.limits, h.limited],
        Nat.lt_of_lt_of_le h.steps hruns.extends.steps⟩
  | evaluate | println | takeOutput | takeWarnings =>
      cases hserve
      exact ⟨h.limited, h.steps⟩

/-- Beyond the limit every request that does not start over has an answer. -/
theorem exists_serve (h : m.Exhausted limit) (fuel : Nat) {request : Request}
    (hkeeps : request.startsOver = false) :
    ∃ a n, m.serve (fuel + 2) request = some (a, n) := by
  cases request with
  | run | reset => cases hkeeps
  | execute operations =>
      cases operations with
      | nil => exact ⟨_, _, rfl⟩
      | cons op rest => exact ⟨_, _, by rw [Machine.serve, h.runBlock]; rfl⟩
  | evaluate | println | takeOutput | takeWarnings => exact ⟨_, _, rfl⟩

/-- A machine stays beyond the limit until it starts over. -/
theorem serveAll (h : m.Exhausted limit) {fuel : Nat} {requests : List Request}
    {answers : List Answer} (hkeep : ∀ request ∈ requests, request.startsOver = false)
    (hserve : m.serveAll fuel requests = some (answers, n)) : n.Exhausted limit := by
  induction requests generalizing m answers with
  | nil =>
      cases hserve
      exact h
  | cons request rest ih =>
      obtain ⟨⟨a, m₁⟩, h₁, hrest⟩ := Option.bind_eq_some_iff.1 hserve
      obtain ⟨⟨more, m₂⟩, h₂, heq⟩ := Option.map_eq_some_iff.1 hrest
      cases heq
      obtain ⟨hkeeps, hkeep⟩ := List.forall_mem_cons.1 hkeep
      exact ih (h.serve hkeeps h₁) hkeep h₂

theorem exists_serveAll (h : m.Exhausted limit) (fuel : Nat) {requests : List Request}
    (hkeep : ∀ request ∈ requests, request.startsOver = false) :
    ∃ answers n, m.serveAll (fuel + 2) requests = some (answers, n) := by
  induction requests generalizing m with
  | nil => exact ⟨[], m, rfl⟩
  | cons request rest ih =>
      obtain ⟨hkeeps, hkeep⟩ := List.forall_mem_cons.1 hkeep
      obtain ⟨a, m₁, h₁⟩ := h.exists_serve fuel hkeeps
      obtain ⟨answers, n, h₂⟩ := ih (h.serve hkeeps h₁) hkeep
      refine ⟨a :: answers, n, ?_⟩
      rw [Machine.serveAll, h₁]
      simp only [Option.bind_some, h₂, Option.map_some]

end Machine.Exhausted

/-! ## The full budget -/

/-- The next execution on the machine has all the steps that the limit allows, and no
more. -/
structure Machine.HasFullBudget (limit : Nat) (m : Machine) : Prop where
  /-- What takes no more steps than that is not disturbed by the limit. -/
  within : ∀ fuel operations r n,
    (m.withMaxSteps none).runBlock fuel operations = .ended r n → n.steps ≤ limit →
      ∃ fuel', m.runBlock fuel' operations = .ended r (n.withMaxSteps (some limit))
  /-- The first step beyond them is the last, and comes with the complaint. -/
  beyond : ∀ fuel operations r n, m.runBlock fuel operations = .ended r n →
    n.steps ≤ limit + 1 ∧ (n.steps = limit + 1 ↔
      ∃ location, r = some ⟨.stepLimitExceeded limit, location⟩)

/-- A machine that has taken no steps has its full budget. -/
theorem Machine.hasFullBudget {m : Machine} {limit : Nat}
    (hlimit : m.limits.maxSteps = some limit) (hsteps : m.steps = 0) :
    m.HasFullBudget limit := by
  have hwithin : (stepRestriction limit).Within (m.withMaxSteps none) :=
    ⟨rfl, hsteps ▸ Nat.zero_le limit⟩
  have htight : (stepRestriction limit).tighten (m.withMaxSteps none) = m := by
    show { m with limits := { m.limits with maxSteps := some limit } } = m
    rw [← hlimit]
  constructor
  · intro fuel operations r n hrun hle
    have hr := Runs.of_run (t := .block operations) hrun
    rcases Restriction.runs (stepRestriction.sound limit) hr hwithin with
      ⟨-, hkept⟩ | ⟨_, _, c, _, ⟨_, hcut⟩, hextends⟩
    · rw [htight] at hkept
      exact hkept.exists_run
    · have hbeyond := hextends.steps
      omega
  · intro fuel operations r n hrun
    have hr := Runs.of_run (t := .block operations) hrun
    rw [← htight] at hr
    rcases Restriction.runs_of_tighter (stepRestriction.sound limit) hr hwithin with
      ⟨n', -, ⟨-, hle⟩, rfl⟩ | ⟨_, place, rfl, rfl, hcut⟩
    · have hkept : ((stepRestriction limit).tighten n').steps ≤ limit := hle
      refine ⟨Nat.le_succ_of_le hkept, fun heq => absurd hkept ?_, ?_⟩
      · rw [heq]
        exact Nat.not_succ_le_self limit
      · rintro ⟨location, rfl⟩
        exact absurd hr.exhausted.steps (Nat.not_lt.2 hkept)
    · exact ⟨Nat.le_of_eq hcut, fun _ => ⟨some place, rfl⟩, fun _ => hcut⟩

/-! ## Sessions -/

/-- **An exhausted step limit stays exhausted until the machine starts over.**  Let a
request be answered with the complaint that the step limit is exceeded, on a machine
with any past. Then any further requests that are neither to run a program nor to reset
the machine have answers. After them a block that is not empty is answered with the
same complaint, about the place of its first operation, and nothing has happened but
that a step was counted. A reset makes the machine as good as new, with the full budget
of steps. -/
theorem exhaustion_lasts {limit fuel : Nat} {m m₁ : Machine} {request : Request}
    {location : Option Location}
    (hfail : m.serve fuel request =
      some (.ended (some ⟨.stepLimitExceeded limit, location⟩), m₁))
    {requests : List Request} (hkeep : ∀ request ∈ requests, request.startsOver = false) :
    (∀ fuel, ∃ answers n, m₁.serveAll (fuel + 2) requests = some (answers, n)) ∧
    ∀ fuel answers n, m₁.serveAll fuel requests = some (answers, n) →
      (∀ fuel op rest, n.serve (fuel + 2) (.execute (op :: rest)) =
        some (.ended (some ⟨.stepLimitExceeded limit, some op.place⟩), n.tick)) ∧
      n.reset = Machine.start m.limits n.sink ∧ n.reset.HasFullBudget limit := by
  obtain ⟨t, m₀, hlimits, hr⟩ : ∃ t m₀, m₀.limits = m.limits ∧
      Runs t m₀ (some ⟨.stepLimitExceeded limit, location⟩) m₁ := by
    cases request with
    | run p =>
        obtain ⟨r, ⟨⟩, hr⟩ := Outcome.answer?_eq_some hfail
        exact ⟨.block p.main, m.load p, rfl, .of_run hr⟩
    | execute operations =>
        obtain ⟨r, ⟨⟩, hr⟩ := Outcome.answer?_eq_some hfail
        exact ⟨.block operations, m, rfl, .of_run hr⟩
    | evaluate | reset | println | takeOutput | takeWarnings => cases hfail
  have hexhausted := hr.exhausted
  refine ⟨fun fuel => hexhausted.exists_serveAll fuel hkeep, fun fuel answers n hserve => ?_⟩
  have hstill := hexhausted.serveAll hkeep hserve
  have hsame : n.limits = m.limits :=
    (Machine.limits_serveAll hserve).trans (hr.sameFrame.limits.trans hlimits)
  refine ⟨fun fuel op rest => ?_, ?_, ?_⟩
  · rw [Machine.serve, hstill.runBlock]
    rfl
  · rw [Machine.reset, hsame]
  · exact Machine.hasFullBudget (m := n.reset) hstill.limited rfl

/-- A routine that goes on for ever. -/
def endlessCall : Program where
  bindings := []
  routines := ⟨.ofList
    [("spin", ⟨"spin", [],
      [.whilst (.ofRoot "spin") (.literal (.bool true))
        [.act (.ofRoot "body") (.print [.literal .null])]]⟩)]⟩
  main := [.call (.ofRoot "main") "spin" []]

theorem exhaustion_lasts_endlessCall :
    let m := Machine.start ⟨8, some 4⟩ .emptyBuffer
    let d (name : String) : Diagnostic := ⟨.stepLimitExceeded 4, some (.ofRoot name)⟩
    let block : List Operation := [.act (.ofRoot "input") (.unknown "zap")]
    let requests : List Request :=
      [.execute block, .println "between", .execute [], .takeOutput, .evaluate (.variable "x")]
    ∃ m₁ answers n, m.serve 20 (.run endlessCall) = some (.ended (some (d "spin")), m₁) ∧
      m₁.serveAll 2 requests = some (answers, n) ∧ n.steps = 6 ∧
      (∀ request ∈ requests, request.startsOver = false) ∧
      n.serve 2 (.execute block) = some (.ended (some (d "input")), n.tick) ∧
      n.reset.HasFullBudget 4 := by
  intro m d block requests
  have hfail : m.serve 20 (.run endlessCall) = some (.ended (some (d "spin")),
      { m.load endlessCall with sink := .buffer "null\n", steps := 5 }) := rfl
  have hkeep : ∀ request ∈ requests, request.startsOver = false := by
    simp [requests, Request.startsOver]
  obtain ⟨hanswers, hlasts⟩ := exhaustion_lasts hfail hkeep
  obtain ⟨answers, n, hserve⟩ := hanswers 0
  obtain ⟨hexecute, -, hbudget⟩ := hlasts 2 answers n hserve
  have hsteps : n.steps = 6 := by
    cases hserve
    rfl
  exact ⟨_, answers, n, hfail, hserve, hsteps, hkeep, hexecute 0 _ _, hbudget⟩

end JsonScript
