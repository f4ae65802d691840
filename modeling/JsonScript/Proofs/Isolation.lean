import JsonScript.Proofs.Logs

/-!
# Calls do not see their callers

The body of a call starts with its parameters and nothing else, so of the
caller's variables it can see only what they make of the arguments. Two callers
for whom the arguments come to the same cannot be told apart by anything the
call does.

The proof has two halves. Until the body starts, a call reads the limits, the
routines, the counts and the arguments (`prepareCall_congr`). From then on the
two machines differ in nothing but their logs, and `Runs.alike` applies.

## Main results

* `call_of_same_arguments` — what a call does depends on its caller's variables
  through its arguments only.
-/

namespace JsonScript

theorem Expr.evalAll_congr {env₁ env₂ : Environment} {es : List Expr}
    (h : ∀ e ∈ es, e.eval env₁ = e.eval env₂) : evalAll env₁ es = evalAll env₂ es := by
  induction es with
  | nil => rfl
  | cons e rest ih =>
      rw [evalAll, evalAll, h e List.mem_cons_self,
        ih fun e he => h e (List.mem_cons_of_mem _ he)]

/-- Two machines that may make the same calls: they differ in their variables
and their logs. -/
structure Machine.SameCalls (m₁ m₂ : Machine) : Prop where
  limits : m₁.limits = m₂.limits
  routines : m₁.routines = m₂.routines
  depth : m₁.depth = m₂.depth
  steps : m₁.steps = m₂.steps

namespace Machine.SameCalls

variable {m₁ m₂ : Machine} (h : m₁.SameCalls m₂)
include h

theorem tick : m₁.tick.SameCalls m₂.tick :=
  ⟨h.limits, h.routines, h.depth, congrArg (· + 1) h.steps⟩

theorem exhausted : m₁.exhausted? = m₂.exhausted? :=
  Machine.exhausted?_congr h.limits h.steps

theorem prepareCall_congr (name : String) {arguments : List Expr}
    (hargs : ∀ e ∈ arguments, e.eval m₁.environment = e.eval m₂.environment) :
    m₁.prepareCall name arguments = m₂.prepareCall name arguments := by
  rw [Machine.prepareCall, Machine.prepareCall, h.routines, h.limits, h.depth,
    Expr.evalAll_congr hargs]

/-- Once the callers' variables are put away, only the logs differ. -/
theorem alike_enter (environment : Environment) :
    (m₁.enter environment).Alike (m₂.enter environment) :=
  ⟨h.limits, rfl, h.routines, congrArg (· + 1) h.depth, h.steps⟩

end Machine.SameCalls

/-- The end of a call, for two callers: the steps and the additions to the logs
agree. -/
def Machine.SameEffect (m₁ m₂ m₁' m₂' : Machine) : Prop :=
  m₁'.steps = m₂'.steps ∧ ∃ lines notes, m₁.Adds lines notes m₁' ∧ m₂.Adds lines notes m₂'

/-- A call whose step is counted does the same for both callers. -/
private theorem dispatch_call_same {m₁ m₂ m₁' : Machine} {place : Location} {name : String}
    {arguments : List Expr} {r : Option Diagnostic} (h : m₁.SameCalls m₂)
    (hargs : ∀ e ∈ arguments, e.eval m₁.environment = e.eval m₂.environment)
    (hr : Runs (.dispatch (.call place name arguments)) m₁ r m₁') :
    ∃ m₂', Runs (.dispatch (.call place name arguments)) m₂ r m₂' ∧
      m₁.SameEffect m₂ m₁' m₂' := by
  have hp := h.prepareCall_congr name hargs
  rcases Runs.call_iff.1 hr with ⟨fault, hf, rfl, rfl⟩ | ⟨routine, env, n₁, hok, hb, rfl⟩
  · refine ⟨m₂, Runs.call_iff.2 (.inl ⟨fault, hp ▸ hf, rfl, rfl⟩), h.steps, [], #[], ?_⟩
    exact ⟨.nothing rfl rfl, .nothing rfl rfl⟩
  · obtain ⟨n₂, hb₂, halike, lines, notes, ha₁, ha₂⟩ := hb.alike (h.alike_enter env)
    refine ⟨n₂.leave m₂.environment, ?_, halike.steps, lines, notes, ?_, ?_⟩
    · exact Runs.call_iff.2 (.inr ⟨routine, env, n₂, hp ▸ hok, hb₂, rfl⟩)
    · exact ⟨ha₁.sink, ha₁.warnings⟩
    · exact ⟨ha₂.sink, ha₂.warnings⟩

private theorem operation_call_same {m₁ m₂ m₁' : Machine} {place : Location} {name : String}
    {arguments : List Expr} {r : Option Diagnostic} (h : m₁.SameCalls m₂)
    (hargs : ∀ e ∈ arguments, e.eval m₁.environment = e.eval m₂.environment)
    (hr : Runs (.operation (.call place name arguments)) m₁ r m₁') :
    ∃ m₂', Runs (.operation (.call place name arguments)) m₂ r m₂' ∧
      m₁.SameEffect m₂ m₁' m₂' := by
  have he : m₁.tick.exhausted? = m₂.tick.exhausted? := h.tick.exhausted
  rcases Runs.operation_iff.1 hr with ⟨fault, hf, rfl, rfl⟩ | ⟨hn, hd⟩
  · refine ⟨m₂.tick, Runs.operation_iff.2 (.inl ⟨fault, he ▸ hf, rfl, rfl⟩), h.tick.steps, ?_⟩
    exact ⟨[], #[], .nothing rfl rfl, .nothing rfl rfl⟩
  · obtain ⟨m₂', hd₂, hsteps, lines, notes, ha₁, ha₂⟩ := dispatch_call_same h.tick hargs hd
    refine ⟨m₂', Runs.operation_iff.2 (.inr ⟨he ▸ hn, hd₂⟩), hsteps, lines, notes, ?_, ?_⟩
    · exact ⟨ha₁.sink, ha₁.warnings⟩
    · exact ⟨ha₂.sink, ha₂.warnings⟩

/-- **A call cannot observe its caller.**  On two machines that differ only in
their variables and their logs, a call whose arguments come to the same on both
ends in the same way, after equally many steps, and adds the same lines and the
same warnings. The hypotheses are symmetric, so a call that does not end on one
of the machines does not end on the other. -/
theorem call_of_same_arguments {m₁ m₂ m₁' : Machine} {place : Location} {name : String}
    {arguments : List Expr} {r : Option Diagnostic} {fuel : Nat}
    (hlimits : m₁.limits = m₂.limits) (hroutines : m₁.routines = m₂.routines)
    (hdepth : m₁.depth = m₂.depth) (hsteps : m₁.steps = m₂.steps)
    (hargs : ∀ e ∈ arguments, e.eval m₁.environment = e.eval m₂.environment)
    (h : m₁.runOperation fuel (.call place name arguments) = .ended r m₁') :
    ∃ fuel' m₂', m₂.runOperation fuel' (.call place name arguments) = .ended r m₂' ∧
      m₁'.steps = m₂'.steps ∧
      ∃ lines notes, m₁.Adds lines notes m₁' ∧ m₂.Adds lines notes m₂' := by
  have hr := Runs.of_run (t := .operation (.call place name arguments)) h
  obtain ⟨m₂', hr₂, he⟩ := operation_call_same ⟨hlimits, hroutines, hdepth, hsteps⟩ hargs hr
  obtain ⟨fuel', hf⟩ := hr₂.exists_run
  exact ⟨fuel', m₂', hf, he⟩

/-- A routine that prints its argument and then calls one that asks for a name
of the caller. -/
def peekingRoutines : RoutineTable := ⟨.ofList
  [("show", ⟨"show", ["a"],
    [.act (.ofRoot "show") (.print [.variable "a"]), .call (.ofRoot "show") "peek" []]⟩),
   ("peek", ⟨"peek", [], [.act (.ofRoot "peek") (.print [.variable "y"])]⟩)]⟩

theorem call_of_same_arguments_peeking :
    let m := { Machine.start ⟨2, some 9⟩ .emptyBuffer with routines := peekingRoutines }
    let m₁ := { m with environment := .ofList [("x", .bool true), ("y", .string "secret")] }
    let m₂ := { m with environment := .ofList [("x", .bool true)], sink := .console "> " }
    let d : Diagnostic := ⟨.undefinedVariable "y", some (.ofRoot "peek")⟩
    (∀ e ∈ [Expr.variable "x"], e.eval m₁.environment = e.eval m₂.environment) ∧
    ∃ m₁', m₁.runOperation 9 (.call (.ofRoot "main") "show" [.variable "x"]) =
        .ended (some d) m₁' ∧
      ∃ fuel' m₂', m₂.runOperation fuel' (.call (.ofRoot "main") "show" [.variable "x"]) =
          .ended (some d) m₂' ∧
        m₁'.steps = m₂'.steps ∧
        ∃ lines notes, m₁.Adds lines notes m₁' ∧ m₂.Adds lines notes m₂' := by
  intro m m₁ m₂ d
  have hargs : ∀ e ∈ [Expr.variable "x"], e.eval m₁.environment = e.eval m₂.environment := by
    intro e he
    rw [List.mem_singleton.1 he]
    rfl
  have hrun : m₁.runOperation 9 (.call (.ofRoot "main") "show" [.variable "x"]) =
      .ended (some d) { m₁ with steps := 4, sink := .buffer "true\n" } := rfl
  exact ⟨hargs, _, hrun, call_of_same_arguments rfl rfl rfl rfl hargs hrun⟩

end JsonScript
