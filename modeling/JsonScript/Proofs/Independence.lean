import JsonScript.Proofs.Logs
import JsonScript.Proofs.Session
import JsonScript.Report

/-!
# Runs do not depend on earlier requests

To run a program, a machine first forgets all it has except its limits and what
was printed. So whatever it was asked for before, it starts as a new machine
does, apart from the printed lines, and these are never read. The run is the one
that a report is made of.

## Main results

* `Machine.limits_serveAll` — requests keep the limits.
* `run_independent_of_session` — a run after any session is the run of a new
  machine.
-/

namespace JsonScript

/-! ## Printed text -/

/-- What a buffer captures of some lines follows what it had captured. -/
theorem Sink.captured_printlns {s : Sink} (h : s.isBuffer = true) (lines : List String) :
    (s.printlns lines).captured = s.captured ++ (Sink.emptyBuffer.printlns lines).captured := by
  cases s with
  | buffer text =>
      rw [Sink.printlns_eq_receive, Sink.printlns_eq_receive]
      simp [Sink.emptyBuffer, Sink.receive, Sink.captured]
  | console written => cases h
  | silent => cases h

/-! ## Limits between requests -/

theorem Machine.limits_serve {fuel : Nat} {m m' : Machine} {request : Request} {a : Answer}
    (h : m.serve fuel request = some (a, m')) : m'.limits = m.limits := by
  cases request with
  | run p =>
      obtain ⟨r, -, hr⟩ := Outcome.answer?_eq_some h
      exact (Runs.of_run (t := .block p.main) hr).sameFrame.limits
  | execute operations =>
      obtain ⟨r, -, hr⟩ := Outcome.answer?_eq_some h
      exact (Runs.of_run (t := .block operations) hr).sameFrame.limits
  | evaluate | reset | println | takeOutput | takeWarnings => cases h; rfl

/-- Requests keep the limits. -/
theorem Machine.limits_serveAll {fuel : Nat} {requests : List Request} {m m' : Machine}
    {answers : List Answer} (h : m.serveAll fuel requests = some (answers, m')) :
    m'.limits = m.limits :=
  Machine.serveAll_induction (P := fun n => n.limits = m.limits)
    (fun hn hs => (Machine.limits_serve hs).trans hn) rfl h

/-! ## Runs -/

/-- A machine about to run a program is like a new one, but for what it has
printed. -/
theorem Machine.alike_load {m : Machine} {limits : Limits} (h : m.limits = limits)
    (sink : Sink) (p : Program) : (m.load p).Alike ((Machine.start limits sink).load p) :=
  ⟨h, rfl, rfl, rfl, rfl⟩

/-- **A run is independent of everything the machine did before.**  Take the
machine that any requests have led to, failed ones among them. Running a program
there comes to what running it for a report comes to, under the same limits and
with the same fuel. If it is done, the machine has the warnings and the variables
of the report, and a buffer has captured the output of the report behind what it
had captured before. -/
theorem run_independent_of_session {session : Nat} {limits : Limits} {sink : Sink}
    {requests : List Request} {answers : List Answer} {m : Machine}
    (h : (Machine.start limits sink).serveAll session requests = some (answers, m))
    (p : Program) (fuel : Nat) :
    match m.run fuel p with
    | .done m' => ∃ report, Report.ofProgram? fuel limits p = some (.ok report) ∧
        m'.warnings = report.warnings ∧ m'.environment = report.environment ∧
        (m.sink.isBuffer = true → m'.sink.captured = m.sink.captured ++ report.output)
    | .failed d _ => Report.ofProgram? fuel limits p = some (.error d)
    | .outOfFuel => Report.ofProgram? fuel limits p = none := by
  have hstart : (m.load p).Alike ((Machine.start limits .emptyBuffer).load p) :=
    Machine.alike_load (Machine.limits_serveAll h) _ p
  have hrel := (Machine.Abreast.lockstep _ _).run fuel (.block p.main)
    ⟨hstart, [], #[], .nothing rfl rfl, .nothing rfl rfl⟩
  have hrun : m.run fuel p = (Task.block p.main).run fuel (m.load p) := rfl
  have hreport : (Machine.start limits .emptyBuffer).run fuel p =
      (Task.block p.main).run fuel ((Machine.start limits .emptyBuffer).load p) := rfl
  rw [Report.ofProgram?, hrun, hreport]
  generalize (Task.block p.main).run fuel (m.load p) = o at hrel
  generalize (Task.block p.main).run fuel ((Machine.start limits .emptyBuffer).load p) = o' at hrel
  cases hrel with
  | @done m₁ m₂ hends =>
      obtain ⟨-, halike, lines, notes, ha₁, ha₂⟩ := hends
      refine ⟨Report.ofMachine m₂, rfl, ha₁.warnings.trans ha₂.warnings.symm,
        halike.environment, fun hbuffer => ?_⟩
      have hsink : m₁.sink = m.sink.printlns lines := ha₁.sink
      have hsink' : m₂.sink = Sink.emptyBuffer.printlns lines := ha₂.sink
      rw [Report.ofMachine, hsink, hsink', Sink.captured_printlns hbuffer]
  | @failed d d' m₁ m₂ hends =>
      obtain ⟨hd, -⟩ := hends
      rw [Option.some.inj hd]
  | outOfFuel => rfl

/-- After a run that died two calls deep, an endless repetition that ran into the
limit, a line printed from outside and a value asked for in vain. -/
theorem run_independent_of_session_nestedFailure :
    let requests : List Request :=
      [.run nestedFailure,
        .execute [.whilst (.ofRoot "input") (.literal (.bool true)) []],
        .println "between", .evaluate (.variable "y")]
    let p : Program := { Program.empty with
      bindings := [("x", .bool true)]
      main := [.act (.ofRoot "main") (.print [.variable "x"]),
        .act (.ofRoot "main") (.assign "y" (.variable "x"))] }
    ∃ answers m,
      (Machine.start ⟨2, some 9⟩ .emptyBuffer).serveAll 40 requests = some (answers, m) ∧
      m.sink.captured = "between\n" ∧
      (∃ m' report, m.run 9 p = .done m' ∧
        Report.ofProgram? 9 ⟨2, some 9⟩ p = some (.ok report) ∧
        m'.warnings = report.warnings ∧ m'.environment = report.environment ∧
        m'.sink.captured = "between\n" ++ report.output) ∧
      ∃ d m', m.run 20 nestedFailure = .failed d m' ∧
        Report.ofProgram? 20 ⟨2, some 9⟩ nestedFailure = some (.error d) := by
  intro requests p
  have hsession : ∃ answers m,
      (Machine.start ⟨2, some 9⟩ .emptyBuffer).serveAll 40 requests = some (answers, m) ∧
        m.sink = .buffer "between\n" ∧
        m.run 9 p = .done { m.load p with
          sink := .buffer "between\ntrue\n", steps := 2,
          warnings := #[⟨.undeclaredAssignment "y", some (.ofRoot "main")⟩] } ∧
        m.run 20 nestedFailure =
          .failed ⟨.undefinedVariable "x", some (.ofRoot "inner")⟩
            { m.load nestedFailure with steps := 4 } :=
    ⟨_, _, rfl, rfl, rfl, rfl⟩
  obtain ⟨answers, m, hserve, hsink, hdone, hfailed⟩ := hsession
  refine ⟨answers, m, hserve, by rw [hsink]; rfl, ?_, ?_⟩
  · have hend := run_independent_of_session hserve p 9
    rw [hdone] at hend
    obtain ⟨report, hreport, hwarnings, henvironment, hcaptured⟩ := hend
    refine ⟨_, report, hdone, hreport, hwarnings, henvironment, ?_⟩
    rw [hcaptured (by rw [hsink]; rfl), hsink]
    rfl
  · have hend := run_independent_of_session hserve nestedFailure 20
    rw [hfailed] at hend
    exact ⟨_, _, hfailed, hend⟩

end JsonScript
