import JsonScript.Proofs.Frame

/-!
# Sessions

A session asks one machine for one thing after the other: to run a program or
a block, to evaluate an expression, to reset itself, to print a line, or to
hand over its warnings or its captured text. A request that never ends has no
answer, and the session has none either.

## Main results

* `Machine.serveAll_induction` — what every request keeps, a session keeps.
* `frame_restored` — whatever happened, runs keep depth, routines and limits,
  calls keep the caller's variables, and between requests no call is active.
-/

namespace JsonScript

/-! ## Requests -/

/-- What a machine can be asked for. -/
inductive Request where
  | run (program : Program)
  | execute (operations : List Operation)
  | evaluate (e : Expr)
  | reset
  | println (line : String)
  | takeOutput
  | takeWarnings

/-- Whether a request makes the machine forget its warnings and its steps. -/
def Request.startsOver : Request → Bool
  | .run _ | .reset => true
  | .execute _ | .evaluate _ | .println _ | .takeOutput | .takeWarnings => false

/-- What a machine says to a request. -/
inductive Answer where
  /-- A run is over, with this fatal diagnostic if any. -/
  | ended (diagnostic : Option Diagnostic)
  | value (v : Except Fault Value)
  | text (captured : String)
  | warnings (noted : Array Diagnostic)
  /-- The request was for an effect only. -/
  | served

/-- The end of a run as an answer; none if the fuel did not suffice. -/
def Outcome.answer? : Outcome → Option (Answer × Machine)
  | .done m => some (.ended none, m)
  | .failed d m => some (.ended (some d), m)
  | .outOfFuel => none

namespace Machine

/-- Serves a request. -/
def serve (fuel : Nat) (m : Machine) : Request → Option (Answer × Machine)
  | .run p => (m.run fuel p).answer?
  | .execute operations => (m.runBlock fuel operations).answer?
  | .evaluate e => some (.value (m.evaluate e), m)
  | .reset => some (.served, m.reset)
  | .println line => some (.served, m.println line)
  | .takeOutput => some (.text m.sink.captured, m.withoutCaptured)
  | .takeWarnings => some (.warnings m.warnings, m.withoutWarnings)

/-- Serves requests one after the other. -/
def serveAll (fuel : Nat) (m : Machine) : List Request → Option (List Answer × Machine)
  | [] => some ([], m)
  | request :: rest =>
      (m.serve fuel request).bind fun (answer, m') =>
        (serveAll fuel m' rest).map fun (answers, m'') => (answer :: answers, m'')

end Machine

theorem Outcome.answer?_eq_some {o : Outcome} {a : Answer} {m : Machine}
    (h : o.answer? = some (a, m)) : ∃ r, a = .ended r ∧ o = .ended r m := by
  cases o with
  | done m' => cases h; exact ⟨none, rfl, rfl⟩
  | failed d m' => cases h; exact ⟨some d, rfl, rfl⟩
  | outOfFuel => cases h

/-- What every request keeps is kept by all of them together. -/
theorem Machine.serveAll_induction {P : Machine → Prop} {fuel : Nat}
    (serve : ∀ {m m' : Machine} {request : Request} {a : Answer}, P m →
      m.serve fuel request = some (a, m') → P m')
    {requests : List Request} {m m' : Machine} {answers : List Answer} (hm : P m)
    (h : m.serveAll fuel requests = some (answers, m')) : P m' := by
  induction requests generalizing m answers with
  | nil => cases h; exact hm
  | cons request rest ih =>
      obtain ⟨⟨a, m₁⟩, h₁, h⟩ := Option.bind_eq_some_iff.1 h
      obtain ⟨⟨as, m₂⟩, h₂, h⟩ := Option.map_eq_some_iff.1 h
      cases h
      exact ih (serve hm h₁) h₂

/-! ## Depth between requests -/

/-- A request that finds no call active leaves no call active. -/
theorem Machine.depth_serve {fuel : Nat} {m m' : Machine} {request : Request} {a : Answer}
    (hm : m.depth = 0) (h : m.serve fuel request = some (a, m')) : m'.depth = 0 := by
  cases request with
  | run p =>
      obtain ⟨r, -, hr⟩ := Outcome.answer?_eq_some h
      have hf := (Runs.of_run (t := .block p.main) hr).sameFrame
      exact hf.depth
  | execute operations =>
      obtain ⟨r, -, hr⟩ := Outcome.answer?_eq_some h
      have hf := (Runs.of_run (t := .block operations) hr).sameFrame
      rw [hf.depth, hm]
  | reset => cases h; rfl
  | evaluate e => cases h; exact hm
  | println line => cases h; exact hm
  | takeOutput => cases h; exact hm
  | takeWarnings => cases h; exact hm

theorem Machine.depth_serveAll {fuel : Nat} {requests : List Request} {m m' : Machine}
    {answers : List Answer} (hm : m.depth = 0)
    (h : m.serveAll fuel requests = some (answers, m')) : m'.depth = 0 :=
  Machine.serveAll_induction (P := fun m => m.depth = 0) Machine.depth_serve hm h

/-- **Everything a call puts in place is taken away again.**  A run that ends,
with whatever diagnostic, keeps the depth, the routines and the limits; a call
keeps the caller's variables on every way out of it; and after any requests to
a new machine no call is active. -/
theorem frame_restored :
    (∀ (fuel : Nat) (operations : List Operation) (m m' : Machine) (r : Option Diagnostic),
      m.runBlock fuel operations = .ended r m' →
        m'.depth = m.depth ∧ m'.routines = m.routines ∧ m'.limits = m.limits) ∧
    (∀ (fuel : Nat) (place : Location) (name : String) (arguments : List Expr)
        (m m' : Machine) (r : Option Diagnostic),
      m.runOperation fuel (.call place name arguments) = .ended r m' →
        m'.environment = m.environment) ∧
    (∀ (fuel : Nat) (limits : Limits) (sink : Sink) (requests : List Request)
        (answers : List Answer) (m' : Machine),
      (Machine.start limits sink).serveAll fuel requests = some (answers, m') →
        m'.depth = 0) := by
  refine ⟨?_, ?_, ?_⟩
  · intro fuel operations m m' r h
    have hf := (Runs.of_run (t := .block operations) h).sameFrame
    exact ⟨hf.depth, hf.routines, hf.limits⟩
  · intro fuel place name arguments m m' r h
    exact Runs.environment_of_call
      (Runs.of_run (t := .operation (.call place name arguments)) h)
  · intro fuel limits sink requests answers m' h
    exact Machine.depth_serveAll rfl h

/-- A program whose only call fails two calls deep, inside a branch, on a name
that only the outer callers have bound. -/
def nestedFailure : Program where
  bindings := [("x", .bool true)]
  routines := ⟨.ofList
    [("outer", ⟨"outer", ["x"],
      [.choose (.ofRoot "outer") (.variable "x") [.call (.ofRoot "then") "inner" []] []]⟩),
     ("inner", ⟨"inner", [], [.act (.ofRoot "inner") (.print [.variable "x"])]⟩)]⟩
  main := [.call (.ofRoot "main") "outer" [.literal (.bool true)]]

theorem frame_restored_nestedFailure :
    let m := (Machine.start ⟨2, none⟩ .emptyBuffer).load nestedFailure
    let d : Diagnostic := ⟨.undefinedVariable "x", some (.ofRoot "inner")⟩
    let requests : List Request :=
      [.run nestedFailure, .execute nestedFailure.main, .evaluate (.variable "y"),
        .takeWarnings, .reset, .execute nestedFailure.main]
    (∃ m', m.runBlock 20 nestedFailure.main = .ended (some d) m' ∧
      m'.depth = m.depth ∧ m'.routines = m.routines ∧ m'.limits = m.limits) ∧
    (∃ m', m.runOperation 20 (.call (.ofRoot "main") "outer" [.literal (.bool true)]) =
      .ended (some d) m' ∧ m'.environment = m.environment) ∧
    (∃ answers m', (Machine.start ⟨2, none⟩ .emptyBuffer).serveAll 20 requests =
      some (answers, m') ∧ m'.depth = 0) := by
  intro m d requests
  refine ⟨⟨{ m with steps := 4 }, rfl, ?_⟩, ⟨{ m with steps := 4 }, rfl, ?_⟩, ⟨_, _, rfl, ?_⟩⟩
  · exact frame_restored.1 20 nestedFailure.main m _ (some d) rfl
  · exact frame_restored.2.1 20 (.ofRoot "main") "outer" [.literal (.bool true)] m _ (some d) rfl
  · exact frame_restored.2.2 20 ⟨2, none⟩ .emptyBuffer requests _ _ rfl

end JsonScript
