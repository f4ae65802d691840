import JsonScript.Proofs.Calls
import JsonScript.Proofs.Frame

/-!
# Faults that end a run

Of all faults, only some can end a run. Evaluation gives faults about variables,
types, divisors and counts (`Fault.OfEvaluation`). Calls and steps add theirs,
and those about a limit name the limit of the machine. Faults about documents
come up before a run, and what is only warned about does not end one.

## Main results

* `Expr.evaluates_eval`, `Action.evaluates_effect` — faults of evaluation.
* `Machine.fails_of_plan` — all the ways in which a plan can fail.
* `Runs.raises` — faults that end a run.
-/

namespace JsonScript

/-! ## Evaluation -/

/-- The faults that evaluating expressions and preparing effects can give. -/
def Fault.OfEvaluation : Fault → Prop
  | .undefinedVariable _ | .typeMismatch .. | .divisionByZero | .negativeCount _ => True
  | _ => False

/-- If the computation fails, then with a fault of evaluation. -/
def Evaluates {α : Type} (x : Except Fault α) : Prop :=
  ∀ fault, x = .error fault → fault.OfEvaluation

namespace Evaluates

variable {α β : Type}

theorem ok (a : α) : Evaluates (.ok a) := nofun

theorem error {fault : Fault} (h : fault.OfEvaluation) :
    Evaluates (.error fault : Except Fault α) := by
  rintro _ ⟨⟩
  exact h

theorem bind {x : Except Fault α} {f : α → Except Fault β} (hx : Evaluates x)
    (hf : ∀ a, Evaluates (f a)) : Evaluates (x >>= f) := by
  cases x with
  | ok a => exact hf a
  | error fault => exact error (hx fault rfl)

theorem map {x : Except Fault α} (f : α → β) (hx : Evaluates x) : Evaluates (x.map f) := by
  cases x with
  | ok a => exact ok (f a)
  | error fault => exact error (hx fault rfl)

end Evaluates

namespace Operator

theorem evaluates_numbers (left right : Value) : Evaluates (numbers left right) := by
  rw [numbers.eq_def]
  split
  · exact .ok _
  · exact .error trivial

theorem evaluates_bools (left right : Value) : Evaluates (bools left right) := by
  rw [bools.eq_def]
  split
  · exact .ok _
  · exact .error trivial

theorem evaluates_quotient (x y : Float) : Evaluates (quotient x y) := by
  rw [quotient]
  split
  · exact .error trivial
  · exact .ok _

theorem evaluates_equality (left right : Value) : Evaluates (equality left right) := by
  rw [equality.eq_def]
  split
  · exact .ok _
  · exact .ok _
  · split
    · exact .ok _
    · exact .error trivial

theorem evaluates_apply (op : Operator) (left right : Value) :
    Evaluates (op.apply left right) := by
  cases op with
  | add | subtract | multiply | greaterThan | lessThan =>
      exact (evaluates_numbers left right).map _
  | divide => exact (evaluates_numbers left right).bind fun (x, y) => evaluates_quotient x y
  | equals => exact evaluates_equality left right
  | and | or => exact (evaluates_bools left right).map _

end Operator

theorem Environment.evaluates_get (env : Environment) (name : String) :
    Evaluates (env.get name) := by
  rw [Environment.get]
  split
  · exact .ok _
  · exact .error trivial

namespace Expr

theorem evaluates_eval (env : Environment) (e : Expr) : Evaluates (e.eval env) := by
  induction e with
  | literal v => exact .ok v
  | «variable» name => exact env.evaluates_get name
  | binary op left right ihl ihr =>
      exact ihl.bind fun x => ihr.bind fun y => op.evaluates_apply x y
  | not operand ih =>
      refine ih.bind fun x => ?_
      cases x with
      | bool b => exact .ok _
      | number _ | string _ | null => exact .error trivial

theorem evaluates_evalAll (env : Environment) (es : List Expr) : Evaluates (evalAll env es) := by
  induction es with
  | nil => exact .ok []
  | cons e rest ih => exact (e.evaluates_eval env).bind fun v => ih.bind fun vs => .ok (v :: vs)

theorem evaluates_evalCondition (env : Environment) (e : Expr) :
    Evaluates (e.evalCondition env) := by
  refine (e.evaluates_eval env).bind fun v => ?_
  cases v.asBool? with
  | some b => exact .ok b
  | none => exact .error trivial

theorem evaluates_countOf (x : Float) : Evaluates (countOf x) := by
  rw [countOf]
  split
  · exact .error trivial
  split
  · split
    · exact .ok _
    · exact .error trivial
  · exact .error trivial

theorem evaluates_evalCount (env : Environment) (e : Expr) : Evaluates (e.evalCount env) := by
  refine (e.evaluates_eval env).bind fun v => ?_
  cases v.asNumber? with
  | some x => exact evaluates_countOf x
  | none => exact .error trivial

end Expr

theorem Action.evaluates_effect (env : Environment) (action : Action) :
    Evaluates (action.effect env) := by
  cases action with
  | declare name e => exact (e.evaluates_eval env).bind fun v => .ok _
  | assign name e => exact (e.evaluates_eval env).bind fun v => .ok _
  | update op name e =>
      rw [Action.effect]
      split
      · refine (env.evaluates_get name).bind fun current => ?_
        refine (e.evaluates_eval env).bind fun operand => ?_
        refine (op.evaluates_apply current operand).bind fun result => ?_
        refine Evaluates.bind ?_ fun env' => .ok _
        intro fault h
        rw [((env.update_eq_error_iff name result fault).1 h).2]
        trivial
      · exact .ok _
  | print es => exact (Expr.evaluates_evalAll env es).bind fun vs => .ok _
  | unknown key => exact .ok _

/-! ## Runs -/

/-- The faults that can end a run under some limits. -/
def Limits.Raises (limits : Limits) : Fault → Prop
  | .stackOverflow limit => limit = limits.maxDepth
  | .stepLimitExceeded limit => limits.maxSteps = some limit
  | .undefinedFunction _ | .arityMismatch .. => True
  | fault => fault.OfEvaluation

theorem Limits.raises_of_evaluation (limits : Limits) {fault : Fault} (h : fault.OfEvaluation) :
    limits.Raises fault := by
  cases fault with
  | stackOverflow | stepLimitExceeded | undefinedFunction | arityMismatch => exact absurd h id
  | unreadable | invalidJson | malformed | undefinedVariable | typeMismatch | divisionByZero
  | negativeCount | undeclaredAssignment | unknownOperation => exact h

/-- The decision is to fail with this diagnostic, at once or after a step. -/
def Decision.Fails (d : Diagnostic) : Decision → Prop
  | .keep left | .count _ left => left = .failure d
  | .commit .. | .call .. => False

/-- What the variables decide to fail with is a fault of evaluation. -/
theorem Task.ofEvaluation_of_decision {t : Task} {env : Environment} {d : Diagnostic}
    (h : (t.decision env).Fails d) : d.fault.OfEvaluation := by
  revert h
  fun_cases Task.decision env t
  all_goals
    intro h
    cases h
  -- An action, the conditions and the count.
  case case5 action fault he => exact action.evaluates_effect env fault he
  case case8 condition _ _ fault he => exact condition.evaluates_evalCondition env fault he
  case case10 count _ fault he => exact count.evaluates_evalCount env fault he
  case case15 condition _ fault he => exact condition.evaluates_evalCondition env fault he

theorem Machine.raises_of_prepareCall {m : Machine} {name : String} {arguments : List Expr}
    {fault : Fault} (h : m.prepareCall name arguments = .error fault) : m.limits.Raises fault := by
  cases Machine.prepareCall_eq_error_iff.1 h with
  | undefined | arity => trivial
  | depth => rfl
  | argument _ _ _ _ _ fails =>
      exact m.limits.raises_of_evaluation (Expr.evaluates_eval _ _ _ fails)

theorem Machine.raises_of_exhausted {m : Machine} {fault : Fault}
    (h : m.exhausted? = some fault) : m.limits.Raises fault := by
  obtain ⟨limit, hlimit, -, rfl⟩ := (m.exhausted?_eq_some_iff fault).1 h
  exact hlimit

/-- How a machine comes to fail at a task: an evaluation fails, a step is one too many, or
a call is refused. -/
inductive Machine.Fails (m : Machine) (t : Task) (d : Diagnostic) : Machine → Prop where
  | evaluation {m₁ : Machine} (fault : d.fault.OfEvaluation) : Fails m t d m₁
  | exhausted (exceeded : m.tick.exhausted? = some d.fault) : Fails m t d m.tick
  | refused {place : Location} {name : String} {arguments : List Expr}
      (decided : t.decision m.environment = .call place name arguments)
      (refuses : m.Refuses name arguments d.fault) : Fails m t d m

/-- Plans fail in no other way. -/
theorem Machine.fails_of_plan {t : Task} {m m₁ : Machine} {d : Diagnostic}
    (h : m.plan t = .go (.failure d) m₁) : m.Fails t d m₁ := by
  have hdecided (hfails : (t.decision m.environment).Fails d) : m.Fails t d m₁ :=
    .evaluation (Task.ofEvaluation_of_decision hfails)
  cases Machine.goes_of_plan h with
  | keep decided => exact hdecided (decided ▸ rfl)
  | count decided => exact hdecided (decided ▸ rfl)
  | exhausted _ exceeded => exact .exhausted exceeded
  | refused decided unprepared =>
      exact .refused decided (Machine.prepareCall_eq_error_iff.1 unprepared)

/-- One plan. -/
theorem Machine.raises_of_plan {t : Task} {m m₁ : Machine} {d : Diagnostic}
    (h : m.plan t = .go (.failure d) m₁) : m.limits.Raises d.fault := by
  cases Machine.fails_of_plan h with
  | evaluation fault => exact m.limits.raises_of_evaluation fault
  | exhausted exceeded =>
      have hraises : m.tick.limits.Raises d.fault := Machine.raises_of_exhausted exceeded
      exact hraises
  | refused _ refuses =>
      exact Machine.raises_of_prepareCall (Machine.prepareCall_of_refuses refuses)

/-- A fatal diagnostic is about a fault that can end a run under the limits of
the machine. -/
theorem Runs.raises {t : Task} {m m' : Machine} {d : Diagnostic} (h : Runs t m (some d) m') :
    m.limits.Raises d.fault := by
  generalize hr : some d = r at h
  have planned {t : Task} {left : Left} {m m₁ : Machine} (hp : m.plan t = .go left m₁)
      (h : m₁.limits.Raises d.fault) : m.limits.Raises d.fault := by
    rwa [(Machine.SameFrame.of_plan hp).limits] at h
  induction h with
  | finish => cases hr
  | fail hp =>
      cases hr
      exact Machine.raises_of_plan hp
  | go hp _ ih => exact planned hp (ih hr)
  | stop hp _ ih => exact planned hp (ih hr)
  | seq hp hr₁ _ _ ih =>
      have hraises := ih hr
      rw [hr₁.sameFrame.limits] at hraises
      exact planned hp hraises
  | call _ _ ih => exact ih hr

end JsonScript
