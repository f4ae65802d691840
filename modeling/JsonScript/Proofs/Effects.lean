import JsonScript.Machine.Basic

/-!
# What actions can do

`Action.effect` evaluates expressions one after the other, and may fail at each
of them. What it gives when nothing fails is one of few things: a binding of the
target, a line, or a warning (`Action.Makes`). The values do not matter here,
only which name is bound, and that an assignment or an update binds a name that
was bound before and warns about any other.

## Main results

* `Action.makes_of_effect` — all that an action can make happen.
-/

namespace JsonScript

/-- What an action can make happen when these variables are bound. -/
inductive Action.Makes (env : Environment) : Action → Effect → Prop where
  | declare (name : String) (e : Expr) (v : Value) :
      Makes env (.declare name e) (.become (env.declare name v))
  | assign (name : String) (e : Expr) (v : Value) (bound : env.contains name = true) :
      Makes env (.assign name e) (.become (env.declare name v))
  | assignUnbound (name : String) (e : Expr) (unbound : env.contains name = false) :
      Makes env (.assign name e) (.warn (.undeclaredAssignment name))
  | update (op : Operator) (name : String) (e : Expr) (v : Value)
      (bound : env.contains name = true) :
      Makes env (.update op name e) (.become (env.declare name v))
  | updateUnbound (op : Operator) (name : String) (e : Expr)
      (unbound : env.contains name = false) :
      Makes env (.update op name e) (.warn (.undeclaredAssignment name))
  | print (es : List Expr) (line : String) : Makes env (.print es) (.print line)
  | unknown (key : String) : Makes env (.unknown key) (.warn (.unknownOperation key))

theorem Action.effect_assign_of_unbound {env : Environment} {name : String} (e : Expr)
    (h : env.contains name = false) :
    (Action.assign name e).effect env =
      (e.eval env).map fun _ => .warn (.undeclaredAssignment name) := by
  cases hv : e.eval env with
  | error fault => simp [effect, hv, bind, Except.bind, Except.map]
  | ok v =>
      simp [effect, hv, bind, Except.bind, pure, Except.pure, Except.map,
        Effect.ofAssignment, Environment.assign, Environment.rebind_eq_ite, h]

theorem Action.effect_update_of_unbound {env : Environment} {op : Operator} {name : String}
    (e : Expr) (h : env.contains name = false) :
    (Action.update op name e).effect env = .ok (.warn (.undeclaredAssignment name)) := by
  rw [Action.effect, if_neg (by simp [h])]

private theorem exists_of_map_eq_ok {α β : Type} {x : Except Fault α} {f : α → β} {b : β}
    (h : x.map f = .ok b) : ∃ a, x = .ok a ∧ f a = b := by
  cases x with
  | ok a => exact ⟨a, rfl, Except.ok.inj h⟩
  | error fault => cases h

/-- All that an action can make happen. -/
theorem Action.makes_of_effect {env : Environment} {action : Action} {effect : Effect}
    (h : action.effect env = .ok effect) : action.Makes env effect := by
  cases action with
  | declare name e =>
      obtain ⟨v, -, rfl⟩ := exists_of_map_eq_ok (x := e.eval env) h
      exact .declare name e v
  | assign name e =>
      cases hbound : env.contains name with
      | true =>
          rw [effect_assign_of_contains e hbound] at h
          obtain ⟨v, -, rfl⟩ := exists_of_map_eq_ok h
          exact .assign name e v hbound
      | false =>
          rw [effect_assign_of_unbound e hbound] at h
          obtain ⟨v, -, rfl⟩ := exists_of_map_eq_ok h
          exact .assignUnbound name e hbound
  | update op name e =>
      cases hbound : env.contains name with
      | true =>
          rw [effect_update_of_contains e hbound, effect_assign_of_contains _ hbound] at h
          obtain ⟨v, -, rfl⟩ := exists_of_map_eq_ok h
          exact .update op name e v hbound
      | false =>
          rw [effect_update_of_unbound e hbound] at h
          cases h
          exact .updateUnbound op name e hbound
  | print es =>
      obtain ⟨vs, -, rfl⟩ := exists_of_map_eq_ok (x := Expr.evalAll env es) h
      exact .print es _
  | unknown key =>
      cases h
      exact .unknown key

end JsonScript
