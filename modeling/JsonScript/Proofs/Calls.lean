import JsonScript.Machine.Basic
import Mathlib.Data.List.Forall2

/-!
# What comes of preparing a call

A call is prepared by four checks, one after the other: is there a routine of the name,
does it take so many arguments, may one more call be active, and does every argument have
a value. The first check that fails decides the fault, whatever the later ones would say
(`Machine.Refuses`). A call that passes them all starts the body of the routine with the
values of the arguments.

## Main results

* `Expr.evalAll_eq_ok_iff`, `Expr.evalAll_eq_error_iff` — several expressions have values
  if each of them has one; the first one that has none decides the fault.
* `Machine.prepareCall_eq_error_iff`, `Machine.prepareCall_eq_ok_iff` — calls that are
  refused, and calls that are not.
-/

namespace JsonScript

/-- The values of several expressions are those of each of them. -/
theorem Expr.evalAll_eq_ok_iff {env : Environment} {es : List Expr} {vs : List Value} :
    evalAll env es = .ok vs ↔ List.Forall₂ (fun e v => e.eval env = .ok v) es vs := by
  induction es generalizing vs with
  | nil =>
      rw [List.forall₂_nil_left_iff]
      exact ⟨fun h => (Except.ok.inj h).symm, fun h => h ▸ rfl⟩
  | cons e rest ih =>
      have hcons : evalAll env (e :: rest) = .ok vs ↔
          ∃ v vs', e.eval env = .ok v ∧ evalAll env rest = .ok vs' ∧ vs = v :: vs' := by
        rw [evalAll]
        cases e.eval env <;> cases evalAll env rest <;>
          simp [bind, Except.bind, pure, Except.pure, eq_comm]
      rw [hcons, List.forall₂_cons_left_iff]
      simp only [ih]

/-- Expressions are evaluated up to the first one that has no value, and its fault is the
fault of them all. -/
theorem Expr.evalAll_eq_error_iff {env : Environment} {es : List Expr} {fault : Fault} :
    evalAll env es = .error fault ↔
      ∃ before e after, es = before ++ e :: after ∧ (∀ x ∈ before, ∃ v, x.eval env = .ok v) ∧
        e.eval env = .error fault := by
  induction es with
  | nil => simp [evalAll]
  | cons first rest ih =>
      cases hfirst : first.eval env with
      | error other =>
          have hall : evalAll env (first :: rest) = .error fault ↔ other = fault := by
            rw [evalAll, hfirst]
            simp [bind, Except.bind]
          rw [hall]
          constructor
          · rintro rfl
            exact ⟨[], first, rest, rfl, nofun, hfirst⟩
          · rintro ⟨_ | ⟨x, before⟩, e, after, hsplit, hbefore, he⟩
            · cases hsplit
              exact Except.error.inj (hfirst.symm.trans he)
            · -- The first expression cannot come before the one that fails.
              cases hsplit
              obtain ⟨v, hv⟩ := hbefore first List.mem_cons_self
              rw [hfirst] at hv
              cases hv
      | ok v =>
          have hall : evalAll env (first :: rest) = .error fault ↔
              evalAll env rest = .error fault := by
            rw [evalAll, hfirst]
            cases evalAll env rest <;> simp [bind, Except.bind, pure, Except.pure]
          rw [hall, ih]
          constructor
          · rintro ⟨before, e, after, rfl, hbefore, he⟩
            refine ⟨first :: before, e, after, rfl, fun x hx => ?_, he⟩
            rcases List.mem_cons.1 hx with rfl | hx
            · exact ⟨v, hfirst⟩
            · exact hbefore x hx
          · rintro ⟨_ | ⟨x, before⟩, e, after, hsplit, hbefore, he⟩
            · cases hsplit
              rw [hfirst] at he
              cases he
            · cases hsplit
              exact ⟨before, e, after, rfl, fun x hx => hbefore x (List.mem_cons_of_mem _ hx), he⟩

namespace Machine

/-- The machine refuses the call with this fault. Every reason implies that there is none
of the earlier ones, and none speaks of anything that is checked later. -/
inductive Refuses (m : Machine) (name : String) (arguments : List Expr) : Fault → Prop where
  | undefined (unknown : ∀ r, m.routines.find name ≠ .ok r) :
      Refuses m name arguments (.undefinedFunction name)
  | arity {r : Routine} (found : m.routines.find name = .ok r)
      (differ : r.parameters.length ≠ arguments.length) :
      Refuses m name arguments (.arityMismatch r.parameters.length arguments.length)
  | depth {r : Routine} (found : m.routines.find name = .ok r)
      (fits : r.parameters.length = arguments.length) (deep : m.limits.maxDepth ≤ m.depth) :
      Refuses m name arguments (.stackOverflow m.limits.maxDepth)
  | argument {r : Routine} {before after : List Expr} {e : Expr} {fault : Fault}
      (found : m.routines.find name = .ok r) (fits : r.parameters.length = arguments.length)
      (room : m.depth < m.limits.maxDepth) (split : arguments = before ++ e :: after)
      (evaluated : ∀ x ∈ before, ∃ v, x.eval m.environment = .ok v)
      (fails : e.eval m.environment = .error fault) : Refuses m name arguments fault

variable {m : Machine} {name : String} {arguments : List Expr}

theorem prepareCall_of_find_ne_ok (unknown : ∀ r, m.routines.find name ≠ .ok r) :
    m.prepareCall name arguments = .error (.undefinedFunction name) := by
  rw [prepareCall]
  cases hfind : m.routines.find name with
  | ok r => exact absurd hfind (unknown r)
  | error fault =>
      rw [RoutineTable.find] at hfind
      split at hfind <;> cases hfind
      rfl

/-- A call that passes the first three checks evaluates its arguments. -/
theorem prepareCall_of_fits {r : Routine} (found : m.routines.find name = .ok r)
    (fits : r.parameters.length = arguments.length) (room : m.depth < m.limits.maxDepth) :
    m.prepareCall name arguments =
      (Expr.evalAll m.environment arguments).map fun vs =>
        (r, .ofList (r.parameters.zip vs)) := by
  rw [prepareCall, found]
  simp only [ne_eq, fits, not_true_eq_false, if_false, Nat.not_le.2 room]

theorem prepareCall_of_refuses {fault : Fault} (h : m.Refuses name arguments fault) :
    m.prepareCall name arguments = .error fault := by
  cases h with
  | undefined unknown => exact prepareCall_of_find_ne_ok unknown
  | arity found differ => simp only [prepareCall, found, ne_eq, differ, not_false_eq_true, if_true]
  | depth found fits deep =>
      simp only [prepareCall, found, ne_eq, fits, not_true_eq_false, if_false, deep, if_true]
  | argument found fits room split evaluated fails =>
      have hall := Expr.evalAll_eq_error_iff.2 ⟨_, _, _, split, evaluated, fails⟩
      rw [prepareCall_of_fits found fits room, hall]
      rfl

/-- A call is refused, or it starts with the values of its arguments. -/
theorem refuses_or_prepareCall_eq_ok (m : Machine) (name : String) (arguments : List Expr) :
    (∃ fault, m.Refuses name arguments fault) ∨
      ∃ r vs, m.routines.find name = .ok r ∧ r.parameters.length = arguments.length ∧
        m.depth < m.limits.maxDepth ∧ Expr.evalAll m.environment arguments = .ok vs ∧
        m.prepareCall name arguments = .ok (r, .ofList (r.parameters.zip vs)) := by
  cases found : m.routines.find name with
  | error fault => exact .inl ⟨_, .undefined fun r h => by rw [found] at h; cases h⟩
  | ok r =>
      by_cases fits : r.parameters.length = arguments.length
      · by_cases room : m.depth < m.limits.maxDepth
        · have hprepared := prepareCall_of_fits found fits room
          cases hall : Expr.evalAll m.environment arguments with
          | error fault =>
              obtain ⟨before, e, after, split, evaluated, fails⟩ :=
                Expr.evalAll_eq_error_iff.1 hall
              exact .inl ⟨fault, .argument found fits room split evaluated fails⟩
          | ok vs =>
              rw [hall] at hprepared
              exact .inr ⟨r, vs, rfl, fits, room, rfl, hprepared⟩
        · exact .inl ⟨_, .depth found fits (Nat.le_of_not_lt room)⟩
      · exact .inl ⟨_, .arity found fits⟩

theorem prepareCall_eq_error_iff {fault : Fault} :
    m.prepareCall name arguments = .error fault ↔ m.Refuses name arguments fault := by
  refine ⟨fun h => ?_, prepareCall_of_refuses⟩
  rcases m.refuses_or_prepareCall_eq_ok name arguments with ⟨other, hrefuses⟩ | ⟨r, vs, hok⟩
  · rw [prepareCall_of_refuses hrefuses] at h
    cases h
    exact hrefuses
  · rw [hok.2.2.2.2] at h
    cases h

theorem prepareCall_eq_ok_iff {r : Routine} {environment : Environment} :
    m.prepareCall name arguments = .ok (r, environment) ↔
      m.routines.find name = .ok r ∧ r.parameters.length = arguments.length ∧
        m.depth < m.limits.maxDepth ∧
        ∃ vs, Expr.evalAll m.environment arguments = .ok vs ∧
          environment = .ofList (r.parameters.zip vs) := by
  constructor
  · intro h
    rcases m.refuses_or_prepareCall_eq_ok name arguments with
      ⟨fault, hrefuses⟩ | ⟨r', vs, found, fits, room, hall, hok⟩
    · rw [prepareCall_of_refuses hrefuses] at h
      cases h
    · rw [hok] at h
      cases h
      exact ⟨found, fits, room, vs, hall, rfl⟩
  · rintro ⟨found, fits, room, vs, hall, rfl⟩
    rw [prepareCall_of_fits found fits room, hall]
    rfl

end Machine

end JsonScript
