import JsonScript.Proofs.Bindings

/-!
# Types decide whether an expression has a value

The types of the variables settle what comes of an expression, all but one thing. In two
environments that bind the same names to values of the same types, an expression has
values of the same type, or it fails with the same fault, the wording included: the same
name is not bound, or the same types do not fit. The exception is a divisor that is zero,
for which there is no type; an expression may divide by zero in one of the environments
and come to something else in the other.

So no operator looks at values to decide which operands it evaluates, or whether they
suit it. An operator that did, say one that skipped its right operand where the left one
is `false`, would come to a fault in one environment and to a value in the other.

## Main results

* `Operator.alike_apply` — operators on values of the same types.
* `Expr.alike_eval` — expressions.
* `types_decide_evaluation` — the same, in the words of results.
-/

namespace JsonScript

/-! ## Values of the same type -/

/-- The two values are of one type. -/
inductive Value.SameType : Value → Value → Prop where
  | number (x x' : Float) : SameType (.number x) (.number x')
  | string (s s' : String) : SameType (.string s) (.string s')
  | bool (b b' : Bool) : SameType (.bool b) (.bool b')
  | null : SameType .null .null

/-- Types can be told by their names. -/
theorem Value.sameType_iff (v v' : Value) : v.SameType v' ↔ v.typeName = v'.typeName := by
  constructor
  · intro h
    cases h <;> rfl
  · intro h
    cases v <;> cases v' <;> simp [Value.typeName] at h <;> constructor

/-- The same names are bound, to values of the same types. -/
def Environment.SameTypes (env env' : Environment) : Prop :=
  ∀ name, Option.Rel Value.SameType (env.get? name) (env'.get? name)

/-! ## Results alike -/

/-- Two results that types do not tell apart: results that are related, the same fault
about a name or about types, or a division by zero on one side at least. -/
inductive ResultsAlike {α : Type} (R : α → α → Prop) : Except Fault α → Except Fault α → Prop
    where
  | values {a a' : α} (h : R a a') : ResultsAlike R (.ok a) (.ok a')
  | undefined (name : String) :
      ResultsAlike R (.error (.undefinedVariable name)) (.error (.undefinedVariable name))
  | mismatch (expected got : String) :
      ResultsAlike R (.error (.typeMismatch expected got)) (.error (.typeMismatch expected got))
  | dividesLeft (x : Except Fault α) : ResultsAlike R (.error .divisionByZero) x
  | dividesRight (x : Except Fault α) : ResultsAlike R x (.error .divisionByZero)

namespace ResultsAlike

variable {α β : Type} {R : α → α → Prop} {S : β → β → Prop} {x x' : Except Fault α}

/-- A division by zero in the first part is one in the whole, whatever would follow. -/
theorem bind {f f' : α → Except Fault β} (h : ResultsAlike R x x')
    (hf : ∀ a a', R a a' → ResultsAlike S (f a) (f' a')) :
    ResultsAlike S (x >>= f) (x' >>= f') := by
  cases h with
  | values ha => exact hf _ _ ha
  | undefined name => exact .undefined name
  | mismatch expected got => exact .mismatch expected got
  | dividesLeft => exact .dividesLeft _
  | dividesRight => exact .dividesRight _

theorem map {f f' : α → β} (h : ResultsAlike R x x') (hf : ∀ a a', R a a' → S (f a) (f' a')) :
    ResultsAlike S (x.map f) (x'.map f') := by
  cases h with
  | values ha => exact .values (hf _ _ ha)
  | undefined name => exact .undefined name
  | mismatch expected got => exact .mismatch expected got
  | dividesLeft => exact .dividesLeft _
  | dividesRight => exact .dividesRight _

end ResultsAlike

/-! ## Operators -/

namespace Operator

variable {left left' right right' : Value}

section Operands

variable (hleft : left.SameType left') (hright : right.SameType right')
include hleft hright

/-- Whether there are two numbers, and the complaint if there are not. -/
theorem alike_numbers :
    ResultsAlike (fun _ _ => True) (numbers left right) (numbers left' right') := by
  cases hleft with
  | number => cases hright <;> first | exact .values trivial | exact .mismatch _ _
  | string | bool | null => cases hright <;> exact .mismatch _ _

theorem alike_bools :
    ResultsAlike (fun _ _ => True) (bools left right) (bools left' right') := by
  cases hleft with
  | bool => cases hright <;> first | exact .values trivial | exact .mismatch _ _
  | number | string | null => cases hright <;> exact .mismatch _ _

/-- Nothing may be compared with a value of any type, so the result is a truth value
then, and not a complaint. -/
theorem alike_equality :
    ResultsAlike Value.SameType (equality left right) (equality left' right') := by
  cases hleft <;> cases hright <;>
    first | exact .values (.bool _ _) | exact .mismatch _ _

end Operands

/-- The one result that values decide. -/
theorem alike_quotient (x y x' y' : Float) :
    ResultsAlike Value.SameType (quotient x y) (quotient x' y') := by
  rw [quotient, quotient]
  by_cases hy : y == 0
  · rw [if_pos hy]
    exact .dividesLeft _
  · rw [if_neg hy]
    by_cases hy' : y' == 0
    · rw [if_pos hy']
      exact .dividesRight _
    · rw [if_neg hy']
      exact .values (.number _ _)

/-- Operators on values of the same types. -/
theorem alike_apply (op : Operator) (hleft : left.SameType left')
    (hright : right.SameType right') :
    ResultsAlike Value.SameType (op.apply left right) (op.apply left' right') := by
  cases op with
  | add | subtract | multiply =>
      exact (alike_numbers hleft hright).map fun _ _ _ => .number _ _
  | greaterThan | lessThan => exact (alike_numbers hleft hright).map fun _ _ _ => .bool _ _
  | divide => exact (alike_numbers hleft hright).bind fun _ _ _ => alike_quotient ..
  | equals => exact alike_equality hleft hright
  | and | or => exact (alike_bools hleft hright).map fun _ _ _ => .bool _ _

end Operator

/-! ## Expressions -/

theorem Environment.SameTypes.get {env env' : Environment} (h : env.SameTypes env')
    (name : String) : ResultsAlike Value.SameType (env.get name) (env'.get name) := by
  have hname := h name
  rw [Environment.get, Environment.get]
  generalize env.get? name = found at hname
  generalize env'.get? name = found' at hname
  cases hname with
  | some hv => exact .values hv
  | none => exact .undefined name

theorem Expr.alike_negate {v v' : Value} (h : v.SameType v') :
    ResultsAlike Value.SameType (negate v) (negate v') := by
  cases h with
  | bool => exact .values (.bool _ _)
  | number | string | null => exact .mismatch _ _

/-- Expressions in environments with the same types. The left operand comes first on
both sides, so its fault is the one that is seen. -/
theorem Expr.alike_eval {env env' : Environment} (h : env.SameTypes env') (e : Expr) :
    ResultsAlike Value.SameType (e.eval env) (e.eval env') := by
  induction e with
  | literal v => exact .values ((Value.sameType_iff v v).2 rfl)
  | «variable» name => exact h.get name
  | binary op left right ihl ihr =>
      exact ihl.bind fun _ _ hleft => ihr.bind fun _ _ hright => op.alike_apply hleft hright
  | not operand ih => exact ih.bind fun _ _ hv => alike_negate hv

/-- **Types alone decide whether an expression has a value, up to division by zero.**  In
two environments that bind the same names, each to values with the same name of a type,
an expression has values with the same name of a type, or it fails in the same way — the
same name is not bound, or types do not fit, in the same words — unless it divides by
zero in at least one of them. -/
theorem types_decide_evaluation {env env' : Environment}
    (hnames : ∀ name, env.contains name = env'.contains name)
    (htypes : ∀ name v v', env.get? name = some v → env'.get? name = some v' →
      v.typeName = v'.typeName) (e : Expr) :
    (∃ v v', e.eval env = .ok v ∧ e.eval env' = .ok v' ∧ v.typeName = v'.typeName) ∨
    (∃ name, e.eval env = .error (.undefinedVariable name) ∧
      e.eval env' = .error (.undefinedVariable name)) ∨
    (∃ expected got, e.eval env = .error (.typeMismatch expected got) ∧
      e.eval env' = .error (.typeMismatch expected got)) ∨
    e.eval env = .error .divisionByZero ∨ e.eval env' = .error .divisionByZero := by
  have hsame : env.SameTypes env' := by
    intro name
    have hbound := hnames name
    have htype := htypes name
    simp only [Environment.contains, NameMap.contains] at hbound
    simp only [Environment.get?] at htype ⊢
    cases hv : env.bindings.get? name with
    | none =>
        rw [hv, Option.isSome_none, Eq.comm, Option.isSome_eq_false_iff, Option.isNone_iff_eq_none]
          at hbound
        rw [hbound]
        exact .none
    | some v =>
        rw [hv, Option.isSome_some, Eq.comm, Option.isSome_iff_exists] at hbound
        obtain ⟨v', hv'⟩ := hbound
        rw [hv']
        exact .some ((Value.sameType_iff v v').2 (htype v v' hv hv'))
  have halike := Expr.alike_eval hsame e
  generalize e.eval env = x at halike
  generalize e.eval env' = x' at halike
  cases halike with
  | values h => exact .inl ⟨_, _, rfl, rfl, (Value.sameType_iff _ _).1 h⟩
  | undefined name => exact .inr (.inl ⟨name, rfl, rfl⟩)
  | mismatch expected got => exact .inr (.inr (.inl ⟨expected, got, rfl, rfl⟩))
  | dividesLeft => exact .inr (.inr (.inr (.inl rfl)))
  | dividesRight => exact .inr (.inr (.inr (.inr rfl)))

/-- A test whose left part is `false` in one environment and `true` in the other: the right
part divides, by zero in the other environment only. Compared with a truth value instead,
the quotient is a mistake of types, in the other environment as well unless the division
comes first. -/
theorem types_decide_evaluation_guardedQuotient :
    let env := (Environment.empty.declare "share" (.number 6)).declare "known" (.bool false)
    let env' := (Environment.empty.declare "share" (.number 0)).declare "known" (.bool true)
    let guarded (e : Expr) : Expr := .binary .and (.variable "known") e
    let whole : Expr := .literal (.number 12)
    (∀ name, env.contains name = env'.contains name) ∧
    (∀ name v v', env.get? name = some v → env'.get? name = some v' →
      v.typeName = v'.typeName) ∧
    (∃ v', (guarded (.binary .lessThan (.variable "share") whole)).eval env' = .ok v' ∧
      v'.typeName = "bool") ∧
    (guarded (.binary .lessThan (.variable "share") (.variable "known"))).eval env' =
      .error (.typeMismatch "numbers" "number and bool") ∧
    (guarded (.binary .divide whole (.variable "share"))).eval env =
      .error (.typeMismatch "bools" "bool and number") ∧
    (guarded (.binary .divide whole (.variable "share"))).eval env' = .error .divisionByZero := by
  intro env env' guarded whole
  have hnames : ∀ name, env.contains name = env'.contains name := by
    intro name
    simp only [env, env', Environment.contains_declare]
  have htypes : ∀ name v v', env.get? name = some v → env'.get? name = some v' →
      v.typeName = v'.typeName := by
    intro name v v' hv hv'
    simp only [env, env', Environment.get?_declare] at hv hv'
    by_cases hknown : name = "known"
    · rw [if_pos hknown, Option.some.injEq] at hv hv'
      rw [← hv, ← hv']
      rfl
    · rw [if_neg hknown] at hv hv'
      by_cases hshare : name = "share"
      · rw [if_pos hshare, Option.some.injEq] at hv hv'
        rw [← hv, ← hv']
        rfl
      · rw [if_neg hshare] at hv
        exact nomatch hv
  have hleft : (guarded (.binary .lessThan (.variable "share") whole)).eval env =
      .ok (.bool false) := rfl
  have hright : (guarded (.binary .lessThan (.variable "share") (.variable "known"))).eval env =
      .error (.typeMismatch "numbers" "number and bool") := rfl
  refine ⟨hnames, htypes, ?_, ?_, rfl, rfl⟩
  · obtain ⟨v, v', hv, hv', htype⟩ | ⟨_, h, -⟩ | ⟨_, _, h, -⟩ | h | h :=
      types_decide_evaluation hnames htypes
        (guarded (.binary .lessThan (.variable "share") whole))
    · rw [hleft] at hv
      cases hv
      exact ⟨v', hv', htype.symm⟩
    · exact nomatch hleft.symm.trans h
    · exact nomatch hleft.symm.trans h
    · exact nomatch hleft.symm.trans h
    · exact nomatch h
  · obtain ⟨_, _, h, -⟩ | ⟨_, h, -⟩ | ⟨_, _, h, h'⟩ | h | h :=
      types_decide_evaluation hnames htypes
        (guarded (.binary .lessThan (.variable "share") (.variable "known")))
    · exact nomatch hright.symm.trans h
    · exact nomatch hright.symm.trans h
    · rw [hright] at h
      cases h
      exact h'
    · exact nomatch hright.symm.trans h
    · exact nomatch h

end JsonScript
