import JsonScript.Proofs.Calls

/-!
# The order of evaluation

An expression is a tree. Listed so that every node comes after its children, and the left
child with all below it before the right one, its nodes are what evaluation goes through
(`Expr.nodes`). Each of them works on the values of its children alone: a variable has to
be bound, and the values of the operands have to suit the operator. The first node in the
list that cannot do its work decides the fault (`FirstFailure`); if there is none, there is
a value. No node is passed over, also where the value of another one makes it of no account.

Several expressions, as those of a print or the arguments of a call, are gone through one
after the other.

## Main results

* `Operator.apply_eq_error_iff` — which operands an operator refuses, and what it says.
* `Expr.eval_eq_ok_iff` — the value of an expression from those of its children.
* `Expr.decides_eval`, `Expr.decides_evalAll` — nodes decide about values and faults.
* `evaluation_in_postorder` — expressions, prints and calls.
-/

namespace JsonScript

/-! ## What suits an operator -/

/-- The two values suit the operator. -/
inductive Operator.Accepts : Operator → Value → Value → Prop where
  | numbers {op : Operator} (h : op ∈ [add, subtract, multiply, greaterThan, lessThan])
      (x y : Float) : Accepts op (.number x) (.number y)
  /-- A divisor that is not zero. -/
  | quotient (x : Float) {y : Float} (h : ¬ y == 0) : Accepts divide (.number x) (.number y)
  | sameType {left right : Value} (h : left.typeName = right.typeName) : Accepts equals left right
  | nullLeft (right : Value) : Accepts equals .null right
  | nullRight (left : Value) : Accepts equals left .null
  | bools {op : Operator} (h : op ∈ [and, or]) (a b : Bool) : Accepts op (.bool a) (.bool b)

namespace Operator

/-- What an operator says of two values that do not suit it. -/
def complaint (op : Operator) (left right : Value) : Fault :=
  match op, left, right with
  | .divide, .number _, .number _ => .divisionByZero
  | .equals, _, _ => mismatch "values of the same type" left right
  | .and, _, _ | .or, _, _ => mismatch "bools" left right
  | _, _, _ => mismatch "numbers" left right

variable {op : Operator} {left right : Value}

theorem exists_apply_of_accepts (h : op.Accepts left right) : ∃ v, op.apply left right = .ok v := by
  cases h with
  | numbers h x y =>
      simp only [List.mem_cons, List.not_mem_nil, or_false] at h
      rcases h with rfl | rfl | rfl | rfl | rfl <;> exact ⟨_, rfl⟩
  | @quotient x y h => exact ⟨.number (x / y), if_neg h⟩
  | sameType h =>
      rw [apply, equality.eq_def]
      split
      · exact ⟨_, rfl⟩
      · exact ⟨_, rfl⟩
      · exact ⟨_, if_pos h⟩
  | nullLeft v => exact ⟨_, rfl⟩
  | nullRight left => cases left <;> exact ⟨_, rfl⟩
  | bools h a b =>
      simp only [List.mem_cons, List.not_mem_nil, or_false] at h
      rcases h with rfl | rfl <;> exact ⟨_, rfl⟩

theorem numbers_eq (left right : Value) :
    (∃ x y, left = .number x ∧ right = .number y) ∨
      numbers left right = .error (mismatch "numbers" left right) := by
  cases left <;> cases right <;> first | exact .inl ⟨_, _, rfl, rfl⟩ | exact .inr rfl

theorem bools_eq (left right : Value) :
    (∃ a b, left = .bool a ∧ right = .bool b) ∨
      bools left right = .error (mismatch "bools" left right) := by
  cases left <;> cases right <;> first | exact .inl ⟨_, _, rfl, rfl⟩ | exact .inr rfl

/-- An operator complains about values that do not suit it. -/
theorem apply_of_not_accepts (h : ¬ op.Accepts left right) :
    op.apply left right = .error (op.complaint left right) := by
  cases op with
  | add | subtract | multiply | greaterThan | lessThan =>
      rcases numbers_eq left right with ⟨x, y, rfl, rfl⟩ | hnumbers
      · exact absurd (.numbers (by decide) x y) h
      · rw [apply, hnumbers]
        rfl
  | divide =>
      rcases numbers_eq left right with ⟨x, y, rfl, rfl⟩ | hnumbers
      · exact if_pos (Decidable.not_not.1 (mt (.quotient x) h))
      · rw [apply, hnumbers]
        cases left <;> cases right <;> first | rfl | cases hnumbers
  | equals =>
      rw [apply, equality.eq_def]
      split
      · exact absurd (.nullLeft _) h
      · exact absurd (.nullRight _) h
      · exact if_neg (mt .sameType h)
  | and | or =>
      rcases bools_eq left right with ⟨a, b, rfl, rfl⟩ | hbools
      · exact absurd (.bools (by decide) a b) h
      · rw [apply, hbools]
        rfl

theorem exists_apply_eq_ok_iff : (∃ v, op.apply left right = .ok v) ↔ op.Accepts left right := by
  refine ⟨fun ⟨v, hv⟩ => ?_, exists_apply_of_accepts⟩
  by_contra h
  cases hv.symm.trans (apply_of_not_accepts h)

/-- An operator refuses the values that do not suit it, and no others. -/
theorem apply_eq_error_iff {fault : Fault} :
    op.apply left right = .error fault ↔
      ¬ op.Accepts left right ∧ fault = op.complaint left right := by
  constructor
  · intro hfault
    have hrefused : ¬ op.Accepts left right := by
      intro h
      obtain ⟨v, hv⟩ := exists_apply_of_accepts h
      cases hv.symm.trans hfault
    exact ⟨hrefused, Except.error.inj (hfault.symm.trans (apply_of_not_accepts hrefused))⟩
  · rintro ⟨h, rfl⟩
    exact apply_of_not_accepts h

end Operator

/-! ## Nodes -/

namespace Expr

/-- The value of an expression, put together from those of its parts. -/
inductive HasValue (env : Environment) : Expr → Value → Prop where
  | literal (v : Value) : HasValue env (.literal v) v
  | variable {name : String} {v : Value} (h : env.get? name = some v) :
      HasValue env (.variable name) v
  | binary {op : Operator} {left right : Expr} {x y v : Value} (hleft : HasValue env left x)
      (hright : HasValue env right y) (h : op.apply x y = .ok v) :
      HasValue env (.binary op left right) v
  | not {operand : Expr} {b : Bool} (h : HasValue env operand (.bool b)) :
      HasValue env (.not operand) (.bool !b)

/-- The expression with all below it, every node after its children and what is on the
left before what is on the right. A node is given by the expression that it is the root of. -/
def nodes : Expr → List Expr
  | .literal v => [.literal v]
  | .variable name => [.variable name]
  | .binary op left right => left.nodes ++ (right.nodes ++ [.binary op left right])
  | .not operand => operand.nodes ++ [.not operand]

/-- The node can do its work on the values of its children. -/
inductive Succeeds (env : Environment) : Expr → Prop where
  | literal (v : Value) : Succeeds env (.literal v)
  | variable {name : String} (bound : env.contains name = true) : Succeeds env (.variable name)
  | binary {op : Operator} {left right : Expr} {x y : Value} (hleft : left.HasValue env x)
      (hright : right.HasValue env y) (suits : op.Accepts x y) :
      Succeeds env (.binary op left right)
  | not {operand : Expr} {v : Value} (h : operand.HasValue env v) (suits : v.typeName = "bool") :
      Succeeds env (.not operand)

/-- The node cannot do its work on the values of its children. -/
inductive Fails (env : Environment) : Expr → Fault → Prop where
  | variable {name : String} (unbound : env.contains name = false) :
      Fails env (.variable name) (.undefinedVariable name)
  | binary {op : Operator} {left right : Expr} {x y : Value} (hleft : left.HasValue env x)
      (hright : right.HasValue env y) (refuses : ¬ op.Accepts x y) :
      Fails env (.binary op left right) (op.complaint x y)
  | not {operand : Expr} {v : Value} (h : operand.HasValue env v)
      (refuses : v.typeName ≠ "bool") : Fails env (.not operand) (.typeMismatch "bool" v.typeName)

end Expr

/-- The first node of the list that cannot do its work fails with this fault. -/
inductive FirstFailure (env : Environment) : List Expr → Fault → Prop where
  | here {node : Expr} {fault : Fault} (h : node.Fails env fault) (rest : List Expr) :
      FirstFailure env (node :: rest) fault
  | later {node : Expr} {rest : List Expr} {fault : Fault} (h : node.Succeeds env)
      (hrest : FirstFailure env rest fault) : FirstFailure env (node :: rest) fault

/-! ## Values -/

section Values

variable {env : Environment}

theorem Environment.get_eq (env : Environment) (name : String) :
    (∃ v, env.get? name = some v ∧ env.get name = .ok v) ∨
      env.contains name = false ∧ env.get name = .error (.undefinedVariable name) := by
  have hcontains : env.contains name = (env.get? name).isSome := rfl
  rw [hcontains, get]
  cases env.get? name with
  | none => exact .inr ⟨rfl, rfl⟩
  | some v => exact .inl ⟨v, rfl, rfl⟩

namespace Expr

theorem negate_eq_ok_iff {x v : Value} : negate x = .ok v ↔ ∃ b, x = .bool b ∧ v = .bool !b := by
  cases x with
  | bool b => simp [negate, eq_comm]
  | number | string | null => simp [negate]

theorem eval_not_eq_ok_iff {operand : Expr} {v : Value} :
    (Expr.not operand).eval env = .ok v ↔ ∃ x, operand.eval env = .ok x ∧ negate x = .ok v := by
  rw [eval]
  cases operand.eval env <;> simp [bind, Except.bind]

/-- The value of an expression comes from those of its children. -/
theorem eval_eq_ok_iff {e : Expr} {v : Value} : e.eval env = .ok v ↔ e.HasValue env v := by
  induction e generalizing v with
  | literal w =>
      refine ⟨fun h => ?_, fun h => ?_⟩
      · cases h
        exact .literal w
      · cases h
        rfl
  | «variable» name =>
      refine ⟨fun h => ?_, fun h => ?_⟩
      · rcases env.get_eq name with ⟨w, hw, hget⟩ | ⟨_, hget⟩
        · cases hget.symm.trans h
          exact .variable hw
        · cases hget.symm.trans h
      · cases h with
        | «variable» hv => simp only [eval, Environment.get, hv]
  | binary op left right ihl ihr =>
      rw [eval_binary_eq_ok_iff]
      constructor
      · rintro ⟨x, y, hx, hy, h⟩
        exact .binary (ihl.1 hx) (ihr.1 hy) h
      · rintro (_ | _ | ⟨hleft, hright, h⟩)
        exact ⟨_, _, ihl.2 hleft, ihr.2 hright, h⟩
  | not operand ih =>
      rw [eval_not_eq_ok_iff]
      constructor
      · rintro ⟨x, hx, h⟩
        obtain ⟨b, rfl, rfl⟩ := negate_eq_ok_iff.1 h
        exact .not (ih.1 hx)
      · rintro (_ | _ | _ | h)
        exact ⟨_, ih.2 h, rfl⟩

theorem HasValue.unique {e : Expr} {v w : Value} (hv : e.HasValue env v) (hw : e.HasValue env w) :
    v = w :=
  Except.ok.inj ((eval_eq_ok_iff.2 hv).symm.trans (eval_eq_ok_iff.2 hw))

/-- A node fails in one way at most, and not if it succeeds. -/
theorem Fails.unique {e : Expr} {fault : Fault} (h : e.Fails env fault) :
    ¬ e.Succeeds env ∧ ∀ other, e.Fails env other → other = fault := by
  cases h with
  | «variable» unbound =>
      refine ⟨fun hs => ?_, fun other ho => ?_⟩
      · cases hs with
        | «variable» bound => cases unbound.symm.trans bound
      · cases ho
        rfl
  | binary hleft hright refuses =>
      refine ⟨fun hs => ?_, fun other ho => ?_⟩
      · cases hs with
        | binary hleft' hright' suits =>
            cases hleft.unique hleft'
            cases hright.unique hright'
            exact refuses suits
      · cases ho with
        | binary hleft' hright' _ =>
            cases hleft.unique hleft'
            cases hright.unique hright'
            rfl
  | not h refuses =>
      refine ⟨fun hs => ?_, fun other ho => ?_⟩
      · cases hs with
        | not h' suits =>
            cases h.unique h'
            exact refuses suits
      · cases ho with
        | not h' _ =>
            cases h.unique h'
            rfl

end Expr

/-! ## Nodes decide -/

theorem FirstFailure.unique {nodes : List Expr} {fault : Fault}
    (h : FirstFailure env nodes fault) :
    (¬ ∀ n ∈ nodes, n.Succeeds env) ∧ ∀ other, FirstFailure env nodes other → other = fault := by
  induction h with
  | here hfails rest =>
      refine ⟨fun hall => hfails.unique.1 (hall _ List.mem_cons_self), fun other ho => ?_⟩
      cases ho with
      | here hother => exact hfails.unique.2 other hother
      | later hsucceeds => exact absurd hsucceeds hfails.unique.1
  | later hsucceeds hrest ih =>
      refine ⟨fun hall => ih.1 fun n hn => hall n (List.mem_cons_of_mem _ hn), fun other ho => ?_⟩
      cases ho with
      | here hother => exact absurd hsucceeds hother.unique.1
      | later _ hother => exact ih.2 other hother

theorem FirstFailure.append {nodes : List Expr} {fault : Fault}
    (h : FirstFailure env nodes fault) (more : List Expr) :
    FirstFailure env (nodes ++ more) fault := by
  induction h with
  | here hfails rest => exact .here hfails _
  | later hsucceeds _ ih => exact .later hsucceeds ih

theorem FirstFailure.after {nodes more : List Expr} {fault : Fault}
    (hall : ∀ n ∈ nodes, n.Succeeds env) (h : FirstFailure env more fault) :
    FirstFailure env (nodes ++ more) fault := by
  induction nodes with
  | nil => exact h
  | cons n rest ih =>
      exact .later (hall n List.mem_cons_self)
        (ih fun n' hn' => hall n' (List.mem_cons_of_mem _ hn'))

/-- There is a result if all nodes succeed, and else the fault of the first that fails. -/
inductive Decides (env : Environment) {α : Type} (nodes : List Expr) : Except Fault α → Prop where
  | value (a : α) (hall : ∀ n ∈ nodes, n.Succeeds env) : Decides env nodes (.ok a)
  | fault {fault : Fault} (h : FirstFailure env nodes fault) : Decides env nodes (.error fault)

namespace Decides

variable {α β : Type} {nodes more : List Expr} {r : Except Fault α}

theorem eq_ok_iff (h : Decides env nodes r) :
    (∃ a, r = .ok a) ↔ ∀ n ∈ nodes, n.Succeeds env := by
  cases h with
  | value a hall => exact iff_of_true ⟨a, rfl⟩ hall
  | fault hfirst => exact iff_of_false (fun ⟨_, ha⟩ => nomatch ha) hfirst.unique.1

theorem eq_error_iff (h : Decides env nodes r) (fault : Fault) :
    r = .error fault ↔ FirstFailure env nodes fault := by
  cases h with
  | value a hall => exact iff_of_false (fun h => nomatch h) fun hfirst => hfirst.unique.1 hall
  | fault hfirst =>
      refine ⟨fun h => ?_, fun h => ?_⟩
      · cases h
        exact hfirst
      · rw [hfirst.unique.2 fault h]

/-- Nodes that are gone through after others. -/
theorem bind {k : α → Except Fault β} (h : Decides env nodes r)
    (hk : ∀ a, r = .ok a → Decides env more (k a)) : Decides env (nodes ++ more) (r >>= k) := by
  cases h with
  | fault hfirst => exact .fault (hfirst.append more)
  | value a hall =>
      have hrest := hk a rfl
      show Decides env (nodes ++ more) (k a)
      generalize k a = r' at hrest
      cases hrest with
      | fault hfirst => exact .fault (.after hall hfirst)
      | value b hmore =>
          exact .value b fun n hn => (List.mem_append.1 hn).elim (hall n) (hmore n)

theorem map (h : Decides env nodes r) (f : α → β) : Decides env nodes (r.map f) := by
  cases h with
  | value a hall => exact .value (f a) hall
  | fault hfirst => exact .fault hfirst

/-- A single node. -/
theorem single {node : Expr} (hvalue : ∀ a, r = .ok a → node.Succeeds env)
    (hfault : ∀ fault, r = .error fault → node.Fails env fault) : Decides env [node] r := by
  cases r with
  | ok a => exact .value a fun n hn => List.mem_singleton.1 hn ▸ hvalue a rfl
  | error fault => exact .fault (.here (hfault fault rfl) [])

end Decides

namespace Expr

/-- An operator as a node, once its operands have values. -/
theorem decides_apply {op : Operator} {left right : Expr} {x y : Value}
    (hleft : left.eval env = .ok x) (hright : right.eval env = .ok y) :
    Decides env [.binary op left right] (op.apply x y) := by
  have hx := eval_eq_ok_iff.1 hleft
  have hy := eval_eq_ok_iff.1 hright
  refine .single (fun v hv => ?_) fun fault hfault => ?_
  · exact .binary hx hy (Operator.exists_apply_eq_ok_iff.1 ⟨v, hv⟩)
  · obtain ⟨refuses, rfl⟩ := Operator.apply_eq_error_iff.1 hfault
    exact .binary hx hy refuses

theorem decides_negate {operand : Expr} {x : Value} (h : operand.eval env = .ok x) :
    Decides env [.not operand] (negate x) := by
  have hx := eval_eq_ok_iff.1 h
  refine .single (fun v hv => ?_) fun fault hfault => ?_
  · obtain ⟨b, rfl, -⟩ := negate_eq_ok_iff.1 hv
    exact .not hx rfl
  · cases x with
    | bool b => cases hfault
    | number | string | null =>
        cases hfault
        exact .not hx (by simp [Value.typeName])

/-- The nodes of an expression decide about it. -/
theorem decides_eval (env : Environment) (e : Expr) : Decides env e.nodes (e.eval env) := by
  induction e with
  | literal v => exact .value v fun n hn => List.mem_singleton.1 hn ▸ .literal v
  | «variable» name =>
      refine .single (fun v hv => ?_) fun fault hfault => ?_
      · rcases env.get_eq name with ⟨w, hw, _⟩ | ⟨_, hget⟩
        · exact .variable (Option.isSome_iff_exists.2 ⟨w, hw⟩)
        · cases hget.symm.trans hv
      · rcases env.get_eq name with ⟨_, _, hget⟩ | ⟨unbound, hget⟩
        · cases hget.symm.trans hfault
        · cases hget.symm.trans hfault
          exact .variable unbound
  | binary op left right ihl ihr =>
      exact ihl.bind fun x hx => ihr.bind fun y hy => decides_apply hx hy
  | not operand ih => exact ih.bind fun x hx => decides_negate hx

/-- The nodes of several expressions, one after the other. -/
theorem decides_evalAll (env : Environment) (es : List Expr) :
    Decides env (es.flatMap nodes) (evalAll env es) := by
  induction es with
  | nil => exact .value [] fun n hn => absurd hn List.not_mem_nil
  | cons e rest ih =>
      refine (decides_eval env e).bind fun v _ => ?_
      exact ih.map (v :: ·)

theorem evalAll_eq_ok_iff_hasValue {es : List Expr} {vs : List Value} :
    evalAll env es = .ok vs ↔ List.Forall₂ (HasValue env) es vs := by
  simp only [evalAll_eq_ok_iff, eval_eq_ok_iff]

end Expr

end Values

/-! ## Prints and calls -/

/-- **Evaluation goes through all nodes, children first and from left to right.**  An
expression has a value exactly if every node can do its work on the values of its children:
a variable is bound, the operands suit the operator, a divisor is not zero. Else its fault
is that of the first node that cannot. So it is with all the values of a print together,
and with the arguments of a call that is not refused for another reason. -/
theorem evaluation_in_postorder (env : Environment) :
    (∀ e : Expr,
      (∀ v, e.eval env = .ok v ↔ e.HasValue env v) ∧
      ((∃ v, e.eval env = .ok v) ↔ ∀ node ∈ e.nodes, node.Succeeds env) ∧
      ∀ fault, e.eval env = .error fault ↔ FirstFailure env e.nodes fault) ∧
    (∀ es : List Expr,
      let printed := (Action.print es).effect env
      let line (vs : List Value) : Effect := .print (" ".intercalate (vs.map Value.text))
      (∀ effect, printed = .ok effect ↔
        ∃ vs, List.Forall₂ (Expr.HasValue env) es vs ∧ effect = line vs) ∧
      ((∃ effect, printed = .ok effect) ↔ ∀ node ∈ es.flatMap Expr.nodes, node.Succeeds env) ∧
      ∀ fault, printed = .error fault ↔ FirstFailure env (es.flatMap Expr.nodes) fault) ∧
    ∀ (m : Machine) (name : String) (r : Routine) (arguments : List Expr), m.environment = env →
      m.routines.find name = .ok r → r.parameters.length = arguments.length →
      m.depth < m.limits.maxDepth →
      let prepared := m.prepareCall name arguments
      (∀ start, prepared = .ok start ↔
        ∃ vs, List.Forall₂ (Expr.HasValue env) arguments vs ∧
          start = (r, .ofList (r.parameters.zip vs))) ∧
      ((∃ start, prepared = .ok start) ↔
        ∀ node ∈ arguments.flatMap Expr.nodes, node.Succeeds env) ∧
      ∀ fault, prepared = .error fault ↔
        FirstFailure env (arguments.flatMap Expr.nodes) fault := by
  have hmap {α : Type} (f : List Value → α) (es : List Expr) (a : α) :
      (Expr.evalAll env es).map f = .ok a ↔
        ∃ vs, List.Forall₂ (Expr.HasValue env) es vs ∧ a = f vs := by
    simp only [← Expr.evalAll_eq_ok_iff_hasValue]
    cases Expr.evalAll env es <;> simp [Except.map, eq_comm]
  refine ⟨fun e => ?expression, fun es => ?print,
    fun m name r arguments hm found fits room => ?call⟩
  case expression =>
    have hdecides := e.decides_eval env
    exact ⟨fun v => Expr.eval_eq_ok_iff, hdecides.eq_ok_iff, hdecides.eq_error_iff⟩
  case print =>
    intro printed line
    have hdecides : Decides env (es.flatMap Expr.nodes) printed :=
      (Expr.decides_evalAll env es).map line
    exact ⟨hmap line es, hdecides.eq_ok_iff, hdecides.eq_error_iff⟩
  case call =>
    intro prepared
    have hprepared : prepared = (Expr.evalAll env arguments).map fun vs =>
        (r, .ofList (r.parameters.zip vs)) := by
      subst hm
      exact Machine.prepareCall_of_fits found fits room
    rw [hprepared]
    have hdecides := (Expr.decides_evalAll env arguments).map fun vs =>
      (r, Environment.ofList (r.parameters.zip vs))
    exact ⟨hmap _ arguments, hdecides.eq_ok_iff, hdecides.eq_error_iff⟩

/-- A call with two arguments neither of which has a value. In the first one a truth value
that decides about a conjunction does not keep the other operand from being evaluated, and
a number in its place is the fault of the conjunction. -/
theorem evaluation_in_postorder_conjunction :
    let routine : Routine := ⟨"f", ["a", "b"], []⟩
    let m := { Machine.start ⟨1, none⟩ .silent with routines := ⟨.ofList [("f", routine)]⟩ }
    let conjunction : Expr := .binary .and (.literal (.bool false)) (.literal (.number 1))
    let arguments : List Expr := [conjunction, .variable "ghost"]
    m.routines.find "f" = .ok routine ∧ routine.parameters.length = arguments.length ∧
      m.depth < m.limits.maxDepth ∧
      FirstFailure m.environment (arguments.flatMap Expr.nodes)
        (.typeMismatch "bools" "bool and number") ∧
      m.prepareCall "f" arguments = .error (.typeMismatch "bools" "bool and number") := by
  intro routine m conjunction arguments
  have hrefuses : ¬ Operator.and.Accepts (.bool false) (.number 1) := nofun
  have hfirst : FirstFailure m.environment (arguments.flatMap Expr.nodes)
      (.typeMismatch "bools" "bool and number") :=
    .later (.literal _) (.later (.literal _)
      (.here (.binary (.literal _) (.literal _) hrefuses) _))
  obtain ⟨-, -, hcall⟩ := evaluation_in_postorder m.environment
  obtain ⟨-, -, hfault⟩ := hcall m "f" routine arguments rfl rfl rfl Nat.one_pos
  exact ⟨rfl, rfl, Nat.one_pos, hfirst, (hfault _).2 hfirst⟩

end JsonScript
