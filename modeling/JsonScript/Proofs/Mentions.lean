import JsonScript.Proofs.Bindings
import JsonScript.Proofs.Isolation

/-!
# A run depends on the names it mentions

The names of a block are those that its expressions read and its actions write,
at any depth (`Mentioned`). Environments that agree on these names, in being
bound as in the values, cannot be told apart by a run of the block, and the run
keeps them in agreement.

Calls add no names but those of their arguments. Their bodies run with the same
variables on both sides, that is, with variables that agree on all names. So the
simulation is over sets of names: that of the block outside calls, and that of
all names inside.

## Main results

* `Expr.eval_congr`, `Action.sameResult_effect` — what is evaluated depends on
  the names mentioned.
* `agreement_sound` — so does what is decided.
* `run_depends_on_mentioned_names` — so does a run.
-/

namespace JsonScript

/-! ## Names -/

/-- The expression reads the variable. -/
def Expr.Mentions (x : String) : Expr → Prop
  | .literal _ => False
  | .variable name => name = x
  | .binary _ left right => left.Mentions x ∨ right.Mentions x
  | .not operand => operand.Mentions x

/-- The action reads the variable or writes to it. -/
def Action.Mentions (x : String) : Action → Prop
  | .declare name e | .assign name e | .update _ name e => name = x ∨ e.Mentions x
  | .print es => ∃ e ∈ es, e.Mentions x
  | .unknown _ => False

/-- The operation reads the variable or writes to it, its blocks left out. -/
def Operation.Mentions (x : String) : Operation → Prop
  | .act _ action => action.Mentions x
  | .choose _ condition _ _ | .whilst _ condition _ => condition.Mentions x
  | .times _ count _ => count.Mentions x
  | .call _ _ arguments => ∃ e ∈ arguments, e.Mentions x

/-- The name is mentioned somewhere in the block. -/
def Mentioned (block : List Operation) (x : String) : Prop :=
  ∃ op, Occurs op block ∧ op.Mentions x

@[simp] theorem mentioned_nil (x : String) : ¬ Mentioned [] x :=
  fun ⟨op, hop, _⟩ => not_occurs_nil op hop

@[simp] theorem mentioned_cons (op : Operation) (rest : List Operation) (x : String) :
    Mentioned (op :: rest) x ↔
      op.Mentions x ∨ (∃ block ∈ op.blocks, Mentioned block x) ∨ Mentioned rest x := by
  constructor
  · rintro ⟨o, ho, hx⟩
    rcases occurs_cons_iff.1 ho with rfl | ⟨block, hblock, ho⟩ | ho
    · exact .inl hx
    · exact .inr (.inl ⟨block, hblock, o, ho, hx⟩)
    · exact .inr (.inr ⟨o, ho, hx⟩)
  · rintro (hx | ⟨block, hblock, o, ho, hx⟩ | ⟨o, ho, hx⟩)
    · exact ⟨op, occurs_cons_iff.2 (.inl rfl), hx⟩
    · exact ⟨o, occurs_cons_iff.2 (.inr (.inl ⟨block, hblock, ho⟩)), hx⟩
    · exact ⟨o, occurs_cons_iff.2 (.inr (.inr ho)), hx⟩

theorem Action.mentions_of_target {action : Action} {x : String}
    (h : action.target? = some x) : action.Mentions x := by
  cases action with
  | declare | assign | update => exact .inl (Option.some.inj h)
  | print | unknown => cases h

/-! ## Agreement -/

/-- Each of these names has the same value in both, or is bound in neither. -/
def Environment.AgreeOn (N : String → Prop) (env₁ env₂ : Environment) : Prop :=
  ∀ x, N x → env₁.get? x = env₂.get? x

/-- The same effect, up to the variables that are not among these names. -/
inductive Effect.AgreeOn (N : String → Prop) : Effect → Effect → Prop where
  | become {env₁ env₂ : Environment} (h : env₁.AgreeOn N env₂) :
      AgreeOn N (.become env₁) (.become env₂)
  | print (line : String) : AgreeOn N (.print line) (.print line)
  | warn (fault : Fault) : AgreeOn N (.warn fault) (.warn fault)

theorem Effect.agreeOn_self (N : String → Prop) (effect : Effect) : effect.AgreeOn N effect := by
  cases effect with
  | become env => exact .become fun _ _ => rfl
  | print line => exact .print line
  | warn fault => exact .warn fault

/-- The same fault, or effects that agree. -/
inductive Effect.SameResult (N : String → Prop) : Except Fault Effect → Except Fault Effect → Prop
    where
  | error (fault : Fault) : SameResult N (.error fault) (.error fault)
  | ok {effect₁ effect₂ : Effect} (h : effect₁.AgreeOn N effect₂) :
      SameResult N (.ok effect₁) (.ok effect₂)

theorem Effect.SameResult.map {α : Type} {N : String → Prop} {x₁ x₂ : Except Fault α}
    {f g : α → Effect} (hx : x₁ = x₂) (hfg : ∀ a, (f a).AgreeOn N (g a)) :
    SameResult N (x₁.map f) (x₂.map g) := by
  subst hx
  cases x₁ with
  | error fault => exact .error fault
  | ok a => exact .ok (hfg a)

section Congr

variable {N : String → Prop} {env₁ env₂ : Environment} (h : env₁.AgreeOn N env₂)
include h

theorem Environment.AgreeOn.declare (name : String) (v : Value) :
    (env₁.declare name v).AgreeOn N (env₂.declare name v) := by
  intro x hx
  rw [Environment.get?_declare, Environment.get?_declare, h x hx]

theorem Environment.AgreeOn.contains {name : String} (hname : N name) :
    env₁.contains name = env₂.contains name := by
  simp only [Environment.contains, NameMap.contains]
  exact congrArg Option.isSome (h name hname)

theorem Expr.eval_congr {e : Expr} (he : ∀ x, e.Mentions x → N x) :
    e.eval env₁ = e.eval env₂ := by
  induction e with
  | literal v => rfl
  | «variable» name =>
      simp only [eval, Environment.get]
      rw [h name (he name rfl)]
  | binary op left right ihl ihr =>
      rw [eval, eval, ihl fun x hx => he x (.inl hx), ihr fun x hx => he x (.inr hx)]
  | not operand ih => rw [eval, eval, ih he]

theorem Expr.evalCondition_congr {e : Expr} (he : ∀ x, e.Mentions x → N x) :
    e.evalCondition env₁ = e.evalCondition env₂ := by
  rw [evalCondition, evalCondition, Expr.eval_congr h he]

theorem Expr.evalCount_congr {e : Expr} (he : ∀ x, e.Mentions x → N x) :
    e.evalCount env₁ = e.evalCount env₂ := by
  rw [evalCount, evalCount, Expr.eval_congr h he]

theorem Action.sameResult_effect {action : Action} (ha : ∀ x, action.Mentions x → N x) :
    Effect.SameResult N (action.effect env₁) (action.effect env₂) := by
  cases action with
  | declare name e =>
      have he := Expr.eval_congr h fun x hx => ha x (.inr hx)
      exact .map he fun v => .become (h.declare name v)
  | assign name e =>
      have he := Expr.eval_congr h fun x hx => ha x (.inr hx)
      have hcontains := h.contains (ha name (.inl rfl))
      cases hbound : env₁.contains name with
      | true =>
          rw [effect_assign_of_contains e hbound, effect_assign_of_contains e (hcontains ▸ hbound)]
          exact .map he fun v => .become (h.declare name v)
      | false =>
          rw [effect_assign_of_unbound e hbound, effect_assign_of_unbound e (hcontains ▸ hbound)]
          exact .map he fun _ => .warn _
  | update op name e =>
      have he : (Expr.binary op (.variable name) e).eval env₁ =
          (Expr.binary op (.variable name) e).eval env₂ :=
        Expr.eval_congr h fun x hx => hx.elim (fun hx => ha x (.inl hx)) fun hx => ha x (.inr hx)
      have hcontains := h.contains (ha name (.inl rfl))
      cases hbound : env₁.contains name with
      | true =>
          rw [effect_update_of_contains e hbound, effect_update_of_contains e (hcontains ▸ hbound),
            effect_assign_of_contains _ hbound, effect_assign_of_contains _ (hcontains ▸ hbound)]
          exact .map he fun v => .become (h.declare name v)
      | false =>
          rw [effect_update_of_unbound e hbound, effect_update_of_unbound e (hcontains ▸ hbound)]
          exact .ok (.warn _)
  | print es =>
      have hes : Expr.evalAll env₁ es = Expr.evalAll env₂ es :=
        Expr.evalAll_congr fun e he => Expr.eval_congr h fun x hx => ha x ⟨e, he, hx⟩
      exact .map hes fun _ => .print _
  | unknown key => exact .ok (.warn _)

end Congr

/-! ## Agreement of runs -/

/-- Whatever the operation mentions, its blocks included, is among the names. -/
def Operation.Within (N : String → Prop) (op : Operation) : Prop :=
  ∀ inner, Occurs inner [op] → ∀ x, inner.Mentions x → N x

theorem Operation.Within.mentions {N : String → Prop} {op : Operation} (h : op.Within N) :
    ∀ x, op.Mentions x → N x :=
  h op (.here List.mem_cons_self)

theorem inherited_within (N : String → Prop) : Inherited (Operation.Within N) := by
  intro op h block hblock inner hinner o ho
  exact h o (.inside List.mem_cons_self hblock (ho.of_mem hinner))

theorem Task.over_within_mentioned (block : List Operation) :
    (Task.block block).Over (Operation.Within (Mentioned block)) := by
  intro op hop inner hinner x hx
  exact ⟨inner, hinner.of_mem hop, hx⟩

/-- The two machines may make the same calls, agree on the names, and have added
the same to what the first two had logged. -/
structure Machine.AgreeOn (N : String → Prop) (b₁ b₂ m₁ m₂ : Machine) : Prop where
  calls : m₁.SameCalls m₂
  environment : m₁.environment.AgreeOn N m₂.environment
  added : ∃ lines notes, b₁.Adds lines notes m₁ ∧ b₂.Adds lines notes m₂

namespace Machine.AgreeOn

variable {N : String → Prop} {b₁ b₂ m₁ m₂ : Machine} (h : AgreeOn N b₁ b₂ m₁ m₂)
include h

theorem tick : AgreeOn N b₁ b₂ m₁.tick m₂.tick := by
  obtain ⟨_, _, h₁, h₂⟩ := h.added
  exact ⟨h.calls.tick, h.environment, _, _, ⟨h₁.sink, h₁.warnings⟩, ⟨h₂.sink, h₂.warnings⟩⟩

theorem commit (place : Location) {effect₁ effect₂ : Effect} (he : effect₁.AgreeOn N effect₂) :
    AgreeOn N b₁ b₂ (m₁.commit place effect₁) (m₂.commit place effect₂) := by
  obtain ⟨_, _, h₁, h₂⟩ := h.added
  have hadds₁ := h₁.trans (m₁.adds_commit place effect₁)
  have hadds₂ := h₂.trans (m₂.adds_commit place effect₂)
  have hcalls := h.calls
  cases he with
  | become henv => exact ⟨⟨hcalls.1, hcalls.2, hcalls.3, hcalls.4⟩, henv, _, _, hadds₁, hadds₂⟩
  | print line =>
      exact ⟨⟨hcalls.1, hcalls.2, hcalls.3, hcalls.4⟩, h.environment, _, _, hadds₁, hadds₂⟩
  | warn fault =>
      exact ⟨⟨hcalls.1, hcalls.2, hcalls.3, hcalls.4⟩, h.environment, _, _, hadds₁, hadds₂⟩

/-- Variables put in the place of the caller's agree on all names. -/
theorem enter (env : Environment) :
    AgreeOn (fun _ => True) b₁ b₂ (m₁.enter env) (m₂.enter env) := by
  obtain ⟨_, _, h₁, h₂⟩ := h.added
  exact ⟨⟨h.calls.limits, h.calls.routines, congrArg (· + 1) h.calls.depth, h.calls.steps⟩,
    fun _ _ => rfl, _, _, ⟨h₁.sink, h₁.warnings⟩, ⟨h₂.sink, h₂.warnings⟩⟩

theorem leave {N' : String → Prop} {env₁ env₂ : Environment} (henv : env₁.AgreeOn N' env₂) :
    AgreeOn N' b₁ b₂ (m₁.leave env₁) (m₂.leave env₂) := by
  obtain ⟨_, _, h₁, h₂⟩ := h.added
  exact ⟨⟨h.calls.limits, h.calls.routines, congrArg (· - 1) h.calls.depth, h.calls.steps⟩,
    henv, _, _, ⟨h₁.sink, h₁.warnings⟩, ⟨h₂.sink, h₂.warnings⟩⟩

end Machine.AgreeOn

/-- The variables decide the same about a task whose names they agree on, unless
it is an action. -/
theorem Task.decision_congr {N : String → Prop} {env₁ env₂ : Environment} {t : Task}
    (ht : t.Over (Operation.Within N)) (h : env₁.AgreeOn N env₂)
    (hact : ∀ place action, t ≠ .dispatch (.act place action)) :
    t.decision env₁ = t.decision env₂ := by
  match t with
  | .block [] | .block (_ :: _) | .operation _ | .times 0 _ _ | .times (_ + 1) _ _
  | .dispatch (.whilst ..) | .dispatch (.call ..) => rfl
  | .dispatch (.act place action) => exact absurd rfl (hact place action)
  | .dispatch (.choose place condition thenBlock elseBlock) =>
      rw [decision, decision, Expr.evalCondition_congr h ht.mentions]
  | .dispatch (.times place count body) =>
      rw [decision, decision, Expr.evalCount_congr h ht.mentions]
  | .whilst place condition body =>
      rw [decision, decision, Expr.evalCondition_congr h ht.mentions]

/-- The same task over the names, on machines that agree on them. -/
def agreement (b₁ b₂ : Machine) : Simulation (String → Prop) where
  Places := Eq
  Tasks N t t' := t = t' ∧ t.Over (Operation.Within N)
  Machines N := Machine.AgreeOn N b₁ b₂
  Effects := Effect.AgreeOn

theorem agreement_sound (b₁ b₂ : Machine) : (agreement b₁ b₂).Sound where
  decision {N t t' m m'} ht hm := by
    obtain ⟨rfl, ht⟩ := ht
    by_cases hact : ∃ place action, t = .dispatch (.act place action)
    · -- Only here the two sides may differ, in the variables that the effects leave behind.
      obtain ⟨place, action, rfl⟩ := hact
      have heffect : Effect.SameResult N (action.effect m.environment)
          (action.effect m'.environment) :=
        Action.sameResult_effect hm.environment ht.mentions
      rw [Task.decision, Task.decision]
      generalize action.effect m.environment = x₁ at heffect
      generalize action.effect m'.environment = x₂ at heffect
      cases heffect with
      | error fault => exact .keep (.failure (Diagnostic.moved_mk rfl fault))
      | ok h => exact .commit rfl h
    · rw [Task.decision_congr ht hm.environment fun place action h => hact ⟨place, action, h⟩]
      exact Simulation.decisions_self _ (fun _ => rfl)
        (fun _ hleaves => ⟨rfl, (Task.part_of_decision hleaves).over (inherited_within N) ht⟩)
        (Effect.agreeOn_self N)
  exhausted hm := hm.calls.exhausted
  tick hm := hm.tick
  commit {N place place' effect effect' m m'} hm hplace h := by
    cases hplace
    exact hm.commit place h
  call {N place place' name arguments m m'} ht hm := by
    have hargs : ∀ e ∈ arguments, e.eval m.environment = e.eval m'.environment :=
      fun e he => Expr.eval_congr hm.environment fun x hx =>
        Operation.Within.mentions ht.2 x ⟨e, he, hx⟩
    rw [hm.calls.prepareCall_congr name hargs]
    cases m'.prepareCall name arguments with
    | error fault => exact .refused fault
    | ok prepared =>
        -- The bodies start with equal variables, so all names may be mentioned there.
        have hbody : (Task.block prepared.1.body).Over (Operation.Within fun _ => True) :=
          fun _ _ _ _ _ _ => trivial
        exact .prepared (fun _ => True) ⟨rfl, hbody⟩ (hm.enter _) fun hn =>
          hn.leave hm.environment

/-- **A run depends on the names it mentions, and on no others.**  Two machines
may differ in their logs and in their variables. If these agree on the names that
a block mentions, its runs end alike, after equally many steps, and add the same
lines and warnings; the variables still agree on those names, and all others are
in each run as they were. -/
theorem run_depends_on_mentioned_names {operations : List Operation} {m₁ m₂ : Machine}
    (hlimits : m₁.limits = m₂.limits) (hroutines : m₁.routines = m₂.routines)
    (hdepth : m₁.depth = m₂.depth) (hsteps : m₁.steps = m₂.steps)
    (henv : ∀ x, Mentioned operations x → m₁.environment.get? x = m₂.environment.get? x)
    (fuel : Nat) :
    Outcome.Rel
      (fun r₁ m₁' r₂ m₂' => r₁ = r₂ ∧ m₁'.steps = m₂'.steps ∧
        (∃ lines notes, m₁.Adds lines notes m₁' ∧ m₂.Adds lines notes m₂') ∧
        (∀ x, Mentioned operations x → m₁'.environment.get? x = m₂'.environment.get? x) ∧
        ∀ x, ¬ Mentioned operations x →
          m₁'.environment.get? x = m₁.environment.get? x ∧
          m₂'.environment.get? x = m₂.environment.get? x)
      (m₁.runBlock fuel operations) (m₂.runBlock fuel operations) := by
  have hstart : Machine.AgreeOn (Mentioned operations) m₁ m₂ m₁ m₂ :=
    ⟨⟨hlimits, hroutines, hdepth, hsteps⟩, henv, [], #[], .nothing rfl rfl, .nothing rfl rfl⟩
  have hkept {m m' : Machine} {r : Option Diagnostic} (h : m.runBlock fuel operations = .ended r m')
      {x : String} (hx : ¬ Mentioned operations x) :
      m'.environment.get? x = m.environment.get? x :=
    (Runs.of_run (t := .block operations) h).get?_of_not_target fun hop htarget =>
      hx ⟨_, hop, Action.mentions_of_target htarget⟩
  refine (Simulation.run (agreement_sound m₁ m₂) fuel
    ⟨rfl, Task.over_within_mentioned operations⟩ hstart).imp ?_
  rintro r₁ m₁' r₂ m₂' h₁ h₂ ⟨hr, hm⟩
  exact ⟨Diagnostic.eq_of_rel_moved hr, hm.calls.steps, hm.added, hm.environment,
    fun x hx => ⟨hkept h₁ hx, hkept h₂ hx⟩⟩

/-- The second machine has another variable, whose name nothing mentions. The
block warns about a name, then declares it, and fails in a call that asks for it. -/
theorem run_depends_on_mentioned_names_peeking :
    let operations : List Operation :=
      [.choose (.ofRoot "if") (.variable "x")
          [.act (.ofRoot "then") (.assign "y" (.variable "x"))] [],
        .act (.ofRoot "declare") (.declare "y" (.variable "x")),
        .call (.ofRoot "main") "show" [.variable "x"]]
    let m₁ := { Machine.start ⟨2, some 9⟩ .silent with
      routines := peekingRoutines, environment := .ofList [("x", .bool true)] }
    let m₂ := { m₁ with
      sink := .emptyBuffer, environment := m₁.environment.declare "z" (.string "secret") }
    let d : Diagnostic := ⟨.undefinedVariable "y", some (.ofRoot "peek")⟩
    (∀ x, Mentioned operations x → m₁.environment.get? x = m₂.environment.get? x) ∧
    ∃ m₁' m₂', m₁.runBlock 20 operations = .ended (some d) m₁' ∧
      m₂.runBlock 20 operations = .ended (some d) m₂' ∧ m₁'.steps = m₂'.steps ∧
      (∃ lines notes, m₁.Adds lines notes m₁' ∧ m₂.Adds lines notes m₂') ∧
      (∀ x, Mentioned operations x → m₁'.environment.get? x = m₂'.environment.get? x) ∧
      ∀ x, ¬ Mentioned operations x →
        m₁'.environment.get? x = m₁.environment.get? x ∧
        m₂'.environment.get? x = m₂.environment.get? x := by
  intro operations m₁ m₂ d
  have hunmentioned : ¬ Mentioned operations "z" := by
    simp [operations, Operation.Mentions, Operation.blocks, Action.Mentions, Expr.Mentions]
  have henv : ∀ x, Mentioned operations x →
      m₁.environment.get? x = m₂.environment.get? x := by
    intro x hx
    have hne : x ≠ "z" := fun h => hunmentioned (h ▸ hx)
    rw [Environment.get?_declare, if_neg hne]
  have hrun : m₁.runBlock 20 operations = .ended (some d) _ := rfl
  have hlimits : m₁.limits = m₂.limits := rfl
  obtain ⟨r, m₂', hrun₂, rfl, hrest⟩ :=
    (run_depends_on_mentioned_names hlimits rfl rfl rfl henv 20).ended hrun
  exact ⟨henv, _, m₂', hrun, hrun₂, hrest⟩

end JsonScript
