import JsonScript.Proofs.Effects
import JsonScript.Proofs.Reach

/-!
# What a run can change in the variables

Only actions change variables, and an action changes at most its target. Actions
that run inside a call change the variables of the call, and these are gone when
it is over. So a run changes the variables that it starts with by actions of its
own block only, those of routines left out: whatever each of these does to the
variables, if only it is reflexive and transitive, is what the run does to them.

What an action does is little: other names than its target keep what they are
bound to, no name gets lost, and only a declaration adds one
(`Environment.Changes`). That is then true of runs too.

## Main results

* `Runs.environment_rel` — from the actions of a block to its run.
* `Runs.get?_of_not_target` — a run changes none but the targets.
* `bindings_of_run` — what a run can change, keep and add.
-/

namespace JsonScript

/-- The name that an action may bind. -/
def Action.target? : Action → Option String
  | .declare name _ | .assign name _ | .update _ name _ => some name
  | .print _ | .unknown _ => none

theorem inherited_occurs (block : List Operation) : Inherited fun op => Occurs op block :=
  fun _ h _ hinner _ hop => h.inner hinner hop

/-- Outside calls, a run of a block comes to nothing but what occurs in it. -/
theorem Reaches.over_occurs {block : List Operation} {t : Task} {m m' : Machine}
    (h : Reaches (.block block) m 0 t m') : t.Over fun op => Occurs op block :=
  have start : (Task.block block).Over fun op => Occurs op block := fun _ hop => .here hop
  h.over (inherited_occurs block) start (absurd · (Nat.lt_irrefl 0))

/-- What the actions of a block do to the variables, if it is reflexive and
transitive, is done by a run of the block. The relation is followed at the depth
of the block only: deeper inside, the variables are those of a call. -/
theorem Runs.environment_rel {E : Environment → Environment → Prop} (refl : ∀ env, E env env)
    (trans : ∀ {env₁ env₂ env₃}, E env₁ env₂ → E env₂ env₃ → E env₁ env₃)
    {block : List Operation}
    (act : ∀ {place action}, Occurs (.act place action) block → ∀ {env env'},
      action.effect env = .ok (.become env') → E env env')
    {m m' : Machine} {r : Option Diagnostic} (h : Runs (.block block) m r m') :
    E m.environment m'.environment := by
  have hrel : m.SameFrame m' ∧ (m.depth = m.depth → E m.environment m'.environment) := by
    refine h.rel_of_reached (R := fun n n' =>
      n.SameFrame n' ∧ (n.depth = m.depth → E n.environment n'.environment)) ?_ ?_ ?_
    · rintro n₁ n₂ n₃ ⟨hf₁, h₁⟩ ⟨hf₂, h₂⟩
      exact ⟨hf₁.trans hf₂, fun hd => trans (h₁ hd) (h₂ (hf₁.depth.trans hd))⟩
    · intro calls t left n n' hreached hgoes
      -- At the depth of the block no call is open, so that the action occurs in the block.
      refine ⟨.of_move hgoes.move, fun hd => ?_⟩
      cases hgoes with
      | keep | count | exhausted | refused => exact refl _
      | @commit place effect decided =>
          obtain ⟨action, rfl, he⟩ := Task.exists_action decided
          obtain rfl : calls = 0 := by
            have hdepth := hreached.deeper.depth
            omega
          cases effect with
          | become env => exact act hreached.over_occurs he
          | print | warn => exact refl _
    · rintro n n' env ⟨hf, -⟩
      exact ⟨hf.leave, fun _ => refl _⟩
  exact hrel.2 rfl

/-! ## Kept, lost and new bindings -/

/-- The name is the target of an action in the block, at any depth. -/
def Writes (block : List Operation) (x : String) : Prop :=
  ∃ place action, Occurs (.act place action) block ∧ action.target? = some x

/-- The name is declared in the block, at any depth. -/
def Declares (block : List Operation) (x : String) : Prop :=
  ∃ place e, Occurs (.act place (.declare x e)) block

namespace Environment

theorem contains_declare (env : Environment) (name x : String) (v : Value) :
    (env.declare name v).contains x = (x == name || env.contains x) := by
  have hget := env.get?_declare name x v
  simp only [contains, NameMap.contains, get?] at hget ⊢
  rw [hget]
  by_cases hx : x = name <;> simp [hx]

/-- Environments that bind the same names to the same values are equal. -/
theorem ext_get? {env env' : Environment} (h : ∀ x, env.get? x = env'.get? x) : env = env' :=
  congrArg Environment.mk (NameMap.ext_get? h)

/-- The second environment came about by writing to some names, and by declaring
some of them. -/
structure Changes (written declared : String → Prop) (env env' : Environment) : Prop where
  /-- Other names are bound as they were, or unbound as they were. -/
  kept : ∀ x, ¬ written x → env'.get? x = env.get? x
  /-- Bound names are still bound. -/
  bound : ∀ x, env.contains x = true → env'.contains x = true
  /-- Names that came to be bound were declared. -/
  added : ∀ x, env.contains x = false → env'.contains x = true → declared x

namespace Changes

variable {written declared : String → Prop} {env env₁ env₂ env₃ : Environment}

theorem refl (env : Environment) : Changes written declared env env where
  kept _ _ := rfl
  bound _ h := h
  added x h h' := by
    rw [h] at h'
    cases h'

theorem trans (h₁ : Changes written declared env₁ env₂) (h₂ : Changes written declared env₂ env₃) :
    Changes written declared env₁ env₃ where
  kept x hx := (h₂.kept x hx).trans (h₁.kept x hx)
  bound x h := h₂.bound x (h₁.bound x h)
  added x h h' := by
    cases hx : env₂.contains x with
    | true => exact h₁.added x h hx
    | false => exact h₂.added x hx h'

theorem mono {written' declared' : String → Prop} (h : Changes written declared env₁ env₂)
    (hwritten : ∀ x, written x → written' x) (hdeclared : ∀ x, declared x → declared' x) :
    Changes written' declared' env₁ env₂ where
  kept x hx := h.kept x fun hwrite => hx (hwritten x hwrite)
  bound := h.bound
  added x hx hx' := hdeclared x (h.added x hx hx')

/-- Nothing was written, so nothing has changed. -/
theorem eq_of_not_written (h : Changes written declared env₁ env₂) (hnone : ∀ x, ¬ written x) :
    env₂ = env₁ :=
  ext_get? fun x => h.kept x (hnone x)

/-- Binding a name, which is declared unless it was bound. -/
theorem declare {name : String} (v : Value) (hwritten : written name)
    (h : env.contains name = true ∨ declared name) :
    Changes written declared env (env.declare name v) where
  kept x hx := by
    have hne : x ≠ name := fun heq => hx (heq ▸ hwritten)
    rw [get?_declare, if_neg hne]
  bound x hx := by
    rw [contains_declare, hx, Bool.or_true]
  added x hx hx' := by
    rw [contains_declare, hx, Bool.or_false, beq_iff_eq] at hx'
    subst hx'
    rcases h with hbound | hdeclared
    · rw [hx] at hbound
      cases hbound
    · exact hdeclared

end Changes

end Environment

/-- What an action that binds something does to the variables. -/
theorem Action.changes_of_effect {env env' : Environment} {action : Action}
    (h : action.effect env = .ok (.become env')) :
    env.Changes (fun x => action.target? = some x) (fun x => ∃ e, action = .declare x e) env' := by
  cases Action.makes_of_effect h with
  | declare name e v => exact .declare v rfl (.inr ⟨e, rfl⟩)
  | assign name e v bound => exact .declare v rfl (.inl bound)
  | update op name e v bound => exact .declare v rfl (.inl bound)

/-- What a run does to the variables. -/
theorem Runs.changes {block : List Operation} {m m' : Machine} {r : Option Diagnostic}
    (h : Runs (.block block) m r m') :
    m.environment.Changes (Writes block) (Declares block) m'.environment := by
  refine h.environment_rel .refl .trans fun {place action} hop {env env'} he => ?_
  refine (Action.changes_of_effect he).mono (fun x hx => ⟨place, action, hop, hx⟩) ?_
  rintro x ⟨e, rfl⟩
  exact ⟨place, e, hop⟩

/-- A run changes none but the targets of the actions in its block. -/
theorem Runs.get?_of_not_target {block : List Operation} {x : String}
    (hx : ∀ {place action}, Occurs (.act place action) block → action.target? ≠ some x)
    {m m' : Machine} {r : Option Diagnostic} (h : Runs (.block block) m r m') :
    m'.environment.get? x = m.environment.get? x :=
  h.changes.kept x fun ⟨_, _, hop, htarget⟩ => hx hop htarget

/-- What the run of an action does to the variables, and that an action which
warns does nothing to them. -/
theorem Runs.changes_of_act {place : Location} {action : Action} {m m' : Machine}
    {r : Option Diagnostic} (h : Runs (.operation (.act place action)) m r m') :
    m.environment.Changes (fun x => action.target? = some x)
        (fun x => ∃ e, action = .declare x e) m'.environment ∧
      (m'.warnings ≠ m.warnings → m'.environment = m.environment) := by
  rcases Runs.operation_iff.1 h with ⟨_, _, _, rfl⟩ | ⟨_, h⟩
  · exact ⟨.refl _, fun _ => rfl⟩
  rcases Runs.act_iff.1 h with ⟨_, _, _, rfl⟩ | ⟨effect, he, _, rfl⟩
  · exact ⟨.refl _, fun _ => rfl⟩
  cases effect with
  | become env => exact ⟨Action.changes_of_effect he, fun hw => absurd rfl hw⟩
  | print line => exact ⟨.refl _, fun _ => rfl⟩
  | warn fault => exact ⟨.refl _, fun _ => rfl⟩

/-- **What a run can change in the variables.**  However a run ends, names that
are no target of an action in its block are bound as before, bound names are
still bound, and names that came to be bound are declared in the block; routines
that it calls do not count. In particular, an assignment or an update changes
nothing but its target and binds no new name, an unknown operation changes
nothing, nor does an action that warns, nor a call. -/
theorem bindings_of_run :
    (∀ (fuel : Nat) (operations : List Operation) (m m' : Machine) (r : Option Diagnostic),
      m.runBlock fuel operations = .ended r m' →
        m.environment.Changes (Writes operations) (Declares operations) m'.environment) ∧
    (∀ (fuel : Nat) (place : Location) (action : Action) (m m' : Machine)
        (r : Option Diagnostic),
      m.runOperation fuel (.act place action) = .ended r m' →
        m.environment.Changes (fun x => action.target? = some x)
            (fun x => ∃ e, action = .declare x e) m'.environment ∧
          (m'.warnings ≠ m.warnings → m'.environment = m.environment)) ∧
    (∀ (fuel : Nat) (place : Location) (key : String) (m m' : Machine) (r : Option Diagnostic),
      m.runOperation fuel (.act place (.unknown key)) = .ended r m' →
        m'.environment = m.environment) ∧
    (∀ (fuel : Nat) (place : Location) (name : String) (arguments : List Expr)
        (m m' : Machine) (r : Option Diagnostic),
      m.runOperation fuel (.call place name arguments) = .ended r m' →
        m'.environment = m.environment) := by
  refine ⟨?_, ?_, ?_, ?_⟩
  · intro fuel operations m m' r h
    exact (Runs.of_run (t := .block operations) h).changes
  · intro fuel place action m m' r h
    exact (Runs.of_run (t := .operation (.act place action)) h).changes_of_act
  · intro fuel place key m m' r h
    have hchanges := (Runs.of_run (t := .operation (.act place (.unknown key))) h).changes_of_act.1
    exact hchanges.eq_of_not_written fun x => nofun
  · intro fuel place name arguments m m' r h
    exact Runs.environment_of_call (Runs.of_run (t := .operation (.call place name arguments)) h)

/-- A routine that declares a name of its own and then asks for one that nobody
has bound. -/
def declaringRoutines : RoutineTable := ⟨.ofList
  [("f", ⟨"f", [],
    [.act (.ofRoot "declare") (.declare "local" (.literal .null)),
      .act (.ofRoot "print") (.print [.variable "nobody"])]⟩)]⟩

/-- An assignment to a name that is not bound, a declaration inside a branch, an
assignment, and a call that fails before the last declaration. -/
theorem bindings_of_run_declaring :
    let m := { Machine.start ⟨2, some 9⟩ .silent with
      routines := declaringRoutines, environment := .ofList [("w", .null), ("x", .bool true)] }
    let ghost : Action := .assign "ghost" (.variable "x")
    let operations : List Operation :=
      [.act (.ofRoot "ghost") ghost,
        .choose (.ofRoot "if") (.variable "x")
          [.act (.ofRoot "then") (.declare "y" (.variable "x"))] [],
        .act (.ofRoot "assign") (.assign "x" (.literal (.bool false))),
        .call (.ofRoot "call") "f" [],
        .act (.ofRoot "last") (.declare "z" (.literal .null))]
    let d : Diagnostic := ⟨.undefinedVariable "nobody", some (.ofRoot "print")⟩
    (∃ m', m.runBlock 20 operations = .ended (some d) m' ∧
      m'.environment = .ofList [("w", .null), ("x", .bool false), ("y", .bool true)] ∧
      m.environment.Changes (Writes operations) (Declares operations) m'.environment) ∧
    (∃ m', m.runOperation 20 (.act (.ofRoot "ghost") ghost) = .ended none m' ∧
      m'.warnings ≠ m.warnings ∧ m'.environment = m.environment) ∧
    (∃ m', m.runOperation 20 (.act (.ofRoot "main") (.unknown "key")) = .ended none m' ∧
      m'.environment = m.environment) ∧
    ∃ m', m.runOperation 20 (.call (.ofRoot "call") "f" []) = .ended (some d) m' ∧
      m'.environment = m.environment := by
  intro m ghost operations d
  obtain ⟨hblock, hact, hunknown, hcall⟩ := bindings_of_run
  have hrun : ∃ m', m.runBlock 20 operations = .ended (some d) m' ∧
      m'.environment = .ofList [("w", .null), ("x", .bool false), ("y", .bool true)] :=
    ⟨_, rfl, rfl⟩
  obtain ⟨m', hrun, henv⟩ := hrun
  have hwarns : (m.warn (.undeclaredAssignment "ghost") (.ofRoot "ghost")).warnings ≠ m.warnings :=
    nofun
  refine ⟨⟨m', hrun, henv, hblock 20 operations m m' _ hrun⟩, ⟨_, rfl, hwarns, ?_⟩,
    ⟨_, rfl, ?_⟩, ⟨_, rfl, ?_⟩⟩
  · exact (hact 20 (.ofRoot "ghost") ghost m _ none rfl).2 hwarns
  · exact hunknown 20 (.ofRoot "main") "key" m _ none rfl
  · exact hcall 20 (.ofRoot "call") "f" [] m _ (some d) rfl

end JsonScript
