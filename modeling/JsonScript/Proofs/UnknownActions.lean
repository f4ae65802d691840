import JsonScript.Proofs.Effects
import JsonScript.Proofs.Simulation

/-!
# Unknown actions do nothing but warn

An action that nobody knows warns about its key, and that is all. So it can be left
out of a program wherever it stands, in the main block, in blocks inside, and in
routines, and no run is any different but for these warnings. This is said of
machines without a step limit, as an unknown action counts a step like any other.

With actions left out, a run takes fewer steps and less fuel, so the two programs
follow each other at a pace of their own. The full program runs an unknown action
where the pruned one runs an empty block. Conversely, the pruned program goes on to
its next operation, and the full one runs all unknown actions on the way to it.

## Main results

* `not_occurs_unknown_pruneBlock` — pruned blocks have no unknown actions.
* `pruning_follows`, `flip_pruning_follows` — the two programs follow each other.
* `run_prune` — their runs.
-/

namespace JsonScript

/-! ## Pruned programs -/

mutual

/-- The operation without the unknown actions in its blocks; nothing, if it is one
itself. -/
def Operation.prune : Operation → List Operation
  | .act _ (.unknown _) => []
  | .act place action => [.act place action]
  | .choose place condition thenBlock elseBlock =>
      [.choose place condition (pruneBlock thenBlock) (pruneBlock elseBlock)]
  | .times place count body => [.times place count (pruneBlock body)]
  | .whilst place condition body => [.whilst place condition (pruneBlock body)]
  | .call place name arguments => [.call place name arguments]

/-- The block without unknown actions, at any depth. -/
def pruneBlock : List Operation → List Operation
  | [] => []
  | op :: rest => op.prune ++ pruneBlock rest

end

/-- The routine without unknown actions. -/
def Routine.prune (r : Routine) : Routine := { r with body := pruneBlock r.body }

/-- The routines without unknown actions. -/
def RoutineTable.prune (t : RoutineTable) : RoutineTable := ⟨t.routines.map Routine.prune⟩

/-- The program without unknown actions. -/
def Program.prune (p : Program) : Program :=
  { p with routines := p.routines.prune, main := pruneBlock p.main }

/-- The second operation is the first one without unknown actions. -/
inductive Operation.Pruned : Operation → Operation → Prop where
  | act (place : Location) {action : Action} (known : ∀ key, action ≠ .unknown key) :
      Pruned (.act place action) (.act place action)
  | choose (place : Location) (condition : Expr) (thenBlock elseBlock : List Operation) :
      Pruned (.choose place condition thenBlock elseBlock)
        (.choose place condition (pruneBlock thenBlock) (pruneBlock elseBlock))
  | times (place : Location) (count : Expr) (body : List Operation) :
      Pruned (.times place count body) (.times place count (pruneBlock body))
  | whilst (place : Location) (condition : Expr) (body : List Operation) :
      Pruned (.whilst place condition body) (.whilst place condition (pruneBlock body))
  | call (place : Location) (name : String) (arguments : List Expr) :
      Pruned (.call place name arguments) (.call place name arguments)

/-- An operation is an unknown action, or something is left of it. -/
theorem Operation.unknown_or_pruned (op : Operation) :
    (∃ place key, op = .act place (.unknown key)) ∨ ∃ op', op.Pruned op' ∧ op.prune = [op'] := by
  cases op with
  | act place action =>
      cases action with
      | unknown key => exact .inl ⟨place, key, rfl⟩
      | declare | assign | update | print => exact .inr ⟨_, .act place nofun, rfl⟩
  | choose => exact .inr ⟨_, .choose .., rfl⟩
  | times => exact .inr ⟨_, .times .., rfl⟩
  | whilst => exact .inr ⟨_, .whilst .., rfl⟩
  | call => exact .inr ⟨_, .call .., rfl⟩

theorem pruneBlock_unknown (place : Location) (key : String) (rest : List Operation) :
    pruneBlock (.act place (.unknown key) :: rest) = pruneBlock rest := rfl

theorem pruneBlock_cons {op op' : Operation} (h : op.prune = [op']) (rest : List Operation) :
    pruneBlock (op :: rest) = op' :: pruneBlock rest := by
  rw [pruneBlock, h, List.singleton_append]

/-- A pruned block has no unknown actions. -/
theorem not_occurs_unknown_pruneBlock (place : Location) (key : String)
    (block : List Operation) : ¬ Occurs (.act place (.unknown key)) (pruneBlock block) := by
  cases block with
  | nil => exact not_occurs_nil _
  | cons op rest =>
      have hrest := not_occurs_unknown_pruneBlock place key rest
      rcases op.unknown_or_pruned with ⟨place', key', rfl⟩ | ⟨op', hop, hprune⟩
      · exact hrest
      rw [pruneBlock_cons hprune, occurs_cons_iff]
      rintro (rfl | ⟨inner, hinner, h⟩ | h)
      · cases hop with
        | act _ known => exact known key rfl
      · cases hop with
        | act | call => cases hinner
        | choose _ _ thenBlock elseBlock =>
            simp only [Operation.blocks, List.mem_cons, List.not_mem_nil, or_false] at hinner
            rcases hinner with rfl | rfl
            · exact not_occurs_unknown_pruneBlock place key thenBlock h
            · exact not_occurs_unknown_pruneBlock place key elseBlock h
        | times _ _ body | whilst _ _ body =>
            cases List.mem_singleton.1 hinner
            exact not_occurs_unknown_pruneBlock place key body h
      · exact hrest h
termination_by sizeOf block

/-! ## Machines -/

/-- Whether a diagnostic is about an unknown action. -/
def Diagnostic.isAboutUnknown (d : Diagnostic) : Bool :=
  match d.fault with
  | .unknownOperation _ => true
  | _ => false

/-- The second machine runs without unknown actions what the first one runs, and
has noted no warnings about them. It may have counted other steps, and neither
machine has a limit on them. -/
structure Machine.Pruned (m n : Machine) : Prop where
  unlimited : m.limits.maxSteps = none
  limits : n.limits = m.limits
  environment : n.environment = m.environment
  routines : n.routines = m.routines.prune
  sink : n.sink = m.sink
  warnings : n.warnings = m.warnings.filter fun d => !d.isAboutUnknown
  depth : n.depth = m.depth

namespace Machine.Pruned

variable {m n : Machine} (h : m.Pruned n)
include h

theorem exhausted : m.exhausted? = n.exhausted? := by
  rw [Machine.exhausted?_of_unlimited h.unlimited,
    Machine.exhausted?_of_unlimited (h.limits ▸ h.unlimited)]

theorem tick_left : m.tick.Pruned n :=
  ⟨h.unlimited, h.limits, h.environment, h.routines, h.sink, h.warnings, h.depth⟩

theorem tick : m.tick.Pruned n.tick :=
  ⟨h.unlimited, h.limits, h.environment, h.routines, h.sink, h.warnings, h.depth⟩

/-- A warning about an unknown action is noted on the first side only. -/
theorem warn_left (key : String) (place : Location) :
    (m.warn (.unknownOperation key) place).Pruned n := by
  refine ⟨h.unlimited, h.limits, h.environment, h.routines, h.sink, ?_, h.depth⟩
  rw [h.warnings]
  simp [Machine.warn, Diagnostic.isAboutUnknown]

/-- Anything else is done on both sides. -/
theorem commit (place : Location) {effect : Effect}
    (known : ∀ key, effect ≠ .warn (.unknownOperation key)) :
    (m.commit place effect).Pruned (n.commit place effect) := by
  cases effect with
  | become env =>
      exact ⟨h.unlimited, h.limits, rfl, h.routines, h.sink, h.warnings, h.depth⟩
  | print line =>
      exact ⟨h.unlimited, h.limits, h.environment, h.routines,
        congrArg (Sink.println line) h.sink, h.warnings, h.depth⟩
  | warn fault =>
      refine ⟨h.unlimited, h.limits, h.environment, h.routines, h.sink, ?_, h.depth⟩
      have hkept : (⟨fault, some place⟩ : Diagnostic).isAboutUnknown = false := by
        cases fault with
        | unknownOperation key => exact absurd rfl (known key)
        | _ => rfl
      simp [Machine.commit, Machine.warn, h.warnings, hkept]

theorem enter (env : Environment) : (m.enter env).Pruned (n.enter env) :=
  ⟨h.unlimited, h.limits, rfl, h.routines, h.sink, h.warnings, congrArg (· + 1) h.depth⟩

theorem leave (env : Environment) : (m.leave env).Pruned (n.leave env) :=
  ⟨h.unlimited, h.limits, rfl, h.routines, h.sink, h.warnings, congrArg (· - 1) h.depth⟩

/-- The same calls can be made, of routines without unknown actions. -/
theorem prepareCall (name : String) (arguments : List Expr) :
    n.prepareCall name arguments =
      (m.prepareCall name arguments).map fun prepared => (prepared.1.prune, prepared.2) := by
  rw [Machine.prepareCall, Machine.prepareCall, h.routines, h.limits, h.depth, h.environment,
    RoutineTable.find, RoutineTable.find, RoutineTable.prune, NameMap.get?_map]
  cases m.routines.routines.get? name with
  | none => rfl
  | some r =>
      simp only [Option.map_some, Routine.prune]
      split
      · rfl
      split
      · rfl
      · cases Expr.evalAll m.environment arguments <;> rfl

end Machine.Pruned

/-- Only an unknown action warns of one. -/
theorem Action.unknown_of_effect {env : Environment} {action : Action} {key : String}
    (h : action.effect env = .ok (.warn (.unknownOperation key))) : action = .unknown key := by
  cases Action.makes_of_effect h
  rfl

/-! ## Tasks in step -/

/-- The second task is the first one without unknown actions, and it is no unknown
action that the first one starts with. -/
inductive Task.InStep : Task → Task → Prop where
  | nil : InStep (.block []) (.block [])
  | cons {op op' : Operation} (h : op.Pruned op') (rest : List Operation) :
      InStep (.block (op :: rest)) (.block (op' :: pruneBlock rest))
  | operation {op op' : Operation} (h : op.Pruned op') : InStep (.operation op) (.operation op')
  | dispatch {op op' : Operation} (h : op.Pruned op') : InStep (.dispatch op) (.dispatch op')
  | times (rounds : Nat) (place : Location) (body : List Operation) :
      InStep (.times rounds place body) (.times rounds place (pruneBlock body))
  | whilst (place : Location) (condition : Expr) (body : List Operation) :
      InStep (.whilst place condition body) (.whilst place condition (pruneBlock body))

/-- The second task is the first one without unknown actions. An unknown action
itself is as good as an empty block. -/
inductive Task.Pruned : Task → Task → Prop where
  | inStep {t t' : Task} (h : t.InStep t') : Pruned t t'
  | skip (place : Location) (key : String) (rest : List Operation) :
      Pruned (.block (.act place (.unknown key) :: rest)) (.block (pruneBlock rest))
  | operation (place : Location) (key : String) :
      Pruned (.operation (.act place (.unknown key))) (.block [])
  | dispatch (place : Location) (key : String) :
      Pruned (.dispatch (.act place (.unknown key))) (.block [])

theorem Task.pruned_block (operations : List Operation) :
    Pruned (.block operations) (.block (pruneBlock operations)) := by
  cases operations with
  | nil => exact .inStep .nil
  | cons op rest =>
      rcases op.unknown_or_pruned with ⟨place, key, rfl⟩ | ⟨op', hop, h⟩
      · exact .skip place key rest
      · rw [pruneBlock_cons h]
        exact .inStep (.cons hop rest)

/-- A program and the same without unknown actions. -/
def pruning : Simulation Unit where
  Places := Eq
  Tasks _ := Task.Pruned
  Machines _ := Machine.Pruned
  Effects _ effect effect' :=
    effect = effect' ∧ ∀ key, effect ≠ .warn (.unknownOperation key)

theorem pruning_coherent : pruning.Coherent where
  exhausted hm := hm.exhausted
  tick hm := hm.tick
  commit {_ place place' effect effect' m m'} hm hplace h := by
    cases hplace
    obtain ⟨rfl, known⟩ := h
    exact hm.commit place known
  call {_ place place' name arguments m m'} _ hm := by
    rw [hm.prepareCall]
    cases m.prepareCall name arguments with
    | error fault => exact .refused fault
    | ok prepared =>
        refine .prepared () (Task.pruned_block _) (hm.enter _) fun hn => ?_
        rw [hm.environment]
        exact hn.leave _

/-- The variables decide the same about a task in step. -/
theorem Task.InStep.decisions (env : Environment) {t t' : Task} (h : t.InStep t') :
    pruning.Decisions () (t.decision env) (t'.decision env) := by
  have failure (place : Location) (fault : Fault) :
      pruning.Decisions () (.keep (.failure ⟨fault, some place⟩))
        (.keep (.failure ⟨fault, some place⟩)) :=
    .keep (.failure (Diagnostic.moved_mk rfl fault))
  cases h with
  | nil => exact .keep .nothing
  | cons hop rest => exact .keep (.seq (.inStep (.operation hop)) (Task.pruned_block rest))
  | @operation op op' hop =>
      have hplace : op.place = op'.place := by cases hop <;> rfl
      exact .count hplace (.task (.inStep (.dispatch hop)))
  | dispatch hop =>
      cases hop with
      | @act place action known =>
          rw [Task.decision]
          cases he : action.effect env with
          | ok effect =>
              refine .commit rfl ⟨rfl, ?_⟩
              rintro key rfl
              exact known key (Action.unknown_of_effect he)
          | error fault => exact failure place fault
      | choose place condition thenBlock elseBlock =>
          rw [Task.decision, Task.decision]
          rcases condition.evalCondition env with fault | (_ | _)
          · exact failure place fault
          · exact .keep (.task (Task.pruned_block elseBlock))
          · exact .keep (.task (Task.pruned_block thenBlock))
      | times place count body =>
          rw [Task.decision, Task.decision]
          cases count.evalCount env with
          | ok rounds => exact .keep (.task (.inStep (.times rounds place body)))
          | error fault => exact failure place fault
      | whilst place condition body =>
          exact .keep (.task (.inStep (.whilst place condition body)))
      | call place name arguments => exact .call rfl name arguments
  | times rounds place body =>
      cases rounds with
      | zero => exact .keep .nothing
      | succ rounds =>
          exact .count rfl (.seq (Task.pruned_block body) (.inStep (.times rounds place body)))
  | whilst place condition body =>
      rw [Task.decision, Task.decision]
      rcases condition.evalCondition env with fault | (_ | _)
      · exact failure place fault
      · exact .keep .nothing
      · exact .count rfl
          (.seq (Task.pruned_block body) (.inStep (.whilst place condition body)))

/-- Tasks in step make corresponding plans. -/
theorem Task.InStep.plans {t t' : Task} {m n : Machine} (h : t.InStep t') (hm : m.Pruned n) :
    pruning.Plans () m n (m.plan t) (n.plan t') := by
  refine pruning_coherent.plans (s := ()) (.inStep h) hm ?_
  rw [hm.environment]
  exact h.decisions m.environment

/-! ## Tasks out of step -/

/-- The machine after an unknown action. -/
def Machine.passUnknown (m : Machine) (place : Location) (key : String) : Machine :=
  m.tick.warn (.unknownOperation key) place

theorem Machine.Pruned.passUnknown {m n : Machine} (h : m.Pruned n) (place : Location)
    (key : String) : (m.passUnknown place key).Pruned n :=
  h.tick_left.warn_left key place

theorem Runs.dispatch_unknown (m : Machine) (place : Location) (key : String) :
    Runs (.dispatch (.act place (.unknown key))) m none (m.warn (.unknownOperation key) place) :=
  Runs.act_iff.2 (.inr ⟨_, rfl, rfl, rfl⟩)

theorem Runs.operation_unknown {m : Machine} (h : m.limits.maxSteps = none) (place : Location)
    (key : String) :
    Runs (.operation (.act place (.unknown key))) m none (m.passUnknown place key) := by
  have hfree : m.tick.exhausted? = none := Machine.exhausted?_of_unlimited h
  exact Runs.operation_iff.2 (.inr ⟨hfree, Runs.dispatch_unknown m.tick place key⟩)

/-- The unknown actions that a block starts with can be run before the rest. -/
theorem Machine.Pruned.exists_rest {m n : Machine} (h : m.Pruned n)
    (operations : List Operation) :
    ∃ rest m₁, (Task.block rest).InStep (.block (pruneBlock operations)) ∧ m₁.Pruned n ∧
      ∀ r k, Runs (.block rest) m₁ r k → Runs (.block operations) m r k := by
  induction operations generalizing m with
  | nil => exact ⟨[], m, .nil, h, fun _ _ hr => hr⟩
  | cons op more ih =>
      rcases op.unknown_or_pruned with ⟨place, key, rfl⟩ | ⟨op', hop, hprune⟩
      · obtain ⟨rest, m₁, hstep, hm₁, hruns⟩ := ih (h.passUnknown place key)
        refine ⟨rest, m₁, hstep, hm₁, fun r k hr => ?_⟩
        exact Runs.block_cons_iff.2
          (.inr ⟨_, Runs.operation_unknown h.unlimited place key, hruns r k hr⟩)
      · rw [pruneBlock_cons hprune]
        exact ⟨op :: more, m, .cons hop more, h, fun _ _ hr => hr⟩

/-- The pruned program follows the full one. -/
theorem pruning_follows : pruning.Follows where
  plan {s t t' m n} ht hm := by
    cases ht with
    | inStep h => exact ⟨_, h.plans hm, fun _ _ => Runs.iff_plan.2⟩
    | skip place key rest =>
        refine ⟨.go (.seq (.block []) (.block (pruneBlock rest))) n,
          .go (.seq (.operation place key) (Task.pruned_block rest)) hm, ?_⟩
        rintro r k (⟨hr, hnil⟩ | ⟨n₁, hnil, hrest⟩)
        · exact absurd (Runs.block_nil_iff.1 hnil).1 hr
        · obtain ⟨-, rfl⟩ := Runs.block_nil_iff.1 hnil
          exact hrest
    | operation place key =>
        have hfree : m.tick.exhausted? = none := Machine.exhausted?_of_unlimited hm.unlimited
        refine ⟨.go (.task (.block [])) n, ?_, fun _ _ hr => hr⟩
        rw [Machine.plan, Task.decision, Machine.follow_count, hfree]
        exact .go (.task (.dispatch place key)) hm.tick_left
    | dispatch place key =>
        refine ⟨.go .nothing n, .go .nothing (hm.warn_left key place), ?_⟩
        rintro r k ⟨rfl, rfl⟩
        exact Runs.block_nil_iff.2 ⟨rfl, rfl⟩

/-- The full program follows the pruned one. -/
theorem flip_pruning_follows : pruning.flip.Follows where
  plan {s t' t n m} ht hm := by
    cases ht with
    | inStep h => exact ⟨_, (h.plans hm).flip, fun _ _ => Runs.iff_plan.2⟩
    | skip place key more =>
        obtain ⟨rest, m₁, hstep, hm₁, hruns⟩ :=
          Machine.Pruned.exists_rest hm (.act place (.unknown key) :: more)
        rw [pruneBlock_unknown] at hstep
        generalize pruneBlock more = pruned at hstep
        cases hstep with
        | nil =>
            refine ⟨.go .nothing m₁, .go .nothing hm₁, ?_⟩
            rintro r k ⟨rfl, rfl⟩
            exact hruns none k (Runs.block_nil_iff.2 ⟨rfl, rfl⟩)
        | @cons op op' hop rest =>
            exact ⟨.go (.seq (.operation op) (.block rest)) m₁,
              .go (.seq (.inStep (.operation hop)) (Task.pruned_block rest)) hm₁,
              fun r k hends => hruns r k (Runs.block_cons_iff.2 hends)⟩
    | operation place key =>
        refine ⟨.go .nothing (m.passUnknown place key),
          .go .nothing (Machine.Pruned.passUnknown hm place key), ?_⟩
        rintro r k ⟨rfl, rfl⟩
        exact Runs.operation_unknown (Machine.Pruned.unlimited hm) place key
    | dispatch place key =>
        refine ⟨.go .nothing (m.warn (.unknownOperation key) place),
          .go .nothing (Machine.Pruned.warn_left hm key place), ?_⟩
        rintro r k ⟨rfl, rfl⟩
        exact Runs.dispatch_unknown m place key

/-! ## Whole runs -/

theorem Machine.pruned_load {m : Machine} (h : m.limits.maxSteps = none) (p : Program) :
    (m.load p).Pruned (m.load p.prune) :=
  ⟨h, rfl, rfl, rfl, rfl, rfl, rfl⟩

/-- **Unknown actions are as good as absent.**  On a machine without a step limit, a
program ends exactly if it ends without its unknown actions. Then both end with the
same diagnostic if any, the same variables and the same output, and the warnings
are the same and in the same order, but for those about unknown actions. -/
theorem run_prune {m : Machine} (h : m.limits.maxSteps = none) (p : Program) :
    ((∃ fuel r n, m.run fuel p = .ended r n) ↔ ∃ fuel r n, m.run fuel p.prune = .ended r n) ∧
    ∀ (fuel fuel' : Nat) (r r' : Option Diagnostic) (n n' : Machine),
      m.run fuel p = .ended r n → m.run fuel' p.prune = .ended r' n' →
        r' = r ∧ n'.environment = n.environment ∧ n'.sink = n.sink ∧
          n'.warnings = n.warnings.filter fun d => !d.isAboutUnknown := by
  have hm := Machine.pruned_load h p
  have hmain := Task.pruned_block p.main
  refine ⟨⟨?_, ?_⟩, ?_⟩
  · rintro ⟨fuel, r, n, hrun⟩
    have hr := runs_main_iff.2 ⟨fuel, hrun⟩
    obtain ⟨r', n', hr', -⟩ := pruning_follows.runs (s := ()) hr hmain hm
    obtain ⟨fuel', hrun'⟩ := hr'.exists_run
    exact ⟨fuel', r', n', hrun'⟩
  · rintro ⟨fuel', r', n', hrun'⟩
    have hr' := runs_main_iff.2 ⟨fuel', hrun'⟩
    obtain ⟨r, n, hr, -⟩ := flip_pruning_follows.runs (s := ()) hr' hmain hm
    obtain ⟨fuel, hrun⟩ := hr.exists_run
    exact ⟨fuel, r, n, hrun⟩
  · intro fuel fuel' r r' n n' hrun hrun'
    have hr := runs_main_iff.2 ⟨fuel, hrun⟩
    have hr' := runs_main_iff.2 ⟨fuel', hrun'⟩
    obtain ⟨r₁, n₁, hr₁, hsame, hn⟩ := pruning_follows.runs (s := ()) hr hmain hm
    obtain ⟨rfl, rfl⟩ := hr₁.deterministic hr'
    exact ⟨(Diagnostic.eq_of_rel_moved hsame).symm, hn.environment, hn.sink, hn.warnings⟩

/-- Unknown actions in the main block, in the one round of a conditional repetition
and in a routine; besides them a warning that stays, and a failure at the end. -/
def unknownEverywhere : Program where
  bindings := [("go", .bool true)]
  routines := ⟨.ofList [("f", ⟨"f", ["a"],
    [.act (.ofRoot "f") (.unknown "hop"), .act (.ofRoot "f") (.print [.variable "a"])]⟩)]⟩
  main :=
    [.act (.ofRoot "main") (.unknown "skip"),
      .whilst (.ofRoot "while") (.variable "go")
        [.act (.ofRoot "body") (.unknown "jump"), .call (.ofRoot "body") "f" [.variable "go"],
          .act (.ofRoot "body") (.assign "go" (.not (.variable "go")))],
      .act (.ofRoot "main") (.assign "ghost" (.variable "go")),
      .act (.ofRoot "main") (.print [.variable "ghost"])]

theorem run_prune_unknownEverywhere :
    let m := Machine.start ⟨2, none⟩ .emptyBuffer
    let d : Diagnostic := ⟨.undefinedVariable "ghost", some (.ofRoot "main")⟩
    m.limits.maxSteps = none ∧
    (∃ fuel r n, m.run fuel unknownEverywhere.prune = .ended r n) ∧
    ∃ n n', m.run 20 unknownEverywhere = .ended (some d) n ∧ n.warnings.size = 4 ∧
      m.run 20 unknownEverywhere.prune = .ended (some d) n' ∧
      n'.environment = n.environment ∧ n'.sink = n.sink ∧ n'.sink.captured = "true\n" ∧
      n'.warnings = n.warnings.filter (fun d => !d.isAboutUnknown) ∧ n'.warnings.size = 1 := by
  intro m d
  obtain ⟨hends, hsame⟩ := run_prune (m := m) rfl unknownEverywhere
  have hrun : m.run 20 unknownEverywhere = .ended (some d) _ := rfl
  have hrun' : m.run 20 unknownEverywhere.prune = .ended (some d) _ := rfl
  obtain ⟨-, henv, hsink, hwarnings⟩ := hsame 20 20 _ _ _ _ hrun hrun'
  exact ⟨rfl, hends.1 ⟨20, _, _, hrun⟩, _, _, hrun, rfl, hrun', henv, hsink, rfl, hwarnings, rfl⟩

end JsonScript
