import JsonScript.Proofs.Logs
import Mathlib.Data.List.Forall2

/-!
# Places do not matter

An operation carries its place for the sake of diagnostics only. Two blocks that
are the same but for their places (`Operation.Moved`) run alike, on machines whose
routines are the same but for their places too: what they do to the variables,
what they print and how many steps they take is equal, and their diagnostics are
the same but for the places.

Which places are exchanged for which is any relation.

## Main results

* `blockMoved_self` — a block whose places may stay.
* `decisions_moved` — decisions do not depend on places.
* `BlockMoved.run`, `BlockMoved.run_beside` — nor do runs.
-/

namespace JsonScript

variable {ρ : Location → Location → Prop}

/-! ## The same code at other places -/

/-- The same operation with related places, and so at every depth. -/
inductive Operation.Moved (ρ : Location → Location → Prop) : Operation → Operation → Prop where
  | act {place place' : Location} (hplace : ρ place place') (action : Action) :
      Moved ρ (.act place action) (.act place' action)
  | choose {place place' : Location} (hplace : ρ place place') (condition : Expr)
      {thenBlock thenBlock' elseBlock elseBlock' : List Operation}
      (hthen : List.Forall₂ (Moved ρ) thenBlock thenBlock')
      (helse : List.Forall₂ (Moved ρ) elseBlock elseBlock') :
      Moved ρ (.choose place condition thenBlock elseBlock)
        (.choose place' condition thenBlock' elseBlock')
  | times {place place' : Location} (hplace : ρ place place') (count : Expr)
      {body body' : List Operation} (hbody : List.Forall₂ (Moved ρ) body body') :
      Moved ρ (.times place count body) (.times place' count body')
  | whilst {place place' : Location} (hplace : ρ place place') (condition : Expr)
      {body body' : List Operation} (hbody : List.Forall₂ (Moved ρ) body body') :
      Moved ρ (.whilst place condition body) (.whilst place' condition body')
  | call {place place' : Location} (hplace : ρ place place') (name : String)
      (arguments : List Expr) : Moved ρ (.call place name arguments) (.call place' name arguments)

/-- The same block with related places. -/
abbrev BlockMoved (ρ : Location → Location → Prop) : List Operation → List Operation → Prop :=
  List.Forall₂ (Operation.Moved ρ)

theorem Operation.Moved.place {op op' : Operation} (h : op.Moved ρ op') : ρ op.place op'.place := by
  cases h <;> assumption

/-- A block in which every place may stay is the same block. -/
theorem blockMoved_self (block : List Operation) (h : ∀ op, Occurs op block → ρ op.place op.place) :
    BlockMoved ρ block block :=
  match block with
  | [] => .nil
  | op :: rest =>
      have hplace : ρ op.place op.place := h op (.here List.mem_cons_self)
      have inner {inner : List Operation} (hinner : inner ∈ op.blocks) :
          ∀ o, Occurs o inner → ρ o.place o.place := fun o ho =>
        h o (.inside List.mem_cons_self hinner ho)
      have hrest := blockMoved_self rest fun o ho => h o (ho.mono (List.subset_cons_self op rest))
      match op with
      | .act _ action => .cons (.act hplace action) hrest
      | .choose _ condition thenBlock elseBlock =>
          have hthen := blockMoved_self thenBlock (inner List.mem_cons_self)
          have helse := blockMoved_self elseBlock (inner (List.mem_cons_of_mem _ List.mem_cons_self))
          .cons (.choose hplace condition hthen helse) hrest
      | .times _ count body =>
          .cons (.times hplace count (blockMoved_self body (inner List.mem_cons_self))) hrest
      | .whilst _ condition body =>
          .cons (.whilst hplace condition (blockMoved_self body (inner List.mem_cons_self))) hrest
      | .call _ name arguments => .cons (.call hplace name arguments) hrest
termination_by sizeOf block

/-- The same task with related places. -/
inductive Task.Moved (ρ : Location → Location → Prop) : Task → Task → Prop where
  | block {operations operations' : List Operation} (h : BlockMoved ρ operations operations') :
      Moved ρ (.block operations) (.block operations')
  | operation {op op' : Operation} (h : op.Moved ρ op') : Moved ρ (.operation op) (.operation op')
  | dispatch {op op' : Operation} (h : op.Moved ρ op') : Moved ρ (.dispatch op) (.dispatch op')
  | times (rounds : Nat) {place place' : Location} (hplace : ρ place place')
      {body body' : List Operation} (hbody : BlockMoved ρ body body') :
      Moved ρ (.times rounds place body) (.times rounds place' body')
  | whilst {place place' : Location} (hplace : ρ place place') (condition : Expr)
      {body body' : List Operation} (hbody : BlockMoved ρ body body') :
      Moved ρ (.whilst place condition body) (.whilst place' condition body')

/-- The same parameters, and the same body with related places. -/
structure Routine.Moved (ρ : Location → Location → Prop) (r r' : Routine) : Prop where
  parameters : r.parameters = r'.parameters
  body : BlockMoved ρ r.body r'.body

/-- The same names are defined, as the same routines with related places. -/
def RoutineTable.Moved (ρ : Location → Location → Prop) (t t' : RoutineTable) : Prop :=
  ∀ name, Option.Rel (Routine.Moved ρ) (t.routines.get? name) (t'.routines.get? name)

/-! ## Machines -/

/-- The two machines have the same routines but for their places, and differ else
in their warnings only: they have added the same lines, and the same warnings
with related places, to what the first two had logged. -/
structure Machine.Moved (ρ : Location → Location → Prop) (b b' m m' : Machine) : Prop where
  limits : m.limits = m'.limits
  environment : m.environment = m'.environment
  routines : m.routines.Moved ρ m'.routines
  depth : m.depth = m'.depth
  steps : m.steps = m'.steps
  added : ∃ lines notes notes', b.Adds lines notes m ∧ b'.Adds lines notes' m' ∧
    List.Forall₂ (Diagnostic.Moved ρ) notes.toList notes'.toList

namespace Machine.Moved

variable {b b' m m' : Machine} (h : Moved ρ b b' m m')
include h

theorem exhausted : m.exhausted? = m'.exhausted? :=
  Machine.exhausted?_congr h.limits h.steps

theorem tick : Moved ρ b b' m.tick m'.tick := by
  obtain ⟨_, _, _, ha, ha', hnotes⟩ := h.added
  exact ⟨h.limits, h.environment, h.routines, h.depth, congrArg (· + 1) h.steps,
    _, _, _, ⟨ha.sink, ha.warnings⟩, ⟨ha'.sink, ha'.warnings⟩, hnotes⟩

theorem enter (env : Environment) : Moved ρ b b' (m.enter env) (m'.enter env) := by
  obtain ⟨_, _, _, ha, ha', hnotes⟩ := h.added
  exact ⟨h.limits, rfl, h.routines, congrArg (· + 1) h.depth, h.steps,
    _, _, _, ⟨ha.sink, ha.warnings⟩, ⟨ha'.sink, ha'.warnings⟩, hnotes⟩

theorem leave (env : Environment) : Moved ρ b b' (m.leave env) (m'.leave env) := by
  obtain ⟨_, _, _, ha, ha', hnotes⟩ := h.added
  exact ⟨h.limits, rfl, h.routines, congrArg (· - 1) h.depth, h.steps,
    _, _, _, ⟨ha.sink, ha.warnings⟩, ⟨ha'.sink, ha'.warnings⟩, hnotes⟩

theorem commit {place place' : Location} (hplace : ρ place place') (effect : Effect) :
    Moved ρ b b' (m.commit place effect) (m'.commit place' effect) := by
  obtain ⟨lines, notes, notes', ha, ha', hnotes⟩ := h.added
  have hmore : List.Forall₂ (Diagnostic.Moved ρ) (effect.notes place).toList
      (effect.notes place').toList := by
    cases effect with
    | become env => exact .nil
    | print line => exact .nil
    | warn fault => exact .cons (Diagnostic.moved_mk hplace fault) .nil
  have hadded : ∃ lines notes notes', b.Adds lines notes (m.commit place effect) ∧
      b'.Adds lines notes' (m'.commit place' effect) ∧
        List.Forall₂ (Diagnostic.Moved ρ) notes.toList notes'.toList :=
    ⟨_, _, _, ha.trans (m.adds_commit place effect), ha'.trans (m'.adds_commit place' effect),
      by simpa using List.rel_append hnotes hmore⟩
  cases effect with
  | become env => exact ⟨h.limits, rfl, h.routines, h.depth, h.steps, hadded⟩
  | print line => exact ⟨h.limits, h.environment, h.routines, h.depth, h.steps, hadded⟩
  | warn fault => exact ⟨h.limits, h.environment, h.routines, h.depth, h.steps, hadded⟩

end Machine.Moved

theorem RoutineTable.Moved.find {t t' : RoutineTable} (h : t.Moved ρ t') (name : String) :
    (∃ fault, t.find name = .error fault ∧ t'.find name = .error fault) ∨
      ∃ r r', t.find name = .ok r ∧ t'.find name = .ok r' ∧ r.Moved ρ r' := by
  have hname := h name
  rw [RoutineTable.find, RoutineTable.find]
  generalize t.routines.get? name = x at hname
  generalize t'.routines.get? name = x' at hname
  cases hname with
  | none => exact .inl ⟨_, rfl, rfl⟩
  | some hr => exact .inr ⟨_, _, rfl, rfl, hr⟩

/-! ## Runs -/

/-- The same code at other places. -/
def moving (ρ : Location → Location → Prop) (b b' : Machine) : Simulation Unit where
  Places := ρ
  Tasks _ := Task.Moved ρ
  Machines _ := Machine.Moved ρ b b'
  Effects _ := Eq

/-- The variables decide the same about a task at other places. -/
theorem decisions_moved (b b' : Machine) (env : Environment) {t t' : Task} (h : t.Moved ρ t') :
    (moving ρ b b').Decisions () (t.decision env) (t'.decision env) := by
  cases h with
  | block h =>
      cases h with
      | nil => exact .keep .nothing
      | cons hop hrest => exact .keep (.seq (.operation hop) (.block hrest))
  | operation h => exact .count h.place (.task (.dispatch h))
  | dispatch h =>
      cases h with
      | act hplace action =>
          rw [Task.decision, Task.decision]
          cases action.effect env with
          | ok effect => exact .commit hplace rfl
          | error fault => exact .keep (.failure (Diagnostic.moved_mk hplace fault))
      | choose hplace condition hthen helse =>
          rw [Task.decision, Task.decision]
          rcases condition.evalCondition env with fault | (_ | _)
          · exact .keep (.failure (Diagnostic.moved_mk hplace fault))
          · exact .keep (.task (.block helse))
          · exact .keep (.task (.block hthen))
      | times hplace count hbody =>
          rw [Task.decision, Task.decision]
          cases count.evalCount env with
          | ok n => exact .keep (.task (.times n hplace hbody))
          | error fault => exact .keep (.failure (Diagnostic.moved_mk hplace fault))
      | whilst hplace condition hbody => exact .keep (.task (.whilst hplace condition hbody))
      | call hplace name arguments => exact .call hplace name arguments
  | times rounds hplace hbody =>
      cases rounds with
      | zero => exact .keep .nothing
      | succ rounds => exact .count hplace (.seq (.block hbody) (.times rounds hplace hbody))
  | whilst hplace condition hbody =>
      rw [Task.decision, Task.decision]
      rcases condition.evalCondition env with fault | (_ | _)
      · exact .keep (.failure (Diagnostic.moved_mk hplace fault))
      · exact .keep .nothing
      · exact .count hplace (.seq (.block hbody) (.whilst hplace condition hbody))

theorem moving_sound (b b' : Machine) : (moving ρ b b').Sound where
  decision {_ t t' m m'} ht hm := by
    rw [hm.environment]
    exact decisions_moved b b' _ ht
  exhausted hm := hm.exhausted
  tick hm := hm.tick
  commit {_ place place' effect effect' m m'} hm hplace h := by
    cases h
    exact hm.commit hplace effect
  call {_ place place' name arguments m m'} _ hm := by
    rw [Machine.prepareCall, Machine.prepareCall, hm.limits, hm.depth, hm.environment]
    rcases hm.routines.find name with ⟨fault, h, h'⟩ | ⟨r, r', h, h', hr⟩
    · rw [h, h']
      exact .refused fault
    · simp only [h, h', hr.parameters]
      split
      · exact .refused _
      split
      · exact .refused _
      · cases Expr.evalAll m'.environment arguments with
        | error fault => exact .refused fault
        | ok vs =>
            refine .prepared () (.block hr.body) (hm.enter _) fun hn => ?_
            rw [hm.environment]
            exact hn.leave _

/-- The same block at other places runs in the same way, but for the places. -/
theorem BlockMoved.run {operations operations' : List Operation}
    (h : BlockMoved ρ operations operations') {b b' m m' : Machine}
    (hm : Machine.Moved ρ b b' m m') (fuel : Nat) :
    Outcome.Rel (fun r n r' n' => Option.Rel (Diagnostic.Moved ρ) r r' ∧ Machine.Moved ρ b b' n n')
      (m.runBlock fuel operations) (m'.runBlock fuel operations') :=
  Simulation.run (moving_sound b b') fuel (s := ()) (.block h) hm

/-! ## Machines that differ in their warnings -/

theorem Machine.withoutWarnings_eq_iff {m m' : Machine} :
    m.withoutWarnings = m'.withoutWarnings ↔
      m.limits = m'.limits ∧ m.environment = m'.environment ∧ m.routines = m'.routines ∧
        m.sink = m'.sink ∧ m.depth = m'.depth ∧ m.steps = m'.steps := by
  cases m
  cases m'
  simp [Machine.withoutWarnings]

/-- The run noted these warnings besides those of the machine that it started on. -/
def Machine.Notes (m n : Machine) (notes : List Diagnostic) : Prop :=
  n.warnings.toList = m.warnings.toList ++ notes

/-- On machines that differ in their warnings only, and with routines that may
keep their places, a block and the same block at other places end on such machines
again, with diagnostics that are the same but for the places. -/
theorem BlockMoved.run_beside {operations operations' : List Operation}
    (h : BlockMoved ρ operations operations') {m m' : Machine}
    (hm : m.withoutWarnings = m'.withoutWarnings) (hself : m.routines.Moved ρ m.routines)
    (fuel : Nat) :
    Outcome.Rel
      (fun r n r' n' => Option.Rel (Diagnostic.Moved ρ) r r' ∧
        n.withoutWarnings = n'.withoutWarnings ∧
        ∃ notes notes', m.Notes n notes ∧ m'.Notes n' notes' ∧
          List.Forall₂ (Diagnostic.Moved ρ) notes notes')
      (m.runBlock fuel operations) (m'.runBlock fuel operations') := by
  obtain ⟨hlimits, henvironment, hroutines, hsink, hdepth, hsteps⟩ :=
    Machine.withoutWarnings_eq_iff.1 hm
  have hstart : Machine.Moved ρ m m' m m' :=
    ⟨hlimits, henvironment, hroutines ▸ hself, hdepth, hsteps, [], #[], #[], .nothing rfl rfl,
      .nothing rfl rfl, .nil⟩
  refine (h.run hstart fuel).imp ?_
  rintro r n r' n' ho ho' ⟨hr, hn⟩
  obtain ⟨lines, notes, notes', ha, ha', hnotes⟩ := hn.added
  have hframe := (Runs.of_run (t := .block operations) ho).sameFrame
  have hframe' := (Runs.of_run (t := .block operations') ho').sameFrame
  refine ⟨hr, Machine.withoutWarnings_eq_iff.2 ⟨hn.limits, hn.environment, ?_, ?_, hn.depth,
    hn.steps⟩, notes.toList, notes'.toList, ?_, ?_, hnotes⟩
  · rw [hframe.routines, hroutines, hframe'.routines]
  · rw [ha.sink, hsink, ha'.sink]
  · rw [Machine.Notes, ha.warnings, Array.toList_append]
  · rw [Machine.Notes, ha'.warnings, Array.toList_append]

end JsonScript
