import JsonScript.Proofs.Calls
import JsonScript.Proofs.Frame

/-!
# What a run comes to

`Runs` sees a run from its end, so it says nothing about a run that has none.
This module follows a run from its start. A task leads to the tasks that its
plan leaves to do (`Leads`), and a run reaches what it is led to in any number
of steps (`Reaches`). Both count the calls that were entered and not left.

A lead is taken apart once. It goes to a part of the task's own syntax
(`Task.Part`), on a machine that counted a step or did nothing, or else into
the body of a routine. Facts about a single lead are then splits over `Part`,
which has a constructor for each way in which a task contains another, and
facts about what a run reaches are inductions over leads.

Well-founded induction over leads is how runs are shown to end: a run can only
go on for ever if no measure goes down with every lead.

## Main results

* `Leads.part_or_call` — all that a task can lead to.
* `Leads.deeper`, `Reaches.deeper` — limits and routines stay, the depth counts
  open calls.
* `Leads.occurs` — what is run stands in the task or in a routine.
* `Reaches.over` — what blocks inherit from their operation is had by all that a
  run comes to.
* `Runs.rel_of_reached` — what holds of every plan on the way, and survives a
  call, holds from the start of a run to its end.
* `Runs.exists_of_measure` — tasks end if a measure goes down.
-/

namespace JsonScript

/-! ## Leads -/

/-- On its way to an end, the first task on its machine comes to do the second
one on the machine it has by then. The number is that of calls entered, none or
one. -/
inductive Leads : Nat → Task → Machine → Task → Machine → Prop where
  | go {t t' : Task} {m m₁ : Machine} (plan : m.plan t = .go (.task t') m₁) :
      Leads 0 t m t' m₁
  | first {t t₁ t₂ : Task} {m m₁ : Machine} (plan : m.plan t = .go (.seq t₁ t₂) m₁) :
      Leads 0 t m t₁ m₁
  | second {t t₁ t₂ : Task} {m m₁ m₂ : Machine} (plan : m.plan t = .go (.seq t₁ t₂) m₁)
      (done : Runs t₁ m₁ none m₂) : Leads 0 t m t₂ m₂
  | call {t : Task} {m : Machine} {body : List Operation} {environment : Environment}
      (plan : m.plan t = .call body environment) :
      Leads 1 t m (.block body) (m.enter environment)

/-- A run of the first task comes to do the second one, with this many calls
open. -/
inductive Reaches (t : Task) (m : Machine) : Nat → Task → Machine → Prop where
  | start : Reaches t m 0 t m
  | lead {calls entered : Nat} {t₁ t₂ : Task} {m₁ m₂ : Machine}
      (reached : Reaches t m calls t₁ m₁) (lead : Leads entered t₁ m₁ t₂ m₂) :
      Reaches t m (calls + entered) t₂ m₂

/-! ## Parts of tasks -/

/-- The second task is part of what the first one leaves to do, as far as its
syntax tells. -/
inductive Task.Part : Task → Task → Prop where
  | operation (op : Operation) (rest : List Operation) :
      Part (.block (op :: rest)) (.operation op)
  | rest (op : Operation) (rest : List Operation) : Part (.block (op :: rest)) (.block rest)
  | dispatch (op : Operation) : Part (.operation op) (.dispatch op)
  | thenBlock (place : Location) (condition : Expr) (thenBlock elseBlock : List Operation) :
      Part (.dispatch (.choose place condition thenBlock elseBlock)) (.block thenBlock)
  | elseBlock (place : Location) (condition : Expr) (thenBlock elseBlock : List Operation) :
      Part (.dispatch (.choose place condition thenBlock elseBlock)) (.block elseBlock)
  | times (rounds : Nat) (place : Location) (count : Expr) (body : List Operation) :
      Part (.dispatch (.times place count body)) (.times rounds place body)
  | whilst (place : Location) (condition : Expr) (body : List Operation) :
      Part (.dispatch (.whilst place condition body)) (.whilst place condition body)
  | round (rounds : Nat) (place : Location) (body : List Operation) :
      Part (.times (rounds + 1) place body) (.block body)
  | rounds (rounds : Nat) (place : Location) (body : List Operation) :
      Part (.times (rounds + 1) place body) (.times rounds place body)
  | body (place : Location) (condition : Expr) (body : List Operation) :
      Part (.whilst place condition body) (.block body)
  | again (place : Location) (condition : Expr) (body : List Operation) :
      Part (.whilst place condition body) (.whilst place condition body)

/-- The task is one of those that are left to do. -/
def Left.Has (t : Task) : Left → Prop
  | .task t' => t = t'
  | .seq first rest => t = first ∨ t = rest
  | .nothing | .failure _ => False

/-- The task is one of those that a decision leaves to do. -/
def Decision.Leaves (t : Task) : Decision → Prop
  | .keep left | .count _ left => left.Has t
  | .commit .. | .call .. => False

/-- A decision leaves parts of its task. -/
theorem Task.part_of_decision {t t' : Task} {env : Environment}
    (h : (t.decision env).Leaves t') : t.Part t' := by
  revert h
  fun_cases Task.decision env t
  all_goals intro h
  -- Two tasks are left.
  case case2 op rest =>
    rcases h with rfl | rfl
    · exact .operation op rest
    · exact .rest op rest
  case case14 rounds place body =>
    rcases h with rfl | rfl
    · exact .round rounds place body
    · exact .rounds rounds place body
  case case17 place condition body _ =>
    rcases h with rfl | rfl
    · exact .body place condition body
    · exact .again place condition body
  -- One task is left, or none.
  all_goals cases h
  case case3 => exact .dispatch _
  case case6 => exact .thenBlock ..
  case case7 => exact .elseBlock ..
  case case9 => exact .times ..
  case case11 => exact .whilst ..

/-- A plan that leaves a task to do has counted a step, or has done nothing. -/
theorem Machine.leaves_of_plan {t t' : Task} {left : Left} {m m₁ : Machine}
    (h : m.plan t = .go left m₁) (ht : left.Has t') :
    t.decision m.environment = .keep left ∧ m₁ = m ∨
      (∃ place, t.decision m.environment = .count place left) ∧ m.tick.exhausted? = none ∧
        m₁ = m.tick := by
  cases Machine.goes_of_plan h with
  | keep decided => exact .inl ⟨decided, rfl⟩
  | count decided admitted => exact .inr ⟨⟨_, decided⟩, admitted, rfl⟩
  | commit | exhausted | refused => cases ht

theorem Machine.part_of_plan {t t' : Task} {left : Left} {m m₁ : Machine}
    (h : m.plan t = .go left m₁) (ht : left.Has t') : t.Part t' := by
  have hleaves : (t.decision m.environment).Leaves t' := by
    rcases Machine.leaves_of_plan h ht with ⟨hd, -⟩ | ⟨⟨place, hd⟩, -⟩
    · rw [hd]
      exact ht
    · rw [hd]
      exact ht
  exact Task.part_of_decision hleaves

theorem Task.eq_call_of_decision {t : Task} {env : Environment} {place : Location}
    {name : String} {arguments : List Expr} (h : t.decision env = .call place name arguments) :
    t = .dispatch (.call place name arguments) := by
  revert h
  fun_cases Task.decision env t
  all_goals
    intro h
    cases h
  rfl

/-- Only a call plans to run a body, and only a call that is prepared. -/
theorem Machine.prepareCall_of_plan {t : Task} {m : Machine} {body : List Operation}
    {environment : Environment} (h : m.plan t = .call body environment) :
    ∃ place name arguments routine, t = .dispatch (.call place name arguments) ∧
      m.prepareCall name arguments = .ok (routine, environment) ∧ body = routine.body := by
  rw [Machine.plan] at h
  cases hd : t.decision m.environment with
  | keep left =>
      rw [hd] at h
      cases h
  | commit place effect =>
      rw [hd] at h
      cases h
  | count place left =>
      rw [hd, Machine.follow_count] at h
      cases h
  | call place name arguments =>
      rw [hd, Machine.follow] at h
      cases hc : m.prepareCall name arguments with
      | error fault =>
          rw [hc] at h
          cases h
      | ok prepared =>
          obtain ⟨routine, environment'⟩ := prepared
          rw [hc] at h
          cases h
          exact ⟨place, name, arguments, routine, Task.eq_call_of_decision hd, hc, rfl⟩

/-- A call is prepared only if its routine is defined and the depth is below the
limit. -/
theorem Machine.of_prepareCall {m : Machine} {name : String} {arguments : List Expr}
    {routine : Routine} {environment : Environment}
    (h : m.prepareCall name arguments = .ok (routine, environment)) :
    m.routines.find name = .ok routine ∧ m.depth < m.limits.maxDepth := by
  obtain ⟨found, -, room, -⟩ := Machine.prepareCall_eq_ok_iff.1 h
  exact ⟨found, room⟩

/-! ## One lead -/

/-- A task leads to its parts, and a call leads into the body of its routine. -/
theorem Leads.part_or_call {calls : Nat} {t t' : Task} {m m' : Machine}
    (h : Leads calls t m t' m') :
    calls = 0 ∧ t.Part t' ∨
      calls = 1 ∧ ∃ place name arguments routine environment,
        t = .dispatch (.call place name arguments) ∧
          m.prepareCall name arguments = .ok (routine, environment) ∧
          t' = .block routine.body ∧ m' = m.enter environment := by
  cases h with
  | go hp => exact .inl ⟨rfl, Machine.part_of_plan hp rfl⟩
  | first hp => exact .inl ⟨rfl, Machine.part_of_plan hp (.inl rfl)⟩
  | second hp _ => exact .inl ⟨rfl, Machine.part_of_plan hp (.inr rfl)⟩
  | call hp =>
      obtain ⟨place, name, arguments, routine, ht, hprepared, hbody⟩ :=
        Machine.prepareCall_of_plan hp
      exact .inr ⟨rfl, place, name, arguments, routine, _, ht, hprepared, hbody ▸ rfl, rfl⟩

/-- The second machine has the same limits and routines as the first, and this
many active calls more. -/
structure Machine.Deeper (calls : Nat) (m m' : Machine) : Prop where
  limits : m'.limits = m.limits
  routines : m'.routines = m.routines
  depth : m'.depth = m.depth + calls

theorem Machine.SameFrame.deeper {m m' : Machine} (h : m.SameFrame m') : m.Deeper 0 m' :=
  ⟨h.limits, h.routines, h.depth⟩

/-- Only a call that is entered changes the depth, and it does so by one. -/
theorem Leads.deeper {calls : Nat} {t t' : Task} {m m' : Machine}
    (h : Leads calls t m t' m') : m.Deeper calls m' := by
  cases h with
  | go hp => exact (Machine.SameFrame.of_plan hp).deeper
  | first hp => exact (Machine.SameFrame.of_plan hp).deeper
  | second hp hr => exact ((Machine.SameFrame.of_plan hp).trans hr.sameFrame).deeper
  | call hp => exact ⟨rfl, rfl, rfl⟩

theorem Reaches.deeper {calls : Nat} {t t' : Task} {m m' : Machine}
    (h : Reaches t m calls t' m') : m.Deeper calls m' := by
  induction h with
  | start => exact ⟨rfl, rfl, rfl⟩
  | @lead calls entered t₁ t₂ m₁ m₂ _ hl ih =>
      have hd := hl.deeper
      refine ⟨hd.limits.trans ih.limits, hd.routines.trans ih.routines, ?_⟩
      rw [hd.depth, ih.depth, Nat.add_assoc]

/-! ## Code

The operations that a task can come to are written in it, at some depth, or in
the body of a routine. -/

/-- The blocks of an operation. -/
def Operation.blocks : Operation → List (List Operation)
  | .choose _ _ thenBlock elseBlock => [thenBlock, elseBlock]
  | .times _ _ body => [body]
  | .whilst _ _ body => [body]
  | .act .. | .call .. => []

/-- The operation stands in the block, at any depth. -/
inductive Occurs (op : Operation) : List Operation → Prop where
  | here {block : List Operation} (h : op ∈ block) : Occurs op block
  | inside {block inner : List Operation} {outer : Operation} (houter : outer ∈ block)
      (hinner : inner ∈ outer.blocks) (h : Occurs op inner) : Occurs op block

theorem not_occurs_nil (op : Operation) : ¬ Occurs op [] := by
  intro h
  cases h with
  | here h => cases h
  | inside h => cases h

theorem Occurs.mono {op : Operation} {block larger : List Operation} (h : Occurs op block)
    (hsub : block ⊆ larger) : Occurs op larger := by
  cases h with
  | here h => exact .here (hsub h)
  | inside houter hinner h => exact .inside (hsub houter) hinner h

theorem Occurs.of_mem {op outer : Operation} {block : List Operation} (h : Occurs op [outer])
    (houter : outer ∈ block) : Occurs op block :=
  h.mono (List.cons_subset.2 ⟨houter, List.nil_subset block⟩)

/-- What stands in a block is its first operation, stands in that, or stands in
the rest. -/
theorem occurs_cons_iff {op first : Operation} {rest : List Operation} :
    Occurs op (first :: rest) ↔
      op = first ∨ (∃ block ∈ first.blocks, Occurs op block) ∨ Occurs op rest := by
  constructor
  · intro h
    cases h with
    | here h => exact (List.mem_cons.1 h).imp_right fun h => .inr (.here h)
    | inside houter hinner h =>
        rcases List.mem_cons.1 houter with rfl | houter
        · exact .inr (.inl ⟨_, hinner, h⟩)
        · exact .inr (.inr (.inside houter hinner h))
  · rintro (rfl | ⟨block, hblock, h⟩ | h)
    · exact .here List.mem_cons_self
    · exact .inside List.mem_cons_self hblock h
    · exact h.mono (List.subset_cons_self first rest)

/-- The operations that a task is written with. -/
def Task.code : Task → List Operation
  | .block operations => operations
  | .operation op => [op]
  | .dispatch op => [op]
  | .times _ _ body => body
  | .whilst place condition body => [.whilst place condition body]

theorem Task.Part.occurs {t t' : Task} (h : t.Part t') {op : Operation}
    (ho : Occurs op t'.code) : Occurs op t.code := by
  have inner {outer : Operation} {block : List Operation} (hb : block ∈ outer.blocks)
      (h : Occurs op block) : Occurs op [outer] := .inside List.mem_cons_self hb h
  cases h with
  | operation o rest => exact ho.mono (List.cons_subset_cons o (List.nil_subset rest))
  | rest o rest => exact ho.mono (List.subset_cons_self o rest)
  | dispatch | whilst | rounds | round | again => exact ho
  | thenBlock | times | body => exact inner List.mem_cons_self ho
  | elseBlock => exact inner (List.mem_cons_of_mem _ List.mem_cons_self) ho

/-- What a task leads to is written in the task or in a routine. -/
theorem Leads.occurs {calls : Nat} {t t' : Task} {m m' : Machine}
    (h : Leads calls t m t' m') {op : Operation} (ho : Occurs op t'.code) :
    Occurs op t.code ∨
      ∃ name routine, m.routines.find name = .ok routine ∧ Occurs op routine.body := by
  rcases h.part_or_call with
    ⟨-, hpart⟩ | ⟨-, _, name, _, routine, _, -, hprepared, rfl, -⟩
  · exact .inl (hpart.occurs ho)
  · exact .inr ⟨name, routine, (Machine.of_prepareCall hprepared).1, ho⟩

/-- An operation in a block of one that occurs occurs too. -/
theorem Occurs.inner {op outer : Operation} {block inner : List Operation}
    (h : Occurs outer block) (hinner : inner ∈ outer.blocks) (ho : op ∈ inner) :
    Occurs op block := by
  induction h with
  | here h => exact .inside h hinner (.here ho)
  | inside houter hblock _ ih => exact .inside houter hblock ih

/-- A property of operations that passes on to the operations in their blocks. -/
def Inherited (S : Operation → Prop) : Prop :=
  ∀ op, S op → ∀ block ∈ op.blocks, ∀ inner ∈ block, S inner

/-- The task is to run operations with the property. The rounds left of a
repetition are part of the operation that they were counted for. -/
def Task.Over (S : Operation → Prop) : Task → Prop
  | .block operations => ∀ op ∈ operations, S op
  | .operation op | .dispatch op => S op
  | .times _ place body => ∃ count, S (.times place count body)
  | .whilst place condition body => S (.whilst place condition body)

section Over

variable {S : Operation → Prop} (hS : Inherited S)
include hS

theorem Task.Part.over {t t' : Task} (h : t.Part t') (ht : t.Over S) : t'.Over S := by
  cases h with
  | operation op rest => exact ht op List.mem_cons_self
  | rest op rest => exact fun o ho => ht o (List.mem_cons_of_mem _ ho)
  | dispatch | whilst | rounds | again => exact ht
  | times rounds place count body => exact ⟨count, ht⟩
  | thenBlock | body => exact hS _ ht _ List.mem_cons_self
  | elseBlock => exact hS _ ht _ (List.mem_cons_of_mem _ List.mem_cons_self)
  | round =>
      obtain ⟨count, ht⟩ := ht
      exact hS _ ht _ List.mem_cons_self

/-- A run that starts over operations with the property comes to no others,
except through calls of routines that are not made of such operations. -/
theorem Reaches.over {calls : Nat} {t t' : Task} {m m' : Machine} (ht : t.Over S)
    (hroutines : 0 < calls → ∀ name routine, m.routines.find name = .ok routine →
      ∀ op ∈ routine.body, S op)
    (h : Reaches t m calls t' m') : t'.Over S := by
  induction h with
  | start => exact ht
  | @lead calls entered t₁ t₂ m₁ m₂ hreached hlead ih =>
      have ht₁ := ih fun hcalls => hroutines (Nat.lt_of_lt_of_le hcalls (Nat.le_add_right ..))
      rcases hlead.part_or_call with
        ⟨-, hpart⟩ | ⟨rfl, _, name, _, routine, _, -, hprepared, rfl, -⟩
      · exact hpart.over hS ht₁
      · have hfind := (Machine.of_prepareCall hprepared).1
        rw [hreached.deeper.routines] at hfind
        exact hroutines (Nat.succ_pos calls) name routine hfind

end Over

/-! ## Reached plans -/

section Reached

variable {t₀ : Task} {m₀ : Machine}

/-- What holds of every plan that a run comes to, and survives a call, holds
from the start of the run to its end. -/
theorem Runs.rel_of_reached {R : Machine → Machine → Prop}
    (trans : ∀ {m₁ m₂ m₃}, R m₁ m₂ → R m₂ m₃ → R m₁ m₃)
    (goes : ∀ {calls : Nat} {t : Task} {left : Left} {m m' : Machine},
      Reaches t₀ m₀ calls t m → m.Goes t left m' → R m m')
    (call : ∀ {m m' : Machine} (environment : Environment),
      R (m.enter environment) m' → R m (m'.leave m.environment))
    {m' : Machine} {r : Option Diagnostic} (h : Runs t₀ m₀ r m') : R m₀ m' := by
  suffices hrel : ∀ {t m r m'}, Runs t m r m' → ∀ {calls}, Reaches t₀ m₀ calls t m → R m m' from
    hrel h .start
  intro t m r m' h
  induction h with
  | finish hp => exact fun hre => goes hre (Machine.goes_of_plan hp)
  | fail hp => exact fun hre => goes hre (Machine.goes_of_plan hp)
  | go hp _ ih =>
      exact fun hre => trans (goes hre (Machine.goes_of_plan hp)) (ih (hre.lead (.go hp)))
  | stop hp _ ih =>
      exact fun hre => trans (goes hre (Machine.goes_of_plan hp)) (ih (hre.lead (.first hp)))
  | seq hp hr₁ _ ih₁ ih₂ =>
      intro calls hre
      have h₁ := ih₁ (hre.lead (.first hp))
      have h₂ := ih₂ (hre.lead (.second hp hr₁))
      exact trans (goes hre (Machine.goes_of_plan hp)) (trans h₁ h₂)
  | call hp _ ih => exact fun hre => call _ (ih (hre.lead (.call hp)))

/-- A run that fails comes to a plan that fails, with the same diagnostic. -/
theorem Runs.exists_failure {m' : Machine} {d : Diagnostic} (h : Runs t₀ m₀ (some d) m') :
    ∃ calls t m m₁, Reaches t₀ m₀ calls t m ∧ m.plan t = .go (.failure d) m₁ := by
  suffices hfails : ∀ {t m r m'}, Runs t m r m' → r = some d → ∀ {calls},
      Reaches t₀ m₀ calls t m →
        ∃ calls t m m₁, Reaches t₀ m₀ calls t m ∧ m.plan t = .go (.failure d) m₁ from
    hfails h rfl .start
  intro t m r m' h
  induction h with
  | finish => exact nofun
  | fail hp =>
      intro hr calls hre
      cases hr
      exact ⟨_, _, _, _, hre, hp⟩
  | go hp _ ih => exact fun hr _ hre => ih hr (hre.lead (.go hp))
  | stop hp _ ih => exact fun hr _ hre => ih hr (hre.lead (.first hp))
  | seq hp hr₁ _ _ ih₂ => exact fun hr _ hre => ih₂ hr (hre.lead (.second hp hr₁))
  | call hp _ ih => exact fun hr _ hre => ih hr (hre.lead (.call hp))

end Reached

/-! ## Ending -/

section Measure

variable {α : Type} {rel : α → α → Prop} {P : Task → Machine → Prop}

/-- Tasks end if a measure goes down with every lead. -/
theorem Runs.exists_of_measure (wf : WellFounded rel) (measure : Task → Machine → α)
    (down : ∀ {calls : Nat} {t t' : Task} {m m' : Machine}, P t m → Leads calls t m t' m' →
      P t' m' ∧ rel (measure t' m') (measure t m))
    {t : Task} {m : Machine} (h : P t m) : ∃ r m', Runs t m r m' := by
  induction hx : measure t m using wf.induction generalizing t m with
  | _ x ih =>
      subst hx
      have ends {calls : Nat} {t' : Task} {m₁ : Machine} (hl : Leads calls t m t' m₁) :
          ∃ r m', Runs t' m₁ r m' := ih _ (down h hl).2 (down h hl).1 rfl
      rcases hp : m.plan t with ⟨_ | d | t' | ⟨t₁, t₂⟩, m₁⟩ | ⟨body, environment⟩
      · exact ⟨_, _, .finish hp⟩
      · exact ⟨_, _, .fail hp⟩
      · obtain ⟨r, m', hr⟩ := ends (.go hp)
        exact ⟨r, m', .go hp hr⟩
      · obtain ⟨r₁, m₂, hr₁⟩ := ends (.first hp)
        cases r₁ with
        | some d => exact ⟨_, _, .stop hp hr₁⟩
        | none =>
            obtain ⟨r, m', hr⟩ := ends (.second hp hr₁)
            exact ⟨r, m', .seq hp hr₁ hr⟩
      · obtain ⟨r, m', hr⟩ := ends (.call hp)
        exact ⟨r, _, .call hp hr⟩

end Measure

end JsonScript
