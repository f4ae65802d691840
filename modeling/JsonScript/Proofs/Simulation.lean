import JsonScript.Proofs.Reach

/-!
# Two runs side by side

Two tasks on two machines are compared plan by plan. A `Simulation` says when
places, tasks, machines and effects of the two sides correspond; it is sound if
corresponding tasks decide alike on corresponding machines, and machines keep
corresponding in whatever the decisions make them do (`Simulation.Sound`). Then
the two runs correspond to their ends, with the same fuel, so that one of them
ends exactly if the other one does.

The body of a call may be compared in other terms than the call itself. So what
corresponds depends on a scope. A call moves to an inner scope, and back.

Where the two sides take different numbers of steps, they cannot be compared with
the same fuel. Then one side may follow the other at its own pace
(`Simulation.Follows`), in one direction at a time.

## Main results

* `Simulation.plan` — corresponding tasks make corresponding plans.
* `Simulation.run` — and have corresponding outcomes.
* `Simulation.Follows.runs` — a run that ends is followed by one that ends alike.
-/

namespace JsonScript

/-! ## Diagnostics and outcomes -/

/-- The same fault at related places. -/
structure Diagnostic.Moved (ρ : Location → Location → Prop) (d d' : Diagnostic) : Prop where
  fault : d.fault = d'.fault
  location : Option.Rel ρ d.location d'.location

theorem Diagnostic.moved_mk {ρ : Location → Location → Prop} {place place' : Location}
    (h : ρ place place') (fault : Fault) :
    Diagnostic.Moved ρ ⟨fault, some place⟩ ⟨fault, some place'⟩ :=
  ⟨rfl, .some h⟩

theorem Diagnostic.Moved.flip {ρ : Location → Location → Prop} {d d' : Diagnostic}
    (h : d.Moved ρ d') : Diagnostic.Moved (fun place place' => ρ place' place) d' d := by
  obtain ⟨hfault, hlocation⟩ := h
  refine ⟨hfault.symm, ?_⟩
  generalize d.location = location at hlocation
  generalize d'.location = location' at hlocation
  cases hlocation with
  | some hplace => exact .some hplace
  | none => exact .none

theorem Diagnostic.eq_of_moved {d d' : Diagnostic} (h : d.Moved Eq d') : d = d' := by
  obtain ⟨fault, location⟩ := d
  obtain ⟨fault', location'⟩ := d'
  obtain ⟨rfl, hlocation⟩ := h
  cases hlocation with
  | some h => rw [h]
  | none => rfl

theorem Diagnostic.eq_of_rel_moved {r r' : Option Diagnostic}
    (h : Option.Rel (Diagnostic.Moved Eq) r r') : r = r' := by
  cases h with
  | some hd => rw [Diagnostic.eq_of_moved hd]
  | none => rfl

/-- Two runs have both ended, and in related ways, or both not. -/
inductive Outcome.Rel (Q : Option Diagnostic → Machine → Option Diagnostic → Machine → Prop) :
    Outcome → Outcome → Prop where
  | done {m m' : Machine} (h : Q none m none m') : Rel Q (.done m) (.done m')
  | failed {d d' : Diagnostic} {m m' : Machine} (h : Q (some d) m (some d') m') :
      Rel Q (.failed d m) (.failed d' m')
  | outOfFuel : Rel Q .outOfFuel .outOfFuel

namespace Outcome.Rel

variable {Q : Option Diagnostic → Machine → Option Diagnostic → Machine → Prop}
  {o o' : Outcome}

theorem imp {R : Option Diagnostic → Machine → Option Diagnostic → Machine → Prop}
    (h : Outcome.Rel Q o o') (hQ : ∀ r m r' m', o = .ended r m → o' = .ended r' m' →
      Q r m r' m' → R r m r' m') : Outcome.Rel R o o' := by
  cases h with
  | done h => exact .done (hQ none _ none _ rfl rfl h)
  | failed h => exact .failed (hQ (some _) _ (some _) _ rfl rfl h)
  | outOfFuel => exact .outOfFuel

theorem mono {R : Option Diagnostic → Machine → Option Diagnostic → Machine → Prop}
    (h : Outcome.Rel Q o o') (hQ : ∀ r m r' m', Q r m r' m' → R r m r' m') :
    Outcome.Rel R o o' :=
  h.imp fun r m r' m' _ _ => hQ r m r' m'

/-- The second run ends if the first one does. -/
theorem ended {r : Option Diagnostic} {m : Machine} (h : Outcome.Rel Q o o')
    (ho : o = .ended r m) : ∃ r' m', o' = .ended r' m' ∧ Q r m r' m' := by
  cases h with
  | done h =>
      obtain ⟨rfl, rfl⟩ := Outcome.eq_of_done_eq_ended ho
      exact ⟨none, _, rfl, h⟩
  | failed h =>
      obtain ⟨rfl, rfl⟩ := Outcome.eq_of_failed_eq_ended ho
      exact ⟨some _, _, rfl, h⟩
  | outOfFuel => exact absurd ho (Outcome.ended_ne_outOfFuel r m)

/-- The first run ends if the second one does. -/
theorem ended_left {r' : Option Diagnostic} {m' : Machine} (h : Outcome.Rel Q o o')
    (ho : o' = .ended r' m') : ∃ r m, o = .ended r m ∧ Q r m r' m' := by
  cases h with
  | done h =>
      obtain ⟨rfl, rfl⟩ := Outcome.eq_of_done_eq_ended ho
      exact ⟨none, _, rfl, h⟩
  | failed h =>
      obtain ⟨rfl, rfl⟩ := Outcome.eq_of_failed_eq_ended ho
      exact ⟨some _, _, rfl, h⟩
  | outOfFuel => exact absurd ho (Outcome.ended_ne_outOfFuel r' m')

end Outcome.Rel

/-! ## Simulations -/

/-- What corresponds on the two sides. -/
structure Simulation (Scope : Type) where
  Places : Location → Location → Prop
  Tasks : Scope → Task → Task → Prop
  Machines : Scope → Machine → Machine → Prop
  Effects : Scope → Effect → Effect → Prop

namespace Simulation

variable {Scope : Type} (sim : Simulation Scope)

/-- The same is left to do, with corresponding tasks. -/
inductive Lefts (s : Scope) : Left → Left → Prop where
  | nothing : Lefts s .nothing .nothing
  | failure {d d' : Diagnostic} (h : d.Moved sim.Places d') : Lefts s (.failure d) (.failure d')
  | task {t t' : Task} (h : sim.Tasks s t t') : Lefts s (.task t) (.task t')
  | seq {t₁ t₂ t₁' t₂' : Task} (first : sim.Tasks s t₁ t₁') (rest : sim.Tasks s t₂ t₂') :
      Lefts s (.seq t₁ t₂) (.seq t₁' t₂')

/-- The same is decided, at corresponding places. -/
inductive Decisions (s : Scope) : Decision → Decision → Prop where
  | keep {left left' : Left} (h : sim.Lefts s left left') : Decisions s (.keep left) (.keep left')
  | commit {place place' : Location} {effect effect' : Effect} (hplace : sim.Places place place')
      (h : sim.Effects s effect effect') :
      Decisions s (.commit place effect) (.commit place' effect')
  | count {place place' : Location} {left left' : Left} (hplace : sim.Places place place')
      (h : sim.Lefts s left left') : Decisions s (.count place left) (.count place' left')
  | call {place place' : Location} (hplace : sim.Places place place') (name : String)
      (arguments : List Expr) :
      Decisions s (.call place name arguments) (.call place' name arguments)

/-- The same call is refused, or bodies are prepared that correspond in an inner
scope, from which the machines come back to correspond again. -/
inductive Calls (s : Scope) (m m' : Machine) :
    Except Fault (Routine × Environment) → Except Fault (Routine × Environment) → Prop where
  | refused (fault : Fault) : Calls s m m' (.error fault) (.error fault)
  | prepared {r r' : Routine} {env env' : Environment} (inner : Scope)
      (body : sim.Tasks inner (.block r.body) (.block r'.body))
      (enter : sim.Machines inner (m.enter env) (m'.enter env'))
      (leave : ∀ {n n' : Machine}, sim.Machines inner n n' →
        sim.Machines s (n.leave m.environment) (n'.leave m'.environment)) :
      Calls s m m' (.ok (r, env)) (.ok (r', env'))

/-- Corresponding machines keep corresponding in whatever corresponding decisions
make them do. -/
structure Coherent : Prop where
  exhausted {s : Scope} {m m' : Machine} (hm : sim.Machines s m m') :
    m.exhausted? = m'.exhausted?
  tick {s : Scope} {m m' : Machine} (hm : sim.Machines s m m') :
    sim.Machines s m.tick m'.tick
  commit {s : Scope} {place place' : Location} {effect effect' : Effect} {m m' : Machine}
    (hm : sim.Machines s m m') (hplace : sim.Places place place')
    (h : sim.Effects s effect effect') :
    sim.Machines s (m.commit place effect) (m'.commit place' effect')
  call {s : Scope} {place place' : Location} {name : String} {arguments : List Expr}
    {m m' : Machine}
    (ht : sim.Tasks s (.dispatch (.call place name arguments))
      (.dispatch (.call place' name arguments))) (hm : sim.Machines s m m') :
    sim.Calls s m m' (m.prepareCall name arguments) (m'.prepareCall name arguments)

/-- Corresponding tasks decide alike on corresponding machines, and these keep
corresponding. -/
structure Sound : Prop extends sim.Coherent where
  decision {s : Scope} {t t' : Task} {m m' : Machine} (ht : sim.Tasks s t t')
    (hm : sim.Machines s m m') :
    sim.Decisions s (t.decision m.environment) (t'.decision m'.environment)

/-- What leaves tasks that correspond to themselves corresponds to itself. -/
theorem lefts_self {s : Scope} (hplaces : ∀ place, sim.Places place place) {left : Left}
    (htasks : ∀ t, left.Has t → sim.Tasks s t t) : sim.Lefts s left left := by
  cases left with
  | nothing => exact .nothing
  | failure d =>
      obtain ⟨fault, location⟩ := d
      cases location with
      | none => exact .failure ⟨rfl, .none⟩
      | some place => exact .failure (Diagnostic.moved_mk (hplaces place) fault)
  | task t => exact .task (htasks t rfl)
  | seq first rest => exact .seq (htasks first (.inl rfl)) (htasks rest (.inr rfl))

theorem decisions_self {s : Scope} (hplaces : ∀ place, sim.Places place place)
    {decision : Decision} (htasks : ∀ t, decision.Leaves t → sim.Tasks s t t)
    (heffects : ∀ effect, sim.Effects s effect effect) :
    sim.Decisions s decision decision := by
  cases decision with
  | keep left => exact .keep (lefts_self sim hplaces htasks)
  | commit place effect => exact .commit (hplaces place) (heffects effect)
  | count place left => exact .count (hplaces place) (lefts_self sim hplaces htasks)
  | call place name arguments => exact .call (hplaces place) name arguments

/-- Corresponding plans on two machines. -/
inductive Plans (s : Scope) (m m' : Machine) : Plan → Plan → Prop where
  | go {left left' : Left} {m₁ m₁' : Machine} (h : sim.Lefts s left left')
      (hm : sim.Machines s m₁ m₁') : Plans s m m' (.go left m₁) (.go left' m₁')
  | call {body body' : List Operation} {env env' : Environment} (inner : Scope)
      (hbody : sim.Tasks inner (.block body) (.block body'))
      (enter : sim.Machines inner (m.enter env) (m'.enter env'))
      (leave : ∀ {n n' : Machine}, sim.Machines inner n n' →
        sim.Machines s (n.leave m.environment) (n'.leave m'.environment)) :
      Plans s m m' (.call body env) (.call body' env')

/-- The two sides end alike. -/
def Ends (s : Scope) (r : Option Diagnostic) (m : Machine) (r' : Option Diagnostic)
    (m' : Machine) : Prop :=
  Option.Rel (Diagnostic.Moved sim.Places) r r' ∧ sim.Machines s m m'

variable {sim} {s : Scope} {t t' : Task} {m m' : Machine}

/-- From corresponding decisions to corresponding plans. -/
theorem Coherent.plans (hsim : sim.Coherent) (ht : sim.Tasks s t t') (hm : sim.Machines s m m')
    (hd : sim.Decisions s (t.decision m.environment) (t'.decision m'.environment)) :
    sim.Plans s m m' (m.plan t) (m'.plan t') := by
  rw [Machine.plan, Machine.plan]
  generalize hδ : t.decision m.environment = δ at hd
  generalize hδ' : t'.decision m'.environment = δ' at hd
  cases hd with
  | keep h => exact .go h hm
  | commit hplace h => exact .go .nothing (hsim.commit hm hplace h)
  | count hplace h =>
      rw [Machine.follow_count, Machine.follow_count, hsim.exhausted (hsim.tick hm)]
      refine .go ?_ (hsim.tick hm)
      cases m'.tick.exhausted? with
      | some fault => exact .failure (Diagnostic.moved_mk hplace fault)
      | none => exact h
  | call hplace name arguments =>
      rw [Task.eq_call_of_decision hδ, Task.eq_call_of_decision hδ'] at ht
      have hcall := hsim.call ht hm
      rw [Machine.follow, Machine.follow]
      generalize m.prepareCall name arguments = x at hcall
      generalize m'.prepareCall name arguments = x' at hcall
      cases hcall with
      | refused fault => exact .go (.failure (Diagnostic.moved_mk hplace fault)) hm
      | prepared inner body enter leave => exact .call inner body enter leave

section Sound

variable (hsim : sim.Sound)
include hsim

/-- Corresponding tasks make corresponding plans. -/
theorem plan (ht : sim.Tasks s t t') (hm : sim.Machines s m m') :
    sim.Plans s m m' (m.plan t) (m'.plan t') :=
  hsim.toCoherent.plans ht hm (hsim.decision ht hm)

/-- Corresponding tasks have corresponding outcomes. -/
theorem run (fuel : Nat) (ht : sim.Tasks s t t') (hm : sim.Machines s m m') :
    Outcome.Rel (sim.Ends s) (t.run fuel m) (t'.run fuel m') := by
  induction fuel generalizing s t t' m m' with
  | zero =>
      rw [Task.run_zero, Task.run_zero]
      exact .outOfFuel
  | succ fuel ih =>
      rw [Task.run_succ, Task.run_succ]
      have hp := plan hsim ht hm
      generalize m.plan t = p at hp
      generalize m'.plan t' = p' at hp
      cases hp with
      | go h hm₁ =>
          cases h with
          | nothing => exact .done ⟨.none, hm₁⟩
          | failure hd => exact .failed ⟨.some hd, hm₁⟩
          | task ht₁ => exact ih ht₁ hm₁
          | @seq t₁ t₂ t₁' t₂' first rest =>
              rw [Plan.carryOut, Plan.carryOut]
              have hfirst := ih first hm₁
              generalize t₁.run fuel _ = o at hfirst
              generalize t₁'.run fuel _ = o' at hfirst
              cases hfirst with
              | done h => exact ih rest h.2
              | failed h => exact .failed h
              | outOfFuel => exact .outOfFuel
      | @call body body' env env' inner hbody enter leave =>
          rw [Plan.carryOut, Plan.carryOut]
          have hinside := ih hbody enter
          generalize (Task.block body).run fuel _ = o at hinside
          generalize (Task.block body').run fuel _ = o' at hinside
          cases hinside with
          | done h => exact .done ⟨.none, leave h.2⟩
          | failed h => exact .failed ⟨h.1, leave h.2⟩
          | outOfFuel => exact .outOfFuel

end Sound

/-! ## Runs at a pace of their own

The second side need not make the plan that the first one makes. It is enough that
it can do what such a plan says, in however many steps. Then it still ends if the
first side does, though not with the same fuel. -/

/-- What is planned on the first side can be done on the second one. -/
structure Follows (sim : Simulation Scope) : Prop where
  plan {s : Scope} {t t' : Task} {m m' : Machine} (ht : sim.Tasks s t t')
    (hm : sim.Machines s m m') :
    ∃ p', sim.Plans s m m' (m.plan t) p' ∧ ∀ r n, p'.Ends m' r n → Runs t' m' r n

/-- Where the first side goes on with what is left, the second one can do so, too. -/
theorem Follows.exists_of_go (hsim : sim.Follows) {left : Left} {m₁ : Machine}
    (hp : m.plan t = .go left m₁) (ht : sim.Tasks s t t') (hm : sim.Machines s m m') :
    ∃ left' m₁', sim.Lefts s left left' ∧ sim.Machines s m₁ m₁' ∧
      ∀ r n, (Plan.go left' m₁').Ends m' r n → Runs t' m' r n := by
  obtain ⟨p', hplans, hdo⟩ := hsim.plan ht hm
  rw [hp] at hplans
  cases hplans with
  | go h hm₁ => exact ⟨_, _, h, hm₁, hdo⟩

/-- A run that ends is followed by one on the other side, which ends alike. -/
theorem Follows.runs (hsim : sim.Follows) {r : Option Diagnostic} {n : Machine}
    (hr : Runs t m r n) (ht : sim.Tasks s t t') (hm : sim.Machines s m m') :
    ∃ r' n', Runs t' m' r' n' ∧ sim.Ends s r n r' n' := by
  induction hr generalizing s t' m' with
  | finish hp =>
      obtain ⟨left', m₁', h, hm₁, hdo⟩ := hsim.exists_of_go hp ht hm
      cases h
      exact ⟨none, m₁', hdo _ _ ⟨rfl, rfl⟩, .none, hm₁⟩
  | fail hp =>
      obtain ⟨left', m₁', h, hm₁, hdo⟩ := hsim.exists_of_go hp ht hm
      cases h with
      | failure hd => exact ⟨some _, m₁', hdo _ _ ⟨rfl, rfl⟩, .some hd, hm₁⟩
  | go hp _ ih =>
      obtain ⟨left', m₁', h, hm₁, hdo⟩ := hsim.exists_of_go hp ht hm
      cases h with
      | task ht₁ =>
          obtain ⟨r', n', hr', hends⟩ := ih ht₁ hm₁
          exact ⟨r', n', hdo _ _ hr', hends⟩
  | stop hp _ ih =>
      obtain ⟨left', m₁', h, hm₁, hdo⟩ := hsim.exists_of_go hp ht hm
      cases h with
      | seq first rest =>
          obtain ⟨r', n', hr', hends⟩ := ih first hm₁
          refine ⟨r', n', hdo _ _ (.inl ⟨?_, hr'⟩), hends⟩
          cases hends.1
          exact nofun
  | seq hp _ _ ih₁ ih₂ =>
      obtain ⟨left', m₁', h, hm₁, hdo⟩ := hsim.exists_of_go hp ht hm
      cases h with
      | seq first rest =>
          obtain ⟨r₁, n₁, hr₁, hnone, hn₁⟩ := ih₁ first hm₁
          obtain ⟨r', n', hr', hends⟩ := ih₂ rest hn₁
          cases hnone
          exact ⟨r', n', hdo _ _ (.inr ⟨n₁, hr₁, hr'⟩), hends⟩
  | call hp _ ih =>
      obtain ⟨p', hplans, hdo⟩ := hsim.plan ht hm
      rw [hp] at hplans
      cases hplans with
      | call inner hbody enter leave =>
          obtain ⟨r', n', hr', hends⟩ := ih hbody enter
          exact ⟨r', _, hdo _ _ ⟨n', hr', rfl⟩, hends.1, leave hends.2⟩

/-- Two sides that make corresponding plans follow each other. -/
theorem Sound.follows (hsim : sim.Sound) : sim.Follows where
  plan ht hm := ⟨_, Simulation.plan hsim ht hm, fun _ _ => Runs.iff_plan.2⟩

/-- The two sides exchanged. -/
def flip (sim : Simulation Scope) : Simulation Scope where
  Places place place' := sim.Places place' place
  Tasks s t t' := sim.Tasks s t' t
  Machines s m m' := sim.Machines s m' m
  Effects s effect effect' := sim.Effects s effect' effect

theorem Lefts.flip {left left' : Left} (h : sim.Lefts s left left') :
    sim.flip.Lefts s left' left := by
  cases h with
  | nothing => exact .nothing
  | failure hd => exact .failure hd.flip
  | task ht => exact .task ht
  | seq first rest => exact .seq first rest

theorem Plans.flip {p p' : Plan} (h : sim.Plans s m m' p p') : sim.flip.Plans s m' m p' p := by
  cases h with
  | go h hm => exact .go h.flip hm
  | call inner hbody enter leave => exact .call inner hbody enter leave

end Simulation

end JsonScript
