import JsonScript.Proofs.Logs

/-!
# Runs under a tighter limit

A machine with a tighter limit goes the way of the same machine without it, as
long as the limit is not reached, and stops where it is. This module compares
the two runs for any limit of that kind. What is asked of the limit is a fact
about single plans (`Restriction.Sound`); what comes out is a fact about runs.

## Main results

* `Restriction.runs` — the tighter run ends in the same way, or it is cut off at
  a machine whose logs the other run only adds to.
* `Restriction.runs_of_tighter` — a tighter run that is not cut off is the other
  run.
-/

namespace JsonScript

/-- Carries a change of machines through a plan. -/
def Plan.map (g : Machine → Machine) : Plan → Plan
  | .go left m => .go left (g m)
  | .call body environment => .call body environment

theorem Plan.eq_go_of_map {g : Machine → Machine} {p : Plan} {left : Left} {m : Machine}
    (h : p.map g = .go left m) : ∃ m₁, p = .go left m₁ ∧ m = g m₁ := by
  cases p with
  | go left' m₁ =>
      cases h
      exact ⟨m₁, rfl, rfl⟩
  | call body environment => cases h

theorem Plan.eq_call_of_map {g : Machine → Machine} {p : Plan} {body : List Operation}
    {environment : Environment} (h : p.map g = .call body environment) :
    p = .call body environment := by
  cases p with
  | go left m => cases h
  | call body' environment' => exact h

/-- A tighter limit. -/
structure Restriction where
  /-- The machine with the tighter limit. -/
  tighten : Machine → Machine
  /-- The machine has not gone beyond the tighter limit. -/
  Within : Machine → Prop
  /-- What the limit complains about, and the machine that it stops. -/
  Cut : Fault → Machine → Prop

namespace Restriction

variable (R : Restriction)

/-- The tighter machine makes the same plan. -/
def Follows (t : Task) (m : Machine) : Prop :=
  (R.tighten m).plan t = (m.plan t).map R.tighten ∧
    ∀ left m₁, m.plan t = .go left m₁ → R.Within m₁

/-- The tighter machine is stopped, at a moment that the other one passes. -/
def Stops (t : Task) (m : Machine) : Prop :=
  ∃ fault place c, (R.tighten m).plan t = .go (.failure ⟨fault, some place⟩) c ∧ R.Cut fault c ∧
    ∀ r m', Runs t m r m' → c.Extends m'

/-- What a tighter limit must satisfy. -/
structure Sound : Prop where
  environment (m : Machine) : (R.tighten m).environment = m.environment
  enter (m : Machine) (environment : Environment) :
    R.tighten (m.enter environment) = (R.tighten m).enter environment
  leave (m : Machine) (environment : Environment) :
    R.tighten (m.leave environment) = (R.tighten m).leave environment
  within_enter {m : Machine} (environment : Environment) (h : R.Within m) :
    R.Within (m.enter environment)
  within_leave {m : Machine} (environment : Environment) (h : R.Within m) :
    R.Within (m.leave environment)
  cut_leave {m : Machine} {fault : Fault} (environment : Environment) (h : R.Cut fault m) :
    R.Cut fault (m.leave environment)
  plan {m : Machine} (t : Task) (h : R.Within m) : R.Follows t m ∨ R.Stops t m

/-- The tighter run ends as the other one does. -/
def Kept (t : Task) (m : Machine) (r : Option Diagnostic) (m' : Machine) : Prop :=
  R.Within m' ∧ Runs t (R.tighten m) r (R.tighten m')

/-- The tighter run is cut off, and the other one goes on from there. -/
def CutOff (t : Task) (m m' : Machine) : Prop :=
  ∃ fault place c, Runs t (R.tighten m) (some ⟨fault, some place⟩) c ∧ R.Cut fault c ∧
    c.Extends m'

variable {R}

theorem Stops.cutOff {t : Task} {m m' : Machine} {r : Option Diagnostic} (h : R.Stops t m)
    (hr : Runs t m r m') : R.CutOff t m m' := by
  obtain ⟨fault, place, c, hp, hc, hext⟩ := h
  exact ⟨fault, place, c, .fail hp, hc, hext r m' hr⟩

theorem CutOff.go {t t' : Task} {m m₁ m' : Machine}
    (hp : (R.tighten m).plan t = .go (.task t') (R.tighten m₁)) (h : R.CutOff t' m₁ m') :
    R.CutOff t m m' := by
  obtain ⟨fault, place, c, hr, hc, hext⟩ := h
  exact ⟨fault, place, c, .go hp hr, hc, hext⟩

/-- Cut off in the first of two tasks, whatever the second would have done. -/
theorem CutOff.first {t t₁ t₂ : Task} {m m₁ m₂ m' : Machine}
    (hp : (R.tighten m).plan t = .go (.seq t₁ t₂) (R.tighten m₁)) (h : R.CutOff t₁ m₁ m₂)
    (hext : m₂.Extends m') : R.CutOff t m m' := by
  obtain ⟨fault, place, c, hr, hc, hext'⟩ := h
  exact ⟨fault, place, c, .stop hp hr, hc, hext'.trans hext⟩

theorem CutOff.second {t t₁ t₂ : Task} {m m₁ m₂ m' : Machine}
    (hp : (R.tighten m).plan t = .go (.seq t₁ t₂) (R.tighten m₁))
    (hr₁ : Runs t₁ (R.tighten m₁) none (R.tighten m₂)) (h : R.CutOff t₂ m₂ m') :
    R.CutOff t m m' := by
  obtain ⟨fault, place, c, hr, hc, hext⟩ := h
  exact ⟨fault, place, c, .seq hp hr₁ hr, hc, hext⟩

theorem CutOff.call (hR : R.Sound) {t : Task} {m m' : Machine} {body : List Operation}
    {environment : Environment} (hp : (R.tighten m).plan t = .call body environment)
    (h : R.CutOff (.block body) (m.enter environment) m') :
    R.CutOff t m (m'.leave m.environment) := by
  obtain ⟨fault, place, c, hr, hc, ⟨hsteps, lines, notes, ha⟩⟩ := h
  rw [hR.enter] at hr
  refine ⟨fault, place, _, .call hp hr, hR.cut_leave _ hc, hsteps, lines, notes, ?_⟩
  exact ⟨ha.sink, ha.warnings⟩

/-- The tighter run ends in the same way, or it is cut off. -/
theorem runs (hR : R.Sound) {t : Task} {m m' : Machine} {r : Option Diagnostic}
    (h : Runs t m r m') (hm : R.Within m) : R.Kept t m r m' ∨ R.CutOff t m m' := by
  induction h with
  | @finish t m m' hp =>
      rcases hR.plan t hm with ⟨heq, hw⟩ | hs
      · rw [hp] at heq
        exact .inl ⟨hw _ _ hp, .finish heq⟩
      · exact .inr (hs.cutOff (.finish hp))
  | @fail t m m' d hp =>
      rcases hR.plan t hm with ⟨heq, hw⟩ | hs
      · rw [hp] at heq
        exact .inl ⟨hw _ _ hp, .fail heq⟩
      · exact .inr (hs.cutOff (.fail hp))
  | @go t t' m m₁ m' r hp hr ih =>
      rcases hR.plan t hm with ⟨heq, hw⟩ | hs
      · rw [hp] at heq
        rcases ih (hw _ _ hp) with ⟨hw', hk⟩ | hc
        · exact .inl ⟨hw', .go heq hk⟩
        · exact .inr (hc.go heq)
      · exact .inr (hs.cutOff (.go hp hr))
  | @stop t t₁ t₂ m m₁ m' d hp hr ih =>
      rcases hR.plan t hm with ⟨heq, hw⟩ | hs
      · rw [hp] at heq
        rcases ih (hw _ _ hp) with ⟨hw', hk⟩ | hc
        · exact .inl ⟨hw', .stop heq hk⟩
        · exact .inr (hc.first heq (.refl m'))
      · exact .inr (hs.cutOff (.stop hp hr))
  | @seq t t₁ t₂ m m₁ m₂ m' r hp hr₁ hr₂ ih₁ ih₂ =>
      rcases hR.plan t hm with ⟨heq, hw⟩ | hs
      · rw [hp] at heq
        rcases ih₁ (hw _ _ hp) with ⟨hw₂, hk₁⟩ | hc
        · rcases ih₂ hw₂ with ⟨hw', hk₂⟩ | hc
          · exact .inl ⟨hw', .seq heq hk₁ hk₂⟩
          · exact .inr (hc.second heq hk₁)
        · exact .inr (hc.first heq hr₂.extends)
      · exact .inr (hs.cutOff (.seq hp hr₁ hr₂))
  | @call t m m' body environment r hp hr ih =>
      rcases hR.plan t hm with ⟨heq, _⟩ | hs
      · rw [hp] at heq
        rcases ih (hR.within_enter environment hm) with ⟨hw', hk⟩ | hc
        · refine .inl ⟨hR.within_leave _ hw', ?_⟩
          rw [hR.enter] at hk
          rw [hR.leave, ← hR.environment m]
          exact .call heq hk
        · exact .inr (hc.call hR heq)
      · exact .inr (hs.cutOff (.call hp hr))

/-- A plan of the tighter machine is one of the other machine, or the end. -/
theorem Sound.plan_of_tighter (hR : R.Sound) {t : Task} {left : Left} {m c : Machine}
    (hm : R.Within m) (hp : (R.tighten m).plan t = .go left c) :
    (∃ m₁, m.plan t = .go left m₁ ∧ R.Within m₁ ∧ c = R.tighten m₁) ∨
      ∃ fault place, left = .failure ⟨fault, some place⟩ ∧ R.Cut fault c := by
  rcases hR.plan t hm with ⟨heq, hw⟩ | ⟨fault, place, _, hstop, hcut, -⟩
  · obtain ⟨m₁, hplan, rfl⟩ := Plan.eq_go_of_map (heq.symm.trans hp)
    exact .inl ⟨m₁, hplan, hw _ _ hplan, rfl⟩
  · cases hp.symm.trans hstop
    exact .inr ⟨fault, place, rfl, hcut⟩

theorem Sound.plan_call_of_tighter (hR : R.Sound) {t : Task} {m : Machine}
    {body : List Operation} {environment : Environment} (hm : R.Within m)
    (hp : (R.tighten m).plan t = .call body environment) :
    m.plan t = .call body environment := by
  rcases hR.plan t hm with ⟨heq, -⟩ | ⟨_, _, _, hstop, -, -⟩
  · exact Plan.eq_call_of_map (heq.symm.trans hp)
  · cases hp.symm.trans hstop

/-- A tighter run that is not cut off is the other run. -/
theorem runs_of_tighter (hR : R.Sound) {t : Task} {m c : Machine} {r : Option Diagnostic}
    (h : Runs t (R.tighten m) r c) (hm : R.Within m) :
    (∃ m', Runs t m r m' ∧ R.Within m' ∧ c = R.tighten m') ∨
      ∃ fault place, r = some ⟨fault, some place⟩ ∧ R.Cut fault c := by
  generalize htight : R.tighten m = n at h
  induction h generalizing m with
  | finish hp =>
      subst htight
      rcases hR.plan_of_tighter hm hp with ⟨m', hplan, hw, rfl⟩ | ⟨_, _, hstop, _⟩
      · exact .inl ⟨m', .finish hplan, hw, rfl⟩
      · cases hstop
  | fail hp =>
      subst htight
      rcases hR.plan_of_tighter hm hp with ⟨m', hplan, hw, rfl⟩ | ⟨fault, place, hstop, hcut⟩
      · exact .inl ⟨m', .fail hplan, hw, rfl⟩
      · cases hstop
        exact .inr ⟨fault, place, rfl, hcut⟩
  | go hp _ ih =>
      subst htight
      rcases hR.plan_of_tighter hm hp with ⟨m₁, hplan, hw, rfl⟩ | ⟨_, _, hstop, _⟩
      · rcases ih hw rfl with ⟨m', hr, hw', hc⟩ | hcut
        · exact .inl ⟨m', .go hplan hr, hw', hc⟩
        · exact .inr hcut
      · cases hstop
  | stop hp _ ih =>
      subst htight
      rcases hR.plan_of_tighter hm hp with ⟨m₁, hplan, hw, rfl⟩ | ⟨_, _, hstop, _⟩
      · rcases ih hw rfl with ⟨m', hr, hw', hc⟩ | hcut
        · exact .inl ⟨m', .stop hplan hr, hw', hc⟩
        · exact .inr hcut
      · cases hstop
  | seq hp _ _ ih₁ ih₂ =>
      subst htight
      rcases hR.plan_of_tighter hm hp with ⟨m₁, hplan, hw, rfl⟩ | ⟨_, _, hstop, _⟩
      · rcases ih₁ hw rfl with ⟨m₂, hr₁, hw₂, rfl⟩ | ⟨_, _, hnone, _⟩
        · rcases ih₂ hw₂ rfl with ⟨m', hr₂, hw', hc⟩ | hcut
          · exact .inl ⟨m', .seq hplan hr₁ hr₂, hw', hc⟩
          · exact .inr hcut
        · cases hnone
      · cases hstop
  | call hp _ ih =>
      subst htight
      have hplan := hR.plan_call_of_tighter hm hp
      rcases ih (hR.within_enter _ hm) (hR.enter _ _) with
        ⟨m', hr, hw', rfl⟩ | ⟨fault, place, hr, hcut⟩
      · refine .inl ⟨_, .call hplan hr, hR.within_leave _ hw', ?_⟩
        rw [hR.environment, hR.leave]
      · exact .inr ⟨fault, place, hr, hR.cut_leave _ hcut⟩

end Restriction

end JsonScript
