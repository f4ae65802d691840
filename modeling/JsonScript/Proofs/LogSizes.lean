import JsonScript.Proofs.StepBudget

/-!
# How much a run can print and note

Printing and noting a warning are effects of actions, and an action is only come to after a
step was counted for it. So a run has at most as many effects as it counts steps, and under
a step limit at most as many as the limit admits: the step that is one too many is counted,
but nothing happens after it.

The lines that were printed cannot be told from what a machine is left with. Silence keeps
nothing, and a line may itself hold an end of line. So `Task.effects` follows a run once more
and lists what it makes happen.

The invariant has to speak about moments at which a step is counted whose effect is still to
come. That is so for a task that is dispatched, and for no other one (`Task.owed`).

## Main results

* `Task.adds_effects` — the logs grow by the lines and the warnings of the listed effects.
* `Machine.owed_of_plan` — what one plan does to the number of effects that are owed.
* `Task.effects_within_steps` — effects do not outnumber steps, nor the steps that a limit
  leaves.
* `logs_within_steps` — the same for printed lines and warnings together.
-/

namespace JsonScript

/-! ## What a run makes happen -/

/-- What a decision makes happen at once. -/
def Decision.effects : Decision → List (Location × Effect)
  | .commit place effect => [(place, effect)]
  | .keep _ | .count .. | .call .. => []

/-- What a task makes happen with some fuel, in order. Each effect has the place of its
action. -/
def Task.effects : (fuel : Nat) → Task → Machine → List (Location × Effect)
  | 0, _, _ => []
  | fuel + 1, t, m =>
      match m.plan t with
      | .go .nothing _ => (t.decision m.environment).effects
      | .go (.failure _) _ => []
      | .go (.task t') m' => t'.effects fuel m'
      | .go (.seq first rest) m' =>
          match first.run fuel m' with
          | .done m'' => first.effects fuel m' ++ rest.effects fuel m''
          | .failed .. | .outOfFuel => first.effects fuel m'
      | .call body environment => (Task.block body).effects fuel (m.enter environment)

/-- The lines that effects print, one for each call of the printer. -/
def Effect.allLines (effects : List (Location × Effect)) : List String :=
  effects.flatMap fun (_, effect) => effect.lines

/-- The warnings that effects note. -/
def Effect.allNotes (effects : List (Location × Effect)) : Array Diagnostic :=
  (effects.flatMap fun (place, effect) => (effect.notes place).toList).toArray

namespace Effect

theorem allLines_append (effects more : List (Location × Effect)) :
    allLines (effects ++ more) = allLines effects ++ allLines more :=
  List.flatMap_append

theorem allNotes_append (effects more : List (Location × Effect)) :
    allNotes (effects ++ more) = allNotes effects ++ allNotes more := by
  simp only [allNotes, List.flatMap_append, List.append_toArray]

/-- No effect both prints a line and notes a warning. -/
theorem length_lines_add_size_notes_le (place : Location) (effect : Effect) :
    effect.lines.length + (effect.notes place).size ≤ 1 := by
  cases effect <;> simp [lines, notes]

theorem length_allLines_add_size_allNotes_le (effects : List (Location × Effect)) :
    (allLines effects).length + (allNotes effects).size ≤ effects.length := by
  induction effects with
  | nil => exact Nat.le_refl 0
  | cons e rest ih =>
      obtain ⟨place, effect⟩ := e
      have hone := effect.length_lines_add_size_notes_le place
      have hlines : allLines ((place, effect) :: rest) = effect.lines ++ allLines rest := rfl
      have hnotes : (allNotes ((place, effect) :: rest)).size =
          (effect.notes place).size + (allNotes rest).size := by
        simp [allNotes]
      rw [hlines, hnotes, List.length_append, List.length_cons]
      omega

end Effect

/-! ## Effects that are owed -/

/-- How many effects a task may make happen beyond those it counts steps for. The step of a
task that is dispatched is counted already. -/
def Task.owed : Task → Nat
  | .dispatch _ => 1
  | .block _ | .operation _ | .times .. | .whilst .. => 0

theorem Task.owed_le_one (t : Task) : t.owed ≤ 1 := by
  cases t with
  | dispatch => exact Nat.le_refl 1
  | block | operation | times | whilst => exact Nat.zero_le 1

/-- Only a task whose step is counted goes on as one that is dispatched. -/
theorem Task.owed_of_keep {t t' : Task} {env : Environment} {left : Left}
    (h : t.decision env = .keep left) (ht : left.Has t') : t'.owed = 0 := by
  revert h
  fun_cases Task.decision env t
  all_goals
    intro h
    cases h
  case case2 => rcases ht with rfl | rfl <;> rfl
  all_goals
    cases ht
  all_goals rfl

/-- What follows a first task is never dispatched yet. -/
theorem Task.owed_of_follows {t first rest : Task} {env : Environment}
    (h : t.decision env = .keep (.seq first rest) ∨
      ∃ place, t.decision env = .count place (.seq first rest)) : rest.owed = 0 := by
  revert h
  fun_cases Task.decision env t
  all_goals
    rintro (h | ⟨place, h⟩) <;> cases h
  all_goals rfl

namespace Machine

variable {t t' first rest : Task} {left : Left} {m m₁ : Machine}

/-- A plan that goes on owes an effect more only if it has counted a step more. -/
theorem owed_of_plan (h : m.plan t = .go left m₁) (ht : left.Has t') :
    m.steps + t'.owed ≤ m₁.steps + t.owed := by
  rcases leaves_of_plan h ht with ⟨hd, rfl⟩ | ⟨-, -, rfl⟩
  · rw [Task.owed_of_keep hd ht]
    exact Nat.le_add_right ..
  · have hone := t'.owed_le_one
    show m.steps + t'.owed ≤ m.steps + 1 + t.owed
    omega

theorem owed_rest_of_plan (h : m.plan t = .go (.seq first rest) m₁) : rest.owed = 0 := by
  rcases leaves_of_plan h (.inl rfl) with ⟨hd, -⟩ | ⟨hd, -⟩
  · exact Task.owed_of_follows (.inl hd)
  · exact Task.owed_of_follows (.inr hd)

end Machine

/-! ## Accounts of runs -/

/-- The effects account for what a task did: the logs grew by their lines and warnings, and
a step was counted for every effect but those that the task owed. Under a limit this step is
one that the limit admits. -/
structure Task.Accounts (t : Task) (m : Machine) (effects : List (Location × Effect))
    (m' : Machine) : Prop where
  adds : m.Adds (Effect.allLines effects) (Effect.allNotes effects) m'
  counted : m.steps + effects.length ≤ m'.steps + t.owed
  admitted (limit : Nat) (h : m.limits.maxSteps = some limit) :
    m.steps + effects.length ≤ max limit m.steps + t.owed

namespace Task.Accounts

variable {t t₁ t₂ : Task} {left : Left} {m m₁ m₂ m' : Machine}
  {effects more : List (Location × Effect)}

/-- Without effects. -/
theorem nothing (hsink : m'.sink = m.sink) (hwarnings : m'.warnings = m.warnings)
    (hsteps : m.steps ≤ m'.steps) : t.Accounts m [] m' where
  adds := .nothing hsink hwarnings
  counted := Nat.le_trans hsteps (Nat.le_add_right ..)
  admitted _ _ := Nat.le_trans (Nat.le_max_right ..) (Nat.le_add_right ..)

/-- A task that is over after one plan. -/
theorem finish (h : m.plan t = .go .nothing m') :
    t.Accounts m (t.decision m.environment).effects m' := by
  cases Machine.goes_of_plan h with
  | keep decided =>
      rw [decided]
      exact nothing rfl rfl (Nat.le_refl _)
  | count decided =>
      rw [decided]
      exact nothing rfl rfl (Nat.le_succ _)
  | @commit place effect decided =>
      obtain ⟨action, rfl, -⟩ := Task.exists_action decided
      have hsteps : (m.commit place effect).steps = m.steps := by
        cases effect <;> rfl
      have hlines : Effect.allLines [(place, effect)] = effect.lines := List.append_nil _
      have hnotes : Effect.allNotes [(place, effect)] = effect.notes place := by
        simp [Effect.allNotes]
      rw [decided]
      refine ⟨?_, ?_, fun limit _ => ?_⟩
      · rw [Decision.effects, hlines, hnotes]
        exact m.adds_commit place effect
      · rw [hsteps]
        exact Nat.le_refl _
      · exact Nat.succ_le_succ (Nat.le_max_right ..)

theorem fail {d : Diagnostic} (h : m.plan t = .go (.failure d) m') : t.Accounts m [] m' := by
  cases Machine.goes_of_plan h with
  | keep | refused => exact nothing rfl rfl (Nat.le_refl _)
  | count | exhausted => exact nothing rfl rfl (Nat.le_succ _)

/-- A task that goes on as another one, first of all. -/
theorem go (hp : m.plan t = .go left m₁) (hleft : left.Has t₁)
    (h : t₁.Accounts m₁ effects m') : t.Accounts m effects m' := by
  have hgoes : ∀ d, left ≠ .failure d := by
    rintro d rfl
    exact hleft
  have hlogs : m₁.sink = m.sink ∧ m₁.warnings = m.warnings := by
    rcases Machine.leaves_of_plan hp hleft with ⟨-, rfl⟩ | ⟨-, -, rfl⟩ <;> exact ⟨rfl, rfl⟩
  have howed := Machine.owed_of_plan hp hleft
  refine ⟨⟨?_, ?_⟩, ?_, fun limit hlimit => ?_⟩
  · rw [h.adds.sink, hlogs.1]
  · rw [h.adds.warnings, hlogs.2]
  · have hcounted := h.counted
    omega
  · have hlimit₁ : m₁.limits.maxSteps = some limit := by
      rw [(Machine.SameFrame.of_plan hp).limits]
      exact hlimit
    have hle := (Machine.steps_le_of_plan hlimit hp).2 hgoes
    have hadmitted := h.admitted limit hlimit₁
    omega

/-- Two tasks one after the other. -/
theorem seq (hp : m.plan t = .go (.seq t₁ t₂) m₁) (hr : Runs t₁ m₁ none m₂)
    (h₁ : t₁.Accounts m₁ effects m₂) (h₂ : t₂.Accounts m₂ more m') :
    t.Accounts m (effects ++ more) m' := by
  have hrest : t₂.owed = 0 := Machine.owed_rest_of_plan hp
  have hfirst := h₁.counted
  suffices hboth : t₁.Accounts m₁ (effects ++ more) m' from hboth.go hp (.inl rfl)
  refine ⟨?_, ?_, fun limit hlimit => ?_⟩
  · rw [Effect.allLines_append, Effect.allNotes_append]
    exact h₁.adds.trans h₂.adds
  · have hsecond := h₂.counted
    rw [List.length_append]
    omega
  · have hlimit₂ : m₂.limits.maxSteps = some limit := by
      rw [hr.sameFrame.limits]
      exact hlimit
    have hsecond := h₂.admitted limit hlimit₂
    have hle := (hr.steps_le hlimit).2 rfl
    rw [List.length_append]
    omega

/-- The body of a call. -/
theorem call {body : List Operation} {environment : Environment}
    (h : (Task.block body).Accounts (m.enter environment) effects m₁) :
    t.Accounts m effects (m₁.leave m.environment) where
  adds := ⟨h.adds.sink, h.adds.warnings⟩
  counted := Nat.le_trans h.counted (Nat.le_add_right ..)
  admitted limit hlimit := Nat.le_trans (h.admitted limit hlimit) (Nat.le_add_right ..)

end Task.Accounts

/-- The effects that a run lists account for what it did. -/
theorem Task.accounts_effects (fuel : Nat) :
    ∀ {t : Task} {m m' : Machine} {r : Option Diagnostic}, t.run fuel m = .ended r m' →
      t.Accounts m (t.effects fuel m) m' := by
  induction fuel with
  | zero =>
      intro t m m' r h
      rw [Task.run_zero] at h
      exact absurd h (Outcome.ended_ne_outOfFuel r m')
  | succ fuel ih =>
      intro t m m' r h
      rw [Task.run_succ] at h
      rw [Task.effects]
      rcases hp : m.plan t with ⟨_ | d | t' | ⟨first, rest⟩, m₁⟩ | ⟨body, environment⟩
      · rw [hp] at h
        obtain ⟨-, rfl⟩ := Outcome.eq_of_done_eq_ended h
        exact .finish hp
      · rw [hp] at h
        obtain ⟨-, rfl⟩ := Outcome.eq_of_failed_eq_ended h
        exact .fail hp
      · rw [hp] at h
        exact (ih h).go hp rfl
      · rw [hp] at h
        rcases Plan.carryOut_seq_eq_ended h with ⟨d, rfl, hfirst⟩ | ⟨m₂, hfirst, hrest⟩
        · simp only [hfirst, Outcome.ended]
          exact (ih hfirst).go hp (.inl rfl)
        · simp only [hfirst, Outcome.ended]
          exact .seq hp (.of_run hfirst) (ih hfirst) (ih hrest)
      · rw [hp] at h
        obtain ⟨m₁, hbody, rfl⟩ := Plan.carryOut_call_eq_ended h
        exact .call (ih hbody)

/-- Printed lines and warnings do not outnumber steps, nor the steps that a limit leaves. -/
theorem Task.Accounts.logs_le {operations : List Operation} {m m' : Machine}
    {effects : List (Location × Effect)}
    (h : (Task.block operations).Accounts m effects m') :
    m.steps + (Effect.allLines effects).length + (Effect.allNotes effects).size ≤ m'.steps ∧
      ∀ limit, m.limits.maxSteps = some limit →
        (Effect.allLines effects).length + (Effect.allNotes effects).size ≤ limit - m.steps := by
  have hlogs := Effect.length_allLines_add_size_allNotes_le effects
  have hcounted : m.steps + effects.length ≤ m'.steps := h.counted
  refine ⟨by omega, fun limit hlimit => ?_⟩
  have hadmitted : m.steps + effects.length ≤ max limit m.steps := h.admitted limit hlimit
  omega

/-- **Work bounds the logs.**  Let a block end on some machine, whether it succeeds or fails.
It has added to the logs the lines that it printed and the warnings that it noted, one after
the other, and there are at most as many of both together as steps that it counted. Under a
step limit there are at most as many as steps were left. So a program, which starts without
any step, ends under a step limit with at most that many lines and warnings. -/
theorem logs_within_steps (m : Machine) :
    (∀ operations fuel r m', m.runBlock fuel operations = .ended r m' →
      let made := (Task.block operations).effects fuel m
      let lines := Effect.allLines made
      let notes := Effect.allNotes made
      m.Adds lines notes m' ∧ m.steps + lines.length + notes.size ≤ m'.steps ∧
        ∀ limit, m.limits.maxSteps = some limit →
          lines.length + notes.size ≤ limit - m.steps) ∧
    ∀ p limit, m.limits.maxSteps = some limit →
      (∃ fuel r m', m.run fuel p = .ended r m') ∧
      ∀ fuel r m', m.run fuel p = .ended r m' →
        let made := (Task.block p.main).effects fuel (m.load p)
        let lines := Effect.allLines made
        let notes := Effect.allNotes made
        (m.load p).Adds lines notes m' ∧ lines.length + notes.size ≤ m'.steps ∧
          lines.length + notes.size ≤ limit := by
  refine ⟨fun operations fuel r m' h => ?_, fun p limit hlimit => ⟨?_, fun fuel r m' h => ?_⟩⟩
  · have haccounts := Task.accounts_effects fuel (t := .block operations) h
    exact ⟨haccounts.adds, haccounts.logs_le⟩
  · have hload : (m.load p).limits.maxSteps = some limit := hlimit
    obtain ⟨r, m', hr⟩ := Runs.exists_of_stepLimit (t := .block p.main) hload
    obtain ⟨fuel, hrun⟩ := runs_main_iff.1 hr
    exact ⟨fuel, r, m', hrun⟩
  · have haccounts := Task.accounts_effects fuel (t := .block p.main) h
    obtain ⟨hsteps, hadmitted⟩ := haccounts.logs_le
    have hsteps : 0 + _ + _ ≤ m'.steps := hsteps
    rw [Nat.zero_add] at hsteps
    exact ⟨haccounts.adds, hsteps, hadmitted limit hlimit⟩

/-- A program that complains once, and then prints in a routine and complains in turn, without
end. -/
def noisyProgram : Program where
  bindings := []
  routines := ⟨.ofList [("f", ⟨"f", [], [.act (.ofRoot "f") (.print [.literal (.bool true)])]⟩)]⟩
  main :=
    [.act (.ofRoot "main") (.unknown "frobnicate"),
      .whilst (.ofRoot "main") (.literal (.bool true))
        [.call (.ofRoot "call") "f" [], .act (.ofRoot "assign") (.assign "x" (.literal .null))]]

/-- Of eight steps three have an effect, one of them a line that silence does not keep. -/
theorem logs_within_steps_noisy :
    let m := Machine.start ⟨1, some 7⟩ .silent
    let made := (Task.block noisyProgram.main).effects 20 (m.load noisyProgram)
    m.limits.maxSteps = some 7 ∧
      (∃ d m', m.run 20 noisyProgram = .ended (some d) m' ∧ m'.steps = 8 ∧ m'.sink = .silent ∧
        (Effect.allLines made).length + (Effect.allNotes made).size ≤ m'.steps) ∧
      (Effect.allLines made).length + (Effect.allNotes made).size ≤ 7 ∧
      Effect.allLines made = ["true"] ∧ (Effect.allNotes made).size = 2 := by
  intro m made
  have hrun : ∃ d m', m.run 20 noisyProgram = .ended (some d) m' ∧ m'.steps = 8 ∧
      m'.sink = .silent := ⟨_, _, rfl, rfl, rfl⟩
  obtain ⟨d, m', hended, hsteps, hsink⟩ := hrun
  obtain ⟨-, hprograms⟩ := logs_within_steps m
  obtain ⟨-, hlimited⟩ := hprograms noisyProgram 7 rfl
  obtain ⟨-, hcounted, hadmitted⟩ := hlimited 20 (some d) m' hended
  exact ⟨rfl, ⟨d, m', hended, hsteps, hsink, hcounted⟩, hadmitted, rfl, rfl⟩

end JsonScript
