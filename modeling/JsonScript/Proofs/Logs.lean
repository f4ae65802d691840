import JsonScript.Proofs.Simulation

/-!
# Printed lines and warnings

The text that was printed and the warnings that were noted are logs: a run adds
to them and never reads them back. So a run goes the same way on two machines
that differ in nothing but their logs, and adds the same to both.

The second half is stated for any relation between machines that agrees on what
a run reads (`Lockstep`). Such machines make the same plans, and end in the same
way. So the receiver of the printed lines may be exchanged for one of another
kind: a buffer, the console and silence are given the same text, and make of it
what they make of any text (`Sink.receive`).

## Main results

* `Runs.extends` — a run adds to the logs, and never counts back.
* `Lockstep.runs` — machines that agree on what a run reads run alike.
* `Runs.alike` — what a run adds to the logs does not depend on the logs.
* `logs_of_run` — one text and one list of warnings are what a run adds to any
  logs.
-/

namespace JsonScript

attribute [ext] Machine

/-! ## Adding to the logs -/

/-- Receives lines one after the other. -/
def Sink.printlns (lines : List String) (s : Sink) : Sink :=
  lines.foldl (fun s line => s.println line) s

theorem Sink.printlns_append (lines more : List String) (s : Sink) :
    s.printlns (lines ++ more) = (s.printlns lines).printlns more :=
  List.foldl_append

/-- Receives text: the console and a buffer add it to what they have, silence
drops it. -/
def Sink.receive (text : String) : Sink → Sink
  | .console written => .console (written ++ text)
  | .buffer captured => .buffer (captured ++ text)
  | .silent => .silent

theorem Sink.receive_empty (s : Sink) : s.receive "" = s := by
  cases s <;> simp [receive]

theorem Sink.receive_receive (s : Sink) (text more : String) :
    (s.receive text).receive more = s.receive (text ++ more) := by
  cases s <;> simp [receive, String.append_assoc]

theorem Sink.println_eq_receive (s : Sink) (line : String) :
    s.println line = s.receive (line ++ "\n") := by
  cases s <;> simp [receive, println, String.append_assoc]

/-- Lines are received as the text of them all, each with its end. -/
theorem Sink.printlns_eq_receive (lines : List String) (s : Sink) :
    s.printlns lines = s.receive (String.join (lines.map (· ++ "\n"))) := by
  induction lines generalizing s with
  | nil => exact (receive_empty s).symm
  | cons line rest ih =>
      have hstep : s.printlns (line :: rest) = (s.println line).printlns rest := rfl
      rw [hstep, ih, println_eq_receive, receive_receive, List.map_cons, String.join_cons]

/-- The second machine has the logs of the first one, then these lines and
these warnings. -/
structure Machine.Adds (lines : List String) (notes : Array Diagnostic) (m m' : Machine) :
    Prop where
  sink : m'.sink = m.sink.printlns lines
  warnings : m'.warnings = m.warnings ++ notes

theorem Machine.Adds.nothing {m m' : Machine} (hs : m'.sink = m.sink)
    (hw : m'.warnings = m.warnings) : m.Adds [] #[] m' :=
  ⟨hs, by simpa using hw⟩

theorem Machine.Adds.trans {m₁ m₂ m₃ : Machine} {lines more : List String}
    {notes others : Array Diagnostic} (h₁ : m₁.Adds lines notes m₂)
    (h₂ : m₂.Adds more others m₃) : m₁.Adds (lines ++ more) (notes ++ others) m₃ := by
  constructor
  · rw [h₂.sink, h₁.sink, Sink.printlns_append]
  · rw [h₂.warnings, h₁.warnings, Array.append_assoc]

/-- The lines that an effect prints. -/
def Effect.lines : Effect → List String
  | .print line => [line]
  | _ => []

/-- The warnings that an effect notes about a place. -/
def Effect.notes (place : Location) : Effect → Array Diagnostic
  | .warn fault => #[⟨fault, some place⟩]
  | _ => #[]

theorem Machine.adds_commit (m : Machine) (place : Location) (effect : Effect) :
    m.Adds effect.lines (effect.notes place) (m.commit place effect) := by
  cases effect with
  | become environment => exact .nothing rfl rfl
  | print line => exact ⟨rfl, by simp [Effect.notes, commit, println]⟩
  | warn fault => exact ⟨rfl, by simp [Effect.notes, commit, warn]⟩

/-- The second machine has counted at least as far, and only added to the logs. -/
structure Machine.Extends (m m' : Machine) : Prop where
  steps : m.steps ≤ m'.steps
  logs : ∃ lines notes, m.Adds lines notes m'

namespace Machine.Extends

theorem refl (m : Machine) : m.Extends m := ⟨Nat.le_refl _, _, _, .nothing rfl rfl⟩

theorem trans {m₁ m₂ m₃ : Machine} (h₁ : m₁.Extends m₂) (h₂ : m₂.Extends m₃) :
    m₁.Extends m₃ := by
  obtain ⟨hs₁, _, _, ha₁⟩ := h₁
  obtain ⟨hs₂, _, _, ha₂⟩ := h₂
  exact ⟨Nat.le_trans hs₁ hs₂, _, _, ha₁.trans ha₂⟩

theorem of_move {m m' : Machine} (h : m.Move m') : m.Extends m' := by
  cases h with
  | stay => exact .refl m
  | tick => exact ⟨Nat.le_succ _, _, _, .nothing rfl rfl⟩
  | @commit _ effect place _ =>
      refine ⟨?_, _, _, m.adds_commit place effect⟩
      cases effect <;> exact Nat.le_refl _

theorem leave {m m' : Machine} {environment : Environment}
    (h : (m.enter environment).Extends m') : m.Extends (m'.leave m.environment) := by
  obtain ⟨hs, lines, notes, ha⟩ := h
  exact ⟨hs, lines, notes, ha.sink, ha.warnings⟩

end Machine.Extends

/-- A run adds to the logs, and never counts back. -/
theorem Runs.extends {t : Task} {m m' : Machine} {r : Option Diagnostic}
    (h : Runs t m r m') : m.Extends m' :=
  h.rel_of_moves .trans .of_move fun _ => .leave

/-- A run adds to the logs of the machine that its first plan goes on with. -/
theorem Runs.extends_of_plan {t : Task} {left : Left} {m m₁ m' : Machine}
    {r : Option Diagnostic} (h : Runs t m r m') (hm : m.plan t = .go left m₁) :
    m₁.Extends m' := by
  cases h with
  | finish hp =>
      cases hp.symm.trans hm
      exact .refl _
  | fail hp =>
      cases hp.symm.trans hm
      exact .refl _
  | go hp h =>
      cases hp.symm.trans hm
      exact h.extends
  | stop hp h =>
      cases hp.symm.trans hm
      exact h.extends
  | seq hp h₁ h₂ =>
      cases hp.symm.trans hm
      exact h₁.extends.trans h₂.extends
  | call hp h => cases hp.symm.trans hm

/-! ## Machines in lockstep -/

/-- Machines related in this way agree on whatever a run reads, and stay related
in whatever it does. -/
structure Lockstep (S : Machine → Machine → Prop) : Prop where
  environment {m₁ m₂ : Machine} (h : S m₁ m₂) : m₁.environment = m₂.environment
  exhausted {m₁ m₂ : Machine} (h : S m₁ m₂) : m₁.exhausted? = m₂.exhausted?
  prepareCall {m₁ m₂ : Machine} (h : S m₁ m₂) (name : String) (arguments : List Expr) :
    m₁.prepareCall name arguments = m₂.prepareCall name arguments
  tick {m₁ m₂ : Machine} (h : S m₁ m₂) : S m₁.tick m₂.tick
  commit {m₁ m₂ : Machine} (h : S m₁ m₂) (place : Location) (effect : Effect) :
    S (m₁.commit place effect) (m₂.commit place effect)
  enter {m₁ m₂ : Machine} (h : S m₁ m₂) (environment : Environment) :
    S (m₁.enter environment) (m₂.enter environment)
  leave {m₁ m₂ : Machine} (h : S m₁ m₂) (environment : Environment) :
    S (m₁.leave environment) (m₂.leave environment)

namespace Lockstep

/-- The same task on related machines. -/
def simulation (S : Machine → Machine → Prop) : Simulation Unit where
  Places := Eq
  Tasks _ := Eq
  Machines _ := S
  Effects _ := Eq

variable {S : Machine → Machine → Prop} (hS : Lockstep S) {m₁ m₂ : Machine}
include hS

theorem sound : (simulation S).Sound where
  decision {_ t t' m m'} ht hm := by
    cases ht
    rw [hS.environment hm]
    exact Simulation.decisions_self _ (fun _ => rfl) (fun _ _ => rfl) fun _ => rfl
  exhausted hm := hS.exhausted hm
  tick hm := hS.tick hm
  commit {_ place place' effect effect' m m'} hm hplace h := by
    cases hplace
    cases h
    exact hS.commit hm place effect
  call {_ place place' name arguments m m'} _ hm := by
    rw [hS.prepareCall hm]
    cases m'.prepareCall name arguments with
    | error fault => exact .refused fault
    | ok prepared =>
        refine .prepared () rfl (hS.enter hm _) fun hn => ?_
        rw [hS.environment hm]
        exact hS.leave hn _

/-- Machines in lockstep end a task in the same way, with the same fuel. -/
theorem run (fuel : Nat) (t : Task) (h : S m₁ m₂) :
    Outcome.Rel (fun r m r' m' => r = r' ∧ S m m') (t.run fuel m₁) (t.run fuel m₂) := by
  exact (Simulation.run hS.sound fuel (s := ()) rfl h).mono fun r m r' m' hends =>
    ⟨Diagnostic.eq_of_rel_moved hends.1, hends.2⟩

/-- Machines in lockstep end a task in the same way. -/
theorem runs {t : Task} {r : Option Diagnostic} {m₁' : Machine} (hr : Runs t m₁ r m₁')
    (h : S m₁ m₂) : ∃ m₂', Runs t m₂ r m₂' ∧ S m₁' m₂' := by
  obtain ⟨r', m₂', hr₂, hends⟩ := hS.sound.follows.runs (s := ()) hr rfl h
  cases Diagnostic.eq_of_rel_moved hends.1
  exact ⟨m₂', hr₂, hends.2⟩

end Lockstep

/-! ## Machines that differ in their logs -/

/-- Two machines that differ in their logs only. -/
structure Machine.Alike (m₁ m₂ : Machine) : Prop where
  limits : m₁.limits = m₂.limits
  environment : m₁.environment = m₂.environment
  routines : m₁.routines = m₂.routines
  depth : m₁.depth = m₂.depth
  steps : m₁.steps = m₂.steps

/-- The last two machines differ in their logs only, and have added the same to
what the first two had logged. -/
structure Machine.Abreast (b₁ b₂ m₁ m₂ : Machine) : Prop where
  alike : m₁.Alike m₂
  added : ∃ lines notes, b₁.Adds lines notes m₁ ∧ b₂.Adds lines notes m₂

namespace Machine.Alike

variable {m₁ m₂ : Machine} (h : m₁.Alike m₂)
include h

theorem exhausted : m₁.exhausted? = m₂.exhausted? :=
  Machine.exhausted?_congr h.limits h.steps

theorem prepareCall (name : String) (arguments : List Expr) :
    m₁.prepareCall name arguments = m₂.prepareCall name arguments := by
  rw [Machine.prepareCall, Machine.prepareCall, h.routines, h.limits, h.depth, h.environment]

theorem tick : m₁.tick.Alike m₂.tick :=
  ⟨h.limits, h.environment, h.routines, h.depth, congrArg (· + 1) h.steps⟩

theorem commit (place : Location) (effect : Effect) :
    (m₁.commit place effect).Alike (m₂.commit place effect) := by
  cases effect with
  | become environment => exact ⟨h.limits, rfl, h.routines, h.depth, h.steps⟩
  | print line => exact ⟨h.limits, h.environment, h.routines, h.depth, h.steps⟩
  | warn fault => exact ⟨h.limits, h.environment, h.routines, h.depth, h.steps⟩

theorem enter (environment : Environment) :
    (m₁.enter environment).Alike (m₂.enter environment) :=
  ⟨h.limits, rfl, h.routines, congrArg (· + 1) h.depth, h.steps⟩

theorem leave (environment : Environment) :
    (m₁.leave environment).Alike (m₂.leave environment) :=
  ⟨h.limits, rfl, h.routines, congrArg (· - 1) h.depth, h.steps⟩

end Machine.Alike

theorem Machine.Abreast.lockstep (b₁ b₂ : Machine) : Lockstep (b₁.Abreast b₂) where
  environment h := h.alike.environment
  exhausted h := h.alike.exhausted
  prepareCall h := h.alike.prepareCall
  tick h := by
    obtain ⟨_, _, h₁, h₂⟩ := h.added
    exact ⟨h.alike.tick, _, _, ⟨h₁.sink, h₁.warnings⟩, ⟨h₂.sink, h₂.warnings⟩⟩
  commit {m₁ m₂} h place effect := by
    obtain ⟨_, _, h₁, h₂⟩ := h.added
    exact ⟨h.alike.commit place effect, _, _, h₁.trans (m₁.adds_commit place effect),
      h₂.trans (m₂.adds_commit place effect)⟩
  enter h environment := by
    obtain ⟨_, _, h₁, h₂⟩ := h.added
    exact ⟨h.alike.enter environment, _, _, ⟨h₁.sink, h₁.warnings⟩, ⟨h₂.sink, h₂.warnings⟩⟩
  leave h environment := by
    obtain ⟨_, _, h₁, h₂⟩ := h.added
    exact ⟨h.alike.leave environment, _, _, ⟨h₁.sink, h₁.warnings⟩, ⟨h₂.sink, h₂.warnings⟩⟩

/-- With the same fuel, machines that differ in their logs only end a task in the
same way, and have added the same. -/
theorem Machine.Alike.run {m₁ m₂ : Machine} (h : m₁.Alike m₂) (fuel : Nat) (t : Task) :
    Outcome.Rel (fun r m r' m' => r = r' ∧ m₁.Abreast m₂ m m') (t.run fuel m₁) (t.run fuel m₂) :=
  (Machine.Abreast.lockstep m₁ m₂).run fuel t ⟨h, [], #[], .nothing rfl rfl, .nothing rfl rfl⟩

/-- What a run does, and what it adds to the logs, does not depend on the logs. -/
theorem Runs.alike {t : Task} {m₁ m₂ m₁' : Machine} {r : Option Diagnostic}
    (hr : Runs t m₁ r m₁') (h : m₁.Alike m₂) :
    ∃ m₂', Runs t m₂ r m₂' ∧ m₁.Abreast m₂ m₁' m₂' :=
  (Machine.Abreast.lockstep m₁ m₂).runs hr ⟨h, [], #[], .nothing rfl rfl, .nothing rfl rfl⟩

/-! ## Logs of any content and kind -/

/-- The machine with other logs. -/
def Machine.withLogs (sink : Sink) (warnings : Array Diagnostic) (m : Machine) : Machine :=
  { m with sink, warnings }

theorem Machine.alike_withLogs (m : Machine) (sink sink' : Sink)
    (warnings warnings' : Array Diagnostic) :
    (m.withLogs sink warnings).Alike (m.withLogs sink' warnings') :=
  ⟨rfl, rfl, rfl, rfl, rfl⟩

theorem Outcome.eq_outOfFuel_or_ended (o : Outcome) :
    o = .outOfFuel ∨ ∃ r m, o = .ended r m := by
  cases o with
  | done m => exact .inr ⟨none, m, rfl⟩
  | failed d m => exact .inr ⟨some d, m, rfl⟩
  | outOfFuel => exact .inl rfl

/-- A run on a machine with other logs: it ends in the same way, and the text and
the warnings that it added to an empty buffer and an empty list are added. -/
theorem Machine.runBlock_withLogs {fuel : Nat} {operations : List Operation} {m n : Machine}
    {r : Option Diagnostic}
    (h : (m.withLogs .emptyBuffer #[]).runBlock fuel operations = .ended r n) (sink : Sink)
    (warnings : Array Diagnostic) :
    (m.withLogs sink warnings).runBlock fuel operations =
      .ended r ({ m with environment := n.environment, steps := n.steps }.withLogs
        (sink.receive n.sink.captured) (warnings ++ n.warnings)) := by
  have hrel := (m.alike_withLogs .emptyBuffer sink #[] warnings).run fuel (.block operations)
  obtain ⟨r', n', h', rfl, halike, lines, notes, ha, ha'⟩ := hrel.ended h
  have hframe := (Runs.of_run (t := .block operations) h').sameFrame
  have htext : n.sink = .buffer (String.join (lines.map (· ++ "\n"))) := by
    rw [ha.sink, Sink.printlns_eq_receive]
    simp [withLogs, Sink.emptyBuffer, Sink.receive]
  have hnotes : n.warnings = notes := by
    rw [ha.warnings]
    simp [withLogs]
  have hsink : n'.sink = sink.receive n.sink.captured := by
    rw [ha'.sink, Sink.printlns_eq_receive, htext]
    rfl
  have hwarnings : n'.warnings = warnings ++ n.warnings := by
    rw [ha'.warnings, hnotes]
    rfl
  have hn' : n' = { m with environment := n.environment, steps := n.steps }.withLogs
      (sink.receive n.sink.captured) (warnings ++ n.warnings) :=
    Machine.ext hframe.limits halike.environment.symm hframe.routines hsink hwarnings
      hframe.depth halike.steps.symm
  rw [← hn']
  exact h'

/-- **Logs are only added to, and never read.**  With some fuel, a block either
ends on no machine that differs from the given one in its logs, or it ends on
every such machine: with the same diagnostic if any, the same variables and after
as many steps, and with the same text received behind whatever was printed, by a
receiver of whatever kind, and the same warnings noted behind whatever was noted. -/
theorem logs_of_run (fuel : Nat) (operations : List Operation) (m : Machine) :
    (∀ sink warnings, (m.withLogs sink warnings).runBlock fuel operations = .outOfFuel) ∨
      ∃ r environment steps text notes, ∀ sink warnings,
        (m.withLogs sink warnings).runBlock fuel operations =
          .ended r ({ m with environment, steps }.withLogs (sink.receive text)
            (warnings ++ notes)) := by
  rcases Outcome.eq_outOfFuel_or_ended
    ((m.withLogs .emptyBuffer #[]).runBlock fuel operations) with hnone | ⟨r, n, hended⟩
  · left
    intro sink warnings
    have hrel := (m.alike_withLogs sink .emptyBuffer warnings #[]).run fuel (.block operations)
    rcases Outcome.eq_outOfFuel_or_ended
      ((m.withLogs sink warnings).runBlock fuel operations) with h | ⟨r, n, h⟩
    · exact h
    · obtain ⟨r', n', h', -⟩ := hrel.ended h
      exact absurd (hnone.symm.trans h') (Outcome.ended_ne_outOfFuel r' n')
  · right
    exact ⟨r, n.environment, n.steps, n.sink.captured, n.warnings,
      fun sink warnings => Machine.runBlock_withLogs hended sink warnings⟩

end JsonScript
