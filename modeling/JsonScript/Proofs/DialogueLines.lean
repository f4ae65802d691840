import JsonScript.CommandLine.Dialogue
import JsonScript.Proofs.Frame
import JsonScript.Proofs.Logs
import JsonScript.Proofs.StepBudget
import Mathlib

/-!
# Lines of a dialogue

A dialogue answers its lines one after the other on one machine, which every line
may change. `Dialogue.session` keeps what the dialogue itself forgets: which line
got which reply, and the machine at the end. So two dialogues can be compared line
by line.

Most words of the dialogue, and lines that cannot be read, run nothing. Such a
line gets a reply and leaves the machine as it was, so it might as well be left
out (`isIdle`). The other lines are a fresh start, the end, and runs. Between two
lines the machine is ready for the next one (`Ready`): it has the limits of the
dialogue, it has shown whatever was printed, and no warning is pending, because a
run hands all its warnings over with its reply, also if it fails.

## Main results

* `kinds` — what a line can be.
* `session_idle` — lines that run nothing leave no trace.
* `session_append_cons` — a line is answered on the machine left by those before.
* `Ready.session` — what holds between two lines.
* `sessions` — all of it together.
-/

namespace JsonScript

namespace Dialogue

/-! ## Sessions -/

/-- The lines that a dialogue answers, each with its reply, and the machine at the
end. -/
def session (platform : Platform) (fuel : Nat) (m : Machine) :
    List String → Option (List (String × Reply) × Machine)
  | [] => some ([], m)
  | line :: rest =>
      match turn platform fuel m line with
      | .next reply m' =>
          (session platform fuel m' rest).map fun (replies, n) => ((line, reply) :: replies, n)
      | .over reply => some ([(line, reply)], m)
      | .outOfFuel => none

/-- The line ends the dialogue. -/
def isFarewell (line : String) : Bool := ["exit", "quit"].contains (Text.trim line)

/-- The line runs nothing, and the dialogue goes on as it was: it is blank, asks
for help or for the variables, or cannot be read. -/
def isIdle (platform : Platform) (line : String) : Bool :=
  match Text.trim line with
  | "" | "help" | "vars" => true
  | "exit" | "quit" | "clear" => false
  | command =>
      match Block.readInput platform.refusal command with
      | .error _ => true
      | .ok _ => false

/-- What the lines come to that are not idle. -/
def trace (platform : Platform) (s : List (String × Reply) × Machine) :
    List (String × Reply) × Machine :=
  (s.1.filter fun entry => !isIdle platform entry.1, s.2)

/-! ## One line -/

/-- The line about the error that a run ended with, if it did. -/
def errorText (error : Option Diagnostic) : String := error.elim "" fun d => d.render ++ "\n"

/-- The machine after its printed text was shown and its warnings were written. -/
def settle (m : Machine) : Machine := { m with sink := m.sink.shown, warnings := #[] }

/-- The words that a dialogue knows, and the blank line. -/
def words : List String := ["", "exit", "quit", "help", "clear", "vars"]

/-- No word can be read. -/
theorem not_word_of_readInput {platform : Platform} {command : String} {operations : List Operation}
    (h : Block.readInput platform.refusal command = .ok operations) : command ∉ words := by
  intro hword
  have hjson : ∀ word ∈ words, (Json.read word).isOk = false := by decide +kernel
  rw [Block.readInput] at h
  cases hread : Json.read command with
  | error e =>
      rw [hread] at h
      cases h
  | ok document =>
      have hnone := hjson command hword
      rw [hread] at hnone
      cases hnone

/-- What a line can be: the end, one that runs nothing, a fresh start, or
operations. -/
theorem kinds (platform : Platform) (line : String) :
    isFarewell line = true ∨ isIdle platform line = true ∨ Text.trim line = "clear" ∨
      ∃ operations, Block.readInput platform.refusal (Text.trim line) = .ok operations := by
  rw [isFarewell, isIdle.eq_def]
  split
  case h_1 | h_2 | h_3 => exact .inr (.inl rfl)
  case h_4 hword | h_5 hword => exact .inl (by rw [hword]; rfl)
  case h_6 hword => exact .inr (.inr (.inl hword))
  case h_7 =>
    split
    · exact .inr (.inl rfl)
    · rename_i operations hread
      exact .inr (.inr (.inr ⟨operations, hread⟩))

theorem isFarewell_iff {line : String} :
    isFarewell line = true ↔ Text.trim line = "exit" ∨ Text.trim line = "quit" := by
  simp [isFarewell]

section Turns

variable {platform : Platform} {fuel : Nat} {m : Machine} {line : String}

theorem turn_of_not_word (h : Text.trim line ∉ words) :
    turn platform fuel m line = execute platform fuel m (Text.trim line) := by
  rw [turn.eq_def]
  split
  case h_7 => rfl
  all_goals
    rename_i hword
    rw [hword] at h
    exact absurd (by decide) h

theorem turn_of_isFarewell (h : isFarewell line = true) :
    turn platform fuel m line = .over ⟨Texts.farewell, ""⟩ := by
  rcases isFarewell_iff.1 h with h | h <;> simp [turn, h]

/-- A line that runs nothing leaves the machine alone, and at most says why it
could not be read. -/
theorem turn_of_isIdle (m : Machine) (h : isIdle platform line = true) :
    ∃ reply, (∀ fuel, turn platform fuel m line = .next reply m) ∧
      (Text.trim line ∈ ["", "help", "vars"] ∧ reply.errors = "" ∨
        ∃ d, Block.readInput platform.refusal (Text.trim line) = .error d ∧
          reply = ⟨"", d.render ++ "\n"⟩) := by
  rw [isIdle.eq_def] at h
  split at h
  case h_1 hword | h_2 hword | h_3 hword => simp [turn, hword, silence]
  case h_4 | h_5 | h_6 => cases h
  case h_7 hblank hhelp hvars hexit hquit hclear =>
    have hword : Text.trim line ∉ words := by
      simp only [words, List.mem_cons, List.not_mem_nil, or_false, not_or]
      exact ⟨hblank, hexit, hquit, hhelp, hclear, hvars⟩
    split at h
    · rename_i d hread
      exact ⟨_, fun fuel => by rw [turn_of_not_word hword, execute, hread], .inr ⟨d, hread, rfl⟩⟩
    · cases h

/-- A line that can be read is not idle. -/
theorem isIdle_of_readInput {operations : List Operation}
    (h : Block.readInput platform.refusal (Text.trim line) = .ok operations) :
    isIdle platform line = false := by
  have hword := not_word_of_readInput h
  rw [isIdle.eq_def]
  split
  case h_1 hcommand | h_2 hcommand | h_3 hcommand =>
    rw [hcommand] at hword
    exact absurd (by decide) hword
  case h_4 | h_5 | h_6 => rfl
  case h_7 => rw [h]

theorem turn_of_clear (h : Text.trim line = "clear") :
    turn platform fuel m line = .next ⟨"State cleared.\n", ""⟩ m.reset := by
  simp [turn, h]

theorem turn_of_outOfFuel {operations : List Operation}
    (hread : Block.readInput platform.refusal (Text.trim line) = .ok operations)
    (hrun : m.runBlock fuel operations = .outOfFuel) : turn platform fuel m line = .outOfFuel := by
  rw [turn_of_not_word (not_word_of_readInput hread), execute, hread]
  simp only [hrun]

/-- A line of operations hands over what they printed, then the warnings, then the
error if any. -/
theorem turn_of_run {operations : List Operation} {r : Option Diagnostic} {m' : Machine}
    (hread : Block.readInput platform.refusal (Text.trim line) = .ok operations)
    (hrun : m.runBlock fuel operations = .ended r m') :
    turn platform fuel m line =
      .next ⟨m'.sink.written, warningLines m'.warnings ++ errorText r⟩ (settle m') := by
  rw [turn_of_not_word (not_word_of_readInput hread), execute, hread]
  simp only [hrun]
  cases r <;> rfl

/-- What answering a line can come to. -/
inductive Answered (platform : Platform) (fuel : Nat) (m : Machine) (line : String) :
    Turn → Prop where
  | farewell (h : isFarewell line = true) :
      Answered platform fuel m line (.over ⟨Texts.farewell, ""⟩)
  | idle {reply : Reply} (always : ∀ n, turn platform n m line = .next reply m) :
      Answered platform fuel m line (.next reply m)
  | clear (h : Text.trim line = "clear") :
      Answered platform fuel m line (.next ⟨"State cleared.\n", ""⟩ m.reset)
  | ran {operations : List Operation} {r : Option Diagnostic} {m' : Machine}
      (hread : Block.readInput platform.refusal (Text.trim line) = .ok operations)
      (hrun : m.runBlock fuel operations = .ended r m') :
      Answered platform fuel m line
        (.next ⟨m'.sink.written, warningLines m'.warnings ++ errorText r⟩ (settle m'))
  | stuck : Answered platform fuel m line .outOfFuel

theorem answered (platform : Platform) (fuel : Nat) (m : Machine) (line : String) :
    Answered platform fuel m line (turn platform fuel m line) := by
  rcases kinds platform line with hfarewell | hidle | hclear | ⟨operations, hread⟩
  · rw [turn_of_isFarewell hfarewell]
    exact .farewell hfarewell
  · obtain ⟨reply, hturn, -⟩ := turn_of_isIdle m hidle
    rw [hturn fuel]
    exact .idle hturn
  · rw [turn_of_clear hclear]
    exact .clear hclear
  · rcases Outcome.eq_outOfFuel_or_ended (m.runBlock fuel operations) with hrun | ⟨r, m', hrun⟩
    · rw [turn_of_outOfFuel hread hrun]
      exact .stuck
    · rw [turn_of_run hread hrun]
      exact .ran hread hrun

theorem isFarewell_of_over {reply : Reply} (h : turn platform fuel m line = .over reply) :
    isFarewell line = true := by
  have hanswered := answered platform fuel m line
  rw [h] at hanswered
  cases hanswered with
  | farewell hfarewell => exact hfarewell

end Turns

/-! ## Composing sessions -/

section Sessions

variable {platform : Platform} {fuel : Nat} {m : Machine}

/-- A dialogue writes the replies of its session, and says goodbye if nobody did. -/
theorem converse_eq_session (lines : List String) :
    ∀ m, converse platform fuel m lines = (session platform fuel m lines).map fun s =>
      s.1.map Prod.snd ++ if lines.any isFarewell then [] else [⟨Texts.farewell, ""⟩] := by
  induction lines with
  | nil => exact fun m => rfl
  | cons line rest ih =>
      intro m
      rw [converse, session, List.any_cons]
      cases hturn : turn platform fuel m line with
      | next reply m' =>
          have hno : isFarewell line = false := by
            refine Bool.eq_false_iff.2 fun hfarewell => ?_
            cases (turn_of_isFarewell hfarewell).symm.trans hturn
          simp only [ih m', hno, Bool.false_or, Option.map_map]
          rfl
      | «over» reply => simp [isFarewell_of_over hturn]
      | outOfFuel => rfl

/-- Lines that run nothing leave no trace. -/
theorem session_idle (lines : List String) :
    ∀ m, (session platform fuel m lines).map (trace platform) =
      session platform fuel m (lines.filter (!isIdle platform ·)) := by
  induction lines with
  | nil => exact fun m => rfl
  | cons line rest ih =>
      intro m
      cases hidle : isIdle platform line with
      | true =>
          obtain ⟨reply, hturn, -⟩ := turn_of_isIdle m hidle
          rw [session, hturn fuel, List.filter_cons_of_neg (by simp [hidle]), ← ih m]
          simp [Option.map_map, Function.comp_def, trace, hidle]
          rfl
      | false =>
          rw [List.filter_cons_of_pos (by simp [hidle]), session, session]
          cases turn platform fuel m line with
          | next reply m' =>
              simp [← ih m', Option.map_map, Function.comp_def, trace, hidle]
          | «over» reply => simp [trace, hidle]
          | outOfFuel => rfl

/-- A session goes on where another one ended, unless that was the end of the
dialogue. -/
theorem session_append (rest : List String) {before : List String}
    (hgoes : ∀ line ∈ before, isFarewell line = false) :
    ∀ m, session platform fuel m (before ++ rest) = (session platform fuel m before).bind fun s =>
      (session platform fuel s.2 rest).map fun s' => (s.1 ++ s'.1, s'.2) := by
  induction before with
  | nil => intro m; simp [session]
  | cons line before ih =>
      intro m
      obtain ⟨hline, hgoes⟩ := List.forall_mem_cons.1 hgoes
      rw [List.cons_append, session, session]
      cases hturn : turn platform fuel m line with
      | next reply m' => simp [ih hgoes m', Option.map_bind, Option.bind_map, Function.comp_def]
      | «over» reply => exact absurd (isFarewell_of_over hturn) (by simp [hline])
      | outOfFuel => rfl

/-- After lines that do not end the dialogue, a line is answered on the machine
that they left behind. -/
theorem session_append_cons {line : String} (after : List String) {before : List String}
    (hgoes : ∀ line ∈ before, isFarewell line = false) :
    session platform fuel m (before ++ line :: after) =
      (session platform fuel m before).bind fun s => match turn platform fuel s.2 line with
      | .next reply m' => (session platform fuel m' after).map fun s' =>
          (s.1 ++ (line, reply) :: s'.1, s'.2)
      | .over reply => some (s.1 ++ [(line, reply)], s.2)
      | .outOfFuel => none := by
  rw [session_append _ hgoes]
  congr 1
  funext s
  rw [session]
  cases turn platform fuel s.2 line <;> simp [Function.comp_def]

end Sessions

/-! ## Fuel -/

section Fuel

variable {platform : Platform} {fuel n : Nat} {m : Machine}

/-- More fuel keeps the answer to a line. -/
theorem turn_mono {line : String} (h : turn platform fuel m line ≠ .outOfFuel) (hle : fuel ≤ n) :
    turn platform n m line = turn platform fuel m line := by
  have hanswered := answered platform fuel m line
  generalize turn platform fuel m line = t at hanswered h ⊢
  cases hanswered with
  | farewell hfarewell => exact turn_of_isFarewell hfarewell
  | idle always => exact always n
  | clear hclear => exact turn_of_clear hclear
  | ran hread hrun => exact turn_of_run hread (Task.run_mono (t := .block _) hrun hle)
  | stuck => exact absurd rfl h

/-- More fuel keeps the answers of a session. -/
theorem session_mono {lines : List String} {s : List (String × Reply) × Machine}
    (h : session platform fuel m lines = some s) (hle : fuel ≤ n) :
    session platform n m lines = some s := by
  induction lines generalizing m s with
  | nil => exact h
  | cons line rest ih =>
      have hturn : turn platform n m line = turn platform fuel m line := by
        refine turn_mono (fun hnone => ?_) hle
        rw [session, hnone] at h
        cases h
      rw [session] at h ⊢
      rw [hturn]
      cases hturn' : turn platform fuel m line with
      | next reply m' =>
          rw [hturn'] at h
          obtain ⟨s', hs', rfl⟩ := Option.map_eq_some_iff.1 h
          simp only [ih hs', Option.map_some]
      | «over» reply => rw [hturn'] at h; exact h
      | outOfFuel => rw [hturn'] at h; cases h

end Fuel

/-! ## Between two lines -/

/-- What holds of the machine of a dialogue whenever a line is to be answered. -/
structure Ready (limits : Limits) (m : Machine) : Prop where
  limits : m.limits = limits
  sink : m.sink = .console ""
  warnings : m.warnings = #[]

theorem ready_start (limits : Limits) : Ready limits (start limits) := ⟨rfl, rfl, rfl⟩

namespace Ready

variable {platform : Platform} {limits : Limits} {fuel : Nat} {m m' : Machine}

/-- To forget everything is to start again. -/
theorem reset (h : Ready limits m) : m.reset = start limits := by
  rw [Machine.reset, h.limits, h.sink]
  rfl

/-- A run prints to the console, so there is a text to be shown. -/
theorem exists_console {operations : List Operation} {r : Option Diagnostic}
    (h : Ready limits m) (hrun : m.runBlock fuel operations = .ended r m') :
    ∃ text, m'.sink = .console text := by
  have hruns : Runs (.block operations) m r m' := .of_run hrun
  obtain ⟨lines, _, hadds⟩ := hruns.extends.logs
  rw [hadds.sink, Sink.printlns_eq_receive, h.sink]
  exact ⟨_, rfl⟩

/-- A run keeps the limits, so that the machine is ready again once the text is shown and
the warnings are written. -/
theorem settle {operations : List Operation} {r : Option Diagnostic} (h : Ready limits m)
    (hrun : m.runBlock fuel operations = .ended r m') : Ready limits (settle m') := by
  have hruns : Runs (.block operations) m r m' := .of_run hrun
  obtain ⟨text, hsink⟩ := h.exists_console hrun
  exact ⟨hruns.sameFrame.limits.trans h.limits, by rw [Dialogue.settle, hsink]; rfl, rfl⟩

theorem turn {line : String} {reply : Reply} (h : Ready limits m)
    (hturn : turn platform fuel m line = .next reply m') : Ready limits m' := by
  have hanswered := answered platform fuel m line
  rw [hturn] at hanswered
  cases hanswered with
  | idle => exact h
  | clear =>
      rw [h.reset]
      exact ready_start limits
  | ran _ hrun => exact h.settle hrun

theorem session {lines : List String} {s : List (String × Reply) × Machine}
    (h : Ready limits m) (hsession : session platform fuel m lines = some s) :
    Ready limits s.2 := by
  induction lines generalizing m s with
  | nil =>
      cases hsession
      exact h
  | cons line rest ih =>
      rw [Dialogue.session] at hsession
      cases hturn : Dialogue.turn platform fuel m line with
      | next reply m' =>
          rw [hturn] at hsession
          obtain ⟨s', hs', rfl⟩ := Option.map_eq_some_iff.1 hsession
          have hready : Ready limits s'.2 := ih (h.turn hturn) hs'
          exact hready
      | «over» reply =>
          rw [hturn] at hsession
          cases hsession
          exact h
      | outOfFuel =>
          rw [hturn] at hsession
          cases hsession

end Ready

/-! ## Whole sessions -/

/-- Under a step limit, a session has an answer to each of its lines. -/
theorem exists_session (platform : Platform) {limits : Limits} {limit : Nat}
    (hlimit : limits.maxSteps = some limit) (lines : List String) :
    ∀ m, Ready limits m → ∃ fuel s, session platform fuel m lines = some s := by
  induction lines with
  | nil => exact fun m _ => ⟨0, _, rfl⟩
  | cons line rest ih =>
      intro m hm
      have goes_on {fuel : Nat} {reply : Reply} {m' : Machine}
          (hturn : turn platform fuel m line = .next reply m') :
          ∃ fuel s, session platform fuel m (line :: rest) = some s := by
        obtain ⟨more, s, hs⟩ := ih m' (hm.turn hturn)
        have hboth : turn platform (max fuel more) m line = .next reply m' := by
          rw [turn_mono (by rw [hturn]; exact nofun) (Nat.le_max_left ..), hturn]
        refine ⟨max fuel more, ((line, reply) :: s.1, s.2), ?_⟩
        rw [session, hboth]
        simp only [session_mono hs (Nat.le_max_right ..), Option.map_some]
      rcases kinds platform line with hfarewell | hidle | hclear | ⟨operations, hread⟩
      · exact ⟨0, _, by rw [session, turn_of_isFarewell hfarewell]⟩
      · obtain ⟨reply, hturn, -⟩ := turn_of_isIdle m hidle
        exact goes_on (hturn 0)
      · have hturn : turn platform 0 m line = _ := turn_of_clear hclear
        exact goes_on hturn
      · obtain ⟨r, m', hruns⟩ := Runs.exists_of_stepLimit (t := .block operations)
          (by rw [hm.limits]; exact hlimit)
        obtain ⟨fuel, hrun⟩ := hruns.exists_run
        exact goes_on (turn_of_run hread hrun)

/-- After the lines before it have got their replies, the line gets this one, and
whatever lines follow are answered on this machine. -/
def Answers (platform : Platform) (fuel : Nat) (limits : Limits) (before : List String)
    (replies : List (String × Reply)) (line : String) (reply : Reply) (m' : Machine) : Prop :=
  ∀ after, session platform fuel (start limits) (before ++ line :: after) =
    (session platform fuel m' after).map fun s => (replies ++ (line, reply) :: s.1, s.2)

/-- **Sessions.**  Consider the session of a dialogue that starts with some limits.
The dialogue writes the replies of the session. More fuel keeps the session, and
under a step limit there is one for any lines.

Lists of lines that differ in nothing but lines that run nothing — blank lines,
requests for help or for the variables, and lines that cannot be read — have
sessions with the same replies to all the other lines and the same machine at the
end.

Whenever a line is to be answered, no warning is pending and nothing printed is
held back. The end of the dialogue is the last line, whatever follows it. After
`clear`, lines are answered as in a new dialogue. A line that runs nothing writes
no warning. A line of operations writes what its run printed, then a line for each of
the warnings that its run noted, in their order, then one for the error if any; and the
next line is answered on a machine that has shown the text and has no warnings. -/
theorem sessions (platform : Platform) (limits : Limits) :
    (∀ limit, limits.maxSteps = some limit → ∀ lines,
      ∃ fuel s, session platform fuel (start limits) lines = some s) ∧
    ∀ fuel,
      (∀ lines, converse platform fuel (start limits) lines =
        (session platform fuel (start limits) lines).map fun s =>
          s.1.map Prod.snd ++ if lines.any isFarewell then [] else [⟨"Goodbye!\n", ""⟩]) ∧
      (∀ lines s, session platform fuel (start limits) lines = some s → ∀ more, fuel ≤ more →
        session platform more (start limits) lines = some s) ∧
      (∀ lines lines' : List String,
        lines.filter (!isIdle platform ·) = lines'.filter (!isIdle platform ·) →
        (session platform fuel (start limits) lines).map (trace platform) =
          (session platform fuel (start limits) lines').map (trace platform)) ∧
      ∀ before : List String, (∀ line ∈ before, isFarewell line = false) → ∀ replies m,
        session platform fuel (start limits) before = some (replies, m) →
        m.warnings = #[] ∧ m.sink = .console "" ∧ ∀ line,
          (isFarewell line = true → ∀ after,
            session platform fuel (start limits) (before ++ line :: after) =
              some (replies ++ [(line, ⟨"Goodbye!\n", ""⟩)], m)) ∧
          (Text.trim line = "clear" →
            Answers platform fuel limits before replies line ⟨"State cleared.\n", ""⟩
              (start limits)) ∧
          (isIdle platform line = true → ∃ reply : Reply,
            (Text.trim line ∈ ["", "help", "vars"] ∧ reply.errors = "" ∨
              ∃ d, Block.readInput platform.refusal (Text.trim line) = .error d ∧
                reply = ⟨"", d.render ++ "\n"⟩) ∧
            Answers platform fuel limits before replies line reply m) ∧
          ∀ operations, Block.readInput platform.refusal (Text.trim line) = .ok operations →
            ∀ r m', m.runBlock fuel operations = .ended r m' →
              ∃ text, m'.sink = .console text ∧
                Answers platform fuel limits before replies line
                  ⟨text, String.join
                      (m'.warnings.toList.map fun d => "warning: " ++ d.render ++ "\n") ++
                    r.elim "" fun d => d.render ++ "\n"⟩
                  { m' with sink := .console "", warnings := #[] } := by
  refine ⟨fun limit hlimit lines => exists_session platform hlimit lines _ (ready_start limits),
    fun fuel => ⟨fun lines => converse_eq_session lines _,
      fun lines s hs more hle => session_mono hs hle, ?_, ?_⟩⟩
  · intro lines lines' hsame
    rw [session_idle, session_idle, hsame]
  intro before hgoes replies m hbefore
  have hready : Ready limits m := (ready_start limits).session hbefore
  refine ⟨hready.warnings, hready.sink, fun line => ⟨?_, ?_, ?_, ?_⟩⟩
  · intro hfarewell after
    rw [session_append_cons after hgoes, hbefore, Option.bind_some, turn_of_isFarewell hfarewell]
    rfl
  · intro hclear after
    rw [session_append_cons after hgoes, hbefore, Option.bind_some, turn_of_clear hclear,
      hready.reset]
  · intro hidle
    obtain ⟨reply, hturn, herrors⟩ := turn_of_isIdle m hidle
    refine ⟨reply, herrors, fun after => ?_⟩
    rw [session_append_cons after hgoes, hbefore, Option.bind_some, hturn fuel]
  · intro operations hread r m' hrun
    obtain ⟨text, hsink⟩ := hready.exists_console hrun
    refine ⟨text, hsink, fun after => ?_⟩
    rw [session_append_cons after hgoes, hbefore, Option.bind_some, turn_of_run hread hrun, settle,
      hsink]
    rfl

/-- The first line warns twice, the second one prints, warns and fails. Looking at the
variables in between changes nothing, nor does a blank line or a text that is not JSON;
`clear` forgets the steps that were counted. -/
theorem sessions_warning :
    let platform : Platform := ⟨fun _ => false, fun _ => "expected value at line 1 column 1"⟩
    let limits : Limits := ⟨128, some 9⟩
    let warns := "[\x7b\"zap\":null\x7d,\x7b\"zip\":null\x7d]"
    let fails := "[\x7b\"print\":\x7b\"literal\":\"hi\"\x7d\x7d,\x7b\"hop\":null\x7d," ++
      "\x7b\"print\":\"x\"\x7d]"
    let warned : Reply := ⟨"",
      "warning: [at input[0]] Error: unknown operation 'zap'\n" ++
        "warning: [at input[1]] Error: unknown operation 'zip'\n"⟩
    let failed : Reply := ⟨"hi\n",
      "warning: [at input[1]] Error: unknown operation 'hop'\n" ++
        "[at input[2]] Error: undefined variable 'x'\n"⟩
    let refused : Reply := ⟨"", "Error: invalid JSON: expected value at line 1 column 1\n"⟩
    let after (steps : Nat) : Machine := { start limits with steps }
    (∃ fuel s, session platform fuel (start limits) [warns, fails] = some s) ∧
      session platform 9 (start limits) [warns, fails] =
        some ([(warns, warned), (fails, failed)], after 5) ∧
      (session platform 9 (start limits) [" ", warns, "vars", "?", fails]).map (trace platform) =
        (session platform 9 (start limits) [warns, fails]).map (trace platform) ∧
      session platform 9 (start limits) [warns, "?"] =
        some ([(warns, warned), ("?", refused)], after 2) ∧
      session platform 9 (start limits) [warns, "clear", fails] =
        some ([(warns, warned), ("clear", ⟨"State cleared.\n", ""⟩), (fails, failed)], after 3) ∧
      session platform 9 (start limits) [warns, "exit", fails] =
        some ([(warns, warned), ("exit", ⟨"Goodbye!\n", ""⟩)], after 2) := by
  intro platform limits warns fails warned failed refused after
  obtain ⟨hends, hsessions⟩ := sessions platform limits
  obtain ⟨-, -, hidle, hlines⟩ := hsessions 9
  let place (i : Nat) : Location := (Location.ofRoot "input").item i
  have hwarns : Block.readInput platform.refusal (Text.trim warns) =
      .ok [.act (place 0) (.unknown "zap"), .act (place 1) (.unknown "zip")] := by cbv
  have hfails : Block.readInput platform.refusal (Text.trim fails) =
      .ok [.act (place 0) (.print [.literal (.string "hi")]), .act (place 1) (.unknown "hop"),
        .act (place 2) (.print [.variable "x"])] := by cbv
  -- What the two runs leave behind, from any number of steps on.
  have hwarning : (start limits).runBlock 9 [.act (place 0) (.unknown "zap"),
      .act (place 1) (.unknown "zip")] = .ended none { after 2 with
        warnings := #[⟨.unknownOperation "zap", some (place 0)⟩,
          ⟨.unknownOperation "zip", some (place 1)⟩] } := rfl
  have hfailing (steps : Nat) (h : steps < 7) : (after steps).runBlock 9 [
      .act (place 0) (.print [.literal (.string "hi")]), .act (place 1) (.unknown "hop"),
      .act (place 2) (.print [.variable "x"])] =
        .ended (some ⟨.undefinedVariable "x", some (place 2)⟩) { after (steps + 3) with
          sink := .console "hi\n", warnings := #[⟨.unknownOperation "hop", some (place 1)⟩] } := by
    interval_cases steps <;> rfl
  -- What comes first in a dialogue, comes after no lines at all.
  obtain ⟨-, -, hfirst⟩ := hlines [] (List.forall_mem_nil _) [] (start limits) rfl
  have hwarned : session platform 9 (start limits) [warns] = some ([(warns, warned)], after 2) := by
    obtain ⟨text, hsink, hanswers⟩ := (hfirst warns).2.2.2 _ hwarns none _ hwarning
    cases hsink
    exact hanswers []
  have hfailed : session platform 9 (start limits) [fails] =
      some ([(fails, failed)], after 3) := by
    obtain ⟨text, hsink, hanswers⟩ := (hfirst fails).2.2.2 _ hfails _ _ (hfailing 0 (by decide))
    cases hsink
    exact hanswers []
  have hgoes : ∀ line ∈ [warns], isFarewell line = false := by decide +kernel
  obtain ⟨-, -, hsecond⟩ := hlines [warns] hgoes _ _ hwarned
  have hblank : isIdle platform " " = true := by decide +kernel
  have hvars : isIdle platform "vars" = true := by decide +kernel
  have hjunk : isIdle platform "?" = true := by decide +kernel
  refine ⟨hends 9 rfl [warns, fails], ?both, hidle _ _ ?idle, ?refused, ?clear,
    (hsecond "exit").1 (by decide +kernel) [fails]⟩
  case both =>
    obtain ⟨text, hsink, hanswers⟩ := (hsecond fails).2.2.2 _ hfails _ _ (hfailing 2 (by decide))
    cases hsink
    exact hanswers []
  case refused =>
    obtain ⟨reply, ⟨hword, -⟩ | ⟨d, hd, rfl⟩, hanswers⟩ := (hsecond "?").2.2.1 hjunk
    · exact absurd hword (by decide +kernel)
    · have herror : Block.readInput platform.refusal (Text.trim "?") =
          .error ⟨.invalidJson "expected value at line 1 column 1", none⟩ := by cbv
      cases hd.symm.trans herror
      exact hanswers []
  case idle =>
    simp [hblank, hvars, hjunk, isIdle_of_readInput hwarns, isIdle_of_readInput hfails]
  case clear =>
    have hclear := (hsecond "clear").2.1 (by decide +kernel) [fails]
    rw [hfailed] at hclear
    exact hclear

end Dialogue

end JsonScript
