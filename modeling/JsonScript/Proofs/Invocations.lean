import JsonScript.CommandLine.Invocation
import JsonScript.Proofs.Independence
import JsonScript.Proofs.Settings
import Mathlib

/-!
# The command line and the library

Running a file from the command line prints to the console; the library captures what
is printed in a buffer. Logs are never read, so the two runs go the same way and print
the same text, also if they fail. The response to an invocation is therefore told by
the library's run alone (`Response.ofText?`): the captured text, one line for each
warning, and one more for the error if there is one.

The path and the options are looked at first. If one of them is refused, the response
is the same whatever files there are and with no fuel at all, so nothing was run.

## Main results

* `Command.ofArguments_path` — a path may stand without the word `run` before it.
* `Machine.run_console_rel_buffer` — the console is written what a buffer captures.
* `respond_agrees_with_library` — invocations that ask for a file to be run.
-/

namespace JsonScript

/-! ## Arguments -/

/-- What a first argument can be other than a path. -/
def Command.words : List String :=
  ["run", "repl", "help", "--help", "-h", "version", "--version", "-v"]

/-- A path may stand alone, unless it is one of these words. -/
theorem Command.ofArguments_path {path : String} (h : path ∉ words) (flags : List String) :
    ofArguments (path :: flags) = .runFile path flags := by
  simp only [words, List.mem_cons, List.not_mem_nil, or_false, not_or] at h
  simp [ofArguments, h]

/-- No word is the name of a document file. -/
theorem Command.not_mem_words_of_hasExtension {path : String}
    (h : Invocation.hasExtension path = true) : path ∉ words := by
  intro hword
  have hnone : ∀ word ∈ words, Invocation.hasExtension word = false := by decide +kernel
  rw [hnone path hword] at h
  cases h

/-- The arguments ask for the file at the path to be run with these flags. -/
def Command.AsksFor (path : String) (flags arguments : List String) : Prop :=
  arguments = "run" :: path :: flags ∨ arguments = path :: flags ∧ path ∉ words

theorem Command.AsksFor.respond {path : String} {flags arguments : List String}
    (h : AsksFor path flags arguments) (fuel : Nat) (inv : Invocation) :
    ({ inv with arguments }).respond fuel = inv.runFile fuel path flags := by
  have hcommand : ofArguments arguments = .runFile path flags := by
    rcases h with rfl | ⟨rfl, hpath⟩
    · rfl
    · exact ofArguments_path hpath flags
  rw [Invocation.respond, hcommand]
  rfl

/-! ## Runs on the console and in a buffer -/

/-- A new machine that writes to the console runs a program like one that captures in a
buffer: it writes what the other one captures, and notes the same warnings. -/
theorem Machine.run_console_rel_buffer (fuel : Nat) (limits : Limits) (p : Program) :
    Outcome.Rel (fun r m r' m' => r = r' ∧ m.sink.written = m'.sink.captured ∧
        m.warnings = m'.warnings)
      ((start limits (.console "")).run fuel p) ((start limits .emptyBuffer).run fuel p) := by
  have halike : ((start limits (.console "")).load p).Alike ((start limits .emptyBuffer).load p) :=
    alike_load rfl _ p
  refine (halike.run fuel (.block p.main)).mono fun r m r' m' h => ?_
  obtain ⟨rfl, -, lines, notes, hconsole, hbuffer⟩ := h
  refine ⟨rfl, ?_, hconsole.warnings.trans hbuffer.warnings.symm⟩
  rw [hconsole.sink, hbuffer.sink, Sink.printlns_eq_receive, Sink.printlns_eq_receive]
  rfl

/-- The response that tells what the library does with a text: it reads a program and
runs it on a new machine with a buffer. What is captured is the output, also if the run
fails; each warning gets a line, in the order in which they were noted, and the error gets
the last one. -/
def Response.ofText? (refusal : String → String) (fuel : Nat) (limits : Limits) (text : String) :
    Option Response :=
  match Program.read refusal text with
  | .error d => some ⟨1, "", "error: " ++ d.render ++ "\n"⟩
  | .ok p =>
      let warned (m : Machine) : String :=
        String.join (m.warnings.toList.map fun d => "warning: " ++ d.render ++ "\n")
      match (Machine.start limits .emptyBuffer).run fuel p with
      | .done m => some ⟨0, m.sink.captured, warned m⟩
      | .failed d m => some ⟨1, m.sink.captured, warned m ++ "error: " ++ d.render ++ "\n"⟩
      | .outOfFuel => none

/-! ## Responses -/

namespace Invocation

section Files

variable {inv : Invocation} {path : String} {flags : List String} (fuel : Nat)

theorem runFile_of_not_hasExtension (h : hasExtension path = false) :
    inv.runFile fuel path flags = some (.misuse
      ("the file must have a " ++ Texts.extension ++ " extension: '" ++ path ++ "'")) := by
  rw [runFile, h, if_neg Bool.false_ne_true]

theorem runFile_of_parse_error (h : hasExtension path = true) {e : OptionError}
    (hflags : Options.parse (Limits.ofSettings inv.settings) flags = .error e) :
    inv.runFile fuel path flags = some (.misuse e.message) := by
  rw [runFile, h, if_pos rfl, hflags]

/-- The response to a file that can be read as text is told by the library. -/
theorem runFile_of_text (h : hasExtension path = true) {limits : Limits}
    (hflags : Options.parse (Limits.ofSettings inv.settings) flags = .ok limits)
    {text : String} (htext : (inv.files path).textOf path = .ok text) :
    inv.runFile fuel path flags =
      Response.ofText? inv.platform.refusal fuel limits text := by
  rw [runFile, h, if_pos rfl, hflags, Response.ofText?]
  simp only [Machine.runFile, htext, Except.bind]
  cases Program.read inv.platform.refusal text with
  | error d => rfl
  | ok p =>
      have hrel := Machine.run_console_rel_buffer fuel limits p
      simp only
      generalize (Machine.start limits (.console "")).run fuel p = o at hrel
      generalize (Machine.start limits .emptyBuffer).run fuel p = o' at hrel
      cases hrel with
      | done hends =>
          obtain ⟨-, hwritten, hwarnings⟩ := hends
          simp only [Response.ofRun, hwritten, hwarnings]
          rfl
      | failed hends =>
          obtain ⟨hd, hwritten, hwarnings⟩ := hends
          simp only [Response.ofRun, Option.some.inj hd, hwritten, hwarnings]
          rfl
      | outOfFuel => rfl

end Files

/-- **The command line agrees with the library.**  A file whose name has the extension
may be named alone or behind the word `run`, with the same response. Take any arguments
that ask for a file to be run, and the limits that the settings ask for. If the name of the
file lacks the extension, or else if the flags are no options on top of these limits, the
response is a complaint with exit code 1 and nothing on the standard output, whatever the
files hold and with no fuel at all: nothing was run. Otherwise, if the file holds a text, the
response is told by what the library does with the text under the limits that the flags
make. -/
theorem respond_agrees_with_library (inv : Invocation) (path : String) (flags : List String)
    (fuel : Nat) {base : Limits} (hbase : base.FromSettings inv.settings) :
    (hasExtension path = true →
      ({ inv with arguments := path :: flags }).respond fuel =
        ({ inv with arguments := "run" :: path :: flags }).respond fuel) ∧
    ∀ arguments, Command.AsksFor path flags arguments →
      let response := ({ inv with arguments }).respond fuel
      let options := Options.parse base flags
      (hasExtension path = false → response = some
        ⟨1, "", "error: the file must have a .jayson extension: '" ++ path ++ "'\n" ++
          Texts.usage⟩) ∧
      (hasExtension path = true → ∀ e, options = .error e → response = some
        ⟨1, "", "error: " ++ e.message ++ "\n" ++ Texts.usage⟩) ∧
      (hasExtension path = true → ∀ limits, options = .ok limits → ∀ content text,
        inv.files path = .bytes content → String.fromUTF8? content = some text →
          response = Response.ofText? inv.platform.refusal fuel limits text) := by
  obtain rfl : Limits.ofSettings inv.settings = base := (Limits.ofSettings_eq_iff base).2 hbase
  refine ⟨fun h => ?_, fun arguments hasks => ⟨fun h => ?_, fun h e hflags => ?_, ?_⟩⟩
  · have hpath := Command.not_mem_words_of_hasExtension h
    have halone : Command.AsksFor path flags (path :: flags) := .inr ⟨rfl, hpath⟩
    have hnamed : Command.AsksFor path flags ("run" :: path :: flags) := .inl rfl
    rw [halone.respond, hnamed.respond]
  · rw [hasks.respond, runFile_of_not_hasExtension fuel h, Response.misuse]
    simp only [String.append_assoc]
    rfl
  · rw [hasks.respond, runFile_of_parse_error fuel h hflags, Response.misuse]
  · intro h limits hflags content text hfile hcontent
    have htext : (inv.files path).textOf path = .ok text := by
      rw [hfile, FileRead.textOf, hcontent]
    rw [hasks.respond, runFile_of_text fuel h hflags htext]

/-- A run that warns twice, prints and fails within the steps that the flags allow, though not
within those of the settings: no flag, or one for the depth alone, leaves the setting as it
is. A file that holds no JSON text, the same file behind a flag without a value, and a file of
another name. -/
theorem respond_agrees_with_library_failing :
    let text := "[\x7b\"zap\":[],\"zip\":[]\x7d,\x7b\"print\":\x7b\"literal\":\"hi\"\x7d\x7d," ++
      "\x7b\"print\":\"x\"\x7d]"
    let inv : Invocation := {
      platform := ⟨fun _ => false, fun _ => "expected value at line 1 column 1"⟩
      arguments := []
      settings := fun name => if name = "JAYSON_MAX_STEPS" then some " 3 " else none
      files := fun path => .bytes (if path = "b.jayson" then "oops" else text).toUTF8
      input := "" }
    let flags := ["--max-steps", "4"]
    let response (arguments : List String) := ({ inv with arguments }).respond 9
    let warnings := "warning: [at main[0]] Error: unknown operation 'zap'\n" ++
      "warning: [at main[0]] Error: unknown operation 'zip'\n"
    let usage := "Usage: jayson <file.jayson> [--max-steps N] [--max-depth N]\n" ++
      "       jayson help\n"
    Limits.FromSettings inv.settings ⟨128, some 3⟩ ∧
      response ("a.jayson" :: flags) = response ("run" :: "a.jayson" :: flags) ∧
      response ("run" :: "a.jayson" :: flags) = some ⟨1, "hi\n",
        warnings ++ "error: [at main[2]] Error: undefined variable 'x'\n"⟩ ∧
      (∀ flags ∈ [[], ["--max-depth", "7"]], response ("a.jayson" :: flags) = some ⟨1, "hi\n",
        warnings ++ "error: [at main[2]] Error: step limit of 3 operations exceeded\n"⟩) ∧
      response ["b.jayson"] = some
        ⟨1, "", "error: Error: invalid JSON: expected value at line 1 column 1\n"⟩ ∧
      response ["a.jayson", "--max-steps"] = some
        ⟨1, "", "error: missing value for '--max-steps'\n" ++ usage⟩ ∧
      response ["run", "help"] = some
        ⟨1, "", "error: the file must have a .jayson extension: 'help'\n" ++ usage⟩ := by
  intro text inv flags response warnings usage
  have hbase : Limits.FromSettings inv.settings ⟨128, some 3⟩ :=
    (Limits.ofSettings_eq_iff _).1 (by decide +kernel)
  have hextension : hasExtension "a.jayson" = true := by decide +kernel
  have hextension' : hasExtension "b.jayson" = true := by decide +kernel
  have hother : hasExtension "help" = false := by decide +kernel
  have husage : Texts.usage = usage := rfl
  have hoptions : Options.parse ⟨128, some 3⟩ flags = .ok ⟨128, some 4⟩ := by
    have hfour : Counter.read? "4" = some 4 := by decide +kernel
    rw [Options.parse_pair, Options.applyFlag, if_pos rfl, hfour]
    rfl
  have hkept : ∀ flags ∈ [[], ["--max-depth", "7"]], ∃ maxDepth,
      Options.parse ⟨128, some 3⟩ flags = .ok ⟨maxDepth, some 3⟩ := by
    have hseven : Counter.read? "7" = some 7 := by decide +kernel
    refine List.forall_mem_cons.2 ⟨⟨128, rfl⟩, List.forall_mem_singleton.2 ⟨7, ?_⟩⟩
    rw [Options.parse_pair, Options.applyFlag, if_neg (by decide), if_pos rfl, hseven]
    rfl
  have hcontent : String.fromUTF8? text.toUTF8 = some text := by cbv
  have hread : Program.read inv.platform.refusal text = .ok ⟨[], .empty, [
      .act ⟨"main", [.item 0]⟩ (.unknown "zap"),
      .act ⟨"main", [.item 0]⟩ (.unknown "zip"),
      .act ⟨"main", [.item 1]⟩ (.print [.literal (.string "hi")]),
      .act ⟨"main", [.item 2]⟩ (.print [.variable "x"])]⟩ := by cbv
  have hran : Response.ofText? inv.platform.refusal 9 ⟨128, some 4⟩ text = some ⟨1, "hi\n",
        warnings ++ "error: [at main[2]] Error: undefined variable 'x'\n"⟩ := by
    rw [Response.ofText?, hread]
    decide +kernel
  have hstopped (maxDepth : Nat) :
      Response.ofText? inv.platform.refusal 9 ⟨maxDepth, some 3⟩ text = some ⟨1, "hi\n",
        warnings ++ "error: [at main[2]] Error: step limit of 3 operations exceeded\n"⟩ := by
    rw [Response.ofText?, hread]
    rfl
  have hoops : Response.ofText? inv.platform.refusal 9 ⟨128, some 3⟩ "oops" = some
      ⟨1, "", "error: Error: invalid JSON: expected value at line 1 column 1\n"⟩ := by
    have hrefused : Program.read inv.platform.refusal "oops" =
        .error ⟨.invalidJson "expected value at line 1 column 1", none⟩ := by cbv
    rw [Response.ofText?, hrefused]
    rfl
  obtain ⟨hsame, hasked⟩ := respond_agrees_with_library inv "a.jayson" flags 9 hbase
  obtain ⟨-, -, hresponse⟩ := hasked ("run" :: "a.jayson" :: flags) (.inl rfl)
  refine ⟨hbase, hsame hextension, ?allowed, ?kept, ?oops, ?missing, ?refused⟩
  case allowed => exact (hresponse hextension _ hoptions _ text rfl hcontent).trans hran
  case kept =>
    intro flags hflags
    obtain ⟨maxDepth, hoptions⟩ := hkept flags hflags
    obtain ⟨-, hasked⟩ := respond_agrees_with_library inv "a.jayson" flags 9 hbase
    obtain ⟨-, -, hresponse⟩ := hasked ("a.jayson" :: flags) (.inr ⟨rfl, by decide⟩)
    exact (hresponse hextension _ hoptions _ text rfl hcontent).trans (hstopped maxDepth)
  case oops =>
    obtain ⟨-, hasked⟩ := respond_agrees_with_library inv "b.jayson" [] 9 hbase
    obtain ⟨-, -, hresponse⟩ := hasked ["b.jayson"] (.inr ⟨rfl, by decide⟩)
    exact (hresponse hextension' _ rfl _ "oops" rfl (by cbv)).trans hoops
  case missing =>
    obtain ⟨-, hasked⟩ := respond_agrees_with_library inv "a.jayson" ["--max-steps"] 9 hbase
    obtain ⟨-, hmissing, -⟩ := hasked ["a.jayson", "--max-steps"] (.inr ⟨rfl, by decide⟩)
    exact hmissing hextension (.missingValue "--max-steps") rfl
  case refused =>
    obtain ⟨-, hasked⟩ := respond_agrees_with_library inv "help" [] 9 hbase
    obtain ⟨hrefused, -, -⟩ := hasked ["run", "help"] (.inl rfl)
    exact hrefused hother

end Invocation

end JsonScript
