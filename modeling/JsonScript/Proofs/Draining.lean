import JsonScript.Proofs.Logs
import JsonScript.Proofs.Session
import Mathlib.Data.List.DropRight
import Mathlib.Data.List.Forall2

/-!
# Draining the logs

Captured text and warnings may be taken away from a machine between any two
requests. Nobody else is to notice: put together, what was taken and what is left
is what the machine would have logged had nothing been taken.

The two logs are kept differently. The text outlives everything; the warnings are
forgotten whenever the machine starts over, and those that were taken before count
no more. So what was drawn so far (`Drawn`) follows the requests just as the
machine does, and it is put back in front of what the machine has
(`Drawn.putBack`): a request to the drained machine then corresponds to the same
request to the other one, and a take corresponds to nothing at all.

## Main results

* `Drawn.run_putBack`, `Drawn.serve_putBack` — what was put back is not read.
* `Drawn.history_putBack` — whole sessions, with and without the takes.
* `draining_restores` — taken texts and warnings, and what is left of them.
-/

/-- What is related stays so when both sides are mapped. -/
theorem Option.Rel.map {α β γ δ : Type*} {R : α → β → Prop} {S : γ → δ → Prop} {f : α → γ}
    {g : β → δ} {o : Option α} {o' : Option β} (h : Option.Rel R o o')
    (hfg : ∀ a b, R a b → S (f a) (g b)) : Option.Rel S (o.map f) (o'.map g) := by
  cases h with
  | some h => exact .some (hfg _ _ h)
  | none => exact .none

/-- What is related is also related in any way that follows for these two. -/
theorem Option.Rel.imp {α β : Type*} {R S : α → β → Prop} {o : Option α} {o' : Option β}
    (h : Option.Rel R o o') (hS : ∀ a b, a ∈ o → b ∈ o' → R a b → S a b) :
    Option.Rel S o o' := by
  cases h with
  | some h => exact .some (hS _ _ rfl rfl h)
  | none => exact .none

namespace JsonScript

/-! ## Histories -/

/-- A request that was served: the answer to it, and the machine after it. -/
structure Served where
  request : Request
  answer : Answer
  machine : Machine

namespace Machine

/-- Serves requests one after the other, and keeps a record. -/
def history (fuel : Nat) (m : Machine) : List Request → Option (List Served)
  | [] => some []
  | request :: rest =>
      (m.serve fuel request).bind fun (answer, m') =>
        (history fuel m' rest).map fun h => ⟨request, answer, m'⟩ :: h

/-- The machine at the end of a history. -/
def after (m : Machine) (h : List Served) : Machine := h.foldl (fun _ s => s.machine) m

@[simp] theorem after_nil (m : Machine) : m.after [] = m := rfl

@[simp] theorem after_cons (m : Machine) (s : Served) (h : List Served) :
    m.after (s :: h) = s.machine.after h := rfl

/-- A history tells what the requests come to. -/
theorem serveAll_eq_history (fuel : Nat) (m : Machine) (requests : List Request) :
    m.serveAll fuel requests =
      (m.history fuel requests).map fun h => (h.map Served.answer, m.after h) := by
  induction requests generalizing m with
  | nil => rfl
  | cons request rest ih =>
      rw [serveAll, history, Option.map_bind]
      refine congrArg _ (funext fun (answer, m') => ?_)
      simp only [ih m', Function.comp, Option.map_map]
      rfl

/-- The record of the first requests is the first part of the record. -/
theorem history_take {fuel : Nat} {m : Machine} {requests : List Request} {h : List Served}
    (hm : m.history fuel requests = some h) (k : Nat) :
    m.history fuel (requests.take k) = some (h.take k) := by
  induction requests generalizing m h k with
  | nil => cases hm; simp [history]
  | cons request rest ih =>
      obtain ⟨⟨a, n⟩, hs, hm⟩ := Option.bind_eq_some_iff.1 hm
      obtain ⟨h', hn, rfl⟩ := Option.map_eq_some_iff.1 hm
      cases k with
      | zero => rfl
      | succ k =>
          rw [List.take_succ_cons, history, hs]
          exact congrArg (Option.map _) (ih hn k)

/-- A session on record comes to what the record tells. -/
theorem serveAll_of_history {fuel : Nat} {m : Machine} {requests : List Request} {h : List Served}
    (hm : m.history fuel requests = some h) :
    m.serveAll fuel requests = some (h.map Served.answer, m.after h) := by
  rw [serveAll_eq_history, hm]
  rfl

end Machine

/-! ## Takes -/

/-- Whether a request hands over a log. -/
def Request.takes : Request → Bool
  | .takeOutput | .takeWarnings => true
  | .run _ | .execute _ | .evaluate _ | .reset | .println _ => false

namespace Served

/-- The text that was handed over. -/
def text (s : Served) : String :=
  match s.answer with
  | .text captured => captured
  | .ended _ | .value _ | .warnings _ | .served => ""

/-- The warnings that were handed over. -/
def notes (s : Served) : Array Diagnostic :=
  match s.answer with
  | .warnings noted => noted
  | .ended _ | .value _ | .text _ | .served => #[]

/-- The same request got the same answer, and the machines after it differ in
nothing but their logs. -/
structure Alike (s s' : Served) : Prop where
  request : s.request = s'.request
  answer : s.answer = s'.answer
  machine : s.machine.Alike s'.machine

end Served

/-- The part of a history that took nothing. -/
def untaken (h : List Served) : List Served := h.filter fun s => !s.request.takes

/-- All texts that were handed over, one behind the other. -/
def textsTaken (h : List Served) : String := String.join (h.map Served.text)

/-- All warnings that were handed over, one behind the other. -/
def notesTaken (h : List Served) : List Diagnostic := h.flatMap fun s => s.notes.toList

/-- What was served since the machine started over for the last time. -/
def sinceStart (h : List Served) : List Served := h.rtakeWhile fun s => !s.request.startsOver

/-! ## Putting back -/

/-- The receiver, with text put back in front of what a buffer has captured. -/
def Sink.putBack (text : String) : Sink → Sink
  | .buffer captured => .buffer (text ++ captured)
  | .console written => .console written
  | .silent => .silent

theorem Sink.putBack_empty (s : Sink) : s.putBack "" = s := by
  cases s <;> simp [putBack]

theorem Sink.captured_putBack {s : Sink} (h : s.isBuffer = true) (text : String) :
    (s.putBack text).captured = text ++ s.captured := by
  cases s with
  | buffer captured => rfl
  | console written => cases h
  | silent => cases h

theorem Sink.putBack_println (s : Sink) (text line : String) :
    (s.println line).putBack text = (s.putBack text).println line := by
  cases s <;> simp [putBack, println, String.append_assoc]

theorem Sink.putBack_printlns (s : Sink) (text : String) (lines : List String) :
    (s.printlns lines).putBack text = (s.putBack text).printlns lines := by
  rw [printlns_eq_receive, printlns_eq_receive]
  cases s <;> simp [putBack, receive, String.append_assoc]

/-- A text that is taken and put back is where it was. -/
theorem Sink.putBack_taken (s : Sink) (text : String) :
    s.taken.putBack (text ++ s.captured) = s.putBack text := by
  cases s <;> simp [putBack, taken, captured]

/-- What was drawn from the logs of a machine and belongs in front of them. -/
structure Drawn where
  text : String
  notes : Array Diagnostic

namespace Drawn

/-- Nothing was drawn. -/
def nothing : Drawn := ⟨"", #[]⟩

/-- What is drawn after a request was served: a text or warnings more, but no
warnings if the machine has started over. -/
def after (d : Drawn) (s : Served) : Drawn where
  text := d.text ++ s.text
  notes := if s.request.startsOver then #[] else d.notes ++ s.notes

/-- The machine with everything put back. -/
def putBack (d : Drawn) (m : Machine) : Machine :=
  m.withLogs (m.sink.putBack d.text) (d.notes ++ m.warnings)

theorem putBack_nothing (m : Machine) : nothing.putBack m = m := by
  simp [putBack, nothing, Machine.withLogs, Sink.putBack_empty]

theorem alike_putBack (d : Drawn) (m : Machine) : m.Alike (d.putBack m) :=
  ⟨rfl, rfl, rfl, rfl, rfl⟩

/-! ## Requests -/

/-- A run goes the same way with everything put back, and nothing is lost. -/
theorem run_putBack (d : Drawn) (fuel : Nat) (t : Task) (m : Machine) :
    Outcome.Rel (fun r n r' n' => r = r' ∧ n' = d.putBack n)
      (t.run fuel m) (t.run fuel (d.putBack m)) := by
  refine ((d.alike_putBack m).run fuel t).mono ?_
  rintro r n r' n' ⟨hr, halike, lines, notes, hadds, hadds'⟩
  have hsink : n'.sink = n.sink.putBack d.text := by
    rw [hadds'.sink, hadds.sink, Sink.putBack_printlns]
    rfl
  have hwarnings : n'.warnings = d.notes ++ n.warnings := by
    rw [hadds'.warnings, hadds.warnings, ← Array.append_assoc]
    rfl
  exact ⟨hr, Machine.ext halike.limits.symm halike.environment.symm halike.routines.symm
    hsink hwarnings halike.depth.symm halike.steps.symm⟩

/-- Two answers, and the machines after them when everything is put back into the
first one. -/
def Tallies (d : Drawn) (request : Request) (a a' : Answer × Machine) : Prop :=
  a.1 = a'.1 ∧ a'.2 = (d.after ⟨request, a.1, a.2⟩).putBack a.2

theorem after_of_nothing (d : Drawn) {s : Served} (hstart : s.request.startsOver = false)
    (htext : s.text = "") (hnotes : s.notes = #[]) : d.after s = d := by
  simp [after, hstart, htext, hnotes]

/-- Nothing is handed over by a run. What counts is whether it starts over. -/
theorem tallies_answer {d e : Drawn} {request : Request} {o o' : Outcome}
    (he : ∀ r m, d.after ⟨request, .ended r, m⟩ = e)
    (h : Outcome.Rel (fun r n r' n' => r = r' ∧ n' = e.putBack n) o o') :
    Option.Rel (d.Tallies request) o.answer? o'.answer? := by
  cases h with
  | done h => exact .some ⟨rfl, by rw [he]; exact h.2⟩
  | failed h => exact .some ⟨congrArg Answer.ended h.1, by rw [he]; exact h.2⟩
  | outOfFuel => exact .none

/-- A request that takes nothing is answered in the same way with everything put
back. -/
theorem serve_putBack (d : Drawn) (fuel : Nat) (m : Machine) {request : Request}
    (h : request.takes = false) :
    Option.Rel (d.Tallies request) (m.serve fuel request) ((d.putBack m).serve fuel request) := by
  cases request with
  | run p =>
      -- The machine forgets its warnings, so those that were drawn count no more.
      have hafter : ∀ r n, d.after ⟨.run p, .ended r, n⟩ = ⟨d.text, #[]⟩ := fun r n => by
        simp [after, Request.startsOver, Served.text]
      have hload : (d.putBack m).load p = putBack ⟨d.text, #[]⟩ (m.load p) := by
        simp [putBack, Machine.load, Machine.reset, Machine.start, Machine.withLogs]
      refine tallies_answer hafter ?_
      rw [Machine.run, Machine.run, hload]
      exact run_putBack ⟨d.text, #[]⟩ fuel (.block p.main) (m.load p)
  | execute operations =>
      exact tallies_answer (fun _ _ => d.after_of_nothing rfl rfl rfl)
        (d.run_putBack fuel (.block operations) m)
  | evaluate e => exact .some ⟨rfl, by rw [d.after_of_nothing rfl rfl rfl]⟩
  | reset =>
      refine .some ⟨rfl, ?_⟩
      simp [after, putBack, Request.startsOver, Served.text, Machine.reset, Machine.start,
        Machine.withLogs]
  | println line =>
      refine .some ⟨rfl, ?_⟩
      rw [d.after_of_nothing rfl rfl rfl]
      simp [putBack, Machine.println, Machine.withLogs, Sink.putBack_println]
  | takeOutput => cases h
  | takeWarnings => cases h

/-- A take is always answered, and is not noticed once everything is put back. -/
theorem exists_serve_of_take (d : Drawn) (fuel : Nat) (m : Machine) {request : Request}
    (h : request.takes = true) :
    ∃ a n, m.serve fuel request = some (a, n) ∧
      (d.after ⟨request, a, n⟩).putBack n = d.putBack m := by
  cases request with
  | takeOutput =>
      refine ⟨_, _, rfl, ?_⟩
      simp [after, putBack, Request.startsOver, Served.text, Served.notes,
        Machine.withoutCaptured, Machine.withLogs, Sink.putBack_taken]
  | takeWarnings =>
      refine ⟨_, _, rfl, ?_⟩
      simp [after, putBack, Request.startsOver, Served.text, Served.notes,
        Machine.withoutWarnings, Machine.withLogs]
  | run p => cases h
  | execute operations => cases h
  | evaluate e => cases h
  | reset => cases h
  | println line => cases h

/-! ## Sessions -/

/-- The history of a session with takes, and that of the same session without them
on the machine into which everything was put back. -/
structure Accounts (d : Drawn) (m : Machine) (drained plain : List Served) : Prop where
  /-- All other requests are served alike. -/
  others : List.Forall₂ Served.Alike (untaken drained) plain
  /-- What was drawn in the meantime makes up for the takes. -/
  machine : (d.putBack m).after plain = (drained.foldl after d).putBack (m.after drained)

variable {d : Drawn} {m n : Machine} {request : Request} {a : Answer} {drained plain : List Served}

theorem Accounts.cons_take (ht : request.takes = true)
    (hn : (d.after ⟨request, a, n⟩).putBack n = d.putBack m)
    (h : (d.after ⟨request, a, n⟩).Accounts n drained plain) :
    d.Accounts m (⟨request, a, n⟩ :: drained) plain where
  others := by
    rw [untaken, List.filter_cons_of_neg (by simp [ht])]
    exact h.others
  machine := by
    rw [← hn, h.machine]
    rfl

theorem Accounts.cons (ht : request.takes = false) {n' : Machine}
    (hn : n' = (d.after ⟨request, a, n⟩).putBack n)
    (h : (d.after ⟨request, a, n⟩).Accounts n drained plain) :
    d.Accounts m (⟨request, a, n⟩ :: drained) (⟨request, a, n'⟩ :: plain) where
  others := by
    rw [untaken, List.filter_cons_of_pos (by simp [ht])]
    refine .cons ⟨rfl, rfl, ?_⟩ h.others
    rw [hn]
    exact alike_putBack _ n
  machine := by
    rw [Machine.after_cons, hn, h.machine]
    rfl

/-- The takes of a session are made up for by what was drawn. -/
theorem history_putBack (d : Drawn) (fuel : Nat) (m : Machine) (requests : List Request) :
    Option.Rel (d.Accounts m) (m.history fuel requests)
      ((d.putBack m).history fuel (requests.filter fun request => !request.takes)) := by
  induction requests generalizing d m with
  | nil => exact .some ⟨.nil, rfl⟩
  | cons request rest ih =>
      cases ht : request.takes with
      | true =>
          -- The other session has no counterpart to a take and stands still.
          obtain ⟨a, n, hs, hn⟩ := d.exists_serve_of_take fuel m ht
          have hrest := ih (d.after ⟨request, a, n⟩) n
          rw [hn] at hrest
          rw [List.filter_cons_of_neg (by simp [ht]), Machine.history, hs]
          simpa using hrest.map (g := id) fun _ _ h => h.cons_take ht hn
      | false =>
          rw [List.filter_cons_of_pos (by simp [ht]), Machine.history, Machine.history]
          have hserve := d.serve_putBack fuel m ht
          generalize m.serve fuel request = served at hserve ⊢
          generalize (d.putBack m).serve fuel request = served' at hserve ⊢
          cases hserve with
          | none => exact .none
          | @some served served' h =>
              obtain ⟨a, n⟩ := served
              obtain ⟨_, _⟩ := served'
              obtain ⟨rfl, rfl⟩ := h
              exact (ih (d.after ⟨request, a, n⟩) n).map fun _ _ h => h.cons ht rfl

/-- The drawn texts add up. -/
theorem text_foldl_after (d : Drawn) (h : List Served) :
    (h.foldl after d).text = d.text ++ textsTaken h := by
  induction h generalizing d with
  | nil => simp [textsTaken]
  | cons s rest ih =>
      rw [List.foldl_cons, ih, textsTaken, textsTaken, List.map_cons, String.join_cons,
        ← String.append_assoc]
      rfl

/-- The drawn warnings add up since the machine started over. -/
theorem notes_foldl_after (h : List Served) :
    (h.foldl after nothing).notes.toList = notesTaken (sinceStart h) := by
  induction h using List.reverseRecOn with
  | nil => rfl
  | append_singleton h s ih =>
      rw [List.foldl_append, List.foldl_cons, List.foldl_nil, sinceStart, List.rtakeWhile_concat]
      cases hs : s.request.startsOver with
      | true => simp [after, hs, notesTaken]
      | false =>
          rw [sinceStart] at ih
          simp [after, hs, notesTaken, ih]

end Drawn

/-! ## Buffers -/

theorem Sink.isBuffer_printlns (s : Sink) (lines : List String) :
    (s.printlns lines).isBuffer = s.isBuffer := by
  rw [printlns_eq_receive]
  cases s <;> rfl

theorem Runs.isBuffer {t : Task} {m m' : Machine} {r : Option Diagnostic} (h : Runs t m r m') :
    m'.sink.isBuffer = m.sink.isBuffer := by
  obtain ⟨lines, notes, hadds⟩ := h.extends.logs
  rw [hadds.sink, Sink.isBuffer_printlns]

theorem Machine.isBuffer_serve {fuel : Nat} {m m' : Machine} {request : Request} {a : Answer}
    (h : m.serve fuel request = some (a, m')) : m'.sink.isBuffer = m.sink.isBuffer := by
  cases request with
  | run p =>
      obtain ⟨r, -, hr⟩ := Outcome.answer?_eq_some h
      exact (Runs.of_run (t := .block p.main) hr).isBuffer
  | execute operations =>
      obtain ⟨r, -, hr⟩ := Outcome.answer?_eq_some h
      exact (Runs.of_run (t := .block operations) hr).isBuffer
  | println line => cases h; exact Sink.isBuffer_printlns m.sink [line]
  | takeOutput =>
      cases h
      change m.sink.taken.isBuffer = m.sink.isBuffer
      cases m.sink <;> rfl
  | evaluate | reset | takeWarnings => cases h; rfl

/-- A buffer stays a buffer. -/
theorem Machine.isBuffer_serveAll {fuel : Nat} {requests : List Request} {m m' : Machine}
    {answers : List Answer} (h : m.serveAll fuel requests = some (answers, m')) :
    m'.sink.isBuffer = m.sink.isBuffer :=
  Machine.serveAll_induction (P := fun n => n.sink.isBuffer = m.sink.isBuffer)
    (fun hn hs => (Machine.isBuffer_serve hs).trans hn) rfl h

/-! ## Restoring the logs -/

/-- The history of a session with takes restores that of the session without them. -/
structure Machine.Restores (m : Machine) (drained plain : List Served) : Prop where
  /-- All other requests have the same answers, after which the machines differ in
  their logs only. -/
  others : List.Forall₂ Served.Alike (untaken drained) plain
  /-- Nothing that was printed is lost or there twice. -/
  text : m.sink.isBuffer = true →
    textsTaken drained ++ (m.after drained).sink.captured = (m.after plain).sink.captured
  /-- Nothing that was noted since the last start is lost or there twice. -/
  notes : notesTaken (sinceStart drained) ++ (m.after drained).warnings.toList =
    (m.after plain).warnings.toList

theorem Drawn.Accounts.restores {m : Machine} {drained plain : List Served}
    (h : Drawn.nothing.Accounts m drained plain)
    (hbuffer : (m.after drained).sink.isBuffer = m.sink.isBuffer) :
    m.Restores drained plain := by
  have hplain : m.after plain = (drained.foldl Drawn.after .nothing).putBack (m.after drained) := by
    rw [← h.machine, Drawn.putBack_nothing]
  refine ⟨h.others, fun hm => ?_, ?_⟩
  · have htext : (drained.foldl Drawn.after .nothing).text = textsTaken drained := by
      rw [Drawn.text_foldl_after, Drawn.nothing, String.empty_append]
    rw [hplain, ← htext]
    exact (Sink.captured_putBack (hbuffer.trans hm) _).symm
  · rw [hplain, ← Drawn.notes_foldl_after]
    exact Array.toList_append.symm

/-- A session with takes restores the session without them. -/
theorem Machine.restores_history (fuel : Nat) (m : Machine) (requests : List Request) :
    Option.Rel m.Restores (m.history fuel requests)
      (m.history fuel (requests.filter fun request => !request.takes)) := by
  have haccounts := Drawn.nothing.history_putBack fuel m requests
  rw [Drawn.putBack_nothing] at haccounts
  exact haccounts.imp fun drained plain hd _ h =>
    h.restores (Machine.isBuffer_serveAll (serveAll_of_history hd))

/-- **Draining loses and duplicates nothing.**  Insert takes of the captured text and
of the warnings into a session wherever you like. Either both sessions never end, or
at every moment the one with takes restores the one without them, which has served
as many other requests by then. -/
theorem draining_restores (fuel : Nat) (m : Machine) (requests : List Request) :
    Option.Rel (fun drained plain => ∀ k,
        m.Restores (drained.take k) (plain.take (untaken (drained.take k)).length))
      (m.history fuel requests)
      (m.history fuel (requests.filter fun request => !request.takes)) := by
  refine (m.restores_history fuel requests).imp fun drained plain hd hp _ k => ?_
  -- The first requests are a session of their own, and so are the others among them.
  have hpart := m.restores_history fuel (requests.take k)
  have hothers : (requests.take k).filter (fun request => !request.takes) <+:
      requests.filter fun request => !request.takes :=
    (List.take_prefix k requests).filter _
  rw [List.prefix_iff_eq_take.1 hothers, Machine.history_take hd, Machine.history_take hp,
    Option.rel_some_some] at hpart
  rw [hpart.others.length_eq, ← List.prefix_iff_eq_take.1 (List.take_prefix _ plain)]
  exact hpart

/-- A block that prints a word and stumbles over it. -/
def saying (word : String) : List Operation :=
  [.act (.ofRoot word) (.print [.literal (.string word)]), .act (.ofRoot word) (.unknown word)]

/-- Text is taken before and after a failure, warnings are taken before and after
the machine starts over, and some of both are left at the end. -/
theorem draining_restores_sayings :
    let m := Machine.start ⟨2, none⟩ .emptyBuffer
    let note (word : String) : Diagnostic := ⟨.unknownOperation word, some (.ofRoot word)⟩
    let requests : List Request :=
      [.execute (saying "one"), .takeOutput,
        .execute (saying "two" ++ [.call (.ofRoot "input") "nobody" []]), .takeWarnings,
        .println "three", .takeOutput, .execute (saying "four"), .reset, .takeWarnings,
        .execute (saying "five"), .takeWarnings, .execute (saying "six")]
    ∃ drained plain, m.history 9 requests = some drained ∧
      m.history 9 (requests.filter fun request => !request.takes) = some plain ∧
      m.Restores drained plain ∧
      textsTaken drained = "one\ntwo\nthree\n" ∧
      (m.after plain).sink = .buffer "one\ntwo\nthree\nfour\nfive\nsix\n" ∧
      notesTaken (sinceStart drained) = [note "five"] ∧
      (m.after plain).warnings = #[note "five", note "six"] := by
  intro m note requests
  have hdrained : ∃ drained plain, m.history 9 requests = some drained ∧
      m.history 9 (requests.filter fun request => !request.takes) = some plain ∧
      plain.length = (untaken drained).length ∧
      textsTaken drained = "one\ntwo\nthree\n" ∧
      (m.after plain).sink = .buffer "one\ntwo\nthree\nfour\nfive\nsix\n" ∧
      notesTaken (sinceStart drained) = [note "five"] ∧
      (m.after plain).warnings = #[note "five", note "six"] :=
    ⟨_, _, rfl, rfl, rfl, rfl, rfl, rfl, rfl⟩
  obtain ⟨drained, plain, hd, hp, hlength, hlogs⟩ := hdrained
  have hrestores := draining_restores 9 m requests
  rw [hd, hp, Option.rel_some_some] at hrestores
  have hend := hrestores drained.length
  rw [List.take_length, ← hlength, List.take_length] at hend
  exact ⟨drained, plain, hd, hp, hend, hlogs⟩

end JsonScript
