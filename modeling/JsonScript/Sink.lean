/-!
# Where printed lines go

Printed lines go to the console, into a buffer that can be looked at and
emptied, or nowhere. The text written to the console is kept until the outer
layer shows it; it cannot be taken back as captured text.

## Main results

* `captured_println` — a line is captured by a buffer, and only by a buffer.
-/

namespace JsonScript

/-- A receiver of lines. -/
inductive Sink where
  /-- The console, with the text written to it that is not shown yet. -/
  | console (written : String)
  /-- A buffer with the text captured so far. -/
  | buffer (captured : String)
  /-- Nowhere. -/
  | silent
  deriving Inhabited, DecidableEq, Repr

namespace Sink

/-- An empty buffer. -/
def emptyBuffer : Sink := .buffer ""

/-- Receives a line. -/
def println (line : String) : Sink → Sink
  | .console written => .console (written ++ line ++ "\n")
  | .buffer captured => .buffer (captured ++ line ++ "\n")
  | .silent => .silent

/-- The text captured so far. -/
def captured : Sink → String
  | .buffer captured => captured
  | .console _ | .silent => ""

/-- The text written to the console and not shown yet. -/
def written : Sink → String
  | .console written => written
  | .buffer _ | .silent => ""

/-- The receiver after the captured text was taken out of it. -/
def taken : Sink → Sink
  | .buffer _ => .buffer ""
  | s => s

/-- The receiver after the text for the console was shown. -/
def shown : Sink → Sink
  | .console _ => .console ""
  | s => s

/-- Whether a receiver is a buffer. -/
def isBuffer : Sink → Bool
  | .buffer _ => true
  | _ => false

theorem captured_println (s : Sink) (line : String) :
    (s.println line).captured = if s.isBuffer then s.captured ++ line ++ "\n" else "" := by
  cases s <;> rfl

theorem captured_taken (s : Sink) : s.taken.captured = "" := by
  cases s <;> rfl

end Sink

end JsonScript
