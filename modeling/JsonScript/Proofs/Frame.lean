import JsonScript.Proofs.Runs

/-!
# What a run leaves as it was

A run changes variables, logs and the number of steps. It leaves alone the
limits, the routines and, because every call that is entered is also left, the
number of active calls. The caller's variables come back in the same way.

All of this holds whether a run succeeds or a fatal diagnostic ends it, and
however deep inside calls the diagnostic came up.

## Main results

* `Runs.sameFrame` — a run keeps the limits, the routines and the depth.
* `Runs.environment_of_call` — a call keeps the caller's variables.
-/

namespace JsonScript

/-- Two machines with the same limits, the same routines, and equally many
active calls. -/
structure Machine.SameFrame (m m' : Machine) : Prop where
  limits : m'.limits = m.limits
  routines : m'.routines = m.routines
  depth : m'.depth = m.depth

namespace Machine.SameFrame

theorem trans {m₁ m₂ m₃ : Machine} (h₁ : m₁.SameFrame m₂) (h₂ : m₂.SameFrame m₃) :
    m₁.SameFrame m₃ :=
  ⟨h₂.limits.trans h₁.limits, h₂.routines.trans h₁.routines, h₂.depth.trans h₁.depth⟩

theorem of_move {m m' : Machine} (h : m.Move m') : m.SameFrame m' := by
  cases h with
  | stay => exact ⟨rfl, rfl, rfl⟩
  | tick => exact ⟨rfl, rfl, rfl⟩
  | @commit _ effect place _ => cases effect <;> exact ⟨rfl, rfl, rfl⟩

theorem of_plan {t : Task} {left : Left} {m m₁ : Machine} (h : m.plan t = .go left m₁) :
    m.SameFrame m₁ := of_move (Machine.move_of_plan h)

/-- A body that leaves the frame of its scope as it was leaves the caller's as
it was. -/
theorem leave {m m' : Machine} {environment : Environment}
    (h : (m.enter environment).SameFrame m') : m.SameFrame (m'.leave m.environment) := by
  refine ⟨h.limits, h.routines, ?_⟩
  have hd : m'.depth = m.depth + 1 := h.depth
  show m'.depth - 1 = m.depth
  omega

end Machine.SameFrame

/-- A run keeps the limits, the routines and the number of active calls. -/
theorem Runs.sameFrame {t : Task} {m m' : Machine} {r : Option Diagnostic}
    (h : Runs t m r m') : m.SameFrame m' :=
  h.rel_of_moves .trans .of_move fun _ => .leave

/-- A call keeps the caller's variables, on every way out of it. -/
theorem Runs.environment_of_call {place : Location} {name : String} {arguments : List Expr}
    {m m' : Machine} {r : Option Diagnostic}
    (h : Runs (.operation (.call place name arguments)) m r m') :
    m'.environment = m.environment := by
  rcases Runs.operation_iff.1 h with ⟨_, _, _, rfl⟩ | ⟨_, h⟩
  · rfl
  rcases Runs.call_iff.1 h with ⟨_, _, _, rfl⟩ | ⟨_, _, _, _, _, rfl⟩
  · rfl
  · rfl

end JsonScript
