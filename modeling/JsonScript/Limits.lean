import JsonScript.Text.Blank
import JsonScript.Text.Counter

/-!
# Limits of a run

How many calls may be active at once, and how many steps a run may take. The
defaults can be changed by two settings, whose values may have blanks around
them; a value that is not a counter is ignored.

## Main results

* `ofSettings_of_unreadable` — settings that cannot be read leave the default.
-/

namespace JsonScript

/-- The limits of a run. Without `maxSteps` a run takes any number of steps. -/
structure Limits where
  maxDepth : Nat
  maxSteps : Option Nat
  deriving DecidableEq, Repr, Inhabited

namespace Limits

/-- The limits that hold when nothing else is said. -/
def default : Limits := ⟨128, none⟩

/-- The setting for the number of active calls. -/
def depthSetting : String := "JAYSON_MAX_DEPTH"

/-- The setting for the number of steps. -/
def stepsSetting : String := "JAYSON_MAX_STEPS"

/-- The counter that a setting holds, if there is one. -/
def readSetting? (settings : String → Option String) (name : String) : Option Nat :=
  (settings name).bind fun raw => Counter.read? (Text.trim raw)

/-- The limits that settings ask for. -/
def ofSettings (settings : String → Option String) : Limits :=
  { maxDepth := (readSetting? settings depthSetting).getD default.maxDepth
    maxSteps := readSetting? settings stepsSetting }

theorem ofSettings_of_unreadable {settings : String → Option String}
    (hdepth : readSetting? settings depthSetting = none)
    (hsteps : readSetting? settings stepsSetting = none) :
    ofSettings settings = default := by
  simp [ofSettings, hdepth, hsteps, default]

end Limits

end JsonScript
