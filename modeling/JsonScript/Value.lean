import JsonScript.Decimal.Shortest
import JsonScript.Double
import JsonScript.Text.Quoted

/-!
# Values

What a variable holds: a number, a string, a truth value or nothing. A value
has two texts. `Value.text` is what printing writes. `Value.inspect` is what a
listing of variables writes: the same, but strings are quoted, so that they
cannot be mistaken for another value. How a string is quoted depends on which
characters have a printed form.

Numbers print with the fewest digits that read back, with every place written
out from `1e-6` up to below `1e21`, in scientific notation outside. Messages
that complain about a number use `plainNumber`, which never uses scientific
notation and shows the sign of a zero.

## Main results

* `isSome_asNumber?_iff`, `isSome_asBool?_iff` — the type name says which view
  of a value succeeds.
-/

namespace JsonScript

/-- The values of the language. -/
inductive Value where
  | number (x : Float)
  | string (s : String)
  | bool (b : Bool)
  | null
  deriving Inhabited

namespace Value

/-- The name of a value's type, as messages use it. -/
def typeName : Value → String
  | .number _ => "number"
  | .string _ => "string"
  | .bool _ => "bool"
  | .null => "null"

/-- Equality as the language has it: numbers compare by numeric value, so a
number that is no number differs even from itself. -/
def equal : Value → Value → Bool
  | .number x, .number y => x == y
  | .string s, .string t => s == t
  | .bool a, .bool b => a == b
  | .null, .null => true
  | _, _ => false

instance : BEq Value := ⟨equal⟩

/-- The number that a value is. -/
def asNumber? : Value → Option Float
  | .number x => some x
  | _ => none

/-- The truth value that a value is. -/
def asBool? : Value → Option Bool
  | .bool b => some b
  | _ => none

/-! ## Texts of numbers -/

/-- A minus sign where one is due. -/
def sign (negative : Bool) : List Char := if negative then ['-'] else []

/-- The shortest decimal that reads back as `coefficient * 2 ^ exponent`. -/
def decimal (coefficient : Nat) (exponent : Int) : Decimal :=
  (Span.ofDouble coefficient exponent).shortest

/-- Whether a magnitude prints with every place written out. -/
def isPlain (magnitude : Float) : Bool := 1e-6 ≤ magnitude && magnitude < 1e21

/-- The printed text of a number. Both zeros print alike. -/
def numberText (x : Float) : List Char :=
  match Double.ofFloat x with
  | .nan => "NaN".toList
  | .infinite negative => sign negative ++ "Infinity".toList
  | .finite negative coefficient exponent =>
      if coefficient = 0 then ['0']
      else
        let d := decimal coefficient exponent
        sign negative ++ if isPlain x.abs then d.positional else d.scientific

/-- The text of a number in messages: every place written out. -/
def plainNumber (x : Float) : String :=
  String.ofList <| match Double.ofFloat x with
    | .nan => "NaN".toList
    | .infinite negative => sign negative ++ "inf".toList
    | .finite negative coefficient exponent =>
        sign negative ++
          if coefficient = 0 then ['0'] else (decimal coefficient exponent).positional

/-! ## Texts of values -/

/-- What printing writes. -/
def text : Value → String
  | .number x => String.ofList (numberText x)
  | .string s => s
  | .bool b => if b then "true" else "false"
  | .null => "null"

/-- What a listing of variables writes. -/
def inspect (unprintable : Char → Bool) : Value → String
  | .string s => String.ofList (Text.quote unprintable s.toList)
  | v => v.text

/-! ## Types -/

/-- The values that are numbers are those whose type is called so. -/
theorem isSome_asNumber?_iff (v : Value) : v.asNumber?.isSome ↔ v.typeName = "number" := by
  cases v <;> simp [asNumber?, typeName]

/-- The values that are truth values are those whose type is called so. -/
theorem isSome_asBool?_iff (v : Value) : v.asBool?.isSome ↔ v.typeName = "bool" := by
  cases v <;> simp [asBool?, typeName]

end Value

end JsonScript
