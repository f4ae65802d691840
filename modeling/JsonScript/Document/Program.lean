import JsonScript.Document.Block
import JsonScript.Json.Reader

/-!
# Programs in a document

A document is a block, or an object whose only key is `program`. The program
object may hold three sections, in any order: `variables` (scalars to start
with), `functions` (the routines) and `main` (the main block). Sections are
read in document order, so the first one that is malformed is the one that is
complained about.

A dialogue reads single statement objects, or blocks, with the root `input`.

A text that is not JSON is refused. What is said about it is a parameter, a
function of the text.

## Main results

* `ofJson_array` — a document that is an array is a program's main block.
-/

namespace JsonScript

open Reading

/-! ## Sections -/

/-- The variables bound at the start, in document order. -/
def Program.readVariables (place : Location) : Json.Members → Reading (List (String × Value))
  | [] => .ok []
  | (name, content) :: rest =>
      match content.toValue? with
      | none => fail .variableNotScalar (place.key name)
      | some v => (Program.readVariables place rest).map ((name, v) :: ·)

namespace Routine

/-- Parameter names, numbered from `i`. -/
def readParameters (place : Location) (i : Nat) : List Json → Reading (List String)
  | [] => .ok []
  | j :: rest => do
      let name ← requireString .parameterNotString (place.item i) j
      let names ← readParameters place (i + 1) rest
      return name :: names

/-- Refuses a name that stands among those before it. -/
def checkDistinct (place : Location) (before : List String) : List String → Reading Unit
  | [] => .ok ()
  | name :: rest =>
      if before.contains name then
        fail (.duplicateParameter name) (place.item before.length)
      else checkDistinct place (before ++ [name]) rest

/-- The parameters of a routine: distinct strings. -/
def readParameterList (place : Location) (j : Json) : Reading (List String) :=
  match j with
  | .array items => do
      let names ← readParameters place 0 items
      checkDistinct place [] names
      return names
  | _ => fail .parametersNotArray place

/-- A routine. -/
def read (place : Location) (name : String) (j : Json) : Reading Routine := do
  let ⟨members, _⟩ ← requireObject "function definition" place j
  let ⟨listed, _⟩ ← requireMember "parameters" place members
  let parameters ← readParameterList (place.key "parameters") listed
  let ⟨block, _⟩ ← requireMember "body" place members
  let body ← Block.read (place.key "body") block
  return ⟨name, parameters, body⟩

end Routine

/-- Adds the routines of a section to a table. -/
def RoutineTable.readInto (place : Location) (table : RoutineTable) :
    Json.Members → Reading RoutineTable
  | [] => .ok table
  | (name, content) :: rest => do
      let routine ← Routine.read (place.key name) name content
      match table.define? routine with
      | some table => table.readInto place rest
      | none => fail (.definedTwice name) (place.key name)

namespace Program

/-! ## The whole document -/

/-- Reads one section into a program. -/
def readSection (p : Program) (key : String) (content : Json) : Reading Program :=
  match key with
  | "variables" => do
      let place := Location.ofRoot "variables"
      let ⟨members, _⟩ ← requireObject "variables" place content
      let bindings ← readVariables place members
      return { p with bindings }
  | "functions" => do
      let place := Location.ofRoot "functions"
      let ⟨members, _⟩ ← requireObject "functions" place content
      let routines ← RoutineTable.empty.readInto place members
      return { p with routines }
  | "main" => do
      let main ← Block.read (.ofRoot "main") content
      return { p with main }
  | _ => fail (.unexpectedSection key) ((Location.ofRoot "program").key key)

/-- Reads sections into a program, in document order. -/
def readSections (p : Program) : Json.Members → Reading Program
  | [] => .ok p
  | (key, content) :: rest => do
      let p ← p.readSection key content
      p.readSections rest

/-- The program that a document stands for. -/
def ofJson (document : Json) : Reading Program :=
  match document with
  | .array _ => (Block.read (.ofRoot "main") document).map fun main => { empty with main }
  | .object [("program", content)] => do
      let ⟨members, _⟩ ← requireObject "program" (.ofRoot "program") content
      empty.readSections members
  | _ => .error ⟨.notADocument, none⟩

/-- The program that a text stands for. -/
def read (refusal : String → String) (text : String) : Except Diagnostic Program :=
  match Json.read text with
  | .error _ => .error ⟨.invalidJson (refusal text), none⟩
  | .ok document => (ofJson document).mapError LoadError.toDiagnostic

theorem ofJson_array (items : List Json) :
    ofJson (.array items) =
      (Block.read (.ofRoot "main") (.array items)).map fun main => { empty with main } := rfl

end Program

namespace Block

/-- The operations that a statement object or a block stands for, outside of any
program. -/
def ofInput (document : Json) : Reading (List Operation) :=
  match document with
  | .array _ => read (.ofRoot "input") document
  | .object _ => readStatement (.ofRoot "input") document
  | _ => .error ⟨.notAnInput, none⟩

/-- The operations that a line of input stands for. -/
def readInput (refusal : String → String) (text : String) : Except Diagnostic (List Operation) :=
  match Json.read text with
  | .error _ => .error ⟨.invalidJson (refusal text), none⟩
  | .ok document => (ofInput document).mapError LoadError.toDiagnostic

end Block

end JsonScript
