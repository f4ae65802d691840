import JsonScript.Json.Basic
import JsonScript.Json.Token

/-!
# Reading JSON text

The tokens of a text are fed one by one to a small machine. It keeps the
containers that are still open on a stack of frames, and a phase that says
what may come next. The text is JSON when the last token leaves a completed
value and no open container.

A key that an object repeats keeps its first place and takes the last content.
Containers may be nested 127 deep. A container joins the stack when its first
item or member starts, so an empty one never does.
-/

namespace JsonScript

/-- A container that is still open. -/
inductive Frame where
  /-- An array with the items read so far, the last one first. -/
  | array (items : List Json)
  /-- An object with the members read so far and the key whose content is read
  now. -/
  | object (members : Json.Members) (key : String)
  deriving Inhabited

/-- What may come next. -/
inductive Phase where
  /-- A value. -/
  | value
  /-- The first item of an array, or its end. -/
  | itemOrEnd
  /-- A key of an object with the members read so far. -/
  | key (members : Json.Members)
  /-- The first key of an object, or its end. -/
  | keyOrEnd
  /-- The colon behind a key. -/
  | colon (members : Json.Members) (key : String)
  /-- A comma, or the end of what holds this value. -/
  | completed (v : Json)
  deriving Inhabited

/-- How far a reader has come. -/
structure Reader where
  frames : List Frame
  phase : Phase
  deriving Inhabited

namespace Reader

/-- How deep containers may be nested. -/
def maxDepth : Nat := 127

/-- Nothing read yet. -/
def start : Reader := ⟨[], .value⟩

/-- Starts a container, unless too many are open. -/
def enter (r : Reader) (phase : Phase) : Except JsonError Reader :=
  if r.frames.length < maxDepth then .ok ⟨r.frames, phase⟩ else .error .nestedTooDeeply

/-- The value that a word stands for. -/
def ofWord : Word → Json
  | .null => .null
  | .true => .bool true
  | .false => .bool false

/-- A token where a value must start. -/
def value (r : Reader) : Token → Except JsonError Reader
  | .word w => .ok ⟨r.frames, .completed (ofWord w)⟩
  | .string s => .ok ⟨r.frames, .completed (.string s)⟩
  | .numeral n =>
      match n.toFloat? with
      | some x => .ok ⟨r.frames, .completed (.number x)⟩
      | none => .error .numberOutOfRange
  | .openBracket => r.enter .itemOrEnd
  | .openBrace => r.enter .keyOrEnd
  | _ => .error .unexpectedToken

/-- A token behind a completed value. -/
def afterValue (frames : List Frame) (v : Json) (t : Token) : Except JsonError Reader :=
  match frames, t with
  | .array items :: outer, .comma => .ok ⟨.array (v :: items) :: outer, .value⟩
  | .array items :: outer, .closeBracket =>
      .ok ⟨outer, .completed (.array (v :: items).reverse)⟩
  | .object members key :: outer, .comma =>
      .ok ⟨outer, .key (Json.setMember key v members)⟩
  | .object members key :: outer, .closeBrace =>
      .ok ⟨outer, .completed (.object (Json.setMember key v members))⟩
  | _, _ => .error .unexpectedToken

/-- One token. -/
def step (r : Reader) (t : Token) : Except JsonError Reader :=
  match r.phase, t with
  | .value, t => r.value t
  | .itemOrEnd, .closeBracket => .ok ⟨r.frames, .completed (.array [])⟩
  | .itemOrEnd, t => Reader.value ⟨.array [] :: r.frames, .value⟩ t
  | .key members, .string s => .ok ⟨r.frames, .colon members s⟩
  | .keyOrEnd, .string s => .ok ⟨r.frames, .colon [] s⟩
  | .keyOrEnd, .closeBrace => .ok ⟨r.frames, .completed (.object [])⟩
  | .colon members key, .colon => .ok ⟨.object members key :: r.frames, .value⟩
  | .completed v, t => afterValue r.frames v t
  | _, _ => .error .unexpectedToken

/-- The value, once the text has ended. -/
def finish (r : Reader) : Except JsonError Json :=
  match r.frames, r.phase with
  | [], .completed v => .ok v
  | _, _ => .error .unexpectedEnd

/-- The value that a sequence of tokens stands for. -/
def ofTokens (tokens : List Token) : Except JsonError Json :=
  match tokens.foldlM step start with
  | .ok r => r.finish
  | .error e => .error e

end Reader

/-- The tree that a JSON text stands for. -/
def Json.read (text : String) : Except JsonError Json :=
  match Token.scan text.toList with
  | .ok tokens => Reader.ofTokens tokens
  | .error e => .error e

end JsonScript
