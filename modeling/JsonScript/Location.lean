/-!
# Locations

A location is a path into a document: the name of a root, then steps to a
member of an object or to an element of an array. It is written
`main[2].loop.body[0]`. The path is kept as data; the text, which cannot
always be taken apart again (a key may itself hold a point or a bracket), is
made from it only when somebody reads it.

## Main results

* `render_key`, `render_item` — the text of a longer path extends the text of
  the shorter one.
-/

namespace JsonScript

/-- One step down into a document. -/
inductive Step where
  /-- To the member of an object with this key. -/
  | key (name : String)
  /-- To the element of an array at this place. -/
  | item (index : Nat)
  deriving DecidableEq, Repr, Inhabited

/-- The written form of a step. -/
def Step.render : Step → String
  | .key name => "." ++ name
  | .item index => "[" ++ toString index ++ "]"

/-- A place in a document. -/
structure Location where
  root : String
  steps : List Step
  deriving DecidableEq, Repr, Inhabited

namespace Location

/-- The place named by a root alone. -/
def ofRoot (root : String) : Location := ⟨root, []⟩

/-- The member of this object with a given key. -/
def key (place : Location) (name : String) : Location :=
  { place with steps := place.steps ++ [.key name] }

/-- The element of this array at a given place. -/
def item (place : Location) (index : Nat) : Location :=
  { place with steps := place.steps ++ [.item index] }

/-- The written form of a path. -/
def render (place : Location) : String :=
  place.steps.foldl (fun text step => text ++ step.render) place.root

@[simp] theorem render_ofRoot (root : String) : (ofRoot root).render = root := rfl

@[simp] theorem render_key (place : Location) (name : String) :
    (place.key name).render = place.render ++ "." ++ name := by
  simp [render, key, Step.render, String.append_assoc]

@[simp] theorem render_item (place : Location) (index : Nat) :
    (place.item index).render = place.render ++ "[" ++ toString index ++ "]" := by
  simp [render, item, Step.render, String.append_assoc]

end Location

end JsonScript
