import JsonScript.Location

/-!
# The written form of places

The text of a place cannot always be taken apart again, because a key may hold a
point or a bracket. The places of statement objects in one block are another
matter: below the block there are only indices and the few keys under which
operations hold blocks. Their texts are different for different places. An index
ends at the first closing bracket, the key of an operation at the next point, and
the name of its block at the next opening bracket.

## Main results

* `Location.render_down` — the text of a place some steps below another.
* `BlockPath.renderAll_eq_iff` — paths to statement objects can be told by their
  texts.
* `Location.render_down_eq_iff` — and so can the places of statement objects.
-/

namespace JsonScript

/-! ## Steps -/

/-- The written form of some steps. -/
def Step.renderAll : List Step → String
  | [] => ""
  | step :: rest => step.render ++ Step.renderAll rest

namespace Location

/-- The place some steps below. -/
def down (place : Location) (steps : List Step) : Location :=
  { place with steps := place.steps ++ steps }

@[simp] theorem down_nil (place : Location) : place.down [] = place := by
  simp [down]

@[simp] theorem down_down (place : Location) (steps more : List Step) :
    (place.down steps).down more = place.down (steps ++ more) := by
  simp [down]

theorem item_eq_down (place : Location) (i : Nat) : place.item i = place.down [.item i] := rfl

theorem key_eq_down (place : Location) (name : String) :
    place.key name = place.down [.key name] := rfl

theorem render_down (place : Location) (steps : List Step) :
    (place.down steps).render = place.render ++ Step.renderAll steps := by
  have hfold : ∀ text : String,
      steps.foldl (fun text step => text ++ step.render) text = text ++ Step.renderAll steps := by
    induction steps with
    | nil => exact fun text => String.append_empty.symm
    | cons step rest ih =>
        intro text
        rw [List.foldl_cons, ih, Step.renderAll, String.append_assoc]
  rw [render, down, List.foldl_append, hfold]
  rfl

end Location

/-! ## Paths to statement objects -/

/-- The keys of operations that hold blocks, with the names of the blocks. -/
def blockKeys : List (String × String) :=
  [("if", "then"), ("if", "else"), ("loop", "body"), ("while", "body")]

/-- A path from a block to a statement object in it, at any depth. -/
inductive BlockPath : List Step → Prop where
  | statement (i : Nat) : BlockPath [.item i]
  | inner (i : Nat) {key name : String} (hkey : (key, name) ∈ blockKeys) {steps : List Step}
      (h : BlockPath steps) : BlockPath (.item i :: .key key :: .key name :: steps)

theorem not_mem_toDigits {c : Char} (hc : c.isDigit = false) (n : Nat) :
    c ∉ Nat.toDigits 10 n := by
  intro h
  have hdigit := Nat.isDigit_of_mem_toDigits (by decide) (by decide) h
  exact Bool.false_ne_true (hc.symm.trans hdigit)

/-- Texts up to the first occurrence of a character. -/
theorem append_cons_eq_iff_of_not_mem {c : Char} {first first' rest rest' : List Char}
    (h : c ∉ first) (h' : c ∉ first') :
    first ++ c :: rest = first' ++ c :: rest' ↔ first = first' ∧ rest = rest' := by
  refine ⟨fun heq => ?_, fun ⟨hfirst, hrest⟩ => hfirst ▸ hrest ▸ rfl⟩
  induction first generalizing first' with
  | nil =>
      cases first' with
      | nil => exact ⟨rfl, (List.cons.inj heq).2⟩
      | cons d more => exact absurd (List.cons.inj heq).1 (List.ne_of_not_mem_cons h')
  | cons d more ih =>
      cases first' with
      | nil => exact absurd (List.cons.inj heq).1.symm (List.ne_of_not_mem_cons h)
      | cons d' more' =>
          obtain ⟨rfl, htail⟩ := List.cons.inj heq
          obtain ⟨rfl, hrest⟩ := ih (List.not_mem_of_not_mem_cons h)
            (List.not_mem_of_not_mem_cons h') htail
          exact ⟨rfl, hrest⟩

theorem Step.toList_renderAll_item (i : Nat) (rest : List Step) :
    (Step.renderAll (.item i :: rest)).toList =
      '[' :: (Nat.toDigits 10 i ++ ']' :: (Step.renderAll rest).toList) := by
  simp [Step.renderAll, Step.render]

theorem Step.toList_renderAll_key (name : String) (rest : List Step) :
    (Step.renderAll (.key name :: rest)).toList =
      '.' :: (name.toList ++ (Step.renderAll rest).toList) := by
  simp [Step.renderAll, Step.render]

/-- An index ends at the first closing bracket. -/
theorem Step.renderAll_item_eq_iff (i i' : Nat) (rest rest' : List Step) :
    Step.renderAll (.item i :: rest) = Step.renderAll (.item i' :: rest') ↔
      i = i' ∧ Step.renderAll rest = Step.renderAll rest' := by
  have hbracket := not_mem_toDigits (show (']').isDigit = false from rfl)
  have hindex : Nat.toDigits 10 i = Nat.toDigits 10 i' ↔ i = i' := by
    refine ⟨fun h => ?_, congrArg _⟩
    rw [← Nat.ofDigitChars_ten_toDigits (n := i), h, Nat.ofDigitChars_ten_toDigits]
  rw [← String.toList_inj, toList_renderAll_item, toList_renderAll_item, List.cons_inj_right,
    append_cons_eq_iff_of_not_mem (hbracket i) (hbracket i'), hindex, String.toList_inj]

theorem BlockPath.exists_item {steps : List Step} (h : BlockPath steps) :
    ∃ i rest, steps = .item i :: rest := by
  cases h with
  | statement i => exact ⟨i, [], rfl⟩
  | inner i => exact ⟨i, _, rfl⟩

/-- The key of an operation ends at the next point, and the name of its block at
the next opening bracket. -/
theorem Step.renderAll_block_inj {key name key' name' : String}
    (hkey : (key, name) ∈ blockKeys) (hkey' : (key', name') ∈ blockKeys) {steps steps' : List Step}
    (hsteps : BlockPath steps) (hsteps' : BlockPath steps')
    (h : Step.renderAll (.key key :: .key name :: steps) =
      Step.renderAll (.key key' :: .key name' :: steps')) :
    key = key' ∧ name = name' ∧ Step.renderAll steps = Step.renderAll steps' := by
  have hpoint : ∀ m ∈ blockKeys, '.' ∉ m.1.toList := by decide
  have hbracket : ∀ m ∈ blockKeys, '[' ∉ m.2.toList := by decide
  obtain ⟨i, rest, rfl⟩ := hsteps.exists_item
  obtain ⟨i', rest', rfl⟩ := hsteps'.exists_item
  rw [← String.toList_inj] at h
  simp only [toList_renderAll_key, List.cons_inj_right] at h
  obtain ⟨hkeys, h⟩ := (append_cons_eq_iff_of_not_mem (hpoint _ hkey) (hpoint _ hkey')).1 h
  rw [toList_renderAll_item, toList_renderAll_item] at h
  obtain ⟨hnames, h⟩ := (append_cons_eq_iff_of_not_mem (hbracket _ hkey) (hbracket _ hkey')).1 h
  refine ⟨String.toList_inj.1 hkeys, String.toList_inj.1 hnames, ?_⟩
  rw [← String.toList_inj, toList_renderAll_item, toList_renderAll_item, h]

/-- Paths to statement objects can be told by their texts. -/
theorem BlockPath.renderAll_eq_iff {steps steps' : List Step} (h : BlockPath steps)
    (h' : BlockPath steps') : Step.renderAll steps = Step.renderAll steps' ↔ steps = steps' := by
  -- The text of a path that ends here is shorter than that of one that goes on.
  have hends : ∀ name rest, Step.renderAll [] ≠ Step.renderAll (.key name :: rest) := by
    intro name rest heq
    rw [← String.toList_inj, Step.toList_renderAll_key] at heq
    cases heq
  refine ⟨fun heq => ?_, congrArg _⟩
  induction h generalizing steps' with
  | statement i =>
      cases h' with
      | statement i' => rw [((Step.renderAll_item_eq_iff ..).1 heq).1]
      | inner i' => exact absurd ((Step.renderAll_item_eq_iff ..).1 heq).2 (hends _ _)
  | inner i hkey hsteps ih =>
      cases h' with
      | statement i' => exact absurd ((Step.renderAll_item_eq_iff ..).1 heq).2.symm (hends _ _)
      | inner i' hkey' hsteps' =>
          obtain ⟨rfl, hinner⟩ := (Step.renderAll_item_eq_iff ..).1 heq
          obtain ⟨rfl, rfl, hrest⟩ := Step.renderAll_block_inj hkey hkey' hsteps hsteps' hinner
          rw [ih hsteps' hrest]

/-- The places of statement objects in one block can be told by their texts. -/
theorem Location.render_down_eq_iff (place : Location) {steps steps' : List Step}
    (h : BlockPath steps) (h' : BlockPath steps') :
    (place.down steps).render = (place.down steps').render ↔ steps = steps' := by
  rw [render_down, render_down, String.append_right_inj, h.renderAll_eq_iff h']

end JsonScript
