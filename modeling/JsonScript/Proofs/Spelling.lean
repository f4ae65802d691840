import JsonScript.Proofs.Acceptance
import JsonScript.Proofs.Readings
import Mathlib.Logic.Relation

/-!
# Alternative spellings

Much can be written in more than one way: operators and the count of a
repetition have two keys, two operands are an array or an object, an update has
three spellings, and some parts may be left out. `Rule` lists the spellings, each
for the positions in a document where it may be used. `Within` lists what a
node that is read may stand in. Together they give all the documents that differ
in one spelling somewhere (`Respells`).

All these documents stand for the same program. The invariant is `Agrees`: two
nodes are read to the same in their position. A rule makes two nodes agree, and
what agreeing nodes stand in agrees.

## Main results

* `Rule.agrees` — a rule keeps what is read.
* `Within.agrees` — so does putting the nodes into something larger.
* `load_of_respelled` — respelled documents load to the same program.
-/

namespace JsonScript

/-! ## Rules -/

/-- A position in a document. The body of an operation and the content of a
section stand under a key that says how to read them. -/
inductive Position where
  | operand
  | pair
  | operation (key : String)
  | statement
  | block
  | definition
  | programSection (key : String)
  | document

/-- The tree is an array. -/
def Json.IsArray (j : Json) : Prop := ∃ items, j = .array items

/-- The second keys of operators, with the first ones. -/
def operatorAliases : List (String × String) :=
  [("eq", "equals"), ("greaterThan", "greater_than"), ("lessThan", "less_than")]

/-- The body of an arithmetic key updates the variable with the operand. -/
inductive SpellsUpdate (name : String) (v : Json) : Json → Prop where
  | target {members : Json.Members} (hvar : members.lookup "var" = some (.string name))
      (hvalue : members.lookup "value" = some v) : SpellsUpdate name v (.object members)
  | pair {body : Json} (hparts : HasParts body (.string name) v)
      (hvariable : ¬ body.NamesVariable) : SpellsUpdate name v body

/-- Two spellings of the same, in some position. -/
inductive Rule : Position → Json → Json → Prop where
  /-- An operator under its other key. -/
  | operatorAlias {key canonical : String} (h : (key, canonical) ∈ operatorAliases)
      (body : Json) : Rule .operand (.object [(key, body)]) (.object [(canonical, body)])
  /-- A scalar that is no string, taken as it is written. -/
  | literal {j : Json} (h : j.IsScalar) (hs : ¬ j.IsString) :
      Rule .operand j (.object [("literal", j)])
  /-- Two operands as an array or as an object. -/
  | parts {body body' l r : Json} (h : HasParts body l r) (h' : HasParts body' l r)
      (hvariable : ¬ body.NamesVariable) (hvariable' : ¬ body'.NamesVariable) :
      Rule .pair body body'
  /-- An update of a variable. -/
  | update {key name : String} {v body body' : Json} (hkey : key ∈ arithmeticKeys)
      (h : SpellsUpdate name v body) (h' : SpellsUpdate name v body') :
      Rule (.operation key) body body'
  /-- The count of a repetition under its other key. -/
  | count {before after : Json.Members} (j : Json)
      (htimes : "times" ∉ Json.keys (before ++ after))
      (hcount : "count" ∉ Json.keys (before ++ after)) :
      Rule (.operation "loop") (.object (before ++ ("count", j) :: after))
        (.object (before ++ ("times", j) :: after))
  /-- One thing to print, alone or in an array. -/
  | printed {j : Json} (h : ¬ j.IsArray) : Rule (.operation "print") j (.array [j])
  /-- No alternative, or one without operations. -/
  | noElse {before after : Json.Members} (h : "else" ∉ Json.keys (before ++ after)) :
      Rule (.operation "if") (.object (before ++ after))
        (.object (before ++ ("else", .array []) :: after))
  /-- No arguments, or none in an array. -/
  | noArguments {before after : Json.Members} (h : "arguments" ∉ Json.keys (before ++ after)) :
      Rule (.operation "call") (.object (before ++ after))
        (.object (before ++ ("arguments", .array []) :: after))
  /-- A main block, alone or in a program object. -/
  | bare (items : List Json) :
      Rule .document (.array items) (.object [("program", .object [("main", .array items)])])

/-! ## Positions -/

/-- A node in the first position, put into the function, makes a node in the
second position. Of members with one name, the first is the one that is read. -/
inductive Within : Position → Position → (Json → Json) → Prop where
  /-- The operand of a negation. -/
  | negated : Within .operand .operand fun j => .object [("not", j)]
  /-- The body of an operator. -/
  | operands {key : String} (hkey : key ∈ operatorKeys) :
      Within .pair .operand fun j => .object [(key, j)]
  /-- The left operand in an array. -/
  | left (r : Json) : Within .operand .pair fun j => .array [j, r]
  /-- The right operand in an array. -/
  | right (l : Json) : Within .operand .pair fun j => .array [l, j]
  /-- An operand in an object. -/
  | part {name : String} (hname : name ∈ ["left", "right"]) {before : Json.Members}
      (hbefore : name ∉ Json.keys before) (after : Json.Members) :
      Within .operand .pair fun j => .object (before ++ (name, j) :: after)
  /-- The operands of an update. -/
  | updated {key : String} (hkey : key ∈ arithmeticKeys) :
      Within .pair (.operation key) fun j => j
  /-- The operand that is written to a variable. -/
  | value {key : String} (hkey : key ∈ "declare" :: "assign" :: arithmeticKeys)
      {before : Json.Members} (hbefore : "value" ∉ Json.keys before) (after : Json.Members) :
      Within .operand (.operation key) fun j => .object (before ++ ("value", j) :: after)
  /-- The only operand that is printed. -/
  | printed : Within .operand (.operation "print") fun j => j
  /-- One of the operands that are printed. -/
  | printedItem (before after : List Json) :
      Within .operand (.operation "print") fun j => .array (before ++ j :: after)
  /-- The condition of a branch or a loop. -/
  | condition {key : String} (hkey : key ∈ ["if", "while"]) {before : Json.Members}
      (hbefore : "condition" ∉ Json.keys before) (after : Json.Members) :
      Within .operand (.operation key) fun j => .object (before ++ ("condition", j) :: after)
  /-- One of the blocks of a branch. -/
  | branch {name : String} (hname : name ∈ ["then", "else"]) {before : Json.Members}
      (hbefore : name ∉ Json.keys before) (after : Json.Members) :
      Within .block (.operation "if") fun j => .object (before ++ (name, j) :: after)
  /-- The count of a repetition. -/
  | count {name : String} (hname : name ∈ ["times", "count"]) {before : Json.Members}
      (hbefore : name ∉ Json.keys before) (after : Json.Members) :
      Within .operand (.operation "loop") fun j => .object (before ++ (name, j) :: after)
  /-- The block of a repetition or a loop. -/
  | body {key : String} (hkey : key ∈ ["loop", "while"]) {before : Json.Members}
      (hbefore : "body" ∉ Json.keys before) (after : Json.Members) :
      Within .block (.operation key) fun j => .object (before ++ ("body", j) :: after)
  /-- One of the arguments of a call. -/
  | argument {before : Json.Members} (hbefore : "arguments" ∉ Json.keys before)
      (after : Json.Members) (earlier later : List Json) :
      Within .operand (.operation "call") fun j =>
        .object (before ++ ("arguments", .array (earlier ++ j :: later)) :: after)
  /-- The body of an operation in a statement object. -/
  | operation (key : String) (before after : Json.Members) :
      Within (.operation key) .statement fun j => .object (before ++ (key, j) :: after)
  /-- A statement object in a block. -/
  | statement (before after : List Json) :
      Within .statement .block fun j => .array (before ++ j :: after)
  /-- The block of a routine. -/
  | routineBody {before : Json.Members} (hbefore : "body" ∉ Json.keys before)
      (after : Json.Members) :
      Within .block .definition fun j => .object (before ++ ("body", j) :: after)
  /-- A routine. -/
  | routine (name : String) (before after : Json.Members) :
      Within .definition (.programSection "functions") fun j =>
        .object (before ++ (name, j) :: after)
  /-- The main block in a program object. -/
  | main : Within .block (.programSection "main") fun j => j
  /-- A section of a program object. -/
  | programSection (key : String) (before after : Json.Members) :
      Within (.programSection key) .document fun j =>
        .object [("program", .object (before ++ (key, j) :: after))]
  /-- The main block as a document. -/
  | bare : Within .block .document fun j => j

/-- One spelling differs, somewhere. -/
inductive Respells : Position → Json → Json → Prop where
  | rule {p : Position} {j j' : Json} (h : Rule p j j') : Respells p j j'
  | inside {p q : Position} {put : Json → Json} {j j' : Json} (hput : Within p q put)
      (h : Respells p j j') : Respells q (put j) (put j')

/-! ## Agreement -/

/-- The two readings have the same result, or none. -/
def Reading.Same {α : Type} (x y : Reading α) : Prop := ∀ a, x = .ok a ↔ y = .ok a

/-- Two nodes in a position are read to the same. -/
def Agrees : Position → Json → Json → Prop
  | .operand, j, j' => ¬ j.IsArray ∧ ¬ j'.IsArray ∧ ∀ e, Denotes j e ↔ Denotes j' e
  | .pair, j, j' =>
      (j.NamesVariable ↔ j'.NamesVariable) ∧
        (∀ a b, DenotesPair j a b ↔ DenotesPair j' a b) ∧
        ∀ name e, DenotesTarget j name e ↔ DenotesTarget j' name e
  | .operation key, j, j' =>
      ∀ place, (Block.readOperation place key j).Same (Block.readOperation place key j')
  | .statement, j, j' => ∀ place, (Block.readStatement place j).Same (Block.readStatement place j')
  | .block, j, j' =>
      j.IsArray ∧ j'.IsArray ∧ ∀ place, (Block.read place j).Same (Block.read place j')
  | .definition, j, j' =>
      ∀ place name, (Routine.read place name j).Same (Routine.read place name j')
  | .programSection key, j, j' =>
      ∀ p : Program, (p.readSection key j).Same (p.readSection key j')
  | .document, j, j' => (Program.ofJson j).Same (Program.ofJson j')

namespace Reading

variable {α β : Type}

theorem Same.refl (x : Reading α) : x.Same x := fun _ => .rfl

theorem Same.map {x y : Reading α} (h : x.Same y) (f : α → β) :
    Reading.Same (x.map f) (y.map f) := by
  intro b
  rw [map_eq_ok_iff, map_eq_ok_iff]
  exact exists_congr fun a => and_congr_left fun _ => h a

theorem Same.bind {x y : Reading α} {f g : α → Reading β} (h : x.Same y)
    (hfg : ∀ a, (f a).Same (g a)) : (x >>= f).Same (y >>= g) := by
  intro b
  rw [bind_eq_ok, bind_eq_ok]
  exact exists_congr fun a => and_congr (h a) (hfg a b)

/-- A reader of lists that goes on with the rest of the list reads two lists to
the same if they differ in one item, and that item is read to the same. -/
theorem Same.around {σ μ : Type} (read : σ → List μ → Reading β) {m m' : μ}
    {after : List μ} (hfirst : ∀ s, (read s (m :: after)).Same (read s (m' :: after)))
    (hrest : ∀ first l l', (∀ s, (read s l).Same (read s l')) →
      ∀ s, (read s (first :: l)).Same (read s (first :: l')))
    (before : List μ) :
    ∀ s, (read s (before ++ m :: after)).Same (read s (before ++ m' :: after)) := by
  induction before with
  | nil => exact hfirst
  | cons first rest ih => exact hrest first _ _ ih

end Reading

/-! ## Operands and pairs -/

theorem Json.not_isArray_object (members : Json.Members) : ¬ (Json.object members).IsArray := nofun

theorem Json.IsScalar.not_isArray {j : Json} (h : j.IsScalar) : ¬ j.IsArray := by
  rintro ⟨items, rfl⟩
  exact h

theorem Json.not_namesVariable_array (items : List Json) :
    ¬ (Json.array items).NamesVariable := by
  rintro ⟨_, _, ⟨⟩, _⟩

theorem not_denotesAll {j : Json} (h : ¬ j.IsArray) (es : List Expr) : ¬ DenotesAll j es := by
  rintro ⟨items, rfl, _⟩
  exact h ⟨items, rfl⟩

theorem namesVariable_object_iff (members : Json.Members) :
    (Json.object members).NamesVariable ↔ HasMember "var" (fun _ => True) members := by
  constructor
  · rintro ⟨_, j, ⟨⟩, hj⟩
    exact ⟨j, hj, trivial⟩
  · rintro ⟨j, hj, _⟩
    exact ⟨members, j, rfl, hj⟩

theorem Agrees.negated {j j' : Json} (h : Agrees .operand j j') :
    Agrees .operand (.object [("not", j)]) (.object [("not", j')]) := by
  obtain ⟨_, _, hdenotes⟩ := h
  refine ⟨Json.not_isArray_object _, Json.not_isArray_object _, fun e => ?_⟩
  simp only [denotes_not_iff, hdenotes]

theorem isUpdate_congr {key : String} {j j' : Json} (h : j.NamesVariable ↔ j'.NamesVariable) :
    isUpdate key j = isUpdate key j' := by
  rw [Bool.eq_iff_iff, isUpdate_iff, isUpdate_iff, h]

theorem Agrees.operands {key : String} (hkey : key ∈ operatorKeys) {j j' : Json}
    (h : Agrees .pair j j') : Agrees .operand (.object [(key, j)]) (.object [(key, j')]) := by
  obtain ⟨hvariable, hpair, _⟩ := h
  obtain ⟨op, hop⟩ := (Operator.isSome_ofName?_iff key).2 hkey
  refine ⟨Json.not_isArray_object _, Json.not_isArray_object _, fun e => ?_⟩
  simp only [denotes_operator_iff hop, isUpdate_congr hvariable, hpair]

theorem agrees_pair_array {l l' r r' : Json} (hl : ∀ e, Denotes l e ↔ Denotes l' e)
    (hr : ∀ e, Denotes r e ↔ Denotes r' e) : Agrees .pair (.array [l, r]) (.array [l', r']) := by
  have hvariable := Json.not_namesVariable_array [l, r]
  have hvariable' := Json.not_namesVariable_array [l', r']
  refine ⟨iff_of_false hvariable hvariable', fun a b => ?_, fun name e => ?_⟩
  · rw [(HasParts.array l r).denotesPair_iff, (HasParts.array l' r').denotesPair_iff, hl, hr]
  · exact iff_of_false (fun h => hvariable h.namesVariable) fun h => hvariable' h.namesVariable

/-- Members other than the name of the variable play the same part in both. -/
theorem Agrees.pair_member {name : String} (hname : name ≠ "var") {before after : Json.Members}
    (hbefore : name ∉ Json.keys before) {j j' : Json} (h : Agrees .operand j j') :
    Agrees .pair (.object (before ++ (name, j) :: after))
      (.object (before ++ (name, j') :: after)) := by
  obtain ⟨_, _, hdenotes⟩ := h
  refine ⟨?_, fun a b => ?_, fun x e => ?_⟩
  · simp only [namesVariable_object_iff, hasMember_around hbefore, hname.symm, if_false]
  · simp only [denotesPair_object_iff, hasMember_around hbefore, hdenotes]
  · simp only [denotesTarget_object_iff, hasMember_around hbefore, hname.symm, if_false, hdenotes]

theorem Operator.exists_of_mem_operatorAliases {key canonical : String}
    (h : (key, canonical) ∈ operatorAliases) :
    key ∉ arithmeticKeys ∧ canonical ∉ arithmeticKeys ∧
      ∃ op, Operator.ofName? key = some op ∧ Operator.ofName? canonical = some op := by
  simp only [operatorAliases, List.mem_cons, Prod.mk.injEq, List.not_mem_nil, or_false] at h
  rcases h with ⟨rfl, rfl⟩ | ⟨rfl, rfl⟩ | ⟨rfl, rfl⟩
  · exact ⟨by decide, by decide, .equals, rfl, rfl⟩
  · exact ⟨by decide, by decide, .greaterThan, rfl, rfl⟩
  · exact ⟨by decide, by decide, .lessThan, rfl, rfl⟩

theorem agrees_operatorAlias {key canonical : String} (h : (key, canonical) ∈ operatorAliases)
    (body : Json) :
    Agrees .operand (.object [(key, body)]) (.object [(canonical, body)]) := by
  obtain ⟨hkey, hcanonical, op, hop, hop'⟩ := Operator.exists_of_mem_operatorAliases h
  have hvalue : isUpdate key body = false :=
    Bool.eq_false_iff.2 fun hu => hkey ((isUpdate_iff key body).1 hu).1
  have hvalue' : isUpdate canonical body = false :=
    Bool.eq_false_iff.2 fun hu => hcanonical ((isUpdate_iff canonical body).1 hu).1
  refine ⟨Json.not_isArray_object _, Json.not_isArray_object _, fun e => ?_⟩
  rw [denotes_operator_iff hop, denotes_operator_iff hop', hvalue, hvalue']

theorem agrees_literal {j : Json} (h : j.IsScalar) (hs : ¬ j.IsString) :
    Agrees .operand j (.object [("literal", j)]) := by
  refine ⟨h.not_isArray, Json.not_isArray_object _, fun e => ?_⟩
  rw [denotes_scalar_iff hs e h, denotes_literal_iff]

theorem agrees_parts {body body' l r : Json} (h : HasParts body l r) (h' : HasParts body' l r)
    (hvariable : ¬ body.NamesVariable) (hvariable' : ¬ body'.NamesVariable) :
    Agrees .pair body body' := by
  refine ⟨iff_of_false hvariable hvariable', fun a b => ?_, fun name e => ?_⟩
  · rw [h.denotesPair_iff, h'.denotesPair_iff]
  · exact iff_of_false (fun ht => hvariable ht.namesVariable) fun ht =>
      hvariable' ht.namesVariable

/-! ## Actions -/

theorem agrees_act {key : String} (hcontrol : key ∉ ["if", "loop", "while", "call"])
    {j j' : Json}
    (h : ∀ place, Reading.Same (Block.readAction place key j) (Block.readAction place key j')) :
    Agrees (.operation key) j j' := by
  intro place
  rw [Block.readOperation_act place j hcontrol, Block.readOperation_act place j' hcontrol]
  exact (h _).map _

theorem agrees_arithmetic {key : String} (hkey : key ∈ arithmeticKeys) {j j' : Json}
    (h : ∀ name e, DenotesUpdate j name e ↔ DenotesUpdate j' name e) :
    Agrees (.operation key) j j' := by
  have hcontrol : key ∉ ["if", "loop", "while", "call"] := by
    simp only [arithmeticKeys, List.mem_cons, List.not_mem_nil, or_false] at hkey
    rcases hkey with rfl | rfl | rfl | rfl <;> decide
  have hoperator : key ∈ operatorKeys := List.mem_append_left _ hkey
  obtain ⟨op, hop⟩ := (Operator.isSome_ofName?_iff key).2 hoperator
  refine agrees_act hcontrol fun place action => ?_
  rw [Block.readAction_arithmetic_eq_ok_iff place hop hkey,
    Block.readAction_arithmetic_eq_ok_iff place hop hkey]
  simp only [h]

theorem Agrees.updated {key : String} (hkey : key ∈ arithmeticKeys) {j j' : Json}
    (h : Agrees .pair j j') : Agrees (.operation key) j j' := by
  obtain ⟨hvariable, hpair, htarget⟩ := h
  apply agrees_arithmetic hkey
  intro name e
  simp only [DenotesUpdate, hvariable, hpair, htarget]

theorem SpellsUpdate.ofArray (name : String) (v : Json) :
    SpellsUpdate name v (.array [.string name, v]) :=
  .pair (.array _ _) (Json.not_namesVariable_array _)

theorem SpellsUpdate.denotesUpdate_iff {name : String} {v body : Json}
    (h : SpellsUpdate name v body) (x : String) (e : Expr) :
    DenotesUpdate body x e ↔ x = name ∧ Denotes v e := by
  cases h with
  | @target members hvar hvalue =>
      have hvariable : (Json.object members).NamesVariable := ⟨members, _, rfl, hvar⟩
      simp only [DenotesUpdate, hvariable, not_true_eq_false, false_and, or_false,
        denotesTarget_object_iff, hasMember_iff_of_lookup_eq_some hvar,
        hasMember_iff_of_lookup_eq_some hvalue, Json.string.injEq]
      rw [eq_comm]
  | pair hparts hvariable =>
      have htarget : ¬ DenotesTarget body x e := fun ht => hvariable ht.namesVariable
      simp only [DenotesUpdate, htarget, hvariable, not_false_eq_true, true_and, false_or,
        hparts.denotesPair_iff, denotes_string_iff, Expr.variable.injEq]

theorem agrees_update {key name : String} {v body body' : Json} (hkey : key ∈ arithmeticKeys)
    (h : SpellsUpdate name v body) (h' : SpellsUpdate name v body') :
    Agrees (.operation key) body body' := by
  apply agrees_arithmetic hkey
  intro x e
  rw [h.denotesUpdate_iff, h'.denotesUpdate_iff]

theorem Agrees.value {key : String} (hkey : key ∈ "declare" :: "assign" :: arithmeticKeys)
    {before after : Json.Members} (hbefore : "value" ∉ Json.keys before) {j j' : Json}
    (h : Agrees .operand j j') :
    Agrees (.operation key) (.object (before ++ ("value", j) :: after))
      (.object (before ++ ("value", j') :: after)) := by
  have hmember : Agrees .pair (.object (before ++ ("value", j) :: after))
      (.object (before ++ ("value", j') :: after)) := h.pair_member (by decide) hbefore
  have htarget := hmember.2.2
  have hread : ∀ place, (Block.readTarget place (.object (before ++ ("value", j) :: after))).Same
      (Block.readTarget place (.object (before ++ ("value", j') :: after))) := by
    rintro place ⟨name, e⟩
    rw [Block.readTarget_eq_ok_iff, Block.readTarget_eq_ok_iff, htarget]
  rcases List.mem_cons.1 hkey with rfl | hkey
  · exact agrees_act (by decide) fun place => (hread place).map _
  rcases List.mem_cons.1 hkey with rfl | hkey
  · exact agrees_act (by decide) fun place => (hread place).map _
  · exact hmember.updated hkey

theorem agrees_print {j j' : Json} (h : ∀ es, DenotesPrinted j es ↔ DenotesPrinted j' es) :
    Agrees (.operation "print") j j' := by
  have hread : ∀ place, (Block.readPrinted place j).Same (Block.readPrinted place j') := by
    intro place es
    rw [Block.readPrinted_eq_ok_iff, Block.readPrinted_eq_ok_iff, h]
  exact agrees_act (by decide) fun place => (hread place).map _

theorem agrees_printed {j : Json} (h : ¬ j.IsArray) :
    Agrees (.operation "print") j (.array [j]) := by
  apply agrees_print
  intro es
  have hone : ¬ ∃ e, Denotes (.array [j]) e ∧ es = [e] := by
    rintro ⟨e, he, _⟩
    exact not_denotes_array [j] e he
  simp only [DenotesPrinted, not_denotesAll h, hone, false_or, or_false, denotesAll_array_iff,
    List.forall₂_cons_left_iff, List.forall₂_nil_left_iff]
  constructor
  · rintro ⟨e, he, rfl⟩
    exact ⟨e, [], he, rfl, rfl⟩
  · rintro ⟨e, _, he, rfl, rfl⟩
    exact ⟨e, he, rfl⟩

theorem Agrees.printed {j j' : Json} (h : Agrees .operand j j') :
    Agrees (.operation "print") j j' := by
  obtain ⟨harray, harray', hdenotes⟩ := h
  apply agrees_print
  intro es
  simp only [DenotesPrinted, not_denotesAll harray, not_denotesAll harray', false_or, hdenotes]

theorem forall₂_denotes_around {j j' : Json} (h : ∀ e, Denotes j e ↔ Denotes j' e)
    (before after : List Json) (es : List Expr) :
    List.Forall₂ Denotes (before ++ j :: after) es ↔
      List.Forall₂ Denotes (before ++ j' :: after) es := by
  induction before generalizing es with
  | nil => simp only [List.nil_append, List.forall₂_cons_left_iff, h]
  | cons first rest ih => simp only [List.cons_append, List.forall₂_cons_left_iff, ih]

theorem Agrees.printedItem {j j' : Json} (h : Agrees .operand j j') (before after : List Json) :
    Agrees (.operation "print") (.array (before ++ j :: after))
      (.array (before ++ j' :: after)) := by
  obtain ⟨_, _, hdenotes⟩ := h
  apply agrees_print
  intro es
  simp only [DenotesPrinted, denotesAll_array_iff, not_denotes_array, false_and, exists_false,
    or_false, forall₂_denotes_around hdenotes]

/-! ## Control operations -/

theorem Agrees.condition {key : String} (hkey : key ∈ ["if", "while"]) {before : Json.Members}
    (hbefore : "condition" ∉ Json.keys before) (after : Json.Members) {j j' : Json}
    (h : Agrees .operand j j') :
    Agrees (.operation key) (.object (before ++ ("condition", j) :: after))
      (.object (before ++ ("condition", j') :: after)) := by
  obtain ⟨_, _, hdenotes⟩ := h
  simp only [List.mem_cons, List.not_mem_nil, or_false] at hkey
  rcases hkey with rfl | rfl
  · intro place o
    simp only [Block.readOperation_if_eq_ok_iff, Json.object.injEq, exists_eq_left',
      hasMember_around hbefore, hasMemberOr_around hbefore, hdenotes, String.reduceEq, if_false]
  · intro place o
    simp only [Block.readOperation_while_eq_ok_iff, Json.object.injEq, exists_eq_left',
      hasMember_around hbefore, hdenotes, String.reduceEq, if_false]

theorem Agrees.branch {name : String} (hname : name ∈ ["then", "else"]) {before : Json.Members}
    (hbefore : name ∉ Json.keys before) (after : Json.Members) {j j' : Json}
    (h : Agrees .block j j') :
    Agrees (.operation "if") (.object (before ++ (name, j) :: after))
      (.object (before ++ (name, j') :: after)) := by
  obtain ⟨_, _, hread⟩ := h
  have hcondition : "condition" ≠ name := by
    rintro rfl
    exact absurd hname (by decide)
  simp only [Reading.Same] at hread
  intro place o
  simp only [Block.readOperation_if_eq_ok_iff, Json.object.injEq, exists_eq_left',
    hasMember_around hbefore, hasMemberOr_around hbefore, hcondition, if_false, hread]

theorem Agrees.count {name : String} (hname : name ∈ ["times", "count"]) {before : Json.Members}
    (hbefore : name ∉ Json.keys before) (after : Json.Members) {j j' : Json}
    (h : Agrees .operand j j') :
    Agrees (.operation "loop") (.object (before ++ (name, j) :: after))
      (.object (before ++ (name, j') :: after)) := by
  obtain ⟨_, _, hdenotes⟩ := h
  have hbody : "body" ≠ name := by
    rintro rfl
    exact absurd hname (by decide)
  intro place o
  simp only [Block.readOperation_loop_eq_ok_iff, Json.object.injEq, exists_eq_left', DenotesCount,
    hasMember_around hbefore, Json.lookup_around_eq_none_iff hbefore, hbody, if_false, hdenotes]

theorem Agrees.body {key : String} (hkey : key ∈ ["loop", "while"]) {before : Json.Members}
    (hbefore : "body" ∉ Json.keys before) (after : Json.Members) {j j' : Json}
    (h : Agrees .block j j') :
    Agrees (.operation key) (.object (before ++ ("body", j) :: after))
      (.object (before ++ ("body", j') :: after)) := by
  obtain ⟨_, _, hread⟩ := h
  simp only [Reading.Same] at hread
  simp only [List.mem_cons, List.not_mem_nil, or_false] at hkey
  rcases hkey with rfl | rfl
  · intro place o
    simp only [Block.readOperation_loop_eq_ok_iff, Json.object.injEq, exists_eq_left',
      DenotesCount, hasMember_around hbefore, Json.lookup_around_eq_none_iff hbefore, hread,
      String.reduceEq, if_false]
  · intro place o
    simp only [Block.readOperation_while_eq_ok_iff, Json.object.injEq, exists_eq_left',
      hasMember_around hbefore, hread, String.reduceEq, if_false]

theorem agrees_call {j j' : Json}
    (h : ∀ place, (Block.readCall place j).Same (Block.readCall place j')) :
    Agrees (.operation "call") j j' := by
  intro place
  rw [Block.readOperation_call, Block.readOperation_call]
  exact (h _).map _

theorem Agrees.argument {before : Json.Members} (hbefore : "arguments" ∉ Json.keys before)
    (after : Json.Members) {j j' : Json} (h : Agrees .operand j j') (earlier later : List Json) :
    Agrees (.operation "call")
      (.object (before ++ ("arguments", .array (earlier ++ j :: later)) :: after))
      (.object (before ++ ("arguments", .array (earlier ++ j' :: later)) :: after)) := by
  obtain ⟨_, _, hdenotes⟩ := h
  apply agrees_call
  rintro place ⟨name, es⟩
  simp only [Block.readCall_eq_ok_iff, Json.object.injEq, exists_eq_left',
    hasMember_around hbefore, hasMemberOr_around hbefore, denotesAll_array_iff,
    forall₂_denotes_around hdenotes, String.reduceEq, if_false]

theorem agrees_count {before after : Json.Members} (j : Json)
    (htimes : "times" ∉ Json.keys (before ++ after))
    (hcount : "count" ∉ Json.keys (before ++ after)) :
    Agrees (.operation "loop") (.object (before ++ ("count", j) :: after))
      (.object (before ++ ("times", j) :: after)) := by
  have htimes' := (Json.lookup_eq_none_iff _).2 htimes
  have hcount' := (Json.lookup_eq_none_iff _).2 hcount
  have hold : ∀ e, DenotesCount (before ++ ("count", j) :: after) e ↔ Denotes j e := by
    intro e
    simp [DenotesCount, hasMember_around (Json.not_mem_keys_of_append hcount),
      Json.lookup_around_eq_none_iff (Json.not_mem_keys_of_append hcount), htimes',
      not_hasMember_of_lookup_eq_none htimes']
  have hnew : ∀ e, DenotesCount (before ++ ("times", j) :: after) e ↔ Denotes j e := by
    intro e
    simp [DenotesCount, hasMember_around (Json.not_mem_keys_of_append htimes),
      Json.lookup_around_eq_none_iff (Json.not_mem_keys_of_append htimes), hcount',
      not_hasMember_of_lookup_eq_none hcount']
  intro place o
  simp only [Block.readOperation_loop_eq_ok_iff, Json.object.injEq, exists_eq_left', hold, hnew,
    hasMember_around (Json.not_mem_keys_of_append htimes),
    hasMember_around (Json.not_mem_keys_of_append hcount), String.reduceEq, if_false]

theorem agrees_noElse {before after : Json.Members} (h : "else" ∉ Json.keys (before ++ after)) :
    Agrees (.operation "if") (.object (before ++ after))
      (.object (before ++ ("else", .array []) :: after)) := by
  have hbefore := Json.not_mem_keys_of_append h
  have hnone := (Json.lookup_eq_none_iff _).2 h
  have hempty : ∀ place block, Block.read place (.array []) = .ok block ↔ block = [] := by
    intro place block
    rw [Block.read, Block.readStatements_nil, Except.ok.injEq, eq_comm]
  intro place o
  simp only [Block.readOperation_if_eq_ok_iff, Json.object.injEq, exists_eq_left',
    hasMember_around hbefore, hasMemberOr_around hbefore, hasMemberOr_iff_of_lookup_eq_none hnone,
    hempty, String.reduceEq, if_false, if_true]

theorem agrees_noArguments {before after : Json.Members}
    (h : "arguments" ∉ Json.keys (before ++ after)) :
    Agrees (.operation "call") (.object (before ++ after))
      (.object (before ++ ("arguments", .array []) :: after)) := by
  have hbefore := Json.not_mem_keys_of_append h
  have hnone := (Json.lookup_eq_none_iff _).2 h
  apply agrees_call
  rintro place ⟨name, es⟩
  simp only [Block.readCall_eq_ok_iff, Json.object.injEq, exists_eq_left',
    hasMember_around hbefore, hasMemberOr_around hbefore, hasMemberOr_iff_of_lookup_eq_none hnone,
    denotesAll_array_iff, List.forall₂_nil_left_iff, String.reduceEq, if_false, if_true]

/-! ## Blocks -/

theorem Agrees.operation {key : String} {j j' : Json} (h : Agrees (.operation key) j j')
    (before after : Json.Members) :
    Agrees .statement (.object (before ++ (key, j) :: after))
      (.object (before ++ (key, j') :: after)) := by
  intro place
  rw [Block.readStatement, Block.readStatement]
  apply Reading.Same.around (fun (_ : Unit) ms => Block.readOperations place ms) _ _ before ()
  · intro _
    rw [Block.readOperations, Block.readOperations]
    exact (h place).bind fun o => .refl _
  · intro first l l' ih _
    obtain ⟨k, body⟩ := first
    rw [Block.readOperations, Block.readOperations]
    exact (Reading.Same.refl _).bind fun o => (ih ()).bind fun os => .refl _

theorem Agrees.statement {j j' : Json} (h : Agrees .statement j j') (before after : List Json) :
    Agrees .block (.array (before ++ j :: after)) (.array (before ++ j' :: after)) := by
  refine ⟨⟨_, rfl⟩, ⟨_, rfl⟩, fun place => ?_⟩
  rw [Block.read, Block.read]
  apply Reading.Same.around (fun i items => Block.readStatements place i items) _ _ before 0
  · intro i
    rw [Block.readStatements, Block.readStatements]
    exact (h _).bind fun os => .refl _
  · intro first l l' ih i
    rw [Block.readStatements, Block.readStatements]
    exact (Reading.Same.refl _).bind fun os => (ih (i + 1)).bind fun more => .refl _

/-! ## Documents -/

theorem Agrees.routineBody {before : Json.Members} (hbefore : "body" ∉ Json.keys before)
    (after : Json.Members) {j j' : Json} (h : Agrees .block j j') :
    Agrees .definition (.object (before ++ ("body", j) :: after))
      (.object (before ++ ("body", j') :: after)) := by
  obtain ⟨_, _, hread⟩ := h
  simp only [Reading.Same] at hread
  intro place name r
  simp only [Routine.read_eq_ok_iff, Json.object.injEq, exists_eq_left', hasMember_around hbefore,
    hread, String.reduceEq, if_false]

theorem Agrees.routine {j j' : Json} (h : Agrees .definition j j') (name : String)
    (before after : Json.Members) :
    Agrees (.programSection "functions") (.object (before ++ (name, j) :: after))
      (.object (before ++ (name, j') :: after)) := by
  let place := Location.ofRoot "functions"
  have hread : ∀ table : RoutineTable,
      Reading.Same (table.readInto place (before ++ (name, j) :: after))
        (table.readInto place (before ++ (name, j') :: after)) := by
    apply Reading.Same.around (fun table members => RoutineTable.readInto place table members)
    · intro table
      rw [RoutineTable.readInto, RoutineTable.readInto]
      exact (h _ name).bind fun r => .refl _
    · intro first l l' ih table
      obtain ⟨k, content⟩ := first
      rw [RoutineTable.readInto, RoutineTable.readInto]
      refine (Reading.Same.refl _).bind fun r => ?_
      cases table.define? r with
      | none => exact .refl _
      | some table' => exact ih table'
  intro p
  exact (hread .empty).bind fun routines => .refl _

theorem Agrees.main {j j' : Json} (h : Agrees .block j j') :
    Agrees (.programSection "main") j j' := by
  obtain ⟨_, _, hread⟩ := h
  intro p
  exact (hread _).bind fun main => .refl _

theorem Agrees.programSection {key : String} {j j' : Json}
    (h : Agrees (.programSection key) j j') (before after : Json.Members) :
    Agrees .document (.object [("program", .object (before ++ (key, j) :: after))])
      (.object [("program", .object (before ++ (key, j') :: after))]) := by
  have hread : ∀ p : Program, Reading.Same (p.readSections (before ++ (key, j) :: after))
      (p.readSections (before ++ (key, j') :: after)) := by
    apply Reading.Same.around Program.readSections
    · intro p
      rw [Program.readSections, Program.readSections]
      exact (h p).bind fun p' => .refl _
    · intro first l l' ih p
      obtain ⟨k, content⟩ := first
      rw [Program.readSections, Program.readSections]
      exact (Reading.Same.refl _).bind ih
  exact hread .empty

theorem Agrees.bare {j j' : Json} (h : Agrees .block j j') : Agrees .document j j' := by
  obtain ⟨⟨items, rfl⟩, ⟨items', rfl⟩, hread⟩ := h
  exact (hread _).map _

theorem agrees_bare (items : List Json) :
    Agrees .document (.array items) (.object [("program", .object [("main", .array items)])]) := by
  have hprogram : Program.ofJson (.object [("program", .object [("main", .array items)])]) =
      Program.ofJson (.array items) := by
    rw [Program.ofJson_array]
    show (Program.empty.readSection "main" (.array items) >>= fun p => p.readSections []) = _
    rw [Program.readSection]
    cases Block.read (.ofRoot "main") (.array items) with
    | ok main => rfl
    | error e => rfl
  show Reading.Same _ _
  rw [hprogram]
  exact .refl _

/-! ## Respelled documents -/

/-- A rule keeps what is read. -/
theorem Rule.agrees {p : Position} {j j' : Json} (h : Rule p j j') : Agrees p j j' := by
  cases h with
  | operatorAlias h body => exact agrees_operatorAlias h body
  | literal h hs => exact agrees_literal h hs
  | parts h h' hvariable hvariable' => exact agrees_parts h h' hvariable hvariable'
  | update hkey h h' => exact agrees_update hkey h h'
  | count j htimes hcount => exact agrees_count j htimes hcount
  | printed h => exact agrees_printed h
  | noElse h => exact agrees_noElse h
  | noArguments h => exact agrees_noArguments h
  | bare items => exact agrees_bare items

/-- What nodes that agree stand in agrees. -/
theorem Within.agrees {p q : Position} {put : Json → Json} (hput : Within p q put) {j j' : Json}
    (h : Agrees p j j') : Agrees q (put j) (put j') := by
  cases hput with
  | negated => exact h.negated
  | operands hkey => exact h.operands hkey
  | left r => exact agrees_pair_array h.2.2 fun _ => .rfl
  | right l => exact agrees_pair_array (fun _ => .rfl) h.2.2
  | part hname hbefore after =>
      refine h.pair_member ?_ hbefore
      rintro rfl
      exact absurd hname (by decide)
  | updated hkey => exact h.updated hkey
  | value hkey hbefore after => exact h.value hkey hbefore
  | printed => exact h.printed
  | printedItem before after => exact h.printedItem before after
  | condition hkey hbefore after => exact h.condition hkey hbefore after
  | branch hname hbefore after => exact h.branch hname hbefore after
  | count hname hbefore after => exact h.count hname hbefore after
  | body hkey hbefore after => exact h.body hkey hbefore after
  | argument hbefore after earlier later => exact h.argument hbefore after earlier later
  | operation key before after => exact h.operation before after
  | statement before after => exact h.statement before after
  | routineBody hbefore after => exact h.routineBody hbefore after
  | routine name before after => exact h.routine name before after
  | main => exact h.main
  | programSection key before after => exact h.programSection before after
  | bare => exact h.bare

theorem Respells.agrees {p : Position} {j j' : Json} (h : Respells p j j') : Agrees p j j' := by
  induction h with
  | rule h => exact h.agrees
  | inside hput _ ih => exact hput.agrees ih

/-- Respelling in several places of a part respells the whole. -/
theorem Within.eqvGen {p q : Position} {put : Json → Json} (hput : Within p q put) {j j' : Json}
    (h : Relation.EqvGen (Respells p) j j') :
    Relation.EqvGen (Respells q) (put j) (put j') := by
  induction h with
  | rel _ _ h => exact .rel _ _ (.inside hput h)
  | refl _ => exact .refl _
  | symm _ _ _ ih => exact ih.symm _ _
  | trans _ _ _ _ _ ih ih' => exact ih.trans _ _ _ ih'

/-- **Alternative spellings change nothing.**  Documents that differ in spelling,
in any number of places and in either direction, are accepted together and stand
for the same program, the places of its operations included. -/
theorem load_of_respelled {j j' : Json} {p : Program}
    (h : Relation.EqvGen (Respells .document) j j') (hload : Program.load j = .ok p) :
    Program.load j' = .ok p := by
  have hsame : Reading.Same (Program.ofJson j) (Program.ofJson j') := by
    clear hload
    induction h with
    | rel _ _ h => exact h.agrees
    | refl _ => exact .refl _
    | symm _ _ _ ih => exact fun p => (ih p).symm
    | trans _ _ _ _ _ ih ih' => exact fun p => (ih p).trans (ih' p)
  rw [Program.load_eq_ok_iff] at hload ⊢
  exact (hsame p).1 hload

/-- A block that adds, compares and prints, in the shorter spellings. -/
def shortBlock : Json :=
  .array [
    .object [("add", .array [.string "x", .string "n"])],
    .object [("print", .object [("eq", .array [.string "x", .null])])]]

/-- The same block in the longer spellings. -/
def longBlock : Json :=
  .array [
    .object [("add", .object [("var", .string "x"), ("value", .string "n")])],
    .object [("print", .array [
      .object [("equals", .object [("left", .string "x"), ("right", .null)])]])]]

/-- A repetition of the block as a document. -/
def shortDocument : Json :=
  .array [.object [("loop", .object [("count", .string "n"), ("body", shortBlock)])]]

/-- The same repetition in the longer spellings. -/
def longDocument : Json :=
  .object [("program", .object [("main", .array [
    .object [("loop", .object [("times", .string "n"), ("body", longBlock)])]])])]

/-- What both documents stand for. -/
def spelledProgram : Program :=
  let place := (Location.ofRoot "main").item 0
  let inner := (place.key "loop").key "body"
  { Program.empty with
    main := [.times place (.variable "n") [
      .act (inner.item 0) (.update .add "x" (.variable "n")),
      .act (inner.item 1) (.print [.binary .equals (.variable "x") (.literal .null)])]] }

theorem read_shortBlock (place : Location) :
    Block.read place shortBlock = .ok [
      .act (place.item 0) (.update .add "x" (.variable "n")),
      .act (place.item 1) (.print [.binary .equals (.variable "x") (.literal .null)])] := by
  have hadd : ∀ place : Location,
      Block.readOperation place "add" (.array [.string "x", .string "n"]) =
        .ok (.act place (.update .add "x" (.variable "n"))) := by
    intro place
    have hspells := SpellsUpdate.ofArray "x" (.string "n")
    have hupdate := (hspells.denotesUpdate_iff "x" _).2 ⟨rfl, .variable "n"⟩
    rw [Block.readOperation_act place _ (by decide),
      (Block.readAction_arithmetic_eq_ok_iff _ rfl (by decide) _ _).2 ⟨_, _, hupdate, rfl⟩]
    rfl
  have hprint : ∀ place : Location,
      Block.readOperation place "print" (.object [("eq", .array [.string "x", .null])]) =
        .ok (.act place (.print [.binary .equals (.variable "x") (.literal .null)])) := by
    intro place
    have hnull : Denotes .null (.literal .null) := .scalar rfl (by rintro ⟨_, ⟨⟩⟩)
    have hequals : Denotes (.object [("eq", .array [.string "x", .null])])
        (.binary .equals (.variable "x") (.literal .null)) :=
      .operator rfl rfl (.array _ _) (.variable "x") hnull
    have hread := (Block.readPrinted_eq_ok_iff (place.key "print") _ _).2
      (.inr ⟨_, hequals, rfl⟩)
    rw [Block.readOperation_act place _ (by decide), Block.readAction, hread]
    rfl
  simp only [shortBlock, Block.read, Block.readStatements, Block.readStatement,
    Block.readOperations, hadd, hprint]
  rfl

theorem load_shortDocument : Program.load shortDocument = .ok spelledProgram := by
  have hloop : ∀ place : Location,
      Block.readOperation place "loop" (.object [("count", .string "n"), ("body", shortBlock)]) =
        .ok (.times place (.variable "n") [
          .act (((place.key "loop").key "body").item 0) (.update .add "x" (.variable "n")),
          .act (((place.key "loop").key "body").item 1)
            (.print [.binary .equals (.variable "x") (.literal .null)])]) := by
    intro place
    rw [Block.readOperation_loop_eq_ok_iff]
    exact ⟨_, rfl, _, .inr ⟨⟨_, rfl, .variable "n"⟩, rfl⟩, _, ⟨_, rfl, read_shortBlock _⟩, rfl⟩
  rw [Program.load_eq_ok_iff, shortDocument, Program.ofJson_array]
  simp only [Block.read, Block.readStatements, Block.readStatement, Block.readOperations, hloop]
  rfl

theorem respelled_shortBlock :
    Relation.EqvGen (Respells .block) shortBlock longBlock := by
  have hupdate : Respells (.operation "add") (.array [.string "x", .string "n"])
      (.object [("var", .string "x"), ("value", .string "n")]) :=
    .rule (.update (by decide) (.ofArray "x" (.string "n")) (.target rfl rfl))
  have hoperands : Respells .pair (.array [.string "x", .null])
      (.object [("left", .string "x"), ("right", .null)]) := by
    refine .rule (.parts (.array _ _) (.object rfl rfl) (Json.not_namesVariable_array _) ?_)
    rintro ⟨_, _, ⟨⟩, ⟨⟩⟩
  have hcompare : Relation.EqvGen (Respells .operand)
      (.object [("eq", .array [.string "x", .null])])
      (.object [("equals", .object [("left", .string "x"), ("right", .null)])]) := by
    have halias : ("eq", "equals") ∈ operatorAliases := by decide
    have hkey : "equals" ∈ operatorKeys := by decide
    refine .trans _ _ _ (.rel _ _ (.rule (.operatorAlias halias _))) ?_
    exact (Within.operands hkey).eqvGen (.rel _ _ hoperands)
  have hprint : Relation.EqvGen (Respells (.operation "print"))
      (.object [("eq", .array [.string "x", .null])])
      (.array [.object [("equals", .object [("left", .string "x"), ("right", .null)])]]) :=
    .trans _ _ _ (Within.printed.eqvGen hcompare)
      (.rel _ _ (.rule (.printed (Json.not_isArray_object _))))
  have hfirst := (Within.operation "add" [] []).eqvGen (.rel _ _ hupdate)
  have hsecond := (Within.operation "print" [] []).eqvGen hprint
  exact .trans _ _ _ ((Within.statement [] [_]).eqvGen hfirst)
    ((Within.statement [_] []).eqvGen hsecond)

theorem load_of_respelled_short :
    Relation.EqvGen (Respells .document) shortDocument longDocument ∧
      Program.load shortDocument = .ok spelledProgram ∧
      Program.load longDocument = .ok spelledProgram := by
  have hcount : Respells (.operation "loop")
      (.object [("count", .string "n"), ("body", shortBlock)])
      (.object [("times", .string "n"), ("body", shortBlock)]) :=
    .rule (@Rule.count [] [("body", shortBlock)] (.string "n") (by decide) (by decide))
  have hbody := @Within.body "loop" (by decide) [("times", .string "n")] (by decide) []
  have hloop : Relation.EqvGen (Respells (.operation "loop")) _ _ :=
    .trans _ _ _ (.rel _ _ hcount) (hbody.eqvGen respelled_shortBlock)
  have hmain := (Within.statement [] []).eqvGen ((Within.operation "loop" [] []).eqvGen hloop)
  have hpath : Relation.EqvGen (Respells .document) shortDocument longDocument :=
    .trans _ _ _ (Within.bare.eqvGen hmain) (.rel _ _ (.rule (.bare _)))
  exact ⟨hpath, load_shortDocument, load_of_respelled hpath load_shortDocument⟩

end JsonScript
