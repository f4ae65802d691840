import JsonScript.Proofs.DocumentReadings
import JsonScript.Proofs.PlaceTexts
import JsonScript.Proofs.Reach

/-!
# What operations are made from

Every operation of a block is made from one key of one statement object. The
objects are numbered, and the keys of all of them, one after the other, give the
operations, one after the other. `MadeFrom` says so without mentioning places: it
pairs keys and operations by their order, and goes down into the blocks of an
operation by the names that these have in the document.

An operation knows where it comes from. Its place is the path to the object that
it was made from, and read as a path into the document (`Json.node?`) it leads
there. Even the text of the place identifies the object within the block.

## Main results

* `Block.forall₂_of_readStatements` — operations are made from keys one by one.
* `exists_madeFrom_of_occurs` — every operation is made from some key.
* `MadeFrom.readOperation` — it was read from that key, at its own place.
* `Program.Body.places` — places in a loaded program are faithful.
-/

namespace JsonScript

open Reading

/-! ## Nodes of a document -/

namespace Json

/-- The node one step down. -/
def step? : Json → Step → Option Json
  | .array items, .item i => items[i]?
  | .object members, .key name => members.lookup name
  | _, _ => none

/-- The node some steps down. -/
def at? (j : Json) (steps : List Step) : Option Json := steps.foldlM step? j

/-- The node of a document at a place. The root of the place names a section of
the program; a document without sections is a main block. -/
def node? (document : Json) (place : Location) : Option Json :=
  match document with
  | .array _ => if place.root = "main" then document.at? place.steps else none
  | .object [("program", content)] => content.at? (.key place.root :: place.steps)
  | _ => none

@[simp] theorem at?_nil (j : Json) : j.at? [] = some j := rfl

theorem at?_cons (j : Json) (step : Step) (rest : List Step) :
    j.at? (step :: rest) = (j.step? step).bind (at? · rest) := List.foldlM_cons ..

theorem at?_append (j : Json) (steps more : List Step) :
    j.at? (steps ++ more) = (j.at? steps).bind (at? · more) := List.foldlM_append

theorem node?_down {document node : Json} {place : Location}
    (h : document.node? place = some node) (steps : List Step) :
    document.node? (place.down steps) = node.at? steps := by
  rw [node?.eq_def] at h ⊢
  split at h
  · rename_i items
    obtain ⟨hroot, hnode⟩ := Option.ite_none_right_eq_some.1 h
    simp only [Location.down, if_pos hroot, at?_append, hnode, Option.bind_some]
  · simp only [Location.down]
    rw [← List.cons_append, at?_append, h, Option.bind_some]
  · cases h

/-- Below the section that the root of the place names. -/
theorem node?_program (sections : Members) (place : Location) :
    (object [("program", .object sections)]).node? place =
      (sections.lookup place.root).bind (at? · place.steps) := by
  rw [node?, at?_cons]
  rfl

theorem UniqueKeys.of_step? {j j' : Json} {step : Step} (hj : j.UniqueKeys)
    (h : j.step? step = some j') : j'.UniqueKeys := by
  rw [step?.eq_def] at h
  split at h
  · exact (uniqueKeys_array_iff _).1 hj _ (List.mem_of_getElem? h)
  · exact ((uniqueKeys_object_iff _).1 hj).2 _ (mem_of_lookup h)
  · cases h

theorem UniqueKeys.of_at? {steps : List Step} :
    ∀ {j j' : Json}, j.UniqueKeys → j.at? steps = some j' → j'.UniqueKeys := by
  induction steps with
  | nil =>
      intro j j' hj h
      cases h
      exact hj
  | cons step rest ih =>
      intro j j' hj h
      rw [at?_cons] at h
      obtain ⟨inner, hstep, hrest⟩ := Option.bind_eq_some_iff.1 h
      exact ih (hj.of_step? hstep) hrest

theorem UniqueKeys.of_node? {document node : Json} {place : Location} (hj : document.UniqueKeys)
    (h : document.node? place = some node) : node.UniqueKeys := by
  rw [node?.eq_def] at h
  split at h
  · exact hj.of_at? (Option.ite_none_right_eq_some.1 h).2
  · exact (((uniqueKeys_object_iff _).1 hj).2 _ List.mem_cons_self).of_at? h
  · cases h

end Json

/-! ## Keys and operations -/

/-- The keys of statement objects with their bodies, each with the number of its
object, counted from `i`. -/
def statementMembers (i : Nat) : List Json → List (Nat × String × Json)
  | [] => []
  | .object members :: rest => members.map (fun m => (i, m)) ++ statementMembers (i + 1) rest
  | _ :: rest => statementMembers (i + 1) rest

/-- The blocks of an operation, with the names that they have in the document. -/
def Operation.namedBlocks : Operation → List (String × List Operation)
  | .choose _ _ thenBlock elseBlock => [("then", thenBlock), ("else", elseBlock)]
  | .times _ _ body => [("body", body)]
  | .whilst _ _ body => [("body", body)]
  | .act .. | .call .. => []

/-- The operation of the block is made from the key with its body, in the statement
object that the steps lead to. The array holds the statement objects of the block. -/
inductive MadeFrom : Json → List Operation → List Step → String → Json → Operation → Prop where
  /-- A key of one of the objects. -/
  | here {items : List Json} {block : List Operation} {i : Nat} {key : String} {body : Json}
      {op : Operation} (h : ((i, key, body), op) ∈ (statementMembers 0 items).zip block) :
      MadeFrom (.array items) block [.item i] key body op
  /-- A key further down, in a block of the operation of such a key. -/
  | inner {items : List Json} {block part : List Operation} {i : Nat} {outerKey name key : String}
      {fields : Json.Members} {node body : Json} {outer op : Operation} {steps : List Step}
      (houter : ((i, outerKey, .object fields), outer) ∈ (statementMembers 0 items).zip block)
      (hnode : fields.lookup name = some node) (hpart : (name, part) ∈ outer.namedBlocks)
      (h : MadeFrom node part steps key body op) :
      MadeFrom (.array items) block (.item i :: .key outerKey :: .key name :: steps) key body op

theorem Operation.exists_namedBlocks_of_blocks {op : Operation} {block : List Operation}
    (h : block ∈ op.blocks) : ∃ name, (name, block) ∈ op.namedBlocks := by
  have hblocks : op.blocks = op.namedBlocks.map Prod.snd := by
    cases op <;> rfl
  rw [hblocks] at h
  obtain ⟨⟨name, _⟩, hmem, rfl⟩ := List.mem_map.1 h
  exact ⟨name, hmem⟩

/-- Where a key of a statement object comes from. -/
theorem exists_of_mem_statementMembers {items : List Json} {k : Nat} {key : String} {body : Json} :
    ∀ i, (k, key, body) ∈ statementMembers i items →
      ∃ n members, k = i + n ∧ items[n]? = some (.object members) ∧ (key, body) ∈ members := by
  induction items with
  | nil => exact fun i h => absurd h List.not_mem_nil
  | cons j rest ih =>
      intro i h
      -- Those of the first object, or of another one.
      have hcases : (∃ members, j = .object members ∧ k = i ∧ (key, body) ∈ members) ∨
          (k, key, body) ∈ statementMembers (i + 1) rest := by
        cases j with
        | object members =>
            rcases List.mem_append.1 h with h | h
            · obtain ⟨m, hm, hk⟩ := List.mem_map.1 h
              cases hk
              exact .inl ⟨members, rfl, rfl, hm⟩
            · exact .inr h
        | null | bool | number | string | array => exact .inr h
      rcases hcases with ⟨members, rfl, rfl, hmem⟩ | h
      · exact ⟨0, members, rfl, rfl, hmem⟩
      · obtain ⟨n, members, rfl, hitem, hmem⟩ := ih (i + 1) h
        exact ⟨n + 1, members, by omega, hitem, hmem⟩

namespace Block

theorem forall₂_of_readOperations {place : Location} {members : Json.Members} :
    ∀ {block : List Operation}, readOperations place members = .ok block →
      List.Forall₂ (fun m op => readOperation place m.1 m.2 = .ok op) members block := by
  induction members with
  | nil =>
      intro block h
      rw [readOperations_nil] at h
      cases h
      exact .nil
  | cons m rest ih =>
      intro block h
      rw [readOperations] at h
      obtain ⟨op, hop, h⟩ := (bind_eq_ok _ _ _).1 h
      obtain ⟨more, hmore, h⟩ := (bind_eq_ok _ _ _).1 h
      cases h
      exact .cons hop (ih hmore)

/-- Operations are made from keys one by one. -/
theorem forall₂_of_readStatements {place : Location} {items : List Json} :
    ∀ {i : Nat} {block : List Operation}, readStatements place i items = .ok block →
      List.Forall₂ (fun m op => readOperation (place.item m.1) m.2.1 m.2.2 = .ok op)
        (statementMembers i items) block := by
  induction items with
  | nil =>
      intro i block h
      rw [readStatements_nil] at h
      cases h
      exact .nil
  | cons j rest ih =>
      intro i block h
      rw [readStatements] at h
      obtain ⟨first, hfirst, h⟩ := (bind_eq_ok _ _ _).1 h
      obtain ⟨more, hmore, h⟩ := (bind_eq_ok _ _ _).1 h
      cases h
      cases j with
      | object members =>
          rw [readStatement] at hfirst
          have hmembers := forall₂_of_readOperations hfirst
          exact List.rel_append (List.forall₂_map_left_iff.2 hmembers) (ih hmore)
      | null | bool | number | string | array =>
          rw [readStatement] at hfirst
          · cases hfirst
          · intro members h
            cases h

theorem readStatements_of_read {place : Location} {items : List Json} {block : List Operation}
    (h : read place (.array items) = .ok block) : readStatements place 0 items = .ok block := by
  rwa [read] at h

/-- An operation has the place of its statement object, and its blocks are the
members of its body by their names, each of them one that is known to hold a
block. -/
theorem place_and_namedBlocks_of_readOperation {place : Location} {key : String} {body : Json}
    {op : Operation} (h : readOperation place key body = .ok op) :
    op.place = place ∧ ∀ name block, (name, block) ∈ op.namedBlocks →
      (key, name) ∈ blockKeys ∧ ∃ fields, body = .object fields ∧
        HasMemberOr name (read ((place.key key).key name) · = .ok block) (block = []) fields := by
  by_cases hcontrol : key ∈ ["if", "loop", "while", "call"]
  · simp only [List.mem_cons, List.not_mem_nil, or_false] at hcontrol
    rcases hcontrol with rfl | rfl | rfl | rfl
    · obtain ⟨fields, rfl, condition, _, thenBlock, hthen, elseBlock, helse, rfl⟩ :=
        (readOperation_if_eq_ok_iff ..).1 h
      refine ⟨rfl, fun name block hmem => ?_⟩
      simp only [Operation.namedBlocks, List.mem_cons, Prod.mk.injEq, List.not_mem_nil,
        or_false] at hmem
      rcases hmem with ⟨rfl, rfl⟩ | ⟨rfl, rfl⟩
      · exact ⟨by decide, fields, rfl, .inl hthen⟩
      · exact ⟨by decide, fields, rfl, helse⟩
    · obtain ⟨fields, rfl, count, _, inner, hbody, rfl⟩ := (readOperation_loop_eq_ok_iff ..).1 h
      refine ⟨rfl, fun name block hmem => ?_⟩
      cases List.mem_singleton.1 hmem
      exact ⟨by decide, fields, rfl, .inl hbody⟩
    · obtain ⟨fields, rfl, condition, _, inner, hbody, rfl⟩ :=
        (readOperation_while_eq_ok_iff ..).1 h
      refine ⟨rfl, fun name block hmem => ?_⟩
      cases List.mem_singleton.1 hmem
      exact ⟨by decide, fields, rfl, .inl hbody⟩
    · rw [readOperation_call] at h
      obtain ⟨_, _, rfl⟩ := (map_eq_ok_iff ..).1 h
      exact ⟨rfl, fun _ _ hmem => absurd hmem List.not_mem_nil⟩
  · rw [readOperation_act place body hcontrol] at h
    obtain ⟨_, _, rfl⟩ := (map_eq_ok_iff ..).1 h
    exact ⟨rfl, fun _ _ hmem => absurd hmem List.not_mem_nil⟩

/-- The operations of a block, in pairs with the keys. -/
theorem readOperation_of_mem_zip {place : Location} {items : List Json} {block : List Operation}
    (h : read place (.array items) = .ok block) {i : Nat} {key : String} {body : Json}
    {op : Operation} (hmem : ((i, key, body), op) ∈ (statementMembers 0 items).zip block) :
    readOperation (place.item i) key body = .ok op :=
  (List.forall₂_iff_zip.1 (forall₂_of_readStatements (readStatements_of_read h))).2 hmem

/-- Every operation of a block stands over some key. -/
theorem exists_key_of_mem {place : Location} {node : Json} {block : List Operation}
    {op : Operation} (h : read place node = .ok block) (hmem : op ∈ block) :
    ∃ items i key body, node = .array items ∧
      ((i, key, body), op) ∈ (statementMembers 0 items).zip block ∧
      readOperation (place.item i) key body = .ok op := by
  have hblock := (succeeds_read_iff place node).1 ⟨block, h⟩
  cases hblock
  have hkeys := forall₂_of_readStatements (readStatements_of_read h)
  obtain ⟨⟨i, key, body⟩, hzip, hread⟩ := exists_zip_of_mem_right hkeys hmem
  exact ⟨_, i, key, body, rfl, hzip, hread⟩

end Block

/-- Every operation is made from some key. -/
theorem exists_madeFrom_of_occurs {op : Operation} {block : List Operation} (ho : Occurs op block) :
    ∀ {place : Location} {node : Json}, Block.read place node = .ok block →
      ∃ steps key body, MadeFrom node block steps key body op := by
  induction ho with
  | here hmem =>
      intro place node h
      obtain ⟨items, i, key, body, rfl, hzip, _⟩ := Block.exists_key_of_mem h hmem
      exact ⟨_, key, body, .here hzip⟩
  | @inside block inner outer houter hinner ho ih =>
      intro place node h
      obtain ⟨items, i, outerKey, body, rfl, hzip, hread⟩ := Block.exists_key_of_mem h houter
      obtain ⟨name, hpart⟩ := Operation.exists_namedBlocks_of_blocks hinner
      obtain ⟨_, fields, rfl, hblock⟩ :=
        (Block.place_and_namedBlocks_of_readOperation hread).2 name inner hpart
      rcases hblock with ⟨node, hlookup, hread'⟩ | ⟨_, rfl⟩
      · obtain ⟨steps, key, body, hmade⟩ := ih hread'
        exact ⟨_, key, body, .inner hzip hlookup hpart hmade⟩
      · exact absurd ho (not_occurs_nil op)

namespace MadeFrom

variable {node body : Json} {block : List Operation} {steps : List Step} {key : String}
  {op : Operation}

theorem ne_nil (h : MadeFrom node block steps key body op) : block ≠ [] := by
  rintro rfl
  cases h with
  | here hmem | inner hmem =>
      rw [List.zip_nil_right] at hmem
      cases hmem

/-- The operation was read from its key, at its own place, which is the one that
the steps lead to. -/
theorem readOperation (h : MadeFrom node block steps key body op) :
    ∀ {place : Location}, Block.read place node = .ok block →
      op.place = place.down steps ∧ BlockPath steps ∧
        Block.readOperation op.place key body = .ok op := by
  induction h with
  | @here items block i key body op hmem =>
      intro place h
      have hread := Block.readOperation_of_mem_zip h hmem
      have hplace := (Block.place_and_namedBlocks_of_readOperation hread).1
      exact ⟨hplace, .statement i, hplace ▸ hread⟩
  | @inner items block part i outerKey name key fields node body outer op steps houter hnode hpart
      _ ih =>
      intro place h
      have hread := Block.readOperation_of_mem_zip h houter
      obtain ⟨hkey, _, ⟨⟩, hblock⟩ :=
        (Block.place_and_namedBlocks_of_readOperation hread).2 name part hpart
      rw [hasMemberOr_iff_of_lookup_eq_some hnode] at hblock
      obtain ⟨hplace, hpath, hop⟩ := ih hblock
      refine ⟨?_, .inner i hkey hpath, hop⟩
      rw [hplace, Location.item_eq_down, Location.key_eq_down, Location.key_eq_down,
        Location.down_down, Location.down_down, Location.down_down]
      rfl

/-- The steps lead to a statement object that has the key. -/
theorem exists_statement (h : MadeFrom node block steps key body op)
    (hunique : node.UniqueKeys) :
    ∃ members, node.at? steps = some (.object members) ∧ members.lookup key = some body := by
  have hobject {items : List Json} {i : Nat} {key : String} {body : Json} {op : Operation}
      {block : List Operation} (hunique : (Json.array items).UniqueKeys)
      (hmem : ((i, key, body), op) ∈ (statementMembers 0 items).zip block) :
      ∃ members, (Json.array items).step? (.item i) = some (.object members) ∧
        (Json.object members).step? (.key key) = some body := by
    obtain ⟨n, members, hn, hitem, hbody⟩ :=
      exists_of_mem_statementMembers 0 (List.of_mem_zip hmem).1
    rw [Nat.zero_add] at hn
    subst hn
    have hstep : (Json.array items).step? (.item i) = some (.object members) := hitem
    have hkeys := ((Json.uniqueKeys_object_iff members).1 (hunique.of_step? hstep)).1
    exact ⟨members, hstep, (NameMap.lookup_eq_some_iff_mem hkeys key body).2 hbody⟩
  induction h with
  | @here items block i key body op hmem =>
      obtain ⟨members, hitem, hbody⟩ := hobject hunique hmem
      refine ⟨members, ?_, hbody⟩
      rw [Json.at?_cons, hitem]
      rfl
  | @inner items block part i outerKey name key fields node body outer op steps houter hnode hpart
      _ ih =>
      obtain ⟨members, hitem, hfields⟩ := hobject hunique houter
      have hname : (Json.object fields).step? (.key name) = some node := hnode
      have hfields' := (hunique.of_step? hitem).of_step? hfields
      obtain ⟨inner, hinner, hlookup⟩ := ih (hfields'.of_step? hname)
      refine ⟨inner, ?_, hlookup⟩
      rw [Json.at?_cons, hitem, Option.bind_some, Json.at?_cons, hfields, Option.bind_some,
        Json.at?_cons, hname, Option.bind_some, hinner]

end MadeFrom

/-! ## Loaded programs -/

namespace Program

/-- A block of a program that is in no other, with its place. -/
inductive Body (p : Program) : Location → List Operation → Prop where
  /-- The main block. -/
  | main : p.Body (.ofRoot "main") p.main
  /-- The block of a routine. -/
  | routine {name : String} {r : Routine} (h : p.routines.find name = .ok r) :
      p.Body (((Location.ofRoot "functions").key name).key "body") r.body

section Sections

variable {j : Json} {p : Program} (hunique : j.UniqueKeys) (hload : ofJson j = .ok p)
include hunique hload

theorem main_of_ofJson :
    (∃ node, j.node? (.ofRoot "main") = some node ∧
      Block.read (.ofRoot "main") node = .ok p.main) ∨ p.main = [] := by
  rcases (ofJson_eq_ok_iff hunique p).1 hload with
    ⟨items, rfl, main, hmain, rfl⟩ | ⟨sections, rfl, hassembled⟩
  · exact .inl ⟨.array items, rfl, hmain⟩
  · rcases hassembled.main with ⟨content, hcontent, hread⟩ | ⟨_, hempty⟩
    · refine .inl ⟨content, ?_, hread⟩
      rw [Json.node?_program]
      exact Option.bind_eq_some_iff.2 ⟨content, hcontent, rfl⟩
    · exact .inr hempty

theorem routines_of_ofJson :
    (∃ members, j.node? (.ofRoot "functions") = some (.object members) ∧
      (Json.keys members).Nodup ∧ DenotesRoutines (.object members) p.routines) ∨
    j.node? (.ofRoot "functions") = none ∧ p.routines = .empty := by
  rcases (ofJson_eq_ok_iff hunique p).1 hload with
    ⟨items, rfl, main, _, rfl⟩ | ⟨sections, rfl, hassembled⟩
  · exact .inr ⟨rfl, rfl⟩
  · have hnode := Json.node?_program sections (.ofRoot "functions")
    rcases hassembled.routines with ⟨content, hcontent, hroutines⟩ | ⟨hnone, hempty⟩
    · obtain ⟨members, rfl, _⟩ := id hroutines
      replace hnode := hnode.trans (Option.bind_eq_some_iff.2 ⟨_, hcontent, rfl⟩)
      have hkeys := ((Json.uniqueKeys_object_iff members).1 (hunique.of_node? hnode)).1
      exact .inl ⟨members, hnode, hkeys, hroutines⟩
    · exact .inr ⟨hnode.trans (Option.bind_eq_none_iff.2 fun _ h => nomatch hnone.symm.trans h),
        hempty⟩

/-- The blocks of a program were read at their places, or have no operations. -/
theorem Body.read {root : Location} {block : List Operation} (h : p.Body root block) :
    (∃ node, j.node? root = some node ∧ Block.read root node = .ok block) ∨ block = [] := by
  cases h with
  | main => exact main_of_ofJson hunique hload
  | @routine name r h =>
      rcases routines_of_ofJson hunique hload with ⟨members, hnode, hkeys, hroutines⟩ | ⟨_, hempty⟩
      · obtain ⟨definition, hdefinition, hr⟩ := (hroutines.find_eq_ok_iff hkeys name r).1 h
        obtain ⟨fields, rfl, _, _, body, ⟨node, hbody, hread⟩, rfl⟩ :=
          (Routine.read_eq_ok_iff ..).1 hr
        have hmember : (Json.object members).step? (.key name) = some (.object fields) :=
          hdefinition
        have hfield : (Json.object fields).step? (.key "body") = some node := hbody
        refine .inl ⟨node, ?_, hread⟩
        rw [Location.key_eq_down, Location.key_eq_down, Location.down_down,
          Json.node?_down hnode, List.singleton_append, Json.at?_cons, hmember, Option.bind_some,
          Json.at?_cons, hfield]
        rfl
      · rw [hempty] at h
        cases h

end Sections

/-- **Places are faithful and unambiguous.**  Every operation in the main block of
a loaded program, or in the block of a routine, is made from some key of a
statement object in the document. The text of its place is the written form of
the path from the block to that object, and the place leads there. Two operations
of the block have the same text exactly if they were made from keys of the same
object. -/
theorem Body.places {j : Json} {p : Program} (hunique : j.UniqueKeys) (hload : load j = .ok p)
    {root : Location} {block : List Operation} (h : p.Body root block) :
    (∀ op, Occurs op block → ∃ node steps key body,
      j.node? root = some node ∧ MadeFrom node block steps key body op) ∧
    ∀ node, j.node? root = some node → ∀ steps key body op,
      MadeFrom node block steps key body op →
        op.place.render = root.render ++ Step.renderAll steps ∧
        (∃ members, j.node? (root.down steps) = some (.object members) ∧
          members.lookup key = some body ∧
          Block.readOperation (root.down steps) key body = .ok op) ∧
        ∀ steps' key' body' op', MadeFrom node block steps' key' body' op' →
          (op.place.render = op'.place.render ↔ steps = steps') := by
  rw [load_eq_ok_iff] at hload
  have hread := h.read hunique hload
  constructor
  · intro op ho
    rcases hread with ⟨node, hnode, hread⟩ | rfl
    · obtain ⟨steps, key, body, hmade⟩ := exists_madeFrom_of_occurs ho hread
      exact ⟨node, steps, key, body, hnode, hmade⟩
    · exact absurd ho (not_occurs_nil op)
  · intro node hnode steps key body op hmade
    have hread : Block.read root node = .ok block := by
      rcases hread with ⟨node', hnode', hread⟩ | hempty
      · cases hnode.symm.trans hnode'
        exact hread
      · exact absurd hempty hmade.ne_nil
    obtain ⟨hplace, hpath, hop⟩ := hmade.readOperation hread
    obtain ⟨members, hmembers, hlookup⟩ := hmade.exists_statement (hunique.of_node? hnode)
    refine ⟨?_, ⟨members, ?_, hlookup, hplace ▸ hop⟩, fun steps' key' body' op' hmade' => ?_⟩
    · rw [hplace, Location.render_down]
    · rw [Json.node?_down hnode, hmembers]
    · obtain ⟨hplace', hpath', _⟩ := hmade'.readOperation hread
      rw [hplace, hplace', Location.render_down_eq_iff root hpath hpath']

end Program

/-- A loop over an object with two keys. -/
def pairDocument : Json :=
  .array [.object [("while", .object [("condition", .bool false),
    ("body", .array [.object [("zap", .null), ("zip", .null)]])])]]

/-- The place of the object with two keys. -/
def pairPlace : Location := (Location.ofRoot "main").down
  [.item 0, .key "while", .key "body", .item 0]

/-- The program of the loop. -/
def pairProgram : Program :=
  { Program.empty with
    main := [.whilst ((Location.ofRoot "main").item 0) (.literal (.bool false))
      [.act pairPlace (.unknown "zap"), .act pairPlace (.unknown "zip")]] }

theorem uniqueKeys_pairDocument : pairDocument.UniqueKeys := by
  have hfalse : (Json.bool false).UniqueKeys := .scalar trivial
  have hnull : Json.null.UniqueKeys := .scalar trivial
  simp [pairDocument, Json.keys, hfalse, hnull]

theorem load_pairDocument : Program.load pairDocument = .ok pairProgram := by
  have hzap : Block.readOperation pairPlace "zap" .null = .ok (.act pairPlace (.unknown "zap")) := by
    rw [Block.readOperation_act pairPlace .null (by decide)]
    rfl
  have hzip : Block.readOperation pairPlace "zip" .null = .ok (.act pairPlace (.unknown "zip")) := by
    rw [Block.readOperation_act pairPlace .null (by decide)]
    rfl
  have hbody : Block.read ((((Location.ofRoot "main").item 0).key "while").key "body")
      (.array [.object [("zap", .null), ("zip", .null)]]) =
        .ok [.act pairPlace (.unknown "zap"), .act pairPlace (.unknown "zip")] := by
    have hplace : ((((Location.ofRoot "main").item 0).key "while").key "body").item 0 =
        pairPlace := rfl
    simp only [Block.read, Block.readStatements, Block.readStatement, Block.readOperations,
      hplace, hzap, hzip]
    rfl
  have hfalse : Denotes (.bool false) (.literal (.bool false)) := .scalar rfl (by rintro ⟨_, ⟨⟩⟩)
  have hwhile : Block.readOperation ((Location.ofRoot "main").item 0) "while"
      (.object [("condition", .bool false), ("body", .array [.object [("zap", .null),
        ("zip", .null)]])]) = .ok (.whilst ((Location.ofRoot "main").item 0)
          (.literal (.bool false))
          [.act pairPlace (.unknown "zap"), .act pairPlace (.unknown "zip")]) :=
    (Block.readOperation_while_eq_ok_iff ..).2
      ⟨_, rfl, _, ⟨_, rfl, hfalse⟩, _, ⟨_, rfl, hbody⟩, rfl⟩
  rw [Program.load_eq_ok_iff, pairDocument, Program.ofJson_array]
  simp only [Block.read, Block.readStatements, Block.readStatement, Block.readOperations, hwhile]
  rfl

/-- Both keys of the object have its place. -/
theorem Program.Body.places_pair :
    pairDocument.UniqueKeys ∧ Program.load pairDocument = .ok pairProgram ∧
      pairProgram.Body (.ofRoot "main") pairProgram.main ∧
      ∃ node steps key body key' body',
        pairDocument.node? (.ofRoot "main") = some node ∧
        MadeFrom node pairProgram.main steps key body (.act pairPlace (.unknown "zap")) ∧
        MadeFrom node pairProgram.main steps key' body' (.act pairPlace (.unknown "zip")) ∧
        "main[0].while.body[0]" = "main" ++ Step.renderAll steps := by
  obtain ⟨hsource, hplaces⟩ := Program.Body.places uniqueKeys_pairDocument load_pairDocument .main
  have hzap : Occurs (.act pairPlace (.unknown "zap")) pairProgram.main :=
    .inside List.mem_cons_self List.mem_cons_self (.here List.mem_cons_self)
  have hzip : Occurs (.act pairPlace (.unknown "zip")) pairProgram.main :=
    .inside List.mem_cons_self List.mem_cons_self
      (.here (List.mem_cons_of_mem _ List.mem_cons_self))
  obtain ⟨node, steps, key, body, hnode, hmade⟩ := hsource _ hzap
  obtain ⟨node', steps', key', body', hnode', hmade'⟩ := hsource _ hzip
  cases hnode.symm.trans hnode'
  obtain ⟨htext, -, hsame⟩ := hplaces node hnode steps key body _ hmade
  cases (hsame steps' key' body' _ hmade').1 rfl
  exact ⟨uniqueKeys_pairDocument, load_pairDocument, .main, node, steps, key, body, key', body',
    hnode, hmade, hmade', htext⟩

end JsonScript
