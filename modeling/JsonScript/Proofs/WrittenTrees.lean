import JsonScript.NameMap
import JsonScript.Proofs.UniqueKeys
import Mathlib.Logic.Basic

/-!
# Trees as they are written

The tree that a text is read to has lost what was written over: of the members with
one key only the first place and the last content are left. To speak about what a text
writes, `Json.Spells` gives the grammar of JSON over trees whose objects may repeat keys,
and `Json.merged` is what is left of such a tree.

The reader agrees with the grammar. On the tokens of a tree it ends with the merged tree,
unless containers are nested too deeply (`Json.Spells.readFrom`); and it accepts nothing
but tokens of trees (`Reader.exists_spells_of_ofTokens`). The first is an induction on the
grammar. The second is an induction on the number of tokens; what an open container
still needs is told by `Reader.Finishes`, and each step takes off the tokens of one value.

## Main results

* `Json.read_of_spelledBy` — the text of a tree is read to the merged tree.
* `Json.read_eq_ok_iff` — and no other texts are read.
* `Json.lookup_mergedInto` — of all that is written under a key, the last one is found.
-/

namespace JsonScript

/-! ## What is left of a tree -/

namespace Json

mutual

/-- The tree without what is written over. -/
def merged : Json → Json
  | .array items => .array (mergedItems items)
  | .object members => .object (mergedInto [] members)
  | .null => .null
  | .bool b => .bool b
  | .number x => .number x
  | .string s => .string s

/-- The items without what is written over in them. -/
def mergedItems : List Json → List Json
  | [] => []
  | j :: rest => j.merged :: mergedItems rest

/-- Writes members over those that are there. -/
def mergedInto : Members → List (String × Json) → Members
  | before, [] => before
  | before, (key, j) :: rest => mergedInto (setMember key j.merged before) rest

end

mutual

/-- How deep containers are nested in the tree. -/
def depth : Json → Nat
  | .array items => depthOfItems items + 1
  | .object members => depthOfMembers members + 1
  | .null | .bool _ | .number _ | .string _ => 0

/-- How deep containers are nested in one of the items. -/
def depthOfItems : List Json → Nat
  | [] => 0
  | j :: rest => max j.depth (depthOfItems rest)

/-- How deep containers are nested in one of the members. -/
def depthOfMembers : List (String × Json) → Nat
  | [] => 0
  | (_, j) :: rest => max j.depth (depthOfMembers rest)

end

/-- What is written last under a key. -/
def writtenLast (key : String) (members : Members) : Option Json := members.reverse.lookup key

theorem mergedItems_eq_map (items : List Json) : mergedItems items = items.map merged := by
  induction items with
  | nil => rfl
  | cons j rest ih => rw [mergedItems, ih, List.map_cons]

theorem depthOfItems_lt_iff {n : Nat} (hn : 0 < n) (items : List Json) :
    depthOfItems items < n ↔ ∀ j ∈ items, j.depth < n := by
  induction items with
  | nil => exact iff_of_true hn nofun
  | cons j rest ih => rw [depthOfItems, Nat.max_lt, ih, List.forall_mem_cons]

/-- An array may be nested no deeper than its items and one more. -/
theorem depth_array_le_iff (items : List Json) :
    (array items).depth ≤ Reader.maxDepth ↔ ∀ j ∈ items, j.depth < Reader.maxDepth := by
  rw [depth, Nat.succ_le_iff, depthOfItems_lt_iff (by decide)]

theorem lookup_setMember (key : String) (content : Json) (members : Members) (name : String) :
    (setMember key content members).lookup name =
      if name = key then some content else members.lookup name := by
  induction members with
  | nil => rw [setMember, NameMap.lookup_cons_eq_ite]
  | cons m rest ih =>
      obtain ⟨k, v⟩ := m
      rw [setMember, NameMap.lookup_cons_eq_ite]
      by_cases hk : k = key
      · rw [if_pos hk, NameMap.lookup_cons_eq_ite, hk]
        split <;> rfl
      · rw [if_neg hk, NameMap.lookup_cons_eq_ite, ih]
        by_cases h : name = k
        · rw [if_pos h, if_pos h, if_neg (h ▸ hk)]
        · rw [if_neg h, if_neg h]

theorem writtenLast_cons (key : String) (content : Json) (members : Members) (name : String) :
    writtenLast name ((key, content) :: members) =
      (writtenLast name members).or (if name = key then some content else none) := by
  rw [writtenLast, writtenLast, List.reverse_cons, List.lookup_append,
    NameMap.lookup_cons_eq_ite, List.lookup_nil]

/-- Of all that is written under a key, the last one is found. -/
theorem lookup_mergedInto (name : String) (members : List (String × Json)) :
    ∀ before : Members, (mergedInto before members).lookup name =
      ((writtenLast name members).map merged).or (before.lookup name) := by
  induction members with
  | nil =>
      intro before
      rfl
  | cons m rest ih =>
      obtain ⟨key, j⟩ := m
      intro before
      rw [mergedInto, ih, writtenLast_cons, lookup_setMember]
      cases writtenLast name rest with
      | some _ => rfl
      | none => by_cases h : name = key <;> simp [h]

theorem lookup_merged (name : String) (members : List (String × Json)) :
    (mergedInto [] members).lookup name = (writtenLast name members).map merged := by
  rw [lookup_mergedInto, List.lookup_nil, Option.or_none]

theorem nodup_keys_mergedInto (members : List (String × Json)) :
    ∀ {before : Members}, (keys before).Nodup → (keys (mergedInto before members)).Nodup := by
  induction members with
  | nil =>
      intro before h
      exact h
  | cons m rest ih =>
      obtain ⟨key, j⟩ := m
      intro before h
      rw [mergedInto]
      exact ih (nodup_keys_setMember h key j.merged)

end Json

/-! ## The grammar -/

/-- The tokens of a member, whose content has these tokens. -/
def Token.member (key : String) (content : List Token) : List Token :=
  .string key :: .colon :: content

/-- Pieces of a text with commas between them. -/
def Token.separated : List (List Token) → List Token
  | [] => []
  | piece :: rest => piece ++ rest.flatMap (.comma :: ·)

/-- The tokens write the tree, whose objects may have keys more than once. -/
inductive Json.Spells : Json → List Token → Prop where
  | word (w : Word) : Spells (Reader.ofWord w) [.word w]
  | string (s : String) : Spells (.string s) [.string s]
  | numeral {n : Numeral} {x : Float} (h : n.toFloat? = some x) : Spells (.number x) [.numeral n]
  | array {pieces : List (Json × List Token)} (h : ∀ p ∈ pieces, Spells p.1 p.2) :
      Spells (.array (pieces.map Prod.fst))
        (.openBracket :: Token.separated (pieces.map Prod.snd) ++ [.closeBracket])
  | object {pieces : List (String × Json × List Token)} (h : ∀ p ∈ pieces, Spells p.2.1 p.2.2) :
      Spells (.object (pieces.map fun p => (p.1, p.2.1)))
        (.openBrace :: Token.separated (pieces.map fun p => Token.member p.1 p.2.2) ++
          [.closeBrace])

/-- No value starts with the end of an array. -/
theorem Json.Spells.exists_cons {w : Json} {tokens : List Token} (h : w.Spells tokens) :
    ∃ t rest, tokens = t :: rest ∧ t ≠ Token.closeBracket := by
  cases h <;> exact ⟨_, _, rfl, nofun⟩

theorem Json.Spells.single (key : String) {j : Json} {tokens : List Token} (h : j.Spells tokens) :
    (Json.object [(key, j)]).Spells (.openBrace :: Token.member key tokens ++ [.closeBrace]) := by
  have hall : ∀ p ∈ [(key, j, tokens)], Json.Spells p.2.1 p.2.2 :=
    List.forall_mem_singleton.2 h
  simpa [Token.separated] using Json.Spells.object hall

theorem Json.Spells.pair (key key' : String) {j j' : Json} {tokens tokens' : List Token}
    (h : j.Spells tokens) (h' : j'.Spells tokens') :
    (Json.object [(key, j), (key', j')]).Spells
      (.openBrace :: (Token.member key tokens ++ .comma :: Token.member key' tokens') ++
        [.closeBrace]) := by
  have hall : ∀ p ∈ [(key, j, tokens), (key', j', tokens')], Json.Spells p.2.1 p.2.2 :=
    List.forall_mem_cons.2 ⟨h, List.forall_mem_singleton.2 h'⟩
  simpa [Token.separated] using Json.Spells.object hall

/-! ## Texts of trees are read -/

/-- Where a value may come, the tokens are read to the merged tree, unless the tree is
nested too deeply for what is open there. -/
def Json.ReadFrom (w : Json) (tokens : List Token) : Prop :=
  ∀ frames : List Frame, frames.length ≤ Reader.maxDepth →
    tokens.foldlM Reader.step ⟨frames, .value⟩ =
      if frames.length + w.depth ≤ Reader.maxDepth then .ok ⟨frames, .completed w.merged⟩
      else .error .nestedTooDeeply

namespace Reader

theorem foldlM_cons_of_ok {r r' : Reader} {t : Token} (h : r.step t = .ok r')
    (tokens : List Token) : (t :: tokens).foldlM step r = tokens.foldlM step r' := by
  rw [List.foldlM_cons, h]
  rfl

theorem foldlM_cons_of_error {r : Reader} {t : Token} {e : JsonError} (h : r.step t = .error e)
    (tokens : List Token) : (t :: tokens).foldlM step r = .error e := by
  rw [List.foldlM_cons, h]
  rfl

/-- A member starts in the same way where a key must come and where one may come. -/
theorem foldlM_member (key : String) (content rest : List Token) (frames : List Frame)
    (members : Json.Members) :
    (Token.member key content ++ rest).foldlM step ⟨frames, .key members⟩ =
      (content ++ rest).foldlM step ⟨.object members key :: frames, .value⟩ := rfl

theorem foldlM_firstMember (key : String) (content rest : List Token) (frames : List Frame) :
    (Token.member key content ++ rest).foldlM step ⟨frames, .keyOrEnd⟩ =
      (content ++ rest).foldlM step ⟨.object [] key :: frames, .value⟩ := rfl

/-- The first item of an array starts with no end of the array. -/
theorem step_firstItem (frames : List Frame) {t : Token} (h : t ≠ .closeBracket) :
    step ⟨frames, .itemOrEnd⟩ t = step ⟨.array [] :: frames, .value⟩ t := by
  cases t <;> first | rfl | exact absurd rfl h

theorem step_openBracket {frames : List Frame} (h : frames.length < maxDepth) :
    step ⟨frames, .value⟩ .openBracket = .ok ⟨frames, .itemOrEnd⟩ := if_pos h

theorem step_openBrace {frames : List Frame} (h : frames.length < maxDepth) :
    step ⟨frames, .value⟩ .openBrace = .ok ⟨frames, .keyOrEnd⟩ := if_pos h

/-- A value in an open container, and what comes behind it. -/
theorem foldlM_append_of_readFrom {w : Json} {tokens : List Token} (h : w.ReadFrom tokens)
    (frame : Frame) {outer : List Frame} (houter : outer.length < maxDepth) (rest : List Token) :
    (tokens ++ rest).foldlM step ⟨frame :: outer, .value⟩ =
      if outer.length + 1 + w.depth ≤ maxDepth then
        rest.foldlM step ⟨frame :: outer, .completed w.merged⟩
      else .error .nestedTooDeeply := by
  rw [List.foldlM_append, h (frame :: outer) houter, List.length_cons]
  split <;> rfl

/-- A value and what comes behind it fit in if both of them do. -/
theorem fits_both (outer inner rest : Nat) :
    outer + max inner rest ≤ maxDepth ↔ outer + inner ≤ maxDepth ∧ outer + rest ≤ maxDepth := by
  omega

/-- The remaining items of an array and its end. -/
theorem foldlM_items {pieces : List (Json × List Token)} (h : ∀ p ∈ pieces, p.1.ReadFrom p.2)
    {outer : List Frame} (houter : outer.length < maxDepth) :
    ∀ (items : List Json) (v : Json),
      ((pieces.map Prod.snd).flatMap (Token.comma :: ·) ++ [Token.closeBracket]).foldlM step
          ⟨.array items :: outer, .completed v⟩ =
        if outer.length + 1 + Json.depthOfItems (pieces.map Prod.fst) ≤ maxDepth then
          .ok ⟨outer, .completed
            (.array (items.reverse ++ v :: Json.mergedItems (pieces.map Prod.fst)))⟩
        else .error .nestedTooDeeply := by
  induction pieces with
  | nil =>
      intro items v
      have hfits : outer.length + 1 + Json.depthOfItems [] ≤ maxDepth := houter
      simp only [List.map_nil]
      rw [if_pos hfits, Json.mergedItems, ← List.reverse_cons]
      rfl
  | cons p rest ih =>
      intro items v
      obtain ⟨hp, hrest⟩ := List.forall_mem_cons.1 h
      have hcomma : step ⟨.array items :: outer, .completed v⟩ .comma =
        .ok ⟨.array (v :: items) :: outer, .value⟩ := rfl
      simp only [List.map_cons, List.flatMap_cons, List.cons_append, List.append_assoc,
        Json.depthOfItems, Json.mergedItems, fits_both]
      rw [foldlM_cons_of_ok hcomma, foldlM_append_of_readFrom hp _ houter, ih hrest,
        List.reverse_cons, List.append_assoc, List.singleton_append, ite_and]

/-- The remaining members of an object and its end. -/
theorem foldlM_members {pieces : List (String × Json × List Token)}
    (h : ∀ p ∈ pieces, p.2.1.ReadFrom p.2.2) {outer : List Frame}
    (houter : outer.length < maxDepth) :
    ∀ (members : Json.Members) (key : String) (v : Json),
      ((pieces.map fun p => Token.member p.1 p.2.2).flatMap (Token.comma :: ·) ++
          [Token.closeBrace]).foldlM step ⟨.object members key :: outer, .completed v⟩ =
        if outer.length + 1 + Json.depthOfMembers (pieces.map fun p => (p.1, p.2.1)) ≤ maxDepth
        then .ok ⟨outer, .completed (.object (Json.mergedInto (Json.setMember key v members)
          (pieces.map fun p => (p.1, p.2.1))))⟩
        else .error .nestedTooDeeply := by
  induction pieces with
  | nil =>
      intro members key v
      have hfits : outer.length + 1 + Json.depthOfMembers [] ≤ maxDepth := houter
      simp only [List.map_nil]
      rw [if_pos hfits, Json.mergedInto]
      rfl
  | cons p rest ih =>
      obtain ⟨k, w, tokens⟩ := p
      intro members key v
      obtain ⟨hp, hrest⟩ := List.forall_mem_cons.1 h
      have hcomma : step ⟨.object members key :: outer, .completed v⟩ .comma =
        .ok ⟨outer, .key (Json.setMember key v members)⟩ := rfl
      simp only [List.map_cons, List.flatMap_cons, List.cons_append, List.append_assoc,
        Json.depthOfMembers, Json.mergedInto, fits_both]
      rw [foldlM_cons_of_ok hcomma, foldlM_member, foldlM_append_of_readFrom hp _ houter,
        ih hrest, ite_and]

/-- An array is refused at its start if nothing may be nested in what is open. -/
theorem readFrom_array {pieces : List (Json × List Token)} (h : ∀ p ∈ pieces, p.1.Spells p.2)
    (ih : ∀ p ∈ pieces, p.1.ReadFrom p.2) :
    (Json.array (pieces.map Prod.fst)).ReadFrom
      (.openBracket :: Token.separated (pieces.map Prod.snd) ++ [.closeBracket]) := by
  intro frames hframes
  rw [List.cons_append, Json.depth, Json.merged]
  by_cases hopen : frames.length < maxDepth
  case neg =>
    have henter : step ⟨frames, .value⟩ .openBracket = .error .nestedTooDeeply := if_neg hopen
    rw [foldlM_cons_of_error henter, if_neg (by omega)]
  rw [foldlM_cons_of_ok (step_openBracket hopen)]
  cases pieces with
  | nil => exact (if_pos hopen).symm
  | cons p rest =>
      obtain ⟨hp, hrest⟩ := List.forall_mem_cons.1 ih
      obtain ⟨t, tokens, htokens, ht⟩ := (h p List.mem_cons_self).exists_cons
      have hfirst : ∀ more, (p.2 ++ more).foldlM step ⟨frames, .itemOrEnd⟩ =
          (p.2 ++ more).foldlM step ⟨.array [] :: frames, .value⟩ := fun more => by
        rw [htokens, List.cons_append, List.foldlM_cons, List.foldlM_cons,
          step_firstItem frames ht]
      simp only [List.map_cons, Token.separated, List.append_assoc, Json.depthOfItems,
        Json.mergedItems, ← Nat.add_right_comm, ← Nat.add_assoc, fits_both]
      rw [hfirst, foldlM_append_of_readFrom hp _ hopen, foldlM_items hrest hopen, ite_and]
      rfl

theorem readFrom_object {pieces : List (String × Json × List Token)}
    (ih : ∀ p ∈ pieces, p.2.1.ReadFrom p.2.2) :
    (Json.object (pieces.map fun p => (p.1, p.2.1))).ReadFrom
      (.openBrace :: Token.separated (pieces.map fun p => Token.member p.1 p.2.2) ++
        [.closeBrace]) := by
  intro frames hframes
  rw [List.cons_append, Json.depth, Json.merged]
  by_cases hopen : frames.length < maxDepth
  case neg =>
    have henter : step ⟨frames, .value⟩ .openBrace = .error .nestedTooDeeply := if_neg hopen
    rw [foldlM_cons_of_error henter, if_neg (by omega)]
  rw [foldlM_cons_of_ok (step_openBrace hopen)]
  cases pieces with
  | nil => exact (if_pos hopen).symm
  | cons p rest =>
      obtain ⟨hp, hrest⟩ := List.forall_mem_cons.1 ih
      simp only [List.map_cons, Token.separated, List.append_assoc, Json.depthOfMembers,
        Json.mergedInto, ← Nat.add_right_comm, ← Nat.add_assoc, fits_both]
      rw [foldlM_firstMember, foldlM_append_of_readFrom hp _ hopen, foldlM_members hrest hopen,
        ite_and]

end Reader

/-- The tokens of a tree are read to the merged tree. -/
theorem Json.Spells.readFrom {w : Json} {tokens : List Token} (h : w.Spells tokens) :
    w.ReadFrom tokens := by
  induction h with
  | word w =>
      intro frames hframes
      cases w <;> exact (if_pos hframes).symm
  | string s =>
      intro frames hframes
      exact (if_pos hframes).symm
  | @numeral n x h =>
      intro frames hframes
      have hvalue : Reader.step ⟨frames, .value⟩ (.numeral n) =
          .ok ⟨frames, .completed (.number x)⟩ := by
        simp only [Reader.step, Reader.value, h]
      rw [Reader.foldlM_cons_of_ok hvalue]
      exact (if_pos hframes).symm
  | array h ih => exact Reader.readFrom_array h ih
  | object _ ih => exact Reader.readFrom_object ih

/-! ## Only texts of trees are read -/

namespace Reader

/-- The tokens complete what is open, and a value. -/
def Finishes (r : Reader) (tokens : List Token) : Prop :=
  ∃ v, tokens.foldlM step r = .ok ⟨[], .completed v⟩

theorem finishes_cons_iff (r : Reader) (t : Token) (tokens : List Token) :
    r.Finishes (t :: tokens) ↔ ∃ r', r.step t = .ok r' ∧ r'.Finishes tokens := by
  rw [Finishes, List.foldlM_cons]
  cases r.step t with
  | error e => exact iff_of_false nofun nofun
  | ok r' => exact ⟨fun h => ⟨r', rfl, h⟩, fun ⟨_, h, hr⟩ => Except.ok.inj h ▸ hr⟩

/-- A reader that has not finished takes a token. -/
theorem Finishes.exists_step {r : Reader} {tokens : List Token} (h : r.Finishes tokens)
    (hr : ∀ v, r ≠ ⟨[], .completed v⟩) :
    ∃ t rest r', tokens = t :: rest ∧ r.step t = .ok r' ∧ r'.Finishes rest := by
  cases tokens with
  | nil =>
      obtain ⟨v, hv⟩ := h
      exact absurd (Except.ok.inj hv) (hr v)
  | cons t rest =>
      obtain ⟨r', hstep, hrest⟩ := (finishes_cons_iff r t rest).1 h
      exact ⟨t, rest, r', rfl, hstep, hrest⟩

/-- The tokens of a value in an open container leave it completed there. -/
theorem Finishes.after_value {w : Json} {tokens rest : List Token} (hw : w.Spells tokens)
    {frame : Frame} {outer : List Frame} (houter : outer.length < maxDepth)
    (h : Finishes ⟨frame :: outer, .value⟩ (tokens ++ rest)) :
    Finishes ⟨frame :: outer, .completed w.merged⟩ rest := by
  obtain ⟨v, hv⟩ := h
  rw [foldlM_append_of_readFrom hw.readFrom frame houter] at hv
  split at hv
  · exact ⟨v, hv⟩
  · cases hv

/-- A key that was read is followed by a colon and the start of its content. -/
theorem Finishes.exists_content {frames : List Frame} {members : Json.Members} {key : String}
    {tokens : List Token} (h : Finishes ⟨frames, .colon members key⟩ tokens) :
    ∃ content, tokens = .colon :: content ∧
      Finishes ⟨.object members key :: frames, .value⟩ content := by
  obtain ⟨t, content, r, rfl, hr, h⟩ := h.exists_step nofun
  cases t with
  | colon =>
      cases hr
      exact ⟨content, rfl, h⟩
  | _ => cases hr

/-- Where a key must come, there is one. -/
theorem Finishes.exists_member {frames : List Frame} {members : Json.Members}
    {tokens : List Token} (h : Finishes ⟨frames, .key members⟩ tokens) :
    ∃ key content, tokens = Token.member key content ∧
      Finishes ⟨.object members key :: frames, .value⟩ content := by
  obtain ⟨t, rest, r, rfl, hr, h⟩ := h.exists_step nofun
  cases t with
  | string key =>
      cases hr
      obtain ⟨content, rfl, h⟩ := h.exists_content
      exact ⟨key, content, rfl, h⟩
  | _ => cases hr

/-- Some of the first tokens write a value. -/
def StartWithValue (tokens : List Token) : Prop :=
  ∃ (w : Json) (used rest : List Token), w.Spells used ∧ tokens = used ++ rest

/-- Wherever a value may come, tokens that finish start with one. -/
def ValueComesFirst (tokens : List Token) : Prop :=
  ∀ frames, Finishes ⟨frames, .value⟩ tokens → StartWithValue tokens

section Rest

variable {n : Nat} (hvalue : ∀ tokens : List Token, tokens.length < n → ValueComesFirst tokens)
  {outer : List Frame} (houter : outer.length < maxDepth)
include hvalue houter

/-- What an open array still needs: items, and its end. -/
theorem exists_items_of_finishes (tokens : List Token) (htokens : tokens.length ≤ n)
    (items : List Json) (v : Json)
    (h : Finishes ⟨.array items :: outer, .completed v⟩ tokens) :
    ∃ (pieces : List (Json × List Token)) (rest : List Token), (∀ p ∈ pieces, p.1.Spells p.2) ∧
      tokens = (pieces.map Prod.snd).flatMap (Token.comma :: ·) ++ .closeBracket :: rest := by
  induction hlength : tokens.length using Nat.strongRecOn generalizing tokens items v with
  | ind k ih =>
    obtain ⟨t, tokens, r, rfl, hr, h⟩ := h.exists_step nofun
    rw [List.length_cons] at hlength htokens
    cases t with
    | closeBracket => exact ⟨[], tokens, nofun, rfl⟩
    | comma =>
        cases hr
        obtain ⟨w, used, rest, hw, rfl⟩ :=
          hvalue tokens (by omega) (.array (v :: items) :: outer) h
        rw [List.length_append] at hlength htokens
        obtain ⟨pieces, rest', hpieces, rfl⟩ :=
          ih rest.length (by omega) rest (by omega) _ _ (h.after_value hw houter) rfl
        refine ⟨(w, used) :: pieces, rest', List.forall_mem_cons.2 ⟨hw, hpieces⟩, ?_⟩
        simp only [List.map_cons, List.flatMap_cons, List.cons_append, List.append_assoc]
    | _ => cases hr

/-- What an open object still needs: members, and its end. -/
theorem exists_members_of_finishes (tokens : List Token) (htokens : tokens.length ≤ n)
    (members : Json.Members) (key : String) (v : Json)
    (h : Finishes ⟨.object members key :: outer, .completed v⟩ tokens) :
    ∃ (pieces : List (String × Json × List Token)) (rest : List Token),
      (∀ p ∈ pieces, p.2.1.Spells p.2.2) ∧
        tokens = (pieces.map fun p => Token.member p.1 p.2.2).flatMap (Token.comma :: ·) ++
          .closeBrace :: rest := by
  induction hlength : tokens.length using Nat.strongRecOn generalizing tokens members key v with
  | ind k ih =>
    obtain ⟨t, tokens, r, rfl, hr, h⟩ := h.exists_step nofun
    rw [List.length_cons] at hlength htokens
    cases t with
    | closeBrace => exact ⟨[], tokens, nofun, rfl⟩
    | comma =>
        cases hr
        obtain ⟨name, content, rfl, h⟩ := h.exists_member
        simp only [Token.member, List.length_cons] at hlength htokens
        obtain ⟨w, used, rest, hw, rfl⟩ :=
          hvalue content (by omega) (.object (Json.setMember key v members) name :: outer) h
        rw [List.length_append] at hlength htokens
        obtain ⟨pieces, rest', hpieces, rfl⟩ :=
          ih rest.length (by omega) rest (by omega) _ _ _ (h.after_value hw houter) rfl
        refine ⟨(name, w, used) :: pieces, rest', List.forall_mem_cons.2 ⟨hw, hpieces⟩, ?_⟩
        simp only [List.map_cons, List.flatMap_cons, Token.member, List.cons_append,
          List.append_assoc]
    | _ => cases hr

/-- An array behind its bracket. -/
theorem startWithValue_array (tokens : List Token) (htokens : tokens.length < n)
    (h : Finishes ⟨outer, .itemOrEnd⟩ tokens) : StartWithValue (.openBracket :: tokens) := by
  obtain ⟨t, rest, r, rfl, hr, hrest⟩ := h.exists_step nofun
  by_cases ht : t = .closeBracket
  · have hnone : ∀ p ∈ ([] : List (Json × List Token)), p.1.Spells p.2 := nofun
    exact ⟨_, _, rest, .array hnone, congrArg (Token.openBracket :: · :: rest) ht⟩
  · rw [step_firstItem outer ht] at hr
    have hfirst := (finishes_cons_iff _ t rest).2 ⟨r, hr, hrest⟩
    obtain ⟨w, used, more, hw, heq⟩ := hvalue _ htokens (.array [] :: outer) hfirst
    rw [heq] at hfirst htokens
    rw [List.length_append] at htokens
    obtain ⟨pieces, rest', hpieces, rfl⟩ :=
      exists_items_of_finishes hvalue houter more (by omega) _ _ (hfirst.after_value hw houter)
    have hall : ∀ p ∈ (w, used) :: pieces, p.1.Spells p.2 := List.forall_mem_cons.2 ⟨hw, hpieces⟩
    refine ⟨_, _, rest', .array hall, ?_⟩
    rw [heq]
    simp only [List.map_cons, Token.separated, List.cons_append, List.append_assoc, List.nil_append]

/-- An object behind its brace. -/
theorem startWithValue_object (tokens : List Token) (htokens : tokens.length < n)
    (h : Finishes ⟨outer, .keyOrEnd⟩ tokens) : StartWithValue (.openBrace :: tokens) := by
  obtain ⟨t, rest, r, rfl, hr, h⟩ := h.exists_step nofun
  cases t with
  | closeBrace =>
      have hnone : ∀ p ∈ ([] : List (String × Json × List Token)), p.2.1.Spells p.2.2 := nofun
      exact ⟨_, _, rest, .object hnone, rfl⟩
  | string key =>
      cases hr
      obtain ⟨content, rfl, h⟩ := h.exists_content
      simp only [List.length_cons] at htokens
      obtain ⟨w, used, more, hw, rfl⟩ := hvalue content (by omega) (.object [] key :: outer) h
      rw [List.length_append] at htokens
      obtain ⟨pieces, rest', hpieces, rfl⟩ :=
        exists_members_of_finishes hvalue houter more (by omega) _ _ _ (h.after_value hw houter)
      have hall : ∀ p ∈ (key, w, used) :: pieces, p.2.1.Spells p.2.2 :=
        List.forall_mem_cons.2 ⟨hw, hpieces⟩
      refine ⟨_, _, rest', .object hall, ?_⟩
      simp only [List.map_cons, Token.separated, Token.member, List.cons_append, List.append_assoc,
        List.nil_append]
  | _ => cases hr

end Rest

/-- Nothing is accepted that does not start with a value. The induction is on the number
of tokens, since the items and members of a container are found one after the other. -/
theorem valueComesFirst (tokens : List Token) : ValueComesFirst tokens := by
  induction hlength : tokens.length using Nat.strongRecOn generalizing tokens with
  | ind n ih =>
    have hvalue : ∀ shorter : List Token, shorter.length < n → ValueComesFirst shorter :=
      fun shorter hshorter => ih _ hshorter shorter rfl
    intro frames h
    obtain ⟨t, rest, r, rfl, hr, h⟩ := h.exists_step nofun
    have hrest : rest.length < n := hlength ▸ Nat.lt_succ_self _
    cases t with
    | word w => exact ⟨_, _, rest, .word w, rfl⟩
    | string s => exact ⟨_, _, rest, .string s, rfl⟩
    | numeral m =>
        simp only [step, value] at hr
        split at hr
        · rename_i x hx
          exact ⟨_, _, rest, .numeral hx, rfl⟩
        · cases hr
    | openBracket =>
        simp only [step, value, enter] at hr
        split at hr
        · rename_i hopen
          cases hr
          exact startWithValue_array hvalue hopen rest hrest h
        · cases hr
    | openBrace =>
        simp only [step, value, enter] at hr
        split at hr
        · rename_i hopen
          cases hr
          exact startWithValue_object hvalue hopen rest hrest h
        · cases hr
    | _ => cases hr

/-- The tokens of a tree are read to the merged tree, if it is not nested too deeply. -/
theorem ofTokens_of_spells {w : Json} {tokens : List Token} (h : w.Spells tokens) :
    ofTokens tokens = if w.depth ≤ maxDepth then .ok w.merged else .error .nestedTooDeeply := by
  have hread := h.readFrom [] (Nat.zero_le _)
  rw [List.length_nil, Nat.zero_add] at hread
  rw [ofTokens, start, hread]
  by_cases hdepth : w.depth ≤ maxDepth
  · rw [if_pos hdepth, if_pos hdepth]
    rfl
  · rw [if_neg hdepth, if_neg hdepth]

theorem eq_of_finish {r : Reader} {j : Json} (h : r.finish = .ok j) : r = ⟨[], .completed j⟩ := by
  obtain ⟨frames, phase⟩ := r
  rw [finish.eq_def] at h
  split at h
  · rename_i hframes hphase
    cases h
    dsimp only at hframes hphase
    rw [hframes, hphase]
  · cases h

/-- What is accepted is the tokens of a tree, and nothing behind them. -/
theorem exists_spells_of_ofTokens {tokens : List Token} {j : Json}
    (h : ofTokens tokens = .ok j) : ∃ w : Json, w.Spells tokens := by
  rw [ofTokens] at h
  split at h
  case h_2 => cases h
  rename_i r hr
  rw [eq_of_finish h] at hr
  obtain ⟨w, used, rest, hw, rfl⟩ := valueComesFirst tokens [] ⟨j, hr⟩
  rw [start, List.foldlM_append, hw.readFrom [] (Nat.zero_le _)] at hr
  cases rest with
  | nil => exact ⟨w, (List.append_nil used).symm ▸ hw⟩
  | cons t rest =>
      split at hr
      · cases hr
      · cases hr

end Reader

/-! ## Texts -/

namespace Json

/-- The text writes the tree, with blanks between the tokens. -/
def SpelledBy (w : Json) (text : String) : Prop :=
  ∃ tokens, Token.scan text.toList = .ok tokens ∧ w.Spells tokens

/-- The text of a tree is read to the merged tree, if it is not nested too deeply. -/
theorem read_of_spelledBy {w : Json} {text : String} (h : w.SpelledBy text) :
    read text =
      if w.depth ≤ Reader.maxDepth then .ok w.merged else .error .nestedTooDeeply := by
  obtain ⟨tokens, hscan, hw⟩ := h
  rw [read, hscan]
  exact Reader.ofTokens_of_spells hw

/-- The texts that are read are those of trees that are not nested too deeply. -/
theorem read_eq_ok_iff (text : String) (j : Json) :
    read text = .ok j ↔
      ∃ w : Json, w.SpelledBy text ∧ w.depth ≤ Reader.maxDepth ∧ w.merged = j := by
  constructor
  · intro h
    obtain ⟨w, hw⟩ : ∃ w : Json, w.SpelledBy text := by
      rw [read] at h
      split at h
      · rename_i tokens hscan
        obtain ⟨w, hw⟩ := Reader.exists_spells_of_ofTokens h
        exact ⟨w, tokens, hscan, hw⟩
      · cases h
    rw [read_of_spelledBy hw] at h
    split at h
    · rename_i hdepth
      exact ⟨w, hw, hdepth, Except.ok.inj h⟩
    · cases h
  · rintro ⟨w, hw, hdepth, rfl⟩
    rw [read_of_spelledBy hw, if_pos hdepth]

end Json

end JsonScript
