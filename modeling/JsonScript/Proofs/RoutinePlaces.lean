import JsonScript.Proofs.OperationSources

/-!
# Places in different routines

The name of a routine is part of the places of its operations, written as it is, whatever
it holds. So one name may take up where the other leaves off: if `a` is a routine whose
body starts with a repetition, the text `a.body[0].loop` names another routine as well as a
place below `a`.

That is the only way in which the texts of places in two routines can be the same. A text
that goes on from `.body` names a block again only behind the key of a repetition, because
of all keys that hold blocks only those of repetitions hold one with the name `body`; and
points stand in a path only where a key begins.

## Main results

* `Step.exists_key_of_point` — a point in the text of a path starts the text of a key.
* `BlockPath.exists_loopPath` — where the text of a path ends in that of a path from the
  body of a routine.
* `Program.same_place_text_iff` — operations of different routines with the same text.
-/

namespace JsonScript

/-! ## Points in paths -/

theorem Step.renderAll_append (path more : List Step) :
    Step.renderAll (path ++ more) = Step.renderAll path ++ Step.renderAll more := by
  induction path with
  | nil => rw [List.nil_append, Step.renderAll, String.empty_append]
  | cons step rest ih =>
      rw [List.cons_append, Step.renderAll, ih, Step.renderAll, String.append_assoc]

/-- A point in the text of a path starts the text of a key. -/
theorem Step.exists_key_of_point {steps : List Step}
    (hkeys : ∀ k, .key k ∈ steps → '.' ∉ k.toList) :
    ∀ {s u : List Char}, (Step.renderAll steps).toList = s ++ '.' :: u →
      ∃ before k after, steps = before ++ .key k :: after ∧
        s = (Step.renderAll before).toList ∧ u = k.toList ++ (Step.renderAll after).toList := by
  induction steps with
  | nil =>
      intro s u h
      cases s <;> cases h
  | cons step rest ih =>
      intro s u h
      have ih := @ih fun k hk => hkeys k (List.mem_cons_of_mem _ hk)
      -- The text of a step has no point behind its first character.
      obtain ⟨c, w, hstep, hw⟩ : ∃ c w, step.render.toList = c :: w ∧ '.' ∉ w := by
        cases step with
        | key name =>
            exact ⟨'.', name.toList, by simp [Step.render], hkeys name List.mem_cons_self⟩
        | item i =>
            have hdigits := not_mem_toDigits (show ('.').isDigit = false from rfl) i
            exact ⟨'[', Nat.toDigits 10 i ++ [']'], by simp [Step.render], by simp [hdigits]⟩
      rw [Step.renderAll, String.toList_append, hstep, List.cons_append] at h
      cases s with
      | nil =>
          obtain ⟨rfl, rfl⟩ := List.cons.inj h
          cases step with
          | item i => simp [Step.render] at hstep
          | key name =>
              have hname : name.toList = w := by simpa [Step.render] using hstep
              exact ⟨[], name, rest, rfl, rfl, by rw [hname]⟩
      | cons c' s' =>
          obtain ⟨rfl, htail⟩ := List.cons.inj h
          obtain ⟨s'', rfl, hrest⟩ : ∃ s'', s' = w ++ s'' ∧
              (Step.renderAll rest).toList = s'' ++ '.' :: u := by
            rcases List.append_eq_append_iff.1 htail with ⟨a, hs, hrest⟩ | ⟨a, rfl, hrest⟩
            · exact ⟨a, hs, hrest⟩
            · cases a with
              | nil => exact ⟨[], by simp, by simpa using hrest.symm⟩
              | cons d a =>
                  obtain ⟨rfl, -⟩ := List.cons.inj hrest
                  exact absurd (by simp) hw
          obtain ⟨before, k, after, rfl, rfl, hu⟩ := ih hrest
          refine ⟨step :: before, k, after, rfl, ?_, hu⟩
          rw [Step.renderAll, String.toList_append, hstep, List.cons_append]

theorem BlockPath.not_mem_key {steps : List Step} (h : BlockPath steps) :
    ∀ k, .key k ∈ steps → '.' ∉ k.toList := by
  have hpoint : ∀ m ∈ blockKeys, '.' ∉ m.1.toList ∧ '.' ∉ m.2.toList := by decide
  induction h with
  | statement i => exact fun k hk => nomatch List.mem_singleton.1 hk
  | inner i hkey _ ih =>
      intro k hk
      simp only [List.mem_cons, reduceCtorEq, Step.key.injEq, false_or] at hk
      rcases hk with rfl | rfl | hk
      · exact (hpoint _ hkey).1
      · exact (hpoint _ hkey).2
      · exact ih k hk

/-! ## Repetitions -/

/-- A path from a block to a repetition in it, at any depth, and on to its key. -/
inductive LoopPath : List Step → Prop where
  | here (i : Nat) {key : String} (hkey : (key, "body") ∈ blockKeys) :
      LoopPath [.item i, .key key]
  | inner (i : Nat) {key name : String} (hkey : (key, name) ∈ blockKeys) {steps : List Step}
      (h : LoopPath steps) : LoopPath (.item i :: .key key :: .key name :: steps)

/-- Behind a key of a path stands the name of a block, or the rest is a path again. -/
theorem BlockPath.split {steps : List Step} (h : BlockPath steps) :
    ∀ {before after : List Step} {k : String}, steps = before ++ .key k :: after →
      (∃ name more, after = .key name :: more ∧ (k, name) ∈ blockKeys) ∨
        BlockPath after ∧ (∃ key, (key, k) ∈ blockKeys) ∧ (k = "body" → LoopPath before) := by
  induction h with
  | statement i =>
      intro before after k hsteps
      rcases before with _ | ⟨_, _ | ⟨_, _⟩⟩ <;> cases hsteps
  | @inner i key name hkey steps hsteps ih =>
      intro before after k hsplit
      rcases before with _ | ⟨_, _ | ⟨_, _ | ⟨_, before⟩⟩⟩
      · cases hsplit
      · cases hsplit
        exact .inl ⟨name, steps, rfl, hkey⟩
      · cases hsplit
        exact .inr ⟨hsteps, ⟨key, hkey⟩, fun hbody => .here i (hbody ▸ hkey)⟩
      · simp only [List.cons_append, List.cons.injEq] at hsplit
        obtain ⟨rfl, rfl, rfl, hrest⟩ := hsplit
        exact (ih hrest).imp_right fun ⟨hafter, hk, hloop⟩ =>
          ⟨hafter, hk, fun hbody => .inner i hkey (hloop hbody)⟩

/-- If the text of a path from the body of a routine ends in the text of another such path,
then the second path is what follows a repetition in the first one. -/
theorem BlockPath.exists_loopPath {steps steps' : List Step} (h : BlockPath steps)
    (h' : BlockPath steps') {s : List Char} (hs : s ≠ [])
    (htext : (Step.renderAll (.key "body" :: steps)).toList =
      s ++ (Step.renderAll (.key "body" :: steps')).toList) :
    ∃ path, LoopPath path ∧ s = (Step.renderAll (.key "body" :: path)).toList ∧
      steps = path ++ .key "body" :: steps' := by
  rw [Step.toList_renderAll_key "body" steps'] at htext
  have hkeys : ∀ k, .key k ∈ Step.key "body" :: steps → '.' ∉ k.toList := by
    intro k hk
    rcases List.mem_cons.1 hk with hk | hk
    · cases hk
      decide
    · exact h.not_mem_key k hk
  obtain ⟨before, k, after, hsplit, rfl, htail⟩ := Step.exists_key_of_point hkeys htext
  obtain ⟨i, rest, rfl⟩ := h'.exists_item
  rw [Step.toList_renderAll_item] at htail
  cases before with
  | nil => exact absurd rfl hs
  | cons first path =>
      obtain ⟨rfl, rfl⟩ := List.cons.inj hsplit
      rcases h.split rfl with ⟨name, more, rfl, hkey⟩ | ⟨hafter, ⟨key, hkey⟩, hloop⟩
      · -- No key of an operation starts in the same way as the name `body`.
        have hstart : ∀ m ∈ blockKeys, m.1.toList.head? ≠ some 'b' ∧ m.1.toList ≠ [] := by decide
        obtain ⟨hfirst, hne⟩ := hstart _ hkey
        obtain ⟨c, w, hk⟩ := List.exists_cons_of_ne_nil hne
        rw [hk] at hfirst htail
        exact absurd (congrArg List.head? htail).symm hfirst
      · have hbracket : ∀ m ∈ blockKeys, '[' ∉ m.2.toList := by decide
        obtain ⟨i', rest', rfl⟩ := hafter.exists_item
        have htexts := htail
        rw [Step.toList_renderAll_item] at htexts
        obtain ⟨hname, hrest⟩ :=
          (append_cons_eq_iff_of_not_mem (by decide) (hbracket _ hkey)).1 htexts
        obtain rfl : "body" = k := String.toList_inj.1 hname
        have hsame : Step.renderAll (.item i :: rest) = Step.renderAll (.item i' :: rest') := by
          rw [← String.toList_inj, Step.toList_renderAll_item, Step.toList_renderAll_item, hrest]
        rw [(h'.renderAll_eq_iff hafter).1 hsame]
        exact ⟨path, hloop rfl, rfl, rfl⟩

/-! ## Routines -/

/-- The place of the body of a routine. -/
def Location.ofBody (name : String) : Location :=
  ((Location.ofRoot "functions").key name).key "body"

/-- The second name is the first one with the text of a path from the body of its routine
to a repetition in it. The first place is further down on that path, inside of the
repetition, and the second one is in the same way below the body of the other routine. -/
def Location.Mirrored (f : String) (place : Location) (g : String) (place' : Location) : Prop :=
  ∃ path steps, LoopPath path ∧ g = f ++ Step.renderAll (.key "body" :: path) ∧
    place = (Location.ofBody f).down (path ++ .key "body" :: steps) ∧
    place' = (Location.ofBody g).down steps

namespace Location

theorem render_ofBody_down (name : String) (steps : List Step) :
    ((ofBody name).down steps).render =
      "functions." ++ (name ++ Step.renderAll (.key "body" :: steps)) := by
  have hsteps : (ofBody name).down steps =
      (ofRoot "functions").down (.key name :: .key "body" :: steps) := rfl
  rw [hsteps, render_down, render_ofRoot, Step.renderAll, Step.render, String.append_assoc,
    ← String.append_assoc]
  rfl

theorem Mirrored.render_eq {f g : String} {place place' : Location}
    (h : Mirrored f place g place') : place.render = place'.render := by
  obtain ⟨path, steps, -, rfl, rfl, rfl⟩ := h
  rw [render_ofBody_down, render_ofBody_down, String.append_assoc, ← Step.renderAll_append,
    List.cons_append]

/-- Places of statement objects in the bodies of different routines have the same text only
if they are mirrored. -/
theorem mirrored_of_render_eq {f g : String} (hne : f ≠ g) {steps steps' : List Step}
    (h : BlockPath steps) (h' : BlockPath steps')
    (htext : ((ofBody f).down steps).render = ((ofBody g).down steps').render) :
    Mirrored f ((ofBody f).down steps) g ((ofBody g).down steps') ∨
      Mirrored g ((ofBody g).down steps') f ((ofBody f).down steps) := by
  rw [render_ofBody_down, render_ofBody_down, String.append_right_inj, ← String.toList_inj,
    String.toList_append, String.toList_append] at htext
  -- One of the names is the shorter one, and the other one is not the same.
  have hlonger {a b : String} (hab : a ≠ b) {s : List Char} (hs : b.toList = a.toList ++ s) :
      s ≠ [] := by
    rintro rfl
    rw [List.append_nil, String.toList_inj] at hs
    exact hab hs.symm
  have hname {a b : String} {s : List Char} {path : List Step}
      (hs : b.toList = a.toList ++ s) (hpath : s = (Step.renderAll path).toList) :
      b = a ++ Step.renderAll path := by
    rw [← String.toList_inj, String.toList_append, hs, hpath]
  rcases List.append_eq_append_iff.1 htext with ⟨s, hg, hrest⟩ | ⟨s, hf, hrest⟩
  · obtain ⟨path, hpath, hs, rfl⟩ := h.exists_loopPath h' (hlonger hne hg) hrest
    exact .inl ⟨path, steps', hpath, hname hg hs, rfl, rfl⟩
  · obtain ⟨path, hpath, hs, rfl⟩ := h'.exists_loopPath h (hlonger hne.symm hf) hrest
    exact .inr ⟨path, steps, hpath, hname hf hs, rfl, rfl⟩

end Location

namespace Program

/-- An operation in the body of a routine has the place of a statement object there. -/
theorem exists_blockPath_of_occurs {j : Json} {p : Program} (hunique : j.UniqueKeys)
    (hload : ofJson j = .ok p) {name : String} {r : Routine} (hr : p.routines.find name = .ok r)
    {op : Operation} (ho : Occurs op r.body) :
    ∃ steps, BlockPath steps ∧ op.place = (Location.ofBody name).down steps := by
  rcases (Body.routine hr).read hunique hload with ⟨node, _, hread⟩ | hempty
  · obtain ⟨steps, key, body, hmade⟩ := exists_madeFrom_of_occurs ho hread
    obtain ⟨hplace, hpath, -⟩ := hmade.readOperation hread
    exact ⟨steps, hpath, hplace⟩
  · rw [hempty] at ho
    exact absurd ho (not_occurs_nil op)

/-- **When places in two routines have the same text.**  Operations in the bodies of two
different routines of a loaded program have places with the same text exactly if one of the
names is the other one with the text of a path to a repetition, `.body[0].loop` say, one
operation is inside of that repetition, and the other one is at the same place below the
body of its own routine. -/
theorem same_place_text_iff {j : Json} {p : Program} (hunique : j.UniqueKeys)
    (hload : load j = .ok p) {f g : String} {r r' : Routine} (hne : f ≠ g)
    (hf : p.routines.find f = .ok r) (hg : p.routines.find g = .ok r') {op op' : Operation}
    (ho : Occurs op r.body) (ho' : Occurs op' r'.body) :
    op.place.render = op'.place.render ↔
      Location.Mirrored f op.place g op'.place ∨ Location.Mirrored g op'.place f op.place := by
  rw [load_eq_ok_iff] at hload
  constructor
  · intro htext
    obtain ⟨steps, hpath, hplace⟩ := exists_blockPath_of_occurs hunique hload hf ho
    obtain ⟨steps', hpath', hplace'⟩ := exists_blockPath_of_occurs hunique hload hg ho'
    rw [hplace, hplace'] at htext ⊢
    exact Location.mirrored_of_render_eq hne hpath hpath' htext
  · rintro (h | h)
    · exact h.render_eq
    · exact h.render_eq.symm

end Program

/-- Two routines, the name of the second being that of the first with the text of the path
to its repetition. -/
def mirrorDocument : Json :=
  .object [("program", .object [("functions", .object [
    ("a", .object [("parameters", .array []), ("body", .array [.object [("while", .object [
      ("condition", .bool false), ("body", .array [.object [("zap", .null)]])])]])]),
    ("a.body[0].while", .object [("parameters", .array []),
      ("body", .array [.object [("zip", .null)]])])])])]

/-- The operation in the repetition of the first routine. -/
def mirrorZap : Operation :=
  .act ((Location.ofBody "a").down [.item 0, .key "while", .key "body", .item 0])
    (.unknown "zap")

/-- The operation of the second routine. -/
def mirrorZip : Operation :=
  .act ((Location.ofBody "a.body[0].while").down [.item 0]) (.unknown "zip")

/-- The first routine. -/
def mirrorOuter : Routine :=
  ⟨"a", [], [.whilst ((Location.ofBody "a").down [.item 0]) (.literal (.bool false)) [mirrorZap]]⟩

/-- The second routine. -/
def mirrorInner : Routine := ⟨"a.body[0].while", [], [mirrorZip]⟩

/-- The program of the document. -/
def mirrorProgram : Program :=
  ⟨[], ⟨.ofList [("a", mirrorOuter), ("a.body[0].while", mirrorInner)]⟩, []⟩

theorem uniqueKeys_mirrorDocument : mirrorDocument.UniqueKeys := by
  have hfalse : (Json.bool false).UniqueKeys := .scalar trivial
  have hnull : Json.null.UniqueKeys := .scalar trivial
  simp [mirrorDocument, Json.keys, hfalse, hnull]

theorem load_mirrorDocument : Program.load mirrorDocument = .ok mirrorProgram := by
  have hunknown (place : Location) {key : String} (hkey : key ∈ ["zap", "zip"]) :
      Block.read place (.array [.object [(key, .null)]]) =
        .ok [.act (place.item 0) (.unknown key)] := by
    have hread : Block.readOperation (place.item 0) key .null =
        .ok (.act (place.item 0) (.unknown key)) := by
      simp only [List.mem_cons, List.not_mem_nil, or_false] at hkey
      rcases hkey with rfl | rfl
      all_goals
        rw [Block.readOperation_act _ _ (by decide)]
        rfl
    simp only [Block.read, Block.readStatements, Block.readStatement, Block.readOperations, hread]
    rfl
  have hfalse : Denotes (.bool false) (.literal (.bool false)) := .scalar rfl (by rintro ⟨_, ⟨⟩⟩)
  have hwhile : Block.readOperation ((Location.ofBody "a").item 0) "while"
      (.object [("condition", .bool false), ("body", .array [.object [("zap", .null)]])]) =
        .ok (.whilst ((Location.ofBody "a").item 0) (.literal (.bool false)) [mirrorZap]) :=
    (Block.readOperation_while_eq_ok_iff ..).2
      ⟨_, rfl, _, ⟨_, rfl, hfalse⟩, _, ⟨_, rfl, hunknown _ (by decide)⟩, rfl⟩
  have hbody : Block.read (Location.ofBody "a") (.array [.object [("while", .object [
      ("condition", .bool false), ("body", .array [.object [("zap", .null)]])])]]) =
        .ok mirrorOuter.body := by
    simp only [Block.read, Block.readStatements, Block.readStatement, Block.readOperations, hwhile]
    rfl
  have houter : Routine.read ((Location.ofRoot "functions").key "a") "a" (.object [
      ("parameters", .array []), ("body", .array [.object [("while", .object [
        ("condition", .bool false), ("body", .array [.object [("zap", .null)]])])]])]) =
      .ok mirrorOuter :=
    (Routine.read_eq_ok_iff ..).2 ⟨_, rfl, _, ⟨_, rfl, rfl⟩, _, ⟨_, rfl, hbody⟩, rfl⟩
  have hinner : Routine.read ((Location.ofRoot "functions").key "a.body[0].while")
      "a.body[0].while" (.object [("parameters", .array []),
        ("body", .array [.object [("zip", .null)]])]) = .ok mirrorInner :=
    (Routine.read_eq_ok_iff ..).2
      ⟨_, rfl, _, ⟨_, rfl, rfl⟩, _, ⟨_, rfl, hunknown _ (by decide)⟩, rfl⟩
  rw [Program.load_eq_ok_iff, Program.ofJson_eq_ok_iff uniqueKeys_mirrorDocument]
  exact .inr ⟨_, rfl, by decide, .inr ⟨rfl, rfl⟩, .inl ⟨_, rfl, _, rfl, [_, _],
    .cons houter (.cons hinner .nil), rfl⟩, .inr ⟨rfl, rfl⟩⟩

theorem occurs_mirrorZap : Occurs mirrorZap mirrorOuter.body :=
  .inside List.mem_cons_self List.mem_cons_self (.here List.mem_cons_self)

theorem occurs_mirrorZip : Occurs mirrorZip mirrorInner.body := .here List.mem_cons_self

/-- The operation in the repetition is mirrored by that of the other routine. -/
theorem Program.same_place_text_iff_mirror :
    mirrorDocument.UniqueKeys ∧ Program.load mirrorDocument = .ok mirrorProgram ∧
      mirrorProgram.routines.find "a" = .ok mirrorOuter ∧
      mirrorProgram.routines.find "a.body[0].while" = .ok mirrorInner ∧
      Occurs mirrorZap mirrorOuter.body ∧ Occurs mirrorZip mirrorInner.body ∧
      Location.Mirrored "a" mirrorZap.place "a.body[0].while" mirrorZip.place ∧
      mirrorZap.place.render = mirrorZip.place.render := by
  have hmirrored : Location.Mirrored "a" mirrorZap.place "a.body[0].while" mirrorZip.place :=
    ⟨[.item 0, .key "while"], [.item 0], .here 0 (by decide), by decide, rfl, rfl⟩
  exact ⟨uniqueKeys_mirrorDocument, load_mirrorDocument, rfl, rfl, occurs_mirrorZap,
    occurs_mirrorZip, hmirrored,
    (Program.same_place_text_iff uniqueKeys_mirrorDocument load_mirrorDocument (by decide) rfl rfl
      occurs_mirrorZap occurs_mirrorZip).2 (.inl hmirrored)⟩

/-- Operations of different routines whose places have one text. -/
theorem not_routine_places_differ :
    mirrorDocument.UniqueKeys ∧ Program.load mirrorDocument = .ok mirrorProgram ∧
      "a" ≠ "a.body[0].while" ∧ mirrorProgram.routines.find "a" = .ok mirrorOuter ∧
      mirrorProgram.routines.find "a.body[0].while" = .ok mirrorInner ∧
      Occurs mirrorZap mirrorOuter.body ∧ Occurs mirrorZip mirrorInner.body ∧
      mirrorZap.place.render = "functions.a.body[0].while.body[0]" ∧
      mirrorZip.place.render = "functions.a.body[0].while.body[0]" :=
  ⟨uniqueKeys_mirrorDocument, load_mirrorDocument, by decide, rfl, rfl, occurs_mirrorZap,
    occurs_mirrorZip, by decide, by decide⟩

end JsonScript
