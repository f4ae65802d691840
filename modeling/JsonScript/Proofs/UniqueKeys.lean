import JsonScript.Json.Reader
import JsonScript.Proofs.Grammar

/-!
# Objects that have every key once

A tree read from text has no object with a key twice, whatever the text repeats:
a member is written over one of the same key. The invariant is that everything
the reader holds, in its frames and in its phase, is such a tree already; a token
keeps it.

## Main results

* `Json.UniqueKeys` — no object in a tree has a key twice.
* `Reader.holdsUnique_step` — what one token preserves.
* `Json.uniqueKeys_of_read` — trees read from text.
-/

namespace JsonScript

/-- No object in the tree has a key twice. -/
inductive Json.UniqueKeys : Json → Prop where
  | scalar {j : Json} (h : j.IsScalar) : UniqueKeys j
  | array {items : List Json} (h : ∀ j ∈ items, UniqueKeys j) : UniqueKeys (.array items)
  | object {members : Json.Members} (hkeys : (Json.keys members).Nodup)
      (h : ∀ m ∈ members, UniqueKeys m.2) : UniqueKeys (.object members)

namespace Json

@[simp] theorem uniqueKeys_string (s : String) : UniqueKeys (.string s) := .scalar trivial

@[simp] theorem uniqueKeys_array_iff (items : List Json) :
    UniqueKeys (.array items) ↔ ∀ j ∈ items, UniqueKeys j := by
  constructor
  · intro h
    cases h with
    | scalar h => exact absurd h id
    | array h => exact h
  · exact .array

@[simp] theorem uniqueKeys_object_iff (members : Members) :
    UniqueKeys (.object members) ↔
      (keys members).Nodup ∧ ∀ m ∈ members, UniqueKeys m.2 := by
  constructor
  · intro h
    cases h with
    | scalar h => exact absurd h id
    | object hkeys h => exact ⟨hkeys, h⟩
  · rintro ⟨hkeys, h⟩
    exact .object hkeys h

theorem mem_setMember {name : String} {content : Json} {members : Members}
    {m : String × Json} (h : m ∈ setMember name content members) :
    m.2 = content ∨ m ∈ members := by
  induction members with
  | nil =>
      rw [setMember, List.mem_singleton] at h
      rw [h]
      exact .inl rfl
  | cons head rest ih =>
      obtain ⟨k, v⟩ := head
      rw [setMember] at h
      split at h
      · rcases List.mem_cons.1 h with rfl | hrest
        · exact .inl rfl
        · exact .inr (List.mem_cons_of_mem _ hrest)
      · rcases List.mem_cons.1 h with rfl | hrest
        · exact .inr List.mem_cons_self
        · exact (ih hrest).imp_right (List.mem_cons_of_mem _)

theorem nodup_keys_setMember {members : Members} (h : (keys members).Nodup) (name : String)
    (content : Json) : (keys (setMember name content members)).Nodup := by
  rw [keys_setMember]
  split
  · exact h
  · rename_i hname
    rw [List.nodup_append]
    refine ⟨h, List.pairwise_singleton _ name, ?_⟩
    intro k hk k' hk'
    rw [List.mem_singleton.1 hk']
    rintro rfl
    exact hname hk

theorem UniqueKeys.setMember {members : Members} (h : UniqueKeys (.object members))
    (name : String) {content : Json} (hcontent : UniqueKeys content) :
    UniqueKeys (.object (setMember name content members)) := by
  obtain ⟨hkeys, hmembers⟩ := (uniqueKeys_object_iff members).1 h
  refine .object (nodup_keys_setMember hkeys name content) fun m hm => ?_
  rcases mem_setMember hm with hm | hm
  · rw [hm]
    exact hcontent
  · exact hmembers m hm

end Json

/-! ## The reader -/

/-- What an open container holds has unique keys. -/
def Frame.HoldsUnique : Frame → Prop
  | .array items => ∀ j ∈ items, j.UniqueKeys
  | .object members _ => (Json.object members).UniqueKeys

/-- What a phase holds has unique keys. -/
def Phase.HoldsUnique : Phase → Prop
  | .key members | .colon members _ => (Json.object members).UniqueKeys
  | .completed v => v.UniqueKeys
  | .value | .itemOrEnd | .keyOrEnd => True

namespace Reader

/-- All that a reader holds has unique keys. -/
def HoldsUnique (r : Reader) : Prop :=
  (∀ f ∈ r.frames, f.HoldsUnique) ∧ r.phase.HoldsUnique

theorem holdsUnique_value {r r' : Reader} {t : Token} (h : r.value t = .ok r')
    (hr : ∀ f ∈ r.frames, f.HoldsUnique) : r'.HoldsUnique := by
  rw [value.eq_def] at h
  split at h
  · rename_i w
    cases h
    refine ⟨hr, .scalar ?_⟩
    cases w <;> trivial
  · cases h
    exact ⟨hr, .scalar trivial⟩
  · split at h
    · cases h
      exact ⟨hr, .scalar trivial⟩
    · cases h
  · rw [enter] at h
    split at h
    · cases h
      exact ⟨hr, trivial⟩
    · cases h
  · rw [enter] at h
    split at h
    · cases h
      exact ⟨hr, trivial⟩
    · cases h
  · cases h

theorem holdsUnique_afterValue {frames : List Frame} {v : Json} {t : Token} {r' : Reader}
    (h : afterValue frames v t = .ok r') (hframes : ∀ f ∈ frames, f.HoldsUnique)
    (hv : v.UniqueKeys) : r'.HoldsUnique := by
  rw [afterValue.eq_def] at h
  split at h
  · obtain ⟨hitems, houter⟩ := List.forall_mem_cons.1 hframes
    cases h
    exact ⟨List.forall_mem_cons.2 ⟨List.forall_mem_cons.2 ⟨hv, hitems⟩, houter⟩, trivial⟩
  · obtain ⟨hitems, houter⟩ := List.forall_mem_cons.1 hframes
    cases h
    refine ⟨houter, .array fun j hj => ?_⟩
    exact List.forall_mem_cons.2 ⟨hv, hitems⟩ j (List.mem_reverse.1 hj)
  · obtain ⟨hmembers, houter⟩ := List.forall_mem_cons.1 hframes
    cases h
    exact ⟨houter, hmembers.setMember _ hv⟩
  · obtain ⟨hmembers, houter⟩ := List.forall_mem_cons.1 hframes
    cases h
    exact ⟨houter, hmembers.setMember _ hv⟩
  · cases h

/-- One token. -/
theorem holdsUnique_step {r r' : Reader} {t : Token} (h : r.step t = .ok r')
    (hr : r.HoldsUnique) : r'.HoldsUnique := by
  obtain ⟨frames, phase⟩ := r
  obtain ⟨hframes, hphase⟩ := hr
  rw [step.eq_def] at h
  split at h
  case h_1 => exact holdsUnique_value h hframes
  case h_2 =>
    cases h
    exact ⟨hframes, .array nofun⟩
  case h_3 => exact holdsUnique_value h (List.forall_mem_cons.2 ⟨nofun, hframes⟩)
  case h_4 hkey =>
    cases h
    dsimp only at hkey
    rw [hkey] at hphase
    exact ⟨hframes, hphase⟩
  case h_5 =>
    cases h
    exact ⟨hframes, .object .nil nofun⟩
  case h_6 =>
    cases h
    exact ⟨hframes, .object .nil nofun⟩
  case h_7 hcolon =>
    cases h
    dsimp only at hcolon
    rw [hcolon] at hphase
    exact ⟨List.forall_mem_cons.2 ⟨hphase, hframes⟩, trivial⟩
  case h_8 hcompleted =>
    dsimp only at hcompleted
    rw [hcompleted] at hphase
    exact holdsUnique_afterValue h hframes hphase
  case h_9 => cases h

/-- A whole text. -/
theorem holdsUnique_foldlM (tokens : List Token) :
    ∀ {r r' : Reader}, tokens.foldlM step r = .ok r' → r.HoldsUnique → r'.HoldsUnique := by
  induction tokens with
  | nil =>
      intro r r' h hr
      cases h
      exact hr
  | cons t rest ih =>
      intro r r' h hr
      rw [List.foldlM_cons] at h
      cases ht : r.step t with
      | error e =>
          rw [ht] at h
          cases h
      | ok next =>
          rw [ht] at h
          exact ih h (holdsUnique_step ht hr)

end Reader

theorem Json.uniqueKeys_of_read {text : String} {j : Json} (h : Json.read text = .ok j) :
    j.UniqueKeys := by
  rw [Json.read] at h
  split at h
  · rename_i tokens _
    rw [Reader.ofTokens] at h
    split at h
    · rename_i r hr
      have hstart : Reader.start.HoldsUnique := ⟨nofun, trivial⟩
      obtain ⟨_, hphase⟩ := Reader.holdsUnique_foldlM tokens hr hstart
      rw [Reader.finish.eq_def] at h
      split at h
      · rename_i v _ hcompleted
        cases h
        rw [hcompleted] at hphase
        exact hphase
      · cases h
    · cases h
  · cases h

end JsonScript
