import JsonScript.Proofs.OptionPairs
import Mathlib.Data.List.TakeWhile

/-!
# Settings

Two settings change the limits that hold by default. A setting counts if its value is a
counter with any blanks around it; a setting that is missing, or has another value, is
ignored. This is said here without trimming anything (`Limits.Holds`).

## Main results

* `Text.trimBlanks_of_padded`, `Text.exists_padding` — trimming takes blanks away, and only
  blanks.
* `Limits.readSetting?_eq_some_iff` — the counter that a setting holds.
* `Limits.ofSettings_eq_iff` — the limits that settings ask for.
* `Limits.existsUnique_fromSettings` — all settings ask for limits, and for one choice of them.
-/

namespace JsonScript

/-! ## Trimming -/

namespace Text

/-- The characters are blank, all of them. -/
def Blank (cs : List Char) : Prop := ∀ c ∈ cs, isBlank c = true

theorem dropWhile_isBlank_append {before cs : List Char} (hbefore : Blank before)
    (hcs : ∀ c ∈ cs, isBlank c = false) (hne : cs ≠ []) (after : List Char) :
    (before ++ (cs ++ after)).dropWhile isBlank = cs ++ after := by
  obtain ⟨c, rest, rfl⟩ := List.exists_cons_of_ne_nil hne
  have hfirst : ¬ isBlank c = true := by simp [hcs c List.mem_cons_self]
  rw [List.dropWhile_append_of_pos hbefore, List.cons_append, List.dropWhile_cons_of_neg hfirst]

/-- Blanks around a text without any are taken away. -/
theorem trimBlanks_of_padded {before cs after : List Char} (hbefore : Blank before)
    (hafter : Blank after) (hcs : ∀ c ∈ cs, isBlank c = false) (hne : cs ≠ []) :
    trimBlanks (before ++ (cs ++ after)) = cs := by
  have hreverse : (after.reverse ++ cs.reverse).dropWhile isBlank = cs.reverse := by
    have h := dropWhile_isBlank_append (fun c hc => hafter c (List.mem_reverse.1 hc))
      (fun c hc => hcs c (List.mem_reverse.1 hc)) (mt List.reverse_eq_nil_iff.1 hne) []
    rwa [List.append_nil] at h
  rw [trimBlanks, dropWhile_isBlank_append hbefore hcs hne, List.reverse_append, hreverse,
    List.reverse_reverse]

/-- What is taken away is blank. -/
theorem exists_padding (cs : List Char) : ∃ before after, Blank before ∧ Blank after ∧
    cs = before ++ (trimBlanks cs ++ after) := by
  have hfront := List.takeWhile_append_dropWhile (p := isBlank) (l := cs)
  have hback := List.takeWhile_append_dropWhile (p := isBlank) (l := (cs.dropWhile isBlank).reverse)
  refine ⟨cs.takeWhile isBlank, ((cs.dropWhile isBlank).reverse.takeWhile isBlank).reverse,
    fun c => List.mem_takeWhile_imp, fun c hc => ?_, ?_⟩
  · exact List.mem_takeWhile_imp (List.mem_reverse.1 hc)
  · rw [trimBlanks, ← List.reverse_append, hback, List.reverse_reverse, hfront]

end Text

/-! ## Settings that hold counters -/

theorem Text.not_isBlank_of_isDigit {c : Char} (h : c.isDigit = true) : isBlank c = false := by
  have hrange : 48 ≤ c.toNat ∧ c.toNat ≤ 57 := by
    simp only [Char.isDigit, Bool.and_eq_true, decide_eq_true_eq] at h
    exact h
  simp only [isBlank, inRanges, blankRanges, List.any_cons, List.any_nil, Bool.or_false,
    Bool.or_eq_false_iff, decide_eq_false_iff_not]
  omega

theorem Counter.Spells.not_isBlank {text : String} {n : Nat} (h : Counter.Spells text n) :
    text.toList ≠ [] ∧ ∀ c ∈ text.toList, Text.isBlank c = false := by
  obtain ⟨digits, hne, hdigits, htext, -⟩ := h
  have hdigit : ∀ c ∈ digits, Text.isBlank c = false :=
    fun c hc => Text.not_isBlank_of_isDigit (hdigits c hc)
  rcases htext with htext | htext
  · rw [htext]
    exact ⟨hne, hdigit⟩
  · rw [htext]
    exact ⟨List.cons_ne_nil _ _, List.forall_mem_cons.2 ⟨by decide, hdigit⟩⟩

namespace Limits

variable {settings : String → Option String}

/-- The setting holds the counter, with blanks around it or without. -/
def Holds (settings : String → Option String) (name : String) (n : Nat) : Prop :=
  ∃ raw before text after, settings name = some raw ∧
    raw.toList = before ++ (String.toList text ++ after) ∧ Text.Blank before ∧ Text.Blank after ∧
    Counter.Spells text n

theorem readSetting?_eq_some_iff (name : String) (n : Nat) :
    readSetting? settings name = some n ↔ Holds settings name n := by
  rw [readSetting?, Option.bind_eq_some_iff]
  constructor
  · rintro ⟨raw, hraw, hread⟩
    obtain ⟨before, after, hbefore, hafter, hpadded⟩ := Text.exists_padding raw.toList
    refine ⟨raw, before, Text.trim raw, after, hraw, ?_, hbefore, hafter,
      (Counter.read?_eq_some_iff _ _).1 hread⟩
    rwa [Text.trim, String.toList_ofList]
  · rintro ⟨raw, before, text, after, hraw, hpadded, hbefore, hafter, hspells⟩
    obtain ⟨hne, htext⟩ := hspells.not_isBlank
    refine ⟨raw, hraw, (Counter.read?_eq_some_iff _ _).2 ?_⟩
    rwa [Text.trim, hpadded, Text.trimBlanks_of_padded hbefore hafter htext hne,
      String.ofList_toList]

theorem readSetting?_eq_none_iff (name : String) :
    readSetting? settings name = none ↔ ∀ n, ¬ Holds settings name n := by
  simp only [Option.eq_none_iff_forall_ne_some, ne_eq, readSetting?_eq_some_iff]

/-- The limits are the default ones, but for those that a setting holds. -/
structure FromSettings (settings : String → Option String) (limits : Limits) : Prop where
  depth : Holds settings "JAYSON_MAX_DEPTH" limits.maxDepth ∨
    (∀ n, ¬ Holds settings "JAYSON_MAX_DEPTH" n) ∧ limits.maxDepth = 128
  steps : (∃ n, Holds settings "JAYSON_MAX_STEPS" n ∧ limits.maxSteps = some n) ∨
    (∀ n, ¬ Holds settings "JAYSON_MAX_STEPS" n) ∧ limits.maxSteps = none

/-- The limits that settings ask for: each is what its setting holds, or else the default. -/
theorem ofSettings_eq_iff (limits : Limits) :
    ofSettings settings = limits ↔ FromSettings settings limits := by
  obtain ⟨maxDepth, maxSteps⟩ := limits
  rw [ofSettings, mk.injEq]
  constructor
  · rintro ⟨rfl, rfl⟩
    refine ⟨?_, ?_⟩
    · cases hdepth : readSetting? settings depthSetting with
      | some n => exact .inl ((readSetting?_eq_some_iff _ n).1 hdepth)
      | none => exact .inr ⟨(readSetting?_eq_none_iff _).1 hdepth, rfl⟩
    · cases hsteps : readSetting? settings stepsSetting with
      | some n => exact .inl ⟨n, (readSetting?_eq_some_iff _ n).1 hsteps, rfl⟩
      | none => exact .inr ⟨(readSetting?_eq_none_iff _).1 hsteps, rfl⟩
  · rintro ⟨hdepth, hsteps⟩
    refine ⟨?_, ?_⟩
    · rcases hdepth with hdepth | ⟨hdepth, rfl⟩
      · rw [(readSetting?_eq_some_iff depthSetting _).2 hdepth]
        rfl
      · rw [(readSetting?_eq_none_iff depthSetting).2 hdepth]
        rfl
    · rcases hsteps with ⟨n, hsteps, rfl⟩ | ⟨hsteps, rfl⟩
      · exact (readSetting?_eq_some_iff stepsSetting _).2 hsteps
      · exact (readSetting?_eq_none_iff stepsSetting).2 hsteps

/-- Settings can be read in one way only. -/
theorem existsUnique_fromSettings (settings : String → Option String) :
    ∃! limits, FromSettings settings limits :=
  ⟨ofSettings settings, (ofSettings_eq_iff _).1 rfl,
    fun limits h => ((ofSettings_eq_iff limits).2 h).symm⟩

/-- A value with blanks around it counts, one with a minus sign does not. -/
example : ofSettings (fun name => if name = "JAYSON_MAX_DEPTH" then some " 7\t" else some "-7") =
    ⟨7, none⟩ := by
  decide +kernel

end Limits

end JsonScript
