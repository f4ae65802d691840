import JsonScript.CommandLine.Options
import Mathlib.Data.Nat.Digits.Defs
import Mathlib.Tactic.Ring

/-!
# Options as pairs

Options are pairs of a flag and a value. Reading them goes through the arguments two at
a time and changes the limits as it goes; this module says what comes of it without
going through them. A counter is told by its digits (`Counter.Spells`), the limits by
the last value that each of the two flags is given (`Options.SetBy`), and an error by
the first arguments that are no acceptable pair (`Options.Offends`).

## Main results

* `Counter.read?_eq_some_iff` — a plus sign or none, digits, and what they stand for.
* `Options.parse_words_append` — acceptable pairs are read and set their flags.
* `Options.parse_words_congr` — how the two flags are mixed does not matter.
* `Options.accepted_or_offends` — any arguments are pairs, up to the first that offend.
* `Options.parse_by_pairs` — limits and errors.
-/

namespace JsonScript

/-! ## Counters -/

namespace Counter

/-- The text is an optional plus sign and then digits, and these stand for the number,
which has 64 bits. -/
def Spells (text : String) (n : Nat) : Prop :=
  ∃ digits : List Char, digits ≠ [] ∧ (∀ c ∈ digits, c.isDigit = true) ∧
    (text.toList = digits ∨ text.toList = '+' :: digits) ∧
    n = Nat.ofDigits 10 (digits.reverse.map fun c => c.toNat - '0'.toNat) ∧ n < 2 ^ 64

-- By `rfl` the two accumulators would be compared first, and evaluated for that.
theorem ofDigits_cons (n : Nat) (c : Char) (rest : List Char) :
    ofDigits n (c :: rest) = ofDigits (10 * n + (c.toNat - '0'.toNat)) rest := by
  rw [ofDigits.eq_def n (c :: rest)]

/-- Digits read from the left have the value of their positions. -/
theorem ofDigits_eq (n : Nat) (digits : List Char) :
    ofDigits n digits = n * 10 ^ digits.length +
      Nat.ofDigits 10 (digits.reverse.map fun c => c.toNat - '0'.toNat) := by
  induction digits generalizing n with
  | nil =>
      rw [ofDigits.eq_def]
      simp
  | cons c rest ih =>
      rw [ofDigits_cons, ih, List.reverse_cons, List.map_append, Nat.ofDigits_append]
      simp only [List.length_map, List.length_reverse, List.map_cons, List.map_nil,
        Nat.ofDigits_singleton, List.length_cons, pow_succ]
      ring

theorem readDigits?_eq_some_iff (digits : List Char) (n : Nat) :
    readDigits? digits = some n ↔ digits ≠ [] ∧ (∀ c ∈ digits, c.isDigit = true) ∧
      n = Nat.ofDigits 10 (digits.reverse.map fun c => c.toNat - '0'.toNat) ∧ n < 2 ^ 64 := by
  have hvalue := ofDigits_eq 0 digits
  rw [Nat.zero_mul, Nat.zero_add] at hvalue
  have hbound : bound = 2 ^ 64 := rfl
  simp only [readDigits?, Option.ite_none_right_eq_some, Option.some.injEq, List.all_eq_true,
    hvalue, hbound]
  constructor
  · rintro ⟨⟨hne, hdigits, hlt⟩, rfl⟩
    exact ⟨hne, hdigits, rfl, hlt⟩
  · rintro ⟨hne, hdigits, rfl, hlt⟩
    exact ⟨⟨hne, hdigits, hlt⟩, rfl⟩

/-- A counter is read exactly if it is spelled so. -/
theorem read?_eq_some_iff (text : String) (n : Nat) : read? text = some n ↔ Spells text n := by
  rw [read?]
  split
  · rename_i rest hplus
    rw [readDigits?_eq_some_iff]
    constructor
    · rintro ⟨hne, hdigits, hn⟩
      exact ⟨rest, hne, hdigits, .inr hplus, hn⟩
    · rintro ⟨digits, hne, hdigits, htext | htext, hn⟩
      · -- The plus sign is no digit.
        have hmem : '+' ∈ digits := htext ▸ hplus ▸ List.mem_cons_self
        exact absurd (hdigits _ hmem) (by decide)
      · cases hplus.symm.trans htext
        exact ⟨hne, hdigits, hn⟩
  · rename_i hplain
    rw [readDigits?_eq_some_iff]
    constructor
    · rintro ⟨hne, hdigits, hn⟩
      exact ⟨_, hne, hdigits, .inl rfl, hn⟩
    · rintro ⟨digits, hne, hdigits, rfl | htext, hn⟩
      · exact ⟨hne, hdigits, hn⟩
      · exact absurd htext (hplain digits)

theorem read?_eq_none {text : String} (h : ∀ n, ¬ Spells text n) : read? text = none :=
  Option.eq_none_iff_forall_ne_some.2 fun n hn => h n ((read?_eq_some_iff text n).1 hn)

theorem Spells.unique {text : String} {n n' : Nat} (h : Spells text n) (h' : Spells text n') :
    n = n' := by
  rw [← read?_eq_some_iff] at h h'
  exact Option.some.inj (h.symm.trans h')

end Counter

/-! ## Pairs -/

namespace Options

/-- The arguments that pairs of a flag and a value are written as. -/
def words (pairs : List (String × String)) : List String :=
  pairs.flatMap fun (flag, value) => [flag, value]

/-- A flag that is known, with a value that is a counter. -/
def Accepted (pair : String × String) : Prop :=
  (pair.1 = "--max-steps" ∨ pair.1 = "--max-depth") ∧ ∃ n, Counter.Spells pair.2 n

/-- The last value that the pairs give to a flag, if they give one. -/
def lastValue? (flag : String) (pairs : List (String × String)) : Option String :=
  ((pairs.filter fun pair => pair.1 = flag).getLast?).map Prod.snd

/-- What was set to something before is now set to the last value that the pairs give to
the flag, or to the same as before if they give none. -/
structure SetTo {α : Type} (flag : String) (pairs : List (String × String)) (set : Nat → α)
    (before now : α) : Prop where
  last : ∀ value, lastValue? flag pairs = some value →
    ∃ n, Counter.Spells value n ∧ now = set n
  kept : lastValue? flag pairs = none → now = before

/-- The second limits are the first ones, with each of the two set as the pairs say. -/
structure SetBy (pairs : List (String × String)) (limits result : Limits) : Prop where
  steps : SetTo "--max-steps" pairs some limits.maxSteps result.maxSteps
  depth : SetTo "--max-depth" pairs id limits.maxDepth result.maxDepth

/-- The arguments start with no acceptable pair, and this is what is wrong with them. -/
inductive Offends : List String → OptionError → Prop where
  | missingValue (flag : String) : Offends [flag] (.missingValue flag)
  | invalidSteps {value : String} (rest : List String) (h : ∀ n, ¬ Counter.Spells value n) :
      Offends ("--max-steps" :: value :: rest) (.invalidSteps value)
  | invalidDepth {value : String} (rest : List String) (h : ∀ n, ¬ Counter.Spells value n) :
      Offends ("--max-depth" :: value :: rest) (.invalidDepth value)
  | unknownFlag {flag : String} (value : String) (rest : List String)
      (hsteps : flag ≠ "--max-steps") (hdepth : flag ≠ "--max-depth") :
      Offends (flag :: value :: rest) (.unknownFlag flag)

/-! ## Last values -/

theorem lastValue?_cons_self (flag value : String) (rest : List (String × String)) :
    lastValue? flag ((flag, value) :: rest) = some ((lastValue? flag rest).getD value) := by
  simp only [lastValue?, List.filter_cons, decide_true, if_true, List.getLast?_cons,
    Option.map_some]
  cases (rest.filter fun pair => pair.1 = flag).getLast? <;> rfl

theorem lastValue?_cons_of_ne {flag other : String} (h : other ≠ flag) (value : String)
    (rest : List (String × String)) :
    lastValue? flag ((other, value) :: rest) = lastValue? flag rest := by
  simp [lastValue?, h]

section SetTo

variable {α : Type} {flag : String} {pairs pairs' : List (String × String)} {set : Nat → α}
  {before now : α}

theorem SetTo.congr (h : SetTo flag pairs set before now)
    (hlast : lastValue? flag pairs = lastValue? flag pairs') :
    SetTo flag pairs' set before now :=
  ⟨hlast ▸ h.last, hlast ▸ h.kept⟩

theorem SetTo.of_last {value : String} {n : Nat} (hlast : lastValue? flag pairs = some value)
    (hn : Counter.Spells value n) : SetTo flag pairs set before (set n) := by
  refine ⟨fun other hother => ?_, fun hnone => ?_⟩
  · cases hlast.symm.trans hother
    exact ⟨n, hn, rfl⟩
  · cases hlast.symm.trans hnone

/-- The pairs determine what is set. -/
theorem SetTo.unique {now' : α} (h : SetTo flag pairs set before now)
    (h' : SetTo flag pairs set before now') : now = now' := by
  cases hlast : lastValue? flag pairs with
  | none => rw [h.kept hlast, h'.kept hlast]
  | some value =>
      obtain ⟨n, hn, hnow⟩ := h.last value hlast
      obtain ⟨n', hn', hnow'⟩ := h'.last value hlast
      rw [hnow, hnow', hn.unique hn']

/-- What a pair has set is what it was before the pairs behind it. -/
theorem SetTo.cons_self {value : String} {n : Nat} (hn : Counter.Spells value n)
    (h : SetTo flag pairs set (set n) now) :
    SetTo flag ((flag, value) :: pairs) set before now := by
  have hcons := lastValue?_cons_self flag value pairs
  refine ⟨fun last hlast => ?_, fun hlast => ?_⟩
  · rw [hcons, Option.some.injEq] at hlast
    cases hmore : lastValue? flag pairs with
    | none =>
        rw [hmore, Option.getD_none] at hlast
        exact ⟨n, hlast ▸ hn, h.kept hmore⟩
    | some last' =>
        rw [hmore, Option.getD_some] at hlast
        exact h.last last (hlast ▸ hmore)
  · rw [hcons] at hlast
    cases hlast

theorem SetTo.cons_of_ne {other : String} (hne : other ≠ flag) (value : String)
    (h : SetTo flag pairs set before now) : SetTo flag ((other, value) :: pairs) set before now :=
  h.congr (lastValue?_cons_of_ne hne value pairs).symm

end SetTo

theorem setBy_nil (limits : Limits) : SetBy [] limits limits where
  steps := ⟨nofun, fun _ => rfl⟩
  depth := ⟨nofun, fun _ => rfl⟩

/-- The pairs determine the limits. -/
theorem SetBy.unique {pairs : List (String × String)} {limits result result' : Limits}
    (h : SetBy pairs limits result) (h' : SetBy pairs limits result') : result = result' := by
  have hsteps := h.steps.unique h'.steps
  have hdepth := h.depth.unique h'.depth
  cases result
  cases result'
  cases hsteps
  cases hdepth
  rfl

/-! ## One pair -/

section Pair

variable {limits : Limits} {flag value : String}

theorem applyFlag_steps {n : Nat} (h : Counter.Spells value n) :
    applyFlag limits "--max-steps" value = .ok { limits with maxSteps := some n } := by
  rw [applyFlag, if_pos rfl, (Counter.read?_eq_some_iff value n).2 h]

theorem applyFlag_depth {n : Nat} (h : Counter.Spells value n) :
    applyFlag limits "--max-depth" value = .ok { limits with maxDepth := n } := by
  rw [applyFlag, if_neg (by decide), if_pos rfl, (Counter.read?_eq_some_iff value n).2 h]

/-- An acceptable pair sets its flag, for whatever pairs come behind it. -/
theorem exists_applyFlag (h : Accepted (flag, value)) (limits : Limits) :
    ∃ next, applyFlag limits flag value = .ok next ∧
      ∀ {rest result}, SetBy rest next result → SetBy ((flag, value) :: rest) limits result := by
  obtain ⟨rfl | rfl, n, hn⟩ := h
  · exact ⟨_, applyFlag_steps hn,
      fun hrest => ⟨hrest.steps.cons_self hn, hrest.depth.cons_of_ne (by decide) value⟩⟩
  · exact ⟨_, applyFlag_depth hn,
      fun hrest => ⟨hrest.steps.cons_of_ne (by decide) value, hrest.depth.cons_self hn⟩⟩

end Pair

/-! ## All arguments -/

/-- Acceptable pairs are read, and set their flags for whatever comes behind them. -/
theorem parse_words_append {pairs : List (String × String)} (h : ∀ pair ∈ pairs, Accepted pair)
    (limits : Limits) :
    ∃ result, SetBy pairs limits result ∧
      ∀ rest, parse limits (words pairs ++ rest) = parse result rest := by
  induction pairs generalizing limits with
  | nil => exact ⟨limits, setBy_nil limits, fun _ => rfl⟩
  | cons pair more ih =>
      obtain ⟨flag, value⟩ := pair
      obtain ⟨hpair, hmore⟩ := List.forall_mem_cons.1 h
      obtain ⟨next, hnext, hset⟩ := exists_applyFlag hpair limits
      obtain ⟨result, hresult, hparse⟩ := ih hmore next
      refine ⟨result, hset hresult, fun rest => ?_⟩
      have hwords : words ((flag, value) :: more) ++ rest =
          flag :: value :: (words more ++ rest) := rfl
      rw [hwords, parse_pair, hnext]
      exact hparse rest

theorem exists_parse_words {pairs : List (String × String)} (h : ∀ pair ∈ pairs, Accepted pair)
    (limits : Limits) :
    ∃ result, SetBy pairs limits result ∧ parse limits (words pairs) = .ok result := by
  obtain ⟨result, hset, hparse⟩ := parse_words_append h limits
  exact ⟨result, hset, (List.append_nil (words pairs)) ▸ hparse []⟩

/-- What offends is reported as such. -/
theorem parse_of_offends {rest : List String} {e : OptionError} (h : Offends rest e)
    (limits : Limits) : parse limits rest = .error e := by
  cases h with
  | missingValue flag => rfl
  | invalidSteps rest h => rw [parse_pair, applyFlag, if_pos rfl, Counter.read?_eq_none h]
  | invalidDepth rest h =>
      rw [parse_pair, applyFlag, if_neg (by decide), if_pos rfl, Counter.read?_eq_none h]
  | unknownFlag value rest hsteps hdepth =>
      rw [parse_pair, applyFlag, if_neg hsteps, if_neg hdepth]

/-- Acceptable pairs before it do not change what is wrong. -/
theorem parse_words_append_of_offends {pairs : List (String × String)}
    (h : ∀ pair ∈ pairs, Accepted pair) {rest : List String} {e : OptionError}
    (hrest : Offends rest e) (limits : Limits) :
    parse limits (words pairs ++ rest) = .error e := by
  obtain ⟨result, -, hparse⟩ := parse_words_append h limits
  rw [hparse, parse_of_offends hrest]

/-- The limits depend only on what each of the two flags is given, in its order. -/
theorem parse_words_congr {pairs pairs' : List (String × String)}
    (h : ∀ pair ∈ pairs, Accepted pair) (h' : ∀ pair ∈ pairs', Accepted pair)
    (hsame : ∀ flag ∈ ["--max-steps", "--max-depth"],
      pairs.filter (fun pair => pair.1 = flag) = pairs'.filter fun pair => pair.1 = flag)
    (limits : Limits) : parse limits (words pairs) = parse limits (words pairs') := by
  obtain ⟨result, hset, hparse⟩ := exists_parse_words h limits
  obtain ⟨result', hset', hparse'⟩ := exists_parse_words h' limits
  have hlast (flag : String) (hflag : flag ∈ ["--max-steps", "--max-depth"]) :
      lastValue? flag pairs = lastValue? flag pairs' := by
    rw [lastValue?, lastValue?, hsame flag hflag]
  have hsteps := hset.steps.congr (hlast "--max-steps" (by simp))
  have hdepth := hset.depth.congr (hlast "--max-depth" (by simp))
  rw [hparse, hparse', SetBy.unique ⟨hsteps, hdepth⟩ hset']

theorem accepted_or_offends_pair (flag value : String) (rest : List String) :
    Accepted (flag, value) ∨ ∃ e, Offends (flag :: value :: rest) e := by
  by_cases hvalue : ∃ n, Counter.Spells value n
  · by_cases hsteps : flag = "--max-steps"
    · exact .inl ⟨.inl hsteps, hvalue⟩
    · by_cases hdepth : flag = "--max-depth"
      · exact .inl ⟨.inr hdepth, hvalue⟩
      · exact .inr ⟨_, .unknownFlag value rest hsteps hdepth⟩
  · have hnever : ∀ n, ¬ Counter.Spells value n := fun n hn => hvalue ⟨n, hn⟩
    by_cases hsteps : flag = "--max-steps"
    · subst hsteps
      exact .inr ⟨_, .invalidSteps rest hnever⟩
    · by_cases hdepth : flag = "--max-depth"
      · subst hdepth
        exact .inr ⟨_, .invalidDepth rest hnever⟩
      · exact .inr ⟨_, .unknownFlag value rest hsteps hdepth⟩

/-- Any arguments are acceptable pairs, to their end or up to the first that offend. -/
theorem accepted_or_offends (flags : List String) :
    ∃ pairs rest, flags = words pairs ++ rest ∧ (∀ pair ∈ pairs, Accepted pair) ∧
      (rest = [] ∨ ∃ e, Offends rest e) := by
  match flags with
  | [] => exact ⟨[], [], rfl, nofun, .inl rfl⟩
  | [flag] => exact ⟨[], [flag], rfl, nofun, .inr ⟨_, .missingValue flag⟩⟩
  | flag :: value :: more =>
      rcases accepted_or_offends_pair flag value more with hpair | hoffends
      · obtain ⟨pairs, rest, rfl, hpairs, hrest⟩ := accepted_or_offends more
        exact ⟨(flag, value) :: pairs, rest, rfl, List.forall_mem_cons.2 ⟨hpair, hpairs⟩, hrest⟩
      · exact ⟨[], flag :: value :: more, rfl, nofun, .inr hoffends⟩

/-- **Options are pairs, the last value of a flag counts, and the first error is
reported.**  Arguments are read as options exactly if they are pairs of a flag that is
known and a counter. Each limit is then the last value of its flag, or what it was
before if the flag does not occur. Otherwise the error is that of the first arguments
that are no such pair; if that is a single argument, its value is missing, whatever flag
it is. How the two flags are mixed does not matter. -/
theorem parse_by_pairs (limits : Limits) (flags : List String) :
    (∀ result, parse limits flags = .ok result ↔
      ∃ pairs, flags = words pairs ∧ (∀ pair ∈ pairs, Accepted pair) ∧
        SetBy pairs limits result) ∧
    (∀ e, parse limits flags = .error e ↔
      ∃ pairs rest, flags = words pairs ++ rest ∧ (∀ pair ∈ pairs, Accepted pair) ∧
        Offends rest e) ∧
    ∀ pairs pairs', (∀ pair ∈ pairs, Accepted pair) → (∀ pair ∈ pairs', Accepted pair) →
      (∀ flag ∈ ["--max-steps", "--max-depth"],
        pairs.filter (fun pair => pair.1 = flag) = pairs'.filter fun pair => pair.1 = flag) →
      parse limits (words pairs) = parse limits (words pairs') := by
  refine ⟨fun result => ⟨fun h => ?_, ?_⟩, fun e => ⟨fun h => ?_, ?_⟩, ?_⟩
  · obtain ⟨pairs, rest, rfl, hpairs, rfl | ⟨e, hrest⟩⟩ := accepted_or_offends flags
    · rw [List.append_nil] at h ⊢
      obtain ⟨result', hset, hparse⟩ := exists_parse_words hpairs limits
      cases hparse.symm.trans h
      exact ⟨pairs, rfl, hpairs, hset⟩
    · cases (parse_words_append_of_offends hpairs hrest limits).symm.trans h
  · rintro ⟨pairs, rfl, hpairs, hset⟩
    obtain ⟨result', hset', hparse⟩ := exists_parse_words hpairs limits
    rw [hparse, hset'.unique hset]
  · obtain ⟨pairs, rest, rfl, hpairs, rfl | ⟨e', hrest⟩⟩ := accepted_or_offends flags
    · rw [List.append_nil] at h
      obtain ⟨result, -, hparse⟩ := exists_parse_words hpairs limits
      cases hparse.symm.trans h
    · cases (parse_words_append_of_offends hpairs hrest limits).symm.trans h
      exact ⟨pairs, rest, rfl, hpairs, hrest⟩
  · rintro ⟨pairs, rest, rfl, hpairs, hrest⟩
    exact parse_words_append_of_offends hpairs hrest limits
  · exact fun pairs pairs' hpairs hpairs' hsame => parse_words_congr hpairs hpairs' hsame limits

/-- Options on top of a setting, the flags mixed and one of them repeated; a value that
looks like a flag; and a flag that nobody knows and that has no value. -/
theorem parse_by_pairs_mixed :
    let limits := Limits.ofSettings fun name =>
      if name = Limits.stepsSetting then some " 2 " else none
    let depths := [("--max-depth", "+007"), ("--max-depth", "9")]
    parse limits (words [("--max-depth", "+007"), ("--max-steps", "3"), ("--max-depth", "9")]) =
        .ok ⟨9, some 3⟩ ∧
      parse limits (words depths) = .ok ⟨9, some 2⟩ ∧
      parse limits ["--max-depth", "9", "--max-steps", "--max-depth", "1"] =
        .error (.invalidSteps "--max-depth") ∧
      parse limits ["--max-depth", "9", "--frob"] = .error (.missingValue "--frob") ∧
      parse limits (words (("--max-steps", "3") :: depths)) =
        parse limits (words (depths ++ [("--max-steps", "3")])) := by
  intro limits depths
  have hlimits : limits = ⟨128, some 2⟩ := by decide +kernel
  have hseven : Counter.Spells "+007" 7 := (Counter.read?_eq_some_iff ..).1 (by decide +kernel)
  have hnine : Counter.Spells "9" 9 := (Counter.read?_eq_some_iff ..).1 (by decide +kernel)
  have hthree : Counter.Spells "3" 3 := (Counter.read?_eq_some_iff ..).1 (by decide +kernel)
  have hnever (n : Nat) : ¬ Counter.Spells "--max-depth" n := by
    have hnone : Counter.read? "--max-depth" = none := by decide +kernel
    rw [← Counter.read?_eq_some_iff, hnone]
    exact nofun
  have haccepted : ∀ pair ∈ ("--max-steps", "3") :: depths, Accepted pair :=
    List.forall_mem_cons.2 ⟨⟨.inl rfl, 3, hthree⟩,
      List.forall_mem_cons.2 ⟨⟨.inr rfl, 7, hseven⟩,
        List.forall_mem_cons.2 ⟨⟨.inr rfl, 9, hnine⟩, nofun⟩⟩⟩
  have hamong (pairs : List (String × String)) (h : pairs ⊆ ("--max-steps", "3") :: depths) :
      ∀ pair ∈ pairs, Accepted pair := fun pair hpair => haccepted pair (h hpair)
  refine ⟨?_, ?_, ?_, ?_, ?_⟩
  · exact ((parse_by_pairs limits _).1 _).2
      ⟨_, rfl, hamong _ (by decide), .of_last rfl hthree, .of_last rfl hnine⟩
  · have hkept : (some 2 : Option Nat) = limits.maxSteps := by rw [hlimits]
    exact ((parse_by_pairs limits _).1 _).2
      ⟨_, rfl, hamong _ (by decide), ⟨nofun, fun _ => hkept⟩, .of_last rfl hnine⟩
  · exact ((parse_by_pairs limits _).2.1 _).2
      ⟨[("--max-depth", "9")], _, rfl, hamong _ (by decide), .invalidSteps ["1"] hnever⟩
  · exact ((parse_by_pairs limits _).2.1 _).2
      ⟨[("--max-depth", "9")], _, rfl, hamong _ (by decide), .missingValue "--frob"⟩
  · exact (parse_by_pairs limits []).2.2 _ _ (hamong _ (by decide)) (hamong _ (by decide))
      (by decide +kernel)

end Options

end JsonScript
