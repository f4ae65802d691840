import JsonScript.Proofs.Acceptance
import JsonScript.Proofs.Readings

/-!
# What documents are read to

The sections of a program, continuing from operands, operations and routines.
The section of variables is read entry by entry. The section of routines is read
entry by entry too, and under distinct keys no name is taken when its entry is
reached, so the table is the map of all the routines. A program is put together
from at most three sections; each gives one of its parts, and under distinct keys
none gives it twice. So a program, too, is described by one condition for each
section, in which the order of the sections plays no part.

## Main results

* `Program.readVariables_eq_ok_iff` — the variables at the start.
* `RoutineTable.readInto_empty_eq_ok_iff` — tables of routines.
* `DenotesRoutines.find_eq_ok_iff`, `DenotesRoutines.exists_find_iff` — what is
  found in a table.
* `Program.readSections_eq_ok_iff` — the sections of a program.
* `Program.ofJson_eq_ok_iff` — whole documents.
* `Program.nodup_names_of_ofJson` — no variable is bound twice at the start.
-/

namespace JsonScript

open Reading

section Entries

variable {α β : Type} {R : α → β → Prop} {xs : List α} {ys : List β}

/-- In lists that are related entry by entry, what stands over an entry. -/
theorem exists_zip_of_mem_left (h : List.Forall₂ R xs ys) {x : α} (hx : x ∈ xs) :
    ∃ y, (x, y) ∈ xs.zip ys ∧ R x y := by
  obtain ⟨hlength, hzip⟩ := List.forall₂_iff_zip.1 h
  have hx' : x ∈ (xs.zip ys).map Prod.fst := by rwa [List.map_fst_zip (Nat.le_of_eq hlength)]
  obtain ⟨⟨x, y⟩, hmem, rfl⟩ := List.mem_map.1 hx'
  exact ⟨y, hmem, hzip hmem⟩

theorem exists_zip_of_mem_right (h : List.Forall₂ R xs ys) {y : β} (hy : y ∈ ys) :
    ∃ x, (x, y) ∈ xs.zip ys ∧ R x y := by
  obtain ⟨hlength, hzip⟩ := List.forall₂_iff_zip.1 h
  have hy' : y ∈ (xs.zip ys).map Prod.snd := by rwa [List.map_snd_zip (Nat.le_of_eq hlength.symm)]
  obtain ⟨⟨x, y⟩, hmem, rfl⟩ := List.mem_map.1 hy'
  exact ⟨x, hmem, hzip hmem⟩

end Entries

/-! ## Variables -/

/-- The member binds its name to the scalar that it is. -/
def Binds (member : String × Json) (binding : String × Value) : Prop :=
  binding.1 = member.1 ∧ member.2.toValue? = some binding.2

/-- The entries of the section are the variables bound at the start. -/
def DenotesBindings (content : Json) (bindings : List (String × Value)) : Prop :=
  ∃ members, content = .object members ∧ List.Forall₂ Binds members bindings

theorem Program.readVariables_eq_ok_iff (place : Location) (members : Json.Members) :
    ∀ bindings, readVariables place members = .ok bindings ↔
      List.Forall₂ Binds members bindings := by
  induction members with
  | nil =>
      intro bindings
      rw [readVariables, List.forall₂_nil_left_iff, Except.ok.injEq, eq_comm]
  | cons m rest ih =>
      obtain ⟨name, content⟩ := m
      intro bindings
      rw [readVariables, List.forall₂_cons_left_iff]
      split
      · rename_i hnone
        constructor
        · intro h
          cases h
        · rintro ⟨b, _, ⟨_, hb⟩, _⟩
          cases hnone.symm.trans hb
      · rename_i v hv
        rw [map_eq_ok_iff]
        constructor
        · rintro ⟨more, hmore, rfl⟩
          exact ⟨(name, v), more, ⟨rfl, hv⟩, (ih more).1 hmore, rfl⟩
        · rintro ⟨⟨_, v'⟩, more, ⟨rfl, hv'⟩, hmore, rfl⟩
          cases hv.symm.trans hv'
          exact ⟨more, (ih more).2 hmore, rfl⟩

theorem names_of_binds {members : Json.Members} {bindings : List (String × Value)}
    (h : List.Forall₂ Binds members bindings) : bindings.map Prod.fst = Json.keys members := by
  induction h with
  | nil => rfl
  | cons hb _ ih => rw [Json.keys, List.map_cons, List.map_cons, hb.1, ih, Json.keys]

/-! ## Tables of routines -/

/-- The member is read, at its place in the section, to the routine. -/
def Defines (place : Location) (member : String × Json) (r : Routine) : Prop :=
  Routine.read (place.key member.1) member.1 member.2 = .ok r

/-- The entries of the section are the routines of the table. -/
def DenotesRoutines (content : Json) (table : RoutineTable) : Prop :=
  ∃ members, content = .object members ∧ ∃ routines,
    List.Forall₂ (Defines (.ofRoot "functions")) members routines ∧
      table = ⟨.ofList (routines.map fun r => (r.name, r))⟩

namespace RoutineTable

theorem define?_of_fresh {table : RoutineTable} {r : Routine}
    (h : table.routines.contains r.name = false) :
    table.define? r = some ⟨table.routines.insert r.name r⟩ := by
  rw [define?, h, if_neg Bool.false_ne_true]

/-- Under distinct keys that the table does not have yet, all routines are added. -/
theorem readInto_eq_ok_iff (place : Location) (members : Json.Members) :
    ∀ table table' : RoutineTable, (Json.keys members).Nodup →
      (∀ key ∈ Json.keys members, table.routines.contains key = false) →
      (table.readInto place members = .ok table' ↔
        ∃ routines, List.Forall₂ (Defines place) members routines ∧
          table'.routines = routines.foldl (fun m r => m.insert r.name r) table.routines) := by
  induction members with
  | nil =>
      intro table table' _ _
      simp only [readInto, List.forall₂_nil_left_iff, exists_eq_left, List.foldl_nil,
        Except.ok.injEq]
      constructor
      · rintro rfl
        rfl
      · intro h
        cases table
        cases table'
        exact congrArg RoutineTable.mk h.symm
  | cons m rest ih =>
      obtain ⟨key, content⟩ := m
      intro table table' hkeys hfresh
      obtain ⟨hkey, hrest⟩ := List.nodup_cons.1 hkeys
      have hstep : ∀ r, Routine.read (place.key key) key content = .ok r →
          (table.readInto place ((key, content) :: rest) = .ok table' ↔
            ∃ routines, List.Forall₂ (Defines place) rest routines ∧ table'.routines =
              routines.foldl (fun m r => m.insert r.name r) (table.routines.insert r.name r)) := by
        intro r hr
        have hname : r.name = key := Routine.name_of_read hr
        have hnew : table.routines.contains r.name = false :=
          hname ▸ hfresh key List.mem_cons_self
        have hdefine := define?_of_fresh hnew
        simp only [readInto, hr, bind, Except.bind, hdefine]
        refine ih _ table' hrest fun k hk => ?_
        have hne : (k == r.name) = false := beq_false_of_ne fun h => hkey (hname ▸ h ▸ hk)
        rw [contains_define? hdefine, hne, Bool.false_or]
        exact hfresh k (List.mem_cons_of_mem _ hk)
      simp only [List.forall₂_cons_left_iff]
      constructor
      · intro h
        obtain ⟨r, hr, _⟩ := (bind_eq_ok _ _ _).1 ((readInto.eq_2 ..).symm.trans h)
        obtain ⟨routines, hroutines, htable⟩ := (hstep r hr).1 h
        exact ⟨r :: routines, ⟨r, routines, hr, hroutines, rfl⟩, htable⟩
      · rintro ⟨_, ⟨r, routines, hr, hroutines, rfl⟩, htable⟩
        exact (hstep r hr).2 ⟨routines, hroutines, htable⟩

theorem readInto_empty_eq_ok_iff {members : Json.Members} (hkeys : (Json.keys members).Nodup)
    (table : RoutineTable) :
    empty.readInto (.ofRoot "functions") members = .ok table ↔
      DenotesRoutines (.object members) table := by
  rw [readInto_eq_ok_iff _ _ empty table hkeys fun _ _ => rfl, DenotesRoutines]
  simp only [Json.object.injEq, exists_eq_left']
  refine exists_congr fun routines => and_congr_right fun _ => ?_
  rw [NameMap.ofList, List.foldl_map]
  cases table
  exact (RoutineTable.mk.injEq ..).symm ▸ .rfl

end RoutineTable

theorem names_of_defines {place : Location} {members : Json.Members} {routines : List Routine}
    (h : List.Forall₂ (Defines place) members routines) :
    routines.map Routine.name = Json.keys members := by
  induction h with
  | nil => rfl
  | cons hr _ ih =>
      rw [Json.keys, List.map_cons, List.map_cons, Routine.name_of_read hr, ih, Json.keys]

/-- The entries under their own names, all different. -/
theorem nodup_names_of_defines {place : Location} {members : Json.Members}
    {routines : List Routine} (hkeys : (Json.keys members).Nodup)
    (h : List.Forall₂ (Defines place) members routines) :
    ((routines.map fun r => (r.name, r)).map Prod.fst).Nodup := by
  rw [List.map_map]
  exact names_of_defines h ▸ hkeys

/-- The routines that are found are those of the section. -/
theorem DenotesRoutines.find_eq_ok_iff {members : Json.Members} (hkeys : (Json.keys members).Nodup)
    {table : RoutineTable} (h : DenotesRoutines (.object members) table) (name : String)
    (r : Routine) :
    table.find name = .ok r ↔ ∃ content, members.lookup name = some content ∧
      Routine.read ((Location.ofRoot "functions").key name) name content = .ok r := by
  obtain ⟨_, ⟨⟩, routines, hdefines, rfl⟩ := h
  have hnames := nodup_names_of_defines hkeys hdefines
  have hfind : RoutineTable.find ⟨.ofList (routines.map fun r => (r.name, r))⟩ name = .ok r ↔
      r ∈ routines ∧ r.name = name := by
    rw [RoutineTable.find, NameMap.get?_ofList hnames]
    have hmem := NameMap.lookup_eq_some_iff_mem hnames name r
    simp only [List.mem_map, Prod.mk.injEq, exists_eq_right_right] at hmem
    rw [← hmem]
    cases (routines.map fun r => (r.name, r)).lookup name with
    | none => constructor <;> intro h <;> cases h
    | some r' => rw [Except.ok.injEq, Option.some.injEq]
  rw [hfind]
  constructor
  · rintro ⟨hr, rfl⟩
    obtain ⟨⟨key, content⟩, hzip, hread⟩ := exists_zip_of_mem_right hdefines hr
    cases (Routine.name_of_read hread : r.name = key)
    have hmem := (List.of_mem_zip hzip).1
    exact ⟨content, (NameMap.lookup_eq_some_iff_mem hkeys _ _).2 hmem, hread⟩
  · rintro ⟨content, hlookup, hread⟩
    obtain ⟨r', hzip, hread'⟩ := exists_zip_of_mem_left hdefines (Json.mem_of_lookup hlookup)
    cases hread.symm.trans hread'
    exact ⟨(List.of_mem_zip hzip).2, Routine.name_of_read hread⟩

/-- A routine is found under every name in the section, and under no other. -/
theorem DenotesRoutines.exists_find_iff {members : Json.Members}
    (hkeys : (Json.keys members).Nodup) {table : RoutineTable}
    (h : DenotesRoutines (.object members) table) (name : String) :
    (∃ r, table.find name = .ok r) ↔ name ∈ Json.keys members := by
  constructor
  · rintro ⟨r, hr⟩
    obtain ⟨content, hlookup, _⟩ := (h.find_eq_ok_iff hkeys name r).1 hr
    exact List.mem_map.2 ⟨_, Json.mem_of_lookup hlookup, rfl⟩
  · intro hname
    obtain ⟨⟨_, content⟩, hmem, rfl⟩ := List.mem_map.1 hname
    obtain ⟨_, ⟨⟩, routines, hdefines, _⟩ := id h
    obtain ⟨r, _, hread⟩ := exists_zip_of_mem_left hdefines hmem
    have hlookup := (NameMap.lookup_eq_some_iff_mem hkeys _ content).2 hmem
    exact ⟨r, (h.find_eq_ok_iff hkeys _ r).2 ⟨content, hlookup, hread⟩⟩

/-! ## Sections -/

/-- The sections that a program may have. -/
def sectionKeys : List String := ["variables", "functions", "main"]

namespace Program

theorem readSection_variables_eq_ok_iff (p q : Program) (content : Json) :
    p.readSection "variables" content = .ok q ↔
      ∃ bindings, DenotesBindings content bindings ∧ q = { p with bindings } := by
  rw [readSection]
  constructor
  · intro h
    obtain ⟨⟨members, rfl⟩, _, h⟩ := (bind_eq_ok _ _ _).1 h
    obtain ⟨bindings, hbindings, h⟩ := (bind_eq_ok _ _ _).1 h
    cases h
    exact ⟨bindings, ⟨members, rfl, (readVariables_eq_ok_iff _ _ _).1 hbindings⟩, rfl⟩
  · rintro ⟨bindings, ⟨members, rfl, hbindings⟩, rfl⟩
    have hread := (readVariables_eq_ok_iff (.ofRoot "variables") members bindings).2 hbindings
    exact (bind_eq_ok _ _ _).2 ⟨⟨members, rfl⟩, rfl, (bind_eq_ok _ _ _).2 ⟨bindings, hread, rfl⟩⟩

theorem readSection_functions_eq_ok_iff (p q : Program) {content : Json}
    (hcontent : content.UniqueKeys) :
    p.readSection "functions" content = .ok q ↔
      ∃ routines, DenotesRoutines content routines ∧ q = { p with routines } := by
  rw [readSection]
  constructor
  · intro h
    obtain ⟨⟨members, rfl⟩, _, h⟩ := (bind_eq_ok _ _ _).1 h
    obtain ⟨routines, hroutines, h⟩ := (bind_eq_ok _ _ _).1 h
    cases h
    have hkeys := ((Json.uniqueKeys_object_iff members).1 hcontent).1
    exact ⟨routines, (RoutineTable.readInto_empty_eq_ok_iff hkeys _).1 hroutines, rfl⟩
  · rintro ⟨routines, ⟨members, rfl, hroutines⟩, rfl⟩
    have hkeys := ((Json.uniqueKeys_object_iff members).1 hcontent).1
    have hread := (RoutineTable.readInto_empty_eq_ok_iff hkeys routines).2
      ⟨members, rfl, hroutines⟩
    exact (bind_eq_ok _ _ _).2 ⟨⟨members, rfl⟩, rfl, (bind_eq_ok _ _ _).2 ⟨routines, hread, rfl⟩⟩

theorem readSection_main_eq_ok_iff (p q : Program) (content : Json) :
    p.readSection "main" content = .ok q ↔
      ∃ main, Block.read (.ofRoot "main") content = .ok main ∧ q = { p with main } := by
  rw [readSection]
  exact bind_eq_ok_iff (fun _ => .rfl) fun _ => pure_eq_ok_iff _ _

theorem key_mem_of_readSection {p q : Program} {key : String} {content : Json}
    (h : p.readSection key content = .ok q) : key ∈ sectionKeys := by
  rw [readSection.eq_def] at h
  split at h
  case h_4 => cases h
  all_goals decide

/-- Every part of the program is the one that its section gives, or the one of
the first program if there is no such section. -/
structure AssembledFrom (p q : Program) (sections : Json.Members) : Prop where
  known : ∀ key ∈ Json.keys sections, key ∈ sectionKeys
  bindings : HasMemberOr "variables" (DenotesBindings · q.bindings) (q.bindings = p.bindings)
    sections
  routines : HasMemberOr "functions" (DenotesRoutines · q.routines) (q.routines = p.routines)
    sections
  main : HasMemberOr "main" (Block.read (.ofRoot "main") · = .ok q.main) (q.main = p.main)
    sections

/-- Under distinct keys no section is read over another. -/
theorem readSections_eq_ok_iff (sections : Json.Members)
    (hcontents : ∀ m ∈ sections, m.2.UniqueKeys) :
    ∀ p q : Program, (Json.keys sections).Nodup →
      (p.readSections sections = .ok q ↔ p.AssembledFrom q sections) := by
  induction sections with
  | nil =>
      intro p q _
      have hnil : ∀ name P Q, HasMemberOr name P Q [] ↔ Q := fun _ _ _ =>
        hasMemberOr_iff_of_lookup_eq_none rfl
      rw [readSections, Except.ok.injEq]
      constructor
      · rintro rfl
        exact ⟨List.forall_mem_nil _, (hnil _ _ _).2 rfl, (hnil _ _ _).2 rfl, (hnil _ _ _).2 rfl⟩
      · rintro ⟨_, hvariables, hfunctions, hmain⟩
        rw [hnil] at hvariables hfunctions hmain
        cases p
        cases q
        rw [mk.injEq]
        exact ⟨hvariables.symm, hfunctions.symm, hmain.symm⟩
  | cons m rest ih =>
      obtain ⟨key, content⟩ := m
      intro p q hkeys
      obtain ⟨hkey, hrest⟩ := List.nodup_cons.1 hkeys
      obtain ⟨hcontent, hcontents⟩ := List.forall_mem_cons.1 hcontents
      have ih := fun p' => ih hcontents p' q hrest
      have haround : ∀ name P Q, HasMemberOr name P Q ((key, content) :: rest) ↔
          if name = key then P content else HasMemberOr name P Q rest := fun name P Q =>
        @hasMemberOr_around key [] rest P Q List.not_mem_nil content name
      -- The rest has no section under this key, so it keeps what this one gave.
      have hkept : ∀ P Q, HasMemberOr key P Q rest ↔ Q := fun P Q =>
        hasMemberOr_iff_of_lookup_eq_none ((Json.lookup_eq_none_iff rest).2 hkey)
      rw [readSections, bind_eq_ok]
      constructor
      · rintro ⟨p', hp', h⟩
        have hmem := key_mem_of_readSection hp'
        obtain ⟨hothers, hvariables, hfunctions, hmain⟩ := (ih p').1 h
        have hall : ∀ k ∈ Json.keys ((key, content) :: rest), k ∈ sectionKeys :=
          List.forall_mem_cons.2 ⟨hmem, hothers⟩
        simp only [sectionKeys, List.mem_cons, List.not_mem_nil, or_false] at hmem
        rcases hmem with rfl | rfl | rfl
        · obtain ⟨bindings, hbindings, rfl⟩ := (readSection_variables_eq_ok_iff ..).1 hp'
          have hq := (hkept _ _).1 hvariables
          exact ⟨hall, (haround _ _ _).2 (hq ▸ hbindings), (haround _ _ _).2 hfunctions,
            (haround _ _ _).2 hmain⟩
        · obtain ⟨routines, hroutines, rfl⟩ :=
            (readSection_functions_eq_ok_iff _ _ hcontent).1 hp'
          have hq := (hkept _ _).1 hfunctions
          exact ⟨hall, (haround _ _ _).2 hvariables, (haround _ _ _).2 (hq ▸ hroutines),
            (haround _ _ _).2 hmain⟩
        · obtain ⟨main, hread, rfl⟩ := (readSection_main_eq_ok_iff ..).1 hp'
          have hq := (hkept _ _).1 hmain
          exact ⟨hall, (haround _ _ _).2 hvariables, (haround _ _ _).2 hfunctions,
            (haround _ _ _).2 (hq ▸ hread)⟩
      · rintro ⟨hall, hvariables, hfunctions, hmain⟩
        obtain ⟨hmem, hothers⟩ := List.forall_mem_cons.1 hall
        rw [haround] at hvariables hfunctions hmain
        simp only [sectionKeys, List.mem_cons, List.not_mem_nil, or_false] at hmem
        rcases hmem with rfl | rfl | rfl
        · exact ⟨{ p with bindings := q.bindings },
            (readSection_variables_eq_ok_iff ..).2 ⟨_, hvariables, rfl⟩,
            (ih _).2 ⟨hothers, (hkept _ _).2 rfl, hfunctions, hmain⟩⟩
        · exact ⟨{ p with routines := q.routines },
            (readSection_functions_eq_ok_iff _ _ hcontent).2 ⟨_, hfunctions, rfl⟩,
            (ih _).2 ⟨hothers, hvariables, (hkept _ _).2 rfl, hmain⟩⟩
        · exact ⟨{ p with main := q.main },
            (readSection_main_eq_ok_iff ..).2 ⟨_, hmain, rfl⟩,
            (ih _).2 ⟨hothers, hvariables, hfunctions, (hkept _ _).2 rfl⟩⟩

/-! ## Documents -/

/-- A document is a main block alone, or the sections of a program. -/
theorem ofJson_eq_ok_iff {j : Json} (h : j.UniqueKeys) (p : Program) :
    ofJson j = .ok p ↔
      (∃ items, j = .array items ∧ ∃ main, Block.read (.ofRoot "main") j = .ok main ∧
        p = { empty with main }) ∨
      ∃ sections, j = .object [("program", .object sections)] ∧
        empty.AssembledFrom p sections := by
  have hsections : ∀ sections, j = .object [("program", .object sections)] →
      (ofJson j = .ok p ↔ empty.AssembledFrom p sections) := by
    rintro sections rfl
    have hcontent := ((Json.uniqueKeys_object_iff _).1 h).2 _ List.mem_cons_self
    obtain ⟨hkeys, hcontents⟩ := (Json.uniqueKeys_object_iff sections).1 hcontent
    exact readSections_eq_ok_iff sections hcontents empty p hkeys
  constructor
  · intro hload
    rw [ofJson.eq_def] at hload
    split at hload
    · rename_i items
      obtain ⟨main, hmain, rfl⟩ := (map_eq_ok_iff ..).1 hload
      exact .inl ⟨items, rfl, main, hmain, rfl⟩
    · obtain ⟨⟨sections, rfl⟩, _, hread⟩ := (bind_eq_ok _ _ _).1 hload
      exact .inr ⟨sections, rfl, (hsections sections rfl).1 hread⟩
    · cases hload
  · rintro (⟨items, rfl, main, hmain, rfl⟩ | ⟨sections, rfl, hassembled⟩)
    · exact (map_eq_ok_iff ..).2 ⟨main, hmain, rfl⟩
    · exact (hsections sections rfl).2 hassembled

/-- No variable is bound twice at the start. -/
theorem nodup_names_of_ofJson {j : Json} (h : j.UniqueKeys) {p : Program}
    (hload : ofJson j = .ok p) : (p.bindings.map Prod.fst).Nodup := by
  rcases (ofJson_eq_ok_iff h p).1 hload with ⟨_, _, _, _, rfl⟩ | ⟨sections, rfl, hassembled⟩
  · exact .nil
  · rcases hassembled.bindings with ⟨content, hlookup, members, rfl, hbinds⟩ | ⟨_, hempty⟩
    · have hsections := ((Json.uniqueKeys_object_iff _).1 h).2 _ List.mem_cons_self
      have hcontent := ((Json.uniqueKeys_object_iff sections).1 hsections).2 _
        (Json.mem_of_lookup hlookup)
      rw [names_of_binds hbinds]
      exact ((Json.uniqueKeys_object_iff members).1 hcontent).1
    · rw [hempty]
      exact .nil

end Program

end JsonScript
