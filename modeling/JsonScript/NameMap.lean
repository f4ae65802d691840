/-!
# Finite maps from names

Variables and routines are found by name and listed in the order of their
names. A `NameMap` is a list of entries whose names strictly increase by code
point; the order is part of the type. So a map has one representation, and maps
with the same content are equal.

## Main results

* `get?_insert` — writing changes the entry of one name and no other.
* `get?_insertIfBound` — the same for writing that never adds a name.
* `get?_map` — changing all entries.
* `ext_get?` — maps with the same content are equal.
* `get?_ofList`, `size_ofList`, `ofList_eq_of_perm` — maps from entries that all
  have different names.
-/

namespace JsonScript

/-- Entries with strictly increasing names. -/
abbrev Ascending {α : Type} (entries : List (String × α)) : Prop :=
  entries.Pairwise fun a b => a.1 < b.1

/-- A finite map from names. -/
structure NameMap (α : Type) where
  entries : List (String × α)
  ascending : Ascending entries

namespace NameMap

variable {α : Type}

/-! ## Operations -/

/-- The map without entries. -/
def empty : NameMap α := ⟨[], .nil⟩

instance : Inhabited (NameMap α) := ⟨empty⟩

/-- The content of a name. -/
def get? (m : NameMap α) (name : String) : Option α := m.entries.lookup name

/-- Whether a name has an entry. -/
def contains (m : NameMap α) (name : String) : Bool := (m.get? name).isSome

/-- The number of entries. -/
def size (m : NameMap α) : Nat := m.entries.length

/-- Whether there are no entries. -/
def isEmpty (m : NameMap α) : Bool := m.entries.isEmpty

/-- Writes an entry into an ascending list. -/
def insertEntry (name : String) (content : α) : List (String × α) → List (String × α)
  | [] => [(name, content)]
  | (k, v) :: rest =>
      if name < k then (name, content) :: (k, v) :: rest
      else if name = k then (name, content) :: rest
      else (k, v) :: insertEntry name content rest

theorem mem_of_mem_insertEntry {name : String} {content : α} {entries : List (String × α)}
    {e : String × α} (h : e ∈ insertEntry name content entries) :
    e = (name, content) ∨ e ∈ entries := by
  fun_induction insertEntry name content entries with
  | case1 => simpa using h
  | case2 k v rest _ => simpa using h
  | case3 v rest _ =>
      rcases List.mem_cons.1 h with h | h
      · exact .inl h
      · exact .inr (List.mem_cons_of_mem _ h)
  | case4 k v rest _ _ ih =>
      rcases List.mem_cons.1 h with h | h
      · exact .inr (h ▸ List.mem_cons_self)
      · exact (ih h).imp_right (List.mem_cons_of_mem _)

theorem lt_of_not_lt_of_ne {a b : String} (h₁ : ¬ a < b) (h₂ : a ≠ b) : b < a :=
  Decidable.byContradiction fun h₃ =>
    h₂ (String.le_antisymm (String.not_lt.1 h₃) (String.not_lt.1 h₁))

theorem ascending_insertEntry (name : String) (content : α) {entries : List (String × α)}
    (h : Ascending entries) : Ascending (insertEntry name content entries) := by
  induction entries with
  | nil => simp [insertEntry, Ascending]
  | cons e rest ih =>
      obtain ⟨k, v⟩ := e
      have hhead := fun {e} (he : e ∈ rest) => List.rel_of_pairwise_cons h he
      have htail := List.Pairwise.of_cons h
      unfold insertEntry
      split
      · rename_i hlt
        refine List.pairwise_cons.2 ⟨fun e he => ?_, h⟩
        rcases List.mem_cons.1 he with rfl | he
        · exact hlt
        · exact String.lt_trans hlt (hhead he)
      · split
        · rename_i heq
          subst heq
          exact List.pairwise_cons.2 ⟨fun e he => hhead he, htail⟩
        · rename_i hnlt hne
          refine List.pairwise_cons.2 ⟨fun e he => ?_, ih htail⟩
          rcases mem_of_mem_insertEntry he with rfl | he
          · exact lt_of_not_lt_of_ne hnlt hne
          · exact hhead he

/-- Writes an entry, new or not. -/
def insert (m : NameMap α) (name : String) (content : α) : NameMap α :=
  ⟨insertEntry name content m.entries, ascending_insertEntry name content m.ascending⟩

/-- Writes an entry if the name has one already. -/
def insertIfBound? (m : NameMap α) (name : String) (content : α) : Option (NameMap α) :=
  if m.contains name then some (m.insert name content) else none

/-- Writes entries from left to right, so that later ones win. -/
def ofList (entries : List (String × α)) : NameMap α :=
  entries.foldl (fun m e => m.insert e.1 e.2) empty

/-- Changes the content of every entry. -/
def map {β : Type} (f : α → β) (m : NameMap α) : NameMap β :=
  ⟨m.entries.map fun e => (e.1, f e.2), List.pairwise_map.2 m.ascending⟩

/-! ## What the operations do to the content -/

@[simp] theorem get?_empty (name : String) : (empty : NameMap α).get? name = none := rfl

theorem lookup_cons_eq_ite (x k : String) (v : α) (rest : List (String × α)) :
    ((k, v) :: rest).lookup x = if x = k then some v else rest.lookup x := by
  rw [List.lookup_cons]
  by_cases h : x = k
  · simp [h]
  · have : (x == k) = false := by simpa using h
    simp [this, h]

theorem lookup_insertEntry (name x : String) (content : α) {entries : List (String × α)}
    (h : Ascending entries) :
    (insertEntry name content entries).lookup x =
      if x = name then some content else entries.lookup x := by
  induction entries with
  | nil =>
      simp [insertEntry, lookup_cons_eq_ite]
  | cons e rest ih =>
      obtain ⟨k, v⟩ := e
      have ih := ih (List.Pairwise.of_cons h)
      unfold insertEntry
      split
      · exact lookup_cons_eq_ite ..
      · split
        · rename_i heq
          subst heq
          simp only [lookup_cons_eq_ite]
          split <;> rfl
        · rename_i hnlt hne
          simp only [lookup_cons_eq_ite, ih]
          by_cases hk : x = k
          · simp [hk, Ne.symm hne]
          · simp [hk]

/-- Writing changes the entry of one name and no other. -/
theorem get?_insert (m : NameMap α) (name x : String) (content : α) :
    (m.insert name content).get? x = if x = name then some content else m.get? x :=
  lookup_insertEntry name x content m.ascending

@[simp] theorem get?_insert_self (m : NameMap α) (name : String) (content : α) :
    (m.insert name content).get? name = some content := by
  simp [get?_insert]

/-- Writing to a bound name changes its entry and no other. -/
theorem get?_insertIfBound {m m' : NameMap α} {name : String} {content : α}
    (h : m.insertIfBound? name content = some m') (x : String) :
    m.contains name ∧ m'.get? x = if x = name then some content else m.get? x := by
  simp only [insertIfBound?, Option.ite_none_right_eq_some, Option.some.injEq] at h
  exact ⟨h.1, h.2 ▸ get?_insert m name x content⟩

theorem lookup_map_content {β : Type} (f : α → β) (x : String) (entries : List (String × α)) :
    (entries.map fun e => (e.1, f e.2)).lookup x = (entries.lookup x).map f := by
  induction entries with
  | nil => rfl
  | cons e rest ih =>
      obtain ⟨k, v⟩ := e
      rw [List.map_cons, lookup_cons_eq_ite, lookup_cons_eq_ite, ih]
      by_cases hx : x = k <;> simp [hx]

/-- A change of every entry is a change of what is found. -/
@[simp] theorem get?_map {β : Type} (f : α → β) (m : NameMap α) (x : String) :
    (m.map f).get? x = (m.get? x).map f :=
  lookup_map_content f x m.entries

/-! ## Extensionality -/

theorem lookup_eq_none_of_forall_lt {x : String} {entries : List (String × α)}
    (h : ∀ e ∈ entries, x < e.1) : entries.lookup x = none := by
  induction entries with
  | nil => rfl
  | cons e rest ih =>
      have hne : (x == e.1) = false := by
        simpa using fun heq => String.lt_irrefl _ (heq ▸ h e List.mem_cons_self)
      rw [List.lookup_cons, hne]
      exact ih fun e he => h e (List.mem_cons_of_mem _ he)

theorem entries_eq_of_lookup {l₁ l₂ : List (String × α)} (h₁ : Ascending l₁) (h₂ : Ascending l₂)
    (h : ∀ x, l₁.lookup x = l₂.lookup x) : l₁ = l₂ := by
  induction l₁ generalizing l₂ with
  | nil =>
      cases l₂ with
      | nil => rfl
      | cons e rest =>
          obtain ⟨k, v⟩ := e
          simpa [lookup_cons_eq_ite] using h k
  | cons e₁ rest₁ ih =>
      cases l₂ with
      | nil => simpa [lookup_cons_eq_ite] using h e₁.1
      | cons e₂ rest₂ =>
          obtain ⟨k₁, v₁⟩ := e₁
          obtain ⟨k₂, v₂⟩ := e₂
          have hd₁ := fun {e} (he : e ∈ rest₁) => List.rel_of_pairwise_cons h₁ he
          have hd₂ := fun {e} (he : e ∈ rest₂) => List.rel_of_pairwise_cons h₂ he
          have hk : k₁ = k₂ := by
            refine Decidable.byContradiction fun hne => ?_
            by_cases hlt : k₁ < k₂
            · have hnone : ((k₂, v₂) :: rest₂).lookup k₁ = none :=
                lookup_eq_none_of_forall_lt fun e he => by
                  rcases List.mem_cons.1 he with rfl | he
                  · exact hlt
                  · exact String.lt_trans hlt (hd₂ he)
              have := h k₁
              rw [hnone] at this
              simp at this
            · have hgt := lt_of_not_lt_of_ne hlt hne
              have hnone : ((k₁, v₁) :: rest₁).lookup k₂ = none :=
                lookup_eq_none_of_forall_lt fun e he => by
                  rcases List.mem_cons.1 he with rfl | he
                  · exact hgt
                  · exact String.lt_trans hgt (hd₁ he)
              have := h k₂
              rw [hnone] at this
              simp at this
          subst hk
          have hv : v₁ = v₂ := by simpa using h k₁
          subst hv
          congr 1
          refine ih (List.Pairwise.of_cons h₁) (List.Pairwise.of_cons h₂) fun x => ?_
          by_cases hx : x = k₁
          · subst hx
            rw [lookup_eq_none_of_forall_lt fun e he => hd₁ he,
              lookup_eq_none_of_forall_lt fun e he => hd₂ he]
          · simpa [lookup_cons_eq_ite, hx] using h x

/-- Maps with the same content are equal. -/
theorem ext_get? {m₁ m₂ : NameMap α} (h : ∀ x, m₁.get? x = m₂.get? x) : m₁ = m₂ := by
  obtain ⟨l₁, h₁⟩ := m₁
  obtain ⟨l₂, h₂⟩ := m₂
  have := entries_eq_of_lookup h₁ h₂ h
  subst this
  rfl

/-! ## Entries with different names -/

theorem lookup_eq_some_iff_mem {entries : List (String × α)}
    (hnames : (entries.map Prod.fst).Nodup) (x : String) (content : α) :
    entries.lookup x = some content ↔ (x, content) ∈ entries := by
  induction entries with
  | nil => simp
  | cons e rest ih =>
      obtain ⟨k, v⟩ := e
      obtain ⟨hk, hrest⟩ := List.nodup_cons.1 hnames
      rw [lookup_cons_eq_ite, List.mem_cons, Prod.mk.injEq]
      by_cases hx : x = k
      · have hnot : (x, content) ∉ rest := fun hmem =>
          hk (hx ▸ List.mem_map.2 ⟨_, hmem, rfl⟩)
        simp [hx, hx ▸ hnot, eq_comm]
      · simp [hx, ih hrest]

/-- Where all names differ, the order of the entries does not matter. -/
theorem lookup_eq_of_perm {entries entries' : List (String × α)} (h : entries.Perm entries')
    (hnames : (entries.map Prod.fst).Nodup) (x : String) :
    entries.lookup x = entries'.lookup x := by
  have hnames' : (entries'.map Prod.fst).Nodup := (h.map Prod.fst).nodup_iff.1 hnames
  apply Option.ext
  intro content
  rw [lookup_eq_some_iff_mem hnames, lookup_eq_some_iff_mem hnames', h.mem_iff]

theorem nodup_names (m : NameMap α) : (m.entries.map Prod.fst).Nodup := by
  rw [List.nodup_iff_pairwise_ne, List.pairwise_map]
  refine m.ascending.imp fun {a b} (hlt : a.1 < b.1) (heq : a.1 = b.1) => ?_
  rw [heq] at hlt
  exact String.lt_irrefl _ hlt

theorem perm_insertEntry (name : String) (content : α) {entries : List (String × α)}
    (hfresh : name ∉ entries.map Prod.fst) :
    (insertEntry name content entries).Perm ((name, content) :: entries) := by
  induction entries with
  | nil => exact .refl _
  | cons e rest ih =>
      obtain ⟨k, v⟩ := e
      obtain ⟨hk, hrest⟩ : name ≠ k ∧ name ∉ rest.map Prod.fst :=
        not_or.1 (mt List.mem_cons.2 hfresh)
      rw [insertEntry]
      by_cases hlt : name < k
      · rw [if_pos hlt]
      · rw [if_neg hlt, if_neg hk]
        exact ((ih hrest).cons (k, v)).trans (.swap (name, content) (k, v) rest)

theorem perm_foldl_insert (entries : List (String × α)) (hnames : (entries.map Prod.fst).Nodup) :
    ∀ m : NameMap α, (∀ name ∈ entries.map Prod.fst, name ∉ m.entries.map Prod.fst) →
      (entries.foldl (fun m e => m.insert e.1 e.2) m).entries.Perm (entries ++ m.entries) := by
  induction entries with
  | nil => exact fun m _ => .refl _
  | cons e rest ih =>
      intro m hfresh
      obtain ⟨hname, hrest⟩ := List.nodup_cons.1 hnames
      have hinsert := perm_insertEntry e.1 e.2 (hfresh e.1 List.mem_cons_self)
      have hfresh' : ∀ name ∈ rest.map Prod.fst,
          name ∉ (m.insert e.1 e.2).entries.map Prod.fst := by
        intro name hmem hin
        rcases List.mem_cons.1 ((hinsert.map Prod.fst).mem_iff.1 hin) with rfl | hin
        · exact hname hmem
        · exact hfresh name (List.mem_cons_of_mem _ hmem) hin
      exact (ih hrest _ hfresh').trans ((hinsert.append_left rest).trans List.perm_middle)

/-- Entries with different names are the entries of their map. -/
theorem perm_ofList {entries : List (String × α)} (hnames : (entries.map Prod.fst).Nodup) :
    (ofList entries).entries.Perm entries := by
  have h := perm_foldl_insert entries hnames empty fun _ _ => List.not_mem_nil
  rwa [show (empty : NameMap α).entries = [] from rfl, List.append_nil] at h

theorem get?_ofList {entries : List (String × α)} (hnames : (entries.map Prod.fst).Nodup)
    (x : String) : (ofList entries).get? x = entries.lookup x :=
  lookup_eq_of_perm (perm_ofList hnames) (nodup_names _) x

theorem size_ofList {entries : List (String × α)} (hnames : (entries.map Prod.fst).Nodup) :
    (ofList entries).size = entries.length :=
  (perm_ofList hnames).length_eq

/-- Where all names differ, the order of the entries does not matter. -/
theorem ofList_eq_of_perm {entries entries' : List (String × α)} (h : entries.Perm entries')
    (hnames : (entries.map Prod.fst).Nodup) : ofList entries = ofList entries' := by
  have hnames' : (entries'.map Prod.fst).Nodup := (h.map Prod.fst).nodup_iff.1 hnames
  refine ext_get? fun x => ?_
  rw [get?_ofList hnames, get?_ofList hnames', lookup_eq_of_perm h hnames]

end NameMap

end JsonScript
