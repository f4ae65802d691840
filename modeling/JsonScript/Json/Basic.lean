/-!
# JSON trees

A document is first read into a `Json` tree. Numbers are doubles already, and
an object is the list of its members in document order.

Writing a member that an object already has keeps the place of the old one and
takes the new content. A tree built this way has every key once.

## Main results

* `keys_setMember` — the keys after writing a member.
* `sizeOf_lt_of_mem_members`, `sizeOf_lt_of_lookup` — parts are smaller than
  the whole, which is what recursion on trees ends by.
-/

namespace JsonScript

/-- A JSON tree. -/
inductive Json where
  | null
  | bool (b : Bool)
  | number (x : Float)
  | string (s : String)
  | array (items : List Json)
  | object (members : List (String × Json))
  deriving Inhabited

namespace Json

/-- The members of an object, in document order. -/
abbrev Members := List (String × Json)

/-- Writes a member: in place if the key is there, at the end if not. -/
def setMember (name : String) (content : Json) : Members → Members
  | [] => [(name, content)]
  | (k, v) :: rest =>
      if k = name then (k, content) :: rest else (k, v) :: setMember name content rest

/-- The keys of an object, in document order. -/
def keys (members : Members) : List String := members.map Prod.fst

theorem keys_setMember (name : String) (content : Json) (members : Members) :
    keys (setMember name content members) =
      if name ∈ keys members then keys members else keys members ++ [name] := by
  induction members with
  | nil => simp [setMember, keys]
  | cons m rest ih =>
      obtain ⟨k, v⟩ := m
      by_cases h : k = name
      · simp [setMember, keys, h]
      · have h' : ¬ name = k := fun e => h e.symm
        simp only [keys] at ih
        simp only [setMember, keys, h, h', if_false, List.map_cons, List.mem_cons, false_or, ih]
        split <;> simp_all

/-! ## Size -/

theorem sizeOf_lt_of_mem_items {item : Json} {items : List Json} (h : item ∈ items) :
    sizeOf item < sizeOf (array items) := by
  have := List.sizeOf_lt_of_mem h
  simp only [array.sizeOf_spec]
  omega

theorem sizeOf_lt_of_mem_members {name : String} {content : Json} {members : Members}
    (h : (name, content) ∈ members) : sizeOf content < sizeOf (object members) := by
  have := List.sizeOf_lt_of_mem h
  simp only [object.sizeOf_spec, Prod.mk.sizeOf_spec] at *
  omega

theorem mem_of_lookup {name : String} {content : Json} {members : Members}
    (h : members.lookup name = some content) : (name, content) ∈ members := by
  induction members with
  | nil => simp at h
  | cons m rest ih =>
      obtain ⟨k, v⟩ := m
      simp only [List.lookup_cons] at h
      split at h
      · rename_i hk
        simp_all
      · exact List.mem_cons_of_mem _ (ih h)

theorem sizeOf_lt_of_lookup {name : String} {content : Json} {members : Members}
    (h : members.lookup name = some content) : sizeOf content < sizeOf (object members) :=
  sizeOf_lt_of_mem_members (mem_of_lookup h)

end Json

end JsonScript
