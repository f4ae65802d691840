import JsonScript.Proofs.Places
import JsonScript.Proofs.Readings

/-!
# Reading at another place

A reader is told where in the document it is, and all it does with the place is
to go down from it, to hand it to the operations that it makes, and to complain
about it. So what can be read at one place can be read at any other, and is the
same but for the places.

## Main results

* `Block.readAction_of_place` — actions do not depend on the place at all.
* `Block.moves_read_and_readOperation`, `Block.moves_read`,
  `Block.moves_readStatement` — blocks read at related places.
-/

namespace JsonScript

/-- Places that are related stay related on the way down. -/
structure Descends (σ : Location → Location → Prop) : Prop where
  key {place place' : Location} (h : σ place place') (name : String) :
    σ (place.key name) (place'.key name)
  item {place place' : Location} (h : σ place place') (index : Nat) :
    σ (place.item index) (place'.item index)

/-- Places below two given ones, by the same way down. -/
def Location.Below (base base' place place' : Location) : Prop :=
  ∃ steps, place = ⟨base.root, base.steps ++ steps⟩ ∧ place' = ⟨base'.root, base'.steps ++ steps⟩

theorem Location.below_self (base base' : Location) : base.Below base' base base' :=
  ⟨[], by simp, by simp⟩

theorem Location.descends_below (base base' : Location) : Descends (base.Below base') where
  key := by
    rintro _ _ ⟨steps, rfl, rfl⟩ name
    exact ⟨steps ++ [.key name], by simp [Location.key], by simp [Location.key]⟩
  item := by
    rintro _ _ ⟨steps, rfl, rfl⟩ index
    exact ⟨steps ++ [.item index], by simp [Location.item], by simp [Location.item]⟩

/-- What the first reading gives, the second one gives too, up to a relation. -/
def Reading.Moves {α β : Type} (R : α → β → Prop) (x : Reading α) (y : Reading β) : Prop :=
  ∀ a, x = .ok a → ∃ b, y = .ok b ∧ R a b

namespace Reading.Moves

variable {α β γ δ : Type} {R : α → β → Prop} {S : γ → δ → Prop} {x : Reading α} {y : Reading β}

theorem ok {a : α} {b : β} (h : R a b) : Reading.Moves R (.ok a) (.ok b) := by
  rintro _ ⟨⟩
  exact ⟨b, rfl, h⟩

theorem fail (e : Malformation) (place : Location) :
    Reading.Moves R (Reading.fail e place : Reading α) y := nofun

theorem bind {f : α → Reading γ} {g : β → Reading δ} (h : x.Moves R y)
    (hfg : ∀ a b, R a b → (f a).Moves S (g b)) : Reading.Moves S (x >>= f) (y >>= g) := by
  intro c hc
  obtain ⟨a, ha, hc⟩ := (bind_eq_ok x f c).1 hc
  obtain ⟨b, hb, hab⟩ := h a ha
  obtain ⟨d, hd, hcd⟩ := hfg a b hab c hc
  exact ⟨d, (bind_eq_ok y g d).2 ⟨b, hb, hd⟩, hcd⟩

end Reading.Moves

namespace Block

open Reading

/-! ## Actions -/

/-- Actions do not depend on the place at all. -/
theorem readAction_of_place {place : Location} {key : String} {body : Json} {action : Action}
    (h : readAction place key body = .ok action) (place' : Location) :
    readAction place' key body = .ok action := by
  have target {f : String × Expr → Action} (h : (readTarget place body).map f = .ok action) :
      (readTarget place' body).map f = .ok action := by
    obtain ⟨⟨name, e⟩, ht, rfl⟩ := (map_eq_ok_iff ..).1 h
    exact (map_eq_ok_iff ..).2
      ⟨_, (readTarget_eq_ok_iff ..).2 ((readTarget_eq_ok_iff ..).1 ht), rfl⟩
  rw [readAction_eq] at h ⊢
  split at h
  · exact target h
  · exact target h
  · obtain ⟨es, hes, rfl⟩ := (map_eq_ok_iff ..).1 h
    exact (map_eq_ok_iff ..).2
      ⟨_, (readPrinted_eq_ok_iff ..).2 ((readPrinted_eq_ok_iff ..).1 hes), rfl⟩
  · cases h
  · cases h
  · split at h
    · exact h
    · rename_i op _
      by_cases hupdate : isUpdate key body = true
      · rw [if_pos hupdate] at h ⊢
        exact target h
      · rw [if_neg hupdate] at h ⊢
        cases harithmetic : op.isArithmetic with
        | true =>
            exact (readOperatorStatement_eq_ok_iff place' harithmetic body action).2
              ((readOperatorStatement_eq_ok_iff place harithmetic body action).1 h)
        | false =>
            rw [readOperatorStatement, if_neg (by simp [harithmetic])] at h
            cases h

/-! ## Blocks

The relation on the way down and the one between the places of operations need
not be the same: the first may be finer. -/

section Moves

variable {σ ρ : Location → Location → Prop}

/-- Reading at the place gives the same block as reading at a related place, up to
places. -/
def ReadsAlong (σ ρ : Location → Location → Prop) (place : Location)
    (read : Location → Reading (List Operation)) : Prop :=
  ∀ place', σ place place' → (read place).Moves (BlockMoved ρ) (read place')

variable (hσ : Descends σ) (hρ : ∀ place place', σ place place' → ρ place place')
include hσ hρ

theorem moves_readOperation_if {place : Location} {body : Json}
    (hthen : ∀ members, body = .object members → ∀ j, members.lookup "then" = some j →
      ReadsAlong σ ρ ((place.key "if").key "then") (read · j))
    (helse : ∀ members, body = .object members → ∀ j, members.lookup "else" = some j →
      ReadsAlong σ ρ ((place.key "if").key "else") (read · j))
    {place' : Location} (hplace : σ place place') :
    Moves (Operation.Moved ρ) (readOperation place "if" body) (readOperation place' "if" body) := by
  intro o ho
  have hinner := hσ.key hplace "if"
  obtain ⟨members, rfl, condition, hcondition, thenBlock, ⟨j, hj, hread⟩, elseBlock, hor, rfl⟩ :=
    (readOperation_if_eq_ok_iff ..).1 ho
  obtain ⟨thenBlock', hread', hmoved⟩ := hthen members rfl j hj _ (hσ.key hinner "then") _ hread
  obtain ⟨elseBlock', hor', hmoved'⟩ : ∃ elseBlock',
      HasMemberOr "else" (read ((place'.key "if").key "else") · = .ok elseBlock')
        (elseBlock' = []) members ∧ BlockMoved ρ elseBlock elseBlock' := by
    rcases hor with ⟨j, hj, hread⟩ | ⟨hnone, rfl⟩
    · obtain ⟨block, hread', hmoved⟩ := helse members rfl j hj _ (hσ.key hinner "else") _ hread
      exact ⟨block, .inl ⟨j, hj, hread'⟩, hmoved⟩
    · exact ⟨[], .inr ⟨hnone, rfl⟩, .nil⟩
  refine ⟨_, (readOperation_if_eq_ok_iff ..).2 ⟨members, rfl, condition, hcondition, thenBlock',
    ⟨j, hj, hread'⟩, elseBlock', hor', rfl⟩, ?_⟩
  exact .choose (hρ _ _ hplace) condition hmoved hmoved'

theorem moves_readOperation_loop {place : Location} {body : Json}
    (hbody : ∀ members, body = .object members → ∀ j, members.lookup "body" = some j →
      ReadsAlong σ ρ ((place.key "loop").key "body") (read · j))
    {place' : Location} (hplace : σ place place') :
    Moves (Operation.Moved ρ) (readOperation place "loop" body)
      (readOperation place' "loop" body) := by
  intro o ho
  obtain ⟨members, rfl, count, hcount, block, ⟨j, hj, hread⟩, rfl⟩ :=
    (readOperation_loop_eq_ok_iff ..).1 ho
  obtain ⟨block', hread', hmoved⟩ :=
    hbody members rfl j hj _ (hσ.key (hσ.key hplace "loop") "body") _ hread
  refine ⟨_, (readOperation_loop_eq_ok_iff ..).2
    ⟨members, rfl, count, hcount, block', ⟨j, hj, hread'⟩, rfl⟩, ?_⟩
  exact .times (hρ _ _ hplace) count hmoved

theorem moves_readOperation_while {place : Location} {body : Json}
    (hbody : ∀ members, body = .object members → ∀ j, members.lookup "body" = some j →
      ReadsAlong σ ρ ((place.key "while").key "body") (read · j))
    {place' : Location} (hplace : σ place place') :
    Moves (Operation.Moved ρ) (readOperation place "while" body)
      (readOperation place' "while" body) := by
  intro o ho
  obtain ⟨members, rfl, condition, hcondition, block, ⟨j, hj, hread⟩, rfl⟩ :=
    (readOperation_while_eq_ok_iff ..).1 ho
  obtain ⟨block', hread', hmoved⟩ :=
    hbody members rfl j hj _ (hσ.key (hσ.key hplace "while") "body") _ hread
  refine ⟨_, (readOperation_while_eq_ok_iff ..).2
    ⟨members, rfl, condition, hcondition, block', ⟨j, hj, hread'⟩, rfl⟩, ?_⟩
  exact .whilst (hρ _ _ hplace) condition hmoved

omit hσ in
theorem moves_readOperation_call {place place' : Location} (hplace : σ place place')
    (body : Json) :
    Moves (Operation.Moved ρ) (readOperation place "call" body)
      (readOperation place' "call" body) := by
  intro o ho
  rw [readOperation_call] at ho ⊢
  obtain ⟨⟨name, es⟩, hcall, rfl⟩ := (map_eq_ok_iff ..).1 ho
  have hcall' := (readCall_eq_ok_iff (place'.key "call") ..).2 ((readCall_eq_ok_iff ..).1 hcall)
  exact ⟨_, (map_eq_ok_iff ..).2 ⟨_, hcall', rfl⟩, .call (hρ _ _ hplace) name es⟩

omit hσ in
theorem moves_readOperation_act {place place' : Location} (hplace : σ place place')
    {key : String} (hcontrol : key ∉ ["if", "loop", "while", "call"]) (body : Json) :
    Moves (Operation.Moved ρ) (readOperation place key body) (readOperation place' key body) := by
  intro o ho
  rw [readOperation_act place body hcontrol] at ho
  rw [readOperation_act place' body hcontrol]
  obtain ⟨action, haction, rfl⟩ := (map_eq_ok_iff ..).1 ho
  have haction' := readAction_of_place haction (place'.key key)
  exact ⟨_, (map_eq_ok_iff ..).2 ⟨_, haction', rfl⟩, .act (hρ _ _ hplace) action⟩

/-- Blocks, their statements and the operations in these, read at related places. -/
theorem moves_read_and_readOperation :
    (∀ place j, ReadsAlong σ ρ place (read · j)) ∧
      (∀ place i items, ReadsAlong σ ρ place (readStatements · i items)) ∧
      (∀ place j, ReadsAlong σ ρ place (readStatement · j)) ∧
      (∀ place members, ReadsAlong σ ρ place (readOperations · members)) ∧
      ∀ place key body place', σ place place' →
        Moves (Operation.Moved ρ) (readOperation place key body)
          (readOperation place' key body) := by
  apply read.mutual_induct
    (fun place j => ReadsAlong σ ρ place (read · j))
    (fun place i items => ReadsAlong σ ρ place (readStatements · i items))
    (fun place j => ReadsAlong σ ρ place (readStatement · j))
    (fun place members => ReadsAlong σ ρ place (readOperations · members))
    (fun place key body => ∀ place', σ place place' →
      Moves (Operation.Moved ρ) (readOperation place key body) (readOperation place' key body))
  -- Blocks and their items.
  case case1 =>
    intro place items ih place' hplace
    simp only [read]
    exact ih place' hplace
  case case2 =>
    intro place j harray place' hplace
    simp only
    rw [read]
    · exact .fail _ _
    · exact harray
  case case3 =>
    intro place i place' _
    simp only [readStatements_nil]
    exact .ok .nil
  case case4 =>
    intro place i j rest ihj ihrest place' hplace
    simp only [readStatements]
    exact (ihj _ (hσ.item hplace i)).bind fun _ _ h =>
      (ihrest place' hplace).bind fun _ _ hmore => .ok (List.rel_append h hmore)
  -- Statement objects and their members.
  case case5 =>
    intro place members ih place' hplace
    simp only [readStatement]
    exact ih place' hplace
  case case6 =>
    intro place j hobject place' hplace
    simp only
    rw [readStatement]
    · exact .fail _ _
    · exact hobject
  case case7 =>
    intro place place' _
    simp only [readOperations_nil]
    exact .ok .nil
  case case8 =>
    intro place key body rest ihbody ihrest place' hplace
    simp only [readOperations]
    exact (ihbody place' hplace).bind fun _ _ h =>
      (ihrest place' hplace).bind fun _ _ hmore => .ok (.cons h hmore)
  -- Operations, by their keys.
  case case9 =>
    intro place body _ ihthen ihelse place' hplace
    exact moves_readOperation_if hσ hρ ihthen ihelse hplace
  case case10 =>
    intro place body _ ih place' hplace
    exact moves_readOperation_loop hσ hρ ih hplace
  case case11 =>
    intro place body _ ih place' hplace
    exact moves_readOperation_while hσ hρ ih hplace
  case case12 =>
    intro place body place' hplace
    exact moves_readOperation_call hρ hplace body
  case case13 =>
    intro place key body hif hloop hwhile hcall place' hplace
    refine moves_readOperation_act hρ hplace ?_ body
    simp only [List.mem_cons, List.not_mem_nil, or_false, not_or]
    exact ⟨hif, hloop, hwhile, hcall⟩

theorem moves_read {place place' : Location} (hplace : σ place place') (j : Json) :
    (read place j).Moves (BlockMoved ρ) (read place' j) :=
  (moves_read_and_readOperation hσ hρ).1 place j place' hplace

theorem moves_readStatement {place place' : Location} (hplace : σ place place') (j : Json) :
    (readStatement place j).Moves (BlockMoved ρ) (readStatement place' j) :=
  (moves_read_and_readOperation hσ hρ).2.2.1 place j place' hplace

end Moves

end Block

end JsonScript
