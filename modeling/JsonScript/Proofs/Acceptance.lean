import JsonScript.Proofs.OperandAcceptance
import JsonScript.Proofs.UniqueKeys
import JsonScript.Proofs.WrittenTrees

/-!
# The readers accept exactly the grammar

Blocks and documents, continuing from operands. A tree is accepted if and only
if it follows the grammar, and any other tree is malformed.

Whole documents are about trees in which no object has a key twice. Only the
reader of routines looks at that: it refuses a name that is taken, and under
distinct keys none is.

## Main results

* `Block.succeeds_read_iff` — blocks.
* `Routine.succeeds_read_iff` — definitions of routines.
* `document_accepted_iff` — whole documents.
-/

namespace JsonScript

/-! ## Actions -/

namespace Block

open Reading

theorem succeeds_readTarget_iff (place : Location) (body : Json) :
    Succeeds (readTarget place body) ↔ IsTarget body := by
  rw [readTarget, isTarget_iff]
  refine succeeds_object fun members _ => ?_
  refine succeeds_member (fun j _ => succeeds_requireString _ _ j) fun name => ?_
  exact succeeds_last_member (fun j _ => Operand.succeeds_read_iff _ j) fun _ => succeeds_pure _

theorem succeeds_readPrinted_iff (place : Location) (body : Json) :
    Succeeds (readPrinted place body) ↔ IsPrinted body := by
  rw [readPrinted.eq_def]
  split
  · rename_i items
    rw [Operand.succeeds_readAll_iff]
    constructor
    · exact .items
    · intro h
      cases h with
      | one h => cases h with | scalar h => exact absurd h id
      | items h => exact h
  · rename_i hno
    rw [succeeds_map, Operand.succeeds_read_iff]
    constructor
    · exact .one
    · intro h
      cases h with
      | one h => exact h
      | items => exact absurd rfl (hno _)

theorem succeeds_readOperatorStatement_iff (place : Location) {key : String} {op : Operator}
    (hop : Operator.ofName? key = some op) (body : Json) :
    Succeeds (readOperatorStatement place op body) ↔
      key ∈ arithmeticKeys ∧ IsPair Json.IsString IsOperand body := by
  rw [readOperatorStatement, ← Operator.isArithmetic_iff hop,
    ← Operand.readPair_eq_variable_iff place body]
  by_cases harithmetic : op.isArithmetic = true
  · rw [if_pos harithmetic, succeeds_bind]
    constructor
    · rintro ⟨⟨left, value⟩, hpair, h⟩
      split at h
      · rename_i name value' heq
        cases heq
        exact ⟨harithmetic, name, value, hpair⟩
      · exact absurd h (not_succeeds_fail _ _)
    · rintro ⟨_, name, value, h⟩
      exact ⟨_, h, succeeds_pure _⟩
  · rw [if_neg harithmetic]
    refine iff_of_false (not_succeeds_fail _ _) ?_
    rintro ⟨h, _⟩
    exact harithmetic h

theorem succeeds_readAction_iff (place : Location) {key : String} (body : Json)
    (hcontrol : key ∉ ["if", "loop", "while", "call"]) :
    Succeeds (readAction place key body) ↔ IsOperation key body := by
  rw [readAction_eq]
  split
  · rw [succeeds_map, succeeds_readTarget_iff]
    simp [isOperation_iff, arithmeticKeys, vocabulary, statementKeys]
  · rw [succeeds_map, succeeds_readTarget_iff]
    simp [isOperation_iff, arithmeticKeys, vocabulary, statementKeys]
  · rw [succeeds_map, succeeds_readPrinted_iff]
    simp [isOperation_iff, arithmeticKeys, vocabulary, statementKeys]
  · simp [isOperation_iff, arithmeticKeys, vocabulary]
  · simp [isOperation_iff, arithmeticKeys, vocabulary]
  · split
    · rename_i hdeclare hassign hprint hnot hliteral hop
      have hoperator : key ∉ operatorKeys := (Operator.ofName?_eq_none_iff key).1 hop
      refine iff_of_true (succeeds_ok _) (.unknown ?_)
      simp only [vocabulary, statementKeys, List.mem_append, List.mem_cons, List.not_mem_nil,
        or_false] at hcontrol ⊢
      grind
    · rename_i op hop
      rw [isOperation_operator_iff ((Operator.isSome_ofName?_iff key).1 ⟨op, hop⟩)]
      by_cases hupdate : isUpdate key body = true
      · rw [if_pos hupdate, succeeds_map, succeeds_readTarget_iff]
        obtain ⟨hkey, hvariable⟩ := (isUpdate_iff key body).1 hupdate
        simp only [hkey, hvariable, not_true_eq_false, false_and, or_false, true_and]
      · rw [if_neg hupdate, succeeds_readOperatorStatement_iff place hop]
        rw [isUpdate_iff] at hupdate
        refine and_congr_right fun hkey => ?_
        have hvariable : ¬ body.NamesVariable := fun h => hupdate ⟨hkey, h⟩
        have htarget : ¬ IsTarget body := fun h => hvariable h.namesVariable
        simp only [hvariable, htarget, not_false_eq_true, true_and, false_or]

/-! ## Control operations -/

theorem succeeds_readCount_iff (place : Location) (members : Json.Members) :
    Succeeds (readCount place members) ↔ HasCount members := by
  rw [readCount.eq_def]
  split
  · rename_i j htimes hcount
    rw [Operand.succeeds_read_iff]
    constructor
    · exact .times htimes hcount
    · intro h
      cases h with
      | times h _ hj =>
          cases htimes.symm.trans h
          exact hj
      | count h => cases hcount.symm.trans h
  · rename_i j htimes hcount
    rw [Operand.succeeds_read_iff]
    constructor
    · exact .count hcount htimes
    · intro h
      cases h with
      | times h => cases htimes.symm.trans h
      | count h _ hj =>
          cases hcount.symm.trans h
          exact hj
  · rename_i htimes hcount
    refine iff_of_false (not_succeeds_fail _ _) fun h => ?_
    cases h with
    | times h hother => exact htimes _ h hother
    | count h hother => exact hcount _ hother h

theorem succeeds_readArguments_iff (place : Location) (members : Json.Members) :
    Succeeds (readArguments place members) ↔ ArgumentsOk members := by
  rw [readArguments.eq_def, ArgumentsOk]
  split
  · rename_i items h
    rw [Operand.succeeds_readAll_iff, h]
    constructor
    · rintro hall _ ⟨⟩
      exact ⟨items, rfl, hall⟩
    · intro hall
      obtain ⟨_, ⟨⟩, hitems⟩ := hall _ rfl
      exact hitems
  · rename_i j hno h
    refine iff_of_false (not_succeeds_fail _ _) fun hall => ?_
    obtain ⟨items, rfl, _⟩ := hall j h
    exact hno items rfl
  · rename_i h
    rw [h]
    exact iff_of_true (succeeds_ok _) nofun

theorem succeeds_readCondition_iff (place : Location) (members : Json.Members) :
    Succeeds (readCondition place members) ↔ HasCondition members := by
  rw [readCondition, HasCondition, succeeds_requireMember]
  simp only [Operand.succeeds_read_iff, exists_prop]

theorem succeeds_readCall_iff (place : Location) (body : Json) :
    Succeeds (readCall place body) ↔ IsOperation "call" body := by
  have hcall : IsOperation "call" body ↔ ∃ members, body = .object members ∧
      (∃ j, members.lookup "function" = some j ∧ j.IsString) ∧ ArgumentsOk members := by
    simp [isOperation_iff, arithmeticKeys, vocabulary, statementKeys]
  rw [readCall, hcall]
  refine succeeds_object fun members _ => ?_
  refine succeeds_member (fun j _ => succeeds_requireString _ _ j) fun name => ?_
  rw [succeeds_bind_pure, succeeds_readArguments_iff]

/-! ## Blocks

The blocks of a control operation are read with the readers that are being
characterised, so what is known of them comes in as a hypothesis. -/

theorem succeeds_readOperation_if_iff {place : Location} {body : Json}
    (hthen : ∀ members, body = .object members → ∀ j, members.lookup "then" = some j →
      (Succeeds (read ((place.key "if").key "then") j) ↔ IsBlock j))
    (helse : ∀ members, body = .object members → ∀ j, members.lookup "else" = some j →
      (Succeeds (read ((place.key "if").key "else") j) ↔ IsBlock j)) :
    Succeeds (readOperation place "if" body) ↔ IsOperation "if" body := by
  have hif : IsOperation "if" body ↔ ∃ members, body = .object members ∧
      HasCondition members ∧ (∃ j, members.lookup "then" = some j ∧ IsBlock j) ∧
        ∀ j, members.lookup "else" = some j → IsBlock j := by
    simp [isOperation_iff, arithmeticKeys, vocabulary, statementKeys]
  rw [readOperation, hif]
  refine succeeds_object fun members hmembers => ?_
  rw [← succeeds_readCondition_iff (place.key "if")]
  refine succeeds_bind_const _ _ fun condition _ => ?_
  refine succeeds_member (hthen members hmembers) fun thenBlock => ?_
  dsimp only
  split
  · rename_i j hj
    rw [succeeds_bind_pure, helse members hmembers j hj, hj]
    constructor
    · rintro h _ ⟨⟩
      exact h
    · intro h
      exact h j rfl
  · rename_i hnone
    rw [hnone]
    refine iff_of_true (succeeds_ok _) ?_
    intro j hj
    cases hj

theorem succeeds_readOperation_loop_iff {place : Location} {body : Json}
    (hbody : ∀ members, body = .object members → ∀ j, members.lookup "body" = some j →
      (Succeeds (read ((place.key "loop").key "body") j) ↔ IsBlock j)) :
    Succeeds (readOperation place "loop" body) ↔ IsOperation "loop" body := by
  have hloop : IsOperation "loop" body ↔ ∃ members, body = .object members ∧
      HasCount members ∧ ∃ j, members.lookup "body" = some j ∧ IsBlock j := by
    simp [isOperation_iff, arithmeticKeys, vocabulary, statementKeys]
  rw [readOperation, hloop]
  refine succeeds_object fun members hmembers => ?_
  rw [← succeeds_readCount_iff (place.key "loop")]
  refine succeeds_bind_const _ _ fun count _ => ?_
  exact succeeds_last_member (hbody members hmembers) fun _ => succeeds_pure _

theorem succeeds_readOperation_while_iff {place : Location} {body : Json}
    (hbody : ∀ members, body = .object members → ∀ j, members.lookup "body" = some j →
      (Succeeds (read ((place.key "while").key "body") j) ↔ IsBlock j)) :
    Succeeds (readOperation place "while" body) ↔ IsOperation "while" body := by
  have hwhile : IsOperation "while" body ↔ ∃ members, body = .object members ∧
      HasCondition members ∧ ∃ j, members.lookup "body" = some j ∧ IsBlock j := by
    simp [isOperation_iff, arithmeticKeys, vocabulary, statementKeys]
  rw [readOperation, hwhile]
  refine succeeds_object fun members hmembers => ?_
  rw [← succeeds_readCondition_iff (place.key "while")]
  refine succeeds_bind_const _ _ fun condition _ => ?_
  exact succeeds_last_member (hbody members hmembers) fun _ => succeeds_pure _

/-- Blocks, their statements and the operations in these are read exactly if they
follow the grammar. -/
theorem succeeds_read_and_readOperation :
    (∀ place j, Succeeds (read place j) ↔ IsBlock j) ∧
      (∀ place i items, Succeeds (readStatements place i items) ↔ ∀ j ∈ items, IsStatement j) ∧
      (∀ place j, Succeeds (readStatement place j) ↔ IsStatement j) ∧
      (∀ place members, Succeeds (readOperations place members) ↔
        ∀ m ∈ members, IsOperation m.1 m.2) ∧
      ∀ place key body, Succeeds (readOperation place key body) ↔ IsOperation key body := by
  apply read.mutual_induct
    (fun place j => Succeeds (read place j) ↔ IsBlock j)
    (fun place i items => Succeeds (readStatements place i items) ↔ ∀ j ∈ items, IsStatement j)
    (fun place j => Succeeds (readStatement place j) ↔ IsStatement j)
    (fun place members => Succeeds (readOperations place members) ↔
      ∀ m ∈ members, IsOperation m.1 m.2)
    (fun place key body => Succeeds (readOperation place key body) ↔ IsOperation key body)
  -- Blocks and their items.
  case case1 =>
    intro place items ih
    rw [read, isBlock_array_iff, ih]
  case case2 =>
    intro place j harray
    rw [read]
    · refine iff_of_false (not_succeeds_fail _ _) fun h => ?_
      cases h with
      | intro => exact harray _ rfl
    · exact harray
  case case3 =>
    intro place i
    rw [readStatements_nil]
    exact iff_of_true (succeeds_ok _) (List.forall_mem_nil _)
  case case4 =>
    intro place i j rest ihj ihrest
    rw [readStatements, List.forall_mem_cons, ← ihj, ← ihrest]
    exact succeeds_bind_const _ _ fun _ _ => succeeds_bind_pure _ _
  -- Statement objects and their members.
  case case5 =>
    intro place members ih
    rw [readStatement, isStatement_object_iff, ih]
  case case6 =>
    intro place j hobject
    rw [readStatement]
    · refine iff_of_false (not_succeeds_fail _ _) fun h => ?_
      cases h with
      | intro => exact hobject _ rfl
    · exact hobject
  case case7 =>
    intro place
    rw [readOperations_nil]
    exact iff_of_true (succeeds_ok _) (List.forall_mem_nil _)
  case case8 =>
    intro place key body rest ihbody ihrest
    rw [readOperations, List.forall_mem_cons, ← ihbody, ← ihrest]
    exact succeeds_bind_const _ _ fun _ _ => succeeds_bind_pure _ _
  -- Operations, by their keys.
  case case9 =>
    intro place body _ ihthen ihelse
    exact succeeds_readOperation_if_iff ihthen ihelse
  case case10 =>
    intro place body _ ih
    exact succeeds_readOperation_loop_iff ih
  case case11 =>
    intro place body _ ih
    exact succeeds_readOperation_while_iff ih
  case case12 =>
    intro place body
    rw [readOperation, succeeds_map, succeeds_readCall_iff]
  case case13 =>
    intro place key body hif hloop hwhile hcall
    rw [readOperation]
    · rw [succeeds_map]
      apply succeeds_readAction_iff
      simp only [List.mem_cons, List.not_mem_nil, or_false, not_or]
      exact ⟨hif, hloop, hwhile, hcall⟩
    · exact hif
    · exact hloop
    · exact hwhile
    · exact hcall

theorem succeeds_read_iff (place : Location) (j : Json) : Succeeds (read place j) ↔ IsBlock j :=
  succeeds_read_and_readOperation.1 place j

end Block

open Reading

/-! ## Routines -/

namespace Routine

theorem readParameters_eq_ok_iff (place : Location) (items : List Json) :
    ∀ i names, readParameters place i items = .ok names ↔ items = names.map .string := by
  induction items with
  | nil =>
      intro i names
      cases names with
      | nil => exact iff_of_true rfl rfl
      | cons => exact iff_of_false nofun nofun
  | cons j rest ih =>
      intro i names
      rw [readParameters, bind_eq_ok]
      constructor
      · rintro ⟨name, hname, h⟩
        obtain ⟨more, hmore, h⟩ := (bind_eq_ok _ _ _).1 h
        cases h
        obtain ⟨s, rfl⟩ := (succeeds_requireString _ _ j).1 ⟨name, hname⟩
        cases hname
        rw [List.map_cons, ← (ih (i + 1) more).1 hmore]
      · intro h
        cases names with
        | nil => cases h
        | cons name more =>
            obtain ⟨rfl, hrest⟩ := List.cons.inj h
            exact ⟨name, rfl, (bind_eq_ok _ _ _).2 ⟨more, (ih (i + 1) more).2 hrest, rfl⟩⟩

theorem succeeds_checkDistinct_iff (place : Location) (names : List String) :
    ∀ before, Succeeds (checkDistinct place before names) ↔
      names.Nodup ∧ ∀ name ∈ names, name ∉ before := by
  induction names with
  | nil =>
      intro before
      exact iff_of_true (succeeds_ok _) ⟨.nil, List.forall_mem_nil _⟩
  | cons name rest ih =>
      intro before
      rw [checkDistinct]
      by_cases h : name ∈ before
      · rw [if_pos (List.contains_iff_mem.2 h)]
        refine iff_of_false (not_succeeds_fail _ _) fun hall => ?_
        exact hall.2 name List.mem_cons_self h
      · rw [if_neg (fun hc => h (List.contains_iff_mem.1 hc)), ih]
        simp only [List.nodup_cons, List.forall_mem_cons, List.mem_append, List.mem_singleton,
          not_or, h, not_false_eq_true, true_and]
        constructor
        · rintro ⟨hrest, hall⟩
          exact ⟨⟨fun hmem => (hall name hmem).2 rfl, hrest⟩, fun x hx => (hall x hx).1⟩
        · rintro ⟨⟨hname, hrest⟩, hall⟩
          refine ⟨hrest, fun x hx => ⟨hall x hx, ?_⟩⟩
          rintro rfl
          exact hname hx

theorem succeeds_readParameterList_iff (place : Location) (j : Json) :
    Succeeds (readParameterList place j) ↔
      ∃ names : List String, j = .array (names.map .string) ∧ names.Nodup := by
  rw [readParameterList.eq_def]
  split
  · rename_i items
    rw [succeeds_bind]
    refine exists_congr fun names => ?_
    rw [readParameters_eq_ok_iff, Json.array.injEq]
    refine and_congr_right fun _ => ?_
    rw [succeeds_bind_const _ _ fun _ _ => iff_of_true (succeeds_pure _) trivial,
      succeeds_checkDistinct_iff]
    simp only [List.not_mem_nil, not_false_eq_true, implies_true, and_true]
  · rename_i hno
    refine iff_of_false (not_succeeds_fail _ _) ?_
    rintro ⟨names, rfl, _⟩
    exact hno _ rfl

theorem succeeds_read_iff (place : Location) (name : String) (j : Json) :
    Succeeds (read place name j) ↔ IsDefinition j := by
  have hdefinition : IsDefinition j ↔ ∃ members, j = .object members ∧
      (∃ l, members.lookup "parameters" = some l ∧
        ∃ names : List String, l = .array (names.map .string) ∧ names.Nodup) ∧
      ∃ b, members.lookup "body" = some b ∧ IsBlock b := by
    constructor
    · intro h
      cases h with
      | intro hparameters hdistinct hbody h =>
          exact ⟨_, rfl, ⟨_, hparameters, _, rfl, hdistinct⟩, _, hbody, h⟩
    · rintro ⟨members, rfl, ⟨_, hparameters, names, rfl, hdistinct⟩, b, hbody, h⟩
      exact .intro hparameters hdistinct hbody h
  rw [read, hdefinition]
  refine succeeds_object fun members _ => ?_
  refine succeeds_member (fun l _ => succeeds_readParameterList_iff _ l) fun parameters => ?_
  exact succeeds_last_member (fun b _ => Block.succeeds_read_iff _ b) fun _ => succeeds_pure _

theorem name_of_read {place : Location} {name : String} {j : Json} {r : Routine}
    (h : read place name j = .ok r) : r.name = name := by
  rw [read] at h
  obtain ⟨_, _, h⟩ := (bind_eq_ok _ _ _).1 h
  obtain ⟨_, _, h⟩ := (bind_eq_ok _ _ _).1 h
  obtain ⟨_, _, h⟩ := (bind_eq_ok _ _ _).1 h
  obtain ⟨_, _, h⟩ := (bind_eq_ok _ _ _).1 h
  obtain ⟨_, _, h⟩ := (bind_eq_ok _ _ _).1 h
  cases h
  rfl

end Routine

/-! ## Tables of routines -/

theorem RoutineTable.contains_define? {table table' : RoutineTable} {r : Routine}
    (h : table.define? r = some table') (name : String) :
    table'.routines.contains name = (name == r.name || table.routines.contains name) := by
  simp only [define?, Option.ite_none_left_eq_some, Option.some.injEq] at h
  rw [← h.2]
  simp only [NameMap.contains, NameMap.get?_insert]
  by_cases hn : name = r.name <;> simp [hn]

/-- Under distinct keys that the table does not have yet, no name is taken. -/
theorem RoutineTable.succeeds_readInto_iff (place : Location) (members : Json.Members) :
    ∀ table : RoutineTable, (Json.keys members).Nodup →
      (∀ key ∈ Json.keys members, table.routines.contains key = false) →
      (Succeeds (table.readInto place members) ↔ ∀ m ∈ members, IsDefinition m.2) := by
  induction members with
  | nil =>
      intro table _ _
      exact iff_of_true (succeeds_ok _) (List.forall_mem_nil _)
  | cons m rest ih =>
      obtain ⟨key, content⟩ := m
      intro table hkeys hfresh
      obtain ⟨hkey, hrest⟩ := List.nodup_cons.1 hkeys
      rw [readInto, List.forall_mem_cons, ← Routine.succeeds_read_iff (place.key key) key]
      refine succeeds_bind_const _ _ fun r hr => ?_
      have hname : r.name = key := Routine.name_of_read hr
      split
      · rename_i table' hdefine
        refine ih table' hrest fun k hk => ?_
        rw [contains_define? hdefine, hname, hfresh k (List.mem_cons_of_mem _ hk), Bool.or_false]
        exact beq_false_of_ne fun h => hkey (h ▸ hk)
      · rename_i hdefine
        rw [define?_eq_none_iff, hname, hfresh key List.mem_cons_self] at hdefine
        cases hdefine

/-! ## Documents -/

namespace Program

theorem succeeds_readVariables_iff (place : Location) (members : Json.Members) :
    Succeeds (readVariables place members) ↔ ∀ m ∈ members, m.2.IsScalar := by
  induction members with
  | nil => exact iff_of_true (succeeds_ok _) (List.forall_mem_nil _)
  | cons m rest ih =>
      obtain ⟨name, content⟩ := m
      rw [readVariables, List.forall_mem_cons, ← ih]
      split
      · rename_i hv
        have hscalar := (Json.toValue?_eq_none_iff content).1 hv
        exact iff_of_false (not_succeeds_fail _ _) fun h => hscalar h.1
      · rename_i v hv
        have hscalar := (Json.isSome_toValue?_iff content).1 ⟨v, hv⟩
        rw [succeeds_map]
        exact (and_iff_right hscalar).symm

theorem succeeds_readSection_iff (p : Program) (key : String) {content : Json}
    (h : content.UniqueKeys) : Succeeds (p.readSection key content) ↔ IsSection key content := by
  rw [isSection_iff, readSection.eq_def]
  split
  · simp only [String.reduceEq, true_and, false_and, or_false]
    refine succeeds_object fun members _ => ?_
    rw [succeeds_bind_pure, succeeds_readVariables_iff]
  · simp only [String.reduceEq, true_and, false_and, or_false, false_or]
    refine succeeds_object fun members hmembers => ?_
    rw [hmembers] at h
    rw [succeeds_bind_pure]
    have hkeys := ((Json.uniqueKeys_object_iff members).1 h).1
    exact RoutineTable.succeeds_readInto_iff _ members .empty hkeys fun _ _ => rfl
  · simp only [String.reduceEq, true_and, false_and, false_or]
    rw [succeeds_bind_pure, Block.succeeds_read_iff]
  · rename_i hvariables hfunctions hmain
    refine iff_of_false (not_succeeds_fail _ _) ?_
    rintro (⟨hkey, _⟩ | ⟨hkey, _⟩ | ⟨hkey, _⟩)
    · exact hvariables hkey
    · exact hfunctions hkey
    · exact hmain hkey

theorem succeeds_readSections_iff (sections : Json.Members)
    (h : ∀ m ∈ sections, m.2.UniqueKeys) :
    ∀ p : Program, Succeeds (p.readSections sections) ↔ ∀ m ∈ sections, IsSection m.1 m.2 := by
  induction sections with
  | nil =>
      intro p
      exact iff_of_true (succeeds_ok _) (List.forall_mem_nil _)
  | cons m rest ih =>
      obtain ⟨key, content⟩ := m
      intro p
      obtain ⟨hcontent, hrest⟩ := List.forall_mem_cons.1 h
      rw [readSections, List.forall_mem_cons, ← succeeds_readSection_iff p key hcontent]
      exact succeeds_bind_const _ _ fun p' _ => ih hrest p'

theorem succeeds_ofJson_iff {j : Json} (h : j.UniqueKeys) :
    Succeeds (ofJson j) ↔ IsDocument j := by
  rw [ofJson.eq_def]
  split
  · rename_i items
    rw [succeeds_map, Block.succeeds_read_iff]
    constructor
    · exact .block
    · rintro ⟨h⟩
      exact h
  · rename_i content
    have hcontent : content.UniqueKeys :=
      ((Json.uniqueKeys_object_iff _).1 h).2 _ List.mem_cons_self
    have hdocument : IsDocument (.object [("program", content)]) ↔
        ∃ sections, content = .object sections ∧ ∀ m ∈ sections, IsSection m.1 m.2 := by
      constructor
      · intro hd
        cases hd with
        | block hb => cases hb
        | program hs => exact ⟨_, rfl, hs⟩
      · rintro ⟨sections, rfl, hs⟩
        exact .program hs
    rw [hdocument]
    refine succeeds_object fun sections hsections => ?_
    rw [hsections] at hcontent
    have hsections' := ((Json.uniqueKeys_object_iff sections).1 hcontent).2
    exact succeeds_readSections_iff sections hsections' _
  · rename_i harray hprogram
    refine iff_of_false nofun fun hd => ?_
    cases hd with
    | block hb => cases hb with | intro => exact harray _ rfl
    | program => exact hprogram _ rfl

/-- Loading a tree: the program, or the complaint about the tree. -/
def load (j : Json) : Except Diagnostic Program := (ofJson j).mapError LoadError.toDiagnostic

theorem read_eq_load {refusal : String → String} {text : String} {j : Json}
    (h : Json.read text = .ok j) : read refusal text = load j := by
  rw [read, h]
  rfl

theorem load_eq_ok_iff (j : Json) (p : Program) : load j = .ok p ↔ ofJson j = .ok p :=
  mapError_eq_ok_iff _ _ p

/-- A text of JSON is accepted if its tree follows the grammar. The tree has
unique keys whatever the text repeats. -/
theorem read_succeeds_iff {refusal : String → String} {text : String} {j : Json}
    (h : Json.read text = .ok j) : (∃ p, read refusal text = .ok p) ↔ IsDocument j := by
  rw [read_eq_load h, ← succeeds_ofJson_iff (Json.uniqueKeys_of_read h)]
  exact exists_congr fun p => load_eq_ok_iff j p

/-- The program of the text of a tree is that of the merged tree. -/
theorem read_eq_ok_iff_of_spelledBy {refusal : String → String} {text : String}
    {w : Json} (hw : w.SpelledBy text) (p : Program) :
    read refusal text = .ok p ↔ w.depth ≤ Reader.maxDepth ∧ ofJson w.merged = .ok p := by
  have hread := Json.read_of_spelledBy hw
  by_cases hdepth : w.depth ≤ Reader.maxDepth
  · rw [if_pos hdepth] at hread
    rw [read_eq_load hread, load_eq_ok_iff]
    exact (and_iff_right hdepth).symm
  · rw [if_neg hdepth] at hread
    have hrefused : read refusal text ≠ .ok p := by
      intro h
      rw [read, hread] at h
      cases h
    exact iff_of_false hrefused fun h => hdepth h.1

end Program

/-- The documents are the trees of the grammar; every other tree is malformed. -/
theorem document_accepted_iff {j : Json} (h : j.UniqueKeys) :
    ((∃ p, Program.load j = .ok p) ↔ IsDocument j) ∧
      (¬ IsDocument j →
        ∃ detail place, Program.load j = .error ⟨.malformed detail, place⟩) := by
  have haccepted : (∃ p, Program.load j = .ok p) ↔ IsDocument j := by
    rw [← Program.succeeds_ofJson_iff h]
    exact exists_congr fun p => Program.load_eq_ok_iff j p
  refine ⟨haccepted, fun hno => ?_⟩
  cases hload : Program.load j with
  | ok p => exact absurd (haccepted.1 ⟨p, hload⟩) hno
  | error d =>
      rw [Program.load] at hload
      cases hread : Program.ofJson j with
      | ok p =>
          rw [hread] at hload
          cases hload
      | error e =>
          rw [hread] at hload
          cases hload
          exact ⟨e.malformation.message, e.location, rfl⟩

/-- A program that calls a routine, and a block that computes a value for
nothing. -/
def callingDocument : Json :=
  .object [("program", .object [
    ("functions", .object [("twice", .object [
      ("parameters", .array [.string "x"]),
      ("body", .array [.object [("add", .array [.string "x", .string "x"])]])])]),
    ("main", .array [.object [("call", .object [
      ("function", .string "twice"), ("arguments", .array [.bool true])])]])])]

/-- A block that compares values and drops the answer. -/
def comparingDocument : Json :=
  .array [.object [("equals", .array [.string "x", .string "y"])]]

theorem document_accepted_iff_calling_comparing :
    (∃ p, Program.load callingDocument = .ok p) ∧
      ∃ detail place, Program.load comparingDocument = .error ⟨.malformed detail, place⟩ := by
  have hcalling : callingDocument.UniqueKeys := by
    have hargument : (Json.bool true).UniqueKeys := .scalar trivial
    simp [callingDocument, Json.keys, hargument]
  have hcomparing : comparingDocument.UniqueKeys := by
    simp [comparingDocument, Json.keys]
  have htwice : IsBlock (.array [.object [("add", .array [.string "x", .string "x"])]]) := by
    simp only [isBlock_array_iff, isStatement_object_iff, List.forall_mem_singleton]
    refine .updatePair (by decide) ?_ (.array ⟨_, rfl⟩ (.scalar trivial))
    rintro ⟨_, _, ⟨⟩, _⟩
  have hmain : IsBlock (.array [.object [("call", .object [
      ("function", .string "twice"), ("arguments", .array [.bool true])])]]) := by
    simp only [isBlock_array_iff, isStatement_object_iff, List.forall_mem_singleton]
    refine .call rfl ⟨_, rfl⟩ ?_
    rintro _ ⟨⟩
    exact ⟨_, rfl, List.forall_mem_singleton.2 (.scalar trivial)⟩
  refine ⟨(document_accepted_iff hcalling).1.2 (.program ?_),
    (document_accepted_iff hcomparing).2 ?_⟩
  · have hdistinct : ["x"].Nodup := by decide
    have hdefinition : IsDefinition (.object [("parameters", .array [.string "x"]),
        ("body", .array [.object [("add", .array [.string "x", .string "x"])]])]) :=
      .intro rfl hdistinct rfl htwice
    simp only [List.forall_mem_cons]
    exact ⟨.routines (List.forall_mem_singleton.2 hdefinition), .main hmain, List.forall_mem_nil _⟩
  · rintro ⟨hblock⟩
    rw [comparingDocument] at hblock
    simp only [isBlock_array_iff, isStatement_object_iff, List.forall_mem_singleton] at hblock
    rw [isOperation_operator_iff (by decide)] at hblock
    exact absurd hblock.1 (by decide)

end JsonScript
