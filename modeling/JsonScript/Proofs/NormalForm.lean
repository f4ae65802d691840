import JsonScript.Proofs.OperationSources
import JsonScript.Proofs.Origins

/-!
# Loaded programs are in normal form

The types of programs allow more than documents can say. A routine might be kept
under a name that is not its own, a parameter might come twice, and an update
might use an operator that gives no number. None of this is ever loaded
(`Program.Normal`), because every operation of a loaded program was read from a
key, and the reader of actions looks at the key first.

Running relies on it. A call pairs parameters and values one by one and binds
the pairs. Only if no parameter comes twice has the body as many variables as
there are parameters, and each of them its own value. And only arithmetic leaves
a number behind in what it updates.

## Main results

* `Block.actionOf_of_readAction` — what the reader of actions makes of a key.
* `Program.normal_of_ofJson` — loaded programs are in normal form.
* `Machine.binds_of_prepareCall` — a call binds its parameters one by one.
* `Runs.number_of_update` — an update leaves a number.
* `normal_of_load` — loaded programs and their runs.
-/

namespace JsonScript

open Reading

/-! ## Actions -/

namespace Block

/-- What the reader of actions can make of a key. Only arithmetic updates what it
finds, and a key is unknown only if nobody else takes it. -/
inductive ActionOf : String → Action → Prop where
  | declare (name : String) (value : Expr) : ActionOf "declare" (.declare name value)
  | assign (name : String) (value : Expr) : ActionOf "assign" (.assign name value)
  | print (values : List Expr) : ActionOf "print" (.print values)
  | update {key : String} {op : Operator} (hop : Operator.ofName? key = some op)
      (harithmetic : op.isArithmetic = true) (name : String) (value : Expr) :
      ActionOf key (.update op name value)
  | unknown {key : String} (hoperator : key ∉ operatorKeys)
      (hother : key ∉ ["declare", "assign", "print", "not", "literal"]) :
      ActionOf key (.unknown key)

theorem actionOf_of_readAction {place : Location} {key : String} {body : Json} {action : Action}
    (h : readAction place key body = .ok action) : ActionOf key action := by
  rw [readAction_eq] at h
  split at h
  case h_1 =>
    obtain ⟨⟨name, value⟩, _, rfl⟩ := (map_eq_ok_iff ..).1 h
    exact .declare name value
  case h_2 =>
    obtain ⟨⟨name, value⟩, _, rfl⟩ := (map_eq_ok_iff ..).1 h
    exact .assign name value
  case h_3 =>
    obtain ⟨values, _, rfl⟩ := (map_eq_ok_iff ..).1 h
    exact .print values
  case h_4 | h_5 => cases h
  case h_6 hdeclare hassign hprint hnot hliteral =>
    split at h
    · rename_i hop
      cases h
      refine .unknown ((Operator.ofName?_eq_none_iff key).1 hop) ?_
      simp only [List.mem_cons, List.not_mem_nil, or_false, not_or]
      exact ⟨hdeclare, hassign, hprint, hnot, hliteral⟩
    · rename_i op hop
      split at h
      · rename_i hupdate
        obtain ⟨⟨name, value⟩, _, rfl⟩ := (map_eq_ok_iff ..).1 h
        have harithmetic := (Operator.isArithmetic_iff hop).2 ((isUpdate_iff key body).1 hupdate).1
        exact .update hop harithmetic name value
      · by_cases harithmetic : op.isArithmetic = true
        · obtain ⟨name, value, _, rfl⟩ :=
            (readOperatorStatement_eq_ok_iff place harithmetic _ _).1 h
          exact .update hop harithmetic name value
        · rw [readOperatorStatement, if_neg harithmetic] at h
          cases h

/-- Only arithmetic updates. -/
theorem ActionOf.isArithmetic {key name : String} {op : Operator} {value : Expr}
    (h : ActionOf key (.update op name value)) : op.isArithmetic = true := by
  cases h with
  | update _ harithmetic => exact harithmetic

/-- Nothing that anybody knows becomes an unknown operation. -/
theorem ActionOf.not_mem_vocabulary {key key' : String} (h : ActionOf key (.unknown key'))
    (hcontrol : key ∉ ["if", "loop", "while", "call"]) : key' ∉ vocabulary := by
  cases h with
  | unknown hoperator hother =>
      simp only [vocabulary, statementKeys, List.mem_append, List.mem_cons, List.not_mem_nil,
        or_false] at hcontrol hother ⊢
      tauto

/-- Actions are read from keys that are no control operations. -/
theorem readAction_of_readOperation {place place' : Location} {key : String} {body : Json}
    {action : Action} (h : readOperation place key body = .ok (.act place' action)) :
    key ∉ ["if", "loop", "while", "call"] ∧ readAction (place.key key) key body = .ok action := by
  have hcontrol : key ∉ ["if", "loop", "while", "call"] := by
    simp only [List.mem_cons, List.not_mem_nil, or_false]
    rintro (rfl | rfl | rfl | rfl)
    · obtain ⟨_, _, _, _, _, _, _, _, h⟩ := (readOperation_if_eq_ok_iff ..).1 h
      cases h
    · obtain ⟨_, _, _, _, _, _, h⟩ := (readOperation_loop_eq_ok_iff ..).1 h
      cases h
    · obtain ⟨_, _, _, _, _, _, h⟩ := (readOperation_while_eq_ok_iff ..).1 h
      cases h
    · rw [readOperation_call] at h
      obtain ⟨_, _, h⟩ := (map_eq_ok_iff ..).1 h
      cases h
  rw [readOperation_act place body hcontrol] at h
  obtain ⟨action', haction, h⟩ := (map_eq_ok_iff ..).1 h
  cases h
  exact ⟨hcontrol, haction⟩

end Block

/-! ## Routines -/

namespace Routine

theorem nodup_of_readParameterList {place : Location} {j : Json} {names : List String}
    (h : readParameterList place j = .ok names) : names.Nodup := by
  rw [readParameterList.eq_def] at h
  split at h
  · obtain ⟨names', _, h⟩ := (bind_eq_ok _ _ _).1 h
    obtain ⟨u, hdistinct, h⟩ := (bind_eq_ok _ _ _).1 h
    cases h
    exact ((succeeds_checkDistinct_iff place names []).1 ⟨u, hdistinct⟩).1
  · cases h

theorem nodup_parameters_of_read {place : Location} {name : String} {j : Json} {r : Routine}
    (h : read place name j = .ok r) : r.parameters.Nodup := by
  obtain ⟨_, _, _, ⟨_, _, hparameters⟩, _, _, rfl⟩ := (read_eq_ok_iff ..).1 h
  exact nodup_of_readParameterList hparameters

end Routine

/-! ## Programs -/

/-- The names of the routines in a document. -/
def Json.routineNames (document : Json) : List String :=
  match document.node? (.ofRoot "functions") with
  | some (.object members) => keys members
  | _ => []

namespace Program

/-- A program is in normal form, with routines of these names. -/
structure Normal (p : Program) (names : List String) : Prop where
  /-- Every routine is kept under its own name. -/
  named : ∀ name r, p.routines.find name = .ok r → r.name = name
  /-- The parameters of a routine are all different. -/
  parameters : ∀ name r, p.routines.find name = .ok r → r.parameters.Nodup
  /-- There are routines of these names and no others. -/
  listed : ∀ name, (∃ r, p.routines.find name = .ok r) ↔ name ∈ names
  /-- No variable is bound twice at the start. -/
  bindings : (p.bindings.map Prod.fst).Nodup
  /-- Updates are arithmetic. -/
  updates : ∀ root block, p.Body root block → ∀ place op name e,
    Occurs (.act place (.update op name e)) block → op.isArithmetic = true
  /-- Unknown keys are outside the vocabulary. -/
  unknowns : ∀ root block, p.Body root block → ∀ place key,
    Occurs (.act place (.unknown key)) block → key ∉ vocabulary

/-- The actions of a loaded program were read from keys. -/
theorem Body.readAction {j : Json} {p : Program} (hunique : j.UniqueKeys)
    (hload : ofJson j = .ok p) {root : Location} {block : List Operation} (h : p.Body root block)
    {place : Location} {action : Action} (ho : Occurs (.act place action) block) :
    ∃ place key body, key ∉ ["if", "loop", "while", "call"] ∧
      Block.readAction place key body = .ok action := by
  rcases h.read hunique hload with ⟨node, _, hread⟩ | rfl
  · obtain ⟨steps, key, body, hmade⟩ := exists_madeFrom_of_occurs ho hread
    obtain ⟨_, _, hop⟩ := hmade.readOperation hread
    obtain ⟨hcontrol, haction⟩ := Block.readAction_of_readOperation hop
    exact ⟨_, key, body, hcontrol, haction⟩
  · exact absurd ho (not_occurs_nil _)

/-- Loaded programs are in normal form. -/
theorem normal_of_ofJson {j : Json} {p : Program} (hunique : j.UniqueKeys)
    (hload : ofJson j = .ok p) : p.Normal j.routineNames := by
  have hroutines := routines_of_ofJson hunique hload
  have hempty : ∀ name r, RoutineTable.empty.find name ≠ .ok r := nofun
  have hread : ∀ name r, p.routines.find name = .ok r →
      ∃ place content, Routine.read place name content = .ok r := by
    intro name r h
    rcases hroutines with ⟨members, _, hkeys, hroutines⟩ | ⟨_, hnone⟩
    · obtain ⟨content, _, hr⟩ := (hroutines.find_eq_ok_iff hkeys name r).1 h
      exact ⟨_, content, hr⟩
    · exact absurd (hnone ▸ h) (hempty name r)
  constructor
  case named =>
    intro name r h
    obtain ⟨_, _, hr⟩ := hread name r h
    exact Routine.name_of_read hr
  case parameters =>
    intro name r h
    obtain ⟨_, _, hr⟩ := hread name r h
    exact Routine.nodup_parameters_of_read hr
  case listed =>
    intro name
    rcases hroutines with ⟨members, hnode, hkeys, hroutines⟩ | ⟨hnode, hnone⟩
    · rw [Json.routineNames, hnode]
      exact hroutines.exists_find_iff hkeys name
    · rw [Json.routineNames, hnode, hnone]
      exact iff_of_false (fun ⟨r, hr⟩ => hempty name r hr) List.not_mem_nil
  case bindings => exact nodup_names_of_ofJson hunique hload
  case updates =>
    intro root block h place op name e ho
    obtain ⟨_, _, _, _, haction⟩ := h.readAction hunique hload ho
    exact (Block.actionOf_of_readAction haction).isArithmetic
  case unknowns =>
    intro root block h place key ho
    obtain ⟨_, _, _, hcontrol, haction⟩ := h.readAction hunique hload ho
    exact (Block.actionOf_of_readAction haction).not_mem_vocabulary hcontrol

end Program

/-! ## Calls -/

section Pairs

variable {names : List String} {vs : List Value} (hnames : names.Nodup)
  (hlength : names.length = vs.length)
include hnames hlength

theorem nodup_names_zip : ((names.zip vs).map Prod.fst).Nodup := by
  rwa [List.map_fst_zip (Nat.le_of_eq hlength)]

/-- Different names keep all their values. -/
theorem Environment.size_ofList_zip : (Environment.ofList (names.zip vs)).size = names.length := by
  have hsize := NameMap.size_ofList (nodup_names_zip hnames hlength)
  rwa [List.length_zip, ← hlength, Nat.min_self] at hsize

/-- Each name keeps its own value. -/
theorem Environment.get?_ofList_zip {i : Nat} {name : String} {v : Value}
    (hname : names[i]? = some name) (hv : vs[i]? = some v) :
    (Environment.ofList (names.zip vs)).get? name = some v := by
  have hzip := nodup_names_zip hnames hlength
  have hmem : (name, v) ∈ names.zip vs :=
    List.mem_of_getElem? (List.getElem?_zip_eq_some.2 ⟨hname, hv⟩)
  exact (NameMap.get?_ofList hzip name).trans
    ((NameMap.lookup_eq_some_iff_mem hzip name v).2 hmem)

end Pairs

/-- The variables are those parameters, each bound to the value that its argument
has for the caller. -/
structure Environment.BindsEach (env caller : Environment) (parameters : List String)
    (arguments : List Expr) : Prop where
  arity : arguments.length = parameters.length
  size : env.size = parameters.length
  values : ∀ (i : Nat) parameter argument, parameters[i]? = some parameter →
    arguments[i]? = some argument →
      ∃ v, argument.eval caller = .ok v ∧ env.get? parameter = some v

/-- A call binds its parameters one by one. -/
theorem Machine.binds_of_prepareCall {m : Machine} {name : String} {arguments : List Expr}
    {r : Routine} {environment : Environment}
    (h : m.prepareCall name arguments = .ok (r, environment)) (hnames : r.parameters.Nodup) :
    environment.BindsEach m.environment r.parameters arguments := by
  obtain ⟨-, harity, -, vs, hargs, rfl⟩ := Machine.prepareCall_eq_ok_iff.1 h
  have hvalues := List.forall₂_iff_get.1 (Expr.evalAll_eq_ok_iff.1 hargs)
  have hlength : r.parameters.length = vs.length := harity.trans hvalues.1
  refine ⟨harity.symm, Environment.size_ofList_zip hnames hlength, ?_⟩
  intro i parameter argument hparameter hargument
  obtain ⟨hi, hargument⟩ := List.getElem?_eq_some_iff.1 hargument
  have hi' : i < vs.length := hvalues.1 ▸ hi
  have hv := hvalues.2 i hi hi'
  rw [List.get_eq_getElem, hargument] at hv
  exact ⟨_, hv, Environment.get?_ofList_zip hnames hlength hparameter
    (List.getElem?_eq_getElem hi')⟩

/-! ## Updates -/

/-- An arithmetic update that notes nothing leaves a number. -/
theorem Runs.number_of_update {place : Location} {op : Operator} {name : String} {e : Expr}
    {m m' : Machine} (harithmetic : op.isArithmetic = true)
    (h : Runs (.operation (.act place (.update op name e))) m none m')
    (hsilent : m'.warnings = m.warnings) : ∃ x, m'.environment.get? name = some (.number x) := by
  rcases Runs.operation_iff.1 h with ⟨_, _, ⟨⟩, _⟩ | ⟨_, hrun⟩
  rcases Runs.act_iff.1 hrun with ⟨_, _, ⟨⟩, _⟩ | ⟨effect, heffect, _, rfl⟩
  cases hbound : m.tick.environment.contains name with
  | false =>
      rw [Action.effect_update_of_unbound e hbound] at heffect
      cases heffect
      -- The warning would be one too many.
      exact absurd (congrArg Array.size hsilent) (by simp [Machine.commit, Machine.warn, Machine.tick])
  | true =>
      rw [Action.effect_update_of_contains e hbound, Action.effect_assign_of_contains _ hbound]
        at heffect
      cases hv : (Expr.binary op (.variable name) e).eval m.tick.environment with
      | error fault =>
          rw [hv] at heffect
          cases heffect
      | ok v =>
          rw [hv] at heffect
          cases heffect
          obtain ⟨_, _, _, _, happly⟩ := (Expr.eval_binary_eq_ok_iff ..).1 hv
          obtain ⟨_, _, x, rfl⟩ := Operator.exists_numbers_of_isArithmetic harithmetic happly
          exact ⟨x, by simp [Machine.commit]⟩

/-! ## Runs of loaded programs -/

/-- The operations that a run of the program comes to stand in its blocks. -/
theorem Program.exists_body_of_runnable {p : Program} {m : Machine} {op : Operation}
    (h : (m.load p).Runnable p.main op) : ∃ root block, p.Body root block ∧ Occurs op block := by
  cases h with
  | inBlock ho => exact ⟨_, _, .main, ho⟩
  | inRoutine found ho => exact ⟨_, _, .routine found, ho⟩

/-- **Loaded programs are in normal form, and calls bind positionally.**  Every
routine of a loaded program is kept under its own name, which is one of those in
the document, with parameters that are all different; no variable is bound twice
at the start; updates are arithmetic, and unknown keys are really unknown. So
whenever a run of the program enters a call, the body starts with as many
variables as there are parameters, and each parameter has the value of its own
argument; and whenever an update ends without a warning, its variable has a
number. -/
theorem normal_of_load {j : Json} {p : Program} (hunique : j.UniqueKeys)
    (hload : Program.load j = .ok p) :
    p.Normal j.routineNames ∧
    ∀ (m : Machine) calls t m₁, Reaches (.block p.main) (m.load p) calls t m₁ →
      (∀ t' m₂, Leads 1 t m₁ t' m₂ → ∃ place name arguments r,
        t = .dispatch (.call place name arguments) ∧ p.routines.find name = .ok r ∧
          t' = .block r.body ∧
          m₂.environment.BindsEach m₁.environment r.parameters arguments) ∧
      ∀ place op name e m₂, t = .operation (.act place (.update op name e)) →
        Runs t m₁ none m₂ → m₂.warnings = m₁.warnings →
          ∃ x, m₂.environment.get? name = some (.number x) := by
  rw [Program.load_eq_ok_iff] at hload
  have hnormal := Program.normal_of_ofJson hunique hload
  refine ⟨hnormal, fun m calls t m₁ hreached => ⟨fun t' m₂ hlead => ?_, ?_⟩⟩
  · rcases hlead.part_or_call with
      ⟨⟨⟩, _⟩ | ⟨_, place, name, arguments, r, environment, rfl, hprepared, rfl, rfl⟩
    have hfind := (Machine.of_prepareCall hprepared).1
    rw [hreached.deeper.routines] at hfind
    have hnames := hnormal.parameters name r hfind
    exact ⟨place, name, arguments, r, rfl, hfind, rfl,
      Machine.binds_of_prepareCall hprepared hnames⟩
  · rintro place op name e m₂ rfl hrun hsilent
    obtain ⟨root, block, hbody, ho⟩ := Program.exists_body_of_runnable hreached.over_runnable
    exact hrun.number_of_update (hnormal.updates root block hbody place op name e ho) hsilent

/-- A routine that updates its first parameter, and a call of it. -/
def bindingDocument : Json :=
  .object [("program", .object [
    ("functions", .object [("f", .object [
      ("parameters", .array [.string "x", .string "y"]),
      ("body", .array [.object [("add", .array [.string "x", .string "y"])]])])]),
    ("main", .array [.object [("call", .object [
      ("function", .string "f"), ("arguments", .array [.null, .bool true])])]])])]

/-- The routine of the document. -/
def bindingRoutine : Routine :=
  ⟨"f", ["x", "y"], [.act ((((Location.ofRoot "functions").key "f").key "body").item 0)
    (.update .add "x" (.variable "y"))]⟩

/-- The call of the document. -/
def bindingCall : Operation :=
  .call ((Location.ofRoot "main").item 0) "f" [.literal .null, .literal (.bool true)]

/-- The program of the document. -/
def bindingProgram : Program := ⟨[], ⟨.ofList [("f", bindingRoutine)]⟩, [bindingCall]⟩

theorem uniqueKeys_bindingDocument : bindingDocument.UniqueKeys := by
  have htrue : (Json.bool true).UniqueKeys := .scalar trivial
  have hnull : Json.null.UniqueKeys := .scalar trivial
  simp [bindingDocument, Json.keys, htrue, hnull]

theorem load_bindingDocument : Program.load bindingDocument = .ok bindingProgram := by
  have hnull : Denotes .null (.literal .null) := .scalar rfl (by rintro ⟨_, ⟨⟩⟩)
  have htrue : Denotes (.bool true) (.literal (.bool true)) := .scalar rfl (by rintro ⟨_, ⟨⟩⟩)
  have hadd : ∀ place : Location,
      Block.readOperation place "add" (.array [.string "x", .string "y"]) =
        .ok (.act place (.update .add "x" (.variable "y"))) := by
    intro place
    have hvariable : ¬ (Json.array [.string "x", .string "y"]).NamesVariable := by
      rintro ⟨_, _, ⟨⟩, _⟩
    have hpair : DenotesPair (.array [.string "x", .string "y"]) (.variable "x")
      (.variable "y") := ⟨_, _, .array _ _, .variable "x", .variable "y"⟩
    rw [Block.readOperation_act place _ (by decide),
      (Block.readAction_arithmetic_eq_ok_iff _ rfl (by decide) _ _).2
        ⟨_, _, .inr ⟨hvariable, hpair⟩, rfl⟩]
    rfl
  have hbody : Block.read (((Location.ofRoot "functions").key "f").key "body")
      (.array [.object [("add", .array [.string "x", .string "y"])]]) =
        .ok bindingRoutine.body := by
    simp only [Block.read, Block.readStatements, Block.readStatement, Block.readOperations, hadd]
    rfl
  have hcall : Block.readOperation ((Location.ofRoot "main").item 0) "call" (.object [
      ("function", .string "f"), ("arguments", .array [.null, .bool true])]) =
        .ok bindingCall := by
    have hread := (Block.readCall_eq_ok_iff (((Location.ofRoot "main").item 0).key "call")
      (.object [("function", .string "f"), ("arguments", .array [.null, .bool true])]) "f"
      [.literal .null, .literal (.bool true)]).2
      ⟨_, rfl, ⟨_, rfl, rfl⟩, .inl ⟨_, rfl, _, rfl, .cons hnull (.cons htrue .nil)⟩⟩
    rw [Block.readOperation_call, hread]
    rfl
  have hmain : Block.read (.ofRoot "main") (.array [.object [("call", .object [
      ("function", .string "f"), ("arguments", .array [.null, .bool true])])]]) =
        .ok bindingProgram.main := by
    simp only [Block.read, Block.readStatements, Block.readStatement, Block.readOperations, hcall]
    rfl
  have hroutine : Routine.read ((Location.ofRoot "functions").key "f") "f" (.object [
      ("parameters", .array [.string "x", .string "y"]),
      ("body", .array [.object [("add", .array [.string "x", .string "y"])]])]) =
        .ok bindingRoutine :=
    (Routine.read_eq_ok_iff ..).2 ⟨_, rfl, _, ⟨_, rfl, rfl⟩, _, ⟨_, rfl, hbody⟩, rfl⟩
  rw [Program.load_eq_ok_iff, Program.ofJson_eq_ok_iff uniqueKeys_bindingDocument]
  exact .inr ⟨_, rfl, by decide, .inr ⟨rfl, rfl⟩, .inl ⟨_, rfl, _, rfl, [_], .cons hroutine .nil,
    rfl⟩, .inl ⟨_, rfl, hmain⟩⟩

/-- The call enters the routine with both parameters bound. -/
theorem normal_of_load_binding :
    bindingDocument.UniqueKeys ∧ Program.load bindingDocument = .ok bindingProgram ∧
      bindingProgram.Normal ["f"] ∧
      ∃ m₁ m₂, Leads 1 (.dispatch bindingCall) m₁ (.block bindingRoutine.body) m₂ ∧
        m₂.environment.BindsEach m₁.environment ["x", "y"]
          [.literal .null, .literal (.bool true)] := by
  obtain ⟨hnormal, hruns⟩ := normal_of_load uniqueKeys_bindingDocument load_bindingDocument
  let m := (Machine.start ⟨5, none⟩ .silent).load bindingProgram
  have hreached : Reaches (.block bindingProgram.main) m 0 (.dispatch bindingCall) m.tick :=
    (Reaches.start.lead (.first rfl)).lead (.go rfl)
  have hlead : Leads 1 (.dispatch bindingCall) m.tick (.block bindingRoutine.body) _ := .call rfl
  obtain ⟨_, _, _, r, hcall, hfind, hbody, hbinds⟩ := (hruns _ _ _ _ hreached).1 _ _ hlead
  cases hcall
  cases hfind
  exact ⟨uniqueKeys_bindingDocument, load_bindingDocument, hnormal, m.tick, _, hlead, hbinds⟩

end JsonScript
