import JsonScript.Proofs.Complaints
import JsonScript.Proofs.EvaluationOrder

/-!
# Fallbacks that are never needed

Some look-ups are made where an earlier one leaves no doubt about the outcome. A key whose
body makes it an update in place is an operator; so is a key that may stand for a value,
unless it is `not` or `literal`; a scalar has a value; the keys of an object are all
different, and so are the names of routines; and a variable that is bound is still bound when
its new value is known.

The readers have words for the case that such a look-up misses nevertheless
(`Malformation.IsFallback`). They are never needed: whatever a reader complains about is a flaw
of the tree, and a flaw is of another kind. That no other complaint happens to be worded like a
fallback is seen from the first letters of the wordings, but for the one that starts with the
name of a node, where the last letter tells.

## Main results

* `Json.Flawed.not_isFallback` — no flaw of a tree is a look-up that misses.
* `Malformation.message_ne` — no other complaint is worded like a fallback.
* `Environment.update_of_updated` — an update with a result is carried out.
* `fallbacks_unreachable` — no fallback is needed.
-/

namespace JsonScript

/-! ## Fallbacks -/

/-- What there is to complain about when a look-up misses what was seen before: the operator of
an update in place, that of a key that may stand for a value, the value of a scalar, or room
for a routine in a table. -/
def Malformation.IsFallback : Malformation → Prop
  | .unknownUpdate | .unknownOperator _ | .unrepresentableNumber | .definedTwice _ => True
  | _ => False

/-- The diagnostic has the words of a fallback. -/
def Diagnostic.IsFallback (d : Diagnostic) : Prop :=
  ∃ m : Malformation, m.IsFallback ∧ d.fault = .malformed m.message

/-! ## Flaws -/

namespace Malformation

variable {m : Malformation} {j : Json}

/-- No node is itself a look-up that misses. -/
theorem IsOf.not_isFallback (h : m.IsOf j) : ¬ m.IsFallback := by
  intro hfallback
  cases m with
  | unknownUpdate | unknownOperator | unrepresentableNumber | definedTwice => exact h
  | _ => exact hfallback

theorem IsOfMember.not_isFallback {key : String} (h : m.IsOfMember key j) : ¬ m.IsFallback := by
  intro hfallback
  cases m with
  | unknownUpdate | unknownOperator | unrepresentableNumber | definedTwice => exact h
  | _ => exact hfallback

end Malformation

/-- No flaw of a tree is a look-up that misses. -/
theorem Json.Flawed.not_isFallback {m : Malformation} {j : Json} {steps : List Step}
    (h : j.Flawed m steps) : ¬ m.IsFallback := by
  induction h with
  | here h => exact h.not_isFallback
  | member _ h => exact h.not_isFallback
  | repeated _ _ _ hm =>
      rw [hm]
      exact id
  | down _ _ ih => exact ih

/-! ## Words -/

namespace Malformation

/-- How the texts of fallbacks start. -/
def openings : List (List Char) :=
  ["unknown up".toList, "unknown op".toList, "unrepresen".toList, "function '".toList]

theorem take_message_mem_openings {m : Malformation} (h : m.IsFallback) :
    m.message.toList.take 10 ∈ openings := by
  cases m with
  | unknownUpdate | unrepresentableNumber =>
      simp only [message.eq_def]
      decide
  | unknownOperator key =>
      have hopening : ("unknown operator '" ++ key ++ "'").toList.take 10 =
          "unknown op".toList := by
        simp
      simp only [message.eq_def]
      rw [hopening]
      decide
  | definedTwice name =>
      have hopening : ("function '" ++ name ++ "' defined twice").toList.take 10 =
          "function '".toList := by
        simp
      simp only [message.eq_def]
      rw [hopening]
      decide
  | _ => cases h

theorem getLast?_message_ne {m : Malformation} (h : m.IsFallback) :
    m.message.toList.getLast? ≠ some 't' := by
  cases m with
  | unknownUpdate | unrepresentableNumber =>
      simp only [message.eq_def]
      decide
  | unknownOperator key =>
      simp only [message.eq_def]
      rw [String.toList_append, List.getLast?_append_of_ne_nil _ (by decide)]
      decide
  | definedTwice name =>
      simp only [message.eq_def]
      rw [String.toList_append, List.getLast?_append_of_ne_nil _ (by decide)]
      decide
  | _ => cases h

/-- A text that starts as no fallback does. -/
theorem take_append_not_mem_openings {text : String}
    (h : ∀ opening ∈ openings, ¬ text.toList.take 10 <+: opening) (rest : String) :
    (text ++ rest).toList.take 10 ∉ openings := by
  intro hmem
  refine h _ hmem ?_
  rw [String.toList_append, List.take_append]
  exact List.prefix_append ..

theorem take_message_not_mem_openings {m : Malformation} (hobject : ∀ what, m ≠ .notAnObject what)
    (h : ¬ m.IsFallback) : m.message.toList.take 10 ∉ openings := by
  cases m with
  | notAnObject what => exact absurd rfl (hobject what)
  | unknownUpdate | unknownOperator | unrepresentableNumber | definedTwice =>
      exact absurd trivial h
  | unexpectedSection | missingField | duplicateParameter | unusedValue | updateAsValue
  | noValue =>
      simp only [message.eq_def]
      rw [String.append_assoc]
      exact take_append_not_mem_openings (by decide) _
  | notADocument | notAnInput | variableNotScalar | parametersNotArray | parameterNotString
  | notABlock | notOneCount | functionNameNotString | argumentsNotArray | targetNotString
  | arrayAsValue | notOneKey | literalNotScalar | notTwoOperands =>
      simp only [message.eq_def]
      decide

/-- No other complaint has the words of a fallback. -/
theorem message_ne {m fallback : Malformation} (hm : ¬ m.IsFallback)
    (hfallback : fallback.IsFallback) : m.message ≠ fallback.message := by
  intro h
  by_cases hobject : ∃ what, m = .notAnObject what
  · obtain ⟨what, rfl⟩ := hobject
    refine getLast?_message_ne hfallback ?_
    simp only [← h, message.eq_def]
    rw [String.toList_append, List.getLast?_append]
    rfl
  · refine take_message_not_mem_openings (not_exists.1 hobject) hm ?_
    rw [h]
    exact take_message_mem_openings hfallback

end Malformation

/-! ## Complaints -/

theorem LoadError.not_isFallback {e : LoadError} (h : ¬ e.malformation.IsFallback) :
    ¬ e.toDiagnostic.IsFallback := by
  rintro ⟨m, hm, hwords⟩
  exact Malformation.message_ne h hm (Fault.malformed.inj hwords)

/-- A reader that complains about flaws needs no fallback. -/
theorem Reading.Complains.not_isFallback {α : Type} {x : Reading α} {place : Location} {j : Json}
    (hx : x.Complains place j) {e : LoadError} (he : x = .error e) :
    ¬ e.malformation.IsFallback := by
  obtain ⟨steps, -, hflaw⟩ := hx e he
  exact hflaw.not_isFallback

theorem Block.not_isFallback_of_readAction {place : Location} {key : String} {body : Json}
    {e : LoadError} (h : readAction (place.key key) key body = .error e) :
    ¬ e.malformation.IsFallback := by
  have hlookup : List.lookup key [(key, body)] = some body := by
    rw [List.lookup_cons_self]
  exact (complains_readAction hlookup).not_isFallback h

/-- Documents. -/
theorem Program.not_isFallback_of_ofJson {j : Json} {e : LoadError} (hunique : j.UniqueKeys)
    (h : ofJson j = .error e) : ¬ e.malformation.IsFallback := by
  rcases pointsInto_ofJson hunique h with ⟨_, _, _, _, _, _, hflaw⟩ | ⟨rfl, -, -⟩
  · exact hflaw.not_isFallback
  · exact id

/-- Lines of input. -/
theorem Block.not_isFallback_of_ofInput {j : Json} {e : LoadError} (hunique : j.UniqueKeys)
    (h : ofInput j = .error e) : ¬ e.malformation.IsFallback := by
  cases j with
  | array items => exact (complains_read hunique _).not_isFallback h
  | object members =>
      exact (complains_read_and_readOperation.2.2.1 _ _ hunique).not_isFallback h
  | null | bool | number | string =>
      cases h
      exact id

/-- What is said about a complaint of a reader that needs no fallback. -/
theorem Reading.not_isFallback_of_mapError {α : Type} {x : Reading α} {d : Diagnostic}
    (hx : ∀ e, x = .error e → ¬ e.malformation.IsFallback)
    (h : x.mapError LoadError.toDiagnostic = .error d) : ¬ d.IsFallback := by
  cases x with
  | ok a => cases h
  | error e =>
      cases h
      exact LoadError.not_isFallback (hx e rfl)

/-- A text that is no JSON text is told so in words of its own kind. -/
theorem Diagnostic.not_isFallback_of_invalidJson {detail : String} {place : Option Location} :
    ¬ IsFallback ⟨.invalidJson detail, place⟩ := by
  rintro ⟨m, -, hwords⟩
  cases hwords

/-- The text of a document. -/
theorem Program.not_isFallback_of_read {refusal : String → String} {text : String}
    {d : Diagnostic} (h : read refusal text = .error d) : ¬ d.IsFallback := by
  cases hread : Json.read text with
  | error e =>
      rw [read, hread] at h
      cases h
      exact Diagnostic.not_isFallback_of_invalidJson
  | ok j =>
      rw [read_eq_load hread] at h
      exact Reading.not_isFallback_of_mapError
        (fun e => not_isFallback_of_ofJson (Json.uniqueKeys_of_read hread)) h

/-- The text of a line of input. -/
theorem Block.not_isFallback_of_readInput {refusal : String → String} {text : String}
    {d : Diagnostic} (h : readInput refusal text = .error d) : ¬ d.IsFallback := by
  rw [readInput] at h
  cases hread : Json.read text with
  | error e =>
      rw [hread] at h
      cases h
      exact Diagnostic.not_isFallback_of_invalidJson
  | ok j =>
      rw [hread] at h
      exact Reading.not_isFallback_of_mapError
        (fun e => not_isFallback_of_ofInput (Json.uniqueKeys_of_read hread)) h

/-! ## Updates -/

theorem Operator.complaint_ne_undefinedVariable (op : Operator) (left right : Value)
    (name : String) : op.complaint left right ≠ .undefinedVariable name := by
  rw [complaint.eq_def]
  split <;> exact nofun

/-- An expression misses only variables that are not bound. -/
theorem Expr.not_bound_of_eval {env : Environment} {e : Expr} {name : String}
    (h : e.eval env = .error (.undefinedVariable name)) : env.contains name = false := by
  have hfirst := ((decides_eval env e).eq_error_iff _).1 h
  generalize e.nodes = nodes, hfault : Fault.undefinedVariable name = fault at hfirst
  induction hfirst with
  | here hfails rest =>
      cases hfails with
      | «variable» unbound =>
          cases hfault
          exact unbound
      | binary _ _ _ =>
          exact absurd hfault.symm (Operator.complaint_ne_undefinedVariable _ _ _ name)
      | not _ _ => cases hfault
  | later _ _ ih => exact ih hfault

namespace Environment

variable {env : Environment} {op : Operator} {name : String} {e : Expr} {v : Value}

/-- What an update in place is about to write. -/
def updated (env : Environment) (op : Operator) (name : String) (e : Expr) :
    Except Fault Value := do
  let current ← env.get name
  let operand ← e.eval env
  op.apply current operand

theorem updated_eq_eval (env : Environment) (op : Operator) (name : String) (e : Expr) :
    env.updated op name e = (Expr.binary op (.variable name) e).eval env := rfl

/-- Nothing that an update of a bound variable computes can miss that variable. -/
theorem updated_ne_undefinedVariable (h : env.contains name = true) :
    env.updated op name e ≠ .error (.undefinedVariable name) := by
  intro hmissed
  rw [updated_eq_eval] at hmissed
  cases (Expr.not_bound_of_eval hmissed).symm.trans h

/-- The write at the end of an update finds its variable bound. -/
theorem update_of_updated (h : env.updated op name e = .ok v) :
    env.update name v = .ok (env.declare name v) := by
  rcases env.get_eq name with ⟨w, hw, -⟩ | ⟨-, hget⟩
  · have hbound : env.contains name = true := Option.isSome_iff_exists.2 ⟨w, hw⟩
    rw [update, rebind_eq_ite, if_pos hbound]
  · rw [updated, hget] at h
    cases h

/-- An update of a bound variable fails only where the value to be written does. -/
theorem effect_update_eq_map (h : env.contains name = true) :
    (Action.update op name e).effect env =
      (env.updated op name e).map fun v => .become (env.declare name v) := by
  rw [Action.effect_update_of_contains e h, Action.effect_assign_of_contains _ h]
  rfl

end Environment

/-- An update that fails has a bound variable, but no value to write. -/
theorem Machine.failed_update {fuel : Nat} {place : Location} {op : Operator} {name : String}
    {e : Expr} {n n' : Machine} {d : Diagnostic}
    (h : n.dispatch fuel (.act place (.update op name e)) = .failed d n') :
    n' = n ∧ d.location = some place ∧ n.environment.contains name = true ∧
      n.environment.updated op name e = .error d.fault := by
  cases fuel with
  | zero => cases h
  | succ fuel =>
      rw [dispatch] at h
      by_cases hbound : n.environment.contains name = true
      · rw [Environment.effect_update_eq_map hbound] at h
        cases hupdated : n.environment.updated op name e with
        | ok v =>
            rw [hupdated] at h
            cases h
        | error fault =>
            rw [hupdated] at h
            cases h
            exact ⟨rfl, rfl, hbound, rfl⟩
      · rw [Action.effect, if_neg hbound] at h
        cases h

/-! ## All of it -/

/-- **No fallback is needed.** The readers of values and of actions, which look at keys and
scalars a second time with words for what they might miss, never use these words, wherever in
whatever tree they read. The same holds of whole documents and lines of input, given as trees
whose objects have different keys or as any texts; there the name of a routine is not taken
either. An update of a bound variable whose operand has a value that suits the operator writes
the result, in every environment; an update that fails, on any machine, fails because there is
no result, and never because its variable is missing. -/
theorem fallbacks_unreachable :
    (∀ place j e, Operand.read place j = .error e → ¬ e.toDiagnostic.IsFallback) ∧
    (∀ (place : Location) (key : String) (body : Json) (e : LoadError),
      Block.readAction (place.key key) key body = .error e → ¬ e.toDiagnostic.IsFallback) ∧
    (∀ (j : Json) (d : Diagnostic), j.UniqueKeys →
      Program.load j = .error d ∨
          (Block.ofInput j).mapError LoadError.toDiagnostic = .error d → ¬ d.IsFallback) ∧
    (∀ (refusal : String → String) (text : String) (d : Diagnostic),
      Program.read refusal text = .error d ∨ Block.readInput refusal text = .error d →
        ¬ d.IsFallback) ∧
    (∀ (env : Environment) (op : Operator) (name : String) (e : Expr),
      env.contains name = true →
        (Action.update op name e).effect env =
            (env.updated op name e).map (fun v => .become (env.declare name v)) ∧
          ∀ v, env.updated op name e = .ok v →
            env.update name v = .ok (env.declare name v)) ∧
    (∀ (fuel : Nat) (place : Location) (op : Operator) (name : String) (e : Expr)
      (n n' : Machine) (d : Diagnostic),
      n.dispatch fuel (.act place (.update op name e)) = .failed d n' →
        n.environment.updated op name e = .error d.fault ∧
          d.fault ≠ .undefinedVariable name) := by
  refine ⟨?values, ?actions, ?trees, ?texts, ?updates, ?failures⟩
  case values =>
    exact fun place j e h =>
      LoadError.not_isFallback ((Operand.complains_read place j).not_isFallback h)
  case actions =>
    exact fun place key body e h =>
      LoadError.not_isFallback (Block.not_isFallback_of_readAction h)
  case trees =>
    rintro j d hunique (h | h)
    · exact Reading.not_isFallback_of_mapError
        (fun e => Program.not_isFallback_of_ofJson hunique) h
    · exact Reading.not_isFallback_of_mapError
        (fun e => Block.not_isFallback_of_ofInput hunique) h
  case texts =>
    rintro refusal text d (h | h)
    · exact Program.not_isFallback_of_read h
    · exact Block.not_isFallback_of_readInput h
  case updates =>
    exact fun env op name e h => ⟨Environment.effect_update_eq_map h, fun v =>
      Environment.update_of_updated⟩
  case failures =>
    intro fuel place op name e n n' d h
    obtain ⟨-, -, hbound, hfault⟩ := Machine.failed_update h
    refine ⟨hfault, fun hmissed => ?_⟩
    rw [hmissed] at hfault
    exact Environment.updated_ne_undefinedVariable hbound hfault

/-- An array that stands for a value, and one that an update writes; a negation that is computed
for nothing, in a tree and in a text; a variable that grows by two; and one that cannot grow by
a string. -/
theorem fallbacks_unreachable_unusedNot :
    (∃ e, Operand.read (.ofRoot "input") (.array []) = .error e ∧
      ¬ e.toDiagnostic.IsFallback) ∧
    (∃ e, Block.readAction ((Location.ofRoot "input").key "not") "not" (.string "x") = .error e ∧
      ¬ e.toDiagnostic.IsFallback) ∧
    (Json.object [("not", .string "x")]).UniqueKeys ∧
    (∃ d, (Block.ofInput (.object [("not", .string "x")])).mapError LoadError.toDiagnostic =
      .error d ∧ ¬ d.IsFallback) ∧
    (∃ d, Block.readInput id "\x7b\"not\": \"x\"\x7d" = .error d ∧ ¬ d.IsFallback) ∧
    (∃ (env : Environment) (v : Value), env.contains "x" = true ∧
      env.updated .add "x" (.literal (.number 2)) = .ok v ∧
      env.update "x" v = .ok (env.declare "x" v)) ∧
    (∃ (n : Machine) (d : Diagnostic), n.environment.contains "x" = true ∧
      n.dispatch 1 (.act (.ofRoot "main") (.update .add "x" (.literal (.string "a")))) =
        .failed d n ∧
      d.fault ≠ .undefinedVariable "x") := by
  let env : Environment := .ofList [("x", .number 1)]
  let n : Machine := { Machine.start default .silent with environment := env }
  obtain ⟨hvalues, hactions, htrees, htexts, hupdates, hfailures⟩ := fallbacks_unreachable
  have hunique : (Json.object [("not", .string "x")]).UniqueKeys := by
    have hscalar : (Json.string "x").UniqueKeys := .scalar trivial
    simp [Json.keys, hscalar]
  have hvalue := Operand.read_array (.ofRoot "input") []
  have haction : Block.readAction ((Location.ofRoot "input").key "not") "not" (.string "x") =
      .error ⟨.unusedValue "not", some ⟨"input", [.key "not"]⟩⟩ := by
    rw [Block.readAction_eq]
    rfl
  have htree : (Block.ofInput (.object [("not", .string "x")])).mapError LoadError.toDiagnostic =
      .error (LoadError.toDiagnostic ⟨.unusedValue "not", some ⟨"input", [.key "not"]⟩⟩) := by
    have hinput : Block.ofInput (.object [("not", .string "x")]) =
        .error ⟨.unusedValue "not", some ⟨"input", [.key "not"]⟩⟩ := by cbv
    rw [hinput]
    rfl
  have hread : Json.read "\x7b\"not\": \"x\"\x7d" = .ok (.object [("not", .string "x")]) := by cbv
  have htext : Block.readInput id "\x7b\"not\": \"x\"\x7d" =
      .error (LoadError.toDiagnostic ⟨.unusedValue "not", some ⟨"input", [.key "not"]⟩⟩) := by
    rw [Block.readInput, hread]
    exact htree
  have hbound : env.contains "x" = true := by decide
  have hupdated : env.updated .add "x" (.literal (.number 2)) = .ok (.number (1 + 2)) := rfl
  have hfailed : n.dispatch 1 (.act (.ofRoot "main") (.update .add "x" (.literal (.string "a")))) =
      .failed ⟨.typeMismatch "numbers" "number and string", some (.ofRoot "main")⟩ n := rfl
  exact ⟨⟨_, hvalue, hvalues _ _ _ hvalue⟩, ⟨_, haction, hactions _ _ _ _ haction⟩, hunique,
    ⟨_, htree, htrees _ _ hunique (.inr htree)⟩, ⟨_, htext, htexts _ _ _ (.inr htext)⟩,
    ⟨env, _, hbound, hupdated, (hupdates env _ _ _ hbound).2 _ hupdated⟩,
    ⟨n, _, hbound, hfailed, (hfailures _ _ _ _ _ _ _ _ hfailed).2⟩⟩

end JsonScript
