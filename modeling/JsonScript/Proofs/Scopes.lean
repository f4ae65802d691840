import JsonScript.Environment
import JsonScript.Proofs.ByteOrder
import Mathlib.Data.Set.Card

/-!
# Environments in use

Who works with environments has one in use, and holds those that were in use when other
scopes were entered. One is written and read, scopes are entered, and saved environments
are taken up again (`Scopes.serve`).

All that can be seen of this is told by records of what was written in each scope, from
first to last. A record only grows. It says which names are bound and to what: to the last
value that was written (`WriteLog.last?`). `Scopes.record` keeps such records in place of the
environments, and that is enough to answer every request.

## Main results

* `Environment.holds_ofList` — what an environment shows is what the record of its writes says.
* `Scopes.serveAll_map_ofList` — environments answer all requests as the records do.
* `scopes_hold_last_writes` — the two together, failures that change nothing, and scopes
  that are entered and left.
-/

namespace JsonScript

/-! ## Requests -/

/-- What can be asked for. -/
inductive ScopeRequest where
  /-- Other bindings, the later of two winning. -/
  | bind (bindings : List (String × Value))
  | declare (name : String) (v : Value)
  | assign (name : String) (v : Value)
  | update (name : String) (v : Value)
  | get (name : String)
  | clear
  /-- A scope that starts with some bindings. What is in use now is saved. -/
  | enter (bindings : List (String × Value))
  /-- What was saved when a scope was entered. Scopes are counted from `0`. -/
  | leave (scope : Nat)

/-- A value if one was asked for, or a fault. -/
abbrev ScopeAnswer := Except Fault (Option Value)

/-- What is in use, and what was saved when scopes were entered, the oldest first. -/
structure Scopes (σ : Type) where
  current : σ
  saved : List σ

namespace Scopes

variable {σ τ : Type}

/-- Saves what is in use and starts something else. -/
def enter (s : Scopes σ) (fresh : σ) : Scopes σ := ⟨fresh, s.saved ++ [s.current]⟩

/-- Takes up again what was saved. Nothing changes if there was no such scope. -/
def leave (s : Scopes σ) (scope : Nat) : Scopes σ :=
  { s with current := s.saved[scope]?.getD s.current }

/-- Something else in the place of everything. -/
def map (f : σ → τ) (s : Scopes σ) : Scopes τ := ⟨f s.current, s.saved.map f⟩

/-- Answers requests one after the other. -/
def serveAll (serve : Scopes σ → ScopeRequest → ScopeAnswer × Scopes σ) (s : Scopes σ) :
    List ScopeRequest → List ScopeAnswer × Scopes σ
  | [] => ([], s)
  | request :: rest =>
      let (answer, s') := serve s request
      let (answers, s'') := serveAll serve s' rest
      (answer :: answers, s'')

/-! ## Environments -/

/-- Uses the environment that a write has given, if it has given one. -/
def settle (s : Scopes Environment) : Except Fault Environment → ScopeAnswer × Scopes Environment
  | .ok env => (.ok none, { s with current := env })
  | .error fault => (.error fault, s)

/-- Answers a request from environments. -/
def serve (s : Scopes Environment) : ScopeRequest → ScopeAnswer × Scopes Environment
  | .bind bindings => (.ok none, { s with current := .ofList bindings })
  | .declare name v => (.ok none, { s with current := s.current.declare name v })
  | .assign name v => s.settle (s.current.assign name v)
  | .update name v => s.settle (s.current.update name v)
  | .get name => ((s.current.get name).map some, s)
  | .clear => (.ok none, { s with current := .empty })
  | .enter bindings => (.ok none, s.enter (.ofList bindings))
  | .leave scope => (.ok none, s.leave scope)

end Scopes

/-! ## Records of writes -/

/-- What was written in a scope, from first to last. -/
abbrev WriteLog := List (String × Value)

/-- The last value that was written to a name; none if the name is not bound. -/
def WriteLog.last? (w : WriteLog) (name : String) : Option Value := w.reverse.lookup name

namespace Scopes

/-- Notes a write to a name that must be bound, or gives a fault. -/
def rewrite (s : Scopes WriteLog) (name : String) (v : Value) (unbound : Fault) :
    ScopeAnswer × Scopes WriteLog :=
  match s.current.last? name with
  | some _ => (.ok none, { s with current := s.current ++ [(name, v)] })
  | none => (.error unbound, s)

/-- Answers a request from records. -/
def record (s : Scopes WriteLog) : ScopeRequest → ScopeAnswer × Scopes WriteLog
  | .bind bindings => (.ok none, { s with current := bindings })
  | .declare name v => (.ok none, { s with current := s.current ++ [(name, v)] })
  | .assign name v => s.rewrite name v (.undeclaredAssignment name)
  | .update name v => s.rewrite name v (.undefinedVariable name)
  | .get name =>
      match s.current.last? name with
      | some v => (.ok (some v), s)
      | none => (.error (.undefinedVariable name), s)
  | .clear => (.ok none, { s with current := [] })
  | .enter bindings => (.ok none, s.enter bindings)
  | .leave scope => (.ok none, s.leave scope)

end Scopes

/-- The request asks for the value of a name that is not bound, or for a write that needs
the name to be bound. -/
inductive ScopeRequest.FailsOn (w : WriteLog) : ScopeRequest → Fault → Prop where
  | assign {name : String} (unbound : w.last? name = none) (v : Value) :
      FailsOn w (.assign name v) (.undeclaredAssignment name)
  | update {name : String} (unbound : w.last? name = none) (v : Value) :
      FailsOn w (.update name v) (.undefinedVariable name)
  | get {name : String} (unbound : w.last? name = none) :
      FailsOn w (.get name) (.undefinedVariable name)

/-- What the environment shows is what the record says. -/
structure Environment.Holds (env : Environment) (w : WriteLog) : Prop where
  get?_eq : ∀ name, env.get? name = w.last? name
  get_ok : ∀ name v, env.get name = .ok v ↔ w.last? name = some v
  get_error : ∀ name fault,
    env.get name = .error fault ↔ w.last? name = none ∧ fault = .undefinedVariable name
  /-- The size is the number of bound names. -/
  size_eq : env.size = {name | w.last? name ≠ none}.ncard
  /-- Bindings are listed with strictly increasing bytes of their names. -/
  ascending : (env.toList.map fun b => bytes b.1).Pairwise (· < ·)
  /-- Those of bound names are listed, and no others. -/
  listed : ∀ name v, (name, v) ∈ env.toList ↔ w.last? name = some v
  /-- No name is listed twice. -/
  once : ∀ name, w.last? name ≠ none → (env.toList.map Prod.fst).count name = 1

/-! ## Environments and records -/

namespace Environment

theorem ofList_append_singleton (w : WriteLog) (name : String) (v : Value) :
    ofList (w ++ [(name, v)]) = (ofList w).declare name v := by
  simp only [ofList, NameMap.ofList, List.foldl_append]
  rfl

/-- What is bound is what was written, with the last value. -/
theorem get?_ofList_eq_last? (w : WriteLog) (name : String) :
    (ofList w).get? name = w.last? name := by
  induction w using List.reverseRecOn with
  | nil => rfl
  | append_singleton w b ih =>
      rw [ofList_append_singleton, get?_declare, ih, WriteLog.last?, WriteLog.last?,
        List.reverse_append, List.reverse_singleton, List.singleton_append,
        NameMap.lookup_cons_eq_ite]

theorem mem_toList_iff (env : Environment) (name : String) (v : Value) :
    (name, v) ∈ env.toList ↔ env.get? name = some v :=
  (NameMap.lookup_eq_some_iff_mem env.bindings.nodup_names name v).symm

theorem mem_names_iff (env : Environment) (name : String) :
    name ∈ env.toList.map Prod.fst ↔ env.get? name ≠ none := by
  rw [Option.ne_none_iff_exists', List.mem_map]
  constructor
  · rintro ⟨⟨_, v⟩, hmem, rfl⟩
    exact ⟨v, (mem_toList_iff ..).1 hmem⟩
  · rintro ⟨v, hv⟩
    exact ⟨(name, v), (mem_toList_iff ..).2 hv, rfl⟩

theorem get_eq_error_iff (env : Environment) (name : String) (fault : Fault) :
    env.get name = .error fault ↔ env.get? name = none ∧ fault = .undefinedVariable name := by
  rw [get]
  cases env.get? name <;> simp [eq_comm]

theorem get_eq_ok_iff (env : Environment) (name : String) (v : Value) :
    env.get name = .ok v ↔ env.get? name = some v := by
  rw [get]
  cases env.get? name <;> simp

theorem size_eq_ncard (env : Environment) : env.size = {name | env.get? name ≠ none}.ncard := by
  have hnodup : (env.toList.map Prod.fst).Nodup := env.bindings.nodup_names
  have hnames : {name | env.get? name ≠ none} = (env.toList.map Prod.fst).toFinset := by
    ext name
    rw [List.coe_toFinset, Set.mem_ofPred_eq, Set.mem_ofPred_eq, mem_names_iff]
  rw [hnames, Set.ncard_coe_finset, List.toFinset_card_of_nodup hnodup, List.length_map]
  rfl

/-- What an environment shows is what the record of its writes says. -/
theorem holds_ofList (w : WriteLog) : (ofList w).Holds w where
  get?_eq := get?_ofList_eq_last? w
  get_ok name v := by rw [get_eq_ok_iff, get?_ofList_eq_last?]
  get_error name fault := by rw [get_eq_error_iff, get?_ofList_eq_last?]
  size_eq := by
    rw [size_eq_ncard]
    simp only [get?_ofList_eq_last?]
  ascending := List.pairwise_map.2 ((ofList w).bindings.ascending.imp bytes_lt_bytes)
  listed name v := by rw [mem_toList_iff, get?_ofList_eq_last?]
  once name hbound := by
    have hmem := (mem_names_iff (ofList w) name).2 (get?_ofList_eq_last? w name ▸ hbound)
    exact List.count_eq_one_of_mem (ofList w).bindings.nodup_names hmem

end Environment

namespace Scopes

theorem map_leave {σ τ : Type} (f : σ → τ) (s : Scopes σ) (scope : Nat) :
    (s.leave scope).map f = (s.map f).leave scope := by
  simp only [leave, map, List.getElem?_map, Option.getD_map]

/-- A write that needs the name to be bound is noted exactly if it is made. -/
theorem settle_rebind (s : Scopes WriteLog) (name : String) (v : Value) (unbound : Fault) :
    (s.map .ofList).settle ((Environment.ofList s.current).rebind name v unbound) =
      ((s.rewrite name v unbound).1, (s.rewrite name v unbound).2.map .ofList) := by
  have hbound : (Environment.ofList s.current).contains name = (s.current.last? name).isSome :=
    congrArg Option.isSome (Environment.get?_ofList_eq_last? s.current name)
  rw [Environment.rebind_eq_ite, hbound, rewrite]
  cases s.current.last? name with
  | none => rfl
  | some _ =>
      simp only [Option.isSome_some, if_true, settle, map, Environment.ofList_append_singleton]

/-- Environments answer one request as the records do. -/
theorem serve_map_ofList (s : Scopes WriteLog) (request : ScopeRequest) :
    (s.map .ofList).serve request = ((s.record request).1, (s.record request).2.map .ofList) := by
  cases request with
  | bind | clear => rfl
  | declare name v =>
      simp only [serve, record, map, Environment.ofList_append_singleton]
  | assign name v => exact settle_rebind s name v _
  | update name v => exact settle_rebind s name v _
  | get name =>
      have hget := Environment.get?_ofList_eq_last? s.current name
      simp only [serve, record, map, Environment.get, hget]
      cases s.current.last? name <;> rfl
  | enter bindings => simp only [serve, record, enter, map, List.map_append, List.map_singleton]
  | leave scope => simp only [serve, record, map_leave]

/-- Environments answer all requests as the records do. -/
theorem serveAll_map_ofList (requests : List ScopeRequest) (s : Scopes WriteLog) :
    (s.map .ofList).serveAll serve requests =
      ((s.serveAll record requests).1, (s.serveAll record requests).2.map .ofList) := by
  induction requests generalizing s with
  | nil => rfl
  | cons request rest ih => simp only [serveAll, serve_map_ofList, ih]

/-! ## Failures and scopes -/

theorem settle_of_error {s : Scopes Environment} {r : Except Fault Environment} {fault : Fault}
    (h : (s.settle r).1 = .error fault) : (s.settle r).2 = s := by
  cases r with
  | ok env => cases h
  | error _ => rfl

/-- A request that fails changes nothing. -/
theorem serve_of_error {s : Scopes Environment} {request : ScopeRequest} {fault : Fault}
    (h : (s.serve request).1 = .error fault) : (s.serve request).2 = s := by
  cases request with
  | assign name v | update name v => exact settle_of_error h
  | get name => rfl
  | bind | declare | clear | enter | leave => cases h

theorem rewrite_eq_error_iff (s : Scopes WriteLog) (name : String) (v : Value)
    (unbound fault : Fault) :
    (s.rewrite name v unbound).1 = .error fault ↔
      s.current.last? name = none ∧ fault = unbound := by
  rw [rewrite]
  cases s.current.last? name <;> simp [eq_comm]

theorem record_eq_error_iff (s : Scopes WriteLog) (request : ScopeRequest) (fault : Fault) :
    (s.record request).1 = .error fault ↔ request.FailsOn s.current fault := by
  constructor
  · intro h
    cases request with
    | assign name v =>
        obtain ⟨hunbound, rfl⟩ := (rewrite_eq_error_iff ..).1 h
        exact .assign hunbound v
    | update name v =>
        obtain ⟨hunbound, rfl⟩ := (rewrite_eq_error_iff ..).1 h
        exact .update hunbound v
    | get name =>
        rw [record] at h
        cases hlast : s.current.last? name with
        | none =>
            rw [hlast] at h
            cases h
            exact .get hlast
        | some v =>
            rw [hlast] at h
            cases h
    | bind | declare | clear | enter | leave => cases h
  · rintro (⟨hunbound, v⟩ | ⟨hunbound, v⟩ | hunbound)
    · exact (rewrite_eq_error_iff ..).2 ⟨hunbound, rfl⟩
    · exact (rewrite_eq_error_iff ..).2 ⟨hunbound, rfl⟩
    · rw [record, hunbound]

/-- What was saved stays saved. -/
theorem saved_prefix_serve (s : Scopes Environment) (request : ScopeRequest) :
    s.saved <+: (s.serve request).2.saved := by
  have hsettle (r : Except Fault Environment) : s.saved <+: (s.settle r).2.saved := by
    cases r <;> exact List.prefix_rfl
  cases request with
  | assign | update => exact hsettle _
  | enter bindings => exact List.prefix_append _ _
  | bind | declare | get | clear | leave => exact List.prefix_rfl

theorem saved_prefix_serveAll (requests : List ScopeRequest) (s : Scopes Environment) :
    s.saved <+: (s.serveAll serve requests).2.saved := by
  induction requests generalizing s with
  | nil => exact List.prefix_rfl
  | cons request rest ih => exact (saved_prefix_serve s request).trans (ih _)

/-- Leaving a scope restores what was in use when it was entered. -/
theorem current_leave_enter (s : Scopes Environment) (bindings : WriteLog)
    (inner : List ScopeRequest) :
    let entered := (s.serve (.enter bindings)).2
    ((entered.serveAll serve inner).2.leave s.saved.length).current = s.current := by
  intro entered
  obtain ⟨more, hmore⟩ := saved_prefix_serveAll inner entered
  have hsaved : (entered.serveAll serve inner).2.saved[s.saved.length]? = some s.current := by
    rw [← hmore]
    simp [entered, serve, enter]
  rw [leave, hsaved, Option.getD_some]

end Scopes

/-- **Environments are finite maps with saved scopes.**  After any requests, all answers
were those of the records, and the environment in use shows what the record of its scope
says: which names are bound, to the last value written to each, how many there are, and
all of them once in the order of their bytes. A request fails exactly on a name that is
not bound, with the fault of its kind, and then changes nothing. A scope that is entered,
filled with any requests and left again restores the environment from before. -/
theorem scopes_hold_last_writes (requests : List ScopeRequest) :
    let served := Scopes.serveAll Scopes.serve ⟨.empty, []⟩ requests
    let recorded := Scopes.serveAll Scopes.record ⟨[], []⟩ requests
    let s := served.2
    let w := recorded.2.current
    served.1 = recorded.1 ∧
    s.current.Holds w ∧
    (∀ request fault, (s.serve request).1 = .error fault ↔ request.FailsOn w fault) ∧
    (∀ request fault, (s.serve request).1 = .error fault → (s.serve request).2 = s) ∧
    ∀ bindings inner,
      let entered := (s.serve (.enter bindings)).2
      let inside := (entered.serveAll Scopes.serve inner).2
      (inside.serve (.leave s.saved.length)).2.current = s.current := by
  intro served recorded s w
  have hserved : served = (recorded.1, recorded.2.map .ofList) :=
    Scopes.serveAll_map_ofList requests ⟨[], []⟩
  have hs : s = recorded.2.map .ofList := congrArg Prod.snd hserved
  refine ⟨congrArg Prod.fst hserved, ?_, fun request fault => ?_,
    fun request fault => Scopes.serve_of_error, Scopes.current_leave_enter s⟩
  · rw [hs]
    exact Environment.holds_ofList w
  · rw [hs, Scopes.serve_map_ofList]
    exact Scopes.record_eq_error_iff recorded.2 request fault

end JsonScript
