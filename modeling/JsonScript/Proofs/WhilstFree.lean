import JsonScript.Proofs.Reach

/-!
# Programs without conditional repetitions end

A repetition that counts its rounds has a number of them once it starts, and
calls are limited in depth. So a program without conditional repetitions ends,
under any limits, however its routines call each other. The depth that is left
goes down with every call; at one depth the syntax that is left gets smaller,
or stays the same while the rounds that are left get fewer.

## Main results

* `Task.Part.shrinks` — parts are smaller, conditional repetitions apart.
* `Runs.exists_of_whilstFree` — tasks without conditional repetitions end.
-/

namespace JsonScript

/-! ## Code without conditional repetitions -/

/-- No operation of the block, at any depth, is a conditional repetition. -/
def WhilstFree (block : List Operation) : Prop :=
  ∀ place condition body, ¬ Occurs (.whilst place condition body) block

/-- No routine has a conditional repetition. -/
def RoutineTable.WhilstFree (table : RoutineTable) : Prop :=
  ∀ name routine, table.find name = .ok routine → JsonScript.WhilstFree routine.body

/-- Neither the main block nor a routine has a conditional repetition. -/
def Program.WhilstFree (p : Program) : Prop :=
  JsonScript.WhilstFree p.main ∧ p.routines.WhilstFree

theorem whilstFree_nil : WhilstFree [] := fun _ _ _ => not_occurs_nil _

theorem whilstFree_cons_iff (op : Operation) (rest : List Operation) :
    WhilstFree (op :: rest) ↔
      (∀ place condition body, op ≠ .whilst place condition body) ∧
        (∀ block ∈ op.blocks, WhilstFree block) ∧ WhilstFree rest := by
  simp only [WhilstFree, occurs_cons_iff, not_or, not_exists, not_and, forall_and]
  refine and_congr ?_ (and_congr_left' ?_)
  · exact forall_congr' fun _ => forall_congr' fun _ => forall_congr' fun _ => ne_comm
  · constructor
    · exact fun h block hblock place condition body => h place condition body block hblock
    · exact fun h place condition body block hblock => h block hblock place condition body

theorem RoutineTable.mem_of_find {table : RoutineTable} {name : String} {routine : Routine}
    (h : table.find name = .ok routine) : (name, routine) ∈ table.routines.entries := by
  rw [RoutineTable.find] at h
  split at h
  · rename_i r hr
    cases h
    obtain ⟨before, after, heq, -⟩ := List.lookup_eq_some_iff.1 hr
    rw [heq]
    exact List.mem_append_right _ List.mem_cons_self
  · cases h

/-! ## What gets smaller -/

/-- The size of the syntax that a task still has before it. -/
noncomputable def Task.size : Task → Nat
  | .block operations => 2 * sizeOf operations
  | .operation op => 2 * sizeOf op + 1
  | .dispatch op => 2 * sizeOf op
  | .times _ _ body | .whilst _ _ body => 2 * sizeOf body + 1

/-- The rounds that a task is known to have before it. -/
def Task.rounds : Task → Nat
  | .times rounds _ _ => rounds
  | _ => 0

/-- A part is smaller than the task, or has fewer rounds, unless it belongs to a
conditional repetition. -/
theorem Task.Part.shrinks {t t' : Task} (h : t.Part t') (hfree : WhilstFree t.code) :
    Prod.Lex (· < ·) (· < ·) (t'.size, t'.rounds) (t.size, t.rounds) := by
  have never {place : Location} {condition : Expr} {body : List Operation}
      (hfree : WhilstFree [.whilst place condition body]) : False :=
    hfree place condition body (.here List.mem_cons_self)
  cases h with
  | operation | rest =>
      refine .left _ _ ?_
      simp only [Task.size, List.cons.sizeOf_spec]
      omega
  | dispatch op => exact .left _ _ (Nat.lt_succ_self _)
  | thenBlock | elseBlock =>
      refine .left _ _ ?_
      simp only [Task.size, Operation.choose.sizeOf_spec]
      omega
  | times =>
      refine .left _ _ ?_
      simp only [Task.size, Operation.times.sizeOf_spec]
      omega
  | round => exact .left _ _ (Nat.lt_succ_self _)
  | rounds rounds => exact .right _ (Nat.lt_succ_self rounds)
  | whilst | body | again => exact absurd hfree never

/-- Tasks without conditional repetitions end, under any limits. -/
theorem Runs.exists_of_whilstFree {t : Task} {m : Machine} (hcode : WhilstFree t.code)
    (hroutines : m.routines.WhilstFree) : ∃ r m', Runs t m r m' := by
  refine Runs.exists_of_measure
    (P := fun t m => WhilstFree t.code ∧ m.routines.WhilstFree)
    (Prod.lex Nat.lt_wfRel (Prod.lex Nat.lt_wfRel Nat.lt_wfRel)).wf
    (fun t m => (m.limits.maxDepth - m.depth, t.size, t.rounds)) ?_ ⟨hcode, hroutines⟩
  intro calls t t' m m' ⟨hcode, hroutines⟩ hl
  have hd := hl.deeper
  have hfree : WhilstFree t'.code := by
    intro place condition body ho
    rcases hl.occurs ho with ho | ⟨name, routine, hfind, ho⟩
    · exact hcode place condition body ho
    · exact hroutines name routine hfind place condition body ho
  refine ⟨⟨hfree, by rw [hd.routines]; exact hroutines⟩, ?_⟩
  show Prod.Lex _ _ (m'.limits.maxDepth - m'.depth, t'.size, t'.rounds) _
  rw [hd.limits, hd.depth]
  rcases hl.part_or_call with ⟨rfl, hpart⟩ | ⟨rfl, _, _, _, _, _, -, hprepared, -, -⟩
  · exact .right _ (hpart.shrinks hcode)
  · have hlt := (Machine.of_prepareCall hprepared).2
    exact .left _ _ (by show m.limits.maxDepth - (m.depth + 1) < m.limits.maxDepth - m.depth; omega)

/-- **Programs without conditional repetitions end.**  Such a program ends on
every machine, whatever the limits, and its main block ends on every machine
that has its routines, whatever was done there before. -/
theorem run_ends_of_whilstFree {p : Program} (h : p.WhilstFree) :
    (∀ m : Machine, ∃ fuel r m', m.run fuel p = .ended r m') ∧
      ∀ m : Machine, m.routines = p.routines →
        ∃ fuel r m', m.runBlock fuel p.main = .ended r m' := by
  have ends (m : Machine) (hm : m.routines = p.routines) :
      ∃ fuel r m', m.runBlock fuel p.main = .ended r m' := by
    obtain ⟨r, m', hr⟩ := Runs.exists_of_whilstFree (t := .block p.main) h.1 (hm ▸ h.2)
    obtain ⟨fuel, hf⟩ := hr.exists_run
    exact ⟨fuel, r, m', hf⟩
  exact ⟨fun m => ends (m.load p) rfl, ends⟩

/-- Two routines that call each other, one of them out of a repetition inside a
branch. -/
def mutualCalls : Program where
  bindings := [("again", .bool true)]
  routines := ⟨.ofList
    [("ping", ⟨"ping", ["again"],
      [.choose (.ofRoot "ping") (.variable "again")
        [.times (.ofRoot "then") (.literal (.number 3))
          [.call (.ofRoot "body") "pong" [.variable "again"]]] []]⟩),
     ("pong", ⟨"pong", ["again"], [.call (.ofRoot "pong") "ping" [.variable "again"]]⟩)]⟩
  main := [.call (.ofRoot "main") "ping" [.variable "again"]]

theorem run_ends_of_whilstFree_mutualCalls :
    mutualCalls.WhilstFree ∧
      (∃ fuel r m', (Machine.start ⟨128, none⟩ .emptyBuffer).run fuel mutualCalls =
        .ended r m') ∧
      let m := { Machine.start ⟨9, none⟩ .silent with
        routines := mutualCalls.routines, depth := 5, steps := 77 }
      ∃ fuel r m', m.runBlock fuel mutualCalls.main = .ended r m' := by
  have hfree : mutualCalls.WhilstFree := by
    refine ⟨?_, fun name routine hfind => ?_⟩
    · simp [mutualCalls, whilstFree_cons_iff, whilstFree_nil, Operation.blocks]
    · have hentries : mutualCalls.routines.routines.entries =
          [("ping", ⟨"ping", ["again"],
            [.choose (.ofRoot "ping") (.variable "again")
              [.times (.ofRoot "then") (.literal (.number 3))
                [.call (.ofRoot "body") "pong" [.variable "again"]]] []]⟩),
           ("pong", ⟨"pong", ["again"],
            [.call (.ofRoot "pong") "ping" [.variable "again"]]⟩)] := rfl
      have hmem := RoutineTable.mem_of_find hfind
      rw [hentries] at hmem
      simp only [List.mem_cons, Prod.mk.injEq, List.not_mem_nil, or_false] at hmem
      rcases hmem with ⟨-, rfl⟩ | ⟨-, rfl⟩ <;>
        simp [whilstFree_cons_iff, whilstFree_nil, Operation.blocks]
  exact ⟨hfree, (run_ends_of_whilstFree hfree).1 _, (run_ends_of_whilstFree hfree).2 _ rfl⟩

end JsonScript
