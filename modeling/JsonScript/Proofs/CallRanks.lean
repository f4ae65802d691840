import JsonScript.Proofs.Faults
import JsonScript.Proofs.WhilstFree

/-!
# Programs without recursion

If the routines of a program can be ranked so that every call in a body is of a
routine of lower rank than the body's own, then no routine comes back to itself, and
the ranks say how many calls can be active at once. Every call that is entered uses
up at least one rank. So if the main block calls only routines ranked below a depth,
what is left to run after some calls were entered calls only routines ranked below
what is left of that depth, and a machine that allows for the depth refuses none of
them.

Only the calls that are open count. Those that were left again, in an earlier round of
a repetition or earlier in a block, do not, since `Reaches` counts along the way to a
task and every way out of a call restores the depth.

## Main results

* `Machine.tooDeep_of_plan` — only a call that is too deep overflows.
* `Program.Ranked.callsBelow_of_reaches` — every call that is entered uses up a rank.
* `run_ne_stackOverflow_of_ranked` — a ranked program never overflows a sufficient depth.
-/

namespace JsonScript

/-! ## Calls that are too deep -/

/-- Only a call of a defined routine overflows, and only where as many calls are active
as the limit allows. -/
theorem Machine.tooDeep_of_plan {t : Task} {m m₁ : Machine} {limit : Nat}
    {location : Option Location}
    (h : m.plan t = .go (.failure ⟨.stackOverflow limit, location⟩) m₁) :
    ∃ place name arguments routine, t = .dispatch (.call place name arguments) ∧
      m.routines.find name = .ok routine ∧ m.limits.maxDepth ≤ m.depth := by
  cases Machine.fails_of_plan h with
  | evaluation fault => exact absurd fault id
  | exhausted exceeded =>
      obtain ⟨_, _, _, hfault⟩ := (m.tick.exhausted?_eq_some_iff _).1 exceeded
      cases hfault
  | @refused place name arguments decided refuses =>
      change m.Refuses name arguments (.stackOverflow limit) at refuses
      cases refuses with
      | depth found _ deep =>
          exact ⟨place, name, arguments, _, Task.eq_call_of_decision decided, found, deep⟩
      | argument _ _ _ _ _ fails => exact absurd (Expr.evaluates_eval _ _ _ fails) id

/-! ## Ranks -/

/-- The routine that an operation calls. -/
def Operation.callee? : Operation → Option String
  | .call _ name _ => some name
  | .act .. | .choose .. | .times .. | .whilst .. => none

/-- Whatever defined routine is called in the block, at any depth, is ranked below the
bound. -/
def RoutineTable.CallsBelow (table : RoutineTable) (rank : String → Nat) (bound : Nat)
    (block : List Operation) : Prop :=
  ∀ op name routine, Occurs op block → op.callee? = some name →
    table.find name = .ok routine → rank name < bound

/-- Routines call routines of lower rank only, and the main block calls routines ranked
below the depth. -/
structure Program.Ranked (p : Program) (rank : String → Nat) (depth : Nat) : Prop where
  main : p.routines.CallsBelow rank depth p.main
  routines : ∀ name routine, p.routines.find name = .ok routine →
    p.routines.CallsBelow rank (rank name) routine.body

theorem RoutineTable.callsBelow_nil (table : RoutineTable) (rank : String → Nat) (bound : Nat) :
    table.CallsBelow rank bound [] :=
  fun _ _ _ ho => absurd ho (not_occurs_nil _)

/-- The calls in a block are its first operation, those in the blocks of that, and those
in the rest. -/
theorem RoutineTable.callsBelow_cons_iff (table : RoutineTable) (rank : String → Nat)
    (bound : Nat) (first : Operation) (rest : List Operation) :
    table.CallsBelow rank bound (first :: rest) ↔
      (∀ name, first.callee? = some name → ∀ routine, table.find name = .ok routine →
        rank name < bound) ∧
      (∀ block ∈ first.blocks, table.CallsBelow rank bound block) ∧
      table.CallsBelow rank bound rest := by
  constructor
  · intro h
    refine ⟨?_, ?_, ?_⟩
    · exact fun name hcallee routine => h first name routine (occurs_cons_iff.2 (.inl rfl)) hcallee
    · exact fun block hblock op name routine ho =>
        h op name routine (occurs_cons_iff.2 (.inr (.inl ⟨block, hblock, ho⟩)))
    · exact fun op name routine ho =>
        h op name routine (occurs_cons_iff.2 (.inr (.inr ho)))
  · rintro ⟨hfirst, hblocks, hrest⟩ op name routine ho hcallee
    rcases occurs_cons_iff.1 ho with rfl | ⟨block, hblock, ho⟩ | ho
    · exact hfirst name hcallee routine
    · exact hblocks block hblock op name routine ho hcallee
    · exact hrest op name routine ho hcallee

section Ranked

variable {p : Program} {rank : String → Nat} {depth : Nat}

/-- Every call that is entered uses up a rank. -/
theorem Program.Ranked.callsBelow_of_reaches (h : p.Ranked rank depth) {m n : Machine}
    (hroutines : m.routines = p.routines) {calls : Nat} {t : Task}
    (hreached : Reaches (.block p.main) m calls t n) :
    p.routines.CallsBelow rank (depth - calls) t.code := by
  induction hreached with
  | start => exact h.main
  | @lead calls entered t₁ t₂ m₁ m₂ hreached hlead ih =>
      rcases hlead.part_or_call with
        ⟨rfl, hpart⟩ | ⟨rfl, place, name, arguments, routine, _, rfl, hprepared, rfl, -⟩
      · exact fun op name routine ho => ih op name routine (hpart.occurs ho)
      · have hfind := (Machine.of_prepareCall hprepared).1
        rw [hreached.deeper.routines, hroutines] at hfind
        have hcaller := ih _ name routine (.here List.mem_cons_self) rfl hfind
        intro op name' routine' ho hcallee hfind'
        have hcalled := h.routines name routine hfind op name' routine' ho hcallee hfind'
        omega

/-- **Without recursion, a sufficient depth is enough.**  Let the routines of a program
be ranked so that the calls in a body, at any depth, are of routines ranked below it or
of none that is defined, and let the main block call only routines ranked below some
number. Then no run of the program on a machine that allows for so many active calls
ends for want of depth, whatever the step limit is and whatever was done before. -/
theorem run_ne_stackOverflow_of_ranked (h : p.Ranked rank depth) {m : Machine}
    (hdepth : depth ≤ m.limits.maxDepth) {fuel : Nat} {r : Option Diagnostic} {n : Machine}
    (hrun : m.run fuel p = .ended r n) (limit : Nat) (location : Option Location) :
    r ≠ some ⟨.stackOverflow limit, location⟩ := by
  rintro rfl
  have hr := Runs.of_run (t := .block p.main) hrun
  obtain ⟨calls, t, m₁, _, hreached, hplan⟩ := hr.exists_failure
  obtain ⟨place, name, arguments, routine, rfl, hfind, hdeep⟩ := Machine.tooDeep_of_plan hplan
  have hframe := hreached.deeper
  have hcalls : m₁.depth = calls := hframe.depth.trans (Nat.zero_add calls)
  rw [hframe.routines] at hfind
  have hbelow := h.callsBelow_of_reaches rfl hreached _ name routine
    (.here List.mem_cons_self) rfl hfind
  rw [hframe.limits, hcalls] at hdeep
  have hlimit : m.limits.maxDepth ≤ calls := hdeep
  omega

end Ranked

/-- Two calls one behind the other of a routine that calls another one in a branch, and
one that nobody has defined in the other branch. -/
def stairs : Program where
  bindings := [("x", .bool true)]
  routines := ⟨.ofList
    [("upper", ⟨"upper", ["x"],
      [.choose (.ofRoot "upper") (.variable "x") [.call (.ofRoot "then") "lower" [.variable "x"]]
        [.call (.ofRoot "else") "cellar" []]]⟩),
     ("lower", ⟨"lower", ["y"], [.act (.ofRoot "lower") (.print [.variable "y"])]⟩)]⟩
  main := [.call (.ofRoot "main") "upper" [.variable "x"],
    .call (.ofRoot "main") "upper" [.variable "x"]]

/-- Ranks of the routines of `stairs`. The name that is not defined has no lower one. -/
def stairRank (name : String) : Nat := if name = "lower" then 0 else 1

theorem ranked_stairs : stairs.Ranked stairRank 2 := by
  have hcellar (routine : Routine) : stairs.routines.find "cellar" ≠ .ok routine := by
    have hundefined : stairs.routines.find "cellar" = .error (.undefinedFunction "cellar") := rfl
    rw [hundefined]
    exact nofun
  refine ⟨?_, fun name routine hfind => ?_⟩
  · simp [stairs, RoutineTable.callsBelow_cons_iff, RoutineTable.callsBelow_nil,
      Operation.callee?, Operation.blocks, stairRank]
  · have hentries : stairs.routines.routines.entries =
        [("lower", ⟨"lower", ["y"], [.act (.ofRoot "lower") (.print [.variable "y"])]⟩),
         ("upper", ⟨"upper", ["x"],
          [.choose (.ofRoot "upper") (.variable "x")
            [.call (.ofRoot "then") "lower" [.variable "x"]]
            [.call (.ofRoot "else") "cellar" []]]⟩)] := rfl
    have hmem := RoutineTable.mem_of_find hfind
    rw [hentries] at hmem
    simp only [List.mem_cons, Prod.mk.injEq, List.not_mem_nil, or_false] at hmem
    rcases hmem with ⟨rfl, rfl⟩ | ⟨rfl, rfl⟩
    · simp [RoutineTable.callsBelow_cons_iff, RoutineTable.callsBelow_nil, Operation.callee?,
        Operation.blocks]
    · simp [RoutineTable.callsBelow_cons_iff, RoutineTable.callsBelow_nil, Operation.callee?,
        Operation.blocks, stairRank, hcellar]

theorem run_ne_stackOverflow_of_ranked_stairs :
    let m (depth : Nat) := Machine.start ⟨depth, some 7⟩ .emptyBuffer
    stairs.Ranked stairRank 2 ∧
      (∃ n, (m 2).run 20 stairs = .ended (some ⟨.stepLimitExceeded 7, some (.ofRoot "lower")⟩) n ∧
        ∀ limit location, some (Diagnostic.mk (.stepLimitExceeded 7) (some (.ofRoot "lower"))) ≠
          some ⟨.stackOverflow limit, location⟩) ∧
      ∃ n, (m 1).run 20 stairs = .ended (some ⟨.stackOverflow 1, some (.ofRoot "then")⟩) n := by
  intro m
  have hrun : (m 2).run 20 stairs =
      .ended (some ⟨.stepLimitExceeded 7, some (.ofRoot "lower")⟩)
        { (m 2).load stairs with sink := .buffer "true\n", steps := 8 } := rfl
  have hdeep := run_ne_stackOverflow_of_ranked ranked_stairs (Nat.le_refl 2) hrun
  exact ⟨ranked_stairs, ⟨_, hrun, hdeep⟩, ⟨_, rfl⟩⟩

end JsonScript
