import JsonScript.Machine.Basic

/-!
# Running blocks

Running a block gives an `Outcome`: the machine after it, or the first fatal
diagnostic together with the machine at that moment. A document may loop for
ever, so running takes fuel, which bounds the depth of the recursion, and a
third outcome says that it ran out. Fuel counts nothing that a program can
observe: a run that ends with some fuel ends in the same way with more.

Every operation counts one step before it does anything. A repetition counts
one more step before each round; a conditional repetition does so after its
condition was found true. A run that has taken more steps than it may ends
with a diagnostic about the place of the operation.

## Main results

* `runBlock_nil`, `runBlock_cons` — a block is run from left to right.
-/

namespace JsonScript

/-- How a run ends. -/
inductive Outcome where
  /-- Everything was run. -/
  | done (machine : Machine)
  /-- A fatal diagnostic ended the run. -/
  | failed (diagnostic : Diagnostic) (machine : Machine)
  /-- The fuel did not suffice. -/
  | outOfFuel
  deriving Inhabited

namespace Machine

mutual

/-- Runs a block. -/
def runBlock : (fuel : Nat) → List Operation → Machine → Outcome
  | 0, _, _ => .outOfFuel
  | _ + 1, [], m => .done m
  | fuel + 1, op :: rest, m =>
      match runOperation fuel op m with
      | .done m' => runBlock fuel rest m'
      | .failed d m' => .failed d m'
      | .outOfFuel => .outOfFuel

/-- Counts a step, then runs an operation. -/
def runOperation : (fuel : Nat) → Operation → Machine → Outcome
  | 0, _, _ => .outOfFuel
  | fuel + 1, op, m =>
      let m := m.tick
      match m.exhausted? with
      | some fault => .failed ⟨fault, some op.place⟩ m
      | none => dispatch fuel op m

/-- Runs an operation whose step is counted. -/
def dispatch : (fuel : Nat) → Operation → Machine → Outcome
  | 0, _, _ => .outOfFuel
  | _ + 1, .act place action, m =>
      match action.effect m.environment with
      | .ok effect => .done (m.commit place effect)
      | .error fault => .failed ⟨fault, some place⟩ m
  | fuel + 1, .choose place condition thenBlock elseBlock, m =>
      match condition.evalCondition m.environment with
      | .ok true => runBlock fuel thenBlock m
      | .ok false => runBlock fuel elseBlock m
      | .error fault => .failed ⟨fault, some place⟩ m
  | fuel + 1, .times place count body, m =>
      match count.evalCount m.environment with
      | .ok n => runTimes fuel n place body m
      | .error fault => .failed ⟨fault, some place⟩ m
  | fuel + 1, .whilst place condition body, m => runWhilst fuel place condition body m
  | fuel + 1, .call place name arguments, m =>
      match m.prepareCall name arguments with
      | .ok (routine, environment) =>
          let caller := m.environment
          match runBlock fuel routine.body (m.enter environment) with
          | .done m' => .done (m'.leave caller)
          | .failed d m' => .failed d (m'.leave caller)
          | .outOfFuel => .outOfFuel
      | .error fault => .failed ⟨fault, some place⟩ m

/-- Runs a block some number of times. -/
def runTimes : (fuel : Nat) → (rounds : Nat) → Location → List Operation → Machine → Outcome
  | 0, _, _, _, _ => .outOfFuel
  | _ + 1, 0, _, _, m => .done m
  | fuel + 1, rounds + 1, place, body, m =>
      let m := m.tick
      match m.exhausted? with
      | some fault => .failed ⟨fault, some place⟩ m
      | none =>
          match runBlock fuel body m with
          | .done m' => runTimes fuel rounds place body m'
          | .failed d m' => .failed d m'
          | .outOfFuel => .outOfFuel

/-- Runs a block as long as a condition holds. -/
def runWhilst : (fuel : Nat) → Location → Expr → List Operation → Machine → Outcome
  | 0, _, _, _, _ => .outOfFuel
  | fuel + 1, place, condition, body, m =>
      match condition.evalCondition m.environment with
      | .error fault => .failed ⟨fault, some place⟩ m
      | .ok false => .done m
      | .ok true =>
          let m := m.tick
          match m.exhausted? with
          | some fault => .failed ⟨fault, some place⟩ m
          | none =>
              match runBlock fuel body m with
              | .done m' => runWhilst fuel place condition body m'
              | .failed d m' => .failed d m'
              | .outOfFuel => .outOfFuel

end

/-! ## Programs -/

/-- Fuel for a run whose end is not to be cut off: deeper than any recursion
that a computer can finish. -/
def ampleFuel : Nat := Nat.pow 2 62

/-- Runs a whole program, forgetting what the machine did before. -/
def run (fuel : Nat) (p : Program) (m : Machine) : Outcome :=
  runBlock fuel p.main (m.load p)

/-! ## Blocks -/

theorem runBlock_nil (fuel : Nat) (m : Machine) : runBlock (fuel + 1) [] m = .done m := rfl

theorem runBlock_cons (fuel : Nat) (op : Operation) (rest : List Operation) (m : Machine) :
    runBlock (fuel + 1) (op :: rest) m =
      match runOperation fuel op m with
      | .done m' => runBlock fuel rest m'
      | .failed d m' => .failed d m'
      | .outOfFuel => .outOfFuel := rfl

end Machine

end JsonScript
