import FormalMachines.Declaration
import FormalMachines.Json.Fields
import FormalMachines.Run.Budget

/-!
# FormalMachines.Turing.Basic

Turing machines with one tape, one accepting and one rejecting state.
-/

namespace FormalMachines.Turing

/-- Where the head goes. -/
inductive Direction where
  | left
  | right
  deriving DecidableEq, Repr

namespace Direction

def name : Direction → Text
  | .left => "L"
  | .right => "R"

/-- The direction of a name. -/
def ofName (name : Text) : Except Fault Direction :=
  if name = Direction.left.name then .ok .left
  else if name = Direction.right.name then .ok .right
  else .error (.definition (.badDirection name))

end Direction

/-- What a machine does in a state on reading a symbol. -/
structure Transition where
  state : Text
  read : Text
  write : Text
  direction : Direction
  next : Text
  deriving DecidableEq, Repr

/-- A Turing machine.  The alphabets are kept as they were declared. -/
structure Machine where
  states : List Atom
  alphabet : List Json
  tapeAlphabet : List Json
  transitions : List Transition
  start : Text
  accept : Text
  reject : Text
  blank : Text
  deriving Repr

/-- The transitions a run may fire that is given no limit. -/
def defaultSteps : Nat := 1000
def defaultBudget : Budget := { steps := some defaultSteps }

/-- The transitions a run may fire. -/
def stepLimit (b : Budget) : Nat := b.steps.getD defaultSteps

theorem steps_completedBy (b : Budget) :
    (b.completedBy defaultBudget).steps = some (stepLimit b) := by
  cases h : b.steps <;> simp [Budget.completedBy, stepLimit, defaultBudget, h]

namespace Machine

/-- The first transition for a state and a symbol. -/
def transition? (m : Machine) (state symbol : Text) : Option Transition :=
  m.transitions.find? fun t => t.state = state && t.read = symbol

/-- States are distinct, every name in use is one of them, the two halting states differ,
and the blank is a symbol. -/
def Valid (m : Machine) : Prop :=
  (m.states.map (·.key)).Nodup ∧ .text m.start ∈ m.states ∧ .text m.accept ∈ m.states ∧
    .text m.reject ∈ m.states ∧ m.accept ≠ m.reject ∧ m.blank ≠ [] ∧
    ∀ t ∈ m.transitions, .text t.state ∈ m.states ∧ .text t.next ∈ m.states

instance (m : Machine) : Decidable m.Valid := by unfold Valid; infer_instance

end Machine

end FormalMachines.Turing
