import FormalMachines.Declaration
import FormalMachines.Json.Fields
import FormalMachines.Run.Budget

/-!
# FormalMachines.Pushdown.Basic

Pushdown automata, their configurations and what one move does.

A move that reads `ε` consumes nothing, and one that pops `ε` looks at no symbol; any
other pops the top of the stack, which must be there and be the symbol it names.  Then
its push symbols go onto the stack, `ε` among them left out, the first of them on top.

A stack is the list of its symbols, top first.
-/

namespace FormalMachines.Pushdown

/-- A move. -/
structure Transition where
  source : Text
  input : Text
  pop : Text
  target : Text
  push : List Text
  deriving DecidableEq, Repr

/-- A pushdown automaton.  The alphabets are kept as they were declared. -/
structure Automaton where
  states : List Atom
  inputAlphabet : List Json
  stackAlphabet : List Json
  transitions : List Transition
  start : Text
  initialSymbol : Text
  accepting : List Atom
  deriving Repr

/-- The limits of a run that is given none. -/
def defaultSteps : Nat := 100
def defaultNodes : Nat := 10000
def defaultBudget : Budget := { steps := some defaultSteps, nodes := some defaultNodes }

/-- The transitions a run may fire. -/
def stepLimit (b : Budget) : Nat := b.steps.getD defaultSteps

/-- The configurations a search may expand. -/
def nodeLimit (b : Budget) : Nat := b.nodes.getD defaultNodes

theorem steps_completedBy (b : Budget) :
    (b.completedBy defaultBudget).steps = some (stepLimit b) := by
  cases h : b.steps <;> simp [Budget.completedBy, stepLimit, defaultBudget, h]

theorem nodes_completedBy (b : Budget) :
    (b.completedBy defaultBudget).nodes = some (nodeLimit b) := by
  cases h : b.nodes <;> simp [Budget.completedBy, nodeLimit, defaultBudget, h]

/-! ## Moves -/

namespace Transition

/-- Whether a move consumes nothing. -/
def isEpsilon (t : Transition) : Bool := t.input = epsilon

/-- What is left of a stack after the move's pop.  An empty stack stays empty. -/
def popFrom (t : Transition) (stack : List Text) : List Text :=
  if t.pop = epsilon then stack else stack.tail

/-- The stack after a move. -/
def applyTo (t : Transition) (stack : List Text) : List Text :=
  t.push.filter (· ≠ epsilon) ++ t.popFrom stack

/-- Whether the top of a stack is the symbol that the move pops, if it pops one. -/
def popsFrom (t : Transition) (stack : List Text) : Bool :=
  t.pop = epsilon || stack.head? = some t.pop

end Transition

/-- Where a run stands: its state, how much input it has consumed, its stack. -/
structure Configuration where
  state : Text
  position : Nat
  stack : List Text
  deriving DecidableEq, Hashable, Repr

namespace Configuration

/-- Whether a move with this label leaves a configuration. -/
def admits (c : Configuration) (label : Text) (t : Transition) : Bool :=
  t.source = c.state && t.input = label && t.popsFrom c.stack

/-- Whether a move leaves a configuration on an input: it reads `ε` or the next
code point. -/
def allows (c : Configuration) (input : Text) (t : Transition) : Bool :=
  c.admits t.input t &&
    (t.isEpsilon || input[c.position]?.map ([·]) = some t.input)

/-- The configuration after a move. -/
def fire (c : Configuration) (t : Transition) : Configuration :=
  ⟨t.target, if t.isEpsilon then c.position else c.position + 1, t.applyTo c.stack⟩

end Configuration

namespace Automaton

/-- The configuration at the start. -/
def initial (a : Automaton) : Configuration := ⟨a.start, 0, [a.initialSymbol]⟩

/-- Whether a state accepts. -/
def acceptsAt (a : Automaton) (state : Text) : Bool := .text state ∈ a.accepting

/-- All input consumed, in an accepting state. -/
def isAccepting (a : Automaton) (input : Text) (c : Configuration) : Bool :=
  c.position = input.length && a.acceptsAt c.state

/-- States are distinct, every name in use is one of them, and the symbol at the bottom
is a real one. -/
def Valid (a : Automaton) : Prop :=
  (a.states.map (·.key)).Nodup ∧ .text a.start ∈ a.states ∧
    (∀ s ∈ a.accepting, s.isAmong a.states) ∧
    (a.initialSymbol ≠ [] ∧ a.initialSymbol ≠ epsilon) ∧
    ∀ t ∈ a.transitions, .text t.source ∈ a.states ∧ .text t.target ∈ a.states

instance (a : Automaton) : Decidable a.Valid := by unfold Valid; infer_instance

end Automaton

end FormalMachines.Pushdown
