import FormalMachines.Pushdown.Basic

/-!
# FormalMachines.Pushdown.Document

The JSON form of a pushdown automaton.

A draft holds what a definition gives before its names are checked; `Draft.validate`
reports the first fault, in the order states, start state, accepting states, initial
stack symbol, moves.  An empty input or pop symbol is read as `ε`.
-/

namespace FormalMachines.Pushdown

/-- An automaton whose states are not checked. -/
structure Draft where
  states : List Json
  inputAlphabet : List Json
  stackAlphabet : List Json
  transitions : List Transition
  start : Text
  initialSymbol : Text
  accepting : List Json

/-- A move between declared states. -/
def Transition.validate (t : Transition) (states : List Atom) : Except Fault Transition := do
  let source ← declaredText .transitionSource states t.source
  let target ← declaredText .transitionTarget states t.target
  return { t with source := source, target := target }

/-- The automaton of a draft that holds together. -/
def Draft.validate (d : Draft) : Except Fault Automaton := do
  let states ← distinctAtoms "states" d.states
  let start ← declaredText .startState states d.start
  let accepting ← d.accepting.mapM (declaredAtom .acceptingState states)
  if d.initialSymbol = [] ∨ d.initialSymbol = epsilon then
    throw (.definition .badInitialStackSymbol)
  let transitions ← d.transitions.mapM (·.validate states)
  return ⟨states, d.inputAlphabet, d.stackAlphabet, transitions, start, d.initialSymbol, accepting⟩

/-! ## Reading -/

/-- The move of a record. -/
def readTransition (entry : Json) : Except Fault Transition := do
  let members ← entry.requireObject .transition
  let push ← match ((members.get? "pushSymbols").getD (.list [])).textItems? with
    | some push => .ok push
    | none => .error (.definition .pushShape)
  let source ← members.requireText "fromState"
  let input ← members.requireSymbol "inputSymbol"
  let pop ← members.requireSymbol "popSymbol"
  let target ← members.requireText "toState"
  return ⟨source, input, pop, target, push⟩

/-- The draft that a definition gives. -/
def readDraft (definition : Json) : Except Fault Draft := do
  let members ← definition.requireObject .automaton
  let transitions ← (← members.requireList "transitions").mapM readTransition
  let states ← members.requireList "states"
  let inputAlphabet ← members.optionalList "inputAlphabet"
  let stackAlphabet ← members.optionalList "stackAlphabet"
  let start ← members.requireText "startState"
  let initialSymbol ← members.requireText "initialStackSymbol"
  let accepting ← members.optionalList "acceptStates"
  return ⟨states, inputAlphabet, stackAlphabet, transitions, start, initialSymbol, accepting⟩

/-- The automaton that a definition gives. -/
def Automaton.ofJson (definition : Json) : Except Fault Automaton := do
  (← readDraft definition).validate

/-! ## Writing -/

def Transition.toJson (t : Transition) : Json :=
  .object [("fromState", .text t.source), ("inputSymbol", .text t.input),
    ("popSymbol", .text t.pop), ("toState", .text t.target), ("pushSymbols", .texts t.push)]

def Automaton.toJson (a : Automaton) : Json :=
  .object [("states", .list (a.states.map .atom)), ("inputAlphabet", .list a.inputAlphabet),
    ("stackAlphabet", .list a.stackAlphabet),
    ("transitions", .list (a.transitions.map (·.toJson))), ("startState", .text a.start),
    ("initialStackSymbol", .text a.initialSymbol),
    ("acceptStates", .list (a.accepting.map .atom))]

end FormalMachines.Pushdown
