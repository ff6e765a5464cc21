import FormalMachines.Text.Case
import FormalMachines.Turing.Basic

/-!
# FormalMachines.Turing.Document

The JSON form of a Turing machine.

A draft holds what a definition gives before it is checked; `Draft.validate` reports the
first fault, in the order states, start, accept and reject state, their difference, blank,
moves.  A definition may write directions in either case of letters.
-/

namespace FormalMachines.Turing

/-- A move whose states and direction are not checked. -/
structure DraftMove where
  state : Text
  read : Text
  write : Text
  direction : Text
  next : Text

/-- A machine whose states are not checked. -/
structure Draft where
  states : List Json
  alphabet : List Json
  tapeAlphabet : List Json
  moves : List DraftMove
  start : Text
  accept : Text
  reject : Text
  blank : Text

/-- The move between declared states. -/
def DraftMove.validate (m : DraftMove) (states : List Atom) : Except Fault Transition := do
  let state ← declaredText .transitionSource states m.state
  let next ← declaredText .transitionTarget states m.next
  let direction ← Direction.ofName m.direction
  return ⟨state, m.read, m.write, direction, next⟩

/-- The machine of a draft that holds together. -/
def Draft.validate (d : Draft) : Except Fault Machine := do
  let states ← distinctAtoms "states" d.states
  let start ← declaredText .startState states d.start
  let accept ← declaredText .acceptState states d.accept
  let reject ← declaredText .rejectState states d.reject
  if accept = reject then throw (.definition .sameHaltStates)
  if d.blank = [] then throw (.definition .emptyBlank)
  let transitions ← d.moves.mapM (·.validate states)
  return ⟨states, d.alphabet, d.tapeAlphabet, transitions, start, accept, reject, d.blank⟩

/-! ## Reading -/

/-- The move of a record. -/
def readMove (entry : Json) : Except Fault DraftMove := do
  let members ← entry.requireObject .transition
  let state ← members.requireText "currentState"
  let read ← members.requireText "readSymbol"
  let write ← members.requireText "writeSymbol"
  let direction ← members.requireText "moveDirection"
  let next ← members.requireText "nextState"
  return ⟨state, read, write, Text.upper direction, next⟩

/-- The draft that a definition gives. -/
def readDraft (definition : Json) : Except Fault Draft := do
  let members ← definition.requireObject .machine
  let moves ← (← members.requireList "transitions").mapM readMove
  let states ← members.requireList "states"
  let alphabet ← members.optionalList "alphabet"
  let tapeAlphabet ← members.optionalList "tapeAlphabet"
  let start ← members.requireText "startState"
  let accept ← members.requireText "acceptState"
  let reject ← members.requireText "rejectState"
  let blank ← members.requireText "blankSymbol"
  return ⟨states, alphabet, tapeAlphabet, moves, start, accept, reject, blank⟩

/-- The machine that a definition gives. -/
def Machine.ofJson (definition : Json) : Except Fault Machine := do
  (← readDraft definition).validate

/-! ## Writing -/

def Transition.toJson (t : Transition) : Json :=
  .object [("currentState", .text t.state), ("readSymbol", .text t.read),
    ("writeSymbol", .text t.write), ("moveDirection", .text t.direction.name),
    ("nextState", .text t.next)]

def Machine.toJson (m : Machine) : Json :=
  .object [("states", .list (m.states.map .atom)), ("alphabet", .list m.alphabet),
    ("tapeAlphabet", .list m.tapeAlphabet),
    ("transitions", .list (m.transitions.map (·.toJson))), ("startState", .text m.start),
    ("acceptState", .text m.accept), ("rejectState", .text m.reject),
    ("blankSymbol", .text m.blank)]

end FormalMachines.Turing
