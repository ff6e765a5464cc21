import FormalMachines.Finite.Draft

/-!
# FormalMachines.Finite.Document

The JSON form of a finite automaton.

A definition gives its states by name or as records with flags, and its transitions as a
list of records or nested by state and symbol, where the empty symbol is `ε`.  The start
state is named, or else the one state flagged as such; the accepting states are those
listed, then those flagged, without repetition.  An automaton is written with records
throughout.
-/

namespace FormalMachines.Finite

/-! ## Reading -/

/-- The state that an entry of the list of states declares. -/
def readState : Json → Except Fault State
  | .atom (.text name) => .ok ⟨name, false, false⟩
  | entry =>
    match entry.member? "name" with
    | some (.atom (.text name)) =>
      let flag (key : Text) := ((entry.member? key).getD .null).isTruthy
      .ok ⟨name, flag "isStart", flag "isAccept"⟩
    | _ => .error (.definition (.invalidState entry))

/-- The start state: the one named, which the flags must not contradict, or the one
flagged. -/
def readStart (named : Json) (flagged : List Text) : Except Fault Text :=
  match named with
  | .atom .null | .atom (.text []) =>
    match flagged with
    | [] => .error (.definition .noStart)
    | [start] => .ok start
    | _ => .error (.definition (.startsFlagged flagged))
  | .atom (.text start) =>
    if flagged = [] ∨ flagged = [start] then .ok start
    else .error (.definition (.startDisagrees start flagged))
  | _ => .error (.definition .startNotText)

/-- The targets of a nested entry: one name, the items of a list, or the keys of an
object. -/
def readTargets : Json → Except Fault (List Json)
  | .atom (.text name) => .ok [.text name]
  | .list items => .ok items
  | .object members => .ok (members.map fun m => .text m.1)
  | v => .error (.value (.noItems v))

/-- The moves from one state under one symbol. -/
def readNestedMoves (source : Text) (entry : Text × Json) : Except Fault (List DraftMove) := do
  let targets ← readTargets entry.2
  let symbol := if entry.1 = [] then epsilon else entry.1
  return targets.map fun target => ⟨source, target, .text symbol⟩

/-- The moves from one state. -/
def readStateMoves (entry : Text × Json) : Except Fault (List DraftMove) :=
  match entry.2 with
  | .object bySymbol => do return (← bySymbol.mapM (readNestedMoves entry.1)).flatten
  | _ => .error (.definition (.movesNotObject entry.1))

/-- The move of a record. -/
def readMove (entry : Json) : Except Fault DraftMove := do
  let members ← entry.requireObject .transition
  let source ← members.requireText "from"
  let target ← members.requireText "to"
  let symbol ← members.requireText "symbol"
  return ⟨source, .text target, .text symbol⟩

/-- The moves in either form. -/
def readMoves : Json → Except Fault (List DraftMove)
  | .object byState => do return (← byState.mapM readStateMoves).flatten
  | .list entries => entries.mapM readMove
  | _ => .error (.definition .transitionsShape)

/-- The draft that a definition gives. -/
def readDraft (definition : Json) : Except Fault Draft := do
  let members ← definition.requireObject .automaton
  let declared ← (← members.requireList "states").mapM readState
  let start ← readStart (members.value "startState")
    ((declared.filter (·.isStart)).map (·.name))
  let listed ← (← members.optionalList "acceptStates") |>.mapM Json.requireAtom
  let flagged := (declared.filter (·.isAccept)).map fun s => Atom.text s.name
  let accepting := Atom.distinct (listed ++ flagged)
  let alphabet ← members.requireList "alphabet"
  let moves ← readMoves (members.value "transitions")
  let states := declared.map fun s => ⟨s.name, s.name = start, .text s.name ∈ accepting⟩
  return ⟨states, alphabet, moves, start, accepting⟩

/-- The automaton that a definition gives. -/
def Automaton.ofJson (definition : Json) : Except Fault Automaton := do
  (← readDraft definition).validate

/-! ## Writing -/

def State.toJson (s : State) : Json :=
  .object [("name", .text s.name), ("isStart", .bool s.isStart), ("isAccept", .bool s.isAccept)]

def Transition.toJson (t : Transition) : Json :=
  .object [("from", .text t.source), ("to", .text t.target), ("symbol", .atom t.symbol)]

def Automaton.toJson (a : Automaton) : Json :=
  .object [("states", .list (a.states.map (·.toJson))), ("alphabet", .list a.alphabet),
    ("transitions", .list (a.transitions.map (·.toJson))), ("startState", .text a.start),
    ("acceptStates", .texts a.accepting)]

end FormalMachines.Finite
