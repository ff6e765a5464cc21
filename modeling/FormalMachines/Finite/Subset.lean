import FormalMachines.Finite.Alphabet
import FormalMachines.Finite.Draft
import FormalMachines.Finite.NameSet

/-!
# FormalMachines.Finite.Subset

The deterministic automaton whose states are the sets of states that a nondeterministic
one can be in.

Sets are found breadth first from the closed start set, letters in order.  A set is named
by its members in braces, in increasing order; two sets of one name make the construction
fail, because the states of an automaton are told apart by name.  A missing move stays
missing, or leads to a dead state, which is added only if some move leads there.
-/

namespace FormalMachines.Finite

/-- The name of the dead state. -/
def deadName : Text := [.char '∅']

/-- The name of a set of states. -/
def NameSet.name (s : NameSet) : Text := "\x7b" ++ Text.join "," s.toList ++ "\x7d"

namespace Automaton

/-- The targets of the moves from a set of states whose labels equal a symbol. -/
def targetSet (a : Automaton) (s : NameSet) (symbol : Atom) : NameSet :=
  .ofList ((a.transitions.filter fun t => t.source ∈ s ∧ t.symbol.Equals symbol).map (·.target))

/-- The closed set of some states. -/
def closeSet (a : Automaton) (mode : EpsilonMode) (states : List Text) : NameSet :=
  .ofList (a.close mode states)

/-- The set a move leads to, if there is any move. -/
def subsetMove (a : Automaton) (mode : EpsilonMode) (s : NameSet) (symbol : Atom) :
    Option NameSet :=
  let moved := a.targetSet s symbol
  if moved.isEmpty then none else some (a.closeSet mode moved.toList)

/-- The set at the start. -/
def startSet (a : Automaton) (mode : EpsilonMode) : NameSet := a.closeSet mode [a.start]

/-- No more sets than this can be reached: every one but the first is a set of targets. -/
def subsetBound (a : Automaton) : Nat :=
  Nat.pow 2 (a.transitions.map (·.target)).eraseDups.length + 1

/-- The sets that can be reached, in order of discovery. -/
def subsets (a : Automaton) (mode : EpsilonMode) (letters : List Atom) : List NameSet :=
  Worklist.explore .firstFirst (fun s => letters.filterMap (a.subsetMove mode s)) a.subsetBound
    [a.startSet mode]

/-- The moves from one set, to the dead state where there is none if that is wanted. -/
def movesOfSubset (a : Automaton) (mode : EpsilonMode) (letters : List Atom) (addDead : Bool)
    (s : NameSet) : List Transition :=
  letters.filterMap fun symbol =>
    match a.subsetMove mode s symbol with
    | some t => some ⟨s.name, t.name, symbol⟩
    | none => if addDead then some ⟨s.name, deadName, symbol⟩ else none

/-- Whether some set has no move under some letter. -/
def lacksMove (a : Automaton) (mode : EpsilonMode) (letters : List Atom) : Bool :=
  (a.subsets mode letters).any fun s => letters.any fun symbol =>
    (a.subsetMove mode s symbol).isNone

/-- The subset automaton over some letters, before the check of its names. -/
def subsetAutomaton (a : Automaton) (mode : EpsilonMode) (letters : List Atom) (addDead : Bool) :
    Automaton :=
  let sets := a.subsets mode letters
  let needsDead := addDead && a.lacksMove mode letters
  let start := (a.startSet mode).name
  let accepting := (sets.filter fun s => a.acceptsIn s.toList).map (·.name)
  let names := sets.map (·.name) ++ if needsDead then [deadName] else []
  let moves := sets.flatMap (a.movesOfSubset mode letters addDead)
  let deadMoves := if needsDead then letters.map fun c => ⟨deadName, deadName, c⟩ else []
  { states := names.map fun n => ⟨n, n = start, n ∈ accepting⟩
    alphabet := letters.map .atom
    transitions := moves ++ deadMoves
    start := start
    accepting := accepting }

/-- The subset automaton. -/
def determinise (a : Automaton) (epsilonMode : Json) (addDead : Bool) :
    Except Fault Automaton := do
  let mode ← EpsilonMode.ofJson epsilonMode
  let letters ← a.letters mode
  (a.subsetAutomaton mode letters addDead).checked

end Automaton

end FormalMachines.Finite
