import FormalMachines.Finite.Alphabet
import FormalMachines.Finite.Determinism
import FormalMachines.Finite.Draft
import FormalMachines.Finite.NameSet
import FormalMachines.Finite.Partition

/-!
# FormalMachines.Finite.Minimal

The smallest deterministic automaton with the same language.

States that cannot be reached are dropped, and states that no input tells apart are
merged.  A missing move counts as a move into a sink; the states merged with the sink can
never accept, and they disappear with every move into them.  If the start state is one of
them the language is empty, and the start state alone is left.

A merged state is named by its members in increasing order, joined by `_`, and stands
where the first of its members was discovered; that member gives its moves.
-/

namespace FormalMachines.Finite

namespace Automaton

/-- The target of the move from a state under a symbol, if there is one. -/
def next? (a : Automaton) (state : Text) (symbol : Atom) : Option Text :=
  (a.moves state symbol).head?.map (·.target)

/-- The move from a node: missing moves lead to the sink, which is never left. -/
def successor (a : Automaton) (q : Node) (symbol : Atom) : Node :=
  q.bind (a.next? · symbol)

/-- The states that can be reached, breadth first. -/
def reachable (a : Automaton) (letters : List Atom) : List Text :=
  Worklist.explore .firstFirst (fun q => letters.filterMap (a.next? q))
    (a.transitions.length + 1) [a.start]

/-- The blocks of nodes that no input tells apart. -/
def blocks (a : Automaton) (letters : List Atom) : List Block :=
  let states := a.reachable letters
  let accepting := states.filter (· ∈ a.accepting)
  let others := states.filter (· ∉ a.accepting)
  coarsestPartition a.successor letters (accepting.map some) (others.map some ++ [none])

end Automaton

namespace Block

/-- Whether a block holds the sink. -/
def isSink (b : Block) : Bool := none ∈ b

/-- The name of a merged state. -/
def name (b : Block) : Text := Text.join "_" (NameSet.ofList (b.filterMap id)).toList

end Block

/-- The name of the merged state that a state belongs to, unless that is the sink. -/
def mergedName? (blocks : List Block) (q : Text) : Option Text :=
  match blocks.find? (some q ∈ ·) with
  | some b => if Block.isSink b then none else some (Block.name b)
  | none => none

namespace Automaton

/-- The automaton of one state that accepts nothing. -/
def emptyLanguage (start : Text) (letters : List Atom) : Automaton where
  states := [⟨start, true, false⟩]
  alphabet := letters.map .atom
  transitions := []
  start := start
  accepting := []

/-- The states that give the merged states their moves, each with the merged name. -/
def representatives (states : List Text) (blocks : List Block) : List (Text × Text) :=
  (states.filterMap fun q => (mergedName? blocks q).map (q, ·)).eraseDupsBy fun p r => p.2 = r.2

/-- The moves of one merged state. -/
def mergedMoves (a : Automaton) (letters : List Atom) (blocks : List Block)
    (representative : Text × Text) : List Transition :=
  letters.filterMap fun symbol => do
    let target ← a.next? representative.1 symbol
    let name ← mergedName? blocks target
    return ⟨representative.2, name, symbol⟩

/-- The minimal automaton over some letters. -/
def minimalAutomaton (a : Automaton) (letters : List Atom) : Automaton :=
  let states := a.reachable letters
  let blocks := a.blocks letters
  match mergedName? blocks a.start with
  | none => emptyLanguage a.start letters
  | some start =>
    let merged := representatives states blocks
    let accepting := ((states.filter (· ∈ a.accepting)).filterMap (mergedName? blocks)).eraseDups
    { states := merged.map fun r => ⟨r.2, r.2 = start, r.2 ∈ accepting⟩
      alphabet := letters.map .atom
      transitions := merged.flatMap (a.mergedMoves letters blocks)
      start := start
      accepting := accepting }

/-- The minimal automaton of a deterministic one. -/
def minimise (a : Automaton) : Except Fault Automaton := do
  if !a.isDeterministic then throw (.parameter .notDeterministic)
  let letters ← a.letters .literal
  (a.minimalAutomaton letters).checked

end Automaton

end FormalMachines.Finite
