import FormalMachines.Declaration
import FormalMachines.Finite.Closure

/-!
# FormalMachines.Finite.Alphabet

The symbols a construction works over: the declared ones, then those on moves that were
not declared, each once.  Where `ε` is the empty word it is none of them.
-/

namespace FormalMachines.Finite

/-- Whether a symbol can be a letter of an input under a reading of `ε`. -/
def EpsilonMode.isLetter (mode : EpsilonMode) (symbol : Atom) : Bool :=
  match mode with
  | .literal => true
  | .closure => symbol ≠ .text epsilon

namespace Automaton

/-- The letters of an automaton in order.  A declared value that is no atom is a fault. -/
def letters (a : Automaton) (mode : EpsilonMode) : Except Fault (List Atom) := do
  let declared ← a.alphabet.mapM Json.requireAtom
  return Atom.distinct ((declared ++ a.transitions.map (·.symbol)).filter mode.isLetter)

end Automaton

end FormalMachines.Finite
