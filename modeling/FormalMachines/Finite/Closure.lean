import FormalMachines.Finite.Basic
import FormalMachines.Worklist

/-!
# FormalMachines.Finite.Closure

The two readings of `ε` and the closure under `ε`-moves.

Read literally, `ε` is a symbol like any other, and a move labelled with it consumes that
code point of the input.  Read as the empty word, a move labelled with it consumes
nothing, and sets of states are closed under such moves.
-/

namespace FormalMachines.Finite

/-- How a run reads the label `ε`. -/
inductive EpsilonMode where
  | literal
  | closure
  deriving DecidableEq, Repr

/-- The mode of a name.  A run that is told none reads `ε` literally. -/
def EpsilonMode.ofJson (mode : Json) : Except Fault EpsilonMode :=
  if mode.isText "literal" then .ok .literal
  else if mode.isText "closure" then .ok .closure
  else .error (.parameter (.unknownEpsilonMode mode))

namespace Automaton

/-- The targets of the `ε`-moves of a state. -/
def epsilonTargets (a : Automaton) (state : Text) : List Text :=
  (a.moves state (.text epsilon)).map (·.target)

/-- The given states and all that `ε`-moves reach from them, in order of discovery; the
state discovered last is looked at first. -/
def epsilonClosure (a : Automaton) (states : List Text) : List Text :=
  Worklist.explore .lastFirst a.epsilonTargets (states.length + a.transitions.length) states

/-- The states that a reading of `ε` adds to the given ones. -/
def close (a : Automaton) : EpsilonMode → List Text → List Text
  | .literal, states => states
  | .closure, states => a.epsilonClosure states

end Automaton

end FormalMachines.Finite
