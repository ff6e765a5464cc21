import FormalMachines.Declaration
import FormalMachines.Finite.Basic

/-!
# FormalMachines.Finite.Determinism

Whether an automaton leaves no choice, whether it always has a move, and where its
choices are.

Moves with the same source and the same symbol share a *slot*.  An automaton is
deterministic if no move is labelled `ε` and no slot holds two moves.
-/

namespace FormalMachines.Finite

/-- What tells which moves compete: the source and the symbol. -/
def Transition.slot (t : Transition) : Text × Atom.Key := (t.source, t.symbol.key)

/-- A place where a run has to choose: the targets of all moves of a slot. -/
structure Choice where
  state : Text
  symbol : Atom
  targets : List Text
  deriving DecidableEq, Repr

namespace Automaton

/-- The slots of the moves, in order. -/
def slots (a : Automaton) : List (Text × Atom.Key) := a.transitions.map (·.slot)

/-- No `ε`-move, and at most one move for each state and symbol. -/
def isDeterministic (a : Automaton) : Bool :=
  a.transitions.all (fun t => !t.isEpsilon) && decide a.slots.Nodup

/-- Whether some move other than an `ε`-move leaves a state under a symbol. -/
def hasMove (a : Automaton) (state : Text) (symbol : Atom) : Bool :=
  a.transitions.any fun t => !t.isEpsilon && t.fits state symbol

/-- Whether every state has a move for every symbol of the alphabet but `ε`.  A symbol
that is no atom is a fault where the check comes upon it; it ends with the first move
that is missing. -/
def isComplete (a : Automaton) : Except Fault Bool :=
  a.names.allM fun state => a.alphabet.allM fun v => do
    if v.isText epsilon then return true
    return a.hasMove state (← v.requireAtom)

/-- The first move of every slot. -/
def slotHeads (a : Automaton) : List Transition :=
  a.transitions.eraseDupsBy fun t u => t.slot = u.slot

/-- The targets of the moves that share a move's slot. -/
def targetsBeside (a : Automaton) (t : Transition) : List Text :=
  (a.transitions.filter fun u => u.slot = t.slot).map (·.target)

/-- The slots with several moves or with the symbol `ε`, in order of first occurrence. -/
def choices (a : Automaton) : List Choice :=
  (a.slotHeads.map fun t => (⟨t.source, t.symbol, a.targetsBeside t⟩ : Choice)).filter fun c =>
    1 < c.targets.length || c.symbol = .text epsilon

end Automaton

end FormalMachines.Finite
