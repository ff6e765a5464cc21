import FormalMachines.Json.Fields

/-!
# FormalMachines.Finite.Basic

Finite automata, deterministic or not.

An automaton names its states, and its transitions carry symbols: a text for whatever
can stand in a definition, any atom for what a construction over an alphabet of other
values yields.  `Automaton.Valid` is what a definition is checked for.
-/

namespace FormalMachines.Finite

/-- A state with the flags of its declaration. -/
structure State where
  name : Text
  isStart : Bool
  isAccept : Bool
  deriving DecidableEq, Repr

/-- A move from one state to another under a symbol. -/
structure Transition where
  source : Text
  target : Text
  symbol : Atom
  deriving DecidableEq, Repr

namespace Transition

/-- Whether a move is labelled `ε`. -/
def isEpsilon (t : Transition) : Bool := t.symbol = .text epsilon

theorem isEpsilon_iff {t : Transition} : t.isEpsilon ↔ t.symbol = .text epsilon :=
  decide_eq_true_iff

/-- Whether a move leaves a state under a symbol. -/
def fits (t : Transition) (state : Text) (symbol : Atom) : Bool :=
  t.source = state && decide (t.symbol.Same symbol)

end Transition

/-- A finite automaton.  The alphabet is kept as it was declared. -/
structure Automaton where
  states : List State
  alphabet : List Json
  transitions : List Transition
  start : Text
  accepting : List Text
  deriving Repr

namespace Automaton

/-- The names of the states, in order. -/
def names (a : Automaton) : List Text := a.states.map (·.name)

/-- The moves that leave a state under a symbol, in order. -/
def moves (a : Automaton) (state : Text) (symbol : Atom) : List Transition :=
  a.transitions.filter (·.fits state symbol)

/-- Whether one of the states accepts. -/
def acceptsIn (a : Automaton) (states : List Text) : Bool :=
  states.any (· ∈ a.accepting)

/-- State names are distinct, and every name in use is one of them. -/
def Valid (a : Automaton) : Prop :=
  a.names.Nodup ∧ a.start ∈ a.names ∧ (∀ s ∈ a.accepting, s ∈ a.names) ∧
    ∀ t ∈ a.transitions, t.source ∈ a.names ∧ t.target ∈ a.names

instance (a : Automaton) : Decidable a.Valid := by unfold Valid; infer_instance

theorem mem_moves {a : Automaton} {state : Text} {symbol : Atom} {t : Transition} :
    t ∈ a.moves state symbol ↔
      t ∈ a.transitions ∧ t.source = state ∧ t.symbol.Same symbol := by
  simp [moves, Transition.fits]

end Automaton

/-- The symbol that one code point of an input is. -/
def symbolOf (c : CodePoint) : Atom := .text [c]

theorem symbolOf_inj {c d : CodePoint} : symbolOf c = symbolOf d ↔ c = d := by simp [symbolOf]

end FormalMachines.Finite
