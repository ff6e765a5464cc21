import FormalMachines.Finite.Document
import FormalMachines.Finite.Minimal
import FormalMachines.Finite.Subset

/-!
# FormalMachines.Finite.Transformation

Chains of constructions on one automaton.  Each applies to what the ones before it left;
one that fails leaves the automaton as it was.
-/

namespace FormalMachines.Finite

/-- A construction that turns an automaton into another. -/
inductive Transformation where
  /-- The subset construction under a named reading of `ε`, with or without a dead state. -/
  | determinise (epsilonMode : Json) (addDead : Bool)
  | minimise
  /-- Reading back the automaton's own definition. -/
  | rebuild

namespace Transformation

/-- The automaton that a construction yields. -/
def apply (a : Automaton) : Transformation → Except Fault Automaton
  | .determinise epsilonMode addDead => a.determinise epsilonMode addDead
  | .minimise => a.minimise
  | .rebuild => Automaton.ofJson a.toJson

/-- The automaton after a construction, which is the old one if it failed. -/
def follow (a : Automaton) (t : Transformation) : Automaton :=
  match t.apply a with
  | .ok b => b
  | .error _ => a

/-- The automaton after a chain of constructions. -/
def followAll (a : Automaton) (chain : List Transformation) : Automaton := chain.foldl follow a

end Transformation

end FormalMachines.Finite
