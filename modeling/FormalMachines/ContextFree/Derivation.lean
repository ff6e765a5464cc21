import FormalMachines.ContextFree.Basic

/-!
# FormalMachines.ContextFree.Derivation

Derivations as they are written down, and their replay.

A step records the form it leads to, the production it applies and where.  A replay
starts from the start symbol and applies each recorded production at its recorded place;
a step that records none is passed over.  It fails at the first step whose production
does not fit that place or whose result is not the recorded form.
-/

namespace FormalMachines.ContextFree

/-- A step of a derivation.  A derivation starts with a step that applies nothing. -/
structure DerivationStep where
  number : Int
  form : Form
  production : Option Production
  index : Option Int
  deriving DecidableEq, Repr

/-- The symbol at an index, if the form has one there. -/
def symbolAt? (form : Form) (index : Int) : Option Text :=
  if 0 ≤ index then form[index.toNat]? else none

/-- The form with other symbols in place of the one at an index. -/
def replaceAt (form : Form) (index : Nat) (symbols : List Text) : Form :=
  form.take index ++ symbols ++ form.drop (index + 1)

/-- Where a production applies: at the recorded index, if its left side stands there. -/
def DerivationStep.place? (step : DerivationStep) (p : Production) (form : Form) : Option Nat := do
  let index ← step.index
  let symbol ← symbolAt? form index
  if symbol = p.left then some index.toNat else none

/-- Applies one recorded step. -/
def replayStep (form : Form) (step : DerivationStep) : Except Fault Form :=
  match step.production with
  | none => .ok form
  | some p =>
    match step.place? p form with
    | none => .error (.parameter (.misappliedStep step.number p.display p.left))
    | some index =>
      let next := replaceAt form index p.symbols
      if next = step.form then .ok next else .error (.parameter (.unfaithfulStep step.number))

/-- The form that recorded steps lead to from the start symbol. -/
def Grammar.replay (g : Grammar) (steps : List DerivationStep) : Except Fault Form :=
  steps.foldlM replayStep [g.start]

end FormalMachines.ContextFree
