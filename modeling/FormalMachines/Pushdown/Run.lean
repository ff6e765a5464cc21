import FormalMachines.Pushdown.Basic
import FormalMachines.Run.Cancellation
import FormalMachines.Run.Outcome

/-!
# FormalMachines.Pushdown.Run

The run that never looks back: at every configuration it fires the first move, in the
order of the definition, that reads the next code point, or else the first that reads
`ε`.  When the input is consumed only `ε`-moves are left; when no move is left the state
decides, and the run rejects if some input is left as well.

Before each move the run looks whether it is cancelled, then whether a move is there,
then whether its budget allows one more.
-/

namespace FormalMachines.Pushdown

/-- What a run records: the number of the step, the configuration with the input split at
its position, the move that led here, and the verdict if the run ends here.  The stack is
top first. -/
structure Step where
  number : Nat
  state : Text
  remaining : Text
  consumed : Text
  stack : List Text
  fired : Option Transition
  accepted : Option Bool
  deriving DecidableEq, Repr

/-- The record of a configuration. -/
def Configuration.record (c : Configuration) (input : Text) (number : Nat)
    (fired : Option Transition) (accepted : Option Bool) : Step :=
  ⟨number, c.state, input.drop c.position, input.take c.position, c.stack, fired, accepted⟩

namespace Automaton

/-- The first move with a label that leaves a configuration. -/
def firstMove? (a : Automaton) (c : Configuration) (label : Text) : Option Transition :=
  a.transitions.find? (c.admits label)

/-- The move that a run fires next. -/
def choose? (a : Automaton) (input : Text) (c : Configuration) : Option Transition :=
  match input[c.position]? with
  | none => a.firstMove? c epsilon
  | some ch => a.firstMove? c ([ch]) <|> a.firstMove? c epsilon

/-- Continues a run that may fire so many moves more and has fired so many. -/
def walk (a : Automaton) (input : Text) (cancel : Cancellation) :
    Nat → Nat → Configuration → Option Transition → Run Step
  | left, fired, c, via =>
    let here := c.record input fired via
    if cancel.raisedAt fired then .stop (here (some false)) false .cancelled
    else
      match a.choose? input c with
      | none =>
        let verdict := a.isAccepting input c
        .stop (here (some verdict)) verdict (.ofVerdict verdict)
      | some t =>
        match left with
        | 0 => .stop (here (some false)) false .budgetExhausted
        | more + 1 => (walk a input cancel more (fired + 1) (c.fire t) (some t)).cons (here none)

/-- The run on an input that fires the first move each time. -/
def runFirstMatch (a : Automaton) (input : Text) (budget : Budget)
    (cancel : Cancellation) : Run Step :=
  a.walk input cancel (stepLimit budget) 0 a.initial none

theorem agrees_walk (a : Automaton) (input : Text) (cancel : Cancellation) (left fired : Nat)
    (c : Configuration) (via : Option Transition) :
    (a.walk input cancel left fired c via).Agrees := by
  fun_induction walk a input cancel left fired c via with
  | case1 => exact Run.agrees_stop_false _ (by decide)
  | case2 => exact Run.agrees_stop_ofVerdict _ _
  | case3 => exact Run.agrees_stop_false _ (by decide)
  | case4 _ _ _ _ _ _ _ _ ih => exact ih.cons _

end Automaton

end FormalMachines.Pushdown
