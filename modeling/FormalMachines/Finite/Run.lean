import FormalMachines.Finite.Closure
import FormalMachines.Finite.Determinism
import FormalMachines.Run.Cancellation
import FormalMachines.Run.Outcome
import FormalMachines.Text.Case

/-!
# FormalMachines.Finite.Run

Running a finite automaton on an input, one code point at a time.

A run is in a list of current states.  A `Stepper` says where it starts, which moves it
fires on a code point and which states these lead to; with no state to go to the run
rejects on the spot, and its last step shows that nothing was consumed.

* the deterministic stepper is in one state and fires the first move that fits;
* the nondeterministic one fires all of them, from each current state in turn, and goes to
  their targets without repetition, closed under `ε`-moves if they are read so.

Before each code point a run looks whether it is cancelled.
-/

namespace FormalMachines.Finite

/-- What a run records: the states it is in, the input split at where it stands, the
moves that led here, and the verdict if it ends here. -/
structure Step where
  states : List Text
  remaining : Text
  consumed : Text
  fired : List Transition
  accepted : Option Bool
  deriving DecidableEq, Repr

/-- How a run moves. -/
structure Stepper where
  /-- The states at the start. -/
  start : List Text
  /-- The moves fired from the current states. -/
  fire : List Text → CodePoint → List Transition
  /-- The states that fired moves lead to. -/
  land : List Transition → List Text

/-- The two kinds of run. -/
inductive Mode where
  | dfa
  | nfa
  deriving DecidableEq, Repr

def Mode.name : Mode → Text
  | .dfa => "dfa"
  | .nfa => "nfa"

namespace Automaton

/-- The moves from any of some states on a code point, state by state. -/
def movesFrom (a : Automaton) (states : List Text) (c : CodePoint) : List Transition :=
  states.flatMap fun q => a.moves q (symbolOf c)

/-- The stepper that takes the first move that fits. -/
def firstMove (a : Automaton) : Stepper where
  start := [a.start]
  fire states c := (a.movesFrom states c).take 1
  land fired := fired.map (·.target)

/-- The stepper that takes all moves at once. -/
def allMoves (a : Automaton) (mode : EpsilonMode) : Stepper where
  start := a.close mode [a.start]
  fire := a.movesFrom
  land fired := a.close mode (fired.map (·.target)).eraseDups

/-- Continues a run: the states it is in, what it has consumed, the moves that led
there, the number of looks at the cancellation so far, and the rest of the input. -/
def walk (a : Automaton) (m : Stepper) (cancel : Cancellation) :
    List Text → Text → List Transition → Nat → Text → Run Step
  | states, consumed, via, _, [] =>
    let verdict := a.acceptsIn states
    .stop ⟨states, [], consumed, via, some verdict⟩ verdict (.ofVerdict verdict)
  | states, consumed, via, looks, c :: rest =>
    let here := fun verdict => (⟨states, c :: rest, consumed, via, verdict⟩ : Step)
    if cancel.raisedAt looks then .stop (here (some false)) false .cancelled
    else
      let fired := m.fire states c
      match m.land fired with
      | [] =>
        (Run.stop ⟨states, c :: rest, consumed, [], some false⟩ false .rejected).cons (here none)
      | q :: more =>
        (walk a m cancel (q :: more) (consumed ++ [c]) fired (looks + 1) rest).cons (here none)

/-- The run of a stepper on an input. -/
def run (a : Automaton) (m : Stepper) (input : Text) (cancel : Cancellation) : Run Step :=
  a.walk m cancel m.start [] [] 0 input

theorem agrees_walk (a : Automaton) (m : Stepper) (cancel : Cancellation) (states : List Text)
    (consumed : Text) (via : List Transition) (looks : Nat) (rest : Text) :
    (a.walk m cancel states consumed via looks rest).Agrees := by
  fun_induction walk a m cancel states consumed via looks rest with
  | case1 => exact Run.agrees_stop_ofVerdict _ _
  | case2 => exact Run.agrees_stop_false _ (by decide)
  | case3 => exact (Run.agrees_stop_false _ (by decide)).cons _
  | case4 _ _ _ _ _ _ _ _ _ _ _ _ ih => exact ih.cons _

/-- **The verdict of a run** agrees with its outcome. -/
theorem agrees_run (a : Automaton) (m : Stepper) (input : Text) (cancel : Cancellation) :
    (a.run m input cancel).Agrees :=
  a.agrees_walk m cancel m.start [] [] 0 input

end Automaton

/-- A run and the kind it was. -/
structure Result where
  mode : Mode
  run : Run Step
  deriving DecidableEq, Repr

namespace Result

def accepted (r : Result) : Bool := r.run.accepts

/-- The states a run ends in. -/
def finalStates (r : Result) : List Text := r.run.trace.final.states

end Result

namespace Automaton

/-- The deterministic run. -/
def runDfa (a : Automaton) (input : Text) (cancel : Cancellation) : Result :=
  ⟨.dfa, a.run a.firstMove input cancel⟩

/-- The nondeterministic run. -/
def runNfa (a : Automaton) (mode : EpsilonMode) (input : Text) (cancel : Cancellation) :
    Result :=
  ⟨.nfa, a.run (a.allMoves mode) input cancel⟩

/-- The kind of run that a value names, in any case of letters; with `null` the shape of
the automaton decides. -/
def chooseMode (a : Automaton) : Json → Except Fault Mode
  | .atom .null => .ok (if a.isDeterministic then .dfa else .nfa)
  | .atom (.text s) =>
    let lowered := Text.lower s
    if lowered = Mode.dfa.name then .ok .dfa
    else if lowered = Mode.nfa.name then .ok .nfa
    else .error (.parameter (.unknownFiniteMode lowered))
  | mode => .error (.parameter (.finiteModeNotText mode))

/-- The nondeterministic run under a named reading of `ε`. -/
def simulateNfa (a : Automaton) (epsilonMode : Json) (input : Text) (cancel : Cancellation) :
    Except Fault Result := do
  return a.runNfa (← EpsilonMode.ofJson epsilonMode) input cancel

/-- The run of the named kind.  How `ε` is read matters to the nondeterministic kind
only, which alone looks at it. -/
def simulate (a : Automaton) (mode epsilonMode : Json) (input : Text)
    (cancel : Cancellation) : Except Fault Result := do
  match ← a.chooseMode mode with
  | .dfa => return a.runDfa input cancel
  | .nfa => a.simulateNfa epsilonMode input cancel

end Automaton

end FormalMachines.Finite
