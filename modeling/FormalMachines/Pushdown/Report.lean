import FormalMachines.Pushdown.Document
import FormalMachines.Pushdown.Search

/-!
# FormalMachines.Pushdown.Report

Runs of a pushdown automaton by the name of their kind, and the JSON form of a run.
There a stack is written bottom first.
-/

namespace FormalMachines.Pushdown

/-- The two kinds of run. -/
inductive Mode where
  | firstMatch
  | search
  deriving DecidableEq, Repr

namespace Mode

def name : Mode → Text
  | .firstMatch => "first-match"
  | .search => "search"

/-- The kind of a name. -/
def ofJson (mode : Json) : Except Fault Mode :=
  if mode.isText Mode.firstMatch.name then .ok .firstMatch
  else if mode.isText Mode.search.name then .ok .search
  else .error (.parameter (.unknownPushdownMode mode))

end Mode

/-- A run and the kind it was. -/
structure Result where
  mode : Mode
  run : Run Step
  deriving DecidableEq, Repr

namespace Automaton

/-- The run of a kind. -/
def runIn (a : Automaton) (mode : Mode) (input : Text) (budget : Budget)
    (cancel : Cancellation) : Result :=
  let run := match mode with
    | .firstMatch => a.runFirstMatch input budget cancel
    | .search => a.runSearch input budget cancel
  ⟨mode, run⟩

/-- The run of the named kind. -/
def simulate (a : Automaton) (mode : Json) (input : Text) (budget : Budget)
    (cancel : Cancellation) : Except Fault Result := do
  return a.runIn (← Mode.ofJson mode) input budget cancel

end Automaton

/-- A stack, bottom first. -/
def stackJson (stack : List Text) : Json := .texts stack.reverse

def Step.toJson (s : Step) : Json :=
  .object [("step", .nat s.number), ("state", .text s.state),
    ("remainingInput", .text s.remaining), ("consumedInput", .text s.consumed),
    ("stack", stackJson s.stack), ("transition", (s.fired.map (·.toJson)).getD .null),
    ("accepted", (s.accepted.map Json.bool).getD .null)]

namespace Result

/-- The last step of a run. -/
def final (r : Result) : Step := r.run.trace.final

/-- The symbol on top of the stack at the end, if there is one. -/
def stackTop? (r : Result) : Option Text := r.final.stack.head?

def toJson (r : Result) : Json :=
  .object [("accepted", .bool r.run.accepts), ("outcome", .text r.run.outcome.name),
    ("mode", .text r.mode.name), ("finalState", .text r.final.state),
    ("steps", .list (r.run.steps.map (·.toJson)))]

end Result

end FormalMachines.Pushdown
