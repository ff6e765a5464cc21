import FormalMachines.Finite.Document
import FormalMachines.Finite.Run

/-!
# FormalMachines.Finite.Report

The JSON form of what is found out about a finite automaton: its runs and its choices.
-/

namespace FormalMachines.Finite

/-- A state and a symbol with their competing targets. -/
def Choice.toJson (c : Choice) : Json :=
  .object [("state", .text c.state), ("symbol", .atom c.symbol), ("targets", .texts c.targets)]

/-- Several states as one text. -/
def joinStates (states : List Text) : Text := Text.join "," states

/-- A verdict that may be missing. -/
def verdictJson (v : Option Bool) : Json := (v.map Json.bool).getD .null

def Step.toJson (s : Step) : Json :=
  .object [("currentState", .text (joinStates s.states)), ("states", .texts s.states),
    ("remainingInput", .text s.remaining), ("consumedInput", .text s.consumed),
    ("transitions", .list (s.fired.map (·.toJson))), ("accepted", verdictJson s.accepted)]

def Result.toJson (r : Result) : Json :=
  .object [("accepted", .bool r.accepted), ("outcome", .text r.run.outcome.name),
    ("mode", .text r.mode.name), ("finalState", .text (joinStates r.finalStates)),
    ("finalStates", .texts r.finalStates), ("steps", .list (r.run.steps.map (·.toJson)))]

end FormalMachines.Finite
