import FormalMachines.Turing.Document
import FormalMachines.Turing.Run

/-!
# FormalMachines.Turing.Report

The JSON form of a run of a Turing machine, with the tape it leaves behind.
-/

namespace FormalMachines.Turing

def Step.toJson (s : Step) : Json :=
  .object [("step", .nat s.number), ("state", .text s.configuration.state),
    ("tape", .texts s.configuration.tape.cells),
    ("headPosition", .nat s.configuration.tape.position),
    ("transition", (s.fired.map (·.toJson)).getD .null),
    ("accepted", (s.accepted.map Json.bool).getD .null),
    ("rejected", (s.rejected.map Json.bool).getD .null)]

namespace Machine

/-- The tape at the end of a run. -/
def finalTape (r : Run Step) : Tape := r.trace.final.configuration.tape

/-- What a run leaves on the tape. -/
def contentsOf (m : Machine) (r : Run Step) : Text := (finalTape r).contents m.blank

def runJson (m : Machine) (r : Run Step) : Json :=
  .object [("accepted", .bool r.accepts), ("rejected", .bool (rejects r)),
    ("outcome", .text r.outcome.name), ("finalTape", .texts (finalTape r).cells),
    ("tapeContents", .text (m.contentsOf r)), ("steps", .list (r.steps.map (·.toJson)))]

end Machine

end FormalMachines.Turing
