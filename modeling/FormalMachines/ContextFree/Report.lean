import FormalMachines.ContextFree.Document
import FormalMachines.ContextFree.Search

/-!
# FormalMachines.ContextFree.Report

The JSON form of derivations and of the results of a search for one.
-/

namespace FormalMachines.ContextFree

def DerivationStep.toJson (s : DerivationStep) : Json :=
  .object [("step", .integer s.number), ("sententialForm", .texts s.form),
    ("productionUsed", (s.production.map (·.toJson)).getD .null),
    ("appliedAt", (s.index.map Json.integer).getD .null)]

def Result.toJson (r : Result) : Json :=
  .object [("canDerive", .bool r.canDerive), ("outcome", .text r.outcome.name),
    ("depth", (r.depth.map Json.nat).getD .null), ("nodesExplored", .nat r.nodes),
    ("derivation", .list (r.derivation.map (·.toJson)))]

end FormalMachines.ContextFree
