import FormalMachines.Json.Fields
import FormalMachines.Run.Budget

/-!
# FormalMachines.Service.Settings

How far a request may set the limits of its run.

For each kind of machine the settings hold default limits and ceilings.  A limit that a
request does not mention is the default one, and one that it sets to `null` is not set at
all; a limit above its ceiling is lowered to it.  What a request sets must be an integer
before it is compared with a ceiling, and a positive one in the end.

The settings are JSON values, so that a service can be given any; those that name no
limits where limits are needed are a fault of the service and not of the request.
-/

namespace FormalMachines.Service

/-- The kinds of machine whose runs are limited. -/
inductive Kind where
  | pushdown | turing | grammar
  deriving DecidableEq, Repr

/-- The key of a kind in the settings. -/
def Kind.key : Kind → Text
  | .pushdown => "pda"
  | .turing => "tm"
  | .grammar => "cfg"

/-- The default limits and the ceilings, each by kind and limit. -/
structure Settings where
  defaults : Json
  ceilings : Json

/-- A table of limits. -/
def limits (entries : List (Limit × Nat)) : Json :=
  .object (entries.map fun e => (e.1.key, .nat e.2))

/-- The settings of a service that is given none. -/
def Settings.standard : Settings where
  defaults := .object [(Kind.pushdown.key, limits [(.steps, 100), (.nodes, 10000)]),
    (Kind.turing.key, limits [(.steps, 1000)]),
    (Kind.grammar.key, limits [(.depth, 20), (.nodes, 200000)])]
  ceilings := .object [(Kind.pushdown.key, limits [(.steps, 2000), (.nodes, 20000)]),
    (Kind.turing.key, limits [(.steps, 2000)]),
    (Kind.grammar.key, limits [(.depth, 40), (.nodes, 500000)])]

/-- The table of a kind, empty if there is none. -/
def tableOf (tables : Json) (kind : Kind) : Except Fault Json :=
  match tables with
  | .object members => .ok ((Json.Members.get? members kind.key).getD (.object []))
  | _ => .error (.value .badSettings)

/-- The default of a limit, `null` if there is none. -/
def defaultIn (table : Json) (limit : Limit) : Except Fault Json :=
  match table with
  | .object members => .ok (Json.Members.value members limit.key)
  | _ => .error (.value .badSettings)

/-- The ceiling of a limit, if there is one.  A list or a text that only mentions the
limit gives it no ceiling to apply. -/
def ceilingIn? (table : Json) (limit : Limit) : Except Fault (Option Json) :=
  match table with
  | .object members => .ok (Json.Members.get? members limit.key)
  | .list items =>
    if items.any (·.isText limit.key) then .error (.value .badSettings) else .ok none
  | .atom (.text s) =>
    if limit.key.occursIn s then .error (.value .badSettings) else .ok none
  | .atom _ => .error (.value .badSettings)

/-- The smaller of a value and a ceiling, which must be a number. -/
def capped (value : Int) (ceiling : Json) : Except Fault Json :=
  match ceiling with
  | .atom a =>
    match a.key with
    | .number q => .ok (if q < value then ceiling else .integer value)
    | .infinite negative => .ok (if negative then ceiling else .integer value)
    | .notANumber => .ok (.integer value)
    | .null | .text _ => .error (.value .badSettings)
  | _ => .error (.value .badSettings)

/-- The value of one limit of a run: what the request sets or else the default, under the
ceiling. -/
def limitValue (request : Json.Members) (defaults ceilings : Json) (limit : Limit) :
    Except Fault Json := do
  let default ← defaultIn defaults limit
  match (request.get? limit.key).getD default with
  | .atom .null => return .null
  | .atom (.integer n) =>
    match ← ceilingIn? ceilings limit with
    | some ceiling => capped n ceiling
    | none => return .integer n
  | _ => throw (.parameter (.requestNotInteger limit))

/-- The budget of the run that a request asks for. -/
def requestBudget (settings : Settings) (kind : Kind) (request : Json.Members) :
    Except Fault Budget := do
  let defaults ← tableOf settings.defaults kind
  let ceilings ← tableOf settings.ceilings kind
  let steps ← limitValue request defaults ceilings .steps
  let depth ← limitValue request defaults ceilings .depth
  let nodes ← limitValue request defaults ceilings .nodes
  Budget.ofValues fun
    | .steps => steps
    | .depth => depth
    | .nodes => nodes

end FormalMachines.Service
