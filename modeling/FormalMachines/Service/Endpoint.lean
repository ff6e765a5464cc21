import FormalMachines.ContextFree.Attempt
import FormalMachines.ContextFree.Report
import FormalMachines.Finite.Report
import FormalMachines.Finite.Transformation
import FormalMachines.Json.Parser
import FormalMachines.Pushdown.Report
import FormalMachines.Service.Settings
import FormalMachines.Text.Encoding
import FormalMachines.Turing.Report

/-!
# FormalMachines.Service.Endpoint

A service that answers requests about machines and grammars.

A request is a method and a body.  Only one method is allowed, and the body must be the
JSON text of an object that defines the machine.  Then, in this order, the definition is
built, the input is read, the limits are worked out, and the machine is run.  The first
thing that fails decides the response: a bad request if it can be reported in words, else
an error of the server.  A body that its host does not read, because it is too long or nested
too deeply, is an error of the server as well.
-/

namespace FormalMachines.Service

/-- What a request can ask for. -/
inductive Endpoint where
  | simulateFinite
  | checkFinite
  | determinise
  | minimise
  | simulatePushdown
  | simulateTuring
  | derive
  deriving DecidableEq, Repr

namespace Endpoint

/-- Every endpoint with the last part of its path. -/
def paths : List (Text × Endpoint) :=
  [("simulate-fa", .simulateFinite), ("check-fa-type", .checkFinite),
   ("subset-construction", .determinise), ("minimise-dfa", .minimise),
   ("simulate-pda", .simulatePushdown), ("simulate-tm", .simulateTuring),
   ("derive-cfg", .derive)]

/-- The endpoint at a path. -/
def ofPath? (path : Text) : Option Endpoint := paths.lookup path

/-- What a request to an endpoint defines, under the key of that name. -/
def subject : Endpoint → Subject
  | .simulateTuring => .machine
  | .derive => .grammar
  | _ => .automaton

end Endpoint

/-- The answer to a request. -/
inductive Response where
  | methodNotAllowed
  | malformedBody
  | badRequest (message : Text)
  | serverError
  | ok (body : Json)

namespace Response

/-- The response that an outcome gives. -/
def ofOutcome : Except Fault Json → Response
  | .ok body => .ok body
  | .error fault =>
    match fault.message? with
    | some message => .badRequest message
    | none => .serverError

end Response

/-- The only method allowed. -/
def allowedMethod : Text := "POST"

/-! ## Reading a request -/

/-- What a service is given by its host: how far lists and objects are followed, which depends
on how much of the stack is left, and how many bytes a body may have. -/
structure Host where
  nesting : Nat
  largestBody : Option Nat

/-- A host that is not set up in any way. -/
def Host.standard : Host := ⟨Json.standardNesting, some 2621440⟩

/-- The value that a body holds, as far as the host reads it. -/
def Host.read (host : Host) (body : ByteArray) : Except Json.Unreadable Json :=
  if host.largestBody.any (· < body.size) then .error .tooLarge
  else (Json.required (Text.decode body)).bind (Json.parseWithin host.nesting)

/-- The definition that a request holds. -/
def definitionIn (request : Json.Members) (what : Subject) : Except Fault Json :=
  let definition := request.value what.name
  if definition.isTruthy then .ok definition
  else .error (.parameter (.missingDefinition what))

/-- A text that a request may leave out. -/
def textIn (request : Json.Members) (key : Text) : Except Fault Text :=
  match request.get? key with
  | none => .ok []
  | some (.atom (.text s)) => .ok s
  | some _ => .error (.parameter (.notText key))

/-- The reading of `ε` that a request names, literal if it names none. -/
def epsilonModeIn (request : Json.Members) : Json :=
  (request.get? "epsilonMode").getD (.text "literal")

/-! ## Answering -/

/-- What is said of a finite automaton's kind. -/
def typeReport (a : Finite.Automaton) : Except Fault Json := do
  let (short, long) := if a.isDeterministic then ("DFA", "Deterministic Finite Automaton")
    else ("NFA", "Non-deterministic Finite Automaton")
  let complete ← a.isComplete
  return .object [("isDeterministic", .bool a.isDeterministic), ("type", .text short),
    ("description", .text long), ("isComplete", .bool complete),
    ("nondeterministicChoices", .list (a.choices.map (·.toJson)))]

/-- An automaton beside what was made of it. -/
def besideGiven (a : Finite.Automaton) (key : Text) (made : Finite.Automaton) : Json :=
  .object [("original", a.toJson), (key, made.toJson)]

/-- The answer to a well-formed request. -/
def answer (settings : Settings) (endpoint : Endpoint) (request : Json.Members) :
    Except Fault Json := do
  let definition ← definitionIn request endpoint.subject
  match endpoint with
  | .simulateFinite =>
    let a ← Finite.Automaton.ofJson definition
    let input ← textIn request "input"
    let result ← a.simulate (request.value "mode") (epsilonModeIn request) input .never
    return result.toJson
  | .checkFinite => typeReport (← Finite.Automaton.ofJson definition)
  | .determinise =>
    let a ← Finite.Automaton.ofJson definition
    let addDead := (request.value "addDeadState").isTruthy
    return besideGiven a "dfa" (← a.determinise (epsilonModeIn request) addDead)
  | .minimise =>
    let a ← Finite.Automaton.ofJson definition
    return besideGiven a "minimised" (← a.minimise)
  | .simulatePushdown =>
    let a ← Pushdown.Automaton.ofJson definition
    let input ← textIn request "input"
    let budget ← requestBudget settings .pushdown request
    let mode := (request.get? "mode").getD (.text Pushdown.Mode.firstMatch.name)
    return (← a.simulate mode input budget .never).toJson
  | .simulateTuring =>
    let m ← Turing.Machine.ofJson definition
    let input ← textIn request "input"
    let budget ← requestBudget settings .turing request
    return m.runJson (m.run input budget .never)
  | .derive =>
    let g ← ContextFree.Grammar.ofJson definition
    let target ← textIn request "target"
    let budget ← requestBudget settings .grammar request
    return (← g.attempt target budget .never).toJson

/-- The answer to a request whose body holds a value. -/
def answerValue (settings : Settings) (endpoint : Endpoint) (body : Json) : Except Fault Json :=
  match body with
  | .object members => answer settings endpoint members
  | _ => .error (.parameter .bodyNotObject)

/-- The response of a service on a host. -/
def respondOn (host : Host) (settings : Settings) (endpoint : Endpoint) (method : Text)
    (body : ByteArray) : Response :=
  if Text.upper method ≠ allowedMethod then .methodNotAllowed
  else
    match host.read body with
    | .error .malformed => .malformedBody
    | .error .tooDeep => .serverError
    | .error .tooLarge => .serverError
    | .ok value => .ofOutcome (answerValue settings endpoint value)

/-- The response to a request. -/
def respond (settings : Settings) (endpoint : Endpoint) (method : Text) (body : ByteArray) :
    Response :=
  respondOn .standard settings endpoint method body

end FormalMachines.Service
