import FormalMachines.Json.Display

/-!
# FormalMachines.Fault

Why an operation gives no answer, by cause.

* `DefinitionError`: a machine or grammar is malformed.
* `ParameterError`: an operation was asked for something it does not do.
* `ValueFault`: a value that cannot be worked with stands where no check looks for it.

The first two are reported in words (`Fault.message?`); a value fault is not.
-/

namespace FormalMachines

/-- What must be an object. -/
inductive Subject where
  | automaton | machine | grammar | transition | production
  deriving DecidableEq, Repr

def Subject.name : Subject → Text
  | .automaton => "automaton"
  | .machine => "machine"
  | .grammar => "grammar"
  | .transition => "transition"
  | .production => "production"

/-- The parts of a definition that name a declared state or symbol. -/
inductive Role where
  | startState | acceptingState | acceptState | rejectState
  | transitionSource | transitionTarget | startSymbol | leftHandSide
  deriving DecidableEq, Repr

def Role.name : Role → Text
  | .startState => "Start state"
  | .acceptingState => "Accepting state"
  | .acceptState => "Accept state"
  | .rejectState => "Reject state"
  | .transitionSource => "Transition source"
  | .transitionTarget => "Transition target"
  | .startSymbol => "Start symbol"
  | .leftHandSide => "Production left-hand side"

/-- What is wrong with a definition. -/
inductive DefinitionError where
  | notObject (what : Subject)
  | missing (key : Text)
  | notList (key : Text)
  | invalidState (entry : Json)
  | startsFlagged (names : List Text)
  | noStart
  | startNotText
  | startDisagrees (start : Text) (flagged : List Text)
  | movesNotObject (state : Text)
  | transitionsShape
  | pushShape
  | rightSideShape
  | repeated (collection : Text)
  | undeclared (role : Role) (name : Json)
  | badInitialStackSymbol
  | sameHaltStates
  | emptyBlank
  | badDirection (direction : Text)
  | overlap (symbols : List Atom)
  | undeclaredSymbol (production symbol : Text)

def DefinitionError.message : DefinitionError → Text
  | .notObject what => what.name ++ " must be a dictionary"
  | .missing key => "Missing required key: " ++ key
  | .notList key => key ++ " must be a list"
  | .invalidState entry => "Invalid state entry: " ++ entry.quoted
  | .startsFlagged names => "More than one start state flagged: " ++ quotedTexts names
  | .noStart => "No start state given"
  | .startNotText => "startState must be a string"
  | .startDisagrees start flagged =>
    "startState '" ++ start ++ "' disagrees with flagged start states " ++ quotedTexts flagged
  | .movesNotObject state => "Transitions for state '" ++ state ++ "' must be a dictionary"
  | .transitionsShape => "transitions must be a list or a dictionary"
  | .pushShape => "pushSymbols must be a list of symbols"
  | .rightSideShape => "Production right side must be a list of symbols"
  | .repeated collection => collection ++ " must be unique"
  | .undeclared role name => role.name ++ " '" ++ name.display ++ "' not in declared list"
  | .badInitialStackSymbol => "initialStackSymbol must be a non-empty stack symbol"
  | .sameHaltStates => "acceptState and rejectState must differ"
  | .emptyBlank => "blankSymbol must be a non-empty symbol"
  | .badDirection direction => "Move direction must be 'L' or 'R', got '" ++ direction ++ "'"
  | .overlap symbols =>
    "Symbols declared as both terminal and non-terminal: "
      ++ (Json.list (symbols.map .atom)).quoted
  | .undeclaredSymbol production symbol =>
    "Production '" ++ production ++ "' uses undeclared symbol '" ++ symbol ++ "'"

/-- The limits of a run. -/
inductive Limit where
  | steps | depth | nodes
  deriving DecidableEq, Repr

namespace Limit

/-- The limits in the order in which they are checked. -/
def all : List Limit := [.steps, .depth, .nodes]

def name : Limit → Text
  | .steps => "max_steps"
  | .depth => "max_depth"
  | .nodes => "max_nodes"

/-- The key of a limit in a request. -/
def key : Limit → Text
  | .steps => "maxSteps"
  | .depth => "maxDepth"
  | .nodes => "maxNodes"

end Limit

/-- What is wrong with the parameters of an operation. -/
inductive ParameterError where
  | limitNotInteger (limit : Limit)
  | limitNotPositive (limit : Limit)
  | finiteModeNotText (mode : Json)
  | unknownFiniteMode (mode : Text)
  | unknownEpsilonMode (mode : Json)
  | unknownPushdownMode (mode : Json)
  | notDeterministic
  | misappliedStep (step : Int) (production left : Text)
  | unfaithfulStep (step : Int)
  | bodyNotObject
  | missingDefinition (what : Subject)
  | notText (key : Text)
  | requestNotInteger (limit : Limit)

def ParameterError.message : ParameterError → Text
  | .limitNotInteger limit => limit.name ++ " must be an integer"
  | .limitNotPositive limit => limit.name ++ " must be a positive integer"
  | .finiteModeNotText mode => "Finite automaton mode must be a string, got " ++ mode.quoted
  | .unknownFiniteMode mode =>
    "Unknown finite automaton mode '" ++ mode ++ "', expected one of ('dfa', 'nfa')"
  | .unknownEpsilonMode mode =>
    "Unknown epsilon mode '" ++ mode.display ++ "', expected one of ('literal', 'closure')"
  | .unknownPushdownMode mode =>
    "Unknown PDA mode '" ++ mode.display ++ "', expected one of ('first-match', 'search')"
  | .notDeterministic => "DFA minimisation requires a deterministic automaton"
  | .misappliedStep step production left =>
    "Step " ++ Text.ofInt step ++ " applies '" ++ production ++ "' where '" ++ left
      ++ "' is not present"
  | .unfaithfulStep step =>
    "Step " ++ Text.ofInt step ++ " does not reproduce its recorded sentential form"
  | .bodyNotObject => "Request body must be a JSON object"
  | .missingDefinition what => "Missing " ++ what.name ++ " definition"
  | .notText key => key ++ " must be a string"
  | .requestNotInteger limit => limit.key ++ " must be an integer"

/-- A value that cannot be worked with. -/
inductive ValueFault where
  /-- A list or an object where a symbol of a set is needed. -/
  | compoundSymbol (value : Json)
  /-- A value with no items where its items are needed. -/
  | noItems (value : Json)
  /-- Symbols of different kinds where an order is needed. -/
  | unordered (symbols : List Atom)
  /-- Settings of a service that are no limits. -/
  | badSettings
  /-- A number too large to be added to a floating-point number. -/
  | outOfRange (number : Nat)
  /-- A symbol that a table has no entry for. -/
  | noEntry (symbol : Text)
  /-- Costs that have not settled after all the sweeps allowed. -/
  | unsettled

/-- Why an operation gives no answer. -/
inductive Fault where
  | definition (error : DefinitionError)
  | parameter (error : ParameterError)
  | value (fault : ValueFault)

/-- The words in which a fault is reported. -/
def Fault.message? : Fault → Option Text
  | .definition e => some e.message
  | .parameter e => some e.message
  | .value _ => none

end FormalMachines
