import FormalMachines.ContextFree.Basic
import FormalMachines.Declaration
import FormalMachines.Json.Order
import FormalMachines.Text.Blank

/-!
# FormalMachines.ContextFree.Document

The JSON form of a grammar.

A production's right side is a list of symbols or one text of words.  `Draft.validate`
reports the first fault, in the order non-terminals, terminals, symbols declared as both,
start symbol, productions.  The symbols declared as both are reported in order and as the
shorter of the two lists gives them, the non-terminals if both are as long.
-/

namespace FormalMachines.ContextFree

/-- A grammar whose symbols are not checked. -/
structure Draft where
  terminals : List Json
  nonTerminals : List Json
  productions : List Production
  start : Text

/-- The symbols that two lists of distinct atoms share, as the shorter one gives them. -/
def sharedSymbols (terminals nonTerminals : List Atom) : List Atom :=
  if nonTerminals.length ≤ terminals.length then
    nonTerminals.filter (·.isAmong terminals)
  else terminals.filter (·.isAmong nonTerminals)

/-- Fails if a symbol is declared both ways. -/
def checkDisjoint (terminals nonTerminals : List Atom) : Except Fault Unit :=
  match sharedSymbols (Atom.distinct terminals) nonTerminals with
  | [] => .ok ()
  | shared =>
    match Atom.sorted? shared with
    | some inOrder => .error (.definition (.overlap inOrder))
    | none => .error (.value (.unordered shared))

/-- The production itself if it replaces a non-terminal by known symbols. -/
def Production.validate (p : Production) (g : Grammar) : Except Fault Production := do
  let left ← declaredText .leftHandSide g.nonTerminals p.left
  match p.right.find? fun s => !g.isKnown s with
  | some symbol => throw (.definition (.undeclaredSymbol p.display symbol))
  | none => return { p with left := left }

/-- The grammar of a draft that holds together. -/
def Draft.validate (d : Draft) : Except Fault Grammar := do
  let nonTerminals ← distinctAtoms "nonTerminals" d.nonTerminals
  let terminals ← d.terminals.mapM Json.requireAtom
  checkDisjoint terminals nonTerminals
  let start ← declaredText .startSymbol nonTerminals d.start
  let g : Grammar := ⟨terminals, nonTerminals, d.productions, start⟩
  let productions ← d.productions.mapM (·.validate g)
  return { g with productions := productions }

/-! ## Reading -/

/-- The right side that a value gives. -/
def readRight (v : Json) : Except Fault (List Text) :=
  match v with
  | .atom (.text s) => .ok (Text.words s)
  | _ =>
    match v.textItems? with
    | some symbols => .ok symbols
    | none => .error (.definition .rightSideShape)

/-- The production of a record. -/
def readProduction (entry : Json) : Except Fault Production := do
  let members ← entry.requireObject .production
  let right ← readRight ((members.get? "right").getD (.list []))
  let left ← members.requireText "left"
  return ⟨left, right⟩

/-- The draft that a definition gives. -/
def readDraft (definition : Json) : Except Fault Draft := do
  let members ← definition.requireObject .grammar
  let productions ← (← members.requireList "productions").mapM readProduction
  let terminals ← members.requireList "terminals"
  let nonTerminals ← members.requireList "nonTerminals"
  let start ← members.requireText "startSymbol"
  return ⟨terminals, nonTerminals, productions, start⟩

/-- The grammar that a definition gives. -/
def Grammar.ofJson (definition : Json) : Except Fault Grammar := do
  (← readDraft definition).validate

/-! ## Writing -/

def Production.toJson (p : Production) : Json :=
  .object [("left", .text p.left), ("right", .texts p.right)]

end FormalMachines.ContextFree
