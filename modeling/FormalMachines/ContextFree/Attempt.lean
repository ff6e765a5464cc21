import FormalMachines.ContextFree.Search
import FormalMachines.Fault

/-!
# FormalMachines.ContextFree.Attempt

The search for a derivation as it runs.

`Grammar.derive` adds costs without limits and finds everything it looks up.  The search
that runs may fail at either, and otherwise does the same:

* costs are numbers of any size or infinity.  Infinity is a floating-point number, so a sum
  with it makes one of the other summand too, and fails if that is out of range (`Cost.sum`);
* costs and productions stand in tables by non-terminal, and it fails to look up a symbol
  that a table has no entry for (`entryOf`);
* costs are lowered until a sweep changes none of them, and it fails if they have not settled
  after all the sweeps allowed.
-/

namespace FormalMachines.ContextFree

/-! ## Sums -/

namespace Cost

/-- Natural numbers from here on are out of the range of binary64: they are no nearer to its
greatest number, which is `2 ^ 1024 - 2 ^ 971`, than to `2 ^ 1024`. -/
def range : Nat := Nat.pow 2 1024 - Nat.pow 2 970

/-- The sum of infinity and a number. -/
def infinitePlus (n : Nat) : Except Fault Cost :=
  if n < range then .ok .infinite else .error (.value (.outOfRange n))

/-- The sum of two costs. -/
def sum : Cost → Cost → Except Fault Cost
  | .finite m, .finite n => .ok (.finite (m + n))
  | .finite n, .infinite => infinitePlus n
  | .infinite, .finite n => infinitePlus n
  | .infinite, .infinite => .ok .infinite

end Cost

/-- The sums of both costs. -/
def Costs.sum (c d : Costs) : Except Fault Costs := do
  return ⟨← c.yield.sum d.yield, ← c.steps.sum d.steps⟩

/-! ## Tables -/

/-- What a table has for a symbol. -/
def entryOf {α : Type} (table : List (Text × α)) (symbol : Text) : Except Fault α :=
  match table.lookup symbol with
  | some value => .ok value
  | none => .error (.value (.noEntry symbol))

/-- The productions of the non-terminals. -/
abbrev ProductionTable := List (Text × List Production)

namespace Grammar

/-- The productions of every declared non-terminal. -/
def productionTable (g : Grammar) : ProductionTable :=
  (g.nonTerminals.filterMap Atom.text?).map fun s => (s, g.productionsFor s)

/-- The costs of a symbol, those of a non-terminal as the table has them. -/
def attemptCostOf (g : Grammar) (table : CostTable) (symbol : Text) : Except Fault Costs :=
  if g.isNonTerminal symbol then entryOf table symbol else .ok ⟨.finite symbol.length, 0⟩

/-- Adds the costs of a form, from the first symbol on, to those added so far. -/
def addUp (g : Grammar) (table : CostTable) (total : Costs) (form : Form) : Except Fault Costs :=
  form.foldlM (fun total symbol => do total.sum (← g.attemptCostOf table symbol)) total

/-! ## The costs -/

/-- Lowers the table by one production. -/
def attemptRelax (g : Grammar) (table : CostTable) (p : Production) : Except Fault CostTable := do
  let costs ← g.addUp table ⟨0, .finite 1⟩ p.symbols
  let _ ← entryOf table p.left
  return table.lower p.left costs

/-- Lowers the table by every production in turn. -/
def attemptSweep (g : Grammar) (table : CostTable) : Except Fault CostTable :=
  g.productions.foldlM g.attemptRelax table

/-- Sweeps until nothing changes, which must come after fewer sweeps than allowed. -/
def attemptSettle (g : Grammar) : Nat → CostTable → Except Fault CostTable
  | 0, _ => .error (.value .unsettled)
  | bound + 1, table => do
    let next ← g.attemptSweep table
    if next = table then return table else attemptSettle g bound next

/-- The least costs of the non-terminals. -/
def attemptCosts (g : Grammar) : Except Fault CostTable :=
  g.attemptSettle (g.nonTerminals.length + 1) g.initialCosts

end Grammar

/-! ## The search -/

namespace Search

/-- Adds up the costs of a form where a look at it goes by them: it holds a non-terminal,
and the target begins with what stands before the first one. -/
def weigh (goal : Goal) (form : Form) : Except Fault Unit := do
  if (goal.grammar.leftmost? form).any fun l => (spell l.before).isPrefixOf goal.target then
    let _ ← goal.grammar.addUp goal.costs .zero form

/-- Counts a node and looks at a form, unless the search has to end. -/
def attemptLook (goal : Goal) (remaining : Nat) (form : Form) (s : Search) :
    Except Fault (Look × Search) := do
  let counted := { s with nodes := s.nodes + 1 }
  if goal.cancel.raisedAt s.nodes then return (.answer (.stopped .cancelled), counted)
  else if goal.nodeLimit.any (· < counted.nodes) then
    return (.answer (.stopped .budgetExhausted), counted)
  else
    weigh goal form
    return (judge goal s.failures remaining form, counted)

/-- Tries productions in turn, until one leads to the target or ends the search; `go`
searches from the form that a production gives. -/
def attemptEach (go : Form → Search → Except Fault (Answer × Search)) (l : Leftmost) :
    List Production → Bool → Search → Except Fault (Answer × Search)
  | [], truncated, s => return (.failed truncated, s)
  | p :: rest, truncated, s => do
    let child := l.replace p.symbols
    match ← go child s with
    | (.found path, s) => return (.found (⟨child, p, l.before.length⟩ :: path), s)
    | (.failed t, s) => attemptEach go l rest (truncated || t) s
    | (.stopped outcome, s) => return (.stopped outcome, s)

/-- Searches from a form with so many steps left. -/
def attemptExpand (goal : Goal) (productions : ProductionTable) :
    Nat → Form → Search → Except Fault (Answer × Search)
  | 0, form, s => do
    match ← attemptLook goal 0 form s with
    | (.answer a, s) => return (a, s)
    | (.branch _, s) => return (.failed true, s)
  | remaining + 1, form, s => do
    match ← attemptLook goal (remaining + 1) form s with
    | (.answer a, s) => return (a, s)
    | (.branch l, s) =>
      let rules ← entryOf productions l.symbol
      match ← attemptEach (attemptExpand goal productions remaining) l rules false s with
      | (.failed truncated, s) =>
        return (.failed truncated, s.remember l truncated (remaining + 1))
      | result => return result

end Search

/-- Searches with one step more each time, from `depth` on and so many times at most. -/
def attemptDeepen (goal : Goal) (productions : ProductionTable) :
    Nat → Nat → Search → Except Fault Result
  | 0, _, s => return .without .budgetExhausted s
  | left + 1, depth, s => do
    match ← s.attemptExpand goal productions depth [goal.grammar.start] with
    | (.stopped outcome, s) => return .without outcome s
    | (.found path, s) => return .found (goal.grammar.derivationOf path) depth s
    | (.failed false, s) => return .without .rejected s
    | (.failed true, s) => attemptDeepen goal productions left (depth + 1) s

/-- The search for a shortest leftmost derivation of a text, as it runs. -/
def Grammar.attempt (g : Grammar) (target : Text) (budget : Budget) (cancel : Cancellation) :
    Except Fault Result := do
  let goal : Goal := ⟨g, target, ← g.attemptCosts, budget.nodes, cancel⟩
  attemptDeepen goal g.productionTable (depthLimit budget) 1 .initial

end FormalMachines.ContextFree
