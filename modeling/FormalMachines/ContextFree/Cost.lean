import FormalMachines.ContextFree.Basic

/-!
# FormalMachines.ContextFree.Cost

How short a terminal text a non-terminal can derive, and in how few steps.

Both costs start out infinite and are lowered by the productions, one after the other and
in place, until a sweep over all of them lowers nothing (`Grammar.costs`).  A cost that
stays infinite is that of a non-terminal that derives no terminal text.
-/

namespace FormalMachines.ContextFree

/-- A natural number or infinity. -/
inductive Cost where
  | finite (value : Nat)
  | infinite
  deriving DecidableEq, Repr

namespace Cost

def add : Cost → Cost → Cost
  | .finite m, .finite n => .finite (m + n)
  | _, _ => .infinite

instance : Add Cost := ⟨add⟩

instance : Zero Cost := ⟨.finite 0⟩

/-- The order, in which infinity is greatest. -/
def le : Cost → Cost → Prop
  | .finite m, .finite n => m ≤ n
  | _, .infinite => True
  | .infinite, .finite _ => False

instance : LE Cost := ⟨le⟩

instance (c d : Cost) : Decidable (c ≤ d) :=
  match c, d with
  | .finite m, .finite n => inferInstanceAs (Decidable (m ≤ n))
  | .finite _, .infinite => .isTrue trivial
  | .infinite, .infinite => .isTrue trivial
  | .infinite, .finite _ => .isFalse id

/-- The smaller of two costs. -/
def min (c d : Cost) : Cost := if c ≤ d then c else d

@[simp] theorem finite_add (m n : Nat) : finite m + finite n = finite (m + n) := rfl
@[simp] theorem infinite_add (c : Cost) : infinite + c = infinite := rfl
@[simp] theorem add_infinite (c : Cost) : c + infinite = infinite := by cases c <;> rfl
@[simp] theorem finite_le_finite {m n : Nat} : finite m ≤ finite n ↔ m ≤ n := Iff.rfl
@[simp] theorem le_infinite (c : Cost) : c ≤ infinite := by cases c <;> trivial
@[simp] theorem not_infinite_le_finite {n : Nat} : ¬ infinite ≤ finite n := id

end Cost

/-- The two costs of a symbol or a form. -/
structure Costs where
  /-- The length of the shortest terminal text. -/
  yield : Cost
  /-- The fewest productions that lead to a terminal text. -/
  steps : Cost
  deriving DecidableEq, Repr

namespace Costs

def infinite : Costs := ⟨.infinite, .infinite⟩
def zero : Costs := ⟨0, 0⟩

def add (c d : Costs) : Costs := ⟨c.yield + d.yield, c.steps + d.steps⟩

instance : Add Costs := ⟨add⟩

/-- The smaller of each cost. -/
def min (c d : Costs) : Costs := ⟨c.yield.min d.yield, c.steps.min d.steps⟩

end Costs

/-- The costs known of the non-terminals. -/
abbrev CostTable := List (Text × Costs)

namespace CostTable

/-- The costs of a non-terminal. -/
def get (table : CostTable) (symbol : Text) : Costs := (table.lookup symbol).getD .infinite

/-- Lowers the costs of a non-terminal. -/
def lower (table : CostTable) (symbol : Text) (costs : Costs) : CostTable :=
  table.map fun e => if e.1 = symbol then (e.1, e.2.min costs) else e

end CostTable

namespace Grammar

/-- The costs of a symbol: those in the table for a non-terminal, and for a terminal its
length and no step. -/
def costOf (g : Grammar) (table : CostTable) (symbol : Text) : Costs :=
  if g.isNonTerminal symbol then table.get symbol else ⟨.finite symbol.length, 0⟩

/-- The costs of a form: the sums over its symbols. -/
def costOfForm (g : Grammar) (table : CostTable) (form : Form) : Costs :=
  form.foldr (fun s acc => g.costOf table s + acc) .zero

/-- The costs that a production gives its left side: those of its symbols, and one step
more. -/
def costOfProduction (g : Grammar) (table : CostTable) (p : Production) : Costs :=
  let c := g.costOfForm table p.symbols
  ⟨c.yield, .finite 1 + c.steps⟩

/-- The table before any production was looked at. -/
def initialCosts (g : Grammar) : CostTable :=
  (g.nonTerminals.filterMap Atom.text?).map (·, .infinite)

/-- Lowers the table by one production. -/
def relax (g : Grammar) (table : CostTable) (p : Production) : CostTable :=
  table.lower p.left (g.costOfProduction table p)

/-- Lowers the table by every production in turn. -/
def sweep (g : Grammar) (table : CostTable) : CostTable := g.productions.foldl g.relax table

/-- Sweeps until nothing changes, so many times at most. -/
def settle (g : Grammar) : Nat → CostTable → CostTable
  | 0, table => table
  | bound + 1, table =>
    let next := g.sweep table
    if next = table then table else settle g bound next

/-- The least costs of the non-terminals.  Each sweep but the last settles one of them
more, so there is at most one sweep more than there are non-terminals. -/
def costs (g : Grammar) : CostTable := g.settle (g.nonTerminals.length + 1) g.initialCosts

/-- The least costs of a declared non-terminal. -/
def costsOf (g : Grammar) (table : CostTable) (a : Atom) : Costs :=
  match a with
  | .text s => g.costOf table s
  | _ => .infinite

end Grammar

end FormalMachines.ContextFree
