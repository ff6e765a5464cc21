import FormalMachines.ContextFree.Cost
import FormalMachines.ContextFree.Derivation
import FormalMachines.Run.Budget
import FormalMachines.Run.Cancellation
import FormalMachines.Run.Outcome
import Std.Data.HashMap

/-!
# FormalMachines.ContextFree.Search

The search for a shortest leftmost derivation of a text.

The search deepens: it looks for a derivation of at most one step, then of at most two,
and so on, and tries the productions of the first non-terminal in order, so that of
several shortest derivations the first in that order is found.  A form is given up at once

1. when it holds no non-terminal and does not spell the target;
2. when the target does not begin with what stands before the first non-terminal, which no
   step will change;
3. when the shortest text it can derive is longer than the target;
4. when the steps left are fewer than it needs;
5. when it failed before with as many steps left.

The last two depend on the steps left, and a search that gave up for such a reason alone
is *truncated*: only a deeper one can tell.  For the fifth the search remembers what
failed, up to the part of the form that no step will change, of which the length is
enough.

Every look at a form counts as a node.  It comes with a look at the cancellation, then
with the check of the node limit.

Costs are added up here as if no number were out of range.  The search that runs, where a sum
may fail, is `Grammar.attempt`; it has no other result than this one.
-/

namespace FormalMachines.ContextFree

/-- The limits of a search that is given none. -/
def defaultDepth : Nat := 20
def defaultBudget : Budget := { depth := some defaultDepth }

/-- The most steps a derivation may have. -/
def depthLimit (b : Budget) : Nat := b.depth.getD defaultDepth

theorem depth_completedBy (b : Budget) :
    (b.completedBy defaultBudget).depth = some (depthLimit b) := by
  cases h : b.depth <;> simp [Budget.completedBy, depthLimit, defaultBudget, h]

/-! ## What a search knows -/

/-- How far a form is known to fail: within so many steps, or in any number. -/
inductive Failure where
  | within (steps : Nat)
  | forever
  deriving DecidableEq, Repr

/-- Whether a failure rules out a derivation of so many steps. -/
def Failure.covers : Failure → Nat → Bool
  | .within n, steps => steps ≤ n
  | .forever, _ => true

/-- What is remembered of a form: the length of its fixed text and all that follows. -/
abbrev MemoKey := Nat × Form

/-- Where a search stands: the nodes looked at and the failures known. -/
structure Search where
  nodes : Nat
  failures : Std.HashMap MemoKey Failure

/-- What a search is after, and within which limits. -/
structure Goal where
  grammar : Grammar
  target : Text
  costs : CostTable
  nodeLimit : Option Nat
  cancel : Cancellation

/-- A step that leads to the target: the form after it, its production and its place. -/
structure Applied where
  form : Form
  production : Production
  index : Nat
  deriving DecidableEq, Repr

/-- What a search from a form comes to: a way to the target, none (and whether that may
be for want of steps), or an end from outside. -/
inductive Answer where
  | found (path : List Applied)
  | failed (truncated : Bool)
  | stopped (outcome : Outcome)
  deriving DecidableEq, Repr

/-! ## One form -/

/-- What a look at a form shows: an answer, or the non-terminal to go on with. -/
inductive Look where
  | answer (a : Answer)
  | branch (l : Leftmost)
  deriving DecidableEq, Repr

namespace Search

/-- The search at the start. -/
def initial : Search := ⟨0, {}⟩

/-- The key of a form split at its first non-terminal. -/
def key (l : Leftmost) : MemoKey := ((spell l.before).length, l.symbol :: l.after)

/-- Remembers that a form failed. -/
def remember (s : Search) (l : Leftmost) (truncated : Bool) (remaining : Nat) : Search :=
  let failure := if truncated then Failure.within remaining else .forever
  { s with failures := s.failures.insert (key l) failure }

/-- What is seen of a form with so many steps left, the limits aside. -/
def judge (goal : Goal) (failures : Std.HashMap MemoKey Failure) (remaining : Nat)
    (form : Form) : Look :=
  match goal.grammar.leftmost? form with
  | none => .answer (if spell form = goal.target then .found [] else .failed false)
  | some l =>
    let costs := goal.grammar.costOfForm goal.costs form
    if !(spell l.before).isPrefixOf goal.target then .answer (.failed false)
    else if ¬ costs.yield ≤ .finite goal.target.length then .answer (.failed false)
    else if ¬ costs.steps ≤ .finite remaining then .answer (.failed true)
    else
      match failures[key l]? with
      | none => .branch l
      | some failure =>
        if failure.covers remaining then .answer (.failed (failure ≠ .forever)) else .branch l

/-- Counts a node and looks at a form, unless the search has to end. -/
def look (goal : Goal) (remaining : Nat) (form : Form) (s : Search) : Look × Search :=
  let counted := { s with nodes := s.nodes + 1 }
  if goal.cancel.raisedAt s.nodes then (.answer (.stopped .cancelled), counted)
  else if goal.nodeLimit.any (· < counted.nodes) then
    (.answer (.stopped .budgetExhausted), counted)
  else (judge goal s.failures remaining form, counted)

/-! ## All forms -/

/-- Tries productions in turn, until one leads to the target or ends the search; `go`
searches from the form that a production gives. -/
def tryEach (go : Form → Search → Answer × Search) (l : Leftmost) :
    List Production → Bool → Search → Answer × Search
  | [], truncated, s => (.failed truncated, s)
  | p :: rest, truncated, s =>
    let child := l.replace p.symbols
    match go child s with
    | (.found path, s) => (.found (⟨child, p, l.before.length⟩ :: path), s)
    | (.failed t, s) => tryEach go l rest (truncated || t) s
    | (.stopped outcome, s) => (.stopped outcome, s)

/-- Searches from a form with so many steps left.  A form with a non-terminal needs a step,
so there is always one left where productions are tried. -/
def expand (goal : Goal) : Nat → Form → Search → Answer × Search
  | 0, form, s =>
    match look goal 0 form s with
    | (.answer a, s) => (a, s)
    | (.branch _, s) => (.failed true, s)
  | remaining + 1, form, s =>
    match look goal (remaining + 1) form s with
    | (.answer a, s) => (a, s)
    | (.branch l, s) =>
      match tryEach (expand goal remaining) l (goal.grammar.productionsFor l.symbol) false s with
      | (.failed truncated, s) => (.failed truncated, s.remember l truncated (remaining + 1))
      | result => result

end Search

/-! ## Deepening -/

/-- What a search for a derivation found. -/
structure Result where
  canDerive : Bool
  outcome : Outcome
  derivation : List DerivationStep
  depth : Option Nat
  nodes : Nat
  deriving DecidableEq, Repr

namespace Result

/-- A search that found none. -/
def without (outcome : Outcome) (s : Search) : Result := ⟨false, outcome, [], none, s.nodes⟩

/-- A search that found a derivation within so many steps. -/
def found (derivation : List DerivationStep) (depth : Nat) (s : Search) : Result :=
  ⟨true, .accepted, derivation, some depth, s.nodes⟩

end Result

/-- The steps of a path with their numbers, counted on from one. -/
def numberSteps : Nat → List Applied → List DerivationStep
  | _, [] => []
  | n, a :: rest => ⟨n, a.form, some a.production, some a.index⟩ :: numberSteps (n + 1) rest

/-- The derivation that a path from the start symbol is. -/
def Grammar.derivationOf (g : Grammar) (path : List Applied) : List DerivationStep :=
  ⟨0, [g.start], none, none⟩ :: numberSteps 1 path

/-- Searches with one step more each time, from `depth` on and so many times at most. -/
def deepen (goal : Goal) : Nat → Nat → Search → Result
  | 0, _, s => .without .budgetExhausted s
  | left + 1, depth, s =>
    match s.expand goal depth [goal.grammar.start] with
    | (.stopped outcome, s) => .without outcome s
    | (.found path, s) => .found (goal.grammar.derivationOf path) depth s
    | (.failed false, s) => .without .rejected s
    | (.failed true, s) => deepen goal left (depth + 1) s

/-- The search for a shortest leftmost derivation of a text, with sums that never fail. -/
def Grammar.derive (g : Grammar) (target : Text) (budget : Budget) (cancel : Cancellation) :
    Result :=
  deepen ⟨g, target, g.costs, budget.nodes, cancel⟩ (depthLimit budget) 1 .initial

end FormalMachines.ContextFree
