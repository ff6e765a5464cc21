import FormalMachines.ContextFree.Attempt

/-!
# FormalMachines.ContextFree.Watch

The search as it runs, and what can be seen of it while it does.

`Grammar.attempt` tells what a search comes to.  The search that is watched does the same and
notes its moments: each call for a form, each failure that is remembered, each return.  The
moments are kept where the search fails, so they are those of every search.
-/

namespace FormalMachines.ContextFree

/-! ## Watched computations -/

/-- A moment of a search, with what the search knows by then. -/
inductive Moment where
  /-- A search from a form is called for, with so many steps left. -/
  | called (remaining : Nat) (form : Form) (known : Search)
  /-- The productions of a form are about to be tried although no step is left. -/
  | below (form : Form)
  /-- A failure has just been remembered. -/
  | remembered (known : Search)
  /-- A search from a form returns its answer. -/
  | returned (remaining : Nat) (form : Form) (answer : Answer) (known : Search)

/-- The moments of a computation in turn, and what it comes to. -/
structure Watched (α : Type) where
  moments : List Moment
  result : Except Fault α

namespace Watched

variable {α β : Type}

def pure (a : α) : Watched α := ⟨[], .ok a⟩

def bind (w : Watched α) (f : α → Watched β) : Watched β :=
  match w.result with
  | .ok a => ⟨w.moments ++ (f a).moments, (f a).result⟩
  | .error e => ⟨w.moments, .error e⟩

instance : Monad Watched where
  pure := Watched.pure
  bind := Watched.bind

/-- Notes a moment. -/
def note (m : Moment) : Watched Unit := ⟨[m], .ok ()⟩

/-- A computation with nothing to see. -/
def lift (x : Except Fault α) : Watched α := ⟨[], x⟩

end Watched

open Watched

/-! ## The search -/

namespace Search

/-- A search from a form, seen from its call to its return.  One that is stopped does not
return. -/
def during (remaining : Nat) (form : Form) (s : Search) (body : Watched (Answer × Search)) :
    Watched (Answer × Search) := do
  note (.called remaining form s)
  match ← body with
  | (.stopped outcome, s) => return (.stopped outcome, s)
  | (answer, s) =>
    note (.returned remaining form answer s)
    return (answer, s)

/-- Tries productions in turn, until one leads to the target or ends the search. -/
def watchEach (go : Form → Search → Watched (Answer × Search)) (l : Leftmost) :
    List Production → Bool → Search → Watched (Answer × Search)
  | [], truncated, s => return (.failed truncated, s)
  | p :: rest, truncated, s => do
    let child := l.replace p.symbols
    match ← go child s with
    | (.found path, s) => return (.found (⟨child, p, l.before.length⟩ :: path), s)
    | (.failed t, s) => watchEach go l rest (truncated || t) s
    | (.stopped outcome, s) => return (.stopped outcome, s)

/-- Searches from a form with so many steps left. -/
def watchExpand (goal : Goal) (productions : ProductionTable) :
    Nat → Form → Search → Watched (Answer × Search)
  | 0, form, s => during 0 form s do
    match ← lift (attemptLook goal 0 form s) with
    | (.answer a, s) => return (a, s)
    | (.branch _, s) =>
      note (.below form)
      return (.failed true, s)
  | remaining + 1, form, s => during (remaining + 1) form s do
    match ← lift (attemptLook goal (remaining + 1) form s) with
    | (.answer a, s) => return (a, s)
    | (.branch l, s) =>
      let rules ← lift (entryOf productions l.symbol)
      match ← watchEach (watchExpand goal productions remaining) l rules false s with
      | (.failed truncated, s) =>
        let s := s.remember l truncated (remaining + 1)
        note (.remembered s)
        return (.failed truncated, s)
      | result => return result

end Search

/-- Searches with one step more each time, from `depth` on and so many times at most. -/
def watchDeepen (goal : Goal) (productions : ProductionTable) :
    Nat → Nat → Search → Watched Result
  | 0, _, s => return .without .budgetExhausted s
  | left + 1, depth, s => do
    match ← s.watchExpand goal productions depth [goal.grammar.start] with
    | (.stopped outcome, s) => return .without outcome s
    | (.found path, s) => return .found (goal.grammar.derivationOf path) depth s
    | (.failed false, s) => return .without .rejected s
    | (.failed true, s) => watchDeepen goal productions left (depth + 1) s

/-- The search for a shortest leftmost derivation of a text, watched. -/
def Grammar.watch (g : Grammar) (target : Text) (budget : Budget) (cancel : Cancellation) :
    Watched Result := do
  let goal : Goal := ⟨g, target, ← lift g.attemptCosts, budget.nodes, cancel⟩
  watchDeepen goal g.productionTable (depthLimit budget) 1 .initial

end FormalMachines.ContextFree
