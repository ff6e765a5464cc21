/-!
# FormalMachines.Worklist

Reaching everything that can be reached, in order of discovery.

A search keeps the values seen so far and those whose neighbours it has still to look
at.  Looking at a value adds the neighbours not seen before (`newcomers`) to both.  The
`Discipline` says which pending value comes next, and so fixes the order of discovery;
what is discovered does not depend on it.

`explore` takes a bound on the number of values that can be seen: a caller gives one that
is never too small.
-/

namespace FormalMachines.Worklist

variable {α : Type}

/-- Which pending value is looked at next. -/
inductive Discipline where
  | firstFirst
  | lastFirst
  deriving DecidableEq, Repr

/-- Adds newcomers to the pending values, the next of which stands in front. -/
def Discipline.enqueue (d : Discipline) (fresh pending : List α) : List α :=
  match d with
  | .firstFirst => pending ++ fresh
  | .lastFirst => fresh.reverse ++ pending

theorem Discipline.mem_enqueue {d : Discipline} {fresh pending : List α} {x : α} :
    x ∈ d.enqueue fresh pending ↔ x ∈ fresh ∨ x ∈ pending := by
  cases d <;> simp [enqueue, or_comm]

variable [DecidableEq α]

/-- The values not seen before, each once, in order. -/
def newcomers (seen xs : List α) : List α := (xs.removeAll seen).eraseDups

theorem mem_newcomers {seen xs : List α} {x : α} :
    x ∈ newcomers seen xs ↔ x ∈ xs ∧ x ∉ seen := by
  simp [newcomers, List.removeAll]

/-- Continues a search from the values seen and pending. -/
def continueFrom (d : Discipline) (next : α → List α) : Nat → List α → List α → List α
  | 0, seen, _ => seen
  | _ + 1, seen, [] => seen
  | bound + 1, seen, x :: pending =>
    let fresh := newcomers seen (next x)
    continueFrom d next bound (seen ++ fresh) (d.enqueue fresh pending)

/-- The starting values without repetition, then all that can be reached from them, in
order of discovery; `bound` is no less than their number. -/
def explore (d : Discipline) (next : α → List α) (bound : Nat) (starts : List α) : List α :=
  let seen := starts.eraseDups
  continueFrom d next bound seen (d.enqueue seen [])

end FormalMachines.Worklist
