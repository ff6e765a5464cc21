import FormalMachines.Pushdown.Run
import Std.Data.HashSet

/-!
# FormalMachines.Pushdown.Search

The search for a shortest accepting run.

Configurations are taken breadth first, each at most once, so the first accepting one ends
a run with as few moves as possible.  A path as long as the step limit is not continued,
and after as many expansions as the node limit allows the search stops; either way, if
anything was cut off, a search that finds no accepting run has only run out of budget.
Such a search shows the path to the first configuration that consumed the most input.

Before each configuration the search looks whether it is cancelled.
-/

namespace FormalMachines.Pushdown

/-! ## Paths -/

/-- A run so far: a configuration, or a run and the move that continues it with the
configuration this leads to. -/
inductive Path where
  | start (here : Configuration)
  | move (before : Path) (t : Transition) (here : Configuration)
  deriving Repr

namespace Path

/-- The configuration a path ends in. -/
def final : Path → Configuration
  | .start c => c
  | .move _ _ c => c

/-- The number of moves. -/
def length : Path → Nat
  | .start _ => 0
  | .move before _ _ => before.length + 1

/-- The path with one move more. -/
def extend (p : Path) (t : Transition) : Path := .move p t (p.final.fire t)

/-- Puts the records of a path in front of others. -/
def recordBefore (input : Text) : Path → Trace Step → Trace Step
  | .start c, rest => .next (c.record input 0 none none) rest
  | .move before t c, rest =>
    before.recordBefore input (.next (c.record input (before.length + 1) (some t) none) rest)

/-- The records of a path, the last of which carries the verdict. -/
def trace (input : Text) (verdict : Bool) : Path → Trace Step
  | .start c => .last (c.record input 0 none (some verdict))
  | .move before t c =>
    before.recordBefore input
      (.last (c.record input (before.length + 1) (some t) (some verdict)))

/-- The paths that continue a path by one move on an input, in the order of the moves. -/
def successors (a : Automaton) (input : Text) (p : Path) : List Path :=
  (a.transitions.filter (p.final.allows input)).map p.extend

end Path

/-! ## Queues -/

/-- A queue: the paths to take from the front, and those put behind them, newest first. -/
structure Queue where
  front : List Path
  back : List Path

namespace Queue

/-- The paths in the order in which they are taken. -/
def toList (q : Queue) : List Path := q.front ++ q.back.reverse

/-- Puts a path at the end. -/
def push (q : Queue) (p : Path) : Queue := ⟨q.front, p :: q.back⟩

/-- Takes the first path. -/
def pop? (q : Queue) : Option (Path × Queue) :=
  match q.front with
  | p :: rest => some (p, ⟨rest, q.back⟩)
  | [] =>
    match q.back.reverse with
    | p :: rest => some (p, ⟨rest, []⟩)
    | [] => none

@[simp] theorem toList_push (q : Queue) (p : Path) : (q.push p).toList = q.toList ++ [p] := by
  simp [push, toList]

theorem pop?_eq (q : Queue) :
    q.pop?.map (fun r => (r.1, r.2.toList)) = q.toList.head?.map fun p => (p, q.toList.tail) := by
  obtain ⟨front, back⟩ := q
  cases front with
  | cons p rest => simp [pop?, toList]
  | nil =>
    cases h : back.reverse <;> simp [pop?, toList, h]

end Queue

/-! ## The search -/

/-- Where a search stands: the paths still to take, the configurations met so far, the
path that consumed the most input, and whether a path was cut off. -/
structure Search where
  pending : Queue
  seen : Std.HashSet Configuration
  furthest : Path
  truncated : Bool

namespace Search

/-- The search at the start. -/
def initial (a : Automaton) : Search :=
  let p := Path.start a.initial
  ⟨⟨[p], []⟩, ({} : Std.HashSet Configuration).insert a.initial, p, false⟩

/-- Adds a path unless its configuration was met before. -/
def discover (s : Search) (p : Path) : Search :=
  if p.final ∈ s.seen then s
  else { s with pending := s.pending.push p, seen := s.seen.insert p.final }

/-- Adds what continues a path, or notes that the step limit cuts it off. -/
def expand (a : Automaton) (input : Text) (limit : Nat) (p : Path) (s : Search) : Search :=
  let next := p.successors a input
  if next.isEmpty then s
  else if limit ≤ p.length then { s with truncated := true }
  else next.foldl discover s

/-- Notes a path that consumed more input than any before. -/
def noteFurthest (p : Path) (s : Search) : Search :=
  if s.furthest.final.position < p.final.position then { s with furthest := p } else s

/-- The record of a search that found no accepting run. -/
def failure (input : Text) (s : Search) (outcome : Outcome) : Run Step :=
  ⟨s.furthest.trace input false, false, outcome⟩

/-- Continues a search that may expand so many configurations more and has expanded so
many. -/
def resume (a : Automaton) (input : Text) (limit : Nat) (cancel : Cancellation) :
    Nat → Nat → Search → Run Step
  | left, expanded, s =>
    match s.pending.pop? with
    | none => s.failure input (if s.truncated then .budgetExhausted else .rejected)
    | some (p, rest) =>
      if cancel.raisedAt expanded then s.failure input .cancelled
      else if a.isAccepting input p.final then ⟨p.trace input true, true, .accepted⟩
      else
        let s := noteFurthest p { s with pending := rest }
        match left with
        | 0 => s.failure input .budgetExhausted
        | more + 1 => resume a input limit cancel more (expanded + 1) (s.expand a input limit p)

theorem agrees_failure (input : Text) (s : Search) {outcome : Outcome} (h : outcome ≠ .accepted) :
    (s.failure input outcome).Agrees :=
  iff_of_false Bool.false_ne_true h

theorem agrees_resume (a : Automaton) (input : Text) (limit : Nat) (cancel : Cancellation)
    (left expanded : Nat) (s : Search) : (resume a input limit cancel left expanded s).Agrees := by
  fun_induction resume a input limit cancel left expanded s with
  | case1 left expanded s hpop => exact s.agrees_failure input (by cases s.truncated <;> decide)
  | case2 left expanded s => exact s.agrees_failure input (by decide)
  | case3 => exact iff_of_true rfl rfl
  | case4 => exact agrees_failure input _ (by decide)
  | case5 _ _ _ _ _ _ _ _ _ ih => exact ih

end Search

/-- The search for a shortest accepting run on an input. -/
def Automaton.runSearch (a : Automaton) (input : Text) (budget : Budget)
    (cancel : Cancellation) : Run Step :=
  Search.resume a input (stepLimit budget) cancel (nodeLimit budget) 0 (.initial a)

end FormalMachines.Pushdown
