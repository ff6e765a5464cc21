import FormalMachines.Text.Basic

/-!
# FormalMachines.Finite.Partition

Hopcroft's partition refinement over a partial deterministic transition function.

A *node* is a state or `none`, the sink that every missing move leads to.  A partition is
a list of blocks of nodes.  The refinement keeps a worklist of blocks that may still split
others.  It takes one of them, the splitter, and for every letter in turn divides each
block into the nodes that the letter takes into the splitter and those that it does not;
blocks that do not fall apart stay as they are.  When a block falls apart, both halves
replace it in the worklist if it waits there, and else the half with fewer nodes joins
the worklist, the first if both have as many.

The nodes of a block keep the order of the partition's first blocks, so two blocks with
the same nodes are equal.
-/

namespace FormalMachines.Finite

/-- A state, or the sink. -/
abbrev Node := Option Text

instance : LawfulBEq Node := inferInstance

/-- A set of nodes, in a fixed order. -/
abbrev Block := List Node

/-- A partition and the blocks that may still split it, the next one in front. -/
structure Refinement where
  partition : List Block
  worklist : List Block
  deriving DecidableEq, Repr

/-- The worklist after a block fell apart. -/
def reschedule (block inside outside : Block) (worklist : List Block) : List Block :=
  if block ∈ worklist then outside :: inside :: worklist.erase block
  else (if inside.length ≤ outside.length then inside else outside) :: worklist

/-- Divides every block of a partition by a property of nodes. -/
def divideBlocks (hit : Node → Bool) : List Block → List Block → Refinement
  | [], worklist => ⟨[], worklist⟩
  | block :: rest, worklist =>
    let inside := block.filter hit
    let outside := block.filter fun q => !hit q
    if inside = [] ∨ outside = [] then
      let r := divideBlocks hit rest worklist
      ⟨block :: r.partition, r.worklist⟩
    else
      let r := divideBlocks hit rest (reschedule block inside outside worklist)
      ⟨inside :: outside :: r.partition, r.worklist⟩

namespace Refinement

variable {σ : Type}

/-- Divides by the nodes that one letter takes into the splitter. -/
def divideBy (successor : Node → σ → Node) (splitter : Block) (r : Refinement) (letter : σ) :
    Refinement :=
  divideBlocks (fun q => successor q letter ∈ splitter) r.partition r.worklist

/-- Takes a splitter off the worklist and divides by it under every letter. -/
def step? (successor : Node → σ → Node) (letters : List σ) (r : Refinement) :
    Option Refinement :=
  match r.worklist with
  | [] => none
  | splitter :: rest =>
    some (letters.foldl (divideBy successor splitter) ⟨r.partition, rest⟩)

/-- Takes at most so many splitters. -/
def refine (successor : Node → σ → Node) (letters : List σ) : Nat → Refinement → Refinement
  | 0, r => r
  | bound + 1, r =>
    match r.step? successor letters with
    | none => r
    | some next => refine successor letters bound next

/-- The refinement to start with: the groups that are not empty, the last of which splits
first. -/
def ofGroups (groups : List Block) : Refinement :=
  let blocks := groups.filter (· ≠ [])
  ⟨blocks, blocks.reverse⟩

end Refinement

/-- The coarsest partition that refines two groups of nodes and that no letter splits.
As many splitters are taken as there are blocks in the end, so never more than nodes. -/
def coarsestPartition {σ : Type} (successor : Node → σ → Node) (letters : List σ)
    (accepting others : Block) : List Block :=
  ((Refinement.ofGroups [accepting, others]).refine successor letters
    (accepting.length + others.length)).partition

end FormalMachines.Finite
