import FormalMachines.Turing.Run

/-!
# FormalMachines.Turing.Indexed

Turing machines on a list of cells and an index.

An indexed tape is the list of its cells with the index of the cell under the head.
Nothing keeps the index on a cell: where it is not on one, reading and writing fail, and so
does the run.  A tape is indexed by its views (`Tape.indexed`), and what it does to them is
what is done to the list (`read?_indexed`, `write?_indexed`, `move_indexed`).
-/

namespace FormalMachines.Turing

/-- A list of cells and the index of one of them, or of none. -/
structure IndexedTape where
  cells : List Text
  head : Int
  deriving DecidableEq, Repr

namespace IndexedTape

/-- The tape that holds an input, one code point a cell, and blanks up to the least length. -/
def ofInput (blank : Text) (input : Text) : IndexedTape :=
  ⟨input.map ([·]) ++ List.replicate (minCells - input.length) blank, 0⟩

/-- The symbol at the index. -/
def read? (t : IndexedTape) : Option Text :=
  if 0 ≤ t.head then t.cells[t.head.toNat]? else none

/-- Writes at the index. -/
def write? (symbol : Text) (t : IndexedTape) : Option IndexedTape :=
  if 0 ≤ t.head ∧ t.head < t.cells.length then
    some { t with cells := t.cells.set t.head.toNat symbol }
  else none

/-- Moves the index; past either end of the list a blank is added there, and on the left the
index stays at zero. -/
def move (d : Direction) (blank : Text) (t : IndexedTape) : IndexedTape :=
  match d with
  | .left => if t.head - 1 < 0 then ⟨blank :: t.cells, 0⟩ else ⟨t.cells, t.head - 1⟩
  | .right =>
    if t.cells.length ≤ t.head + 1 then ⟨t.cells ++ [blank], t.head + 1⟩ else ⟨t.cells, t.head + 1⟩

end IndexedTape

/-! ## Runs -/

/-- What a run on an indexed tape records. -/
structure IndexedStep where
  number : Nat
  state : Text
  tape : IndexedTape
  fired : Option Transition
  accepted : Option Bool
  rejected : Option Bool
  deriving DecidableEq, Repr

namespace Machine

/-- Continues a run on an indexed tape, which may take so many steps more and has taken so
many. -/
def walkIndexed? (m : Machine) (cancel : Cancellation) :
    Nat → Nat → Text → IndexedTape → Option Transition → Option (Run IndexedStep)
  | left, taken, state, tape, via =>
    let here := fun accepted rejected => (⟨taken, state, tape, via, accepted, rejected⟩ : IndexedStep)
    if state = m.accept then some (.stop (here (some true) none) true .accepted)
    else if state = m.reject then some (.stop (here none (some true)) false .rejected)
    else if cancel.raisedAt taken then
      some (.stop (here (some false) (some false)) false .cancelled)
    else
      match left with
      | 0 => some (.stop (here (some false) (some false)) false .budgetExhausted)
      | more + 1 => do
        let symbol ← tape.read?
        match m.transition? state symbol with
        | none =>
          let last : IndexedStep := ⟨taken + 1, m.reject, tape, none, none, some true⟩
          return (Run.stop last false .rejected).cons (here none none)
        | some t =>
          let written ← tape.write? t.write
          let moved := written.move t.direction m.blank
          let rest ← walkIndexed? m cancel more (taken + 1) t.next moved (some t)
          return rest.cons (here none none)

/-- The run on an indexed tape. -/
def runIndexed? (m : Machine) (input : Text) (budget : Budget) (cancel : Cancellation) :
    Option (Run IndexedStep) :=
  m.walkIndexed? cancel (stepLimit budget) 0 m.start (.ofInput m.blank input) none

end Machine

/-! ## The views of a tape -/

namespace Tape

/-- The tape as its cells and the position of its head. -/
def indexed (t : Tape) : IndexedTape := ⟨t.cells, t.position⟩

theorem indexed_ofInput (blank : Text) (input : Text) :
    (ofInput blank input).indexed = .ofInput blank input := by
  have hposition : (ofInput blank input).position = 0 := by
    cases input <;> simp [ofInput, ofCells, position, minCells, List.replicate_succ]
  rw [indexed, cells_ofInput, hposition]
  rfl

/-- The index of a tape is on a cell. -/
theorem read?_indexed (t : Tape) : t.indexed.read? = some t.head := by
  rw [indexed, IndexedTape.read?, if_pos (Int.natCast_nonneg _), Int.toNat_natCast, cells_position]

theorem write?_indexed (symbol : Text) (t : Tape) :
    t.indexed.write? symbol = some (t.write symbol).indexed := by
  have hlt := t.position_lt_length_cells
  have hrange : 0 ≤ t.indexed.head ∧ t.indexed.head < t.indexed.cells.length :=
    ⟨Int.natCast_nonneg _, Int.ofNat_lt.2 hlt⟩
  rw [IndexedTape.write?, if_pos hrange]
  simp only [indexed, Int.toNat_natCast, cells_write]
  rfl

theorem move_indexed (d : Direction) (blank : Text) (t : Tape) :
    t.indexed.move d blank = (d.move blank t).indexed := by
  have hlt := t.position_lt_length_cells
  cases d with
  | left =>
      rw [Direction.move, indexed, indexed, cells_moveLeft, position_moveLeft, IndexedTape.move]
      dsimp only
      by_cases hzero : t.position = 0
      · rw [if_pos (by omega), if_pos hzero, hzero]
        rfl
      · rw [if_neg (by omega), if_neg hzero, Int.ofNat_sub (by omega)]
        rfl
  | right =>
      rw [Direction.move, indexed, indexed, cells_moveRight, position_moveRight, IndexedTape.move]
      dsimp only
      by_cases hlast : t.position + 1 = t.cells.length
      · rw [if_pos (by omega), if_pos hlast]
        rfl
      · rw [if_neg (by omega), if_neg hlast]
        rfl

end Tape

/-- A step with its tape as cells and an index. -/
def Step.indexed (s : Step) : IndexedStep :=
  ⟨s.number, s.configuration.state, s.configuration.tape.indexed, s.fired, s.accepted, s.rejected⟩

end FormalMachines.Turing
