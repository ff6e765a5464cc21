import FormalMachines.Text.Basic

/-!
# FormalMachines.Turing.Tape

The tape of a Turing machine as far as it has been laid out.

A tape is seen from its head: the cells to the left, nearest first, the cell under the
head, and the cells to the right.  It grows by one blank whenever the head moves past
either end.  The views are `cells`, the cells from left to right, and `position`, the
number of cells to the left of the head.
-/

namespace FormalMachines.Turing

/-- A tape with its head on one of the cells. -/
structure Tape where
  left : List Text
  head : Text
  right : List Text
  deriving DecidableEq, Repr

/-- A tape is laid out with at least this many cells. -/
def minCells : Nat := 20

namespace Tape

/-- The cells from left to right. -/
def cells (t : Tape) : List Text := t.left.reverse ++ t.head :: t.right

/-- The number of cells to the left of the head. -/
def position (t : Tape) : Nat := t.left.length

/-- The tape of some cells with the head on the first, which is blank if there is none. -/
def ofCells (blank : Text) : List Text → Tape
  | [] => ⟨[], blank, []⟩
  | c :: rest => ⟨[], c, rest⟩

/-- The tape that holds an input, one code point a cell, and blanks up to the least
length. -/
def ofInput (blank : Text) (input : Text) : Tape :=
  ofCells blank (input.map ([·]) ++ List.replicate (minCells - input.length) blank)

def write (symbol : Text) (t : Tape) : Tape := { t with head := symbol }

/-- Moves the head to the left; past the first cell a blank is put in front. -/
def moveLeft (blank : Text) (t : Tape) : Tape :=
  match t.left with
  | [] => ⟨[], blank, t.head :: t.right⟩
  | c :: rest => ⟨rest, c, t.head :: t.right⟩

/-- Moves the head to the right; past the last cell a blank is put behind. -/
def moveRight (blank : Text) (t : Tape) : Tape :=
  match t.right with
  | [] => ⟨t.head :: t.left, blank, []⟩
  | c :: rest => ⟨t.head :: t.left, c, rest⟩

/-- The cells without the blanks at both ends, as one text. -/
def contents (blank : Text) (t : Tape) : Text :=
  let inner := t.cells.dropWhile (· = blank)
  List.flatten (inner.reverse.dropWhile (· = blank)).reverse

/-! ## The views -/

theorem position_lt_length_cells (t : Tape) : t.position < t.cells.length := by
  simp [position, cells]

theorem cells_position (t : Tape) : t.cells[t.position]? = some t.head := by
  simp [position, cells]

theorem cells_ofInput (blank : Text) (input : Text) :
    (ofInput blank input).cells =
      input.map ([·]) ++ List.replicate (minCells - input.length) blank := by
  cases input with
  | nil => simp [ofInput, ofCells, cells, minCells, List.replicate_succ]
  | cons c rest => simp [ofInput, ofCells, cells]

theorem cells_write (symbol : Text) (t : Tape) :
    (t.write symbol).cells = t.cells.set t.position symbol := by
  simp [write, cells, position]

theorem cells_moveLeft (blank : Text) (t : Tape) :
    (t.moveLeft blank).cells = if t.position = 0 then blank :: t.cells else t.cells := by
  obtain ⟨left, head, right⟩ := t
  cases left <;> simp [moveLeft, cells, position]

theorem position_moveLeft (blank : Text) (t : Tape) :
    (t.moveLeft blank).position = t.position - 1 := by
  obtain ⟨left, head, right⟩ := t
  cases left <;> simp [moveLeft, position]

theorem cells_moveRight (blank : Text) (t : Tape) :
    (t.moveRight blank).cells =
      if t.position + 1 = t.cells.length then t.cells ++ [blank] else t.cells := by
  obtain ⟨left, head, right⟩ := t
  cases right <;> simp [moveRight, cells, position]

theorem position_moveRight (blank : Text) (t : Tape) :
    (t.moveRight blank).position = t.position + 1 := by
  obtain ⟨left, head, right⟩ := t
  cases right <;> simp [moveRight, position]

end Tape

end FormalMachines.Turing
