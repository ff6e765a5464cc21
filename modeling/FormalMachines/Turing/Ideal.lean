import FormalMachines.Turing.Run

/-!
# FormalMachines.Turing.Ideal

Turing machines on a tape without ends.

An ideal tape has a cell for every integer and never grows.  A tape that is laid out as
far as needed *shows* an ideal one at an offset if its cells are those of the ideal tape,
moved by the offset, and all the others are blank (`Tape.Shows`).  Each operation on a
tape keeps what it shows (`shows_ofInput`, `shows_write`, `shows_moveLeft`,
`shows_moveRight`); the offset grows by one with every cell put in front.
-/

namespace FormalMachines.Turing

/-- A tape with a cell for every integer. -/
structure IdealTape where
  cell : Int → Text
  head : Int

namespace IdealTape

/-- The symbol under the head. -/
def read (t : IdealTape) : Text := t.cell t.head

/-- The tape that holds an input from cell zero on and is blank elsewhere. -/
def ofInput (blank : Text) (input : Text) : IdealTape where
  cell i := if 0 ≤ i then (input[i.toNat]?.map ([·])).getD blank else blank
  head := 0

def write (symbol : Text) (t : IdealTape) : IdealTape :=
  { t with cell := fun i => if i = t.head then symbol else t.cell i }

def moveLeft (t : IdealTape) : IdealTape := { t with head := t.head - 1 }

def moveRight (t : IdealTape) : IdealTape := { t with head := t.head + 1 }

end IdealTape

/-! ## What a tape shows -/

namespace Tape

/-- The cell at an index, blank where no cell is laid out. -/
def cellAt (blank : Text) (t : Tape) (i : Int) : Text :=
  if 0 ≤ i then t.cells[i.toNat]?.getD blank else blank

/-- Whether a tape is an ideal one with `offset` cells laid out in front of cell zero. -/
structure Shows (blank : Text) (offset : Int) (t : Tape) (ideal : IdealTape) : Prop where
  cell : ∀ i, ideal.cell i = t.cellAt blank (i + offset)
  head : ideal.head + offset = t.position

variable {blank : Text} {offset : Int} {t : Tape} {ideal : IdealTape}

theorem cellAt_position (blank : Text) (t : Tape) : t.cellAt blank t.position = t.head := by
  simp [cellAt, cells_position]

/-- The symbols under both heads are the same. -/
theorem Shows.read_eq (h : t.Shows blank offset ideal) : ideal.read = t.head := by
  rw [IdealTape.read, h.cell, h.head, cellAt_position]

theorem shows_ofInput (blank : Text) (input : Text) :
    (ofInput blank input).Shows blank 0 (.ofInput blank input) where
  cell i := by
    simp only [IdealTape.ofInput, cellAt, cells_ofInput, Int.add_zero]
    split
    · by_cases h : i.toNat < input.length
      · rw [List.getElem?_append_left (by simpa using h), List.getElem?_map]
      · rw [List.getElem?_append_right (by simpa using Nat.not_lt.1 h), List.getElem?_replicate,
          List.getElem?_eq_none (Nat.not_lt.1 h)]
        split <;> rfl
    · rfl
  head := by cases input <;> simp [IdealTape.ofInput, ofInput, ofCells, position, minCells,
    List.replicate_succ]

theorem shows_write (symbol : Text) (h : t.Shows blank offset ideal) :
    (t.write symbol).Shows blank offset (ideal.write symbol) where
  cell i := by
    have hhead := h.head
    have hpos := t.position_lt_length_cells
    simp only [IdealTape.write, cellAt, cells_write, List.getElem?_set]
    by_cases hi : i = ideal.head
    · have htoNat : (i + offset).toNat = t.position := by omega
      have hnonneg : 0 ≤ i + offset := by omega
      rw [if_pos hi, if_pos hnonneg, if_pos htoNat.symm, if_pos hpos]
      rfl
    · rw [if_neg hi, h.cell, cellAt]
      split
      · rw [if_neg (by omega)]
      · rfl
  head := h.head

/-- Past the first cell one more is put in front. -/
theorem shows_moveLeft (h : t.Shows blank offset ideal) :
    (t.moveLeft blank).Shows blank (if t.position = 0 then offset + 1 else offset)
      ideal.moveLeft where
  cell i := by
    simp only [IdealTape.moveLeft, h.cell, cellAt, cells_moveLeft]
    by_cases hp : t.position = 0
    · simp only [hp, if_true]
      rcases Int.lt_trichotomy (i + offset) (-1) with hi | hi | hi
      · rw [if_neg (by omega), if_neg (by omega)]
      · rw [if_neg (by omega), if_pos (by omega), show (i + (offset + 1)).toNat = 0 by omega]
        rfl
      · rw [if_pos (by omega), if_pos (by omega),
          show (i + (offset + 1)).toNat = (i + offset).toNat + 1 by omega, List.getElem?_cons_succ]
    · simp only [hp, if_false]
  head := by
    have hhead := h.head
    rw [position_moveLeft]
    simp only [IdealTape.moveLeft]
    split <;> omega

/-- Past the last cell one more is put behind, which moves no other. -/
theorem shows_moveRight (h : t.Shows blank offset ideal) :
    (t.moveRight blank).Shows blank offset ideal.moveRight where
  cell i := by
    simp only [IdealTape.moveRight, h.cell, cellAt, cells_moveRight]
    split
    · split
      · by_cases hi : (i + offset).toNat < t.cells.length
        · rw [List.getElem?_append_left hi]
        · rw [List.getElem?_append_right (Nat.not_lt.1 hi), List.getElem?_singleton,
            List.getElem?_eq_none (Nat.not_lt.1 hi)]
          split <;> rfl
      · rfl
    · rfl
  head := by
    have hhead := h.head
    rw [position_moveRight]
    simp only [IdealTape.moveRight]
    omega

end Tape

/-! ## The ideal machine -/

/-- Where an ideal run stands: its state and its tape. -/
structure IdealConfiguration where
  state : Text
  tape : IdealTape

namespace Machine

/-- The ideal configuration at the start. -/
def idealInitial (m : Machine) (input : Text) : IdealConfiguration :=
  ⟨m.start, .ofInput m.blank input⟩

/-- Whether a run ends in a state. -/
def halts (m : Machine) (state : Text) : Bool := state = m.accept || state = m.reject

/-- The ideal configuration after a transition. -/
def idealFire (c : IdealConfiguration) (t : Transition) : IdealConfiguration :=
  let written := c.tape.write t.write
  ⟨t.next, match t.direction with
    | .left => written.moveLeft
    | .right => written.moveRight⟩

/-- The next ideal configuration, unless the run has ended or no transition is there. -/
def idealNext? (m : Machine) (c : IdealConfiguration) : Option IdealConfiguration :=
  if m.halts c.state then none else (m.transition? c.state c.tape.read).map (idealFire c)

/-- The ideal configuration after so many moves, if the run gets that far. -/
def idealAfter? (m : Machine) (input : Text) : Nat → Option IdealConfiguration
  | 0 => some (m.idealInitial input)
  | moves + 1 => (m.idealAfter? input moves).bind m.idealNext?

end Machine

end FormalMachines.Turing
