import FormalMachines.Turing.Ideal
import Mathlib.Data.List.DropRight

/-!
# FormalMachines.Proofs.Turing.Contents

What a tape without ends holds, read off one that shows it.

The cells of a tape that shows an ideal one are cells of that one, moved by the offset, and
outside of them the ideal tape is blank (`Shows.cells_getElem?`, `Shows.cell_eq_blank`).  So
it does not matter how much of the ideal tape is laid out: without the blanks at both ends
what is left are its symbols from the first to the last that is no blank
(`Shows.holds_contents`).
-/

namespace FormalMachines.Turing

/-! ## Blanks at both ends -/

section Trim

variable {α : Type} (p : α → Bool) (xs : List α)

/-- What is dropped at both ends has the property, and what is left starts and ends without
it. -/
theorem exists_trim :
    ∃ front back, xs = front ++ (xs.dropWhile p).rdropWhile p ++ back ∧ (∀ x ∈ front, p x) ∧
      ∀ x ∈ back, p x := by
  refine ⟨xs.takeWhile p, (xs.dropWhile p).rtakeWhile p, ?_, fun x hx => ?_, fun x hx => ?_⟩
  · rw [List.append_assoc, List.rdropWhile_append_rtakeWhile, List.takeWhile_append_dropWhile]
  · exact List.mem_takeWhile_imp hx
  · exact List.mem_rtakeWhile_imp hx

theorem not_of_mem_head?_trim {x : α} (hx : x ∈ ((xs.dropWhile p).rdropWhile p).head?) :
    ¬ p x := by
  obtain ⟨back, hback⟩ := List.rdropWhile_prefix p (xs.dropWhile p)
  have hhead : (xs.dropWhile p).head? = some x := by
    rw [← hback, List.head?_append, Option.mem_def.1 hx, Option.some_or]
  have hnot := List.head?_dropWhile_not p xs
  rw [hhead] at hnot
  simpa using hnot

theorem not_of_mem_getLast?_trim {x : α} (hx : x ∈ ((xs.dropWhile p).rdropWhile p).getLast?) :
    ¬ p x := by
  obtain ⟨hne, hlast⟩ := List.mem_getLast?_eq_getLast hx
  rw [hlast]
  exact List.rdropWhile_last_not p _ hne

/-- An element outside of the middle of three lists is in one of the other two. -/
theorem mem_or_mem_of_getElem?_outside {front middle back : List α} {k : Nat} {x : α}
    (hx : (front ++ middle ++ back)[k]? = some x)
    (hk : k < front.length ∨ front.length + middle.length ≤ k) : x ∈ front ∨ x ∈ back := by
  obtain hk | hk := hk
  · rw [List.append_assoc, List.getElem?_append_left hk] at hx
    exact .inl (List.mem_of_getElem? hx)
  · rw [List.getElem?_append_right (by simpa using hk)] at hx
    exact .inr (List.mem_of_getElem? hx)

end Trim

/-! ## Symbols on an ideal tape -/

/-- Whether an ideal tape holds some symbols from a cell on, the first and the last of which
are no blanks, and blanks elsewhere. -/
structure IdealTape.Holds (blank : Text) (t : IdealTape) (first : Int) (symbols : List Text) :
    Prop where
  cell : ∀ (k : Nat) (s : Text), symbols[k]? = some s → t.cell (first + k) = s
  outside : ∀ i, i < first ∨ first + symbols.length ≤ i → t.cell i = blank
  head : ∀ s ∈ symbols.head?, s ≠ blank
  last : ∀ s ∈ symbols.getLast?, s ≠ blank

namespace Tape

variable {blank : Text} {offset : Int} {t : Tape} {ideal : IdealTape}

/-- The cells of a tape are those of the ideal tape that it shows. -/
theorem Shows.cells_getElem? (h : t.Shows blank offset ideal) {k : Nat} {s : Text}
    (hk : t.cells[k]? = some s) : ideal.cell (k - offset) = s := by
  rw [h.cell, cellAt, Int.sub_add_cancel, if_pos (Int.natCast_nonneg k), Int.toNat_natCast, hk,
    Option.getD_some]

/-- Where nothing is laid out the ideal tape is blank. -/
theorem Shows.cell_eq_blank (h : t.Shows blank offset ideal) {i : Int}
    (hi : i + offset < 0 ∨ t.cells.length ≤ i + offset) : ideal.cell i = blank := by
  rw [h.cell, cellAt]
  split
  · rw [List.getElem?_eq_none (by omega), Option.getD_none]
  · rfl

/-- **The contents** of a tape are the symbols that the ideal tape holds. -/
theorem Shows.holds_contents (h : t.Shows blank offset ideal) :
    ∃ first symbols, ideal.Holds blank first symbols ∧ t.contents blank = symbols.flatten := by
  obtain ⟨front, back, hcells, hfront, hback⟩ := exists_trim (· = blank) t.cells
  have hhead := fun x => not_of_mem_head?_trim (· = blank) t.cells (x := x)
  have hlast := fun x => not_of_mem_getLast?_trim (· = blank) t.cells (x := x)
  have hcontents : t.contents blank =
      ((t.cells.dropWhile (· = blank)).rdropWhile (· = blank)).flatten := rfl
  generalize (t.cells.dropWhile (· = blank)).rdropWhile (· = blank) = symbols at *
  refine ⟨front.length - offset, symbols,
    ⟨?_, ?_, by simpa using hhead, by simpa using hlast⟩, hcontents⟩
  · intro k s hk
    have hat : t.cells[front.length + k]? = some s := by
      rw [hcells, List.append_assoc, List.getElem?_append_right (by omega),
        Nat.add_sub_cancel_left, List.getElem?_append_left (List.getElem?_eq_some_iff.1 hk).1, hk]
    rw [← h.cells_getElem? hat]
    congr 1
    omega
  · intro i hi
    by_cases hout : i + offset < 0 ∨ t.cells.length ≤ i + offset
    · exact h.cell_eq_blank hout
    · rw [not_or, Int.not_lt, Int.not_le] at hout
      obtain ⟨s, hat⟩ : ∃ s, t.cells[(i + offset).toNat]? = some s :=
        ⟨_, List.getElem?_eq_getElem (by omega)⟩
      have hcell := h.cells_getElem? hat
      rw [Int.toNat_of_nonneg hout.1, Int.add_sub_cancel] at hcell
      rw [hcells] at hat
      rw [hcell]
      have hside : (i + offset).toNat < front.length ∨
          front.length + symbols.length ≤ (i + offset).toNat := by omega
      obtain hmem | hmem := mem_or_mem_of_getElem?_outside hat hside
      · exact of_decide_eq_true (hfront _ hmem)
      · exact of_decide_eq_true (hback _ hmem)

end Tape

end FormalMachines.Turing
