import FormalMachines.Text.Basic
import FormalMachines.Text.Ranges

/-!
# FormalMachines.Text.Blank

Blank characters and the words between them.

A blank is a character of the Unicode property `White_Space` or one of the four
information separators U+001C to U+001F.  `words` cuts a text into its maximal
runs of other characters; runs of blanks, also at either end, leave no empty word.
-/

namespace FormalMachines.Text

/-- The blanks as code point ranges, both ends included. -/
def blankRanges : List (Nat × Nat) :=
  [(0x09, 0x0D), (0x1C, 0x20), (0x85, 0x85), (0xA0, 0xA0), (0x1680, 0x1680),
   (0x2000, 0x200A), (0x2028, 0x2029), (0x202F, 0x202F), (0x205F, 0x205F), (0x3000, 0x3000)]

/-- Whether a code point separates words. -/
def isBlank (c : CodePoint) : Bool :=
  inRanges blankRanges c.toNat

/-- The words of a text, in order. -/
def words (s : Text) : List Text :=
  (s.splitOnP isBlank).filter (· ≠ [])

/-- A text of blanks alone holds no word. -/
theorem words_eq_nil_of_blank {s : Text} (h : ∀ c ∈ s, isBlank c) : words s = [] := by
  have key : ∀ l : Text, (∀ c ∈ l, isBlank c) → ∀ p ∈ l.splitOnP isBlank, p = [] := by
    intro l
    induction l with
    | nil => simp
    | cons c rest ih =>
      intro hl p hp
      rw [List.splitOnP_cons_eq_if_modifyHead, if_pos (hl c (by simp))] at hp
      rcases List.mem_cons.1 hp with rfl | hp
      · rfl
      · exact ih (fun d hd => hl d (by simp [hd])) p hp
  exact List.filter_eq_nil_iff.2 fun p hp => by simp [key s h p hp]

example : words " a  bc\u00A0\tS " = [ofString "a", ofString "bc", ofString "S"] := by
  decide +kernel
example : words "\u180E" = [ofString "\u180E"] := by decide +kernel

end FormalMachines.Text
