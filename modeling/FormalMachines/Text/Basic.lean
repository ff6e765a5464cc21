/-!
# FormalMachines.Text.Basic

Texts as sequences of code points.

A text that was written with escapes, or in code units of two bytes, can hold a surrogate
that is not half of a pair.  No character stands for it, but it counts, compares and is
shown like one.  So a code point is a character or such a surrogate, and texts are
ordered by their code points.  A string is the text of its characters
(`Text.ofString`).
-/

namespace FormalMachines

/-- A character, or a surrogate that stands alone. -/
inductive CodePoint where
  | char (value : Char)
  | surrogate (index : Fin 0x800)
  deriving DecidableEq, Repr

namespace CodePoint

/-- The least surrogate. -/
def firstSurrogate : Nat := 0xD800

/-- The number of a code point. -/
def toNat : CodePoint → Nat
  | .char c => c.toNat
  | .surrogate i => firstSurrogate + i

instance : Hashable CodePoint := ⟨fun c => hash c.toNat⟩

/-- The code point of a number, or nothing if the number is too great. -/
def ofNat? (n : Nat) : Option CodePoint :=
  if h : n.isValidChar then some (.char (Char.ofNatAux n h))
  else if h : n - firstSurrogate < 0x800 then some (.surrogate ⟨n - firstSurrogate, h⟩)
  else none

/-- The code point of two code units that are halves of a pair. -/
def ofPair? (high low : Nat) : Option CodePoint :=
  if 0xD800 ≤ high ∧ high < 0xDC00 ∧ 0xDC00 ≤ low ∧ low < 0xE000 then
    ofNat? (0x10000 + (high - 0xD800) * 0x400 + (low - 0xDC00))
  else none

/-- The character of a code point that is one. -/
def char? : CodePoint → Option Char
  | .char c => some c
  | .surrogate _ => none

/-! ## Order -/

private theorem toNat_char_ne (c : Char) (i : Fin 0x800) :
    (char c).toNat ≠ (surrogate i).toNat := by
  have h := c.valid
  have hi := i.isLt
  simp only [UInt32.isValidChar, Nat.isValidChar] at h
  simp only [toNat, firstSurrogate, Char.toNat]
  omega

/-- Different code points have different numbers. -/
theorem toNat_inj {a b : CodePoint} (h : a.toNat = b.toNat) : a = b := by
  cases a <;> cases b
  · next c d => exact congrArg char (Char.toNat_inj.1 h)
  · next c i => exact absurd h (toNat_char_ne c i)
  · next i c => exact absurd h.symm (toNat_char_ne c i)
  · next i j =>
    simp only [toNat] at h
    exact congrArg surrogate (Fin.ext (by omega))

/-- A number is that of at most one code point, and `ofNat?` finds it. -/
theorem ofNat?_eq_some_iff {n : Nat} {p : CodePoint} : ofNat? n = some p ↔ p.toNat = n := by
  have found : ∀ {q : CodePoint}, ofNat? n = some q → q.toNat = n := by
    intro q h
    by_cases hv : n.isValidChar
    · rw [ofNat?, dif_pos hv, Option.some.injEq] at h
      rw [← h]
      rfl
    · rw [ofNat?, dif_neg hv] at h
      by_cases hs : n - firstSurrogate < 0x800
      · rw [dif_pos hs, Option.some.injEq] at h
        simp only [Nat.isValidChar] at hv
        simp only [← h, toNat, firstSurrogate] at hs ⊢
        omega
      · rw [dif_neg hs] at h
        cases h
  constructor
  · exact found
  · rintro rfl
    cases hq : ofNat? p.toNat with
    | some q => exact congrArg some (toNat_inj (found hq))
    | none =>
      cases p with
      | char c =>
        rw [ofNat?, dif_pos (show (char c).toNat.isValidChar from c.valid)] at hq
        cases hq
      | surrogate i =>
        have hi : (surrogate i).toNat - firstSurrogate < 0x800 := by
          simp only [toNat, Nat.add_sub_cancel_left]
          exact i.isLt
        by_cases hv : (surrogate i).toNat.isValidChar
        · rw [ofNat?, dif_pos hv] at hq
          cases hq
        · rw [ofNat?, dif_neg hv, dif_pos hi] at hq
          cases hq

instance : LT CodePoint := ⟨fun a b => a.toNat < b.toNat⟩

theorem lt_iff {a b : CodePoint} : a < b ↔ a.toNat < b.toNat := Iff.rfl

instance (a b : CodePoint) : Decidable (a < b) := decidable_of_iff _ lt_iff.symm

instance : Std.Asymm (α := CodePoint) (· < ·) where
  asymm _ _ h := Nat.lt_asymm h

instance : Std.Irrefl (α := CodePoint) (· < ·) where
  irrefl _ := Nat.lt_irrefl _

instance : Trans (α := CodePoint) (β := CodePoint) (γ := CodePoint) (· < ·) (· < ·) (· < ·) where
  trans := Nat.lt_trans

instance : Std.Trichotomous (α := CodePoint) (· < ·) where
  trichotomous _ _ h h' := toNat_inj (Nat.le_antisymm (Nat.not_lt.1 h') (Nat.not_lt.1 h))

end CodePoint

/-- A sequence of code points. -/
abbrev Text := List CodePoint

instance : LawfulBEq Text := inferInstance

namespace Text

/-- The text of some characters. -/
def ofChars (cs : List Char) : Text := cs.map .char

/-- The text of a string. -/
def ofString (s : String) : Text := ofChars s.toList

instance : Coe String Text := ⟨ofString⟩

/-- The decimal numeral of an integer. -/
def ofInt (n : Int) : Text := ofString (toString n)

/-- Whether a text occurs within another. -/
def occursIn (part : Text) : Text → Bool
  | [] => part.isEmpty
  | p :: rest => part.isPrefixOf (p :: rest) || part.occursIn rest

theorem occursIn_iff {part whole : Text} : part.occursIn whole ↔ part <:+: whole := by
  induction whole with
  | nil => simp [occursIn, List.isEmpty_iff]
  | cons p rest ih => simp [occursIn, ih, List.infix_cons_iff]

/-- Several texts as one, with a separator between them. -/
def join (separator : Text) (parts : List Text) : Text := separator.intercalate parts

end Text

end FormalMachines
