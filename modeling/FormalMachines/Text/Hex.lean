/-!
# FormalMachines.Text.Hex

Hexadecimal numerals of a fixed width.  `hexValue_fixedHex` reads back what
`fixedHex` writes, less what does not fit the width.
-/

namespace FormalMachines.Text

/-- The digits of base sixteen, in order. -/
def hexAlphabet : List Char := "0123456789abcdef".toList

/-- The digit of a number below sixteen; greater ones count modulo sixteen. -/
def hexDigit (n : Nat) : Char := hexAlphabet.getD (n % 16) '0'

/-- The last `width` digits of a number. -/
def fixedHex : Nat → Nat → List Char
  | 0, _ => []
  | width + 1, n => fixedHex width (n / 16) ++ [hexDigit n]

/-- The value of a digit in either case. -/
def hexDigitValue? (c : Char) : Option Nat :=
  if '0' ≤ c ∧ c ≤ '9' then some (c.toNat - '0'.toNat)
  else if 'a' ≤ c ∧ c ≤ 'f' then some (c.toNat - 'a'.toNat + 10)
  else if 'A' ≤ c ∧ c ≤ 'F' then some (c.toNat - 'A'.toNat + 10)
  else none

/-- The value of a numeral, or nothing if one character is no digit. -/
def hexValue? (cs : List Char) : Option Nat :=
  cs.foldlM (fun acc c => (hexDigitValue? c).map (16 * acc + ·)) 0

theorem hexDigitValue?_hexDigit (n : Nat) : hexDigitValue? (hexDigit n) = some (n % 16) := by
  have h : ∀ k, k < 16 → hexDigitValue? (hexAlphabet.getD k '0') = some k := by decide +kernel
  exact h _ (Nat.mod_lt _ (by decide))

theorem hexValue_fixedHex (width n : Nat) :
    hexValue? (fixedHex width n) = some (n % Nat.pow 16 width) := by
  induction width generalizing n with
  | zero => simp [fixedHex, hexValue?, Nat.mod_one]
  | succ w ih =>
    have h := ih (n / 16)
    simp only [hexValue?] at h ⊢
    simp only [fixedHex, List.foldlM_append, h, Option.bind_eq_bind, Option.bind_some,
      List.foldlM_cons, List.foldlM_nil, hexDigitValue?_hexDigit, Option.map_some, Option.pure_def]
    rw [Nat.pow_eq, Nat.pow_eq, Nat.pow_succ, Nat.mul_comm (16 ^ w) 16, Nat.mod_mul, Nat.add_comm]

end FormalMachines.Text
