import FormalMachines.Text.Basic

/-!
# FormalMachines.Text.Encoding

Telling the encoding of a JSON text from its first bytes, and decoding it.

A byte order mark in front tells the encoding and is no part of the text.  Without one the
first character of a JSON text is ASCII, so the zero bytes among the first four show the width
of a code unit and the order of its bytes.  In all encodings a surrogate may stand alone.
-/

namespace FormalMachines.Text

/-- The encodings of a JSON text.  The wide ones come in both byte orders. -/
inductive Encoding where
  | utf8
  | utf16 (bigEndian : Bool)
  | utf32 (bigEndian : Bool)
  deriving DecidableEq

namespace Encoding

/-- The byte order marks and what they tell.  The one of UTF-32 with the low byte first begins
with that of UTF-16, so those of UTF-32 come before. -/
def marks : List (List UInt8 × Encoding) :=
  [([0x00, 0x00, 0xFE, 0xFF], .utf32 true), ([0xFF, 0xFE, 0x00, 0x00], .utf32 false),
   ([0xFE, 0xFF], .utf16 true), ([0xFF, 0xFE], .utf16 false), ([0xEF, 0xBB, 0xBF], .utf8)]

/-- The encoding that a mark in front tells, with the bytes behind the mark. -/
def marked? (bytes : List UInt8) : Option (Encoding × List UInt8) :=
  (marks.find? fun m => m.1.isPrefixOf bytes).map fun m => (m.2, bytes.drop m.1.length)

/-- The encoding that the first bytes show where no mark stands in front. -/
def detect : List UInt8 → Encoding
  | a :: b :: c :: d :: _ =>
    if a = 0 then (if b ≠ 0 then .utf16 true else .utf32 true)
    else if b = 0 then (if c ≠ 0 ∨ d ≠ 0 then .utf16 false else .utf32 false)
    else .utf8
  | [a, b] => if a = 0 then .utf16 true else if b = 0 then .utf16 false else .utf8
  | _ => .utf8

end Encoding

/-- The number that bytes in the given order stand for. -/
def unitValue (bigEndian : Bool) (bytes : List UInt8) : Nat :=
  (if bigEndian then bytes else bytes.reverse).foldl (fun n b => 256 * n + b.toNat) 0

/-- Code units of two bytes, or nothing if a byte is left over. -/
def units16 (bigEndian : Bool) : List UInt8 → Option (List Nat)
  | [] => some []
  | a :: b :: rest => (units16 bigEndian rest).map (unitValue bigEndian [a, b] :: ·)
  | _ => none

/-- Code units of four bytes, or nothing if bytes are left over. -/
def units32 (bigEndian : Bool) : List UInt8 → Option (List Nat)
  | [] => some []
  | a :: b :: c :: d :: rest =>
    (units32 bigEndian rest).map (unitValue bigEndian [a, b, c, d] :: ·)
  | _ => none

/-- The text of UTF-16 code units.  A surrogate that is not half of a pair stands alone. -/
def ofUnits16 : List Nat → Option Text
  | [] => some []
  | [unit] => (CodePoint.ofNat? unit).map ([·])
  | high :: low :: rest =>
    match CodePoint.ofPair? high low with
    | some p => (ofUnits16 rest).map (p :: ·)
    | none => do
      let p ← CodePoint.ofNat? high
      (ofUnits16 (low :: rest)).map (p :: ·)

/-- The text of UTF-32 code units, which never form pairs. -/
def ofUnits32 (units : List Nat) : Option Text := units.mapM CodePoint.ofNat?

/-! ## UTF-8 -/

/-- Where the reading of UTF-8 stands: the code points read, last first, and of one that is
begun how many bytes are missing, the value of those read and the least value that takes so
many. -/
structure Utf8 where
  done : Text
  missing : Nat
  value : Nat
  least : Nat

namespace Utf8

def initial : Utf8 := ⟨[], 0, 0, 0⟩

/-- Reads the first byte of a code point, which tells how many follow. -/
def lead (s : Utf8) (byte : Nat) : Option Utf8 :=
  if byte < 0x80 then (CodePoint.ofNat? byte).map fun p => { s with done := p :: s.done }
  else if byte < 0xC0 then none
  else if byte < 0xE0 then some ⟨s.done, 1, byte - 0xC0, 0x80⟩
  else if byte < 0xF0 then some ⟨s.done, 2, byte - 0xE0, 0x800⟩
  else if byte < 0xF8 then some ⟨s.done, 3, byte - 0xF0, 0x10000⟩
  else none

/-- Reads a byte that follows.  A code point that takes fewer bytes is refused after the last
of them. -/
def trail (s : Utf8) (byte : Nat) : Option Utf8 :=
  if byte < 0x80 ∨ 0xC0 ≤ byte then none
  else
    let value := 0x40 * s.value + (byte - 0x80)
    if 1 < s.missing then some { s with missing := s.missing - 1, value := value }
    else if value < s.least then none
    else (CodePoint.ofNat? value).map fun p => ⟨p :: s.done, 0, 0, 0⟩

def read (s : Utf8) (byte : UInt8) : Option Utf8 :=
  if s.missing = 0 then s.lead byte.toNat else s.trail byte.toNat

end Utf8

/-- The text of UTF-8 bytes, if the last code point is whole. -/
def ofUtf8 (bytes : List UInt8) : Option Text := do
  let s ← bytes.foldlM Utf8.read .initial
  if s.missing = 0 then some s.done.reverse else none

/-! ## All encodings -/

/-- The text of an encoded JSON text. -/
def decode (bytes : ByteArray) : Option Text :=
  let list := bytes.data.toList
  match (Encoding.marked? list).getD (Encoding.detect list, list) with
  | (.utf8, rest) => ofUtf8 rest
  | (.utf16 bigEndian, rest) => (units16 bigEndian rest).bind ofUnits16
  | (.utf32 bigEndian, rest) => (units32 bigEndian rest).bind ofUnits32

/-- A surrogate by itself in UTF-8. -/
example : decode ⟨#[0x22, 0xED, 0xA0, 0x80, 0x22]⟩ =
    some [.char '"', .surrogate 0, .char '"'] := by decide

/-- The same text in UTF-16 behind a mark. -/
example : decode ⟨#[0xFF, 0xFE, 0x22, 0x00, 0x00, 0xD8, 0x22, 0x00]⟩ =
    some [.char '"', .surrogate 0, .char '"'] := by decide

end FormalMachines.Text
