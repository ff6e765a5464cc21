import FormalMachines.Text.Hex
import FormalMachines.Text.Printable

/-!
# FormalMachines.Text.Quoted

Quoted text, as it appears inside messages:

1. the quotes are single, unless the text holds a single quote and no double one;
2. a backslash, the chosen quote, a tab, a line feed and a carriage return are written
   with a backslash;
3. other code points that are not printable are written by their number, as `\x` and two
   digits, `\u` and four, or `\U` and eight, whichever is the first to fit;
4. printable characters stand for themselves.
-/

namespace FormalMachines.Text

/-- The quote that surrounds a text. -/
def quoteFor (s : Text) : Char :=
  if .char '\'' ∈ s ∧ .char '"' ∉ s then '"' else '\''

/-- A code point by its number. -/
def codePointEscape (n : Nat) : List Char :=
  if n < 0x100 then '\\' :: 'x' :: fixedHex 2 n
  else if n < 0x10000 then '\\' :: 'u' :: fixedHex 4 n
  else '\\' :: 'U' :: fixedHex 8 n

/-- The characters that are written as a backslash and a letter. -/
def letterEscapes : List (Char × Char) := [('\t', 't'), ('\n', 'n'), ('\r', 'r')]

/-- One code point between the given quotes. -/
def escapeIn (quote : Char) (p : CodePoint) : Text :=
  if p = .char quote ∨ p = .char '\\' then [.char '\\', p]
  else
    match p.char?.bind fun c => letterEscapes.lookup c with
    | some letter => ofChars ['\\', letter]
    | none => if isPrintable p then [p] else ofChars (codePointEscape p.toNat)

/-- The text between quotes. -/
def quoted (s : Text) : Text :=
  let quote := quoteFor s
  .char quote :: s.flatMap (escapeIn quote) ++ [.char quote]

example : quoted "a" = ofString "'a'" := by decide +kernel
example : quoted "it's" = ofString "\"it's\"" := by decide +kernel
example : quoted "'\"" = ofString "'\\'\"'" := by decide +kernel
example : quoted "\x1b\n" = ofString "'\\x1b\\n'" := by decide +kernel
example : quoted [.surrogate 0x80] = ofString "'\\ud880'" := by decide +kernel

end FormalMachines.Text
