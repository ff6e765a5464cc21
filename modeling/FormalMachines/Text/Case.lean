import FormalMachines.Text.Basic
import FormalMachines.Text.Ranges
import FormalMachines.Text.CaseTable

/-!
# FormalMachines.Text.Case

Full Unicode case mappings.  A character may map to several (`ß` in upper case is
`SS`), and a capital sigma in lower case depends on where it stands:

1. it becomes `ς` when it ends a word: going left past case-ignorable characters there
   is a letter with case, and going right past them there is none;
2. elsewhere it becomes `σ`.

No other mapping looks at a character's neighbours.
-/

namespace FormalMachines.Text

/-- Whether a code point is a letter with case that sigma's rule stops at. -/
def isCased (c : CodePoint) : Bool := inRanges casedRanges c.toNat

/-- Whether sigma's rule looks past a code point. -/
def isCaseIgnorable (c : CodePoint) : Bool := inRanges caseIgnorableRanges c.toNat

/-- Maps one code point by a table of expansions and a table of runs; one in neither is
its own image. -/
def mapCase (expansions : List (Nat × List Nat)) (runs : List CaseRun) (c : CodePoint) : Text :=
  match expansions.lookup c.toNat with
  | some image => ofChars (image.map Char.ofNat)
  | none =>
    match runs.find? (·.covers c.toNat) with
    | some r => [.char (Char.ofNat (r.image c.toNat))]
    | none => [c]

/-- The upper case of one code point. -/
def upperChar (c : CodePoint) : Text := mapCase upperExpansions upperRuns c

/-- The lower case of one code point, apart from its neighbours. -/
def lowerChar (c : CodePoint) : Text := mapCase lowerExpansions lowerRuns c

/-- Whether the nearest code point that is not case-ignorable is a letter with case. -/
def meetsCased (s : Text) : Bool :=
  ((s.dropWhile isCaseIgnorable).head?.map isCased).getD false

/-- Whether a sigma between `before` (nearest first) and `after` ends a word. -/
def endsWord (before after : Text) : Bool :=
  meetsCased before && !meetsCased after

/-- The text in upper case. -/
def upper (s : Text) : Text := s.flatMap upperChar

/-- Lower case of the text that follows `before` (nearest first). -/
def lowerFrom (before : Text) : Text → Text
  | [] => []
  | .char 'Σ' :: after =>
    .char (if endsWord before after then 'ς' else 'σ') :: lowerFrom (.char 'Σ' :: before) after
  | c :: after => lowerChar c ++ lowerFrom (c :: before) after

/-- The text in lower case. -/
def lower (s : Text) : Text := lowerFrom [] s

example : upper "l" = ofString "L" := by decide +kernel
example : upper "ßa" = ofString "SSA" := by decide +kernel
example : lower "NFA" = ofString "nfa" := by decide +kernel
example : lower "ΑΣ" = ofString "ας" := by decide +kernel
example : lower "ΑΣΑ" = ofString "ασα" := by decide +kernel
example : lower "Σ" = ofString "σ" := by decide +kernel

end FormalMachines.Text
