import FormalMachines.Json.Basic
import FormalMachines.Number.Shortest
import FormalMachines.Text.Hex

/-!
# FormalMachines.Json.Printer

JSON text of a value.  Inside a text, quotes, backslashes, control characters and
surrogates are escaped and all else stands for itself.  A floating-point number is
written so that it reads back; the values that JSON has no numeral for are `NaN`,
`Infinity` and `-Infinity`.
-/

namespace FormalMachines

namespace Json

/-- A code unit as an escape. -/
def unitEscape (n : Nat) : List Char := '\\' :: 'u' :: Text.fixedHex 4 n

/-- One code point inside a JSON text. -/
def escape : CodePoint → List Char
  | .surrogate i => unitEscape (CodePoint.surrogate i).toNat
  | .char c =>
    if c = '"' ∨ c = '\\' then ['\\', c]
    else if c.toNat < 0x20 then unitEscape c.toNat
    else [c]

def renderText (s : Text) : String := "\"" ++ String.ofList (s.flatMap escape) ++ "\""

def renderFloat : Number.Binary64 → String
  | .notANumber => "NaN"
  | .infinite false => "Infinity"
  | .infinite true => "-Infinity"
  | x => x.text

def renderAtom : Atom → String
  | .null => "null"
  | .bool true => "true"
  | .bool false => "false"
  | .integer n => toString n
  | .float x => renderFloat x
  | .text s => renderText s

mutual

/-- The JSON text of a value. -/
def render : Json → String
  | .atom a => renderAtom a
  | .list items => "[" ++ ",".intercalate (renderItems items) ++ "]"
  | .object members => "\x7b" ++ ",".intercalate (renderMembers members) ++ "\x7d"

def renderItems : List Json → List String
  | [] => []
  | v :: rest => v.render :: renderItems rest

def renderMembers : List (Text × Json) → List String
  | [] => []
  | (k, v) :: rest => (renderText k ++ ":" ++ v.render) :: renderMembers rest

end

end Json

end FormalMachines
