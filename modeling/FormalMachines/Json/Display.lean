import FormalMachines.Json.Basic
import FormalMachines.Number.Shortest
import FormalMachines.Text.Quoted

/-!
# FormalMachines.Json.Display

How messages show a value: `null` as `None`, truth values capitalised, numbers in their
shortest form, texts quoted, lists in square brackets and objects in braces with
`key: value` pairs.  A text shown on its own stands without quotes (`Json.display`).
-/

namespace FormalMachines

namespace Atom

/-- An atom inside a message, texts in quotes. -/
def quoted : Atom → Text
  | .null => "None"
  | .bool true => "True"
  | .bool false => "False"
  | .integer n => .ofInt n
  | .float x => x.text
  | .text s => Text.quoted s

/-- An atom on its own. -/
def display : Atom → Text
  | .text s => s
  | a => a.quoted

end Atom

namespace Json

mutual

/-- A value inside a message, texts in quotes. -/
def quoted : Json → Text
  | .atom a => a.quoted
  | .list items => "[" ++ Text.join ", " (quotedItems items) ++ "]"
  | .object members => "\x7b" ++ Text.join ", " (quotedMembers members) ++ "\x7d"

def quotedItems : List Json → List Text
  | [] => []
  | v :: rest => v.quoted :: quotedItems rest

def quotedMembers : List (Text × Json) → List Text
  | [] => []
  | (k, v) :: rest => (Text.quoted k ++ ": " ++ v.quoted) :: quotedMembers rest

end

/-- A value on its own. -/
def display : Json → Text
  | .atom a => a.display
  | v => v.quoted

end Json

/-- A list of texts inside a message. -/
def quotedTexts (ss : List Text) : Text := (Json.texts ss).quoted

end FormalMachines
