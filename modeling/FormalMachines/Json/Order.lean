import FormalMachines.Json.Basic

/-!
# FormalMachines.Json.Order

Putting atoms in order.  Texts are ordered by code point and numbers by value; a list that
mixes the two, or holds `null` beside anything else, has no order.
-/

namespace FormalMachines.Atom

namespace Key

/-- Whether a key is that of a number. -/
def isNumber : Key → Bool
  | .number _ | .infinite _ | .notANumber => true
  | .null | .text _ => false

def isText : Key → Bool
  | .text _ => true
  | _ => false

/-- The order of two texts or two numbers. -/
def le : Key → Key → Bool
  | .text a, .text b => a ≤ b
  | .number a, .number b => a ≤ b
  | .infinite true, _ => true
  | _, .infinite false => true
  | _, _ => false

end Key

/-- The atoms in order, if they have one. -/
def sorted? (atoms : List Atom) : Option (List Atom) :=
  let keys := atoms.map (·.key)
  if atoms.length ≤ 1 ∨ keys.all (·.isText) ∨ keys.all (·.isNumber) then
    some (atoms.mergeSort fun a b => a.key.le b.key)
  else none

end FormalMachines.Atom
