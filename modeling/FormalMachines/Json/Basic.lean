import FormalMachines.Number.Binary64
import FormalMachines.Text.Basic

/-!
# FormalMachines.Json.Basic

JSON values, with the members of an object in the order in which they were written.

Values that are no list and no object are *atoms*: only they can be symbols of a set or
states of a machine.  Two atoms are the same symbol when their *keys* are equal.  Keys
compare numbers by value, whatever they are written as, and count `true` as 1 and
`false` as 0; every other atom is the same as itself alone.  To compare equal is more: what
is not a number is the same symbol as itself, yet it compares equal to nothing.
-/

namespace FormalMachines

open Number (Binary64)

/-- A value without parts. -/
inductive Atom where
  | null
  | bool (value : Bool)
  | integer (value : Int)
  | float (value : Binary64)
  | text (value : Text)
  deriving DecidableEq, Repr

namespace Atom

/-- What two atoms share when they are the same symbol. -/
inductive Key where
  | null
  | number (value : Rat)
  | infinite (negative : Bool)
  | notANumber
  | text (value : Text)
  deriving DecidableEq

/-- The key of a floating-point number. -/
def floatKey : Binary64 → Key
  | .infinite negative => .infinite negative
  | .notANumber => .notANumber
  | x@(.finite _ _ _) => .number (x.toRat?.getD 0)

/-- The key of an atom. -/
def key : Atom → Key
  | .null => .null
  | .bool b => .number (if b then 1 else 0)
  | .integer n => .number n
  | .float x => floatKey x
  | .text s => .text s

/-- Being the same symbol. -/
abbrev Same (a b : Atom) : Prop := a.key = b.key

/-- Whether two atoms compare equal. -/
abbrev Equals (a b : Atom) : Prop := a.Same b ∧ a.key ≠ .notANumber

/-- A text is the same symbol as no other atom. -/
theorem key_eq_text_iff {a : Atom} {s : Text} : a.key = .text s ↔ a = .text s := by
  constructor
  · intro h
    cases a with
    | null | bool | integer => cases h
    | float x => cases x <;> cases h
    | text => cases h; rfl
  · rintro rfl; rfl

/-- A text compares equal to itself. -/
theorem equals_text_iff {a : Atom} {s : Text} : a.Equals (.text s) ↔ a = .text s := by
  constructor
  · exact fun h => key_eq_text_iff.1 h.1
  · rintro rfl
    exact ⟨rfl, nofun⟩

theorem equals_iff_same {a b : Atom} (h : b.key ≠ .notANumber) : a.Equals b ↔ a.Same b :=
  and_iff_left_of_imp fun hsame hlabel => h (hsame.symm.trans hlabel)

/-- The text of a text. -/
def text? : Atom → Option Text
  | .text s => some s
  | _ => none

/-- The first of every class of atoms that are the same symbol, in order. -/
def distinct (atoms : List Atom) : List Atom :=
  atoms.eraseDupsBy fun a b => a.key = b.key

end Atom

/-- A JSON value. -/
inductive Json where
  | atom (value : Atom)
  | list (items : List Json)
  | object (members : List (Text × Json))
  deriving Repr

namespace Json

/-- The members of an object. -/
abbrev Members := List (Text × Json)

def null : Json := .atom .null
def bool (b : Bool) : Json := .atom (.bool b)
def integer (n : Int) : Json := .atom (.integer n)
def nat (n : Nat) : Json := .integer n
def text (s : Text) : Json := .atom (.text s)
def texts (ss : List Text) : Json := .list (ss.map text)

/-- The text of a text. -/
def text? : Json → Option Text
  | .atom a => a.text?
  | _ => none

/-- The atom of an atom. -/
def atom? : Json → Option Atom
  | .atom a => some a
  | _ => none

/-- Whether this is a certain text. -/
def isText (v : Json) (s : Text) : Bool := v.text? = some s

/-- The value under a key. -/
def Members.get? (members : Members) (key : Text) : Option Json := members.lookup key

/-- The member of an object, if this is an object and has it. -/
def member? (v : Json) (key : Text) : Option Json :=
  match v with
  | .object members => Members.get? members key
  | _ => none

/-- Whether a value counts as present: all do but `null`, `false`, zero, and the empty
text, list and object. -/
def isTruthy : Json → Bool
  | .atom .null => false
  | .atom (.bool b) => b
  | .atom (.text s) => s ≠ []
  | .atom a => a.key ≠ .number 0
  | .list items => !items.isEmpty
  | .object members => !members.isEmpty

/-- Puts a value under a key: in place of the old one, or else at the end. -/
def Members.set (key : Text) (value : Json) : Members → Members
  | [] => [(key, value)]
  | (k, v) :: rest => if key = k then (k, value) :: rest else (k, v) :: Members.set key value rest

theorem Members.get?_set (key other : Text) (value : Json) (members : Members) :
    (Members.set key value members).get? other =
      if other = key then some value else members.get? other := by
  unfold Members.get?
  have miss : ∀ {k l : Text}, k ≠ l → (k == l) = false := fun h => by simpa using h
  induction members with
  | nil =>
    by_cases h : other = key
    · simp [Members.set, h]
    · simp [Members.set, List.lookup_cons, h, miss h]
  | cons m rest ih =>
    obtain ⟨k, v⟩ := m
    by_cases hk : key = k
    · subst hk
      by_cases h : other = key
      · simp [Members.set, h]
      · simp [Members.set, List.lookup_cons, h, miss h]
    · by_cases ho : other = k
      · subst ho
        have h : ¬ other = key := fun e => hk e.symm
        simp [Members.set, hk, h]
      · simp [Members.set, List.lookup_cons, hk, miss ho, ih]

end Json

end FormalMachines
