import FormalMachines.Fault

/-!
# FormalMachines.Json.Fields

Reading the members of an object that defines a machine or a grammar.

A member that is absent and one that has the wrong shape are told apart only where the
message does so: a list that must be given is `missing` when absent and `notList` when
it is something else; a text that must be given is `missing` whenever it is no text or
the empty one.
-/

namespace FormalMachines

/-- The empty word, as a symbol. -/
def epsilon : Text := [.char 'ε']

namespace Json

/-- The members of an object. -/
def requireObject (what : Subject) : Json → Except Fault Members
  | .object members => .ok members
  | _ => .error (.definition (.notObject what))

namespace Members

/-- The value under a key, `null` when there is none. -/
def value (members : Members) (key : Text) : Json := (members.get? key).getD .null

/-- A list that may be absent, which counts as empty. -/
def optionalList (members : Members) (key : Text) : Except Fault (List Json) :=
  match members.get? key with
  | none => .ok []
  | some (.list items) => .ok items
  | some _ => .error (.definition (.notList key))

/-- A list that must be given. -/
def requireList (members : Members) (key : Text) : Except Fault (List Json) :=
  match members.get? key with
  | none => .error (.definition (.missing key))
  | some _ => members.optionalList key

/-- A text that must be given and must not be empty. -/
def requireText (members : Members) (key : Text) : Except Fault Text :=
  match members.value key with
  | .atom (.text s) => if s = [] then .error (.definition (.missing key)) else .ok s
  | _ => .error (.definition (.missing key))

/-- A symbol that must be given; the empty text is read as `ε`. -/
def requireSymbol (members : Members) (key : Text) : Except Fault Text :=
  match members.value key with
  | .atom (.text s) => .ok (if s = [] then epsilon else s)
  | _ => .error (.definition (.missing key))

end Members

/-- The texts of a list that holds texts only. -/
def textItems? : Json → Option (List Text)
  | .list items => items.mapM Json.text?
  | _ => none

end Json

end FormalMachines
