import FormalMachines.Json.Basic
import FormalMachines.Text.Hex

/-!
# FormalMachines.Json.Parser

Reading JSON text.  The grammar is that of JSON, with three numerals more (`NaN`,
`Infinity`, `-Infinity`) and these rules:

1. a numeral with a fraction or an exponent is a floating-point number, any other an
   integer of any size up to `maxIntegerDigits` digits;
2. a member whose key was written before replaces that member in its place;
3. control characters inside a text are refused;
4. an escaped surrogate pair is one character, and an escaped surrogate that is not half
   of a pair stands alone;
5. lists and objects within each other are followed down to so many of them as the reader is
   given room for.

Every reader takes the text ahead and returns what it read with the text that is left.
The readers of values call each other with a bound on the calls still allowed; `parseWithin`
starts them with more than any text of that length can need.
-/

namespace FormalMachines

namespace Json

/-- Why no value can be read: there is none, it is nested too deeply, or what holds it is too
long to be looked at. -/
inductive Unreadable where
  | malformed
  | tooDeep
  | tooLarge
  deriving DecidableEq, Repr

/-- A part that must be there. -/
def required {α : Type} : Option α → Except Unreadable α
  | some r => .ok r
  | none => .error .malformed

/-- Integers with more digits are refused. -/
def maxIntegerDigits : Nat := 4300

/-- How far lists and objects are followed where nothing else is said. -/
def standardNesting : Nat := 975

def isSpace (p : CodePoint) : Bool :=
  p = .char ' ' || p = .char '\t' || p = .char '\n' || p = .char '\r'

def skipSpace (s : Text) : Text := s.dropWhile isSpace

/-- Takes a fixed word off the front. -/
def takeWord? (word s : Text) : Option Text :=
  if word.isPrefixOf s then some (s.drop word.length) else none

/-! ## Numerals -/

/-- Whether a code point is a decimal digit. -/
def isDigit : CodePoint → Bool
  | .char c => c.isDigit
  | .surrogate _ => false

/-- Takes the digits at the front, if there is any. -/
def takeDigits? (s : Text) : Option (Text × Text) :=
  let ds := s.takeWhile isDigit
  if ds = [] then none else some (ds, s.drop ds.length)

/-- The number that decimal digits write. -/
def digitsValue (ds : Text) : Nat := ds.foldl (fun n d => 10 * n + (d.toNat - '0'.toNat)) 0

/-- Takes a minus sign off the front, if there is one. -/
def takeSign : Text → Bool × Text
  | .char '-' :: rest => (true, rest)
  | s => (false, s)

/-- The digits before the point: a zero alone, or digits that do not start with zero. -/
def takeWhole? : Text → Option (Text × Text)
  | .char '0' :: rest => some ([.char '0'], rest)
  | s => takeDigits? s

/-- The digits after a point, if a point with a digit after it follows. -/
def takeFraction? : Text → Option (Text × Text)
  | .char '.' :: rest => takeDigits? rest
  | _ => none

/-- The exponent, if one follows. -/
def takeExponent? : Text → Option (Int × Text)
  | e :: rest =>
    if e = .char 'e' ∨ e = .char 'E' then
      let (negative, rest) := match rest with
        | .char '+' :: more => (false, more)
        | _ => takeSign rest
      (takeDigits? rest).map fun (ds, after) =>
        let n : Int := digitsValue ds
        (if negative then -n else n, after)
    else none
  | [] => none

/-- A numeral. -/
def takeNumber? (s : Text) : Option (Atom × Text) := do
  let (negative, rest) := takeSign s
  let (whole, rest) ← takeWhole? rest
  let fraction := takeFraction? rest
  let (fractionDigits, rest) := fraction.getD ([], rest)
  let exponent := takeExponent? rest
  let (exponentValue, rest) := exponent.getD (0, rest)
  if fraction.isNone && exponent.isNone then
    if maxIntegerDigits < whole.length then none
    else
      let n : Int := digitsValue whole
      some (.integer (if negative then -n else n), rest)
  else
    let digits := digitsValue (whole ++ fractionDigits)
    some (.float (.ofDecimal negative digits (exponentValue - fractionDigits.length)), rest)

/-! ## Texts -/

/-- A code unit written as four hexadecimal digits. -/
def takeUnit? (s : Text) : Option (Nat × Text) := do
  let ds ← (s.take 4).mapM CodePoint.char?
  if ds.length < 4 then none
  else
    let n ← Text.hexValue? ds
    some (n, s.drop 4)

/-- The code point after `\u`, with the second half of a pair that may follow. -/
def takeCodePoint? (s : Text) : Option (CodePoint × Text) := do
  let (high, rest) ← takeUnit? s
  let paired : Option (CodePoint × Text) := do
    let (low, after) ← takeUnit? (← takeWord? "\\u" rest)
    (CodePoint.ofPair? high low).map (·, after)
  paired <|> (CodePoint.ofNat? high).map (·, rest)

/-- The characters after a backslash that stand for one character each. -/
def letterEscapes : List (Char × Char) :=
  [('"', '"'), ('\\', '\\'), ('/', '/'), ('b', '\x08'), ('f', '\x0c'), ('n', '\n'), ('r', '\r'),
   ('t', '\t')]

/-- The code point after a backslash. -/
def takeEscape? : Text → Option (CodePoint × Text)
  | .char 'u' :: rest => takeCodePoint? rest
  | .char c :: rest => (letterEscapes.lookup c).map (.char ·, rest)
  | _ => none

/-- The rest of a text after its opening quote; `done` holds the code points already read,
last first. -/
def takeText? : Nat → Text → Text → Option (Text × Text)
  | 0, _, _ => none
  | fuel + 1, done, s =>
    match s with
    | [] => none
    | .char '"' :: rest => some (done.reverse, rest)
    | .char '\\' :: rest =>
      match takeEscape? rest with
      | some (p, after) => takeText? fuel (p :: done) after
      | none => none
    | p :: rest => if p.toNat < 0x20 then none else takeText? fuel (p :: done) rest

/-- The key of a member and the colon after it, with the spaces behind each. -/
def takeKey? : Text → Option (Text × Text)
  | .char '"' :: rest => do
    let (key, afterKey) ← takeText? (rest.length + 1) [] rest
    match skipSpace afterKey with
    | .char ':' :: beforeValue => some (key, skipSpace beforeValue)
    | _ => none
  | _ => none

/-! ## Values -/

/-- The words that are values by themselves. -/
def wordValues : List (Text × Atom) :=
  [("null", .null), ("true", .bool true), ("false", .bool false), ("NaN", .float .notANumber),
   ("Infinity", .float (.infinite false)), ("-Infinity", .float (.infinite true))]

/-- A word or a numeral. -/
def takeScalar? (s : Text) : Option (Atom × Text) :=
  (wordValues.findSome? fun w => (takeWord? w.1 s).map (w.2, ·)) <|> takeNumber? s

mutual

/-- A value, with no space in front; `room` is how far lists and objects are followed. -/
def takeValue : Nat → Nat → Text → Except Unreadable (Json × Text)
  | 0, _, _ => .error .malformed
  | fuel + 1, room, s =>
    match s, room with
    | .char '"' :: rest, _ =>
      required ((takeText? (rest.length + 1) [] rest).map fun r => (text r.1, r.2))
    | .char '[' :: _, 0 => .error .tooDeep
    | .char '[' :: rest, room + 1 =>
      match skipSpace rest with
      | .char ']' :: after => .ok (.list [], after)
      | inner => (takeItems fuel room [] inner).map fun r => (.list r.1, r.2)
    | .char '\x7b' :: _, 0 => .error .tooDeep
    | .char '\x7b' :: rest, room + 1 =>
      match skipSpace rest with
      | .char '\x7d' :: after => .ok (.object [], after)
      | inner => (takeMembers fuel room [] inner).map fun r => (.object r.1, r.2)
    | _, _ => required ((takeScalar? s).map fun r => (.atom r.1, r.2))

/-- The items of a list from one of them to the closing bracket; `done` holds those
already read, last first. -/
def takeItems : Nat → Nat → List Json → Text → Except Unreadable (List Json × Text)
  | 0, _, _, _ => .error .malformed
  | fuel + 1, room, done, s => do
    let (v, rest) ← takeValue fuel room s
    match skipSpace rest with
    | .char ',' :: more => takeItems fuel room (v :: done) (skipSpace more)
    | .char ']' :: after => return ((v :: done).reverse, after)
    | _ => throw .malformed

/-- The members of an object from one of them to the closing brace, after those already
read. -/
def takeMembers : Nat → Nat → Members → Text → Except Unreadable (Members × Text)
  | 0, _, _, _ => .error .malformed
  | fuel + 1, room, done, s => do
    let (key, afterKey) ← required (takeKey? s)
    let (v, afterValue) ← takeValue fuel room afterKey
    match skipSpace afterValue with
    | .char ',' :: more => takeMembers fuel room (done.set key v) (skipSpace more)
    | .char '\x7d' :: after => return (done.set key v, after)
    | _ => throw .malformed

end

/-- The value that a text holds, with spaces around it at most, if lists and objects are
followed down to so many of them. -/
def parseWithin (nesting : Nat) (s : Text) : Except Unreadable Json :=
  match takeValue (2 * s.length + 2) nesting (skipSpace s) with
  | .ok (v, rest) => if skipSpace rest = [] then .ok v else .error .malformed
  | .error e => .error e

/-- The value that a text holds. -/
def parse (s : Text) : Except Unreadable Json := parseWithin standardNesting s

end Json

end FormalMachines
