import FormalMachines.Fault

/-!
# FormalMachines.Declaration

The checks that tie a definition together: what is declared is declared once, and what is
named is declared.
-/

namespace FormalMachines

/-- A name that must be among the declared ones. -/
def declaredName (role : Role) (names : List Text) (v : Json) : Except Fault Text :=
  match v.text? with
  | some s => if s ∈ names then .ok s else .error (.definition (.undeclared role v))
  | none => .error (.definition (.undeclared role v))

@[simp] theorem declaredName_text (role : Role) (names : List Text) (s : Text) :
    declaredName role names (.text s) =
      if s ∈ names then .ok s else .error (.definition (.undeclared role (.text s))) := rfl

/-- Whether an atom is the same symbol as one in the list. -/
def Atom.isAmong (a : Atom) (declared : List Atom) : Bool := declared.any fun d => d.Same a

/-- A text is among some atoms exactly if it is one of them. -/
theorem Atom.isAmong_text_iff {s : Text} {declared : List Atom} :
    (Atom.text s).isAmong declared ↔ .text s ∈ declared := by
  simp only [isAmong, List.any_eq_true, decide_eq_true_eq, Same]
  constructor
  · rintro ⟨d, hd, h⟩
    rw [show (Atom.text s).key = .text s from rfl, key_eq_text_iff] at h
    exact h ▸ hd
  · exact fun h => ⟨_, h, rfl⟩

/-- The value as an atom. -/
def Json.requireAtom : Json → Except Fault Atom
  | .atom a => .ok a
  | v => .error (.value (.compoundSymbol v))

/-- A collection of atoms of which no two are the same symbol. -/
def distinctAtoms (collection : Text) (values : List Json) : Except Fault (List Atom) := do
  let atoms ← values.mapM Json.requireAtom
  if (atoms.map (·.key)).Nodup then return atoms
  else throw (.definition (.repeated collection))

/-- An atom that must be among the declared ones. -/
def declaredAtom (role : Role) (declared : List Atom) (v : Json) : Except Fault Atom :=
  match v with
  | .atom a =>
    if a.isAmong declared then .ok a else .error (.definition (.undeclared role v))
  | _ => .error (.definition (.undeclared role v))

/-- A text that must be among the declared atoms. -/
def declaredText (role : Role) (declared : List Atom) (s : Text) : Except Fault Text :=
  if .text s ∈ declared then .ok s else .error (.definition (.undeclared role (.text s)))

end FormalMachines
