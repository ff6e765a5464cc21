import FormalMachines.Fault

/-!
# FormalMachines.Run.Budget

The limits of a run.  A limit that is not set falls back to another budget
(`Budget.completedBy`), in the end to the one of the kind of machine; one that is not set
there either does not limit.
-/

namespace FormalMachines

/-- Limits of a run: the transitions it may fire, the depth of a derivation, the
configurations it may expand. -/
structure Budget where
  steps : Option Nat := none
  depth : Option Nat := none
  nodes : Option Nat := none
  deriving DecidableEq, Repr

namespace Budget

def unlimited : Budget := {}

/-- The limit of a kind. -/
def get (b : Budget) : Limit → Option Nat
  | .steps => b.steps
  | .depth => b.depth
  | .nodes => b.nodes

/-- Reads one limit: `null` sets none, and anything else must be a positive integer. -/
def readLimit (limit : Limit) : Json → Except Fault (Option Nat)
  | .atom .null => .ok none
  | .atom (.integer n) =>
    if 0 < n then .ok (some n.toNat) else .error (.parameter (.limitNotPositive limit))
  | _ => .error (.parameter (.limitNotInteger limit))

/-- Reads a budget from a value for each limit; the first bad one is reported. -/
def ofValues (value : Limit → Json) : Except Fault Budget := do
  let steps ← readLimit .steps (value .steps)
  let depth ← readLimit .depth (value .depth)
  let nodes ← readLimit .nodes (value .nodes)
  return ⟨steps, depth, nodes⟩

/-- Fills the limits that are not set. -/
def completedBy (b default : Budget) : Budget :=
  ⟨b.steps <|> default.steps, b.depth <|> default.depth, b.nodes <|> default.nodes⟩

theorem get_completedBy (b default : Budget) (limit : Limit) :
    (b.completedBy default).get limit = (b.get limit <|> default.get limit) := by
  cases limit <;> rfl

/-- The members of a budget as a request spells them. -/
def toJson (b : Budget) : Json :=
  .object (Limit.all.map fun l => (l.key, ((b.get l).map Json.nat).getD .null))

end Budget

end FormalMachines
