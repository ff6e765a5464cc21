/-!
# FormalMachines.Run.Cancellation

Stopping a run from outside.

A run that can be stopped looks at a flag at fixed points.  Once raised the flag stays
up, so all that a run can learn of it is how many looks come before it is raised: that
number is a `Cancellation`.
-/

namespace FormalMachines

/-- A flag that stays up once raised. -/
structure CancelFlag where
  raised : Bool := false
  deriving DecidableEq, Repr

namespace CancelFlag

def raise (_ : CancelFlag) : CancelFlag := ⟨true⟩

/-- Whether a run with this flag, or with none, has to stop. -/
def isRaised : Option CancelFlag → Bool
  | none => false
  | some flag => flag.raised

@[simp] theorem isRaised_raise (flag : CancelFlag) : isRaised (some flag.raise) = true := rfl

end CancelFlag

/-- What a run learns of a flag: it is never raised, or after so many looks. -/
inductive Cancellation where
  | never
  | after (looks : Nat)
  deriving DecidableEq, Repr

namespace Cancellation

/-- Whether the flag is up at a look with that many before it. -/
def raisedAt : Cancellation → Nat → Bool
  | .never, _ => false
  | .after n, k => n ≤ k

@[simp] theorem raisedAt_never (k : Nat) : never.raisedAt k = false := rfl

theorem raisedAt_after {n k : Nat} : (after n).raisedAt k ↔ n ≤ k := by simp [raisedAt]

end Cancellation

end FormalMachines
