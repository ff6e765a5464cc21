import FormalMachines.Run.Cancellation
import FormalMachines.Run.Outcome
import FormalMachines.Turing.Basic
import FormalMachines.Turing.Tape

/-!
# FormalMachines.Turing.Run

Running a Turing machine.

At each step a run first looks at its state: in the accepting or the rejecting one it
ends.  Then it looks whether it is cancelled and whether its budget allows a step, and
only then takes the first transition for its state and the symbol under the head.  If
there is none, one more step leads to the rejecting state and leaves the tape as it is.
-/

namespace FormalMachines.Turing

/-- Where a run stands: its state and its tape. -/
structure Configuration where
  state : Text
  tape : Tape
  deriving DecidableEq, Repr

/-- What a run records: the number of the step, the configuration, the transition that led
here, and the verdict flags if the run ends here. -/
structure Step where
  number : Nat
  configuration : Configuration
  fired : Option Transition
  accepted : Option Bool
  rejected : Option Bool
  deriving DecidableEq, Repr

namespace Step

/-- A step at which a run goes on. -/
def passing (number : Nat) (c : Configuration) (fired : Option Transition) : Step :=
  ⟨number, c, fired, none, none⟩

/-- A step at which a run accepts. -/
def accepting (number : Nat) (c : Configuration) (fired : Option Transition) : Step :=
  ⟨number, c, fired, some true, none⟩

/-- A step at which a run rejects. -/
def rejecting (number : Nat) (c : Configuration) (fired : Option Transition) : Step :=
  ⟨number, c, fired, none, some true⟩

/-- A step at which a run is stopped. -/
def stopped (number : Nat) (c : Configuration) (fired : Option Transition) : Step :=
  ⟨number, c, fired, some false, some false⟩

end Step

/-- Moves the head of a tape. -/
def Direction.move (d : Direction) (blank : Text) (t : Tape) : Tape :=
  match d with
  | .left => t.moveLeft blank
  | .right => t.moveRight blank

/-- A run that ends at its first step.  It accepts if its outcome says so. -/
def finish (step : Step) (outcome : Outcome) : Run Step :=
  .stop step (outcome = .accepted) outcome

/-- Whether a run rejects, which its outcome says. -/
def rejects (r : Run Step) : Bool := r.outcome = .rejected

namespace Machine

/-- The configuration at the start. -/
def initial (m : Machine) (input : Text) : Configuration :=
  ⟨m.start, .ofInput m.blank input⟩

/-- The configuration after a transition. -/
def fire (m : Machine) (c : Configuration) (t : Transition) : Configuration :=
  ⟨t.next, t.direction.move m.blank (c.tape.write t.write)⟩

/-- Continues a run that may take so many steps more and has taken so many. -/
def walk (m : Machine) (cancel : Cancellation) :
    Nat → Nat → Configuration → Option Transition → Run Step
  | left, taken, c, via =>
    if c.state = m.accept then finish (.accepting taken c via) .accepted
    else if c.state = m.reject then finish (.rejecting taken c via) .rejected
    else if cancel.raisedAt taken then finish (.stopped taken c via) .cancelled
    else
      match left with
      | 0 => finish (.stopped taken c via) .budgetExhausted
      | more + 1 =>
        match m.transition? c.state c.tape.head with
        | none =>
          (finish (.rejecting (taken + 1) ⟨m.reject, c.tape⟩ none) .rejected).cons
            (.passing taken c via)
        | some t => (walk m cancel more (taken + 1) (m.fire c t) (some t)).cons
            (.passing taken c via)

/-- The run on an input. -/
def run (m : Machine) (input : Text) (budget : Budget) (cancel : Cancellation) :
    Run Step :=
  m.walk cancel (stepLimit budget) 0 (m.initial input) none

theorem agrees_walk (m : Machine) (cancel : Cancellation) (left taken : Nat) (c : Configuration)
    (via : Option Transition) : (m.walk cancel left taken c via).Agrees := by
  have hfinish : ∀ step outcome, (finish step outcome).Agrees := fun _ _ => decide_eq_true_iff
  fun_induction walk m cancel left taken c via with
  | case1 => exact hfinish _ _
  | case2 => exact hfinish _ _
  | case3 => exact hfinish _ _
  | case4 => exact hfinish _ _
  | case5 => exact (hfinish _ _).cons _
  | case6 _ _ _ _ _ _ _ _ _ ih => exact ih.cons _

end Machine

end FormalMachines.Turing
