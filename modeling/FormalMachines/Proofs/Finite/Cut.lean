import FormalMachines.Finite.Run
import FormalMachines.Proofs.Run.Cut

/-!
# FormalMachines.Proofs.Finite.Cut

Cancelled runs of a finite automaton.

`walkCounted` is the run with the number of its looks at the cancellation: one for each
code point that it comes to.  A run that is cancelled shows the beginning of the run that
is not, whichever stepper makes it (`cancels_walk`).
-/

namespace FormalMachines.Finite

instance : Flagged Step where
  unflagged s := { s with accepted := none }
  raised s := s.accepted = some true

namespace Automaton

/-- Continues a run like `walk`, and tells how many looks there were by its end. -/
def walkCounted (a : Automaton) (m : Stepper) (cancel : Cancellation) :
    List Text → Text → List Transition → Nat → Text → Run Step × Nat
  | states, consumed, via, looks, [] =>
    let verdict := a.acceptsIn states
    (.stop ⟨states, [], consumed, via, some verdict⟩ verdict (.ofVerdict verdict), looks)
  | states, consumed, via, looks, c :: rest =>
    let here := fun verdict => (⟨states, c :: rest, consumed, via, verdict⟩ : Step)
    if cancel.raisedAt looks then (.stop (here (some false)) false .cancelled, looks + 1)
    else
      let fired := m.fire states c
      match m.land fired with
      | [] =>
        ((Run.stop ⟨states, c :: rest, consumed, [], some false⟩ false .rejected).cons (here none),
          looks + 1)
      | q :: more =>
        let r := walkCounted a m cancel (q :: more) (consumed ++ [c]) fired (looks + 1) rest
        (r.1.cons (here none), r.2)

variable (a : Automaton) (m : Stepper)

theorem fst_walkCounted (cancel : Cancellation) (states : List Text) (consumed : Text)
    (via : List Transition) (looks : Nat) (rest : Text) :
    (a.walkCounted m cancel states consumed via looks rest).1 =
      a.walk m cancel states consumed via looks rest := by
  induction rest generalizing states consumed via looks with
  | nil => rfl
  | cons c rest ih =>
      rw [walkCounted, walk]
      by_cases hcancel : cancel.raisedAt looks
      · simp only [hcancel, if_true]
      · simp only [hcancel, Bool.false_eq_true, if_false]
        cases m.land (m.fire states c) with
        | nil => rfl
        | cons q more => exact congrArg (Run.cons _) (ih ..)

/-- The looks before are counted. -/
theorem le_snd_walkCounted (cancel : Cancellation) (states : List Text) (consumed : Text)
    (via : List Transition) (looks : Nat) (rest : Text) :
    looks ≤ (a.walkCounted m cancel states consumed via looks rest).2 := by
  induction rest generalizing states consumed via looks with
  | nil => exact Nat.le_refl looks
  | cons c rest ih =>
      rw [walkCounted]
      by_cases hcancel : cancel.raisedAt looks
      · simp only [hcancel, if_true, Nat.le_succ]
      · simp only [hcancel, Bool.false_eq_true, if_false]
        cases m.land (m.fire states c) with
        | nil => exact Nat.le_succ looks
        | cons q more => exact Nat.le_trans (Nat.le_succ looks) (ih ..)

/-- **A cancelled run** is the beginning of the run that goes on, from wherever both are. -/
theorem cancels_walk {n : Nat} (states : List Text) (consumed : Text) (via : List Transition)
    (looks : Nat) (rest : Text) (hlooks : looks ≤ n) :
    Run.Cancels looks n (a.walk m (.after n) states consumed via looks rest)
      (a.walkCounted m .never states consumed via looks rest) := by
  induction rest generalizing states consumed via looks with
  | nil => exact Run.cancels_end hlooks _
  | cons c rest ih =>
      rw [walkCounted, walk]
      obtain hlt | rfl := Nat.lt_or_eq_of_le hlooks
      · simp only [Cancellation.raisedAt_never, Cancellation.raisedAt_after_of_lt hlt,
          Bool.false_eq_true, if_false]
        cases m.land (m.fire states c) with
        | nil => exact Run.cancels_last hlt _
        | cons q more => exact (ih _ _ _ _ hlt).cons hlt rfl
      · simp only [Cancellation.raisedAt_never, Cancellation.raisedAt_after_self,
          Bool.false_eq_true, if_false, if_true]
        cases m.land (m.fire states c) with
        | nil => exact Run.cancels_stop rfl (Nat.lt_succ_self looks) rfl rfl
        | cons q more => exact Run.cancels_stop rfl (le_snd_walkCounted ..) rfl rfl

/-- How often a run that is not cancelled looks whether it is. -/
def looks (input : Text) : Nat := (a.walkCounted m .never m.start [] [] 0 input).2

/-- A run that is cancelled after some looks, from its start. -/
theorem cancels_run (input : Text) (n : Nat) :
    Run.Cancels 0 n (a.run m input (.after n)) (a.run m input .never, a.looks m input) := by
  have h := a.cancels_walk m m.start [] [] 0 input (Nat.zero_le n)
  rw [run, run, ← a.fst_walkCounted m .never]
  exact h

end Automaton

end FormalMachines.Finite
