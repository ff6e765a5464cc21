import FormalMachines.Proofs.Run.Cut
import FormalMachines.Proofs.Turing.Simulation

/-!
# FormalMachines.Proofs.Turing.Cut

Cancelled and exhausted runs of a Turing machine.

A run looks at the cancellation wherever it does not halt, so `walkCounted` counts no look
in the accepting or the rejecting state.  Both a cancelled run (`cancels_walk`) and one
with a smaller limit (`cuts_walk`) show the beginning of the run that goes on.
-/

namespace FormalMachines.Turing

instance : Flagged Step where
  unflagged s := { s with accepted := none, rejected := none }
  raised s := s.accepted = some true || s.rejected = some true

namespace Machine

/-- Continues a run like `walk`, and tells how many looks there were by its end. -/
def walkCounted (m : Machine) (cancel : Cancellation) :
    Nat → Nat → Configuration → Option Transition → Run Step × Nat
  | left, taken, c, via =>
    if c.state = m.accept then (finish (.accepting taken c via) .accepted, taken)
    else if c.state = m.reject then (finish (.rejecting taken c via) .rejected, taken)
    else if cancel.raisedAt taken then (finish (.stopped taken c via) .cancelled, taken + 1)
    else
      match left with
      | 0 => (finish (.stopped taken c via) .budgetExhausted, taken + 1)
      | more + 1 =>
        match m.transition? c.state c.tape.head with
        | none =>
          ((finish (.rejecting (taken + 1) ⟨m.reject, c.tape⟩ none) .rejected).cons
            (.passing taken c via), taken + 1)
        | some t =>
          let r := walkCounted m cancel more (taken + 1) (m.fire c t) (some t)
          (r.1.cons (.passing taken c via), r.2)

variable (m : Machine)

theorem fst_walkCounted (cancel : Cancellation) (left taken : Nat) (c : Configuration)
    (via : Option Transition) :
    (m.walkCounted cancel left taken c via).1 = m.walk cancel left taken c via := by
  fun_induction walk m cancel left taken c via with
  | case6 _ _ _ haccept hreject hcancel _ t ht ih =>
    rw [walkCounted, if_neg haccept, if_neg hreject, if_neg hcancel, ht]
    exact congrArg (Run.cons _) ih
  | case1 _ _ _ _ haccept =>
    unfold walkCounted
    rw [if_pos haccept]
  | case2 _ _ _ _ haccept hreject =>
    unfold walkCounted
    rw [if_neg haccept, if_pos hreject]
  | case3 _ _ _ _ haccept hreject hcancel =>
    unfold walkCounted
    rw [if_neg haccept, if_neg hreject, if_pos hcancel]
  | case4 _ _ _ haccept hreject hcancel =>
    rw [walkCounted, if_neg haccept, if_neg hreject, if_neg hcancel]
  | case5 _ _ _ haccept hreject hcancel _ ht =>
    rw [walkCounted, if_neg haccept, if_neg hreject, if_neg hcancel, ht]

/-- The looks before are counted. -/
theorem le_snd_walkCounted (cancel : Cancellation) (left taken : Nat) (c : Configuration)
    (via : Option Transition) : taken ≤ (m.walkCounted cancel left taken c via).2 := by
  fun_induction walkCounted m cancel left taken c via with
  | case6 _ _ _ _ _ _ _ _ _ _ ih => exact Nat.le_of_succ_le ih
  | case1 | case2 => exact Nat.le_refl _
  | case3 | case4 | case5 => exact Nat.le_succ _

/-- A run that does not halt at once looks at least once more. -/
theorem lt_snd_walkCounted {c : Configuration} (haccept : c.state ≠ m.accept)
    (hreject : c.state ≠ m.reject) (cancel : Cancellation) (left taken : Nat)
    (via : Option Transition) : taken < (m.walkCounted cancel left taken c via).2 := by
  fun_cases walkCounted m cancel left taken c via with
  | case1 => contradiction
  | case2 => contradiction
  | case3 | case4 | case5 => exact Nat.lt_succ_self _
  | case6 => exact le_snd_walkCounted ..

/-- A run shows where it starts at its first step. -/
theorem exists_unflagged_walk (cancel : Cancellation) (left taken : Nat) (c : Configuration)
    (via : Option Transition) :
    ∃ s rest, (m.walk cancel left taken c via).steps = s :: rest ∧
      Flagged.unflagged (.stopped taken c via) = Flagged.unflagged s := by
  obtain ⟨s, rest, hsteps, hnumber, hc, hvia⟩ := m.exists_steps_walk cancel left taken c via
  exact ⟨s, rest, hsteps, by simp [Flagged.unflagged, Step.stopped, hnumber, hc, hvia]⟩

/-- A run that is cancelled where it stands is cut there. -/
theorem cancels_walk_here {c : Configuration} (haccept : c.state ≠ m.accept)
    (hreject : c.state ≠ m.reject) (left taken : Nat) (via : Option Transition) :
    Run.Cancels taken taken (m.walk (.after taken) left taken c via)
      (m.walkCounted .never left taken c via) := by
  obtain ⟨s, rest, hsteps, hsame⟩ := m.exists_unflagged_walk .never left taken c via
  rw [← fst_walkCounted] at hsteps
  have hstop : m.walk (.after taken) left taken c via =
      finish (.stopped taken c via) .cancelled := by
    rw [walk.eq_def]
    simp only [haccept, hreject, if_false, Cancellation.raisedAt_after_self, if_true]
  rw [hstop]
  exact Run.cancels_stop hsteps (m.lt_snd_walkCounted haccept hreject .never left taken via)
    hsame rfl

/-- **A cancelled run** is the beginning of the run that goes on, from wherever both are. -/
theorem cancels_walk {n : Nat} (left taken : Nat) (c : Configuration)
    (via : Option Transition) (htaken : taken ≤ n) :
    Run.Cancels taken n (m.walk (.after n) left taken c via)
      (m.walkCounted .never left taken c via) := by
  fun_induction walk m (.after n) left taken c via with
  | case1 left taken c via haccept =>
    unfold walkCounted
    rw [if_pos haccept]
    exact Run.cancels_end htaken _
  | case2 left taken c via haccept hreject =>
    unfold walkCounted
    rw [if_neg haccept, if_pos hreject]
    exact Run.cancels_end htaken _
  | case3 left taken c via haccept hreject hcancel =>
    obtain rfl : taken = n := Nat.le_antisymm htaken (Cancellation.raisedAt_after.1 hcancel)
    have h := m.cancels_walk_here haccept hreject left taken via
    unfold walk at h
    rwa [if_neg haccept, if_neg hreject, if_pos hcancel] at h
  | case4 taken c via haccept hreject hcancel =>
    have hlt : taken < n := Nat.not_le.1 fun h => hcancel (Cancellation.raisedAt_after.2 h)
    rw [walkCounted, if_neg haccept, if_neg hreject]
    exact Run.cancels_last hlt _
  | case5 taken c via haccept hreject hcancel more ht =>
    have hlt : taken < n := Nat.not_le.1 fun h => hcancel (Cancellation.raisedAt_after.2 h)
    rw [walkCounted, if_neg haccept, if_neg hreject, ht]
    exact Run.cancels_last hlt _
  | case6 taken c via haccept hreject hcancel more t ht ih =>
    have hlt : taken < n := Nat.not_le.1 fun h => hcancel (Cancellation.raisedAt_after.2 h)
    rw [walkCounted, if_neg haccept, if_neg hreject, ht]
    exact (ih hlt).cons hlt rfl

/-- **A run with a smaller limit** is the run with the larger one or its beginning, from
wherever both are. -/
theorem cuts_walk {left left' : Nat} (h : left ≤ left') (taken : Nat) (c : Configuration)
    (via : Option Transition) :
    m.walk .never left taken c via = m.walk .never left' taken c via ∨
      Run.Cuts left .budgetExhausted (m.walk .never left taken c via)
        (m.walk .never left' taken c via) := by
  fun_induction walk m .never left taken c via generalizing left' with
  | case1 left taken c via haccept =>
    left
    unfold walk
    rw [if_pos haccept]
  | case2 left taken c via haccept hreject =>
    left
    unfold walk
    rw [if_neg haccept, if_pos hreject]
  | case3 _ _ _ _ _ _ hcancel => cases hcancel
  | case4 taken c via =>
    obtain ⟨s, rest, hsteps, hsame⟩ := m.exists_unflagged_walk .never left' taken c via
    exact .inr (Run.cuts_stop hsteps hsame rfl)
  | case5 taken c via haccept hreject _ more ht =>
    obtain ⟨more', rfl⟩ : ∃ more', left' = more' + 1 := ⟨left' - 1, by omega⟩
    left
    rw [walk, if_neg haccept, if_neg hreject, ht]
    rfl
  | case6 taken c via haccept hreject _ more t ht ih =>
    obtain ⟨more', rfl⟩ : ∃ more', left' = more' + 1 := ⟨left' - 1, by omega⟩
    have hlong : m.walk .never (more' + 1) taken c via =
        (m.walk .never more' (taken + 1) (m.fire c t) (some t)).cons (.passing taken c via) := by
      rw [walk, if_neg haccept, if_neg hreject, ht]
      rfl
    rw [hlong]
    obtain hsame | hcuts := ih (Nat.le_of_succ_le_succ h)
    · exact .inl (congrArg (Run.cons _) hsame)
    · exact .inr (hcuts.cons rfl)

/-- How often a run that is not cancelled looks whether it is. -/
def looks (input : Text) (budget : Budget) : Nat :=
  (m.walkCounted .never (stepLimit budget) 0 (m.initial input) none).2

/-- A run that is cancelled after some looks, from its start. -/
theorem cancels_run (input : Text) (budget : Budget) (n : Nat) :
    Run.Cancels 0 n (m.run input budget (.after n))
      (m.run input budget .never, m.looks input budget) := by
  have h := m.cancels_walk (stepLimit budget) 0 (m.initial input) none (Nat.zero_le n)
  rw [run, run, ← m.fst_walkCounted .never]
  exact h

end Machine

end FormalMachines.Turing
