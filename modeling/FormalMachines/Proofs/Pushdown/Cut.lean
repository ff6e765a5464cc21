import FormalMachines.Proofs.Run.Cut
import FormalMachines.Pushdown.Run

/-!
# FormalMachines.Proofs.Pushdown.Cut

Cancelled and exhausted runs that fire the first move each time.

A run looks at the cancellation wherever it stands, so `walkCounted` counts one look for
each step.  Both a cancelled run (`cancels_walk`) and one with a smaller limit
(`cuts_walk`) show the beginning of the run that goes on.
-/

namespace FormalMachines.Pushdown

instance : Flagged Step where
  unflagged s := { s with accepted := none }
  raised s := s.accepted = some true

namespace Automaton

/-- Continues a run like `walk`, and tells how many looks there were by its end. -/
def walkCounted (a : Automaton) (input : Text) (cancel : Cancellation) :
    Nat → Nat → Configuration → Option Transition → Run Step × Nat
  | left, fired, c, via =>
    let here := c.record input fired via
    if cancel.raisedAt fired then (.stop (here (some false)) false .cancelled, fired + 1)
    else
      match a.choose? input c with
      | none =>
        let verdict := a.isAccepting input c
        (.stop (here (some verdict)) verdict (.ofVerdict verdict), fired + 1)
      | some t =>
        match left with
        | 0 => (.stop (here (some false)) false .budgetExhausted, fired + 1)
        | more + 1 =>
          let r := walkCounted a input cancel more (fired + 1) (c.fire t) (some t)
          (r.1.cons (here none), r.2)

variable (a : Automaton) (input : Text)

theorem fst_walkCounted (cancel : Cancellation) (left fired : Nat) (c : Configuration)
    (via : Option Transition) :
    (a.walkCounted input cancel left fired c via).1 = a.walk input cancel left fired c via := by
  induction left generalizing fired c via with
  | zero =>
      rw [walkCounted, walk]
      by_cases hcancel : cancel.raisedAt fired
      · simp only [hcancel, if_true]
      · simp only [hcancel, Bool.false_eq_true, if_false]
        cases a.choose? input c <;> rfl
  | succ more ih =>
      rw [walkCounted, walk]
      by_cases hcancel : cancel.raisedAt fired
      · simp only [hcancel, if_true]
      · simp only [hcancel, Bool.false_eq_true, if_false]
        cases a.choose? input c with
        | none => rfl
        | some t => exact congrArg (Run.cons _) (ih ..)

/-- A run looks at least once more. -/
theorem lt_snd_walkCounted (cancel : Cancellation) (left fired : Nat) (c : Configuration)
    (via : Option Transition) : fired < (a.walkCounted input cancel left fired c via).2 := by
  induction left generalizing fired c via with
  | zero =>
      rw [walkCounted]
      by_cases hcancel : cancel.raisedAt fired
      · simp only [hcancel, if_true, Nat.lt_succ_self]
      · simp only [hcancel, Bool.false_eq_true, if_false]
        cases a.choose? input c <;> exact Nat.lt_succ_self fired
  | succ more ih =>
      rw [walkCounted]
      by_cases hcancel : cancel.raisedAt fired
      · simp only [hcancel, if_true, Nat.lt_succ_self]
      · simp only [hcancel, Bool.false_eq_true, if_false]
        cases a.choose? input c with
        | none => exact Nat.lt_succ_self fired
        | some t => exact Nat.lt_of_succ_lt (ih ..)

/-- The first step of a run is a record of where it stands. -/
theorem exists_steps_walk (cancel : Cancellation) (left fired : Nat) (c : Configuration)
    (via : Option Transition) :
    ∃ verdict rest, (a.walk input cancel left fired c via).steps =
      c.record input fired via verdict :: rest := by
  rw [walk.eq_def]
  by_cases hcancel : cancel.raisedAt fired
  · exact ⟨some false, [], by simp only [hcancel, if_true, Run.steps_stop]⟩
  · simp only [hcancel, Bool.false_eq_true, if_false]
    cases a.choose? input c with
    | none => exact ⟨_, [], rfl⟩
    | some t =>
        cases left with
        | zero => exact ⟨_, [], rfl⟩
        | succ more => exact ⟨none, _, rfl⟩

/-- A run that is cancelled where it stands is cut there. -/
theorem cancels_walk_here (left fired : Nat) (c : Configuration) (via : Option Transition) :
    Run.Cancels fired fired (a.walk input (.after fired) left fired c via)
      (a.walkCounted input .never left fired c via) := by
  obtain ⟨verdict, rest, hsteps⟩ := a.exists_steps_walk input .never left fired c via
  rw [← fst_walkCounted] at hsteps
  have hstop : a.walk input (.after fired) left fired c via =
      .stop (c.record input fired via (some false)) false .cancelled := by
    rw [walk.eq_def]
    simp only [Cancellation.raisedAt_after_self, if_true]
  rw [hstop]
  exact Run.cancels_stop hsteps (a.lt_snd_walkCounted input .never left fired c via) rfl rfl

/-- **A cancelled run** is the beginning of the run that goes on, from wherever both are. -/
theorem cancels_walk {n : Nat} (left fired : Nat) (c : Configuration)
    (via : Option Transition) (hfired : fired ≤ n) :
    Run.Cancels fired n (a.walk input (.after n) left fired c via)
      (a.walkCounted input .never left fired c via) := by
  induction left generalizing fired c via with
  | zero =>
      obtain hlt | rfl := Nat.lt_or_eq_of_le hfired
      · rw [walkCounted, walk]
        simp only [Cancellation.raisedAt_never, Cancellation.raisedAt_after_of_lt hlt,
          Bool.false_eq_true, if_false]
        cases a.choose? input c <;> exact Run.cancels_last hlt _
      · exact a.cancels_walk_here input 0 fired c via
  | succ more ih =>
      obtain hlt | rfl := Nat.lt_or_eq_of_le hfired
      · rw [walkCounted, walk]
        simp only [Cancellation.raisedAt_never, Cancellation.raisedAt_after_of_lt hlt,
          Bool.false_eq_true, if_false]
        cases a.choose? input c with
        | none => exact Run.cancels_last hlt _
        | some t => exact (ih _ _ _ hlt).cons hlt rfl
      · exact a.cancels_walk_here input (more + 1) fired c via

/-- **A run with a smaller limit** is the run with the larger one or its beginning, from
wherever both are. -/
theorem cuts_walk {left left' : Nat} (h : left ≤ left') (fired : Nat) (c : Configuration)
    (via : Option Transition) :
    a.walk input .never left fired c via = a.walk input .never left' fired c via ∨
      Run.Cuts left .budgetExhausted (a.walk input .never left fired c via)
        (a.walk input .never left' fired c via) := by
  induction left generalizing left' fired c via with
  | zero =>
      obtain ⟨verdict, rest, hsteps⟩ := a.exists_steps_walk input .never left' fired c via
      cases ht : a.choose? input c with
      | none => exact .inl (by rw [walk.eq_def, walk.eq_def a input .never left']; simp [ht])
      | some t =>
          have hstop : a.walk input .never 0 fired c via =
              .stop (c.record input fired via (some false)) false .budgetExhausted := by
            simp [walk, ht]
          rw [hstop]
          exact .inr (Run.cuts_stop hsteps rfl rfl)
  | succ more ih =>
      obtain ⟨more', rfl⟩ : ∃ more', left' = more' + 1 := ⟨left' - 1, by omega⟩
      rw [walk, walk]
      simp only [Cancellation.raisedAt_never, Bool.false_eq_true, if_false]
      cases a.choose? input c with
      | none => exact .inl rfl
      | some t =>
          obtain hsame | hcuts :=
            ih (Nat.le_of_succ_le_succ h) (fired + 1) (c.fire t) (some t)
          · exact .inl (congrArg (Run.cons _) hsame)
          · exact .inr (hcuts.cons rfl)

/-- How often a run that is not cancelled looks whether it is. -/
def looks (budget : Budget) : Nat :=
  (a.walkCounted input .never (stepLimit budget) 0 a.initial none).2

/-- A run that is cancelled after some looks, from its start. -/
theorem cancels_runFirstMatch (budget : Budget) (n : Nat) :
    Run.Cancels 0 n (a.runFirstMatch input budget (.after n))
      (a.runFirstMatch input budget .never, a.looks input budget) := by
  have h := a.cancels_walk input (stepLimit budget) 0 a.initial none (Nat.zero_le n)
  rw [runFirstMatch, runFirstMatch, ← a.fst_walkCounted input .never]
  exact h

end Automaton

end FormalMachines.Pushdown
