import FormalMachines.Run.Cancellation
import FormalMachines.Run.Outcome

/-!
# FormalMachines.Proofs.Run.Cut

Runs that are stopped early.

A run that is *cut* has the steps of the run that is not, up to the one at which it is
stopped; only the flags of that one may differ, and none of them is up (`Run.Cuts`).  A run
that is cancelled after some looks is either the one that is not, if that looks no more
often, or cut at the look at which it is cancelled (`Run.Cancels`).

Both are kept by one more step in front (`Cuts.cons`, `Cancels.cons`), which is what the
recursion of a run needs.
-/

namespace FormalMachines

/-- Steps with flags that tell a verdict. -/
class Flagged (σ : Type) where
  /-- The step without its flags. -/
  unflagged : σ → σ
  /-- Whether a flag of the step is up. -/
  raised : σ → Bool

namespace Cancellation

theorem raisedAt_after_of_lt {n k : Nat} (h : k < n) : (after n).raisedAt k = false := by
  simpa [raisedAt] using h

@[simp] theorem raisedAt_after_self (n : Nat) : (after n).raisedAt n = true := by
  simp [raisedAt]

end Cancellation

namespace Run

variable {σ : Type}

@[simp] theorem steps_stop (s : σ) (accepts : Bool) (outcome : Outcome) :
    (stop s accepts outcome).steps = [s] := rfl

@[simp] theorem steps_cons (s : σ) (r : Run σ) : (r.cons s).steps = s :: r.steps := rfl

variable [Flagged σ] {outcome : Outcome} {moves done n : Nat} {short long : Run σ} {s t : σ}

/-- Whether a run is another one, cut after so many moves. -/
structure Cuts (moves : Nat) (outcome : Outcome) (short long : Run σ) : Prop where
  outcome : short.outcome = outcome
  accepts : short.accepts = false
  length : short.steps.length = moves + 1
  early : short.steps.take moves = long.steps.take moves
  unflagged : short.steps.map Flagged.unflagged =
    (long.steps.take (moves + 1)).map Flagged.unflagged
  lowered : ∀ s ∈ short.steps, Flagged.raised s = false

/-- A run that is stopped at its first step is cut. -/
theorem cuts_stop {rest : List σ} (hlong : long.steps = t :: rest)
    (hsame : Flagged.unflagged s = Flagged.unflagged t) (hlowered : Flagged.raised s = false) :
    Cuts 0 outcome (stop s false outcome) long where
  outcome := rfl
  accepts := rfl
  length := rfl
  early := rfl
  unflagged := by simp [hlong, hsame]
  lowered := by simpa using hlowered

/-- One more step in front of both. -/
theorem Cuts.cons (h : Cuts moves outcome short long) (hlowered : Flagged.raised s = false) :
    Cuts (moves + 1) outcome (short.cons s) (long.cons s) where
  outcome := h.outcome
  accepts := h.accepts
  length := by simp [h.length]
  early := by simp [h.early]
  unflagged := by simp [h.unflagged]
  lowered := by simpa using ⟨hlowered, h.lowered⟩

/-- Whether a run that is cancelled at the look with `n` before it goes as it should, where
`done` looks are past: `full` is the run that is not cancelled, with the number of looks by
its end. -/
structure Cancels (done n : Nat) (run : Run σ) (full : Run σ × Nat) : Prop where
  same : full.2 ≤ n → run = full.1
  cut : n < full.2 → Cuts (n - done) .cancelled run full.1

/-- A run that ends before it looks again is not changed. -/
theorem cancels_end (hdone : done ≤ n) (run : Run σ) : Cancels done n run (run, done) where
  same _ := rfl
  cut h := absurd hdone (Nat.not_le.2 h)

/-- A run that looks once more and ends without being cancelled is not changed. -/
theorem cancels_last (hdone : done < n) (run : Run σ) : Cancels done n run (run, done + 1) where
  same _ := rfl
  cut h := absurd hdone (Nat.not_lt.2 (Nat.le_of_lt_succ h))

/-- A run that is cancelled at its first step is cut there. -/
theorem cancels_stop {full : Run σ × Nat} {rest : List σ} (hfull : full.1.steps = t :: rest)
    (hlooks : n < full.2) (hsame : Flagged.unflagged s = Flagged.unflagged t)
    (hlowered : Flagged.raised s = false) : Cancels n n (stop s false .cancelled) full where
  same h := absurd hlooks (Nat.not_lt.2 h)
  cut _ := by
    rw [Nat.sub_self]
    exact cuts_stop hfull hsame hlowered

/-- One more step in front of both, after one look more. -/
theorem Cancels.cons {run : Run σ} {full : Run σ × Nat} (h : Cancels (done + 1) n run full)
    (hdone : done < n) (hlowered : Flagged.raised s = false) :
    Cancels done n (run.cons s) (full.1.cons s, full.2) where
  same hle := by rw [h.same hle]
  cut hlt := by
    have hmoves : n - done = n - (done + 1) + 1 := by omega
    rw [hmoves]
    exact (h.cut hlt).cons hlowered

end Run

end FormalMachines
