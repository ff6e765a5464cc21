import FormalMachines.Proofs.Finite.Cut
import FormalMachines.Proofs.Pushdown.Cut
import FormalMachines.Proofs.Turing.Cut
import FormalMachines.Pushdown.Report

/-!
# FormalMachines.Proofs.Run.Early

Stopping a run early only truncates it, whichever machine it is a run of: main result
`stopping_truncates`.
-/

namespace FormalMachines.Run

/-- **Stopping a run early only truncates it.**  A run with a smaller step limit is the run
with the larger one, or it is cut where its limit is reached.  A run that is cancelled
after some looks is the run that is not cancelled, if that one looks no more often, and
else it is cut at the look at which it is cancelled. -/
theorem stopping_truncates :
    (∀ (a : Pushdown.Automaton) (input : Text) (small large : Budget),
      Pushdown.stepLimit small ≤ Pushdown.stepLimit large →
        a.runIn .firstMatch input small .never = a.runIn .firstMatch input large .never ∨
          Cuts (Pushdown.stepLimit small) .budgetExhausted
            (a.runIn .firstMatch input small .never).run
            (a.runIn .firstMatch input large .never).run) ∧
    (∀ (m : Turing.Machine) (input : Text) (small large : Budget),
      Turing.stepLimit small ≤ Turing.stepLimit large →
        m.run input small .never = m.run input large .never ∨
          Cuts (Turing.stepLimit small) .budgetExhausted
            (m.run input small .never) (m.run input large .never)) ∧
    (∀ (a : Finite.Automaton) (input : Text) (n : Nat),
      Cancels 0 n (a.runDfa input (.after n)).run
        ((a.runDfa input .never).run, a.looks a.firstMove input)) ∧
    (∀ (a : Finite.Automaton) (mode : Finite.EpsilonMode) (input : Text) (n : Nat),
      Cancels 0 n (a.runNfa mode input (.after n)).run
        ((a.runNfa mode input .never).run, a.looks (a.allMoves mode) input)) ∧
    (∀ (a : Pushdown.Automaton) (input : Text) (budget : Budget) (n : Nat),
      Cancels 0 n (a.runIn .firstMatch input budget (.after n)).run
        ((a.runIn .firstMatch input budget .never).run, a.looks input budget)) ∧
    ∀ (m : Turing.Machine) (input : Text) (budget : Budget) (n : Nat),
      Cancels 0 n (m.run input budget (.after n))
        (m.run input budget .never, m.looks input budget) := by
  refine ⟨fun a input small large h => ?_, fun m input small large h => ?_,
    fun a input n => a.cancels_run a.firstMove input n,
    fun a mode input n => a.cancels_run (a.allMoves mode) input n,
    fun a input budget n => a.cancels_runFirstMatch input budget n,
    fun m input budget n => m.cancels_run input budget n⟩
  · obtain hsame | hcuts := a.cuts_walk input h 0 a.initial none
    · exact .inl (congrArg (Pushdown.Result.mk .firstMatch) hsame)
    · exact .inr hcuts
  · exact m.cuts_walk h 0 (m.initial input) none

/-- A machine that walks over one `a` to the right and accepts at the blank behind it. -/
def stroller : Turing.Machine where
  states := [.text "go", .text "yes", .text "no"]
  alphabet := [.text "a"]
  tapeAlphabet := [.text "a", .text "_"]
  transitions := [⟨"go", "a", "a", .right, "go"⟩, ⟨"go", "_", "_", .right, "yes"⟩]
  start := "go"
  accept := "yes"
  reject := "no"
  blank := "_"

theorem stopping_truncates_stroller :
    Turing.stepLimit { steps := some 1 } ≤ Turing.stepLimit { steps := some 2 } ∧
      (stroller.run "a" { steps := some 2 } .never).outcome = .accepted ∧
      Cuts 1 .budgetExhausted (stroller.run "a" { steps := some 1 } .never)
        (stroller.run "a" { steps := some 2 } .never) ∧
      stroller.looks "a" { steps := some 2 } = 2 ∧
      Cuts 1 .cancelled (stroller.run "a" { steps := some 2 } (.after 1))
        (stroller.run "a" { steps := some 2 } .never) ∧
      stroller.run "a" { steps := some 2 } (.after 2) =
        stroller.run "a" { steps := some 2 } .never := by
  have hlimits : Turing.stepLimit { steps := some 1 } ≤ Turing.stepLimit { steps := some 2 } := by
    decide
  have hlooks : stroller.looks "a" { steps := some 2 } = 2 := by decide +kernel
  obtain ⟨-, hbudgets, -, -, -, hcancels⟩ := stopping_truncates
  have hdiffer : stroller.run "a" { steps := some 1 } .never ≠
      stroller.run "a" { steps := some 2 } .never := by decide +kernel
  have hcut := (hcancels stroller "a" { steps := some 2 } 1).cut (by simp [hlooks])
  have hsame := (hcancels stroller "a" { steps := some 2 } 2).same (by simp [hlooks])
  exact ⟨hlimits, by decide +kernel,
    (hbudgets stroller "a" { steps := some 1 } { steps := some 2 } hlimits).resolve_left hdiffer,
    hlooks, hcut, hsame⟩

end FormalMachines.Run
