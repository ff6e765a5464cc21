import FormalMachines.Pushdown.Basic

/-!
# FormalMachines.Pushdown.Reach

Runs of a pushdown automaton as sequences of moves, whichever of them is chosen.

A sequence of moves is a run if each leaves the configuration that those before it lead
to (`Automaton.Runs`).  A run has one end (`eq_of_runs`), and runs follow one another
(`runs_append_iff`).
-/

namespace FormalMachines.Pushdown

/-- Whether moves lead, one after the other, from one configuration to another. -/
inductive Automaton.Runs (a : Automaton) (input : Text) :
    Configuration → List Transition → Configuration → Prop where
  | nil (c : Configuration) : a.Runs input c [] c
  | cons {c d : Configuration} {t : Transition} {moves : List Transition}
      (mem : t ∈ a.transitions) (allowed : c.allows input t)
      (rest : a.Runs input (c.fire t) moves d) : a.Runs input c (t :: moves) d

namespace Automaton

variable {a : Automaton} {input : Text} {c d : Configuration} {moves : List Transition}

theorem runs_nil_iff : a.Runs input c [] d ↔ c = d :=
  ⟨fun h => by cases h; rfl, fun h => h ▸ .nil c⟩

theorem runs_cons_iff {t : Transition} :
    a.Runs input c (t :: moves) d ↔
      t ∈ a.transitions ∧ c.allows input t ∧ a.Runs input (c.fire t) moves d :=
  ⟨fun h => by cases h with | cons mem allowed rest => exact ⟨mem, allowed, rest⟩,
   fun h => .cons h.1 h.2.1 h.2.2⟩

theorem runs_append_iff {more : List Transition} :
    a.Runs input c (moves ++ more) d ↔
      ∃ e, a.Runs input c moves e ∧ a.Runs input e more d := by
  induction moves generalizing c with
  | nil => simp [runs_nil_iff]
  | cons t moves ih => simp [runs_cons_iff, ih, and_assoc]

/-- The moves of a run fix its end. -/
theorem eq_of_runs (h : a.Runs input c moves d) :
    d = moves.foldl Configuration.fire c := by
  induction h with
  | nil => rfl
  | cons _ _ _ ih => exact ih

/-- Whether so many moves can lead from the start to a configuration. -/
def Reaches (a : Automaton) (input : Text) (count : Nat) (c : Configuration) : Prop :=
  ∃ moves, a.Runs input a.initial moves c ∧ moves.length = count

/-- Whether so many moves can lead to an accepting configuration. -/
def AcceptsWithin (a : Automaton) (input : Text) (count : Nat) : Prop :=
  ∃ c n, n ≤ count ∧ a.Reaches input n c ∧ a.isAccepting input c

end Automaton

end FormalMachines.Pushdown
