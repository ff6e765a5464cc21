import FormalMachines.Finite.Closure
import FormalMachines.Proofs.Worklist

/-!
# FormalMachines.Proofs.Finite.Closure

The closure under `ε`-moves as a set.

The closure holds the given states and all that `ε`-moves reach from them
(`mem_epsilonClosure_iff`), so as a set it depends on the given states as a set alone
(`mem_close_congr`), and it is empty only if they are (`close_eq_nil_iff`).
-/

namespace FormalMachines.Finite.Automaton

variable {a : Automaton} {mode : EpsilonMode} {states : List Text} {q : Text}

/-- The target of an `ε`-move is the target of a move. -/
theorem mem_targets_of_mem_epsilonTargets {p : Text} (h : q ∈ a.epsilonTargets p) :
    q ∈ a.transitions.map (·.target) := by
  obtain ⟨t, ht, htarget⟩ := List.mem_map.1 h
  exact List.mem_map.2 ⟨t, (mem_moves.1 ht).1, htarget⟩

/-- `ε`-moves reach a given state or the target of a move. -/
theorem mem_or_mem_targets_of_reached (h : Worklist.Reached a.epsilonTargets states q) :
    q ∈ states ∨ q ∈ a.transitions.map (·.target) := by
  apply h.induct
  · exact fun s hs => .inl hs
  · exact fun _ _ _ hy => .inr (mem_targets_of_mem_epsilonTargets hy)

/-- The search for the closure has room for all that `ε`-moves can reach. -/
theorem bounds_epsilonClosure (a : Automaton) (states : List Text) :
    Worklist.Bounds (Worklist.Reached a.epsilonTargets states)
      (states.length + a.transitions.length) := by
  have h := Worklist.bounds_mem (states ++ a.transitions.map (·.target))
  rw [List.length_append, List.length_map] at h
  exact h.mono fun q hq => List.mem_append.2 (mem_or_mem_targets_of_reached hq)

theorem nodup_epsilonClosure (a : Automaton) (states : List Text) :
    (a.epsilonClosure states).Nodup :=
  Worklist.nodup_explore .lastFirst (bounds_epsilonClosure a states)

/-- **The closure** holds what `ε`-moves reach from the given states. -/
theorem mem_epsilonClosure_iff :
    q ∈ a.epsilonClosure states ↔ Worklist.Reached a.epsilonTargets states q :=
  Worklist.mem_explore_iff (bounds_epsilonClosure a states)

/-- A state of a closed set is a given one or the target of a move. -/
theorem mem_or_mem_targets_of_mem_close (h : q ∈ a.close mode states) :
    q ∈ states ∨ q ∈ a.transitions.map (·.target) := by
  cases mode with
  | literal => exact .inl h
  | closure => exact mem_or_mem_targets_of_reached (mem_epsilonClosure_iff.1 h)

theorem mem_close_of_mem (h : q ∈ states) : q ∈ a.close mode states := by
  cases mode with
  | literal => exact h
  | closure => exact mem_epsilonClosure_iff.2 (Worklist.reached_of_mem h)

/-- The closed set of some states is that of any other list of them. -/
theorem mem_close_congr {others : List Text} (h : ∀ p, p ∈ states ↔ p ∈ others) :
    q ∈ a.close mode states ↔ q ∈ a.close mode others := by
  cases mode with
  | literal => exact h q
  | closure =>
      show q ∈ a.epsilonClosure states ↔ q ∈ a.epsilonClosure others
      simp only [mem_epsilonClosure_iff, Worklist.Reached, h]

/-- Only the empty set of states has an empty closure. -/
theorem close_eq_nil_iff : a.close mode states = [] ↔ states = [] := by
  constructor
  · intro h
    apply List.eq_nil_iff_forall_not_mem.2
    intro p hp
    have hclose : p ∈ a.close mode states := mem_close_of_mem hp
    rw [h] at hclose
    exact List.not_mem_nil hclose
  · intro h
    apply List.eq_nil_iff_forall_not_mem.2
    intro p hp
    subst h
    cases mode with
    | literal => exact List.not_mem_nil hp
    | closure =>
        obtain ⟨s, hs, _⟩ := mem_epsilonClosure_iff.1 hp
        exact List.not_mem_nil hs

end FormalMachines.Finite.Automaton
