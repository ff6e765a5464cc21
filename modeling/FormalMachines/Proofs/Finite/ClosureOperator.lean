import FormalMachines.Proofs.Finite.Nondeterministic

/-!
# FormalMachines.Proofs.Finite.ClosureOperator

The closure under `ε`-moves as an operator on lists of states.

A path reads nothing exactly if all its moves are labelled `ε` (`reads_closure_nil_iff`), so
the closure of some states holds the ends of such paths (`mem_epsilonClosure_iff_path`).  The
closure is closed under `ε`-moves, which is why it is its own closure
(`epsilonClosure_idem`), and the closure of two lists of states together holds what the
closures of the two hold (`mem_epsilonClosure_append_iff`).  A stack of states whose moves are
still to be looked at, with the targets noted one by one, runs empty when the closure is
found (`ends_epsilonClosure`).
-/

namespace FormalMachines.Finite

/-- A path that reads nothing goes along `ε`-moves only. -/
theorem reads_closure_nil_iff {path : List Transition} :
    Reads .closure path [] ↔ ∀ t ∈ path, t.isEpsilon := by
  constructor
  · intro h
    induction path with
    | nil => exact fun t ht => absurd ht List.not_mem_nil
    | cons t path ih =>
        cases h with
        | silent _ label rest => exact List.forall_mem_cons.2 ⟨label, ih rest⟩
  · intro h
    induction path with
    | nil => exact .nil
    | cons t path ih =>
        obtain ⟨label, rest⟩ := List.forall_mem_cons.1 h
        exact .silent rfl label (ih rest)

namespace Automaton

variable {a : Automaton} {states others : List Text} {p q : Text}

/-- The closure holds the ends of the paths of `ε`-moves from the given states. -/
theorem mem_epsilonClosure_iff_path : q ∈ a.epsilonClosure states ↔
    ∃ p ∈ states, ∃ path, a.Path p path q ∧ ∀ t ∈ path, t.isEpsilon := by
  have hclose : q ∈ a.close .closure states ↔ ∃ p ∈ states, a.Reaches .closure p [] q :=
    mem_close_iff
  simp only [Reaches, reads_closure_nil_iff] at hclose
  exact hclose

/-- The closure starts with the given states, each where it first occurs. -/
theorem prefix_epsilonClosure (a : Automaton) (states : List Text) :
    states.eraseDups <+: a.epsilonClosure states := by
  have h := Worklist.prefix_explore .lastFirst a.epsilonTargets
    (states.length + a.transitions.length) states
  rw [Distinct.eraseDups_texts] at h
  exact h

/-- The search with a stack ends with the closure. -/
theorem ends_epsilonClosure (a : Automaton) (states : List Text) :
    Worklist.Ends .lastFirst a.epsilonTargets states.eraseDups states.eraseDups.reverse
      (a.epsilonClosure states) := by
  have h := Worklist.ends_explore .lastFirst (a.bounds_epsilonClosure states)
  rw [Distinct.eraseDups_texts, Worklist.Discipline.enqueue, List.append_nil] at h
  exact h

/-- No `ε`-move leaves the closure. -/
theorem mem_epsilonClosure_of_mem_epsilonTargets (hp : p ∈ a.epsilonClosure states)
    (hq : q ∈ a.epsilonTargets p) : q ∈ a.epsilonClosure states :=
  Worklist.next_mem_explore (a.bounds_epsilonClosure states) hp hq

/-- The closure is its own closure, in the same order. -/
theorem epsilonClosure_idem (a : Automaton) (states : List Text) :
    a.epsilonClosure (a.epsilonClosure states) = a.epsilonClosure states :=
  Worklist.explore_of_closed .lastFirst _ (a.nodup_epsilonClosure states)
    fun _ hp _ hq => mem_epsilonClosure_of_mem_epsilonTargets hp hq

/-- The closure of two lists together holds what either closure holds. -/
theorem mem_epsilonClosure_append_iff : q ∈ a.epsilonClosure (states ++ others) ↔
    q ∈ a.epsilonClosure states ∨ q ∈ a.epsilonClosure others := by
  simp only [mem_epsilonClosure_iff, Worklist.Reached, List.mem_append, or_and_right, exists_or]

/-- **The closure under `ε`-moves**, for any list of states, declared or not.  The search with
a stack ends with it.  It starts with the given states, each where it first occurs, and
holds, without repetition, exactly the states that paths of `ε`-moves lead to from them.
It is its own closure, and the closure of two lists together is the union of theirs. -/
theorem epsilonClosure_exact (a : Automaton) (states : List Text) :
    Worklist.Ends .lastFirst a.epsilonTargets states.eraseDups states.eraseDups.reverse
      (a.epsilonClosure states) ∧
    states.eraseDups <+: a.epsilonClosure states ∧
    (a.epsilonClosure states).Nodup ∧
    (∀ q, q ∈ a.epsilonClosure states ↔
      ∃ p ∈ states, ∃ path, a.Path p path q ∧ ∀ t ∈ path, t.isEpsilon) ∧
    a.epsilonClosure (a.epsilonClosure states) = a.epsilonClosure states ∧
    ∀ others q, q ∈ a.epsilonClosure (states ++ others) ↔
      q ∈ a.epsilonClosure states ∨ q ∈ a.epsilonClosure others := by
  refine ⟨a.ends_epsilonClosure states, a.prefix_epsilonClosure states,
    a.nodup_epsilonClosure states, ?_, a.epsilonClosure_idem states, ?_⟩
  · exact fun q => mem_epsilonClosure_iff_path
  · exact fun others q => mem_epsilonClosure_append_iff

/-- A fork of two `ε`-moves, whose second way leads back to the first state by way of a third. -/
def fork : Automaton where
  states := [⟨"p", true, false⟩, ⟨"q", false, false⟩, ⟨"r", false, false⟩, ⟨"s", false, true⟩]
  alphabet := [.text "a"]
  transitions := [⟨"p", "q", .text epsilon⟩, ⟨"p", "r", .text epsilon⟩, ⟨"q", "s", .text "a"⟩,
    ⟨"r", "s", .text epsilon⟩, ⟨"s", "p", .text epsilon⟩]
  start := "p"
  accepting := ["s"]

/-- From the fork, given twice, and a state that is not declared. -/
example : fork.epsilonClosure ["p", "z", "p"] = ["p", "z", "q", "r", "s"] := by decide +kernel

end Automaton

end FormalMachines.Finite
