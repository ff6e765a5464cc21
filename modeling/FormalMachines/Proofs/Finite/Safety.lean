import FormalMachines.Proofs.Finite.Closure
import FormalMachines.Proofs.Finite.Document
import FormalMachines.Proofs.Run.Cut
import FormalMachines.Finite.Run

/-!
# FormalMachines.Proofs.Finite.Safety

The runs of a valid finite automaton stay within its states.

A run goes from declared states by moves of the automaton, which lead to declared states,
and closures add the targets of moves only (`Stepper.Within`, `within_walk`).  A run of a
named kind gives a result (`exists_simulate`), and the closures that it forms end before
the bound on their search does (`epsilonClosure?_eq_some`).
-/

namespace FormalMachines.Finite

/-- Whether a value names a kind of run, in any case of letters, or none. -/
def Mode.Named (mode : Json) : Prop :=
  mode = .null ∨ ∃ s, mode = .text s ∧ (Text.lower s = Mode.dfa.name ∨ Text.lower s = Mode.nfa.name)

/-- Whether a value names a reading of `ε`. -/
def EpsilonMode.Named (mode : Json) : Prop := mode = .text "literal" ∨ mode = .text "closure"

/-- Whether a step is in states of an automaton and was reached by its moves. -/
structure Step.Within (a : Automaton) (s : Step) : Prop where
  states : ∀ q ∈ s.states, q ∈ a.names
  fired : ∀ t ∈ s.fired, t ∈ a.transitions

/-- The states that a step names. -/
def Step.named (s : Step) : List Text := s.states ++ s.fired.flatMap fun t => [t.source, t.target]

theorem Step.Within.named {a : Automaton} {s : Step} (h : s.Within a) (ha : a.Valid) :
    ∀ q ∈ s.named, q ∈ a.names := by
  intro q hq
  obtain hq | hq := List.mem_append.1 hq
  · exact h.states q hq
  · exact forall_mem_ends (fun t ht => ha.2.2.2 t (h.fired t ht)) q hq

/-- Whether a stepper stays within an automaton. -/
structure Stepper.Within (a : Automaton) (m : Stepper) : Prop where
  start : ∀ q ∈ m.start, q ∈ a.names
  fire : ∀ states c, ∀ t ∈ m.fire states c, t ∈ a.transitions
  land : ∀ fired, (∀ t ∈ fired, t ∈ a.transitions) → ∀ q ∈ m.land fired, q ∈ a.names

namespace Automaton

variable {a : Automaton}

/-! ## Steppers -/

theorem target_mem_names (ha : a.Valid) {fired : List Transition}
    (h : ∀ t ∈ fired, t ∈ a.transitions) : ∀ q ∈ fired.map (·.target), q ∈ a.names := by
  intro q hq
  obtain ⟨t, ht, rfl⟩ := List.mem_map.1 hq
  exact (ha.2.2.2 t (h t ht)).2

theorem close_mem_names (ha : a.Valid) (mode : EpsilonMode) {states : List Text}
    (h : ∀ q ∈ states, q ∈ a.names) : ∀ q ∈ a.close mode states, q ∈ a.names := by
  intro q hq
  obtain hq | hq := mem_or_mem_targets_of_mem_close hq
  · exact h q hq
  · exact target_mem_names ha (fun _ ht => ht) q hq

theorem mem_transitions_of_mem_movesFrom {states : List Text} {c : CodePoint} {t : Transition}
    (h : t ∈ a.movesFrom states c) : t ∈ a.transitions := by
  obtain ⟨q, -, ht⟩ := List.mem_flatMap.1 h
  exact (mem_moves.1 ht).1

theorem within_firstMove (ha : a.Valid) : a.firstMove.Within a where
  start _ hq := List.mem_singleton.1 hq ▸ ha.2.1
  fire _ _ _ ht := mem_transitions_of_mem_movesFrom (List.mem_of_mem_take ht)
  land _ h := target_mem_names ha h

theorem within_allMoves (ha : a.Valid) (mode : EpsilonMode) : (a.allMoves mode).Within a where
  start := close_mem_names ha mode fun _ hq => List.mem_singleton.1 hq ▸ ha.2.1
  fire _ _ _ ht := mem_transitions_of_mem_movesFrom ht
  land _ h := close_mem_names ha mode fun q hq => target_mem_names ha h q (List.mem_eraseDups.1 hq)

/-! ## Runs -/

/-- **A run within an automaton** stays there. -/
theorem within_walk {m : Stepper} (hm : m.Within a) (cancel : Cancellation) {states : List Text}
    (hstates : ∀ q ∈ states, q ∈ a.names) (consumed : Text) {via : List Transition}
    (hvia : ∀ t ∈ via, t ∈ a.transitions) (looks : Nat) (rest : Text) :
    ∀ s ∈ (a.walk m cancel states consumed via looks rest).steps, s.Within a := by
  fun_induction walk a m cancel states consumed via looks rest with
  | case1 | case2 =>
    intro s hs
    rw [Run.steps_stop, List.mem_singleton] at hs
    exact hs ▸ ⟨hstates, hvia⟩
  | case3 =>
    intro s hs
    simp only [Run.steps_cons, Run.steps_stop, List.mem_cons, List.not_mem_nil, or_false] at hs
    obtain rfl | rfl := hs
    · exact ⟨hstates, hvia⟩
    · exact ⟨hstates, fun t ht => absurd ht List.not_mem_nil⟩
  | case4 states consumed via looks c rest here hcancel fired q more hland ih =>
    have hfired : ∀ t ∈ fired, t ∈ a.transitions := hm.fire states c
    have hnext : ∀ p ∈ q :: more, p ∈ a.names := hland ▸ hm.land fired hfired
    intro s hs
    obtain rfl | hs := List.mem_cons.1 hs
    · exact ⟨hstates, hvia⟩
    · exact ih hnext hfired s hs

theorem within_run {m : Stepper} (hm : m.Within a) (input : Text) (cancel : Cancellation) :
    ∀ s ∈ (a.run m input cancel).steps, s.Within a :=
  within_walk hm cancel hm.start [] (fun _ ht => absurd ht List.not_mem_nil) 0 input

/-! ## Runs of a named kind -/

/-- The closure as a search that fails where its bound runs out. -/
def epsilonClosure? (a : Automaton) (states : List Text) : Option (List Text) :=
  Worklist.explore? .lastFirst a.epsilonTargets (states.length + a.transitions.length) states

/-- **The closure** ends before the bound on its search. -/
theorem epsilonClosure?_eq_some (a : Automaton) (states : List Text) :
    a.epsilonClosure? states = some (a.epsilonClosure states) :=
  Worklist.explore?_eq_some .lastFirst (bounds_epsilonClosure a states)

theorem exists_chooseMode {mode : Json} (h : Mode.Named mode) (a : Automaton) :
    ∃ m, a.chooseMode mode = .ok m := by
  obtain rfl | ⟨s, rfl, hs⟩ := h
  · exact ⟨_, rfl⟩
  · by_cases hdfa : Text.lower s = Mode.dfa.name
    · exact ⟨.dfa, if_pos hdfa⟩
    · exact ⟨.nfa, (if_neg hdfa).trans (if_pos (hs.resolve_left hdfa))⟩

theorem exists_epsilonMode {mode : Json} (h : EpsilonMode.Named mode) :
    ∃ m, EpsilonMode.ofJson mode = .ok m := by
  obtain rfl | rfl := h
  · exact ⟨.literal, rfl⟩
  · exact ⟨.closure, rfl⟩

/-- **A run of a named kind** gives a result, every step of which is within the automaton. -/
theorem exists_simulate (ha : a.Valid) {mode epsilonMode : Json} (hmode : Mode.Named mode)
    (hepsilon : EpsilonMode.Named epsilonMode) (input : Text) (cancel : Cancellation) :
    ∃ r, a.simulate mode epsilonMode input cancel = .ok r ∧ ∀ s ∈ r.run.steps, s.Within a := by
  obtain ⟨m, hm⟩ := exists_chooseMode hmode a
  obtain ⟨e, he⟩ := exists_epsilonMode hepsilon
  cases m with
  | dfa =>
      refine ⟨a.runDfa input cancel, ?_, within_run (within_firstMove ha) input cancel⟩
      rw [simulate, hm]
      rfl
  | nfa =>
      refine ⟨a.runNfa e input cancel, ?_, within_run (within_allMoves ha e) input cancel⟩
      rw [simulate, hm]
      simp only [simulateNfa, he]
      rfl

end Automaton

end FormalMachines.Finite
