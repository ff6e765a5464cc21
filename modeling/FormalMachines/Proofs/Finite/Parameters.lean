import FormalMachines.Proofs.Finite.Safety

/-!
# FormalMachines.Proofs.Finite.Parameters

Which parameters of a run of a finite automaton are reported.

A run is given its kind, or none where the shape of the automaton decides, and a reading of
`ε`.  The kind is looked at first, and always (`chooseMode_eq_ok_iff`,
`chooseMode_eq_error`).  The reading is looked at by the nondeterministic kind only
(`simulateNfa_eq_error`), so whether a reading that is none goes unnoticed depends on the
kind (`simulate_reports`).
-/

namespace FormalMachines.Finite

/-- What is reported of a value that names no kind of run. -/
def Mode.complaint : Json → ParameterError
  | .atom (.text s) => .unknownFiniteMode (Text.lower s)
  | v => .finiteModeNotText v

namespace Automaton

/-- Whether a value makes a run of a kind: it names the kind, or it is null and the kind is
that of the automaton. -/
def Chooses (a : Automaton) (mode : Json) (m : Mode) : Prop :=
  mode = .null ∧ (a.isDeterministic ↔ m = .dfa) ∨ ∃ s, mode = .text s ∧ Text.lower s = m.name

variable {a : Automaton} {mode epsilonMode : Json} {m : Mode}

/-! ## The kind of run -/

theorem name_dfa_ne_name_nfa : Mode.dfa.name ≠ Mode.nfa.name := by decide

theorem named_iff_exists_chooses (a : Automaton) (mode : Json) :
    Mode.Named mode ↔ ∃ m, a.Chooses mode m := by
  constructor
  · rintro (rfl | ⟨s, rfl, hs | hs⟩)
    · by_cases hdet : a.isDeterministic
      · exact ⟨.dfa, .inl ⟨rfl, by simp [hdet]⟩⟩
      · exact ⟨.nfa, .inl ⟨rfl, by simp [hdet]⟩⟩
    · exact ⟨.dfa, .inr ⟨s, rfl, hs⟩⟩
    · exact ⟨.nfa, .inr ⟨s, rfl, hs⟩⟩
  · rintro ⟨m, ⟨rfl, -⟩ | ⟨s, rfl, hs⟩⟩
    · exact .inl rfl
    · cases m with
      | dfa => exact .inr ⟨s, rfl, .inl hs⟩
      | nfa => exact .inr ⟨s, rfl, .inr hs⟩

theorem chooseMode_of_chooses (h : a.Chooses mode m) : a.chooseMode mode = .ok m := by
  obtain ⟨rfl, hdet⟩ | ⟨s, rfl, hs⟩ := h
  · cases m with
    | dfa => exact congrArg Except.ok (if_pos (hdet.2 rfl))
    | nfa => exact congrArg Except.ok (if_neg fun h => nomatch hdet.1 h)
  · cases m with
    | dfa => exact if_pos hs
    | nfa =>
        have hne : Text.lower s ≠ Mode.dfa.name := hs ▸ name_dfa_ne_name_nfa.symm
        exact (if_neg hne).trans (if_pos hs)

/-- **A value that names no kind** of run is reported, whatever the automaton. -/
theorem chooseMode_eq_error (a : Automaton) (h : ¬ Mode.Named mode) :
    a.chooseMode mode = .error (.parameter (Mode.complaint mode)) := by
  simp only [Mode.Named, not_or, not_exists, not_and] at h
  obtain ⟨hnull, hnames⟩ := h
  cases mode with
  | atom k =>
      cases k with
      | null => exact absurd rfl hnull
      | text s =>
          obtain ⟨hdfa, hnfa⟩ := hnames s rfl
          exact (if_neg hdfa).trans (if_neg hnfa)
      | _ => rfl
  | _ => rfl

/-- **The kind of a run** is that which its value makes. -/
theorem chooseMode_eq_ok_iff : a.chooseMode mode = .ok m ↔ a.Chooses mode m := by
  refine ⟨fun h => ?_, chooseMode_of_chooses⟩
  by_cases hnamed : Mode.Named mode
  · obtain ⟨k, hk⟩ := (named_iff_exists_chooses a mode).1 hnamed
    rw [chooseMode_of_chooses hk] at h
    exact Except.ok.inj h ▸ hk
  · rw [chooseMode_eq_error a hnamed] at h
    cases h

/-- A value makes runs of one kind only. -/
theorem Chooses.unique {k : Mode} (h : a.Chooses mode m) (h' : a.Chooses mode k) : m = k :=
  Except.ok.inj ((chooseMode_of_chooses h).symm.trans (chooseMode_of_chooses h'))

/-! ## The reading of `ε` -/

/-- A value that names no reading is reported, where it is looked at. -/
theorem ofJson_epsilonMode_eq_error (h : ¬ EpsilonMode.Named epsilonMode) :
    EpsilonMode.ofJson epsilonMode = .error (.parameter (.unknownEpsilonMode epsilonMode)) := by
  rw [EpsilonMode.Named, not_or] at h
  have hliteral : ¬ epsilonMode.isText "literal" := fun htext =>
    h.1 (Json.eq_text_of_text? (of_decide_eq_true htext))
  have hclosure : ¬ epsilonMode.isText "closure" := fun htext =>
    h.2 (Json.eq_text_of_text? (of_decide_eq_true htext))
  exact (if_neg hliteral).trans (if_neg hclosure)

variable {input : Text} {cancel : Cancellation}

/-- A deterministic run looks at no reading. -/
theorem simulate_of_chooses_dfa (h : a.Chooses mode .dfa) (epsilonMode : Json) (input : Text)
    (cancel : Cancellation) :
    a.simulate mode epsilonMode input cancel = .ok (a.runDfa input cancel) := by
  rw [simulate, chooseMode_of_chooses h]
  rfl

theorem simulate_of_chooses_nfa (h : a.Chooses mode .nfa) (epsilonMode : Json) (input : Text)
    (cancel : Cancellation) :
    a.simulate mode epsilonMode input cancel = a.simulateNfa epsilonMode input cancel := by
  rw [simulate, chooseMode_of_chooses h]
  rfl

/-- A run of no kind is reported, whatever else it is given. -/
theorem simulate_of_not_named (h : ¬ Mode.Named mode) (a : Automaton) (epsilonMode : Json)
    (input : Text) (cancel : Cancellation) :
    a.simulate mode epsilonMode input cancel = .error (.parameter (Mode.complaint mode)) := by
  rw [simulate, chooseMode_eq_error a h]
  rfl

theorem simulateNfa_eq_error (h : ¬ EpsilonMode.Named epsilonMode) (a : Automaton) (input : Text)
    (cancel : Cancellation) :
    a.simulateNfa epsilonMode input cancel =
      .error (.parameter (.unknownEpsilonMode epsilonMode)) := by
  rw [simulateNfa, ofJson_epsilonMode_eq_error h]
  rfl

theorem exists_simulateNfa (h : EpsilonMode.Named epsilonMode) (a : Automaton) (input : Text)
    (cancel : Cancellation) : ∃ r, a.simulateNfa epsilonMode input cancel = .ok r := by
  obtain ⟨e, he⟩ := exists_epsilonMode h
  exact ⟨a.runNfa e input cancel, by rw [simulateNfa, he]; rfl⟩

/-! ## Runs -/

section Reports

variable (a : Automaton) (mode epsilonMode : Json) (input : Text) (cancel : Cancellation)

/-- A run reports its kind, is deterministic, or is nondeterministic and looks at its
reading. -/
theorem simulate_cases :
    ¬ Mode.Named mode ∧
        a.simulate mode epsilonMode input cancel = .error (.parameter (Mode.complaint mode)) ∨
      a.Chooses mode .dfa ∧
        a.simulate mode epsilonMode input cancel = .ok (a.runDfa input cancel) ∨
      a.Chooses mode .nfa ∧ ((EpsilonMode.Named epsilonMode ∧
          ∃ r, a.simulate mode epsilonMode input cancel = .ok r) ∨
        (¬ EpsilonMode.Named epsilonMode ∧ a.simulate mode epsilonMode input cancel =
          .error (.parameter (.unknownEpsilonMode epsilonMode)))) := by
  by_cases hnamed : Mode.Named mode
  case neg => exact .inl ⟨hnamed, simulate_of_not_named hnamed a epsilonMode input cancel⟩
  obtain ⟨_ | _, hm⟩ := (named_iff_exists_chooses a mode).1 hnamed
  · exact .inr (.inl ⟨hm, simulate_of_chooses_dfa hm epsilonMode input cancel⟩)
  · rw [simulate_of_chooses_nfa hm]
    by_cases hreading : EpsilonMode.Named epsilonMode
    · exact .inr (.inr ⟨hm, .inl ⟨hreading, exists_simulateNfa hreading a input cancel⟩⟩)
    · exact .inr (.inr ⟨hm, .inr ⟨hreading, simulateNfa_eq_error hreading a input cancel⟩⟩)

theorem simulate_eq_ok_iff :
    (∃ r, a.simulate mode epsilonMode input cancel = .ok r) ↔
      a.Chooses mode .dfa ∨ a.Chooses mode .nfa ∧ EpsilonMode.Named epsilonMode := by
  obtain ⟨hunnamed, hrun⟩ | ⟨hdfa, hrun⟩ | ⟨hnfa, ⟨hreading, r, hrun⟩ | ⟨hreading, hrun⟩⟩ :=
    a.simulate_cases mode epsilonMode input cancel
  · have hnone : ∀ m, ¬ a.Chooses mode m := fun m hm =>
      hunnamed ((named_iff_exists_chooses a mode).2 ⟨m, hm⟩)
    simp [hrun, hnone]
  · simp [hrun, hdfa]
  · simp [hrun, hnfa, hreading]
  · have hdfa : ¬ a.Chooses mode .dfa := fun hdfa => nomatch hnfa.unique hdfa
    simp [hrun, hdfa, hreading]

theorem simulate_eq_error_iff :
    (∃ e, a.simulate mode epsilonMode input cancel = .error (.parameter e)) ↔
      ¬ Mode.Named mode ∨ a.Chooses mode .nfa ∧ ¬ EpsilonMode.Named epsilonMode := by
  have hnamed : ∀ {m}, a.Chooses mode m → Mode.Named mode := fun hm =>
    (named_iff_exists_chooses a mode).2 ⟨_, hm⟩
  obtain ⟨hunnamed, hrun⟩ | ⟨hdfa, hrun⟩ | ⟨hnfa, ⟨hreading, r, hrun⟩ | ⟨hreading, hrun⟩⟩ :=
    a.simulate_cases mode epsilonMode input cancel
  · simp [hrun, hunnamed]
  · have hnfa : ¬ a.Chooses mode .nfa := fun hnfa => nomatch hnfa.unique hdfa
    simp [hrun, hnamed hdfa, hnfa]
  · simp [hrun, hnamed hnfa, hreading]
  · simp [hrun, hnfa, hreading]

/-- **What a run reports.**  It reports a parameter exactly if its kind is none, or it is
nondeterministic and its reading of `ε` is none, and gives a result otherwise.  A kind that is
none is reported for every automaton and with every reading.  A deterministic run is the same
with every reading, so all wrong parameters are reported exactly where the run is not
deterministic or the reading is one. -/
theorem simulate_reports :
    ((∃ e, a.simulate mode epsilonMode input cancel = .error (.parameter e)) ↔
      ¬ Mode.Named mode ∨ a.Chooses mode .nfa ∧ ¬ EpsilonMode.Named epsilonMode) ∧
    ((∃ r, a.simulate mode epsilonMode input cancel = .ok r) ↔
      a.Chooses mode .dfa ∨ a.Chooses mode .nfa ∧ EpsilonMode.Named epsilonMode) ∧
    (¬ Mode.Named mode →
      a.simulate mode epsilonMode input cancel = .error (.parameter (Mode.complaint mode))) ∧
    (a.Chooses mode .nfa → ¬ EpsilonMode.Named epsilonMode →
      a.simulate mode epsilonMode input cancel =
        .error (.parameter (.unknownEpsilonMode epsilonMode))) ∧
    (a.Chooses mode .dfa →
      a.simulate mode epsilonMode input cancel = .ok (a.runDfa input cancel)) ∧
    (((∃ e, a.simulate mode epsilonMode input cancel = .error (.parameter e)) ↔
        ¬ Mode.Named mode ∨ ¬ EpsilonMode.Named epsilonMode) ↔
      (a.Chooses mode .dfa → EpsilonMode.Named epsilonMode)) := by
  refine ⟨a.simulate_eq_error_iff .., a.simulate_eq_ok_iff .., fun h => ?_, fun h hreading => ?_,
    fun h => ?_, ?_⟩
  · exact simulate_of_not_named h a epsilonMode input cancel
  · rw [simulate_of_chooses_nfa h, simulateNfa_eq_error hreading]
  · exact simulate_of_chooses_dfa h epsilonMode input cancel
  · rw [simulate_eq_error_iff]
    by_cases hnamed : Mode.Named mode
    case neg =>
      have hdfa : ¬ a.Chooses mode .dfa := fun hdfa =>
        hnamed ((named_iff_exists_chooses a mode).2 ⟨_, hdfa⟩)
      simp [hnamed, hdfa]
    obtain ⟨_ | _, hm⟩ := (named_iff_exists_chooses a mode).1 hnamed
    · have hnfa : ¬ a.Chooses mode .nfa := fun hnfa => nomatch hnfa.unique hm
      simp [hnamed, hm, hnfa]
    · have hdfa : ¬ a.Chooses mode .dfa := fun hdfa => nomatch hm.unique hdfa
      simp [hnamed, hm, hdfa]

end Reports

/-- One move under `a`. -/
def latch : Automaton where
  states := [⟨"p", true, false⟩, ⟨"q", false, true⟩]
  alphabet := [.text "a"]
  transitions := [⟨"p", "q", .text "a"⟩]
  start := "p"
  accepting := ["q"]

/-- A deterministic automaton takes a reading that is none without a word. -/
theorem simulate_unreported_latch :
    latch.Valid ∧ ¬ EpsilonMode.Named (.text "lazy") ∧
      latch.simulate .null (.text "lazy") "a" .never = .ok (latch.runDfa "a" .never) ∧
      ¬ ((∃ e, latch.simulate .null (.text "lazy") "a" .never = .error (.parameter e)) ↔
        ¬ Mode.Named .null ∨ ¬ EpsilonMode.Named (.text "lazy")) := by
  have hreading : ¬ EpsilonMode.Named (.text "lazy") := by
    rintro (h | h) <;> injection h with h <;> injection h with h <;> revert h <;> decide
  have hrun : latch.simulate .null (.text "lazy") "a" .never = .ok (latch.runDfa "a" .never) := by
    rfl
  refine ⟨by decide, hreading, hrun, fun h => ?_⟩
  obtain ⟨e, he⟩ := h.2 (.inr hreading)
  rw [hrun] at he
  cases he

end Automaton

end FormalMachines.Finite
