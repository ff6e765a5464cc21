import FormalMachines.Proofs.Finite.Language

/-!
# FormalMachines.Proofs.Finite.Steppers

The steppers of a finite automaton against each other.

1. Without `ε`-moves there is nothing to close over, so the nondeterministic stepper is the same
   for both readings of `ε` (`allMoves_eq`).
2. Without choices the run is in one state all along and fires one move at most, so the first of
   the moves is all of them (`run_allMoves_eq`).
3. In any automaton the state of the deterministic run is one of those of the nondeterministic
   run, so where the former accepts the latter does (`accepts_walk_allMoves`).

The runs are compared wherever they may be cancelled.
-/

namespace FormalMachines.Finite.Automaton

variable {a : Automaton} {mode : EpsilonMode} {states : List Text} {q : Text} {c : CodePoint}
  {cancel : Cancellation}

/-! ## Without `ε`-moves -/

section Plain

variable (hplain : ∀ t ∈ a.transitions, ¬ t.isEpsilon)

include hplain

/-- Without `ε`-moves distinct states are closed. -/
theorem close_eq_self (mode : EpsilonMode) (h : states.Nodup) : a.close mode states = states := by
  have hnone : ∀ p q, q ∉ a.epsilonTargets p := by
    intro p q hq
    obtain ⟨t, ht, -, hsilent, -⟩ := mem_epsilonTargets_iff.1 hq
    exact hplain t ht hsilent
  cases mode with
  | literal => rfl
  | closure =>
      have hclosed : ∀ x ∈ states, ∀ y ∈ a.epsilonTargets x, y ∈ states :=
        fun x _ y hy => absurd hy (hnone x y)
      exact Worklist.explore_of_closed .lastFirst _ h hclosed

/-- **Without `ε`-moves** it does not matter how `ε` is read. -/
theorem allMoves_eq (mode : EpsilonMode) : a.allMoves mode = a.allMoves .literal := by
  have hland : ∀ fired : List Transition,
      a.close mode (fired.map (·.target)).eraseDups = (fired.map (·.target)).eraseDups :=
    fun fired => close_eq_self hplain mode (Distinct.nodup_eraseDups _)
  simp only [allMoves, hland, close_eq_self hplain mode (List.nodup_singleton a.start)]
  rfl

end Plain

/-! ## Without choices -/

/-- Steppers that fire and land alike wherever the run comes make the same run. -/
theorem walk_congr {m m' : Stepper} {P : List Text → Prop}
    (hfire : ∀ states c, P states → m'.fire states c = m.fire states c)
    (hland : ∀ states c, P states → m'.land (m.fire states c) = m.land (m.fire states c))
    (hkeep : ∀ states c, P states → P (m.land (m.fire states c))) (h : P states)
    (consumed : Text) (via : List Transition) (looks : Nat) (rest : Text) :
    a.walk m' cancel states consumed via looks rest =
      a.walk m cancel states consumed via looks rest := by
  induction rest generalizing states consumed via looks with
  | nil => rfl
  | cons c rest ih =>
      have hnext := hkeep states c h
      simp only [walk, hfire states c h, hland states c h]
      cases hstates : m.land (m.fire states c) with
      | nil => rfl
      | cons q more =>
          rw [hstates] at hnext
          simp only [ih hnext]

/-- Without choices a run that is in one state at most fires one move at most. -/
theorem length_movesFrom_le_one (hslots : a.slots.Nodup) (h : states.length ≤ 1) (c : CodePoint) :
    (a.movesFrom states c).length ≤ 1 := by
  match states, h with
  | [], _ => simp [movesFrom]
  | [q], _ => simpa [movesFrom] using length_moves_le_one hslots q (symbolOf c)

/-- **Without choices** the first of the moves is all of them. -/
theorem run_allMoves_eq (hslots : a.slots.Nodup) (input : Text) (cancel : Cancellation) :
    a.run (a.allMoves .literal) input cancel = a.run a.firstMove input cancel := by
  have hfired : ∀ states c, states.length ≤ 1 → a.firstMove.fire states c = a.movesFrom states c :=
    fun states c h => List.take_of_length_le (length_movesFrom_le_one hslots h c)
  have hlanded : ∀ fired : List Transition, fired.length ≤ 1 →
      (fired.map (·.target)).eraseDups = fired.map (·.target) := by
    intro fired hlen
    match fired, hlen with
    | [], _ => rfl
    | [t], _ => rfl
  apply walk_congr (P := fun states => states.length ≤ 1)
  · exact fun states c h => (hfired states c h).symm
  · intro states c h
    rw [hfired states c h]
    exact hlanded _ (length_movesFrom_le_one hslots h c)
  · intro states c h
    rw [hfired states c h]
    simpa [firstMove] using length_movesFrom_le_one hslots h c
  · exact Nat.le_refl 1

/-! ## One state among several -/

/-- Where a move of one of its states leads, the nondeterministic run goes. -/
theorem target_mem_land (hq : q ∈ states) {t : Transition} (ht : t ∈ a.moves q (symbolOf c)) :
    t.target ∈ (a.allMoves mode).land ((a.allMoves mode).fire states c) := by
  have hfired : t ∈ a.movesFrom states c := List.mem_flatMap.2 ⟨q, hq, ht⟩
  exact mem_close_of_mem (List.mem_eraseDups.2 (List.mem_map_of_mem hfired))

/-- **Where the deterministic run accepts** from one of its states, the nondeterministic run
accepts. -/
theorem accepts_walk_allMoves (hq : q ∈ states) {consumed : Text} {via via' : List Transition}
    {looks : Nat} {rest : Text}
    (h : (a.walk a.firstMove cancel [q] consumed via looks rest).accepts) :
    (a.walk (a.allMoves mode) cancel states consumed via' looks rest).accepts := by
  induction rest generalizing q states consumed via via' looks with
  | nil =>
      have haccepts : a.acceptsIn [q] → a.acceptsIn states := by
        simp only [acceptsIn, List.any_eq_true, List.mem_singleton]
        rintro ⟨_, rfl, haccepting⟩
        exact ⟨_, hq, haccepting⟩
      exact haccepts h
  | cons c rest ih =>
      simp only [walk] at h ⊢
      by_cases hcancel : cancel.raisedAt looks
      · simp [hcancel, Run.stop] at h
      · simp only [hcancel, Bool.false_eq_true, if_false, land_fire_firstMove] at h ⊢
        cases hnext : a.next? q (symbolOf c) with
        | none => simp [hnext, Run.stop, Run.cons] at h
        | some r =>
            obtain ⟨t, ht, hsource, hsame, rfl⟩ := exists_move_of_next? hnext
            have hr : t.target ∈ (a.allMoves mode).land ((a.allMoves mode).fire states c) :=
              target_mem_land hq (mem_moves.2 ⟨ht, hsource, hsame⟩)
            cases hland : (a.allMoves mode).land ((a.allMoves mode).fire states c) with
            | nil => simp [hland] at hr
            | cons p more =>
                rw [hland] at hr
                rw [hnext] at h
                exact ih hr h

/-! ## Whole runs -/

/-- In a deterministic automaton either stepper makes the same run. -/
theorem run_allMoves_eq_firstMove (hdet : a.isDeterministic) (mode : EpsilonMode) (input : Text)
    (cancel : Cancellation) :
    a.run (a.allMoves mode) input cancel = a.run a.firstMove input cancel := by
  have hplain : ∀ t ∈ a.transitions, ¬ t.isEpsilon := fun t ht hsilent =>
    (isDeterministic_iff.1 hdet).1 ⟨t, ht, hsilent⟩
  rw [allMoves_eq hplain mode, run_allMoves_eq (nodup_slots hdet)]

/-- **Which stepper makes a run does not show.**  Without `ε`-moves the nondeterministic run is
the same for both readings of `ε`.  In a deterministic automaton the deterministic run is the
same as well, but for its kind.  In any automaton an input that the deterministic run accepts is
accepted by the nondeterministic run, however that reads `ε`.  So the run that the shape of the
automaton decides on records what the nondeterministic run does. -/
theorem steppers_agree (a : Automaton) (input : Text) (cancel : Cancellation) :
    ((∀ t ∈ a.transitions, ¬ t.isEpsilon) →
      a.runNfa .closure input cancel = a.runNfa .literal input cancel) ∧
    (a.isDeterministic → ∀ mode,
      a.runNfa mode input cancel = { a.runDfa input cancel with mode := .nfa }) ∧
    (∀ mode, (a.runDfa input cancel).accepted → (a.runNfa mode input cancel).accepted) ∧
    ∀ epsilonMode mode, EpsilonMode.ofJson epsilonMode = .ok mode →
      ∃ r, a.simulate .null epsilonMode input cancel = .ok r ∧
        r.run = (a.runNfa mode input cancel).run := by
  refine ⟨fun hplain => ?_, fun hdet mode => ?_, fun mode haccepted => ?_,
    fun epsilonMode mode hmode => ⟨_, simulate_null hmode input cancel, ?_⟩⟩
  · rw [runNfa, runNfa, allMoves_eq hplain .closure]
  · exact congrArg (Result.mk .nfa) (run_allMoves_eq_firstMove hdet mode input cancel)
  · exact accepts_walk_allMoves (mem_close_of_mem (List.mem_singleton_self a.start)) haccepted
  · split
    · next hdet => exact (run_allMoves_eq_firstMove hdet mode input cancel).symm
    · rfl

/-- A lamp that is turned on and off. -/
def lamp : Automaton where
  states := [⟨"off", true, false⟩, ⟨"on", false, true⟩]
  alphabet := [.text "t"]
  transitions := [⟨"off", "on", .text "t"⟩, ⟨"on", "off", .text "t"⟩]
  start := "off"
  accepting := ["on"]

/-- The runs are the same where they end well, where they are stuck and where they are
cancelled. -/
theorem steppers_agree_lamp :
    (∀ t ∈ lamp.transitions, ¬ t.isEpsilon) ∧ lamp.isDeterministic ∧
      (lamp.runDfa "ttt" .never).accepted ∧ (lamp.runNfa .closure "ttt" .never).accepted ∧
      lamp.runNfa .closure "tat" .never = { lamp.runDfa "tat" .never with mode := .nfa } ∧
      lamp.runNfa .closure "ttt" (.after 2) = lamp.runNfa .literal "ttt" (.after 2) ∧
      ∃ r, lamp.simulate .null (.text "closure") "ttt" (.after 2) = .ok r ∧
        r.run = (lamp.runNfa .closure "ttt" (.after 2)).run := by
  have hplain : ∀ t ∈ lamp.transitions, ¬ t.isEpsilon := by decide
  have hdet : lamp.isDeterministic := by decide
  have haccepted : (lamp.runDfa "ttt" .never).accepted := by decide
  exact ⟨hplain, hdet, haccepted, (lamp.steppers_agree "ttt" .never).2.2.1 .closure haccepted,
    (lamp.steppers_agree "tat" .never).2.1 hdet .closure,
    (lamp.steppers_agree "ttt" (.after 2)).1 hplain,
    (lamp.steppers_agree "ttt" (.after 2)).2.2.2 _ _ rfl⟩

end FormalMachines.Finite.Automaton
