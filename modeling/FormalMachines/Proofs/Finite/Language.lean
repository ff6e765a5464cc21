import FormalMachines.Proofs.Finite.Nondeterministic
import FormalMachines.Proofs.Finite.Successor

/-!
# FormalMachines.Proofs.Finite.Language

The words that an automaton accepts when `ε` is read literally, whether it is deterministic
or not.

A word of symbols is accepted from a state if moves with these symbols lead from it to an
accepting one (`Automaton.Yields`).  Where no slot holds two moves these are the words that
the state recognises (`recognises_iff_yields`), and the run that the shape of the automaton
decides on accepts the inputs that are accepted from the start (`simulate_automatic`).
-/

namespace FormalMachines.Finite.Automaton

variable {a b : Automaton} {p q : Text} {s : Atom} {word : List Atom} {text : Text}

/-- Whether a word is accepted from a state. -/
def Yields (a : Automaton) : Text → List Atom → Prop
  | p, [] => p ∈ a.accepting
  | p, s :: word => ∃ t ∈ a.moves p s, a.Yields t.target word

/-- Whether no word is accepted behind a move whose label compares equal to nothing. -/
def Barren (a : Automaton) : Prop :=
  ∀ t ∈ a.transitions, t.symbol.key = .notANumber → ∀ word, ¬ a.Yields t.target word

/-- Whether the same words are accepted from the starts of two automata. -/
def SameYield (a b : Automaton) : Prop :=
  ∀ word, a.Yields a.start word ↔ b.Yields b.start word

theorem sameYield_rfl : SameYield a a := fun _ => Iff.rfl

theorem SameYield.trans {c : Automaton} (h : SameYield a b) (h' : SameYield b c) :
    SameYield a c := fun word => (h word).trans (h' word)

/-! ## Without choices -/

theorem mem_moves_iff_next? (hslots : a.slots.Nodup) :
    (∃ t ∈ a.moves p s, t.target = q) ↔ a.next? p s = some q := by
  constructor
  · intro ⟨t, ht, htarget⟩
    obtain ⟨hmem, hsource, hsame⟩ := mem_moves.1 ht
    rw [← hsource, ← htarget]
    exact next?_of_mem_of_nodup hslots hmem hsame
  · intro h
    obtain ⟨t, ht, hsource, hsame, htarget⟩ := exists_move_of_next? h
    exact ⟨t, mem_moves.2 ⟨ht, hsource, hsame⟩, htarget⟩

/-- Where no slot holds two moves, a state recognises the words that are accepted from it. -/
theorem recognises_iff_yields (hslots : a.slots.Nodup) :
    a.Recognises (some p) word ↔ a.Yields p word := by
  induction word generalizing p with
  | nil => simp [Recognises, Yields]
  | cons s word ih =>
      rw [recognises_cons_iff, successor_some, Yields]
      constructor
      · intro h
        cases hnext : a.next? p s with
        | none =>
            rw [hnext] at h
            exact absurd h (a.not_recognises_none word)
        | some q =>
            rw [hnext] at h
            obtain ⟨t, ht, htarget⟩ := (mem_moves_iff_next? hslots).2 hnext
            exact ⟨t, ht, ih.1 (htarget ▸ h)⟩
      · rintro ⟨t, ht, h⟩
        rw [(mem_moves_iff_next? hslots).1 ⟨t, ht, rfl⟩]
        exact ih.2 h

/-! ## Runs -/

/-- The texts that are accepted from a state lead along paths to an accepting one. -/
theorem yields_map_symbolOf_iff :
    a.Yields p (text.map symbolOf) ↔ ∃ q ∈ a.accepting, a.Reaches .literal p text q := by
  induction text generalizing p with
  | nil => simp [Yields, reaches_literal_nil_iff]
  | cons c text ih =>
      rw [List.map_cons, Yields]
      constructor
      · intro ⟨t, ht, h⟩
        obtain ⟨q, hq, hreaches⟩ := ih.1 h
        exact ⟨q, hq, reaches_append_iff (u := [c]).2
          ⟨t.target, reaches_literal_singleton_iff.2 ⟨t, ht, rfl⟩, hreaches⟩⟩
      · intro ⟨q, hq, hreaches⟩
        obtain ⟨r, hr, hrest⟩ := reaches_append_iff (u := [c]).1 hreaches
        obtain ⟨t, ht, rfl⟩ := reaches_literal_singleton_iff.1 hr
        exact ⟨t, ht, ih.2 ⟨q, hq, hrest⟩⟩

theorem accepted_runNfa_iff (a : Automaton) (mode : EpsilonMode) (text : Text) :
    (a.runNfa mode text .never).accepted ↔ a.Accepts mode text :=
  (a.agrees_run _ text .never).trans (decides_walk text [] _ (a.tracks_start mode) [] 0).accepted

theorem accepted_runNfa_literal_iff (a : Automaton) (text : Text) :
    (a.runNfa .literal text .never).accepted ↔ a.Yields a.start (text.map symbolOf) :=
  (a.accepted_runNfa_iff .literal text).trans yields_map_symbolOf_iff.symm

theorem accepted_runDfa_iff_yields (hdet : a.isDeterministic) (text : Text) :
    (a.runDfa text .never).accepted ↔ a.Yields a.start (text.map symbolOf) :=
  (a.accepted_runDfa_iff text).trans (recognises_iff_yields (nodup_slots hdet))

/-- If the shape of the automaton decides, the run is deterministic where the automaton is. -/
theorem simulate_null {mode : EpsilonMode} {epsilonMode : Json}
    (hmode : EpsilonMode.ofJson epsilonMode = .ok mode) (input : Text) (cancel : Cancellation) :
    a.simulate .null epsilonMode input cancel =
      .ok (if a.isDeterministic then a.runDfa input cancel else a.runNfa mode input cancel) := by
  by_cases hdet : a.isDeterministic
  · simp [simulate, chooseMode, Json.null, hdet, bind, Except.bind, pure, Except.pure]
  · simp [simulate, simulateNfa, chooseMode, Json.null, hdet, hmode, bind, Except.bind, pure,
      Except.pure]

/-- **The run that the shape of the automaton decides on** accepts the inputs that are
accepted from the start, if `ε` is read literally. -/
theorem simulate_automatic (a : Automaton) (text : Text) :
    ∃ r, a.simulate .null (.text "literal") text .never = .ok r ∧
      (r.accepted ↔ a.Yields a.start (text.map symbolOf)) := by
  have hliteral : EpsilonMode.ofJson (.text "literal") = .ok .literal := rfl
  refine ⟨_, simulate_null hliteral text .never, ?_⟩
  split
  · next hdet => exact accepted_runDfa_iff_yields hdet text
  · exact a.accepted_runNfa_literal_iff text

end FormalMachines.Finite.Automaton
