import FormalMachines.Proofs.Finite.Merged
import Mathlib.Combinatorics.Enumerative.DoubleCounting

/-!
# FormalMachines.Proofs.Finite.Minimal

No deterministic automaton with the same language has fewer states than the minimal one.

States that can be reached and recognise different words have to be told apart by any
automaton that accepts the same texts: the states that it is in after texts that lead to
them are different (`length_le_length_names`).  The states of the minimal automaton are such,
which leaves the automaton of the empty language, whose only state is the start
(`minimise_smallest`).
-/

namespace FormalMachines.Finite.Automaton

variable {a m b : Automaton} {letters : List Atom} {p q r start : Text} {word : List Atom}

/-! ## The fewest states -/

/-- Where each symbol is one code point, a word that leads anywhere is a text. -/
theorem exists_text_of_after (hsymbols : ∀ t ∈ a.transitions, ∃ c, t.symbol = symbolOf c)
    (h : a.after (some p) word = some q) : ∃ text : Text, word = text.map symbolOf := by
  induction word generalizing p with
  | nil => exact ⟨[], rfl⟩
  | cons s word ih =>
      rw [after_cons, successor_some] at h
      cases hnext : a.next? p s with
      | none =>
          rw [hnext, after_none] at h
          cases h
      | some r =>
          rw [hnext] at h
          obtain ⟨text, htext⟩ := ih h
          obtain ⟨t, ht, _, hsame, _⟩ := exists_move_of_next? hnext
          obtain ⟨c, hc⟩ := hsymbols t ht
          rw [hc] at hsame
          refine ⟨c :: text, ?_⟩
          rw [List.map_cons, ← htext, Atom.key_eq_text_iff.1 hsame.symm]
          rfl

/-- Whether the starts of two automata recognise the same texts. -/
def SameTexts (m b : Automaton) : Prop :=
  ∀ text : Text, m.Recognises (some m.start) (text.map symbolOf) ↔
    b.Recognises (some b.start) (text.map symbolOf)

/-- Two states belong together if one text leads to both. -/
def Together (m b : Automaton) (q r : Text) : Prop :=
  ∃ text : Text, m.after (some m.start) (text.map symbolOf) = some q ∧
    b.after (some b.start) (text.map symbolOf) = some r

/-- States that belong together recognise the same texts. -/
theorem Together.recognises_iff (hsame : SameTexts m b) (h : Together m b q r) (text : Text) :
    m.Recognises (some q) (text.map symbolOf) ↔ b.Recognises (some r) (text.map symbolOf) := by
  obtain ⟨front, hq, hr⟩ := h
  have h := hsame (front ++ text)
  rw [List.map_append, recognises_append_iff, recognises_append_iff, hq, hr] at h
  exact h

/-- States that belong together with the same one recognise the same words. -/
theorem Together.sameWords (hsymbols : ∀ t ∈ m.transitions, ∃ c, t.symbol = symbolOf c)
    (hsame : SameTexts m b) (hp : Together m b p r) (hq : Together m b q r) :
    m.SameWords (some p) (some q) := by
  have hsub : ∀ {x y}, Together m b x r → Together m b y r → ∀ word,
      m.Recognises (some x) word → m.Recognises (some y) word := by
    intro x y hx hy word hword
    obtain ⟨f, hf, hend⟩ := hword
    obtain ⟨text, htext⟩ := exists_text_of_after hsymbols hend
    subst htext
    exact (hy.recognises_iff hsame text).2 ((hx.recognises_iff hsame text).1 ⟨f, hf, hend⟩)
  exact fun word => ⟨hsub hp hq word, hsub hq hp word⟩

/-- A state that can be reached and recognises a word belongs together with some state. -/
theorem exists_together (hsymbols : ∀ t ∈ m.transitions, ∃ c, t.symbol = symbolOf c)
    (hb : b.Valid) (hsame : SameTexts m b)
    (hreached : ∃ word, m.after (some m.start) word = some q)
    (hlive : ∃ word, m.Recognises (some q) word) : ∃ r ∈ b.names, Together m b q r := by
  obtain ⟨front, hfront⟩ := hreached
  obtain ⟨word, f, hf, hword⟩ := hlive
  obtain ⟨u, hu⟩ := exists_text_of_after hsymbols hfront
  obtain ⟨v, hv⟩ := exists_text_of_after hsymbols hword
  subst hu hv
  have h := hsame (u ++ v)
  rw [List.map_append, recognises_append_iff, recognises_append_iff, hfront] at h
  have hrecognised := h.1 ⟨f, hf, hword⟩
  cases hr : b.after (some b.start) (u.map symbolOf) with
  | none =>
      rw [hr] at hrecognised
      exact absurd hrecognised (b.not_recognises_none _)
  | some r =>
      have hmem : r ∈ b.names :=
        after_induct hb.2.1 (fun _ _ _ _ hnext => next?_mem_names hb hnext) hr
      exact ⟨r, hmem, u, hfront, hr⟩

/-- **Groups of states** that are told apart by words, each with a state that can be reached
and recognises a word, are no more than the states of any automaton that accepts the same
texts. -/
theorem length_le_length_names {ι : Type} [DecidableEq ι] {groups : List ι}
    (holds : ι → Text → Prop) (hnodup : groups.Nodup)
    (hsymbols : ∀ t ∈ m.transitions, ∃ c, t.symbol = symbolOf c)
    (hsome : ∀ i ∈ groups, ∃ q, holds i q ∧ (∃ word, m.after (some m.start) word = some q) ∧
      ∃ word, m.Recognises (some q) word)
    (hapart : ∀ i ∈ groups, ∀ j ∈ groups, ∀ p q, holds i p → holds j q →
      m.SameWords (some p) (some q) → i = j)
    (hb : b.Valid) (hsame : SameTexts m b) : groups.length ≤ b.names.length := by
  have hexists : ∀ i ∈ groups.toFinset, ∃ r ∈ b.names.toFinset,
      ∃ q, holds i q ∧ Together m b q r := by
    intro i hi
    obtain ⟨q, hq, hreached, hlive⟩ := hsome i (List.mem_toFinset.1 hi)
    obtain ⟨r, hr, hqr⟩ := exists_together hsymbols hb hsame hreached hlive
    exact ⟨r, List.mem_toFinset.2 hr, q, hq, hqr⟩
  have hunique : ∀ r ∈ b.names.toFinset,
      {i | i ∈ groups.toFinset ∧ ∃ q, holds i q ∧ Together m b q r}.Subsingleton := by
    intro r _ i ⟨hi, p, hp, hpr⟩ j ⟨hj, q, hq, hqr⟩
    exact hapart i (List.mem_toFinset.1 hi) j (List.mem_toFinset.1 hj) p q hp hq
      (hpr.sameWords hsymbols hsame hqr)
  have hcard := Finset.card_le_card_of_forall_subsingleton _ hexists hunique
  rw [List.toFinset_card_of_nodup hnodup, List.toFinset_card_of_nodup hb.1] at hcard
  exact hcard

/-! ## The empty language -/

/-- A word is recognised if a path leads to an accepting state. -/
theorem exists_recognised_iff (hdet : a.isDeterministic) :
    (∃ word, a.Recognises (some p) word) ↔ ∃ q ∈ a.accepting, ∃ path, a.Path p path q := by
  constructor
  · intro ⟨word, q, hq, hword⟩
    exact ⟨q, hq, exists_path_of_after hword⟩
  · intro ⟨q, hq, path, hpath⟩
    exact ⟨_, q, hq, after_of_path hdet hpath⟩

/-- The start is merged with the sink if the language is empty. -/
theorem merge_start_eq_none_iff (hletters : a.letters .literal = .ok letters) :
    a.merge letters (some a.start) = none ↔ ¬ ∃ word, a.Recognises (some a.start) word := by
  rw [merge_eq_none_iff hletters (a.start_mem_nodes letters), not_exists]
  constructor
  · intro h word hword
    exact a.not_recognises_none word ((h word).1 hword)
  · intro h word
    exact iff_of_false (h word) (a.not_recognises_none word)

theorem minimalAutomaton_eq_emptyLanguage (h : a.merge letters (some a.start) = none) :
    a.minimalAutomaton letters = emptyLanguage a.start letters := by
  rw [merge_some] at h
  simp only [minimalAutomaton, h]

theorem valid_emptyLanguage (start : Text) (letters : List Atom) :
    (emptyLanguage start letters).Valid := by
  simp [emptyLanguage, Valid, names]

theorem isDeterministic_emptyLanguage (start : Text) (letters : List Atom) :
    (emptyLanguage start letters).isDeterministic := by
  simp [emptyLanguage, isDeterministic, slots]

theorem not_recognises_emptyLanguage (start : Text) (letters : List Atom) (x : Node)
    (word : List Atom) : ¬ (emptyLanguage start letters).Recognises x word := by
  simp [emptyLanguage, Recognises]

/-! ## The minimal automaton -/

/-- Where each symbol of an automaton is one code point, so it is in the minimal one. -/
theorem symbols_minimalAutomaton (hstart : a.merge letters (some a.start) = some start)
    (hsymbols : ∀ t ∈ a.transitions, ∃ c, t.symbol = symbolOf c) :
    ∀ t ∈ (a.minimalAutomaton letters).transitions, ∃ c, t.symbol = symbolOf c := by
  intro t ht
  obtain ⟨u, hu, hsame⟩ := exists_same_of_mem_minimalAutomaton hstart ht
  obtain ⟨c, hc⟩ := hsymbols u hu
  rw [hc] at hsame
  exact ⟨c, Atom.key_eq_text_iff.1 hsame.symm⟩

/-- Different merged states recognise different words. -/
theorem eq_of_sameWords (hletters : a.letters .literal = .ok letters) (hdet : a.isDeterministic)
    (hapart : a.NamesApart letters)
    (hstart : a.merge letters (some a.start) = some start)
    (hp : p ∈ (a.minimalAutomaton letters).names) (hq : q ∈ (a.minimalAutomaton letters).names)
    (h : (a.minimalAutomaton letters).SameWords (some p) (some q)) : p = q := by
  obtain ⟨p', hp', hpmerge⟩ := (mem_names_minimalAutomaton_iff hstart).1 hp
  obtain ⟨q', hq', hqmerge⟩ := (mem_names_minimalAutomaton_iff hstart).1 hq
  have hpnode := some_mem_nodes hp'
  have hqnode := some_mem_nodes hq'
  have hsame : a.SameWords (some p') (some q') := by
    intro word
    rw [← recognises_merge_iff hletters hdet hapart hstart hpnode word,
      ← recognises_merge_iff hletters hdet hapart hstart hqnode word, hpmerge, hqmerge]
    exact h word
  have heq := (merge_eq_merge_iff hletters hapart hpnode hqnode).2 hsame
  rw [hpmerge, hqmerge] at heq
  exact Option.some.inj heq

/-- Minimisation succeeds where the minimal automaton is valid. -/
theorem minimise_eq_ok (hdet : a.isDeterministic) (hletters : a.letters .literal = .ok letters)
    (hvalid : (a.minimalAutomaton letters).Valid) :
    a.minimise = .ok (a.minimalAutomaton letters) := by
  have hchecked := (checked_eq_ok_iff _ _).2 ⟨hvalid, rfl⟩
  simp [minimise, hdet, hletters, bind, Except.bind, hchecked]

/-- Two automata accept the same texts if their starts recognise the same of them. -/
theorem accepted_eq_iff :
    (∀ text, (m.runDfa text .never).accepted = (b.runDfa text .never).accepted) ↔
      SameTexts m b := by
  apply forall_congr'
  intro text
  rw [Bool.eq_iff_iff, accepted_runDfa_iff, accepted_runDfa_iff]

/-- No automaton that accepts the same texts has fewer states than the minimal one. -/
theorem length_minimalAutomaton_le (hletters : a.letters .literal = .ok letters)
    (hdet : a.isDeterministic) (hapart : a.NamesApart letters)
    (hstart : a.merge letters (some a.start) = some start)
    (hsymbols : ∀ t ∈ a.transitions, ∃ c, t.symbol = symbolOf c) (hb : b.Valid)
    (hsame : SameTexts b a) : (a.minimalAutomaton letters).states.length ≤ b.states.length := by
  have hle := length_le_length_names Eq (valid_minimalAutomaton hstart hletters).1
    (symbols_minimalAutomaton hstart hsymbols)
    (fun q hq => ⟨q, rfl, exists_word_minimalAutomaton hletters hdet hapart hstart hq,
      exists_recognised hletters hdet hapart hstart hq⟩)
    (fun _ hp _ hq _ _ hpeq hqeq hwords =>
      eq_of_sameWords hletters hdet hapart hstart hp hq (hpeq ▸ hqeq ▸ hwords)) hb
    (fun text => (recognises_start_minimalAutomaton hletters hdet hapart hstart _).trans
      (hsame text).symm)
  rw [names, names, List.length_map, List.length_map] at hle
  exact hle

/-- **Minimisation** of a deterministic automaton, of which the alphabet holds atoms and no
state name the separator of merged names, yields a deterministic automaton that accepts the
same texts.  All its states can be reached, and accepting states from all of them, unless
no path leads to one at all; then one state and no move are left.  If every symbol is a
single code point, no deterministic automaton that accepts the same texts has fewer
states. -/
theorem minimise_smallest (hvalid : a.Valid) (hdet : a.isDeterministic)
    (hatoms : ∀ v ∈ a.alphabet, ∃ symbol, v = .atom symbol)
    (hnames : ∀ q ∈ a.names, .char '_' ∉ q) :
    ∃ m, a.minimise = .ok m ∧ m.isDeterministic ∧
      (∀ text, (m.runDfa text .never).accepted = (a.runDfa text .never).accepted) ∧
      (∀ q ∈ m.names, ∃ path, m.Path m.start path q) ∧
      ((∃ q ∈ a.accepting, ∃ path, a.Path a.start path q) →
        ∀ q ∈ m.names, ∃ r ∈ m.accepting, ∃ path, m.Path q path r) ∧
      ((¬ ∃ q ∈ a.accepting, ∃ path, a.Path a.start path q) →
        m.states.length = 1 ∧ m.transitions = []) ∧
      ((∀ t ∈ a.transitions, ∃ c, t.symbol = symbolOf c) →
        ∀ b : Automaton, b.Valid → b.isDeterministic →
          (∀ text, (b.runDfa text .never).accepted = (a.runDfa text .never).accepted) →
          m.states.length ≤ b.states.length) := by
  obtain ⟨letters, hletters⟩ := exists_letters .literal hatoms
  have hapart : a.NamesApart letters :=
    namesApart_of_plain hletters fun q hq => hnames q (reachable_subset_names hvalid hq)
  rw [← exists_recognised_iff hdet]
  cases hstart : a.merge letters (some a.start) with
  | none =>
      have hempty := (merge_start_eq_none_iff hletters).1 hstart
      have heq := minimalAutomaton_eq_emptyLanguage hstart
      refine ⟨emptyLanguage a.start letters, ?_, isDeterministic_emptyLanguage _ _, ?_, ?_, ?_, ?_,
        ?_⟩
      · rw [← heq]
        exact minimise_eq_ok hdet hletters (heq ▸ valid_emptyLanguage _ _)
      · apply accepted_eq_iff.2
        intro text
        exact iff_of_false (not_recognises_emptyLanguage _ _ _ _) (not_exists.1 hempty _)
      · intro q hq
        rw [List.mem_singleton.1 hq]
        exact ⟨[], .nil _⟩
      · exact fun h => absurd h hempty
      · exact fun _ => ⟨rfl, rfl⟩
      · intro _ b hb _ _
        have hpos := List.length_pos_of_mem hb.2.1
        rw [names, List.length_map] at hpos
        exact hpos
  | some start =>
      have hlive : ∃ word, a.Recognises (some a.start) word := by
        by_contra hempty
        rw [(merge_start_eq_none_iff hletters).2 hempty] at hstart
        cases hstart
      have hmvalid := valid_minimalAutomaton hstart hletters
      have hmdet := isDeterministic_minimalAutomaton hstart hdet hletters
      refine ⟨a.minimalAutomaton letters, minimise_eq_ok hdet hletters hmvalid, hmdet, ?_, ?_, ?_, ?_,
        ?_⟩
      · apply accepted_eq_iff.2
        intro text
        exact recognises_start_minimalAutomaton hletters hdet hapart hstart _
      · intro q hq
        obtain ⟨word, hword⟩ := exists_word_minimalAutomaton hletters hdet hapart hstart hq
        exact exists_path_of_after hword
      · intro _ q hq
        exact (exists_recognised_iff hmdet).1 (exists_recognised hletters hdet hapart hstart hq)
      · exact fun h => absurd hlive h
      · intro hsymbols b hb _ haccepted
        exact length_minimalAutomaton_le hletters hdet hapart hstart hsymbols hb
          (accepted_eq_iff.1 haccepted)

/-- Two states that recognise the same words, a dead state after one of them, and a state
that cannot be reached. -/
def twins : Automaton where
  states := [⟨"p", true, true⟩, ⟨"q", false, false⟩, ⟨"r", false, false⟩, ⟨"d", false, false⟩,
    ⟨"u", false, false⟩]
  alphabet := [.text "a", .text "b"]
  transitions := [⟨"p", "q", .text "a"⟩, ⟨"p", "r", .text "b"⟩, ⟨"q", "p", .text "a"⟩,
    ⟨"r", "p", .text "a"⟩, ⟨"q", "d", .text "b"⟩, ⟨"d", "d", .text "a"⟩, ⟨"u", "p", .text "a"⟩]
  start := "p"
  accepting := ["p"]

/-- Its minimal automaton. -/
def twinsMerged : Automaton where
  states := [⟨"p", true, true⟩, ⟨"q_r", false, false⟩]
  alphabet := [.text "a", .text "b"]
  transitions := [⟨"p", "q_r", .text "a"⟩, ⟨"p", "q_r", .text "b"⟩, ⟨"q_r", "p", .text "a"⟩]
  start := "p"
  accepting := ["p"]

theorem minimise_smallest_twins :
    twins.Valid ∧ twins.isDeterministic ∧ (∀ v ∈ twins.alphabet, ∃ symbol, v = .atom symbol) ∧
      (∀ q ∈ twins.names, .char '_' ∉ q) ∧ twins.minimise = .ok twinsMerged ∧
      (∀ text, (twinsMerged.runDfa text .never).accepted = (twins.runDfa text .never).accepted) ∧
      ∀ b : Automaton, b.Valid → b.isDeterministic →
        (∀ text, (b.runDfa text .never).accepted = (twins.runDfa text .never).accepted) →
        2 ≤ b.states.length := by
  have hvalid : twins.Valid := by decide +kernel
  have hdet : twins.isDeterministic := by decide +kernel
  have hatoms : ∀ v ∈ twins.alphabet, ∃ symbol, v = .atom symbol :=
    List.forall_mem_cons.2 ⟨⟨.text "a", rfl⟩, List.forall_mem_singleton.2 ⟨.text "b", rfl⟩⟩
  have hnames : ∀ q ∈ twins.names, .char '_' ∉ q := by decide +kernel
  have hminimise : twins.minimise = .ok twinsMerged := by rfl
  have hletter : ∀ t ∈ twins.transitions, t.symbol = .text "a" ∨ t.symbol = .text "b" := by
    decide +kernel
  have hsymbols : ∀ t ∈ twins.transitions, ∃ c, t.symbol = symbolOf c := fun t ht =>
    (hletter t ht).elim (fun h => ⟨.char 'a', h⟩) (fun h => ⟨.char 'b', h⟩)
  obtain ⟨m, hm, _, haccepted, _, _, _, hfewest⟩ := minimise_smallest hvalid hdet hatoms hnames
  rw [hminimise, Except.ok.injEq] at hm
  subst hm
  exact ⟨hvalid, hdet, hatoms, hnames, hminimise, haccepted, hfewest hsymbols⟩

end FormalMachines.Finite.Automaton
