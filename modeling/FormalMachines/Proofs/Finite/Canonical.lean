import FormalMachines.Proofs.Finite.Listed
import FormalMachines.Proofs.Finite.Naming

/-!
# FormalMachines.Proofs.Finite.Canonical

The minimal automaton depends on the language alone.

Two automata that accept the same words over the same letters have the same minimal automaton,
down to the order of its states and moves, but for the names of states; and the minimal
automaton is its own, names included (`minimise_canonical`).

Both automata are reduced: no two states recognise the same words, and a move leads to a state
that recognises some (`Reduced`).  Then each state of one has a state of the other that
recognises what it does, moves correspond (`exists_name`), and so do the lists of what is
discovered from the start.
-/

namespace FormalMachines.Finite.Automaton

variable {a b : Automaton} {letters letters' : List Atom} {p q r start : Text} {x : Node}
  {s : Atom} {word u : List Atom}

/-! ## Words over the letters -/

/-- Words of the same symbols lead to the same node. -/
theorem after_congr (a : Automaton) (x : Node) (h : List.Forall₂ Atom.Same u word) :
    a.after x u = a.after x word := by
  induction h generalizing x with
  | nil => rfl
  | cons hsame _ ih =>
      rw [after_cons, after_cons, a.successor_congr x hsame]
      exact ih _

theorem recognises_congr (h : List.Forall₂ Atom.Same u word) :
    a.Recognises x u ↔ a.Recognises x word := by
  rw [Recognises, Recognises, a.after_congr x h]

/-- A word that is recognised is one over the letters, if each move has one. -/
theorem exists_spelling
    (hletter : ∀ q s p, a.next? q s = some p → ∃ letter ∈ letters, letter.Same s)
    (h : a.Recognises x word) :
    ∃ u, (∀ s ∈ u, s ∈ letters) ∧ List.Forall₂ Atom.Same u word := by
  induction word generalizing x with
  | nil => exact ⟨[], by simp, .nil⟩
  | cons s word ih =>
      rw [recognises_cons_iff] at h
      obtain ⟨u, hu, hsame⟩ := ih h
      cases hnext : a.successor x s with
      | none =>
          rw [hnext] at h
          exact absurd h (a.not_recognises_none word)
      | some p =>
          obtain ⟨q, _, hq⟩ := Option.bind_eq_some_iff.1 hnext
          obtain ⟨letter, hmem, hletter⟩ := hletter q s p hq
          exact ⟨letter :: u, List.forall_mem_cons.2 ⟨hmem, hu⟩, .cons hletter hsame⟩

/-- Whether two automata accept the same words. -/
def SameLanguage (a b : Automaton) : Prop :=
  ∀ word, a.Recognises (some a.start) word ↔ b.Recognises (some b.start) word

/-- Words over the letters are enough to tell languages apart. -/
theorem sameLanguage_of_letters (ha : a.letters .literal = .ok letters)
    (hb : b.letters .literal = .ok letters') (hkeys : letters'.map (·.key) = letters.map (·.key))
    (h : ∀ word, (∀ s ∈ word, s ∈ letters) →
      (a.Recognises (some a.start) word ↔ b.Recognises (some b.start) word)) :
    SameLanguage a b := by
  have hletter : ∀ q s p, b.next? q s = some p → ∃ letter ∈ letters, letter.Same s := by
    intro q s p hp
    obtain ⟨letter', hletter', hsame'⟩ := exists_letter_of_next? hb hp
    have hkey : letter'.key ∈ letters.map (·.key) := hkeys ▸ List.mem_map_of_mem hletter'
    obtain ⟨letter, hletter, hsame⟩ := List.mem_map.1 hkey
    exact ⟨letter, hletter, hsame.trans hsame'⟩
  intro word
  constructor
  · intro hword
    obtain ⟨u, hu, hsame⟩ := exists_spelling (fun _ _ _ hp => exists_letter_of_next? ha hp) hword
    exact (recognises_congr hsame).1 ((h u hu).1 ((recognises_congr hsame).2 hword))
  · intro hword
    obtain ⟨u, hu, hsame⟩ := exists_spelling hletter hword
    exact (recognises_congr hsame).1 ((h u hu).2 ((recognises_congr hsame).2 hword))

/-- Lists of the same letters differ in their spelling. -/
theorem exists_spell (hnodup : (letters.map (·.key)).Nodup)
    (hkeys : letters'.map (·.key) = letters.map (·.key)) :
    ∃ spell : Atom → Atom, letters' = letters.map spell ∧ ∀ s ∈ letters, (spell s).Same s := by
  induction letters generalizing letters' with
  | nil => exact ⟨id, List.map_eq_nil_iff.1 hkeys, fun _ hs => absurd hs List.not_mem_nil⟩
  | cons s letters ih =>
      obtain ⟨s', rest, rfl, hkey, hrest⟩ := List.map_eq_cons_iff.1 hkeys
      obtain ⟨hnew, hnodup⟩ := List.nodup_cons.1 hnodup
      obtain ⟨spell, hspell, hsame⟩ := ih hnodup hrest
      have hother : ∀ t ∈ letters, Function.update spell s s' t = spell t := by
        intro t ht
        exact Function.update_of_ne (fun heq => hnew (List.mem_map.2 ⟨t, ht, congrArg Atom.key heq⟩)) _ _
      refine ⟨Function.update spell s s', ?_, List.forall_mem_cons.2 ⟨?_, fun t ht => ?_⟩⟩
      · rw [List.map_cons, Function.update_self, List.map_congr_left hother, hspell]
      · rw [Function.update_self]
        exact hkey
      · rw [hother t ht]
        exact hsame t ht

/-! ## Reduced automata -/

/-- What holds of the start and is handed on by moves holds of all states that can be reached. -/
theorem reachable_induct {P : Text → Prop} (hstart : P a.start)
    (hnext : ∀ q ∈ a.reachable letters, P q → ∀ s ∈ letters, ∀ p, a.next? q s = some p → P p)
    (hq : q ∈ a.reachable letters) : P q := by
  have hbound := a.bounds_reachable letters
  have hboth : q ∈ a.reachable letters ∧ P q := by
    apply ((Worklist.mem_explore_iff hbound).1 hq).induct
      (P := fun q => q ∈ a.reachable letters ∧ P q)
    · intro q hq
      rw [List.mem_singleton.1 hq]
      exact ⟨a.start_mem_reachable letters, hstart⟩
    · intro q p ⟨hq, h⟩ hp
      refine ⟨Worklist.next_mem_explore hbound hq hp, ?_⟩
      obtain ⟨s, hs, hp⟩ := List.mem_filterMap.1 hp
      exact hnext q hq h s hs p hp
  exact hboth.2

/-- Whether no two states recognise the same words, and each move leads to a state that
recognises some. -/
structure Reduced (a : Automaton) (letters : List Atom) : Prop where
  live : ∀ q ∈ a.reachable letters, ∀ s p, a.next? q s = some p →
    ∃ word, a.Recognises (some p) word
  apart : ∀ p ∈ a.reachable letters, ∀ q ∈ a.reachable letters,
    a.SameWords (some p) (some q) → p = q

/-- Whether a state recognises the words that a state of another automaton does. -/
def Matches (a b : Automaton) (q r : Text) : Prop :=
  ∀ word, a.Recognises (some q) word ↔ b.Recognises (some r) word

theorem Matches.symm (h : Matches a b q r) : Matches b a r q := fun word => (h word).symm

theorem Matches.sameWords (hp : Matches a b p r) (hq : Matches a b q r) :
    a.SameWords (some p) (some q) := fun word => (hp word).trans (hq word).symm

theorem recognises_nil_iff : a.Recognises (some q) [] ↔ q ∈ a.accepting := by
  simp [Recognises]

/-- Moves to states that recognise words correspond. -/
theorem Matches.next (h : Matches a b q r) (hp : a.next? q s = some p)
    (hlive : ∃ word, a.Recognises (some p) word) :
    ∃ t, b.next? r s = some t ∧ Matches a b p t := by
  have hsuccessor : ∀ word, a.Recognises (some p) word ↔ b.Recognises (b.next? r s) word := by
    intro word
    have hword := h (s :: word)
    rw [recognises_cons_iff, recognises_cons_iff, successor_some, successor_some, hp] at hword
    exact hword
  cases ht : b.next? r s with
  | none =>
      obtain ⟨word, hword⟩ := hlive
      have hnone := (hsuccessor word).1 hword
      rw [ht] at hnone
      exact absurd hnone (b.not_recognises_none word)
  | some t =>
      rw [ht] at hsuccessor
      exact ⟨t, rfl, hsuccessor⟩

section Reduced

variable (hared : a.Reduced letters) (hbred : b.Reduced letters')
  (haletters : a.letters .literal = .ok letters) (hbletters : b.letters .literal = .ok letters')
  (hsame : SameLanguage a b)

include hared hbletters hsame in
/-- Each state has one that recognises what it does. -/
theorem exists_matches (hq : q ∈ a.reachable letters) :
    ∃ r ∈ b.reachable letters', Matches a b q r := by
  apply reachable_induct (P := fun q => ∃ r ∈ b.reachable letters', Matches a b q r) _ _ hq
  · exact ⟨b.start, b.start_mem_reachable letters', hsame⟩
  · intro q hq ⟨r, hr, hmatches⟩ s _ p hp
    obtain ⟨t, ht, hmatches⟩ := hmatches.next hp (hared.live q hq s p hp)
    exact ⟨t, next?_mem_reachable hbletters hr ht, hmatches⟩

include hared hbred haletters hbletters hsame in
/-- **States and moves** of reduced automata with the same language correspond. -/
theorem exists_name {spell : Atom → Atom} (hspell : ∀ s ∈ letters, (spell s).Same s) :
    ∃ name : Text → Text, b.start = name a.start ∧
      (∀ q ∈ a.reachable letters, ∀ s ∈ letters,
        b.next? (name q) (spell s) = (a.next? q s).map name) ∧
      (∀ p ∈ a.reachable letters, ∀ q ∈ a.reachable letters, name p = name q → p = q) ∧
      ∀ q ∈ a.reachable letters, name q ∈ b.accepting ↔ q ∈ a.accepting := by
  have hexists : ∀ q, q ∈ a.reachable letters → ∃ r ∈ b.reachable letters', Matches a b q r :=
    fun _ hq => exists_matches hared hbletters hsame hq
  choose! name hname hmatches using hexists
  have hunique : ∀ {q r}, q ∈ a.reachable letters → r ∈ b.reachable letters' →
      Matches a b q r → r = name q := by
    intro q r hq hr h
    exact hbred.apart r hr _ (hname q hq) (h.symm.sameWords (hmatches q hq).symm)
  refine ⟨name, ?_, fun q hq s hs => ?_, fun p hp q hq heq => ?_, fun q hq => ?_⟩
  · exact hunique (a.start_mem_reachable letters) (b.start_mem_reachable letters') hsame
  · rw [b.next?_congr (name q) (hspell s hs)]
    cases hp : a.next? q s with
    | none =>
        rw [Option.map_none, Option.eq_none_iff_forall_ne_some]
        intro t ht
        -- the other state would move to one that recognises a word
        obtain ⟨p, hp', _⟩ := (hmatches q hq).symm.next ht (hbred.live _ (hname q hq) s t ht)
        rw [hp] at hp'
        cases hp'
    | some p =>
        obtain ⟨t, ht, h⟩ := (hmatches q hq).next hp (hared.live q hq s p hp)
        have hpreach := next?_mem_reachable haletters hq hp
        have htreach := next?_mem_reachable hbletters (hname q hq) ht
        rw [ht, hunique hpreach htreach h, Option.map_some]
  · have hq' := hmatches q hq
    rw [← heq] at hq'
    exact hared.apart p hp q hq ((hmatches p hp).sameWords hq')
  · rw [← recognises_nil_iff, ← recognises_nil_iff]
    exact ((hmatches q hq) []).symm

end Reduced

/-! ## The minimal automaton -/

section Minimal

variable (hletters : a.letters .literal = .ok letters) (hdet : a.isDeterministic)

include hletters in
/-- The minimal automaton has the letters that it was made over. -/
theorem letters_minimalAutomaton : (a.minimalAutomaton letters).letters .literal = .ok letters := by
  apply letters_eq (a.alphabet_minimalAutomaton letters) (nodup_keys_letters hletters)
  intro t ht
  cases hstart : a.merge letters (some a.start) with
  | none =>
      rw [minimalAutomaton_eq_emptyLanguage hstart] at ht
      exact absurd ht List.not_mem_nil
  | some start =>
      obtain ⟨_, _, letter, hletter, _, _, rfl⟩ :=
        (mem_transitions_minimalAutomaton_iff hstart).1 ht
      exact hletter

include hletters hdet in
theorem minimise_eq_minimalAutomaton : a.minimise = .ok (a.minimalAutomaton letters) := by
  apply minimise_eq_ok hdet hletters
  cases hstart : a.merge letters (some a.start) with
  | none =>
      rw [minimalAutomaton_eq_emptyLanguage hstart]
      exact valid_emptyLanguage a.start letters
  | some start => exact valid_minimalAutomaton hstart hletters

include hletters hdet in
theorem deterministic_minimalAutomaton : (a.minimalAutomaton letters).isDeterministic := by
  cases hstart : a.merge letters (some a.start) with
  | none =>
      rw [minimalAutomaton_eq_emptyLanguage hstart]
      exact isDeterministic_emptyLanguage a.start letters
  | some start => exact isDeterministic_minimalAutomaton hstart hdet hletters

variable (hapart : a.NamesApart letters)

include hletters hdet hapart

theorem sameLanguage_minimalAutomaton : SameLanguage (a.minimalAutomaton letters) a := by
  cases hstart : a.merge letters (some a.start) with
  | none =>
      have hempty := (merge_start_eq_none_iff hletters).1 hstart
      rw [minimalAutomaton_eq_emptyLanguage hstart]
      exact fun word => iff_of_false (not_recognises_emptyLanguage _ _ _ word)
        (not_exists.1 hempty word)
  | some start => exact recognises_start_minimalAutomaton hletters hdet hapart hstart

theorem reduced_minimalAutomaton : (a.minimalAutomaton letters).Reduced letters := by
  cases hstart : a.merge letters (some a.start) with
  | none =>
      rw [minimalAutomaton_eq_emptyLanguage hstart]
      constructor
      · intro q _ s p hp
        rw [next?_emptyLanguage] at hp
        cases hp
      · intro p hp q hq _
        rw [reachable_emptyLanguage, List.mem_singleton] at hp hq
        rw [hp, hq]
  | some start =>
      have hvalid := valid_minimalAutomaton hstart hletters
      have hreachable := reachable_minimalAutomaton hletters hdet hapart hstart
      constructor
      · intro q _ s p hp
        exact exists_recognised hletters hdet hapart hstart (next?_mem_names hvalid hp)
      · intro p hp q hq
        rw [hreachable] at hp hq
        exact eq_of_sameWords hletters hdet hapart hstart hp hq

end Minimal

/-! ## Minimising twice -/

section Twice

variable (hletters : a.letters .literal = .ok letters) (hred : a.Reduced letters)

include hletters hred

/-- In a reduced automaton a block that survives has one state and its name. -/
theorem name_of_mem_survivors {c : Block} (hc : c ∈ a.survivors letters) (hq : some q ∈ c) :
    c.name = q := by
  have hqreach := mem_reachable_of_mem_survivors hletters hc hq
  apply Block.name_eq
  intro p
  constructor
  · intro hp
    have hpreach := mem_reachable_of_mem_survivors hletters hc hp
    have hwords := (mem_block_iff_sameWords hletters (mem_survivors_iff.1 hc).1 hp
      (some_mem_nodes hqreach)).1 hq
    exact hred.apart p hpreach q hqreach hwords
  · rintro rfl
    exact hq

theorem namesApart_of_reduced : a.NamesApart letters :=
  namesApart_of_name hletters fun _ hc _ hq => name_of_mem_survivors hletters hred hc hq

/-- A state that recognises a word keeps its name. -/
theorem merge_of_reduced (hq : q ∈ a.reachable letters) (hlive : ∃ word, a.Recognises (some q) word) :
    a.merge letters (some q) = some q := by
  cases hmerge : a.merge letters (some q) with
  | none =>
      obtain ⟨word, hword⟩ := hlive
      have hdead := ((merge_eq_none_iff hletters (some_mem_nodes hq)).1 hmerge word).1 hword
      exact absurd hdead (a.not_recognises_none word)
  | some name =>
      obtain ⟨c, hc, hqc, hname⟩ := exists_survivor hletters hq hmerge
      rw [← hname, name_of_mem_survivors hletters hred hc hqc]

/-- **A reduced automaton** that accepts a word is only listed by its minimal automaton. -/
theorem minimalAutomaton_of_reduced (hdet : a.isDeterministic)
    (hlive : ∃ word, a.Recognises (some a.start) word) :
    a.minimalAutomaton letters = a.listed letters := by
  have hapart := namesApart_of_reduced hletters hred
  have hlives : ∀ q ∈ a.reachable letters, ∃ word, a.Recognises (some q) word := fun _ hq =>
    reachable_induct hlive (fun q hq _ s _ p hp => hred.live q hq s p hp) hq
  have hmerge : ∀ q ∈ a.reachable letters, a.merge letters (some q) = some q :=
    fun q hq => merge_of_reduced hletters hred hq (hlives q hq)
  have hstart := hmerge a.start (a.start_mem_reachable letters)
  have hnext : ∀ q ∈ a.reachable letters, ∀ s ∈ letters,
      (a.minimalAutomaton letters).next? (id q) (id s) = (a.next? q s).map id := by
    intro q hq s _
    rw [id, id, next?_minimalAutomaton hletters hdet hapart hstart hq (hmerge q hq) s]
    cases hp : a.next? q s with
    | none => rfl
    | some p => exact hmerge p (next?_mem_reachable hletters hq hp)
  have hlisted := listed_rename (start_minimalAutomaton hstart) hnext (fun _ _ _ _ h => h)
    fun q hq => mem_accepting_minimalAutomaton hletters hdet hapart hstart hq (hmerge q hq)
  rw [List.map_id, listed_minimalAutomaton hletters hdet hapart, rename_id] at hlisted
  exact hlisted

end Twice

/-- The minimal automaton is its own. -/
theorem minimalAutomaton_minimalAutomaton (hletters : a.letters .literal = .ok letters)
    (hdet : a.isDeterministic) (hapart : a.NamesApart letters) :
    (a.minimalAutomaton letters).minimalAutomaton letters = a.minimalAutomaton letters := by
  have hmletters := letters_minimalAutomaton hletters
  by_cases hlive : ∃ word,
      (a.minimalAutomaton letters).Recognises (some (a.minimalAutomaton letters).start) word
  · have hred := reduced_minimalAutomaton hletters hdet hapart
    have hmdet := deterministic_minimalAutomaton hletters hdet
    rw [minimalAutomaton_of_reduced hmletters hred hmdet hlive]
    exact listed_minimalAutomaton hletters hdet hapart
  · have hsame := sameLanguage_minimalAutomaton hletters hdet hapart
    have hempty : ¬ ∃ word, a.Recognises (some a.start) word :=
      fun ⟨word, hword⟩ => hlive ⟨word, (hsame word).2 hword⟩
    rw [minimalAutomaton_eq_emptyLanguage ((merge_start_eq_none_iff hmletters).2 hlive),
      minimalAutomaton_eq_emptyLanguage ((merge_start_eq_none_iff hletters).2 hempty)]
    rfl

/-! ## Canonical forms -/

/-- The states of the minimal automaton are those that can be reached in it. -/
theorem names_eq_reachable (hletters : a.letters .literal = .ok letters) (hdet : a.isDeterministic)
    (hapart : a.NamesApart letters) :
    (a.minimalAutomaton letters).names = (a.minimalAutomaton letters).reachable letters := by
  have hlisted := congrArg names (listed_minimalAutomaton hletters hdet hapart)
  rw [← hlisted, names, listed, List.map_map]
  exact List.map_id _

/-- **Minimisation** of two deterministic automata, of which the letters are the same symbols in
the same order and no state name holds the separator of merged names.  If they accept the same
words over the letters, the results are the same but for the names of states and the spelling
of letters, which is that of the letters of either: the same list of states with the same
flags, the same alphabet, the same list of moves, the same start and the same list of accepting
states.  Minimising a result again changes nothing. -/
theorem minimise_canonical (ha : a.Valid) (hb : b.Valid) (hadet : a.isDeterministic)
    (hbdet : b.isDeterministic) (hanames : ∀ q ∈ a.names, .char '_' ∉ q)
    (hbnames : ∀ q ∈ b.names, .char '_' ∉ q) (haletters : a.letters .literal = .ok letters)
    (hbletters : b.letters .literal = .ok letters')
    (hkeys : letters'.map (·.key) = letters.map (·.key))
    (hsame : ∀ word, (∀ s ∈ word, s ∈ letters) →
      (a.Recognises (some a.start) word ↔ b.Recognises (some b.start) word)) :
    ∃ m n, a.minimise = .ok m ∧ b.minimise = .ok n ∧
      (∃ (name : Text → Text) (spell : Atom → Atom), n = m.rename name spell ∧
        (∀ p ∈ m.names, ∀ q ∈ m.names, name p = name q → p = q) ∧
        letters' = letters.map spell ∧ ∀ s ∈ letters, (spell s).Same s) ∧
      m.minimise = .ok m := by
  have haapart : a.NamesApart letters :=
    namesApart_of_plain haletters fun q hq => hanames q (reachable_subset_names ha hq)
  have hbapart : b.NamesApart letters' :=
    namesApart_of_plain hbletters fun q hq => hbnames q (reachable_subset_names hb hq)
  have hmletters := letters_minimalAutomaton haletters
  have hlanguage : SameLanguage (a.minimalAutomaton letters) (b.minimalAutomaton letters') := by
    intro word
    rw [sameLanguage_minimalAutomaton haletters hadet haapart word,
      sameLanguage_minimalAutomaton hbletters hbdet hbapart word]
    exact sameLanguage_of_letters haletters hbletters hkeys hsame word
  obtain ⟨spell, hspelled, hspell⟩ := exists_spell (nodup_keys_letters haletters) hkeys
  obtain ⟨name, hstart, hnext, hinj, haccepting⟩ :=
    exists_name (reduced_minimalAutomaton haletters hadet haapart)
      (reduced_minimalAutomaton hbletters hbdet hbapart) hmletters
      (letters_minimalAutomaton hbletters) hlanguage hspell
  have hlisted := listed_rename hstart hnext hinj haccepting
  rw [← hspelled, listed_minimalAutomaton hbletters hbdet hbapart,
    listed_minimalAutomaton haletters hadet haapart] at hlisted
  refine ⟨a.minimalAutomaton letters, b.minimalAutomaton letters',
    minimise_eq_minimalAutomaton haletters hadet, minimise_eq_minimalAutomaton hbletters hbdet,
    ⟨name, spell, hlisted, ?_, hspelled, hspell⟩, ?_⟩
  · rw [names_eq_reachable haletters hadet haapart]
    exact hinj
  · rw [minimise_eq_minimalAutomaton hmletters (deterministic_minimalAutomaton haletters hadet),
      minimalAutomaton_minimalAutomaton haletters hadet haapart]

/-- Related nodes recognise the same words over the letters, if letters lead from related nodes
to related ones and related nodes accept alike. -/
theorem recognises_iff_of_related {related : List (Node × Node)}
    (hstep : ∀ x ∈ related, ∀ s ∈ letters, (a.successor x.1 s, b.successor x.2 s) ∈ related)
    (haccept : ∀ x ∈ related, (∃ q ∈ a.accepting, x.1 = some q) ↔ ∃ q ∈ b.accepting, x.2 = some q)
    {y : Node} (hxy : (x, y) ∈ related) (hword : ∀ s ∈ word, s ∈ letters) :
    a.Recognises x word ↔ b.Recognises y word := by
  induction word generalizing x y with
  | nil => exact haccept (x, y) hxy
  | cons s word ih =>
      obtain ⟨hs, hword⟩ := List.forall_mem_cons.1 hword
      exact ih (hstep (x, y) hxy s hs) hword

/-- Two states that an `a` switches between. -/
def switch : Automaton where
  states := [⟨"p", true, true⟩, ⟨"q", false, false⟩]
  alphabet := [.text "a", .text "b"]
  transitions := [⟨"p", "q", .text "a"⟩, ⟨"q", "p", .text "a"⟩]
  start := "p"
  accepting := ["p"]

/-- Four states that an `a` goes round, and a dead one. -/
def wheel : Automaton where
  states := [⟨"d", false, false⟩, ⟨"z", false, false⟩, ⟨"y", false, true⟩, ⟨"x", false, false⟩,
    ⟨"w", true, true⟩]
  alphabet := [.text "a"]
  transitions := [⟨"z", "w", .text "a"⟩, ⟨"x", "d", .text "b"⟩, ⟨"d", "d", .text "a"⟩,
    ⟨"y", "z", .text "a"⟩, ⟨"x", "y", .text "a"⟩, ⟨"w", "x", .text "a"⟩]
  start := "w"
  accepting := ["y", "w"]

/-- Both accept an even number of `a`, and their minimal automata are the same but for names. -/
theorem minimise_canonical_switch :
    ∃ m n, switch.minimise = .ok m ∧ wheel.minimise = .ok n ∧ m.names = ["p", "q"] ∧
      n.names = ["w_y", "x_z"] ∧ (∃ name spell, n = m.rename name spell) ∧ m.minimise = .ok m := by
  have hletters : switch.letters .literal = .ok [.text "a", .text "b"] := by rfl
  have hletters' : wheel.letters .literal = .ok [.text "a", .text "b"] := by rfl
  have hvalid : switch.Valid := by decide +kernel
  have hvalid' : wheel.Valid := by decide +kernel
  have hdet : switch.isDeterministic := by decide +kernel
  have hdet' : wheel.isDeterministic := by decide +kernel
  have hnames : ∀ q ∈ switch.names, .char '_' ∉ q := by decide +kernel
  have hnames' : ∀ q ∈ wheel.names, .char '_' ∉ q := by decide +kernel
  have hsame : ∀ word, (∀ s ∈ word, s ∈ [Atom.text "a", .text "b"]) →
      (switch.Recognises (some switch.start) word ↔ wheel.Recognises (some wheel.start) word) := by
    intro word hword
    let related : List (Node × Node) := [(some "p", some "w"), (some "q", some "x"),
      (some "p", some "y"), (some "q", some "z"), (none, some "d"), (none, none)]
    have hstep : ∀ x ∈ related, ∀ s ∈ [Atom.text "a", .text "b"],
        (switch.successor x.1 s, wheel.successor x.2 s) ∈ related := by
      decide +kernel
    have haccept : ∀ x ∈ related,
        (∃ q ∈ switch.accepting, x.1 = some q) ↔ ∃ q ∈ wheel.accepting, x.2 = some q := by
      decide +kernel
    exact recognises_iff_of_related hstep haccept (by decide +kernel) hword
  obtain ⟨m, n, hm, hn, ⟨name, spell, hrename, _⟩, hagain⟩ := minimise_canonical hvalid hvalid' hdet
    hdet' hnames hnames' hletters hletters' rfl hsame
  have hmnames : switch.minimise.map names = .ok ["p", "q"] := by rfl
  have hnnames : wheel.minimise.map names = .ok ["w_y", "x_z"] := by rfl
  rw [hm] at hmnames
  rw [hn] at hnnames
  exact ⟨m, n, hm, hn, Except.ok.inj hmnames, Except.ok.inj hnnames, ⟨name, spell, hrename⟩, hagain⟩

end FormalMachines.Finite.Automaton
