import FormalMachines.Finite.Transformation
import FormalMachines.Proofs.Finite.Canonical
import FormalMachines.Proofs.Finite.Document
import FormalMachines.Proofs.Finite.Places
import FormalMachines.Proofs.Finite.Simulation

/-!
# FormalMachines.Proofs.Finite.Chain

Chains of constructions keep the language.

Of the constructions only minimisation can go wrong, where it gives one name to states that
it does not merge.  It cannot if no state name holds the separator of merged names, nor if
no two states that recognise the same words are left to be merged (`Automaton.Separated`).
One of the two holds throughout a chain that starts without the separator
(`Automaton.Fit`): the subset construction puts no separator into names, and keeps states
separated; and minimisation leaves them separated.
-/

namespace FormalMachines.Finite

namespace Automaton

variable {a b : Automaton} {letters : List Atom} {p q : Text} {word : List Atom}

/-! ## Separated states -/

/-- Whether a word leads from the start to a state. -/
def Reachable (a : Automaton) (q : Text) : Prop := ∃ word, a.after (some a.start) word = some q

/-- Whether no two states that can be reached recognise the same words, unless they
recognise none. -/
def Separated (a : Automaton) : Prop :=
  ∀ p q, a.Reachable p → a.Reachable q → (∃ word, a.Recognises (some p) word) →
    a.SameWords (some p) (some q) → p = q

theorem Reachable.mem_reachable (hletters : a.letters .literal = .ok letters)
    (h : a.Reachable q) : q ∈ a.reachable letters := by
  obtain ⟨word, hword⟩ := h
  have hnode := after_mem_nodes hletters (a.start_mem_nodes letters) word
  rw [hword] at hnode
  obtain hnone | ⟨r, hr, heq⟩ := mem_nodes_iff.1 hnode
  · cases hnone
  · cases heq
    exact hr

theorem Reachable.mem_names (hvalid : a.Valid) (h : a.Reachable q) : q ∈ a.names := by
  obtain ⟨word, hword⟩ := h
  exact after_induct hvalid.2.1 (fun _ _ _ _ hnext => next?_mem_names hvalid hnext) hword

/-- States that are separated keep their names, so no two blocks get the same. -/
theorem namesApart_of_separated (hletters : a.letters .literal = .ok letters)
    (hseparated : a.Separated) : a.NamesApart letters := by
  apply namesApart_of_name hletters
  intro c hc q hq
  apply Block.name_eq
  intro p
  constructor
  · intro hp
    have hreach : ∀ {r}, some r ∈ c → a.Reachable r := fun hr =>
      exists_word_of_mem_reachable (mem_reachable_of_mem_survivors hletters hc hr)
    have hwords := (mem_block_iff_sameWords hletters (mem_survivors_iff.1 hc).1 hp
      (some_mem_nodes (mem_reachable_of_mem_survivors hletters hc hq))).1 hq
    exact hseparated p q (hreach hp) (hreach hq)
      (exists_recognised_of_mem_survivors hletters hc hp) hwords
  · rintro rfl
    exact hq

theorem separated_of_reduced (hletters : a.letters .literal = .ok letters)
    (h : a.Reduced letters) : a.Separated :=
  fun p q hp hq _ => h.apart p (hp.mem_reachable hletters) q (hq.mem_reachable hletters)

/-! ## Sets of one state -/

/-- Without choices each set that is found holds one state, which can be reached. -/
theorem eq_singleton_of_mem_subsets (hslots : a.slots.Nodup) {s : NameSet}
    (hs : s ∈ a.subsets .literal letters) : ∃ p, s = .ofList [p] ∧ a.Reachable p := by
  apply ((Worklist.mem_explore_iff (a.bounds_subsets .literal letters)).1 hs).induct
  · intro s hs
    exact ⟨a.start, List.mem_singleton.1 hs, [], rfl⟩
  · intro s t ⟨p, hsp, word, hword⟩ ht
    subst hsp
    obtain ⟨symbol, -, hmove⟩ := List.mem_filterMap.1 ht
    have hlabel := comparable_of_subsetMove hmove
    have hnext : ∀ q, q ∈ t ↔ a.next? p symbol = some q := by
      intro q
      rw [mem_of_subsetMove_literal hmove, mem_targetSet, ← mem_moves_iff_next? hslots]
      simp only [Atom.equals_iff_same hlabel, NameSet.mem_ofList, List.mem_singleton, mem_moves,
        and_assoc]
    obtain ⟨hne, ht⟩ := subsetMove_eq_some_iff.1 hmove
    obtain ⟨q, hq⟩ := List.exists_mem_of_ne_nil _ hne
    have hq' := (hnext q).1 ((mem_of_subsetMove_literal hmove).2 hq)
    refine ⟨q, NameSet.ext fun r => ?_, word ++ [symbol], ?_⟩
    · rw [hnext, hq', NameSet.mem_ofList, List.mem_singleton, Option.some.injEq, eq_comm]
    · rw [after_append, hword]
      exact hq'

/-- The subset construction keeps states separated. -/
theorem separated_subsetAutomaton {addDead : Bool} (hletters : a.letters .literal = .ok letters)
    (hvalid : (a.subsetAutomaton .literal letters addDead).Valid) (hbarren : a.Barren)
    (hslots : a.slots.Nodup) (hseparated : a.Separated) :
    (a.subsetAutomaton .literal letters addDead).Separated := by
  have hdslots := nodup_slots_subsetAutomaton hvalid hletters
  -- What a state that recognises a word is the name of.
  have hset : ∀ n, (a.subsetAutomaton .literal letters addDead).Reachable n →
      (∃ word, (a.subsetAutomaton .literal letters addDead).Recognises (some n) word) →
      ∃ p, n = (NameSet.ofList [p]).name ∧ a.Reachable p ∧ ∀ word,
        (a.subsetAutomaton .literal letters addDead).Recognises (some n) word ↔
          a.Recognises (some p) word := by
    intro n hn ⟨word, hword⟩
    have hmem := hn.mem_names hvalid
    obtain ⟨x, hx, rfl⟩ := mem_names_subsetAutomaton_iff.1 hmem
    have hyields : ∀ word, (a.subsetAutomaton .literal letters addDead).Recognises
        (some (placeName x)) word ↔ ∃ s, x = some s ∧ ∃ p ∈ s, a.Yields p word :=
      fun word => (recognises_iff_yields hdslots).trans
        (yields_placeName_iff hletters hvalid hbarren hx)
    obtain ⟨s, rfl, -⟩ := (hyields word).1 hword
    obtain ⟨s', hs, heq⟩ | ⟨hnone, -⟩ := mem_places_iff.1 hx
    · cases heq
      obtain ⟨p, rfl, hp⟩ := eq_singleton_of_mem_subsets hslots hs
      refine ⟨p, rfl, hp, fun word => (hyields word).trans ?_⟩
      rw [recognises_iff_yields hslots]
      simp only [Option.some.injEq, exists_eq_left', NameSet.mem_ofList, List.mem_singleton,
        exists_eq_left]
    · cases hnone
  intro m n hm hn hlive hsame
  obtain ⟨p, rfl, hp, hpwords⟩ := hset m hm hlive
  obtain ⟨word, hword⟩ := hlive
  obtain ⟨q, rfl, hq, hqwords⟩ := hset n hn ⟨word, (hsame word).1 hword⟩
  have hpq : p = q := hseparated p q hp hq ⟨word, (hpwords word).1 hword⟩
    fun w => (hpwords w).symm.trans ((hsame w).trans (hqwords w))
  rw [hpq]

/-! ## Names without the separator -/

/-- What a joined text holds stands in the separator or in a part. -/
theorem mem_join {separator : Text} {parts : List Text} {c : CodePoint}
    (h : c ∈ Text.join separator parts) : c ∈ separator ∨ ∃ x ∈ parts, c ∈ x := by
  induction parts with
  | nil => exact absurd h List.not_mem_nil
  | cons x parts ih =>
      cases parts with
      | nil =>
          rw [Text.join, List.intercalate_singleton] at h
          exact .inr ⟨x, List.mem_singleton_self x, h⟩
      | cons y rest =>
          rw [Text.join, List.intercalate_cons_cons, List.append_assoc, List.mem_append,
            List.mem_append] at h
          obtain h | h | h := h
          · exact .inr ⟨x, List.mem_cons_self, h⟩
          · exact .inl h
          · obtain h | ⟨z, hz, h⟩ := ih h
            · exact .inl h
            · exact .inr ⟨z, List.mem_cons_of_mem x hz, h⟩

/-- The sets that are found hold declared states. -/
theorem subsets_subset_names {mode : EpsilonMode} (hvalid : a.Valid) {s : NameSet}
    (hs : s ∈ a.subsets mode letters) (hq : q ∈ s) : q ∈ a.names := by
  have htargets : ∀ r, r ∈ a.transitions.map (·.target) → r ∈ a.names := by
    intro r hr
    obtain ⟨t, ht, rfl⟩ := List.mem_map.1 hr
    exact (hvalid.2.2.2 t ht).2
  have hall : ∀ q ∈ s, q ∈ a.names := by
    apply ((Worklist.mem_explore_iff (a.bounds_subsets mode letters)).1 hs).induct
      (P := fun s => ∀ q ∈ s, q ∈ a.names)
    · intro s hs q hq
      rw [List.mem_singleton.1 hs] at hq
      obtain hq | hq := mem_or_mem_targets_of_mem_close (NameSet.mem_ofList.1 hq)
      · exact List.mem_singleton.1 hq ▸ hvalid.2.1
      · exact htargets q hq
    · intro s t _ ht q hq
      obtain ⟨symbol, -, hmove⟩ := List.mem_filterMap.1 ht
      exact htargets q (mem_targets_of_subsetMove hmove hq)
  exact hall q hq

/-- The subset construction puts no separator of merged names into a name. -/
theorem plain_subsetAutomaton {mode : EpsilonMode} {addDead : Bool} (hvalid : a.Valid)
    (hplain : ∀ q ∈ a.names, .char '_' ∉ q) :
    ∀ q ∈ (a.subsetAutomaton mode letters addDead).names, .char '_' ∉ q := by
  intro n hn hseparator
  obtain ⟨x, hx, rfl⟩ := mem_names_subsetAutomaton_iff.1 hn
  obtain ⟨s, hs, rfl⟩ | ⟨rfl, -⟩ := mem_places_iff.1 hx
  · rw [placeName, NameSet.name, List.mem_append, List.mem_append] at hseparator
    obtain (h | h) | h := hseparator
    · revert h
      decide
    · obtain h | ⟨q, hq, h⟩ := mem_join h
      · revert h
        decide
      · exact hplain q (subsets_subset_names hvalid hs hq) h
    · revert h
      decide
  · revert hseparator
    decide

/-! ## What each construction keeps -/

/-- The labels of an automaton that was read are texts. -/
theorem barren_ofJson {definition : Json} (h : ofJson definition = .ok a) : a.Barren := by
  intro t ht hlabel
  obtain ⟨s, hs⟩ := text_of_ofJson h ht
  rw [hs] at hlabel
  cases hlabel

/-- What holds of an automaton throughout a chain of constructions. -/
structure Fit (a : Automaton) : Prop where
  consistent : a.Consistent
  atoms : ∀ v ∈ a.alphabet, ∃ symbol, v = .atom symbol
  barren : a.Barren
  names : (∀ q ∈ a.names, .char '_' ∉ q) ∨ a.slots.Nodup ∧ a.Separated

theorem atoms_of_alphabet_eq (h : a.alphabet = letters.map .atom) :
    ∀ v ∈ a.alphabet, ∃ symbol, v = .atom symbol := by
  intro v hv
  rw [h] at hv
  obtain ⟨symbol, -, rfl⟩ := List.mem_map.1 hv
  exact ⟨symbol, rfl⟩

theorem consistent_subsetAutomaton {mode : EpsilonMode} {addDead : Bool}
    (hvalid : (a.subsetAutomaton mode letters addDead).Valid) :
    (a.subsetAutomaton mode letters addDead).Consistent := by
  refine ⟨hvalid, ?_, ?_⟩
  · simp only [subsetAutomaton, names, List.map_map]
    rfl
  · exact (nodup_names_of_subsetAutomaton hvalid.1).sublist (List.filter_sublist.map _)

/-- **The subset construction** keeps an automaton fit and its language. -/
theorem Fit.determinise (ha : a.Fit) {epsilonMode : Json} {addDead : Bool}
    (hliteral : EpsilonMode.ofJson epsilonMode = .ok .literal)
    (h : a.determinise epsilonMode addDead = .ok b) : b.Fit ∧ SameYield b a := by
  obtain ⟨mode, letters, hmode, hletters, rfl, hvalid⟩ := determinise_eq_ok h
  obtain rfl : EpsilonMode.literal = mode := Except.ok.inj (hliteral.symm.trans hmode)
  refine ⟨⟨consistent_subsetAutomaton hvalid, atoms_of_alphabet_eq rfl,
    barren_subsetAutomaton hletters hvalid ha.barren, ?_⟩,
    sameYield_subsetAutomaton hletters hvalid ha.barren⟩
  obtain hplain | ⟨hslots, hseparated⟩ := ha.names
  · exact .inl (plain_subsetAutomaton ha.consistent.valid hplain)
  · exact .inr ⟨nodup_slots_subsetAutomaton hvalid hletters,
      separated_subsetAutomaton hletters hvalid ha.barren hslots hseparated⟩

theorem consistent_minimalAutomaton (hletters : a.letters .literal = .ok letters) :
    (a.minimalAutomaton letters).Consistent := by
  cases hstart : a.merge letters (some a.start) with
  | none =>
      rw [minimalAutomaton_eq_emptyLanguage hstart]
      refine ⟨valid_emptyLanguage a.start letters, ?_, List.nodup_nil⟩
      simp [emptyLanguage, Automaton.names]
  | some start =>
      refine ⟨valid_minimalAutomaton hstart hletters, states_minimalAutomaton hstart, ?_⟩
      rw [merge_some] at hstart
      simp only [minimalAutomaton, hstart]
      exact Distinct.nodup_eraseDups _

/-- A merged state recognises what its members do, so nothing stands behind a label where
nothing did. -/
theorem barren_minimalAutomaton (hletters : a.letters .literal = .ok letters)
    (hdet : a.isDeterministic) (hapart : a.NamesApart letters) (hbarren : a.Barren) :
    (a.minimalAutomaton letters).Barren := by
  intro t ht hlabel word hword
  cases hstart : a.merge letters (some a.start) with
  | none =>
      rw [minimalAutomaton_eq_emptyLanguage hstart] at ht
      exact List.not_mem_nil ht
  | some start =>
      obtain ⟨r, hr, letter, -, name, hname, rfl⟩ :=
        (mem_transitions_minimalAutomaton_iff hstart).1 ht
      obtain ⟨hreachable, -⟩ := merge_of_mem_representatives hr
      cases hnext : a.next? r.1 letter with
      | none =>
          rw [hnext, merge_none] at hname
          cases hname
      | some p =>
          rw [hnext] at hname
          obtain ⟨u, hu, -, hsame, rfl⟩ := exists_move_of_next? hnext
          have hnode : some u.target ∈ a.nodes letters := by
            rw [← hnext]
            exact successor_mem_nodes hletters (some_mem_nodes hreachable) letter
          have hmslots := nodup_slots (deterministic_minimalAutomaton hletters hdet)
          have hrecognised := (recognises_iff_yields hmslots).2 hword
          rw [← hname, recognises_merge_iff hletters hdet hapart hstart hnode,
            recognises_iff_yields (nodup_slots hdet)] at hrecognised
          exact hbarren u hu (hsame.trans hlabel) word hrecognised

/-- What a successful minimisation is. -/
theorem minimise_eq_ok_iff (hletters : a.letters .literal = .ok letters) :
    a.minimise = .ok b ↔ a.isDeterministic ∧ b = a.minimalAutomaton letters := by
  constructor
  · intro h
    have hdet : a.isDeterministic := by
      obtain ⟨hdet, -⟩ := of_throw_eq_ok h
      simpa using hdet
    rw [minimise_eq_minimalAutomaton hletters hdet] at h
    exact ⟨hdet, (Except.ok.inj h).symm⟩
  · intro ⟨hdet, hb⟩
    rw [hb, minimise_eq_minimalAutomaton hletters hdet]

/-- **Minimisation** keeps an automaton fit and its language. -/
theorem Fit.minimise (ha : a.Fit) (h : a.minimise = .ok b) : b.Fit ∧ SameYield b a := by
  obtain ⟨letters, hletters⟩ := exists_letters .literal ha.atoms
  obtain ⟨hdet, rfl⟩ := (minimise_eq_ok_iff hletters).1 h
  have hslots := nodup_slots hdet
  have hmslots := nodup_slots (deterministic_minimalAutomaton hletters hdet)
  have hapart : a.NamesApart letters := by
    obtain hplain | ⟨-, hseparated⟩ := ha.names
    · exact namesApart_of_plain hletters fun q hq =>
        hplain q (reachable_subset_names ha.consistent.valid hq)
    · exact namesApart_of_separated hletters hseparated
  have hseparated := separated_of_reduced (letters_minimalAutomaton hletters)
    (reduced_minimalAutomaton hletters hdet hapart)
  refine ⟨⟨consistent_minimalAutomaton hletters,
    atoms_of_alphabet_eq (a.alphabet_minimalAutomaton letters),
    barren_minimalAutomaton hletters hdet hapart ha.barren, .inr ⟨hmslots, hseparated⟩⟩, ?_⟩
  intro word
  rw [← recognises_iff_yields hmslots, ← recognises_iff_yields hslots]
  exact sameLanguage_minimalAutomaton hletters hdet hapart word

end Automaton

/-! ## Chains -/

namespace Transformation

/-- Whether a construction reads `ε` literally, if it looks at it. -/
def IsLiteral : Transformation → Prop
  | .determinise epsilonMode _ => EpsilonMode.ofJson epsilonMode = .ok .literal
  | .minimise => True
  | .rebuild => True

variable {a b : Automaton} {t : Transformation}

/-- **One construction** keeps an automaton fit and its language. -/
theorem fit_apply (ha : a.Fit) (ht : t.IsLiteral) (h : t.apply a = .ok b) :
    b.Fit ∧ Automaton.SameYield b a := by
  cases t with
  | determinise epsilonMode addDead => exact ha.determinise ht h
  | minimise => exact ha.minimise h
  | rebuild =>
      rw [Automaton.ofJson_toJson ha.consistent h]
      exact ⟨ha, Automaton.sameYield_rfl⟩

/-- A construction that fails changes nothing. -/
theorem fit_follow (ha : a.Fit) (ht : t.IsLiteral) :
    (follow a t).Fit ∧ Automaton.SameYield (follow a t) a := by
  unfold follow
  cases h : t.apply a with
  | error e => exact ⟨ha, Automaton.sameYield_rfl⟩
  | ok b => exact fit_apply ha ht h

/-- **A chain of constructions** keeps an automaton fit and its language. -/
theorem fit_followAll (ha : a.Fit) {chain : List Transformation}
    (hchain : ∀ t ∈ chain, t.IsLiteral) :
    (followAll a chain).Fit ∧ Automaton.SameYield (followAll a chain) a := by
  induction chain generalizing a with
  | nil => exact ⟨ha, Automaton.sameYield_rfl⟩
  | cons t chain ih =>
      obtain ⟨ht, hchain⟩ := List.forall_mem_cons.1 hchain
      obtain ⟨hfit, hsame⟩ := fit_follow ha ht
      obtain ⟨hfit', hsame'⟩ := ih hfit hchain
      exact ⟨hfit', hsame'.trans hsame⟩

/-- **Any chain of constructions keeps the language.**  Let an automaton be read from a
definition whose alphabet holds atoms and whose state names do not hold the separator of
merged names.  After each part of a chain of subset constructions with `ε` read literally,
with or without a dead state, of minimisations and of readings of the automaton's own
definition, of which those that fail change nothing, the run that the shape of the automaton
decides on accepts an input exactly if it did at first. -/
theorem followAll_keeps_language {definition : Json} {a : Automaton}
    (ha : Automaton.ofJson definition = .ok a)
    (hatoms : ∀ v ∈ a.alphabet, ∃ symbol, v = .atom symbol)
    (hnames : ∀ q ∈ a.names, .char '_' ∉ q) {chain : List Transformation}
    (hchain : ∀ t ∈ chain, t.IsLiteral) {front : List Transformation} (hfront : front <+: chain)
    (text : Text) :
    ∃ r r', a.simulate .null (.text "literal") text .never = .ok r ∧
      (followAll a front).simulate .null (.text "literal") text .never = .ok r' ∧
      r'.accepted = r.accepted := by
  have hfit : a.Fit :=
    ⟨Automaton.consistent_ofJson ha, hatoms, Automaton.barren_ofJson ha, .inl hnames⟩
  obtain ⟨-, hsame⟩ := fit_followAll hfit fun t ht => hchain t (hfront.subset ht)
  obtain ⟨r, hr, haccepted⟩ := a.simulate_automatic text
  obtain ⟨r', hr', haccepted'⟩ := (followAll a front).simulate_automatic text
  refine ⟨r, r', hr, hr', ?_⟩
  rw [Bool.eq_iff_iff, haccepted, haccepted']
  exact hsame _

/-- An automaton that guesses which `a` is the last. -/
def guesser : Automaton where
  states := [⟨"p", true, false⟩, ⟨"q", false, true⟩]
  alphabet := [.text "a", .text "b"]
  transitions := [⟨"p", "p", .text "a"⟩, ⟨"p", "p", .text "b"⟩, ⟨"p", "q", .text "a"⟩]
  start := "p"
  accepting := ["q"]

/-- The first minimisation fails, because the automaton is not yet deterministic. -/
theorem followAll_keeps_language_guesser :
    Automaton.ofJson guesser.toJson = .ok guesser ∧
      (∀ v ∈ guesser.alphabet, ∃ symbol, v = .atom symbol) ∧
      (∀ q ∈ guesser.names, .char '_' ∉ q) ∧
      (∀ t ∈ [minimise, determinise (.text "literal") true, minimise, rebuild], t.IsLiteral) ∧
      ∃ r, (followAll guesser [minimise, determinise (.text "literal") true, minimise, rebuild]).simulate
          .null (.text "literal") "ba" .never = .ok r ∧ r.accepted = true := by
  have hread : Automaton.ofJson guesser.toJson = .ok guesser := by rfl
  have hatoms : ∀ v ∈ guesser.alphabet, ∃ symbol, v = .atom symbol :=
    Automaton.atoms_of_alphabet_eq (show guesser.alphabet = [.text "a", .text "b"].map .atom from rfl)
  have hnames : ∀ q ∈ guesser.names, .char '_' ∉ q := by decide +kernel
  have hchain : ∀ t ∈ [minimise, determinise (.text "literal") true, minimise, rebuild],
      t.IsLiteral := by
    simp only [List.forall_mem_cons, IsLiteral, List.not_mem_nil]
    exact ⟨trivial, rfl, trivial, trivial, nofun⟩
  obtain ⟨r, r', hr, hr', hsame⟩ :=
    followAll_keeps_language hread hatoms hnames hchain (List.prefix_refl _) "ba"
  have haccepted : r.accepted = true := by
    have hrun : guesser.simulate .null (.text "literal") "ba" .never =
        .ok (guesser.runNfa .literal "ba" .never) := by rfl
    rw [← Except.ok.inj (hrun.symm.trans hr)]
    decide +kernel
  exact ⟨hread, hatoms, hnames, hchain, r', hr', hsame.trans haccepted⟩

end Transformation

end FormalMachines.Finite
