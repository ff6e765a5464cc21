import FormalMachines.Proofs.Finite.Classes

/-!
# FormalMachines.Proofs.Finite.Merged

The minimal automaton runs as the given one does, on merged nodes.

Its states are the merged names and its moves those of the representatives.  Because the
members of a merged state recognise the same words, it does not matter which of them is
the representative: a merged state moves to where any of its members goes
(`next?_minimalAutomaton`), and recognises what they do (`recognises_merge_iff`).

All this is about an automaton whose start state is not merged with the sink.
-/

namespace FormalMachines.Finite

namespace Automaton

variable {a : Automaton} {letters : List Atom} {q start name : Text} {x y : Node} {s : Atom}

/-! ## Representatives -/

/-- A representative is a state with its merged name. -/
theorem merge_of_mem_representatives {r : Text × Text}
    (h : r ∈ representatives (a.reachable letters) (a.blocks letters)) :
    r.1 ∈ a.reachable letters ∧ a.merge letters (some r.1) = some r.2 := by
  obtain ⟨q, hq, hr⟩ := List.mem_filterMap.1 (Distinct.mem_of_mem_eraseDupsBy Prod.snd h)
  obtain ⟨n, hn, heq⟩ := Option.map_eq_some_iff.1 hr
  subst heq
  rw [merge_some]
  exact ⟨hq, hn⟩

/-- Each merged name has a representative. -/
theorem exists_representative (hq : q ∈ a.reachable letters)
    (h : a.merge letters (some q) = some name) :
    ∃ r ∈ representatives (a.reachable letters) (a.blocks letters), r.2 = name := by
  have hmem : (q, name) ∈ (a.reachable letters).filterMap fun q =>
      (mergedName? (a.blocks letters) q).map (q, ·) := by
    rw [merge_some] at h
    exact List.mem_filterMap.2 ⟨q, hq, by rw [h, Option.map_some]⟩
  exact Distinct.exists_mem_eraseDupsBy Prod.snd hmem

/-- No merged name has two. -/
theorem nodup_names_representatives (states : List Text) (blocks : List Block) :
    ((representatives states blocks).map (·.2)).Nodup :=
  Distinct.nodup_map_eraseDupsBy Prod.snd _

theorem mergedMoves_eq (a : Automaton) (letters : List Atom) (r : Text × Text) :
    a.mergedMoves letters (a.blocks letters) r =
      letters.filterMap fun symbol =>
        (a.merge letters (a.next? r.1 symbol)).map fun name => ⟨r.2, name, symbol⟩ := by
  apply List.filterMap_congr
  intro symbol _
  cases hnext : a.next? r.1 symbol with
  | none => rfl
  | some p => cases hname : mergedName? (a.blocks letters) p <;> simp [merge, hname]

/-! ## The parts of the minimal automaton -/

section Parts

variable (hstart : a.merge letters (some a.start) = some start)

include hstart

theorem start_minimalAutomaton : (a.minimalAutomaton letters).start = start := by
  rw [merge_some] at hstart
  simp only [minimalAutomaton, hstart]

theorem names_minimalAutomaton : (a.minimalAutomaton letters).names =
    (representatives (a.reachable letters) (a.blocks letters)).map (·.2) := by
  rw [merge_some] at hstart
  simp [minimalAutomaton, hstart, names]

/-- The states are the names that states are merged to. -/
theorem mem_names_minimalAutomaton_iff : name ∈ (a.minimalAutomaton letters).names ↔
    ∃ q ∈ a.reachable letters, a.merge letters (some q) = some name := by
  rw [names_minimalAutomaton hstart, List.mem_map]
  constructor
  · intro ⟨r, hr, hname⟩
    obtain ⟨hq, hmerge⟩ := merge_of_mem_representatives hr
    exact ⟨r.1, hq, hname ▸ hmerge⟩
  · intro ⟨q, hq, hmerge⟩
    exact exists_representative hq hmerge

theorem mem_accepting_minimalAutomaton_iff : name ∈ (a.minimalAutomaton letters).accepting ↔
    ∃ q ∈ a.reachable letters, q ∈ a.accepting ∧ a.merge letters (some q) = some name := by
  rw [merge_some] at hstart
  simp [minimalAutomaton, hstart, merge, and_assoc]

theorem transitions_minimalAutomaton : (a.minimalAutomaton letters).transitions =
    (representatives (a.reachable letters) (a.blocks letters)).flatMap fun r =>
      letters.filterMap fun symbol =>
        (a.merge letters (a.next? r.1 symbol)).map fun name => ⟨r.2, name, symbol⟩ := by
  rw [merge_some] at hstart
  simp only [minimalAutomaton, hstart]
  exact congrArg (List.flatMap · _) (funext fun r => a.mergedMoves_eq letters r)

/-- The moves are those of the representatives, between merged names. -/
theorem mem_transitions_minimalAutomaton_iff {t : Transition} :
    t ∈ (a.minimalAutomaton letters).transitions ↔
      ∃ r ∈ representatives (a.reachable letters) (a.blocks letters), ∃ letter ∈ letters, ∃ name,
        a.merge letters (a.next? r.1 letter) = some name ∧ t = ⟨r.2, name, letter⟩ := by
  rw [transitions_minimalAutomaton hstart]
  simp only [List.mem_flatMap, List.mem_filterMap, Option.map_eq_some_iff, @eq_comm _ t]

/-- A move of the minimal automaton reads a letter that a move of the given one reads. -/
theorem exists_same_of_mem_minimalAutomaton {t : Transition}
    (ht : t ∈ (a.minimalAutomaton letters).transitions) :
    ∃ u ∈ a.transitions, u.symbol.Same t.symbol := by
  obtain ⟨r, _, letter, _, name, hname, heq⟩ := (mem_transitions_minimalAutomaton_iff hstart).1 ht
  rw [heq]
  cases hnext : a.next? r.1 letter with
  | none =>
      rw [hnext, merge_none] at hname
      cases hname
  | some p =>
      obtain ⟨u, hu, _, hsame, _⟩ := exists_move_of_next? hnext
      exact ⟨u, hu, hsame⟩

/-- The minimal automaton leaves no choice. -/
theorem isDeterministic_minimalAutomaton (hdet : a.isDeterministic)
    (hletters : a.letters .literal = .ok letters) :
    (a.minimalAutomaton letters).isDeterministic := by
  simp only [isDeterministic, Bool.and_eq_true, decide_eq_true_eq, List.all_eq_true] at hdet ⊢
  constructor
  · intro t ht
    obtain ⟨u, hu, hsame⟩ := exists_same_of_mem_minimalAutomaton hstart ht
    have hnot := hdet.1 u hu
    rw [Transition.isEpsilon]
    by_cases hepsilon : t.symbol = .text epsilon
    · rw [hepsilon] at hsame
      simp [Transition.isEpsilon, Atom.key_eq_text_iff.1 hsame] at hnot
    · simp [hepsilon]
  · rw [slots, transitions_minimalAutomaton hstart]
    exact nodup_slots_flatMap (nodup_names_representatives _ _) (nodup_keys_letters hletters)

theorem valid_minimalAutomaton (hletters : a.letters .literal = .ok letters) :
    (a.minimalAutomaton letters).Valid := by
  refine ⟨?_, ?_, ?_, ?_⟩
  · rw [names_minimalAutomaton hstart]
    exact nodup_names_representatives _ _
  · rw [start_minimalAutomaton hstart, mem_names_minimalAutomaton_iff hstart]
    exact ⟨a.start, a.start_mem_reachable letters, hstart⟩
  · intro name hname
    obtain ⟨q, hq, _, hmerge⟩ := (mem_accepting_minimalAutomaton_iff hstart).1 hname
    exact (mem_names_minimalAutomaton_iff hstart).2 ⟨q, hq, hmerge⟩
  · intro t ht
    obtain ⟨r, hr, letter, _, name, hname, heq⟩ := (mem_transitions_minimalAutomaton_iff hstart).1 ht
    obtain ⟨hreachable, hmerge⟩ := merge_of_mem_representatives hr
    rw [heq]
    constructor
    · exact (mem_names_minimalAutomaton_iff hstart).2 ⟨r.1, hreachable, hmerge⟩
    · obtain ⟨p, hp, hpname⟩ := Option.bind_eq_some_iff.1 hname
      exact (mem_names_minimalAutomaton_iff hstart).2
        ⟨p, next?_mem_reachable hletters hreachable hp, (a.merge_some letters p).trans hpname⟩

end Parts

/-! ## Runs on merged nodes -/

section Runs

variable (hletters : a.letters .literal = .ok letters) (hdet : a.isDeterministic)
  (hapart : a.NamesApart letters)
  (hstart : a.merge letters (some a.start) = some start)

include hletters hdet hapart hstart

/-- A merged state moves to where any of its members goes. -/
theorem next?_minimalAutomaton (hq : q ∈ a.reachable letters)
    (hname : a.merge letters (some q) = some name) (s : Atom) :
    (a.minimalAutomaton letters).next? name s = a.merge letters (a.next? q s) := by
  have hmoves : ∀ {p}, p ∈ a.reachable letters → a.merge letters (some p) = some name →
      ∀ r, a.merge letters (a.next? p r) = a.merge letters (a.next? q r) := by
    intro p hp hpname r
    have h := merge_successor_congr hletters hapart (some_mem_nodes hp) (some_mem_nodes hq)
      (hpname.trans hname.symm) r
    rw [successor_some, successor_some] at h
    exact h
  apply Option.ext
  intro target
  constructor
  · intro h
    obtain ⟨t, ht, hsource, hsame, htarget⟩ := exists_move_of_next? h
    obtain ⟨r, hr, letter, _, other, hother, heq⟩ :=
      (mem_transitions_minimalAutomaton_iff hstart).1 ht
    obtain ⟨hreachable, hmerge⟩ := merge_of_mem_representatives hr
    subst heq
    rw [← a.next?_congr q hsame, ← hmoves hreachable (hsource ▸ hmerge), hother]
    exact congrArg some htarget
  · intro h
    obtain ⟨p, hp, _⟩ := Option.bind_eq_some_iff.1 h
    obtain ⟨letter, hletter, hsame⟩ := exists_letter_of_next? hletters hp
    obtain ⟨r, hr, hrname⟩ := exists_representative hq hname
    obtain ⟨hreachable, hmerge⟩ := merge_of_mem_representatives hr
    rw [← a.next?_congr q hsame, ← hmoves hreachable (hrname ▸ hmerge)] at h
    have ht := (mem_transitions_minimalAutomaton_iff hstart).2 ⟨r, hr, letter, hletter, _, h, rfl⟩
    have hmove := next?_of_mem (isDeterministic_minimalAutomaton hstart hdet hletters) ht hsame
    rw [← hrname]
    exact hmove

theorem successor_merge (hx : x ∈ a.nodes letters) (s : Atom) :
    (a.minimalAutomaton letters).successor (a.merge letters x) s =
      a.merge letters (a.successor x s) := by
  have hsink := a.none_mem_nodes letters
  cases hmerge : a.merge letters x with
  | none =>
      have h := merge_successor_congr hletters hapart hx hsink hmerge s
      rw [successor_none, merge_none] at h
      rw [successor_none, h]
  | some name =>
      obtain hx | ⟨q, hq, hx⟩ := mem_nodes_iff.1 hx
      · rw [hx] at hmerge
        cases hmerge
      · rw [hx] at hmerge ⊢
        rw [successor_some, successor_some]
        exact next?_minimalAutomaton hletters hdet hapart hstart hq hmerge s

/-- Words lead from merged nodes to merged nodes. -/
theorem after_merge (hx : x ∈ a.nodes letters) (word : List Atom) :
    (a.minimalAutomaton letters).after (a.merge letters x) word =
      a.merge letters (a.after x word) := by
  induction word generalizing x with
  | nil => rfl
  | cons s word ih =>
      rw [after_cons, successor_merge hletters hdet hapart hstart hx]
      exact ih (successor_mem_nodes hletters hx s)

/-- **A merged node** recognises the words that its members do. -/
theorem recognises_merge_iff (hx : x ∈ a.nodes letters) (word : List Atom) :
    (a.minimalAutomaton letters).Recognises (a.merge letters x) word ↔ a.Recognises x word := by
  have hend := after_mem_nodes hletters hx word
  rw [Recognises, after_merge hletters hdet hapart hstart hx]
  constructor
  · intro h
    obtain ⟨name, hname, hmerge⟩ := h
    obtain ⟨q, hq, haccepting, hqname⟩ := (mem_accepting_minimalAutomaton_iff hstart).1 hname
    have hsame := (merge_eq_merge_iff hletters hapart (some_mem_nodes hq) hend).1
      (hqname.trans hmerge.symm)
    exact (hsame []).1 ⟨q, haccepting, rfl⟩
  · intro h
    obtain ⟨q, haccepting, hq⟩ := h
    rw [hq] at hend ⊢
    obtain hnone | ⟨p, hp, hpq⟩ := mem_nodes_iff.1 hend
    · cases hnone
    · cases hmerge : a.merge letters (some q) with
      | none =>
          have hsame := (merge_eq_none_iff hletters hend).1 hmerge
          exact absurd ((hsame []).1 ⟨q, haccepting, rfl⟩) (a.not_recognises_none [])
      | some name =>
          cases hpq
          exact ⟨name, (mem_accepting_minimalAutomaton_iff hstart).2 ⟨q, hp, haccepting, hmerge⟩,
            rfl⟩

/-- The start recognises the same words as before. -/
theorem recognises_start_minimalAutomaton (word : List Atom) :
    (a.minimalAutomaton letters).Recognises (some (a.minimalAutomaton letters).start) word ↔
      a.Recognises (some a.start) word := by
  rw [start_minimalAutomaton hstart, ← hstart]
  exact recognises_merge_iff hletters hdet hapart hstart
    (a.start_mem_nodes letters) word

/-- Every merged state can be reached. -/
theorem exists_word_minimalAutomaton (h : name ∈ (a.minimalAutomaton letters).names) :
    ∃ word, (a.minimalAutomaton letters).after (some (a.minimalAutomaton letters).start) word =
      some name := by
  obtain ⟨q, hq, hmerge⟩ := (mem_names_minimalAutomaton_iff hstart).1 h
  obtain ⟨word, hword⟩ := exists_word_of_mem_reachable hq
  refine ⟨word, ?_⟩
  rw [start_minimalAutomaton hstart, ← hstart, after_merge hletters hdet hapart hstart
    (a.start_mem_nodes letters), hword, hmerge]

/-- A state that is not merged with the sink recognises a word. -/
theorem exists_recognised (h : name ∈ (a.minimalAutomaton letters).names) :
    ∃ word, (a.minimalAutomaton letters).Recognises (some name) word := by
  obtain ⟨q, hq, hmerge⟩ := (mem_names_minimalAutomaton_iff hstart).1 h
  have hnode := some_mem_nodes hq
  by_contra hnone
  rw [not_exists] at hnone
  have hsame : a.SameWords (some q) none := by
    intro word
    refine iff_of_false (fun hword => hnone word ?_) (a.not_recognises_none word)
    rw [← hmerge]
    exact (recognises_merge_iff hletters hdet hapart hstart hnode word).2 hword
  rw [(merge_eq_none_iff hletters hnode).2 hsame] at hmerge
  cases hmerge

end Runs

end Automaton

end FormalMachines.Finite
