import FormalMachines.Finite.Alphabet
import FormalMachines.Finite.Determinism
import FormalMachines.Proofs.Checks
import FormalMachines.Proofs.Distinct
import FormalMachines.Proofs.Fails

/-!
# FormalMachines.Proofs.Finite.Alphabet

What the letters of an automaton are: no two of them are the same symbol
(`nodup_keys_letters`), and every move that a run can fire has one of them
(`exists_letter`).  A construction that lists, for each of its states, at most one move under
each letter leaves no choice (`nodup_slots_flatMap`), and an automaton is complete if each of its
states has a move under each symbol but `ε` (`isComplete_eq_true_iff`).
-/

namespace FormalMachines.Finite.Automaton

variable {a : Automaton} {mode : EpsilonMode} {letters : List Atom}

theorem letters_eq_ok (h : a.letters mode = .ok letters) :
    ∃ declared, letters =
      Atom.distinct ((declared ++ a.transitions.map (·.symbol)).filter mode.isLetter) := by
  unfold Automaton.letters at h
  cases hd : a.alphabet.mapM Json.requireAtom with
  | error e => rw [hd] at h; cases h
  | ok declared => rw [hd] at h; cases h; exact ⟨declared, rfl⟩

/-- An alphabet of atoms has letters. -/
theorem exists_letters (mode : EpsilonMode) (h : ∀ v ∈ a.alphabet, ∃ symbol, v = .atom symbol) :
    ∃ letters, a.letters mode = .ok letters := by
  have hatoms : ∀ values : List Json, (∀ v ∈ values, ∃ symbol, v = .atom symbol) →
      ∃ declared, values.mapM Json.requireAtom = .ok declared := by
    intro values hvalues
    induction values with
    | nil => exact ⟨[], rfl⟩
    | cons v values ih =>
        obtain ⟨symbol, hsymbol⟩ := hvalues v List.mem_cons_self
        obtain ⟨declared, hdeclared⟩ := ih fun w hw => hvalues w (List.mem_cons_of_mem v hw)
        refine ⟨symbol :: declared, ?_⟩
        rw [List.mapM_cons, hdeclared, hsymbol]
        rfl
  obtain ⟨declared, hdeclared⟩ := hatoms a.alphabet h
  rw [Automaton.letters, hdeclared]
  exact ⟨_, rfl⟩

theorem mapM_requireAtom (atoms : List Atom) :
    (atoms.map Json.atom).mapM Json.requireAtom = .ok atoms := by
  induction atoms with
  | nil => rfl
  | cons s atoms ih =>
      rw [List.map_cons, List.mapM_cons, ih]
      rfl

/-- An alphabet that declares each symbol in use, and each once, is the letters. -/
theorem letters_eq (halphabet : a.alphabet = letters.map .atom)
    (hnodup : (letters.map (·.key)).Nodup) (hsymbols : ∀ t ∈ a.transitions, t.symbol ∈ letters) :
    a.letters .literal = .ok letters := by
  have hsame : (letters ++ a.transitions.map (·.symbol)).filter EpsilonMode.literal.isLetter =
      letters ++ a.transitions.map (·.symbol) := List.filter_eq_self.2 fun _ _ => rfl
  have hdistinct : Atom.distinct (letters ++ a.transitions.map (·.symbol)) = letters :=
    Distinct.eraseDupsBy_append_of_subset Atom.key hnodup (List.forall_mem_map.2 hsymbols)
  rw [Automaton.letters, halphabet, mapM_requireAtom]
  exact congrArg Except.ok ((congrArg Atom.distinct hsame).trans hdistinct)

/-- No two letters are the same symbol. -/
theorem nodup_keys_letters (h : a.letters mode = .ok letters) :
    (letters.map (·.key)).Nodup := by
  obtain ⟨declared, rfl⟩ := letters_eq_ok h
  exact Distinct.nodup_map_eraseDupsBy Atom.key _

/-- The label of a move is a letter, unless it reads as the empty word. -/
theorem exists_letter (h : a.letters mode = .ok letters) {t : Transition}
    (ht : t ∈ a.transitions) (hletter : mode.isLetter t.symbol) :
    ∃ s ∈ letters, s.Same t.symbol := by
  obtain ⟨declared, rfl⟩ := letters_eq_ok h
  apply Distinct.exists_mem_eraseDupsBy Atom.key
  rw [List.mem_filter, List.mem_append]
  exact ⟨.inr (List.mem_map.2 ⟨t, ht, rfl⟩), hletter⟩

/-- The letters leave out what reads as the empty word. -/
theorem isLetter_of_mem_letters (h : a.letters mode = .ok letters) {s : Atom}
    (hs : s ∈ letters) : mode.isLetter s := by
  obtain ⟨declared, rfl⟩ := letters_eq_ok h
  exact (List.mem_filter.1 (Distinct.mem_of_mem_eraseDupsBy Atom.key hs)).2

/-- A text is a letter if it is declared or in use. -/
theorem text_mem_letters_iff (h : a.letters mode = .ok letters) {s : Text} :
    .text s ∈ letters ↔ mode.isLetter (.text s) ∧
      (.text s ∈ a.alphabet ∨ ∃ t ∈ a.transitions, t.symbol = .text s) := by
  obtain ⟨declared, hdeclared, h⟩ := bind_eq_ok h
  obtain rfl := Except.ok.inj h
  have halphabet : Json.text s ∈ a.alphabet ↔ .text s ∈ declared := by
    rw [eq_map_of_mapM (fun _ _ => Json.of_requireAtom) hdeclared, Json.text]
    simp
  have hlisted : Atom.text s ∈
      (declared ++ a.transitions.map (·.symbol)).filter mode.isLetter ↔
      mode.isLetter (.text s) ∧
        (.text s ∈ a.alphabet ∨ ∃ t ∈ a.transitions, t.symbol = .text s) := by
    rw [List.mem_filter, List.mem_append, List.mem_map, halphabet, and_comm]
  rw [← hlisted]
  constructor
  · exact Distinct.mem_of_mem_eraseDupsBy Atom.key
  · intro hs
    obtain ⟨symbol, hsymbol, hkey⟩ := Distinct.exists_mem_eraseDupsBy Atom.key hs
    obtain rfl := Atom.key_eq_text_iff.1 hkey
    exact hsymbol

/-- Moves that are listed state by state and letter by letter are in slots of their own. -/
theorem nodup_slots_flatMap {ι : Type} {rows : List ι} {source : ι → Text}
    {f : ι → Atom → Option Text} (hsources : (rows.map source).Nodup)
    (hkeys : (letters.map (·.key)).Nodup) :
    ((rows.flatMap fun r => letters.filterMap fun s =>
      (f r s).map fun t => (⟨source r, t, s⟩ : Transition)).map (·.slot)).Nodup := by
  rw [List.map_flatMap, List.nodup_flatMap]
  constructor
  · intro r _
    rw [List.nodup_iff_pairwise_ne, List.pairwise_map, List.pairwise_filterMap]
    apply (List.pairwise_map.1 hkeys).imp
    intro s s' hne t ht t' ht' heq
    obtain ⟨_, _, rfl⟩ := Option.map_eq_some_iff.1 ht
    obtain ⟨_, _, rfl⟩ := Option.map_eq_some_iff.1 ht'
    exact hne (congrArg Prod.snd heq)
  · apply (List.pairwise_map.1 hsources).imp
    intro r r' hne slot hslot hslot'
    have hsource : ∀ {u : ι}, slot ∈ (letters.filterMap fun s =>
        (f u s).map fun t => (⟨source u, t, s⟩ : Transition)).map (·.slot) →
          slot.1 = source u := by
      intro u hu
      obtain ⟨t, ht, rfl⟩ := List.mem_map.1 hu
      obtain ⟨s, _, ht⟩ := List.mem_filterMap.1 ht
      obtain ⟨_, _, rfl⟩ := Option.map_eq_some_iff.1 ht
      rfl
    exact hne ((hsource hslot).symm.trans (hsource hslot'))

/-! ## Missing moves -/

/-- A state has a move under a symbol, if that is not `ε`. -/
theorem hasMove_iff {state : Text} {s : Atom} :
    a.hasMove state s ↔ s ≠ .text epsilon ∧ a.moves state s ≠ [] := by
  have hlabel : ∀ t : Transition, t.symbol.Same s → (t.isEpsilon ↔ s = .text epsilon) := by
    intro t hsame
    rw [Transition.isEpsilon_iff, ← Atom.key_eq_text_iff, hsame, Atom.key_eq_text_iff]
  constructor
  · intro h
    obtain ⟨t, ht, h⟩ := List.any_eq_true.1 h
    simp only [Bool.and_eq_true, Bool.not_eq_true', Transition.fits, decide_eq_true_eq] at h
    obtain ⟨hplain, hsource, hsame⟩ := h
    refine ⟨fun hs => ?_, List.ne_nil_of_mem (mem_moves.2 ⟨ht, hsource, hsame⟩)⟩
    rw [(hlabel t hsame).2 hs] at hplain
    cases hplain
  · rintro ⟨hs, hmoves⟩
    obtain ⟨t, ht⟩ := List.exists_mem_of_ne_nil _ hmoves
    obtain ⟨hmem, hsource, hsame⟩ := mem_moves.1 ht
    have hplain : ¬ t.isEpsilon := fun h => hs ((hlabel t hsame).1 h)
    exact List.any_eq_true.2 ⟨t, hmem, by simpa [hplain, Transition.fits, hsource] using hsame⟩

/-- What is looked at of a state and a symbol to see whether an automaton is complete. -/
def checkMove (a : Automaton) (state : Text) (v : Json) : Except Fault Bool := do
  if v.isText epsilon then return true
  return a.hasMove state (← v.requireAtom)

theorem checkMove_eq_true_iff (a : Automaton) (state : Text) (v : Json) :
    a.checkMove state v = .ok true ↔
      v.isText epsilon ∨ ∃ s, v = .atom s ∧ a.hasMove state s := by
  unfold checkMove
  by_cases hv : v.isText epsilon
  · rw [if_pos hv]
    exact iff_of_true rfl (.inl hv)
  · rw [if_neg hv, or_iff_right hv]
    cases v with
    | atom s =>
        show (.ok (a.hasMove state s) : Except Fault Bool) = .ok true ↔ _
        simp
    | list | object => exact iff_of_false (fun h => nomatch h) fun ⟨s, hs, _⟩ => nomatch hs

/-- **An automaton is complete** if each of its states has a move under each symbol but `ε`. -/
theorem isComplete_eq_true_iff : a.isComplete = .ok true ↔
    ∀ state ∈ a.names, ∀ v ∈ a.alphabet,
      v.isText epsilon ∨ ∃ s, v = .atom s ∧ a.hasMove state s := by
  have hcomplete : a.isComplete = a.names.allM fun state => a.alphabet.allM (a.checkMove state) :=
    rfl
  simp only [hcomplete, allM_eq_true_iff, checkMove_eq_true_iff]

end FormalMachines.Finite.Automaton
