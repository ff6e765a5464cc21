import FormalMachines.Proofs.Finite.Chain

/-!
# FormalMachines.Proofs.Finite.Determinised

When the subset automaton is deterministic.

The construction fails only where two sets have one name (`valid_subsetAutomaton_iff`), which
they cannot if no state name holds the comma that joins them.  No slot of what it yields holds
two moves, so all that can stand against determinism is a move labelled `ε`.  Where `ε` is the
empty word there is none.  Read literally, `ε` is a letter like any other, and there is one
exactly if an `ε`-move can be reached, or if a dead state is wanted and `ε` is a letter at all
(`Automaton.SpellsEpsilon`).  `determinise_deterministic` puts the parts together, with what
follows for minimisation.
-/

namespace FormalMachines.Finite

/-! ## Names of sets -/

/-- A set of states does not have the name of the dead state. -/
theorem NameSet.name_ne_deadName (s : NameSet) : s.name ≠ deadName := by
  intro h
  cases (List.cons.inj h).1

/-- Sets of names without a comma are told apart by their own names, unless one is empty. -/
theorem NameSet.eq_of_name_eq {s t : NameSet} (hs : s.toList ≠ []) (ht : t.toList ≠ [])
    (hsnames : ∀ q ∈ s, .char ',' ∉ q) (htnames : ∀ q ∈ t, .char ',' ∉ q)
    (h : s.name = t.name) : s = t := by
  have hjoined : Text.join "," s.toList = Text.join "," t.toList :=
    List.append_cancel_left (List.append_cancel_right h)
  have hlists := join_inj hs ht hsnames htnames hjoined
  exact NameSet.ext fun q => by rw [← NameSet.mem_toList, hlists, NameSet.mem_toList]

namespace Automaton

variable {a : Automaton} {mode : EpsilonMode} {letters : List Atom} {addDead : Bool}
  {s : NameSet} {p q : Text}

/-- No set that is found is empty. -/
theorem toList_ne_nil_of_mem_subsets (hs : s ∈ a.subsets mode letters) : s.toList ≠ [] := by
  apply ((Worklist.mem_explore_iff (a.bounds_subsets mode letters)).1 hs).induct
    (P := fun s => s.toList ≠ [])
  · intro s hs
    obtain rfl := List.mem_singleton.1 hs
    exact List.ne_nil_of_mem (NameSet.mem_ofList.2 (mem_close_of_mem List.mem_cons_self))
  · intro s t _ ht
    obtain ⟨symbol, -, hmove⟩ := List.mem_filterMap.1 ht
    obtain ⟨hne, rfl⟩ := subsetMove_eq_some_iff.1 hmove
    obtain ⟨q, hq⟩ := List.exists_mem_of_ne_nil _ hne
    exact List.ne_nil_of_mem (NameSet.mem_ofList.2 (mem_close_of_mem hq))

theorem nodup_subsets (a : Automaton) (mode : EpsilonMode) (letters : List Atom) :
    (a.subsets mode letters).Nodup :=
  Worklist.nodup_explore .firstFirst (a.bounds_subsets mode letters)

/-- The sets that are found have names of their own if no state name holds a comma. -/
theorem nodup_names_subsets (hvalid : a.Valid) (hcommas : ∀ q ∈ a.names, .char ',' ∉ q) :
    ((a.subsets mode letters).map (·.name)).Nodup := by
  apply (a.nodup_subsets mode letters).map_on
  intro s hs t ht hname
  have hplain : ∀ u ∈ a.subsets mode letters, ∀ q ∈ u, .char ',' ∉ q :=
    fun u hu q hq => hcommas q (subsets_subset_names hvalid hu hq)
  exact NameSet.eq_of_name_eq (toList_ne_nil_of_mem_subsets hs) (toList_ne_nil_of_mem_subsets ht)
    (hplain s hs) (hplain t ht) hname

/-- **The subset automaton is valid** exactly if the sets that are found have names of their
own. -/
theorem valid_subsetAutomaton_iff : (a.subsetAutomaton mode letters addDead).Valid ↔
    ((a.subsets mode letters).map (·.name)).Nodup := by
  have hplace : ∀ {x}, x ∈ a.places mode letters addDead →
      placeName x ∈ (a.subsetAutomaton mode letters addDead).names :=
    fun hx => mem_names_subsetAutomaton_iff.2 ⟨_, hx, rfl⟩
  constructor
  · exact fun hvalid => nodup_names_of_subsetAutomaton hvalid.1
  · intro hsets
    refine ⟨?_, hplace (some_mem_places startSet_mem_subsets), ?_, ?_⟩
    · rw [names_subsetAutomaton, places, List.map_append, List.map_map]
      refine hsets.append ?_ ?_
      · split <;> simp
      · intro n hn hdead
        obtain ⟨s, -, rfl⟩ := List.mem_map.1 hn
        obtain ⟨x, hx, hname⟩ := List.mem_map.1 hdead
        split at hx
        · rw [List.mem_singleton.1 hx] at hname
          exact s.name_ne_deadName hname.symm
        · exact List.not_mem_nil hx
    · intro n hn
      obtain ⟨s, hs, rfl⟩ := List.mem_map.1 hn
      exact hplace (some_mem_places (List.mem_filter.1 hs).1)
    · intro t ht
      obtain ⟨x, hx, symbol, hsymbol, y, hy, rfl⟩ := mem_transitions_subsetAutomaton_iff.1 ht
      exact ⟨hplace hx, hplace (placeMove_mem_places hx hsymbol hy)⟩

/-! ## Moves labelled `ε` -/

/-- Whether each label of a path compares equal to something. -/
def Comparable (path : List Transition) : Prop := ∀ m ∈ path, m.symbol.key ≠ .notANumber

/-- Paths lead to the members of the sets that are found. -/
theorem exists_path_of_mem_subsets (hs : s ∈ a.subsets .literal letters) (hq : q ∈ s) :
    ∃ path, Comparable path ∧ a.Path a.start path q := by
  have hall : ∀ q ∈ s, ∃ path, Comparable path ∧ a.Path a.start path q := by
    apply ((Worklist.mem_explore_iff (a.bounds_subsets .literal letters)).1 hs).induct
      (P := fun s => ∀ q ∈ s, ∃ path, Comparable path ∧ a.Path a.start path q)
    · intro s hs q hq
      rw [List.mem_singleton.1 hs] at hq
      obtain rfl := List.mem_singleton.1 (NameSet.mem_ofList.1 hq)
      exact ⟨[], nofun, .nil a.start⟩
    · intro s t ih ht q hq
      obtain ⟨symbol, -, hmove⟩ := List.mem_filterMap.1 ht
      obtain ⟨m, hm, ⟨hsource, -, hlabel⟩, rfl⟩ :=
        mem_targetSet.1 ((mem_of_subsetMove_literal hmove).1 hq)
      obtain ⟨path, hlabels, hpath⟩ := ih m.source hsource
      refine ⟨path ++ [m], ?_, path_append_iff.2 ⟨m.source, hpath, ?_⟩⟩
      · exact List.forall_mem_append.2 ⟨hlabels, List.forall_mem_singleton.2 hlabel⟩
      · exact path_cons_iff.2 ⟨hm, rfl, .nil m.target⟩
  exact hall q hq

/-- Where every label is a letter, a path from a member of a set that is found stays within
the sets that are found, as long as its labels compare equal to something. -/
theorem exists_mem_subsets_of_path (hletters : a.letters .literal = .ok letters)
    {path : List Transition} (hpath : a.Path p path q) (hlabels : Comparable path)
    (hs : s ∈ a.subsets .literal letters) (hp : p ∈ s) :
    ∃ t ∈ a.subsets .literal letters, q ∈ t := by
  induction hpath generalizing s with
  | nil p => exact ⟨s, hs, hp⟩
  | @cons m _ _ hm _ ih =>
      obtain ⟨hlabel, hlabels⟩ := List.forall_mem_cons.1 hlabels
      obtain ⟨letter, hletter, hsame⟩ := exists_letter hletters hm rfl
      obtain ⟨t, hmove, ht⟩ := exists_subsetMove_literal
        (mem_targetSet.2 ⟨m, hm, ⟨hp, hsame.symm, hlabel⟩, rfl⟩)
      exact ih hlabels (subsetMove_mem_subsets hs hletter hmove) ht

/-- Whether the subset automaton has to spell an `ε` out: read literally, an `ε`-move can be
reached, or `ε` is a symbol of the automaton and a dead state takes every missing move.  A
label that compares equal to nothing takes a set nowhere. -/
def SpellsEpsilon (a : Automaton) (mode : EpsilonMode) (addDead : Bool) : Prop :=
  mode = .literal ∧
    ((∃ path, Comparable path ∧ ∃ t ∈ a.transitions, t.isEpsilon ∧ a.Path a.start path t.source) ∨
      addDead ∧ (.text epsilon ∈ a.alphabet ∨ ∃ t ∈ a.transitions, t.isEpsilon))

/-- A set has a move under a symbol if a member has. -/
theorem exists_subsetMove_iff (mode : EpsilonMode) {symbol : Atom} :
    (∃ t, a.subsetMove mode s symbol = some t) ↔
      ∃ t ∈ a.transitions, t.symbol.Equals symbol ∧ t.source ∈ s := by
  constructor
  · rintro ⟨_, hmove⟩
    obtain ⟨hne, -⟩ := subsetMove_eq_some_iff.1 hmove
    obtain ⟨q, hq⟩ := List.exists_mem_of_ne_nil _ hne
    obtain ⟨t, ht, ⟨hsource, hequals⟩, -⟩ := mem_targetSet.1 hq
    exact ⟨t, ht, hequals, hsource⟩
  · rintro ⟨t, ht, hequals, hsource⟩
    have htarget : t.target ∈ a.targetSet s symbol :=
      mem_targetSet.2 ⟨t, ht, ⟨hsource, hequals⟩, rfl⟩
    exact ⟨_, subsetMove_eq_some_iff.2 ⟨List.ne_nil_of_mem htarget, rfl⟩⟩

/-- A place has a move under a symbol if its set has, or missing moves go to the dead state. -/
theorem exists_placeMove_iff {symbol : Atom} :
    (∃ x ∈ a.places mode letters addDead, ∃ y, a.placeMove mode addDead x symbol = some y) ↔
      addDead ∨ ∃ s ∈ a.subsets mode letters, ∃ t, a.subsetMove mode s symbol = some t := by
  constructor
  · rintro ⟨x, hx, y, hy⟩
    cases addDead with
    | true => exact .inl rfl
    | false =>
        obtain ⟨s, hs, rfl⟩ | ⟨_, hdead⟩ := mem_places_iff.1 hx
        · refine .inr ⟨s, hs, ?_⟩
          cases hmove : a.subsetMove mode s symbol with
          | none =>
              rw [placeMove, hmove] at hy
              cases hy
          | some t => exact ⟨t, rfl⟩
        · cases hdead
  · rintro (hdead | ⟨s, hs, t, hmove⟩)
    · refine ⟨_, some_mem_places startSet_mem_subsets, ?_⟩
      rw [placeMove, hdead]
      cases a.subsetMove mode (a.startSet mode) symbol <;> exact ⟨_, rfl⟩
    · exact ⟨some s, some_mem_places hs, some t, by rw [placeMove, hmove]⟩

/-- A move of the subset automaton is labelled `ε` if `ε` is a letter, and an `ε`-move leaves a
set that is found or missing moves go to the dead state. -/
theorem exists_isEpsilon_subsetAutomaton_iff :
    (∃ t ∈ (a.subsetAutomaton mode letters addDead).transitions, t.isEpsilon) ↔
      .text epsilon ∈ letters ∧
        (addDead ∨
          ∃ s ∈ a.subsets mode letters, ∃ t ∈ a.transitions, t.isEpsilon ∧ t.source ∈ s) := by
  simp only [Transition.isEpsilon_iff, ← Atom.equals_text_iff, ← exists_subsetMove_iff mode]
  rw [← exists_placeMove_iff]
  constructor
  · rintro ⟨m, hm, hlabel⟩
    obtain ⟨x, hx, symbol, hsymbol, y, hy, rfl⟩ := mem_transitions_subsetAutomaton_iff.1 hm
    obtain rfl : symbol = .text epsilon := Atom.equals_text_iff.1 hlabel
    exact ⟨hsymbol, x, hx, y, hy⟩
  · rintro ⟨hletter, x, hx, y, hy⟩
    exact ⟨⟨placeName x, placeName y, .text epsilon⟩,
      mem_transitions_subsetAutomaton_iff.2 ⟨x, hx, .text epsilon, hletter, y, hy, rfl⟩,
      Atom.equals_text_iff.2 rfl⟩

/-- Read literally, an `ε`-move leaves a set that is found if a path leads to where it starts. -/
theorem exists_mem_subsets_isEpsilon_iff (hletters : a.letters .literal = .ok letters) :
    (∃ s ∈ a.subsets .literal letters, ∃ t ∈ a.transitions, t.isEpsilon ∧ t.source ∈ s) ↔
      ∃ path, Comparable path ∧
        ∃ t ∈ a.transitions, t.isEpsilon ∧ a.Path a.start path t.source := by
  constructor
  · rintro ⟨s, hs, t, ht, hlabel, hsource⟩
    obtain ⟨path, hlabels, hpath⟩ := exists_path_of_mem_subsets hs hsource
    exact ⟨path, hlabels, t, ht, hlabel, hpath⟩
  · rintro ⟨path, hlabels, t, ht, hlabel, hpath⟩
    obtain ⟨s, hs, hsource⟩ := exists_mem_subsets_of_path hletters hpath hlabels
      startSet_mem_subsets (NameSet.mem_ofList.2 List.mem_cons_self)
    exact ⟨s, hs, t, ht, hlabel, hsource⟩

/-- **A move of the subset automaton is labelled `ε`** exactly where one has to be. -/
theorem exists_isEpsilon_iff_spellsEpsilon (hletters : a.letters mode = .ok letters) :
    (∃ t ∈ (a.subsetAutomaton mode letters addDead).transitions, t.isEpsilon) ↔
      a.SpellsEpsilon mode addDead := by
  rw [exists_isEpsilon_subsetAutomaton_iff, SpellsEpsilon, text_mem_letters_iff hletters]
  simp only [← Transition.isEpsilon_iff]
  cases mode with
  | closure => simp [EpsilonMode.isLetter]
  | literal =>
      rw [exists_mem_subsets_isEpsilon_iff hletters]
      constructor
      · rintro ⟨⟨_, hsymbol⟩, hmove⟩
        exact ⟨rfl, hmove.elim (fun hdead => .inr ⟨hdead, hsymbol⟩) .inl⟩
      · rintro ⟨_, ⟨path, hlabels, t, ht, hlabel, hpath⟩ | ⟨hdead, hsymbol⟩⟩
        · exact ⟨⟨rfl, .inr ⟨t, ht, hlabel⟩⟩, .inr ⟨path, hlabels, t, ht, hlabel, hpath⟩⟩
        · exact ⟨⟨rfl, hsymbol⟩, .inl hdead⟩

/-! ## Determinism -/

theorem minimise_eq_error (h : ¬ a.isDeterministic) :
    a.minimise = .error (.parameter .notDeterministic) := by
  rw [Automaton.minimise, Bool.eq_false_of_not_eq_true h]
  rfl

/-- **What the subset construction yields.**  If the alphabet holds atoms and no state name
holds the comma that joins names, the construction succeeds, with `ε` read either way and with
or without a dead state, and no slot holds two moves.  The result is deterministic and can be
minimised, unless it has to spell an `ε` out; then it is not deterministic and is refused. -/
theorem determinise_deterministic {a : Automaton} {mode : EpsilonMode} {epsilonMode : Json}
    (hvalid : a.Valid) (hatoms : ∀ v ∈ a.alphabet, ∃ symbol, v = .atom symbol)
    (hcommas : ∀ q ∈ a.names, .char ',' ∉ q) (hmode : EpsilonMode.ofJson epsilonMode = .ok mode)
    (addDead : Bool) :
    ∃ d, a.determinise epsilonMode addDead = .ok d ∧ d.slots.Nodup ∧
      (¬ a.SpellsEpsilon mode addDead → d.isDeterministic ∧ ∃ m, d.minimise = .ok m) ∧
      (a.SpellsEpsilon mode addDead →
        ¬ d.isDeterministic ∧ d.minimise = .error (.parameter .notDeterministic)) := by
  obtain ⟨letters, hletters⟩ := exists_letters mode hatoms
  have hd : (a.subsetAutomaton mode letters addDead).Valid :=
    valid_subsetAutomaton_iff.2 (nodup_names_subsets hvalid hcommas)
  have hok : a.determinise epsilonMode addDead = .ok (a.subsetAutomaton mode letters addDead) := by
    rw [determinise, hmode]
    show (a.letters mode >>= fun letters => (a.subsetAutomaton mode letters addDead).checked) = _
    rw [hletters]
    exact (checked_eq_ok_iff _ _).2 ⟨hd, rfl⟩
  have hslots := nodup_slots_subsetAutomaton hd hletters
  have hdet : (a.subsetAutomaton mode letters addDead).isDeterministic ↔
      ¬ a.SpellsEpsilon mode addDead := by
    rw [isDeterministic_iff, exists_isEpsilon_iff_spellsEpsilon hletters]
    exact and_iff_left hslots
  refine ⟨_, hok, hslots, fun hplain => ⟨hdet.2 hplain, ?_⟩, fun hspells => ?_⟩
  · obtain ⟨dletters, hdletters⟩ := exists_letters .literal (atoms_of_alphabet_eq
      (a := a.subsetAutomaton mode letters addDead) rfl)
    exact ⟨_, (minimise_eq_ok_iff hdletters).2 ⟨hdet.2 hplain, rfl⟩⟩
  · have hnot : ¬ (a.subsetAutomaton mode letters addDead).isDeterministic :=
      fun h => hdet.1 h hspells
    exact ⟨hnot, minimise_eq_error hnot⟩

/-- A path ends where it starts or where a move leads. -/
theorem Path.mem_targets {path : List Transition} (h : a.Path p path q) :
    q = p ∨ q ∈ a.transitions.map (·.target) := by
  induction h with
  | nil => exact .inl rfl
  | cons hm _ ih =>
      obtain rfl | ih := ih
      · exact .inr (List.mem_map_of_mem hm)
      · exact .inr ih

/-- A state with two moves under `a`, and an `ε`-move from a state that is never reached. -/
def forkedRoad : Automaton where
  states := [⟨"p", true, false⟩, ⟨"q", false, true⟩, ⟨"r", false, false⟩]
  alphabet := [.text "a"]
  transitions := [⟨"p", "p", .text "a"⟩, ⟨"p", "q", .text "a"⟩, ⟨"r", "q", .text epsilon⟩]
  start := "p"
  accepting := ["q"]

theorem determinise_deterministic_forkedRoad :
    ∃ d, forkedRoad.determinise (.text "literal") false = .ok d ∧ d.isDeterministic ∧
      ∃ m, d.minimise = .ok m := by
  have hatoms : ∀ v ∈ forkedRoad.alphabet, ∃ symbol, v = .atom symbol :=
    fun v hv => ⟨.text "a", List.mem_singleton.1 hv⟩
  have hmode : EpsilonMode.ofJson (.text "literal") = .ok .literal := rfl
  obtain ⟨d, hd, _, hplain, _⟩ :=
    determinise_deterministic (a := forkedRoad) (by decide) hatoms (by decide) hmode false
  refine ⟨d, hd, hplain ?_⟩
  rintro ⟨_, ⟨path, -, t, ht, hlabel, hpath⟩ | ⟨hdead, _⟩⟩
  · -- the source of the `ε`-move is neither the start nor a target
    have hsource : t.source = "r" := by
      simp only [forkedRoad, List.mem_cons, List.not_mem_nil, or_false] at ht
      obtain rfl | rfl | rfl := ht
      · exact absurd hlabel (by decide)
      · exact absurd hlabel (by decide)
      · rfl
    have hreached := hpath.mem_targets
    rw [hsource] at hreached
    exact absurd hreached (by decide)
  · cases hdead

/-- A state and an `ε`-move from it. -/
def firstStep : Automaton where
  states := [⟨"p", true, false⟩, ⟨"q", false, true⟩]
  alphabet := [.text "a"]
  transitions := [⟨"p", "q", .text epsilon⟩]
  start := "p"
  accepting := ["q"]

/-- Read literally, an `ε`-move of the start leaves a subset automaton that is not
deterministic. -/
theorem not_deterministic_firstStep : firstStep.Valid ∧
    (∀ v ∈ firstStep.alphabet, ∃ symbol, v = .atom symbol) ∧
    (∀ q ∈ firstStep.names, .char ',' ∉ q) ∧
    ∃ d, firstStep.determinise (.text "literal") false = .ok d ∧ d.isDeterministic = false ∧
      d.minimise = .error (.parameter .notDeterministic) := by
  refine ⟨by decide, fun v hv => ⟨.text "a", List.mem_singleton.1 hv⟩, by decide,
    firstStep.subsetAutomaton .literal [.text "a", .text epsilon] false, by rfl, by rfl, by rfl⟩

end Automaton

end FormalMachines.Finite
