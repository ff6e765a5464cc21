import FormalMachines.Proofs.Finite.Classes
import FormalMachines.Proofs.Finite.Language
import FormalMachines.Proofs.Finite.Subset

/-!
# FormalMachines.Proofs.Finite.Places

The language of the subset automaton, with or without its dead state.

A state of the subset automaton is a set of states or the dead one (`Place`), and the moves
go from place to place (`placeMove`).  Where `ε` is read literally, the words that are
accepted from a place are those that are accepted from one of its members
(`yields_placeName_iff`), so the language is kept (`sameYield_subsetAutomaton`); and no slot
of the subset automaton holds two moves (`nodup_slots_subsetAutomaton`).
-/

namespace FormalMachines.Finite.Automaton

variable {a : Automaton} {mode : EpsilonMode} {letters : List Atom} {addDead : Bool}
  {s t : NameSet} {symbol : Atom} {q : Text} {word : List Atom}

/-! ## Places -/

/-- A set of states, or the dead state. -/
abbrev Place := Option NameSet

/-- The name of a place. -/
def placeName : Place → Text
  | some s => s.name
  | none => deadName

/-- The places of the subset automaton. -/
def places (a : Automaton) (mode : EpsilonMode) (letters : List Atom) (addDead : Bool) :
    List Place :=
  (a.subsets mode letters).map some ++
    if addDead && a.lacksMove mode letters then [none] else []

/-- The place that a move from a place leads to, if there is one. -/
def placeMove (a : Automaton) (mode : EpsilonMode) (addDead : Bool) (x : Place) (symbol : Atom) :
    Option Place :=
  match x with
  | some s =>
    match a.subsetMove mode s symbol with
    | some t => some (some t)
    | none => if addDead then some none else none
  | none => some none

theorem mem_places_iff {x : Place} : x ∈ a.places mode letters addDead ↔
    (∃ s ∈ a.subsets mode letters, x = some s) ∨
      x = none ∧ (addDead && a.lacksMove mode letters) := by
  rw [places, List.mem_append, List.mem_map]
  apply or_congr
  · simp only [eq_comm]
  · split <;> simp [*]

theorem some_mem_places (hs : s ∈ a.subsets mode letters) :
    some s ∈ a.places mode letters addDead :=
  mem_places_iff.2 (.inl ⟨s, hs, rfl⟩)

/-- Only a set is left for a set. -/
theorem exists_subsetMove_of_placeMove {x : Place}
    (h : a.placeMove mode addDead x symbol = some (some t)) :
    ∃ s, x = some s ∧ a.subsetMove mode s symbol = some t := by
  cases x with
  | none => cases h
  | some s =>
      refine ⟨s, rfl, ?_⟩
      rw [placeMove] at h
      cases hmove : a.subsetMove mode s symbol with
      | none =>
          rw [hmove] at h
          cases addDead <;> cases h
      | some t' =>
          rw [hmove] at h
          cases h
          rfl

theorem lacksMove_iff : a.lacksMove mode letters ↔
    ∃ s ∈ a.subsets mode letters, ∃ symbol ∈ letters, a.subsetMove mode s symbol = none := by
  simp only [lacksMove, List.any_eq_true, Option.isNone_iff_eq_none]

/-- The places are closed under moves. -/
theorem placeMove_mem_places {x y : Place} (hx : x ∈ a.places mode letters addDead)
    (hsymbol : symbol ∈ letters) (h : a.placeMove mode addDead x symbol = some y) :
    y ∈ a.places mode letters addDead := by
  cases x with
  | none =>
      cases h
      exact hx
  | some s =>
      obtain ⟨s', hs, heq⟩ | ⟨hnone, -⟩ := mem_places_iff.1 hx
      · cases heq
        rw [placeMove] at h
        cases hmove : a.subsetMove mode s symbol with
        | some t =>
            rw [hmove] at h
            cases h
            exact some_mem_places (subsetMove_mem_subsets hs hsymbol hmove)
        | none =>
            rw [hmove] at h
            cases addDead with
            | false => cases h
            | true =>
                cases h
                have hlacks : a.lacksMove mode letters :=
                  lacksMove_iff.2 ⟨s, hs, symbol, hsymbol, hmove⟩
                exact mem_places_iff.2 (.inr ⟨rfl, by rw [hlacks]; rfl⟩)
      · cases hnone

/-! ## The subset automaton by places -/

theorem names_subsetAutomaton (a : Automaton) (mode : EpsilonMode) (letters : List Atom)
    (addDead : Bool) : (a.subsetAutomaton mode letters addDead).names =
      (a.places mode letters addDead).map placeName := by
  simp only [names, subsetAutomaton, places, List.map_map, List.map_append, Function.comp_def,
    placeName, List.map_id']
  split <;> rfl

theorem mem_names_subsetAutomaton_iff : q ∈ (a.subsetAutomaton mode letters addDead).names ↔
    ∃ x ∈ a.places mode letters addDead, placeName x = q := by
  rw [names_subsetAutomaton, List.mem_map]

theorem movesOfSubset_eq (a : Automaton) (mode : EpsilonMode) (letters : List Atom)
    (addDead : Bool) (s : NameSet) : a.movesOfSubset mode letters addDead s =
      letters.filterMap fun symbol => (a.placeMove mode addDead (some s) symbol).map fun y =>
        ⟨placeName (some s), placeName y, symbol⟩ := by
  apply List.filterMap_congr
  intro symbol _
  rw [placeMove]
  cases a.subsetMove mode s symbol with
  | some t => rfl
  | none => cases addDead <;> rfl

theorem transitions_subsetAutomaton (a : Automaton) (mode : EpsilonMode) (letters : List Atom)
    (addDead : Bool) : (a.subsetAutomaton mode letters addDead).transitions =
      (a.places mode letters addDead).flatMap fun x =>
        letters.filterMap fun symbol => (a.placeMove mode addDead x symbol).map fun y =>
          ⟨placeName x, placeName y, symbol⟩ := by
  have hdead : (letters.filterMap fun symbol => (a.placeMove mode addDead none symbol).map fun y =>
      (⟨placeName none, placeName y, symbol⟩ : Transition)) =
        letters.map fun c => ⟨deadName, deadName, c⟩ := by
    rw [← List.filterMap_eq_map]
    rfl
  simp only [subsetAutomaton, places, List.flatMap_append, List.flatMap_map]
  congr 1
  · exact congrArg (List.flatMap · _) (funext fun s => a.movesOfSubset_eq mode letters addDead s)
  · split
    · rw [List.flatMap_singleton, hdead]
    · rfl

theorem mem_transitions_subsetAutomaton_iff {m : Transition} :
    m ∈ (a.subsetAutomaton mode letters addDead).transitions ↔
      ∃ x ∈ a.places mode letters addDead, ∃ symbol ∈ letters, ∃ y,
        a.placeMove mode addDead x symbol = some y ∧ m = ⟨placeName x, placeName y, symbol⟩ := by
  rw [transitions_subsetAutomaton]
  simp only [List.mem_flatMap, List.mem_filterMap, Option.map_eq_some_iff, @eq_comm _ m]

section Valid

variable (hvalid : (a.subsetAutomaton mode letters addDead).Valid)

include hvalid

theorem placeName_inj {x y : Place} (hx : x ∈ a.places mode letters addDead)
    (hy : y ∈ a.places mode letters addDead) (h : placeName x = placeName y) : x = y := by
  have hnodup := hvalid.1
  rw [names_subsetAutomaton] at hnodup
  exact List.inj_on_of_nodup_map hnodup hx hy h

/-- **No slot** of the subset automaton holds two moves. -/
theorem nodup_slots_subsetAutomaton (hletters : a.letters mode = .ok letters) :
    (a.subsetAutomaton mode letters addDead).slots.Nodup := by
  have hnames := hvalid.1
  rw [names_subsetAutomaton] at hnames
  have h := nodup_slots_flatMap
    (f := fun x symbol => (a.placeMove mode addDead x symbol).map placeName) hnames
    (nodup_keys_letters hletters)
  simp only [Option.map_map] at h
  rw [slots, transitions_subsetAutomaton]
  exact h

/-- The moves from a place under a symbol go where the letter of that symbol leads. -/
theorem mem_moves_placeName_iff {x : Place} (hx : x ∈ a.places mode letters addDead)
    {m : Transition} :
    m ∈ (a.subsetAutomaton mode letters addDead).moves (placeName x) symbol ↔
      ∃ letter ∈ letters, letter.Same symbol ∧ ∃ y,
        a.placeMove mode addDead x letter = some y ∧ m = ⟨placeName x, placeName y, letter⟩ := by
  rw [mem_moves, mem_transitions_subsetAutomaton_iff]
  constructor
  · intro ⟨⟨z, hz, letter, hletter, y, hy, hm⟩, hsource, hsame⟩
    subst hm
    obtain rfl := placeName_inj hvalid hz hx hsource
    exact ⟨letter, hletter, hsame, y, hy, rfl⟩
  · intro ⟨letter, hletter, hsame, y, hy, hm⟩
    subst hm
    exact ⟨⟨x, hx, letter, hletter, y, hy, rfl⟩, rfl, hsame⟩

/-- A place accepts if it is a set of which a member does. -/
theorem placeName_mem_accepting_iff {x : Place} (hx : x ∈ a.places mode letters addDead) :
    placeName x ∈ (a.subsetAutomaton mode letters addDead).accepting ↔
      ∃ s, x = some s ∧ ∃ p ∈ s, p ∈ a.accepting := by
  have haccepts : ∀ s : NameSet, a.acceptsIn s.toList ↔ ∃ p ∈ s, p ∈ a.accepting := by
    simp [acceptsIn, NameSet.mem_toList]
  constructor
  · intro h
    obtain ⟨s, hs, hname⟩ := List.mem_map.1 h
    obtain ⟨hs, hsaccepts⟩ := List.mem_filter.1 hs
    have hplace := placeName_inj hvalid (some_mem_places hs) hx hname
    exact ⟨s, hplace.symm, (haccepts s).1 hsaccepts⟩
  · rintro ⟨s, rfl, hp⟩
    obtain ⟨s', hs, heq⟩ | ⟨hnone, -⟩ := mem_places_iff.1 hx
    · cases heq
      exact List.mem_map.2 ⟨s, List.mem_filter.2 ⟨hs, (haccepts s).2 hp⟩, rfl⟩
    · cases hnone

end Valid

/-! ## The language -/

section Language

theorem mem_of_subsetMove_literal (h : a.subsetMove .literal s symbol = some t) :
    q ∈ t ↔ q ∈ a.targetSet s symbol := by
  obtain ⟨-, rfl⟩ := subsetMove_eq_some_iff.1 h
  exact NameSet.mem_ofList

theorem exists_subsetMove_literal (h : q ∈ a.targetSet s symbol) :
    ∃ t, a.subsetMove .literal s symbol = some t ∧ q ∈ t :=
  ⟨_, subsetMove_eq_some_iff.2 ⟨List.ne_nil_of_mem h, rfl⟩, NameSet.mem_ofList.2 h⟩

variable (hletters : a.letters .literal = .ok letters)
  (hvalid : (a.subsetAutomaton .literal letters addDead).Valid) (hbarren : a.Barren)

include hletters hvalid hbarren

/-- **The words that are accepted from a place** are those that are accepted from one of its
members; from the dead state there are none.  A label that compares equal to nothing takes a
set nowhere, so no word may be accepted behind such a label. -/
theorem yields_placeName_iff {x : Place} (hx : x ∈ a.places .literal letters addDead) :
    (a.subsetAutomaton .literal letters addDead).Yields (placeName x) word ↔
      ∃ s, x = some s ∧ ∃ p ∈ s, a.Yields p word := by
  induction word generalizing x with
  | nil => exact placeName_mem_accepting_iff hvalid hx
  | cons symbol word ih =>
      constructor
      · intro ⟨m, hm, hword⟩
        obtain ⟨letter, hletter, hsame, y, hy, rfl⟩ := (mem_moves_placeName_iff hvalid hx).1 hm
        obtain ⟨t, rfl, q, hq, hword⟩ := (ih (placeMove_mem_places hx hletter hy)).1 hword
        obtain ⟨s, rfl, hmove⟩ := exists_subsetMove_of_placeMove hy
        obtain ⟨n, hn, ⟨hsource, hnsame, -⟩, rfl⟩ :=
          mem_targetSet.1 ((mem_of_subsetMove_literal hmove).1 hq)
        exact ⟨s, rfl, n.source, hsource, n,
          mem_moves.2 ⟨hn, rfl, hnsame.trans hsame⟩, hword⟩
      · intro ⟨s, heq, p, hp, n, hn, hword⟩
        subst heq
        obtain ⟨hmem, rfl, hsame⟩ := mem_moves.1 hn
        have hlabel : n.symbol.key ≠ .notANumber := fun h => hbarren n hmem h word hword
        obtain ⟨letter, hletter, hlsame⟩ := exists_letter hletters hmem rfl
        obtain ⟨t, hmove, hq⟩ := exists_subsetMove_literal
          (mem_targetSet.2 ⟨n, hmem, ⟨hp, hlsame.symm, hlabel⟩, rfl⟩)
        have hy : a.placeMove .literal addDead (some s) letter = some (some t) := by
          rw [placeMove, hmove]
        refine ⟨⟨placeName (some s), placeName (some t), letter⟩,
          (mem_moves_placeName_iff hvalid hx).2
            ⟨letter, hletter, hlsame.trans hsame, some t, hy, rfl⟩, ?_⟩
        exact (ih (placeMove_mem_places hx hletter hy)).2 ⟨t, rfl, n.target, hq, hword⟩

/-- **The subset automaton** accepts the same words. -/
theorem sameYield_subsetAutomaton : SameYield (a.subsetAutomaton .literal letters addDead) a := by
  intro word
  have hstart : a.startSet .literal ∈ a.subsets .literal letters := startSet_mem_subsets
  have hset : ∀ p, p ∈ a.startSet .literal ↔ p = a.start := by
    simp [startSet, closeSet, close]
  have h : (a.subsetAutomaton .literal letters addDead).Yields
      (placeName (some (a.startSet .literal))) word ↔ _ :=
    yields_placeName_iff hletters hvalid hbarren (some_mem_places hstart)
  refine h.trans ?_
  simp only [Option.some.injEq, exists_eq_left', hset, exists_eq_left]

/-- Only the dead state stands behind a label that compares equal to nothing. -/
theorem barren_subsetAutomaton : (a.subsetAutomaton .literal letters addDead).Barren := by
  intro m hm hlabel word hword
  obtain ⟨x, hx, symbol, hsymbol, y, hy, rfl⟩ := mem_transitions_subsetAutomaton_iff.1 hm
  obtain ⟨t, rfl, -⟩ := (yields_placeName_iff hletters hvalid hbarren
    (placeMove_mem_places hx hsymbol hy)).1 hword
  obtain ⟨s, -, hmove⟩ := exists_subsetMove_of_placeMove hy
  exact comparable_of_subsetMove hmove hlabel

end Language

end FormalMachines.Finite.Automaton
