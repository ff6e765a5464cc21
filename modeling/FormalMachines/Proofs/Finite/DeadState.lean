import FormalMachines.Proofs.Finite.Determinised

/-!
# FormalMachines.Proofs.Finite.DeadState

What the dead state does to the subset automaton.

The move from a place under a letter is the one move there is (`moves_placeName`), so with the
dead state, where no move is missing, every state has exactly one (`exists_moves_eq_singleton`).
A run that would have been stuck goes on in the dead state, where it cannot come to accept
(`recognises_completed_iff`), and reads its input to the end (`consumed_walk_completed`).
-/

namespace FormalMachines.Finite.Automaton

variable {a : Automaton} {mode : EpsilonMode} {letters : List Atom} {addDead : Bool}
  {s : NameSet} {x : Place} {symbol : Atom} {word : List Atom}

/-! ## The dead state -/

/-- The dead state is there if it is wanted and a move is missing. -/
theorem deadName_mem_names_iff : deadName ∈ (a.subsetAutomaton mode letters addDead).names ↔
    addDead ∧ a.lacksMove mode letters := by
  rw [mem_names_subsetAutomaton_iff, ← Bool.and_eq_true]
  constructor
  · rintro ⟨x, hx, hname⟩
    obtain ⟨s, -, rfl⟩ | ⟨-, hdead⟩ := mem_places_iff.1 hx
    · exact absurd hname s.name_ne_deadName
    · exact hdead
  · exact fun hdead => ⟨none, mem_places_iff.2 (.inr ⟨rfl, hdead⟩), rfl⟩

/-- The dead state does not accept. -/
theorem deadName_not_mem_accepting :
    deadName ∉ (a.subsetAutomaton mode letters addDead).accepting := by
  intro hdead
  obtain ⟨s, -, hname⟩ := List.mem_map.1 hdead
  exact s.name_ne_deadName hname

/-- The dead state is not left. -/
theorem target_eq_deadName {t : Transition}
    (ht : t ∈ (a.subsetAutomaton mode letters addDead).transitions) (h : t.source = deadName) :
    t.target = deadName := by
  obtain ⟨x, -, letter, -, y, hy, rfl⟩ := mem_transitions_subsetAutomaton_iff.1 ht
  cases x with
  | some s => exact absurd h s.name_ne_deadName
  | none =>
      cases hy
      rfl

/-- No word is recognised from the dead state. -/
theorem not_recognises_deadName :
    ¬ (a.subsetAutomaton mode letters addDead).Recognises (some deadName) word := by
  rintro ⟨q, hq, hafter⟩
  have hdead : q = deadName := by
    apply after_induct (P := (· = deadName)) rfl _ hafter
    rintro _ symbol r rfl hnext
    obtain ⟨t, ht, hsource, -, rfl⟩ := exists_move_of_next? hnext
    exact target_eq_deadName ht hsource
  rw [hdead] at hq
  exact deadName_not_mem_accepting hq

/-- Where no move is missing, the dead state makes no difference. -/
theorem subsetAutomaton_of_not_lacksMove (h : ¬ a.lacksMove mode letters) :
    a.subsetAutomaton mode letters true = a.subsetAutomaton mode letters false := by
  have hmoves : ∀ s ∈ a.subsets mode letters,
      a.movesOfSubset mode letters true s = a.movesOfSubset mode letters false s := by
    intro s hs
    apply List.filterMap_congr
    intro symbol hsymbol
    cases hmove : a.subsetMove mode s symbol with
    | none => exact absurd (lacksMove_iff.2 ⟨s, hs, symbol, hsymbol, hmove⟩) h
    | some t => rfl
  simp only [subsetAutomaton, h, List.flatMap_congr hmoves]
  rfl

/-! ## The moves from a place -/

section Valid

variable (hletters : a.letters mode = .ok letters)
  (hvalid : (a.subsetAutomaton mode letters addDead).Valid)

include hletters hvalid

/-- **The moves from a place** under a letter: there is one where the place has a move, and none
where it has not. -/
theorem moves_placeName (hx : x ∈ a.places mode letters addDead) (hsymbol : symbol ∈ letters) :
    (a.subsetAutomaton mode letters addDead).moves (placeName x) symbol =
      ((a.placeMove mode addDead x symbol).map fun y =>
        ⟨placeName x, placeName y, symbol⟩).toList := by
  have hone := length_moves_le_one (nodup_slots_subsetAutomaton hvalid hletters) (placeName x)
    symbol
  have hmem : ∀ m, m ∈ (a.subsetAutomaton mode letters addDead).moves (placeName x) symbol ↔
      ∃ y, a.placeMove mode addDead x symbol = some y ∧
        m = ⟨placeName x, placeName y, symbol⟩ := by
    intro m
    rw [mem_moves_placeName_iff hvalid hx]
    constructor
    · rintro ⟨letter, hletter, hsame, hy⟩
      obtain rfl := List.inj_on_of_nodup_map (nodup_keys_letters hletters) hletter hsymbol hsame
      exact hy
    · exact fun hy => ⟨symbol, hsymbol, rfl, hy⟩
  cases hy : a.placeMove mode addDead x symbol with
  | none =>
      apply List.eq_nil_iff_forall_not_mem.2
      intro m hm
      obtain ⟨y, hy', -⟩ := (hmem m).1 hm
      rw [hy] at hy'
      cases hy'
  | some y =>
      have hmove := (hmem _).2 ⟨y, hy, rfl⟩
      obtain ⟨m, hm⟩ := List.length_eq_one_iff.1
        (Nat.le_antisymm hone (List.length_pos_of_mem hmove))
      rw [hm, List.mem_singleton] at hmove
      rw [hm, ← hmove]
      rfl

theorem next?_placeName (hx : x ∈ a.places mode letters addDead) (hsymbol : symbol ∈ letters) :
    (a.subsetAutomaton mode letters addDead).next? (placeName x) symbol =
      (a.placeMove mode addDead x symbol).map placeName := by
  rw [next?, moves_placeName hletters hvalid hx hsymbol]
  cases a.placeMove mode addDead x symbol <;> rfl

omit hletters in
/-- No move leaves a place under what is no letter. -/
theorem next?_placeName_eq_none (hx : x ∈ a.places mode letters addDead)
    (hsymbol : ∀ letter ∈ letters, ¬ letter.Same symbol) :
    (a.subsetAutomaton mode letters addDead).next? (placeName x) symbol = none := by
  have hmoves : (a.subsetAutomaton mode letters addDead).moves (placeName x) symbol = [] := by
    apply List.eq_nil_iff_forall_not_mem.2
    intro m hm
    obtain ⟨letter, hletter, hsame, -⟩ := (mem_moves_placeName_iff hvalid hx).1 hm
    exact hsymbol letter hletter hsame
  rw [next?, hmoves]
  rfl

end Valid

/-- With the dead state no move is missing. -/
theorem exists_placeMove (a : Automaton) (mode : EpsilonMode) (x : Place) (symbol : Atom) :
    ∃ y, a.placeMove mode true x symbol = some y := by
  cases x with
  | none => exact ⟨none, rfl⟩
  | some s =>
      rw [placeMove]
      cases a.subsetMove mode s symbol with
      | none => exact ⟨none, rfl⟩
      | some t => exact ⟨some t, rfl⟩

/-! ## The moves that are missing -/

section Partial

variable (hletters : a.letters mode = .ok letters)
  (hvalid : (a.subsetAutomaton mode letters false).Valid)

include hletters hvalid

/-- A move is missing where a state has none under a letter. -/
theorem lacksMove_iff_moves_eq_nil : a.lacksMove mode letters ↔
    ∃ q ∈ (a.subsetAutomaton mode letters false).names, ∃ symbol ∈ letters,
      (a.subsetAutomaton mode letters false).moves q symbol = [] := by
  have hmissing : ∀ {s}, s ∈ a.subsets mode letters → ∀ {symbol}, symbol ∈ letters →
      ((a.subsetAutomaton mode letters false).moves s.name symbol = [] ↔
        a.subsetMove mode s symbol = none) := by
    intro s hs symbol hsymbol
    have hmoves := moves_placeName hletters hvalid (some_mem_places hs) hsymbol
    rw [placeName, placeMove] at hmoves
    rw [hmoves]
    cases a.subsetMove mode s symbol <;> simp
  rw [lacksMove_iff]
  constructor
  · rintro ⟨s, hs, symbol, hsymbol, hmove⟩
    exact ⟨s.name, mem_names_subsetAutomaton_iff.2 ⟨some s, some_mem_places hs, rfl⟩, symbol,
      hsymbol, (hmissing hs hsymbol).2 hmove⟩
  · rintro ⟨q, hq, symbol, hsymbol, hmoves⟩
    obtain ⟨x, hx, rfl⟩ := mem_names_subsetAutomaton_iff.1 hq
    obtain ⟨s, hs, rfl⟩ | ⟨-, hdead⟩ := mem_places_iff.1 hx
    · exact ⟨s, hs, symbol, hsymbol, (hmissing hs hsymbol).1 hmoves⟩
    · cases hdead

end Partial

/-! ## Completed runs -/

section Completed

variable (hletters : a.letters mode = .ok letters)
  (hvalid : (a.subsetAutomaton mode letters true).Valid)

include hletters hvalid

/-- **With the dead state** every state has exactly one move under each letter. -/
theorem exists_moves_eq_singleton {q : Text}
    (hq : q ∈ (a.subsetAutomaton mode letters true).names) (hsymbol : symbol ∈ letters) :
    ∃ t, (a.subsetAutomaton mode letters true).moves q symbol = [t] := by
  obtain ⟨x, hx, rfl⟩ := mem_names_subsetAutomaton_iff.1 hq
  obtain ⟨y, hy⟩ := a.exists_placeMove mode x symbol
  rw [moves_placeName hletters hvalid hx hsymbol, hy]
  exact ⟨_, rfl⟩

theorem isComplete_subsetAutomaton :
    (a.subsetAutomaton mode letters true).isComplete = .ok true := by
  rw [isComplete_eq_true_iff]
  intro q hq v hv
  obtain ⟨symbol, hsymbol, rfl⟩ := List.mem_map.1 hv
  by_cases hepsilon : symbol = .text epsilon
  · exact .inl (by rw [hepsilon]; rfl)
  · obtain ⟨t, ht⟩ := exists_moves_eq_singleton hletters hvalid hq hsymbol
    exact .inr ⟨symbol, rfl, hasMove_iff.2 ⟨hepsilon, by simp [ht]⟩⟩

/-- **A set recognises the same words** with the dead state and without. -/
theorem recognises_completed_iff (hpartial : (a.subsetAutomaton mode letters false).Valid)
    (hs : s ∈ a.subsets mode letters) :
    (a.subsetAutomaton mode letters true).Recognises (some s.name) word ↔
      (a.subsetAutomaton mode letters false).Recognises (some s.name) word := by
  induction word generalizing s with
  | nil => exact Iff.rfl
  | cons symbol word ih =>
      simp only [recognises_cons_iff, successor_some]
      by_cases hletter : ∃ letter ∈ letters, letter.Same symbol
      · obtain ⟨letter, hletter, hsame⟩ := hletter
        rw [← next?_congr _ _ hsame, ← next?_congr _ _ hsame]
        have hnext := next?_placeName hletters hvalid (some_mem_places hs) hletter
        have hnext' := next?_placeName hletters hpartial (some_mem_places hs) hletter
        rw [placeName, placeMove] at hnext hnext'
        rw [hnext, hnext']
        cases hmove : a.subsetMove mode s letter with
        | none =>
            -- one goes on in the dead state, the other is stuck
            exact iff_of_false not_recognises_deadName (not_recognises_none _ word)
        | some t => exact ih (subsetMove_mem_subsets hs hletter hmove)
      · -- what is no letter has no move, and the dead state does not change that
        simp only [not_exists, not_and] at hletter
        have hnext := next?_placeName_eq_none hvalid (some_mem_places hs) hletter
        have hnext' := next?_placeName_eq_none hpartial (some_mem_places hs) hletter
        rw [placeName] at hnext hnext'
        rw [hnext, hnext']
        exact iff_of_false (not_recognises_none _ word) (not_recognises_none _ word)

/-- **A run on letters** consumes them all. -/
theorem consumed_walk_completed (hx : x ∈ a.places mode letters true) {rest : Text}
    (hrest : ∀ c ∈ rest, symbolOf c ∈ letters) (consumed : Text) (via : List Transition)
    (looks : Nat) :
    let d := a.subsetAutomaton mode letters true
    let r := d.walk d.firstMove .never [placeName x] consumed via looks rest
    r.trace.final.consumed = consumed ++ rest ∧ r.trace.final.remaining = [] := by
  intro d
  induction rest generalizing x consumed via looks with
  | nil => exact ⟨(List.append_nil consumed).symm, rfl⟩
  | cons c rest ih =>
      obtain ⟨hc, hrest⟩ := List.forall_mem_cons.1 hrest
      obtain ⟨y, hy⟩ := a.exists_placeMove mode x (symbolOf c)
      have hland := d.land_fire_firstMove (placeName x) c
      rw [next?_placeName hletters hvalid hx hc, hy] at hland
      have hnext := ih (placeMove_mem_places hx hc hy) hrest (consumed ++ [c])
        (d.firstMove.fire [placeName x] c) (looks + 1)
      rw [List.append_assoc] at hnext
      simp only [walk, Cancellation.raisedAt_never, Bool.false_eq_true, if_false, hland]
      exact hnext

end Completed

/-! ## With and without -/

theorem atom_mem_alphabet_iff : .atom symbol ∈ (a.subsetAutomaton mode letters addDead).alphabet ↔
    symbol ∈ letters := by
  simp [subsetAutomaton]

/-- **What the dead state does.**  With it every state has exactly one move under each symbol of
the alphabet, so that the automaton is complete.  It is there if a state without it lacks a move
under a symbol of the alphabet, and else nothing changes.  It does not accept and is not left.
The same inputs are accepted with it and without, and a run on symbols of the alphabet is never
stuck. -/
theorem determinise_deadState {a d d' : Automaton} {epsilonMode : Json}
    (hd : a.determinise epsilonMode false = .ok d)
    (hd' : a.determinise epsilonMode true = .ok d') :
    (∀ q ∈ d'.names, ∀ v ∈ d'.alphabet, ∃ symbol t, v = .atom symbol ∧ d'.moves q symbol = [t]) ∧
    d'.isComplete = .ok true ∧
    (deadName ∈ d'.names ↔
      ∃ q ∈ d.names, ∃ symbol, .atom symbol ∈ d.alphabet ∧ d.moves q symbol = []) ∧
    (deadName ∉ d'.names → d' = d) ∧
    deadName ∉ d'.accepting ∧ (∀ t ∈ d'.transitions, t.source = deadName → t.target = deadName) ∧
    ∀ input : Text, (d'.runDfa input .never).accepted = (d.runDfa input .never).accepted ∧
      ((∀ c ∈ input, .atom (symbolOf c) ∈ d'.alphabet) →
        (d'.runDfa input .never).run.trace.final.consumed = input ∧
          (d'.runDfa input .never).run.trace.final.remaining = []) := by
  obtain ⟨mode, letters, hmode, hletters, rfl, hvalid⟩ := determinise_eq_ok hd
  obtain ⟨mode', letters', hmode', hletters', rfl, hvalid'⟩ := determinise_eq_ok hd'
  obtain rfl := Except.ok.inj (hmode.symm.trans hmode')
  obtain rfl := Except.ok.inj (hletters.symm.trans hletters')
  refine ⟨?total, isComplete_subsetAutomaton hletters hvalid', ?dead, ?same,
    deadName_not_mem_accepting, fun t ht => target_eq_deadName ht, fun input => ⟨?language, ?whole⟩⟩
  case total =>
    intro q hq v hv
    obtain ⟨symbol, hsymbol, rfl⟩ := List.mem_map.1 hv
    obtain ⟨t, ht⟩ := exists_moves_eq_singleton hletters hvalid' hq hsymbol
    exact ⟨symbol, t, rfl, ht⟩
  case dead =>
    simp only [deadName_mem_names_iff, true_and, atom_mem_alphabet_iff]
    exact lacksMove_iff_moves_eq_nil hletters hvalid
  case same =>
    intro hdead
    exact subsetAutomaton_of_not_lacksMove fun h => hdead (deadName_mem_names_iff.2 ⟨rfl, h⟩)
  case language =>
    rw [Bool.eq_iff_iff, accepted_runDfa_iff, accepted_runDfa_iff]
    exact recognises_completed_iff hletters hvalid' hvalid startSet_mem_subsets
  case whole =>
    intro hinput
    exact consumed_walk_completed hletters hvalid' (some_mem_places startSet_mem_subsets)
      (fun c hc => atom_mem_alphabet_iff.1 (hinput c hc)) [] [] 0

/-- A state and a move under one of two symbols. -/
def onceA : Automaton where
  states := [⟨"p", true, false⟩, ⟨"q", false, true⟩]
  alphabet := [.text "a", .text "b"]
  transitions := [⟨"p", "q", .text "a"⟩]
  start := "p"
  accepting := ["q"]

/-- The dead state is needed, and a run goes on in it. -/
theorem determinise_deadState_onceA : ∃ d d', onceA.determinise (.text "literal") false = .ok d ∧
    onceA.determinise (.text "literal") true = .ok d' ∧
    d'.isComplete = .ok true ∧ deadName ∈ d'.names ∧
    (d'.runDfa "a" .never).accepted = (d.runDfa "a" .never).accepted ∧
    (d.runDfa "bab" .never).run.trace.final.remaining = "bab" ∧
    (d'.runDfa "bab" .never).run.trace.final.remaining = [] := by
  have hd : onceA.determinise (.text "literal") false =
      .ok (onceA.subsetAutomaton .literal [.text "a", .text "b"] false) := by rfl
  have hd' : onceA.determinise (.text "literal") true =
      .ok (onceA.subsetAutomaton .literal [.text "a", .text "b"] true) := by rfl
  obtain ⟨-, hcomplete, hdead, -, -, -, hruns⟩ := determinise_deadState hd hd'
  have hletters : ∀ c ∈ ("bab" : Text), symbolOf c ∈ [.text "a", .text "b"] := by decide
  refine ⟨_, _, hd, hd', hcomplete, hdead.2 ⟨_, List.mem_cons_self, .text "b", ?_, by rfl⟩,
    (hruns "a").1, by rfl, ((hruns "bab").2 fun c hc => ?_).2⟩
  · exact atom_mem_alphabet_iff.2 (by decide)
  · exact atom_mem_alphabet_iff.2 (hletters c hc)

end FormalMachines.Finite.Automaton
