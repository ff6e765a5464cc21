import FormalMachines.Finite.Run
import FormalMachines.Proofs.Finite.Subset

/-!
# FormalMachines.Proofs.Finite.Simulation

A deterministic run on the subset automaton shows the nondeterministic run.

Both runs go forward together: where the nondeterministic run is in some states, the
deterministic one is in the state that has the name of their set.  One code point takes
the states to their successors as a list (`land_allMoves`) and their set along its move
(`land_firstMove`), so the two stop at the same place with the same verdict
(`runDfa_determinise`).

Where `ε` is the empty word, the subset automaton has no letter for it; a run on an input
that holds the code point `ε` is left out.
-/

namespace FormalMachines.Finite

/-- Whether a step shows another by the name of its set of states: it stands at the same
place of the input, with the same verdict. -/
structure Step.Names (d n : Step) : Prop where
  states : d.states = [(NameSet.ofList n.states).name]
  remaining : d.remaining = n.remaining
  consumed : d.consumed = n.consumed
  accepted : d.accepted = n.accepted

namespace Automaton

variable {a : Automaton} {mode : EpsilonMode} {letters : List Atom} {states : List Text}
  {s : NameSet} {c : CodePoint}

/-! ## One code point -/

theorem mem_targetSet_ofList_iff {q : Text} :
    q ∈ a.targetSet (.ofList states) (symbolOf c) ↔
      q ∈ ((a.movesFrom states c).map (·.target)).eraseDups := by
  have hequals : ∀ t : Transition, t.symbol.Equals (symbolOf c) ↔ t.symbol.Same (symbolOf c) :=
    fun t => Atom.equals_iff_same nofun
  simp only [mem_targetSet, NameSet.mem_ofList, List.mem_eraseDups, List.mem_map, movesFrom,
    List.mem_flatMap, mem_moves, hequals]
  grind

/-- The nondeterministic run goes on in the states of the set that the move of its set
leads to. -/
theorem land_allMoves (a : Automaton) (mode : EpsilonMode) (states : List Text)
    (c : CodePoint) :
    a.subsetMove mode (.ofList states) (symbolOf c) =
      match (a.allMoves mode).land (a.movesFrom states c) with
      | [] => none
      | q :: more => some (.ofList (q :: more)) := by
  have hnil : (a.targetSet (.ofList states) (symbolOf c)).toList = [] ↔
      (a.allMoves mode).land (a.movesFrom states c) = [] := by
    rw [show (a.allMoves mode).land (a.movesFrom states c) =
      a.close mode ((a.movesFrom states c).map (·.target)).eraseDups from rfl, close_eq_nil_iff]
    simp only [List.eq_nil_iff_forall_not_mem, NameSet.mem_toList, mem_targetSet_ofList_iff]
  cases hland : (a.allMoves mode).land (a.movesFrom states c) with
  | nil =>
      simp only [subsetMove, NameSet.isEmpty, List.isEmpty_iff, hnil.2 hland, if_true]
  | cons q more =>
      have hne : (a.targetSet (.ofList states) (symbolOf c)).toList ≠ [] := by
        rw [Ne, hnil, hland]
        exact List.cons_ne_nil q more
      have hset : a.closeSet mode (a.targetSet (.ofList states) (symbolOf c)).toList =
          .ofList (q :: more) := by
        apply NameSet.ext
        intro p
        rw [closeSet, NameSet.mem_ofList, NameSet.mem_ofList, ← hland]
        exact mem_close_congr fun r => mem_targetSet_ofList_iff
      exact subsetMove_eq_some_iff.2 ⟨hne, hset.symm⟩

/-- A code point that takes a set anywhere is a letter. -/
theorem symbolOf_mem_letters (hletters : a.letters mode = .ok letters)
    (hc : mode.isLetter (symbolOf c)) {t : NameSet}
    (h : a.subsetMove mode s (symbolOf c) = some t) : symbolOf c ∈ letters := by
  obtain ⟨hne, _⟩ := subsetMove_eq_some_iff.1 h
  obtain ⟨q, hq⟩ := List.exists_mem_of_ne_nil _ hne
  obtain ⟨m, hm, ⟨_, hsame, _⟩, _⟩ := mem_targetSet.1 hq
  have hsymbol : m.symbol = symbolOf c := Atom.key_eq_text_iff.1 hsame
  obtain ⟨letter, hletter, hkey⟩ := exists_letter hletters hm (hsymbol ▸ hc)
  have hlettersymbol : letter = symbolOf c := Atom.key_eq_text_iff.1 (hkey.trans hsame)
  exact hlettersymbol ▸ hletter

/-- The deterministic run on the subset automaton goes on in the name of the set that the
move of its set leads to. -/
theorem land_firstMove (hletters : a.letters mode = .ok letters)
    (hvalid : (a.subsetAutomaton mode letters false).Valid)
    (hs : s ∈ a.subsets mode letters) (hc : mode.isLetter (symbolOf c)) :
    let d := a.subsetAutomaton mode letters false
    d.firstMove.land (d.firstMove.fire [s.name] c) =
      match a.subsetMove mode s (symbolOf c) with
      | none => []
      | some t => [t.name] := by
  intro d
  have hfire : d.firstMove.fire [s.name] c = (d.moves s.name (symbolOf c)).take 1 := by
    simp [firstMove, movesFrom]
  rw [hfire]
  cases hmoves : d.moves s.name (symbolOf c) with
  | nil =>
      cases hmove : a.subsetMove mode s (symbolOf c) with
      | none => rfl
      | some t =>
          -- the letter would give a move
          have hletter := symbolOf_mem_letters hletters hc hmove
          have hmem := (mem_moves_subsetAutomaton_iff hvalid hs).2
            ⟨symbolOf c, hletter, rfl, t, hmove, rfl⟩
          change _ ∈ d.moves s.name (symbolOf c) at hmem
          rw [hmoves] at hmem
          exact absurd hmem List.not_mem_nil
  | cons m more =>
      have hmem : m ∈ d.moves s.name (symbolOf c) := by rw [hmoves]; exact List.mem_cons_self
      obtain ⟨letter, _, hsame, t, hmove, hm⟩ := (mem_moves_subsetAutomaton_iff hvalid hs).1 hmem
      have hletter : letter = symbolOf c := Atom.key_eq_text_iff.1 hsame
      rw [← hletter, hmove, hm]
      rfl

/-! ## Whole runs -/

/-- Runs that stand at the same place, one in some states and one in the name of their
set, go on alike. -/
theorem walk_subsetAutomaton (hletters : a.letters mode = .ok letters)
    (hvalid : (a.subsetAutomaton mode letters false).Valid) (cancel : Cancellation)
    (rest : Text) (hrest : ∀ c ∈ rest, mode.isLetter (symbolOf c)) (states : List Text)
    (hs : NameSet.ofList states ∈ a.subsets mode letters) (consumed : Text)
    (via via' : List Transition) (looks : Nat) :
    let d := a.subsetAutomaton mode letters false
    let r := d.walk d.firstMove cancel [(NameSet.ofList states).name] consumed via looks rest
    let r' := a.walk (a.allMoves mode) cancel states consumed via' looks rest
    r.outcome = r'.outcome ∧ List.Forall₂ Step.Names r.steps r'.steps := by
  intro d
  induction rest generalizing states consumed via via' looks with
  | nil =>
      have haccepts : d.acceptsIn [(NameSet.ofList states).name] = a.acceptsIn states := by
        have hname := name_mem_accepting_iff hvalid hs
        rw [Bool.eq_iff_iff]
        simpa [acceptsIn, NameSet.mem_toList] using hname
      simp only [walk, haccepts]
      exact ⟨rfl, .cons ⟨rfl, rfl, rfl, rfl⟩ .nil⟩
  | cons c rest ih =>
      have hc : mode.isLetter (symbolOf c) := hrest c (by simp)
      have hland := land_firstMove hletters hvalid hs hc
      rw [land_allMoves] at hland
      simp only [walk]
      by_cases hcancel : cancel.raisedAt looks
      · simp only [hcancel, if_true]
        exact ⟨rfl, .cons ⟨rfl, rfl, rfl, rfl⟩ .nil⟩
      · simp only [hcancel, if_false, Bool.false_eq_true]
        rw [show (a.allMoves mode).fire states c = a.movesFrom states c from rfl]
        cases hnext : (a.allMoves mode).land (a.movesFrom states c) with
        | nil =>
            rw [hnext] at hland
            simp only [d, hland]
            exact ⟨rfl, .cons ⟨rfl, rfl, rfl, rfl⟩ (.cons ⟨rfl, rfl, rfl, rfl⟩ .nil)⟩
        | cons q more =>
            rw [hnext] at hland
            simp only [d, hland]
            have hmove := land_allMoves a mode states c
            rw [hnext] at hmove
            have hletter := symbolOf_mem_letters hletters hc hmove
            have hmem := subsetMove_mem_subsets hs hletter hmove
            obtain ⟨houtcome, hsteps⟩ := ih (fun c hc => hrest c (by simp [hc])) (q :: more) hmem
              (consumed ++ [c]) _ (a.movesFrom states c) (looks + 1)
            exact ⟨houtcome, .cons ⟨rfl, rfl, rfl, rfl⟩ hsteps⟩

/-- What a successful determinisation is. -/
theorem determinise_eq_ok {epsilonMode : Json} {addDead : Bool} {d : Automaton}
    (h : a.determinise epsilonMode addDead = .ok d) :
    ∃ mode letters, EpsilonMode.ofJson epsilonMode = .ok mode ∧ a.letters mode = .ok letters ∧
      d = a.subsetAutomaton mode letters addDead ∧ d.Valid := by
  unfold determinise at h
  cases hmode : EpsilonMode.ofJson epsilonMode with
  | error e => rw [hmode] at h; cases h
  | ok mode =>
      rw [hmode] at h
      cases hletters : a.letters mode with
      | error e => simp only [bind, Except.bind, hletters] at h; cases h
      | ok letters =>
          simp only [bind, Except.bind, hletters] at h
          obtain ⟨hvalid, rfl⟩ := (checked_eq_ok_iff _ _).1 h
          exact ⟨mode, letters, rfl, hletters, rfl, hvalid⟩

/-- **The deterministic run on the subset automaton** shows the nondeterministic run step
by step: it ends alike, and each of its steps is in the state named for the set of states
of the other's, at the same place of the input. -/
theorem runDfa_determinise {a d : Automaton} {epsilonMode : Json} {input : Text}
    (hd : a.determinise epsilonMode false = .ok d)
    (hinput : EpsilonMode.ofJson epsilonMode = .ok .closure → .char 'ε' ∉ input)
    (cancel : Cancellation) :
    ∃ n, a.simulateNfa epsilonMode input cancel = .ok n ∧
      (d.runDfa input cancel).run.accepts = n.run.accepts ∧
      (d.runDfa input cancel).run.outcome = n.run.outcome ∧
      List.Forall₂ Step.Names (d.runDfa input cancel).run.steps n.run.steps := by
  obtain ⟨mode, letters, hmode, hletters, hdef, hvalid⟩ := determinise_eq_ok hd
  subst hdef
  refine ⟨a.runNfa mode input cancel, by simp [simulateNfa, hmode, bind, Except.bind, pure,
    Except.pure], ?_⟩
  have hisLetter : ∀ c ∈ input, mode.isLetter (symbolOf c) := by
    intro c hc
    cases mode with
    | literal => rfl
    | closure =>
        have hne : c ≠ .char 'ε' := fun h => hinput hmode (h ▸ hc)
        simp [EpsilonMode.isLetter, symbolOf, epsilon, hne]
  have hwalk := walk_subsetAutomaton hletters hvalid cancel input hisLetter
    (a.close mode [a.start]) startSet_mem_subsets [] [] [] 0
  exact ⟨(a.agrees_run _ input cancel).accepts_congr (agrees_run _ _ input cancel) hwalk.1, hwalk⟩

/-- Two states that `ε`-moves join in a circle; the second accepts and reads `a`. -/
def silentCircle : Automaton where
  states := [⟨[.char 'p'], true, false⟩, ⟨[.char 'q'], false, true⟩]
  alphabet := [.text [.char 'a']]
  transitions := [⟨[.char 'p'], [.char 'q'], .text epsilon⟩,
    ⟨[.char 'q'], [.char 'p'], .text epsilon⟩, ⟨[.char 'q'], [.char 'q'], .text [.char 'a']⟩]
  start := [.char 'p']
  accepting := [[.char 'q']]

/-- Its subset automaton. -/
def silentCircleSets : Automaton :=
  silentCircle.subsetAutomaton .closure [.text [.char 'a']] false

theorem runDfa_determinise_silentCircle :
    silentCircle.determinise (.text "closure") false = .ok silentCircleSets ∧
      .char 'ε' ∉ [CodePoint.char 'a'] ∧
      ∃ n, silentCircle.simulateNfa (.text "closure") [.char 'a'] .never = .ok n ∧
        (silentCircleSets.runDfa [.char 'a'] .never).run.accepts = n.run.accepts ∧
        (silentCircleSets.runDfa [.char 'a'] .never).run.outcome = n.run.outcome ∧
        List.Forall₂ Step.Names (silentCircleSets.runDfa [.char 'a'] .never).run.steps
          n.run.steps := by
  have hd : silentCircle.determinise (.text "closure") false = .ok silentCircleSets := by rfl
  have hinput : .char 'ε' ∉ [CodePoint.char 'a'] := by decide
  exact ⟨hd, hinput, runDfa_determinise hd (fun _ => hinput) .never⟩

end Automaton

end FormalMachines.Finite
