import FormalMachines.Finite.Path
import FormalMachines.Finite.Run
import FormalMachines.Proofs.Finite.Closure

/-!
# FormalMachines.Proofs.Finite.Nondeterministic

The nondeterministic run is in the states that paths reach.

After each code point the run is in exactly the states that are reached by what it has
consumed, each once (`Automaton.Tracks`): the closure adds what paths that read nothing
reach (`mem_close_iff`), and a path that reads one code point falls into a silent part, one
move and a silent part (`reaches_singleton_iff`), of which the first is already closed
over.  From one code point (`tracks_land`) it follows for whole runs that they accept the
language of paths and do not depend on the order of the moves (`runNfa_decides_paths`).
-/

namespace FormalMachines.Finite

/-- Whether two steps stand at the same place in the same states, with the same verdict. -/
structure Step.Alike (d n : Step) : Prop where
  states : d.states.Perm n.states
  remaining : d.remaining = n.remaining
  consumed : d.consumed = n.consumed
  accepted : d.accepted = n.accepted

namespace Automaton

variable {a b : Automaton} {mode : EpsilonMode} {p q : Text} {c : CodePoint} {word : Text}
  {states : List Text}

/-! ## Silent paths -/

theorem mem_epsilonTargets_iff :
    q ∈ a.epsilonTargets p ↔ ∃ t ∈ a.transitions, t.source = p ∧ t.isEpsilon ∧ t.target = q := by
  simp only [epsilonTargets, List.mem_map, mem_moves, Atom.Same, Transition.isEpsilon,
    decide_eq_true_eq, and_assoc]
  exact exists_congr fun t => and_congr_right' (and_congr_right' (and_congr_left'
    Atom.key_eq_text_iff))

/-- Paths that read nothing go along `ε`-moves. -/
theorem reaches_closure_nil_iff : a.Reaches .closure p [] q ↔
    Relation.ReflTransGen (fun x y => y ∈ a.epsilonTargets x) p q := by
  constructor
  · intro ⟨path, hpath, hreads⟩
    induction path generalizing p with
    | nil => rw [path_nil_iff.1 hpath]
    | cons t path ih =>
        obtain ⟨hmem, hsource, hrest⟩ := path_cons_iff.1 hpath
        cases hreads with
        | silent _ hlabel hreads =>
            exact .head (mem_epsilonTargets_iff.2 ⟨t, hmem, hsource, hlabel, rfl⟩)
              (ih hrest hreads)
  · intro h
    induction h using Relation.ReflTransGen.head_induction_on with
    | refl => exact ⟨[], .nil q, .nil⟩
    | head hmove _ ih =>
        obtain ⟨t, hmem, hsource, hlabel, htarget⟩ := mem_epsilonTargets_iff.1 hmove
        obtain ⟨path, hpath, hreads⟩ := ih
        subst htarget
        exact ⟨t :: path, path_cons_iff.2 ⟨hmem, hsource, hpath⟩, .silent rfl hlabel hreads⟩

theorem reaches_nil (a : Automaton) (mode : EpsilonMode) (p : Text) : a.Reaches mode p [] p :=
  ⟨[], .nil p, .nil⟩

/-- **The closure** adds what is reached without reading. -/
theorem mem_close_iff : q ∈ a.close mode states ↔ ∃ p ∈ states, a.Reaches mode p [] q := by
  cases mode with
  | literal => simp [close, reaches_literal_nil_iff]
  | closure =>
      simp only [reaches_closure_nil_iff]
      exact mem_epsilonClosure_iff

theorem nodup_close (h : states.Nodup) : (a.close mode states).Nodup := by
  cases mode with
  | literal => exact h
  | closure => exact a.nodup_epsilonClosure states

/-! ## One code point -/

/-- **A path that reads one code point** has one move that does, between silent parts. -/
theorem reaches_singleton_iff : a.Reaches mode p [c] q ↔
    ∃ r, a.Reaches mode p [] r ∧ ∃ t ∈ a.moves r (symbolOf c), a.Reaches mode t.target [] q := by
  constructor
  · intro ⟨path, hpath, hreads⟩
    induction path generalizing p with
    | nil => cases hreads
    | cons t path ih =>
        obtain ⟨hmem, hsource, hrest⟩ := path_cons_iff.1 hpath
        cases hreads with
        | letter hlabel hreads =>
            have hmove : t ∈ a.moves p (symbolOf c) :=
              mem_moves.2 ⟨hmem, hsource, congrArg Atom.key hlabel⟩
            exact ⟨p, a.reaches_nil mode p, t, hmove, path, hrest, hreads⟩
        | silent hmode hlabel hreads =>
            obtain ⟨r, ⟨front, hfront, hsilent⟩, hmove⟩ := ih hrest hreads
            exact ⟨r, ⟨t :: front, path_cons_iff.2 ⟨hmem, hsource, hfront⟩,
              .silent hmode hlabel hsilent⟩, hmove⟩
  · intro ⟨r, hfront, t, ht, hback⟩
    obtain ⟨hmem, hsource, hsame⟩ := mem_moves.1 ht
    have hmove : a.Reaches mode r [c] t.target :=
      ⟨[t], path_cons_iff.2 ⟨hmem, hsource, .nil _⟩, .letter (Atom.key_eq_text_iff.1 hsame) .nil⟩
    have hread := reaches_append_iff.2 ⟨r, hfront, hmove⟩
    exact reaches_append_iff.2 ⟨t.target, hread, hback⟩

/-- Whether a list holds the states that a word reaches from the start, each once. -/
def Tracks (a : Automaton) (mode : EpsilonMode) (word : Text) (states : List Text) : Prop :=
  states.Nodup ∧ ∀ q, q ∈ states ↔ a.Reaches mode a.start word q

theorem tracks_start (a : Automaton) (mode : EpsilonMode) :
    a.Tracks mode [] (a.allMoves mode).start := by
  refine ⟨nodup_close (List.nodup_singleton a.start), fun q => ?_⟩
  rw [show (a.allMoves mode).start = a.close mode [a.start] from rfl, mem_close_iff]
  simp

/-- **One code point** takes the states that a word reaches to those that it reaches together
with the code point. -/
theorem tracks_land (h : a.Tracks mode word states) (c : CodePoint) :
    a.Tracks mode (word ++ [c]) ((a.allMoves mode).land ((a.allMoves mode).fire states c)) := by
  refine ⟨nodup_close (Distinct.nodup_eraseDups _), fun q => ?_⟩
  rw [show (a.allMoves mode).land ((a.allMoves mode).fire states c) =
    a.close mode ((a.movesFrom states c).map (·.target)).eraseDups from rfl, mem_close_iff,
    reaches_append_iff]
  simp only [List.mem_eraseDups, List.mem_map, movesFrom, List.mem_flatMap]
  constructor
  · intro ⟨p, ⟨t, ⟨r, hr, ht⟩, htarget⟩, hreaches⟩
    subst htarget
    have hmove := reaches_singleton_iff.2 ⟨r, a.reaches_nil mode r, t, ht, hreaches⟩
    exact ⟨r, (h.2 r).1 hr, hmove⟩
  · intro ⟨r, hr, hread⟩
    obtain ⟨s, hsilent, t, ht, hreaches⟩ := reaches_singleton_iff.1 hread
    -- what is reached without reading is among the states already
    have hs : a.Reaches mode a.start (word ++ []) s := reaches_append_iff.2 ⟨r, hr, hsilent⟩
    rw [List.append_nil] at hs
    exact ⟨t.target, ⟨t, ⟨s, (h.2 s).2 hs, ht⟩, rfl⟩, hreaches⟩

theorem Tracks.eq_nil_iff (h : a.Tracks mode word states) :
    states = [] ↔ ¬ ∃ q, a.Reaches mode a.start word q := by
  rw [List.eq_nil_iff_forall_not_mem, not_exists]
  exact forall_congr' fun q => not_congr (h.2 q)

/-- A word that continues one that reaches nothing reaches nothing. -/
theorem not_reaches_append {u v : Text} (h : ¬ ∃ q, a.Reaches mode p u q) :
    ¬ ∃ q, a.Reaches mode p (u ++ v) q := by
  intro ⟨q, hq⟩
  obtain ⟨r, hr, _⟩ := reaches_append_iff.1 hq
  exact h ⟨r, hr⟩

/-! ## Whole runs -/

/-- What a run tells of the paths that read an input, of which it has consumed a part: whether
one of them ends in an accepting state, and which states they reach after each part of the
input, as long as they reach any. -/
structure Decides (a : Automaton) (mode : EpsilonMode) (front rest : Text) (r : Run Step) :
    Prop where
  verdict : r.outcome = .accepted ∨ r.outcome = .rejected
  accepted : r.outcome = .accepted ↔
    ∃ q ∈ a.accepting, a.Reaches mode a.start (front ++ rest) q
  steps : ∀ s ∈ r.steps, s.consumed ++ s.remaining = front ++ rest ∧
    a.Tracks mode s.consumed s.states
  covers : ∀ u v, u ++ v = rest → (∃ q, a.Reaches mode a.start (front ++ u) q) →
    ∃ s ∈ r.steps, s.consumed = front ++ u

/-- A run in the states that are reached decides at the end of the input. -/
theorem decides_end (h : a.Tracks mode word states) (via : List Transition) :
    a.Decides mode word [] (.stop ⟨states, [], word, via, some (a.acceptsIn states)⟩
      (a.acceptsIn states) (.ofVerdict (a.acceptsIn states))) := by
  constructor
  · show Outcome.ofVerdict (a.acceptsIn states) = .accepted ∨
      Outcome.ofVerdict (a.acceptsIn states) = .rejected
    cases a.acceptsIn states with
    | true => exact .inl rfl
    | false => exact .inr rfl
  · rw [List.append_nil]
    refine Outcome.ofVerdict_eq_accepted_iff.trans ?_
    simp only [acceptsIn, List.any_eq_true, decide_eq_true_eq, h.2]
    exact exists_congr fun q => and_comm
  · intro s hs
    rw [List.mem_singleton.1 hs]
    exact ⟨rfl, h⟩
  · intro u v huv _
    refine ⟨_, List.mem_singleton_self _, ?_⟩
    rw [(List.append_eq_nil_iff.1 huv).1, List.append_nil]

/-- A run that has no state to go to rejects rightly. -/
theorem decides_stuck (h : a.Tracks mode word states) (c : CodePoint) (rest : Text)
    (via : List Transition) (hstuck : ¬ ∃ q, a.Reaches mode a.start (word ++ [c]) q) :
    a.Decides mode word (c :: rest) ((Run.stop ⟨states, c :: rest, word, [], some false⟩
      false .rejected).cons ⟨states, c :: rest, word, via, none⟩) := by
  have hnone : ∀ v, ¬ ∃ q, a.Reaches mode a.start (word ++ c :: v) q := by
    intro v
    rw [List.append_cons]
    exact not_reaches_append hstuck
  constructor
  · exact .inr rfl
  · refine iff_of_false (fun h => Outcome.noConfusion h) ?_
    intro ⟨q, _, hq⟩
    exact hnone rest ⟨q, hq⟩
  · intro s hs
    obtain hs | hs := List.mem_cons.1 hs
    · rw [hs]
      exact ⟨rfl, h⟩
    · rw [List.mem_singleton.1 hs]
      exact ⟨rfl, h⟩
  · intro u v huv hreached
    cases u with
    | nil => exact ⟨_, List.mem_cons_self, by rw [List.append_nil]⟩
    | cons d u =>
        rw [(List.cons.inj huv).1] at hreached
        exact absurd hreached (hnone u)

/-- A run that goes on rightly decides. -/
theorem Decides.cons (h : a.Tracks mode word states) {c : CodePoint} {rest : Text} {r : Run Step}
    (hr : a.Decides mode (word ++ [c]) rest r) (via : List Transition) :
    a.Decides mode word (c :: rest) (r.cons ⟨states, c :: rest, word, via, none⟩) := by
  constructor
  · exact hr.verdict
  · rw [List.append_cons]
    exact hr.accepted
  · intro s hs
    obtain hs | hs := List.mem_cons.1 hs
    · rw [hs]
      exact ⟨rfl, h⟩
    · rw [List.append_cons]
      exact hr.steps s hs
  · intro u v huv hreached
    cases u with
    | nil => exact ⟨_, List.mem_cons_self, by rw [List.append_nil]⟩
    | cons d u =>
        obtain ⟨hdc, huv⟩ := List.cons.inj huv
        rw [hdc, List.append_cons] at hreached ⊢
        obtain ⟨s, hs, hconsumed⟩ := hr.covers u v huv hreached
        exact ⟨s, List.mem_cons_of_mem _ hs, hconsumed⟩

/-- A run that is in the states reached goes on to decide. -/
theorem decides_walk (rest word : Text) (states : List Text) (h : a.Tracks mode word states)
    (via : List Transition) (looks : Nat) :
    a.Decides mode word rest (a.walk (a.allMoves mode) .never states word via looks rest) := by
  induction rest generalizing word states via looks with
  | nil => exact decides_end h via
  | cons c rest ih =>
      have hnext := tracks_land h c
      simp only [walk, Cancellation.raisedAt_never, Bool.false_eq_true, if_false]
      cases hland : (a.allMoves mode).land ((a.allMoves mode).fire states c) with
      | nil => exact decides_stuck h c rest via (hnext.eq_nil_iff.1 hland)
      | cons q more =>
          rw [hland] at hnext
          exact (ih _ _ hnext _ _).cons h via

/-! ## The order of the moves -/

/-- Lists of the states that a word reaches hold the same. -/
theorem Tracks.perm {others : List Text} (h : a.Tracks mode word states)
    (h' : a.Tracks mode word others) : others.Perm states :=
  (List.perm_ext_iff_of_nodup h'.1 h.1).2 fun q => (h'.2 q).trans (h.2 q).symm

theorem path_of_subset (h : ∀ t ∈ a.transitions, t ∈ b.transitions) {path : List Transition}
    (hpath : a.Path p path q) : b.Path p path q := by
  induction hpath with
  | nil p => exact .nil p
  | cons hmem _ ih => exact .cons (h _ hmem) ih

/-- What a word reaches depends on the moves as a set alone. -/
theorem tracks_congr (hstart : b.start = a.start)
    (hmoves : ∀ t, t ∈ b.transitions ↔ t ∈ a.transitions) :
    b.Tracks mode word states ↔ a.Tracks mode word states := by
  have hreaches : ∀ q, b.Reaches mode b.start word q ↔ a.Reaches mode a.start word q := by
    intro q
    rw [hstart]
    exact exists_congr fun path => and_congr_left' ⟨path_of_subset fun t => (hmoves t).1,
      path_of_subset fun t => (hmoves t).2⟩
  simp only [Tracks, hreaches]

/-- Runs in the same states go on alike, if words reach the same in both automata. -/
theorem alike_walk (haccepting : b.accepting = a.accepting)
    (hsame : ∀ word states, b.Tracks mode word states ↔ a.Tracks mode word states)
    (rest word : Text) (states others : List Text) (h : a.Tracks mode word states)
    (h' : a.Tracks mode word others) (via via' : List Transition) (looks : Nat) :
    let r := a.walk (a.allMoves mode) .never states word via looks rest
    let r' := b.walk (b.allMoves mode) .never others word via' looks rest
    r'.outcome = r.outcome ∧ List.Forall₂ Step.Alike r'.steps r.steps := by
  induction rest generalizing word states others via via' looks with
  | nil =>
      have haccepts : b.acceptsIn others = a.acceptsIn states := by
        rw [acceptsIn, acceptsIn, haccepting]
        exact (h.perm h').any_eq
      simp only [walk, haccepts]
      exact ⟨rfl, .cons ⟨h.perm h', rfl, rfl, rfl⟩ .nil⟩
  | cons c rest ih =>
      have hnext := tracks_land h c
      have hnext' := (hsame _ _).1 (tracks_land ((hsame _ _).2 h') c)
      have hperm := hnext.perm hnext'
      simp only [walk, Cancellation.raisedAt_never, Bool.false_eq_true, if_false]
      cases hland : (a.allMoves mode).land ((a.allMoves mode).fire states c) with
      | nil =>
          rw [hland] at hperm
          rw [hperm.eq_nil]
          exact ⟨rfl, .cons ⟨h.perm h', rfl, rfl, rfl⟩ (.cons ⟨h.perm h', rfl, rfl, rfl⟩ .nil)⟩
      | cons q more =>
          rw [hland] at hnext hperm
          cases hland' : (b.allMoves mode).land ((b.allMoves mode).fire others c) with
          | nil =>
              rw [hland'] at hperm
              exact absurd hperm.nil_eq (List.cons_ne_nil q more).symm
          | cons q' more' =>
              rw [hland'] at hnext'
              obtain ⟨houtcome, hsteps⟩ := ih _ _ _ hnext hnext' _ _ (looks + 1)
              exact ⟨houtcome, .cons ⟨h.perm h', rfl, rfl, rfl⟩ hsteps⟩

/-- **The nondeterministic run** accepts an input exactly if a path that reads it leads from
the start to an accepting state, and rejects it else.  Each of its steps lists, without
repetition, the states that the part consumed by then reaches, and there is a step for each
part that reaches any.  Another order of the moves changes neither the verdict nor which
states are listed. -/
theorem runNfa_decides_paths (a : Automaton) (mode : EpsilonMode) (input : Text) :
    let r := (a.runNfa mode input .never).run
    (r.outcome = .accepted ↔
      ∃ path, ∃ q ∈ a.accepting, a.Path a.start path q ∧ Reads mode path input) ∧
    (r.accepts ↔ r.outcome = .accepted) ∧
    (r.outcome = .accepted ∨ r.outcome = .rejected) ∧
    (∀ s ∈ r.steps, s.consumed ++ s.remaining = input ∧ s.states.Nodup ∧
      ∀ q, q ∈ s.states ↔ ∃ path, a.Path a.start path q ∧ Reads mode path s.consumed) ∧
    (∀ u v, u ++ v = input → (∃ path q, a.Path a.start path q ∧ Reads mode path u) →
      ∃ s ∈ r.steps, s.consumed = u) ∧
    ∀ moves : List Transition, moves.Perm a.transitions →
      let r' := (({ a with transitions := moves } : Automaton).runNfa mode input .never).run
      r'.accepts = r.accepts ∧ r'.outcome = r.outcome ∧
        List.Forall₂ Step.Alike r'.steps r.steps := by
  have hstart := a.tracks_start mode
  have h := decides_walk input [] _ hstart [] 0
  intro r
  refine ⟨?_, a.agrees_run _ input .never, h.verdict, fun s hs => ?_,
    fun u v huv hreached => ?_, fun moves hmoves => ?_⟩
  · refine h.accepted.trans ?_
    constructor
    · intro ⟨q, hq, path, hpath⟩
      exact ⟨path, q, hq, hpath⟩
    · intro ⟨path, q, hq, hpath⟩
      exact ⟨q, hq, path, hpath⟩
  · obtain ⟨hsplit, hnodup, hmem⟩ := h.steps s hs
    exact ⟨hsplit, hnodup, hmem⟩
  · obtain ⟨path, q, hpath⟩ := hreached
    exact h.covers u v huv ⟨q, path, hpath⟩
  · let b : Automaton := { a with transitions := moves }
    have hsame : ∀ word states, b.Tracks mode word states ↔ a.Tracks mode word states :=
      fun _ _ => tracks_congr rfl fun t => hmoves.mem_iff
    have hstart' := (hsame _ _).1 (b.tracks_start mode)
    have haccepting : b.accepting = a.accepting := rfl
    have halike := alike_walk haccepting hsame input [] _ _ hstart hstart' [] [] 0
    exact ⟨(a.agrees_run _ input .never).accepts_congr (b.agrees_run _ input .never) halike.1,
      halike⟩

/-- Two states in a circle of `ε`-moves; the second reads `a` on its way to a third, which
goes silently back to the first. -/
def detour : Automaton where
  states := [⟨[.char 'p'], true, false⟩, ⟨[.char 'q'], false, true⟩, ⟨[.char 'r'], false, false⟩]
  alphabet := [.text [.char 'a']]
  transitions := [⟨[.char 'p'], [.char 'q'], .text epsilon⟩,
    ⟨[.char 'q'], [.char 'p'], .text epsilon⟩, ⟨[.char 'q'], [.char 'r'], .text [.char 'a']⟩,
    ⟨[.char 'r'], [.char 'p'], .text epsilon⟩]
  start := [.char 'p']
  accepting := [[.char 'q']]

/-- With `ε` silent a path of the detour reads `a`, and the run accepts it in either order of
the moves; with `ε` a label none does. -/
theorem runNfa_decides_paths_detour :
    (∃ path, ∃ q ∈ detour.accepting, detour.Path detour.start path q ∧
      Reads .closure path [.char 'a']) ∧
    (detour.runNfa .closure [.char 'a'] .never).run.accepts ∧
    ((({ detour with transitions := detour.transitions.reverse } : Automaton).runNfa .closure
      [.char 'a'] .never).run.outcome = .accepted) ∧
    ¬ ∃ path, ∃ q ∈ detour.accepting, detour.Path detour.start path q ∧
      Reads .literal path [.char 'a'] := by
  have hclosure := runNfa_decides_paths detour .closure [.char 'a']
  have hliteral := runNfa_decides_paths detour .literal [.char 'a']
  have haccepts : (detour.runNfa .closure [.char 'a'] .never).run.outcome = .accepted := by
    decide +kernel
  have hrejects : (detour.runNfa .literal [.char 'a'] .never).run.outcome ≠ .accepted := by
    decide +kernel
  refine ⟨hclosure.1.1 haccepts, hclosure.2.1.2 haccepts, ?_, fun h => hrejects (hliteral.1.2 h)⟩
  rw [(hclosure.2.2.2.2.2 detour.transitions.reverse (List.reverse_perm _)).2.1, haccepts]

end Automaton

end FormalMachines.Finite
