import FormalMachines.Finite.Document
import FormalMachines.Proofs.Checks
import FormalMachines.Proofs.Finite.Alphabet
import Mathlib.Data.List.Count

/-!
# FormalMachines.Proofs.Finite.Document

What an automaton that was read from its definition is like.

It is valid, its flags say which state is the start and which accept, and no accepting state
is listed twice (`Automaton.Consistent`, `consistent_ofJson`).  Such an automaton is read
back from its own definition unchanged, unless the record of one of its moves misses a member
(`ofJson_toJson_eq`).
-/

namespace FormalMachines.Finite

/-- The first member of a move's record that is no text or the empty one. -/
def Transition.missing? (t : Transition) : Option Text :=
  if t.source = [] then some "from"
  else if t.target = [] then some "to"
  else if t.symbol.text?.getD [] = [] then some "symbol"
  else none

namespace Automaton

/-- The first member that a move's record misses. -/
def missing? (a : Automaton) : Option Text := a.transitions.findSome? (·.missing?)

/-- What holds of an automaton beside its validity: the flags of the states agree with the
start and the accepting states, each of which is listed once. -/
structure Consistent (a : Automaton) : Prop where
  valid : a.Valid
  flags : a.states = a.names.map fun n => ⟨n, n = a.start, n ∈ a.accepting⟩
  accepting : a.accepting.Nodup

/-! ## The check of a draft -/

/-- A move between declared states is drafted as it is. -/
theorem eq_toDraft_of_validate_move {m : DraftMove} {names : List Text} {t : Transition}
    (h : m.validate names = .ok t) : m = t.toDraft := by
  obtain ⟨source, hsource, h⟩ := bind_eq_ok h
  obtain ⟨target, htarget, h⟩ := bind_eq_ok h
  obtain ⟨hs, -⟩ := of_declaredName hsource
  obtain ⟨ht, -⟩ := of_declaredName htarget
  obtain ⟨mSource, mTarget, mSymbol⟩ := m
  cases h
  cases hs
  cases ht
  rfl

/-- A draft that holds together is the draft of its automaton. -/
theorem eq_toDraft_of_validate {d : Draft} {a : Automaton} (h : d.validate = .ok a) :
    d = a.toDraft := by
  obtain ⟨-, h⟩ := of_throw_eq_ok h
  obtain ⟨start, hstart, h⟩ := bind_eq_ok h
  obtain ⟨accepting, haccepting, h⟩ := bind_eq_ok h
  obtain ⟨transitions, hmoves, h⟩ := bind_eq_ok h
  have hatoms : d.accepting = accepting.map .text := by
    apply eq_map_of_mapM _ haccepting
    intro x y hy
    cases (of_declaredName hy).1
    rfl
  have hdrafts : d.moves = transitions.map (·.toDraft) :=
    eq_map_of_mapM (fun _ _ => eq_toDraft_of_validate_move) hmoves
  obtain ⟨hs, -⟩ := of_declaredName hstart
  obtain ⟨dStates, dAlphabet, dMoves, dStart, dAccepting⟩ := d
  cases h
  cases hs
  rw [toDraft, ← hatoms, ← hdrafts]

theorem valid_of_validate {d : Draft} {a : Automaton} (h : d.validate = .ok a) : a.Valid := by
  have hd := eq_toDraft_of_validate h
  rw [hd] at h
  exact ((checked_eq_ok_iff a a).1 h).1

/-! ## Reading a definition -/

theorem text_of_readNestedMoves {source : Text} {entry : Text × Json} {moves : List DraftMove}
    (h : readNestedMoves source entry = .ok moves) : ∀ m ∈ moves, ∃ s, m.symbol = .text s := by
  obtain ⟨targets, -, h⟩ := bind_eq_ok h
  cases h
  intro m hm
  obtain ⟨target, -, rfl⟩ := List.mem_map.1 hm
  exact ⟨_, rfl⟩

theorem text_of_readStateMoves {entry : Text × Json} {moves : List DraftMove}
    (h : readStateMoves entry = .ok moves) : ∀ m ∈ moves, ∃ s, m.symbol = .text s := by
  unfold readStateMoves at h
  split at h
  · obtain ⟨lists, hlists, h⟩ := bind_eq_ok h
    cases h
    intro m hm
    obtain ⟨list, hlist, hm⟩ := List.mem_flatten.1 hm
    obtain ⟨nested, -, hnested⟩ := exists_of_mem_mapM hlists hlist
    exact text_of_readNestedMoves hnested m hm
  · cases h

/-- The moves that are read, in either form, are labelled with texts. -/
theorem text_of_readMoves {v : Json} {moves : List DraftMove} (h : readMoves v = .ok moves) :
    ∀ m ∈ moves, ∃ s, m.symbol = .text s := by
  unfold readMoves at h
  split at h
  · obtain ⟨lists, hlists, h⟩ := bind_eq_ok h
    cases h
    intro m hm
    obtain ⟨list, hlist, hm⟩ := List.mem_flatten.1 hm
    obtain ⟨entry, -, hentry⟩ := exists_of_mem_mapM hlists hlist
    exact text_of_readStateMoves hentry m hm
  · intro m hm
    obtain ⟨entry, -, hentry⟩ := exists_of_mem_mapM h hm
    obtain ⟨members, -, hentry⟩ := bind_eq_ok hentry
    obtain ⟨source, -, hentry⟩ := bind_eq_ok hentry
    obtain ⟨target, -, hentry⟩ := bind_eq_ok hentry
    obtain ⟨symbol, -, hentry⟩ := bind_eq_ok hentry
    cases hentry
    exact ⟨symbol, rfl⟩
  · cases h

/-- The flags of a draft that was read agree with its start and its accepting states, and its
moves are labelled with texts. -/
theorem of_readDraft {definition : Json} {d : Draft} (h : readDraft definition = .ok d) :
    (∃ declared : List State, d.states =
      declared.map fun s => ⟨s.name, s.name = d.start, .text s.name ∈ d.accepting⟩) ∧
    (d.accepting.map (·.key)).Nodup ∧ ∀ m ∈ d.moves, ∃ s, m.symbol = .text s := by
  obtain ⟨members, -, h⟩ := bind_eq_ok h
  obtain ⟨entries, -, h⟩ := bind_eq_ok h
  obtain ⟨declared, -, h⟩ := bind_eq_ok h
  obtain ⟨start, -, h⟩ := bind_eq_ok h
  obtain ⟨values, -, h⟩ := bind_eq_ok h
  obtain ⟨listed, -, h⟩ := bind_eq_ok h
  obtain ⟨alphabet, -, h⟩ := bind_eq_ok h
  obtain ⟨moves, hmoves, h⟩ := bind_eq_ok h
  cases h
  exact ⟨⟨declared, rfl⟩, Distinct.nodup_map_eraseDupsBy Atom.key _, text_of_readMoves hmoves⟩

theorem text_mem_map_text_iff {s : Text} {names : List Text} :
    Atom.text s ∈ names.map Atom.text ↔ s ∈ names := by simp

/-- **An automaton that was read** is consistent. -/
theorem consistent_ofJson {definition : Json} {a : Automaton} (h : ofJson definition = .ok a) :
    a.Consistent := by
  obtain ⟨d, hd, h⟩ := bind_eq_ok h
  obtain ⟨⟨declared, hstates⟩, hdistinct, -⟩ := of_readDraft hd
  have hvalid := valid_of_validate h
  rw [eq_toDraft_of_validate h] at hstates hdistinct
  simp only [toDraft, text_mem_map_text_iff] at hstates
  refine ⟨hvalid, ?_, ?_⟩
  · rw [names, hstates, List.map_map, List.map_map]
    rfl
  · simp only [toDraft, List.map_map] at hdistinct
    exact hdistinct.of_map _

/-- The moves of an automaton that was read are labelled with texts. -/
theorem text_of_ofJson {definition : Json} {a : Automaton} (h : ofJson definition = .ok a)
    {t : Transition} (ht : t ∈ a.transitions) : ∃ s, t.symbol = .text s := by
  obtain ⟨d, hd, h⟩ := bind_eq_ok h
  obtain ⟨-, -, hlabels⟩ := of_readDraft hd
  rw [eq_toDraft_of_validate h] at hlabels
  exact hlabels t.toDraft (List.mem_map_of_mem ht)

/-! ## Reading back what was written -/

theorem readState_toJson (s : State) : readState s.toJson = .ok s := by
  obtain ⟨name, isStart, isAccept⟩ := s
  cases isStart <;> cases isAccept <;> rfl

/-- A move's record is read up to the first member that is missing. -/
theorem readMove_toJson (t : Transition) : readMove t.toJson =
    t.missing?.elim (.ok t.toDraft) fun key => .error (.definition (.missing key)) := by
  obtain ⟨source, target, symbol⟩ := t
  cases source with
  | nil => rfl
  | cons =>
      cases target with
      | nil => rfl
      | cons =>
          cases symbol with
          | text s => cases s <;> rfl
          | null | bool | integer | float => rfl

/-- The start state is the one state that is flagged as such. -/
theorem filter_isStart {a : Automaton} (ha : a.Consistent) :
    (a.states.filter (·.isStart)).map (·.name) = [a.start] := by
  have hfilter : (a.states.filter (·.isStart)).map (·.name) = a.names.filter (· = a.start) := by
    rw [ha.flags, List.filter_map, List.map_map]
    exact List.map_id _
  rw [hfilter, List.filter_eq, List.count_eq_one_of_mem ha.valid.1 ha.valid.2.1]
  rfl

/-- The accepting states that are listed are all that are flagged. -/
theorem distinct_accepting {a : Automaton} (ha : a.Consistent) :
    Atom.distinct (a.accepting.map .text ++
      (a.states.filter (·.isAccept)).map fun s => Atom.text s.name) = a.accepting.map .text := by
  apply Distinct.eraseDupsBy_append_of_subset Atom.key
  · rw [List.map_map]
    exact ha.accepting.map fun _ _ h => Atom.Key.text.inj h
  · intro x hx
    obtain ⟨s, hs, rfl⟩ := List.mem_map.1 hx
    obtain ⟨hs, hflag⟩ := List.mem_filter.1 hs
    rw [ha.flags] at hs
    obtain ⟨n, hn, rfl⟩ := List.mem_map.1 hs
    exact List.mem_map.2 ⟨n, of_decide_eq_true hflag, rfl⟩

/-- The start state that is named is the one read, also if its name is empty and it is found
by its flag. -/
theorem readStart_text (start : Text) : readStart (.text start) [start] = .ok start := by
  cases start with
  | nil => rfl
  | cons c rest => exact if_pos (.inr rfl)

/-- The flags that are read are those written. -/
theorem map_flags {a : Automaton} (ha : a.Consistent) :
    (a.states.map fun s =>
      (⟨s.name, s.name = a.start, .text s.name ∈ a.accepting.map Atom.text⟩ : State)) = a.states := by
  simp only [text_mem_map_text_iff]
  conv_rhs => rw [ha.flags, names, List.map_map]
  rfl

/-- What a consistent automaton is written as is read as its draft, unless a move's record
misses a member. -/
theorem readDraft_toJson {a : Automaton} (ha : a.Consistent) : readDraft a.toJson =
    a.missing?.elim (.ok a.toDraft) fun key => .error (.definition (.missing key)) := by
  have hstates : (a.states.map (·.toJson)).mapM readState = .ok a.states :=
    mapM_map_eq_ok fun s _ => readState_toJson s
  have hlisted : (a.accepting.map Json.text).mapM Json.requireAtom =
      .ok (a.accepting.map Atom.text) := by
    rw [← mapM_requireAtom, List.map_map]
    rfl
  have hmoves : readMoves (.list (a.transitions.map (·.toJson))) =
      a.missing?.elim (.ok (a.transitions.map (·.toDraft)))
        fun key => .error (.definition (.missing key)) :=
    mapM_map_eq_findSome? readMove_toJson a.transitions
  change (do
    let declared ← (a.states.map (·.toJson)).mapM readState
    let start ← readStart (.text a.start) ((declared.filter (·.isStart)).map (·.name))
    let listed ← (a.accepting.map Json.text).mapM Json.requireAtom
    let moves ← readMoves (.list (a.transitions.map (·.toJson)))
    let accepting := Atom.distinct (listed ++
      (declared.filter (·.isAccept)).map fun s => Atom.text s.name)
    return Draft.mk (declared.map fun s => ⟨s.name, s.name = start, .text s.name ∈ accepting⟩)
      a.alphabet moves start accepting : Except Fault Draft) = _
  simp only [hstates, hlisted, hmoves, filter_isStart ha, readStart_text, bind, Except.bind,
    distinct_accepting ha, map_flags ha]
  cases a.missing? with
  | some key => rfl
  | none => rfl

/-- **Reading back** what a consistent automaton is written as gives the automaton, unless a
move's record misses a member. -/
theorem ofJson_toJson_eq {a : Automaton} (ha : a.Consistent) : ofJson a.toJson =
    a.missing?.elim (.ok a) fun key => .error (.definition (.missing key)) := by
  rw [ofJson, readDraft_toJson ha]
  cases a.missing? with
  | some key => rfl
  | none => exact (checked_eq_ok_iff a a).2 ⟨ha.valid, rfl⟩

theorem ofJson_toJson {a b : Automaton} (ha : a.Consistent) (h : ofJson a.toJson = .ok b) :
    b = a := by
  rw [ofJson_toJson_eq ha] at h
  cases hmissing : a.missing? with
  | some key =>
      rw [hmissing] at h
      cases h
  | none =>
      rw [hmissing] at h
      exact (Except.ok.inj h).symm

end Automaton

end FormalMachines.Finite
