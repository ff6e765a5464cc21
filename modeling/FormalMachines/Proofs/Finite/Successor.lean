import FormalMachines.Finite.Minimal
import FormalMachines.Finite.Path
import FormalMachines.Finite.Run
import FormalMachines.Proofs.Finite.Alphabet
import Mathlib.Data.List.Perm.Subperm

/-!
# FormalMachines.Proofs.Finite.Successor

Where words lead in a deterministic automaton.

A word of symbols leads from a node to a node (`Automaton.after`), and a node recognises
the words that lead to an accepting state (`Automaton.Recognises`).  Words lead along
paths (`exists_path_of_after`, `after_of_path`), and the deterministic run accepts the
inputs that the start state recognises (`accepted_runDfa_iff`).
-/

namespace FormalMachines.Finite.Automaton

variable {a : Automaton} {p q : Text} {x : Node} {s r : Atom} {word : List Atom}

/-! ## Moves -/

/-- The moves are the same for atoms that are the same symbol. -/
theorem moves_congr (a : Automaton) (q : Text) (h : s.Same r) : a.moves q s = a.moves q r := by
  have hkey : s.key = r.key := h
  simp only [moves, Transition.fits, Atom.Same, hkey]

theorem next?_congr (a : Automaton) (q : Text) (h : s.Same r) : a.next? q s = a.next? q r := by
  rw [next?, next?, a.moves_congr q h]

@[simp] theorem successor_none (a : Automaton) (s : Atom) : a.successor none s = none := rfl

@[simp] theorem successor_some (a : Automaton) (q : Text) (s : Atom) :
    a.successor (some q) s = a.next? q s := rfl

theorem successor_congr (a : Automaton) (x : Node) (h : s.Same r) :
    a.successor x s = a.successor x r := by
  cases x with
  | none => rfl
  | some q => exact a.next?_congr q h

/-- The first move is a move. -/
theorem exists_move_of_next? (h : a.next? q s = some p) :
    ∃ t ∈ a.transitions, t.source = q ∧ t.symbol.Same s ∧ t.target = p := by
  obtain ⟨t, ht, htarget⟩ := Option.map_eq_some_iff.1 h
  obtain ⟨hmem, hsource, hsame⟩ := mem_moves.1 (List.mem_of_mem_head? ht)
  exact ⟨t, hmem, hsource, hsame, htarget⟩

/-- Where no slot holds two moves every move is the first. -/
theorem next?_of_mem_of_nodup (hslots : a.slots.Nodup) {t : Transition} (ht : t ∈ a.transitions)
    (hsame : t.symbol.Same s) : a.next? t.source s = some t.target := by
  have hmoves : t ∈ a.moves t.source s := mem_moves.2 ⟨ht, rfl, hsame⟩
  rw [next?]
  cases hhead : (a.moves t.source s).head? with
  | none =>
      rw [List.head?_eq_none_iff.1 hhead] at hmoves
      exact absurd hmoves List.not_mem_nil
  | some u =>
      obtain ⟨hu, hsource, hsame'⟩ := mem_moves.1 (List.mem_of_mem_head? hhead)
      have hslot : u.slot = t.slot := Prod.ext hsource (hsame'.trans hsame.symm)
      rw [List.inj_on_of_nodup_map hslots hu ht hslot]
      rfl

/-- Where no slot holds two moves, no more than one leaves a state under a symbol. -/
theorem length_moves_le_one (hslots : a.slots.Nodup) (q : Text) (s : Atom) :
    (a.moves q s).length ≤ 1 := by
  have hnodup : ((a.moves q s).map (·.slot)).Nodup := hslots.sublist (List.filter_sublist.map _)
  have hsame : (a.moves q s).map (·.slot) ⊆ [(q, s.key)] := by
    intro slot hslot
    obtain ⟨t, ht, rfl⟩ := List.mem_map.1 hslot
    obtain ⟨-, hsource, hkey⟩ := mem_moves.1 ht
    exact List.mem_singleton.2 (Prod.ext hsource hkey)
  simpa using (hnodup.subperm hsame).length_le

theorem isDeterministic_iff :
    a.isDeterministic ↔ (¬ ∃ t ∈ a.transitions, t.isEpsilon) ∧ a.slots.Nodup := by
  simp [isDeterministic]

theorem nodup_slots (hdet : a.isDeterministic) : a.slots.Nodup := (isDeterministic_iff.1 hdet).2

/-- In a deterministic automaton every move is the first. -/
theorem next?_of_mem (hdet : a.isDeterministic) {t : Transition} (ht : t ∈ a.transitions)
    (hsame : t.symbol.Same s) : a.next? t.source s = some t.target :=
  next?_of_mem_of_nodup (nodup_slots hdet) ht hsame

/-- Moves lead to declared states. -/
theorem next?_mem_names (hvalid : a.Valid) (h : a.next? q s = some p) : p ∈ a.names := by
  obtain ⟨t, ht, _, _, htarget⟩ := exists_move_of_next? h
  exact htarget ▸ (hvalid.2.2.2 t ht).2

/-! ## Words -/

/-- The node that a word leads to. -/
def after (a : Automaton) (x : Node) (word : List Atom) : Node := word.foldl a.successor x

/-- Whether a word leads from a node to an accepting state. -/
def Recognises (a : Automaton) (x : Node) (word : List Atom) : Prop :=
  ∃ q ∈ a.accepting, a.after x word = some q

@[simp] theorem after_nil (a : Automaton) (x : Node) : a.after x [] = x := rfl

theorem after_cons (a : Automaton) (x : Node) (s : Atom) (word : List Atom) :
    a.after x (s :: word) = a.after (a.successor x s) word := rfl

@[simp] theorem after_none (a : Automaton) (word : List Atom) : a.after none word = none := by
  induction word with
  | nil => rfl
  | cons s word ih => exact ih

theorem after_append (a : Automaton) (x : Node) (front back : List Atom) :
    a.after x (front ++ back) = a.after (a.after x front) back := List.foldl_append

theorem not_recognises_none (a : Automaton) (word : List Atom) : ¬ a.Recognises none word := by
  intro ⟨q, _, hq⟩
  rw [after_none] at hq
  cases hq

theorem recognises_cons_iff :
    a.Recognises x (s :: word) ↔ a.Recognises (a.successor x s) word := Iff.rfl

theorem recognises_append_iff {front back : List Atom} :
    a.Recognises x (front ++ back) ↔ a.Recognises (a.after x front) back := by
  simp only [Recognises, after_append]

/-- A property of a state that moves hand on holds wherever words lead. -/
theorem after_induct {P : Text → Prop} (hp : P p)
    (hnext : ∀ q s r, P q → a.next? q s = some r → P r) (h : a.after (some p) word = some q) :
    P q := by
  induction word generalizing p with
  | nil =>
      cases h
      exact hp
  | cons s word ih =>
      rw [after_cons] at h
      cases hs : a.successor (some p) s with
      | none =>
          rw [hs, after_none] at h
          cases h
      | some r =>
          rw [hs] at h
          exact ih (hnext p s r hp hs) h

/-- Words lead along paths. -/
theorem exists_path_of_after (h : a.after (some p) word = some q) : ∃ path, a.Path p path q := by
  apply after_induct (P := fun q => ∃ path, a.Path p path q) ⟨[], .nil p⟩ _ h
  intro r s t ⟨path, hpath⟩ hnext
  obtain ⟨m, hm, hsource, _, htarget⟩ := exists_move_of_next? hnext
  refine ⟨path ++ [m], path_append_iff.2 ⟨r, hpath, path_cons_iff.2 ⟨hm, hsource, ?_⟩⟩⟩
  exact path_nil_iff.2 htarget

/-- Without choices a path is where the word of its labels leads. -/
theorem after_of_path (hdet : a.isDeterministic) {path : List Transition} (h : a.Path p path q) :
    a.after (some p) (path.map (·.symbol)) = some q := by
  induction h with
  | nil => rfl
  | cons mem _ ih =>
      rw [List.map_cons, after_cons, successor_some, next?_of_mem hdet mem rfl]
      exact ih

/-! ## Runs -/

/-- The first move is what the deterministic run makes. -/
theorem land_fire_firstMove (a : Automaton) (q : Text) (c : CodePoint) :
    a.firstMove.land (a.firstMove.fire [q] c) = (a.next? q (symbolOf c)).toList := by
  simp only [firstMove, movesFrom, List.flatMap_singleton, next?]
  cases a.moves q (symbolOf c) <;> rfl

theorem accepts_walk_iff (a : Automaton) (q : Text) (consumed : Text) (via : List Transition)
    (looks : Nat) (rest : Text) :
    (a.walk a.firstMove .never [q] consumed via looks rest).accepts ↔
      a.Recognises (some q) (rest.map symbolOf) := by
  induction rest generalizing q consumed via looks with
  | nil =>
      have hverdict : a.acceptsIn [q] ↔ a.Recognises (some q) [] := by
        simp [acceptsIn, Recognises]
      exact hverdict
  | cons c rest ih =>
      have hland := a.land_fire_firstMove q c
      simp only [walk, Cancellation.raisedAt_never, Bool.false_eq_true, if_false]
      rw [List.map_cons, recognises_cons_iff, successor_some]
      cases hnext : a.next? q (symbolOf c) with
      | none =>
          rw [hnext] at hland
          rw [hland]
          simp only [Option.toList_none]
          refine iff_of_false ?_ (a.not_recognises_none _)
          exact Bool.false_ne_true
      | some r =>
          rw [hnext] at hland
          rw [hland]
          exact ih r _ _ _

/-- **The deterministic run** accepts what the start state recognises. -/
theorem accepted_runDfa_iff (a : Automaton) (input : Text) :
    (a.runDfa input .never).accepted ↔ a.Recognises (some a.start) (input.map symbolOf) :=
  a.accepts_walk_iff a.start [] [] 0 input

end FormalMachines.Finite.Automaton
