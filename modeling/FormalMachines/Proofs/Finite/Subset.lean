import FormalMachines.Finite.Subset
import FormalMachines.Proofs.Finite.Alphabet
import FormalMachines.Proofs.Finite.Closure
import Mathlib.Data.List.Sublists

/-!
# FormalMachines.Proofs.Finite.Subset

The sets of states that the subset construction finds, and the moves between them.

Every set but the first consists of targets of moves, so there are no more than
`subsetBound` of them and the search finds all that can be reached
(`bounds_subsets`): the sets found are closed under moves (`subsetMove_mem_subsets`).
Where all names are distinct, the moves of the set automaton from the name of a set are
the moves of that set (`mem_moves_subsetAutomaton_iff`).
-/

namespace FormalMachines.Finite.Automaton

open Worklist (Reached Bounds)

variable {a : Automaton} {mode : EpsilonMode} {letters : List Atom} {s t : NameSet}
  {symbol : Atom} {q : Text}

/-! ## Moves of sets -/

theorem mem_targetSet : q ∈ a.targetSet s symbol ↔
    ∃ t ∈ a.transitions, (t.source ∈ s ∧ t.symbol.Equals symbol) ∧ t.target = q := by
  simp [targetSet, and_assoc]

theorem mem_targets_of_mem_targetSet (h : q ∈ a.targetSet s symbol) :
    q ∈ a.transitions.map (·.target) := by
  obtain ⟨t, ht, _, htarget⟩ := mem_targetSet.1 h
  exact List.mem_map.2 ⟨t, ht, htarget⟩

theorem subsetMove_eq_some_iff : a.subsetMove mode s symbol = some t ↔
    (a.targetSet s symbol).toList ≠ [] ∧
      t = a.closeSet mode (a.targetSet s symbol).toList := by
  simp only [subsetMove, NameSet.isEmpty, List.isEmpty_iff]
  by_cases h : (a.targetSet s symbol).toList = []
  · simp [h]
  · simp [h, eq_comm]

/-- A symbol that takes a set anywhere compares equal to something. -/
theorem comparable_of_subsetMove (h : a.subsetMove mode s symbol = some t) :
    symbol.key ≠ .notANumber := by
  obtain ⟨hne, -⟩ := subsetMove_eq_some_iff.1 h
  obtain ⟨q, hq⟩ := List.exists_mem_of_ne_nil _ hne
  obtain ⟨m, -, ⟨-, hsame, hlabel⟩, -⟩ := mem_targetSet.1 hq
  exact fun hkey => hlabel (hsame.trans hkey)

/-- Every set that a move leads to consists of targets of moves. -/
theorem mem_targets_of_subsetMove (h : a.subsetMove mode s symbol = some t) (hq : q ∈ t) :
    q ∈ a.transitions.map (·.target) := by
  obtain ⟨_, rfl⟩ := subsetMove_eq_some_iff.1 h
  obtain hq | hq := mem_or_mem_targets_of_mem_close (NameSet.mem_ofList.1 hq)
  · exact mem_targets_of_mem_targetSet hq
  · exact hq

/-! ## The sets found -/

/-- Of sets of some names there are no more than lists of those names in a fixed order. -/
theorem bounds_sets (names : List Text) :
    Bounds (fun s : NameSet => ∀ q ∈ s, q ∈ names) (Nat.pow 2 names.length) := by
  intro l hl hsub
  have hinj : ∀ s ∈ l, ∀ t ∈ l, names.filter (· ∈ s) = names.filter (· ∈ t) → s = t := by
    intro s hs t ht hst
    apply NameSet.ext
    intro q
    constructor
    · intro hq
      have hmem : q ∈ names.filter (· ∈ s) := by simp [hq, hsub s hs q hq]
      rw [hst] at hmem
      simpa using (List.mem_filter.1 hmem).2
    · intro hq
      have hmem : q ∈ names.filter (· ∈ t) := by simp [hq, hsub t ht q hq]
      rw [← hst] at hmem
      simpa using (List.mem_filter.1 hmem).2
  have hnodup : (l.map fun s => names.filter (· ∈ s)).Nodup := List.Nodup.map_on hinj hl
  have hsubset : (l.map fun s => names.filter (· ∈ s)) ⊆ names.sublists := by
    intro xs hxs
    obtain ⟨s, _, rfl⟩ := List.mem_map.1 hxs
    exact List.mem_sublists.2 List.filter_sublist
  have hlen := (hnodup.subperm hsubset).length_le
  rw [List.length_map, List.length_sublists] at hlen
  exact hlen

/-- The search for sets has room for all that can be reached. -/
theorem bounds_subsets (a : Automaton) (mode : EpsilonMode) (letters : List Atom) :
    Bounds (Reached (fun s => letters.filterMap (a.subsetMove mode s)) [a.startSet mode])
      a.subsetBound := by
  intro l hl hreached
  have hsets : ∀ s ∈ l.erase (a.startSet mode), ∀ q ∈ s,
      q ∈ (a.transitions.map (·.target)).eraseDups := by
    intro s hs q hq
    have hne : s ≠ a.startSet mode := ((hl.mem_erase_iff).1 hs).1
    have hcase : s = a.startSet mode ∨ ∀ q ∈ s, q ∈ a.transitions.map (·.target) := by
      apply (hreached s (List.mem_of_mem_erase hs)).induct
      · exact fun s hs => .inl (List.mem_singleton.1 hs)
      · intro s t _ ht
        obtain ⟨symbol, _, hmove⟩ := List.mem_filterMap.1 ht
        exact .inr fun q hq => mem_targets_of_subsetMove hmove hq
    obtain hstart | htargets := hcase
    · exact absurd hstart hne
    · exact List.mem_eraseDups.2 (htargets q hq)
  have hlen := bounds_sets _ (l.erase (a.startSet mode)) (hl.erase _) hsets
  have herase : l.length - 1 ≤ (l.erase (a.startSet mode)).length := List.le_length_erase
  unfold subsetBound
  omega

theorem startSet_mem_subsets : a.startSet mode ∈ a.subsets mode letters :=
  (Worklist.mem_explore_iff (bounds_subsets a mode letters)).2
    (Worklist.reached_of_mem (by simp))

/-- **The sets found** are closed under moves. -/
theorem subsetMove_mem_subsets (hs : s ∈ a.subsets mode letters) (hsymbol : symbol ∈ letters)
    (h : a.subsetMove mode s symbol = some t) : t ∈ a.subsets mode letters :=
  Worklist.next_mem_explore (bounds_subsets a mode letters) hs
    (List.mem_filterMap.2 ⟨symbol, hsymbol, h⟩)

/-! ## The set automaton -/

section SetAutomaton

variable {addDead : Bool}

/-- Without a dead state the moves of the set automaton are those between sets. -/
theorem mem_transitions_subsetAutomaton {m : Transition} :
    m ∈ (a.subsetAutomaton mode letters false).transitions ↔
      ∃ s ∈ a.subsets mode letters, ∃ symbol ∈ letters, ∃ t,
        a.subsetMove mode s symbol = some t ∧ m = ⟨s.name, t.name, symbol⟩ := by
  simp only [subsetAutomaton, Bool.false_and, Bool.false_eq_true, if_false, List.append_nil,
    List.mem_flatMap, movesOfSubset, List.mem_filterMap]
  constructor
  · intro ⟨s, hs, symbol, hsymbol, hm⟩
    cases ht : a.subsetMove mode s symbol with
    | none => simp [ht] at hm
    | some t =>
        simp only [ht, Option.some.injEq] at hm
        exact ⟨s, hs, symbol, hsymbol, t, ht, hm.symm⟩
  · intro ⟨s, hs, symbol, hsymbol, t, ht, hm⟩
    exact ⟨s, hs, symbol, hsymbol, by simp [ht, hm]⟩

/-- Where states have names of their own, sets have. -/
theorem nodup_names_of_subsetAutomaton (h : (a.subsetAutomaton mode letters addDead).names.Nodup) :
    ((a.subsets mode letters).map (·.name)).Nodup := by
  simp only [names, subsetAutomaton, List.map_map, Function.comp_def, List.map_id'] at h
  exact h.of_append_left

/-- Sets found by a construction that passed the check of names have names of their
own. -/
theorem eq_of_name_eq (h : (a.subsetAutomaton mode letters addDead).Valid)
    (hs : s ∈ a.subsets mode letters) (ht : t ∈ a.subsets mode letters)
    (hname : s.name = t.name) : s = t :=
  List.inj_on_of_nodup_map (nodup_names_of_subsetAutomaton h.1) hs ht hname

/-- The name of a set accepts if one of its members does. -/
theorem name_mem_accepting_iff (h : (a.subsetAutomaton mode letters addDead).Valid)
    (hs : s ∈ a.subsets mode letters) :
    s.name ∈ (a.subsetAutomaton mode letters addDead).accepting ↔ a.acceptsIn s.toList := by
  simp only [subsetAutomaton, List.mem_map, List.mem_filter]
  constructor
  · intro ⟨t, ⟨ht, haccepts⟩, hname⟩
    rw [← eq_of_name_eq h ht hs hname]
    exact haccepts
  · intro haccepts
    exact ⟨s, ⟨hs, haccepts⟩, rfl⟩

/-- **The moves from the name of a set** are the moves of that set. -/
theorem mem_moves_subsetAutomaton_iff (h : (a.subsetAutomaton mode letters false).Valid)
    (hs : s ∈ a.subsets mode letters) {symbol : Atom} {m : Transition} :
    m ∈ (a.subsetAutomaton mode letters false).moves s.name symbol ↔
      ∃ letter ∈ letters, letter.Same symbol ∧ ∃ t,
        a.subsetMove mode s letter = some t ∧ m = ⟨s.name, t.name, letter⟩ := by
  rw [mem_moves, mem_transitions_subsetAutomaton]
  constructor
  · intro ⟨⟨r, hr, letter, hletter, t, ht, hm⟩, hsource, hsame⟩
    subst hm
    have hrs : r = s := eq_of_name_eq h hr hs hsource
    subst hrs
    exact ⟨letter, hletter, hsame, t, ht, rfl⟩
  · intro ⟨letter, hletter, hsame, t, ht, hm⟩
    subst hm
    exact ⟨⟨s, hs, letter, hletter, t, ht, rfl⟩, rfl, hsame⟩

end SetAutomaton

end FormalMachines.Finite.Automaton
