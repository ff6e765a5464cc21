import FormalMachines.Proofs.Discovery
import FormalMachines.Proofs.Finite.Minimal

/-!
# FormalMachines.Proofs.Finite.Listed

The minimal automaton lists its states in the order in which they are discovered.

An automaton is listed (`Automaton.listed`) by its states in the order of a search from the
start, their moves in the order of the letters, and the accepting ones among them.  What the
list looks like depends on the start, the first moves and the accepting states only, up to the
names of states and the spelling of letters (`listed_rename`).

The minimal automaton is its own list (`listed_minimalAutomaton`).  Its states stand where the
first of their members was discovered in the given automaton, and that is where they are
discovered in the minimal one: members of a merged state move to the same merged states, and
states that are dropped move to dropped ones.
-/

namespace FormalMachines.Finite

/-! ## Other names -/

/-- Another name for a state. -/
def State.rename (name : Text → Text) (q : State) : State := { q with name := name q.name }

/-- Other names for the ends of a move, and another spelling of its symbol. -/
def Transition.rename (name : Text → Text) (spell : Atom → Atom) (t : Transition) : Transition :=
  ⟨name t.source, name t.target, spell t.symbol⟩

/-- Another spelling of a declared symbol. -/
def respell (spell : Atom → Atom) : Json → Json
  | .atom s => .atom (spell s)
  | v => v

namespace Automaton

/-- The automaton with another name for each state and another spelling of each symbol. -/
def rename (a : Automaton) (name : Text → Text) (spell : Atom → Atom) : Automaton where
  states := a.states.map (·.rename name)
  alphabet := a.alphabet.map (respell spell)
  transitions := a.transitions.map (·.rename name spell)
  start := name a.start
  accepting := a.accepting.map name

theorem rename_id (a : Automaton) : a.rename id id = a := by
  have hstates : a.states.map (·.rename id) = a.states := List.map_id a.states
  have halphabet : a.alphabet.map (respell id) = a.alphabet := by
    have hid : respell id = id := funext fun v => by cases v <;> rfl
    rw [hid, List.map_id]
  have hmoves : a.transitions.map (·.rename id id) = a.transitions := List.map_id a.transitions
  have haccepting : a.accepting.map id = a.accepting := List.map_id a.accepting
  rw [rename, hstates, halphabet, hmoves, haccepting]
  rfl

/-! ## Lists -/

/-- A state with the flags that it should have. -/
def flagged (a : Automaton) (q : Text) : State := ⟨q, q = a.start, q ∈ a.accepting⟩

/-- The first moves of a state under some letters, in their order. -/
def movesOver (a : Automaton) (letters : List Atom) (q : Text) : List Transition :=
  letters.filterMap fun s => (a.next? q s).map (⟨q, ·, s⟩)

/-- An automaton as it is discovered from its start. -/
def listed (a : Automaton) (letters : List Atom) : Automaton where
  states := (a.reachable letters).map a.flagged
  alphabet := letters.map .atom
  transitions := (a.reachable letters).flatMap (a.movesOver letters)
  start := a.start
  accepting := (a.reachable letters).filter (· ∈ a.accepting)

variable {a b : Automaton} {letters letters' : List Atom} {q start : Text}

/-- States are discovered in the order of the states that they are views of. -/
theorem reachable_eq_filterMap {view : Text → Option Text} (hstart : view a.start = some b.start)
    (hnext : ∀ q ∈ a.reachable letters, (letters.filterMap (a.next? q)).filterMap view =
      (view q).toList.flatMap fun r => letters'.filterMap (b.next? r)) :
    b.reachable letters' = ((a.reachable letters).filterMap view).eraseDups := by
  have hbound := a.bounds_reachable letters
  have hbound' := b.bounds_reachable letters'
  have hstarts : [a.start].filterMap view = [b.start] := List.filterMap_cons_some hstart
  rw [← hstarts] at hbound'
  have h := Worklist.explore_filterMap hbound hbound' fun q hq =>
    hnext q ((Worklist.mem_explore_iff hbound).2 hq)
  rw [hstarts, Distinct.eraseDups_texts] at h
  exact h

section Rename

variable {name : Text → Text} {spell : Atom → Atom} (hstart : b.start = name a.start)
  (hnext : ∀ q ∈ a.reachable letters, ∀ s ∈ letters,
    b.next? (name q) (spell s) = (a.next? q s).map name)

include hnext in
theorem movesOver_rename (hq : q ∈ a.reachable letters) :
    b.movesOver (letters.map spell) (name q) =
      (a.movesOver letters q).map (·.rename name spell) := by
  rw [movesOver, movesOver, List.filterMap_map, List.map_filterMap]
  apply List.filterMap_congr
  intro s hs
  rw [Function.comp_apply, hnext q hq s hs, Option.map_map, Option.map_map]
  rfl

variable
  (hinj : ∀ p ∈ a.reachable letters, ∀ q ∈ a.reachable letters, name p = name q → p = q)

include hstart hnext hinj

/-- States are discovered in the same order under other names. -/
theorem reachable_rename :
    b.reachable (letters.map spell) = (a.reachable letters).map name := by
  have hnodup : ((a.reachable letters).map name).Nodup :=
    (List.nodup_map_iff_inj_on (Worklist.nodup_explore _ (a.bounds_reachable letters))).2 hinj
  have hviews : ∀ q ∈ a.reachable letters,
      (letters.filterMap (a.next? q)).filterMap (some ∘ name) =
        (some (name q)).toList.flatMap fun r => (letters.map spell).filterMap (b.next? r) := by
    intro q hq
    rw [Option.toList_some, List.flatMap_singleton, List.filterMap_map, List.filterMap_filterMap]
    apply List.filterMap_congr
    intro s hs
    rw [Function.comp_apply, hnext q hq s hs]
    cases a.next? q s <;> rfl
  have hstart' : (some ∘ name) a.start = some b.start := congrArg some hstart.symm
  rw [reachable_eq_filterMap hstart' hviews, List.filterMap_eq_map]
  exact Distinct.eraseDups_of_nodup hnodup

/-- **A list** is the same up to names, if starts, first moves and accepting states are. -/
theorem listed_rename
    (haccepting : ∀ q ∈ a.reachable letters, name q ∈ b.accepting ↔ q ∈ a.accepting) :
    b.listed (letters.map spell) = (a.listed letters).rename name spell := by
  have hflagged : ∀ q ∈ a.reachable letters, b.flagged (name q) = (a.flagged q).rename name := by
    intro q hq
    have hfirst : name q = b.start ↔ q = a.start := by
      rw [hstart]
      exact ⟨hinj q hq a.start (a.start_mem_reachable letters), congrArg name⟩
    simp only [flagged, State.rename, hfirst, haccepting q hq]
  have hstates : ((a.reachable letters).map name).map b.flagged =
      ((a.reachable letters).map a.flagged).map (·.rename name) := by
    rw [List.map_map, List.map_map]
    exact List.map_congr_left hflagged
  have halphabet : (letters.map spell).map Json.atom =
      (letters.map Json.atom).map (respell spell) := by
    rw [List.map_map, List.map_map]
    rfl
  have hmoves : ((a.reachable letters).map name).flatMap (b.movesOver (letters.map spell)) =
      ((a.reachable letters).flatMap (a.movesOver letters)).map (·.rename name spell) := by
    rw [List.flatMap_map, List.map_flatMap]
    exact List.flatMap_congr fun q hq => movesOver_rename hnext hq
  have haccepts : ((a.reachable letters).map name).filter (· ∈ b.accepting) =
      ((a.reachable letters).filter (· ∈ a.accepting)).map name := by
    rw [List.filter_map]
    congr 1
    apply List.filter_congr
    intro q hq
    rw [Function.comp_apply, decide_eq_decide]
    exact haccepting q hq
  rw [listed, listed, rename, reachable_rename hstart hnext hinj, Automaton.mk.injEq]
  exact ⟨hstates, halphabet, hmoves, hstart, haccepts⟩

end Rename

/-! ## The minimal automaton -/

theorem next?_emptyLanguage (start : Text) (letters : List Atom) (q : Text) (s : Atom) :
    (emptyLanguage start letters).next? q s = none := rfl

theorem reachable_emptyLanguage (start : Text) (letters : List Atom) :
    (emptyLanguage start letters).reachable letters = [start] := by
  have hstart : (emptyLanguage start letters).start = start := rfl
  have hnext : (emptyLanguage start letters).next? start = fun _ => none := rfl
  apply (Worklist.discovers_explore (bounds_reachable _ letters)).unique
  constructor
  · simp [Worklist.discovered, hnext, hstart, List.eraseDups_cons]
  · exact fun _ hq => Worklist.reached_of_mem hq

theorem listed_emptyLanguage (start : Text) (letters : List Atom) :
    (emptyLanguage start letters).listed letters = emptyLanguage start letters := by
  have hflagged : (emptyLanguage start letters).flagged start = ⟨start, true, false⟩ := by
    simp [flagged, emptyLanguage]
  have hmoves : (emptyLanguage start letters).movesOver letters start = [] := by
    simp [movesOver, next?_emptyLanguage]
  rw [listed, reachable_emptyLanguage, List.map_singleton, hflagged, List.flatMap_singleton,
    hmoves]
  rfl

section Merged

variable (hletters : a.letters .literal = .ok letters) (hdet : a.isDeterministic)
  (hapart : a.NamesApart letters)
  (hstart : a.merge letters (some a.start) = some start)

include hstart in
/-- The states of the minimal automaton stand where the first of their members does. -/
theorem names_eq_filterMap : (a.minimalAutomaton letters).names =
    ((a.reachable letters).filterMap (mergedName? (a.blocks letters))).eraseDups := by
  have hviews : ∀ q, ((mergedName? (a.blocks letters) q).map (q, ·)).map Prod.snd =
      mergedName? (a.blocks letters) q := by
    intro q
    rw [Option.map_map]
    exact Option.map_id_apply
  rw [names_minimalAutomaton hstart, representatives, Distinct.map_eraseDupsBy Prod.snd,
    List.map_filterMap, funext hviews]

include hletters hdet hapart hstart

/-- They are discovered there. -/
theorem reachable_minimalAutomaton :
    (a.minimalAutomaton letters).reachable letters = (a.minimalAutomaton letters).names := by
  rw [names_eq_filterMap hstart]
  apply reachable_eq_filterMap
  · rw [start_minimalAutomaton hstart]
    exact hstart
  · intro q hq
    have hmoves : ∀ s, (a.next? q s).bind (mergedName? (a.blocks letters)) =
        (mergedName? (a.blocks letters) q).bind ((a.minimalAutomaton letters).next? · s) :=
      fun s => (successor_merge hletters hdet hapart hstart (some_mem_nodes hq) s).symm
    rw [List.filterMap_filterMap, funext hmoves]
    cases mergedName? (a.blocks letters) q with
    | none => simp
    | some name => simp

/-- A merged state accepts if any of its members does. -/
theorem mem_accepting_minimalAutomaton {name : Text} (hq : q ∈ a.reachable letters)
    (hname : a.merge letters (some q) = some name) :
    name ∈ (a.minimalAutomaton letters).accepting ↔ q ∈ a.accepting := by
  have h := recognises_merge_iff hletters hdet hapart hstart (some_mem_nodes hq) []
  rw [hname] at h
  simpa [Recognises] using h

theorem accepting_minimalAutomaton : (a.minimalAutomaton letters).accepting =
    (a.minimalAutomaton letters).names.filter (· ∈ (a.minimalAutomaton letters).accepting) := by
  have hfirst : (a.minimalAutomaton letters).accepting = (((a.reachable letters).filter
      (· ∈ a.accepting)).filterMap (mergedName? (a.blocks letters))).eraseDups := by
    rw [merge_some] at hstart
    simp only [minimalAutomaton, hstart]
  have hviews : ((a.reachable letters).filter (· ∈ a.accepting)).filterMap
        (mergedName? (a.blocks letters)) =
      ((a.reachable letters).filterMap (mergedName? (a.blocks letters))).filter
        (· ∈ (a.minimalAutomaton letters).accepting) := by
    rw [List.filterMap_filter, List.filter_filterMap]
    apply List.filterMap_congr
    intro q hq
    cases hname : mergedName? (a.blocks letters) q with
    | none => simp
    | some name =>
        have h := mem_accepting_minimalAutomaton hletters hdet hapart hstart hq hname
        simp [Option.filter, h]
  rw [names_eq_filterMap hstart, ← Distinct.filter_eraseDups, ← hviews]
  exact hfirst

theorem transitions_eq_flatMap : (a.minimalAutomaton letters).transitions =
    (a.minimalAutomaton letters).names.flatMap ((a.minimalAutomaton letters).movesOver letters) := by
  rw [names_minimalAutomaton hstart, transitions_minimalAutomaton hstart, List.flatMap_map]
  apply List.flatMap_congr
  intro r hr
  obtain ⟨hreachable, hmerge⟩ := merge_of_mem_representatives hr
  have hnext := next?_minimalAutomaton hletters hdet hapart hstart hreachable hmerge
  simp only [movesOver, hnext]

omit hletters hdet hapart in
theorem states_minimalAutomaton : (a.minimalAutomaton letters).states =
    (a.minimalAutomaton letters).names.map (a.minimalAutomaton letters).flagged := by
  rw [merge_some] at hstart
  simp [minimalAutomaton, hstart, names, flagged, Function.comp_def]

end Merged

theorem alphabet_minimalAutomaton (a : Automaton) (letters : List Atom) :
    (a.minimalAutomaton letters).alphabet = letters.map .atom := by
  cases hstart : mergedName? (a.blocks letters) a.start <;>
    simp only [minimalAutomaton, hstart, emptyLanguage]

/-- **The minimal automaton** is listed as it is discovered. -/
theorem listed_minimalAutomaton (hletters : a.letters .literal = .ok letters)
    (hdet : a.isDeterministic) (hapart : a.NamesApart letters) :
    (a.minimalAutomaton letters).listed letters = a.minimalAutomaton letters := by
  cases hstart : a.merge letters (some a.start) with
  | none =>
      rw [minimalAutomaton_eq_emptyLanguage hstart]
      exact listed_emptyLanguage a.start letters
  | some start =>
      have hreachable := reachable_minimalAutomaton hletters hdet hapart hstart
      have hstates := states_minimalAutomaton hstart
      have hmoves := transitions_eq_flatMap hletters hdet hapart hstart
      have haccepting := accepting_minimalAutomaton hletters hdet hapart hstart
      rw [listed, hreachable, ← hstates, ← hmoves, ← haccepting, ← alphabet_minimalAutomaton]

end Automaton

end FormalMachines.Finite
