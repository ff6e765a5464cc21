import FormalMachines.ContextFree.Document
import FormalMachines.Finite.Document
import FormalMachines.Proofs.Distinct
import FormalMachines.Proofs.Fails
import FormalMachines.Pushdown.Document
import FormalMachines.Turing.Document

/-!
# FormalMachines.Proofs.Builders

What a definition holds if reading it comes to a fault that is not reported.

Reading a definition gives a machine or reports what is wrong, but for values that are used
before anything looks at them.  Each of the four readers has its own (`Unforeseen`):

* a pushdown automaton or a Turing machine: a state that is a list or an object;
* a grammar: a symbol that is one, or symbols declared both ways that have no order;
* a finite automaton: an accepting state that is a list or an object, or moves in the nested
  form whose target is `null`, a truth value or a number.

A fault is reported first if an earlier part of the definition is wrong as well.
-/

namespace FormalMachines

variable {P : Fault → Prop} {definition : Json}

/-! ## Pushdown automata -/

namespace Pushdown

/-- Whether a definition that can be read as a draft names a state by a list or an object. -/
def Unforeseen (definition : Json) : Prop :=
  ∃ d, readDraft definition = .ok d ∧ ∃ v ∈ d.states, v.IsCompound

theorem not_fails_readTransition (hP : Unreported P) (entry : Json) :
    ¬ Fails P (readTransition entry) := by
  refine not_fails_bind (hP.not_fails_requireObject _ _) fun members => ?_
  dsimp only
  split
  · refine not_fails_bind (not_fails_ok _) fun push => ?_
    refine not_fails_bind (hP.not_fails_requireText _ _) fun source => ?_
    refine not_fails_bind (hP.not_fails_requireSymbol _ _) fun input => ?_
    refine not_fails_bind (hP.not_fails_requireSymbol _ _) fun pop => ?_
    exact not_fails_bind (hP.not_fails_requireText _ _) fun target => not_fails_ok _
  · exact hP.not_fails_definition _

theorem not_fails_readDraft (hP : Unreported P) (definition : Json) :
    ¬ Fails P (readDraft definition) := by
  refine not_fails_bind (hP.not_fails_requireObject _ _) fun members => ?_
  refine not_fails_bind (hP.not_fails_requireList _ _) fun entries => ?_
  refine not_fails_bind (not_fails_mapM fun entry _ => not_fails_readTransition hP entry)
    fun transitions => ?_
  refine not_fails_bind (hP.not_fails_requireList _ _) fun states => ?_
  refine not_fails_bind (hP.not_fails_optionalList _ _) fun inputAlphabet => ?_
  refine not_fails_bind (hP.not_fails_optionalList _ _) fun stackAlphabet => ?_
  refine not_fails_bind (hP.not_fails_requireText _ _) fun start => ?_
  refine not_fails_bind (hP.not_fails_requireText _ _) fun initialSymbol => ?_
  exact not_fails_bind (hP.not_fails_optionalList _ _) fun accepting => not_fails_ok _

theorem not_fails_validate_transition (hP : Unreported P) (t : Transition)
    (states : List Atom) : ¬ Fails P (t.validate states) :=
  not_fails_bind (hP.not_fails_declaredText _ _ _) fun _ =>
    not_fails_bind (hP.not_fails_declaredText _ _ _) fun _ => not_fails_ok _

/-- The check of a draft fails unforeseen at its states alone. -/
theorem fails_validate_iff (hP : Unreported P) (d : Draft) :
    Fails P d.validate ↔ ∃ v ∈ d.states, v.IsCompound := by
  rw [← hP.fails_distinctAtoms_iff]
  refine fails_bind_iff_left fun states => ?_
  refine not_fails_bind (hP.not_fails_declaredText _ _ _) fun start => ?_
  refine not_fails_bind (not_fails_mapM fun v _ => hP.not_fails_declaredAtom _ _ v)
    fun accepting => ?_
  refine hP.not_fails_unless ?_
  exact not_fails_bind (not_fails_mapM fun t _ => not_fails_validate_transition hP t states)
    fun _ => not_fails_ok _

/-- **Reading a pushdown automaton** fails unforeseen exactly at a state that is a list or an
object. -/
theorem fails_ofJson_iff (hP : Unreported P) :
    Fails P (Automaton.ofJson definition) ↔ Unforeseen definition := by
  refine (fails_bind_iff_right (not_fails_readDraft hP definition)).trans ?_
  exact exists_congr fun d => and_congr_right' (fails_validate_iff hP d)

end Pushdown

/-! ## Turing machines -/

namespace Turing

/-- Whether a definition that can be read as a draft names a state by a list or an object. -/
def Unforeseen (definition : Json) : Prop :=
  ∃ d, readDraft definition = .ok d ∧ ∃ v ∈ d.states, v.IsCompound

theorem not_fails_readMove (hP : Unreported P) (entry : Json) : ¬ Fails P (readMove entry) := by
  refine not_fails_bind (hP.not_fails_requireObject _ _) fun members => ?_
  refine not_fails_bind (hP.not_fails_requireText _ _) fun state => ?_
  refine not_fails_bind (hP.not_fails_requireText _ _) fun read => ?_
  refine not_fails_bind (hP.not_fails_requireText _ _) fun write => ?_
  refine not_fails_bind (hP.not_fails_requireText _ _) fun direction => ?_
  exact not_fails_bind (hP.not_fails_requireText _ _) fun next => not_fails_ok _

theorem not_fails_readDraft (hP : Unreported P) (definition : Json) :
    ¬ Fails P (readDraft definition) := by
  refine not_fails_bind (hP.not_fails_requireObject _ _) fun members => ?_
  refine not_fails_bind (hP.not_fails_requireList _ _) fun entries => ?_
  refine not_fails_bind (not_fails_mapM fun entry _ => not_fails_readMove hP entry) fun moves => ?_
  refine not_fails_bind (hP.not_fails_requireList _ _) fun states => ?_
  refine not_fails_bind (hP.not_fails_optionalList _ _) fun alphabet => ?_
  refine not_fails_bind (hP.not_fails_optionalList _ _) fun tapeAlphabet => ?_
  refine not_fails_bind (hP.not_fails_requireText _ _) fun start => ?_
  refine not_fails_bind (hP.not_fails_requireText _ _) fun accept => ?_
  refine not_fails_bind (hP.not_fails_requireText _ _) fun reject => ?_
  exact not_fails_bind (hP.not_fails_requireText _ _) fun blank => not_fails_ok _

theorem not_fails_ofName (hP : Unreported P) (name : Text) :
    ¬ Fails P (Direction.ofName name) := by
  unfold Direction.ofName
  split
  · exact not_fails_ok _
  · split
    · exact not_fails_ok _
    · exact hP.not_fails_definition _

theorem not_fails_validate_move (hP : Unreported P) (m : DraftMove) (states : List Atom) :
    ¬ Fails P (m.validate states) := by
  refine not_fails_bind (hP.not_fails_declaredText _ _ _) fun state => ?_
  refine not_fails_bind (hP.not_fails_declaredText _ _ _) fun next => ?_
  exact not_fails_bind (not_fails_ofName hP _) fun direction => not_fails_ok _

/-- The check of a draft fails unforeseen at its states alone. -/
theorem fails_validate_iff (hP : Unreported P) (d : Draft) :
    Fails P d.validate ↔ ∃ v ∈ d.states, v.IsCompound := by
  rw [← hP.fails_distinctAtoms_iff]
  refine fails_bind_iff_left fun states => ?_
  refine not_fails_bind (hP.not_fails_declaredText _ _ _) fun start => ?_
  refine not_fails_bind (hP.not_fails_declaredText _ _ _) fun accept => ?_
  refine not_fails_bind (hP.not_fails_declaredText _ _ _) fun reject => ?_
  refine hP.not_fails_unless (hP.not_fails_unless ?_)
  exact not_fails_bind (not_fails_mapM fun m _ => not_fails_validate_move hP m states)
    fun _ => not_fails_ok _

/-- **Reading a Turing machine** fails unforeseen exactly at a state that is a list or an
object. -/
theorem fails_ofJson_iff (hP : Unreported P) :
    Fails P (Machine.ofJson definition) ↔ Unforeseen definition := by
  refine (fails_bind_iff_right (not_fails_readDraft hP definition)).trans ?_
  exact exists_congr fun d => and_congr_right' (fails_validate_iff hP d)

end Turing

/-! ## Grammars -/

namespace Atom

/-- Whether two symbols have an order: two texts have one, and so have two numbers. -/
def Key.Comparable (k l : Key) : Prop :=
  k.isText ∧ l.isText ∨ k.isNumber ∧ l.isNumber

theorem Key.isText_or_isNumber {k : Key} (hk : k ≠ .null) : k.isText ∨ k.isNumber := by
  cases k with
  | null => exact absurd rfl hk
  | text => exact .inl rfl
  | number | infinite | notANumber => exact .inr rfl

/-- Different symbols have no common order exactly if two of them have none. -/
theorem sorted?_eq_none_iff {atoms : List Atom} (hnodup : (atoms.map (·.key)).Nodup) :
    sorted? atoms = none ↔
      ∃ k ∈ atoms.map (·.key), ∃ l ∈ atoms.map (·.key), k ≠ l ∧ ¬ k.Comparable l := by
  have hopen : sorted? atoms = none ↔ ¬ ((atoms.map (·.key)).length ≤ 1 ∨
      (atoms.map (·.key)).all (·.isText) ∨ (atoms.map (·.key)).all (·.isNumber)) := by
    rw [sorted?, List.length_map]
    split
    · next h => exact iff_of_false (Option.some_ne_none _) (not_not_intro h)
    · next h => exact iff_of_true rfl h
  rw [hopen]
  generalize atoms.map (·.key) = keys at hnodup ⊢
  constructor
  · intro h
    by_cases hnull : Key.null ∈ keys
    · -- `null` has no order with any other symbol
      have hother : ∃ l ∈ keys, l ≠ .null := by
        by_contra hnone
        have hall : ∀ l ∈ keys, l = .null := fun l hl => by_contra fun hne => hnone ⟨l, hl, hne⟩
        rw [List.eq_replicate_of_mem hall] at hnodup
        exact h (.inl (List.nodup_replicate.1 hnodup))
      obtain ⟨l, hl, hne⟩ := hother
      exact ⟨.null, hnull, l, hl, hne.symm, by simp [Key.Comparable, Key.isText, Key.isNumber]⟩
    · simp only [not_or, List.all_eq_true, not_forall] at h
      obtain ⟨-, ⟨k, hk, hktext⟩, l, hl, hlnumber⟩ := h
      have hknumber := (Key.isText_or_isNumber (ne_of_mem_of_not_mem hk hnull)).resolve_left hktext
      refine ⟨k, hk, l, hl, fun heq => hlnumber (heq ▸ hknumber), ?_⟩
      rintro (⟨htext, -⟩ | ⟨-, hnumber⟩)
      · exact hktext htext
      · exact hlnumber hnumber
  · rintro ⟨k, hk, l, hl, hne, hcomparable⟩ (hlength | htexts | hnumbers)
    · match keys, hlength with
      | [m], _ => exact hne ((List.mem_singleton.1 hk).trans (List.mem_singleton.1 hl).symm)
    · rw [List.all_eq_true] at htexts
      exact hcomparable (.inl ⟨htexts k hk, htexts l hl⟩)
    · rw [List.all_eq_true] at hnumbers
      exact hcomparable (.inr ⟨hnumbers k hk, hnumbers l hl⟩)

end Atom

namespace ContextFree

/-- Whether two symbols that are declared both ways have no order. -/
def ShareUnordered (terminals nonTerminals : List Atom) : Prop :=
  ∃ k l : Atom.Key, (k ∈ terminals.map (·.key) ∧ k ∈ nonTerminals.map (·.key)) ∧
    (l ∈ terminals.map (·.key) ∧ l ∈ nonTerminals.map (·.key)) ∧ k ≠ l ∧ ¬ k.Comparable l

/-- Whether a definition that can be read as a draft names a symbol by a list or an object, or
declares symbols both ways that have no order. -/
def Unforeseen (definition : Json) : Prop :=
  ∃ d, readDraft definition = .ok d ∧
    ((∃ v ∈ d.nonTerminals, v.IsCompound) ∨
      ∃ nonTerminals, distinctAtoms "nonTerminals" d.nonTerminals = .ok nonTerminals ∧
        ((∃ v ∈ d.terminals, v.IsCompound) ∨
          ∃ terminals, d.terminals = terminals.map .atom ∧
            ShareUnordered terminals nonTerminals))

theorem not_fails_readRight (hP : Unreported P) (v : Json) : ¬ Fails P (readRight v) := by
  unfold readRight
  split
  · exact not_fails_ok _
  · split
    · exact not_fails_ok _
    · exact hP.not_fails_definition _

theorem not_fails_readProduction (hP : Unreported P) (entry : Json) :
    ¬ Fails P (readProduction entry) := by
  refine not_fails_bind (hP.not_fails_requireObject _ _) fun members => ?_
  refine not_fails_bind (not_fails_readRight hP _) fun right => ?_
  exact not_fails_bind (hP.not_fails_requireText _ _) fun left => not_fails_ok _

theorem not_fails_readDraft (hP : Unreported P) (definition : Json) :
    ¬ Fails P (readDraft definition) := by
  refine not_fails_bind (hP.not_fails_requireObject _ _) fun members => ?_
  refine not_fails_bind (hP.not_fails_requireList _ _) fun entries => ?_
  refine not_fails_bind (not_fails_mapM fun entry _ => not_fails_readProduction hP entry)
    fun productions => ?_
  refine not_fails_bind (hP.not_fails_requireList _ _) fun terminals => ?_
  refine not_fails_bind (hP.not_fails_requireList _ _) fun nonTerminals => ?_
  exact not_fails_bind (hP.not_fails_requireText _ _) fun start => not_fails_ok _

/-- The symbols that two lists share are those of both. -/
theorem mem_keys_sharedSymbols_iff {terminals nonTerminals : List Atom} {k : Atom.Key} :
    k ∈ (sharedSymbols terminals nonTerminals).map (·.key) ↔
      k ∈ terminals.map (·.key) ∧ k ∈ nonTerminals.map (·.key) := by
  have hfilter : ∀ xs ys : List Atom, k ∈ (xs.filter (·.isAmong ys)).map (·.key) ↔
      k ∈ xs.map (·.key) ∧ k ∈ ys.map (·.key) := by
    intro xs ys
    simp only [List.mem_map, List.mem_filter, Atom.isAmong_iff]
    constructor
    · rintro ⟨s, ⟨hs, t, ht, hkey⟩, rfl⟩
      exact ⟨⟨s, hs, rfl⟩, t, ht, hkey⟩
    · rintro ⟨⟨s, hs, rfl⟩, t, ht, hkey⟩
      exact ⟨s, ⟨hs, t, ht, hkey⟩, rfl⟩
  unfold sharedSymbols
  split
  · rw [hfilter, and_comm]
  · exact hfilter terminals nonTerminals

theorem nodup_keys_sharedSymbols {terminals nonTerminals : List Atom}
    (hterminals : (terminals.map (·.key)).Nodup)
    (hnonTerminals : (nonTerminals.map (·.key)).Nodup) :
    ((sharedSymbols terminals nonTerminals).map (·.key)).Nodup := by
  unfold sharedSymbols
  split
  · exact hnonTerminals.sublist (List.filter_sublist.map _)
  · exact hterminals.sublist (List.filter_sublist.map _)

/-- The check that no symbol is declared both ways fails unforeseen where it cannot put those
that are in order. -/
theorem fails_checkDisjoint_iff (hP : Unreported P) {terminals nonTerminals : List Atom}
    (hnodup : (nonTerminals.map (·.key)).Nodup) :
    Fails P (checkDisjoint terminals nonTerminals) ↔ ShareUnordered terminals nonTerminals := by
  have hdistinct : ∀ k, k ∈ (Atom.distinct terminals).map (·.key) ↔ k ∈ terminals.map (·.key) := by
    intro k
    simp only [List.mem_map]
    constructor
    · rintro ⟨s, hs, rfl⟩
      exact ⟨s, Distinct.mem_of_mem_eraseDupsBy Atom.key hs, rfl⟩
    · rintro ⟨s, hs, rfl⟩
      exact Distinct.exists_mem_eraseDupsBy Atom.key hs
  have hshared : ((sharedSymbols (Atom.distinct terminals) nonTerminals).map (·.key)).Nodup :=
    nodup_keys_sharedSymbols (Distinct.nodup_map_eraseDupsBy Atom.key terminals) hnodup
  have hfails : Fails P (checkDisjoint terminals nonTerminals) ↔
      Atom.sorted? (sharedSymbols (Atom.distinct terminals) nonTerminals) = none := by
    unfold checkDisjoint
    split
    · next hnil =>
      rw [hnil]
      exact iff_of_false (not_fails_ok _) (Option.some_ne_none _)
    · split
      · next hsome =>
        rw [hsome]
        exact iff_of_false (hP.not_fails_definition _) (Option.some_ne_none _)
      · next hnone =>
        exact iff_of_true (fails_error_iff.2 (hP.value _)) hnone
  rw [hfails, Atom.sorted?_eq_none_iff hshared]
  simp only [mem_keys_sharedSymbols_iff, hdistinct]
  constructor
  · intro ⟨k, hk, l, hl, hkl⟩
    exact ⟨k, l, hk, hl, hkl⟩
  · intro ⟨k, l, hk, hl, hkl⟩
    exact ⟨k, hk, l, hl, hkl⟩

theorem not_fails_validate_production (hP : Unreported P) (p : Production) (g : Grammar) :
    ¬ Fails P (p.validate g) := by
  refine not_fails_bind (hP.not_fails_declaredText _ _ _) fun left => ?_
  split
  · exact hP.not_fails_definition _
  · exact not_fails_ok _

/-- The check of a draft fails unforeseen at its symbols alone. -/
theorem fails_validate_iff (hP : Unreported P) (d : Draft) :
    Fails P d.validate ↔
      ((∃ v ∈ d.nonTerminals, v.IsCompound) ∨
        ∃ nonTerminals, distinctAtoms "nonTerminals" d.nonTerminals = .ok nonTerminals ∧
          ((∃ v ∈ d.terminals, v.IsCompound) ∨
            ∃ terminals, d.terminals = terminals.map .atom ∧
              ShareUnordered terminals nonTerminals)) := by
  refine fails_bind_iff.trans (or_congr hP.fails_distinctAtoms_iff ?_)
  refine exists_congr fun nonTerminals => and_congr_right fun hnonTerminals => ?_
  refine fails_bind_iff.trans (or_congr hP.fails_mapM_requireAtom_iff ?_)
  refine exists_congr fun terminals => and_congr ?_ ?_
  · constructor
    · exact eq_map_of_mapM fun _ _ => Json.of_requireAtom
    · rintro h
      rw [h]
      exact mapM_map_eq_ok fun _ _ => rfl
  · rw [← fails_checkDisjoint_iff hP (nodup_of_distinctAtoms hnonTerminals)]
    refine fails_bind_iff_left fun _ => ?_
    refine not_fails_bind (hP.not_fails_declaredText _ _ _) fun start => ?_
    exact not_fails_bind (not_fails_mapM fun p _ => not_fails_validate_production hP p _)
      fun productions => not_fails_ok _

/-- **Reading a grammar** fails unforeseen exactly at a symbol that is a list or an object, and
where symbols that are declared both ways have no order. -/
theorem fails_ofJson_iff (hP : Unreported P) :
    Fails P (Grammar.ofJson definition) ↔ Unforeseen definition := by
  refine (fails_bind_iff_right (not_fails_readDraft hP definition)).trans ?_
  exact exists_congr fun d => and_congr_right' (fails_validate_iff hP d)

end ContextFree

/-! ## Finite automata -/

namespace Finite

/-- Whether a value has no items that could be targets: it is neither a name nor a list nor an
object. -/
def HasNoItems (v : Json) : Prop := ∃ s : Atom, v = .atom s ∧ s.text? = none

/-- Whether moves are in the nested form, and a state of those before the first that does not
have its moves by symbol has a target without items. -/
def UnforeseenMoves (moves : Json) : Prop :=
  ∃ front state bySymbol back, moves = .object (front ++ (state, .object bySymbol) :: back) ∧
    (∀ entry ∈ front, ∃ members, entry.2 = .object members) ∧
    ∃ entry ∈ bySymbol, HasNoItems entry.2

/-- Whether a definition whose states can be read lists a list or an object as an accepting
state, or else has an alphabet and a target without items. -/
def Unforeseen (definition : Json) : Prop :=
  ∃ members, definition.requireObject .automaton = .ok members ∧
    ∃ entries, members.requireList "states" = .ok entries ∧
      ∃ declared, entries.mapM readState = .ok declared ∧
        (∃ start, readStart (members.value "startState")
          ((declared.filter (·.isStart)).map (·.name)) = .ok start) ∧
        ∃ listed, members.optionalList "acceptStates" = .ok listed ∧
          ((∃ v ∈ listed, v.IsCompound) ∨
            (∃ alphabet, members.requireList "alphabet" = .ok alphabet) ∧
              UnforeseenMoves (members.value "transitions"))

theorem not_fails_readState (hP : Unreported P) (entry : Json) : ¬ Fails P (readState entry) := by
  unfold readState
  split
  · exact not_fails_ok _
  · split
    · exact not_fails_ok _
    · exact hP.not_fails_definition _

theorem not_fails_readStart (hP : Unreported P) (named : Json) (flagged : List Text) :
    ¬ Fails P (readStart named flagged) := by
  unfold readStart
  split
  · split
    · exact hP.not_fails_definition _
    · exact not_fails_ok _
    · exact hP.not_fails_definition _
  · split
    · exact hP.not_fails_definition _
    · exact not_fails_ok _
    · exact hP.not_fails_definition _
  · split
    · exact not_fails_ok _
    · exact hP.not_fails_definition _
  · exact hP.not_fails_definition _

theorem not_fails_readMove (hP : Unreported P) (entry : Json) : ¬ Fails P (readMove entry) := by
  refine not_fails_bind (hP.not_fails_requireObject _ _) fun members => ?_
  refine not_fails_bind (hP.not_fails_requireText _ _) fun source => ?_
  refine not_fails_bind (hP.not_fails_requireText _ _) fun target => ?_
  exact not_fails_bind (hP.not_fails_requireText _ _) fun symbol => not_fails_ok _

/-! ### Nested moves -/

theorem fails_readTargets_iff (hP : Unreported P) (v : Json) :
    Fails P (readTargets v) ↔ HasNoItems v := by
  unfold readTargets
  split
  · exact iff_of_false (not_fails_ok _) fun ⟨s, hs, htext⟩ => by cases hs; cases htext
  · exact iff_of_false (not_fails_ok _) fun ⟨s, hs, _⟩ => by cases hs
  · exact iff_of_false (not_fails_ok _) fun ⟨s, hs, _⟩ => by cases hs
  · next htext hlist hobject =>
    refine iff_of_true (fails_error_iff.2 (hP.value _)) ?_
    cases v with
    | atom s =>
        refine ⟨s, rfl, ?_⟩
        cases s with
        | text name => exact absurd rfl (htext name)
        | null | bool | integer | float => rfl
    | list items => exact absurd rfl (hlist items)
    | object members => exact absurd rfl (hobject members)

theorem fails_or_ok_readTargets (hP : Unreported P) (v : Json) :
    Fails P (readTargets v) ∨ ∃ targets, readTargets v = .ok targets := by
  unfold readTargets
  split
  · exact .inr ⟨_, rfl⟩
  · exact .inr ⟨_, rfl⟩
  · exact .inr ⟨_, rfl⟩
  · exact .inl (fails_error_iff.2 (hP.value _))

theorem fails_readNestedMoves_iff (hP : Unreported P) (source : Text) (entry : Text × Json) :
    Fails P (readNestedMoves source entry) ↔ HasNoItems entry.2 := by
  rw [← fails_readTargets_iff hP]
  exact fails_bind_iff_left fun _ => not_fails_ok _

theorem fails_or_ok_readNestedMoves (hP : Unreported P) (source : Text) (entry : Text × Json) :
    Fails P (readNestedMoves source entry) ∨ ∃ moves, readNestedMoves source entry = .ok moves := by
  obtain h | ⟨targets, htargets⟩ := fails_or_ok_readTargets hP entry.2
  · exact .inl (fails_bind_iff.2 (.inl h))
  · refine .inr ?_
    rw [readNestedMoves, htargets]
    exact ⟨_, rfl⟩

theorem fails_readStateMoves_iff (hP : Unreported P) (entry : Text × Json) :
    Fails P (readStateMoves entry) ↔
      ∃ bySymbol, entry.2 = .object bySymbol ∧ ∃ e ∈ bySymbol, HasNoItems e.2 := by
  unfold readStateMoves
  split
  · next bySymbol hentry =>
    have hmoves : Fails P (bySymbol.mapM (readNestedMoves entry.1)) ↔
        ∃ e ∈ bySymbol, HasNoItems e.2 := by
      rw [fails_mapM_iff (fails_or_ok_readNestedMoves hP entry.1)]
      exact exists_congr fun e => and_congr_right' (fails_readNestedMoves_iff hP entry.1 e)
    refine (fails_bind_iff_left fun _ => not_fails_ok _).trans (hmoves.trans ?_)
    rw [hentry]
    simp only [Json.object.injEq, exists_eq_left']
  · next hentry =>
    exact iff_of_false (hP.not_fails_definition _) fun ⟨bySymbol, h, _⟩ => hentry bySymbol h

/-- The moves of a state that has them by symbol. -/
theorem fails_or_ok_readStateMoves (hP : Unreported P) {entry : Text × Json}
    {bySymbol : Json.Members} (hentry : entry.2 = .object bySymbol) :
    Fails P (readStateMoves entry) ∨ ∃ moves, readStateMoves entry = .ok moves := by
  unfold readStateMoves
  rw [hentry]
  obtain h | ⟨moves, hmoves⟩ :=
    fails_or_ok_mapM (fails_or_ok_readNestedMoves hP entry.1) bySymbol
  · exact .inl (fails_bind_iff.2 (.inl h))
  · refine .inr ?_
    dsimp only
    rw [hmoves]
    exact ⟨_, rfl⟩

theorem exists_object_of_readStateMoves {entry : Text × Json} {moves : List DraftMove}
    (h : readStateMoves entry = .ok moves) : ∃ members, entry.2 = .object members := by
  unfold readStateMoves at h
  split at h
  · next members hentry => exact ⟨members, hentry⟩
  · cases h

/-- States are read in turn, up to the first whose moves are not by symbol. -/
theorem fails_mapM_readStateMoves_iff (hP : Unreported P) (byState : Json.Members) :
    Fails P (byState.mapM readStateMoves) ↔ UnforeseenMoves (.object byState) := by
  induction byState with
  | nil =>
      refine iff_of_false (not_fails_ok _) ?_
      intro ⟨front, state, bySymbol, back, h, _⟩
      simp at h
  | cons entry byState ih =>
      rw [fails_mapM_cons_iff, ih, fails_readStateMoves_iff hP]
      constructor
      · rintro (⟨bySymbol, hentry, htarget⟩ | ⟨⟨moves, hmoves⟩, front, state, bySymbol, back, hrest,
          hfront, htarget⟩)
        · exact ⟨[], entry.1, bySymbol, byState, by rw [← hentry]; rfl, by simp, htarget⟩
        · cases hrest
          refine ⟨entry :: front, state, bySymbol, back, rfl, ?_, htarget⟩
          exact List.forall_mem_cons.2 ⟨exists_object_of_readStateMoves hmoves, hfront⟩
      · rintro ⟨_ | ⟨first, front⟩, state, bySymbol, back, h, hfront, htarget⟩
        · cases h
          exact .inl ⟨bySymbol, rfl, htarget⟩
        · cases h
          obtain ⟨⟨members, hfirst⟩, hfront⟩ := List.forall_mem_cons.1 hfront
          obtain hfails | hok := fails_or_ok_readStateMoves hP hfirst
          · exact .inl ((fails_readStateMoves_iff hP _).1 hfails)
          · exact .inr ⟨hok, front, state, bySymbol, back, rfl, hfront, htarget⟩

theorem fails_readMoves_iff (hP : Unreported P) (moves : Json) :
    Fails P (readMoves moves) ↔ UnforeseenMoves moves := by
  cases moves with
  | object byState =>
      rw [← fails_mapM_readStateMoves_iff hP]
      exact fails_bind_iff_left fun _ => not_fails_ok _
  | list entries =>
      refine iff_of_false (not_fails_mapM fun entry _ => not_fails_readMove hP entry) ?_
      intro ⟨_, _, _, _, h, _⟩
      cases h
  | atom s =>
      refine iff_of_false (hP.not_fails_definition _) ?_
      intro ⟨_, _, _, _, h, _⟩
      cases h

/-! ### Whole definitions -/

theorem fails_readDraft_iff (hP : Unreported P) (definition : Json) :
    Fails P (readDraft definition) ↔ Unforeseen definition := by
  refine (fails_bind_iff_right (hP.not_fails_requireObject _ _)).trans ?_
  refine exists_congr fun members => and_congr_right' ?_
  refine (fails_bind_iff_right (hP.not_fails_requireList _ _)).trans ?_
  refine exists_congr fun entries => and_congr_right' ?_
  refine (fails_bind_iff_right (not_fails_mapM fun e _ => not_fails_readState hP e)).trans ?_
  refine exists_congr fun declared => and_congr_right' ?_
  refine (fails_bind_iff_right (not_fails_readStart hP _ _)).trans ?_
  rw [← exists_and_right]
  refine exists_congr fun start => and_congr_right' ?_
  refine (fails_bind_iff_right (hP.not_fails_optionalList _ _)).trans ?_
  refine exists_congr fun listed => and_congr_right' ?_
  rw [← hP.fails_mapM_requireAtom_iff]
  refine fails_bind_iff.trans (or_congr_right' fun hlisted => ?_)
  obtain ⟨named, hnamed⟩ :=
    (fails_or_ok_mapM hP.fails_or_ok_requireAtom listed).resolve_left hlisted
  simp only [hnamed, Except.ok.injEq, exists_eq_left']
  refine (fails_bind_iff_right (hP.not_fails_requireList _ _)).trans ?_
  rw [← exists_and_right, ← fails_readMoves_iff hP]
  refine exists_congr fun alphabet => and_congr_right' ?_
  exact fails_bind_iff_left fun _ => not_fails_ok _

theorem not_fails_validate_move (hP : Unreported P) (m : DraftMove) (names : List Text) :
    ¬ Fails P (m.validate names) := by
  refine not_fails_bind (hP.not_fails_declaredName _ _ _) fun source => ?_
  exact not_fails_bind (hP.not_fails_declaredName _ _ _) fun target => not_fails_ok _

/-- The check of a draft reports what is wrong. -/
theorem not_fails_validate (hP : Unreported P) (d : Draft) : ¬ Fails P d.validate := by
  refine hP.not_fails_unless ?_
  refine not_fails_bind (hP.not_fails_declaredName _ _ _) fun start => ?_
  refine not_fails_bind (not_fails_mapM fun s _ => hP.not_fails_declaredName _ _ _)
    fun accepting => ?_
  exact not_fails_bind (not_fails_mapM fun m _ => not_fails_validate_move hP m _)
    fun transitions => not_fails_ok _

/-- **Reading a finite automaton** fails unforeseen exactly at an accepting state that is a list
or an object, and at a target without items. -/
theorem fails_ofJson_iff (hP : Unreported P) :
    Fails P (Automaton.ofJson definition) ↔ Unforeseen definition := by
  rw [← fails_readDraft_iff hP]
  exact fails_bind_iff_left fun d => not_fails_validate hP d

end Finite

end FormalMachines
