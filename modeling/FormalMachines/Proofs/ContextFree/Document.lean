import FormalMachines.ContextFree.Document
import FormalMachines.Proofs.Checks
import FormalMachines.Proofs.Distinct

/-!
# FormalMachines.Proofs.ContextFree.Document

A grammar that was read from its definition is valid.

That no symbol is declared both ways is checked on the distinct terminals, in whichever of
the two lists is shorter (`disjoint_of_checkDisjoint`).  A valid grammar without empty names
is read from what it is written as (`ofJson_toJson`).
-/

namespace FormalMachines.ContextFree

/-- A production that passed the check replaces a non-terminal by known symbols. -/
theorem of_validate_production {p checked : Production} {g : Grammar}
    (h : p.validate g = .ok checked) :
    checked = p ∧ g.isNonTerminal p.left ∧ ∀ s ∈ p.right, g.isKnown s := by
  obtain ⟨left, hleft, h⟩ := bind_eq_ok h
  obtain ⟨rfl, hmem⟩ := of_declaredText hleft
  cases hfind : p.right.find? fun s => !g.isKnown s with
  | some symbol =>
      rw [hfind] at h
      cases h
  | none =>
      rw [hfind] at h
      cases h
      refine ⟨rfl, decide_eq_true hmem, fun s hs => ?_⟩
      simpa using List.find?_eq_none.1 hfind s hs

/-- Lists of atoms that share no symbol have no key in common. -/
theorem disjoint_of_sharedSymbols {terminals nonTerminals : List Atom}
    (h : sharedSymbols terminals nonTerminals = []) :
    ∀ a ∈ nonTerminals, a.key ∉ terminals.map (·.key) := by
  intro a ha hmem
  unfold sharedSymbols at h
  split at h
  · have hnot := List.filter_eq_nil_iff.1 h a ha
    exact hnot (Atom.isAmong_iff.2 hmem)
  · obtain ⟨t, ht, hkey⟩ := List.mem_map.1 hmem
    have hnot := List.filter_eq_nil_iff.1 h t ht
    refine hnot (Atom.isAmong_iff.2 ?_)
    rw [hkey]
    exact List.mem_map_of_mem ha

theorem disjoint_of_checkDisjoint {terminals nonTerminals : List Atom}
    (h : checkDisjoint terminals nonTerminals = .ok ()) :
    ∀ a ∈ nonTerminals, a.key ∉ terminals.map (·.key) := by
  unfold checkDisjoint at h
  split at h
  · next hshared =>
    intro a ha hmem
    apply disjoint_of_sharedSymbols hshared a ha
    obtain ⟨t, ht, hkey⟩ := List.mem_map.1 hmem
    obtain ⟨u, hu, hsame⟩ := Distinct.exists_mem_eraseDupsBy Atom.key ht
    rw [← hkey, ← hsame]
    exact List.mem_map_of_mem hu
  · split at h <;> cases h

theorem valid_of_validate {d : Draft} {g : Grammar} (h : d.validate = .ok g) : g.Valid := by
  obtain ⟨nonTerminals, hnonTerminals, h⟩ := bind_eq_ok h
  obtain ⟨terminals, -, h⟩ := bind_eq_ok h
  obtain ⟨⟨⟩, hdisjoint, h⟩ := bind_eq_ok h
  obtain ⟨start, hstart, h⟩ := bind_eq_ok h
  obtain ⟨productions, hproductions, h⟩ := bind_eq_ok h
  obtain ⟨rfl, hmem⟩ := of_declaredText hstart
  cases h
  refine ⟨nodup_of_distinctAtoms hnonTerminals, disjoint_of_checkDisjoint hdisjoint, hmem,
    fun p hp => ?_⟩
  obtain ⟨q, -, hq⟩ := exists_of_mem_mapM hproductions hp
  obtain ⟨rfl, hleft, hright⟩ := of_validate_production hq
  exact ⟨hleft, hright⟩

/-- **A grammar that was read** is valid. -/
theorem Grammar.valid_ofJson {definition : Json} {g : Grammar}
    (h : Grammar.ofJson definition = .ok g) : g.Valid := by
  obtain ⟨d, -, h⟩ := bind_eq_ok h
  exact valid_of_validate h

/-! ## Reading what was written -/

/-- The definition of a grammar. -/
def Grammar.toJson (g : Grammar) : Json :=
  .object [("terminals", .list (g.terminals.map .atom)),
    ("nonTerminals", .list (g.nonTerminals.map .atom)),
    ("productions", .list (g.productions.map (·.toJson))), ("startSymbol", .text g.start)]

theorem readProduction_toJson {p : Production} (h : p.left ≠ []) :
    readProduction p.toJson = .ok p := by
  have hright : readRight (.texts p.right) = .ok p.right := by
    simp only [readRight, Json.textItems?_texts]
    rfl
  have hleft : Json.Members.requireText [("left", .text p.left), ("right", .texts p.right)] "left" =
      .ok p.left := if_neg h
  change (readRight (.texts p.right) >>= fun right =>
    Json.Members.requireText [("left", .text p.left), ("right", .texts p.right)] "left" >>=
      fun left => pure (⟨left, right⟩ : Production)) = _
  rw [hright, hleft]
  rfl

theorem readDraft_toJson {g : Grammar} (hstart : g.start ≠ [])
    (hleft : ∀ p ∈ g.productions, p.left ≠ []) :
    readDraft g.toJson =
      .ok ⟨g.terminals.map .atom, g.nonTerminals.map .atom, g.productions, g.start⟩ := by
  have hproductions : (g.productions.map (·.toJson)).mapM readProduction = .ok g.productions :=
    mapM_map_eq_ok fun p hp => readProduction_toJson (hleft p hp)
  change ((g.productions.map (·.toJson)).mapM readProduction >>= fun productions =>
    (if g.start = [] then Except.error (Fault.definition (.missing "startSymbol"))
      else .ok g.start) >>= fun start =>
      pure (⟨g.terminals.map .atom, g.nonTerminals.map .atom, productions, start⟩ : Draft)) = _
  rw [hproductions, if_neg hstart]
  rfl

theorem validate_production {p : Production} {g : Grammar} (hleft : g.isNonTerminal p.left)
    (hright : ∀ s ∈ p.right, g.isKnown s) : p.validate g = .ok p := by
  have hfind : (p.right.find? fun s => !g.isKnown s) = none :=
    List.find?_eq_none.2 fun s hs => by simp [hright s hs]
  rw [Production.validate, declaredText, if_pos (of_decide_eq_true hleft), hfind]
  rfl

theorem checkDisjoint_eq_ok {terminals nonTerminals : List Atom}
    (h : ∀ a ∈ nonTerminals, a.key ∉ terminals.map (·.key)) :
    checkDisjoint terminals nonTerminals = .ok () := by
  have hnone : ∀ a ∈ nonTerminals, ∀ t ∈ Atom.distinct terminals, a.key ≠ t.key := by
    intro a ha t ht hkey
    apply h a ha
    rw [hkey]
    exact List.mem_map_of_mem (Distinct.mem_of_mem_eraseDupsBy Atom.key ht)
  have hshared : sharedSymbols (Atom.distinct terminals) nonTerminals = [] := by
    unfold sharedSymbols
    split
    · refine List.filter_eq_nil_iff.2 fun a ha hmem => ?_
      obtain ⟨t, ht, hkey⟩ := List.mem_map.1 (Atom.isAmong_iff.1 hmem)
      exact hnone a ha t ht hkey.symm
    · refine List.filter_eq_nil_iff.2 fun t ht hmem => ?_
      obtain ⟨a, ha, hkey⟩ := List.mem_map.1 (Atom.isAmong_iff.1 hmem)
      exact hnone a ha t ht hkey
  rw [checkDisjoint, hshared]

/-- **Reading** what a valid grammar without empty names is written as. -/
theorem ofJson_toJson {g : Grammar} (hg : g.Valid) (hstart : g.start ≠ [])
    (hleft : ∀ p ∈ g.productions, p.left ≠ []) : Grammar.ofJson g.toJson = .ok g := by
  obtain ⟨hnodup, hdisjoint, hmem, hproductions⟩ := hg
  have hatoms : ∀ atoms : List Atom, (atoms.map Json.atom).mapM Json.requireAtom = .ok atoms :=
    fun _ => mapM_map_eq_ok fun _ _ => rfl
  have hall : g.productions.mapM (·.validate ⟨g.terminals, g.nonTerminals, g.productions, g.start⟩) =
      .ok g.productions := by
    conv_lhs => rw [← List.map_id g.productions]
    exact mapM_map_eq_ok fun p hp => validate_production (hproductions p hp).1 (hproductions p hp).2
  rw [Grammar.ofJson, readDraft_toJson hstart hleft]
  change Draft.validate _ = _
  rw [Draft.validate, distinctAtoms]
  simp only [hatoms, bind, Except.bind, hnodup, if_true, pure, Except.pure,
    checkDisjoint_eq_ok hdisjoint, declaredText, if_pos hmem, hall]

end FormalMachines.ContextFree
