import FormalMachines.Proofs.Checks
import FormalMachines.Turing.Document

/-!
# FormalMachines.Proofs.Turing.Document

A Turing machine that was read from its definition is valid.
-/

namespace FormalMachines.Turing

/-- A move that passed the check is between declared states. -/
theorem of_validate_move {m : DraftMove} {t : Transition} {states : List Atom}
    (h : m.validate states = .ok t) : .text t.state ∈ states ∧ .text t.next ∈ states := by
  obtain ⟨state, hstate, h⟩ := bind_eq_ok h
  obtain ⟨next, hnext, h⟩ := bind_eq_ok h
  obtain ⟨direction, -, h⟩ := bind_eq_ok h
  obtain ⟨rfl, hs⟩ := of_declaredText hstate
  obtain ⟨rfl, hn⟩ := of_declaredText hnext
  cases h
  exact ⟨hs, hn⟩

theorem valid_of_validate {d : Draft} {m : Machine} (h : d.validate = .ok m) : m.Valid := by
  obtain ⟨states, hstates, h⟩ := bind_eq_ok h
  obtain ⟨start, hstart, h⟩ := bind_eq_ok h
  obtain ⟨accept, haccept, h⟩ := bind_eq_ok h
  obtain ⟨reject, hreject, h⟩ := bind_eq_ok h
  obtain ⟨hdiffer, h⟩ := of_throw_eq_ok h
  obtain ⟨hblank, h⟩ := of_throw_eq_ok h
  obtain ⟨transitions, htransitions, h⟩ := bind_eq_ok h
  obtain ⟨rfl, hs⟩ := of_declaredText hstart
  obtain ⟨rfl, ha⟩ := of_declaredText haccept
  obtain ⟨rfl, hr⟩ := of_declaredText hreject
  cases h
  refine ⟨nodup_of_distinctAtoms hstates, hs, ha, hr, hdiffer, hblank, fun t ht => ?_⟩
  obtain ⟨move, -, hmove⟩ := exists_of_mem_mapM htransitions ht
  exact of_validate_move hmove

/-- **A machine that was read** is valid. -/
theorem Machine.valid_ofJson {definition : Json} {m : Machine}
    (h : Machine.ofJson definition = .ok m) : m.Valid := by
  obtain ⟨d, -, h⟩ := bind_eq_ok h
  exact valid_of_validate h

end FormalMachines.Turing
