import FormalMachines.Proofs.Checks
import FormalMachines.Pushdown.Document

/-!
# FormalMachines.Proofs.Pushdown.Document

A pushdown automaton that was read from its definition is valid.  A move without empty names
is read from what it is written as (`readTransition_toJson`).
-/

namespace FormalMachines.Pushdown

/-- A move that passed the check is between declared states. -/
theorem of_validate_transition {t checked : Transition} {states : List Atom}
    (h : t.validate states = .ok checked) :
    .text checked.source ∈ states ∧ .text checked.target ∈ states := by
  obtain ⟨source, hsource, h⟩ := bind_eq_ok h
  obtain ⟨target, htarget, h⟩ := bind_eq_ok h
  obtain ⟨rfl, hs⟩ := of_declaredText hsource
  obtain ⟨rfl, ht⟩ := of_declaredText htarget
  cases h
  exact ⟨hs, ht⟩

theorem valid_of_validate {d : Draft} {a : Automaton} (h : d.validate = .ok a) : a.Valid := by
  obtain ⟨states, hstates, h⟩ := bind_eq_ok h
  obtain ⟨start, hstart, h⟩ := bind_eq_ok h
  obtain ⟨accepting, haccepting, h⟩ := bind_eq_ok h
  obtain ⟨hinitial, h⟩ := of_throw_eq_ok h
  obtain ⟨transitions, htransitions, h⟩ := bind_eq_ok h
  cases h
  refine ⟨nodup_of_distinctAtoms hstates, ?_, fun s hs => ?_, not_or.1 hinitial, fun t ht => ?_⟩
  · obtain ⟨rfl, hmem⟩ := of_declaredText hstart
    exact hmem
  · obtain ⟨v, -, hv⟩ := exists_of_mem_mapM haccepting hs
    exact of_declaredAtom hv
  · obtain ⟨move, -, hmove⟩ := exists_of_mem_mapM htransitions ht
    exact of_validate_transition hmove

/-- **An automaton that was read** is valid. -/
theorem Automaton.valid_ofJson {definition : Json} {a : Automaton}
    (h : Automaton.ofJson definition = .ok a) : a.Valid := by
  obtain ⟨d, -, h⟩ := bind_eq_ok h
  exact valid_of_validate h

/-! ## Reading moves -/

/-- A pop symbol that was read is not the empty text. -/
theorem pop_ne_nil_of_readTransition {entry : Json} {t : Transition}
    (h : readTransition entry = .ok t) : t.pop ≠ [] := by
  obtain ⟨members, -, h⟩ := bind_eq_ok h
  dsimp only at h
  split at h
  · obtain ⟨push, -, h⟩ := bind_eq_ok h
    obtain ⟨source, -, h⟩ := bind_eq_ok h
    obtain ⟨input, -, h⟩ := bind_eq_ok h
    obtain ⟨pop, hpop, h⟩ := bind_eq_ok h
    obtain ⟨target, -, h⟩ := bind_eq_ok h
    cases h
    exact Json.Members.ne_nil_of_requireSymbol hpop
  · cases h

/-- A move without empty names is read from what it is written as. -/
theorem readTransition_toJson {t : Transition} (hsource : t.source ≠ []) (hinput : t.input ≠ [])
    (hpop : t.pop ≠ []) (htarget : t.target ≠ []) : readTransition t.toJson = .ok t := by
  let members : Json.Members := [("fromState", .text t.source), ("inputSymbol", .text t.input),
    ("popSymbol", .text t.pop), ("toState", .text t.target), ("pushSymbols", .texts t.push)]
  have hpush : ((members.get? "pushSymbols").getD (.list [])).textItems? = some t.push :=
    Json.textItems?_texts t.push
  have hsource : members.requireText "fromState" = .ok t.source := if_neg hsource
  have hinput : members.requireSymbol "inputSymbol" = .ok t.input :=
    congrArg Except.ok (if_neg hinput)
  have hpop : members.requireSymbol "popSymbol" = .ok t.pop := congrArg Except.ok (if_neg hpop)
  have htarget : members.requireText "toState" = .ok t.target := if_neg htarget
  have hobject : t.toJson.requireObject .transition = .ok members := rfl
  have hbind : ∀ {α β : Type} (x : α) (f : α → Except Fault β), (.ok x >>= f) = f x :=
    fun _ _ => rfl
  simp only [readTransition, hobject, hbind, hpush, hsource, hinput, hpop, htarget]
  rfl

end FormalMachines.Pushdown
