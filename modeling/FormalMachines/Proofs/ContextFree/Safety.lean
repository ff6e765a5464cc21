import FormalMachines.Proofs.ContextFree.Attempt

/-!
# FormalMachines.Proofs.ContextFree.Safety

The derivations of a valid grammar are of declared symbols.

The start symbol is declared, and a step puts symbols of a production in place of one
(`declares_replace`).  These are known and no `ε`, so they are terminals or non-terminals.
-/

namespace FormalMachines.ContextFree

namespace Grammar

/-- Whether a symbol is a declared terminal or non-terminal. -/
def Declares (g : Grammar) (symbol : Text) : Prop :=
  .text symbol ∈ g.terminals ∨ .text symbol ∈ g.nonTerminals

variable {g : Grammar} {form last : Form} {l : Leftmost} {p : Production} {path : List Applied}

theorem declares_of_mem_symbols (hg : g.Valid) (hp : p ∈ g.productions) :
    ∀ s ∈ p.symbols, g.Declares s := by
  intro s hs
  obtain ⟨hright, hne⟩ := List.mem_filter.1 hs
  have hknown := (hg.2.2.2 p hp).2 s hright
  simp only [isKnown, Bool.or_eq_true, decide_eq_true_eq] at hknown
  obtain (hepsilon | hterminal) | hnonTerminal := hknown
  · exact absurd hepsilon (of_decide_eq_true hne)
  · exact .inl hterminal
  · exact .inr (of_decide_eq_true hnonTerminal)

/-- **A step** from declared symbols leads to declared symbols. -/
theorem declares_replace (hg : g.Valid) (hl : g.leftmost? form = some l)
    (hp : p ∈ g.productionsFor l.symbol) (hform : ∀ s ∈ form, g.Declares s) :
    ∀ s ∈ l.replace p.symbols, g.Declares s := by
  rw [← (form_of_leftmost? hl).1] at hform
  intro s hs
  obtain hs | hafter := List.mem_append.1 hs
  · obtain hbefore | hs := List.mem_append.1 hs
    · exact hform s (List.mem_append_left _ hbefore)
    · exact declares_of_mem_symbols hg (mem_productionsFor.1 hp).1 s hs
  · exact hform s (List.mem_append_right _ (List.mem_cons_of_mem _ hafter))

/-- The steps of a path are of declared symbols if the form is that it leads on from. -/
theorem Leads.declares (hg : g.Valid) (h : g.Leads form path last)
    (hform : ∀ s ∈ form, g.Declares s) (n : Nat) :
    ∀ step ∈ numberSteps n path, ∀ s ∈ step.form, g.Declares s := by
  induction h generalizing n with
  | nil form => exact fun step hstep => absurd hstep List.not_mem_nil
  | cons split mem _ ih =>
      have hnext := declares_replace hg split mem hform
      intro step hstep
      obtain rfl | hstep := List.mem_cons.1 hstep
      · exact hnext
      · exact ih hnext (n + 1) step hstep

end Grammar

/-- A result without a depth holds no derivation. -/
theorem derivation_of_deepen {goal : Goal} {left depth : Nat} {s : Search}
    (h : (deepen goal left depth s).depth = none) : (deepen goal left depth s).derivation = [] := by
  induction left generalizing depth s with
  | zero => rfl
  | succ left ih =>
      rw [deepen] at h ⊢
      generalize s.expand goal depth [goal.grammar.start] = result at h ⊢
      obtain ⟨_ | (_ | _) | _, s'⟩ := result
      · cases h
      · rfl
      · exact ih h
      · rfl

namespace Grammar

variable {g : Grammar}

/-- **A derivation** under whatever limits is of declared symbols. -/
theorem derive_declares (hg : g.Valid) (target : Text) (budget : Budget) (cancel : Cancellation) :
    ∀ step ∈ (g.derive target budget cancel).derivation, ∀ s ∈ step.form, g.Declares s := by
  cases hdepth : (g.derive target budget cancel).depth with
  | none =>
      have hnil : (g.derive target budget cancel).derivation = [] := derivation_of_deepen hdepth
      rw [hnil]
      exact fun step hstep => absurd hstep List.not_mem_nil
  | some n =>
      obtain ⟨path, last, hleads, hpath⟩ := exists_path_of_deepen hdepth
      have hpath : (g.derive target budget cancel).derivation = g.derivationOf path := hpath
      have hstart : ∀ s ∈ [g.start], g.Declares s := fun s hs =>
        List.mem_singleton.1 hs ▸ .inr hg.2.2.1
      rw [hpath]
      intro step hstep
      obtain rfl | hstep := List.mem_cons.1 hstep
      · exact hstart
      · exact hleads.declares hg hstart 1 step hstep

end Grammar

end FormalMachines.ContextFree
