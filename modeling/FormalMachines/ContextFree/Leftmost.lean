import FormalMachines.ContextFree.Basic

/-!
# FormalMachines.ContextFree.Leftmost

Derivations as a relation, whatever finds them.

A leftmost step replaces the first non-terminal of a form by one of its productions, and
a derivation is a sequence of such steps (`Grammar.Derives`).  A form is terminal if it
holds no non-terminal.  The productions of a derivation fix the form it leads to
(`derives_unique`), and a beginning without non-terminals stays as it is
(`derives_append_left_iff`).
-/

namespace FormalMachines.ContextFree

namespace Grammar

/-- Whether a production, put at the first non-terminal of one form, gives another. -/
def Step (g : Grammar) (form : Form) (p : Production) (next : Form) : Prop :=
  ∃ l, g.leftmost? form = some l ∧ p ∈ g.productionsFor l.symbol ∧ next = l.replace p.symbols

/-- Whether productions lead, one after the other, from one form to another. -/
inductive Derives (g : Grammar) : Form → List Production → Form → Prop where
  | nil (form : Form) : g.Derives form [] form
  | cons {form next last : Form} {p : Production} {more : List Production}
      (step : g.Step form p next) (rest : g.Derives next more last) :
      g.Derives form (p :: more) last

/-- Whether a form holds no non-terminal. -/
def IsTerminal (g : Grammar) (form : Form) : Prop := ∀ s ∈ form, g.isNonTerminal s = false

instance (g : Grammar) (form : Form) : Decidable (g.IsTerminal form) := by
  unfold IsTerminal; infer_instance

/-- Whether productions lead from a form to a terminal one that spells a text. -/
def Spells (g : Grammar) (form : Form) (productions : List Production) (text : Text) :
    Prop :=
  ∃ last, g.Derives form productions last ∧ g.IsTerminal last ∧ spell last = text

/-- Whether a text belongs to the language of a grammar. -/
def Generates (g : Grammar) (text : Text) : Prop := ∃ ps, g.Spells [g.start] ps text

variable {g : Grammar} {form next last : Form} {p : Production} {ps : List Production}

theorem mem_productionsFor {symbol : Text} :
    p ∈ g.productionsFor symbol ↔ p ∈ g.productions ∧ p.left = symbol := by
  simp [productionsFor]

/-- A step puts the right side of a production in place of its left side. -/
theorem Step.split (h : g.Step form p next) :
    ∃ before after, form = before ++ p.left :: after ∧ next = before ++ p.symbols ++ after ∧
      g.IsTerminal before ∧ p ∈ g.productions := by
  obtain ⟨l, hl, hp, rfl⟩ := h
  obtain ⟨hform, _, hbefore⟩ := form_of_leftmost? hl
  obtain ⟨mem, hleft⟩ := mem_productionsFor.1 hp
  exact ⟨l.before, l.after, by rw [hleft]; exact hform.symm, rfl, hbefore, mem⟩

/-- The productions fix what a step leads to. -/
theorem Step.unique {other : Form} (h : g.Step form p next) (h' : g.Step form p other) :
    next = other := by
  obtain ⟨l, hl, _, rfl⟩ := h
  obtain ⟨m, hm, _, rfl⟩ := h'
  rw [hl] at hm
  cases hm
  rfl

/-- A terminal form has no step. -/
theorem IsTerminal.not_step (h : g.IsTerminal form) : ¬ g.Step form p next := by
  rintro ⟨l, hl, _⟩
  rw [leftmost?_eq_none_iff.2 h] at hl
  cases hl

theorem derives_nil_iff : g.Derives form [] last ↔ form = last :=
  ⟨fun h => by cases h; rfl, fun h => h ▸ .nil form⟩

theorem derives_cons_iff :
    g.Derives form (p :: ps) last ↔ ∃ next, g.Step form p next ∧ g.Derives next ps last :=
  ⟨fun h => by cases h with | cons step rest => exact ⟨_, step, rest⟩,
   fun ⟨_, step, rest⟩ => .cons step rest⟩

theorem derives_unique {other : Form} (h : g.Derives form ps last)
    (h' : g.Derives form ps other) : last = other := by
  induction h with
  | nil => exact derives_nil_iff.1 h'
  | cons step _ ih =>
    obtain ⟨_, step', rest'⟩ := derives_cons_iff.1 h'
    exact ih (step.unique step' ▸ rest')

/-! ## Fixed beginnings -/

theorem leftmost?_append {front : Form} (h : g.IsTerminal front) (form : Form) :
    g.leftmost? (front ++ form) =
      (g.leftmost? form).map fun l => { l with before := front ++ l.before } := by
  induction front with
  | nil => simp
  | cons s front ih =>
    rw [List.cons_append, leftmost?, h s (by simp), ih fun t ht => h t (by simp [ht])]
    cases g.leftmost? form <;> rfl

/-- A step behind a beginning without non-terminals leaves that as it is. -/
theorem step_append_iff {front : Form} (h : g.IsTerminal front) :
    g.Step (front ++ form) p next ↔ ∃ rest, g.Step form p rest ∧ next = front ++ rest := by
  simp only [Step, leftmost?_append h]
  constructor
  · rintro ⟨_, hmap, hp, rfl⟩
    obtain ⟨l, hl, rfl⟩ := Option.map_eq_some_iff.1 hmap
    exact ⟨_, ⟨l, hl, hp, rfl⟩, by simp [Leftmost.replace]⟩
  · rintro ⟨_, ⟨l, hl, hp, rfl⟩, rfl⟩
    exact ⟨_, Option.map_eq_some_iff.2 ⟨l, hl, rfl⟩, hp, by simp [Leftmost.replace]⟩

/-- A derivation behind a beginning without non-terminals leaves that as it is. -/
theorem derives_append_left_iff {front : Form} (h : g.IsTerminal front) :
    g.Derives (front ++ form) ps last ↔ ∃ rest, g.Derives form ps rest ∧ last = front ++ rest := by
  induction ps generalizing form with
  | nil => simp [derives_nil_iff, eq_comm]
  | cons p ps ih =>
    simp only [derives_cons_iff, step_append_iff h]
    constructor
    · rintro ⟨_, ⟨next, hstep, rfl⟩, hrest⟩
      obtain ⟨rest, hderives, rfl⟩ := ih.1 hrest
      exact ⟨rest, ⟨next, hstep, hderives⟩, rfl⟩
    · rintro ⟨rest, ⟨next, hstep, hderives⟩, rfl⟩
      exact ⟨_, ⟨next, hstep, rfl⟩, ih.2 ⟨rest, hderives, rfl⟩⟩

end Grammar

end FormalMachines.ContextFree
