import FormalMachines.Json.Fields

/-!
# FormalMachines.ContextFree.Basic

Context-free grammars and their sentential forms.

A symbol is a text of any length, the empty one included; the texts among the declared
non-terminals are the symbols that productions replace.  `ε` on the right side of a
production stands for nothing.

Derivation is leftmost: `leftmost?` splits a form at its first non-terminal, and `replace`
puts a right side in its place.
-/

namespace FormalMachines.ContextFree

/-- A rule that replaces a non-terminal. -/
structure Production where
  left : Text
  right : List Text
  deriving DecidableEq, Repr

namespace Production

/-- The right side without `ε`. -/
def symbols (p : Production) : List Text := p.right.filter (· ≠ epsilon)

/-- The right side in words, `ε` if it is empty. -/
def rightText (p : Production) : Text :=
  let text := Text.join " " p.symbols
  if text = [] then epsilon else text

/-- A production in words. -/
def display (p : Production) : Text := p.left ++ " -> " ++ p.rightText

end Production

/-- A context-free grammar.  The declared symbols are kept as they were given. -/
structure Grammar where
  terminals : List Atom
  nonTerminals : List Atom
  productions : List Production
  start : Text
  deriving Repr

/-- A sentential form. -/
abbrev Form := List Text

/-- The text that a form of terminals spells. -/
def spell (form : Form) : Text := form.flatten

theorem spell_append (u v : Form) : spell (u ++ v) = spell u ++ spell v := by simp [spell]

/-- A form split at its first non-terminal. -/
structure Leftmost where
  before : Form
  symbol : Text
  after : Form
  deriving DecidableEq, Repr

namespace Leftmost

/-- The form that was split. -/
def form (l : Leftmost) : Form := l.before ++ l.symbol :: l.after

/-- The form with other symbols in place of the non-terminal. -/
def replace (l : Leftmost) (symbols : List Text) : Form := l.before ++ symbols ++ l.after

end Leftmost

namespace Grammar

/-- Whether a symbol is a non-terminal. -/
def isNonTerminal (g : Grammar) (symbol : Text) : Bool := .text symbol ∈ g.nonTerminals

/-- The productions of a non-terminal, in order. -/
def productionsFor (g : Grammar) (symbol : Text) : List Production :=
  g.productions.filter (·.left = symbol)

/-- A symbol that a production may use. -/
def isKnown (g : Grammar) (symbol : Text) : Bool :=
  symbol = epsilon || .text symbol ∈ g.terminals || g.isNonTerminal symbol

/-- The first non-terminal of a form, if there is one. -/
def leftmost? (g : Grammar) : Form → Option Leftmost
  | [] => none
  | s :: rest =>
    if g.isNonTerminal s then some ⟨[], s, rest⟩
    else (leftmost? g rest).map fun l => { l with before := s :: l.before }

theorem form_of_leftmost? {g : Grammar} {form : Form} {l : Leftmost}
    (h : g.leftmost? form = some l) :
    l.form = form ∧ g.isNonTerminal l.symbol ∧ ∀ s ∈ l.before, g.isNonTerminal s = false := by
  induction form generalizing l with
  | nil => simp [leftmost?] at h
  | cons s rest ih =>
    by_cases hs : g.isNonTerminal s
    · simp only [leftmost?, hs, if_true, Option.some.injEq] at h
      subst h
      simp [Leftmost.form, hs]
    · simp only [leftmost?, hs, Bool.false_eq_true, if_false, Option.map_eq_some_iff] at h
      obtain ⟨m, hm, rfl⟩ := h
      obtain ⟨hform, hsym, hbefore⟩ := ih hm
      refine ⟨by simpa [Leftmost.form] using hform, hsym, ?_⟩
      simpa [hs] using hbefore

theorem leftmost?_eq_none_iff {g : Grammar} {form : Form} :
    g.leftmost? form = none ↔ ∀ s ∈ form, g.isNonTerminal s = false := by
  induction form with
  | nil => simp [leftmost?]
  | cons s rest ih => by_cases hs : g.isNonTerminal s <;> simp [leftmost?, hs, ih]

/-- Non-terminals are distinct and no terminals, the start symbol is one of them, and
productions replace them by known symbols. -/
def Valid (g : Grammar) : Prop :=
  (g.nonTerminals.map (·.key)).Nodup ∧ (∀ a ∈ g.nonTerminals, a.key ∉ g.terminals.map (·.key)) ∧
    .text g.start ∈ g.nonTerminals ∧
    ∀ p ∈ g.productions, g.isNonTerminal p.left ∧ ∀ s ∈ p.right, g.isKnown s

instance (g : Grammar) : Decidable g.Valid := by unfold Valid; infer_instance

end Grammar

end FormalMachines.ContextFree
