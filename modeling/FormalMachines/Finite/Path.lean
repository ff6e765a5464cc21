import FormalMachines.Finite.Closure

/-!
# FormalMachines.Finite.Path

Paths through a finite automaton and the words they read.

A path is a sequence of moves, each of which leaves the state that the one before leads
to (`Automaton.Path`).  Read literally, a path reads the word of its labels; where `ε` is
the empty word, any of its `ε`-labels may be left out (`Reads`).  A state is reached by
a word if some path to it reads that word (`Automaton.Reaches`), and a word belongs to
the language if it reaches an accepting state from the start (`Automaton.Accepts`).

Paths follow one another exactly as the words they read do (`path_append_iff`,
`reaches_append_iff`).
-/

namespace FormalMachines.Finite

/-! ## Paths -/

/-- Whether moves lead, one after the other, from one state to another. -/
inductive Automaton.Path (a : Automaton) : Text → List Transition → Text → Prop where
  | nil (state : Text) : a.Path state [] state
  | cons {t : Transition} {path : List Transition} {state : Text}
      (mem : t ∈ a.transitions) (rest : a.Path t.target path state) :
      a.Path t.source (t :: path) state

namespace Automaton

variable {a : Automaton} {p q : Text}

theorem path_nil_iff : a.Path p [] q ↔ p = q :=
  ⟨fun h => by cases h; rfl, fun h => h ▸ .nil p⟩

theorem path_cons_iff {t : Transition} {path : List Transition} :
    a.Path p (t :: path) q ↔ t ∈ a.transitions ∧ t.source = p ∧ a.Path t.target path q := by
  constructor
  · intro h
    cases h with
    | cons mem rest => exact ⟨mem, rfl, rest⟩
  · rintro ⟨mem, rfl, rest⟩
    exact .cons mem rest

/-- Two sequences of moves form one path if a state lies between them. -/
theorem path_append_iff {front back : List Transition} :
    a.Path p (front ++ back) q ↔ ∃ r, a.Path p front r ∧ a.Path r back q := by
  induction front generalizing p with
  | nil => simp [path_nil_iff]
  | cons t front ih =>
    simp only [List.cons_append, path_cons_iff, ih]
    grind

end Automaton

/-! ## Words -/

/-- Whether a path reads a word. -/
inductive Reads (mode : EpsilonMode) : List Transition → Text → Prop where
  | nil : Reads mode [] []
  | letter {t : Transition} {path : List Transition} {c : CodePoint} {word : Text}
      (label : t.symbol = symbolOf c) (rest : Reads mode path word) :
      Reads mode (t :: path) (c :: word)
  | silent {t : Transition} {path : List Transition} {word : Text}
      (reading : mode = .closure) (label : t.isEpsilon) (rest : Reads mode path word) :
      Reads mode (t :: path) word

/-- A literal reading is the word of the labels. -/
theorem reads_literal_iff {path : List Transition} {word : Text} :
    Reads .literal path word ↔ path.map (·.symbol) = word.map symbolOf := by
  constructor
  · intro h
    induction h with
    | nil => rfl
    | letter label _ ih => simp [label, ih]
    | silent reading => cases reading
  · intro h
    induction path generalizing word with
    | nil =>
      cases word with
      | nil => exact .nil
      | cons c word => simp at h
    | cons t path ih =>
      cases word with
      | nil => simp at h
      | cons c word =>
        simp only [List.map_cons, List.cons.injEq] at h
        exact .letter h.1 (ih h.2)

theorem Reads.append {mode : EpsilonMode} {front back : List Transition} {u v : Text}
    (hf : Reads mode front u) (hb : Reads mode back v) : Reads mode (front ++ back) (u ++ v) := by
  induction hf with
  | nil => exact hb
  | letter label _ ih => exact .letter label ih
  | silent reading label _ ih => exact .silent reading label ih

/-- A path that reads two words in a row falls into one that reads the first and one that
reads the second. -/
theorem Reads.split {mode : EpsilonMode} {path : List Transition} {u v : Text}
    (h : Reads mode path (u ++ v)) :
    ∃ front back, path = front ++ back ∧ Reads mode front u ∧ Reads mode back v := by
  induction path generalizing u with
  | nil =>
    cases u with
    | nil => exact ⟨[], [], rfl, .nil, h⟩
    | cons c u => cases h
  | cons t path ih =>
    cases u with
    | nil => exact ⟨[], t :: path, rfl, .nil, h⟩
    | cons c u =>
      cases h with
      | letter label rest =>
        obtain ⟨front, back, rfl, hf, hb⟩ := ih rest
        exact ⟨t :: front, back, rfl, .letter label hf, hb⟩
      | silent reading label rest =>
        obtain ⟨front, back, rfl, hf, hb⟩ := ih (u := c :: u) rest
        exact ⟨t :: front, back, rfl, .silent reading label hf, hb⟩

/-! ## Languages -/

namespace Automaton

variable {a : Automaton} {mode : EpsilonMode} {p q : Text}

/-- Whether a word leads from one state to another. -/
def Reaches (a : Automaton) (mode : EpsilonMode) (p : Text) (word : Text) (q : Text) :
    Prop :=
  ∃ path, a.Path p path q ∧ Reads mode path word

/-- Whether a word leads from the start to an accepting state. -/
def Accepts (a : Automaton) (mode : EpsilonMode) (word : Text) : Prop :=
  ∃ q ∈ a.accepting, a.Reaches mode a.start word q

/-- Two words in a row lead where the second leads from a state that the first leads to. -/
theorem reaches_append_iff {u v : Text} :
    a.Reaches mode p (u ++ v) q ↔ ∃ r, a.Reaches mode p u r ∧ a.Reaches mode r v q := by
  constructor
  · rintro ⟨path, hpath, hreads⟩
    obtain ⟨front, back, rfl, hf, hb⟩ := hreads.split
    obtain ⟨r, hpf, hpb⟩ := path_append_iff.1 hpath
    exact ⟨r, ⟨front, hpf, hf⟩, ⟨back, hpb, hb⟩⟩
  · rintro ⟨r, ⟨front, hpf, hf⟩, ⟨back, hpb, hb⟩⟩
    exact ⟨front ++ back, path_append_iff.2 ⟨r, hpf, hpb⟩, hf.append hb⟩

/-- Read literally, the empty word leads from a state to itself alone. -/
theorem reaches_literal_nil_iff : a.Reaches .literal p [] q ↔ p = q := by
  constructor
  · rintro ⟨path, hpath, hreads⟩
    obtain rfl : path = [] := by simpa using reads_literal_iff.1 hreads
    exact path_nil_iff.1 hpath
  · rintro rfl
    exact ⟨[], .nil p, .nil⟩

/-- Read literally, one code point leads along one of its moves. -/
theorem reaches_literal_singleton_iff {c : CodePoint} :
    a.Reaches .literal p [c] q ↔ ∃ t ∈ a.moves p (symbolOf c), t.target = q := by
  have same : ∀ t : Transition, t.symbol.Same (symbolOf c) ↔ t.symbol = symbolOf c :=
    fun t => Atom.key_eq_text_iff
  constructor
  · rintro ⟨path, hpath, hreads⟩
    have h := reads_literal_iff.1 hreads
    match path, h with
    | [t], h =>
      obtain ⟨mem, rfl, rest⟩ := path_cons_iff.1 hpath
      exact ⟨t, mem_moves.2 ⟨mem, rfl, (same t).2 (by simpa using h)⟩, path_nil_iff.1 rest⟩
  · rintro ⟨t, ht, rfl⟩
    obtain ⟨mem, rfl, label⟩ := mem_moves.1 ht
    exact ⟨[t], .cons mem (.nil _), .letter ((same t).1 label) .nil⟩

end Automaton

end FormalMachines.Finite
