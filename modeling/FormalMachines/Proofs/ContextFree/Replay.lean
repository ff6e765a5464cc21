import FormalMachines.Proofs.ContextFree.Shortest

/-!
# FormalMachines.Proofs.ContextFree.Replay

A derivation that the search returns is one, and replays.

The search puts a path together from its end, one step in front for every form it comes
back from.  Such a path *leads* from a form to another (`Grammar.Leads`): each step
replaces the first non-terminal of the form before it, and records the form after it, the
production and the place.

* `expand_leads` — whatever limits a search has, and whatever it remembers, a path that it
  finds leads on from the form it was asked about;
* `Leads.isChain` and `Leads.replay` — a path that leads to a form is recorded as a leftmost
  derivation of it, and the replay of the record, which looks at the recorded places only,
  arrives at the same form.
-/

namespace FormalMachines.ContextFree

namespace Grammar

/-- Whether the steps of a path lead from one form to another. -/
inductive Leads (g : Grammar) : Form → List Applied → Form → Prop where
  | nil (form : Form) : g.Leads form [] form
  | cons {form last : Form} {l : Leftmost} {p : Production} {path : List Applied}
      (split : g.leftmost? form = some l) (mem : p ∈ g.productionsFor l.symbol)
      (rest : g.Leads (l.replace p.symbols) path last) :
      g.Leads form (⟨l.replace p.symbols, p, l.before.length⟩ :: path) last

variable {g : Grammar} {form last : Form} {path : List Applied}

/-- The productions of a path derive what it leads to. -/
theorem Leads.derives (h : g.Leads form path last) :
    g.Derives form (path.map (·.production)) last := by
  induction h with
  | nil form => exact .nil form
  | cons split mem _ ih => exact .cons ⟨_, split, mem, rfl⟩ ih

end Grammar

/-! ## What a search finds -/

namespace Search

variable {goal : Goal} {remaining : Nat} {form : Form} {path : List Applied} {s : Search}
  {l : Leftmost}

/-- A look finds a way only if there is nowhere to go. -/
theorem eq_nil_of_look (h : (look goal remaining form s).1 = .answer (.found path)) :
    path = [] := by
  unfold look judge at h
  grind

/-- A look goes on with the first non-terminal. -/
theorem leftmost?_of_look (h : (look goal remaining form s).1 = .branch l) :
    goal.grammar.leftmost? form = some l := by
  unfold look judge at h
  grind

/-- A path found by one of several productions begins with that production, and goes on as
the search from what it gives. -/
theorem exists_of_tryEach {go : Form → Search → Answer × Search} {todo : List Production}
    {truncated : Bool} (h : (tryEach go l todo truncated s).1 = .found path) :
    ∃ p ∈ todo, ∃ rest s', path = ⟨l.replace p.symbols, p, l.before.length⟩ :: rest ∧
      (go (l.replace p.symbols) s').1 = .found rest := by
  induction todo generalizing truncated s with
  | nil => cases h
  | cons p todo ih =>
      rw [tryEach] at h
      cases hgo : go (l.replace p.symbols) s with
      | mk answer s' =>
          rw [hgo] at h
          cases answer with
          | found rest =>
              cases h
              exact ⟨p, List.mem_cons_self, rest, s, rfl, by rw [hgo]⟩
          | failed t =>
              obtain ⟨q, hq, hpath⟩ := ih h
              exact ⟨q, List.mem_cons_of_mem p hq, hpath⟩
          | stopped outcome => cases h

/-- A search finds a way at once, or with the productions of the first non-terminal. -/
theorem cases_of_expand (h : (expand goal remaining form s).1 = .found path) :
    path = [] ∨ ∃ l less s', remaining = less + 1 ∧ goal.grammar.leftmost? form = some l ∧
      (tryEach (expand goal less) l (goal.grammar.productionsFor l.symbol) false s').1 =
        .found path := by
  cases hlook : look goal remaining form s with
  | mk seen s' =>
      cases seen with
      | answer a =>
          have ha : a = .found path := by cases remaining <;> simpa [expand, hlook] using h
          exact .inl (eq_nil_of_look (s := s) (by rw [hlook, ha]))
      | branch l =>
          cases remaining with
          | zero => simp [expand, hlook] at h
          | succ less =>
              refine .inr ⟨l, less, s', rfl, leftmost?_of_look (s := s) (by rw [hlook]), ?_⟩
              rw [expand, hlook] at h
              revert h
              dsimp only
              generalize tryEach (expand goal less) l _ false s' = result
              obtain ⟨answer, s''⟩ := result
              cases answer <;> exact id

/-- **A path found** leads on from the form that was searched. -/
theorem expand_leads (h : (expand goal remaining form s).1 = .found path) :
    ∃ last, goal.grammar.Leads form path last := by
  induction remaining generalizing form path s with
  | zero =>
      obtain hnil | ⟨_, _, _, hzero, _⟩ := cases_of_expand h
      · rw [hnil]
        exact ⟨form, .nil form⟩
      · cases hzero
  | succ remaining ih =>
      obtain hnil | ⟨l, less, s', hless, hsplit, hfound⟩ := cases_of_expand h
      · rw [hnil]
        exact ⟨form, .nil form⟩
      · cases hless
        obtain ⟨p, hp, rest, s'', hpath, hrest⟩ := exists_of_tryEach hfound
        obtain ⟨last, hleads⟩ := ih hrest
        rw [hpath]
        exact ⟨last, .cons hsplit hp hleads⟩

end Search

/-! ## What a search records -/

namespace Grammar

/-- Whether one recorded step follows another: its production replaces the first
non-terminal of the form before it, at the recorded place. -/
def Follows (g : Grammar) (before after : DerivationStep) : Prop :=
  ∃ l p, g.leftmost? before.form = some l ∧ p ∈ g.productionsFor l.symbol ∧
    after = ⟨before.number + 1, l.replace p.symbols, some p, some l.before.length⟩

/-- Whether recorded steps are a leftmost derivation of a form: the first is the start symbol
alone, with no production, the numbers count from zero, and each step follows the one
before it. -/
structure Records (g : Grammar) (steps : List DerivationStep) (last : Form) : Prop where
  head : steps.head? = some ⟨0, [g.start], none, none⟩
  number : ∀ (i : Nat) (step : DerivationStep), steps[i]? = some step → step.number = i
  chain : steps.IsChain g.Follows
  final : steps.getLast?.map (·.form) = some last

variable {g : Grammar} {form last : Form} {path : List Applied} {l : Leftmost} {p : Production}

/-- The steps of a path, each numbered by its place, follow the step whose form the path
leads on from. -/
theorem Leads.isChain {first : DerivationStep} (h : g.Leads first.form path last) {n : Nat}
    (hn : first.number = n) : (first :: numberSteps (n + 1) path).IsChain g.Follows := by
  generalize hform : first.form = form at h
  induction h generalizing first n with
  | nil => exact .singleton first
  | @cons form last l p path split mem rest ih =>
      have hnumber : first.number + 1 = (n + 1 : Nat) := by rw [hn]; rfl
      refine .cons_cons ⟨l, p, hform ▸ split, mem, ?_⟩ (ih rfl rfl)
      rw [hnumber]

theorem getLast_numberSteps {first : DerivationStep} (h : g.Leads first.form path last) (n : Nat) :
    (first :: numberSteps n path).getLast?.map (·.form) = some last := by
  generalize hform : first.form = form at h
  induction h generalizing first n with
  | nil => rw [← hform]; rfl
  | cons _ _ _ ih =>
      rw [numberSteps, List.getLast?_cons_cons]
      exact ih (n + 1) rfl

end Grammar

theorem length_numberSteps (n : Nat) (path : List Applied) :
    (numberSteps n path).length = path.length := by
  induction path generalizing n with
  | nil => rfl
  | cons a path ih => rw [numberSteps, List.length_cons, List.length_cons, ih]

theorem number_of_numberSteps {n i : Nat} {path : List Applied} {step : DerivationStep}
    (h : (numberSteps n path)[i]? = some step) : step.number = (n + i : Nat) := by
  induction path generalizing n i with
  | nil => cases h
  | cons a path ih =>
      cases i with
      | zero => cases h; rfl
      | succ i => rw [ih h]; congr 1; omega

namespace Grammar

variable {g : Grammar} {form last : Form} {path : List Applied} {l : Leftmost} {p : Production}

/-- The record of a path that leads to a form is a leftmost derivation of it. -/
theorem Leads.records (h : g.Leads [g.start] path last) :
    g.Records (g.derivationOf path) last where
  head := rfl
  number i step hstep := by
    cases i with
    | zero => cases hstep; rfl
    | succ i => rw [number_of_numberSteps hstep, Nat.add_comm]
  chain := h.isChain rfl
  final := getLast_numberSteps h 1

/-! ## Replay -/

/-- A production applies where the form has its left side. -/
theorem replayStep_eq_ok (hl : g.leftmost? form = some l) (hp : p ∈ g.productionsFor l.symbol)
    (n : Int) :
    replayStep form ⟨n, l.replace p.symbols, some p, some l.before.length⟩ =
      .ok (l.replace p.symbols) := by
  have hleft : p.left = l.symbol := (mem_productionsFor.1 hp).2
  have hform : l.before ++ l.symbol :: l.after = form := (form_of_leftmost? hl).1
  have hat : symbolAt? form l.before.length = some l.symbol := by
    simp [symbolAt?, ← hform]
  have hreplace : replaceAt form l.before.length p.symbols = l.replace p.symbols := by
    simp [replaceAt, Leftmost.replace, ← hform]
  simp [replayStep, DerivationStep.place?, hat, hleft, hreplace]

/-- **The replay** of a path from the form it leads on from arrives where the path does. -/
theorem Leads.replay (h : g.Leads form path last) (n : Nat) :
    (numberSteps n path).foldlM replayStep form = .ok last := by
  induction h generalizing n with
  | nil form => rfl
  | cons split mem _ ih =>
      rw [numberSteps, List.foldlM_cons, replayStep_eq_ok split mem]
      exact ih (n + 1)

end Grammar

/-! ## The result of a search -/

/-- A result with a depth holds the record of a path from the start symbol. -/
theorem exists_path_of_deepen {goal : Goal} {left depth n : Nat} {s : Search}
    (h : (deepen goal left depth s).depth = some n) :
    ∃ path last, goal.grammar.Leads [goal.grammar.start] path last ∧
      (deepen goal left depth s).derivation = goal.grammar.derivationOf path := by
  induction left generalizing depth s with
  | zero => cases h
  | succ left ih =>
      rw [deepen] at h ⊢
      cases hexpand : s.expand goal depth [goal.grammar.start] with
      | mk answer s' =>
          rw [hexpand] at h
          cases answer with
          | found path =>
              obtain ⟨last, hleads⟩ := Search.expand_leads (s := s) (by rw [hexpand])
              exact ⟨path, last, hleads, rfl⟩
          | failed truncated =>
              cases truncated with
              | false => cases h
              | true => exact ih h
          | stopped outcome => cases h

namespace Grammar

variable {g : Grammar}

/-- **A derivation found** under whatever limits is a leftmost derivation of the target: its
steps follow one another from the start symbol to a terminal form that spells the target,
as many as the reported depth, which is within the limit; and its replay yields that form. -/
theorem derive_replays (hg : g.Valid) {target : Text} {budget : Budget} {cancel : Cancellation}
    (h : (g.derive target budget cancel).canDerive) :
    ∃ last, g.Records (g.derive target budget cancel).derivation last ∧ g.IsTerminal last ∧
      spell last = target ∧ g.replay (g.derive target budget cancel).derivation = .ok last ∧
      ∃ n, (g.derive target budget cancel).depth = some n ∧
        (g.derive target budget cancel).derivation.length = n + 1 ∧ n ≤ depthLimit budget := by
  have hright := g.derive_right hg target budget cancel
  rw [Result.Right, (g.agrees_derive target budget cancel).canDerive.1 h] at hright
  obtain ⟨ps, ⟨⟨last, hderives, hterminal, hspell⟩, _⟩, hlimit, hdepth, hproductions⟩ := hright
  obtain ⟨path, last', hleads, hpath⟩ := exists_path_of_deepen hdepth
  change (g.derive target budget cancel).derivation = g.derivationOf path at hpath
  rw [hpath, productions_derivationOf] at hproductions
  have hlast : last' = last := derives_unique hleads.derives (hproductions ▸ hderives)
  rw [hlast] at hleads
  rw [hpath]
  refine ⟨last, hleads.records, hterminal, hspell, hleads.replay 1, ps.length, hdepth, ?_, hlimit⟩
  rw [derivationOf, List.length_cons, length_numberSteps, ← hproductions, List.length_map]

end Grammar

end FormalMachines.ContextFree
