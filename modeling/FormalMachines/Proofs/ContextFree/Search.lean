import FormalMachines.ContextFree.Search
import FormalMachines.Proofs.ContextFree.Bound

/-!
# FormalMachines.Proofs.ContextFree.Search

What the search from one form comes to is right.

An answer is right (`Answer.Right`) if a path found is the first of the derivations within
the steps left, and a failure means that there is none: within the steps left if the search
was truncated, and of any length if it was not.  The invariant (`Search.Reliable`) says
that the failures remembered are failures: what follows the fixed text of a form cannot be
rewritten into the rest of the target.

Of the five reasons to give up a form, `judge_right` shows that none loses a derivation;
`tryEach_right` that the productions are tried in their order; `expand_right` puts the two
together by induction on the steps left.
-/

namespace FormalMachines.ContextFree

namespace Grammar

variable {g : Grammar} {form : Form} {l : Leftmost} {p q : Production}
  {ps qs : List Production} {text : Text}

/-! ## Derivations of a text -/

/-- A terminal form is derived already, by no production. -/
theorem spells_terminal_iff (h : g.IsTerminal form) :
    g.Spells form ps text ↔ ps = [] ∧ spell form = text := by
  constructor
  · intro ⟨last, hderives, _, hspell⟩
    cases hderives with
    | nil => exact ⟨rfl, hspell⟩
    | cons step => exact absurd step h.not_step
  · intro ⟨hps, hspell⟩
    rw [hps]
    exact ⟨form, .nil form, h, hspell⟩

/-- The first production of a derivation replaces the first non-terminal. -/
theorem spells_leftmost_iff (h : g.leftmost? form = some l) :
    g.Spells form ps text ↔
      ∃ p ∈ g.productionsFor l.symbol, ∃ rest,
        ps = p :: rest ∧ g.Spells (l.replace p.symbols) rest text := by
  constructor
  · intro ⟨last, hderives, hterminal, hspell⟩
    cases hderives with
    | nil =>
        rw [leftmost?_eq_none_iff.2 hterminal] at h
        cases h
    | cons step rest =>
        obtain ⟨m, hm, hp, hnext⟩ := step
        rw [h] at hm
        cases hm
        exact ⟨_, hp, _, rfl, last, hnext ▸ rest, hterminal, hspell⟩
  · intro ⟨p, hp, rest, hps, last, hderives, hterminal, hspell⟩
    rw [hps]
    exact ⟨last, .cons ⟨l, h, hp, rfl⟩ hderives, hterminal, hspell⟩

/-- What stands before the first non-terminal begins the text, and what follows derives
the rest of it. -/
theorem spells_fixed_iff (h : g.leftmost? form = some l) :
    g.Spells form ps text ↔
      ∃ rest, text = spell l.before ++ rest ∧ g.Spells (l.symbol :: l.after) ps rest := by
  obtain ⟨hform, _, hbefore⟩ := form_of_leftmost? h
  rw [← hform, Leftmost.form]
  constructor
  · intro h
    obtain ⟨last, hderives, hterminal, hspell⟩ := h
    obtain ⟨back, hback, hlast⟩ := (derives_append_left_iff hbefore).1 hderives
    rw [hlast] at hterminal hspell
    refine ⟨spell back, by rw [← hspell, spell_append], back, hback, ?_, rfl⟩
    exact fun s hs => hterminal s (List.mem_append_right _ hs)
  · intro h
    obtain ⟨rest, htext, back, hback, hterminal, hspell⟩ := h
    refine ⟨l.before ++ back, (derives_append_left_iff hbefore).2 ⟨back, hback, rfl⟩, ?_, ?_⟩
    · intro s hs
      exact (List.mem_append.1 hs).elim (hbefore s) (hterminal s)
    · rw [spell_append, hspell, htext]

/-- The same with the rest of a text known to begin so. -/
theorem spells_drop_iff (h : g.leftmost? form = some l)
    (hbegins : (spell l.before).isPrefixOf text) :
    g.Spells form ps text ↔
      g.Spells (l.symbol :: l.after) ps (text.drop (spell l.before).length) := by
  obtain ⟨rest, hrest⟩ := List.isPrefixOf_iff_prefix.1 hbegins
  rw [spells_fixed_iff h, ← hrest, List.drop_left]
  constructor
  · intro ⟨rest', heq, hspells⟩
    rw [List.append_cancel_left heq]
    exact hspells
  · exact fun hspells => ⟨rest, rfl, hspells⟩

/-! ## The order of productions -/

/-- Whether one sequence of productions comes no later than another when the productions
are ordered as they were defined: the first difference decides. -/
def Precedes (g : Grammar) : List Production → List Production → Prop
  | [], _ => True
  | _ :: _, [] => False
  | p :: ps, q :: qs =>
      g.productions.idxOf p < g.productions.idxOf q ∨
        g.productions.idxOf p = g.productions.idxOf q ∧ Precedes g ps qs

theorem precedes_nil (g : Grammar) (qs : List Production) : g.Precedes [] qs := trivial

/-- What comes first among some members of a list comes first in the list. -/
theorem idxOf_lt_of_filter (keep : Production → Bool) (all : List Production)
    (hp : keep p) (hq : keep q)
    (h : (all.filter keep).idxOf p < (all.filter keep).idxOf q) :
    all.idxOf p < all.idxOf q := by
  induction all with
  | nil => exact absurd h (Nat.lt_irrefl _)
  | cons r all ih =>
      by_cases hr : keep r
      · rw [List.filter_cons_of_pos hr] at h
        simp only [List.idxOf_cons, cond_eq_ite, beq_iff_eq] at h ⊢
        by_cases hrp : r = p <;> by_cases hrq : r = q <;> simp_all
      · rw [List.filter_cons_of_neg hr] at h
        have hrp : r ≠ p := fun heq => hr (heq ▸ hp)
        have hrq : r ≠ q := fun heq => hr (heq ▸ hq)
        simp only [List.idxOf_cons, cond_eq_ite, beq_iff_eq, hrp, hrq, if_false]
        exact Nat.succ_lt_succ (ih h)

/-- A production of a non-terminal comes before the others that were not tried before
it. -/
theorem idxOf_lt_of_split {symbol : Text} {front back : List Production}
    (hsplit : g.productionsFor symbol = front ++ p :: back) (hp : p ∉ front)
    (hq : q ∈ g.productionsFor symbol) (hqfront : q ∉ front) (hne : p ≠ q) :
    g.productions.idxOf p < g.productions.idxOf q := by
  have hmem : p ∈ g.productionsFor symbol := by simp [hsplit]
  apply idxOf_lt_of_filter (fun r => decide (r.left = symbol))
  · simpa using (mem_productionsFor.1 hmem).2
  · simpa using (mem_productionsFor.1 hq).2
  · change (g.productionsFor symbol).idxOf p < (g.productionsFor symbol).idxOf q
    rw [hsplit, List.idxOf_append, List.idxOf_append, if_neg hp, if_neg hqfront,
      List.idxOf_cons_self, List.idxOf_cons, beq_eq_false_iff_ne.2 hne]
    simp

end Grammar

/-! ## Right answers -/

/-- Whether a goal has limits that can end the search. -/
def Goal.Limited (goal : Goal) : Prop := goal.nodeLimit ≠ none ∨ goal.cancel ≠ .never

/-- Whether an answer for a form and so many steps is right: a path leads to the target
and comes first among those of so many steps, and where the search failed there is none of
so many steps, nor of more unless it was truncated. -/
def Answer.Right (goal : Goal) (remaining : Nat) (form : Form) : Answer → Prop
  | .found path =>
      goal.grammar.Spells form (path.map (·.production)) goal.target ∧
        path.length ≤ remaining ∧
        ∀ qs, goal.grammar.Spells form qs goal.target → qs.length ≤ remaining →
          goal.grammar.Precedes (path.map (·.production)) qs
  | .failed truncated =>
      ∀ qs, goal.grammar.Spells form qs goal.target → truncated ∧ remaining < qs.length
  | .stopped outcome =>
      goal.Limited ∧ (outcome = .cancelled ∨ outcome = .budgetExhausted)

/-- Whether a look is right: its answer is, and the non-terminal to go on with is the
first of a form that can still lead to the target. -/
def Look.Right (goal : Goal) (remaining : Nat) (form : Form) : Look → Prop
  | .answer a => a.Right goal remaining form
  | .branch l =>
      goal.grammar.leftmost? form = some l ∧ (spell l.before).isPrefixOf goal.target

namespace Search

/-- The invariant: what is remembered to fail cannot be rewritten into the rest of the
target. -/
def Reliable (goal : Goal) (s : Search) : Prop :=
  ∀ (k : MemoKey) (failure : Failure), s.failures[k]? = some failure →
    ∀ ps, goal.grammar.Spells k.2 ps (goal.target.drop k.1) → failure.covers ps.length = false

variable {goal : Goal} {s : Search} {form : Form} {l : Leftmost} {remaining : Nat}

theorem reliable_initial (goal : Goal) : initial.Reliable goal := by
  intro key failure h
  simp [initial] at h

/-- To remember a failure that is right keeps the invariant. -/
theorem Reliable.remember (hs : s.Reliable goal) {truncated : Bool}
    (hl : goal.grammar.leftmost? form = some l)
    (hbegins : (spell l.before).isPrefixOf goal.target)
    (hright : (Answer.failed truncated).Right goal remaining form) :
    (s.remember l truncated remaining).Reliable goal := by
  intro k failure h ps hspells
  rw [Search.remember, Std.HashMap.getElem?_insert] at h
  by_cases hkey : key l == k
  · rw [if_pos hkey, Option.some.injEq] at h
    rw [← beq_iff_eq.1 hkey, key] at hspells
    obtain ⟨ht, hlong⟩ := hright ps ((Grammar.spells_drop_iff hl hbegins).2 hspells)
    rw [← h, if_pos ht]
    exact decide_eq_false (Nat.not_le.2 hlong)
  · rw [if_neg hkey] at h
    exact hs k failure h ps hspells

/-! ## One form -/

/-- A form without non-terminals is the target or leads nowhere. -/
theorem terminal_right (hl : goal.grammar.leftmost? form = none) :
    (if spell form = goal.target then Answer.found [] else .failed false).Right goal remaining
      form := by
  have hspells : ∀ {ps}, goal.grammar.Spells form ps goal.target ↔ _ :=
    Grammar.spells_terminal_iff (Grammar.leftmost?_eq_none_iff.1 hl)
  by_cases htarget : spell form = goal.target
  · rw [if_pos htarget]
    exact ⟨hspells.2 ⟨rfl, htarget⟩, Nat.zero_le _, fun qs _ _ => Grammar.precedes_nil _ _⟩
  · rw [if_neg htarget]
    exact fun qs hqs => absurd (hspells.1 hqs).2 htarget

/-- A form leads nowhere if the target does not begin with its fixed text. -/
theorem fixed_right (hl : goal.grammar.leftmost? form = some l)
    (hbegins : ¬ (spell l.before).isPrefixOf goal.target) :
    (Answer.failed false).Right goal remaining form := by
  intro qs hqs
  obtain ⟨rest, htarget, _⟩ := (Grammar.spells_fixed_iff hl).1 hqs
  exact absurd (List.isPrefixOf_iff_prefix.2 ⟨rest, htarget.symm⟩) hbegins

/-- A form leads nowhere if all that it leads to is longer than the target. -/
theorem yield_right (hyield : ¬ (goal.grammar.costOfForm goal.grammar.costs form).yield ≤
    .finite goal.target.length) : (Answer.failed false).Right goal remaining form :=
  fun _ hqs => absurd (Grammar.yield_le_of_spells hqs) hyield

/-- A form leads nowhere in the steps left if it needs more. -/
theorem steps_right (hsteps : ¬ (goal.grammar.costOfForm goal.grammar.costs form).steps ≤
    .finite remaining) : (Answer.failed true).Right goal remaining form := by
  intro qs hqs
  refine ⟨rfl, Nat.lt_of_not_le fun hle => hsteps ?_⟩
  exact Cost.le_trans (Grammar.steps_le_of_spells hqs) (Cost.finite_le_finite.2 hle)

/-- A form leads nowhere in the steps left if it is remembered to fail in as many. -/
theorem memo_right (hs : s.Reliable goal) (hl : goal.grammar.leftmost? form = some l)
    (hbegins : (spell l.before).isPrefixOf goal.target) {failure : Failure}
    (hmemo : s.failures[key l]? = some failure) (hcovers : failure.covers remaining) :
    (Answer.failed (failure ≠ .forever)).Right goal remaining form := by
  intro qs hqs
  have hlong := hs _ _ hmemo qs ((Grammar.spells_drop_iff hl hbegins).1 hqs)
  cases failure with
  | forever => cases hlong
  | within n =>
      rw [Failure.covers, decide_eq_true_eq] at hcovers
      rw [Failure.covers, decide_eq_false_iff_not, Nat.not_le] at hlong
      exact ⟨rfl, Nat.lt_of_le_of_lt hcovers hlong⟩

/-- **None of the reasons** to give up a form loses a derivation. -/
theorem judge_right (hcosts : goal.costs = goal.grammar.costs) (hs : s.Reliable goal)
    (remaining : Nat) (form : Form) :
    (judge goal s.failures remaining form).Right goal remaining form := by
  unfold judge
  cases hl : goal.grammar.leftmost? form with
  | none => exact terminal_right hl
  | some l =>
      simp only [hcosts]
      by_cases hbegins : (spell l.before).isPrefixOf goal.target
      case neg =>
        simp only [hbegins, Bool.not_false, if_true]
        exact fixed_right hl hbegins
      by_cases hyield :
          (goal.grammar.costOfForm goal.grammar.costs form).yield ≤ .finite goal.target.length
      case neg =>
        simp only [hbegins, hyield, not_false_eq_true, Bool.not_true, Bool.false_eq_true,
          if_false, if_true]
        exact yield_right hyield
      by_cases hsteps :
          (goal.grammar.costOfForm goal.grammar.costs form).steps ≤ .finite remaining
      case neg =>
        simp only [hbegins, hyield, hsteps, not_true_eq_false, not_false_eq_true,
          Bool.not_true, Bool.false_eq_true, if_false, if_true]
        exact steps_right hsteps
      simp only [hbegins, hyield, hsteps, not_true_eq_false, Bool.not_true,
        Bool.false_eq_true, if_false]
      cases hmemo : s.failures[key l]? with
      | none => exact ⟨hl, hbegins⟩
      | some failure =>
          by_cases hcovers : failure.covers remaining
          · simp only [hcovers, if_true]
            exact memo_right hs hl hbegins hmemo hcovers
          · simp only [hcovers]
            exact ⟨hl, hbegins⟩

/-- A look is right, and leaves what is remembered alone. -/
theorem look_right (hcosts : goal.costs = goal.grammar.costs) (hs : s.Reliable goal)
    (remaining : Nat) (form : Form) :
    (look goal remaining form s).1.Right goal remaining form ∧
      (look goal remaining form s).2.Reliable goal := by
  have hcounted : Reliable goal { s with nodes := s.nodes + 1 } := hs
  unfold look
  by_cases hcancel : goal.cancel.raisedAt s.nodes
  case pos =>
    simp only [hcancel, if_true]
    refine ⟨⟨Or.inr fun hnever => ?_, Or.inl rfl⟩, hcounted⟩
    rw [hnever, Cancellation.raisedAt_never] at hcancel
    cases hcancel
  by_cases hnodes : goal.nodeLimit.any (· < s.nodes + 1)
  case pos =>
    simp only [hcancel, hnodes, Bool.false_eq_true, if_false, if_true]
    refine ⟨⟨Or.inl fun hnone => ?_, Or.inr rfl⟩, hcounted⟩
    rw [hnone] at hnodes
    cases hnodes
  simp only [hcancel, hnodes, Bool.false_eq_true, if_false]
  exact ⟨judge_right hcosts hs remaining form, hcounted⟩

/-! ## All forms -/

section Turn

variable {p : Production} {front todo : List Production} {truncated : Bool}
  (hl : goal.grammar.leftmost? form = some l)
  (hfront : ∀ p ∈ front, (Answer.failed truncated).Right goal remaining (l.replace p.symbols))

include hl hfront

/-- The first production in turn that leads to the target gives the first derivation, if
those before it had nothing within the steps left. -/
theorem found_right (hsplit : goal.grammar.productionsFor l.symbol = front ++ p :: todo)
    {path : List Applied}
    (hright : (Answer.found path).Right goal remaining (l.replace p.symbols)) :
    (Answer.found (⟨l.replace p.symbols, p, l.before.length⟩ :: path)).Right goal
      (remaining + 1) form := by
  obtain ⟨hspells, hlength, hfirst⟩ := hright
  have hp : p ∈ goal.grammar.productionsFor l.symbol := by simp [hsplit]
  refine ⟨?_, Nat.succ_le_succ hlength, fun qs hqs hshort => ?_⟩
  · exact (Grammar.spells_leftmost_iff hl).2 ⟨p, hp, _, rfl, hspells⟩
  · obtain ⟨q, hq, rest, hcons, hrest⟩ := (Grammar.spells_leftmost_iff hl).1 hqs
    rw [hcons, List.length_cons, Nat.add_le_add_iff_right] at hshort
    rw [hcons, List.map_cons, Grammar.Precedes]
    by_cases heq : p = q
    · exact Or.inr ⟨by rw [heq], hfirst rest (heq ▸ hrest) hshort⟩
    · have hpfront : p ∉ front := fun hmem =>
        absurd (hfront p hmem _ hspells).2 (Nat.not_lt.2 (by simpa using hlength))
      have hqfront : q ∉ front := fun hmem =>
        absurd (hfront q hmem rest hrest).2 (Nat.not_lt.2 hshort)
      exact Or.inl (Grammar.idxOf_lt_of_split hsplit hpfront hq hqfront heq)

/-- If no production leads to the target, the form does not in one step more. -/
theorem exhausted_right (hall : goal.grammar.productionsFor l.symbol = front) :
    (Answer.failed truncated).Right goal (remaining + 1) form := by
  intro qs hqs
  obtain ⟨q, hq, rest, hcons, hrest⟩ := (Grammar.spells_leftmost_iff hl).1 hqs
  obtain ⟨htruncated, hlong⟩ := hfront q (hall ▸ hq) rest hrest
  rw [hcons, List.length_cons]
  exact ⟨htruncated, Nat.succ_lt_succ hlong⟩

end Turn

/-- The productions of a non-terminal are tried in their order: those in `front` were tried
before, and had nothing within the steps left. -/
theorem tryEach_right {go : Form → Search → Answer × Search}
    (hgo : ∀ form s, s.Reliable goal →
      (go form s).1.Right goal remaining form ∧ (go form s).2.Reliable goal)
    (hl : goal.grammar.leftmost? form = some l) (todo front : List Production) (truncated : Bool)
    (hsplit : goal.grammar.productionsFor l.symbol = front ++ todo)
    (hfront : ∀ p ∈ front, (Answer.failed truncated).Right goal remaining (l.replace p.symbols))
    (hs : s.Reliable goal) :
    (tryEach go l todo truncated s).1.Right goal (remaining + 1) form ∧
      (tryEach go l todo truncated s).2.Reliable goal := by
  induction todo generalizing front truncated s with
  | nil => exact ⟨exhausted_right hl hfront (by simpa using hsplit), hs⟩
  | cons p todo ih =>
      obtain ⟨hright, hs'⟩ := hgo (l.replace p.symbols) s hs
      rw [tryEach]
      generalize go (l.replace p.symbols) s = result at hright hs' ⊢
      obtain ⟨answer, s'⟩ := result
      cases answer with
      | found path => exact ⟨found_right hl hfront hsplit hright, hs'⟩
      | failed t =>
          apply ih (front ++ [p]) (truncated || t) (by simp [hsplit]) _ hs'
          intro r hr qs hqs
          obtain hr | hr := List.mem_append.1 hr
          · obtain ⟨htruncated, hlong⟩ := hfront r hr qs hqs
            exact ⟨by simp [htruncated], hlong⟩
          · rw [List.mem_singleton.1 hr] at hqs
            obtain ⟨ht, hlong⟩ := hright qs hqs
            exact ⟨by simp [ht], hlong⟩
      | stopped outcome => exact ⟨hright, hs'⟩

/-- **The search from a form** is right, and what it comes to remember is. -/
theorem expand_right (hcosts : goal.costs = goal.grammar.costs) (hs : s.Reliable goal)
    (remaining : Nat) (form : Form) :
    (expand goal remaining form s).1.Right goal remaining form ∧
      (expand goal remaining form s).2.Reliable goal := by
  induction remaining generalizing form s with
  | zero =>
      obtain ⟨hlook, hs'⟩ := look_right hcosts hs 0 form
      rw [expand]
      generalize look goal 0 form s = result at hlook hs' ⊢
      obtain ⟨seen, s'⟩ := result
      cases seen with
      | answer a => exact ⟨hlook, hs'⟩
      | branch l =>
          refine ⟨fun qs hqs => ⟨rfl, ?_⟩, hs'⟩
          obtain ⟨q, _, rest, hcons, _⟩ := (Grammar.spells_leftmost_iff hlook.1).1 hqs
          rw [hcons]
          exact Nat.succ_pos _
  | succ remaining ih =>
      obtain ⟨hlook, hs'⟩ := look_right hcosts hs (remaining + 1) form
      rw [expand]
      generalize look goal (remaining + 1) form s = result at hlook hs' ⊢
      obtain ⟨seen, s'⟩ := result
      cases seen with
      | answer a => exact ⟨hlook, hs'⟩
      | branch l =>
          obtain ⟨hl, hbegins⟩ := hlook
          obtain ⟨hright, hs''⟩ := tryEach_right (fun form s hs => ih hs form) hl
            (goal.grammar.productionsFor l.symbol) [] false rfl (by simp) hs'
          dsimp only
          generalize tryEach (expand goal remaining) l (goal.grammar.productionsFor l.symbol)
            false s' = result at hright hs'' ⊢
          obtain ⟨answer, s''⟩ := result
          cases answer with
          | found path => exact ⟨hright, hs''⟩
          | failed truncated => exact ⟨hright, hs''.remember hl hbegins hright⟩
          | stopped outcome => exact ⟨hright, hs''⟩

end Search

end FormalMachines.ContextFree
