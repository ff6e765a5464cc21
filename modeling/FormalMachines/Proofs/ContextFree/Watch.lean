import FormalMachines.ContextFree.Watch
import FormalMachines.Proofs.Checks
import FormalMachines.Proofs.ContextFree.Verdicts

/-!
# FormalMachines.Proofs.ContextFree.Watch

A search is right at every moment.

The search that is watched is the one that runs (`result_watch`), and it notes a call for every
node that it counts (`nodes_of_attempt`).  What it remembers outlives the calls that remember it:
they are nested, and the search of one depth hands its memory on to the next.  So the
invariant `Search.Reliable` is carried through the recursion:

1. where a search is called for with a reliable memory, all its moments hold
   (`holds_watchExpand`, by induction on the steps left);
2. the calls for the productions of a form hand it on from one to the next
   (`always_watchEach`);
3. a failure is remembered when the search from the form has come to it, which is right by
   `tryEach_right`, whatever the nested calls remembered in between.

No step is tried without one left: a form that a look goes on with can still be rewritten
into a text within the steps left, and it holds a non-terminal (`look_zero_ne_branch`).
-/

namespace FormalMachines.ContextFree

/-! ## Watched computations -/

/-- Whether a moment is a call. -/
def Moment.isCall : Moment → Bool
  | .called .. => true
  | _ => false

namespace Watched

variable {α β : Type} {w : Watched α} {f : α → Watched β} {P : Moment → Prop}

@[simp] theorem result_lift (x : Except Fault α) : (lift x).result = x := rfl

@[simp] theorem result_bind (w : Watched α) (f : α → Watched β) :
    (w >>= f).result = w.result >>= fun a => (f a).result := by
  change (Watched.bind w f).result = _
  unfold Watched.bind
  cases w.result <;> rfl

theorem moments_bind_of_ok {a : α} (h : w.result = .ok a) (f : α → Watched β) :
    (w >>= f).moments = w.moments ++ (f a).moments := by
  change (Watched.bind w f).moments = _
  simp only [Watched.bind, h]

/-- Whether all moments of a computation have a property. -/
def Always (P : Moment → Prop) (w : Watched α) : Prop := ∀ m ∈ w.moments, P m

theorem Always.pure (a : α) : Always P (Pure.pure a : Watched α) := fun _ hm => by cases hm

theorem Always.lift (x : Except Fault α) : Always P (lift x) := fun _ hm => by cases hm

theorem Always.note {m : Moment} (hm : P m) : Always P (note m) := by
  intro m' hm'
  obtain rfl := List.mem_singleton.1 hm'
  exact hm

theorem Always.bind (hw : Always P w) (hf : ∀ a, w.result = .ok a → Always P (f a)) :
    Always P (w >>= f) := by
  intro m hm
  change m ∈ (Watched.bind w f).moments at hm
  unfold Watched.bind at hm
  cases hresult : w.result with
  | error e =>
      rw [hresult] at hm
      exact hw m hm
  | ok a =>
      rw [hresult] at hm
      obtain hm | hm := List.mem_append.1 hm
      · exact hw m hm
      · exact hf a hresult m hm

/-- The number of searches that a computation calls for. -/
def calls (w : Watched α) : Nat := w.moments.countP Moment.isCall

theorem calls_bind_of_ok {a : α} (h : w.result = .ok a) (f : α → Watched β) :
    (w >>= f).calls = w.calls + (f a).calls := by
  rw [calls, moments_bind_of_ok h, List.countP_append, calls, calls]

theorem calls_bind_of_error {e : Fault} (h : w.result = .error e) (f : α → Watched β) :
    (w >>= f).calls = w.calls := by
  change (Watched.bind w f).calls = _
  simp only [Watched.bind, h, calls]

theorem calls_note_bind (m : Moment) (f : Unit → Watched β) :
    (note m >>= f).calls = (if m.isCall then 1 else 0) + (f ()).calls := by
  rw [calls_bind_of_ok rfl, calls, note, List.countP_singleton]

/-- Whether a computation, unless it fails, counts on by its calls from a number to that of
its value. -/
def Counts (count : α → Nat) (n : Nat) (w : Watched α) : Prop :=
  ∀ a, w.result = .ok a → count a = n + w.calls

variable {count : α → Nat} {count' : β → Nat} {n : Nat}

theorem Counts.pure (count : α → Nat) (a : α) : Counts count (count a) (Pure.pure a) := by
  intro b hb
  obtain rfl := Except.ok.inj hb
  rfl

theorem Counts.bind (hw : Counts count n w)
    (hf : ∀ a, w.result = .ok a → Counts count' (count a) (f a)) : Counts count' n (w >>= f) := by
  intro b hb
  rw [result_bind] at hb
  obtain ⟨a, ha, hb⟩ := bind_eq_ok hb
  rw [hf a ha b hb, hw a ha, calls_bind_of_ok ha, Nat.add_assoc]

theorem Counts.call {remaining : Nat} {form : Form} {known : Search} {f : Unit → Watched β}
    (hf : Counts count' (n + 1) (f ())) :
    Counts count' n (note (.called remaining form known) >>= f) :=
  Counts.bind (fun _ _ => rfl : Counts (fun _ => n + 1) n _) fun _ _ => hf

theorem Counts.note {m : Moment} (hm : m.isCall = false) {f : Unit → Watched β}
    (hf : Counts count' n (f ())) : Counts count' n (note m >>= f) := by
  refine Counts.bind (fun _ _ => ?_ : Counts (fun _ => n) n _) fun _ _ => hf
  rw [calls, Watched.note, List.countP_cons_of_neg (by simp [hm])]
  rfl

theorem Counts.lift {x : Except Fault α} (hf : ∀ a, Counts count' n (f a)) :
    Counts count' n (lift x >>= f) :=
  Counts.bind (fun _ _ => rfl : Counts (fun _ => n) n _) fun a _ => hf a

end Watched

open Watched

/-! ## The search that is watched -/

namespace Search

variable {goal : Goal} {productions : ProductionTable} {remaining : Nat} {form : Form}
  {l : Leftmost} {s : Search} {body : Watched (Answer × Search)}

@[simp] theorem result_during (remaining : Nat) (form : Form) (s : Search)
    (body : Watched (Answer × Search)) : (during remaining form s body).result = body.result := by
  unfold during
  rw [result_bind, result_bind]
  cases body.result with
  | error e => rfl
  | ok x => obtain ⟨_ | _ | _, s'⟩ := x <;> rfl

theorem result_watchEach {go : Form → Search → Watched (Answer × Search)}
    {go' : Form → Search → Except Fault (Answer × Search)}
    (hgo : ∀ form s, (go form s).result = go' form s) (l : Leftmost) (ps : List Production)
    (truncated : Bool) (s : Search) :
    (watchEach go l ps truncated s).result = attemptEach go' l ps truncated s := by
  induction ps generalizing truncated s with
  | nil => rfl
  | cons p rest ih =>
      rw [watchEach, attemptEach, result_bind, hgo]
      congr 1
      funext x
      obtain ⟨_ | t | _, s'⟩ := x
      · rfl
      · exact ih (truncated || t) s'
      · rfl

/-- The search from a form that is watched is the one that runs. -/
@[simp] theorem result_watchExpand (goal : Goal) (productions : ProductionTable) (remaining : Nat)
    (form : Form) (s : Search) :
    (watchExpand goal productions remaining form s).result =
      attemptExpand goal productions remaining form s := by
  induction remaining generalizing form s with
  | zero =>
      rw [watchExpand, attemptExpand, result_during, result_bind, result_lift]
      congr 1
      funext x
      obtain ⟨_ | _, s'⟩ := x <;> rfl
  | succ remaining ih =>
      rw [watchExpand, attemptExpand, result_during, result_bind, result_lift]
      congr 1
      funext x
      obtain ⟨_ | l, s'⟩ := x
      · rfl
      · dsimp only
        rw [result_bind, result_lift]
        congr 1
        funext rules
        rw [result_bind, result_watchEach ih]
        congr 1
        funext y
        obtain ⟨_ | _ | _, s''⟩ := y <;> rfl

end Search

theorem result_watchDeepen (goal : Goal) (productions : ProductionTable) (left depth : Nat)
    (s : Search) :
    (watchDeepen goal productions left depth s).result =
      attemptDeepen goal productions left depth s := by
  induction left generalizing depth s with
  | zero => rfl
  | succ left ih =>
      rw [watchDeepen, attemptDeepen, result_bind, Search.result_watchExpand]
      congr 1
      funext x
      obtain ⟨_ | (_ | _) | _, s'⟩ := x
      · rfl
      · rfl
      · exact ih (depth + 1) s'
      · rfl

/-- **The search that is watched** is the one that runs. -/
theorem Grammar.result_watch (g : Grammar) (target : Text) (budget : Budget)
    (cancel : Cancellation) :
    (g.watch target budget cancel).result = g.attempt target budget cancel := by
  rw [watch, attempt, result_bind, result_lift]
  congr 1
  funext costs
  exact result_watchDeepen _ _ _ _ _

/-! ## Nodes are calls -/

namespace Search

variable {goal : Goal} {productions : ProductionTable} {remaining : Nat} {form : Form}
  {l : Leftmost} {s : Search}

/-- A look that does not fail is the look without sums that may. -/
theorem eq_look_of_attemptLook {x : Look × Search}
    (h : attemptLook goal remaining form s = .ok x) : x = look goal remaining form s := by
  unfold attemptLook at h
  unfold look
  by_cases hcancel : goal.cancel.raisedAt s.nodes
  · simp only [hcancel, if_true] at h ⊢
    exact (Except.ok.inj h).symm
  · by_cases hnodes : goal.nodeLimit.any (· < s.nodes + 1)
    · simp only [hcancel, hnodes, Bool.false_eq_true, if_false, if_true] at h ⊢
      exact (Except.ok.inj h).symm
    · simp only [hcancel, hnodes, Bool.false_eq_true, if_false] at h ⊢
      obtain ⟨_, -, h⟩ := bind_eq_ok h
      exact (Except.ok.inj h).symm

theorem nodes_attemptLook {x : Look × Search} (h : attemptLook goal remaining form s = .ok x) :
    x.2.nodes = s.nodes + 1 := by
  rw [eq_look_of_attemptLook h]
  dsimp only [look]
  split
  · rfl
  · split <;> rfl

/-- The nodes counted where a computation stands. -/
def nodesOf {α : Type} (x : α × Search) : Nat := x.2.nodes

/-- A call counts itself, and what is called for until it returns. -/
theorem counts_during {body : Watched (Answer × Search)}
    (h : Counts nodesOf (s.nodes + 1) body) (remaining : Nat) (form : Form) :
    Counts nodesOf s.nodes (during remaining form s body) := by
  refine .call (h.bind fun x _ => ?_)
  obtain ⟨_ | _ | _, s'⟩ := x
  · exact .note rfl (.pure nodesOf _)
  · exact .note rfl (.pure nodesOf _)
  · exact .pure nodesOf _

theorem counts_attemptLook (goal : Goal) (remaining : Nat) (form : Form) (s : Search) :
    Counts nodesOf (s.nodes + 1) (lift (attemptLook goal remaining form s)) :=
  fun _ hx => nodes_attemptLook hx

theorem counts_watchEach {go : Form → Search → Watched (Answer × Search)}
    (hgo : ∀ form s, Counts nodesOf s.nodes (go form s)) (l : Leftmost) (ps : List Production)
    (truncated : Bool) (s : Search) :
    Counts nodesOf s.nodes (watchEach go l ps truncated s) := by
  induction ps generalizing truncated s with
  | nil => exact .pure nodesOf _
  | cons p rest ih =>
      refine (hgo _ s).bind fun x _ => ?_
      obtain ⟨_ | t | _, s'⟩ := x
      · exact .pure nodesOf _
      · exact ih (truncated || t) s'
      · exact .pure nodesOf _

theorem counts_watchExpand (goal : Goal) (productions : ProductionTable) (remaining : Nat)
    (form : Form) (s : Search) :
    Counts nodesOf s.nodes (watchExpand goal productions remaining form s) := by
  induction remaining generalizing form s with
  | zero =>
      refine counts_during ((counts_attemptLook goal 0 form s).bind fun x _ => ?_) 0 form
      obtain ⟨_ | _, s'⟩ := x
      · exact .pure nodesOf _
      · exact .note rfl (.pure nodesOf _)
  | succ remaining ih =>
      refine counts_during ((counts_attemptLook goal (remaining + 1) form s).bind fun x _ => ?_)
        (remaining + 1) form
      obtain ⟨_ | l, s'⟩ := x
      · exact .pure nodesOf _
      · refine .lift fun rules => (counts_watchEach ih l rules false s').bind fun y _ => ?_
        obtain ⟨_ | truncated | _, s''⟩ := y
        · exact .pure nodesOf _
        · exact .note rfl (.pure nodesOf _)
        · exact .pure nodesOf _

end Search

theorem counts_watchDeepen (goal : Goal) (productions : ProductionTable) (left depth : Nat)
    (s : Search) :
    Counts Result.nodes s.nodes (watchDeepen goal productions left depth s) := by
  induction left generalizing depth s with
  | zero => exact .pure Result.nodes _
  | succ left ih =>
      refine (Search.counts_watchExpand goal productions depth _ s).bind fun x _ => ?_
      obtain ⟨_ | (_ | _) | _, s'⟩ := x
      · exact .pure Result.nodes _
      · exact .pure Result.nodes _
      · exact ih (depth + 1) s'
      · exact .pure Result.nodes _

/-- **Every node** that a search counts is a call that is noted. -/
theorem Grammar.nodes_of_attempt {g : Grammar} {target : Text} {budget : Budget}
    {cancel : Cancellation} {r : Result} (h : g.attempt target budget cancel = .ok r) :
    r.nodes = (g.watch target budget cancel).calls := by
  have hcounts : Counts Result.nodes 0 (g.watch target budget cancel) :=
    .lift fun _ => counts_watchDeepen _ _ _ _ .initial
  rw [hcounts r (by rw [result_watch, h]), Nat.zero_add]

/-! ## What holds -/

/-- What a failure says of a form and a text: no productions, in any order, lead from the one
to the other, be it so many or any number of them. -/
def Failure.Holds (g : Grammar) (form : Form) (text : Text) : Failure → Prop
  | .within steps => ∀ n ≤ steps, ¬ g.Produces form n text
  | .forever => ∀ n, ¬ g.Produces form n text

/-- What a search that knows failures says: what follows the fixed text of a form does not
lead to the rest of the target. -/
def Search.Holds (g : Grammar) (target : Text) (known : Search) : Prop :=
  ∀ (fixed : Nat) (rest : Form) (failure : Failure), known.failures[(fixed, rest)]? = some failure →
    failure.Holds g rest (target.drop fixed)

/-- What an answer says: a path leads from the form to the target in the steps that were left,
and a failure is one in these steps if it was truncated, and in any number if it was not. -/
def Answer.Holds (g : Grammar) (target : Text) (remaining : Nat) (form : Form) : Answer → Prop
  | .found path => path.length ≤ remaining ∧
      ∃ last, g.Leads form path last ∧ g.IsTerminal last ∧ spell last = target
  | .failed truncated =>
      (if truncated then Failure.within remaining else .forever).Holds g form target
  | .stopped _ => False

/-- What is right at a moment of a search. -/
def Moment.Holds (g : Grammar) (target : Text) : Moment → Prop
  | .called _ _ known => known.Holds g target
  | .below _ => False
  | .remembered known => known.Holds g target
  | .returned remaining form answer known =>
      answer.Holds g target remaining form ∧ known.Holds g target

section

variable {goal : Goal} {remaining : Nat} {form : Form} {a : Answer}

theorem Search.Reliable.holds (hg : goal.grammar.Valid) {s : Search} (hs : s.Reliable goal) :
    s.Holds goal.grammar goal.target := by
  intro fixed rest failure h
  have hcovers := hs (fixed, rest) failure h
  cases failure with
  | within steps =>
      intro n hn hproduces
      obtain ⟨ps, hspells, rfl⟩ := (Grammar.produces_iff hg).1 hproduces
      have hlong := hcovers ps hspells
      rw [Failure.covers, decide_eq_false_iff_not] at hlong
      exact hlong hn
  | forever =>
      intro n hproduces
      obtain ⟨ps, hspells, -⟩ := (Grammar.produces_iff hg).1 hproduces
      cases hcovers ps hspells

/-- An answer that is right holds, if it is one of those that return and a path leads on from
the form. -/
theorem Answer.Right.holds (hg : goal.grammar.Valid) (h : a.Right goal remaining form)
    (hleads : ∀ path, a = .found path → ∃ last, goal.grammar.Leads form path last)
    (hreturns : ∀ outcome, a ≠ .stopped outcome) :
    a.Holds goal.grammar goal.target remaining form := by
  cases a with
  | found path =>
      obtain ⟨⟨last, hderives, hterminal, htext⟩, hlength, -⟩ := h
      obtain ⟨last', hpath⟩ := hleads path rfl
      obtain rfl := Grammar.derives_unique hderives hpath.derives
      exact ⟨hlength, last, hpath, hterminal, htext⟩
  | failed truncated =>
      cases truncated with
      | false =>
          intro n hproduces
          obtain ⟨ps, hspells, -⟩ := (Grammar.produces_iff hg).1 hproduces
          cases (h ps hspells).1
      | true =>
          intro n hn hproduces
          obtain ⟨ps, hspells, rfl⟩ := (Grammar.produces_iff hg).1 hproduces
          exact Nat.not_lt.2 hn (h ps hspells).2
  | stopped outcome => exact absurd rfl (hreturns outcome)

end

/-! ## No step without one left -/

namespace Search

variable {goal : Goal} {remaining : Nat} {form : Form} {l : Leftmost} {s : Search}

/-- A look goes on only with a form that does not need more steps than are left. -/
theorem steps_le_of_look (h : (look goal remaining form s).1 = .branch l) :
    (goal.grammar.costOfForm goal.costs form).steps ≤ .finite remaining := by
  unfold look judge at h
  grind

/-- **Without a step left** no look goes on: a form that needs no step is terminal. -/
theorem look_zero_ne_branch (hg : goal.grammar.Valid) (hcosts : goal.costs = goal.grammar.costs)
    (form : Form) (s : Search) (l : Leftmost) : (look goal 0 form s).1 ≠ .branch l := by
  intro h
  have hl := leftmost?_of_look h
  have hle := steps_le_of_look h
  have hexact := (Grammar.exact_costOfForm hg form).steps
  rw [hcosts] at hle
  cases hsteps : (goal.grammar.costOfForm goal.grammar.costs form).steps with
  | infinite =>
      rw [hsteps] at hle
      exact Cost.not_infinite_le_finite hle
  | finite n =>
      rw [hsteps] at hle hexact
      obtain rfl : n = 0 := Nat.le_zero.1 (Cost.finite_le_finite.1 hle)
      obtain ⟨text, last, hrewrites, hterminal, -⟩ := hexact.1
      cases hrewrites
      rw [Grammar.leftmost?_eq_none_iff.2 hterminal] at hl
      cases hl

/-! ## Every moment -/

/-- A search that does not fail comes to what the search without limits on numbers does. -/
theorem eq_expand_of_attemptExpand (hcosts : goal.costs = goal.grammar.costs) {x : Answer × Search}
    (h : attemptExpand goal goal.grammar.productionTable remaining form s = .ok x) :
    x = expand goal remaining form s := by
  have hcovers : goal.costs.Covers goal.grammar goal.grammar.costBound :=
    hcosts ▸ Grammar.covers_costs goal.grammar
  have hreckons := reckons_attemptExpand hcovers goal.grammar.one_le_costBound (Nat.le_refl _)
    (Nat.le_refl (goal.grammar.weight form + remaining * goal.grammar.width)) s
  exact hreckons.eq_of_ok h

theorem right_of_attemptExpand (hcosts : goal.costs = goal.grammar.costs) (hs : s.Reliable goal)
    {x : Answer × Search}
    (h : attemptExpand goal goal.grammar.productionTable remaining form s = .ok x) :
    x.1.Right goal remaining form ∧ x.2.Reliable goal := by
  rw [eq_expand_of_attemptExpand hcosts h]
  exact expand_right hcosts hs remaining form

theorem eq_tryEach_of_attemptEach {go : Form → Search → Answer × Search}
    {go' : Form → Search → Except Fault (Answer × Search)}
    (hgo : ∀ form s x, go' form s = .ok x → x = go form s) {ps : List Production} {truncated : Bool}
    {x : Answer × Search} (h : attemptEach go' l ps truncated s = .ok x) :
    x = tryEach go l ps truncated s := by
  induction ps generalizing truncated s with
  | nil => exact (Except.ok.inj h).symm
  | cons p rest ih =>
      obtain ⟨y, hy, h⟩ := bind_eq_ok h
      rw [tryEach, ← hgo _ s y hy]
      obtain ⟨_ | t | _, s'⟩ := y
      · exact (Except.ok.inj h).symm
      · exact ih h
      · exact (Except.ok.inj h).symm

/-- What the productions of a form come to is right for one step more. -/
theorem right_of_attemptEach (hcosts : goal.costs = goal.grammar.costs) (hs : s.Reliable goal)
    (hl : goal.grammar.leftmost? form = some l) {x : Answer × Search}
    (h : attemptEach (attemptExpand goal goal.grammar.productionTable remaining) l
      (goal.grammar.productionsFor l.symbol) false s = .ok x) :
    x.1.Right goal (remaining + 1) form ∧ x.2.Reliable goal := by
  rw [eq_tryEach_of_attemptEach (fun _ _ _ => eq_expand_of_attemptExpand hcosts) h]
  exact tryEach_right (fun form s hs => expand_right hcosts hs remaining form) hl
    (goal.grammar.productionsFor l.symbol) [] false rfl (by simp) hs

/-- What a search returns holds. -/
theorem holds_returned (hg : goal.grammar.Valid) (hcosts : goal.costs = goal.grammar.costs)
    (hs : s.Reliable goal) {a : Answer} {s' : Search}
    (h : attemptExpand goal goal.grammar.productionTable remaining form s = .ok (a, s'))
    (hreturns : ∀ outcome, a ≠ .stopped outcome) :
    (Moment.returned remaining form a s').Holds goal.grammar goal.target := by
  obtain ⟨hright, hs'⟩ := right_of_attemptExpand hcosts hs h
  refine ⟨hright.holds hg (fun path hpath => ?_) hreturns, hs'.holds hg⟩
  apply expand_leads (s := s)
  rw [← eq_expand_of_attemptExpand hcosts h, hpath]

/-- What is tried in turn hands on a reliable memory, so all its moments hold if those of each
search with such a memory do. -/
theorem always_watchEach {P : Moment → Prop} {go : Form → Search → Watched (Answer × Search)}
    (hgo : ∀ form s, s.Reliable goal → Always P (go form s))
    (hnext : ∀ form s x, s.Reliable goal → (go form s).result = .ok x → x.2.Reliable goal)
    (ps : List Production) (truncated : Bool) (hs : s.Reliable goal) :
    Always P (watchEach go l ps truncated s) := by
  induction ps generalizing truncated s with
  | nil => exact .pure _
  | cons p rest ih =>
      refine (hgo _ s hs).bind fun x hx => ?_
      have hs' := hnext _ s x hs hx
      obtain ⟨_ | t | _, s'⟩ := x
      · exact .pure _
      · exact ih (truncated || t) hs'
      · exact .pure _

/-- The moments of a search from a form hold if those between its call and its return do. -/
theorem holds_during (hg : goal.grammar.Valid) (hcosts : goal.costs = goal.grammar.costs)
    (hs : s.Reliable goal) {body : Watched (Answer × Search)}
    (hresult : (during remaining form s body).result =
      attemptExpand goal goal.grammar.productionTable remaining form s)
    (hbody : Always (Moment.Holds goal.grammar goal.target) body) :
    Always (Moment.Holds goal.grammar goal.target) (during remaining form s body) := by
  rw [result_during] at hresult
  refine Always.bind (.note (hs.holds hg)) fun _ _ => hbody.bind fun x hx => ?_
  rw [hresult] at hx
  have hreturned := holds_returned hg hcosts hs hx
  obtain ⟨path | truncated | outcome, s'⟩ := x
  · exact Always.bind (.note (hreturned (by simp))) fun _ _ => .pure _
  · exact Always.bind (.note (hreturned (by simp))) fun _ _ => .pure _
  · exact .pure _

/-- **Every moment** of a search from a form holds, if what is known at its call does. -/
theorem holds_watchExpand (hg : goal.grammar.Valid) (hcosts : goal.costs = goal.grammar.costs)
    (hs : s.Reliable goal) (remaining : Nat) (form : Form) :
    Always (Moment.Holds goal.grammar goal.target)
      (watchExpand goal goal.grammar.productionTable remaining form s) := by
  induction remaining generalizing form s with
  | zero =>
      have hresult := result_watchExpand goal goal.grammar.productionTable 0 form s
      refine holds_during hg hcosts hs hresult (Always.bind (.lift _) fun x hx => ?_)
      have hlook := eq_look_of_attemptLook hx
      obtain ⟨a | l, s'⟩ := x
      · exact .pure _
      · exact absurd (congrArg Prod.fst hlook).symm (look_zero_ne_branch hg hcosts form s l)
  | succ remaining ih =>
      have hresult := result_watchExpand goal goal.grammar.productionTable (remaining + 1) form s
      refine holds_during hg hcosts hs hresult (Always.bind (.lift _) fun x hx => ?_)
      have hlook := look_right hcosts hs (remaining + 1) form
      rw [← eq_look_of_attemptLook hx] at hlook
      obtain ⟨a | l, s'⟩ := x
      · exact .pure _
      obtain ⟨⟨hl, hbegins⟩, hs'⟩ := hlook
      refine Always.bind (.lift _) fun rules hrules => ?_
      rw [result_lift, Grammar.entryOf_productionTable (Grammar.form_of_leftmost? hl).2.1] at hrules
      obtain rfl := Except.ok.inj hrules
      have hnext : ∀ form s x, s.Reliable goal →
          (watchExpand goal goal.grammar.productionTable remaining form s).result = .ok x →
          x.2.Reliable goal := by
        intro form s x hs h
        rw [result_watchExpand] at h
        exact (right_of_attemptExpand hcosts hs h).2
      refine (always_watchEach (fun form s hs => ih hs form) hnext _ false hs').bind fun y hy => ?_
      rw [result_watchEach (result_watchExpand goal goal.grammar.productionTable remaining)] at hy
      -- the memory after the nested calls is reliable, and so is the failure they came to
      obtain ⟨hright, hs''⟩ := right_of_attemptEach hcosts hs' hl hy
      obtain ⟨path | truncated | outcome, s''⟩ := y
      · exact .pure _
      · exact Always.bind (.note ((hs''.remember hl hbegins hright).holds hg)) fun _ _ => .pure _
      · exact .pure _

end Search

/-- Every moment of a deepening search holds: each depth hands its memory on to the next. -/
theorem holds_watchDeepen {goal : Goal} (hg : goal.grammar.Valid)
    (hcosts : goal.costs = goal.grammar.costs) {s : Search} (hs : s.Reliable goal)
    (left depth : Nat) :
    Always (Moment.Holds goal.grammar goal.target)
      (watchDeepen goal goal.grammar.productionTable left depth s) := by
  induction left generalizing depth s with
  | zero => exact .pure _
  | succ left ih =>
      refine (Search.holds_watchExpand hg hcosts hs depth _).bind fun x hx => ?_
      rw [Search.result_watchExpand] at hx
      have hs' := (Search.right_of_attemptExpand hcosts hs hx).2
      obtain ⟨_ | (_ | _) | _, s'⟩ := x
      · exact .pure _
      · exact .pure _
      · exact ih hs' (depth + 1)
      · exact .pure _

namespace Grammar

variable {g : Grammar}

/-- **A search is right at every moment.**  The search that is watched is the one that runs,
and the calls that are noted are the nodes that it counts.  Whenever a search from a form is
called for, a failure remembered or an answer returned, what is known to fail does fail; an
answer that is returned is right for its form and the steps that were left; and no step is
tried without one left. -/
theorem watch_holds (hg : g.Valid) (target : Text) (budget : Budget) (cancel : Cancellation) :
    (g.watch target budget cancel).result = g.attempt target budget cancel ∧
      (∀ r, g.attempt target budget cancel = .ok r →
        r.nodes = (g.watch target budget cancel).calls) ∧
      ∀ m ∈ (g.watch target budget cancel).moments, m.Holds g target := by
  refine ⟨result_watch g target budget cancel, fun r hr => ?_, ?_⟩
  · exact nodes_of_attempt hr
  · refine Always.bind (.lift _) fun costs hcosts => ?_
    rw [result_lift] at hcosts
    have hexact := (reckons_attemptCosts hg (g.lowering_le_ceiling 0)).eq_of_ok hcosts
    let goal : Goal := ⟨g, target, costs, budget.nodes, cancel⟩
    exact holds_watchDeepen (show goal.grammar.Valid from hg) hexact
      (Search.reliable_initial goal) _ _

/-- A search that ends for want of a closing parenthesis, and one that is stopped. -/
theorem watch_holds_sums :
    sums.Valid ∧
      (sums.watch "((a)" {} .never).calls = 24 ∧
      (∃ r, (sums.watch "((a)" {} .never).result = .ok r ∧ r.outcome = .rejected) ∧
      (∀ m ∈ (sums.watch "((a)" {} .never).moments, m.Holds sums "((a)") ∧
      ∀ m ∈ (sums.watch "((a)" { nodes := some 6 } .never).moments, m.Holds sums "((a)" := by
  have hg : sums.Valid := by decide +kernel
  have hceiling : sums.ceiling (depthLimit {}) < Cost.range := by decide +kernel
  have houtcome : (sums.derive "((a)" {} .never).outcome = .rejected := by cbv
  have hnodes : (sums.derive "((a)" {} .never).nodes = 24 := by cbv
  have hattempt := (reckons_attempt hg "((a)" {} .never).eq_ok hceiling
  obtain ⟨hresult, hcount, hmoments⟩ := watch_holds hg "((a)" {} .never
  refine ⟨hg, ?_, ⟨_, hresult.trans hattempt, houtcome⟩, hmoments, ?_⟩
  · rw [← hcount _ hattempt, hnodes]
  · exact (watch_holds hg "((a)" { nodes := some 6 } .never).2.2

end Grammar

end FormalMachines.ContextFree
