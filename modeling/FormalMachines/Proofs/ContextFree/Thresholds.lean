import FormalMachines.Proofs.ContextFree.Watch

/-!
# FormalMachines.Proofs.ContextFree.Thresholds

The limits of the search for a derivation are exact thresholds.

All limits act at a look, by the number of nodes before it (`Goal.stopAt`), and a search
never looks at another form because of them.  Every node is a call, so the calls of the search
without limits tell whether a search with limits ends, where, and how: `Halted` says so of two
computations, is kept where they go on (`Halted.bind`), and holds of the two searches
(`halted_watchExpand`, `halted_watchDeepen`; main result `attempt_thresholds`).  A search
without limits may fail for a number out of range.  Then one with limits fails alike, unless
it ends before.

A greater depth changes nothing where the search came to a verdict
(`attemptDeepen_of_verdict`).
-/

namespace FormalMachines.ContextFree

open Watched

namespace Goal

/-- What ends a search at a look with so many nodes before it. -/
def stopAt (goal : Goal) (nodes : Nat) : Option Outcome :=
  if goal.cancel.raisedAt nodes then some .cancelled
  else if goal.nodeLimit.any (· < nodes + 1) then some .budgetExhausted
  else none

/-- The same goal without the limits. -/
def unlimited (goal : Goal) : Goal := { goal with nodeLimit := none, cancel := .never }

/-- Whether the limits end a search at the look with `limit` nodes before it, and not at
one with fewer. -/
structure Stops (goal : Goal) (limit : Nat) (outcome : Outcome) : Prop where
  passes : ∀ nodes < limit, goal.stopAt nodes = none
  ends : goal.stopAt limit = some outcome

end Goal

/-! ## A computation with limits beside the one without -/

/-- Whether a computation with limits is right beside the one without, which comes to so many
looks: it is the same if the limits allow these, or else it ends. -/
structure Halted {α : Type} (limit looks : Nat) (ended : α → Prop) (limited free : Except Fault α) :
    Prop where
  same : looks ≤ limit → limited = free
  stopped : limit < looks → ∃ a, limited = .ok a ∧ ended a

namespace Halted

variable {α β : Type} {limit n : Nat} {ended : α → Prop} {ended' : β → Prop}
  {limited : Except Fault α} {free : Watched α} {x : Except Fault β} {f : Unit → Watched β}

/-- What looks at nothing is the same. -/
theorem refl (h : n ≤ limit) : Halted limit n ended limited limited where
  same _ := rfl
  stopped hlt := absurd h (Nat.not_le.2 hlt)

/-- What follows two computations keeps them right, if it hands an end on and is right after
the value of the one without limits. -/
theorem bind {k : α → Except Fault β} {k' : α → Watched β}
    (h : Halted limit (n + free.calls) ended limited free.result)
    (hends : ∀ a, ended a → ∃ b, k a = .ok b ∧ ended' b)
    (hgoes : ∀ a, free.result = .ok a → n + free.calls ≤ limit →
      Halted limit (n + free.calls + (k' a).calls) ended' (k a) (k' a).result) :
    Halted limit (n + (free >>= k').calls) ended' (limited >>= k) (free >>= k').result := by
  have hend : limit < n + free.calls → ∃ b, (limited >>= k) = .ok b ∧ ended' b := by
    intro hlt
    obtain ⟨a, rfl, ha⟩ := h.stopped hlt
    exact hends a ha
  rw [result_bind]
  cases hfree : free.result with
  | error e =>
      rw [calls_bind_of_error hfree]
      exact ⟨fun hle => by rw [h.same hle, hfree]; rfl, hend⟩
  | ok a =>
      rw [calls_bind_of_ok hfree, ← Nat.add_assoc]
      by_cases hle : n + free.calls ≤ limit
      · rw [h.same hle, hfree]
        exact hgoes a hfree hle
      · have hlt := Nat.not_le.1 hle
        exact ⟨fun h => absurd (Nat.le_trans (Nat.le_add_right ..) h) hle, fun _ => hend hlt⟩

/-- What has no looks of its own is followed. -/
theorem lift {y : Except Fault α} {k : α → Except Fault β} {k' : α → Watched β} (h : n ≤ limit)
    (hgoes : ∀ a, y = .ok a → Halted limit (n + (k' a).calls) ended' (k a) (k' a).result) :
    Halted limit (n + (Watched.lift y >>= k').calls) ended' (y >>= k)
      (Watched.lift y >>= k').result := by
  have hlifted : Halted limit (n + (Watched.lift y).calls) (fun _ => False) y
      (Watched.lift y).result := refl h
  exact hlifted.bind (fun _ hfalse => hfalse.elim) fun a ha _ => hgoes a ha

/-- A moment that is no call is passed over. -/
theorem note {m : Moment} (hm : m.isCall = false)
    (h : Halted limit (n + (f ()).calls) ended' x (f ()).result) :
    Halted limit (n + (Watched.note m >>= f).calls) ended' x (Watched.note m >>= f).result := by
  rw [calls_note_bind, hm, if_neg Bool.false_ne_true, Nat.zero_add]
  exact h

end Halted

/-! ## One look -/

namespace Search

variable {goal : Goal} {limit : Nat} {outcome : Outcome} {remaining : Nat} {form : Form}
  {s : Search}

/-- A look that the limits let pass shows what it shows without them. -/
theorem attemptLook_unlimited (h : goal.stopAt s.nodes = none) :
    attemptLook goal.unlimited remaining form s = attemptLook goal remaining form s := by
  unfold Goal.stopAt at h
  split at h
  · cases h
  · next hcancel =>
      split at h
      · cases h
      · next hnodes =>
          unfold attemptLook
          rw [if_neg hcancel, if_neg hnodes]
          rfl

/-- A look that the limits do not let pass is the last. -/
theorem attemptLook_of_stopAt (h : goal.stopAt s.nodes = some outcome) :
    attemptLook goal remaining form s =
      .ok (.answer (.stopped outcome), { s with nodes := s.nodes + 1 }) := by
  unfold Goal.stopAt at h
  unfold attemptLook
  split at h
  · next hcancel =>
      rw [if_pos hcancel, ← Option.some.inj h]
      rfl
  · next hcancel =>
      split at h
      · next hnodes =>
          rw [if_neg hcancel, if_pos hnodes, ← Option.some.inj h]
          rfl
      · cases h

/-! ## All forms -/

/-- Whether a search was ended at the look that a limit does not allow. -/
def EndsAt (limit : Nat) (outcome : Outcome) (x : Answer × Search) : Prop :=
  x.1 = .stopped outcome ∧ x.2.nodes = limit + 1

/-- A call is one look, and those of what it does. -/
theorem calls_during (remaining : Nat) (form : Form) (s : Search)
    (body : Watched (Answer × Search)) : (during remaining form s body).calls = 1 + body.calls := by
  unfold during
  rw [calls_note_bind]
  congr 1
  cases hresult : body.result with
  | error e => exact calls_bind_of_error hresult _
  | ok x =>
      rw [calls_bind_of_ok hresult]
      obtain ⟨_ | _ | _, s'⟩ := x <;> rfl

/-- Productions that are tried with limits, beside those tried without. -/
theorem halted_watchEach {go : Form → Search → Except Fault (Answer × Search)}
    {go' : Form → Search → Watched (Answer × Search)}
    (hgo : ∀ form s, s.nodes ≤ limit →
      Halted limit (s.nodes + (go' form s).calls) (EndsAt limit outcome) (go form s)
        (go' form s).result)
    (hcounts : ∀ form s, Counts nodesOf s.nodes (go' form s)) (l : Leftmost)
    (ps : List Production) (truncated : Bool) (hs : s.nodes ≤ limit) :
    Halted limit (s.nodes + (watchEach go' l ps truncated s).calls) (EndsAt limit outcome)
      (attemptEach go l ps truncated s) (watchEach go' l ps truncated s).result := by
  induction ps generalizing truncated s with
  | nil => exact .refl hs
  | cons p rest ih =>
      rw [watchEach, attemptEach]
      refine (hgo _ s hs).bind ?_ fun x hx hle => ?_
      · rintro ⟨a, s'⟩ ⟨rfl, hnodes⟩
        exact ⟨_, rfl, rfl, hnodes⟩
      · have hnodes : x.2.nodes = _ := hcounts _ s x hx
        rw [← hnodes] at hle ⊢
        obtain ⟨_ | t | _, s'⟩ := x
        · exact .refl hle
        · exact ih (truncated || t) hle
        · exact .refl hle

/-- A call looks, which counts as a node, and goes on with what it sees.  One that looks where
the limits do not allow it ends there. -/
theorem halted_during {k : Look × Search → Except Fault (Answer × Search)}
    {k' : Look × Search → Watched (Answer × Search)} (hgoal : goal.Stops limit outcome)
    (hs : s.nodes ≤ limit)
    (hends : ∀ s, k (.answer (.stopped outcome), s) = .ok (.stopped outcome, s))
    (hgoes : ∀ x, x.2.nodes ≤ limit →
      Halted limit (x.2.nodes + (k' x).calls) (EndsAt limit outcome) (k x) (k' x).result) :
    let body := Watched.lift (attemptLook goal.unlimited remaining form s) >>= k'
    Halted limit (s.nodes + (during remaining form s body).calls) (EndsAt limit outcome)
      (attemptLook goal remaining form s >>= k) (during remaining form s body).result := by
  intro body
  rw [result_during, calls_during]
  obtain hlt | heq := Nat.lt_or_eq_of_le hs
  · have hlook : attemptLook goal.unlimited remaining form s = attemptLook goal remaining form s :=
      attemptLook_unlimited (hgoal.passes _ hlt)
    rw [← Nat.add_assoc, ← hlook]
    refine .lift hlt fun x hx => ?_
    have hnodes : x.2.nodes = s.nodes + 1 := nodes_attemptLook hx
    rw [← hnodes]
    exact hgoes x (hnodes ▸ hlt)
  · rw [attemptLook_of_stopAt (heq ▸ hgoal.ends)]
    exact ⟨fun hle => by omega, fun _ => ⟨_, hends _, rfl, by rw [heq]⟩⟩

/-- **A search with limits** comes to what the one without does, or ends where they say. -/
theorem halted_watchExpand (hgoal : goal.Stops limit outcome) (productions : ProductionTable)
    (remaining : Nat) (form : Form) (hs : s.nodes ≤ limit) :
    Halted limit (s.nodes + (watchExpand goal.unlimited productions remaining form s).calls)
      (EndsAt limit outcome) (attemptExpand goal productions remaining form s)
      (watchExpand goal.unlimited productions remaining form s).result := by
  induction remaining generalizing form s with
  | zero =>
      rw [watchExpand, attemptExpand]
      refine halted_during hgoal hs (fun _ => rfl) fun x hle => ?_
      obtain ⟨_ | _, s'⟩ := x
      · exact .refl hle
      · exact .note rfl (.refl hle)
  | succ remaining ih =>
      rw [watchExpand, attemptExpand]
      refine halted_during hgoal hs (fun _ => rfl) fun x hle => ?_
      obtain ⟨_ | l, s'⟩ := x
      · exact .refl hle
      · refine .lift hle fun rules _ => ?_
        have hcounts := counts_watchExpand goal.unlimited productions remaining
        have heach := halted_watchEach (fun form s hs => ih form hs) hcounts l rules false hle
        refine heach.bind ?_ fun y hy hle => ?_
        · rintro ⟨a, s''⟩ ⟨rfl, hnodes⟩
          exact ⟨_, rfl, rfl, hnodes⟩
        · obtain ⟨_ | _ | _, s''⟩ := y
          · exact .refl hle
          · exact .note rfl (.refl hle)
          · exact .refl hle

end Search

/-! ## Deepening -/

/-- The result of a search that was ended at the look that a limit does not allow. -/
def Result.endedAt (limit : Nat) (outcome : Outcome) : Result :=
  ⟨false, outcome, [], none, limit + 1⟩

variable {goal : Goal} {limit : Nat} {outcome : Outcome} {s : Search}

/-- **A deepening search with limits** comes to what the one without does, or ends where they
say. -/
theorem halted_watchDeepen (hgoal : goal.Stops limit outcome) (productions : ProductionTable)
    (left depth : Nat) (hs : s.nodes ≤ limit) :
    Halted limit (s.nodes + (watchDeepen goal.unlimited productions left depth s).calls)
      (· = .endedAt limit outcome) (attemptDeepen goal productions left depth s)
      (watchDeepen goal.unlimited productions left depth s).result := by
  induction left generalizing depth s with
  | zero => exact .refl hs
  | succ left ih =>
      rw [watchDeepen, attemptDeepen]
      refine (Search.halted_watchExpand hgoal productions depth [goal.grammar.start] hs).bind ?_
        fun x hx hle => ?_
      · rintro ⟨a, s'⟩ ⟨rfl, hnodes⟩
        exact ⟨_, rfl, by rw [Result.without, hnodes, Result.endedAt]⟩
      · have hnodes : x.2.nodes = _ := Search.counts_watchExpand _ productions depth _ s x hx
        rw [← hnodes] at hle ⊢
        obtain ⟨_ | (_ | _) | _, s'⟩ := x
        · exact .refl hle
        · exact .refl hle
        · exact ih (depth + 1) hle
        · exact .refl hle

/-- A verdict stands at every greater depth. -/
theorem attemptDeepen_of_verdict {productions : ProductionTable} {left left' : Nat}
    (hle : left ≤ left') (depth : Nat) {r : Result}
    (h : attemptDeepen goal productions left depth s = .ok r)
    (hverdict : r.outcome = .accepted ∨ r.outcome = .rejected) :
    attemptDeepen goal productions left' depth s = .ok r := by
  induction left generalizing left' depth s with
  | zero =>
      obtain rfl := Except.ok.inj h
      cases hverdict <;> contradiction
  | succ left ih =>
      obtain ⟨left', rfl⟩ : ∃ n, left' = n + 1 := ⟨left' - 1, by omega⟩
      rw [attemptDeepen] at h ⊢
      obtain ⟨x, hx, h⟩ := bind_eq_ok h
      rw [hx]
      obtain ⟨_ | (_ | _) | _, s'⟩ := x
      · exact h
      · exact h
      · exact ih (Nat.le_of_succ_le_succ hle) (depth + 1) h
      · exact h

/-! ## Which look is the last -/

namespace Goal

variable (g : Grammar) (target : Text) (costs : CostTable)

/-- The goal of a search under a node limit. -/
theorem stops_nodes (limit : Nat) :
    Stops ⟨g, target, costs, some limit, .never⟩ limit .budgetExhausted where
  passes nodes h := by
    have hnodes : ¬ limit < nodes + 1 := Nat.not_lt.2 h
    simp only [stopAt, Cancellation.raisedAt_never, Option.any_some, hnodes, decide_false,
      Bool.false_eq_true, if_false]
  ends := by simp [stopAt]

/-- The goal of a search that is cancelled after some looks. -/
theorem stops_looks (looks : Nat) :
    Stops ⟨g, target, costs, none, .after looks⟩ looks .cancelled where
  passes nodes h := by simp [stopAt, Cancellation.raisedAt, Nat.not_le.2 h]
  ends := by simp [stopAt, Cancellation.raisedAt]

/-- The goal of a search under both. -/
theorem stops_both (limit looks : Nat) :
    Stops ⟨g, target, costs, some limit, .after looks⟩ (min looks limit)
      (if looks ≤ limit then .cancelled else .budgetExhausted) where
  passes nodes h := by
    obtain ⟨hlooks, hlimit⟩ := Nat.lt_min.1 h
    have hnodes : ¬ limit < nodes + 1 := Nat.not_lt.2 hlimit
    simp only [stopAt, Cancellation.raisedAt, Nat.not_le.2 hlooks, Option.any_some, hnodes,
      decide_false, Bool.false_eq_true, if_false]
  ends := by
    by_cases hle : looks ≤ limit
    · simp [stopAt, Cancellation.raisedAt, hle]
    · have hlt := Nat.not_le.1 hle
      simp [stopAt, Cancellation.raisedAt, hle, Nat.min_eq_right (Nat.le_of_lt hlt)]

end Goal

namespace Grammar

variable {g : Grammar} {target : Text} {budget : Budget}

/-- A search is right beside the one without limits, if its limits stop every search of the
grammar there, whatever the costs. -/
theorem halted_watch {nodes : Option Nat} {cancel : Cancellation}
    (hgoal : ∀ costs, Goal.Stops ⟨g, target, costs, nodes, cancel⟩ limit outcome) :
    Halted limit (g.watch target { budget with nodes := none } .never).calls
      (· = .endedAt limit outcome) (g.attempt target { budget with nodes := nodes } cancel)
      (g.attempt target { budget with nodes := none } .never) := by
  rw [← g.result_watch target { budget with nodes := none } .never, ← Nat.zero_add (calls _)]
  refine .lift (Nat.zero_le limit) fun costs _ => ?_
  exact halted_watchDeepen (s := .initial) (hgoal costs) g.productionTable (depthLimit budget) 1
    (Nat.zero_le limit)

/-- **The limits are exact thresholds.**  Let `free` be the search without a node limit and
without cancellation, and `looks` the looks that it comes to, which are the nodes of its result.
A node limit or a cancellation that allows as many looks changes nothing; a smaller one ends
the search at the look that it does not allow, and of two the smaller decides, the cancellation
if they are equal.  A verdict of `free` is its result at every greater depth.

The search without limits has a result, unless a number that it adds up is out of range. -/
theorem attempt_thresholds (g : Grammar) (target : Text) (budget : Budget) :
    let free := g.attempt target { budget with nodes := none } .never
    let looks := (g.watch target { budget with nodes := none } .never).calls
    (g.Valid → (g.ceiling (depthLimit budget) < Cost.range → ∃ r, free = .ok r) ∧
      ((∃ r, free = .ok r) ∨ ∃ n, Cost.range ≤ n ∧ n ≤ g.ceiling (depthLimit budget) ∧
        free = .error (.value (.outOfRange n)))) ∧
    (∀ r, free = .ok r → r.nodes = looks) ∧
    (∀ limit, Halted limit looks (· = .endedAt limit .budgetExhausted)
      (g.attempt target { budget with nodes := some limit } .never) free) ∧
    (∀ n, Halted n looks (· = .endedAt n .cancelled)
      (g.attempt target { budget with nodes := none } (.after n)) free) ∧
    (∀ limit n, Halted (min n limit) looks
      (· = .endedAt (min n limit) (if n ≤ limit then .cancelled else .budgetExhausted))
      (g.attempt target { budget with nodes := some limit } (.after n)) free) ∧
    ∀ deeper : Budget, depthLimit budget ≤ depthLimit deeper →
      ∀ r, free = .ok r → r.outcome = .accepted ∨ r.outcome = .rejected →
        g.attempt target { deeper with nodes := none } .never = .ok r := by
  intro free looks
  refine ⟨fun hg => ?_, fun r hr => nodes_of_attempt hr, fun limit => ?_, fun n => ?_,
    fun limit n => ?_, fun deeper hdepth r hr hverdict => ?_⟩
  · have hreckons := reckons_attempt hg target { budget with nodes := none } .never
    exact ⟨fun hceiling => ⟨_, hreckons.eq_ok hceiling⟩, hreckons.eq_ok_or.imp_left fun h => ⟨_, h⟩⟩
  · exact halted_watch fun costs => Goal.stops_nodes g target costs limit
  · exact halted_watch fun costs => Goal.stops_looks g target costs n
  · exact halted_watch fun costs => Goal.stops_both g target costs limit n
  · obtain ⟨costs, hcosts, hr⟩ := bind_eq_ok hr
    rw [attempt, hcosts]
    exact attemptDeepen_of_verdict hdepth 1 hr hverdict

/-- Texts of `a`s around one `b`. -/
def nests : Grammar where
  terminals := [.text "a", .text "b"]
  nonTerminals := [.text "S"]
  productions := [⟨"S", ["a", "S", "a"]⟩, ⟨"S", ["b"]⟩]
  start := "S"

/-- Seven nodes are looked at, so a limit of seven changes nothing and one of six ends the
search at the last of them. -/
theorem attempt_thresholds_nests :
    nests.Valid ∧ nests.ceiling (depthLimit {}) < Cost.range ∧
      ∃ r, nests.attempt "aba" {} .never = .ok r ∧ r.outcome = .accepted ∧ r.nodes = 7 ∧
        nests.attempt "aba" { nodes := some 7 } .never = .ok r ∧
        nests.attempt "aba" { nodes := some 6 } .never =
          .ok ⟨false, .budgetExhausted, [], none, 7⟩ ∧
        nests.attempt "aba" {} (.after 6) = .ok ⟨false, .cancelled, [], none, 7⟩ ∧
        nests.attempt "aba" { nodes := some 6 } (.after 6) =
          .ok ⟨false, .cancelled, [], none, 7⟩ ∧
        depthLimit {} ≤ depthLimit { depth := some 40 } ∧
        nests.attempt "aba" { depth := some 40 } .never = .ok r := by
  have hg : nests.Valid := by decide +kernel
  have hceiling : nests.ceiling (depthLimit {}) < Cost.range := by decide +kernel
  have haccepted : (nests.derive "aba" {} .never).outcome = .accepted := by cbv
  have hcount : (nests.derive "aba" {} .never).nodes = 7 := by cbv
  have hdepth : depthLimit {} ≤ depthLimit { depth := some 40 } := by decide
  have hr := (reckons_attempt hg "aba" {} .never).eq_ok hceiling
  obtain ⟨-, hnodes, hlimit, hlooks, hboth, hdeeper⟩ := attempt_thresholds nests "aba" {}
  have hseven : (nests.watch "aba" {} .never).calls = 7 := (hnodes _ hr).symm.trans hcount
  have hbelow : 6 < (nests.watch "aba" {} .never).calls := by rw [hseven]; decide
  have hended : ∀ {x : Except Fault Result} {outcome : Outcome},
      (∃ r, x = .ok r ∧ r = .endedAt 6 outcome) → x = .ok ⟨false, outcome, [], none, 7⟩ := by
    rintro x outcome ⟨_, hx, rfl⟩
    exact hx
  exact ⟨hg, hceiling, _, hr, haccepted, hcount,
    ((hlimit 7).same (Nat.le_of_eq hseven)).trans hr, hended ((hlimit 6).stopped hbelow),
    hended ((hlooks 6).stopped hbelow), hended ((hboth 6 6).stopped hbelow), hdepth,
    hdeeper { depth := some 40 } hdepth _ hr (.inl haccepted)⟩

end Grammar

end FormalMachines.ContextFree
