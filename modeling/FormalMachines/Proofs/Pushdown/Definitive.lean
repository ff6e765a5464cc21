import FormalMachines.Proofs.Pushdown.Search

/-!
# FormalMachines.Proofs.Pushdown.Definitive

A definitive answer of the search is the same within larger limits.

Two searches for the same, one with smaller limits, go side by side (`Beside`):

1. as long as the smaller step limit cuts nothing off, both stand at the same place
   (`SamePlace`);
2. the first path that it cuts off is as long as the limit, and so are those behind it.  From
   there on the larger search finds more paths, but puts them behind all that the smaller one
   has still to take (`Ahead`).

So both take the same paths for as long as the smaller search goes on, and where it ends with
a verdict, the larger one ends with the same (`resume_of_verdict`).
-/

namespace FormalMachines.Pushdown

namespace Queue

variable {q : Queue} {p : Path} {more : List Path}

theorem exists_pop?_of_toList (h : q.toList = p :: more) : ∃ rest, q.pop? = some (p, rest) := by
  have heq := pop?_eq q
  cases hpop : q.pop? with
  | none => simp [hpop, h] at heq
  | some r =>
      obtain ⟨p', rest⟩ := r
      simp only [hpop, h, Option.map_some, List.head?_cons, Option.some.injEq, Prod.mk.injEq] at heq
      exact ⟨rest, by rw [heq.1]⟩

theorem pop?_eq_none_of_toList (h : q.toList = []) : q.pop? = none := by
  have heq := pop?_eq q
  simpa [h] using heq

end Queue

namespace Search

variable {a : Automaton} {input : Text} {limit small large : Nat} {taken : List Path}
  {s t : Search} {p : Path} {rest rest' : Queue}

/-! ## Two searches at the same place -/

/-- Whether two searches have the same paths still to take, have met the same configurations
and note the same. -/
structure SamePlace (s t : Search) : Prop where
  pending : t.pending.toList = s.pending.toList
  seen : ∀ c, c ∈ t.seen ↔ c ∈ s.seen
  furthest : t.furthest = s.furthest
  truncated : t.truncated = s.truncated

theorem SamePlace.refl (s : Search) : SamePlace s s := ⟨rfl, fun _ => .rfl, rfl, rfl⟩

theorem SamePlace.discover (h : SamePlace s t) (p : Path) :
    SamePlace (s.discover p) (t.discover p) := by
  by_cases hseen : p.final ∈ s.seen
  · have hseen' : p.final ∈ t.seen := (h.seen _).2 hseen
    rwa [discover_of_mem hseen, discover_of_mem hseen']
  · have hseen' : p.final ∉ t.seen := mt (h.seen _).1 hseen
    rw [discover_of_not_mem hseen, discover_of_not_mem hseen']
    exact ⟨by simp [h.pending], by simp [h.seen], h.furthest, h.truncated⟩

theorem SamePlace.foldl_discover (h : SamePlace s t) (paths : List Path) :
    SamePlace (paths.foldl Search.discover s) (paths.foldl Search.discover t) := by
  induction paths generalizing s t with
  | nil => exact h
  | cons p paths ih => exact ih (h.discover p)

theorem SamePlace.take (h : SamePlace s t) (hpop : s.pending.pop? = some (p, rest))
    (hpop' : t.pending.pop? = some (p, rest')) :
    SamePlace (noteFurthest p { s with pending := rest })
      (noteFurthest p { t with pending := rest' }) := by
  have hrest : rest'.toList = rest.toList := by
    have hlist := h.pending
    rw [Queue.toList_of_pop? hpop, Queue.toList_of_pop? hpop'] at hlist
    exact (List.cons.inj hlist).2
  exact ⟨by simp [hrest], by simp [h.seen], by simp [furthest_noteFurthest, h.furthest],
    by simp [h.truncated]⟩

/-! ## The step limit -/

/-- A path below the limit is continued. -/
theorem expand_of_lt (h : p.length < limit) (s : Search) :
    s.expand a input limit p = (p.successors a input).foldl discover s := by
  have hlimit : ¬ limit ≤ p.length := by omega
  cases hnext : p.successors a input <;> simp [expand, hnext, hlimit]

/-- A path at the limit is cut off, unless nothing continues it. -/
theorem expand_of_le (h : limit ≤ p.length) (s : Search) :
    s.expand a input limit p =
      if (p.successors a input).isEmpty then s else { s with truncated := true } := by
  simp [expand, h]

theorem truncated_foldl_discover (paths : List Path) (s : Search) :
    (paths.foldl discover s).truncated = s.truncated := by
  obtain ⟨_, h⟩ := discovers_foldl paths s
  exact h.truncated

/-! ## Two searches side by side -/

/-- Whether a search that has cut a path off stands behind another one: its pending paths are
all at the limit, and the other has the same ones to take first. -/
structure Ahead (limit : Nat) (s t : Search) : Prop where
  pending : s.pending.toList <+: t.pending.toList
  furthest : t.furthest = s.furthest
  truncated : s.truncated = true
  late : ∀ p ∈ s.pending.toList, limit ≤ p.length

/-- Whether a search with a step limit and one with a larger limit go side by side. -/
inductive Beside (limit : Nat) (s t : Search) : Prop where
  | same (place : SamePlace s t) (uncut : s.truncated = false)
  | ahead (further : Ahead limit s t)

theorem Beside.pending (h : Beside limit s t) : s.pending.toList <+: t.pending.toList := by
  cases h with
  | same place => simp [place.pending]
  | ahead further => exact further.pending

/-- The larger search takes the path that the smaller one takes. -/
theorem Beside.exists_pop? (h : Beside limit s t) (hpop : s.pending.pop? = some (p, rest)) :
    ∃ rest', t.pending.pop? = some (p, rest') := by
  obtain ⟨more, hmore⟩ := h.pending
  rw [Queue.toList_of_pop? hpop, List.cons_append] at hmore
  exact Queue.exists_pop?_of_toList hmore.symm

/-- What is left behind that path stays a beginning of what the larger search has left. -/
theorem Beside.rest_prefix (h : Beside limit s t) (hpop : s.pending.pop? = some (p, rest))
    (hpop' : t.pending.pop? = some (p, rest')) : rest.toList <+: rest'.toList := by
  have hpending := h.pending
  rw [Queue.toList_of_pop? hpop, Queue.toList_of_pop? hpop', List.cons_prefix_cons] at hpending
  exact hpending.2

/-- A search that cuts a path off at its limit stands behind one that continues it. -/
theorem ahead_expand (hpending : s.pending.toList <+: t.pending.toList)
    (hfurthest : t.furthest = s.furthest) (hlate : ∀ q ∈ s.pending.toList, small ≤ q.length)
    (hp : small ≤ p.length)
    (hcut : s.truncated = true ∨ (p.successors a input).isEmpty = false) :
    Ahead small (s.expand a input small p) (t.expand a input large p) := by
  obtain ⟨fresh, hexpands⟩ := expands_expand a input large p t
  have hsmall : (s.expand a input small p).pending = s.pending ∧
      (s.expand a input small p).truncated = true := by
    rw [expand_of_le hp]
    split <;> simp_all
  refine ⟨?_, by rw [furthest_expand, furthest_expand, hfurthest], hsmall.2, ?_⟩
  · rw [hsmall.1, hexpands.pending]
    exact hpending.trans (List.prefix_append _ _)
  · rwa [hsmall.1]

/-- **One step** of both: they take the same path and stay side by side. -/
theorem Beside.take (h : Beside small s t) (hinv : Invariant a input small taken s)
    (hle : small ≤ large) (hpop : s.pending.pop? = some (p, rest))
    (hpop' : t.pending.pop? = some (p, rest')) :
    Beside small ((noteFurthest p { s with pending := rest }).expand a input small p)
      ((noteFurthest p { t with pending := rest' }).expand a input large p) := by
  have hlist : s.pending.toList = p :: rest.toList := Queue.toList_of_pop? hpop
  have hrest : rest.toList <+: rest'.toList := h.rest_prefix hpop hpop'
  cases h with
  | same place uncut =>
      have hplace := place.take hpop hpop'
      by_cases hlt : p.length < small
      · rw [expand_of_lt hlt, expand_of_lt (Nat.lt_of_lt_of_le hlt hle)]
        exact .same (hplace.foldl_discover _) (by simp [truncated_foldl_discover, uncut])
      · have hp : small ≤ p.length := Nat.not_lt.1 hlt
        by_cases hempty : (p.successors a input).isEmpty
        · have hsame : ∀ limit s, expand a input limit p s = s := by simp [expand, hempty]
          rw [hsame, hsame]
          exact .same hplace (by simp [uncut])
        · -- the first path cut off: those behind it are no shorter
          have hlate : ∀ q ∈ rest.toList, small ≤ q.length := fun q hq =>
            Nat.le_trans hp (hinv.first_le hlist (by simp [hlist, hq]))
          exact .ahead (ahead_expand (by simpa using hrest) hplace.furthest
            (by simpa using hlate) hp (.inr (by simpa using hempty)))
  | ahead further =>
      have hp : small ≤ p.length := further.late p (by simp [hlist])
      have hlate : ∀ q ∈ rest.toList, small ≤ q.length := fun q hq =>
        further.late q (by simp [hlist, hq])
      have hfurthest : (noteFurthest p { t with pending := rest' }).furthest =
          (noteFurthest p { s with pending := rest }).furthest := by
        simp [furthest_noteFurthest, further.furthest]
      exact .ahead (ahead_expand (by simpa using hrest) hfurthest (by simpa using hlate) hp
        (.inl (by simp [further.truncated])))

/-! ## How the searches end -/

variable {left left' expanded expanded' : Nat} {cancel : Cancellation}

theorem resume_of_none (hpop : s.pending.pop? = none) :
    resume a input limit cancel left expanded s =
      s.failure input (if s.truncated then .budgetExhausted else .rejected) := by
  unfold resume
  rw [hpop]

theorem resume_of_accepting (hpop : s.pending.pop? = some (p, rest))
    (h : a.isAccepting input p.final = true) :
    resume a input limit .never left expanded s = ⟨p.trace input true, true, .accepted⟩ := by
  unfold resume
  simp [hpop, h]

theorem resume_succ (hpop : s.pending.pop? = some (p, rest))
    (h : a.isAccepting input p.final = false) :
    resume a input limit .never (left + 1) expanded s =
      resume a input limit .never left (expanded + 1)
        ((noteFurthest p { s with pending := rest }).expand a input limit p) := by
  rw [resume.eq_def]
  simp [hpop, h]

/-- Where the smaller search has nothing left to take and rejects, it has cut nothing off, and
the larger one rejects too. -/
theorem Beside.resume_of_none (h : Beside small s t) (hpop : s.pending.pop? = none)
    (huncut : s.truncated = false) :
    resume a input large .never left' expanded' t = s.failure input .rejected := by
  cases h with
  | same place _ =>
      have hpop' : t.pending.pop? = none :=
        Queue.pop?_eq_none_of_toList (by rw [place.pending, Queue.toList_of_pop?_eq_none hpop])
      simp [Search.resume_of_none hpop', failure, place.furthest, place.truncated, huncut]
  | ahead further => simp [further.truncated] at huncut

/-- **A search that ends with a verdict** ends the same within larger limits, from wherever
both stand side by side. -/
theorem resume_of_verdict (hle : small ≤ large) (hleft : left ≤ left')
    (hinv : Invariant a input small taken s) (h : Beside small s t)
    (hverdict : (resume a input small .never left expanded s).outcome = .accepted ∨
      (resume a input small .never left expanded s).outcome = .rejected) :
    resume a input large .never left' expanded' t =
      resume a input small .never left expanded s := by
  -- along the smaller search, whose end decides
  fun_induction resume a input small .never left expanded s
    generalizing left' expanded' taken t with
  | case1 left expanded s hpop =>
      have huncut : s.truncated = false := by
        cases htruncated : s.truncated <;> simp_all [failure]
      simpa [huncut] using h.resume_of_none hpop huncut
  | case2 left expanded s p rest hpop hraised => cases hraised
  | case3 left expanded s p rest hpop hraised haccepting =>
      obtain ⟨rest', hpop'⟩ := h.exists_pop? hpop
      exact resume_of_accepting hpop' haccepting
  | case4 expanded s p rest hpop hraised hrefused => simp [failure] at hverdict
  | case5 expanded s p rest hpop _ hrefused _ more =>
      rename_i ih
      have hrefused : a.isAccepting input p.final = false := by simpa using hrefused
      obtain ⟨more', rfl⟩ : ∃ more', left' = more' + 1 := ⟨left' - 1, by omega⟩
      obtain ⟨rest', hpop'⟩ := h.exists_pop? hpop
      rw [resume_succ hpop' hrefused]
      exact ih (by omega) (hinv.take hpop hrefused) (h.take hinv hle hpop hpop') hverdict

end Search

namespace Automaton

/-- **A definitive answer** of the search is the answer within any larger limits, with the
same record. -/
theorem runIn_search_definitive (a : Automaton) (input : Text) {small large : Budget}
    (hsteps : stepLimit small ≤ stepLimit large) (hnodes : nodeLimit small ≤ nodeLimit large)
    (h : (a.runIn .search input small .never).run.outcome = .accepted ∨
      (a.runIn .search input small .never).run.outcome = .rejected) :
    a.runIn .search input large .never = a.runIn .search input small .never := by
  have hresume : a.runSearch input large .never = a.runSearch input small .never :=
    Search.resume_of_verdict hsteps hnodes (Search.invariant_initial a input (stepLimit small))
      (.same (.refl _) rfl) h
  exact congrArg (Result.mk .search) hresume

/-- An automaton with a blind alley before the door: the move that accepts stands behind one
that leads on without reading. -/
def blindAlley : Automaton where
  states := [.text "p", .text "q", .text "r"]
  inputAlphabet := [.text "a"]
  stackAlphabet := [.text "Z"]
  transitions := [⟨"p", "a", epsilon, "q", []⟩, ⟨"p", "a", epsilon, "r", []⟩,
    ⟨"q", epsilon, "Z", "q", []⟩]
  start := "p"
  initialSymbol := "Z"
  accepting := [.text "r"]

/-- With one step the search cuts the alley off. -/
theorem outcome_runIn_blindAlley :
    (blindAlley.runIn .search "a" { steps := some 1, nodes := some 2 } .never).run.outcome =
      .accepted := by
  let p : Path := .start blindAlley.initial
  let q : Path := p.extend ⟨"p", "a", epsilon, "q", []⟩
  let r : Path := p.extend ⟨"p", "a", epsilon, "r", []⟩
  let s : Search := ⟨⟨[], []⟩, (Search.initial blindAlley).seen, p, false⟩
  have hnext : p.successors blindAlley "a" = [q, r] := rfl
  have hq : q.final ∉ s.seen := by
    have hne : blindAlley.initial ≠ q.final := by decide +kernel
    simp [s, Search.initial, hne]
  have hr : r.final ∉ (s.discover q).seen := by
    have hne : blindAlley.initial ≠ r.final ∧ q.final ≠ r.final := by decide +kernel
    rw [Search.discover_of_not_mem hq]
    simp [s, Search.initial, hne]
  have hexpand : s.expand blindAlley "a" 1 p = (s.discover q).discover r := by
    rw [Search.expand_of_lt (by decide), hnext]
    rfl
  have hrefused : blindAlley.isAccepting "a" p.final = false := by decide +kernel
  have hrefused' : blindAlley.isAccepting "a" q.final = false := by decide +kernel
  have haccepting : blindAlley.isAccepting "a" r.final = true := by decide +kernel
  have hfirst : (Search.initial blindAlley).pending.pop? = some (p, ⟨[], []⟩) := rfl
  have hsecond : (Queue.mk [] [r, q]).pop? = some (q, ⟨[r], []⟩) := rfl
  have hthird : (Queue.mk [r] []).pop? = some (r, ⟨[], []⟩) := rfl
  change (Search.resume blindAlley "a" 1 .never 2 0 (.initial blindAlley)).outcome = .accepted
  rw [Search.resume_succ hfirst hrefused]
  change (Search.resume blindAlley "a" 1 .never 1 1 (s.expand blindAlley "a" 1 p)).outcome = _
  rw [hexpand, Search.discover_of_not_mem hr, Search.discover_of_not_mem hq,
    Search.resume_succ hsecond hrefused', Search.resume_of_accepting hthird haccepting]

theorem runIn_search_definitive_blindAlley :
    let small : Budget := { steps := some 1, nodes := some 2 }
    blindAlley.Valid ∧ stepLimit small ≤ stepLimit .unlimited ∧
      nodeLimit small ≤ nodeLimit .unlimited ∧
      (blindAlley.runIn .search "a" small .never).run.outcome = .accepted ∧
      blindAlley.runIn .search "a" .unlimited .never =
        blindAlley.runIn .search "a" small .never ∧
      (blindAlley.runIn .search "b" small .never).run.outcome = .rejected ∧
      blindAlley.runIn .search "b" .unlimited .never =
        blindAlley.runIn .search "b" small .never := by
  intro small
  have hsteps : stepLimit small ≤ stepLimit .unlimited := by decide
  have hnodes : nodeLimit small ≤ nodeLimit .unlimited := by decide
  have haccepted : (blindAlley.runIn .search "a" small .never).run.outcome = .accepted :=
    outcome_runIn_blindAlley
  have hrejected : (blindAlley.runIn .search "b" small .never).run.outcome = .rejected := by
    decide +kernel
  exact ⟨by decide +kernel, hsteps, hnodes, haccepted,
    blindAlley.runIn_search_definitive "a" hsteps hnodes (.inl haccepted), hrejected,
    blindAlley.runIn_search_definitive "b" hsteps hnodes (.inr hrejected)⟩

end Automaton

end FormalMachines.Pushdown
