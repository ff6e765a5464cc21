import FormalMachines.Proofs.Distinct
import FormalMachines.Worklist
import Mathlib.Data.List.Perm.Subperm
import Mathlib.Logic.Relation

/-!
# FormalMachines.Proofs.Worklist

A worklist search finds exactly what can be reached, each value once.

The search is given a bound instead of a measure.  `Reached` says which values it can come
upon, and `Bounds` that no list of distinct ones is longer than the bound.  Then

* `mem_explore_iff` — what is found is what can be reached from the starting values;
* `nodup_explore` — nothing is found twice;
* `next_mem_explore` — what is found is closed under the neighbours;
* `explore_of_closed` — starting values that lead to no others are all that is found;
* `explore?_eq_some` — the search has nothing pending when it ends;
* `ends_explore` — the search that notes one neighbour at a time ends with the same.

The search ends in time because the values looked at so far are those seen and not
pending: with each of them the bound left drops by one, and so does the room for new ones.
-/

namespace FormalMachines.Worklist

variable {α : Type}

/-- Whether a value can be reached from the starting values. -/
def Reached (next : α → List α) (starts : List α) (x : α) : Prop :=
  ∃ s ∈ starts, Relation.ReflTransGen (fun x y => y ∈ next x) s x

/-- Whether a number is no less than that of the distinct values with a property. -/
def Bounds (P : α → Prop) (bound : Nat) : Prop :=
  ∀ l : List α, l.Nodup → (∀ x ∈ l, P x) → l.length ≤ bound

theorem Bounds.mono {P Q : α → Prop} {bound : Nat} (h : Bounds Q bound)
    (hPQ : ∀ x, P x → Q x) : Bounds P bound :=
  fun l hl hP => h l hl fun x hx => hPQ x (hP x hx)

/-- No more distinct values than a list has are members of it. -/
theorem bounds_mem (ys : List α) : Bounds (· ∈ ys) ys.length :=
  fun _ hl hmem => (hl.subperm hmem).length_le

theorem reached_of_mem {next : α → List α} {starts : List α} {x : α} (h : x ∈ starts) :
    Reached next starts x := ⟨x, h, .refl⟩

theorem Reached.next {next : α → List α} {starts : List α} {x y : α}
    (h : Reached next starts x) (hy : y ∈ next x) : Reached next starts y := by
  obtain ⟨s, hs, hsx⟩ := h
  exact ⟨s, hs, hsx.tail hy⟩

/-- A property of the starting values that neighbours inherit holds of all that is
reached. -/
theorem Reached.induct {next : α → List α} {starts : List α} {P : α → Prop}
    (hstart : ∀ s ∈ starts, P s) (hnext : ∀ x y, P x → y ∈ next x → P y) {x : α}
    (h : Reached next starts x) : P x := by
  obtain ⟨s, hs, hsx⟩ := h
  induction hsx with
  | refl => exact hstart s hs
  | tail _ hy ih => exact hnext _ _ ih hy

variable [DecidableEq α]

theorem nodup_newcomers (seen xs : List α) : (newcomers seen xs).Nodup :=
  Distinct.nodup_eraseDups _

/-! ## What a search keeps -/

/-- What holds of the values seen and pending throughout a search: the values seen are
distinct, can be reached and are closed under neighbours up to the pending ones. -/
structure Sound (next : α → List α) (starts seen pending : List α) : Prop where
  nodup : seen.Nodup
  reached : ∀ x ∈ seen, Reached next starts x
  pending_seen : ∀ x ∈ pending, x ∈ seen
  closed : ∀ x ∈ seen, x ∈ pending ∨ ∀ y ∈ next x, y ∈ seen

/-- Looking at one pending value keeps it so. -/
theorem Sound.look {next : α → List α} {starts seen pending : List α} {x : α}
    (h : Sound next starts seen (x :: pending)) (d : Discipline) :
    Sound next starts (seen ++ newcomers seen (next x))
      (d.enqueue (newcomers seen (next x)) pending) := by
  have hx : Reached next starts x := h.reached x (h.pending_seen x (by simp))
  constructor
  · rw [List.nodup_append]
    refine ⟨h.nodup, nodup_newcomers seen _, ?_⟩
    intro y hy z hz hyz
    exact (mem_newcomers.1 hz).2 (hyz ▸ hy)
  · intro y hy
    obtain hy | hy := List.mem_append.1 hy
    · exact h.reached y hy
    · exact hx.next (mem_newcomers.1 hy).1
  · intro y hy
    obtain hy | hy := Discipline.mem_enqueue.1 hy
    · simp [hy]
    · simp [h.pending_seen y (by simp [hy])]
  · intro y hy
    simp only [Discipline.mem_enqueue, List.mem_append] at hy ⊢
    obtain hy | hy := hy
    · obtain hpending | hclosed := h.closed y hy
      · obtain hyx | hpending := List.mem_cons.1 hpending
        · -- the value looked at: its neighbours were seen or are newcomers
          subst hyx
          exact .inr fun z hz => by
            by_cases hseen : z ∈ seen
            · exact .inl hseen
            · exact .inr (mem_newcomers.2 ⟨hz, hseen⟩)
        · exact .inl (.inr hpending)
      · exact .inr fun z hz => .inl (hclosed z hz)
    · exact .inl (.inl hy)

/-- Looking at a value leaves no more to the search than it takes from the bound. -/
theorem room_look {next : α → List α} {seen pending : List α} {x : α} {cap bound : Nat}
    (d : Discipline) (hbound : cap + (x :: pending).length ≤ bound + 1 + seen.length) :
    cap + (d.enqueue (newcomers seen (next x)) pending).length ≤
      bound + (seen ++ newcomers seen (next x)).length := by
  have hlen : (d.enqueue (newcomers seen (next x)) pending).length =
      (newcomers seen (next x)).length + pending.length := by
    cases d <;> simp [Discipline.enqueue, Nat.add_comm]
  rw [hlen]
  simp only [List.length_cons, List.length_append] at hbound ⊢
  omega

omit [DecidableEq α] in
/-- With no bound left nothing is pending. -/
theorem Sound.eq_nil {next : α → List α} {starts seen pending : List α} {cap : Nat}
    (h : Sound next starts seen pending) (hcap : Bounds (Reached next starts) cap)
    (hbound : cap + pending.length ≤ seen.length) : pending = [] := by
  have hlen : seen.length ≤ cap := hcap seen h.nodup h.reached
  exact List.eq_nil_of_length_eq_zero (by omega)

/-- A search with enough bound left ends with nothing pending. -/
theorem sound_continueFrom {next : α → List α} {starts : List α} {cap : Nat}
    (hcap : Bounds (Reached next starts) cap) (d : Discipline) (bound : Nat)
    (seen pending : List α) (h : Sound next starts seen pending)
    (hbound : cap + pending.length ≤ bound + seen.length) :
    Sound next starts (continueFrom d next bound seen pending) [] := by
  induction bound generalizing seen pending with
  | zero =>
      have hnil := h.eq_nil hcap (by omega)
      rw [continueFrom]
      exact hnil ▸ h
  | succ bound ih =>
      cases pending with
      | nil => rw [continueFrom]; exact h
      | cons x pending =>
          rw [continueFrom]
          exact ih _ _ (h.look d) (room_look d hbound)

/-- Continues a search that fails where the bound runs out with values pending. -/
def continueFrom? (d : Discipline) (next : α → List α) :
    Nat → List α → List α → Option (List α)
  | _, seen, [] => some seen
  | 0, _, _ :: _ => none
  | bound + 1, seen, x :: pending =>
    let fresh := newcomers seen (next x)
    continueFrom? d next bound (seen ++ fresh) (d.enqueue fresh pending)

/-- A search with enough bound left does not run out of it. -/
theorem continueFrom?_eq_some {next : α → List α} {starts : List α} {cap : Nat}
    (hcap : Bounds (Reached next starts) cap) (d : Discipline) (bound : Nat)
    (seen pending : List α) (h : Sound next starts seen pending)
    (hbound : cap + pending.length ≤ bound + seen.length) :
    continueFrom? d next bound seen pending = some (continueFrom d next bound seen pending) := by
  induction bound generalizing seen pending with
  | zero =>
      obtain rfl := h.eq_nil hcap (by omega)
      rfl
  | succ bound ih =>
      cases pending with
      | nil => rfl
      | cons x pending =>
          rw [continueFrom, continueFrom?]
          exact ih _ _ (h.look d) (room_look d hbound)

/-- A search is over where no pending value leads to a new one. -/
theorem continueFrom_of_closed (d : Discipline) {next : α → List α} (bound : Nat)
    {seen pending : List α} (h : ∀ x ∈ pending, ∀ y ∈ next x, y ∈ seen) :
    continueFrom d next bound seen pending = seen := by
  induction bound generalizing pending with
  | zero => rfl
  | succ bound ih =>
      cases pending with
      | nil => rfl
      | cons x pending =>
          have hnone : newcomers seen (next x) = [] := by
            simpa [List.eq_nil_iff_forall_not_mem, mem_newcomers] using h x List.mem_cons_self
          have hpending : d.enqueue [] pending = pending := by cases d <;> simp [Discipline.enqueue]
          rw [continueFrom, hnone, hpending, List.append_nil]
          exact ih fun y hy => h y (List.mem_cons_of_mem x hy)

/-! ## What a search finds -/

section Explore

variable {next : α → List α} {starts : List α} {bound : Nat}

/-- At the start the starting values are seen and pending. -/
theorem sound_start (d : Discipline) (next : α → List α) (starts : List α) :
    Sound next starts starts.eraseDups (d.enqueue starts.eraseDups []) where
  nodup := Distinct.nodup_eraseDups starts
  reached x hx := reached_of_mem (List.mem_eraseDups.1 hx)
  pending_seen x hx := by simpa [Discipline.mem_enqueue] using hx
  closed x hx := .inl (Discipline.mem_enqueue.2 (.inl hx))

omit [DecidableEq α] in
theorem length_enqueue_nil (d : Discipline) (xs : List α) :
    (d.enqueue xs []).length = xs.length := by
  cases d <;> simp [Discipline.enqueue]

theorem sound_explore (d : Discipline) (h : Bounds (Reached next starts) bound) :
    Sound next starts (explore d next bound starts) [] :=
  sound_continueFrom h d bound _ _ (sound_start d next starts)
    (Nat.le_of_eq (by rw [length_enqueue_nil]))

/-- The search that fails where the bound runs out with values pending. -/
def explore? (d : Discipline) (next : α → List α) (bound : Nat) (starts : List α) :
    Option (List α) :=
  let seen := starts.eraseDups
  continueFrom? d next bound seen (d.enqueue seen [])

/-- **A search ends** before a bound that is not too small. -/
theorem explore?_eq_some (d : Discipline) (h : Bounds (Reached next starts) bound) :
    explore? d next bound starts = some (explore d next bound starts) :=
  continueFrom?_eq_some h d bound _ _ (sound_start d next starts)
    (Nat.le_of_eq (by rw [length_enqueue_nil]))

/-- Nothing is found twice. -/
theorem nodup_explore (d : Discipline) (h : Bounds (Reached next starts) bound) :
    (explore d next bound starts).Nodup := (sound_explore d h).nodup

/-- What is found is closed under neighbours. -/
theorem next_mem_explore {d : Discipline} (h : Bounds (Reached next starts) bound) {x y : α}
    (hx : x ∈ explore d next bound starts) (hy : y ∈ next x) :
    y ∈ explore d next bound starts := by
  obtain hpending | hclosed := (sound_explore d h).closed x hx
  · exact absurd hpending (by simp)
  · exact hclosed y hy

theorem prefix_continueFrom (d : Discipline) (next : α → List α) (bound : Nat)
    (seen pending : List α) : seen <+: continueFrom d next bound seen pending := by
  induction bound generalizing seen pending with
  | zero => exact List.prefix_rfl
  | succ bound ih =>
      cases pending with
      | nil => exact List.prefix_rfl
      | cons x pending => exact (List.prefix_append _ _).trans (ih _ _)

/-- The starting values are found first. -/
theorem prefix_explore (d : Discipline) (next : α → List α) (bound : Nat) (starts : List α) :
    starts.eraseDups <+: explore d next bound starts := prefix_continueFrom d next bound _ _

/-- Distinct starting values that lead to no others are all that is found. -/
theorem explore_of_closed (d : Discipline) (bound : Nat) (hnodup : starts.Nodup)
    (h : ∀ x ∈ starts, ∀ y ∈ next x, y ∈ starts) : explore d next bound starts = starts := by
  have hclosed : explore d next bound starts = starts.eraseDups := by
    apply continueFrom_of_closed
    simpa [Discipline.mem_enqueue] using h
  rw [hclosed, Distinct.eraseDups_of_nodup hnodup]

/-- **What is found** is exactly what can be reached. -/
theorem mem_explore_iff {d : Discipline} (h : Bounds (Reached next starts) bound) {x : α} :
    x ∈ explore d next bound starts ↔ Reached next starts x := by
  constructor
  · exact (sound_explore d h).reached x
  · apply Reached.induct
    · intro s hs
      exact (prefix_explore d next bound starts).subset (List.mem_eraseDups.2 hs)
    · exact fun _ _ hx hy => next_mem_explore h hx hy

end Explore

/-! ## One neighbour at a time -/

omit [DecidableEq α] in
theorem Discipline.enqueue_append_singleton (d : Discipline) (fresh pending : List α) (x : α) :
    d.enqueue (fresh ++ [x]) pending = d.enqueue [x] (d.enqueue fresh pending) := by
  cases d with
  | firstFirst => simp [enqueue]
  | lastFirst => simp [enqueue]

/-- Adds one neighbour to the values seen and pending, unless it was seen before. -/
def Discipline.note (d : Discipline) (found : List α × List α) (x : α) : List α × List α :=
  if x ∈ found.1 then found else (found.1 ++ [x], d.enqueue [x] found.2)

/-- One more neighbour is a newcomer if it was neither seen nor listed before. -/
theorem newcomers_append_singleton (seen xs : List α) (x : α) :
    newcomers seen (xs ++ [x]) =
      if x ∈ seen ++ newcomers seen xs then newcomers seen xs else newcomers seen xs ++ [x] := by
  have hmem : x ∈ seen ++ newcomers seen xs ↔ x ∈ seen ∨ x ∈ xs.removeAll seen := by
    rw [List.mem_append, newcomers, List.mem_eraseDups]
  simp only [hmem]
  by_cases hseen : x ∈ seen
  · simp [newcomers, List.removeAll, hseen]
  · have hlast : (xs ++ [x]).removeAll seen = xs.removeAll seen ++ [x] := by
      simp [List.removeAll, hseen]
    simp only [newcomers, hlast, Distinct.eraseDups_append_singleton, hseen, false_or]

/-- What looking at a value adds is what its neighbours add in order, each tested against all
that were added before it. -/
theorem foldl_note (d : Discipline) (seen pending xs : List α) :
    xs.foldl d.note (seen, pending) =
      (seen ++ newcomers seen xs, d.enqueue (newcomers seen xs) pending) := by
  induction xs using List.reverseRecOn with
  | nil => cases d <;> simp [newcomers, List.removeAll, Discipline.enqueue]
  | append_singleton xs x ih =>
      rw [List.foldl_append, ih, newcomers_append_singleton]
      by_cases hx : x ∈ seen ++ newcomers seen xs
      · simp [Discipline.note, hx]
      · simp [Discipline.note, hx, d.enqueue_append_singleton]

/-- Whether the search that notes one neighbour at a time, for as long as values are pending,
ends with the values found. -/
inductive Ends (d : Discipline) (next : α → List α) : List α → List α → List α → Prop where
  | done (seen : List α) : Ends d next seen [] seen
  | look {seen pending found : List α} {x : α}
      (rest : Ends d next ((next x).foldl d.note (seen, pending)).1
        ((next x).foldl d.note (seen, pending)).2 found) :
      Ends d next seen (x :: pending) found

theorem ends_of_continueFrom? {d : Discipline} {next : α → List α} {bound : Nat}
    {seen pending found : List α} (h : continueFrom? d next bound seen pending = some found) :
    Ends d next seen pending found := by
  fun_induction continueFrom? d next bound seen pending with
  | case1 => exact Option.some.inj h ▸ .done _
  | case2 => cases h
  | case3 bound seen x pending fresh ih => exact .look (by rw [foldl_note]; exact ih h)

/-- **The search by single neighbours** ends, and with what is found within a bound that is
not too small. -/
theorem ends_explore (d : Discipline) {next : α → List α} {starts : List α} {bound : Nat}
    (h : Bounds (Reached next starts) bound) :
    Ends d next starts.eraseDups (d.enqueue starts.eraseDups []) (explore d next bound starts) :=
  ends_of_continueFrom? (explore?_eq_some d h)

end FormalMachines.Worklist
