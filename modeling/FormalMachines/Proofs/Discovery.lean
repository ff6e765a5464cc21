import FormalMachines.Proofs.Distinct
import FormalMachines.Proofs.Worklist

/-!
# FormalMachines.Proofs.Discovery

The order in which a search finds its values, if it looks first at what it found first.

Such a search lists the starting values, and then the neighbours of what it lists, value by
value and each once.  `Discovers` says so of a list in one equation, without a search; what
the search finds satisfies it (`discovers_explore`), and no other list does
(`Discovers.unique`).

So two searches are compared by their neighbours alone: if the values of one are views of the
values of the other, and neighbours are views of neighbours, it finds the views in the order
in which the other finds the first value of each (`explore_filterMap`).  It does not matter
how many values a view has, nor which values have none.
-/

namespace FormalMachines.Worklist

section Order

variable {α : Type} [DecidableEq α] {next : α → List α} {starts l k front : List α}

/-- What some values discover after the starting ones, each once. -/
def discovered (next : α → List α) (starts looked : List α) : List α :=
  (starts ++ looked.flatMap next).eraseDups

/-- Whether a list discovers itself, and nothing that cannot be reached is in it. -/
structure Discovers (next : α → List α) (starts l : List α) : Prop where
  eq : discovered next starts l = l
  reached : ∀ x ∈ l, Reached next starts x

theorem mem_discovered {x : α} :
    x ∈ discovered next starts l ↔ x ∈ starts ∨ ∃ y ∈ l, x ∈ next y := by
  simp [discovered]

/-- Looking at more values adds the newcomers. -/
theorem discovered_append (next : α → List α) (starts front rest : List α) :
    discovered next starts (front ++ rest) =
      discovered next starts front ++
        newcomers (discovered next starts front) (rest.flatMap next) := by
  have hseen : (rest.flatMap next).removeAll (starts ++ front.flatMap next) =
      (rest.flatMap next).removeAll (discovered next starts front) := by
    simp [discovered, List.removeAll]
  rw [discovered, List.flatMap_append, ← List.append_assoc, List.eraseDups_append, hseen]
  rfl

theorem discovered_prefix (next : α → List α) (starts : List α) (h : front <+: l) :
    discovered next starts front <+: discovered next starts l := by
  obtain ⟨rest, rfl⟩ := h
  rw [discovered_append]
  exact List.prefix_append _ _

/-! ## What a search finds -/

/-- What a search has seen is what the values discover that it has looked at, and these are
the ones seen first. -/
theorem exists_looked (next : α → List α) (starts : List α) (bound : Nat)
    (looked pending : List α) (h : discovered next starts looked = looked ++ pending) :
    ∃ front, front <+: continueFrom .firstFirst next bound (looked ++ pending) pending ∧
      discovered next starts front =
        continueFrom .firstFirst next bound (looked ++ pending) pending := by
  induction bound generalizing looked pending with
  | zero => exact ⟨looked, List.prefix_append _ _, h⟩
  | succ bound ih =>
      cases pending with
      | nil => exact ⟨looked, List.prefix_append _ _, h⟩
      | cons x pending =>
          have hmore := discovered_append next starts looked [x]
          rw [h, List.flatMap_singleton] at hmore
          simpa [continueFrom, Discipline.enqueue] using ih (looked ++ [x])
            (pending ++ newcomers (looked ++ x :: pending) (next x)) (by simpa using hmore)

/-- **What a search finds** discovers itself. -/
theorem discovers_explore {bound : Nat} (hbound : Bounds (Reached next starts) bound) :
    Discovers next starts (explore .firstFirst next bound starts) := by
  constructor
  · have hstart : discovered next starts [] = starts.eraseDups := by simp [discovered]
    obtain ⟨front, ⟨rest, hrest⟩, heq⟩ := exists_looked next starts bound [] starts.eraseDups hstart
    have hfound : continueFrom .firstFirst next bound ([] ++ starts.eraseDups) starts.eraseDups =
        explore .firstFirst next bound starts := rfl
    rw [hfound] at hrest heq
    -- what is found is closed, so the values not looked at have no newcomers
    have hnone : newcomers (explore .firstFirst next bound starts) (rest.flatMap next) = [] := by
      apply List.eq_nil_iff_forall_not_mem.2
      intro y hy
      obtain ⟨hy, hnew⟩ := mem_newcomers.1 hy
      obtain ⟨x, hx, hy⟩ := List.mem_flatMap.1 hy
      have hx : x ∈ explore .firstFirst next bound starts :=
        hrest ▸ List.mem_append_right front hx
      exact hnew (next_mem_explore hbound hx hy)
    have hmore := discovered_append next starts front rest
    rw [hrest, heq, hnone, List.append_nil] at hmore
    exact hmore
  · exact (sound_explore .firstFirst hbound).reached

/-! ## Only one list discovers itself -/

theorem Discovers.nodup (h : Discovers next starts l) : l.Nodup :=
  h.eq ▸ Distinct.nodup_eraseDups _

/-- A part of a list that discovers itself discovers more than itself. -/
theorem Discovers.length_lt (h : Discovers next starts l) (hfront : front <+: l)
    (hne : front ≠ l) : front.length < (discovered next starts front).length := by
  by_contra hle
  have hprefix := discovered_prefix next starts hfront
  rw [h.eq] at hprefix
  have hclosed := (List.prefix_of_prefix_length_le hprefix hfront (by omega)).subset
  have hall : ∀ x, Reached next starts x → x ∈ front := fun x hx => hx.induct
    (fun s hs => hclosed (mem_discovered.2 (.inl hs)))
    (fun y z hy hz => hclosed (mem_discovered.2 (.inr ⟨y, hy, hz⟩)))
  have hlength := (h.nodup.subperm fun x hx => hall x (h.reached x hx)).length_le
  exact hne (hfront.eq_of_length (Nat.le_antisymm hfront.length_le hlength))

theorem Discovers.isPrefix (hl : Discovers next starts l) (hk : Discovers next starts k) :
    l <+: k := by
  have hparts : ∀ front, front <+: l → front <+: k := by
    intro front
    induction front using List.reverseRecOn with
    | nil => exact fun _ => List.nil_prefix
    | append_singleton front x ih =>
        intro hx
        have hfront : front <+: l := (List.prefix_append front [x]).trans hx
        have hne : front ≠ l := by
          intro heq
          have hlength := hx.length_le
          rw [heq, List.length_append, List.length_singleton] at hlength
          omega
        have hlength : (front ++ [x]).length ≤ (discovered next starts front).length := by
          rw [List.length_append, List.length_singleton]
          exact hl.length_lt hfront hne
        have hprefix := discovered_prefix next starts hfront
        have hprefix' := discovered_prefix next starts (ih hfront)
        rw [hl.eq] at hprefix
        rw [hk.eq] at hprefix'
        exact (List.prefix_of_prefix_length_le hx hprefix hlength).trans hprefix'
  exact hparts l List.prefix_rfl

theorem Discovers.unique (hl : Discovers next starts l) (hk : Discovers next starts k) : l = k :=
  (hl.isPrefix hk).eq_of_length
    (Nat.le_antisymm (hl.isPrefix hk).length_le (hk.isPrefix hl).length_le)

end Order

/-! ## Views -/

section Views

variable {α β : Type} {next : α → List α} {next' : β → List β} {view : α → Option β}
  {starts : List α}

/-- Views of what can be reached can be reached, if neighbours are views of neighbours. -/
theorem reached_of_view
    (hnext : ∀ x, Reached next starts x →
      (next x).filterMap view = (view x).toList.flatMap next')
    {x : α} (hx : Reached next starts x) {y : β} (hy : view x = some y) :
    Reached next' (starts.filterMap view) y := by
  have hboth : Reached next starts x ∧
      ∀ y, view x = some y → Reached next' (starts.filterMap view) y := by
    apply hx.induct (P := fun x => Reached next starts x ∧
      ∀ y, view x = some y → Reached next' (starts.filterMap view) y)
    · exact fun s hs => ⟨reached_of_mem hs, fun y hy =>
        reached_of_mem (List.mem_filterMap.2 ⟨s, hs, hy⟩)⟩
    · intro x z ⟨hx, hviews⟩ hz
      refine ⟨hx.next hz, fun y hy => ?_⟩
      have hmem : y ∈ (next x).filterMap view := List.mem_filterMap.2 ⟨z, hz, hy⟩
      rw [hnext x hx] at hmem
      obtain ⟨w, hw, hy⟩ := List.mem_flatMap.1 hmem
      exact (hviews w (Option.mem_toList.1 hw)).next hy
  exact hboth.2 y hy

variable [DecidableEq α] [DecidableEq β]

/-- **A search among views** finds them in the order in which a search among the values finds
the first value of each. -/
theorem explore_filterMap {bound bound' : Nat} (hbound : Bounds (Reached next starts) bound)
    (hbound' : Bounds (Reached next' (starts.filterMap view)) bound')
    (hnext : ∀ x, Reached next starts x →
      (next x).filterMap view = (view x).toList.flatMap next') :
    explore .firstFirst next' bound' (starts.filterMap view) =
      ((explore .firstFirst next bound starts).filterMap view).eraseDups := by
  have hl := discovers_explore hbound
  apply (discovers_explore hbound').unique
  constructor
  · have hviews : ((explore .firstFirst next bound starts).filterMap view).flatMap next' =
        ((explore .firstFirst next bound starts).flatMap next).filterMap view := by
      rw [List.filterMap_flatMap, List.filterMap_eq_flatMap_toList, List.flatMap_assoc]
      exact List.flatMap_congr fun x hx => (hnext x (hl.reached x hx)).symm
    rw [discovered, Distinct.eraseDups_append_flatMap, hviews, ← List.filterMap_append,
      ← Distinct.eraseDups_filterMap]
    exact congrArg (fun l : List α => (l.filterMap view).eraseDups) hl.eq
  · intro y hy
    obtain ⟨x, hx, hy⟩ := List.mem_filterMap.1 (List.mem_eraseDups.1 hy)
    exact reached_of_view hnext (hl.reached x hx) hy

end Views

end FormalMachines.Worklist
