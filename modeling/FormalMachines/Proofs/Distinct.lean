import FormalMachines.Text.Basic
import Mathlib.Data.List.Induction
import Mathlib.Data.List.Nodup

/-!
# FormalMachines.Proofs.Distinct

The first of every class of a list's members.

Where members count as the same if they are equal, what is kept is distinct
(`nodup_eraseDups`) and in the order of first occurrence (`pairwise_idxOf_eraseDups`), and what
it is when lists are appended, expanded or filtered depends on the distinct members alone
(`eraseDups_append_flatMap`, `filter_eraseDups`).

Where members count as the same if some view of them is equal, the views of what is kept are
the distinct views (`map_eraseDupsBy`); nothing is added (`mem_of_mem_eraseDupsBy`), no
class is lost (`exists_mem_eraseDupsBy`), and each is kept by its first member
(`head?_filter_of_mem_eraseDupsBy`).
-/

namespace FormalMachines.Distinct

/-! ## Members that count as the same if they are equal -/

section Equal

variable {γ δ : Type} [BEq γ] [LawfulBEq γ] [BEq δ] [LawfulBEq δ] {xs ys : List γ}

theorem nodup_eraseDups (xs : List γ) : xs.eraseDups.Nodup := by
  match xs with
  | [] => exact List.nodup_nil
  | y :: ys =>
      rw [List.eraseDups_cons, List.nodup_cons]
      constructor
      · intro hmem
        have hne := (List.mem_filter.1 (List.mem_eraseDups.1 hmem)).2
        simp at hne
      · exact nodup_eraseDups _
termination_by xs.length
decreasing_by exact Nat.lt_succ_of_le (List.length_filter_le _ _)

theorem eraseDups_append_of_subset (xs : List γ) (h : ∀ y ∈ ys, y ∈ xs) :
    (xs ++ ys).eraseDups = xs.eraseDups := by
  have hnone : ys.removeAll xs = [] := by
    simpa [List.removeAll, List.filter_eq_nil_iff] using h
  rw [List.eraseDups_append, hnone, List.eraseDups_nil, List.append_nil]

theorem eraseDups_append_congr (h : xs.eraseDups = ys.eraseDups) (zs : List γ) :
    (xs ++ zs).eraseDups = (ys ++ zs).eraseDups := by
  have hmem : ∀ z, z ∈ xs ↔ z ∈ ys := fun z => by
    rw [← List.mem_eraseDups, h, List.mem_eraseDups]
  have hremove : zs.removeAll xs = zs.removeAll ys := by
    simp only [List.removeAll]
    apply List.filter_congr
    intro z _
    simp [hmem]
  rw [List.eraseDups_append, List.eraseDups_append, h, hremove]

/-- One more member is kept if it is new. -/
theorem eraseDups_append_singleton (xs : List γ) (x : γ) :
    (xs ++ [x]).eraseDups = if x ∈ xs then xs.eraseDups else xs.eraseDups ++ [x] := by
  by_cases hx : x ∈ xs
  · rw [if_pos hx]
    exact eraseDups_append_of_subset xs fun y hy => List.mem_singleton.1 hy ▸ hx
  · have hremove : [x].removeAll xs = [x] := by simp [List.removeAll, hx]
    rw [if_neg hx, List.eraseDups_append, hremove]
    rfl

theorem eraseDups_of_nodup (h : xs.Nodup) : xs.eraseDups = xs := by
  induction xs using List.reverseRecOn with
  | nil => rfl
  | append_singleton xs x ih =>
      have hx : x ∉ xs := fun hx => (List.nodup_append.1 h).2.2 x hx x (by simp) rfl
      rw [eraseDups_append_singleton, if_neg hx, ih (List.nodup_append.1 h).1]

/-- Distinct members stand in the order in which they first occur. -/
theorem pairwise_idxOf_eraseDups (xs : List γ) :
    xs.eraseDups.Pairwise fun x y => xs.idxOf x < xs.idxOf y := by
  induction xs using List.reverseRecOn with
  | nil => exact .nil
  | append_singleton xs x ih =>
      have hold : ∀ y ∈ xs, (xs ++ [x]).idxOf y = xs.idxOf y :=
        fun y hy => List.idxOf_append_of_mem hy
      have hfront : xs.eraseDups.Pairwise fun y z => (xs ++ [x]).idxOf y < (xs ++ [x]).idxOf z := by
        refine ih.imp_of_mem fun hy hz hlt => ?_
        rwa [hold _ (List.mem_eraseDups.1 hy), hold _ (List.mem_eraseDups.1 hz)]
      rw [eraseDups_append_singleton]
      split
      · exact hfront
      · next hx =>
          refine List.pairwise_append.2 ⟨hfront, List.pairwise_singleton _ x, fun y hy z hz => ?_⟩
          have hy : y ∈ xs := List.mem_eraseDups.1 hy
          rw [List.mem_singleton.1 hz, hold y hy, List.idxOf_append_of_notMem hx]
          exact Nat.lt_add_right _ (List.idxOf_lt_length_of_mem hy)

/-- What is listed for the members is listed for the distinct ones. -/
theorem eraseDups_append_flatMap (zs : List δ) (xs : List γ) (f : γ → List δ) :
    (zs ++ xs.eraseDups.flatMap f).eraseDups = (zs ++ xs.flatMap f).eraseDups := by
  induction xs using List.reverseRecOn with
  | nil => rfl
  | append_singleton xs x ih =>
      rw [eraseDups_append_singleton, List.flatMap_append, List.flatMap_singleton,
        ← List.append_assoc]
      by_cases hx : x ∈ xs
      · rw [if_pos hx, ih]
        exact (eraseDups_append_of_subset _ fun y hy =>
          List.mem_append_right zs (List.mem_flatMap.2 ⟨x, hx, hy⟩)).symm
      · rw [if_neg hx, List.flatMap_append, List.flatMap_singleton, ← List.append_assoc]
        exact eraseDups_append_congr ih (f x)

theorem eraseDups_filterMap (xs : List γ) (f : γ → Option δ) :
    (xs.eraseDups.filterMap f).eraseDups = (xs.filterMap f).eraseDups := by
  have h := eraseDups_append_flatMap [] xs fun x => (f x).toList
  simpa only [List.nil_append, ← List.filterMap_eq_flatMap_toList] using h

theorem filter_eraseDups (xs : List γ) (p : γ → Bool) :
    (xs.filter p).eraseDups = xs.eraseDups.filter p := by
  have h := eraseDups_filterMap xs (Option.guard p)
  rw [List.filterMap_eq_filter] at h
  rw [← h, eraseDups_of_nodup ((nodup_eraseDups xs).filter p)]

end Equal

/-! ## Members that count as the same if a view of them is equal -/

section View

variable {α β : Type} [DecidableEq β] (f : α → β)

theorem mem_of_mem_eraseDupsBy {xs : List α} {x : α}
    (h : x ∈ xs.eraseDupsBy fun a b => f a = f b) : x ∈ xs := by
  match xs with
  | [] => exact h
  | y :: ys =>
      rw [List.eraseDupsBy_cons] at h
      obtain hx | hx := List.mem_cons.1 h
      · simp [hx]
      · have hfilter := mem_of_mem_eraseDupsBy hx
        exact List.mem_cons_of_mem y (List.mem_filter.1 hfilter).1
termination_by xs.length
decreasing_by exact Nat.lt_succ_of_le (List.length_filter_le _ _)

theorem exists_mem_eraseDupsBy {xs : List α} {x : α} (h : x ∈ xs) :
    ∃ y ∈ xs.eraseDupsBy fun a b => f a = f b, f y = f x := by
  match xs with
  | y :: ys =>
      rw [List.eraseDupsBy_cons]
      by_cases hxy : f x = f y
      · exact ⟨y, by simp, hxy.symm⟩
      · have hmem : x ∈ ys := by
          obtain hx | hx := List.mem_cons.1 h
          · exact absurd (congrArg f hx) hxy
          · exact hx
        have hrest : x ∈ ys.filter fun b => decide (f b = f y) = false :=
          List.mem_filter.2 ⟨hmem, by simpa using hxy⟩
        obtain ⟨z, hz, hzx⟩ := exists_mem_eraseDupsBy hrest
        exact ⟨z, List.mem_cons_of_mem y hz, hzx⟩
termination_by xs.length
decreasing_by exact Nat.lt_succ_of_le (List.length_filter_le _ _)

/-- What is kept is the first of its class. -/
theorem head?_filter_of_mem_eraseDupsBy {xs : List α} {x : α}
    (h : x ∈ xs.eraseDupsBy fun a b => f a = f b) :
    (xs.filter fun b => f b = f x).head? = some x := by
  match xs with
  | [] => exact absurd h List.not_mem_nil
  | y :: ys =>
      rw [List.eraseDupsBy_cons] at h
      obtain hx | hx := List.mem_cons.1 h
      · rw [hx, List.filter_cons_of_pos (by simp), List.head?_cons]
      · -- a member of a later class: leaving out the first class leaves out none of its own
        have hne : f x ≠ f y := by
          simpa using (List.mem_filter.1 (mem_of_mem_eraseDupsBy f hx)).2
        have hrest := head?_filter_of_mem_eraseDupsBy hx
        rw [List.filter_filter] at hrest
        rw [List.filter_cons_of_neg (by simpa using hne.symm), ← hrest]
        congr 1
        apply List.filter_congr
        intro z _
        by_cases hz : f z = f x <;> simp [hz, hne]
termination_by xs.length
decreasing_by exact Nat.lt_succ_of_le (List.length_filter_le _ _)

/-- One more member is kept if it is the first of its class. -/
theorem eraseDupsBy_append_singleton (xs : List α) (x : α) :
    ((xs ++ [x]).eraseDupsBy fun a b => f a = f b) =
      if f x ∈ xs.map f then xs.eraseDupsBy fun a b => f a = f b
      else (xs.eraseDupsBy fun a b => f a = f b) ++ [x] := by
  match xs with
  | [] => rfl
  | y :: ys =>
      rw [List.cons_append, List.eraseDupsBy_cons, List.eraseDupsBy_cons, List.filter_append]
      by_cases hxy : f x = f y
      · simp [hxy]
      · have hlast : ([x].filter fun b => decide (f b = f y) = false) = [x] := by simp [hxy]
        have hmem : f x ∈ (ys.filter fun b => decide (f b = f y) = false).map f ↔
            f x ∈ (y :: ys).map f := by
          simp only [List.map_cons, List.mem_cons, hxy, false_or, List.mem_map, List.mem_filter]
          grind
        rw [hlast, eraseDupsBy_append_singleton]
        simp only [hmem]
        split <;> rfl
termination_by xs.length
decreasing_by exact Nat.lt_succ_of_le (List.length_filter_le _ _)

/-- The views of what is kept are the first of the views. -/
theorem map_eraseDupsBy [BEq β] [LawfulBEq β] (xs : List α) :
    (xs.eraseDupsBy fun a b => f a = f b).map f = (xs.map f).eraseDups := by
  match xs with
  | [] => rfl
  | x :: xs =>
      have hrest := map_eraseDupsBy (xs.filter fun b => decide (f b = f x) = false)
      rw [List.eraseDupsBy_cons, List.map_cons, hrest, List.map_cons, List.eraseDups_cons]
      congr 2
      rw [List.filter_map]
      congr 1
      apply List.filter_congr
      intro y _
      by_cases h : f y = f x <;> simp [h]
termination_by xs.length
decreasing_by exact Nat.lt_succ_of_le (List.length_filter_le _ _)

theorem nodup_map_eraseDupsBy (xs : List α) :
    ((xs.eraseDupsBy fun a b => f a = f b).map f).Nodup := by
  rw [map_eraseDupsBy]
  exact nodup_eraseDups _

/-- Distinct members are kept, and copies after them are not. -/
theorem eraseDupsBy_append_of_subset {xs ys : List α} (hnodup : (xs.map f).Nodup)
    (h : ∀ y ∈ ys, y ∈ xs) : ((xs ++ ys).eraseDupsBy fun a b => f a = f b) = xs := by
  induction xs generalizing ys with
  | nil =>
      rw [List.eq_nil_iff_forall_not_mem.2 fun y hy => List.not_mem_nil (h y hy)]
      rfl
  | cons x xs ih =>
      obtain ⟨hnew, hnodup⟩ := List.nodup_cons.1 hnodup
      have hxs : (xs.filter fun b => decide (f b = f x) = false) = xs := by
        apply List.filter_eq_self.2
        intro y hy
        have hne : f y ≠ f x := fun heq => hnew (heq ▸ List.mem_map_of_mem hy)
        simp [hne]
      have hys : ∀ y ∈ ys.filter fun b => decide (f b = f x) = false, y ∈ xs := by
        intro y hy
        obtain ⟨hy, hne⟩ := List.mem_filter.1 hy
        obtain rfl | hy := List.mem_cons.1 (h y hy)
        · simp at hne
        · exact hy
      rw [List.cons_append, List.eraseDupsBy_cons, List.filter_append, hxs, ih hnodup hys]

end View

/-! ## Texts -/

/-- Of texts the same are kept whether they are compared as lists or by deciding if they are
equal. -/
theorem eraseDups_texts (texts : List Text) :
    @List.eraseDups Text instBEqOfDecidableEq texts = texts.eraseDups := by
  rw [lawful_beq_subsingleton instBEqOfDecidableEq (List.instBEq : BEq Text)]

end FormalMachines.Distinct
