import FormalMachines.Text.Basic

/-!
# FormalMachines.Finite.NameSet

Finite sets of names.  A set is the list of its members in increasing order, so equal
sets are equal values (`ext`); `∈` is the view under which the operations are stated.
-/

namespace FormalMachines.Finite

/-- A finite set of names. -/
structure NameSet where
  toList : List Text
  sorted : toList.Pairwise (· < ·)
  deriving DecidableEq

namespace NameSet

instance : Membership Text NameSet := ⟨fun s x => x ∈ s.toList⟩

theorem mem_toList {s : NameSet} {x : Text} : x ∈ s.toList ↔ x ∈ s := Iff.rfl

instance (x : Text) (s : NameSet) : Decidable (x ∈ s) :=
  inferInstanceAs (Decidable (x ∈ s.toList))

def empty : NameSet := ⟨[], .nil⟩

def isEmpty (s : NameSet) : Bool := s.toList.isEmpty

/-- Inserts into an increasing list. -/
def insertSorted (x : Text) : List Text → List Text
  | [] => [x]
  | y :: ys => if x < y then x :: y :: ys else if x = y then y :: ys else y :: insertSorted x ys

theorem mem_insertSorted {x z : Text} {l : List Text} :
    z ∈ insertSorted x l ↔ z = x ∨ z ∈ l := by
  induction l with
  | nil => simp [insertSorted]
  | cons y ys ih =>
    simp only [insertSorted]
    split
    · simp
    · split
      · next h => subst h; simp
      · simp only [List.mem_cons, ih]
        grind

theorem insertSorted_sorted {x : Text} {l : List Text} (h : l.Pairwise (· < ·)) :
    (insertSorted x l).Pairwise (· < ·) := by
  induction l with
  | nil => simp [insertSorted]
  | cons y ys ih =>
    obtain ⟨hy, hys⟩ := List.pairwise_cons.1 h
    simp only [insertSorted]
    split
    · next hxy =>
      refine List.pairwise_cons.2 ⟨fun z hz => ?_, h⟩
      rcases List.mem_cons.1 hz with rfl | hz
      · exact hxy
      · exact List.lt_trans hxy (hy z hz)
    · split
      · exact h
      · next hxy hne =>
        refine List.pairwise_cons.2 ⟨fun z hz => ?_, ih hys⟩
        rcases mem_insertSorted.1 hz with rfl | hz
        · rcases List.le_total z y with hle | hle
          · exact absurd (List.le_antisymm hle (List.not_lt.1 hxy)) hne
          · exact Decidable.byContradiction fun hn =>
              hne (List.le_antisymm (List.not_lt.1 hn) hle)
        · exact hy z hz

def insert (x : Text) (s : NameSet) : NameSet :=
  ⟨insertSorted x s.toList, insertSorted_sorted s.sorted⟩

@[simp] theorem mem_insert {x z : Text} {s : NameSet} : z ∈ s.insert x ↔ z = x ∨ z ∈ s :=
  mem_insertSorted

/-- The set of the names in a list. -/
def ofList (xs : List Text) : NameSet := xs.foldr insert empty

@[simp] theorem mem_ofList {z : Text} {xs : List Text} : z ∈ ofList xs ↔ z ∈ xs := by
  induction xs with
  | nil => exact Iff.rfl
  | cons x xs ih => simp [ofList, ← ih]

/-- Sets with the same members are equal. -/
theorem ext {s t : NameSet} (h : ∀ x, x ∈ s ↔ x ∈ t) : s = t := by
  obtain ⟨xs, hx⟩ := s
  obtain ⟨ys, hy⟩ := t
  have key : ∀ {xs ys : List Text}, xs.Pairwise (· < ·) → ys.Pairwise (· < ·) →
      (∀ x, x ∈ xs ↔ x ∈ ys) → xs = ys := by
    intro xs
    induction xs with
    | nil =>
      intro ys _ _ h
      exact (List.eq_nil_iff_forall_not_mem.2 fun y hy => by simpa using (h y).2 hy).symm
    | cons x xs ih =>
      intro ys hx hy h
      cases ys with
      | nil => simpa using (h x).1 (by simp)
      | cons y ys =>
        obtain ⟨hx1, hx2⟩ := List.pairwise_cons.1 hx
        obtain ⟨hy1, hy2⟩ := List.pairwise_cons.1 hy
        have hxy : x = y := by
          rcases List.mem_cons.1 ((h x).1 (by simp)) with e | hin
          · exact e
          · rcases List.mem_cons.1 ((h y).2 (by simp)) with e | hin'
            · exact e.symm
            · exact absurd (List.lt_trans (hy1 x hin) (hx1 y hin')) (List.lt_irrefl _)
        subst hxy
        congr 1
        refine ih hx2 hy2 fun z => ⟨fun hz => ?_, fun hz => ?_⟩
        · rcases List.mem_cons.1 ((h z).1 (by simp [hz])) with e | hz'
          · exact absurd (e ▸ hx1 z hz) (List.lt_irrefl _)
          · exact hz'
        · rcases List.mem_cons.1 ((h z).2 (by simp [hz])) with e | hz'
          · exact absurd (e ▸ hy1 z hz) (List.lt_irrefl _)
          · exact hz'
  cases key hx hy h
  rfl

end NameSet

end FormalMachines.Finite
