import FormalMachines.Declaration
import FormalMachines.Json.Fields
import Mathlib.Data.List.Forall2

/-!
# FormalMachines.Proofs.Checks

What a definition that passed its checks went through.

A computation that may fail is opened one step at a time (`bind_eq_ok`), a list of them
member by member (`mapM_eq_ok_iff`), and each check of a declaration by what it accepts.
-/

namespace FormalMachines

variable {ε α β : Type}

/-- What a computation that succeeds went through. -/
theorem bind_eq_ok {x : Except ε α} {f : α → Except ε β} {b : β} (h : x >>= f = .ok b) :
    ∃ a, x = .ok a ∧ f a = .ok b := by
  cases x with
  | error e => cases h
  | ok a => exact ⟨a, rfl, h⟩

/-- A condition that a computation that succeeds did not fail for. -/
theorem of_throw_eq_ok {p : Prop} [Decidable p] {e : ε} {f : α → Except ε β} {x : Except ε β}
    {b : β} (h : (if p then throw e >>= f else x) = .ok b) : ¬ p ∧ x = .ok b := by
  by_cases hp : p
  · rw [if_pos hp] at h
    cases h
  · rw [if_neg hp] at h
    exact ⟨hp, h⟩

/-- A list is mapped by computations that succeed one by one. -/
theorem mapM_eq_ok_iff {f : α → Except ε β} {xs : List α} {ys : List β} :
    xs.mapM f = .ok ys ↔ List.Forall₂ (fun x y => f x = .ok y) xs ys := by
  induction xs generalizing ys with
  | nil => cases ys <;> simp [pure, Except.pure]
  | cons x xs ih =>
      rw [List.mapM_cons]
      constructor
      · intro h
        obtain ⟨y, hy, h⟩ := bind_eq_ok h
        obtain ⟨zs, hzs, h⟩ := bind_eq_ok h
        cases h
        exact .cons hy (ih.1 hzs)
      · intro h
        cases h with
        | cons hy hys =>
            rw [hy, ih.2 hys]
            rfl

/-- Each result is that of a member. -/
theorem exists_of_mem_mapM {f : α → Except ε β} {xs : List α} {ys : List β}
    (h : xs.mapM f = .ok ys) {y : β} (hy : y ∈ ys) : ∃ x ∈ xs, f x = .ok y := by
  have hall := mapM_eq_ok_iff.1 h
  clear h
  induction hall with
  | nil => exact absurd hy List.not_mem_nil
  | cons hx _ ih =>
      obtain rfl | hy := List.mem_cons.1 hy
      · exact ⟨_, List.mem_cons_self, hx⟩
      · obtain ⟨x, hmem, hfx⟩ := ih hy
        exact ⟨x, List.mem_cons_of_mem _ hmem, hfx⟩

/-- Results that determine the members give them back. -/
theorem eq_map_of_mapM {f : α → Except ε β} {g : β → α} (hf : ∀ x y, f x = .ok y → x = g y)
    {xs : List α} {ys : List β} (h : xs.mapM f = .ok ys) : xs = ys.map g := by
  have hall := mapM_eq_ok_iff.1 h
  clear h
  induction hall with
  | nil => rfl
  | cons hx _ ih => rw [List.map_cons, ← ih, hf _ _ hx]

/-- Members that give back what they were made of give back the list. -/
theorem mapM_map_eq_ok {f : α → Except ε β} {g : β → α} {xs : List β}
    (hf : ∀ x ∈ xs, f (g x) = .ok x) : (xs.map g).mapM f = .ok xs := by
  induction xs with
  | nil => rfl
  | cons x xs ih =>
      rw [List.map_cons, List.mapM_cons, hf x (by simp), ih fun y hy => hf y (by simp [hy])]
      rfl

/-- Members of which each has a flaw or a result fail with the first flaw or have all results. -/
theorem mapM_map_eq_findSome? {γ κ : Type} {f : α → Except ε β} {g : γ → α} {k : γ → β}
    {flaw : γ → Option κ} {fault : κ → ε}
    (hf : ∀ x, f (g x) = (flaw x).elim (.ok (k x)) (fun e => .error (fault e))) (xs : List γ) :
    (xs.map g).mapM f =
      (xs.findSome? flaw).elim (.ok (xs.map k)) (fun e => .error (fault e)) := by
  induction xs with
  | nil => rfl
  | cons x xs ih =>
      rw [List.map_cons, List.mapM_cons, hf, ih, List.findSome?_cons]
      cases flaw x with
      | some e => rfl
      | none => cases xs.findSome? flaw <;> rfl

/-! ## Members of an object -/

/-- A symbol that was read is not the empty text. -/
theorem Json.Members.ne_nil_of_requireSymbol {members : Json.Members} {key x : Text}
    (h : members.requireSymbol key = .ok x) : x ≠ [] := by
  unfold Json.Members.requireSymbol at h
  split at h
  · next s _ =>
    by_cases hempty : s = []
    · rw [if_pos hempty] at h
      cases h
      decide
    · rw [if_neg hempty] at h
      cases h
      exact hempty
  · cases h

/-- A list of texts reads as those texts. -/
theorem Json.textItems?_texts (ss : List Text) : (Json.texts ss).textItems? = some ss := by
  rw [texts, textItems?]
  induction ss with
  | nil => rfl
  | cons s ss ih =>
      rw [List.map_cons, List.mapM_cons, ih]
      rfl

/-! ## Checks of declarations -/

theorem Json.eq_text_of_text? {v : Json} {s : Text} (h : v.text? = some s) : v = .text s := by
  cases v with
  | atom a =>
      cases a with
      | text t =>
          cases h
          rfl
      | null | bool | integer | float => cases h
  | list | object => cases h

/-- A declared name is a text among the declared ones. -/
theorem of_declaredName {role : Role} {names : List Text} {v : Json} {s : Text}
    (h : declaredName role names v = .ok s) : v = .text s ∧ s ∈ names := by
  unfold declaredName at h
  cases htext : v.text? with
  | none =>
      rw [htext] at h
      cases h
  | some t =>
      simp only [htext] at h
      by_cases ht : t ∈ names
      · rw [if_pos ht] at h
        cases h
        exact ⟨Json.eq_text_of_text? htext, ht⟩
      · rw [if_neg ht] at h
        cases h

theorem of_declaredText {role : Role} {declared : List Atom} {s r : Text}
    (h : declaredText role declared s = .ok r) : r = s ∧ .text s ∈ declared := by
  unfold declaredText at h
  by_cases hs : .text s ∈ declared
  · rw [if_pos hs] at h
    cases h
    exact ⟨rfl, hs⟩
  · rw [if_neg hs] at h
    cases h

theorem of_declaredAtom {role : Role} {declared : List Atom} {v : Json} {a : Atom}
    (h : declaredAtom role declared v = .ok a) : a.isAmong declared := by
  cases v with
  | atom b =>
      rw [declaredAtom] at h
      by_cases hb : b.isAmong declared
      · rw [if_pos hb] at h
        cases h
        exact hb
      · rw [if_neg hb] at h
        cases h
  | list | object => cases h

theorem Json.of_requireAtom {v : Json} {a : Atom} (h : v.requireAtom = .ok a) : v = .atom a := by
  cases v with
  | atom b =>
      cases h
      rfl
  | list | object => cases h

theorem Atom.isAmong_iff {a : Atom} {declared : List Atom} :
    a.isAmong declared ↔ a.key ∈ declared.map (·.key) := by
  simp [Atom.isAmong]

/-- Atoms of which no two are the same symbol. -/
theorem nodup_of_distinctAtoms {collection : Text} {values : List Json} {atoms : List Atom}
    (h : distinctAtoms collection values = .ok atoms) : (atoms.map (·.key)).Nodup := by
  obtain ⟨read, _, h⟩ := bind_eq_ok h
  by_cases hnodup : (read.map (·.key)).Nodup
  · rw [if_pos hnodup] at h
    cases h
    exact hnodup
  · rw [if_neg hnodup] at h
    cases h

/-- What was checked of both ends of all moves holds of all the ends. -/
theorem forall_mem_ends {μ : Type} {p : Text → Prop} {source target : μ → Text} {moves : List μ}
    (h : ∀ t ∈ moves, p (source t) ∧ p (target t)) :
    ∀ q ∈ moves.flatMap fun t => [source t, target t], p q := by
  intro q hq
  obtain ⟨t, ht, hq⟩ := List.mem_flatMap.1 hq
  simp only [List.mem_cons, List.not_mem_nil, or_false] at hq
  obtain rfl | rfl := hq
  · exact (h t ht).1
  · exact (h t ht).2

end FormalMachines
