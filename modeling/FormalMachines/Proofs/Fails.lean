import FormalMachines.Proofs.Checks

/-!
# FormalMachines.Proofs.Fails

Which kinds of fault a computation can come to.

A computation comes to a fault of some kind at its first step, or its first step succeeds and
the rest comes to one (`fails_bind_iff`).  The readers and checks of a definition report what
is wrong with it.  There is one exception: where a symbol is needed, a list or an object is a
fault that nothing reports (`fails_requireAtom_iff`).
-/

namespace FormalMachines

/-- Whether a computation comes to a fault of some kind. -/
def Fails {α : Type} (P : Fault → Prop) (x : Except Fault α) : Prop := ∃ e, x = .error e ∧ P e

variable {α β : Type} {P : Fault → Prop} {x : Except Fault α} {f : α → Except Fault β}

theorem not_fails_ok (a : α) : ¬ Fails P (.ok a) := by
  intro ⟨e, he, _⟩
  cases he

theorem fails_error_iff {e : Fault} : Fails P (.error e : Except Fault α) ↔ P e := by
  constructor
  · intro ⟨e', he, hP⟩
    cases he
    exact hP
  · exact fun hP => ⟨e, rfl, hP⟩

/-! ## Steps and lists -/

theorem fails_bind_iff : Fails P (x >>= f) ↔ Fails P x ∨ ∃ a, x = .ok a ∧ Fails P (f a) := by
  cases x with
  | error e =>
      refine ⟨fun ⟨e', he, hP⟩ => .inl ⟨e', ?_, hP⟩, ?_⟩
      · cases he
        rfl
      · rintro (⟨e', he, hP⟩ | ⟨a, ha, _⟩)
        · cases he
          exact ⟨e, rfl, hP⟩
        · cases ha
  | ok a =>
      refine ⟨fun h => .inr ⟨a, rfl, h⟩, ?_⟩
      rintro (h | ⟨a', ha, h⟩)
      · exact absurd h (not_fails_ok a)
      · cases ha
        exact h

/-- A computation fails at its first step if the rest does not fail. -/
theorem fails_bind_iff_left (hf : ∀ a, ¬ Fails P (f a)) : Fails P (x >>= f) ↔ Fails P x := by
  rw [fails_bind_iff]
  exact or_iff_left fun ⟨a, _, h⟩ => hf a h

/-- A computation fails after its first step if that does not fail. -/
theorem fails_bind_iff_right (hx : ¬ Fails P x) :
    Fails P (x >>= f) ↔ ∃ a, x = .ok a ∧ Fails P (f a) := by
  rw [fails_bind_iff]
  exact or_iff_right hx

theorem not_fails_bind (hx : ¬ Fails P x) (hf : ∀ a, ¬ Fails P (f a)) : ¬ Fails P (x >>= f) := by
  rw [fails_bind_iff_left hf]
  exact hx

theorem fails_mapM_cons_iff {g : α → Except Fault β} {a : α} {xs : List α} :
    Fails P ((a :: xs).mapM g) ↔
      Fails P (g a) ∨ (∃ b, g a = .ok b) ∧ Fails P (xs.mapM g) := by
  rw [List.mapM_cons, fails_bind_iff]
  refine or_congr_right ?_
  have hrest : ∀ b, Fails P (xs.mapM g >>= fun bs => pure (b :: bs)) ↔ Fails P (xs.mapM g) :=
    fun b => fails_bind_iff_left fun _ => not_fails_ok _
  simp only [hrest, exists_and_right]

theorem not_fails_mapM {g : α → Except Fault β} {xs : List α} (h : ∀ a ∈ xs, ¬ Fails P (g a)) :
    ¬ Fails P (xs.mapM g) := by
  induction xs with
  | nil => exact not_fails_ok []
  | cons a xs ih =>
      rw [fails_mapM_cons_iff]
      rintro (ha | ⟨_, hxs⟩)
      · exact h a List.mem_cons_self ha
      · exact ih (fun b hb => h b (List.mem_cons_of_mem a hb)) hxs

/-- Where members can fail in one way only, a list fails if one of them does. -/
theorem fails_mapM_iff {g : α → Except Fault β} (hg : ∀ a, Fails P (g a) ∨ ∃ b, g a = .ok b)
    {xs : List α} : Fails P (xs.mapM g) ↔ ∃ a ∈ xs, Fails P (g a) := by
  induction xs with
  | nil => exact iff_of_false (not_fails_ok []) (by simp)
  | cons a xs ih =>
      rw [fails_mapM_cons_iff, ih, List.exists_mem_cons_iff]
      obtain ha | ha := hg a
      · exact iff_of_true (.inl ha) (.inl ha)
      · exact or_congr_right (and_iff_right ha)

theorem fails_or_ok_mapM {g : α → Except Fault β} (hg : ∀ a, Fails P (g a) ∨ ∃ b, g a = .ok b)
    (xs : List α) : Fails P (xs.mapM g) ∨ ∃ bs, xs.mapM g = .ok bs := by
  induction xs with
  | nil => exact .inr ⟨[], rfl⟩
  | cons a xs ih =>
      rw [fails_mapM_cons_iff]
      obtain ha | ⟨b, hb⟩ := hg a
      · exact .inl (.inl ha)
      · obtain hxs | ⟨bs, hbs⟩ := ih
        · exact .inl (.inr ⟨⟨b, hb⟩, hxs⟩)
        · refine .inr ⟨b :: bs, ?_⟩
          rw [List.mapM_cons, hb, hbs]
          rfl

/-! ## Checks of a list in turn -/

section AllM

variable {p : α → Except Fault Bool} {xs : List α}

theorem allM_eq_true_iff : xs.allM p = .ok true ↔ ∀ x ∈ xs, p x = .ok true := by
  induction xs with
  | nil => exact iff_of_true rfl (by simp)
  | cons x xs ih =>
      rw [List.allM, List.forall_mem_cons, ← ih]
      obtain e | (_ | _) := p x
      · exact iff_of_false (fun h => nomatch h) (fun h => nomatch h.1)
      · exact iff_of_false (fun h => nomatch h) (fun h => nomatch h.1)
      · exact (and_iff_right rfl).symm

/-- A check in turn fails at a member, if those before it pass. -/
theorem fails_allM_iff : Fails P (xs.allM p) ↔
    ∃ front x back, xs = front ++ x :: back ∧ Fails P (p x) ∧ ∀ y ∈ front, p y = .ok true := by
  induction xs with
  | nil =>
      refine iff_of_false (not_fails_ok true) ?_
      intro ⟨front, x, back, h, _⟩
      simp at h
  | cons x xs ih =>
      have hcons : Fails P ((x :: xs).allM p) ↔
          Fails P (p x) ∨ p x = .ok true ∧ Fails P (xs.allM p) := by
        rw [List.allM, fails_bind_iff]
        refine or_congr_right ?_
        constructor
        · rintro ⟨_ | _, hx, h⟩
          · exact absurd h (not_fails_ok false)
          · exact ⟨hx, h⟩
        · exact fun ⟨hx, h⟩ => ⟨true, hx, h⟩
      rw [hcons, ih]
      constructor
      · rintro (h | ⟨hx, front, y, back, rfl, hy, hfront⟩)
        · exact ⟨[], x, xs, rfl, h, by simp⟩
        · exact ⟨x :: front, y, back, rfl, hy, List.forall_mem_cons.2 ⟨hx, hfront⟩⟩
      · rintro ⟨_ | ⟨z, front⟩, y, back, h, hy, hfront⟩
        · cases h
          exact .inl hy
        · cases h
          obtain ⟨hz, hfront⟩ := List.forall_mem_cons.1 hfront
          exact .inr ⟨hz, front, y, back, rfl, hy, hfront⟩

end AllM

/-! ## Readers -/

/-- Whether a value has parts, so that it is no symbol. -/
def Json.IsCompound (v : Json) : Prop := v.atom? = none

theorem Json.not_isCompound_iff {v : Json} : ¬ v.IsCompound ↔ ∃ s, v = .atom s := by
  cases v <;> simp [IsCompound, atom?]

/-- A kind of fault that no check of a definition reports: value faults are of it, and faults of
the definition are not. -/
structure Unreported (P : Fault → Prop) : Prop where
  value : ∀ v, P (.value v)
  definition : ∀ e, ¬ P (.definition e)

namespace Unreported

variable (hP : Unreported P)

include hP

theorem not_fails_definition (e : DefinitionError) :
    ¬ Fails P (.error (.definition e) : Except Fault α) := by
  rw [fails_error_iff]
  exact hP.definition e

/-- What comes after a check that reports a fault of the definition. -/
theorem not_fails_unless {p : Prop} [Decidable p] {e : DefinitionError} {g : β → Except Fault α}
    {x : Except Fault α} (hx : ¬ Fails P x) :
    ¬ Fails P (if p then throw (.definition e) >>= g else x) := by
  split
  · exact hP.not_fails_definition e
  · exact hx

theorem not_fails_requireObject (what : Subject) (v : Json) :
    ¬ Fails P (v.requireObject what) := by
  cases v with
  | object members => exact not_fails_ok members
  | atom | list => exact hP.not_fails_definition _

theorem not_fails_optionalList (members : Json.Members) (key : Text) :
    ¬ Fails P (members.optionalList key) := by
  unfold Json.Members.optionalList
  split
  · exact not_fails_ok _
  · exact not_fails_ok _
  · exact hP.not_fails_definition _

theorem not_fails_requireList (members : Json.Members) (key : Text) :
    ¬ Fails P (members.requireList key) := by
  unfold Json.Members.requireList
  split
  · exact hP.not_fails_definition _
  · exact hP.not_fails_optionalList members key

theorem not_fails_requireText (members : Json.Members) (key : Text) :
    ¬ Fails P (members.requireText key) := by
  unfold Json.Members.requireText
  split
  · split
    · exact hP.not_fails_definition _
    · exact not_fails_ok _
  · exact hP.not_fails_definition _

theorem not_fails_requireSymbol (members : Json.Members) (key : Text) :
    ¬ Fails P (members.requireSymbol key) := by
  unfold Json.Members.requireSymbol
  split
  · exact not_fails_ok _
  · exact hP.not_fails_definition _

/-! ## Checks -/

theorem not_fails_declaredName (role : Role) (names : List Text) (v : Json) :
    ¬ Fails P (declaredName role names v) := by
  unfold declaredName
  split
  · split
    · exact not_fails_ok _
    · exact hP.not_fails_definition _
  · exact hP.not_fails_definition _

theorem not_fails_declaredText (role : Role) (declared : List Atom) (s : Text) :
    ¬ Fails P (declaredText role declared s) := by
  unfold declaredText
  split
  · exact not_fails_ok _
  · exact hP.not_fails_definition _

theorem not_fails_declaredAtom (role : Role) (declared : List Atom) (v : Json) :
    ¬ Fails P (declaredAtom role declared v) := by
  unfold declaredAtom
  split
  · split
    · exact not_fails_ok _
    · exact hP.not_fails_definition _
  · exact hP.not_fails_definition _

/-- **Where a symbol is needed**, nothing reports a list or an object. -/
theorem fails_requireAtom_iff {v : Json} : Fails P v.requireAtom ↔ v.IsCompound := by
  cases v with
  | atom s =>
      refine iff_of_false (not_fails_ok s) ?_
      exact Json.not_isCompound_iff.2 ⟨s, rfl⟩
  | list | object => exact iff_of_true (fails_error_iff.2 (hP.value _)) rfl

theorem fails_or_ok_requireAtom (v : Json) :
    Fails P v.requireAtom ∨ ∃ s, v.requireAtom = .ok s := by
  cases v with
  | atom s => exact .inr ⟨s, rfl⟩
  | list | object => exact .inl (hP.fails_requireAtom_iff.2 rfl)

theorem fails_mapM_requireAtom_iff {values : List Json} :
    Fails P (values.mapM Json.requireAtom) ↔ ∃ v ∈ values, v.IsCompound := by
  rw [fails_mapM_iff hP.fails_or_ok_requireAtom]
  exact exists_congr fun v => and_congr_right' hP.fails_requireAtom_iff

theorem fails_distinctAtoms_iff {collection : Text} {values : List Json} :
    Fails P (distinctAtoms collection values) ↔ ∃ v ∈ values, v.IsCompound := by
  unfold distinctAtoms
  rw [← hP.fails_mapM_requireAtom_iff]
  refine fails_bind_iff_left fun atoms => ?_
  split
  · exact not_fails_ok atoms
  · exact hP.not_fails_definition _

end Unreported

end FormalMachines
