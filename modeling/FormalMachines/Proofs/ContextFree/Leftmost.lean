import FormalMachines.ContextFree.Leftmost

/-!
# FormalMachines.Proofs.ContextFree.Leftmost

Every derivation of a terminal form has a leftmost one of as many steps.

A leftmost derivation of two forms in a row is one of the first followed by one of the
second (`Derives.append`, `Derives.split`).  A step in any place (`Grammar.Rewrites`) can
therefore wait until the leftmost derivation of what stands before it is done
(`exists_derives_of_rewrites`).
-/

namespace FormalMachines.ContextFree.Grammar

variable {g : Grammar} {form front back next last : Form} {l : Leftmost} {p : Production}
  {ps qs : List Production}

/-! ## Two forms in a row -/

theorem leftmost?_append_right (h : g.leftmost? front = some l) (back : Form) :
    g.leftmost? (front ++ back) = some { l with after := l.after ++ back } := by
  induction front generalizing l with
  | nil => cases h
  | cons s front ih =>
      rw [List.cons_append, leftmost?] at *
      by_cases hs : g.isNonTerminal s
      · rw [if_pos hs, Option.some.injEq] at h ⊢
        rw [← h]
      · rw [if_neg hs, Option.map_eq_some_iff] at h
        obtain ⟨m, hm, hl⟩ := h
        rw [if_neg hs, ih hm, ← hl]
        rfl

/-- A step in a form that is not terminal leaves what follows that form as it is. -/
theorem step_append_right_iff (h : g.leftmost? front = some l) :
    g.Step (front ++ back) p next ↔ ∃ rest, g.Step front p rest ∧ next = rest ++ back := by
  simp only [Step, leftmost?_append_right h, h, Option.some.injEq]
  constructor
  · intro hstep
    obtain ⟨m, hm, hp, hnext⟩ := hstep
    rw [← hm] at hp hnext
    refine ⟨l.replace p.symbols, ⟨l, rfl, hp, rfl⟩, ?_⟩
    rw [hnext, Leftmost.replace, Leftmost.replace, List.append_assoc _ _ back]
  · intro hstep
    obtain ⟨rest, ⟨m, hm, hp, hrest⟩, hnext⟩ := hstep
    rw [← hm] at hp hrest
    refine ⟨_, rfl, hp, ?_⟩
    rw [hnext, hrest, Leftmost.replace, Leftmost.replace, List.append_assoc _ _ back]

/-- Derivations of two forms follow one another. -/
theorem Derives.append {x y : Form} (hfront : g.Derives front ps x) (hx : g.IsTerminal x)
    (hback : g.Derives back qs y) : g.Derives (front ++ back) (ps ++ qs) (x ++ y) := by
  induction hfront with
  | nil form => exact (derives_append_left_iff hx).2 ⟨y, hback, rfl⟩
  | cons step _ ih =>
      obtain ⟨l, hl, _⟩ := id step
      exact .cons ((step_append_right_iff hl).2 ⟨_, step, rfl⟩) (ih hx)

/-- A derivation of two forms in a row falls into those of the two. -/
theorem Derives.split (h : g.Derives (front ++ back) ps last) :
    ∃ qs rs x y, ps = qs ++ rs ∧ last = x ++ y ∧ g.Derives front qs x ∧ g.Derives back rs y := by
  induction ps generalizing front with
  | nil => exact ⟨[], [], front, back, rfl, (derives_nil_iff.1 h).symm, .nil front, .nil back⟩
  | cons p ps ih =>
      cases hl : g.leftmost? front with
      | none =>
          obtain ⟨y, hy, hlast⟩ := (derives_append_left_iff (leftmost?_eq_none_iff.1 hl)).1 h
          exact ⟨[], p :: ps, front, y, rfl, hlast, .nil front, hy⟩
      | some l =>
          obtain ⟨next, hstep, hrest⟩ := derives_cons_iff.1 h
          obtain ⟨rest, hfront, hnext⟩ := (step_append_right_iff hl).1 hstep
          rw [hnext] at hrest
          obtain ⟨qs, rs, x, y, hps, hlast, hx, hy⟩ := ih hrest
          exact ⟨p :: qs, rs, x, y, by rw [hps, List.cons_append], hlast, .cons hfront hx, hy⟩

/-! ## Steps in any place -/

/-- Whether so many productions, each applied in any place, turn one form into another. -/
inductive Rewrites (g : Grammar) : Form → Nat → Form → Prop where
  | refl (form : Form) : g.Rewrites form 0 form
  | step {front back last : Form} {p : Production} {n : Nat} (mem : p ∈ g.productions)
      (rest : g.Rewrites (front ++ p.symbols ++ back) n last) :
      g.Rewrites (front ++ p.left :: back) (n + 1) last

/-- A production replaces its left side, where that stands alone. -/
theorem step_left (hg : g.Valid) (hp : p ∈ g.productions) : g.Step [p.left] p p.symbols := by
  have hleft : g.isNonTerminal p.left := (hg.2.2.2 p hp).1
  exact ⟨⟨[], p.left, []⟩, by simp [leftmost?, hleft], mem_productionsFor.2 ⟨hp, rfl⟩,
    by simp [Leftmost.replace]⟩

/-- A leftmost derivation is one in any order. -/
theorem Derives.rewrites (h : g.Derives form ps last) : g.Rewrites form ps.length last := by
  induction h with
  | nil form => exact .refl form
  | cons step _ ih =>
      obtain ⟨before, after, hform, hnext, _, hmem⟩ := step.split
      subst hform hnext
      exact .step hmem ih

/-- **A derivation in any order** of a terminal form has a leftmost one of as many steps. -/
theorem exists_derives_of_rewrites (hg : g.Valid) {n : Nat} (h : g.Rewrites form n last)
    (hlast : g.IsTerminal last) : ∃ ps, ps.length = n ∧ g.Derives form ps last := by
  induction h with
  | refl form => exact ⟨[], rfl, .nil form⟩
  | @step front back last p n mem _ ih =>
      obtain ⟨ps, hlength, hderives⟩ := ih hlast
      obtain ⟨qs, rs, x, z, hps, hxz, hfront, hback⟩ := hderives.split
      have hx : g.IsTerminal x := fun s hs => hlast s (hxz ▸ List.mem_append_left z hs)
      obtain ⟨ts, us, x', y, hqs, hxy, hfront, hright⟩ := hfront.split
      have hx' : g.IsTerminal x' := fun s hs => hx s (hxy ▸ List.mem_append_left y hs)
      have hy : g.IsTerminal y := fun s hs => hx s (hxy ▸ List.mem_append_right x' hs)
      -- the step waits for what stands before it
      have hleft : g.Derives ([p.left] ++ back) ((p :: us) ++ rs) (y ++ z) :=
        Derives.append (.cons (step_left hg mem) hright) hy hback
      refine ⟨ts ++ ((p :: us) ++ rs), ?_, ?_⟩
      · simp only [← hlength, hps, hqs, List.length_append, List.length_cons]
        omega
      · rw [hxz, hxy, List.append_assoc]
        exact hfront.append hx' hleft

end FormalMachines.ContextFree.Grammar
