import Mathlib

/-!
# Things spread over places

A set of things, each of which is in exactly one of a family of places, and in it
once: the free lists of an allocator, the mailboxes of a system. Such a spread is
kept by moving things from one place to another, by bringing new things in, and by
taking things out, and those three moves are all this file is about. The order
within a place plays no part, so each move is stated up to permutation.
-/

namespace Lib

universe u v
variable {α : Type u} {π : Type v}

/-- Each thing of `U` is in exactly one place, and once; nothing else is in any. -/
structure Spread (U : Set α) (held : π → List α) : Prop where
  /-- No place holds a thing twice. -/
  nodup : ∀ p, (held p).Nodup
  /-- No two places hold the same thing. -/
  unique : ∀ p q x, x ∈ held p → x ∈ held q → p = q
  /-- The places hold the things of `U`. -/
  covers : ∀ x, x ∈ U ↔ ∃ p, x ∈ held p

namespace Spread

variable {U : Set α} {held held' : π → List α} {a b : π} {xs : List α}

/-- Two places together hold nothing twice. -/
theorem nodup_append (h : Spread U held) (hab : a ≠ b) : (held a ++ held b).Nodup := by
  refine List.nodup_append.mpr ⟨h.nodup a, h.nodup b, fun x hx y hy hxy => ?_⟩
  subst hxy
  exact hab (h.unique a b x hx hy)

/-- Nothing is anywhere. -/
theorem empty (h : ∀ p, held p = []) : Spread (∅ : Set α) held where
  nodup p := by rw [h p]; exact List.nodup_nil
  unique p q x hp _ := by rw [h p] at hp; exact absurd hp (by simp)
  covers x := by simp [h]

theorem congr {U' : Set α} (h : Spread U held) (hU : ∀ x, x ∈ U' ↔ x ∈ U)
    (heq : ∀ p, held' p = held p) : Spread U' held' := by
  obtain rfl : held' = held := funext heq
  obtain rfl : U' = U := Set.ext hU
  exact h

/-- The one place that has a thing. -/
theorem existsUnique (h : Spread U held) {x : α} (hx : x ∈ U) : ∃! p, x ∈ held p := by
  obtain ⟨p, hp⟩ := (h.covers x).mp hx
  exact ⟨p, hp, fun q hq => h.unique q p x hq hp⟩

/-- Things move between `a` and `b`. -/
theorem transfer (h : Spread U held) (hab : a ≠ b)
    (hperm : (held' a ++ held' b).Perm (held a ++ held b))
    (hrest : ∀ p, p ≠ a → p ≠ b → held' p = held p) : Spread U held' := by
  have hnodup := hperm.nodup_iff.mpr (h.nodup_append hab)
  obtain ⟨hna, hnb, hdisj⟩ := List.nodup_append.mp hnodup
  -- What `a` or `b` holds now, one of them held before.
  have hmem : ∀ x, (x ∈ held' a ∨ x ∈ held' b) ↔ (x ∈ held a ∨ x ∈ held b) := fun x => by
    rw [← List.mem_append, ← List.mem_append]; exact hperm.mem_iff
  have hout : ∀ p x, p ≠ a → p ≠ b → x ∈ held' p → ¬ (x ∈ held' a ∨ x ∈ held' b) := by
    intro p x hpa hpb hx hor
    rw [hrest p hpa hpb] at hx
    rcases (hmem x).mp hor with hxa | hxb
    · exact hpa (h.unique p a x hx hxa)
    · exact hpb (h.unique p b x hx hxb)
  refine ⟨fun p => ?_, fun p q x hp hq => ?_, fun x => ?_⟩
  · by_cases hpa : p = a
    · rw [hpa]; exact hna
    by_cases hpb : p = b
    · rw [hpb]; exact hnb
    rw [hrest p hpa hpb]; exact h.nodup p
  · by_cases hpa : p = a
    · subst hpa
      by_cases hqa : q = p
      · exact hqa.symm
      by_cases hqb : q = b
      · subst hqb; exact absurd rfl (hdisj x hp x hq)
      exact absurd (Or.inl hp) (hout q x hqa hqb hq)
    by_cases hpb : p = b
    · subst hpb
      by_cases hqa : q = a
      · subst hqa; exact absurd rfl (hdisj x hq x hp)
      by_cases hqb : q = p
      · exact hqb.symm
      exact absurd (Or.inr hp) (hout q x hqa hqb hq)
    by_cases hqa : q = a
    · subst hqa; exact absurd (Or.inl hq) (hout p x hpa hpb hp)
    by_cases hqb : q = b
    · subst hqb; exact absurd (Or.inr hq) (hout p x hpa hpb hp)
    rw [hrest p hpa hpb] at hp
    rw [hrest q hqa hqb] at hq
    exact h.unique p q x hp hq
  · rw [h.covers x]
    constructor
    · rintro ⟨p, hp⟩
      by_cases hpab : p = a ∨ p = b
      · have hor : x ∈ held a ∨ x ∈ held b := by
          rcases hpab with rfl | rfl
          · exact Or.inl hp
          · exact Or.inr hp
        rcases (hmem x).mpr hor with hx | hx
        · exact ⟨a, hx⟩
        · exact ⟨b, hx⟩
      · obtain ⟨hpa, hpb⟩ := not_or.mp hpab
        exact ⟨p, by rw [hrest p hpa hpb]; exact hp⟩
    · rintro ⟨p, hp⟩
      by_cases hpab : p = a ∨ p = b
      · have hor : x ∈ held' a ∨ x ∈ held' b := by
          rcases hpab with rfl | rfl
          · exact Or.inl hp
          · exact Or.inr hp
        rcases (hmem x).mp hor with hx | hx
        · exact ⟨a, hx⟩
        · exact ⟨b, hx⟩
      · obtain ⟨hpa, hpb⟩ := not_or.mp hpab
        exact ⟨p, by rw [← hrest p hpa hpb]; exact hp⟩

/-- New things arrive at `b`. -/
theorem grow (h : Spread U held) (hperm : (held' b).Perm (xs ++ held b))
    (hrest : ∀ p, p ≠ b → held' p = held p) (hxs : xs.Nodup) (hnew : ∀ x ∈ xs, x ∉ U) :
    Spread (U ∪ {x | x ∈ xs}) held' := by
  have hmem : ∀ x, x ∈ held' b ↔ x ∈ xs ∨ x ∈ held b := fun x => by
    rw [← List.mem_append]; exact hperm.mem_iff
  have hold : ∀ p x, x ∈ held p → x ∉ xs := fun p x hp hx => hnew x hx ((h.covers x).mpr ⟨p, hp⟩)
  refine ⟨fun p => ?_, fun p q x hp hq => ?_, fun x => ?_⟩
  · by_cases hpb : p = b
    · subst hpb
      refine hperm.nodup_iff.mpr (List.nodup_append.mpr ⟨hxs, h.nodup p, ?_⟩)
      intro x hx y hy hxy
      subst hxy
      exact hold p x hy hx
    · rw [hrest p hpb]; exact h.nodup p
  · by_cases hpb : p = b
    · by_cases hqb : q = b
      · rw [hpb, hqb]
      · rw [hpb, hmem] at hp
        rw [hrest q hqb] at hq
        rcases hp with hx | hp
        · exact absurd hx (hold q x hq)
        · rw [hpb]; exact h.unique b q x hp hq
    · rw [hrest p hpb] at hp
      by_cases hqb : q = b
      · rw [hqb, hmem] at hq
        rcases hq with hx | hq
        · exact absurd hx (hold p x hp)
        · rw [hqb]; exact h.unique p b x hp hq
      · rw [hrest q hqb] at hq
        exact h.unique p q x hp hq
  · simp only [Set.mem_union, Set.mem_ofPred_eq]
    constructor
    · rintro (hx | hx)
      · obtain ⟨p, hp⟩ := (h.covers x).mp hx
        by_cases hpb : p = b
        · exact ⟨b, (hmem x).mpr (Or.inr (hpb ▸ hp))⟩
        · exact ⟨p, by rw [hrest p hpb]; exact hp⟩
      · exact ⟨b, (hmem x).mpr (Or.inl hx)⟩
    · rintro ⟨p, hp⟩
      by_cases hpb : p = b
      · rw [hpb, hmem] at hp
        rcases hp with hx | hp
        · exact Or.inr hx
        · exact Or.inl ((h.covers x).mpr ⟨b, hp⟩)
      · rw [hrest p hpb] at hp
        exact Or.inl ((h.covers x).mpr ⟨p, hp⟩)

/-- Things at `b` leave. -/
theorem shrink (h : Spread U held) (hperm : (held b).Perm (xs ++ held' b))
    (hrest : ∀ p, p ≠ b → held' p = held p) : Spread (U \ {x | x ∈ xs}) held' := by
  obtain ⟨_, hnb, hdisj⟩ := List.nodup_append.mp (hperm.nodup_iff.mp (h.nodup b))
  have hmem : ∀ x, x ∈ held b ↔ x ∈ xs ∨ x ∈ held' b := fun x => by
    rw [← List.mem_append]; exact hperm.mem_iff
  have hsub : ∀ p x, x ∈ held' p → x ∈ held p := by
    intro p x hp
    by_cases hpb : p = b
    · rw [hpb] at hp ⊢; exact (hmem x).mpr (Or.inr hp)
    · rw [← hrest p hpb]; exact hp
  refine ⟨fun p => ?_, fun p q x hp hq => h.unique p q x (hsub p x hp) (hsub q x hq),
    fun x => ?_⟩
  · by_cases hpb : p = b
    · rw [hpb]; exact hnb
    · rw [hrest p hpb]; exact h.nodup p
  · simp only [Set.mem_sdiff, Set.mem_ofPred_eq]
    constructor
    · rintro ⟨hx, hxs⟩
      obtain ⟨p, hp⟩ := (h.covers x).mp hx
      by_cases hpb : p = b
      · rw [hpb, hmem] at hp
        exact ⟨b, hp.resolve_left hxs⟩
      · exact ⟨p, by rw [hrest p hpb]; exact hp⟩
    · rintro ⟨p, hp⟩
      refine ⟨(h.covers x).mpr ⟨p, hsub p x hp⟩, fun hx => ?_⟩
      have hb := (hmem x).mpr (Or.inl hx)
      obtain rfl := h.unique p b x (hsub p x hp) hb
      exact hdisj x hx x hp rfl

end Spread

end Lib
