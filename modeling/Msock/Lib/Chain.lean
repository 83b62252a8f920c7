import Mathlib

/-!
# Chains in memory

A singly linked structure keeps one link field in every node, and the list it
stands for is what following the links visits. This file says that once, over
any type of nodes: `Seg h p xs q` is "from `p`, following the links of `h`, one
passes through exactly `xs` and arrives at `q`", and `Chain h p xs` is the case
where the walk ends at null.

Two facts carry the proofs that use it. A walk depends only on the links of the
nodes it visits (`Seg.congr`), so a write elsewhere leaves it alone. And a chain
that ends at null visits no node twice (`Chain.nodup`), because the walk from a
node is determined by the memory.
-/

namespace Lib

universe u

/-- The value of a link: null, a marker that is nobody's address, or a node. -/
inductive Ptr (α : Type u) where
  | null
  | poison
  | node (a : α)
  deriving DecidableEq, Repr

/-- The link fields. `none` is memory that holds no node: it is neither read nor written. -/
abbrev Links (α : Type u) := α → Option (Ptr α)

variable {α : Type u}

/-- Follow a pointer and read the link stored there. -/
def load (h : Links α) : Ptr α → Option (Ptr α)
  | .node a => h a
  | _ => none

/-- Follow a pointer and overwrite the link stored there. -/
def store [DecidableEq α] (h : Links α) (p v : Ptr α) : Option (Links α) :=
  match p with
  | .node a => if (h a).isSome then some (Function.update h a (some v)) else none
  | _ => none

/-- From `p`, the links lead through exactly `xs` and arrive at `q`. -/
def Seg (h : Links α) : Ptr α → List α → Ptr α → Prop
  | p, [], q => p = q
  | p, x :: xs, q => p = .node x ∧ ∃ r, h x = some r ∧ Seg h r xs q

/-- A walk that ends at null. -/
def Chain (h : Links α) (p : Ptr α) (xs : List α) : Prop := Seg h p xs .null

@[simp] theorem seg_nil {h : Links α} {p q : Ptr α} : Seg h p [] q ↔ p = q := Iff.rfl

@[simp] theorem seg_cons {h : Links α} {p q : Ptr α} {x : α} {xs : List α} :
    Seg h p (x :: xs) q ↔ p = .node x ∧ ∃ r, h x = some r ∧ Seg h r xs q := Iff.rfl

@[simp] theorem chain_nil {h : Links α} {p : Ptr α} : Chain h p [] ↔ p = .null := Iff.rfl

theorem chain_cons {h : Links α} {p : Ptr α} {x : α} {xs : List α} :
    Chain h p (x :: xs) ↔ p = .node x ∧ ∃ r, h x = some r ∧ Chain h r xs := Iff.rfl

/-- A walk splits wherever the list it visits does. -/
theorem seg_append {h : Links α} {p q : Ptr α} {xs ys : List α} :
    Seg h p (xs ++ ys) q ↔ ∃ r, Seg h p xs r ∧ Seg h r ys q := by
  induction xs generalizing p with
  | nil => simp
  | cons x xs ih =>
      simp only [List.cons_append, seg_cons, ih]
      constructor
      · rintro ⟨hp, r, hr, s, hs, hy⟩
        exact ⟨s, ⟨hp, r, hr, hs⟩, hy⟩
      · rintro ⟨s, ⟨hp, r, hr, hs⟩, hy⟩
        exact ⟨hp, r, hr, s, hs, hy⟩

/-- A walk reads only the links of the nodes it visits. -/
theorem Seg.congr {h h' : Links α} {p q : Ptr α} {xs : List α}
    (hs : Seg h p xs q) (heq : ∀ x ∈ xs, h' x = h x) : Seg h' p xs q := by
  induction xs generalizing p with
  | nil => exact hs
  | cons x xs ih =>
      obtain ⟨hp, r, hr, hrest⟩ := hs
      refine ⟨hp, r, ?_, ih hrest (fun y hy => heq y (List.mem_cons_of_mem _ hy))⟩
      rw [heq x List.mem_cons_self, hr]

/-- Every node a walk visits is in memory. -/
theorem Seg.isSome {h : Links α} {p q : Ptr α} {xs : List α} (hs : Seg h p xs q) :
    ∀ x ∈ xs, (h x).isSome := by
  induction xs generalizing p with
  | nil => simp
  | cons y ys ih =>
      obtain ⟨_, r, hr, hrest⟩ := hs
      intro x hx
      rcases List.mem_cons.mp hx with rfl | hx
      · rw [hr]; rfl
      · exact ih hrest x hx

/-- Two chains from one pointer are the same chain. -/
theorem Chain.det {h : Links α} {p : Ptr α} {xs ys : List α}
    (hx : Chain h p xs) (hy : Chain h p ys) : xs = ys := by
  induction xs generalizing p ys with
  | nil =>
      cases ys with
      | nil => rfl
      | cons y ys =>
          rw [chain_nil] at hx
          exact absurd (hx.symm.trans hy.1) (by simp)
  | cons x xs ih =>
      obtain ⟨hp, r, hr, hrest⟩ := hx
      cases ys with
      | nil =>
          rw [chain_nil] at hy
          exact absurd (hp.symm.trans hy) (by simp)
      | cons y ys =>
          obtain ⟨hp', r', hr', hrest'⟩ := hy
          have hxy : x = y := by simpa [hp] using hp'
          subst hxy
          have hrr : r = r' := by simpa [hr] using hr'
          subst hrr
          rw [ih hrest hrest']

/-- A chain visits no node twice: the second visit would start the first one's walk again. -/
theorem Chain.nodup {h : Links α} {p : Ptr α} {xs : List α} (hc : Chain h p xs) : xs.Nodup := by
  induction xs generalizing p with
  | nil => exact List.nodup_nil
  | cons x xs ih =>
      obtain ⟨hp, r, hr, hrest⟩ := hc
      refine List.nodup_cons.mpr ⟨fun hmem => ?_, ih hrest⟩
      obtain ⟨l₁, l₂, hsplit⟩ := List.append_of_mem hmem
      have hrest' := hrest
      rw [hsplit] at hrest'
      obtain ⟨s, _, hs⟩ := seg_append.mp hrest'
      have hfrom : Chain h (.node x) (x :: l₂) := hs.1 ▸ hs
      have hagain : Chain h (.node x) (x :: xs) := ⟨rfl, r, hr, hrest⟩
      have hlen := congrArg List.length (hfrom.det hagain)
      rw [hsplit] at hlen
      simp at hlen
      omega

/-! ## Writing a link -/

variable [DecidableEq α]

theorem store_eq_some {h h' : Links α} {p v : Ptr α} :
    store h p v = some h' ↔
      ∃ a, p = .node a ∧ (h a).isSome ∧ h' = Function.update h a (some v) := by
  cases p with
  | null => simp [store]
  | poison => simp [store]
  | node a =>
      simp only [store, Ptr.node.injEq, exists_eq_left']
      by_cases ha : (h a).isSome <;> simp [ha, eq_comm]

theorem store_node {h : Links α} {a : α} {v : Ptr α} (ha : (h a).isSome) :
    store h (.node a) v = some (Function.update h a (some v)) := by
  simp [store, ha]

/-- What is in memory stays there when a link is written. -/
theorem isSome_update {h : Links α} {a b : α} {v : Ptr α} (hb : (h b).isSome) :
    (Function.update h a (some v) b).isSome := by
  by_cases hba : b = a
  · rw [hba, Function.update_self]
    rfl
  · rwa [Function.update_of_ne hba]

/-- A write to a node off the walk leaves the walk alone. -/
theorem Seg.update {h : Links α} {p q : Ptr α} {xs : List α} {a : α} {v : Option (Ptr α)}
    (hs : Seg h p xs q) (ha : a ∉ xs) : Seg (Function.update h a v) p xs q :=
  hs.congr (fun x hx => Function.update_of_ne (fun he : x = a => ha (he ▸ hx)) _ _)

/-- Redirecting the last link of a walk redirects its end. -/
theorem Seg.redirect {h : Links α} {p q r : Ptr α} {xs : List α} {a : α}
    (hs : Seg h p (xs ++ [a]) q) (ha : a ∉ xs) :
    Seg (Function.update h a (some r)) p (xs ++ [a]) r := by
  obtain ⟨s, hxs, hp, t, ht, hq⟩ := seg_append.mp hs
  exact seg_append.mpr ⟨s, hxs.update ha, hp, r, Function.update_self .., rfl⟩

end Lib
