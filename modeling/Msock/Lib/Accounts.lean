import Mathlib

/-!
# Things taken and given back

A store lends things, and a history says what was taken from it and what was given back,
and when the store was tidied. A history settles when nothing is given back that is not
out at that time. What is out is a multiset, so the same name may be out twice; who has
what plays no part.

Histories are put together end to end, and what is not touched by a history can be added
on both sides.
-/

namespace Lib

universe u v
variable {α : Type u} {β : Type v}

/-- One entry of a history. -/
inductive Deal (α : Type u) where
  | take (a : α)
  | give (a : α)
  /-- The store is tidied: nothing changes hands. -/
  | tidy
  deriving DecidableEq

/-- The same entry, under another name. -/
def Deal.map (f : α → β) : Deal α → Deal β
  | .take a => .take (f a)
  | .give a => .give (f a)
  | .tidy => .tidy

/-- The history leads from `s` being out to `t` being out. -/
def Settles : List (Deal α) → Multiset α → Multiset α → Prop
  | [], s, t => s = t
  | .take a :: ds, s, t => Settles ds (a ::ₘ s) t
  | .give a :: ds, s, t => ∃ s', s = a ::ₘ s' ∧ Settles ds s' t
  | .tidy :: ds, s, t => Settles ds s t

namespace Settles

variable {ds ds' : List (Deal α)} {s t r : Multiset α}

@[simp] theorem nil : Settles [] s t ↔ s = t := Iff.rfl

theorem refl (s : Multiset α) : Settles [] s s := rfl

/-- Two histories, one after the other. -/
theorem append : Settles (ds ++ ds') s t ↔ ∃ r, Settles ds s r ∧ Settles ds' r t := by
  induction ds generalizing s with
  | nil => simp [Settles]
  | cons d ds ih =>
      cases d with
      | take a => exact ih
      | tidy => exact ih
      | give a =>
          constructor
          · rintro ⟨s', hs, h⟩
            obtain ⟨r, hr, h⟩ := ih.1 h
            exact ⟨r, ⟨s', hs, hr⟩, h⟩
          · rintro ⟨r, ⟨s', hs, hr⟩, h⟩
            exact ⟨s', hs, ih.2 ⟨r, hr, h⟩⟩

theorem trans (h : Settles ds s r) (h' : Settles ds' r t) : Settles (ds ++ ds') s t :=
  append.2 ⟨r, h, h'⟩

/-- What the history does not touch. -/
theorem add (h : Settles ds s t) (r : Multiset α) : Settles ds (s + r) (t + r) := by
  induction ds generalizing s with
  | nil => exact congrArg (· + r) h
  | cons d ds ih =>
      cases d with
      | take a =>
          show Settles ds (a ::ₘ (s + r)) (t + r)
          rw [← Multiset.cons_add]
          exact ih h
      | tidy => exact ih h
      | give a =>
          obtain ⟨s', hs, h⟩ := h
          refine ⟨s' + r, ?_, ih h⟩
          rw [hs, Multiset.cons_add]

/-- A history that nothing happens in. -/
theorem of_all_tidy (h : ∀ d ∈ ds, d = .tidy) (s : Multiset α) : Settles ds s s := by
  induction ds with
  | nil => rfl
  | cons d ds ih =>
      obtain rfl := h d List.mem_cons_self
      exact ih (fun e he => h e (List.mem_cons_of_mem _ he))

/-- A list of things is given back. -/
theorem gives (xs : List α) (t : Multiset α) : Settles (xs.map .give) (xs + t) t := by
  induction xs with
  | nil => exact zero_add t
  | cons x xs ih => exact ⟨xs + t, by rw [← Multiset.cons_coe, Multiset.cons_add], ih⟩

/-- Another name for everything. -/
theorem map (f : α → β) (h : Settles ds s t) :
    Settles (ds.map (Deal.map f)) (s.map f) (t.map f) := by
  induction ds generalizing s with
  | nil => exact congrArg (Multiset.map f) h
  | cons d ds ih =>
      cases d with
      | take a =>
          have := ih h
          rwa [Multiset.map_cons] at this
      | tidy => exact ih h
      | give a =>
          obtain ⟨s', hs, h⟩ := h
          exact ⟨s'.map f, by rw [hs, Multiset.map_cons], ih h⟩

end Settles

end Lib
