import Mathlib

/-!
# Requests that are answered once

Somebody asks to be told when something happens, may be replaced by somebody else or withdraw,
and is told the first time it happens. `Board` keeps who wants what and who was told. Each answer
uses up the request it answers.
-/

namespace Lib

universe u v
variable {κ : Type u} {α : Type v} [DecidableEq κ]

inductive Request (κ : Type u) (α : Type v) where
  /-- Somebody wants to know of `k`, instead of whoever wanted to before. -/
  | ask (k : κ) (a : α)
  /-- Nobody does any more. -/
  | cancel (k : κ)
  /-- `k` happens. -/
  | happens (k : κ)

/-- Who wants to know of what, and who was told. -/
structure Board (κ : Type u) (α : Type v) where
  wants : κ → Option α
  answered : List (α × κ)

/-- Nobody wants anything. -/
def Board.empty : Board κ α := ⟨fun _ => none, []⟩

def Board.take (b : Board κ α) : Request κ α → Board κ α
  | .ask k a => { b with wants := Function.update b.wants k (some a) }
  | .cancel k => { b with wants := Function.update b.wants k none }
  | .happens k =>
      match b.wants k with
      | none => b
      | some a => ⟨Function.update b.wants k none, b.answered ++ [(a, k)]⟩

def Board.run (rs : List (Request κ α)) (b : Board κ α) : Board κ α := rs.foldl Board.take b

variable {b : Board κ α} {k : κ} {rs rs' : List (Request κ α)}

theorem Board.run_append : b.run (rs ++ rs') = (b.run rs).run rs' := List.foldl_append

/-- The answers about `k`, and the request that may still be answered. -/
def Board.served (k : κ) (b : Board κ α) : Nat :=
  b.answered.countP (fun e => e.2 = k) + (if (b.wants k).isSome then 1 else 0)

/-- The requests for `k`. -/
def Request.asks (k : κ) : Request κ α → Bool
  | .ask k' _ => k' = k
  | _ => false

theorem Board.served_take (r : Request κ α) :
    (b.take r).served k ≤ b.served k + (if r.asks k then 1 else 0) := by
  cases r with
  | ask k' a =>
      by_cases h : k' = k
      · subst h
        simp only [Board.served, Board.take, Request.asks, Function.update_self, decide_true,
          Option.isSome_some, if_true]
        omega
      · simp [Board.served, Board.take, Request.asks, Function.update_of_ne (Ne.symm h), h]
  | cancel k' =>
      by_cases h : k' = k
      · subst h
        simp only [Board.served, Board.take, Request.asks, Function.update_self, Option.isSome_none,
          Bool.false_eq_true, if_false]
        omega
      · simp [Board.served, Board.take, Request.asks, Function.update_of_ne (Ne.symm h)]
  | happens k' =>
      cases hw : b.wants k' with
      | none => simp [Board.take, hw, Request.asks]
      | some a =>
          by_cases h : k' = k
          · subst h
            simp [Board.served, Board.take, hw, Request.asks, List.countP_append]
          · simp [Board.served, Board.take, hw, Request.asks, Function.update_of_ne (Ne.symm h), h,
              List.countP_append]

/-- **Each request is answered at most once.** -/
theorem Board.served_run : (b.run rs).served k ≤ b.served k + rs.countP (Request.asks k) := by
  induction rs generalizing b with
  | nil => exact Nat.le_refl _
  | cons r rs ih =>
      have hfirst := b.served_take (k := k) r
      have hrest : ((b.take r).run rs).served k ≤ _ := ih
      rw [List.countP_cons]
      show ((b.take r).run rs).served k ≤ _
      omega

end Lib
