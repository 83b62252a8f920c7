import Mathlib

/-!
# A server

A server keeps data, answers each request with some sends, possibly none, and may fail. What
it sends is determined, request by request, by the requests it has served.
-/

namespace Lib

universe u v w x y
variable {σ : Type u} {α : Type v} {β : Type w} {ε : Type x}

/-- The data after a list of requests, and all that was sent. -/
def serve (respond : σ → α → Except ε (σ × List β)) (data : σ) :
    List α → Except ε (σ × List β)
  | [] => .ok (data, [])
  | a :: as =>
      match respond data a with
      | .error e => .error e
      | .ok (data, sends) =>
          match serve respond data as with
          | .error e => .error e
          | .ok (data, sends') => .ok (data, sends ++ sends')

variable {respond : σ → α → Except ε (σ × List β)} {data data' data'' : σ} {as as' : List α}
  {sends sends' : List β}

theorem serve_cons {a : α} (h : respond data a = .ok (data', sends))
    (h' : serve respond data' as = .ok (data'', sends')) :
    serve respond data (a :: as) = .ok (data'', sends ++ sends') := by
  rw [serve, h]
  dsimp only
  rw [h']

theorem serve_single {a : α} (h : respond data a = .ok (data', sends)) :
    serve respond data [a] = .ok (data', sends) := by
  have hcons : serve respond data [a] = .ok (data', sends ++ []) := serve_cons h rfl
  rwa [List.append_nil] at hcons

/-- A server goes on from where it is. -/
theorem serve_append (h : serve respond data as = .ok (data', sends))
    (h' : serve respond data' as' = .ok (data'', sends')) :
    serve respond data (as ++ as') = .ok (data'', sends ++ sends') := by
  induction as generalizing data sends with
  | nil =>
      cases h
      exact h'
  | cons a as ih =>
      rw [serve] at h
      split at h
      · cases h
      · rename_i data₁ sends₁ hrespond
        split at h
        · cases h
        · rename_i data₂ sends₂ hserve
          cases h
          rw [List.cons_append, List.append_assoc]
          exact serve_cons hrespond (ih hserve)

/-- A server that did not fail has answered every request. -/
theorem serve_mem {a : α} (h : serve respond data as = .ok (data', sends)) (ha : a ∈ as) :
    ∃ data₁ data₂ sends₁, respond data₁ a = .ok (data₂, sends₁) := by
  induction as generalizing data data' sends with
  | nil => cases ha
  | cons a' as ih =>
      rw [serve] at h
      split at h
      · cases h
      · rename_i hrespond
        split at h
        · cases h
        · rename_i hserve
          rcases List.mem_cons.1 ha with rfl | ha
          · exact ⟨_, _, _, hrespond⟩
          · exact ih hserve ha

/-- Where what is sent for a request does not depend on the data, nor does what is sent for a
list of requests. -/
theorem serve_flatMap {answer : α → List β} (hanswer : ∀ data a data' sends,
      respond data a = .ok (data', sends) → sends = answer a)
    (h : serve respond data as = .ok (data', sends)) : sends = as.flatMap answer := by
  induction as generalizing data sends with
  | nil =>
      cases h
      rfl
  | cons a as ih =>
      rw [serve] at h
      split at h
      · cases h
      · rename_i data₁ sends₁ hrespond
        split at h
        · cases h
        · rename_i data₂ sends₂ hserve
          cases h
          rw [hanswer _ _ _ _ hrespond, ih hserve]
          rfl

/-- A server that only adds to its data, for each request what does not depend on it. -/
theorem serve_log {γ : Type y} {respond : List γ → α → Except ε (List γ × List β)}
    {data data' : List γ} {entries : α → List γ} (hentries : ∀ data a data' sends,
      respond data a = .ok (data', sends) → data' = data ++ entries a)
    (h : serve respond data as = .ok (data', sends)) : data' = data ++ as.flatMap entries := by
  induction as generalizing data sends with
  | nil =>
      cases h
      exact (List.append_nil _).symm
  | cons a as ih =>
      rw [serve] at h
      split at h
      · cases h
      · rename_i data₁ sends₁ hrespond
        split at h
        · cases h
        · rename_i data₂ sends₂ hserve
          cases h
          rw [ih hserve, hentries _ _ _ _ hrespond, List.append_assoc]
          rfl

end Lib
