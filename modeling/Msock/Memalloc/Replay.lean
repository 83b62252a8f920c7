import Msock.Lib.Accounts
import Msock.Memalloc.Zone

/-!
# A history, carried out on a zone

The calls that the users of a zone made, in the order in which they made them, carried out on
the zone: what is taken lies in the chunk that `_cache_malloc` returned, and giving it back
frees that chunk. If the history settles and every cache is drained after its last use,
nothing fails on the way, and at the end `zone_free` has nothing to abort over.
-/

namespace Msock

open Lib

variable {ι α : Type} [DecidableEq ι] [DecidableEq α]

/-- A zone in the middle of a history. -/
structure Replay (ι α : Type) where
  mem : Mem ι
  /-- What is out, and the chunk it lies in. -/
  out : List (α × Nat)
  /-- What is still to come: whose cache, and what for. -/
  rest : List (ι × Deal α)

/-- Why a history does not go on. -/
inductive ReplayFault where
  | mem (fault : MemFault)
  /-- A NULL chunk is written to. -/
  | null
  /-- A thing is given back that is not out. -/
  | stray
  deriving DecidableEq

/-- The next call, `ptr` being what `posix_memalign` returns should it be called. -/
def Replay.step (ptr : Nat) (r : Replay ι α) : Except ReplayFault (Replay ι α) :=
  match r.rest with
  | [] => .ok r
  | (c, .take a) :: rest =>
      match cacheMalloc c ptr r.mem with
      | .error fault => .error (.mem fault)
      | .ok (none, _) => .error .null
      | .ok (some chunk, m) => .ok ⟨m, (a, chunk) :: r.out, rest⟩
  | (c, .give a) :: rest =>
      match r.out.find? (fun e => e.1 = a) with
      | none => .error .stray
      | some e => .ok ⟨cacheFree c e.2 r.mem, r.out.erase e, rest⟩
  | (c, .tidy) :: rest =>
      match cacheDrain c r.mem with
      | .error fault => .error (.mem fault)
      | .ok m => .ok ⟨m, r.out, rest⟩

/-- `posix_memalign` returns a fresh page. -/
def Replay.honest (r : Replay ι α) (ptr : Nat) : Prop :=
  ∀ c a, r.rest.head? = some (c, .take a) → r.mem.allowed (.malloc c ptr)

instance (r : Replay ι α) (ptr : Nat) : Decidable (r.honest ptr) :=
  match h : r.rest.head? with
  | some (c, .take a) =>
      decidable_of_iff (r.mem.allowed (.malloc c ptr))
        ⟨fun hm c' a' he => by rw [h] at he; cases he; exact hm, fun hr => hr c a h⟩
  | some (_, .give _) | some (_, .tidy) | none =>
      isTrue (fun _ _ he => by rw [h] at he; cases he)

/-- The last call on `c`, if there is one, drains it. -/
def DrainedLast (c : ι) (deals : List (ι × Deal α)) : Prop :=
  (∀ e ∈ deals, e.1 ≠ c) ∨ ∃ es es', deals = es ++ (c, .tidy) :: es' ∧ ∀ e ∈ es', e.1 ≠ c

/-- However the history is carried out, each call goes through, and after the last one every
chunk is on its page and `zone_free` does not abort. -/
def FreesZone (m₀ : Mem ι) (deals : List (ι × Deal α)) : Prop :=
  ∀ r, Runs Replay.step Replay.honest ⟨m₀, [], deals⟩ r →
    (∀ ptr, r.honest ptr → ∃ r', r.step ptr = .ok r') ∧
    (r.rest = [] → r.mem.handedOut = [] ∧ (∀ c, (r.mem.cache c).items = []) ∧ r.mem.live = [] ∧
      zoneFree r.mem = .ok ())

/-! ## The books -/

/-- The books of a zone in the middle of a history. -/
structure Replay.Books (r : Replay ι α) : Prop where
  sound : r.mem.Sound
  none : r.mem.NoneComplete
  /-- Everything that is out lies in a chunk that is handed out. -/
  chunks : (r.out.map Prod.snd).Perm r.mem.handedOut
  settles : Settles (r.rest.map Prod.snd) (r.out.map Prod.fst) 0
  /-- A cache that is not called again is empty. -/
  drained : ∀ c, ((r.mem.cache c).items = [] ∧ ∀ e ∈ r.rest, e.1 ≠ c) ∨
    ∃ es es', r.rest = es ++ (c, .tidy) :: es' ∧ ∀ e ∈ es', e.1 ≠ c

variable {r : Replay ι α}

/-- `_cache_malloc` leaves the other caches alone. -/
theorem Mem.Sound.malloc_others {m m' : Mem ι} (h : m.Sound) {c c' : ι} {ptr : Nat}
    {chunk : Option Nat} (hallowed : m.allowed (.malloc c ptr)) (hc : c' ≠ c)
    (hmalloc : cacheMalloc c ptr m = .ok (chunk, m')) : m'.cache c' = m.cache c' := by
  have htake : ∀ m₁ : Mem ι, (m₁.takeChunk c).2.cache c' = m₁.cache c' := by
    intro m₁
    unfold Mem.takeChunk
    split
    · rfl
    · exact Function.update_of_ne hc _ _
  unfold cacheMalloc at hmalloc
  split at hmalloc
  · rename_i hempty
    obtain ⟨m₁, hfill, _, _, _, _, _, _, hothers, _⟩ := h.fill c (hallowed hempty)
    rw [hfill] at hmalloc
    rw [← hothers c' hc, ← htake m₁, show m₁.takeChunk c = _ from Except.ok.inj hmalloc]
  · rw [← htake m, show m.takeChunk c = _ from Except.ok.inj hmalloc]

omit [DecidableEq ι] [DecidableEq α] in
/-- What a call on another cache means for `c`. -/
theorem drained_tail {c c' : ι} {deal : Deal α} {rest : List (ι × Deal α)} {items items' : List Nat}
    (h : (items = [] ∧ ∀ e ∈ (c', deal) :: rest, e.1 ≠ c) ∨
      ∃ es es', (c', deal) :: rest = es ++ (c, .tidy) :: es' ∧ ∀ e ∈ es', e.1 ≠ c)
    (hother : c ≠ c' → items' = items) (htidy : c = c' → deal = .tidy → items' = []) :
    (items' = [] ∧ ∀ e ∈ rest, e.1 ≠ c) ∨
      ∃ es es', rest = es ++ (c, .tidy) :: es' ∧ ∀ e ∈ es', e.1 ≠ c := by
  rcases h with ⟨hempty, hnot⟩ | ⟨es, es', hes, hnot⟩
  · have hne : c' ≠ c := hnot _ List.mem_cons_self
    exact Or.inl ⟨(hother hne.symm).trans hempty, fun e he => hnot e (List.mem_cons_of_mem _ he)⟩
  · cases es with
    | nil =>
        obtain ⟨heq, rfl⟩ := List.cons.inj hes
        obtain ⟨rfl, rfl⟩ := Prod.mk.inj heq
        exact Or.inl ⟨htidy rfl rfl, hnot⟩
    | cons e es => exact Or.inr ⟨es, es', (List.cons.inj hes).2, hnot⟩

/-- **Each call goes through, and keeps the books.** -/
theorem Replay.Books.step (h : r.Books) {ptr : Nat} (hhonest : r.honest ptr) :
    ∃ r', r.step ptr = .ok r' ∧ r'.Books := by
  obtain ⟨m, out, rest⟩ := r
  have hsettles := h.settles
  have hdrained := h.drained
  cases rest with
  | nil => exact ⟨_, rfl, h⟩
  | cons entry rest =>
      obtain ⟨c, deal⟩ := entry
      cases deal with
      | take a =>
          have hallowed := hhonest c a rfl
          obtain ⟨chunk, m', hmalloc, _, hsound, htaken, hout, _, hper, _⟩ := h.sound.malloc hallowed
          refine ⟨⟨m', (a, chunk) :: out, rest⟩, ?_, hsound,
            h.sound.noneComplete_of_taken h.none hper htaken, ?_, hsettles, fun c' => ?_⟩
          · simp only [Replay.step, hmalloc]
          · show (chunk :: out.map Prod.snd).Perm m'.handedOut
            rw [hout]
            exact h.chunks.cons chunk
          · refine drained_tail (hdrained c') (fun hc => ?_) (fun _ heq => by cases heq)
            rw [h.sound.malloc_others hallowed hc hmalloc]
      | give a =>
          obtain ⟨s, hs, hsettles⟩ := hsettles
          have hmem : a ∈ out.map Prod.fst := by
            rw [← Multiset.mem_coe, hs]
            exact Multiset.mem_cons_self a s
          obtain ⟨e, hfind⟩ : ∃ e, out.find? (fun e => e.1 = a) = some e := by
            obtain ⟨e, he, hea⟩ := List.mem_map.1 hmem
            exact Option.isSome_iff_exists.1 (List.find?_isSome.2 ⟨e, he, by simpa using hea⟩)
          have he : e ∈ out := List.mem_of_find?_eq_some hfind
          have hea : e.1 = a := by simpa using List.find?_some hfind
          have hcons : out.Perm (e :: out.erase e) := List.perm_cons_erase he
          have hchunk : e.2 ∈ m.handedOut := h.chunks.mem_iff.1 (List.mem_map_of_mem he)
          refine ⟨⟨cacheFree c e.2 m, out.erase e, rest⟩, ?_, h.sound.free c hchunk, h.none, ?_, ?_,
            fun c' => ?_⟩
          · simp only [Replay.step, hfind]
          · show ((out.erase e).map Prod.snd).Perm (m.handedOut.erase e.2)
            refine (List.perm_cons e.2).1 ?_
            exact ((hcons.map Prod.snd).symm.trans h.chunks).trans (List.perm_cons_erase hchunk)
          · have hrest : (((out.erase e).map Prod.fst : List α) : Multiset α) = s := by
              refine (Multiset.cons_inj_right a).1 ?_
              rw [← hs, Multiset.cons_coe]
              exact Multiset.coe_eq_coe.2 (by rw [← hea]; exact (hcons.map Prod.fst).symm)
            show Settles _ (((out.erase e).map Prod.fst : List α) : Multiset α) 0
            rw [hrest]
            exact hsettles
          · refine drained_tail (hdrained c') (fun hc => ?_) (fun _ heq => by cases heq)
            show (Function.update m.cache c _ c').items = _
            rw [Function.update_of_ne hc]
      | tidy =>
          obtain ⟨m', hdrain, hsound, hnone, hout, _, _, hempty, hothers⟩ := h.sound.drain h.none c
          refine ⟨⟨m', out, rest⟩, ?_, hsound, hnone, ?_, hsettles, fun c' => ?_⟩
          · simp only [Replay.step, hdrain]
          · rw [hout]
            exact h.chunks
          · refine drained_tail (hdrained c') (fun hc => ?_) (fun heq _ => heq ▸ hempty)
            rw [hothers c' hc]

theorem books_reachable {r₀ : Replay ι α} (hr : Runs Replay.step Replay.honest r₀ r)
    (h : r₀.Books) : r.Books := by
  refine hr.invariant (fun ptr t t' ht hhonest hstep => ?_) h
  obtain ⟨t'', hstep', hbooks⟩ := ht.step hhonest
  cases hstep'.symm.trans hstep
  exact hbooks

omit [DecidableEq ι] [DecidableEq α] in
/-- With nothing to come, everything is back. -/
theorem Replay.Books.closed (h : r.Books) (hrest : r.rest = []) :
    r.mem.handedOut = [] ∧ ∀ c, (r.mem.cache c).items = [] := by
  constructor
  · have hsettles := h.settles
    rw [hrest] at hsettles
    have hout : r.out.map Prod.fst = [] := (Multiset.coe_eq_zero _).1 hsettles
    have hchunks := h.chunks
    rw [List.map_eq_nil_iff.1 hout] at hchunks
    exact List.nil_perm.1 hchunks
  · intro c
    rcases h.drained c with ⟨hempty, _⟩ | ⟨es, es', hes, _⟩
    · exact hempty
    · rw [hrest] at hes
      exact absurd hes.symm (by simp)

/-- **A history that settles frees its zone.** -/
theorem freesZone_of_settles {chunkSize : Nat} {m₀ : Mem ι} {deals : List (ι × Deal α)}
    (hinit : initMemZone chunkSize = some m₀) (hsettles : Settles (deals.map Prod.snd) 0 0)
    (hdrained : ∀ c, DrainedLast c deals) : FreesZone m₀ deals := by
  obtain ⟨hsound, hnone⟩ := Mem.Sound.init hinit
  have hempty : m₀.handedOut = [] ∧ ∀ c, (m₀.cache c).items = [] := by
    simp only [initMemZone] at hinit
    split at hinit
    · cases hinit
    · cases hinit
      exact ⟨rfl, fun _ => rfl⟩
  have hbooks : Replay.Books ⟨m₀, [], deals⟩ := by
    refine ⟨hsound, hnone, ?_, hsettles, fun c => ?_⟩
    · rw [hempty.1]
      exact List.Perm.nil
    · exact (hdrained c).imp_left fun hnot => ⟨hempty.2 c, hnot⟩
  intro r hr
  have h := books_reachable hr hbooks
  refine ⟨fun ptr hhonest => ?_, fun hrest => ?_⟩
  · obtain ⟨r', hstep, _⟩ := h.step hhonest
    exact ⟨r', hstep⟩
  · obtain ⟨hout, hcaches⟩ := h.closed hrest
    exact ⟨hout, hcaches, h.sound.none_live h.none hout hcaches,
      h.sound.zoneFree h.none hout hcaches⟩

end Msock
