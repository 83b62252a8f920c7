import Msock.Queue.UpqueueProof

/-!
# umap.c: numbers for pointers

A table of `map_sz` slots hands out numbers: slot `i` is known by numbers that are
`i` modulo `map_sz`. Free slots wait in the queue of `upqueue.h`. `umap_add` takes the
first of them and advances the counter to the next number of that slot, starting over
from 0 when it would reach `max_counter`; `umap_get` finds the slot by the residue and
compares the whole number.

`unsigned long` is a natural number below `2^64`; sums and differences are reduced.
The slot's `meta` is identified with its `idx`, which `umap_new` sets once and
nothing changes; what is left of it is the head `in_queue`, and the heads of all slots
are the memory the free queue is linked through. `int x` holds a value of at most
`map_sz`, which is below `2^31` wherever a map is used.
-/

namespace Msock

open Lib

universe u
variable {ρ : Type u}

/-- An `unsigned long` result. -/
def ulong (n : Nat) : Nat := n % 2 ^ 64

/-- `a - b` in `unsigned long`. -/
def ulongSub (a b : Nat) : Nat := (a + 2 ^ 64 - b) % 2 ^ 64

/-- `struct umap_data`. -/
structure UmapData (ρ : Type u) where
  no : Nat
  ptr : Option ρ

/-- `struct umap_root`, with `meta[i].in_queue` for every slot `i`. -/
structure UmapRoot (ρ : Type u) where
  counter : Nat
  maxCounter : Nat
  freeItems : QueueRoot Nat
  inQueue : Links Nat
  mapSz : Nat
  data : Nat → UmapData ρ

/-! ## The free queue -/

/-- The slots `xs` wait in the free queue of a map of `mapSz` slots, in that order. -/
structure FreeSlots (mapSz : Nat) (freeItems : QueueRoot Nat) (inQueue : Links Nat)
    (xs : List Nat) : Prop where
  heads : ∀ i < mapSz, (inQueue i).isSome
  queue : Repr inQueue freeItems (Queue.ofList xs)
  slots : ∀ i ∈ xs, i < mapSz

section FreeSlots
variable {mapSz i : Nat} {freeItems freeItems' : QueueRoot Nat} {inQueue inQueue' : Links Nat}
  {xs : List Nat}

/-- No slot waits twice. -/
theorem FreeSlots.nodup (h : FreeSlots mapSz freeItems inQueue xs) : xs.Nodup := h.queue.nodup

theorem freeSlots_init (heads : ∀ i < mapSz, (inQueue i).isSome) :
    FreeSlots mapSz initQueueRoot inQueue [] := ⟨heads, repr_init _, by simp⟩

/-- `INIT_QUEUE_HEAD` of a slot that does not wait. -/
theorem FreeSlots.initHead (h : FreeSlots mapSz freeItems inQueue xs) (hmem : i ∉ xs) :
    FreeSlots mapSz freeItems (initQueueHead inQueue i) xs :=
  ⟨fun j hj => isSome_update (h.heads j hj), h.queue.update hmem, h.slots⟩

/-- `queue_put` of a slot that does not wait. -/
theorem FreeSlots.put (h : FreeSlots mapSz freeItems inQueue xs) (hi : i < mapSz) (hmem : i ∉ xs) :
    ∃ freeItems' inQueue', queuePut i freeItems inQueue = some (xs.isEmpty, freeItems', inQueue') ∧
      FreeSlots mapSz freeItems' inQueue' (xs ++ [i]) := by
  obtain ⟨freeItems', inQueue', hput, hrepr, -, hheads⟩ := h.queue.put (h.heads i hi) hmem
  rw [Queue.put_ofList] at hput hrepr
  refine ⟨freeItems', inQueue', hput, fun j hj => (hheads j).trans (h.heads j hj), hrepr, ?_⟩
  intro j hj
  rcases List.mem_append.1 hj with hj | hj
  · exact h.slots j hj
  · exact List.mem_singleton.1 hj ▸ hi

/-- `queue_get` with no slot waiting. -/
theorem FreeSlots.get_nil (h : FreeSlots mapSz freeItems inQueue []) :
    queueGet freeItems inQueue = some (none, freeItems, inQueue) := h.queue.get

/-- `queue_get` takes the first slot. -/
theorem FreeSlots.get_cons (h : FreeSlots mapSz freeItems inQueue (i :: xs)) :
    ∃ freeItems' inQueue', queueGet freeItems inQueue = some (some i, freeItems', inQueue') ∧
      FreeSlots mapSz freeItems' inQueue' xs := by
  have hget := h.queue.get
  rw [Queue.get_ofList_cons] at hget
  obtain ⟨freeItems', hget, hrepr⟩ := hget
  exact ⟨freeItems', _, hget, fun j hj => isSome_update (h.heads j hj), hrepr,
    fun j hj => h.slots j (List.mem_cons_of_mem _ hj)⟩

/-- What `queue_get` returned was the first slot. -/
theorem FreeSlots.of_get (h : FreeSlots mapSz freeItems inQueue xs)
    (hget : queueGet freeItems inQueue = some (some i, freeItems', inQueue')) :
    ∃ ys, xs = i :: ys ∧ FreeSlots mapSz freeItems' inQueue' ys := by
  cases xs with
  | nil => rw [h.get_nil] at hget; cases hget
  | cons j ys =>
      obtain ⟨_, _, hcons, hys⟩ := h.get_cons
      rw [hcons] at hget
      cases hget
      exact ⟨ys, rfl, hys⟩

/-- `queue_get` returns NULL when no slot waits. -/
theorem FreeSlots.of_get_none (h : FreeSlots mapSz freeItems inQueue xs)
    (hget : queueGet freeItems inQueue = some (none, freeItems', inQueue')) : xs = [] := by
  cases xs with
  | nil => rfl
  | cons j ys =>
      obtain ⟨_, _, hcons, -⟩ := h.get_cons
      rw [hcons] at hget
      cases hget

end FreeSlots

/-! ## The functions -/

/-- The loop of `umap_new` over the slots. -/
def umapNewLoop : List Nat → QueueRoot Nat → Links Nat → Option (QueueRoot Nat × Links Nat)
  | [], root, h => some (root, h)
  | i :: is, root, h => do
      let (_, root, h) ← queuePut i root (initQueueHead h i)
      umapNewLoop is root h

/-- The loop queues the slots in order. -/
theorem umapNewLoop_freeSlots {mapSz : Nat} (is : List Nat) :
    ∀ {root : QueueRoot Nat} {h : Links Nat} {xs : List Nat}, FreeSlots mapSz root h xs →
      (∀ i ∈ is, i < mapSz) → (xs ++ is).Nodup →
      ∃ root' h', umapNewLoop is root h = some (root', h') ∧ FreeSlots mapSz root' h' (xs ++ is) := by
  induction is with
  | nil =>
      intro root h xs hfree _ _
      exact ⟨root, h, rfl, by rwa [List.append_nil]⟩
  | cons i is ih =>
      intro root h xs hfree hlt hnodup
      have hmem : i ∉ xs := fun hm =>
        (List.nodup_append.1 hnodup).2.2 i hm i List.mem_cons_self rfl
      obtain ⟨root', h', hput, hfree'⟩ :=
        (hfree.initHead hmem).put (hlt i List.mem_cons_self) hmem
      rw [List.append_cons] at hnodup ⊢
      obtain ⟨root'', h'', hloop, hfree''⟩ :=
        ih hfree' (fun j hj => hlt j (List.mem_cons_of_mem _ hj)) hnodup
      exact ⟨root'', h'', by simpa only [umapNewLoop, hput, Option.bind_eq_bind, Option.bind_some]
        using hloop, hfree''⟩

/-- The zeroed heads of `mapSz` slots. -/
def callocMeta (mapSz : Nat) : Links Nat := fun i => if i < mapSz then some .null else none

theorem umapNewLoop_range (mapSz : Nat) :
    ∃ root h, umapNewLoop (List.range mapSz) initQueueRoot (callocMeta mapSz) = some (root, h) ∧
      FreeSlots mapSz root h (List.range mapSz) :=
  umapNewLoop_freeSlots (List.range mapSz)
    (show FreeSlots mapSz initQueueRoot (callocMeta mapSz) [] from
      freeSlots_init (fun i hi => by simp [callocMeta, hi]))
    (fun i hi => List.mem_range.1 hi) List.nodup_range

theorem umapNewLoop_isSome (mapSz : Nat) :
    (umapNewLoop (List.range mapSz) initQueueRoot (callocMeta mapSz)).isSome := by
  obtain ⟨root, h, hloop, -⟩ := umapNewLoop_range mapSz
  rw [hloop]
  rfl

/-- `umap_new`. -/
def umapNew (mapSz maxCounter : Nat) : UmapRoot ρ :=
  let queued :=
    (umapNewLoop (List.range mapSz) initQueueRoot (callocMeta mapSz)).get (umapNewLoop_isSome mapSz)
  { counter := 1
    maxCounter := maxCounter
    freeItems := queued.1
    inQueue := queued.2
    mapSz := mapSz
    data := fun _ => ⟨0, none⟩ }

/-- The distance from the counter to the next number of slot `idx`, never 0. -/
def countX (root : UmapRoot ρ) (idx counter : Nat) : Nat :=
  let x := ulongSub (ulong (root.mapSz + idx)) (counter % root.mapSz) % root.mapSz
  if x = 0 then root.mapSz else x

/--
The `count_again` loop of `umap_add`: the distance taken last and the number it
leads to. `none` when it has not settled after `fuel` attempts.
-/
def countAgain (root : UmapRoot ρ) (idx : Nat) : Nat → Nat → Option (Nat × Nat)
  | 0, _ => none
  | fuel + 1, counter =>
      let x := countX root idx counter
      let counter := ulong (counter + x)
      if counter ≥ root.maxCounter then countAgain root idx fuel 0
      else some (x, counter)

/--
`umap_add`: the new number, or 0 when no slot is free. `none` is a failed assert, a bad
pointer in the free queue, or a count that does not settle after one restart.
-/
def umapAdd (root : UmapRoot ρ) (ptr : ρ) : Option (Nat × UmapRoot ρ) :=
  match queueGet root.freeItems root.inQueue with
  | none => none
  | some (none, _, _) => some (0, root)
  | some (some idx, freeItems, inQueue) =>
      match countAgain root idx 2 root.counter with
      | none => none
      | some (x, no) =>
          if no % root.mapSz = idx ∧ 0 < x then
            some (no, { root with
              counter := no
              freeItems := freeItems
              inQueue := inQueue
              data := Function.update root.data idx ⟨no, some ptr⟩ })
          else none

/-- `umap_del`. `none` is a write through a bad pointer in the free queue. -/
def umapDel (root : UmapRoot ρ) (no : Nat) : Option (UmapRoot ρ) :=
  let idx := no % root.mapSz
  if (root.data idx).no ≠ no then
    -- not registered
    some root
  else
    (queuePut idx root.freeItems root.inQueue).map (fun (_, freeItems, inQueue) =>
      { root with
        data := Function.update root.data idx ⟨0, none⟩
        freeItems := freeItems
        inQueue := inQueue })

/-- `umap_get`. -/
def umapGet (root : UmapRoot ρ) (no : Nat) : Option ρ :=
  let data := root.data (no % root.mapSz)
  if data.no ≠ no then
    -- not registered
    none
  else data.ptr

end Msock
