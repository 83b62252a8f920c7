import Msock.Lib.Runs
import Msock.Queue.Upqueue

/-!
# memalloc.c: the slab allocator

A `mem_zone` cuts pages into chunks of one size. A free chunk is in the queue of its
own page or in the queue of a `mem_cache`; `_cache_malloc` and `_cache_free` touch only
a cache, `_cache_fill` moves the free chunks of whole pages into one, `cache_drain`
takes every chunk of a cache home and frees the pages that are complete again.

Addresses are numbers. The pages are the memory the allocator has from
`posix_memalign` and has not freed; what `posix_memalign` returns is an argument of
every call that may need it. Counters of type `unsigned int` are kept modulo `2 ^ 32`.
The spin lock makes a fill or a drain one step, and a cache belongs to one domain.
-/

namespace Msock

open Lib



/-- `PAGE_SIZE`. -/
def pageSize : Nat := 4096

/-- `CACHELINE_SIZE`. -/
def cachelineSize : Nat := 64

/-- `cacheline_align`. -/
def cachelineAlign (i : Nat) : Nat := (i + (cachelineSize - 1)) / cachelineSize * cachelineSize

/-- `sizeof(struct mem_page)`: a list head, a queue root and an `int`, padded. -/
def sizeofMemPage : Nat := 40

/-- `sizeof(struct mem_chunk)`. -/
def sizeofMemChunk : Nat := 8

/-- `struct mem_page`, less its list head. -/
structure MemPage where
  queueOfFreeChunks : Queue Nat
  freeChunks : Nat

/-- `struct mem_zone`. -/
structure MemZone where
  chunkSize : Nat
  alignedChunkSize : Nat
  chunksPerPage : Nat
  allocPages : Nat
  freedPages : Nat
  freeChunks : Nat
  /-- The addresses of the pages on `list_of_pages`, from its head. -/
  listOfPages : List Nat

/-- Why the allocator does not return. -/
inductive MemFault where
  /-- `abort()`. -/
  | abort
  /-- A page header that is in no page of the allocator is read or written. -/
  | noPage
  /-- `list_del` of a page that is not on the list. -/
  | unlisted
  /-- The bound on the turns of a loop was too low. -/
  | fuel
  deriving DecidableEq

/-- Ghost: what `page_free` found when it freed `page`. -/
structure PageFree (ι : Type) where
  page : Nat
  handedOut : List Nat
  cached : ι → List Nat

/-- One zone, its caches, named by `ι`, and the memory it manages. -/
structure Mem (ι : Type) where
  zone : MemZone
  pages : Nat → Option MemPage
  cache : ι → Queue Nat
  /-- Ghost: the chunks `_cache_malloc` returned and no `_cache_free` took back. -/
  handedOut : List Nat
  /-- Ghost: the addresses of the pages. -/
  live : List Nat
  /-- Ghost: the calls of `page_free` so far. -/
  frees : List (PageFree ι)
  /-- Ghost: an addition to `zone->free_chunks` passed `2 ^ 32`. -/
  wrapped : Bool
  /-- Ghost: a subtraction from `zone->free_chunks` passed 0. -/
  underflowed : Bool

variable {ι : Type}

/-- `init_mem_zone`, `none` where it aborts; no cache has a chunk. -/
def initMemZone (chunkSize : Nat) : Option (Mem ι) :=
  let alignedChunkSize := cachelineAlign chunkSize
  let availBytes := pageSize - cachelineAlign sizeofMemPage
  let chunksPerPage := availBytes / alignedChunkSize
  if chunkSize < sizeofMemChunk ∨ chunksPerPage < 2 then none
  else some {
    zone := ⟨chunkSize, alignedChunkSize, chunksPerPage, 0, 0, 0, []⟩
    pages := fun _ => none
    cache := fun _ => Queue.init
    handedOut := []
    live := []
    frees := []
    wrapped := false
    underflowed := false }

/-- `zone_free`. -/
def zoneFree (m : Mem ι) : Except MemFault Unit :=
  if m.zone.listOfPages ≠ [] then .error .abort
  else if m.zone.freedPages ≠ m.zone.allocPages then .error .abort
  else if m.zone.freeChunks ≠ 0 then .error .abort
  else .ok ()

/-- `_page_from_chunk`. -/
def pageFromChunk (chunk : Nat) : Nat := chunk &&& (2 ^ 64 - 1 - (pageSize - 1))

/-- `struct mem_page` at an address. -/
def Mem.page (m : Mem ι) (p : Nat) : Except MemFault MemPage :=
  match m.pages p with
  | some page => .ok page
  | none => .error .noPage

def Mem.setPage (p : Nat) (page : MemPage) (m : Mem ι) : Mem ι :=
  { m with pages := Function.update m.pages p (some page) }

def Mem.setCache [DecidableEq ι] (c : ι) (q : Queue Nat) (m : Mem ι) : Mem ι :=
  { m with cache := Function.update m.cache c q }

/-- `list_add` to `list_of_pages`. -/
def Mem.listAdd (p : Nat) (m : Mem ι) : Mem ι :=
  { m with zone := { m.zone with listOfPages := p :: m.zone.listOfPages } }

/-- `list_del` from `list_of_pages`. -/
def Mem.listDel (p : Nat) (m : Mem ι) : Except MemFault (Mem ι) :=
  if p ∈ m.zone.listOfPages then
    .ok { m with zone := { m.zone with listOfPages := m.zone.listOfPages.erase p } }
  else .error .unlisted

/-- `zone->free_chunks += n`. -/
def Mem.addFreeChunks (n : Nat) (m : Mem ι) : Mem ι :=
  { m with
    zone := { m.zone with freeChunks := (m.zone.freeChunks + n) % 2 ^ 32 }
    wrapped := m.wrapped || decide (2 ^ 32 ≤ m.zone.freeChunks + n) }

/-- `zone->free_chunks -= n`, for an `n` that an `int` holds. -/
def Mem.subFreeChunks (n : Nat) (m : Mem ι) : Mem ι :=
  { m with
    zone := { m.zone with freeChunks := (m.zone.freeChunks + 2 ^ 32 - n) % 2 ^ 32 }
    underflowed := m.underflowed || decide (m.zone.freeChunks < n) }

/-- The loop of `page_alloc`: put `n` chunks, `aligned` bytes apart. -/
def carve (aligned : Nat) : Nat → Nat → Queue Nat → Queue Nat
  | 0, _, q => q
  | n + 1, chunk, q => carve aligned n (chunk + aligned) (q.putHead chunk).2

/-- `page_alloc`, when `posix_memalign` returns `ptr`. -/
def pageAlloc (ptr : Nat) (m : Mem ι) : Mem ι :=
  let m := m.listAdd ptr
  let freeChunks := m.zone.chunksPerPage
  let m := m.addFreeChunks freeChunks
  let chunks := carve m.zone.alignedChunkSize freeChunks
    (ptr + cachelineAlign sizeofMemPage) Queue.init
  let m := m.setPage ptr ⟨chunks, freeChunks⟩
  { m with
    zone := { m.zone with allocPages := (m.zone.allocPages + 1) % 2 ^ 32 }
    live := ptr :: m.live }

/-- `page_free`. -/
def pageFree (p : Nat) (m : Mem ι) : Except MemFault (Mem ι) := do
  let page ← m.page p
  if page.freeChunks ≠ m.zone.chunksPerPage then .error .abort
  else
    let m := m.subFreeChunks page.freeChunks
    let m ← m.listDel p
    return { m with
      zone := { m.zone with freedPages := (m.zone.freedPages + 1) % 2 ^ 32 }
      pages := Function.update m.pages p none
      live := m.live.erase p
      frees := m.frees ++ [⟨p, m.handedOut, fun c => (m.cache c).items⟩] }

variable [DecidableEq ι]

/-- One turn of the loop of `_cache_fill`: the chunks of the page move to the cache. -/
def takePage (c : ι) (head : Nat) (m : Mem ι) : Except MemFault (Nat × Mem ι) := do
  let page ← m.page head
  let (src, dst) := page.queueOfFreeChunks.splice (m.cache c)
  let m := m.setCache c dst
  let m ← m.listDel head
  let m := m.subFreeChunks page.freeChunks
  return (page.freeChunks, m.setPage head ⟨src, 0⟩)

/-- The loop of `_cache_fill` over the pages that were listed when it started. -/
def cacheFillLoop (c : ι) : List Nat → Nat → Mem ι → Except MemFault (Mem ι)
  | [], _, m => .ok m
  | head :: safe, chunks, m => do
      let (n, m) ← takePage c head m
      -- a page's worth of chunks is enough
      if m.zone.chunksPerPage ≤ chunks + n then return m
      else cacheFillLoop c safe (chunks + n) m

/-- `_cache_fill`. -/
def cacheFill (c : ι) (ptr : Nat) (m : Mem ι) : Except MemFault (Mem ι) :=
  let m := if m.zone.freeChunks < m.zone.chunksPerPage then pageAlloc ptr m else m
  cacheFillLoop c m.zone.listOfPages 0 m

/-- One turn of the loop of `cache_drain`: a chunk goes home. -/
def putHome (chunk : Nat) (m : Mem ι) : Except MemFault (Mem ι) := do
  let p := pageFromChunk chunk
  let page ← m.page p
  let chunks := (page.queueOfFreeChunks.putHead chunk).2
  -- a page with no free chunk is not on the list
  let m := if page.freeChunks = 0 then m.listAdd p else m
  let m := m.setPage p ⟨chunks, page.freeChunks + 1⟩
  let m := m.addFreeChunks 1
  if page.freeChunks + 1 = m.zone.chunksPerPage then pageFree p m else return m

/-- The loop of `cache_drain`, in at most `fuel` turns. -/
def cacheDrainLoop (c : ι) : Nat → Mem ι → Except MemFault (Mem ι)
  | 0, _ => .error .fuel
  | fuel + 1, m =>
      match (m.cache c).get with
      | none => .ok m
      | some (chunk, q) => do
          let m ← putHome chunk (m.setCache c q)
          cacheDrainLoop c fuel m

/-- `cache_drain`. -/
def cacheDrain (c : ι) (m : Mem ι) : Except MemFault (Mem ι) :=
  cacheDrainLoop c ((m.cache c).items.length + 1) m

/-- `queue_get` from a cache, for `_cache_malloc`; `none` is a NULL head. -/
def Mem.takeChunk (c : ι) (m : Mem ι) : Option Nat × Mem ι :=
  match (m.cache c).get with
  | none => (none, m)
  | some (chunk, q) => (some chunk, { m.setCache c q with handedOut := chunk :: m.handedOut })

/-- `_cache_malloc`, when `posix_memalign` would return `ptr`; `none` is a NULL chunk. -/
def cacheMalloc (c : ι) (ptr : Nat) (m : Mem ι) : Except MemFault (Option Nat × Mem ι) :=
  if (m.cache c).items = [] then do
    -- under the zone's lock, and so one step
    let m ← cacheFill c ptr m
    return m.takeChunk c
  else .ok (m.takeChunk c)

/-- `_cache_free`. -/
def cacheFree (c : ι) (chunk : Nat) (m : Mem ι) : Mem ι :=
  { m.setCache c ((m.cache c).putHead chunk).2 with handedOut := m.handedOut.erase chunk }

/-! ## Runs of the allocator -/

/-- What the users of a zone do. -/
inductive MemAct (ι : Type) where
  /-- `_cache_malloc`, and what `posix_memalign` returns should it be called. -/
  | malloc (c : ι) (ptr : Nat)
  /-- `_cache_free`. -/
  | free (c : ι) (chunk : Nat)
  /-- `cache_drain`. -/
  | drain (c : ι)
  deriving DecidableEq

/-- One call. -/
def Mem.step (a : MemAct ι) (m : Mem ι) : Except MemFault (Mem ι) :=
  match a with
  | .malloc c ptr => do
      let (_, m) ← cacheMalloc c ptr m
      return m
  | .free c chunk => .ok (cacheFree c chunk m)
  | .drain c => cacheDrain c m

/-- A page-aligned address in a 64-bit space where the allocator has no page. -/
def Mem.Fresh (m : Mem ι) (ptr : Nat) : Prop :=
  pageSize ∣ ptr ∧ ptr + pageSize ≤ 2 ^ 64 ∧ m.pages ptr = none

instance (m : Mem ι) (ptr : Nat) : Decidable (m.Fresh ptr) :=
  inferInstanceAs (Decidable (_ ∧ _ ∧ _))

/-- Only chunks that are handed out are freed, and `posix_memalign` returns fresh pages. -/
def Mem.allowed (m : Mem ι) : MemAct ι → Prop
  | .malloc c ptr =>
      (m.cache c).items = [] → m.zone.freeChunks < m.zone.chunksPerPage → m.Fresh ptr
  | .free _ chunk => chunk ∈ m.handedOut
  | .drain _ => True

instance (m : Mem ι) (a : MemAct ι) : Decidable (m.allowed a) := by
  cases a <;> unfold Mem.allowed <;> infer_instance

end Msock
