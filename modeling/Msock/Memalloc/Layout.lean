import Msock.Memalloc
import Msock.Queue.UpqueueProof

/-!
# How a page is laid out

The header takes the first cache line of a page, and the chunks follow it, a whole number
of cache lines apart, as many as fit. The page is aligned to its own size, which is a
power of two, so masking the low bits of a chunk's address gives the page.
-/

namespace Msock

open Lib

variable {ι : Type}

/-! ## Rounding and masking -/

theorem le_cachelineAlign (i : Nat) : i ≤ cachelineAlign i := by
  unfold cachelineAlign cachelineSize
  omega

theorem dvd_cachelineAlign (i : Nat) : cachelineSize ∣ cachelineAlign i :=
  Dvd.intro_left _ rfl

/-- The mask of `_page_from_chunk` clears the bits below the page size. -/
theorem pageFromChunk_eq {chunk : Nat} (h : chunk < 2 ^ 64) :
    pageFromChunk chunk = chunk / pageSize * pageSize := by
  have hmask : 2 ^ 64 - 1 - (pageSize - 1) = (2 ^ 52 - 1) <<< 12 := by decide
  have hpage : chunk / pageSize * pageSize = (chunk >>> 12) <<< 12 := by
    rw [Nat.shiftLeft_eq, Nat.shiftRight_eq_div_pow]
    rfl
  unfold pageFromChunk
  rw [hmask, hpage]
  refine Nat.eq_of_testBit_eq fun i => ?_
  rw [Nat.testBit_and, Nat.testBit_shiftLeft, Nat.testBit_shiftLeft, Nat.testBit_shiftRight,
    Nat.testBit_two_pow_sub_one]
  by_cases hi : 12 ≤ i
  · by_cases hlt : i - 12 < 52
    · simp [hi, hlt]
    · have hbit : chunk.testBit i = false :=
        Nat.testBit_lt_two_pow (Nat.lt_of_lt_of_le h (Nat.pow_le_pow_right (by decide) (by omega)))
      simp [hi, hlt, hbit]
  · simp [hi]

/-- An address inside an aligned page leads back to the page. -/
theorem pageFromChunk_of_mem {ptr chunk : Nat} (hptr : pageSize ∣ ptr)
    (hfit : ptr + pageSize ≤ 2 ^ 64) (hlow : ptr ≤ chunk) (hhigh : chunk < ptr + pageSize) :
    pageFromChunk chunk = ptr := by
  obtain ⟨k, rfl⟩ := hptr
  rw [pageFromChunk_eq (by omega)]
  unfold pageSize at *
  omega

/-! ## The chunks of a page -/

/-- The sizes of a zone fit: what `init_mem_zone` leaves. -/
structure MemZone.Cut (zone : MemZone) : Prop where
  chunk : sizeofMemChunk ≤ zone.chunkSize
  room : zone.chunkSize ≤ zone.alignedChunkSize
  aligned : cachelineSize ∣ zone.alignedChunkSize
  two : 2 ≤ zone.chunksPerPage
  fits : cachelineAlign sizeofMemPage + zone.chunksPerPage * zone.alignedChunkSize ≤ pageSize

theorem cut_of_initMemZone {chunkSize : Nat} {m : Mem ι} (h : initMemZone chunkSize = some m) :
    m.zone.Cut ∧ m.zone.chunkSize = chunkSize := by
  simp only [initMemZone] at h
  split at h
  · cases h
  · rename_i hok
    rw [not_or, Nat.not_lt, Nat.not_lt] at hok
    cases h
    refine ⟨⟨hok.1, le_cachelineAlign chunkSize, dvd_cachelineAlign chunkSize, hok.2, ?_⟩, rfl⟩
    have hdiv := Nat.div_mul_le_self (pageSize - cachelineAlign sizeofMemPage)
      (cachelineAlign chunkSize)
    have hheader : cachelineAlign sizeofMemPage ≤ pageSize := by decide
    show cachelineAlign sizeofMemPage + (pageSize - cachelineAlign sizeofMemPage)
      / cachelineAlign chunkSize * cachelineAlign chunkSize ≤ pageSize
    omega

/-- The address of the `k`th chunk of a page. -/
def MemZone.chunkAt (zone : MemZone) (ptr k : Nat) : Nat :=
  ptr + cachelineAlign sizeofMemPage + k * zone.alignedChunkSize

/-- The chunks of a page. -/
def MemZone.chunks (zone : MemZone) (ptr : Nat) : List Nat :=
  (List.range zone.chunksPerPage).map (zone.chunkAt ptr)

/-- `queue_put_head` puts in front. -/
theorem putHead_items (q : Queue Nat) (chunk : Nat) :
    (q.putHead chunk).2.items = chunk :: q.items := by
  unfold Queue.putHead
  split
  · rename_i hnil; rw [List.isEmpty_iff.1 hnil]
  · rfl

theorem Queue.Whole.putHead {q : Queue Nat} (h : q.Whole) (chunk : Nat) :
    (q.putHead chunk).2.Whole := by
  unfold Queue.putHead
  split
  · exact fun _ => rfl
  · rename_i hne; exact fun _ => h (fun hnil => hne (List.isEmpty_iff.2 hnil))

/-- Where the chunks are put: the last one first. -/
theorem carve_items (aligned n chunk : Nat) (q : Queue Nat) :
    (carve aligned n chunk q).items
      = ((List.range n).map (fun k => chunk + k * aligned)).reverse ++ q.items := by
  induction n generalizing chunk q with
  | zero => rfl
  | succ n ih =>
      have hshift : (fun k => chunk + aligned + k * aligned)
          = (fun k => chunk + k * aligned) ∘ Nat.succ := by
        funext k
        show chunk + aligned + k * aligned = chunk + (k + 1) * aligned
        ring
      rw [carve, ih, putHead_items, List.range_succ_eq_map, List.map_cons, List.map_map, hshift,
        List.reverse_cons, List.append_assoc, Nat.zero_mul, Nat.add_zero]
      rfl

theorem carve_whole (aligned n chunk : Nat) {q : Queue Nat} (h : q.Whole) :
    (carve aligned n chunk q).Whole := by
  induction n generalizing chunk q with
  | zero => exact h
  | succ n ih => exact ih _ (h.putHead chunk)

section Cut

variable {zone : MemZone} {ptr k l : Nat}

theorem MemZone.mem_chunks {chunk : Nat} :
    chunk ∈ zone.chunks ptr ↔ ∃ k < zone.chunksPerPage, zone.chunkAt ptr k = chunk := by
  simp [MemZone.chunks]

/-- A chunk ends where the next one starts, or before. -/
theorem MemZone.Cut.apart (h : zone.Cut) (ptr : Nat) (hkl : k < l) :
    zone.chunkAt ptr k + zone.chunkSize ≤ zone.chunkAt ptr l := by
  have hmul : (k + 1) * zone.alignedChunkSize ≤ l * zone.alignedChunkSize :=
    Nat.mul_le_mul_right _ hkl
  have hroom := h.room
  rw [Nat.add_mul, Nat.one_mul] at hmul
  unfold MemZone.chunkAt
  omega

/-- A chunk lies inside the page, after the header. -/
theorem MemZone.Cut.inside (h : zone.Cut) (ptr : Nat) (hk : k < zone.chunksPerPage) :
    ptr + cachelineAlign sizeofMemPage ≤ zone.chunkAt ptr k ∧
      zone.chunkAt ptr k + zone.chunkSize ≤ ptr + pageSize := by
  have hlast := h.apart ptr hk
  have hfits := h.fits
  unfold MemZone.chunkAt at *
  omega

theorem MemZone.Cut.line (h : zone.Cut) (hptr : pageSize ∣ ptr) :
    cachelineSize ∣ zone.chunkAt ptr k := by
  have hpage : cachelineSize ∣ pageSize := by decide
  exact Nat.dvd_add (Nat.dvd_add (hpage.trans hptr) (dvd_cachelineAlign _))
    (h.aligned.mul_left k)

/-- The mask credits every chunk to its own page. -/
theorem MemZone.Cut.home (h : zone.Cut) (hptr : pageSize ∣ ptr) (hfit : ptr + pageSize ≤ 2 ^ 64)
    (hk : k < zone.chunksPerPage) : pageFromChunk (zone.chunkAt ptr k) = ptr := by
  obtain ⟨hlow, hhigh⟩ := h.inside ptr hk
  have hsize : 0 < zone.chunkSize := Nat.lt_of_lt_of_le (by decide) h.chunk
  exact pageFromChunk_of_mem hptr hfit (by omega) (by omega)

end Cut

/-- What `page_alloc` puts in the queue of the new page. -/
theorem pageAlloc_page (ptr : Nat) (m : Mem ι) : ∃ page,
    (pageAlloc ptr m).pages ptr = some page ∧ page.freeChunks = m.zone.chunksPerPage ∧
      page.queueOfFreeChunks.items = (m.zone.chunks ptr).reverse ∧
      page.queueOfFreeChunks.Whole := by
  refine ⟨_, Function.update_self .., rfl, ?_, carve_whole _ _ _ Queue.whole_init⟩
  rw [carve_items]
  exact List.append_nil _

/--
**A page holds as many chunks as it is said to, all of them its own.**

Whatever the size that `init_mem_zone` accepts, the chunks that `page_alloc` puts in the
queue of a page lie in the page after its header, start on a cache line, have room for
`chunk_size` bytes, do not overlap, and are credited to the page by their addresses.
-/
theorem page_layout (chunkSize : Nat) (m₀ m : Mem ι) (ptr : Nat)
    (hinit : initMemZone chunkSize = some m₀)
    (hzone : m.zone.alignedChunkSize = m₀.zone.alignedChunkSize ∧
      m.zone.chunksPerPage = m₀.zone.chunksPerPage)
    (hptr : pageSize ∣ ptr) (hfit : ptr + pageSize ≤ 2 ^ 64) :
    ∃ page, (pageAlloc ptr m).pages ptr = some page ∧
      page.queueOfFreeChunks.items.length = m₀.zone.chunksPerPage ∧
      page.freeChunks = m₀.zone.chunksPerPage ∧
      (∀ chunk ∈ page.queueOfFreeChunks.items,
        ptr + sizeofMemPage ≤ chunk ∧ chunk + chunkSize ≤ ptr + pageSize ∧
          cachelineSize ∣ chunk ∧ pageFromChunk chunk = ptr) ∧
      page.queueOfFreeChunks.items.Pairwise
        (fun c d => c + chunkSize ≤ d ∨ d + chunkSize ≤ c) := by
  obtain ⟨hcut, rfl⟩ := cut_of_initMemZone hinit
  have hchunks : m.zone.chunks ptr = m₀.zone.chunks ptr := by
    unfold MemZone.chunks MemZone.chunkAt
    rw [hzone.1, hzone.2]
  obtain ⟨page, hpage, hfree, hitems, _⟩ := pageAlloc_page ptr m
  rw [hchunks] at hitems
  refine ⟨page, hpage, ?_, hfree.trans hzone.2, fun chunk hchunk => ?_, ?_⟩
  · rw [hitems, List.length_reverse, MemZone.chunks, List.length_map, List.length_range]
  · rw [hitems, List.mem_reverse, MemZone.mem_chunks] at hchunk
    obtain ⟨k, hk, rfl⟩ := hchunk
    obtain ⟨hlow, hhigh⟩ := hcut.inside ptr hk
    have hheader := le_cachelineAlign sizeofMemPage
    exact ⟨by omega, hhigh, hcut.line hptr, hcut.home hptr hfit hk⟩
  · rw [hitems, List.pairwise_reverse, MemZone.chunks, List.pairwise_map]
    exact List.pairwise_lt_range.imp fun hlt => Or.inr (hcut.apart ptr hlt)

/-- Messages: fifteen chunks of 256 bytes. -/
theorem page_layout_messages : ∃ page,
    (pageAlloc 8192 ((initMemZone 256).get rfl : Mem Unit)).pages 8192 = some page ∧
      page.queueOfFreeChunks.items.length = 15 ∧ page.freeChunks = 15 ∧
      (∀ chunk ∈ page.queueOfFreeChunks.items,
        8192 + sizeofMemPage ≤ chunk ∧ chunk + 256 ≤ 8192 + pageSize ∧
          cachelineSize ∣ chunk ∧ pageFromChunk chunk = 8192) ∧
      page.queueOfFreeChunks.items.Pairwise (fun c d => c + 256 ≤ d ∨ d + 256 ≤ c) :=
  page_layout 256 _ _ 8192 (Option.some_get rfl).symm ⟨rfl, rfl⟩ (by decide) (by decide)

end Msock
