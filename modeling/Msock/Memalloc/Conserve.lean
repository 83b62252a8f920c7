import Msock.Lib.Spread
import Msock.Memalloc.Layout

/-!
# Nothing is lost or given out twice

Every chunk of a page that the allocator has is in one place: with a user, in the queue
of a cache, or in the queue of its page. Filling a cache moves the free chunks of whole
pages into it, draining one takes them home one by one, and both keep the number on the
page equal to the length of its queue. The number of the zone is their sum, in an
`unsigned int`.
-/

namespace Msock

open Lib

variable {ι : Type}

/-- Where a chunk can be. -/
inductive MemPlace (ι : Type) where
  | handedOut
  | cache (c : ι)
  | page (p : Nat)

/-- The chunks in a place. -/
def Mem.held (m : Mem ι) : MemPlace ι → List Nat
  | .handedOut => m.handedOut
  | .cache c => (m.cache c).items
  | .page p => match m.pages p with
    | some page => page.queueOfFreeChunks.items
    | none => []

/-- The chunks of the pages there are. -/
def Mem.owned (m : Mem ι) : Set Nat := {chunk | ∃ p ∈ m.live, chunk ∈ m.zone.chunks p}

/-- `free_chunks` of a page. -/
def Mem.freeOn (m : Mem ι) (p : Nat) : Nat :=
  match m.pages p with
  | some page => page.freeChunks
  | none => 0

/-- What `free_chunks` of the zone counts. -/
def Mem.listedFree (m : Mem ι) : Nat := (m.zone.listOfPages.map m.freeOn).sum

/-- What holds of the allocator at all times, inside its functions too. -/
structure Mem.Sound (m : Mem ι) : Prop where
  cut : m.zone.Cut
  /-- The pages lie in memory at their addresses. -/
  live : ∀ p, (m.pages p).isSome ↔ p ∈ m.live
  nodup : m.live.Nodup
  aligned : ∀ p ∈ m.live, pageSize ∣ p ∧ p + pageSize ≤ 2 ^ 64
  /-- Each chunk is in one place. -/
  spread : Spread m.owned m.held
  /-- A page's queue holds its own chunks. -/
  home : ∀ p chunk, chunk ∈ m.held (.page p) → chunk ∈ m.zone.chunks p
  whole : (∀ c, (m.cache c).Whole) ∧
    ∀ p page, m.pages p = some page → page.queueOfFreeChunks.Whole
  count : ∀ p, m.freeOn p = (m.held (.page p)).length
  listNodup : m.zone.listOfPages.Nodup
  listed : ∀ p, p ∈ m.zone.listOfPages ↔ 0 < m.freeOn p
  total : m.zone.freeChunks = m.listedFree % 2 ^ 32
  exact : m.wrapped = false → m.zone.freeChunks = m.listedFree ∧ m.underflowed = false
  /-- The pages made are the pages freed and the pages there are. -/
  made : m.zone.allocPages = (m.zone.freedPages + m.live.length) % 2 ^ 32
  freed : m.zone.freedPages < 2 ^ 32
  /-- No page was freed that had a chunk in use. -/
  frees : ∀ f ∈ m.frees, ∀ chunk ∈ m.zone.chunks f.page,
    chunk ∉ f.handedOut ∧ ∀ c, chunk ∉ f.cached c

/-- No page is complete: between calls, such a page is gone. -/
def Mem.NoneComplete (m : Mem ι) : Prop := ∀ p, m.freeOn p < m.zone.chunksPerPage

variable {m : Mem ι} {p : Nat}

/-! ## Chunks and pages -/

theorem chunks_nodup (h : m.zone.Cut) (p : Nat) : (m.zone.chunks p).Nodup := by
  refine List.Nodup.map_on (fun k _ l _ heq => ?_) List.nodup_range
  have hsize : 0 < m.zone.chunkSize := Nat.lt_of_lt_of_le (by decide) h.chunk
  rcases Nat.lt_trichotomy k l with hlt | heq | hlt
  · have := h.apart p hlt; omega
  · exact heq
  · have := h.apart p hlt; omega

/-- The chunks follow from the sizes. -/
theorem chunks_congr {zone zone' : MemZone}
    (haligned : zone'.alignedChunkSize = zone.alignedChunkSize)
    (hper : zone'.chunksPerPage = zone.chunksPerPage) (p : Nat) : zone'.chunks p = zone.chunks p := by
  unfold MemZone.chunks MemZone.chunkAt
  rw [haligned, hper]

theorem chunks_length (zone : MemZone) (p : Nat) : (zone.chunks p).length = zone.chunksPerPage := by
  rw [MemZone.chunks, List.length_map, List.length_range]

/-- A chunk of an aligned page leads back to the page. -/
theorem Mem.Sound.page_of_chunk (h : m.Sound) (hp : p ∈ m.live) {chunk : Nat}
    (hc : chunk ∈ m.zone.chunks p) : pageFromChunk chunk = p := by
  obtain ⟨k, hk, rfl⟩ := MemZone.mem_chunks.1 hc
  obtain ⟨hdvd, hfit⟩ := h.aligned p hp
  exact h.cut.home hdvd hfit hk

/-- What is anywhere is a chunk of the page its address leads to. -/
theorem Mem.Sound.chunk_home (h : m.Sound) {place : MemPlace ι} {chunk : Nat}
    (hc : chunk ∈ m.held place) :
    pageFromChunk chunk ∈ m.live ∧ chunk ∈ m.zone.chunks (pageFromChunk chunk) := by
  obtain ⟨p, hp, hchunk⟩ := (h.spread.covers chunk).2 ⟨place, hc⟩
  rw [h.page_of_chunk hp hchunk]
  exact ⟨hp, hchunk⟩

/-- A page's queue is part of its chunks. -/
theorem Mem.Sound.freeOn_le (h : m.Sound) (p : Nat) : m.freeOn p ≤ m.zone.chunksPerPage := by
  rw [h.count p, ← chunks_length m.zone p]
  exact ((h.spread.nodup _).subperm (h.home p)).length_le

/-- A page whose queue is as long as the page has chunks holds them all. -/
theorem Mem.Sound.complete (h : m.Sound) (hp : m.freeOn p = m.zone.chunksPerPage) {chunk : Nat}
    (hc : chunk ∈ m.zone.chunks p) : chunk ∈ m.held (.page p) := by
  have hsub := (h.spread.nodup (.page p)).subperm (h.home p)
  rw [h.count p, ← chunks_length m.zone p] at hp
  exact (hsub.perm_of_length_le hp.ge).mem_iff.2 hc

theorem Mem.freeOn_eq {page : MemPage} (h : m.pages p = some page) :
    m.freeOn p = page.freeChunks := by
  simp only [Mem.freeOn, h]

theorem Mem.held_page {page : MemPage} (h : m.pages p = some page) :
    m.held (.page p) = page.queueOfFreeChunks.items := by
  simp only [Mem.held, h]

/-- Only a page has free chunks. -/
theorem Mem.page_of_freeOn_pos (h : 0 < m.freeOn p) : ∃ page, m.pages p = some page := by
  unfold Mem.freeOn at h
  split at h
  · exact ⟨_, ‹_›⟩
  · exact absurd h (lt_irrefl 0)

/-- A page with free chunks is there. -/
theorem Mem.Sound.live_of_freeOn_pos (h : m.Sound) (hpos : 0 < m.freeOn p) : p ∈ m.live := by
  obtain ⟨page, hpage⟩ := Mem.page_of_freeOn_pos hpos
  exact (h.live p).1 (by rw [hpage]; rfl)

/-! ## `page_alloc` -/

/-- The free chunks on a list of pages. -/
theorem sum_freeOn_congr {m m' : Mem ι} {ps : List Nat} (h : ∀ p ∈ ps, m'.freeOn p = m.freeOn p) :
    (ps.map m'.freeOn).sum = (ps.map m.freeOn).sum := by
  rw [List.map_congr_left h]

/-- A counter that is kept modulo `2 ^ 32` is exact until it wraps. -/
theorem mod_add_mod {a b n : Nat} (h : a = b % 2 ^ 32) : (a + n) % 2 ^ 32 = (b + n) % 2 ^ 32 := by
  rw [h, Nat.mod_add_mod]

theorem Mem.Sound.pageAlloc (h : m.Sound) {ptr : Nat} (hfresh : m.Fresh ptr) :
    (pageAlloc ptr m).Sound := by
  obtain ⟨hdvd, hfit, hnone⟩ := hfresh
  have hlive : ptr ∉ m.live := fun hm => by
    have := (h.live ptr).2 hm
    rw [hnone] at this
    cases this
  have hzero : m.freeOn ptr = 0 := by simp only [Mem.freeOn, hnone]
  have hlisted : ptr ∉ m.zone.listOfPages := fun hm => by
    have := (h.listed ptr).1 hm
    omega
  obtain ⟨page, hpage, hfree, hitems, hwhole⟩ := pageAlloc_page ptr m
  have hpages : ∀ p, p ≠ ptr → (Msock.pageAlloc ptr m).pages p = m.pages p :=
    fun p hp => Function.update_of_ne hp _ _
  have hfreeOn : ∀ p, p ≠ ptr → (Msock.pageAlloc ptr m).freeOn p = m.freeOn p := by
    intro p hp
    simp only [Mem.freeOn, hpages p hp]
  have hself : (Msock.pageAlloc ptr m).freeOn ptr = m.zone.chunksPerPage :=
    (Mem.freeOn_eq hpage).trans hfree
  have hheld : (Msock.pageAlloc ptr m).held (.page ptr) = (m.zone.chunks ptr).reverse :=
    (Mem.held_page hpage).trans hitems
  have hrest : ∀ place, place ≠ .page ptr → (Msock.pageAlloc ptr m).held place = m.held place := by
    intro place hne
    cases place with
    | handedOut => rfl
    | cache c => rfl
    | page p => simp only [Mem.held, hpages p (fun heq => hne (by rw [heq]))]
  have hsum : (Msock.pageAlloc ptr m).listedFree = m.listedFree + m.zone.chunksPerPage := by
    show ((ptr :: m.zone.listOfPages).map (Msock.pageAlloc ptr m).freeOn).sum = _
    rw [List.map_cons, List.sum_cons, hself, sum_freeOn_congr (m := m)
      (fun p hp => hfreeOn p (fun heq => hlisted (heq ▸ hp))), Nat.add_comm]
    rfl
  have hpos : 0 < m.zone.chunksPerPage := Nat.lt_of_lt_of_le (by decide) h.cut.two
  refine ⟨⟨h.cut.chunk, h.cut.room, h.cut.aligned, h.cut.two, h.cut.fits⟩, ?_, ?_, ?_, ?_, ?_, ?_,
    ?_, ?_, ?_, ?_, ?_, ?_, h.freed, h.frees⟩
  · intro p
    by_cases hp : p = ptr
    · subst hp
      rw [hpage]
      exact iff_of_true rfl List.mem_cons_self
    · rw [hpages p hp, h.live p]
      exact ⟨List.mem_cons_of_mem _, fun hm => (List.mem_cons.1 hm).resolve_left hp⟩
  · exact List.nodup_cons.2 ⟨hlive, h.nodup⟩
  · intro p hp
    rcases List.mem_cons.1 hp with rfl | hp
    · exact ⟨hdvd, hfit⟩
    · exact h.aligned p hp
  · have hnew : ∀ chunk ∈ m.zone.chunks ptr, chunk ∉ m.owned := by
      rintro chunk hc ⟨p, hp, hcp⟩
      obtain ⟨k, hk, rfl⟩ := MemZone.mem_chunks.1 hc
      have hhome := h.page_of_chunk hp hcp
      rw [h.cut.home hdvd hfit hk] at hhome
      exact hlive (hhome ▸ hp)
    have hperm : ((Msock.pageAlloc ptr m).held (.page ptr)).Perm
        (m.zone.chunks ptr ++ m.held (.page ptr)) := by
      rw [hheld, show m.held (.page ptr) = [] by simp only [Mem.held, hnone], List.append_nil]
      exact List.reverse_perm _
    have hgrown := h.spread.grow hperm hrest (chunks_nodup h.cut ptr) hnew
    refine hgrown.congr (fun chunk => ?_) (fun _ => rfl)
    show (∃ p ∈ ptr :: m.live, chunk ∈ m.zone.chunks p) ↔ _
    simp only [List.mem_cons, exists_eq_or_imp]
    exact or_comm
  · intro p chunk hc
    by_cases hp : p = ptr
    · subst hp
      rw [hheld] at hc
      exact List.mem_reverse.1 hc
    · rw [hrest _ (fun heq => hp (MemPlace.page.inj heq))] at hc
      exact h.home p chunk hc
  · refine ⟨h.whole.1, fun p page' hp' => ?_⟩
    by_cases hp : p = ptr
    · subst hp
      obtain rfl : page = page' := Option.some.inj (hpage.symm.trans hp')
      exact hwhole
    · rw [hpages p hp] at hp'
      exact h.whole.2 p page' hp'
  · intro p
    by_cases hp : p = ptr
    · subst hp
      rw [hself, hheld, List.length_reverse, chunks_length]
    · rw [hfreeOn p hp, hrest _ (fun heq => hp (MemPlace.page.inj heq))]
      exact h.count p
  · exact List.nodup_cons.2 ⟨hlisted, h.listNodup⟩
  · intro p
    by_cases hp : p = ptr
    · subst hp
      rw [hself]
      exact iff_of_true List.mem_cons_self hpos
    · rw [hfreeOn p hp, ← h.listed p]
      exact ⟨fun hm => (List.mem_cons.1 hm).resolve_left hp, List.mem_cons_of_mem _⟩
  · rw [hsum]
    exact mod_add_mod h.total
  · intro hwrapped
    obtain ⟨hbefore, hroom⟩ := Bool.or_eq_false_iff.1 hwrapped
    obtain ⟨hexact, hunder⟩ := h.exact hbefore
    refine ⟨?_, hunder⟩
    rw [hsum, ← hexact]
    exact Nat.mod_eq_of_lt (Nat.lt_of_not_le (of_decide_eq_false hroom))
  · show (m.zone.allocPages + 1) % 2 ^ 32 = (m.zone.freedPages + (m.live.length + 1)) % 2 ^ 32
    rw [mod_add_mod h.made]
    rfl

/-! ## `_cache_fill` -/

/-- What the functions of a cache leave as it is. -/
structure Mem.Keeps (m m' : Mem ι) : Prop where
  handedOut : m'.handedOut = m.handedOut
  live : m'.live = m.live
  chunks : ∀ p, m'.zone.chunks p = m.zone.chunks p
  perPage : m'.zone.chunksPerPage = m.zone.chunksPerPage

theorem Mem.Keeps.trans {m m' m'' : Mem ι} (h : m.Keeps m') (h' : m'.Keeps m'') : m.Keeps m'' :=
  ⟨h'.handedOut.trans h.handedOut, h'.live.trans h.live,
    fun p => (h'.chunks p).trans (h.chunks p), h'.perPage.trans h.perPage⟩

/-- A subtraction of what is part of the sum. -/
theorem mod_sub_mod {a b n : Nat} (h : a = b % 2 ^ 32) (hn : n ≤ b) (hsmall : n < 2 ^ 32) :
    (a + 2 ^ 32 - n) % 2 ^ 32 = (b - n) % 2 ^ 32 := by
  omega

theorem Mem.Sound.freeOn_lt (h : m.Sound) (p : Nat) : m.freeOn p < 2 ^ 32 := by
  have hle := h.freeOn_le p
  have hfits := h.cut.fits
  have hmul : m.zone.chunksPerPage * 1 ≤ m.zone.chunksPerPage * m.zone.alignedChunkSize :=
    Nat.mul_le_mul_left _ (Nat.le_trans (Nat.le_trans (by decide) h.cut.chunk) h.cut.room)
  have hpage : pageSize < 2 ^ 32 := by decide
  omega

/-- The zone's number less that of a listed page. -/
theorem Mem.Sound.sub (h : m.Sound) (hp : p ∈ m.zone.listOfPages) :
    m.listedFree - m.freeOn p = ((m.zone.listOfPages.erase p).map m.freeOn).sum ∧
    (m.zone.freeChunks + 2 ^ 32 - m.freeOn p) % 2 ^ 32 = (m.listedFree - m.freeOn p) % 2 ^ 32 ∧
    (m.wrapped = false → (m.zone.freeChunks + 2 ^ 32 - m.freeOn p) % 2 ^ 32
      = m.listedFree - m.freeOn p ∧
      (m.underflowed || decide (m.zone.freeChunks < m.freeOn p)) = false) := by
  have hsum := List.sum_map_erase m.freeOn hp
  have hle : m.freeOn p ≤ m.listedFree := by
    unfold Mem.listedFree
    omega
  have hlt := h.freeOn_lt p
  refine ⟨by unfold Mem.listedFree; omega, mod_sub_mod h.total hle hlt, fun hwrapped => ?_⟩
  obtain ⟨hexact, hunder⟩ := h.exact hwrapped
  have htotal := h.total
  refine ⟨by omega, ?_⟩
  rw [hunder, Bool.false_or, decide_eq_false_iff_not]
  omega

/-- The subtraction, with its result under a name. -/
theorem subFreeChunks_spec (n : Nat) (m : Mem ι) :
    ∃ number, number = (m.zone.freeChunks + 2 ^ 32 - n) % 2 ^ 32 ∧
      m.subFreeChunks n = { m with
        zone := { m.zone with freeChunks := number }
        underflowed := m.underflowed || decide (m.zone.freeChunks < n) } :=
  ⟨_, rfl, rfl⟩

variable [DecidableEq ι]

/-- The chunks of a listed page go to the cache. -/
theorem Mem.Sound.takePage (h : m.Sound) (c : ι) (hp : p ∈ m.zone.listOfPages) :
    ∃ m', Msock.takePage c p m = .ok (m.freeOn p, m') ∧ m'.Sound ∧ m.Keeps m' ∧
      m'.zone.listOfPages = m.zone.listOfPages.erase p ∧
      (m'.cache c).items = (m.cache c).items ++ m.held (.page p) ∧
      (∀ c', c' ≠ c → m'.cache c' = m.cache c') ∧
      m'.freeOn p = 0 ∧ ∀ q, q ≠ p → m'.freeOn q = m.freeOn q := by
  obtain ⟨page, hpage⟩ := Mem.page_of_freeOn_pos ((h.listed p).1 hp)
  obtain ⟨hsrc, hdst, hsrcWhole, hdstWhole⟩ :=
    Queue.Whole.splice (h.whole.2 p page hpage) (h.whole.1 c)
  have hfree := Mem.freeOn_eq hpage
  have hheldp := Mem.held_page hpage
  obtain ⟨hsum, htotal, hexact⟩ := h.sub hp
  generalize hs : page.queueOfFreeChunks.splice (m.cache c) = spliced at hsrc hdst hsrcWhole hdstWhole
  obtain ⟨src, dst⟩ := spliced
  obtain ⟨number, hnumber, hsub⟩ := subFreeChunks_spec page.freeChunks
    ({ m.setCache c dst with zone := { m.zone with
      listOfPages := m.zone.listOfPages.erase p } } : Mem ι)
  -- the state after the call under one name, so that each field below is read off it
  obtain ⟨m', hm'⟩ : ∃ m', m' = Mem.setPage p ⟨src, 0⟩ { m.setCache c dst with
      zone := { m.zone with listOfPages := m.zone.listOfPages.erase p, freeChunks := number }
      underflowed := m.underflowed || decide (m.zone.freeChunks < page.freeChunks) } := ⟨_, rfl⟩
  have htake : Msock.takePage c p m = .ok (m.freeOn p, m') := by
    simp only [Msock.takePage, Mem.page, hpage, bind, Except.bind, hs, Mem.listDel, Mem.setCache,
      if_pos hp, pure, Except.pure, hfree, hm']
    exact congrArg (fun m' : Mem ι => Except.ok (page.freeChunks, m'.setPage p ⟨src, 0⟩)) hsub
  have hcache : ∀ c', c' ≠ c → m'.cache c' = m.cache c' := by
    intro c' hc'
    rw [hm']
    exact Function.update_of_ne hc' _ _
  have hself : m'.cache c = dst := by
    rw [hm']
    exact Function.update_self ..
  have hpages : ∀ q, q ≠ p → m'.pages q = m.pages q := by
    intro q hq
    rw [hm']
    exact Function.update_of_ne hq _ _
  have hpage' : m'.pages p = some ⟨src, 0⟩ := by
    rw [hm']
    exact Function.update_self ..
  have hlist : m'.zone.listOfPages = m.zone.listOfPages.erase p := by rw [hm']; rfl
  have hzero : m'.freeOn p = 0 := Mem.freeOn_eq hpage'
  have hfreeOn : ∀ q, q ≠ p → m'.freeOn q = m.freeOn q := by
    intro q hq
    simp only [Mem.freeOn, hpages q hq]
  have hlistedFree : m'.listedFree = m.listedFree - m.freeOn p := by
    rw [hsum, Mem.listedFree, hlist]
    refine sum_freeOn_congr fun q hq => hfreeOn q ?_
    rintro rfl
    exact h.listNodup.not_mem_erase hq
  have hper : m'.zone.chunksPerPage = m.zone.chunksPerPage := by rw [hm']; rfl
  have hkeeps : m.Keeps m' := ⟨by rw [hm']; rfl, by rw [hm']; rfl,
    chunks_congr (by rw [hm']; rfl) hper, hper⟩
  refine ⟨m', htake, ?_, hkeeps, hlist, ?_, hcache, hzero, hfreeOn⟩
  · refine ⟨?_, ?_, ?_, ?_, ?_, ?_, ?_, ?_, ?_, ?_, ?_, ?_, ?_, ?_, ?_⟩
    · rw [hm']
      exact ⟨h.cut.chunk, h.cut.room, h.cut.aligned, h.cut.two, h.cut.fits⟩
    · intro q
      rw [hkeeps.live, ← h.live q]
      by_cases hq : q = p
      · subst hq; rw [hpage', hpage]; rfl
      · rw [hpages q hq]
    · rw [hkeeps.live]; exact h.nodup
    · rw [hkeeps.live]; exact h.aligned
    -- the chunks of the page go behind those of the cache, and stay where else they are
    · refine (show Spread m.owned m'.held from h.spread.transfer (a := .cache c) (b := .page p)
        (by simp) ?_ ?_).congr (fun chunk => ?_) (fun _ => rfl)
      · show ((m'.cache c).items ++ m'.held (.page p)).Perm _
        rw [hself, hdst, Mem.held_page hpage', hsrc, hheldp, List.append_nil]
        exact List.Perm.refl _
      · intro place hpc hpp
        cases place with
        | handedOut => exact hkeeps.handedOut
        | cache c' => simp only [Mem.held, hcache c' (fun heq => hpc (by rw [heq]))]
        | page q => simp only [Mem.held, hpages q (fun heq => hpp (by rw [heq]))]
      · unfold Mem.owned
        rw [hkeeps.live]
        simp only [hkeeps.chunks]
    · intro q chunk hc
      rw [hkeeps.chunks]
      by_cases hq : q = p
      · subst hq
        rw [Mem.held_page hpage', hsrc] at hc
        cases hc
      · refine h.home q chunk ?_
        simpa only [Mem.held, hpages q hq] using hc
    · refine ⟨fun c' => ?_, fun q page' hq' => ?_⟩
      · by_cases hc : c' = c
        · subst hc; rw [hself]; exact hdstWhole
        · rw [hcache c' hc]; exact h.whole.1 c'
      · by_cases hq : q = p
        · subst hq
          cases Option.some.inj (hpage'.symm.trans hq')
          exact hsrcWhole
        · rw [hpages q hq] at hq'
          exact h.whole.2 q page' hq'
    · intro q
      by_cases hq : q = p
      · subst hq
        rw [hzero, Mem.held_page hpage', hsrc]
        rfl
      · rw [hfreeOn q hq, h.count q]
        simp only [Mem.held, hpages q hq]
    · rw [hlist]; exact h.listNodup.erase p
    · intro q
      rw [hlist, h.listNodup.mem_erase_iff]
      by_cases hq : q = p
      · subst hq
        rw [hzero]
        exact iff_of_false (fun hm => hm.1 rfl) (lt_irrefl 0)
      · rw [hfreeOn q hq, ← h.listed q]
        exact ⟨fun hm => hm.2, fun hm => ⟨hq, hm⟩⟩
    · rw [hlistedFree, ← htotal, hfree, hm']
      exact hnumber
    · intro hwrapped
      rw [hlistedFree]
      rw [hfree] at hexact ⊢
      rw [hm'] at hwrapped ⊢
      rw [← (hexact hwrapped).1]
      exact ⟨hnumber, (hexact hwrapped).2⟩
    · rw [hkeeps.live, hm']; exact h.made
    · rw [hm']; exact h.freed
    · intro f hf chunk hc
      rw [hkeeps.chunks] at hc
      rw [hm'] at hf
      exact h.frees f hf chunk hc
  · rw [hself, hdst, hheldp]

/-- What a fill does: it takes all the free chunks of some pages, the first one listed being
among them. -/
structure Mem.Filled (c : ι) (ps : List Nat) (m m' : Mem ι) : Prop where
  sound : m'.Sound
  keeps : m.Keeps m'
  others : ∀ c', c' ≠ c → m'.cache c' = m.cache c'
  taken : ∀ p, m'.freeOn p = 0 ∨ m'.freeOn p = m.freeOn p
  first : ∀ p, ps.head? = some p → m'.freeOn p = 0 ∧ (m'.cache c).items ≠ []
  more : (m.cache c).items ≠ [] → (m'.cache c).items ≠ []

theorem Mem.Sound.fillLoop (c : ι) {ps : List Nat} {m : Mem ι} (h : m.Sound) (chunks : Nat)
    (hlisted : ∀ p ∈ ps, p ∈ m.zone.listOfPages) (hnodup : ps.Nodup) :
    ∃ m', cacheFillLoop c ps chunks m = .ok m' ∧ m.Filled c ps m' := by
  induction ps generalizing m chunks with
  | nil =>
      refine ⟨m, rfl, h, ⟨rfl, rfl, fun _ => rfl, rfl⟩, fun _ _ => rfl, fun _ => Or.inr rfl, ?_, id⟩
      intro p hp
      cases hp
  | cons p ps ih =>
      obtain ⟨hp, hps⟩ := List.nodup_cons.1 hnodup
      obtain ⟨m₁, htake, hsound, hkeeps, hlist, hitems, hothers, hzero, hfreeOn⟩ :=
        h.takePage c (hlisted p List.mem_cons_self)
      have hpos : m.held (.page p) ≠ [] := by
        rw [← List.length_pos_iff_ne_nil, ← h.count p]
        exact (h.listed p).1 (hlisted p List.mem_cons_self)
      have hmore : (m₁.cache c).items ≠ [] := by
        rw [hitems]
        exact fun hnil => hpos (List.append_eq_nil_iff.1 hnil).2
      have htaken : ∀ q, m₁.freeOn q = 0 ∨ m₁.freeOn q = m.freeOn q := by
        intro q
        by_cases hq : q = p
        · subst hq; exact Or.inl hzero
        · exact Or.inr (hfreeOn q hq)
      -- the loop stops at a page's worth of chunks, or goes on with the pages left on the list
      by_cases henough : m₁.zone.chunksPerPage ≤ chunks + m.freeOn p
      · refine ⟨m₁, ?_, hsound, hkeeps, hothers, htaken, ?_, fun _ => hmore⟩
        · simp only [cacheFillLoop, htake, bind, Except.bind, if_pos henough, pure, Except.pure]
        · intro q hq
          cases hq
          exact ⟨hzero, hmore⟩
      · obtain ⟨m₂, hloop, hfilled⟩ := ih hsound (chunks + m.freeOn p) (fun q hq => by
          rw [hlist, h.listNodup.mem_erase_iff]
          exact ⟨fun heq => hp (heq ▸ hq), hlisted q (List.mem_cons_of_mem _ hq)⟩) hps
        refine ⟨m₂, ?_, hfilled.sound, hkeeps.trans hfilled.keeps, ?_, ?_, ?_,
          fun _ => hfilled.more hmore⟩
        · simp only [cacheFillLoop, htake, bind, Except.bind, if_neg henough]
          exact hloop
        · exact fun c' hc' => (hfilled.others c' hc').trans (hothers c' hc')
        · intro q
          rcases hfilled.taken q with hq | hq
          · exact Or.inl hq
          · rcases htaken q with hq' | hq'
            · exact Or.inl (hq.trans hq')
            · exact Or.inr (hq.trans hq')
        · intro q hq
          cases hq
          refine ⟨?_, hfilled.more hmore⟩
          rcases hfilled.taken p with hq | hq
          · exact hq
          · exact hq.trans hzero

omit [DecidableEq ι] in
/-- Pages only emptied are not complete. -/
theorem Mem.Sound.noneComplete_of_taken (h : m.Sound) (hnone : m.NoneComplete) {m' : Mem ι}
    (hper : m'.zone.chunksPerPage = m.zone.chunksPerPage)
    (htaken : ∀ p, m'.freeOn p = 0 ∨ m'.freeOn p = m.freeOn p) : m'.NoneComplete := by
  intro p
  rw [hper]
  rcases htaken p with hp | hp
  · rw [hp]
    exact Nat.lt_of_lt_of_le (by decide) h.cut.two
  · rw [hp]
    exact hnone p

/-- `_cache_fill` of an empty cache leaves it with chunks. -/
theorem Mem.Sound.fill (h : m.Sound) (c : ι) {ptr : Nat}
    (hfresh : m.zone.freeChunks < m.zone.chunksPerPage → m.Fresh ptr) :
    ∃ m', cacheFill c ptr m = .ok m' ∧ m'.Sound ∧
      (∀ p, m'.freeOn p = 0 ∨ m'.freeOn p = m.freeOn p) ∧
      m'.handedOut = m.handedOut ∧ (∀ p, m'.zone.chunks p = m.zone.chunks p) ∧
      m'.zone.chunksPerPage = m.zone.chunksPerPage ∧
      (m'.cache c).items ≠ [] ∧ (∀ c', c' ≠ c → m'.cache c' = m.cache c') ∧
      m'.live = if m.zone.freeChunks < m.zone.chunksPerPage then ptr :: m.live else m.live := by
  have hpos : 0 < m.zone.chunksPerPage := Nat.lt_of_lt_of_le (by decide) h.cut.two
  unfold cacheFill
  by_cases hlow : m.zone.freeChunks < m.zone.chunksPerPage
  · rw [if_pos hlow, if_pos hlow]
    obtain ⟨m', hloop, hfilled⟩ := (h.pageAlloc (hfresh hlow)).fillLoop c 0 (fun _ hp => hp)
      (h.pageAlloc (hfresh hlow)).listNodup
    obtain ⟨hzero, hmore⟩ := hfilled.first ptr rfl
    refine ⟨m', hloop, hfilled.sound, fun p => ?_, hfilled.keeps.handedOut, hfilled.keeps.chunks,
      hfilled.keeps.perPage, hmore, hfilled.others, hfilled.keeps.live⟩
    by_cases hp : p = ptr
    · subst hp; exact Or.inl hzero
    · have hsame : (Msock.pageAlloc ptr m).freeOn p = m.freeOn p := by
        simp only [Mem.freeOn, show (Msock.pageAlloc ptr m).pages p = m.pages p from
          Function.update_of_ne hp _ _]
      rw [← hsame]
      exact hfilled.taken p
  · rw [if_neg hlow, if_neg hlow]
    obtain ⟨m', hloop, hfilled⟩ := h.fillLoop c 0 (fun _ hp => hp) h.listNodup
    obtain ⟨p, hp⟩ : ∃ p, m.zone.listOfPages.head? = some p := by
      cases hlist : m.zone.listOfPages with
      | cons p ps => exact ⟨p, rfl⟩
      | nil =>
          have htotal := h.total
          have hsum : m.listedFree = 0 := by unfold Mem.listedFree; rw [hlist]; rfl
          rw [hsum] at htotal
          omega
    exact ⟨m', hloop, hfilled.sound, hfilled.taken, hfilled.keeps.handedOut, hfilled.keeps.chunks,
      hfilled.keeps.perPage, (hfilled.first p hp).2, hfilled.others, hfilled.keeps.live⟩

/-! ## `_cache_malloc` and `_cache_free` -/

/-- Chunks go between the users and a cache. -/
theorem Mem.Sound.exchange (h : m.Sound) (c : ι) {q : Queue Nat} {out : List Nat} (hq : q.Whole)
    (hperm : (out ++ q.items).Perm (m.handedOut ++ (m.cache c).items)) :
    ({ m.setCache c q with handedOut := out } : Mem ι).Sound := by
  refine ⟨h.cut, h.live, h.nodup, h.aligned, ?_, h.home, ⟨fun c' => ?_, h.whole.2⟩, h.count,
    h.listNodup, h.listed, h.total, h.exact, h.made, h.freed, h.frees⟩
  · refine h.spread.transfer (a := .handedOut) (b := .cache c) (by simp) ?_ ?_
    · show (out ++ (Function.update m.cache c q c).items).Perm _
      rw [Function.update_self]
      exact hperm
    · intro place hout hcache
      cases place with
      | handedOut => exact absurd rfl hout
      | cache c' =>
          show (Function.update m.cache c q c').items = _
          rw [Function.update_of_ne (fun heq => hcache (by rw [heq]))]
          rfl
      | page p => rfl
  · show (Function.update m.cache c q c').Whole
    by_cases hc : c' = c
    · subst hc; rw [Function.update_self]; exact hq
    · rw [Function.update_of_ne hc]; exact h.whole.1 c'

/-- A chunk is taken from a cache that has one. -/
theorem Mem.Sound.takeChunk (h : m.Sound) {c : ι} (hc : (m.cache c).items ≠ []) :
    ∃ chunk q, m.takeChunk c
        = (some chunk, { m.setCache c q with handedOut := chunk :: m.handedOut }) ∧
      (m.cache c).items = chunk :: q.items ∧ chunk ∉ m.handedOut ∧
      ({ m.setCache c q with handedOut := chunk :: m.handedOut } : Mem ι).Sound := by
  cases hget : (m.cache c).get with
  | none => exact absurd (Queue.get_eq_none.1 hget) hc
  | some chunkq =>
      obtain ⟨chunk, q⟩ := chunkq
      have hitems := (Queue.get_eq_some hget).1
      have hcached : chunk ∈ m.held (.cache c) := by
        show chunk ∈ (m.cache c).items
        rw [hitems]
        exact List.mem_cons_self
      refine ⟨chunk, q, by simp only [Mem.takeChunk, hget], hitems, fun hm => ?_, ?_⟩
      · cases h.spread.unique .handedOut (.cache c) chunk hm hcached
      · refine h.exchange c ((h.whole.1 c).get hget) ?_
        rw [hitems]
        exact List.perm_middle.symm

/-- `_cache_malloc` returns a chunk that nobody has. -/
theorem Mem.Sound.malloc (h : m.Sound) {c : ι} {ptr : Nat}
    (hallowed : m.allowed (.malloc c ptr)) :
    ∃ chunk m', cacheMalloc c ptr m = .ok (some chunk, m') ∧ chunk ∉ m.handedOut ∧
      m'.Sound ∧ (∀ p, m'.freeOn p = 0 ∨ m'.freeOn p = m.freeOn p) ∧ m'.handedOut = chunk :: m.handedOut ∧
      (∀ p, m'.zone.chunks p = m.zone.chunks p) ∧
      m'.zone.chunksPerPage = m.zone.chunksPerPage ∧
      m'.live = if (m.cache c).items = [] ∧ m.zone.freeChunks < m.zone.chunksPerPage
        then ptr :: m.live else m.live := by
  by_cases hempty : (m.cache c).items = []
  · obtain ⟨m₁, hfill, hsound, htaken, hout, hchunks, hper, hitems, _, hlive⟩ :=
      h.fill c (hallowed hempty)
    obtain ⟨chunk, q, htake, _, hnew, hsound'⟩ := hsound.takeChunk hitems
    refine ⟨chunk, _, ?_, hout ▸ hnew, hsound', htaken, by rw [← hout], hchunks, hper, ?_⟩
    · simp only [cacheMalloc, if_pos hempty, hfill, bind, Except.bind, pure, Except.pure, htake]
    · simp only [hempty, true_and]
      exact hlive
  · obtain ⟨chunk, q, htake, _, hnew, hsound'⟩ := h.takeChunk hempty
    refine ⟨chunk, _, ?_, hnew, hsound', fun _ => Or.inr rfl, rfl, fun _ => rfl, rfl, ?_⟩
    · simp only [cacheMalloc, if_neg hempty, htake]
    · simp only [hempty, false_and, if_false]
      rfl

/-- `_cache_free` puts a chunk on top of the cache. -/
theorem Mem.Sound.free (h : m.Sound) (c : ι) {chunk : Nat} (hc : chunk ∈ m.handedOut) :
    (cacheFree c chunk m).Sound := by
  refine h.exchange c ((h.whole.1 c).putHead chunk) ?_
  rw [putHead_items]
  exact List.perm_middle.trans ((List.perm_cons_erase hc).symm.append_right _)

/-! ## `page_free` and `cache_drain` -/

omit [DecidableEq ι] in
/-- A complete page is freed. -/
theorem Mem.Sound.pageFree (h : m.Sound) (hp : m.freeOn p = m.zone.chunksPerPage) :
    ∃ m', Msock.pageFree p m = .ok m' ∧ m'.Sound ∧ m'.cache = m.cache ∧
      m'.handedOut = m.handedOut ∧ m'.live = m.live.erase p ∧
      (∀ q, m'.zone.chunks q = m.zone.chunks q) ∧
      m'.zone.chunksPerPage = m.zone.chunksPerPage ∧
      m'.freeOn p = 0 ∧ ∀ q, q ≠ p → m'.freeOn q = m.freeOn q := by
  have hpos : 0 < m.freeOn p := by
    rw [hp]
    exact Nat.lt_of_lt_of_le (by decide) h.cut.two
  have hlisted := (h.listed p).2 hpos
  obtain ⟨page, hpage⟩ := Mem.page_of_freeOn_pos hpos
  have hfree := Mem.freeOn_eq hpage
  have hlive := h.live_of_freeOn_pos hpos
  obtain ⟨hsum, htotal, hexact⟩ := h.sub hlisted
  obtain ⟨number, hnumber, hsub⟩ := subFreeChunks_spec page.freeChunks m
  obtain ⟨m', hm'⟩ : ∃ m' : Mem ι, m' = { m with
      zone := { m.zone with
        freeChunks := number
        listOfPages := m.zone.listOfPages.erase p
        freedPages := (m.zone.freedPages + 1) % 2 ^ 32 }
      underflowed := m.underflowed || decide (m.zone.freeChunks < page.freeChunks)
      pages := Function.update m.pages p none
      live := m.live.erase p
      frees := m.frees ++ [⟨p, m.handedOut, fun c => (m.cache c).items⟩] } := ⟨_, rfl⟩
  have hfreed : Msock.pageFree p m = .ok m' := by
    -- the assertion of `page_free`
    have hcount : ¬ page.freeChunks ≠ m.zone.chunksPerPage := by omega
    simp only [Msock.pageFree, Mem.page, hpage, bind, Except.bind, if_neg hcount, hsub,
      Mem.listDel, if_pos hlisted, pure, Except.pure, hm']
  have hpages : ∀ q, q ≠ p → m'.pages q = m.pages q := by
    intro q hq
    rw [hm']
    exact Function.update_of_ne hq _ _
  have hgone : m'.pages p = none := by
    rw [hm']
    exact Function.update_self ..
  have hlist : m'.zone.listOfPages = m.zone.listOfPages.erase p := by rw [hm']
  have hlive' : m'.live = m.live.erase p := by rw [hm']
  have hout : m'.handedOut = m.handedOut := by rw [hm']
  have hcache : m'.cache = m.cache := by rw [hm']
  have hper : m'.zone.chunksPerPage = m.zone.chunksPerPage := by rw [hm']
  have hchunks : ∀ q, m'.zone.chunks q = m.zone.chunks q := chunks_congr (by rw [hm']) hper
  have hzero : m'.freeOn p = 0 := by simp only [Mem.freeOn, hgone]
  have hfreeOn : ∀ q, q ≠ p → m'.freeOn q = m.freeOn q := by
    intro q hq
    simp only [Mem.freeOn, hpages q hq]
  have hheld : m'.held (.page p) = [] := by simp only [Mem.held, hgone]
  have hrest : ∀ place, place ≠ .page p → m'.held place = m.held place := by
    intro place hne
    cases place with
    | handedOut => exact hout
    | cache c => simp only [Mem.held, hcache]
    | page q => simp only [Mem.held, hpages q (fun heq => hne (by rw [heq]))]
  have hlistedFree : m'.listedFree = m.listedFree - m.freeOn p := by
    rw [hsum, Mem.listedFree, hlist]
    refine sum_freeOn_congr fun q hq => hfreeOn q ?_
    rintro rfl
    exact h.listNodup.not_mem_erase hq
  refine ⟨m', hfreed, ?_, hcache, hout, hlive', hchunks, hper, hzero, hfreeOn⟩
  refine ⟨?_, ?_, ?_, ?_, ?_, ?_, ?_, ?_, ?_, ?_, ?_, ?_, ?_, ?_, ?_⟩
  · rw [hm']
    exact ⟨h.cut.chunk, h.cut.room, h.cut.aligned, h.cut.two, h.cut.fits⟩
  · intro q
    rw [hlive', h.nodup.mem_erase_iff]
    by_cases hq : q = p
    · subst hq
      rw [hgone]
      exact iff_of_false (fun hm => nomatch hm) (fun hm => hm.1 rfl)
    · rw [hpages q hq, h.live q]
      exact ⟨fun hm => ⟨hq, hm⟩, fun hm => hm.2⟩
  · rw [hlive']; exact h.nodup.erase p
  · rw [hlive']
    exact fun q hq => h.aligned q (List.mem_of_mem_erase hq)
  · have hperm : (m.held (.page p)).Perm (m.held (.page p) ++ m'.held (.page p)) := by
      rw [hheld, List.append_nil]
    refine (h.spread.shrink hperm hrest).congr (fun chunk => ?_) (fun _ => rfl)
    · -- the chunks of a complete page are those in its queue
      have hown : chunk ∈ m.held (.page p) ↔ chunk ∈ m.zone.chunks p :=
        ⟨h.home p chunk, h.complete hp⟩
      show (∃ q ∈ m'.live, chunk ∈ m'.zone.chunks q) ↔
        (∃ q ∈ m.live, chunk ∈ m.zone.chunks q) ∧ ¬ chunk ∈ m.held (.page p)
      rw [hown, hlive']
      simp only [hchunks, h.nodup.mem_erase_iff]
      constructor
      · rintro ⟨q, ⟨hne, hq⟩, hc⟩
        refine ⟨⟨q, hq, hc⟩, fun hcp => hne ?_⟩
        rw [← h.page_of_chunk hq hc, h.page_of_chunk hlive hcp]
      · rintro ⟨⟨q, hq, hc⟩, hcp⟩
        exact ⟨q, ⟨fun heq => hcp (heq ▸ hc), hq⟩, hc⟩
  · intro q chunk hc
    rw [hchunks]
    by_cases hq : q = p
    · subst hq
      rw [hheld] at hc
      cases hc
    · rw [hrest _ (fun heq => hq (MemPlace.page.inj heq))] at hc
      exact h.home q chunk hc
  · rw [hcache]
    refine ⟨h.whole.1, fun q page' hq' => ?_⟩
    by_cases hq : q = p
    · subst hq
      rw [hgone] at hq'
      cases hq'
    · rw [hpages q hq] at hq'
      exact h.whole.2 q page' hq'
  · intro q
    by_cases hq : q = p
    · subst hq
      rw [hzero, hheld]
      rfl
    · rw [hfreeOn q hq, h.count q, hrest _ (fun heq => hq (MemPlace.page.inj heq))]
  · rw [hlist]; exact h.listNodup.erase p
  · intro q
    rw [hlist, h.listNodup.mem_erase_iff]
    by_cases hq : q = p
    · subst hq
      rw [hzero]
      exact iff_of_false (fun hm => hm.1 rfl) (lt_irrefl 0)
    · rw [hfreeOn q hq, ← h.listed q]
      exact ⟨fun hm => hm.2, fun hm => ⟨hq, hm⟩⟩
  · rw [hlistedFree, ← htotal, hfree, hm']
    exact hnumber
  · intro hwrapped
    rw [hlistedFree]
    rw [hfree] at hexact ⊢
    rw [hm'] at hwrapped ⊢
    rw [← (hexact hwrapped).1]
    exact ⟨hnumber, (hexact hwrapped).2⟩
  · have hlength : m'.live.length + 1 = m.live.length := by
      rw [hlive', List.length_erase_of_mem hlive]
      exact Nat.sub_add_cancel (List.length_pos_of_mem hlive)
    have hmade := h.made
    rw [hm'] at hlength ⊢
    simp only at hlength ⊢
    omega
  · rw [hm']
    exact Nat.mod_lt _ (by decide)
  · intro f hf chunk hc
    rw [hchunks] at hc
    rw [hm'] at hf
    rcases List.mem_append.1 hf with hf | hf
    · exact h.frees f hf chunk hc
    -- all chunks of the page are in its own queue, so none is anywhere else
    · obtain rfl := List.mem_singleton.1 hf
      have hpage := h.complete hp hc
      refine ⟨fun hm => ?_, fun c hm => ?_⟩
      · cases h.spread.unique .handedOut (.page p) chunk hm hpage
      · cases h.spread.unique (.cache c) (.page p) chunk hm hpage

/-- The state before `cache_drain` looks whether the page is complete. -/
def Mem.comeHome (chunk : Nat) (page : MemPage) (m : Mem ι) : Mem ι :=
  let p := pageFromChunk chunk
  let m := if page.freeChunks = 0 then m.listAdd p else m
  (m.setPage p ⟨(page.queueOfFreeChunks.putHead chunk).2, page.freeChunks + 1⟩).addFreeChunks 1

omit [DecidableEq ι] in
theorem putHome_eq {chunk : Nat} {page : MemPage} (h : m.pages (pageFromChunk chunk) = some page) :
    putHome chunk m = if page.freeChunks + 1 = m.zone.chunksPerPage
      then Msock.pageFree (pageFromChunk chunk) (m.comeHome chunk page)
      else .ok (m.comeHome chunk page) := by
  simp only [putHome, Mem.page, h, bind, Except.bind, pure, Except.pure]
  by_cases hzero : page.freeChunks = 0
  · simp only [Mem.comeHome, if_pos hzero]
    rfl
  · simp only [Mem.comeHome, if_neg hzero]
    rfl

/-- A chunk goes from a cache to its page. -/
theorem Mem.Sound.comeHome (h : m.Sound) {c : ι} {chunk : Nat} {q : Queue Nat}
    (hget : (m.cache c).get = some (chunk, q)) :
    ∃ page m', m.pages (pageFromChunk chunk) = some page ∧
      m' = (m.setCache c q).comeHome chunk page ∧ m'.Sound ∧ m'.handedOut = m.handedOut ∧
      m'.live = m.live ∧ (∀ p, m'.zone.chunks p = m.zone.chunks p) ∧
      m'.zone.chunksPerPage = m.zone.chunksPerPage ∧
      m'.cache c = q ∧ (∀ c', c' ≠ c → m'.cache c' = m.cache c') ∧
      m'.freeOn (pageFromChunk chunk) = m.freeOn (pageFromChunk chunk) + 1 ∧
      ∀ p, p ≠ pageFromChunk chunk → m'.freeOn p = m.freeOn p := by
  have hitems := (Queue.get_eq_some hget).1
  have hcached : chunk ∈ m.held (.cache c) := by
    show chunk ∈ (m.cache c).items
    rw [hitems]
    exact List.mem_cons_self
  obtain ⟨hlive, hchunk⟩ := h.chunk_home hcached
  generalize hp : pageFromChunk chunk = p at hlive hchunk ⊢
  obtain ⟨page, hpage⟩ := Option.isSome_iff_exists.1 ((h.live p).2 hlive)
  have hfree := Mem.freeOn_eq hpage
  have hheldp := Mem.held_page hpage
  obtain ⟨number, hnumber⟩ : ∃ number, number = (m.zone.freeChunks + 1) % 2 ^ 32 := ⟨_, rfl⟩
  obtain ⟨m', hm'⟩ : ∃ m' : Mem ι, m' = { m with
      zone := { m.zone with
        freeChunks := number
        listOfPages := if page.freeChunks = 0 then p :: m.zone.listOfPages else m.zone.listOfPages }
      cache := Function.update m.cache c q
      pages := Function.update m.pages p
        (some ⟨(page.queueOfFreeChunks.putHead chunk).2, page.freeChunks + 1⟩)
      wrapped := m.wrapped || decide (2 ^ 32 ≤ m.zone.freeChunks + 1) } := ⟨_, rfl⟩
  have hcome : m' = (m.setCache c q).comeHome chunk page := by
    rw [hm', hnumber]
    simp only [Mem.comeHome, hp]
    by_cases hz : page.freeChunks = 0
    · simp only [if_pos hz]
      rfl
    · simp only [if_neg hz]
      rfl
  have hpages : ∀ q, q ≠ p → m'.pages q = m.pages q := by
    intro q hq
    rw [hm']
    exact Function.update_of_ne hq _ _
  have hpage' : m'.pages p
      = some ⟨(page.queueOfFreeChunks.putHead chunk).2, page.freeChunks + 1⟩ := by
    rw [hm']
    exact Function.update_self ..
  have hself : m'.cache c = q := by
    rw [hm']
    exact Function.update_self ..
  have hcache : ∀ c', c' ≠ c → m'.cache c' = m.cache c' := by
    intro c' hc'
    rw [hm']
    exact Function.update_of_ne hc' _ _
  have hlist : m'.zone.listOfPages
      = if page.freeChunks = 0 then p :: m.zone.listOfPages else m.zone.listOfPages := by rw [hm']
  have hlive' : m'.live = m.live := by rw [hm']
  have hout : m'.handedOut = m.handedOut := by rw [hm']
  have hper : m'.zone.chunksPerPage = m.zone.chunksPerPage := by rw [hm']
  have hchunks : ∀ q, m'.zone.chunks q = m.zone.chunks q := chunks_congr (by rw [hm']) hper
  have hmore : m'.freeOn p = m.freeOn p + 1 := by rw [Mem.freeOn_eq hpage', hfree]
  have hfreeOn : ∀ q, q ≠ p → m'.freeOn q = m.freeOn q := by
    intro q hq
    simp only [Mem.freeOn, hpages q hq]
  have hheld : m'.held (.page p) = chunk :: m.held (.page p) := by
    rw [Mem.held_page hpage', hheldp, putHead_items]
  have hrest : ∀ q, q ≠ p → m'.held (.page q) = m.held (.page q) := by
    intro q hq
    simp only [Mem.held, hpages q hq]
  have hnotListed : page.freeChunks = 0 → p ∉ m.zone.listOfPages := fun hz hm => by
    have := (h.listed p).1 hm
    omega
  have hlistedFree : m'.listedFree = m.listedFree + 1 := by
    unfold Mem.listedFree
    rw [hlist]
    split
    -- the page had none, and comes onto the list with this one
    · rename_i hz
      rw [List.map_cons, List.sum_cons, hmore, sum_freeOn_congr (m := m)
        (fun q hq => hfreeOn q (fun heq => hnotListed hz (heq ▸ hq)))]
      omega
    -- the page is on the list already
    · rename_i hz
      have hin : p ∈ m.zone.listOfPages := (h.listed p).2 (by omega)
      have hnew := List.sum_map_erase m'.freeOn hin
      have hold := List.sum_map_erase m.freeOn hin
      rw [sum_freeOn_congr (m := m) (fun q hq => hfreeOn q
        (fun heq => h.listNodup.not_mem_erase (heq ▸ hq)))] at hnew
      omega
  refine ⟨page, m', hpage, hcome, ?_, hout, hlive', hchunks, hper, hself, hcache, hmore, hfreeOn⟩
  refine ⟨?_, ?_, ?_, ?_, ?_, ?_, ?_, ?_, ?_, ?_, ?_, ?_, ?_, ?_, ?_⟩
  · rw [hm']
    exact ⟨h.cut.chunk, h.cut.room, h.cut.aligned, h.cut.two, h.cut.fits⟩
  · intro q'
    rw [hlive', ← h.live q']
    by_cases hq : q' = p
    · subst hq; rw [hpage', hpage]; rfl
    · rw [hpages q' hq]
  · rw [hlive']; exact h.nodup
  · rw [hlive']; exact h.aligned
  · refine (show Spread m.owned m'.held from h.spread.transfer (a := .cache c) (b := .page p)
      (by simp) ?_ ?_).congr (fun x => ?_) (fun _ => rfl)
    · show ((m'.cache c).items ++ m'.held (.page p)).Perm ((m.cache c).items ++ m.held (.page p))
      rw [hself, hheld, hitems]
      exact List.perm_middle
    · intro place hpc hpp
      cases place with
      | handedOut => exact hout
      | cache c' => simp only [Mem.held, hcache c' (fun heq => hpc (by rw [heq]))]
      | page q' => exact hrest q' (fun heq => hpp (by rw [heq]))
    · unfold Mem.owned
      rw [hlive']
      simp only [hchunks]
  · intro q' x hx
    rw [hchunks]
    by_cases hq : q' = p
    · subst hq
      rw [hheld] at hx
      rcases List.mem_cons.1 hx with rfl | hx
      · exact hchunk
      · exact h.home q' x hx
    · rw [hrest q' hq] at hx
      exact h.home q' x hx
  · refine ⟨fun c' => ?_, fun q' page' hq' => ?_⟩
    · by_cases hc : c' = c
      · subst hc; rw [hself]; exact (h.whole.1 c').get hget
      · rw [hcache c' hc]; exact h.whole.1 c'
    · by_cases hq : q' = p
      · subst hq
        cases Option.some.inj (hpage'.symm.trans hq')
        exact (h.whole.2 q' page hpage).putHead chunk
      · rw [hpages q' hq] at hq'
        exact h.whole.2 q' page' hq'
  · intro q'
    by_cases hq : q' = p
    · subst hq
      rw [hmore, hheld, h.count q', List.length_cons]
    · rw [hfreeOn q' hq, h.count q', hrest q' hq]
  · rw [hlist]
    split
    · rename_i hz
      exact List.nodup_cons.2 ⟨hnotListed hz, h.listNodup⟩
    · exact h.listNodup
  · intro q'
    have hin : q' ∈ m'.zone.listOfPages ↔ q' = p ∨ q' ∈ m.zone.listOfPages := by
      rw [hlist]
      split
      · exact List.mem_cons
      · rename_i hz
        refine ⟨Or.inr, fun hm => hm.elim (fun heq => ?_) id⟩
        rw [heq]
        exact (h.listed p).2 (by omega)
    rw [hin, h.listed q']
    by_cases hq : q' = p
    · subst hq
      exact iff_of_true (Or.inl rfl) (by omega)
    · rw [hfreeOn q' hq]
      exact ⟨fun hm => hm.resolve_left hq, Or.inr⟩
  · rw [hlistedFree, ← mod_add_mod h.total, hm']
    exact hnumber
  · intro hwrapped
    rw [hm'] at hwrapped
    obtain ⟨hbefore, hroom⟩ := Bool.or_eq_false_iff.1 hwrapped
    obtain ⟨hexact, hunder⟩ := h.exact hbefore
    have hlt := of_decide_eq_false hroom
    rw [hlistedFree, hm']
    refine ⟨?_, hunder⟩
    show number = m.listedFree + 1
    omega
  · rw [hlive', hm']; exact h.made
  · rw [hm']; exact h.freed
  · intro f hf x hx
    rw [hchunks] at hx
    rw [hm'] at hf
    exact h.frees f hf x hx

/-- What one turn of `cache_drain` does. -/
theorem Mem.Sound.putHome (h : m.Sound) (hnone : m.NoneComplete) {c : ι} {chunk : Nat}
    {q : Queue Nat} (hget : (m.cache c).get = some (chunk, q)) :
    ∃ m', Msock.putHome chunk (m.setCache c q) = .ok m' ∧ m'.Sound ∧ m'.NoneComplete ∧
      m'.handedOut = m.handedOut ∧ (∀ p, m'.zone.chunks p = m.zone.chunks p) ∧
      m'.zone.chunksPerPage = m.zone.chunksPerPage ∧
      m'.cache c = q ∧ (∀ c', c' ≠ c → m'.cache c' = m.cache c') := by
  obtain ⟨page, m₁, hpage, hm₁, hsound, hout, -, hchunks, hper, hself, hcache, hmore, hfreeOn⟩ :=
    h.comeHome hget
  have hfree := Mem.freeOn_eq hpage
  rw [putHome_eq (m := m.setCache c q) hpage, ← hm₁]
  show ∃ m', (if page.freeChunks + 1 = m.zone.chunksPerPage then _ else _) = _ ∧ _
  by_cases hcomplete : page.freeChunks + 1 = m.zone.chunksPerPage
  · rw [if_pos hcomplete]
    obtain ⟨m', hfreed, hsound', hcache', hout', -, hchunks', hper', hzero, hothers⟩ :=
      hsound.pageFree (p := pageFromChunk chunk) (by rw [hmore, hper, hfree]; exact hcomplete)
    refine ⟨m', hfreed, hsound', fun p => ?_, hout'.trans hout,
      fun p => (hchunks' p).trans (hchunks p), hper'.trans hper, by rw [hcache', hself],
      fun c' hc' => by rw [hcache', hcache c' hc']⟩
    rw [hper', hper]
    by_cases hp : p = pageFromChunk chunk
    · subst hp
      omega
    · rw [hothers p hp, hfreeOn p hp]
      exact hnone p
  · rw [if_neg hcomplete]
    refine ⟨m₁, rfl, hsound, fun p => ?_, hout, hchunks, hper, hself, hcache⟩
    rw [hper]
    have hless := hnone p
    by_cases hp : p = pageFromChunk chunk
    · subst hp
      omega
    · rw [hfreeOn p hp]
      exact hless

theorem Mem.Sound.drainLoop {m : Mem ι} (h : m.Sound) (hnone : m.NoneComplete) (c : ι) {fuel : Nat}
    (hfuel : (m.cache c).items.length < fuel) :
    ∃ m', cacheDrainLoop c fuel m = .ok m' ∧ m'.Sound ∧ m'.NoneComplete ∧
      m'.handedOut = m.handedOut ∧ (∀ p, m'.zone.chunks p = m.zone.chunks p) ∧
      m'.zone.chunksPerPage = m.zone.chunksPerPage ∧
      (m'.cache c).items = [] ∧ (∀ c', c' ≠ c → m'.cache c' = m.cache c') := by
  induction fuel generalizing m with
  | zero => omega
  | succ fuel ih =>
      cases hget : (m.cache c).get with
      | none =>
          refine ⟨m, by simp only [cacheDrainLoop, hget], h, hnone, rfl, fun _ => rfl, rfl,
            Queue.get_eq_none.1 hget, fun _ _ => rfl⟩
      | some taken =>
          obtain ⟨chunk, q⟩ := taken
          have hitems := (Queue.get_eq_some hget).1
          obtain ⟨m₁, hput, hsound, hnone₁, hout, hchunks, hper, hself, hcache⟩ :=
            h.putHome hnone hget
          have hless : (m₁.cache c).items.length < fuel := by
            rw [hself]
            rw [hitems, List.length_cons] at hfuel
            omega
          obtain ⟨m', hloop, hsound', hnone', hout', hchunks', hper', hempty, hcache'⟩ :=
            ih hsound hnone₁ hless
          refine ⟨m', ?_, hsound', hnone', hout'.trans hout,
            fun p => (hchunks' p).trans (hchunks p), hper'.trans hper, hempty,
            fun c' hc' => (hcache' c' hc').trans (hcache c' hc')⟩
          simp only [cacheDrainLoop, hget, hput, bind, Except.bind, hloop]

/-- `cache_drain` empties the cache and hands out nothing. -/
theorem Mem.Sound.drain (h : m.Sound) (hnone : m.NoneComplete) (c : ι) :
    ∃ m', cacheDrain c m = .ok m' ∧ m'.Sound ∧ m'.NoneComplete ∧
      m'.handedOut = m.handedOut ∧ (∀ p, m'.zone.chunks p = m.zone.chunks p) ∧
      m'.zone.chunksPerPage = m.zone.chunksPerPage ∧
      (m'.cache c).items = [] ∧ (∀ c', c' ≠ c → m'.cache c' = m.cache c') :=
  h.drainLoop hnone c (Nat.lt_succ_self _)

end Msock
