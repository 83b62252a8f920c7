import Msock.Memalloc.Conserve

/-!
# The life of a zone

A zone starts without pages, and every call keeps it sound, so it is sound in every state
its users can bring it to. When every chunk is back on its page, every page is complete,
and complete pages are freed at once: nothing is left for `zone_free` to abort over.
-/

namespace Msock

open Lib

variable {ι : Type} {m m' : Mem ι}

theorem Mem.Sound.init {chunkSize : Nat} (h : initMemZone chunkSize = some m) :
    m.Sound ∧ m.NoneComplete := by
  have hcut := (cut_of_initMemZone h).1
  have hpos : 0 < m.zone.chunksPerPage := Nat.lt_of_lt_of_le (by decide) hcut.two
  simp only [initMemZone] at h
  split at h
  · cases h
  · cases h
    refine ⟨⟨hcut, fun p => ?_, List.nodup_nil, ?_, ?_, ?_, ⟨fun c => Queue.whole_init, ?_⟩,
      fun p => rfl, List.nodup_nil, fun p => ?_, rfl, fun _ => ⟨rfl, rfl⟩, rfl, Nat.two_pow_pos 32,
      ?_⟩, fun p => hpos⟩
    · exact iff_of_false Bool.false_ne_true List.not_mem_nil
    · intro p hp
      cases hp
    · refine (Spread.empty fun place => ?_).congr (fun chunk => ?_) (fun _ => rfl)
      · cases place <;> rfl
      · exact iff_of_false (fun hm => hm.elim fun p hp => List.not_mem_nil hp.1) id
    · intro p chunk hc
      cases hc
    · intro p page hp
      cases hp
    · exact iff_of_false List.not_mem_nil (lt_irrefl 0)
    · intro f hf
      cases hf

variable [DecidableEq ι]

/-- A call that its user may make succeeds, and keeps the allocator sound. -/
theorem Mem.Sound.step (h : m.Sound) (hnone : m.NoneComplete) {a : MemAct ι}
    (hallowed : m.allowed a) :
    ∃ m', Mem.step a m = .ok m' ∧ m'.Sound ∧ m'.NoneComplete := by
  cases a with
  | malloc c ptr =>
      obtain ⟨chunk, m', hmalloc, _, hsound, htaken, _, _, hper, _⟩ := h.malloc hallowed
      exact ⟨m', by simp only [Mem.step, hmalloc, bind, Except.bind, pure, Except.pure],
        hsound, h.noneComplete_of_taken hnone hper htaken⟩
  | free c chunk => exact ⟨_, rfl, h.free c hallowed, hnone⟩
  | drain c =>
      obtain ⟨m', hdrain, hsound, hnone', _⟩ := h.drain hnone c
      exact ⟨m', hdrain, hsound, hnone'⟩

theorem Mem.Sound.run (hrun : Runs Mem.step Mem.allowed m m')
    (h : m.Sound ∧ m.NoneComplete) : m'.Sound ∧ m'.NoneComplete := by
  refine hrun.invariant (I := fun m => m.Sound ∧ m.NoneComplete) (fun a t t' ht hok hact => ?_) h
  obtain ⟨t'', hstep, hsound⟩ := ht.1.step ht.2 hok
  cases hstep.symm.trans hact
  exact hsound

omit [DecidableEq ι] in
/-- With every chunk on its page there are no pages. -/
theorem Mem.Sound.none_live (h : m.Sound) (hnone : m.NoneComplete) (hout : m.handedOut = [])
    (hcaches : ∀ c, (m.cache c).items = []) : m.live = [] := by
  refine List.eq_nil_iff_forall_not_mem.2 fun p hp => ?_
  refine absurd (hnone p) (Nat.not_lt.2 ?_)
  rw [h.count p, ← chunks_length m.zone p]
  refine ((chunks_nodup h.cut p).subperm fun chunk hc => ?_).length_le
  obtain ⟨place, hplace⟩ := (h.spread.covers chunk).1 ⟨p, hp, hc⟩
  cases place with
  | handedOut =>
      rw [Mem.held, hout] at hplace
      exact absurd hplace List.not_mem_nil
  | cache c =>
      rw [Mem.held, hcaches c] at hplace
      exact absurd hplace List.not_mem_nil
  | page q =>
      have hlive : q ∈ m.live := h.live_of_freeOn_pos (by
        rw [h.count q]
        exact List.length_pos_of_mem hplace)
      rw [← h.page_of_chunk hlive (h.home q chunk hplace), h.page_of_chunk hp hc] at hplace
      exact hplace

omit [DecidableEq ι] in
/-- `zone_free` has nothing to abort over. -/
theorem Mem.Sound.zoneFree (h : m.Sound) (hnone : m.NoneComplete) (hout : m.handedOut = [])
    (hcaches : ∀ c, (m.cache c).items = []) : Msock.zoneFree m = .ok () := by
  have hlive := h.none_live hnone hout hcaches
  have hlist : m.zone.listOfPages = [] := by
    refine List.eq_nil_iff_forall_not_mem.2 fun p hp => ?_
    have hin := h.live_of_freeOn_pos ((h.listed p).1 hp)
    rw [hlive] at hin
    exact absurd hin List.not_mem_nil
  have hmade : m.zone.freedPages = m.zone.allocPages := by
    have hmade := h.made
    have hfreed := h.freed
    rw [hlive, List.length_nil] at hmade
    omega
  have htotal : m.zone.freeChunks = 0 := by
    have htotal := h.total
    rw [Mem.listedFree, hlist] at htotal
    exact htotal
  unfold Msock.zoneFree
  rw [if_neg (not_not.2 hlist), if_neg (not_not.2 hmade), if_neg (not_not.2 htotal)]

/-! ## A zone of any size -/

/-- No chunk is on a page or in the cache `c`. -/
structure Mem.AllOut (m : Mem ι) (c : ι) : Prop where
  sound : m.Sound
  empty : (m.cache c).items = []
  none : ∀ p, m.freeOn p = 0

/-- The chunks of a cache are handed out. -/
theorem Mem.Sound.handOut {m : Mem ι} (h : m.Sound) (c : ι) {n : Nat}
    (hn : (m.cache c).items.length = n) :
    ∃ m', Runs Mem.step Mem.allowed m m' ∧ m'.Sound ∧ (m'.cache c).items = [] ∧
      m'.pages = m.pages ∧ m'.zone = m.zone ∧ m'.live = m.live := by
  induction n generalizing m with
  | zero =>
      exact ⟨m, Relation.ReflTransGen.refl, h, List.length_eq_zero_iff.1 hn, rfl, rfl, rfl⟩
  | succ n ih =>
      have hne : (m.cache c).items ≠ [] := by
        intro hnil
        rw [hnil] at hn
        cases hn
      obtain ⟨chunk, q, htake, hitems, _, hsound⟩ := h.takeChunk hne
      have hmalloc : Mem.step (.malloc c 0) m
          = .ok { m.setCache c q with handedOut := chunk :: m.handedOut } := by
        simp only [Mem.step, cacheMalloc, if_neg hne, htake, bind, Except.bind, pure, Except.pure]
      obtain ⟨m', hrun, hrest⟩ := ih hsound (by
        show (Function.update m.cache c q c).items.length = n
        rw [Function.update_self]
        rw [hitems, List.length_cons] at hn
        omega)
      exact ⟨m', (Runs.single (fun hnil => absurd hnil hne) hmalloc).trans hrun, hrest⟩

/-- A page more, all of it handed out. -/
theorem Mem.AllOut.grow {c : ι} (h : m.AllOut c) {ptr : Nat} (hfresh : m.Fresh ptr) :
    ∃ m', Runs Mem.step Mem.allowed m m' ∧ m'.AllOut c ∧ m'.live = ptr :: m.live ∧
      m'.zone.chunksPerPage = m.zone.chunksPerPage := by
  have hlow : m.zone.freeChunks < m.zone.chunksPerPage := by
    have htotal := h.sound.total
    have hsum : m.listedFree = 0 := by
      refine List.sum_eq_zero fun x hx => ?_
      obtain ⟨p, _, rfl⟩ := List.mem_map.1 hx
      exact h.none p
    have htwo := h.sound.cut.two
    rw [hsum] at htotal
    omega
  have hallowed : m.allowed (.malloc c ptr) := fun _ _ => hfresh
  obtain ⟨chunk, m₁, hmalloc, _, hsound, htaken, _, _, hper, hlive⟩ := h.sound.malloc hallowed
  obtain ⟨m', hrun, hsound', hempty, hpages, hzone, hlive'⟩ := hsound.handOut c rfl
  refine ⟨m', (Runs.single hallowed ?_).trans hrun, ⟨hsound', hempty, fun p => ?_⟩, ?_, ?_⟩
  · simp only [Mem.step, hmalloc, bind, Except.bind, pure, Except.pure]
  · have hzero : m₁.freeOn p = 0 := (htaken p).elim id (fun heq => heq.trans (h.none p))
    rw [← hzero]
    simp only [Mem.freeOn, hpages]
  · rw [hlive', hlive, if_pos ⟨h.empty, hlow⟩]
  · rw [hzone, hper]

/-- Some of the chunks handed out come back. -/
theorem Mem.Sound.freeAll {m : Mem ι} (h : m.Sound) (c : ι) {xs ys : List Nat}
    (hperm : m.handedOut.Perm (xs ++ ys)) :
    ∃ m', Runs Mem.step Mem.allowed m m' ∧ m'.handedOut.Perm ys ∧ m'.zone = m.zone := by
  induction xs generalizing m with
  | nil => exact ⟨m, Relation.ReflTransGen.refl, hperm, rfl⟩
  | cons x xs ih =>
      have hx : x ∈ m.handedOut := hperm.mem_iff.2 List.mem_cons_self
      have hrest : (m.handedOut.erase x).Perm (xs ++ ys) := by
        have := hperm.erase x
        rwa [List.cons_append, List.erase_cons_head] at this
      obtain ⟨m', hrun, hys, hzone⟩ := ih (h.free c hx) hrest
      exact ⟨m', (Runs.single (a := .free c x) hx rfl).trans hrun, hys, hzone⟩

/-- With one cache, a zone of any number of pages can be made, and all of it handed out. -/
theorem exists_allOut {m₀ : Mem Unit} {chunkSize : Nat} (hinit : initMemZone chunkSize = some m₀)
    (k : Nat) (hk : (k + 1) * pageSize ≤ 2 ^ 64) :
    ∃ m, Runs Mem.step Mem.allowed m₀ m ∧ m.AllOut () ∧ m.live.length = k ∧
      m.zone.chunksPerPage = m₀.zone.chunksPerPage ∧ ∀ p ∈ m.live, p < (k + 1) * pageSize := by
  induction k with
  | zero =>
      have hsound := (Mem.Sound.init hinit).1
      simp only [initMemZone] at hinit
      split at hinit
      · cases hinit
      · cases hinit
        exact ⟨_, Relation.ReflTransGen.refl, ⟨hsound, rfl, fun _ => rfl⟩, rfl, rfl,
          fun p hp => absurd hp List.not_mem_nil⟩
  | succ k ih =>
      have hsucc : (k + 1 + 1) * pageSize = (k + 1) * pageSize + pageSize := by ring
      obtain ⟨m, hrun, hall, hlength, hper, hbelow⟩ := ih (by omega)
      have hfresh : m.Fresh ((k + 1) * pageSize) := by
        refine ⟨Dvd.intro_left _ rfl, by omega, ?_⟩
        by_contra hsome
        have hlive := (hall.sound.live _).1 (Option.isSome_iff_ne_none.2 hsome)
        exact absurd (hbelow _ hlive) (lt_irrefl _)
      obtain ⟨m', hrun', hall', hlive, hper'⟩ := hall.grow hfresh
      refine ⟨m', hrun.trans hrun', hall', by rw [hlive, List.length_cons, hlength],
        hper'.trans hper, fun p hp => ?_⟩
      have hpage : 0 < pageSize := by decide
      rw [hlive] at hp
      rcases List.mem_cons.1 hp with rfl | hp
      · omega
      · have := hbelow p hp
        omega

omit [DecidableEq ι] in
/-- The first chunk of a page. -/
theorem Mem.Sound.first_mem (h : m.Sound) (p : Nat) :
    p + cachelineAlign sizeofMemPage ∈ m.zone.chunks p := by
  refine MemZone.mem_chunks.2 ⟨0, Nat.lt_of_lt_of_le (by decide) h.cut.two, ?_⟩
  rw [MemZone.chunkAt, Nat.zero_mul, Nat.add_zero]

/-- With one chunk of each page in use, the others can all be on their pages. -/
theorem Mem.AllOut.scatter {m : Mem Unit} (h : m.AllOut ()) :
    ∃ m', Runs Mem.step Mem.allowed m m' ∧
      (m.zone.chunksPerPage - 1) * m.live.length ≤ (m'.zone.listOfPages.map m'.freeOn).sum := by
  -- the first chunk of every page is kept
  let keep : Nat → Bool := fun chunk =>
    decide (chunk = pageFromChunk chunk + cachelineAlign sizeofMemPage)
  have hsplit : m.handedOut.Perm
      (m.handedOut.filter (fun chunk => !keep chunk) ++ m.handedOut.filter keep) :=
    (List.filter_append_perm keep m.handedOut).symm.trans List.perm_append_comm
  obtain ⟨m₁, hfrees, hkept, hzone⟩ := h.sound.freeAll () hsplit
  have hnone : m.NoneComplete := fun p => by
    rw [h.none p]
    exact Nat.lt_of_lt_of_le (by decide) h.sound.cut.two
  obtain ⟨hsound₁, hnone₁⟩ := Mem.Sound.run hfrees ⟨h.sound, hnone⟩
  obtain ⟨m', hdrain, hsound, -, hout, hchunks, hper, hempty, -⟩ := hsound₁.drain hnone₁ ()
  have hmem : ∀ chunk, chunk ∈ m'.handedOut ↔ chunk ∈ m.handedOut ∧ keep chunk = true := by
    intro chunk
    rw [hout, hkept.mem_iff, List.mem_filter]
  have hchunks' : ∀ p, m'.zone.chunks p = m.zone.chunks p := fun p => by rw [hchunks, hzone]
  have hstays : ∀ p ∈ m.live, p ∈ m'.live := by
    intro p hp
    have hfirst := h.sound.first_mem p
    have hhome := h.sound.page_of_chunk hp hfirst
    obtain ⟨place, hplace⟩ := (h.sound.spread.covers _).1 ⟨p, hp, hfirst⟩
    cases place with
    | handedOut =>
        have hin := (hmem _).2 ⟨hplace, decide_eq_true (by rw [hhome])⟩
        have hlive : pageFromChunk (p + cachelineAlign sizeofMemPage) ∈ m'.live :=
          (hsound.chunk_home (show _ ∈ m'.held .handedOut from hin)).1
        rwa [hhome] at hlive
    | cache c =>
        rw [Mem.held, h.empty] at hplace
        exact absurd hplace List.not_mem_nil
    | page q =>
        have hlength := h.sound.count q
        rw [h.none q] at hlength
        rw [List.length_eq_zero_iff.1 hlength.symm] at hplace
        exact absurd hplace List.not_mem_nil
  have hmany : ∀ p ∈ m.live, m.zone.chunksPerPage - 1 ≤ m'.freeOn p := by
    intro p hp
    have hnodup := chunks_nodup h.sound.cut p
    rw [hsound.count p, ← chunks_length m.zone p,
      ← List.length_erase_of_mem (h.sound.first_mem p)]
    refine ((hnodup.erase _).subperm fun chunk hc => ?_).length_le
    obtain ⟨hne, hchunk⟩ := hnodup.mem_erase_iff.1 hc
    have hhome := h.sound.page_of_chunk hp hchunk
    obtain ⟨place, hplace⟩ := (hsound.spread.covers chunk).1
      ⟨p, hstays p hp, by rw [hchunks']; exact hchunk⟩
    cases place with
    | handedOut =>
        have hkeep := of_decide_eq_true ((hmem chunk).1 hplace).2
        rw [hhome] at hkeep
        exact absurd hkeep hne
    | cache c =>
        rw [Mem.held, hempty] at hplace
        exact absurd hplace List.not_mem_nil
    | page q =>
        have hq : q ∈ m'.live := hsound.live_of_freeOn_pos (by
          rw [hsound.count q]
          exact List.length_pos_of_mem hplace)
        rw [← hsound.page_of_chunk hq (hsound.home q chunk hplace), hhome] at hplace
        exact hplace
  have hlisted : m.live.Subperm m'.zone.listOfPages := by
    refine h.sound.nodup.subperm fun p hp => (hsound.listed p).2 ?_
    have := hmany p hp
    have := h.sound.cut.two
    omega
  refine ⟨m', hfrees.trans (Runs.single (a := .drain ()) trivial hdrain), ?_⟩
  obtain ⟨l, hperm, hsub⟩ := hlisted
  calc (m.zone.chunksPerPage - 1) * m.live.length
      = m.live.length • (m.zone.chunksPerPage - 1) := by rw [smul_eq_mul, Nat.mul_comm]
    _ = (m.live.map m'.freeOn).length • (m.zone.chunksPerPage - 1) := by rw [List.length_map]
    _ ≤ (m.live.map m'.freeOn).sum := by
        refine List.card_nsmul_le_sum _ _ fun x hx => ?_
        obtain ⟨p, hp, rfl⟩ := List.mem_map.1 hx
        exact hmany p hp
    _ = (l.map m'.freeOn).sum := (hperm.map _).sum_eq.symm
    _ ≤ (m'.zone.listOfPages.map m'.freeOn).sum := (hsub.map _).sum_le_sum (fun _ _ => Nat.zero_le _)

/--
**The allocator conserves its chunks.**

Whatever the users of a zone do with any number of caches: each chunk of each page that
there is is in one place, a page is listed when chunks are in its queue, which it counts,
the zone's number is the sum over the listed pages modulo `2 ^ 32`, the sum itself with no
underflow so far as it never reached `2 ^ 32`, no allowed call aborts, and no page with a
chunk in use was freed.
-/
theorem slab_conserves (chunkSize : Nat) (m₀ m : Mem ι) (hinit : initMemZone chunkSize = some m₀)
    (hrun : Runs Mem.step Mem.allowed m₀ m) :
    Spread m.owned m.held ∧
    (∀ p chunk, chunk ∈ m.held (.page p) → chunk ∈ m.zone.chunks p) ∧
    (∀ p, (p ∈ m.zone.listOfPages ↔ 0 < m.freeOn p) ∧ m.freeOn p = (m.held (.page p)).length) ∧
    m.zone.freeChunks = (m.zone.listOfPages.map m.freeOn).sum % 2 ^ 32 ∧
    (m.wrapped = false → m.zone.freeChunks = (m.zone.listOfPages.map m.freeOn).sum ∧
      m.underflowed = false) ∧
    (∀ c ptr, m.allowed (.malloc c ptr) → ∃ chunk m',
      cacheMalloc c ptr m = .ok (some chunk, m') ∧ chunk ∉ m.handedOut) ∧
    (∀ a, m.allowed a → ∃ m', Mem.step a m = .ok m') ∧
    (∀ f ∈ m.frees, ∀ chunk ∈ m.zone.chunks f.page,
      chunk ∉ f.handedOut ∧ ∀ c, chunk ∉ f.cached c) ∧
    (m.handedOut = [] → (∀ c, (m.cache c).items = []) → zoneFree m = .ok ()) := by
  obtain ⟨h, hnone⟩ := Mem.Sound.run hrun (Mem.Sound.init hinit)
  refine ⟨h.spread, h.home, fun p => ⟨h.listed p, h.count p⟩, h.total, h.exact,
    fun c ptr hallowed => ?_, fun a hallowed => ?_, h.frees, h.zoneFree hnone⟩
  · obtain ⟨chunk, m', hmalloc, hnew, _⟩ := h.malloc hallowed
    exact ⟨chunk, m', hmalloc, hnew⟩
  · obtain ⟨m', hstep, _⟩ := h.step hnone hallowed
    exact ⟨m', hstep⟩

/-- Two caches: both pages go when the chunks come home, one of them through the other cache. -/
def slabActs : List (MemAct Bool) :=
  [.malloc false 4096, .malloc true 8192, .malloc false 0, .free true 10304, .free true 6208,
    .drain true, .free false 5184, .malloc false 0, .free true 5184, .drain true, .drain false]

theorem slab_conserves_two : ∃ m₀ m : Mem Bool, initMemZone 1000 = some m₀ ∧
    Runs Mem.step Mem.allowed m₀ m ∧ m.zone.freedPages = 2 ∧ zoneFree m = .ok () := by
  obtain ⟨m₀, hinit⟩ : ∃ m₀ : Mem Bool, initMemZone 1000 = some m₀ := ⟨_, rfl⟩
  obtain ⟨m, hrun, hm⟩ := exists_run (show (runActs Mem.step Mem.allowed slabActs m₀).any
    (fun m => decide (m.zone.freedPages = 2 ∧ m.handedOut = [] ∧
      ∀ c, (m.cache c).items = [])) = true by cases hinit; decide +kernel)
  obtain ⟨hfreed, hout, hcaches⟩ := of_decide_eq_true hm
  exact ⟨m₀, m, hinit, hrun, hfreed,
    (slab_conserves 1000 m₀ m hinit hrun).2.2.2.2.2.2.2.2 hout hcaches⟩

/-- A zone of `2 ^ 27` pages, with a chunk of each in use, has more free chunks than
its number can say. -/
theorem slab_total_wraps : ∃ m₀ m : Mem Unit, initMemZone 8 = some m₀ ∧
    Runs Mem.step Mem.allowed m₀ m ∧
    m.zone.freeChunks ≠ (m.zone.listOfPages.map m.freeOn).sum := by
  obtain ⟨m₀, hinit⟩ : ∃ m₀ : Mem Unit, initMemZone 8 = some m₀ := ⟨_, rfl⟩
  have hper : m₀.zone.chunksPerPage = 63 := by
    cases hinit
    rfl
  obtain ⟨m, hrun, hall, hlength, hsame, -⟩ := exists_allOut hinit (2 ^ 27) (by decide)
  obtain ⟨m', hrun', hsum⟩ := hall.scatter
  have hsound := Mem.Sound.run (hrun.trans hrun') (Mem.Sound.init hinit)
  have htotal := hsound.1.total
  rw [hsame, hper, hlength] at hsum
  refine ⟨m₀, m', hinit, hrun.trans hrun', fun heq => ?_⟩
  rw [heq] at htotal
  unfold Mem.listedFree at htotal
  omega

end Msock
