import Msock.Lib.Runs
import Msock.Queue.UpqueueProof
import Msock.Umap

/-!
# What the map of numbers guarantees

`countX` is the distance from the counter to the next number of a slot, so a number
handed out always has the slot's residue. From there two results. With room for the
counter below `2^64`, the map is at all times a partial injection: free slots are
empty, used slots hold a number of their own residue (`UmapInv`), and adding or
deleting one number changes the answer of `umap_get` for that number alone. And as
long as the counter has not wrapped, every number is larger than all before it, so
one that was deleted never answers again (`UmapHist`).
-/

namespace Msock

open Lib

universe u
variable {ρ : Type u} {root root' : UmapRoot ρ} {ptr p : ρ} {no idx n : Nat}

/-! ## The distance to the next number of a slot -/

theorem countX_spec (hpos : 0 < root.mapSz) (hsz : root.mapSz < 2 ^ 31) (hidx : idx < root.mapSz)
    (counter : Nat) : 0 < countX root idx counter ∧ countX root idx counter ≤ root.mapSz ∧
      (counter + countX root idx counter) % root.mapSz = idx := by
  have hc : counter % root.mapSz < root.mapSz := Nat.mod_lt _ hpos
  have hsub : ulongSub (ulong (root.mapSz + idx)) (counter % root.mapSz)
      = root.mapSz + idx - counter % root.mapSz := by
    unfold ulongSub ulong
    omega
  have hdist : (counter + (root.mapSz + idx - counter % root.mapSz)) % root.mapSz = idx := by
    have hsplit : counter + (root.mapSz + idx - counter % root.mapSz)
        = idx + root.mapSz * (counter / root.mapSz + 1) := by
      have := Nat.div_add_mod counter root.mapSz
      rw [Nat.mul_add, Nat.mul_one]
      omega
    rw [hsplit, Nat.add_mul_mod_self_left, Nat.mod_eq_of_lt hidx]
  have hx : (counter + (root.mapSz + idx - counter % root.mapSz) % root.mapSz) % root.mapSz
      = idx := by
    rw [Nat.add_mod_mod, hdist]
  unfold countX
  rw [hsub]
  dsimp only
  split
  · rename_i hzero
    rw [hzero] at hx
    refine ⟨hpos, Nat.le_refl _, ?_⟩
    rw [Nat.add_mod_right]
    simpa using hx
  · exact ⟨by omega, (Nat.mod_lt _ hpos).le, hx⟩

/-- Below the limit the count settles at once. -/
theorem countAgain_first {counter fuel : Nat} (hmax : root.maxCounter ≤ 2 ^ 64)
    (h : counter + countX root idx counter < root.maxCounter) :
    countAgain root idx (fuel + 1) counter
      = some (countX root idx counter, counter + countX root idx counter) := by
  have hno : ulong (counter + countX root idx counter) = counter + countX root idx counter :=
    Nat.mod_eq_of_lt (by omega)
  simp only [countAgain, hno]
  rw [if_neg (by omega)]

/-- A count that settles stays below the limit. -/
theorem countAgain_lt {x : Nat} : ∀ {fuel counter : Nat},
    countAgain root idx fuel counter = some (x, no) → no < root.maxCounter
  | 0, _, h => by simp [countAgain] at h
  | fuel + 1, counter, h => by
      simp only [countAgain] at h
      split at h
      · exact countAgain_lt h
      · rename_i hlt
        obtain ⟨rfl, rfl⟩ := Prod.mk.inj (Option.some.inj h)
        omega

/-- With room below `2^64` one restart is enough, and the number has the slot's residue. -/
theorem countAgain_settles {counter : Nat} (hpos : 0 < root.mapSz) (hsz : root.mapSz < 2 ^ 31)
    (hidx : idx < root.mapSz) (hmax : root.mapSz < root.maxCounter)
    (hroom : root.maxCounter + root.mapSz ≤ 2 ^ 64) (hc : counter < root.maxCounter) :
    ∃ x no, countAgain root idx 2 counter = some (x, no) ∧ 0 < x ∧ 0 < no ∧
      no < root.maxCounter ∧ no % root.mapSz = idx := by
  obtain ⟨hx0, hxsz, hxmod⟩ := countX_spec hpos hsz hidx counter
  by_cases hlt : counter + countX root idx counter < root.maxCounter
  · exact ⟨_, _, countAgain_first (by omega) hlt, hx0, by omega, hlt, hxmod⟩
  · -- the count starts over from 0, and any slot's first number is below the limit
    obtain ⟨hy0, hysz, hymod⟩ := countX_spec hpos hsz hidx 0
    refine ⟨_, _, ?_, hy0, ?_, ?_, hymod⟩
    · have hno : ulong (counter + countX root idx counter) = counter + countX root idx counter :=
        Nat.mod_eq_of_lt (by omega)
      rw [countAgain]
      simp only [hno]
      rw [if_pos (by omega)]
      exact countAgain_first (by omega) (by omega)
    · omega
    · omega

/-! ## The two changes -/

theorem umapAdd_cases (h : umapAdd root ptr = some (no, root')) :
    (∃ freeItems inQueue, queueGet root.freeItems root.inQueue = some (none, freeItems, inQueue) ∧
      no = 0 ∧ root' = root) ∨
    ∃ idx freeItems inQueue x,
      queueGet root.freeItems root.inQueue = some (some idx, freeItems, inQueue) ∧
      countAgain root idx 2 root.counter = some (x, no) ∧ no % root.mapSz = idx ∧
      root' = { root with
        counter := no
        freeItems := freeItems
        inQueue := inQueue
        data := Function.update root.data idx ⟨no, some ptr⟩ } := by
  unfold umapAdd at h
  split at h
  · cases h
  · rename_i freeItems inQueue hget
    obtain ⟨rfl, rfl⟩ := Prod.mk.inj (Option.some.inj h)
    exact Or.inl ⟨freeItems, inQueue, hget, rfl, rfl⟩
  · rename_i idx freeItems inQueue hget
    split at h
    · cases h
    · rename_i x no' hcount
      split at h
      · rename_i hok
        obtain ⟨rfl, rfl⟩ := Prod.mk.inj (Option.some.inj h)
        exact Or.inr ⟨idx, freeItems, inQueue, x, hget, hcount, hok.1, rfl⟩
      · cases h

/-- Whatever the state of the map, a number it hands out is below the limit and answers. -/
theorem umapAdd_get (h : umapAdd root ptr = some (no, root')) (hno : no ≠ 0) :
    no < root.maxCounter ∧ root'.maxCounter = root.maxCounter ∧ root'.mapSz = root.mapSz ∧
      umapGet root' no = some ptr := by
  rcases umapAdd_cases h with ⟨_, _, _, h0, _⟩ | ⟨idx, freeItems, inQueue, x, _, hcount, hmod, rfl⟩
  · exact absurd h0 hno
  · refine ⟨countAgain_lt hcount, rfl, rfl, ?_⟩
    simp [umapGet, hmod]

theorem umapDel_of_ne (h : (root.data (no % root.mapSz)).no ≠ no) :
    umapDel root no = some root := by
  unfold umapDel
  exact if_pos h

theorem umapDel_of_eq (h : (root.data (no % root.mapSz)).no = no) :
    umapDel root no = (queuePut (no % root.mapSz) root.freeItems root.inQueue).map (fun r =>
      { root with
        data := Function.update root.data (no % root.mapSz) ⟨0, none⟩
        freeItems := r.2.1
        inQueue := r.2.2 }) := by
  unfold umapDel
  exact if_neg (not_not.mpr h)

theorem umapDel_cases (h : umapDel root no = some root') :
    ((root.data (no % root.mapSz)).no ≠ no ∧ root' = root) ∨
    ∃ empty freeItems inQueue, (root.data (no % root.mapSz)).no = no ∧
      queuePut (no % root.mapSz) root.freeItems root.inQueue
        = some (empty, freeItems, inQueue) ∧
      root' = { root with
        data := Function.update root.data (no % root.mapSz) ⟨0, none⟩
        freeItems := freeItems
        inQueue := inQueue } := by
  by_cases hno : (root.data (no % root.mapSz)).no = no
  · rw [umapDel_of_eq hno] at h
    obtain ⟨⟨empty, freeItems, inQueue⟩, hput, hroot⟩ := Option.map_eq_some_iff.mp h
    exact Or.inr ⟨empty, freeItems, inQueue, hno, hput, hroot.symm⟩
  · rw [umapDel_of_ne hno] at h
    exact Or.inl ⟨hno, (Option.some.inj h).symm⟩

/-- A deletion leaves the counter and the bounds alone. -/
theorem umapDel_counter (h : umapDel root no = some root') : root'.counter = root.counter ∧
    root'.mapSz = root.mapSz ∧ root'.maxCounter = root.maxCounter := by
  rcases umapDel_cases h with ⟨_, rfl⟩ | ⟨_, _, _, _, _, rfl⟩
  · exact ⟨rfl, rfl, rfl⟩
  · exact ⟨rfl, rfl, rfl⟩

/-! ## The slots that wait -/

/-- The slots `xs` wait in the free queue. -/
def UmapRoot.Free (root : UmapRoot ρ) (xs : List Nat) : Prop :=
  FreeSlots root.mapSz root.freeItems root.inQueue xs

theorem umapNew_free (mapSz maxCounter : Nat) :
    (umapNew mapSz maxCounter : UmapRoot ρ).Free (List.range mapSz) := by
  obtain ⟨freeItems, inQueue, hloop, hfree⟩ := umapNewLoop_range mapSz
  unfold UmapRoot.Free umapNew
  simp only [hloop, Option.get_some]
  exact hfree

/-- Deleting the number of a slot that does not wait puts the slot at the end. -/
theorem UmapRoot.Free.del {xs : List Nat} (hf : root.Free xs) (hpos : 0 < root.mapSz)
    (hno : (root.data (no % root.mapSz)).no = no) (hmem : no % root.mapSz ∉ xs) :
    ∃ freeItems inQueue,
      umapDel root no = some { root with
        data := Function.update root.data (no % root.mapSz) ⟨0, none⟩
        freeItems := freeItems
        inQueue := inQueue } ∧
      FreeSlots root.mapSz freeItems inQueue (xs ++ [no % root.mapSz]) := by
  obtain ⟨freeItems, inQueue, hput, hfree⟩ := FreeSlots.put hf (Nat.mod_lt _ hpos) hmem
  exact ⟨freeItems, inQueue, by rw [umapDel_of_eq hno, hput]; rfl, hfree⟩

/-- Every slot that waits is empty, and waits once. -/
def UmapRoot.FreeOnce (root : UmapRoot ρ) : Prop :=
  ∃ xs, root.Free xs ∧ ∀ i ∈ xs, (root.data i).no = 0

theorem umapNew_freeOnce (mapSz maxCounter : Nat) :
    (umapNew mapSz maxCounter : UmapRoot ρ).FreeOnce :=
  ⟨_, umapNew_free mapSz maxCounter, fun _ _ => rfl⟩

theorem UmapRoot.FreeOnce.add (hf : root.FreeOnce) (h : umapAdd root ptr = some (no, root')) :
    root'.FreeOnce := by
  obtain ⟨xs, hfree, hzero⟩ := hf
  rcases umapAdd_cases h with ⟨_, _, _, _, rfl⟩ | ⟨idx, freeItems, inQueue, x, hget, _, _, rfl⟩
  · exact ⟨xs, hfree, hzero⟩
  · obtain ⟨ys, rfl, hys⟩ := FreeSlots.of_get hfree hget
    refine ⟨ys, hys, fun i hi => ?_⟩
    have hne : i ≠ idx := fun he =>
      (List.nodup_cons.1 (FreeSlots.nodup hfree)).1 (he ▸ hi)
    simpa only [Function.update_of_ne hne] using hzero i (List.mem_cons_of_mem _ hi)

/-- While slot 0 waits, the number 0 is the one that must not be deleted. -/
theorem UmapRoot.FreeOnce.del (hf : root.FreeOnce) (hpos : 0 < root.mapSz)
    (hspare : no ≠ 0 ∨ (root.data 0).no ≠ 0) :
    ∃ root', umapDel root no = some root' ∧ root'.FreeOnce := by
  obtain ⟨xs, hfree, hzero⟩ := hf
  by_cases hno : (root.data (no % root.mapSz)).no = no
  · have hne : no ≠ 0 := by
      rcases hspare with hne | hne
      · exact hne
      · rintro rfl
        rw [Nat.zero_mod] at hno
        exact hne hno
    have hmem : no % root.mapSz ∉ xs := fun hm => hne (hno.symm.trans (hzero _ hm))
    obtain ⟨freeItems, inQueue, hdel, hfree'⟩ := hfree.del hpos hno hmem
    refine ⟨_, hdel, _, hfree', fun i hi => ?_⟩
    by_cases hslot : i = no % root.mapSz
    · subst hslot
      simp
    · rcases List.mem_append.1 hi with hi | hi
      · simpa only [Function.update_of_ne hslot] using hzero i hi
      · exact absurd (List.mem_singleton.1 hi) hslot
  · exact ⟨root, umapDel_of_ne hno, xs, hfree, hzero⟩

/-! ## The map is a partial injection -/

/-- What holds of a map at all times, also after its counter started over. -/
structure UmapInv (root : UmapRoot ρ) : Prop where
  size_pos : 0 < root.mapSz
  size_lt : root.mapSz < 2 ^ 31
  /-- Every slot has a number below the limit. -/
  limit : root.mapSz < root.maxCounter
  /-- The counter never overflows an `unsigned long`. -/
  room : root.maxCounter + root.mapSz ≤ 2 ^ 64
  counter : root.counter < root.maxCounter
  /-- The slots that wait are those without a number. -/
  free : ∃ xs, root.Free xs ∧ ∀ i < root.mapSz, i ∈ xs ↔ (root.data i).no = 0
  /-- A slot without a number holds no pointer. -/
  empty : ∀ i < root.mapSz, (root.data i).no = 0 → (root.data i).ptr = none
  /-- A number leads to its slot. -/
  used : ∀ i < root.mapSz, (root.data i).no ≠ 0 →
    (root.data i).no < root.maxCounter ∧ (root.data i).no % root.mapSz = i

theorem umapInv_new {mapSz maxCounter : Nat} (hpos : 0 < mapSz) (hsz : mapSz < 2 ^ 31)
    (hlim : mapSz < maxCounter) (hroom : maxCounter + mapSz ≤ 2 ^ 64) :
    UmapInv (umapNew mapSz maxCounter : UmapRoot ρ) where
  size_pos := hpos
  size_lt := hsz
  limit := hlim
  room := hroom
  counter := by
    show 1 < maxCounter
    omega
  free := ⟨_, umapNew_free mapSz maxCounter, fun i hi =>
    ⟨fun _ => rfl, fun _ => List.mem_range.mpr hi⟩⟩
  empty := fun _ _ _ => rfl
  used := fun _ _ hne => absurd rfl hne

/-- A number that answers is in its own slot. -/
theorem umapGet_eq_some : umapGet root n = some p ↔
    (root.data (n % root.mapSz)).no = n ∧ (root.data (n % root.mapSz)).ptr = some p := by
  unfold umapGet
  dsimp only
  by_cases h : (root.data (n % root.mapSz)).no = n
  · rw [if_neg (fun hne => hne h)]
    exact ⟨fun hp => ⟨h, hp⟩, fun hp => hp.2⟩
  · rw [if_pos h]
    simp [h]

theorem UmapInv.slot_lt (hi : UmapInv root) (n : Nat) : n % root.mapSz < root.mapSz :=
  Nat.mod_lt _ hi.size_pos

/-- A number that answers is neither 0 nor beyond the limit. -/
theorem UmapInv.get_bounds (hi : UmapInv root) (h : umapGet root n = some p) :
    0 < n ∧ n < root.maxCounter := by
  obtain ⟨hno, hptr⟩ := umapGet_eq_some.mp h
  have hne : n ≠ 0 := by
    rintro rfl
    rw [hi.empty _ (hi.slot_lt 0) hno] at hptr
    cases hptr
  have hused := hi.used _ (hi.slot_lt n) (by rw [hno]; exact hne)
  rw [hno] at hused
  exact ⟨Nat.pos_of_ne_zero hne, hused.1⟩

/-- The slot that `queue_get` takes is an empty one. -/
theorem UmapInv.taken (hi : UmapInv root) {freeItems : QueueRoot Nat} {inQueue : Links Nat}
    (hget : queueGet root.freeItems root.inQueue = some (some idx, freeItems, inQueue)) :
    idx < root.mapSz ∧ (root.data idx).no = 0 := by
  obtain ⟨xs, hfree, hxs⟩ := hi.free
  obtain ⟨ys, rfl, -⟩ := FreeSlots.of_get hfree hget
  have hlt := FreeSlots.slots hfree idx List.mem_cons_self
  exact ⟨hlt, (hxs idx hlt).mp List.mem_cons_self⟩

/-- With a free slot, `umap_add` succeeds. -/
theorem UmapInv.add_succeeds (hi : UmapInv root) {xs : List Nat} (hfree : root.Free (idx :: xs))
    (ptr : ρ) : ∃ no root', umapAdd root ptr = some (no, root') ∧ no ≠ 0 := by
  obtain ⟨freeItems, inQueue, hget, -⟩ := FreeSlots.get_cons hfree
  obtain ⟨x, no, hcount, hx, hpos, _, hmod⟩ :=
    countAgain_settles hi.size_pos hi.size_lt (hi.taken hget).1 hi.limit hi.room hi.counter
  refine ⟨no, { root with
    counter := no
    freeItems := freeItems
    inQueue := inQueue
    data := Function.update root.data idx ⟨no, some ptr⟩ }, ?_, hpos.ne'⟩
  simp only [umapAdd, hget, hcount]
  exact if_pos ⟨hmod, hx⟩

/-- `umap_add` never fails. -/
theorem UmapInv.add_isSome (hi : UmapInv root) (ptr : ρ) : umapAdd root ptr ≠ none := by
  obtain ⟨xs, hfree, -⟩ := hi.free
  cases xs with
  | nil => simp [umapAdd, FreeSlots.get_nil hfree]
  | cons idx xs =>
      obtain ⟨no, root', hadd, -⟩ := hi.add_succeeds hfree ptr
      simp [hadd]

/-- A number that is handed out did not answer before. -/
theorem UmapInv.add_fresh (hi : UmapInv root) (h : umapAdd root ptr = some (no, root'))
    (hno : no ≠ 0) : umapGet root no = none := by
  rcases umapAdd_cases h with ⟨_, _, _, h0, _⟩ | ⟨idx, freeItems, inQueue, x, hget, _, hmod, _⟩
  · exact absurd h0 hno
  · cases hold : umapGet root no with
    | none => rfl
    | some p =>
        have hold := (umapGet_eq_some.mp hold).1
        rw [hmod, (hi.taken hget).2] at hold
        exact absurd hold.symm hno

/-- **Adding a number changes the answer for that number alone.** -/
theorem UmapInv.add (hi : UmapInv root) (h : umapAdd root ptr = some (no, root')) (hno : no ≠ 0) :
    UmapInv root' ∧ ∀ n, n ≠ no → umapGet root' n = umapGet root n := by
  rcases umapAdd_cases h with ⟨_, _, _, h0, _⟩ | ⟨idx, freeItems, inQueue, x, hget, hcount, hmod, rfl⟩
  · exact absurd h0 hno
  · obtain ⟨hlt, hzero⟩ := hi.taken hget
    obtain ⟨xs, hfree, hxs⟩ := hi.free
    obtain ⟨ys, rfl, hys⟩ := FreeSlots.of_get hfree hget
    have hnot : idx ∉ ys := (List.nodup_cons.mp (FreeSlots.nodup hfree)).1
    have hmax := countAgain_lt hcount
    refine ⟨⟨hi.size_pos, hi.size_lt, hi.limit, hi.room, hmax, ⟨ys, hys, ?_⟩, ?_, ?_⟩, ?_⟩
    · intro i hisz
      by_cases hne : i = idx
      · subst hne
        simp [hnot, hno]
      · simpa [Function.update_of_ne hne, hne] using hxs i hisz
    · intro i hisz
      by_cases hne : i = idx
      · subst hne
        simp [hno]
      · simpa only [Function.update_of_ne hne] using hi.empty i hisz
    · intro i hisz
      by_cases hne : i = idx
      · subst hne
        simp only [Function.update_self]
        exact fun _ => ⟨hmax, hmod⟩
      · simpa only [Function.update_of_ne hne] using hi.used i hisz
    · intro n hn
      by_cases hs : n % root.mapSz = idx
      · simp only [umapGet, hs, Function.update_self, hi.empty idx hlt hzero]
        rw [if_pos (Ne.symm hn)]
        split <;> rfl
      · simp only [umapGet, Function.update_of_ne hs]

/-- **Deleting a number changes the answer for that number alone.** -/
theorem UmapInv.del (hi : UmapInv root) (h : umapGet root no = some p) :
    ∃ root', umapDel root no = some root' ∧ UmapInv root' ∧ umapGet root' no = none ∧
      ∀ n, n ≠ no → umapGet root' n = umapGet root n := by
  have hpos := (hi.get_bounds h).1
  have hdata := (umapGet_eq_some.mp h).1
  obtain ⟨xs, hfree, hxs⟩ := hi.free
  have hmem : no % root.mapSz ∉ xs := by
    rw [hxs _ (hi.slot_lt no), hdata]
    exact hpos.ne'
  obtain ⟨freeItems, inQueue, hdel, hfree'⟩ := hfree.del hi.size_pos hdata hmem
  refine ⟨_, hdel, ⟨hi.size_pos, hi.size_lt, hi.limit, hi.room, hi.counter, ⟨_, hfree', ?_⟩, ?_, ?_⟩,
    ?_, ?_⟩
  · intro i hisz
    by_cases hne : i = no % root.mapSz
    · subst hne
      simp
    · simpa [Function.update_of_ne hne, hne] using hxs i hisz
  · intro i hisz
    by_cases hne : i = no % root.mapSz
    · subst hne
      simp
    · simpa only [Function.update_of_ne hne] using hi.empty i hisz
  · intro i hisz
    by_cases hne : i = no % root.mapSz
    · subst hne
      simp
    · simpa only [Function.update_of_ne hne] using hi.used i hisz
  · simp [umapGet]
  · intro n hn
    by_cases hs : n % root.mapSz = no % root.mapSz
    · simp only [umapGet, hs, Function.update_self, hdata]
      rw [if_pos (Ne.symm hn)]
      split <;> rfl
    · simp only [umapGet, Function.update_of_ne hs]

/-- The same of the map that `umap_del` returned. -/
theorem UmapInv.of_del (hi : UmapInv root) (h : umapGet root no = some p)
    (hdel : umapDel root no = some root') : UmapInv root' ∧ umapGet root' no = none ∧
      ∀ n, n ≠ no → umapGet root' n = umapGet root n := by
  obtain ⟨_, hsome, hinv⟩ := hi.del h
  rw [hdel] at hsome
  exact Option.some.inj hsome ▸ hinv

/-! ## Numbers before the counter wraps -/

/-- A change of the map. -/
inductive UmapAct (ρ : Type u) where
  | add (ptr : ρ)
  | del (no : Nat)

/-- A map with the numbers it returned, oldest first, and those deleted since. -/
structure UmapHist (ρ : Type u) where
  root : UmapRoot ρ
  returned : List Nat
  deleted : List Nat

/-- A new map. -/
def UmapHist.new (mapSz maxCounter : Nat) : UmapHist ρ := ⟨umapNew mapSz maxCounter, [], []⟩

/-- `umap_add`, which fails when it answers 0, and `umap_del` of a live number. -/
def UmapHist.step (a : UmapAct ρ) (s : UmapHist ρ) : Except Unit (UmapHist ρ) :=
  match a with
  | .add ptr =>
      match umapAdd s.root ptr with
      | none => .error ()
      | some (no, root) =>
          .ok { s with root := root, returned := if no = 0 then s.returned else s.returned ++ [no] }
  | .del no =>
      if no ∈ s.returned ∧ no ∉ s.deleted then
        match umapDel s.root no with
        | none => .error ()
        | some root => .ok { s with root := root, deleted := no :: s.deleted }
      else .error ()

/-- The numbers of a map whose counter cannot have wrapped. -/
structure UmapHist.Fresh (s : UmapHist ρ) : Prop where
  sorted : s.returned.Pairwise (· < ·)
  /-- A slot with a number holds a live one. -/
  live : ∀ i, (s.root.data i).no ≠ 0 →
    (s.root.data i).no ∈ s.returned ∧ (s.root.data i).no ∉ s.deleted
  /-- With room for one more number, the counter is the largest so far. -/
  counter : 1 + (s.returned.length + 1) * s.root.mapSz < s.root.maxCounter →
    s.root.counter ≤ 1 + s.returned.length * s.root.mapSz ∧ ∀ n ∈ s.returned, n ≤ s.root.counter

/-- The invariant of a history: fresh as long as the bound on the adds holds. -/
structure UmapHist.Inv (mapSz maxCounter : Nat) (s : UmapHist ρ) : Prop where
  size : s.root.mapSz = mapSz
  limit : s.root.maxCounter = maxCounter
  free : s.root.FreeOnce
  pos : ∀ n ∈ s.returned, 0 < n
  residue : ∀ i, (s.root.data i).no ≠ 0 → (s.root.data i).no % mapSz = i
  deleted : ∀ n ∈ s.deleted, n ∈ s.returned
  fresh : 1 + s.returned.length * mapSz < maxCounter → s.Fresh

section History
variable {s s' : UmapHist ρ} {mapSz maxCounter : Nat}

theorem umapHist_init : UmapHist.Inv mapSz maxCounter (UmapHist.new mapSz maxCounter : UmapHist ρ) where
  size := rfl
  limit := rfl
  free := umapNew_freeOnce mapSz maxCounter
  pos := by simp [UmapHist.new]
  residue := fun i hi => absurd rfl hi
  deleted := by simp [UmapHist.new]
  fresh := fun _ => ⟨List.Pairwise.nil, fun i hi => absurd rfl hi,
    fun _ => ⟨by simp [UmapHist.new, umapNew], by simp [UmapHist.new]⟩⟩

/-- A count that ends at 0 has overflowed: there was no room for one more number. -/
theorem UmapHist.Inv.overflow (hpos : 0 < mapSz) (hsz : mapSz < 2 ^ 31) (hmax : maxCounter < 2 ^ 64)
    (hi : s.Inv mapSz maxCounter) {x : Nat} (hidx : idx < mapSz)
    (hcount : countAgain s.root idx 2 s.root.counter = some (x, 0))
    (hbound : 1 + s.returned.length * mapSz < maxCounter) :
    ¬ 1 + (s.returned.length + 1) * mapSz < maxCounter := by
  intro hroom
  obtain ⟨hle, _⟩ := (hi.fresh hbound).counter (by rw [hi.size, hi.limit]; exact hroom)
  have hcx := countX_spec (by rw [hi.size]; exact hpos) (by rw [hi.size]; exact hsz)
    (by rw [hi.size]; exact hidx) s.root.counter
  rw [hi.size] at hle hcx
  rw [Nat.add_mul, Nat.one_mul] at hroom
  rw [countAgain_first (by rw [hi.limit]; omega) (by rw [hi.limit]; omega)] at hcount
  have := (Prod.mk.inj (Option.some.inj hcount)).2
  omega

/-- `umap_add` keeps the history fresh, the new number counted in the bound. -/
theorem UmapHist.Inv.add (hpos : 0 < mapSz) (hsz : mapSz < 2 ^ 31) (hmax : maxCounter < 2 ^ 64)
    (hi : s.Inv mapSz maxCounter) (h : umapAdd s.root ptr = some (no, root')) :
    UmapHist.Inv mapSz maxCounter
      { s with root := root', returned := if no = 0 then s.returned else s.returned ++ [no] } := by
  have hfree := hi.free.add h
  rcases umapAdd_cases h with ⟨_, _, _, h0, hroot⟩ |
    ⟨idx, freeItems, inQueue, x, hget, hcount, hmod, hroot⟩
  · subst h0
    subst hroot
    exact hi
  · have hidx : idx < mapSz := by
      obtain ⟨xs, hxs, -⟩ := hi.free
      obtain ⟨ys, rfl, -⟩ := FreeSlots.of_get hxs hget
      rw [← hi.size]
      exact FreeSlots.slots hxs idx List.mem_cons_self
    have hcx := countX_spec (by rw [hi.size]; exact hpos) (by rw [hi.size]; exact hsz)
      (by rw [hi.size]; exact hidx) s.root.counter
    rw [hi.size] at hcx hmod
    subst hroot
    refine ⟨hi.size, hi.limit, hfree, fun n hn => ?_, fun i hne => ?_, fun n hn => ?_,
      fun hbound => ?_⟩
    · dsimp only at hn
      split at hn
      · exact hi.pos n hn
      · rename_i hno
        rcases List.mem_append.mp hn with hn | hn
        · exact hi.pos n hn
        · rw [List.mem_singleton.mp hn]
          exact Nat.pos_of_ne_zero hno
    · by_cases hs : i = idx
      · subst hs
        simpa using hmod
      · simp only [Function.update_of_ne hs] at hne ⊢
        exact hi.residue i hne
    · have hn := hi.deleted n hn
      dsimp only
      split
      · exact hn
      · exact List.mem_append_left _ hn
    · by_cases hno : no = 0
      · -- the counter overflowed to 0, so there was no room for one more number
        subst hno
        simp only [if_true] at hbound ⊢
        have hf := hi.fresh hbound
        have hfull := hi.overflow hpos hsz hmax hidx hcount hbound
        refine ⟨hf.sorted, fun i hne => ?_, fun hroom => ?_⟩
        · by_cases hs : i = idx
          · subst hs
            simp at hne
          · simp only [Function.update_of_ne hs] at hne ⊢
            exact hf.live i hne
        · rw [hi.size, hi.limit] at hroom
          exact absurd hroom hfull
      · -- no overflow and no restart: the number is the counter plus a distance
        simp only [if_neg hno, List.length_append, List.length_singleton] at hbound ⊢
        have hgrow : (s.returned.length + 1) * mapSz = s.returned.length * mapSz + mapSz := by
          rw [Nat.add_mul, Nat.one_mul]
        have hf := hi.fresh (by omega)
        obtain ⟨hle, hlargest⟩ := hf.counter (by rw [hi.size, hi.limit]; exact hbound)
        rw [hi.size] at hle
        rw [countAgain_first (by rw [hi.limit]; omega) (by rw [hi.limit]; omega)] at hcount
        obtain ⟨hx, hval⟩ := Prod.mk.inj (Option.some.inj hcount)
        rw [hx] at hcx hval
        have hnew : ∀ n ∈ s.returned, n < no := fun n hn => by
          have := hlargest n hn
          omega
        have hbelow : no ≤ 1 + (s.returned.length + 1) * mapSz := by omega
        refine ⟨?_, ?_, fun _ => ⟨?_, ?_⟩⟩
        · refine List.pairwise_append.mpr ⟨hf.sorted, List.pairwise_singleton _ _, ?_⟩
          intro a ha b hb
          rw [List.mem_singleton.mp hb]
          exact hnew a ha
        · intro i hne
          by_cases hs : i = idx
          · subst hs
            simp only [Function.update_self]
            refine ⟨List.mem_append_right _ (List.mem_singleton_self _), fun hdel => ?_⟩
            exact absurd (hnew _ (hi.deleted _ hdel)) (lt_irrefl _)
          · simp only [Function.update_of_ne hs] at hne ⊢
            exact ⟨List.mem_append_left _ (hf.live i hne).1, (hf.live i hne).2⟩
        · simpa only [hi.size, List.length_append, List.length_singleton] using hbelow
        · intro n hn
          rcases List.mem_append.mp hn with hn | hn
          · exact (hnew n hn).le
          · rw [List.mem_singleton.mp hn]

/-- `umap_del` of a live number leaves no slot with it. -/
theorem UmapHist.Inv.del (hpos : 0 < mapSz) (hi : s.Inv mapSz maxCounter) (hret : no ∈ s.returned)
    (hlive : no ∉ s.deleted) :
    ∃ root, umapDel s.root no = some root ∧
      UmapHist.Inv mapSz maxCounter { s with root := root, deleted := no :: s.deleted } := by
  have hdeleted : ∀ n ∈ no :: s.deleted, n ∈ s.returned := by
    intro n hn
    rcases List.mem_cons.mp hn with rfl | hn
    · exact hret
    · exact hi.deleted n hn
  obtain ⟨root, hdel, hfree⟩ :=
    hi.free.del (by rw [hi.size]; exact hpos) (Or.inl (hi.pos no hret).ne')
  refine ⟨root, hdel, ?_⟩
  rcases umapDel_cases hdel with ⟨hd, rfl⟩ | ⟨_, freeItems, inQueue, hd, -, rfl⟩
  · rw [hi.size] at hd
    refine ⟨hi.size, hi.limit, hfree, hi.pos, hi.residue, hdeleted, fun hbound => ?_⟩
    have hf := hi.fresh hbound
    refine ⟨hf.sorted, fun i hne => ⟨(hf.live i hne).1, fun hmem => ?_⟩, hf.counter⟩
    rcases List.mem_cons.mp hmem with he | hmem
    · have hres := hi.residue i hne
      rw [he] at hres
      rw [← hres] at he
      exact hd he
    · exact (hf.live i hne).2 hmem
  · refine ⟨hi.size, hi.limit, hfree, hi.pos, fun i hne => ?_, hdeleted, fun hbound => ?_⟩
    · by_cases hs : i = no % s.root.mapSz
      · subst hs
        simp at hne
      · simp only [Function.update_of_ne hs] at hne ⊢
        exact hi.residue i hne
    · have hf := hi.fresh hbound
      refine ⟨hf.sorted, fun i hne => ?_, hf.counter⟩
      by_cases hs : i = no % s.root.mapSz
      · subst hs
        simp at hne
      · simp only [Function.update_of_ne hs] at hne ⊢
        refine ⟨(hf.live i hne).1, fun hmem => ?_⟩
        rcases List.mem_cons.mp hmem with he | hmem
        · have := hi.residue i hne
          rw [he] at this
          exact hs (by rw [hi.size, this])
        · exact (hf.live i hne).2 hmem

theorem umapHist_step {a : UmapAct ρ} (hpos : 0 < mapSz) (hsz : mapSz < 2 ^ 31)
    (hmax : maxCounter < 2 ^ 64) (hi : s.Inv mapSz maxCounter)
    (h : UmapHist.step a s = .ok s') : s'.Inv mapSz maxCounter := by
  cases a with
  | add ptr =>
      simp only [UmapHist.step] at h
      split at h
      · cases h
      · rename_i hadd
        rw [← Except.ok.inj h]
        exact hi.add hpos hsz hmax hadd
  | del no =>
      simp only [UmapHist.step] at h
      split at h
      · rename_i hlive
        obtain ⟨root, hdel, hinv⟩ := hi.del hpos hlive.1 hlive.2
        rw [hdel] at h
        rw [← Except.ok.inj h]
        exact hinv
      · cases h

theorem umapHist_reachable (hpos : 0 < mapSz) (hsz : mapSz < 2 ^ 31) (hmax : maxCounter < 2 ^ 64)
    (hr : Runs UmapHist.step anyAct (UmapHist.new mapSz maxCounter) s) : s.Inv mapSz maxCounter :=
  hr.invariant (fun _ _ _ hi _ h => umapHist_step hpos hsz hmax hi h) umapHist_init

/-- Before the wrap, a deleted number does not answer. -/
theorem UmapHist.Fresh.deleted_get (hf : s.Fresh) (hi : s.Inv mapSz maxCounter)
    (hn : n ∈ s.deleted) : umapGet s.root n = none := by
  cases hget : umapGet s.root n with
  | none => rfl
  | some p =>
      have hno := (umapGet_eq_some.mp hget).1
      have hpos := hi.pos n (hi.deleted n hn)
      have hlive := hf.live (n % s.root.mapSz) (by rw [hno]; omega)
      rw [hno] at hlive
      exact absurd hn hlive.2

end History

end Msock
