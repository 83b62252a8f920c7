import Msock.Pid
import Msock.UmapProof

/-!
# The map of numbers is a finite map

`UmapRun` carries, next to a map, what a user of it expects: the list of live numbers
with their pointers. `Refines` says what the map must do to be that finite map, of
capacity `map_sz`: an add fails only when the list is full and otherwise returns a
number that is not on it, a get answers as the list does, and the free queue holds the
slots without a live number. Nothing here depends on the counter, so it holds across
any number of restarts.

What it does depend on is that the count never passes `2^64`, where the code adds
before it compares. That is settled by the arguments of `umap_new`: with room for
`map_sz` above the limit it cannot happen, and without it a run that keeps every slot
but one in use makes it happen.
-/

namespace Msock

open Lib

universe u
variable {ρ : Type u}

/-- A map, and the numbers that are live with the pointers they stand for. -/
structure UmapRun (ρ : Type u) where
  root : UmapRoot ρ
  live : List (Nat × ρ)

namespace UmapRun

/-- A new map. -/
def new (mapSz maxCounter : Nat) : UmapRun ρ := ⟨umapNew mapSz maxCounter, []⟩

/-- The live numbers. -/
def numbers (s : UmapRun ρ) : List Nat := s.live.map Prod.fst

/-- The pointer of a live number. -/
def lookup (s : UmapRun ρ) (n : Nat) : Option ρ := (s.live.find? (fun e => e.1 == n)).map Prod.snd

/-- `umap_add`, and `umap_del` of a live number. -/
def step (a : UmapAct ρ) (s : UmapRun ρ) : Except Unit (UmapRun ρ) :=
  match a with
  | .add ptr =>
      match umapAdd s.root ptr with
      | none => .error ()
      | some (no, root) => .ok ⟨root, if no = 0 then s.live else (no, ptr) :: s.live⟩
  | .del no =>
      if no ∈ s.numbers then
        match umapDel s.root no with
        | none => .error ()
        | some root => .ok ⟨root, s.live.eraseP (fun e => e.1 == no)⟩
      else .error ()

/-- What `umap_add` does for a finite map of capacity `mapSz`. -/
def Adds (mapSz maxCounter : Nat) (s : UmapRun ρ) (ptr : ρ) : Prop :=
  ∃ no root, umapAdd s.root ptr = some (no, root) ∧
    ((no = 0 ∧ root = s.root ∧ s.live.length = mapSz) ∨
      (0 < no ∧ no < maxCounter ∧ no ∉ s.numbers ∧ s.live.length < mapSz ∧
        queueGet s.root.freeItems s.root.inQueue
          = some (some (no % mapSz), root.freeItems, root.inQueue)))

/-- The map is the finite map of its live numbers. -/
structure Refines (mapSz maxCounter : Nat) (s : UmapRun ρ) : Prop where
  /-- Adding fails only when the map is full, and then changes nothing. -/
  adds : ∀ ptr, s.Adds mapSz maxCounter ptr
  /-- A live number can be deleted. -/
  dels : ∀ n ∈ s.numbers, (umapDel s.root n).isSome
  /-- A live number answers with its pointer, any other with NULL. -/
  gets : ∀ n, umapGet s.root n = s.lookup n
  /-- No number is live twice. -/
  nodup : s.numbers.Nodup
  /-- From `first` the free queue leads through the slots with no live number, each once. -/
  free : ∃ xs, Repr s.root.inQueue s.root.freeItems (Queue.ofList xs) ∧ xs.Nodup ∧
    ∀ i, i ∈ xs ↔ i < mapSz ∧ ∀ n ∈ s.numbers, n % mapSz ≠ i

/-- What the steps keep. -/
structure Inv (mapSz maxCounter : Nat) (s : UmapRun ρ) : Prop where
  map : UmapInv s.root
  size : s.root.mapSz = mapSz
  limit : s.root.maxCounter = maxCounter
  /-- The slots of the live numbers and the free ones are all slots, each once. -/
  slots : ∃ xs, s.root.Free xs ∧
    (s.live.map (fun e => e.1 % mapSz) ++ xs).Perm (List.range mapSz)
  gets : ∀ n p, (n, p) ∈ s.live ↔ umapGet s.root n = some p

variable {mapSz maxCounter : Nat} {s s' : UmapRun ρ}

/-! ## The invariant is the refinement -/

theorem Inv.nodup (hi : s.Inv mapSz maxCounter) : s.numbers.Nodup := by
  obtain ⟨xs, -, hslots⟩ := hi.slots
  have hnd := (List.nodup_append.mp (hslots.nodup_iff.mpr List.nodup_range)).1
  have hmap : (s.numbers.map (fun n => n % mapSz)).Nodup := by
    rw [numbers, List.map_map]
    exact hnd
  exact hmap.of_map _

/-- A number is looked up where it is listed. -/
theorem Inv.lookup_eq (hi : s.Inv mapSz maxCounter) (n : Nat) :
    umapGet s.root n = s.lookup n := by
  unfold lookup
  cases hfind : s.live.find? (fun e => e.1 == n) with
  | none =>
      cases hget : umapGet s.root n with
      | none => rfl
      | some p =>
          have hmem := (hi.gets n p).mpr hget
          have hno := List.find?_eq_none.mp hfind _ hmem
          exact absurd (beq_self_eq_true n) hno
  | some e =>
      obtain ⟨m, p⟩ := e
      have hmem := List.mem_of_find?_eq_some hfind
      have hbeq := List.find?_some hfind
      have heq : m = n := by simpa using hbeq
      rw [← heq]
      exact (hi.gets m p).mp hmem

theorem Inv.adds (hi : s.Inv mapSz maxCounter) (ptr : ρ) : s.Adds mapSz maxCounter ptr := by
  obtain ⟨xs, hfree, hslots⟩ := hi.slots
  have hlen := hslots.length_eq
  rw [List.length_append, List.length_map, List.length_range] at hlen
  cases xs with
  | nil =>
      refine ⟨0, s.root, ?_, Or.inl ⟨rfl, rfl, ?_⟩⟩
      · rw [umapAdd, FreeSlots.get_nil hfree]
      · rw [List.length_nil] at hlen
        omega
  | cons i xs =>
      obtain ⟨no, root, hadd, hno⟩ := hi.map.add_succeeds hfree ptr
      refine ⟨no, root, hadd, Or.inr ⟨Nat.pos_of_ne_zero hno, ?_, ?_, ?_, ?_⟩⟩
      · rw [← hi.limit]
        exact (umapAdd_get hadd hno).1
      · intro hmem
        obtain ⟨⟨m, p⟩, he, rfl⟩ := List.mem_map.mp hmem
        have hget := (hi.gets m p).mp he
        rw [hi.map.add_fresh hadd hno] at hget
        cases hget
      · rw [List.length_cons] at hlen
        omega
      · rcases umapAdd_cases hadd with ⟨_, _, _, h0, _⟩ | ⟨idx, _, _, x, hget, _, hmod, rfl⟩
        · exact absurd h0 hno
        · rw [hget, ← hi.size, hmod]

theorem Inv.dels (hi : s.Inv mapSz maxCounter) {n : Nat} (hn : n ∈ s.numbers) :
    (umapDel s.root n).isSome := by
  obtain ⟨⟨m, p⟩, hmem, rfl⟩ := List.mem_map.mp hn
  obtain ⟨root, hdel, -⟩ := hi.map.del ((hi.gets m p).mp hmem)
  rw [hdel]
  rfl

theorem Inv.refines (hi : s.Inv mapSz maxCounter) : s.Refines mapSz maxCounter where
  adds := hi.adds
  dels := fun _ hn => hi.dels hn
  gets := hi.lookup_eq
  nodup := hi.nodup
  free := by
    obtain ⟨xs, hfree, hslots⟩ := hi.slots
    have hnd := hslots.nodup_iff.mpr List.nodup_range
    refine ⟨xs, FreeSlots.queue hfree, FreeSlots.nodup hfree, fun i => ?_⟩
    have hmem : i < mapSz ↔ i ∈ s.live.map (fun e => e.1 % mapSz) ∨ i ∈ xs := by
      rw [← List.mem_append, hslots.mem_iff, List.mem_range]
    constructor
    · intro hin
      refine ⟨hmem.mpr (Or.inr hin), fun n hn he => ?_⟩
      obtain ⟨e, hlive, rfl⟩ := List.mem_map.mp hn
      exact (List.nodup_append.mp hnd).2.2 i (List.mem_map.mpr ⟨e, hlive, he⟩) i hin rfl
    · rintro ⟨hlt, hno⟩
      rcases hmem.mp hlt with hin | hin
      · obtain ⟨e, hlive, he⟩ := List.mem_map.mp hin
        exact absurd he (hno e.1 (List.mem_map.mpr ⟨e, hlive, rfl⟩))
      · exact hin

theorem step_add {ptr : ρ} {no : Nat} {root : UmapRoot ρ}
    (h : umapAdd s.root ptr = some (no, root)) :
    step (.add ptr) s = .ok ⟨root, if no = 0 then s.live else (no, ptr) :: s.live⟩ := by
  simp only [step, h]

theorem step_del {no : Nat} {root : UmapRoot ρ} (hlive : no ∈ s.numbers)
    (h : umapDel s.root no = some root) :
    step (.del no) s = .ok ⟨root, s.live.eraseP (fun e => e.1 == no)⟩ := by
  simp only [step, if_pos hlive, h]

/-! ## The steps keep it -/

theorem inv_init (hpos : 0 < mapSz) (hlt : mapSz < maxCounter) (hsz : mapSz < 2 ^ 31)
    (hroom : maxCounter + mapSz ≤ 2 ^ 64) : (new mapSz maxCounter : UmapRun ρ).Inv mapSz maxCounter where
  map := umapInv_new hpos hsz hlt hroom
  size := rfl
  limit := rfl
  slots := ⟨_, umapNew_free mapSz maxCounter, List.Perm.refl _⟩
  gets := by
    intro n p
    have hnone : umapGet (umapNew mapSz maxCounter : UmapRoot ρ) n = none := by
      unfold umapGet
      dsimp only
      split <;> rfl
    simp [new, hnone]

theorem Inv.add (hi : s.Inv mapSz maxCounter) {ptr : ρ} {no : Nat} {root : UmapRoot ρ}
    (h : umapAdd s.root ptr = some (no, root)) :
    Inv mapSz maxCounter ⟨root, if no = 0 then s.live else (no, ptr) :: s.live⟩ := by
  rcases umapAdd_cases h with ⟨_, _, _, rfl, rfl⟩ |
    ⟨idx, freeItems, inQueue, x, hget, hcount, hmod, hroot⟩
  · exact hi
  · obtain ⟨xs, hfree, hslots⟩ := hi.slots
    obtain ⟨ys, rfl, hys⟩ := FreeSlots.of_get hfree hget
    by_cases hno : no = 0
    · -- a slot was free, and with room the count does not end at 0
      obtain ⟨no', root', hadd, hpos⟩ := hi.map.add_succeeds hfree ptr
      rw [h] at hadd
      obtain ⟨rfl, -⟩ := Prod.mk.inj (Option.some.inj hadd)
      exact absurd hno hpos
    · rw [if_neg hno]
      obtain ⟨hmap, hother⟩ := hi.map.add h hno
      obtain ⟨-, hmax, hsize, hself⟩ := umapAdd_get h hno
      -- the slot was free, so its new number was not live
      have hnew : ∀ p, (no, p) ∉ s.live := by
        intro p hmem
        have hget := (hi.gets no p).mp hmem
        rw [hi.map.add_fresh h hno] at hget
        cases hget
      refine ⟨hmap, hsize.trans hi.size, hmax.trans hi.limit, ?_, fun n p => ?_⟩
      · have hslot : no % mapSz = idx := by rw [← hi.size]; exact hmod
        refine ⟨ys, by rw [hroot]; exact hys, ?_⟩
        simp only [List.map_cons, List.cons_append, hslot]
        exact List.perm_middle.symm.trans hslots
      · by_cases hn : n = no
        · subst hn
          simp only [List.mem_cons, Prod.mk.injEq, true_and, hself, Option.some.injEq]
          constructor
          · rintro (rfl | hmem)
            · rfl
            · exact absurd hmem (hnew p)
          · exact fun he => Or.inl he.symm
        · simp only [List.mem_cons, Prod.mk.injEq, hn, false_and, false_or]
          rw [hother n hn]
          exact hi.gets n p

theorem Inv.del (hi : s.Inv mapSz maxCounter) {no : Nat} (hlive : no ∈ s.numbers) :
    ∃ root, umapDel s.root no = some root ∧
      Inv mapSz maxCounter ⟨root, s.live.eraseP (fun e => e.1 == no)⟩ := by
  obtain ⟨⟨m, p⟩, hmem, rfl⟩ := List.mem_map.mp hlive
  have hget := (hi.gets m p).mp hmem
  obtain ⟨root, hdel, hmap, hgone, hother⟩ := hi.map.del hget
  obtain ⟨-, hsize, hlimit⟩ := umapDel_counter hdel
  obtain ⟨e, l₁, l₂, hbefore, he, hsplit, herase⟩ :=
    List.exists_of_eraseP (p := fun e => e.1 == m) hmem (by simp)
  have hem : e.1 = m := by simpa using he
  have hnd := hi.nodup
  rw [numbers, hsplit, List.map_append, List.map_cons] at hnd
  have hperm := @List.perm_middle _ e.1 (l₁.map Prod.fst) (l₂.map Prod.fst)
  obtain ⟨hnot, -⟩ := List.nodup_cons.mp (hperm.nodup_iff.mp hnd)
  have hrest : ∀ q, (m, q) ∉ l₁ ++ l₂ := by
    intro q hq
    refine hnot ?_
    rw [hem, ← List.map_append]
    exact List.mem_map.mpr ⟨_, hq, rfl⟩
  refine ⟨root, hdel, hmap, hsize.trans hi.size, hlimit.trans hi.limit, ?_, fun n q => ?_⟩
  · obtain ⟨xs, hfree, hslots⟩ := hi.slots
    have hnot : m % s.root.mapSz ∉ xs := by
      intro hin
      refine (List.nodup_append.mp (hslots.nodup_iff.mpr List.nodup_range)).2.2 (m % mapSz) ?_
        (m % mapSz) (by rw [← hi.size]; exact hin) rfl
      exact List.mem_map.mpr ⟨_, hmem, rfl⟩
    obtain ⟨freeItems, inQueue, hdel', hfree'⟩ :=
      hfree.del hi.map.size_pos (umapGet_eq_some.mp hget).1 hnot
    rw [hdel] at hdel'
    obtain rfl := Option.some.inj hdel'
    refine ⟨_, hfree', ?_⟩
    rw [hsplit, List.map_append, List.map_cons, hem] at hslots
    simp only [herase, List.map_append, hi.size]
    refine List.Perm.trans ?_ hslots
    rw [← List.append_assoc]
    refine (List.perm_append_singleton _ _).trans ?_
    rw [← List.cons_append]
    exact List.Perm.append_right _ List.perm_middle.symm
  · simp only [herase]
    by_cases hn : n = m
    · subst hn
      rw [hgone]
      simp only [reduceCtorEq, iff_false]
      exact hrest q
    · rw [hother n hn, ← hi.gets n q, hsplit]
      simp only [List.mem_append, List.mem_cons]
      constructor
      · rintro (h | h)
        · exact Or.inl h
        · exact Or.inr (Or.inr h)
      · rintro (h | h | h)
        · exact Or.inl h
        · exact absurd (by rw [← hem, ← h]) hn
        · exact Or.inr h

theorem inv_step {a : UmapAct ρ} (hi : s.Inv mapSz maxCounter) (h : step a s = .ok s') :
    s'.Inv mapSz maxCounter := by
  cases a with
  | add ptr =>
      simp only [step] at h
      split at h
      · cases h
      · rename_i hadd
        rw [← Except.ok.inj h]
        exact hi.add hadd
  | del no =>
      by_cases hlive : no ∈ s.numbers
      · obtain ⟨root, hdel, hinv⟩ := hi.del hlive
        rw [step_del hlive hdel] at h
        rw [← Except.ok.inj h]
        exact hinv
      · simp [step, hlive] at h

theorem inv_reachable (hpos : 0 < mapSz) (hlt : mapSz < maxCounter) (hsz : mapSz < 2 ^ 31)
    (hroom : maxCounter + mapSz ≤ 2 ^ 64) (hr : Runs step anyAct (new mapSz maxCounter) s) :
    s.Inv mapSz maxCounter :=
  hr.invariant (fun _ _ _ hi _ h => inv_step hi h) (inv_init hpos hlt hsz hroom)

/-! ## Without room the count overflows -/

/-- Well below the limit, `umap_add` advances the counter and fills the first free slot. -/
theorem umapAdd_roomy {root : UmapRoot ρ} {idx : Nat} {xs : List Nat} (ptr : ρ)
    (hsz : root.mapSz < 2 ^ 31) (hmax : root.maxCounter ≤ 2 ^ 64) (hfree : root.Free (idx :: xs))
    (hroom : root.counter + root.mapSz < root.maxCounter) :
    ∃ x root', 0 < x ∧ x ≤ root.mapSz ∧ (root.counter + x) % root.mapSz = idx ∧
      umapAdd root ptr = some (root.counter + x, root') ∧ root'.mapSz = root.mapSz ∧
      root'.maxCounter = root.maxCounter ∧ root'.counter = root.counter + x ∧ root'.Free xs ∧
      root'.data = Function.update root.data idx ⟨root.counter + x, some ptr⟩ := by
  have hidx := FreeSlots.slots hfree idx List.mem_cons_self
  obtain ⟨freeItems, inQueue, hget, hrest⟩ := FreeSlots.get_cons hfree
  obtain ⟨hx0, hxsz, hxmod⟩ := countX_spec (Nat.zero_lt_of_lt hidx) hsz hidx root.counter
  have hcount : countAgain root idx 2 root.counter
      = some (countX root idx root.counter, root.counter + countX root idx root.counter) :=
    countAgain_first hmax (by omega)
  refine ⟨countX root idx root.counter, { root with
    counter := root.counter + countX root idx root.counter
    freeItems := freeItems
    inQueue := inQueue
    data := Function.update root.data idx ⟨root.counter + countX root idx root.counter, some ptr⟩ },
    hx0, hxsz, hxmod, ?_, rfl, rfl, rfl, hrest, rfl⟩
  simp only [umapAdd, hget, hcount]
  exact if_pos ⟨hxmod, hx0⟩

/-- A run of adds that has filled the slots below `k`. -/
structure Filled (mapSz maxCounter k : Nat) (s : UmapRun ρ) : Prop where
  size : s.root.mapSz = mapSz
  limit : s.root.maxCounter = maxCounter
  free : s.root.Free (List.range' k (mapSz - k))
  counter : s.root.counter ≤ 1 + k * mapSz
  used : ∀ j < k, (s.root.data j).no ∈ s.numbers ∧ (s.root.data j).no % mapSz = j

theorem filled_init : (new mapSz maxCounter : UmapRun ρ).Filled mapSz maxCounter 0 where
  size := rfl
  limit := rfl
  free := by
    rw [Nat.sub_zero, ← List.range_eq_range']
    exact umapNew_free mapSz maxCounter
  counter := by simp [new, umapNew]
  used := fun j hj => absurd hj (Nat.not_lt_zero j)

/-- One add fills one more slot. -/
theorem Filled.add {k : Nat} (hf : s.Filled mapSz maxCounter k) (ptr : ρ) (hk : k < mapSz)
    (hsz : mapSz < 2 ^ 31) (hmax : maxCounter < 2 ^ 64) (hover : 2 ^ 64 < maxCounter + mapSz) :
    ∃ s', step (.add ptr) s = .ok s' ∧ s'.Filled mapSz maxCounter (k + 1) := by
  have hprod : k * mapSz ≤ 2 ^ 31 * 2 ^ 31 := Nat.mul_le_mul (by omega) (by omega)
  have hgrow : (k + 1) * mapSz = k * mapSz + mapSz := by rw [Nat.add_mul, Nat.one_mul]
  have hcounter := hf.counter
  have hfree := hf.free
  have hrange : List.range' k (mapSz - k) = k :: List.range' (k + 1) (mapSz - (k + 1)) := by
    rw [show mapSz - k = (mapSz - (k + 1)) + 1 by omega, List.range'_succ]
  rw [hrange] at hfree
  obtain ⟨x, root, hx0, hxsz, hxmod, hadd, hsize, hlimit, hcount, hrest, hdata⟩ :=
    umapAdd_roomy ptr (by rw [hf.size]; exact hsz) (by rw [hf.limit]; omega) hfree
      (by rw [hf.size, hf.limit]; omega)
  rw [hf.size] at hxsz hxmod
  refine ⟨_, step_add hadd, hsize.trans hf.size, hlimit.trans hf.limit, hrest, ?_, ?_⟩
  · dsimp only
    omega
  · intro j hj
    simp only [numbers, hdata]
    rw [if_neg (by omega)]
    by_cases hjk : j = k
    · subst hjk
      simp only [Function.update_self]
      exact ⟨List.mem_cons_self, hxmod⟩
    · simp only [Function.update_of_ne hjk]
      obtain ⟨hmem, hmod⟩ := hf.used j (by omega)
      exact ⟨List.mem_cons_of_mem _ hmem, hmod⟩

/-- All slots can be filled. -/
theorem exists_filled (ptr : ρ) (hsz : mapSz < 2 ^ 31) (hmax : maxCounter < 2 ^ 64)
    (hover : 2 ^ 64 < maxCounter + mapSz) : ∀ k ≤ mapSz, ∃ s : UmapRun ρ,
      Runs step anyAct (new mapSz maxCounter) s ∧ s.Filled mapSz maxCounter k
  | 0, _ => ⟨_, Relation.ReflTransGen.refl, filled_init⟩
  | k + 1, hk => by
      obtain ⟨s, hr, hf⟩ := exists_filled ptr hsz hmax hover k (by omega)
      obtain ⟨s', hstep, hf'⟩ := hf.add ptr (by omega) hsz hmax hover
      exact ⟨s', hr.trans (Runs.single trivial hstep), hf'⟩

/-- Every slot is in use, and the last number made is `c`, of slot `i`. -/
structure Cycling (mapSz maxCounter i c : Nat) (s : UmapRun ρ) : Prop where
  size : s.root.mapSz = mapSz
  limit : s.root.maxCounter = maxCounter
  free : s.root.Free []
  counter : s.root.counter = c
  used : (s.root.data i).no = c ∧ c ∈ s.numbers
  slot : c % mapSz = i

/-- With every slot in use, a delete of a number of slot `i` makes `i` the only free one. -/
theorem del_full {no : Nat} (hfree : s.root.Free []) (hpos : 0 < s.root.mapSz)
    (hno : (s.root.data (no % s.root.mapSz)).no = no) (hlive : no ∈ s.numbers) :
    ∃ s', step (.del no) s = .ok s' ∧ s'.root.mapSz = s.root.mapSz ∧
      s'.root.maxCounter = s.root.maxCounter ∧ s'.root.counter = s.root.counter ∧
      s'.root.Free [no % s.root.mapSz] := by
  obtain ⟨freeItems, inQueue, hdel, hfree'⟩ := hfree.del hpos hno (by simp)
  exact ⟨_, step_del hlive hdel, rfl, rfl, rfl, hfree'⟩

/-- Deleting the number of slot `i` and adding again advances the counter to the next number
of that slot. -/
theorem exists_cycling {no i : Nat} (ptr : ρ) (hpos : 0 < mapSz) (hsz : mapSz < 2 ^ 31)
    (hmax : maxCounter < 2 ^ 64) (hsize : s.root.mapSz = mapSz) (hlimit : s.root.maxCounter = maxCounter)
    (hfree : s.root.Free []) (hno : (s.root.data i).no = no) (hlive : no ∈ s.numbers)
    (hslot : no % mapSz = i) (hroom : s.root.counter + mapSz < maxCounter) :
    ∃ s' x, Runs step anyAct s s' ∧ 0 < x ∧ x ≤ mapSz ∧
      s'.Cycling mapSz maxCounter i (s.root.counter + x) := by
  obtain ⟨t, hdel, hts, htm, htc, htfree⟩ :=
    del_full hfree (by rw [hsize]; exact hpos) (by rw [hsize, hslot]; exact hno) hlive
  rw [hsize, hslot] at htfree
  rw [hsize] at hts
  rw [hlimit] at htm
  obtain ⟨x, root, hx0, hxsz, hxmod, hadd, hrs, hrm, hrc, hrfree, hdata⟩ :=
    umapAdd_roomy ptr (by rw [hts]; exact hsz) (by rw [htm]; omega) htfree
      (by rw [hts, htm, htc]; exact hroom)
  rw [htc] at hadd hxmod hrc hdata
  rw [hts] at hxsz hxmod
  refine ⟨_, x, (Runs.single trivial hdel).trans (Runs.single trivial (step_add hadd)), hx0, hxsz,
    hrs.trans hts, hrm.trans htm, hrfree, hrc, ⟨?_, ?_⟩, hxmod⟩
  · simp [hdata]
  · simp only [numbers]
    rw [if_neg (by omega)]
    exact List.mem_cons_self

/-- The cycle can be gone through again, up to `2 ^ 64 - map_sz`. -/
theorem Cycling.next {i c : Nat} (hc : s.Cycling mapSz maxCounter i c) (ptr : ρ) (hpos : 0 < mapSz)
    (hsz : mapSz < 2 ^ 31) (hmax : maxCounter < 2 ^ 64) (hroom : c + mapSz < maxCounter) :
    ∃ s', Runs step anyAct s s' ∧ s'.Cycling mapSz maxCounter i (c + mapSz) := by
  obtain ⟨s', x, hr, hx0, hxsz, hc'⟩ := exists_cycling ptr hpos hsz hmax hc.size hc.limit
    hc.free hc.used.1 hc.used.2 hc.slot (by rw [hc.counter]; exact hroom)
  rw [hc.counter] at hc'
  -- two numbers of one slot that are at most `map_sz` apart are `map_sz` apart
  have hx : x = mapSz := by
    have hmod : (c + x) % mapSz = c % mapSz := hc'.slot.trans hc.slot.symm
    have hdvd : mapSz ∣ x := by
      have h := (Nat.modEq_iff_dvd' (Nat.le_add_right c x)).mp (Eq.symm hmod)
      rwa [Nat.add_sub_cancel_left] at h
    exact Nat.le_antisymm hxsz (Nat.le_of_dvd hx0 hdvd)
  rw [hx] at hc'
  exact ⟨s', hr, hc'⟩

theorem Cycling.iterate {i c : Nat} (ptr : ρ) (hpos : 0 < mapSz) (hsz : mapSz < 2 ^ 31)
    (hmax : maxCounter < 2 ^ 64) (hc : s.Cycling mapSz maxCounter i c) : ∀ n : Nat,
    c + n * mapSz < maxCounter →
      ∃ s', Runs step anyAct s s' ∧ s'.Cycling mapSz maxCounter i (c + n * mapSz)
  | 0, _ => ⟨s, Relation.ReflTransGen.refl, by rw [Nat.zero_mul, Nat.add_zero]; exact hc⟩
  | n + 1, hn => by
      rw [Nat.add_mul, Nat.one_mul, ← Nat.add_assoc] at hn ⊢
      obtain ⟨t, hr, ht⟩ := Cycling.iterate ptr hpos hsz hmax hc n (by omega)
      obtain ⟨s', hr', hs'⟩ := ht.next ptr hpos hsz hmax hn
      exact ⟨s', hr.trans hr', hs'⟩

/-- Without room there is a run after which `umap_add` is wrong: the sum overflows to 0. -/
theorem exists_overflow (ptr : ρ) (hpos : 0 < mapSz) (hlt : mapSz < maxCounter)
    (hsz : mapSz < 2 ^ 31) (hmax : maxCounter < 2 ^ 64) (hover : 2 ^ 64 < maxCounter + mapSz) :
    ∃ s : UmapRun ρ, Runs step anyAct (new mapSz maxCounter) s ∧ ¬ s.Refines mapSz maxCounter := by
  obtain ⟨s₁, hr₁, hf⟩ := exists_filled ptr hsz hmax hover mapSz (Nat.le_refl _)
  have hsq : mapSz * mapSz ≤ 2 ^ 31 * 2 ^ 31 := Nat.mul_le_mul (by omega) (by omega)
  have hcounter := hf.counter
  have hfree₁ : s₁.root.Free [] := by
    have := hf.free
    rwa [Nat.sub_self] at this
  -- the slot that `2 ^ 64 - map_sz` belongs to
  obtain ⟨i, hi⟩ : ∃ i, i = (2 ^ 64 - mapSz) % mapSz := ⟨_, rfl⟩
  have hilt : i < mapSz := hi ▸ Nat.mod_lt _ hpos
  obtain ⟨hmem, hmod⟩ := hf.used i hilt
  obtain ⟨s₂, x, hr₂, hx0, hxsz, hc₂⟩ := exists_cycling ptr hpos hsz hmax hf.size hf.limit
    hfree₁ rfl hmem hmod (by omega)
  -- the counter reaches `2 ^ 64 - map_sz` in that slot
  have hdvd : mapSz ∣ 2 ^ 64 - mapSz - (s₁.root.counter + x) :=
    (Nat.modEq_iff_dvd' (by omega)).mp (hc₂.slot.trans hi)
  obtain ⟨n, hn⟩ := hdvd
  rw [Nat.mul_comm] at hn
  obtain ⟨s₃, hr₃, hc₃⟩ := Cycling.iterate ptr hpos hsz hmax hc₂ n (by omega)
  have hlast : s₁.root.counter + x + n * mapSz = 2 ^ 64 - mapSz := by omega
  rw [hlast] at hc₃
  obtain ⟨t, hdel, hts, htm, htc, htfree⟩ := del_full hc₃.free (by rw [hc₃.size]; exact hpos)
    (by rw [hc₃.size, hc₃.slot]; exact hc₃.used.1) hc₃.used.2
  rw [hc₃.size, hc₃.slot] at htfree
  rw [hc₃.size] at hts
  rw [hc₃.limit] at htm
  rw [hc₃.counter] at htc
  refine ⟨t, ((hr₁.trans hr₂).trans hr₃).trans (Runs.single trivial hdel), fun href => ?_⟩
  obtain ⟨no, root, hadd, hcase⟩ := href.adds ptr
  rcases hcase with ⟨-, hroot, -⟩ | ⟨hno, -⟩
  · -- it took a slot off the free queue
    rcases umapAdd_cases hadd with ⟨_, _, hnone, -⟩ | ⟨idx, _, _, x', hget, -, -, hroot'⟩
    · cases FreeSlots.of_get_none htfree hnone
    · obtain ⟨ys, hys, hrest⟩ := FreeSlots.of_get htfree hget
      have hsame : t.root.Free ys := by
        rw [← hroot, hroot']
        exact hrest
      have hchain := (FreeSlots.queue hsame).chain.det (FreeSlots.queue htfree).chain
      rw [Queue.items_ofList, Queue.items_ofList, hys] at hchain
      exact absurd (congrArg List.length hchain) (by simp)
  · -- the distance is `map_sz`, and the sum is 0 in an `unsigned long`
    rcases umapAdd_cases hadd with ⟨_, _, _, h0, -⟩ | ⟨idx, _, _, x', hget, hcount, -, -⟩
    · exact absurd h0 hno.ne'
    · obtain ⟨ys, hys, -⟩ := FreeSlots.of_get htfree hget
      obtain ⟨rfl, -⟩ := List.cons.inj hys
      obtain ⟨hy0, hysz, hymod⟩ := @countX_spec ρ t.root i (by rw [hts]; exact hpos)
        (by rw [hts]; exact hsz) (by rw [hts]; exact hilt) t.root.counter
      rw [htc] at hy0 hysz hymod hcount
      rw [hts] at hysz hymod
      have hy : countX t.root i (2 ^ 64 - mapSz) = mapSz := by
        have h := (Nat.modEq_iff_dvd' (Nat.le_add_right _ _)).mp (hymod.trans hi).symm
        rw [Nat.add_sub_cancel_left] at h
        exact Nat.le_antisymm hysz (Nat.le_of_dvd hy0 h)
      have hsum : ulong (2 ^ 64 - mapSz + mapSz) = 0 := by
        rw [Nat.sub_add_cancel (by omega)]
        exact Nat.mod_self _
      simp only [countAgain, hy, hsum, htm] at hcount
      rw [if_neg (by omega)] at hcount
      have := (Prod.mk.inj (Option.some.inj hcount)).2
      omega

end UmapRun

/-- **The map is a finite map of capacity `map_sz` exactly when there is room for `map_sz`
between its limit and `2^64`.** -/
theorem umap_refines_map_iff {mapSz maxCounter : Nat} [Nonempty ρ] (hpos : 0 < mapSz)
    (hlt : mapSz < maxCounter) (hsz : mapSz < 2 ^ 31) (hulong : maxCounter < 2 ^ 64) :
    (∀ s : UmapRun ρ, Runs UmapRun.step anyAct (UmapRun.new mapSz maxCounter) s →
      s.Refines mapSz maxCounter) ↔ maxCounter + mapSz ≤ 2 ^ 64 := by
  constructor
  · intro h
    by_contra hroom
    obtain ⟨s, hr, hnot⟩ := UmapRun.exists_overflow (Classical.arbitrary ρ) hpos hlt hsz hulong
      (by omega)
    exact hnot (h s hr)
  · intro hroom s hr
    exact (UmapRun.inv_reachable hpos hlt hsz hroom hr).refines

/-- A domain with 4 slots has that room. -/
theorem umap_refines_map_iff_pidMaxCounter :
    (∀ s : UmapRun Nat, Runs UmapRun.step anyAct (UmapRun.new 4 pidMaxCounter) s →
      s.Refines 4 pidMaxCounter) ↔ pidMaxCounter + 4 ≤ 2 ^ 64 :=
  umap_refines_map_iff (by decide) (by decide) (by decide) (by decide)

/-- A map whose limit leaves no room. -/
theorem umap_overflows : ¬ ∀ s : UmapRun Nat,
    Runs UmapRun.step anyAct (UmapRun.new 2 (2 ^ 64 - 1)) s → s.Refines 2 (2 ^ 64 - 1) := by
  intro h
  obtain ⟨s, hr, hnot⟩ :=
    @UmapRun.exists_overflow Nat 2 (2 ^ 64 - 1) 0 (by decide) (by decide) (by decide) (by decide)
      (by decide)
  exact hnot (h s hr)

end Msock
