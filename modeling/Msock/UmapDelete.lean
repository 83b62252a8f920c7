import Msock.Lib.Runs
import Msock.UmapProof

/-!
# Deleting a number that is not live

`umap_del` trusts the number stored in the slot: it frees the slot if the number it is
given is the one stored there. A free slot stores 0, so the number 0 passes the test
for slot 0 while that slot is free, and `queue_put` is called on a head that is linked
already. Its `next` is overwritten, which cuts off the slots behind it, or links the
slot to itself. Only once it is the last of the queue and linked to itself does a
further deletion of 0 write what is there. Every other number that is not allocated
fails the test.
-/

namespace Msock

open Lib

universe u
variable {ρ : Type u} {root root' : UmapRoot ρ} {ptr : ρ} {no : Nat}

/-- A map with the numbers that are allocated. -/
structure UmapUse (ρ : Type u) where
  root : UmapRoot ρ
  live : List Nat

/-- A new map. -/
def UmapUse.new (mapSz maxCounter : Nat) : UmapUse ρ := ⟨umapNew mapSz maxCounter, []⟩

/-- `umap_add`, which fails when it answers 0, and `umap_del` of any number. -/
def UmapUse.step (a : UmapAct ρ) (s : UmapUse ρ) : Except Unit (UmapUse ρ) :=
  match a with
  | .add ptr =>
      match umapAdd s.root ptr with
      | none => .error ()
      | some (no, root) => .ok ⟨root, if no = 0 then s.live else no :: s.live⟩
  | .del no =>
      match umapDel s.root no with
      | none => .error ()
      | some root => .ok ⟨root, s.live.filter (· ≠ no)⟩

/-- Slot 0 is the last of the free queue already, and linked to itself. -/
structure UmapRoot.Looped (root : UmapRoot ρ) : Prop where
  ptr : (root.data 0).ptr = none
  last : root.freeItems.last = .node 0
  next : root.inQueue 0 = some (.node 0)

/-- The number 0 is deleted only while slot 0 is taken, or once nothing is left to spoil. -/
def sparesZero (s : UmapUse ρ) : UmapAct ρ → Prop
  | .add _ => True
  | .del no => no ≠ 0 ∨ (s.root.data 0).no ≠ 0 ∨ s.root.Looped

/-! ## What holds whatever is deleted -/

/-- The heads are those of the slots, and `last` names one of them or nothing. -/
structure UmapRoot.Sound (root : UmapRoot ρ) : Prop where
  pos : 0 < root.mapSz
  heads : ∀ i < root.mapSz, (root.inQueue i).isSome
  last : root.freeItems.last = .null ∨ ∃ i < root.mapSz, root.freeItems.last = .node i

theorem umapNew_sound {mapSz : Nat} (hpos : 0 < mapSz) (maxCounter : Nat) :
    (umapNew mapSz maxCounter : UmapRoot ρ).Sound := by
  have hfree := umapNew_free (ρ := ρ) mapSz maxCounter
  refine ⟨hpos, FreeSlots.heads hfree, Or.inr ⟨mapSz - 1, ?_, ?_⟩⟩
  · show mapSz - 1 < mapSz
    omega
  · obtain ⟨n, rfl⟩ : ∃ n, mapSz = n + 1 := ⟨mapSz - 1, by omega⟩
    rw [(FreeSlots.queue hfree).last, Nat.add_sub_cancel]
    exact Queue.lastPtr_concat (by simp [Queue.ofList]) (List.range_succ)

theorem UmapRoot.Sound.add (hs : root.Sound) (h : umapAdd root ptr = some (no, root')) :
    root'.Sound := by
  rcases umapAdd_cases h with ⟨_, _, _, _, rfl⟩ | ⟨idx, freeItems, inQueue, x, hget, _, _, rfl⟩
  · exact hs
  · obtain ⟨hnone, _⟩ | ⟨i, hi, hsome, hlast, hheads⟩ := queueGet_cases hget
    · cases hnone
    · refine ⟨hs.pos, fun j hj => ?_, ?_⟩
      · dsimp only
        rw [hheads]
        exact isSome_update (hs.heads j hj)
      · rcases hlast with hlast | hlast
        · exact Or.inl hlast
        · exact hlast ▸ hs.last

/-- `umap_del` never faults. -/
theorem UmapRoot.Sound.del_isSome (hs : root.Sound) (no : Nat) : (umapDel root no).isSome := by
  by_cases hno : (root.data (no % root.mapSz)).no = no
  · have hslot := hs.heads _ (Nat.mod_lt no hs.pos)
    rw [umapDel_of_eq hno, Option.isSome_map]
    simp only [queuePut, store_node hslot, Option.bind_eq_bind, Option.bind_some]
    split
    · rfl
    · rcases hs.last with hlast | ⟨i, hi, hlast⟩
      · contradiction
      · rw [hlast, store_node (isSome_update (hs.heads i hi))]
        rfl
  · rw [umapDel_of_ne hno]
    rfl

theorem UmapRoot.Sound.del (hs : root.Sound) (h : umapDel root no = some root') : root'.Sound := by
  rcases umapDel_cases h with ⟨_, rfl⟩ | ⟨_, freeItems, inQueue, _, hput, rfl⟩
  · exact hs
  · have hlt := Nat.mod_lt no hs.pos
    obtain ⟨_, ⟨_, rfl, rfl⟩ | ⟨i, _, _, rfl, rfl⟩⟩ := queuePut_cases hput
    · exact ⟨hs.pos, fun j hj => isSome_update (hs.heads j hj), Or.inr ⟨_, hlt, rfl⟩⟩
    · exact ⟨hs.pos, fun j hj => isSome_update (isSome_update (hs.heads j hj)),
        Or.inr ⟨_, hlt, rfl⟩⟩

/-- What holds whatever is deleted. -/
structure UmapUse.Inv (s : UmapUse ρ) : Prop where
  sound : s.root.Sound
  /-- A slot stores a number of its own. -/
  residue : ∀ i, (s.root.data i).no ≠ 0 → (s.root.data i).no % s.root.mapSz = i
  /-- A number that is stored is allocated. -/
  live : ∀ i, (s.root.data i).no ≠ 0 → (s.root.data i).no ∈ s.live

theorem umapUse_init {mapSz : Nat} (hpos : 0 < mapSz) (maxCounter : Nat) :
    (UmapUse.new mapSz maxCounter : UmapUse ρ).Inv where
  sound := umapNew_sound hpos maxCounter
  residue := fun _ hne => absurd rfl hne
  live := fun _ hne => absurd rfl hne

theorem umapUse_step (a : UmapAct ρ) (s s' : UmapUse ρ) (h : s.Inv)
    (hstep : UmapUse.step a s = .ok s') : s'.Inv := by
  cases a with
  | add ptr =>
      simp only [UmapUse.step] at hstep
      split at hstep
      · cases hstep
      · rename_i no root hadd
        cases hstep
        have hsound := h.sound.add hadd
        rcases umapAdd_cases hadd with ⟨_, _, _, h0, rfl⟩ |
          ⟨idx, freeItems, inQueue, x, hget, _, hmod, rfl⟩
        · rw [if_pos h0]
          exact h
        · refine ⟨hsound, ?_, ?_⟩
          · intro i hne
            by_cases hi : i = idx
            · subst hi; simpa using hmod
            · simp only [Function.update_of_ne hi] at hne ⊢
              exact h.residue i hne
          · intro i hne
            by_cases hi : i = idx
            · subst hi
              simp only [Function.update_self] at hne ⊢
              rw [if_neg hne]
              exact List.mem_cons_self
            · simp only [Function.update_of_ne hi] at hne ⊢
              have hmem := h.live i hne
              split
              · exact hmem
              · exact List.mem_cons_of_mem _ hmem
  | del no =>
      simp only [UmapUse.step] at hstep
      split at hstep
      · cases hstep
      · rename_i root hdel
        cases hstep
        have hsound := h.sound.del hdel
        rcases umapDel_cases hdel with ⟨hno, rfl⟩ | ⟨_, freeItems, inQueue, _, _, rfl⟩
        · refine ⟨hsound, h.residue, fun i hne => ?_⟩
          refine List.mem_filter.2 ⟨h.live i hne, ?_⟩
          simp only [decide_eq_true_eq]
          intro heq
          refine hno ?_
          rw [← heq, h.residue i hne]
        · refine ⟨hsound, ?_, ?_⟩
          · intro i hne
            by_cases hi : i = no % s.root.mapSz
            · subst hi; simp at hne
            · simp only [Function.update_of_ne hi] at hne ⊢
              exact h.residue i hne
          · intro i hne
            by_cases hi : i = no % s.root.mapSz
            · subst hi; simp at hne
            · simp only [Function.update_of_ne hi] at hne ⊢
              -- the number of another slot is another number
              refine List.mem_filter.2 ⟨h.live i hne, ?_⟩
              simp only [decide_eq_true_eq]
              intro heq
              exact hi (by rw [← heq]; exact (h.residue i hne).symm)

/-- A number that is not allocated is stored nowhere, unless it is 0. -/
theorem UmapUse.Inv.stored {s : UmapUse ρ} (h : s.Inv) (hnot : no ∉ s.live)
    (hno : (s.root.data (no % s.root.mapSz)).no = no) : no = 0 := by
  by_contra hne
  have hlive := h.live (no % s.root.mapSz) (by rw [hno]; exact hne)
  rw [hno] at hlive
  exact hnot hlive

/-! ## Deleting 0 -/

/-- Deleting 0 while slot 0 stores 0 changes nothing only once the slot is linked to itself. -/
theorem umapDel_zero_same (hzero : (root.data 0).no = 0) :
    umapDel root 0 = some root ↔ root.Looped := by
  have hdel := @umapDel_of_eq _ root 0 (by rw [Nat.zero_mod]; exact hzero)
  rw [Nat.zero_mod] at hdel
  rw [hdel, Option.map_eq_some_iff]
  constructor
  · rintro ⟨⟨wasEmpty, freeItems, inQueue⟩, hput, hroot⟩
    have hfree : freeItems = root.freeItems := congrArg UmapRoot.freeItems hroot
    have hqueue : inQueue = root.inQueue := congrArg UmapRoot.inQueue hroot
    have hdata := congrFun (congrArg UmapRoot.data hroot) 0
    rw [hfree, hqueue] at hput
    obtain ⟨hlast, hnext⟩ := queuePut_same.mp ⟨wasEmpty, hput⟩
    refine ⟨?_, hlast, hnext⟩
    rw [← hdata]
    simp
  · intro hloop
    obtain ⟨wasEmpty, hput⟩ := queuePut_same.mpr ⟨hloop.last, hloop.next⟩
    refine ⟨_, hput, ?_⟩
    have hslot : (⟨0, none⟩ : UmapData ρ) = root.data 0 := by
      have hptr := hloop.ptr
      cases hd : root.data 0 with
      | mk storedNo storedPtr =>
          rw [hd] at hzero hptr
          exact (congrArg₂ UmapData.mk hzero hptr).symm
    dsimp only
    rw [hslot, Function.update_eq_self]

/-- A slot that waits once is not linked to itself. -/
theorem UmapRoot.FreeOnce.not_looped (hf : root.FreeOnce) : ¬ root.Looped := by
  obtain ⟨xs, hfree, -⟩ := hf
  intro hloop
  have hrepr := FreeSlots.queue hfree
  have hset : (Queue.ofList xs).lastSet = true := by
    by_contra hset
    have hnull := hrepr.last.trans (Queue.lastPtr_of_not_lastSet (by simpa using hset))
    rw [hloop.last] at hnull
    cases hnull
  obtain ⟨ys, i, hitems, hlast⟩ := Queue.exists_last hset
  rw [← hrepr.last, hloop.last] at hlast
  obtain rfl := Ptr.node.inj hlast
  -- the link of the last one is NULL
  have hchain := hrepr.chain
  rw [hitems] at hchain
  obtain ⟨r, -, -, next, hnext, hnull⟩ := seg_append.mp hchain
  rw [hloop.next] at hnext
  rw [← Option.some.inj hnext, seg_nil] at hnull
  cases hnull

theorem freeOnce_step (a : UmapAct ρ) (s s' : UmapUse ρ) (h : s.Inv ∧ s.root.FreeOnce)
    (hok : sparesZero s a) (hstep : UmapUse.step a s = .ok s') : s'.Inv ∧ s'.root.FreeOnce := by
  refine ⟨umapUse_step a s s' h.1 hstep, ?_⟩
  obtain ⟨hinv, hfree⟩ := h
  cases a with
  | add ptr =>
      simp only [UmapUse.step] at hstep
      split at hstep
      · cases hstep
      · rename_i no root hadd
        cases hstep
        exact hfree.add hadd
  | del no =>
      have hspare : no ≠ 0 ∨ (s.root.data 0).no ≠ 0 := by
        rcases hok with hne | hne | hloop
        · exact Or.inl hne
        · exact Or.inr hne
        · exact absurd hloop hfree.not_looped
      obtain ⟨root, hdel, hfree'⟩ := hfree.del hinv.sound.pos hspare
      simp only [UmapUse.step, hdel] at hstep
      cases hstep
      exact hfree'

/--
**Deleting a number that is not live.**

After any adds and deletions, deleting a number does not fault, and if it is not
allocated it changes nothing exactly if it is not 0, or slot 0 is taken, or slot 0 is
the last of the free queue and linked to itself already. As long as 0 is spared, the
links lead from `first` through every waiting slot once and end at `last`.
-/
theorem umap_del_of_dead_iff (mapSz maxCounter : Nat) (hpos : 0 < mapSz)
    (_hlt : mapSz < maxCounter) :
    (∀ s : UmapUse ρ, Runs UmapUse.step anyAct (UmapUse.new mapSz maxCounter) s →
      ∀ no, (umapDel s.root no).isSome ∧ (no ∉ s.live →
        (umapDel s.root no = some s.root ↔
          no ≠ 0 ∨ (s.root.data 0).no ≠ 0 ∨ s.root.Looped))) ∧
    ∀ s : UmapUse ρ, Runs UmapUse.step sparesZero (UmapUse.new mapSz maxCounter) s →
      ∃ xs, Repr s.root.inQueue s.root.freeItems (Queue.ofList xs) ∧ xs.Nodup := by
  constructor
  · intro s hr no
    have hinv := Runs.invariant hr (fun a t t' h _ => umapUse_step a t t' h)
      (umapUse_init hpos maxCounter)
    refine ⟨hinv.sound.del_isSome no, fun hnot => ?_⟩
    by_cases hno : (s.root.data (no % s.root.mapSz)).no = no
    · obtain rfl := hinv.stored hnot hno
      rw [Nat.zero_mod] at hno
      rw [umapDel_zero_same hno]
      simp [hno]
    · rw [umapDel_of_ne hno]
      simp only [true_iff]
      by_contra hcond
      obtain ⟨rfl, hzero, -⟩ : no = 0 ∧ (s.root.data 0).no = 0 ∧ ¬ s.root.Looped := by
        simpa only [not_or, not_not, ne_eq] using hcond
      rw [Nat.zero_mod] at hno
      exact hno hzero
  · intro s hr
    obtain ⟨-, xs, hfree, -⟩ := Runs.invariant hr (fun a t t' h hok => freeOnce_step a t t' h hok)
      ⟨umapUse_init hpos maxCounter, umapNew_freeOnce mapSz maxCounter⟩
    exact ⟨xs, FreeSlots.queue hfree, FreeSlots.nodup hfree⟩

/-- A map of two slots. -/
theorem umap_del_of_dead_two_slots :
    (∀ s : UmapUse Unit, Runs UmapUse.step anyAct (UmapUse.new 2 8) s →
      ∀ no, (umapDel s.root no).isSome ∧ (no ∉ s.live →
        (umapDel s.root no = some s.root ↔
          no ≠ 0 ∨ (s.root.data 0).no ≠ 0 ∨ s.root.Looped))) ∧
    ∀ s : UmapUse Unit, Runs UmapUse.step sparesZero (UmapUse.new 2 8) s →
      ∃ xs, Repr s.root.inQueue s.root.freeItems (Queue.ofList xs) ∧ xs.Nodup :=
  umap_del_of_dead_iff 2 8 (by decide) (by decide)

/--
Deleting 0 from a new map of two slots cuts slot 1 off: `first`, `last` and slot 1 all
name slot 0, and the queue ends there.
-/
theorem umap_del_zero_cuts :
    0 ∉ (UmapUse.new 2 8 : UmapUse Unit).live ∧
      (umapNew 2 8 : UmapRoot Unit).freeItems = ⟨.node 0, .node 1⟩ ∧
      (umapNew 2 8 : UmapRoot Unit).inQueue 0 = some (.node 1) ∧
      (umapDel (umapNew 2 8 : UmapRoot Unit) 0).map
          (fun root => (root.freeItems, root.inQueue 0, root.inQueue 1))
        = some (⟨.node 0, .node 0⟩, some .null, some (.node 0)) := by
  decide

end Msock
