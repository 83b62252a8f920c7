import Msock.Timer.Moves

/-!
# Timers are FIFO

Two timers of one expiry are called in the order they were armed as long as they share
a list: insertion, cascades and ticks all keep the order of a list. They may be on
different lists, though. A timer armed long before its expiry waits on a coarse level,
and one armed shortly before it goes to a finer one at once; the first comes down
behind the second. Only far away, on `tv5`, may two lists be passed through in order:
a timer that is too far away is put 63 slots further each time its slot begins, and
reaches the slot of its expiry when fewer are left.
-/

namespace Msock

open Lib

universe u
variable {τ : Type u}

/-- The next slot of `tv5` with index `i`, counted from tick 0. -/
def tv5Slot (jiffies : BitVec 64) (i : Nat) : Nat :=
  let next := (jiffies.toNat + 2 ^ 26 - 1) / 2 ^ 26
  next + (i + 64 - next % 64) % 64

/-- How many slots before that of `expires` it is. -/
def tv5Short (jiffies expires : BitVec 64) (i : Nat) : Nat :=
  (jiffies.toNat + ahead jiffies expires) / 2 ^ 26 - tv5Slot jiffies i

/-- The larger, the earlier a timer in slot `i` comes to the slot of its expiry. -/
def tv5Rank (jiffies expires : BitVec 64) (i : Nat) : Nat :=
  let short := tv5Short jiffies expires i
  if short = 0 then 63 else (short - 1) % 63

/-- Of two timers with this expiry, one at `p` comes before one that is put at `p'` now. -/
def InTurn (jiffies expires : BitVec 64) (p p' : Place) : Prop :=
  p = p' ∨ ∃ i i', p = .tvec .tv5 i ∧ p' = .tvec .tv5 i' ∧
    tv5Rank jiffies expires i' < tv5Rank jiffies expires i

/-- `expires` is not in the past. -/
def NotPast (base : TimerBase τ) (expires : BitVec 64) : Prop :=
  0 ≤ (expires - base.timerJiffies).toInt

instance (base : TimerBase τ) (expires : BitVec 64) : Decidable (NotPast base expires) :=
  inferInstanceAs (Decidable (_ ≤ _))

/-- A timer that is armed does not get before the pending ones of the same expiry. -/
def KeepsOrder (w : Wheel τ) : WheelMove τ → Prop
  | .mod timer expires => NotPast w.base expires → ∀ t p, t ≠ timer →
      w.base.entry t = some p → w.base.expires t = expires → w.base.due t = expires →
      InTurn w.base.timerJiffies expires p (internalVec w.base.timerJiffies expires)
  | _ => True

/-! ## Slots of `tv5` -/

/-- The slot of a timer that waits on `tv5` comes no later than that of its expiry. -/
theorem tv5Slot_of_inSlot {jiffies : BitVec 64} {i D : Nat}
    (h : InSlot .tv5 i jiffies.toNat D) :
    i < 64 ∧ tv5Slot jiffies i ≤ D / 2 ^ 26 ∧ tv5Slot jiffies i % 64 = i ∧
      (jiffies.toNat + 2 ^ 26 - 1) / 2 ^ 26 ≤ tv5Slot jiffies i := by
  obtain ⟨D', hle, h1, h2, h3⟩ := h
  unfold tv5Slot
  dsimp only
  omega

/-- The slot that begins now. -/
theorem tv5Slot_now {jiffies : BitVec 64} (hnow : jiffies.toNat % 2 ^ 26 = 0) :
    tv5Slot jiffies (jiffies.toNat / 2 ^ 26 % 64) = jiffies.toNat / 2 ^ 26 := by
  unfold tv5Slot
  dsimp only
  omega

/-- A timer never goes to the slot that begins now. -/
theorem ne_now_of_internalVec {jiffies expires : BitVec 64} {i : Nat}
    (hnow : jiffies.toNat % 2 ^ 26 = 0) (h : internalVec jiffies expires = .tvec .tv5 i) :
    i ≠ jiffies.toNat / 2 ^ 26 % 64 := by
  rw [internalVec_eq] at h
  simp only at h
  have hj := jiffies.isLt
  have hmin : min (ahead jiffies expires) 0xffffffff ≤ 0xffffffff := min_le_right _ _
  split_ifs at h <;> cases h
  have hge : 2 ^ 26 ≤ min (ahead jiffies expires) 0xffffffff := by
    rw [le_min_iff]; omega
  omega

/-- Where the timers of the slot that begins now go. -/
theorem internalVec_now {jiffies expires : BitVec 64} (hnow : jiffies.toNat % 2 ^ 26 = 0)
    (hsoon : ahead jiffies expires < 2 ^ 63)
    (hshort : tv5Short jiffies expires (jiffies.toNat / 2 ^ 26 % 64) ≠ 0) :
    ∃ i, internalVec jiffies expires = .tvec .tv5 i ∧ i < 64 ∧
      tv5Short jiffies expires i
        = tv5Short jiffies expires (jiffies.toNat / 2 ^ 26 % 64) - 63 := by
  have hj := jiffies.isLt
  unfold tv5Short at hshort ⊢
  rw [tv5Slot_now hnow] at hshort ⊢
  rw [internalVec_eq]
  simp only
  have hge : 2 ^ 26 ≤ ahead jiffies expires := by omega
  rw [if_neg (by omega), if_neg (by omega), if_neg (by omega), if_neg (by omega),
    if_neg (by omega)]
  refine ⟨_, rfl, Nat.mod_lt _ (by omega), ?_⟩
  rcases Nat.lt_or_ge 0xffffffff (ahead jiffies expires) with hfar | hnear
  · rw [min_eq_right (by omega)]
    unfold tv5Slot
    dsimp only
    omega
  · rw [min_eq_left hnear]
    unfold tv5Slot
    dsimp only
    omega

/-- The clock does not change the order. -/
theorem tv5Rank_succ {jiffies expires : BitVec 64} (hne : expires ≠ jiffies) {i : Nat}
    (hi : i < 64) (hslot : jiffies.toNat % 2 ^ 26 = 0 → i ≠ jiffies.toNat / 2 ^ 26 % 64) :
    tv5Rank (jiffies + 1) expires i = tv5Rank jiffies expires i := by
  have hshort : tv5Short (jiffies + 1) expires i = tv5Short jiffies expires i := by
    have hpos : ahead jiffies expires ≠ 0 := fun h0 => hne (ahead_eq_zero.1 h0)
    have hj := jiffies.isLt
    have hone : (1 : BitVec 64).toNat = 1 := rfl
    unfold tv5Short tv5Slot
    rw [ahead_succ hne, BitVec.toNat_add, hone]
    dsimp only
    rcases Nat.lt_or_ge (jiffies.toNat + 1) (2 ^ 64) with hlt | hwrap
    · rw [Nat.mod_eq_of_lt hlt]
      omega
    · have hmax : jiffies.toNat = 2 ^ 64 - 1 := by omega
      rw [hmax]
      omega
  unfold tv5Rank
  rw [hshort]

/-! ## The order on the wheel -/

/-- `t` comes before `t'`: in their list, or because its list comes first. -/
def TimerBase.Precedes (base : TimerBase τ) (t t' : τ) (p p' : Place) : Prop :=
  (p = p' ∧ [t, t'].Sublist (base.lists p)) ∨ ∃ i i', p = .tvec .tv5 i ∧ p' = .tvec .tv5 i' ∧
    tv5Rank base.timerJiffies (base.due t) i' < tv5Rank base.timerJiffies (base.due t) i

/-- Pending timers of one expiry, none of them armed in the past, are in the order they
were armed. -/
def TimerBase.Ordered (base : TimerBase τ) : Prop :=
  ∀ t t' p p', base.entry t = some p → base.entry t' = some p' →
    base.stamp t < base.stamp t' → base.expires t = base.due t →
    base.expires t' = base.due t' → base.due t = base.due t' → base.Precedes t t' p p'

variable [DecidableEq τ]

/-- Unlinking a timer leaves the order of the others. -/
theorem TimerBase.Ordered.unlink {base base' : TimerBase τ} (h : base.Ordered) {timer : τ}
    (hjiffies : base'.timerJiffies = base.timerJiffies)
    (hentry : base'.entry = Function.update base.entry timer none)
    (hlists : ∀ p, base'.lists p = (base.lists p).erase timer)
    (hstamp : base'.stamp = base.stamp) (hexpires : base'.expires = base.expires)
    (hdue : base'.due = base.due) : base'.Ordered := by
  intro t t' p p' ht ht' hs he he' hd
  rw [hentry] at ht ht'
  rw [hstamp] at hs
  rw [hexpires, hdue] at he he'
  rw [hdue] at hd
  have hne : t ≠ timer := fun heq => by rw [heq, Function.update_self] at ht; cases ht
  have hne' : t' ≠ timer := fun heq => by rw [heq, Function.update_self] at ht'; cases ht'
  rcases h t t' p p' (entry_of_update_none ht) (entry_of_update_none ht') hs he he' hd with
    ⟨hp, hsub⟩ | hrank
  · refine Or.inl ⟨hp, ?_⟩
    rw [hlists]
    have herase := hsub.erase timer
    rwa [List.erase_of_not_mem (by simp [hne.symm, hne'.symm])] at herase
  · refine Or.inr ?_
    rw [hjiffies, hdue]
    exact hrank

theorem TimerBase.Ordered.timerDel {base : TimerBase τ} (h : base.Ordered)
    (hlinked : base.Linked) (timer : τ) : (timerDel base timer).Ordered :=
  h.unlink (timerDel_timerJiffies _ _) (timerDel_entry _ _) (timerDel_lists _ _ hlinked)
    (timerDel_stamp _ _) (timerDel_expires _ _) (timerDel_due _ _)

theorem TimerBase.Ordered.takeTimer {base : TimerBase τ} (h : base.Ordered)
    (hlinked : base.Linked) (timer : τ) : (takeTimer base timer).Ordered :=
  h.unlink (takeTimer_timerJiffies _ _) (takeTimer_entry _ _) (takeTimer_lists hlinked timer)
    (takeTimer_stamp _ _) (takeTimer_expires _ _) (takeTimer_due _ _)

omit [DecidableEq τ] in
/-- The due tick of a timer that is not armed in the past is its expiry. -/
theorem notPast_of_dueTick {base : TimerBase τ} {expires : BitVec 64}
    (h : expires = dueTick base.timerJiffies expires) : NotPast base expires := by
  unfold dueTick at h
  unfold NotPast
  split at h
  · rw [h, sub_self]; decide
  · omega

/-- An insertion in turn keeps the order. -/
theorem TimerBase.Ordered.timerMod {base : TimerBase τ} (h : base.Ordered)
    (hlinked : base.Linked) (hledger : base.Ledger) (timer : τ) (expires : BitVec 64)
    (hturn : NotPast base expires → ∀ t p, t ≠ timer → base.entry t = some p →
      base.expires t = expires → base.due t = expires →
      InTurn base.timerJiffies expires p (internalVec base.timerJiffies expires)) :
    (timerMod base timer expires).Ordered := by
  intro t t' p p' ht ht' hs he he' hd
  simp only [timerMod_entry, timerMod_stamp, timerMod_expires, timerMod_due] at ht ht' hs he he' hd
  have hbound : ∀ s q, base.entry s = some q → base.stamp s < base.armed.length := fun s q hsq =>
    (List.getElem?_eq_some_iff.1 (hledger.live s (by rw [timerPending, hsq]; rfl))).1
  by_cases hne : t = timer
  · -- nothing is armed after it
    subst hne
    by_cases hne' : t' = t
    · subst hne'; exact absurd hs (lt_irrefl _)
    · simp only [Function.update_self, Function.update_of_ne hne'] at hs ht'
      exact absurd (hbound t' p' ht') (by omega)
  simp only [Function.update_of_ne hne] at ht he hd hs
  unfold TimerBase.Precedes
  rw [timerMod_timerJiffies, timerMod_due, Function.update_of_ne hne, timerMod_lists _ _ _ hlinked]
  by_cases hne' : t' = timer
  · subst hne'
    simp only [Function.update_self] at ht' hd he'
    cases ht'
    rw [← he'] at hd
    rw [hd] at he ⊢
    rcases hturn (notPast_of_dueTick he') t p hne ht he hd with hsame | hrank
    · refine Or.inl ⟨hsame, ?_⟩
      subst hsame
      rw [if_pos rfl]
      have hmem : t ∈ (base.lists (internalVec base.timerJiffies expires)).erase t' :=
        (hlinked.nodup _).mem_erase_iff.2 ⟨hne, (hlinked.mem _ _).2 ht⟩
      exact (List.singleton_sublist.2 hmem).append (List.Sublist.refl [t'])
    · exact Or.inr hrank
  · simp only [Function.update_of_ne hne'] at ht' he' hd hs
    rcases h t t' p p' ht ht' hs he he' hd with ⟨hp, hsub⟩ | hrank
    · refine Or.inl ⟨hp, ?_⟩
      have herase := hsub.erase timer
      rw [List.erase_of_not_mem (by simp [Ne.symm hne, Ne.symm hne'])] at herase
      exact herase.trans (List.sublist_append_left _ _)
    · exact Or.inr hrank

/-! ## Cascades -/

omit [DecidableEq τ] in
/-- A timer on `tv5` is in a slot no later than that of its due tick. -/
theorem TimerBase.Placed.tv5 {base : TimerBase τ} (h : base.Placed) {t : τ} {i : Nat}
    (ht : base.entry t = some (.tvec .tv5 i)) :
    i < 64 ∧ tv5Slot base.timerJiffies i
        ≤ (base.timerJiffies.toNat + ahead base.timerJiffies (base.due t)) / 2 ^ 26 ∧
      tv5Slot base.timerJiffies i % 64 = i ∧
      (base.timerJiffies.toNat + 2 ^ 26 - 1) / 2 ^ 26 ≤ tv5Slot base.timerJiffies i :=
  tv5Slot_of_inSlot (h.slot t .tv5 i ht)

/-- Of two timers of one expiry, both on `tv5` and in turn, the one whose slot begins now
is put where it still is in turn. -/
theorem inTurn_of_now {jiffies expires : BitVec 64} {i now : Nat}
    (hnow : jiffies.toNat % 2 ^ 26 = 0) (hindex : now = jiffies.toNat / 2 ^ 26 % 64)
    (hsoon : ahead jiffies expires < 2 ^ 63) (hi : i < 64) (hne : i ≠ now)
    (hmod : tv5Slot jiffies i % 64 = i)
    (hle : tv5Slot jiffies i ≤ (jiffies.toNat + ahead jiffies expires) / 2 ^ 26)
    (hge : (jiffies.toNat + 2 ^ 26 - 1) / 2 ^ 26 ≤ tv5Slot jiffies i) :
    (tv5Rank jiffies expires i < tv5Rank jiffies expires now →
      ∃ i', internalVec jiffies expires = .tvec .tv5 i' ∧
        tv5Rank jiffies expires i < tv5Rank jiffies expires i') ∧
    (tv5Rank jiffies expires now < tv5Rank jiffies expires i →
      InTurn jiffies expires (.tvec .tv5 i) (internalVec jiffies expires)) := by
  subst hindex
  have hslot := tv5Slot_now hnow
  have hshort : tv5Short jiffies expires (jiffies.toNat / 2 ^ 26 % 64) ≠ 0 := by
    unfold tv5Short
    rw [hslot]
    omega
  obtain ⟨i', hvec, hi', hshort'⟩ := internalVec_now hnow hsoon hshort
  have hlt : tv5Short jiffies expires i
      < tv5Short jiffies expires (jiffies.toNat / 2 ^ 26 % 64) := by
    unfold tv5Short
    rw [hslot]
    omega
  constructor
  · intro hrank
    refine ⟨i', hvec, ?_⟩
    unfold tv5Rank at hrank ⊢
    rw [hshort']
    dsimp only at hrank ⊢
    split_ifs at hrank ⊢ <;> omega
  · intro hrank
    rw [hvec]
    by_cases hlast : tv5Short jiffies expires (jiffies.toNat / 2 ^ 26 % 64) ≤ 63
    · -- it comes to the slot of its expiry, where the other waits
      left
      unfold tv5Rank at hrank
      dsimp only at hrank
      rw [if_neg hshort] at hrank
      have hzero : tv5Short jiffies expires i = 0 := by
        split_ifs at hrank <;> omega
      have hzero' : tv5Short jiffies expires i' = 0 := by omega
      have hin := (inSlot_internalVec hvec).1
      rw [dueTick_of_soon hsoon] at hin
      obtain ⟨-, hle', hmod', -⟩ := tv5Slot_of_inSlot hin
      unfold tv5Short at hzero hzero'
      have hsame : tv5Slot jiffies i = tv5Slot jiffies i' := by omega
      rw [← hmod, hsame, hmod']
    · right
      refine ⟨i, i', rfl, rfl, ?_⟩
      unfold tv5Rank at hrank ⊢
      rw [hshort']
      dsimp only at hrank ⊢
      split_ifs at hrank ⊢ <;> omega

/-- A cascade keeps the order; one of `tv5` is of the slot that begins now. -/
theorem TimerBase.Ordered.cascade {base : TimerBase τ} (h : base.Ordered)
    (hplaced : base.Placed) (tv : Tvec) (htv : tv ≠ .tv1) (index : Nat)
    (hnow : tv = .tv5 → base.timerJiffies.toNat % 2 ^ 26 = 0 ∧
      index = base.timerJiffies.toNat / 2 ^ 26 % 64) : (cascade base tv index).Ordered := by
  have hsame := sameTimers_cascade hplaced.linked tv index
  intro t t' p p' ht ht' hs he he' hd
  rw [hsame.stamp] at hs
  rw [hsame.expires, hsame.due] at he he'
  rw [hsame.due] at hd
  unfold TimerBase.Precedes
  rw [hsame.timerJiffies, hsame.due, cascade_eq]
  dsimp only
  rcases cascade_entry_cases hplaced htv index ht with ⟨hold, -, hvec⟩ | ⟨hne, hold⟩ <;>
    rcases cascade_entry_cases hplaced htv index ht' with ⟨hold', -, hvec'⟩ | ⟨hne', hold'⟩
  · -- both are in the slot, and go to one list together
    rw [← hd, hvec] at hvec'
    refine Or.inl ⟨hvec', List.Sublist.trans ?_ (List.sublist_append_right _ _)⟩
    rcases h t t' _ _ hold hold' hs he he' hd with ⟨-, hsub⟩ | ⟨i, i', hi, hi', hrank⟩
    · have hfilter := hsub.filter
        (fun t => decide (internalVec base.timerJiffies (base.expires t) = p))
      rwa [List.filter_cons_of_pos (by rw [he, hvec]; simp),
        List.filter_cons_of_pos (by rw [he', ← hd, hvec]; simp), List.filter_nil] at hfilter
    · rw [hi] at hi'
      obtain rfl : i = i' := by simpa using hi'
      exact absurd hrank (lt_irrefl _)
  · -- the first goes on, and is still ahead
    rcases h t t' _ _ hold hold' hs he he' hd with ⟨hp, -⟩ | ⟨i, i', hi, hi', hrank⟩
    · exact absurd (hp ▸ hold') hne'
    · obtain ⟨rfl, rfl⟩ : tv = .tv5 ∧ index = i := by simpa using hi
      subst hi'
      obtain ⟨haligned, hindex⟩ := hnow rfl
      obtain ⟨hlt, hle, hmod, hge⟩ := hplaced.tv5 hold'
      rw [← hd] at hle
      obtain ⟨i'', hvec'', hrank''⟩ := (inTurn_of_now haligned hindex
        (hplaced.soon t _ _ hold) hlt (fun heq => hne' (heq ▸ hold')) hmod hle hge).1 hrank
      exact Or.inr ⟨i'', i', by rw [← hvec, hvec''], rfl, hrank''⟩
  · -- the second goes on, to the first one's list or behind it
    rcases h t t' _ _ hold hold' hs he he' hd with ⟨hp, -⟩ | ⟨i, i', hi, hi', hrank⟩
    · exact absurd (hp ▸ hold) hne
    · obtain ⟨rfl, rfl⟩ : tv = .tv5 ∧ index = i' := by simpa using hi'
      subst hi
      obtain ⟨haligned, hindex⟩ := hnow rfl
      obtain ⟨hlt, hle, hmod, hge⟩ := hplaced.tv5 hold
      have hsoon := hplaced.soon t' _ _ hold'
      rw [TimerBase.wait, ← hd] at hsoon
      rw [← hd] at hvec'
      rcases (inTurn_of_now haligned hindex hsoon hlt (fun heq => hne (heq ▸ hold)) hmod hle
        hge).2 hrank with hmeet | ⟨j, j', hj, hj', hrank'⟩
      · refine Or.inl ⟨by rw [hmeet, hvec'], ?_⟩
        have hmem : t ∈ base.lists (.tvec .tv5 i) := (hplaced.linked.mem _ _).2 hold
        have hmem' : t' ∈ (base.lists (.tvec .tv5 index)).filter
            (fun t => decide (internalVec base.timerJiffies (base.expires t) = .tvec .tv5 i)) := by
          rw [List.mem_filter]
          exact ⟨(hplaced.linked.mem _ _).2 hold', by rw [he', ← hd, ← hmeet]; simp⟩
        rw [if_neg (fun heq : Place.tvec .tv5 i = .tvec .tv5 index => hne (heq ▸ hold))]
        exact (List.singleton_sublist.2 hmem).append (List.singleton_sublist.2 hmem')
      · refine Or.inr ⟨j, j', hj, ?_, hrank'⟩
        rw [← hvec', hj']
  · -- neither is in the slot
    rcases h t t' _ _ hold hold' hs he he' hd with ⟨hp, hsub⟩ | hrank
    · refine Or.inl ⟨hp, ?_⟩
      rw [if_neg (fun heq : p = .tvec tv index => hne (heq ▸ hold))]
      exact hsub.trans (List.sublist_append_left _ _)
    · exact Or.inr hrank

/-- The cascades of a tick keep the order, and leave no timer in a slot of `tv5` that
begins now. -/
theorem TimerBase.Ordered.cascadeTimers {base : TimerBase τ} (h : base.Ordered)
    (hplaced : base.Placed) : (cascadeTimers base).Ordered ∧
      ∀ t i, (cascadeTimers base).entry t = some (.tvec .tv5 i) →
        base.timerJiffies.toNat % 2 ^ 26 = 0 → i ≠ base.timerJiffies.toNat / 2 ^ 26 % 64 := by
  have hclock : ∀ {b : TimerBase τ} (tv i), b.Placed →
      (Msock.cascade b tv i).timerJiffies = b.timerJiffies :=
    fun tv i hb => (sameTimers_cascade hb.linked tv i).timerJiffies
  unfold Msock.cascadeTimers
  simp only [and_tvrMask, tvecIndex_eq]
  generalize hj : base.timerJiffies.toNat = j
  -- the cascades of the first three levels
  have p2 := hplaced.cascade .tv2 (by decide) (j / 2 ^ 8 % 64)
  have o2 := h.cascade hplaced .tv2 (by decide) (j / 2 ^ 8 % 64) (by simp)
  have p3 := p2.cascade .tv3 (by decide) (j / 2 ^ 14 % 64)
  have o3 := o2.cascade p2 .tv3 (by decide) (j / 2 ^ 14 % 64) (by simp)
  have p4 := p3.cascade .tv4 (by decide) (j / 2 ^ 20 % 64)
  have o4 := o3.cascade p3 .tv4 (by decide) (j / 2 ^ 20 % 64) (by simp)
  have hclock4 := ((hclock .tv4 (j / 2 ^ 20 % 64) p3).trans
    (hclock .tv3 (j / 2 ^ 14 % 64) p2)).trans (hclock .tv2 (j / 2 ^ 8 % 64) hplaced)
  split_ifs with c1 c2 c3 c4
  · exact ⟨h, fun t i _ h0 => by omega⟩
  · exact ⟨o2, fun t i _ h0 => by omega⟩
  · exact ⟨o3, fun t i _ h0 => by omega⟩
  · exact ⟨o4, fun t i _ h0 => by omega⟩
  · refine ⟨o4.cascade p4 .tv5 (by decide) _ (fun _ => ?_), ?_⟩
    · rw [hclock4, hj]
      omega
    · intro t i ht h0
      rcases cascade_entry_cases p4 (by decide) _ ht with ⟨-, -, hvec⟩ | ⟨hne, hold⟩
      · have hout := ne_now_of_internalVec (by rw [hclock4, hj]; exact h0) hvec
        rwa [hclock4, hj] at hout
      · rintro rfl
        exact hne hold

/-! ## Ticks -/

/-- A tick keeps the order. -/
theorem TimerBase.Ordered.startTick {base : TimerBase τ} (h : base.Ordered)
    (hplaced : base.Placed) (hwork : base.lists .work = []) : (startTick base).Ordered := by
  obtain ⟨hordered, hout⟩ := h.cascadeTimers hplaced
  obtain ⟨hplaced', -⟩ := emptied_cascadeTimers hplaced
  have hsame := (linked_cascadeTimers hplaced.linked).2
  have hstart := tickStarted hplaced.linked hwork
  generalize hmid : Msock.cascadeTimers base = mid at hordered hout hplaced' hsame
  have hnowork : ∀ t, mid.entry t ≠ some .work := by
    intro t he
    have hmem := (hplaced'.linked.mem t .work).2 he
    rw [hsame.work, hwork] at hmem
    cases hmem
  set slot : Place := .tvec .tv1 (base.timerJiffies.toNat &&& tvrMask) with hslot
  have hentry : ∀ t p, (Msock.startTick base).entry t = some p →
      (mid.entry t = some slot ∧ p = .work) ∨ (mid.entry t ≠ some slot ∧ mid.entry t = some p) := by
    intro t p he
    simp only [Msock.startTick, replaceInit, hmid, ← hslot] at he
    split at he
    · rename_i hin
      exact Or.inl ⟨hin, (Option.some.inj he).symm⟩
    · rename_i hin
      exact Or.inr ⟨hin, he⟩
  have hlistWork : (Msock.startTick base).lists .work = mid.lists slot := by
    simp only [Msock.startTick, replaceInit, hmid, ← hslot]
    rw [Function.update_of_ne (by simp [hslot]), Function.update_self]
  have hlists : ∀ p, p ≠ slot → p ≠ .work → (Msock.startTick base).lists p = mid.lists p := by
    intro p hp hp'
    simp only [Msock.startTick, replaceInit, hmid, ← hslot]
    rw [Function.update_of_ne hp, Function.update_of_ne hp']
  intro t t' p p' ht ht' hs he he' hd
  rw [hstart.stamp, ← hsame.stamp] at hs
  rw [hstart.expires, hstart.due, ← hsame.expires, ← hsame.due] at he he'
  rw [hstart.due, ← hsame.due] at hd
  unfold TimerBase.Precedes
  rw [hstart.timerJiffies, hstart.due, ← hsame.due]
  rcases hentry t p ht with ⟨hold, rfl⟩ | ⟨hne, hold⟩ <;>
    rcases hentry t' p' ht' with ⟨hold', rfl⟩ | ⟨hne', hold'⟩
  · rcases hordered t t' _ _ hold hold' hs he he' hd with ⟨-, hsub⟩ | ⟨i, i', hi, -, -⟩
    · exact Or.inl ⟨rfl, hlistWork ▸ hsub⟩
    · simp [hslot] at hi
  · rcases hordered t t' _ _ hold hold' hs he he' hd with ⟨hp, -⟩ | ⟨i, i', hi, -, -⟩
    · exact absurd (hp ▸ hold') hne'
    · simp [hslot] at hi
  · rcases hordered t t' _ _ hold hold' hs he he' hd with ⟨hp, -⟩ | ⟨i, i', -, hi, -⟩
    · exact absurd (hp ▸ hold) hne
    · simp [hslot] at hi
  · rcases hordered t t' _ _ hold hold' hs he he' hd with ⟨hp, hsub⟩ | ⟨i, i', hi, hi', hrank⟩
    · refine Or.inl ⟨hp, ?_⟩
      rw [hlists p (fun heq => hne (heq ▸ hold)) (fun heq => hnowork t (heq ▸ hold))]
      exact hsub
    · -- neither is in the slot that has begun, so both ranks stay
      subst hi hi'
      refine Or.inr ⟨i, i', rfl, rfl, ?_⟩
      have hlt := (hplaced'.tv5 hold).1
      have hlt' := (hplaced'.tv5 hold').1
      have hnever : mid.due t ≠ base.timerJiffies := by
        intro hdue
        have hemptied := (emptied_cascadeTimers hplaced).2
        rw [hmid] at hemptied
        have hin := (hplaced'.slot_now hemptied hold).1 (by
          rw [TimerBase.wait, hsame.timerJiffies, hdue, ahead_self])
        simp at hin
      rw [hsame.timerJiffies] at hrank
      rw [tv5Rank_succ hnever hlt (hout t i hold), tv5Rank_succ hnever hlt' (hout t' i' hold')]
      exact hrank

theorem Wheel.ordered_move {w w' : Wheel τ} {m : WheelMove τ} (h : w.Sound)
    (ho : w.base.Ordered) (hok : KeepsOrder w m) (hm : wheelMove m w = .ok w') :
    w'.base.Ordered := by
  rcases wheelMove_cases hm with ⟨t, e, rfl, he⟩ | ⟨t, -, he⟩ | ⟨hwork, he⟩ | ⟨t, rest, hwork, he⟩ | he
  · exact he ▸ ho.timerMod h.placed.linked h.ledger t e hok
  · exact he ▸ ho.timerDel h.placed.linked t
  · exact he ▸ ho.startTick h.placed hwork
  · exact he ▸ ho.takeTimer h.placed.linked t
  · exact he ▸ ho

omit [DecidableEq τ] in
theorem ordered_init (jiffies : BitVec 64) : (initTimerBase (τ := τ) jiffies).Ordered :=
  fun _ _ _ _ h => by cases h

/-! ## Callbacks in order -/

/-- `timer_mod` of `timer` at this moment. -/
def Wheel.arm (w : Wheel τ) (timer : τ) (expires : BitVec 64) : Wheel τ :=
  { w with base := timerMod w.base timer expires }

/-- Arming `k` was for `expires`, and not in the past. -/
structure TimerBase.ArmedFor (base : TimerBase τ) (k : Nat) (expires : BitVec 64) : Prop where
  armed : ∃ timer, base.armed[k]? = some ⟨timer, expires⟩
  expires : ∀ t, timerPending base t = true → base.stamp t = k → base.expires t = expires

/-- An arming keeps its expiry until it ends. -/
theorem TimerBase.ArmedFor.move {w w' : Wheel τ} {k : Nat} {expires : BitVec 64}
    (h : w.base.ArmedFor k expires) (hs : w.Sound) {m : WheelMove τ}
    (hm : wheelMove m w = .ok w') : w'.base.ArmedFor k expires := by
  obtain ⟨⟨timer, harmed⟩, hexp⟩ := h
  refine ⟨⟨timer, (wheelMove_extends hs hm).arming harmed⟩, ?_⟩
  rcases wheelMove_cases hm with ⟨t, e, rfl, he⟩ | ⟨t, -, he⟩ | ⟨hwork, he⟩ | ⟨t, rest, hwork, he⟩ | he
  · rw [he]
    intro t' hp hk
    have hlt := (List.getElem?_eq_some_iff.1 harmed).1
    by_cases ht : t' = t
    · subst ht
      rw [timerMod_stamp, Function.update_self] at hk
      omega
    · rw [timerMod_stamp, Function.update_of_ne ht] at hk
      rw [timerPending, timerMod_entry, Function.update_of_ne ht] at hp
      rw [timerMod_expires, Function.update_of_ne ht]
      exact hexp t' hp hk
  · rw [he]
    intro t' hp hk
    rw [timerDel_stamp] at hk
    rw [timerDel_expires]
    exact hexp t' ((pending_of_cleared (timerDel_entry _ _) t').1 hp).2 hk
  · rw [he]
    have hstart := tickStarted hs.placed.linked hwork
    intro t' hp hk
    rw [hstart.pending] at hp
    rw [hstart.stamp] at hk
    rw [hstart.expires]
    exact hexp t' hp hk
  · rw [he]
    intro t' hp hk
    rw [takeTimer_stamp] at hk
    rw [takeTimer_expires]
    exact hexp t' ((pending_of_cleared (takeTimer_entry _ _) t').1 hp).2 hk
  · rw [he]
    exact hexp

/-- A timer that has just been armed, and not in the past. -/
theorem armedFor_arm {w : Wheel τ} (hs : w.Sound) (timer : τ) {expires : BitVec 64}
    (hpast : NotPast w.base expires) :
    (w.arm timer expires).base.ArmedFor w.base.armed.length expires := by
  have hdue : dueTick w.base.timerJiffies expires = expires := by
    unfold NotPast at hpast
    rw [dueTick, if_neg (by omega)]
  have harmed : (timerMod w.base timer expires).armed[w.base.armed.length]?
      = some ⟨timer, expires⟩ := by
    rw [timerMod_armed, hdue]
    exact List.getElem?_concat_length
  refine ⟨⟨timer, harmed⟩, ?_⟩
  intro t hp hk
  have hlive := (hs.ledger.timerMod timer expires).live t hp
  change (timerMod w.base timer expires).stamp t = _ at hk
  rw [hk, harmed] at hlive
  obtain ⟨rfl, -⟩ := Arming.mk.inj (Option.some.inj hlive)
  show (timerMod w.base timer expires).expires timer = expires
  rw [timerMod_expires, Function.update_self]

/-- Of two armings for one expiry the first has been called before the second, unless it
was cancelled. -/
structure TimerBase.CalledInOrder (base : TimerBase τ) (k k' : Nat) (expires : BitVec 64) :
    Prop where
  lt : k < k'
  first : base.ArmedFor k expires
  second : base.ArmedFor k' expires
  order : ∀ before f after, base.fired = before ++ f :: after → f.stamp = k' →
    k ∈ base.cancelled ∨ ∃ g ∈ before, g.stamp = k

omit [DecidableEq τ] in
/-- While nothing is called back the callbacks stay in order. -/
theorem TimerBase.CalledInOrder.of_fired_eq {base base' : TimerBase τ} {k k' : Nat}
    {expires : BitVec 64} (h : base.CalledInOrder k k' expires)
    (hfirst : base'.ArmedFor k expires) (hsecond : base'.ArmedFor k' expires)
    (hextends : base.Extends base') (hfired : base'.fired = base.fired) :
    base'.CalledInOrder k k' expires := by
  refine ⟨h.lt, hfirst, hsecond, ?_⟩
  intro before f after hf hk
  rw [hfired] at hf
  rcases h.order before f after hf hk with hcan | hg
  · exact Or.inl (hextends.cancelled.subset hcan)
  · exact Or.inr hg

omit [DecidableEq τ] in
/-- When the second is called, the first cannot be pending. -/
theorem ended_of_call {base : TimerBase τ} {k k' : Nat} {expires : BitVec 64}
    (h : base.CalledInOrder k k' expires) (hlinked : base.Linked) (hledger : base.Ledger)
    (ho : base.Ordered) {t : τ} {rest : List τ} (hwork : base.lists .work = t :: rest)
    (hk : base.stamp t = k') : k ∈ base.ended := by
  obtain ⟨timer, harmed⟩ := h.first.armed
  obtain ⟨timer', harmed'⟩ := h.second.armed
  have hpending' := hlinked.pending_work hwork
  rcases hledger.total k (List.getElem?_eq_some_iff.1 harmed).1 with hend | ⟨t₀, hpending, hk₀⟩
  · exact hend
  · exfalso
    have hlive := hledger.live t₀ hpending
    have hlive' := hledger.live t hpending'
    rw [hk₀, harmed] at hlive
    rw [hk, harmed'] at hlive'
    have hdue := (Arming.mk.inj (Option.some.inj hlive)).2
    have hdue' := (Arming.mk.inj (Option.some.inj hlive')).2
    have hexp := h.first.expires t₀ hpending hk₀
    have hexp' := h.second.expires t hpending' hk
    obtain ⟨p, hp⟩ := Option.isSome_iff_exists.1 hpending
    have hentry : base.entry t = some .work := by
      rw [← hlinked.mem, hwork]
      exact List.mem_cons_self
    have hlt := h.lt
    rcases ho t₀ t p .work hp hentry (by omega) (by rw [hexp, ← hdue]) (by rw [hexp', ← hdue'])
      (by rw [← hdue, ← hdue']) with ⟨rfl, hsub⟩ | ⟨_, _, _, hno, _⟩
    · -- the first is ahead of the head of the work list
      have hnodup := hlinked.nodup .work
      rw [hwork] at hsub hnodup
      rw [List.nodup_cons] at hnodup
      cases hsub with
      | cons _ hrest => exact hnodup.1 (hrest.subset (by simp))
      | cons_cons _ hrest => exact hnodup.1 (hrest.subset (by simp))
    · cases hno

theorem TimerBase.CalledInOrder.move {w w' : Wheel τ} {k k' : Nat} {expires : BitVec 64}
    (h : w.base.CalledInOrder k k' expires) (hs : w.Sound) (ho : w.base.Ordered)
    {m : WheelMove τ} (hm : wheelMove m w = .ok w') : w'.base.CalledInOrder k k' expires := by
  have hfirst := h.first.move hs hm
  have hsecond := h.second.move hs hm
  have hextends := wheelMove_extends hs hm
  rcases wheelMove_cases hm with ⟨t, e, rfl, he⟩ | ⟨t, -, he⟩ | ⟨hwork, he⟩ | ⟨t, rest, hwork, he⟩ | he
  · exact h.of_fired_eq hfirst hsecond hextends (by rw [he, timerMod_fired])
  · exact h.of_fired_eq hfirst hsecond hextends (by rw [he, timerDel_fired])
  · exact h.of_fired_eq hfirst hsecond hextends
      (by rw [he]; exact (tickStarted hs.placed.linked hwork).fired)
  · refine ⟨h.lt, hfirst, hsecond, ?_⟩
    rw [he, takeTimer_fired, takeTimer_cancelled]
    intro before f after hf hk
    rcases List.eq_nil_or_concat after with rfl | ⟨mid, last, rfl⟩
    · -- the second is called just now
      obtain ⟨rfl, hlast⟩ := List.append_inj' hf rfl
      obtain rfl := List.singleton_inj.1 hlast
      rcases List.mem_append.1 (ended_of_call h hs.placed.linked hs.ledger ho hwork hk) with
        hcan | hfir
      · exact Or.inl hcan
      · obtain ⟨g, hg, hgk⟩ := List.mem_map.1 hfir
        exact Or.inr ⟨g, hg, hgk⟩
    · rw [List.concat_eq_append, ← List.cons_append, ← List.append_assoc] at hf
      exact h.order before f mid (List.append_inj' hf rfl).1 hk
  · exact h.of_fired_eq hfirst hsecond hextends (by rw [he])

/-! ## Runs -/

/-- Timers are FIFO in the runs whose steps meet `ok`: of two timers armed for the same
expiry, neither in the past and neither armed again or deleted since, the second is not
called back unless the first was called before it. -/
def Fifo (ok : Wheel τ → WheelMove τ → Prop) : Prop :=
  ∀ (start : BitVec 64) (w₁ w₂ w₃ : Wheel τ) (a b : τ) (expires : BitVec 64),
    Runs wheelMove ok (initWheel start) w₁ →
    NotPast w₁.base expires → ok w₁ (.mod a expires) →
    Runs wheelMove ok (w₁.arm a expires) w₂ →
    NotPast w₂.base expires → ok w₂ (.mod b expires) →
    Runs wheelMove ok (w₂.arm b expires) w₃ →
    w₁.base.armed.length ∉ w₃.base.cancelled → w₂.base.armed.length ∉ w₃.base.cancelled →
    ∀ before f after, w₃.base.fired = before ++ f :: after →
      f.stamp = w₂.base.armed.length → ∃ g ∈ before, g.stamp = w₁.base.armed.length

/-- The wheel is sound and in order throughout a run whose insertions are in turn. -/
theorem sound_ordered_of_runs {w w' : Wheel τ} (hr : Runs wheelMove KeepsOrder w w')
    (h : w.Sound ∧ w.base.Ordered) : w'.Sound ∧ w'.base.Ordered :=
  hr.invariant (I := fun w => w.Sound ∧ w.base.Ordered)
    (fun _ _ _ ht hok hm => ⟨ht.1.move hm, Wheel.ordered_move ht.1 ht.2 hok hm⟩) h

/--
**Timers are FIFO as long as they are armed in turn.**

In every run in which no timer is armed before its turn, that is, while one of the same
expiry waits on another list that comes down later, timers of one expiry are called in
the order they were armed.
-/
theorem timers_fifo : Fifo (τ := τ) KeepsOrder := by
  intro start w₁ w₂ w₃ a b expires h₁ hpast₁ hok₁ h₂ hpast₂ hok₂ h₃ hcan _ before f after hf hk
  have harm : ∀ {w : Wheel τ} (t : τ), wheelMove (.mod t expires) w = .ok (w.arm t expires) :=
    fun _ => rfl
  -- up to the first arming
  obtain ⟨hs₁, ho₁⟩ := sound_ordered_of_runs h₁ ⟨sound_init start, ordered_init start⟩
  have hs₁' := hs₁.move (harm a)
  have ho₁' := Wheel.ordered_move hs₁ ho₁ hok₁ (harm a)
  -- up to the second
  obtain ⟨⟨hs₂, ho₂⟩, hfirst⟩ := h₂.invariant
    (I := fun w => (w.Sound ∧ w.base.Ordered) ∧ w.base.ArmedFor w₁.base.armed.length expires)
    (fun _ _ _ ht hok hm => ⟨⟨ht.1.1.move hm, Wheel.ordered_move ht.1.1 ht.1.2 hok hm⟩,
      ht.2.move ht.1.1 hm⟩) ⟨⟨hs₁', ho₁'⟩, armedFor_arm hs₁ a hpast₁⟩
  have hs₂' := hs₂.move (harm b)
  have ho₂' := Wheel.ordered_move hs₂ ho₂ hok₂ (harm b)
  have hstart : (w₂.arm b expires).base.CalledInOrder w₁.base.armed.length
      w₂.base.armed.length expires := by
    refine ⟨?_, hfirst.move hs₂ (harm b), armedFor_arm hs₂ b hpast₂, ?_⟩
    · obtain ⟨timer, harmed⟩ := hfirst.armed
      exact (List.getElem?_eq_some_iff.1 harmed).1
    · -- the second has not been called yet
      intro before f after hf hk
      change (timerMod w₂.base b expires).fired = _ at hf
      rw [timerMod_fired] at hf
      have hmem : f.stamp ∈ w₂.base.ended :=
        List.mem_append_right _ (List.mem_map_of_mem (by rw [hf]; simp))
      exact absurd (hs₂.ledger.bound _ hmem) (by omega)
  -- and on
  obtain ⟨-, hend⟩ := h₃.invariant
    (I := fun w => (w.Sound ∧ w.base.Ordered) ∧
      w.base.CalledInOrder w₁.base.armed.length w₂.base.armed.length expires)
    (fun _ _ _ ht hok hm => ⟨⟨ht.1.1.move hm, Wheel.ordered_move ht.1.1 ht.1.2 hok hm⟩,
      ht.2.move ht.1.1 ht.1.2 hm⟩) ⟨⟨hs₂', ho₂'⟩, hstart⟩
  rcases hend.order before f after hf hk with hcancelled | hg
  · exact absurd hcancelled hcan
  · exact hg

/-- The step arms a timer. -/
def WheelMove.arms : WheelMove τ → Bool
  | .mod _ _ => true
  | _ => false

omit [DecidableEq τ] in
theorem keepsOrder_of_not_arms {w : Wheel τ} {m : WheelMove τ} (h : m.arms = false) :
    KeepsOrder w m := by
  cases m with
  | mod timer expires => cases h
  | _ => exact trivial

/-- Two timers are armed for tick 10, at tick 0 and at tick 5, and are called in turn. -/
theorem timers_fifo_two : ∃ (w : Wheel Nat) (f g : Firing Nat),
    w.base.fired = [g, f] ∧ f.timer = 2 ∧ f.due = 10 ∧ g.stamp = 0 ∧ f.stamp = 1 := by
  have hcalm : ∀ (w : Wheel Nat) (m : WheelMove Nat), m.arms = false → KeepsOrder w m :=
    fun _ _ => keepsOrder_of_not_arms
  have hrun : (runActs wheelMove (fun _ m => m.arms = false)
      (.enter 4 :: List.replicate 5 .tick ++ [.leave]) ((initWheel 0).arm 1 10)).any (fun w₂ =>
        decide (NotPast w₂.base 10 ∧ w₂.base.armed.map Arming.timer = [1] ∧
          w₂.base.entry 1 = some (internalVec w₂.base.timerJiffies 10)) &&
        (runActs wheelMove (fun _ m => m.arms = false)
          (.enter 10 :: List.replicate 6 .tick ++ [.call, .call]) (w₂.arm 2 10)).any (fun w₃ =>
            decide (w₃.base.cancelled = [] ∧
              w₃.base.fired.map (fun f => (f.timer, f.due, f.stamp)) = [(1, 10, 0), (2, 10, 1)])))
      = true := by
    decide +kernel
  obtain ⟨w₂, h₂, hw₂⟩ := exists_run hrun
  rw [Bool.and_eq_true] at hw₂
  obtain ⟨hpast, harmed, hentry⟩ := of_decide_eq_true hw₂.1
  obtain ⟨w₃, h₃, hw₃⟩ := exists_run hw₂.2
  obtain ⟨hcan, hfired⟩ := of_decide_eq_true hw₃
  obtain ⟨g, f, hf, hg₁, hf₁⟩ : ∃ g f, w₃.base.fired = [g, f] ∧
      (g.timer, g.due, g.stamp) = (1, 10, 0) ∧ (f.timer, f.due, f.stamp) = (2, 10, 1) := by
    obtain ⟨g, rest, hf, hg, hrest⟩ := List.map_eq_cons_iff.1 hfired
    obtain ⟨f, rest, rfl, hf', hnil⟩ := List.map_eq_cons_iff.1 hrest
    exact ⟨g, f, by rw [hf, List.map_eq_nil_iff.1 hnil], hg, hf'⟩
  -- the first timer is the only one pending when the second is armed
  have hfirst : KeepsOrder (initWheel (τ := Nat) 0) (.mod 1 10) := by
    intro _ t p _ ht
    cases ht
  have hsecond : KeepsOrder w₂ (.mod 2 10) := by
    intro _ t p _ ht _ _
    have harm : wheelMove (.mod 1 10) (initWheel 0) = .ok ((initWheel (τ := Nat) 0).arm 1 10) := rfl
    obtain ⟨hsound, -⟩ := sound_ordered_of_runs ((Runs.single hfirst harm).trans (h₂.weaken hcalm))
      ⟨sound_init 0, ordered_init 0⟩
    have hlive := hsound.ledger.live t (by rw [timerPending, ht]; rfl)
    have hmem : t ∈ w₂.base.armed.map Arming.timer :=
      List.mem_map_of_mem (f := Arming.timer) (List.mem_of_getElem? hlive)
    rw [harmed, List.mem_singleton] at hmem
    rw [hmem, hentry] at ht
    exact Or.inl (Option.some.inj ht).symm
  obtain ⟨g', hg', hstamp⟩ := timers_fifo 0 (initWheel 0) w₂ w₃ 1 2 10
    Relation.ReflTransGen.refl (show (0 : Int) ≤ (10 - 0 : BitVec 64).toInt by decide) hfirst
    (h₂.weaken hcalm) hpast hsecond (h₃.weaken hcalm) (by rw [hcan]; simp) (by rw [hcan]; simp)
    [g] f [] hf
    (by rw [← List.length_map (f := Arming.timer), harmed]; exact congrArg (fun e => e.2.2) hf₁)
  obtain rfl := List.mem_singleton.1 hg'
  exact ⟨w₃, f, g', hf, congrArg Prod.fst hf₁, congrArg (fun e => e.2.1) hf₁, hstamp,
    congrArg (fun e => e.2.2) hf₁⟩

/-- A timer armed at tick 0 for tick 256 is put on `tv2`. One armed for the same tick when
the clock has got there goes to `tv1` at once, and is called first. -/
theorem timers_not_fifo : ¬ Fifo (τ := Nat) anyAct := by
  intro hfifo
  have hrun : (runActs wheelMove anyAct
      (.enter 255 :: List.replicate 256 .tick ++ [.leave])
      ((initWheel 0).arm 1 256)).any (fun w₂ =>
        decide (NotPast w₂.base 256) && w₂.base.armed.length == 1 &&
        (runActs wheelMove anyAct [.enter 256, .tick, .call] (w₂.arm 2 256)).any (fun w₃ =>
          w₃.base.cancelled == [] && w₃.base.fired.map Firing.stamp == [1])) = true := by
    decide +kernel
  obtain ⟨w₂, h₂, hw₂⟩ := exists_run hrun
  simp only [Bool.and_eq_true, beq_iff_eq, decide_eq_true_eq] at hw₂
  obtain ⟨⟨hpast, hlen⟩, hw₂⟩ := hw₂
  obtain ⟨w₃, h₃, hw₃⟩ := exists_run hw₂
  simp only [Bool.and_eq_true, beq_iff_eq] at hw₃
  obtain ⟨hcan, hfired⟩ := hw₃
  -- the second is the only one that has been called
  obtain ⟨f, hf, hstamp⟩ : ∃ f, w₃.base.fired = [f] ∧ f.stamp = 1 := by
    obtain ⟨f, rest, hf, hstamp, hrest⟩ := List.map_eq_cons_iff.1 hfired
    exact ⟨f, by rw [hf, List.map_eq_nil_iff.1 hrest], hstamp⟩
  obtain ⟨g, hg, -⟩ := hfifo 0 (initWheel 0) w₂ w₃ 1 2 256 Relation.ReflTransGen.refl
    (show (0 : Int) ≤ _ by decide) trivial h₂ hpast trivial h₃ (by rw [hcan]; simp)
    (by rw [hcan]; simp) [] f [] hf (by rw [hstamp, hlen])
  cases hg

end Msock
