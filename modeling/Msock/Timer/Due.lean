import Msock.Timer.Slots

/-!
# The bucket invariant

Every pending timer waits in a slot that is reached no later than its due tick. An
insertion puts it there; a cascade puts the timers of the slot that begins now on finer
levels; and once the levels that change at this tick are cascaded, the slot of `tv1` for
it holds exactly the timers that are due.
-/

namespace Msock

universe u v
variable {τ : Type u} [DecidableEq τ]

/-- How far ahead a timer's due tick is. -/
def TimerBase.wait (base : TimerBase τ) (timer : τ) : Nat :=
  ahead base.timerJiffies (base.due timer)

/-- Every pending timer is in a slot it may wait in. -/
structure TimerBase.Placed (base : TimerBase τ) : Prop where
  linked : base.Linked
  slot : ∀ t tv i, base.entry t = some (.tvec tv i) →
    InSlot tv i base.timerJiffies.toNat (base.timerJiffies.toNat + base.wait t)
  soon : ∀ t tv i, base.entry t = some (.tvec tv i) → base.wait t < 2 ^ 63
  /-- Only a timer that was armed in the past is not set to its due tick. -/
  expires : ∀ t tv i, base.entry t = some (.tvec tv i) →
    base.expires t = base.due t ∨
      (tv = .tv1 ∧ base.wait t = 0 ∧ 2 ^ 63 ≤ ahead base.timerJiffies (base.expires t))
  /-- The work list is that of the tick just started. -/
  work : ∀ t, base.entry t = some .work → base.due t = base.timerJiffies - 1

omit [DecidableEq τ] in
theorem placed_init (jiffies : BitVec 64) : (initTimerBase (τ := τ) jiffies).Placed where
  linked := linked_init jiffies
  slot := fun _ _ _ h => by cases h
  soon := fun _ _ _ h => by cases h
  expires := fun _ _ _ h => by cases h
  work := fun _ h => by cases h

/-- The due tick of a timer that is set to it. -/
theorem dueTick_of_soon {jiffies expires : BitVec 64} (h : ahead jiffies expires < 2 ^ 63) :
    dueTick jiffies expires = expires := by
  unfold dueTick
  rw [if_neg]
  rw [toInt_neg_iff]
  omega

omit [DecidableEq τ] in
/-- A wheel whose timers are a part of those of another. -/
theorem TimerBase.Placed.mono {base base' : TimerBase τ} (h : base.Placed)
    (hlinked : base'.Linked) (hjiffies : base'.timerJiffies = base.timerJiffies)
    (hdue : base'.due = base.due) (hexpires : base'.expires = base.expires)
    (hentry : ∀ t p, base'.entry t = some p → base.entry t = some p) : base'.Placed := by
  have hwait : ∀ t, base'.wait t = base.wait t := fun t => by
    rw [TimerBase.wait, TimerBase.wait, hjiffies, hdue]
  constructor
  case linked => exact hlinked
  case slot =>
      intro t tv i he
      rw [hjiffies, hwait]
      exact h.slot t tv i (hentry t _ he)
  case soon =>
      intro t tv i he
      rw [hwait]
      exact h.soon t tv i (hentry t _ he)
  case expires =>
      intro t tv i he
      rw [hjiffies, hwait, hexpires, hdue]
      exact h.expires t tv i (hentry t _ he)
  case work =>
      intro t he
      rw [hjiffies, hdue]
      exact h.work t (hentry t _ he)

/-- Unlinking a timer leaves the entries of the others. -/
theorem entry_of_update_none {entry : τ → Option Place} {timer t : τ} {p : Place}
    (h : Function.update entry timer none t = some p) : entry t = some p := by
  by_cases ht : t = timer
  · subst ht; simp at h
  · rwa [Function.update_of_ne ht] at h

theorem TimerBase.Placed.timerDel {base : TimerBase τ} (h : base.Placed) (timer : τ) :
    (timerDel base timer).Placed :=
  h.mono (h.linked.timerDel timer) (timerDel_timerJiffies base timer)
    (timerDel_due base timer) (timerDel_expires base timer)
    (fun t p he => by rw [timerDel_entry] at he; exact entry_of_update_none he)

theorem TimerBase.Placed.takeTimer {base : TimerBase τ} (h : base.Placed) (timer : τ) :
    (takeTimer base timer).Placed :=
  h.mono (h.linked.takeTimer timer) (takeTimer_timerJiffies base timer)
    (takeTimer_due base timer) (takeTimer_expires base timer)
    (fun t p he => by rw [takeTimer_entry] at he; exact entry_of_update_none he)

/-- Insertion puts a timer where it may wait. -/
theorem TimerBase.Placed.timerMod {base : TimerBase τ} (h : base.Placed) (timer : τ)
    (expires : BitVec 64) : (timerMod base timer expires).Placed := by
  have hself : (Msock.timerMod base timer expires).wait timer
      = ahead base.timerJiffies (dueTick base.timerJiffies expires) := by
    simp [TimerBase.wait]
  have hother : ∀ t, t ≠ timer → (Msock.timerMod base timer expires).wait t = base.wait t := by
    intro t ht
    simp [TimerBase.wait, ht]
  have hentry : ∀ t p, (Msock.timerMod base timer expires).entry t = some p →
      (t = timer ∧ internalVec base.timerJiffies expires = p) ∨
        (t ≠ timer ∧ base.entry t = some p) := by
    intro t p he
    rw [timerMod_entry] at he
    by_cases ht : t = timer
    · subst ht
      rw [Function.update_self] at he
      exact Or.inl ⟨rfl, Option.some.inj he⟩
    · rw [Function.update_of_ne ht] at he
      exact Or.inr ⟨ht, he⟩
  constructor
  case linked => exact h.linked.timerMod timer expires
  case slot =>
      intro t tv i he
      rw [timerMod_timerJiffies]
      rcases hentry t _ he with ⟨rfl, hvec⟩ | ⟨ht, hold⟩
      · rw [hself]; exact (inSlot_internalVec hvec).1
      · rw [hother t ht]; exact h.slot t tv i hold
  case soon =>
      intro t tv i he
      rcases hentry t _ he with ⟨rfl, _⟩ | ⟨ht, hold⟩
      · rw [hself]; exact ahead_dueTick_lt _ _
      · rw [hother t ht]; exact h.soon t tv i hold
  case expires =>
      intro t tv i he
      rw [timerMod_timerJiffies]
      rcases hentry t _ he with ⟨rfl, hvec⟩ | ⟨ht, hold⟩
      · simp only [timerMod_expires, timerMod_due, Function.update_self, hself]
        by_cases hpast : 2 ^ 63 ≤ ahead base.timerJiffies expires
        · refine Or.inr ⟨?_, ?_, hpast⟩
          · rw [internalVec_eq] at hvec
            simp only at hvec
            split_ifs at hvec <;> first | omega | (cases hvec; rfl)
          · rw [ahead_dueTick, if_pos hpast]
        · exact Or.inl (dueTick_of_soon (by omega)).symm
      · simp only [timerMod_expires, timerMod_due, Function.update_of_ne ht, hother t ht]
        exact h.expires t tv i hold
  case work =>
      intro t he
      rcases hentry t _ he with ⟨rfl, hvec⟩ | ⟨ht, hold⟩
      · exact absurd hvec (internalVec_ne_work _ _)
      · simp only [timerMod_timerJiffies, timerMod_due, Function.update_of_ne ht]
        exact h.work t hold

/-- What a callback does keeps timers where they may wait. -/
theorem TimerOps.placed {base base' : TimerBase τ} (hr : TimerOps base base')
    (h : base.Placed) : base'.Placed :=
  hr.invariant (fun _ t hb => hb.timerDel t) (fun _ t e hb => hb.timerMod t e) h

/-! ## Cascades -/

/-- The levels whose slot for this tick, if one begins now, has been emptied. -/
def TimerBase.Emptied (base : TimerBase τ) (levels : List Tvec) : Prop :=
  ∀ t tv i, tv ∈ levels → base.entry t = some (.tvec tv i) →
    InSlot tv i (base.timerJiffies.toNat + 1) (base.timerJiffies.toNat + base.wait t)

/-- A timer of a coarse slot, or one that stays where it is. -/
theorem cascade_entry_cases {base : TimerBase τ} (h : base.Placed) {tv : Tvec}
    (htv : tv ≠ .tv1) (index : Nat) {t : τ} {p : Place}
    (he : (cascade base tv index).entry t = some p) :
    (base.entry t = some (.tvec tv index) ∧ base.expires t = base.due t ∧
        internalVec base.timerJiffies (base.due t) = p) ∨
      (base.entry t ≠ some (.tvec tv index) ∧ base.entry t = some p) := by
  rw [cascade_eq] at he
  simp only at he
  split at he
  · rename_i hmem
    have hentry := (h.linked.mem t _).1 hmem
    have hexp : base.expires t = base.due t := by
      rcases h.expires t tv index hentry with hexp | ⟨hne, _⟩
      · exact hexp
      · exact absurd hne htv
    exact Or.inl ⟨hentry, hexp, by rw [← hexp]; exact Option.some.inj he⟩
  · rename_i hmem
    exact Or.inr ⟨fun hentry => hmem ((h.linked.mem t _).2 hentry), he⟩

theorem wait_cascade (base : TimerBase τ) (tv : Tvec) (index : Nat) (t : τ) :
    (cascade base tv index).wait t = base.wait t := by
  rw [cascade_eq]; rfl

theorem TimerBase.Placed.cascade {base : TimerBase τ} (h : base.Placed) (tv : Tvec)
    (htv : tv ≠ .tv1) (index : Nat) : (cascade base tv index).Placed := by
  have hsame := sameTimers_cascade h.linked tv index
  -- a timer of the slot is set to its due tick, so it is put where that tick belongs
  have hdue : ∀ t, base.entry t = some (.tvec tv index) →
      dueTick base.timerJiffies (base.due t) = base.due t :=
    fun t hentry => dueTick_of_soon (h.soon t tv index hentry)
  constructor
  case linked => exact h.linked.cascade tv index
  case slot =>
      intro t tv' i he
      rw [wait_cascade, hsame.timerJiffies]
      rcases cascade_entry_cases h htv index he with ⟨hold, _, hvec⟩ | ⟨_, hold⟩
      · have hslot := (inSlot_internalVec hvec).1
        rwa [hdue t hold] at hslot
      · exact h.slot t tv' i hold
  case soon =>
      intro t tv' i he
      rw [wait_cascade]
      rcases cascade_entry_cases h htv index he with ⟨hold, _, _⟩ | ⟨_, hold⟩
      · exact h.soon t tv index hold
      · exact h.soon t tv' i hold
  case expires =>
      intro t tv' i he
      rw [wait_cascade, hsame.timerJiffies, hsame.expires, hsame.due]
      rcases cascade_entry_cases h htv index he with ⟨_, hexp, _⟩ | ⟨_, hold⟩
      · exact Or.inl hexp
      · exact h.expires t tv' i hold
  case work =>
      intro t he
      rw [hsame.due, hsame.timerJiffies]
      rcases cascade_entry_cases h htv index he with ⟨_, _, hvec⟩ | ⟨_, hold⟩
      · exact absurd hvec (internalVec_ne_work _ _)
      · exact h.work t hold

/-- Cascading the slot that begins now empties the level of it. -/
theorem TimerBase.Emptied.cascade {base : TimerBase τ} {levels : List Tvec}
    (hd : base.Emptied levels) (h : base.Placed) (h1 : .tv1 ∉ levels) (tv : Tvec)
    (htv : tv ≠ .tv1) {index : Nat} (hindex : index = base.timerJiffies.toNat / tv.unit % 64) :
    (cascade base tv index).Emptied (tv :: levels) := by
  have hsame := sameTimers_cascade h.linked tv index
  intro t tv' i hmem he
  rw [wait_cascade, hsame.timerJiffies]
  have htv' : tv' ≠ .tv1 := by
    rintro rfl
    rcases List.mem_cons.1 hmem with hcase | hcase
    · exact htv hcase.symm
    · exact h1 hcase
  rcases cascade_entry_cases h htv _ he with ⟨hold, _, hvec⟩ | ⟨hne, hold⟩
  · have hslot := (inSlot_internalVec hvec).2 htv'
    rwa [dueTick_of_soon (h.soon t tv _ hold)] at hslot
  · rcases List.mem_cons.1 hmem with rfl | hlevel
    · refine (h.slot t tv' i hold).next htv' ?_
      rintro ⟨_, hi⟩
      rw [hi, ← hindex] at hold
      exact hne hold
    · exact hd t tv' i hlevel hold

omit [DecidableEq τ] in
/-- A level of which no slot begins now is in order as it is. -/
theorem TimerBase.Emptied.unaligned {base : TimerBase τ} {levels : List Tvec}
    (hd : base.Emptied levels) (h : base.Placed) (tv : Tvec) (htv : tv ≠ .tv1)
    (hne : base.timerJiffies.toNat % tv.unit ≠ 0) : base.Emptied (tv :: levels) := by
  intro t tv' i hmem he
  rcases List.mem_cons.1 hmem with rfl | hlevel
  · exact (h.slot t tv' i he).next htv (fun hslot => hne hslot.1)
  · exact hd t tv' i hlevel he

/-- The cascades of a tick empty the slots that begin at it, on all levels. -/
theorem emptied_cascadeTimers {base : TimerBase τ} (h : base.Placed) :
    (cascadeTimers base).Placed ∧
      (cascadeTimers base).Emptied [.tv5, .tv4, .tv3, .tv2] := by
  have hnone : ∀ b : TimerBase τ, b.Emptied [] := fun b t tv i hmem _ => by cases hmem
  have hjiffies : ∀ (b : TimerBase τ) tv i, b.Placed →
      (cascade b tv i).timerJiffies = b.timerJiffies :=
    fun b tv i hb => (sameTimers_cascade hb.linked tv i).timerJiffies
  unfold cascadeTimers
  simp only [and_tvrMask, tvecIndex_eq]
  generalize hj : base.timerJiffies.toNat = j
  -- each level is either cascaded or not aligned
  have h2 := h.cascade .tv2 (by decide) (j / 2 ^ 8 % 64)
  have j2 := hjiffies base .tv2 (j / 2 ^ 8 % 64) h
  have h3 := h2.cascade .tv3 (by decide) (j / 2 ^ 14 % 64)
  have j3 := hjiffies _ .tv3 (j / 2 ^ 14 % 64) h2
  have h4 := h3.cascade .tv4 (by decide) (j / 2 ^ 20 % 64)
  have j4 := hjiffies _ .tv4 (j / 2 ^ 20 % 64) h3
  have h5 := h4.cascade .tv5 (by decide) (j / 2 ^ 26 % 64)
  have e2 := (hnone base).cascade h (by simp) .tv2 (by decide)
    (show j / 2 ^ 8 % 64 = _ by rw [hj]; rfl)
  have e3 := e2.cascade h2 (by decide) .tv3 (by decide)
    (show j / 2 ^ 14 % 64 = _ by rw [j2, hj]; rfl)
  have e4 := e3.cascade h3 (by decide) .tv4 (by decide)
    (show j / 2 ^ 20 % 64 = _ by rw [j3, j2, hj]; rfl)
  have e5 := e4.cascade h4 (by decide) .tv5 (by decide)
    (show j / 2 ^ 26 % 64 = _ by rw [j4, j3, j2, hj]; rfl)
  split_ifs with c1 c2 c3 c4
  · refine ⟨h, ((((hnone base).unaligned h .tv2 (by decide) ?_).unaligned h .tv3
      (by decide) ?_).unaligned h .tv4 (by decide) ?_).unaligned h .tv5
      (by decide) ?_⟩ <;> rw [hj] <;> simp only [Tvec.unit] <;> omega
  · refine ⟨h2, ((e2.unaligned h2 .tv3 (by decide) ?_).unaligned h2 .tv4
      (by decide) ?_).unaligned h2 .tv5 (by decide) ?_⟩ <;>
      rw [j2, hj] <;> simp only [Tvec.unit] <;> omega
  · refine ⟨h3, (e3.unaligned h3 .tv4 (by decide) ?_).unaligned h3 .tv5
      (by decide) ?_⟩ <;> rw [j3, j2, hj] <;> simp only [Tvec.unit] <;> omega
  · refine ⟨h4, e4.unaligned h4 .tv5 (by decide) ?_⟩
    rw [j4, j3, j2, hj]
    simp only [Tvec.unit]
    omega
  · exact ⟨h5, e5⟩

/-! ## One tick -/

omit [DecidableEq τ] in
/-- A timer due now is in the slot of `tv1` for this tick, and no other timer is. -/
theorem TimerBase.Placed.slot_now {base : TimerBase τ} (h : base.Placed)
    (hd : base.Emptied [.tv5, .tv4, .tv3, .tv2]) {t : τ} {tv : Tvec} {i : Nat}
    (he : base.entry t = some (.tvec tv i)) :
    base.wait t = 0 ↔ Place.tvec tv i = .tvec .tv1 (base.timerJiffies.toNat % 2 ^ 8) := by
  by_cases htv : tv = .tv1
  · subst htv
    obtain ⟨hi, hle⟩ := h.slot t .tv1 i he
    constructor
    · intro h0
      rw [hi, h0, Nat.add_zero]
    · intro heq
      simp only [Place.tvec.injEq, true_and] at heq
      omega
  · have hlt := (hd t tv i (by cases tv <;> simp at htv ⊢) he).lt_of_next htv
    constructor
    · intro h0; omega
    · intro heq
      simp only [Place.tvec.injEq] at heq
      exact absurd heq.1 htv

omit [DecidableEq τ] in
/-- A timer that is not due yet may wait on where it is. -/
theorem TimerBase.Placed.slot_next {base : TimerBase τ} (h : base.Placed)
    (hd : base.Emptied [.tv5, .tv4, .tv3, .tv2]) {t : τ} {tv : Tvec} {i : Nat}
    (he : base.entry t = some (.tvec tv i)) (hne : base.due t ≠ base.timerJiffies) :
    InSlot tv i (base.timerJiffies + 1).toNat
      ((base.timerJiffies + 1).toNat + ahead (base.timerJiffies + 1) (base.due t)) := by
  have hpos : base.wait t ≠ 0 := fun h0 => hne (ahead_eq_zero.1 h0)
  have hnext : InSlot tv i (base.timerJiffies.toNat + 1)
      (base.timerJiffies.toNat + base.wait t) := by
    by_cases htv : tv = .tv1
    · subst htv
      obtain ⟨hi, hle⟩ := h.slot t .tv1 i he
      exact ⟨hi, by omega⟩
    · exact hd t tv i (by cases tv <;> simp at htv ⊢) he
  have hsplit : base.timerJiffies.toNat + base.wait t
      = base.timerJiffies.toNat + 1 + (base.wait t - 1) := by omega
  have hone : (1 : BitVec 64).toNat = 1 := rfl
  rw [ahead_succ hne, BitVec.toNat_add, hone]
  change InSlot tv i _ (_ + (base.wait t - 1))
  rw [hsplit] at hnext
  have hlt := base.timerJiffies.isLt
  by_cases hwrap : base.timerJiffies.toNat + 1 = 2 ^ 64
  · rw [hwrap] at hnext ⊢
    rw [Nat.mod_self, Nat.zero_add]
    exact hnext.wrap
  · rw [Nat.mod_eq_of_lt (by omega)]
    exact hnext

/--
**A tick takes exactly the timers that are due.**

Once a tick is started, the timers due at it are on the work list and all others wait
where they may at the next one.
-/
theorem placed_startTick {base : TimerBase τ} (h : base.Placed)
    (hwork : base.lists .work = []) :
    (startTick base).Placed ∧ ∀ t, t ∈ (startTick base).lists .work ↔
      timerPending base t = true ∧ base.due t = base.timerJiffies := by
  obtain ⟨hplaced, hemptied⟩ := emptied_cascadeTimers h
  have hsame := (linked_cascadeTimers h.linked).2
  have hstart := tickStarted h.linked hwork
  have hwait : ∀ t, (cascadeTimers base).wait t = base.wait t := fun t => by
    rw [TimerBase.wait, TimerBase.wait, hsame.timerJiffies, hsame.due]
  have hindex : base.timerJiffies.toNat &&& tvrMask = base.timerJiffies.toNat % 2 ^ 8 :=
    and_tvrMask _
  have hnow : ∀ {t tv i}, (cascadeTimers base).entry t = some (.tvec tv i) →
      (base.due t = base.timerJiffies ↔
        Place.tvec tv i = .tvec .tv1 (base.timerJiffies.toNat % 2 ^ 8)) := by
    intro t tv i he
    rw [← ahead_eq_zero]
    have hiff := hplaced.slot_now hemptied he
    rwa [hwait, hsame.timerJiffies] at hiff
  have hnowork : ∀ t, (cascadeTimers base).entry t ≠ some .work := by
    intro t he
    have hmem := (hplaced.linked.mem t .work).2 he
    rw [hsame.work, hwork] at hmem
    cases hmem
  -- an entry after the start of the tick, and what it was before
  have hentry : ∀ t, (startTick base).entry t
      = if (cascadeTimers base).entry t
          = some (.tvec .tv1 (base.timerJiffies.toNat % 2 ^ 8)) then some .work
        else (cascadeTimers base).entry t := by
    intro t
    simp only [startTick, replaceInit, hindex]
  have hslot : ∀ {t tv i}, (startTick base).entry t = some (.tvec tv i) →
      (cascadeTimers base).entry t = some (.tvec tv i) ∧ base.due t ≠ base.timerJiffies := by
    intro t tv i he
    rw [hentry] at he
    split at he
    · cases he
    · rename_i hne
      refine ⟨he, fun hdue => hne ?_⟩
      rw [he, (hnow he).1 hdue]
  constructor
  · constructor
    case linked => exact hstart.linked
    case slot =>
        intro t tv i he
        obtain ⟨hold, hne⟩ := hslot he
        rw [TimerBase.wait, hstart.timerJiffies, hstart.due]
        have hnext := hplaced.slot_next hemptied hold
        rw [hsame.timerJiffies, hsame.due] at hnext
        exact hnext hne
    case soon =>
        intro t tv i he
        obtain ⟨hold, hne⟩ := hslot he
        rw [TimerBase.wait, hstart.timerJiffies, hstart.due, ahead_succ hne]
        have hsoon := hplaced.soon t tv i hold
        rw [hwait, TimerBase.wait] at hsoon
        omega
    case expires =>
        intro t tv i he
        obtain ⟨hold, hne⟩ := hslot he
        rw [hstart.expires, hstart.due]
        have hexp := hplaced.expires t tv i hold
        rw [hsame.expires, hsame.due, hwait] at hexp
        rcases hexp with hexp | ⟨_, h0, _⟩
        · exact Or.inl hexp
        · exact absurd (ahead_eq_zero.1 h0) hne
    case work =>
        intro t he
        rw [hstart.due, hstart.timerJiffies, BitVec.add_sub_cancel]
        rw [hentry] at he
        split at he
        · rename_i hold
          exact (hnow hold).2 rfl
        · exact absurd he (hnowork t)
  · intro t
    rw [hstart.linked.mem, hentry, ← hsame.pending t]
    constructor
    · intro he
      split at he
      · rename_i hold
        refine ⟨?_, (hnow hold).2 rfl⟩
        rw [timerPending, hold]; rfl
      · exact absurd he (hnowork t)
    · rintro ⟨hpending, hdue⟩
      obtain ⟨p, hp⟩ := Option.isSome_iff_exists.1 hpending
      cases p with
      | work => exact absurd hp (hnowork t)
      | tvec tv i => rw [if_pos (by rw [hp, (hnow hp).1 hdue])]

end Msock
