import Msock.Timer.Searched

/-!
# The search for the next interrupt

`timer_next_interrupt` looks for the earliest pending timer slot by slot and level by
level. A slot of a finer level is looked at before the coarser levels, and once a timer
is found only the slots that are cascaded at its own turn or before can hold an earlier
one: the next slot of each level, as far as the levels' boundaries coincide.
-/

namespace Msock

universe u
variable {τ : Type u}

/-- The slot of a level that begins next, or now, counted from tick 0. -/
@[irreducible] def nextSlot (tv : Tvec) (j : Nat) : Nat := (j + tv.unit - 1) / tv.unit

/-- The order of the levels. -/
def Tvec.level : Tvec → Nat
  | .tv1 => 0
  | .tv2 => 1
  | .tv3 => 2
  | .tv4 => 3
  | .tv5 => 4

/-- The next coarser level. -/
def Tvec.next : Tvec → Tvec
  | .tv1 => .tv2
  | .tv2 => .tv3
  | .tv3 => .tv4
  | .tv4 => .tv5
  | .tv5 => .tv5

/-- `y` ticks from now is the next tick with a timer, or the cap if that is nearer. -/
structure IsNext (base : TimerBase τ) (y : Nat) : Prop where
  cap : y ≤ nextTimerMaxDelta.toNat
  le : ∀ t, timerPending base t = true → y ≤ base.wait t
  attained : y = nextTimerMaxDelta.toNat ∨ ∃ t, timerPending base t = true ∧ y = base.wait t

/-- How far ahead of the wheel's clock a tick is, none if it is past. -/
def fromNow (base : TimerBase τ) (tick : BitVec 64) : Nat :=
  (max 0 (tick - base.timerJiffies).toInt).toNat

/-- `timer_next_interrupt` answers `r`, which is the next tick with a timer or the cap. -/
def NextExact (base : TimerBase τ) (r : BitVec 64) : Prop := IsNext base (fromNow base r)

/-! ## Slots and boundaries -/

theorem unit_next {tv : Tvec} (h1 : tv ≠ .tv1) (h5 : tv ≠ .tv5) :
    tv.next.unit = 64 * tv.unit := by
  cases tv <;> first | rfl | contradiction

theorem nextSlot_next {tv : Tvec} (h1 : tv ≠ .tv1) (h5 : tv ≠ .tv5) (j : Nat) :
    nextSlot tv.next j = (nextSlot tv j + 63) / 64 := by
  cases tv <;> first | contradiction | (simp only [nextSlot, Tvec.next, Tvec.unit]; omega)

/-- The slots of a coarser level begin no earlier than the next of a finer one. -/
theorem boundary_mono {tv tv' : Tvec} (h1 : tv ≠ .tv1) (hlevel : tv.level ≤ tv'.level) (j : Nat) :
    nextSlot tv j * tv.unit ≤ nextSlot tv' j * tv'.unit := by
  cases tv <;> cases tv' <;>
    first
      | contradiction
      | (simp only [Tvec.level] at hlevel; omega)
      | (simp only [nextSlot, Tvec.unit]; omega)

/-- The slots of `tv1` are before the next boundary, or one round later. -/
theorem nextSlot_tv2 (j : Nat) : nextSlot .tv2 j * 256 = j + (256 - j % 256) % 256 := by
  simp only [nextSlot, Tvec.unit]
  omega

/-- Which of the coming slots of its level a timer waits in. -/
theorem exists_slot {tv : Tvec} (h1 : tv ≠ .tv1) {i j D : Nat} (h : InSlot tv i j D) :
    ∃ n < 64, i = (nextSlot tv j + n) % 64 ∧ (nextSlot tv j + n) * tv.unit ≤ D ∧
      (tv ≠ .tv5 → D < (nextSlot tv j + n + 1) * tv.unit) := by
  cases tv
  case tv1 => contradiction
  case tv5 =>
      obtain ⟨D', hle, hlow, hhigh, hi⟩ := h
      refine ⟨D' / 2 ^ 26 - nextSlot .tv5 j, ?_, ?_, ?_, fun h => absurd rfl h⟩ <;>
        simp only [nextSlot, Tvec.unit] <;> omega
  case tv2 =>
      obtain ⟨hlow, hhigh, hi⟩ := h
      refine ⟨D / 2 ^ 8 - nextSlot .tv2 j, ?_, ?_, ?_, fun _ => ?_⟩ <;>
        simp only [nextSlot, Tvec.unit] <;> omega
  case tv3 =>
      obtain ⟨hlow, hhigh, hi⟩ := h
      refine ⟨D / 2 ^ 14 - nextSlot .tv3 j, ?_, ?_, ?_, fun _ => ?_⟩ <;>
        simp only [nextSlot, Tvec.unit] <;> omega
  case tv4 =>
      obtain ⟨hlow, hhigh, hi⟩ := h
      refine ⟨D / 2 ^ 20 - nextSlot .tv4 j, ?_, ?_, ?_, fun _ => ?_⟩ <;>
        simp only [nextSlot, Tvec.unit] <;> omega

/-- The `timer_jiffies` of the search stands at the next slot of the level. -/
def AtLevel (tv : Tvec) (j : Nat) (timerJiffies : BitVec 64) : Prop :=
  timerJiffies.toNat = nextSlot tv j ∨
    (timerJiffies.toNat = 0 ∧ nextSlot tv j = 2 ^ 64 / tv.unit)

theorem AtLevel.index {tv : Tvec} (h1 : tv ≠ .tv1) {j : Nat} {timerJiffies : BitVec 64}
    (h : AtLevel tv j timerJiffies) : timerJiffies.toNat &&& tvnMask = nextSlot tv j % 64 := by
  rw [and_tvnMask]
  rcases h with h | ⟨h, hwrap⟩
  · rw [h]
  · rw [h, hwrap]
    cases tv <;> first | contradiction | rfl

/-- The step from one level to the next. -/
theorem AtLevel.next {tv : Tvec} (h1 : tv ≠ .tv1) (h5 : tv ≠ .tv5) {j : Nat}
    (hj : j < 2 ^ 64) {timerJiffies : BitVec 64} (h : AtLevel tv j timerJiffies) :
    AtLevel tv.next j
      ((if timerJiffies.toNat &&& tvnMask ≠ 0
        then timerJiffies + BitVec.ofNat 64 (tvnSize - (timerJiffies.toNat &&& tvnMask))
        else timerJiffies) >>> tvnBits) := by
  have hsize : tvnSize = 64 := rfl
  have hbits : tvnBits = 6 := rfl
  have hbound : nextSlot tv j ≤ 2 ^ 56 := by
    cases tv <;> first | contradiction | (simp only [nextSlot, Tvec.unit]; omega)
  unfold AtLevel at h ⊢
  rw [nextSlot_next h1 h5, and_tvnMask, hsize, hbits]
  have hstep : ((if timerJiffies.toNat % 64 ≠ 0
      then timerJiffies + BitVec.ofNat 64 (64 - timerJiffies.toNat % 64)
      else timerJiffies) >>> 6).toNat = (timerJiffies.toNat + 63) / 64 := by
    rw [BitVec.toNat_ushiftRight, Nat.shiftRight_eq_div_pow]
    split
    · rw [BitVec.toNat_add, BitVec.toNat_ofNat]
      omega
    · omega
  rw [hstep]
  rcases h with h | ⟨h, hwrap⟩
  · exact Or.inl (by rw [h])
  · refine Or.inr ⟨by rw [h], ?_⟩
    rw [hwrap, unit_next h1 h5]
    cases tv <;> first | contradiction | rfl

theorem atLevel_tv2 (timerJiffies : BitVec 64) :
    AtLevel .tv2 timerJiffies.toNat
      ((if timerJiffies.toNat &&& tvrMask ≠ 0
        then timerJiffies + BitVec.ofNat 64 (tvrSize - (timerJiffies.toNat &&& tvrMask))
        else timerJiffies) >>> tvrBits) := by
  have hsize : tvrSize = 256 := rfl
  have hbits : tvrBits = 8 := rfl
  have hj := timerJiffies.isLt
  unfold AtLevel
  rw [and_tvrMask, hsize, hbits, BitVec.toNat_ushiftRight, Nat.shiftRight_eq_div_pow]
  simp only [nextSlot, Tvec.unit]
  split
  · rw [BitVec.toNat_add, BitVec.toNat_ofNat]
    omega
  · omega

/-! ## The loops -/

variable (base : TimerBase τ)

/-- The scan of `tv1` finds the first slot with a timer. -/
theorem scanTv1_cases {index : Nat} (hindex : index < 256) (fuel k : Nat) (hk : k + fuel = 256)
    (hpos : fuel ≠ 0) :
    (scanTv1 base index fuel ((index + k) % 256) = none ∧
      ∀ n, k ≤ n → n < 256 → base.lists (.tvec .tv1 ((index + n) % 256)) = []) ∨
    ∃ n, k ≤ n ∧ n < 256 ∧ (∀ m, k ≤ m → m < n →
        base.lists (.tvec .tv1 ((index + m) % 256)) = []) ∧
      ∃ nte rest, base.lists (.tvec .tv1 ((index + n) % 256)) = nte :: rest ∧
        scanTv1 base index fuel ((index + k) % 256) = some ((index + n) % 256, nte) := by
  induction fuel generalizing k with
  | zero => exact absurd rfl hpos
  | succ fuel ih =>
      rw [scanTv1]
      cases hslot : base.lists (.tvec .tv1 ((index + k) % 256)) with
      | cons nte rest =>
          exact Or.inr ⟨k, le_rfl, by omega, fun m h1 h2 => absurd h1 (by omega), nte, rest,
            hslot, rfl⟩
      | nil =>
          have hnext : ((index + k) % 256 + 1) &&& tvrMask = (index + (k + 1)) % 256 := by
            rw [and_tvrMask]; omega
          dsimp only
          rw [hnext]
          by_cases hlast : fuel = 0
          · -- the last slot
            rw [if_neg (by omega)]
            refine Or.inl ⟨rfl, fun n h1 h2 => ?_⟩
            obtain rfl : n = k := by omega
            exact hslot
          · rw [if_pos (by omega)]
            rcases ih (k + 1) (by omega) hlast with ⟨hnone, hall⟩ | ⟨n, h1, h2, hbefore, hfound⟩
            · refine Or.inl ⟨hnone, fun n h1 h2 => ?_⟩
              rcases Nat.eq_or_lt_of_le h1 with rfl | hlt
              · exact hslot
              · exact hall n hlt h2
            · refine Or.inr ⟨n, by omega, h2, fun m h3 h4 => ?_, hfound⟩
              rcases Nat.eq_or_lt_of_le h3 with rfl | hlt
              · exact hslot
              · exact hbefore m hlt h4

/-! ## The earliest of a slot -/

variable {base}

/-- Ticks that are not past are compared as they lie ahead. -/
theorem behind_iff {jiffies a b : BitVec 64} (ha : ahead jiffies a < 2 ^ 63)
    (hb : ahead jiffies b < 2 ^ 63) :
    2 ^ 63 ≤ ahead b a ↔ ahead jiffies a < ahead jiffies b := by
  have h1 := jiffies.isLt
  have h2 := a.isLt
  have h3 := b.isLt
  simp only [ahead, BitVec.toNat_sub] at *
  omega

theorem fromNow_eq {r : BitVec 64} (h : ahead base.timerJiffies r < 2 ^ 63) :
    fromNow base r = ahead base.timerJiffies r := by
  unfold fromNow
  have hint : (r - base.timerJiffies).toInt = (ahead base.timerJiffies r : Int) := by
    rw [BitVec.toInt_eq_toNat_cond]
    unfold ahead at h ⊢
    rw [if_pos (by omega)]
  omega

theorem fromNow_past {r : BitVec 64} (h : 2 ^ 63 ≤ ahead base.timerJiffies r) :
    fromNow base r = 0 := by
  have hneg := (toInt_neg_iff base.timerJiffies r).2 h
  unfold fromNow
  omega

/-- The timers are set to their due ticks. -/
def TimerBase.OnTime (base : TimerBase τ) (timers : List τ) : Prop :=
  ∀ t ∈ timers, base.expires t = base.due t ∧ base.wait t < 2 ^ 63

/-- From a tick that is not past, the earliest. -/
theorem earliest_ahead {timers : List τ} (h : base.OnTime timers) {expires : BitVec 64}
    (hexp : ahead base.timerJiffies expires < 2 ^ 63) :
    ahead base.timerJiffies (earliest base timers expires)
        ≤ ahead base.timerJiffies expires ∧
      (∀ t ∈ timers,
        ahead base.timerJiffies (earliest base timers expires) ≤ base.wait t) ∧
      (ahead base.timerJiffies (earliest base timers expires)
          = ahead base.timerJiffies expires ∨
        ∃ t ∈ timers,
          ahead base.timerJiffies (earliest base timers expires) = base.wait t) := by
  induction timers generalizing expires with
  | nil => exact ⟨le_rfl, by simp, Or.inl rfl⟩
  | cons nte rest ih =>
      obtain ⟨hdue, hwait⟩ := h nte List.mem_cons_self
      have hrest : base.OnTime rest := fun t ht => h t (List.mem_cons_of_mem _ ht)
      have hself : ahead base.timerJiffies (base.expires nte) = base.wait nte := by
        rw [hdue]; rfl
      rw [earliest_cons]
      by_cases hbefore : 2 ^ 63 ≤ ahead expires (base.expires nte)
      · rw [if_pos hbefore]
        rw [behind_iff (by rw [hself]; exact hwait) hexp, hself] at hbefore
        obtain ⟨h1, h2, h3⟩ := ih hrest (by rw [hself]; exact hwait)
        rw [hself] at h1 h3
        refine ⟨by omega, ?_, ?_⟩
        · intro t ht
          rcases List.mem_cons.1 ht with rfl | ht
          · exact h1
          · exact h2 t ht
        · rcases h3 with h3 | ⟨t, ht, h3⟩
          · exact Or.inr ⟨nte, List.mem_cons_self, h3⟩
          · exact Or.inr ⟨t, List.mem_cons_of_mem _ ht, h3⟩
      · rw [if_neg hbefore]
        rw [behind_iff (by rw [hself]; exact hwait) hexp, hself] at hbefore
        obtain ⟨h1, h2, h3⟩ := ih hrest hexp
        refine ⟨h1, ?_, ?_⟩
        · intro t ht
          rcases List.mem_cons.1 ht with rfl | ht
          · omega
          · exact h2 t ht
        · rcases h3 with h3 | ⟨t, ht, h3⟩
          · exact Or.inl h3
          · exact Or.inr ⟨t, List.mem_cons_of_mem _ ht, h3⟩

section Ready
variable (h : base.Ready)
include h

theorem TimerBase.Ready.onTime {tv : Tvec} (htv : tv ≠ .tv1) (i : Nat) :
    base.OnTime (base.lists (.tvec tv i)) := by
  intro t ht
  have hentry := (h.placed.linked.mem _ _).1 ht
  refine ⟨?_, h.placed.soon t tv i hentry⟩
  rcases h.placed.expires t tv i hentry with hexp | ⟨hone, -⟩
  · exact hexp
  · exact absurd hone htv

theorem TimerBase.Ready.entry_of_pending {t : τ} (ht : timerPending base t = true) :
    ∃ tv i, base.entry t = some (.tvec tv i) := by
  obtain ⟨p, hp⟩ := Option.isSome_iff_exists.1 ht
  cases p with
  | tvec tv i => exact ⟨tv, i, hp⟩
  | work =>
      have hmem := (h.placed.linked.mem t .work).2 hp
      rw [h.work] at hmem
      cases hmem

/-- Which of the coming slots of its level a pending timer waits in. -/
theorem TimerBase.Ready.slot {t : τ} {tv : Tvec} (htv : tv ≠ .tv1) {i : Nat}
    (ht : base.entry t = some (.tvec tv i)) :
    ∃ n < 64, i = (nextSlot tv base.timerJiffies.toNat + n) % 64 ∧
      (nextSlot tv base.timerJiffies.toNat + n) * tv.unit
        ≤ base.timerJiffies.toNat + base.wait t ∧
      (tv ≠ .tv5 → base.timerJiffies.toNat + base.wait t
        < (nextSlot tv base.timerJiffies.toNat + n + 1) * tv.unit) :=
  exists_slot htv (h.placed.slot t tv i ht)

end Ready

theorem pending_of_entry {t : τ} {p : Place} (ht : base.entry t = some p) :
    timerPending base t = true := by
  rw [timerPending, ht]
  rfl

/-! ## With a timer found -/

/-- `expires` is the earliest of the levels before `tv`, and at most the slot of `tv` that
is next can hold an earlier one on that level. -/
structure SoFar (base : TimerBase τ) (tv : Tvec) (expires : BitVec 64) : Prop where
  cap : ahead base.timerJiffies expires ≤ nextTimerMaxDelta.toNat
  le : ∀ t tv' i, base.entry t = some (.tvec tv' i) → tv'.level < tv.level →
    ahead base.timerJiffies expires ≤ base.wait t
  attained : ahead base.timerJiffies expires = nextTimerMaxDelta.toNat ∨
    ∃ t, timerPending base t = true ∧ ahead base.timerJiffies expires = base.wait t
  near : base.timerJiffies.toNat + ahead base.timerJiffies expires
    < (nextSlot tv base.timerJiffies.toNat + 1) * tv.unit

/-- The levels from one on. -/
def Tvec.upward : Tvec → List Tvec
  | .tv1 => [.tv1, .tv2, .tv3, .tv4, .tv5]
  | .tv2 => [.tv2, .tv3, .tv4, .tv5]
  | .tv3 => [.tv3, .tv4, .tv5]
  | .tv4 => [.tv4, .tv5]
  | .tv5 => [.tv5]

theorem upward_eq {tv : Tvec} (h5 : tv ≠ .tv5) : tv.upward = tv :: tv.next.upward := by
  cases tv <;> first | rfl | contradiction

/-- Every level is before another, or it is that or a coarser one. -/
theorem level_next {tv tv' : Tvec} (h5 : tv ≠ .tv5) (h : ¬ tv'.level ≤ tv.level) :
    tv.next.level ≤ tv'.level := by
  cases tv <;> cases tv' <;> simp [Tvec.level, Tvec.next] at h h5 ⊢

/-- The tick found is exact if it is the earliest of all levels. -/
theorem nextExact_of_le {expires : BitVec 64}
    (hcap : ahead base.timerJiffies expires ≤ nextTimerMaxDelta.toNat)
    (hle : ∀ t, timerPending base t = true → ahead base.timerJiffies expires ≤ base.wait t)
    (hatt : ahead base.timerJiffies expires = nextTimerMaxDelta.toNat ∨
      ∃ t, timerPending base t = true ∧ ahead base.timerJiffies expires = base.wait t) :
    NextExact base expires := by
  have hmax : nextTimerMaxDelta.toNat = 2 ^ 30 - 1 := rfl
  unfold NextExact
  rw [fromNow_eq (by omega)]
  exact ⟨hcap, hle, hatt⟩

section Found
variable (h : base.Ready)
include h

/-- What is on a level after its next slot is due after the tick found. -/
theorem SoFar.after {tv : Tvec} (htv : tv ≠ .tv1) {expires : BitVec 64}
    (hs : SoFar base tv expires) {t : τ} {i : Nat} (ht : base.entry t = some (.tvec tv i))
    (hi : i ≠ nextSlot tv base.timerJiffies.toNat % 64) :
    ahead base.timerJiffies expires ≤ base.wait t := by
  obtain ⟨n, hn, hin, hlow, -⟩ := h.slot htv ht
  have hpos : n ≠ 0 := fun h0 => hi (by rw [hin, h0]; rfl)
  have hmul : (nextSlot tv base.timerJiffies.toNat + 1) * tv.unit
      ≤ (nextSlot tv base.timerJiffies.toNat + n) * tv.unit :=
    Nat.mul_le_mul_right _ (by omega)
  have hnear := hs.near
  omega

/-- The next slot of a level taken in. -/
theorem SoFar.slot {tv : Tvec} (htv : tv ≠ .tv1) {expires : BitVec 64}
    (hs : SoFar base tv expires) {expires' : BitVec 64}
    (hexp : expires' = earliest base
      (base.lists (.tvec tv (nextSlot tv base.timerJiffies.toNat % 64))) expires) :
    ahead base.timerJiffies expires' ≤ ahead base.timerJiffies expires ∧
      (∀ t tv' i, base.entry t = some (.tvec tv' i) → tv'.level ≤ tv.level →
        ahead base.timerJiffies expires' ≤ base.wait t) ∧
      (ahead base.timerJiffies expires' = nextTimerMaxDelta.toNat ∨
        ∃ t, timerPending base t = true ∧ ahead base.timerJiffies expires' = base.wait t) := by
  have hmax : nextTimerMaxDelta.toNat = 2 ^ 30 - 1 := rfl
  have hcap := hs.cap
  obtain ⟨h1, h2, h3⟩ := earliest_ahead
    (h.onTime htv (nextSlot tv base.timerJiffies.toNat % 64))
    (show ahead base.timerJiffies expires < 2 ^ 63 by omega)
  rw [← hexp] at h1 h2 h3
  refine ⟨h1, ?_, ?_⟩
  · intro t tv' i ht hlevel
    rcases Nat.lt_or_ge tv'.level tv.level with hlt | hge
    · exact h1.trans (hs.le t tv' i ht hlt)
    · have hsame : tv' = tv := by
        have hlevel := Nat.le_antisymm hlevel hge
        revert hlevel
        cases tv <;> cases tv' <;> simp [Tvec.level]
      subst hsame
      by_cases hi : i = nextSlot tv' base.timerJiffies.toNat % 64
      · exact h2 t ((h.placed.linked.mem _ _).2 (hi ▸ ht))
      · exact h1.trans (hs.after h htv ht hi)
  · rcases h3 with h3 | ⟨t, ht, h3⟩
    · rw [h3]
      exact hs.attained
    · exact Or.inr ⟨t, pending_of_entry ((h.placed.linked.mem _ _).1 ht), h3⟩

/-- What is on the coarser levels is due after the next boundary. -/
theorem boundary_le {tv : Tvec} (htv : tv ≠ .tv1) (h5 : tv ≠ .tv5) {t : τ} {tv' : Tvec} {i : Nat}
    (ht : base.entry t = some (.tvec tv' i)) (hlevel : ¬ tv'.level ≤ tv.level) :
    nextSlot tv.next base.timerJiffies.toNat * tv.next.unit
      ≤ base.timerJiffies.toNat + base.wait t := by
  have htv' : tv' ≠ .tv1 := by rintro rfl; exact hlevel (Nat.zero_le _)
  have hnext : tv.next ≠ .tv1 := by cases tv <;> simp [Tvec.next]
  obtain ⟨n, -, -, hlow, -⟩ := h.slot htv' ht
  refine le_trans (boundary_mono hnext (level_next h5 hlevel) _) (le_trans ?_ hlow)
  exact Nat.mul_le_mul_right _ (by omega)

/-- With a timer found, the search takes in the next slot of each level as far as they
begin together, and is right to leave out the others. -/
theorem nextLevels_found {tv : Tvec} (htv : tv ≠ .tv1) {timerJiffies expires : BitVec 64}
    (hat : AtLevel tv base.timerJiffies.toNat timerJiffies) (hs : SoFar base tv expires) :
    NextExact base (nextLevels base tv.upward timerJiffies true expires) := by
  have hmax : nextTimerMaxDelta.toNat = 2 ^ 30 - 1 := rfl
  have hj := base.timerJiffies.isLt
  -- the last level
  have hlast : ∀ {timerJiffies expires}, AtLevel .tv5 base.timerJiffies.toNat timerJiffies →
      SoFar base .tv5 expires →
      NextExact base (nextLevels base Tvec.tv5.upward timerJiffies true expires) := by
    intro timerJiffies expires hat hs
    obtain ⟨h1, h2, h3⟩ := hs.slot h (by decide) rfl
    have hresult : nextLevels base Tvec.tv5.upward timerJiffies true expires
        = earliest base
          (base.lists (.tvec .tv5 (nextSlot .tv5 base.timerJiffies.toNat % 64))) expires := by
      rw [Tvec.upward, nextLevels_cons_found, hat.index (by decide)]
      dsimp only
      split <;> rfl
    rw [hresult]
    refine nextExact_of_le (h1.trans hs.cap) (fun t ht => ?_) h3
    obtain ⟨tv', i, hentry⟩ := h.entry_of_pending ht
    exact h2 t tv' i hentry (by cases tv' <;> simp [Tvec.level])
  -- a level before it
  have hstep : ∀ {tv : Tvec}, tv ≠ .tv1 → tv ≠ .tv5 →
      (∀ {timerJiffies expires}, AtLevel tv.next base.timerJiffies.toNat timerJiffies →
        SoFar base tv.next expires →
        NextExact base (nextLevels base tv.next.upward timerJiffies true expires)) →
      ∀ {timerJiffies expires}, AtLevel tv base.timerJiffies.toNat timerJiffies →
        SoFar base tv expires →
        NextExact base (nextLevels base tv.upward timerJiffies true expires) := by
    intro tv htv h5 hrest timerJiffies expires hat hs
    obtain ⟨h1, h2, h3⟩ := hs.slot h htv rfl
    have hnear := hs.near
    have hnext := nextSlot_next htv h5 base.timerJiffies.toNat
    have hunit := unit_next htv h5
    have hnextat := hat.next htv h5 hj
    rw [upward_eq h5, nextLevels_cons_found]
    dsimp only
    rw [hat.index htv] at hnextat ⊢
    generalize hexp : earliest base
      (base.lists (.tvec tv (nextSlot tv base.timerJiffies.toNat % 64))) expires = expires'
      at h1 h2 h3 ⊢
    by_cases hindex : nextSlot tv base.timerJiffies.toNat % 64 = 0
    · -- the next level has a slot that begins with this one
      rw [if_pos hindex]
      rw [if_neg (by omega)] at hnextat
      refine hrest hnextat ⟨h1.trans hs.cap, ?_, h3, ?_⟩
      · intro t tv' i ht hlevel
        refine h2 t tv' i ht ?_
        revert hlevel
        cases tv <;> cases tv' <;> simp [Tvec.level, Tvec.next] at htv h5 ⊢
      · have hmul : (nextSlot tv base.timerJiffies.toNat + 1) * tv.unit
            ≤ (nextSlot tv.next base.timerJiffies.toNat + 1) * tv.next.unit := by
          rw [hunit, ← Nat.mul_assoc]
          exact Nat.mul_le_mul_right _ (by omega)
        omega
    · -- the coarser levels begin later
      rw [if_neg hindex]
      refine nextExact_of_le (h1.trans hs.cap) (fun t ht => ?_) h3
      obtain ⟨tv', i, hentry⟩ := h.entry_of_pending ht
      by_cases hlevel : tv'.level ≤ tv.level
      · exact h2 t tv' i hentry hlevel
      · have hlow := boundary_le h htv h5 hentry hlevel
        have hmul : (nextSlot tv base.timerJiffies.toNat + 1) * tv.unit
            ≤ nextSlot tv.next base.timerJiffies.toNat * tv.next.unit := by
          rw [hunit, ← Nat.mul_assoc]
          exact Nat.mul_le_mul_right _ (by omega)
        omega
  have h4 := @hstep .tv4 (by decide) (by decide) @hlast
  have h3 := @hstep .tv3 (by decide) (by decide) @h4
  have h2 := @hstep .tv2 (by decide) (by decide) @h3
  cases tv
  case tv1 => contradiction
  case tv2 => exact h2 hat hs
  case tv3 => exact h3 hat hs
  case tv4 => exact h4 hat hs
  case tv5 => exact hlast hat hs

end Found

/-! ## With none found -/

/-- A timer further on than the limit has taken a slot of `tv5` before that of a nearer
one, with no timer on the finer levels and the nearer one under the cap. -/
def HidesNearer (base : TimerBase τ) : Prop :=
  (∀ t tv i, base.entry t = some (.tvec tv i) → tv = .tv5) ∧
    ∃ t i, base.entry t = some (.tvec .tv5 i) ∧ base.wait t < nextTimerMaxDelta.toNat ∧
      ∀ u k, base.entry u = some (.tvec .tv5 k) →
        (∀ v l, base.entry v = some (.tvec .tv5 l) →
          tv5Slot base.timerJiffies k ≤ tv5Slot base.timerJiffies l) →
        base.wait t < base.wait u

theorem not_hidesNearer {t : τ} {tv : Tvec} {i : Nat} (ht : base.entry t = some (.tvec tv i))
    (h5 : tv ≠ .tv5) : ¬ HidesNearer base := fun hhides => h5 (hhides.1 t tv i ht)

theorem tv5Slot_nextSlot (jiffies : BitVec 64) {n : Nat} (hn : n < 64) :
    tv5Slot jiffies ((nextSlot .tv5 jiffies.toNat + n) % 64)
      = nextSlot .tv5 jiffies.toNat + n := by
  simp only [tv5Slot, nextSlot, Tvec.unit]
  omega

section NotFound
variable (h : base.Ready)
include h

/-- A slot of a level before which the level is empty holds its earliest timers. -/
theorem slot_first {tv : Tvec} (htv : tv ≠ .tv1) {n : Nat}
    (hbefore : ∀ m < n, base.lists
      (.tvec tv ((nextSlot tv base.timerJiffies.toNat % 64 + m) % 64)) = [])
    {t : τ} {i : Nat} (ht : base.entry t = some (.tvec tv i)) :
    ∃ m < 64, n ≤ m ∧ i = (nextSlot tv base.timerJiffies.toNat % 64 + m) % 64 ∧
      i = (nextSlot tv base.timerJiffies.toNat + m) % 64 ∧
      (nextSlot tv base.timerJiffies.toNat + m) * tv.unit
        ≤ base.timerJiffies.toNat + base.wait t ∧
      (tv ≠ .tv5 → base.timerJiffies.toNat + base.wait t
        < (nextSlot tv base.timerJiffies.toNat + m + 1) * tv.unit) := by
  obtain ⟨m, hm, hi, hlow, hhigh⟩ := h.slot htv ht
  have hi' : i = (nextSlot tv base.timerJiffies.toNat % 64 + m) % 64 := by omega
  refine ⟨m, hm, ?_, hi', hi, hlow, hhigh⟩
  by_contra hlt
  have hmem := (h.placed.linked.mem _ _).2 ht
  rw [hi', hbefore m (by omega)] at hmem
  cases hmem

/-- The first timers of the level before `tv5` on which there are any are found. -/
theorem nextLevels_first {tv : Tvec} (htv : tv ≠ .tv1) (h5 : tv ≠ .tv5)
    {timerJiffies expires : BitVec 64}
    (hat : AtLevel tv base.timerJiffies.toNat timerJiffies)
    (hcap : ahead base.timerJiffies expires = nextTimerMaxDelta.toNat)
    (hfiner : ∀ t tv' i, base.entry t = some (.tvec tv' i) → tv.level ≤ tv'.level) {n : Nat}
    (hn : n < 64)
    (hbefore : ∀ m < n, base.lists
      (.tvec tv ((nextSlot tv base.timerJiffies.toNat % 64 + m) % 64)) = [])
    (hne : base.lists (.tvec tv ((nextSlot tv base.timerJiffies.toNat % 64 + n) % 64)) ≠ []) :
    NextExact base
      (let expires := earliest base
          (base.lists (.tvec tv ((nextSlot tv base.timerJiffies.toNat % 64 + n) % 64))) expires
        if timerJiffies.toNat &&& tvnMask = 0 ∨ 64 ≤ (timerJiffies.toNat &&& tvnMask) + n then
          nextLevels base tv.next.upward
            ((if timerJiffies.toNat &&& tvnMask ≠ 0
              then timerJiffies + BitVec.ofNat 64 (tvnSize - (timerJiffies.toNat &&& tvnMask))
              else timerJiffies) >>> tvnBits) true expires
        else expires) := by
  have hmax : nextTimerMaxDelta.toNat = 2 ^ 30 - 1 := rfl
  have hnextat := hat.next htv h5 base.timerJiffies.isLt
  have hnext := nextSlot_next htv h5 base.timerJiffies.toNat
  have hunit := unit_next htv h5
  dsimp only
  rw [hat.index htv] at hnextat ⊢
  obtain ⟨h1, h2, h3⟩ := earliest_ahead
    (h.onTime htv ((nextSlot tv base.timerJiffies.toNat % 64 + n) % 64))
    (show ahead base.timerJiffies expires < 2 ^ 63 by omega)
  generalize hexp : earliest base (base.lists
    (.tvec tv ((nextSlot tv base.timerJiffies.toNat % 64 + n) % 64))) expires = expires'
    at h1 h2 h3 ⊢
  rw [hcap] at h1 h3
  -- the tick found is in the slot
  have hnear : base.timerJiffies.toNat + ahead base.timerJiffies expires'
      < (nextSlot tv base.timerJiffies.toNat + n + 1) * tv.unit := by
    obtain ⟨t, ht⟩ := List.exists_mem_of_ne_nil _ hne
    have hentry := (h.placed.linked.mem _ _).1 ht
    obtain ⟨m, hm, -, hi, -, -, hhigh⟩ := slot_first h htv hbefore hentry
    obtain rfl : m = n := by omega
    have hle := h2 t ht
    have hlt := hhigh h5
    omega
  have hle : ∀ t tv' i, base.entry t = some (.tvec tv' i) → tv'.level ≤ tv.level →
      ahead base.timerJiffies expires' ≤ base.wait t := by
    intro t tv' i ht hlevel
    have hsame : tv' = tv := by
      have hlevel' := Nat.le_antisymm hlevel (hfiner t tv' i ht)
      revert hlevel'
      cases tv <;> cases tv' <;> simp [Tvec.level]
    subst hsame
    obtain ⟨m, hm, hnm, hi, -, hlow, -⟩ := slot_first h htv hbefore ht
    rcases Nat.eq_or_lt_of_le hnm with rfl | hlt
    · exact h2 t ((h.placed.linked.mem _ _).2 (hi ▸ ht))
    · have hmul : (nextSlot tv' base.timerJiffies.toNat + n + 1) * tv'.unit
          ≤ (nextSlot tv' base.timerJiffies.toNat + m) * tv'.unit :=
        Nat.mul_le_mul_right _ (by omega)
      omega
  have hatt : ahead base.timerJiffies expires' = nextTimerMaxDelta.toNat ∨
      ∃ t, timerPending base t = true ∧ ahead base.timerJiffies expires' = base.wait t := by
    rcases h3 with h3 | ⟨t, ht, h3⟩
    · exact Or.inl h3
    · exact Or.inr ⟨t, pending_of_entry ((h.placed.linked.mem _ _).1 ht), h3⟩
  by_cases hgo : nextSlot tv base.timerJiffies.toNat % 64 = 0 ∨
      64 ≤ nextSlot tv base.timerJiffies.toNat % 64 + n
  · -- behind the next boundary, or at it: the coarser levels may hold an earlier one
    rw [if_pos hgo]
    have hnext1 : tv.next ≠ .tv1 := by cases tv <;> simp [Tvec.next]
    refine nextLevels_found h hnext1 hnextat ⟨h1, ?_, hatt, ?_⟩
    · intro t tv' i ht hlevel
      refine hle t tv' i ht ?_
      revert hlevel
      cases tv <;> cases tv' <;> simp [Tvec.level, Tvec.next] at htv h5 ⊢
    · have hmul : (nextSlot tv base.timerJiffies.toNat + n + 1) * tv.unit
          ≤ (nextSlot tv.next base.timerJiffies.toNat + 1) * tv.next.unit := by
        rw [hunit, ← Nat.mul_assoc]
        exact Nat.mul_le_mul_right _ (by omega)
      omega
  · -- before the boundary
    rw [if_neg hgo]
    rw [not_or, Nat.not_le] at hgo
    refine nextExact_of_le h1 (fun t ht => ?_) hatt
    obtain ⟨tv', i, hentry⟩ := h.entry_of_pending ht
    by_cases hlevel : tv'.level ≤ tv.level
    · exact hle t tv' i hentry hlevel
    · have hlow := boundary_le h htv h5 hentry hlevel
      have hmul : (nextSlot tv base.timerJiffies.toNat + n + 1) * tv.unit
          ≤ nextSlot tv.next base.timerJiffies.toNat * tv.next.unit := by
        rw [hunit, ← Nat.mul_assoc]
        exact Nat.mul_le_mul_right _ (by omega)
      omega

/-- On `tv5` alone the search is right unless a nearer timer is hidden. -/
theorem nextLevels_tv5 {timerJiffies expires : BitVec 64}
    (hat : AtLevel .tv5 base.timerJiffies.toNat timerJiffies)
    (hcap : ahead base.timerJiffies expires = nextTimerMaxDelta.toNat)
    (hall : ∀ t tv i, base.entry t = some (.tvec tv i) → tv = .tv5) :
    NextExact base (nextLevels base [.tv5] timerJiffies false expires)
      ↔ ¬ HidesNearer base := by
  have hmax : nextTimerMaxDelta.toNat = 2 ^ 30 - 1 := rfl
  have h1 : Tvec.tv5 ≠ .tv1 := by decide
  rcases nextLevels_cons .tv5 [] timerJiffies expires with
    ⟨hresult, hempty⟩ | ⟨n, hn, hbefore, hne, hresult⟩
  · -- nothing is pending
    rw [hat.index h1] at hempty
    have hnone : ∀ t tv i, base.entry t ≠ some (.tvec tv i) := by
      intro t tv i ht
      obtain rfl := hall t tv i ht
      obtain ⟨m, hm, hi, -⟩ := h.slot h1 ht
      have hmem := (h.placed.linked.mem _ _).2 ht
      rw [hi, ← Nat.mod_add_mod, hempty m hm] at hmem
      cases hmem
    have hexact : NextExact base (nextLevels base [.tv5] timerJiffies false expires) := by
      rw [hresult]
      refine nextExact_of_le (by rw [nextLevels_nil, hcap]) (fun t ht => ?_)
        (Or.inl (by rw [nextLevels_nil, hcap]))
      obtain ⟨tv, i, hentry⟩ := h.entry_of_pending ht
      exact absurd hentry (hnone t tv i)
    refine iff_of_true hexact ?_
    rintro ⟨-, t, i, ht, -⟩
    exact hnone t .tv5 i ht
  · rw [hresult]
    dsimp only
    rw [hat.index h1] at hbefore hne ⊢
    obtain ⟨hle, hslot, hatt⟩ := earliest_ahead
      (h.onTime h1 ((nextSlot .tv5 base.timerJiffies.toNat % 64 + n) % 64))
      (show ahead base.timerJiffies expires < 2 ^ 63 by omega)
    generalize hexp : earliest base (base.lists
      (.tvec .tv5 ((nextSlot .tv5 base.timerJiffies.toNat % 64 + n) % 64))) expires = expires'
      at hle hslot hatt ⊢
    rw [hcap] at hle hatt
    have hend : (if nextSlot .tv5 base.timerJiffies.toNat % 64 = 0 ∨
        64 ≤ nextSlot .tv5 base.timerJiffies.toNat % 64 + n then
          nextLevels base []
            ((if nextSlot .tv5 base.timerJiffies.toNat % 64 ≠ 0
              then timerJiffies + BitVec.ofNat 64
                (tvnSize - nextSlot .tv5 base.timerJiffies.toNat % 64)
              else timerJiffies) >>> tvnBits) true expires'
        else expires') = expires' := by
      split
      · rw [nextLevels_nil]
      · rfl
    rw [hend]
    -- the slot that was looked at is the earliest one
    have hfirst : ∀ u k, base.entry u = some (.tvec .tv5 k) →
        ((∀ v l, base.entry v = some (.tvec .tv5 l) →
          tv5Slot base.timerJiffies k ≤ tv5Slot base.timerJiffies l) ↔
        u ∈ base.lists
          (.tvec .tv5 ((nextSlot .tv5 base.timerJiffies.toNat % 64 + n) % 64))) := by
      intro u k hu
      obtain ⟨m, hm, hnm, hk, hk', -, -⟩ := slot_first h h1 hbefore hu
      have hslot := tv5Slot_nextSlot base.timerJiffies hm
      rw [← hk'] at hslot
      constructor
      · intro hmin
        obtain ⟨t₀, ht₀⟩ := List.exists_mem_of_ne_nil _ hne
        have hentry₀ := (h.placed.linked.mem _ _).1 ht₀
        have hslot₀ := tv5Slot_nextSlot base.timerJiffies hn
        rw [← Nat.mod_add_mod] at hslot₀
        have hmin₀ := hmin t₀ _ hentry₀
        obtain rfl : m = n := by omega
        rw [h.placed.linked.mem, ← hk]
        exact hu
      · intro hmem v l hv
        obtain ⟨m', hm', hnm', -, hl', -, -⟩ := slot_first h h1 hbefore hv
        have hslot' := tv5Slot_nextSlot base.timerJiffies hm'
        rw [← hl'] at hslot'
        rw [h.placed.linked.mem, hu] at hmem
        simp only [Option.some.injEq, Place.tvec.injEq, true_and] at hmem
        omega
    have hlt : ahead base.timerJiffies expires' < 2 ^ 63 := by omega
    constructor
    · rintro hexact ⟨-, t, i, ht, hcap', hlater⟩
      unfold NextExact at hexact
      rw [fromNow_eq hlt] at hexact
      have hnear := hexact.le t (pending_of_entry ht)
      rcases hatt with hatt | ⟨u, hu, hatt⟩
      · omega
      · have hentry := (h.placed.linked.mem _ _).1 hu
        have hlt' := hlater u _ hentry ((hfirst u _ hentry).2 hu)
        omega
    · intro hhides
      refine nextExact_of_le hle (fun t ht => ?_) ?_
      · obtain ⟨tv, i, hentry⟩ := h.entry_of_pending ht
        obtain rfl := hall t tv i hentry
        by_contra hnot
        refine hhides ⟨hall, t, i, hentry, by omega, ?_⟩
        intro u k hu hmin
        have hle' := hslot u ((hfirst u k hu).1 hmin)
        omega
      · rcases hatt with hatt | ⟨t, ht, hatt⟩
        · exact Or.inl hatt
        · exact Or.inr ⟨t, pending_of_entry ((h.placed.linked.mem _ _).1 ht), hatt⟩

end NotFound

end Msock
