import Msock.Timer.Lists

/-!
# Where a timer waits

Ticks are natural numbers here: the clock stands at `j` and a timer is due at a tick
`D` no earlier. On `tv1` the slot is the last eight bits of `D`. A coarser level has 64
slots of `unit` ticks each, and holds the 64 that begin at or after `j`; a slot is
cascaded when the clock reaches its beginning, so every timer comes down in time. A
timer too far away for `tv5` waits in the slot of an earlier tick.
-/

namespace Msock

universe u v
variable {τ : Type u}

/-- The ticks a slot covers, for each level. -/
def Tvec.unit : Tvec → Nat
  | .tv1 => 1
  | .tv2 => 2 ^ 8
  | .tv3 => 2 ^ 14
  | .tv4 => 2 ^ 20
  | .tv5 => 2 ^ 26

/-- Slot `i` of a level with `unit` ticks to a slot is the one for tick `D`. -/
def InTvn (unit i j D : Nat) : Prop :=
  (j + unit - 1) / unit ≤ D / unit ∧ D / unit ≤ (j + unit - 1) / unit + 63 ∧
    i = D / unit % 64

/-- A timer due at `D` may wait in slot `i` of a level while the clock is at `j`. -/
def InSlot : Tvec → Nat → Nat → Nat → Prop
  | .tv1, i, j, D => i = D % 2 ^ 8 ∧ D ≤ j + 255
  | .tv2, i, j, D => InTvn (2 ^ 8) i j D
  | .tv3, i, j, D => InTvn (2 ^ 14) i j D
  | .tv4, i, j, D => InTvn (2 ^ 20) i j D
  | .tv5, i, j, D => ∃ D', D' ≤ D ∧ InTvn (2 ^ 26) i j D'

/-! ## Masks and shifts -/

theorem and_tvrMask (x : Nat) : x &&& tvrMask = x % 2 ^ 8 :=
  Nat.and_two_pow_sub_one_eq_mod x 8

theorem and_tvnMask (x : Nat) : x &&& tvnMask = x % 64 :=
  Nat.and_two_pow_sub_one_eq_mod x 6

theorem tvecIndex_eq (jiffies : BitVec 64) (n : Nat) :
    tvecIndex jiffies n = jiffies.toNat / 2 ^ (8 + n * 6) % 64 := by
  rw [tvecIndex, and_tvnMask, BitVec.toNat_ushiftRight, Nat.shiftRight_eq_div_pow]
  rfl

/-- How far ahead a tick is. -/
def ahead (jiffies tick : BitVec 64) : Nat := (tick - jiffies).toNat

theorem ahead_lt (jiffies tick : BitVec 64) : ahead jiffies tick < 2 ^ 64 := (tick - jiffies).isLt

/-- A tick is where it is ahead of the clock, modulo `2^64`. -/
theorem toNat_of_ahead (jiffies tick : BitVec 64) :
    tick.toNat = (jiffies.toNat + ahead jiffies tick) % 2 ^ 64 := by
  have h1 := tick.isLt
  have h2 := jiffies.isLt
  rw [ahead, BitVec.toNat_sub]
  omega

theorem ahead_self (jiffies : BitVec 64) : ahead jiffies jiffies = 0 := by
  simp [ahead]

theorem ahead_eq_zero {jiffies tick : BitVec 64} : ahead jiffies tick = 0 ↔ tick = jiffies := by
  rw [← BitVec.toNat_inj, toNat_of_ahead jiffies tick]
  have h1 := jiffies.isLt
  have h2 := ahead_lt jiffies tick
  omega

/-- The next tick is one further on. -/
theorem ahead_succ {jiffies tick : BitVec 64} (h : tick ≠ jiffies) :
    ahead (jiffies + 1) tick = ahead jiffies tick - 1 := by
  have hne : ahead jiffies tick ≠ 0 := fun h0 => h (ahead_eq_zero.1 h0)
  have h1 := jiffies.isLt
  have h2 := tick.isLt
  have hone : (1 : BitVec 64).toNat = 1 := rfl
  unfold ahead at hne ⊢
  rw [BitVec.toNat_sub] at hne ⊢
  rw [BitVec.toNat_sub, BitVec.toNat_add, hone]
  omega

theorem toInt_neg_iff (jiffies tick : BitVec 64) :
    (tick - jiffies).toInt < 0 ↔ 2 ^ 63 ≤ ahead jiffies tick := by
  rw [ahead, BitVec.toInt_eq_toNat_cond]
  have := (tick - jiffies).isLt
  split <;> omega

/-- The due tick is never in the past. -/
theorem ahead_dueTick (jiffies expires : BitVec 64) :
    ahead jiffies (dueTick jiffies expires)
      = if 2 ^ 63 ≤ ahead jiffies expires then 0 else ahead jiffies expires := by
  unfold dueTick
  simp only [toInt_neg_iff]
  split
  · exact ahead_self jiffies
  · rfl

theorem ahead_dueTick_lt (jiffies expires : BitVec 64) :
    ahead jiffies (dueTick jiffies expires) < 2 ^ 63 := by
  rw [ahead_dueTick]
  split <;> omega

/-! ## The slot that is picked -/

/-- What `__internal_add_timer` picks, by the distance. -/
theorem internalVec_eq (jiffies expires : BitVec 64) :
    internalVec jiffies expires =
      let d := ahead jiffies expires
      let e := expires.toNat
      if d < 2 ^ 8 then .tvec .tv1 (e % 2 ^ 8)
      else if d < 2 ^ 14 then .tvec .tv2 (e / 2 ^ 8 % 64)
      else if d < 2 ^ 20 then .tvec .tv3 (e / 2 ^ 14 % 64)
      else if d < 2 ^ 26 then .tvec .tv4 (e / 2 ^ 20 % 64)
      else if 2 ^ 63 ≤ d then .tvec .tv1 (jiffies.toNat % 2 ^ 8)
      else .tvec .tv5 ((jiffies.toNat + min d 0xffffffff) % 2 ^ 64 / 2 ^ 26 % 64) := by
  have hfar : (if (expires - jiffies).toNat > 0xffffffff then 0xffffffff + jiffies
      else expires).toNat
        = (jiffies.toNat + min (ahead jiffies expires) 0xffffffff) % 2 ^ 64 := by
    have hexp := toNat_of_ahead jiffies expires
    have hj := jiffies.isLt
    unfold ahead at hexp ⊢
    split
    · rename_i hgt
      have hmax : (0xffffffff : BitVec 64).toNat = 0xffffffff := rfl
      rw [min_eq_right (by omega), BitVec.toNat_add, hmax]
      omega
    · rename_i hgt
      rw [min_eq_left (by omega)]
      exact hexp
  unfold internalVec
  simp only [toInt_neg_iff, and_tvrMask, and_tvnMask, BitVec.toNat_ushiftRight,
    Nat.shiftRight_eq_div_pow, hfar]
  rfl

/-- A timer is put where it may wait, and past the slot that is about to be cascaded. -/
theorem inSlot_internalVec {jiffies expires : BitVec 64} {tv : Tvec} {i : Nat}
    (h : internalVec jiffies expires = .tvec tv i) :
    InSlot tv i jiffies.toNat
        (jiffies.toNat + ahead jiffies (dueTick jiffies expires)) ∧
      (tv ≠ .tv1 → InSlot tv i (jiffies.toNat + 1)
        (jiffies.toNat + ahead jiffies (dueTick jiffies expires))) := by
  have he := toNat_of_ahead jiffies expires
  rw [internalVec_eq] at h
  simp only at h
  rw [ahead_dueTick]
  generalize ahead jiffies expires = d at h he ⊢
  generalize expires.toNat = e at h he
  have hj := jiffies.isLt
  generalize jiffies.toNat = j at h he hj ⊢
  split_ifs at h <;> cases h
  · rename_i hd
    rw [if_neg (by omega)]
    refine ⟨⟨?_, ?_⟩, fun hne => absurd rfl hne⟩ <;> omega
  · rw [if_neg (by omega)]
    refine ⟨⟨?_, ?_, ?_⟩, fun _ => ⟨?_, ?_, ?_⟩⟩ <;> omega
  · rw [if_neg (by omega)]
    refine ⟨⟨?_, ?_, ?_⟩, fun _ => ⟨?_, ?_, ?_⟩⟩ <;> omega
  · rw [if_neg (by omega)]
    refine ⟨⟨?_, ?_, ?_⟩, fun _ => ⟨?_, ?_, ?_⟩⟩ <;> omega
  · rename_i hneg
    rw [if_pos hneg]
    refine ⟨⟨?_, ?_⟩, fun hne => absurd rfl hne⟩ <;> omega
  · rename_i hneg
    rw [if_neg hneg]
    -- a timer that is too far away waits where one at the limit would
    have hmin : min d 0xffffffff ≤ 0xffffffff := min_le_right _ _
    have hle : min d 0xffffffff ≤ d := min_le_left _ _
    have hge : 2 ^ 26 ≤ min d 0xffffffff := by
      rw [le_min_iff]; omega
    generalize min d 0xffffffff = d' at hmin hle hge ⊢
    refine ⟨⟨j + d', by omega, ?_, ?_, ?_⟩, fun _ => ⟨j + d', by omega, ?_, ?_, ?_⟩⟩ <;> omega

/-! ## The clock moves on -/

/-- The slot that begins at the current tick, if one does. -/
def CascadeSlot (tv : Tvec) (i j : Nat) : Prop := j % tv.unit = 0 ∧ i = j / tv.unit % 64

/-- A timer in any other slot may still wait there at the next tick. -/
theorem InSlot.next {tv : Tvec} {i j D : Nat} (h : InSlot tv i j D) (htv : tv ≠ .tv1)
    (hslot : ¬ CascadeSlot tv i j) : InSlot tv i (j + 1) D := by
  unfold CascadeSlot at hslot
  cases tv
  case tv1 => exact absurd rfl htv
  case tv5 =>
      obtain ⟨D', hle, h1, h2, h3⟩ := h
      simp only [Tvec.unit] at hslot
      refine ⟨D', hle, ?_, ?_, ?_⟩ <;> omega
  all_goals
    obtain ⟨h1, h2, h3⟩ := h
    simp only [Tvec.unit] at hslot
    refine ⟨?_, ?_, ?_⟩ <;> omega

/-- Below the first slot of a coarse level nothing is due. -/
theorem InSlot.lt_of_next {tv : Tvec} {i j D : Nat} (h : InSlot tv i (j + 1) D)
    (htv : tv ≠ .tv1) : j < D := by
  cases tv
  case tv1 => exact absurd rfl htv
  case tv5 =>
      obtain ⟨D', hle, h1, h2, h3⟩ := h
      omega
  all_goals
    obtain ⟨h1, h2, h3⟩ := h
    omega

/-- Ticks are counted modulo `2^64`. -/
theorem InSlot.wrap {tv : Tvec} {i D : Nat} (h : InSlot tv i (2 ^ 64) (2 ^ 64 + D)) :
    InSlot tv i 0 D := by
  cases tv
  case tv1 =>
      obtain ⟨h1, h2⟩ := h
      exact ⟨by omega, by omega⟩
  case tv5 =>
      obtain ⟨D', hle, h1, h2, h3⟩ := h
      refine ⟨D' - 2 ^ 64, by omega, ?_, ?_, ?_⟩ <;> omega
  all_goals
    obtain ⟨h1, h2, h3⟩ := h
    refine ⟨?_, ?_, ?_⟩ <;> omega

end Msock
