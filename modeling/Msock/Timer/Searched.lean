import Msock.Timer.Fifo

/-!
# What the search compares

Which timers `timer_next_interrupt` looks at does not depend on what it has found, only on
the clock and on which slots are empty. So the search is one walk over a list of timers
with the earliest so far in hand, and it is defined exactly if each timer of that list is
set less than `2^63` from the earliest before it.
-/

namespace Msock

universe u
variable {τ : Type u}

/-- The slot at which the loop over a level stops, from `slot` on; none if it comes round. -/
def searchedSlot (base : TimerBase τ) (tv : Tvec) (index : Nat) : Nat → Nat → Bool → Option Nat
  | 0, _, _ => none
  | fuel + 1, slot, found =>
      if found || !(base.lists (.tvec tv slot)).isEmpty then some slot
      else
        let slot := (slot + 1) &&& tvnMask
        if slot ≠ index then searchedSlot base tv index fuel slot false else none

/-- The timers of these levels that are looked at. -/
def searched (base : TimerBase τ) : List Tvec → BitVec 64 → Bool → List τ
  | [], _, _ => []
  | tv :: varray, timerJiffies, found =>
      let index := timerJiffies.toNat &&& tvnMask
      let next :=
        (if index ≠ 0 then timerJiffies + BitVec.ofNat 64 (tvnSize - index) else timerJiffies)
          >>> tvnBits
      match searchedSlot base tv index tvnSize index found with
      | none => searched base varray next found
      | some slot =>
          base.lists (.tvec tv slot) ++
            if index = 0 ∨ slot < index then searched base varray next true else []

/-- The `timer_jiffies` of the search when it gets to `tv2`. -/
def cascadeJiffies (base : TimerBase τ) : BitVec 64 :=
  let index := base.timerJiffies.toNat &&& tvrMask
  (if index ≠ 0 then base.timerJiffies + BitVec.ofNat 64 (tvrSize - index)
    else base.timerJiffies) >>> tvrBits

/-- The tick the search has in hand when it gets to `tv2`, or returns before it, and the
timers it compares with that. -/
def searchedFrom (base : TimerBase τ) : BitVec 64 × List τ :=
  let index := base.timerJiffies.toNat &&& tvrMask
  match scanTv1 base index tvrSize index with
  | some (slot, nte) =>
      (base.expires nte, if index = 0 ∨ slot < index then
        searched base [.tv2, .tv3, .tv4, .tv5] (cascadeJiffies base) true else [])
  | none =>
      (base.timerJiffies + nextTimerMaxDelta,
        searched base [.tv2, .tv3, .tv4, .tv5] (cascadeJiffies base) false)

/-- Each timer is set less than `2^63` from the earliest before it, as `long`s. -/
def comparisonsFit (base : TimerBase τ) : List τ → BitVec 64 → Bool
  | [], _ => true
  | nte :: timers, expires =>
      !(base.expires nte).ssubOverflow expires &&
        comparisonsFit base timers
          (if (base.expires nte).toInt < expires.toInt then base.expires nte else expires)

/-- No comparison of the search overflows. -/
def SearchFits (base : TimerBase τ) : Prop :=
  comparisonsFit base (searchedFrom base).2 (searchedFrom base).1 = true

instance (base : TimerBase τ) : Decidable (SearchFits base) :=
  inferInstanceAs (Decidable (_ = true))

/-- The earliest of `expires` and the expiries of some timers, on a clock that goes round. -/
def earliest (base : TimerBase τ) (timers : List τ) (expires : BitVec 64) : BitVec 64 :=
  timers.foldl (fun expires nte =>
    if 2 ^ 63 ≤ ahead expires (base.expires nte) then base.expires nte else expires) expires

variable {base : TimerBase τ}

theorem earliest_cons (nte : τ) (timers : List τ) (expires : BitVec 64) :
    earliest base (nte :: timers) expires
      = earliest base timers (if 2 ^ 63 ≤ ahead expires (base.expires nte)
        then base.expires nte else expires) := rfl

/-! ## One walk -/

theorem slotExpires_append (a b : List τ) (expires : BitVec 64) :
    slotExpires base (a ++ b) expires
      = (slotExpires base a expires).bind (slotExpires base b) := by
  induction a generalizing expires with
  | nil => rfl
  | cons nte rest ih =>
      rw [List.cons_append, slotExpires, slotExpires]
      split
      · rfl
      · exact ih _
      · exact ih _

/-- The loop over a level compares the timers of the slot it stops at. -/
theorem scanTvec_eq (tv : Tvec) (index fuel slot : Nat) (found : Bool) (expires : BitVec 64) :
    scanTvec base tv index fuel slot found expires
      = match searchedSlot base tv index fuel slot found with
        | none => some (.ok (found, expires))
        | some slot => (slotExpires base (base.lists (.tvec tv slot)) expires).map fun expires =>
            if index = 0 ∨ slot < index then .ok (true, expires) else .error expires := by
  induction fuel generalizing slot found with
  | zero => rfl
  | succ fuel ih =>
      rw [scanTvec, searchedSlot]
      dsimp only
      by_cases hfound : (found || !(base.lists (.tvec tv slot)).isEmpty) = true
      · rw [if_pos hfound, hfound]
        dsimp only
        cases slotExpires base (base.lists (.tvec tv slot)) expires with
        | none => rfl
        | some expires =>
            simp only [if_true, Option.map_some]
            split <;> rfl
      · -- an empty slot
        rw [if_neg hfound]
        rw [Bool.not_eq_true] at hfound
        obtain ⟨rfl, hempty⟩ : found = false ∧ base.lists (.tvec tv slot) = [] := by
          simpa using hfound
        rw [hfound, hempty, slotExpires]
        dsimp only
        rw [if_neg Bool.false_ne_true]
        split
        · exact ih _ _
        · rfl

/-- A loop that begins with a timer found stops at once. -/
theorem searchedSlot_found (tv : Tvec) (index slot : Nat) :
    searchedSlot base tv index tvnSize slot true = some slot := by
  have hsize : tvnSize = 63 + 1 := rfl
  rw [hsize, searchedSlot]
  simp

theorem scanLevels_eq (varray : List Tvec) (timerJiffies : BitVec 64) (found : Bool)
    (expires : BitVec 64) :
    scanLevels base varray timerJiffies found expires
      = slotExpires base (searched base varray timerJiffies found) expires := by
  induction varray generalizing timerJiffies found expires with
  | nil => rfl
  | cons tv varray ih =>
      rw [scanLevels, searched]
      dsimp only
      rw [scanTvec_eq]
      cases searchedSlot base tv (timerJiffies.toNat &&& tvnMask) tvnSize
          (timerJiffies.toNat &&& tvnMask) found with
      | none => exact ih _ _ _
      | some slot =>
          dsimp only
          rw [slotExpires_append]
          cases slotExpires base (base.lists (.tvec tv slot)) expires with
          | none => rfl
          | some expires =>
              dsimp only [Option.map, Option.bind]
              by_cases hgo : timerJiffies.toNat &&& tvnMask = 0 ∨
                  slot < timerJiffies.toNat &&& tvnMask
              · rw [if_pos hgo, if_pos hgo]
                exact ih _ _ _
              · rw [if_neg hgo, if_neg hgo]
                rfl

theorem nextCascade_eq (base : TimerBase τ) (found : Bool) (expires : BitVec 64) :
    nextCascade base found expires = slotExpires base
      (searched base [.tv2, .tv3, .tv4, .tv5] (cascadeJiffies base) found) expires :=
  scanLevels_eq _ _ _ _

/-- `timer_next_interrupt` is one walk. -/
theorem timerNextInterrupt_eq_slotExpires (base : TimerBase τ) :
    timerNextInterrupt base = slotExpires base (searchedFrom base).2 (searchedFrom base).1 := by
  unfold timerNextInterrupt searchedFrom
  dsimp only
  cases scanTv1 base (base.timerJiffies.toNat &&& tvrMask) tvrSize
      (base.timerJiffies.toNat &&& tvrMask) with
  | none => exact nextCascade_eq _ _ _
  | some found =>
      obtain ⟨slot, nte⟩ := found
      dsimp only
      split
      · exact nextCascade_eq _ _ _
      · rfl

/-! ## The comparisons -/

/-- Where it is defined, `time_before` says what lies behind on a clock that goes round. -/
theorem timeBefore_iff_ahead {a b : BitVec 64} {before : Bool} (h : timeBefore a b = some before) :
    before = true ↔ 2 ^ 63 ≤ ahead b a := by
  obtain ⟨d, hd, rfl⟩ := Option.map_eq_some_iff.1 h
  obtain ⟨-, rfl, -⟩ := toInt_longSub hd
  rw [decide_eq_true_eq, toInt_neg_iff]

/-- The walk finds the earliest, if no comparison overflows. -/
theorem slotExpires_eq (timers : List τ) (expires : BitVec 64) :
    slotExpires base timers expires
      = if comparisonsFit base timers expires = true then some (earliest base timers expires)
        else none := by
  induction timers generalizing expires with
  | nil => rfl
  | cons nte rest ih =>
      rw [slotExpires, comparisonsFit, earliest_cons]
      cases hbefore : timeBefore (base.expires nte) expires with
      | none =>
          have hover : (base.expires nte).ssubOverflow expires = true :=
            longSub_eq_none.1 (Option.map_eq_none_iff.1 hbefore)
          rw [hover]
          rfl
      | some before =>
          obtain ⟨hfits, hint⟩ := timeBefore_eq_some.1 hbefore
          have hahead := timeBefore_iff_ahead hbefore
          rw [hfits, Bool.not_false, Bool.true_and]
          cases before with
          | true =>
              rw [if_pos (hint.1 rfl), if_pos (hahead.1 rfl)]
              exact ih _
          | false =>
              rw [if_neg (fun h => Bool.false_ne_true (hint.2 h)),
                if_neg (fun h => Bool.false_ne_true (hahead.2 h))]
              exact ih _

/-- While none is before it, the tick found so far stays. -/
theorem slotExpires_of_not_before {timers : List τ} {expires : BitVec 64}
    (h : ∀ t ∈ timers, timeBefore (base.expires t) expires = some false) :
    slotExpires base timers expires = some expires := by
  induction timers with
  | nil => rfl
  | cons nte rest ih =>
      rw [slotExpires, h nte List.mem_cons_self]
      exact ih (fun t ht => h t (List.mem_cons_of_mem _ ht))

theorem earliest_append (a b : List τ) (expires : BitVec 64) :
    earliest base (a ++ b) expires = earliest base b (earliest base a expires) :=
  List.foldl_append

/-- What is found is the tick to begin with or the expiry of one of the timers. -/
theorem earliest_mem (timers : List τ) (expires : BitVec 64) :
    earliest base timers expires = expires ∨
      ∃ t ∈ timers, earliest base timers expires = base.expires t := by
  induction timers generalizing expires with
  | nil => exact Or.inl rfl
  | cons nte rest ih =>
      rw [earliest_cons]
      rcases ih (if 2 ^ 63 ≤ ahead expires (base.expires nte)
        then base.expires nte else expires) with h | ⟨t, ht, h⟩
      · rw [h]
        split
        · exact Or.inr ⟨nte, List.mem_cons_self, rfl⟩
        · exact Or.inl rfl
      · exact Or.inr ⟨t, List.mem_cons_of_mem _ ht, h⟩

/-- The timers that are looked at are on the wheel. -/
theorem mem_of_searched {t : τ} {varray : List Tvec} {timerJiffies : BitVec 64} {found : Bool}
    (h : t ∈ searched base varray timerJiffies found) :
    ∃ tv slot, t ∈ base.lists (.tvec tv slot) := by
  induction varray generalizing timerJiffies found with
  | nil => cases h
  | cons tv varray ih =>
      rw [searched] at h
      split at h
      · exact ih h
      · rename_i slot _
        rcases List.mem_append.1 h with h | h
        · exact ⟨tv, slot, h⟩
        · split at h
          · exact ih h
          · cases h

/-- What the search finds on a clock that goes round. -/
def nextOf (base : TimerBase τ) : BitVec 64 :=
  earliest base (searchedFrom base).2 (searchedFrom base).1

/-- `timer_next_interrupt` answers that, exactly if no comparison overflows. -/
theorem timerNextInterrupt_eq_some {r : BitVec 64} :
    timerNextInterrupt base = some r ↔ SearchFits base ∧ r = nextOf base := by
  rw [timerNextInterrupt_eq_slotExpires, slotExpires_eq]
  split
  · rename_i hfits
    rw [Option.some.injEq, eq_comm]
    exact (and_iff_right hfits).symm
  · rename_i hnot
    exact iff_of_false (Option.some_ne_none _).symm (fun h => hnot h.1)

/-! ## The levels of the search -/

/-- What the search finds on these levels. -/
def nextLevels (base : TimerBase τ) (varray : List Tvec) (timerJiffies : BitVec 64)
    (found : Bool) (expires : BitVec 64) : BitVec 64 :=
  earliest base (searched base varray timerJiffies found) expires

theorem nextLevels_nil (timerJiffies : BitVec 64) (found : Bool) (expires : BitVec 64) :
    nextLevels base [] timerJiffies found expires = expires := rfl

/-- With a timer found before, the next slot of a level is looked at, and the next level if
its slot begins with that. -/
theorem searched_cons_found (tv : Tvec) (varray : List Tvec) (timerJiffies : BitVec 64) :
    searched base (tv :: varray) timerJiffies true
      = base.lists (.tvec tv (timerJiffies.toNat &&& tvnMask)) ++
        if timerJiffies.toNat &&& tvnMask = 0 then
          searched base varray (timerJiffies >>> tvnBits) true else [] := by
  rw [searched, searchedSlot_found]
  dsimp only
  by_cases hindex : timerJiffies.toNat &&& tvnMask = 0
  · rw [if_pos (Or.inl hindex), if_pos hindex, if_neg (not_not.2 hindex)]
  · rw [if_neg (by omega), if_neg hindex]

/-- One level of the search, with a timer found before. -/
theorem nextLevels_cons_found (tv : Tvec) (varray : List Tvec) (timerJiffies expires : BitVec 64) :
    nextLevels base (tv :: varray) timerJiffies true expires
      = (let index := timerJiffies.toNat &&& tvnMask
        let expires := earliest base (base.lists (.tvec tv index)) expires
        if index = 0 then nextLevels base varray (timerJiffies >>> tvnBits) true expires
        else expires) := by
  unfold nextLevels
  rw [searched_cons_found, earliest_append]
  dsimp only
  split <;> rfl

/-- The first slot of a level with a timer on it. -/
theorem searchedSlot_cases (tv : Tvec) {index : Nat} (hindex : index < 64)
    (fuel k : Nat) (hk : k + fuel = 64) (hpos : fuel ≠ 0) :
    (searchedSlot base tv index fuel ((index + k) % 64) false = none ∧
      ∀ n, k ≤ n → n < 64 → base.lists (.tvec tv ((index + n) % 64)) = []) ∨
    ∃ n, k ≤ n ∧ n < 64 ∧ (∀ m, k ≤ m → m < n → base.lists (.tvec tv ((index + m) % 64)) = []) ∧
      base.lists (.tvec tv ((index + n) % 64)) ≠ [] ∧
      searchedSlot base tv index fuel ((index + k) % 64) false = some ((index + n) % 64) := by
  induction fuel generalizing k with
  | zero => exact absurd rfl hpos
  | succ fuel ih =>
      rw [searchedSlot]
      by_cases hslot : base.lists (.tvec tv ((index + k) % 64)) = []
      · have hnext : ((index + k) % 64 + 1) &&& tvnMask = (index + (k + 1)) % 64 := by
          rw [and_tvnMask]; omega
        simp only [hslot, List.isEmpty_nil, Bool.not_true, Bool.or_false, hnext]
        rw [if_neg (by simp)]
        by_cases hlast : fuel = 0
        · -- the last slot
          rw [if_neg (by omega)]
          refine Or.inl ⟨rfl, fun n h1 h2 => ?_⟩
          obtain rfl : n = k := by omega
          exact hslot
        · rw [if_pos (by omega)]
          rcases ih (k + 1) (by omega) hlast with ⟨hnone, hall⟩ | ⟨n, h1, h2, hbefore, hfound⟩
          · refine Or.inl ⟨hnone, fun n h1 h2 => ?_⟩
            rcases Nat.eq_or_lt_of_le h1 with rfl | hlt
            · exact hslot
            · exact hall n hlt h2
          · refine Or.inr ⟨n, by omega, h2, fun m h3 h4 => ?_, hfound⟩
            rcases Nat.eq_or_lt_of_le h3 with rfl | hlt
            · exact hslot
            · exact hbefore m hlt h4
      · refine Or.inr ⟨k, le_rfl, by omega, fun m h1 h2 => absurd h1 (by omega), hslot, ?_⟩
        rw [if_pos (by simpa using hslot)]

/-- One level of the search with no timer found before. -/
theorem nextLevels_cons (tv : Tvec) (varray : List Tvec) (timerJiffies expires : BitVec 64) :
    (nextLevels base (tv :: varray) timerJiffies false expires
        = nextLevels base varray
          ((if timerJiffies.toNat &&& tvnMask ≠ 0
            then timerJiffies + BitVec.ofNat 64 (tvnSize - (timerJiffies.toNat &&& tvnMask))
            else timerJiffies) >>> tvnBits) false expires ∧
      ∀ n < 64, base.lists (.tvec tv (((timerJiffies.toNat &&& tvnMask) + n) % 64)) = []) ∨
    ∃ n < 64,
      (∀ m < n, base.lists (.tvec tv (((timerJiffies.toNat &&& tvnMask) + m) % 64)) = []) ∧
      base.lists (.tvec tv (((timerJiffies.toNat &&& tvnMask) + n) % 64)) ≠ [] ∧
      nextLevels base (tv :: varray) timerJiffies false expires
        = (let expires := earliest base
            (base.lists (.tvec tv (((timerJiffies.toNat &&& tvnMask) + n) % 64))) expires
          if timerJiffies.toNat &&& tvnMask = 0 ∨ 64 ≤ (timerJiffies.toNat &&& tvnMask) + n then
            nextLevels base varray
              ((if timerJiffies.toNat &&& tvnMask ≠ 0
                then timerJiffies + BitVec.ofNat 64 (tvnSize - (timerJiffies.toNat &&& tvnMask))
                else timerJiffies) >>> tvnBits) true expires
          else expires) := by
  have hindex : timerJiffies.toNat &&& tvnMask < 64 := by
    rw [and_tvnMask]
    exact Nat.mod_lt _ (by omega)
  rcases searchedSlot_cases tv hindex tvnSize 0 (by decide) (by decide) with
    ⟨hnone, hempty⟩ | ⟨n, -, hn, hbefore, hne, hslot⟩
  · left
    rw [Nat.add_zero, Nat.mod_eq_of_lt hindex] at hnone
    refine ⟨?_, fun n hn => hempty n (Nat.zero_le n) hn⟩
    unfold nextLevels
    rw [searched, hnone]
  · right
    rw [Nat.add_zero, Nat.mod_eq_of_lt hindex] at hslot
    refine ⟨n, hn, fun m hm => hbefore m (Nat.zero_le m) hm, hne, ?_⟩
    unfold nextLevels
    rw [searched, hslot]
    dsimp only
    rw [earliest_append]
    by_cases hgo : timerJiffies.toNat &&& tvnMask = 0 ∨
        64 ≤ (timerJiffies.toNat &&& tvnMask) + n
    · rw [if_pos hgo, if_pos (by omega)]
    · rw [if_neg hgo, if_neg (by omega)]
      rfl

end Msock
