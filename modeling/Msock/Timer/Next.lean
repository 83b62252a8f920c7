import Msock.Timer.Search

/-!
# When the next interrupt is exact

`timer_next_interrupt` answers the earliest due tick, up to its cap, but for three kinds of
wheel. A comparison may overflow. A timer that was further away than `tv5` reaches waits
in a slot that is not that of its expiry, and may be found there instead of a nearer one.
And the expiry of a timer armed in the past is compared as it is: one far enough ahead of
it counts as before it.
-/

namespace Msock

open Lib

universe u v
variable {τ : Type u} {σ : Type v}

/-- The timers that the cascades of this tick move, level by level. -/
def cascadeList (base : TimerBase τ) : List τ :=
  let jiffies := base.timerJiffies
  base.lists (.tvec .tv2 (tvecIndex jiffies 0)) ++
    if tvecIndex jiffies 0 ≠ 0 then [] else
    base.lists (.tvec .tv3 (tvecIndex jiffies 1)) ++
      if tvecIndex jiffies 1 ≠ 0 then [] else
      base.lists (.tvec .tv4 (tvecIndex jiffies 2)) ++
        if tvecIndex jiffies 2 ≠ 0 then [] else base.lists (.tvec .tv5 (tvecIndex jiffies 3))

/-- With a cascade pending at this tick, the first timer of the tick was armed in the past,
and the first of those to be cascaded that is set `2^63` ticks or more after it is neither
due now nor followed by one that is. -/
def OvertakesOverdue (base : TimerBase τ) : Prop :=
  base.timerJiffies.toNat % 256 = 0 ∧ ∃ nte rest, base.lists (.tvec .tv1 0) = nte :: rest ∧
    2 ^ 63 ≤ ahead base.timerJiffies (base.expires nte) ∧
    ∃ before f after, cascadeList base = before ++ f :: after ∧
      (∀ g ∈ before, ¬ 2 ^ 63 ≤ ahead (base.expires nte) (base.expires g)) ∧
      2 ^ 63 ≤ ahead (base.expires nte) (base.expires f) ∧
      ∀ g ∈ f :: after, base.expires g ≠ base.timerJiffies

variable {base : TimerBase τ}

/-! ## Cascades that are pending -/

/-- While none is that far after it, the tick found so far stays. -/
theorem earliest_of_not_behind {timers : List τ} {expires : BitVec 64}
    (h : ∀ t ∈ timers, ¬ 2 ^ 63 ≤ ahead expires (base.expires t)) :
    earliest base timers expires = expires := by
  induction timers with
  | nil => rfl
  | cons nte rest ih =>
      rw [earliest_cons, if_neg (h nte List.mem_cons_self)]
      exact ih (fun t ht => h t (List.mem_cons_of_mem _ ht))

/-- At a slot's beginning it is the next one. -/
theorem nextSlot_now {tv : Tvec} {j : Nat} (h : j % tv.unit = 0) :
    nextSlot tv j = j / tv.unit := by
  have hpos : 0 < tv.unit := by cases tv <;> decide
  rw [nextSlot]
  obtain ⟨q, rfl⟩ := Nat.dvd_of_mod_eq_zero h
  rw [Nat.mul_div_cancel_left _ hpos, Nat.add_sub_assoc (by omega), Nat.mul_add_div hpos,
    Nat.div_eq_of_lt (by omega), Nat.add_zero]

/-- With a cascade pending at this tick and a timer found, the search takes in what the
cascades would move. -/
theorem searched_cascadeList {timerJiffies : BitVec 64}
    (hat : AtLevel .tv2 base.timerJiffies.toNat timerJiffies)
    (hnow : base.timerJiffies.toNat % 256 = 0) :
    searched base [.tv2, .tv3, .tv4, .tv5] timerJiffies true = cascadeList base := by
  have hindex : ∀ n, tvecIndex base.timerJiffies n
      = base.timerJiffies.toNat / 2 ^ (8 + n * 6) % 64 := tvecIndex_eq base.timerJiffies
  have hj := base.timerJiffies.isLt
  unfold cascadeList
  dsimp only
  rw [hindex 0, hindex 1, hindex 2, hindex 3]
  -- the level `tv2`
  have hslot2 : nextSlot .tv2 base.timerJiffies.toNat = base.timerJiffies.toNat / 2 ^ 8 :=
    nextSlot_now hnow
  rw [searched_cons_found, hat.index (by decide), hslot2]
  by_cases h2 : base.timerJiffies.toNat / 2 ^ 8 % 64 = 0
  case neg => rw [if_neg h2, if_pos h2]
  rw [if_pos h2, if_neg (not_not.2 h2)]
  have hat3 := hat.next (by decide) (by decide) hj
  rw [hat.index (by decide), hslot2, if_neg (not_not.2 h2)] at hat3
  -- the level `tv3`
  have hslot3 : nextSlot .tv3 base.timerJiffies.toNat = base.timerJiffies.toNat / 2 ^ 14 :=
    nextSlot_now (by simp only [Tvec.unit]; omega)
  rw [searched_cons_found, hat3.index (by decide)]
  simp only [Tvec.next, hslot3]
  by_cases h3 : base.timerJiffies.toNat / 2 ^ 14 % 64 = 0
  case neg => rw [if_neg h3, if_pos h3]
  rw [if_pos h3, if_neg (not_not.2 h3)]
  have hat4 := hat3.next (by decide) (by decide) hj
  simp only [hat3.index (show Tvec.tv2.next ≠ .tv1 by decide), Tvec.next, hslot3] at hat4
  rw [if_neg (not_not.2 h3)] at hat4
  -- the level `tv4`
  have hslot4 : nextSlot .tv4 base.timerJiffies.toNat = base.timerJiffies.toNat / 2 ^ 20 :=
    nextSlot_now (by simp only [Tvec.unit]; omega)
  rw [searched_cons_found, hat4.index (by decide), hslot4]
  by_cases h4 : base.timerJiffies.toNat / 2 ^ 20 % 64 = 0
  case neg => rw [if_neg h4, if_pos h4]
  rw [if_pos h4, if_neg (not_not.2 h4)]
  have hat5 := hat4.next (by decide) (by decide) hj
  rw [hat4.index (by decide), hslot4, if_neg (not_not.2 h4)] at hat5
  -- the level `tv5`
  have hslot5 : nextSlot .tv5 base.timerJiffies.toNat = base.timerJiffies.toNat / 2 ^ 26 :=
    nextSlot_now (by simp only [Tvec.unit]; omega)
  rw [searched_cons_found, hat5.index (by decide)]
  simp only [Tvec.next, hslot5]
  split
  · rw [searched, List.append_nil]
  · rw [List.append_nil]

/-! ## A timer armed in the past -/

section Ready
variable (h : base.Ready)
include h

theorem onTime_cascadeList : base.OnTime (cascadeList base) := by
  have happend : ∀ {a b : List τ}, base.OnTime a → base.OnTime b → base.OnTime (a ++ b) := by
    intro a b ha hb t ht
    rcases List.mem_append.1 ht with ht | ht
    · exact ha t ht
    · exact hb t ht
  have hnil : base.OnTime [] := fun t ht => by cases ht
  unfold cascadeList
  dsimp only
  refine happend (h.onTime (by decide) _) ?_
  split
  · exact hnil
  refine happend (h.onTime (by decide) _) ?_
  split
  · exact hnil
  refine happend (h.onTime (by decide) _) ?_
  split
  · exact hnil
  · exact h.onTime (by decide) _

/-- Which timers of `tv1` a slot holds, by how far ahead it is. -/
theorem TimerBase.Ready.tv1 {t : τ} {i : Nat} (ht : base.entry t = some (.tvec .tv1 i)) :
    base.wait t < 256 ∧ i = (base.timerJiffies.toNat % 256 + base.wait t) % 256 := by
  obtain ⟨hi, hle⟩ := h.placed.slot t .tv1 i ht
  constructor <;> omega

/-- A timer whose expiry is past is due now. -/
theorem wait_of_past {t : τ} {tv : Tvec} {i : Nat} (ht : base.entry t = some (.tvec tv i))
    (hpast : 2 ^ 63 ≤ ahead base.timerJiffies (base.expires t)) : base.wait t = 0 := by
  rcases h.placed.expires t tv i ht with hdue | ⟨-, hzero, -⟩
  · have hsoon := h.placed.soon t tv i ht
    rw [TimerBase.wait, ← hdue] at hsoon
    omega
  · exact hzero

omit h in
/-- A timer is due now, so the next tick must be now. -/
theorem nextExact_iff_of_due {t : τ} (ht : timerPending base t = true) (hzero : base.wait t = 0)
    (r : BitVec 64) : NextExact base r ↔ fromNow base r = 0 := by
  constructor
  · intro hexact
    have hle := hexact.le t ht
    omega
  · intro hr
    refine ⟨by omega, fun _ _ => by omega, Or.inr ⟨t, ht, by rw [hr, hzero]⟩⟩

/-- From the expiry of a timer armed in the past, the search goes on to a later tick if
one counts as before it. -/
theorem fromNow_cascadeList {nte : τ} {rest : List τ}
    (hnow : base.timerJiffies.toNat % 256 = 0)
    (hlist : base.lists (.tvec .tv1 0) = nte :: rest)
    (hpast : 2 ^ 63 ≤ ahead base.timerJiffies (base.expires nte)) :
    fromNow base (earliest base (cascadeList base) (base.expires nte)) = 0
      ↔ ¬ OvertakesOverdue base := by
  have honTime := onTime_cascadeList h
  cases hfind : (cascadeList base).find?
      (fun t => decide (2 ^ 63 ≤ ahead (base.expires nte) (base.expires t))) with
  | some f =>
    obtain ⟨hf, before, after, heq, hbefore⟩ := List.find?_eq_some_iff_append.1 hfind
    simp only [decide_eq_true_eq, Bool.not_eq_true', decide_eq_false_iff_not] at hf hbefore
    -- from there on the ticks are compared as they lie ahead
    have honf : base.OnTime [f] := fun t ht =>
      honTime t (by rw [heq]; simp only [List.mem_singleton] at ht; simp [ht])
    have honafter : base.OnTime after := fun t ht => honTime t (by rw [heq]; simp [ht])
    have hself : ahead base.timerJiffies (base.expires f) = base.wait f := by
      rw [(honf f (List.mem_singleton_self f)).1]; rfl
    have hwaitf := (honf f (List.mem_singleton_self f)).2
    have hvalue : earliest base (cascadeList base) (base.expires nte)
        = earliest base after (base.expires f) := by
      rw [heq, earliest_append, earliest_of_not_behind hbefore, earliest_cons, if_pos hf]
    obtain ⟨hle, hall, hatt⟩ := earliest_ahead honafter
      (show ahead base.timerJiffies (base.expires f) < 2 ^ 63 by omega)
    have hlt : ahead base.timerJiffies (earliest base after (base.expires f)) < 2 ^ 63 := by
      omega
    rw [hvalue, fromNow_eq hlt]
    have hzero : ∀ g ∈ f :: after, base.expires g = base.timerJiffies ↔ base.wait g = 0 := by
      intro g hg
      rw [(honTime g (by rw [heq]; exact List.mem_append_right _ hg)).1]
      exact ahead_eq_zero.symm
    constructor
    · rintro hr ⟨-, nte', rest', hlist', -, before', f', after', heq', hbefore', hf', hnone⟩
      obtain ⟨rfl, rfl⟩ : nte = nte' ∧ rest = rest' := by
        rw [hlist] at hlist'
        exact List.cons.inj hlist'
      -- the first is the same one
      have hsame : f :: after = f' :: after' := by
        have hsplit : before = before' := by
          rw [heq] at heq'
          rcases List.append_eq_append_iff.1 heq' with ⟨l, rfl, hl⟩ | ⟨l, rfl, hl⟩
          · cases l with
            | nil => simp
            | cons x xs =>
                obtain ⟨rfl, -⟩ := List.cons.inj hl
                exact absurd hf (hbefore' f (by simp))
          · cases l with
            | nil => simp
            | cons x xs =>
                obtain ⟨rfl, -⟩ := List.cons.inj hl
                exact absurd hf' (hbefore f' (by simp))
        rw [heq, hsplit] at heq'
        exact List.append_cancel_left heq'
      rcases hatt with hatt | ⟨g, hg, hatt⟩
      · refine hnone f (by rw [← hsame]; exact List.mem_cons_self) ?_
        rw [hzero f List.mem_cons_self]
        omega
      · refine hnone g (by rw [← hsame]; exact List.mem_cons_of_mem _ hg) ?_
        rw [hzero g (List.mem_cons_of_mem _ hg)]
        omega
    · intro hnot
      by_contra hr
      refine hnot ⟨hnow, nte, rest, hlist, hpast, before, f, after, heq, hbefore, hf, ?_⟩
      intro g hg
      rw [Ne, hzero g hg]
      rcases List.mem_cons.1 hg with rfl | hg
      · omega
      · have hleg := hall g hg
        omega
  | none =>
    have hnone : ∀ t ∈ cascadeList base,
        ¬ 2 ^ 63 ≤ ahead (base.expires nte) (base.expires t) := by
      intro t ht
      simpa using List.find?_eq_none.1 hfind t ht
    rw [earliest_of_not_behind hnone, fromNow_past hpast]
    refine iff_of_true rfl ?_
    rintro ⟨-, nte', rest', hlist', -, before', f', after', heq', -, hf', -⟩
    obtain ⟨rfl, rfl⟩ : nte = nte' ∧ rest = rest' := by
      rw [hlist] at hlist'
      exact List.cons.inj hlist'
    exact hnone f' (by rw [heq']; simp) hf'

/-! ## The whole search -/

/-- With no timer on the finer levels. -/
theorem nextLevels_none {tv : Tvec} (htv : tv ≠ .tv1) {timerJiffies expires : BitVec 64}
    (hat : AtLevel tv base.timerJiffies.toNat timerJiffies)
    (hcap : ahead base.timerJiffies expires = nextTimerMaxDelta.toNat)
    (hfiner : ∀ t tv' i, base.entry t = some (.tvec tv' i) → tv.level ≤ tv'.level) :
    NextExact base (nextLevels base tv.upward timerJiffies false expires)
      ↔ ¬ HidesNearer base := by
  have hj := base.timerJiffies.isLt
  have hlast : ∀ {timerJiffies}, AtLevel .tv5 base.timerJiffies.toNat timerJiffies →
      (∀ t tv' i, base.entry t = some (.tvec tv' i) → Tvec.tv5.level ≤ tv'.level) →
      (NextExact base (nextLevels base Tvec.tv5.upward timerJiffies false expires)
        ↔ ¬ HidesNearer base) := by
    intro timerJiffies hat hfiner
    refine nextLevels_tv5 h hat hcap (fun t tv i ht => ?_)
    have hlevel := hfiner t tv i ht
    revert hlevel
    cases tv <;> simp [Tvec.level]
  have hstep : ∀ {tv : Tvec}, tv ≠ .tv1 → tv ≠ .tv5 →
      (∀ {timerJiffies}, AtLevel tv.next base.timerJiffies.toNat timerJiffies →
        (∀ t tv' i, base.entry t = some (.tvec tv' i) → tv.next.level ≤ tv'.level) →
        (NextExact base (nextLevels base tv.next.upward timerJiffies false expires)
          ↔ ¬ HidesNearer base)) →
      ∀ {timerJiffies}, AtLevel tv base.timerJiffies.toNat timerJiffies →
        (∀ t tv' i, base.entry t = some (.tvec tv' i) → tv.level ≤ tv'.level) →
        (NextExact base (nextLevels base tv.upward timerJiffies false expires)
          ↔ ¬ HidesNearer base) := by
    intro tv htv h5 hrest timerJiffies hat hfiner
    rw [upward_eq h5]
    rcases nextLevels_cons tv tv.next.upward timerJiffies expires with
      ⟨hresult, hempty⟩ | ⟨n, hn, hbefore, hne, hresult⟩
    · rw [hresult]
      refine hrest (hat.next htv h5 hj) (fun t tv' i ht => ?_)
      refine level_next h5 (fun hle => ?_)
      -- the level is empty
      have hsame : tv' = tv := by
        have hlevel := Nat.le_antisymm hle (hfiner t tv' i ht)
        revert hlevel
        cases tv <;> cases tv' <;> simp [Tvec.level]
      subst hsame
      obtain ⟨m, hm, hi, -⟩ := h.slot htv ht
      have hmem := (h.placed.linked.mem _ _).2 ht
      rw [hat.index htv] at hempty
      rw [hi, ← Nat.mod_add_mod, hempty m hm] at hmem
      cases hmem
    · rw [hresult]
      have hexact := nextLevels_first h htv h5 hat hcap hfiner hn
        (by rw [← hat.index htv]; exact hbefore) (by rw [← hat.index htv]; exact hne)
      rw [← hat.index htv] at hexact
      refine iff_of_true hexact ?_
      obtain ⟨t, ht⟩ := List.exists_mem_of_ne_nil _ hne
      exact not_hidesNearer ((h.placed.linked.mem _ _).1 ht) h5
  have h4 := @hstep .tv4 (by decide) (by decide) @hlast
  have h3 := @hstep .tv3 (by decide) (by decide) @h4
  have h2 := @hstep .tv2 (by decide) (by decide) @h3
  cases tv
  case tv1 => contradiction
  case tv2 => exact h2 hat hfiner
  case tv3 => exact h3 hat hfiner
  case tv4 => exact h4 hat hfiner
  case tv5 => exact hlast hat hfiner

/-- With nothing on `tv1`. -/
theorem next_of_tv1_empty
    (hempty : ∀ n < 256, base.lists (.tvec .tv1 ((base.timerJiffies.toNat % 256 + n) % 256)) = []) :
    (NextExact base (nextLevels base [.tv2, .tv3, .tv4, .tv5] (cascadeJiffies base) false
        (base.timerJiffies + nextTimerMaxDelta))
      ↔ ¬ HidesNearer base) ∧ ¬ OvertakesOverdue base := by
  have hj := base.timerJiffies.isLt
  have hcap : ahead base.timerJiffies (base.timerJiffies + nextTimerMaxDelta)
      = nextTimerMaxDelta.toNat := by
    rw [ahead, add_sub_cancel_left]
  have hat := atLevel_tv2 base.timerJiffies
  constructor
  · refine nextLevels_none h (show Tvec.tv2 ≠ .tv1 by decide) hat hcap (fun t tv i ht => ?_)
    by_contra hlevel
    have htv : tv = .tv1 := by
      revert hlevel
      cases tv <;> simp [Tvec.level]
    subst htv
    obtain ⟨hlt, hi⟩ := h.tv1 ht
    have hmem := (h.placed.linked.mem _ _).2 ht
    rw [hi, hempty _ hlt] at hmem
    cases hmem
  · rintro ⟨hnow, nte, rest, hlist, -⟩
    have hzero := hempty 0 (by decide)
    rw [hnow, Nat.add_zero, Nat.zero_mod, hlist] at hzero
    cases hzero

/-- With a timer on `tv1`: `nte` is the first of the first slot that is not empty. -/
theorem next_of_tv1_found {n : Nat} (hn : n < 256)
    (hbefore : ∀ m < n,
      base.lists (.tvec .tv1 ((base.timerJiffies.toNat % 256 + m) % 256)) = [])
    {nte : τ} {rest : List τ}
    (hlist : base.lists (.tvec .tv1 ((base.timerJiffies.toNat % 256 + n) % 256)) = nte :: rest) :
    NextExact base
        (if base.timerJiffies.toNat % 256 = 0 ∨
            (base.timerJiffies.toNat % 256 + n) % 256 < base.timerJiffies.toNat % 256 then
          nextLevels base [.tv2, .tv3, .tv4, .tv5] (cascadeJiffies base) true (base.expires nte)
        else base.expires nte)
      ↔ ¬ OvertakesOverdue base := by
  have hmax : nextTimerMaxDelta.toNat = 2 ^ 30 - 1 := rfl
  have hentry : base.entry nte
      = some (.tvec .tv1 ((base.timerJiffies.toNat % 256 + n) % 256)) := by
    rw [← h.placed.linked.mem, hlist]
    exact List.mem_cons_self
  have hpending := pending_of_entry hentry
  have hwait : base.wait nte = n := by
    obtain ⟨hlt, hi⟩ := h.tv1 hentry
    omega
  have htv1 : ∀ t i, base.entry t = some (.tvec .tv1 i) → n ≤ base.wait t := by
    intro t i ht
    obtain ⟨hlt, hi⟩ := h.tv1 ht
    by_contra hless
    have hmem := (h.placed.linked.mem _ _).2 ht
    rw [hi, hbefore _ (by omega)] at hmem
    cases hmem
  have hcoarse : ∀ t tv i, base.entry t = some (.tvec tv i) → tv ≠ .tv1 →
      base.timerJiffies.toNat + (256 - base.timerJiffies.toNat % 256) % 256
        ≤ base.timerJiffies.toNat + base.wait t := by
    intro t tv i ht htv
    obtain ⟨m, -, -, hlow, -⟩ := h.slot htv ht
    have hbound := boundary_mono (show Tvec.tv2 ≠ .tv1 by decide)
      (show Tvec.tv2.level ≤ tv.level by cases tv <;> simp [Tvec.level] at htv ⊢)
      base.timerJiffies.toNat
    have htv2 := nextSlot_tv2 base.timerJiffies.toNat
    have hunit : Tvec.tv2.unit = 256 := rfl
    rw [hunit, htv2] at hbound
    have hmul : nextSlot tv base.timerJiffies.toNat * tv.unit
        ≤ (nextSlot tv base.timerJiffies.toNat + m) * tv.unit :=
      Nat.mul_le_mul_right _ (by omega)
    omega
  by_cases hpast : 2 ^ 63 ≤ ahead base.timerJiffies (base.expires nte)
  · -- it was armed in the past, and is due now
    have hzero := wait_of_past h hentry hpast
    obtain rfl : n = 0 := by omega
    have hslot : (base.timerJiffies.toNat % 256 + 0) % 256 = base.timerJiffies.toNat % 256 := by
      omega
    rw [nextExact_iff_of_due hpending hzero, hslot]
    by_cases hnow : base.timerJiffies.toNat % 256 = 0
    · rw [if_pos (Or.inl hnow)]
      rw [hslot, hnow] at hlist
      have hscan := searched_cascadeList (atLevel_tv2 base.timerJiffies) hnow
      rw [← fromNow_cascadeList h hnow hlist hpast, ← hscan]
      rfl
    · rw [if_neg (by omega)]
      exact iff_of_true (fromNow_past hpast) (fun hover => hnow hover.1)
  · -- it is set to its due tick
    have hexp : ahead base.timerJiffies (base.expires nte) = n := by
      rcases h.placed.expires nte _ _ hentry with hdue | ⟨-, -, hover⟩
      · rw [hdue]
        exact hwait
      · exact absurd hover hpast
    have hnotOver : ¬ OvertakesOverdue base := by
      rintro ⟨hnow, nte', rest', hlist', hpast', -⟩
      have hn0 : n = 0 := by
        by_contra hpos
        have hempty := hbefore 0 (by omega)
        rw [hnow, Nat.add_zero, Nat.zero_mod, hlist'] at hempty
        cases hempty
      subst hn0
      rw [hnow, Nat.add_zero, Nat.zero_mod, hlist'] at hlist
      rw [(List.cons.inj hlist).1] at hpast'
      exact hpast hpast'
    refine iff_of_true ?_ hnotOver
    have hatt : ahead base.timerJiffies (base.expires nte) = nextTimerMaxDelta.toNat ∨
        ∃ t, timerPending base t = true ∧
          ahead base.timerJiffies (base.expires nte) = base.wait t :=
      Or.inr ⟨nte, hpending, by rw [hexp, hwait]⟩
    split
    · -- a level may be cascaded before it
      rename_i hgo
      refine nextLevels_found h (show Tvec.tv2 ≠ .tv1 by decide)
        (atLevel_tv2 base.timerJiffies) ⟨by omega, ?_, hatt, ?_⟩
      · intro t tv' i ht hlevel
        have htv : tv' = .tv1 := by
          revert hlevel
          cases tv' <;> simp [Tvec.level]
        subst htv
        rw [hexp]
        exact htv1 t i ht
      · have htv2 := nextSlot_tv2 base.timerJiffies.toNat
        have hunit : Tvec.tv2.unit = 256 := rfl
        rw [hexp, hunit]
        omega
    · rename_i hgo
      refine nextExact_of_le (by omega) (fun t ht => ?_) hatt
      obtain ⟨tv, i, hentry'⟩ := h.entry_of_pending ht
      rw [hexp]
      by_cases htv : tv = .tv1
      · subst htv
        exact htv1 t i hentry'
      · have hlow := hcoarse t tv i hentry' htv
        omega

/-- What the search finds is exact but for the two kinds of wheel. -/
theorem nextOf_exact_iff :
    NextExact base (nextOf base) ↔ ¬ HidesNearer base ∧ ¬ OvertakesOverdue base := by
  have hindex : base.timerJiffies.toNat % 256 < 256 := Nat.mod_lt _ (by decide)
  have hmask : base.timerJiffies.toNat &&& tvrMask = base.timerJiffies.toNat % 256 :=
    and_tvrMask _
  have hcases := scanTv1_cases base hindex 256 0 rfl (by decide)
  simp only [Nat.add_zero, Nat.mod_mod, Nat.zero_le, true_implies] at hcases
  have hsize : tvrSize = 256 := rfl
  unfold nextOf searchedFrom
  dsimp only
  rw [hmask, hsize]
  rcases hcases with ⟨hscan, hempty⟩ | ⟨n, -, hn, hbefore, nte, rest, hlist, hscan⟩
  · rw [hscan]
    obtain ⟨hiff, hnot⟩ := next_of_tv1_empty h hempty
    rw [and_iff_left hnot]
    exact hiff
  · rw [hscan]
    have hentry : base.entry nte
        = some (.tvec .tv1 ((base.timerJiffies.toNat % 256 + n) % 256)) := by
      rw [← h.placed.linked.mem, hlist]
      exact List.mem_cons_self
    rw [and_iff_right (not_hidesNearer hentry (by decide)),
      ← next_of_tv1_found h hn hbefore hlist]
    dsimp only
    split <;> rfl

end Ready

/--
**Which wheels `timer_next_interrupt` is exact on.**

For every wheel made by `init_timer_base` and used in any way, what it answers is, seen
from the clock, the earliest due tick or the cap if that is nearer, exactly if no
comparison of the search overflows, no timer that was out of reach when it was put on `tv5`
hides a nearer one, and none to be cascaded now counts as before a timer armed in the past.
-/
theorem timer_next_interrupt_exact_iff [DecidableEq τ] (owner : TimerOwner σ τ)
    (callback : τ → σ → σ)
    (hops : ∀ timer s, TimerOps (owner.tbase s) (owner.tbase (callback timer s)))
    {start : BitVec 64} {s₀ s : σ} (hinit : owner.tbase s₀ = initTimerBase start)
    (hr : Runs (wheelStep owner callback) anyAct s₀ s) :
    (∃ r, timerNextInterrupt (owner.tbase s) = some r ∧ NextExact (owner.tbase s) r)
      ↔ SearchFits (owner.tbase s) ∧ ¬ HidesNearer (owner.tbase s) ∧
        ¬ OvertakesOverdue (owner.tbase s) := by
  have hready : (owner.tbase s).Ready := wheelRuns_ready hops hr (hinit ▸ ready_init start)
  rw [← nextOf_exact_iff hready]
  constructor
  · rintro ⟨r, hr, hexact⟩
    obtain ⟨hfits, rfl⟩ := timerNextInterrupt_eq_some.1 hr
    exact ⟨hfits, hexact⟩
  · rintro ⟨hfits, hexact⟩
    exact ⟨_, timerNextInterrupt_eq_some.2 ⟨hfits, rfl⟩, hexact⟩

/-- A wheel with one timer. -/
theorem timer_next_interrupt_exact_one :
    let base : TimerBase Nat := timerMod (initTimerBase 5) 1 7
    ∃ r, timerNextInterrupt base = some r ∧ NextExact base r :=
  (timer_next_interrupt_exact_iff (bareWheel Nat) (fun _ base => base)
    (fun _ _ => Relation.ReflTransGen.refl) rfl
    (Runs.single (a := WheelAct.mod 1 7) trivial rfl)).2
    ⟨by decide +kernel, not_hidesNearer (t := 1) (show (timerMod (initTimerBase 5) 1 7).entry 1
        = some (.tvec .tv1 7) by decide) (by decide),
      fun hover => absurd hover.1 (by decide)⟩

/-- No comparison overflows here: a timer 255 ticks ahead is taken for one before a timer
that was armed `2^63` ticks in the past and is due now. -/
example :
    let base := timerMod (runTick (bareWheel Nat) (fun _ base => base)
      (0, timerMod (initTimerBase (-257)) 1 (-1))).2 2 0x7fffffffffffff00
    base.timerJiffies = -256 ∧ base.wait 2 = 0 ∧ timerNextInterrupt base = some (-1) := by
  decide +kernel

/-! ## A timer that is hidden -/

section Quiet
variable [DecidableEq τ]

theorem cascade_nil {tv : Tvec} {index : Nat} (h : base.lists (.tvec tv index) = []) :
    cascade base tv index = base := by
  rw [cascade, h, List.foldl_nil]
  have hsame : Function.update base.lists (.tvec tv index) [] = base.lists := by
    rw [← h]
    exact Function.update_eq_self _ _
  rw [hsame]

/-- The cascades of a tick that would move nothing. -/
theorem cascadeTimers_quiet (h : cascadeList base = []) : cascadeTimers base = base := by
  unfold cascadeList at h
  dsimp only at h
  obtain ⟨h2, h⟩ := List.append_eq_nil_iff.1 h
  unfold cascadeTimers
  dsimp only
  split
  · rfl
  rw [cascade_nil h2]
  split
  · rfl
  rename_i hnow
  rw [if_neg hnow] at h
  obtain ⟨h3, h⟩ := List.append_eq_nil_iff.1 h
  rw [cascade_nil h3]
  split
  · rfl
  rename_i hnow
  rw [if_neg hnow] at h
  obtain ⟨h4, h⟩ := List.append_eq_nil_iff.1 h
  rw [cascade_nil h4]
  split
  · rfl
  rename_i hnow
  rw [if_neg hnow] at h
  exact cascade_nil h

/-- A tick on which nothing is cascaded or due moves the clock only. -/
theorem startTick_quiet (h : base.Idle) (hcascades : cascadeList base = [])
    (hslot : base.lists (.tvec .tv1 (base.timerJiffies.toNat &&& tvrMask)) = []) :
    startTick base = { base with timerJiffies := base.timerJiffies + 1 } := by
  have hentry : ∀ t, base.entry t
      ≠ some (.tvec .tv1 (base.timerJiffies.toNat &&& tvrMask)) := by
    intro t ht
    have hmem := (h.1.mem _ _).2 ht
    rw [hslot] at hmem
    cases hmem
  have hwork : Function.update base.lists .work [] = base.lists := by
    rw [← h.2]
    exact Function.update_eq_self _ _
  have hlists : Function.update base.lists
      (.tvec .tv1 (base.timerJiffies.toNat &&& tvrMask)) [] = base.lists := by
    rw [← hslot]
    exact Function.update_eq_self _ _
  unfold startTick replaceInit
  dsimp only
  rw [cascadeTimers_quiet hcascades]
  simp only [hslot, hwork, hlists, if_neg (hentry _)]

/-- While all timers wait in a slot of `tv5` that the clock has not come to, the ticks move
the clock only. -/
theorem iterate_runTick_quiet {callback : τ → TimerBase τ → TimerBase τ} {k : Nat}
    (h : base.Idle) (hlists : ∀ p, p ≠ .tvec .tv5 k → base.lists p = []) (n : Nat)
    (hk : base.timerJiffies.toNat + n ≤ k * 2 ^ 26) (hbound : k < 64) :
    (runTick (bareWheel τ) callback)^[n] (0, base)
      = (0, { base with timerJiffies := base.timerJiffies + BitVec.ofNat 64 n }) := by
  induction n with
  | zero => simp
  | succ n ih =>
      rw [Function.iterate_succ_apply', ih (by omega)]
      have htick : (base.timerJiffies + BitVec.ofNat 64 n).toNat = base.timerJiffies.toNat + n := by
        rw [BitVec.toNat_add, BitVec.toNat_ofNat]
        omega
      generalize hclock : base.timerJiffies + BitVec.ofNat 64 n = clock at htick
      -- the slot of `tv5` for this tick is one before
      have hquiet : cascadeList { base with timerJiffies := clock } = [] := by
        have hne : Place.tvec .tv5 (tvecIndex clock 3) ≠ .tvec .tv5 k := by
          rw [tvecIndex_eq, htick]
          intro heq
          simp only [Place.tvec.injEq, true_and] at heq
          omega
        unfold cascadeList
        dsimp only
        rw [hlists _ (by simp), hlists _ (by simp), hlists _ (by simp), hlists _ hne]
        split_ifs <;> rfl
      have hstart : startTick { base with timerJiffies := clock }
          = { base with timerJiffies := clock + 1 } := startTick_quiet
        ⟨⟨h.1.mem, h.1.nodup⟩, h.2⟩ hquiet (hlists _ (by simp))
      have hnext : base.timerJiffies + BitVec.ofNat 64 (n + 1) = clock + 1 := by
        rw [← hclock, BitVec.ofNat_add, BitVec.add_assoc]
        rfl
      rw [runTick, hnext]
      simp only [bareWheel, id, hstart, h.2, List.length_nil, runWork]

end Quiet

/-- A timer for tick `2^33` on the slot of `tv5` that comes before tick `2^32`, and the clock
in front of that slot. -/
def beforeFarSlot : TimerBase Nat :=
  { timerMod (initTimerBase 0) 1 0x200000000 with timerJiffies := 0xe0000000 }

theorem timersRun_beforeFarSlot {callback : Nat → TimerBase Nat → TimerBase Nat}
    (hops : ∀ timer base, TimerOps base (callback timer base)) :
    timersRun (bareWheel Nat) callback (timerMod (initTimerBase 0) 1 0x200000000) 0xdfffffff
      = some (0, beforeFarSlot) := by
  have hidle : (timerMod (initTimerBase 0) (1 : Nat) 0x200000000).Idle :=
    ⟨(linked_init 0).timerMod 1 0x200000000, by decide +kernel⟩
  have hlists : ∀ p, p ≠ .tvec .tv5 63 →
      (timerMod (initTimerBase 0) (1 : Nat) 0x200000000).lists p = [] :=
    fun p hp => Function.update_of_ne hp _ _
  have hfit : TicksFit ((bareWheel Nat).tbase
      (timerMod (initTimerBase 0) 1 0x200000000)).timerJiffies 0xdfffffff := by decide +kernel
  obtain ⟨ticks, -, hrun, hlen, -⟩ := timersRun_of_fit
    (show ∀ timer base, TimerOps ((bareWheel Nat).tbase base)
      ((bareWheel Nat).tbase (callback timer base)) from hops)
    (show ((bareWheel Nat).tbase (timerMod (initTimerBase 0) 1 0x200000000)).Idle from hidle) hfit
  have hcount : ticks.length = 0xe0000000 := by
    rw [hlen]
    decide +kernel
  rw [hrun, hcount, iterate_runTick_quiet hidle hlists _ (by decide +kernel) (by decide)]
  rfl

/-- With that, one for tick `2^32` is armed: the search stops at the slot and answers the cap. -/
theorem timer_next_interrupt_too_late :
    let base := timerMod beforeFarSlot 2 0x100000000
    Runs (wheelStep (bareWheel Nat) (fun _ base => base)) anyAct (initTimerBase 0) base ∧
      HidesNearer base ∧ ∃ r, timerNextInterrupt base = some r ∧ ¬ NextExact base r := by
  dsimp only
  have hentry : ∀ t p, (timerMod beforeFarSlot 2 0x100000000).entry t = some p →
      t = 2 ∧ p = .tvec .tv5 0 ∨ t = 1 ∧ p = .tvec .tv5 63 := by
    intro t p ht
    by_cases h2 : t = 2
    · subst h2
      exact Or.inl ⟨rfl, (Option.some.inj ht).symm⟩
    · by_cases h1 : t = 1
      · subst h1
        exact Or.inr ⟨rfl, (Option.some.inj ht).symm⟩
      · rw [timerMod_entry, Function.update_of_ne h2] at ht
        simp [beforeFarSlot, initTimerBase, Function.update_of_ne h1] at ht
  refine ⟨?_, ⟨?_, 2, 0, by decide +kernel, by decide +kernel, ?_⟩, ?_⟩
  · refine Relation.ReflTransGen.tail (Relation.ReflTransGen.tail (Runs.single
      (a := WheelAct.mod 1 0x200000000) trivial rfl) ⟨.run 0xdfffffff, trivial, ?_⟩)
      ⟨.mod 2 0x100000000, trivial, rfl⟩
    exact wheelStep_run.2 ⟨_, timersRun_beforeFarSlot (fun _ _ => Relation.ReflTransGen.refl), rfl⟩
  · intro t tv i ht
    rcases hentry t _ ht with ⟨-, heq⟩ | ⟨-, heq⟩
    · exact (Place.tvec.inj heq).1
    · exact (Place.tvec.inj heq).1
  · intro u k hu hmin
    rcases hentry u _ hu with ⟨rfl, heq⟩ | ⟨rfl, heq⟩
    · obtain rfl := (Place.tvec.inj heq).2
      have hle := hmin 1 63 (by decide +kernel)
      revert hle
      decide +kernel
    · decide +kernel
  · refine ⟨0x11fffffff, by decide +kernel, fun hexact => ?_⟩
    have hle := hexact.le 2 (by decide +kernel)
    revert hle
    decide +kernel

end Msock
