import Msock.Timer.Due

/-!
# The ledger of armings

Every arming of a timer comes to one end: the timer is called back, or it is cancelled
by `timer_del` or by the next arming. Until then the timer is pending with it. Armings
are told apart by their number, so a timer that is armed again within its own callback
is not taken for the one that was called.
-/

namespace Msock

universe u v
variable {τ : Type u} {σ : Type v} [DecidableEq τ]

/-- The numbers of the armings that have ended. -/
def TimerBase.ended (base : TimerBase τ) : List Nat :=
  base.cancelled ++ base.fired.map Firing.stamp

/-- Every arming is pending or has ended, and none of them twice. -/
structure TimerBase.Ledger (base : TimerBase τ) : Prop where
  /-- A pending timer is pending with the arming of its stamp. -/
  live : ∀ t, timerPending base t = true → base.armed[base.stamp t]? = some ⟨t, base.due t⟩
  fired : ∀ f ∈ base.fired, base.armed[f.stamp]? = some ⟨f.timer, f.due⟩
  bound : ∀ k ∈ base.ended, k < base.armed.length
  once : base.ended.Nodup
  going : ∀ t, timerPending base t = true → base.stamp t ∉ base.ended
  total : ∀ k < base.armed.length, k ∈ base.ended ∨
    ∃ t, timerPending base t = true ∧ base.stamp t = k

omit [DecidableEq τ] in
theorem ledger_init (jiffies : BitVec 64) : (initTimerBase (τ := τ) jiffies).Ledger := by
  constructor <;> simp [initTimerBase, timerPending, TimerBase.ended]

omit [DecidableEq τ] in
/-- Two timers are not pending with one arming. -/
theorem TimerBase.Ledger.stamp_inj {base : TimerBase τ} (h : base.Ledger) {t t' : τ}
    (ht : timerPending base t = true) (ht' : timerPending base t' = true)
    (heq : base.stamp t = base.stamp t') : t = t' := by
  have h1 := h.live t ht
  rw [heq, h.live t' ht'] at h1
  exact (Arming.mk.inj (Option.some.inj h1)).1.symm

/-- The timer whose entry is cleared is pending no more, and the others are as before. -/
theorem pending_of_cleared {base base' : TimerBase τ} {timer : τ}
    (hentry : base'.entry = Function.update base.entry timer none) (t : τ) :
    timerPending base' t = true ↔ t ≠ timer ∧ timerPending base t = true := by
  rw [timerPending, hentry]
  by_cases ht : t = timer
  · subst ht; simp
  · rw [Function.update_of_ne ht, timerPending]; simp [ht]

/-- Unlinking a pending timer ends its arming, by a callback or without one. -/
theorem TimerBase.Ledger.unlink {base base' : TimerBase τ} (h : base.Ledger) {timer : τ}
    (hpending : timerPending base timer = true)
    (hentry : base'.entry = Function.update base.entry timer none)
    (harmed : base'.armed = base.armed) (hstamp : base'.stamp = base.stamp)
    (hdue : base'.due = base.due)
    (hended : base'.ended.Perm (base.stamp timer :: base.ended))
    (hfired : ∀ f ∈ base'.fired, f ∈ base.fired ∨
      (f.timer = timer ∧ f.due = base.due timer ∧ f.stamp = base.stamp timer)) :
    base'.Ledger := by
  have hcleared := pending_of_cleared hentry
  constructor
  case live =>
      intro t ht
      rw [harmed, hstamp, hdue]
      exact h.live t ((hcleared t).1 ht).2
  case fired =>
      intro f hf
      rw [harmed]
      rcases hfired f hf with hold | ⟨htimer, hd, hs⟩
      · exact h.fired f hold
      · rw [htimer, hd, hs]; exact h.live timer hpending
  case bound =>
      intro k hk
      rw [harmed]
      rcases List.mem_cons.1 (hended.mem_iff.1 hk) with rfl | hold
      · exact (List.getElem?_eq_some_iff.1 (h.live timer hpending)).1
      · exact h.bound k hold
  case once =>
      rw [hended.nodup_iff, List.nodup_cons]
      exact ⟨h.going timer hpending, h.once⟩
  case going =>
      intro t ht
      obtain ⟨hne, hold⟩ := (hcleared t).1 ht
      rw [hstamp, hended.mem_iff, List.mem_cons]
      rintro (heq | hmem)
      · exact hne (h.stamp_inj hold hpending heq)
      · exact h.going t hold hmem
  case total =>
      intro k hk
      rw [harmed] at hk
      rw [hended.mem_iff, List.mem_cons, hstamp]
      rcases h.total k hk with hold | ⟨t, ht, hs⟩
      · exact Or.inl (Or.inr hold)
      · by_cases hne : t = timer
        · subst hne; exact Or.inl (Or.inl hs.symm)
        · exact Or.inr ⟨t, (hcleared t).2 ⟨hne, ht⟩, hs⟩

theorem TimerBase.Ledger.timerDel {base : TimerBase τ} (h : base.Ledger) (timer : τ) :
    (timerDel base timer).Ledger := by
  by_cases hpending : timerPending base timer = true
  · refine h.unlink hpending (timerDel_entry _ _) (timerDel_armed _ _) (timerDel_stamp _ _)
      (timerDel_due _ _) ?_ (fun f hf => Or.inl (by rwa [timerDel_fired] at hf))
    rw [TimerBase.ended, timerDel_cancelled, timerDel_fired, if_pos hpending,
      List.append_assoc]
    exact List.perm_middle
  · have hnone : base.entry timer = none := by simpa [timerPending] using hpending
    simpa [Msock.timerDel, hnone] using h

/-- The callback of a pending timer ends its arming. -/
theorem TimerBase.Ledger.takeTimer {base : TimerBase τ} (h : base.Ledger) {timer : τ}
    (hpending : timerPending base timer = true) : (takeTimer base timer).Ledger := by
  refine h.unlink hpending (takeTimer_entry _ _) (takeTimer_armed _ _) (takeTimer_stamp _ _)
    (takeTimer_due _ _) ?_ ?_
  · rw [TimerBase.ended, takeTimer_cancelled, takeTimer_fired, List.map_append,
      ← List.append_assoc]
    exact List.perm_append_singleton _ _
  · intro f hf
    rw [takeTimer_fired] at hf
    rcases List.mem_append.1 hf with hold | hnew
    · exact Or.inl hold
    · rw [List.mem_singleton] at hnew
      subst hnew
      exact Or.inr ⟨rfl, rfl, rfl⟩

/-- A timer that is not pending is armed under a new number. -/
theorem TimerBase.Ledger.arm {base : TimerBase τ} (h : base.Ledger) {timer : τ}
    (hnot : timerPending base timer = false) (expires : BitVec 64) :
    (internalAddTimer (setExpires base timer expires) timer).Ledger := by
  set base' := internalAddTimer (setExpires base timer expires) timer with hbase'
  have harmed : base'.armed = base.armed ++ [⟨timer, dueTick base.timerJiffies expires⟩] := rfl
  have hstamp : base'.stamp = Function.update base.stamp timer base.armed.length := rfl
  have hdue : base'.due = Function.update base.due timer (dueTick base.timerJiffies expires) :=
    rfl
  have hended : base'.ended = base.ended := rfl
  have hself : timerPending base' timer = true := by
    simp [hbase', timerPending, internalAddTimer]
  have hother : ∀ t, t ≠ timer → timerPending base' t = timerPending base t := by
    intro t ht
    simp [hbase', timerPending, internalAddTimer, Function.update_of_ne ht]
  have hgrow : ∀ {k : Nat} {a : Arming τ}, base.armed[k]? = some a → base'.armed[k]? = some a := by
    intro k a ha
    rw [harmed, List.getElem?_append_left (List.getElem?_eq_some_iff.1 ha).1]
    exact ha
  constructor
  case live =>
      intro t ht
      by_cases hne : t = timer
      · subst hne
        rw [harmed, hstamp, hdue, Function.update_self, Function.update_self]
        exact List.getElem?_concat_length
      · rw [hstamp, hdue, Function.update_of_ne hne, Function.update_of_ne hne]
        rw [hother t hne] at ht
        exact hgrow (h.live t ht)
  case fired => exact fun f hf => hgrow (h.fired f hf)
  case bound =>
      intro k hk
      rw [harmed, List.length_append]
      exact Nat.lt_add_right _ (h.bound k (hended ▸ hk))
  case once => rw [hended]; exact h.once
  case going =>
      intro t ht hmem
      rw [hended] at hmem
      by_cases hne : t = timer
      · subst hne
        rw [hstamp, Function.update_self] at hmem
        exact absurd (h.bound _ hmem) (lt_irrefl _)
      · rw [hother t hne] at ht
        rw [hstamp, Function.update_of_ne hne] at hmem
        exact h.going t ht hmem
  case total =>
      intro k hk
      rw [harmed, List.length_append, List.length_singleton] at hk
      rw [hended, hstamp]
      rcases Nat.lt_succ_iff_lt_or_eq.1 hk with hold | rfl
      · rcases h.total k hold with hend | ⟨t, ht, hs⟩
        · exact Or.inl hend
        · have hne : t ≠ timer := by
            rintro rfl
            rw [hnot] at ht
            cases ht
          exact Or.inr ⟨t, by rw [hother t hne, ht], by rw [Function.update_of_ne hne, hs]⟩
      · exact Or.inr ⟨timer, hself, by rw [Function.update_self]⟩

theorem TimerBase.Ledger.timerMod {base : TimerBase τ} (h : base.Ledger) (timer : τ)
    (expires : BitVec 64) : (timerMod base timer expires).Ledger := by
  rw [timerMod_eq]
  refine (h.timerDel timer).arm ?_ expires
  simp [timerPending]

theorem TimerOps.ledger {base base' : TimerBase τ} (hr : TimerOps base base')
    (h : base.Ledger) : base'.Ledger :=
  hr.invariant (fun _ t hb => hb.timerDel t) (fun _ t e hb => hb.timerMod t e) h

omit [DecidableEq τ] in
/-- Starting a tick arms nothing and ends nothing. -/
theorem TickStarted.ledger {base base' : TimerBase τ} (hs : TickStarted base base')
    (h : base.Ledger) : base'.Ledger := by
  have hended : base'.ended = base.ended := by
    rw [TimerBase.ended, TimerBase.ended, hs.cancelled, hs.fired]
  constructor
  case live =>
      intro t ht
      rw [hs.armed, hs.stamp, hs.due]
      exact h.live t (hs.pending t ▸ ht)
  case fired => rw [hs.armed, hs.fired]; exact h.fired
  case bound => rw [hs.armed, hended]; exact h.bound
  case once => rw [hended]; exact h.once
  case going =>
      intro t ht
      rw [hs.stamp, hended]
      exact h.going t (hs.pending t ▸ ht)
  case total =>
      intro k hk
      rw [hs.armed] at hk
      simp only [hended, hs.pending, hs.stamp]
      exact h.total k hk

/-! ## History only grows -/

/-- Nothing is struck from the history. -/
structure TimerBase.Extends (base base' : TimerBase τ) : Prop where
  armed : base.armed <+: base'.armed
  cancelled : base.cancelled <+: base'.cancelled
  fired : base.fired <+: base'.fired

omit [DecidableEq τ] in
theorem TimerBase.Extends.refl (base : TimerBase τ) : base.Extends base :=
  ⟨List.prefix_rfl, List.prefix_rfl, List.prefix_rfl⟩

omit [DecidableEq τ] in
theorem TimerBase.Extends.trans {a b c : TimerBase τ} (h₁ : a.Extends b) (h₂ : b.Extends c) :
    a.Extends c :=
  ⟨h₁.armed.trans h₂.armed, h₁.cancelled.trans h₂.cancelled, h₁.fired.trans h₂.fired⟩

omit [DecidableEq τ] in
/-- An arming is never taken from the record. -/
theorem TimerBase.Extends.arming {base base' : TimerBase τ} (h : base.Extends base') {k : Nat}
    {a : Arming τ} (ha : base.armed[k]? = some a) : base'.armed[k]? = some a := by
  obtain ⟨rest, hrest⟩ := h.armed
  rw [← hrest, List.getElem?_append_left (List.getElem?_eq_some_iff.1 ha).1]
  exact ha

/-- The operations of a callback call nothing back. -/
theorem TimerOps.history {base base' : TimerBase τ} (hr : TimerOps base base') :
    base.Extends base' ∧ base'.fired = base.fired := by
  refine hr.invariant (P := fun b => base.Extends b ∧ b.fired = base.fired) ?_ ?_
    ⟨TimerBase.Extends.refl base, rfl⟩
  · rintro b t ⟨hb, hf⟩
    refine ⟨hb.trans ⟨?_, ?_, ?_⟩, by rw [timerDel_fired, hf]⟩
    · rw [timerDel_armed]
    · rw [timerDel_cancelled]; exact List.prefix_append _ _
    · rw [timerDel_fired]
  · rintro b t e ⟨hb, hf⟩
    refine ⟨hb.trans ⟨?_, ?_, ?_⟩, by rw [timerMod_fired, hf]⟩
    · rw [timerMod_armed]; exact List.prefix_append _ _
    · rw [timerMod_cancelled]; exact List.prefix_append _ _
    · rw [timerMod_fired]

omit [DecidableEq τ] in
theorem TickStarted.extends {base base' : TimerBase τ} (hs : TickStarted base base') :
    base.Extends base' := by
  refine ⟨?_, ?_, ?_⟩
  · rw [hs.armed]
  · rw [hs.cancelled]
  · rw [hs.fired]

theorem extends_takeTimer (base : TimerBase τ) (timer : τ) :
    base.Extends (takeTimer base timer) := by
  refine ⟨?_, ?_, ?_⟩
  · rw [takeTimer_armed]
  · rw [takeTimer_cancelled]
  · rw [takeTimer_fired]; exact List.prefix_append _ _

end Msock
