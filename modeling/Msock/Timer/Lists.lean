import Msock.Timer.Wheel

/-!
# The lists of the wheel

Every timer is linked into the one list its `entry` names and every list holds a
timer once. Each operation is described once by what it does to the entries and the
lists; what a callback does is a series of the operations, and none of them brings a
timer onto the work list, so the work list of a tick runs out.
-/

namespace Msock

universe u v
variable {τ : Type u} {σ : Type v} [DecidableEq τ]

/-- The entries and the lists agree. -/
structure TimerBase.Linked (base : TimerBase τ) : Prop where
  mem : ∀ timer p, timer ∈ base.lists p ↔ base.entry timer = some p
  nodup : ∀ p, (base.lists p).Nodup

omit [DecidableEq τ] in
theorem linked_init (jiffies : BitVec 64) : (initTimerBase (τ := τ) jiffies).Linked where
  mem := fun timer p => by simp [initTimerBase]
  nodup := fun p => List.nodup_nil

/-! ## What the operations change -/

section Fields
variable (base : TimerBase τ) (timer : τ) (vec : Place) (expires : BitVec 64)

@[simp] theorem listAddTail_timerJiffies :
    (listAddTail base timer vec).timerJiffies = base.timerJiffies := rfl
@[simp] theorem listAddTail_expires : (listAddTail base timer vec).expires = base.expires := rfl
@[simp] theorem listAddTail_due : (listAddTail base timer vec).due = base.due := rfl
@[simp] theorem listAddTail_armed : (listAddTail base timer vec).armed = base.armed := rfl
@[simp] theorem listAddTail_stamp : (listAddTail base timer vec).stamp = base.stamp := rfl
@[simp] theorem listAddTail_cancelled :
    (listAddTail base timer vec).cancelled = base.cancelled := rfl
@[simp] theorem listAddTail_fired : (listAddTail base timer vec).fired = base.fired := rfl
@[simp] theorem listAddTail_entry :
    (listAddTail base timer vec).entry = Function.update base.entry timer (some vec) := rfl
@[simp] theorem listAddTail_lists :
    (listAddTail base timer vec).lists
      = Function.update base.lists vec (base.lists vec ++ [timer]) := rfl

@[simp] theorem timerDel_timerJiffies :
    (timerDel base timer).timerJiffies = base.timerJiffies := by
  unfold timerDel; split <;> rfl
@[simp] theorem timerDel_expires : (timerDel base timer).expires = base.expires := by
  unfold timerDel; split <;> rfl
@[simp] theorem timerDel_due : (timerDel base timer).due = base.due := by
  unfold timerDel; split <;> rfl
@[simp] theorem timerDel_armed : (timerDel base timer).armed = base.armed := by
  unfold timerDel; split <;> rfl
@[simp] theorem timerDel_stamp : (timerDel base timer).stamp = base.stamp := by
  unfold timerDel; split <;> rfl
@[simp] theorem timerDel_fired : (timerDel base timer).fired = base.fired := by
  unfold timerDel; split <;> rfl
/-- What is unlinked while it is pending is cancelled. -/
theorem timerDel_cancelled :
    (timerDel base timer).cancelled
      = base.cancelled ++ if timerPending base timer then [base.stamp timer] else [] := by
  unfold timerDel timerPending
  split
  · rename_i h; simp [h]
  · rename_i h; simp [h]

@[simp] theorem timerDel_entry :
    (timerDel base timer).entry = Function.update base.entry timer none := by
  unfold timerDel
  split
  · rename_i h; rw [← h, Function.update_eq_self]
  · rfl

/-- Unlinking erases the timer from the list it is on and leaves the others. -/
theorem timerDel_lists (h : base.Linked) (p : Place) :
    (timerDel base timer).lists p = (base.lists p).erase timer := by
  unfold timerDel
  split
  · rename_i hnone
    rw [List.erase_of_not_mem]
    rw [h.mem, hnone]; simp
  · rename_i vec hvec
    by_cases hp : p = vec
    · subst hp; simp
    · have hnot : timer ∉ base.lists p := by
        rw [h.mem, hvec]
        exact fun e => hp (Option.some.inj e).symm
      simp [Function.update_of_ne hp, List.erase_of_not_mem hnot]

@[simp] theorem setExpires_timerJiffies :
    (setExpires base timer expires).timerJiffies = base.timerJiffies := rfl
@[simp] theorem setExpires_lists : (setExpires base timer expires).lists = base.lists := rfl
@[simp] theorem setExpires_entry : (setExpires base timer expires).entry = base.entry := rfl
@[simp] theorem setExpires_expires :
    (setExpires base timer expires).expires = Function.update base.expires timer expires := rfl
@[simp] theorem setExpires_cancelled :
    (setExpires base timer expires).cancelled = base.cancelled := rfl
@[simp] theorem setExpires_fired : (setExpires base timer expires).fired = base.fired := rfl
@[simp] theorem setExpires_armed :
    (setExpires base timer expires).armed
      = base.armed ++ [⟨timer, dueTick base.timerJiffies expires⟩] := rfl
@[simp] theorem setExpires_stamp :
    (setExpires base timer expires).stamp
      = Function.update base.stamp timer base.armed.length := rfl
@[simp] theorem setExpires_due :
    (setExpires base timer expires).due
      = Function.update base.due timer (dueTick base.timerJiffies expires) := rfl

/-- `timer_mod` unlinks the timer if it must, sets it, and links it. -/
theorem timerMod_eq :
    timerMod base timer expires
      = internalAddTimer (setExpires (timerDel base timer) timer expires) timer := by
  unfold timerMod
  by_cases h : timerPending base timer = true
  · simp [h]
  · have hnone : base.entry timer = none := by simpa [timerPending] using h
    simp [h, timerDel, hnone]

@[simp] theorem timerMod_timerJiffies :
    (timerMod base timer expires).timerJiffies = base.timerJiffies := by
  simp [timerMod_eq, internalAddTimer]
@[simp] theorem timerMod_expires :
    (timerMod base timer expires).expires = Function.update base.expires timer expires := by
  simp [timerMod_eq, internalAddTimer]
@[simp] theorem timerMod_due :
    (timerMod base timer expires).due
      = Function.update base.due timer (dueTick base.timerJiffies expires) := by
  simp [timerMod_eq, internalAddTimer]
@[simp] theorem timerMod_armed :
    (timerMod base timer expires).armed
      = base.armed ++ [⟨timer, dueTick base.timerJiffies expires⟩] := by
  simp [timerMod_eq, internalAddTimer]
@[simp] theorem timerMod_stamp :
    (timerMod base timer expires).stamp
      = Function.update base.stamp timer base.armed.length := by
  simp [timerMod_eq, internalAddTimer]
theorem timerMod_cancelled :
    (timerMod base timer expires).cancelled
      = base.cancelled ++ if timerPending base timer then [base.stamp timer] else [] := by
  simp [timerMod_eq, internalAddTimer, timerDel_cancelled]
@[simp] theorem timerMod_fired : (timerMod base timer expires).fired = base.fired := by
  simp [timerMod_eq, internalAddTimer]
@[simp] theorem timerMod_entry :
    (timerMod base timer expires).entry
      = Function.update base.entry timer (some (internalVec base.timerJiffies expires)) := by
  simp [timerMod_eq, internalAddTimer]

/-- The timer goes to the end of the list its expiry asks for. -/
theorem timerMod_lists (h : base.Linked) (p : Place) :
    (timerMod base timer expires).lists p
      = (base.lists p).erase timer
        ++ if p = internalVec base.timerJiffies expires then [timer] else [] := by
  simp only [timerMod_eq, internalAddTimer, listAddTail_lists, setExpires_lists,
    setExpires_timerJiffies, setExpires_expires, timerDel_timerJiffies, Function.update_self]
  by_cases hp : p = internalVec base.timerJiffies expires
  · subst hp
    rw [Function.update_self, timerDel_lists _ _ h, if_pos rfl]
  · rw [Function.update_of_ne hp, timerDel_lists _ _ h, if_neg hp, List.append_nil]

/-- A timer is never armed onto the work list. -/
theorem internalVec_ne_work (jiffies : BitVec 64) : internalVec jiffies expires ≠ .work := by
  unfold internalVec
  dsimp only
  split_ifs <;> simp

end Fields

/-- After a timer leaves the list it was on, the entries and lists agree. -/
theorem TimerBase.Linked.timerDel {base : TimerBase τ} (h : base.Linked) (timer : τ) :
    (timerDel base timer).Linked where
  mem := by
    intro other p
    rw [timerDel_lists _ _ h, timerDel_entry, (h.nodup p).mem_erase_iff, h.mem]
    by_cases ho : other = timer
    · subst ho; simp
    · simp [ho]
  nodup := by
    intro p
    rw [timerDel_lists _ _ h]
    exact (h.nodup p).erase timer

theorem TimerBase.Linked.timerMod {base : TimerBase τ} (h : base.Linked) (timer : τ)
    (expires : BitVec 64) : (timerMod base timer expires).Linked where
  mem := by
    intro other p
    rw [timerMod_lists _ _ _ h, timerMod_entry, List.mem_append, (h.nodup p).mem_erase_iff,
      h.mem]
    by_cases ho : other = timer
    · subst ho
      by_cases hp : p = internalVec base.timerJiffies expires
      · subst hp; simp
      · simp [hp, Ne.symm hp]
    · rw [Function.update_of_ne ho]
      split <;> simp [ho]
  nodup := by
    intro p
    rw [timerMod_lists _ _ _ h]
    split
    · rw [List.nodup_append]
      refine ⟨(h.nodup p).erase timer, List.nodup_singleton _, ?_⟩
      intro a ha b hb
      rw [List.mem_singleton] at hb
      subst hb
      exact ((h.nodup p).mem_erase_iff.1 ha).1
    · rw [List.append_nil]; exact (h.nodup p).erase timer

/-! ## Cascades -/

/-- Relinking a list of timers: each goes to the end of the list its expiry asks for,
in the order they stand. -/
theorem foldl_internalAddTimer (timers : List τ) (base : TimerBase τ) :
    timers.foldl internalAddTimer base
      = { base with
          lists := fun p => base.lists p
            ++ timers.filter (fun t => internalVec base.timerJiffies (base.expires t) = p)
          entry := fun t =>
            if t ∈ timers then some (internalVec base.timerJiffies (base.expires t))
            else base.entry t } := by
  induction timers generalizing base with
  | nil => simp
  | cons timer rest ih =>
      rw [List.foldl_cons, ih]
      simp only [internalAddTimer, listAddTail]
      congr 1
      · funext p
        by_cases hp : p = internalVec base.timerJiffies (base.expires timer)
        · rw [← hp, Function.update_self, List.filter_cons_of_pos (by simp [← hp]),
            List.append_assoc, List.singleton_append]
          rfl
        · rw [Function.update_of_ne hp, List.filter_cons_of_neg (by simpa using Ne.symm hp)]
          rfl
      · funext t
        by_cases ht : t = timer
        · subst ht; simp
        · simp [ht]

/-- `cascade`, by what it does to lists and entries. -/
theorem cascade_eq (base : TimerBase τ) (tv : Tvec) (index : Nat) :
    cascade base tv index
      = { base with
          lists := fun p => (if p = .tvec tv index then [] else base.lists p)
            ++ (base.lists (.tvec tv index)).filter
                (fun t => internalVec base.timerJiffies (base.expires t) = p)
          entry := fun t =>
            if t ∈ base.lists (.tvec tv index)
            then some (internalVec base.timerJiffies (base.expires t)) else base.entry t } := by
  rw [cascade, foldl_internalAddTimer]
  congr 1
  funext p
  by_cases hp : p = .tvec tv index
  · subst hp; simp
  · simp [hp]

/-- What a cascade leaves as it was. -/
structure SameTimers (base base' : TimerBase τ) : Prop where
  timerJiffies : base'.timerJiffies = base.timerJiffies
  expires : base'.expires = base.expires
  due : base'.due = base.due
  armed : base'.armed = base.armed
  stamp : base'.stamp = base.stamp
  cancelled : base'.cancelled = base.cancelled
  fired : base'.fired = base.fired
  pending : ∀ t, timerPending base' t = timerPending base t
  work : base'.lists .work = base.lists .work

omit [DecidableEq τ] in
theorem SameTimers.refl (base : TimerBase τ) : SameTimers base base :=
  ⟨rfl, rfl, rfl, rfl, rfl, rfl, rfl, fun _ => rfl, rfl⟩

omit [DecidableEq τ] in
theorem SameTimers.trans {a b c : TimerBase τ} (h₁ : SameTimers a b) (h₂ : SameTimers b c) :
    SameTimers a c where
  timerJiffies := h₂.timerJiffies.trans h₁.timerJiffies
  expires := h₂.expires.trans h₁.expires
  due := h₂.due.trans h₁.due
  armed := h₂.armed.trans h₁.armed
  stamp := h₂.stamp.trans h₁.stamp
  cancelled := h₂.cancelled.trans h₁.cancelled
  fired := h₂.fired.trans h₁.fired
  pending := fun t => (h₂.pending t).trans (h₁.pending t)
  work := h₂.work.trans h₁.work

theorem TimerBase.Linked.cascade {base : TimerBase τ} (h : base.Linked) (tv : Tvec)
    (index : Nat) : (cascade base tv index).Linked where
  mem := by
    intro t p
    rw [cascade_eq]
    simp only [List.mem_append, List.mem_filter, decide_eq_true_eq]
    by_cases ht : t ∈ base.lists (.tvec tv index)
    · have hentry := (h.mem _ _).1 ht
      by_cases hp : p = .tvec tv index
      · subst hp; simp [ht]
      · have hnot : t ∉ base.lists p := by
          rw [h.mem, hentry]; simpa using fun e => hp e.symm
        simp [ht, hp, hnot]
    · by_cases hp : p = .tvec tv index
      · subst hp
        simp only [ht, if_true, if_false, false_and, or_false, List.not_mem_nil, false_iff]
        rw [← h.mem]; exact ht
      · simp [ht, hp, h.mem]
  nodup := by
    intro p
    rw [cascade_eq]
    simp only
    have hslot := h.nodup (.tvec tv index)
    by_cases hp : p = .tvec tv index
    · rw [if_pos hp, List.nil_append]; exact hslot.filter _
    · rw [if_neg hp, List.nodup_append]
      refine ⟨h.nodup p, hslot.filter _, ?_⟩
      intro a ha b hb hab
      subst hab
      have h1 := (h.mem _ _).1 ha
      have h2 := (h.mem _ _).1 (List.mem_filter.1 hb).1
      rw [h1] at h2
      exact hp (Option.some.inj h2)

theorem sameTimers_cascade {base : TimerBase τ} (h : base.Linked) (tv : Tvec) (index : Nat) :
    SameTimers base (cascade base tv index) where
  timerJiffies := by rw [cascade_eq]
  expires := by rw [cascade_eq]
  due := by rw [cascade_eq]
  armed := by rw [cascade_eq]
  stamp := by rw [cascade_eq]
  cancelled := by rw [cascade_eq]
  fired := by rw [cascade_eq]
  pending := by
    intro t
    rw [cascade_eq]
    simp only [timerPending]
    split
    · rename_i ht
      rw [(h.mem _ _).1 ht]; rfl
    · rfl
  work := by
    rw [cascade_eq]
    have hnone : (base.lists (.tvec tv index)).filter
        (fun t => internalVec base.timerJiffies (base.expires t) = .work) = [] := by
      rw [List.filter_eq_nil_iff]
      intro t _
      simpa using internalVec_ne_work _ _
    simp [hnone]

/-- What holds of a wheel and is kept by every cascade holds after the cascades of a tick. -/
theorem cascadeTimers_induction {P : TimerBase τ → Prop} {base : TimerBase τ}
    (hcascade : ∀ base tv index, P base → P (cascade base tv index)) (h : P base) :
    P (cascadeTimers base) := by
  unfold cascadeTimers
  dsimp only
  split_ifs <;> repeat' first | exact h | apply hcascade

theorem linked_cascadeTimers {base : TimerBase τ} (h : base.Linked) :
    (cascadeTimers base).Linked ∧ SameTimers base (cascadeTimers base) :=
  cascadeTimers_induction (P := fun b => b.Linked ∧ SameTimers base b)
    (fun _ tv index hb =>
      ⟨hb.1.cascade tv index, hb.2.trans (sameTimers_cascade hb.1 tv index)⟩)
    ⟨h, SameTimers.refl base⟩

/-! ## One tick -/

/-- Before its callbacks a tick moves timers and the clock, nothing else. -/
structure TickStarted (base base' : TimerBase τ) : Prop where
  linked : base'.Linked
  timerJiffies : base'.timerJiffies = base.timerJiffies + 1
  expires : base'.expires = base.expires
  due : base'.due = base.due
  armed : base'.armed = base.armed
  stamp : base'.stamp = base.stamp
  cancelled : base'.cancelled = base.cancelled
  fired : base'.fired = base.fired
  pending : ∀ t, timerPending base' t = timerPending base t

omit [DecidableEq τ] in
/-- The slot of the current tick becomes the work list. -/
theorem TimerBase.Linked.replaceInit {base : TimerBase τ} (h : base.Linked)
    (hwork : base.lists .work = []) (index : Nat) : (replaceInit base index).Linked where
  mem := by
    intro t p
    simp only [Msock.replaceInit]
    by_cases hp : p = .tvec .tv1 index
    · subst hp
      simp only [Function.update_self, List.not_mem_nil, false_iff]
      split
      · simp
      · rename_i hne; exact hne
    · rw [Function.update_of_ne hp]
      by_cases hw : p = .work
      · subst hw
        rw [Function.update_self, h.mem]
        split
        · rename_i he; simp [he]
        · rename_i he
          have hnot : ¬ base.entry t = some .work := by
            rw [← h.mem, hwork]; simp
          simp [he, hnot]
      · rw [Function.update_of_ne hw, h.mem]
        split
        · rename_i he
          simp [he, Ne.symm hp, Ne.symm hw]
        · rfl
  nodup := by
    intro p
    simp only [Msock.replaceInit]
    by_cases hp : p = .tvec .tv1 index
    · subst hp; simp
    · rw [Function.update_of_ne hp]
      by_cases hw : p = .work
      · subst hw; rw [Function.update_self]; exact h.nodup _
      · rw [Function.update_of_ne hw]; exact h.nodup p

theorem tickStarted {base : TimerBase τ} (h : base.Linked) (hwork : base.lists .work = []) :
    TickStarted base (startTick base) := by
  obtain ⟨hlinked, hsame⟩ := linked_cascadeTimers h
  have hwork' := hsame.work.trans hwork
  have hnext : ({ cascadeTimers base with
      timerJiffies := (cascadeTimers base).timerJiffies + 1 } : TimerBase τ).Linked :=
    ⟨hlinked.mem, hlinked.nodup⟩
  refine ⟨hnext.replaceInit hwork' _, ?_, hsame.expires, hsame.due, hsame.armed, hsame.stamp,
    hsame.cancelled, hsame.fired, ?_⟩
  · show (cascadeTimers base).timerJiffies + 1 = _
    rw [hsame.timerJiffies]
  · intro t
    rw [← hsame.pending t]
    simp only [timerPending, startTick, replaceInit]
    split
    · rename_i he; rw [he]; rfl
    · rfl

/-! ## What a callback may do -/

/-- One operation on the wheel. -/
def TimerOp (base base' : TimerBase τ) : Prop :=
  (∃ timer, base' = timerDel base timer) ∨ ∃ timer expires, base' = timerMod base timer expires

/-- A finite series of operations. -/
abbrev TimerOps : TimerBase τ → TimerBase τ → Prop := Relation.ReflTransGen TimerOp

theorem TimerOps.del (base : TimerBase τ) (timer : τ) : TimerOps base (timerDel base timer) :=
  Relation.ReflTransGen.single (Or.inl ⟨timer, rfl⟩)

theorem TimerOps.mod (base : TimerBase τ) (timer : τ) (expires : BitVec 64) :
    TimerOps base (timerMod base timer expires) :=
  Relation.ReflTransGen.single (Or.inr ⟨timer, expires, rfl⟩)

/-- What the operations preserve, a series of them preserves. -/
theorem TimerOps.invariant {P : TimerBase τ → Prop} {base base' : TimerBase τ}
    (hr : TimerOps base base') (hdel : ∀ b t, P b → P (timerDel b t))
    (hmod : ∀ b t e, P b → P (timerMod b t e)) (h : P base) : P base' := by
  induction hr with
  | refl => exact h
  | tail _ hs ih =>
      rcases hs with ⟨t, rfl⟩ | ⟨t, e, rfl⟩
      · exact hdel _ t ih
      · exact hmod _ t e ih

theorem TimerOps.linked {base base' : TimerBase τ} (hr : TimerOps base base')
    (h : base.Linked) : base'.Linked :=
  hr.invariant (fun _ t hb => hb.timerDel t) (fun _ t e hb => hb.timerMod t e) h

/-- Operations only take timers off the work list. -/
theorem TimerOps.work {base base' : TimerBase τ} (hr : TimerOps base base')
    (h : base.Linked) : List.Sublist (base'.lists .work) (base.lists .work) := by
  refine (hr.invariant (P := fun b => b.Linked ∧
    List.Sublist (b.lists .work) (base.lists .work)) ?_ ?_ ⟨h, List.Sublist.refl _⟩).2
  · rintro b t ⟨hb, hsub⟩
    refine ⟨hb.timerDel t, ?_⟩
    rw [timerDel_lists _ _ hb]
    exact List.erase_sublist.trans hsub
  · rintro b t e ⟨hb, hsub⟩
    refine ⟨hb.timerMod t e, ?_⟩
    rw [timerMod_lists _ _ _ hb, if_neg (internalVec_ne_work _ _).symm, List.append_nil]
    exact List.erase_sublist.trans hsub

theorem TimerOps.timerJiffies {base base' : TimerBase τ} (hr : TimerOps base base') :
    base'.timerJiffies = base.timerJiffies :=
  hr.invariant (P := fun b => b.timerJiffies = base.timerJiffies)
    (fun b t hb => (timerDel_timerJiffies b t).trans hb)
    (fun b t e hb => (timerMod_timerJiffies b t e).trans hb) rfl

/-! ## The callback of a timer -/

theorem TimerBase.Linked.takeTimer {base : TimerBase τ} (h : base.Linked) (timer : τ) :
    (takeTimer base timer).Linked :=
  ⟨(h.timerDel timer).mem, (h.timerDel timer).nodup⟩

@[simp] theorem takeTimer_entry (base : TimerBase τ) (timer : τ) :
    (takeTimer base timer).entry = Function.update base.entry timer none :=
  timerDel_entry base timer

@[simp] theorem takeTimer_timerJiffies (base : TimerBase τ) (timer : τ) :
    (takeTimer base timer).timerJiffies = base.timerJiffies :=
  timerDel_timerJiffies base timer

@[simp] theorem takeTimer_expires (base : TimerBase τ) (timer : τ) :
    (takeTimer base timer).expires = base.expires := timerDel_expires base timer

@[simp] theorem takeTimer_due (base : TimerBase τ) (timer : τ) :
    (takeTimer base timer).due = base.due := timerDel_due base timer

@[simp] theorem takeTimer_armed (base : TimerBase τ) (timer : τ) :
    (takeTimer base timer).armed = base.armed := timerDel_armed base timer

@[simp] theorem takeTimer_stamp (base : TimerBase τ) (timer : τ) :
    (takeTimer base timer).stamp = base.stamp := timerDel_stamp base timer

@[simp] theorem takeTimer_fired (base : TimerBase τ) (timer : τ) :
    (takeTimer base timer).fired
      = base.fired ++ [⟨timer, base.timerJiffies - 1, base.due timer, base.stamp timer⟩] := rfl

@[simp] theorem takeTimer_cancelled (base : TimerBase τ) (timer : τ) :
    (takeTimer base timer).cancelled = base.cancelled := rfl

theorem takeTimer_lists {base : TimerBase τ} (h : base.Linked) (timer : τ) (p : Place) :
    (takeTimer base timer).lists p = (base.lists p).erase timer :=
  timerDel_lists base timer h p

/-- Taking the first timer of the work list leaves the rest. -/
theorem takeTimer_work {base : TimerBase τ} (h : base.Linked) {timer : τ} {rest : List τ}
    (hwork : base.lists .work = timer :: rest) : (takeTimer base timer).lists .work = rest := by
  rw [takeTimer_lists h, hwork, List.erase_cons_head]

/-! ## A whole run -/

section Run
variable (owner : TimerOwner σ τ) (callback : τ → σ → σ)

/-- The wheel is in order between ticks. -/
def TimerBase.Idle (base : TimerBase τ) : Prop := base.Linked ∧ base.lists .work = []

variable {owner callback} {I : BitVec 32 × σ → Prop}

/-- The callbacks of a tick: what each preserves, they all preserve, and they empty the
work list. -/
theorem runWork_invariant
    (hops : ∀ timer s, TimerOps (owner.tbase s) (owner.tbase (callback timer s)))
    (hcall : ∀ n s timer rest, I (n, s) → (owner.tbase s).Linked →
      (owner.tbase s).lists .work = timer :: rest →
      I (n + 1, callback timer (owner.setTbase s (takeTimer (owner.tbase s) timer))))
    (fuel : Nat) (st : BitVec 32 × σ) (hfuel : ((owner.tbase st.2).lists .work).length ≤ fuel)
    (hlinked : (owner.tbase st.2).Linked) (hI : I st) :
    I (runWork owner callback fuel st)
      ∧ (owner.tbase (runWork owner callback fuel st).2).Idle := by
  induction fuel generalizing st with
  | zero =>
      exact ⟨hI, hlinked, List.eq_nil_of_length_eq_zero (Nat.le_zero.1 hfuel)⟩
  | succ fuel ih =>
      obtain ⟨expired, s⟩ := st
      rw [runWork]
      cases hwork : (owner.tbase s).lists .work with
      | nil => exact ⟨hI, hlinked, hwork⟩
      | cons timer rest =>
          have htake : (owner.tbase (owner.setTbase s (takeTimer (owner.tbase s) timer)))
              = takeTimer (owner.tbase s) timer := owner.tbase_setTbase _ _
          have hcb := hops timer (owner.setTbase s (takeTimer (owner.tbase s) timer))
          rw [htake] at hcb
          have hl' : (takeTimer (owner.tbase s) timer).Linked := hlinked.takeTimer timer
          have hshort := (hcb.work hl').length_le
          rw [takeTimer_work hlinked hwork] at hshort
          simp only [hwork, List.length_cons] at hfuel
          exact ih (expired + 1, _) (by dsimp only; omega) (hcb.linked hl')
            (hcall expired s timer rest hI hlinked hwork)

variable
    (hops : ∀ timer s, TimerOps (owner.tbase s) (owner.tbase (callback timer s)))
    {jiffies : BitVec 64}
    (htick : ∀ n s, I (n, s) → (owner.tbase s).Idle →
      timeAfterEq jiffies (owner.tbase s).timerJiffies = some true →
      I (n, owner.setTbase s (startTick (owner.tbase s))))
    (hcall : ∀ n s timer rest, I (n, s) → (owner.tbase s).Linked →
      (owner.tbase s).lists .work = timer :: rest →
      I (n + 1, callback timer (owner.setTbase s (takeTimer (owner.tbase s) timer))))

include hops htick hcall

theorem runTick_invariant (st : BitVec 32 × σ) (hidle : (owner.tbase st.2).Idle)
    (hgo : timeAfterEq jiffies (owner.tbase st.2).timerJiffies = some true) (hI : I st) :
    I (runTick owner callback st) ∧ (owner.tbase (runTick owner callback st).2).Idle := by
  have hbase := owner.tbase_setTbase st.2 (startTick (owner.tbase st.2))
  refine runWork_invariant hops hcall _ _ le_rfl ?_ (htick st.1 st.2 hI hidle hgo)
  rw [hbase]
  exact (tickStarted hidle.1 hidle.2).linked

/-- What starting a tick and each callback preserve, a call of `timers_run` preserves. -/
theorem timersRun_invariant {s : σ} {run : BitVec 32 × σ}
    (hrun : timersRun owner callback s jiffies = some run) (hidle : (owner.tbase s).Idle)
    (hI : I (0, s)) : I run ∧ (owner.tbase run.2).Idle := by
  have hticks : ∀ fuel st, I st → (owner.tbase st.2).Idle →
      runTicks owner callback jiffies fuel st = some run →
      I run ∧ (owner.tbase run.2).Idle := by
    intro fuel
    induction fuel with
    | zero =>
        intro st h h' hruns
        cases hruns
    | succ fuel ih =>
        intro st h h' hruns
        rw [runTicks] at hruns
        split at hruns
        · cases hruns
        · rename_i hgo
          obtain ⟨h1, h2⟩ := runTick_invariant hops htick hcall st h' hgo h
          exact ih _ h1 h2 hruns
        · cases hruns
          exact ⟨h, h'⟩
  rw [timersRun] at hrun
  split at hrun
  · cases hrun
  · cases hrun
    exact ⟨hI, hidle⟩
  · exact hticks _ _ hI hidle hrun

end Run

/-! ## How far it runs -/

section Clock
variable {owner : TimerOwner σ τ} {callback : τ → σ → σ}
    (hops : ∀ timer s, TimerOps (owner.tbase s) (owner.tbase (callback timer s)))

include hops

theorem runWork_timerJiffies (fuel : Nat) (st : BitVec 32 × σ) :
    (owner.tbase (runWork owner callback fuel st).2).timerJiffies
      = (owner.tbase st.2).timerJiffies := by
  induction fuel generalizing st with
  | zero => rfl
  | succ fuel ih =>
      obtain ⟨expired, s⟩ := st
      rw [runWork]
      split
      · rfl
      · rename_i timer rest _
        rw [ih, (hops timer _).timerJiffies, owner.tbase_setTbase, takeTimer_timerJiffies]

theorem runTick_timerJiffies {st : BitVec 32 × σ} (hidle : (owner.tbase st.2).Idle) :
    (owner.tbase (runTick owner callback st).2).timerJiffies
      = (owner.tbase st.2).timerJiffies + 1 := by
  rw [runTick, runWork_timerJiffies hops, owner.tbase_setTbase]
  exact (tickStarted hidle.1 hidle.2).timerJiffies

/-- After a tick the work list is empty again. -/
theorem idle_runTick {st : BitVec 32 × σ} (hidle : (owner.tbase st.2).Idle) :
    (owner.tbase (runTick owner callback st).2).Idle := by
  have hbase := owner.tbase_setTbase st.2 (startTick (owner.tbase st.2))
  refine (runWork_invariant (I := fun _ => True) hops (fun _ _ _ _ _ _ _ => trivial) _
    (st.1, owner.setTbase st.2 (startTick (owner.tbase st.2))) le_rfl ?_ trivial).2
  rw [hbase]
  exact (tickStarted hidle.1 hidle.2).linked

end Clock

end Msock
