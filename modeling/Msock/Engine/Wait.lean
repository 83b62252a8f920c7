import Msock.Timer.Next
import Msock.Engine.Changes

/-!
# How long the engine waits

The timeout of `epoll_wait` is what the wheel answers less the clock, narrowed to an
`int`. The clock may have moved on since the wheel last ran, past an expiry that is still
pending; the difference is negative then, and the engine waits for ever.
-/

namespace Msock

open Lib

/-- While a timer is pending the timeout is one, and ends no later than the earliest expiry. -/
def WaitsInTime (st : EpollState) : Prop :=
  ∀ fd, timerPending st.sd.tbase fd = true → ∃ timeout, waitTimeout st = some timeout ∧
    0 ≤ timeout.toInt ∧
      timeout.toInt ≤ max 0 (((st.sd.tbase.expires fd).toNat : Int) - (st.now.toNat : Int))

/-- `msock_now_msecs` is monotonic. -/
def ClockForward (st : EpollState) : EpollAct → Prop
  | .block _ now => st.now.toNat ≤ now.toNat
  | .clock now => st.now.toNat ≤ now.toNat
  | _ => True

/-- No pending timer is set to a time before the clock, or was armed in the past of the
wheel; the wheel's cap is ahead of the clock; none hides a nearer one; and no comparison of
the search overflows. -/
structure NoneOverdue (tbase : TimerBase Nat) (now : BitVec 64) : Prop where
  expires : ∀ fd, timerPending tbase fd = true →
    tbase.expires fd = tbase.due fd ∧ now.toNat ≤ (tbase.expires fd).toNat
  cap : now.toNat ≤ tbase.timerJiffies.toNat + nextTimerMaxDelta.toNat
  shown : ¬ HidesNearer tbase
  fits : SearchFits tbase

/-- The first timer of the wheel's next tick is set to that or to a time before it, but
not before the clock, and is the first to expire, if it does not expire now. -/
structure FirstIsNow (tbase : TimerBase Nat) (now : BitVec 64) (fd : Nat) : Prop where
  head : ∃ rest, tbase.lists (.tvec .tv1 (tbase.timerJiffies.toNat % 256)) = fd :: rest
  low : now.toNat ≤ (tbase.expires fd).toNat
  high : (tbase.expires fd).toNat ≤ tbase.timerJiffies.toNat
  first : tbase.expires fd = now ∨ ∀ fd', timerPending tbase fd' = true →
    (tbase.expires fd).toNat ≤ (tbase.expires fd').toNat
  cascades : tbase.timerJiffies.toNat % 256 = 0 → ∀ fd' ∈ cascadeList tbase,
    timeBefore (tbase.expires fd') (tbase.expires fd) = some false

/-- The engine does not block with a timer overdue, unless the next tick begins with one
that is due now and no other expired before it. -/
def BlocksInTime (st : EpollState) : EpollAct → Prop
  | .block _ _ => (∀ fd, timerPending st.sd.tbase fd = false) ∨
      NoneOverdue st.sd.tbase st.now ∨ ∃ fd, FirstIsNow st.sd.tbase st.now fd
  | _ => True

/-! ## What the search answers -/

/-- The tick is the cap or some pending timer's expiry. -/
def Answers (base : TimerBase Nat) (r : BitVec 64) : Prop :=
  r = base.timerJiffies + nextTimerMaxDelta ∨
    ∃ t, timerPending base t = true ∧ r = base.expires t

theorem answers_nextOf {base : TimerBase Nat} (h : base.Linked) : Answers base (nextOf base) := by
  have hfound : ∀ {varray timerJiffies found expires}, Answers base expires →
      Answers base (earliest base (searched base varray timerJiffies found) expires) := by
    intro varray timerJiffies found expires hexp
    rcases @earliest_mem Nat base (searched base varray timerJiffies found) expires with
      hsame | ⟨t, ht, hsame⟩
    · rw [hsame]
      exact hexp
    · obtain ⟨tv, slot, hmem⟩ := mem_of_searched ht
      exact Or.inr ⟨t, pending_of_entry ((h.mem _ _).1 hmem), hsame⟩
  have hindex : base.timerJiffies.toNat % 256 < 256 := Nat.mod_lt _ (by decide)
  have hcases := scanTv1_cases base hindex 256 0 rfl (by decide)
  simp only [Nat.add_zero, Nat.mod_mod] at hcases
  have hsize : tvrSize = 256 := rfl
  unfold nextOf searchedFrom
  dsimp only
  rw [and_tvrMask, show (2 : Nat) ^ 8 = 256 from rfl, hsize]
  rcases hcases with ⟨hscan, -⟩ | ⟨n, -, -, -, nte, rest, hlist, hscan⟩
  · rw [hscan]
    exact hfound (Or.inl rfl)
  · have hnte : Answers base (base.expires nte) := by
      have hmem : nte ∈ base.lists
          (.tvec .tv1 ((base.timerJiffies.toNat % 256 + n) % 256)) := by
        rw [hlist]
        exact List.mem_cons_self
      exact Or.inr ⟨nte, pending_of_entry ((h.mem _ _).1 hmem), rfl⟩
    rw [hscan]
    dsimp only
    split
    · exact hfound hnte
    · exact hnte

/-! ## The difference -/

/-- A short wait comes through the narrowing. -/
theorem toInt_truncate {d : BitVec 64} (h : d.toNat < 2 ^ 31) :
    (d.truncate 32).toInt = d.toNat := by
  rw [BitVec.toInt_eq_toNat_cond, BitVec.truncate_eq_setWidth, BitVec.toNat_setWidth,
    Nat.mod_eq_of_lt (by omega), if_pos (by omega)]

section Difference
variable {tbase : TimerBase Nat} {now : BitVec 64} (h : tbase.Ready)
  (hclock : tbase.timerJiffies.toNat ≤ now.toNat + 1)
include h hclock

/-- With no timer overdue the wait ends with the earliest, or earlier at the cap. -/
theorem NoneOverdue.wait (hs : NoneOverdue tbase now) {fd : Nat}
    (hfd : timerPending tbase fd = true) :
    (nextOf tbase - now).toNat < 2 ^ 31 ∧
      ((nextOf tbase - now).toNat : Int)
        ≤ ((tbase.expires fd).toNat : Int) - (now.toNat : Int) := by
  have hmax : nextTimerMaxDelta.toNat = 2 ^ 30 - 1 := rfl
  have hj := tbase.timerJiffies.isLt
  have hn := now.isLt
  have hcap := hs.cap
  -- no timer was armed in the past, so none is overtaken
  have hlater : ∀ fd, timerPending tbase fd = true →
      ahead tbase.timerJiffies (tbase.expires fd) = tbase.wait fd := by
    intro fd hfd
    rw [(hs.expires fd hfd).1]
    rfl
  have hnot : ¬ OvertakesOverdue tbase := by
    rintro ⟨-, nte, rest, hlist, hpast, -⟩
    have hmem : nte ∈ tbase.lists (.tvec .tv1 0) := by rw [hlist]; exact List.mem_cons_self
    have hpending := pending_of_entry ((h.placed.linked.mem _ _).1 hmem)
    have hwait := h.wait_lt hpending
    rw [hlater nte hpending] at hpast
    omega
  have hexact : NextExact tbase (nextOf tbase) :=
    (nextOf_exact_iff h).2 ⟨hs.shown, hnot⟩
  have hcapTick : ahead tbase.timerJiffies (tbase.timerJiffies + nextTimerMaxDelta)
      = nextTimerMaxDelta.toNat := by
    rw [ahead, add_sub_cancel_left]
  have hansw := answers_nextOf h.placed.linked
  generalize hr : nextOf tbase = r at hexact hansw ⊢
  have hlt : ahead tbase.timerJiffies r < 2 ^ 63 := by
    rcases hansw with rfl | ⟨t, ht, rfl⟩
    · rw [hcapTick]; omega
    · rw [hlater t ht]; exact h.wait_lt ht
  unfold NextExact at hexact
  rw [fromNow_eq hlt] at hexact
  have hle := hexact.le fd hfd
  have hlecap := hexact.cap
  -- the tick is not before the clock
  have hlow : now.toNat ≤ tbase.timerJiffies.toNat + ahead tbase.timerJiffies r := by
    rcases hansw with rfl | ⟨t, ht, rfl⟩
    · rw [hcapTick]; exact hcap
    · have hnow := (hs.expires t ht).2
      have htick := toNat_of_ahead tbase.timerJiffies (tbase.expires t)
      omega
  have hd : (r - now).toNat
      = tbase.timerJiffies.toNat + ahead tbase.timerJiffies r - now.toNat := by
    have htick := toNat_of_ahead tbase.timerJiffies r
    rw [BitVec.toNat_sub]
    omega
  have hnow := (hs.expires fd hfd).2
  have htick := toNat_of_ahead tbase.timerJiffies (tbase.expires fd)
  have hwait := h.wait_lt hfd
  rw [hlater fd hfd] at htick
  rw [hd]
  constructor
  · omega
  · omega

omit h hclock in
/-- The search stops at a timer of the next tick. -/
theorem FirstIsNow.next {fd : Nat} (hs : FirstIsNow tbase now fd) :
    timerNextInterrupt tbase = some (tbase.expires fd) := by
  obtain ⟨rest, hlist⟩ := hs.head
  have hindex : tbase.timerJiffies.toNat % 256 < 256 := Nat.mod_lt _ (by decide)
  have hcases := scanTv1_cases tbase hindex 256 0 rfl (by decide)
  simp only [Nat.add_zero, Nat.mod_mod, Nat.zero_le, true_implies] at hcases
  have hsize : tvrSize = 256 := rfl
  unfold timerNextInterrupt
  dsimp only
  rw [and_tvrMask, show (2 : Nat) ^ 8 = 256 from rfl, hsize]
  rcases hcases with ⟨-, hempty⟩ | ⟨n, -, hn, hbefore, nte, rest', hlist', hscan⟩
  · have hzero := hempty 0 (by decide)
    rw [Nat.add_zero, Nat.mod_mod, hlist] at hzero
    cases hzero
  · have hn0 : n = 0 := by
      by_contra hpos
      have hzero := hbefore 0 (by omega)
      rw [Nat.add_zero, Nat.mod_mod, hlist] at hzero
      cases hzero
    subst hn0
    rw [Nat.add_zero, Nat.mod_mod] at hlist' hscan
    rw [hlist] at hlist'
    obtain ⟨rfl, rfl⟩ := List.cons.inj hlist'
    rw [hscan]
    dsimp only
    by_cases hnow : tbase.timerJiffies.toNat % 256 = 0
    · rw [if_pos (Or.inl hnow)]
      have hcascades : searched tbase [.tv2, .tv3, .tv4, .tv5] (cascadeJiffies tbase) true
          = cascadeList tbase := searched_cascadeList (atLevel_tv2 tbase.timerJiffies) hnow
      rw [nextCascade_eq, hcascades]
      exact slotExpires_of_not_before (hs.cascades hnow)
    · rw [if_neg (by omega)]

/-- A block in time: what `epoll_wait` gets. -/
theorem waitsInTime_of_blocksInTime {st : EpollState} (hst : st.sd.tbase = tbase)
    (hstnow : st.now = now) {events : List (Nat × EpollMask)} {later : BitVec 64}
    (hok : BlocksInTime st (.block events later)) : WaitsInTime st := by
  intro fd hfd
  unfold waitTimeout
  simp only [BlocksInTime] at hok
  rw [hst, hstnow] at hok ⊢
  rw [hst] at hfd
  rcases hok with hnone | hs | ⟨first, hs⟩
  · rw [hnone fd] at hfd
    cases hfd
  · obtain ⟨hlt, hle⟩ := hs.wait h hclock hfd
    have hnext : timerNextInterrupt tbase = some (nextOf tbase) :=
      timerNextInterrupt_eq_some.2 ⟨hs.fits, rfl⟩
    refine ⟨_, by rw [hnext]; rfl, ?_⟩
    rw [toInt_truncate hlt]
    exact ⟨by omega, le_trans hle (le_max_right _ _)⟩
  · have hlow := hs.low
    have hhigh := hs.high
    have hd : (tbase.expires first - now).toNat
        = (tbase.expires first).toNat - now.toNat := by
      have hlt := (tbase.expires first).isLt
      rw [BitVec.toNat_sub]
      omega
    refine ⟨_, by rw [hs.next]; rfl, ?_⟩
    rw [toInt_truncate (by omega), hd]
    refine ⟨by omega, ?_⟩
    rcases hs.first with hnow | hfirst
    · rw [hnow, Nat.sub_self]
      exact le_max_left _ _
    · have hle := hfirst fd hfd
      refine le_trans ?_ (le_max_right _ _)
      omega

end Difference

/-! ## Runs -/

/-- The wheel is in order, and not ahead of the clock by more than the tick to come. -/
structure EpollState.OnClock (st : EpollState) : Prop where
  ready : st.sd.tbase.Ready
  clock : st.sd.tbase.timerJiffies.toNat ≤ st.now.toNat + 1

theorem ops_setTimer (tbase : TimerBase Nat) (fd : Nat) (expires : BitVec 64) :
    TimerOps tbase (setTimer tbase fd expires) := by
  unfold setTimer
  split
  · exact TimerOps.mod tbase fd expires
  · exact TimerOps.del tbase fd

/-- What arms or disarms timers, and leaves the clock. -/
theorem EpollState.OnClock.ops {st st' : EpollState} (h : st.OnClock)
    (hops : TimerOps st.sd.tbase st'.sd.tbase) (hnow : st'.now = st.now) : st'.OnClock :=
  ⟨hops.ready h.ready, by rw [hops.timerJiffies, hnow]; exact h.clock⟩

/-- What the steps of a loop preserve, the loop preserves. -/
theorem foldlM_invariant {α ε : Type} {s : Type} {P : s → Prop} {f : s → α → Except ε s}
    (hstep : ∀ t a t', P t → f t a = .ok t' → P t') :
    ∀ {as : List α} {t t' : s}, P t → as.foldlM f t = .ok t' → P t'
  | [], t, t', h, hfold => by cases hfold; exact h
  | a :: as, t, t', h, hfold => by
      rw [List.foldlM_cons] at hfold
      obtain ⟨mid, hmid, hrest⟩ := bind_eq_ok.1 hfold
      exact foldlM_invariant hstep (hstep t a mid h hmid) hrest

/-- A flush leaves the wheel and the clock. -/
theorem flushChanged_wheel {st st' : EpollState} (h : flushChanged st = .ok st') :
    st'.sd.tbase = st.sd.tbase ∧ st'.now = st.now := by
  obtain ⟨mid, hfold, hmid⟩ := bind_eq_ok.1 h
  have hkept : mid.sd.tbase = st.sd.tbase ∧ mid.now = st.now := by
    refine foldlM_invariant (P := fun t : EpollState =>
      t.sd.tbase = st.sd.tbase ∧ t.now = st.now) ?_ ⟨rfl, rfl⟩ hfold
    rintro t fd t' ⟨htbase, hnow⟩ hitem
    obtain ⟨_, kernel, rfl, -, -⟩ := flushItem_ok hitem
    exact ⟨htbase, hnow⟩
  cases hmid
  exact hkept

theorem now_timersRun {st : EpollState} (h : st.sd.tbase.Idle) {jiffies : BitVec 64}
    {run : BitVec 32 × EpollState}
    (hrun : timersRun epollOwner epollTimerCallback st jiffies = some run) : run.2.now = st.now :=
  (timersRun_invariant (I := fun run : BitVec 32 × EpollState => run.2.now = st.now)
    epollTimerCallback_ops (fun _ _ hI _ _ => hI) (fun _ _ _ _ hI _ _ => hI) hrun h rfl).1

theorem EpollState.OnClock.block {st st' : EpollState} (h : st.OnClock)
    {events : List (Nat × EpollMask)} {now : BitVec 64} (hforward : st.now.toNat ≤ now.toNat)
    (hstep : processBlock st events now = .ok st') : st'.OnClock := by
  obtain ⟨told, answered, run, hflush, -, hevents, hrun, rfl⟩ := processBlock_ok hstep
  obtain ⟨htbase, hnow⟩ := flushChanged_wheel hflush
  have htold : told.OnClock ∧ told.now = st.now :=
    ⟨⟨htbase ▸ h.ready, by rw [htbase, hnow]; exact h.clock⟩, hnow⟩
  obtain ⟨hanswered, hnow'⟩ := foldlM_invariant
    (P := fun t : EpollState => t.OnClock ∧ t.now = st.now)
    (by
      rintro t ev t' ⟨ht, hn⟩ hev
      rcases handleEvent_ok hev with rfl | ⟨answer, rfl⟩
      · exact ⟨ht, hn⟩
      · exact ⟨ht.ops (ops_setTimer t.sd.tbase ev.1 0) rfl, hn⟩)
    htold hevents
  have hready : ({ answered with now := now } : EpollState).sd.tbase.Ready := hanswered.ready
  refine ⟨(timersRun_ready epollTimerCallback_ops hready hrun).1, ?_⟩
  rw [now_timersRun hready.idle hrun]
  have hclock := hanswered.clock
  obtain ⟨-, ⟨-, rfl⟩ | ⟨hgo, -⟩⟩ := timersRun_cases epollTimerCallback_ops hready.idle hrun
  · show answered.sd.tbase.timerJiffies.toNat ≤ now.toNat + 1
    rw [hnow'] at hclock
    omega
  · have hend : run.2.sd.tbase.timerJiffies = now + 1 :=
      timersRun_timerJiffies epollTimerCallback_ops hready.idle hrun hgo
    rw [hend, BitVec.toNat_add]
    exact Nat.mod_le _ _

theorem EpollState.OnClock.step {st st' : EpollState} (h : st.OnClock) {a : EpollAct}
    (hforward : ClockForward st a) (hstep : epollStep a st = .ok st') : st'.OnClock := by
  cases a with
  | msg request msg =>
      rw [epollHandleMsg_ok hstep]
      exact h.ops (ops_setTimer st.sd.tbase _ _) rfl
  | block events now => exact h.block hforward hstep
  | clock now =>
      cases hstep
      exact ⟨h.ready, le_trans h.clock (Nat.add_le_add_right hforward 1)⟩
  | close fd =>
      simp only [epollStep] at hstep
      split at hstep
      · cases hstep; exact ⟨h.ready, h.clock⟩
      · cases hstep
  | openFd fd =>
      simp only [epollStep] at hstep
      split at hstep
      · cases hstep
      · cases hstep; exact ⟨h.ready, h.clock⟩

theorem onClock_constructor (opened : Nat → Bool) (mapSz pipeRead : Nat) (pid : Pid)
    (now : BitVec 64) : (epollConstructor opened mapSz pipeRead pid now).OnClock := by
  have hops := ops_setTimer (initTimerBase now) pipeRead 0
  exact ⟨hops.ready (ready_init now), by
    show (setTimer (initTimerBase now) pipeRead 0).timerJiffies.toNat ≤ now.toNat + 1
    rw [hops.timerJiffies]
    exact Nat.le_succ _⟩

/--
**The engine does not wait past a deadline it has not missed.**

In every run in which the clock only moves forward and `process_block` is not entered
with a timer overdue, no wait of the engine lasts past the earliest pending expiry.
-/
theorem epoll_waits_in_time (opened : Nat → Bool) (mapSz pipeRead : Nat) (pid : Pid)
    (start : BitVec 64) (st told : EpollState) (events : List (Nat × EpollMask))
    (now : BitVec 64)
    (hr : Runs epollStep (fun st a => ClockForward st a ∧ BlocksInTime st a)
      (epollConstructor opened mapSz pipeRead pid start) st)
    (hok : BlocksInTime st (.block events now)) (hflush : flushChanged st = .ok told) :
    WaitsInTime told := by
  have h : st.OnClock := hr.invariant (fun _ _ _ ht hok hstep => ht.step hok.1 hstep)
    (onClock_constructor opened mapSz pipeRead pid start)
  obtain ⟨htbase, hnow⟩ := flushChanged_wheel hflush
  exact waitsInTime_of_blocksInTime h.ready h.clock htbase hnow
    (show BlocksInTime told (.block events now) by
      simp only [BlocksInTime] at hok ⊢
      rwa [htbase, hnow])

/-- A timeout of 5 asked for at the time 100 and waited for then. -/
theorem epoll_waits_in_time_five :
    let st : EpollState := { epollConstructor (fun _ => true) 8 3 nullPid 100 with
      sd := scheduleChange (epollConstructor (fun _ => true) 8 3 nullPid 100).sd 7 4 epollIn 105
      notes := [.registered .registerRead 3 nullPid, .registered .registerRead 4 7] }
    ∃ told, flushChanged st = .ok told ∧ WaitsInTime told := by
  dsimp only
  refine ⟨_, rfl, epoll_waits_in_time (fun _ => true) 8 3 nullPid 100 _ _ [] 100
    (Runs.single (a := EpollAct.msg .registerRead (msockVictimSendMsgFd 100 7 4 5))
      ⟨trivial, trivial⟩ rfl) (Or.inr (Or.inl ?_)) rfl⟩
  have hentry : (scheduleChange (epollConstructor (fun _ => true) 8 3 nullPid 100).sd 7 4
      epollIn 105).tbase.entry 4 = some (.tvec .tv1 105) := by decide
  refine ⟨fun fd hfd => ?_, by decide, not_hidesNearer hentry (by decide), by decide +kernel⟩
  have h4 : fd = 4 := by
    by_contra hne
    rw [scheduleChange_tbase, timerPending_setTimer,
      if_neg (show ¬ fd = (msockVictimSendMsgFd 100 7 4 5).fd from hne)] at hfd
    cases hfd
  subst h4
  exact ⟨by decide, by decide⟩

/-- A timeout of 5 asked for at the time 100 reaches the engine at 110: it waits for ever. -/
theorem epoll_waits_past_deadline : ∃ st told : EpollState,
    Runs epollStep ClockForward (epollConstructor (fun _ => true) 8 3 nullPid 100) st ∧
      timerPending st.sd.tbase 4 = true ∧
      st.sd.tbase.expires 4 = (msockVictimSendMsgFd 100 7 4 5).expires ∧
      flushChanged st = .ok told ∧ ¬ WaitsInTime told := by
  refine ⟨_, _, Relation.ReflTransGen.tail
    (Runs.single (a := EpollAct.clock 110) (show _ ≤ _ by decide) rfl)
    ⟨.msg .registerRead (msockVictimSendMsgFd 100 7 4 5), trivial, rfl⟩,
    by decide, by decide, rfl, ?_⟩
  intro hwaits
  obtain ⟨timeout, htimeout, hpos, -⟩ := hwaits 4 (by decide)
  have hvalue : timeout = -5 := Option.some.inj (htimeout.symm.trans (by decide +kernel))
  rw [hvalue] at hpos
  revert hpos
  decide

end Msock
