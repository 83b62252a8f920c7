import Msock.Engine.Changes

/-!
# The change list is exact

Whatever is asked of the engine, with whatever masks and victims, an item stands on
`changed` exactly while the mask asked for differs from the one the kernel was told,
and once. Nothing about notes, timers or the kernel's own state is needed for that.
-/

namespace Msock

open Lib

/-- What may happen to the change list. -/
inductive ChangeAct
  /-- A registration or its withdrawal, with any mask. -/
  | schedule (victim : Pid) (fd : Nat) (newMask : EpollMask) (expires : BitVec 64)
  /-- One of the three messages. -/
  | msg (request : MsgFdRequest) (msg : MsockMsgFd)
  /-- An event, on any descriptor. -/
  | event (ev : Nat × EpollMask)
  /-- The callback of any timer. -/
  | timeout (fd : Nat)
  /-- A run of the timers. -/
  | timers (now : BitVec 64)
  /-- The loop over `changed`. -/
  | flush
  /-- A whole `process_block`. -/
  | block (events : List (Nat × EpollMask)) (now : BitVec 64)
  /-- Descriptors are opened and closed, and the kernel forgets them or does not. -/
  | kernel (kernel : Kernel)

/-- One act, on descriptors of the table. -/
def changeStep : ChangeAct → EpollState → Except EpollFault EpollState
  | .schedule victim fd newMask expires, st =>
      if fd < st.sd.mapSz then .ok { st with sd := scheduleChange st.sd victim fd newMask expires }
      else .error .outOfMap
  | .msg request msg, st => epollHandleMsg st request msg
  | .event ev, st => if ev.1 < st.sd.mapSz then handleEvent st ev else .error .outOfMap
  | .timeout fd, st =>
      if fd < st.sd.mapSz then .ok (epollTimerCallback fd st) else .error .outOfMap
  | .timers now, st => epollTimers st now
  | .flush, st => flushChanged st
  | .block events now, st => processBlock st events now
  | .kernel kernel, st => .ok { st with kernel := kernel }

/-- An item is listed exactly while its masks differ, and once. -/
structure LocalData.Listed (sd : LocalData) : Prop where
  changed : ∀ fd, fd ∈ sd.changed ↔ (sd.map fd).newMask ≠ (sd.map fd).epollMask
  nodup : sd.changed.Nodup

/-- The loop over `changed`: the items it handles, each of which it finds on the list. -/
inductive FlushRounds : EpollState → List Nat → EpollState → Prop
  | done (st : EpollState) : FlushRounds st [] st
  | round {st mid st' : EpollState} {fd : Nat} {fds : List Nat} (hmem : fd ∈ st.sd.changed)
      (hitem : flushItem st fd = .ok mid) (hrest : FlushRounds mid fds st') :
      FlushRounds st (fd :: fds) st'

/-- What a flush does that starts in this state. -/
structure EpollState.FlushesExactly (st : EpollState) : Prop where
  /-- It ends early only when `epoll_ctl` fails. -/
  faults : ∀ fault, flushChanged st = .error fault → ∃ errno, fault = .pfatal errno
  /-- Every listed item is handled, and once. -/
  rounds : ∀ st', flushChanged st = .ok st' → ∃ fds flushed, FlushRounds st fds flushed ∧
    st'.sd = flushed.sd ∧ ∀ fd, fds.count fd
      = if (st.sd.map fd).newMask ≠ (st.sd.map fd).epollMask then 1 else 0
  emptied : ∀ st', flushChanged st = .ok st' → st'.sd.changed = []
  /-- What was asked for has been told. -/
  masks : ∀ st', flushChanged st = .ok st' → ∀ fd,
    (st'.sd.map fd).epollMask = (st'.sd.map fd).newMask ∧
      (st'.sd.map fd).newMask = (st.sd.map fd).newMask

/-! ## Every act keeps the list -/

theorem LocalData.Listed.schedule {sd : LocalData} (h : sd.Listed) (victim : Pid) (fd : Nat)
    (newMask : EpollMask) (expires : BitVec 64) :
    (scheduleChange sd victim fd newMask expires).Listed where
  changed := by
    intro fd'
    rw [scheduleChange_changed _ _ _ _ _ h.nodup]
    by_cases hfd : fd' = fd
    · subst hfd; simp
    · rw [if_neg hfd, h.changed fd', scheduleChange_map_ne _ _ _ _ _ hfd]
  nodup := scheduleChange_nodup _ _ _ _ _ h.nodup

/-- A wheel is no part of the list. -/
theorem LocalData.Listed.setTbase {sd : LocalData} (h : sd.Listed) (tbase : TimerBase Nat) :
    ({ sd with tbase := tbase } : LocalData).Listed :=
  ⟨h.changed, h.nodup⟩

/-- What the kernel has been told about is off the list. -/
theorem LocalData.Listed.told {st : EpollState} (h : st.sd.Listed) (fd : Nat)
    (kernel : Kernel) : (told st fd kernel).sd.Listed where
  changed := by
    intro fd'
    simp only [Msock.told, h.nodup.mem_erase_iff]
    by_cases hfd : fd' = fd
    · subst hfd; simp
    · simp only [Function.update_of_ne hfd, h.changed fd']
      exact and_iff_right hfd
  nodup := h.nodup.erase fd

/-- A run of the timers, whatever the clock shows. -/
theorem LocalData.Listed.timers {s : EpollState} (h : s.sd.Listed)
    (hidle : s.sd.tbase.Idle) {jiffies : BitVec 64} {run : BitVec 32 × EpollState}
    (hrun : timersRun epollOwner epollTimerCallback s jiffies = some run) :
    run.2.sd.Listed ∧ run.2.sd.tbase.Idle := by
  refine timersRun_invariant (I := fun st' : BitVec 32 × EpollState => st'.2.sd.Listed)
    epollTimerCallback_ops ?_ ?_ hrun hidle h
  · intro n s hs _ _
    exact hs.setTbase _
  · intro n s fd rest hs _ _
    exact (hs.setTbase (takeTimer s.sd.tbase fd)).schedule (s.sd.map fd).victim fd 0 0

/-- An event takes the registration back, or is swallowed. -/
theorem LocalData.Listed.event {st st' : EpollState} {ev : Nat × EpollMask}
    (h : st.sd.Listed ∧ st.sd.tbase.Idle) (hstep : handleEvent st ev = .ok st') :
    st'.sd.Listed ∧ st'.sd.tbase.Idle := by
  rcases handleEvent_ok hstep with rfl | ⟨answer, rfl⟩
  · exact h
  · exact ⟨h.1.schedule nullPid ev.1 0 0, idle_setTimer h.2 ev.1 0⟩

theorem LocalData.Listed.events {events : List (Nat × EpollMask)} :
    ∀ {st st' : EpollState}, st.sd.Listed ∧ st.sd.tbase.Idle →
      events.foldlM handleEvent st = .ok st' → st'.sd.Listed ∧ st'.sd.tbase.Idle := by
  induction events with
  | nil =>
      intro st st' h hfold
      cases hfold
      exact h
  | cons ev events ih =>
      intro st st' h hfold
      rw [List.foldlM_cons] at hfold
      obtain ⟨mid, hev, hrest⟩ := bind_eq_ok.1 hfold
      exact ih (LocalData.Listed.event h hev) hrest

/-! ## The flush -/

/-- What one listed item is: different from what the kernel was told, so never both masks 0. -/
theorem flushItem_error {st : EpollState} (h : st.sd.Listed) {fd : Nat}
    (hmem : fd ∈ st.sd.changed) {fault : EpollFault} (hitem : flushItem st fd = .error fault) :
    ∃ errno, fault = .pfatal errno := by
  have hne := (h.changed fd).1 hmem
  unfold flushItem at hitem
  simp only at hitem
  split_ifs at hitem with hwtf
  · exact absurd (hwtf.1.trans hwtf.2.symm) hne
  · rcases hctl : epollCtl st.kernel (flushOp (st.sd.map fd)) fd (st.sd.map fd).newMask
      with errno | kernel
    · rw [hctl] at hitem
      simp only at hitem
      split_ifs at hitem
      exact ⟨errno, (Except.error.inj hitem).symm⟩
    · rw [hctl] at hitem
      cases hitem

/-- The loop goes on with an item off the list, and the others as they were. -/
theorem flushItem_rest {st mid : EpollState} {fd : Nat} {fds : List Nat}
    (h : st.sd.Listed) (hlist : st.sd.changed = fd :: fds)
    (hitem : flushItem st fd = .ok mid) :
    mid.sd.Listed ∧ mid.sd.changed = fds ∧ mid.sd.tbase = st.sd.tbase ∧
      ∀ fd', (mid.sd.map fd').newMask = (st.sd.map fd').newMask := by
  obtain ⟨_, kernel, rfl, _, _⟩ := flushItem_ok hitem
  refine ⟨h.told fd kernel, ?_, rfl, ?_⟩
  · simp [told, hlist]
  · intro fd'
    by_cases hfd : fd' = fd
    · subst hfd; simp [told]
    · simp [told, hfd]

/-- The loop, from the list it starts with: it can only stop at a failing call, and what it
handles is what is listed. -/
theorem flush_rounds {fds : List Nat} :
    ∀ {st : EpollState}, st.sd.Listed → st.sd.changed = fds →
      (∀ fault, fds.foldlM flushItem st = .error fault → ∃ errno, fault = .pfatal errno) ∧
      ∀ st', fds.foldlM flushItem st = .ok st' →
        FlushRounds st fds st' ∧ st'.sd.Listed ∧ st'.sd.changed = [] ∧
          st'.sd.tbase = st.sd.tbase ∧
          ∀ fd, (st'.sd.map fd).newMask = (st.sd.map fd).newMask := by
  induction fds with
  | nil =>
      intro st h hlist
      refine ⟨fun fault hfold => (by cases hfold), fun st' hfold => ?_⟩
      cases hfold
      exact ⟨FlushRounds.done st, h, hlist, rfl, fun _ => rfl⟩
  | cons fd fds ih =>
      intro st h hlist
      have hmem : fd ∈ st.sd.changed := by rw [hlist]; exact List.mem_cons_self
      rw [List.foldlM_cons]
      rcases hitem : flushItem st fd with fault' | mid
      · refine ⟨fun fault hfold => ?_, fun st' hfold => (by cases hfold)⟩
        obtain rfl : fault' = fault := Except.error.inj hfold
        exact flushItem_error h hmem hitem
      · obtain ⟨hmid, hrest, htbase, hmasks⟩ := flushItem_rest h hlist hitem
        obtain ⟨hfault, hok⟩ := ih hmid hrest
        refine ⟨hfault, fun st' hfold => ?_⟩
        obtain ⟨hrounds, hlisted, hnil, htbase', hmasks'⟩ := hok st' hfold
        exact ⟨FlushRounds.round hmem hitem hrounds, hlisted, hnil, htbase'.trans htbase,
          fun fd' => (hmasks' fd').trans (hmasks fd')⟩

theorem LocalData.Listed.flush {st st' : EpollState} (h : st.sd.Listed)
    (hflush : flushChanged st = .ok st') : st'.sd.Listed ∧ st'.sd.tbase = st.sd.tbase := by
  obtain ⟨mid, hfold, hmid⟩ := bind_eq_ok.1 hflush
  cases hmid
  obtain ⟨_, hlisted, _, htbase, _⟩ := (flush_rounds h rfl).2 mid hfold
  exact ⟨⟨hlisted.changed, hlisted.nodup⟩, htbase⟩

theorem LocalData.Listed.flushes {st : EpollState} (h : st.sd.Listed) :
    st.FlushesExactly := by
  obtain ⟨hfault, hok⟩ := flush_rounds h rfl
  have hread : ∀ st', flushChanged st = .ok st' → ∃ mid,
      st.sd.changed.foldlM flushItem st = .ok mid ∧ st'.sd = mid.sd := by
    intro st' hflush
    obtain ⟨mid, hfold, hmid⟩ := bind_eq_ok.1 hflush
    exact ⟨mid, hfold, by rw [← Except.ok.inj hmid]⟩
  constructor
  case faults =>
      intro fault hflush
      unfold flushChanged at hflush
      rcases hfold : st.sd.changed.foldlM flushItem st with fault' | mid
      · rw [hfold] at hflush
        obtain rfl : fault' = fault := Except.error.inj hflush
        exact hfault fault' hfold
      · rw [hfold] at hflush
        cases hflush
  case rounds =>
      intro st' hflush
      obtain ⟨mid, hfold, hsd⟩ := hread st' hflush
      refine ⟨st.sd.changed, mid, (hok mid hfold).1, hsd, fun fd => ?_⟩
      rw [h.nodup.count]
      simp only [h.changed fd]
  case emptied =>
      intro st' hflush
      obtain ⟨mid, hfold, hsd⟩ := hread st' hflush
      rw [hsd]
      exact (hok mid hfold).2.2.1
  case masks =>
      intro st' hflush fd
      obtain ⟨mid, hfold, hsd⟩ := hread st' hflush
      obtain ⟨_, hlisted, hnil, _, hmasks⟩ := hok mid hfold
      rw [hsd]
      refine ⟨?_, hmasks fd⟩
      -- nothing is listed any more, so no masks differ
      by_contra hne
      have hmem := (hlisted.changed fd).2 (Ne.symm hne)
      rw [hnil] at hmem
      cases hmem

/-! ## Runs -/

theorem listed_step (a : ChangeAct) (st st' : EpollState)
    (h : st.sd.Listed ∧ st.sd.tbase.Idle) (hstep : changeStep a st = .ok st') :
    st'.sd.Listed ∧ st'.sd.tbase.Idle := by
  cases a with
  | schedule victim fd newMask expires =>
      simp only [changeStep] at hstep
      split at hstep
      · cases hstep
        exact ⟨h.1.schedule victim fd newMask expires, idle_setTimer h.2 fd expires⟩
      · cases hstep
  | msg request msg =>
      rw [epollHandleMsg_ok hstep]
      exact ⟨h.1.schedule _ _ _ _, idle_setTimer h.2 _ _⟩
  | event ev =>
      simp only [changeStep] at hstep
      split at hstep
      · exact LocalData.Listed.event h hstep
      · cases hstep
  | timeout fd =>
      simp only [changeStep] at hstep
      split at hstep
      · cases hstep
        exact ⟨h.1.schedule (st.sd.map fd).victim fd 0 0, idle_setTimer h.2 fd 0⟩
      · cases hstep
  | timers now =>
      obtain ⟨run, hrun, rfl⟩ := epollTimers_ok hstep
      exact LocalData.Listed.timers (s := { st with now := now }) h.1 h.2 hrun
  | flush =>
      obtain ⟨hlisted, htbase⟩ := h.1.flush hstep
      exact ⟨hlisted, htbase ▸ h.2⟩
  | block events now =>
      obtain ⟨told, answered, run, hflush, _, hevents, hrun, rfl⟩ := processBlock_ok hstep
      obtain ⟨hlisted, htbase⟩ := h.1.flush hflush
      obtain ⟨hlisted', hidle'⟩ := LocalData.Listed.events ⟨hlisted, htbase ▸ h.2⟩ hevents
      exact LocalData.Listed.timers (s := { answered with now := now }) hlisted' hidle' hrun
  | kernel kernel =>
      simp only [changeStep] at hstep
      cases hstep
      exact h

theorem listed_constructor (opened : Nat → Bool) (mapSz pipeRead : Nat) (pid : Pid)
    (now : BitVec 64) : (epollConstructor opened mapSz pipeRead pid now).sd.Listed ∧
      (epollConstructor opened mapSz pipeRead pid now).sd.tbase.Idle := by
  refine ⟨LocalData.Listed.schedule ⟨fun fd => by simp, List.nodup_nil⟩ _ _ _ _,
    idle_setTimer ⟨linked_init now, rfl⟩ pipeRead 0⟩

/-- No act runs into the branch for an item with both masks 0. -/
theorem LocalData.Listed.step_ne_wtf {st : EpollState} (h : st.sd.Listed) (a : ChangeAct) :
    changeStep a st ≠ .error .wtf := by
  have hflush : flushChanged st ≠ .error .wtf := by
    intro hf
    obtain ⟨errno, he⟩ := h.flushes.faults _ hf
    cases he
  have hevent : ∀ (s : EpollState) ev, handleEvent s ev ≠ .error .wtf := by
    intro s ev he
    unfold handleEvent eventAnswer at he
    simp only at he
    split_ifs at he
    all_goals cases he
  have hevents : ∀ (events : List (Nat × EpollMask)) (s : EpollState),
      events.foldlM handleEvent s ≠ .error .wtf := by
    intro events
    induction events with
    | nil => intro s he; cases he
    | cons ev events ih =>
        intro s he
        rw [List.foldlM_cons] at he
        rcases hev : handleEvent s ev with fault | mid
        · rw [hev] at he
          exact hevent s ev (hev.trans he)
        · rw [hev] at he
          exact ih mid he
  have htimers : ∀ (s : EpollState) now, epollTimers s now ≠ .error .wtf := by
    intro s now he
    unfold epollTimers at he
    split at he <;> cases he
  intro hstep
  cases a with
  | schedule victim fd newMask expires =>
      simp only [changeStep] at hstep
      split at hstep <;> cases hstep
  | msg request msg =>
      simp only [changeStep, epollHandleMsg] at hstep
      split at hstep <;> cases hstep
  | event ev =>
      simp only [changeStep] at hstep
      split at hstep
      · exact hevent st ev hstep
      · cases hstep
  | timeout fd =>
      simp only [changeStep] at hstep
      split at hstep <;> cases hstep
  | timers now => exact htimers st now hstep
  | flush => exact hflush hstep
  | block events now =>
      simp only [changeStep, processBlock] at hstep
      rcases hf : flushChanged st with fault | told
      · rw [hf] at hstep
        exact hflush (hf.trans hstep)
      · rw [hf] at hstep
        simp only [bind, Except.bind] at hstep
        split at hstep
        · cases hstep
        split at hstep
        · rcases he : events.foldlM handleEvent told with fault | answered
          · rw [he] at hstep
            exact hevents events told (he.trans hstep)
          · rw [he] at hstep
            exact htimers answered now hstep
        · cases hstep
  | kernel kernel => cases hstep

/--
**The change list is exact.**

In every state the engine can get into, an item is listed exactly while its masks
differ, and once; a flush handles every listed item once and leaves none; and no act
finds an item with both masks 0 on the list.
-/
theorem change_list_exact (opened : Nat → Bool) (mapSz pipeRead : Nat) (pid : Pid)
    (now : BitVec 64) (st : EpollState)
    (hr : Runs changeStep anyAct (epollConstructor opened mapSz pipeRead pid now) st) :
    (∀ fd, st.sd.changed.count fd
      = if (st.sd.map fd).newMask ≠ (st.sd.map fd).epollMask then 1 else 0) ∧
    st.FlushesExactly ∧ ∀ a, changeStep a st ≠ .error .wtf := by
  have h := Runs.invariant hr (fun a t t' h _ => listed_step a t t' h)
    (listed_constructor opened mapSz pipeRead pid now)
  refine ⟨fun fd => ?_, h.1.flushes, h.1.step_ne_wtf⟩
  rw [h.1.nodup.count]
  simp only [h.1.changed fd]

/-- A descriptor is registered, taken back before the flush and registered again. -/
theorem change_list_exact_toggled : ∃ st : EpollState,
    st.sd.changed = [3, 4] ∧ (∀ fd, st.sd.changed.count fd
      = if (st.sd.map fd).newMask ≠ (st.sd.map fd).epollMask then 1 else 0) ∧
    st.FlushesExactly ∧ ∀ a, changeStep a st ≠ .error .wtf := by
  obtain ⟨st, hr, hlist⟩ := exists_run (show (runActs changeStep anyAct
    [.schedule 7 4 epollIn 0, .schedule 7 4 0 0, .schedule 9 4 epollOut 5]
    (epollConstructor (fun _ => true) 8 3 nullPid 0)).any
      (fun st => decide (st.sd.changed = [3, 4])) = true by decide +kernel)
  exact ⟨st, of_decide_eq_true hlist,
    change_list_exact (fun _ => true) 8 3 nullPid 0 st hr⟩

end Msock
