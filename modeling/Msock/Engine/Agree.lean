import Msock.Engine.Epoll
import Msock.Engine.Select

/-!
# Two engines, one service

Both engines answer for `PID_SELECT`, so a series of messages should leave them
expecting the same events. The epoll engine holds the direction registered last, the
select engine every direction registered since the last unregistration: they differ
on a descriptor exactly when both directions have been registered since then.
-/

namespace Msock

/-- A message to the descriptor engine. -/
abbrev FdMessage := MsgFdRequest × MsockMsgFd

/-- The epoll engine takes a series of messages. -/
def epollMessages (st : EpollState) (msgs : List FdMessage) : Except EpollFault EpollState :=
  msgs.foldlM (fun st m => epollHandleMsg st m.1 m.2) st

/-- The select engine takes a series of messages. -/
def selectMessages (st : SelectState) (msgs : List FdMessage) :
    Except SelectFault SelectState :=
  msgs.foldlM (fun st m => processHandleMsgFd st m.1 m.2) st

/-- The directions the epoll engine waits for: reading, writing. -/
def LocalData.armed (sd : LocalData) (fd : Nat) : Bool × Bool :=
  ((sd.map fd).newMask &&& epollIn ≠ 0, (sd.map fd).newMask &&& epollOut ≠ 0)

/-- The directions the select engine waits for: reading, writing. -/
def SelectData.armed (sd : SelectData) (fd : Nat) : Bool × Bool :=
  (sd.readFds fd, sd.writeFds fd)

/-- The engines hold the same about a descriptor. -/
structure Agree (e : LocalData) (s : SelectData) (fd : Nat) : Prop where
  armed : e.armed fd = s.armed fd
  deadline : deadline e.tbase fd = deadline s.tbase fd
  /-- Who is told matters only for an armed descriptor. -/
  victim : s.armed fd ≠ (false, false) → (e.map fd).victim = s.victim fd

/-! ## What the messages leave standing -/

/-- One message's effect on the registrations that stand for a descriptor. -/
def standingStep (fd : Nat) (standing : List MsgFdRequest) (m : FdMessage) :
    List MsgFdRequest :=
  if m.2.fd = fd then
    match m.1 with
    | .unregister => []
    | request => standing ++ [request]
  else standing

/-- The registrations of a descriptor since it was last unregistered, in order. -/
def standing (fd : Nat) (msgs : List FdMessage) : List MsgFdRequest :=
  msgs.foldl (standingStep fd) []

/-- No direction is registered while the other one stands. -/
def OneDirection (fd : Nat) (msgs : List FdMessage) : Prop :=
  ¬ (.registerRead ∈ standing fd msgs ∧ .registerWrite ∈ standing fd msgs)

instance (fd : Nat) (msgs : List FdMessage) : Decidable (OneDirection fd msgs) := by
  unfold OneDirection; infer_instance

/-! ## The timers -/

theorem deadline_congr {a b : TimerBase Nat} {fd : Nat} (hentry : a.entry fd = b.entry fd)
    (hexpires : a.expires fd = b.expires fd) : deadline a fd = deadline b fd := by
  unfold deadline timerPending
  rw [hentry, hexpires]

theorem deadline_setTimer_self (tbase : TimerBase Nat) (fd : Nat) (expires : BitVec 64) :
    deadline (setTimer tbase fd expires) fd
      = if expires ≠ 0 then some expires else none := by
  unfold setTimer deadline timerPending timerAdd
  split <;> simp

theorem deadline_setTimer_ne (tbase : TimerBase Nat) {fd fd' : Nat} (expires : BitVec 64)
    (h : fd' ≠ fd) : deadline (setTimer tbase fd expires) fd' = deadline tbase fd' := by
  unfold setTimer timerAdd
  split <;> exact deadline_congr (by simp [h]) (by simp [h])

theorem deadline_timerDel_self (tbase : TimerBase Nat) (fd : Nat) :
    deadline (timerDel tbase fd) fd = none := by
  simp [deadline, timerPending]

theorem deadline_timerDel_ne (tbase : TimerBase Nat) {fd fd' : Nat} (h : fd' ≠ fd) :
    deadline (timerDel tbase fd) fd' = deadline tbase fd' :=
  deadline_congr (by simp [h]) (by simp)

/-! ## Both engines along a series of messages -/

/-- What both engines hold about a descriptor, in terms of what stands for it. -/
structure Tracks (fd : Nat) (regs : List MsgFdRequest) (e : LocalData) (s : SelectData) :
    Prop where
  /-- Only registrations stand. -/
  onlyRegs : .unregister ∉ regs
  /-- The epoll engine asks for the last one. -/
  newMask : (e.map fd).newMask = (regs.getLast?.map requestMask).getD 0
  /-- The select engine asks for all of them. -/
  read : s.readFds fd = decide (.registerRead ∈ regs)
  write : s.writeFds fd = decide (.registerWrite ∈ regs)
  deadline : Msock.deadline e.tbase fd = Msock.deadline s.tbase fd
  victim : regs ≠ [] → (e.map fd).victim = s.victim fd

/-- The epoll engine's data after a message. -/
def epollMsgData (sd : LocalData) (m : FdMessage) : LocalData :=
  scheduleChange sd m.2.victim m.2.fd (requestMask m.1)
    (if m.1 = .unregister then 0 else m.2.expires)

theorem epollHandleMsg_sd {st : EpollState} {m : FdMessage} (h : m.2.fd < st.sd.mapSz) :
    ∃ st', epollHandleMsg st m.1 m.2 = .ok st' ∧ st'.sd = epollMsgData st.sd m := by
  obtain ⟨request, msg⟩ := m
  unfold epollHandleMsg
  rw [if_pos h]
  cases request <;> exact ⟨_, rfl, rfl⟩

theorem processHandleMsgFd_sd {st : SelectState} {m : FdMessage} (h : m.2.fd < fdSetsize) :
    ∃ st', processHandleMsgFd st m.1 m.2 = .ok st' ∧ st'.sd = handleMsgFd st.sd m.1 m.2 := by
  unfold processHandleMsgFd
  rw [if_neg (Nat.not_le.2 h)]
  exact ⟨_, rfl, rfl⟩

/-- A message for another descriptor is of no consequence. -/
theorem Tracks.other {fd : Nat} {regs : List MsgFdRequest} {e : LocalData} {s : SelectData}
    (h : Tracks fd regs e s) {m : FdMessage} (hne : m.2.fd ≠ fd) :
    Tracks fd regs (epollMsgData e m) (handleMsgFd s m.1 m.2) := by
  have hmap : (epollMsgData e m).map fd = e.map fd := Function.update_of_ne hne.symm _ _
  have hepoll : Msock.deadline (epollMsgData e m).tbase fd = Msock.deadline e.tbase fd :=
    deadline_setTimer_ne _ _ hne.symm
  obtain ⟨request, msg⟩ := m
  refine ⟨h.onlyRegs, by rw [hmap]; exact h.newMask, ?_, ?_, ?_, ?_⟩
  · cases request <;> simp [handleMsgFd, fdUnregister, hne.symm, h.read]
  · cases request <;> simp [handleMsgFd, fdUnregister, hne.symm, h.write]
  · rw [hepoll, h.deadline]
    cases request
    · exact (deadline_setTimer_ne _ _ hne.symm).symm
    · exact (deadline_setTimer_ne _ _ hne.symm).symm
    · exact (deadline_timerDel_ne _ hne.symm).symm
  · intro hregs
    rw [hmap, h.victim hregs]
    cases request <;> simp [handleMsgFd, fdUnregister, hne.symm]

/-- A message for the descriptor itself. -/
theorem Tracks.self {fd : Nat} {regs : List MsgFdRequest} {e : LocalData} {s : SelectData}
    (h : Tracks fd regs e s) {m : FdMessage} (hfd : m.2.fd = fd) :
    Tracks fd (standingStep fd regs m) (epollMsgData e m) (handleMsgFd s m.1 m.2) := by
  obtain ⟨request, msg⟩ := m
  dsimp only at hfd
  subst hfd
  have hread := h.read
  have hwrite := h.write
  -- the mask of epoll is the last request alone, the bits of select add up
  cases request with
  | unregister =>
      refine ⟨by simp [standingStep], ?_, ?_, ?_, ?_, fun hregs => absurd ?_ hregs⟩
      · simp [epollMsgData, scheduleChange, standingStep, requestMask]
      · simp [handleMsgFd, fdUnregister, standingStep]
      · simp [handleMsgFd, fdUnregister, standingStep]
      · simp [epollMsgData, scheduleChange, handleMsgFd, fdUnregister,
          deadline_setTimer_self, deadline_timerDel_self]
      · simp [standingStep]
  | registerRead =>
      refine ⟨by simp [standingStep, h.onlyRegs], ?_, ?_, ?_, ?_, fun _ => ?_⟩
      · simp [epollMsgData, scheduleChange, standingStep]
      · simp [handleMsgFd, standingStep]
      · simp [handleMsgFd, standingStep, hwrite]
      · simp [epollMsgData, scheduleChange, handleMsgFd, deadline_setTimer_self]
      · simp [epollMsgData, scheduleChange, handleMsgFd]
  | registerWrite =>
      refine ⟨by simp [standingStep, h.onlyRegs], ?_, ?_, ?_, ?_, fun _ => ?_⟩
      · simp [epollMsgData, scheduleChange, standingStep]
      · simp [handleMsgFd, standingStep, hread]
      · simp [handleMsgFd, standingStep]
      · simp [epollMsgData, scheduleChange, handleMsgFd, deadline_setTimer_self]
      · simp [epollMsgData, scheduleChange, handleMsgFd]

theorem Tracks.step {fd : Nat} {regs : List MsgFdRequest} {e : LocalData} {s : SelectData}
    (h : Tracks fd regs e s) (m : FdMessage) :
    Tracks fd (standingStep fd regs m) (epollMsgData e m) (handleMsgFd s m.1 m.2) := by
  by_cases hfd : m.2.fd = fd
  · exact h.self hfd
  · rw [standingStep, if_neg hfd]
    exact h.other hfd

/-- A series of messages that both tables have room for goes through, and both engines
keep track of what stands. -/
theorem messages_tracks (fds : Nat → Prop) (msgs : List FdMessage) :
    ∀ (e : EpollState) (s : SelectState) (regs : Nat → List MsgFdRequest),
      (∀ m ∈ msgs, m.2.fd < e.sd.mapSz ∧ m.2.fd < fdSetsize) →
      (∀ fd, fds fd → Tracks fd (regs fd) e.sd s.sd) →
      ∃ e' s', epollMessages e msgs = .ok e' ∧ selectMessages s msgs = .ok s' ∧
        ∀ fd, fds fd → Tracks fd (msgs.foldl (standingStep fd) (regs fd)) e'.sd s'.sd := by
  induction msgs with
  | nil => exact fun e s regs _ h => ⟨e, s, rfl, rfl, h⟩
  | cons m msgs ih =>
      intro e s regs hfd h
      obtain ⟨hm, hmsgs⟩ := List.forall_mem_cons.1 hfd
      obtain ⟨e1, he1, hsd1⟩ := epollHandleMsg_sd hm.1
      obtain ⟨s1, hs1, hsd1'⟩ := @processHandleMsgFd_sd s m hm.2
      obtain ⟨e', s', he', hs', htr⟩ := ih e1 s1 (fun fd => standingStep fd (regs fd) m)
        (by rw [hsd1]; exact hmsgs)
        (by rw [hsd1, hsd1']; exact fun fd hfd => (h fd hfd).step m)
      refine ⟨e', s', ?_, ?_, htr⟩
      · rw [epollMessages, List.foldlM_cons, he1]; exact he'
      · rw [selectMessages, List.foldlM_cons, hs1]; exact hs'

/-- Tracked engines agree when not both directions stand. -/
theorem Tracks.agree_iff {fd : Nat} {regs : List MsgFdRequest} {e : LocalData}
    {s : SelectData} (h : Tracks fd regs e s) :
    Agree e s fd ↔ ¬ (.registerRead ∈ regs ∧ .registerWrite ∈ regs) := by
  have hmask := h.newMask
  constructor
  · -- the epoll engine waits for one direction only
    rintro hagree ⟨hr, hw⟩
    have harmed := hagree.armed
    rw [LocalData.armed, SelectData.armed, h.read, h.write, hmask] at harmed
    rcases hlast : regs.getLast? with _ | request
    · rw [List.getLast?_eq_none_iff.1 hlast] at hr
      exact List.not_mem_nil hr
    · rw [hlast] at harmed
      cases request <;>
        simp [hr, hw, requestMask, epollIn, epollOut] at harmed
  · intro hone
    have hlast : ∀ request, regs.getLast? = some request → request ∈ regs :=
      fun request hr => List.mem_of_getLast? hr
    refine ⟨?_, h.deadline, fun harmed => h.victim ?_⟩
    · rw [LocalData.armed, SelectData.armed, h.read, h.write, hmask]
      rcases hr : regs.getLast? with _ | request
      · rw [List.getLast?_eq_none_iff.1 hr]; simp
      · have hmem := hlast request hr
        cases request with
        | registerRead =>
            have hw : MsgFdRequest.registerWrite ∉ regs := fun hw => hone ⟨hmem, hw⟩
            simp [hmem, hw, requestMask, epollIn, epollOut]
        | registerWrite =>
            have hrd : MsgFdRequest.registerRead ∉ regs := fun hrd => hone ⟨hrd, hmem⟩
            simp [hmem, hrd, requestMask, epollIn, epollOut]
        | unregister => exact absurd hmem h.onlyRegs
    · rintro rfl
      apply harmed
      simp [SelectData.armed, h.read, h.write]

/-- Nothing stands at the start. -/
theorem tracks_constructors (opened : Nat → Bool) (mapSz pipeE pipeS : Nat) (pidE pidS : Pid)
    (nowE nowS : BitVec 64) {s : SelectState} (hcon : selectConstructor pipeS pidS nowS = .ok s)
    (fd : Nat) (hE : fd ≠ pipeE) (hS : fd ≠ pipeS) :
    Tracks fd [] (epollConstructor opened mapSz pipeE pidE nowE).sd s.sd := by
  unfold selectConstructor processHandleMsgFd at hcon
  split at hcon
  · cases hcon
  cases hcon
  constructor
  case onlyRegs => exact List.not_mem_nil
  case newMask => simp [epollConstructor, scheduleChange, hE]
  case read => simp [handleMsgFd, hS]
  case write => simp [handleMsgFd]
  case deadline =>
      have h0 : ∀ now : BitVec 64, deadline (initTimerBase (τ := Nat) now) fd = none :=
        fun now => by simp [deadline, timerPending, initTimerBase]
      simp only [epollConstructor, scheduleChange, handleMsgFd]
      rw [deadline_setTimer_ne _ _ hE, deadline_setTimer_ne _ _ hS, h0, h0]
  case victim => exact fun h => absurd rfl h

/--
**Where the two engines agree.**

After any series of messages that both tables have room for, the engines hold the
same for every user descriptor exactly if no user descriptor has had both directions
registered since it was last unregistered.
-/
theorem engines_agree_iff (opened : Nat → Bool) (mapSz pipeE pipeS : Nat) (pidE pidS : Pid)
    (nowE nowS : BitVec 64) (msgs : List FdMessage)
    (hfd : ∀ m ∈ msgs, m.2.fd < mapSz ∧ m.2.fd < fdSetsize) {s₀ : SelectState}
    (hcon : selectConstructor pipeS pidS nowS = .ok s₀) :
    ∃ e s, epollMessages (epollConstructor opened mapSz pipeE pidE nowE) msgs = .ok e ∧
      selectMessages s₀ msgs = .ok s ∧
      ((∀ fd, fd ≠ pipeE → fd ≠ pipeS → Agree e.sd s.sd fd) ↔
        ∀ fd, fd ≠ pipeE → fd ≠ pipeS → OneDirection fd msgs) := by
  obtain ⟨e, s, he, hs, htr⟩ :=
    messages_tracks (fun fd => fd ≠ pipeE ∧ fd ≠ pipeS) msgs
    (epollConstructor opened mapSz pipeE pidE nowE) s₀ (fun _ => []) hfd
    (fun fd h => tracks_constructors opened mapSz pipeE pipeS pidE pidS nowE nowS hcon fd h.1 h.2)
  refine ⟨e, s, he, hs, ?_⟩
  constructor
  · intro h fd hE hS
    exact (htr fd ⟨hE, hS⟩).agree_iff.1 (h fd hE hS)
  · intro h fd hE hS
    exact (htr fd ⟨hE, hS⟩).agree_iff.2 (h fd hE hS)

/-- A descriptor registered for reading, then unregistered, then registered for writing. -/
theorem engines_agree_after_unregister :
    ∃ s₀ e s, selectConstructor 3 1 0 = .ok s₀ ∧
      epollMessages (epollConstructor (fun _ => true) 16 3 1 0)
        [(.registerRead, ⟨7, 5, 0⟩), (.unregister, ⟨7, 5, 0⟩), (.registerWrite, ⟨7, 5, 9⟩)]
        = .ok e ∧
      selectMessages s₀
        [(.registerRead, ⟨7, 5, 0⟩), (.unregister, ⟨7, 5, 0⟩), (.registerWrite, ⟨7, 5, 9⟩)]
        = .ok s ∧
      ((∀ fd, fd ≠ 3 → fd ≠ 3 → Agree e.sd s.sd fd) ↔
        ∀ fd, fd ≠ 3 → fd ≠ 3 → OneDirection fd
          [(.registerRead, ⟨7, 5, 0⟩), (.unregister, ⟨7, 5, 0⟩), (.registerWrite, ⟨7, 5, 9⟩)]) := by
  obtain ⟨s₀, hcon⟩ : ∃ s₀, selectConstructor 3 1 0 = .ok s₀ := ⟨_, rfl⟩
  obtain ⟨e, s, he, hs, hiff⟩ := engines_agree_iff (fun _ => true) 16 3 3 1 1 0 0
    [(.registerRead, ⟨7, 5, 0⟩), (.unregister, ⟨7, 5, 0⟩), (.registerWrite, ⟨7, 5, 9⟩)]
    (by decide) hcon
  exact ⟨s₀, e, s, hcon, he, hs, hiff⟩

/-- Registering to write right after registering to read leaves the select engine
waiting for both and the epoll engine for one. -/
theorem engines_differ_on_read_write :
    ∃ s₀ e s, selectConstructor 3 1 0 = .ok s₀ ∧
      epollMessages (epollConstructor (fun _ => true) 16 3 1 0)
        [(.registerRead, ⟨7, 5, 0⟩), (.registerWrite, ⟨7, 5, 0⟩)] = .ok e ∧
      selectMessages s₀ [(.registerRead, ⟨7, 5, 0⟩), (.registerWrite, ⟨7, 5, 0⟩)] = .ok s ∧
      ¬ ∀ fd, fd ≠ 3 → Agree e.sd s.sd fd := by
  refine ⟨_, _, _, rfl, rfl, rfl, fun h => ?_⟩
  exact absurd (h 5 (by decide)).armed (by decide)

end Msock
