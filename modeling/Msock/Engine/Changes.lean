import Msock.Engine.Epoll

/-!
# The change list and the state of a descriptor

Four things are kept for a descriptor: the mask asked for, the mask told to the
kernel, whom to answer, and a timer. They are changed by messages, by events and by
timeouts, and always through `schedule_change`, so one lemma about it says that they
stay in step with the last thing that happened about the descriptor.
-/

namespace Msock

open Lib

/-- The mask the last note about a descriptor leaves asked for. -/
def requestedMask (notes : List FdNote) (fd : Nat) : EpollMask :=
  match latestNote fd notes with
  | some (.registered request _ _) => requestMask request
  | _ => 0

/-- The engine's state of every descriptor goes with what has happened about it. -/
structure EpollState.Wired (st : EpollState) : Prop where
  linked : st.sd.tbase.Linked
  /-- The mask asked for is that of a standing registration. -/
  newMask : ∀ fd, (st.sd.map fd).newMask = requestedMask st.notes fd
  /-- A standing registration's victim is known. -/
  victim : ∀ fd request victim,
    latestNote fd st.notes = some (.registered request fd victim) →
      (st.sd.map fd).victim = victim
  /-- Only a registered descriptor has a timer. -/
  pending : ∀ fd, timerPending st.sd.tbase fd = true → (st.sd.map fd).newMask ≠ 0
  /-- The list holds the descriptors the kernel must be told about. -/
  changed : ∀ fd, fd ∈ st.sd.changed ↔ (st.sd.map fd).newMask ≠ (st.sd.map fd).epollMask
  nodup : st.sd.changed.Nodup
  oneShot : OneShot st.notes

/-- A mask asked for means a registration that stands. -/
theorem registered_of_requestedMask {notes : List FdNote} {fd : Nat}
    (h : requestedMask notes fd ≠ 0) :
    ∃ request victim, latestNote fd notes = some (.registered request fd victim) := by
  unfold requestedMask at h
  split at h
  · rename_i request fd' victim hlatest
    have hfd : fd' = fd := (fd_of_latestNote hlatest).2
    subst hfd
    exact ⟨request, victim, hlatest⟩
  · exact absurd rfl h

/-- A descriptor with a mask asked for is registered, and its victim is the one to answer. -/
theorem EpollState.Wired.registered {st : EpollState} (h : st.Wired) {fd : Nat}
    (hmask : (st.sd.map fd).newMask ≠ 0) :
    ∃ request, latestNote fd st.notes = some (.registered request fd (st.sd.map fd).victim) := by
  rw [h.newMask] at hmask
  obtain ⟨request, victim, hlatest⟩ := registered_of_requestedMask hmask
  rw [h.victim fd request victim hlatest]
  exact ⟨request, hlatest⟩

/-! ## `schedule_change` -/

section ScheduleChange
variable (sd : LocalData) (victim : Pid) (fd : Nat) (newMask : EpollMask) (expires : BitVec 64)

@[simp] theorem scheduleChange_map_self :
    (scheduleChange sd victim fd newMask expires).map fd
      = { sd.map fd with victim := victim, newMask := newMask } := by
  simp [scheduleChange]

theorem scheduleChange_map_ne {fd' : Nat} (h : fd' ≠ fd) :
    (scheduleChange sd victim fd newMask expires).map fd' = sd.map fd' := by
  simp [scheduleChange, h]

@[simp] theorem scheduleChange_epollMask (fd' : Nat) :
    ((scheduleChange sd victim fd newMask expires).map fd').epollMask
      = (sd.map fd').epollMask := by
  by_cases h : fd' = fd
  · subst h; simp
  · rw [scheduleChange_map_ne _ _ _ _ _ h]

@[simp] theorem scheduleChange_pipeRead :
    (scheduleChange sd victim fd newMask expires).pipeRead = sd.pipeRead := rfl

@[simp] theorem scheduleChange_tbase :
    (scheduleChange sd victim fd newMask expires).tbase = setTimer sd.tbase fd expires := rfl

/-- A descriptor that needs no change leaves the list, any other is on it once. -/
theorem scheduleChange_changed (hnodup : sd.changed.Nodup) (fd' : Nat) :
    fd' ∈ (scheduleChange sd victim fd newMask expires).changed
      ↔ if fd' = fd then newMask ≠ (sd.map fd).epollMask else fd' ∈ sd.changed := by
  simp only [scheduleChange]
  by_cases hfd : fd' = fd
  · subst hfd
    rw [if_pos rfl]
    split_ifs with hmask hmem hmem
    · simp [hnodup.mem_erase_iff, hmask]
    · simp [hmem, hmask]
    · simp [hmem, hmask]
    · simp [hmask]
  · rw [if_neg hfd]
    split_ifs with hmask hmem hmem
    · rw [hnodup.mem_erase_iff]; simp [hfd]
    · rfl
    · rfl
    · simp [hfd]

theorem scheduleChange_nodup (hnodup : sd.changed.Nodup) :
    (scheduleChange sd victim fd newMask expires).changed.Nodup := by
  simp only [scheduleChange]
  split_ifs with hmask hmem hmem
  · exact hnodup.erase fd
  · exact hnodup
  · exact hnodup
  · rw [List.nodup_append]
    refine ⟨hnodup, List.nodup_singleton fd, ?_⟩
    intro a ha b hb hab
    rw [List.mem_singleton] at hb
    exact hmem (hb ▸ hab ▸ ha)

end ScheduleChange

theorem linked_setTimer {tbase : TimerBase Nat} (h : tbase.Linked) (fd : Nat)
    (expires : BitVec 64) : (setTimer tbase fd expires).Linked := by
  unfold setTimer
  split
  · exact h.timerMod fd expires
  · exact h.timerDel fd

/-- Setting a timer brings nothing onto the work list. -/
theorem idle_setTimer {tbase : TimerBase Nat} (h : tbase.Idle) (fd : Nat)
    (expires : BitVec 64) : (setTimer tbase fd expires).Idle := by
  refine ⟨linked_setTimer h.1 fd expires, ?_⟩
  have hops : TimerOps tbase (setTimer tbase fd expires) := by
    unfold setTimer
    split
    · exact TimerOps.mod tbase fd expires
    · exact TimerOps.del tbase fd
  have hsub := hops.work h.1
  rw [h.2] at hsub
  exact List.sublist_nil.1 hsub

/-- Setting a timer leaves the others; it is pending exactly if it is set to a time. -/
theorem timerPending_setTimer (tbase : TimerBase Nat) (fd fd' : Nat) (expires : BitVec 64) :
    timerPending (setTimer tbase fd expires) fd' = true
      ↔ if fd' = fd then expires ≠ 0 else timerPending tbase fd' = true := by
  unfold setTimer timerPending timerAdd
  by_cases hfd : fd' = fd
  · subst hfd
    rw [if_pos rfl]
    split_ifs with hexp
    · simpa using hexp
    · simpa using hexp
  · rw [if_neg hfd]
    split_ifs with hexp <;> simp [hfd]

/--
**One change keeps a descriptor's state in step.**

A change is made together with a note: a registration sets the mask and the victim, an
unregistration or an answer clears the mask and the timer.
-/
theorem EpollState.Wired.change {st : EpollState} (h : st.Wired) {note : FdNote} {victim : Pid}
    {fd : Nat} {mask : EpollMask} {expires : BitVec 64} (hfd : note.fd = fd)
    (hmask : requestedMask [note] fd = mask)
    (hvictim : ∀ request v, note = .registered request fd v → victim = v)
    (hexp : expires ≠ 0 → mask ≠ 0)
    (hsent : ∀ v answer fd', note = .sent v answer fd' →
      ∃ request, latestNote fd' st.notes = some (.registered request fd' v)) :
    ({ st with
        sd := scheduleChange st.sd victim fd mask expires
        notes := st.notes ++ [note] } : EpollState).Wired := by
  have hlatest : ∀ fd', fd' ≠ fd → latestNote fd' (st.notes ++ [note])
      = latestNote fd' st.notes := by
    intro fd' hne
    rw [latestNote_concat, if_neg (by rw [hfd]; exact hne.symm)]
  have hself : latestNote fd (st.notes ++ [note]) = some note := by
    rw [latestNote_concat, if_pos hfd]
  constructor
  case linked => exact linked_setTimer h.linked fd expires
  case newMask =>
      intro fd'
      by_cases hne : fd' = fd
      · subst hne
        have hone : latestNote fd' [note] = some note := by
          have := latestNote_concat fd' [] note
          rwa [if_pos hfd, List.nil_append] at this
        simp only [scheduleChange_map_self, ← hmask, requestedMask, hself, hone]
      · simp only [scheduleChange_map_ne _ _ _ _ _ hne, requestedMask, hlatest _ hne]
        exact h.newMask fd'
  case victim =>
      intro fd' request v hv
      by_cases hne : fd' = fd
      · subst hne
        simp only [hself, Option.some.injEq] at hv
        simp only [scheduleChange_map_self]
        exact hvictim request v hv
      · simp only [hlatest _ hne] at hv
        simp only [scheduleChange_map_ne _ _ _ _ _ hne]
        exact h.victim fd' request v hv
  case pending =>
      intro fd' hp
      simp only [scheduleChange_tbase, timerPending_setTimer] at hp
      by_cases hne : fd' = fd
      · subst hne
        rw [if_pos rfl] at hp
        simp only [scheduleChange_map_self]
        exact hexp hp
      · rw [if_neg hne] at hp
        simp only [scheduleChange_map_ne _ _ _ _ _ hne]
        exact h.pending fd' hp
  case changed =>
      intro fd'
      rw [scheduleChange_changed _ _ _ _ _ h.nodup]
      by_cases hne : fd' = fd
      · subst hne; simp
      · rw [if_neg hne, h.changed fd', scheduleChange_map_ne _ _ _ _ _ hne]
  case nodup => exact scheduleChange_nodup _ _ _ _ _ h.nodup
  case oneShot => exact h.oneShot.concat hsent

/-- A wheel with the same or fewer timers pending does as well. -/
theorem EpollState.Wired.setTbase {st : EpollState} (h : st.Wired) {base : TimerBase Nat}
    (hlinked : base.Linked)
    (hpending : ∀ fd, timerPending base fd = true → timerPending st.sd.tbase fd = true) :
    (epollOwner.setTbase st base).Wired where
  linked := hlinked
  newMask := h.newMask
  victim := h.victim
  pending := fun fd hp => h.pending fd (hpending fd hp)
  changed := h.changed
  nodup := h.nodup
  oneShot := h.oneShot

/-! ## Messages, events and timeouts -/

/-- Answering leaves the kernel and what it was told alone. -/
structure EpollState.Answered (st st' : EpollState) : Prop where
  kernel : st'.kernel = st.kernel
  reopened : st'.reopened = st.reopened
  epollMask : ∀ fd, (st'.sd.map fd).epollMask = (st.sd.map fd).epollMask
  pipeRead : st'.sd.pipeRead = st.sd.pipeRead
  /-- What is new are answers. -/
  notes : ∀ note ∈ st'.notes, note ∈ st.notes ∨ ∃ victim answer fd, note = .sent victim answer fd

theorem EpollState.Answered.refl (st : EpollState) : st.Answered st :=
  ⟨rfl, rfl, fun _ => rfl, rfl, fun _ hmem => Or.inl hmem⟩

theorem EpollState.Answered.trans {a b c : EpollState} (h₁ : a.Answered b)
    (h₂ : b.Answered c) : a.Answered c where
  kernel := h₂.kernel.trans h₁.kernel
  reopened := h₂.reopened.trans h₁.reopened
  epollMask := fun fd => (h₂.epollMask fd).trans (h₁.epollMask fd)
  pipeRead := h₂.pipeRead.trans h₁.pipeRead
  notes := by
    intro note hmem
    rcases h₂.notes note hmem with hold | hnew
    · exact h₁.notes note hold
    · exact Or.inr hnew

/-- Neither does a change of the wheel. -/
theorem answered_setTbase (st : EpollState) (base : TimerBase Nat) :
    st.Answered (epollOwner.setTbase st base) :=
  ⟨rfl, rfl, fun _ => rfl, rfl, fun _ hmem => Or.inl hmem⟩

/-- One answer, whatever it leaves as victim. -/
theorem answered_sent (st : EpollState) (fd : Nat) (victim victim' : Pid)
    (answer : MsgFdAnswer) :
    st.Answered { st with
      sd := scheduleChange st.sd victim' fd 0 0
      notes := st.notes ++ [.sent victim answer fd] } where
  kernel := rfl
  reopened := rfl
  epollMask := fun fd' => scheduleChange_epollMask _ _ _ _ _ fd'
  pipeRead := rfl
  notes := by
    intro note hmem
    rcases List.mem_append.1 hmem with hold | hnew
    · exact Or.inl hold
    · exact Or.inr ⟨victim, answer, fd, List.mem_singleton.1 hnew⟩

/-- A message is a change, with the note and the mask that go with it. -/
theorem epollHandleMsg_ok {st st' : EpollState} {request : MsgFdRequest} {msg : MsockMsgFd}
    (h : epollHandleMsg st request msg = .ok st') :
    st' = { st with
      sd := scheduleChange st.sd msg.victim msg.fd (requestMask request)
        (if request = .unregister then 0 else msg.expires)
      notes := st.notes ++ [requestNote request msg] } := by
  unfold epollHandleMsg at h
  split at h
  · cases request <;> exact (Except.ok.inj h).symm
  · cases h

theorem EpollState.Wired.message {st st' : EpollState} (h : st.Wired) {request : MsgFdRequest}
    {msg : MsockMsgFd} (hstep : epollHandleMsg st request msg = .ok st') :
    st'.Wired := by
  rw [epollHandleMsg_ok hstep]
  apply h.change
  · cases request <;> rfl
  · cases request <;> simp [requestedMask, requestNote, requestMask, latestNote, FdNote.fd]
  · intro request' v hnote
    cases request with
    | unregister => cases hnote
    | registerRead => cases hnote; rfl
    | registerWrite => cases hnote; rfl
  · cases request
    · exact fun _ => by decide
    · exact fun _ => by decide
    · exact fun hexp => absurd rfl hexp
  · intro v answer fd' hnote
    cases request <;> cases hnote

/-- An answer to a standing registration, whatever it leaves as victim. -/
theorem EpollState.Wired.answer {st : EpollState} (h : st.Wired) {fd : Nat}
    (hmask : (st.sd.map fd).newMask ≠ 0) (answer : MsgFdAnswer) (victim : Pid) :
    ({ st with
        sd := scheduleChange st.sd victim fd 0 0
        notes := st.notes ++ [.sent (st.sd.map fd).victim answer fd] } : EpollState).Wired := by
  refine h.change rfl ?_ ?_ (fun hexp => absurd rfl hexp) ?_
  · simp [requestedMask, latestNote, FdNote.fd]
  · intro request v hnote; cases hnote
  · intro v answer' fd' hnote
    cases hnote
    exact h.registered hmask

/-- An event on the wake pipe is swallowed, any other is answered. -/
theorem handleEvent_ok {st st' : EpollState} {ev : Nat × EpollMask}
    (h : handleEvent st ev = .ok st') :
    st' = st ∨ ∃ answer, st' = { st with
      sd := scheduleChange st.sd nullPid ev.1 0 0
      notes := st.notes ++ [.sent (st.sd.map ev.1).victim answer ev.1] } := by
  unfold handleEvent at h
  simp only at h
  split at h
  · cases h
  · exact Or.inl (Except.ok.inj h).symm
  · rename_i answer _
    exact Or.inr ⟨answer, (Except.ok.inj h).symm⟩

/-- The events of one wait are on different descriptors, all of them registered: each
finds its registration standing. -/
theorem EpollState.Wired.events {events : List (Nat × EpollMask)} :
    ∀ {st st' : EpollState}, st.Wired → (events.map Prod.fst).Nodup →
      (∀ ev ∈ events, (st.sd.map ev.1).newMask ≠ 0) → st.sd.tbase.Idle →
      events.foldlM handleEvent st = .ok st' →
      st'.Wired ∧ st.Answered st' ∧ st'.sd.tbase.Idle := by
  induction events with
  | nil =>
      intro st st' h _ _ hidle hfold
      cases hfold
      exact ⟨h, EpollState.Answered.refl _, hidle⟩
  | cons ev events ih =>
      intro st st' h hnodup hmask hidle hfold
      rw [List.foldlM_cons] at hfold
      obtain ⟨mid, hev, hrest⟩ := bind_eq_ok.1 hfold
      obtain ⟨hnot, hnodup'⟩ := List.nodup_cons.1 hnodup
      obtain ⟨hself, hothers⟩ := List.forall_mem_cons.1 hmask
      rcases handleEvent_ok hev with rfl | ⟨answer, rfl⟩
      · exact ih h hnodup' hothers hidle hrest
      · have hothers' : ∀ ev' ∈ events,
            ((scheduleChange st.sd nullPid ev.1 0 0).map ev'.1).newMask ≠ 0 := by
          intro ev' hev'
          have hne : ev'.1 ≠ ev.1 := fun heq => hnot (heq ▸ List.mem_map_of_mem hev')
          rw [scheduleChange_map_ne _ _ _ _ _ hne]
          exact hothers ev' hev'
        obtain ⟨hw, hk, hidle'⟩ := ih (h.answer hself answer nullPid) hnodup' hothers'
          (idle_setTimer hidle ev.1 0) hrest
        exact ⟨hw, (answered_sent st ev.1 _ nullPid answer).trans hk, hidle'⟩

/-- The callback does one thing to the wheel. -/
theorem epollTimerCallback_ops (fd : Nat) (st : EpollState) :
    TimerOps (epollOwner.tbase st) (epollOwner.tbase (epollTimerCallback fd st)) :=
  TimerOps.del st.sd.tbase fd

/-- A run of the timers answers the registrations that time out. -/
theorem EpollState.Wired.runTimers {st : EpollState} (h : st.Wired)
    (hwork : st.sd.tbase.lists .work = []) {jiffies : BitVec 64} {run : BitVec 32 × EpollState}
    (hrun : timersRun epollOwner epollTimerCallback st jiffies = some run) :
    run.2.Wired ∧ st.Answered run.2 ∧ run.2.sd.tbase.Idle := by
  refine and_assoc.1 (timersRun_invariant
    (I := fun st' : BitVec 32 × EpollState => st'.2.Wired ∧ st.Answered st'.2)
    epollTimerCallback_ops ?_ ?_ hrun ⟨h.linked, hwork⟩ ⟨h, EpollState.Answered.refl st⟩)
  · rintro n s ⟨hs, hk⟩ hidle _
    have hstart := tickStarted hidle.1 hidle.2
    exact ⟨hs.setTbase hstart.linked (fun fd hp => hstart.pending fd ▸ hp),
      hk.trans (answered_setTbase s _)⟩
  · rintro n s fd rest ⟨hs, hk⟩ hlinked hwork
    -- the timer on the work list is pending, so its descriptor is registered
    have hpending : timerPending s.sd.tbase fd = true := by
      have hentry := (hlinked.mem fd .work).1 (by rw [hwork]; exact List.mem_cons_self)
      rw [timerPending]
      exact Option.isSome_of_eq_some hentry
    have hmask := hs.pending fd hpending
    have htake : (epollOwner.setTbase s (takeTimer s.sd.tbase fd)).Wired := by
      refine hs.setTbase (hs.linked.takeTimer fd) ?_
      intro fd' hp
      rw [timerPending, takeTimer_entry] at hp
      by_cases hfd : fd' = fd
      · subst hfd; exact hpending
      · rw [Function.update_of_ne hfd] at hp; exact hp
    have hsent := answered_sent (epollOwner.setTbase s (takeTimer s.sd.tbase fd)) fd
      (s.sd.map fd).victim (s.sd.map fd).victim .timeouted
    exact ⟨htake.answer hmask .timeouted _,
      (hk.trans (answered_setTbase s (takeTimer s.sd.tbase fd))).trans hsent⟩

/-! ## Telling the kernel -/

/-- A mask as an entry of the interest set. -/
def maskEntry (mask : EpollMask) : Option EpollMask := if mask = 0 then none else some mask

theorem getD_maskEntry (mask : EpollMask) : (maskEntry mask).getD 0 = mask := by
  unfold maskEntry
  split <;> simp_all

/-- What the flush has done once it has gone through a list of descriptors. -/
structure Flushed (fds : List Nat) (st st' : EpollState) : Prop where
  map : ∀ fd, st'.sd.map fd
    = if fd ∈ fds then { st.sd.map fd with epollMask := (st.sd.map fd).newMask }
      else st.sd.map fd
  changed : ∀ fd, st.sd.changed.Nodup → (fd ∈ st'.sd.changed ↔ fd ∈ st.sd.changed ∧ fd ∉ fds)
  nodup : st.sd.changed.Nodup → st'.sd.changed.Nodup
  interest : ∀ fd, st'.kernel.interest fd
    = if fd ∈ fds ∧ st.kernel.opened fd = true then maskEntry (st.sd.map fd).newMask
      else st.kernel.interest fd
  opened : st'.kernel.opened = st.kernel.opened
  pipeRead : st'.sd.pipeRead = st.sd.pipeRead
  mapSz : st'.sd.mapSz = st.sd.mapSz
  tbase : st'.sd.tbase = st.sd.tbase
  now : st'.now = st.now
  reopened : st'.reopened = st.reopened
  notes : st'.notes = st.notes

theorem flushed_nil (st : EpollState) : Flushed [] st st := by
  constructor <;> simp

/-- A round of the loop, and then the rest of it. -/
theorem Flushed.cons {fd : Nat} {fds : List Nat} {a b c : EpollState} (h₁ : Flushed [fd] a b)
    (h₂ : Flushed fds b c) (hnot : fd ∉ fds) : Flushed (fd :: fds) a c where
  map := by
    intro fd'
    rw [h₂.map, h₁.map]
    by_cases h : fd' = fd
    · subst h; simp [hnot]
    · simp [h]
  changed := by
    intro fd' hnodup
    rw [h₂.changed fd' (h₁.nodup hnodup), h₁.changed fd' hnodup]
    simp [and_assoc]
  nodup := fun hnodup => h₂.nodup (h₁.nodup hnodup)
  interest := by
    intro fd'
    rw [h₂.interest, h₁.interest, h₁.opened, h₁.map]
    by_cases h : fd' = fd
    · subst h; simp [hnot]
    · simp [h]
  opened := h₂.opened.trans h₁.opened
  pipeRead := h₂.pipeRead.trans h₁.pipeRead
  mapSz := h₂.mapSz.trans h₁.mapSz
  tbase := h₂.tbase.trans h₁.tbase
  now := h₂.now.trans h₁.now
  reopened := h₂.reopened.trans h₁.reopened
  notes := h₂.notes.trans h₁.notes

/-- The kernel can be told about a descriptor: it is open and the cached mask is right, or
it is closed and to be forgotten. -/
def Tellable (st : EpollState) (fd : Nat) : Prop :=
  (st.kernel.opened fd = true ∧
      st.kernel.interest fd = maskEntry (st.sd.map fd).epollMask) ∨
    (st.kernel.opened fd = false ∧ (st.sd.map fd).newMask = 0)

theorem maskEntry_eq_none {mask : EpollMask} : maskEntry mask = none ↔ mask = 0 := by
  unfold maskEntry
  split <;> simp_all

/-- The call that is chosen is the right one for what the kernel has. -/
theorem epollCtl_flushOp {kernel : Kernel} {fd : Nat} {li : LocalItem}
    (hopen : kernel.opened fd = true) (hint : kernel.interest fd = maskEntry li.epollMask)
    (hne : li.newMask ≠ li.epollMask) :
    epollCtl kernel (flushOp li) fd li.newMask = .ok { kernel with
      interest := Function.update kernel.interest fd (maskEntry li.newMask) } := by
  unfold epollCtl flushOp
  rw [if_neg (by simp [hopen]), hint, maskEntry, maskEntry]
  by_cases hnew : li.newMask = 0
  · have hold : ¬ li.epollMask = 0 := fun h => hne (hnew.trans h.symm)
    rw [if_neg (not_not.2 hnew), if_neg hold, if_pos hnew]
  · by_cases hold : li.epollMask = 0
    · rw [if_pos hnew, if_pos hold, if_pos hold, if_neg hnew]
    · rw [if_pos hnew, if_neg hold, if_neg hold, if_neg hnew]

/-- Whatever the kernel does, the item is dealt with the same way. -/
theorem flushed_told {st : EpollState} {fd : Nat} {kernel : Kernel}
    (hopened : kernel.opened = st.kernel.opened)
    (hinterest : ∀ fd', kernel.interest fd' = if fd' = fd ∧ st.kernel.opened fd' = true
      then maskEntry (st.sd.map fd').newMask else st.kernel.interest fd') :
    Flushed [fd] st (told st fd kernel) := by
  constructor
  case map =>
      intro fd'
      by_cases hfd : fd' = fd
      · subst hfd; simp [told]
      · simp [told, hfd]
  case changed =>
      intro fd' hnodup
      simp only [told, hnodup.mem_erase_iff, List.mem_singleton]
      exact and_comm
  case nodup => exact fun hnodup => hnodup.erase fd
  case interest => simpa [told] using hinterest
  case opened => exact hopened
  all_goals rfl

/-- Telling the kernel about one descriptor. -/
theorem flushItem_tellable {st : EpollState} {fd : Nat} (h : Tellable st fd)
    (hne : (st.sd.map fd).newMask ≠ (st.sd.map fd).epollMask) :
    ∃ st', flushItem st fd = .ok st' ∧ Flushed [fd] st st' := by
  have hwtf : ¬ ((st.sd.map fd).newMask = 0 ∧ (st.sd.map fd).epollMask = 0) :=
    fun h0 => hne (h0.1.trans h0.2.symm)
  unfold flushItem
  simp only
  rw [if_neg hwtf]
  rcases h with ⟨hopen, hint⟩ | ⟨hclosed, hnew⟩
  · rw [epollCtl_flushOp hopen hint hne]
    refine ⟨_, rfl, flushed_told rfl fun fd' => ?_⟩
    by_cases hfd : fd' = fd
    · subst hfd; simp [hopen]
    · simp [hfd]
  · have hdel : flushOp (st.sd.map fd) = .del := by
      rw [flushOp, if_neg (not_not.2 hnew)]
    have hctl : epollCtl st.kernel .del fd (st.sd.map fd).newMask = .error .ebadf := by
      simp [epollCtl, hclosed]
    rw [hdel, hctl]
    refine ⟨_, if_pos ⟨rfl, rfl⟩, flushed_told rfl fun fd' => ?_⟩
    by_cases hfd : fd' = fd
    · subst hfd; simp [hclosed]
    · simp [hfd]

/-- The kernel can still be told what is left after it has been told the rest. -/
theorem Flushed.tellable {fds : List Nat} {st st' : EpollState} (h : Flushed fds st st')
    {fd : Nat} (hnot : fd ∉ fds) (ht : Tellable st fd) : Tellable st' fd := by
  unfold Tellable at ht ⊢
  rw [h.opened, h.interest, h.map, if_neg hnot, if_neg (fun hc => hnot hc.1)]
  exact ht

/-- The loop goes through a list of descriptors the kernel can be told about. -/
theorem foldlM_flushItem {fds : List Nat} :
    ∀ {st : EpollState}, fds.Nodup → (∀ fd ∈ fds, Tellable st fd) →
      (∀ fd ∈ fds, (st.sd.map fd).newMask ≠ (st.sd.map fd).epollMask) →
      ∃ st', fds.foldlM flushItem st = .ok st' ∧ Flushed fds st st' := by
  induction fds with
  | nil => exact fun {st} _ _ _ => ⟨st, rfl, flushed_nil st⟩
  | cons fd fds ih =>
      intro st hnodup htell hne
      obtain ⟨hnot, hnodup'⟩ := List.nodup_cons.1 hnodup
      obtain ⟨ht, htells⟩ := List.forall_mem_cons.1 htell
      obtain ⟨hn, hnes⟩ := List.forall_mem_cons.1 hne
      obtain ⟨mid, hitem, hmid⟩ := flushItem_tellable ht hn
      have hother : ∀ fd' ∈ fds, fd' ∉ [fd] :=
        fun fd' hmem heq => hnot (List.mem_singleton.1 heq ▸ hmem)
      obtain ⟨st', hrest, hst'⟩ := @ih mid hnodup'
        (fun fd' hmem => hmid.tellable (hother fd' hmem) (htells fd' hmem))
        (fun fd' hmem => by
          rw [hmid.map, if_neg (hother fd' hmem)]; exact hnes fd' hmem)
      refine ⟨st', ?_, hmid.cons hst' hnot⟩
      rw [List.foldlM_cons, hitem]
      exact hrest

/-- The kernel has been told everything. -/
structure AllTold (st st' : EpollState) : Prop where
  /-- The cached masks are those asked for, and nothing waits. -/
  epollMask : ∀ fd, (st'.sd.map fd).epollMask = (st'.sd.map fd).newMask
  changed : st'.sd.changed = []
  /-- What the kernel watches. -/
  interest : ∀ fd, st'.kernel.interest fd
    = if fd ∈ st.sd.changed ∧ st.kernel.opened fd = true then maskEntry (st.sd.map fd).newMask
      else st.kernel.interest fd
  newMask : ∀ fd, (st'.sd.map fd).newMask = (st.sd.map fd).newMask
  victim : ∀ fd, (st'.sd.map fd).victim = (st.sd.map fd).victim
  opened : st'.kernel.opened = st.kernel.opened
  pipeRead : st'.sd.pipeRead = st.sd.pipeRead
  tbase : st'.sd.tbase = st.sd.tbase
  now : st'.now = st.now
  reopened : st'.reopened = fun _ => false
  notes : st'.notes = st.notes

/-- The flush tells the kernel everything if it can be told. -/
theorem EpollState.Wired.flush {st : EpollState} (h : st.Wired)
    (htell : ∀ fd ∈ st.sd.changed, Tellable st fd) :
    ∃ st', flushChanged st = .ok st' ∧ AllTold st st' := by
  obtain ⟨st', hfold, hst'⟩ := foldlM_flushItem h.nodup htell
    (fun fd hmem => (h.changed fd).1 hmem)
  refine ⟨{ st' with reopened := fun _ => false }, ?_, ?_⟩
  · rw [flushChanged, hfold]; rfl
  · constructor
    case epollMask =>
        intro fd
        simp only [hst'.map]
        split
        · rfl
        · rename_i hnot
          exact not_not.1 (fun hne => hnot ((h.changed fd).2 (Ne.symm hne)))
    case changed =>
        rw [List.eq_nil_iff_forall_not_mem]
        intro fd hmem
        exact ((hst'.changed fd h.nodup).1 hmem).2 ((hst'.changed fd h.nodup).1 hmem).1
    case interest => exact hst'.interest
    case newMask => intro fd; simp only [hst'.map]; split <;> rfl
    case victim => intro fd; simp only [hst'.map]; split <;> rfl
    case opened => exact hst'.opened
    case pipeRead => exact hst'.pipeRead
    case tbase => exact hst'.tbase
    case now => exact hst'.now
    case reopened => rfl
    case notes => exact hst'.notes

theorem AllTold.wired {st st' : EpollState} (ht : AllTold st st') (h : st.Wired) :
    st'.Wired where
  linked := ht.tbase ▸ h.linked
  newMask := fun fd => by rw [ht.newMask, ht.notes]; exact h.newMask fd
  victim := fun fd request victim hlatest => by
    rw [ht.victim]; exact h.victim fd request victim (ht.notes ▸ hlatest)
  pending := fun fd hp => by rw [ht.newMask]; exact h.pending fd (ht.tbase ▸ hp)
  changed := fun fd => by simp [ht.changed, ht.epollMask]
  nodup := by rw [ht.changed]; exact List.nodup_nil
  oneShot := ht.notes ▸ h.oneShot

/-- What the kernel must have for an item to get through. -/
def Takes (st : EpollState) (fd : Nat) : Prop :=
  (st.kernel.opened fd = true ∧
      ((st.sd.map fd).epollMask ≠ 0 → st.kernel.interest fd ≠ none)) ∨
    (st.kernel.opened fd = false ∧ (st.sd.map fd).newMask = 0)

/-- An item that gets through, backwards. -/
theorem flushItem_ok {st st' : EpollState} {fd : Nat} (h : flushItem st fd = .ok st') :
    Takes st fd ∧ ∃ kernel, st' = told st fd kernel ∧ kernel.opened = st.kernel.opened ∧
      ∀ fd', fd' ≠ fd → kernel.interest fd' = st.kernel.interest fd' := by
  unfold flushItem at h
  simp only at h
  split_ifs at h with hwtf
  by_cases hopen : st.kernel.opened fd = false
  · have hctl : ∀ op, epollCtl st.kernel op fd (st.sd.map fd).newMask = .error .ebadf := by
      intro op; simp [epollCtl, hopen]
    rw [hctl] at h
    simp only at h
    split_ifs at h with hdel
    have hnew : (st.sd.map fd).newMask = 0 := by
      by_contra hne
      rw [flushOp, if_pos hne] at hdel
      split at hdel <;> cases hdel.1
    exact ⟨Or.inr ⟨hopen, hnew⟩, st.kernel, (Except.ok.inj h).symm, rfl, fun _ _ => rfl⟩
  · unfold epollCtl at h
    rw [if_neg hopen] at h
    have hopen' : st.kernel.opened fd = true := by simpa using hopen
    -- an entry that is missing fails every call but the first registration
    have hadd : st.kernel.interest fd = none → flushOp (st.sd.map fd) = .add →
        Takes st fd := by
      intro _ hop
      refine Or.inl ⟨hopen', fun hold => ?_⟩
      rw [flushOp, if_neg hold] at hop
      split at hop <;> cases hop
    rcases hint : st.kernel.interest fd with _ | mask <;>
      rcases hop : flushOp (st.sd.map fd) <;> rw [hint, hop] at h <;> simp at h
    · exact ⟨hadd hint hop, _, h.symm, rfl, fun fd' hne => Function.update_of_ne hne _ _⟩
    · exact ⟨Or.inl ⟨hopen', fun _ => by simp [hint]⟩, _, h.symm, rfl,
        fun fd' hne => Function.update_of_ne hne _ _⟩
    · exact ⟨Or.inl ⟨hopen', fun _ => by simp [hint]⟩, _, h.symm, rfl,
        fun fd' hne => Function.update_of_ne hne _ _⟩

/-- When the loop gets through, the kernel took every item as it was at the start. -/
theorem foldlM_takes {fds : List Nat} :
    ∀ {st st' : EpollState}, fds.Nodup → fds.foldlM flushItem st = .ok st' →
      ∀ fd ∈ fds, Takes st fd := by
  induction fds with
  | nil => intro st st' _ _ fd hmem; cases hmem
  | cons fd fds ih =>
      intro st st' hnodup hfold
      rw [List.foldlM_cons] at hfold
      obtain ⟨mid, hitem, hrest⟩ := bind_eq_ok.1 hfold
      obtain ⟨hnot, hnodup'⟩ := List.nodup_cons.1 hnodup
      obtain ⟨htakes, kernel, rfl, hopened, hinterest⟩ := flushItem_ok hitem
      intro fd' hmem
      rcases List.mem_cons.1 hmem with rfl | hmem'
      · exact htakes
      · have hne : fd' ≠ fd := fun h => hnot (h ▸ hmem')
        have := ih hnodup' hrest fd' hmem'
        simpa [Takes, told, hne, hopened, hinterest fd' hne] using this

/-- The same for the whole loop. -/
theorem flushChanged_takes {st st' : EpollState} (h : st.Wired)
    (hflush : flushChanged st = .ok st') : ∀ fd ∈ st.sd.changed, Takes st fd := by
  unfold flushChanged at hflush
  obtain ⟨mid, hfold, _⟩ := bind_eq_ok.1 hflush
  exact foldlM_takes h.nodup hfold

/-! ## One whole `process_block` -/

theorem epollTimers_ok {st st' : EpollState} {now : BitVec 64}
    (h : epollTimers st now = .ok st') :
    ∃ run, timersRun epollOwner epollTimerCallback { st with now := now } now = some run ∧
      st' = run.2 := by
  unfold epollTimers at h
  split at h
  · cases h
  · rename_i run hrun
    exact ⟨run, hrun, (Except.ok.inj h).symm⟩

/-- What a call of `process_block` consists of. -/
theorem processBlock_ok {st st' : EpollState} {events : List (Nat × EpollMask)}
    {now : BitVec 64} (h : processBlock st events now = .ok st') :
    ∃ told answered run, flushChanged st = .ok told ∧ told.kernel.Reports events ∧
      events.foldlM handleEvent told = .ok answered ∧
      timersRun epollOwner epollTimerCallback { answered with now := now } now = some run ∧
      st' = run.2 := by
  unfold processBlock at h
  obtain ⟨told, hflush, h⟩ := bind_eq_ok.1 h
  split_ifs at h with hdefined hreports
  obtain ⟨answered, hevents, h⟩ := bind_eq_ok.1 h
  obtain ⟨run, hrun, rfl⟩ := epollTimers_ok h
  exact ⟨told, answered, run, hflush, hreports, hevents, hrun, rfl⟩

/-- A call of `process_block` whose flush gets through and after which the kernel watches
registered descriptors only. -/
theorem EpollState.Wired.block {st st' : EpollState} (h : st.Wired)
    (hidle : st.sd.tbase.Idle) (htell : ∀ fd ∈ st.sd.changed, Tellable st fd)
    (hwatch : ∀ fd, ¬ (fd ∈ st.sd.changed ∧ st.kernel.opened fd = true) →
      (st.kernel.interest fd).getD 0 ≠ 0 → (st.sd.map fd).newMask ≠ 0)
    {events : List (Nat × EpollMask)} {now : BitVec 64}
    (hstep : processBlock st events now = .ok st') :
    ∃ told, AllTold st told ∧ told.Answered st' ∧ st'.Wired ∧ st'.sd.tbase.Idle := by
  obtain ⟨told, answered, run, hflush, hreports, hevents, hrun, rfl⟩ := processBlock_ok hstep
  obtain ⟨told', hflush', htold⟩ := h.flush htell
  obtain rfl : told' = told := Except.ok.inj (hflush'.symm.trans hflush)
  have hmask : ∀ ev ∈ events, (told'.sd.map ev.1).newMask ≠ 0 := by
    intro ev hev
    have hne := hreports.2 ev hev
    rw [htold.newMask]
    rw [htold.interest] at hne
    split at hne
    · rwa [getD_maskEntry] at hne
    · rename_i hnot
      exact hwatch ev.1 hnot hne
  obtain ⟨hw, hk, hi⟩ := (htold.wired h).events hreports.1 hmask (htold.tbase ▸ hidle) hevents
  have hw' : ({ answered with now := now } : EpollState).Wired :=
    ⟨hw.linked, hw.newMask, hw.victim, hw.pending, hw.changed, hw.nodup, hw.oneShot⟩
  obtain ⟨h1, h2, h3⟩ := hw'.runTimers hi.2 hrun
  exact ⟨told', htold,
    hk.trans ⟨h2.kernel, h2.reopened, h2.epollMask, h2.pipeRead, h2.notes⟩, h1, h3⟩

/-- The clock is no part of a descriptor's state, nor are the kernel's descriptors. -/
theorem EpollState.Wired.around {st : EpollState} (h : st.Wired) (kernel : Kernel)
    (now : BitVec 64) (reopened : Nat → Bool) :
    ({ st with kernel := kernel, now := now, reopened := reopened } : EpollState).Wired :=
  ⟨h.linked, h.newMask, h.victim, h.pending, h.changed, h.nodup, h.oneShot⟩

/-- A descriptor off the change list is known to the kernel as it should be. -/
theorem EpollState.Wired.newMask_of_not_changed {st : EpollState} (h : st.Wired) {fd : Nat}
    (hnot : fd ∉ st.sd.changed) : (st.sd.map fd).newMask = (st.sd.map fd).epollMask :=
  not_not.1 (fun hne => hnot ((h.changed fd).2 hne))

/-! ## The start -/

theorem wired_constructor (opened : Nat → Bool) (mapSz pipeRead : Nat) (pid : Pid)
    (now : BitVec 64) : (epollConstructor opened mapSz pipeRead pid now).Wired := by
  have h0 : ({ sd := ⟨pipeRead, mapSz, fun _ => ⟨0, 0, nullPid⟩, [], initTimerBase now⟩
               kernel := ⟨Function.update opened pipeRead true, fun _ => none⟩
               now := now
               reopened := fun _ => false
               notes := [] } : EpollState).Wired := by
    constructor
    case linked => exact linked_init now
    case oneShot => exact oneShot_nil
    case nodup => exact List.nodup_nil
    case pending => intro fd hp; simp [timerPending, initTimerBase] at hp
    case victim => intro fd request victim hlatest; simp at hlatest
    all_goals intro fd; simp [requestedMask]
  refine @EpollState.Wired.change _ h0 (.registered .registerRead pipeRead pid) _ _ _ _ rfl ?_ ?_
    (fun hexp => absurd rfl hexp) ?_
  · simp [requestedMask, latestNote, FdNote.fd, requestMask]
  · intro request v hnote; cases hnote; rfl
  · intro v answer fd' hnote; cases hnote

end Msock
