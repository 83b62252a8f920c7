import Msock.Engine.Changes

/-!
# One answer for a registration

While descriptors stay open, the kernel watches exactly what the engine believes it
watches, so `epoll_wait` reports only registered descriptors. Every answer then finds
its registration standing and takes it back.
-/

namespace Msock

open Lib

/-- Messages about user descriptors, registrations with a victim; any waits; no
descriptor is closed or opened. -/
def userRegistrations (st : EpollState) : EpollAct → Prop
  | .msg request msg =>
      msg.fd ≠ st.sd.pipeRead ∧ (request ≠ .unregister → msg.victim ≠ nullPid)
  | .block _ _ => True
  | .clock _ => True
  | .close _ => False
  | .openFd _ => False

instance (st : EpollState) (a : EpollAct) : Decidable (userRegistrations st a) := by
  cases a <;> unfold userRegistrations <;> infer_instance

/-- What holds between acts as long as nothing is closed. -/
structure OneShotInv (pipeRead : Nat) (st : EpollState) : Prop where
  wired : st.Wired
  idle : st.sd.tbase.Idle
  /-- The kernel watches what the engine believes it watches. -/
  interest : ∀ fd, st.kernel.interest fd = maskEntry (st.sd.map fd).epollMask
  /-- The kernel has not been told about a descriptor that is not open. -/
  notOpen : ∀ fd, st.kernel.opened fd = false → (st.sd.map fd).epollMask = 0
  victims : ∀ request fd victim, .registered request fd victim ∈ st.notes → fd ≠ pipeRead →
    victim ≠ nullPid
  pipe : st.sd.pipeRead = pipeRead

theorem oneShotInv_constructor (opened : Nat → Bool) (mapSz pipeRead : Nat) (pid : Pid)
    (now : BitVec 64) :
    OneShotInv pipeRead (epollConstructor opened mapSz pipeRead pid now) where
  wired := wired_constructor opened mapSz pipeRead pid now
  idle := idle_setTimer ⟨linked_init now, rfl⟩ pipeRead 0
  interest := by
    intro fd
    simp only [epollConstructor, scheduleChange_epollMask]
    exact (maskEntry_eq_none.2 rfl).symm
  notOpen := fun fd _ => by
    simp only [epollConstructor, scheduleChange_epollMask]
  victims := by
    intro request fd victim hmem hfd
    simp only [epollConstructor, List.mem_singleton] at hmem
    cases hmem
    exact absurd rfl hfd
  pipe := rfl

theorem oneShotInv_step {pipeRead : Nat} (a : EpollAct) (st st' : EpollState)
    (h : OneShotInv pipeRead st) (hok : userRegistrations st a)
    (hstep : epollStep a st = .ok st') : OneShotInv pipeRead st' := by
  cases a with
  | msg request msg =>
      have hw := h.wired.message hstep
      obtain rfl := epollHandleMsg_ok hstep
      refine ⟨hw, idle_setTimer h.idle _ _, ?_, ?_, ?_, h.pipe⟩
      · intro fd
        rw [scheduleChange_epollMask]
        exact h.interest fd
      · intro fd
        rw [scheduleChange_epollMask]
        exact h.notOpen fd
      · intro request' fd victim hmem hfd
        rcases List.mem_append.1 hmem with hold | hnew
        · exact h.victims request' fd victim hold hfd
        · rw [List.mem_singleton] at hnew
          cases request with
          | unregister => cases hnew
          | registerRead => cases hnew; exact hok.2 (by decide)
          | registerWrite => cases hnew; exact hok.2 (by decide)
  | block events now =>
      obtain ⟨_, _, _, hflush, _⟩ := processBlock_ok hstep
      -- every descriptor that waits to be told is open
      have hopened : ∀ fd ∈ st.sd.changed, st.kernel.opened fd = true := by
        intro fd hmem
        rcases flushChanged_takes h.wired hflush fd hmem with ⟨hopen, _⟩ | ⟨hclosed, hnew⟩
        · exact hopen
        · exact absurd (hnew.trans (h.notOpen fd hclosed).symm) ((h.wired.changed fd).1 hmem)
      have hwatch : ∀ fd, ¬ (fd ∈ st.sd.changed ∧ st.kernel.opened fd = true) →
          (st.kernel.interest fd).getD 0 ≠ 0 → (st.sd.map fd).newMask ≠ 0 := by
        intro fd hnot hne
        rw [h.interest, getD_maskEntry] at hne
        rwa [h.wired.newMask_of_not_changed (fun hmem => hnot ⟨hmem, hopened fd hmem⟩)]
      obtain ⟨told, htold, hk, hw, hi⟩ := h.wired.block h.idle
        (fun fd hmem => Or.inl ⟨hopened fd hmem, h.interest fd⟩) hwatch hstep
      refine ⟨hw, hi, ?_, ?_, ?_, (hk.pipeRead.trans htold.pipeRead).trans h.pipe⟩
      · intro fd
        rw [hk.kernel, hk.epollMask, htold.interest, htold.epollMask, htold.newMask]
        by_cases hmem : fd ∈ st.sd.changed
        · rw [if_pos ⟨hmem, hopened fd hmem⟩]
        · rw [if_neg (fun hc => hmem hc.1), h.interest, h.wired.newMask_of_not_changed hmem]
      · intro fd hclosed
        rw [hk.kernel, htold.opened] at hclosed
        have hnot : fd ∉ st.sd.changed := by
          intro hmem
          rw [hopened fd hmem] at hclosed
          cases hclosed
        rw [hk.epollMask, htold.epollMask, htold.newMask, h.wired.newMask_of_not_changed hnot]
        exact h.notOpen fd hclosed
      · intro request fd victim hmem
        rcases hk.notes _ hmem with hold | ⟨_, _, _, hsent⟩
        · exact h.victims request fd victim (htold.notes ▸ hold)
        · cases hsent
  | clock now =>
      cases hstep
      exact ⟨h.wired.around _ now _, h.idle, h.interest, h.notOpen, h.victims, h.pipe⟩
  | close fd => exact hok.elim
  | openFd fd => exact hok.elim

theorem oneShotInv_reachable {opened : Nat → Bool} {mapSz pipeRead : Nat} {pid : Pid}
    {now : BitVec 64} {st : EpollState}
    (hr : Runs epollStep userRegistrations (epollConstructor opened mapSz pipeRead pid now) st) :
    OneShotInv pipeRead st :=
  Runs.invariant hr oneShotInv_step (oneShotInv_constructor opened mapSz pipeRead pid now)

/--
**One-shot notification.**

Whatever is registered, unregistered, reported by the kernel or shown by the clock:
before every answer about a user descriptor the last thing that happened about it is a
registration, and its victim, not `NULL`, is the one answered. Two answers have a
registration between them, and a timer is pending only for a registered descriptor.
-/
theorem epoll_one_shot (opened : Nat → Bool) (mapSz pipeRead : Nat) (pid : Pid)
    (now : BitVec 64) {st : EpollState}
    (hr : Runs epollStep userRegistrations (epollConstructor opened mapSz pipeRead pid now) st) :
    (∀ before victim answer fd after, st.notes = before ++ .sent victim answer fd :: after →
      fd ≠ pipeRead → victim ≠ nullPid ∧
        ∃ request, latestNote fd before = some (.registered request fd victim)) ∧
    (∀ before victim answer fd between victim' answer' after,
      st.notes = before ++ .sent victim answer fd :: between
        ++ .sent victim' answer' fd :: after →
      ∃ request, .registered request fd victim' ∈ between) ∧
    ∀ fd, timerPending st.sd.tbase fd = true →
      ∃ request victim, latestNote fd st.notes = some (.registered request fd victim) := by
  have h := oneShotInv_reachable hr
  refine ⟨?_, ?_, ?_⟩
  · intro before victim answer fd after hnotes hfd
    obtain ⟨request, hlatest⟩ := h.wired.oneShot before victim answer fd after hnotes
    refine ⟨h.victims request fd victim ?_ hfd, request, hlatest⟩
    rw [hnotes]
    exact List.mem_append_left _ (fd_of_latestNote hlatest).1
  · intro before victim answer fd between victim' answer' after hnotes
    obtain ⟨request, hlatest⟩ := h.wired.oneShot _ victim' answer' fd after hnotes
    exact ⟨request, mem_of_latestNote_append hlatest (fun v a fd' h => by cases h)⟩
  · intro fd hpending
    obtain ⟨request, hlatest⟩ := h.wired.registered (h.wired.pending fd hpending)
    exact ⟨request, _, hlatest⟩

/-- Descriptor 5 is registered with a timeout, reported, registered again and times out. -/
theorem epoll_one_shot_twice : ∃ st : EpollState,
    st.notes = [.registered .registerRead 3 1, .registered .registerRead 5 7, .sent 7 .read 5,
      .registered .registerWrite 5 8, .sent 8 .timeouted 5] ∧
    (∀ before victim answer fd after, st.notes = before ++ .sent victim answer fd :: after →
      fd ≠ 3 → victim ≠ nullPid ∧
        ∃ request, latestNote fd before = some (.registered request fd victim)) ∧
    (∀ before victim answer fd between victim' answer' after,
      st.notes = before ++ .sent victim answer fd :: between
        ++ .sent victim' answer' fd :: after →
      ∃ request, .registered request fd victim' ∈ between) ∧
    ∀ fd, timerPending st.sd.tbase fd = true →
      ∃ request victim, latestNote fd st.notes = some (.registered request fd victim) := by
  obtain ⟨st, hr, hnotes⟩ := exists_run (show (runActs epollStep userRegistrations
    [.msg .registerRead ⟨7, 5, 9⟩, .block [(5, epollIn)] 1,
      .msg .registerWrite ⟨8, 5, 3⟩, .block [] 4]
    (epollConstructor (fun _ => true) 16 3 1 0)).any
      (fun st => decide (st.notes = [.registered .registerRead 3 1,
        .registered .registerRead 5 7, .sent 7 .read 5, .registered .registerWrite 5 8,
        .sent 8 .timeouted 5])) = true by decide +kernel)
  exact ⟨st, of_decide_eq_true hnotes, epoll_one_shot _ 16 3 1 0 hr⟩

end Msock
