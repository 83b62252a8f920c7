import Msock.Engine.OneShot

/-!
# The engine's view of the kernel

The engine tells the kernel only what it believes the kernel does not know. Closing a
descriptor takes it out of the interest set without the engine's knowledge; that is
harmless while the descriptor stays closed, since a deletion that finds it closed is
let pass, but not once the number is in use again: the change is left out, or the
kernel refuses it.
-/

namespace Msock

open Lib

/-- The engine can tell the kernel its changes: it has no mask in store for a descriptor
that was opened since the last time, and nothing new to say about one that is closed. -/
structure EpollState.Ready (st : EpollState) : Prop where
  reopened : ∀ fd, st.kernel.opened fd = true → st.reopened fd = true →
    (st.sd.map fd).epollMask = 0
  closed : ∀ fd, st.kernel.opened fd = false →
    (st.sd.map fd).newMask = 0 ∨ (st.sd.map fd).newMask = (st.sd.map fd).epollMask

/-- Every flush is made in such a state. -/
def readyToFlush (st : EpollState) : EpollAct → Prop
  | .block _ _ => st.Ready
  | _ => True

/-- The kernel has been told, and watches every open descriptor for what was last
requested for it. -/
def EpollState.ViewMatches (st : EpollState) : Prop :=
  ∃ told, flushChanged st = .ok told ∧ ∀ fd, told.kernel.opened fd = true →
    told.kernel.interest fd = maskEntry (requestedMask told.notes fd)

/-- What the kernel has, between acts. -/
structure InterestInv (st : EpollState) : Prop where
  wired : st.Wired
  idle : st.sd.tbase.Idle
  /-- The cached mask is right for a descriptor that has been open all along. -/
  interest : ∀ fd, st.kernel.opened fd = true → st.reopened fd = false →
    st.kernel.interest fd = maskEntry (st.sd.map fd).epollMask
  reopened : ∀ fd, st.reopened fd = true → st.kernel.interest fd = none
  closed : ∀ fd, st.kernel.opened fd = false → st.kernel.interest fd = none

theorem interestInv_constructor (opened : Nat → Bool) (mapSz pipeRead : Nat) (pid : Pid)
    (now : BitVec 64) : InterestInv (epollConstructor opened mapSz pipeRead pid now) where
  wired := wired_constructor opened mapSz pipeRead pid now
  idle := idle_setTimer ⟨linked_init now, rfl⟩ pipeRead 0
  interest := by
    intro fd _ _
    simp only [epollConstructor, scheduleChange_epollMask]
    exact (maskEntry_eq_none.2 rfl).symm
  reopened := fun _ _ => rfl
  closed := fun _ _ => rfl

/-- In a ready state everything can be told. -/
theorem InterestInv.tellable {st : EpollState} (h : InterestInv st) (hready : st.Ready) :
    ∀ fd ∈ st.sd.changed, Tellable st fd := by
  intro fd hmem
  cases hopen : st.kernel.opened fd with
  | false =>
      rcases hready.closed fd hopen with hnew | heq
      · exact Or.inr ⟨hopen, hnew⟩
      · exact absurd heq ((h.wired.changed fd).1 hmem)
  | true =>
      refine Or.inl ⟨hopen, ?_⟩
      cases hre : st.reopened fd with
      | false => exact h.interest fd hopen hre
      | true => rw [h.reopened fd hre, hready.reopened fd hopen hre]; rfl

/-- Where everything can be told, the kernel ends up watching what is asked for. -/
theorem AllTold.interest_of_opened {st told : EpollState} (ht : AllTold st told)
    (h : InterestInv st) (hready : st.Ready) {fd : Nat} (hopen : st.kernel.opened fd = true) :
    told.kernel.interest fd = maskEntry (st.sd.map fd).newMask := by
  rw [ht.interest]
  by_cases hmem : fd ∈ st.sd.changed
  · rw [if_pos ⟨hmem, hopen⟩]
  · rw [if_neg (fun hc => hmem hc.1), h.wired.newMask_of_not_changed hmem]
    cases hre : st.reopened fd with
    | false => exact h.interest fd hopen hre
    | true => rw [h.reopened fd hre, hready.reopened fd hopen hre]; rfl

theorem AllTold.interest_of_closed {st told : EpollState} (ht : AllTold st told)
    (h : InterestInv st) {fd : Nat} (hclosed : st.kernel.opened fd = false) :
    told.kernel.interest fd = none := by
  rw [ht.interest, if_neg (fun hc => by rw [hclosed] at hc; cases hc.2)]
  exact h.closed fd hclosed

theorem interestInv_step (a : EpollAct) (st st' : EpollState) (h : InterestInv st)
    (hok : readyToFlush st a) (hstep : epollStep a st = .ok st') : InterestInv st' := by
  cases a with
  | msg request msg =>
      have hw := h.wired.message hstep
      obtain rfl := epollHandleMsg_ok hstep
      refine ⟨hw, idle_setTimer h.idle _ _, ?_, h.reopened, h.closed⟩
      intro fd hopen hre
      rw [scheduleChange_epollMask]
      exact h.interest fd hopen hre
  | block events now =>
      have hready : st.Ready := hok
      have hwatch : ∀ fd, ¬ (fd ∈ st.sd.changed ∧ st.kernel.opened fd = true) →
          (st.kernel.interest fd).getD 0 ≠ 0 → (st.sd.map fd).newMask ≠ 0 := by
        intro fd hnot hne
        cases hopen : st.kernel.opened fd with
        | false => rw [h.closed fd hopen] at hne; exact absurd rfl hne
        | true =>
            cases hre : st.reopened fd with
            | true => rw [h.reopened fd hre] at hne; exact absurd rfl hne
            | false =>
                rw [h.interest fd hopen hre, getD_maskEntry] at hne
                rwa [h.wired.newMask_of_not_changed (fun hmem => hnot ⟨hmem, hopen⟩)]
      obtain ⟨told, htold, hk, hw, hi⟩ :=
        h.wired.block h.idle (h.tellable hready) hwatch hstep
      refine ⟨hw, hi, ?_, ?_, ?_⟩
      · intro fd hopen _
        rw [hk.kernel, htold.opened] at hopen
        rw [hk.kernel, hk.epollMask, htold.epollMask, htold.newMask]
        exact htold.interest_of_opened h hready hopen
      · intro fd hre
        rw [hk.reopened, htold.reopened] at hre
        cases hre
      · intro fd hclosed
        rw [hk.kernel, htold.opened] at hclosed
        rw [hk.kernel]
        exact htold.interest_of_closed h hclosed
  | clock now =>
      cases hstep
      exact ⟨h.wired.around _ now _, h.idle, h.interest, h.reopened, h.closed⟩
  | close fd =>
      simp only [epollStep] at hstep
      split at hstep
      · cases hstep
        refine ⟨h.wired.around _ _ _, h.idle, ?_, ?_, ?_⟩
        · intro fd' hopen hre
          have hne : fd' ≠ fd := by rintro rfl; simp [Kernel.close] at hopen
          simp only [Kernel.close, Function.update_of_ne hne] at hopen ⊢
          exact h.interest fd' hopen hre
        · intro fd' hre
          by_cases hne : fd' = fd
          · subst hne; simp [Kernel.close]
          · simp only [Kernel.close, Function.update_of_ne hne]
            exact h.reopened fd' hre
        · intro fd' hclosed
          by_cases hne : fd' = fd
          · subst hne; simp [Kernel.close]
          · simp only [Kernel.close, Function.update_of_ne hne] at hclosed ⊢
            exact h.closed fd' hclosed
      · cases hstep
  | openFd fd =>
      simp only [epollStep] at hstep
      split at hstep
      · cases hstep
      · rename_i hopen
        cases hstep
        have hnone : st.kernel.interest fd = none := h.closed fd (by simpa using hopen)
        refine ⟨h.wired.around _ _ _, h.idle, ?_, ?_, ?_⟩
        · intro fd' hopen' hre
          have hne : fd' ≠ fd := by rintro rfl; simp at hre
          simp only [Kernel.openFd, Function.update_of_ne hne] at hopen' hre ⊢
          exact h.interest fd' hopen' hre
        · intro fd' hre
          by_cases hne : fd' = fd
          · subst hne; exact hnone
          · simp only [Function.update_of_ne hne] at hre
            exact h.reopened fd' hre
        · intro fd' hclosed
          have hne : fd' ≠ fd := by rintro rfl; simp [Kernel.openFd] at hclosed
          simp only [Kernel.openFd, Function.update_of_ne hne] at hclosed
          exact h.closed fd' hclosed

theorem interestInv_reachable {opened : Nat → Bool} {mapSz pipeRead : Nat} {pid : Pid}
    {now : BitVec 64} {st : EpollState}
    (hr : Runs epollStep readyToFlush (epollConstructor opened mapSz pipeRead pid now) st) :
    InterestInv st :=
  Runs.invariant hr interestInv_step (interestInv_constructor opened mapSz pipeRead pid now)

/--
**When the engine's view is the kernel's.**

In a run whose flushes so far were all made in a ready state, a flush gets through and
leaves the kernel watching what was requested exactly if it is made in a ready state
again.
-/
theorem interest_matches_iff (opened : Nat → Bool) (mapSz pipeRead : Nat) (pid : Pid)
    (now : BitVec 64) {st : EpollState}
    (hr : Runs epollStep readyToFlush (epollConstructor opened mapSz pipeRead pid now) st) :
    st.ViewMatches ↔ st.Ready := by
  have h := interestInv_reachable hr
  constructor
  · rintro ⟨told, hflush, hmatch⟩
    have htakes := flushChanged_takes h.wired hflush
    -- what got through could be told, so the flush did all it should
    have htell : ∀ fd ∈ st.sd.changed, Tellable st fd := by
      intro fd hmem
      rcases htakes fd hmem with ⟨hopen, hhas⟩ | hclosed
      · refine Or.inl ⟨hopen, ?_⟩
        cases hre : st.reopened fd with
        | false => exact h.interest fd hopen hre
        | true =>
            have hnone := h.reopened fd hre
            have hzero : (st.sd.map fd).epollMask = 0 := by
              by_contra hne
              exact hhas hne hnone
            rw [hnone, hzero]; rfl
      · exact Or.inr hclosed
    obtain ⟨told', hflush', htold⟩ := h.wired.flush htell
    obtain rfl : told' = told := Except.ok.inj (hflush'.symm.trans hflush)
    constructor
    · intro fd hopen hre
      have hnone := h.reopened fd hre
      by_cases hmem : fd ∈ st.sd.changed
      · rcases htakes fd hmem with ⟨_, hhas⟩ | ⟨hclosed, _⟩
        · by_contra hne
          exact hhas hne hnone
        · rw [hopen] at hclosed; cases hclosed
      · have hview := hmatch fd (by rw [htold.opened]; exact hopen)
        rw [htold.interest, if_neg (fun hc => hmem hc.1), hnone, htold.notes,
          ← h.wired.newMask, h.wired.newMask_of_not_changed hmem] at hview
        exact maskEntry_eq_none.1 hview.symm
    · intro fd hclosed
      by_cases hmem : fd ∈ st.sd.changed
      · rcases htakes fd hmem with ⟨hopen, _⟩ | ⟨_, hnew⟩
        · rw [hclosed] at hopen; cases hopen
        · exact Or.inl hnew
      · exact Or.inr (h.wired.newMask_of_not_changed hmem)
  · intro hready
    obtain ⟨told, hflush, htold⟩ := h.wired.flush (h.tellable hready)
    refine ⟨told, hflush, fun fd hopen => ?_⟩
    rw [htold.opened] at hopen
    rw [htold.interest_of_opened h hready hopen, htold.notes, h.wired.newMask]

/-- Descriptors that stay open are always ready. -/
theorem interest_matches_registered : ∃ st,
    epollStep (.msg .registerRead ⟨7, 5, 0⟩) (epollConstructor (fun _ => true) 16 3 1 0)
      = .ok st ∧ st.Ready ∧ (st.ViewMatches ↔ st.Ready) := by
  refine ⟨_, rfl, ?_, interest_matches_iff (fun _ => true) 16 3 1 0
    (Runs.single (a := .msg .registerRead ⟨7, 5, 0⟩) trivial rfl)⟩
  have hopen : ∀ fd, Function.update (fun _ : Nat => true) 3 true fd = true := by
    intro fd
    by_cases h : fd = 3 <;> simp [h]
  constructor
  · intro fd _ hre
    cases hre
  · intro fd hclosed
    exact absurd (hclosed.symm.trans (hopen fd)) (by decide)

/-- Registrations name open descriptors, and a descriptor is closed and opened again
only after its last registration was answered. -/
def closesAnswered (st : EpollState) : EpollAct → Prop
  | .msg request msg => request = .unregister ∨ st.kernel.opened msg.fd = true
  | .block _ _ => True
  | .clock _ => True
  | .close fd => ∃ note ∈ latestNote fd st.notes, note.isSent = true
  | .openFd fd => ∃ note ∈ latestNote fd st.notes, note.isSent = true

instance (st : EpollState) (a : EpollAct) : Decidable (closesAnswered st a) :=
  match a with
  | .msg request msg =>
      inferInstanceAs (Decidable (request = .unregister ∨ st.kernel.opened msg.fd = true))
  | .close fd => inferInstanceAs (Decidable (∃ note ∈ latestNote fd st.notes, note.isSent = true))
  | .openFd fd => inferInstanceAs (Decidable (∃ note ∈ latestNote fd st.notes, note.isSent = true))
  | .block _ _ | .clock _ => isTrue trivial

/-- A connection is closed once its readability has been reported, the next one gets its
number, and is registered before the engine has told the kernel anything: the engine
finds nothing to tell, and the kernel never watches the new connection. -/
theorem interest_differs_after_reopen : ∃ st,
    Runs epollStep closesAnswered (epollConstructor (fun _ => true) 16 3 1 0) st ∧
      ¬ st.ViewMatches := by
  obtain ⟨st, hr, hst⟩ := exists_run (show (runActs epollStep closesAnswered
    [.msg .registerRead ⟨7, 5, 0⟩, .block [(5, epollIn)] 1, .close 5, .openFd 5,
      .msg .registerRead ⟨8, 5, 0⟩]
    (epollConstructor (fun _ => true) 16 3 1 0)).any
      (fun st => (flushChanged st).toOption.any (fun told =>
        decide (told.kernel.opened 5 = true ∧ told.kernel.interest 5 = none ∧
          requestedMask told.notes 5 = epollIn))) = true by decide +kernel)
  refine ⟨st, hr, fun ⟨told, hflush, hmatch⟩ => ?_⟩
  rw [hflush] at hst
  obtain ⟨hopen, hnone, hmask⟩ : told.kernel.opened 5 = true ∧
      told.kernel.interest 5 = none ∧ requestedMask told.notes 5 = epollIn := by
    simpa [Except.toOption] using hst
  have hview := hmatch 5 hopen
  rw [hnone, hmask] at hview
  exact absurd hview (by decide)

end Msock
