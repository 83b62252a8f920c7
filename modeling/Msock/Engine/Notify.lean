import Msock.Engine.Select
import Msock.Engine.Changes

/-!
# Whom the select engine answers

The loop of `process_block` looks at the read set and then at the write set that
`select` left, while an answer clears the engine's own sets and the victim. A
descriptor in one of the two is answered to its victim; one in both is answered to
its victim as readable, and then to `NULL` as writable.
-/

namespace Msock

open Lib

/-- Every answer goes to the victim of a standing registration, and takes it back. -/
structure AnswersOnce (notes : List FdNote) : Prop where
  victim : ∀ victim answer fd, .sent victim answer fd ∈ notes → victim ≠ nullPid
  registered : OneShot notes
  /-- Two answers about a descriptor have a registration between them. -/
  once : ∀ before victim answer fd between victim' answer' after,
    notes = before ++ .sent victim answer fd :: between ++ .sent victim' answer' fd :: after →
      ∃ request, .registered request fd victim' ∈ between

/-- Registrations have a victim, and `select` reports only what it was asked about. -/
def registersVictims (st : SelectState) : SelectAct → Prop
  | .msg request msg => request ≠ .unregister → msg.victim ≠ nullPid
  | .block readFds writeFds _ =>
      (∀ fd ∈ readFds, st.sd.readFds fd = true) ∧ ∀ fd ∈ writeFds, st.sd.writeFds fd = true
  | .clock _ => True

instance (st : SelectState) (a : SelectAct) : Decidable (registersVictims st a) := by
  cases a <;> unfold registersVictims <;> infer_instance

/-- No descriptor but the wake pipe's is reported readable and writable at once. -/
def reportsApart (st : SelectState) : SelectAct → Prop
  | .block readFds writeFds _ => ∀ fd ∈ readFds, fd ∈ writeFds → fd = st.sd.pipeRead
  | .msg _ _ | .clock _ => True

instance (st : SelectState) (a : SelectAct) : Decidable (reportsApart st a) := by
  cases a <;> unfold reportsApart <;> infer_instance

/-- The engine's state of every descriptor goes with what has happened about it. -/
structure SelectState.Standing (st : SelectState) : Prop where
  linked : st.sd.tbase.Linked
  /-- A descriptor is watched or timed only for a victim. -/
  armed : ∀ fd, (st.sd.readFds fd = true ∨ st.sd.writeFds fd = true ∨
    timerPending st.sd.tbase fd = true) → st.sd.victim fd ≠ nullPid
  /-- A victim is the one of a standing registration. -/
  latest : ∀ fd, st.sd.victim fd ≠ nullPid →
    ∃ request, latestNote fd st.notes = some (.registered request fd (st.sd.victim fd))
  inRange : ∀ fd, st.sd.readFds fd = true → fd ≠ st.sd.pipeRead → fd < fdSetsize

theorem answersOnce_nil : AnswersOnce [] where
  victim := fun _ _ _ h => by cases h
  registered := oneShot_nil
  once := fun _ _ _ _ _ _ _ _ h => by simp at h

/-- A further note keeps the answers in order if it is one in order itself. -/
theorem AnswersOnce.concat {notes : List FdNote} (h : AnswersOnce notes) {note : FdNote}
    (hnote : ∀ victim answer fd, note = .sent victim answer fd → victim ≠ nullPid ∧
      ∃ request, latestNote fd notes = some (.registered request fd victim)) :
    AnswersOnce (notes ++ [note]) := by
  have hone : OneShot (notes ++ [note]) :=
    h.registered.concat (fun victim answer fd heq => (hnote victim answer fd heq).2)
  refine ⟨?_, hone, ?_⟩
  · intro victim answer fd hmem
    rcases List.mem_append.1 hmem with hold | hnew
    · exact h.victim victim answer fd hold
    · exact (hnote victim answer fd (List.mem_singleton.1 hnew).symm).1
  · intro before victim answer fd between victim' answer' after hnotes
    obtain ⟨request, hlatest⟩ := hone _ victim' answer' fd after hnotes
    exact ⟨request, mem_of_latestNote_append hlatest (fun v a fd' heq => by cases heq)⟩

/-! ## Registering and clearing -/

/-- A descriptor is cleared, with a note about it. -/
theorem SelectState.Standing.clear {st : SelectState} (h : st.Standing) {note : FdNote} {fd : Nat}
    (hnote : note.fd = fd) :
    ({ st with sd := fdUnregister st.sd fd, notes := st.notes ++ [note] } : SelectState).Standing
    where
  linked := h.linked.timerDel fd
  armed := by
    intro fd' harmed
    simp only [fdUnregister] at harmed ⊢
    by_cases hfd : fd' = fd
    · subst hfd
      simp [timerPending] at harmed
    · simp only [Function.update_of_ne hfd] at harmed ⊢
      refine h.armed fd' ?_
      simpa [timerPending, hfd] using harmed
  latest := by
    intro fd' hvictim
    simp only [fdUnregister] at hvictim ⊢
    by_cases hfd : fd' = fd
    · subst hfd
      simp at hvictim
    · simp only [Function.update_of_ne hfd] at hvictim ⊢
      rw [latestNote_concat, if_neg (by rw [hnote]; exact Ne.symm hfd)]
      exact h.latest fd' hvictim
  inRange := by
    intro fd' hread
    simp only [fdUnregister] at hread ⊢
    by_cases hfd : fd' = fd
    · subst hfd
      simp at hread
    · rw [Function.update_of_ne hfd] at hread
      exact h.inRange fd' hread

/-- A descriptor is registered for a victim, in one of the sets. -/
theorem SelectState.Standing.register {st : SelectState} (h : st.Standing) {fd : Nat}
    (hrange : fd < fdSetsize) {victim : Pid} (hvictim : victim ≠ nullPid)
    (request : MsgFdRequest) (expires : BitVec 64) {readFds writeFds : Nat → Bool}
    (hread : ∀ fd', fd' ≠ fd → readFds fd' = st.sd.readFds fd')
    (hwrite : ∀ fd', fd' ≠ fd → writeFds fd' = st.sd.writeFds fd') :
    ({ st with
        sd := { st.sd with
          readFds := readFds
          writeFds := writeFds
          victim := Function.update st.sd.victim fd victim
          tbase := setTimer st.sd.tbase fd expires }
        notes := st.notes ++ [.registered request fd victim] } : SelectState).Standing where
  linked := linked_setTimer h.linked fd expires
  armed := by
    intro fd' harmed
    simp only [timerPending_setTimer] at harmed
    by_cases hfd : fd' = fd
    · subst hfd
      simpa using hvictim
    · simp only [if_neg hfd, hread fd' hfd, hwrite fd' hfd] at harmed
      simp only [Function.update_of_ne hfd]
      exact h.armed fd' harmed
  latest := by
    intro fd' hne
    by_cases hfd : fd' = fd
    · subst hfd
      exact ⟨request, by simp [FdNote.fd]⟩
    · simp only [Function.update_of_ne hfd] at hne ⊢
      rw [latestNote_concat, if_neg (by exact Ne.symm hfd)]
      exact h.latest fd' hne
  inRange := by
    intro fd' hfd' hpipe
    by_cases hfd : fd' = fd
    · exact hfd ▸ hrange
    · exact h.inRange fd' (by rw [← hread fd' hfd]; exact hfd') hpipe

/-- A wheel with the same or fewer timers pending does as well. -/
theorem SelectState.Standing.setTbase {st : SelectState} (h : st.Standing) {base : TimerBase Nat}
    (hlinked : base.Linked)
    (hpending : ∀ fd, timerPending base fd = true → timerPending st.sd.tbase fd = true) :
    (selectOwner.setTbase st base).Standing where
  linked := hlinked
  armed := fun fd harmed => h.armed fd (harmed.imp_right (Or.imp_right (hpending fd)))
  latest := h.latest
  inRange := h.inRange

theorem SelectState.Standing.answer {st : SelectState} (h : st.Standing) (answer : MsgFdAnswer)
    (fd : Nat) : (answerFd st answer fd).Standing := h.clear rfl

/-- An answer to a victim there is. -/
theorem SelectState.Standing.answersOnce {st : SelectState} (h : st.Standing)
    (hnotes : AnswersOnce st.notes) {fd : Nat} (hvictim : st.sd.victim fd ≠ nullPid)
    (answer : MsgFdAnswer) : AnswersOnce (answerFd st answer fd).notes := by
  refine hnotes.concat ?_
  intro victim answer' fd' heq
  cases heq
  exact ⟨hvictim, h.latest fd hvictim⟩

/-! ## Messages -/

theorem SelectState.Standing.message {st st' : SelectState} (h : st.Standing)
    (hnotes : AnswersOnce st.notes) {request : MsgFdRequest} {msg : MsockMsgFd}
    (hvictim : request ≠ .unregister → msg.victim ≠ nullPid)
    (hstep : processHandleMsgFd st request msg = .ok st') :
    st'.Standing ∧ AnswersOnce st'.notes ∧ st'.sd.pipeRead = st.sd.pipeRead := by
  unfold processHandleMsgFd at hstep
  split at hstep
  · cases hstep
  · rename_i hrange
    cases hstep
    refine ⟨?_, hnotes.concat (fun v a fd heq => by cases request <;> cases heq), ?_⟩
    · cases request with
      | unregister => exact h.clear rfl
      | registerRead =>
          exact h.register (Nat.lt_of_not_le hrange) (hvictim (by decide)) .registerRead msg.expires
            (fun fd' hfd => Function.update_of_ne hfd _ _) (fun _ _ => rfl)
      | registerWrite =>
          exact h.register (Nat.lt_of_not_le hrange) (hvictim (by decide)) .registerWrite msg.expires
            (fun _ _ => rfl) (fun fd' hfd => Function.update_of_ne hfd _ _)
    · cases request <;> rfl

/-! ## The loop over the descriptors -/

section Loop
variable (readFds writeFds : List Nat)

/-- One round of the loop. -/
def selectItem (st : SelectState) (fd : Nat) : SelectState :=
  writeItem writeFds (readItem readFds st fd) fd

variable {readFds writeFds}

/-- Once all that was reported has been hit, the rest of the rounds would do nothing. -/
theorem foldl_selectItem_quiet {fds : List Nat} (hquiet : (fds.map (hits readFds writeFds)).sum = 0)
    (st : SelectState) : fds.foldl (selectItem readFds writeFds) st = st := by
  induction fds generalizing st with
  | nil => rfl
  | cons fd fds ih =>
      rw [List.map_cons, List.sum_cons] at hquiet
      have hfd : hits readFds writeFds fd = 0 := by omega
      have hitem : selectItem readFds writeFds st fd = st := by
        unfold hits at hfd
        unfold selectItem readItem writeItem
        split_ifs at hfd ⊢ <;> first | rfl | omega
      rw [List.foldl_cons, hitem]
      exact ih (by omega) st

/-- The loop leaves out only rounds that do nothing. -/
theorem selectLoop_eq {r hit : Nat} {fds : List Nat}
    (hsum : hit + (fds.map (hits readFds writeFds)).sum = r) (st : SelectState) :
    selectLoop readFds writeFds r fds hit st = fds.foldl (selectItem readFds writeFds) st := by
  induction fds generalizing hit st with
  | nil => rfl
  | cons fd fds ih =>
      rw [List.map_cons, List.sum_cons] at hsum
      rw [selectLoop]
      split
      · rw [List.foldl_cons]
        exact ih (by omega) _
      · refine (foldl_selectItem_quiet ?_ st).symm
        rw [List.map_cons, List.sum_cons]
        omega

variable (readFds writeFds)

/-- An answer leaves the other descriptors alone. -/
structure SelectState.Besides (fd : Nat) (st st' : SelectState) : Prop where
  victim : ∀ fd', fd' ≠ fd → st'.sd.victim fd' = st.sd.victim fd'
  pipeRead : st'.sd.pipeRead = st.sd.pipeRead
  /-- What was sent stays sent. -/
  notes : ∀ note ∈ st.notes, note ∈ st'.notes

theorem SelectState.Besides.refl (fd : Nat) (st : SelectState) : st.Besides fd st :=
  ⟨fun _ _ => rfl, rfl, fun _ h => h⟩

theorem SelectState.Besides.trans {fd : Nat} {a b c : SelectState} (h₁ : a.Besides fd b)
    (h₂ : b.Besides fd c) : a.Besides fd c :=
  ⟨fun fd' hfd => (h₂.victim fd' hfd).trans (h₁.victim fd' hfd), h₂.pipeRead.trans h₁.pipeRead,
    fun note hmem => h₂.notes note (h₁.notes note hmem)⟩

theorem besides_answer (st : SelectState) (answer : MsgFdAnswer) (fd : Nat) :
    st.Besides fd (answerFd st answer fd) :=
  ⟨fun _ hfd => Function.update_of_ne hfd _ _, rfl, fun _ hmem => List.mem_append_left _ hmem⟩

theorem besides_readItem (st : SelectState) (fd : Nat) :
    st.Besides fd (readItem readFds st fd) := by
  unfold readItem
  split_ifs
  · exact SelectState.Besides.refl fd st
  · exact besides_answer st .read fd
  · exact SelectState.Besides.refl fd st

theorem besides_selectItem (st : SelectState) (fd : Nat) :
    st.Besides fd (selectItem readFds writeFds st fd) := by
  refine (besides_readItem readFds st fd).trans ?_
  unfold selectItem writeItem
  split_ifs
  · exact besides_answer _ .write fd
  · exact SelectState.Besides.refl fd _

theorem idle_answer {st : SelectState} (h : st.sd.tbase.Idle) (answer : MsgFdAnswer) (fd : Nat) :
    (answerFd st answer fd).sd.tbase.Idle := by
  have hset := idle_setTimer h fd 0
  rwa [setTimer, if_neg (by simp)] at hset

/-- Whatever it answers, the loop leaves the wheel in order. -/
theorem idle_selectItem {st : SelectState} (h : st.Standing ∧ st.sd.tbase.Idle) (fd : Nat) :
    (selectItem readFds writeFds st fd).Standing ∧
      (selectItem readFds writeFds st fd).sd.tbase.Idle := by
  have hread : (readItem readFds st fd).Standing ∧ (readItem readFds st fd).sd.tbase.Idle := by
    unfold readItem
    split_ifs
    · exact h
    · exact ⟨h.1.answer .read fd, idle_answer h.2 .read fd⟩
    · exact h
  unfold selectItem writeItem
  split_ifs
  · exact ⟨hread.1.answer .write fd, idle_answer hread.2 .write fd⟩
  · exact hread

/-- What the loop keeps, whatever was reported. -/
theorem standing_foldl (fds : List Nat) :
    ∀ {st : SelectState}, st.Standing → st.sd.tbase.Idle →
      (fds.foldl (selectItem readFds writeFds) st).Standing ∧
        (fds.foldl (selectItem readFds writeFds) st).sd.tbase.Idle ∧
        (fds.foldl (selectItem readFds writeFds) st).sd.pipeRead = st.sd.pipeRead ∧
        ∀ note ∈ st.notes, note ∈ (fds.foldl (selectItem readFds writeFds) st).notes := by
  induction fds with
  | nil => exact fun h hidle => ⟨h, hidle, rfl, fun _ hmem => hmem⟩
  | cons fd fds ih =>
      intro st h hidle
      have hbesides := besides_selectItem readFds writeFds st fd
      have hnext := idle_selectItem readFds writeFds ⟨h, hidle⟩ fd
      obtain ⟨hs, hi, hpipe, hkeep⟩ := ih hnext.1 hnext.2
      exact ⟨hs, hi, hpipe.trans hbesides.pipeRead,
        fun note hmem => hkeep note (hbesides.notes note hmem)⟩

variable {readFds writeFds}

/-- A round on a descriptor that is not reported twice. -/
theorem answersOnce_selectItem {st : SelectState} (h : st.Standing) (hnotes : AnswersOnce st.notes)
    {fd : Nat} (hvictim : fd ∈ readFds ∨ fd ∈ writeFds → st.sd.victim fd ≠ nullPid)
    (hapart : fd ∈ readFds → fd ∈ writeFds → fd = st.sd.pipeRead) :
    AnswersOnce (selectItem readFds writeFds st fd).notes := by
  unfold selectItem readItem writeItem
  split_ifs with hwrite hread hpipe hread hpipe
  · exact h.answersOnce hnotes (hvictim (Or.inl hread)) .write
  · exact absurd (hapart hread hwrite) hpipe
  · exact h.answersOnce hnotes (hvictim (Or.inr hwrite)) .write
  · exact hnotes
  · exact h.answersOnce hnotes (hvictim (Or.inl hread)) .read
  · exact hnotes

/-- The loop, on descriptors none of which is reported twice. -/
theorem answersOnce_foldl {fds : List Nat} :
    ∀ {st : SelectState}, fds.Nodup → st.Standing → st.sd.tbase.Idle → AnswersOnce st.notes →
      (∀ fd ∈ fds, fd ∈ readFds ∨ fd ∈ writeFds → st.sd.victim fd ≠ nullPid) →
      (∀ fd ∈ fds, fd ∈ readFds → fd ∈ writeFds → fd = st.sd.pipeRead) →
      AnswersOnce (fds.foldl (selectItem readFds writeFds) st).notes := by
  induction fds with
  | nil => exact fun _ _ _ hnotes _ _ => hnotes
  | cons fd fds ih =>
      intro st hnodup h hidle hnotes hvictim hapart
      obtain ⟨hnot, hnodup'⟩ := List.nodup_cons.1 hnodup
      have hbesides := besides_selectItem readFds writeFds st fd
      have hnext := idle_selectItem readFds writeFds ⟨h, hidle⟩ fd
      refine ih hnodup' hnext.1 hnext.2 ?_ ?_ ?_
      · exact answersOnce_selectItem h hnotes (hvictim fd List.mem_cons_self)
          (hapart fd List.mem_cons_self)
      · intro fd' hmem hrep
        rw [hbesides.victim fd' (fun heq => hnot (heq ▸ hmem))]
        exact hvictim fd' (List.mem_cons_of_mem _ hmem) hrep
      · intro fd' hmem hr hw
        rw [hbesides.pipeRead]
        exact hapart fd' (List.mem_cons_of_mem _ hmem) hr hw

/-- A descriptor reported in both sets is answered to nobody the second time. -/
theorem selectItem_null {st : SelectState} {fd : Nat} (hread : fd ∈ readFds)
    (hwrite : fd ∈ writeFds) (hpipe : fd ≠ st.sd.pipeRead) :
    FdNote.sent nullPid .write fd ∈ (selectItem readFds writeFds st fd).notes := by
  unfold selectItem
  rw [readItem, if_pos hread, if_neg hpipe, writeItem, if_pos hwrite]
  simp [answerFd, fdUnregister]

theorem foldl_null {fds : List Nat} {fd : Nat} (hmem : fd ∈ fds) (hread : fd ∈ readFds)
    (hwrite : fd ∈ writeFds) {st : SelectState} (h : st.Standing) (hidle : st.sd.tbase.Idle)
    (hpipe : fd ≠ st.sd.pipeRead) :
    FdNote.sent nullPid .write fd ∈ (fds.foldl (selectItem readFds writeFds) st).notes := by
  obtain ⟨before, after, rfl⟩ := List.append_of_mem hmem
  rw [List.foldl_append, List.foldl_cons]
  obtain ⟨hs, hi, hp, _⟩ := standing_foldl readFds writeFds before h hidle
  have hnext := idle_selectItem readFds writeFds ⟨hs, hi⟩ fd
  refine (standing_foldl readFds writeFds after hnext.1 hnext.2).2.2.2 _ ?_
  exact selectItem_null hread hwrite (by rw [hp]; exact hpipe)

end Loop

/-! ## Timeouts -/

/-- The callback does one thing to the wheel. -/
theorem selectTimerCallback_ops (fd : Nat) (st : SelectState) :
    TimerOps (selectOwner.tbase st) (selectOwner.tbase (selectTimerCallback fd st)) :=
  TimerOps.del st.sd.tbase fd

/-- A run of the timers, once the clock is set, answers registrations that stand. -/
theorem SelectState.Standing.runTimers {st : SelectState} (h : st.Standing)
    (hidle : st.sd.tbase.Idle) {now : BitVec 64} {run : BitVec 32 × SelectState}
    (hrun : timersRun selectOwner selectTimerCallback { st with now := now } now = some run) :
    run.2.Standing ∧ run.2.sd.tbase.Idle ∧ run.2.sd.pipeRead = st.sd.pipeRead ∧
      (AnswersOnce st.notes → AnswersOnce run.2.notes) ∧
      ∀ note ∈ st.notes, note ∈ run.2.notes := by
  suffices hinv : (_ ∧ _ ∧ _ ∧ _) ∧ _ from ⟨hinv.1.1, hinv.2, hinv.1.2⟩
  refine timersRun_invariant (I := fun st' : BitVec 32 × SelectState => st'.2.Standing ∧
      st'.2.sd.pipeRead = st.sd.pipeRead ∧
      (AnswersOnce st.notes → AnswersOnce st'.2.notes) ∧
      ∀ note ∈ st.notes, note ∈ st'.2.notes)
    selectTimerCallback_ops ?_ ?_ hrun hidle
    ⟨⟨h.linked, h.armed, h.latest, h.inRange⟩, rfl, id, fun _ hmem => hmem⟩
  · rintro n s ⟨hs, hkeep⟩ hi _
    have hstart := tickStarted hi.1 hi.2
    exact ⟨hs.setTbase hstart.linked (fun fd hp => hstart.pending fd ▸ hp), hkeep⟩
  · rintro n s fd rest ⟨hs, hpipe, honce, hkeep⟩ hlinked hwork
    -- the timer on the work list is pending, so its descriptor has a victim
    have hpending : timerPending s.sd.tbase fd = true := by
      have hentry := (hlinked.mem fd .work).1 (by rw [hwork]; exact List.mem_cons_self)
      rw [timerPending]
      exact Option.isSome_of_eq_some hentry
    have hvictim := hs.armed fd (Or.inr (Or.inr hpending))
    have htake : (selectOwner.setTbase s (takeTimer s.sd.tbase fd)).Standing := by
      refine hs.setTbase (hs.linked.takeTimer fd) ?_
      intro fd' hp
      rw [timerPending, takeTimer_entry] at hp
      by_cases hfd : fd' = fd
      · subst hfd; exact hpending
      · rw [Function.update_of_ne hfd] at hp; exact hp
    exact ⟨htake.answer .timeouted fd, hpipe,
      fun h0 => htake.answersOnce (honce h0) hvictim .timeouted,
      fun note hmem => List.mem_append_left _ (hkeep note hmem)⟩

/-! ## One whole `process_block` -/

theorem selectBlock_ok {st st' : SelectState} {readFds writeFds : List Nat} {now : BitVec 64}
    (h : selectBlock st readFds writeFds now = .ok st') :
    ∃ run, timersRun selectOwner selectTimerCallback
        { selectLoop readFds writeFds (reported readFds writeFds) (List.range fdSetsize) 0 st
          with now := now } now = some run ∧ st' = run.2 := by
  unfold selectBlock at h
  split at h
  · cases h
  dsimp only at h
  split at h
  · cases h
  · rename_i run hrun
    exact ⟨run, hrun, (Except.ok.inj h).symm⟩

/-- A `process_block` answers registered victims only exactly if no descriptor is reported
twice. -/
theorem SelectState.Standing.block {st : SelectState} (h : st.Standing)
    (hidle : st.sd.tbase.Idle) (hnotes : AnswersOnce st.notes) {readFds writeFds : List Nat}
    {now : BitVec 64} (hok : registersVictims st (.block readFds writeFds now))
    {st' : SelectState} (hstep : selectBlock st readFds writeFds now = .ok st') :
    st'.Standing ∧ st'.sd.tbase.Idle ∧ st'.sd.pipeRead = st.sd.pipeRead ∧
      (AnswersOnce st'.notes ↔ reportsApart st (.block readFds writeFds now)) := by
  have hsum : 0 + ((List.range fdSetsize).map (hits readFds writeFds)).sum
      = reported readFds writeFds := by simp only [Nat.zero_add, reported]
  obtain ⟨run, hrun, rfl⟩ := selectBlock_ok hstep
  rw [selectLoop_eq hsum] at hrun
  obtain ⟨hs, hi, hpipe, _⟩ := standing_foldl readFds writeFds (List.range fdSetsize) h hidle
  obtain ⟨hs2, hi2, hpipe2, honce, hkeep⟩ := hs.runTimers hi hrun
  refine ⟨hs2, hi2, hpipe2.trans hpipe, fun hgood fd hread hwrite => ?_, fun hapart => ?_⟩
  · by_contra hne
    have hmem := List.mem_range.2 (h.inRange fd (hok.1 fd hread) hne)
    have hnull := foldl_null hmem hread hwrite h hidle hne
    exact hgood.victim _ _ _ (hkeep _ hnull) rfl
  · refine honce (answersOnce_foldl List.nodup_range h hidle hnotes ?_ ?_)
    · rintro fd _ (hread | hwrite)
      · exact h.armed fd (Or.inl (hok.1 fd hread))
      · exact h.armed fd (Or.inr (Or.inl (hok.2 fd hwrite)))
    · exact fun fd _ hread hwrite => hapart fd hread hwrite

/-! ## Runs -/

/-- What holds between acts as long as nothing is reported twice. -/
def SelectState.Answering (st : SelectState) : Prop :=
  st.Standing ∧ st.sd.tbase.Idle ∧ AnswersOnce st.notes

/-- Victims are registered, and no descriptor is reported in both sets. -/
def selectsApart (st : SelectState) (a : SelectAct) : Prop :=
  registersVictims st a ∧ reportsApart st a

instance (st : SelectState) (a : SelectAct) : Decidable (selectsApart st a) :=
  inferInstanceAs (Decidable (_ ∧ _))

theorem answering_step (a : SelectAct) (st st' : SelectState) (h : st.Answering)
    (hok : selectsApart st a) (hstep : selectStep a st = .ok st') : st'.Answering := by
  obtain ⟨hs, hi, hnotes⟩ := h
  cases a with
  | msg request msg =>
      obtain ⟨hs', hnotes', _⟩ := hs.message hnotes hok.1 hstep
      refine ⟨hs', ?_, hnotes'⟩
      simp only [selectStep, processHandleMsgFd] at hstep
      split at hstep
      · cases hstep
      · cases hstep
        cases request with
        | unregister => exact idle_answer hi .read msg.fd
        | registerRead => exact idle_setTimer hi msg.fd msg.expires
        | registerWrite => exact idle_setTimer hi msg.fd msg.expires
  | block readFds writeFds now =>
      obtain ⟨hs', hi', _, hiff⟩ := hs.block hi hnotes hok.1 hstep
      exact ⟨hs', hi', hiff.2 hok.2⟩
  | clock now =>
      cases hstep
      exact ⟨⟨hs.linked, hs.armed, hs.latest, hs.inRange⟩, hi, hnotes⟩

theorem answering_constructor {pipeRead : Nat} {pid : Pid} (hpid : pid ≠ nullPid)
    {now : BitVec 64} {st : SelectState} (hcon : selectConstructor pipeRead pid now = .ok st) :
    st.Answering := by
  unfold selectConstructor processHandleMsgFd at hcon
  split at hcon
  · cases hcon
  cases hcon
  refine ⟨⟨?_, ?_, ?_, ?_⟩, idle_setTimer ⟨linked_init now, rfl⟩ pipeRead 0, ?_⟩
  · exact linked_setTimer (linked_init now) pipeRead 0
  · intro fd harmed
    by_cases hfd : fd = pipeRead
    · subst hfd
      simpa [handleMsgFd] using hpid
    · exfalso
      have hnone : ¬ timerPending (setTimer (initTimerBase now) pipeRead 0) fd = true := by
        rw [timerPending_setTimer, if_neg hfd]
        simp [timerPending, initTimerBase]
      simp only [handleMsgFd, Function.update_of_ne hfd] at harmed
      rcases harmed with hread | hwrite | hpending
      · cases hread
      · cases hwrite
      · exact hnone hpending
  · intro fd hvictim
    by_cases hfd : fd = pipeRead
    · subst hfd
      exact ⟨.registerRead, by simp [handleMsgFd, requestNote, latestNote, FdNote.fd]⟩
    · simp [handleMsgFd, hfd] at hvictim
  · intro fd hread hne
    simp only [handleMsgFd] at hread hne
    rw [Function.update_of_ne hne] at hread
    cases hread
  · exact answersOnce_nil.concat (fun v a fd heq => by cases heq)

/--
**The select engine answers registered victims.**

In every run in which no descriptor is reported readable and writable at once, every
answer goes to the victim of a standing registration, not `NULL`, and two answers have
a registration between them. The next `process_block` keeps that exactly if it is told
of no such descriptor either.
-/
theorem select_notifies_iff (pipeRead : Nat) (pid : Pid) (hpid : pid ≠ nullPid) (now : BitVec 64)
    (st₀ st : SelectState) (hcon : selectConstructor pipeRead pid now = .ok st₀)
    (hr : Runs selectStep selectsApart st₀ st) :
    AnswersOnce st.notes ∧
    ∀ readFds writeFds now' st', registersVictims st (.block readFds writeFds now') →
      selectStep (.block readFds writeFds now') st = .ok st' →
      (AnswersOnce st'.notes ↔ reportsApart st (.block readFds writeFds now')) := by
  obtain ⟨hs, hi, hnotes⟩ := Runs.invariant hr answering_step (answering_constructor hpid hcon)
  refine ⟨hnotes, ?_⟩
  intro readFds writeFds now' st' hok hstep
  exact (hs.block hi hnotes hok hstep).2.2.2

/-- Descriptor 5 is registered for both, is readable, and is registered again. -/
theorem select_notifies_readable : ∃ st : SelectState,
    st.notes = [.registered .registerRead 3 1, .registered .registerRead 5 7,
      .registered .registerWrite 5 7, .sent 7 .read 5, .registered .registerWrite 5 8,
      .sent 8 .timeouted 5] ∧ AnswersOnce st.notes := by
  obtain ⟨st₀, hcon, hrun⟩ : ∃ st₀, selectConstructor 3 1 0 = .ok st₀ ∧
      (runActs selectStep selectsApart
        [.msg .registerRead ⟨7, 5, 0⟩, .msg .registerWrite ⟨7, 5, 0⟩, .block [5] [] 1,
          .msg .registerWrite ⟨8, 5, 3⟩, .block [] [] 4] st₀).any
        (fun st => decide (st.notes = [.registered .registerRead 3 1,
          .registered .registerRead 5 7, .registered .registerWrite 5 7, .sent 7 .read 5,
          .registered .registerWrite 5 8, .sent 8 .timeouted 5])) = true :=
    ⟨_, rfl, by decide +kernel⟩
  obtain ⟨st, hr, hnotes⟩ := exists_run hrun
  exact ⟨st, of_decide_eq_true hnotes,
    (select_notifies_iff 3 1 (by decide) 0 st₀ st hcon hr).1⟩

/-- Descriptor 5 is registered for both and both are reported: the second answer goes to
`NULL`. -/
theorem select_notifies_null : ∃ st₀ st : SelectState, selectConstructor 3 1 0 = .ok st₀ ∧
    Runs selectStep registersVictims st₀ st ∧ .sent nullPid .write 5 ∈ st.notes := by
  obtain ⟨st₀, hcon, hrun⟩ : ∃ st₀, selectConstructor 3 1 0 = .ok st₀ ∧
      (runActs selectStep registersVictims
        [.msg .registerRead ⟨7, 5, 0⟩, .msg .registerWrite ⟨7, 5, 0⟩, .block [5] [5] 1] st₀).any
        (fun st => decide (FdNote.sent nullPid .write 5 ∈ st.notes)) = true :=
    ⟨_, rfl, by decide +kernel⟩
  obtain ⟨st, hr, hmem⟩ := exists_run hrun
  exact ⟨st₀, st, hcon, hr, of_decide_eq_true hmem⟩

end Msock
