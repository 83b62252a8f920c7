import Msock.Lib.Runs
import Msock.Pid
import Msock.Engine.Fd

/-!
# msock_engine_signal.c: the signal engine

All signals are blocked except inside `pselect`, where every one of them is let
through. What is asked for is in `handled`, what was installed by the last
`process_block` in `prev_handled`; a handler that fires takes its registration back.
`sigaction` is taken to succeed, and the system is a map from signals to actions.
-/

namespace Msock

open Lib

/-- `MAX_SIGNALS`. -/
def maxSignals : Nat := 32

/-- What `sigaction` sets. -/
inductive SigAction
  | default
  /-- `signal_handler`. -/
  | signalHandler
  deriving DecidableEq

/-- `struct local_data` of the engine: its two signal sets and the victims. -/
structure SignalData where
  handled : Nat → Bool
  prevHandled : Nat → Bool
  victims : Nat → Pid

/-- The engine, the system's actions and the messages the handler has sent. -/
structure SignalState where
  sd : SignalData
  actions : Nat → SigAction
  /-- `MSG_SIGNAL`, with the victim it went to. -/
  sent : List (Pid × Nat)
  /-- The engine's data is freed. -/
  exited : Bool

/-- `engine_constructor`. -/
def signalConstructor : SignalState where
  sd := ⟨fun _ => false, fun _ => false, fun _ => nullPid⟩
  actions := fun _ => .default
  sent := []
  exited := false

/-- `sigaction`. -/
def sigaction (st : SignalState) (signum : Nat) (action : SigAction) : SignalState :=
  { st with actions := Function.update st.actions signum action }

/-- One round of the loop that sets the handlers. -/
def setHandler (st : SignalState) (i : Nat) : SignalState :=
  let inPrevHandled := st.sd.prevHandled i
  let inHandled := st.sd.handled i
  let st := if !inPrevHandled && inHandled then sigaction st i .signalHandler else st
  if inPrevHandled && !inHandled then sigaction st i .default else st

/-- `process_block` up to its `pselect`. -/
def setHandlers (st : SignalState) : SignalState :=
  let st := (List.range' 1 (maxSignals - 1)).foldl setHandler st
  { st with sd := { st.sd with prevHandled := st.sd.handled } }

/-- `signal_handler`, while the engine waits. -/
def signalHandler (st : SignalState) (signum : Nat) : SignalState :=
  if st.sd.victims signum ≠ nullPid then
    -- one message a registration: the handler takes it back and stays installed
    { st with
      sent := st.sent ++ [(st.sd.victims signum, signum)]
      sd := { st.sd with
        victims := Function.update st.sd.victims signum nullPid
        handled := Function.update st.sd.handled signum false } }
  else st

/-- A signal that arrives inside `pselect`: the engine sees those it has a handler for. -/
def deliverSignal (st : SignalState) (signum : Nat) : SignalState :=
  match st.actions signum with
  | .signalHandler => signalHandler st signum
  -- whatever the system does then, the engine does not see it
  | .default => st

/-- `process_block`, during which the signals `delivered` arrive. -/
def signalBlock (st : SignalState) (delivered : List Nat) : SignalState :=
  delivered.foldl deliverSignal (setHandlers st)

/-- One round of the loop of `engine_data_free`. -/
def resetHandler (st : SignalState) (i : Nat) : SignalState :=
  if st.sd.handled i then sigaction st i .default else st

/-- `engine_data_free`. -/
def engineDataFree (st : SignalState) : SignalState :=
  { (List.range' 1 (maxSignals - 1)).foldl resetHandler st with exited := true }

/-- What the engine is told. -/
inductive SignalAct
  | register (signum : Nat) (victim : Pid)
  | unregister (signum : Nat)
  /-- `MSG_QUEUE_EMPTY`, and the signals that arrive while the engine waits. -/
  | queueEmpty (delivered : List Nat)
  | exit
  deriving DecidableEq

/-- Where the code ends instead of going on. -/
inductive SignalFault
  | outOfVictims
  | exited
  deriving DecidableEq

/-- `process_callback`. -/
def signalStep (a : SignalAct) (st : SignalState) : Except SignalFault SignalState :=
  if st.exited then .error .exited
  else
    match a with
    | .register signum victim =>
        if signum < maxSignals then
          .ok { st with sd := { st.sd with
            victims := Function.update st.sd.victims signum victim
            handled := Function.update st.sd.handled signum true } }
        else .error .outOfVictims
    | .unregister signum =>
        if signum < maxSignals then
          .ok { st with sd := { st.sd with
            victims := Function.update st.sd.victims signum nullPid
            handled := Function.update st.sd.handled signum false } }
        else .error .outOfVictims
    | .queueEmpty delivered => .ok (signalBlock st delivered)
    | .exit => .ok (engineDataFree st)

/-- `SIGKILL` and `SIGSTOP` may not be caught, and there is no signal 0. -/
def Catchable (signum : Nat) : Prop := 1 ≤ signum ∧ signum < maxSignals ∧ signum ≠ 9 ∧ signum ≠ 19

instance (signum : Nat) : Decidable (Catchable signum) := by unfold Catchable; infer_instance

/-- Registrations are of signals that may be caught, for a process. -/
def catches (_ : SignalState) : SignalAct → Prop
  | .register signum victim => Catchable signum ∧ victim ≠ nullPid
  | .unregister signum => Catchable signum
  | .queueEmpty _ | .exit => True

instance (st : SignalState) (a : SignalAct) : Decidable (catches st a) := by
  cases a <;> unfold catches <;> infer_instance

/-! ## The loops over the signals -/

/-- A loop over the signals whose rounds each see to the action of one of them. -/
theorem foldl_actions {f : SignalState → Nat → SignalState}
    {g : SignalData → SigAction → Nat → SigAction}
    (hround : ∀ st i, f st i
      = { st with actions := Function.update st.actions i (g st.sd (st.actions i) i) })
    {signals : List Nat} (hnodup : signals.Nodup) (st : SignalState) :
    signals.foldl f st = { st with
      actions := fun i => if i ∈ signals then g st.sd (st.actions i) i else st.actions i } := by
  induction signals generalizing st with
  | nil => simp
  | cons j signals ih =>
      obtain ⟨hnot, hnodup'⟩ := List.nodup_cons.1 hnodup
      rw [List.foldl_cons, ih hnodup', hround]
      congr 1
      funext i
      by_cases hij : i = j
      · subst hij
        simp [hnot]
      · simp [hij]

/-- What a round of `process_block` makes of an action. -/
def installed (sd : SignalData) (action : SigAction) (i : Nat) : SigAction :=
  if sd.prevHandled i = sd.handled i then action
  else if sd.handled i then .signalHandler else .default

theorem setHandler_eq (st : SignalState) (i : Nat) : setHandler st i
    = { st with actions := Function.update st.actions i (installed st.sd (st.actions i) i) } := by
  unfold setHandler installed sigaction
  cases hp : st.sd.prevHandled i <;> cases hh : st.sd.handled i <;> simp

/-- What a round of `engine_data_free` makes of an action. -/
def reset (sd : SignalData) (action : SigAction) (i : Nat) : SigAction :=
  if sd.handled i then .default else action

theorem resetHandler_eq (st : SignalState) (i : Nat) : resetHandler st i
    = { st with actions := Function.update st.actions i (reset st.sd (st.actions i) i) } := by
  unfold resetHandler reset sigaction
  cases hh : st.sd.handled i <;> simp

/-- The signals of the loops. -/
theorem mem_signals {i : Nat} : i ∈ List.range' 1 (maxSignals - 1) ↔ 1 ≤ i ∧ i < maxSignals := by
  rw [List.mem_range'_1]
  unfold maxSignals
  omega

/-! ## What holds between messages -/

/-- Three views of the engine's signals agree. -/
structure SignalState.Kept (st : SignalState) : Prop where
  /-- A signal is handled exactly while it has a victim. -/
  victims : ∀ i, st.sd.handled i = true ↔ st.sd.victims i ≠ nullPid
  /-- The signals with the engine's handler are those the last `process_block` found. -/
  actions : ∀ i, st.actions i = .signalHandler ↔ st.sd.prevHandled i = true
  /-- Only signals that may be caught are involved. -/
  handled : ∀ i, st.sd.handled i = true → Catchable i
  prevHandled : ∀ i, st.sd.prevHandled i = true → Catchable i

theorem kept_constructor : signalConstructor.Kept where
  victims := fun _ => by simp [signalConstructor]
  actions := fun _ => by simp [signalConstructor]
  handled := fun _ h => by simp [signalConstructor] at h
  prevHandled := fun _ h => by simp [signalConstructor] at h

/-- At its `pselect` the engine has a handler exactly for the signals it handles. -/
theorem SignalState.Kept.setHandlers {st : SignalState} (h : st.Kept) :
    (setHandlers st).Kept ∧
      ∀ i, (Msock.setHandlers st).actions i = .signalHandler
        ↔ (Msock.setHandlers st).sd.victims i ≠ nullPid := by
  have heq := foldl_actions setHandler_eq
    (List.nodup_range' : (List.range' 1 (maxSignals - 1)).Nodup) st
  have hactions : ∀ i, (Msock.setHandlers st).actions i = .signalHandler
      ↔ st.sd.handled i = true := by
    intro i
    unfold Msock.setHandlers
    rw [heq]
    by_cases hi : i ∈ List.range' 1 (maxSignals - 1)
    · simp only [if_pos hi, installed]
      split_ifs with hsame hhandled
      · rw [h.actions, hsame]
      · simp [hhandled]
      · simp [hhandled]
    · -- no such signal is handled or has been
      have hout : ¬ Catchable i := fun hc => hi (mem_signals.2 ⟨hc.1, hc.2.1⟩)
      simp only [if_neg hi, h.actions]
      exact ⟨fun hp => absurd (h.prevHandled i hp) hout, fun hh => absurd (h.handled i hh) hout⟩
  have hsd : (Msock.setHandlers st).sd = { st.sd with prevHandled := st.sd.handled } := by
    unfold Msock.setHandlers
    rw [heq]
  refine ⟨⟨?_, ?_, ?_, ?_⟩, ?_⟩
  · intro i; rw [hsd]; exact h.victims i
  · intro i; rw [hactions, hsd]
  · intro i hi; rw [hsd] at hi; exact h.handled i hi
  · intro i hi; rw [hsd] at hi; exact h.handled i hi
  · intro i; rw [hactions, hsd]; exact h.victims i

/-- Asking for a signal or no longer asking for it leaves the actions alone. -/
theorem SignalState.Kept.request {st : SignalState} (h : st.Kept) {signum : Nat} {victim : Pid}
    {wanted : Bool} (hcatch : wanted = true → Catchable signum)
    (hvictim : wanted = true ↔ victim ≠ nullPid) (sent : List (Pid × Nat)) :
    ({ st with
        sent := sent
        sd := { st.sd with
          victims := Function.update st.sd.victims signum victim
          handled := Function.update st.sd.handled signum wanted } } : SignalState).Kept where
  victims := by
    intro i
    by_cases hi : i = signum
    · subst hi; simpa using hvictim
    · simpa [hi] using h.victims i
  actions := h.actions
  handled := by
    intro i hh
    by_cases hi : i = signum
    · subst hi; exact hcatch (by simpa using hh)
    · exact h.handled i (by simpa [hi] using hh)
  prevHandled := h.prevHandled

theorem SignalState.Kept.deliver {st : SignalState} (h : st.Kept) (signum : Nat) :
    (deliverSignal st signum).Kept := by
  unfold deliverSignal
  split
  · unfold signalHandler
    split
    · exact h.request (fun hw => by cases hw) (by simp) _
    · exact h
  · exact h

theorem SignalState.Kept.block {st : SignalState} (h : st.Kept) (delivered : List Nat) :
    (signalBlock st delivered).Kept := by
  have hall : ∀ s : SignalState, s.Kept → (delivered.foldl deliverSignal s).Kept := by
    induction delivered with
    | nil => exact fun s hs => hs
    | cons signum delivered ih => exact fun s hs => ih _ (hs.deliver signum)
  exact hall _ h.setHandlers.1

/-- As long as the engine has not exited. -/
theorem kept_step (a : SignalAct) (st st' : SignalState)
    (h : st.exited = false → st.Kept) (hok : catches st a) (hstep : signalStep a st = .ok st') :
    st'.exited = false → st'.Kept := by
  unfold signalStep at hstep
  split at hstep
  · cases hstep
  · rename_i hlive
    have h := h (by simpa using hlive)
    intro hexited
    cases a with
    | register signum victim =>
        simp only at hstep
        split at hstep
        · cases hstep
          exact h.request (fun _ => hok.1) (by simpa using hok.2) st.sent
        · cases hstep
    | unregister signum =>
        simp only at hstep
        split at hstep
        · cases hstep
          exact h.request (fun hw => by cases hw) (by simp) st.sent
        · cases hstep
    | queueEmpty delivered =>
        simp only at hstep
        cases hstep
        exact h.block delivered
    | exit =>
        simp only at hstep
        cases hstep
        simp [engineDataFree] at hexited

/-- What `engine_data_free` leaves mapped to the engine's handler. -/
theorem SignalState.Kept.freed {st : SignalState} (h : st.Kept) (i : Nat) :
    (engineDataFree st).actions i = .signalHandler
      ↔ st.sd.prevHandled i = true ∧ st.sd.handled i = false := by
  unfold engineDataFree
  rw [foldl_actions resetHandler_eq List.nodup_range' st]
  simp only [reset]
  by_cases hi : i ∈ List.range' 1 (maxSignals - 1)
  · rw [if_pos hi]
    cases hh : st.sd.handled i
    · simp [h.actions]
    · simp
  · have hout : ¬ Catchable i := fun hc => hi (mem_signals.2 ⟨hc.1, hc.2.1⟩)
    rw [if_neg hi, h.actions]
    refine ⟨fun hp => absurd (h.prevHandled i hp) hout, fun hp => hp.1⟩

/--
**The signal engine's handlers.**

In every run, at each `pselect` the signals with the engine's handler are exactly those
with a victim. `MSG_EXIT` leaves none of them behind exactly if every signal that the
last `process_block` installed is still handled.
-/
theorem signal_handlers_iff (st : SignalState)
    (hr : Runs signalStep catches signalConstructor st) (hlive : st.exited = false) :
    (∀ i, (setHandlers st).actions i = .signalHandler
      ↔ (setHandlers st).sd.victims i ≠ nullPid) ∧
    ∀ st', signalStep .exit st = .ok st' →
      ((∀ i, st'.actions i ≠ .signalHandler)
        ↔ ∀ i, st.sd.prevHandled i = true → st.sd.handled i = true) := by
  have h := Runs.invariant hr (fun a t t' h hok hstep => kept_step a t t' h hok hstep)
    (fun _ => kept_constructor) hlive
  refine ⟨h.setHandlers.2, fun st' hstep => ?_⟩
  rw [signalStep, hlive] at hstep
  cases hstep
  constructor
  · intro hnone i hprev
    by_contra hnot
    exact hnone i ((h.freed i).2 ⟨hprev, by simpa using hnot⟩)
  · intro hstill i hmapped
    obtain ⟨hprev, hnot⟩ := (h.freed i).1 hmapped
    rw [hstill i hprev] at hnot
    cases hnot

/-- Two registrations, a wait, and an exit with both still standing. -/
theorem signal_handlers_removed : ∃ st st' : SignalState,
    st.sd.handled 2 = true ∧ st.sd.prevHandled 2 = true ∧ signalStep .exit st = .ok st' ∧
      ∀ i, st'.actions i ≠ .signalHandler := by
  obtain ⟨st, hr, h⟩ := exists_run (show (runActs signalStep catches
      [.register 2 7, .register 15 8, .queueEmpty [], .queueEmpty []] signalConstructor).any
      (fun st => !st.exited && st.sd.handled 2 && st.sd.prevHandled 2 &&
        (List.range maxSignals).all (fun i => !st.sd.prevHandled i || st.sd.handled i))
      = true by decide +kernel)
  simp only [Bool.and_eq_true, Bool.not_eq_true', List.all_eq_true, List.mem_range] at h
  obtain ⟨⟨⟨hlive, hhandled⟩, hprev⟩, hall⟩ := h
  have hkept := Runs.invariant hr (fun a t t' h hok hstep => kept_step a t t' h hok hstep)
    (fun _ => kept_constructor) hlive
  have hstep : signalStep .exit st = .ok (engineDataFree st) := by
    rw [signalStep, hlive]
    rfl
  refine ⟨st, engineDataFree st, hhandled, hprev, hstep, ?_⟩
  refine ((signal_handlers_iff st hr hlive).2 _ hstep).2 fun i hi => ?_
  have hlt := (hkept.prevHandled i hi).2.1
  simpa [hi] using hall i hlt

/-- A signal arrives during the wait, and the engine exits: its handler stays behind. -/
theorem signal_handler_left_behind : ∃ st' : SignalState,
    Runs signalStep catches signalConstructor st' ∧ st'.exited = true ∧
      st'.actions 2 = .signalHandler := by
  obtain ⟨st, hr, h⟩ := exists_run (show (runActs signalStep catches
      [.register 2 7, .queueEmpty [2], .exit] signalConstructor).any
      (fun st => st.exited && decide (st.actions 2 = .signalHandler)) = true by decide +kernel)
  rw [Bool.and_eq_true, decide_eq_true_eq] at h
  exact ⟨st, hr, h.1, h.2⟩

end Msock
