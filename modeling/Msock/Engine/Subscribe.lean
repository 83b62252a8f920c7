import Msock.Lib.Requests
import Msock.Engine.Signal

/-!
# Signals are reported once

To its clients the signal engine is a board of requests: a client asks for a signal, and is told
the first time the signal arrives. Behind it are two signal sets, the system's actions, which
are brought up to date only when the engine is about to wait, and a handler that stays installed
after it has fired.
-/

namespace Msock

open Lib

variable {st st' : SignalState} {b : Board Nat Pid}

/-- What a message to the engine, or a wait, means to its clients. -/
def SignalAct.requests : SignalAct → List (Request Nat Pid)
  | .register signum victim => [.ask signum victim]
  | .unregister signum => [.cancel signum]
  | .queueEmpty delivered => delivered.map .happens
  | .exit => []

/-- The engine's victims are who wants to know, and it has told whom the board has answered. -/
structure SignalState.Shows (st : SignalState) (b : Board Nat Pid) : Prop where
  wants : ∀ i, b.wants i = if st.sd.victims i = nullPid then none else some (st.sd.victims i)
  sent : b.answered = st.sent

theorem shows_constructor : signalConstructor.Shows Board.empty where
  wants := fun _ => rfl
  sent := rfl

/-- Setting the handlers is nothing to the clients. -/
theorem SignalState.Shows.setHandlers (h : st.Shows b) : (setHandlers st).Shows b := by
  have heq := foldl_actions setHandler_eq
    (List.nodup_range' : (List.range' 1 (maxSignals - 1)).Nodup) st
  refine ⟨fun i => ?_, ?_⟩
  · rw [h.wants, Msock.setHandlers, heq]
  · rw [h.sent, Msock.setHandlers, heq]

/-- The table of victims after one entry was overwritten. -/
theorem wants_update (h : ∀ i, b.wants i = if st.sd.victims i = nullPid then none
      else some (st.sd.victims i)) (signum : Nat) (victim : Pid) (i : Nat) :
    Function.update b.wants signum (if victim = nullPid then none else some victim) i
      = if Function.update st.sd.victims signum victim i = nullPid then none
        else some (Function.update st.sd.victims signum victim i) := by
  by_cases hi : i = signum
  · subst hi
    rw [Function.update_self, Function.update_self]
  · rw [Function.update_of_ne hi, Function.update_of_ne hi, h]

/-- Whoever wants a signal has a handler for it. -/
def SignalState.Armed (st : SignalState) : Prop :=
  ∀ i, st.sd.victims i ≠ nullPid → st.actions i = .signalHandler

/-- A signal that arrives during the wait. -/
theorem SignalState.Shows.deliver (h : st.Shows b) (harmed : st.Armed) (signum : Nat) :
    (deliverSignal st signum).Shows (b.take (.happens signum)) ∧ (deliverSignal st signum).Armed := by
  by_cases hvictim : st.sd.victims signum = nullPid
  · -- nobody wants it, whether there is a handler or not
    have hwants : b.wants signum = none := by rw [h.wants, if_pos hvictim]
    have hboard : b.take (.happens signum) = b := by simp [Board.take, hwants]
    have hsame : deliverSignal st signum = st := by
      unfold deliverSignal
      split
      · rw [signalHandler, if_neg (not_not.2 hvictim)]
      · rfl
    rw [hboard, hsame]
    exact ⟨h, harmed⟩
  · have hwants : b.wants signum = some (st.sd.victims signum) := by rw [h.wants, if_neg hvictim]
    have hfires : deliverSignal st signum = signalHandler st signum := by
      rw [deliverSignal, harmed signum hvictim]
    rw [hfires, signalHandler, if_pos hvictim]
    refine ⟨⟨fun i => ?_, ?_⟩, fun i hi => ?_⟩
    · have hupdate := wants_update h.wants signum nullPid i
      rw [if_pos rfl] at hupdate
      rw [← hupdate]
      simp [Board.take, hwants]
    · simp [Board.take, hwants, h.sent]
    · by_cases his : i = signum
      · subst his
        simp at hi
      · simp only [Function.update_of_ne his] at hi
        exact harmed i hi

theorem SignalState.Shows.deliveries {delivered : List Nat} (h : st.Shows b) (harmed : st.Armed) :
    (delivered.foldl deliverSignal st).Shows (b.run (delivered.map .happens)) := by
  induction delivered generalizing st b with
  | nil => exact h
  | cons signum delivered ih =>
      obtain ⟨hshows, harmed'⟩ := h.deliver harmed signum
      exact ih hshows harmed'

/-- **One message, or one wait.** -/
theorem SignalState.Shows.step {a : SignalAct} (h : st.Shows b) (hkept : st.Kept)
    (hok : catches st a) (hstep : signalStep a st = .ok st') : st'.Shows (b.run a.requests) := by
  unfold signalStep at hstep
  split at hstep
  · cases hstep
  · cases a with
    | register signum victim =>
        dsimp only at hstep
        split at hstep
        · cases hstep
          refine ⟨fun i => ?_, h.sent⟩
          have hupdate := wants_update h.wants signum victim i
          rw [if_neg hok.2] at hupdate
          exact hupdate
        · cases hstep
    | unregister signum =>
        dsimp only at hstep
        split at hstep
        · cases hstep
          refine ⟨fun i => ?_, h.sent⟩
          have hupdate := wants_update h.wants signum nullPid i
          rw [if_pos rfl] at hupdate
          exact hupdate
        · cases hstep
    | queueEmpty delivered =>
        cases hstep
        -- at the `pselect` everybody who wants a signal has a handler
        exact h.setHandlers.deliveries fun i hi => (hkept.setHandlers.2 i).2 hi
    | exit =>
        cases hstep
        have heq := foldl_actions resetHandler_eq
          (List.nodup_range' : (List.range' 1 (maxSignals - 1)).Nodup) st
        refine ⟨fun i => ?_, ?_⟩
        · show b.wants i = _
          rw [h.wants, engineDataFree, heq]
        · show b.answered = _
          rw [h.sent, engineDataFree, heq]

/-- The board after a list of messages. -/
def signalBoard (as : List SignalAct) : Board Nat Pid :=
  Board.empty.run (as.flatMap SignalAct.requests)

theorem shows_runActs {as : List SignalAct} (h : st.Shows b) (hkept : st.exited = false → st.Kept)
    (hrun : runActs signalStep catches as st = some st') :
    st'.Shows (b.run (as.flatMap SignalAct.requests)) := by
  induction as generalizing st b with
  | nil =>
      obtain rfl : st = st' := Option.some.inj hrun
      exact h
  | cons a as ih =>
      rw [runActs] at hrun
      split at hrun
      · rename_i hok
        split at hrun
        · rename_i st₁ hstep
          have hlive : st.exited = false := by
            unfold signalStep at hstep
            split at hstep
            · cases hstep
            · rename_i hlive
              simpa using hlive
          rw [List.flatMap_cons, Board.run_append]
          exact ih (h.step (hkept hlive) hok hstep) (kept_step a st st₁ hkept hok hstep) hrun
        · cases hrun
      · cases hrun

/-- The registrations of a signal. -/
def SignalAct.registers (signum : Nat) : SignalAct → Bool
  | .register signum' _ => signum' = signum
  | _ => false

theorem asks_requests (signum : Nat) (as : List SignalAct) :
    (as.flatMap SignalAct.requests).countP (Request.asks signum)
      = as.countP (SignalAct.registers signum) := by
  induction as with
  | nil => rfl
  | cons a as ih =>
      rw [List.flatMap_cons, List.countP_append, List.countP_cons, ih, Nat.add_comm]
      congr 1
      cases a with
      | queueEmpty delivered =>
          simp [SignalAct.requests, SignalAct.registers, Request.asks, List.countP_eq_zero]
      | _ => simp [SignalAct.requests, SignalAct.registers, Request.asks, List.countP_cons]

/--
**Signals are reported once.**

After any messages and waits, `MSG_SIGNAL` has been sent to whom a board of requests has
answered, in that order: each signal that arrived while somebody was registered for it was
reported to the last one registered, and to nobody otherwise. Of a signal no more are reported
than registrations were made, counting the one that still stands.
-/
theorem signal_reported_once {as : List SignalAct}
    (hrun : runActs signalStep catches as signalConstructor = some st) :
    st.sent = (signalBoard as).answered ∧
    (∀ i, (signalBoard as).wants i
      = if st.sd.victims i = nullPid then none else some (st.sd.victims i)) ∧
    ∀ signum, st.sent.countP (fun e => e.2 = signum) + (if st.sd.victims signum = nullPid then 0 else 1)
      ≤ as.countP (SignalAct.registers signum) := by
  have h := shows_runActs shows_constructor (fun _ => kept_constructor) hrun
  refine ⟨h.sent.symm, h.wants, fun signum => ?_⟩
  have hserved : ((Board.empty : Board Nat Pid).run (as.flatMap SignalAct.requests)).served signum
      ≤ _ := Board.served_run
  rw [asks_requests, Board.served, h.sent, h.wants] at hserved
  have hnone : (Board.empty : Board Nat Pid).served signum = 0 := rfl
  rw [hnone, Nat.zero_add] at hserved
  refine Nat.le_trans (Nat.le_of_eq ?_) hserved
  by_cases hv : st.sd.victims signum = nullPid <;> simp [hv]

/-- A signal arrives twice during one wait: the one process that registered is told once. -/
theorem signal_reported_once_of_two : ∃ st : SignalState, st.sent = [(7, 2)] ∧
    st.sent.countP (fun e => e.2 = 2) + (if st.sd.victims 2 = nullPid then 0 else 1) ≤ 1 := by
  cases hrun : runActs signalStep catches [.register 2 7, .queueEmpty [2, 2]] signalConstructor with
  | none =>
      have hsome : (runActs signalStep catches [.register 2 7, .queueEmpty [2, 2]]
        signalConstructor).isSome = true := by decide +kernel
      rw [hrun] at hsome
      cases hsome
  | some st =>
      have h := signal_reported_once hrun
      exact ⟨st, h.1, h.2.2 2⟩

end Msock
