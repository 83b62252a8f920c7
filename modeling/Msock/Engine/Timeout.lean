import Msock.Timer.Run
import Msock.Engine.Changes

/-!
# Long timeouts

A registration's timeout is added to the clock modulo `2^64`, 0 stands for no timeout,
and the wheel takes what is `2^63` ticks ahead or more for past. So there is a longest
timeout that is kept; a longer one is dropped, or fires at once, or at a time that is
not its own, or the clock cannot be run up to it.
-/

namespace Msock

open Lib

/-- `schedule_change` with what `msock_victim_send_msg_fd` has built at the time `now`. -/
def registerFd (st : EpollState) (now : BitVec 64) (victim : Pid) (fd : Nat)
    (mask : EpollMask) (timeoutMsecs : BitVec 64) : EpollState :=
  let msg := msockVictimSendMsgFd now victim fd timeoutMsecs
  { st with sd := scheduleChange st.sd msg.victim msg.fd mask msg.expires }

/-- The act is not a `timers_run` that gets to `deadline`. -/
def RunsBelow (deadline : Nat) (_ : EpollState) : WheelAct Nat → Prop
  | .run jiffies => jiffies.toNat < deadline
  | _ => True

instance (deadline : Nat) (st : EpollState) (act : WheelAct Nat) :
    Decidable (RunsBelow deadline st act) := by
  unfold RunsBelow
  split <;> infer_instance

/-- The timeout is armed, and nothing that is done with the wheel calls it back as long as
every `timers_run` is for a tick below its end; and all these are defined. -/
def NeverEarly (st : EpollState) (now : BitVec 64) (victim : Pid) (fd : Nat)
    (mask : EpollMask) (timeoutMsecs : BitVec 64) : Prop :=
  let st' := registerFd st now victim fd mask timeoutMsecs
  timerPending st'.sd.tbase fd = true ∧
    ∀ st'', Runs (wheelStep epollOwner epollTimerCallback)
        (RunsBelow (now.toNat + timeoutMsecs.toNat)) st' st'' →
      (∀ f ∈ st''.sd.tbase.fired, f.stamp ≠ st.sd.tbase.armed.length) ∧
        ∀ jiffies : BitVec 64, jiffies.toNat < now.toNat + timeoutMsecs.toNat →
          timersRun epollOwner epollTimerCallback st'' jiffies ≠ none

/-! ## Timeouts that are kept -/

/-- The timeout number `k`, due at `deadline`, has not been called back, and the clock of
the wheel is not past it. -/
structure Waiting (deadline : BitVec 64) (k : Nat) (a : Arming Nat) (st : EpollState) : Prop where
  ready : st.sd.tbase.Ready
  clock : st.sd.tbase.timerJiffies.toNat ≤ deadline.toNat
  armed : st.sd.tbase.armed[k]? = some a
  notFired : ∀ f ∈ st.sd.tbase.fired, f.stamp ≠ k

/-- Ticks below a deadline that is a `long` can be compared. -/
theorem ticksFit_of_below {deadline clock jiffies : BitVec 64} (hfar : deadline.toNat < 2 ^ 63)
    (hclock : clock.toNat ≤ deadline.toNat) (hbelow : jiffies.toNat < deadline.toNat) :
    TicksFit clock jiffies := by
  have hmax : (BitVec.intMax 64).toNat = 2 ^ 63 - 1 := by decide
  constructor
  · rw [ssubOverflow_eq_false, BitVec.toInt_eq_toNat_cond, BitVec.toInt_eq_toNat_cond,
      if_pos (by omega), if_pos (by omega)]
    omega
  · rintro rfl
    omega

/-- A run to a tick below the deadline does not get to it. -/
theorem clock_of_runBelow {deadline clock jiffies : BitVec 64} (hfar : deadline.toNat < 2 ^ 63)
    (hclock : clock.toNat ≤ deadline.toNat) (hbelow : jiffies.toNat < deadline.toNat)
    (hgo : ahead clock jiffies < 2 ^ 63) :
    (jiffies + 1).toNat ≤ deadline.toNat ∧ ¬ InWindow clock jiffies deadline := by
  have hone : (1 : BitVec 64).toNat = 1 := rfl
  have h1 := deadline.isLt
  have h2 := jiffies.isLt
  have h3 := clock.isLt
  simp only [InWindow, ahead, BitVec.toNat_sub, BitVec.toNat_add, hone] at *
  omega

theorem Waiting.step {deadline : BitVec 64} (hfar : deadline.toNat < 2 ^ 63) {k : Nat}
    {a : Arming Nat} (hdue : a.due = deadline) {st st' : EpollState}
    (h : Waiting deadline k a st) {act : WheelAct Nat}
    (hbelow : RunsBelow deadline.toNat st act)
    (hstep : wheelStep epollOwner epollTimerCallback act st = .ok st') :
    Waiting deadline k a st' := by
  have hops := epollTimerCallback_ops
  obtain ⟨hready, hextends⟩ := wheelStep_ready hops h.ready hstep
  have harmed := hextends.arming h.armed
  cases act with
  | mod timer expires =>
      cases hstep
      refine ⟨hready, ?_, harmed, ?_⟩
      · exact (congrArg BitVec.toNat (timerMod_timerJiffies _ _ _)).trans_le h.clock
      · intro f hf
        exact h.notFired f (by simpa [epollOwner] using hf)
  | del timer =>
      cases hstep
      refine ⟨hready, ?_, harmed, ?_⟩
      · exact (congrArg BitVec.toNat (timerDel_timerJiffies _ _)).trans_le h.clock
      · intro f hf
        exact h.notFired f (by simpa [epollOwner] using hf)
  | run jiffies =>
      obtain ⟨run, hrun, rfl⟩ := wheelStep_run.1 hstep
      obtain ⟨-, ⟨-, rfl⟩ | ⟨hgo, -⟩⟩ := timersRun_cases hops h.ready.idle hrun
      · exact h
      · obtain ⟨hnext, hout⟩ := clock_of_runBelow hfar h.clock hbelow hgo
        obtain ⟨called, hexact⟩ := timersRun_exact hops h.ready hrun hgo
        refine ⟨hready, (congrArg BitVec.toNat hexact.timerJiffies).trans_le hnext, harmed, ?_⟩
        intro f hf
        change f ∈ (epollOwner.tbase _).fired at hf
        rw [hexact.fired] at hf
        rcases List.mem_append.1 hf with hold | hnew
        · exact h.notFired f hold
        · rintro rfl
          -- it would be called at its due tick, which the run does not get to
          obtain ⟨htick, hin⟩ := hexact.onTime f hnew
          have harming := (hexact.arming f hnew).1
          rw [harmed] at harming
          rw [htick, ← (Arming.mk.inj (Option.some.inj harming)).2] at hin
          exact hout (hdue ▸ hin)

/-! ## The bound -/

section
variable {st : EpollState} {now timeoutMsecs : BitVec 64} (victim : Pid) (fd : Nat)
  (mask : EpollMask)

theorem tbase_registerFd (st : EpollState) (hT : timeoutMsecs ≠ 0) :
    (registerFd st now victim fd mask timeoutMsecs).sd.tbase
      = setTimer st.sd.tbase fd (now + timeoutMsecs) := by
  simp only [registerFd, msockVictimSendMsgFd, scheduleChange_tbase]
  rw [if_pos hT]

theorem tbase_registerFd_armed (st : EpollState) (hT : timeoutMsecs ≠ 0)
    (hne : now + timeoutMsecs ≠ 0) :
    (registerFd st now victim fd mask timeoutMsecs).sd.tbase
      = timerMod st.sd.tbase fd (now + timeoutMsecs) := by
  rw [tbase_registerFd victim fd mask st hT, setTimer, if_pos hne]
  rfl

/-- A timer that has just been armed. -/
theorem armed_timerMod (base : TimerBase Nat) (timer : Nat) (expires : BitVec 64) :
    (timerMod base timer expires).armed[base.armed.length]?
      = some ⟨timer, dueTick base.timerJiffies expires⟩ := by
  rw [timerMod_armed]
  exact List.getElem?_concat_length

/-- A timeout that ends below `2^63` is kept. -/
theorem neverEarly_of_lt (h : st.sd.tbase.Ready) (hT : timeoutMsecs ≠ 0)
    (hclock : st.sd.tbase.timerJiffies.toNat ≤ now.toNat + 1)
    (hfar : now.toNat + timeoutMsecs.toNat < 2 ^ 63) :
    NeverEarly st now victim fd mask timeoutMsecs := by
  have hpos : timeoutMsecs.toNat ≠ 0 := fun h0 => hT (BitVec.eq_of_toNat_eq h0)
  have hsum : (now + timeoutMsecs).toNat = now.toNat + timeoutMsecs.toNat := by
    rw [BitVec.toNat_add, Nat.mod_eq_of_lt (by omega)]
  have hne : now + timeoutMsecs ≠ 0 := by
    intro h0
    have hzero : (now + timeoutMsecs).toNat = 0 := by rw [h0]; rfl
    omega
  have htbase := tbase_registerFd_armed victim fd mask st hT hne
  -- the sum is not taken for past
  have hdue : dueTick st.sd.tbase.timerJiffies (now + timeoutMsecs) = now + timeoutMsecs := by
    refine dueTick_of_soon ?_
    rw [ahead, BitVec.toNat_sub, hsum]
    omega
  unfold NeverEarly
  dsimp only
  refine ⟨by rw [htbase]; simp [timerPending], fun st'' hr => ?_⟩
  rw [← hsum] at hr ⊢
  have hstart : Waiting (now + timeoutMsecs) st.sd.tbase.armed.length
      ⟨fd, now + timeoutMsecs⟩ (registerFd st now victim fd mask timeoutMsecs) := by
    constructor
    case ready =>
        rw [htbase]
        exact (TimerOps.mod _ _ _).ready h
    case clock => rw [htbase, timerMod_timerJiffies]; omega
    case armed => rw [htbase, armed_timerMod, hdue]
    case notFired =>
        intro f hf heq
        rw [htbase, timerMod_fired] at hf
        have hbound := h.ledger.bound f.stamp
          (List.mem_append_right _ (List.mem_map_of_mem hf))
        omega
  have hend := hr.invariant (I := Waiting (now + timeoutMsecs) _ _)
    (fun act t t' ht hok hact => ht.step (hsum.trans_lt hfar) rfl hok hact) hstart
  refine ⟨hend.notFired, fun jiffies hbelow hnone => ?_⟩
  obtain ⟨_, -, hrun, -⟩ := timersRun_of_fit epollTimerCallback_ops hend.ready.idle
    (ticksFit_of_below (hsum.trans_lt hfar) hend.clock hbelow)
  rw [hnone] at hrun
  cases hrun

/-- A timeout that ends at `2^63` or later is not: the clock is not run past `2^63 - 1`. -/
theorem lt_of_neverEarly (hnever : NeverEarly st now victim fd mask timeoutMsecs) :
    now.toNat + timeoutMsecs.toNat < 2 ^ 63 := by
  by_contra hfar
  have hmax : (BitVec.intMax 64).toNat = 2 ^ 63 - 1 := by decide
  refine (hnever.2 _ Relation.ReflTransGen.refl).2 (BitVec.intMax 64) (by omega) ?_
  exact timersRun_of_not_fit (fun hfit => hfit.2 rfl)

end

/--
**Which timeouts are kept.**

Whatever has been done with the engine's wheel before, a timeout is armed, and fires at
no tick below its end, exactly if the end is below `2^63`.
-/
theorem timeout_never_early_iff {start : BitVec 64} {st₀ st : EpollState}
    (hinit : st₀.sd.tbase = initTimerBase start)
    (hr : Runs (wheelStep epollOwner epollTimerCallback) anyAct st₀ st)
    (now timeoutMsecs : BitVec 64)
    (hclock : st.sd.tbase.timerJiffies.toNat ≤ now.toNat + 1) (hT : timeoutMsecs ≠ 0)
    (victim : Pid) (fd : Nat) (mask : EpollMask) :
    NeverEarly st now victim fd mask timeoutMsecs ↔
      now.toNat + timeoutMsecs.toNat < 2 ^ 63 := by
  have hready : st.sd.tbase.Ready :=
    wheelRuns_ready epollTimerCallback_ops hr (show st₀.sd.tbase.Ready from
      hinit ▸ ready_init start)
  constructor
  · exact lt_of_neverEarly victim fd mask
  · exact neverEarly_of_lt victim fd mask hready hT hclock

/-- An engine that has just been made, at the time 5. -/
def freshEngine : EpollState := epollConstructor (fun _ => false) 8 3 nullPid 5

theorem timeout_never_early_iff_ten : NeverEarly freshEngine 5 nullPid 4 epollIn 10 :=
  (timeout_never_early_iff (show freshEngine.sd.tbase = initTimerBase 5 from rfl)
    Relation.ReflTransGen.refl 5 10 (by decide) (by decide) nullPid 4 epollIn).2
    (by decide)

/-- The longest `unsigned long` is taken for past: `timers_run(5)` calls it back. -/
theorem timeout_max_fires_early :
    ∃ st, Runs (wheelStep epollOwner epollTimerCallback) (RunsBelow (5 + 0xffffffffffffffff))
        (registerFd freshEngine 5 nullPid 4 epollIn 0xffffffffffffffff) st ∧
      (st.sd.tbase.fired.map Firing.timer = [4] ∧ st.sd.tbase.fired.map Firing.tick = [5]) ∧
      ¬ NeverEarly freshEngine 5 nullPid 4 epollIn 0xffffffffffffffff := by
  obtain ⟨st, hr, hst⟩ := exists_run (show (runActs (wheelStep epollOwner epollTimerCallback)
    (RunsBelow (5 + 0xffffffffffffffff)) [.run 5]
    (registerFd freshEngine 5 nullPid 4 epollIn 0xffffffffffffffff)).any (fun st =>
      decide ((st.sd.tbase.fired.map Firing.timer = [4] ∧
        st.sd.tbase.fired.map Firing.tick = [5]) ∧
        st.sd.tbase.fired.map Firing.stamp = [0])) = true by decide +kernel)
  obtain ⟨hfired, hstamp⟩ := of_decide_eq_true hst
  refine ⟨st, hr, hfired, fun hnever => ?_⟩
  obtain ⟨f, hf, hk⟩ := List.mem_map.1 (show 0 ∈ st.sd.tbase.fired.map Firing.stamp by
    rw [hstamp]; exact List.mem_singleton_self 0)
  exact (hnever.2 st hr).1 f hf hk

end Msock
