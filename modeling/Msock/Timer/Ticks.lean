import Msock.Timer.Slots

/-!
# The loops of `timers_run` end

The two loops are stated once more as they stand in the source, without a bound on the
rounds: `WorkRuns` is the inner one and `TicksRun` the outer one, each with the timers
it calls. A callback can only take timers off the work list, since the clock has moved
on and nothing is put there; so a tick calls each timer at most once, and the clock
passes `jiffies` whatever the callbacks do, as long as the comparisons are defined.
-/

namespace Msock

universe u v
variable {τ : Type u} {σ : Type v} [DecidableEq τ]

/-! ## The comparisons -/

theorem ssubOverflow_eq_false {a b : BitVec 64} :
    a.ssubOverflow b = false ↔ -2 ^ 63 ≤ a.toInt - b.toInt ∧ a.toInt - b.toInt < 2 ^ 63 := by
  simp only [BitVec.ssubOverflow, Bool.or_eq_false_iff, decide_eq_false_iff_not]
  omega

theorem toInt_longSub {a b d : BitVec 64} (h : longSub a b = some d) :
    a.ssubOverflow b = false ∧ d = a - b ∧ d.toInt = a.toInt - b.toInt := by
  unfold longSub at h
  split at h
  · cases h
  · rename_i hfits
    cases h
    exact ⟨by simpa using hfits, rfl, BitVec.toInt_sub_of_not_ssubOverflow hfits⟩

theorem longSub_eq_none {a b : BitVec 64} : longSub a b = none ↔ a.ssubOverflow b = true := by
  unfold longSub
  split <;> simp_all

/-- A test of a difference is defined where the difference is, and is one of the `long`s'. -/
theorem map_longSub_eq_some {a b : BitVec 64} {test : BitVec 64 → Bool} {P : Prop} {r : Bool}
    (htest : ∀ d : BitVec 64, d.toInt = a.toInt - b.toInt → (test d = true ↔ P)) :
    (longSub a b).map test = some r ↔ a.ssubOverflow b = false ∧ (r = true ↔ P) := by
  rw [Option.map_eq_some_iff]
  constructor
  · rintro ⟨d, hd, rfl⟩
    obtain ⟨hfits, -, hint⟩ := toInt_longSub hd
    exact ⟨hfits, htest d hint⟩
  · rintro ⟨hfits, hr⟩
    have hsub : longSub a b = some (a - b) := by rw [longSub, hfits]; rfl
    obtain ⟨-, -, hint⟩ := toInt_longSub hsub
    refine ⟨a - b, hsub, ?_⟩
    rw [Bool.eq_iff_iff, hr]
    exact htest _ hint

/-- Where `time_after_eq` is defined it compares its operands as `long`s. -/
theorem timeAfterEq_eq_some {a b : BitVec 64} {after : Bool} :
    timeAfterEq a b = some after
      ↔ a.ssubOverflow b = false ∧ (after = true ↔ b.toInt ≤ a.toInt) :=
  map_longSub_eq_some fun d hint => by
    rw [decide_eq_true_eq]
    omega

/-- Where `time_before` is defined it compares its operands as `long`s. -/
theorem timeBefore_eq_some {a b : BitVec 64} {before : Bool} :
    timeBefore a b = some before
      ↔ a.ssubOverflow b = false ∧ (before = true ↔ a.toInt < b.toInt) :=
  map_longSub_eq_some fun d hint => by
    rw [decide_eq_true_eq]
    omega

/-- No comparison of a `timers_run` overflows: `jiffies` and the clock are less than `2^63`
ticks apart as `long`s, and `jiffies` is not `LONG_MAX`, so that the tick after it is a
later one. -/
def TicksFit (timerJiffies jiffies : BitVec 64) : Prop :=
  jiffies.ssubOverflow timerJiffies = false ∧ jiffies ≠ BitVec.intMax 64

instance (timerJiffies jiffies : BitVec 64) : Decidable (TicksFit timerJiffies jiffies) :=
  inferInstanceAs (Decidable (_ ∧ _))

theorem toInt_intMax : (BitVec.intMax 64).toInt = 2 ^ 63 - 1 := by decide

theorem TicksFit.lt {timerJiffies jiffies : BitVec 64} (h : TicksFit timerJiffies jiffies) :
    jiffies.toInt < 2 ^ 63 - 1 := by
  have hne : jiffies.toInt ≠ (BitVec.intMax 64).toInt := fun he => h.2 (BitVec.toInt_inj.1 he)
  have hlt := BitVec.toInt_lt (x := jiffies)
  rw [toInt_intMax] at hne
  omega

/-- A tick that is not the last `long` is followed by the next one. -/
theorem toInt_tick {tick : BitVec 64} (h : tick.toInt < 2 ^ 63 - 1) :
    (tick + 1).toInt = tick.toInt + 1 := by
  have hone : (1 : BitVec 64).toInt = 1 := by decide
  have hlow := BitVec.le_toInt tick
  rw [BitVec.toInt_add, hone, Int.bmod_def]
  omega

/-- No `long` is after `LONG_MAX`. -/
theorem timeAfterEq_intMax (tick : BitVec 64) :
    timeAfterEq (BitVec.intMax 64) tick ≠ some false := by
  intro h
  have hnot := (timeAfterEq_eq_some.1 h).2
  have hlt := BitVec.toInt_lt (x := tick)
  rw [toInt_intMax] at hnot
  have hle := hnot.2 (by omega)
  cases hle

section Loops
variable (owner : TimerOwner σ τ) (callback : τ → σ → σ)

/-- `while (!list_empty(&work_list))`, with the timers it calls. -/
inductive WorkRuns : BitVec 32 × σ → List τ → BitVec 32 × σ → Prop
  | done {expired : BitVec 32} {s : σ} (hempty : (owner.tbase s).lists .work = []) :
      WorkRuns (expired, s) [] (expired, s)
  | call {expired : BitVec 32} {s : σ} {timer : τ} {rest called : List τ}
      {st' : BitVec 32 × σ} (hwork : (owner.tbase s).lists .work = timer :: rest)
      (hrest : WorkRuns
        (expired + 1, callback timer (owner.setTbase s (takeTimer (owner.tbase s) timer)))
        called st') :
      WorkRuns (expired, s) (timer :: called) st'

/-- `while (time_after_eq(jiffies, base->timer_jiffies))`, with the timers each round calls. -/
inductive TicksRun (jiffies : BitVec 64) :
    BitVec 32 × σ → List (List τ) → BitVec 32 × σ → Prop
  | done {st : BitVec 32 × σ}
      (hstop : timeAfterEq jiffies (owner.tbase st.2).timerJiffies = some false) :
      TicksRun jiffies st [] st
  | tick {st mid st' : BitVec 32 × σ} {called : List τ} {ticks : List (List τ)}
      (hgo : timeAfterEq jiffies (owner.tbase st.2).timerJiffies = some true)
      (hwork : WorkRuns owner callback
        (st.1, owner.setTbase st.2 (startTick (owner.tbase st.2))) called mid)
      (hrest : TicksRun jiffies mid ticks st') :
      TicksRun jiffies st (called :: ticks) st'

variable {owner callback}

/-- The loops do one thing only. -/
theorem WorkRuns.unique {st st₁ st₂ : BitVec 32 × σ} {called₁ called₂ : List τ}
    (h₁ : WorkRuns owner callback st called₁ st₁) (h₂ : WorkRuns owner callback st called₂ st₂) :
    called₁ = called₂ ∧ st₁ = st₂ := by
  induction h₁ generalizing called₂ with
  | done hempty =>
      cases h₂ with
      | done _ => exact ⟨rfl, rfl⟩
      | call hwork _ => rw [hempty] at hwork; cases hwork
  | call hwork _ ih =>
      cases h₂ with
      | done hempty => rw [hempty] at hwork; cases hwork
      | call hwork' hrest =>
          rw [hwork] at hwork'
          obtain ⟨rfl, rfl⟩ := List.cons.inj hwork'
          obtain ⟨rfl, rfl⟩ := ih hrest
          exact ⟨rfl, rfl⟩

theorem TicksRun.unique {jiffies : BitVec 64} {st st₁ st₂ : BitVec 32 × σ}
    {ticks₁ ticks₂ : List (List τ)} (h₁ : TicksRun owner callback jiffies st ticks₁ st₁)
    (h₂ : TicksRun owner callback jiffies st ticks₂ st₂) : ticks₁ = ticks₂ ∧ st₁ = st₂ := by
  induction h₁ generalizing ticks₂ with
  | done hstop =>
      cases h₂ with
      | done _ => exact ⟨rfl, rfl⟩
      | tick hgo _ _ => rw [hstop] at hgo; cases hgo
  | tick hgo hwork _ ih =>
      cases h₂ with
      | done hstop => rw [hstop] at hgo; cases hgo
      | tick _ hwork' hrest' =>
          obtain ⟨rfl, rfl⟩ := hwork.unique hwork'
          obtain ⟨rfl, rfl⟩ := ih hrest'
          exact ⟨rfl, rfl⟩

/-! ## One tick -/

section Ends
variable
    (hops : ∀ timer s, TimerOps (owner.tbase s) (owner.tbase (callback timer s)))

include hops

/-- The callbacks of a tick come to an end, and they are on timers of the work list, each
of which is called once at most. -/
theorem workRuns_runWork (fuel : Nat) (st : BitVec 32 × σ)
    (hfuel : ((owner.tbase st.2).lists .work).length ≤ fuel)
    (hlinked : (owner.tbase st.2).Linked) :
    ∃ called, WorkRuns owner callback st called (runWork owner callback fuel st) ∧
      List.Sublist called ((owner.tbase st.2).lists .work) := by
  induction fuel generalizing st with
  | zero =>
      have hempty := List.eq_nil_of_length_eq_zero (Nat.le_zero.1 hfuel)
      exact ⟨[], WorkRuns.done hempty, List.nil_sublist _⟩
  | succ fuel ih =>
      obtain ⟨expired, s⟩ := st
      rw [runWork]
      cases hwork : (owner.tbase s).lists .work with
      | nil => exact ⟨[], WorkRuns.done hwork, List.nil_sublist _⟩
      | cons timer rest =>
          -- what the callback leaves on the work list was there before it
          have hcb := hops timer (owner.setTbase s (takeTimer (owner.tbase s) timer))
          rw [owner.tbase_setTbase] at hcb
          have htake : (takeTimer (owner.tbase s) timer).Linked := hlinked.takeTimer timer
          have hleft := hcb.work htake
          rw [takeTimer_work hlinked hwork] at hleft
          have hshort := hleft.length_le
          simp only [hwork, List.length_cons] at hfuel
          obtain ⟨called, hruns, hsub⟩ := ih
            (expired + 1, callback timer (owner.setTbase s (takeTimer (owner.tbase s) timer)))
            (by dsimp only; omega) (hcb.linked htake)
          exact ⟨timer :: called, WorkRuns.call hwork hruns, (hsub.trans hleft).cons_cons timer⟩

/-- A tick calls no timer twice. -/
theorem workRuns_runTick {st : BitVec 32 × σ} (hidle : (owner.tbase st.2).Idle) :
    ∃ called, WorkRuns owner callback
        (st.1, owner.setTbase st.2 (startTick (owner.tbase st.2))) called
        (runTick owner callback st) ∧ called.Nodup := by
  have hbase := owner.tbase_setTbase st.2 (startTick (owner.tbase st.2))
  have hlinked := (tickStarted hidle.1 hidle.2).linked
  obtain ⟨called, hruns, hsub⟩ := workRuns_runWork hops _
    (st.1, owner.setTbase st.2 (startTick (owner.tbase st.2))) le_rfl (by rw [hbase]; exact hlinked)
  refine ⟨called, hruns, hsub.nodup ?_⟩
  rw [hbase]
  exact hlinked.nodup .work

/-! ## All ticks -/

/-- From a tick that is not past, the ticks up to `jiffies` and no more. -/
theorem ticksRun_runTicks {jiffies : BitVec 64} (hlast : jiffies.toInt < 2 ^ 63 - 1) {n : Nat}
    (hn : n ≤ 2 ^ 63) {fuel : Nat} (hfuel : n < fuel) {r : BitVec 32 × σ}
    (hidle : (owner.tbase r.2).Idle)
    (hleft : jiffies.toInt + 1 = (owner.tbase r.2).timerJiffies.toInt + n) :
    ∃ ticks, TicksRun owner callback jiffies r ticks ((runTick owner callback)^[n] r) ∧
      runTicks owner callback jiffies fuel r = some ((runTick owner callback)^[n] r) ∧
      ticks.length = n ∧ ∀ called ∈ ticks, called.Nodup := by
  induction n generalizing fuel r with
  | zero =>
      obtain ⟨fuel, rfl⟩ := Nat.exists_eq_succ_of_ne_zero (Nat.ne_of_gt hfuel)
      have hstop : timeAfterEq jiffies (owner.tbase r.2).timerJiffies = some false := by
        rw [timeAfterEq_eq_some, ssubOverflow_eq_false]
        refine ⟨by omega, iff_of_false Bool.false_ne_true ?_⟩
        omega
      refine ⟨[], TicksRun.done hstop, ?_, rfl, by simp⟩
      rw [runTicks, hstop]
      rfl
  | succ n ih =>
      obtain ⟨fuel, rfl⟩ := Nat.exists_eq_succ_of_ne_zero (show fuel ≠ 0 by omega)
      have hgo : timeAfterEq jiffies (owner.tbase r.2).timerJiffies = some true := by
        push_cast at hleft
        rw [timeAfterEq_eq_some, ssubOverflow_eq_false]
        refine ⟨by omega, iff_of_true rfl ?_⟩
        omega
      obtain ⟨called, hwork, hnodup⟩ := workRuns_runTick hops hidle
      have hclock : (owner.tbase (runTick owner callback r).2).timerJiffies.toInt
          = (owner.tbase r.2).timerJiffies.toInt + 1 := by
        rw [runTick_timerJiffies hops hidle]
        refine toInt_tick ?_
        push_cast at hleft
        omega
      obtain ⟨ticks, hruns, hfuelled, hlen, hall⟩ := ih (by omega) (show n < fuel by omega)
        (idle_runTick hops hidle) (by rw [hclock]; push_cast at hleft ⊢; omega)
      refine ⟨called :: ticks, TicksRun.tick hgo hwork hruns, ?_, by rw [List.length_cons, hlen], ?_⟩
      · rw [runTicks, hgo]
        exact hfuelled
      · intro c hc
        rcases List.mem_cons.1 hc with rfl | hc
        · exact hnodup
        · exact hall c hc

end Ends

/-- To `LONG_MAX` the loop does not come to an end. -/
theorem not_ticksRun_intMax {st st' : BitVec 32 × σ} {ticks : List (List τ)} :
    ¬ TicksRun owner callback (BitVec.intMax 64) st ticks st' := by
  intro h
  induction h with
  | done hstop => exact timeAfterEq_intMax _ hstop
  | tick _ _ _ ih => exact ih

theorem runTicks_intMax (fuel : Nat) (st : BitVec 32 × σ) :
    runTicks owner callback (BitVec.intMax 64) fuel st = none := by
  induction fuel generalizing st with
  | zero => rfl
  | succ fuel ih =>
      rw [runTicks]
      split
      · rfl
      · exact ih _
      · rename_i hstop
        exact absurd hstop (timeAfterEq_intMax _)

/-- The first comparison of the loop is defined. -/
theorem TicksRun.apart {jiffies : BitVec 64} {st st' : BitVec 32 × σ} {ticks : List (List τ)}
    (h : TicksRun owner callback jiffies st ticks st') :
    jiffies.ssubOverflow (owner.tbase st.2).timerJiffies = false := by
  cases h with
  | done hstop => exact (timeAfterEq_eq_some.1 hstop).1
  | tick hgo _ _ => exact (timeAfterEq_eq_some.1 hgo).1

theorem TicksRun.fit {jiffies : BitVec 64} {st st' : BitVec 32 × σ} {ticks : List (List τ)}
    (h : TicksRun owner callback jiffies st ticks st') :
    TicksFit (owner.tbase st.2).timerJiffies jiffies :=
  ⟨h.apart, by rintro rfl; exact not_ticksRun_intMax h⟩

end Loops

/-- A call to a tick that is past does nothing, and any other makes its rounds. -/
theorem timersRun_of_fit {owner : TimerOwner σ τ} {callback : τ → σ → σ}
    (hops : ∀ timer s, TimerOps (owner.tbase s) (owner.tbase (callback timer s))) {s : σ}
    (hidle : (owner.tbase s).Idle) {jiffies : BitVec 64}
    (hfit : TicksFit (owner.tbase s).timerJiffies jiffies) :
    ∃ ticks, TicksRun owner callback jiffies (0, s) ticks
        ((runTick owner callback)^[ticks.length] (0, s)) ∧
      timersRun owner callback s jiffies
        = some ((runTick owner callback)^[ticks.length] (0, s)) ∧
      ticks.length = ((jiffies - (owner.tbase s).timerJiffies).toInt + 1).toNat ∧
      ∀ called ∈ ticks, called.Nodup := by
  have hsub : (jiffies - (owner.tbase s).timerJiffies).toInt
      = jiffies.toInt - (owner.tbase s).timerJiffies.toInt :=
    BitVec.toInt_sub_of_not_ssubOverflow (by simp [hfit.1])
  have hfits := ssubOverflow_eq_false.1 hfit.1
  rw [timersRun]
  rcases Int.lt_or_le jiffies.toInt (owner.tbase s).timerJiffies.toInt with hpast | hupto
  · have hstop : timeAfterEq jiffies (owner.tbase s).timerJiffies = some false :=
      timeAfterEq_eq_some.2 ⟨hfit.1, iff_of_false Bool.false_ne_true (by omega)⟩
    refine ⟨[], TicksRun.done hstop, by rw [hstop]; rfl, ?_, by simp⟩
    rw [List.length_nil]
    omega
  · have hgo : timeAfterEq jiffies (owner.tbase s).timerJiffies = some true :=
      timeAfterEq_eq_some.2 ⟨hfit.1, iff_of_true rfl hupto⟩
    obtain ⟨ticks, hruns, hfuelled, hlen, hall⟩ := ticksRun_runTicks hops hfit.lt
      (n := (jiffies.toInt - (owner.tbase s).timerJiffies.toInt + 1).toNat) (by omega)
      (show _ < (jiffies - (owner.tbase s).timerJiffies).toNat + 2 by
        have hlow := BitVec.toInt_eq_toNat_cond (jiffies - (owner.tbase s).timerJiffies)
        split at hlow <;> omega)
      (r := (0, s)) hidle (by dsimp only; omega)
    rw [← hlen] at hruns hfuelled
    refine ⟨ticks, hruns, by rw [hgo]; exact hfuelled, ?_, hall⟩
    rw [hsub]
    exact hlen

/-- A call that overflows has no result. -/
theorem timersRun_of_not_fit {owner : TimerOwner σ τ} {callback : τ → σ → σ} {s : σ}
    {jiffies : BitVec 64} (h : ¬ TicksFit (owner.tbase s).timerJiffies jiffies) :
    timersRun owner callback s jiffies = none := by
  rw [timersRun]
  split
  · rfl
  · rename_i hstop
    refine absurd ⟨(timeAfterEq_eq_some.1 hstop).1, ?_⟩ h
    rintro rfl
    exact timeAfterEq_intMax _ hstop
  · rename_i hgo
    obtain rfl : jiffies = BitVec.intMax 64 := by
      by_contra hne
      exact h ⟨(timeAfterEq_eq_some.1 hgo).1, hne⟩
    exact runTicks_intMax _ _

/--
**When `timers_run` ends.**

Whatever the callbacks add, modify and delete, the loops of `timers_run` come to an end,
in one way; the outer one makes a round for each tick from `timer_jiffies` to `jiffies`,
none if that is past, and no round calls a timer twice: exactly if no comparison overflows.
-/
theorem timers_run_ends_iff (owner : TimerOwner σ τ) (callback : τ → σ → σ)
    (hops : ∀ timer s, TimerOps (owner.tbase s) (owner.tbase (callback timer s))) (s : σ)
    (hidle : (owner.tbase s).Idle) (jiffies : BitVec 64) :
    (∃ ticks run, TicksRun owner callback jiffies (0, s) ticks run ∧
      timersRun owner callback s jiffies = some run ∧
      (∀ ticks' run', TicksRun owner callback jiffies (0, s) ticks' run' →
        ticks' = ticks ∧ run' = run) ∧
      (0 ≤ (jiffies - (owner.tbase s).timerJiffies).toInt →
        (ticks.length : Int) = (jiffies - (owner.tbase s).timerJiffies).toInt + 1) ∧
      ((jiffies - (owner.tbase s).timerJiffies).toInt < 0 → ticks = []) ∧
      ∀ called ∈ ticks, called.Nodup) ↔
    TicksFit (owner.tbase s).timerJiffies jiffies := by
  constructor
  · rintro ⟨ticks, run, hruns, -⟩
    exact hruns.fit
  · intro hfit
    obtain ⟨ticks, hruns, hrun, hlen, hall⟩ := timersRun_of_fit hops hidle hfit
    refine ⟨ticks, _, hruns, hrun, fun ticks' run' h => h.unique hruns, fun hge => by omega,
      fun hlt => ?_, hall⟩
    exact List.eq_nil_of_length_eq_zero (by omega)

/-- A wheel by itself. -/
def bareWheel (τ : Type u) : TimerOwner (TimerBase τ) τ := ⟨id, fun _ base => base, fun _ _ => rfl⟩

/-- A timer that arms itself in the past again each time it is called. -/
theorem timers_run_ends_rearmed :
    ∃ ticks run, TicksRun (bareWheel Nat) (fun t b => timerMod b t 0) 9
        (0, timerMod (initTimerBase 3) 5 2) ticks run ∧ ticks.length = 7 := by
  obtain ⟨ticks, run, hruns, -, -, hlen, -⟩ := (timers_run_ends_iff (bareWheel Nat)
    (fun t b => timerMod b t 0) (fun t b => TimerOps.mod b t 0)
    (timerMod (initTimerBase 3) 5 2)
    ⟨(linked_init 3).timerMod 5 2, by decide +kernel⟩ 9).2 (by decide +kernel)
  have hdiff : (9 - ((bareWheel Nat).tbase (timerMod (initTimerBase 3) 5 2)).timerJiffies).toInt
      = 6 := by decide +kernel
  rw [hdiff] at hlen
  exact ⟨ticks, run, hruns, by have := hlen (by decide); omega⟩

/-- The last `long` is a tick that the clock does not get past. -/
theorem timers_run_to_long_max_does_not_end :
    ¬ ∃ ticks run, TicksRun (bareWheel Nat) (fun _ base => base) (BitVec.intMax 64)
      (0, initTimerBase 0) ticks run :=
  fun ⟨_, _, h⟩ => not_ticksRun_intMax h

end Msock
