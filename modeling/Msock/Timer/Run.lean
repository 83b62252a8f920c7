import Msock.Lib.Runs
import Msock.Timer.Ledger
import Msock.Timer.Ticks

/-!
# A call of `timers_run`, and the life of a wheel

A wheel is made by `init_timer_base` and then armed, disarmed and run in any order, while
the callbacks arm and disarm on their own. Between two calls it is always in order, and a
call of `timers_run` does what its ticks ask for and no more.
-/

namespace Msock

open Lib

universe u v
variable {τ : Type u} {σ : Type v} [DecidableEq τ]

/-- A wheel in order, between two calls. -/
structure TimerBase.Ready (base : TimerBase τ) : Prop where
  placed : base.Placed
  ledger : base.Ledger
  work : base.lists .work = []

omit [DecidableEq τ] in
theorem ready_init (jiffies : BitVec 64) : (initTimerBase (τ := τ) jiffies).Ready :=
  ⟨placed_init jiffies, ledger_init jiffies, rfl⟩

omit [DecidableEq τ] in
theorem TimerBase.Ready.idle {base : TimerBase τ} (h : base.Ready) : base.Idle :=
  ⟨h.placed.linked, h.work⟩

/-- Operations from outside a tick keep a wheel in order. -/
theorem TimerOps.ready {base base' : TimerBase τ} (hr : TimerOps base base')
    (h : base.Ready) : base'.Ready :=
  ⟨hr.placed h.placed, hr.ledger h.ledger,
    List.eq_nil_of_sublist_nil (h.work ▸ hr.work h.placed.linked)⟩

omit [DecidableEq τ] in
/-- A pending timer is not overdue between two calls. -/
theorem TimerBase.Ready.wait_lt {base : TimerBase τ} (h : base.Ready) {t : τ}
    (ht : timerPending base t = true) : base.wait t < 2 ^ 63 := by
  obtain ⟨p, hp⟩ := Option.isSome_iff_exists.1 ht
  cases p with
  | work =>
      have hmem := (h.placed.linked.mem t .work).2 hp
      rw [h.work] at hmem
      cases hmem
  | tvec tv i => exact h.placed.soon t tv i hp

/-! ## The clock of a call -/

/-- Where `time_after_eq` is defined it says how far ahead a tick is. -/
theorem ahead_of_timeAfterEq {jiffies timerJiffies : BitVec 64} {after : Bool}
    (h : timeAfterEq jiffies timerJiffies = some after) :
    after = true ↔ ahead timerJiffies jiffies < 2 ^ 63 := by
  obtain ⟨d, hd, rfl⟩ := Option.map_eq_some_iff.1 h
  obtain ⟨-, rfl, -⟩ := toInt_longSub hd
  rw [decide_eq_true_eq, ← not_lt, toInt_neg_iff, not_le]

/-- The tick before is one less far. -/
theorem ahead_pred {start tick : BitVec 64} (h : tick ≠ start) :
    ahead start (tick - 1) = ahead start tick - 1 := by
  have hne : ahead start tick ≠ 0 := fun h0 => h (ahead_eq_zero.1 h0)
  have h1 := start.isLt
  have h2 := tick.isLt
  have hone : (1 : BitVec 64).toNat = 1 := rfl
  unfold ahead at hne ⊢
  rw [BitVec.toNat_sub] at hne ⊢
  rw [BitVec.toNat_sub, BitVec.toNat_sub, hone]
  omega

/-- While the clock is not past the end of the window, the next tick is one further on. -/
theorem ahead_tick {start upto clock : BitVec 64} (hupto : ahead start upto < 2 ^ 63)
    (hclock : ahead start clock ≤ ahead start upto + 1)
    (hgo : timeAfterEq upto clock = some true) :
    ahead start (clock + 1) = ahead start clock + 1 ∧ ahead start clock ≤ ahead start upto := by
  replace hgo := (ahead_of_timeAfterEq hgo).1 rfl
  have hone : (1 : BitVec 64).toNat = 1 := rfl
  have h1 := start.isLt
  have h2 := upto.isLt
  have h3 := clock.isLt
  simp only [ahead, BitVec.toNat_sub, BitVec.toNat_add, hone] at *
  omega

/-! ## One call -/

/-- What a call that is to process the ticks from `base.timerJiffies` to `jiffies` has done
by the time the wheel is at `base'`. -/
structure Progress (base : TimerBase τ) (jiffies : BitVec 64) (expired : BitVec 32)
    (base' : TimerBase τ) (called : List (Firing τ)) : Prop where
  placed : base'.Placed
  ledger : base'.Ledger
  history : base.Extends base'
  clock : ahead base.timerJiffies base'.timerJiffies ≤ ahead base.timerJiffies jiffies + 1
  started : base'.lists .work ≠ [] → base'.timerJiffies ≠ base.timerJiffies
  fired : base'.fired = base.fired ++ called
  expired : expired = BitVec.ofNat 32 called.length
  onTime : ∀ f ∈ called, f.tick = f.due ∧
    ahead base.timerJiffies f.tick < ahead base.timerJiffies base'.timerJiffies
  sorted : called.Pairwise
    (fun f g => ahead base.timerJiffies f.tick ≤ ahead base.timerJiffies g.tick)

omit [DecidableEq τ] in
theorem progress_refl {base : TimerBase τ} (h : base.Ready) (jiffies : BitVec 64) :
    Progress base jiffies 0 base [] where
  placed := h.placed
  ledger := h.ledger
  history := TimerBase.Extends.refl base
  clock := by rw [ahead_self]; exact Nat.zero_le _
  started := fun hwork => absurd h.work hwork
  fired := (List.append_nil _).symm
  expired := rfl
  onTime := fun _ hf => by cases hf
  sorted := List.Pairwise.nil

/-- A further tick. -/
theorem Progress.startTick {base base' : TimerBase τ} {jiffies : BitVec 64}
    {expired : BitVec 32} {called : List (Firing τ)}
    (h : Progress base jiffies expired base' called)
    (hupto : ahead base.timerJiffies jiffies < 2 ^ 63) (hwork : base'.lists .work = [])
    (hgo : timeAfterEq jiffies base'.timerJiffies = some true) :
    Progress base jiffies expired (startTick base') called := by
  have hstart := tickStarted h.placed.linked hwork
  obtain ⟨hnext, hle⟩ := ahead_tick hupto h.clock hgo
  constructor
  case placed => exact (placed_startTick h.placed hwork).1
  case ledger => exact hstart.ledger h.ledger
  case history => exact h.history.trans hstart.extends
  case clock => rw [hstart.timerJiffies, hnext]; omega
  case started =>
      intro _ heq
      rw [hstart.timerJiffies] at heq
      rw [heq, ahead_self] at hnext
      omega
  case fired => rw [hstart.fired]; exact h.fired
  case expired => exact h.expired
  case onTime =>
      intro f hf
      obtain ⟨hdue, hlt⟩ := h.onTime f hf
      exact ⟨hdue, by rw [hstart.timerJiffies, hnext]; omega⟩
  case sorted => exact h.sorted

/-- A further callback: the timer is called at the tick it is due at. -/
theorem Progress.call {base base' base'' : TimerBase τ} {jiffies : BitVec 64}
    {expired : BitVec 32} {called : List (Firing τ)}
    (h : Progress base jiffies expired base' called) {timer : τ} {rest : List τ}
    (hwork : base'.lists .work = timer :: rest)
    (hops : TimerOps (takeTimer base' timer) base'') :
    Progress base jiffies (expired + 1) base''
      (called ++ [⟨timer, base'.timerJiffies - 1, base'.due timer, base'.stamp timer⟩]) := by
  have hentry : base'.entry timer = some .work := by
    rw [← h.placed.linked.mem, hwork]
    exact List.mem_cons_self
  have hpending : timerPending base' timer = true := by rw [timerPending, hentry]; rfl
  have hne : base'.timerJiffies ≠ base.timerJiffies := h.started (by rw [hwork]; simp)
  have hpred := ahead_pred hne
  have hpos : ahead base.timerJiffies base'.timerJiffies ≠ 0 :=
    fun h0 => hne (ahead_eq_zero.1 h0)
  have hclock : base''.timerJiffies = base'.timerJiffies := by
    rw [hops.timerJiffies, takeTimer_timerJiffies]
  obtain ⟨hextends, hfired⟩ := hops.history
  constructor
  case placed => exact hops.placed (h.placed.takeTimer timer)
  case ledger => exact hops.ledger (h.ledger.takeTimer hpending)
  case history => exact (h.history.trans (extends_takeTimer _ _)).trans hextends
  case clock => rw [hclock]; exact h.clock
  case started => rw [hclock]; exact fun _ => hne
  case fired => rw [hfired, takeTimer_fired, h.fired, List.append_assoc]
  case expired =>
      rw [h.expired, List.length_append, List.length_singleton, BitVec.ofNat_add]
      rfl
  case onTime =>
      intro f hf
      rw [hclock]
      rcases List.mem_append.1 hf with hold | hnew
      · exact h.onTime f hold
      · rw [List.mem_singleton] at hnew
        subst hnew
        refine ⟨(h.placed.work timer hentry).symm, ?_⟩
        simp only [hpred]
        omega
  case sorted =>
      rw [List.pairwise_append]
      refine ⟨h.sorted, List.pairwise_singleton _ _, ?_⟩
      intro f hf g hg
      rw [List.mem_singleton] at hg
      subst hg
      have hlt := (h.onTime f hf).2
      simp only [hpred]
      omega

section Call
variable {owner : TimerOwner σ τ} {callback : τ → σ → σ}
    (hops : ∀ timer s, TimerOps (owner.tbase s) (owner.tbase (callback timer s)))

include hops

/-- A call does what its ticks ask for. -/
theorem timersRun_progress {s : σ} (h : (owner.tbase s).Ready) {jiffies : BitVec 64}
    {run : BitVec 32 × σ} (hrun : timersRun owner callback s jiffies = some run)
    (hupto : ahead (owner.tbase s).timerJiffies jiffies < 2 ^ 63) :
    (∃ called, Progress (owner.tbase s) jiffies run.1 (owner.tbase run.2) called) ∧
      (owner.tbase run.2).Idle := by
  refine timersRun_invariant
    (I := fun st => ∃ called, Progress (owner.tbase s) jiffies st.1 (owner.tbase st.2) called)
    hops ?_ ?_ hrun h.idle ⟨[], progress_refl h jiffies⟩
  · rintro n s' ⟨called, hp⟩ hidle hgo
    refine ⟨called, ?_⟩
    rw [owner.tbase_setTbase]
    exact hp.startTick hupto hidle.2 hgo
  · rintro n s' timer rest ⟨called, hp⟩ _ hwork
    have hcb := hops timer (owner.setTbase s' (takeTimer (owner.tbase s') timer))
    rw [owner.tbase_setTbase] at hcb
    exact ⟨_, hp.call hwork hcb⟩

/-- After some rounds the clock is as many ticks further on. -/
theorem iterate_runTick_idle (n : Nat) {st : BitVec 32 × σ} (hidle : (owner.tbase st.2).Idle) :
    (owner.tbase ((runTick owner callback)^[n] st).2).Idle ∧
      (owner.tbase ((runTick owner callback)^[n] st).2).timerJiffies
        = (owner.tbase st.2).timerJiffies + BitVec.ofNat 64 n := by
  induction n with
  | zero => exact ⟨hidle, (BitVec.add_zero _).symm⟩
  | succ n ih =>
      rw [Function.iterate_succ_apply']
      refine ⟨idle_runTick hops ih.1, ?_⟩
      rw [runTick_timerJiffies hops ih.1, ih.2, BitVec.ofNat_add, BitVec.add_assoc]
      rfl

/-- A call that is defined makes a round for each tick up to `jiffies`, or does nothing. -/
theorem timersRun_cases {s : σ} (hidle : (owner.tbase s).Idle) {jiffies : BitVec 64}
    {run : BitVec 32 × σ} (hrun : timersRun owner callback s jiffies = some run) :
    TicksFit (owner.tbase s).timerJiffies jiffies ∧
      ((¬ ahead (owner.tbase s).timerJiffies jiffies < 2 ^ 63 ∧ run = (0, s)) ∨
        ahead (owner.tbase s).timerJiffies jiffies < 2 ^ 63 ∧
          run = (runTick owner callback)^[ahead (owner.tbase s).timerJiffies jiffies + 1]
            (0, s)) := by
  have hfit : TicksFit (owner.tbase s).timerJiffies jiffies := by
    by_contra hnot
    rw [timersRun_of_not_fit hnot] at hrun
    cases hrun
  refine ⟨hfit, ?_⟩
  obtain ⟨ticks, -, hticks, hlen, -⟩ := timersRun_of_fit hops hidle hfit
  rw [hrun] at hticks
  obtain rfl := Option.some.inj hticks
  have hpast := toInt_neg_iff (owner.tbase s).timerJiffies jiffies
  have hint := BitVec.toInt_eq_toNat_cond (jiffies - (owner.tbase s).timerJiffies)
  by_cases hgo : ahead (owner.tbase s).timerJiffies jiffies < 2 ^ 63
  · refine Or.inr ⟨hgo, ?_⟩
    have hcount : ticks.length = ahead (owner.tbase s).timerJiffies jiffies + 1 := by
      unfold ahead at hgo ⊢
      rw [if_pos (by omega)] at hint
      omega
    rw [hcount]
  · refine Or.inl ⟨hgo, ?_⟩
    have hcount : ticks.length = 0 := by omega
    rw [hcount]
    rfl

/-- The ticks end with the one after `jiffies`. -/
theorem timersRun_timerJiffies {s : σ} (hidle : (owner.tbase s).Idle) {jiffies : BitVec 64}
    {run : BitVec 32 × σ} (hrun : timersRun owner callback s jiffies = some run)
    (hupto : ahead (owner.tbase s).timerJiffies jiffies < 2 ^ 63) :
    (owner.tbase run.2).timerJiffies = jiffies + 1 := by
  obtain ⟨-, ⟨hpast, -⟩ | ⟨-, rfl⟩⟩ := timersRun_cases hops hidle hrun
  · exact absurd hupto hpast
  · rw [(iterate_runTick_idle hops _ hidle).2, BitVec.ofNat_add, ahead, BitVec.ofNat_toNat,
      BitVec.setWidth_eq, ← BitVec.add_assoc, add_sub_cancel]
    rfl

end Call

/-! ## One round -/

/-- One round of the outer loop calls the timers that were pending for its tick when it
began, less those that its own callbacks unlinked first. -/
structure Round (base base' : TimerBase τ) (called : List (Firing τ)) : Prop where
  fired : base'.fired = base.fired ++ called
  due : ∀ f ∈ called, timerPending base f.timer = true ∧
    base.due f.timer = base.timerJiffies ∧ base.stamp f.timer = f.stamp
  all : ∀ t, timerPending base t = true → base.due t = base.timerJiffies →
    base.stamp t ∈ called.map Firing.stamp ∨ base.stamp t ∈ base'.cancelled

/-- The work list holds timers of the tick that have been left alone since it began. -/
def TimerBase.Awaits (base base' : TimerBase τ) : Prop :=
  ∀ t, base'.entry t = some .work → timerPending base t = true ∧
    base.due t = base.timerJiffies ∧ base'.stamp t = base.stamp t

theorem TimerOps.awaits {base b b' : TimerBase τ} (hr : TimerOps b b') (h : base.Awaits b) :
    base.Awaits b' := by
  refine hr.invariant (P := base.Awaits) ?_ ?_ h
  · intro b t hb t' he
    rw [timerDel_entry] at he
    rw [timerDel_stamp]
    exact hb t' (entry_of_update_none he)
  · intro b t e hb t' he
    rw [timerMod_entry] at he
    by_cases ht : t' = t
    · subst ht
      rw [Function.update_self] at he
      exact absurd (Option.some.inj he) (internalVec_ne_work _ _)
    · rw [Function.update_of_ne ht] at he
      rw [timerMod_stamp, Function.update_of_ne ht]
      exact hb t' he

section Call
variable {owner : TimerOwner σ τ} {callback : τ → σ → σ}
    (hops : ∀ timer s, TimerOps (owner.tbase s) (owner.tbase (callback timer s)))

include hops

/-- What the callbacks of a round have done so far. -/
theorem runTick_ready {st : BitVec 32 × σ} (h : (owner.tbase st.2).Ready) :
    (owner.tbase (runTick owner callback st).2).Ready ∧
      (owner.tbase st.2).Extends (owner.tbase (runTick owner callback st).2) ∧
      ∃ called, (owner.tbase (runTick owner callback st).2).fired
          = (owner.tbase st.2).fired ++ called ∧
        ∀ f ∈ called, timerPending (owner.tbase st.2) f.timer = true ∧
          (owner.tbase st.2).due f.timer = (owner.tbase st.2).timerJiffies ∧
          (owner.tbase st.2).stamp f.timer = f.stamp := by
  set base := owner.tbase st.2 with hbase
  have hstart := tickStarted h.placed.linked h.work
  obtain ⟨hplaced, hlist⟩ := placed_startTick h.placed h.work
  have hset := owner.tbase_setTbase st.2 (startTick base)
  have hrun := runWork_invariant
    (I := fun st' => ((owner.tbase st'.2).Placed ∧ (owner.tbase st'.2).Ledger ∧
      base.Extends (owner.tbase st'.2) ∧ base.Awaits (owner.tbase st'.2)) ∧
      ∃ called, (owner.tbase st'.2).fired = base.fired ++ called ∧
        ∀ f ∈ called, timerPending base f.timer = true ∧
          base.due f.timer = base.timerJiffies ∧ base.stamp f.timer = f.stamp)
    hops ?_ _ (st.1, owner.setTbase st.2 (startTick base)) le_rfl
    (by rw [hset]; exact hstart.linked) ?_
  · obtain ⟨⟨⟨hp, hl, he, -⟩, hcalled⟩, hidle⟩ := hrun
    exact ⟨⟨hp, hl, hidle.2⟩, he, hcalled⟩
  · -- a callback
    rintro n s timer rest ⟨⟨hp, hl, he, hawait⟩, called, hfired, hcalled⟩ _ hwork
    have hcb := hops timer (owner.setTbase s (takeTimer (owner.tbase s) timer))
    rw [owner.tbase_setTbase] at hcb
    have hentry : (owner.tbase s).entry timer = some .work := by
      rw [← hp.linked.mem, hwork]
      exact List.mem_cons_self
    have hpending : timerPending (owner.tbase s) timer = true := by
      rw [timerPending, hentry]; rfl
    obtain ⟨hextends, hsame⟩ := hcb.history
    obtain ⟨hp0, hd0, hs0⟩ := hawait timer hentry
    refine ⟨⟨hcb.placed (hp.takeTimer timer), hcb.ledger (hl.takeTimer hpending),
      (he.trans (extends_takeTimer _ _)).trans hextends, hcb.awaits ?_⟩,
      called ++ [_], by rw [hsame, takeTimer_fired, hfired, List.append_assoc], ?_⟩
    · intro t ht
      rw [takeTimer_entry] at ht
      rw [takeTimer_stamp]
      exact hawait t (entry_of_update_none ht)
    · intro f hf
      rcases List.mem_append.1 hf with hold | hnew
      · exact hcalled f hold
      · rw [List.mem_singleton] at hnew
        subst hnew
        exact ⟨hp0, hd0, hs0.symm⟩
  · -- the start of the round
    rw [hset]
    refine ⟨⟨hplaced, hstart.ledger h.ledger, hstart.extends, ?_⟩, [], ?_, by simp⟩
    · intro t ht
      obtain ⟨hp0, hd0⟩ := (hlist t).1 ((hplaced.linked.mem t .work).2 ht)
      exact ⟨hp0, hd0, by rw [hstart.stamp]⟩
    · rw [hstart.fired, List.append_nil]

/-- A round is exact. -/
theorem runTick_round {st : BitVec 32 × σ} (h : (owner.tbase st.2).Ready) :
    ∃ called, Round (owner.tbase st.2) (owner.tbase (runTick owner callback st).2) called := by
  obtain ⟨hready, hextends, called, hfired, hcalled⟩ := runTick_ready hops h
  refine ⟨called, hfired, hcalled, ?_⟩
  intro t ht hdue
  have hold := h.ledger.live t ht
  have hnew := hextends.arming hold
  rcases hready.ledger.total _ (List.getElem?_eq_some_iff.1 hnew).1 with hend | ⟨t', ht', hs⟩
  · rcases List.mem_append.1 hend with hcan | hfir
    · exact Or.inr hcan
    · rw [hfired, List.map_append, List.mem_append] at hfir
      rcases hfir with hbefore | hin
      · exact absurd (List.mem_append_right _ hbefore) (h.ledger.going t ht)
      · exact Or.inl hin
  · -- it would be overdue by a tick
    have harm := hready.ledger.live t' ht'
    rw [hs, hnew] at harm
    have hdue' := (Arming.mk.inj (Option.some.inj harm)).2
    have hwait := hready.wait_lt ht'
    rw [TimerBase.wait, ← hdue', hdue, runTick_timerJiffies hops h.idle] at hwait
    have hone : (1 : BitVec 64).toNat = 1 := rfl
    have hlt := (owner.tbase st.2).timerJiffies.isLt
    simp only [ahead, BitVec.toNat_sub, BitVec.toNat_add, hone] at hwait
    omega

end Call

/-! ## The life of a wheel -/

/-- What is done with a wheel from outside; `timer_add` is `timer_mod`. -/
inductive WheelAct (τ : Type u)
  | mod (timer : τ) (expires : BitVec 64)
  | del (timer : τ)
  | run (jiffies : BitVec 64)

/-- Where an act has no meaning. -/
inductive WheelFault
  | overflow
  deriving DecidableEq

/-- One act on the wheel that `owner` holds. -/
def wheelStep (owner : TimerOwner σ τ) (callback : τ → σ → σ) :
    WheelAct τ → σ → Except WheelFault σ
  | .mod timer expires, s => .ok (owner.setTbase s (timerMod (owner.tbase s) timer expires))
  | .del timer, s => .ok (owner.setTbase s (timerDel (owner.tbase s) timer))
  | .run jiffies, s =>
      match timersRun owner callback s jiffies with
      | none => .error .overflow
      | some run => .ok run.2

section Life
variable {owner : TimerOwner σ τ} {callback : τ → σ → σ}
    (hops : ∀ timer s, TimerOps (owner.tbase s) (owner.tbase (callback timer s)))

theorem wheelStep_run {s s' : σ} {jiffies : BitVec 64} :
    wheelStep owner callback (.run jiffies) s = .ok s'
      ↔ ∃ run, timersRun owner callback s jiffies = some run ∧ run.2 = s' := by
  rw [wheelStep]
  split <;> simp_all

include hops

theorem timersRun_ready {s : σ} (h : (owner.tbase s).Ready) {jiffies : BitVec 64}
    {run : BitVec 32 × σ} (hrun : timersRun owner callback s jiffies = some run) :
    (owner.tbase run.2).Ready ∧ (owner.tbase s).Extends (owner.tbase run.2) := by
  obtain ⟨-, ⟨-, rfl⟩ | ⟨hgo, -⟩⟩ := timersRun_cases hops h.idle hrun
  · exact ⟨h, TimerBase.Extends.refl _⟩
  · obtain ⟨⟨called, hp⟩, hidle⟩ := timersRun_progress hops h hrun hgo
    exact ⟨⟨hp.placed, hp.ledger, hidle.2⟩, hp.history⟩

/-- An act keeps a wheel in order. -/
theorem wheelStep_ready {a : WheelAct τ} {s s' : σ} (h : (owner.tbase s).Ready)
    (hstep : wheelStep owner callback a s = .ok s') :
    (owner.tbase s').Ready ∧ (owner.tbase s).Extends (owner.tbase s') := by
  cases a with
  | mod timer expires =>
      cases hstep
      rw [owner.tbase_setTbase]
      have hop := TimerOps.mod (owner.tbase s) timer expires
      exact ⟨hop.ready h, hop.history.1⟩
  | del timer =>
      cases hstep
      rw [owner.tbase_setTbase]
      have hop := TimerOps.del (owner.tbase s) timer
      exact ⟨hop.ready h, hop.history.1⟩
  | run jiffies =>
      obtain ⟨run, hrun, rfl⟩ := wheelStep_run.1 hstep
      exact timersRun_ready hops h hrun

/-- A wheel is in order throughout its life. -/
theorem wheelRuns_ready {ok : σ → WheelAct τ → Prop} {s s' : σ}
    (hr : Runs (wheelStep owner callback) ok s s') (h : (owner.tbase s).Ready) :
    (owner.tbase s').Ready :=
  hr.invariant (fun _ _ _ ht _ hact => (wheelStep_ready hops ht hact).1) h

/-! ## What a call does -/

/-- After some rounds the wheel is in order. -/
theorem iterate_runTick_ready (n : Nat) {r : BitVec 32 × σ} (h : (owner.tbase r.2).Ready) :
    (owner.tbase ((runTick owner callback)^[n] r).2).Ready := by
  induction n with
  | zero => exact h
  | succ n ih =>
      rw [Function.iterate_succ_apply']
      exact (runTick_ready hops ih).1

/-- The ticks a call with `jiffies` is to process. -/
def InWindow (timerJiffies jiffies tick : BitVec 64) : Prop :=
  ahead timerJiffies tick ≤ ahead timerJiffies jiffies

omit [DecidableEq τ] hops in
/-- A call of `timers_run`, from `base` to `base'`, that has made the callbacks `called`. -/
structure RunExact (base : TimerBase τ) (jiffies : BitVec 64) (expired : BitVec 32)
    (base' : TimerBase τ) (called : List (Firing τ)) : Prop where
  fired : base'.fired = base.fired ++ called
  /-- The number of callbacks, as an `int`. -/
  expired : expired = BitVec.ofNat 32 called.length
  /-- Each is made at the due tick of its timer, a tick of the window. -/
  onTime : ∀ f ∈ called, f.tick = f.due ∧ InWindow base.timerJiffies jiffies f.tick
  /-- Each is for an arming that was pending before or is made in the call. -/
  arming : ∀ f ∈ called,
    base'.armed[f.stamp]? = some ⟨f.timer, f.due⟩ ∧ f.stamp ∉ base.ended
  /-- No arming is called back twice, or called back and cancelled. -/
  once : base'.ended.Nodup
  sorted : called.Pairwise
    (fun f g => ahead base.timerJiffies f.tick ≤ ahead base.timerJiffies g.tick)
  /-- An arming due in the window is called back unless it is cancelled. -/
  all : ∀ k a, base'.armed[k]? = some a → k ∉ base.ended →
    InWindow base.timerJiffies jiffies a.due →
    k ∈ called.map Firing.stamp ∨ k ∈ base'.cancelled
  /-- Every other arming is pending, due as before. -/
  kept : ∀ k a, base'.armed[k]? = some a → k ∉ base.ended →
    k ∉ called.map Firing.stamp → k ∉ base'.cancelled →
    timerPending base' a.timer = true ∧ base'.stamp a.timer = k ∧ base'.due a.timer = a.due
  timerJiffies : base'.timerJiffies = jiffies + 1

omit [DecidableEq τ] hops in
/-- A tick of the window is past once the clock has left it. -/
theorem ahead_of_inWindow {start upto tick : BitVec 64} (hupto : ahead start upto < 2 ^ 63)
    (h : InWindow start upto tick) : 2 ^ 63 ≤ ahead (upto + 1) tick := by
  have hone : (1 : BitVec 64).toNat = 1 := rfl
  have h1 := start.isLt
  have h2 := upto.isLt
  have h3 := tick.isLt
  simp only [InWindow, ahead, BitVec.toNat_sub, BitVec.toNat_add, hone] at *
  omega

theorem timersRun_exact {s : σ} (h : (owner.tbase s).Ready) {jiffies : BitVec 64}
    {run : BitVec 32 × σ} (hrun : timersRun owner callback s jiffies = some run)
    (hupto : ahead (owner.tbase s).timerJiffies jiffies < 2 ^ 63) :
    ∃ called, RunExact (owner.tbase s) jiffies run.1 (owner.tbase run.2) called := by
  obtain ⟨⟨called, hp⟩, hidle⟩ := timersRun_progress hops h hrun hupto
  have hclock := timersRun_timerJiffies hops h.idle hrun hupto
  have hready := (timersRun_ready hops h hrun).1
  set base := owner.tbase s
  set base' := owner.tbase run.2
  have hended : base'.ended.Nodup := hp.ledger.once
  -- an arming that has not ended is pending
  have hkept : ∀ k a, base'.armed[k]? = some a → k ∉ base.ended →
      k ∉ called.map Firing.stamp → k ∉ base'.cancelled →
      timerPending base' a.timer = true ∧ base'.stamp a.timer = k ∧
        base'.due a.timer = a.due := by
    intro k a ha hold hnot hcan
    rcases hp.ledger.total k (List.getElem?_eq_some_iff.1 ha).1 with hend | ⟨t, ht, hs⟩
    · rcases List.mem_append.1 hend with hc | hf
      · exact absurd hc hcan
      · rw [hp.fired, List.map_append, List.mem_append] at hf
        rcases hf with hbefore | hin
        · exact absurd (List.mem_append_right _ hbefore) hold
        · exact absurd hin hnot
    · have harm := hp.ledger.live t ht
      rw [hs, ha] at harm
      obtain rfl := Option.some.inj harm
      exact ⟨ht, hs, rfl⟩
  refine ⟨called, hp.fired, hp.expired, ?_, ?_, hended, hp.sorted, ?_, hkept, hclock⟩
  · intro f hf
    obtain ⟨hdue, hlt⟩ := hp.onTime f hf
    have hle := hp.clock
    exact ⟨hdue, by rw [InWindow]; omega⟩
  · intro f hf
    have hmem : f ∈ base'.fired := by rw [hp.fired]; exact List.mem_append_right _ hf
    refine ⟨hp.ledger.fired f hmem, ?_⟩
    -- it would have ended twice
    intro hold
    have hperm : base'.ended.Perm (base'.cancelled ++ base.fired.map Firing.stamp
        ++ called.map Firing.stamp) := by
      rw [TimerBase.ended, hp.fired, List.map_append, List.append_assoc]
    rw [hperm.nodup_iff, List.nodup_append] at hended
    refine hended.2.2 f.stamp ?_ f.stamp (List.mem_map_of_mem hf) rfl
    rcases List.mem_append.1 hold with hc | hf'
    · exact List.mem_append_left _ (hp.history.cancelled.subset hc)
    · exact List.mem_append_right _ hf'
  · intro k a ha hold hin
    by_contra hnot
    rw [not_or] at hnot
    obtain ⟨hpending, -, hdue⟩ := hkept k a ha hold hnot.1 hnot.2
    have hwait := hready.wait_lt hpending
    rw [TimerBase.wait, hdue, hclock] at hwait
    have hpast := ahead_of_inWindow hupto hin
    omega

end Life

/-- The callbacks of a call can be counted in an `int`. -/
def CallsFit (owner : TimerOwner σ τ) (callback : τ → σ → σ) (s : σ) (jiffies : BitVec 64) :
    Prop :=
  0 ≤ (jiffies - (owner.tbase s).timerJiffies).toInt →
    (owner.tbase ((runTick owner callback)^[ahead (owner.tbase s).timerJiffies jiffies + 1]
      (0, s)).2).fired.length < (owner.tbase s).fired.length + 2 ^ 31

theorem toInt_ofNat_eq_iff (n : Nat) : (BitVec.ofNat 32 n).toInt = n ↔ n < 2 ^ 31 := by
  rw [BitVec.toInt_ofNat', Int.bmod_def]
  constructor
  · intro h
    split at h <;> omega
  · intro h
    rw [if_pos (by omega)]
    omega

/--
**When `timers_run` is exact.**

For every wheel made by `init_timer_base` and used in any way, with callbacks that arm
and disarm timers: a call with a past `jiffies` does nothing, and any other makes one
round for each tick up to `jiffies`, calls in each round the timers pending for that
tick, and so calls every arming that is due in the window once, in order of the due
ticks, unless it is cancelled first. It returns the number of callbacks, leaves the other
timers pending as they were, and the clock one past `jiffies`. This is so exactly if no
comparison of the call overflows and the callbacks can be counted.
-/
theorem timers_run_exact_iff (owner : TimerOwner σ τ) (callback : τ → σ → σ)
    (hops : ∀ timer s, TimerOps (owner.tbase s) (owner.tbase (callback timer s)))
    {start : BitVec 64} {s₀ s : σ} (hinit : owner.tbase s₀ = initTimerBase start)
    (hr : Runs (wheelStep owner callback) anyAct s₀ s) (jiffies : BitVec 64) :
    let base := owner.tbase s
    let round := fun n => (runTick owner callback)^[n] (0, s)
    (∃ run, timersRun owner callback s jiffies = some run ∧
      ((jiffies - base.timerJiffies).toInt < 0 → run = (0, s)) ∧
      (0 ≤ (jiffies - base.timerJiffies).toInt →
        run = round (ahead base.timerJiffies jiffies + 1) ∧
        (∀ n, (owner.tbase (round n).2).timerJiffies
            = base.timerJiffies + BitVec.ofNat 64 n ∧
          ∃ called, Round (owner.tbase (round n).2) (owner.tbase (round (n + 1)).2) called) ∧
        ∃ called, RunExact base jiffies run.1 (owner.tbase run.2) called ∧
          run.1.toInt = called.length)) ↔
    TicksFit base.timerJiffies jiffies ∧ CallsFit owner callback s jiffies := by
  dsimp only
  have hready : (owner.tbase s).Ready := wheelRuns_ready hops hr (hinit ▸ ready_init start)
  have hneg := toInt_neg_iff (owner.tbase s).timerJiffies jiffies
  constructor
  · rintro ⟨run, hrun, -, hexact⟩
    refine ⟨(timersRun_cases hops hready.idle hrun).1, fun hge => ?_⟩
    obtain ⟨rfl, -, called, hexact, hcount⟩ := hexact hge
    rw [hexact.expired, toInt_ofNat_eq_iff] at hcount
    rw [hexact.fired, List.length_append]
    omega
  · rintro ⟨hfit, hcalls⟩
    obtain ⟨ticks, -, hrun, -⟩ := timersRun_of_fit hops hready.idle hfit
    refine ⟨_, hrun, ?_⟩
    generalize (runTick owner callback)^[ticks.length] (0, s) = run at hrun ⊢
    obtain ⟨-, ⟨hpast, rfl⟩ | ⟨hupto, hrounds⟩⟩ := timersRun_cases hops hready.idle hrun
    · exact ⟨fun _ => rfl, fun hge => by omega⟩
    · refine ⟨fun hlt => by omega, fun hge => ⟨hrounds, fun n => ⟨?_, ?_⟩, ?_⟩⟩
      · exact (iterate_runTick_idle hops n hready.idle).2
      · rw [Function.iterate_succ_apply']
        exact runTick_round hops (iterate_runTick_ready hops n (r := (0, s)) hready)
      · obtain ⟨called, hexact⟩ := timersRun_exact hops hready hrun hupto
        refine ⟨called, hexact, ?_⟩
        rw [hexact.expired, toInt_ofNat_eq_iff]
        have hlt := hcalls hge
        rw [← hrounds, hexact.fired, List.length_append] at hlt
        omega

/-- A timer armed in the past, which arms itself there again each time it is called. -/
theorem timers_run_exact_rearmed :
    let rearm := fun t b => timerMod b t 0
    let base : TimerBase Nat := timerMod (initTimerBase 3) 5 2
    ∃ run called, timersRun (bareWheel Nat) rearm base 9 = some run ∧
      RunExact base 9 run.1 run.2 called ∧ run.1.toInt = called.length := by
  dsimp only
  obtain ⟨run, hrun, -, hexact⟩ := (timers_run_exact_iff (bareWheel Nat)
    (fun t b => timerMod b t 0) (fun t b => TimerOps.mod b t 0)
    (show (bareWheel Nat).tbase (initTimerBase 3) = initTimerBase 3 from rfl)
    (Runs.single (a := WheelAct.mod 5 2) trivial rfl) 9).2
    ⟨by decide +kernel, fun _ => by decide +kernel⟩
  obtain ⟨-, -, called, hcalled, hcount⟩ := hexact (by decide +kernel)
  exact ⟨run, called, hrun, hcalled, hcount⟩

/-- A timer that is due before `jiffies`, on the other side of the last `long`: the clock is
before both, but the difference overflows. -/
theorem timers_run_overflows :
    let base : TimerBase Nat := timerMod (initTimerBase 0x7ffffffffffffffe) 1 0x8000000000000001
    timerPending base 1 = true ∧
      InWindow base.timerJiffies 0x8000000000000003 (base.due 1) ∧
      0 ≤ (0x8000000000000003 - base.timerJiffies).toInt ∧
      timersRun (bareWheel Nat) (fun _ b => b) base 0x8000000000000003 = none := by
  refine ⟨by decide +kernel, ?_, by decide +kernel, by decide +kernel⟩
  rw [InWindow]
  decide +kernel

/-! ## Counting in an `int` -/

/-- A callback that arms its timer in the past, for the next tick. -/
def rearm (timer : Unit) (base : TimerBase Unit) : TimerBase Unit := timerMod base timer 0

/-- A wheel whose one timer is due at each tick, after `n` ticks. -/
structure Beats (n : Nat) (st : BitVec 32 × TimerBase Unit) : Prop where
  ready : st.2.Ready
  pending : timerPending st.2 () = true
  due : st.2.due () = st.2.timerJiffies
  clock : st.2.timerJiffies = BitVec.ofNat 64 n
  fired : st.2.fired.length = n
  expired : st.1 = BitVec.ofNat 32 n

/-- The one timer is called once a tick. -/
theorem Beats.runTick {n : Nat} {st : BitVec 32 × TimerBase Unit} (h : Beats n st)
    (hn : n < 2 ^ 63) : Beats (n + 1) (runTick (bareWheel Unit) rearm st) := by
  have hops : ∀ t b, TimerOps ((bareWheel Unit).tbase b) ((bareWheel Unit).tbase (rearm t b)) :=
    fun t b => TimerOps.mod b t 0
  have hstart := tickStarted h.ready.placed.linked h.ready.work
  have hwork : (startTick st.2).lists .work = [()] := by
    have hmem := (placed_startTick h.ready.placed h.ready.work).2 ()
    rw [eq_true h.pending, eq_true h.due] at hmem
    have hnodup := hstart.linked.nodup .work
    generalize (startTick st.2).lists .work = work at hmem hnodup
    match work, hmem, hnodup with
    | [], hmem, _ => exact absurd (hmem.2 ⟨trivial, trivial⟩) (List.not_mem_nil)
    | [()], _, _ => rfl
    | () :: () :: _, _, hnodup => simp at hnodup
  have hrun : Msock.runTick (bareWheel Unit) rearm st
      = (st.1 + 1, timerMod (takeTimer (startTick st.2) ()) () 0) := by
    simp only [Msock.runTick, bareWheel, id]
    rw [hwork]
    simp only [List.length_singleton, runWork, hwork, rearm, id]
  have hready : ((bareWheel Unit).tbase (Msock.runTick (bareWheel Unit) rearm st).2).Ready :=
    (runTick_ready hops h.ready).1
  have hclock : (startTick st.2).timerJiffies = BitVec.ofNat 64 (n + 1) := by
    rw [hstart.timerJiffies, h.clock, BitVec.ofNat_add]
    rfl
  have hdue : dueTick (BitVec.ofNat 64 (n + 1)) 0 = BitVec.ofNat 64 (n + 1) := by
    rw [dueTick, if_pos]
    have hzero : (0 : BitVec 64).toNat = 0 := rfl
    rw [toInt_neg_iff, ahead, BitVec.toNat_sub, BitVec.toNat_ofNat, hzero]
    omega
  rw [hrun] at hready ⊢
  constructor
  case ready => exact hready
  case pending => simp [timerPending]
  case due =>
      rw [timerMod_due, Function.update_self, timerMod_timerJiffies, takeTimer_timerJiffies,
        hclock, hdue]
  case clock => rw [timerMod_timerJiffies, takeTimer_timerJiffies, hclock]
  case fired =>
      rw [timerMod_fired, takeTimer_fired, List.length_append, hstart.fired, h.fired]
      rfl
  case expired =>
      rw [h.expired, BitVec.ofNat_add]
      rfl

/-- A call that makes `2^31` callbacks answers that it made `-2^31`. -/
theorem timers_run_count_wraps :
    let s := timerMod (initTimerBase 0) () 0
    ∃ run, timersRun (bareWheel Unit) rearm s 0x7fffffff = some run ∧
      (run.2.fired.length : Int) - s.fired.length = 2 ^ 31 ∧ run.1.toInt = -2 ^ 31 := by
  dsimp only
  set s : TimerBase Unit := timerMod (initTimerBase 0) () 0 with hs
  have hops : ∀ t b, TimerOps ((bareWheel Unit).tbase b) ((bareWheel Unit).tbase (rearm t b)) :=
    fun t b => TimerOps.mod b t 0
  have hready : s.Ready := (TimerOps.mod _ _ _).ready (ready_init 0)
  have hclock : s.timerJiffies = 0 := timerMod_timerJiffies _ _ _
  have h0 : Beats 0 (0, s) := by
    refine ⟨hready, ?_, ?_, hclock, rfl, rfl⟩
    · simp [hs, timerPending]
    · rw [hs, timerMod_due, timerMod_timerJiffies, Function.update_self]
      decide
  have hbeats : ∀ n ≤ 2 ^ 31, Beats n ((runTick (bareWheel Unit) rearm)^[n] (0, s)) := by
    intro n
    induction n with
    | zero => exact fun _ => h0
    | succ n ih =>
        intro hn
        rw [Function.iterate_succ_apply']
        exact (ih (by omega)).runTick (by omega)
  obtain ⟨ticks, -, hrun, hlen, -⟩ := timersRun_of_fit (s := s) hops hready.idle
    (show TicksFit s.timerJiffies 0x7fffffff by rw [hclock]; decide)
  have hrounds : ticks.length = 2 ^ 31 := by
    rw [hlen]
    show ((0x7fffffff - s.timerJiffies).toInt + 1).toNat = _
    rw [hclock]
    decide
  rw [hrounds] at hrun
  have hend := hbeats (2 ^ 31) le_rfl
  refine ⟨_, hrun, ?_, ?_⟩
  · rw [hend.fired, hs, timerMod_fired]
    rfl
  · rw [hend.expired]
    decide

end Msock
