import Msock.Timer.Run

/-!
# The wheel, step by step

`timers_run` once more, one step at a time, with whatever is done to the wheel by
callbacks and callers in between. A call is entered, goes round its loops and is left;
a timer may be armed or disarmed at any moment. What holds in every run of these steps
holds whatever the callbacks are.
-/

namespace Msock

open Lib

universe u v
variable {τ : Type u} {σ : Type v} [DecidableEq τ]

/-- A wheel, and the argument of the call of `timers_run` that is going on. -/
structure Wheel (τ : Type u) where
  base : TimerBase τ
  jiffies : Option (BitVec 64)

/-- A step. -/
inductive WheelMove (τ : Type u)
  /-- `timer_add` or `timer_mod`. -/
  | mod (timer : τ) (expires : BitVec 64)
  | del (timer : τ)
  /-- `timers_run` is called. -/
  | enter (jiffies : BitVec 64)
  /-- The outer loop goes round, up to the callbacks. -/
  | tick
  /-- The inner loop goes round: the first timer of the work list is called. -/
  | call
  /-- `timers_run` returns. -/
  | leave
  deriving DecidableEq

/-- A step out of its turn, or a comparison that overflows. -/
inductive WheelRefusal
  | running
  | notRunning
  | noWork
  | overflow
  deriving DecidableEq

/-- One step. -/
def wheelMove : WheelMove τ → Wheel τ → Except WheelRefusal (Wheel τ)
  | .mod timer expires, w => .ok { w with base := timerMod w.base timer expires }
  | .del timer, w => .ok { w with base := timerDel w.base timer }
  | .enter jiffies, w =>
      match w.jiffies with
      | none => .ok { w with jiffies := some jiffies }
      | some _ => .error .running
  | .tick, w =>
      match w.jiffies, w.base.lists .work with
      | some jiffies, [] =>
          match timeAfterEq jiffies w.base.timerJiffies with
          | none => .error .overflow
          | some true => .ok { w with base := startTick w.base }
          | some false => .error .notRunning
      | none, _ => .error .notRunning
      | _, _ :: _ => .error .running
  | .call, w =>
      match w.base.lists .work with
      | timer :: _ => .ok { w with base := takeTimer w.base timer }
      | [] => .error .noWork
  | .leave, w =>
      match w.jiffies, w.base.lists .work with
      | some jiffies, [] =>
          match timeAfterEq jiffies w.base.timerJiffies with
          | none => .error .overflow
          | some true => .error .running
          | some false => .ok { w with jiffies := none }
      | none, _ => .error .notRunning
      | _, _ :: _ => .error .running

/-- A wheel as `init_timer_base` makes it. -/
def initWheel (jiffies : BitVec 64) : Wheel τ := ⟨initTimerBase jiffies, none⟩

/-! ## What a step does -/

/-- The steps that change the wheel. -/
theorem wheelMove_cases {w w' : Wheel τ} {m : WheelMove τ} (h : wheelMove m w = .ok w') :
    (∃ timer expires, m = .mod timer expires ∧ w'.base = timerMod w.base timer expires) ∨
      (∃ timer, m = .del timer ∧ w'.base = timerDel w.base timer) ∨
      (w.base.lists .work = [] ∧ w'.base = startTick w.base) ∨
      (∃ timer rest, w.base.lists .work = timer :: rest ∧ w'.base = takeTimer w.base timer) ∨
      w'.base = w.base := by
  cases m with
  | mod timer expires => cases h; exact Or.inl ⟨timer, expires, rfl, rfl⟩
  | del timer => cases h; exact Or.inr (Or.inl ⟨timer, rfl, rfl⟩)
  | enter jiffies =>
      simp only [wheelMove] at h
      split at h
      · cases h; exact Or.inr (Or.inr (Or.inr (Or.inr rfl)))
      · cases h
  | tick =>
      simp only [wheelMove] at h
      split at h
      · rename_i hwork
        split at h
        · cases h
        · cases h; exact Or.inr (Or.inr (Or.inl ⟨hwork, rfl⟩))
        · cases h
      · cases h
      · cases h
  | call =>
      simp only [wheelMove] at h
      split at h
      · rename_i timer rest hwork
        cases h
        exact Or.inr (Or.inr (Or.inr (Or.inl ⟨timer, rest, hwork, rfl⟩)))
      · cases h
  | leave =>
      simp only [wheelMove] at h
      split at h
      · split at h
        · cases h
        · cases h
        · cases h; exact Or.inr (Or.inr (Or.inr (Or.inr rfl)))
      · cases h
      · cases h

/-- The wheel is sound at every moment, also between two callbacks. -/
structure Wheel.Sound (w : Wheel τ) : Prop where
  placed : w.base.Placed
  ledger : w.base.Ledger

omit [DecidableEq τ] in
theorem sound_init (jiffies : BitVec 64) : (initWheel (τ := τ) jiffies).Sound :=
  ⟨placed_init jiffies, ledger_init jiffies⟩

omit [DecidableEq τ] in
/-- The head of the work list is pending. -/
theorem TimerBase.Linked.pending_work {base : TimerBase τ} (h : base.Linked) {timer : τ}
    {rest : List τ} (hwork : base.lists .work = timer :: rest) :
    timerPending base timer = true := by
  have hentry : base.entry timer = some .work := by
    rw [← h.mem, hwork]
    exact List.mem_cons_self
  rw [timerPending, hentry]
  rfl

theorem Wheel.Sound.move {w w' : Wheel τ} {m : WheelMove τ} (h : w.Sound)
    (hm : wheelMove m w = .ok w') : w'.Sound := by
  rcases wheelMove_cases hm with ⟨t, e, -, he⟩ | ⟨t, -, he⟩ | ⟨hwork, he⟩ | ⟨t, rest, hwork, he⟩ | he
  · exact ⟨he ▸ h.placed.timerMod t e, he ▸ h.ledger.timerMod t e⟩
  · exact ⟨he ▸ h.placed.timerDel t, he ▸ h.ledger.timerDel t⟩
  · exact ⟨he ▸ (placed_startTick h.placed hwork).1,
      he ▸ (tickStarted h.placed.linked hwork).ledger h.ledger⟩
  · exact ⟨he ▸ h.placed.takeTimer t,
      he ▸ h.ledger.takeTimer (h.placed.linked.pending_work hwork)⟩
  · exact ⟨he ▸ h.placed, he ▸ h.ledger⟩

theorem wheelMove_extends {w w' : Wheel τ} {m : WheelMove τ} (h : w.Sound)
    (hm : wheelMove m w = .ok w') : w.base.Extends w'.base := by
  rcases wheelMove_cases hm with ⟨t, e, -, he⟩ | ⟨t, -, he⟩ | ⟨hwork, he⟩ | ⟨t, rest, hwork, he⟩ | he
  · exact he ▸ (TimerOps.mod w.base t e).history.1
  · exact he ▸ (TimerOps.del w.base t).history.1
  · exact he ▸ (tickStarted h.placed.linked hwork).extends
  · exact he ▸ extends_takeTimer w.base t
  · exact he ▸ TimerBase.Extends.refl w.base

/-! ## A call is a run of steps -/

/-- The operations of a callback are steps. -/
theorem moves_of_ops {base base' : TimerBase τ} (hr : TimerOps base base')
    (jiffies : Option (BitVec 64)) :
    Runs wheelMove anyAct ⟨base, jiffies⟩ (⟨base', jiffies⟩ : Wheel τ) := by
  induction hr with
  | refl => exact Relation.ReflTransGen.refl
  | tail _ hop ih =>
      rcases hop with ⟨t, rfl⟩ | ⟨t, e, rfl⟩
      · exact ih.tail ⟨.del t, trivial, rfl⟩
      · exact ih.tail ⟨.mod t e, trivial, rfl⟩

section Call
variable {owner : TimerOwner σ τ} {callback : τ → σ → σ}
    (hops : ∀ timer s, TimerOps (owner.tbase s) (owner.tbase (callback timer s)))

include hops

/-- **Every call of `timers_run` is a run of steps**, whatever its callbacks do. -/
theorem moves_of_timersRun {s : σ} (hidle : (owner.tbase s).Idle) {jiffies : BitVec 64}
    {run : BitVec 32 × σ} (hcalled : timersRun owner callback s jiffies = some run) :
    Runs wheelMove anyAct ⟨owner.tbase s, none⟩ (⟨owner.tbase run.2, none⟩ : Wheel τ) := by
  obtain ⟨hfit, ⟨-, rfl⟩ | ⟨hgo, -⟩⟩ := timersRun_cases hops hidle hcalled
  · exact Relation.ReflTransGen.refl
  · have henter : Runs wheelMove anyAct (⟨owner.tbase s, none⟩ : Wheel τ)
        ⟨owner.tbase s, some jiffies⟩ := Runs.single (a := .enter jiffies) trivial rfl
    have hrounds : Runs wheelMove anyAct (⟨owner.tbase s, some jiffies⟩ : Wheel τ)
        ⟨owner.tbase run.2, some jiffies⟩ ∧ (owner.tbase run.2).Idle := by
      refine timersRun_invariant
        (I := fun st => Runs wheelMove anyAct (⟨owner.tbase s, some jiffies⟩ : Wheel τ)
          ⟨owner.tbase st.2, some jiffies⟩) hops ?_ ?_ hcalled hidle Relation.ReflTransGen.refl
      · intro n s' hrun hidle' hgo'
        rw [owner.tbase_setTbase]
        refine hrun.tail ⟨.tick, trivial, ?_⟩
        simp only [wheelMove, hidle'.2, hgo']
      · intro n s' timer rest hrun _ hwork
        have hcb := hops timer (owner.setTbase s' (takeTimer (owner.tbase s') timer))
        rw [owner.tbase_setTbase] at hcb
        refine (hrun.tail ⟨.call, trivial, ?_⟩).trans (moves_of_ops hcb (some jiffies))
        simp only [wheelMove, hwork]
    obtain ⟨hrun, hend⟩ := hrounds
    have hpast : timeAfterEq jiffies (owner.tbase run.2).timerJiffies = some false := by
      rw [timersRun_timerJiffies hops hidle hcalled hgo, timeAfterEq_eq_some,
        ssubOverflow_eq_false, toInt_tick hfit.lt]
      exact ⟨by omega, iff_of_false Bool.false_ne_true (by omega)⟩
    refine (henter.trans hrun).tail ⟨.leave, trivial, ?_⟩
    simp only [wheelMove, hend.2, hpast]

/-- The life of a wheel is a run of steps. -/
theorem moves_of_wheelRuns {ok : σ → WheelAct τ → Prop} {s s' : σ}
    (hr : Runs (wheelStep owner callback) ok s s') (h : (owner.tbase s).Ready) :
    Runs wheelMove anyAct ⟨owner.tbase s, none⟩ (⟨owner.tbase s', none⟩ : Wheel τ) := by
  refine (hr.invariant (I := fun t => (owner.tbase t).Ready ∧
    Runs wheelMove anyAct ⟨owner.tbase s, none⟩ (⟨owner.tbase t, none⟩ : Wheel τ)) ?_
    ⟨h, Relation.ReflTransGen.refl⟩).2
  rintro a t t' ⟨ht, hrun⟩ - hact
  refine ⟨(wheelStep_ready hops ht hact).1, ?_⟩
  cases a with
  | mod timer expires =>
      cases hact
      rw [owner.tbase_setTbase]
      exact hrun.tail ⟨.mod timer expires, trivial, rfl⟩
  | del timer =>
      cases hact
      rw [owner.tbase_setTbase]
      exact hrun.tail ⟨.del timer, trivial, rfl⟩
  | run jiffies =>
      obtain ⟨run, hcalled, rfl⟩ := wheelStep_run.1 hact
      exact hrun.trans (moves_of_timersRun hops ht.idle hcalled)

end Call

end Msock
