import Mathlib

/-!
# timer.c: the timer wheel

`tv1` has a slot for each of the next 256 ticks; the slots of `tv2` to `tv5` cover
256, 2^14, 2^20 and 2^26 ticks each. A timer is put on the coarsest level that still
resolves it, and `timers_run` cascades a slot to the finer levels when the clock
reaches it. `unsigned long` is `BitVec 64`. `time_after` and its kin subtract two `long`s,
which is undefined where the difference is no `long`: what comes of such a call is `none`.

A `struct list_head` inside a timer is linked into one list or into none. `entry`
says which, and `lists` holds the members of each list head in order. The work list
of `timers_run` is a list head like the others: a callback may unlink a timer from it.
-/

namespace Msock

universe u v
variable {τ : Type u} {σ : Type v}

/-- `TVN_BITS`. -/
def tvnBits : Nat := 6

/-- `TVR_BITS`. -/
def tvrBits : Nat := 8

/-- `TVN_SIZE`. -/
def tvnSize : Nat := 1 <<< tvnBits

/-- `TVR_SIZE`. -/
def tvrSize : Nat := 1 <<< tvrBits

/-- `TVN_MASK`. -/
def tvnMask : Nat := tvnSize - 1

/-- `TVR_MASK`. -/
def tvrMask : Nat := tvrSize - 1

/-- `NEXT_TIMER_MAX_DELTA`. -/
def nextTimerMaxDelta : BitVec 64 := (1 <<< 30) - 1

/-- `(long)(a) - (long)(b)`, undefined on overflow. -/
def longSub (a b : BitVec 64) : Option (BitVec 64) :=
  if a.ssubOverflow b then none else some (a - b)

/-- `time_after(a, b)`. -/
def timeAfter (a b : BitVec 64) : Option Bool := (longSub b a).map fun d => decide (d.toInt < 0)

/-- `time_before(a, b)`. -/
def timeBefore (a b : BitVec 64) : Option Bool := timeAfter b a

/-- `time_after_eq(a, b)`. -/
def timeAfterEq (a b : BitVec 64) : Option Bool :=
  (longSub a b).map fun d => decide (0 ≤ d.toInt)

/-- The levels of a wheel. -/
inductive Tvec
  | tv1
  | tv2
  | tv3
  | tv4
  | tv5
  deriving DecidableEq

/-- The list heads a timer can be linked to: a slot, or the work list of `timers_run`. -/
inductive Place
  | tvec (tv : Tvec) (i : Nat)
  | work
  deriving DecidableEq

/-- One arming of a timer. -/
structure Arming (τ : Type u) where
  timer : τ
  due : BitVec 64

/-- One call of a timer's callback. -/
structure Firing (τ : Type u) where
  timer : τ
  /-- The tick that was being processed. -/
  tick : BitVec 64
  /-- The due tick of the arming that it ends. -/
  due : BitVec 64
  /-- The number of that arming. -/
  stamp : Nat

/--
`struct timer_base`, with the `entry` and `expires` of every `struct timer_head` that
is used with it. The last five fields are history.
-/
structure TimerBase (τ : Type u) where
  timerJiffies : BitVec 64
  lists : Place → List τ
  entry : τ → Option Place
  expires : τ → BitVec 64
  /-- The tick a timer was due at when it was last armed. -/
  due : τ → BitVec 64
  /-- The armings of all timers, in order. -/
  armed : List (Arming τ)
  /-- The number of the timer's last arming. -/
  stamp : τ → Nat
  /-- The armings that ended by `timer_del` or by another arming. -/
  cancelled : List Nat
  /-- The callbacks made, in order. -/
  fired : List (Firing τ)

/-- `init_timer_base`, and `init_timer_head` for every timer. -/
def initTimerBase (jiffies : BitVec 64) : TimerBase τ where
  timerJiffies := jiffies
  lists := fun _ => []
  entry := fun _ => none
  expires := fun _ => 0
  due := fun _ => 0
  armed := []
  stamp := fun _ => 0
  cancelled := []
  fired := []

variable [DecidableEq τ]

/-- `timer_pending`. -/
def timerPending (base : TimerBase τ) (timer : τ) : Bool := (base.entry timer).isSome

/-- `list_add_tail(&timer->entry, vec)`. -/
def listAddTail (base : TimerBase τ) (timer : τ) (vec : Place) : TimerBase τ :=
  { base with
    lists := Function.update base.lists vec (base.lists vec ++ [timer])
    entry := Function.update base.entry timer (some vec) }

/-- `timer_del`. -/
def timerDel (base : TimerBase τ) (timer : τ) : TimerBase τ :=
  match base.entry timer with
  | none => base
  | some vec =>
      { base with
        lists := Function.update base.lists vec ((base.lists vec).erase timer)
        entry := Function.update base.entry timer none
        cancelled := base.cancelled ++ [base.stamp timer] }

/-- The list `__internal_add_timer` picks for `expires`. -/
def internalVec (timerJiffies expires : BitVec 64) : Place :=
  let idx := expires - timerJiffies
  if idx.toNat < tvrSize then
    .tvec .tv1 (expires.toNat &&& tvrMask)
  else if idx.toNat < 1 <<< (tvrBits + tvnBits) then
    .tvec .tv2 ((expires >>> tvrBits).toNat &&& tvnMask)
  else if idx.toNat < 1 <<< (tvrBits + 2 * tvnBits) then
    .tvec .tv3 ((expires >>> (tvrBits + tvnBits)).toNat &&& tvnMask)
  else if idx.toNat < 1 <<< (tvrBits + 3 * tvnBits) then
    .tvec .tv4 ((expires >>> (tvrBits + 2 * tvnBits)).toNat &&& tvnMask)
  else if idx.toInt < 0 then
    -- set to go off in the past: to the slot of the next tick
    .tvec .tv1 (timerJiffies.toNat &&& tvrMask)
  else
    -- further ahead than the wheel reaches: to the last slot it has
    let expires := if idx.toNat > 0xffffffff then 0xffffffff + timerJiffies else expires
    .tvec .tv5 ((expires >>> (tvrBits + 3 * tvnBits)).toNat &&& tvnMask)

/-- `__internal_add_timer`. -/
def internalAddTimer (base : TimerBase τ) (timer : τ) : TimerBase τ :=
  listAddTail base timer (internalVec base.timerJiffies (base.expires timer))

/-- The tick at which a timer armed with `expires` is due: one armed in the past is
due at the next tick to be processed. -/
def dueTick (timerJiffies expires : BitVec 64) : BitVec 64 :=
  if (expires - timerJiffies).toInt < 0 then timerJiffies else expires

/-- `timer->expires = expires`, and the arming noted. -/
def setExpires (base : TimerBase τ) (timer : τ) (expires : BitVec 64) : TimerBase τ :=
  { base with
    expires := Function.update base.expires timer expires
    due := Function.update base.due timer (dueTick base.timerJiffies expires)
    armed := base.armed ++ [⟨timer, dueTick base.timerJiffies expires⟩]
    stamp := Function.update base.stamp timer base.armed.length }

/-- `timer_mod`. -/
def timerMod (base : TimerBase τ) (timer : τ) (expires : BitVec 64) : TimerBase τ :=
  let base := if timerPending base timer then timerDel base timer else base
  internalAddTimer (setExpires base timer expires) timer

/-- `timer_add`. -/
def timerAdd (base : TimerBase τ) (timer : τ) (expires : BitVec 64) : TimerBase τ :=
  timerMod base timer expires

/-! ## Running -/

/-- `cascade`: every timer of the slot is put where it now belongs. -/
def cascade (base : TimerBase τ) (tv : Tvec) (index : Nat) : TimerBase τ :=
  (base.lists (.tvec tv index)).foldl internalAddTimer
    { base with lists := Function.update base.lists (.tvec tv index) [] }

/-- `INDEX(N)`. -/
def tvecIndex (timerJiffies : BitVec 64) (n : Nat) : Nat :=
  (timerJiffies >>> (tvrBits + n * tvnBits)).toNat &&& tvnMask

/-- The `Cascade timers` step of `timers_run`: a level is cascaded when the indices of
all the finer ones are at 0. -/
def cascadeTimers (base : TimerBase τ) : TimerBase τ :=
  let jiffies := base.timerJiffies
  -- `cascade` returns its index, and the chain of `&&` ends at the first that is not 0
  if jiffies.toNat &&& tvrMask ≠ 0 then base else
  let base := cascade base .tv2 (tvecIndex jiffies 0)
  if tvecIndex jiffies 0 ≠ 0 then base else
  let base := cascade base .tv3 (tvecIndex jiffies 1)
  if tvecIndex jiffies 1 ≠ 0 then base else
  let base := cascade base .tv4 (tvecIndex jiffies 2)
  if tvecIndex jiffies 2 ≠ 0 then base else
  cascade base .tv5 (tvecIndex jiffies 3)

/-- `list_replace_init(base->tv1.vec + index, &work_list)`. -/
def replaceInit (base : TimerBase τ) (index : Nat) : TimerBase τ :=
  { base with
    lists := Function.update
      (Function.update base.lists .work (base.lists (.tvec .tv1 index))) (.tvec .tv1 index) []
    entry := fun timer =>
      if base.entry timer = some (.tvec .tv1 index) then some .work else base.entry timer }

/-- One round of the outer loop up to the callbacks: the timers of this tick are on the
work list, and the clock stands at the next tick. -/
def startTick (base : TimerBase τ) : TimerBase τ :=
  let index := base.timerJiffies.toNat &&& tvrMask
  let base := cascadeTimers base
  -- the clock moves on first, so what a callback arms in the past is not for this list
  replaceInit { base with timerJiffies := base.timerJiffies + 1 } index

/-- `timer_del` of a timer whose callback comes next, and the callback noted. -/
def takeTimer (base : TimerBase τ) (timer : τ) : TimerBase τ :=
  { timerDel base timer with
    -- this `timer_del` cancels nothing
    cancelled := base.cancelled
    fired := base.fired
      ++ [⟨timer, base.timerJiffies - 1, base.due timer, base.stamp timer⟩] }

/-- A program state that holds a wheel: callbacks may change all of it. -/
structure TimerOwner (σ : Type v) (τ : Type u) where
  tbase : σ → TimerBase τ
  setTbase : σ → TimerBase τ → σ
  tbase_setTbase : ∀ s base, tbase (setTbase s base) = base

section Run
variable (owner : TimerOwner σ τ) (callback : τ → σ → σ)

/-- The callbacks of one tick: the first timer of the work list is taken until none is left. -/
def runWork : Nat → BitVec 32 × σ → BitVec 32 × σ
  | 0, st => st
  | fuel + 1, (expired, s) =>
      match (owner.tbase s).lists .work with
      | [] => (expired, s)
      | timer :: _ =>
          -- it is off the list before the call, and may be armed again in it
          let s := callback timer (owner.setTbase s (takeTimer (owner.tbase s) timer))
          runWork fuel (expired + 1, s)

/-- One round of the outer loop. -/
def runTick (st : BitVec 32 × σ) : BitVec 32 × σ :=
  let s := owner.setTbase st.2 (startTick (owner.tbase st.2))
  runWork owner callback ((owner.tbase s).lists .work).length (st.1, s)

/-- `while (time_after_eq(jiffies, base->timer_jiffies))`, with less than `fuel` rounds. -/
def runTicks (jiffies : BitVec 64) : Nat → BitVec 32 × σ → Option (BitVec 32 × σ)
  | 0, _ => none
  | fuel + 1, st =>
      match timeAfterEq jiffies (owner.tbase st.2).timerJiffies with
      -- undefined in C
      | none => none
      | some true => runTicks jiffies fuel (runTick owner callback st)
      | some false => some st

/-- `timers_run`: the number of callbacks made, an `int`, and the state they leave. The
loop makes one round for each tick up to `jiffies`, and then tests the next one. -/
def timersRun (s : σ) (jiffies : BitVec 64) : Option (BitVec 32 × σ) :=
  match timeAfterEq jiffies (owner.tbase s).timerJiffies with
  | none => none
  | some false => some (0, s)
  | some true =>
      runTicks owner callback jiffies ((jiffies - (owner.tbase s).timerJiffies).toNat + 2) (0, s)

end Run

/-! ## The next interrupt -/

/-- The `do`-`while` over the slots of `tv1`: the first slot with a timer, and the
first timer of it. -/
def scanTv1 (base : TimerBase τ) (index : Nat) : Nat → Nat → Option (Nat × τ)
  | 0, _ => none
  | fuel + 1, slot =>
      match base.lists (.tvec .tv1 slot) with
      | nte :: _ => some (slot, nte)
      | [] =>
          -- an empty slot: on to the next one, until the first comes round
          let slot := (slot + 1) &&& tvrMask
          if slot ≠ index then scanTv1 base index fuel slot else none

/-- The earliest of `expires` and the expiries of a slot's timers. -/
def slotExpires (base : TimerBase τ) : List τ → BitVec 64 → Option (BitVec 64)
  | [], expires => some expires
  | nte :: timers, expires =>
      match timeBefore (base.expires nte) expires with
      | none => none
      | some true => slotExpires base timers (base.expires nte)
      | some false => slotExpires base timers expires

/-- The `do`-`while` over the slots of one of `tv2` to `tv5`, from `slot` on. `.error r`
is `return r`, `.ok` leaves the loop with `found` and `expires`. -/
def scanTvec (base : TimerBase τ) (tv : Tvec) (index : Nat) :
    Nat → Nat → Bool → BitVec 64 → Option (Except (BitVec 64) (Bool × BitVec 64))
  | 0, _, found, expires => some (.ok (found, expires))
  | fuel + 1, slot, found, expires =>
      let timers := base.lists (.tvec tv slot)
      let found := found || !timers.isEmpty
      match slotExpires base timers expires with
      | none => none
      | some expires =>
          if found then
            -- with `index` at 0, or past the last slot, the next level is cascaded first
            if index = 0 ∨ slot < index then some (.ok (found, expires)) else some (.error expires)
          else
            let slot := (slot + 1) &&& tvnMask
            if slot ≠ index then scanTvec base tv index fuel slot found expires
            else some (.ok (found, expires))

/-- The loop over `varray`. -/
def scanLevels (base : TimerBase τ) :
    List Tvec → BitVec 64 → Bool → BitVec 64 → Option (BitVec 64)
  | [], _, _, expires => some expires
  | tv :: varray, timerJiffies, found, expires =>
      let index := timerJiffies.toNat &&& tvnMask
      match scanTvec base tv index tvnSize index found expires with
      | none => none
      | some (.error expires) => some expires
      | some (.ok (found, expires)) =>
          let timerJiffies :=
            if index ≠ 0 then timerJiffies + BitVec.ofNat 64 (tvnSize - index) else timerJiffies
          scanLevels base varray (timerJiffies >>> tvnBits) found expires

/-- The code from the label `cascade` on. -/
def nextCascade (base : TimerBase τ) (found : Bool) (expires : BitVec 64) : Option (BitVec 64) :=
  let index := base.timerJiffies.toNat &&& tvrMask
  let timerJiffies :=
    if index ≠ 0 then base.timerJiffies + BitVec.ofNat 64 (tvrSize - index)
    else base.timerJiffies
  scanLevels base [.tv2, .tv3, .tv4, .tv5] (timerJiffies >>> tvrBits) found expires

/-- `timer_next_interrupt`. -/
def timerNextInterrupt (base : TimerBase τ) : Option (BitVec 64) :=
  let index := base.timerJiffies.toNat &&& tvrMask
  match scanTv1 base index tvrSize index with
  | some (slot, nte) =>
      -- with `index` at 0, or past the last slot, `tv2` is cascaded first
      if index = 0 ∨ slot < index then nextCascade base true (base.expires nte)
      else some (base.expires nte)
  | none => nextCascade base false (base.timerJiffies + nextTimerMaxDelta)

end Msock
