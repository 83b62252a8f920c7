import Msock.Domain.Straight
import Msock.Base.Transport

/-!
# From send to callback

The pipe of `Transport` ends where a message is put into the inbox of its process. A process
that sets nothing aside takes its inbox from the front, so for it the order goes all the way:
its callback is called with what a domain sent it, in the order it was sent.
-/

namespace Msock

open Lib

variable {b b' : Base} {gid s v : Nat} {d d' : Domain} {p : ProcId} {pid : Pid}
  {t₀ es : List Event} {inbox₀ : List Message}

/-! ## The log and the traces -/

/-- The log has of each domain its trace. -/
structure Base.Logged (b : Base) : Prop where
  trace : ∀ gid d, b.gidToDomain gid = some d → d.trace = eventsOf gid b.log
  none : ∀ gid, b.gidToDomain gid = none → eventsOf gid b.log = []

theorem logged_new : Base.new.Logged where
  trace := fun _ _ h => by cases h
  none := fun _ _ => rfl

theorem Base.Logged.set (h : b.Logged) (hd : b.gidToDomain gid = some d)
    (htrace : d'.trace = d.trace ++ es) : (b.setDomain gid d d').Logged where
  trace := fun g e he => by
    rw [log_setDomain htrace, eventsOf_append]
    by_cases hg : g = gid
    · subst hg
      simp only [Base.setDomain, Function.update_self, Option.some.injEq] at he
      rw [← he, htrace, if_pos rfl, h.trace g d hd]
    · simp only [Base.setDomain, Function.update_of_ne hg] at he
      rw [if_neg (Ne.symm hg), List.append_nil]
      exact h.trace g e he
  none := fun g he => by
    by_cases hg : g = gid
    · subst hg
      simp [Base.setDomain] at he
    · simp only [Base.setDomain, Function.update_of_ne hg] at he
      rw [log_setDomain htrace, eventsOf_append, if_neg (Ne.symm hg), List.append_nil]
      exact h.none g he

theorem logged_step {a : BaseAct} (hb : b.Delivering) (h : b.Logged) (hstep : b.step a = .ok b') :
    b'.Logged := by
  have hact : ∀ {g : Nat} {d d' : Domain} {env : Env} {a : Act}, b.gidToDomain g = some d →
      d.act (env, a) = .ok d' → (∀ qr, a ≠ .arrive qr) → (b.setDomain g d d').Logged := by
    intro g d d' env a hd hact harrive
    obtain ⟨_, hr, ha⟩ := hb g d hd
    obtain ⟨es, htrace⟩ := (act_carried hact harrive hr ha).trace
    exact h.set hd htrace
  cases baseStep_cases hstep with
  | domainNew g maxProcesses _ _ hnone =>
      refine ⟨fun g' e he => ?_, fun g' he => ?_⟩
      · by_cases hg : g' = g
        · subst hg
          simp only [Function.update_self, Option.some.injEq] at he
          rw [← he]
          exact (h.none g' hnone).symm
        · simp only [Function.update_of_ne hg] at he
          exact h.trace g' e he
      · by_cases hg : g' = g
        · subst hg
          simp at he
        · simp only [Function.update_of_ne hg] at he
          exact h.none g' he
  | register pid' name names => exact ⟨h.trace, h.none⟩
  | run g a d d' hallowed hd hact' =>
      exact hact hd hact' fun qr ha => by subst ha; cases hallowed
  | flushNone g d d' hd _ hact' => exact hact hd hact' fun _ ha => by cases ha
  | flushOne g w d d' victim victim' hd hv hact' harrive =>
      obtain ⟨_, hvictim₁⟩ := hb.victim hd hv d'
      have hnone : victim'.trace = victim.trace ++ [] := by
        rw [(arrive_spliced harrive).1, List.append_nil]
      exact (hact hd hact' fun _ ha => by cases ha).set hvictim₁ hnone
  | wake g d d' dequeued hd hact' => exact hact hd hact' fun _ ha => by cases ha

theorem logged_reachable (hr : Runs Base.step slots Base.new b) : b.Logged := by
  have key := hr.invariant (I := fun b => b.Delivering ∧ b.Logged)
    (fun _ _ _ h hok hstep => ⟨delivering_step h.1 hok hstep, logged_step h.1 h.2 hstep⟩)
    ⟨delivering_reachable .refl, logged_new⟩
  exact key.2

/-! ## The order, over a run of the base -/

/-- The act is not a `RECV_BADMATCH` of the process. -/
def takesAll (v : Nat) (p : ProcId) (b : Base) (a : BaseAct) : Prop :=
  slots b a ∧ ∀ act, a = .run v act → ∀ d ∈ b.gidToDomain v, takes p d act

instance (b : Base) (a : BaseAct) : Decidable (takesAll v p b a) :=
  match a with
  | .run gid act =>
      decidable_of_iff (gid = v → ∀ d ∈ b.gidToDomain v, takes p d act)
        ⟨fun h => ⟨trivial, fun act' heq => by cases heq; exact h rfl⟩,
          fun h hg => h.2 act (by rw [hg])⟩
  | .domainNew n =>
      decidable_of_iff (slots b (.domainNew n)) ⟨fun h => ⟨h, fun _ heq => by cases heq⟩, And.left⟩
  | .register _ _ | .flush _ | .wake _ => isTrue ⟨trivial, fun _ heq => by cases heq⟩

/-- The process lives on and sets nothing aside. -/
def attends (v : Nat) (p : ProcId) (pid : Pid) (b : Base) (a : BaseAct) : Prop :=
  takesAll v p b a ∧ b.Alive v p pid

instance (b : Base) (a : BaseAct) : Decidable (attends v p pid b a) :=
  inferInstanceAs (Decidable (_ ∧ _))

theorem attends_lives (hr : Runs Base.step (attends v p pid) b b') :
    Runs Base.step (lives v p pid) b b' :=
  hr.weaken fun _ _ h => ⟨h.1.1, h.2⟩

theorem attends_takesAll (hr : Runs Base.step (attends v p pid) b b') :
    Runs Base.step (takesAll v p) b b' :=
  hr.weaken fun _ _ h => h.1

/-- The process of the domain `v` is served in order. -/
def Base.InOrder (v : Nat) (p : ProcId) (t₀ : List Event) (inbox₀ : List Message) (b : Base) : Prop :=
  ∃ d, b.gidToDomain v = some d ∧ Straight p t₀ inbox₀ d

theorem Base.InOrder.set (h : b.InOrder v p t₀ inbox₀) (hd : b.gidToDomain gid = some d)
    (hs : Straight p t₀ inbox₀ d → gid = v → Straight p t₀ inbox₀ d') :
    (b.setDomain gid d d').InOrder v p t₀ inbox₀ := by
  obtain ⟨e, he, hstraight⟩ := h
  by_cases hg : v = gid
  · subst hg
    obtain rfl : d = e := Option.some.inj (hd.symm.trans he)
    exact ⟨d', by simp [Base.setDomain], hs hstraight rfl⟩
  · exact ⟨e, by simp [Base.setDomain, Function.update_of_ne hg, he], hstraight⟩

theorem inOrder_step {a : BaseAct} (hb : b.Delivering) (hok : takesAll v p b a)
    (h : b.InOrder v p t₀ inbox₀) (hstep : b.step a = .ok b') : b'.InOrder v p t₀ inbox₀ := by
  cases baseStep_cases hstep with
  | domainNew g maxProcesses _ _ hnone =>
      obtain ⟨d, hd, hs⟩ := h
      have hg : v ≠ g := by
        rintro rfl
        rw [hnone] at hd
        cases hd
      exact ⟨d, by simp [Function.update_of_ne hg, hd], hs⟩
  | register pid' name names => exact h
  | run g act d d' _ hd hact =>
      refine h.set hd fun hs hg => stepped_straight (step_cases hact) ?_ hs
      subst hg
      exact hok.2 act rfl d hd
  | flushNone g d d' hd _ hact =>
      exact h.set hd fun hs _ => stepped_straight (step_cases hact) (fun ha => by cases ha) hs
  | flushOne g w d d' victim victim' hd hv hact harrive =>
      obtain ⟨_, hvictim₁⟩ := hb.victim hd hv d'
      exact (h.set hd fun hs _ => stepped_straight (step_cases hact) (fun ha => by cases ha) hs).set
        hvictim₁ fun hs _ => stepped_straight (step_cases harrive) (fun ha => by cases ha) hs
  | wake g d d' dequeued hd hact =>
      exact h.set hd fun hs _ => stepped_straight (step_cases hact) (fun ha => by cases ha) hs

/-! ## The letters that come through -/

/-- The letters among the messages that are from the domain `s`. -/
def lettersOf (s : Nat) (msgs : List Message) : List Letter :=
  (msgs.filter (fun msg => msg.src = s)).map Message.letter

theorem lettersOf_append (msgs msgs' : List Message) :
    lettersOf s (msgs ++ msgs') = lettersOf s msgs ++ lettersOf s msgs' := by
  rw [lettersOf, List.filter_append, List.map_append]
  rfl

/-- The letters from `s` that the callback of `p` was called with. -/
def Base.presentedFrom (s v : Nat) (p : ProcId) (b : Base) : List Letter :=
  lettersOf s (presentations p (eventsOf v b.log))

/-- What a run in which the process sets nothing aside does to it. -/
theorem run_presents {b₀ : Base} (hb₀ : b₀.Delivering) (hlogged₀ : b₀.Logged) {d₀ : Domain}
    {process₀ : Process} (hd₀ : b₀.gidToDomain v = some d₀) (hp₀ : d₀.process p = some process₀)
    (hbadmatch : process₀.badmatch.items = []) (hinbox : process₀.inbox.Whole)
    (hr : Runs Base.step (takesAll v p) b₀ b) : ∃ handed presented rest,
      (b.pipe s v p pid).handed = (b₀.pipe s v p pid).handed ++ handed ∧
      b.presentedFrom s v p = b₀.presentedFrom s v p ++ presented ∧
      presented ++ lettersOf s rest = lettersOf s process₀.inbox.items ++ handed ∧
      ∀ d process, b.gidToDomain v = some d → d.process p = some process →
        process.inbox.items = rest := by
  obtain ⟨_, hrouted₀, _⟩ := hb₀ v d₀ hd₀
  have hold : p < d₀.nextProc := hrouted₀.fresh p process₀.pid (Domain.roster_pid hp₀)
  have key := hr.invariant (I := fun b => b.Delivering ∧ b.Logged ∧
      b.InOrder v p d₀.trace process₀.inbox.items)
    (fun _ _ _ h hok hstep => ⟨delivering_step h.1 hok.1 hstep, logged_step h.1 h.2.1 hstep,
      inOrder_step h.1 hok h.2.2 hstep⟩)
    ⟨hb₀, hlogged₀, d₀, hd₀, straight_start hp₀ hold hbadmatch hinbox⟩
  obtain ⟨_, hlogged, d, hd, hstraight⟩ := key
  obtain ⟨es, rest, htrace, hqueue, hkept⟩ := hstraight.queue
  have hlog : eventsOf v b.log = eventsOf v b₀.log ++ es := by
    rw [← hlogged.trace v d hd, ← hlogged₀.trace v d₀ hd₀, htrace]
  refine ⟨handedFrom s p es, lettersOf s (presentations p es), rest, ?_, ?_, ?_,
    fun d' process hd' hp => ?_⟩
  · rw [Base.pipe, Base.pipe, hlog, handedFrom_append]
  · rw [Base.presentedFrom, Base.presentedFrom, hlog, presentations_append, lettersOf_append]
  · rw [← lettersOf_append, hqueue, lettersOf_append]
    rfl
  · obtain rfl : d = d' := Option.some.inj (hd.symm.trans hd')
    exact (hkept process hp).2.2

/-- The domain 2 takes the message in, and runs its process up to the callback. -/
def serveActs : List BaseAct :=
  [.run 2 .dispatch, .run 2 .dispatch, .run 2 .nextProcess, .run 2 .nextMessage]

end Msock
