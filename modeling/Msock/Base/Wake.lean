import Msock.Lib.Runs
import Msock.Domain.Basic

/-!
# Waking a blocking engine

A domain whose hungry process is blocked in its engine wakes up when a byte comes through
its pipe. Whoever flushes an outbox into its remote inbox writes that byte, but only if it
finds the domain's node marked as dequeued. Here are the two sides, step by step: the turn
of `send_flush_outbox` that meets the domain, by any number of senders, and the life of the
domain from `msqueue_get` to `msqueue_put`, with its one hungry process.

The byte and the message travel apart, the domain takes its remote inbox twice, and it
reads many bytes at once. What holds it together is that no byte is read between the first
time it takes the remote inbox and the end of the block.
-/

namespace Msock

open Lib

universe u v
variable {ι : Type u} {β : Type v}

/-- A message to the domain, with the number of the flush of `sender` that brought it. -/
structure RemoteMessage (ι : Type u) (β : Type v) where
  sender : ι
  flush : Nat
  body : β
  deriving DecidableEq

/-- What is in the inbox of the hungry process. -/
inductive HungryItem (ι : Type u) (β : Type v) where
  | message (msg : RemoteMessage ι β)
  | queueEmpty
  deriving DecidableEq

/-- Where a sender is in its turn of `send_flush_outbox`. -/
inductive FlushPhase where
  /-- Not in a turn. -/
  | idle
  /-- The outbox is in the remote inbox. -/
  | appended
  /-- `msqueue_is_enqueued` was true: about to write to the pipe. -/
  | waking
  deriving DecidableEq

/-- A sender, and the number of its turns that are over. -/
structure FlushTurn where
  phase : FlushPhase
  flush : Nat

/-- Where the worker that holds the domain is. -/
inductive WakePhase where
  /-- In `queue_of_domains`. -/
  | waiting
  /-- `msqueue_get` moved the head past the domain, and did not yet mark it. -/
  | picked
  /-- `msqueue_get` returned the domain. -/
  | marked
  /-- In the first `domain_run`, after the splice. -/
  | delivering
  /-- The first `domain_run` returned 0. -/
  | ran
  /-- `MSG_QUEUE_EMPTY` was sent. -/
  | asked
  /-- In the second `domain_run`, after the splice. -/
  | redelivering
  /-- The hungry process is in `epoll_wait`. -/
  | blocked
  /-- In the second `domain_run`, after `epoll_wait`. -/
  | awake
  /-- `worker_domain_run` returned. -/
  | finished
  /-- `msqueue_put` cleared the mark, and did not yet link the domain. -/
  | cleared
  deriving DecidableEq

/-- The domain, its pipe, and who sends to it. -/
structure WakeState (ι : Type u) (β : Type v) where
  /-- `in_queue.next` is `MSQUEUE_POISON1`. -/
  dequeued : Bool
  remoteInbox : List (RemoteMessage ι β)
  localInbox : List (RemoteMessage ι β)
  /-- The inbox of the hungry process. -/
  inbox : List (HungryItem ι β)
  /-- The bytes in the pipe. -/
  pipe : Nat
  phase : WakePhase
  sender : ι → FlushTurn

/-- The domain was put on the queue by `domain_new`. -/
def WakeState.init : WakeState ι β :=
  ⟨false, [], [], [], 0, .waiting, fun _ => ⟨.idle, 0⟩⟩

/-- `sizeof(buf)` in `process_block`. -/
def wakeReadSize : Nat := 32

/-- The steps of the senders and of the worker. -/
inductive WakeAct (ι : Type u) (β : Type v) where
  /-- `queue_splice` of an outbox to `remote_inbox`, under its lock. -/
  | append (i : ι) (outbox : List β)
  /-- `msqueue_is_enqueued`. -/
  | test (i : ι)
  /-- `ingress_callback`: a byte is written. -/
  | ingress (i : ι)
  /-- `msqueue_get` takes the domain. -/
  | get
  /-- `msqueue_get` marks it. -/
  | mark
  /-- `domain_run` splices `remote_inbox` to `local_inbox`, under its lock. -/
  | splice
  /-- A turn of `dispatch_local_inbox`; the message is for the hungry process, or not. -/
  | dispatch (toHungry : Bool)
  /-- A turn of `process_run` on a message. -/
  | handle
  /-- The first `domain_run` returns, having sent something abroad or not. -/
  | ran (egress : Bool)
  /-- `send_indirect` of `MSG_QUEUE_EMPTY`. -/
  | sendQueueEmpty
  /-- `process_run` comes to `MSG_QUEUE_EMPTY`. -/
  | block
  /-- `epoll_wait` returns, with an event for the pipe or without. -/
  | wake (pipeRead : Bool)
  /-- The second `domain_run` returns. -/
  | finish
  /-- `msqueue_put` clears the mark. -/
  | clear
  /-- `msqueue_put` links the domain. -/
  | put
  deriving DecidableEq

/-- The phase after the splice of a `domain_run`. -/
def WakePhase.splice : WakePhase → Option WakePhase
  | .marked => some .delivering
  | .asked => some .redelivering
  | _ => none

/-- The messages of an outbox are in the remote inbox. -/
def WakeState.arrive (i : ι) (outbox : List β) (s : WakeState ι β) : WakeState ι β :=
  { s with remoteInbox := s.remoteInbox ++ outbox.map (RemoteMessage.mk i (s.sender i).flush) }

variable [DecidableEq ι]

def WakeState.setSender (i : ι) (turn : FlushTurn) (s : WakeState ι β) : WakeState ι β :=
  { s with sender := Function.update s.sender i turn }

/-- The turn of a sender is over. -/
def WakeState.endTurn (i : ι) (s : WakeState ι β) : WakeState ι β :=
  s.setSender i ⟨.idle, (s.sender i).flush + 1⟩

/-- One step, if it is what its party does next. -/
def WakeState.step (a : WakeAct ι β) (s : WakeState ι β) : Except Stop (WakeState ι β) :=
  match a with
  | .append i outbox =>
      if (s.sender i).phase = .idle then
        .ok ((s.arrive i outbox).setSender i ⟨.appended, (s.sender i).flush⟩)
      else .error .disabled
  | .test i =>
      if (s.sender i).phase = .appended then
        -- true when the node is not in the queue
        if s.dequeued then .ok (s.setSender i ⟨.waking, (s.sender i).flush⟩) else .ok (s.endTurn i)
      else .error .disabled
  | .ingress i =>
      if (s.sender i).phase = .waking then .ok ({ s with pipe := s.pipe + 1 }.endTurn i)
      else .error .disabled
  | .get => if s.phase = .waiting then .ok { s with phase := .picked } else .error .disabled
  | .mark =>
      if s.phase = .picked then .ok { s with phase := .marked, dequeued := true }
      else .error .disabled
  | .splice =>
      match s.phase.splice with
      | some phase => .ok { s with
          phase := phase
          localInbox := s.localInbox ++ s.remoteInbox
          remoteInbox := [] }
      | none => .error .disabled
  | .dispatch toHungry =>
      match s.localInbox with
      | msg :: rest =>
          if s.phase = .delivering ∨ s.phase = .redelivering then
            .ok { s with
              localInbox := rest
              inbox := if toHungry then s.inbox ++ [.message msg] else s.inbox }
          else .error .disabled
      | [] => .error .disabled
  | .handle =>
      match s.inbox with
      | .message _ :: rest =>
          if s.localInbox = [] ∧ (s.phase = .delivering ∨ s.phase = .awake) then
            .ok { s with inbox := rest }
          else .error .disabled
      | _ => .error .disabled
  | .ran egress =>
      if s.phase = .delivering ∧ s.localInbox = [] ∧ s.inbox = [] then
        .ok { s with phase := if egress then .finished else .ran }
      else .error .disabled
  | .sendQueueEmpty =>
      if s.phase = .ran then .ok { s with phase := .asked, inbox := s.inbox ++ [.queueEmpty] }
      else .error .disabled
  | .block =>
      match s.inbox with
      | .queueEmpty :: rest =>
          if s.localInbox = [] ∧ s.phase = .redelivering then
            .ok { s with phase := .blocked, inbox := rest }
          else .error .disabled
      | _ => .error .disabled
  | .wake pipeRead =>
      if s.phase = .blocked ∧ (pipeRead → 0 < s.pipe) then
        .ok { s with
          phase := .awake
          pipe := if pipeRead then s.pipe - wakeReadSize else s.pipe }
      else .error .disabled
  | .finish =>
      if s.phase = .awake ∧ s.localInbox = [] ∧ s.inbox = [] then .ok { s with phase := .finished }
      else .error .disabled
  | .clear =>
      if s.phase = .finished then .ok { s with phase := .cleared, dequeued := false }
      else .error .disabled
  | .put => if s.phase = .cleared then .ok { s with phase := .waiting } else .error .disabled

/-! ## The byte is under way -/

/-- The sender of the message has appended it, and neither tested nor written for it. -/
def WakeState.Pending (s : WakeState ι β) (msg : RemoteMessage ι β) : Prop :=
  (s.sender msg.sender).flush = msg.flush ∧ (s.sender msg.sender).phase ≠ .idle

/-- From the first splice to the end of the block: no byte is read. -/
def WakePhase.unread : WakePhase → Prop
  | .delivering | .ran | .asked | .redelivering | .blocked => True
  | _ => False

/-- After the second splice, until the end of the block. -/
def WakePhase.behind : WakePhase → Prop
  | .redelivering | .blocked => True
  | _ => False

/-- A message that the hungry process does not see before it blocks. -/
def WakeState.Behind (s : WakeState ι β) (msg : RemoteMessage ι β) : Prop :=
  msg ∈ s.localInbox ∨ .message msg ∈ s.inbox

/-- What holds between the steps. -/
structure WakeState.Inv (s : WakeState ι β) : Prop where
  marked : s.phase.unread → s.dequeued = true
  dequeued : s.phase = .marked → s.dequeued = true
  ran : s.phase = .ran → s.localInbox = [] ∧ s.inbox = []
  asked : s.phase = .asked → s.localInbox = [] ∧ s.inbox = [.queueEmpty]
  /-- There is a byte for every message that came after the first splice, or there will be. -/
  remote : s.phase.unread → ∀ msg ∈ s.remoteInbox, s.Pending msg ∨ 0 < s.pipe
  behind : s.phase.behind → ∀ msg, s.Behind msg → s.Pending msg ∨ 0 < s.pipe

variable {s s' : WakeState ι β} {i : ι} {msg : RemoteMessage ι β}

theorem WakePhase.unread_of_behind {phase : WakePhase} (h : phase.behind) : phase.unread := by
  cases phase <;> trivial

omit [DecidableEq ι] in
theorem wakeInv_init : (WakeState.init : WakeState ι β).Inv :=
  ⟨fun h => h.elim, fun h => (nomatch h), fun h => (nomatch h), fun h => (nomatch h),
    fun h => h.elim, fun h => h.elim⟩

omit [DecidableEq ι] in
/-- A step of a sender: what was owed is still owed, or the byte is there. -/
theorem WakeState.Inv.sent (h : s.Inv) (hphase : s'.phase = s.phase)
    (hdequeued : s'.dequeued = s.dequeued) (hlocal : s'.localInbox = s.localInbox)
    (hinbox : s'.inbox = s.inbox) (hpipe : s.pipe ≤ s'.pipe)
    (hremote : ∀ msg ∈ s'.remoteInbox, msg ∈ s.remoteInbox ∨ s'.Pending msg)
    (hkept : s.phase.unread → ∀ msg, s.Pending msg → s'.Pending msg ∨ 0 < s'.pipe) : s'.Inv := by
  have hstill : s.phase.unread → ∀ msg, s.Pending msg ∨ 0 < s.pipe →
      s'.Pending msg ∨ 0 < s'.pipe := by
    intro hunread msg hor
    rcases hor with hpending | hpos
    · exact hkept hunread msg hpending
    · exact Or.inr (Nat.lt_of_lt_of_le hpos hpipe)
  refine ⟨?_, ?_, ?_, ?_, ?_, ?_⟩
  · rw [hphase, hdequeued]; exact h.marked
  · rw [hphase, hdequeued]; exact h.dequeued
  · rw [hphase, hlocal, hinbox]; exact h.ran
  · rw [hphase, hlocal, hinbox]; exact h.asked
  · rw [hphase]
    intro hunread msg hmsg
    rcases hremote msg hmsg with hold | hnew
    · exact hstill hunread msg (h.remote hunread msg hold)
    · exact Or.inl hnew
  · rw [hphase]
    intro hbehind msg hmsg
    unfold WakeState.Behind at hmsg
    rw [hlocal, hinbox] at hmsg
    exact hstill (WakePhase.unread_of_behind hbehind) msg (h.behind hbehind msg hmsg)

/-- Another sender's turn, or this sender's, which is not over. -/
theorem WakeState.Pending.setSender (h : s.Pending msg) {phase : FlushPhase}
    (hphase : phase ≠ .idle) : (s.setSender i ⟨phase, (s.sender i).flush⟩).Pending msg := by
  show (Function.update s.sender i _ msg.sender).flush = _ ∧
    (Function.update s.sender i _ msg.sender).phase ≠ _
  by_cases hi : msg.sender = i
  · subst hi
    rw [Function.update_self]
    exact ⟨h.1, hphase⟩
  · rw [Function.update_of_ne hi]
    exact h

/-- One turn of `send_flush_outbox`, up to the splice. -/
theorem WakeState.Inv.append (h : s.Inv) (outbox : List β) :
    ((s.arrive i outbox).setSender i ⟨.appended, (s.sender i).flush⟩).Inv := by
  refine h.sent rfl rfl rfl rfl le_rfl (fun msg hmsg => ?_) (fun _ msg hpending => Or.inl ?_)
  · rcases List.mem_append.1 hmsg with hold | hnew
    · exact Or.inl hold
    · obtain ⟨body, _, rfl⟩ := List.mem_map.1 hnew
      refine Or.inr ⟨?_, ?_⟩
      · show (Function.update s.sender i _ i).flush = _
        rw [Function.update_self]
      · show (Function.update s.sender i _ i).phase ≠ _
        rw [Function.update_self]
        exact fun heq => nomatch heq
  · exact WakeState.Pending.setSender (s := s.arrive i outbox) hpending (fun heq => nomatch heq)

/-- The test, when the domain is marked. -/
theorem WakeState.Inv.testTrue (h : s.Inv) :
    (s.setSender i ⟨.waking, (s.sender i).flush⟩).Inv :=
  h.sent rfl rfl rfl rfl le_rfl (fun _ hmsg => Or.inl hmsg)
    (fun _ _ hpending => Or.inl (hpending.setSender (fun heq => nomatch heq)))

/-- The test, when the domain is not marked: it has yet to take its remote inbox. -/
theorem WakeState.Inv.testFalse (h : s.Inv) (hunmarked : s.dequeued = false) : (s.endTurn i).Inv := by
  refine h.sent rfl rfl rfl rfl le_rfl (fun _ hmsg => Or.inl hmsg) (fun hunread _ _ => ?_)
  have hmarked := h.marked hunread
  rw [hunmarked] at hmarked
  cases hmarked

/-- The byte is written. -/
theorem WakeState.Inv.ingress (h : s.Inv) : ({ s with pipe := s.pipe + 1 }.endTurn i).Inv :=
  h.sent rfl rfl rfl rfl (Nat.le_succ _) (fun _ hmsg => Or.inl hmsg)
    (fun _ _ _ => Or.inr (Nat.succ_pos _))

omit [DecidableEq ι] in
/-- A step of the worker that leaves the senders, the remote inbox and the pipe as they are. -/
theorem WakeState.Inv.goOn (h : s.Inv) (hsender : s'.sender = s.sender) (hpipe : s'.pipe = s.pipe)
    (hremote : s'.remoteInbox = s.remoteInbox) (hmarked : s'.dequeued = s.dequeued)
    (hunread : s'.phase.unread → s.phase.unread) (hphase : s'.phase ≠ .marked)
    (hran : s'.phase = .ran → s'.localInbox = [] ∧ s'.inbox = [])
    (hasked : s'.phase = .asked → s'.localInbox = [] ∧ s'.inbox = [.queueEmpty])
    (hbehind : s'.phase.behind → s.phase.behind ∧ ∀ msg, s'.Behind msg → s.Behind msg) :
    s'.Inv := by
  have hpending : ∀ msg, s'.Pending msg ↔ s.Pending msg := fun msg => by
    unfold WakeState.Pending
    rw [hsender]
  refine ⟨fun hu => by rw [hmarked]; exact h.marked (hunread hu), fun heq => absurd heq hphase,
    hran, hasked, fun hu msg hmsg => ?_, fun hb msg hmsg => ?_⟩
  · rw [hpending, hpipe]
    exact h.remote (hunread hu) msg (hremote ▸ hmsg)
  · rw [hpending, hpipe]
    exact h.behind (hbehind hb).1 msg ((hbehind hb).2 msg hmsg)

omit [DecidableEq ι] in
/-- The remote inbox is taken, the first time or the second. -/
theorem WakeState.Inv.splice (h : s.Inv) {phase : WakePhase} (hphase : s.phase.splice = some phase) :
    ({ s with phase := phase, localInbox := s.localInbox ++ s.remoteInbox, remoteInbox := []
      } : WakeState ι β).Inv := by
  unfold WakePhase.splice at hphase
  split at hphase
  · rename_i hmarked
    cases hphase
    exact ⟨fun _ => h.dequeued hmarked, fun heq => (nomatch heq), fun heq => (nomatch heq),
      fun heq => (nomatch heq), fun _ msg hmsg => absurd hmsg List.not_mem_nil, fun hb => hb.elim⟩
  · rename_i hasked
    cases hphase
    obtain ⟨hlocal, hinbox⟩ := h.asked hasked
    have hunread : s.phase.unread := by rw [hasked]; trivial
    refine ⟨fun _ => h.marked hunread, fun heq => (nomatch heq), fun heq => (nomatch heq),
      fun heq => (nomatch heq), fun _ msg hmsg => absurd hmsg List.not_mem_nil,
      fun _ msg hmsg => ?_⟩
    -- what is behind now, was in the remote inbox
    rcases hmsg with hmsg | hmsg
    · rw [hlocal] at hmsg
      exact h.remote hunread msg hmsg
    · rw [show _ = [HungryItem.queueEmpty] from hinbox] at hmsg
      cases List.mem_singleton.1 hmsg
  · cases hphase

/-- What one step preserves. -/
theorem wakeInv_step {a : WakeAct ι β} (h : s.Inv) (hstep : WakeState.step a s = .ok s') :
    s'.Inv := by
  cases a with
  | append i outbox =>
      simp only [WakeState.step] at hstep
      split at hstep <;> cases hstep
      exact h.append outbox
  | test i =>
      simp only [WakeState.step] at hstep
      split at hstep
      · by_cases hmarked : s.dequeued = true
        · rw [if_pos hmarked] at hstep
          cases hstep
          exact h.testTrue
        · rw [if_neg hmarked] at hstep
          cases hstep
          exact h.testFalse (Bool.eq_false_iff.2 hmarked)
      · cases hstep
  | ingress i =>
      simp only [WakeState.step] at hstep
      split at hstep <;> cases hstep
      exact h.ingress
  | get =>
      simp only [WakeState.step] at hstep
      split at hstep <;> cases hstep
      exact h.goOn rfl rfl rfl rfl (fun hu => hu.elim) (fun heq => nomatch heq)
        (fun heq => nomatch heq) (fun heq => nomatch heq) (fun hb => hb.elim)
  | mark =>
      simp only [WakeState.step] at hstep
      split at hstep <;> cases hstep
      exact ⟨fun _ => rfl, fun _ => rfl, fun heq => (nomatch heq), fun heq => (nomatch heq),
        fun hu => hu.elim, fun hb => hb.elim⟩
  | splice =>
      simp only [WakeState.step] at hstep
      split at hstep <;> cases hstep
      exact h.splice ‹_›
  | dispatch toHungry =>
      simp only [WakeState.step] at hstep
      split at hstep
      · rename_i msg rest hlocal
        split at hstep <;> cases hstep
        rename_i hphase
        refine h.goOn rfl rfl rfl rfl id ?_ ?_ ?_ ?_
        · rintro (heq : s.phase = .marked)
          rw [heq] at hphase
          exact absurd hphase (by simp)
        · rintro (heq : s.phase = .ran)
          rw [heq] at hphase
          exact absurd hphase (by simp)
        · rintro (heq : s.phase = .asked)
          rw [heq] at hphase
          exact absurd hphase (by simp)
        · intro hbehind
          refine ⟨hbehind, fun msg' hmsg => ?_⟩
          unfold WakeState.Behind at hmsg ⊢
          rw [hlocal]
          rcases hmsg with hmsg | hmsg
          · exact Or.inl (List.mem_cons_of_mem _ hmsg)
          · cases toHungry with
            | false => exact Or.inr hmsg
            | true =>
                rcases List.mem_append.1 hmsg with hmsg | hmsg
                · exact Or.inr hmsg
                · cases List.mem_singleton.1 hmsg
                  exact Or.inl List.mem_cons_self
      · cases hstep
  | handle =>
      simp only [WakeState.step] at hstep
      split at hstep
      · split at hstep <;> cases hstep
        rename_i hphase
        have hnot : ∀ phase, phase ≠ .delivering → phase ≠ .awake → s.phase ≠ phase := by
          rintro phase hd ha rfl
          exact hphase.2.elim hd ha
        refine h.goOn rfl rfl rfl rfl id (hnot _ (fun heq => nomatch heq) (fun heq => nomatch heq))
          (fun heq => absurd heq (hnot _ (fun heq => nomatch heq) (fun heq => nomatch heq)))
          (fun heq => absurd heq (hnot _ (fun heq => nomatch heq) (fun heq => nomatch heq)))
          (fun hbehind => ?_)
        rcases hphase.2 with heq | heq
        · rw [show _ = WakePhase.delivering from heq] at hbehind
          exact hbehind.elim
        · rw [show _ = WakePhase.awake from heq] at hbehind
          exact hbehind.elim
      · cases hstep
  | ran egress =>
      simp only [WakeState.step] at hstep
      split at hstep <;> cases hstep
      rename_i hphase
      obtain ⟨hphase, hlocal, hinbox⟩ := hphase
      cases egress with
      | true =>
          exact h.goOn rfl rfl rfl rfl (fun hu => hu.elim) (fun heq => nomatch heq)
            (fun heq => nomatch heq) (fun heq => nomatch heq) (fun hb => hb.elim)
      | false =>
          exact h.goOn rfl rfl rfl rfl (fun _ => by rw [hphase]; trivial) (fun heq => nomatch heq)
            (fun _ => ⟨hlocal, hinbox⟩) (fun heq => nomatch heq) (fun hb => hb.elim)
  | sendQueueEmpty =>
      simp only [WakeState.step] at hstep
      split at hstep <;> cases hstep
      rename_i hphase
      obtain ⟨hlocal, hinbox⟩ := h.ran hphase
      refine h.goOn rfl rfl rfl rfl (fun _ => by rw [hphase]; trivial) (fun heq => nomatch heq)
        (fun heq => nomatch heq) (fun _ => ⟨hlocal, ?_⟩) (fun hb => hb.elim)
      show s.inbox ++ _ = _
      rw [hinbox]
      rfl
  | block =>
      simp only [WakeState.step] at hstep
      split at hstep
      · rename_i rest hinbox
        split at hstep <;> cases hstep
        rename_i hphase
        refine h.goOn rfl rfl rfl rfl (fun _ => by rw [hphase.2]; trivial) (fun heq => nomatch heq)
          (fun heq => nomatch heq) (fun heq => nomatch heq) (fun _ => ⟨by rw [hphase.2]; trivial, ?_⟩)
        intro msg hmsg
        unfold WakeState.Behind at hmsg ⊢
        rw [hinbox]
        exact hmsg.imp_right (List.mem_cons_of_mem _)
      · cases hstep
  | wake pipeRead =>
      simp only [WakeState.step] at hstep
      split at hstep <;> cases hstep
      exact ⟨fun hu => hu.elim, fun heq => (nomatch heq), fun heq => (nomatch heq),
        fun heq => (nomatch heq), fun hu => hu.elim, fun hb => hb.elim⟩
  | finish =>
      simp only [WakeState.step] at hstep
      split at hstep <;> cases hstep
      exact h.goOn rfl rfl rfl rfl (fun hu => hu.elim) (fun heq => nomatch heq)
        (fun heq => nomatch heq) (fun heq => nomatch heq) (fun hb => hb.elim)
  | clear =>
      simp only [WakeState.step] at hstep
      split at hstep <;> cases hstep
      exact ⟨fun hu => hu.elim, fun heq => (nomatch heq), fun heq => (nomatch heq),
        fun heq => (nomatch heq), fun hu => hu.elim, fun hb => hb.elim⟩
  | put =>
      simp only [WakeState.step] at hstep
      split at hstep <;> cases hstep
      exact h.goOn rfl rfl rfl rfl (fun hu => hu.elim) (fun heq => nomatch heq)
        (fun heq => nomatch heq) (fun heq => nomatch heq) (fun hb => hb.elim)

theorem wakeInv_reachable (hrun : Runs WakeState.step anyAct WakeState.init s) : s.Inv :=
  hrun.invariant (I := WakeState.Inv) (fun _ _ _ h _ hstep => wakeInv_step h hstep) wakeInv_init

/--
**No wake-up is lost.**

With any senders and any interleaving: when the hungry process is blocked and its pipe is
empty, every message it has not seen, in its domain's remote or local inbox or in its own
inbox, is of a sender that has appended it and has yet to test and write.
-/
theorem no_lost_wake (s : WakeState ι β) (hrun : Runs WakeState.step anyAct WakeState.init s)
    (hblocked : s.phase = .blocked) (hempty : s.pipe = 0) (msg : RemoteMessage ι β)
    (hmsg : msg ∈ s.remoteInbox ∨ msg ∈ s.localInbox ∨ .message msg ∈ s.inbox) :
    s.Pending msg := by
  have h := wakeInv_reachable hrun
  have hor : s.Pending msg ∨ 0 < s.pipe := by
    rcases hmsg with hmsg | hmsg
    · exact h.remote (by rw [hblocked]; trivial) msg hmsg
    · exact h.behind (by rw [hblocked]; trivial) msg hmsg
  rw [hempty] at hor
  exact hor.resolve_right (lt_irrefl 0)

/-- One sender comes before the mark, the other between the splices, and it has yet to test. -/
theorem no_lost_wake_two : ∃ s : WakeState Bool Nat,
    Runs WakeState.step anyAct WakeState.init s ∧ s.phase = .blocked ∧ s.pipe = 0 ∧
    s.inbox = [.message ⟨true, 0, 7⟩] ∧ s.Pending ⟨true, 0, 7⟩ := by
  obtain ⟨s, hrun, hs⟩ := exists_run (show (runActs (WakeState.step (β := Nat)) anyAct
    [.get, .append false [5], .test false, .mark, .splice, .dispatch true, .handle, .ran false,
      .sendQueueEmpty, .append true [7], .splice, .dispatch true, .block]
    (WakeState.init (ι := Bool))).any (fun s => decide (s.phase = .blocked ∧ s.pipe = 0 ∧
      s.inbox = [.message ⟨true, 0, 7⟩])) = true by decide +kernel)
  obtain ⟨hblocked, hempty, hinbox⟩ := of_decide_eq_true hs
  refine ⟨s, hrun, hblocked, hempty, hinbox, ?_⟩
  exact no_lost_wake s hrun hblocked hempty _ (Or.inr (Or.inr (hinbox ▸ List.mem_singleton.2 rfl)))

end Msock
