import Msock.Domain.Sends

/-!
# What is waiting to be sent abroad

A message enters an outbox in `_send_indirect` only, and leaves it in `send_flush_outbox`
only. Which outbox it enters follows from the target, names resolved.
-/

namespace Msock

open Lib

variable {d d' : Domain} {p : ProcId} {msg : Message} {env : Env} {names : Nat → Pid} {v : Nat}

/-- The gid a send goes to, if its target resolves. -/
def sendGids (names : Nat → Pid) (target : Pid) : List Nat :=
  match resolveTarget names target with
  | .ok pid => [pidToGid pid]
  | .error _ => []

/-- The gids a broadcast goes to. -/
def broadcastGids (env : Env) : List Nat :=
  env.gids.flatMap (fun gid => sendGids env.names (poffGidToPid pidBroadcast gid))

/-- The gids that an act sends messages to. -/
def Act.addressees (env : Env) (d : Domain) : Act → List Nat
  | .baseSend target _ _ _ | .api (.send target _ _ _) => sendGids env.names target
  | .api .loopexit | .api .memoryCollect => broadcastGids env
  | .next =>
      match d.phase with
      | .ran egress =>
          match (nextHungry egress d).bind d.process with
          | some process => sendGids env.names process.pid
          | none => []
      | _ => []
  | _ => []

/-- An outbox that holds something after a send held something before, or it is another
domain's and the send put it there. -/
def FillsOnly (gids : List Nat) (d d' : Domain) : Prop :=
  ∀ v, (d'.outbox v).items ≠ [] → (d.outbox v).items ≠ [] ∨ v ∈ gids ∧ v ≠ d.gid

/-! ## Dispatch puts nothing in an outbox -/

theorem dispatchMsgSingle_outbox (h : dispatchMsgSingle p msg d = .ok d') :
    d'.outbox = d.outbox ∧ d'.phase = d.phase := by
  obtain ⟨process, _, ⟨_, rfl⟩ | ⟨_, _, busy, heads, _, rfl⟩⟩ := dispatchMsgSingle_cases h <;>
    exact ⟨rfl, rfl⟩

theorem dispatchClones_outbox {ps : List ProcId} (h : dispatchClones msg ps d = .ok d') :
    d'.outbox = d.outbox ∧ d'.phase = d.phase := by
  induction ps generalizing d with
  | nil => rw [← Except.ok.inj h]; exact ⟨rfl, rfl⟩
  | cons p ps ih =>
      obtain ⟨d₁, h₁, h⟩ := dispatchClones_cons h
      obtain ⟨houtbox, hphase⟩ := dispatchMsgSingle_outbox h₁
      exact ⟨(ih h).1.trans houtbox, (ih h).2.trans hphase⟩

theorem dispatchMsgLocal_outbox {k : Nat} (h : dispatchMsgLocal msg d = .ok (k, d')) :
    d'.outbox = d.outbox ∧ d'.phase = d.phase := by
  cases dispatchMsgLocal_cases h with
  | single p _ _ hd => exact dispatchMsgSingle_outbox hd
  | stale _ _ hd => rw [hd]; exact ⟨rfl, rfl⟩
  | broadcast d₁ _ _ h₁ hd =>
      have hclones := dispatchClones_outbox h₁
      rw [hd]
      exact hclones
  | collect _ _ hd => rw [hd]; exact ⟨rfl, rfl⟩

/-! ## Sends -/

theorem sendIndirect_fills {target : Pid} {msgType : Int} {msgPayload : List UInt8}
    {msgPayloadSz : Int}
    (h : sendIndirect names target msgType msgPayload msgPayloadSz d = .ok d') :
    FillsOnly (sendGids names target) d d' ∧ d'.phase = d.phase := by
  obtain ⟨pid, hpid, _, _, _, ⟨_, k, h⟩ | ⟨habroad, _, rfl⟩⟩ := sendIndirect_cases h
  · obtain ⟨houtbox, hphase⟩ := dispatchMsgLocal_outbox h
    exact ⟨fun v hv => Or.inl (by rw [houtbox] at hv; exact hv), hphase⟩
  · refine ⟨fun v hv => ?_, rfl⟩
    by_cases hgid : v = pidToGid pid
    · refine Or.inr ⟨?_, hgid ▸ habroad⟩
      rw [sendGids, hpid, hgid]
      exact List.mem_singleton_self _
    · refine Or.inl ?_
      simp only [Domain.putOutbox, Function.update_of_ne hgid] at hv
      exact hv

theorem sendBroadcast_fills {msgType : Int} {gids : List Nat}
    (h : sendBroadcast names msgType gids d = .ok d') :
    FillsOnly (gids.flatMap (fun gid => sendGids names (poffGidToPid pidBroadcast gid))) d d' ∧
      d'.phase = d.phase := by
  induction gids generalizing d with
  | nil => rw [← Except.ok.inj h]; exact ⟨fun v hv => Or.inl hv, rfl⟩
  | cons gid gids ih =>
      obtain ⟨d₁, h₁, h⟩ := sendBroadcast_cons h
      obtain ⟨hfirst, hphase⟩ := sendIndirect_fills h₁
      obtain ⟨hrest, hphase'⟩ := ih h
      refine ⟨fun v hv => ?_, hphase'.trans hphase⟩
      rw [List.flatMap_cons, List.mem_append]
      rcases hrest v hv with hv | ⟨hmem, hne⟩
      · exact (hfirst v hv).imp_right fun hv => ⟨Or.inl hv.1, hv.2⟩
      · exact Or.inr ⟨Or.inr hmem, (sendIndirect_sends h₁).frame.gid ▸ hne⟩

theorem processNew_outbox {receiveCallback : Option Nat} {hungry : Bool}
    (h : processNew receiveCallback hungry d = .ok (p, d')) :
    d'.outbox = d.outbox ∧ d'.phase = d.phase := by
  obtain ⟨_, poff, umap, _, _, rfl⟩ := processNew_cases h
  exact ⟨rfl, rfl⟩

theorem spawnConstructor_outbox (h : spawnConstructor d = .ok d') :
    d'.outbox = d.outbox ∧ d'.phase = d.phase := by
  obtain ⟨poff, umap, q, _, _, _, rfl⟩ := spawnConstructor_cases h
  exact ⟨rfl, rfl⟩

/-- The domain is in `send_flush_outbox`, between the splice onto `v` and the test of its
node. -/
def Domain.flushing (d : Domain) (v : Nat) : Bool :=
  match d.phase with
  | .flush gid _ true _ => decide (gid = v)
  | _ => false

theorem flushing_iff : d.flushing v = true ↔
    ∃ counter back, d.phase = .flush v counter true back := by
  unfold Domain.flushing
  split
  · rename_i gid counter back hphase
    rw [decide_eq_true_iff, hphase]
    constructor
    · rintro rfl; exact ⟨counter, back, rfl⟩
    · rintro ⟨_, _, h⟩; cases h; rfl
  · rename_i hphase
    refine iff_of_false Bool.false_ne_true ?_
    rintro ⟨counter, back, h⟩
    exact hphase v counter back h

/-! ## Acts -/

/-- An act that leaves the outboxes as they are. -/
theorem FillsOnly.same {gids : List Nat} (h : d'.outbox = d.outbox) : FillsOnly gids d d' :=
  fun v hv => Or.inl (by rw [h] at hv; exact hv)

theorem called_fills {call : Api} (h : Called env d call d') :
    FillsOnly (Act.addressees env d (.api call)) d d' := by
  cases h with
  | send target msgType msgPayload msgPayloadSz _ h => exact (sendIndirect_fills h).1
  | spawn receiveCallback p _ h => exact .same (processNew_outbox h).1
  | spawn2 _ h => exact .same (spawnConstructor_outbox h).1
  | constructed cur oldproc _ _ => exact .same rfl
  | receive receiveCallback cur oldproc d₁ _ h =>
      obtain ⟨_, _, _, _, _, rfl⟩ := msockReceive_cases h
      exact .same rfl
  | loopexit _ h => exact (sendBroadcast_fills h).1
  | memoryCollect d₁ _ h => exact (sendBroadcast_fills h).1

theorem processFree_outbox (h : processFree p d = .ok d') :
    d'.outbox = d.outbox ∧ d'.phase = d.phase := by
  obtain ⟨process, umap, enqueued, busy, heads, _, _, _, _, rfl⟩ := processFree_cases h
  exact ⟨rfl, rfl⟩

/-- **An outbox is filled by the act's own messages only.** -/
theorem act_fills {a : Act} (h : d.act (env, a) = .ok d') :
    FillsOnly (a.addressees env d) d d' := by
  cases step_cases h with
  | arrive qr => exact .same rfl
  | baseSend target msgType msgPayload msgPayloadSz d₁ _ hsend => exact (sendIndirect_fills hsend).1
  | baseSpawn receiveCallback hungry p _ hnew => exact .same (processNew_outbox hnew).1
  | baseSpawn2 _ hnew => exact .same (spawnConstructor_outbox hnew).1
  | api call _ hcall => exact called_fills hcall
  | pick | mark | splice | dispatchNone | queueNone | queueOne | inboxNone | inboxOne | retOk
  | retBadmatch | nextDone | retire | requeue => exact .same rfl
  | dispatchOne again counter msg localInbox delivered d₁ _ _ hdispatch =>
      exact .same (dispatchMsgLocal_outbox hdispatch).1
  | retExit p msg received d₁ _ _ hfree => exact .same (processFree_outbox hfree).1
  | flushTake victim gid counter back _ =>
      intro v hv
      unfold flushTake at hv
      split at hv
      · exact Or.inl hv
      · split at hv
        · exact Or.inl hv
        · have hkeep : (Function.update d.outbox gid Queue.init v).items ≠ [] →
              (d.outbox v).items ≠ [] := by
            by_cases hgid : v = gid
            · subst hgid; simp
            · rw [Function.update_of_ne hgid]; exact id
          split at hv
          · exact Or.inl (hkeep hv)
          · rw [drainMessageQueue_eq] at hv
            exact Or.inl (hkeep hv)
  | flushWake dequeued gid counter back _ => cases dequeued <;> exact .same rfl
  | nextNested egress p hphase hnext hsend =>
      obtain ⟨process, d₁, hp, hempty, rfl⟩ := sendQueueEmpty_cases hsend
      intro v hv
      refine ((sendIndirect_fills hempty).1 v hv).imp_right fun ⟨hmem, hne⟩ => ⟨?_, hne⟩
      simp only [Act.addressees, hphase, hnext, Option.bind_some, hp]
      exact hmem

theorem noteReceive_flushing {phase : Phase} {q : ProcId} {counter : Nat} {back : FlushFrom} :
    phase.noteReceive q = .flush v counter true back ↔ phase = .flush v counter true back := by
  cases phase <;> simp [Phase.noteReceive]

/-- **Only the splice of what is in the outbox leads to the test of the victim's node.** -/
theorem act_flushing {a : Act} (h : d.act (env, a) = .ok d') (hv : d'.flushing v = true) :
    d.flushing v = true ∨ (d.outbox v).items ≠ [] := by
  obtain ⟨counter, back, hphase'⟩ := flushing_iff.1 hv
  cases step_cases h with
  | arrive qr => exact Or.inl (flushing_iff.2 ⟨counter, back, hphase'⟩)
  | baseSend => cases hphase'
  | baseSpawn receiveCallback hungry p hphase hnew =>
      rw [(processNew_outbox hnew).2, hphase] at hphase'; cases hphase'
  | baseSpawn2 hphase hnew =>
      rw [(spawnConstructor_outbox hnew).2, hphase] at hphase'; cases hphase'
  | api call hphase hcall =>
      exfalso
      have hsame : d'.phase = .flush v counter true back → d.phase = .flush v counter true back := by
        cases hcall with
        | send target msgType msgPayload msgPayloadSz _ hsend =>
            rw [(sendIndirect_fills hsend).2]; exact id
        | spawn receiveCallback p _ hnew => rw [(processNew_outbox hnew).2]; exact id
        | spawn2 _ hnew => rw [(spawnConstructor_outbox hnew).2]; exact id
        | constructed cur oldproc _ _ => exact id
        | receive receiveCallback cur oldproc d₁ _ hreceive =>
            obtain ⟨_, _, _, _, _, rfl⟩ := msockReceive_cases hreceive
            exact noteReceive_flushing.1
        | loopexit _ hsend => rw [(sendBroadcast_fills hsend).2]; exact id
        | memoryCollect d₁ _ _ => intro hflush; cases hflush
      rcases hphase with hphase | ⟨p, msg, received, hphase⟩
      · rw [hphase] at hsame; cases hsame hphase'
      · rw [hphase] at hsame; cases hsame hphase'
  | pick | mark | splice | dispatchOne | queueNone | queueOne | inboxNone | inboxOne | retOk
  | retBadmatch | nextDone | retire | requeue | retExit | flushWake => cases hphase'
  | dispatchNone again counter hphase _ =>
      dsimp only at hphase'
      split at hphase' <;> cases hphase'
  | flushTake victim gid c b hphase =>
      unfold flushTake at hphase'
      split at hphase'
      · cases b <;> cases hphase'
      · split at hphase'
        · cases hphase'
        · rename_i hfilled
          split at hphase'
          · cases hphase'
            exact Or.inr hfilled
          · cases hphase'
  | nextNested egress p hphase hnext hsend =>
      obtain ⟨process, d₁, hp, _, rfl⟩ := sendQueueEmpty_cases hsend
      cases hphase'

end Msock
