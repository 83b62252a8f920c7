import Msock.Domain.Run
import Msock.Queue.UpqueueProof

/-!
# What each function can do

One inversion lemma for each function and for each act: from "it answered `d'`" to
what `d'` is. The invariants of the following files are proved from these lemmas and
never unfold the functions again.
-/

namespace Msock

open Lib

variable {d d' : Domain} {p q : ProcId} {msg : Message} {env : Env} {names : Nat → Pid}

theorem access_eq_ok {α : Type} {o : Option α} {a : α} : access o = .ok a ↔ o = some a := by
  cases o <;> simp [access]

/-! ## Dispatch -/

/-- `dispatch_msg_single` with a set `last` only appends to the inbox. -/
def Domain.putInbox (p : ProcId) (process : Process) (msg : Message) (d : Domain) : Domain :=
  (d.setProcess p { process with inbox := (process.inbox.put msg).2 }).emit (.handed p msg)

theorem dispatchMsgSingle_cases (h : dispatchMsgSingle p msg d = .ok d') :
    ∃ process, d.process p = some process ∧
      ((process.inbox.lastSet = true ∧ d' = d.putInbox p process msg) ∨
       (process.inbox.lastSet = false ∧ ∃ wasEmpty busy heads,
          queuePut p d.queueOfBusyProcesses d.inBusyQueue = some (wasEmpty, busy, heads) ∧
          d' = { d.putInbox p process msg with
            queueOfBusyProcesses := busy, inBusyQueue := heads })) := by
  unfold dispatchMsgSingle at h
  obtain ⟨process, hp, h⟩ := bind_eq_ok.mp h
  refine ⟨process, access_eq_ok.mp hp, ?_⟩
  have hput := process.inbox.put_fst msg
  dsimp only at h
  split at h
  · rename_i hw
    obtain ⟨⟨b, busy, heads⟩, hq, h⟩ := bind_eq_ok.mp h
    refine Or.inr ⟨by rw [hw] at hput; simpa using hput, b, busy, heads, access_eq_ok.mp hq, ?_⟩
    exact (Except.ok.inj h).symm
  · rename_i hw
    have hl : process.inbox.lastSet = true := by
      rw [Bool.not_eq_true] at hw
      rw [hw] at hput
      simpa using hput.symm
    exact Or.inl ⟨hl, (Except.ok.inj h).symm⟩

theorem dispatchClones_cons {ps : List ProcId} (h : dispatchClones msg (p :: ps) d = .ok d') :
    ∃ d₁, dispatchMsgSingle p (messageClone msg d).1 (messageClone msg d).2 = .ok d₁
      ∧ dispatchClones msg ps d₁ = .ok d' := bind_eq_ok.mp h

/-- The four ends of a message in `dispatch_msg_local`. -/
inductive Dispatched (msg : Message) (d d' : Domain) : Nat → Prop where
  /-- Its target is alive. -/
  | single (p : ProcId) : pidToPoff msg.target ≠ 0 →
      umapGet d.poffToProcess (pidToPoff msg.target) = some p →
      dispatchMsgSingle p msg d = .ok d' → Dispatched msg d d' 1
  /-- Its target is not. -/
  | stale : pidToPoff msg.target ≠ 0 →
      umapGet d.poffToProcess (pidToPoff msg.target) = none →
      d' = freeMessage msg (d.emit (.stale msg)) → Dispatched msg d d' 0
  /-- It is a broadcast. -/
  | broadcast (d₁ : Domain) : pidToPoff msg.target = 0 → msg.msgType ≠ msgGc →
      dispatchClones msg d.listOfProcesses d = .ok d₁ → d' = freeMessage msg d₁ →
      Dispatched msg d d' 1
  /-- It is for the domain itself. -/
  | collect : pidToPoff msg.target = 0 → msg.msgType = msgGc →
      d' = (freeMessage msg d).emit .drain → Dispatched msg d d' 1

theorem dispatchMsgLocal_cases {k : Nat} (h : dispatchMsgLocal msg d = .ok (k, d')) :
    Dispatched msg d d' k := by
  unfold dispatchMsgLocal at h
  dsimp only at h
  split at h
  · rename_i hpoff
    split at h
    · rename_i p hget
      obtain ⟨d₁, h₁, h⟩ := bind_eq_ok.mp h
      obtain ⟨rfl, rfl⟩ := Prod.mk.inj (Except.ok.inj h)
      exact .single p hpoff hget h₁
    · rename_i hget
      obtain ⟨rfl, rfl⟩ := Prod.mk.inj (Except.ok.inj h)
      exact .stale hpoff hget rfl
  · rename_i hpoff
    have hpoff : pidToPoff msg.target = 0 := Classical.not_not.mp hpoff
    split at h
    · rename_i hty
      obtain ⟨d₁, h₁, h⟩ := bind_eq_ok.mp h
      obtain ⟨d₂, h₂, h₁⟩ := bind_eq_ok.mp h₁
      obtain ⟨rfl, rfl⟩ := Prod.mk.inj (Except.ok.inj h)
      exact .broadcast d₂ hpoff hty h₂ (Except.ok.inj h₁).symm
    · rename_i hty
      have hty : msg.msgType = msgGc := Classical.not_not.mp hty
      obtain ⟨d₁, h₁, h⟩ := bind_eq_ok.mp h
      obtain ⟨rfl, rfl⟩ := Prod.mk.inj (Except.ok.inj h)
      rw [dispatchSpecial, if_pos hty] at h₁
      exact .collect hpoff hty (Except.ok.inj h₁).symm

/-! ## Sending -/

/-- The message `_send_indirect` builds, its target resolved. -/
def Domain.newMessage (d : Domain) (target : Pid) (msgType : Int) (msgPayload : List UInt8)
    (sz : Nat) : Message :=
  ⟨(d.gid, d.nextMsg), d.gid, target, msgType, sz, msgPayload.take sz⟩

/-- The domain once the message is built. -/
def Domain.sending (d : Domain) (msg : Message) : Domain := (mallocMessage d).2.emit (.sent msg)

/-- The domain once the message is in the outbox for `gid`. -/
def Domain.putOutbox (d : Domain) (gid : Nat) (msg : Message) : Domain :=
  { d with outbox := Function.update d.outbox gid ((d.outbox gid).put msg).2 }

theorem sendIndirect_cases {target : Pid} {msgType : Int} {msgPayload : List UInt8}
    {msgPayloadSz : Int} (h : sendIndirect names target msgType msgPayload msgPayloadSz d = .ok d') :
    ∃ pid, resolveTarget names target = .ok pid ∧
      0 ≤ msgPayloadSz ∧ msgPayloadSz ≤ maxMsgPayloadSz ∧
      msgPayloadSz.toNat ≤ msgPayload.length ∧
      ((pidToGid pid = d.gid ∧ ∃ k,
          dispatchMsgLocal (d.newMessage pid msgType msgPayload msgPayloadSz.toNat)
            (d.sending (d.newMessage pid msgType msgPayload msgPayloadSz.toNat)) = .ok (k, d')) ∨
       (pidToGid pid ≠ d.gid ∧ pidToGid pid < maxDomains ∧
          d' = (d.sending (d.newMessage pid msgType msgPayload msgPayloadSz.toNat)).putOutbox
            (pidToGid pid) (d.newMessage pid msgType msgPayload msgPayloadSz.toNat))) := by
  unfold sendIndirect at h
  obtain ⟨pid, hpid, h⟩ := bind_eq_ok.mp h
  dsimp only at h
  split at h
  · cases h
  · rename_i hsz
    split at h
    · cases h
    · rename_i hlen
      refine ⟨pid, hpid, by omega, by omega, by omega, ?_⟩
      split at h
      · rename_i hgid
        obtain ⟨⟨k, d₁⟩, h₁, h⟩ := bind_eq_ok.mp h
        exact Or.inl ⟨hgid, k, by rw [← Except.ok.inj h]; exact h₁⟩
      · rename_i hgid
        split at h
        · rename_i hlt
          exact Or.inr ⟨hgid, hlt, (Except.ok.inj h).symm⟩
        · cases h

theorem sendBroadcast_cons {msgType : Int} {gid : Nat} {gids : List Nat}
    (h : sendBroadcast names msgType (gid :: gids) d = .ok d') :
    ∃ d₁, sendIndirect names (poffGidToPid pidBroadcast gid) msgType [] 0 d = .ok d₁
      ∧ sendBroadcast names msgType gids d₁ = .ok d' := bind_eq_ok.mp h

/-! ## Processes -/

/-- The domain with a new process numbered `poff`. -/
def Domain.addProcess (d : Domain) (poff : Nat) (umap : UmapRoot ProcId)
    (receiveCallback : Option Nat) (hungry : Bool) : Domain :=
  { d with
    poffToProcess := umap
    process := Function.update d.process d.nextProc
      (some ⟨poffGidToPid poff d.gid, Queue.init, Queue.init, receiveCallback⟩)
    listOfProcesses := d.nextProc :: d.listOfProcesses
    inBusyQueue := initQueueHead d.inBusyQueue d.nextProc
    listOfHungryProcesses :=
      if hungry then d.nextProc :: d.listOfHungryProcesses else d.listOfHungryProcesses
    nextProc := d.nextProc + 1
    trace := d.trace ++ [.mallocProcess d.nextProc] }

theorem processNew_cases {receiveCallback : Option Nat} {hungry : Bool}
    (h : processNew receiveCallback hungry d = .ok (p, d')) :
    p = d.nextProc ∧ ∃ poff umap, umapAdd d.poffToProcess d.nextProc = some (poff, umap) ∧
      poff ≠ 0 ∧ d' = d.addProcess poff umap receiveCallback hungry := by
  unfold processNew at h
  dsimp only at h
  split at h
  · cases h
  · rename_i poff umap hadd
    split at h
    · cases h
    · rename_i hpoff
      obtain ⟨rfl, rfl⟩ := Prod.mk.inj (Except.ok.inj h)
      exact ⟨rfl, poff, umap, hadd, hpoff, rfl⟩

theorem spawnConstructor_cases (h : spawnConstructor d = .ok d') :
    ∃ poff umap q, umapAdd d.poffToProcess d.nextProc = some (poff, umap) ∧ poff ≠ 0 ∧
      umapGet umap (pidToPoff (poffGidToPid poff d.gid)) = some q ∧
      d' = { d.addProcess poff umap none false with current := q :: d.current } := by
  obtain ⟨⟨p, d₁⟩, hnew, h⟩ := bind_eq_ok.mp h
  obtain ⟨rfl, poff, umap, hadd, hpoff, rfl⟩ := processNew_cases hnew
  obtain ⟨process, hproc, h⟩ := bind_eq_ok.mp h
  have hproc := access_eq_ok.mp hproc
  simp only [Domain.addProcess, Function.update_self, Option.some.injEq] at hproc
  subst hproc
  obtain ⟨q, hq, h⟩ := bind_eq_ok.mp h
  exact ⟨poff, umap, q, hadd, hpoff, access_eq_ok.mp hq, (Except.ok.inj h).symm⟩

/-- A freed process: out of the map and of every list, its messages returned. -/
def Domain.removeProcess (d : Domain) (p : ProcId) (process : Process) (umap : UmapRoot ProcId)
    (busy : QueueRoot ProcId) (heads : Links ProcId) : Domain :=
  { d with
    poffToProcess := umap
    listOfProcesses := d.listOfProcesses.erase p
    queueOfBusyProcesses := busy
    inBusyQueue := Function.update heads p none
    listOfHungryProcesses := d.listOfHungryProcesses.erase p
    process := Function.update d.process p none
    trace := d.trace ++ process.inbox.items.map (fun msg => .free msg.id)
      ++ process.badmatch.items.map (fun msg => .free msg.id) ++ [.freeProcess p, .exited p] }

theorem drainMessageQueue_eq (msgbox : Queue Message) (d : Domain) :
    drainMessageQueue msgbox d
      = { d with trace := d.trace ++ msgbox.items.map (fun msg => .free msg.id) } := by
  have key : ∀ (ms : List Message) (d : Domain), ms.foldl (fun d msg => freeMessage msg d) d
      = { d with trace := d.trace ++ ms.map (fun msg => .free msg.id) } := by
    intro ms
    induction ms with
    | nil => intro d; simp
    | cons m ms ih =>
        intro d
        rw [List.foldl_cons, ih]
        simp [freeMessage, Domain.emit]
  exact key msgbox.items d

theorem processFree_cases (h : processFree p d = .ok d') :
    ∃ process umap enqueued busy heads, d.process p = some process ∧
      umapDel d.poffToProcess (pidToPoff process.pid) = some umap ∧
      queueIsEnqueued d.inBusyQueue p = some enqueued ∧
      ((enqueued = true ∧
          queueSlowDel (d.listOfProcesses.length + 1) p d.queueOfBusyProcesses d.inBusyQueue
            = some (busy, heads)) ∨
       (enqueued = false ∧ busy = d.queueOfBusyProcesses ∧ heads = d.inBusyQueue)) ∧
      d' = d.removeProcess p process umap busy heads := by
  unfold processFree at h
  obtain ⟨process, hp, h⟩ := bind_eq_ok.mp h
  obtain ⟨umap, humap, h⟩ := bind_eq_ok.mp h
  obtain ⟨⟨busy, heads⟩, hdel, h⟩ := bind_eq_ok.mp h
  obtain ⟨enqueued, he, hb⟩ := bind_eq_ok.mp hdel
  refine ⟨process, umap, enqueued, busy, heads, access_eq_ok.mp hp, access_eq_ok.mp humap,
    access_eq_ok.mp he, ?_, ?_⟩
  · split at hb
    · rename_i hen
      exact Or.inl ⟨hen, access_eq_ok.mp hb⟩
    · rename_i hen
      obtain ⟨rfl, rfl⟩ := Prod.mk.inj (Except.ok.inj hb)
      exact Or.inr ⟨by simpa using hen, rfl, rfl⟩
  · rw [← Except.ok.inj h, drainMessageQueue_eq, drainMessageQueue_eq]
    simp [Domain.emit, Domain.removeProcess]

/-- The process once `msock_receive` has spliced. -/
theorem msockReceive_cases {receiveCallback : Option Nat}
    (h : msockReceive p receiveCallback d = .ok d') :
    ∃ process badmatch inbox, d.process p = some process ∧
      process.badmatch.splicePrepend process.inbox = some (badmatch, inbox) ∧
      d' = (d.setProcess p ⟨process.pid, inbox, badmatch, receiveCallback⟩).emit
        (.received p) := by
  unfold msockReceive at h
  obtain ⟨process, hp, h⟩ := bind_eq_ok.mp h
  obtain ⟨⟨badmatch, inbox⟩, hs, h⟩ := bind_eq_ok.mp h
  exact ⟨process, badmatch, inbox, access_eq_ok.mp hp, access_eq_ok.mp hs,
    (Except.ok.inj h).symm⟩

theorem sendQueueEmpty_cases (h : sendQueueEmpty env p d = .ok d') :
    ∃ process d₁, d.process p = some process ∧
      sendIndirect env.names process.pid msgQueueEmpty [] 0 d = .ok d₁ ∧
      d' = { d₁ with phase := .entered, cursor := some p } := by
  unfold sendQueueEmpty at h
  obtain ⟨process, hp, h⟩ := bind_eq_ok.mp h
  obtain ⟨d₁, hs, h⟩ := bind_eq_ok.mp h
  exact ⟨process, d₁, access_eq_ok.mp hp, hs, (Except.ok.inj h).symm⟩

/-! ## Acts -/

/-- What a call by the current process can do. -/
inductive Called (env : Env) (d : Domain) : Api → Domain → Prop where
  | send {d' : Domain} (target : Pid) (msgType : Int) (msgPayload : List UInt8)
      (msgPayloadSz : Int) : d.current ≠ [] →
      sendIndirect env.names target msgType msgPayload msgPayloadSz d = .ok d' →
      Called env d (.send target msgType msgPayload msgPayloadSz) d'
  | spawn {d' : Domain} (receiveCallback : Option Nat) (p : ProcId) : d.current ≠ [] →
      processNew receiveCallback false d = .ok (p, d') → Called env d (.spawn receiveCallback) d'
  | spawn2 {d' : Domain} : d.current ≠ [] → spawnConstructor d = .ok d' → Called env d .spawn2 d'
  | constructed (cur : ProcId) (oldproc : List ProcId) : d.current = cur :: oldproc →
      (oldproc = [] → d.phase = .idle) → Called env d .constructed { d with current := oldproc }
  | receive (receiveCallback : Option Nat) (cur : ProcId) (oldproc : List ProcId) (d₁ : Domain) :
      d.current = cur :: oldproc → msockReceive cur receiveCallback d = .ok d₁ →
      Called env d (.receive receiveCallback) { d₁ with phase := d₁.phase.noteReceive cur }
  | loopexit {d' : Domain} : d.current ≠ [] →
      sendBroadcast env.names msgExit env.gids d = .ok d' → Called env d .loopexit d'
  | memoryCollect (d₁ : Domain) : d.current ≠ [] →
      sendBroadcast env.names msgGc env.gids d = .ok d₁ →
      Called env d .memoryCollect { d₁ with phase := .flush 0 0 false d₁.phase.flushFrom }

theorem callApi_cases {call : Api} (h : callApi env call d = .ok d') : Called env d call d' := by
  unfold callApi at h
  split at h
  · cases h
  · rename_i cur oldproc hcur
    have hne : d.current ≠ [] := by rw [hcur]; simp
    cases call with
    | send target msgType msgPayload msgPayloadSz => exact .send _ _ _ _ hne h
    | spawn receiveCallback =>
        obtain ⟨⟨p, d₁⟩, hnew, h⟩ := bind_eq_ok.mp h
        exact .spawn _ p hne (by rw [← Except.ok.inj h]; exact hnew)
    | spawn2 => exact .spawn2 hne h
    | constructed =>
        dsimp only at h
        split at h
        · cases h
        · rename_i hc
          rw [← Except.ok.inj h]
          exact .constructed cur oldproc hcur
            (fun ho => Classical.not_not.mp (fun hp => hc ⟨ho, hp⟩))
    | receive receiveCallback =>
        obtain ⟨d₁, hr, h⟩ := bind_eq_ok.mp h
        rw [← Except.ok.inj h]
        exact .receive _ cur oldproc d₁ hcur hr
    | loopexit => exact .loopexit hne h
    | memoryCollect =>
        obtain ⟨d₁, hb, h⟩ := bind_eq_ok.mp h
        rw [← Except.ok.inj h]
        exact .memoryCollect d₁ hne hb

/-- The process `worker_domain_run` sends `MSG_QUEUE_EMPTY` to next. -/
def nextHungry (egress : Nat) (d : Domain) : Option ProcId :=
  match d.cursor with
  | none => if egress = 0 then d.listOfHungryProcesses.head? else none
  | some p => (d.listOfHungryProcesses.dropWhile (fun q => q ≠ p))[1]?

/-- What one act can do. -/
inductive Stepped (env : Env) (d : Domain) : Act → Domain → Prop where
  | arrive (qr : Queue Message) :
      Stepped env d (.arrive qr) { d with remoteInbox := (Queue.splice qr d.remoteInbox).2 }
  | baseSend (target : Pid) (msgType : Int) (msgPayload : List UInt8) (msgPayloadSz : Int)
      (d₁ : Domain) : d.phase = .idle →
      sendIndirect env.names target msgType msgPayload msgPayloadSz d = .ok d₁ →
      Stepped env d (.baseSend target msgType msgPayload msgPayloadSz)
        { d₁ with phase := .flush 0 0 false .outside }
  | baseSpawn {d' : Domain} (receiveCallback : Option Nat) (hungry : Bool) (p : ProcId) :
      d.phase = .idle → processNew receiveCallback hungry d = .ok (p, d') →
      Stepped env d (.baseSpawn receiveCallback hungry) d'
  | baseSpawn2 {d' : Domain} : d.phase = .idle → spawnConstructor d = .ok d' →
      Stepped env d .baseSpawn2 d'
  | api {d' : Domain} (call : Api) :
      (d.phase = .idle ∨ ∃ p msg received, d.phase = .callback p msg received) →
      Called env d call d' → Stepped env d (.api call) d'
  | pick : d.phase = .idle → d.current = [] → Stepped env d .pick { d with phase := .picked }
  | mark : d.phase = .picked →
      Stepped env d .mark { d with dequeued := true, phase := .entered, cursor := none }
  | splice : d.phase = .entered → Stepped env d .splice { d with
      remoteInbox := (Queue.splice d.remoteInbox d.localInbox).1
      localInbox := (Queue.splice d.remoteInbox d.localInbox).2
      phase := .dispatching false 0 }
  | dispatchNone (again : Bool) (counter : Nat) : d.phase = .dispatching again counter →
      d.localInbox.items = [] → Stepped env d .dispatch { d with
        phase := if again ∧ counter = 0 then .flush 0 0 false .domainRun else .queueRun }
  | dispatchOne (again : Bool) (counter : Nat) (msg : Message) (localInbox : Queue Message)
      (delivered : Nat) (d₁ : Domain) : d.phase = .dispatching again counter →
      d.localInbox.get = some (msg, localInbox) →
      dispatchMsgLocal msg { d with localInbox := localInbox } = .ok (delivered, d₁) →
      Stepped env d .dispatch { d₁ with phase := .dispatching again (counter + delivered) }
  | queueNone (busy : QueueRoot ProcId) (heads : Links ProcId) : d.phase = .queueRun →
      queueGet d.queueOfBusyProcesses d.inBusyQueue = some (none, busy, heads) →
      Stepped env d .nextProcess { d with
        queueOfBusyProcesses := busy, inBusyQueue := heads, phase := .dispatching true 0 }
  | queueOne (p : ProcId) (busy : QueueRoot ProcId) (heads : Links ProcId) : d.phase = .queueRun →
      queueGet d.queueOfBusyProcesses d.inBusyQueue = some (some p, busy, heads) →
      Stepped env d .nextProcess { d with
        queueOfBusyProcesses := busy, inBusyQueue := heads
        phase := .processRun p, current := [p] }
  | inboxNone (p : ProcId) (process : Process) : d.phase = .processRun p →
      d.process p = some process → process.inbox.items = [] →
      Stepped env d .nextMessage { d with phase := .queueRun, current := [] }
  | inboxOne (p : ProcId) (process : Process) (msg : Message) (inbox : Queue Message) :
      d.phase = .processRun p → d.process p = some process →
      process.inbox.get = some (msg, inbox) → process.receiveCallback ≠ none →
      Stepped env d .nextMessage
        { (d.setProcess p { process with inbox := inbox }).emit (.presented p msg) with
          phase := .callback p msg false }
  | retOk (p : ProcId) (msg : Message) (received : Bool) : d.phase = .callback p msg received →
      d.current = [p] → Stepped env d (.ret .ok)
        { freeMessage msg (d.emit (.consumed p msg)) with phase := .processRun p }
  | retBadmatch (p : ProcId) (msg : Message) (received : Bool) (process : Process) :
      d.phase = .callback p msg received → d.current = [p] → d.process p = some process →
      Stepped env d (.ret .badmatch)
        { (d.setProcess p { process with badmatch := (process.badmatch.put msg).2 }).emit
            (.setAside p msg) with phase := .processRun p }
  | retExit (p : ProcId) (msg : Message) (received : Bool) (d₁ : Domain) :
      d.phase = .callback p msg received → d.current = [p] →
      processFree p (freeMessage msg (d.emit (.consumed p msg))) = .ok d₁ →
      Stepped env d (.ret .exit) { d₁ with phase := .queueRun, current := [] }
  | flushTake (victim : Bool) (gid counter : Nat) (back : FlushFrom) :
      d.phase = .flush gid counter false back →
      Stepped env d (.flushTake victim) (flushTake gid counter back victim d)
  | flushWake (dequeued : Bool) (gid counter : Nat) (back : FlushFrom) :
      d.phase = .flush gid counter true back → Stepped env d (.flushWake dequeued)
        { (if dequeued then d.emit (.woke gid) else d) with
          phase := .flush (gid + 1) (counter + 1) false back }
  | nextNested {d' : Domain} (egress : Nat) (p : ProcId) : d.phase = .ran egress →
      nextHungry egress d = some p → sendQueueEmpty env p d = .ok d' → Stepped env d .next d'
  | nextDone (egress : Nat) (cursor : Option ProcId) : d.phase = .ran egress →
      Stepped env d .next { d with phase := .finished, cursor := cursor }
  | retire : d.phase = .finished → d.listOfProcesses = [] →
      Stepped env d .requeue { d with phase := .retired }
  | requeue : d.phase = .finished → d.listOfProcesses ≠ [] →
      Stepped env d .requeue { d with dequeued := false, phase := .idle }

theorem workerNext_cases {egress : Nat} (hphase : d.phase = .ran egress)
    (h : workerNext env egress d = .ok d') : Stepped env d .next d' := by
  unfold workerNext at h
  split at h
  · rename_i hcur
    split at h
    · rename_i p ps hlist
      exact .nextNested 0 p hphase (by simp [nextHungry, hcur, hlist]) h
    · rw [← Except.ok.inj h]
      exact .nextDone _ d.cursor hphase
  · rename_i p hcur
    split at h
    · cases h
    · rw [← Except.ok.inj h]
      exact .nextDone _ _ hphase
    · rename_i a q qs hdrop
      exact .nextNested _ q hphase (by rw [nextHungry, hcur]; dsimp only; rw [hdrop]; rfl) h

theorem dispatchTurn_cases {again : Bool} {counter : Nat}
    (hphase : d.phase = .dispatching again counter)
    (h : dispatchTurn again counter d = .ok d') : Stepped env d .dispatch d' := by
  unfold dispatchTurn at h
  split at h
  · rename_i hget
    rw [← Except.ok.inj h]
    exact .dispatchNone _ _ hphase (Queue.get_eq_none.mp hget)
  · rename_i msg localInbox hget
    obtain ⟨⟨k, d₁⟩, hd, h⟩ := bind_eq_ok.mp h
    rw [← Except.ok.inj h]
    exact .dispatchOne _ _ _ _ _ _ hphase hget hd

theorem queueRunTurn_cases (hphase : d.phase = .queueRun) (h : queueRunTurn d = .ok d') :
    Stepped env d .nextProcess d' := by
  obtain ⟨⟨head, busy, heads⟩, hget, h⟩ := bind_eq_ok.mp h
  have hget := access_eq_ok.mp hget
  dsimp only at h
  split at h
  · rw [← Except.ok.inj h]
    exact .queueNone _ _ hphase hget
  · rw [← Except.ok.inj h]
    exact .queueOne _ _ _ hphase hget

theorem processRunTurn_cases (hphase : d.phase = .processRun p)
    (h : processRunTurn p d = .ok d') : Stepped env d .nextMessage d' := by
  obtain ⟨process, hp, h⟩ := bind_eq_ok.mp h
  have hp := access_eq_ok.mp hp
  split at h
  · rename_i hget
    rw [← Except.ok.inj h]
    exact .inboxNone p process hphase hp (Queue.get_eq_none.mp hget)
  · rename_i msg inbox hget
    obtain ⟨cb, hcb, h⟩ := bind_eq_ok.mp h
    rw [← Except.ok.inj h]
    exact .inboxOne p process msg inbox hphase hp hget (by rw [access_eq_ok.mp hcb]; simp)

theorem recvReturn_cases {recv : Recv} {received : Bool}
    (hphase : d.phase = .callback p msg received) (hcur : d.current = [p])
    (h : recvReturn p msg recv d = .ok d') : Stepped env d (.ret recv) d' := by
  cases recv with
  | ok =>
      rw [← Except.ok.inj h]
      exact .retOk _ _ _ hphase hcur
  | badmatch =>
      obtain ⟨process, hp, h⟩ := bind_eq_ok.mp h
      rw [← Except.ok.inj h]
      exact .retBadmatch _ _ _ _ hphase hcur (access_eq_ok.mp hp)
  | exit =>
      obtain ⟨d₁, hf, h⟩ := bind_eq_ok.mp h
      rw [← Except.ok.inj h]
      exact .retExit _ _ _ _ hphase hcur hf
  | other code => cases h

/-- **Every act, read backwards.** -/
theorem step_cases {a : Act} (h : d.step env a = .ok d') : Stepped env d a d' := by
  cases a with
  | arrive qr =>
      rw [← Except.ok.inj h]
      exact .arrive qr
  | baseSend target msgType msgPayload msgPayloadSz =>
      simp only [Domain.step] at h
      split at h
      · rename_i hphase
        obtain ⟨d₁, hs, h⟩ := bind_eq_ok.mp h
        rw [← Except.ok.inj h]
        exact .baseSend _ _ _ _ _ hphase hs
      · cases h
  | baseSpawn receiveCallback hungry =>
      simp only [Domain.step] at h
      split at h
      · rename_i hphase
        obtain ⟨⟨p, d₁⟩, hnew, h⟩ := bind_eq_ok.mp h
        rw [← Except.ok.inj h]
        exact .baseSpawn _ _ p hphase hnew
      · cases h
  | baseSpawn2 =>
      simp only [Domain.step] at h
      split at h
      · rename_i hphase
        exact .baseSpawn2 hphase h
      · cases h
  | api call =>
      simp only [Domain.step] at h
      split at h
      · rename_i hphase
        exact .api call (Or.inl hphase) (callApi_cases h)
      · rename_i p msg received hphase
        exact .api call (Or.inr ⟨p, msg, received, hphase⟩) (callApi_cases h)
      · cases h
  | pick =>
      simp only [Domain.step] at h
      split at h
      · rename_i hc
        rw [← Except.ok.inj h]
        exact .pick hc.1 hc.2
      · cases h
  | mark =>
      simp only [Domain.step] at h
      split at h
      · rename_i hphase
        rw [← Except.ok.inj h]
        exact .mark hphase
      · cases h
  | splice =>
      simp only [Domain.step] at h
      split at h
      · rename_i hphase
        rw [← Except.ok.inj h]
        exact .splice hphase
      · cases h
  | dispatch =>
      simp only [Domain.step] at h
      split at h
      · rename_i hphase
        exact dispatchTurn_cases hphase h
      · cases h
  | nextProcess =>
      simp only [Domain.step] at h
      split at h
      · rename_i hphase
        exact queueRunTurn_cases hphase h
      · cases h
  | nextMessage =>
      simp only [Domain.step] at h
      split at h
      · rename_i hphase
        exact processRunTurn_cases hphase h
      · cases h
  | ret recv =>
      simp only [Domain.step] at h
      split at h
      · rename_i hphase
        split at h
        · rename_i hcur
          exact recvReturn_cases hphase hcur h
        · cases h
      · cases h
  | flushTake victim =>
      simp only [Domain.step] at h
      split at h
      · rename_i hphase
        rw [← Except.ok.inj h]
        exact .flushTake _ _ _ _ hphase
      · cases h
  | flushWake dequeued =>
      simp only [Domain.step] at h
      split at h
      · rename_i hphase
        rw [← Except.ok.inj h]
        exact .flushWake _ _ _ _ hphase
      · cases h
  | next =>
      simp only [Domain.step] at h
      split at h
      · rename_i hphase
        exact workerNext_cases hphase h
      · cases h
  | requeue =>
      simp only [Domain.step] at h
      split at h
      · rename_i hphase
        split at h
        · rename_i hlist
          rw [← Except.ok.inj h]
          exact .retire hphase hlist
        · rename_i hlist
          rw [← Except.ok.inj h]
          exact .requeue hphase hlist
      · cases h

end Msock
