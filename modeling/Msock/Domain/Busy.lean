import Msock.Domain.Sched

/-!
# Every safe act keeps the schedule

Sends are where `SafePut` is used: it has to hold of the targets before the act, and
since putting a message makes no later put unsafe (`Puts`), a broadcast may go through
its targets one by one. Everything else an act does to the schedule is one of the
changes of the previous file.
-/

namespace Msock

open Lib

variable {d d' : Domain} {p : ProcId} {r : Option ProcId} {msg : Message} {env : Env}

theorem put_lastSet {α : Type} (q : Queue α) (x : α) : (q.put x).2.lastSet = true := by
  unfold Queue.put
  split <;> rfl

/-- The queue is in order while `r` is inside `process_run`. -/
def Domain.Ordered (r : Option ProcId) (d : Domain) : Prop := ∃ q, Scheduled r d.sched q

/-- Messages were put: the queue is still in order, and no put has become unsafe. -/
structure Puts (r : Option ProcId) (d d' : Domain) : Prop where
  ordered : d'.Ordered r
  safe : ∀ p, d.sched.SafePut p → d'.sched.SafePut p

theorem Quiet.sched (h : Quiet d d') : d'.sched = d.sched := by
  cases h <;> rfl

/-- `dispatch_msg_single` to a process that may be put to. -/
theorem dispatchMsgSingle_puts (ho : d.Ordered r) (h : dispatchMsgSingle p msg d = .ok d')
    (hs : d.sched.SafePut p) : Puts r d d' := by
  obtain ⟨process, hp, hcase⟩ := dispatchMsgSingle_cases h
  obtain ⟨q, hq⟩ := ho
  -- afterwards `p` may be put to again, its `last` being set, and the others as before
  have hsafe : ∀ s : Sched, s.process = Function.update d.process p
      (some { process with inbox := (process.inbox.put msg).2 }) →
      (∀ a, a ≠ p → d.sched.Ready a → s.Ready a) → ∀ a, d.sched.SafePut a → s.SafePut a := by
    intro s hproc hready a ha pr hpr hl
    rw [hproc] at hpr
    by_cases hap : a = p
    · subst hap
      obtain rfl : { process with inbox := (process.inbox.put msg).2 } = pr := by simpa using hpr
      rw [put_lastSet] at hl
      cases hl
    · rw [Function.update_of_ne hap] at hpr
      exact hready a hap (ha pr hpr hl)
  rcases hcase with ⟨hl, rfl⟩ | ⟨hl, b, busy, heads, hput, rfl⟩
  · have hwait : some p ≠ r → p ∈ q.items := by
      intro hr
      refine hq.waiting p process hp hr (fun he => ?_)
      rw [process.inbox.wf he] at hl
      cases hl
    exact ⟨⟨q, hq.setProcess hp (fun hr _ => hwait hr) (fun _ => Queue.whole_put _ _)
      (fun hm hr => hq.constructed p process hp hm hr)⟩,
      hsafe _ rfl (fun _ _ hready => hready)⟩
  · have hlive : (d.sched.process p).isSome := by
      rw [show d.sched.process p = _ from hp]
      rfl
    obtain ⟨b', root', heads', q', hput', hq', hitems, hlast, hkeep⟩ :=
      hq.enqueue hlive (hs process hp hl)
    obtain ⟨_, rfl, rfl⟩ : b' = b ∧ root' = busy ∧ heads' = heads := by
      simpa [show queuePut p d.sched.root d.sched.heads = _ from hput] using hput'.symm
    exact ⟨⟨q', hq'.setProcess hp (fun _ _ => by rw [hitems]; simp)
      (fun _ => Queue.whole_put _ _) (fun hm hr => hq.constructed p process hp hm hr)⟩,
      hsafe _ rfl (fun a ha hready => ⟨hkeep a ha hready.1, Or.inr hlast⟩)⟩

/-- A send whose targets may be put to. -/
theorem Sends.puts {T : List ProcId} (h : Sends T d d') (ho : d.Ordered r)
    (hs : ∀ p ∈ T, d.sched.SafePut p) : Puts r d d' := by
  induction h with
  | refl => exact ⟨ho, fun _ hp => hp⟩
  | quiet _ hq ih =>
      refine ⟨?_, fun p hp => ?_⟩
      · rw [Domain.Ordered, hq.sched]
        exact ih.ordered
      · rw [hq.sched]
        exact ih.safe p hp
  | single p msg _ hp hd ih =>
      have hput := dispatchMsgSingle_puts ih.ordered hd (ih.safe p (hs p hp))
      exact ⟨hput.ordered, fun a ha => hput.safe a (ih.safe a ha)⟩

/-! ## Acts -/

/-- A domain whose queue of busy processes is in order. -/
structure Busy (d : Domain) : Prop where
  gid : d.gid < maxDomains
  limit : d.poffToProcess.maxCounter = pidMaxCounter
  ordered : d.Ordered d.running

theorem busy_init {gid maxProcesses : Nat} (hgid : gid < maxDomains) :
    Busy (Domain.new gid maxProcesses) where
  gid := hgid
  limit := rfl
  ordered := by
    refine ⟨Queue.init, repr_init _, ?_, ?_, ?_, ?_, ?_, ?_, ?_⟩ <;>
      simp [Domain.sched, Domain.new]

theorem running_congr (h : d'.phase = d.phase) : d'.running = d.running := by
  rw [Domain.running, Domain.running, h]

theorem processNew_ordered {receiveCallback : Option Nat} {hungry : Bool} (ho : d.Ordered r)
    (h : processNew receiveCallback hungry d = .ok (p, d')) : d'.Ordered r ∧ d'.phase = d.phase := by
  obtain ⟨_, poff, umap, _, _, rfl⟩ := processNew_cases h
  obtain ⟨q, hq⟩ := ho
  exact ⟨⟨q, hq.spawn _ receiveCallback (fun _ hm => Or.inr hm)⟩, rfl⟩

/-- The process a constructor runs for is the new one. -/
theorem spawnConstructor_ordered (hgid : d.gid < maxDomains)
    (hlimit : d.poffToProcess.maxCounter = pidMaxCounter) (ho : d.Ordered r)
    (h : spawnConstructor d = .ok d') : d'.Ordered r ∧ d'.phase = d.phase := by
  obtain ⟨poff, umap, p, hadd, hpoff, hget, rfl⟩ := spawnConstructor_cases h
  obtain ⟨hlt, _, _, hnew⟩ := umapAdd_get hadd hpoff
  rw [hlimit] at hlt
  have hfield : pidToPoff (poffGidToPid poff d.gid) = poff :=
    pidToPoff_poffGidToPid (by unfold pidMaxCounter at hlt; omega)
      (by unfold maxDomains at hgid; omega)
  rw [hfield, hnew, Option.some.injEq] at hget
  subst hget
  obtain ⟨q, hq⟩ := ho
  exact ⟨⟨q, hq.spawn _ none (fun _ hm => List.mem_cons.mp hm)⟩, rfl⟩

/-- Whoever calls `msock_receive` is running, or has nothing set aside. -/
theorem msockReceive_ordered {receiveCallback : Option Nat} (ho : d.Ordered r) (hcur : p ∈ d.current)
    (h : msockReceive p receiveCallback d = .ok d') : d'.Ordered r ∧ d'.phase = d.phase := by
  obtain ⟨process, badmatch, inbox, hp, hsplice, rfl⟩ := msockReceive_cases h
  obtain ⟨q, hq⟩ := ho
  have hidle : some p ≠ r → inbox = process.inbox ∧ badmatch = process.badmatch := by
    intro hr
    have hempty := hq.constructed p process hp hcur hr
    simp only [Queue.splicePrepend, hempty, List.isEmpty_nil, if_true, Option.some.injEq,
      Prod.mk.injEq] at hsplice
    exact ⟨hsplice.2.symm, hsplice.1.symm⟩
  refine ⟨⟨q, hq.setProcess hp (fun hr hne => ?_) (fun hr => ?_) (fun hm hr => ?_)⟩, rfl⟩
  · rw [(hidle hr).1] at hne
    exact hq.waiting p process hp hr hne
  · rw [(hidle hr).1]
    exact hq.whole p process hp hr
  · rw [(hidle hr).2]
    exact hq.constructed p process hp hm hr

theorem processFree_ordered (ho : d.Ordered (some p)) (h : processFree p d = .ok d') :
    Domain.Ordered none { d' with current := [] } := by
  obtain ⟨process, umap, enqueued, busy, heads, hp, _, he, hdel, rfl⟩ := processFree_cases h
  obtain ⟨q, hq⟩ := ho
  obtain ⟨q', _, hq'⟩ := hq.remove (by rw [show d.sched.process p = _ from hp]; rfl) he hdel
  exact ⟨q', hq'⟩

theorem running_noteReceive (q : ProcId) (phase : Phase) (hp : d'.phase = phase.noteReceive q)
    (h : d.phase = phase) : d'.running = d.running := by
  cases phase <;> simp [Domain.running, Phase.running, hp, h, Phase.noteReceive]

/-- A call by the current process. -/
theorem called_ordered {call : Api} (hb : Busy d) (hs : safeAct d (env, .api call))
    (hphase : d.phase = .idle ∨ ∃ p msg received, d.phase = .callback p msg received)
    (h : Called env d call d') : d'.Ordered d'.running := by
  have ho := hb.ordered
  cases h with
  | send target msgType msgPayload msgPayloadSz _ h =>
      have hsend := sendIndirect_sends h
      exact running_congr hsend.frame.phase ▸ (hsend.puts ho hs).ordered
  | spawn receiveCallback p _ h =>
      obtain ⟨ho', hph⟩ := processNew_ordered ho h
      exact running_congr hph ▸ ho'
  | spawn2 _ h =>
      obtain ⟨ho', hph⟩ := spawnConstructor_ordered hb.gid hb.limit ho h
      exact running_congr hph ▸ ho'
  | constructed cur oldproc hcur _ =>
      obtain ⟨q, hq⟩ := ho
      exact ⟨q, hq.setCurrent (fun a ha => by
        show a ∈ d.current
        rw [hcur]
        exact List.mem_cons_of_mem _ ha)⟩
  | receive receiveCallback cur oldproc d₁ hcur h =>
      obtain ⟨ho', hph⟩ := msockReceive_ordered ho (by rw [hcur]; exact List.mem_cons_self) h
      have hrun : Domain.running { d₁ with phase := d₁.phase.noteReceive cur } = d₁.running :=
        running_noteReceive cur d₁.phase rfl rfl
      rw [hrun, running_congr hph]
      exact ho'
  | loopexit _ h =>
      have hsend := sendBroadcast_sends h
      exact running_congr hsend.frame.phase ▸ (hsend.puts ho hs).ordered
  | memoryCollect d₁ _ h =>
      have hsend := sendBroadcast_sends h
      have hrun : Domain.running { d₁ with phase := .flush 0 0 false d₁.phase.flushFrom }
          = d.running := by
        rcases hphase with hph | ⟨p, msg, received, hph⟩
        · simp [Domain.running, Phase.running, hsend.frame.phase, hph, Phase.flushFrom]
        · simp [Domain.running, Phase.running, hsend.frame.phase, hph, Phase.flushFrom]
      rw [hrun]
      exact (hsend.puts ho hs).ordered

theorem flushTake_sched (gid counter : Nat) (back : FlushFrom) (victim : Bool) (d : Domain) :
    (flushTake gid counter back victim d).sched = d.sched := by
  unfold flushTake
  split
  · rfl
  · split
    · rfl
    · split
      · rfl
      · rw [drainMessageQueue_eq]
        rfl

theorem flushTake_running {gid counter : Nat} {back : FlushFrom} {victim : Bool}
    (hphase : d.phase = .flush gid counter false back) :
    (flushTake gid counter back victim d).running = d.running := by
  have hold : d.running = (Phase.flush gid counter false back).running := by
    rw [Domain.running, hphase]
  rw [hold]
  unfold flushTake
  split
  · cases back <;> rfl
  · split
    · cases back <;> rfl
    · split
      · cases back <;> rfl
      · cases back <;> rfl

/-- The queue stays in order under every act that puts its messages safely. -/
theorem stepped_ordered {a : Act} (hb : Busy d) (hs : safeAct d (env, a))
    (h : Stepped env d a d') : d'.Ordered d'.running := by
  have ho := hb.ordered
  cases h with
  | arrive qr => exact ho
  | baseSend target msgType msgPayload msgPayloadSz d₁ hphase h =>
      rw [Domain.running, hphase] at ho
      exact ((sendIndirect_sends h).puts ho hs).ordered
  | baseSpawn receiveCallback hungry p _ h =>
      obtain ⟨ho', hph⟩ := processNew_ordered ho h
      exact running_congr hph ▸ ho'
  | baseSpawn2 _ h =>
      obtain ⟨ho', hph⟩ := spawnConstructor_ordered hb.gid hb.limit ho h
      exact running_congr hph ▸ ho'
  | api call hphase h => exact called_ordered hb hs hphase h
  | pick hphase _ =>
      rw [Domain.running, hphase] at ho
      exact ho
  | mark hphase =>
      rw [Domain.running, hphase] at ho
      exact ho
  | splice hphase =>
      rw [Domain.running, hphase] at ho
      exact ho
  | dispatchNone again counter hphase _ =>
      rw [Domain.running, hphase] at ho
      have hrun : Domain.running { d with
          phase := if again ∧ counter = 0 then .flush 0 0 false .domainRun else .queueRun }
          = none := by
        by_cases hc : again = true ∧ counter = 0 <;> simp [Domain.running, Phase.running, hc]
      rw [hrun]
      exact ho
  | dispatchOne again counter msg localInbox delivered d₁ hphase hget h =>
      rw [Domain.running, hphase] at ho
      have hsafe : ∀ p ∈ dispatchTargets msg.target msg.msgType d, d.sched.SafePut p := by
        intro p hp
        refine hs p ?_
        simp only [Act.targets, hget]
        exact hp
      exact ((dispatchMsgLocal_sends h).puts ho hsafe).ordered
  | queueNone busy heads hphase hget =>
      rw [Domain.running, hphase] at ho
      obtain ⟨q, hq⟩ := ho
      obtain ⟨_, rfl, rfl⟩ := hq.dequeue hget
      exact ⟨q, hq⟩
  | queueOne p busy heads hphase hget =>
      rw [Domain.running, hphase] at ho
      obtain ⟨q, hq⟩ := ho
      obtain ⟨q', _, hq'⟩ := hq.dequeue hget
      exact ⟨q', hq'⟩
  | inboxNone p process hphase hp hempty =>
      rw [Domain.running, hphase] at ho
      obtain ⟨q, hq⟩ := ho
      exact ⟨q, hq.stop hp hempty⟩
  | inboxOne p process msg inbox hphase hp _ _ =>
      rw [Domain.running, hphase] at ho
      obtain ⟨q, hq⟩ := ho
      exact ⟨q, hq.setProcess hp (fun hr => absurd rfl hr) (fun hr => absurd rfl hr)
        (fun _ hr => absurd rfl hr)⟩
  | retOk p msg received hphase _ =>
      rw [Domain.running, hphase] at ho
      exact ho
  | retBadmatch p msg received process hphase _ hp =>
      rw [Domain.running, hphase] at ho
      obtain ⟨q, hq⟩ := ho
      exact ⟨q, hq.setProcess hp (fun hr => absurd rfl hr) (fun hr => absurd rfl hr)
        (fun _ hr => absurd rfl hr)⟩
  | retExit p msg received d₁ hphase _ h =>
      rw [Domain.running, hphase] at ho
      have hfreed : Domain.Ordered (some p) (freeMessage msg (d.emit (.consumed p msg))) := ho
      exact processFree_ordered hfreed h
  | flushTake victim gid counter back hphase =>
      rw [flushTake_running hphase, Domain.Ordered, flushTake_sched]
      exact ho
  | flushWake dequeued gid counter back hphase =>
      have hrun : Domain.running { (if dequeued then d.emit (.woke gid) else d) with
          phase := .flush (gid + 1) (counter + 1) false back } = d.running := by
        simp only [Domain.running, hphase]
        cases back <;> rfl
      rw [hrun]
      cases dequeued
      · exact ho
      · exact ho
  | nextNested egress p hphase hnext h =>
      obtain ⟨process, d₁, hproc, hsend, rfl⟩ := sendQueueEmpty_cases h
      rw [Domain.running, hphase] at ho
      have hsafe : ∀ q ∈ sendTargets env.names process.pid msgQueueEmpty d,
          d.sched.SafePut q := by
        intro q hq
        refine hs q ?_
        simp only [Act.targets, hphase, hnext, Option.bind_some, hproc]
        exact hq
      exact ((sendIndirect_sends hsend).puts ho hsafe).ordered
  | nextDone egress cursor hphase =>
      rw [Domain.running, hphase] at ho
      exact ho
  | retire hphase _ =>
      rw [Domain.running, hphase] at ho
      exact ho
  | requeue hphase _ =>
      rw [Domain.running, hphase] at ho
      exact ho

theorem busy_step {a : Env × Act} (hb : Busy d) (hs : safeAct d a) (h : d.act a = .ok d') :
    Busy d' := by
  obtain ⟨hgid, hlimit⟩ := rosterStep_limits (act_roster h)
  refine ⟨?_, hlimit.trans hb.limit, stepped_ordered hb hs (step_cases h)⟩
  rw [show d'.gid = d.gid from hgid]
  exact hb.gid

theorem busy_reachable {gid maxProcesses : Nat} (hgid : gid < maxDomains)
    (hr : Runs Domain.act safeAct (Domain.new gid maxProcesses) d) : Busy d :=
  hr.invariant (fun _ _ _ hb hs h => busy_step hb hs h) (busy_init hgid)

/-- When `process_queue_run` finds the queue empty, every inbox is empty. -/
theorem Busy.drained {process : Process} (hb : Busy d) (hphase : d.phase = .queueRun)
    (h : d.act (env, .nextProcess) = .ok d') (hnone : d'.phase = .dispatching true 0)
    (hp : d'.process p = some process) : process.inbox.items = [] := by
  obtain ⟨q, hq⟩ := hb.ordered
  rw [Domain.running, hphase] at hq
  have hs : Stepped env d .nextProcess d' := step_cases h
  cases hs with
  | queueNone busy heads _ hget =>
      obtain ⟨hempty, _, _⟩ := hq.dequeue hget
      by_contra hne
      have hmem := hq.waiting p process hp (by simp [Phase.running]) hne
      rw [hempty] at hmem
      cases hmem
  | queueOne _ _ _ _ _ => cases hnone

/--
**The scheduling invariant.** In every run whose messages are all put safely, the queue
of busy processes is a NULL-terminated list without repetition, every process with an
unread message is in it, the running one apart, and `process_queue_run` leaves no
unread message behind.
-/
theorem busy_queue_in_order {gid maxProcesses : Nat} (hgid : gid < maxDomains)
    (hr : Runs Domain.act safeAct (Domain.new gid maxProcesses) d) :
    (∃ ps : List ProcId, Chain d.inBusyQueue d.queueOfBusyProcesses.first ps ∧ ps.Nodup ∧
      ∀ p process, d.process p = some process → d.running ≠ some p →
        process.inbox.items ≠ [] → p ∈ ps) ∧
    ∀ env d', d.phase = .queueRun → d.act (env, .nextProcess) = .ok d' →
      d'.phase = .dispatching true 0 →
      ∀ p process, d'.process p = some process → process.inbox.items = [] := by
  have hb := busy_reachable hgid hr
  constructor
  · obtain ⟨q, hq⟩ := hb.ordered
    refine ⟨q.items, hq.repr.chain, hq.repr.nodup, fun p process hp hrun hne => ?_⟩
    exact hq.waiting p process hp (fun he => hrun he.symm) hne
  · intro env d' hphase h hnone p process hp
    exact hb.drained hphase h hnone hp

/-- A process is spawned and sent a message from outside; its callback is then called. -/
def firstMessageActs (target : Pid) : List (Env × Act) :=
  [.baseSpawn (some 0) false, .baseSend target 5 [] 0, .flushTake false, .flushTake false,
    .flushTake false, .flushTake false, .flushTake false, .flushTake false, .pick, .mark,
    .splice, .dispatch, .nextProcess, .nextMessage].map (Prod.mk ⟨fun _ => 0, [1]⟩)

/-- The running process sends to itself, and its next message is taken. -/
def selfSendActs (target : Pid) : List (Env × Act) :=
  [.api (.send target 5 [] 0), .ret .ok, .nextMessage].map (Prod.mk ⟨fun _ => 0, [1]⟩)

/-- One message sent to itself at a time is put safely once, and the run ends in order. -/
theorem busy_queue_in_order_self_send : ∃ d : Domain, d.phase = .queueRun ∧
    ∃ ps : List ProcId, Chain d.inBusyQueue d.queueOfBusyProcesses.first ps ∧ ps.Nodup ∧
      ∀ p process, d.process p = some process → d.running ≠ some p →
        process.inbox.items ≠ [] → p ∈ ps := by
  have hgid : 1 < maxDomains := by decide
  obtain ⟨d, hr, hp⟩ := exists_run (show (runActs Domain.act safeAct
      (firstMessageActs (poffGidToPid 4 1) ++ selfSendActs (poffGidToPid 4 1) ++
        [(⟨fun _ => 0, [1]⟩, .ret .ok), (⟨fun _ => 0, [1]⟩, .nextMessage)])
      (Domain.new 1 4)).any (fun d => d.phase = .queueRun) = true by decide +kernel)
  exact ⟨d, of_decide_eq_true hp, (busy_queue_in_order hgid hr).1⟩

/--
A process that sends to itself, takes that message and sends to itself again is put on
the queue while it is still there: its head then leads to itself, and the queue has no end.
-/
theorem busy_queue_without_end : ∃ d, Runs Domain.act anyAct (Domain.new 1 4) d ∧
    ¬ ∃ ps, Chain d.inBusyQueue d.queueOfBusyProcesses.first ps := by
  obtain ⟨d, hr, hp⟩ := exists_run (show (runActs Domain.act anyAct
      (firstMessageActs (poffGidToPid 4 1) ++ selfSendActs (poffGidToPid 4 1) ++
        selfSendActs (poffGidToPid 4 1)) (Domain.new 1 4)).any
      (fun d => d.queueOfBusyProcesses.first = .node 0 ∧ d.inBusyQueue 0 = some (.node 0)) = true
      by decide +kernel)
  obtain ⟨hfirst, hhead⟩ := of_decide_eq_true hp
  refine ⟨d, hr, fun ⟨ps, hc⟩ => ?_⟩
  rw [hfirst] at hc
  cases ps with
  | nil => cases hc
  | cons p ps =>
      obtain ⟨hp0, next, hnext, hrest⟩ := hc
      cases hp0
      rw [hhead, Option.some.injEq] at hnext
      subst hnext
      have hsame : 0 :: ps = ps := Chain.det ⟨rfl, _, hhead, hrest⟩ hrest
      have := congrArg List.length hsame
      simp at this

end Msock
