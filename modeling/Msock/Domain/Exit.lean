import Msock.Domain.Busy
import Msock.Domain.Hungry
import Msock.Domain.Receive

/-!
# The exit of a process

What `process_free` leaves behind when a callback returns `RECV_EXIT`: the process is in
none of the domain's structures, its messages went back once each, nobody else was
touched, and the queue of busy processes is the old one without it.

The rest is about what comes later. A process that is gone takes no part in any run. And
a process that was queued stays queued until it runs, as long as messages are put
safely: an exit of the last member of the queue loses `last`, and a put that is made
then drops the others, which is what a safe put excludes.
-/

namespace Msock

open Lib

variable {d d' : Domain} {p q : ProcId} {msg : Message} {env : Env} {r : Option ProcId}

/-! ## The queue of busy processes, as a list -/

/-- The processes one meets from the head of `queue_of_busy_processes`. -/
def Domain.Queued (d : Domain) (ps : List ProcId) : Prop :=
  Chain d.inBusyQueue d.queueOfBusyProcesses.first ps

/-- The process is on the queue. -/
def Domain.Waiting (d : Domain) (q : ProcId) : Prop := ∃ ps, d.Queued ps ∧ q ∈ ps

theorem Domain.Waiting.congr (hw : d.Waiting q) (hs : d'.sched.root = d.sched.root)
    (hh : d'.sched.heads = d.sched.heads) : d'.Waiting q := by
  obtain ⟨ps, hq, hm⟩ := hw
  refine ⟨ps, ?_, hm⟩
  unfold Domain.Queued at hq ⊢
  rw [show d'.inBusyQueue = d.inBusyQueue from hh,
    show d'.queueOfBusyProcesses = d.queueOfBusyProcesses from hs]
  exact hq

/-- The queue of an ordered domain is the one that waits in it. -/
theorem Scheduled.waiting_iff {qu : Queue ProcId} (h : Scheduled r d.sched qu) :
    d.Waiting q ↔ q ∈ qu.items := by
  constructor
  · rintro ⟨ps, hq, hm⟩
    rwa [← Chain.det hq h.repr.chain]
  · exact fun hm => ⟨qu.items, h.repr.chain, hm⟩

theorem Quiet.waiting (h : Quiet d d') (hw : d.Waiting q) : d'.Waiting q := by
  have hs := h.sched
  exact hw.congr (congrArg Sched.root hs) (congrArg Sched.heads hs)

/-- A message that is put safely takes nobody off the queue. -/
theorem dispatchMsgSingle_waiting (ho : d.Ordered r) (h : dispatchMsgSingle p msg d = .ok d')
    (hs : d.sched.SafePut p) (hw : d.Waiting q) : d'.Waiting q := by
  obtain ⟨process, hp, hcase⟩ := dispatchMsgSingle_cases h
  rcases hcase with ⟨_, rfl⟩ | ⟨hl, b, busy, heads, hput, rfl⟩
  · exact hw.congr rfl rfl
  · obtain ⟨qu, hq⟩ := ho
    have hlive : (d.sched.process p).isSome := by
      rw [show d.sched.process p = _ from hp]
      rfl
    obtain ⟨b', root', heads', q', hput', hq', hitems, _, _⟩ :=
      hq.enqueue hlive (hs process hp hl)
    obtain ⟨_, rfl, rfl⟩ : b' = b ∧ root' = busy ∧ heads' = heads := by
      simpa [show queuePut p d.sched.root d.sched.heads = _ from hput] using hput'.symm
    refine ⟨q'.items, hq'.repr.chain, ?_⟩
    rw [hitems]
    exact List.mem_append_left _ (hq.waiting_iff.mp hw)

theorem Sends.waiting {T : List ProcId} (h : Sends T d d') (ho : d.Ordered r)
    (hs : ∀ p ∈ T, d.sched.SafePut p) (hw : d.Waiting q) : d'.Waiting q := by
  induction h with
  | refl => exact hw
  | quiet _ hq ih => exact hq.waiting ih
  | single p msg hsends hp hd ih =>
      have hputs := hsends.puts ho hs
      exact dispatchMsgSingle_waiting hputs.ordered hd (hputs.safe p (hs p hp)) ih

/-- A new process is on no queue. -/
theorem addProcess_waiting (ho : d.Ordered r) (poff : Nat) (umap : UmapRoot ProcId)
    (receiveCallback : Option Nat) (hungry : Bool) (hw : d.Waiting q) :
    (d.addProcess poff umap receiveCallback hungry).Waiting q := by
  obtain ⟨qu, hq⟩ := ho
  have hspawn : Scheduled r (d.addProcess poff umap receiveCallback hungry).sched qu :=
    hq.spawn _ receiveCallback (fun _ hm => Or.inr hm)
  exact ⟨qu.items, hspawn.repr.chain, hq.waiting_iff.mp hw⟩

theorem called_waiting {call : Api} (ho : d.Ordered r) (hs : safeAct d (env, .api call))
    (h : Called env d call d') (hw : d.Waiting q) : d'.Waiting q := by
  cases h with
  | send target msgType msgPayload msgPayloadSz _ h => exact (sendIndirect_sends h).waiting ho hs hw
  | spawn receiveCallback p _ h =>
      obtain ⟨_, poff, umap, _, _, rfl⟩ := processNew_cases h
      exact addProcess_waiting ho poff umap receiveCallback false hw
  | spawn2 _ h =>
      obtain ⟨poff, umap, p, _, _, _, rfl⟩ := spawnConstructor_cases h
      exact (addProcess_waiting ho poff umap none false hw).congr rfl rfl
  | constructed cur oldproc _ _ => exact hw.congr rfl rfl
  | receive receiveCallback cur oldproc d₁ _ h =>
      obtain ⟨process, badmatch, inbox, _, _, rfl⟩ := msockReceive_cases h
      exact hw.congr rfl rfl
  | loopexit _ h => exact (sendBroadcast_sends h).waiting ho hs hw
  | memoryCollect d₁ _ h =>
      exact ((sendBroadcast_sends h).waiting ho hs hw).congr rfl rfl

/-- **A queued process stays queued until it runs.** -/
theorem stepped_waiting {a : Act} (hb : Busy d) (hs : safeAct d (env, a)) (h : Stepped env d a d')
    (hw : d.Waiting q) : d'.Waiting q ∨ d.running = some q ∨ d'.running = some q := by
  have ho := hb.ordered
  cases h with
  | arrive qr => exact Or.inl (hw.congr rfl rfl)
  | baseSend target msgType msgPayload msgPayloadSz d₁ _ h =>
      exact Or.inl (((sendIndirect_sends h).waiting ho hs hw).congr rfl rfl)
  | baseSpawn receiveCallback hungry p _ h =>
      obtain ⟨_, poff, umap, _, _, rfl⟩ := processNew_cases h
      exact Or.inl (addProcess_waiting ho poff umap receiveCallback hungry hw)
  | baseSpawn2 _ h =>
      obtain ⟨poff, umap, p, _, _, _, rfl⟩ := spawnConstructor_cases h
      exact Or.inl ((addProcess_waiting ho poff umap none false hw).congr rfl rfl)
  | api call _ h => exact Or.inl (called_waiting ho hs h hw)
  | pick | mark | splice | dispatchNone | inboxNone | retOk | retire | requeue | nextDone =>
      exact Or.inl (hw.congr rfl rfl)
  | dispatchOne again counter msg localInbox delivered d₁ hphase hget h =>
      have hsafe : ∀ p ∈ dispatchTargets msg.target msg.msgType d, d.sched.SafePut p := by
        intro p hp
        refine hs p ?_
        simp only [Act.targets, hget]
        exact hp
      have hw' : Domain.Waiting { d with localInbox := localInbox } q := hw.congr rfl rfl
      exact Or.inl (((dispatchMsgLocal_sends h).waiting ho hsafe hw').congr rfl rfl)
  | queueNone busy heads hphase hget =>
      rw [Domain.running, hphase] at ho
      obtain ⟨qu, hq⟩ := ho
      obtain ⟨_, rfl, rfl⟩ := hq.dequeue hget
      exact Or.inl (hw.congr rfl rfl)
  | queueOne p busy heads hphase hget =>
      -- the first of the queue runs, the others stay on it
      rw [Domain.running, hphase] at ho
      obtain ⟨qu, hq⟩ := ho
      by_cases hqp : q = p
      · rw [hqp]
        exact Or.inr (Or.inr rfl)
      · obtain ⟨q', hitems, hq'⟩ := hq.dequeue hget
        have hmem := hq.waiting_iff.mp hw
        rw [hitems] at hmem
        refine Or.inl ⟨q'.items, hq'.repr.chain, ?_⟩
        exact (List.mem_cons.mp hmem).resolve_left hqp
  | inboxOne p process msg inbox _ _ _ _ => exact Or.inl (hw.congr rfl rfl)
  | retBadmatch p msg received process _ _ _ => exact Or.inl (hw.congr rfl rfl)
  | retExit p msg received d₁ hphase _ h =>
      by_cases hqp : q = p
      · refine Or.inr (Or.inl ?_)
        rw [Domain.running, hphase, hqp]
        rfl
      · rw [Domain.running, hphase] at ho
        obtain ⟨qu, hq⟩ := ho
        obtain ⟨process, umap, enqueued, busy, heads, hp, _, he, hdel, rfl⟩ := processFree_cases h
        obtain ⟨q', hitems, hq'⟩ :=
          hq.remove (by rw [show d.sched.process p = _ from hp]; rfl) he hdel
        refine Or.inl ⟨q'.items, hq'.repr.chain, ?_⟩
        rw [hitems]
        exact (List.mem_erase_of_ne hqp).mpr (hq.waiting_iff.mp hw)
  | flushTake victim gid counter back _ =>
      have hsch := flushTake_sched gid counter back victim d
      exact Or.inl (hw.congr (congrArg Sched.root hsch) (congrArg Sched.heads hsch))
  | flushWake dequeued gid counter back _ =>
      cases dequeued
      · exact Or.inl (hw.congr rfl rfl)
      · exact Or.inl (hw.congr rfl rfl)
  | nextNested egress p hphase hnext h =>
      obtain ⟨process, d₁, hproc, hsend, rfl⟩ := sendQueueEmpty_cases h
      have hsafe : ∀ q ∈ sendTargets env.names process.pid msgQueueEmpty d,
          d.sched.SafePut q := by
        intro q hq
        refine hs q ?_
        simp only [Act.targets, hphase, hnext, Option.bind_some, hproc]
        exact hq
      exact Or.inl (((sendIndirect_sends hsend).waiting ho hsafe hw).congr rfl rfl)

/-- On a safe run a queued process is run, or is queued still. -/
theorem runs_waiting (hb : Busy d) (hw : d.Waiting q) (hr : Runs Domain.act safeAct d d') :
    d'.Waiting q ∨ ∃ e, Runs Domain.act safeAct d e ∧ Runs Domain.act safeAct e d' ∧
      e.running = some q := by
  induction hr with
  | refl => exact Or.inl hw
  | @tail t t' hr hs ih =>
      obtain ⟨a, hok, hact⟩ := hs
      rcases ih with hwait | ⟨e, he, het, hrun⟩
      · have hbt : Busy t := Runs.invariant hr (fun _ _ _ hb hs h => busy_step hb hs h) hb
        rcases stepped_waiting hbt hok (step_cases hact) hwait with h | h | h
        · exact Or.inl h
        · exact Or.inr ⟨t, hr, Runs.single hok hact, h⟩
        · exact Or.inr ⟨t', hr.trans (Runs.single hok hact), .refl, h⟩
      · exact Or.inr ⟨e, he, het.trans (Runs.single hok hact), hrun⟩

/-! ## The running process is alive -/

/-- Who is inside `process_run` is in memory. -/
def RunningLive (d : Domain) : Prop := ∀ p, d.running = some p → (d.process p).isSome

theorem isSome_of_roster (h : d'.roster = d.roster) (p : ProcId) :
    (d'.process p).isSome = (d.process p).isSome := by
  have hp := congrFun (congrArg Roster.pid h) p
  have := congrArg Option.isSome hp
  simpa [Domain.roster] using this

theorem RunningLive.congr (hl : RunningLive d) (hroster : d'.roster = d.roster)
    (hrun : d'.running = d.running) : RunningLive d' := by
  intro p hp
  rw [isSome_of_roster hroster]
  exact hl p (hrun ▸ hp)

theorem addProcess_live (hl : RunningLive d) (poff : Nat) (umap : UmapRoot ProcId)
    (receiveCallback : Option Nat) (hungry : Bool) :
    RunningLive (d.addProcess poff umap receiveCallback hungry) := by
  intro p hp
  by_cases hpn : p = d.nextProc
  · subst hpn
    simp [Domain.addProcess]
  · simp only [Domain.addProcess, Function.update_of_ne hpn]
    exact hl p hp

theorem called_live {call : Api} (hl : RunningLive d)
    (hphase : d.phase = .idle ∨ ∃ p msg received, d.phase = .callback p msg received)
    (h : Called env d call d') : RunningLive d' := by
  cases h with
  | send target msgType msgPayload msgPayloadSz _ h =>
      have hs := sendIndirect_sends h
      exact hl.congr hs.roster (running_congr hs.frame.phase)
  | spawn receiveCallback p _ h =>
      obtain ⟨_, poff, umap, _, _, rfl⟩ := processNew_cases h
      exact addProcess_live hl poff umap receiveCallback false
  | spawn2 _ h =>
      obtain ⟨poff, umap, p, _, _, _, rfl⟩ := spawnConstructor_cases h
      exact addProcess_live hl poff umap none false
  | constructed cur oldproc _ _ => exact hl
  | receive receiveCallback cur oldproc d₁ _ h =>
      have hroster := msockReceive_roster h
      obtain ⟨process, badmatch, inbox, _, _, rfl⟩ := msockReceive_cases h
      exact hl.congr hroster (running_noteReceive cur d.phase rfl rfl)
  | loopexit _ h =>
      have hs := sendBroadcast_sends h
      exact hl.congr hs.roster (running_congr hs.frame.phase)
  | memoryCollect d₁ _ h =>
      have hs := sendBroadcast_sends h
      refine hl.congr hs.roster ?_
      rcases hphase with hph | ⟨p, msg, received, hph⟩
      · simp [Domain.running, Phase.running, hs.frame.phase, hph, Phase.flushFrom]
      · simp [Domain.running, Phase.running, hs.frame.phase, hph, Phase.flushFrom]

theorem stepped_live {a : Act} (hb : Busy d) (hl : RunningLive d) (h : Stepped env d a d') :
    RunningLive d' := by
  cases h with
  | arrive qr => exact hl
  | baseSend | pick | mark | splice | queueNone | inboxNone | retExit | nextDone | retire
    | requeue => exact fun p hp => by cases hp
  | baseSpawn receiveCallback hungry p _ h =>
      obtain ⟨_, poff, umap, _, _, rfl⟩ := processNew_cases h
      exact addProcess_live hl poff umap receiveCallback hungry
  | baseSpawn2 _ h =>
      obtain ⟨poff, umap, p, _, _, _, rfl⟩ := spawnConstructor_cases h
      exact addProcess_live hl poff umap none false
  | api call hphase h => exact called_live hl hphase h
  | dispatchNone again counter hphase _ =>
      intro p hp
      by_cases hc : again = true ∧ counter = 0 <;> simp [Domain.running, Phase.running, hc] at hp
  | dispatchOne => exact fun p hp => by cases hp
  | queueOne p busy heads hphase hget =>
      intro q hq
      obtain rfl : p = q := Option.some.inj hq
      have ho := hb.ordered
      rw [Domain.running, hphase] at ho
      obtain ⟨qu, hqu⟩ := ho
      obtain ⟨q', hitems, _⟩ := hqu.dequeue hget
      exact hqu.live_of_mem (by rw [hitems]; exact List.mem_cons_self)
  | inboxOne p process msg inbox hphase hp _ _ =>
      refine hl.congr (roster_setProcess { process with inbox := inbox } hp rfl :) ?_
      rw [Domain.running, Domain.running, hphase]
      rfl
  | retOk p msg received hphase _ =>
      refine hl.congr rfl ?_
      rw [Domain.running, Domain.running, hphase]
      rfl
  | retBadmatch p msg received process hphase _ hp =>
      refine hl.congr
        (roster_setProcess { process with badmatch := (process.badmatch.put msg).2 } hp rfl :) ?_
      rw [Domain.running, Domain.running, hphase]
      rfl
  | flushTake victim gid counter back hphase =>
      exact hl.congr (flushTake_roster gid counter back victim d) (flushTake_running hphase)
  | flushWake dequeued gid counter back hphase =>
      have hrun : Domain.running { (if dequeued then d.emit (.woke gid) else d) with
          phase := .flush (gid + 1) (counter + 1) false back } = d.running := by
        simp only [Domain.running, hphase]
        cases back <;> rfl
      cases dequeued
      · exact hl.congr rfl hrun
      · exact hl.congr rfl hrun
  | nextNested egress p _ _ h =>
      obtain ⟨process, d₁, _, _, rfl⟩ := sendQueueEmpty_cases h
      exact fun p hp => by cases hp

/-! ## The exit -/

/-- `d'` is `d` after `p`, handling `msg`, has exited. -/
structure Exited (p : ProcId) (msg : Message) (process : Process) (d d' : Domain) : Prop where
  /-- The process is in none of the structures of the domain. -/
  gone : d'.process p = none
  number : ∀ no, umapGet d'.poffToProcess no ≠ some p
  listed : p ∉ d'.listOfProcesses
  hungry : p ∉ d'.listOfHungryProcesses
  off : ¬ d'.Waiting p
  /-- The message it handled, its inbox and its badmatch queue went back, each message once. -/
  freed : d'.trace = d.trace ++ [.consumed p msg, .free msg.id]
    ++ process.inbox.items.map (fun m => .free m.id)
    ++ process.badmatch.items.map (fun m => .free m.id) ++ [.freeProcess p, .exited p]
  /-- Every other process keeps its messages. -/
  others : ∀ q, q ≠ p → d'.process q = d.process q
  /-- The queue of busy processes keeps the order of the others. -/
  queue : ∀ ps, d.Queued ps → d'.Queued (ps.erase p)

/-- **`process_free` goes through, and its effect is local.** -/
theorem exit_act {received : Bool} (hb : Busy d) (hl : RunningLive d) (hrouted : Routed d.roster)
    (hsub : d.listOfHungryProcesses.Sublist d.listOfProcesses)
    (hphase : d.phase = .callback p msg received) (hcur : d.current = [p]) (env : Env) :
    ∃ process d', d.process p = some process ∧ d.act (env, .ret .exit) = .ok d' ∧
      Exited p msg process d d' ∧ d'.phase = .queueRun := by
  have hrun : d.running = some p := by rw [Domain.running, hphase]; rfl
  obtain ⟨process, hp⟩ := Option.isSome_iff_exists.mp (hl p hrun)
  obtain ⟨qu, hq⟩ := hb.ordered
  rw [hrun] at hq
  have hlive : (d.sched.process p).isSome := by rw [show d.sched.process p = _ from hp]; rfl
  obtain ⟨enqueued, busy, heads, q', he, hdel, _⟩ := hq.busyDel hlive
  obtain ⟨d₁, hd₁⟩ : ∃ d₁, d₁ = freeMessage msg (d.emit (.consumed p msg)) := ⟨_, rfl⟩
  -- the deletion from the queue does not fault, so neither does the exit
  have hbusy : busyDel p d₁ = .ok (busy, heads) := by
    have he₁ : queueIsEnqueued d₁.inBusyQueue p = some enqueued := by rw [hd₁]; exact he
    unfold busyDel
    rw [he₁]
    rcases hdel with ⟨rfl, hrun'⟩ | ⟨rfl, rfl, rfl⟩
    · have hrun₁ : queueSlowDel (d₁.listOfProcesses.length + 1) p d₁.queueOfBusyProcesses
          d₁.inBusyQueue = some (busy, heads) := by rw [hd₁]; exact hrun'
      simp only [access, bind, Except.bind, if_true, hrun₁]
    · rw [hd₁]
      rfl
  -- nor does the deletion of the number, which is a living one
  obtain ⟨umap, humap, -⟩ := hrouted.umap.del (hrouted.pid_fields (Domain.roster_pid hp)).2.2
  have hfree : processFree p d₁ = .ok (d₁.removeProcess p process umap busy heads) := by
    have hp₁ : d₁.process p = some process := by rw [hd₁]; exact hp
    have humap₁ : umapDel d₁.poffToProcess (pidToPoff process.pid) = some umap := by
      rw [hd₁]; exact humap
    simp only [processFree, hp₁, humap₁, access, hbusy, bind, Except.bind, drainMessageQueue_eq]
    simp [pure, Except.pure, Domain.emit, Domain.removeProcess]
  have hact : d.act (env, .ret .exit) = .ok
      { d₁.removeProcess p process umap busy heads with phase := .queueRun, current := [] } := by
    rw [hd₁] at hfree ⊢
    simp only [Domain.act, Domain.step, hphase, hcur, if_true, recvReturn, hfree, bind, Except.bind]
    rfl
  obtain ⟨q'', hitems, hq''⟩ := hq.remove hlive he hdel
  have hrouted' := routed_step hrouted (act_roster hact)
  subst hd₁
  refine ⟨process, _, hp, hact, ?_, rfl⟩
  have hnone : ({ (freeMessage msg (d.emit (.consumed p msg))).removeProcess p process umap busy heads
      with phase := .queueRun, current := [] } : Domain).process p = none :=
    Function.update_self ..
  have hnodup : d.listOfProcesses.Nodup := hrouted.nodup
  refine ⟨hnone, fun no hno => ?_, ?_, ?_, fun hw => ?_, ?_, fun q hqp => ?_, fun ps hps => ?_⟩
  · have hpid := hrouted'.answers no p hno
    have hnopid := congrArg (Option.map Process.pid) hnone
    exact absurd (hnopid.symm.trans hpid) (by simp)
  · exact hnodup.not_mem_erase
  · exact (hnodup.sublist hsub).not_mem_erase
  · have hmem := hq''.waiting_iff (d := { (freeMessage msg (d.emit (.consumed p msg))).removeProcess
      p process umap busy heads with phase := .queueRun, current := [] }) |>.mp hw
    rw [hitems] at hmem
    exact hq.repr.nodup.not_mem_erase hmem
  · simp [Domain.removeProcess, freeMessage, Domain.emit]
  · exact Function.update_of_ne hqp _ _
  · rw [Chain.det hps hq.repr.chain, ← hitems]
    exact hq''.repr.chain

/-- A process that is gone is not presented another message, in any run. -/
theorem presented_of_gone (hnone : d.process p = none) (hnew : p < d.nextProc)
    (hhandling : d.phase.handling p = none) (hr : Runs Domain.act anyAct d d') :
    (d'.mailbox p).presented = (d.mailbox p).presented := by
  have hdead : ∀ t t' : Domain, t.mailbox p = d.mailbox p →
      (∃ a, t.act a = .ok t') → t'.mailbox p = d.mailbox p := by
    rintro t t' ht ⟨⟨env, a⟩, hact⟩
    have hproc : t.process p = none := (congrArg Mailbox.process ht).trans hnone
    have hhold : t.phase.handling p = none := (congrArg Mailbox.handling ht).trans hhandling
    have hmoves := stepped_moves (p := p) (step_cases hact)
      (fun _ process hp => by rw [hproc] at hp; cases hp)
      (fun _ h hh => by rw [hhold] at hh; cases hh)
    rw [ht] at hmoves
    -- no move starts from the mailbox of a process that is gone
    have hstuck : ∀ m, Moves (a.receives p t) (d.mailbox p) m → m = d.mailbox p := by
      intro m hm
      induction hm with
      | refl => rfl
      | tail _ hmove ih =>
          subst ih
          cases hmove with
          | spawn pid cb hborn =>
              have : ¬ d.nextProc ≤ p := not_le.mpr hnew
              simp [Domain.mailbox, this] at hborn
          | put process msg hp _ => rw [show (d.mailbox p).process = _ from hnone] at hp; cases hp
          | present process msg inbox hp _ _ =>
              rw [show (d.mailbox p).process = _ from hnone] at hp; cases hp
          | consume msg received hh =>
              rw [show (d.mailbox p).handling = _ from hhandling] at hh; cases hh
          | setAside process msg hp _ =>
              rw [show (d.mailbox p).process = _ from hnone] at hp; cases hp
          | receive process badmatch inbox cb _ hp _ =>
              rw [show (d.mailbox p).process = _ from hnone] at hp; cases hp
          | exit process hp => rw [show (d.mailbox p).process = _ from hnone] at hp; cases hp
    exact hstuck _ hmoves
  have hsame : d'.mailbox p = d.mailbox p :=
    hr.invariant (I := fun t => t.mailbox p = d.mailbox p)
      (fun a t t' ht _ hact => hdead t t' ht ⟨a, hact⟩) rfl
  rw [hsame]

/--
**A process exits cleanly, and alone.** In every run whose messages are all put safely, a
`RECV_EXIT` goes through and takes the process, and nothing else, out of the domain; its
callback is not called again in any run; and whoever is queued afterwards stays queued
until it is run, so `process_queue_run` runs it before it returns.
-/
theorem process_exit_is_clean {gid maxProcesses : Nat} {received : Bool} (hpos : 0 < gid)
    (hgid : gid < maxDomains) (h0 : 0 < maxProcesses) (hsz : maxProcesses < 2 ^ 31)
    (hr : Runs Domain.act safeAct (Domain.new gid maxProcesses) d)
    (hphase : d.phase = .callback p msg received) (hcur : d.current = [p]) (env : Env) :
    ∃ process d', d.process p = some process ∧ d.act (env, .ret .exit) = .ok d' ∧
      Exited p msg process d d' ∧
      (∀ d₁, Runs Domain.act anyAct d' d₁ →
        (d₁.mailbox p).presented = (d'.mailbox p).presented) ∧
      ∀ q, d'.Waiting q → ∀ d₁, Runs Domain.act safeAct d' d₁ →
        (d₁.Waiting q ∨ ∃ e, Runs Domain.act safeAct d' e ∧ Runs Domain.act safeAct e d₁ ∧
          e.running = some q) ∧
        ∀ env' d₂, d₁.phase = .queueRun → d₁.act (env', .nextProcess) = .ok d₂ →
          d₂.phase = .dispatching true 0 →
          ∃ e, Runs Domain.act safeAct d' e ∧ Runs Domain.act safeAct e d₁ ∧
            e.running = some q := by
  have hb := busy_reachable hgid hr
  have hrouted := routed_reachable (routed_new hpos hgid h0 hsz) (hr.weaken (fun _ _ _ => trivial))
  have hl : RunningLive d := by
    have hboth : Busy d ∧ RunningLive d :=
      hr.invariant (I := fun d => Busy d ∧ RunningLive d)
        (fun _ _ _ hi hok h => ⟨busy_step hi.1 hok h, stepped_live hi.1 hi.2 (step_cases h)⟩)
        ⟨busy_init hgid, fun p hp => by cases hp⟩
    exact hboth.2
  obtain ⟨process, d', hp, hact, hex, hphase'⟩ :=
    exit_act hb hl hrouted (hungry_sublist hr) hphase hcur env
  have hb' : Busy d' := busy_step hb (fun q hq => absurd hq List.not_mem_nil) hact
  refine ⟨process, d', hp, hact, hex, fun d₁ hr₁ => ?_, fun q hw d₁ hr₁ => ⟨?_, ?_⟩⟩
  · have hfresh : p < d'.nextProc :=
      Nat.lt_of_lt_of_le (hrouted.fresh p process.pid (Domain.roster_pid hp))
        (rosterStep_nextProc (act_roster hact))
    exact presented_of_gone hex.gone hfresh (by rw [hphase']; rfl) hr₁
  · exact runs_waiting hb' hw hr₁
  · intro env' d₂ hphase₁ hact₁ hdone
    rcases runs_waiting hb' hw hr₁ with hwait | hran
    · -- the queue was found empty
      have hb₁ : Busy d₁ := hr₁.invariant (fun _ _ _ hb hs h => busy_step hb hs h) hb'
      obtain ⟨qu, hq⟩ := hb₁.ordered
      rw [Domain.running, hphase₁] at hq
      have hs : Stepped env' d₁ .nextProcess d₂ := step_cases hact₁
      cases hs with
      | queueNone busy heads _ hget =>
          obtain ⟨hempty, _, _⟩ := hq.dequeue hget
          have hmem := hq.waiting_iff.mp hwait
          rw [hempty] at hmem
          cases hmem
      | queueOne _ _ _ _ _ => cases hdone
    · exact hran

/-- `n` processes are spawned, each is sent a message, and the first one's callback is called. -/
def queuedActs (n : Nat) : List (Env × Act) :=
  (List.replicate n (Act.baseSpawn (some 0) false) ++
    (List.range n).flatMap (fun i => Act.baseSend (poffGidToPid (4 + i) 1) 5 [] 0 ::
      List.replicate 6 (Act.flushTake false)) ++
    ([.pick, .mark, .splice, .dispatch, .nextProcess, .nextMessage] : List Act)).map
      (Prod.mk ⟨fun _ => 0, [1]⟩)

/--
Of two processes the first is sent two messages and the second one. The first sets one
aside and, handling the other, sends to itself.
-/
def exitQueuedActs : List (Env × Act) :=
  (List.replicate 2 (Act.baseSpawn (some 0) false) ++
    [poffGidToPid 4 1, poffGidToPid 4 1, poffGidToPid 5 1].flatMap (fun target =>
      Act.baseSend target 5 [] 0 :: List.replicate 6 (Act.flushTake false)) ++
    ([.pick, .mark, .splice, .dispatch, .nextProcess, .nextMessage, .ret .badmatch, .nextMessage,
      .api (.send (poffGidToPid 4 1) 6 [] 0)] : List Act)).map (Prod.mk ⟨fun _ => 0, [1]⟩)

/-- A process exits that waits in the queue, with a message in its inbox and one set aside. -/
theorem process_exit_is_clean_of_two : ∃ (d : Domain) (process : Process) (msg : Message)
    (d' : Domain), d.Queued [1, 0] ∧ process.inbox.items.length = 1 ∧
      process.badmatch.items.length = 1 ∧ Exited 0 msg process d d' ∧ d'.Queued [1] := by
  obtain ⟨d, hr, hp⟩ := exists_run (show (runActs Domain.act safeAct exitQueuedActs
      (Domain.new 1 4)).any (fun d => d.current = [0] ∧
        d.phase = .callback 0 ⟨(1, 1), 1, poffGidToPid 4 1, 5, 0, []⟩ false ∧
        d.queueOfBusyProcesses.first = .node 1 ∧ d.inBusyQueue 1 = some (.node 0) ∧
        d.inBusyQueue 0 = some .null ∧
        (d.process 0).map (fun process => (process.inbox.items.length,
          process.badmatch.items.length)) = some (1, 1)) = true
      by decide +kernel)
  obtain ⟨hcur, hphase, hfirst, hone, hzero, hmail⟩ := of_decide_eq_true hp
  obtain ⟨process, d', hproc, _, hex, _⟩ := process_exit_is_clean (by decide) (by decide)
    (by decide) (by decide) hr hphase hcur ⟨fun _ => 0, [1]⟩
  rw [hproc, Option.map_some, Option.some.injEq, Prod.mk.injEq] at hmail
  have hqueued : d.Queued [1, 0] := ⟨hfirst, _, hone, rfl, _, hzero, rfl⟩
  exact ⟨d, process, _, d', hqueued, hmail.1, hmail.2, hex, hex.queue _ hqueued⟩

/-- The first process sends to itself and exits; the second sends to itself and returns. -/
def exitLastActs : List (Env × Act) :=
  [.api (.send (poffGidToPid 4 1) 5 [] 0), .ret .exit].map (Prod.mk ⟨fun _ => 0, [1]⟩)

/-- The second process sends to itself and returns, and the queue is run until it is empty. -/
def sendSecondActs : List (Env × Act) :=
  [.nextProcess, .nextMessage, .api (.send (poffGidToPid 5 1) 5 [] 0), .ret .ok, .nextMessage,
    .ret .ok, .nextMessage, .nextProcess, .nextMessage, .nextProcess].map
      (Prod.mk ⟨fun _ => 0, [1]⟩)

/--
The first of three processes exits when it is the last of the queue. The next send drops
the third, which was queued: `process_queue_run` returns, and its message is unread.
-/
theorem process_exit_drops_others : ∃ d d₁ : Domain,
    Runs Domain.act anyAct (Domain.new 1 4) d ∧ Runs Domain.act anyAct d d₁ ∧
      d.process 0 = none ∧ d.Waiting 2 ∧ d₁.phase = .dispatching true 0 ∧
      (d₁.process 2).map (fun process => process.inbox.items.length) = some 1 ∧
      (d₁.mailbox 2).presented = [] := by
  obtain ⟨d, hr, hp⟩ := exists_run (show (runActs Domain.act anyAct (queuedActs 3 ++ exitLastActs)
      (Domain.new 1 4)).any (fun d => decide (d.process 0 = none ∧
        d.queueOfBusyProcesses.first = .node 1 ∧ d.inBusyQueue 1 = some (.node 2) ∧
        d.inBusyQueue 2 = some .null) &&
        (runActs Domain.act anyAct sendSecondActs d).any (fun d₁ =>
          d₁.phase = .dispatching true 0 ∧
          (d₁.process 2).map (fun process => process.inbox.items.length) = some 1 ∧
          (d₁.mailbox 2).presented = [])) = true by decide +kernel)
  obtain ⟨hd, hrest⟩ := Bool.and_eq_true_iff.mp hp
  obtain ⟨hgone, hfirst, hone, htwo⟩ := of_decide_eq_true hd
  obtain ⟨d₁, hr₁, hp₁⟩ := exists_run hrest
  obtain ⟨hphase, hinbox, hpres⟩ := of_decide_eq_true hp₁
  exact ⟨d, d₁, hr, hr₁, hgone, ⟨[1, 2], ⟨hfirst, _, hone, rfl, _, htwo, rfl⟩, by simp⟩, hphase,
    hinbox, hpres⟩

end Msock
