import Msock.Domain.Mailbox

/-!
# The domain moves its mailboxes

The mailbox of each process of a domain, and that every act of the domain moves it,
provided two things: a message is put into the process's inbox only when that inbox is
whole, and its callback does not return `RECV_BADMATCH` from a call in which it called
`msock_receive`.
-/

namespace Msock

open Lib

/-! ## The mailbox of a process -/

/-- The message an event says was handed to `p`. -/
def Event.arrivedAt (p : ProcId) : Event → Option Message
  | .handed q msg => if q = p then some msg else none
  | _ => none

/-- The message an event says the callback of `p` was called with. -/
def Event.presentedTo (p : ProcId) : Event → Option Message
  | .presented q msg => if q = p then some msg else none
  | _ => none

/-- The message an event says `p` is done with. -/
def Event.consumedBy (p : ProcId) : Event → Option Message
  | .consumed q msg => if q = p then some msg else none
  | _ => none

/-- The event is not about a message of `p`. -/
def Event.silent (p : ProcId) : Event → Bool
  | .handed q _ => q != p
  | .presented q _ => q != p
  | .consumed q _ => q != p
  | _ => true

theorem Event.silent_eq {p : ProcId} {e : Event} (h : e.silent p = true) :
    e.arrivedAt p = none ∧ e.presentedTo p = none ∧ e.consumedBy p = none := by
  cases e <;> simp_all [Event.silent, Event.arrivedAt, Event.presentedTo, Event.consumedBy]

/-- The message the callback of `p` holds, and whether it has called `msock_receive`. -/
def Phase.handling (p : ProcId) : Phase → Option (Message × Bool)
  | .callback q msg received => if q = p then some (msg, received) else none
  | .flush _ _ _ (.callback q msg received) => if q = p then some (msg, received) else none
  | _ => none

/-- The mailbox of a process of the domain. -/
def Domain.mailbox (p : ProcId) (d : Domain) : Mailbox where
  unborn := decide (d.nextProc ≤ p)
  process := d.process p
  handling := d.phase.handling p
  arrived := d.trace.filterMap (Event.arrivedAt p)
  presented := d.trace.filterMap (Event.presentedTo p)
  consumed := d.trace.filterMap (Event.consumedBy p)

/-- A message put into the inbox of `p` now goes behind what is there. -/
def Domain.WholePut (p : ProcId) (d : Domain) : Prop :=
  ∀ process, d.process p = some process → process.inbox.Whole

instance (p : ProcId) (d : Domain) : Decidable (d.WholePut p) :=
  match hp : d.process p with
  | none => isTrue (fun process h => by rw [hp] at h; cases h)
  | some process =>
      decidable_of_iff process.inbox.Whole
        ⟨fun h _ hpr => by rw [hp] at hpr; cases hpr; exact h, fun h => h process hp⟩

/-- The receive callback returns `RECV_BADMATCH`. -/
def Act.setsAside : Act → Bool
  | .ret .badmatch => true
  | _ => false

/-- The act is not a `RECV_BADMATCH` of `p` from a call in which it called `msock_receive`. -/
def disciplined (p : ProcId) (d : Domain) (a : Env × Act) : Prop :=
  a.2.setsAside = true → ∀ h ∈ d.phase.handling p, h.2 = false

/-- If the act puts a message into the inbox of `p`, that inbox is whole. -/
def wholePut (p : ProcId) (d : Domain) (a : Env × Act) : Prop :=
  p ∈ a.2.targets a.1 d → d.WholePut p

/-- The act keeps the mailbox of `p`. -/
def keepsMailbox (p : ProcId) (d : Domain) (a : Env × Act) : Prop :=
  disciplined p d a ∧ wholePut p d a

instance (p : ProcId) (d : Domain) (a : Env × Act) : Decidable (disciplined p d a) :=
  inferInstanceAs (Decidable (a.2.setsAside = true → ∀ h ∈ d.phase.handling p, h.2 = false))

instance (p : ProcId) (d : Domain) (a : Env × Act) : Decidable (wholePut p d a) :=
  inferInstanceAs (Decidable (p ∈ a.2.targets a.1 d → d.WholePut p))

instance (p : ProcId) (d : Domain) (a : Env × Act) : Decidable (keepsMailbox p d a) :=
  inferInstanceAs (Decidable (disciplined p d a ∧ wholePut p d a))

/-- The act is a call of `msock_receive`. -/
def Act.isReceive : Act → Bool
  | .api (.receive _) => true
  | _ => false

/-- The act is a call of `msock_receive` by `p`. -/
def Act.receives (p : ProcId) (d : Domain) (a : Act) : Prop :=
  a.isReceive = true ∧ d.current.head? = some p

instance (p : ProcId) (d : Domain) (a : Act) : Decidable (a.receives p d) :=
  inferInstanceAs (Decidable (_ ∧ _))

section Frames
variable {d d' : Domain} {p q : ProcId} {msg : Message} {receives : Prop} {env : Env}

/-- A change that leaves the mailbox alone. -/
theorem mailbox_congr (hnext : d'.nextProc ≤ p ↔ d.nextProc ≤ p) (hproc : d'.process p = d.process p)
    (hphase : d'.phase.handling p = d.phase.handling p) {es : List Event}
    (htrace : d'.trace = d.trace ++ es)
    (hes : ∀ e ∈ es, e.silent p = true) :
    d'.mailbox p = d.mailbox p := by
  have hno : ∀ f : Event → Option Message, (∀ e ∈ es, f e = none) →
      d'.trace.filterMap f = d.trace.filterMap f := by
    intro f hf
    rw [htrace, List.filterMap_append, List.filterMap_eq_nil_iff.mpr hf, List.append_nil]
  unfold Domain.mailbox
  rw [hproc, hphase, hno _ (fun e he => (Event.silent_eq (hes e he)).1),
    hno _ (fun e he => (Event.silent_eq (hes e he)).2.1),
    hno _ (fun e he => (Event.silent_eq (hes e he)).2.2), decide_eq_decide.mpr hnext]

theorem Quiet.mailbox (h : Quiet d d') (p : ProcId) : d'.mailbox p = d.mailbox p := by
  cases h with
  | malloc => exact mailbox_congr Iff.rfl rfl rfl rfl (by simp [Event.silent])
  | free msg => exact mailbox_congr Iff.rfl rfl rfl rfl (by simp [Event.silent])
  | stale msg => exact mailbox_congr Iff.rfl rfl rfl rfl (by simp [Event.silent])
  | drain => exact mailbox_congr Iff.rfl rfl rfl rfl (by simp [Event.silent])
  | sent msg => exact mailbox_congr Iff.rfl rfl rfl rfl (by simp [Event.silent])
  | outbox gid msg => exact mailbox_congr Iff.rfl rfl rfl (List.append_nil _).symm (by simp)

/-- `dispatch_msg_single` puts into one inbox. -/
theorem dispatchMsgSingle_moves (receives : Prop) (h : dispatchMsgSingle q msg d = .ok d')
    (hw : q = p → d.WholePut p) :
    Moves receives (d.mailbox p) (d'.mailbox p) ∧ (d.WholePut p → d'.WholePut p) := by
  obtain ⟨process, hp, hcase⟩ := dispatchMsgSingle_cases h
  obtain ⟨hproc, htrace, hphase, hnext⟩ : d'.process = Function.update d.process q
      (some { process with inbox := (process.inbox.put msg).2 }) ∧
      d'.trace = d.trace ++ [.handed q msg] ∧ d'.phase = d.phase ∧ d'.nextProc = d.nextProc := by
    rcases hcase with ⟨_, rfl⟩ | ⟨_, _, busy, heads, _, rfl⟩ <;> exact ⟨rfl, rfl, rfl, rfl⟩
  by_cases hqp : q = p
  · subst hqp
    have hmove : d'.mailbox q = { d.mailbox q with
        process := some { process with inbox := (process.inbox.put msg).2 }
        arrived := (d.mailbox q).arrived ++ [msg] } := by
      simp [Domain.mailbox, hproc, htrace, hphase, hnext, Event.arrivedAt, Event.presentedTo,
        Event.consumedBy]
    refine ⟨?_, fun _ process' hp' => ?_⟩
    · rw [hmove]
      exact Relation.ReflTransGen.single (.put process msg hp (hw rfl process hp))
    · rw [hproc, Function.update_self] at hp'
      obtain rfl := Option.some.inj hp'
      exact Queue.whole_put _ _
  · have hsame : d'.process p = d.process p := by
      rw [hproc, Function.update_of_ne (fun he : p = q => hqp he.symm)]
    refine ⟨?_, fun hwhole process' hp' => hwhole process' (hsame ▸ hp')⟩
    rw [mailbox_congr (by rw [hnext]) hsame (by rw [hphase]) htrace
      (by simp [Event.silent, hqp])]

/-- A send that puts safely moves the mailbox. -/
theorem Sends.moves {T : List ProcId} (h : Sends T d d') (hw : p ∈ T → d.WholePut p) :
    Moves receives (d.mailbox p) (d'.mailbox p) ∧ (p ∈ T → d'.WholePut p) := by
  induction h with
  | refl => exact ⟨.refl, hw⟩
  | quiet _ hq ih =>
      refine ⟨hq.mailbox p ▸ ih.1, fun hp process hproc => ih.2 hp process ?_⟩
      have := congrArg Mailbox.process (hq.mailbox p)
      exact this.symm.trans hproc
  | single q msg _ hq hd ih =>
      obtain ⟨hmoves, hwhole⟩ := dispatchMsgSingle_moves receives hd
        (fun he => ih.2 (he ▸ hq))
      exact ⟨ih.1.trans hmoves, fun hp => hwhole (ih.2 hp)⟩

/-! ## Acts -/

/-- A change to another process's mailbox, or to none. -/
theorem moves_of_congr (hnext : d'.nextProc = d.nextProc) (hproc : d'.process p = d.process p)
    (hphase : d'.phase.handling p = d.phase.handling p) {es : List Event}
    (htrace : d'.trace = d.trace ++ es) (hes : ∀ e ∈ es, e.silent p = true) :
    Moves receives (d.mailbox p) (d'.mailbox p) := by
  rw [mailbox_congr (by rw [hnext]) hproc hphase htrace hes]

/-- A new process is spawned, this one or another. -/
theorem addProcess_moves (poff : Nat) (umap : UmapRoot ProcId) (receiveCallback : Option Nat)
    (hungry : Bool) :
    Moves receives (d.mailbox p) ((d.addProcess poff umap receiveCallback hungry).mailbox p) := by
  by_cases hp : p = d.nextProc
  · subst hp
    have hmove : (d.addProcess poff umap receiveCallback hungry).mailbox d.nextProc
        = { d.mailbox d.nextProc with
          unborn := false
          process := some ⟨poffGidToPid poff d.gid, Queue.init, Queue.init, receiveCallback⟩ } := by
      simp [Domain.mailbox, Domain.addProcess, Event.arrivedAt, Event.presentedTo,
        Event.consumedBy]
    rw [hmove]
    exact .single (.spawn _ _ (by simp [Domain.mailbox]))
  · have hnext : d.nextProc + 1 ≤ p ↔ d.nextProc ≤ p :=
      ⟨fun h => Nat.le_of_succ_le h, fun h => Nat.lt_of_le_of_ne h (Ne.symm hp)⟩
    have hsame : (d.addProcess poff umap receiveCallback hungry).mailbox p = d.mailbox p :=
      mailbox_congr hnext (Function.update_of_ne hp _ _) rfl rfl (by simp [Event.silent])
    rw [hsame]

theorem processNew_moves {receiveCallback : Option Nat} {hungry : Bool}
    (h : processNew receiveCallback hungry d = .ok (q, d')) :
    Moves receives (d.mailbox p) (d'.mailbox p) := by
  obtain ⟨_, poff, umap, _, _, rfl⟩ := processNew_cases h
  exact addProcess_moves poff umap receiveCallback hungry

theorem spawnConstructor_moves (h : spawnConstructor d = .ok d') :
    Moves receives (d.mailbox p) (d'.mailbox p) := by
  obtain ⟨poff, umap, q, _, _, _, rfl⟩ := spawnConstructor_cases h
  exact addProcess_moves poff umap none false

/-- `process_free`, of this process or another, once the code is in `phase`. -/
theorem processFree_moves (h : processFree q d = .ok d') (phase : Phase) :
    Moves receives (Domain.mailbox p { d with phase := phase })
      (Domain.mailbox p { d' with phase := phase }) := by
  obtain ⟨process, umap, _, busy, heads, hq, _, _, _, rfl⟩ := processFree_cases h
  have hsilent : ∀ e ∈ process.inbox.items.map (fun msg => Event.free msg.id)
      ++ process.badmatch.items.map (fun msg => Event.free msg.id)
      ++ [.freeProcess q, .exited q], e.silent p = true := by
    intro e he
    simp only [List.mem_append, List.mem_map, List.mem_cons, List.not_mem_nil, or_false] at he
    rcases he with (⟨_, _, rfl⟩ | ⟨_, _, rfl⟩) | rfl | rfl <;> rfl
  have htrace : (d.removeProcess q process umap busy heads).trace = d.trace
      ++ (process.inbox.items.map (fun msg => Event.free msg.id)
      ++ process.badmatch.items.map (fun msg => Event.free msg.id)
      ++ [.freeProcess q, .exited q]) := by
    simp [Domain.removeProcess]
  by_cases hqp : q = p
  · subst hqp
    refine .single ?_
    have hsame : Domain.mailbox q { d.removeProcess q process umap busy heads with
        process := d.process, phase := phase } = Domain.mailbox q { d with phase := phase } :=
      mailbox_congr Iff.rfl rfl rfl htrace hsilent
    have hmove : Domain.mailbox q { d.removeProcess q process umap busy heads with phase := phase }
        = { Domain.mailbox q { d with phase := phase } with process := none } := by
      rw [← hsame]
      simp [Domain.mailbox, Domain.removeProcess]
    rw [hmove]
    exact .exit process hq
  · exact moves_of_congr rfl (Function.update_of_ne (fun he : p = q => hqp he.symm) _ _) rfl
      htrace hsilent

/-- The message being handled is consumed, and the code goes on in `phase`. -/
theorem consume_moves {received : Bool} (hphase : d.phase = .callback q msg received)
    {phase : Phase} (hnone : phase.handling p = none) :
    Moves receives (d.mailbox p)
      (Domain.mailbox p { freeMessage msg (d.emit (.consumed q msg)) with phase := phase }) := by
  by_cases hqp : q = p
  · subst hqp
    have hmove : Domain.mailbox q { freeMessage msg (d.emit (.consumed q msg)) with
          phase := phase } = { d.mailbox q with
            handling := none
            consumed := (d.mailbox q).consumed ++ [msg] } := by
      simp [Domain.mailbox, freeMessage, Domain.emit, Event.arrivedAt, Event.presentedTo,
        Event.consumedBy, hnone]
    refine hmove ▸ .single (.consume msg received ?_)
    simp [Domain.mailbox, hphase, Phase.handling]
  · have htrace : (freeMessage msg (d.emit (.consumed q msg))).trace
        = d.trace ++ [.consumed q msg, .free msg.id] := by
      simp [freeMessage, Domain.emit]
    refine moves_of_congr rfl rfl ?_ htrace (by simp [Event.silent, hqp])
    rw [hphase, hnone]
    simp [Phase.handling, hqp]

theorem handling_noteReceive_self {phase : Phase}
    (hphase : phase = .idle ∨ ∃ q msg received, phase = .callback q msg received) (p : ProcId) :
    (phase.noteReceive p).handling p = (phase.handling p).map (fun h => (h.1, true)) := by
  rcases hphase with rfl | ⟨q, msg, received, rfl⟩
  · rfl
  · by_cases hq : q = p <;> simp [Phase.noteReceive, Phase.handling, hq]

theorem handling_noteReceive_of_ne (phase : Phase) (hqp : q ≠ p) :
    (phase.noteReceive q).handling p = phase.handling p := by
  cases phase with
  | callback a msg received =>
      by_cases ha : a = p
      · subst ha
        have hne : (a == q) = false := by simpa using fun he : a = q => hqp he.symm
        simp [Phase.noteReceive, Phase.handling, hne]
      · simp [Phase.noteReceive, Phase.handling, ha]
  | _ => rfl

theorem called_moves {call : Api} (h : Called env d call d')
    (hphase : d.phase = .idle ∨ ∃ p msg received, d.phase = .callback p msg received)
    (hw : wholePut p d (env, .api call)) :
    Moves (Act.receives p d (.api call)) (d.mailbox p) (d'.mailbox p) := by
  cases h with
  | send target msgType msgPayload msgPayloadSz _ h => exact ((sendIndirect_sends h).moves hw).1
  | spawn receiveCallback q _ h => exact processNew_moves h
  | spawn2 _ h => exact spawnConstructor_moves h
  | constructed cur oldproc _ _ =>
      exact moves_of_congr rfl rfl rfl (List.append_nil _).symm (by simp)
  | receive receiveCallback cur oldproc d₁ hcur h =>
      obtain ⟨process, badmatch, inbox, hproc, hsplice, rfl⟩ := msockReceive_cases h
      by_cases hcp : cur = p
      · subst hcp
        refine .single ?_
        have hmove : Domain.mailbox cur { (d.setProcess cur
              ⟨process.pid, inbox, badmatch, receiveCallback⟩).emit (.received cur) with
            phase := d.phase.noteReceive cur } = { d.mailbox cur with
              process := some ⟨process.pid, inbox, badmatch, receiveCallback⟩
              handling := (d.mailbox cur).handling.map (fun h => (h.1, true)) } := by
          simp [Domain.mailbox, Domain.setProcess, Domain.emit, Event.arrivedAt,
            Event.presentedTo, Event.consumedBy, handling_noteReceive_self hphase]
          rfl
        have hmay : Act.receives cur d (.api (.receive receiveCallback)) :=
          ⟨rfl, by rw [hcur]; rfl⟩
        exact hmove ▸ .receive process badmatch inbox receiveCallback hmay hproc hsplice
      · exact moves_of_congr rfl
          (Function.update_of_ne (fun he : p = cur => hcp he.symm) _ _)
          (handling_noteReceive_of_ne _ hcp) rfl (by simp [Event.silent])
  | loopexit _ h => exact ((sendBroadcast_sends h).moves hw).1
  | memoryCollect d₁ _ h =>
      have hsends := sendBroadcast_sends h
      refine (hsends.moves hw).1.trans
        (moves_of_congr rfl rfl ?_ (List.append_nil _).symm (by simp))
      show Phase.handling p (.flush 0 0 false d₁.phase.flushFrom) = d₁.phase.handling p
      rw [hsends.frame.phase]
      rcases hphase with hph | ⟨q, msg, received, hph⟩ <;> rw [hph] <;> rfl

/-- A turn of `send_flush_outbox` touches no process. -/
theorem flushTake_mailbox {gid counter : Nat} {back : FlushFrom} (victim : Bool)
    (hphase : d.phase = .flush gid counter false back) (p : ProcId) :
    ∃ es, (flushTake gid counter back victim d).process p = d.process p ∧
      (flushTake gid counter back victim d).nextProc = d.nextProc ∧
      (flushTake gid counter back victim d).trace = d.trace ++ es ∧
      (∀ e ∈ es, e.silent p = true) ∧
      (flushTake gid counter back victim d).phase.handling p = d.phase.handling p := by
  rw [hphase]
  unfold flushTake
  split
  · exact ⟨[], rfl, rfl, (List.append_nil _).symm, by simp, by cases back <;> rfl⟩
  · split
    · exact ⟨[], rfl, rfl, (List.append_nil _).symm, by simp, by cases back <;> rfl⟩
    · split
      · exact ⟨[], rfl, rfl, (List.append_nil _).symm, by simp, by cases back <;> rfl⟩
      · rw [drainMessageQueue_eq]
        refine ⟨_, rfl, rfl, rfl, fun e he => ?_, by cases back <;> rfl⟩
        obtain ⟨_, _, rfl⟩ := List.mem_map.mp he
        rfl

/-- **Every act moves every mailbox.** -/
theorem stepped_moves {a : Act} (h : Stepped env d a d') (hw : wholePut p d (env, a))
    (hd : disciplined p d (env, a)) :
    Moves (a.receives p d) (d.mailbox p) (d'.mailbox p) := by
  cases h with
  | arrive qr => exact .refl
  | baseSend target msgType msgPayload msgPayloadSz d₁ hphase h =>
      have hsends := sendIndirect_sends h
      refine (hsends.moves hw).1.trans
        (moves_of_congr rfl rfl ?_ (List.append_nil _).symm (by simp))
      rw [hsends.frame.phase, hphase]
      rfl
  | baseSpawn receiveCallback hungry q _ h => exact processNew_moves h
  | baseSpawn2 _ h => exact spawnConstructor_moves h
  | api call hphase h => exact called_moves h hphase hw
  | pick hphase _ | mark hphase | splice hphase | retire hphase _ | requeue hphase _ =>
      exact moves_of_congr rfl rfl (by rw [hphase]; rfl) (List.append_nil _).symm (by simp)
  | dispatchNone again counter hphase _ =>
      refine moves_of_congr rfl rfl ?_ (List.append_nil _).symm (by simp)
      rw [hphase]
      by_cases hc : again = true ∧ counter = 0 <;> simp [hc, Phase.handling]
  | dispatchOne again counter msg localInbox delivered d₁ hphase hget h =>
      have hsends := dispatchMsgLocal_sends h
      have hwhole : p ∈ dispatchTargets msg.target msg.msgType d → d.WholePut p := by
        intro hp
        refine hw ?_
        simp only [Act.targets, hget]
        exact hp
      refine (hsends.moves (p := p) hwhole).1.trans
        (moves_of_congr rfl rfl ?_ (List.append_nil _).symm (by simp))
      rw [hsends.frame.phase, hphase]
      rfl
  | queueNone busy heads hphase _ =>
      exact moves_of_congr rfl rfl (by rw [hphase]; rfl) (List.append_nil _).symm (by simp)
  | queueOne q busy heads hphase _ =>
      exact moves_of_congr rfl rfl (by rw [hphase]; rfl) (List.append_nil _).symm (by simp)
  | inboxNone q process hphase _ _ =>
      exact moves_of_congr rfl rfl (by rw [hphase]; rfl) (List.append_nil _).symm (by simp)
  | inboxOne q process msg inbox hphase hproc hget _ =>
      by_cases hqp : q = p
      · subst hqp
        have hmove : Domain.mailbox q { (d.setProcess q { process with inbox := inbox }).emit
              (.presented q msg) with phase := .callback q msg false } = { d.mailbox q with
                process := some { process with inbox := inbox }
                handling := some (msg, false)
                presented := (d.mailbox q).presented ++ [msg] } := by
          simp [Domain.mailbox, Domain.setProcess, Domain.emit, Event.arrivedAt,
            Event.presentedTo, Event.consumedBy, Phase.handling]
          rfl
        refine hmove ▸ .single (.present process msg inbox hproc hget ?_)
        simp only [Domain.mailbox, hphase]
        rfl
      · refine moves_of_congr rfl (Function.update_of_ne (fun he : p = q => hqp he.symm) _ _) ?_
          rfl (by simp [Event.silent, hqp])
        rw [hphase]
        simp [Phase.handling, hqp]
  | retOk q msg received hphase _ => exact consume_moves hphase rfl
  | retBadmatch q msg received process hphase _ hproc =>
      by_cases hqp : q = p
      · subst hqp
        -- a process that calls `msock_receive` does not set the message aside as well
        have hfresh : received = false :=
          hd rfl (msg, received) (by rw [hphase]; simp [Phase.handling])
        subst hfresh
        have hmove : Domain.mailbox q { (d.setProcess q
              { process with badmatch := (process.badmatch.put msg).2 }).emit
              (.setAside q msg) with phase := .processRun q } = { d.mailbox q with
                process := some { process with badmatch := (process.badmatch.put msg).2 }
                handling := none } := by
          simp [Domain.mailbox, Domain.setProcess, Domain.emit, Event.arrivedAt,
            Event.presentedTo, Event.consumedBy, Phase.handling]
          rfl
        refine hmove ▸ .single (.setAside process msg hproc ?_)
        simp [Domain.mailbox, hphase, Phase.handling]
      · refine moves_of_congr rfl (Function.update_of_ne (fun he : p = q => hqp he.symm) _ _) ?_
          rfl (by simp [Event.silent])
        rw [hphase]
        simp [Phase.handling, hqp]
  | retExit q msg received d₁ hphase _ h =>
      have hconsume : Moves (Act.receives p d (.ret .exit)) (d.mailbox p) (Domain.mailbox p
          { freeMessage msg (d.emit (.consumed q msg)) with phase := .queueRun }) :=
        consume_moves hphase rfl
      exact hconsume.trans (processFree_moves h .queueRun)
  | flushTake victim gid counter back hphase =>
      obtain ⟨es, hproc, hnext, htrace, hes, hback⟩ := flushTake_mailbox victim hphase p
      exact moves_of_congr hnext hproc hback htrace hes
  | flushWake dequeued gid counter back hphase =>
      have hback : Phase.handling p (.flush (gid + 1) (counter + 1) false back)
          = d.phase.handling p := by
        rw [hphase]
        cases back <;> rfl
      cases dequeued
      · exact moves_of_congr rfl rfl hback (List.append_nil _).symm (by simp)
      · exact moves_of_congr rfl rfl hback rfl (by simp [Event.silent])
  | nextNested egress q hphase hnext h =>
      obtain ⟨process, d₁, hproc, hsend, rfl⟩ := sendQueueEmpty_cases h
      have hsends := sendIndirect_sends hsend
      have hwhole : p ∈ sendTargets env.names process.pid msgQueueEmpty d → d.WholePut p := by
        intro hp
        refine hw ?_
        simp only [Act.targets, hphase, hnext, Option.bind_some, hproc]
        exact hp
      refine (hsends.moves hwhole).1.trans
        (moves_of_congr rfl rfl ?_ (List.append_nil _).symm (by simp))
      rw [hsends.frame.phase, hphase]
      rfl
  | nextDone egress cursor hphase =>
      exact moves_of_congr rfl rfl (by rw [hphase]; rfl) (List.append_nil _).symm (by simp)

/-- Every run that keeps the mailbox moves it, by `msock_receive` too if `receives`. -/
theorem runs_moves (receives : Prop) {ok : Domain → Env × Act → Prop} (hr : Runs Domain.act ok d d')
    (hk : ∀ d a, ok d a → keepsMailbox p d a) (hre : ∀ d a, ok d a → a.2.receives p d → receives) :
    Moves receives (d.mailbox p) (d'.mailbox p) := by
  induction hr with
  | refl => exact .refl
  | tail _ hs ih =>
      obtain ⟨⟨env, a⟩, hok, hact⟩ := hs
      obtain ⟨hd, hw⟩ := hk _ _ hok
      exact ih.trans (Moves.imp_receives (stepped_moves (step_cases hact) hw hd) (hre _ _ hok))

theorem mailbox_new (gid maxProcesses : Nat) (p : ProcId) :
    ((Domain.new gid maxProcesses).mailbox p).Inv where
  unborn := fun _ => ⟨rfl, rfl, rfl, rfl⟩
  kept := fun _ hp => by cases hp

theorem mailbox_reachable {gid maxProcesses : Nat}
    (hr : Runs Domain.act (keepsMailbox p) (Domain.new gid maxProcesses) d) :
    (d.mailbox p).Inv :=
  mailbox_moves (mailbox_new gid maxProcesses p)
    (runs_moves True hr (fun _ _ h => h) (fun _ _ _ _ => trivial))

/-- `msock_receive`, called by `p`. -/
theorem receive_act {receiveCallback : Option Nat} {process : Process}
    (h : d.act (env, .api (.receive receiveCallback)) = .ok d') (hp : d.process p = some process)
    (hcur : d.current.head? = some p) :
    ∃ badmatch inbox, process.badmatch.splicePrepend process.inbox = some (badmatch, inbox) ∧
      d'.process p = some ⟨process.pid, inbox, badmatch, receiveCallback⟩ ∧
      (d'.mailbox p).unborn = (d.mailbox p).unborn := by
  have hs : Stepped env d (.api (.receive receiveCallback)) d' := step_cases h
  cases hs with
  | api _ _ hcall =>
      cases hcall with
      | receive _ cur oldproc d₁ hcons hrecv =>
          obtain rfl : cur = p := by simpa [hcons] using hcur
          obtain ⟨process', badmatch, inbox, hproc, hsplice, rfl⟩ := msockReceive_cases hrecv
          obtain rfl : process' = process := Option.some.inj (hproc.symm.trans hp)
          exact ⟨badmatch, inbox, hsplice, Function.update_self .., rfl⟩

end Frames

/-- Process 0 is spawned and sent `n` messages from outside, and its callback is called. -/
def mailedActs (n : Nat) : List (Env × Act) :=
  let arrivals : List Act := (List.range n).flatMap (fun i =>
    .baseSend (poffGidToPid 4 1) i [] 0 :: List.replicate 6 (.flushTake false))
  let acts : List Act := .baseSpawn (some 0) false :: arrivals ++
    [.pick, .mark, .splice, .dispatch, .nextProcess, .nextMessage]
  acts.map (Prod.mk ⟨fun _ => 0, [1]⟩)

/-- The message is set aside, and the callback is called with the next one. -/
def setAsideActs : List (Env × Act) :=
  [.ret .badmatch, .nextMessage].map (Prod.mk ⟨fun _ => 0, [1]⟩)

end Msock
