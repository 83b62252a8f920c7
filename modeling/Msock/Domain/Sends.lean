import Msock.Domain.Cases

/-!
# What sending comes down to

`_send_indirect`, `dispatch_msg_local`, the broadcast loops: whatever they do is a
sequence of two kinds of steps, putting a message into the inbox of one of the
processes it is meant for, and bookkeeping that touches no process. `Sends T d d'`
says that `d'` comes from `d` by such steps, `T` being the processes put to. A property
that both kinds keep is kept by every send, and is proved by induction on `Sends`.
-/

namespace Msock

open Lib

variable {d d' : Domain} {p : ProcId} {msg : Message} {env : Env} {T T' : List ProcId}

/-! ## Whom an act puts a message to -/

/-- The processes `dispatch_msg_local` gives a message to. -/
def dispatchTargets (target : Pid) (msgType : Int) (d : Domain) : List ProcId :=
  if pidToPoff target ≠ 0 then (umapGet d.poffToProcess (pidToPoff target)).toList
  else if msgType ≠ msgGc then d.listOfProcesses
  else []

/-- The processes of this domain a send gives its message to. -/
def sendTargets (names : Nat → Pid) (target : Pid) (msgType : Int) (d : Domain) : List ProcId :=
  match resolveTarget names target with
  | .ok pid => if pidToGid pid = d.gid then dispatchTargets pid msgType d else []
  | .error _ => []

/-- The processes of this domain `send_broadcast` gives its messages to. -/
def broadcastTargets (env : Env) (msgType : Int) (d : Domain) : List ProcId :=
  env.gids.flatMap (fun gid => sendTargets env.names (poffGidToPid pidBroadcast gid) msgType d)

/-- The processes an act puts a message to. -/
def Act.targets (env : Env) (a : Act) (d : Domain) : List ProcId :=
  match a with
  | .baseSend target msgType _ _ => sendTargets env.names target msgType d
  | .api (.send target msgType _ _) => sendTargets env.names target msgType d
  | .api .loopexit => broadcastTargets env msgExit d
  | .api .memoryCollect => broadcastTargets env msgGc d
  | .dispatch =>
      match d.localInbox.get with
      | some (msg, _) => dispatchTargets msg.target msg.msgType d
      | none => []
  | .next =>
      match d.phase with
      | .ran egress =>
          match (nextHungry egress d).bind d.process with
          | some process => sendTargets env.names process.pid msgQueueEmpty d
          | none => []
      | _ => []
  | _ => []

/-! ## The steps of a send -/

/-- Bookkeeping: no process is touched. -/
inductive Quiet (d : Domain) : Domain → Prop
  | malloc : Quiet d (mallocMessage d).2
  | free (msg : Message) : Quiet d (freeMessage msg d)
  | stale (msg : Message) : Quiet d (d.emit (.stale msg))
  | drain : Quiet d (d.emit .drain)
  | sent (msg : Message) : Quiet d (d.emit (.sent msg))
  | outbox (gid : Nat) (msg : Message) : Quiet d (d.putOutbox gid msg)

/-- Bookkeeping, and messages put to processes in `T`. -/
inductive Sends (T : List ProcId) (d : Domain) : Domain → Prop
  | refl : Sends T d d
  | quiet {d₁ d₂ : Domain} : Sends T d d₁ → Quiet d₁ d₂ → Sends T d d₂
  | single {d₁ d₂ : Domain} (p : ProcId) (msg : Message) : Sends T d d₁ → p ∈ T →
      dispatchMsgSingle p msg d₁ = .ok d₂ → Sends T d d₂

theorem Sends.trans {d'' : Domain} (h : Sends T d d') (h' : Sends T d' d'') : Sends T d d'' := by
  induction h' with
  | refl => exact h
  | quiet _ hq ih => exact ih.quiet hq
  | single p msg _ hp hd ih => exact ih.single p msg hp hd

theorem Sends.mono (h : Sends T d d') (hsub : ∀ p ∈ T, p ∈ T') : Sends T' d d' := by
  induction h with
  | refl => exact .refl
  | quiet _ hq ih => exact ih.quiet hq
  | single p msg _ hp hd ih => exact ih.single p msg (hsub p hp) hd

/-- What sending leaves alone. -/
structure SendFrame (d d' : Domain) : Prop where
  gid : d'.gid = d.gid
  poffToProcess : d'.poffToProcess = d.poffToProcess
  listOfProcesses : d'.listOfProcesses = d.listOfProcesses
  remoteInbox : d'.remoteInbox = d.remoteInbox
  localInbox : d'.localInbox = d.localInbox
  nextProc : d'.nextProc = d.nextProc
  phase : d'.phase = d.phase
  current : d'.current = d.current

theorem Quiet.frame (h : Quiet d d') : SendFrame d d' := by
  cases h <;> exact ⟨rfl, rfl, rfl, rfl, rfl, rfl, rfl, rfl⟩

theorem dispatchMsgSingle_frame (h : dispatchMsgSingle p msg d = .ok d') : SendFrame d d' := by
  obtain ⟨process, _, ⟨_, rfl⟩ | ⟨_, _, busy, heads, _, rfl⟩⟩ := dispatchMsgSingle_cases h <;>
    exact ⟨rfl, rfl, rfl, rfl, rfl, rfl, rfl, rfl⟩

theorem SendFrame.trans {d'' : Domain} (h : SendFrame d d') (h' : SendFrame d' d'') :
    SendFrame d d'' :=
  ⟨h'.gid.trans h.gid, h'.poffToProcess.trans h.poffToProcess,
    h'.listOfProcesses.trans h.listOfProcesses, h'.remoteInbox.trans h.remoteInbox,
    h'.localInbox.trans h.localInbox, h'.nextProc.trans h.nextProc, h'.phase.trans h.phase,
    h'.current.trans h.current⟩

theorem Sends.frame (h : Sends T d d') : SendFrame d d' := by
  induction h with
  | refl => exact ⟨rfl, rfl, rfl, rfl, rfl, rfl, rfl, rfl⟩
  | quiet _ hq ih => exact ih.trans hq.frame
  | single p msg _ _ hd ih => exact ih.trans (dispatchMsgSingle_frame hd)

theorem dispatchTargets_congr (h : SendFrame d d') (target : Pid) (msgType : Int) :
    dispatchTargets target msgType d' = dispatchTargets target msgType d := by
  unfold dispatchTargets
  rw [h.poffToProcess, h.listOfProcesses]

/-- Whom a send reaches does not change while sending. -/
theorem sendTargets_congr (h : SendFrame d d') (names : Nat → Pid) (target : Pid) (msgType : Int) :
    sendTargets names target msgType d' = sendTargets names target msgType d := by
  unfold sendTargets
  rw [h.gid]
  simp only [dispatchTargets_congr h]

/-! ## Every send is of this kind -/

theorem dispatchClones_sends : ∀ {ps : List ProcId} {d d' : Domain},
    dispatchClones msg ps d = .ok d' → (∀ p ∈ ps, p ∈ T) → Sends T d d'
  | [], d, d', h, _ => by
      rw [← Except.ok.inj h]
      exact .refl
  | p :: ps, d, d', h, hT => by
      obtain ⟨d₁, h₁, h⟩ := dispatchClones_cons h
      have hfirst : Sends T d d₁ :=
        (Sends.refl.quiet .malloc).single p _ (hT p List.mem_cons_self) h₁
      exact hfirst.trans (dispatchClones_sends h (fun a ha => hT a (List.mem_cons_of_mem _ ha)))

theorem dispatchMsgLocal_sends {k : Nat} (h : dispatchMsgLocal msg d = .ok (k, d')) :
    Sends (dispatchTargets msg.target msg.msgType d) d d' := by
  unfold dispatchTargets
  cases dispatchMsgLocal_cases h with
  | single p hpoff hget hd =>
      rw [if_pos hpoff, hget]
      exact Sends.refl.single p msg (by simp) hd
  | stale _ _ hd =>
      rw [hd]
      exact (Sends.refl.quiet (.stale msg)).quiet (.free msg)
  | broadcast d₁ hpoff hty h₁ hd =>
      rw [if_neg (by simpa using hpoff), if_pos hty, hd]
      exact (dispatchClones_sends h₁ (fun _ hp => hp)).quiet (.free msg)
  | collect _ _ hd =>
      rw [hd]
      exact (Sends.refl.quiet (.free msg)).quiet .drain

theorem sendIndirect_sends {names : Nat → Pid} {target : Pid} {msgType : Int}
    {msgPayload : List UInt8} {msgPayloadSz : Int}
    (h : sendIndirect names target msgType msgPayload msgPayloadSz d = .ok d') :
    Sends (sendTargets names target msgType d) d d' := by
  obtain ⟨pid, hpid, _, _, _, ⟨hgid, k, h⟩ | ⟨hgid, _, rfl⟩⟩ := sendIndirect_cases h
  · have hmalloc : Sends (dispatchTargets pid msgType d) d
        (d.sending (d.newMessage pid msgType msgPayload msgPayloadSz.toNat)) :=
      (Sends.refl.quiet .malloc).quiet (.sent _)
    have hdispatch := dispatchMsgLocal_sends h
    rw [dispatchTargets_congr hmalloc.frame] at hdispatch
    unfold sendTargets
    rw [hpid]
    dsimp only
    rw [if_pos hgid]
    exact hmalloc.trans hdispatch
  · exact ((Sends.refl.quiet .malloc).quiet (.sent _)).quiet (.outbox _ _)

theorem sendBroadcast_sends {names : Nat → Pid} {msgType : Int} :
    ∀ {gids : List Nat} {d d' : Domain}, sendBroadcast names msgType gids d = .ok d' →
    Sends (gids.flatMap (fun gid => sendTargets names (poffGidToPid pidBroadcast gid) msgType d))
      d d'
  | [], d, d', h => by
      rw [← Except.ok.inj h]
      exact .refl
  | gid :: gids, d, d', h => by
      obtain ⟨d₁, h₁, h⟩ := sendBroadcast_cons h
      have hfirst := sendIndirect_sends h₁
      have hrest := sendBroadcast_sends h
      simp only [sendTargets_congr hfirst.frame] at hrest
      rw [List.flatMap_cons]
      exact (hfirst.mono (fun _ hp => List.mem_append_left _ hp)).trans
        (hrest.mono (fun _ hp => List.mem_append_right _ hp))

end Msock
