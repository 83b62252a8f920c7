import Msock.Lib.Runs
import Msock.Pid
import Msock.Umap

/-!
# A domain and its processes

`struct domain`, `struct process` and `struct message`, and the functions of
`msock_domain.c`, `msock_process.c` and `msock_base.c` that work inside one domain.

A message is a value that carries its own identity: the allocation it came from.
A process is known by its allocation too, so an address is never used again and a
reference to a freed process is recognised; using one is `Stop.fault`. Message
queues are kept as `Queue`. The run queue of the domain is kept in memory, because
there, unlike in the message queues, one item can be put twice.

`Domain.trace` is a ghost: it records what happened and nothing reads it.
-/

namespace Msock

open Lib

/-! ## Constants -/

/-- `MAX_MSG_PAYLOAD_SZ`. -/
def maxMsgPayloadSz : Nat := 256 - 8 * 4

/-- `MSG_EXIT`. -/
def msgExit : Int := 13
/-- `MSG_GC`. -/
def msgGc : Int := 14
/-- `MSG_QUEUE_EMPTY`. -/
def msgQueueEmpty : Int := 15

/-- How a run of the program ends early. -/
inductive Stop where
  /-- `fatal`: the text is printed and the program exits. -/
  | fatal (text : String)
  /-- `abort`, or an assert that fails. -/
  | abort
  /-- A read or a write through a pointer that is not the address of a live object. -/
  | fault
  /-- Not an early end: the act is not what the program does next. -/
  | disabled
  deriving DecidableEq

/-- A memory access: `none` is a fault. -/
def access {α : Type} : Option α → Except Stop α
  | some a => .ok a
  | none => .error .fault

/-! ## Data -/

/-- The allocation of a message: the gid of the domain that made it and a serial number. -/
abbrev MsgId := Nat × Nat

/-- The allocation of a process, a serial number of its domain. -/
abbrev ProcId := Nat

/-- `struct message`. `src`, a ghost, is the gid of the domain it was sent from. -/
structure Message where
  id : MsgId
  src : Nat
  target : Pid
  msgType : Int
  msgPayloadSz : Nat
  /-- The first `msg_payload_sz` bytes of the payload; no others are ever read. -/
  msgPayload : List UInt8
  deriving DecidableEq

/-- `struct process`. `receiveCallback` names a callback together with its data, or is NULL. -/
structure Process where
  pid : Pid
  inbox : Queue Message
  badmatch : Queue Message
  receiveCallback : Option Nat

/-- What a receive callback returns. -/
inductive Recv where
  | ok
  | badmatch
  | exit
  | other (code : Int)
  deriving DecidableEq

/-- Ghost events. -/
inductive Event where
  /-- A message left `cache_malloc`, or went back through `cache_free`. -/
  | malloc (id : MsgId)
  | free (id : MsgId)
  /-- The same for a process. -/
  | mallocProcess (p : ProcId)
  | freeProcess (p : ProcId)
  /-- `cache_drain` of both caches. -/
  | drain
  /-- `_send_indirect` accepted a message, its target resolved. -/
  | sent (msg : Message)
  /-- `dispatch_msg_single`. -/
  | handed (p : ProcId) (msg : Message)
  /-- `dispatch_msg_local` found no process with the target's number. -/
  | stale (msg : Message)
  /-- The receive callback of `p` is called with a message, and what became of it. -/
  | presented (p : ProcId) (msg : Message)
  | consumed (p : ProcId) (msg : Message)
  | setAside (p : ProcId) (msg : Message)
  /-- `msock_receive`. -/
  | received (p : ProcId)
  /-- `process_free`. -/
  | exited (p : ProcId)
  /-- `ingress_callback` of the domain `gid`. -/
  | woke (gid : Nat)
  deriving DecidableEq

/-- Where the loop of `send_flush_outbox` goes back to. -/
inductive FlushFrom where
  /-- The end of `domain_run`. -/
  | domainRun
  /-- `msock_memory_collect`, called by the callback of `p`. -/
  | callback (p : ProcId) (msg : Message) (received : Bool)
  /-- `msock_base_send`, or `msock_memory_collect` in a constructor run from outside. -/
  | outside
  deriving DecidableEq

/-- Where the code that holds the domain is. -/
inductive Phase where
  /-- No worker holds the domain. -/
  | idle
  /-- A worker took it from `queue_of_domains` and has not yet marked its node. -/
  | picked
  /-- `domain_run` entered. -/
  | entered
  /-- In `dispatch_local_inbox`: its second call in a turn, or the first; delivered so far. -/
  | dispatching (again : Bool) (counter : Nat)
  /-- At the head of the loop of `process_queue_run`. -/
  | queueRun
  /-- At the head of the loop of `process_run`. -/
  | processRun (p : ProcId)
  /-- Inside the receive callback of `p`; whether it has called `msock_receive`. -/
  | callback (p : ProcId) (msg : Message) (received : Bool)
  /-- In `send_flush_outbox` at `gid`: before the splice, or before the test that follows it. -/
  | flush (gid counter : Nat) (spliced : Bool) (back : FlushFrom)
  /-- `domain_run` returned this many flushed outboxes. -/
  | ran (egress : Nat)
  /-- `worker_domain_run` returned. -/
  | finished
  /-- `worker_loop` did not put the domain back. -/
  | retired
  deriving DecidableEq

/-- `struct domain`, with the state of the worker that holds it. -/
structure Domain where
  gid : Nat
  poffToProcess : UmapRoot ProcId
  queueOfBusyProcesses : QueueRoot ProcId
  /-- The `in_busy_queue` heads of the processes in memory. -/
  inBusyQueue : Links ProcId
  remoteInbox : Queue Message
  localInbox : Queue Message
  /-- `in_queue.next` is `MSQUEUE_POISON1`. -/
  dequeued : Bool
  listOfProcesses : List ProcId
  listOfHungryProcesses : List ProcId
  /-- The processes in memory. -/
  process : ProcId → Option Process
  outbox : Nat → Queue Message
  phase : Phase
  /-- `_current_process`, above the values that `run_constructor` saved. -/
  current : List ProcId
  /-- The cursor of `worker_domain_run` while its nested `domain_run` is on. -/
  cursor : Option ProcId
  nextMsg : Nat
  nextProc : ProcId
  trace : List Event

namespace Domain

/-- `domain_new`, for the gid that `find_free_gid` chose. -/
def new (gid maxProcesses : Nat) : Domain where
  gid := gid
  poffToProcess := umapNew maxProcesses pidMaxCounter
  queueOfBusyProcesses := initQueueRoot
  inBusyQueue := fun _ => none
  remoteInbox := Queue.init
  localInbox := Queue.init
  dequeued := false
  listOfProcesses := []
  listOfHungryProcesses := []
  process := fun _ => none
  outbox := fun _ => Queue.init
  phase := .idle
  current := []
  cursor := none
  nextMsg := 0
  nextProc := 0
  trace := []

/-- Record an event. -/
def emit (e : Event) (d : Domain) : Domain := { d with trace := d.trace ++ [e] }

/-- Overwrite a process. -/
def setProcess (p : ProcId) (process : Process) (d : Domain) : Domain :=
  { d with process := Function.update d.process p (some process) }

end Domain

/-! ## Messages -/

/-- `cache_malloc(&domain->cache_messages, struct message)`. -/
def mallocMessage (d : Domain) : MsgId × Domain :=
  ((d.gid, d.nextMsg), { d with nextMsg := d.nextMsg + 1 }.emit (.malloc (d.gid, d.nextMsg)))

/-- `cache_free(&domain->cache_messages, struct message, msg)`. -/
def freeMessage (msg : Message) (d : Domain) : Domain := d.emit (.free msg.id)

/-- `drain_message_queue`. -/
def drainMessageQueue (msgbox : Queue Message) (d : Domain) : Domain :=
  msgbox.items.foldl (fun d msg => freeMessage msg d) d

/-- `message_clone`. -/
def messageClone (org : Message) (d : Domain) : Message × Domain :=
  let (id, d) := mallocMessage d
  ({ org with id := id, msgPayload := org.msgPayload.take org.msgPayloadSz }, d)

/-! ## Dispatch -/

/-- `dispatch_msg_single`. -/
def dispatchMsgSingle (p : ProcId) (msg : Message) (d : Domain) : Except Stop Domain := do
  let process ← access (d.process p)
  let (wasEmpty, inbox) := process.inbox.put msg
  let d := (d.setProcess p { process with inbox := inbox }).emit (.handed p msg)
  -- `queue_put` says whether the inbox was empty, and the process is taken for not queued then
  if wasEmpty then
    let (_, busy, heads) ← access (queuePut p d.queueOfBusyProcesses d.inBusyQueue)
    return { d with queueOfBusyProcesses := busy, inBusyQueue := heads }
  else
    return d

/-- The loop of `dispatch_msg_broadcast` over `list_of_processes`. -/
def dispatchClones (msg : Message) : List ProcId → Domain → Except Stop Domain
  | [], d => .ok d
  | p :: ps, d => do
      let (lmsg, d) := messageClone msg d
      let d ← dispatchMsgSingle p lmsg d
      dispatchClones msg ps d

/-- `dispatch_msg_broadcast`. -/
def dispatchMsgBroadcast (msg : Message) (d : Domain) : Except Stop Domain := do
  let d ← dispatchClones msg d.listOfProcesses d
  return freeMessage msg d

/-- `dispatch_special`. -/
def dispatchSpecial (msg : Message) (d : Domain) : Except Stop Domain :=
  if msg.msgType = msgGc then
    .ok ((freeMessage msg d).emit .drain)
  else
    .error .abort

/-- `dispatch_msg_local`, with the count it returns. -/
def dispatchMsgLocal (msg : Message) (d : Domain) : Except Stop (Nat × Domain) :=
  let poff := pidToPoff msg.target
  if poff ≠ 0 then
    match umapGet d.poffToProcess poff with
    | some p => do
        let d ← dispatchMsgSingle p msg d
        return (1, d)
    -- process == NULL
    | none => .ok (0, freeMessage msg (d.emit (.stale msg)))
  else if msg.msgType ≠ msgGc then do
    -- normal broadcast - copy over to everybody
    let d ← dispatchMsgBroadcast msg d
    return (1, d)
  else do
    -- special messages - to domain, not to processes
    let d ← dispatchSpecial msg d
    return (1, d)

/-! ## Sending -/

/-- `name_to_pid`: an array access, out of bounds from `MAX_REG_NAMES` on. -/
def nameToPid (names : Nat → Pid) (name : Pid) : Except Stop Pid :=
  if pidToPoff name < maxRegNames then .ok (names (pidToPoff name)) else .error .fault

/-- The target a send goes to, names resolved. -/
def resolveTarget (names : Nat → Pid) (target : Pid) : Except Stop Pid :=
  if pidToGid target = 0 then do
    -- Zero gid means name service.
    let target ← nameToPid names target
    if target = 0 then .error (.fatal "Name not registered.") else return target
  else .ok target

/--
`_send_indirect`. `msgPayload` is what can be read at the pointer of that name: NULL is `[]`,
and a `memcpy` that would read on is a fault.
-/
def sendIndirect (names : Nat → Pid) (target : Pid) (msgType : Int) (msgPayload : List UInt8)
    (msgPayloadSz : Int) (d : Domain) : Except Stop Domain := do
  let target ← resolveTarget names target
  let (id, d) := mallocMessage d
  -- compared as size_t, so a negative size is too big as well
  if msgPayloadSz < 0 ∨ maxMsgPayloadSz < msgPayloadSz then
    .error (.fatal ("Can't handle that big payload. Requested " ++ toString msgPayloadSz ++
      " bytes, available " ++ toString maxMsgPayloadSz ++ "."))
  else
    let sz := msgPayloadSz.toNat
    if msgPayload.length < sz then .error .fault
    else
      let msg : Message := ⟨id, d.gid, target, msgType, sz, msgPayload.take sz⟩
      let d := d.emit (.sent msg)
      -- sending to my domain? - skip outbox
      if pidToGid target = d.gid then
        let (_, d) ← dispatchMsgLocal msg d
        return d
      else if pidToGid target < maxDomains then
        return { d with outbox :=
          Function.update d.outbox (pidToGid target) ((d.outbox (pidToGid target)).put msg).2 }
      else
        -- past the end of `outbox`
        .error .fault

/-- `send_broadcast`, over the gids of `list_of_domains`. -/
def sendBroadcast (names : Nat → Pid) (msgType : Int) : List Nat → Domain → Except Stop Domain
  | [], d => .ok d
  | gid :: gids, d => do
      let d ← sendIndirect names (poffGidToPid pidBroadcast gid) msgType [] 0 d
      sendBroadcast names msgType gids d

/-! ## Processes -/

/-- `process_new`. -/
def processNew (receiveCallback : Option Nat) (hungry : Bool) (d : Domain) :
    Except Stop (ProcId × Domain) :=
  let p := d.nextProc
  let d := { d with nextProc := p + 1 }.emit (.mallocProcess p)
  match umapAdd d.poffToProcess p with
  -- the assertions of `umap_add`
  | none => .error .abort
  | some (poff, umap) =>
      if poff = 0 then .error (.fatal "Not enough slots for new processes!")
      else
        let process : Process :=
          ⟨poffGidToPid poff d.gid, Queue.init, Queue.init, receiveCallback⟩
        .ok (p, { d.setProcess p process with
          poffToProcess := umap
          listOfProcesses := p :: d.listOfProcesses
          inBusyQueue := initQueueHead d.inBusyQueue p
          listOfHungryProcesses :=
            if hungry then p :: d.listOfHungryProcesses else d.listOfHungryProcesses })

/-- The removal from `queue_of_busy_processes` in `process_free`. -/
def busyDel (p : ProcId) (d : Domain) : Except Stop (QueueRoot ProcId × Links ProcId) := do
  let enqueued ← access (queueIsEnqueued d.inBusyQueue p)
  if enqueued then
    -- This is slow, but it's still better than not optimizing sends.
    access (queueSlowDel (d.listOfProcesses.length + 1) p d.queueOfBusyProcesses d.inBusyQueue)
  else
    return (d.queueOfBusyProcesses, d.inBusyQueue)

/-- `process_free`. The process leaves the memory at the end. -/
def processFree (p : ProcId) (d : Domain) : Except Stop Domain := do
  let process ← access (d.process p)
  let umap ← access (umapDel d.poffToProcess (pidToPoff process.pid))
  let (busy, heads) ← busyDel p d
  let d := { d with
    poffToProcess := umap
    listOfProcesses := d.listOfProcesses.erase p
    queueOfBusyProcesses := busy
    listOfHungryProcesses := d.listOfHungryProcesses.erase p }
  let d := drainMessageQueue process.inbox d
  let d := drainMessageQueue process.badmatch d
  return { d with
    process := Function.update d.process p none
    inBusyQueue := Function.update heads p none }.emit (.freeProcess p) |>.emit (.exited p)

/-- `msock_receive`, called by the process `p`. -/
def msockReceive (p : ProcId) (receiveCallback : Option Nat) (d : Domain) :
    Except Stop Domain := do
  let process ← access (d.process p)
  let (badmatch, inbox) ← access (process.badmatch.splicePrepend process.inbox)
  return (d.setProcess p
    { process with receiveCallback := receiveCallback, badmatch := badmatch, inbox := inbox }).emit
      (.received p)

end Msock
