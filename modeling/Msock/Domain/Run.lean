import Msock.Domain.Basic

/-!
# A domain at work

`Domain.step` is the code that holds a domain, one act at a time: `worker_domain_run`,
`domain_run` with its loops, `process_run`, and the user's callbacks in between. A
callback is any sequence of calls to the library followed by a return code, so a
theorem about every sequence of acts is a theorem about every callback.

What comes from outside the domain is an argument of the act: messages spliced onto
`remote_inbox` by another domain, and, in `send_flush_outbox`, what the victim
looks like.
-/

namespace Msock

open Lib

/-- The tables of `struct base` that code inside a domain reads. -/
structure Env where
  /-- `name_to_pid`. -/
  names : Nat → Pid
  /-- The gids of `list_of_domains`. -/
  gids : List Nat

/-- What the callback of the current process, or its constructor, may call. -/
inductive Api where
  /-- `msock_send`. -/
  | send (target : Pid) (msgType : Int) (msgPayload : List UInt8) (msgPayloadSz : Int)
  /-- `msock_spawn`. -/
  | spawn (receiveCallback : Option Nat)
  /-- `msock_spawn2` up to the call of the constructor, and the constructor's return. -/
  | spawn2
  | constructed
  /-- `msock_receive`. -/
  | receive (receiveCallback : Option Nat)
  /-- `msock_loopexit`. -/
  | loopexit
  /-- `msock_memory_collect`. -/
  | memoryCollect
  deriving DecidableEq

/-- One act on a domain. -/
inductive Act where
  /-- Another domain's `send_flush_outbox` splices a queue onto `remote_inbox`. -/
  | arrive (qr : Queue Message)
  /-- `msock_base_send`. -/
  | baseSend (target : Pid) (msgType : Int) (msgPayload : List UInt8) (msgPayloadSz : Int)
  /-- `spawn` from outside: `msock_base_spawn`, or an engine's hungry process. -/
  | baseSpawn (receiveCallback : Option Nat) (hungry : Bool)
  /-- `msock_base_spawn2` up to the call of the constructor. -/
  | baseSpawn2
  /-- A call made by the current process. -/
  | api (call : Api)
  /-- A worker takes the domain from `queue_of_domains`, and marks its node. -/
  | pick
  | mark
  /-- The splice at the head of `domain_run`. -/
  | splice
  /-- One turn of `dispatch_local_inbox`. -/
  | dispatch
  /-- One turn of `process_queue_run`. -/
  | nextProcess
  /-- The head of the loop of `process_run`. -/
  | nextMessage
  /-- The receive callback returns. -/
  | ret (recv : Recv)
  /-- One turn of `send_flush_outbox` up to the splice; whether the victim exists. -/
  | flushTake (victim : Bool)
  /-- The rest of that turn; whether the victim's node is marked. -/
  | flushWake (dequeued : Bool)
  /-- `worker_domain_run` goes on after a `domain_run`. -/
  | next
  /-- `worker_loop` puts the domain back, or retires it. -/
  | requeue
  deriving DecidableEq

/-- `msock_receive` was called by the process whose callback is running. -/
def Phase.noteReceive (q : ProcId) : Phase → Phase
  | .callback p msg received => .callback p msg (received || p == q)
  | phase => phase

/-- Where `send_flush_outbox` returns to when it is called by the user's code. -/
def Phase.flushFrom : Phase → FlushFrom
  | .callback p msg received => .callback p msg received
  | _ => .outside

/-- The phase after the loop of `send_flush_outbox`. -/
def FlushFrom.phase (counter : Nat) : FlushFrom → Phase
  | .domainRun => .ran counter
  | .callback p msg received => .callback p msg received
  | .outside => .idle

/-- `spawn` with a NULL callback, and `run_constructor` up to the call. -/
def spawnConstructor (d : Domain) : Except Stop Domain := do
  let (p, d) ← processNew none false d
  let process ← access (d.process p)
  let q ← access (umapGet d.poffToProcess (pidToPoff process.pid))
  return { d with current := q :: d.current }

/-- A call by the current process. -/
def callApi (env : Env) (call : Api) (d : Domain) : Except Stop Domain :=
  match d.current with
  | [] => .error (.fatal "Context dependent routine called without a context.")
  | cur :: oldproc =>
      match call with
      | .send target msgType msgPayload msgPayloadSz =>
          sendIndirect env.names target msgType msgPayload msgPayloadSz d
      | .spawn receiveCallback => do
          let (_, d) ← processNew receiveCallback false d
          return d
      | .spawn2 => spawnConstructor d
      | .constructed =>
          -- a receive callback returns through `ret`, not here
          if oldproc = [] ∧ d.phase ≠ .idle then .error .disabled
          else .ok { d with current := oldproc }
      | .receive receiveCallback => do
          let d ← msockReceive cur receiveCallback d
          return { d with phase := d.phase.noteReceive cur }
      | .loopexit => sendBroadcast env.names msgExit env.gids d
      | .memoryCollect => do
          let d ← sendBroadcast env.names msgGc env.gids d
          -- the outboxes are flushed inside the callback, which then goes on
          return { d with phase := .flush 0 0 false d.phase.flushFrom }

/-- `send_indirect` of `MSG_QUEUE_EMPTY` to a hungry process, and the nested `domain_run`. -/
def sendQueueEmpty (env : Env) (p : ProcId) (d : Domain) : Except Stop Domain := do
  let process ← access (d.process p)
  let d ← sendIndirect env.names process.pid msgQueueEmpty [] 0 d
  return { d with phase := .entered, cursor := some p }

/-- The return of the receive callback of `p`, in `process_run`. -/
def recvReturn (p : ProcId) (msg : Message) (recv : Recv) (d : Domain) : Except Stop Domain :=
  match recv with
  | .ok => .ok { freeMessage msg (d.emit (.consumed p msg)) with phase := .processRun p }
  | .badmatch => do
      let process ← access (d.process p)
      let d := d.setProcess p { process with badmatch := (process.badmatch.put msg).2 }
      return { d.emit (.setAside p msg) with phase := .processRun p }
  | .exit => do
      -- `process_run` returns: nothing of the process is read after it is freed
      let d ← processFree p (freeMessage msg (d.emit (.consumed p msg)))
      return { d with phase := .queueRun, current := [] }
  | .other _ => .error (.fatal "wtf?")

/-- One turn of `dispatch_local_inbox`. -/
def dispatchTurn (again : Bool) (counter : Nat) (d : Domain) : Except Stop Domain :=
  match d.localInbox.get with
  | none => .ok { d with
      -- `domain_run` breaks when a dispatch after `process_queue_run` has delivered nothing
      phase := if again ∧ counter = 0 then .flush 0 0 false .domainRun else .queueRun }
  | some (msg, localInbox) => do
      let (delivered, d) ← dispatchMsgLocal msg { d with localInbox := localInbox }
      return { d with phase := .dispatching again (counter + delivered) }

/-- One turn of `process_queue_run`. -/
def queueRunTurn (d : Domain) : Except Stop Domain := do
  let (head, busy, heads) ← access (queueGet d.queueOfBusyProcesses d.inBusyQueue)
  let d := { d with queueOfBusyProcesses := busy, inBusyQueue := heads }
  match head with
  | none => return { d with phase := .dispatching true 0 }
  -- Process can get deleted.
  | some p => return { d with phase := .processRun p, current := [p] }

/-- The head of the loop of `process_run`. -/
def processRunTurn (p : ProcId) (d : Domain) : Except Stop Domain := do
  let process ← access (d.process p)
  match process.inbox.get with
  | none => return { d with phase := .queueRun, current := [] }
  | some (msg, inbox) =>
      let _ ← access process.receiveCallback
      let d := d.setProcess p { process with inbox := inbox }
      return { d.emit (.presented p msg) with phase := .callback p msg false }

/-- One turn of `send_flush_outbox`, up to and with the splice. -/
def flushTake (gid counter : Nat) (back : FlushFrom) (victim : Bool) (d : Domain) : Domain :=
  if maxDomains ≤ gid then
    { d with phase := back.phase counter }
  else if (d.outbox gid).items = [] then
    { d with phase := .flush (gid + 1) counter false back }
  else if victim then
    -- spliced onto the victim's remote inbox; the test of its node comes next
    { d with
      outbox := Function.update d.outbox gid Queue.init
      phase := .flush gid counter true back }
  else
    -- no such domain
    { drainMessageQueue (d.outbox gid) d with
      outbox := Function.update d.outbox gid Queue.init
      phase := .flush (gid + 1) counter false back }

/-- `worker_domain_run` after a `domain_run` that flushed `egress` outboxes. -/
def workerNext (env : Env) (egress : Nat) (d : Domain) : Except Stop Domain :=
  match d.cursor with
  | none =>
      -- Haven't send anything abroad and has hungry processes.
      match egress, d.listOfHungryProcesses with
      | 0, p :: _ => sendQueueEmpty env p d
      | _, _ => .ok { d with phase := .finished }
  | some p =>
      match d.listOfHungryProcesses.dropWhile (fun q => q ≠ p) with
      -- the process under the cursor was freed: `head->next` is LIST_POISON1
      | [] => .error .fault
      | [_] => .ok { d with phase := .finished, cursor := none }
      | _ :: q :: _ => sendQueueEmpty env q d

/-- One act, if it is what the program may do next. -/
def Domain.step (env : Env) (a : Act) (d : Domain) : Except Stop Domain :=
  match a with
  | .arrive qr => .ok { d with remoteInbox := (Queue.splice qr d.remoteInbox).2 }
  | .baseSend target msgType msgPayload msgPayloadSz =>
      match d.phase with
      | .idle => do
          let d ← sendIndirect env.names target msgType msgPayload msgPayloadSz d
          return { d with phase := .flush 0 0 false .outside }
      | _ => .error .disabled
  | .baseSpawn receiveCallback hungry =>
      match d.phase with
      | .idle => do
          let (_, d) ← processNew receiveCallback hungry d
          return d
      | _ => .error .disabled
  | .baseSpawn2 =>
      match d.phase with
      | .idle => spawnConstructor d
      | _ => .error .disabled
  | .api call =>
      match d.phase with
      | .idle => callApi env call d
      | .callback _ _ _ => callApi env call d
      | _ => .error .disabled
  | .pick =>
      if d.phase = .idle ∧ d.current = [] then .ok { d with phase := .picked }
      else .error .disabled
  | .mark =>
      if d.phase = .picked then
        .ok { d with dequeued := true, phase := .entered, cursor := none }
      else .error .disabled
  | .splice =>
      if d.phase = .entered then
        .ok { d with
          remoteInbox := (Queue.splice d.remoteInbox d.localInbox).1
          localInbox := (Queue.splice d.remoteInbox d.localInbox).2
          -- the first dispatch of `domain_run` is followed by `process_queue_run` in any case
          phase := .dispatching false 0 }
      else .error .disabled
  | .dispatch =>
      match d.phase with
      | .dispatching again counter => dispatchTurn again counter d
      | _ => .error .disabled
  | .nextProcess =>
      match d.phase with
      | .queueRun => queueRunTurn d
      | _ => .error .disabled
  | .nextMessage =>
      match d.phase with
      | .processRun p => processRunTurn p d
      | _ => .error .disabled
  | .ret recv =>
      match d.phase with
      | .callback p msg _ => if d.current = [p] then recvReturn p msg recv d else .error .disabled
      | _ => .error .disabled
  | .flushTake victim =>
      match d.phase with
      | .flush gid counter false back => .ok (flushTake gid counter back victim d)
      | _ => .error .disabled
  | .flushWake dequeued =>
      match d.phase with
      | .flush gid counter true back =>
          let d := if dequeued then d.emit (.woke gid) else d
          .ok { d with phase := .flush (gid + 1) (counter + 1) false back }
      | _ => .error .disabled
  | .next =>
      match d.phase with
      | .ran egress => workerNext env egress d
      | _ => .error .disabled
  | .requeue =>
      if d.phase = .finished then
        -- the node of a domain that is not put back stays marked as dequeued
        if d.listOfProcesses = [] then .ok { d with phase := .retired }
        else .ok { d with dequeued := false, phase := .idle }
      else .error .disabled

/-- The process inside `process_run`. -/
def Phase.running : Phase → Option ProcId
  | .processRun p => some p
  | .callback p _ _ => some p
  | .flush _ _ _ (.callback p _ _) => some p
  | _ => none

/-- The process of this domain inside `process_run`. -/
def Domain.running (d : Domain) : Option ProcId := d.phase.running

/-- An act together with the tables it finds. They change as domains and names are added. -/
def Domain.act (a : Env × Act) (d : Domain) : Except Stop Domain := d.step a.1 a.2

end Msock
