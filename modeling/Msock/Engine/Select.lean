import Msock.Lib.Runs
import Msock.Engine.Fd

/-!
# msock_engine_select.c: the select engine

The engine keeps the two descriptor sets it gives to `select`. A registration adds to
one of them; only an answer or an unregistration clears them, both at once.

What `select` reports is a list of readable and one of writable descriptors; its
result is their number. Interrupted calls are retried without a trace and left out.
-/

namespace Msock

open Lib

/-- `struct select_data`. The item's `timer` is the timer of that number in `tbase`. -/
structure SelectData where
  readFds : Nat → Bool
  writeFds : Nat → Bool
  pipeRead : Nat
  /-- `items[fd].victim`. -/
  victim : Nat → Pid
  tbase : TimerBase Nat

/-- `__FD_SETSIZE`. -/
def fdSetsize : Nat := 1024

/-- The engine, the clock and what the engine has done. -/
structure SelectState where
  sd : SelectData
  /-- `msock_now_msecs`. -/
  now : BitVec 64
  notes : List FdNote

/-- Where the code ends instead of going on. -/
inductive SelectFault
  | outOfRange (fd : Nat)
  /-- Two ticks are compared whose difference is no `long`. -/
  | overflow
  deriving DecidableEq

/-- `fd_unregister`. -/
def fdUnregister (sd : SelectData) (fd : Nat) : SelectData :=
  { sd with
    readFds := Function.update sd.readFds fd false
    writeFds := Function.update sd.writeFds fd false
    victim := Function.update sd.victim fd nullPid
    tbase := timerDel sd.tbase fd }

/-- `process_handle_msg_fd`, on the engine's data. -/
def handleMsgFd (sd : SelectData) (request : MsgFdRequest) (msg : MsockMsgFd) : SelectData :=
  match request with
  | .registerRead =>
      { sd with
        readFds := Function.update sd.readFds msg.fd true
        victim := Function.update sd.victim msg.fd msg.victim
        tbase := setTimer sd.tbase msg.fd msg.expires }
  | .registerWrite =>
      { sd with
        writeFds := Function.update sd.writeFds msg.fd true
        victim := Function.update sd.victim msg.fd msg.victim
        tbase := setTimer sd.tbase msg.fd msg.expires }
  | .unregister => fdUnregister sd msg.fd

/-- `process_handle_msg_fd`. -/
def processHandleMsgFd (st : SelectState) (request : MsgFdRequest) (msg : MsockMsgFd) :
    Except SelectFault SelectState :=
  if fdSetsize ≤ msg.fd then .error (.outOfRange msg.fd)
  else
    .ok { st with
      sd := handleMsgFd st.sd request msg
      notes := st.notes ++ [requestNote request msg] }

/-! ## Waiting -/

/-- `send_msg_helper`, to the descriptor's victim, and `fd_unregister`. -/
def answerFd (st : SelectState) (answer : MsgFdAnswer) (fd : Nat) : SelectState :=
  { st with
    sd := fdUnregister st.sd fd
    notes := st.notes ++ [.sent (st.sd.victim fd) answer fd] }

/-- `timer_callback`. -/
def selectTimerCallback (fd : Nat) (st : SelectState) : SelectState := answerFd st .timeouted fd

/-- The engine's wheel. -/
def selectOwner : TimerOwner SelectState Nat where
  tbase := fun st => st.sd.tbase
  setTbase := fun st base => { st with sd := { st.sd with tbase := base } }
  tbase_setTbase := fun _ _ => rfl

/-- The first half of a round of the loop: bytes in the wake pipe are read and forgotten. -/
def readItem (readFds : List Nat) (st : SelectState) (fd : Nat) : SelectState :=
  if fd ∈ readFds then (if fd = st.sd.pipeRead then st else answerFd st .read fd) else st

/-- The second half. -/
def writeItem (writeFds : List Nat) (st : SelectState) (fd : Nat) : SelectState :=
  if fd ∈ writeFds then answerFd st .write fd else st

/-- How often a round increments `hit`. -/
def hits (readFds writeFds : List Nat) (fd : Nat) : Nat :=
  (if fd ∈ readFds then 1 else 0) + (if fd ∈ writeFds then 1 else 0)

/-- `for (fd=0; fd < __FD_SETSIZE && hit < r; fd++)`, over the descriptors that are left. -/
def selectLoop (readFds writeFds : List Nat) (r : Nat) :
    List Nat → Nat → SelectState → SelectState
  | [], _, st => st
  | fd :: fds, hit, st =>
      -- `r` counts the bits of both sets, so the loop ends when all are found
      if hit < r then
        selectLoop readFds writeFds r fds (hit + hits readFds writeFds fd)
          (writeItem writeFds (readItem readFds st fd) fd)
      else st

/-- The number `select` returns: the bits of both sets. -/
def reported (readFds writeFds : List Nat) : Nat :=
  ((List.range fdSetsize).map (hits readFds writeFds)).sum

/-- `process_block`: `select` leaves these two sets, and `now` is the clock after it. -/
def selectBlock (st : SelectState) (readFds writeFds : List Nat) (now : BitVec 64) :
    Except SelectFault SelectState :=
  if timerNextInterrupt st.sd.tbase = none then .error .overflow
  else
    let st := selectLoop readFds writeFds (reported readFds writeFds) (List.range fdSetsize) 0 st
    -- the clock is set after the loop, and the timers run last
    match timersRun selectOwner selectTimerCallback { st with now := now } now with
    | none => .error .overflow
    | some run => .ok run.2

/-- What happens to the engine. -/
inductive SelectAct
  /-- A message is delivered to the engine. -/
  | msg (request : MsgFdRequest) (msg : MsockMsgFd)
  /-- The engine's inbox is empty: it blocks. -/
  | block (readFds writeFds : List Nat) (now : BitVec 64)
  /-- Another engine sets the clock. -/
  | clock (now : BitVec 64)

/-- One act. -/
def selectStep : SelectAct → SelectState → Except SelectFault SelectState
  | .msg request msg, st => processHandleMsgFd st request msg
  | .block readFds writeFds now, st => selectBlock st readFds writeFds now
  | .clock now, st => .ok { st with now := now }

/-- `select_constructor`: the structure is zeroed and the read end of the wake pipe
registered for the engine itself. -/
def selectConstructor (pipeRead : Nat) (pid : Pid) (now : BitVec 64) :
    Except SelectFault SelectState :=
  processHandleMsgFd
    { sd :=
        { readFds := fun _ => false
          writeFds := fun _ => false
          pipeRead := pipeRead
          victim := fun _ => nullPid
          tbase := initTimerBase now }
      now := now
      notes := [] }
    .registerRead ⟨pid, pipeRead, 0⟩

end Msock
