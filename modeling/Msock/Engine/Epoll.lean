import Msock.Lib.Runs
import Msock.Engine.Fd

/-!
# msock_engine_epoll.c: the epoll engine

The engine keeps for each descriptor the mask that was asked for and the mask it
believes the kernel has; descriptors for which they differ wait on a list and are
told to the kernel at the start of `process_block`. Events and timeouts are answered
once: they take the registration back.

The kernel is modelled by the descriptors that are open and by the interest set of
`epfd`. Between two messages a user may close a descriptor, which silently takes it
out of the interest set, and open one under the same number. `epoll_wait` may report
any of the descriptors it watches, each once and with any event bits; interrupted
waits are retried without a trace and left out.
-/

namespace Msock

open Lib

/-- A mask of `EPOLL*` bits, an `int`. -/
abbrev EpollMask := BitVec 32

/-- `EPOLLIN`. -/
def epollIn : EpollMask := 0x1

/-- `EPOLLOUT`. -/
def epollOut : EpollMask := 0x4

/-- `EPOLLERR`. -/
def epollErr : EpollMask := 0x8

/-- `EPOLLHUP`. -/
def epollHup : EpollMask := 0x10

/-- The mask a message asks for. -/
def requestMask : MsgFdRequest → EpollMask
  | .registerRead => epollIn
  | .registerWrite => epollOut
  | .unregister => 0

/-! ## The kernel -/

/-- The errors of `epoll_ctl` that matter here. -/
inductive Errno
  | ebadf
  | enoent
  | eexist
  deriving DecidableEq

/-- The first argument of `epoll_ctl` that varies. -/
inductive EpollOp
  | add
  | mod
  | del
  deriving DecidableEq

/-- What the kernel knows about the process's descriptors. -/
structure Kernel where
  opened : Nat → Bool
  /-- The interest set of `epfd`. -/
  interest : Nat → Option EpollMask

/-- `epoll_ctl`. -/
def epollCtl (kernel : Kernel) (op : EpollOp) (fd : Nat) (events : EpollMask) :
    Except Errno Kernel :=
  if kernel.opened fd = false then .error .ebadf
  else
    match op, kernel.interest fd with
    | .add, none => .ok { kernel with interest := Function.update kernel.interest fd events }
    | .add, some _ => .error .eexist
    | .mod, some _ => .ok { kernel with interest := Function.update kernel.interest fd events }
    | .mod, none => .error .enoent
    | .del, some _ => .ok { kernel with interest := Function.update kernel.interest fd none }
    | .del, none => .error .enoent

/-- `close`: a closed descriptor leaves every interest set. -/
def Kernel.close (kernel : Kernel) (fd : Nat) : Kernel where
  opened := Function.update kernel.opened fd false
  interest := Function.update kernel.interest fd none

/-- A call that makes a new descriptor. -/
def Kernel.openFd (kernel : Kernel) (fd : Nat) : Kernel :=
  { kernel with opened := Function.update kernel.opened fd true }

/-- What `epoll_wait` may report. -/
def Kernel.Reports (kernel : Kernel) (events : List (Nat × EpollMask)) : Prop :=
  (events.map Prod.fst).Nodup ∧
    ∀ ev ∈ events, (kernel.interest ev.1).getD 0 ≠ 0

instance (kernel : Kernel) (events : List (Nat × EpollMask)) :
    Decidable (kernel.Reports events) := by
  unfold Kernel.Reports; infer_instance

/-! ## The engine -/

/-- `struct local_item`. Its `in_list` is linked when the descriptor is on `changed`, its
`timer` is the timer of that number in `tbase`. -/
structure LocalItem where
  newMask : EpollMask
  epollMask : EpollMask
  victim : Pid

/-- `struct local_data`. -/
structure LocalData where
  pipeRead : Nat
  mapSz : Nat
  map : Nat → LocalItem
  changed : List Nat
  tbase : TimerBase Nat

/-- The engine, the kernel, the clock and what the engine has done. -/
structure EpollState where
  sd : LocalData
  kernel : Kernel
  /-- `msock_now_msecs`. -/
  now : BitVec 64
  /-- Descriptors opened since the last time the engine told the kernel its changes. -/
  reopened : Nat → Bool
  notes : List FdNote

/-- Where the code ends instead of going on. -/
inductive EpollFault
  | pfatal (errno : Errno)
  | wtf
  | ftf
  | outOfMap
  /-- Two ticks are compared whose difference is no `long`. -/
  | overflow
  | notReported
  | notOpen
  | isOpen
  deriving DecidableEq

/-- `schedule_change`. -/
def scheduleChange (sd : LocalData) (victim : Pid) (fd : Nat) (newMask : EpollMask)
    (expires : BitVec 64) : LocalData :=
  let li := sd.map fd
  { sd with
    map := Function.update sd.map fd { li with victim := victim, newMask := newMask }
    changed :=
      -- back to what the kernel knows already, there is nothing to tell it
      if newMask = li.epollMask then
        if fd ∈ sd.changed then sd.changed.erase fd else sd.changed
      else
        if fd ∈ sd.changed then sd.changed else sd.changed ++ [fd]
    tbase := setTimer sd.tbase fd expires }

/-- `send_msg_helper`. -/
def sendMsgHelper (st : EpollState) (victim : Pid) (answer : MsgFdAnswer) (fd : Nat) :
    EpollState :=
  { st with notes := st.notes ++ [.sent victim answer fd] }

/-- `timer_callback`. -/
def epollTimerCallback (fd : Nat) (st : EpollState) : EpollState :=
  let victim := (st.sd.map fd).victim
  let st := sendMsgHelper st victim .timeouted fd
  -- the item keeps its victim here, unlike after an event
  { st with sd := scheduleChange st.sd victim fd 0 0 }

/-- The engine's wheel. -/
def epollOwner : TimerOwner EpollState Nat where
  tbase := fun st => st.sd.tbase
  setTbase := fun st base => { st with sd := { st.sd with tbase := base } }
  tbase_setTbase := fun _ _ => rfl

/-- The call of `epoll_ctl` that tells the kernel about an item. -/
def flushOp (li : LocalItem) : EpollOp :=
  if li.newMask ≠ 0 then (if li.epollMask = 0 then .add else .mod) else .del

/-- `list_del_init(&li->in_list)` and `li->epoll_mask = li->new_mask`. -/
def told (st : EpollState) (fd : Nat) (kernel : Kernel) : EpollState :=
  let li := st.sd.map fd
  { st with
    sd := { st.sd with
      changed := st.sd.changed.erase fd
      map := Function.update st.sd.map fd { li with epollMask := li.newMask } }
    kernel := kernel }

/-- One round of the loop over `changed`. -/
def flushItem (st : EpollState) (fd : Nat) : Except EpollFault EpollState :=
  let li := st.sd.map fd
  if li.newMask = 0 ∧ li.epollMask = 0 then .error .wtf
  else
    match epollCtl st.kernel (flushOp li) fd li.newMask with
    | .ok kernel => .ok (told st fd kernel)
    | .error errno =>
        -- a descriptor that is closed by now has left the interest set by itself
        if flushOp li = .del ∧ errno = .ebadf then .ok (told st fd st.kernel)
        else .error (.pfatal errno)

/-- The loop over `changed`, with which `process_block` begins. -/
def flushChanged (st : EpollState) : Except EpollFault EpollState := do
  let st ← st.sd.changed.foldlM flushItem st
  .ok { st with reopened := fun _ => false }

/-- `delta_msecs`, as the `int` that `epoll_wait` takes. -/
def waitTimeout (st : EpollState) : Option (BitVec 32) :=
  -- an expiry behind the clock makes it negative, which `epoll_wait` takes for no limit
  (timerNextInterrupt st.sd.tbase).map fun expires => (expires - st.now).truncate 32

/-- The answer an event asks for; bytes in the wake pipe are read and forgotten. -/
def eventAnswer (sd : LocalData) (fd : Nat) (events : EpollMask) :
    Except EpollFault (Option MsgFdAnswer) :=
  if events &&& epollIn ≠ 0 then .ok (if fd = sd.pipeRead then none else some .read)
  else if events &&& epollOut ≠ 0 then .ok (some .write)
  else if events &&& (epollErr ||| epollHup) ≠ 0 then .ok (some .close)
  else .error .ftf

/-- One round of the loop over the events. -/
def handleEvent (st : EpollState) (ev : Nat × EpollMask) : Except EpollFault EpollState :=
  let fd := ev.1
  match eventAnswer st.sd fd ev.2 with
  | .error fault => .error fault
  | .ok none => .ok st
  | .ok (some answer) =>
      let st := sendMsgHelper st (st.sd.map fd).victim answer fd
      .ok { st with sd := scheduleChange st.sd nullPid fd 0 0 }

/-- `set_msock_now_msecs` and `timers_run`. -/
def epollTimers (st : EpollState) (now : BitVec 64) : Except EpollFault EpollState :=
  match timersRun epollOwner epollTimerCallback { st with now := now } now with
  | none => .error .overflow
  | some run => .ok run.2

/-- `process_block`: `events` is what `epoll_wait` reports, `now` the clock after it. -/
def processBlock (st : EpollState) (events : List (Nat × EpollMask)) (now : BitVec 64) :
    Except EpollFault EpollState := do
  let st ← flushChanged st
  if waitTimeout st = none then .error .overflow
  else if st.kernel.Reports events then
    let st ← events.foldlM handleEvent st
    epollTimers st now
  else .error .notReported

/-- `process_callback`, of one of the three messages. -/
def epollHandleMsg (st : EpollState) (request : MsgFdRequest) (msg : MsockMsgFd) :
    Except EpollFault EpollState :=
  if msg.fd < st.sd.mapSz then
    let sd := match request with
      | .registerRead => scheduleChange st.sd msg.victim msg.fd epollIn msg.expires
      | .registerWrite => scheduleChange st.sd msg.victim msg.fd epollOut msg.expires
      | .unregister => scheduleChange st.sd msg.victim msg.fd 0 0
    .ok { st with sd := sd, notes := st.notes ++ [requestNote request msg] }
  else .error .outOfMap

/-! ## Runs -/

/-- What happens to the engine and around it. -/
inductive EpollAct
  /-- A message is delivered to the engine. -/
  | msg (request : MsgFdRequest) (msg : MsockMsgFd)
  /-- The engine's inbox is empty: it blocks until `events`, and finds the clock at `now`. -/
  | block (events : List (Nat × EpollMask)) (now : BitVec 64)
  /-- Another engine sets the clock. -/
  | clock (now : BitVec 64)
  /-- A descriptor is closed. -/
  | close (fd : Nat)
  /-- A descriptor is opened. -/
  | openFd (fd : Nat)

/-- One act. -/
def epollStep : EpollAct → EpollState → Except EpollFault EpollState
  | .msg request msg, st => epollHandleMsg st request msg
  | .block events now, st => processBlock st events now
  | .clock now, st => .ok { st with now := now }
  | .close fd, st =>
      if st.kernel.opened fd then .ok { st with kernel := st.kernel.close fd }
      else .error .notOpen
  | .openFd fd, st =>
      if st.kernel.opened fd then .error .isOpen
      else
        .ok { st with
          kernel := st.kernel.openFd fd
          reopened := Function.update st.reopened fd true }

/-- `epoll_constructor`, for a process whose descriptors `opened` are open: the table is
zeroed and the read end of the wake pipe registered for the engine itself. -/
def epollConstructor (opened : Nat → Bool) (mapSz pipeRead : Nat) (pid : Pid)
    (now : BitVec 64) : EpollState where
  sd := scheduleChange
    { pipeRead := pipeRead
      mapSz := mapSz
      map := fun _ => ⟨0, 0, nullPid⟩
      changed := []
      tbase := initTimerBase now }
    pid pipeRead epollIn 0
  kernel := ⟨Function.update opened pipeRead true, fun _ => none⟩
  now := now
  reopened := fun _ => false
  notes := [.registered .registerRead pipeRead pid]

end Msock
