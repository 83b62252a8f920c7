import Msock.Lib.Layout
import Msock.Base.Boot
import Msock.Base.Service

/-!
# The engine of file operations

`msock_engine_io.c` and `io.c`. A client asks for an `open`, a `pread` or an `fsync` by sending
the arguments to the engine, together with its own pid. The engine makes the system call, which
may block, and sends the same struct back with the result filled in. Every client is answered
each of its requests once, in the order in which it made them.
-/

namespace Msock

open Lib

/-- `MSG_IO_FSYNC`. -/
def msgIoFsync : Int := 7
/-- `MSG_IO_OPEN`. -/
def msgIoOpen : Int := 8
/-- `MSG_IO_PREAD`. -/
def msgIoPread : Int := 9

/-- `struct msock_msg_io`. Pointers and `uint64_t` have 64 bits, an `int` has 32. -/
structure MsockMsgIo where
  victim : Pid
  fd : BitVec 32
  buf : BitVec 64
  count : BitVec 64
  offset : BitVec 64
  pathname : BitVec 64
  flags : BitVec 32
  mode : BitVec 32
  ret : BitVec 32
  savedErrno : BitVec 32
  deriving DecidableEq

/-- After `memset(&msg, 0, sizeof(msg))`. -/
def MsockMsgIo.zero : MsockMsgIo := ⟨0, 0, 0, 0, 0, 0, 0, 0, 0, 0⟩

/-- What a client asks for. -/
inductive IoRequest where
  | fsync (fd : BitVec 32)
  | openPath (pathname : BitVec 64) (flags mode : BitVec 32)
  | pread (fd : BitVec 32) (buf count offset : BitVec 64)
  deriving DecidableEq

/-- The system calls of the engine: on files, and `read` and `close` on the pipe that wakes it. -/
inductive SysCall where
  | file (request : IoRequest)
  | readPipe
  | closePipe
  deriving DecidableEq

/-- What a system call returns, an `int` in the low half, and the `errno` it leaves. -/
structure SysResult where
  ret : BitVec 64
  errno : BitVec 32
  deriving DecidableEq

/-! ## System calls -/

/-- `io_open`: the descriptor, and what is then in `*errno_ptr`. -/
def ioOpen (res : SysResult) (savedErrno : BitVec 32) : BitVec 32 × BitVec 32 :=
  let r := res.ret.setWidth 32
  (r, if r = -1 then res.errno else savedErrno)

/-- `io_fsync`. -/
def ioFsync (res : SysResult) (savedErrno : BitVec 32) : BitVec 32 × BitVec 32 :=
  let r := res.ret.setWidth 32
  (r, if r ≠ 0 then res.errno else savedErrno)

/-- `io_pread`: the `ssize_t` goes through an `int`. -/
def ioPread (res : SysResult) (savedErrno : BitVec 32) : BitVec 32 × BitVec 32 :=
  let r := res.ret.setWidth 32
  (r, if r = -1 then res.errno else savedErrno)

/-! ## The engine and its clients -/

section
variable (layout : Layout MsockMsgIo)

/-- `process_callback`, of the system calls made so far. -/
def ioProcessCallback : Service (List SysCall) SysResult := fun calls msgType msgPayload res =>
  let msg := layout.decode msgPayload
  let answer := fun call (out : MsockMsgIo) =>
    .ok (calls ++ [SysCall.file call], [⟨msg.victim, msgType, layout.encode out, layout.size⟩], .ok)
  if msgType = msgIoFsync then
    let (ret, savedErrno) := ioFsync res msg.savedErrno
    answer (.fsync msg.fd) { msg with ret, savedErrno }
  else if msgType = msgIoPread then
    let (r, savedErrno) := ioPread res msg.savedErrno
    -- `out.count` is a `uint64_t`: a negative number is extended with its sign
    answer (.pread msg.fd msg.buf msg.count msg.offset)
      { msg with count := r.signExtend 64, savedErrno }
  else if msgType = msgIoOpen then
    let (fd, savedErrno) := ioOpen res msg.savedErrno
    answer (.openPath msg.pathname msg.flags msg.mode) { msg with fd, savedErrno }
  else if msgType = msgExit then .ok (calls ++ [.closePipe], [], .exit)
  else if msgType = msgQueueEmpty then .ok (calls ++ [.readPipe], [], .ok)
  else .error (.fatal "?")

/-- `msg_io_send_helper`. -/
def msgIoSendHelper (msgType : Int) (msg : MsockMsgIo) : Outgoing :=
  ⟨pidIo, msgType, layout.encode msg, layout.size⟩

/-- `msock_io_fsync`, called in the process `self`. -/
def msockIoFsync (self : Pid) (fd : BitVec 32) : Outgoing :=
  msgIoSendHelper layout msgIoFsync { MsockMsgIo.zero with victim := self, fd }

/-- `msock_io_open`. -/
def msockIoOpen (self : Pid) (pathname : BitVec 64) (flags mode : BitVec 32) : Outgoing :=
  msgIoSendHelper layout msgIoOpen { MsockMsgIo.zero with victim := self, pathname, flags, mode }

/-- `msock_io_pread`. -/
def msockIoPread (self : Pid) (fd : BitVec 32) (buf count offset : BitVec 64) : Outgoing :=
  msgIoSendHelper layout msgIoPread { MsockMsgIo.zero with victim := self, fd, buf, count, offset }

/-- What a client sends for a request. -/
def IoRequest.send (self : Pid) : IoRequest → Outgoing
  | .fsync fd => msockIoFsync layout self fd
  | .openPath pathname flags mode => msockIoOpen layout self pathname flags mode
  | .pread fd buf count offset => msockIoPread layout self fd buf count offset

/-- The letter that comes to the process `engine` when the domain `v` sends it there. -/
def IoRequest.letter (v : Nat) (engine self : Pid) (request : IoRequest) : Letter :=
  (Outgoing.message v { request.send layout self with target := engine }).letter

end

/-- The struct that a request is answered with: what was asked, with the result filled in. -/
def IoRequest.answer (self : Pid) (res : SysResult) : IoRequest → MsockMsgIo
  | .fsync fd =>
      { MsockMsgIo.zero with
        victim := self, fd, ret := (ioFsync res 0).1, savedErrno := (ioFsync res 0).2 }
  | .openPath pathname flags mode =>
      { MsockMsgIo.zero with
        victim := self, pathname, flags, mode, fd := (ioOpen res 0).1
        savedErrno := (ioOpen res 0).2 }
  | .pread fd buf _ offset =>
      { MsockMsgIo.zero with
        victim := self, fd, buf, offset, count := (ioPread res 0).1.signExtend 64
        savedErrno := (ioPread res 0).2 }

variable {layout : Layout MsockMsgIo} {self engine : Pid} {request : IoRequest} {v g : Nat}

/-- The letter that the client gets back from the domain `g`. -/
def IoRequest.reply (layout : Layout MsockMsgIo) (g : Nat) (self : Pid) (res : SysResult)
    (request : IoRequest) : Letter :=
  ⟨g, self, (request.send layout self).msgType, layout.size,
    layout.encode (request.answer self res)⟩

/-! ## One message -/

/-- The system calls the callback makes for a message. -/
def ioCalls (layout : Layout MsockMsgIo) (m : Message × SysResult) : List SysCall :=
  match ioProcessCallback layout [] m.1.msgType m.1.msgPayload m.2 with
  | .ok (calls, _, _) => calls
  | .error _ => []

/-- What it sends. -/
def ioSends (layout : Layout MsockMsgIo) (m : Message × SysResult) : List Outgoing :=
  match ioProcessCallback layout [] m.1.msgType m.1.msgPayload m.2 with
  | .ok (_, sends, _) => sends
  | .error _ => []

/-- One system call is made, and the calls made before only go into the list. -/
theorem ioProcessCallback_calls {calls calls' : List SysCall} {msgType : Int}
    {msgPayload : List UInt8} {res : SysResult} {sends : List Outgoing} {recv : Recv}
    (h : ioProcessCallback layout calls msgType msgPayload res = .ok (calls', sends, recv)) :
    ∃ made, calls' = calls ++ [made] ∧
      ioProcessCallback layout [] msgType msgPayload res = .ok ([made], sends, recv) := by
  unfold ioProcessCallback at h ⊢
  dsimp only at h ⊢
  split at h
  · rename_i hty
    rw [if_pos hty]
    cases h
    exact ⟨_, rfl, rfl⟩
  · rename_i hfsync
    rw [if_neg hfsync]
    split at h
    · rename_i hty
      rw [if_pos hty]
      cases h
      exact ⟨_, rfl, rfl⟩
    · rename_i hpread
      rw [if_neg hpread]
      split at h
      · rename_i hty
        rw [if_pos hty]
        cases h
        exact ⟨_, rfl, rfl⟩
      · rename_i hopen
        rw [if_neg hopen]
        split at h
        · rename_i hty
          rw [if_pos hty]
          cases h
          exact ⟨_, rfl, rfl⟩
        · rename_i hexit
          rw [if_neg hexit]
          split at h
          · rename_i hty
            rw [if_pos hty]
            cases h
            exact ⟨_, rfl, rfl⟩
          · cases h

/-- What the callback does for a message, with one system call, does not depend on what it did
before. -/
theorem ioRespond {calls calls' : List SysCall} {m : Message × SysResult} {sends : List Outgoing}
    (h : (ioProcessCallback layout).respond calls m = .ok (calls', sends)) :
    calls' = calls ++ ioCalls layout m ∧ sends = ioSends layout m ∧
      (ioCalls layout m).length = 1 := by
  rw [Service.respond] at h
  split at h
  · rename_i calls₁ sends₁ recv hcallback
    cases h
    obtain ⟨made, rfl, hmade⟩ := ioProcessCallback_calls hcallback
    rw [ioCalls, ioSends, hmade]
    exact ⟨rfl, rfl, rfl⟩
  · cases h

/-- **What the engine does with a request that a client made.** -/
theorem io_request {m : Message × SysResult} (h : m.1.letter = request.letter layout v engine self) :
    ioCalls layout m = [.file request] ∧
      ioSends layout m = [⟨self, (request.send layout self).msgType,
        layout.encode (request.answer self m.2), layout.size⟩] := by
  obtain ⟨msg, res⟩ := m
  -- the payload begins with the struct that the client filled in
  have hpayload : ∀ {msgType : Int} {sent : MsockMsgIo},
      request.send layout self = msgIoSendHelper layout msgType sent →
      msg.msgType = msgType ∧ layout.decode msg.msgPayload = sent := by
    intro msgType sent hsend
    rw [IoRequest.letter, hsend, Message.letter, Message.letter] at h
    injection h with _ _ htype hsize hbytes
    refine ⟨htype, ?_⟩
    have htake : msg.msgPayload.take msg.msgPayloadSz = layout.encode sent := by
      rw [hbytes]
      simp [Outgoing.message, msgIoSendHelper, ← layout.length_encode sent]
    rw [← List.take_append_drop msg.msgPayloadSz msg.msgPayload, htake, layout.decode_encode]
  rw [ioCalls, ioSends]
  cases request with
  | fsync fd =>
      obtain ⟨htype, hsent⟩ := hpayload rfl
      have hcallback : ioProcessCallback layout [] msg.msgType msg.msgPayload res
          = .ok ([.file (.fsync fd)], [⟨self, msgIoFsync,
              layout.encode ((IoRequest.fsync fd).answer self res), layout.size⟩], .ok) := by
        unfold ioProcessCallback
        rw [htype, hsent]
        rfl
      rw [hcallback]
      exact ⟨rfl, rfl⟩
  | openPath pathname flags mode =>
      obtain ⟨htype, hsent⟩ := hpayload rfl
      have hcallback : ioProcessCallback layout [] msg.msgType msg.msgPayload res
          = .ok ([.file (.openPath pathname flags mode)], [⟨self, msgIoOpen,
              layout.encode ((IoRequest.openPath pathname flags mode).answer self res),
              layout.size⟩], .ok) := by
        unfold ioProcessCallback
        rw [htype, hsent]
        rfl
      rw [hcallback]
      exact ⟨rfl, rfl⟩
  | pread fd buf count offset =>
      obtain ⟨htype, hsent⟩ := hpayload rfl
      have hcallback : ioProcessCallback layout [] msg.msgType msg.msgPayload res
          = .ok ([.file (.pread fd buf count offset)], [⟨self, msgIoPread,
              layout.encode ((IoRequest.pread fd buf count offset).answer self res),
              layout.size⟩], .ok) := by
        unfold ioProcessCallback
        rw [htype, hsent]
        rfl
      rw [hcallback]
      exact ⟨rfl, rfl⟩

/-- The engine sends to the victim only, and only for a request. -/
theorem ioSends_victim {m : Message × SysResult} {o : Outgoing} (h : o ∈ ioSends layout m) :
    o.target = (layout.decode m.1.msgPayload).victim ∧
      m.1.msgType ∈ [msgIoFsync, msgIoPread, msgIoOpen] := by
  rw [ioSends] at h
  unfold ioProcessCallback at h
  dsimp only at h
  split at h
  · rename_i calls sends recv hcallback
    by_cases hfsync : m.1.msgType = msgIoFsync
    · rw [if_pos hfsync] at hcallback
      cases hcallback
      rw [List.mem_singleton.1 h, hfsync]
      exact ⟨rfl, by decide⟩
    rw [if_neg hfsync] at hcallback
    by_cases hpread : m.1.msgType = msgIoPread
    · rw [if_pos hpread] at hcallback
      cases hcallback
      rw [List.mem_singleton.1 h, hpread]
      exact ⟨rfl, by decide⟩
    rw [if_neg hpread] at hcallback
    by_cases hopen : m.1.msgType = msgIoOpen
    · rw [if_pos hopen] at hcallback
      cases hcallback
      rw [List.mem_singleton.1 h, hopen]
      exact ⟨rfl, by decide⟩
    rw [if_neg hopen] at hcallback
    split at hcallback
    · cases hcallback
      cases h
    · split at hcallback
      · cases hcallback
        cases h
      · cases hcallback
  · cases h

/-! ## The requests of one domain -/

variable {client : Pid}

/-- What the process `client` is sent for a message. -/
def repliesTo (layout : Layout MsockMsgIo) (g : Nat) (client : Pid) (m : Message × SysResult) :
    List Letter :=
  lettersFor client ((ioSends layout m).map (Outgoing.message g))

theorem lettersFor_flatMap (served : List (Message × SysResult)) :
    lettersFor client ((served.flatMap (ioSends layout)).map (Outgoing.message g))
      = served.flatMap (repliesTo layout g client) := by
  induction served with
  | nil => rfl
  | cons m served ih =>
      rw [List.flatMap_cons, List.map_append, lettersFor_append, ih, List.flatMap_cons]
      rfl

/-- A request is answered to the process that made it. -/
theorem repliesTo_request {m : Message × SysResult}
    (h : m.1.letter = request.letter layout v engine self) (hself : pidToPoff self ≠ 0) :
    repliesTo layout g client m
      = if self = client then [request.reply layout g self m.2] else [] := by
  have hfor : (Outgoing.message g ⟨self, (request.send layout self).msgType,
      layout.encode (request.answer self m.2), layout.size⟩).IsFor client ↔ self = client :=
    ⟨fun hfor => hfor.elim id fun hall => absurd hall.1 hself, .inl⟩
  rw [repliesTo, (io_request h).2, List.map_singleton, lettersFor_singleton, if_congr hfor rfl rfl]
  congr 2
  simp [Outgoing.message, Message.letter, IoRequest.reply,
    List.take_of_length_le (layout.length_encode _).le]

/-- A request that names a process of its own domain is not answered to another domain. -/
theorem repliesTo_elsewhere {m : Message × SysResult}
    (hown : m.1.msgType ∈ [msgIoFsync, msgIoPread, msgIoOpen] →
      pidToGid (layout.decode m.1.msgPayload).victim = m.1.src)
    (hne : m.1.src ≠ pidToGid client) : repliesTo layout g client m = [] := by
  have hnone : ((ioSends layout m).map (Outgoing.message g)).filter
      (fun msg => msg.IsFor client) = [] := by
    refine List.filter_eq_nil_iff.2 fun msg hmsg => ?_
    obtain ⟨o, ho, rfl⟩ := List.mem_map.1 hmsg
    obtain ⟨htarget, htype⟩ := ioSends_victim ho
    have hgid : pidToGid (Outgoing.message g o).target = m.1.src := by
      rw [← hown htype, ← htarget]
      rfl
    rw [decide_eq_true_iff]
    intro hfor
    exact hne (hgid.symm.trans hfor.gid)
  rw [repliesTo, lettersFor, hnone]
  rfl

/-- So only the requests of the client's own domain count. -/
theorem repliesTo_domain {served : List (Message × SysResult)} (hv : pidToGid client = v)
    (hown : ∀ m ∈ served, m.1.msgType ∈ [msgIoFsync, msgIoPread, msgIoOpen] →
      pidToGid (layout.decode m.1.msgPayload).victim = m.1.src) :
    served.flatMap (repliesTo layout g client)
      = (served.filter (fun m => m.1.src = v)).flatMap (repliesTo layout g client) := by
  induction served with
  | nil => rfl
  | cons m served ih =>
      have hrest := ih fun m' hm' => hown m' (List.mem_cons_of_mem m hm')
      by_cases hsrc : m.1.src = v
      · rw [List.filter_cons_of_pos (by simpa using hsrc), List.flatMap_cons, List.flatMap_cons, hrest]
      · rw [List.filter_cons_of_neg (by simpa using hsrc), List.flatMap_cons, hrest,
          repliesTo_elsewhere (hown m List.mem_cons_self) (hv ▸ hsrc), List.nil_append]

/-- A request that was served: who made it, what it was, and what the system call returned. -/
abbrev Answered := (Pid × IoRequest) × SysResult

variable (g client) in
/-- Whatever messages the requests came in, the engine calls the system for each and answers
each. -/
theorem io_requests {fromDomain : List (Message × SysResult)} {requests : List (Pid × IoRequest)}
    (h : requests.map (fun r => r.2.letter layout v engine r.1)
      = fromDomain.map (fun m => m.1.letter)) (hself : ∀ r ∈ requests, pidToPoff r.1 ≠ 0) :
    ∃ done : List Answered, done.map Prod.fst = requests ∧
      done.map Prod.snd = fromDomain.map Prod.snd ∧
      fromDomain.flatMap (ioCalls layout) = done.map (fun a => .file a.1.2) ∧
      fromDomain.flatMap (repliesTo layout g client) = (done.filter (fun a => a.1.1 = client)).map
        (fun a => a.1.2.reply layout g a.1.1 a.2) := by
  induction fromDomain generalizing requests with
  | nil =>
      obtain rfl := List.map_eq_nil_iff.1 h
      exact ⟨[], rfl, rfl, rfl, rfl⟩
  | cons m fromDomain ih =>
      cases requests with
      | nil => cases h
      | cons r requests =>
          obtain ⟨hletter, hletters⟩ := List.cons.inj h
          obtain ⟨done, hdone, hresults, hcalls, hreplies⟩ :=
            ih hletters fun r' hr' => hself r' (List.mem_cons_of_mem r hr')
          refine ⟨(r, m.2) :: done, ?_, ?_, ?_, ?_⟩
          · rw [List.map_cons, hdone]
          · rw [List.map_cons, List.map_cons, hresults]
          · rw [List.flatMap_cons, (io_request hletter.symm).1, hcalls]
            rfl
          · rw [List.flatMap_cons, hreplies,
              repliesTo_request hletter.symm (hself r List.mem_cons_self)]
            by_cases hclient : r.1 = client
            · rw [if_pos hclient, List.filter_cons_of_pos (by simpa using hclient)]
              rfl
            · rw [if_neg hclient, List.filter_cons_of_neg (by simpa using hclient)]
              rfl

/-! ## End to end -/

/-- `struct msock_msg_io` on a 64-bit machine: 64 bytes, four of them behind `fd` unused. -/
def msockMsgIoLayout : Layout MsockMsgIo :=
  let long : Layout (BitVec 64) := .word 8
  let int : Layout (BitVec 32) := .word 4
  (long.pair <| (int.padded 4).pair <| long.pair <| long.pair <| long.pair <| long.pair <|
      int.pair <| int.pair <| int.pair int).named
    (fun m => (m.victim, m.fd, m.buf, m.count, m.offset, m.pathname, m.flags, m.mode, m.ret,
      m.savedErrno))
    (fun (victim, fd, buf, count, offset, pathname, flags, mode, ret, savedErrno) =>
      ⟨victim, fd, buf, count, offset, pathname, flags, mode, ret, savedErrno⟩)
    fun _ => rfl

/-- It fits into a message. -/
example : msockMsgIoLayout.size = 64 ∧ msockMsgIoLayout.size ≤ maxMsgPayloadSz := by decide

/-- A process of the user's domain. -/
def clientPid : Pid := poffGidToPid 8 1

/-- The base with the engine in domain 2 and the client in domain 1. -/
def ioBaseActs : List BaseAct :=
  [.domainNew 8, .domainNew 1, .run 2 (.baseSpawn (some 0) true), .register enginePid pidIo,
    .run 1 (.baseSpawn (some 1) false)]

/-- The client asks for `fsync(3)`, which fails with `errno` 5, and its domain takes the answer in. -/
def fsyncActs : List (BaseAct × SysResult) :=
  let asked := (IoRequest.fsync 3).send msockMsgIoLayout clientPid
  let answered : Outgoing := ⟨clientPid, msgIoFsync,
    msockMsgIoLayout.encode ((IoRequest.fsync 3).answer clientPid ⟨-1, 5⟩), 64⟩
  ([.run 1 (.baseSend asked.target asked.msgType asked.msgPayload asked.msgPayloadSz), .flush 1,
    .flush 1, .flush 1, .wake 1, .flush 1, .flush 1, .flush 1, .run 2 .pick, .run 2 .mark,
    .run 2 .splice, .run 2 .dispatch, .run 2 .dispatch, .run 2 .nextProcess, .run 2 .nextMessage,
    .run 2 (.api answered.call), .run 2 (.ret .ok), .run 2 .nextMessage, .run 2 .nextProcess,
    .run 2 .dispatch, .flush 2, .flush 2, .wake 2, .run 1 .pick, .run 1 .mark, .run 1 .splice,
    .run 1 .dispatch] : List BaseAct).map (fun a => (a, ⟨-1, 5⟩))

end Msock
