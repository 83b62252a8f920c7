import Msock.Pid
import Msock.Timer.Lists

/-!
# msock_engine_fd.c: talking to the descriptor engine

The messages that the process registered as `PID_SELECT` takes and the ones it
answers with, whichever of the two engines it is. A registration is answered by at
most one message; its timeout is turned into an absolute expiry by the sender.
-/

namespace Msock

/-- The messages to the engine. -/
inductive MsgFdRequest
  | registerRead
  | registerWrite
  | unregister
  deriving DecidableEq

/-- The messages from the engine. -/
inductive MsgFdAnswer
  | read
  | write
  | close
  | timeouted
  deriving DecidableEq

/-- `NULL`, as a pid. -/
def nullPid : Pid := 0

/-- `struct msock_msg_fd`. -/
structure MsockMsgFd where
  victim : Pid
  fd : Nat
  /-- An absolute time, 0 for none. -/
  expires : BitVec 64

/-- The message `msock_victim_send_msg_fd` builds when the clock shows `now`. -/
def msockVictimSendMsgFd (now : BitVec 64) (victim : Pid) (fd : Nat)
    (timeoutMsecs : BitVec 64) : MsockMsgFd where
  victim := victim
  fd := fd
  expires := if timeoutMsecs ≠ 0 then now + timeoutMsecs else 0

/-- What an engine has done about a descriptor: taken a registration, taken it back, or
sent an answer. -/
inductive FdNote
  | registered (request : MsgFdRequest) (fd : Nat) (victim : Pid)
  | unregistered (fd : Nat)
  | sent (victim : Pid) (answer : MsgFdAnswer) (fd : Nat)
  deriving DecidableEq

/-- The descriptor a note is about. -/
def FdNote.fd : FdNote → Nat
  | .registered _ fd _ => fd
  | .unregistered fd => fd
  | .sent _ _ fd => fd

/-- The note is an answer. -/
def FdNote.isSent : FdNote → Bool
  | .sent _ _ _ => true
  | _ => false

/-- The note a message leaves. -/
def requestNote (request : MsgFdRequest) (msg : MsockMsgFd) : FdNote :=
  match request with
  | .unregister => .unregistered msg.fd
  | request => .registered request msg.fd msg.victim

/-- The last note about a descriptor. -/
def latestNote (fd : Nat) (notes : List FdNote) : Option FdNote :=
  (notes.filter (fun note => note.fd = fd)).getLast?

/-- Every answer follows, of all that happened about its descriptor, a registration, and
goes to that registration's victim. -/
def OneShot (notes : List FdNote) : Prop :=
  ∀ before victim answer fd after, notes = before ++ .sent victim answer fd :: after →
    ∃ request, latestNote fd before = some (.registered request fd victim)

/-- `timer_add` for a time, `timer_del` for none. -/
def setTimer (tbase : TimerBase Nat) (fd : Nat) (expires : BitVec 64) : TimerBase Nat :=
  if expires ≠ 0 then timerAdd tbase fd expires else timerDel tbase fd

/-- The time a descriptor's timer is set to, if it is pending. -/
def deadline (tbase : TimerBase Nat) (fd : Nat) : Option (BitVec 64) :=
  if timerPending tbase fd then some (tbase.expires fd) else none

/-! ## Notes -/

@[simp] theorem latestNote_nil (fd : Nat) : latestNote fd [] = none := rfl

@[simp] theorem latestNote_concat (fd : Nat) (notes : List FdNote) (note : FdNote) :
    latestNote fd (notes ++ [note])
      = if note.fd = fd then some note else latestNote fd notes := by
  unfold latestNote
  by_cases h : note.fd = fd
  · simp [h]
  · simp [h]

/-- The latest note about a descriptor is about it. -/
theorem fd_of_latestNote {fd : Nat} {notes : List FdNote} {note : FdNote}
    (h : latestNote fd notes = some note) : note ∈ notes ∧ note.fd = fd := by
  have hmem := List.mem_of_getLast? h
  rw [List.mem_filter] at hmem
  exact ⟨hmem.1, by simpa using hmem.2⟩

/-- A latest note that is not the one before the last stretch stands in that stretch. -/
theorem mem_of_latestNote_append {fd : Nat} {before between : List FdNote} {victim : Pid}
    {answer : MsgFdAnswer} {note : FdNote}
    (h : latestNote fd (before ++ .sent victim answer fd :: between) = some note)
    (hnote : ∀ v a fd', note ≠ .sent v a fd') : note ∈ between := by
  induction between using List.reverseRecOn generalizing note with
  | nil =>
      rw [latestNote_concat, if_pos (by rfl)] at h
      exact absurd (Option.some.inj h).symm (hnote victim answer fd)
  | append_singleton between last ih =>
      rw [← List.cons_append, ← List.append_assoc, latestNote_concat] at h
      split at h
      · rw [Option.some.inj h]; simp
      · exact List.mem_append_left _ (ih h hnote)

theorem oneShot_nil : OneShot [] := by
  intro before victim answer fd after h
  simp at h

/-- A further note keeps the answers in order if it is one in order itself. -/
theorem OneShot.concat {notes : List FdNote} (h : OneShot notes) {note : FdNote}
    (hnote : ∀ victim answer fd, note = .sent victim answer fd →
      ∃ request, latestNote fd notes = some (.registered request fd victim)) :
    OneShot (notes ++ [note]) := by
  intro before victim answer fd after heq
  rcases List.eq_nil_or_concat after with rfl | ⟨rest, last, rfl⟩
  · obtain ⟨rfl, hlast⟩ := List.append_inj' heq rfl
    exact hnote victim answer fd (List.singleton_inj.1 hlast)
  · rw [List.concat_eq_append, ← List.cons_append, ← List.append_assoc] at heq
    exact h before victim answer fd rest (List.append_inj' heq rfl).1

end Msock
