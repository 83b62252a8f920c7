import Msock.Domain.Straight

/-!
# A process that serves

The callback of an engine's process keeps to one pattern: called with a message it makes some
calls of `msock_send`, one after the other, and returns; nobody else in its domain calls the
library. What an act of such a domain adds to what the process was called with, and to what
was sent to one process of another domain, is read off the act.
-/

namespace Msock

open Lib

variable {d d' : Domain} {p : ProcId} {pid : Pid} {msg : Message} {env : Env} {es : List Event}

/-- The message that the callback of `p`, which is running, was called with. -/
def Phase.calledWith (p : ProcId) : Phase → Option Message
  | .callback q msg _ => if q = p then some msg else none
  | _ => none

/-- What a call of `msock_send` is given. -/
structure Outgoing where
  target : Pid
  msgType : Int
  msgPayload : List UInt8
  msgPayloadSz : Int
  deriving DecidableEq

def Outgoing.call (o : Outgoing) : Api := .send o.target o.msgType o.msgPayload o.msgPayloadSz

/-- The message that the domain `gid` sends then; its number does not matter. -/
def Outgoing.message (gid : Nat) (o : Outgoing) : Message :=
  ⟨(gid, 0), gid, o.target, o.msgType, o.msgPayloadSz.toNat,
    o.msgPayload.take o.msgPayloadSz.toNat⟩

/-- In the domain nobody but the callback of `p` calls the library. It sends, to pids, what is
still to be sent, and then returns. -/
def keepsTo (p : ProcId) (todo : List Outgoing) (recv : Recv) (d : Domain) : Act → Prop
  | .api call => (d.phase.calledWith p).isSome = true ∧
      ∃ o ∈ todo.head?, call = o.call ∧ pidToGid o.target ≠ 0
  | .ret r => (d.phase.calledWith p).isSome = true → todo = [] ∧ r = recv
  | .baseSend _ _ _ _ | .baseSpawn _ _ | .baseSpawn2 => False
  | _ => True

instance (p : ProcId) (todo : List Outgoing) (recv : Recv) (d : Domain) (a : Act) :
    Decidable (keepsTo p todo recv d a) :=
  match a with
  | .api call => inferInstanceAs (Decidable (_ ∧ ∃ o ∈ todo.head?, call = o.call ∧ _))
  | .ret _ => inferInstanceAs (Decidable (_ → _))
  | .baseSend _ _ _ _ | .baseSpawn _ _ | .baseSpawn2 => isFalse id
  | .arrive _ | .pick | .mark | .splice | .dispatch | .nextProcess | .nextMessage
  | .flushTake _ | .flushWake _ | .next | .requeue => isTrue trivial

/-- What an act of a serving domain is, as far as its process and the process `pid` of another
domain are concerned. -/
inductive Attended (p : ProcId) (pid : Pid) (todo : List Outgoing) (d : Domain) (a : Act)
    (d' : Domain) (es : List Event) : Prop
  /-- The callback is called. -/
  | presented (msg : Message) : a = .nextMessage → d.phase.calledWith p = none →
      d'.phase.calledWith p = some msg → presentations p es = [msg] →
      lettersFor pid (posted es) = [] → Attended p pid todo d a d' es
  /-- It sends. -/
  | sent (o : Outgoing) (rest : List Outgoing) : a = .api o.call → todo = o :: rest →
      d'.phase = d.phase → presentations p es = [] →
      lettersFor pid (posted es) = lettersFor pid [o.message d.gid] → Attended p pid todo d a d' es
  /-- Anything else. -/
  | other : (a = .nextMessage → d'.phase.calledWith p = none) → (∀ call, a ≠ .api call) →
      ((d.phase.calledWith p).isSome = true → todo ≠ [] → d'.phase = d.phase) →
      presentations p es = [] → lettersFor pid (posted es) = [] → Attended p pid todo d a d' es

/-! ## What is added to the trace -/

/-- The event is no call of a callback and no send. -/
def Event.mute : Event → Bool
  | .sent _ => false
  | .presented _ _ => false
  | _ => true

theorem mute_eq (h : ∀ e ∈ es, e.mute = true) : posted es = [] ∧ presentations p es = [] := by
  refine ⟨List.filterMap_eq_nil_iff.2 fun e he => ?_, List.filterMap_eq_nil_iff.2 fun e he => ?_⟩
  · have := h e he
    cases e <;> simp_all [Event.mute, Event.posted]
  · have := h e he
    cases e <;> simp_all [Event.mute, Event.presentedTo]

/-- Dispatching calls no callback. -/
theorem Sends.uncalled {T : List ProcId} (h : Sends T d d') :
    ∃ es, d'.trace = d.trace ++ es ∧ presentations p es = [] := by
  induction h with
  | refl => exact ⟨[], (List.append_nil _).symm, rfl⟩
  | @quiet d₁ d₂ _ hq ih =>
      obtain ⟨es, htrace, hnone⟩ := ih
      obtain ⟨es', htrace', hnone'⟩ : ∃ es', d₂.trace = d₁.trace ++ es' ∧
          presentations p es' = [] := by
        cases hq with
        | outbox gid msg => exact ⟨[], (List.append_nil _).symm, rfl⟩
        | _ => exact ⟨_, rfl, rfl⟩
      exact ⟨es ++ es', by rw [htrace', htrace, List.append_assoc],
        by rw [presentations_append, hnone, hnone']; rfl⟩
  | single q msg _ _ hd ih =>
      obtain ⟨es, htrace, hnone⟩ := ih
      exact ⟨es ++ [.handed q msg], by rw [dispatchMsgSingle_trace hd, htrace, List.append_assoc],
        by rw [presentations_append, hnone]; rfl⟩

variable (p pid) in
/-- A send is seen as one message, its target resolved. -/
theorem sendIndirect_posted {names : Nat → Pid} {target : Pid} {msgType : Int}
    {msgPayload : List UInt8} {msgPayloadSz : Int} (hr : Routed d.roster)
    (h : sendIndirect names target msgType msgPayload msgPayloadSz d = .ok d') :
    ∃ es pid' msg, d'.trace = d.trace ++ es ∧ presentations p es = [] ∧
      resolveTarget names target = .ok pid' ∧ posted es = [msg] ∧ msg.target = pid' ∧
      lettersFor pid [msg] = lettersFor pid
        [Outgoing.message d.gid ⟨pid', msgType, msgPayload, msgPayloadSz⟩] := by
  obtain ⟨es, htrace, hnone⟩ := (sendIndirect_sends h).uncalled (p := p)
  obtain ⟨pid', hresolve, _, _, _, hcase⟩ := sendIndirect_cases h
  obtain ⟨msg, hmsg⟩ : ∃ msg, msg = d.newMessage pid' msgType msgPayload msgPayloadSz.toNat :=
    ⟨_, rfl⟩
  rw [← hmsg] at hcase
  have hletters : lettersFor pid [msg] = lettersFor pid
      [Outgoing.message d.gid ⟨pid', msgType, msgPayload, msgPayloadSz⟩] := by
    rw [hmsg, lettersFor_singleton, lettersFor_singleton]
    rfl
  have htarget : msg.target = pid' := by rw [hmsg]; rfl
  have hsending : (d.sending msg).trace = d.trace ++ [.malloc (d.gid, d.nextMsg), .sent msg] := by
    show (d.trace ++ [_]) ++ [_] = _
    rw [List.append_assoc]
    rfl
  suffices hposted : posted es = [msg] from
    ⟨es, pid', msg, htrace, hnone, hresolve, hposted, htarget, hletters⟩
  rcases hcase with ⟨hgid, k, hdispatch⟩ | ⟨_, _, rfl⟩
  · obtain ⟨es', htrace', hands⟩ := dispatchMsgLocal_hands hdispatch hr (by rw [htarget]; exact hgid)
    rw [hsending, htrace, List.append_assoc] at htrace'
    rw [List.append_cancel_left htrace', posted_append, hands.posted]
    rfl
  · have htrace' : d.trace ++ es = d.trace ++ [.malloc (d.gid, d.nextMsg), .sent msg] :=
      htrace.symm.trans hsending
    rw [List.append_cancel_left htrace']
    rfl

/-- A message for one's own domain is not for the process of another. -/
theorem lettersFor_home (hpid : pidToGid pid ≠ d.gid) (hgid : pidToGid msg.target = d.gid) :
    lettersFor pid [msg] = [] := by
  rw [lettersFor_singleton, if_neg]
  intro hfor
  exact hpid (hfor.gid.symm.trans hgid)

theorem drainMessageQueue_mute (msgbox : Queue Message) (d : Domain) :
    ∃ es, (drainMessageQueue msgbox d).trace = d.trace ++ es ∧ ∀ e ∈ es, e.mute = true := by
  rw [drainMessageQueue_eq]
  refine ⟨_, rfl, fun e he => ?_⟩
  obtain ⟨_, _, rfl⟩ := List.mem_map.1 he
  rfl

theorem flushTake_mute (gid counter : Nat) (back : FlushFrom) (victim : Bool) (d : Domain) :
    ∃ es, (flushTake gid counter back victim d).trace = d.trace ++ es ∧ ∀ e ∈ es, e.mute = true := by
  have hnone : d.trace = d.trace ++ [] := (List.append_nil _).symm
  unfold flushTake
  split
  · exact ⟨[], hnone, List.forall_mem_nil _⟩
  · split
    · exact ⟨[], hnone, List.forall_mem_nil _⟩
    · split
      · exact ⟨[], hnone, List.forall_mem_nil _⟩
      · exact drainMessageQueue_mute (d.outbox gid) d

/-! ## Acts -/

variable {todo : List Outgoing} {recv : Recv} {a : Act}

variable (es) in
/-- An act that calls no callback and sends nothing. -/
theorem attended_mute (htrace : d'.trace = d.trace ++ es) (hes : ∀ e ∈ es, e.mute = true)
    (hcalled : a = .nextMessage → d'.phase.calledWith p = none) (hapi : ∀ call, a ≠ .api call)
    (hphase : (d.phase.calledWith p).isSome = true → todo ≠ [] → d'.phase = d.phase) :
    ∃ es, d'.trace = d.trace ++ es ∧ Attended p pid todo d a d' es := by
  obtain ⟨hposted, hpresentations⟩ := mute_eq (p := p) hes
  refine ⟨es, htrace, .other hcalled hapi hphase hpresentations ?_⟩
  rw [hposted]
  rfl

/-- **One act of a domain whose process serves.** -/
theorem stepped_attended (h : Stepped env d a d') (hr : Routed d.roster) (ha : d.Addressed)
    (hpos : d.gid ≠ 0) (hpid : pidToGid pid ≠ d.gid) (hkeeps : keepsTo p todo recv d a) :
    ∃ es, d'.trace = d.trace ++ es ∧ Attended p pid todo d a d' es := by
  have hnone : d.trace = d.trace ++ [] := (List.append_nil _).symm
  have hidle : ∀ {phase : Phase}, d.phase = phase → phase.calledWith p = none →
      (d.phase.calledWith p).isSome = true → todo ≠ [] → d'.phase = d.phase := by
    intro phase hphase hcalled hsome
    rw [hphase, hcalled] at hsome
    cases hsome
  -- the callback returns only when it has nothing more to send
  have hret : ∀ r, a = .ret r → (d.phase.calledWith p).isSome = true → todo ≠ [] →
      d'.phase = d.phase := by
    rintro r rfl hsome hne
    exact absurd (hkeeps hsome).1 hne
  cases h with
  | arrive qr =>
      exact attended_mute [] hnone (List.forall_mem_nil _) (by simp) (by simp) fun _ _ => rfl
  | baseSend => exact hkeeps.elim
  | baseSpawn => exact hkeeps.elim
  | baseSpawn2 => exact hkeeps.elim
  | api call _ hcall =>
      obtain ⟨_, o, hhead, rfl, hgid⟩ := hkeeps
      obtain ⟨rest, rfl⟩ : ∃ rest, todo = o :: rest := by
        cases todo with
        | nil => cases hhead
        | cons o' rest => exact ⟨rest, by rw [Option.some.inj hhead]⟩
      cases hcall with
      | send target msgType msgPayload msgPayloadSz _ hsend =>
          obtain ⟨es, pid', msg, htrace, hnone, hresolve, hposted, _, hletters⟩ :=
            sendIndirect_posted p pid hr hsend
          have hresolved : resolveTarget env.names o.target = .ok o.target := by
            rw [resolveTarget, if_neg hgid]
          obtain rfl := Except.ok.inj (hresolve.symm.trans hresolved)
          refine ⟨es, htrace, .sent o rest rfl rfl (sendIndirect_sends hsend).frame.phase hnone ?_⟩
          rw [hposted, hletters]
  | pick hphase _ =>
      exact attended_mute [] hnone (List.forall_mem_nil _) (by simp) (by simp) (hidle hphase rfl)
  | mark hphase =>
      exact attended_mute [] hnone (List.forall_mem_nil _) (by simp) (by simp) (hidle hphase rfl)
  | splice hphase =>
      exact attended_mute [] hnone (List.forall_mem_nil _) (by simp) (by simp) (hidle hphase rfl)
  | dispatchNone again counter hphase _ =>
      exact attended_mute [] hnone (List.forall_mem_nil _) (by simp) (by simp) (hidle hphase rfl)
  | dispatchOne again counter msg localInbox delivered d₁ hphase hget hdispatch =>
      have hmsg : msg ∈ d.localInbox.items := by
        rw [(Queue.get_eq_some hget).1]
        exact List.mem_cons_self
      obtain ⟨es, htrace, hhands⟩ := dispatchMsgLocal_hands hdispatch hr (ha.localInbox.2 msg hmsg).2
      obtain ⟨es', htrace', huncalled⟩ := (dispatchMsgLocal_sends hdispatch).uncalled (p := p)
      obtain rfl := List.append_cancel_left (htrace.symm.trans htrace')
      refine ⟨es, htrace, .other (by simp) (by simp) (hidle hphase rfl) huncalled ?_⟩
      rw [hhands.posted]
      rfl
  | queueNone busy heads hphase _ =>
      exact attended_mute [] hnone (List.forall_mem_nil _) (by simp) (by simp) (hidle hphase rfl)
  | queueOne q busy heads hphase _ =>
      exact attended_mute [] hnone (List.forall_mem_nil _) (by simp) (by simp) (hidle hphase rfl)
  | inboxNone q process hphase _ _ =>
      exact attended_mute [] hnone (List.forall_mem_nil _) (fun _ => rfl) (by simp) (hidle hphase rfl)
  | inboxOne q process msg inbox hphase _ _ _ =>
      by_cases hq : q = p
      · subst hq
        refine ⟨[.presented q msg], rfl, .presented msg rfl (by rw [hphase]; rfl) ?_ ?_ rfl⟩
        · simp [Phase.calledWith]
        · simp [presentations, Event.presentedTo]
      · refine ⟨[.presented q msg], rfl, .other (fun _ => ?_) (by simp) (hidle hphase rfl) ?_ rfl⟩
        · simp [Phase.calledWith, hq]
        · simp [presentations, Event.presentedTo, hq]
  | retOk q msg received _ _ =>
      refine attended_mute [.consumed q msg, .free msg.id] ?_ (by simp [Event.mute]) (by simp)
        (by simp) (hret _ rfl)
      simp [freeMessage, Domain.emit]
  | retBadmatch q msg received process _ _ _ =>
      exact attended_mute [.setAside q msg] rfl (by simp [Event.mute]) (by simp) (by simp)
        (hret _ rfl)
  | retExit q msg received d₁ _ _ hfree =>
      obtain ⟨process, umap, _, busy, heads, _, _, _, _, rfl⟩ := processFree_cases hfree
      refine attended_mute ([.consumed q msg, .free msg.id]
        ++ (process.inbox.items.map (fun msg => Event.free msg.id)
        ++ process.badmatch.items.map (fun msg => Event.free msg.id)
        ++ [.freeProcess q, .exited q])) ?_ (fun e he => ?_) (by simp) (by simp) (hret _ rfl)
      · simp [Domain.removeProcess, freeMessage, Domain.emit]
      · simp only [List.mem_append, List.mem_map, List.mem_cons, List.not_mem_nil, or_false] at he
        rcases he with (rfl | rfl) | (⟨_, _, rfl⟩ | ⟨_, _, rfl⟩) | rfl | rfl <;> rfl
  | flushTake victim gid counter back hphase =>
      obtain ⟨es, htrace, hes⟩ := flushTake_mute gid counter back victim d
      exact attended_mute es htrace hes (by simp) (by simp) (hidle hphase rfl)
  | flushWake dequeued gid counter back hphase =>
      cases dequeued with
      | false =>
          exact attended_mute [] hnone (List.forall_mem_nil _) (by simp) (by simp) (hidle hphase rfl)
      | true =>
          exact attended_mute [.woke gid] rfl (by simp [Event.mute]) (by simp) (by simp)
            (hidle hphase rfl)
  | nextNested egress q hphase _ hsend =>
      obtain ⟨process, d₁, hproc, hempty, rfl⟩ := sendQueueEmpty_cases hsend
      obtain ⟨es, pid', msg, htrace, hnone, hresolve, hposted, htarget, _⟩ :=
        sendIndirect_posted p pid hr hempty
      have hgid : pidToGid process.pid = d.gid := (hr.pid_fields (Domain.roster_pid hproc)).1
      have hresolved : resolveTarget env.names process.pid = .ok process.pid := by
        rw [resolveTarget, if_neg (by rw [hgid]; exact hpos)]
      obtain rfl := Except.ok.inj (hresolve.symm.trans hresolved)
      refine ⟨es, htrace, .other (by simp) (by simp) (hidle hphase rfl) hnone ?_⟩
      rw [hposted]
      exact lettersFor_home hpid (htarget ▸ hgid)
  | nextDone egress cursor hphase =>
      exact attended_mute [] hnone (List.forall_mem_nil _) (by simp) (by simp) (hidle hphase rfl)
  | retire hphase _ =>
      exact attended_mute [] hnone (List.forall_mem_nil _) (by simp) (by simp) (hidle hphase rfl)
  | requeue hphase _ =>
      exact attended_mute [] hnone (List.forall_mem_nil _) (by simp) (by simp) (hidle hphase rfl)

end Msock
