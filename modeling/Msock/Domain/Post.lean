import Msock.Domain.Outbox
import Msock.Domain.Receive
import Msock.Domain.Routing

/-!
# The post

What a domain does to the messages on their way to a process: it sends them, its own at once
and those for other domains into an outbox; messages from other domains come in by its remote
inbox and go from there, by the local one, to the processes they are for. `Carried` is all that
an act can do to them.
-/

namespace Msock

open Lib

variable {d d' : Domain} {p : ProcId} {msg : Message} {env : Env} {es es' : List Event}
  {pid : Pid}

/-! ## Letters -/

/-- What a message says: all of it but the allocation it lies in. -/
structure Letter where
  src : Nat
  target : Pid
  msgType : Int
  msgPayloadSz : Nat
  msgPayload : List UInt8
  deriving DecidableEq

/-- The letter that the receive callback reads. -/
def Message.letter (msg : Message) : Letter :=
  ⟨msg.src, msg.target, msg.msgType, msg.msgPayloadSz, msg.msgPayload.take msg.msgPayloadSz⟩

/-- The message is for the process `pid`: it was sent to its pid, names resolved, or broadcast
to its domain. -/
def Message.IsFor (pid : Pid) (msg : Message) : Prop :=
  msg.target = pid ∨
    (pidToPoff msg.target = 0 ∧ pidToGid msg.target = pidToGid pid ∧ msg.msgType ≠ msgGc)

instance (pid : Pid) (msg : Message) : Decidable (msg.IsFor pid) :=
  inferInstanceAs (Decidable (_ ∨ _))

theorem Message.IsFor.gid (h : msg.IsFor pid) : pidToGid msg.target = pidToGid pid := by
  rcases h with h | ⟨_, h, _⟩
  · rw [h]
  · exact h

/-- The letters among the messages that are for `pid`. -/
def lettersFor (pid : Pid) (msgs : List Message) : List Letter :=
  (msgs.filter (fun msg => msg.IsFor pid)).map Message.letter

theorem lettersFor_append (pid : Pid) (msgs msgs' : List Message) :
    lettersFor pid (msgs ++ msgs') = lettersFor pid msgs ++ lettersFor pid msgs' := by
  rw [lettersFor, List.filter_append, List.map_append]
  rfl

theorem lettersFor_singleton (pid : Pid) (msg : Message) :
    lettersFor pid [msg] = if msg.IsFor pid then [msg.letter] else [] := by
  by_cases h : msg.IsFor pid <;> simp [lettersFor, h]

/-- The message that an event says was sent. -/
def Event.posted : Event → Option Message
  | .sent msg => some msg
  | _ => none

/-- The messages sent, and those handed to `p`. -/
def posted (es : List Event) : List Message := es.filterMap Event.posted

def arrivals (p : ProcId) (es : List Event) : List Message := es.filterMap (Event.arrivedAt p)

theorem posted_append (es es' : List Event) : posted (es ++ es') = posted es ++ posted es' :=
  List.filterMap_append

theorem arrivals_append (p : ProcId) (es es' : List Event) :
    arrivals p (es ++ es') = arrivals p es ++ arrivals p es' :=
  List.filterMap_append

theorem arrivals_handed {id : MsgId} {q : ProcId} :
    arrivals p [.malloc id, .handed q msg] = if q = p then [msg] else [] := by
  by_cases h : q = p <;> simp [arrivals, Event.arrivedAt, List.filterMap_cons, h]

/-- The event is about no message on its way. -/
def Event.noPost : Event → Bool
  | .sent _ => false
  | .handed _ _ => false
  | _ => true

theorem noPost_eq (h : ∀ e ∈ es, e.noPost = true) : posted es = [] ∧ ∀ p, arrivals p es = [] := by
  refine ⟨List.filterMap_eq_nil_iff.2 fun e he => ?_,
    fun p => List.filterMap_eq_nil_iff.2 fun e he => ?_⟩
  · have := h e he
    cases e <;> simp_all [Event.noPost, Event.posted]
  · have := h e he
    cases e <;> simp_all [Event.noPost, Event.arrivedAt]

/-! ## Dispatch -/

/-- The events hand `msg` to the processes it is for, and nothing else to anybody. -/
structure HandsOut (d : Domain) (msg : Message) (es : List Event) : Prop where
  posted : posted es = []
  arrivals : ∀ p pid, d.roster.pid p = some pid →
    (arrivals p es).map Message.letter = if msg.IsFor pid then [msg.letter] else []
  src : ∀ p, ∀ m ∈ Msock.arrivals p es, m.src = msg.src

theorem dispatchMsgSingle_trace (h : dispatchMsgSingle p msg d = .ok d') :
    d'.trace = d.trace ++ [.handed p msg] := by
  obtain ⟨process, _, ⟨_, rfl⟩ | ⟨_, _, _, _, _, rfl⟩⟩ := dispatchMsgSingle_cases h <;> rfl

/-- A broadcast is cloned once for each process. -/
theorem dispatchClones_hands {ps : List ProcId} (h : dispatchClones msg ps d = .ok d')
    (hnodup : ps.Nodup) : ∃ es, d'.trace = d.trace ++ es ∧ posted es = [] ∧ ∀ p,
      (arrivals p es).map Message.letter = (if p ∈ ps then [msg.letter] else []) ∧
      ∀ m ∈ arrivals p es, m.src = msg.src := by
  induction ps generalizing d with
  | nil =>
      cases h
      exact ⟨[], (List.append_nil _).symm, rfl, fun p => ⟨rfl, List.forall_mem_nil _⟩⟩
  | cons q ps ih =>
      obtain ⟨hq, hps⟩ := List.nodup_cons.1 hnodup
      obtain ⟨d₁, h₁, h⟩ := dispatchClones_cons h
      obtain ⟨es, htrace, hposted, harrivals⟩ := ih h hps
      obtain ⟨clone, hclone⟩ : ∃ clone, clone = (messageClone msg d).1 := ⟨_, rfl⟩
      have hletter : clone.letter = msg.letter := by
        rw [hclone]
        simp only [messageClone, mallocMessage, Message.letter, List.take_take, min_self]
      have hsrc : clone.src = msg.src := by rw [hclone]; rfl
      have htrace₁ : d₁.trace = d.trace ++ [.malloc (mallocMessage d).1, .handed q clone] := by
        rw [dispatchMsgSingle_trace h₁, hclone]
        simp [messageClone, mallocMessage, Domain.emit]
      refine ⟨[.malloc (mallocMessage d).1, .handed q clone] ++ es, ?_, hposted, fun p => ?_⟩
      · rw [htrace, htrace₁, List.append_assoc]
      · obtain ⟨hletters, hsrcs⟩ := harrivals p
        by_cases hpq : q = p
        · subst hpq
          have harr : arrivals q ([.malloc (mallocMessage d).1, .handed q clone] ++ es)
              = clone :: arrivals q es := by
            rw [arrivals_append, arrivals_handed, if_pos rfl]
            rfl
          -- `q` is listed once, so the rest of the loop hands it nothing
          rw [if_neg hq] at hletters
          rw [harr, if_pos List.mem_cons_self, List.map_cons, hletters, hletter]
          refine ⟨rfl, fun m hm => ?_⟩
          rcases List.mem_cons.1 hm with rfl | hm
          · exact hsrc
          · exact hsrcs m hm
        · have harr : arrivals p ([.malloc (mallocMessage d).1, .handed q clone] ++ es)
              = arrivals p es := by
            rw [arrivals_append, arrivals_handed, if_neg hpq]
            rfl
          rw [harr, hletters]
          refine ⟨?_, hsrcs⟩
          simp [List.mem_cons, Ne.symm hpq]

/-- **A message that is dispatched is handed once to each process it is for.** -/
theorem dispatchMsgLocal_hands {k : Nat} (h : dispatchMsgLocal msg d = .ok (k, d'))
    (hr : Routed d.roster) (hgid : pidToGid msg.target = d.gid) :
    ∃ es, d'.trace = d.trace ++ es ∧ HandsOut d msg es := by
  have hroster : d.roster.gid = d.gid := rfl
  cases dispatchMsgLocal_cases h with
  | single q hpoff hget hd =>
      refine ⟨[.handed q msg], dispatchMsgSingle_trace hd, rfl, fun p pid hp => ?_, fun p m hm => ?_⟩
      -- the slot of the number holds the one process with this pid
      · have hq : d.roster.pid q = some msg.target := by
          rw [hr.answers _ q hget, hroster, ← hgid, poffGidToPid_fields]
        by_cases hqp : q = p
        · subst hqp
          obtain rfl : msg.target = pid := Option.some.inj (hq.symm.trans hp)
          rw [if_pos (show msg.IsFor msg.target from Or.inl rfl)]
          simp [arrivals, Event.arrivedAt]
        · have hnot : ¬ msg.IsFor pid := by
            rintro (rfl | ⟨hzero, _⟩)
            · exact hqp (hr.pid_injective hq hp)
            · exact hpoff hzero
          rw [if_neg hnot]
          simp [arrivals, Event.arrivedAt, hqp]
      · have : m ∈ arrivals p [.handed q msg] := hm
        by_cases hqp : q = p <;> simp_all [arrivals, Event.arrivedAt]
  | stale hpoff hget hd =>
      refine ⟨[.stale msg, .free msg.id], ?_, rfl, fun p pid hp => ?_, fun p m hm => by cases hm⟩
      · rw [hd]
        simp [freeMessage, Domain.emit]
      · have hnot : ¬ msg.IsFor pid := by
          rintro (rfl | ⟨hzero, _⟩)
          · have := (hr.pid_fields hp).2.2
            rw [show d.roster.umap = d.poffToProcess from rfl, hget] at this
            cases this
          · exact hpoff hzero
        rw [if_neg hnot]
        rfl
  | broadcast d₁ hpoff hty h₁ hd =>
      obtain ⟨es, htrace, hposted, harrivals⟩ := dispatchClones_hands h₁ hr.nodup
      have harr : ∀ p, arrivals p (es ++ [.free msg.id]) = arrivals p es := fun p => by
        rw [arrivals_append]
        exact List.append_nil _
      refine ⟨es ++ [.free msg.id], ?_, ?_, fun p pid hp => ?_, fun p m hm => ?_⟩
      · rw [hd, ← List.append_assoc, ← htrace]
        rfl
      · rw [posted_append, hposted]
        rfl
      · have hmem : p ∈ d.listOfProcesses := (hr.listed p).2 (by rw [hp]; rfl)
        have hfor : msg.IsFor pid :=
          Or.inr ⟨hpoff, hgid.trans (hr.pid_fields hp).1.symm, hty⟩
        rw [harr, (harrivals p).1, if_pos hmem, if_pos hfor]
      · rw [harr] at hm
        exact (harrivals p).2 m hm
  | collect hpoff hty hd =>
      refine ⟨[.free msg.id, .drain], ?_, rfl, fun p pid hp => ?_, fun p m hm => by cases hm⟩
      · rw [hd]
        simp [freeMessage, Domain.emit]
      · have hnot : ¬ msg.IsFor pid := by
          rintro (rfl | ⟨_, _, hne⟩)
          · exact (hr.pid_fields hp).2.1 hpoff
          · exact hne hty
        rw [if_neg hnot]
        rfl

/-! ## Sending -/

/-- The events, and the outboxes, of code that sends: what is for another domain is in its
outbox, and what is for the domain itself is handed over. -/
structure Posts (d d' : Domain) (es : List Event) : Prop where
  trace : d'.trace = d.trace ++ es
  gid : d'.gid = d.gid
  remote : d'.remoteInbox = d.remoteInbox
  localInbox : d'.localInbox = d.localInbox
  outbox : ∀ v, v ≠ d.gid → (d'.outbox v).items
    = (d.outbox v).items ++ (posted es).filter (fun msg => pidToGid msg.target = v)
  whole : ∀ v, (d.outbox v).Whole → (d'.outbox v).Whole
  own : d'.outbox d.gid = d.outbox d.gid
  src : ∀ m ∈ posted es, m.src = d.gid
  direct : ∀ p pid, d.roster.pid p = some pid →
    (arrivals p es).map Message.letter = lettersFor pid (posted es)
  arrivedSrc : ∀ p, ∀ m ∈ arrivals p es, m.src = d.gid

/-- Code that sends nothing. -/
theorem Posts.of_noPost (htrace : d'.trace = d.trace ++ es) (hes : ∀ e ∈ es, e.noPost = true)
    (hgid : d'.gid = d.gid) (hremote : d'.remoteInbox = d.remoteInbox)
    (hlocal : d'.localInbox = d.localInbox) (houtbox : d'.outbox = d.outbox) : Posts d d' es := by
  obtain ⟨hposted, harrivals⟩ := noPost_eq hes
  refine ⟨htrace, hgid, hremote, hlocal, fun v _ => ?_, fun v hv => by rw [houtbox]; exact hv,
    by rw [houtbox], fun m hm => ?_, fun p pid _ => ?_, fun p m hm => ?_⟩
  · rw [houtbox, hposted]
    exact (List.append_nil _).symm
  · rw [hposted] at hm
    cases hm
  · rw [hposted, harrivals p]
    rfl
  · rw [harrivals p] at hm
    cases hm

/-- Code that does not add to the trace either. -/
theorem Posts.quiet (htrace : d'.trace = d.trace) (hgid : d'.gid = d.gid)
    (hremote : d'.remoteInbox = d.remoteInbox) (hlocal : d'.localInbox = d.localInbox)
    (houtbox : d'.outbox = d.outbox) : Posts d d' [] :=
  .of_noPost (by rw [htrace, List.append_nil]) (List.forall_mem_nil _) hgid hremote hlocal houtbox

/-- Only what has happened, the inboxes and the outboxes count. -/
theorem Posts.same {d₁ : Domain} (h : Posts d d₁ es) (htrace : d'.trace = d₁.trace)
    (hgid : d'.gid = d₁.gid) (hremote : d'.remoteInbox = d₁.remoteInbox)
    (hlocal : d'.localInbox = d₁.localInbox) (houtbox : d'.outbox = d₁.outbox) : Posts d d' es where
  trace := htrace.trans h.trace
  gid := hgid.trans h.gid
  remote := hremote.trans h.remote
  localInbox := hlocal.trans h.localInbox
  outbox := fun v hv => by rw [houtbox]; exact h.outbox v hv
  whole := fun v hv => by rw [houtbox]; exact h.whole v hv
  own := by rw [houtbox]; exact h.own
  src := h.src
  direct := h.direct
  arrivedSrc := h.arrivedSrc

theorem Posts.trans {d₁ : Domain} (h : Posts d d₁ es) (h' : Posts d₁ d' es')
    (hroster : d₁.roster = d.roster) : Posts d d' (es ++ es') where
  trace := by rw [h'.trace, h.trace, List.append_assoc]
  gid := h'.gid.trans h.gid
  remote := h'.remote.trans h.remote
  localInbox := h'.localInbox.trans h.localInbox
  outbox := fun v hv => by
    rw [h'.outbox v (by rw [h.gid]; exact hv), h.outbox v hv, posted_append, List.filter_append,
      List.append_assoc]
  whole := fun v hv => h'.whole v (h.whole v hv)
  own := by
    have := h'.own
    rw [h.gid] at this
    exact this.trans h.own
  src := fun m hm => by
    rw [posted_append] at hm
    rcases List.mem_append.1 hm with hm | hm
    · exact h.src m hm
    · exact (h'.src m hm).trans h.gid
  direct := fun p pid hp => by
    rw [arrivals_append, List.map_append, posted_append, lettersFor_append, h.direct p pid hp,
      h'.direct p pid (by rw [hroster]; exact hp)]
  arrivedSrc := fun p m hm => by
    rw [arrivals_append] at hm
    rcases List.mem_append.1 hm with hm | hm
    · exact h.arrivedSrc p m hm
    · exact (h'.arrivedSrc p m hm).trans h.gid

section Sending
variable {names : Nat → Pid} {target : Pid} {msgType : Int} {msgPayload : List UInt8}
  {msgPayloadSz : Int}

theorem sendIndirect_posts (h : sendIndirect names target msgType msgPayload msgPayloadSz d = .ok d')
    (hr : Routed d.roster) (hw : ∀ v, (d.outbox v).Whole) : ∃ es, Posts d d' es := by
  obtain ⟨pid, _, _, _, _, hcase⟩ := sendIndirect_cases h
  obtain ⟨msg, hmsg⟩ : ∃ msg, msg = d.newMessage pid msgType msgPayload msgPayloadSz.toNat :=
    ⟨_, rfl⟩
  have htarget : msg.target = pid := by rw [hmsg]; rfl
  have hsrc : msg.src = d.gid := by rw [hmsg]; rfl
  rw [← hmsg] at hcase
  have hsending : (d.sending msg).trace = d.trace ++ [.malloc (mallocMessage d).1, .sent msg] := by
    simp [Domain.sending, mallocMessage, Domain.emit]
  rcases hcase with ⟨hgid, k, h⟩ | ⟨hgid, hlt, rfl⟩
  · -- to a process of this domain
    obtain ⟨es, htrace, hhands⟩ := dispatchMsgLocal_hands h hr (by rw [htarget]; exact hgid)
    have hframe := (dispatchMsgLocal_sends h).frame
    have houtbox : d'.outbox = d.outbox := (dispatchMsgLocal_outbox h).1
    have hposted : posted ([.malloc (mallocMessage d).1, .sent msg] ++ es) = [msg] := by
      rw [posted_append, hhands.posted]
      rfl
    have harrivals : ∀ p, arrivals p ([.malloc (mallocMessage d).1, .sent msg] ++ es)
        = arrivals p es := fun p => by
      rw [arrivals_append]
      rfl
    refine ⟨[.malloc (mallocMessage d).1, .sent msg] ++ es, ?_, hframe.gid, hframe.remoteInbox,
      hframe.localInbox, fun v hv => ?_, fun v hv => by rw [houtbox]; exact hv, by rw [houtbox],
      fun m hm => ?_, fun p pid' hp => ?_, fun p m hm => ?_⟩
    · rw [htrace, hsending, List.append_assoc]
    · have hnot : ¬ pidToGid msg.target = v := by
        rw [htarget, hgid]
        exact hv.symm
      rw [houtbox, hposted]
      simp [hnot]
    · rw [hposted] at hm
      rw [List.mem_singleton.1 hm, hsrc]
    · rw [harrivals, hposted, lettersFor_singleton]
      exact hhands.arrivals p pid' hp
    · rw [harrivals] at hm
      exact (hhands.src p m hm).trans hsrc
  · -- abroad
    refine ⟨[.malloc (mallocMessage d).1, .sent msg], hsending, rfl, rfl, rfl, fun v hv => ?_,
      fun v hv => ?_, Function.update_of_ne hgid.symm _ _, fun m hm => ?_, fun p pid' hp => ?_,
      fun p m hm => by cases hm⟩
    · show (Function.update d.outbox (pidToGid pid) _ v).items
        = (d.outbox v).items ++ [msg].filter (fun msg => pidToGid msg.target = v)
      by_cases hv' : v = pidToGid pid
      · subst hv'
        rw [Function.update_self]
        refine ((hw _).put msg).1.trans ?_
        simp [htarget]
      · rw [Function.update_of_ne hv']
        have hnot : ¬ pidToGid msg.target = v := by
          rw [htarget]
          exact Ne.symm hv'
        simp [hnot]
    · show (Function.update d.outbox (pidToGid pid) _ v).Whole
      by_cases hv' : v = pidToGid pid
      · subst hv'
        rw [Function.update_self]
        exact Queue.whole_put _ _
      · rw [Function.update_of_ne hv']
        exact hv
    · rw [List.mem_singleton.1 (show m ∈ [msg] from hm), hsrc]
    · have hnot : ¬ msg.IsFor pid' := fun hfor => by
        have := hfor.gid
        rw [htarget, (hr.pid_fields hp).1] at this
        exact hgid this
      show [] = lettersFor pid' [msg]
      rw [lettersFor_singleton, if_neg hnot]

theorem sendBroadcast_posts {gids : List Nat} (h : sendBroadcast names msgType gids d = .ok d')
    (hr : Routed d.roster) (hw : ∀ v, (d.outbox v).Whole) : ∃ es, Posts d d' es := by
  induction gids generalizing d with
  | nil =>
      cases h
      exact ⟨[], .quiet rfl rfl rfl rfl rfl⟩
  | cons gid gids ih =>
      obtain ⟨d₁, h₁, h⟩ := sendBroadcast_cons h
      obtain ⟨es, hfirst⟩ := sendIndirect_posts h₁ hr hw
      have hroster := (sendIndirect_sends h₁).roster
      obtain ⟨es', hrest⟩ := ih h (hroster ▸ hr) (fun v => hfirst.whole v (hw v))
      exact ⟨es ++ es', hfirst.trans hrest hroster⟩

end Sending

/-! ## Acts -/

/-- What an act of the domain can do to the messages on their way. -/
inductive Carried (d d' : Domain) : Prop
  | posts (es : List Event) : Posts d d' es → Carried d d'
  | splice : d'.trace = d.trace → d'.gid = d.gid → d'.outbox = d.outbox →
      d'.remoteInbox = (Queue.splice d.remoteInbox d.localInbox).1 →
      d'.localInbox = (Queue.splice d.remoteInbox d.localInbox).2 → Carried d d'
  | hands (msg : Message) (localInbox : Queue Message) (es : List Event) :
      d.localInbox.get = some (msg, localInbox) → HandsOut d msg es → d'.trace = d.trace ++ es →
      d'.gid = d.gid → d'.outbox = d.outbox → d'.remoteInbox = d.remoteInbox →
      d'.localInbox = localInbox → Carried d d'
  | flush (gid counter : Nat) (back : FlushFrom) (es : List Event) :
      d.phase = .flush gid counter false back → gid < maxDomains → (d.outbox gid).items ≠ [] →
      d'.trace = d.trace ++ es → (∀ e ∈ es, e.noPost = true) → d'.gid = d.gid →
      d'.remoteInbox = d.remoteInbox → d'.localInbox = d.localInbox →
      d'.outbox = Function.update d.outbox gid Queue.init → Carried d d'

/-- Where the messages in the queues of a domain come from and where they go. -/
structure Domain.Addressed (d : Domain) : Prop where
  outbox : ∀ v, (d.outbox v).Whole ∧
    ∀ m ∈ (d.outbox v).items, m.src = d.gid ∧ pidToGid m.target = v
  own : (d.outbox d.gid).items = []
  remote : d.remoteInbox.Whole ∧
    ∀ m ∈ d.remoteInbox.items, m.src ≠ d.gid ∧ pidToGid m.target = d.gid
  localInbox : d.localInbox.Whole ∧
    ∀ m ∈ d.localInbox.items, m.src ≠ d.gid ∧ pidToGid m.target = d.gid

theorem addressed_new (gid maxProcesses : Nat) : (Domain.new gid maxProcesses).Addressed where
  outbox := fun _ => ⟨Queue.whole_init, List.forall_mem_nil _⟩
  own := rfl
  remote := ⟨Queue.whole_init, List.forall_mem_nil _⟩
  localInbox := ⟨Queue.whole_init, List.forall_mem_nil _⟩

theorem Carried.addressed (h : Carried d d') (hd : d.Addressed) : d'.Addressed := by
  cases h with
  | posts es h =>
      refine ⟨fun v => ⟨h.whole v (hd.outbox v).1, fun m hm => ?_⟩, ?_, ?_, ?_⟩
      · rw [h.gid]
        by_cases hv : v = d.gid
        · rw [hv, h.own, hd.own] at hm
          cases hm
        · rw [h.outbox v hv] at hm
          rcases List.mem_append.1 hm with hm | hm
          · exact (hd.outbox v).2 m hm
          · obtain ⟨hm, htarget⟩ := List.mem_filter.1 hm
            exact ⟨h.src m hm, of_decide_eq_true htarget⟩
      · rw [h.gid, h.own]
        exact hd.own
      · rw [h.gid, h.remote]
        exact hd.remote
      · rw [h.gid, h.localInbox]
        exact hd.localInbox
  | splice _ hgid houtbox hremote hlocal =>
      obtain ⟨hempty, hitems, hwhole, hwhole'⟩ := hd.remote.1.splice hd.localInbox.1
      refine ⟨fun v => ?_, ?_, ⟨hremote ▸ hwhole, fun m hm => ?_⟩, ⟨hlocal ▸ hwhole', fun m hm => ?_⟩⟩
      · rw [hgid, houtbox]
        exact hd.outbox v
      · rw [hgid, houtbox]
        exact hd.own
      · rw [hremote, hempty] at hm
        cases hm
      · rw [hlocal, hitems] at hm
        rw [hgid]
        rcases List.mem_append.1 hm with hm | hm
        · exact hd.localInbox.2 m hm
        · exact hd.remote.2 m hm
  | hands msg localInbox es hget _ _ hgid houtbox hremote hlocal =>
      refine ⟨fun v => ?_, ?_, ?_, ⟨hlocal ▸ hd.localInbox.1.get hget, fun m hm => ?_⟩⟩
      · rw [hgid, houtbox]
        exact hd.outbox v
      · rw [hgid, houtbox]
        exact hd.own
      · rw [hgid, hremote]
        exact hd.remote
      · rw [hlocal] at hm
        rw [hgid]
        refine hd.localInbox.2 m ?_
        rw [(Queue.get_eq_some hget).1]
        exact List.mem_cons_of_mem _ hm
  | flush gid counter back es _ _ _ _ _ hgid hremote hlocal houtbox =>
      refine ⟨fun v => ?_, ?_, ?_, ?_⟩
      · rw [hgid, houtbox]
        by_cases hv : v = gid
        · rw [hv, Function.update_self]
          exact ⟨Queue.whole_init, List.forall_mem_nil _⟩
        · rw [Function.update_of_ne hv]
          exact hd.outbox v
      · rw [hgid, houtbox]
        by_cases hv : d.gid = gid
        · rw [← hv, Function.update_self]
          rfl
        · rw [Function.update_of_ne hv]
          exact hd.own
      · rw [hgid, hremote]
        exact hd.remote
      · rw [hgid, hlocal]
        exact hd.localInbox

theorem called_carried {call : Api} (h : Called env d call d') (hr : Routed d.roster)
    (hd : d.Addressed) : Carried d d' := by
  have hw := fun v => (hd.outbox v).1
  cases h with
  | send target msgType msgPayload msgPayloadSz _ h =>
      obtain ⟨es, hposts⟩ := sendIndirect_posts h hr hw
      exact .posts es hposts
  | spawn receiveCallback q _ h =>
      obtain ⟨_, poff, umap, _, _, rfl⟩ := processNew_cases h
      exact .posts _ (.of_noPost rfl (by simp [Event.noPost]) rfl rfl rfl rfl)
  | spawn2 _ h =>
      obtain ⟨poff, umap, q, _, _, _, rfl⟩ := spawnConstructor_cases h
      exact .posts _ (.of_noPost rfl (by simp [Event.noPost]) rfl rfl rfl rfl)
  | constructed cur oldproc _ _ => exact .posts [] (.quiet rfl rfl rfl rfl rfl)
  | receive receiveCallback cur oldproc d₁ hcur h =>
      obtain ⟨_, _, _, _, _, rfl⟩ := msockReceive_cases h
      exact .posts _ (.of_noPost rfl (by simp [Event.noPost]) rfl rfl rfl rfl)
  | loopexit _ h =>
      obtain ⟨es, hposts⟩ := sendBroadcast_posts h hr hw
      exact .posts es hposts
  | memoryCollect d₁ _ h =>
      obtain ⟨es, hposts⟩ := sendBroadcast_posts h hr hw
      exact .posts es (hposts.same rfl rfl rfl rfl rfl)

/-- A turn of `send_flush_outbox`. -/
theorem flushTake_carried {gid counter : Nat} {back : FlushFrom} (victim : Bool)
    (hphase : d.phase = .flush gid counter false back) :
    Carried d (flushTake gid counter back victim d) := by
  unfold flushTake
  split
  · exact .posts [] (.quiet rfl rfl rfl rfl rfl)
  · rename_i hlt
    split
    · exact .posts [] (.quiet rfl rfl rfl rfl rfl)
    · rename_i hne
      split
      · exact .flush gid counter back [] hphase (Nat.not_le.1 hlt) hne (List.append_nil _).symm
          (List.forall_mem_nil _) rfl rfl rfl rfl
      · rw [drainMessageQueue_eq]
        refine .flush gid counter back _ hphase (Nat.not_le.1 hlt) hne rfl (fun e he => ?_) rfl rfl
          rfl rfl
        obtain ⟨_, _, rfl⟩ := List.mem_map.1 he
        rfl

/-- **Every act of a domain carries its messages on**, an arrival from abroad apart. -/
theorem act_carried {a : Act} (h : d.act (env, a) = .ok d') (harrive : ∀ qr, a ≠ .arrive qr)
    (hr : Routed d.roster) (hd : d.Addressed) : Carried d d' := by
  have hw := fun v => (hd.outbox v).1
  cases step_cases h with
  | arrive qr => exact absurd rfl (harrive qr)
  | baseSend target msgType msgPayload msgPayloadSz d₁ _ hsend =>
      obtain ⟨es, hposts⟩ := sendIndirect_posts hsend hr hw
      exact .posts es (hposts.same rfl rfl rfl rfl rfl)
  | baseSpawn receiveCallback hungry q _ hnew =>
      obtain ⟨_, poff, umap, _, _, rfl⟩ := processNew_cases hnew
      exact .posts _ (.of_noPost rfl (by simp [Event.noPost]) rfl rfl rfl rfl)
  | baseSpawn2 _ hnew =>
      obtain ⟨poff, umap, q, _, _, _, rfl⟩ := spawnConstructor_cases hnew
      exact .posts _ (.of_noPost rfl (by simp [Event.noPost]) rfl rfl rfl rfl)
  | api call _ hcall => exact called_carried hcall hr hd
  | pick | mark | dispatchNone | queueNone | queueOne | inboxNone | nextDone | retire | requeue =>
      exact .posts [] (.quiet rfl rfl rfl rfl rfl)
  | splice _ => exact .splice rfl rfl rfl rfl rfl
  | dispatchOne again counter msg localInbox delivered d₁ _ hget hdispatch =>
      have hmsg : msg ∈ d.localInbox.items := by
        rw [(Queue.get_eq_some hget).1]
        exact List.mem_cons_self
      obtain ⟨es, htrace, hhands⟩ := dispatchMsgLocal_hands hdispatch hr (hd.localInbox.2 msg hmsg).2
      have hframe := (dispatchMsgLocal_sends hdispatch).frame
      exact .hands msg localInbox es hget ⟨hhands.posted, hhands.arrivals, hhands.src⟩ htrace
        hframe.gid (dispatchMsgLocal_outbox hdispatch).1 hframe.remoteInbox hframe.localInbox
  | inboxOne q process msg inbox _ _ _ _ =>
      exact .posts _ (.of_noPost rfl (by simp [Event.noPost]) rfl rfl rfl rfl)
  | retOk q msg received _ _ =>
      refine .posts [.consumed q msg, .free msg.id]
        (.of_noPost ?_ (by simp [Event.noPost]) rfl rfl rfl rfl)
      simp [freeMessage, Domain.emit]
  | retBadmatch q msg received process _ _ _ =>
      exact .posts _ (.of_noPost rfl (by simp [Event.noPost]) rfl rfl rfl rfl)
  | retExit q msg received d₁ _ _ hfree =>
      obtain ⟨process, umap, _, busy, heads, _, _, _, _, rfl⟩ := processFree_cases hfree
      refine .posts ([.consumed q msg, .free msg.id]
        ++ (process.inbox.items.map (fun msg => Event.free msg.id)
        ++ process.badmatch.items.map (fun msg => Event.free msg.id)
        ++ [.freeProcess q, .exited q])) (.of_noPost ?_ (fun e he => ?_) rfl rfl rfl rfl)
      · simp [Domain.removeProcess, freeMessage, Domain.emit]
      · simp only [List.mem_append, List.mem_map, List.mem_cons, List.not_mem_nil, or_false] at he
        rcases he with (rfl | rfl) | (⟨_, _, rfl⟩ | ⟨_, _, rfl⟩) | rfl | rfl <;> rfl
  | flushTake victim gid counter back hphase => exact flushTake_carried victim hphase
  | flushWake dequeued gid counter back _ =>
      cases dequeued with
      | false => exact .posts [] (.quiet rfl rfl rfl rfl rfl)
      | true => exact .posts [.woke gid] (.of_noPost rfl (by simp [Event.noPost]) rfl rfl rfl rfl)
  | nextNested egress q _ _ hsend =>
      obtain ⟨process, d₁, _, hempty, rfl⟩ := sendQueueEmpty_cases hsend
      obtain ⟨es, hposts⟩ := sendIndirect_posts hempty hr hw
      exact .posts es (hposts.same rfl rfl rfl rfl rfl)

end Msock
