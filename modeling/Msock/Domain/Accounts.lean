import Msock.Lib.Accounts
import Msock.Domain.Outbox
import Msock.Domain.Receive

/-!
# What a domain has from the allocator

Where the messages of a domain are: in its outboxes, in its two inboxes, with its
processes, and in the hand of `process_run` while a callback runs. Every function takes a
message from one of these places and leaves it in another, or returns it to the cache, as
long as `queue_put` finds `last` set in every inbox that holds something. The processes
are those on the list.

`Pays d x d' y` says it of a piece of code that starts with the messages `x` in its hands
and ends with `y`: the events it adds to the trace settle.
-/

namespace Msock

open Lib

variable {d d' : Domain} {p : ProcId} {msg : Message} {env : Env} {names : Nat → Pid}

/-- What an event means for the zone of messages. -/
def Event.messageDeal : Event → Option (Deal MsgId)
  | .malloc id => some (.take id)
  | .free id => some (.give id)
  | .drain => some .tidy
  | _ => none

/-- What an event means for the zone of processes. -/
def Event.processDeal : Event → Option (Deal ProcId)
  | .mallocProcess p => some (.take p)
  | .freeProcess p => some (.give p)
  | .drain => some .tidy
  | _ => none

/-- The messages in a queue. -/
def Queue.ids (q : Queue Message) : Multiset MsgId := (q.items.map Message.id : List MsgId)

/-- The messages of a process. -/
def Domain.mailed (d : Domain) (p : ProcId) : Multiset MsgId :=
  match d.process p with
  | some process => process.inbox.ids + process.badmatch.ids
  | none => 0

/-- The messages in the places of a domain. -/
def Domain.stored (d : Domain) : Multiset MsgId :=
  ∑ gid ∈ Finset.range maxDomains, (d.outbox gid).ids + (d.remoteInbox.ids + d.localInbox.ids)
    + ∑ p ∈ Finset.range d.nextProc, d.mailed p

/-- The message that a callback is called with. -/
def Phase.inHand : Phase → Multiset MsgId
  | .callback _ msg _ => {msg.id}
  | .flush _ _ _ (.callback _ msg _) => {msg.id}
  | _ => 0

/-- All messages of a domain. -/
def Domain.messages (d : Domain) : Multiset MsgId := d.stored + d.phase.inHand

/-- What holds of the queues and lists of a domain at all times. -/
structure Domain.Sturdy (d : Domain) : Prop where
  outbox : ∀ gid, (d.outbox gid).Whole
  /-- The outbox for the domain itself is not used. -/
  own : (d.outbox d.gid).items = []
  remote : d.remoteInbox.Whole
  localInbox : d.localInbox.Whole
  process : ∀ p process, d.process p = some process →
    process.badmatch.Whole ∧ p < d.nextProc ∧ p ∈ d.listOfProcesses

/-- Code that takes `d` to `d'` keeps it sturdy, and the events it adds to the trace settle, for
messages and for processes. -/
def Pays (d : Domain) (x : Multiset MsgId) (d' : Domain) (y : Multiset MsgId) : Prop :=
  d.Sturdy → d'.Sturdy ∧ ∃ es, d'.trace = d.trace ++ es ∧
    Settles (es.filterMap Event.messageDeal) (d.stored + x) (d'.stored + y) ∧
    Settles (es.filterMap Event.processDeal) d.listOfProcesses d'.listOfProcesses

/-! ## Places -/

theorem Queue.ids_init : (Queue.init : Queue Message).ids = 0 := rfl

theorem Queue.ids_eq_zero {q : Queue Message} (h : q.items = []) : q.ids = 0 := by
  rw [Queue.ids, h]
  rfl

theorem Queue.Whole.ids_put {q : Queue Message} (h : q.Whole) (msg : Message) :
    (q.put msg).2.ids = q.ids + {msg.id} := by
  rw [Queue.ids, (h.put msg).1, List.map_append]
  rfl

theorem Queue.ids_get {q q' : Queue Message} (h : q.get = some (msg, q')) :
    q.ids = {msg.id} + q'.ids := by
  rw [Queue.ids, (Queue.get_eq_some h).1]
  rfl

/-- The queues of the domain and its list of processes are the same. -/
structure SameQueues (d d' : Domain) : Prop where
  gid : d'.gid = d.gid
  outbox : d'.outbox = d.outbox
  remoteInbox : d'.remoteInbox = d.remoteInbox
  localInbox : d'.localInbox = d.localInbox
  nextProc : d'.nextProc = d.nextProc
  listOfProcesses : d'.listOfProcesses = d.listOfProcesses

theorem mailed_of_some {process : Process} (hp : d.process p = some process) :
    d.mailed p = process.inbox.ids + process.badmatch.ids := by
  rw [Domain.mailed, hp]

theorem mailed_of_none (hp : d.process p = none) : d.mailed p = 0 := by
  rw [Domain.mailed, hp]

theorem mailed_congr (hp : d'.process p = d.process p) : d'.mailed p = d.mailed p := by
  rw [Domain.mailed, hp]
  rfl

theorem SameQueues.stored (h : SameQueues d d') (hp : d'.process = d.process) :
    d'.stored = d.stored := by
  unfold Domain.stored
  rw [h.outbox, h.remoteInbox, h.localInbox, h.nextProc]
  congr 1
  exact Finset.sum_congr rfl fun q _ => mailed_congr (congrFun hp q)

/-- One process is overwritten, or goes. -/
theorem stored_process {p : ProcId} (hp : p < d.nextProc) (hnext : d'.nextProc = d.nextProc)
    (houtbox : d'.outbox = d.outbox) (hremote : d'.remoteInbox = d.remoteInbox)
    (hlocal : d'.localInbox = d.localInbox) (hother : ∀ q, q ≠ p → d'.process q = d.process q) :
    d'.stored + d.mailed p = d.stored + d'.mailed p := by
  have hrest : ∑ q ∈ (Finset.range d.nextProc).erase p, d'.mailed q
      = ∑ q ∈ (Finset.range d.nextProc).erase p, d.mailed q :=
    Finset.sum_congr rfl fun q hq => mailed_congr (hother q (Finset.ne_of_mem_erase hq))
  unfold Domain.stored
  rw [houtbox, hremote, hlocal, hnext, ← Finset.add_sum_erase _ _ (Finset.mem_range.2 hp),
    ← Finset.add_sum_erase _ d.mailed (Finset.mem_range.2 hp), hrest]
  abel

/-- One outbox is overwritten. -/
theorem stored_outbox {gid : Nat} (q : Queue Message) (hgid : gid < maxDomains) :
    ({ d with outbox := Function.update d.outbox gid q } : Domain).stored + (d.outbox gid).ids
      = d.stored + q.ids := by
  have hrest : ∑ g ∈ (Finset.range maxDomains).erase gid, (Function.update d.outbox gid q g).ids
      = ∑ g ∈ (Finset.range maxDomains).erase gid, (d.outbox g).ids :=
    Finset.sum_congr rfl fun g hg => by rw [Function.update_of_ne (Finset.ne_of_mem_erase hg)]
  show ∑ g ∈ Finset.range maxDomains, (Function.update d.outbox gid q g).ids
    + (d.remoteInbox.ids + d.localInbox.ids) + ∑ p ∈ Finset.range d.nextProc, d.mailed p
    + (d.outbox gid).ids = _
  unfold Domain.stored
  rw [← Finset.add_sum_erase _ _ (Finset.mem_range.2 hgid),
    ← Finset.add_sum_erase _ (fun g => (d.outbox g).ids) (Finset.mem_range.2 hgid), hrest,
    Function.update_self]
  abel

/-! ## Paying -/

/-- Nothing is taken from a zone or given back. -/
def Event.still : Event → Bool
  | .malloc _ => false
  | .free _ => false
  | .mallocProcess _ => false
  | .freeProcess _ => false
  | _ => true

theorem still_deals {e : Event} (h : e.still = true) :
    (∀ m ∈ e.messageDeal, m = .tidy) ∧ ∀ m ∈ e.processDeal, m = .tidy := by
  cases e <;> simp_all [Event.still, Event.messageDeal, Event.processDeal]

theorem settles_still {es : List Event} (h : ∀ e ∈ es, e.still = true) (s : Multiset MsgId)
    (t : Multiset ProcId) :
    Settles (es.filterMap Event.messageDeal) s s ∧ Settles (es.filterMap Event.processDeal) t t := by
  refine ⟨Settles.of_all_tidy (fun m hm => ?_) s, Settles.of_all_tidy (fun m hm => ?_) t⟩
  · obtain ⟨e, he, hdeal⟩ := List.mem_filterMap.1 hm
    exact (still_deals (h e he)).1 m hdeal
  · obtain ⟨e, he, hdeal⟩ := List.mem_filterMap.1 hm
    exact (still_deals (h e he)).2 m hdeal

section Paying
variable {d₁ : Domain} {x y z : Multiset MsgId} {es : List Event} {process process' : Process}

theorem Pays.trans (h : Pays d x d₁ y) (h' : Pays d₁ y d' z) : Pays d x d' z := by
  intro hs
  obtain ⟨hs₁, es, htrace, hmessages, hprocesses⟩ := h hs
  obtain ⟨hs', es', htrace', hmessages', hprocesses'⟩ := h' hs₁
  refine ⟨hs', es ++ es', by rw [htrace', htrace, List.append_assoc], ?_, ?_⟩
  · rw [List.filterMap_append]
    exact hmessages.trans hmessages'
  · rw [List.filterMap_append]
    exact hprocesses.trans hprocesses'

/-- More in hand, all along. -/
theorem Pays.add (h : Pays d x d' y) (z : Multiset MsgId) : Pays d (x + z) d' (y + z) := by
  intro hs
  obtain ⟨hs', es, htrace, hmessages, hprocesses⟩ := h hs
  refine ⟨hs', es, htrace, ?_, hprocesses⟩
  rw [← add_assoc, ← add_assoc]
  exact hmessages.add z

theorem SameQueues.sturdy (h : SameQueues d d') (hp : d'.process = d.process) (hs : d.Sturdy) :
    d'.Sturdy where
  outbox := fun g => by rw [h.outbox]; exact hs.outbox g
  own := by rw [h.outbox, h.gid]; exact hs.own
  remote := by rw [h.remoteInbox]; exact hs.remote
  localInbox := by rw [h.localInbox]; exact hs.localInbox
  process := fun p process hproc => by
    rw [h.nextProc, h.listOfProcesses]
    exact hs.process p process (hp ▸ hproc)

/-- Code that touches no queue. -/
theorem Pays.same (h : SameQueues d d') (hp : d'.process = d.process)
    (htrace : d'.trace = d.trace ++ es) (hes : ∀ e ∈ es, e.still = true) (hhand : y = x) :
    Pays d x d' y := by
  intro hs
  obtain ⟨hmessages, hprocesses⟩ := settles_still hes (d.stored + x) d.listOfProcesses
  refine ⟨h.sturdy hp hs, es, htrace, ?_, ?_⟩
  · rw [h.stored hp, hhand]
    exact hmessages
  · rw [h.listOfProcesses]
    exact hprocesses

/-- Code that does not even add to the trace. -/
theorem Pays.quiet (h : SameQueues d d') (hp : d'.process = d.process)
    (htrace : d'.trace = d.trace) (hhand : y = x) : Pays d x d' y := by
  refine Pays.same h hp ?_ (List.forall_mem_nil _) hhand
  rw [htrace, List.append_nil]

theorem emit_pays {e : Event} (he : e.still = true) (x : Multiset MsgId) :
    Pays d x (d.emit e) x := by
  refine Pays.same ⟨rfl, rfl, rfl, rfl, rfl, rfl⟩ rfl rfl (fun e' he' => ?_) rfl
  rw [List.mem_singleton.1 he']
  exact he

theorem mallocMessage_pays (d : Domain) :
    Pays d 0 (mallocMessage d).2 {(mallocMessage d).1} := by
  intro hs
  have hsame : SameQueues d (mallocMessage d).2 := ⟨rfl, rfl, rfl, rfl, rfl, rfl⟩
  refine ⟨hsame.sturdy rfl hs, [.malloc (mallocMessage d).1], rfl, ?_, rfl⟩
  rw [hsame.stored rfl]
  show (mallocMessage d).1 ::ₘ (d.stored + 0) = d.stored + {(mallocMessage d).1}
  rw [add_zero, ← Multiset.singleton_add, add_comm]

theorem freeMessage_pays (msg : Message) (d : Domain) :
    Pays d {msg.id} (freeMessage msg d) 0 := by
  intro hs
  have hsame : SameQueues d (freeMessage msg d) := ⟨rfl, rfl, rfl, rfl, rfl, rfl⟩
  refine ⟨hsame.sturdy rfl hs, [.free msg.id], rfl, ⟨d.stored, ?_, ?_⟩, rfl⟩
  · rw [← Multiset.singleton_add, add_comm]
  · rw [hsame.stored rfl, add_zero]
    rfl

/-- One process is overwritten. -/
theorem Pays.setProcess (h : SameQueues d d') (hp : d.process p = some process)
    (hproc : d'.process = Function.update d.process p (some process'))
    (htrace : d'.trace = d.trace ++ es) (hes : ∀ e ∈ es, e.still = true)
    (hids : process.inbox.ids + process.badmatch.ids + x
      = process'.inbox.ids + process'.badmatch.ids + y)
    (hbad : process.badmatch.Whole → process'.badmatch.Whole) : Pays d x d' y := by
  intro hs
  obtain ⟨hmessages, hprocesses⟩ := settles_still hes (d.stored + x) d.listOfProcesses
  refine ⟨⟨?_, ?_, ?_, ?_, fun q pr hq => ?_⟩, es, htrace, ?_, ?_⟩
  · rw [h.outbox]; exact hs.outbox
  · rw [h.outbox, h.gid]; exact hs.own
  · rw [h.remoteInbox]; exact hs.remote
  · rw [h.localInbox]; exact hs.localInbox
  · rw [h.nextProc, h.listOfProcesses]
    by_cases hqp : q = p
    · subst hqp
      rw [hproc, Function.update_self] at hq
      obtain rfl := Option.some.inj hq
      obtain ⟨hwhole, hrest⟩ := hs.process q process hp
      exact ⟨hbad hwhole, hrest⟩
    · rw [hproc, Function.update_of_ne hqp] at hq
      exact hs.process q pr hq
  · have hstored := stored_process (hs.process p process hp).2.1 h.nextProc h.outbox h.remoteInbox
      h.localInbox (fun q hq => by rw [hproc, Function.update_of_ne hq])
    rw [mailed_of_some hp, mailed_of_some (hproc ▸ Function.update_self ..)] at hstored
    have hsum : d'.stored + y = d.stored + x := by
      refine add_right_cancel (b := process.inbox.ids + process.badmatch.ids) ?_
      calc d'.stored + y + (process.inbox.ids + process.badmatch.ids)
          = d'.stored + (process.inbox.ids + process.badmatch.ids) + y := add_right_comm _ _ _
        _ = d.stored + (process'.inbox.ids + process'.badmatch.ids + y) := by
            rw [hstored, add_assoc]
        _ = d.stored + x + (process.inbox.ids + process.badmatch.ids) := by
            rw [← hids, add_comm _ x, ← add_assoc]
    rw [hsum]
    exact hmessages
  · rw [h.listOfProcesses]
    exact hprocesses

end Paying

/-! ## Dispatch -/

theorem dispatchMsgSingle_whole (h : dispatchMsgSingle p msg d = .ok d') {q : ProcId}
    (hp : d.WholePut p) (hq : d.WholePut q) : d'.WholePut q :=
  (dispatchMsgSingle_moves False h (fun heq => heq ▸ hp)).2 hq

theorem dispatchMsgSingle_pays (h : dispatchMsgSingle p msg d = .ok d') (hw : d.WholePut p) :
    Pays d {msg.id} d' 0 := by
  obtain ⟨process, hp, hcase⟩ := dispatchMsgSingle_cases h
  obtain ⟨hsame, hproc, htrace⟩ : SameQueues d d' ∧ d'.process = Function.update d.process p
      (some { process with inbox := (process.inbox.put msg).2 }) ∧
      d'.trace = d.trace ++ [.handed p msg] := by
    rcases hcase with ⟨_, rfl⟩ | ⟨_, _, _, _, _, rfl⟩ <;>
      exact ⟨⟨rfl, rfl, rfl, rfl, rfl, rfl⟩, rfl, rfl⟩
  refine Pays.setProcess hsame hp hproc htrace (fun e he => ?_) ?_ id
  · rw [List.mem_singleton.1 he]
    rfl
  · show _ = (process.inbox.put msg).2.ids + process.badmatch.ids + 0
    rw [(hw process hp).ids_put, add_zero]
    exact add_right_comm _ _ _

theorem dispatchClones_pays {ps : List ProcId} (h : dispatchClones msg ps d = .ok d')
    (hw : ∀ p ∈ ps, d.WholePut p) : Pays d 0 d' 0 := by
  induction ps generalizing d with
  | nil =>
      cases h
      exact .quiet ⟨rfl, rfl, rfl, rfl, rfl, rfl⟩ rfl rfl rfl
  | cons p ps ih =>
      obtain ⟨d₁, h₁, h⟩ := dispatchClones_cons h
      have hclone : ∀ q ∈ p :: ps, (messageClone msg d).2.WholePut q := hw
      have hfirst : Pays d 0 d₁ 0 := (mallocMessage_pays d).trans
        (dispatchMsgSingle_pays h₁ (hclone p List.mem_cons_self))
      exact hfirst.trans (ih h (fun q hq => dispatchMsgSingle_whole h₁
        (hclone p List.mem_cons_self) (hclone q (List.mem_cons_of_mem _ hq))))

theorem dispatchMsgLocal_pays {k : Nat} (h : dispatchMsgLocal msg d = .ok (k, d'))
    (hw : ∀ p ∈ dispatchTargets msg.target msg.msgType d, d.WholePut p) :
    Pays d {msg.id} d' 0 := by
  unfold dispatchTargets at hw
  cases dispatchMsgLocal_cases h with
  | single p hpoff hget hd =>
      rw [if_pos hpoff, hget] at hw
      exact dispatchMsgSingle_pays hd (hw p (by simp))
  | stale _ _ hd =>
      rw [hd]
      exact (emit_pays rfl _).trans (freeMessage_pays msg _)
  | broadcast d₁ hpoff hty h₁ hd =>
      rw [if_neg (by simpa using hpoff), if_pos hty] at hw
      rw [hd]
      have hclones := (dispatchClones_pays h₁ hw).add {msg.id}
      rw [zero_add] at hclones
      exact hclones.trans (freeMessage_pays msg d₁)
  | collect _ _ hd =>
      rw [hd]
      exact (freeMessage_pays msg d).trans (emit_pays rfl _)

/-! ## Sending -/

/-- `queue_put` on the outbox of another domain. -/
theorem putOutbox_pays {gid : Nat} (hgid : gid < maxDomains) (hother : gid ≠ d.gid)
    (msg : Message) : Pays d {msg.id} (d.putOutbox gid msg) 0 := by
  intro hs
  refine ⟨⟨fun g => ?_, ?_, hs.remote, hs.localInbox, hs.process⟩, [],
    (List.append_nil _).symm, ?_, rfl⟩
  · show (Function.update d.outbox gid _ g).Whole
    by_cases hg : g = gid
    · subst hg
      rw [Function.update_self]
      exact Queue.whole_put _ _
    · rw [Function.update_of_ne hg]
      exact hs.outbox g
  · show (Function.update d.outbox gid _ d.gid).items = []
    rw [Function.update_of_ne hother.symm]
    exact hs.own
  · show d.stored + {msg.id} = (d.putOutbox gid msg).stored + 0
    refine add_right_cancel (b := (d.outbox gid).ids) ?_
    rw [add_zero]
    refine Eq.trans ?_ (stored_outbox _ hgid).symm
    rw [(hs.outbox gid).ids_put]
    exact (add_assoc _ _ _).trans (congrArg _ (add_comm _ _))

section Sending
variable {names : Nat → Pid} {target : Pid} {msgType : Int} {msgPayload : List UInt8}
  {msgPayloadSz : Int}

theorem sendIndirect_pays
    (h : sendIndirect names target msgType msgPayload msgPayloadSz d = .ok d')
    (hw : ∀ p ∈ sendTargets names target msgType d, d.WholePut p) : Pays d 0 d' 0 := by
  obtain ⟨pid, hpid, _, _, _, hcase⟩ := sendIndirect_cases h
  have hnew : Pays d 0 (d.sending (d.newMessage pid msgType msgPayload msgPayloadSz.toNat))
      {(d.newMessage pid msgType msgPayload msgPayloadSz.toNat).id} :=
    (mallocMessage_pays d).trans (emit_pays rfl _)
  rcases hcase with ⟨hgid, k, h⟩ | ⟨hgid, hlt, rfl⟩
  · refine hnew.trans (dispatchMsgLocal_pays h ?_)
    intro p hp
    refine hw p ?_
    unfold sendTargets
    rw [hpid]
    dsimp only
    rw [if_pos hgid]
    exact hp
  · exact hnew.trans (putOutbox_pays (d := d.sending _) hlt hgid _)

theorem Sends.whole {T : List ProcId} (h : Sends T d d') (hw : ∀ p ∈ T, d.WholePut p) :
    ∀ p ∈ T, d'.WholePut p :=
  fun p hp => (show Moves False _ _ ∧ _ from h.moves (hw p)).2 hp

theorem sendBroadcast_pays {gids : List Nat} (h : sendBroadcast names msgType gids d = .ok d')
    (hw : ∀ p ∈ gids.flatMap (fun gid =>
      sendTargets names (poffGidToPid pidBroadcast gid) msgType d), d.WholePut p) :
    Pays d 0 d' 0 := by
  induction gids generalizing d with
  | nil =>
      cases h
      exact .quiet ⟨rfl, rfl, rfl, rfl, rfl, rfl⟩ rfl rfl rfl
  | cons gid gids ih =>
      obtain ⟨d₁, h₁, h⟩ := sendBroadcast_cons h
      rw [List.flatMap_cons] at hw
      have hsends := sendIndirect_sends h₁
      refine (sendIndirect_pays h₁ fun p hp => hw p (List.mem_append_left _ hp)).trans (ih h ?_)
      intro p hp
      simp only [sendTargets_congr hsends.frame] at hp
      exact (hsends.mono (fun _ hq => List.mem_append_left _ hq)).whole hw p
        (List.mem_append_right _ hp)

end Sending

/-! ## Processes -/

theorem addProcess_pays (poff : Nat) (umap : UmapRoot ProcId) (receiveCallback : Option Nat)
    (hungry : Bool) : Pays d 0 (d.addProcess poff umap receiveCallback hungry) 0 := by
  intro hs
  have hother : ∀ q, q ≠ d.nextProc →
      (d.addProcess poff umap receiveCallback hungry).process q = d.process q :=
    fun q hq => Function.update_of_ne hq _ _
  have hself : (d.addProcess poff umap receiveCallback hungry).process d.nextProc
      = some ⟨poffGidToPid poff d.gid, Queue.init, Queue.init, receiveCallback⟩ :=
    Function.update_self ..
  refine ⟨⟨hs.outbox, hs.own, hs.remote, hs.localInbox, fun q process hq => ?_⟩,
    [.mallocProcess d.nextProc], rfl, ?_, rfl⟩
  · by_cases hqn : q = d.nextProc
    · subst hqn
      rw [hself] at hq
      obtain rfl := Option.some.inj hq
      exact ⟨Queue.whole_init, Nat.lt_succ_self _, List.mem_cons_self⟩
    · rw [hother q hqn] at hq
      obtain ⟨hbad, hlt, hmem⟩ := hs.process q process hq
      exact ⟨hbad, Nat.lt_succ_of_lt hlt, List.mem_cons_of_mem _ hmem⟩
  · show d.stored + 0 = (d.addProcess poff umap receiveCallback hungry).stored + 0
    have hsum : ∑ q ∈ Finset.range d.nextProc,
        (d.addProcess poff umap receiveCallback hungry).mailed q
        = ∑ q ∈ Finset.range d.nextProc, d.mailed q :=
      Finset.sum_congr rfl fun q hq => mailed_congr (hother q (Finset.mem_range.1 hq).ne)
    show d.stored + 0 = _ + ∑ q ∈ Finset.range (d.nextProc + 1),
      (d.addProcess poff umap receiveCallback hungry).mailed q + 0
    rw [Finset.sum_range_succ, hsum, mailed_of_some hself]
    simp only [Queue.ids_init, add_zero]
    rfl

theorem processNew_pays {receiveCallback : Option Nat} {hungry : Bool}
    (h : processNew receiveCallback hungry d = .ok (p, d')) : Pays d 0 d' 0 := by
  obtain ⟨_, poff, umap, _, _, rfl⟩ := processNew_cases h
  exact addProcess_pays poff umap receiveCallback hungry

theorem spawnConstructor_pays (h : spawnConstructor d = .ok d') : Pays d 0 d' 0 := by
  obtain ⟨poff, umap, q, _, _, _, rfl⟩ := spawnConstructor_cases h
  exact (addProcess_pays poff umap none false).trans
    (.quiet ⟨rfl, rfl, rfl, rfl, rfl, rfl⟩ rfl rfl rfl)

theorem filterMap_free (ms : List Message) :
    (ms.map (fun msg => Event.free msg.id)).filterMap Event.messageDeal
      = (ms.map Message.id).map .give ∧
    (ms.map (fun msg => Event.free msg.id)).filterMap Event.processDeal = [] := by
  induction ms with
  | nil => exact ⟨rfl, rfl⟩
  | cons msg ms ih =>
      refine ⟨?_, ih.2⟩
      rw [List.map_cons, List.filterMap_cons_some (show Event.messageDeal (.free msg.id)
        = some (.give msg.id) from rfl), ih.1]
      rfl

theorem processFree_pays (h : processFree p d = .ok d') : Pays d 0 d' 0 := by
  obtain ⟨process, umap, _, busy, heads, hp, _, _, _, rfl⟩ := processFree_cases h
  intro hs
  obtain ⟨_, hlt, hmem⟩ := hs.process p process hp
  have hother : ∀ q, q ≠ p → (d.removeProcess p process umap busy heads).process q = d.process q :=
    fun q hq => Function.update_of_ne hq _ _
  have hself : (d.removeProcess p process umap busy heads).process p = none := Function.update_self ..
  refine ⟨⟨hs.outbox, hs.own, hs.remote, hs.localInbox, fun q pr hq => ?_⟩,
    process.inbox.items.map (fun msg => Event.free msg.id)
      ++ (process.badmatch.items.map (fun msg => Event.free msg.id)
      ++ [.freeProcess p, .exited p]), ?_, ?_, ?_⟩
  · by_cases hqp : q = p
    · subst hqp
      rw [hself] at hq
      cases hq
    · rw [hother q hqp] at hq
      obtain ⟨hbad, hlt, hmem⟩ := hs.process q pr hq
      exact ⟨hbad, hlt, (List.mem_erase_of_ne hqp).2 hmem⟩
  · simp only [Domain.removeProcess, List.append_assoc]
  · have hstored : (d.removeProcess p process umap busy heads).stored + d.mailed p
        = d.stored + (d.removeProcess p process umap busy heads).mailed p :=
      stored_process hlt rfl rfl rfl rfl hother
    rw [mailed_of_some hp, mailed_of_none hself, add_zero] at hstored
    rw [List.filterMap_append, (filterMap_free _).1, List.filterMap_append, (filterMap_free _).1,
      ← hstored]
    have hall : (d.removeProcess p process umap busy heads).stored
        + (process.inbox.ids + process.badmatch.ids) + 0 = process.inbox.ids
        + (process.badmatch.ids + (d.removeProcess p process umap busy heads).stored) := by
      rw [add_zero, add_comm, add_assoc]
    rw [hall, add_zero]
    exact (Settles.gives _ _).trans ((Settles.gives _ _).trans (Settles.refl _))
  · rw [List.filterMap_append, (filterMap_free _).2, List.filterMap_append, (filterMap_free _).2]
    exact ⟨(d.listOfProcesses.erase p : List ProcId),
      (Multiset.cons_erase (show p ∈ (d.listOfProcesses : Multiset ProcId) from hmem)).symm, rfl⟩

theorem msockReceive_pays {receiveCallback : Option Nat}
    (h : msockReceive p receiveCallback d = .ok d') :
    Pays d 0 d' 0 := by
  obtain ⟨process, badmatch, inbox, hp, hsplice, rfl⟩ := msockReceive_cases h
  intro hs
  obtain ⟨src, dst, hspec, hsrc, hdst, _⟩ :=
    (hs.process p process hp).1.splicePrepend process.inbox
  obtain ⟨rfl, rfl⟩ : src = badmatch ∧ dst = inbox := by simpa [hspec] using hsplice
  refine Pays.setProcess ⟨rfl, rfl, rfl, rfl, rfl, rfl⟩ hp rfl rfl
    (fun e he => ?_) ?_ (fun _ hne => absurd hsrc hne) hs
  · rw [List.mem_singleton.1 he]
    rfl
  · show process.inbox.ids + process.badmatch.ids + 0 = dst.ids + src.ids + 0
    rw [Queue.ids_eq_zero hsrc, add_zero, add_zero, add_zero, add_comm, Queue.ids, Queue.ids,
      Queue.ids, hdst, List.map_append]
    rfl

/-! ## Acts -/

/-- The messages an act brings from another domain. -/
def Act.brings : Act → Multiset MsgId
  | .arrive qr => qr.ids
  | _ => 0

/-- The messages an act leaves to another domain. -/
def Act.leaves (d : Domain) : Act → Multiset MsgId
  | .flushTake true =>
      match d.phase with
      | .flush gid _ false _ => if gid < maxDomains then (d.outbox gid).ids else 0
      | _ => 0
  | _ => 0

/-- Only the phase changes, and what is in hand does not. -/
theorem phase_pays {phase : Phase} (h : phase.inHand = d.phase.inHand) :
    Pays d d.phase.inHand { d with phase := phase } phase.inHand :=
  h ▸ .quiet ⟨rfl, rfl, rfl, rfl, rfl, rfl⟩ rfl rfl rfl

theorem noteReceive_inHand (phase : Phase) (q : ProcId) :
    (phase.noteReceive q).inHand = phase.inHand := by
  cases phase <;> rfl

theorem called_pays {call : Api} (h : Called env d call d')
    (hphase : d.phase = .idle ∨ ∃ p msg received, d.phase = .callback p msg received)
    (hw : ∀ p ∈ Act.targets env (.api call) d, d.WholePut p) :
    Pays d 0 d' 0 ∧ d'.phase.inHand = d.phase.inHand := by
  cases h with
  | send target msgType msgPayload msgPayloadSz _ h =>
      exact ⟨sendIndirect_pays h hw, by rw [(sendIndirect_sends h).frame.phase]⟩
  | spawn receiveCallback q _ h =>
      exact ⟨processNew_pays h, by rw [(processNew_outbox h).2]⟩
  | spawn2 _ h => exact ⟨spawnConstructor_pays h, by rw [(spawnConstructor_outbox h).2]⟩
  | constructed cur oldproc _ _ =>
      exact ⟨.quiet ⟨rfl, rfl, rfl, rfl, rfl, rfl⟩ rfl rfl rfl, rfl⟩
  | receive receiveCallback cur oldproc d₁ hcur h =>
      refine ⟨(msockReceive_pays h).trans (.quiet ⟨rfl, rfl, rfl, rfl, rfl, rfl⟩ rfl rfl rfl), ?_⟩
      obtain ⟨_, _, _, _, _, rfl⟩ := msockReceive_cases h
      exact noteReceive_inHand d.phase cur
  | loopexit _ h =>
      exact ⟨sendBroadcast_pays h hw, by rw [(sendBroadcast_sends h).frame.phase]⟩
  | memoryCollect d₁ _ h =>
      refine ⟨(sendBroadcast_pays h hw).trans (.quiet ⟨rfl, rfl, rfl, rfl, rfl, rfl⟩ rfl rfl rfl), ?_⟩
      show Phase.inHand (.flush 0 0 false d₁.phase.flushFrom) = d.phase.inHand
      rw [(sendBroadcast_sends h).frame.phase]
      rcases hphase with hphase | ⟨p, msg, received, hphase⟩ <;> rw [hphase] <;> rfl

/-- One turn of `send_flush_outbox`. -/
theorem flushTake_pays {gid counter : Nat} {back : FlushFrom} (victim : Bool)
    (hphase : d.phase = .flush gid counter false back) :
    Pays d d.phase.inHand (flushTake gid counter back victim d)
      ((flushTake gid counter back victim d).phase.inHand + (Act.flushTake victim).leaves d) := by
  have hleaves : (Act.flushTake victim).leaves d
      = if victim = true ∧ gid < maxDomains then (d.outbox gid).ids else 0 := by
    cases victim <;> simp [Act.leaves, hphase]
  have hback : ∀ counter sp, (Phase.flush gid counter sp back).inHand = d.phase.inHand ∧
      (back.phase counter).inHand = d.phase.inHand := by
    intro counter sp
    rw [hphase]
    cases back <;> exact ⟨rfl, rfl⟩
  have hnext : (Phase.flush (gid + 1) counter false back).inHand = d.phase.inHand := by
    rw [hphase]
    cases back <;> rfl
  rw [hleaves]
  unfold flushTake
  split
  · rename_i hge
    rw [if_neg (fun hc => absurd hge (Nat.not_le.2 hc.2)), add_zero]
    exact phase_pays (hback counter false).2
  · rename_i hlt
    have hlt : gid < maxDomains := Nat.not_le.1 hlt
    split
    · rename_i hempty
      rw [Queue.ids_eq_zero hempty, ite_self, add_zero]
      exact phase_pays hnext
    · intro hs
      have hsturdy : ∀ d' : Domain, d'.gid = d.gid →
          d'.outbox = Function.update d.outbox gid Queue.init → d'.remoteInbox = d.remoteInbox →
          d'.localInbox = d.localInbox → d'.process = d.process → d'.nextProc = d.nextProc →
          d'.listOfProcesses = d.listOfProcesses → d'.Sturdy := by
        intro d' hgid hout hremote hlocal hproc hn hlist
        refine ⟨fun g => ?_, ?_, hremote ▸ hs.remote, hlocal ▸ hs.localInbox, fun p pr hp => ?_⟩
        · rw [hout]
          by_cases hg : g = gid
          · subst hg
            rw [Function.update_self]
            exact Queue.whole_init
          · rw [Function.update_of_ne hg]
            exact hs.outbox g
        · rw [hout, hgid]
          by_cases hg : d.gid = gid
          · rw [← hg, Function.update_self]
            rfl
          · rw [Function.update_of_ne hg]
            exact hs.own
        · rw [hn, hlist]
          exact hs.process p pr (hproc ▸ hp)
      have hstored := stored_outbox (d := d) Queue.init hlt
      rw [Queue.ids_init, add_zero] at hstored
      split
      · rename_i hvictim
        refine ⟨hsturdy _ rfl rfl rfl rfl rfl rfl rfl, [], (List.append_nil _).symm, ?_, rfl⟩
        rw [if_pos ⟨hvictim, hlt⟩]
        show d.stored + _ = ({ d with outbox := Function.update d.outbox gid Queue.init } : Domain).stored
          + ((Phase.flush gid counter true back).inHand + _)
        rw [(hback counter true).1, ← hstored, add_assoc, add_comm (d.outbox gid).ids]
      · rename_i hvictim
        rw [if_neg (fun hc => hvictim hc.1), add_zero, drainMessageQueue_eq]
        refine ⟨hsturdy _ rfl rfl rfl rfl rfl rfl rfl, _, rfl, ?_, ?_⟩
        · rw [(filterMap_free _).1]
          show Settles _ (d.stored + _)
            (({ d with outbox := Function.update d.outbox gid Queue.init } : Domain).stored
              + (Phase.flush (gid + 1) counter false back).inHand)
          rw [hnext, ← hstored, add_right_comm, add_comm _ (d.outbox gid).ids]
          exact Settles.gives _ _
        · rw [(filterMap_free _).2]
          rfl

/--
**Every act pays**, if it puts messages into whole inboxes only: what the domain has, and what
comes from another one, is what its events say it is afterwards.
-/
theorem act_pays {a : Act} (h : d.act (env, a) = .ok d') (hw : ∀ p ∈ a.targets env d, d.WholePut p)
    (hqr : ∀ qr, a = .arrive qr → qr.Whole) :
    Pays d (d.phase.inHand + a.brings) d' (d'.phase.inHand + a.leaves d) := by
  cases step_cases h with
  | arrive qr =>
      intro hs
      obtain ⟨_, hitems, _, hwhole⟩ := (hqr qr rfl).splice hs.remote
      refine ⟨⟨hs.outbox, hs.own, hwhole, hs.localInbox, hs.process⟩, [],
        (List.append_nil _).symm, ?_, rfl⟩
      have hids : (Queue.splice qr d.remoteInbox).2.ids = d.remoteInbox.ids + qr.ids := by
        rw [Queue.ids, hitems, List.map_append]
        rfl
      show d.stored + (d.phase.inHand + qr.ids) = ∑ gid ∈ Finset.range maxDomains, (d.outbox gid).ids
        + ((Queue.splice qr d.remoteInbox).2.ids + d.localInbox.ids)
        + ∑ p ∈ Finset.range d.nextProc, d.mailed p + (d.phase.inHand + 0)
      rw [hids, Domain.stored]
      abel
  | baseSend target msgType msgPayload msgPayloadSz d₁ hphase hsend =>
      rw [hphase]
      exact (sendIndirect_pays hsend hw).trans
        (.quiet ⟨rfl, rfl, rfl, rfl, rfl, rfl⟩ rfl rfl rfl)
  | baseSpawn receiveCallback hungry p hphase hnew =>
      rw [(processNew_outbox hnew).2, hphase]
      exact processNew_pays hnew
  | baseSpawn2 hphase hnew =>
      rw [(spawnConstructor_outbox hnew).2, hphase]
      exact spawnConstructor_pays hnew
  | api call hphase hcall =>
      obtain ⟨hpays, hhand⟩ := called_pays hcall hphase hw
      rw [hhand]
      simpa [Act.brings, Act.leaves] using hpays.add d.phase.inHand
  | pick hphase _ | mark hphase | retire hphase _ | requeue hphase _ =>
      rw [hphase]
      exact .quiet ⟨rfl, rfl, rfl, rfl, rfl, rfl⟩ rfl rfl rfl
  | nextDone egress cursor hphase =>
      rw [hphase]
      exact .quiet ⟨rfl, rfl, rfl, rfl, rfl, rfl⟩ rfl rfl rfl
  -- from one inbox of the domain to the other
  | splice hphase =>
      rw [hphase]
      intro hs
      obtain ⟨hempty, hitems, hremote, hlocal⟩ := hs.remote.splice hs.localInbox
      refine ⟨⟨hs.outbox, hs.own, hremote, hlocal, hs.process⟩, [], (List.append_nil _).symm, ?_,
        rfl⟩
      have hids : (Queue.splice d.remoteInbox d.localInbox).2.ids
          = d.localInbox.ids + d.remoteInbox.ids := by
        rw [Queue.ids, hitems, List.map_append]
        rfl
      show d.stored + 0 = ∑ gid ∈ Finset.range maxDomains, (d.outbox gid).ids
        + ((Queue.splice d.remoteInbox d.localInbox).1.ids
          + (Queue.splice d.remoteInbox d.localInbox).2.ids)
        + ∑ p ∈ Finset.range d.nextProc, d.mailed p + 0
      rw [hids, Queue.ids_eq_zero hempty, zero_add, Domain.stored, add_comm d.localInbox.ids]
  | dispatchNone again counter hphase _ =>
      rw [hphase]
      have hhand : (if again = true ∧ counter = 0 then Phase.flush 0 0 false .domainRun
          else Phase.queueRun).inHand = 0 := by
        split <;> rfl
      show Pays d 0 _ ((if again = true ∧ counter = 0 then Phase.flush 0 0 false .domainRun
          else Phase.queueRun).inHand + 0)
      rw [hhand]
      exact .quiet ⟨rfl, rfl, rfl, rfl, rfl, rfl⟩ rfl rfl rfl
  | dispatchOne again counter msg localInbox delivered d₁ hphase hget hdispatch =>
      rw [hphase]
      have hget' : Pays d 0 { d with localInbox := localInbox } {msg.id} := by
        intro hs
        refine ⟨⟨hs.outbox, hs.own, hs.remote, hs.localInbox.get hget, hs.process⟩, [],
          (List.append_nil _).symm, ?_, rfl⟩
        show d.stored + 0 = ∑ gid ∈ Finset.range maxDomains, (d.outbox gid).ids
          + (d.remoteInbox.ids + localInbox.ids) + ∑ p ∈ Finset.range d.nextProc, d.mailed p
          + {msg.id}
        rw [Domain.stored, Queue.ids_get hget]
        abel
      refine hget'.trans ((dispatchMsgLocal_pays hdispatch fun p hp => hw p ?_).trans
        (.quiet ⟨rfl, rfl, rfl, rfl, rfl, rfl⟩ rfl rfl rfl))
      simp only [Act.targets, hget]
      exact hp
  | queueNone busy heads hphase _ =>
      rw [hphase]
      exact .quiet ⟨rfl, rfl, rfl, rfl, rfl, rfl⟩ rfl rfl rfl
  | queueOne p busy heads hphase _ =>
      rw [hphase]
      exact .quiet ⟨rfl, rfl, rfl, rfl, rfl, rfl⟩ rfl rfl rfl
  | inboxNone p process hphase _ _ =>
      rw [hphase]
      exact .quiet ⟨rfl, rfl, rfl, rfl, rfl, rfl⟩ rfl rfl rfl
  | inboxOne p process msg inbox hphase hp hget _ =>
      rw [hphase]
      refine Pays.setProcess ⟨rfl, rfl, rfl, rfl, rfl, rfl⟩ hp rfl rfl
        (fun e he => ?_) ?_ id
      · rw [List.mem_singleton.1 he]
        rfl
      -- out of the inbox and into the hand of `process_run`
      · show process.inbox.ids + process.badmatch.ids + 0
          = inbox.ids + process.badmatch.ids + ({msg.id} + 0)
        rw [Queue.ids_get hget]
        abel
  | retOk p msg received hphase _ =>
      rw [hphase]
      exact (emit_pays rfl _).trans ((freeMessage_pays msg _).trans
        (.quiet ⟨rfl, rfl, rfl, rfl, rfl, rfl⟩ rfl rfl rfl))
  | retBadmatch p msg received process hphase _ hp =>
      rw [hphase]
      intro hs
      refine Pays.setProcess ⟨rfl, rfl, rfl, rfl, rfl, rfl⟩ hp rfl rfl
        (fun e he => ?_) ?_ (fun _ => Queue.whole_put _ _) hs
      · rw [List.mem_singleton.1 he]
        rfl
      -- from the hand to the queue of those set aside
      · show process.inbox.ids + process.badmatch.ids + ({msg.id} + 0)
          = process.inbox.ids + (process.badmatch.put msg).2.ids + 0
        rw [(hs.process p process hp).1.ids_put]
        abel
  | retExit p msg received d₁ hphase _ hfree =>
      rw [hphase]
      exact (emit_pays rfl _).trans ((freeMessage_pays msg _).trans
        ((processFree_pays hfree).trans (.quiet ⟨rfl, rfl, rfl, rfl, rfl, rfl⟩ rfl rfl rfl)))
  | flushTake victim gid counter back hphase =>
      show Pays d (d.phase.inHand + 0) _ _
      rw [add_zero]
      exact flushTake_pays victim hphase
  | flushWake dequeued gid counter back hphase =>
      have hhand : (Phase.flush (gid + 1) (counter + 1) false back).inHand = d.phase.inHand := by
        rw [hphase]
        cases back <;> rfl
      show Pays d (d.phase.inHand + 0) _ ((Phase.flush (gid + 1) (counter + 1) false back).inHand + 0)
      rw [hhand]
      cases dequeued with
      | false => exact .quiet ⟨rfl, rfl, rfl, rfl, rfl, rfl⟩ rfl rfl rfl
      | true => exact (emit_pays rfl _).trans (.quiet ⟨rfl, rfl, rfl, rfl, rfl, rfl⟩ rfl rfl rfl)
  | nextNested egress p hphase hnext hsend =>
      obtain ⟨process, d₁, hp, hempty, rfl⟩ := sendQueueEmpty_cases hsend
      rw [hphase]
      refine (sendIndirect_pays hempty fun q hq => hw q ?_).trans
        (.quiet ⟨rfl, rfl, rfl, rfl, rfl, rfl⟩ rfl rfl rfl)
      simp only [Act.targets, hphase, hnext, Option.bind_some, hp]
      exact hq

theorem sturdy_new (gid maxProcesses : Nat) : (Domain.new gid maxProcesses).Sturdy where
  outbox := fun _ => Queue.whole_init
  own := rfl
  remote := Queue.whole_init
  localInbox := Queue.whole_init
  process := fun _ _ hp => by cases hp

end Msock
