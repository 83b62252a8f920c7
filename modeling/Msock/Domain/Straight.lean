import Msock.Domain.Receive
import Msock.Domain.Post

/-!
# First come, first served

A process that never sets a message aside is presented its messages in the order in which they
arrived, each once: `Straight` says so of a process from some moment on, and every act of its
domain keeps it, a `RECV_BADMATCH` of the process apart. It may call `msock_receive` as it
likes, for there is nothing to take back.
-/

namespace Msock

open Lib

variable {d d' : Domain} {p q : ProcId} {msg : Message} {env : Env} {t₀ es : List Event}
  {inbox₀ : List Message}

/-- The messages that the callback of `p` was called with. -/
def presentations (p : ProcId) (es : List Event) : List Message :=
  es.filterMap (Event.presentedTo p)

theorem presentations_append (es es' : List Event) :
    presentations p (es ++ es') = presentations p es ++ presentations p es' :=
  List.filterMap_append

/-- The event neither hands a message to `p` nor presents one to it. -/
def Event.aside (p : ProcId) : Event → Bool
  | .handed q _ => q != p
  | .presented q _ => q != p
  | _ => true

theorem aside_eq (h : ∀ e ∈ es, e.aside p = true) : arrivals p es = [] ∧ presentations p es = [] := by
  refine ⟨List.filterMap_eq_nil_iff.2 fun e he => ?_, List.filterMap_eq_nil_iff.2 fun e he => ?_⟩
  · have := h e he
    cases e <;> simp_all [Event.aside, Event.arrivedAt]
  · have := h e he
    cases e <;> simp_all [Event.aside, Event.presentedTo]

theorem aside_of_silent {e : Event} (h : e.silent p = true) : e.aside p = true := by
  cases e <;> simp_all [Event.silent, Event.aside]

/-- Since the trace was `t₀` and the inbox of `p` had `inbox₀` in it, the process was presented
what came first, and the rest is in its inbox. -/
structure Straight (p : ProcId) (t₀ : List Event) (inbox₀ : List Message) (d : Domain) : Prop where
  old : p < d.nextProc
  queue : ∃ es rest, d.trace = t₀ ++ es ∧ presentations p es ++ rest = inbox₀ ++ arrivals p es ∧
    ∀ process, d.process p = some process →
      process.badmatch.items = [] ∧ process.inbox.Whole ∧ process.inbox.items = rest

/-- Where it starts. -/
theorem straight_start {process : Process} (hp : d.process p = some process)
    (hold : p < d.nextProc) (hbadmatch : process.badmatch.items = []) (hinbox : process.inbox.Whole) :
    Straight p d.trace process.inbox.items d where
  old := hold
  queue := ⟨[], process.inbox.items, (List.append_nil _).symm, by simp [presentations, arrivals],
    fun process' hp' => by
      obtain rfl := Option.some.inj (hp.symm.trans hp')
      exact ⟨hbadmatch, hinbox, rfl⟩⟩

theorem Straight.congr (h : Straight p t₀ inbox₀ d) (hnext : d.nextProc ≤ d'.nextProc)
    (htrace : d'.trace = d.trace ++ es) (hes : ∀ e ∈ es, e.aside p = true)
    (hproc : ∀ process, d'.process p = some process → d.process p = some process) :
    Straight p t₀ inbox₀ d' := by
  obtain ⟨es₀, rest, htrace₀, hqueue, hkept⟩ := h.queue
  obtain ⟨harrivals, hpresentations⟩ := aside_eq hes
  refine ⟨Nat.lt_of_lt_of_le h.old hnext, es₀ ++ es, rest, ?_, ?_, fun process hp => ?_⟩
  · rw [htrace, htrace₀, List.append_assoc]
  · rw [presentations_append, arrivals_append, harrivals, hpresentations, List.append_nil,
      List.append_nil, hqueue]
  · exact hkept process (hproc process hp)

/-- A change that adds nothing to the trace and touches no process. -/
theorem Straight.same (h : Straight p t₀ inbox₀ d) (hnext : d'.nextProc = d.nextProc)
    (htrace : d'.trace = d.trace) (hproc : d'.process = d.process) : Straight p t₀ inbox₀ d' := by
  have hnone : d'.trace = d.trace ++ [] := by rw [htrace, List.append_nil]
  exact h.congr (le_of_eq hnext.symm) hnone (List.forall_mem_nil _) (fun _ hp => hproc ▸ hp)

/-! ## Sending -/

theorem Quiet.straight (hq : Quiet d d') (h : Straight p t₀ inbox₀ d) : Straight p t₀ inbox₀ d' := by
  cases hq with
  | outbox gid msg => exact h.same rfl rfl rfl
  | _ => exact h.congr (Nat.le_refl _) rfl (by simp [Event.aside]) (fun _ hp => hp)

/-- A message that arrives goes behind the others. -/
theorem Straight.handed (h : Straight p t₀ inbox₀ d) (hd : dispatchMsgSingle q msg d = .ok d') :
    Straight p t₀ inbox₀ d' := by
  obtain ⟨process, hp, hcase⟩ := dispatchMsgSingle_cases hd
  obtain ⟨hproc, htrace, hnext⟩ : d'.process = Function.update d.process q
      (some { process with inbox := (process.inbox.put msg).2 }) ∧
      d'.trace = d.trace ++ [.handed q msg] ∧ d'.nextProc = d.nextProc := by
    rcases hcase with ⟨_, rfl⟩ | ⟨_, _, busy, heads, _, rfl⟩ <;> exact ⟨rfl, rfl, rfl⟩
  by_cases hqp : q = p
  · subst hqp
    obtain ⟨es₀, rest, htrace₀, hqueue, hkept⟩ := h.queue
    obtain ⟨hbadmatch, hwhole, hitems⟩ := hkept process hp
    refine ⟨by rw [hnext]; exact h.old, es₀ ++ [.handed q msg], rest ++ [msg], ?_, ?_,
      fun process' hp' => ?_⟩
    · rw [htrace, htrace₀, List.append_assoc]
    · have harr : arrivals q [.handed q msg] = [msg] := by simp [arrivals, Event.arrivedAt]
      have hpres : presentations q [.handed q msg] = [] := rfl
      rw [presentations_append, arrivals_append, harr, hpres, List.append_nil, ← List.append_assoc,
        hqueue, List.append_assoc]
    · rw [hproc, Function.update_self] at hp'
      obtain rfl := Option.some.inj hp'
      exact ⟨hbadmatch, Queue.whole_put _ _, by rw [← hitems]; exact (hwhole.put msg).1⟩
  · refine h.congr (le_of_eq hnext.symm) htrace (by simp [Event.aside, hqp]) fun process' hp' => ?_
    rw [hproc, Function.update_of_ne (Ne.symm hqp)] at hp'
    exact hp'

theorem Sends.straight {T : List ProcId} (hs : Sends T d d') (h : Straight p t₀ inbox₀ d) :
    Straight p t₀ inbox₀ d' := by
  induction hs with
  | refl => exact h
  | quiet _ hq ih => exact hq.straight ih
  | single q msg _ _ hd ih => exact ih.handed hd

/-! ## Acts -/

/-- A new process is another one. -/
theorem addProcess_straight (h : Straight p t₀ inbox₀ d) (poff : Nat) (umap : UmapRoot ProcId)
    (receiveCallback : Option Nat) (hungry : Bool) :
    Straight p t₀ inbox₀ (d.addProcess poff umap receiveCallback hungry) := by
  refine h.congr (Nat.le_succ _) rfl (by simp [Event.aside]) fun process hp => ?_
  have hne : p ≠ d.nextProc := Nat.ne_of_lt h.old
  simpa [Domain.addProcess, Function.update_of_ne hne] using hp

theorem processFree_straight (h : Straight p t₀ inbox₀ d) (hf : processFree q d = .ok d') :
    Straight p t₀ inbox₀ d' := by
  obtain ⟨process, umap, _, busy, heads, _, _, _, _, rfl⟩ := processFree_cases hf
  have htrace : (d.removeProcess q process umap busy heads).trace = d.trace
      ++ (process.inbox.items.map (fun msg => Event.free msg.id)
        ++ process.badmatch.items.map (fun msg => Event.free msg.id)
        ++ [.freeProcess q, .exited q]) := by
    simp [Domain.removeProcess]
  refine h.congr (Nat.le_refl _) htrace (fun e he => ?_) fun process' hp' => ?_
  · simp only [List.mem_append, List.mem_map, List.mem_cons, List.not_mem_nil, or_false] at he
    rcases he with (⟨_, _, rfl⟩ | ⟨_, _, rfl⟩) | rfl | rfl <;> rfl
  · by_cases hqp : p = q
    · subst hqp
      simp [Domain.removeProcess] at hp'
    · simpa [Domain.removeProcess, Function.update_of_ne hqp] using hp'

/-- With nothing set aside, `msock_receive` leaves the inbox as it is. -/
theorem msockReceive_straight {receiveCallback : Option Nat} (h : Straight p t₀ inbox₀ d)
    (hr : msockReceive q receiveCallback d = .ok d') : Straight p t₀ inbox₀ d' := by
  obtain ⟨process, badmatch, inbox, hp, hsplice, rfl⟩ := msockReceive_cases hr
  by_cases hqp : q = p
  · subst hqp
    obtain ⟨es₀, rest, htrace₀, hqueue, hkept⟩ := h.queue
    obtain ⟨hbadmatch, hwhole, hitems⟩ := hkept process hp
    rw [Queue.splicePrepend, if_pos (by simp [hbadmatch])] at hsplice
    obtain ⟨rfl, rfl⟩ : process.badmatch = badmatch ∧ process.inbox = inbox := by
      simpa using hsplice
    refine ⟨h.old, es₀ ++ [.received q], rest, ?_, ?_, fun process' hp' => ?_⟩
    · show d.trace ++ [.received q] = _
      rw [htrace₀, List.append_assoc]
    · have harr : arrivals q [.received q] = [] := rfl
      have hpres : presentations q [.received q] = [] := rfl
      rw [presentations_append, arrivals_append, harr, hpres, List.append_nil, List.append_nil, hqueue]
    · simp only [Domain.setProcess, Domain.emit, Function.update_self] at hp'
      obtain rfl := Option.some.inj hp'
      exact ⟨hbadmatch, hwhole, hitems⟩
  · refine h.congr (Nat.le_refl _) rfl (by simp [Event.aside]) fun process' hp' => ?_
    simpa [Domain.setProcess, Domain.emit, Function.update_of_ne (Ne.symm hqp)] using hp'

theorem called_straight {call : Api} (h : Called env d call d') (hs : Straight p t₀ inbox₀ d) :
    Straight p t₀ inbox₀ d' := by
  cases h with
  | send target msgType msgPayload msgPayloadSz _ h => exact (sendIndirect_sends h).straight hs
  | spawn receiveCallback q _ h =>
      obtain ⟨_, poff, umap, _, _, rfl⟩ := processNew_cases h
      exact addProcess_straight hs poff umap receiveCallback false
  | spawn2 _ h =>
      obtain ⟨poff, umap, q, _, _, _, rfl⟩ := spawnConstructor_cases h
      exact (addProcess_straight hs poff umap none false).same rfl rfl rfl
  | constructed cur oldproc _ _ => exact hs.same rfl rfl rfl
  | receive receiveCallback cur oldproc d₁ _ h => exact (msockReceive_straight hs h).same rfl rfl rfl
  | loopexit _ h => exact (sendBroadcast_sends h).straight hs
  | memoryCollect d₁ _ h => exact ((sendBroadcast_sends h).straight hs).same rfl rfl rfl

/-- The act is not a `RECV_BADMATCH` of `p`. -/
def takes (p : ProcId) (d : Domain) (a : Act) : Prop :=
  a.setsAside = true → d.phase.running ≠ some p

instance (p : ProcId) (d : Domain) (a : Act) : Decidable (takes p d a) :=
  inferInstanceAs (Decidable (_ → _))

/-- **Every act leaves the order straight**, a `RECV_BADMATCH` of the process apart. -/
theorem stepped_straight {a : Act} (h : Stepped env d a d') (ht : takes p d a)
    (hs : Straight p t₀ inbox₀ d) : Straight p t₀ inbox₀ d' := by
  cases h with
  | arrive qr => exact hs.same rfl rfl rfl
  | baseSend target msgType msgPayload msgPayloadSz d₁ _ h =>
      exact ((sendIndirect_sends h).straight hs).same rfl rfl rfl
  | baseSpawn receiveCallback hungry q _ h =>
      obtain ⟨_, poff, umap, _, _, rfl⟩ := processNew_cases h
      exact addProcess_straight hs poff umap receiveCallback hungry
  | baseSpawn2 _ h =>
      obtain ⟨poff, umap, q, _, _, _, rfl⟩ := spawnConstructor_cases h
      exact (addProcess_straight hs poff umap none false).same rfl rfl rfl
  | api call _ h => exact called_straight h hs
  | pick | mark | splice | dispatchNone | queueNone | queueOne | inboxNone | nextDone | retire
  | requeue =>
      exact hs.same rfl rfl rfl
  | dispatchOne again counter msg localInbox delivered d₁ _ _ h =>
      have hs₁ : Straight p t₀ inbox₀ { d with localInbox := localInbox } := hs.same rfl rfl rfl
      exact ((dispatchMsgLocal_sends h).straight hs₁).same rfl rfl rfl
  | inboxOne q process msg inbox _ hp hget _ =>
      by_cases hqp : q = p
      · subst hqp
        -- what is presented is the front of the inbox
        obtain ⟨es₀, rest, htrace₀, hqueue, hkept⟩ := hs.queue
        obtain ⟨hbadmatch, hwhole, hitems⟩ := hkept process hp
        obtain ⟨hfront, _⟩ := Queue.get_eq_some hget
        refine ⟨hs.old, es₀ ++ [.presented q msg], inbox.items, ?_, ?_, fun process' hp' => ?_⟩
        · show d.trace ++ [.presented q msg] = _
          rw [htrace₀, List.append_assoc]
        · have harr : arrivals q [.presented q msg] = [] := rfl
          have hpres : presentations q [.presented q msg] = [msg] := by
            simp [presentations, Event.presentedTo]
          rw [presentations_append, arrivals_append, harr, hpres, List.append_nil, ← hqueue,
            List.append_assoc, ← hitems, hfront]
          rfl
        · simp only [Domain.setProcess, Domain.emit, Function.update_self] at hp'
          obtain rfl := Option.some.inj hp'
          exact ⟨hbadmatch, hwhole.get hget, rfl⟩
      · refine hs.congr (Nat.le_refl _) rfl (by simp [Event.aside, hqp]) fun process' hp' => ?_
        simpa [Domain.setProcess, Domain.emit, Function.update_of_ne (Ne.symm hqp)] using hp'
  | retOk q msg received _ _ =>
      have htrace : (freeMessage msg (d.emit (.consumed q msg))).trace
          = d.trace ++ [.consumed q msg, .free msg.id] := by simp [freeMessage, Domain.emit]
      exact hs.congr (Nat.le_refl _) htrace (by simp [Event.aside]) fun _ hp => hp
  | retBadmatch q msg received process hphase _ hp =>
      have hqp : q ≠ p := fun heq => ht rfl (by rw [hphase, heq]; rfl)
      refine hs.congr (Nat.le_refl _) rfl (by simp [Event.aside]) fun process' hp' => ?_
      simpa [Domain.setProcess, Domain.emit, Function.update_of_ne (Ne.symm hqp)] using hp'
  | retExit q msg received d₁ _ _ h =>
      have hs₁ : Straight p t₀ inbox₀ (freeMessage msg (d.emit (.consumed q msg))) := by
        have htrace : (freeMessage msg (d.emit (.consumed q msg))).trace
            = d.trace ++ [.consumed q msg, .free msg.id] := by simp [freeMessage, Domain.emit]
        exact hs.congr (Nat.le_refl _) htrace (by simp [Event.aside]) fun _ hp => hp
      exact (processFree_straight hs₁ h).same rfl rfl rfl
  | flushTake victim gid counter back hphase =>
      obtain ⟨es, hproc, hnext, htrace, hsilent, _⟩ := flushTake_mailbox victim hphase p
      exact hs.congr (le_of_eq hnext.symm) htrace (fun e he => aside_of_silent (hsilent e he))
        fun _ hp => hproc ▸ hp
  | flushWake dequeued gid counter back _ =>
      cases dequeued with
      | false => exact hs.same rfl rfl rfl
      | true =>
          have hwoke : (Event.woke gid).aside p = true := rfl
          exact hs.congr (Nat.le_refl _) rfl (List.forall_mem_singleton.2 hwoke) fun _ hp => hp
  | nextNested egress q _ _ h =>
      obtain ⟨process, d₁, _, hsend, rfl⟩ := sendQueueEmpty_cases h
      exact ((sendIndirect_sends hsend).straight hs).same rfl rfl rfl

end Msock
