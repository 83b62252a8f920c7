import Msock.Base.Sending
import Msock.Domain.Total

/-!
# Pointers that lead nowhere

The library follows a pointer, or indexes an array, on almost every line. Apart from the runs
in which a process is queued twice, or the process under the cursor of `worker_domain_run` is
freed, two functions are left that do so at the user's word: `_send_indirect`, which indexes
`name_to_pid` and `outbox` with the target's fields and copies the payload, and `process_run`,
which calls `receive_callback` without asking whether there is one.
-/

namespace Msock

open Lib

variable {b b' : Base} {gid : Nat} {d d' : Domain} {env : Env} {names : Nat → Pid} {target : Pid}
  {msgType : Int} {msgPayload : List UInt8} {msgPayloadSz : Int} {r : Option ProcId}

/-! ## Sending -/

/-- Outside the arrays, or with a payload that ends early, a send faults. -/
theorem sendIndirect_out_of_range (hd : d.gid < maxDomains)
    (h : ¬ SendInRange names target msgPayload msgPayloadSz) :
    sendIndirect names target msgType msgPayload msgPayloadSz d = .error .fault := by
  have hoff : ∀ pid, resolveTarget names target = .ok pid → PayloadFits msgPayloadSz →
      ¬ (PayloadReads msgPayload msgPayloadSz ∧ pidToGid pid < maxDomains) →
      sendIndirect names target msgType msgPayload msgPayloadSz d = .error .fault := by
    intro pid hres hfits hnot
    by_cases hreads : PayloadReads msgPayload msgPayloadSz
    · have hge : ¬ pidToGid pid < maxDomains := fun hlt => hnot ⟨hreads, hlt⟩
      have hown : pidToGid pid ≠ d.gid := by omega
      rw [sendIndirect_resolved msgType msgPayload d hres hfits hreads, if_neg hown, if_neg hge]
    · exact sendIndirect_short msgType msgPayload d hres hfits hreads
  unfold SendInRange at h
  split at h
  · rename_i hgid
    by_cases hpoff : pidToPoff target < maxRegNames
    · have hres := resolveTarget_name names hgid hpoff
      simp only [hpoff, true_and, Classical.not_imp] at h
      obtain ⟨hname, hfits, hge⟩ := h
      rw [if_neg hname] at hres
      exact hoff _ hres hfits hge
    · apply sendIndirect_unresolved
      rw [resolveTarget, if_pos hgid, nameToPid, if_neg hpoff]
      rfl
  · rename_i hgid
    simp only [Classical.not_imp] at h
    have hres : resolveTarget names target = .ok target := by
      rw [resolveTarget, if_neg hgid]
    exact hoff target hres h.1 h.2

/-- The message that was built is dispatched. -/
theorem dispatch_sent (msg : Message) (ho : d.Ordered r) (hr : Routed d.roster)
    (hs : ∀ p ∈ dispatchTargets msg.target msg.msgType d, d.sched.SafePut p) :
    ∃ k d', dispatchMsgLocal msg (d.sending msg) = .ok (k, d') := by
  have ho₁ : (d.sending msg).Ordered r := ho
  have hr₁ : Routed (d.sending msg).roster := hr
  have hs₁ : ∀ p ∈ dispatchTargets msg.target msg.msgType (d.sending msg),
      (d.sending msg).sched.SafePut p := hs
  exact dispatchMsgLocal_total ho₁ hr₁ hs₁

/-- Inside them it does not, if its targets may be put to. -/
theorem sendIndirect_sound (ho : d.Ordered r) (hr : Routed d.roster)
    (hs : ∀ p ∈ sendTargets names target msgType d, d.sched.SafePut p)
    (h : SendInRange names target msgPayload msgPayloadSz) :
    Sound (sendIndirect names target msgType msgPayload msgPayloadSz d) := by
  cases (sendSafe_iff msgType msgPayload d hr.gid_lt).2 h with
  | fatal text h =>
      rw [h]
      exact sound_fatal text
  | outbox pid hpid hreads hgid h =>
      rw [h]
      exact sound_ok _
  | dispatch pid hpid hreads hgid h =>
      rw [h]
      unfold sendTargets at hs
      rw [hpid] at hs
      dsimp only at hs
      rw [if_pos hgid.1] at hs
      obtain ⟨k, d₁, hd₁⟩ := dispatch_sent
        (d.newMessage pid msgType msgPayload msgPayloadSz.toNat) ho hr hs
      rw [hd₁]
      exact sound_ok _

/-- A send that succeeded has left the schedule in order and the processes where they were. -/
theorem sendIndirect_keeps (ho : d.Ordered r) (hr : Routed d.roster)
    (hs : ∀ p ∈ sendTargets names target msgType d, d.sched.SafePut p)
    (h : sendIndirect names target msgType msgPayload msgPayloadSz d = .ok d') :
    Puts r d d' ∧ Routed d'.roster := by
  have hsends := sendIndirect_sends h
  exact ⟨hsends.puts ho hs, hsends.roster ▸ hr⟩

/-- The broadcast pid of a domain there can be is in range. -/
theorem broadcast_in_range (hpos : 0 < gid) (hlt : gid < maxDomains) :
    SendInRange names (poffGidToPid pidBroadcast gid) [] 0 := by
  have hfield : pidToGid (poffGidToPid pidBroadcast gid) = gid :=
    pidToGid_poffGidToPid (by unfold pidBroadcast; omega) (by unfold maxDomains at hlt; omega)
  unfold SendInRange
  rw [hfield, if_neg (Nat.pos_iff_ne_zero.1 hpos)]
  exact fun _ => ⟨Nat.le_refl 0, hlt⟩

theorem sendBroadcast_sound {gids : List Nat} (hgids : ∀ gid ∈ gids, 0 < gid ∧ gid < maxDomains)
    (ho : d.Ordered r) (hr : Routed d.roster)
    (hs : ∀ p ∈ gids.flatMap (fun gid => sendTargets names (poffGidToPid pidBroadcast gid) msgType d),
      d.sched.SafePut p) :
    Sound (sendBroadcast names msgType gids d) := by
  induction gids generalizing d with
  | nil => exact sound_ok d
  | cons gid gids ih =>
      obtain ⟨hpos, hlt⟩ := hgids gid List.mem_cons_self
      rw [List.flatMap_cons] at hs
      have hfirst := fun p hp => hs p (List.mem_append_left _ hp)
      refine sound_bind (sendIndirect_sound ho hr hfirst (broadcast_in_range hpos hlt)) fun d₁ h₁ => ?_
      obtain ⟨hputs, hr₁⟩ := sendIndirect_keeps ho hr hfirst h₁
      refine ih (fun g hg => hgids g (List.mem_cons_of_mem _ hg)) hputs.ordered hr₁ fun p hp => ?_
      -- whom the rest goes to has not changed, and may still be put to
      simp only [sendTargets_congr (sendIndirect_sends h₁).frame] at hp
      exact hputs.safe p (hs p (List.mem_append_right _ hp))

/-- A process's own pid leads back into its domain, so `MSG_QUEUE_EMPTY` reaches it. -/
theorem sendQueueEmpty_total {p : ProcId} (ho : d.Ordered r) (hr : Routed d.roster)
    (hlive : (d.process p).isSome)
    (hs : ∀ process, d.process p = some process →
      ∀ q ∈ sendTargets env.names process.pid msgQueueEmpty d, d.sched.SafePut q) :
    ∃ d', sendQueueEmpty env p d = .ok d' := by
  obtain ⟨process, hp⟩ := Option.isSome_iff_exists.1 hlive
  obtain ⟨hgid, _, _⟩ := hr.pid_fields (Domain.roster_pid hp)
  have hgid : pidToGid process.pid = d.gid := hgid
  have hpos : 0 < d.gid := hr.gid_pos
  have hres : resolveTarget env.names process.pid = .ok process.pid := by
    rw [resolveTarget, if_neg (by omega)]
  have hfits : PayloadFits 0 := ⟨Int.le_refl 0, Int.natCast_nonneg _⟩
  have htargets := hs process hp
  unfold sendTargets at htargets
  rw [hres] at htargets
  dsimp only at htargets
  rw [if_pos hgid] at htargets
  obtain ⟨k, d₁, hd₁⟩ := dispatch_sent
    (d.newMessage process.pid msgQueueEmpty [] (0 : Int).toNat) ho hr htargets
  have hsend := sendIndirect_resolved msgQueueEmpty [] d hres hfits (Nat.le_refl 0)
  rw [if_pos hgid, hd₁] at hsend
  rw [sendQueueEmpty, bind_ok (access_eq_ok.2 hp)]
  exact ⟨_, bind_ok hsend⟩

/-! ## One act -/

/-- The user's code is running. -/
def Phase.user : Phase → Bool
  | .idle => true
  | .callback _ _ _ => true
  | _ => false

/-- The act goes astray at the user's word: it sends with an index outside its array or with a
payload that ends early, or it calls a receive callback that is NULL. -/
def Domain.Stray (env : Env) (d : Domain) : Act → Prop
  | .baseSend target _ msgPayload msgPayloadSz =>
      d.phase = .idle ∧ ¬ SendInRange env.names target msgPayload msgPayloadSz
  | .api (.send target _ msgPayload msgPayloadSz) =>
      d.phase.user = true ∧ d.current ≠ [] ∧ ¬ SendInRange env.names target msgPayload msgPayloadSz
  | .nextMessage => ∃ p process, d.phase = .processRun p ∧ d.process p = some process ∧
      process.inbox.items ≠ [] ∧ process.receiveCallback = none
  | _ => False

/-- The act neither aborts nor, unless it goes astray, faults. -/
def Ends {α : Type} (x : Except Stop α) (stray : Prop) : Prop :=
  x ≠ .error .abort ∧ (x = .error .fault ↔ stray)

theorem Sound.ends {α : Type} {x : Except Stop α} {stray : Prop} (h : Sound x) (hno : ¬ stray) :
    Ends x stray :=
  ⟨h.2, fun hx => absurd hx h.1, fun hs => absurd hs hno⟩

theorem ends_fault {α : Type} {stray : Prop} (hs : stray) :
    Ends (.error .fault : Except Stop α) stray :=
  ⟨nofun, fun _ => hs, fun _ => rfl⟩

/-- What follows a computation and never fails does not change how it ends. -/
theorem Ends.bind {α β : Type} {x : Except Stop α} {f : α → Except Stop β} {stray : Prop}
    (h : Ends x stray) (hf : ∀ a, Sound (f a)) : Ends (x >>= f) stray := by
  cases x with
  | error stop =>
      exact ⟨fun hx => h.1 (by cases hx; rfl),
        ⟨fun hx => h.2.1 (by cases hx; rfl), fun hs => by cases h.2.2 hs; rfl⟩⟩
  | ok a =>
      have hno : ¬ stray := fun hs => by cases h.2.2 hs
      exact (hf a).ends hno

/-- A send faults exactly outside the arrays. -/
theorem sendIndirect_ends (ho : d.Ordered r) (hr : Routed d.roster)
    (hs : ∀ p ∈ sendTargets names target msgType d, d.sched.SafePut p) :
    Ends (sendIndirect names target msgType msgPayload msgPayloadSz d)
      (¬ SendInRange names target msgPayload msgPayloadSz) := by
  by_cases h : SendInRange names target msgPayload msgPayloadSz
  · exact (sendIndirect_sound ho hr hs h).ends (not_not.2 h)
  · rw [sendIndirect_out_of_range hr.gid_lt h]
    exact ends_fault h

theorem Ends.congr {α : Type} {x : Except Stop α} {stray stray' : Prop} (h : Ends x stray)
    (hiff : stray' ↔ stray) : Ends x stray' :=
  ⟨h.1, h.2.trans hiff.symm⟩

/-- A call by the current process. -/
theorem callApi_ends {call : Api} (h : d.Standing) (hs : safeAct d (env, .api call))
    (hgids : ∀ gid ∈ env.gids, 0 < gid ∧ gid < maxDomains) (hphase : d.phase.user = true) :
    Ends (callApi env call d) (d.Stray env (.api call)) := by
  unfold callApi
  split
  · rename_i hcur
    refine (sound_fatal _).ends fun hstray => ?_
    cases call with
    | send target msgType msgPayload msgPayloadSz => exact hstray.2.1 hcur
    | _ => exact hstray
  · rename_i cur oldproc hcur
    have ho := h.busy.ordered
    have hr := h.routed
    cases call with
    | send target msgType msgPayload msgPayloadSz =>
        refine (sendIndirect_ends ho hr hs).congr ⟨fun hstray => hstray.2.2, fun hout => ?_⟩
        exact ⟨hphase, by rw [hcur]; exact List.cons_ne_nil _ _, hout⟩
    | spawn receiveCallback =>
        refine Sound.ends ?_ not_false
        exact sound_bind (processNew_sound hr receiveCallback false) fun _ _ => sound_ok _
    | spawn2 => exact (spawnConstructor_sound hr).ends not_false
    | constructed =>
        refine Sound.ends ?_ not_false
        dsimp only
        split
        · exact sound_disabled
        · exact sound_ok _
    | receive receiveCallback =>
        have hlive : (d.process cur).isSome := h.current cur (by rw [hcur]; exact List.mem_cons_self)
        have hreceive : ∃ d', msockReceive cur receiveCallback d = .ok d' :=
          msockReceive_total hlive (h.badmatch cur)
        refine Sound.ends ?_ not_false
        exact sound_bind (sound_of_ok hreceive) fun _ _ => sound_ok _
    | loopexit => exact (sendBroadcast_sound hgids ho hr hs).ends not_false
    | memoryCollect =>
        refine Sound.ends ?_ not_false
        exact sound_bind (sendBroadcast_sound hgids ho hr hs) fun _ _ => sound_ok _

/-- A callback's return is acted upon, if it is one of the three there are. -/
theorem recvReturn_total {p : ProcId} {msg : Message} {recv : Recv} (ho : d.Ordered (some p))
    (hr : Routed d.roster) (hlive : (d.process p).isSome) (hrecv : ∀ code, recv ≠ .other code) :
    ∃ d', recvReturn p msg recv d = .ok d' := by
  cases recv with
  | ok => exact ⟨_, rfl⟩
  | badmatch =>
      obtain ⟨process, hp⟩ := Option.isSome_iff_exists.1 hlive
      exact ⟨_, bind_ok (access_eq_ok.2 hp)⟩
  | exit =>
      have ho₁ : (freeMessage msg (d.emit (.consumed p msg))).Ordered (some p) := ho
      have hr₁ : Routed (freeMessage msg (d.emit (.consumed p msg))).roster := hr
      obtain ⟨d₁, hd₁⟩ := processFree_total ho₁ hr₁ hlive
      exact ⟨_, bind_ok hd₁⟩
  | other code => exact absurd rfl (hrecv code)

theorem recvReturn_sound {p : ProcId} {msg : Message} {recv : Recv} (ho : d.Ordered (some p))
    (hr : Routed d.roster) (hlive : (d.process p).isSome) : Sound (recvReturn p msg recv d) := by
  cases recv with
  | other code => exact sound_fatal _
  | _ => exact sound_of_ok (recvReturn_total ho hr hlive fun _ => nofun)

/-- The message at the head of the inbox is presented, unless there is no callback. -/
theorem processRunTurn_ends {p : ProcId} (hlive : (d.process p).isSome)
    (hphase : d.phase = .processRun p) :
    Ends (processRunTurn p d) (d.Stray env .nextMessage) := by
  obtain ⟨process, hp⟩ := Option.isSome_iff_exists.1 hlive
  have hstray : d.Stray env .nextMessage ↔
      process.inbox.items ≠ [] ∧ process.receiveCallback = none := by
    constructor
    · rintro ⟨q, process', hphase', hq, hne, hnull⟩
      rw [hphase] at hphase'
      obtain rfl : p = q := Phase.processRun.inj hphase'
      obtain rfl : process = process' := Option.some.inj (hp.symm.trans hq)
      exact ⟨hne, hnull⟩
    · intro h
      exact ⟨p, process, hphase, hp, h.1, h.2⟩
  rw [processRunTurn, bind_ok (access_eq_ok.2 hp)]
  dsimp only
  split
  · rename_i hget
    have hempty := Queue.get_eq_none.1 hget
    exact (sound_ok _).ends fun hs => (hstray.1 hs).1 hempty
  · rename_i msg inbox hget
    have hne : process.inbox.items ≠ [] := fun he => by
      rw [Queue.get_eq_none.2 he] at hget
      cases hget
    cases hcallback : process.receiveCallback with
    | none => exact ends_fault (hstray.2 ⟨hne, hcallback⟩)
    | some callback =>
        refine (sound_ok _).ends fun hs => ?_
        have hnull := (hstray.1 hs).2
        rw [hcallback] at hnull
        cases hnull

/-- The message at the head of the local inbox is dispatched. -/
theorem dispatchTurn_total {again : Bool} {counter : Nat} (ho : d.Ordered r) (hr : Routed d.roster)
    (hs : safeAct d (env, .dispatch)) : ∃ d', dispatchTurn again counter d = .ok d' := by
  unfold dispatchTurn
  split
  · exact ⟨_, rfl⟩
  · rename_i msg localInbox hget
    have hs₁ : ∀ p ∈ dispatchTargets msg.target msg.msgType { d with localInbox := localInbox },
        ({ d with localInbox := localInbox } : Domain).sched.SafePut p := by
      intro p hp
      refine hs p ?_
      simp only [Act.targets, hget]
      exact hp
    have ho₁ : ({ d with localInbox := localInbox } : Domain).Ordered r := ho
    have hr₁ : Routed ({ d with localInbox := localInbox } : Domain).roster := hr
    obtain ⟨k, d₁, hd₁⟩ := dispatchMsgLocal_total ho₁ hr₁ hs₁
    exact ⟨_, bind_ok hd₁⟩

/-- The walk over the hungry processes goes on. -/
theorem workerNext_total {egress : Nat} (h : d.Standing) (hphase : d.phase = .ran egress)
    (hs : safeAct d (env, .next)) : ∃ d', workerNext env egress d = .ok d' := by
  have hsend : ∀ p, nextHungry egress d = some p → ∃ d', sendQueueEmpty env p d = .ok d' := by
    intro p hnext
    have hmem : p ∈ d.listOfHungryProcesses := by
      unfold nextHungry at hnext
      split at hnext
      · split at hnext
        · exact List.mem_of_head? hnext
        · cases hnext
      · exact (List.dropWhile_sublist _).mem (List.mem_of_getElem? hnext)
    have hlive : (d.roster.pid p).isSome := (h.routed.listed p).1 (h.walking.sub.mem hmem)
    have hlive : (d.process p).isSome := by simpa [Domain.roster] using hlive
    refine sendQueueEmpty_total h.busy.ordered h.routed hlive fun process hp q hq => ?_
    refine hs q ?_
    simp only [Act.targets, hphase, hnext, Option.bind_some, hp]
    exact hq
  unfold workerNext
  split
  · rename_i hcur
    split
    · rename_i p ps hlist
      exact hsend p (by simp [nextHungry, hcur, hlist])
    · exact ⟨_, rfl⟩
  · rename_i p hcur
    split
    · rename_i hdrop
      -- the process under the cursor is still on the list
      exfalso
      have hmem := h.walking.cursor trivial (by rw [hphase]; rfl) p hcur
      have hall := List.dropWhile_eq_nil_iff.1 hdrop p hmem
      simp at hall
    · exact ⟨_, rfl⟩
    · rename_i a q qs hdrop
      exact hsend q (by rw [nextHungry, hcur]; dsimp only; rw [hdrop]; rfl)

/-- **One act.** A domain whose act puts safely does not abort, and faults exactly where the act
goes astray. -/
theorem act_ends {a : Act} (h : d.Standing) (hs : safeAct d (env, a))
    (hgids : ∀ gid ∈ env.gids, 0 < gid ∧ gid < maxDomains) :
    Ends (d.act (env, a)) (d.Stray env a) := by
  have ho := h.busy.ordered
  have hr := h.routed
  show Ends (d.step env a) (d.Stray env a)
  cases a with
  | arrive qr => exact (sound_ok _).ends not_false
  | baseSend target msgType msgPayload msgPayloadSz =>
      simp only [Domain.step]
      split
      · rename_i hphase
        refine Ends.bind ((sendIndirect_ends ho hr hs).congr ?_) fun _ => sound_ok _
        exact ⟨fun hstray => hstray.2, fun hout => ⟨hphase, hout⟩⟩
      · rename_i hphase
        exact sound_disabled.ends fun hstray => hphase hstray.1
  | baseSpawn receiveCallback hungry =>
      refine Sound.ends ?_ not_false
      simp only [Domain.step]
      split
      · exact sound_bind (processNew_sound hr receiveCallback hungry) fun _ _ => sound_ok _
      · exact sound_disabled
  | baseSpawn2 =>
      refine Sound.ends ?_ not_false
      simp only [Domain.step]
      split
      · exact spawnConstructor_sound hr
      · exact sound_disabled
  | api call =>
      simp only [Domain.step]
      split
      · rename_i hphase
        exact callApi_ends h hs hgids (by rw [hphase]; rfl)
      · rename_i hphase
        exact callApi_ends h hs hgids (by rw [hphase]; rfl)
      · rename_i hidle hcallback
        refine sound_disabled.ends fun hstray => ?_
        cases call with
        | send target msgType msgPayload msgPayloadSz =>
            cases hphase : d.phase with
            | idle => exact hidle hphase
            | callback p msg received => exact hcallback p msg received hphase
            | _ =>
                have huser := hstray.1
                rw [hphase] at huser
                cases huser
        | _ => exact hstray
  | nextMessage =>
      simp only [Domain.step]
      split
      · rename_i p hphase
        exact processRunTurn_ends (h.running p (by rw [Domain.running, hphase]; rfl)) hphase
      · rename_i hphase
        refine sound_disabled.ends fun hstray => ?_
        obtain ⟨p, _, hp, _⟩ := hstray
        exact hphase p hp
  | dispatch =>
      refine Sound.ends ?_ not_false
      simp only [Domain.step]
      split
      · exact sound_of_ok (dispatchTurn_total ho hr hs)
      · exact sound_disabled
  | nextProcess =>
      refine Sound.ends ?_ not_false
      simp only [Domain.step]
      split
      · rename_i hphase
        have ho₁ : d.Ordered none := by
          have hnone : d.running = none := by rw [Domain.running, hphase]; rfl
          rw [← hnone]
          exact ho
        exact sound_of_ok (queueRunTurn_total ho₁)
      · exact sound_disabled
  | ret recv =>
      refine Sound.ends ?_ not_false
      simp only [Domain.step]
      split
      · rename_i p msg received hphase
        have hrunning : d.running = some p := by rw [Domain.running, hphase]; rfl
        split
        · exact recvReturn_sound (hrunning ▸ ho) hr (h.running p hrunning)
        · exact sound_disabled
      · exact sound_disabled
  | next =>
      refine Sound.ends ?_ not_false
      simp only [Domain.step]
      split
      · rename_i egress hphase
        exact sound_of_ok (workerNext_total h hphase hs)
      · exact sound_disabled
  | requeue =>
      refine Sound.ends ?_ not_false
      simp only [Domain.step]
      split_ifs
      · exact sound_ok _
      · exact sound_ok _
      · exact sound_disabled
  | _ =>
      refine Sound.ends ?_ not_false
      simp only [Domain.step]
      split
      · exact sound_ok _
      · exact sound_disabled

/-! ## The base -/

/-- Nothing a domain does on its own queues a process twice or frees the one under the cursor. -/
def careful (b : Base) (a : BaseAct) : Prop :=
  slots b a ∧ ∀ gid act, a = .run gid act → ∀ d ∈ b.gidToDomain gid,
    safeAct d (b.env, act) ∧ keepsCursor d (b.env, act)

instance (b : Base) (a : BaseAct) : Decidable (careful b a) :=
  match a with
  | .run gid act =>
      decidable_of_iff (∀ d ∈ b.gidToDomain gid, safeAct d (b.env, act) ∧ keepsCursor d (b.env, act))
        ⟨fun h => ⟨trivial, fun gid' act' heq => by cases heq; exact h⟩, fun h => h.2 gid act rfl⟩
  | .domainNew n =>
      decidable_of_iff (slots b (.domainNew n)) ⟨fun h => ⟨h, fun _ _ heq => by cases heq⟩, And.left⟩
  | .register _ _ | .flush _ | .wake _ => isTrue ⟨trivial, fun _ _ heq => by cases heq⟩

/-- What the code relies on, all over the base. -/
structure Base.Standing (b : Base) : Prop where
  domains : ∀ gid d, b.gidToDomain gid = some d → d.Standing
  gids : ∀ gid ∈ b.listOfDomains, 0 < gid ∧ gid < maxDomains

theorem Base.Standing.set (h : b.Standing) (hd' : d'.Standing) : (b.setDomain gid d d').Standing where
  domains := fun g e he => by
    by_cases hg : g = gid
    · subst hg
      simp only [Base.setDomain, Function.update_self, Option.some.injEq] at he
      exact he ▸ hd'
    · simp only [Base.setDomain, Function.update_of_ne hg] at he
      exact h.domains g e he
  gids := h.gids

/-- The acts that pass messages between domains put nothing to a process, and free none. -/
theorem standing_passing {a : Act} (h : d.Standing) (hact : d.act (env, a) = .ok d')
    (hnone : a.targets env d = []) (hne : a ≠ .ret .exit) : d'.Standing :=
  standing_step h (fun p hp => by rw [show a.targets env d = [] from hnone] at hp; cases hp)
    (fun hexit => absurd hexit hne) hact

theorem standing_base_step {a : BaseAct} (h : b.Standing) (hok : careful b a)
    (hstep : b.step a = .ok b') : b'.Standing := by
  cases baseStep_cases hstep with
  | domainNew gid maxProcesses hpos hlt _ =>
      refine ⟨fun g e he => ?_, fun g hg => ?_⟩
      · by_cases hgg : g = gid
        · subst hgg
          simp only [Function.update_self, Option.some.injEq] at he
          exact he ▸ standing_new hpos hlt hok.1.1 hok.1.2
        · simp only [Function.update_of_ne hgg] at he
          exact h.domains g e he
      · rcases List.mem_append.1 hg with hg | hg
        · exact h.gids g hg
        · rw [List.mem_singleton.1 hg]
          exact ⟨hpos, hlt⟩
  | register pid name names => exact ⟨h.domains, h.gids⟩
  | run gid a d d' _ hd hact =>
      obtain ⟨hs, hk⟩ := hok.2 gid a rfl d hd
      exact h.set (standing_step (h.domains gid d hd) hs hk hact)
  | flushNone gid d d' hd _ hact =>
      exact h.set (standing_passing (h.domains gid d hd) hact rfl nofun)
  | flushOne gid v d d' victim victim' hd hv hact harrive =>
      obtain ⟨_, _, hvictim, _⟩ := victim_eq_some hv
      exact (h.set (standing_passing (h.domains gid d hd) hact rfl nofun)).set
        (standing_passing (h.domains v victim hvictim) harrive rfl nofun)
  | wake gid d d' dequeued hd hact =>
      exact h.set (standing_passing (h.domains gid d hd) hact rfl nofun)

theorem standing_base_new : Base.new.Standing where
  domains := fun _ _ hd => by cases hd
  gids := fun _ hg => by cases hg

theorem standing_reachable (hr : Runs Base.step careful Base.new b) : b.Standing :=
  hr.invariant (fun _ _ _ h hok hstep => standing_base_step h hok hstep)
    standing_base_new

/-- The act goes astray at the user's word, in the domain that does it. -/
def Base.Stray (b : Base) : BaseAct → Prop
  | .run gid a => a.allowed gid = true ∧ ∃ d, b.gidToDomain gid = some d ∧ d.Stray b.env a
  | _ => False

theorem base_domain_sound (b : Base) (gid : Nat) : Sound (b.domain gid) := by
  unfold Base.domain
  split
  · exact sound_ok _
  · exact sound_disabled

/--
**Memory safety, but for the user's word.**

In every base reached by runs that queue no process twice and free no process under the cursor
of `worker_domain_run`, and for every act that is not the first to do so: no assertion fails, and
a bad pointer is used exactly if a send is called with a name or a gid outside its array or with
a payload that has fewer bytes to read than its size says, or a message is to be presented to a
process whose `receive_callback` is NULL.
-/
theorem no_bad_pointer_iff (hr : Runs Base.step careful Base.new b) {a : BaseAct}
    (hok : careful b a) : b.step a ≠ .error .abort ∧ (b.step a = .error .fault ↔ b.Stray a) := by
  have hb := standing_reachable hr
  show Ends (b.step a) (b.Stray a)
  cases a with
  | domainNew maxProcesses =>
      refine Sound.ends (sound_bind ?_ fun _ _ => sound_ok _) not_false
      unfold findFreeGid
      split
      · exact sound_ok _
      · exact sound_fatal _
  | register pid name =>
      refine Sound.ends ?_ not_false
      simp only [Base.step, msockRegister]
      split_ifs
      · exact sound_fatal _
      · exact sound_fatal _
      · exact sound_fatal _
      · exact sound_ok _
  | run gid a =>
      simp only [Base.step]
      split
      · rename_i hallowed
        cases hd : b.gidToDomain gid with
        | none =>
            have hnone : b.domain gid = .error .disabled := by rw [Base.domain, hd]
            rw [hnone]
            refine sound_disabled.ends fun hstray => ?_
            obtain ⟨_, d, hsome, _⟩ := hstray
            rw [hd] at hsome
            cases hsome
        | some d =>
            rw [bind_ok (domain_eq_ok.2 hd)]
            have hact := act_ends (hb.domains gid d hd) (hok.2 gid a rfl d hd).1 hb.gids
            refine (hact.bind fun _ => sound_ok _).congr ⟨fun hstray => ?_, fun hstray => ?_⟩
            · obtain ⟨_, d₁, hd₁, hstray⟩ := hstray
              obtain rfl : d = d₁ := Option.some.inj (hd.symm.trans hd₁)
              exact hstray
            · exact ⟨hallowed, d, hd, hstray⟩
      · rename_i hnot
        exact sound_disabled.ends fun hstray => hnot hstray.1
  | flush gid =>
      refine Sound.ends (sound_bind (base_domain_sound b gid) fun d hd => ?_) not_false
      have hd := hb.domains gid d (domain_eq_ok.1 hd)
      have htake : ∀ victim, Sound (d.step b.env (.flushTake victim)) := by
        intro victim
        have hends : Ends (d.act (b.env, .flushTake victim)) False :=
          act_ends hd (fun _ hp => by cases hp) hb.gids
        exact ⟨hends.2.1, hends.1⟩
      split
      · exact sound_bind (htake false) fun _ _ => sound_ok _
      · refine sound_bind (htake true) fun _ _ => sound_bind (sound_ok _) fun _ _ => sound_ok _
  | wake gid =>
      refine Sound.ends (sound_bind (base_domain_sound b gid) fun d hd => ?_) not_false
      have hd := hb.domains gid d (domain_eq_ok.1 hd)
      split
      · refine sound_bind (base_domain_sound b _) fun victim _ => ?_
        have hends : Ends (d.act (b.env, .flushWake victim.dequeued)) False :=
          act_ends hd (fun _ hp => by cases hp) hb.gids
        exact sound_bind ⟨hends.2.1, hends.1⟩ fun _ _ => sound_ok _
      · exact sound_disabled

/-- A process with a NULL callback has a message: it was spawned with a constructor that never
called `msock_receive`. The next act calls NULL. -/
theorem no_bad_pointer_iff_null_callback : ∃ b : Base,
    b.step (.run 1 .nextMessage) ≠ .error .abort ∧
      (b.step (.run 1 .nextMessage) = .error .fault ↔ b.Stray (.run 1 .nextMessage)) ∧
      b.step (.run 1 .nextMessage) = .error .fault := by
  obtain ⟨b, hr, h⟩ := exists_run (show (runActs Base.step careful
      [.domainNew 1, .run 1 .baseSpawn2, .run 1 (.api .constructed),
        .run 1 (.baseSend (poffGidToPid 2 1) 3 [] 0), .flush 1, .flush 1, .flush 1, .flush 1, .flush 1,
        .flush 1, .run 1 .pick, .run 1 .mark, .run 1 .splice, .run 1 .dispatch, .run 1 .nextProcess]
      Base.new).any (fun b => decide (careful b (.run 1 .nextMessage)) &&
        (match b.step (.run 1 .nextMessage) with
          | .error .fault => true
          | _ => false)) = true by decide +kernel)
  rw [Bool.and_eq_true, decide_eq_true_eq] at h
  obtain ⟨hok, hfault⟩ := h
  have hiff := no_bad_pointer_iff hr hok
  refine ⟨b, hiff.1, hiff.2, ?_⟩
  split at hfault
  · assumption
  · cases hfault

end Msock
