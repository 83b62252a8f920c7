import Msock.Base.Accounts

/-!
# Stopping the engines

`msock_base_free` stops the engines one after the other: `domain_free` returns what is left
in the two inboxes of a domain and drains its caches. A domain that was retired has nothing
else: its last `domain_run` flushed every outbox, and it has no process. So after the last
engine the accounts of the base are closed.
-/

namespace Msock

open Lib

variable {b b' : Base} {gid : Nat} {d d' : Domain} {env : Env}

/-- `domain_free`. The events go into the log in the order in which the caches are used. -/
def domainFree (gid : Nat) (b : Base) : Except Stop Base := do
  let d ← b.domain gid
  let d' := drainMessageQueue d.localInbox (drainMessageQueue d.remoteInbox d)
  let b := b.setDomain gid d (d'.emit .drain)
  return { b with
    gidToDomain := Function.update b.gidToDomain gid none
    listOfDomains := b.listOfDomains.erase gid }

/-- The loop of `engines_stop`. -/
def enginesStop : List Nat → Base → Except Stop Base
  | [], b => .ok b
  | gid :: safe, b => do
      let b ← domainFree gid b
      enginesStop safe b

/-- `msock_base_free`, up to the two calls of `zone_free`. -/
def msockBaseFree (b : Base) : Except Stop Base := enginesStop b.listOfDomains b

/-! ## What the last run of a domain leaves -/

/-- The outboxes are empty once `domain_run` has flushed them, and a domain is retired when it
has no process. -/
def Domain.Flushed (d : Domain) : Prop :=
  match d.phase with
  | .flush gid _ spliced .domainRun =>
      ∀ g < maxDomains, g < gid ∨ (spliced = true ∧ g = gid) → (d.outbox g).items = []
  | .ran _ => ∀ g < maxDomains, (d.outbox g).items = []
  | .finished => ∀ g < maxDomains, (d.outbox g).items = []
  | .retired => (∀ g < maxDomains, (d.outbox g).items = []) ∧ d.listOfProcesses = []
  | _ => True

/-- The user's code is running, or nobody's. -/
theorem flushed_of_phase
    (h : d.phase = .idle ∨ ∃ p msg received, d.phase = .callback p msg received) : d.Flushed := by
  unfold Domain.Flushed
  rcases h with h | ⟨p, msg, received, h⟩ <;> rw [h] <;> trivial

theorem called_flushed {call : Api} (h : Called env d call d')
    (hphase : d.phase = .idle ∨ ∃ p msg received, d.phase = .callback p msg received) :
    d'.Flushed := by
  have hsame : d'.phase = d.phase → d'.Flushed := fun heq =>
    flushed_of_phase (by rw [heq]; exact hphase)
  cases h with
  | send target msgType msgPayload msgPayloadSz _ h => exact hsame (sendIndirect_fills h).2
  | spawn receiveCallback q _ h => exact hsame (processNew_outbox h).2
  | spawn2 _ h => exact hsame (spawnConstructor_outbox h).2
  | constructed cur oldproc _ _ => exact hsame rfl
  | receive receiveCallback cur oldproc d₁ hcur h =>
      obtain ⟨_, _, _, _, _, rfl⟩ := msockReceive_cases h
      refine flushed_of_phase ?_
      rcases hphase with hphase | ⟨p, msg, received, hphase⟩
      · exact Or.inl (by show d.phase.noteReceive cur = _; rw [hphase]; rfl)
      · exact Or.inr ⟨p, msg, _, by show d.phase.noteReceive cur = _; rw [hphase]; rfl⟩
  | loopexit _ h => exact hsame (sendBroadcast_fills h).2
  | memoryCollect d₁ _ h =>
      have hback : d₁.phase.flushFrom ≠ .domainRun := by
        rw [(sendBroadcast_fills h).2]
        rcases hphase with hphase | ⟨p, msg, received, hphase⟩ <;> rw [hphase] <;>
          exact FlushFrom.noConfusion
      show Domain.Flushed { d₁ with phase := .flush 0 0 false d₁.phase.flushFrom }
      cases hflush : d₁.phase.flushFrom with
      | domainRun => exact absurd hflush hback
      | callback p msg received => trivial
      | outside => trivial

/-- A turn of `send_flush_outbox` empties one outbox. -/
theorem flushTake_flushed {gid counter : Nat} {back : FlushFrom} (victim : Bool)
    (hphase : d.phase = .flush gid counter false back) (h : d.Flushed) :
    (flushTake gid counter back victim d).Flushed := by
  cases back with
  | callback p msg received =>
      unfold flushTake
      split_ifs <;> trivial
  | outside =>
      unfold flushTake
      split_ifs <;> trivial
  | domainRun =>
      have hbelow : ∀ g < maxDomains, g < gid → (d.outbox g).items = [] := by
        intro g hg hlt
        unfold Domain.Flushed at h
        rw [hphase] at h
        exact h g hg (Or.inl hlt)
      have hset : ∀ g < maxDomains, g < gid + 1 →
          (Function.update d.outbox gid Queue.init g).items = [] := by
        intro g hg hlt
        by_cases hgg : g = gid
        · rw [hgg, Function.update_self]
          rfl
        · rw [Function.update_of_ne hgg]
          exact hbelow g hg (by omega)
      unfold flushTake
      split
      · rename_i hge
        exact fun g hg => hbelow g hg (Nat.lt_of_lt_of_le hg hge)
      · split
        · rename_i hempty
          intro g hg hlt
          rcases hlt with hlt | ⟨hfalse, _⟩
          · rcases Nat.lt_succ_iff_lt_or_eq.1 hlt with hlt | rfl
            · exact hbelow g hg hlt
            · exact hempty
          · cases hfalse
        · split
          · intro g hg hlt
            exact hset g hg (by omega)
          · rw [drainMessageQueue_eq]
            intro g hg hlt
            rcases hlt with hlt | ⟨hfalse, _⟩
            · exact hset g hg hlt
            · cases hfalse

/-- **Every act of a domain leaves flushed outboxes empty.** -/
theorem act_flushed {a : Act} (h : d.act (env, a) = .ok d') (hd : d.Flushed) : d'.Flushed := by
  cases step_cases h with
  | arrive qr => exact hd
  | baseSpawn receiveCallback hungry p hphase hnew =>
      exact flushed_of_phase (Or.inl ((processNew_outbox hnew).2.trans hphase))
  | baseSpawn2 hphase hnew =>
      exact flushed_of_phase (Or.inl ((spawnConstructor_outbox hnew).2.trans hphase))
  | api call hphase hcall => exact called_flushed hcall hphase
  | baseSend | pick | mark | splice | dispatchOne | queueNone | queueOne | inboxNone | inboxOne
  | retOk | retBadmatch | retExit | requeue => trivial
  | dispatchNone again counter hphase _ =>
      show Domain.Flushed { d with phase := if again = true ∧ counter = 0 then _ else _ }
      split
      · intro g _ hlt
        rcases hlt with hlt | ⟨hfalse, _⟩
        · exact absurd hlt (Nat.not_lt_zero g)
        · cases hfalse
      · trivial
  | flushTake victim gid counter back hphase => exact flushTake_flushed victim hphase hd
  | flushWake dequeued gid counter back hphase =>
      have houtbox : (if dequeued = true then d.emit (.woke gid) else d).outbox = d.outbox := by
        cases dequeued <;> rfl
      cases back with
      | callback p msg received => trivial
      | outside => trivial
      | domainRun =>
          unfold Domain.Flushed at hd
          rw [hphase] at hd
          intro g hg hlt
          show ((if dequeued = true then d.emit (.woke gid) else d).outbox g).items = []
          rw [houtbox]
          rcases hlt with hlt | ⟨hfalse, _⟩
          · refine hd g hg ?_
            rcases Nat.lt_succ_iff_lt_or_eq.1 hlt with hlt | heq
            · exact Or.inl hlt
            · exact Or.inr ⟨rfl, heq⟩
          · cases hfalse
  | nextNested egress p hphase hnext hsend =>
      obtain ⟨process, d₁, hp, _, rfl⟩ := sendQueueEmpty_cases hsend
      trivial
  | nextDone egress cursor hphase =>
      unfold Domain.Flushed at hd
      rw [hphase] at hd
      exact hd
  | retire hphase hlist =>
      unfold Domain.Flushed at hd
      rw [hphase] at hd
      exact ⟨hd, hlist⟩

theorem flushed_reachable (hr : Runs Base.step Base.putsWhole Base.new b)
    (hd : b.gidToDomain gid = some d) : d.Flushed := by
  refine hr.invariant (I := fun b => ∀ gid d, b.gidToDomain gid = some d → d.Flushed)
    (fun a t t' ht _ hstep => ?_) (fun _ _ h => by cases h) gid d hd
  exact local_step (I := fun _ d => d.Flushed) (P := fun _ => True) (fun _ _ _ _ _ => trivial)
    (fun _ _ _ _ hi hact => act_flushed hact hi) (fun _ _ => trivial) hstep ht

/-- What a retired domain still has is in its inboxes. -/
theorem retired_messages (hs : d.Sturdy) (hf : d.Flushed) (hretired : d.phase = .retired) :
    d.messages = d.remoteInbox.ids + d.localInbox.ids ∧ d.listOfProcesses = [] := by
  unfold Domain.Flushed at hf
  rw [hretired] at hf
  obtain ⟨houtbox, hlist⟩ := hf
  refine ⟨?_, hlist⟩
  have hmailed : ∀ p ∈ Finset.range d.nextProc, d.mailed p = 0 := by
    intro p _
    cases hp : d.process p with
    | none => exact mailed_of_none hp
    | some process =>
        have hmem := (hs.process p process hp).2.2
        rw [hlist] at hmem
        cases hmem
  have hboxes : ∀ g ∈ Finset.range maxDomains, (d.outbox g).ids = 0 :=
    fun g hg => Queue.ids_eq_zero (houtbox g (Finset.mem_range.1 hg))
  rw [Domain.messages, Domain.stored, Finset.sum_eq_zero hmailed, Finset.sum_eq_zero hboxes,
    hretired]
  show 0 + _ + 0 + 0 = _
  rw [zero_add, add_zero, add_zero]

/-! ## `domain_free` -/

/-- Nothing is left of a domain whose accounts are its two inboxes. -/
theorem Base.Settled.domainFree (h : b.Settled 0) (hd : b.gidToDomain gid = some d)
    (hmessages : d.messages = d.remoteInbox.ids + d.localInbox.ids)
    (hlist : d.listOfProcesses = []) :
    ∃ b', Msock.domainFree gid b = .ok b' ∧ b'.Settled 0 ∧
      b'.gidToDomain = Function.update b.gidToDomain gid none ∧
      b'.listOfDomains = b.listOfDomains.erase gid := by
  obtain ⟨d', hd'⟩ : ∃ d', d' =
      (drainMessageQueue d.localInbox (drainMessageQueue d.remoteInbox d)).emit .drain := ⟨_, rfl⟩
  obtain ⟨frees, hfrees⟩ : ∃ frees, frees = d.remoteInbox.items.map (fun msg => Event.free msg.id)
      ++ d.localInbox.items.map (fun msg => Event.free msg.id) := ⟨_, rfl⟩
  have htrace : d'.trace = d.trace ++ (frees ++ [.drain]) := by
    rw [hd', hfrees, drainMessageQueue_eq, drainMessageQueue_eq]
    simp [Domain.emit]
  have hlog : (b.setDomain gid d d').log
      = b.log ++ (frees ++ [Event.drain]).map (Prod.mk gid) :=
    log_setDomain htrace
  obtain ⟨_, hlt, _⟩ := h.domains gid d hd
  refine ⟨_, show Msock.domainFree gid b = .ok { b.setDomain gid d d' with
      gidToDomain := Function.update (b.setDomain gid d d').gidToDomain gid none
      listOfDomains := b.listOfDomains.erase gid } from ?_, ⟨?_, ?_, ?_, ?_, ?_, ?_⟩, ?_, rfl⟩
  · rw [Msock.domainFree, domain_eq_ok.2 hd, hd']
    rfl
  all_goals simp only [Base.setDomain, Function.update_idem] at hlog ⊢
  · intro g dg hg
    by_cases hgg : g = gid
    · subst hgg
      rw [Function.update_self] at hg
      cases hg
    · rw [Function.update_of_ne hgg] at hg
      exact h.domains g dg hg
  · intro g
    rw [h.nodup.mem_erase_iff, h.listed]
    by_cases hgg : g = gid
    · subst hgg
      simp
    · simp [hgg]
  · exact h.nodup.erase gid
  · rw [hlog, messageDeals_append, List.map_append, messageDeals_of]
    refine h.messages.trans ?_
    have hold : b.messages = d.messages + ∑ g ∈ (Finset.range maxDomains).erase gid,
        (b.gidToDomain g).elim 0 Domain.messages := by
      have := sum_domains_of (fun _ o => Option.elim o 0 Domain.messages) b.gidToDomain hlt
      rwa [hd] at this
    have hnew : ∑ g ∈ Finset.range maxDomains,
        (Function.update b.gidToDomain gid none g).elim 0 Domain.messages
        = 0 + ∑ g ∈ (Finset.range maxDomains).erase gid, (b.gidToDomain g).elim 0 Domain.messages :=
      sum_domains_set (fun _ o => Option.elim o 0 Domain.messages) b.gidToDomain none hlt
    -- the messages left in the inboxes are the last of the domain, and both are drained
    show Settles _ (b.messages + 0) (∑ g ∈ Finset.range maxDomains,
      (Function.update b.gidToDomain gid none g).elim 0 Domain.messages + 0)
    rw [hold, hnew, hmessages, hfrees, List.append_assoc, List.filterMap_append,
      (filterMap_free _).1, List.filterMap_append, (filterMap_free _).1, add_zero, add_zero,
      add_assoc, zero_add]
    exact (Settles.gives _ _).trans ((Settles.gives _ _).trans (Settles.refl _))
  · rw [hlog, processDeals_append, List.map_append, processDeals_of]
    refine h.processes.trans ?_
    have hold : b.processes = d.processes gid + ∑ g ∈ (Finset.range maxDomains).erase gid,
        (b.gidToDomain g).elim 0 (Domain.processes g) := by
      have := sum_domains_of (fun g o => Option.elim o 0 (Domain.processes g)) b.gidToDomain hlt
      rwa [hd] at this
    have hnew : ∑ g ∈ Finset.range maxDomains,
        (Function.update b.gidToDomain gid none g).elim 0 (Domain.processes g)
        = 0 + ∑ g ∈ (Finset.range maxDomains).erase gid,
          (b.gidToDomain g).elim 0 (Domain.processes g) :=
      sum_domains_set (fun g o => Option.elim o 0 (Domain.processes g)) b.gidToDomain none hlt
    have hnone : d.processes gid = 0 := by
      rw [Domain.processes, hlist]
      rfl
    show Settles _ b.processes (∑ g ∈ Finset.range maxDomains,
      (Function.update b.gidToDomain gid none g).elim 0 (Domain.processes g))
    rw [hold, hnew, hnone, hfrees, List.append_assoc, List.filterMap_append, (filterMap_free _).2,
      List.filterMap_append, (filterMap_free _).2]
    rfl
  · intro c hc
    rw [hlog]
    by_cases hcg : c = gid
    · subst hcg
      refine Or.inr ⟨b.log ++ frees.map (Prod.mk c), [], ?_, List.forall_mem_nil _⟩
      rw [List.map_append, List.append_assoc]
      rfl
    · refine (h.tidied c fun hm => hc ?_).append hcg _
      exact (List.mem_erase_of_ne hcg).2 hm

/-- The engines are stopped. -/
theorem Base.Settled.enginesStop {gids : List Nat} (h : b.Settled 0) (hlist : b.listOfDomains = gids)
    (hdomains : ∀ gid d, b.gidToDomain gid = some d →
      d.messages = d.remoteInbox.ids + d.localInbox.ids ∧ d.listOfProcesses = []) :
    ∃ b', Msock.enginesStop gids b = .ok b' ∧ b'.Settled 0 ∧ b'.listOfDomains = [] := by
  induction gids generalizing b with
  | nil => exact ⟨b, rfl, h, hlist⟩
  | cons gid gids ih =>
      obtain ⟨d, hd⟩ := Option.isSome_iff_exists.1
        ((h.listed gid).1 (by rw [hlist]; exact List.mem_cons_self))
      obtain ⟨hmessages, hnone⟩ := hdomains gid d hd
      obtain ⟨b₁, hfree, h₁, hgids, hlist₁⟩ := h.domainFree hd hmessages hnone
      rw [hlist, List.erase_cons_head] at hlist₁
      obtain ⟨b', hstop, hrest⟩ := ih h₁ hlist₁ fun g dg hg => by
        rw [hgids] at hg
        by_cases hgg : g = gid
        · rw [hgg, Function.update_self] at hg
          cases hg
        · rw [Function.update_of_ne hgg] at hg
          exact hdomains g dg hg
      refine ⟨b', ?_, hrest⟩
      rw [Msock.enginesStop, hfree]
      exact hstop

/--
After a run that puts messages into whole inboxes only and retires every domain,
`msock_base_free` stops the engines; by then every message and process was given back as
often as it was taken, and every cache was drained after its last use.
-/
theorem msockBaseFree_settles (hr : Runs Base.step Base.putsWhole Base.new b)
    (hretired : ∀ gid d, b.gidToDomain gid = some d → d.phase = .retired) :
    ∃ b', msockBaseFree b = .ok b' ∧
      Settles ((messageDeals b'.log).map Prod.snd) 0 0 ∧
      Settles ((processDeals b'.log).map Prod.snd) 0 0 ∧ ∀ c, Tidied c b'.log := by
  have h := settled_reachable hr
  obtain ⟨b', hstop, h', hlist⟩ := h.enginesStop rfl fun gid d hd =>
    retired_messages (h.domains gid d hd).2.2 (flushed_reachable hr hd) (hretired gid d hd)
  have hgone : ∀ gid, b'.gidToDomain gid = none := by
    intro gid
    have hnot := (h'.listed gid).not.1 (by rw [hlist]; exact List.not_mem_nil)
    exact Option.not_isSome_iff_eq_none.1 hnot
  have hmessages : b'.messages = 0 := Finset.sum_eq_zero fun gid _ => by rw [hgone]; rfl
  have hprocesses : b'.processes = 0 := Finset.sum_eq_zero fun gid _ => by rw [hgone]; rfl
  refine ⟨b', hstop, ?_, ?_, fun c => h'.tidied c (by rw [hlist]; exact List.not_mem_nil)⟩
  · have := h'.messages
    rwa [hmessages] at this
  · have := h'.processes
    rwa [hprocesses] at this

end Msock
