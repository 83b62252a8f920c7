import Msock.Base.Routing
import Msock.Domain.Accounts

/-!
# What the domains have from the allocator

The accounts of all domains together. What one domain splices onto the inbox of another
leaves the first and comes to the second in the same step, so the events of all domains, in
the order they happened, settle for the messages and processes of all domains. They do so in
every run in which messages are put into whole inboxes only.
-/

namespace Msock

open Lib

variable {b b' : Base} {gid : Nat} {d d' : Domain}

/-! ## The log as a history -/

/-- What the log means for the zone of messages: whose cache, and what for. -/
def messageDeals (log : List (Nat × Event)) : List (Nat × Deal MsgId) :=
  log.filterMap (fun e => e.2.messageDeal.map (Prod.mk e.1))

/-- What the log means for the zone of processes. A process is known by its domain and its
number there. -/
def processDeals (log : List (Nat × Event)) : List (Nat × Deal (Nat × ProcId)) :=
  log.filterMap (fun e => e.2.processDeal.map (fun deal => (e.1, deal.map (Prod.mk e.1))))

theorem messageDeals_append (log log' : List (Nat × Event)) :
    messageDeals (log ++ log') = messageDeals log ++ messageDeals log' :=
  List.filterMap_append

theorem processDeals_append (log log' : List (Nat × Event)) :
    processDeals (log ++ log') = processDeals log ++ processDeals log' :=
  List.filterMap_append

/-- The events of one domain, without its gid. -/
theorem messageDeals_of (gid : Nat) (es : List Event) :
    (messageDeals (es.map (Prod.mk gid))).map Prod.snd = es.filterMap Event.messageDeal := by
  induction es with
  | nil => rfl
  | cons e es ih =>
      unfold messageDeals at ih ⊢
      rw [List.map_cons, List.filterMap_cons, List.filterMap_cons]
      cases he : e.messageDeal with
      | none => simpa [he] using ih
      | some deal => simpa [he] using ih

theorem processDeals_of (gid : Nat) (es : List Event) :
    (processDeals (es.map (Prod.mk gid))).map Prod.snd
      = (es.filterMap Event.processDeal).map (Deal.map (Prod.mk gid)) := by
  induction es with
  | nil => rfl
  | cons e es ih =>
      unfold processDeals at ih ⊢
      rw [List.map_cons, List.filterMap_cons, List.filterMap_cons]
      cases he : e.processDeal with
      | none => simpa [he] using ih
      | some deal => simpa [he] using ih

/-! ## The accounts of a base -/

/-- The messages of all domains. -/
def Base.messages (b : Base) : Multiset MsgId :=
  ∑ gid ∈ Finset.range maxDomains, (b.gidToDomain gid).elim 0 Domain.messages

/-- The processes of a domain, under the names they have in the base. -/
def Domain.processes (gid : Nat) (d : Domain) : Multiset (Nat × ProcId) :=
  (d.listOfProcesses : Multiset ProcId).map (Prod.mk gid)

/-- The processes of all domains. -/
def Base.processes (b : Base) : Multiset (Nat × ProcId) :=
  ∑ gid ∈ Finset.range maxDomains, (b.gidToDomain gid).elim 0 (Domain.processes gid)

/-- The last entry of `c`, if there is one, is that its caches were drained. -/
def Tidied (c : Nat) (log : List (Nat × Event)) : Prop :=
  (∀ e ∈ log, e.1 ≠ c) ∨ ∃ es es', log = es ++ (c, .drain) :: es' ∧ ∀ e ∈ es', e.1 ≠ c

/-- The log settles, `x` being on its way from one domain to another. -/
structure Base.Settled (x : Multiset MsgId) (b : Base) : Prop where
  domains : ∀ gid d, b.gidToDomain gid = some d → d.gid = gid ∧ gid < maxDomains ∧ d.Sturdy
  listed : ∀ gid, gid ∈ b.listOfDomains ↔ (b.gidToDomain gid).isSome
  nodup : b.listOfDomains.Nodup
  messages : Settles ((messageDeals b.log).map Prod.snd) 0 (b.messages + x)
  processes : Settles ((processDeals b.log).map Prod.snd) 0 b.processes
  tidied : ∀ c, c ∉ b.listOfDomains → Tidied c b.log

/-- Every message an act puts into an inbox, it puts into one that is whole. -/
def Base.putsWhole (b : Base) : BaseAct → Prop
  | .run gid a => ∀ d ∈ b.gidToDomain gid, ∀ p ∈ a.targets b.env d, d.WholePut p
  | _ => True

instance (b : Base) (a : BaseAct) : Decidable (b.putsWhole a) := by
  cases a <;> unfold Base.putsWhole <;> infer_instance

/-! ## Steps -/

/-- A sum over the gids, one of which gets another domain. -/
theorem sum_domains_set {M : Type} [AddCommMonoid M] (f : Nat → Option Domain → M)
    (gidToDomain : Nat → Option Domain) (o : Option Domain) (hgid : gid < maxDomains) :
    ∑ g ∈ Finset.range maxDomains, f g (Function.update gidToDomain gid o g)
      = f gid o + ∑ g ∈ (Finset.range maxDomains).erase gid, f g (gidToDomain g) := by
  rw [← Finset.add_sum_erase _ _ (Finset.mem_range.2 hgid), Function.update_self]
  congr 1
  refine Finset.sum_congr rfl fun g hg => ?_
  rw [Function.update_of_ne (Finset.ne_of_mem_erase hg)]

/-- A sum over the gids, one of them apart. -/
theorem sum_domains_of {M : Type} [AddCommMonoid M] (f : Nat → Option Domain → M)
    (gidToDomain : Nat → Option Domain) (hgid : gid < maxDomains) :
    ∑ g ∈ Finset.range maxDomains, f g (gidToDomain g)
      = f gid (gidToDomain gid)
        + ∑ g ∈ (Finset.range maxDomains).erase gid, f g (gidToDomain g) := by
  rw [← Finset.add_sum_erase _ _ (Finset.mem_range.2 hgid)]

/-- Entries of one domain are not entries of another. -/
theorem Tidied.append {c : Nat} {log : List (Nat × Event)} (h : Tidied c log) (hc : c ≠ gid)
    (es : List Event) : Tidied c (log ++ es.map (Prod.mk gid)) := by
  have hes : ∀ e ∈ es.map (Prod.mk gid), e.1 ≠ c := by
    intro e he
    obtain ⟨_, _, rfl⟩ := List.mem_map.1 he
    exact hc.symm
  rcases h with h | ⟨l, l', rfl, hl'⟩
  · exact Or.inl fun e he => (List.mem_append.1 he).elim (h e) (hes e)
  · refine Or.inr ⟨l, l' ++ es.map (Prod.mk gid), by simp, fun e he => ?_⟩
    exact (List.mem_append.1 he).elim (hl' e) (hes e)

section Settling
variable {x y : Multiset MsgId}

/-- A domain pays, and the base with it. -/
theorem Base.Settled.pay (h : b.Settled x) (hd : b.gidToDomain gid = some d)
    (hgid : d'.gid = d.gid) (hpays : Pays d (d.phase.inHand + x) d' (d'.phase.inHand + y)) :
    (b.setDomain gid d d').Settled y := by
  obtain ⟨hown, hlt, hsturdy⟩ := h.domains gid d hd
  obtain ⟨hsturdy', es, htrace, hmessages, hprocesses⟩ := hpays hsturdy
  have hlog : (b.setDomain gid d d').log = b.log ++ es.map (Prod.mk gid) := log_setDomain htrace
  have hlisted : gid ∈ b.listOfDomains := (h.listed gid).2 (by rw [hd]; rfl)
  refine ⟨fun g dg hg => ?_, fun g => ?_, h.nodup, ?_, ?_, fun c hc => ?_⟩
  · by_cases hgg : g = gid
    · subst hgg
      simp only [Base.setDomain, Function.update_self, Option.some.injEq] at hg
      subst hg
      exact ⟨hgid.trans hown, hlt, hsturdy'⟩
    · simp only [Base.setDomain, Function.update_of_ne hgg] at hg
      exact h.domains g dg hg
  · by_cases hgg : g = gid
    · subst hgg
      simp [Base.setDomain, hlisted]
    · simp only [Base.setDomain, Function.update_of_ne hgg]
      exact h.listed g
  · rw [hlog, messageDeals_append, List.map_append, messageDeals_of]
    refine h.messages.trans ?_
    have hold : b.messages = d.messages + ∑ g ∈ (Finset.range maxDomains).erase gid,
        (b.gidToDomain g).elim 0 Domain.messages := by
      have := sum_domains_of (fun _ o => Option.elim o 0 Domain.messages) b.gidToDomain hlt
      rwa [hd] at this
    have hnew : (b.setDomain gid d d').messages = d'.messages
        + ∑ g ∈ (Finset.range maxDomains).erase gid, (b.gidToDomain g).elim 0 Domain.messages :=
      sum_domains_set (fun _ o => Option.elim o 0 Domain.messages) b.gidToDomain (some d') hlt
    have hrest := hmessages.add (∑ g ∈ (Finset.range maxDomains).erase gid,
      (b.gidToDomain g).elim 0 Domain.messages)
    rw [hold, hnew, add_right_comm, add_right_comm d'.messages]
    rwa [← add_assoc, ← add_assoc] at hrest
  · rw [hlog, processDeals_append, List.map_append, processDeals_of]
    refine h.processes.trans ?_
    have hold : b.processes = d.processes gid + ∑ g ∈ (Finset.range maxDomains).erase gid,
        (b.gidToDomain g).elim 0 (Domain.processes g) := by
      have := sum_domains_of (fun g o => Option.elim o 0 (Domain.processes g)) b.gidToDomain hlt
      rwa [hd] at this
    have hnew : (b.setDomain gid d d').processes = d'.processes gid
        + ∑ g ∈ (Finset.range maxDomains).erase gid,
          (b.gidToDomain g).elim 0 (Domain.processes g) :=
      sum_domains_set (fun g o => Option.elim o 0 (Domain.processes g)) b.gidToDomain (some d') hlt
    rw [hold, hnew]
    exact (hprocesses.map (Prod.mk gid)).add _
  · rw [hlog]
    exact (h.tidied c hc).append (fun heq => hc (heq ▸ hlisted)) es

/-- An act pays at home what it neither brings nor leaves. -/
theorem Base.Settled.act (h : b.Settled x) {env : Env} {a : Act} (hd : b.gidToDomain gid = some d)
    (hact : d.act (env, a) = .ok d') (hw : ∀ p ∈ a.targets env d, d.WholePut p)
    (hqr : ∀ qr, a = .arrive qr → qr.Whole) (hx : x = a.brings) (hy : y = a.leaves d) :
    (b.setDomain gid d d').Settled y := by
  refine h.pay hd (rosterStep_limits (act_roster hact)).1 ?_
  rw [hx, hy]
  exact act_pays hact hw hqr

theorem messages_domainNew (hgid : gid < maxDomains) (hnone : b.gidToDomain gid = none)
    (maxProcesses : Nat) :
    ∑ g ∈ Finset.range maxDomains, (Function.update b.gidToDomain gid
      (some (Domain.new gid maxProcesses)) g).elim 0 Domain.messages = b.messages := by
  have hnew : (Domain.new gid maxProcesses).messages = 0 := by
    simp [Domain.messages, Domain.stored, Domain.new, Phase.inHand, Queue.ids_init]
  refine (sum_domains_set (fun _ o => Option.elim o 0 Domain.messages) b.gidToDomain _ hgid).trans ?_
  refine Eq.trans ?_
    (sum_domains_of (fun _ o => Option.elim o 0 Domain.messages) b.gidToDomain hgid).symm
  rw [hnone]
  exact congrArg (· + _) hnew

theorem processes_domainNew (hgid : gid < maxDomains) (hnone : b.gidToDomain gid = none)
    (maxProcesses : Nat) :
    ∑ g ∈ Finset.range maxDomains, (Function.update b.gidToDomain gid
      (some (Domain.new gid maxProcesses)) g).elim 0 (Domain.processes g) = b.processes := by
  refine (sum_domains_set (fun g o => Option.elim o 0 (Domain.processes g)) b.gidToDomain _
    hgid).trans ?_
  refine Eq.trans ?_
    (sum_domains_of (fun g o => Option.elim o 0 (Domain.processes g)) b.gidToDomain hgid).symm
  rw [hnone]
  rfl

end Settling

/-- **Every step of the base settles**, if it puts messages into whole inboxes only. -/
theorem Base.Settled.step (h : b.Settled 0) {a : BaseAct} (hw : b.putsWhole a)
    (hstep : b.step a = .ok b') : b'.Settled 0 := by
  cases baseStep_cases hstep with
  | domainNew gid maxProcesses hpos hlt hnone =>
      have hfresh : gid ∉ b.listOfDomains := fun hm => by
        have := (h.listed gid).1 hm
        rw [hnone] at this
        cases this
      refine ⟨fun g dg hg => ?_, fun g => ?_, ?_, ?_, ?_, fun c hc => ?_⟩
      · by_cases hgg : g = gid
        · subst hgg
          simp only [Function.update_self, Option.some.injEq] at hg
          subst hg
          exact ⟨rfl, hlt, sturdy_new g maxProcesses⟩
        · simp only [Function.update_of_ne hgg] at hg
          exact h.domains g dg hg
      · by_cases hgg : g = gid
        · subst hgg
          simp
        · simp [h.listed, hgg]
      · exact List.nodup_append.2 ⟨h.nodup, List.nodup_singleton gid, fun g hg g' hg' => by
          rw [List.mem_singleton.1 hg']
          exact fun heq => hfresh (heq ▸ hg)⟩
      · show Settles _ 0 (∑ g ∈ Finset.range maxDomains, _ + 0)
        rw [messages_domainNew hlt hnone]
        exact h.messages
      · show Settles _ 0 (∑ g ∈ Finset.range maxDomains, _)
        rw [processes_domainNew hlt hnone]
        exact h.processes
      · exact h.tidied c (fun hm => hc (List.mem_append_left _ hm))
  | register pid name names => exact ⟨h.domains, h.listed, h.nodup, h.messages, h.processes, h.tidied⟩
  | run gid a d d' hallowed hd hact =>
      refine h.act hd hact (hw d hd) ?_ ?_ ?_
      · rintro qr rfl
        cases hallowed
      · cases a <;> first | rfl | cases hallowed
      · cases a <;> first | rfl | cases hallowed
  | flushNone gid d d' hd _ hact =>
      exact h.act hd hact (List.forall_mem_nil _) (fun _ heq => by cases heq) rfl rfl
  | wake gid d d' dequeued hd hact =>
      exact h.act hd hact (List.forall_mem_nil _) (fun _ heq => by cases heq) rfl rfl
  | flushOne gid v d d' victim victim' hd hvictim hact harrive =>
      obtain ⟨hlt, hfilled, hv, counter, back, hphase⟩ := victim_eq_some hvictim
      obtain ⟨hown, _, hsturdy⟩ := h.domains gid d hd
      -- the outbox for the domain itself is empty, so the victim is another one
      have hother : v ≠ gid := fun heq => hfilled (by rw [heq, ← hown]; exact hsturdy.own)
      have hleft : (b.setDomain gid d d').Settled (d.outbox v).ids := by
        refine h.act hd hact (List.forall_mem_nil _) (fun _ heq => by cases heq) rfl ?_
        simp only [Act.leaves, hphase, if_pos hlt]
      have hv' : (b.setDomain gid d d').gidToDomain v = some victim := by
        simp only [Base.setDomain, Function.update_of_ne hother]
        exact hv
      refine hleft.act hv' harrive (List.forall_mem_nil _) ?_ rfl rfl
      rintro qr heq
      cases heq
      exact hsturdy.outbox v

theorem settled_new : Base.new.Settled 0 where
  domains := fun _ _ hd => by cases hd
  listed := fun gid => iff_of_false List.not_mem_nil Bool.false_ne_true
  nodup := List.nodup_nil
  messages := by
    show (0 : Multiset MsgId) = _
    simp [Base.messages, Base.new]
  processes := by
    show (0 : Multiset (Nat × ProcId)) = _
    simp [Base.processes, Base.new]
  tidied := fun _ _ => Or.inl (List.forall_mem_nil _)

theorem settled_reachable (hr : Runs Base.step Base.putsWhole Base.new b) : b.Settled 0 :=
  hr.invariant (fun _ _ _ h hw hstep => h.step hw hstep) settled_new

end Msock
