import Msock.Lib.Pipe
import Msock.Domain.Post
import Msock.Base.Routing

/-!
# Transport

From one domain to one process the messages go through a pipe: the outbox of the sender, the
remote inbox and the local inbox of the receiver. Every step of the base is a move of that pipe,
whichever domain takes it, so the pipe's rules hold of every run that the process lives through.
-/

namespace Msock

open Lib

variable {b b' : Base} {gid s v : Nat} {d d' : Domain} {p : ProcId} {pid : Pid}

/-! ## The pipe -/

/-- The events of one domain. -/
def eventsOf (gid : Nat) (log : List (Nat × Event)) : List Event :=
  log.filterMap (fun x => if x.1 = gid then some x.2 else none)

theorem eventsOf_append (log : List (Nat × Event)) (es : List Event) :
    eventsOf s (log ++ es.map (Prod.mk gid)) = eventsOf s log ++ if gid = s then es else [] := by
  rw [eventsOf, List.filterMap_append, List.filterMap_map]
  by_cases h : gid = s
  · simp [eventsOf, h]
  · simp [eventsOf, h]

/-- The letters for `pid` among the messages from the domain `s`. -/
def lettersFrom (s : Nat) (pid : Pid) (msgs : List Message) : List Letter :=
  lettersFor pid (msgs.filter (fun msg => msg.src = s))

theorem lettersFrom_append (msgs msgs' : List Message) :
    lettersFrom s pid (msgs ++ msgs') = lettersFrom s pid msgs ++ lettersFrom s pid msgs' := by
  rw [lettersFrom, List.filter_append, lettersFor_append]
  rfl

theorem lettersFrom_of_src {msgs : List Message} (h : ∀ m ∈ msgs, m.src = s) :
    lettersFrom s pid msgs = lettersFor pid msgs := by
  rw [lettersFrom, List.filter_eq_self.2 fun m hm => decide_eq_true (h m hm)]

theorem lettersFrom_of_ne {msgs : List Message} (h : ∀ m ∈ msgs, m.src ≠ s) :
    lettersFrom s pid msgs = [] := by
  rw [lettersFrom, List.filter_eq_nil_iff.2 fun m hm => by simpa using h m hm]
  rfl

/-- Letters for a pid go to its gid. -/
theorem lettersFor_filter {msgs : List Message} (hv : pidToGid pid = v) :
    lettersFor pid (msgs.filter (fun msg => pidToGid msg.target = v)) = lettersFor pid msgs := by
  rw [lettersFor, lettersFor, List.filter_filter]
  congr 2
  funext msg
  by_cases h : msg.IsFor pid
  · simp [h, h.gid, hv]
  · simp [h]

/-- What was handed to `p` from the domain `s`. -/
def handedFrom (s : Nat) (p : ProcId) (es : List Event) : List Letter :=
  ((arrivals p es).filter (fun msg => msg.src = s)).map Message.letter

theorem handedFrom_append (es es' : List Event) :
    handedFrom s p (es ++ es') = handedFrom s p es ++ handedFrom s p es' := by
  rw [handedFrom, arrivals_append, List.filter_append, List.map_append]
  rfl

theorem handedFrom_of_src {es : List Event} (h : ∀ m ∈ arrivals p es, m.src = s) :
    handedFrom s p es = (arrivals p es).map Message.letter := by
  rw [handedFrom, List.filter_eq_self.2 fun m hm => decide_eq_true (h m hm)]

theorem handedFrom_of_ne {es : List Event} (h : ∀ m ∈ arrivals p es, m.src ≠ s) :
    handedFrom s p es = [] := by
  rw [handedFrom, List.filter_eq_nil_iff.2 fun m hm => by simpa using h m hm]
  rfl

/-- What a domain of the base holds, nothing if there is no such domain. -/
def Base.held (gid : Nat) (f : Domain → List Letter) (b : Base) : List Letter :=
  (b.gidToDomain gid).elim [] f

/-- The messages from the domain `s` on their way to the process `p` of the domain `v`, which
has the pid `pid`. -/
def Base.pipe (s v : Nat) (p : ProcId) (pid : Pid) (b : Base) : Pipe Letter where
  sent := lettersFor pid (posted (eventsOf s b.log))
  outbox := b.held s (fun d => lettersFor pid (d.outbox v).items)
  remote := b.held v (fun d => lettersFrom s pid d.remoteInbox.items)
  localBox := b.held v (fun d => lettersFrom s pid d.localInbox.items)
  handed := handedFrom s p (eventsOf v b.log)

/-- The process `p` of the domain `v` is alive and has the pid `pid`. -/
def Base.Alive (v : Nat) (p : ProcId) (pid : Pid) (b : Base) : Prop :=
  (b.gidToDomain v).any (fun d => (d.process p).any (fun process => process.pid == pid)) = true

instance (b : Base) : Decidable (b.Alive v p pid) := inferInstanceAs (Decidable (_ = _))

theorem alive_iff : b.Alive v p pid ↔
    ∃ d, b.gidToDomain v = some d ∧ d.roster.pid p = some pid := by
  rw [Base.Alive, Option.any_eq_true]
  refine exists_congr fun d => and_congr_right fun _ => ?_
  show _ ↔ (d.process p).map Process.pid = some pid
  cases d.process p <;> simp

theorem held_set_self {f : Domain → List Letter} :
    (b.setDomain gid d d').held gid f = f d' := by
  simp [Base.held, Base.setDomain]

theorem held_set_ne {f : Domain → List Letter} (h : gid ≠ s) :
    (b.setDomain gid d d').held s f = b.held s f := by
  simp [Base.held, Base.setDomain, Function.update_of_ne (Ne.symm h)]

theorem held_of {f : Domain → List Letter} (h : b.gidToDomain gid = some d) : b.held gid f = f d := by
  simp [Base.held, h]

/-! ## What holds of every domain -/

/-- Every domain is in its slot and routes its pids, and its messages are where they belong. -/
def Base.Delivering (b : Base) : Prop :=
  ∀ gid d, b.gidToDomain gid = some d → d.gid = gid ∧ Routed d.roster ∧ d.Addressed

theorem Base.Delivering.set (h : b.Delivering) (hgid : d'.gid = gid) (hr : Routed d'.roster)
    (ha : d'.Addressed) : (b.setDomain gid d d').Delivering := by
  intro g e he
  by_cases hg : g = gid
  · subst hg
    simp only [Base.setDomain, Function.update_self, Option.some.injEq] at he
    exact he ▸ ⟨hgid, hr, ha⟩
  · simp only [Base.setDomain, Function.update_of_ne hg] at he
    exact h g e he

/-- A domain flushes to another one, which is still there when it has done so. -/
theorem Base.Delivering.victim {w : Nat} {victim : Domain} (h : b.Delivering)
    (hd : b.gidToDomain gid = some d) (hv : b.victim d = some (w, victim)) (d' : Domain) :
    w ≠ gid ∧ (b.setDomain gid d d').gidToDomain w = some victim := by
  obtain ⟨_, hfilled, hvictim, _⟩ := victim_eq_some hv
  obtain ⟨hgid, _, ha⟩ := h gid d hd
  have hne : w ≠ gid := by
    rintro rfl
    rw [← hgid] at hfilled
    exact hfilled ha.own
  refine ⟨hne, ?_⟩
  simp only [Base.setDomain, Function.update_of_ne hne, hvictim]

/-- What an act that carries the messages on leaves. -/
theorem Base.Delivering.act (h : b.Delivering) {env : Env} {a : Act}
    (hd : b.gidToDomain gid = some d) (hact : d.act (env, a) = .ok d')
    (harrive : ∀ qr, a ≠ .arrive qr) : (b.setDomain gid d d').Delivering := by
  obtain ⟨hgid, hr, ha⟩ := h gid d hd
  exact h.set ((rosterStep_limits (act_roster hact)).1.trans hgid) (routed_step hr (act_roster hact))
    ((act_carried hact harrive hr ha).addressed ha)

theorem delivering_step {a : BaseAct} (h : b.Delivering) (hok : slots b a)
    (hstep : b.step a = .ok b') : b'.Delivering := by
  cases baseStep_cases hstep with
  | domainNew g maxProcesses hpos hlt _ =>
      intro g' e he
      by_cases hg : g' = g
      · subst hg
        simp only [Function.update_self, Option.some.injEq] at he
        exact he ▸ ⟨rfl, routed_new hpos hlt hok.1 hok.2, addressed_new _ _⟩
      · simp only [Function.update_of_ne hg] at he
        exact h g' e he
  | register pid name names => exact h
  | run g a d d' hallowed hd hact =>
      exact h.act hd hact fun qr ha => by subst ha; cases hallowed
  | flushNone g d d' hd _ hact => exact h.act hd hact fun _ ha => by cases ha
  | flushOne g v d d' victim victim' hd hv hact harrive =>
      obtain ⟨_, _, hvictim, _⟩ := victim_eq_some hv
      obtain ⟨hgid, _, ha⟩ := h g d hd
      obtain ⟨hgid', hr', ha'⟩ := h v victim hvictim
      have hself := (h.victim hd hv d').1
      cases step_cases harrive
      refine (h.act hd hact fun _ ha => by cases ha).set hgid' hr'
        ⟨ha'.outbox, ha'.own, ?_, ha'.localInbox⟩
      obtain ⟨_, hitems, _, hwhole⟩ := (ha.outbox v).1.splice ha'.remote.1
      refine ⟨hwhole, fun m hm => ?_⟩
      rw [hitems] at hm
      rcases List.mem_append.1 hm with hm | hm
      · exact ha'.remote.2 m hm
      · obtain ⟨hsrc, htarget⟩ := (ha.outbox v).2 m hm
        exact ⟨fun heq => hself ((hgid'.symm.trans heq.symm).trans (hsrc.trans hgid)),
          htarget.trans hgid'.symm⟩
  | wake g d d' dequeued hd hact => exact h.act hd hact fun _ ha => by cases ha

theorem delivering_reachable (hr : Runs Base.step slots Base.new b) : b.Delivering :=
  hr.invariant (fun _ _ _ h hok hstep => delivering_step h hok hstep) (fun _ _ h => by cases h)

/-! ## Steps are moves -/

section Moves
variable {es : List Event}

theorem pipe_other (htrace : d'.trace = d.trace ++ es) (hs : gid ≠ s) (hv : gid ≠ v) :
    (b.setDomain gid d d').pipe s v p pid = b.pipe s v p pid := by
  simp only [Base.pipe, held_set_ne hs, held_set_ne hv, log_setDomain htrace, eventsOf_append,
    if_neg hs, if_neg hv, List.append_nil]

theorem pipe_sender (htrace : d'.trace = d.trace ++ es) (hne : s ≠ v) :
    (b.setDomain s d d').pipe s v p pid = { b.pipe s v p pid with
      sent := (b.pipe s v p pid).sent ++ lettersFor pid (posted es)
      outbox := lettersFor pid (d'.outbox v).items } := by
  simp only [Base.pipe, held_set_self, held_set_ne hne, log_setDomain htrace, eventsOf_append,
    if_pos, if_neg hne, List.append_nil, posted_append, lettersFor_append]

theorem pipe_receiver (htrace : d'.trace = d.trace ++ es) (hne : v ≠ s) :
    (b.setDomain v d d').pipe s v p pid = { b.pipe s v p pid with
      remote := lettersFrom s pid d'.remoteInbox.items
      localBox := lettersFrom s pid d'.localInbox.items
      handed := (b.pipe s v p pid).handed ++ handedFrom s p es } := by
  simp only [Base.pipe, held_set_self, held_set_ne hne, log_setDomain htrace, eventsOf_append,
    if_pos, if_neg hne, List.append_nil, handedFrom_append]

/-- A domain's pipe to a process of its own has nothing in it. -/
theorem pipe_own (hd : b.gidToDomain s = some d) (hgid : d.gid = s) (ha : d.Addressed) :
    b.pipe s s p pid = ⟨lettersFor pid (posted (eventsOf s b.log)), [], [], [],
      handedFrom s p (eventsOf s b.log)⟩ := by
  have hown : (d.outbox s).items = [] := by
    rw [← hgid]
    exact ha.own
  rw [Base.pipe, held_of hd, held_of hd, held_of hd, hown,
    lettersFrom_of_ne fun m hm => hgid ▸ (ha.remote.2 m hm).1,
    lettersFrom_of_ne fun m hm => hgid ▸ (ha.localInbox.2 m hm).1]
  rfl

theorem Carried.trace (hc : Carried d d') : ∃ es, d'.trace = d.trace ++ es := by
  cases hc with
  | posts es h => exact ⟨es, h.trace⟩
  | splice htrace => exact ⟨[], by rw [htrace, List.append_nil]⟩
  | hands msg localInbox es _ _ htrace => exact ⟨es, htrace⟩
  | flush g counter back es _ _ _ htrace => exact ⟨es, htrace⟩

/-- A domain sends to a process of another. -/
theorem Carried.sender (hc : Carried d d') (hd : b.gidToDomain s = some d) (hgid : d.gid = s)
    (hne : s ≠ v) (hpid : pidToGid pid = v)
    (hflush : ∀ counter back, d.phase = .flush v counter false back → (d.outbox v).items = []) :
    Flow (b.pipe s v p pid) ((b.setDomain s d d').pipe s v p pid) := by
  have hout : (b.pipe s v p pid).outbox = lettersFor pid (d.outbox v).items := held_of hd
  suffices hkey : ∃ es, d'.trace = d.trace ++ es ∧ lettersFor pid (d'.outbox v).items
      = lettersFor pid (d.outbox v).items ++ lettersFor pid (posted es) by
    obtain ⟨es, htrace, hitems⟩ := hkey
    rw [pipe_sender htrace hne, hitems, ← hout]
    exact .send _
  cases hc with
  | posts es h =>
      refine ⟨es, h.trace, ?_⟩
      rw [h.outbox v (by rw [hgid]; exact hne.symm), lettersFor_append, lettersFor_filter hpid]
  | splice htrace _ houtbox _ _ =>
      exact ⟨[], by rw [htrace, List.append_nil], by rw [houtbox]; exact (List.append_nil _).symm⟩
  | hands msg localInbox es _ hhands htrace _ houtbox _ _ =>
      refine ⟨es, htrace, ?_⟩
      rw [houtbox, hhands.posted]
      exact (List.append_nil _).symm
  | flush g counter back es hphase _ hitems htrace hes _ _ _ houtbox =>
      refine ⟨es, htrace, ?_⟩
      have hg : v ≠ g := by
        rintro rfl
        exact hitems (hflush counter back hphase)
      rw [houtbox, Function.update_of_ne hg, (noPost_eq hes).1]
      exact (List.append_nil _).symm

/-- A domain takes in what comes from another. -/
theorem Carried.receiver (hc : Carried d d') (hd : b.gidToDomain v = some d) (hgid : d.gid = v)
    (ha : d.Addressed) (hp : d.roster.pid p = some pid) (hne : v ≠ s) :
    Flow (b.pipe s v p pid) ((b.setDomain v d d').pipe s v p pid) := by
  have hremote : (b.pipe s v p pid).remote = lettersFrom s pid d.remoteInbox.items := held_of hd
  have hlocal : (b.pipe s v p pid).localBox = lettersFrom s pid d.localInbox.items := held_of hd
  cases hc with
  | posts es h =>
      rw [pipe_receiver h.trace hne, h.remote, h.localInbox, ← hremote, ← hlocal,
        handedFrom_of_ne fun m hm heq => hne ((hgid.symm.trans (h.arrivedSrc p m hm).symm).trans heq),
        List.append_nil]
      exact .idle
  | splice htrace _ _ hremote' hlocal' =>
      obtain ⟨hempty, hitems, _, _⟩ := ha.remote.1.splice ha.localInbox.1
      have hnone : d'.trace = d.trace ++ [] := by rw [htrace, List.append_nil]
      rw [pipe_receiver hnone hne, hremote', hlocal', hempty, hitems, lettersFrom_append, ← hremote,
        ← hlocal]
      have : handedFrom s p [] = [] := rfl
      rw [this, List.append_nil]
      exact .splice
  | hands msg localInbox es hget hhands htrace _ _ hremote' hlocal' =>
      have hitems := (Queue.get_eq_some hget).1
      have hfront : handedFrom s p es = lettersFrom s pid [msg] := by
        by_cases hsrc : msg.src = s
        · rw [handedFrom_of_src fun m hm => (hhands.src p m hm).trans hsrc, hhands.arrivals p pid hp,
            lettersFrom_of_src (by simpa using hsrc), lettersFor_singleton]
        · rw [handedFrom_of_ne fun m hm heq => hsrc ((hhands.src p m hm).symm.trans heq),
            lettersFrom_of_ne (by simpa using hsrc)]
      rw [pipe_receiver htrace hne, hremote', hlocal', ← hremote]
      refine .hand _ _ ?_
      rw [hlocal, hitems, hfront, ← lettersFrom_append]
      rfl
  | flush g counter back es _ _ _ htrace hes _ hremote' hlocal' _ =>
      rw [pipe_receiver htrace hne, hremote', hlocal', ← hremote, ← hlocal, handedFrom,
        (noPost_eq hes).2 p]
      show Flow _ { b.pipe s v p pid with handed := (b.pipe s v p pid).handed ++ [] }
      rw [List.append_nil]
      exact .idle

/-- A domain sends to a process of its own. -/
theorem Carried.own (hc : Carried d d') (hd : b.gidToDomain s = some d) (hgid : d.gid = s)
    (ha : d.Addressed) (hp : d.roster.pid p = some pid) :
    Flow (b.pipe s s p pid) ((b.setDomain s d d').pipe s s p pid) := by
  suffices hkey : ∃ es, d'.trace = d.trace ++ es ∧ d'.gid = s ∧
      handedFrom s p es = lettersFor pid (posted es) by
    obtain ⟨es, htrace, hgid', heq⟩ := hkey
    rw [pipe_own hd hgid ha, pipe_own (d := d') (by simp [Base.setDomain]) hgid' (hc.addressed ha),
      log_setDomain htrace, eventsOf_append, if_pos rfl, posted_append, lettersFor_append,
      handedFrom_append, heq]
    exact .direct _ rfl rfl rfl
  cases hc with
  | posts es h =>
      refine ⟨es, h.trace, h.gid.trans hgid, ?_⟩
      rw [handedFrom_of_src fun m hm => (h.arrivedSrc p m hm).trans hgid, h.direct p pid hp]
  | splice htrace hgid' _ _ _ => exact ⟨[], by rw [htrace, List.append_nil], hgid'.trans hgid, rfl⟩
  | hands msg localInbox es hget hhands htrace hgid' _ _ _ =>
      have hsrc : msg.src ≠ s := by
        rw [← hgid]
        refine (ha.localInbox.2 msg ?_).1
        rw [(Queue.get_eq_some hget).1]
        exact List.mem_cons_self
      refine ⟨es, htrace, hgid'.trans hgid, ?_⟩
      rw [hhands.posted, handedFrom_of_ne fun m hm heq => hsrc ((hhands.src p m hm).symm.trans heq)]
      rfl
  | flush g counter back es _ _ _ htrace hes hgid' _ _ _ =>
      refine ⟨es, htrace, hgid'.trans hgid, ?_⟩
      rw [(noPost_eq hes).1, handedFrom, (noPost_eq hes).2 p]
      rfl

/-- An act that carries the messages on is a move of every pipe. -/
theorem Carried.flow (hc : Carried d d') (hb : b.Delivering) (hd : b.gidToDomain gid = some d)
    (halive : b.Alive v p pid)
    (hflush : ∀ counter back, d.phase = .flush v counter false back → (d.outbox v).items = []) :
    Flow (b.pipe s v p pid) ((b.setDomain gid d d').pipe s v p pid) := by
  obtain ⟨hgid, _, ha⟩ := hb gid d hd
  obtain ⟨receiver, hv, hp⟩ := alive_iff.1 halive
  obtain ⟨hvgid, hvr, _⟩ := hb v receiver hv
  have hpid : pidToGid pid = v := (hvr.pid_fields hp).1.trans hvgid
  obtain ⟨es, htrace⟩ := hc.trace
  by_cases hgs : gid = s
  · subst hgs
    by_cases hgv : gid = v
    · subst hgv
      obtain rfl : d = receiver := Option.some.inj (hd.symm.trans hv)
      exact hc.own hd hgid ha hp
    · exact hc.sender hd hgid hgv hpid hflush
  · by_cases hgv : gid = v
    · subst hgv
      obtain rfl : d = receiver := Option.some.inj (hd.symm.trans hv)
      exact hc.receiver hd hgid ha hp hgs
    · rw [pipe_other htrace hgs hgv]
      exact .idle

end Moves

/-- The first half of a turn of `send_flush_outbox` that has a victim. -/
theorem flushTake_spliced {env : Env} {counter : Nat} {back : FlushFrom}
    (h : d.act (env, .flushTake true) = .ok d') (hphase : d.phase = .flush v counter false back)
    (hlt : v < maxDomains) (hne : (d.outbox v).items ≠ []) :
    d'.trace = d.trace ∧ d'.remoteInbox = d.remoteInbox ∧ d'.localInbox = d.localInbox ∧
      d'.outbox = Function.update d.outbox v Queue.init := by
  cases step_cases h with
  | flushTake victim g counter' back' hphase' =>
      obtain ⟨rfl, rfl, _, rfl⟩ := Phase.flush.inj (hphase.symm.trans hphase')
      rw [flushTake, if_neg (Nat.not_le.2 hlt), if_neg hne, if_pos rfl]
      exact ⟨rfl, rfl, rfl, rfl⟩

/-- What it does to the victim. -/
theorem arrive_spliced {env : Env} {qr : Queue Message} (h : d.act (env, .arrive qr) = .ok d') :
    d'.trace = d.trace ∧ d'.remoteInbox = (Queue.splice qr d.remoteInbox).2 ∧
      d'.localInbox = d.localInbox ∧ d'.outbox = d.outbox := by
  cases step_cases h
  exact ⟨rfl, rfl, rfl, rfl⟩

/-- The first half of a turn is all that a domain does there. -/
theorem act_of_flush {env : Env} {a : Act} {counter : Nat} {back : FlushFrom}
    (h : d.act (env, a) = .ok d') (hphase : d.phase = .flush gid counter false back) :
    (∃ qr, a = .arrive qr) ∨ ∃ victim, a = .flushTake victim := by
  cases step_cases h with
  | arrive qr => exact .inl ⟨qr, rfl⟩
  | flushTake victim => exact .inr ⟨victim, rfl⟩
  | _ => simp_all

theorem held_set_same {f : Domain → List Letter} (hd : b.gidToDomain gid = some d)
    (hf : f d' = f d) : (b.setDomain gid d d').held s f = b.held s f := by
  by_cases h : gid = s
  · subst h
    rw [held_set_self, hf, held_of hd]
  · exact held_set_ne h

/-- A new domain holds nothing. -/
theorem held_domainNew {f : Domain → List Letter} {maxProcesses : Nat} {gids : List Nat}
    (hnone : b.gidToDomain gid = none) (hf : f (Domain.new gid maxProcesses) = []) :
    Base.held s f { b with
      gidToDomain := Function.update b.gidToDomain gid (some (Domain.new gid maxProcesses))
      listOfDomains := gids } = b.held s f := by
  by_cases h : s = gid
  · subst h
    simp [Base.held, hnone, hf]
  · simp [Base.held, Function.update_of_ne h]

/-- A flush is a move of every pipe. -/
theorem flushOne_flow {env env' : Env} {g w : Nat} {victim victim' : Domain} (hb : b.Delivering)
    (hd : b.gidToDomain g = some d) (hv : b.victim d = some (w, victim))
    (hact : d.act (env, .flushTake true) = .ok d')
    (harrive : victim.act (env', .arrive (d.outbox w)) = .ok victim') :
    Flow (b.pipe s v p pid) (((b.setDomain g d d').setDomain w victim victim').pipe s v p pid) := by
  obtain ⟨hlt, hne, hvictim, counter, back, hphase⟩ := victim_eq_some hv
  obtain ⟨hgid, _, ha⟩ := hb g d hd
  obtain ⟨_, _, ha'⟩ := hb w victim hvictim
  obtain ⟨hself, hvictim₁⟩ := hb.victim hd hv d'
  obtain ⟨htrace, hremote, hlocal, hout⟩ := flushTake_spliced hact hphase hlt hne
  obtain ⟨htrace', hremote', hlocal', hout'⟩ := arrive_spliced harrive
  obtain ⟨_, hitems, _, _⟩ := (ha.outbox w).1.splice ha'.remote.1
  have hnone : d'.trace = d.trace ++ [] := by rw [htrace, List.append_nil]
  have hnone' : victim'.trace = victim.trace ++ [] := by rw [htrace', List.append_nil]
  have hlogs : ((b.setDomain g d d').setDomain w victim victim').log = b.log := by
    rw [log_setDomain hnone', log_setDomain hnone]
    simp
  have hlocals : ((b.setDomain g d d').setDomain w victim victim').held v
      (fun d => lettersFrom s pid d.localInbox.items)
      = b.held v (fun d => lettersFrom s pid d.localInbox.items) := by
    rw [held_set_same hvictim₁ (by rw [hlocal']), held_set_same hd (by rw [hlocal])]
  have houts : ((b.setDomain g d d').setDomain w victim victim').held s
      (fun d => lettersFor pid (d.outbox v).items)
      = (b.setDomain g d d').held s (fun d => lettersFor pid (d.outbox v).items) :=
    held_set_same hvictim₁ (by rw [hout'])
  by_cases hw : w = v
  · subst hw
    have hremotes : ((b.setDomain g d d').setDomain w victim victim').held w
        (fun d => lettersFrom s pid d.remoteInbox.items)
        = b.held w (fun d => lettersFrom s pid d.remoteInbox.items)
          ++ lettersFrom s pid (d.outbox w).items := by
      rw [held_set_self, held_of hvictim, ← lettersFrom_append, ← hitems, hremote']
    by_cases hg : g = s
    · -- from this domain to that of the process
      subst hg
      have hsrc : lettersFrom g pid (d.outbox w).items
          = b.held g (fun d => lettersFor pid (d.outbox w).items) := by
        rw [held_of hd, lettersFrom_of_src fun m hm => ((ha.outbox w).2 m hm).1.trans hgid]
      have hempty : (b.setDomain g d d').held g (fun d => lettersFor pid (d.outbox w).items) = [] := by
        rw [held_set_self, hout, Function.update_self]
        rfl
      simp only [Base.pipe, hlogs, hlocals, houts, hremotes, hsrc, hempty]
      exact .flush
    · have hsrc : lettersFrom s pid (d.outbox w).items = [] :=
        lettersFrom_of_ne fun m hm heq => hg ((hgid.symm.trans ((ha.outbox w).2 m hm).1.symm).trans heq)
      simp only [Base.pipe, hlogs, hlocals, houts, hremotes, hsrc, held_set_ne hg, List.append_nil]
      exact .idle
  · have hremotes : ((b.setDomain g d d').setDomain w victim victim').held v
        (fun d => lettersFrom s pid d.remoteInbox.items)
        = b.held v (fun d => lettersFrom s pid d.remoteInbox.items) := by
      rw [held_set_ne hw, held_set_same hd (by rw [hremote])]
    have hsame : (b.setDomain g d d').held s (fun d => lettersFor pid (d.outbox v).items)
        = b.held s (fun d => lettersFor pid (d.outbox v).items) :=
      held_set_same hd (by rw [hout, Function.update_of_ne (Ne.symm hw)])
    simp only [Base.pipe, hlogs, hlocals, houts, hremotes, hsame]
    exact .idle

/-- **A step of the base is a move of every pipe** to a process that is alive. -/
theorem flow_of_step {a : BaseAct} (hb : b.Delivering) (halive : b.Alive v p pid)
    (hstep : b.step a = .ok b') : Flow (b.pipe s v p pid) (b'.pipe s v p pid) := by
  obtain ⟨receiver, hv, _⟩ := alive_iff.1 halive
  have hact : ∀ {g : Nat} {d d' : Domain} {env : Env} {a : Act}, b.gidToDomain g = some d →
      d.act (env, a) = .ok d' → (∀ qr, a ≠ .arrive qr) →
      (∀ counter back, d.phase = .flush v counter false back → (d.outbox v).items = []) →
      Flow (b.pipe s v p pid) ((b.setDomain g d d').pipe s v p pid) := by
    intro g d d' env a hd hact harrive hflush
    obtain ⟨_, hr, ha⟩ := hb g d hd
    exact (act_carried hact harrive hr ha).flow hb hd halive hflush
  cases baseStep_cases hstep with
  | domainNew g maxProcesses hpos hlt hnone =>
      rw [Base.pipe, Base.pipe, held_domainNew hnone (show lettersFor pid _ = [] from rfl),
        held_domainNew hnone (show lettersFrom s pid _ = [] from rfl),
        held_domainNew hnone (show lettersFrom s pid _ = [] from rfl)]
      exact .idle
  | register pid' name names => exact .idle
  | run g a d d' hallowed hd h =>
      refine hact hd h (fun qr ha => by subst ha; cases hallowed) fun counter back hphase => ?_
      rcases act_of_flush h hphase with ⟨qr, rfl⟩ | ⟨victim, rfl⟩ <;> cases hallowed
  | flushNone g d d' hd hnone h =>
      refine hact hd h (fun _ ha => by cases ha) fun counter back hphase => ?_
      -- with messages for it and no domain there, the receiver would not be alive
      by_contra hne
      have hlt : v < maxDomains := by
        obtain ⟨hvgid, hvr, _⟩ := hb v receiver hv
        rw [← hvgid]
        exact hvr.gid_lt
      rw [Base.victim, hphase] at hnone
      simp [hlt, hne, hv] at hnone
  | flushOne g w d d' victim victim' hd hvictim hact harrive =>
      exact flushOne_flow hb hd hvictim hact harrive
  | wake g d d' dequeued hd h =>
      refine hact hd h (fun _ ha => by cases ha) fun counter back hphase => ?_
      rcases act_of_flush h hphase with ⟨qr, ha⟩ | ⟨victim, ha⟩ <;> cases ha

/-! ## Runs -/

/-- The process lives on. -/
def lives (v : Nat) (p : ProcId) (pid : Pid) (b : Base) (a : BaseAct) : Prop :=
  slots b a ∧ b.Alive v p pid

instance (b : Base) (a : BaseAct) : Decidable (lives v p pid b a) :=
  inferInstanceAs (Decidable (_ ∧ _))

theorem flows_of_runs (hb : b.Delivering) (hr : Runs Base.step (lives v p pid) b b') :
    Flows (b.pipe s v p pid) (b'.pipe s v p pid) ∧ b'.Delivering := by
  induction hr with
  | refl => exact ⟨.refl, hb⟩
  | tail _ hguarded ih =>
      obtain ⟨hflows, hdelivering⟩ := ih
      obtain ⟨a, ⟨hok, halive⟩, hstep⟩ := hguarded
      exact ⟨hflows.tail (flow_of_step hdelivering halive hstep),
        delivering_step hdelivering hok hstep⟩

theorem act_splices {env : Env} (h : d.act (env, .splice) = .ok d') :
    d'.trace = d.trace ∧ d'.gid = d.gid ∧
      d'.remoteInbox = (Queue.splice d.remoteInbox d.localInbox).1 ∧
      d'.localInbox = (Queue.splice d.remoteInbox d.localInbox).2 := by
  cases step_cases h
  exact ⟨rfl, rfl, rfl, rfl⟩

/-- The splice at the head of `domain_run` is the pipe's. -/
theorem splice_pipe (hb : b.Delivering) (h : b.step (.run v .splice) = .ok b') :
    b'.pipe s v p pid = { b.pipe s v p pid with
      remote := []
      localBox := (b.pipe s v p pid).localBox ++ (b.pipe s v p pid).remote } := by
  cases baseStep_cases h with
  | run _ _ d d' _ hd hact =>
      obtain ⟨hgid, hr, ha⟩ := hb v d hd
      obtain ⟨htrace, hgid', hremote, hlocal⟩ := act_splices hact
      have ha' := (act_carried hact (fun _ h => by cases h) hr ha).addressed ha
      have hnone : d'.trace = d.trace ++ [] := by rw [htrace, List.append_nil]
      by_cases hvs : v = s
      · subst hvs
        have hd' : (b.setDomain v d d').gidToDomain v = some d' := by simp [Base.setDomain]
        rw [pipe_own hd hgid ha, pipe_own hd' (hgid'.trans hgid) ha', log_setDomain hnone,
          List.map_nil, List.append_nil]
        rfl
      · obtain ⟨hempty, hitems, _, _⟩ := ha.remote.1.splice ha.localInbox.1
        rw [pipe_receiver hnone hvs, hremote, hlocal, hempty, hitems, lettersFrom_append]
        have hquiet : handedFrom s p [] = [] := rfl
        simp only [Base.pipe, held_of hd, hquiet, List.append_nil]
        rfl

/-- A message to a number that no process has goes back to the cache. -/
theorem stale_of_dead {msg : Message} (hr : Routed d.roster) (hgid : pidToGid msg.target = d.gid)
    (hpoff : pidToPoff msg.target ≠ 0)
    (hdead : ∀ q process, d.process q = some process → process.pid ≠ msg.target) :
    dispatchMsgLocal msg d = .ok (0, freeMessage msg (d.emit (.stale msg))) := by
  have hget : umapGet d.poffToProcess (pidToPoff msg.target) = none := by
    by_contra hne
    obtain ⟨q, hq⟩ := Option.ne_none_iff_exists'.1 hne
    have hpid : d.roster.pid q = some (poffGidToPid (pidToPoff msg.target) d.gid) :=
      hr.answers _ q hq
    obtain ⟨process, hprocess, heq⟩ := Option.map_eq_some_iff.1 hpid
    rw [← hgid, poffGidToPid_fields] at heq
    exact hdead q process hprocess heq
  rw [dispatchMsgLocal]
  simp only [if_pos hpoff, hget]

/-- What a run that the process lives through does to a pipe. -/
theorem run_conserves (hb : b.Delivering) (hr : Runs Base.step (lives v p pid) b b') :
    ∃ sent handed, (b'.pipe s v p pid).sent = (b.pipe s v p pid).sent ++ sent ∧
      (b'.pipe s v p pid).handed = (b.pipe s v p pid).handed ++ handed ∧
      handed ++ (b'.pipe s v p pid).waiting = (b.pipe s v p pid).waiting ++ sent :=
  (flows_of_runs hb hr).1.conserves

/-- The domain `s` has nothing in its outbox for `v`. -/
def Base.Flushed (s v : Nat) (b : Base) : Prop :=
  ∀ d, b.gidToDomain s = some d → (d.outbox v).items = []

/-- The domain `v` has nothing in its local inbox. -/
def Base.Drained (v : Nat) (b : Base) : Prop :=
  ∀ d, b.gidToDomain v = some d → d.localInbox.items = []

/-- A flush, a splice after it and an empty local inbox after that: all has been handed over. -/
theorem run_delivers {b₀ b₁ b₂ b₃ b₄ : Base} (hb₀ : b₀.Delivering)
    (hr₁ : Runs Base.step (lives v p pid) b₀ b₁) (hflushed : b₁.Flushed s v)
    (hr₂ : Runs Base.step (lives v p pid) b₁ b₂) (hsplice : b₂.step (.run v .splice) = .ok b₃)
    (hr₃ : Runs Base.step (lives v p pid) b₃ b₄) (hdrained : b₄.Drained v) :
    ∃ sent sent' handed, (b₁.pipe s v p pid).sent = (b₀.pipe s v p pid).sent ++ sent ∧
      (b₄.pipe s v p pid).sent = (b₁.pipe s v p pid).sent ++ sent' ∧
      (b₄.pipe s v p pid).handed = (b₀.pipe s v p pid).handed ++ handed ∧
      (b₀.pipe s v p pid).waiting ++ sent <+: handed ∧
      (sent' = [] → handed = (b₀.pipe s v p pid).waiting ++ sent) := by
  obtain ⟨hflows₁, hb₁⟩ := flows_of_runs (s := s) hb₀ hr₁
  obtain ⟨hflows₂, hb₂⟩ := flows_of_runs (s := s) hb₁ hr₂
  have hb₃ := delivering_step hb₂ (show slots b₂ (.run v .splice) from trivial) hsplice
  obtain ⟨hflows₃, _⟩ := flows_of_runs (s := s) hb₃ hr₃
  have hspliced : b₃.pipe s v p pid = _ := splice_pipe hb₂ hsplice
  have hout : (b₁.pipe s v p pid).outbox = [] := by
    show b₁.held s _ = []
    cases hd : b₁.gidToDomain s with
    | none => rw [Base.held, hd]; rfl
    | some d => rw [held_of hd, hflushed d hd]; rfl
  have hlocal : (b₄.pipe s v p pid).localBox = [] := by
    show b₄.held v _ = []
    cases hd : b₄.gidToDomain v with
    | none => rw [Base.held, hd]; rfl
    | some d => rw [held_of hd, hdrained d hd]; rfl
  obtain ⟨sent, handed, hsent, hhanded, hdelivered⟩ :=
    hflows₁.delivers hout hflows₂ (hspliced ▸ hflows₃) hlocal
  have hflows₁₄ : Flows (b₁.pipe s v p pid) (b₄.pipe s v p pid) :=
    (hflows₂.tail (hspliced ▸ .splice)).trans hflows₃
  obtain ⟨sent', _, hsent', _, _⟩ := hflows₁₄.conserves
  refine ⟨sent, sent', handed, hsent, hsent', hhanded, hdelivered, fun hnone => ?_⟩
  obtain ⟨sent₀, handed₀, hsent₀, hhanded₀, heq₀⟩ := Flows.conserves (hflows₁.trans hflows₁₄)
  obtain rfl : handed = handed₀ := List.append_cancel_left (hhanded.symm.trans hhanded₀)
  obtain rfl : sent₀ = sent := by
    rw [hsent', hsent, hnone, List.append_nil] at hsent₀
    exact (List.append_cancel_left hsent₀).symm
  exact (prefix_of_conserved heq₀).eq_of_length_le hdelivered.length_le

/-- The process of an engine in the domain 2. -/
def enginePid : Pid := poffGidToPid 2 2

/-- `msock_base_send` to the process of an engine, up to the end of its flush. -/
def sendActs : List BaseAct :=
  [.run 1 (.baseSend enginePid 7 [1, 2] 2), .flush 1, .flush 1, .flush 1]

theorem ok_of_toOption {ε α : Type} {x : Except ε α} {a : α} (h : x.toOption = some a) :
    x = .ok a := by
  cases x with
  | error e => cases h
  | ok b => rw [Option.some.inj h]

end Msock
