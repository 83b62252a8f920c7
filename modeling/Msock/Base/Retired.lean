import Msock.Base.Routing
import Msock.Domain.Outbox

/-!
# Engines that are never run again

An engine's process closes the read end of its wake pipe and returns `RECV_EXIT`, and
`worker_loop` does not put its domain back. The domain's node stays marked, which is what
the node of a domain that is being run looks like too, and the domain stays in the table
and on the list; so a flush that comes later writes to a pipe that nobody reads. It is
spared that if nothing is on its way when the process exits, and nothing is sent to the
engine from then on. The user's domain, the first, has no pipe: its `ingress_callback`
does nothing.
-/

namespace Msock

open Lib

variable {b b' : Base} {gid v : Nat} {d d' : Domain} {env : Env}

/-- The first process of the domain, in an engine's domain the engine's, has exited. -/
def Domain.engineExited (d : Domain) : Bool := decide (0 < d.nextProc) && (d.process 0).isNone

/-- The domain is an engine's, and the read end of its pipe is closed. -/
def Base.isClosed (b : Base) (v : Nat) : Bool :=
  v != 1 && (b.gidToDomain v).any Domain.engineExited

/-- The next step of some domain's `send_flush_outbox` calls the `ingress_callback` of an engine
that has closed its pipe. -/
def Base.WakesClosed (b : Base) : Prop :=
  ∃ gid v b', b.step (.wake gid) = .ok b' ∧ (gid, Event.woke v) ∈ b'.log.drop b.log.length ∧
    b.isClosed v = true

/-- No other domain sends a message to an engine that has exited. -/
def Base.sendsToOpen (b : Base) : BaseAct → Prop
  | .run gid a => ∀ d ∈ b.gidToDomain gid, ∀ v ∈ a.addressees b.env d, v ≠ gid →
      b.isClosed v = false
  | _ => True

/-- An engine's process exits when no other domain has anything for its domain in an outbox, or
is about to look at its node. -/
def Base.exitsUnreached (b : Base) : BaseAct → Prop
  | .run gid (.ret .exit) => ∀ d ∈ b.gidToDomain gid, gid ≠ 1 → d.running = some 0 →
      ∀ w < maxDomains, w ≠ gid → ∀ dw ∈ b.gidToDomain w,
        (dw.outbox gid).items = [] ∧ dw.flushing gid = false
  | _ => True

instance (b : Base) (a : BaseAct) : Decidable (b.sendsToOpen a) :=
  match a with
  | .run gid a => inferInstanceAs (Decidable (∀ d ∈ b.gidToDomain gid,
      ∀ v ∈ a.addressees b.env d, v ≠ gid → b.isClosed v = false))
  | .domainNew _ | .register _ _ | .flush _ | .wake _ => isTrue trivial

instance (b : Base) (a : BaseAct) : Decidable (b.exitsUnreached a) := by
  unfold Base.exitsUnreached
  split <;> infer_instance

theorem engineExited_iff : d.engineExited = true ↔ 0 < d.nextProc ∧ d.process 0 = none := by
  simp [Domain.engineExited]

theorem isClosed_iff : b.isClosed v = true ↔
    v ≠ 1 ∧ ∃ d, b.gidToDomain v = some d ∧ d.engineExited = true := by
  unfold Base.isClosed
  cases b.gidToDomain v <;> simp

/-! ## One domain -/

/-- The engine's process exits once, by returning `RECV_EXIT`. -/
theorem act_exited {a : Act} (h : d.act (env, a) = .ok d') (hd' : d'.engineExited = true) :
    d.engineExited = true ∨ (a = .ret .exit ∧ d.running = some 0) := by
  obtain ⟨hpos, hnone⟩ := engineExited_iff.1 hd'
  cases hp : d.process 0 with
  | some process =>
      obtain ⟨rfl, msg, received, hphase⟩ := act_dead h (by rw [hp]; rfl) hnone
      exact Or.inr ⟨rfl, by rw [Domain.running, hphase]; rfl⟩
  | none =>
      refine Or.inl (engineExited_iff.2 ⟨?_, hp⟩)
      -- the first process is not made by an act that leaves none
      have hroster := act_roster h
      have hpos' : 0 < d'.roster.nextProc := hpos
      have hnone' : d'.roster.pid 0 = none := by simp [Domain.roster, hnone]
      show 0 < d.roster.nextProc
      generalize d'.roster = r' at hroster hpos' hnone'
      cases hroster with
      | refl => exact hpos'
      | remove p pid umap _ _ => exact hpos'
      | add poff umap _ _ =>
          by_contra hzero
          have hfirst : d.roster.nextProc = 0 := by omega
          simp [Roster.add, hfirst] at hnone'

/-- A domain is its own, and does not send to itself through its outbox. -/
structure Domain.Apart (gid : Nat) (d : Domain) : Prop where
  gid_eq : d.gid = gid
  gid_lt : gid < maxDomains
  outbox : (d.outbox gid).items = []
  flushing : d.flushing gid = false

theorem apart_act {a : Env × Act} (h : d.Apart gid) (hact : d.act a = .ok d') : d'.Apart gid := by
  refine ⟨(rosterStep_limits (act_roster hact)).1.trans h.gid_eq, h.gid_lt, ?_, ?_⟩
  · by_contra hfilled
    rcases act_fills hact gid hfilled with hold | ⟨_, hne⟩
    · exact hold h.outbox
    · exact hne h.gid_eq.symm
  · rw [Bool.eq_false_iff]
    intro hnow
    rcases act_flushing hact hnow with hbefore | hfilled
    · rw [h.flushing] at hbefore; cases hbefore
    · exact hfilled h.outbox

theorem noteReceive_retired {phase : Phase} {q : ProcId} :
    phase.noteReceive q = .retired ↔ phase = .retired := by
  cases phase <;> simp [Phase.noteReceive]

/-- A domain retires at the end of `worker_loop`'s body, and never leaves that state. -/
theorem act_retired {a : Act} (h : d.act (env, a) = .ok d') (hd' : d'.phase = .retired) :
    d'.listOfProcesses = d.listOfProcesses ∧ (d.phase = .retired ∨ d.listOfProcesses = []) := by
  cases step_cases h with
  | arrive qr => exact ⟨rfl, Or.inl hd'⟩
  | retire hphase hlist => exact ⟨rfl, Or.inr hlist⟩
  | baseSpawn receiveCallback hungry p hphase hnew =>
      rw [(processNew_outbox hnew).2, hphase] at hd'; cases hd'
  | baseSpawn2 hphase hnew =>
      rw [(spawnConstructor_outbox hnew).2, hphase] at hd'; cases hd'
  | api call hphase hcall =>
      exfalso
      have hsame : d'.phase = .retired → d.phase = .retired := by
        cases hcall with
        | send target msgType msgPayload msgPayloadSz _ hsend =>
            rw [(sendIndirect_fills hsend).2]; exact id
        | spawn receiveCallback p _ hnew => rw [(processNew_outbox hnew).2]; exact id
        | spawn2 _ hnew => rw [(spawnConstructor_outbox hnew).2]; exact id
        | constructed cur oldproc _ _ => exact id
        | receive receiveCallback cur oldproc d₁ _ hreceive =>
            obtain ⟨_, _, _, _, _, rfl⟩ := msockReceive_cases hreceive
            exact noteReceive_retired.1
        | loopexit _ hsend => rw [(sendBroadcast_fills hsend).2]; exact id
        | memoryCollect d₁ _ _ => intro hflush; cases hflush
      rcases hphase with hphase | ⟨p, msg, received, hphase⟩
      · rw [hphase] at hsame; cases hsame hd'
      · rw [hphase] at hsame; cases hsame hd'
  | baseSend | pick | mark | splice | dispatchOne | queueNone | queueOne | inboxNone | inboxOne
  | retOk | retBadmatch | retExit | flushWake | nextDone | requeue => cases hd'
  | dispatchNone again counter hphase _ =>
      dsimp only at hd'
      split at hd' <;> cases hd'
  | flushTake victim gid counter back hphase =>
      unfold flushTake at hd'
      split at hd'
      · cases back <;> cases hd'
      · split at hd'
        · cases hd'
        · split at hd' <;> cases hd'
  | nextNested egress p hphase hnext hsend =>
      obtain ⟨process, d₁, hp, _, rfl⟩ := sendQueueEmpty_cases hsend
      cases hd'

/-- Who is alive is listed, and nobody is once the domain has retired. -/
structure Domain.Listed (d : Domain) : Prop where
  live : ∀ p, (d.process p).isSome → p ∈ d.listOfProcesses
  retired : d.phase = .retired → d.listOfProcesses = []

theorem rosterStep_listed {r r' : Roster} (h : RosterStep r r')
    (hlive : ∀ p, (r.pid p).isSome → p ∈ r.list) : ∀ p, (r'.pid p).isSome → p ∈ r'.list := by
  intro p hp
  cases h with
  | refl => exact hlive p hp
  | add poff umap _ _ =>
      by_cases hpn : p = r.nextProc
      · exact hpn ▸ List.mem_cons_self
      · simp only [Roster.add, Function.update_of_ne hpn] at hp
        exact List.mem_cons_of_mem _ (hlive p hp)
  | remove q pid umap _ _ =>
      by_cases hpq : p = q
      · subst hpq
        simp [Roster.remove] at hp
      · simp only [Roster.remove, Function.update_of_ne hpq] at hp
        exact (List.mem_erase_of_ne hpq).2 (hlive p hp)

theorem listed_act {a : Env × Act} (h : d.Listed) (hact : d.act a = .ok d') : d'.Listed := by
  refine ⟨fun p hp => ?_, fun hphase => ?_⟩
  · refine rosterStep_listed (act_roster hact) (fun q hq => h.live q ?_) p ?_
    · simpa [Domain.roster] using hq
    · simpa [Domain.roster] using hp
  · obtain ⟨hlist, hretired | hempty⟩ := act_retired hact hphase
    · exact hlist.trans (h.retired hretired)
    · exact hlist.trans hempty

/-! ## The base -/

/-- Nothing is on its way to an engine that has closed its pipe. -/
def Base.Unreached (b : Base) : Prop :=
  ∀ v, b.isClosed v = true → ∀ w dw, w ≠ v → b.gidToDomain w = some dw →
    (dw.outbox v).items = [] ∧ dw.flushing v = false

theorem isClosed_set (hv : v ≠ gid) : (b.setDomain gid d d').isClosed v = b.isClosed v := by
  simp only [Base.isClosed, Base.setDomain, Function.update_of_ne hv]

/-- An act of a domain that neither sends to a closed engine nor closes one that is being sent
to leaves them unreached. -/
theorem Base.Unreached.act (h : b.Unreached) (hd : b.gidToDomain gid = some d) {a : Act}
    (hact : d.act (b.env, a) = .ok d')
    (hopen : ∀ v ∈ a.addressees b.env d, v ≠ gid → b.isClosed v = false)
    (hexit : a = .ret .exit → gid ≠ 1 → d.running = some 0 → ∀ w dw, w ≠ gid →
      b.gidToDomain w = some dw → (dw.outbox gid).items = [] ∧ dw.flushing gid = false) :
    (b.setDomain gid d d').Unreached := by
  intro v hv w dw hne hw
  by_cases hvg : v = gid
  · -- the others are as they were; the domain itself may have closed its pipe just now
    subst hvg
    simp only [Base.setDomain, Function.update_of_ne hne] at hw
    obtain ⟨hone, dv, hdv, hexited⟩ := isClosed_iff.1 hv
    simp only [Base.setDomain, Function.update_self, Option.some.injEq] at hdv
    subst hdv
    rcases act_exited hact hexited with hbefore | ⟨hret, hrunning⟩
    · exact h v (isClosed_iff.2 ⟨hone, d, hd, hbefore⟩) w dw hne hw
    · exact hexit hret hone hrunning w dw hne hw
  · rw [isClosed_set hvg] at hv
    by_cases hwg : w = gid
    · subst hwg
      simp only [Base.setDomain, Function.update_self, Option.some.injEq] at hw
      subst hw
      obtain ⟨houtbox, hflushing⟩ := h v hv w d hne hd
      refine ⟨?_, ?_⟩
      · by_contra hfilled
        rcases act_fills hact v hfilled with hold | ⟨hmem, _⟩
        · exact hold houtbox
        · rw [hopen v hmem hvg] at hv; cases hv
      · rw [Bool.eq_false_iff]
        intro hnow
        rcases act_flushing hact hnow with hbefore | hfilled
        · rw [hflushing] at hbefore; cases hbefore
        · exact hfilled houtbox
    · simp only [Base.setDomain, Function.update_of_ne hwg] at hw
      exact h v hv w dw hne hw

/-- Every step that meets the conditions. -/
theorem Base.Unreached.step (h : b.Unreached)
    (hapart : ∀ w dw, b.gidToDomain w = some dw → dw.Apart w) {a : BaseAct}
    (hopen : b.sendsToOpen a) (hexits : b.exitsUnreached a) (hstep : b.step a = .ok b') :
    b'.Unreached := by
  cases baseStep_cases hstep with
  | domainNew gid maxProcesses _ _ hfree =>
      intro v hv w dw hne hw
      obtain ⟨hone, dv, hdv, hexited⟩ := isClosed_iff.1 hv
      by_cases hvg : v = gid
      · subst hvg
        simp only [Function.update_self, Option.some.injEq] at hdv
        subst hdv
        cases hexited
      · simp only [Function.update_of_ne hvg] at hdv
        by_cases hwg : w = gid
        · subst hwg
          simp only [Function.update_self, Option.some.injEq] at hw
          subst hw
          exact ⟨rfl, rfl⟩
        · simp only [Function.update_of_ne hwg] at hw
          exact h v (isClosed_iff.2 ⟨hone, dv, hdv, hexited⟩) w dw hne hw
  | register pid name names => exact h
  | run gid a d d' hallowed hd hact =>
      refine h.act hd hact (hopen d hd) ?_
      rintro rfl hone hrunning w dw hne hw
      exact hexits d hd hone hrunning w (hapart w dw hw).gid_lt hne dw hw
  | flushNone gid d d' hd _ hact => exact h.act hd hact (fun v hv => by cases hv) nofun
  | wake gid d d' dequeued hd hact => exact h.act hd hact (fun v hv => by cases hv) nofun
  | flushOne gid v d d' victim victim' hd hvictim hact harrive =>
      obtain ⟨_, hfilled, hv, _⟩ := victim_eq_some hvictim
      have hne : v ≠ gid := fun hself => hfilled (hself ▸ (hapart gid d hd).outbox)
      have hfirst : (b.setDomain gid d d').Unreached :=
        h.act hd hact (fun v hv => by cases hv) nofun
      refine hfirst.act ?_ harrive (fun v hv => by cases hv) nofun
      simp only [Base.setDomain, Function.update_of_ne hne]
      exact hv

/-- The event of a wake-up, and the domain that is woken. -/
theorem wake_cases {gid : Nat} (h : b.step (.wake gid) = .ok b') {e : Event}
    (he : (gid, e) ∈ b'.log.drop b.log.length) :
    ∃ d v, b.gidToDomain gid = some d ∧ d.flushing v = true ∧ e = .woke v := by
  cases baseStep_cases h with
  | wake gid d d' dequeued hd hact =>
      cases step_cases hact with
      | flushWake dequeued v counter back hphase =>
          refine ⟨d, v, hd, flushing_iff.2 ⟨counter, back, hphase⟩, ?_⟩
          cases dequeued with
          | false => simp [Base.setDomain] at he
          | true => simpa [Base.setDomain, Domain.emit] using he

theorem apart_step {a : BaseAct} (hstep : b.step a = .ok b')
    (h : ∀ w dw, b.gidToDomain w = some dw → dw.Apart w) :
    ∀ w dw, b'.gidToDomain w = some dw → dw.Apart w :=
  local_step (I := Domain.Apart) (P := fun _ => True) (fun _ _ _ hlt _ => ⟨rfl, hlt, rfl, rfl⟩)
    (fun _ _ _ _ hi hact => apart_act hi hact) (fun _ _ => trivial) hstep h

/-- An engine's domain that `worker_loop` has retired was left by the engine's process. -/
theorem closed_of_retired (hr : Runs Base.step anyAct Base.new b) (hd : b.gidToDomain v = some d)
    (hone : v ≠ 1) (hstarted : 0 < d.nextProc) (hphase : d.phase = .retired) :
    b.isClosed v = true := by
  have hlisted : ∀ w dw, b.gidToDomain w = some dw → dw.Listed := by
    refine hr.invariant (I := fun b => ∀ w dw, b.gidToDomain w = some dw → dw.Listed)
      (fun a t t' ht _ hstep => ?_) (fun _ _ h => by cases h)
    exact local_step (I := fun _ => Domain.Listed) (P := fun _ => True)
      (fun _ _ _ _ _ => ⟨fun _ hp => (by cases hp), nofun⟩)
      (fun _ _ _ _ hi hact => listed_act hi hact) (fun _ _ => trivial) hstep ht
  refine isClosed_iff.2 ⟨hone, d, hd, engineExited_iff.2 ⟨hstarted, ?_⟩⟩
  cases hp : d.process 0 with
  | none => rfl
  | some process =>
      have hmem := (hlisted v d hd).live 0 (by rw [hp]; rfl)
      rw [(hlisted v d hd).retired hphase] at hmem
      cases hmem

/--
**A closed engine is not woken** in any run in which no other domain sends to an engine that has
exited, and no engine's process exits while another domain has something for its domain in an
outbox or is about to look at its node. Engines' domains that `worker_loop` has retired are among
the closed ones.
-/
theorem no_wake_of_retired (b : Base)
    (hr : Runs Base.step (fun b a => b.sendsToOpen a ∧ b.exitsUnreached a) Base.new b) :
    ¬ b.WakesClosed ∧ ∀ v d, b.gidToDomain v = some d → v ≠ 1 → 0 < d.nextProc →
      d.phase = .retired → b.isClosed v = true := by
  refine ⟨?_, fun v d hd hone hstarted hphase =>
    closed_of_retired (hr.weaken fun _ _ _ => trivial) hd hone hstarted hphase⟩
  have hinv : (∀ w dw, b.gidToDomain w = some dw → dw.Apart w) ∧ b.Unreached := by
    refine hr.invariant
      (I := fun b => (∀ w dw, b.gidToDomain w = some dw → dw.Apart w) ∧ b.Unreached)
      (fun a t t' ht hok hstep => ?_)
      ⟨fun _ _ h => (by cases h), fun _ _ w dw _ hw => (by cases hw)⟩
    exact ⟨apart_step hstep ht.1, ht.2.step ht.1 hok.1 hok.2 hstep⟩
  rintro ⟨gid, v, b', hstep, hevent, hclosed⟩
  obtain ⟨d, u, hd, hflushing, heq⟩ := wake_cases hstep hevent
  cases heq
  by_cases hself : gid = v
  · subst hself
    rw [(hinv.1 gid d hd).flushing] at hflushing
    cases hflushing
  · rw [(hinv.2 v hclosed gid d hself hd).2] at hflushing
    cases hflushing

/-- A user process and two engines, which its callback tells to exit by `msock_loopexit` and
`msock_memory_collect`. -/
def loopexitActs : List BaseAct :=
  [.domainNew 4, .domainNew 4, .domainNew 4, .run 1 (.baseSpawn (some 0) false),
    .run 2 (.baseSpawn (some 0) true), .run 3 (.baseSpawn (some 0) true),
    .run 1 (.baseSend (poffGidToPid 4 1) 1 [] 0), .flush 1, .flush 1, .flush 1, .flush 1,
    .flush 1, .flush 1, .run 1 .pick, .run 1 .mark, .run 1 .splice, .run 1 .dispatch,
    .run 1 .nextProcess, .run 1 .nextMessage, .run 1 (.api .loopexit),
    .run 1 (.api .memoryCollect), .flush 1, .flush 1, .flush 1, .wake 1, .flush 1, .wake 1,
    .flush 1, .flush 1]

/-- The first engine exits, and its domain retires. -/
def engineExitActs : List BaseAct :=
  [.run 2 .pick, .run 2 .mark, .run 2 .splice, .run 2 .dispatch, .run 2 .dispatch,
    .run 2 .dispatch, .run 2 .nextProcess, .run 2 .nextMessage, .run 2 (.ret .exit),
    .run 2 .nextProcess, .run 2 .dispatch, .flush 2, .flush 2, .flush 2, .flush 2, .flush 2,
    .flush 2, .run 2 .next, .run 2 .requeue]

/-- The callback calls `msock_loopexit` once more, and `MSG_EXIT` is answered with
`RECV_OK`. -/
def goOnActs : List BaseAct :=
  [.run 1 (.api .loopexit), .run 1 (.ret .ok), .run 1 .nextMessage, .run 1 (.ret .ok),
    .run 1 .nextMessage, .run 1 (.ret .ok), .run 1 .nextMessage, .run 1 .nextProcess,
    .run 1 .nextMessage, .run 1 .nextProcess, .run 1 .dispatch, .flush 1, .flush 1, .flush 1]

/-- An engine has exited and its domain retired, and nothing has been sent to it since. -/
theorem no_wake_of_retired_engine : ∃ (b : Base) (d : Domain), b.gidToDomain 2 = some d ∧
    d.phase = .retired ∧ b.isClosed 2 = true ∧ ¬ b.WakesClosed := by
  obtain ⟨b, hr, hretired⟩ := exists_run (show (runActs Base.step
    (fun b a => b.sendsToOpen a ∧ b.exitsUnreached a) (loopexitActs ++ engineExitActs)
    Base.new).any
      (fun b => (b.gidToDomain 2).any (fun d => d.phase = .retired ∧ 0 < d.nextProc)) = true
    by decide +kernel)
  obtain ⟨d, hd, hphase⟩ := Option.any_eq_true _ _ |>.mp hretired
  obtain ⟨hphase, hstarted⟩ := of_decide_eq_true hphase
  obtain ⟨hnot, hclosed⟩ := no_wake_of_retired b hr
  exact ⟨b, d, hd, hphase, hclosed 2 d hd (by decide) hstarted hphase, hnot⟩

/-- The engine's domain has retired; what the callback goes on to send reaches it by the
flush at the end of the run, which writes to its pipe. -/
theorem retired_engine_is_woken :
    ∃ b : Base, Runs Base.step anyAct Base.new b ∧ b.WakesClosed := by
  obtain ⟨b, hr, hwakes⟩ := exists_run (show (runActs Base.step anyAct
    (loopexitActs ++ engineExitActs ++ goOnActs)
    Base.new).any (fun b => b.isClosed 2 && match b.step (.wake 1) with
      | .ok b' => decide ((1, Event.woke 2) ∈ b'.log.drop b.log.length)
      | .error _ => false) = true by decide +kernel)
  obtain ⟨hclosed, hwake⟩ := Bool.and_eq_true_iff.1 hwakes
  split at hwake
  · rename_i b' hstep
    exact ⟨b, hr, 1, 2, b', hstep, of_decide_eq_true hwake, hclosed⟩
  · cases hwake

end Msock
