import Msock.Domain.Exit
import Msock.Domain.Hungry

/-!
# What a domain may rely on

Code of `msock_domain.c` and `msock_process.c` follows pointers without asking. `Standing`
collects what holds of a domain so that each of them leads somewhere: whoever is queued, runs,
is current or is under the cursor is alive, and every queue is found through its `last`. From it
each function that takes a pointer succeeds; what is left are calls of `fatal`.
-/

namespace Msock

open Lib

variable {d d' : Domain} {p q : ProcId} {msg : Message} {env : Env} {r : Option ProcId}

/-! ## Computations without a fault -/

/-- The computation ends neither at a bad pointer nor at an assertion. -/
def Sound {α : Type} (x : Except Stop α) : Prop := x ≠ .error .fault ∧ x ≠ .error .abort

section Computations
variable {α β : Type} {x : Except Stop α} {f : α → Except Stop β}

theorem sound_of_ok (h : ∃ a, x = .ok a) : Sound x := by
  obtain ⟨a, rfl⟩ := h
  exact ⟨nofun, nofun⟩

theorem sound_ok (a : α) : Sound (.ok a : Except Stop α) := sound_of_ok ⟨a, rfl⟩

theorem sound_fatal (text : String) : Sound (.error (.fatal text) : Except Stop α) :=
  ⟨nofun, nofun⟩

theorem sound_disabled : Sound (.error .disabled : Except Stop α) :=
  ⟨nofun, nofun⟩

theorem sound_bind (hx : Sound x) (hf : ∀ a, x = .ok a → Sound (f a)) : Sound (x >>= f) := by
  cases x with
  | error stop =>
      exact ⟨fun h => hx.1 (by cases h; rfl), fun h => hx.2 (by cases h; rfl)⟩
  | ok a => exact hf a rfl

theorem bind_ok {a : α} (hx : x = .ok a) : x >>= f = f a := by
  rw [hx]
  rfl

end Computations

/-! ## What holds -/

/-- What the code relies on. -/
structure Domain.Standing (d : Domain) : Prop where
  routed : Routed d.roster
  busy : Busy d
  running : RunningLive d
  walking : Walking True d
  /-- The processes that `_current_process` goes back to are alive. -/
  current : ∀ p ∈ d.current, (d.process p).isSome
  /-- What was set aside is found through `last`. -/
  badmatch : ∀ p process, d.process p = some process → process.badmatch.Whole

/-- No process's set-aside messages changed. -/
def SameBadmatch (d d' : Domain) : Prop :=
  ∀ p process', d'.process p = some process' →
    ∃ process, d.process p = some process ∧ process'.badmatch = process.badmatch

theorem SameBadmatch.refl (h : d'.process = d.process) : SameBadmatch d d' :=
  fun _ process' hp => ⟨process', h ▸ hp, rfl⟩

theorem dispatchMsgSingle_badmatch (h : dispatchMsgSingle q msg d = .ok d') : SameBadmatch d d' := by
  obtain ⟨process, hp, hcase⟩ := dispatchMsgSingle_cases h
  have hproc : d'.process = Function.update d.process q
      (some { process with inbox := (process.inbox.put msg).2 }) := by
    rcases hcase with ⟨_, rfl⟩ | ⟨_, _, busy, heads, _, rfl⟩ <;> rfl
  intro a process' ha
  rw [hproc] at ha
  by_cases haq : a = q
  · subst haq
    rw [Function.update_self] at ha
    obtain rfl := Option.some.inj ha
    exact ⟨process, hp, rfl⟩
  · rw [Function.update_of_ne haq] at ha
    exact ⟨process', ha, rfl⟩

theorem Sends.badmatch {T : List ProcId} (h : Sends T d d') : SameBadmatch d d' := by
  induction h with
  | refl => exact .refl rfl
  | quiet _ hq ih => exact fun a pr ha => ih a pr (by cases hq <;> exact ha)
  | single q msg _ _ hd ih =>
      intro a process' ha
      obtain ⟨process₁, h₁, heq₁⟩ := dispatchMsgSingle_badmatch hd a process' ha
      obtain ⟨process, hp, heq⟩ := ih a process₁ h₁
      exact ⟨process, hp, heq₁.trans heq⟩

/-! ## It goes on holding -/

/-- Nobody who was alive has died. -/
theorem isSome_addProcess (poff : Nat) (umap : UmapRoot ProcId) (receiveCallback : Option Nat)
    (hungry : Bool) (hp : (d.process p).isSome) :
    ((d.addProcess poff umap receiveCallback hungry).process p).isSome := by
  by_cases hpn : p = d.nextProc
  · subst hpn
    simp [Domain.addProcess]
  · simpa [Domain.addProcess, Function.update_of_ne hpn] using hp

theorem isSome_setProcess {process : Process} (hp : (d.process p).isSome) :
    ((d.setProcess q process).process p).isSome := by
  by_cases hpq : p = q
  · subst hpq
    simp [Domain.setProcess]
  · simpa [Domain.setProcess, Function.update_of_ne hpq] using hp

theorem called_current {call : Api} (h : Called env d call d') (hr' : Routed d'.roster)
    (hc : ∀ p ∈ d.current, (d.process p).isSome) : ∀ p ∈ d'.current, (d'.process p).isSome := by
  intro p hp
  cases h with
  | send target msgType msgPayload msgPayloadSz _ h =>
      rw [isSome_of_roster (sendIndirect_sends h).roster]
      exact hc p ((sendIndirect_sends h).frame.current ▸ hp)
  | spawn receiveCallback q _ h =>
      obtain ⟨_, poff, umap, _, _, rfl⟩ := processNew_cases h
      exact isSome_addProcess poff umap receiveCallback false (hc p hp)
  | spawn2 _ h =>
      obtain ⟨poff, umap, q, _, _, hget, rfl⟩ := spawnConstructor_cases h
      rcases List.mem_cons.1 hp with rfl | hp
      · simpa [Domain.roster] using congrArg Option.isSome (hr'.answers _ p hget)
      · exact isSome_addProcess poff umap none false (hc p hp)
  | constructed cur oldproc hcur _ => exact hc p (hcur ▸ List.mem_cons_of_mem cur hp)
  | receive receiveCallback cur oldproc d₁ _ h =>
      obtain ⟨process, badmatch, inbox, _, _, rfl⟩ := msockReceive_cases h
      exact isSome_setProcess (hc p hp)
  | loopexit _ h =>
      rw [isSome_of_roster (sendBroadcast_sends h).roster]
      exact hc p ((sendBroadcast_sends h).frame.current ▸ hp)
  | memoryCollect d₁ _ h =>
      have hlive := isSome_of_roster (sendBroadcast_sends h).roster p
      exact hlive.trans (hc p ((sendBroadcast_sends h).frame.current ▸ hp))

/-- Who is current stays alive. -/
theorem stepped_current {a : Act} (h : Stepped env d a d') (hr' : Routed d'.roster)
    (hl' : RunningLive d') (hc : ∀ p ∈ d.current, (d.process p).isSome) :
    ∀ p ∈ d'.current, (d'.process p).isSome := by
  intro p hp
  cases h with
  | baseSend target msgType msgPayload msgPayloadSz d₁ _ h =>
      have hlive := isSome_of_roster (sendIndirect_sends h).roster p
      exact hlive.trans (hc p ((sendIndirect_sends h).frame.current ▸ hp))
  | baseSpawn receiveCallback hungry q _ h =>
      obtain ⟨_, poff, umap, _, _, rfl⟩ := processNew_cases h
      exact isSome_addProcess poff umap receiveCallback hungry (hc p hp)
  | baseSpawn2 _ h =>
      obtain ⟨poff, umap, q, _, _, hget, rfl⟩ := spawnConstructor_cases h
      rcases List.mem_cons.1 hp with rfl | hp
      · simpa [Domain.roster] using congrArg Option.isSome (hr'.answers _ p hget)
      · exact isSome_addProcess poff umap none false (hc p hp)
  | api call _ h => exact called_current h hr' hc p hp
  | arrive | pick | mark | splice | dispatchNone | queueNone | retOk | nextDone | retire | requeue =>
      exact hc p hp
  | dispatchOne again counter msg localInbox delivered d₁ _ _ h =>
      have hlive := isSome_of_roster (dispatchMsgLocal_sends h).roster p
      exact hlive.trans (hc p ((dispatchMsgLocal_sends h).frame.current ▸ hp))
  | queueOne q busy heads _ _ =>
      rw [List.mem_singleton.1 hp]
      exact hl' q rfl
  | inboxNone | retExit => cases hp
  | inboxOne q process msg inbox _ _ _ _ => exact isSome_setProcess (hc p hp)
  | retBadmatch q msg received process _ _ _ => exact isSome_setProcess (hc p hp)
  | flushTake victim gid counter back _ =>
      have hsched := flushTake_sched gid counter back victim d
      have hcurrent : (flushTake gid counter back victim d).current = d.current :=
        congrArg Sched.current hsched
      have hprocess : (flushTake gid counter back victim d).process = d.process :=
        congrArg Sched.process hsched
      rw [hprocess]
      exact hc p (hcurrent ▸ hp)
  | flushWake dequeued gid counter back _ => cases dequeued <;> exact hc p hp
  | nextNested egress q _ _ h =>
      obtain ⟨process, d₁, _, hsend, rfl⟩ := sendQueueEmpty_cases h
      have hlive := isSome_of_roster (sendIndirect_sends hsend).roster p
      exact hlive.trans (hc p ((sendIndirect_sends hsend).frame.current ▸ hp))

/-- Every process's set-aside messages are found through `last`. -/
def BadmatchWhole (d : Domain) : Prop :=
  ∀ p process, d.process p = some process → process.badmatch.Whole

theorem SameBadmatch.whole (h : SameBadmatch d d') (hw : BadmatchWhole d) : BadmatchWhole d' := by
  intro p process' hp
  obtain ⟨process, hproc, heq⟩ := h p process' hp
  rw [heq]
  exact hw p process hproc

theorem badmatchWhole_set {process : Process} (hw : BadmatchWhole d)
    (hprocess : process.badmatch.Whole) (h : d'.process = Function.update d.process q (some process)) :
    BadmatchWhole d' := by
  intro p process' hp
  rw [h] at hp
  by_cases hpq : p = q
  · subst hpq
    rw [Function.update_self] at hp
    obtain rfl := Option.some.inj hp
    exact hprocess
  · rw [Function.update_of_ne hpq] at hp
    exact hw p process' hp

theorem called_badmatch {call : Api} (h : Called env d call d') (hw : BadmatchWhole d) :
    BadmatchWhole d' := by
  cases h with
  | send target msgType msgPayload msgPayloadSz _ h => exact (sendIndirect_sends h).badmatch.whole hw
  | spawn receiveCallback q _ h =>
      obtain ⟨_, poff, umap, _, _, rfl⟩ := processNew_cases h
      exact badmatchWhole_set hw Queue.whole_init rfl
  | spawn2 _ h =>
      obtain ⟨poff, umap, q, _, _, _, rfl⟩ := spawnConstructor_cases h
      exact badmatchWhole_set hw Queue.whole_init rfl
  | constructed cur oldproc _ _ => exact hw
  | receive receiveCallback cur oldproc d₁ _ h =>
      obtain ⟨process, badmatch, inbox, hp, hsplice, rfl⟩ := msockReceive_cases h
      obtain ⟨src, dst, hspec, hsrc, _, _⟩ := (hw cur process hp).splicePrepend process.inbox
      obtain ⟨rfl, rfl⟩ : src = badmatch ∧ dst = inbox := by simpa [hspec] using hsplice
      exact badmatchWhole_set hw (fun hne => absurd hsrc hne) rfl
  | loopexit _ h => exact (sendBroadcast_sends h).badmatch.whole hw
  | memoryCollect d₁ _ h => exact (sendBroadcast_sends h).badmatch.whole hw

theorem stepped_badmatch {a : Act} (h : Stepped env d a d') (hw : BadmatchWhole d) :
    BadmatchWhole d' := by
  cases h with
  | baseSend target msgType msgPayload msgPayloadSz d₁ _ h =>
      exact (sendIndirect_sends h).badmatch.whole hw
  | baseSpawn receiveCallback hungry q _ h =>
      obtain ⟨_, poff, umap, _, _, rfl⟩ := processNew_cases h
      exact badmatchWhole_set hw Queue.whole_init rfl
  | baseSpawn2 _ h =>
      obtain ⟨poff, umap, q, _, _, _, rfl⟩ := spawnConstructor_cases h
      exact badmatchWhole_set hw Queue.whole_init rfl
  | api call _ h => exact called_badmatch h hw
  | arrive | pick | mark | splice | dispatchNone | queueNone | queueOne | inboxNone | retOk | nextDone
    | retire | requeue => exact hw
  | dispatchOne again counter msg localInbox delivered d₁ _ _ h =>
      have hw₁ : BadmatchWhole { d with localInbox := localInbox } := hw
      exact (dispatchMsgLocal_sends h).badmatch.whole hw₁
  | inboxOne q process msg inbox _ hp _ _ =>
      have hkept : ({ process with inbox := inbox } : Process).badmatch.Whole := hw q process hp
      exact badmatchWhole_set hw hkept rfl
  | retBadmatch q msg received process _ _ _ => exact badmatchWhole_set hw (Queue.whole_put _ _) rfl
  | retExit q msg received d₁ _ _ h =>
      obtain ⟨process, umap, _, busy, heads, _, _, _, _, rfl⟩ := processFree_cases h
      intro p process' hp
      by_cases hpq : p = q
      · subst hpq
        simp [Domain.removeProcess] at hp
      · simp only [Domain.removeProcess, Function.update_of_ne hpq] at hp
        exact hw p process' hp
  | flushTake victim gid counter back _ =>
      have hprocess : (flushTake gid counter back victim d).process = d.process :=
        congrArg Sched.process (flushTake_sched gid counter back victim d)
      exact (SameBadmatch.refl hprocess).whole hw
  | flushWake dequeued gid counter back _ => cases dequeued <;> exact hw
  | nextNested egress q _ _ h =>
      obtain ⟨process, d₁, _, hsend, rfl⟩ := sendQueueEmpty_cases h
      exact (sendIndirect_sends hsend).badmatch.whole hw

/-- **What the code relies on is kept** by every act that puts safely and keeps the cursor. -/
theorem standing_step {a : Env × Act} (h : d.Standing) (hs : safeAct d a) (hk : keepsCursor d a)
    (hact : d.act a = .ok d') : d'.Standing := by
  have hstepped := step_cases hact
  have hrouted := routed_step h.routed (act_roster hact)
  have hrunning := stepped_live h.busy h.running hstepped
  exact ⟨hrouted, busy_step h.busy hs hact, hrunning, stepped_walking h.walking (fun _ => hk) hstepped,
    stepped_current hstepped hrouted hrunning h.current, stepped_badmatch hstepped h.badmatch⟩

theorem standing_new {gid maxProcesses : Nat} (hpos : 0 < gid) (hgid : gid < maxDomains)
    (h0 : 0 < maxProcesses) (hsz : maxProcesses < 2 ^ 31) :
    (Domain.new gid maxProcesses).Standing where
  routed := routed_new hpos hgid h0 hsz
  busy := busy_init hgid
  running := fun _ hp => by cases hp
  walking := walking_new gid maxProcesses
  current := fun _ hp => by cases hp
  badmatch := fun _ _ hp => by cases hp

/-! ## Messages are put -/

/-- A message is put to a living process that may be put to. -/
theorem dispatchMsgSingle_total (ho : d.Ordered r) (hlive : (d.process p).isSome)
    (hs : d.sched.SafePut p) (msg : Message) : ∃ d', dispatchMsgSingle p msg d = .ok d' := by
  obtain ⟨process, hp⟩ := Option.isSome_iff_exists.1 hlive
  obtain ⟨q, hq⟩ := ho
  rw [dispatchMsgSingle, bind_ok (access_eq_ok.2 hp)]
  dsimp only
  split
  · rename_i hempty
    have hl : process.inbox.lastSet = false := by
      rw [Queue.put_fst] at hempty
      simpa using hempty
    obtain ⟨b, root, heads, _, hput, _⟩ := hq.enqueue hlive (hs process hp hl)
    exact ⟨_, bind_ok (access_eq_ok.2 hput)⟩
  · exact ⟨_, rfl⟩

theorem dispatchClones_total {ps : List ProcId} (ho : d.Ordered r)
    (hlive : ∀ p ∈ ps, (d.process p).isSome) (hs : ∀ p ∈ ps, d.sched.SafePut p) :
    ∃ d', dispatchClones msg ps d = .ok d' := by
  induction ps generalizing d with
  | nil => exact ⟨d, rfl⟩
  | cons p ps ih =>
      have ho₁ : (messageClone msg d).2.Ordered r := ho
      have hs₁ : (messageClone msg d).2.sched.SafePut p := hs p List.mem_cons_self
      obtain ⟨d₁, h₁⟩ := dispatchMsgSingle_total ho₁ (hlive p List.mem_cons_self) hs₁
        (messageClone msg d).1
      have hputs := dispatchMsgSingle_puts ho₁ h₁ hs₁
      obtain ⟨d', h'⟩ := ih hputs.ordered
        (fun q hq => by
          rw [isSome_of_roster (dispatchMsgSingle_roster h₁)]
          exact hlive q (List.mem_cons_of_mem _ hq))
        (fun q hq => hputs.safe q (hs q (List.mem_cons_of_mem _ hq)))
      refine ⟨d', ?_⟩
      rw [dispatchClones]
      exact (bind_ok h₁).trans h'

/-- **A message whose targets may be put to is dispatched.** -/
theorem dispatchMsgLocal_total (ho : d.Ordered r) (hr : Routed d.roster)
    (hs : ∀ p ∈ dispatchTargets msg.target msg.msgType d, d.sched.SafePut p) :
    ∃ k d', dispatchMsgLocal msg d = .ok (k, d') := by
  have hlive : ∀ p, (d.roster.pid p).isSome → (d.process p).isSome := fun p hp => by
    simpa [Domain.roster] using hp
  unfold dispatchTargets at hs
  unfold dispatchMsgLocal
  dsimp only
  split
  · rename_i hpoff
    rw [if_pos hpoff] at hs
    split
    · rename_i p hget
      have hp : (d.process p).isSome := hlive p (by rw [hr.answers _ p hget]; rfl)
      obtain ⟨d', h⟩ := dispatchMsgSingle_total ho hp (hs p (by rw [hget]; exact List.mem_singleton_self p)) msg
      exact ⟨1, d', bind_ok h⟩
    · exact ⟨0, _, rfl⟩
  · rename_i hpoff
    rw [if_neg hpoff] at hs
    split
    · rename_i hty
      rw [if_pos hty] at hs
      have hclones : ∃ d', dispatchClones msg d.listOfProcesses d = .ok d' :=
        dispatchClones_total ho (fun p hp => hlive p ((hr.listed p).1 hp)) hs
      obtain ⟨d', h⟩ := hclones
      refine ⟨1, freeMessage msg d', ?_⟩
      have hb : dispatchMsgBroadcast msg d = .ok (freeMessage msg d') := by
        rw [dispatchMsgBroadcast]
        exact bind_ok h
      exact bind_ok hb
    · rename_i hty
      have hgc : msg.msgType = msgGc := Classical.not_not.1 hty
      refine ⟨1, (freeMessage msg d).emit .drain, ?_⟩
      rw [dispatchSpecial, if_pos hgc]
      rfl

/-! ## Processes come and go -/

/-- `process_new` at most finds no slot. -/
theorem processNew_sound (hr : Routed d.roster) (receiveCallback : Option Nat) (hungry : Bool) :
    Sound (processNew receiveCallback hungry d) := by
  unfold processNew
  dsimp only
  split
  · rename_i hadd
    have hadd : umapAdd d.roster.umap d.nextProc = none := hadd
    exact absurd hadd (hr.umap.add_isSome d.nextProc)
  · split
    · exact sound_fatal _
    · exact sound_ok _

/-- The process that is made is found by its pid. -/
theorem spawnConstructor_sound (hr : Routed d.roster) : Sound (spawnConstructor d) := by
  refine sound_bind (processNew_sound hr none false) fun result hnew => ?_
  obtain ⟨p, d₁⟩ := result
  have hr₁ : Routed d₁.roster := routed_step hr (processNew_roster hnew).step
  obtain ⟨rfl, poff, umap, hadd, hpoff, rfl⟩ := processNew_cases hnew
  have hp : (d.addProcess poff umap none false).process d.nextProc
      = some ⟨poffGidToPid poff d.gid, Queue.init, Queue.init, none⟩ := by
    simp [Domain.addProcess]
  obtain ⟨_, _, hget⟩ := hr₁.pid_fields (Domain.roster_pid hp)
  dsimp only
  rw [bind_ok (access_eq_ok.2 hp)]
  have hget : umapGet (d.addProcess poff umap none false).poffToProcess
      (pidToPoff (poffGidToPid poff d.gid)) = some d.nextProc := hget
  dsimp only
  rw [bind_ok (access_eq_ok.2 hget)]
  exact sound_ok _

/-- `process_free` of a living process. -/
theorem processFree_total (ho : d.Ordered r) (hr : Routed d.roster)
    (hlive : (d.process p).isSome) : ∃ d', processFree p d = .ok d' := by
  obtain ⟨process, hp⟩ := Option.isSome_iff_exists.1 hlive
  obtain ⟨umap, humap, _⟩ := hr.umap.del (hr.pid_fields (Domain.roster_pid hp)).2.2
  have humap : umapDel d.poffToProcess (pidToPoff process.pid) = some umap := humap
  obtain ⟨q, hq⟩ := ho
  obtain ⟨enqueued, root, heads, _, henqueued, hdel, _⟩ := hq.busyDel hlive
  have hbusy : ∃ result, busyDel p d = .ok result := by
    have he : queueIsEnqueued d.inBusyQueue p = some enqueued := henqueued
    rw [busyDel, bind_ok (access_eq_ok.2 he)]
    rcases hdel with ⟨rfl, hdel⟩ | ⟨rfl, _, _⟩
    · have hdel : queueSlowDel (d.listOfProcesses.length + 1) p d.queueOfBusyProcesses d.inBusyQueue
          = some (root, heads) := hdel
      rw [if_pos rfl, hdel]
      exact ⟨_, rfl⟩
    · exact ⟨_, rfl⟩
  obtain ⟨⟨busy, heads'⟩, hbusy⟩ := hbusy
  rw [processFree, bind_ok (access_eq_ok.2 hp), bind_ok (access_eq_ok.2 humap), bind_ok hbusy]
  exact ⟨_, rfl⟩

/-- `msock_receive` of a living process. -/
theorem msockReceive_total {receiveCallback : Option Nat} (hlive : (d.process p).isSome)
    (hw : ∀ process, d.process p = some process → process.badmatch.Whole) :
    ∃ d', msockReceive p receiveCallback d = .ok d' := by
  obtain ⟨process, hp⟩ := Option.isSome_iff_exists.1 hlive
  obtain ⟨badmatch, inbox, hsplice, _⟩ := (hw process hp).splicePrepend process.inbox
  rw [msockReceive, bind_ok (access_eq_ok.2 hp), bind_ok (access_eq_ok.2 hsplice)]
  exact ⟨_, rfl⟩

/-- The queue of busy processes can be taken from. -/
theorem queueRunTurn_total (ho : d.Ordered none) : ∃ d', queueRunTurn d = .ok d' := by
  obtain ⟨q, hq⟩ := ho
  have hrepr := hq.repr.get
  have hget : ∃ result, queueGet d.queueOfBusyProcesses d.inBusyQueue = some result := by
    cases hg : q.get with
    | none =>
        rw [hg] at hrepr
        exact ⟨_, hrepr⟩
    | some item =>
        rw [hg] at hrepr
        obtain ⟨root', hget, _⟩ := hrepr
        exact ⟨_, hget⟩
  obtain ⟨⟨head, busy, heads⟩, hget⟩ := hget
  rw [queueRunTurn, bind_ok (access_eq_ok.2 hget)]
  cases head with
  | none => exact ⟨_, rfl⟩
  | some p => exact ⟨_, rfl⟩

end Msock
