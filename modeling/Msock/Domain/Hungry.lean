import Msock.Domain.Routing

/-!
# The walk over hungry processes

`worker_domain_run` keeps a cursor on `list_of_hungry_processes` across a whole nested
`domain_run`, which may run the process under the cursor and free it. That happens
in one way: the callback of that very process returns `RECV_EXIT` in the nested run,
which for an engine means that a `MSG_EXIT` came in between the two splices. In every
other run the cursor stays on the list.
-/

namespace Msock

open Lib

/-- The worker is inside `worker_domain_run`. -/
def Phase.walking : Phase → Bool
  | .entered => true
  | .dispatching _ _ => true
  | .queueRun => true
  | .processRun _ => true
  | .callback _ _ _ => true
  | .flush _ _ _ .domainRun => true
  | .flush _ _ _ (.callback _ _ _) => true
  | .ran _ => true
  | _ => false

/-- The lists that the walk goes over, and, as far as `kept`, its cursor. -/
structure Walking (kept : Prop) (d : Domain) : Prop where
  /-- Every hungry process is alive. -/
  sub : d.listOfHungryProcesses.Sublist d.listOfProcesses
  /-- The cursor is on the list. -/
  cursor : kept → d.phase.walking = true → ∀ p, d.cursor = some p → p ∈ d.listOfHungryProcesses

/-- The process under the cursor does not return `RECV_EXIT`. -/
def keepsCursor (d : Domain) (a : Env × Act) : Prop :=
  a.2 = .ret .exit → ∀ p, d.cursor = some p → d.running ≠ some p

instance (d : Domain) (a : Env × Act) : Decidable (keepsCursor d a) :=
  match hc : d.cursor with
  | none => isTrue (fun _ p hp => by rw [hc] at hp; cases hp)
  | some q =>
      decidable_of_iff (a.2 = .ret .exit → d.running ≠ some q)
        ⟨fun h he p hp => by
          rw [hc] at hp
          cases hp
          exact h he, fun h he => h he q hc⟩

section Walk
variable {d d' : Domain} {p : ProcId} {msg : Message} {env : Env} {T : List ProcId}
  {kept : Prop}

/-- What sending leaves alone of the walk. -/
theorem Quiet.hungry (h : Quiet d d') : d'.listOfHungryProcesses = d.listOfHungryProcesses ∧
    d'.cursor = d.cursor := by
  cases h <;> exact ⟨rfl, rfl⟩

theorem Sends.hungry (h : Sends T d d') : d'.listOfHungryProcesses = d.listOfHungryProcesses ∧
    d'.cursor = d.cursor := by
  induction h with
  | refl => exact ⟨rfl, rfl⟩
  | quiet _ hq ih =>
      obtain ⟨hl, hc⟩ := hq.hungry
      exact ⟨hl.trans ih.1, hc.trans ih.2⟩
  | single p msg _ _ hd ih =>
      obtain ⟨process, _, ⟨_, rfl⟩ | ⟨_, _, busy, heads, _, rfl⟩⟩ := dispatchMsgSingle_cases hd
      · exact ih
      · exact ih

/-- A change that leaves the walk alone. -/
theorem Walking.congr (h : Walking kept d) (hlist : d'.listOfProcesses = d.listOfProcesses)
    (hhungry : d'.listOfHungryProcesses = d.listOfHungryProcesses) (hcursor : d'.cursor = d.cursor)
    (hphase : d'.phase.walking = true → d.phase.walking = true) : Walking kept d' := by
  refine ⟨?_, fun hk hw p hp => ?_⟩
  · rw [hhungry, hlist]
    exact h.sub
  · rw [hcursor] at hp
    rw [hhungry]
    exact h.cursor hk (hphase hw) p hp

theorem Sends.walking (h : Sends T d d') (hw : Walking kept d) : Walking kept d' :=
  hw.congr h.frame.listOfProcesses h.hungry.1 h.hungry.2 (fun hp => by rwa [h.frame.phase] at hp)

theorem addProcess_walking (hw : Walking kept d) (poff : Nat) (umap : UmapRoot ProcId)
    (receiveCallback : Option Nat) (hungry : Bool) :
    Walking kept (d.addProcess poff umap receiveCallback hungry) := by
  cases hungry with
  | false => exact ⟨hw.sub.cons _, hw.cursor⟩
  | true =>
      exact ⟨hw.sub.cons_cons _, fun hk hp p hc => List.mem_cons_of_mem _ (hw.cursor hk hp p hc)⟩

theorem processNew_walking {receiveCallback : Option Nat} {hungry : Bool} (hw : Walking kept d)
    (h : processNew receiveCallback hungry d = .ok (p, d')) : Walking kept d' := by
  obtain ⟨_, poff, umap, _, _, rfl⟩ := processNew_cases h
  exact addProcess_walking hw poff umap receiveCallback hungry

theorem spawnConstructor_walking (hw : Walking kept d) (h : spawnConstructor d = .ok d') :
    Walking kept d' := by
  obtain ⟨poff, umap, q, _, _, _, rfl⟩ := spawnConstructor_cases h
  exact (addProcess_walking hw poff umap none false).congr rfl rfl rfl id

theorem walking_noteReceive (q : ProcId) (phase : Phase) :
    (phase.noteReceive q).walking = phase.walking := by
  cases phase <;> rfl

/-- A flush that the callback called goes on inside `worker_domain_run`. -/
theorem walking_flushFrom (phase : Phase)
    (h : phase = .idle ∨ ∃ p msg received, phase = .callback p msg received) :
    (Phase.flush 0 0 false phase.flushFrom).walking = phase.walking := by
  rcases h with rfl | ⟨p, msg, received, rfl⟩ <;> rfl

theorem called_walking {call : Api} (hw : Walking kept d)
    (hphase : d.phase = .idle ∨ ∃ p msg received, d.phase = .callback p msg received)
    (h : Called env d call d') : Walking kept d' := by
  cases h with
  | send target msgType msgPayload msgPayloadSz _ h => exact (sendIndirect_sends h).walking hw
  | spawn receiveCallback p _ h => exact processNew_walking hw h
  | spawn2 _ h => exact spawnConstructor_walking hw h
  | constructed cur oldproc _ _ => exact hw.congr rfl rfl rfl id
  | receive receiveCallback cur oldproc d₁ _ h =>
      obtain ⟨process, badmatch, inbox, _, _, rfl⟩ := msockReceive_cases h
      refine hw.congr rfl rfl rfl (fun hp => ?_)
      rw [walking_noteReceive] at hp
      exact hp
  | loopexit _ h => exact (sendBroadcast_sends h).walking hw
  | memoryCollect d₁ _ h =>
      have hs := sendBroadcast_sends h
      refine (hs.walking hw).congr rfl rfl rfl (fun hp => ?_)
      rw [walking_flushFrom d₁.phase (by rw [hs.frame.phase]; exact hphase)] at hp
      exact hp

theorem flushTake_walking {gid counter : Nat} {back : FlushFrom} (victim : Bool) (hw : Walking kept d)
    (hphase : d.phase = .flush gid counter false back) :
    Walking kept (flushTake gid counter back victim d) := by
  have hback : ∀ g c s, (Phase.flush g c s back).walking = true → d.phase.walking = true := by
    intro g c s hp
    rw [hphase]
    cases back <;> first | rfl | cases hp
  unfold flushTake
  split
  · refine hw.congr rfl rfl rfl (fun hp => ?_)
    rw [hphase]
    cases back <;> first | rfl | cases hp
  · split
    · exact hw.congr rfl rfl rfl (hback _ _ _)
    · split
      · exact hw.congr rfl rfl rfl (hback _ _ _)
      · rw [drainMessageQueue_eq]
        exact hw.congr rfl rfl rfl (hback _ _ _)

/-- **Every act keeps the cursor on the list, unless it frees the process under it.** -/
theorem stepped_walking {a : Act} (hw : Walking kept d) (hok : kept → keepsCursor d (env, a))
    (h : Stepped env d a d') : Walking kept d' := by
  cases h with
  | arrive qr => exact hw.congr rfl rfl rfl id
  | baseSend target msgType msgPayload msgPayloadSz d₁ hphase h =>
      exact ((sendIndirect_sends h).walking hw).congr rfl rfl rfl (fun hp => by cases hp)
  | baseSpawn receiveCallback hungry p _ h => exact processNew_walking hw h
  | baseSpawn2 _ h => exact spawnConstructor_walking hw h
  | api call hphase h => exact called_walking hw hphase h
  | pick _ _ => exact hw.congr rfl rfl rfl (fun hp => by cases hp)
  | mark hphase =>
      -- a run of the domain starts with no cursor
      refine ⟨hw.sub, fun _ _ p hp => ?_⟩
      cases hp
  | splice hphase => exact hw.congr rfl rfl rfl (fun _ => by rw [hphase]; rfl)
  | dispatchNone again counter hphase _ =>
      exact hw.congr rfl rfl rfl (fun _ => by rw [hphase]; rfl)
  | dispatchOne again counter msg localInbox delivered d₁ hphase _ h =>
      have hbefore : Walking kept { d with localInbox := localInbox } := hw.congr rfl rfl rfl id
      have hs := dispatchMsgLocal_sends h
      refine (hs.walking hbefore).congr rfl rfl rfl (fun _ => ?_)
      rw [hs.frame.phase]
      dsimp only
      rw [hphase]
      rfl
  | queueNone busy heads hphase _ => exact hw.congr rfl rfl rfl (fun _ => by rw [hphase]; rfl)
  | queueOne p busy heads hphase _ => exact hw.congr rfl rfl rfl (fun _ => by rw [hphase]; rfl)
  | inboxNone p process hphase _ _ => exact hw.congr rfl rfl rfl (fun _ => by rw [hphase]; rfl)
  | inboxOne p process msg inbox hphase _ _ _ =>
      exact hw.congr rfl rfl rfl (fun _ => by rw [hphase]; rfl)
  | retOk p msg received hphase _ => exact hw.congr rfl rfl rfl (fun _ => by rw [hphase]; rfl)
  | retBadmatch p msg received process hphase _ _ =>
      exact hw.congr rfl rfl rfl (fun _ => by rw [hphase]; rfl)
  | retExit p msg received d₁ hphase _ h =>
      obtain ⟨process, umap, _, busy, heads, _, _, _, _, rfl⟩ := processFree_cases h
      have hwalk : d.phase.walking = true := by rw [hphase]; rfl
      refine ⟨hw.sub.erase p, fun hk _ q hq => ?_⟩
      -- the process freed is the running one, and that is not under the cursor
      have hne : q ≠ p := by
        intro he
        refine hok hk rfl q hq ?_
        rw [Domain.running, hphase, he]
        rfl
      exact (List.mem_erase_of_ne hne).mpr (hw.cursor hk hwalk q hq)
  | flushTake victim gid counter back hphase => exact flushTake_walking victim hw hphase
  | flushWake dequeued gid counter back hphase =>
      have hback : (Phase.flush (gid + 1) (counter + 1) false back).walking = true →
          d.phase.walking = true := by
        intro hp
        rw [hphase]
        cases back <;> first | rfl | cases hp
      cases dequeued
      · exact hw.congr rfl rfl rfl hback
      · exact hw.congr rfl rfl rfl hback
  | nextNested egress p hphase hnext h =>
      obtain ⟨process, d₁, _, hsend, rfl⟩ := sendQueueEmpty_cases h
      have hs := sendIndirect_sends hsend
      refine ⟨(hs.walking hw).sub, fun _ _ q hq => ?_⟩
      obtain rfl : p = q := Option.some.inj hq
      -- the next process is taken off the list itself
      show p ∈ d₁.listOfHungryProcesses
      rw [hs.hungry.1]
      unfold nextHungry at hnext
      split at hnext
      · split at hnext
        · exact List.mem_of_mem_head? hnext
        · cases hnext
      · exact (List.dropWhile_suffix _).subset (List.mem_of_getElem? hnext)
  | nextDone egress cursor hphase => exact ⟨hw.sub, fun _ hp => by cases hp⟩
  | retire hphase _ => exact hw.congr rfl rfl rfl (fun hp => by cases hp)
  | requeue hphase _ => exact hw.congr rfl rfl rfl (fun hp => by cases hp)

/-- Only the constructor of an engine makes a hungry process. -/
theorem stepped_hungry {a : Act} (h : Stepped env d a d')
    (ha : ∀ receiveCallback, a ≠ .baseSpawn receiveCallback true) :
    d'.listOfHungryProcesses.Sublist d.listOfHungryProcesses := by
  have hsame : ∀ {l l' : List ProcId}, l' = l → l'.Sublist l := fun h => h ▸ List.Sublist.refl _
  have hspawn : ∀ {cb p d'}, processNew cb false d = .ok (p, d') →
      d'.listOfHungryProcesses = d.listOfHungryProcesses := by
    intro cb p d' h
    obtain ⟨_, poff, umap, _, _, rfl⟩ := processNew_cases h
    rfl
  have hctor : ∀ {d'}, spawnConstructor d = .ok d' →
      d'.listOfHungryProcesses = d.listOfHungryProcesses := by
    intro d' h
    obtain ⟨poff, umap, q, _, _, _, rfl⟩ := spawnConstructor_cases h
    rfl
  cases h with
  | arrive qr => exact List.Sublist.refl _
  | baseSend target msgType msgPayload msgPayloadSz d₁ _ h =>
      exact hsame (sendIndirect_sends h).hungry.1
  | baseSpawn receiveCallback hungry p _ h =>
      cases hungry with
      | false => exact hsame (hspawn h)
      | true => exact absurd rfl (ha receiveCallback)
  | baseSpawn2 _ h => exact hsame (hctor h)
  | api call _ h =>
      cases h with
      | send target msgType msgPayload msgPayloadSz _ h =>
          exact hsame (sendIndirect_sends h).hungry.1
      | spawn receiveCallback p _ h => exact hsame (hspawn h)
      | spawn2 _ h => exact hsame (hctor h)
      | constructed cur oldproc _ _ => exact List.Sublist.refl _
      | receive receiveCallback cur oldproc d₁ _ h =>
          obtain ⟨process, badmatch, inbox, _, _, rfl⟩ := msockReceive_cases h
          exact List.Sublist.refl _
      | loopexit _ h => exact hsame (sendBroadcast_sends h).hungry.1
      | memoryCollect d₁ _ h => exact hsame (sendBroadcast_sends h).hungry.1
  | pick | mark | splice | dispatchNone | queueNone | queueOne | inboxNone | inboxOne | retOk
    | retBadmatch | nextDone | retire | requeue => exact List.Sublist.refl _
  | dispatchOne again counter msg localInbox delivered d₁ _ _ h =>
      exact hsame (dispatchMsgLocal_sends h).hungry.1
  | retExit p msg received d₁ _ _ h =>
      obtain ⟨process, umap, _, busy, heads, _, _, _, _, rfl⟩ := processFree_cases h
      exact List.erase_sublist
  | flushTake victim gid counter back _ =>
      unfold flushTake
      split
      · exact List.Sublist.refl _
      · split
        · exact List.Sublist.refl _
        · split
          · exact List.Sublist.refl _
          · rw [drainMessageQueue_eq]
  | flushWake dequeued gid counter back _ => cases dequeued <;> exact List.Sublist.refl _
  | nextNested egress p _ _ h =>
      obtain ⟨process, d₁, _, hsend, rfl⟩ := sendQueueEmpty_cases h
      exact hsame (sendIndirect_sends hsend).hungry.1

theorem walking_new (gid maxProcesses : Nat) : Walking kept (Domain.new gid maxProcesses) where
  sub := List.Sublist.refl _
  cursor := fun _ _ p hp => by cases hp

theorem walking_reachable {gid maxProcesses : Nat}
    (hr : Runs Domain.act keepsCursor (Domain.new gid maxProcesses) d) : Walking True d :=
  hr.invariant (fun _ _ _ hi hok hact => stepped_walking hi (fun _ => hok) (step_cases hact))
    (walking_new gid maxProcesses)

/-- In any run the hungry processes are among the living. -/
theorem hungry_sublist {ok : Domain → Env × Act → Prop} {gid maxProcesses : Nat}
    (hr : Runs Domain.act ok (Domain.new gid maxProcesses) d) :
    d.listOfHungryProcesses.Sublist d.listOfProcesses := by
  have hw : Walking False d :=
    hr.invariant (fun _ _ _ hi _ hact => stepped_walking hi False.elim (step_cases hact))
      (walking_new gid maxProcesses)
  exact hw.sub

end Walk

/--
**The walk stays on the list.** In every run in which the process under the cursor does
not exit, whenever `worker_domain_run` advances its cursor, the process under it is a
living member of `list_of_hungry_processes`.
-/
theorem hungry_walk_stays_on_list {gid maxProcesses : Nat} {d : Domain} (hpos : 0 < gid)
    (hgid : gid < maxDomains) (h0 : 0 < maxProcesses) (hsz : maxProcesses < 2 ^ 31)
    (hr : Runs Domain.act keepsCursor (Domain.new gid maxProcesses) d) {egress : Nat} {p : ProcId}
    (hphase : d.phase = .ran egress) (hcursor : d.cursor = some p) :
    p ∈ d.listOfHungryProcesses ∧ ∃ process, d.process p = some process := by
  have hw := walking_reachable hr
  have hmem : p ∈ d.listOfHungryProcesses :=
    hw.cursor trivial (by rw [hphase]; rfl) p hcursor
  have hrouted := routed_reachable (routed_new hpos hgid h0 hsz) (hr.weaken (fun _ _ _ => trivial))
  have hlive := (hrouted.listed p).mp (hw.sub.subset hmem)
  obtain ⟨pid, hpid⟩ := Option.isSome_iff_exists.mp hlive
  obtain ⟨process, hp, _⟩ := Option.map_eq_some_iff.mp hpid
  exact ⟨hmem, process, hp⟩

/-- An engine's domain is run up to its second splice, with nothing to do so far. -/
def hungryActs : List (Env × Act) :=
  [.baseSpawn (some 0) true, .pick, .mark, .splice, .dispatch, .nextProcess, .dispatch,
    .flushTake false, .flushTake false, .flushTake false, .flushTake false, .flushTake false,
    .flushTake false, .next].map (Prod.mk ⟨fun _ => 0, [1, 2]⟩)

/-- The nested run: the process blocks, and its callback returns. -/
def nestedActs : List (Env × Act) :=
  [.splice, .dispatch, .nextProcess, .nextMessage, .ret .ok, .nextMessage, .nextProcess,
    .dispatch, .flushTake false, .flushTake false, .flushTake false, .flushTake false,
    .flushTake false, .flushTake false].map (Prod.mk ⟨fun _ => 0, [1, 2]⟩)

/-- The same with a `MSG_EXIT` that came in before the second splice. -/
def nestedExitActs : List (Env × Act) :=
  [.arrive (Queue.ofList [⟨(1, 0), 1, poffGidToPid pidBroadcast 2, msgExit, 0, []⟩]), .splice,
    .dispatch, .dispatch, .nextProcess, .nextMessage, .ret .ok, .nextMessage, .ret .exit,
    .nextProcess, .dispatch, .flushTake false, .flushTake false, .flushTake false,
    .flushTake false, .flushTake false, .flushTake false].map (Prod.mk ⟨fun _ => 0, [1, 2]⟩)

theorem hungry_walk_stays_on_list_idle : ∃ d : Domain, d.phase = .ran 0 ∧
    0 ∈ d.listOfHungryProcesses ∧ ∃ process, d.process 0 = some process := by
  obtain ⟨d, hr, hp⟩ := exists_run (show (runActs Domain.act keepsCursor
      (hungryActs ++ nestedActs) (Domain.new 2 1)).any
        (fun d => d.phase = .ran 0 ∧ d.cursor = some 0) = true by decide +kernel)
  obtain ⟨hphase, hcursor⟩ := of_decide_eq_true hp
  exact ⟨d, hphase, hungry_walk_stays_on_list (by decide) (by decide) (by decide) (by decide) hr
    hphase hcursor⟩

/-- The process under the cursor was freed in the nested run, and its link is followed. -/
theorem hungry_walk_leaves_list : ∃ d : Domain,
    Runs Domain.act anyAct (Domain.new 2 1) d ∧ d.phase = .ran 0 ∧ d.cursor = some 0 ∧
      0 ∉ d.listOfHungryProcesses ∧ d.act (⟨fun _ => 0, [1, 2]⟩, .next) = .error .fault := by
  obtain ⟨d, hr, hp⟩ := exists_run (show (runActs Domain.act anyAct
      (hungryActs ++ nestedExitActs) (Domain.new 2 1)).any
        (fun d => d.phase = .ran 0 ∧ d.cursor = some 0 ∧ d.listOfHungryProcesses = []) = true
      by decide +kernel)
  obtain ⟨hphase, hcursor, hnil⟩ := of_decide_eq_true hp
  refine ⟨d, hr, hphase, hcursor, by rw [hnil]; exact List.not_mem_nil, ?_⟩
  simp [Domain.act, Domain.step, hphase, workerNext, hcursor, hnil]

end Msock
