import Msock.Domain.Sends
import Msock.UmapProof

/-!
# Who is alive in a domain

The roster of a domain is its map of numbers, and its living processes with their pids.
Whatever a domain does, its roster changes in two ways only: a process is added
under a number the map just handed out, or one is removed together with its
number (`RosterStep`). Everything about pids follows from that: while the map is a
partial injection, living processes and answering numbers correspond one to one.
-/

namespace Msock

open Lib

/-- The part of a domain that says who is alive and under which number. -/
structure Roster where
  gid : Nat
  umap : UmapRoot ProcId
  /-- The pids of the processes in memory. -/
  pid : ProcId → Option Pid
  list : List ProcId
  nextProc : Nat

/-- The roster of a domain. -/
def Domain.roster (d : Domain) : Roster where
  gid := d.gid
  umap := d.poffToProcess
  pid := fun p => (d.process p).map Process.pid
  list := d.listOfProcesses
  nextProc := d.nextProc

/-- The roster with a new process numbered `poff`. -/
def Roster.add (r : Roster) (poff : Nat) (umap : UmapRoot ProcId) : Roster :=
  { r with
    umap := umap
    pid := Function.update r.pid r.nextProc (some (poffGidToPid poff r.gid))
    list := r.nextProc :: r.list
    nextProc := r.nextProc + 1 }

/-- The roster without `p`, with its number deleted. -/
def Roster.remove (r : Roster) (p : ProcId) (umap : UmapRoot ProcId) : Roster :=
  { r with
    umap := umap
    pid := Function.update r.pid p none
    list := r.list.erase p }

/-- The ways a roster changes while nobody exits. -/
inductive RosterGrows (r : Roster) : Roster → Prop
  | refl : RosterGrows r r
  | add (poff : Nat) (umap : UmapRoot ProcId) :
      umapAdd r.umap r.nextProc = some (poff, umap) → poff ≠ 0 → RosterGrows r (r.add poff umap)

/-- The ways a roster changes. -/
inductive RosterStep (r : Roster) : Roster → Prop
  | refl : RosterStep r r
  | add (poff : Nat) (umap : UmapRoot ProcId) :
      umapAdd r.umap r.nextProc = some (poff, umap) → poff ≠ 0 → RosterStep r (r.add poff umap)
  | remove (p : ProcId) (pid : Pid) (umap : UmapRoot ProcId) : r.pid p = some pid →
      umapDel r.umap (pidToPoff pid) = some umap → RosterStep r (r.remove p umap)

theorem RosterGrows.step {r r' : Roster} (h : RosterGrows r r') : RosterStep r r' := by
  cases h with
  | refl => exact .refl
  | add poff umap hadd hpoff => exact .add poff umap hadd hpoff

section Frames
variable {d d' : Domain} {p : ProcId} {msg : Message} {env : Env}

/-- Overwriting a process with one of the same pid. -/
theorem roster_setProcess {process : Process} (process' : Process) (hp : d.process p = some process)
    (hpid : process'.pid = process.pid) : (d.setProcess p process').roster = d.roster := by
  have hpids : (fun q => ((d.setProcess p process').process q).map Process.pid)
      = fun q => (d.process q).map Process.pid := by
    funext q
    by_cases hq : q = p
    · subst hq
      simp [Domain.setProcess, hp, hpid]
    · simp [Domain.setProcess, Function.update_of_ne hq]
  unfold Domain.roster
  rw [hpids]
  rfl

theorem roster_putInbox {process : Process} (hp : d.process p = some process) (msg : Message) :
    (d.putInbox p process msg).roster = d.roster :=
  (roster_setProcess { process with inbox := (process.inbox.put msg).2 } hp rfl :)

theorem dispatchMsgSingle_roster (h : dispatchMsgSingle p msg d = .ok d') :
    d'.roster = d.roster := by
  obtain ⟨process, hp, ⟨_, rfl⟩ | ⟨_, _, busy, heads, _, rfl⟩⟩ := dispatchMsgSingle_cases h
  · exact roster_putInbox hp msg
  · exact (roster_putInbox hp msg :)

theorem Quiet.roster (h : Quiet d d') : d'.roster = d.roster := by
  cases h <;> rfl

theorem Sends.roster {T : List ProcId} (h : Sends T d d') : d'.roster = d.roster := by
  induction h with
  | refl => rfl
  | quiet _ hq ih => exact hq.roster.trans ih
  | single p msg _ _ hd ih => exact (dispatchMsgSingle_roster hd).trans ih

theorem sendQueueEmpty_roster (h : sendQueueEmpty env p d = .ok d') : d'.roster = d.roster := by
  obtain ⟨process, d₁, _, hs, rfl⟩ := sendQueueEmpty_cases h
  exact (sendIndirect_sends hs).roster

theorem flushTake_roster (gid counter : Nat) (back : FlushFrom) (victim : Bool) (d : Domain) :
    (flushTake gid counter back victim d).roster = d.roster := by
  unfold flushTake
  split
  · rfl
  · split
    · rfl
    · split
      · rfl
      · rw [drainMessageQueue_eq]
        rfl

theorem addProcess_roster (d : Domain) (poff : Nat) (umap : UmapRoot ProcId)
    (receiveCallback : Option Nat) (hungry : Bool) :
    (d.addProcess poff umap receiveCallback hungry).roster = d.roster.add poff umap := by
  unfold Domain.roster Roster.add
  congr 1
  funext q
  by_cases hq : q = d.nextProc
  · subst hq
    simp [Domain.addProcess]
  · simp [Domain.addProcess, Function.update_of_ne hq]

theorem removeProcess_roster (d : Domain) (p : ProcId) (process : Process)
    (umap : UmapRoot ProcId) (busy : QueueRoot ProcId) (heads : Links ProcId) :
    (d.removeProcess p process umap busy heads).roster = d.roster.remove p umap := by
  unfold Domain.roster Roster.remove
  congr 1
  funext q
  by_cases hq : q = p
  · subst hq
    simp [Domain.removeProcess]
  · simp [Domain.removeProcess, Function.update_of_ne hq]

theorem processNew_roster {receiveCallback : Option Nat} {hungry : Bool}
    (h : processNew receiveCallback hungry d = .ok (p, d')) : RosterGrows d.roster d'.roster := by
  obtain ⟨_, poff, umap, hadd, hpoff, rfl⟩ := processNew_cases h
  rw [addProcess_roster]
  exact .add poff umap hadd hpoff

theorem spawnConstructor_roster (h : spawnConstructor d = .ok d') :
    RosterGrows d.roster d'.roster := by
  obtain ⟨poff, umap, q, hadd, hpoff, _, rfl⟩ := spawnConstructor_cases h
  have hroster : Domain.roster
      { d.addProcess poff umap none false with current := q :: d.current }
        = (d.addProcess poff umap none false).roster := rfl
  rw [hroster, addProcess_roster]
  exact .add poff umap hadd hpoff

theorem processFree_roster (h : processFree p d = .ok d') : RosterStep d.roster d'.roster := by
  obtain ⟨process, umap, _, busy, heads, hp, hdel, _, _, rfl⟩ := processFree_cases h
  rw [removeProcess_roster]
  exact .remove p process.pid umap (by simp [Domain.roster, hp]) hdel

theorem msockReceive_roster {receiveCallback : Option Nat}
    (h : msockReceive p receiveCallback d = .ok d') : d'.roster = d.roster := by
  obtain ⟨process, badmatch, inbox, hp, _, rfl⟩ := msockReceive_cases h
  exact (roster_setProcess ⟨process.pid, inbox, badmatch, receiveCallback⟩ hp rfl :)

theorem called_roster {call : Api} (h : Called env d call d') :
    RosterGrows d.roster d'.roster := by
  cases h with
  | send target msgType msgPayload msgPayloadSz _ h =>
      rw [(sendIndirect_sends h).roster]
      exact .refl
  | spawn receiveCallback p _ h => exact processNew_roster h
  | spawn2 _ h => exact spawnConstructor_roster h
  | constructed cur oldproc _ _ => exact .refl
  | receive receiveCallback cur oldproc d₁ _ h => exact msockReceive_roster h ▸ .refl
  | loopexit _ h =>
      rw [(sendBroadcast_sends h).roster]
      exact .refl
  | memoryCollect d₁ _ h => exact (sendBroadcast_sends h).roster ▸ .refl

end Frames

/-- Nobody is taken off the roster but by an exit. -/
theorem stepped_grows {env : Env} {d d' : Domain} {a : Act} (h : Stepped env d a d')
    (hexit : a ≠ .ret .exit) : RosterGrows d.roster d'.roster := by
  cases h with
  | arrive qr => exact .refl
  | baseSend target msgType msgPayload msgPayloadSz d₁ _ h =>
      exact (sendIndirect_sends h).roster ▸ .refl
  | baseSpawn receiveCallback hungry p _ h => exact processNew_roster h
  | baseSpawn2 _ h => exact spawnConstructor_roster h
  | api call _ h => exact called_roster h
  | pick | mark | splice | dispatchNone | queueNone | queueOne | inboxNone => exact .refl
  | dispatchOne again counter msg localInbox delivered d₁ _ _ h =>
      exact (dispatchMsgLocal_sends h).roster ▸ .refl
  | inboxOne p process msg inbox _ hp _ _ =>
      exact (roster_setProcess { process with inbox := inbox } hp rfl :) ▸ .refl
  | retOk => exact .refl
  | retBadmatch p msg received process _ _ hp =>
      exact (roster_setProcess { process with badmatch := (process.badmatch.put msg).2 } hp rfl :) ▸ .refl
  | retExit p msg received d₁ _ _ _ => exact absurd rfl hexit
  | flushTake victim gid counter back _ =>
      rw [flushTake_roster]
      exact .refl
  | flushWake dequeued gid counter back _ =>
      cases dequeued
      · exact .refl
      · exact .refl
  | nextNested egress p _ _ h =>
      rw [sendQueueEmpty_roster h]
      exact .refl
  | nextDone | retire | requeue => exact .refl

/-- **One act changes the roster in one of the three ways.** -/
theorem stepped_roster {env : Env} {d d' : Domain} {a : Act} (h : Stepped env d a d') :
    RosterStep d.roster d'.roster := by
  by_cases hexit : a = .ret .exit
  · subst hexit
    cases h with
    | retExit p msg received d₁ _ _ h => exact (processFree_roster h :)
  · exact (stepped_grows h hexit).step

theorem RosterGrows.live {r r' : Roster} {p : ProcId} (h : RosterGrows r r')
    (hlive : (r.pid p).isSome) : (r'.pid p).isSome := by
  cases h with
  | refl => exact hlive
  | add poff umap _ _ =>
      by_cases hpn : p = r.nextProc
      · simp [Roster.add, hpn]
      · simpa [Roster.add, Function.update_of_ne hpn] using hlive

/-- A process dies of its own exit. -/
theorem act_dead {env : Env} {d d' : Domain} {a : Act} {p : ProcId}
    (h : d.act (env, a) = .ok d') (hp : (d.process p).isSome) (hp' : d'.process p = none) :
    a = .ret .exit ∧ ∃ msg received, d.phase = .callback p msg received := by
  have hs : Stepped env d a d' := step_cases h
  have hpid : (d.roster.pid p).isSome := by simpa [Domain.roster] using hp
  have hpid' : d'.roster.pid p = none := by simp [Domain.roster, hp']
  by_cases hexit : a = .ret .exit
  · subst hexit
    refine ⟨rfl, ?_⟩
    cases hs with
    | retExit q msg received d₁ hphase _ hfree =>
        obtain ⟨process, umap, _, busy, heads, _, _, _, _, rfl⟩ := processFree_cases hfree
        by_cases hpq : p = q
        · exact ⟨msg, received, hpq ▸ hphase⟩
        · have hgone : Function.update d.process q none p = none := hp'
          rw [Function.update_of_ne hpq] at hgone
          rw [hgone] at hp
          cases hp
  · have hlive := (stepped_grows hs hexit).live hpid
    rw [hpid'] at hlive
    cases hlive

theorem act_roster {a : Env × Act} {d d' : Domain} (h : d.act a = .ok d') :
    RosterStep d.roster d'.roster := stepped_roster (step_cases h)

theorem rosterStep_limits {ro ro' : Roster} (h : RosterStep ro ro') :
    ro'.gid = ro.gid ∧ ro'.umap.maxCounter = ro.umap.maxCounter := by
  cases h with
  | refl => exact ⟨rfl, rfl⟩
  | add poff umap hadd hpoff => exact ⟨rfl, (umapAdd_get hadd hpoff).2.1⟩
  | remove p pid umap _ hdel => exact ⟨rfl, (umapDel_counter hdel).2.2⟩

/-- Addresses only go up. -/
theorem rosterStep_nextProc {ro ro' : Roster} (h : RosterStep ro ro') :
    ro.nextProc ≤ ro'.nextProc := by
  cases h with
  | refl => exact Nat.le_refl _
  | add poff umap _ _ => exact Nat.le_succ _
  | remove p pid umap _ _ => exact Nat.le_refl _

end Msock
