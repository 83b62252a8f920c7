import Msock.Domain.Roster

/-!
# Pids lead to their processes

A pid packs the gid of its domain and a number of that domain's map. The limit given
to the map is `2^59 - 1`, so the number always fits the field it is packed into, and
the invariant `Routed` says that numbers that answer and living processes
correspond one to one. It survives the counter starting over.

Before the counter starts over more is true: the number of a process that exited
never answers again, because numbers only grow (`Counted`, `Retired`).
-/

namespace Msock

open Lib

/-- What holds of the roster of a domain at all times. -/
structure Routed (r : Roster) : Prop where
  gid_pos : 0 < r.gid
  gid_lt : r.gid < maxDomains
  umap : UmapInv r.umap
  limit : r.umap.maxCounter = pidMaxCounter
  /-- The pid of a living process holds a number that leads back to it. -/
  live : ∀ p pid, r.pid p = some pid →
    ∃ no, pid = poffGidToPid no r.gid ∧ umapGet r.umap no = some p
  /-- A number that answers leads to a living process with that pid. -/
  answers : ∀ no p, umapGet r.umap no = some p → r.pid p = some (poffGidToPid no r.gid)
  /-- Addresses are not used again. -/
  fresh : ∀ p pid, r.pid p = some pid → p < r.nextProc
  /-- The living processes are listed, each once. -/
  listed : ∀ p, p ∈ r.list ↔ (r.pid p).isSome
  nodup : r.list.Nodup

theorem routed_new {gid maxProcesses : Nat} (hpos : 0 < gid) (hgid : gid < maxDomains)
    (h0 : 0 < maxProcesses) (hsz : maxProcesses < 2 ^ 31) :
    Routed (Domain.new gid maxProcesses).roster where
  gid_pos := hpos
  gid_lt := hgid
  umap := umapInv_new h0 hsz (by unfold pidMaxCounter; omega) (by unfold pidMaxCounter; omega)
  limit := rfl
  live := by simp [Domain.roster, Domain.new]
  answers := fun no p hp => by
    have := (umapGet_eq_some.mp hp).2
    simp [Domain.roster, Domain.new, umapNew] at this
  fresh := by simp [Domain.roster, Domain.new]
  listed := by simp [Domain.roster, Domain.new]
  nodup := List.nodup_nil

variable {r r' : Roster} {p q : ProcId} {pid : Pid} {no : Nat}

/-- A number that answers fits its field. -/
theorem Routed.fields (h : Routed r) (hget : umapGet r.umap no = some p) :
    pidToGid (poffGidToPid no r.gid) = r.gid ∧ pidToPoff (poffGidToPid no r.gid) = no := by
  have hlt := (h.umap.get_bounds hget).2
  rw [h.limit] at hlt
  have hno : no < 2 ^ 59 := by
    unfold pidMaxCounter at hlt
    omega
  have hgid : r.gid < 2 ^ 5 := by
    have := h.gid_lt
    unfold maxDomains at this
    omega
  exact ⟨pidToGid_poffGidToPid hno hgid, pidToPoff_poffGidToPid hno hgid⟩

/-- Both fields of a living process's pid are what they should be. -/
theorem Routed.pid_fields (h : Routed r) (hp : r.pid p = some pid) :
    pidToGid pid = r.gid ∧ pidToPoff pid ≠ 0 ∧ umapGet r.umap (pidToPoff pid) = some p := by
  obtain ⟨no, rfl, hget⟩ := h.live p pid hp
  obtain ⟨hg, hn⟩ := h.fields hget
  rw [hg, hn]
  exact ⟨rfl, (h.umap.get_bounds hget).1.ne', hget⟩

/-- Two living processes do not share a pid. -/
theorem Routed.pid_injective (h : Routed r) (hp : r.pid p = some pid) (hq : r.pid q = some pid) :
    p = q := by
  have hp := (h.pid_fields hp).2.2
  have hq := (h.pid_fields hq).2.2
  exact Option.some.inj (hp.symm.trans hq)

theorem routed_step (h : Routed r) (hs : RosterStep r r') : Routed r' := by
  cases hs with
  | refl => exact h
  | add poff umap hadd hpoff =>
      obtain ⟨_, hmax, _, hget⟩ := umapAdd_get hadd hpoff
      obtain ⟨hinv, hother⟩ := h.umap.add hadd hpoff
      -- the new process has no pid yet, so no number answers with it
      have hnew : r.pid r.nextProc = none := by
        cases hpid : r.pid r.nextProc with
        | none => rfl
        | some pid => exact absurd (h.fresh _ _ hpid) (lt_irrefl _)
      have hfree := h.umap.add_fresh hadd hpoff
      refine ⟨h.gid_pos, h.gid_lt, hinv, hmax.trans h.limit, ?_, ?_, ?_, ?_, ?_⟩
      · intro p pid hp
        by_cases hpn : p = r.nextProc
        · subst hpn
          simp only [Roster.add, Function.update_self, Option.some.injEq] at hp
          exact ⟨poff, hp.symm, hget⟩
        · simp only [Roster.add, Function.update_of_ne hpn] at hp
          obtain ⟨no, hpid, hno⟩ := h.live p pid hp
          refine ⟨no, hpid, ?_⟩
          have hne : no ≠ poff := fun he => by
            rw [he, hfree] at hno
            cases hno
          simpa only [Roster.add, hother no hne] using hno
      · intro no p hp
        by_cases hno : no = poff
        · subst hno
          obtain rfl : r.nextProc = p := Option.some.inj (hget.symm.trans hp)
          exact Function.update_self ..
        · have hp' : umapGet r.umap no = some p := by rw [← hother no hno]; exact hp
          have hold := h.answers no p hp'
          have hpn : p ≠ r.nextProc := fun he => by
            rw [he, hnew] at hold
            cases hold
          simpa only [Roster.add, Function.update_of_ne hpn] using hold
      · intro p pid hp
        by_cases hpn : p = r.nextProc
        · subst hpn
          exact Nat.lt_succ_self _
        · simp only [Roster.add, Function.update_of_ne hpn] at hp
          exact Nat.lt_succ_of_lt (h.fresh p pid hp)
      · intro p
        simp only [Roster.add, List.mem_cons]
        by_cases hpn : p = r.nextProc
        · simp [hpn]
        · simp [hpn, h.listed p]
      · exact List.nodup_cons.mpr ⟨fun hm => by simp [h.listed, hnew] at hm, h.nodup⟩
  | remove p pid umap hp hdel =>
      obtain ⟨_, _, hget⟩ := h.pid_fields hp
      obtain ⟨hinv, hnone, hother⟩ := h.umap.of_del hget hdel
      have hlimit := (umapDel_counter hdel).2.2
      refine ⟨h.gid_pos, h.gid_lt, hinv, hlimit.trans h.limit, ?_, ?_, ?_, ?_, ?_⟩
      · intro q pid' hq
        by_cases hqp : q = p
        · subst hqp
          simp [Roster.remove] at hq
        · simp only [Roster.remove, Function.update_of_ne hqp] at hq
          obtain ⟨no, hpid, hno⟩ := h.live q pid' hq
          refine ⟨no, hpid, ?_⟩
          have hne : no ≠ pidToPoff pid := fun he => by
            rw [he, hget] at hno
            exact hqp (Option.some.inj hno).symm
          simpa only [Roster.remove, hother no hne] using hno
      · intro no q hq
        simp only [Roster.remove] at hq ⊢
        have hne : no ≠ pidToPoff pid := fun he => by
          rw [he, hnone] at hq
          cases hq
        rw [hother no hne] at hq
        have hold := h.answers no q hq
        have hqp : q ≠ p := fun he => by
          rw [he, hp, Option.some.injEq] at hold
          exact hne (by rw [hold, (h.fields hq).2])
        rwa [Function.update_of_ne hqp]
      · intro q pid' hq
        by_cases hqp : q = p
        · subst hqp
          simp [Roster.remove] at hq
        · simp only [Roster.remove, Function.update_of_ne hqp] at hq
          exact h.fresh q pid' hq
      · intro q
        simp only [Roster.remove, h.nodup.mem_erase_iff]
        by_cases hqp : q = p
        · simp [hqp]
        · simp [hqp, h.listed q]
      · exact h.nodup.erase p

theorem routed_reachable {d d' : Domain} (h : Routed d.roster) (hr : Runs Domain.act anyAct d d') :
    Routed d'.roster :=
  hr.invariant (fun _ _ _ hi _ hact => routed_step hi (act_roster hact)) h

/-! ## Numbers of the dead -/

/-- The counter of a map of `mapSz` slots, as long as it cannot have started over. -/
structure Counted (mapSz : Nat) (r : Roster) : Prop where
  routed : Routed r
  size : r.umap.mapSz = mapSz
  /-- Every process so far moved the counter by at most `mapSz`. -/
  counter : 1 + r.nextProc * mapSz < pidMaxCounter → r.umap.counter ≤ 1 + r.nextProc * mapSz
  /-- Every number that answers is behind the counter. -/
  behind : 1 + r.nextProc * mapSz < pidMaxCounter →
    ∀ no q, umapGet r.umap no = some q → no ≤ r.umap.counter

/-- The number `no` belonged to `p`, and to nobody since. -/
structure Retired (no : Nat) (p : ProcId) (mapSz : Nat) (r : Roster) : Prop where
  counted : Counted mapSz r
  behind : 1 + r.nextProc * mapSz < pidMaxCounter → no ≤ r.umap.counter
  only : 1 + r.nextProc * mapSz < pidMaxCounter → ∀ q, umapGet r.umap no = some q → q = p

section Counter
variable {mapSz poff : Nat} {umap : UmapRoot ProcId}

/-- Before the counter starts over, a new number is ahead of it, by at most `mapSz`. -/
theorem Counted.ahead (h : Counted mapSz r) (hadd : umapAdd r.umap r.nextProc = some (poff, umap))
    (hpoff : poff ≠ 0) (hbound : 1 + (r.nextProc + 1) * mapSz < pidMaxCounter) :
    umap.counter = poff ∧ r.umap.counter < poff ∧ poff ≤ 1 + (r.nextProc + 1) * mapSz := by
  rw [Nat.add_mul, Nat.one_mul] at hbound ⊢
  have hle := h.counter (by omega)
  rcases umapAdd_cases hadd with ⟨_, _, _, h0, _⟩ |
    ⟨idx, freeItems, inQueue, x, hget, hcount, _, rfl⟩
  · exact absurd h0 hpoff
  · have hidx := (h.routed.umap.taken hget).1
    obtain ⟨hx0, hxsz, _⟩ :=
      countX_spec h.routed.umap.size_pos h.routed.umap.size_lt hidx r.umap.counter
    have hroom := h.routed.umap.room
    rw [h.size] at hxsz
    rw [countAgain_first (by omega) (by rw [h.routed.limit]; omega)] at hcount
    have hval := (Prod.mk.inj (Option.some.inj hcount)).2
    exact ⟨rfl, by omega, by omega⟩

theorem counted_new {gid maxProcesses : Nat} (hpos : 0 < gid) (hgid : gid < maxDomains)
    (h0 : 0 < maxProcesses) (hsz : maxProcesses < 2 ^ 31) :
    Counted maxProcesses (Domain.new gid maxProcesses).roster where
  routed := routed_new hpos hgid h0 hsz
  size := rfl
  counter := fun _ => by simp [Domain.roster, Domain.new, umapNew]
  behind := fun _ no q hq => by
    have := (routed_new hpos hgid h0 hsz).answers no q hq
    simp [Domain.roster, Domain.new] at this

theorem counted_step (h : Counted mapSz r) (hs : RosterStep r r') : Counted mapSz r' := by
  have hrouted := routed_step h.routed hs
  cases hs with
  | refl => exact h
  | add poff umap hadd hpoff =>
      refine ⟨hrouted, (umapAdd_get hadd hpoff).2.2.1.trans h.size, fun hbound => ?_,
        fun hbound no q hq => ?_⟩
      · obtain ⟨hcounter, _, hle⟩ := h.ahead hadd hpoff hbound
        exact hcounter ▸ hle
      · obtain ⟨hcounter, hlt, _⟩ := h.ahead hadd hpoff hbound
        simp only [Roster.add, hcounter] at hbound hq ⊢
        rw [Nat.add_mul, Nat.one_mul] at hbound
        by_cases hno : no = poff
        · exact hno.le
        · rw [(h.routed.umap.add hadd hpoff).2 no hno] at hq
          have := h.behind (by omega) no q hq
          omega
  | remove p pid umap hp hdel =>
      obtain ⟨_, _, hget⟩ := h.routed.pid_fields hp
      obtain ⟨_, hnone, hother⟩ := h.routed.umap.of_del hget hdel
      obtain ⟨hcounter, hsize, -⟩ := umapDel_counter hdel
      refine ⟨hrouted, hsize.trans h.size, fun hbound => ?_, fun hbound no q hq => ?_⟩
      · exact hcounter ▸ h.counter hbound
      · simp only [Roster.remove, hcounter] at hbound hq ⊢
        by_cases hno : no = pidToPoff pid
        · rw [hno, hnone] at hq
          cases hq
        · rw [hother no hno] at hq
          exact h.behind hbound no q hq

/-- The number of a living process, from here on. -/
theorem Counted.retired (h : Counted mapSz r) (hget : umapGet r.umap no = some p) :
    Retired no p mapSz r where
  counted := h
  behind := fun hbound => h.behind hbound no p hget
  only := fun _ _ hq => Option.some.inj (hq.symm.trans hget)

theorem retired_step (h : Retired no p mapSz r) (hs : RosterStep r r') : Retired no p mapSz r' := by
  have hcounted := counted_step h.counted hs
  cases hs with
  | refl => exact h
  | add poff umap hadd hpoff =>
      refine ⟨hcounted, fun hbound => ?_, fun hbound q hq => ?_⟩
      · obtain ⟨hcounter, hlt, _⟩ := h.counted.ahead hadd hpoff hbound
        simp only [Roster.add, hcounter] at hbound ⊢
        rw [Nat.add_mul, Nat.one_mul] at hbound
        have := h.behind (by omega)
        omega
      · obtain ⟨_, hlt, _⟩ := h.counted.ahead hadd hpoff hbound
        simp only [Roster.add] at hbound hq
        rw [Nat.add_mul, Nat.one_mul] at hbound
        have hno := h.behind (by omega)
        rw [(h.counted.routed.umap.add hadd hpoff).2 no (by omega)] at hq
        exact h.only (by omega) q hq
  | remove _ pid umap hq hdel =>
      obtain ⟨_, _, hget⟩ := h.counted.routed.pid_fields hq
      obtain ⟨_, hnone, hother⟩ := h.counted.routed.umap.of_del hget hdel
      refine ⟨hcounted, fun hbound => ?_, fun hbound q' hq' => ?_⟩
      · exact (umapDel_counter hdel).1 ▸ h.behind hbound
      · simp only [Roster.remove] at hbound hq'
        by_cases hno : no = pidToPoff pid
        · rw [hno, hnone] at hq'
          cases hq'
        · rw [hother no hno] at hq'
          exact h.only hbound q' hq'

end Counter

theorem Domain.roster_pid {d : Domain} {process : Process} (hp : d.process p = some process) :
    d.roster.pid p = some process.pid := by
  simp [Domain.roster, hp]

/-- A message for a process that has exited is given back, whoever lives in its slot now. -/
theorem dispatch_to_dead {gid maxProcesses : Nat} (hgid0 : 0 < gid) (hgid : gid < maxDomains)
    (h0 : 0 < maxProcesses) (hsz : maxProcesses < 2 ^ 31) {d₁ d₂ : Domain} {process : Process}
    {msg : Message} (hr₁ : Runs Domain.act anyAct (Domain.new gid maxProcesses) d₁)
    (hr₂ : Runs Domain.act anyAct d₁ d₂) (hp : d₁.process p = some process)
    (hdead : d₂.process p = none) (hbound : 1 + d₂.roster.nextProc * maxProcesses < pidMaxCounter)
    (htarget : msg.target = process.pid) :
    dispatchMsgLocal msg d₂ = .ok (0, freeMessage msg (d₂.emit (.stale msg))) := by
  have hcounted : Counted maxProcesses d₁.roster :=
    hr₁.invariant (fun _ _ _ hi _ hact => counted_step hi (act_roster hact))
      (counted_new hgid0 hgid h0 hsz)
  obtain ⟨_, hpoff, hget⟩ := hcounted.routed.pid_fields (Domain.roster_pid hp)
  have hret : Retired (pidToPoff process.pid) p maxProcesses d₂.roster :=
    hr₂.invariant (fun _ _ _ hi _ hact => retired_step hi (act_roster hact))
      (hcounted.retired hget)
  have hnone : umapGet d₂.poffToProcess (pidToPoff process.pid) = none := by
    cases hq : umapGet d₂.poffToProcess (pidToPoff process.pid) with
    | none => rfl
    | some q =>
        have hqp := hret.only hbound q hq
        have hlive := hret.counted.routed.answers _ q hq
        rw [hqp] at hlive
        simp [Domain.roster, hdead] at hlive
  unfold dispatchMsgLocal
  dsimp only
  rw [htarget, if_pos hpoff, hnone]

/--
**A dead number never resolves again.** For a map: while the successful adds leave
room below the limit, the numbers returned grow, and a deleted one does not answer.
For the map of a domain: a message for a process that exited reaches nobody.
-/
theorem dead_number_never_resolves {ρ : Type} {mapSz maxCounter : Nat} (hpos : 0 < mapSz)
    (hsz : mapSz < 2 ^ 31) (hmax : maxCounter < 2 ^ 64) :
    (∀ s : UmapHist ρ, Runs UmapHist.step anyAct (UmapHist.new mapSz maxCounter) s →
      1 + s.returned.length * mapSz < maxCounter →
      s.returned.Pairwise (· < ·) ∧ (∀ n ∈ s.returned, 0 < n) ∧
        (∀ n ∈ s.returned, n ∉ s.deleted → (umapDel s.root n).isSome) ∧
        ∀ n ∈ s.deleted, umapGet s.root n = none) ∧
    (∀ (gid : Nat) (d₁ d₂ : Domain) (p : ProcId) (process : Process) (msg : Message),
      0 < gid → gid < maxDomains →
      Runs Domain.act anyAct (Domain.new gid mapSz) d₁ → Runs Domain.act anyAct d₁ d₂ →
      d₁.process p = some process → d₂.process p = none →
      1 + d₂.roster.nextProc * mapSz < pidMaxCounter → msg.target = process.pid →
      dispatchMsgLocal msg d₂ = .ok (0, freeMessage msg (d₂.emit (.stale msg)))) := by
  refine ⟨fun s hr hbound => ?_, ?_⟩
  · have hi := umapHist_reachable hpos hsz hmax hr
    have hf := hi.fresh hbound
    refine ⟨hf.sorted, hi.pos, fun n hret hlive => ?_, fun n hn => hf.deleted_get hi hn⟩
    obtain ⟨root, hdel, -⟩ := hi.del hpos hret hlive
    rw [hdel]
    rfl
  · intro gid d₁ d₂ p process msg hgid0 hgid hr₁ hr₂ hp hdead hbound htarget
    exact dispatch_to_dead hgid0 hgid hpos hsz hr₁ hr₂ hp hdead hbound htarget

/-- A process is sent a message from outside, and its callback answers it with `RECV_EXIT`. -/
def exitActs (target : Pid) : List (Env × Act) :=
  [.baseSend target 5 [] 0, .flushTake false, .flushTake false, .flushTake false,
    .flushTake false, .flushTake false, .flushTake false, .pick, .mark, .splice, .dispatch,
    .nextProcess, .nextMessage, .ret .exit].map (Prod.mk ⟨fun _ => 0, [1]⟩)

theorem dead_number_never_resolves_two_slots :
    (∃ s : UmapHist Nat, s.returned = [2, 3, 4] ∧ s.deleted = [2] ∧ umapGet s.root 2 = none) ∧
    (∃ d : Domain, (d.process 1).map Process.pid = some (poffGidToPid 3 1) ∧
      dispatchMsgLocal ⟨(1, 7), 1, poffGidToPid 2 1, 5, 0, []⟩ d
        = .ok (0, freeMessage ⟨(1, 7), 1, poffGidToPid 2 1, 5, 0, []⟩
            (d.emit (.stale ⟨(1, 7), 1, poffGidToPid 2 1, 5, 0, []⟩)))) := by
  have h := @dead_number_never_resolves Nat 2 100 (by decide)
    (by decide) (by decide)
  constructor
  · obtain ⟨s, hr, hp⟩ := exists_run (show (runActs UmapHist.step anyAct
        [.add 10, .add 20, .del 2, .add 30] (UmapHist.new 2 100)).any
          (fun s : UmapHist Nat => s.returned = [2, 3, 4] ∧ s.deleted = [2]) = true
        by decide +kernel)
    obtain ⟨hret, hdel⟩ := of_decide_eq_true hp
    exact ⟨s, hret, hdel, (h.1 s hr (by rw [hret]; decide)).2.2.2 2 (by rw [hdel]; decide)⟩
  · obtain ⟨d₁, hr₁, hp₁⟩ := exists_run (show (runActs Domain.act anyAct
        [(⟨fun _ => 0, [1]⟩, .baseSpawn (some 0) false),
          (⟨fun _ => 0, [1]⟩, .baseSpawn (some 0) false)] (Domain.new 1 2)).any
        (fun d₁ : Domain => decide ((d₁.process 0).map Process.pid = some (poffGidToPid 2 1)) &&
          (runActs Domain.act anyAct (exitActs (poffGidToPid 2 1)) d₁).any
            (fun d₂ : Domain => d₂.process 0 = none ∧ d₂.roster.nextProc = 2 ∧
              (d₂.process 1).map Process.pid = some (poffGidToPid 3 1))) = true
        by decide +kernel)
    obtain ⟨hpid, hrest⟩ := Bool.and_eq_true_iff.mp hp₁
    obtain ⟨process, hproc, htarget⟩ := Option.map_eq_some_iff.mp (of_decide_eq_true hpid)
    obtain ⟨d₂, hr₂, hp₂⟩ := exists_run hrest
    obtain ⟨hdead, hnext, hlive⟩ := of_decide_eq_true hp₂
    exact ⟨d₂, hlive, h.2 1 d₁ d₂ 0 process _ (by decide) (by decide) hr₁ hr₂ hproc hdead
      (by rw [hnext]; decide) htarget.symm⟩

end Msock
