import Msock.Base

/-!
# Pids across the base

What a step of the base can do, read backwards once, and the rule that follows from it:
what every act of a domain preserves holds of every domain of every base reached.
Pid routing is its first use.
-/

namespace Msock

open Lib

variable {b b' : Base} {gid : Nat} {d : Domain}

/-- What one step of the base can do. -/
inductive BaseStepped (b : Base) : BaseAct → Base → Prop
  | domainNew (gid maxProcesses : Nat) : 0 < gid → gid < maxDomains → b.gidToDomain gid = none →
      BaseStepped b (.domainNew maxProcesses) { b with
        gidToDomain := Function.update b.gidToDomain gid (some (Domain.new gid maxProcesses))
        listOfDomains := b.listOfDomains ++ [gid] }
  | register (pid name : Pid) (names : Nat → Pid) :
      BaseStepped b (.register pid name) { b with nameToPid := names }
  | run (gid : Nat) (a : Act) (d d' : Domain) : a.allowed gid = true →
      b.gidToDomain gid = some d → d.act (b.env, a) = .ok d' →
      BaseStepped b (.run gid a) (b.setDomain gid d d')
  | flushNone (gid : Nat) (d d' : Domain) : b.gidToDomain gid = some d → b.victim d = none →
      d.act (b.env, .flushTake false) = .ok d' → BaseStepped b (.flush gid) (b.setDomain gid d d')
  | flushOne (gid v : Nat) (d d' victim victim' : Domain) : b.gidToDomain gid = some d →
      b.victim d = some (v, victim) → d.act (b.env, .flushTake true) = .ok d' →
      victim.act (b.env, .arrive (d.outbox v)) = .ok victim' →
      BaseStepped b (.flush gid) ((b.setDomain gid d d').setDomain v victim victim')
  | wake (gid : Nat) (d d' : Domain) (dequeued : Bool) : b.gidToDomain gid = some d →
      d.act (b.env, .flushWake dequeued) = .ok d' → BaseStepped b (.wake gid) (b.setDomain gid d d')

theorem domain_eq_ok : b.domain gid = .ok d ↔ b.gidToDomain gid = some d := by
  unfold Base.domain
  cases b.gidToDomain gid <;> simp

theorem baseStep_cases {a : BaseAct} (h : b.step a = .ok b') : BaseStepped b a b' := by
  cases a with
  | domainNew maxProcesses =>
      obtain ⟨gid, hfree, h⟩ := bind_eq_ok.mp h
      unfold findFreeGid at hfree
      split at hfree
      · rename_i g hfind
        obtain rfl := Except.ok.inj hfree
        have hmem := List.mem_of_find?_eq_some hfind
        have hnone := List.find?_some hfind
        rw [List.mem_range'_1] at hmem
        rw [← Except.ok.inj h]
        exact .domainNew g maxProcesses (by omega) (by omega) (by simpa using hnone)
      · cases hfree
  | register pid name =>
      simp only [Base.step, msockRegister] at h
      split at h
      · cases h
      · split at h
        · cases h
        · split at h
          · cases h
          · rw [← Except.ok.inj h]
            exact .register pid name _
  | run gid a =>
      simp only [Base.step] at h
      split at h
      · rename_i hallowed
        obtain ⟨d, hd, h⟩ := bind_eq_ok.mp h
        obtain ⟨d', hact, h⟩ := bind_eq_ok.mp h
        rw [← Except.ok.inj h]
        exact .run gid a d d' hallowed (domain_eq_ok.mp hd) hact
      · cases h
  | flush gid =>
      simp only [Base.step] at h
      obtain ⟨d, hd, h⟩ := bind_eq_ok.mp h
      split at h
      · rename_i hv
        obtain ⟨d', hact, h⟩ := bind_eq_ok.mp h
        rw [← Except.ok.inj h]
        exact .flushNone gid d d' (domain_eq_ok.mp hd) hv hact
      · rename_i v victim hv
        obtain ⟨d', hact, h⟩ := bind_eq_ok.mp h
        obtain ⟨victim', harrive, h⟩ := bind_eq_ok.mp h
        rw [← Except.ok.inj h]
        exact .flushOne gid v d d' victim victim' (domain_eq_ok.mp hd) hv hact harrive
  | wake gid =>
      simp only [Base.step] at h
      obtain ⟨d, hd, h⟩ := bind_eq_ok.mp h
      split at h
      · obtain ⟨victim, _, h⟩ := bind_eq_ok.mp h
        obtain ⟨d', hact, h⟩ := bind_eq_ok.mp h
        rw [← Except.ok.inj h]
        exact .wake gid d d' victim.dequeued (domain_eq_ok.mp hd) hact
      · cases h

/-- The victim of a flush: where it is, and what was in the outbox for it. -/
theorem victim_eq_some {v : Nat} {victim : Domain} (h : b.victim d = some (v, victim)) :
    v < maxDomains ∧ (d.outbox v).items ≠ [] ∧ b.gidToDomain v = some victim ∧
      ∃ counter back, d.phase = .flush v counter false back := by
  unfold Base.victim at h
  split at h
  · rename_i g counter back hphase
    split at h
    · rename_i hc
      obtain ⟨victim', hv, he⟩ := Option.map_eq_some_iff.mp h
      obtain ⟨rfl, rfl⟩ := Prod.mk.inj he
      exact ⟨hc.1, hc.2, hv, counter, back, hphase⟩
    · cases h
  · cases h

/-- What a domain does to the log. -/
theorem log_setDomain {d' : Domain} {es : List Event} (htrace : d'.trace = d.trace ++ es) :
    (b.setDomain gid d d').log = b.log ++ es.map (Prod.mk gid) := by
  unfold Base.setDomain
  rw [htrace, List.drop_left]

/-- Each engine makes a domain with at least one and fewer than `2^31` process slots. -/
def slots (_ : Base) : BaseAct → Prop
  | .domainNew maxProcesses => 0 < maxProcesses ∧ maxProcesses < 2 ^ 31
  | _ => True

instance (b : Base) (a : BaseAct) : Decidable (slots b a) :=
  match a with
  | .domainNew maxProcesses => inferInstanceAs (Decidable (0 < maxProcesses ∧ maxProcesses < 2 ^ 31))
  | .register _ _ | .run _ _ | .flush _ | .wake _ => isTrue trivial

/-- What every act of a domain preserves holds of every domain after a step. -/
theorem local_step {I : Nat → Domain → Prop} {P : Nat → Prop}
    (hnew : ∀ gid maxProcesses, 0 < gid → gid < maxDomains → P maxProcesses →
      I gid (Domain.new gid maxProcesses))
    (hact : ∀ gid d d' a, I gid d → d.act a = .ok d' → I gid d')
    {a : BaseAct} (hok : ∀ maxProcesses, a = .domainNew maxProcesses → P maxProcesses)
    (h : b.step a = .ok b')
    (hi : ∀ gid d, b.gidToDomain gid = some d → I gid d) :
    ∀ gid d, b'.gidToDomain gid = some d → I gid d := by
  have hset : ∀ (b : Base) (g : Nat) (d d' : Domain),
      (∀ gid d, b.gidToDomain gid = some d → I gid d) → I g d' →
      ∀ gid d₁, (b.setDomain g d d').gidToDomain gid = some d₁ → I gid d₁ := by
    intro b g d d' hb hd' gid d₁ hd₁
    by_cases hg : gid = g
    · subst hg
      simp only [Base.setDomain, Function.update_self, Option.some.injEq] at hd₁
      exact hd₁ ▸ hd'
    · simp only [Base.setDomain, Function.update_of_ne hg] at hd₁
      exact hb gid d₁ hd₁
  have hs := baseStep_cases h
  cases hs with
  | domainNew g maxProcesses hpos hlt _ =>
      intro gid d hd
      by_cases hg : gid = g
      · subst hg
        simp only [Function.update_self, Option.some.injEq] at hd
        exact hd ▸ hnew gid maxProcesses hpos hlt (hok maxProcesses rfl)
      · simp only [Function.update_of_ne hg] at hd
        exact hi gid d hd
  | register pid name names => exact hi
  | run g a d d' _ hd hact' => exact hset b g d d' hi (hact g d d' _ (hi g d hd) hact')
  | flushNone g d d' hd _ hact' => exact hset b g d d' hi (hact g d d' _ (hi g d hd) hact')
  | flushOne g v d d' victim victim' hd hv hact' harrive =>
      obtain ⟨_, _, hvictim, _⟩ := victim_eq_some hv
      exact hset _ v victim victim' (hset b g d d' hi (hact g d d' _ (hi g d hd) hact'))
        (hact v victim victim' _ (hi v victim hvictim) harrive)
  | wake g d d' dequeued hd hact' => exact hset b g d d' hi (hact g d d' _ (hi g d hd) hact')

theorem local_reachable {I : Nat → Domain → Prop}
    (hnew : ∀ gid maxProcesses, 0 < gid → gid < maxDomains → 0 < maxProcesses →
      maxProcesses < 2 ^ 31 → I gid (Domain.new gid maxProcesses))
    (hact : ∀ gid d d' a, I gid d → d.act a = .ok d' → I gid d')
    (hr : Runs Base.step slots Base.new b) : ∀ gid d, b.gidToDomain gid = some d → I gid d :=
  hr.invariant (fun _ _ _ hi hok h => local_step
    (P := fun maxProcesses => 0 < maxProcesses ∧ maxProcesses < 2 ^ 31)
    (fun gid maxProcesses h0 h1 h2 => hnew gid maxProcesses h0 h1 h2.1 h2.2) hact
    (fun maxProcesses ha => by subst ha; exact hok) h hi) (fun _ _ hd => by cases hd)

/-- Every domain is in its slot, and its pids lead to its processes. -/
theorem routed_domains (hr : Runs Base.step slots Base.new b) (hd : b.gidToDomain gid = some d) :
    d.gid = gid ∧ Routed d.roster := by
  have key := local_reachable (I := fun gid d => d.gid = gid ∧ Routed d.roster)
    (fun _ _ hpos hlt h0 hsz => ⟨rfl, routed_new hpos hlt h0 hsz⟩)
    (fun _ _ _ _ hi hact => ⟨(rosterStep_limits (act_roster hact)).1.trans hi.1,
      routed_step hi.2 (act_roster hact)⟩) hr
  exact key gid d hd

/--
**Pid routing.** In every base reached, a living process's pid leads through the base's
table to its domain and through the domain's map to the process; no two living
processes share a pid, and none is a name or a broadcast.
-/
theorem pid_routing (hr : Runs Base.step slots Base.new b) :
    (∀ gid d p process, b.gidToDomain gid = some d → d.process p = some process →
      pidToGid process.pid = d.gid ∧ b.gidToDomain (pidToGid process.pid) = some d ∧
      umapGet d.poffToProcess (pidToPoff process.pid) = some p ∧
      pidToGid process.pid ≠ 0 ∧ pidToPoff process.pid ≠ 0) ∧
    (∀ gid gid' d d' p p' process process', b.gidToDomain gid = some d →
      b.gidToDomain gid' = some d' → d.process p = some process →
      d'.process p' = some process' → process.pid = process'.pid → gid = gid' ∧ p = p') ∧
    ∀ x : Pid, poffGidToPid (pidToPoff x) (pidToGid x) = x := by
  refine ⟨?_, ?_, poffGidToPid_fields⟩
  · intro gid d p process hd hp
    obtain ⟨hgid, hroutes⟩ := routed_domains hr hd
    obtain ⟨hg, hpoff, hget⟩ := hroutes.pid_fields (Domain.roster_pid hp)
    have hg : pidToGid process.pid = gid := hg.trans hgid
    refine ⟨hg.trans hgid.symm, by rw [hg]; exact hd, hget, ?_, hpoff⟩
    have hpos : 0 < d.gid := hroutes.gid_pos
    omega
  · intro gid gid' d d' p p' process process' hd hd' hp hp' hpid
    obtain ⟨hgid, hroutes⟩ := routed_domains hr hd
    obtain ⟨hgid', hroutes'⟩ := routed_domains hr hd'
    have hg : pidToGid process.pid = gid := (hroutes.pid_fields (Domain.roster_pid hp)).1.trans hgid
    have hg' : pidToGid process'.pid = gid' :=
      (hroutes'.pid_fields (Domain.roster_pid hp')).1.trans hgid'
    have hsame : gid = gid' := by rw [← hg, ← hg', hpid]
    subst hsame
    obtain rfl : d = d' := Option.some.inj (hd.symm.trans hd')
    refine ⟨rfl, hroutes.pid_injective (Domain.roster_pid hp) ?_⟩
    rw [hpid]
    exact Domain.roster_pid hp'

/-- Two engines start; the second one's process is the first of gid 2. -/
theorem pid_routing_second_engine : ∃ (b : Base) (d : Domain) (process : Process),
    b.gidToDomain 2 = some d ∧ d.process 0 = some process ∧ pidToGid process.pid = d.gid ∧
    b.gidToDomain (pidToGid process.pid) = some d ∧
    umapGet d.poffToProcess (pidToPoff process.pid) = some 0 ∧
    pidToGid process.pid ≠ 0 ∧ pidToPoff process.pid ≠ 0 := by
  obtain ⟨b, hr, hb⟩ := exists_run (show (runActs Base.step slots
      [.domainNew 8, .domainNew 1, .run 2 (.baseSpawn (some 0) true)] Base.new).any
      (fun b => (b.gidToDomain 2).any (fun d => (d.process 0).isSome)) = true by decide +kernel)
  obtain ⟨d, hd, hlive⟩ := Option.any_eq_true _ _ |>.mp hb
  obtain ⟨process, hp⟩ := Option.isSome_iff_exists.mp hlive
  exact ⟨b, d, process, hd, hp, (pid_routing hr).1 2 d 0 process hd hp⟩

end Msock
