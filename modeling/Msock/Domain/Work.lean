import Msock.Domain.Total

/-!
# How long a worker keeps a domain

The loops of `domain_run`, `process_run` and `worker_domain_run` run until there is nothing
left to do, and a callback that sends gives them more. What is left is bounded by a number that
every step of the library lowers: what is unread, what is queued, what was not dispatched yet,
the hungry processes that were not asked yet, and how far the code is from giving the domain
back. Only the user's calls and other domains raise it.
-/

namespace Msock

open Lib

variable {d d' : Domain} {p : ProcId} {msg : Message} {env : Env} {r : Option ProcId} {n m : Nat}
  {s : Sched} {q : Queue ProcId}

/-! ## Sums over the processes -/

theorem sum_range_le_add {f f' : Nat → Nat} {k : Nat} (hp : f' p ≤ f p + k)
    (hoff : ∀ a, a ≠ p → f' a ≤ f a) :
    ∑ a ∈ Finset.range n, f' a ≤ ∑ a ∈ Finset.range n, f a + k := by
  have hle : ∀ a ∈ Finset.range n, f' a ≤ f a + (if a = p then k else 0) := by
    intro a _
    by_cases hap : a = p
    · rw [if_pos hap, hap]
      exact hp
    · rw [if_neg hap]
      exact hoff a hap
  refine (Finset.sum_le_sum hle).trans ?_
  rw [Finset.sum_add_distrib, Finset.sum_ite_eq']
  split <;> omega

theorem sum_range_succ_le {f f' : Nat → Nat} (hlt : p < n) (hp : f' p + 1 ≤ f p)
    (hoff : ∀ a, a ≠ p → f' a ≤ f a) :
    ∑ a ∈ Finset.range n, f' a + 1 ≤ ∑ a ∈ Finset.range n, f a := by
  refine Nat.succ_le_of_lt (Finset.sum_lt_sum (fun a _ => ?_) ⟨p, Finset.mem_range.2 hlt, hp⟩)
  by_cases hap : a = p
  · rw [hap]
    omega
  · exact hoff a hap

/-! ## What is unread and queued -/

/-- The unread messages of a process. -/
def Sched.unreadOf (s : Sched) (p : ProcId) : Nat :=
  (s.process p).elim 0 (fun process => process.inbox.items.length)

/-- The unread messages of all processes there ever were. -/
def Sched.unread (s : Sched) : Nat := ∑ p ∈ Finset.range s.nextProc, s.unreadOf p

/-- The schedule is in order, and its messages and its queue are no more than `n / 2`. -/
def Load (r : Option ProcId) (n : Nat) (s : Sched) : Prop :=
  ∃ q, Scheduled r s q ∧ 2 * s.unread + 2 * q.items.length ≤ n

/-- Putting a message makes one message, and at most one place in the queue. -/
theorem dispatchMsgSingle_load (h : Load r n d.sched) (hd : dispatchMsgSingle p msg d = .ok d')
    (hs : d.sched.SafePut p) : Load r (n + 4) d'.sched := by
  obtain ⟨process, hp, hcase⟩ := dispatchMsgSingle_cases hd
  obtain ⟨q, hq, hle⟩ := h
  have hlen : d'.nextProc = d.nextProc → d'.process = Function.update d.process p
      (some { process with inbox := (process.inbox.put msg).2 }) →
      d'.sched.unread ≤ d.sched.unread + 1 := by
    intro hnext hproc
    have hproc : d'.sched.process = Function.update d.process p
        (some { process with inbox := (process.inbox.put msg).2 }) := hproc
    have hnext : d'.sched.nextProc = d.sched.nextProc := hnext
    have hput : (process.inbox.put msg).2.items.length ≤ process.inbox.items.length + 1 := by
      unfold Queue.put
      split <;> simp
    unfold Sched.unread
    rw [hnext]
    refine sum_range_le_add (p := p) ?_ fun a ha => ?_
    · have hold : d.sched.process p = some process := hp
      simp only [Sched.unreadOf, hproc, Function.update_self, hold, Option.elim]
      exact hput
    · have hsame : d.sched.process a = d.process a := rfl
      simp [Sched.unreadOf, hproc, Function.update_of_ne ha, hsame]
  rcases hcase with ⟨hl, rfl⟩ | ⟨hl, b, busy, heads, hput, rfl⟩
  · have hwait : some p ≠ r → p ∈ q.items := by
      intro hr
      refine hq.waiting p process hp hr (fun he => ?_)
      rw [process.inbox.wf he] at hl
      cases hl
    refine ⟨q, hq.setProcess hp (fun hr _ => hwait hr) (fun _ => Queue.whole_put _ _)
      (fun hm hr => hq.constructed p process hp hm hr), ?_⟩
    have := hlen rfl rfl
    omega
  · have hlive : (d.sched.process p).isSome := by
      rw [show d.sched.process p = _ from hp]
      rfl
    obtain ⟨b', root', heads', q', hput', hq', hitems, hlast, hkeep⟩ :=
      hq.enqueue hlive (hs process hp hl)
    obtain ⟨_, rfl, rfl⟩ : b' = b ∧ root' = busy ∧ heads' = heads := by
      simpa [show queuePut p d.sched.root d.sched.heads = _ from hput] using hput'.symm
    refine ⟨q', hq'.setProcess hp (fun _ _ => by rw [hitems]; simp)
      (fun _ => Queue.whole_put _ _) (fun hm hr => hq.constructed p process hp hm hr), ?_⟩
    have hqlen : q'.items.length = q.items.length + 1 := by rw [hitems]; simp
    have := hlen rfl rfl
    omega

theorem dispatchClones_load {ps : List ProcId} (h : Load r n d.sched)
    (hd : dispatchClones msg ps d = .ok d') (hs : ∀ p ∈ ps, d.sched.SafePut p) :
    Load r (n + 4 * ps.length) d'.sched := by
  induction ps generalizing d n with
  | nil =>
      obtain rfl : d = d' := Except.ok.inj hd
      exact h
  | cons p ps ih =>
      obtain ⟨d₁, h₁, hd⟩ := dispatchClones_cons hd
      have hl : Load r n (messageClone msg d).2.sched := h
      have hsafe : (messageClone msg d).2.sched.SafePut p := hs p List.mem_cons_self
      obtain ⟨q, hq, _⟩ := id hl
      have hputs : Puts r (messageClone msg d).2 d₁ := dispatchMsgSingle_puts ⟨q, hq⟩ h₁ hsafe
      have hrest := ih (dispatchMsgSingle_load hl h₁ hsafe) hd
        (fun a ha => hputs.safe a (hs a (List.mem_cons_of_mem _ ha)))
      have hlen : n + 4 * (p :: ps).length = n + 4 + 4 * ps.length := by
        rw [List.length_cons]
        omega
      rw [hlen]
      exact hrest

theorem Load.mono (h : Load r n s) (hle : n ≤ m) : Load r m s := by
  obtain ⟨q, hq, hn⟩ := h
  exact ⟨q, hq, hn.trans hle⟩

/-- The messages that a message can become, with their places in the queue. -/
def Domain.parcel (d : Domain) : Nat := 4 * (d.listOfProcesses.length + 1)

theorem dispatchMsgLocal_load {k : Nat} (h : Load r n d.sched)
    (hd : dispatchMsgLocal msg d = .ok (k, d'))
    (hs : ∀ p ∈ dispatchTargets msg.target msg.msgType d, d.sched.SafePut p) :
    Load r (n + d.parcel) d'.sched := by
  unfold dispatchTargets at hs
  unfold Domain.parcel
  cases dispatchMsgLocal_cases hd with
  | single p hpoff hget h₁ =>
      rw [if_pos hpoff, hget] at hs
      exact (dispatchMsgSingle_load h h₁ (hs p (List.mem_singleton_self p))).mono (by omega)
  | stale _ _ heq =>
      rw [heq]
      exact h.mono (by omega)
  | broadcast d₁ hpoff hty h₁ heq =>
      rw [if_neg (by simpa using hpoff), if_pos hty] at hs
      rw [heq]
      exact (dispatchClones_load h h₁ hs).mono (by omega)
  | collect _ _ heq =>
      rw [heq]
      exact h.mono (by omega)

/-- The same for a message that was just built. -/
theorem dispatchSent_load {k : Nat} (msg : Message) (h : Load r n d.sched)
    (hs : ∀ p ∈ dispatchTargets msg.target msg.msgType d, d.sched.SafePut p)
    (hd : dispatchMsgLocal msg (d.sending msg) = .ok (k, d')) : Load r (n + d.parcel) d'.sched := by
  have hl : Load r n (d.sending msg).sched := h
  have hs₁ : ∀ p ∈ dispatchTargets msg.target msg.msgType (d.sending msg),
      (d.sending msg).sched.SafePut p := hs
  have hload := dispatchMsgLocal_load hl hd hs₁
  exact hload

theorem sendIndirect_load {names : Nat → Pid} {target : Pid} {msgType : Int}
    {msgPayload : List UInt8} {msgPayloadSz : Int} (h : Load r n d.sched)
    (hsend : sendIndirect names target msgType msgPayload msgPayloadSz d = .ok d')
    (hs : ∀ p ∈ sendTargets names target msgType d, d.sched.SafePut p) :
    Load r (n + d.parcel) d'.sched := by
  obtain ⟨pid, hpid, _, _, _, ⟨hgid, k, hsend⟩ | ⟨hgid, _, rfl⟩⟩ := sendIndirect_cases hsend
  · unfold sendTargets at hs
    rw [hpid] at hs
    dsimp only at hs
    rw [if_pos hgid] at hs
    exact dispatchSent_load (d.newMessage pid msgType msgPayload msgPayloadSz.toNat) h hs hsend
  · exact h.mono (by omega)

/-! ## What is left to do -/

/-- The hungry processes that the cursor has not come to. -/
def remaining (hungry : List ProcId) : Option ProcId → Nat
  | none => hungry.length
  | some p => (hungry.dropWhile (fun q => q ≠ p)).length - 1

/-- The hungry processes that `worker_domain_run` still goes to. -/
def Domain.walk (d : Domain) : Nat :=
  match d.phase with
  | .idle => 0
  | .picked => d.listOfHungryProcesses.length
  | .finished => 0
  | .retired => 0
  | _ => remaining d.listOfHungryProcesses d.cursor

/-- The turns of `send_flush_outbox` that are left, each in two steps. -/
def flushStage (gid : Nat) (spliced : Bool) : Nat :=
  if spliced then 2 * (maxDomains - gid) + 2 else 2 * (maxDomains + 1 - gid) + 1

/-- The longest way from the callback of a process to the end of the `domain_run`. -/
def callbackStage : Nat := 2 * maxDomains + 9

def FlushFrom.stage : FlushFrom → Nat
  | .domainRun => 2
  | .callback _ _ _ => callbackStage
  | .outside => 0

/-- The longest way to the end of the turn, if nothing is left to do. -/
def Phase.stage : Phase → Nat
  | .idle => 0
  | .picked => callbackStage + 1
  | .entered => callbackStage
  | .dispatching again counter =>
      if again ∧ counter = 0 then 2 * maxDomains + 6 else 2 * maxDomains + 8
  | .queueRun => 2 * maxDomains + 7
  | .processRun _ => 2 * maxDomains + 8
  | .callback _ _ _ => callbackStage
  | .flush gid _ spliced back => back.stage + flushStage gid spliced
  | .ran _ => 2
  | .finished => 1
  | .retired => 0

/-- The messages that wait to be dispatched. -/
def Domain.posted (d : Domain) : Nat := d.remoteInbox.items.length + d.localInbox.items.length

/-- What is left to do apart from what is in the inboxes of the processes. -/
def Domain.todo (d : Domain) : Nat :=
  (d.parcel + 4) * d.posted + (d.parcel + callbackStage) * d.walk + d.phase.stage

/-- The schedule is in order, and `n` steps are enough to give the domain back. -/
def Domain.Within (n : Nat) (d : Domain) : Prop :=
  ∃ m, Load d.running m d.sched ∧ m + d.todo ≤ n

/-- The code of the library goes on, and no callback calls it. -/
def Act.library : Act → Bool
  | .mark => true
  | .splice => true
  | .dispatch => true
  | .nextProcess => true
  | .nextMessage => true
  | .ret _ => true
  | .flushTake _ => true
  | .flushWake _ => true
  | .next => true
  | .requeue => true
  | _ => false

theorem within_of_less (hl : Load d'.running m d'.sched) (hlt : m + d'.todo < n) :
    ∃ k < n, d'.Within k :=
  ⟨m + d'.todo, hlt, m, hl, Nat.le_refl _⟩

/-- A step that leaves the schedule alone, and what is to be dispatched. -/
theorem within_of_stage (hl : Load d.running m d.sched) (hn : m + d.todo ≤ n)
    (hsched : d'.sched = d.sched) (hrun : d'.running = d.running)
    (hposted : d'.posted ≤ d.posted) (hwalk : d'.walk ≤ d.walk)
    (hstage : d'.phase.stage < d.phase.stage) : ∃ k < n, d'.Within k := by
  refine within_of_less (by rw [hsched, hrun]; exact hl) ?_
  have hlist : d'.listOfProcesses = d.listOfProcesses := congrArg Sched.list hsched
  have hparcel : d'.parcel = d.parcel := by rw [Domain.parcel, Domain.parcel, hlist]
  have h₁ := Nat.mul_le_mul_left (d.parcel + 4) hposted
  have h₂ := Nat.mul_le_mul_left (d.parcel + callbackStage) hwalk
  unfold Domain.todo at hn ⊢
  rw [hparcel]
  omega

/-! ## The walk goes on -/

theorem dropWhile_ne_append {l₁ l₂ : List ProcId} (h : (l₁ ++ p :: l₂).Nodup) :
    (l₁ ++ p :: l₂).dropWhile (fun q => q ≠ p) = p :: l₂ := by
  induction l₁ with
  | nil => simp
  | cons a l₁ ih =>
      rw [List.cons_append, List.nodup_cons] at h
      have hap : a ≠ p := fun he => h.1 (by rw [he]; simp)
      rw [List.cons_append, List.dropWhile_cons_of_pos (by simpa using hap)]
      exact ih h.2

/-- The next hungry process has fewer behind it. -/
theorem remaining_next {egress : Nat} (hnodup : d.listOfHungryProcesses.Nodup)
    (h : nextHungry egress d = some p) :
    remaining d.listOfHungryProcesses (some p) < remaining d.listOfHungryProcesses d.cursor := by
  unfold nextHungry at h
  split at h
  · rename_i hcur
    split at h
    · obtain ⟨ps, hps⟩ := List.head?_eq_some_iff.1 h
      rw [hcur, hps]
      simp [remaining]
    · cases h
  · rename_i c hcur
    rw [hcur]
    obtain ⟨c', qs, hdrop⟩ : ∃ c' qs,
        d.listOfHungryProcesses.dropWhile (fun q => q ≠ c) = c' :: p :: qs := by
      cases hd : d.listOfHungryProcesses.dropWhile (fun q => q ≠ c) with
      | nil => rw [hd] at h; cases h
      | cons c' rest =>
          cases rest with
          | nil => rw [hd] at h; cases h
          | cons q qs =>
              rw [hd] at h
              obtain rfl : q = p := by simpa using h
              exact ⟨c', qs, rfl⟩
    have hsplit : d.listOfHungryProcesses
        = (d.listOfHungryProcesses.takeWhile (fun q => q ≠ c) ++ [c']) ++ p :: qs := by
      rw [List.append_assoc, List.singleton_append, ← hdrop, List.takeWhile_append_dropWhile]
    have hrest : d.listOfHungryProcesses.dropWhile (fun q => q ≠ p) = p :: qs := by
      rw [hsplit] at hnodup ⊢
      exact dropWhile_ne_append hnodup
    simp only [remaining, hrest, hdrop, List.length_cons]
    omega

/-- Whoever leaves, no more are left to go to. -/
theorem remaining_erase (q : ProcId) (hungry : List ProcId) (cursor : Option ProcId) :
    remaining (hungry.erase q) cursor ≤ remaining hungry cursor := by
  cases cursor with
  | none => exact List.length_erase_le
  | some p =>
      simp only [remaining]
      induction hungry with
      | nil => simp
      | cons a l ih =>
          have hdrop : (l.dropWhile (fun q => q ≠ p)).length ≤ l.length :=
            (List.dropWhile_sublist _).length_le
          have herase : (l.erase q).length ≤ l.length := List.length_erase_le
          by_cases hap : a = p
          · have hstop : ∀ l : List ProcId, (a :: l).dropWhile (fun q => q ≠ p) = a :: l :=
              fun l => List.dropWhile_cons_of_neg (by simpa using hap)
            by_cases haq : a = q
            · subst haq
              rw [List.erase_cons_head, hstop, List.length_cons]
              omega
            · rw [List.erase_cons_tail (by simpa using haq), hstop, hstop, List.length_cons,
                List.length_cons]
              omega
          · have hpass : ∀ l : List ProcId, (a :: l).dropWhile (fun q => q ≠ p)
                = l.dropWhile (fun q => q ≠ p) :=
              fun l => List.dropWhile_cons_of_pos (by simpa using hap)
            by_cases haq : a = q
            · subst haq
              rw [List.erase_cons_head, hpass]
            · rw [List.erase_cons_tail (by simpa using haq), hpass, hpass]
              exact ih

/-! ## Every step of the library lowers the bound -/

theorem splice_length (src dst : Queue Message) :
    (Queue.splice src dst).1.items.length + (Queue.splice src dst).2.items.length
      ≤ src.items.length + dst.items.length := by
  unfold Queue.splice
  split
  · exact Nat.le_refl _
  · split
    · dsimp only
      rw [Queue.items_init, List.length_nil, List.length_append]
      omega
    · dsimp only
      rw [Queue.items_init, List.length_nil]
      omega

/-- A turn of `send_flush_outbox` up to the splice. -/
theorem flushTake_within {gid counter : Nat} {back : FlushFrom} (victim : Bool)
    (hphase : d.phase = .flush gid counter false back) (hl : Load d.running m d.sched)
    (hn : m + d.todo ≤ n) : ∃ k < n, (flushTake gid counter back victim d).Within k := by
  have hsched := flushTake_sched gid counter back victim d
  have hrun : (flushTake gid counter back victim d).running = d.running := flushTake_running hphase
  have hposted : (flushTake gid counter back victim d).posted = d.posted := by
    unfold flushTake
    split_ifs
    · rfl
    · rfl
    · rfl
    · rw [drainMessageQueue_eq]
      rfl
  have hcursor : (flushTake gid counter back victim d).cursor = d.cursor ∧
      (flushTake gid counter back victim d).listOfHungryProcesses = d.listOfHungryProcesses := by
    unfold flushTake
    split_ifs
    · exact ⟨rfl, rfl⟩
    · exact ⟨rfl, rfl⟩
    · exact ⟨rfl, rfl⟩
    · rw [drainMessageQueue_eq]
      exact ⟨rfl, rfl⟩
  have hnext : (maxDomains ≤ gid ∧ (flushTake gid counter back victim d).phase = back.phase counter) ∨
      (gid < maxDomains ∧ ((flushTake gid counter back victim d).phase = .flush gid counter true back ∨
        (flushTake gid counter back victim d).phase = .flush (gid + 1) counter false back)) := by
    unfold flushTake
    split_ifs with hge hempty hvictim
    · exact Or.inl ⟨hge, rfl⟩
    · exact Or.inr ⟨Nat.lt_of_not_le hge, Or.inr rfl⟩
    · exact Or.inr ⟨Nat.lt_of_not_le hge, Or.inl rfl⟩
    · exact Or.inr ⟨Nat.lt_of_not_le hge, Or.inr rfl⟩
  have hwalk : d.walk = remaining d.listOfHungryProcesses d.cursor := by
    rw [Domain.walk, hphase]
  have hstage : d.phase.stage = back.stage + (2 * (maxDomains + 1 - gid) + 1) := by
    rw [hphase]
    rfl
  generalize flushTake gid counter back victim d = d' at hsched hrun hposted hcursor hnext
  refine within_of_stage hl hn hsched hrun (Nat.le_of_eq hposted) ?_ ?_
  · rw [hwalk, Domain.walk, hcursor.1, hcursor.2]
    rcases hnext with ⟨_, h⟩ | ⟨_, h | h⟩
    · rw [h]
      cases back with
      | outside => exact Nat.zero_le _
      | domainRun => exact Nat.le_refl _
      | callback p msg received => exact Nat.le_refl _
    · rw [h]
    · rw [h]
  · rw [hstage]
    rcases hnext with ⟨hge, h⟩ | ⟨hlt, h | h⟩
    · rw [h]
      cases back with
      | outside => exact Nat.succ_pos _
      | domainRun =>
          simp only [FlushFrom.phase, FlushFrom.stage, Phase.stage]
          omega
      | callback p msg received =>
          simp only [FlushFrom.phase, FlushFrom.stage, Phase.stage]
          omega
    · rw [h]
      simp only [Phase.stage, flushStage, if_true]
      omega
    · rw [h]
      simp only [Phase.stage, flushStage, Bool.false_eq_true, if_false]
      omega

/-- Overwrite a process. -/
def Sched.setProcess (p : ProcId) (process : Process) (s : Sched) : Sched :=
  { s with process := Function.update s.process p (some process) }

/-- Overwriting a process's inbox by one that is shorter, or no longer. -/
theorem unread_setProcess {process : Process} {k : Nat} (hq : Scheduled r s q)
    (hp : s.process p = some process) (process' : Process)
    (hlen : process'.inbox.items.length + k ≤ process.inbox.items.length) (hk : k ≤ 1) :
    (s.setProcess p process').unread + k ≤ s.unread := by
  have hlt : p < s.nextProc := hq.fresh p (by rw [hp]; rfl)
  have hself : (s.setProcess p process').unreadOf p + k ≤ s.unreadOf p := by
    simpa only [Sched.unreadOf, Sched.setProcess, Function.update_self, hp, Option.elim] using hlen
  have hoff : ∀ a, a ≠ p → (s.setProcess p process').unreadOf a ≤ s.unreadOf a := fun a ha => by
    simp [Sched.unreadOf, Sched.setProcess, Function.update_of_ne ha]
  rcases Nat.le_one_iff_eq_zero_or_eq_one.1 hk with rfl | rfl
  · exact sum_range_le_add (k := 0) (by omega) hoff
  · exact sum_range_succ_le hlt hself hoff

/-- A process that is freed takes its messages with it. -/
theorem processFree_within {msg : Message} {received : Bool} {d₁ : Domain}
    (hphase : d.phase = .callback p msg received) (hl : Load (some p) m d.sched)
    (hn : m + d.todo ≤ n) (h : processFree p (freeMessage msg (d.emit (.consumed p msg))) = .ok d₁) :
    ∃ k < n, ({ d₁ with phase := .queueRun, current := [] } : Domain).Within k := by
  obtain ⟨process, umap, enqueued, busy, heads, hp, _, he, hdel, rfl⟩ := processFree_cases h
  obtain ⟨q, hq, hle⟩ := hl
  obtain ⟨q', hitems, hq'⟩ := hq.remove (by rw [show d.sched.process p = _ from hp]; rfl) he hdel
  have hqlen : q'.items.length ≤ q.items.length := by
    rw [hitems]
    exact List.length_erase_le
  have hunread : ∀ s : Sched, s.nextProc = d.sched.nextProc →
      s.process = Function.update d.sched.process p none → s.unread ≤ d.sched.unread := by
    intro s hnext hproc
    unfold Sched.unread
    rw [hnext]
    refine Finset.sum_le_sum fun a _ => ?_
    by_cases hap : a = p
    · simp [Sched.unreadOf, hproc, hap]
    · simp [Sched.unreadOf, hproc, Function.update_of_ne hap]
  have hlist : (d.listOfProcesses.erase p).length ≤ d.listOfProcesses.length := List.length_erase_le
  have hwalk := remaining_erase p d.listOfHungryProcesses d.cursor
  refine within_of_less ⟨q', hq', Nat.le_trans ?_ hle⟩ ?_
  · exact Nat.add_le_add (Nat.mul_le_mul_left 2 (hunread _ rfl rfl)) (Nat.mul_le_mul_left 2 hqlen)
  · refine Nat.lt_of_lt_of_le ?_ hn
    have h₁ : 4 * ((d.listOfProcesses.erase p).length + 1) ≤ d.parcel := by
      unfold Domain.parcel
      omega
    have h₂ := Nat.mul_le_mul_right d.posted (Nat.add_le_add_right h₁ 4)
    have h₃ := Nat.mul_le_mul (Nat.add_le_add_right h₁ callbackStage) hwalk
    have hnow : d.todo = (d.parcel + 4) * d.posted
        + (d.parcel + callbackStage) * remaining d.listOfHungryProcesses d.cursor
        + callbackStage := by
      rw [Domain.todo, Domain.walk, hphase]
      rfl
    rw [hnow]
    show _ + ((4 * ((d.listOfProcesses.erase p).length + 1) + 4) * d.posted
      + (4 * ((d.listOfProcesses.erase p).length + 1) + callbackStage)
        * remaining (d.listOfHungryProcesses.erase p) d.cursor + (2 * maxDomains + 7)) < _
    have hstage : callbackStage = 2 * maxDomains + 9 := rfl
    omega

/-- **Every step of the library lowers the bound.** -/
theorem stepped_within {a : Act} (h : Stepped env d a d') (hlib : a.library = true)
    (hs : safeAct d (env, a)) (hnodup : d.listOfHungryProcesses.Nodup) (hw : d.Within n) :
    ∃ k < n, d'.Within k := by
  obtain ⟨m, hl, hn⟩ := hw
  cases h with
  | arrive | baseSend | baseSpawn | baseSpawn2 | api | pick => cases hlib
  | mark hphase =>
      refine within_of_stage hl hn rfl (by rw [Domain.running, Domain.running, hphase]; rfl)
        (Nat.le_refl _) (by simp [Domain.walk, hphase, remaining]) ?_
      rw [hphase]
      exact Nat.lt_succ_self _
  | splice hphase =>
      have hposted := splice_length d.remoteInbox d.localInbox
      refine within_of_stage hl hn rfl (by rw [Domain.running, Domain.running, hphase]; rfl)
        hposted (by simp [Domain.walk, hphase]) ?_
      rw [hphase]
      simp [Phase.stage, callbackStage]
  | dispatchNone again counter hphase hempty =>
      by_cases hlast : again = true ∧ counter = 0
      · rw [if_pos hlast]
        refine within_of_stage hl hn rfl (by rw [Domain.running, Domain.running, hphase]; rfl)
          (Nat.le_refl _) (by simp [Domain.walk, hphase]) ?_
        rw [hphase]
        simp [Phase.stage, hlast, FlushFrom.stage, flushStage]
        omega
      · rw [if_neg hlast]
        refine within_of_stage hl hn rfl (by rw [Domain.running, Domain.running, hphase]; rfl)
          (Nat.le_refl _) (by simp [Domain.walk, hphase]) ?_
        rw [hphase]
        simp [Phase.stage, hlast]
  | dispatchOne again counter msg localInbox delivered d₁ hphase hget h =>
      rw [Domain.running, hphase] at hl
      have hsafe : ∀ p ∈ dispatchTargets msg.target msg.msgType { d with localInbox := localInbox },
          ({ d with localInbox := localInbox } : Domain).sched.SafePut p := by
        intro p hp
        refine hs p ?_
        simp only [Act.targets, hget]
        exact hp
      have hl₁ : Load none m ({ d with localInbox := localInbox } : Domain).sched := hl
      have hsends := dispatchMsgLocal_sends h
      have hload := dispatchMsgLocal_load hl₁ h hsafe
      have hlocal : d.localInbox.items = msg :: localInbox.items := (Queue.get_eq_some hget).1
      have hparcel : d₁.parcel = d.parcel := by
        rw [Domain.parcel, hsends.frame.listOfProcesses]
        rfl
      have hposted : d.posted = d₁.posted + 1 := by
        rw [Domain.posted, Domain.posted, hsends.frame.remoteInbox, hsends.frame.localInbox, hlocal,
          List.length_cons]
        rfl
      have hwalk : remaining d₁.listOfHungryProcesses d₁.cursor
          = remaining d.listOfHungryProcesses d.cursor := by
        rw [hsends.hungry.1, hsends.hungry.2]
      refine within_of_less hload ?_
      have hold : d.todo = (d.parcel + 4) * d.posted
          + (d.parcel + callbackStage) * remaining d.listOfHungryProcesses d.cursor
          + (Phase.dispatching again counter).stage := by
        rw [Domain.todo, Domain.walk, hphase]
      have hnew : ({ d₁ with phase := .dispatching again (counter + delivered) } : Domain).todo
          = (d.parcel + 4) * d₁.posted
            + (d.parcel + callbackStage) * remaining d.listOfHungryProcesses d.cursor
            + (Phase.dispatching again (counter + delivered)).stage := by
        rw [← hwalk, ← hparcel]
        rfl
      have hstage : (Phase.dispatching again (counter + delivered)).stage
          ≤ (Phase.dispatching again counter).stage + 2 := by
        simp only [Phase.stage]
        split_ifs <;> omega
      -- the message taken pays for a copy to every process and for the stage
      rw [hold, hposted, Nat.mul_succ] at hn
      rw [hnew]
      show m + d.parcel + _ < n
      omega
  | queueNone busy heads hphase hget =>
      rw [Domain.running, hphase] at hl
      obtain ⟨q, hq, hle⟩ := id hl
      obtain ⟨_, hroot, hheads⟩ := hq.dequeue hget
      obtain rfl : busy = d.queueOfBusyProcesses := hroot
      obtain rfl : heads = d.inBusyQueue := hheads
      refine within_of_stage (d := d) (by rw [Domain.running, hphase]; exact hl) hn rfl
        (by rw [Domain.running, Domain.running, hphase]; rfl) (Nat.le_refl _)
        (by simp [Domain.walk, hphase]) ?_
      rw [hphase]
      simp [Phase.stage]
  | queueOne p busy heads hphase hget =>
      rw [Domain.running, hphase] at hl
      obtain ⟨q, hq, hle⟩ := hl
      -- one process less in the queue counts two, and the stage grows by one
      obtain ⟨q', hitems, hq'⟩ := hq.dequeue hget
      rw [hitems, List.length_cons] at hle
      refine within_of_less ⟨q', hq', Nat.le_refl _⟩ ?_
      have hold : d.todo = (d.parcel + 4) * d.posted
          + (d.parcel + callbackStage) * remaining d.listOfHungryProcesses d.cursor
          + (2 * maxDomains + 7) := by
        rw [Domain.todo, Domain.walk, hphase]
        rfl
      rw [hold] at hn
      show 2 * d.sched.unread + 2 * q'.items.length + ((d.parcel + 4) * d.posted
        + (d.parcel + callbackStage) * remaining d.listOfHungryProcesses d.cursor
        + (2 * maxDomains + 8)) < n
      omega
  | inboxNone p process hphase hp hempty =>
      rw [Domain.running, hphase] at hl
      obtain ⟨q, hq, hle⟩ := hl
      refine within_of_less ⟨q, hq.stop hp hempty, hle⟩ ?_
      have hold : d.todo = (d.parcel + 4) * d.posted
          + (d.parcel + callbackStage) * remaining d.listOfHungryProcesses d.cursor
          + (2 * maxDomains + 8) := by
        rw [Domain.todo, Domain.walk, hphase]
        rfl
      rw [hold] at hn
      show m + ((d.parcel + 4) * d.posted
        + (d.parcel + callbackStage) * remaining d.listOfHungryProcesses d.cursor
        + (2 * maxDomains + 7)) < n
      omega
  | inboxOne p process msg inbox hphase hp hget _ =>
      rw [Domain.running, hphase] at hl
      obtain ⟨q, hq, hle⟩ := hl
      have hitems := (Queue.get_eq_some hget).1
      have hq' : Scheduled (some p) (d.sched.setProcess p { process with inbox := inbox }) q :=
        hq.setProcess hp (fun hr => absurd rfl hr) (fun hr => absurd rfl hr)
          (fun _ hr => absurd rfl hr)
      -- the message read pays for the callback and the flush after it
      have hunread := unread_setProcess (k := 1) hq hp { process with inbox := inbox }
        (by rw [hitems, List.length_cons]) (Nat.le_refl _)
      have hload : Load (some p) _ (d.sched.setProcess p { process with inbox := inbox }) :=
        ⟨q, hq', Nat.le_refl _⟩
      refine within_of_less hload ?_
      have hold : d.todo = (d.parcel + 4) * d.posted
          + (d.parcel + callbackStage) * remaining d.listOfHungryProcesses d.cursor
          + (2 * maxDomains + 8) := by
        rw [Domain.todo, Domain.walk, hphase]
        rfl
      rw [hold] at hn
      show _ + ((d.parcel + 4) * d.posted
        + (d.parcel + callbackStage) * remaining d.listOfHungryProcesses d.cursor
        + callbackStage) < n
      have hstage : callbackStage = 2 * maxDomains + 9 := rfl
      omega
  | retOk p msg received hphase _ =>
      refine within_of_stage hl hn rfl (by rw [Domain.running, Domain.running, hphase]; rfl)
        (Nat.le_refl _) (by simp [Domain.walk, hphase, freeMessage, Domain.emit]) ?_
      rw [hphase]
      simp [Phase.stage, callbackStage]
  | retBadmatch p msg received process hphase _ hp =>
      rw [Domain.running, hphase] at hl
      obtain ⟨q, hq, hle⟩ := hl
      have hq' : Scheduled (some p)
          (d.sched.setProcess p { process with badmatch := (process.badmatch.put msg).2 }) q :=
        hq.setProcess hp (fun hr => absurd rfl hr) (fun hr => absurd rfl hr)
          (fun _ hr => absurd rfl hr)
      have hunread := unread_setProcess (k := 0) hq hp
        { process with badmatch := (process.badmatch.put msg).2 } (Nat.le_refl _) (Nat.zero_le _)
      have hload : Load (some p) _
          (d.sched.setProcess p { process with badmatch := (process.badmatch.put msg).2 }) :=
        ⟨q, hq', Nat.le_refl _⟩
      refine within_of_less hload ?_
      have hold : d.todo = (d.parcel + 4) * d.posted
          + (d.parcel + callbackStage) * remaining d.listOfHungryProcesses d.cursor
          + callbackStage := by
        rw [Domain.todo, Domain.walk, hphase]
        rfl
      rw [hold] at hn
      show _ + ((d.parcel + 4) * d.posted
        + (d.parcel + callbackStage) * remaining d.listOfHungryProcesses d.cursor
        + (2 * maxDomains + 8)) < n
      have hstage : callbackStage = 2 * maxDomains + 9 := rfl
      omega
  | retExit p msg received d₁ hphase _ h =>
      rw [Domain.running, hphase] at hl
      exact processFree_within hphase hl hn h
  | flushTake victim gid counter back hphase => exact flushTake_within victim hphase hl hn
  | flushWake dequeued gid counter back hphase =>
      have hsame : ∀ d₁ : Domain, d₁.sched = d.sched → d₁.posted = d.posted →
          d₁.listOfHungryProcesses = d.listOfHungryProcesses → d₁.cursor = d.cursor →
          ∃ k < n, ({ d₁ with
            phase := .flush (gid + 1) (counter + 1) false back } : Domain).Within k := by
        intro d₁ hsched hposted hlist hcursor
        refine within_of_stage hl hn hsched ?_ (Nat.le_of_eq hposted) ?_ ?_
        · rw [Domain.running, Domain.running, hphase]
          cases back <;> rfl
        · simp [Domain.walk, hphase, hlist, hcursor]
        · rw [hphase]
          simp only [Phase.stage, flushStage, Bool.false_eq_true, if_false, if_true]
          omega
      cases dequeued with
      | false => exact hsame d rfl rfl rfl rfl
      | true => exact hsame (d.emit (.woke gid)) rfl rfl rfl rfl
  | nextNested egress p hphase hnext h =>
      obtain ⟨process, d₁, hproc, hsend, rfl⟩ := sendQueueEmpty_cases h
      rw [Domain.running, hphase] at hl
      have hsafe : ∀ q ∈ sendTargets env.names process.pid msgQueueEmpty d,
          d.sched.SafePut q := by
        intro q hq
        refine hs q ?_
        simp only [Act.targets, hphase, hnext, Option.bind_some, hproc]
        exact hq
      have hsends := sendIndirect_sends hsend
      have hload := sendIndirect_load hl hsend hsafe
      have hfewer := remaining_next hnodup hnext
      have hparcel : d₁.parcel = d.parcel := by
        rw [Domain.parcel, Domain.parcel, hsends.frame.listOfProcesses]
      have hposted : d₁.posted = d.posted := by
        rw [Domain.posted, Domain.posted, hsends.frame.remoteInbox, hsends.frame.localInbox]
      refine within_of_less hload ?_
      have hold : d.todo = (d.parcel + 4) * d.posted
          + (d.parcel + callbackStage) * remaining d.listOfHungryProcesses d.cursor + 2 := by
        rw [Domain.todo, Domain.walk, hphase]
        rfl
      have hnew : ({ d₁ with phase := .entered, cursor := some p } : Domain).todo
          = (d.parcel + 4) * d.posted
            + (d.parcel + callbackStage) * remaining d.listOfHungryProcesses (some p)
            + callbackStage := by
        rw [← hparcel, ← hposted, ← hsends.hungry.1]
        rfl
      have hcost := Nat.mul_le_mul_left (d.parcel + callbackStage) (Nat.succ_le_of_lt hfewer)
      rw [Nat.mul_succ] at hcost
      rw [hold] at hn
      rw [hnew]
      omega
  | nextDone egress cursor hphase =>
      refine within_of_stage hl hn rfl (by rw [Domain.running, Domain.running, hphase]; rfl)
        (Nat.le_refl _) (Nat.zero_le _) ?_
      rw [hphase]
      exact Nat.lt_succ_self _
  | retire hphase _ =>
      refine within_of_stage hl hn rfl (by rw [Domain.running, Domain.running, hphase]; rfl)
        (Nat.le_refl _) (Nat.zero_le _) ?_
      rw [hphase]
      exact Nat.lt_succ_self _
  | requeue hphase _ =>
      refine within_of_stage hl hn rfl (by rw [Domain.running, Domain.running, hphase]; rfl)
        (Nat.le_refl _) (Nat.zero_le _) ?_
      rw [hphase]
      exact Nat.lt_succ_self _

end Msock
