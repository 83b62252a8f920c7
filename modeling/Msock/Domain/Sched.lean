import Msock.Domain.Roster

/-!
# The queue of busy processes

A process is put on `queue_of_busy_processes` when its inbox goes from `last == NULL`
to non-empty, and taken off when it runs. `dispatch_msg_single` does not ask whether
the process is queued already, and `queue_put` does not look at `first`; so two
situations break the queue, and they are the only ones. A process that sends to
itself, is drained and is sent to again while it is still queued is put a second
time. And a queue whose last member was deleted by an exiting process has lost
its `last`; the next put drops whatever it holds.

`SafePut` says that neither is the case. In a run in which every message is put
safely, the queue is a NULL-terminated list without repetition, and every process
with an unread message is in it, the running one apart.
-/

namespace Msock

open Lib

/-! ## What scheduling looks at -/

/-- The part of a domain that decides who runs next. -/
structure Sched where
  root : QueueRoot ProcId
  heads : Links ProcId
  process : ProcId → Option Process
  list : List ProcId
  nextProc : Nat
  current : List ProcId

/-- The schedule of a domain. -/
def Domain.sched (d : Domain) : Sched where
  root := d.queueOfBusyProcesses
  heads := d.inBusyQueue
  process := d.process
  list := d.listOfProcesses
  nextProc := d.nextProc
  current := d.current

/-- The process `p` may be queued now: it is not queued, and the queue knows its last member. -/
def Sched.Ready (s : Sched) (p : ProcId) : Prop :=
  s.heads p = some .poison ∧ (s.root.first = .null ∨ s.root.last ≠ .null)

/-- A message put into the inbox of `p` does no harm: if `p` gets queued, it may be. -/
def Sched.SafePut (s : Sched) (p : ProcId) : Prop :=
  ∀ process, s.process p = some process → process.inbox.lastSet = false → s.Ready p

instance (s : Sched) (p : ProcId) : Decidable (s.Ready p) :=
  inferInstanceAs (Decidable (_ ∧ _))

instance (s : Sched) (p : ProcId) : Decidable (s.SafePut p) :=
  match hp : s.process p with
  | none => isTrue (fun process h => by rw [hp] at h; cases h)
  | some process =>
      decidable_of_iff (process.inbox.lastSet = false → s.Ready p)
        ⟨fun h _ hpr => by rw [hp] at hpr; cases hpr; exact h, fun h => h process hp⟩

/-- Every message the act puts, it puts safely. -/
def safeAct (d : Domain) (a : Env × Act) : Prop :=
  ∀ p ∈ a.2.targets a.1 d, d.sched.SafePut p

instance (d : Domain) (a : Env × Act) : Decidable (safeAct d a) :=
  inferInstanceAs (Decidable (∀ p ∈ a.2.targets a.1 d, d.sched.SafePut p))

/-! ## The invariant -/

/-- The schedule `s`, its queue showing `q`, while `r` is inside `process_run`. -/
structure Scheduled (r : Option ProcId) (s : Sched) (q : Queue ProcId) : Prop where
  repr : Repr s.heads s.root q
  /-- A process is in memory together with its head. -/
  heads : ∀ p, (s.heads p).isSome = (s.process p).isSome
  /-- `queue_is_enqueued` tells the truth. -/
  off : ∀ p, (s.process p).isSome → p ∉ q.items → s.heads p = some .poison
  /-- An unread message means a place in the queue. -/
  waiting : ∀ p process, s.process p = some process → some p ≠ r →
    process.inbox.items ≠ [] → p ∈ q.items
  /-- Only the running process can have an inbox whose `last` was lost. -/
  whole : ∀ p process, s.process p = some process → some p ≠ r → process.inbox.Whole
  listed : ∀ p, (s.process p).isSome → p ∈ s.list
  fresh : ∀ p, (s.process p).isSome → p < s.nextProc
  /-- A process under construction has nothing set aside. -/
  constructed : ∀ p process, s.process p = some process → p ∈ s.current → some p ≠ r →
    process.badmatch.items = []

section Schedule
variable {r : Option ProcId} {s : Sched} {q : Queue ProcId} {p : ProcId}
  {process process' : Process}

theorem Scheduled.live_of_mem (h : Scheduled r s q) (hp : p ∈ q.items) : (s.process p).isSome := by
  rw [← h.heads p]
  exact Seg.isSome h.repr.chain p hp

theorem Scheduled.poison_iff (h : Scheduled r s q) (hp : (s.process p).isSome) :
    s.heads p = some .poison ↔ p ∉ q.items :=
  ⟨fun hh hm => h.repr.not_poison p hm hh, h.off p hp⟩

/-- What overwriting one process has to keep. -/
theorem Scheduled.setProcess (h : Scheduled r s q) (hp : s.process p = some process)
    (hwait : some p ≠ r → process'.inbox.items ≠ [] → p ∈ q.items)
    (hwhole : some p ≠ r → process'.inbox.Whole)
    (hctor : p ∈ s.current → some p ≠ r → process'.badmatch.items = []) :
    Scheduled r { s with process := Function.update s.process p (some process') } q := by
  have hsome : ∀ a, (Function.update s.process p (some process') a).isSome
      = (s.process a).isSome := by
    intro a
    by_cases ha : a = p
    · subst ha
      rw [Function.update_self, hp]
      rfl
    · rw [Function.update_of_ne ha]
  refine ⟨h.repr, fun a => (h.heads a).trans (hsome a).symm, fun a ha => ?_, fun a pr ha => ?_,
    fun a pr ha => ?_, fun a ha => ?_, fun a ha => ?_, fun a pr ha => ?_⟩
  · exact h.off a (hsome a ▸ ha)
  · by_cases hap : a = p
    · subst hap
      obtain rfl : process' = pr := by simpa using ha
      exact hwait
    · exact h.waiting a pr (by simpa [Function.update_of_ne hap] using ha)
  · by_cases hap : a = p
    · subst hap
      obtain rfl : process' = pr := by simpa using ha
      exact hwhole
    · exact h.whole a pr (by simpa [Function.update_of_ne hap] using ha)
  · exact h.listed a (hsome a ▸ ha)
  · exact h.fresh a (hsome a ▸ ha)
  · by_cases hap : a = p
    · subst hap
      obtain rfl : process' = pr := by simpa using ha
      exact hctor
    · exact h.constructed a pr (by simpa [Function.update_of_ne hap] using ha)

/-- A process that may be queued is appended. -/
theorem Scheduled.enqueue (h : Scheduled r s q) (hp : (s.process p).isSome) (hready : s.Ready p) :
    ∃ b root heads q', queuePut p s.root s.heads = some (b, root, heads) ∧
      Scheduled r { s with root := root, heads := heads } q' ∧ q'.items = q.items ++ [p] ∧
      root.last ≠ .null ∧ ∀ a, a ≠ p → s.heads a = some .poison → heads a = some .poison := by
  obtain ⟨hpoison, hlast⟩ := hready
  have hmem : p ∉ q.items := (h.poison_iff hp).mp hpoison
  have hwhole : q.Whole := by
    intro hne
    rcases hlast with hf | hl
    · exact absurd (h.repr.first_eq_null.mp hf) hne
    · rw [h.repr.last] at hl
      simpa using fun hf => hl (Queue.lastPtr_eq_null.mpr hf)
  obtain ⟨root, heads, hput, hrepr, hframe, hdom⟩ :=
    h.repr.put (by rw [h.heads p]; exact hp) hmem
  have hitems := (hwhole.put p).1
  have hsub : ∀ a, a ∈ q.items → a ∈ (q.put p).2.items := fun a ha => by
    rw [hitems]
    exact List.mem_append_left _ ha
  have hkeep : ∀ a, a ≠ p → s.heads a = some .poison → heads a = some .poison := by
    intro a ha hh
    rw [hframe a ha (fun hm => h.repr.not_poison a hm hh), hh]
  refine ⟨_, root, heads, (q.put p).2, hput, ⟨hrepr, fun a => (hdom a).trans (h.heads a),
    fun a ha hm => ?_, fun a pr ha hr hne => hsub a (h.waiting a pr ha hr hne), h.whole, h.listed,
    h.fresh, h.constructed⟩, hitems, ?_, hkeep⟩
  · rw [hitems, List.mem_append, List.mem_singleton, not_or] at hm
    exact hkeep a hm.2 (h.off a ha hm.1)
  · rw [hrepr.last]
    intro hnull
    have := Queue.whole_put q p (by rw [hitems]; simp)
    rw [Queue.lastPtr_eq_null.mp hnull] at this
    cases this

/-- The first process is taken off and runs. -/
theorem Scheduled.dequeue (h : Scheduled none s q) {head : Option ProcId} {root : QueueRoot ProcId}
    {heads : Links ProcId} (hget : queueGet s.root s.heads = some (head, root, heads)) :
    match head with
    | none => q.items = [] ∧ root = s.root ∧ heads = s.heads
    | some p => ∃ q', q.items = p :: q'.items ∧
        Scheduled (some p) { s with root := root, heads := heads, current := [p] } q' := by
  have hrepr := h.repr.get
  cases hq : q.get with
  | none =>
      rw [hq] at hrepr
      obtain ⟨rfl, rfl, rfl⟩ : none = head ∧ s.root = root ∧ s.heads = heads := by
        simpa [hrepr] using hget
      exact ⟨Queue.get_eq_none.mp hq, rfl, rfl⟩
  | some xq =>
      obtain ⟨x, q'⟩ := xq
      rw [hq] at hrepr
      obtain ⟨root', hrun, hrepr'⟩ := hrepr
      obtain ⟨rfl, rfl, rfl⟩ : some x = head ∧ root' = root
          ∧ Function.update s.heads x (some .poison) = heads := by
        simpa [hrun] using hget
      have hitems := (Queue.get_eq_some hq).1
      have hlive := h.live_of_mem (p := x) (by rw [hitems]; exact List.mem_cons_self)
      refine ⟨q', hitems, hrepr', fun a => ?_, fun a ha hm => ?_, fun a pr ha hr hne => ?_,
        fun a pr ha _ => h.whole a pr ha (by simp), h.listed, h.fresh, fun a pr ha hm hr => ?_⟩
      · by_cases hax : a = x
        · subst hax
          simp only [Function.update_self, hlive]
          rfl
        · simp only [Function.update_of_ne hax]
          exact h.heads a
      · by_cases hax : a = x
        · subst hax
          exact Function.update_self ..
        · simp only [Function.update_of_ne hax]
          refine h.off a ha ?_
          rw [hitems]
          exact fun hmem => (List.mem_cons.mp hmem).elim hax hm
      · have hmem := h.waiting a pr ha (by simp) hne
        rw [hitems] at hmem
        rcases List.mem_cons.mp hmem with hax | hmem
        · exact absurd (congrArg some hax) hr
        · exact hmem
      · exact absurd (congrArg some (List.mem_singleton.mp hm)) hr

/-- A process whose inbox is empty stops running. -/
theorem Scheduled.stop (h : Scheduled (some p) s q) (hp : s.process p = some process)
    (hempty : process.inbox.items = []) : Scheduled none { s with current := [] } q := by
  refine ⟨h.repr, h.heads, h.off, fun a pr ha _ hne => ?_, fun a pr ha _ => ?_, h.listed, h.fresh,
    fun _ _ _ hm => absurd hm List.not_mem_nil⟩
  · by_cases hap : a = p
    · subst hap
      obtain rfl : process = pr := Option.some.inj (hp.symm.trans ha)
      exact absurd hempty hne
    · exact h.waiting a pr ha (fun he => hap (Option.some.inj he)) hne
  · by_cases hap : a = p
    · subst hap
      obtain rfl : process = pr := Option.some.inj (hp.symm.trans ha)
      exact fun hne => absurd hempty hne
    · exact h.whole a pr ha (fun he => hap (Option.some.inj he))

/-- Fewer processes are under construction. -/
theorem Scheduled.setCurrent (h : Scheduled r s q) {current : List ProcId}
    (hc : ∀ p ∈ current, p ∈ s.current) : Scheduled r { s with current := current } q :=
  ⟨h.repr, h.heads, h.off, h.waiting, h.whole, h.listed, h.fresh,
    fun p pr hp hm => h.constructed p pr hp (hc p hm)⟩

/-- A new process is off the queue, and may be under construction. -/
theorem Scheduled.spawn (h : Scheduled r s q) (pid : Pid) (receiveCallback : Option Nat)
    {current : List ProcId} (hc : ∀ p ∈ current, p = s.nextProc ∨ p ∈ s.current) :
    Scheduled r { s with
      process := Function.update s.process s.nextProc
        (some ⟨pid, Queue.init, Queue.init, receiveCallback⟩)
      list := s.nextProc :: s.list
      heads := initQueueHead s.heads s.nextProc
      nextProc := s.nextProc + 1
      current := current } q := by
  have hnew : ¬ (s.process s.nextProc).isSome := fun hs => lt_irrefl _ (h.fresh _ hs)
  have hnq : s.nextProc ∉ q.items := fun hm => hnew (h.live_of_mem hm)
  have hself : ∀ pr, Function.update s.process s.nextProc
      (some ⟨pid, Queue.init, Queue.init, receiveCallback⟩) s.nextProc = some pr →
      pr.inbox = Queue.init ∧ pr.badmatch = Queue.init := by
    intro pr hpr
    rw [Function.update_self, Option.some.injEq] at hpr
    exact hpr ▸ ⟨rfl, rfl⟩
  refine ⟨h.repr.update hnq, fun a => ?_, fun a ha hm => ?_, fun a pr ha hr hne => ?_,
    fun a pr ha hr => ?_, fun a ha => ?_, fun a ha => ?_, fun a pr ha hm hr => ?_⟩ <;>
    by_cases hap : a = s.nextProc
  · subst hap
    simp [initQueueHead]
  · simp only [initQueueHead, Function.update_of_ne hap]
    exact h.heads a
  · subst hap
    exact Function.update_self ..
  · simp only [initQueueHead, Function.update_of_ne hap] at ha ⊢
    exact h.off a ha hm
  · subst hap
    exact absurd (by rw [(hself pr ha).1]; rfl) hne
  · exact h.waiting a pr (by simpa [Function.update_of_ne hap] using ha) hr hne
  · subst hap
    rw [(hself pr ha).1]
    exact Queue.whole_init
  · exact h.whole a pr (by simpa [Function.update_of_ne hap] using ha) hr
  · exact List.mem_cons.mpr (Or.inl hap)
  · exact List.mem_cons_of_mem _ (h.listed a (by simpa [Function.update_of_ne hap] using ha))
  · exact hap ▸ Nat.lt_succ_self _
  · exact Nat.lt_succ_of_lt (h.fresh a (by simpa [Function.update_of_ne hap] using ha))
  · subst hap
    rw [(hself pr ha).2]
    rfl
  · refine h.constructed a pr (by simpa [Function.update_of_ne hap] using ha) ?_ hr
    exact (hc a hm).resolve_left hap

/-- The removal of a process from the queue goes through, and takes out that process alone. -/
theorem Scheduled.busyDel (h : Scheduled r s q) (hp : (s.process p).isSome) :
    ∃ enqueued root heads q', queueIsEnqueued s.heads p = some enqueued ∧
      ((enqueued = true ∧
          queueSlowDel (s.list.length + 1) p s.root s.heads = some (root, heads)) ∨
        (enqueued = false ∧ root = s.root ∧ heads = s.heads)) ∧
      Repr heads root q' ∧ q'.items = q.items.erase p ∧
      (∀ a, a ∉ q.items → heads a = s.heads a) ∧
      ∀ a, (heads a).isSome = (s.heads a).isSome := by
  by_cases hpq : p ∈ q.items
  · -- queued: the deletion finds it, because every queued process is listed
    obtain ⟨v, hv⟩ := Option.isSome_iff_exists.mp ((h.heads p).trans hp)
    have hne : v ≠ .poison := fun he => h.repr.not_poison p hpq (by rw [hv, he])
    obtain ⟨l₁, l₂, hsplit⟩ := List.append_of_mem hpq
    have hlen : q.items.length ≤ s.list.length :=
      (h.repr.nodup.subperm (fun a ha => h.listed a (h.live_of_mem ha))).length_le
    have hfuel : l₁.length < s.list.length + 1 := by
      rw [hsplit] at hlen
      simp only [List.length_append, List.length_cons] at hlen
      omega
    obtain ⟨root, heads, q', hrun, hrepr, hitems, _, _, hframe, hdom⟩ :=
      h.repr.slowDel hsplit hfuel
    have hnd := h.repr.nodup
    rw [hsplit] at hnd
    have hp₁ : p ∉ l₁ := by
      intro hm
      exact (List.nodup_append.mp hnd).2.2 p hm p List.mem_cons_self rfl
    refine ⟨true, root, heads, q', ?_, Or.inl ⟨rfl, hrun⟩, hrepr, ?_, hframe, hdom⟩
    · rw [queueIsEnqueued, hv]
      simp [hne]
    · rw [hitems, hsplit, List.erase_append_right _ hp₁, List.erase_cons_head]
  · -- not queued
    refine ⟨false, s.root, s.heads, q, ?_, Or.inr ⟨rfl, rfl, rfl⟩, h.repr, ?_, fun _ _ => rfl,
      fun _ => rfl⟩
    · rw [queueIsEnqueued, h.off p hp hpq]
      rfl
    · exact (List.erase_of_not_mem hpq).symm

/-- A process leaves the memory, and its place in the queue if it has one. -/
theorem Scheduled.remove (h : Scheduled (some p) s q) (hp : (s.process p).isSome)
    {enqueued : Bool} {root : QueueRoot ProcId} {heads : Links ProcId}
    (he : queueIsEnqueued s.heads p = some enqueued)
    (hdel : (enqueued = true ∧
        queueSlowDel (s.list.length + 1) p s.root s.heads = some (root, heads)) ∨
      (enqueued = false ∧ root = s.root ∧ heads = s.heads)) :
    ∃ q', q'.items = q.items.erase p ∧ Scheduled none { s with
      root := root
      heads := Function.update heads p none
      process := Function.update s.process p none
      list := s.list.erase p
      current := [] } q' := by
  obtain ⟨enqueued', root', heads', q', he', hdel', hrepr, hitems, hframe, hdom⟩ := h.busyDel hp
  obtain rfl : enqueued' = enqueued := Option.some.inj (he'.symm.trans he)
  obtain ⟨rfl, rfl⟩ : root' = root ∧ heads' = heads := by
    rcases hdel' with ⟨rfl, hrun'⟩ | ⟨rfl, rfl, rfl⟩
    · rcases hdel with ⟨_, hrun⟩ | ⟨hfalse, _⟩
      · exact Prod.mk.inj (Option.some.inj (hrun'.symm.trans hrun))
      · cases hfalse
    · rcases hdel with ⟨hfalse, _⟩ | ⟨_, rfl, rfl⟩
      · cases hfalse
      · exact ⟨rfl, rfl⟩
  have hmem : ∀ a, a ∈ q'.items ↔ a ≠ p ∧ a ∈ q.items := fun a => by
    rw [hitems, h.repr.nodup.mem_erase_iff]
  -- each field of `Scheduled` for the process that goes, then for the others
  refine ⟨q', hitems, hrepr.update (fun hm => ((hmem p).mp hm).1 rfl), fun a => ?_,
    fun a ha hm => ?_, fun a pr ha _ hne => ?_,
    fun a pr ha _ => ?_, fun a ha => ?_, fun a ha => ?_, fun a pr ha hm _ => ?_⟩ <;>
    by_cases hap : a = p
  · subst hap
    simp
  · simp only [Function.update_of_ne hap]
    exact (hdom a).trans (h.heads a)
  · subst hap
    simp at ha
  · simp only [Function.update_of_ne hap] at ha ⊢
    have hnot : a ∉ q.items := fun hq => hm ((hmem a).mpr ⟨hap, hq⟩)
    rw [hframe a hnot]
    exact h.off a ha hnot
  · subst hap
    simp at ha
  · simp only [Function.update_of_ne hap] at ha
    exact (hmem a).mpr ⟨hap, h.waiting a pr ha (fun hs => hap (Option.some.inj hs)) hne⟩
  · subst hap
    simp at ha
  · simp only [Function.update_of_ne hap] at ha
    exact h.whole a pr ha (fun hs => hap (Option.some.inj hs))
  · subst hap
    simp at ha
  · simp only [Function.update_of_ne hap] at ha
    exact (List.mem_erase_of_ne hap).mpr (h.listed a ha)
  · subst hap
    simp at ha
  · simp only [Function.update_of_ne hap] at ha
    exact h.fresh a ha
  · exact absurd hm List.not_mem_nil
  · exact absurd hm List.not_mem_nil

end Schedule

end Msock
