import Msock.Lib.Runs
import Msock.Domain.Basic

/-!
# Domains that wait while all workers block

`msock_base_loop` has as many workers as there are engines, and each engine can block one
of them, so nobody may be left for the user domain. That is meant to be harmless: an engine
blocks only after a run in which it sent nothing, and what was sent to the user domain
before is ahead of it in `queue_of_domains`.

The model follows a worker through `worker_domain_run`, splice by splice and outbox by
outbox. Of a message only the sender is kept, of a domain whether it has a process left.
The user domain is `none`; the engines are named by `ε`, and each has one process, which is
hungry. A blocked engine may wake at any time: there may always be an external event.
-/

namespace Msock

open Lib

universe u
variable {ε : Type u}

/-- Where a worker is. -/
inductive LoopWorker (ε : Type u) where
  /-- At the head of `worker_loop`. -/
  | looping
  /-- `domain_run` is entered for the first time. -/
  | picked (domain : Option ε)
  /-- Callbacks run, in the second `domain_run` or the first; whom the outboxes are for. -/
  | running (domain : Option ε) (again : Bool) (outbox : List (Option ε))
  /-- In `send_flush_outbox`, with these domains to come. -/
  | flushing (domain : Option ε) (again : Bool) (gids outbox : List (Option ε)) (counter : Nat)
  /-- The first `domain_run` returned. -/
  | ran (domain : Option ε) (egressMsgs : Nat)
  /-- `MSG_QUEUE_EMPTY` was sent, and `domain_run` is entered again. -/
  | asked (domain : Option ε)
  /-- In `process_block`. -/
  | blocked (domain : Option ε)
  /-- `worker_domain_run` returned. -/
  | finished (domain : Option ε)
  /-- Out of `worker_loop`. -/
  | exited
  deriving DecidableEq

/-- The domain that a worker holds. -/
def LoopWorker.held : LoopWorker ε → Option (Option ε)
  | .looping => none
  | .picked d => some d
  | .running d _ _ => some d
  | .flushing d _ _ _ _ => some d
  | .ran d _ => some d
  | .asked d => some d
  | .blocked d => some d
  | .finished d => some d
  | .exited => none

/-- A base inside `msock_base_loop`. -/
structure BaseLoop (ε : Type u) where
  /-- All domains, by gid. -/
  domains : List (Option ε)
  queueOfDomains : List (Option ε)
  /-- The senders of the messages in each remote inbox. -/
  remoteInbox : Option ε → List (Option ε)
  /-- `list_of_processes` is not empty. -/
  populated : Option ε → Bool
  workers : List (LoopWorker ε)
  /-- Ghost: the domains that were not put back. -/
  retired : List (Option ε)

/-- The user domain has gid 1, the engines follow; every domain was queued by `domain_new`.
`msock_base_send` may have sent `sent e` messages to the engine `e`, in the name of the user
domain. -/
def BaseLoop.init (engines : List ε) (sent : ε → Nat) : BaseLoop ε where
  domains := none :: engines.map some
  queueOfDomains := none :: engines.map some
  remoteInbox := fun d => d.elim [] fun e => List.replicate (sent e) none
  populated := fun _ => true
  workers := List.replicate (max 1 engines.length) .looping
  retired := []

/-- What worker `w` does next. -/
inductive LoopAct (ε : Type u) where
  /-- `msqueue_get`. -/
  | get (w : Nat)
  /-- `domain_run` takes the remote inbox. -/
  | splice (w : Nat)
  /-- A callback sends a message to another domain. -/
  | send (w : Nat) (target : Option ε)
  /-- The last process of the domain exits. -/
  | exit (w : Nat)
  /-- `send_flush_outbox` starts. -/
  | flush (w : Nat)
  /-- A turn of its loop. -/
  | flushTurn (w : Nat)
  /-- It returns, and `domain_run` with it. -/
  | flushEnd (w : Nat)
  /-- `worker_domain_run` decides whether to block. -/
  | decide (w : Nat)
  /-- `process_block` goes on. -/
  | wake (w : Nat)
  /-- The end of the body of `worker_loop`. -/
  | put (w : Nat)
  deriving DecidableEq

/-- Worker `w` goes on. -/
def BaseLoop.setWorker (w : Nat) (worker : LoopWorker ε) (s : BaseLoop ε) : BaseLoop ε :=
  { s with workers := s.workers.set w worker }

variable [DecidableEq ε]

/-- The remote inbox of a domain is overwritten. -/
def BaseLoop.setRemote (d : Option ε) (inbox : List (Option ε)) (s : BaseLoop ε) : BaseLoop ε :=
  { s with remoteInbox := Function.update s.remoteInbox d inbox }

@[simp] theorem setRemote_self (d : Option ε) (inbox : List (Option ε)) (s : BaseLoop ε) :
    (s.setRemote d inbox).remoteInbox d = inbox := Function.update_self ..

theorem setRemote_of_ne {d e : Option ε} (h : e ≠ d) (inbox : List (Option ε)) (s : BaseLoop ε) :
    (s.setRemote d inbox).remoteInbox e = s.remoteInbox e := Function.update_of_ne h ..

/-- One step of worker `w`. -/
def BaseLoop.step (a : LoopAct ε) (s : BaseLoop ε) : Except Stop (BaseLoop ε) :=
  match a with
  | .get w =>
      match s.workers[w]? with
      | some .looping =>
          match s.queueOfDomains with
          -- a worker that finds no domain ends for good
          | [] => .ok (s.setWorker w .exited)
          | d :: queue => .ok ({ s with queueOfDomains := queue }.setWorker w (.picked d))
      | _ => .error .disabled
  | .splice w =>
      match s.workers[w]? with
      | some (.picked d) => .ok ((s.setRemote d []).setWorker w (.running d false []))
      -- MSG_QUEUE_EMPTY comes before what is taken now
      | some (.asked d) => .ok ((s.setRemote d []).setWorker w (.blocked d))
      | _ => .error .disabled
  | .send w target =>
      match s.workers[w]? with
      | some (.running d again outbox) =>
          if target ∈ s.domains ∧ target ≠ d then
            .ok (s.setWorker w (.running d again (outbox ++ [target])))
          else .error .disabled
      | _ => .error .disabled
  | .exit w =>
      match s.workers[w]? with
      | some (.running d _ _) => .ok { s with populated := Function.update s.populated d false }
      | _ => .error .disabled
  | .flush w =>
      match s.workers[w]? with
      | some (.running d again outbox) =>
          .ok (s.setWorker w (.flushing d again s.domains outbox 0))
      | _ => .error .disabled
  | .flushTurn w =>
      match s.workers[w]? with
      | some (.flushing d again (gid :: gids) outbox counter) =>
          if gid ∈ outbox then
            -- a blocked engine that this wakes goes on by `wake`, which needs no message
            .ok ((s.setRemote gid (s.remoteInbox gid ++ (outbox.filter (· = gid)).map fun _ => d)
              ).setWorker w (.flushing d again gids outbox (counter + 1)))
          else .ok (s.setWorker w (.flushing d again gids outbox counter))
      | _ => .error .disabled
  | .flushEnd w =>
      match s.workers[w]? with
      | some (.flushing d again [] _ counter) =>
          .ok (s.setWorker w (if again then .finished d else .ran d counter))
      | _ => .error .disabled
  | .decide w =>
      match s.workers[w]? with
      | some (.ran d egressMsgs) =>
          -- has not sent anything abroad and has a hungry process
          if egressMsgs = 0 ∧ d.isSome ∧ s.populated d then .ok (s.setWorker w (.asked d))
          else .ok (s.setWorker w (.finished d))
      | _ => .error .disabled
  | .wake w =>
      match s.workers[w]? with
      | some (.blocked d) => .ok (s.setWorker w (.running d true []))
      | _ => .error .disabled
  | .put w =>
      match s.workers[w]? with
      | some (.finished d) =>
          if s.populated d then
            .ok ({ s with queueOfDomains := s.queueOfDomains ++ [d] }.setWorker w .looping)
          else .ok ({ s with retired := s.retired ++ [d] }.setWorker w .looping)
      | _ => .error .disabled

/-- All live workers are blocked, and a domain with a message waits for one. -/
def BaseLoop.Stranded (s : BaseLoop ε) : Prop :=
  (∀ worker ∈ s.workers, worker = .exited ∨ ∃ d, worker = .blocked d) ∧
    ∃ d ∈ s.queueOfDomains, s.remoteInbox d ≠ []

/-- No engine is put back in front of the user domain, which a worker runs past its splice,
while a message of the engine is left in the remote inbox of the user domain. -/
def BaseLoop.inOrder (s : BaseLoop ε) : LoopAct ε → Prop
  | .put w =>
      match s.workers[w]? with
      | some (.finished d) =>
          s.populated d = true →
            (∃ worker ∈ s.workers, worker.held = some none ∧ worker ≠ .picked none) →
            d ∉ s.remoteInbox none
      | _ => True
  | _ => True

instance (s : BaseLoop ε) (a : LoopAct ε) : Decidable (s.inOrder a) := by
  unfold BaseLoop.inOrder
  split
  · split <;> infer_instance
  · infer_instance

/-! ## Where the domains are -/

omit [DecidableEq ε] in
/-- One worker, and the others. -/
theorem workers_split {workers : List (LoopWorker ε)} {w : Nat} {x : LoopWorker ε}
    (h : workers[w]? = some x) : ∃ rest, workers.Perm (x :: rest) ∧
      ∀ y, (workers.set w y).Perm (y :: rest) := by
  obtain ⟨hw, rfl⟩ := List.getElem?_eq_some_iff.1 h
  refine ⟨workers.take w ++ workers.drop (w + 1), ?_, fun y => ?_⟩
  · refine List.Perm.trans (List.Perm.of_eq ?_) List.perm_middle
    rw [List.getElem_cons_drop, List.take_append_drop]
  · refine List.Perm.trans (List.Perm.of_eq ?_) List.perm_middle
    rw [List.set_eq_take_append_cons_drop, if_pos hw]

/-- The workers that did not leave the loop. -/
def BaseLoop.live (s : BaseLoop ε) : Nat := s.workers.countP (· ≠ .exited)

/-- Every domain is queued, held or retired, and there is a worker for each but one. -/
structure BaseLoop.Accounted (s : BaseLoop ε) : Prop where
  placed : (s.queueOfDomains : Multiset (Option ε)) + s.workers.filterMap LoopWorker.held
    + s.retired = s.domains
  nodup : s.domains.Nodup
  user : none ∈ s.domains
  enough : s.domains.length ≤ s.retired.length + s.live + 1
  /-- Once a domain is retired there is one for each. -/
  spare : s.retired ≠ [] → s.domains.length ≤ s.retired.length + s.live

variable {s s' : BaseLoop ε} {x y : LoopWorker ε} {rest : List (LoopWorker ε)} {d : Option ε}

omit [DecidableEq ε] in
theorem held_perm (h : s.workers.Perm (x :: rest)) :
    (s.workers.filterMap LoopWorker.held : Multiset (Option ε))
      = x.held.toList + rest.filterMap LoopWorker.held := by
  rw [Multiset.coe_eq_coe.2 (h.filterMap LoopWorker.held), Multiset.coe_add]
  cases hx : x.held with
  | none => rw [List.filterMap_cons_none hx]; rfl
  | some d => rw [List.filterMap_cons_some hx]; rfl

theorem live_perm (h : s.workers.Perm (x :: rest)) :
    s.live = (if x = .exited then 0 else 1) + rest.countP (· ≠ .exited) := by
  rw [BaseLoop.live, h.countP_eq, List.countP_cons, Nat.add_comm]
  by_cases hx : x = .exited <;> simp [hx]

theorem accounted_init {engines : List ε} (sent : ε → Nat) (hnodup : engines.Nodup) :
    (BaseLoop.init engines sent).Accounted := by
  have hheld : (List.replicate (max 1 engines.length) (LoopWorker.looping : LoopWorker ε)).filterMap
      LoopWorker.held = [] := by
    refine List.filterMap_eq_nil_iff.2 fun x hx => ?_
    rw [List.eq_of_mem_replicate hx]
    rfl
  have hlive : (BaseLoop.init engines sent).live = max 1 engines.length := by
    show List.countP _ (List.replicate _ _) = _
    rw [List.countP_replicate]
    rfl
  refine ⟨?_, ?_, List.mem_cons_self, ?_, fun hne => absurd rfl hne⟩
  · show ((none :: engines.map some : List (Option ε)) : Multiset (Option ε)) + _ + _ = _
    rw [show (BaseLoop.init engines sent).workers.filterMap LoopWorker.held = [] from hheld]
    exact (add_zero _).trans (add_zero _)
  · refine List.nodup_cons.2 ⟨fun hmem => ?_, hnodup.map (Option.some_injective ε)⟩
    obtain ⟨e, _, he⟩ := List.mem_map.1 hmem
    cases he
  · rw [hlive]
    show (engines.map some).length + 1 ≤ 0 + _ + 1
    rw [List.length_map]
    omega

/-- The number of places taken. -/
theorem BaseLoop.Accounted.card (h : s.Accounted) : s.queueOfDomains.length
    + (s.workers.filterMap LoopWorker.held).length + s.retired.length = s.domains.length := by
  have hcard := congrArg Multiset.card h.placed
  simpa only [Multiset.card_add, Multiset.coe_card] using hcard

/-- Where a domain is. -/
theorem BaseLoop.Accounted.mem (h : s.Accounted) : d ∈ s.domains ↔
    d ∈ s.queueOfDomains ∨ (∃ worker ∈ s.workers, worker.held = some d) ∨ d ∈ s.retired := by
  rw [← Multiset.mem_coe, ← h.placed, Multiset.mem_add, Multiset.mem_add, Multiset.mem_coe,
    Multiset.mem_coe, Multiset.mem_coe, List.mem_filterMap, or_assoc]

/-- What a worker holds is nowhere else. -/
theorem BaseLoop.Accounted.alone (h : s.Accounted) (hx : s.workers.Perm (x :: rest))
    (hheld : x.held = some d) :
    d ∉ s.queueOfDomains ∧ (∀ worker ∈ rest, worker.held ≠ some d) ∧ d ∉ s.retired := by
  have hnodup : ((s.queueOfDomains : Multiset (Option ε)) + s.workers.filterMap LoopWorker.held
    + s.retired).Nodup := by
    rw [h.placed]
    exact Multiset.coe_nodup.2 h.nodup
  rw [held_perm hx, hheld] at hnodup
  have hcons : (s.queueOfDomains : Multiset (Option ε))
      + ((some d).toList + rest.filterMap LoopWorker.held) + s.retired
      = d ::ₘ ((s.queueOfDomains : Multiset (Option ε)) + rest.filterMap LoopWorker.held
        + s.retired) := by
    rw [← Multiset.singleton_add]
    show _ + (({d} : Multiset (Option ε)) + _) + _ = _
    abel
  rw [hcons] at hnodup
  have hone := (Multiset.nodup_cons.1 hnodup).1
  simp only [Multiset.mem_add, Multiset.mem_coe, not_or, List.mem_filterMap] at hone
  exact ⟨hone.1.1, fun worker hw heq => hone.1.2 ⟨worker, hw, heq⟩, hone.2⟩

/-- The domains are where they were, but for what one worker moved. -/
theorem BaseLoop.Accounted.moved (h : s.Accounted) (hx : s.workers.Perm (x :: rest))
    (hy : s'.workers.Perm (y :: rest)) (hdomains : s'.domains = s.domains)
    (hmoved : ∀ held : Multiset (Option ε),
      (s'.queueOfDomains : Multiset (Option ε)) + (y.held.toList + held) + s'.retired
        = (s.queueOfDomains : Multiset (Option ε)) + (x.held.toList + held) + s.retired) :
    (s'.queueOfDomains : Multiset (Option ε)) + s'.workers.filterMap LoopWorker.held + s'.retired
      = s'.domains := by
  rw [held_perm hy, hmoved, ← held_perm hx, hdomains]
  exact h.placed

/-- A worker goes on with the domain it holds. -/
theorem BaseLoop.Accounted.stay (h : s.Accounted) (hx : s.workers.Perm (x :: rest))
    (hy : s'.workers.Perm (y :: rest)) (hheld : y.held = x.held)
    (hlive : y = .exited ↔ x = .exited) (hdomains : s'.domains = s.domains)
    (hqueue : s'.queueOfDomains = s.queueOfDomains) (hretired : s'.retired = s.retired) :
    s'.Accounted := by
  have hsame : s'.live = s.live := by
    rw [live_perm hx, live_perm hy]
    simp only [hlive]
  refine ⟨h.moved hx hy hdomains (fun held => by rw [hqueue, hretired, hheld]),
    by rw [hdomains]; exact h.nodup, by rw [hdomains]; exact h.user, ?_, ?_⟩
  · rw [hdomains, hretired, hsame]; exact h.enough
  · rw [hdomains, hretired, hsame]; exact h.spare

/-- A worker takes a domain. -/
theorem BaseLoop.Accounted.get (h : s.Accounted) {w : Nat} (hw : s.workers[w]? = some .looping)
    {queue : List (Option ε)} (hqueue : s.queueOfDomains = d :: queue) :
    ({ s with queueOfDomains := queue }.setWorker w (.picked d)).Accounted := by
  obtain ⟨rest, hx, hset⟩ := workers_split hw
  have hy := hset (.picked d)
  have hlive : ({ s with queueOfDomains := queue }.setWorker w (.picked d)).live = s.live := by
    rw [live_perm hx, live_perm hy]
    rfl
  refine ⟨h.moved hx hy rfl fun held => ?_, h.nodup, h.user, by rw [hlive]; exact h.enough,
    by rw [hlive]; exact h.spare⟩
  rw [hqueue, ← Multiset.cons_coe d queue, ← Multiset.singleton_add]
  show (queue : Multiset (Option ε)) + ({d} + held) + (s.retired : Multiset (Option ε))
    = {d} + (queue : Multiset (Option ε)) + (0 + held) + s.retired
  abel

omit [DecidableEq ε] in
theorem held_le (workers : List (LoopWorker ε)) [DecidableEq ε] :
    (workers.filterMap LoopWorker.held).length ≤ workers.countP (· ≠ .exited) := by
  rw [List.length_filterMap_eq_countP]
  refine List.countP_mono_left fun worker _ hheld => decide_eq_true ?_
  rintro rfl
  cases hheld

/-- A worker finds the queue empty: all domains are with the others. -/
theorem BaseLoop.Accounted.leave (h : s.Accounted) {w : Nat} (hw : s.workers[w]? = some .looping)
    (hqueue : s.queueOfDomains = []) : (s.setWorker w .exited).Accounted := by
  obtain ⟨rest, hx, hset⟩ := workers_split hw
  have hy : (s.setWorker w .exited).workers.Perm (.exited :: rest) := hset .exited
  have hlive : (s.setWorker w .exited).live = rest.countP (· ≠ .exited) := by
    rw [live_perm hy, if_pos rfl, Nat.zero_add]
  have hheld := held_le rest
  have hcard := h.card
  rw [hqueue, List.length_nil, (hx.filterMap LoopWorker.held).length_eq,
    List.filterMap_cons_none rfl] at hcard
  refine ⟨h.moved hx hy rfl (fun held => rfl), h.nodup, h.user, ?_, fun _ => ?_⟩
  · show s.domains.length ≤ s.retired.length + _ + 1
    omega
  · show s.domains.length ≤ s.retired.length + _
    omega

/-- A worker puts a domain back. -/
theorem BaseLoop.Accounted.put (h : s.Accounted) {w : Nat} (hw : s.workers[w]? = some (.finished d)) :
    ({ s with queueOfDomains := s.queueOfDomains ++ [d] }.setWorker w .looping).Accounted := by
  obtain ⟨rest, hx, hset⟩ := workers_split hw
  have hy := hset .looping
  have hlive : ({ s with queueOfDomains := s.queueOfDomains ++ [d] }.setWorker w .looping).live
      = s.live := by
    rw [live_perm hx, live_perm hy]
    rfl
  refine ⟨h.moved hx hy rfl fun held => ?_, h.nodup, h.user, by rw [hlive]; exact h.enough,
    by rw [hlive]; exact h.spare⟩
  show ((s.queueOfDomains ++ [d] : List (Option ε)) : Multiset (Option ε)) + (0 + held)
    + (s.retired : Multiset (Option ε))
    = (s.queueOfDomains : Multiset (Option ε)) + ({d} + held) + s.retired
  rw [← Multiset.coe_add, Multiset.coe_singleton]
  abel

/-- A worker keeps a domain from the queue. -/
theorem BaseLoop.Accounted.retire (h : s.Accounted) {w : Nat}
    (hw : s.workers[w]? = some (.finished d)) :
    ({ s with retired := s.retired ++ [d] }.setWorker w .looping).Accounted := by
  obtain ⟨rest, hx, hset⟩ := workers_split hw
  have hy := hset .looping
  have hlive : ({ s with retired := s.retired ++ [d] }.setWorker w .looping).live = s.live := by
    rw [live_perm hx, live_perm hy]
    rfl
  have henough := h.enough
  refine ⟨h.moved hx hy rfl fun held => ?_, h.nodup, h.user, ?_, fun _ => ?_⟩
  · show (s.queueOfDomains : Multiset (Option ε)) + (0 + held)
      + ((s.retired ++ [d] : List (Option ε)) : Multiset (Option ε))
      = (s.queueOfDomains : Multiset (Option ε)) + ({d} + held) + s.retired
    rw [← Multiset.coe_add, Multiset.coe_singleton]
    abel
  · rw [hlive]
    show s.domains.length ≤ (s.retired ++ [d]).length + _ + 1
    rw [List.length_append, List.length_singleton]
    omega
  · rw [hlive]
    show s.domains.length ≤ (s.retired ++ [d]).length + _
    rw [List.length_append, List.length_singleton]
    omega

/-! ## What an engine does after it sent to the user domain -/

/-- The worker will put `d` back, or retire it, without blocking. -/
def LoopWorker.Leaving (d : Option ε) : LoopWorker ε → Prop
  | .running e again _ => e = d ∧ again = true
  | .flushing e again _ _ counter => e = d ∧ (again = true ∨ 0 < counter)
  | .ran e egressMsgs => e = d ∧ 0 < egressMsgs
  | .finished e => e = d
  | _ => False

/-- Only engines block, and nobody sends abroad to its own domain. -/
def LoopWorker.Sane : LoopWorker ε → Prop
  | .running d _ outbox => d ∉ outbox
  | .flushing d _ _ outbox _ => d ∉ outbox
  | .asked d => d ≠ none
  | .blocked d => d ≠ none
  | _ => True

/-- The domain `d` is not run, other than to its end, before the user domain is. -/
def BaseLoop.Follows (s : BaseLoop ε) (d : Option ε) : Prop :=
  (∃ worker ∈ s.workers, worker.Leaving d) ∨ d ∈ s.retired ∨
    ∃ before after, s.queueOfDomains = before ++ none :: after ∧ d ∈ after

/-- Whoever has a message in the remote inbox of the user domain follows it. -/
structure BaseLoop.Orderly (s : BaseLoop ε) : Prop where
  sane : ∀ worker ∈ s.workers, worker.Sane
  senders : none ∉ s.remoteInbox none
  follows : ∀ d ∈ s.remoteInbox none, s.Follows d ∨ none ∈ s.retired ∨ .picked none ∈ s.workers

omit [DecidableEq ε] in
theorem orderly_init (engines : List ε) (sent : ε → Nat) :
    (BaseLoop.init engines sent).Orderly := by
  refine ⟨fun worker hworker => ?_, List.not_mem_nil, fun d hd => absurd hd List.not_mem_nil⟩
  rw [List.eq_of_mem_replicate hworker]
  trivial

omit [DecidableEq ε] in
/-- A worker goes on. -/
theorem BaseLoop.Orderly.stay (h : s.Orderly) (hx : s.workers.Perm (x :: rest))
    (hy : s'.workers.Perm (y :: rest)) (hqueue : s'.queueOfDomains = s.queueOfDomains)
    (hretired : s'.retired = s.retired) (hremote : ∀ d ∈ s'.remoteInbox none,
      d ∈ s.remoteInbox none ∨ (d ≠ none ∧ y.Leaving d))
    (hsane : y.Sane) (hleaving : ∀ d ∈ s.remoteInbox none, x.Leaving d → y.Leaving d)
    (hpicked : x = .picked none → s'.remoteInbox none = []) : s'.Orderly := by
  refine ⟨fun worker hworker => ?_, fun hnone => ?_, fun d hd => ?_⟩
  · rcases List.mem_cons.1 (hy.mem_iff.1 hworker) with rfl | hin
    · exact hsane
    · exact h.sane worker (hx.mem_iff.2 (List.mem_cons_of_mem _ hin))
  · exact (hremote none hnone).elim h.senders (fun hnew => hnew.1 rfl)
  · rcases hremote d hd with hold | ⟨_, hnew⟩
    · rcases h.follows d hold with (⟨worker, hworker, hleaves⟩ | hgone | hbehind) | hdead | hpick
      · rcases List.mem_cons.1 (hx.mem_iff.1 hworker) with rfl | hin
        · exact Or.inl (Or.inl ⟨y, hy.mem_iff.2 List.mem_cons_self, hleaving d hold hleaves⟩)
        · exact Or.inl (Or.inl ⟨worker, hy.mem_iff.2 (List.mem_cons_of_mem _ hin), hleaves⟩)
      · exact Or.inl (Or.inr (Or.inl (hretired ▸ hgone)))
      · exact Or.inl (Or.inr (Or.inr (hqueue ▸ hbehind)))
      · exact Or.inr (Or.inl (hretired ▸ hdead))
      · rcases List.mem_cons.1 (hx.mem_iff.1 hpick) with heq | hin
        · rw [hpicked heq.symm] at hd
          exact absurd hd List.not_mem_nil
        · exact Or.inr (Or.inr (hy.mem_iff.2 (List.mem_cons_of_mem _ hin)))
    · exact Or.inl (Or.inl ⟨y, hy.mem_iff.2 List.mem_cons_self, hnew⟩)

omit [DecidableEq ε] in
/-- The head of the queue is taken. -/
theorem BaseLoop.Orderly.get (h : s.Orderly) {w : Nat} (hw : s.workers[w]? = some .looping)
    {queue : List (Option ε)} (hqueue : s.queueOfDomains = d :: queue) :
    ({ s with queueOfDomains := queue }.setWorker w (.picked d)).Orderly := by
  obtain ⟨rest, hx, hset⟩ := workers_split hw
  have hy := hset (.picked d)
  refine ⟨fun worker hworker => ?_, h.senders, fun e he => ?_⟩
  · rcases List.mem_cons.1 (hy.mem_iff.1 hworker) with rfl | hin
    · trivial
    · exact h.sane worker (hx.mem_iff.2 (List.mem_cons_of_mem _ hin))
  · rcases h.follows e he with (⟨worker, hworker, hleaves⟩ | hgone | hbehind) | hdead | hpick
    · rcases List.mem_cons.1 (hx.mem_iff.1 hworker) with rfl | hin
      · exact hleaves.elim
      · exact Or.inl (Or.inl ⟨worker, hy.mem_iff.2 (List.mem_cons_of_mem _ hin), hleaves⟩)
    · exact Or.inl (Or.inr (Or.inl hgone))
    · obtain ⟨before, after, heq, hafter⟩ := hbehind
      rw [hqueue] at heq
      cases before with
      | nil =>
          -- the user domain itself is taken
          obtain ⟨rfl, _⟩ := List.cons.inj heq
          exact Or.inr (Or.inr (hy.mem_iff.2 List.mem_cons_self))
      | cons b before =>
          exact Or.inl (Or.inr (Or.inr ⟨before, after, (List.cons.inj heq).2, hafter⟩))
    · exact Or.inr (Or.inl hdead)
    · rcases List.mem_cons.1 (hx.mem_iff.1 hpick) with heq | hin
      · cases heq
      · exact Or.inr (Or.inr (hy.mem_iff.2 (List.mem_cons_of_mem _ hin)))

omit [DecidableEq ε] in
/-- A worker keeps a domain from the queue. -/
theorem BaseLoop.Orderly.retire (h : s.Orderly) {w : Nat}
    (hw : s.workers[w]? = some (.finished d)) :
    ({ s with retired := s.retired ++ [d] }.setWorker w .looping).Orderly := by
  obtain ⟨rest, hx, hset⟩ := workers_split hw
  have hy := hset .looping
  refine ⟨fun worker hworker => ?_, h.senders, fun e he => ?_⟩
  · rcases List.mem_cons.1 (hy.mem_iff.1 hworker) with rfl | hin
    · trivial
    · exact h.sane worker (hx.mem_iff.2 (List.mem_cons_of_mem _ hin))
  · rcases h.follows e he with (⟨worker, hworker, hleaves⟩ | hgone | hbehind) | hdead | hpick
    · rcases List.mem_cons.1 (hx.mem_iff.1 hworker) with rfl | hin
      · obtain rfl : d = e := hleaves
        exact Or.inl (Or.inr (Or.inl (List.mem_append_right _ List.mem_cons_self)))
      · exact Or.inl (Or.inl ⟨worker, hy.mem_iff.2 (List.mem_cons_of_mem _ hin), hleaves⟩)
    · exact Or.inl (Or.inr (Or.inl (List.mem_append_left _ hgone)))
    · exact Or.inl (Or.inr (Or.inr hbehind))
    · exact Or.inr (Or.inl (List.mem_append_left _ hdead))
    · rcases List.mem_cons.1 (hx.mem_iff.1 hpick) with heq | hin
      · cases heq
      · exact Or.inr (Or.inr (hy.mem_iff.2 (List.mem_cons_of_mem _ hin)))

/-- A worker puts a domain back, behind the user domain if it has to be. -/
theorem BaseLoop.Orderly.put (h : s.Orderly) (ha : s.Accounted) {w : Nat}
    (hw : s.workers[w]? = some (.finished d))
    (hok : (∃ worker ∈ s.workers, worker.held = some none ∧ worker ≠ .picked none) →
      d ∉ s.remoteInbox none) :
    ({ s with queueOfDomains := s.queueOfDomains ++ [d] }.setWorker w .looping).Orderly := by
  obtain ⟨rest, hx, hset⟩ := workers_split hw
  have hy := hset .looping
  refine ⟨fun worker hworker => ?_, h.senders, fun e he => ?_⟩
  · rcases List.mem_cons.1 (hy.mem_iff.1 hworker) with rfl | hin
    · trivial
    · exact h.sane worker (hx.mem_iff.2 (List.mem_cons_of_mem _ hin))
  · rcases h.follows e he with (⟨worker, hworker, hleaves⟩ | hgone | hbehind) | hdead | hpick
    · rcases List.mem_cons.1 (hx.mem_iff.1 hworker) with rfl | hin
      · obtain rfl : d = e := hleaves
        -- the sender goes to the end of the queue: is the user domain in it?
        rcases ha.mem.1 ha.user with hqueued | ⟨v, hv, hheld⟩ | hdead
        · obtain ⟨before, after, heq⟩ := List.append_of_mem hqueued
          refine Or.inl (Or.inr (Or.inr ⟨before, after ++ [d], ?_,
            List.mem_append_right _ List.mem_cons_self⟩))
          show s.queueOfDomains ++ [d] = _
          rw [heq, List.append_assoc]
          rfl
        · by_cases hpick : v = .picked none
          · subst hpick
            rcases List.mem_cons.1 (hx.mem_iff.1 hv) with heq | hin
            · cases heq
            · exact Or.inr (Or.inr (hy.mem_iff.2 (List.mem_cons_of_mem _ hin)))
          · exact absurd he (hok ⟨v, hv, hheld, hpick⟩)
        · exact Or.inr (Or.inl hdead)
      · exact Or.inl (Or.inl ⟨worker, hy.mem_iff.2 (List.mem_cons_of_mem _ hin), hleaves⟩)
    · exact Or.inl (Or.inr (Or.inl hgone))
    · obtain ⟨before, after, heq, hafter⟩ := hbehind
      refine Or.inl (Or.inr (Or.inr ⟨before, after ++ [d], ?_, List.mem_append_left _ hafter⟩))
      show s.queueOfDomains ++ [d] = _
      rw [heq, List.append_assoc]
      rfl
    · exact Or.inr (Or.inl hdead)
    · rcases List.mem_cons.1 (hx.mem_iff.1 hpick) with heq | hin
      · cases heq
      · exact Or.inr (Or.inr (hy.mem_iff.2 (List.mem_cons_of_mem _ hin)))

/-! ## Steps and runs -/

/-- What one step preserves. -/
theorem baseLoop_step {a : LoopAct ε} (ha : s.Accounted) (h : s.Orderly) (hok : s.inOrder a)
    (hstep : BaseLoop.step a s = .ok s') : s'.Accounted ∧ s'.Orderly := by
  cases a with
  | get w =>
      simp only [BaseLoop.step] at hstep
      split at hstep
      · rename_i hw
        split at hstep <;> cases hstep
        · rename_i hqueue
          refine ⟨ha.leave hw hqueue, ?_⟩
          obtain ⟨rest, hx, hset⟩ := workers_split hw
          exact h.stay hx (hset .exited) rfl rfl (fun _ hd => Or.inl hd) trivial
            (fun _ _ hleaves => hleaves.elim) (fun heq => by cases heq)
        · rename_i hqueue
          exact ⟨ha.get hw hqueue, h.get hw hqueue⟩
      · cases hstep
  | splice w =>
      simp only [BaseLoop.step] at hstep
      split at hstep
      · rename_i d hw
        cases hstep
        obtain ⟨rest, hx, hset⟩ := workers_split hw
        have hremote : ∀ e ∈ (s.setRemote d []).remoteInbox none, e ∈ s.remoteInbox none := by
          intro e he
          by_cases hd : d = none
          · subst hd
            rw [setRemote_self] at he
            cases he
          · rwa [setRemote_of_ne (Ne.symm hd)] at he
        refine ⟨ha.stay hx (hset _) rfl (by simp) rfl rfl rfl, h.stay hx (hset _) rfl rfl
          (fun e he => Or.inl (hremote e he)) List.not_mem_nil (fun _ _ hleaves => hleaves.elim)
          (fun heq => ?_)⟩
        cases heq
        exact setRemote_self none [] s
      · rename_i d hw
        cases hstep
        obtain ⟨rest, hx, hset⟩ := workers_split hw
        have hd : d ≠ none := h.sane _ (hx.mem_iff.2 List.mem_cons_self)
        refine ⟨ha.stay hx (hset _) rfl (by simp) rfl rfl rfl, h.stay hx (hset _) rfl rfl
          (fun e he => Or.inl ?_) hd (fun _ _ hleaves => hleaves.elim) (fun heq => by cases heq)⟩
        exact setRemote_of_ne (Ne.symm hd) [] s ▸ he
      · cases hstep
  | send w target =>
      simp only [BaseLoop.step] at hstep
      split at hstep
      · rename_i d again outbox hw
        split at hstep <;> cases hstep
        rename_i htarget
        obtain ⟨rest, hx, hset⟩ := workers_split hw
        have hsane : d ∉ outbox := h.sane _ (hx.mem_iff.2 List.mem_cons_self)
        refine ⟨ha.stay hx (hset _) rfl (by simp) rfl rfl rfl, h.stay hx (hset _) rfl rfl
          (fun _ he => Or.inl he) ?_ (fun _ _ hleaves => hleaves) (fun heq => by cases heq)⟩
        intro hd
        rcases List.mem_append.1 hd with hd | hd
        · exact hsane hd
        · exact htarget.2 (List.mem_singleton.1 hd).symm
      · cases hstep
  | exit w =>
      simp only [BaseLoop.step] at hstep
      split at hstep
      · cases hstep
        exact ⟨⟨ha.placed, ha.nodup, ha.user, ha.enough, ha.spare⟩,
          ⟨h.sane, h.senders, h.follows⟩⟩
      · cases hstep
  | flush w =>
      simp only [BaseLoop.step] at hstep
      split at hstep
      · rename_i d again outbox hw
        cases hstep
        obtain ⟨rest, hx, hset⟩ := workers_split hw
        have hsane : d ∉ outbox := h.sane _ (hx.mem_iff.2 List.mem_cons_self)
        exact ⟨ha.stay hx (hset _) rfl (by simp) rfl rfl rfl, h.stay hx (hset _) rfl rfl
          (fun _ he => Or.inl he) hsane (fun _ _ hleaves => ⟨hleaves.1, Or.inl hleaves.2⟩)
          (fun heq => by cases heq)⟩
      · cases hstep
  | flushTurn w =>
      simp only [BaseLoop.step] at hstep
      split at hstep
      · rename_i d again gid gids outbox counter hw
        obtain ⟨rest, hx, hset⟩ := workers_split hw
        have hsane : d ∉ outbox := h.sane _ (hx.mem_iff.2 List.mem_cons_self)
        split at hstep <;> cases hstep
        · rename_i hgid
          refine ⟨ha.stay hx (hset _) rfl (by simp) rfl rfl rfl, h.stay hx (hset _) rfl rfl
            (fun e he => ?_) hsane (fun _ _ hleaves => ⟨hleaves.1, Or.inr (Nat.succ_pos _)⟩)
            (fun heq => by cases heq)⟩
          by_cases hg : gid = none
          · subst hg
            rcases List.mem_append.1 (setRemote_self none _ s ▸ he) with he | he
            · exact Or.inl he
            · obtain ⟨_, _, rfl⟩ := List.mem_map.1 he
              exact Or.inr ⟨fun heq => hsane (heq ▸ hgid), rfl, Or.inr (Nat.succ_pos _)⟩
          · exact Or.inl (setRemote_of_ne (Ne.symm hg) _ s ▸ he)
        · exact ⟨ha.stay hx (hset _) rfl (by simp) rfl rfl rfl, h.stay hx (hset _) rfl rfl
            (fun _ he => Or.inl he) hsane (fun _ _ hleaves => hleaves) (fun heq => by cases heq)⟩
      · cases hstep
  | flushEnd w =>
      simp only [BaseLoop.step] at hstep
      split at hstep
      · rename_i d again outbox counter hw
        cases hstep
        obtain ⟨rest, hx, hset⟩ := workers_split hw
        cases again with
        | true =>
            exact ⟨ha.stay hx (hset _) rfl (by simp) rfl rfl rfl, h.stay hx (hset _) rfl rfl
              (fun _ he => Or.inl he) trivial (fun _ _ hleaves => hleaves.1)
              (fun heq => by cases heq)⟩
        | false =>
            exact ⟨ha.stay hx (hset _) rfl (by simp) rfl rfl rfl, h.stay hx (hset _) rfl rfl
              (fun _ he => Or.inl he) trivial
              (fun _ _ hleaves => ⟨hleaves.1, hleaves.2.resolve_left Bool.false_ne_true⟩)
              (fun heq => by cases heq)⟩
      · cases hstep
  | decide w =>
      simp only [BaseLoop.step] at hstep
      split at hstep
      · rename_i d egressMsgs hw
        obtain ⟨rest, hx, hset⟩ := workers_split hw
        split at hstep <;> cases hstep
        · rename_i hblock
          refine ⟨ha.stay hx (hset _) rfl (by simp) rfl rfl rfl, h.stay hx (hset _) rfl rfl
            (fun _ he => Or.inl he) ?_ (fun _ _ hleaves => ?_) (fun heq => by cases heq)⟩
          · rintro rfl
            exact absurd hblock.2.1 Bool.false_ne_true
          · exact absurd hblock.1 (Nat.ne_of_gt hleaves.2)
        · exact ⟨ha.stay hx (hset _) rfl (by simp) rfl rfl rfl, h.stay hx (hset _) rfl rfl
            (fun _ he => Or.inl he) trivial (fun _ _ hleaves => hleaves.1)
            (fun heq => by cases heq)⟩
      · cases hstep
  | wake w =>
      simp only [BaseLoop.step] at hstep
      split at hstep
      · rename_i d hw
        cases hstep
        obtain ⟨rest, hx, hset⟩ := workers_split hw
        exact ⟨ha.stay hx (hset _) rfl (by simp) rfl rfl rfl, h.stay hx (hset _) rfl rfl
          (fun _ he => Or.inl he) List.not_mem_nil (fun _ _ hleaves => hleaves.elim)
          (fun heq => by cases heq)⟩
      · cases hstep
  | put w =>
      simp only [BaseLoop.step] at hstep
      split at hstep
      · rename_i d hw
        split at hstep <;> cases hstep
        · rename_i hpopulated
          simp only [BaseLoop.inOrder, hw] at hok
          exact ⟨ha.put hw, h.put ha hw (hok hpopulated)⟩
        · exact ⟨ha.retire hw, h.retire hw⟩
      · cases hstep

theorem baseLoop_reachable {engines : List ε} {sent : ε → Nat} (hnodup : engines.Nodup)
    (hrun : Runs BaseLoop.step BaseLoop.inOrder (BaseLoop.init engines sent) s) :
    s.Accounted ∧ s.Orderly :=
  hrun.invariant (I := fun s => s.Accounted ∧ s.Orderly)
    (fun _ _ _ h hok hstep => baseLoop_step h.1 h.2 hok hstep)
    ⟨accounted_init sent hnodup, orderly_init engines sent⟩

/-- When all live workers are blocked, at most one domain is left, and it is the user domain. -/
theorem BaseLoop.Accounted.left (ha : s.Accounted) (h : s.Orderly)
    (hall : ∀ worker ∈ s.workers, worker = .exited ∨ ∃ d, worker = .blocked d)
    (hd : d ∈ s.queueOfDomains) : s.queueOfDomains = [none] ∧ s.retired = [] := by
  have hheld : (s.workers.filterMap LoopWorker.held).length = s.live := by
    rw [List.length_filterMap_eq_countP, BaseLoop.live]
    refine List.countP_congr fun worker hworker => ?_
    rcases hall worker hworker with rfl | ⟨e, rfl⟩
    · simp [LoopWorker.held]
    · simp [LoopWorker.held]
  have hcard := ha.card
  have henough := ha.enough
  have hpos := List.length_pos_of_mem hd
  have hretired : s.retired = [] := by
    by_contra hne
    have := ha.spare hne
    omega
  rw [hretired, List.length_nil] at hcard henough
  obtain ⟨e, he⟩ := List.length_eq_one_iff.1 (show s.queueOfDomains.length = 1 by omega)
  refine ⟨?_, hretired⟩
  rcases ha.mem.1 ha.user with hqueued | ⟨worker, hworker, heq⟩ | hdead
  · rw [he] at hqueued ⊢
    rw [List.mem_singleton.1 hqueued]
  · rcases hall worker hworker with rfl | ⟨e, rfl⟩
    · cases heq
    · exact absurd (Option.some.inj heq) (h.sane _ hworker)
  · rw [hretired] at hdead
    cases hdead

/--
**The condition under which no domain is stranded.**

With any engines, any messages, before the loop or in it, and any interleaving: as long as
no engine is put back in front of a running user domain that has not taken a message of
this engine, it does not happen that all live workers are blocked while a domain with a
message waits.
-/
theorem no_stranded_domain (engines : List ε) (sent : ε → Nat) (s : BaseLoop ε)
    (hnodup : engines.Nodup)
    (hrun : Runs BaseLoop.step BaseLoop.inOrder (BaseLoop.init engines sent) s) :
    ¬ s.Stranded := by
  obtain ⟨ha, h⟩ := baseLoop_reachable hnodup hrun
  rintro ⟨hall, d, hd, hmessage⟩
  obtain ⟨hqueue, hretired⟩ := ha.left h hall hd
  obtain rfl : d = none := by
    rw [hqueue] at hd
    exact List.mem_singleton.1 hd
  obtain ⟨e, he⟩ := List.exists_mem_of_ne_nil _ hmessage
  rcases h.follows e he with (⟨worker, hworker, hleaves⟩ | hgone | hbehind) | hdead | hpick
  · rcases hall worker hworker with rfl | ⟨v, rfl⟩
    · exact hleaves
    · exact hleaves
  · rw [hretired] at hgone
    cases hgone
  · obtain ⟨before, after, heq, hafter⟩ := hbehind
    rw [hqueue] at heq
    have hlength : 1 = before.length + (after.length + 1) := by
      have := congrArg List.length heq
      rwa [List.length_append] at this
    have := List.length_pos_of_mem hafter
    omega
  · rw [hretired] at hdead
    cases hdead
  · rcases hall _ hpick with heq | ⟨v, heq⟩
    · cases heq
    · cases heq

/-- A worker runs a domain whose callbacks send `outbox`, up to `decide`. -/
def runOnce (w : Nat) (outbox : List (Option Bool)) : List (LoopAct Bool) :=
  .get w :: .splice w :: outbox.map (.send w) ++
    [.flush w, .flushTurn w, .flushTurn w, .flushTurn w, .flushEnd w, .decide w]

/-- Two engines, with a message for the second; the first sends to the user domain, which is
run before both block. -/
theorem no_stranded_domain_two : ∃ s : BaseLoop Bool,
    Runs BaseLoop.step BaseLoop.inOrder (BaseLoop.init [false, true] Bool.toNat) s ∧
    s.queueOfDomains = [none] ∧ s.workers = [.blocked (some true), .blocked (some false)] ∧
    ¬ s.Stranded := by
  obtain ⟨s, hrun, hs⟩ := exists_run (show (runActs BaseLoop.step BaseLoop.inOrder
    (runOnce 0 [] ++ [.put 0] ++ runOnce 1 [none] ++ [.put 1] ++ runOnce 0 [] ++ [.splice 0] ++
      runOnce 1 [] ++ [.put 1] ++ runOnce 1 [] ++ [.splice 1])
    (BaseLoop.init [false, true] Bool.toNat)).any
    (fun s => decide (s.queueOfDomains = [none] ∧
      s.workers = [.blocked (some true), .blocked (some false)])) = true by decide +kernel)
  obtain ⟨hqueue, hworkers⟩ := of_decide_eq_true hs
  exact ⟨s, hrun, hqueue, hworkers, no_stranded_domain [false, true] _ s (by simp) hrun⟩

/-- While one worker runs the user domain, the other runs the first engine, which sends to
the user domain, and the second, which blocks. The first engine is then ahead of the user
domain, and blocks the other worker. -/
theorem domain_stranded : ∃ s : BaseLoop Bool,
    Runs BaseLoop.step anyAct (BaseLoop.init [false, true] fun _ => 0) s ∧ s.Stranded := by
  obtain ⟨s, hrun, hs⟩ := exists_run (show (runActs BaseLoop.step anyAct
    ([.get 0, .splice 0] ++ runOnce 1 [none] ++ [.put 1] ++ runOnce 1 [] ++ [.splice 1] ++
      [.flush 0, .flushTurn 0, .flushTurn 0, .flushTurn 0, .flushEnd 0, .decide 0, .put 0] ++
      runOnce 0 [] ++ [.splice 0]) (BaseLoop.init [false, true] fun _ => 0)).any
    (fun s => decide (s.queueOfDomains = [none] ∧ s.remoteInbox none = [some false] ∧
      s.workers = [.blocked (some false), .blocked (some true)])) = true by decide +kernel)
  obtain ⟨hqueue, hremote, hworkers⟩ := of_decide_eq_true hs
  refine ⟨s, hrun, fun worker hworker => ?_, none, by rw [hqueue]; exact List.mem_cons_self, ?_⟩
  · rw [hworkers] at hworker
    rcases List.mem_cons.1 hworker with rfl | hworker
    · exact Or.inr ⟨_, rfl⟩
    · exact Or.inr ⟨_, List.mem_singleton.1 hworker⟩
  · rw [hremote]
    exact List.cons_ne_nil _ _

end Msock
