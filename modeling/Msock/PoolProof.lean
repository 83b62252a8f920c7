import Msock.Domain.Hungry
import Msock.Lib.Spread
import Msock.Pool

/-!
# No domain is left behind

A domain is at any time in one of three places: on `queue_of_domains`, with one
worker, or retired. The steps of the pool move it between them, so they keep a
`Spread`. A worker leaves when it finds the queue empty, and then every domain that is
not retired is with another worker; that is why enough workers remain for the engines
that block, and why the last one leaves nothing behind.
-/

namespace Msock

open Lib

universe u
variable {δ : Type u}

/-- Where a domain can be. -/
inductive PoolPlace where
  | queue
  | worker (w : Nat)
  | retired
  deriving DecidableEq

/-- The domain a worker holds. -/
def Worker.domain : Worker δ → Option δ
  | .running d => some d
  | _ => none

/-- The worker has not left the loop. -/
def Worker.alive : Worker δ → Bool
  | .exited => false
  | _ => true

/-- The domains in a place. -/
def Pool.held (s : Pool δ) : PoolPlace → List δ
  | .queue => s.queueOfDomains
  | .worker w => (s.workers[w]?.bind Worker.domain).toList
  | .retired => s.retired

/-- The number of workers that have not left the loop, those to be made included. -/
def Pool.alive (s : Pool δ) : Nat := s.toCreate + s.workers.countP Worker.alive

section Workers
variable {ws : List (Worker δ)} {w : Nat} {x y : Worker δ}

theorem countP_alive_set (h : ws[w]? = some x) :
    (ws.set w y).countP Worker.alive + x.alive.toNat = ws.countP Worker.alive + y.alive.toNat := by
  induction ws generalizing w with
  | nil => simp at h
  | cons z ws ih =>
      cases w with
      | zero =>
          obtain rfl : z = x := by simpa using h
          simp only [List.set_cons_zero, List.countP_cons]
          cases z.alive <;> cases y.alive <;> simp
      | succ w =>
          have := ih (by simpa using h)
          simp only [List.set_cons_succ, List.countP_cons]
          omega

/-- Every worker that holds a domain is in the loop. -/
theorem length_domains_le (ws : List (Worker δ)) :
    (ws.filterMap Worker.domain).length ≤ ws.countP Worker.alive := by
  induction ws with
  | nil => exact Nat.le_refl _
  | cons z ws ih =>
      cases z with
      | looping =>
          rw [List.filterMap_cons_none rfl, List.countP_cons]
          exact Nat.le_add_right_of_le ih
      | running d =>
          rw [List.filterMap_cons_some (f := Worker.domain) (b := d) rfl, List.countP_cons_of_pos rfl,
            List.length_cons]
          exact Nat.succ_le_succ ih
      | exited =>
          rw [List.filterMap_cons_none rfl, List.countP_cons]
          exact Nat.le_add_right_of_le ih

/-- Nobody is left when all have exited. -/
theorem countP_alive_eq_zero : ws.countP Worker.alive = 0 ↔ ∀ w ∈ ws, w = .exited := by
  rw [List.countP_eq_zero]
  constructor
  · intro h w hw
    have := h w hw
    cases w with
    | exited => rfl
    | looping => exact absurd rfl this
    | running d => exact absurd rfl this
  · intro h w hw
    rw [h w hw]
    exact Bool.false_ne_true

/-- A worker changes what it holds. -/
theorem held_set {s : Pool δ} (h : s.workers[w]? = some x) (v : Nat) :
    (({ s with workers := s.workers.set w y } : Pool δ).held (.worker v))
      = if v = w then y.domain.toList else s.held (.worker v) := by
  have hw : w < s.workers.length := by
    rw [List.getElem?_eq_some_iff] at h
    exact h.1
  simp only [Pool.held, List.getElem?_set]
  by_cases hv : v = w
  · subst hv
    simp [hw]
  · rw [if_neg (fun he => hv he.symm), if_neg hv]

end Workers

/-- The domain is not retired and has a hungry process. -/
def Pool.hungry [DecidableEq δ] (s : Pool δ) (d : δ) : Bool :=
  decide (d ∉ s.retired ∧ (s.lists d).listOfHungryProcesses ≠ [])

theorem hungry_iff [DecidableEq δ] {s : Pool δ} {d : δ} :
    s.hungry d = true ↔ d ∉ s.retired ∧ (s.lists d).listOfHungryProcesses ≠ [] :=
  decide_eq_true_iff

/-- What holds of the pool at all times. -/
structure Pool.Inv [DecidableEq δ] (domains : List δ) (s : Pool δ) : Prop where
  /-- A domain is in one place. -/
  spread : Spread {d | d ∈ domains} s.held
  /-- A retired domain has no process. -/
  empty : ∀ d ∈ s.retired, (s.lists d).listOfProcesses = []
  /-- Enough workers remain for the engines that block. -/
  enough : domains.countP s.hungry ≤ s.alive
  /-- The last worker left an empty queue. -/
  last : s.alive = 0 → s.queueOfDomains = []
  joined : s.returned = true → s.alive = 0

/-- A domain that is not retired, when the queue is empty, is with a worker. -/
theorem mem_domains {domains : List δ} {s : Pool δ} {d : δ}
    (hs : Spread {d | d ∈ domains} s.held) (hempty : s.queueOfDomains = []) (hd : d ∈ domains)
    (hr : d ∉ s.retired) : d ∈ s.workers.filterMap Worker.domain := by
  obtain ⟨p, hp⟩ := (hs.covers d).mp hd
  cases p with
  | queue =>
      simp only [Pool.held, hempty] at hp
      cases hp
  | retired => exact absurd hp hr
  | worker w =>
      obtain ⟨x, hx, hdom⟩ := Option.bind_eq_some_iff.mp (Option.mem_toList.mp hp)
      exact List.mem_filterMap.mpr ⟨x, List.mem_of_getElem? hx, hdom⟩

/-- A worker that has not left counts. -/
theorem alive_pos {s : Pool δ} {w : Nat} {x : Worker δ} (hw : s.workers[w]? = some x)
    (hx : x.alive = true) :
    0 < s.alive := by
  have hpos : 0 < s.workers.countP Worker.alive :=
    List.countP_pos_iff.mpr ⟨x, List.mem_of_getElem? hw, hx⟩
  unfold Pool.alive
  omega

/-- A worker that stays in the loop changes the number of workers in no way. -/
theorem alive_set {s : Pool δ} {w : Nat} {x y : Worker δ} (hw : s.workers[w]? = some x)
    (hx : x.alive = true)
    (hy : y.alive = true) :
    ({ s with workers := s.workers.set w y } : Pool δ).alive = s.alive := by
  have hset := countP_alive_set (y := y) hw
  rw [hx, hy] at hset
  unfold Pool.alive
  dsimp only
  omega

section Steps
variable [DecidableEq δ] {domains : List δ} {s s' : Pool δ} {lists : δ → Lists} {w : Nat} {d : δ}

theorem pool_init (hnd : domains.Nodup) : (msockBaseLoop domains lists).Inv domains where
  spread := by
    refine ⟨fun p => ?_, fun p q x hp hq => ?_, fun x => ?_⟩
    · cases p with
      | queue => exact hnd
      | worker w => cases w <;> simp [Pool.held, msockBaseLoop, Worker.domain]
      | retired => exact List.nodup_nil
    · have hqueue : ∀ p, x ∈ (msockBaseLoop domains lists).held p → p = .queue := by
        intro p hp
        cases p with
        | queue => rfl
        | worker w => cases w <;> simp [Pool.held, msockBaseLoop, Worker.domain] at hp
        | retired => simp [Pool.held, msockBaseLoop] at hp
      rw [hqueue p hp, hqueue q hq]
    · constructor
      · exact fun hx => ⟨.queue, hx⟩
      · rintro ⟨p, hp⟩
        cases p with
        | queue => exact hp
        | worker w => cases w <;> simp [Pool.held, msockBaseLoop, Worker.domain] at hp
        | retired => simp [Pool.held, msockBaseLoop] at hp
  empty := fun d hd => by simp [msockBaseLoop] at hd
  enough := by
    have hcount : domains.countP (msockBaseLoop domains lists).hungry
        = countHungryDomains domains lists := by
      unfold countHungryDomains Pool.hungry
      simp [msockBaseLoop]
    have halive : (msockBaseLoop domains lists).alive
        = max 0 (countHungryDomains domains lists - 1) + 1 := rfl
    rw [hcount, halive]
    omega
  last := fun h => by
    have halive : (msockBaseLoop domains lists).alive
        = max 0 (countHungryDomains domains lists - 1) + 1 := rfl
    omega
  joined := fun h => by cases h

/-- A worker leaves. -/
theorem Pool.Inv.exit (hi : s.Inv domains) (hnd : domains.Nodup)
    (hw : s.workers[w]? = some .looping) (hempty : s.queueOfDomains = []) :
    Pool.Inv domains { s with workers := s.workers.set w .exited } := by
  have hheld : ∀ p, ({ s with workers := s.workers.set w .exited } : Pool δ).held p = s.held p := by
    intro p
    cases p with
    | queue => rfl
    | retired => rfl
    | worker v =>
        rw [held_set hw]
        by_cases hv : v = w
        · subst hv
          simp [Pool.held, hw, Worker.domain]
        · rw [if_neg hv]
  have hspread := hi.spread.congr (fun _ => Iff.rfl) hheld
  refine ⟨hspread, hi.empty, ?_, fun _ => hempty, fun hret => ?_⟩
  · -- every domain that is not retired is with one of the others
    rw [List.countP_eq_length_filter]
    have hsub := ((hnd.filter _).subperm (fun d hd => by
      obtain ⟨hmem, hcond⟩ := List.mem_filter.mp hd
      exact mem_domains hspread hempty hmem (hungry_iff.mp hcond).1)).length_le
    have hle := length_domains_le (s.workers.set w .exited)
    exact Nat.le_trans (Nat.le_trans hsub hle) (Nat.le_add_left _ _)
  · have halive := hi.joined hret
    have hset := countP_alive_set (y := .exited) hw
    simp only [Worker.alive, Bool.toNat_true, Bool.toNat_false] at hset
    unfold Pool.alive at halive ⊢
    dsimp only
    omega

/-- A worker takes the first domain of the queue. -/
theorem Pool.Inv.take {queue : List δ} (hi : s.Inv domains) (hw : s.workers[w]? = some .looping)
    (hq : s.queueOfDomains = d :: queue) :
    Pool.Inv domains { s with
      queueOfDomains := queue, workers := s.workers.set w (.running d) } := by
  have halive := alive_set (y := .running d) hw rfl rfl
  have hpos := alive_pos hw rfl
  refine ⟨?_, hi.empty, ?_, fun h => ?_, fun hret => ?_⟩
  · refine hi.spread.transfer (a := .queue) (b := .worker w) (by simp) ?_ (fun p hpa hpb => ?_)
    · have hnew := held_set (y := .running d) hw w
      have hold : s.held (.worker w) = [] := by simp [Pool.held, hw, Worker.domain]
      rw [if_pos rfl] at hnew
      rw [hold, List.append_nil]
      show (queue ++ _).Perm s.queueOfDomains
      rw [hq]
      exact (List.Perm.append_left queue (List.Perm.of_eq hnew)).trans
        (List.perm_append_singleton d queue)
    · cases p with
      | queue => exact absurd rfl hpa
      | retired => rfl
      | worker v =>
          have hnew := held_set (y := .running d) hw v
          rw [if_neg (fun he => hpb (by rw [he]))] at hnew
          exact hnew
  · exact Nat.le_trans hi.enough halive.ge
  · exact absurd (halive.symm.trans h) (by omega)
  · exact absurd (hi.joined hret) (by omega)

/-- A worker runs its domain. -/
theorem Pool.Inv.run {lists : Lists} (hi : s.Inv domains) (hw : s.workers[w]? = some (.running d))
    (hl : (s.lists d).RunsTo lists) :
    Pool.Inv domains { s with lists := Function.update s.lists d lists } := by
  have hheld : d ∈ s.held (.worker w) := by simp [Pool.held, hw, Worker.domain]
  refine ⟨hi.spread, fun e he => ?_, ?_, hi.last, hi.joined⟩
  · -- a retired domain is not the one with the worker
    have hne : e ≠ d := by
      intro hed
      subst hed
      exact absurd (hi.spread.unique .retired (.worker w) e he hheld) (by simp)
    simpa only [Function.update_of_ne hne] using hi.empty e he
  · refine Nat.le_trans (List.countP_mono_left (fun e _ he => ?_)) hi.enough
    obtain ⟨hr, hh⟩ := hungry_iff.mp he
    refine hungry_iff.mpr ⟨hr, ?_⟩
    by_cases hed : e = d
    · subst hed
      simp only [Function.update_self] at hh
      intro hnil
      have hsub := hl.1
      rw [hnil] at hsub
      exact hh (List.sublist_nil.mp hsub)
    · simpa only [Function.update_of_ne hed] using hh

/-- A worker is done with its domain, which goes to the queue or retires. -/
theorem Pool.Inv.put {queue retired : List δ} (hi : s.Inv domains)
    (hw : s.workers[w]? = some (.running d))
    (hcase : ((s.lists d).listOfProcesses = [] ∧ queue = s.queueOfDomains ∧
        retired = s.retired ++ [d]) ∨
      (queue = s.queueOfDomains ++ [d] ∧ retired = s.retired)) :
    Pool.Inv domains { s with
      workers := s.workers.set w .looping, queueOfDomains := queue, retired := retired } := by
  have halive := alive_set (y := .looping) hw rfl rfl
  have hpos := alive_pos hw rfl
  have hold : s.held (.worker w) = [d] := by simp [Pool.held, hw, Worker.domain]
  have hnew := held_set (y := .looping) hw w
  rw [if_pos rfl] at hnew
  have hother : ∀ v, v ≠ w → (({ s with
      workers := s.workers.set w .looping, queueOfDomains := queue, retired := retired } :
        Pool δ).held (.worker v)) = s.held (.worker v) := by
    intro v hv
    have := held_set (y := .looping) hw v
    rw [if_neg hv] at this
    exact this
  -- the domain leaves the worker for the end of the retired ones or of the queue
  refine ⟨?_, ?_, ?_, fun h => ?_, fun hret => ?_⟩
  · rcases hcase with ⟨_, rfl, rfl⟩ | ⟨rfl, rfl⟩
    · refine hi.spread.transfer (a := .worker w) (b := .retired) (by simp) ?_ (fun p hpa hpb => ?_)
      · rw [hold]
        exact (List.Perm.append_right _ (List.Perm.of_eq hnew)).trans
          (List.perm_append_singleton d s.retired)
      · cases p with
        | queue => rfl
        | retired => exact absurd rfl hpb
        | worker v => exact hother v (fun he => hpa (by rw [he]))
    · refine hi.spread.transfer (a := .worker w) (b := .queue) (by simp) ?_ (fun p hpa hpb => ?_)
      · rw [hold]
        exact (List.Perm.append_right _ (List.Perm.of_eq hnew)).trans
          (List.perm_append_singleton d s.queueOfDomains)
      · cases p with
        | queue => exact absurd rfl hpb
        | retired => rfl
        | worker v => exact hother v (fun he => hpa (by rw [he]))
  · rcases hcase with ⟨hnil, rfl, rfl⟩ | ⟨rfl, rfl⟩
    · intro e he
      rcases List.mem_append.mp he with he | he
      · exact hi.empty e he
      · rw [List.mem_singleton.mp he]
        exact hnil
    · exact hi.empty
  · refine Nat.le_trans (Nat.le_trans (List.countP_mono_left (fun e _ he => ?_)) hi.enough)
      halive.ge
    obtain ⟨hr, hh⟩ := hungry_iff.mp he
    refine hungry_iff.mpr ⟨fun hm => hr ?_, hh⟩
    rcases hcase with ⟨_, rfl, rfl⟩ | ⟨rfl, rfl⟩
    · exact List.mem_append_left _ hm
    · exact hm
  · exact absurd (halive.symm.trans h) (by omega)
  · exact absurd (hi.joined hret) (by omega)

/-- A thread is made. -/
theorem Pool.Inv.create {n : Nat} (hi : s.Inv domains) (hn : s.toCreate = n + 1) :
    Pool.Inv domains { s with toCreate := n, workers := s.workers ++ [.looping] } := by
  have halive : ({ s with toCreate := n, workers := s.workers ++ [.looping] } : Pool δ).alive
      = s.alive := by
    unfold Pool.alive
    rw [hn, List.countP_append]
    simp only [List.countP_singleton, Worker.alive, if_true]
    omega
  have hheld : ∀ p, ({ s with toCreate := n, workers := s.workers ++ [.looping] } : Pool δ).held p
      = s.held p := by
    intro p
    cases p with
    | queue => rfl
    | retired => rfl
    | worker w =>
        simp only [Pool.held]
        by_cases hw : w < s.workers.length
        · rw [List.getElem?_append_left hw]
        · rw [List.getElem?_append_right (by omega), List.getElem?_eq_none (by omega : s.workers.length ≤ w)]
          cases hk : w - s.workers.length <;> simp [Worker.domain]
  refine ⟨hi.spread.congr (fun _ => Iff.rfl) hheld, hi.empty, Nat.le_trans hi.enough halive.ge,
    fun h => hi.last (halive.symm.trans h), fun hret => halive.trans (hi.joined hret)⟩

/-- **Every step keeps every domain in one place, and enough workers.** -/
theorem pool_step {a : PoolAct} (hi : s.Inv domains) (hnd : domains.Nodup)
    (h : s.step a = .ok s') : s'.Inv domains := by
  cases a with
  | create =>
      simp only [Pool.step] at h
      split at h
      · cases h
      · rename_i n hn
        rw [← Except.ok.inj h]
        exact hi.create hn
  | get w =>
      simp only [Pool.step] at h
      split at h
      · cases h
      · split at h
        · rename_i hw
          split at h
          · rename_i hempty
            rw [← Except.ok.inj h]
            exact hi.exit hnd hw hempty
          · rename_i d queue hq
            rw [← Except.ok.inj h]
            exact hi.take hw hq
        · cases h
  | run w lists =>
      simp only [Pool.step] at h
      split at h
      · rename_i d hw
        split at h
        · rename_i hl
          rw [← Except.ok.inj h]
          exact hi.run hw hl
        · cases h
      · cases h
  | put w =>
      simp only [Pool.step] at h
      split at h
      · rename_i d hw
        split at h
        · rename_i hnil
          rw [← Except.ok.inj h]
          exact hi.put hw (Or.inl ⟨hnil, rfl, rfl⟩)
        · rw [← Except.ok.inj h]
          exact hi.put hw (Or.inr ⟨rfl, rfl⟩)
      · cases h
  | join =>
      simp only [Pool.step] at h
      split at h
      · rename_i hc
        rw [← Except.ok.inj h]
        refine ⟨hi.spread, hi.empty, hi.enough, hi.last, fun _ => ?_⟩
        unfold Pool.alive
        rw [hc.1, countP_alive_eq_zero.mpr hc.2]
      · cases h

theorem pool_reachable (hnd : domains.Nodup)
    (hr : Runs Pool.step anyAct (msockBaseLoop domains lists) s) : s.Inv domains :=
  hr.invariant (fun _ _ _ hi _ h => pool_step hi hnd h) (pool_init hnd)

/--
**The worker pool leaves no domain behind.** At any time every domain is queued once, or
with exactly one worker, or retired with no process; there are at least as many workers
as unretired domains with hungry processes; and when no worker is left, which is the case
once `msock_base_loop` has returned, every domain is retired.
-/
theorem worker_pool_keeps_domains (hnd : domains.Nodup)
    (hr : Runs Pool.step anyAct (msockBaseLoop domains lists) s) :
    (∀ d ∈ domains, ∃! p, d ∈ s.held p) ∧ (∀ p, (s.held p).Nodup) ∧
      (∀ d ∈ s.retired, (s.lists d).listOfProcesses = []) ∧
      domains.countP s.hungry ≤ s.alive ∧
      (s.alive = 0 → ∀ d ∈ domains, d ∈ s.retired) ∧ (s.returned = true → s.alive = 0) := by
  have hi := pool_reachable hnd hr
  refine ⟨fun d hd => hi.spread.existsUnique hd, hi.spread.nodup, hi.empty, hi.enough,
    fun hzero d hd => ?_, hi.joined⟩
  by_contra hnot
  have hmem := mem_domains hi.spread (hi.last hzero) hd hnot
  have hle := length_domains_le s.workers
  have hpos := List.length_pos_of_mem hmem
  unfold Pool.alive at hzero
  omega

end Steps

/-! ## What a run does to the lists of a domain -/

/-- The lists of a domain. -/
def Domain.lists (d : Domain) : Lists := ⟨d.listOfProcesses, d.listOfHungryProcesses⟩

/-- The act is not the start of an engine's process. -/
def notEngineStart (_ : Domain) (a : Env × Act) : Prop :=
  ∀ receiveCallback, a.2 ≠ .baseSpawn receiveCallback true

/-- **What a domain does inside `msock_base_loop` is what the pool allows for.** -/
theorem lists_runsTo {gid maxProcesses : Nat} {d d' : Domain}
    (h₀ : Runs Domain.act anyAct (Domain.new gid maxProcesses) d)
    (hr : Runs Domain.act notEngineStart d d') : d.lists.RunsTo d'.lists := by
  constructor
  · refine hr.invariant
      (I := fun t => t.listOfHungryProcesses.Sublist d.listOfHungryProcesses)
      (fun a t t' ht hok hact => ?_) (List.Sublist.refl _)
    exact (stepped_hungry (step_cases hact) hok).trans ht
  · exact hungry_sublist (h₀.trans (hr.weaken (fun _ _ _ => trivial)))

/-- A user's domain and two engines, which two workers run at the same time until all have
exited. -/
theorem worker_pool_keeps_two_engines : ∃ s : Pool Nat, s.returned = true ∧
    s.workers = [.exited, .exited] ∧ s.retired = [1, 3, 2] ∧ ∀ d ∈ [1, 2, 3], d ∈ s.retired := by
  obtain ⟨s, hr, hp⟩ := exists_run (show (runActs Pool.step anyAct
      [.create, .get 1, .get 0, .run 0 ⟨[0], [0]⟩, .run 1 ⟨[], []⟩, .put 0, .put 1,
        .get 1, .get 0, .run 1 ⟨[], []⟩, .run 0 ⟨[], []⟩, .put 1, .get 1, .put 0, .get 0, .join]
      (msockBaseLoop [1, 2, 3] (fun d => ⟨[0], if d = 1 then [] else [0]⟩))).any
        (fun s : Pool Nat => decide (s.returned = true ∧ s.workers = [.exited, .exited] ∧
          s.retired = [1, 3, 2])) = true by decide +kernel)
  obtain ⟨hreturned, hworkers, hretired⟩ := of_decide_eq_true hp
  obtain ⟨_, _, _, _, hall, hret⟩ := worker_pool_keeps_domains (by decide) hr
  exact ⟨s, hreturned, hworkers, hretired, hall (hret hreturned)⟩

end Msock
