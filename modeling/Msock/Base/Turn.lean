import Msock.Base.Sound
import Msock.Domain.Work

/-!
# A worker gives its domain back

While callbacks return without calling the library, the number of steps a worker needs is bounded
by what the domain holds when it starts, and as long as it has not given the domain back, there
is a next step.
-/

namespace Msock

open Lib

variable {d d' : Domain} {p : ProcId} {env : Env} {n : Nat}

/-- Messages are put safely, and the process under the cursor stays. -/
def undisturbed (d : Domain) (a : Env × Act) : Prop := safeAct d a ∧ keepsCursor d a

instance (d : Domain) (a : Env × Act) : Decidable (undisturbed d a) :=
  inferInstanceAs (Decidable (safeAct d a ∧ keepsCursor d a))

/-- The library goes on, and no callback calls it. -/
def goesOn (d : Domain) (a : Env × Act) : Prop := undisturbed d a ∧ a.2.library = true

instance (d : Domain) (a : Env × Act) : Decidable (goesOn d a) :=
  inferInstanceAs (Decidable (undisturbed d a ∧ a.2.library = true))

/-! ## The bound -/

/-- Enough steps to give the domain back: what is unread, a place in the queue for every process,
and what is left to do. -/
def Domain.work (d : Domain) : Nat :=
  2 * d.sched.unread + 2 * d.listOfProcesses.length + d.todo

theorem within_work (h : d.Standing) : d.Within d.work := by
  obtain ⟨q, hq⟩ := h.busy.ordered
  have hlen : q.items.length ≤ d.listOfProcesses.length :=
    (hq.repr.nodup.subperm fun p hp => hq.listed p (hq.live_of_mem hp)).length_le
  refine ⟨2 * d.sched.unread + 2 * q.items.length, ⟨q, hq, Nat.le_refl _⟩, ?_⟩
  unfold Domain.work
  omega

/-- A run of the library is no longer than the bound it starts with. -/
theorem length_le_of_within {as : List (Env × Act)} (h : d.Standing) (hw : d.Within n)
    (hrun : runActs Domain.act goesOn as d = some d') : as.length ≤ n := by
  induction as generalizing d n with
  | nil => exact Nat.zero_le n
  | cons a as ih =>
      rw [runActs] at hrun
      split at hrun
      · rename_i hok
        split at hrun
        · rename_i d₁ hact
          have hnodup : d.listOfHungryProcesses.Nodup := h.walking.sub.nodup h.routed.nodup
          obtain ⟨k, hlt, hw₁⟩ := stepped_within (step_cases hact) hok.2 hok.1.1 hnodup hw
          have := ih (standing_step h hok.1.1 hok.1.2 hact) hw₁ hrun
          rw [List.length_cons]
          omega
        · cases hrun
      · cases hrun

/-! ## The next step -/

/-- What the code does next, if it holds the domain. What is seen of the victim of a flush, and
what a callback returns, is not its choice. -/
def Phase.nextAct (victim dequeued : Bool) (recv : Recv) : Phase → Option Act
  | .idle => none
  | .picked => some .mark
  | .entered => some .splice
  | .dispatching _ _ => some .dispatch
  | .queueRun => some .nextProcess
  | .processRun _ => some .nextMessage
  | .callback _ _ _ => some (.ret recv)
  | .flush _ _ false _ => some (.flushTake victim)
  | .flush _ _ true _ => some (.flushWake dequeued)
  | .ran _ => some .next
  | .finished => some .requeue
  | .retired => none

/-- What a step of the code that holds the domain ends with: the next state, the call of a NULL
callback, or `fatal` because the callback returned none of the codes `process_run` knows. -/
inductive Domain.Goes (env : Env) (d : Domain) (a : Act) : Prop
  | on (d' : Domain) (hact : d.act (env, a) = .ok d')
  | null (hnull : d.Stray env a)
  | unknown (code : Int) (hret : a = .ret (.other code))
      (hact : d.act (env, a) = .error (.fatal "wtf?"))

/-- **There is a next step.** -/
theorem next_step {victim dequeued : Bool} {recv : Recv} {a : Act} (h : d.Standing)
    (hnext : d.phase.nextAct victim dequeued recv = some a) (hok : undisturbed d (env, a))
    (hcur : ∀ p msg received, d.phase = .callback p msg received → d.current = [p]) :
    d.Goes env a := by
  have ho := h.busy.ordered
  unfold Phase.nextAct at hnext
  split at hnext
  · cases hnext
  · rename_i hphase
    cases hnext
    exact .on _ (if_pos hphase)
  · rename_i hphase
    cases hnext
    exact .on _ (if_pos hphase)
  · rename_i again counter hphase
    cases hnext
    have hturn : ∃ d', dispatchTurn again counter d = .ok d' := dispatchTurn_total ho h.routed hok.1
    obtain ⟨d', hd'⟩ := hturn
    refine .on d' ?_
    simp only [Domain.act, Domain.step, hphase]
    exact hd'
  · rename_i hphase
    cases hnext
    have ho₁ : d.Ordered none := by
      rw [Domain.running, hphase] at ho
      exact ho
    obtain ⟨d', hd'⟩ := queueRunTurn_total ho₁
    refine .on d' ?_
    simp only [Domain.act, Domain.step, hphase]
    exact hd'
  · rename_i p hphase
    cases hnext
    obtain ⟨process, hp⟩ := Option.isSome_iff_exists.1
      (h.running p (by rw [Domain.running, hphase]; rfl))
    cases hget : process.inbox.get with
    | none =>
        refine .on { d with phase := .queueRun, current := [] } ?_
        simp only [Domain.act, Domain.step, hphase]
        rw [processRunTurn, bind_ok (access_eq_ok.2 hp), hget]
        rfl
    | some taken =>
        obtain ⟨msg, inbox⟩ := taken
        cases hcallback : process.receiveCallback with
        | none =>
            refine .null ⟨p, process, hphase, hp, fun he => ?_, hcallback⟩
            rw [Queue.get_eq_none.2 he] at hget
            cases hget
        | some callback =>
            refine .on { (d.setProcess p { process with inbox := inbox }).emit (.presented p msg)
              with phase := .callback p msg false } ?_
            simp only [Domain.act, Domain.step, hphase]
            rw [processRunTurn, bind_ok (access_eq_ok.2 hp), hget]
            dsimp only
            rw [hcallback]
            rfl
  · rename_i p msg received hphase
    cases hnext
    have hrunning : d.running = some p := by rw [Domain.running, hphase]; rfl
    have hact : d.act (env, .ret recv) = recvReturn p msg recv d := by
      simp only [Domain.act, Domain.step, hphase]
      exact if_pos (hcur p msg received hphase)
    by_cases hrecv : ∃ code, recv = .other code
    · obtain ⟨code, rfl⟩ := hrecv
      exact .unknown code rfl hact
    · have hreturn : ∃ d', recvReturn p msg recv d = .ok d' :=
        recvReturn_total (hrunning ▸ ho) h.routed (h.running p hrunning)
          fun code hcode => hrecv ⟨code, hcode⟩
      obtain ⟨d', hd'⟩ := hreturn
      exact .on d' (hact.trans hd')
  · rename_i gid counter back hphase
    cases hnext
    refine .on (flushTake gid counter back victim d) ?_
    simp only [Domain.act, Domain.step, hphase]
  · rename_i gid counter back hphase
    cases hnext
    refine .on { (if dequeued then d.emit (.woke gid) else d) with
      phase := .flush (gid + 1) (counter + 1) false back } ?_
    simp only [Domain.act, Domain.step, hphase]
  · rename_i egress hphase
    cases hnext
    obtain ⟨d', hd'⟩ := workerNext_total h hphase hok.1
    refine .on d' ?_
    simp only [Domain.act, Domain.step, hphase]
    exact hd'
  · rename_i hphase
    cases hnext
    have hact : d.act (env, .requeue) = if d.listOfProcesses = [] then .ok { d with phase := .retired }
        else .ok { d with dequeued := false, phase := .idle } := if_pos hphase
    by_cases hempty : d.listOfProcesses = []
    · exact .on _ (hact.trans (if_pos hempty))
    · exact .on _ (hact.trans (if_neg hempty))
  · cases hnext

theorem standing_runs {gid maxProcesses : Nat} (hpos : 0 < gid) (hgid : gid < maxDomains)
    (h0 : 0 < maxProcesses) (hsz : maxProcesses < 2 ^ 31)
    (hr : Runs Domain.act undisturbed (Domain.new gid maxProcesses) d) : d.Standing :=
  hr.invariant (fun _ _ _ h hok hact => standing_step h hok.1 hok.2 hact)
    (standing_new hpos hgid h0 hsz)

/--
**A worker gives its domain back.**

In every domain reached while no process is put to the queue of busy processes twice or behind a
lost last, and none is freed under the cursor: however the callbacks return, as long as they do
not call the library a run of the library is no longer than `Domain.work`; and while a worker
holds the domain, and no constructor runs, there is a next step. It succeeds unless it calls a
receive callback that is NULL, or the callback returned a code `process_run` does not know.
-/
theorem worker_gives_back {gid maxProcesses : Nat} (hpos : 0 < gid) (hgid : gid < maxDomains)
    (h0 : 0 < maxProcesses) (hsz : maxProcesses < 2 ^ 31)
    (hr : Runs Domain.act undisturbed (Domain.new gid maxProcesses) d) :
    (∀ as d', runActs Domain.act goesOn as d = some d' → as.length ≤ d.work) ∧
    (d.phase ≠ .idle → d.phase ≠ .retired →
      (∀ p msg received, d.phase = .callback p msg received → d.current = [p]) →
      ∀ env victim dequeued recv,
        ∃ a, d.phase.nextAct victim dequeued recv = some a ∧ a.library = true ∧
          (undisturbed d (env, a) → d.Goes env a)) := by
  have h := standing_runs hpos hgid h0 hsz hr
  refine ⟨fun as d' hrun => length_le_of_within h (within_work h) hrun, ?_⟩
  intro hidle hretired hcur env victim dequeued recv
  have hnext : ∃ a, d.phase.nextAct victim dequeued recv = some a ∧ a.library = true := by
    cases hphase : d.phase with
    | idle => exact absurd hphase hidle
    | retired => exact absurd hphase hretired
    | flush gid counter spliced back =>
        cases spliced with
        | false => exact ⟨_, rfl, rfl⟩
        | true => exact ⟨_, rfl, rfl⟩
    | _ => exact ⟨_, rfl, rfl⟩
  obtain ⟨a, ha, hlib⟩ := hnext
  exact ⟨a, ha, hlib, fun hok => next_step h ha hok hcur⟩

/-- One process has one message; the worker is done after seventeen steps. -/
theorem worker_gives_back_one : ∃ (d d' : Domain) (as : List (Env × Act)),
    runActs Domain.act goesOn as d = some d' ∧ d'.phase = .idle ∧ as.length = 17 ∧
      as.length ≤ d.work := by
  obtain ⟨d, hr, h⟩ := exists_run (show (runActs Domain.act undisturbed
      ([.baseSpawn (some 0) false, .baseSend (poffGidToPid 2 1) 3 [] 0, .flushTake false,
        .flushTake false, .flushTake false, .flushTake false, .flushTake false, .flushTake false,
        .pick].map (fun a => ((⟨fun _ => 0, []⟩ : Env), a))) (Domain.new 1 1)).any (fun d =>
      (runActs Domain.act goesOn
        ([.mark, .splice, .dispatch, .nextProcess, .nextMessage, .ret .ok, .nextMessage,
          .nextProcess, .dispatch, .flushTake false, .flushTake false, .flushTake false,
          .flushTake false, .flushTake false, .flushTake false, .next, .requeue].map
          (fun a => ((⟨fun _ => 0, []⟩ : Env), a))) d).any (fun d' => decide (d'.phase = .idle)))
      = true by decide +kernel)
  obtain ⟨d', hrun, hidle⟩ := Option.any_eq_true _ _ |>.mp h
  exact ⟨d, d', _, hrun, of_decide_eq_true hidle, rfl,
    (worker_gives_back (by decide) (by decide) (by decide) (by decide) hr).1 _ d' hrun⟩

end Msock
