import Msock.Lib.Trace

/-!
# A queue that many threads use

Each call of `put` or `get` takes effect at one moment between its call and its return: a
put appends, a get takes the first element. A get that answers that there was nothing may
do so because it has looked at an empty queue. What can be seen of the queue are the calls
and the returns with their answers.
-/

namespace Lib

universe u v
variable {ι : Type u} {α : Type v}

/-- What can be seen. -/
inductive QueueEvent (ι : Type u) (α : Type v) where
  | putCalled (i : ι) (a : α)
  | putReturned (i : ι)
  | getCalled (i : ι)
  | getReturned (i : ι) (answer : Option α)
  deriving DecidableEq

/-- Where a thread's call stands. -/
inductive AtomicCall (α : Type v) where
  | idle
  | putting (a : α)
  | put
  | getting (sawEmpty : Bool)
  | got (a : α)

structure AtomicQueue (ι : Type u) (α : Type v) where
  queue : List α
  calls : ι → AtomicCall α

/-- Nobody has called the queue yet. -/
def AtomicQueue.init : AtomicQueue ι α := ⟨[], fun _ => .idle⟩

variable [DecidableEq ι]

/-- A thread's call goes on. -/
def AtomicQueue.setCall (t : AtomicQueue ι α) (i : ι) (call : AtomicCall α) : AtomicQueue ι α :=
  { t with calls := Function.update t.calls i call }

/-- One step of one thread. If the queue is `truthful`, a get answers that there was nothing
only after a look at the empty queue. -/
inductive AtomicStep (truthful : Bool) (t : AtomicQueue ι α) :
    List (QueueEvent ι α) → AtomicQueue ι α → Prop
  | callPut (i : ι) (a : α) : t.calls i = .idle →
      AtomicStep truthful t [.putCalled i a] (t.setCall i (.putting a))
  | put (i : ι) (a : α) : t.calls i = .putting a →
      AtomicStep truthful t [] ({ t with queue := t.queue ++ [a] }.setCall i .put)
  | returnPut (i : ι) : t.calls i = .put →
      AtomicStep truthful t [.putReturned i] (t.setCall i .idle)
  | callGet (i : ι) : t.calls i = .idle →
      AtomicStep truthful t [.getCalled i] (t.setCall i (.getting false))
  | look (i : ι) (sawEmpty : Bool) : t.calls i = .getting sawEmpty → t.queue = [] →
      AtomicStep truthful t [] (t.setCall i (.getting true))
  | get (i : ι) (sawEmpty : Bool) (a : α) (rest : List α) : t.calls i = .getting sawEmpty →
      t.queue = a :: rest → AtomicStep truthful t [] ({ t with queue := rest }.setCall i (.got a))
  | returnGet (i : ι) (a : α) : t.calls i = .got a →
      AtomicStep truthful t [.getReturned i (some a)] (t.setCall i .idle)
  | returnEmpty (i : ι) (sawEmpty : Bool) : t.calls i = .getting sawEmpty →
      (truthful = true → sawEmpty = true) →
      AtomicStep truthful t [.getReturned i none] (t.setCall i .idle)

/-! ## Nothing is lost, nothing comes twice -/

/-- What a thread has in hand. -/
def AtomicCall.held : AtomicCall α → Multiset α
  | .putting a | .got a => {a}
  | _ => 0

/-- What the queue was called to put. -/
def puts : List (QueueEvent ι α) → List α :=
  List.filterMap fun e => match e with
    | .putCalled _ a => some a
    | _ => none

/-- What the queue has answered. -/
def answers : List (QueueEvent ι α) → List α :=
  List.filterMap fun e => match e with
    | .getReturned _ answer => answer
    | _ => none

theorem sum_held_update [Fintype ι] (calls : ι → AtomicCall α) (i : ι) (call : AtomicCall α) :
    ∑ j, (Function.update calls i call j).held + (calls i).held
      = ∑ j, (calls j).held + call.held := by
  have hheld : (fun j => (Function.update calls i call j).held)
      = Function.update (fun j => (calls j).held) i call.held := by
    funext j
    by_cases hj : j = i
    · subst hj; simp
    · simp [hj]
  rw [hheld, Finset.sum_update_of_mem (Finset.mem_univ i),
    Finset.sum_eq_add_sum_sdiff_singleton_of_mem (Finset.mem_univ i) (fun j => (calls j).held)]
  abel

/-- What has been put and what is accounted for, as multisets. -/
def AtomicQueue.Balanced [Fintype ι] (t : AtomicQueue ι α) (es : List (QueueEvent ι α)) : Prop :=
  (puts es : Multiset α) = answers es + t.queue + ∑ j, (t.calls j).held

/-- What a step adds to each side. -/
theorem AtomicQueue.Balanced.move [Fintype ι] {t : AtomicQueue ι α} {es es' : List (QueueEvent ι α)}
    {i : ι} {call : AtomicCall α} {queue : List α} (h : t.Balanced es)
    (hmove : (puts es' : Multiset α) + (t.calls i).held + t.queue
      = answers es' + call.held + queue) :
    ({ t with queue := queue }.setCall i call).Balanced (es ++ es') := by
  have hsum := sum_held_update t.calls i call
  have hputs : puts (es ++ es') = puts es ++ puts es' := List.filterMap_append ..
  have hanswers : answers (es ++ es') = answers es ++ answers es' := List.filterMap_append ..
  unfold AtomicQueue.Balanced at h ⊢
  rw [hputs, hanswers, ← Multiset.coe_add, ← Multiset.coe_add, h]
  refine add_right_cancel (b := (t.calls i).held) ?_
  show (answers es : Multiset α) + t.queue + ∑ j, (t.calls j).held + puts es' + (t.calls i).held
    = answers es + answers es' + queue + ∑ j, (Function.update t.calls i call j).held
      + (t.calls i).held
  calc _ = (answers es : Multiset α) + ∑ j, (t.calls j).held
          + (puts es' + (t.calls i).held + t.queue) := by abel
    _ = answers es + answers es' + queue + (∑ j, (t.calls j).held + call.held) := by
          rw [hmove]; abel
    _ = answers es + answers es' + queue
          + (∑ j, (Function.update t.calls i call j).held + (t.calls i).held) := by rw [hsum]
    _ = _ := by abel

theorem AtomicStep.balanced [Fintype ι] {truthful : Bool} {t t' : AtomicQueue ι α}
    {es es' : List (QueueEvent ι α)} (h : t.Balanced es) (hstep : AtomicStep truthful t es' t') :
    t'.Balanced (es ++ es') := by
  cases hstep with
  | callPut i a hi => exact h.move (by simp [hi, puts, answers, AtomicCall.held])
  | put i a hi =>
      exact h.move (by simp [hi, puts, answers, AtomicCall.held, ← Multiset.coe_add, add_comm])
  | returnPut i hi => exact h.move (by simp [hi, puts, answers, AtomicCall.held])
  | callGet i hi => exact h.move (by simp [hi, puts, answers, AtomicCall.held])
  | look i sawEmpty hi hempty => exact h.move (by simp [hi, puts, answers, AtomicCall.held])
  | get i sawEmpty a rest hi hqueue =>
      exact h.move (by simp [hi, hqueue, puts, answers, AtomicCall.held])
  | returnGet i a hi => exact h.move (by simp [hi, puts, answers, AtomicCall.held])
  | returnEmpty i sawEmpty hi _ => exact h.move (by simp [hi, puts, answers, AtomicCall.held])

/-- **What was put is answered once, waits in the queue, or is in the hands of one thread.** -/
theorem balanced_of_traced [Fintype ι] {truthful : Bool} {t : AtomicQueue ι α}
    {es : List (QueueEvent ι α)} (h : Traced (AtomicStep truthful) .init es t) : t.Balanced es := by
  refine h.invariant (I := fun es t => t.Balanced es) ?_ fun es es' t t' hb hstep => hstep.balanced hb
  simp [AtomicQueue.Balanced, AtomicQueue.init, puts, answers, AtomicCall.held]

end Lib
