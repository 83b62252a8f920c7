import Msock.Queue.Msqueue

/-!
# msqueue.h: the queue of domains, used by several threads

The same functions with every read of `head`, `tail` or `next` and every CAS a step of its
own, so that any other thread's may come in between. Next to the queue a history is kept:
what has been put and not taken, and whether a call that is going on has seen a moment at
which there was nothing.
-/

namespace Msock

open Lib

universe u v
variable {ι : Type v} {α : Type u}

/-- Where a call of `msqueue_put` stands: what it does next, and its locals. -/
inductive PutAt (α : Type u)
  /-- The read of `new->next` in the first line. -/
  | reads
  /-- `_cas(&new->next, next, NULL)`. -/
  | clears (next : Ptr (MsNode α))
  | tail
  | next (tail : Ptr (MsNode α))
  | tests (tail next : Ptr (MsNode α))
  /-- `_cas(&tail->next, next, new)`, `next` being null. -/
  | links (tail : Ptr (MsNode α))
  /-- `_cas(&root->tail, tail, next)`. -/
  | helps (tail next : Ptr (MsNode α))
  /-- `_cas(&root->tail, tail, new)`, the last line. -/
  | swings (tail : Ptr (MsNode α))
  deriving DecidableEq

/-- Where a call of `msqueue_get` stands. -/
inductive GetAt (α : Type u)
  | head
  | tail (head : Ptr (MsNode α))
  | next (head tail : Ptr (MsNode α))
  | tests (head tail next : Ptr (MsNode α))
  | helps (tail next : Ptr (MsNode α))
  /-- `_cas(&root->head, head, next)`. -/
  | takes (head next : Ptr (MsNode α))
  /-- `_cas(&head->next, next, MSQUEUE_POISON1)`, `head` being an element. -/
  | poisons (head : α) (next : Ptr (MsNode α))
  deriving DecidableEq

/-- What a thread is at. The divider is put by `msqueue_get`. -/
inductive CallAt (α : Type u)
  | idle
  | put (new : MsNode α) (pc : PutAt α)
  | get (pc : GetAt α)
  /-- `msqueue_get` has returned this. -/
  | returned (head : Option (MsNode α))
  deriving DecidableEq

/-- The node a thread has in hand: to be linked, or taken off and not poisoned yet. -/
def CallAt.owns : CallAt α → Option (MsNode α)
  | .put _ (.swings _) => none
  | .put new _ => some new
  | .get (.poisons head _) => some (.item head)
  | _ => none

/-- The thread is in no call. -/
def CallAt.free : CallAt α → Bool
  | .idle | .returned _ => true
  | _ => false

/-- The thread is in `msqueue_get`. -/
def CallAt.inGet : CallAt α → Bool
  | .get _ | .put .divider _ => true
  | _ => false

variable [DecidableEq α]

/-- The thread has linked the element, and has yet to return from `msqueue_put`. -/
def CallAt.linked (a : α) : CallAt α → Bool
  | .put new (.swings _) => decide (new = .item a)
  | _ => false

/-- The next atomic step of a call. -/
def callStep (root : MsqueueRoot α) (h : Links (MsNode α)) :
    CallAt α → Except MsqueueStop (MsqueueRoot α × Links (MsNode α) × CallAt α)
  | .idle => .ok (root, h, .idle)
  | .returned head => .ok (root, h, .returned head)
  | .put new .reads => do
      let next ← loadNext h (.node new)
      return (root, h, .put new (.clears next))
  | .put new (.clears next) => do
      let (swapped, h) ← casNext h (.node new) next .null
      if swapped then return (root, h, .put new .tail) else .error .abort
  | .put new .tail => .ok (root, h, .put new (.next root.tail))
  | .put new (.next tail) => do
      let next ← loadNext h tail
      return (root, h, .put new (.tests tail next))
  | .put new (.tests tail next) =>
      if tail ≠ root.tail then .ok (root, h, .put new .tail)
      else if next = .null then .ok (root, h, .put new (.links tail))
      else .ok (root, h, .put new (.helps tail next))
  | .put new (.links tail) => do
      let (swapped, h) ← casNext h tail .null (.node new)
      return (root, h, .put new (if swapped then .swings tail else .tail))
  | .put new (.helps tail next) =>
      .ok ({ root with tail := (casRoot root.tail tail next).2 }, h, .put new .tail)
  | .put new (.swings tail) =>
      .ok ({ root with tail := (casRoot root.tail tail (.node new)).2 }, h,
        -- `msqueue_get` goes on with its loop
        if new = .divider then .get .head else .idle)
  | .get .head => .ok (root, h, .get (.tail root.head))
  | .get (.tail head) => .ok (root, h, .get (.next head root.tail))
  | .get (.next head tail) => do
      let next ← loadNext h head
      return (root, h, .get (.tests head tail next))
  | .get (.tests head tail next) =>
      if head ≠ root.head then .ok (root, h, .get .head)
      else if head = tail then
        if next = .null then .ok (root, h, .returned none)
        else .ok (root, h, .get (.helps tail next))
      else .ok (root, h, .get (.takes head next))
  | .get (.helps tail next) =>
      .ok ({ root with tail := (casRoot root.tail tail next).2 }, h, .get .head)
  | .get (.takes head next) =>
      let (swapped, first) := casRoot root.head head next
      let root := { root with head := first }
      if swapped then
        match head with
        | .node .divider => .ok (root, h, .put .divider .reads)
        | .node (.item a) => .ok (root, h, .get (.poisons a next))
        | _ => .error .fault
      else .ok (root, h, .get .head)
  | .get (.poisons head next) => do
      let (swapped, h) ← casNext h (.node (.item head)) next .poison
      if swapped then return (root, h, .returned (some (.item head))) else .error .abort

/-- The queue, what each thread is at, and the history. -/
structure MsqueueCalls (ι : Type v) (α : Type u) where
  root : MsqueueRoot α
  links : Links (MsNode α)
  calls : ι → CallAt α
  /-- What a put was called with, and no get has returned since. -/
  queued : Finset α
  /-- What was put, the put having returned, and is not taken. -/
  present : Finset α
  /-- What this thread has linked is taken, its put not having returned yet. -/
  overtaken : ι → Bool
  /-- Some thread has the divider in hand. -/
  outside : Bool
  /-- `head` was not the first node any more when this thread read `head->next`. -/
  moved : ι → Bool
  /-- Some thread had the divider in hand when this thread read `head->next`. -/
  apart : ι → Bool
  /-- Nothing was present at some moment of this thread's `msqueue_get`. -/
  sawEmpty : ι → Bool

/-- A queue that nobody has called yet. -/
def MsqueueCalls.init (links : Links (MsNode α)) : MsqueueCalls ι α :=
  ⟨(initMsqueueRoot links).1, (initMsqueueRoot links).2, fun _ => .idle, ∅, ∅,
    fun _ => false, false, fun _ => false, fun _ => false, fun _ => false⟩

/-- What a thread's step adds to the history. -/
def MsqueueCalls.record [DecidableEq ι] (i : ι) (before after : CallAt α)
    (s : MsqueueCalls ι α) : MsqueueCalls ι α :=
  match before, after with
  | .put new (.links _), .put _ (.swings _) =>
      { s with
        overtaken := Function.update s.overtaken i false
        outside := s.outside && decide (new ≠ .divider) }
  | .put (.item a) (.swings _), _ =>
      if s.overtaken i then s else { s with present := insert a s.present }
  | .get (.next head _), _ =>
      { s with
        moved := Function.update s.moved i (decide (s.root.head ≠ head))
        apart := Function.update s.apart i s.outside }
  | .get (.takes _ _), .get (.poisons a _) =>
      { s with
        present := s.present.erase a
        overtaken := fun j => s.overtaken j || (s.calls j).linked a }
  | .get (.takes _ _), .put _ _ => { s with outside := true }
  | .get (.poisons a _), _ => { s with queued := s.queued.erase a }
  | _, _ => s

/-- A moment at which nothing is present is seen by every get that is going on. -/
def MsqueueCalls.observe (s : MsqueueCalls ι α) : MsqueueCalls ι α :=
  { s with sawEmpty := fun j => s.sawEmpty j || (s.calls j).inGet && decide (s.present = ∅) }

/-- What happens next: a thread calls one of the functions, or takes a step in its call. -/
inductive MsqueueCallAct (ι : Type v) (α : Type u)
  | put (i : ι) (a : α)
  | get (i : ι)
  | step (i : ι)

variable [DecidableEq ι]

def MsqueueCalls.step (a : MsqueueCallAct ι α) (s : MsqueueCalls ι α) :
    Except MsqueueStop (MsqueueCalls ι α) :=
  match a with
  | .put i a =>
      .ok { s with
        calls := Function.update s.calls i (.put (.item a) .reads)
        queued := insert a s.queued }
  | .get i =>
      .ok { s with
        calls := Function.update s.calls i (.get .head)
        sawEmpty := Function.update s.sawEmpty i (decide (s.present = ∅)) }
  | .step i =>
      match callStep s.root s.links (s.calls i) with
      | .ok (root, links, call) =>
          .ok (MsqueueCalls.record i (s.calls i) call { s with
            root := root
            links := links
            calls := Function.update s.calls i call }).observe
      | .error stop => .error stop

/-- A thread is in one call at a time, and puts only what is not in the queue. -/
def MsqueueCalls.mayCall (s : MsqueueCalls ι α) : MsqueueCallAct ι α → Prop
  | .put i a => (s.calls i).free = true ∧ a ∉ s.queued
  | .get i => (s.calls i).free = true
  | .step _ => True

/-- What a CAS, or the second read of the head, finds unchanged has not been changed and
changed back. -/
def MsqueueCalls.noReuse (s : MsqueueCalls ι α) : MsqueueCallAct ι α → Prop
  | .step i =>
      match s.calls i with
      | .put _ (.links tail) =>
          load s.links tail = some .null → ∀ j, (s.calls j).owns.map .node ≠ some tail
      | .put new (.swings tail) =>
          s.root.tail = tail → load s.links tail = some (.node new)
      | .put _ (.helps tail next) | .get (.helps tail next) =>
          s.root.tail = tail → load s.links tail = some next
      | .get (.tests head tail next) =>
          s.root.head = head → head = tail → next = .null → s.moved i = false
      | .get (.takes head next) =>
          s.root.head = head → s.root.tail ≠ head ∧ load s.links head = some next
      | _ => True
  | _ => True

/-- An empty answer is given only if no thread had the divider in hand when the only node was
found without a successor. -/
def MsqueueCalls.dividerLinked (s : MsqueueCalls ι α) : MsqueueCallAct ι α → Prop
  | .step i =>
      match s.calls i with
      | .get (.tests head tail next) =>
          s.root.head = head → head = tail → next = .null → s.apart i = false
      | _ => True
  | _ => True

section Decidable
variable [Fintype ι]

instance (s : MsqueueCalls ι α) (a : MsqueueCallAct ι α) : Decidable (s.mayCall a) := by
  cases a <;> unfold MsqueueCalls.mayCall <;> infer_instance

instance (s : MsqueueCalls ι α) (a : MsqueueCallAct ι α) : Decidable (s.noReuse a) := by
  unfold MsqueueCalls.noReuse
  split <;> [split; skip] <;> infer_instance

instance (s : MsqueueCalls ι α) (a : MsqueueCallAct ι α) : Decidable (s.dividerLinked a) := by
  unfold MsqueueCalls.dividerLinked
  split <;> [split; skip] <;> infer_instance

end Decidable

end Msock
