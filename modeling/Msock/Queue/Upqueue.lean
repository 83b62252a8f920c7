import Msock.Lib.Chain

/-!
# upqueue.h: the intrusive single-threaded queue

Every mailbox, outbox, free list and run queue is a `struct queue_root` over
`struct queue_head`s embedded in the queued objects. The functions below are
`upqueue.h` line for line, over a memory of `next` fields; `none` is a read or a
write through a pointer that is not the address of a `queue_head`.

`Queue` is the same queue without the memory: the items one meets from `first`,
and whether `last` is set. The second component is not redundant. Most
operations keep it equal to "the queue is non-empty", but `queue_put` decides by
`last` alone and `queue_splice_prepend` never writes `last`, so the two can part.
-/

namespace Msock

open Lib

universe u
variable {α : Type u}

/-- `struct queue_root`. -/
structure QueueRoot (α : Type u) where
  first : Ptr α
  last : Ptr α
  deriving DecidableEq, Repr

/-- `INIT_QUEUE_ROOT`. -/
def initQueueRoot : QueueRoot α := ⟨.null, .null⟩

section Memory
variable [DecidableEq α]

/-- `INIT_QUEUE_HEAD`. -/
def initQueueHead (h : Links α) (item : α) : Links α := Function.update h item (some .poison)

/-- `queue_is_enqueued`. -/
def queueIsEnqueued (h : Links α) (item : α) : Option Bool :=
  (h item).map (fun next => next != .poison)

/-- `queue_put`: true when `last` was NULL. -/
def queuePut (new : α) (root : QueueRoot α) (h : Links α) :
    Option (Bool × QueueRoot α × Links α) := do
  let h ← store h (.node new) .null
  if root.last = .null then
    return (true, ⟨.node new, .node new⟩, h)
  else
    let h ← store h root.last (.node new)
    return (false, ⟨root.first, .node new⟩, h)

/-- `queue_put_head`: true when `first` was NULL. -/
def queuePutHead (new : α) (root : QueueRoot α) (h : Links α) :
    Option (Bool × QueueRoot α × Links α) := do
  let h ← store h (.node new) root.first
  if root.first = .null then
    return (true, ⟨.node new, .node new⟩, h)
  else
    return (false, ⟨.node new, root.last⟩, h)

/-- `queue_get`. -/
def queueGet (root : QueueRoot α) (h : Links α) : Option (Option α × QueueRoot α × Links α) :=
  match root.first with
  | .null => some (none, root, h)
  | .poison => none
  | .node item => do
      let first ← h item
      let last := if first = .null then .null else root.last
      let h ← store h (.node item) .poison
      return (some item, ⟨first, last⟩, h)

/-- `queue_splice`: the sources are emptied, and the results are `(src, dst, memory)`. -/
def queueSplice (src dst : QueueRoot α) (h : Links α) :
    Option (QueueRoot α × QueueRoot α × Links α) :=
  if src.first = .null then
    some (src, dst, h)
  else if dst.last = .null then
    some (initQueueRoot, ⟨src.first, src.last⟩, h)
  else do
    let h ← store h dst.last src.first
    return (initQueueRoot, ⟨dst.first, src.last⟩, h)

/-- `queue_splice_prepend`. `dst->last` is left as it was. -/
def queueSplicePrepend (src dst : QueueRoot α) (h : Links α) :
    Option (QueueRoot α × QueueRoot α × Links α) :=
  if src.first = .null then
    some (src, dst, h)
  else do
    let h ← store h src.last dst.first
    return (initQueueRoot, ⟨src.first, dst.last⟩, h)

/--
The loop of `queue_slow_del`, which moves the items in front of `old` to
`newroot`. It runs at most `fuel` times; a NULL item is put like any other, which
is a write through NULL.
-/
def queueSlowDelLoop (old : α) :
    Nat → QueueRoot α → QueueRoot α → Links α → Option (QueueRoot α × QueueRoot α × Links α)
  | 0, _, _, _ => none
  | fuel + 1, root, newroot, h => do
      let (item, root, h) ← queueGet root h
      match item with
      | none => none
      | some item =>
          if item = old then
            return (root, newroot, h)
          else
            let (_, newroot, h) ← queuePut item newroot h
            queueSlowDelLoop old fuel root newroot h

/-- `queue_slow_del`. -/
def queueSlowDel (fuel : Nat) (old : α) (root : QueueRoot α) (h : Links α) :
    Option (QueueRoot α × Links α) := do
  let (root, newroot, h) ← queueSlowDelLoop old fuel root initQueueRoot h
  -- prefix is in newroot, item is popped, suffix is in root
  let (_, root, h) ← queueSplicePrepend newroot root h
  return (root, h)

end Memory

/-! ## The queue without the memory -/

/-- What a queue root shows: the items met from `first`, and whether `last` is set. -/
@[ext]
structure Queue (α : Type u) where
  items : List α
  lastSet : Bool
  /-- Every operation that empties a queue also clears `last`. -/
  wf : items = [] → lastSet = false
  deriving DecidableEq, Repr

namespace Queue

/-- `INIT_QUEUE_ROOT`. -/
def init : Queue α := ⟨[], false, fun _ => rfl⟩

/-- A queue whose `last` is set whenever it holds something. -/
def Whole (q : Queue α) : Prop := q.items ≠ [] → q.lastSet = true

instance (q : Queue α) : Decidable q.Whole :=
  decidable_of_iff (q.items.isEmpty = true ∨ q.lastSet = true) (by
    rw [List.isEmpty_iff, Whole, Classical.or_iff_not_imp_left])

/-- The whole queue holding `xs`. -/
def ofList (xs : List α) : Queue α := ⟨xs, !xs.isEmpty, fun h => by simp [h]⟩

/-- `queue_put`: decided by `last` alone. -/
def put (x : α) (q : Queue α) : Bool × Queue α :=
  if q.lastSet then (false, ⟨q.items ++ [x], true, by simp⟩)
  else (true, ⟨[x], true, by simp⟩)

/-- `queue_put_head`: decided by `first` alone. -/
def putHead (x : α) (q : Queue α) : Bool × Queue α :=
  if q.items.isEmpty then (true, ⟨[x], true, by simp⟩)
  else (false, ⟨x :: q.items, q.lastSet, by simp⟩)

/-- `queue_get`. -/
def get (q : Queue α) : Option (α × Queue α) :=
  match q.items with
  | [] => none
  | x :: xs => some (x, ⟨xs, !xs.isEmpty && q.lastSet, fun h => by simp [h]⟩)

/-- `queue_splice`, as `(src, dst)`. -/
def splice (src dst : Queue α) : Queue α × Queue α :=
  if src.items.isEmpty then (src, dst)
  else if dst.lastSet then
    (init, ⟨dst.items ++ src.items, src.lastSet, fun h => src.wf (List.append_eq_nil_iff.mp h).2⟩)
  else (init, src)

/-- `queue_splice_prepend`, as `(src, dst)`; `none` is the write through a NULL `src->last`. -/
def splicePrepend (src dst : Queue α) : Option (Queue α × Queue α) :=
  if src.items.isEmpty then some (src, dst)
  else if src.lastSet then
    some (init, ⟨src.items ++ dst.items, dst.lastSet,
      fun h => dst.wf (List.append_eq_nil_iff.mp h).2⟩)
  else none

end Queue

end Msock
