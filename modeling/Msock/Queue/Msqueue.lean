import Msock.Lib.Runs
import Msock.Queue.UpqueueProof

/-!
# msqueue.h: the queue of domains, used by one thread

The queue is a chain from `head` to `tail` in which a dummy node, the divider, travels
along: when it comes to the front it is put at the end again. The functions are
`msqueue.h` line for line, with a bound on the rounds of their loops. A thread that is alone
finds the roots as it left them.
-/

namespace Msock

open Lib

universe u
variable {α : Type u}

/-- The nodes of a queue: its divider and what is put. -/
inductive MsNode (α : Type u)
  | divider
  | item (a : α)
  deriving DecidableEq

/-- `struct msqueue_root`, but for its divider. -/
structure MsqueueRoot (α : Type u) where
  head : Ptr (MsNode α)
  tail : Ptr (MsNode α)

/-- How a call ends early. -/
inductive MsqueueStop
  | abort
  /-- A read or a write through a pointer that is not the address of a node. -/
  | fault
  /-- The bound on the rounds is used up. -/
  | rounds
  deriving DecidableEq

variable [DecidableEq α]

/-- `p->next`. -/
def loadNext (h : Links (MsNode α)) (p : Ptr (MsNode α)) : Except MsqueueStop (Ptr (MsNode α)) :=
  match load h p with
  | some next => .ok next
  | none => .error .fault

/-- `_cas(&p->next, oldval, newval)`. -/
def casNext (h : Links (MsNode α)) (p oldval newval : Ptr (MsNode α)) :
    Except MsqueueStop (Bool × Links (MsNode α)) := do
  let next ← loadNext h p
  if next = oldval then
    match store h p newval with
    | some h => return (true, h)
    | none => .error .fault
  else return (false, h)

/-- `_cas` on one of the root's pointers: whether it succeeds, and what is there then. -/
def casRoot (p oldval newval : Ptr (MsNode α)) : Bool × Ptr (MsNode α) :=
  if p = oldval then (true, newval) else (false, p)

/-- `INIT_MSQUEUE_ROOT`. -/
def initMsqueueRoot (h : Links (MsNode α)) : MsqueueRoot α × Links (MsNode α) :=
  (⟨.node .divider, .node .divider⟩, Function.update h .divider (some .null))

/-- `INIT_MSQUEUE_HEAD`. -/
def initMsqueueHead (h : Links (MsNode α)) (head : MsNode α) : Links (MsNode α) :=
  Function.update h head (some .poison)

/-- The loop of `msqueue_put`: the tail it linked the node to, and what it left. -/
def msqueuePutLoop (new : MsNode α) :
    Nat → MsqueueRoot α → Links (MsNode α) →
      Except MsqueueStop (Ptr (MsNode α) × MsqueueRoot α × Links (MsNode α))
  | 0, _, _ => .error .rounds
  | fuel + 1, root, h => do
      let tail := root.tail
      let next ← loadNext h tail
      if tail ≠ root.tail then msqueuePutLoop new fuel root h
      else if next = .null then
        let (swapped, h) ← casNext h tail next (.node new)
        if swapped then return (tail, root, h)
        else msqueuePutLoop new fuel root h
      else msqueuePutLoop new fuel { root with tail := (casRoot root.tail tail next).2 } h

/-- `msqueue_put`. -/
def msqueuePut (fuel : Nat) (new : MsNode α) (root : MsqueueRoot α) (h : Links (MsNode α)) :
    Except MsqueueStop (MsqueueRoot α × Links (MsNode α)) := do
  let next ← loadNext h (.node new)
  let (swapped, h) ← casNext h (.node new) next .null
  if swapped then
    let (tail, root, h) ← msqueuePutLoop new fuel root h
    return ({ root with tail := (casRoot root.tail tail (.node new)).2 }, h)
  else .error .abort

/-- `msqueue_get`. -/
def msqueueGet :
    Nat → MsqueueRoot α → Links (MsNode α) →
      Except MsqueueStop (Option (MsNode α) × MsqueueRoot α × Links (MsNode α))
  | 0, _, _ => .error .rounds
  | fuel + 1, root, h => do
      let head := root.head
      let tail := root.tail
      let next ← loadNext h head
      if head ≠ root.head then msqueueGet fuel root h
      else if head = tail then
        if next = .null then return (none, root, h)
        else msqueueGet fuel { root with tail := (casRoot root.tail tail next).2 } h
      else
        let (swapped, first) := casRoot root.head head next
        let root := { root with head := first }
        if swapped then
          match head with
          | .node .divider => do
              let (root, h) ← msqueuePut fuel .divider root h
              msqueueGet fuel root h
          | .node (.item a) => do
              let (swapped, h) ← casNext h head next .poison
              if swapped then return (some (.item a), root, h)
              else .error .abort
          | _ => .error .fault
        else msqueueGet fuel root h

/-! ## Calls, next to a list -/

/-- The queue, the list it stands for, and what both have answered so far. -/
structure MsqueueRun (α : Type u) where
  root : MsqueueRoot α
  links : Links (MsNode α)
  /-- What was put and not taken, in order. -/
  queue : List α
  /-- The nodes that `INIT_MSQUEUE_HEAD` or `msqueue_put` was called with. -/
  known : List α
  answers : List (Option (MsNode α))
  expected : List (Option (MsNode α))

/-- A queue, with the nodes somewhere in memory. -/
def MsqueueRun.init (links : Links (MsNode α)) : MsqueueRun α :=
  ⟨(initMsqueueRoot links).1, (initMsqueueRoot links).2, [], [], [], []⟩

/-- One call. -/
inductive MsqueueAct (α : Type u)
  | initHead (a : α)
  | put (a : α)
  | get
  deriving DecidableEq

/-- A call, on the queue and on the list, with at most `fuel` rounds in each loop. -/
def MsqueueRun.step (fuel : Nat) (a : MsqueueAct α) (s : MsqueueRun α) :
    Except MsqueueStop (MsqueueRun α) :=
  match a with
  | .initHead a =>
      .ok { s with links := initMsqueueHead s.links (.item a), known := a :: s.known }
  | .put a => do
      let (root, links) ← msqueuePut fuel (.item a) s.root s.links
      return { s with
        root := root, links := links, queue := s.queue ++ [a], known := a :: s.known }
  | .get => do
      let (head, root, links) ← msqueueGet fuel s.root s.links
      return { s with
        root := root
        links := links
        queue := s.queue.tail
        answers := s.answers ++ [head]
        expected := s.expected ++ [s.queue.head?.map .item] }

/-- Only nodes that are not in the queue are initialised or put. -/
def freeNodes (s : MsqueueRun α) : MsqueueAct α → Prop
  | .initHead a | .put a => a ∉ s.queue
  | .get => True

instance (s : MsqueueRun α) (a : MsqueueAct α) : Decidable (freeNodes s a) := by
  cases a <;> unfold freeNodes <;> infer_instance

/-- The nodes of the chain: the divider somewhere among what is queued. -/
def Divided (nodes : List (MsNode α)) (queue : List α) : Prop :=
  ∃ before after, queue = before ++ after ∧
    nodes = before.map .item ++ .divider :: after.map .item

/-- A root leads through a chain of nodes, and `tail` is the last of them. -/
structure MsqueueLinked (h : Links (MsNode α)) (root : MsqueueRoot α)
    (nodes : List (MsNode α)) : Prop where
  chain : Chain h root.head nodes
  tail : ∃ rest last, nodes = rest ++ [last] ∧ root.tail = .node last
  memory : ∀ n, (h n).isSome

/-- What holds between calls. -/
structure MsqueueRun.Holds (s : MsqueueRun α) (nodes : List (MsNode α)) : Prop where
  linked : MsqueueLinked s.links s.root nodes
  divided : Divided nodes s.queue
  /-- The poison marks the nodes that are not in the queue. -/
  poison : ∀ a ∈ s.known, s.links (.item a) = some .poison ↔ a ∉ s.queue
  /-- What is queued was put. -/
  known : ∀ a ∈ s.queue, a ∈ s.known
  answers : s.answers = s.expected

/-! ## The chain -/

omit [DecidableEq α] in
theorem Divided.mem {nodes : List (MsNode α)} {queue : List α} (h : Divided nodes queue) (a : α) :
    .item a ∈ nodes ↔ a ∈ queue := by
  obtain ⟨before, after, rfl, rfl⟩ := h
  simp

theorem Divided.count {nodes : List (MsNode α)} {queue : List α} (h : Divided nodes queue) :
    nodes.count .divider = 1 := by
  obtain ⟨before, after, rfl, rfl⟩ := h
  have hnone : ∀ xs : List α, (xs.map MsNode.item).count .divider = 0 := by
    intro xs
    rw [List.count_eq_zero]
    simp
  rw [List.count_append, List.count_cons_self, hnone, hnone]

omit [DecidableEq α] in
/-- A put goes to the end. -/
theorem Divided.concat {nodes : List (MsNode α)} {queue : List α} (h : Divided nodes queue)
    (a : α) : Divided (nodes ++ [.item a]) (queue ++ [a]) := by
  obtain ⟨before, after, rfl, rfl⟩ := h
  exact ⟨before, after ++ [a], by simp, by simp⟩

omit [DecidableEq α] in
/-- The divider at the front goes to the end. -/
theorem Divided.rotate {nodes : List (MsNode α)} {queue : List α}
    (h : Divided (.divider :: nodes) queue) :
    nodes = queue.map .item ∧ Divided (nodes ++ [.divider]) queue := by
  obtain ⟨before, after, rfl, hnodes⟩ := h
  cases before with
  | nil =>
      obtain ⟨_, rfl⟩ := List.cons.inj hnodes
      exact ⟨by simp, after, [], by simp, by simp⟩
  | cons a before => cases (List.cons.inj hnodes).1

omit [DecidableEq α] in
/-- A queued node at the front is the first of the queue. -/
theorem Divided.pop {nodes : List (MsNode α)} {queue : List α} {a : α}
    (h : Divided (.item a :: nodes) queue) :
    ∃ rest, queue = a :: rest ∧ Divided nodes rest := by
  obtain ⟨before, after, rfl, hnodes⟩ := h
  cases before with
  | nil => cases (List.cons.inj hnodes).1
  | cons b before =>
      obtain ⟨hb, rfl⟩ := List.cons.inj hnodes
      cases hb
      exact ⟨before ++ after, rfl, before, after, rfl, rfl⟩

omit [DecidableEq α] in
/-- Nothing is queued twice. -/
theorem Divided.nodup {nodes : List (MsNode α)} {queue : List α} (h : Divided nodes queue)
    (hnodes : nodes.Nodup) : queue.Nodup := by
  obtain ⟨before, after, rfl, rfl⟩ := h
  refine List.Nodup.of_map MsNode.item (List.Nodup.sublist ?_ hnodes)
  rw [List.map_append]
  exact (List.sublist_cons_self _ _).append_left _

omit [DecidableEq α] in
/-- The link of a node in the chain is never the poison. -/
theorem MsqueueLinked.not_poison {h : Links (MsNode α)} {root : MsqueueRoot α}
    {nodes : List (MsNode α)} (hl : MsqueueLinked h root nodes) {n : MsNode α} (hn : n ∈ nodes) :
    h n ≠ some .poison :=
  Seg.not_poison hl.chain (by simp) n hn

/-! ## One call of `msqueue_put` -/

omit [DecidableEq α] in
theorem loadNext_node {h : Links (MsNode α)} {n : MsNode α} {next : Ptr (MsNode α)}
    (hn : h n = some next) : loadNext h (.node n) = .ok next := by
  simp only [loadNext, load, hn]

/-- A CAS that nothing interferes with. -/
theorem casNext_same {h : Links (MsNode α)} {n : MsNode α} {next : Ptr (MsNode α)}
    (hn : h n = some next) (newval : Ptr (MsNode α)) :
    casNext h (.node n) next newval = .ok (true, Function.update h n (some newval)) := by
  unfold casNext
  rw [loadNext_node hn]
  simp only [bind, Except.bind, if_true]
  rw [store_node (by rw [hn]; rfl)]
  rfl

/-- A node that is not in the chain is put at its end. -/
theorem MsqueueLinked.put {h : Links (MsNode α)} {root : MsqueueRoot α} {nodes : List (MsNode α)}
    (hl : MsqueueLinked h root nodes) {new : MsNode α} (hnew : new ∉ nodes) {fuel : Nat}
    (hfuel : 1 ≤ fuel) :
    ∃ root' h', msqueuePut fuel new root h = .ok (root', h') ∧ root'.head = root.head ∧
      MsqueueLinked h' root' (nodes ++ [new]) ∧
      ∀ n, n ≠ new → n ∉ nodes → h' n = h n := by
  obtain ⟨rest, last, hnodes, htail⟩ := hl.tail
  obtain ⟨fuel, rfl⟩ : ∃ k, fuel = k + 1 := ⟨fuel - 1, by omega⟩
  obtain ⟨next, hnext⟩ := Option.isSome_iff_exists.1 (hl.memory new)
  have hne : last ≠ new := fun heq => hnew (by rw [hnodes, heq]; simp)
  have hrest : last ∉ rest := by
    have := hl.chain.nodup
    rw [hnodes] at this
    exact fun hm => (List.nodup_append.1 this).2.2 last hm last (by simp) rfl
  -- the node's own link is cleared first, then the last node is linked to it
  have hbase : Seg (Function.update h new (some .null)) root.head (rest ++ [last]) .null := by
    rw [← hnodes]
    exact Seg.update hl.chain hnew
  have hend : Function.update h new (some .null) last = some .null := by
    obtain ⟨p, _, _, q, hq, hq'⟩ := seg_append.1 hbase
    rw [hq, seg_nil.1 hq']
  refine ⟨⟨root.head, .node new⟩,
    Function.update (Function.update h new (some .null)) last (some (.node new)), ?_, rfl,
    ⟨?_, ⟨nodes, new, rfl, rfl⟩, ?_⟩, ?_⟩
  · unfold msqueuePut msqueuePutLoop
    rw [loadNext_node hnext]
    simp only [bind, Except.bind]
    rw [casNext_same hnext]
    simp only [if_true, htail]
    rw [loadNext_node hend]
    simp only [ne_eq, not_true_eq_false, if_false, if_true]
    rw [casNext_same hend]
    simp only [if_true, pure, Except.pure, casRoot, htail]
  · refine seg_append.2 ⟨.node new, ?_, rfl, .null, ?_, rfl⟩
    · rw [hnodes]
      exact hbase.redirect hrest
    · rw [Function.update_of_ne hne.symm, Function.update_self]
  · intro n
    by_cases hn : n = last
    · subst hn; rw [Function.update_self]; rfl
    · rw [Function.update_of_ne hn]
      by_cases hn' : n = new
      · subst hn'; rw [Function.update_self]; rfl
      · rw [Function.update_of_ne hn']; exact hl.memory n
  · intro n hn hmem
    rw [Function.update_of_ne (fun heq : n = last => hmem (by rw [hnodes, heq]; simp)),
      Function.update_of_ne hn]

/-! ## One call of `msqueue_get` -/

omit [DecidableEq α] in
/-- The front of a chain and what follows it. -/
theorem MsqueueLinked.front {h : Links (MsNode α)} {root : MsqueueRoot α} {n : MsNode α}
    {nodes : List (MsNode α)} (hl : MsqueueLinked h root (n :: nodes)) :
    root.head = .node n ∧ ∃ next, h n = some next ∧ Chain h next nodes ∧
      (root.tail = .node n ↔ nodes = []) := by
  obtain ⟨hhead, next, hnext, hrest⟩ := hl.chain
  obtain ⟨rest, last, hnodes, htail⟩ := hl.tail
  refine ⟨hhead, next, hnext, hrest, ?_⟩
  rw [htail, Ptr.node.injEq]
  cases rest with
  | nil =>
      obtain ⟨rfl, hnil⟩ := List.cons.inj hnodes
      exact iff_of_true rfl hnil
  | cons m rest =>
      obtain ⟨rfl, rfl⟩ := List.cons.inj hnodes
      have hnodup := hl.chain.nodup
      refine iff_of_false (fun heq => ?_) (by simp)
      exact (List.nodup_cons.1 hnodup).1 (by rw [heq]; simp)

/-- With the divider alone there is nothing to take. -/
theorem msqueueGet_empty {h : Links (MsNode α)} {root : MsqueueRoot α}
    (hl : MsqueueLinked h root [.divider]) {fuel : Nat} (hfuel : 1 ≤ fuel) :
    msqueueGet fuel root h = .ok (none, root, h) := by
  obtain ⟨fuel, rfl⟩ : ∃ k, fuel = k + 1 := ⟨fuel - 1, by omega⟩
  obtain ⟨hhead, next, hnext, hnil, htail⟩ := hl.front
  have htail := htail.2 rfl
  have hnull : next = .null := hnil
  unfold msqueueGet
  dsimp only
  rw [hhead, htail, loadNext_node hnext]
  simp only [bind, Except.bind, ne_eq, not_true_eq_false, if_false, if_true, hnull]
  rfl

/-- A queued node at the front is taken and poisoned. -/
theorem msqueueGet_item {h : Links (MsNode α)} {root : MsqueueRoot α} {a : α}
    {nodes : List (MsNode α)} (hl : MsqueueLinked h root (.item a :: nodes)) (hne : nodes ≠ [])
    {fuel : Nat} (hfuel : 1 ≤ fuel) :
    ∃ first, msqueueGet fuel root h = .ok (some (.item a), ⟨first, root.tail⟩,
        Function.update h (.item a) (some .poison)) ∧
      MsqueueLinked (Function.update h (.item a) (some .poison)) ⟨first, root.tail⟩ nodes := by
  obtain ⟨fuel, rfl⟩ : ∃ k, fuel = k + 1 := ⟨fuel - 1, by omega⟩
  obtain ⟨hhead, next, hnext, hrest, htail⟩ := hl.front
  have hnot : ¬ Ptr.node (MsNode.item a) = root.tail := fun heq => hne (htail.1 heq.symm)
  have hmem : MsNode.item a ∉ nodes := (List.nodup_cons.1 hl.chain.nodup).1
  refine ⟨next, ?_, ?_, ?_, ?_⟩
  · unfold msqueueGet
    dsimp only
    rw [hhead, loadNext_node hnext]
    simp only [bind, Except.bind, ne_eq, not_true_eq_false, if_false, if_neg hnot, casRoot, if_true]
    rw [casNext_same hnext]
    rfl
  · exact Seg.update hrest hmem
  · obtain ⟨rest, last, hnodes, hlast⟩ := hl.tail
    cases rest with
    | nil => exact absurd (List.cons.inj hnodes).2 hne
    | cons m rest => exact ⟨rest, last, (List.cons.inj hnodes).2, hlast⟩
  · intro n
    by_cases hn : n = .item a
    · subst hn; rw [Function.update_self]; rfl
    · rw [Function.update_of_ne hn]; exact hl.memory n

/-- The divider at the front is put at the end, and the round starts again. -/
theorem msqueueGet_divider {h : Links (MsNode α)} {root : MsqueueRoot α}
    {nodes : List (MsNode α)} (hl : MsqueueLinked h root (.divider :: nodes)) (hne : nodes ≠ [])
    {fuel : Nat} (hfuel : 1 ≤ fuel) :
    ∃ root' h', msqueueGet (fuel + 1) root h = msqueueGet fuel root' h' ∧
      MsqueueLinked h' root' (nodes ++ [.divider]) ∧
      ∀ n, n ≠ .divider → n ∉ nodes → h' n = h n := by
  obtain ⟨hhead, next, hnext, hrest, htail⟩ := hl.front
  have hnot : ¬ Ptr.node (MsNode.divider : MsNode α) = root.tail :=
    fun heq => hne (htail.1 heq.symm)
  have hmem : MsNode.divider ∉ nodes := (List.nodup_cons.1 hl.chain.nodup).1
  have hpopped : MsqueueLinked h ⟨next, root.tail⟩ nodes := by
    refine ⟨hrest, ?_, hl.memory⟩
    obtain ⟨rest, last, hnodes, hlast⟩ := hl.tail
    cases rest with
    | nil => exact absurd (List.cons.inj hnodes).2 hne
    | cons m rest => exact ⟨rest, last, (List.cons.inj hnodes).2, hlast⟩
  obtain ⟨root', h', hput, _, hlinked, hframe⟩ := hpopped.put hmem hfuel
  refine ⟨root', h', ?_, hlinked, hframe⟩
  rw [msqueueGet]
  dsimp only
  rw [hhead, loadNext_node hnext]
  simp only [bind, Except.bind, ne_eq, not_true_eq_false, if_false, if_neg hnot, casRoot, if_true]
  rw [hput]

/-- What a call returns and leaves. -/
theorem MsqueueRun.Holds.get {s : MsqueueRun α} {nodes : List (MsNode α)} (h : s.Holds nodes)
    {fuel : Nat} (hfuel : 2 ≤ fuel) :
    ∃ root links nodes', msqueueGet fuel s.root s.links
        = .ok (s.queue.head?.map .item, root, links) ∧
      MsqueueLinked links root nodes' ∧ Divided nodes' s.queue.tail ∧
      (∀ a, s.queue.head? = some a → links (.item a) = some .poison) ∧
      ∀ a, a ∉ s.queue → links (.item a) = s.links (.item a) := by
  -- with the divider at the end, or the queue empty, one round is enough
  have hround : ∀ fuel, 1 ≤ fuel → ∀ root links nodes,
      MsqueueLinked links root (nodes : List (MsNode α)) →
      Divided nodes s.queue → nodes.head? ≠ some .divider →
      ∃ root' links' nodes', msqueueGet fuel root links
          = .ok (s.queue.head?.map .item, root', links') ∧
        MsqueueLinked links' root' nodes' ∧ Divided nodes' s.queue.tail ∧
        (∀ a, s.queue.head? = some a → links' (.item a) = some .poison) ∧
        ∀ a, a ∉ s.queue → links' (.item a) = links (.item a) := by
    intro fuel hfuel root links nodes hl hd hhead
    cases nodes with
    | nil => obtain ⟨_, _, _, hnodes⟩ := hd; simp at hnodes
    | cons n nodes =>
        cases n with
        | divider => exact absurd rfl hhead
        | item a =>
            obtain ⟨rest, hqueue, hrest⟩ := hd.pop
            have hne : nodes ≠ [] := by
              rintro rfl
              obtain ⟨_, _, _, hnodes⟩ := hrest
              simp at hnodes
            obtain ⟨first, hget, hlinked⟩ := msqueueGet_item hl hne hfuel
            refine ⟨_, _, nodes, ?_, hlinked, ?_, ?_, ?_⟩
            · rw [hget, hqueue]; rfl
            · rw [hqueue]; exact hrest
            · intro b hb
              rw [hqueue] at hb
              cases hb
              exact Function.update_self ..
            · intro b hb
              refine Function.update_of_ne (fun heq => hb ?_) _ _
              cases heq
              rw [hqueue]; exact List.mem_cons_self
  cases nodes with
  | nil => obtain ⟨_, _, _, hnodes⟩ := h.divided; simp at hnodes
  | cons n nodes =>
      cases n with
      | item a => exact hround fuel (by omega) _ _ _ h.linked h.divided (by simp)
      | divider =>
          obtain ⟨hnodes, hrotated⟩ := h.divided.rotate
          by_cases hne : nodes = []
          · subst hne
            have hqueue : s.queue = [] := by simpa using hnodes.symm
            refine ⟨_, _, [.divider], ?_, h.linked, ?_, ?_, fun _ _ => rfl⟩
            · rw [hqueue]
              exact msqueueGet_empty h.linked (by omega)
            · rw [hqueue]; exact ⟨[], [], rfl, rfl⟩
            · intro a ha; rw [hqueue] at ha; cases ha
          · obtain ⟨fuel, rfl⟩ : ∃ k, fuel = k + 1 := ⟨fuel - 1, by omega⟩
            obtain ⟨root, links, hget, hlinked, hframe⟩ :=
              msqueueGet_divider h.linked hne (by omega : 1 ≤ fuel)
            obtain ⟨root', links', nodes', hrun, hl', hd', hp', hf'⟩ :=
              hround fuel (by omega) root links _ hlinked hrotated (by
                rw [hnodes]
                cases hq : s.queue with
                | nil => rw [hq] at hnodes; exact absurd hnodes hne
                | cons a rest => simp)
            refine ⟨root', links', nodes', hget.trans hrun, hl', hd', hp', fun a ha => ?_⟩
            rw [hf' a ha]
            refine hframe _ (by simp) (fun hm => ha ?_)
            rw [hnodes] at hm
            simpa using hm

/-! ## Runs -/

theorem holds_init {links : Links (MsNode α)} (hlinks : ∀ n, (links n).isSome) :
    (MsqueueRun.init links).Holds [.divider] where
  linked := by
    simp only [MsqueueRun.init, initMsqueueRoot]
    refine ⟨⟨rfl, .null, Function.update_self .., rfl⟩, ⟨[], .divider, rfl, rfl⟩, ?_⟩
    intro n
    by_cases hn : n = .divider
    · subst hn; rw [Function.update_self]; rfl
    · rw [Function.update_of_ne hn]; exact hlinks n
  divided := ⟨[], [], rfl, rfl⟩
  poison := fun _ ha => by cases ha
  known := fun _ ha => by cases ha
  answers := rfl

/-- Every call it is made for comes to an end, and the queue goes on standing for the list. -/
theorem MsqueueRun.Holds.call {s : MsqueueRun α} {nodes : List (MsNode α)} (h : s.Holds nodes)
    {a : MsqueueAct α} (ha : freeNodes s a) {fuel : Nat} (hfuel : 2 ≤ fuel) :
    ∃ s' nodes', MsqueueRun.step fuel a s = .ok s' ∧ s'.Holds nodes' := by
  cases a with
  | initHead a =>
      have hnot : MsNode.item a ∉ nodes := fun hm => ha ((h.divided.mem a).1 hm)
      refine ⟨_, nodes, rfl, ⟨?_, h.linked.tail, ?_⟩, h.divided, ?_, ?_, h.answers⟩
      · exact Seg.update h.linked.chain hnot
      · intro n
        simp only [initMsqueueHead]
        by_cases hn : n = .item a
        · subst hn; rw [Function.update_self]; rfl
        · rw [Function.update_of_ne hn]; exact h.linked.memory n
      · intro b hb
        simp only [initMsqueueHead]
        by_cases hba : b = a
        · subst hba
          rw [Function.update_self]
          exact iff_of_true rfl ha
        · rw [Function.update_of_ne (by simpa using hba)]
          exact h.poison b (List.mem_of_ne_of_mem hba hb)
      · exact fun b hb => List.mem_cons_of_mem _ (h.known b hb)
  | put a =>
      have hnot : MsNode.item a ∉ nodes := fun hm => ha ((h.divided.mem a).1 hm)
      obtain ⟨root, links, hput, _, hlinked, hframe⟩ := h.linked.put hnot (by omega : 1 ≤ fuel)
      have hstep : MsqueueRun.step fuel (.put a) s = .ok { s with
          root := root, links := links, queue := s.queue ++ [a], known := a :: s.known } := by
        simp only [MsqueueRun.step, hput, bind, Except.bind]
        rfl
      refine ⟨_, _, hstep, hlinked, h.divided.concat a, ?_, ?_, h.answers⟩
      · intro b hb
        by_cases hqueue : b ∈ s.queue ++ [a]
        · refine iff_of_false ?_ (not_not.2 hqueue)
          exact hlinked.not_poison (((h.divided.concat a).mem b).2 hqueue)
        · rw [List.mem_append, not_or] at hqueue
          have hba : b ≠ a := fun heq => hqueue.2 (by simp [heq])
          refine iff_of_true ?_ (by simpa using ⟨hqueue.1, hba⟩)
          have hb' : MsNode.item b ∉ nodes := fun hm => hqueue.1 ((h.divided.mem b).1 hm)
          show links (.item b) = some .poison
          rw [hframe _ (by simpa using hba) hb']
          exact (h.poison b (List.mem_of_ne_of_mem hba hb)).2 hqueue.1
      · intro b hb
        rcases List.mem_append.1 hb with hb | hb
        · exact List.mem_cons_of_mem _ (h.known b hb)
        · rw [List.mem_singleton.1 hb]; exact List.mem_cons_self
  | get =>
      obtain ⟨root, links, nodes', hget, hlinked, hdivided, hpoison, hframe⟩ := h.get hfuel
      have hstep : MsqueueRun.step fuel .get s = .ok { s with
          root := root
          links := links
          queue := s.queue.tail
          answers := s.answers ++ [s.queue.head?.map .item]
          expected := s.expected ++ [s.queue.head?.map .item] } := by
        simp only [MsqueueRun.step, hget, bind, Except.bind]
        rfl
      refine ⟨_, nodes', hstep, hlinked, hdivided, ?_, ?_, by rw [h.answers]⟩
      · intro b hb
        by_cases hqueue : b ∈ s.queue
        · obtain ⟨c, rest, hcons⟩ := List.exists_cons_of_ne_nil (List.ne_nil_of_mem hqueue)
          have hnodup := h.divided.nodup h.linked.chain.nodup
          rw [hcons] at hqueue hpoison hdivided hnodup
          show links (.item b) = some .poison ↔ b ∉ s.queue.tail
          rw [hcons]
          rcases List.mem_cons.1 hqueue with rfl | hrest
          · exact iff_of_true (hpoison b rfl) (List.nodup_cons.1 hnodup).1
          · exact iff_of_false (hlinked.not_poison ((hdivided.mem b).2 hrest)) (not_not.2 hrest)
        · refine iff_of_true ?_ (fun hm => hqueue (List.mem_of_mem_tail hm))
          show links (.item b) = some .poison
          rw [hframe b hqueue]
          exact (h.poison b hb).2 hqueue
      · exact fun b hb => h.known b (List.mem_of_mem_tail hb)

theorem holds_reachable {links : Links (MsNode α)} (hlinks : ∀ n, (links n).isSome)
    {fuel : Nat} (hfuel : 2 ≤ fuel) {s : MsqueueRun α}
    (hr : Runs (MsqueueRun.step fuel) freeNodes (MsqueueRun.init links) s) :
    ∃ nodes, s.Holds nodes := by
  refine Runs.invariant (I := fun s => ∃ nodes, s.Holds nodes) hr ?_ ⟨_, holds_init hlinks⟩
  rintro a t t' ⟨nodes, ht⟩ hok hstep
  obtain ⟨s', nodes', hs', hholds⟩ := ht.call hok hfuel
  obtain rfl : s' = t' := Except.ok.inj (hs'.symm.trans hstep)
  exact ⟨nodes', hholds⟩

/--
**One thread's `msqueue` is a FIFO queue.**

After any calls, the chain holds the divider once and what was put and not taken, in
order, `tail` is its last node, every `msqueue_get` has returned the first of what was
queued, and the nodes not in the queue are the poisoned ones. The next call comes to an
end, two rounds of a loop being enough.
-/
theorem msqueue_fifo (links : Links (MsNode α)) (hlinks : ∀ n, (links n).isSome) (fuel : Nat)
    (hfuel : 2 ≤ fuel) (s : MsqueueRun α)
    (hr : Runs (MsqueueRun.step fuel) freeNodes (MsqueueRun.init links) s) :
    (∃ nodes, Chain s.links s.root.head nodes ∧ Divided nodes s.queue ∧
      nodes.count .divider = 1 ∧ ∃ rest last, nodes = rest ++ [last] ∧ s.root.tail = .node last) ∧
    s.answers = s.expected ∧
    (∀ a ∈ s.known, s.links (.item a) = some .poison ↔ a ∉ s.queue) ∧
    (∃ root links', msqueueGet fuel s.root s.links
      = .ok (s.queue.head?.map .item, root, links')) ∧
    ∀ a, freeNodes s a → ∃ s', MsqueueRun.step fuel a s = .ok s' := by
  obtain ⟨nodes, h⟩ := holds_reachable hlinks hfuel hr
  refine ⟨⟨nodes, h.linked.chain, h.divided, h.divided.count, h.linked.tail⟩, h.answers,
    h.poison, ?_, ?_⟩
  · obtain ⟨root, links', nodes', hget, _⟩ := h.get hfuel
    exact ⟨root, links', hget⟩
  · intro a ha
    obtain ⟨s', nodes', hstep, _⟩ := h.call ha hfuel
    exact ⟨s', hstep⟩

/-- Three puts and gets in between: the divider has travelled. -/
theorem msqueue_fifo_three : ∃ s : MsqueueRun Nat,
    s.answers = [some (.item 1), some (.item 2), some (.item 3), none] ∧
    (∃ nodes, Chain s.links s.root.head nodes ∧ Divided nodes s.queue ∧
      nodes.count .divider = 1 ∧ ∃ rest last, nodes = rest ++ [last] ∧ s.root.tail = .node last) ∧
    s.answers = s.expected ∧
    (∀ a ∈ s.known, s.links (.item a) = some .poison ↔ a ∉ s.queue) ∧
    (∃ root links', msqueueGet 2 s.root s.links
      = .ok (s.queue.head?.map .item, root, links')) ∧
    ∀ a, freeNodes s a → ∃ s', MsqueueRun.step 2 a s = .ok s' := by
  obtain ⟨s, hr, hanswers⟩ := exists_run (show (runActs (MsqueueRun.step 2) freeNodes
    [.initHead 1, .put 1, .put 2, .get, .initHead 3, .put 3, .get, .get, .get, .put 1]
    (MsqueueRun.init (fun _ => some .null) : MsqueueRun Nat)).any
      (fun s => decide (s.answers = [some (.item 1), some (.item 2), some (.item 3), none]))
      = true by decide +kernel)
  exact ⟨s, of_decide_eq_true hanswers,
    msqueue_fifo (fun _ => some .null) (fun _ => rfl) 2 le_rfl s hr⟩

end Msock
