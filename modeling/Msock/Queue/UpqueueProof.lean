import Msock.Queue.Upqueue

/-!
# The memory-level queue refines `Queue`

`Repr h root q` says that in memory `h` the root shows the queue `q`: the chain
from `first` is `q`'s items, and `last` is the last item or NULL as `q` says. Each
operation of `upqueue.h` takes a represented queue to the one `Queue` computes, and
writes nothing but the heads of the item and of that queue. A queued head is never
poisoned, so `queue_is_enqueued` tells membership as long as no item is queued
twice.
-/

namespace Msock

open Lib

universe u
variable {α : Type u}

/-! ## Facts about `Queue` alone -/

namespace Queue

theorem whole_init : (init : Queue α).Whole := fun h => absurd rfl h

theorem whole_ofList (xs : List α) : (ofList xs).Whole := by
  intro h
  cases xs with
  | nil => exact absurd rfl h
  | cons x xs => rfl

/-- A whole queue is its items. -/
theorem Whole.eq_ofList {q : Queue α} (h : q.Whole) : q = ofList q.items := by
  obtain ⟨items, lastSet, wf⟩ := q
  cases items with
  | nil => simp only [ofList, Queue.mk.injEq, true_and]; exact wf rfl
  | cons x xs => simp only [ofList, Queue.mk.injEq, true_and]; exact h (by simp)

@[simp] theorem items_init : (init : Queue α).items = [] := rfl

@[simp] theorem items_ofList (xs : List α) : (ofList xs).items = xs := rfl

/-- `queue_put` on a whole queue, in terms of its items. -/
theorem put_ofList (xs : List α) (x : α) :
    (ofList xs).put x = (xs.isEmpty, ofList (xs ++ [x])) := by
  cases xs <;> rfl

/-- `queue_get` on a whole queue, in terms of its items. -/
theorem get_ofList_cons (x : α) (xs : List α) : (ofList (x :: xs)).get = some (x, ofList xs) := by
  cases xs <;> rfl

/-- `queue_put` on a whole queue appends. -/
theorem Whole.put {q : Queue α} (h : q.Whole) (x : α) :
    (q.put x).2.items = q.items ++ [x] ∧ ((q.put x).1 = true ↔ q.items = []) := by
  unfold Queue.put
  split
  · rename_i hl
    refine ⟨rfl, ?_⟩
    simp only [Bool.false_eq_true, false_iff]
    exact fun he => absurd (q.wf he) (by simp [hl])
  · rename_i hl
    have he : q.items = [] := Classical.not_not.mp (fun hne => hl (h hne))
    simp [he]

theorem whole_put (q : Queue α) (x : α) : (q.put x).2.Whole := by
  unfold Queue.put; split <;> exact fun _ => rfl

/-- What `queue_put` reports is whether `last` was NULL. -/
theorem put_fst (q : Queue α) (x : α) : (q.put x).1 = !q.lastSet := by
  unfold Queue.put; split <;> simp_all

theorem get_eq_none {q : Queue α} : q.get = none ↔ q.items = [] := by
  unfold Queue.get; split <;> simp_all

theorem get_eq_some {q q' : Queue α} {x : α} (h : q.get = some (x, q')) :
    q.items = x :: q'.items ∧ (q'.items ≠ [] → q'.lastSet = q.lastSet) := by
  unfold Queue.get at h
  split at h
  · exact absurd h (by simp)
  · rename_i y ys hq
    simp only [Option.some.injEq, Prod.mk.injEq] at h
    obtain ⟨rfl, rfl⟩ := h
    refine ⟨hq, fun hne => ?_⟩
    cases ys with
    | nil => exact absurd rfl hne
    | cons z zs => rfl

theorem Whole.get {q q' : Queue α} {x : α} (hw : q.Whole) (h : q.get = some (x, q')) :
    q'.Whole := by
  obtain ⟨hitems, hlast⟩ := get_eq_some h
  intro hne
  rw [hlast hne]
  exact hw (by rw [hitems]; simp)

/-- `queue_splice` of whole queues moves everything to the end of `dst`. -/
theorem Whole.splice {src dst : Queue α} (hs : src.Whole) (hd : dst.Whole) :
    (splice src dst).1.items = [] ∧ (splice src dst).2.items = dst.items ++ src.items
      ∧ (splice src dst).1.Whole ∧ (splice src dst).2.Whole := by
  unfold Queue.splice
  split
  · rename_i he
    have he : src.items = [] := List.isEmpty_iff.mp he
    exact ⟨he, by simp [he], hs, hd⟩
  · rename_i he
    have hne : src.items ≠ [] := fun h => he (by simp [h])
    split
    · exact ⟨rfl, rfl, whole_init, fun _ => hs hne⟩
    · rename_i hl
      have hde : dst.items = [] := Classical.not_not.mp (fun h => hl (hd h))
      exact ⟨rfl, by simp [hde], whole_init, hs⟩

/-- `queue_splice_prepend` puts the items in front, and leaves `last` as it was. -/
theorem Whole.splicePrepend {src : Queue α} (hs : src.Whole) (dst : Queue α) :
    ∃ src' dst', splicePrepend src dst = some (src', dst')
      ∧ src'.items = [] ∧ dst'.items = src.items ++ dst.items ∧ dst'.lastSet = dst.lastSet := by
  unfold Queue.splicePrepend
  split
  · rename_i he
    have he : src.items = [] := List.isEmpty_iff.mp he
    exact ⟨src, dst, rfl, he, by simp [he], rfl⟩
  · rename_i he
    have hne : src.items ≠ [] := fun h => he (by simp [h])
    rw [if_pos (hs hne)]
    exact ⟨_, _, rfl, rfl, rfl, rfl⟩

end Queue

/-! ## Representation -/

/-- The pointer a queue's `last` holds. -/
def Queue.lastPtr (q : Queue α) : Ptr α :=
  if q.lastSet then
    match q.items.getLast? with
    | some x => .node x
    | none => .null
  else .null

/-- In memory `h`, `root` shows the queue `q`. -/
structure Repr (h : Links α) (root : QueueRoot α) (q : Queue α) : Prop where
  /-- Following `next` from `first` visits the items and ends at NULL. -/
  chain : Chain h root.first q.items
  /-- `last` is the last item, or NULL where the queue says so. -/
  last : root.last = q.lastPtr

theorem Repr.nodup {h : Links α} {root : QueueRoot α} {q : Queue α} (hr : Repr h root q) :
    q.items.Nodup := hr.chain.nodup

theorem Queue.lastPtr_of_not_lastSet {q : Queue α} (h : q.lastSet = false) : q.lastPtr = .null := by
  simp [lastPtr, h]

theorem Queue.lastPtr_concat {q : Queue α} {xs : List α} {x : α} (h : q.lastSet = true)
    (hx : q.items = xs ++ [x]) : q.lastPtr = .node x := by
  simp [lastPtr, h, hx]

/-- A set `last` names the last of the items. -/
theorem Queue.exists_last {q : Queue α} (h : q.lastSet = true) :
    ∃ xs x, q.items = xs ++ [x] ∧ q.lastPtr = .node x := by
  have hne : q.items ≠ [] := fun he => absurd (q.wf he) (by simp [h])
  refine ⟨q.items.dropLast, q.items.getLast hne, (List.dropLast_append_getLast hne).symm, ?_⟩
  exact lastPtr_concat h (List.dropLast_append_getLast hne).symm

theorem Queue.lastPtr_eq_null {q : Queue α} : q.lastPtr = .null ↔ q.lastSet = false := by
  constructor
  · intro h
    by_contra hl
    obtain ⟨xs, x, _, hx⟩ := exists_last (Bool.not_eq_false _ ▸ hl)
    exact absurd (h.symm.trans hx) (by simp)
  · exact lastPtr_of_not_lastSet

theorem Repr.first_eq_null {h : Links α} {root : QueueRoot α} {q : Queue α} (hr : Repr h root q) :
    root.first = .null ↔ q.items = [] := by
  constructor
  · intro he
    cases hq : q.items with
    | nil => rfl
    | cons x xs =>
        have := hr.chain
        rw [hq] at this
        exact absurd (he.symm.trans this.1) (by simp)
  · intro he
    have := hr.chain
    rwa [he] at this

theorem repr_init (h : Links α) : Repr h initQueueRoot (Queue.init : Queue α) := ⟨rfl, rfl⟩

/-- The link of a queued item is never the poison: `queue_is_enqueued` says so. -/
theorem Seg.not_poison {h : Links α} {p q : Ptr α} {xs : List α} (hs : Seg h p xs q)
    (hq : q ≠ .poison) : ∀ x ∈ xs, h x ≠ some .poison := by
  induction xs generalizing p with
  | nil => simp
  | cons y ys ih =>
      obtain ⟨_, r, hr, hrest⟩ := hs
      intro x hx
      rcases List.mem_cons.mp hx with rfl | hx
      · rw [hr]
        cases ys with
        | nil => rw [seg_nil.mp hrest]; simpa using hq
        | cons z zs => rw [hrest.1]; simp
      · exact ih hrest x hx

theorem Repr.not_poison {h : Links α} {root : QueueRoot α} {q : Queue α} (hr : Repr h root q) :
    ∀ x ∈ q.items, h x ≠ some .poison := Seg.not_poison hr.chain (by simp)

theorem Repr.congr {h h' : Links α} {root : QueueRoot α} {q : Queue α} (hr : Repr h root q)
    (heq : ∀ x ∈ q.items, h' x = h x) : Repr h' root q :=
  ⟨Seg.congr hr.chain heq, hr.last⟩

/-! ## The operations -/

variable [DecidableEq α]

theorem Repr.update {h : Links α} {root : QueueRoot α} {q : Queue α} {a : α} {v : Option (Ptr α)}
    (hr : Repr h root q) (ha : a ∉ q.items) : Repr (Function.update h a v) root q :=
  ⟨Seg.update hr.chain ha, hr.last⟩

/-- What `queue_put` writes, whatever the queue. -/
theorem queuePut_cases {h h' : Links α} {root root' : QueueRoot α} {x : α} {wasEmpty : Bool}
    (hput : queuePut x root h = some (wasEmpty, root', h')) :
    (h x).isSome ∧
      ((root.last = .null ∧ root' = ⟨.node x, .node x⟩ ∧
          h' = Function.update h x (some .null)) ∨
        ∃ a, root.last = .node a ∧ (h a).isSome ∧ root' = ⟨root.first, .node x⟩ ∧
          h' = Function.update (Function.update h x (some .null)) a (some (.node x))) := by
  unfold queuePut at hput
  obtain ⟨h₁, hnew, hput⟩ := Option.bind_eq_some_iff.mp hput
  obtain ⟨_, hx, hsome, rfl⟩ := store_eq_some.mp hnew
  obtain rfl := Ptr.node.inj hx
  refine ⟨hsome, ?_⟩
  split at hput
  · rename_i hlast
    obtain ⟨rfl, rfl⟩ := Prod.mk.inj (Prod.mk.inj (Option.some.inj hput)).2
    exact Or.inl ⟨hlast, rfl, rfl⟩
  · obtain ⟨h₂, hold, hput⟩ := Option.bind_eq_some_iff.mp hput
    obtain ⟨a, ha, hasome, rfl⟩ := store_eq_some.mp hold
    obtain ⟨rfl, rfl⟩ := Prod.mk.inj (Prod.mk.inj (Option.some.inj hput)).2
    refine Or.inr ⟨a, ha, ?_, rfl, rfl⟩
    by_cases hax : a = x
    · rw [hax]
      exact hsome
    · rwa [Function.update_of_ne hax] at hasome

/-- What `queue_get` writes, whatever the queue. -/
theorem queueGet_cases {h h' : Links α} {root root' : QueueRoot α} {item : Option α}
    (hget : queueGet root h = some (item, root', h')) :
    (item = none ∧ root' = root ∧ h' = h) ∨
      ∃ x, item = some x ∧ (h x).isSome ∧ (root'.last = .null ∨ root'.last = root.last) ∧
        h' = Function.update h x (some .poison) := by
  unfold queueGet at hget
  split at hget
  · obtain ⟨rfl, hrest⟩ := Prod.mk.inj (Option.some.inj hget)
    obtain ⟨rfl, rfl⟩ := Prod.mk.inj hrest
    exact Or.inl ⟨rfl, rfl, rfl⟩
  · cases hget
  · rename_i x _
    obtain ⟨next, hnext, hget⟩ := Option.bind_eq_some_iff.mp hget
    obtain ⟨h₁, hstore, hget⟩ := Option.bind_eq_some_iff.mp hget
    obtain ⟨_, hx, hsome, rfl⟩ := store_eq_some.mp hstore
    obtain rfl := Ptr.node.inj hx
    obtain ⟨rfl, hrest⟩ := Prod.mk.inj (Option.some.inj hget)
    obtain ⟨rfl, rfl⟩ := Prod.mk.inj hrest
    refine Or.inr ⟨x, rfl, hsome, ?_, rfl⟩
    dsimp only
    split
    · exact Or.inl rfl
    · exact Or.inr rfl

/-- `queue_put` changes nothing just when the item is the last one already and linked to itself. -/
theorem queuePut_same {h : Links α} {root : QueueRoot α} {x : α} :
    (∃ wasEmpty, queuePut x root h = some (wasEmpty, root, h)) ↔
      root.last = .node x ∧ h x = some (.node x) := by
  constructor
  · rintro ⟨_, hput⟩
    obtain ⟨_, ⟨hlast, hroot, _⟩ | ⟨a, hlast, _, hroot, hh⟩⟩ := queuePut_cases hput
    · rw [hroot] at hlast
      cases hlast
    · have hx : root.last = .node x := by rw [hroot]
      obtain rfl := Ptr.node.inj (hlast.symm.trans hx)
      refine ⟨hx, ?_⟩
      rw [hh]
      exact Function.update_self ..
  · rintro ⟨hlast, hx⟩
    refine ⟨false, ?_⟩
    obtain ⟨first, last⟩ := root
    subst hlast
    simp only [queuePut, store_node (a := x) (h := h) (by rw [hx]; rfl), Option.bind_eq_bind,
      Option.bind_some, reduceCtorEq, if_false]
    rw [store_node (by simp)]
    simp [← hx]

/-- `queue_put` of an item that is in memory and not in the queue. -/
theorem Repr.put {h : Links α} {root : QueueRoot α} {q : Queue α} {x : α}
    (hr : Repr h root q) (hx : (h x).isSome) (hmem : x ∉ q.items) :
    ∃ root' h', queuePut x root h = some ((q.put x).1, root', h') ∧ Repr h' root' (q.put x).2
      ∧ (∀ a, a ≠ x → a ∉ q.items → h' a = h a) ∧ (∀ a, (h' a).isSome = (h a).isSome) := by
  unfold queuePut
  rw [store_node hx]
  dsimp only [bind, Option.bind]
  by_cases hl : q.lastSet = true
  · obtain ⟨xs, y, hy, hlast⟩ := Queue.exists_last hl
    have hyx : y ≠ x := fun he => hmem (by rw [hy, ← he]; simp)
    have hyxs : y ∉ xs := by
      have := hr.nodup
      rw [hy] at this
      exact fun h => (List.nodup_append.mp this).2.2 y h y (by simp) rfl
    have hsome : (Function.update h x (some Ptr.null) y).isSome :=
      isSome_update (Seg.isSome hr.chain y (by rw [hy]; simp))
    have hput : q.put x = (false, ⟨q.items ++ [x], true, by simp⟩) := by
      unfold Queue.put; rw [if_pos hl]
    rw [hr.last, hlast, if_neg (by simp), store_node hsome, hput]
    refine ⟨_, _, rfl, ⟨?_, ?_⟩, ?_, ?_⟩
    · -- the old chain is redirected from NULL to the new item
      show Chain _ root.first (q.items ++ [x])
      have hbase : Seg (Function.update h x (some Ptr.null)) root.first (xs ++ [y]) .null := by
        rw [← hy]; exact Seg.update hr.chain hmem
      refine seg_append.mpr ⟨.node x, by rw [hy]; exact hbase.redirect hyxs, rfl, .null, ?_, rfl⟩
      rw [Function.update_of_ne (Ne.symm hyx), Function.update_self]
    · exact (Queue.lastPtr_concat rfl rfl).symm
    · intro a hax haq
      rw [Function.update_of_ne (fun he : a = y => haq (by rw [hy, he]; simp)),
        Function.update_of_ne hax]
    · intro a
      by_cases hay : a = y
      · subst hay
        rw [Function.update_self]
        simpa [Function.update_of_ne hyx] using hsome.symm
      · rw [Function.update_of_ne hay]
        by_cases hax : a = x
        · subst hax; rw [Function.update_self]; exact hx.symm
        · rw [Function.update_of_ne hax]
  · have hl' : q.lastSet = false := by simpa using hl
    have hput : q.put x = (true, ⟨[x], true, by simp⟩) := by
      unfold Queue.put; rw [if_neg hl]
    rw [hr.last, Queue.lastPtr_of_not_lastSet hl', if_pos rfl, hput]
    refine ⟨_, _, rfl, ⟨?_, ?_⟩, ?_, ?_⟩
    · exact ⟨rfl, .null, Function.update_self .., rfl⟩
    · rfl
    · intro a hax _; exact Function.update_of_ne hax _ _
    · intro a
      by_cases hax : a = x
      · subst hax; rw [Function.update_self]; exact hx.symm
      · rw [Function.update_of_ne hax]

/-- `queue_get` pops the first item and poisons its head. -/
theorem Repr.get {h : Links α} {root : QueueRoot α} {q : Queue α} (hr : Repr h root q) :
    match q.get with
    | none => queueGet root h = some (none, root, h)
    | some (x, q') => ∃ root', queueGet root h
        = some (some x, root', Function.update h x (some .poison))
          ∧ Repr (Function.update h x (some .poison)) root' q' := by
  cases hq : q.items with
  | nil =>
      have hg : q.get = none := Queue.get_eq_none.mpr hq
      rw [hg]
      simp only [queueGet, hr.first_eq_null.mpr hq]
  | cons x xs =>
      have hg : q.get = some (x, ⟨xs, !xs.isEmpty && q.lastSet, fun h => by simp [h]⟩) := by
        unfold Queue.get; split <;> simp_all
      rw [hg]
      have hc := hr.chain
      rw [hq] at hc
      obtain ⟨hp, r, hxr, hrest⟩ := hc
      have hnd := hr.nodup
      rw [hq] at hnd
      have hnx : x ∉ xs := (List.nodup_cons.mp hnd).1
      unfold queueGet
      rw [hp]
      dsimp only
      rw [hxr, store_node (by rw [hxr]; rfl)]
      refine ⟨_, rfl, ⟨Seg.update hrest hnx, ?_⟩⟩
      show (if r = .null then Ptr.null else root.last) = _
      cases xs with
      | nil =>
          rw [seg_nil.mp hrest, if_pos rfl]
          rfl
      | cons y ys =>
          rw [if_neg (by rw [hrest.1]; simp), hr.last]
          unfold Queue.lastPtr
          rw [hq]
          simp

/-- `queue_splice_prepend` of a whole source in front of a queue it shares nothing with. -/
theorem Repr.splicePrepend {h : Links α} {src dst : QueueRoot α} {s d : Queue α}
    (hs : Repr h src s) (hd : Repr h dst d) (hw : s.Whole) (hdisj : ∀ x ∈ s.items, x ∉ d.items) :
    ∃ src' dst' h' s' d', queueSplicePrepend src dst h = some (src', dst', h')
      ∧ s.splicePrepend d = some (s', d') ∧ Repr h' src' s' ∧ Repr h' dst' d'
      ∧ (∀ a, a ∉ s.items → h' a = h a) ∧ (∀ a, (h' a).isSome = (h a).isSome) := by
  unfold queueSplicePrepend Queue.splicePrepend
  by_cases he : s.items = []
  · rw [if_pos (hs.first_eq_null.mpr he), if_pos (by simp [he])]
    exact ⟨_, _, _, _, _, rfl, rfl, hs, hd, fun _ _ => rfl, fun _ => rfl⟩
  · have hl := hw he
    obtain ⟨xs, y, hy, hlast⟩ := Queue.exists_last hl
    have hyxs : y ∉ xs := by
      have := hs.nodup
      rw [hy] at this
      exact fun h => (List.nodup_append.mp this).2.2 y h y (by simp) rfl
    have hyd : y ∉ d.items := hdisj y (by rw [hy]; simp)
    have hsome : (h y).isSome := Seg.isSome hs.chain y (by rw [hy]; simp)
    rw [if_neg (fun h => he (hs.first_eq_null.mp h)), if_neg (by simpa using he), if_pos hl,
      hs.last, hlast, store_node hsome]
    refine ⟨_, _, _, _, _, rfl, rfl, repr_init _, ⟨?_, ?_⟩, ?_, ?_⟩
    · have hsrc : Seg h src.first (xs ++ [y]) .null := by rw [← hy]; exact hs.chain
      refine seg_append.mpr ⟨dst.first, ?_, Seg.update hd.chain hyd⟩
      rw [hy]
      exact hsrc.redirect hyxs
    · show dst.last = _
      rw [hd.last]
      by_cases hdl : d.lastSet = true
      · obtain ⟨zs, z, hz, hzl⟩ := Queue.exists_last hdl
        have hcat : s.items ++ d.items = (s.items ++ zs) ++ [z] := by rw [hz, List.append_assoc]
        rw [hzl]
        refine (Queue.lastPtr_concat ?_ hcat).symm
        exact hdl
      · have hdl' : d.lastSet = false := by simpa using hdl
        rw [Queue.lastPtr_of_not_lastSet hdl', Queue.lastPtr_of_not_lastSet (by exact hdl')]
    · intro a ha
      exact Function.update_of_ne (fun hay : a = y => ha (by rw [hy, hay]; simp)) _ _
    · intro a
      by_cases hay : a = y
      · subst hay; rw [Function.update_self]; exact hsome.symm
      · rw [Function.update_of_ne hay]

/--
The loop of `queue_slow_del`. The induction is on the items in front of `old`: each
turn moves one of them from the root to the prefix queue, and both stay represented.
-/
theorem Repr.slowDelLoop {old : α} {l₂ : List α} :
    ∀ (l₁ : List α) (fuel : Nat) {h : Links α} {root newroot : QueueRoot α} {q n : Queue α},
    Repr h root q → Repr h newroot n → n.Whole → q.items = l₁ ++ old :: l₂ →
    (∀ x ∈ n.items, x ∉ q.items) → l₁.length < fuel →
    ∃ root' newroot' h' q' n', queueSlowDelLoop old fuel root newroot h = some (root', newroot', h')
      ∧ Repr h' root' q' ∧ q'.items = l₂ ∧ (l₂ ≠ [] → q'.lastSet = q.lastSet)
      ∧ Repr h' newroot' n' ∧ n'.Whole ∧ n'.items = n.items ++ l₁
      ∧ h' old = some .poison ∧ (∀ a, a ∉ q.items → a ∉ n.items → h' a = h a)
      ∧ (∀ a, (h' a).isSome = (h a).isSome) := by
  intro l₁
  induction l₁ with
  | nil =>
      intro fuel h root newroot q n hq hn hw hitems hdisj hfuel
      obtain ⟨f, rfl⟩ := Nat.exists_eq_add_of_lt hfuel
      have hget := hq.get
      have hg : q.get = some (old, ⟨l₂, !l₂.isEmpty && q.lastSet, fun h => by simp [h]⟩) := by
        unfold Queue.get; split <;> simp_all
      rw [hg] at hget
      obtain ⟨root', hrun, hrepr⟩ := hget
      have hold : old ∉ n.items := fun hm => hdisj old hm (by rw [hitems]; simp)
      have hsome : (h old).isSome := Seg.isSome hq.chain old (by rw [hitems]; simp)
      simp only [List.length_nil, Nat.zero_add, queueSlowDelLoop, hrun, Option.bind_eq_bind,
        Option.bind_some, if_true, Option.pure_def]
      refine ⟨_, _, _, _, _, rfl, hrepr, rfl, fun hne => ?_, hn.update hold, hw, by simp,
        Function.update_self .., fun a ha _ => ?_, fun a => ?_⟩
      · cases l₂ with
        | nil => exact absurd rfl hne
        | cons y ys => rfl
      · exact Function.update_of_ne (fun he : a = old => ha (by rw [hitems, he]; simp)) _ _
      · by_cases ha : a = old
        · subst ha; rw [Function.update_self]; exact hsome.symm
        · rw [Function.update_of_ne ha]
  | cons x xs ih =>
      intro fuel h root newroot q n hq hn hw hitems hdisj hfuel
      obtain ⟨f, rfl⟩ := Nat.exists_eq_add_of_lt hfuel
      have hnd := hq.nodup
      rw [hitems] at hnd
      have hxrest : x ∉ xs ++ old :: l₂ := (List.nodup_cons.mp (by simpa using hnd)).1
      have hxold : x ≠ old := fun he => hxrest (by rw [he]; simp)
      have hget := hq.get
      have hg : q.get = some (x, ⟨xs ++ old :: l₂, !(xs ++ old :: l₂).isEmpty && q.lastSet,
          fun h => by simp [h]⟩) := by
        unfold Queue.get; split <;> simp_all
      rw [hg] at hget
      obtain ⟨root', hrun, hrepr⟩ := hget
      have hxn : x ∉ n.items := fun hm => hdisj x hm (by rw [hitems]; simp)
      have hxsome : (h x).isSome := Seg.isSome hq.chain x (by rw [hitems]; simp)
      have hupd : (Function.update h x (some Ptr.poison) x).isSome := isSome_update hxsome
      obtain ⟨new', h2, hput, hnew, hframe, hdom⟩ := (hn.update hxn).put hupd hxn
      have hnitems := (hw.put x).1
      -- the rest of the root is untouched by the put, so the loop goes on from there
      have hroot : Repr h2 root' ⟨xs ++ old :: l₂, !(xs ++ old :: l₂).isEmpty && q.lastSet,
          fun h => by simp [h]⟩ :=
        hrepr.congr (fun a ha => hframe a (fun he => hxrest (he ▸ ha))
          (fun hm => hdisj a hm (by rw [hitems]; exact List.mem_cons_of_mem _ ha)))
      obtain ⟨r', nr', h', q', n', hloop, hq', hqi, hql, hn', hw', hni, hold, hfr, hdm⟩ :=
        ih (xs.length + 1 + f) hroot hnew (Queue.whole_put n x) rfl
          (by
            intro a ha
            rcases List.mem_append.mp (hnitems ▸ ha) with ha | ha
            · exact fun hm => hdisj a ha (by rw [hitems]; exact List.mem_cons_of_mem _ hm)
            · rw [List.mem_singleton.mp ha]; exact hxrest)
          (by omega)
      refine ⟨r', nr', h', q', n', ?_, hq', hqi, fun hne => ?_, hn', hw', ?_, hold, ?_, ?_⟩
      · have hf : (x :: xs).length + f + 1 = (xs.length + 1 + f) + 1 := by
          simp only [List.length_cons]
        rw [hf, queueSlowDelLoop]
        simp only [hrun, Option.bind_eq_bind, Option.bind_some, if_neg hxold, hput]
        exact hloop
      · rw [hql hne]
        cases xs <;> simp
      · rw [hni, hnitems, List.append_assoc]; rfl
      · intro a haq han
        rw [hitems] at haq
        have hax : a ≠ x := fun he => haq (by rw [he]; simp)
        rw [hfr a (fun hm => haq (List.mem_cons_of_mem _ hm)) (fun hm => ?_), hframe a hax han,
          Function.update_of_ne hax]
        rcases List.mem_append.mp (hnitems ▸ hm) with hm | hm
        · exact han hm
        · exact hax (List.mem_singleton.mp hm)
      · intro a
        rw [hdm a, hdom a]
        by_cases hax : a = x
        · subst hax; rw [Function.update_self]; exact hxsome.symm
        · rw [Function.update_of_ne hax]

/--
**`queue_slow_del` of a member removes it and keeps the order of the rest.** When the
member was the last item, `last` is left NULL although the prefix is still queued.
-/
theorem Repr.slowDel {h : Links α} {root : QueueRoot α} {q : Queue α} {old : α}
    {l₁ l₂ : List α} {fuel : Nat} (hq : Repr h root q) (hitems : q.items = l₁ ++ old :: l₂)
    (hfuel : l₁.length < fuel) :
    ∃ root' h' q', queueSlowDel fuel old root h = some (root', h') ∧ Repr h' root' q'
      ∧ q'.items = l₁ ++ l₂ ∧ (q'.lastSet = true ↔ l₂ ≠ [] ∧ q.lastSet = true)
      ∧ h' old = some .poison ∧ (∀ a, a ∉ q.items → h' a = h a)
      ∧ (∀ a, (h' a).isSome = (h a).isSome) := by
  obtain ⟨r1, n1, h1, q1, n, hloop, hr1, hi1, hl1, hrn, hwn, hin, hold, hfr, hdm⟩ :=
    hq.slowDelLoop l₁ fuel (repr_init h) Queue.whole_init hitems (by simp) hfuel
  rw [Queue.items_init, List.nil_append] at hin
  have hnd := hq.nodup
  rw [hitems] at hnd
  obtain ⟨_, hnd2, hdis⟩ := List.nodup_append.mp hnd
  have hold1 : old ∉ l₁ := fun hm => hdis old hm old (by simp) rfl
  have hdisj : ∀ x ∈ n.items, x ∉ q1.items := by
    intro x hx hx1
    rw [hin] at hx
    rw [hi1] at hx1
    exact hdis x hx x (List.mem_cons_of_mem _ hx1) rfl
  obtain ⟨s', d', h2, sq, dq, hpre, hspec, _, hd', hfr2, hdm2⟩ := hrn.splicePrepend hr1 hwn hdisj
  obtain ⟨sq', dq', hspec', _, hdi, hdl⟩ := hwn.splicePrepend q1
  rw [hspec] at hspec'
  obtain ⟨_, rfl⟩ := Prod.mk.inj (Option.some.inj hspec')
  refine ⟨d', h2, dq, ?_, hd', by rw [hdi, hin, hi1], ?_, ?_, ?_, ?_⟩
  · simp only [queueSlowDel, hloop, hpre, Option.bind_eq_bind, Option.bind_some, Option.pure_def]
  · rw [hdl]
    by_cases he : l₂ = []
    · rw [he] at hi1
      simp [q1.wf hi1, he]
    · simp [hl1 he, he]
  · rw [hfr2 old (by rw [hin]; exact hold1), hold]
  · intro a ha
    rw [hfr2 a (by rw [hin]; exact fun hm => ha (by rw [hitems]; simp [hm])), hfr a ha (by simp)]
  · intro a; rw [hdm2 a, hdm a]

end Msock
