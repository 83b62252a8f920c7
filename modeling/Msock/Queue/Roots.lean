import Msock.Lib.Runs
import Msock.Queue.UpqueueProof

/-!
# Several queues in one memory

Items move between queues, so what a queue holds depends on what was done to the
others. Here is any number of roots over one memory, next to the lists they stand
for: every operation acts on the lists as it should, except that
`queue_splice_prepend` onto an empty queue, and `queue_slow_del` of the last of
several items, leave `last` at NULL with items still queued.
-/

namespace Msock

open Lib

universe u
variable {α ρ : Type u} [DecidableEq α] [DecidableEq ρ]

/-- The queues of a program: its roots, by name, and the memory of the items. -/
structure QueueMem (ρ α : Type u) where
  roots : ρ → QueueRoot α
  links : Links α

/-- One call of an operation. -/
inductive QueueAct (ρ α : Type u)
  | put (x : α) (r : ρ)
  | putHead (x : α) (r : ρ)
  | get (r : ρ)
  | splice (src dst : ρ)
  | splicePrepend (src dst : ρ)
  | slowDel (old : α) (r : ρ)
  deriving DecidableEq

/-- What a call returns. -/
inductive QueueAnswer (α : Type u)
  | nothing
  | wasEmpty (b : Bool)
  | item (x : Option α)
  deriving DecidableEq

/-- A call, on the memory. -/
def QueueMem.step (fuel : Nat) (m : QueueMem ρ α) :
    QueueAct ρ α → Option (QueueAnswer α × QueueMem ρ α)
  | .put x r => do
      let (empty, root, h) ← queuePut x (m.roots r) m.links
      return (.wasEmpty empty, ⟨Function.update m.roots r root, h⟩)
  | .putHead x r => do
      let (empty, root, h) ← queuePutHead x (m.roots r) m.links
      return (.wasEmpty empty, ⟨Function.update m.roots r root, h⟩)
  | .get r => do
      let (x, root, h) ← queueGet (m.roots r) m.links
      return (.item x, ⟨Function.update m.roots r root, h⟩)
  | .splice src dst => do
      let (s, d, h) ← queueSplice (m.roots src) (m.roots dst) m.links
      return (.nothing, ⟨Function.update (Function.update m.roots src s) dst d, h⟩)
  | .splicePrepend src dst => do
      let (s, d, h) ← queueSplicePrepend (m.roots src) (m.roots dst) m.links
      return (.nothing, ⟨Function.update (Function.update m.roots src s) dst d, h⟩)
  | .slowDel old r => do
      let (root, h) ← queueSlowDel fuel old (m.roots r) m.links
      return (.nothing, ⟨Function.update m.roots r root, h⟩)

/-- What a call should do to the lists the roots stand for. -/
def listStep (lists : ρ → List α) : QueueAct ρ α → QueueAnswer α × (ρ → List α)
  | .put x r => (.wasEmpty (lists r).isEmpty, Function.update lists r (lists r ++ [x]))
  | .putHead x r => (.wasEmpty (lists r).isEmpty, Function.update lists r (x :: lists r))
  | .get r => (.item (lists r).head?, Function.update lists r (lists r).tail)
  | .splice src dst =>
      (.nothing, Function.update (Function.update lists src []) dst (lists dst ++ lists src))
  | .splicePrepend src dst =>
      (.nothing, Function.update (Function.update lists src []) dst (lists src ++ lists dst))
  | .slowDel old r => (.nothing, Function.update lists r ((lists r).erase old))

/-- The queues and the lists, and what both have answered so far. -/
structure QueueRun (ρ α : Type u) where
  mem : QueueMem ρ α
  lists : ρ → List α
  answers : List (QueueAnswer α)
  expected : List (QueueAnswer α)

/-- `INIT_QUEUE_ROOT` of every root; the items are somewhere in memory. -/
def QueueRun.init (links : Links α) : QueueRun ρ α :=
  ⟨⟨fun _ => initQueueRoot, links⟩, fun _ => [], [], []⟩

/-- A call, on both. A `queue_slow_del` goes round once for each item of the queue at most. -/
def QueueRun.step (a : QueueAct ρ α) (s : QueueRun ρ α) : Except Unit (QueueRun ρ α) :=
  let fuel := match a with
    | .slowDel _ r => (s.lists r).length
    | _ => 0
  match s.mem.step fuel a with
  | none => .error ()
  | some (answer, mem) =>
      let (expected, lists) := listStep s.lists a
      .ok ⟨mem, lists, s.answers ++ [answer], s.expected ++ [expected]⟩

/-- The calls the operations are made for. -/
def properCall (s : QueueRun ρ α) : QueueAct ρ α → Prop
  | .put x _ | .putHead x _ => ∀ r, x ∉ s.lists r
  | .get _ => True
  | .splice src dst | .splicePrepend src dst => src ≠ dst
  | .slowDel old r => old ∈ s.lists r

/-- The calls that leave `last` right. -/
def keepsLast (s : QueueRun ρ α) : QueueAct ρ α → Prop
  | .splicePrepend src dst => s.lists src = [] ∨ s.lists dst ≠ []
  | .slowDel old r => (s.lists r).getLast? = some old → s.lists r = [old]
  | .put _ _ | .putHead _ _ | .get _ | .splice _ _ => True

/-- A root is well formed and stands for a list. -/
structure RootHolds (h : Links α) (root : QueueRoot α) (xs : List α) : Prop where
  chain : Chain h root.first xs
  distinct : xs.Nodup
  null : root.first = .null ↔ root.last = .null
  last : ∀ x, xs.getLast? = some x → root.last = .node x ∧ h x = some .null

/-- Every root stands for its list, no item is on two lists, and the answers were right. -/
structure QueueRun.Refines (s : QueueRun ρ α) : Prop where
  holds : ∀ r, RootHolds s.mem.links (s.mem.roots r) (s.lists r)
  apart : ∀ r r' x, x ∈ s.lists r → x ∈ s.lists r' → r = r'
  answers : s.answers = s.expected

/-! ## One root -/

omit [DecidableEq α] in
/-- A well-formed root is one that shows the whole queue. -/
theorem rootHolds_iff {h : Links α} {root : QueueRoot α} {xs : List α} :
    RootHolds h root xs ↔ Repr h root (Queue.ofList xs) := by
  constructor
  · intro hr
    refine ⟨hr.chain, ?_⟩
    rcases List.eq_nil_or_concat xs with rfl | ⟨ys, y, rfl⟩
    · exact hr.null.1 hr.chain
    · rw [List.concat_eq_append] at hr ⊢
      rw [Queue.lastPtr_concat (Queue.whole_ofList _ (by simp)) rfl]
      exact (hr.last y (by simp)).1
  · intro hr
    refine ⟨hr.chain, hr.nodup, ?_, ?_⟩
    · rw [hr.first_eq_null, hr.last, Queue.lastPtr_eq_null]
      cases xs <;> simp [Queue.ofList]
    · intro x hx
      obtain ⟨ys, hys⟩ : ∃ ys, xs = ys ++ [x] := List.getLast?_eq_some_iff.1 hx
      subst hys
      refine ⟨?_, ?_⟩
      · rw [hr.last]
        exact Queue.lastPtr_concat (Queue.whole_ofList _ (by simp)) rfl
      · obtain ⟨p, _, _, q, hq, hend⟩ := seg_append.1 hr.chain
        rw [hq, seg_nil.1 hend]

omit [DecidableEq α] in
/-- A root that shows a queue stands for its items exactly if the queue is whole. -/
theorem Repr.whole_iff {h : Links α} {root : QueueRoot α} {q : Queue α} (hr : Repr h root q) :
    Repr h root (Queue.ofList q.items) ↔ q.Whole := by
  constructor
  · intro hlist hne
    by_contra hlast
    obtain ⟨_, x, _, hx⟩ := Queue.exists_last (Queue.whole_ofList q.items hne)
    have hnull := Queue.lastPtr_of_not_lastSet (by simpa using hlast : q.lastSet = false)
    rw [← hr.last, hlist.last, hx] at hnull
    cases hnull
  · intro hw
    rw [← hw.eq_ofList]
    exact hr

/-- `queue_put_head` of an item that is not queued. -/
theorem Repr.putHead {h : Links α} {root : QueueRoot α} {xs : List α} {x : α}
    (hr : Repr h root (Queue.ofList xs)) (hx : (h x).isSome) (hmem : x ∉ xs) :
    ∃ root', queuePutHead x root h
        = some (xs.isEmpty, root', Function.update h x (some root.first)) ∧
      Repr (Function.update h x (some root.first)) root' (Queue.ofList (x :: xs)) := by
  have hchain : Chain (Function.update h x (some root.first)) root.first xs :=
    Seg.update hr.chain hmem
  unfold queuePutHead
  rw [store_node hx]
  simp only [Option.bind_eq_bind, Option.bind_some, Option.pure_def]
  cases xs with
  | nil =>
      have hnull := hr.first_eq_null.2 rfl
      rw [if_pos hnull]
      exact ⟨_, rfl, ⟨rfl, root.first, Function.update_self .., hchain⟩, rfl⟩
  | cons y ys =>
      have hne : ¬ root.first = .null := fun hnull => by
        have := hr.first_eq_null.1 hnull
        cases this
      rw [if_neg hne]
      refine ⟨_, rfl, ⟨⟨rfl, root.first, Function.update_self .., hchain⟩, ?_⟩⟩
      show root.last = _
      rw [hr.last]
      simp [Queue.lastPtr, Queue.ofList]

/-- `queue_splice` of two queues that share nothing. -/
theorem Repr.splice {h : Links α} {src dst : QueueRoot α} {ss ds : List α}
    (hs : Repr h src (Queue.ofList ss)) (hd : Repr h dst (Queue.ofList ds))
    (hdisj : ∀ x ∈ ss, x ∉ ds) :
    ∃ src' dst' h', queueSplice src dst h = some (src', dst', h') ∧
      Repr h' src' (Queue.ofList ([] : List α)) ∧ Repr h' dst' (Queue.ofList (ds ++ ss)) ∧
      (∀ a, a ∉ ds → h' a = h a) ∧ ∀ a, (h' a).isSome = (h a).isSome := by
  unfold queueSplice
  by_cases hse : ss = []
  · subst hse
    rw [if_pos (hs.first_eq_null.2 rfl)]
    exact ⟨_, _, _, rfl, hs, by rw [List.append_nil]; exact hd, fun _ _ => rfl, fun _ => rfl⟩
  · have hslast : (Queue.ofList ss).lastSet = true := Queue.whole_ofList ss hse
    rw [if_neg (fun hnull => hse (hs.first_eq_null.1 hnull))]
    by_cases hde : ds = []
    · subst hde
      rw [if_pos (by rw [hd.last]; rfl)]
      exact ⟨_, _, _, rfl, repr_init h, ⟨hs.chain, hs.last⟩, fun _ _ => rfl, fun _ => rfl⟩
    · -- the last item of `dst` is redirected to the first of `src`
      obtain ⟨ys, y, hy, hlast⟩ := Queue.exists_last (Queue.whole_ofList ds hde)
      rw [Queue.items_ofList] at hy
      have hnodup := hd.nodup
      rw [Queue.items_ofList, hy] at hnodup
      have hyys : y ∉ ys := fun hm => (List.nodup_append.1 hnodup).2.2 y hm y (by simp) rfl
      have hyss : y ∉ ss := fun hm => hdisj y hm (by rw [hy]; simp)
      have hsome : (h y).isSome := Seg.isSome hd.chain y (by rw [Queue.items_ofList, hy]; simp)
      rw [hd.last, hlast, if_neg (by simp), store_node hsome]
      refine ⟨_, _, _, rfl, repr_init _, ⟨?_, ?_⟩, ?_, ?_⟩
      · have hdst : Seg h dst.first (ys ++ [y]) .null := by rw [← hy]; exact hd.chain
        refine seg_append.2 ⟨src.first, ?_, Seg.update hs.chain hyss⟩
        rw [hy]
        exact hdst.redirect hyys
      · obtain ⟨zs, z, hz, hzlast⟩ := Queue.exists_last hslast
        rw [Queue.items_ofList] at hz
        have hcat : (Queue.ofList (ds ++ ss)).items = (ds ++ zs) ++ [z] := by
          rw [Queue.items_ofList, hz, List.append_assoc]
        show src.last = _
        rw [hs.last, hzlast]
        exact (Queue.lastPtr_concat (Queue.whole_ofList _ (by simp [hse])) hcat).symm
      · intro a ha
        exact Function.update_of_ne (fun hay : a = y => ha (by rw [hy, hay]; simp)) _ _
      · intro a
        by_cases hay : a = y
        · subst hay; rw [Function.update_self]; exact hsome.symm
        · rw [Function.update_of_ne hay]

/-! ## All roots -/

/-- What holds between calls: the memory of every root and list agrees. -/
structure QueueRun.Shows (s : QueueRun ρ α) : Prop where
  repr : ∀ r, Repr s.mem.links (s.mem.roots r) (Queue.ofList (s.lists r))
  apart : ∀ r r' x, x ∈ s.lists r → x ∈ s.lists r' → r = r'
  memory : ∀ x, (s.mem.links x).isSome
  answers : s.answers = s.expected

omit [DecidableEq α] [DecidableEq ρ] in
theorem QueueRun.Shows.refines {s : QueueRun ρ α} (h : s.Shows) : s.Refines :=
  ⟨fun r => rootHolds_iff.2 (h.repr r), h.apart, h.answers⟩

omit [DecidableEq α] [DecidableEq ρ] in
/-- A state in which every root shows some queue with the right items. -/
theorem shows_iff {s : QueueRun ρ α} (q : ρ → Queue α)
    (hrepr : ∀ r, Repr s.mem.links (s.mem.roots r) (q r)) (hitems : ∀ r, (q r).items = s.lists r)
    (happart : ∀ r r' x, x ∈ s.lists r → x ∈ s.lists r' → r = r')
    (hmemory : ∀ x, (s.mem.links x).isSome) (hanswers : s.answers = s.expected) :
    (s.Shows ↔ ∀ r, (q r).Whole) ∧ (s.Refines ↔ ∀ r, (q r).Whole) := by
  have hroot : ∀ r, Repr s.mem.links (s.mem.roots r) (Queue.ofList (s.lists r)) ↔ (q r).Whole := by
    intro r
    rw [← hitems r]
    exact (hrepr r).whole_iff
  constructor
  · exact ⟨fun h r => (hroot r).1 (h.repr r),
      fun h => ⟨fun r => (hroot r).2 (h r), happart, hmemory, hanswers⟩⟩
  · exact ⟨fun h r => (hroot r).1 (rootHolds_iff.1 (h.holds r)),
      fun h => ⟨fun r => rootHolds_iff.2 ((hroot r).2 (h r)), happart, hanswers⟩⟩

omit [DecidableEq α] in
/-- A call that works on one root. -/
theorem QueueRun.Shows.update {s : QueueRun ρ α} (h : s.Shows) {r : ρ} {root : QueueRoot α}
    {links : Links α} {q : Queue α} (hrepr : Repr links root q)
    (hframe : ∀ r', r' ≠ r → ∀ x ∈ s.lists r', links x = s.mem.links x)
    (hnew : ∀ r', r' ≠ r → ∀ x ∈ q.items, x ∉ s.lists r') (hmemory : ∀ x, (links x).isSome)
    (answer : QueueAnswer α) {s' : QueueRun ρ α}
    (hs' : s' = ⟨⟨Function.update s.mem.roots r root, links⟩, Function.update s.lists r q.items,
      s.answers ++ [answer], s.expected ++ [answer]⟩) :
    (s'.Shows ↔ q.Whole) ∧ (s'.Refines ↔ q.Whole) := by
  subst hs'
  have hall : (∀ r', (Function.update (fun r' => Queue.ofList (s.lists r')) r q r').Whole)
      ↔ q.Whole := by
    constructor
    · intro hw
      simpa using hw r
    · intro hw r'
      by_cases hr : r' = r
      · subst hr; simpa using hw
      · rw [Function.update_of_ne hr]; exact Queue.whole_ofList _
  rw [← hall]
  refine shows_iff _ ?_ ?_ ?_ hmemory (by rw [h.answers])
  · intro r'
    by_cases hr : r' = r
    · subst hr; simpa using hrepr
    · simp only [Function.update_of_ne hr]
      exact (h.repr r').congr (hframe r' hr)
  · intro r'
    by_cases hr : r' = r
    · subst hr; simp
    · simp [hr]
  · intro r₁ r₂ x h₁ h₂
    by_cases hr₁ : r₁ = r <;> by_cases hr₂ : r₂ = r
    · rw [hr₁, hr₂]
    · subst hr₁
      simp only [Function.update_self, Function.update_of_ne hr₂] at h₁ h₂
      exact absurd h₂ (hnew r₂ hr₂ x h₁)
    · subst hr₂
      simp only [Function.update_self, Function.update_of_ne hr₁] at h₁ h₂
      exact absurd h₁ (hnew r₁ hr₁ x h₂)
    · simp only [Function.update_of_ne hr₁, Function.update_of_ne hr₂] at h₁ h₂
      exact h.apart r₁ r₂ x h₁ h₂

omit [DecidableEq α] in
/-- A call that moves everything from one root to another. -/
theorem QueueRun.Shows.move {s : QueueRun ρ α} (h : s.Shows) {src dst : ρ} (hne : src ≠ dst)
    {rs rd : QueueRoot α} {links : Links α} {q : Queue α}
    (hsrc : Repr links rs (Queue.ofList ([] : List α))) (hdst : Repr links rd q)
    (hitems : ∀ x, x ∈ q.items ↔ x ∈ s.lists src ∨ x ∈ s.lists dst)
    (hframe : ∀ x, x ∉ s.lists src → x ∉ s.lists dst → links x = s.mem.links x)
    (hmemory : ∀ x, (links x).isSome) {s' : QueueRun ρ α}
    (hs' : s' = ⟨⟨Function.update (Function.update s.mem.roots src rs) dst rd, links⟩,
      Function.update (Function.update s.lists src []) dst q.items,
      s.answers ++ [.nothing], s.expected ++ [.nothing]⟩) :
    (s'.Shows ↔ q.Whole) ∧ (s'.Refines ↔ q.Whole) := by
  subst hs'
  have hall : (∀ r, (Function.update (Function.update
      (fun r => Queue.ofList (s.lists r)) src (Queue.ofList [])) dst q r).Whole) ↔ q.Whole := by
    constructor
    · intro hw
      simpa using hw dst
    · intro hw r
      by_cases hd : r = dst
      · subst hd; simpa using hw
      · rw [Function.update_of_ne hd]
        by_cases hs : r = src
        · subst hs; rw [Function.update_self]; exact Queue.whole_ofList _
        · rw [Function.update_of_ne hs]; exact Queue.whole_ofList _
  rw [← hall]
  refine shows_iff _ ?_ ?_ ?_ hmemory (by rw [h.answers])
  · intro r
    by_cases hd : r = dst
    · subst hd; simpa using hdst
    · simp only [Function.update_of_ne hd]
      by_cases hs : r = src
      · subst hs; simpa using hsrc
      · simp only [Function.update_of_ne hs]
        exact (h.repr r).congr (fun x hx => hframe x (fun hx' => hs (h.apart r src x hx hx'))
          (fun hx' => hd (h.apart r dst x hx hx')))
  · intro r
    by_cases hd : r = dst
    · subst hd; simp
    · by_cases hs : r = src
      · subst hs; simp [hd]
      · simp [hd, hs]
  · -- an item of the joined list was on one of the two
    have hjoin : ∀ r x, r ≠ dst → x ∈ Function.update s.lists src [] r → x ∉ q.items := by
      intro r x hd hx hq
      by_cases hs : r = src
      · subst hs; simp at hx
      · rw [Function.update_of_ne hs] at hx
        rcases (hitems x).1 hq with hq | hq
        · exact hs (h.apart r src x hx hq)
        · exact hd (h.apart r dst x hx hq)
    intro r₁ r₂ x h₁ h₂
    by_cases hd₁ : r₁ = dst <;> by_cases hd₂ : r₂ = dst
    · rw [hd₁, hd₂]
    · subst hd₁
      simp only [Function.update_self, Function.update_of_ne hd₂] at h₁ h₂
      exact absurd h₁ (hjoin r₂ x hd₂ h₂)
    · subst hd₂
      simp only [Function.update_self, Function.update_of_ne hd₁] at h₁ h₂
      exact absurd h₂ (hjoin r₁ x hd₁ h₁)
    · simp only [Function.update_of_ne hd₁, Function.update_of_ne hd₂] at h₁ h₂
      by_cases hs₁ : r₁ = src
      · subst hs₁; simp at h₁
      · by_cases hs₂ : r₂ = src
        · subst hs₂; simp at h₂
        · rw [Function.update_of_ne hs₁] at h₁
          rw [Function.update_of_ne hs₂] at h₂
          exact h.apart r₁ r₂ x h₁ h₂

/-! ## The calls -/

/-- What a call has to be shown to do. -/
def CallKeeps (s : QueueRun ρ α) (a : QueueAct ρ α) : Prop :=
  ∃ s', QueueRun.step a s = .ok s' ∧ (s'.Shows ↔ keepsLast s a) ∧ (s'.Refines ↔ keepsLast s a)

section Calls
variable {s : QueueRun ρ α} (h : s.Shows)

include h

theorem QueueRun.Shows.put {x : α} (r : ρ) (hx : ∀ r', x ∉ s.lists r') :
    CallKeeps s (.put x r) := by
  obtain ⟨root, links, hput, hrepr, hframe, hdom⟩ := (h.repr r).put (h.memory x) (hx r)
  have hwhole := (Queue.whole_ofList (s.lists r)).put x
  have hempty : ((Queue.ofList (s.lists r)).put x).1 = (s.lists r).isEmpty := by
    rw [Queue.put_fst]
    simp [Queue.ofList]
  have hstep : QueueRun.step (.put x r) s = .ok
      ⟨⟨Function.update s.mem.roots r root, links⟩,
        Function.update s.lists r ((Queue.ofList (s.lists r)).put x).2.items,
        s.answers ++ [.wasEmpty (s.lists r).isEmpty],
        s.expected ++ [.wasEmpty (s.lists r).isEmpty]⟩ := by
    simp only [QueueRun.step, QueueMem.step, hput, listStep, hempty, hwhole.1,
      Queue.items_ofList, Option.bind_eq_bind, Option.bind_some, Option.pure_def]
  have hkeep := h.update hrepr (r := r) ?_ ?_ ?_ (.wasEmpty (s.lists r).isEmpty) rfl
  · have htrue : keepsLast s (.put x r) ↔ ((Queue.ofList (s.lists r)).put x).2.Whole :=
      ⟨fun _ => Queue.whole_put _ _, fun _ => trivial⟩
    exact ⟨_, hstep, by rw [htrue]; exact hkeep.1, by rw [htrue]; exact hkeep.2⟩
  · intro r' hr a ha
    exact hframe a (fun hax => hx r' (hax ▸ ha)) (fun ha' => hr (h.apart r' r a ha ha'))
  · intro r' hr a ha
    rw [hwhole.1, Queue.items_ofList] at ha
    rcases List.mem_append.1 ha with ha | ha
    · exact fun ha' => hr (h.apart r' r a ha' ha)
    · rw [List.mem_singleton.1 ha]; exact hx r'
  · intro a; rw [hdom a]; exact h.memory a

theorem QueueRun.Shows.putHead {x : α} (r : ρ) (hx : ∀ r', x ∉ s.lists r') :
    CallKeeps s (.putHead x r) := by
  obtain ⟨root, hput, hrepr⟩ := (h.repr r).putHead (h.memory x) (hx r)
  have hkeep := h.update hrepr (r := r) ?_ ?_ ?_ (.wasEmpty (s.lists r).isEmpty) rfl
  · have htrue : keepsLast s (.putHead x r) ↔ (Queue.ofList (x :: s.lists r)).Whole :=
      ⟨fun _ => Queue.whole_ofList _, fun _ => trivial⟩
    refine ⟨_, ?_, by rw [htrue]; exact hkeep.1, by rw [htrue]; exact hkeep.2⟩
    simp only [QueueRun.step, QueueMem.step, hput, listStep, Queue.items_ofList,
      Option.bind_eq_bind, Option.bind_some, Option.pure_def]
  · intro r' hr a ha
    exact Function.update_of_ne (fun hax : a = x => hx r' (hax ▸ ha)) _ _
  · intro r' hr a ha
    rcases List.mem_cons.1 ha with rfl | ha
    · exact hx r'
    · exact fun ha' => hr (h.apart r' r a ha' ha)
  · intro a
    by_cases hax : a = x
    · subst hax; rw [Function.update_self]; rfl
    · rw [Function.update_of_ne hax]; exact h.memory a

theorem QueueRun.Shows.get (r : ρ) : CallKeeps s (.get r) := by
  have hget := (h.repr r).get
  cases hxs : s.lists r with
  | nil =>
      rw [Queue.get_eq_none.2 (by rw [Queue.items_ofList, hxs])] at hget
      have hkeep := h.update (h.repr r) (r := r) (fun _ _ _ _ => rfl) ?_ h.memory (.item none) rfl
      · have htrue : keepsLast s (.get r) ↔ (Queue.ofList (s.lists r)).Whole :=
          ⟨fun _ => Queue.whole_ofList _, fun _ => trivial⟩
        refine ⟨_, ?_, by rw [htrue]; exact hkeep.1, by rw [htrue]; exact hkeep.2⟩
        simp only [QueueRun.step, QueueMem.step, hget, listStep, Queue.items_ofList, hxs,
          List.head?_nil, List.tail_nil, Option.bind_eq_bind, Option.bind_some, Option.pure_def]
      · intro r' _ a ha
        rw [Queue.items_ofList, hxs] at ha
        cases ha
  | cons x xs =>
      rcases hq : (Queue.ofList (s.lists r)).get with _ | ⟨y, q⟩
      · rw [Queue.get_eq_none, Queue.items_ofList, hxs] at hq
        cases hq
      · rw [hq] at hget
        obtain ⟨root, hrun, hrepr⟩ := hget
        obtain ⟨hitems, _⟩ := Queue.get_eq_some hq
        rw [Queue.items_ofList, hxs] at hitems
        obtain ⟨rfl, hqs⟩ := List.cons.inj hitems
        have hmem : ∀ a ∈ q.items, a ∈ s.lists r := fun a ha => by
          rw [hxs, hqs]; exact List.mem_cons_of_mem _ ha
        have hkeep := h.update hrepr (r := r) ?_ ?_ ?_ (.item (some x)) rfl
        · have htrue : keepsLast s (.get r) ↔ q.Whole :=
            ⟨fun _ => (Queue.whole_ofList _).get hq, fun _ => trivial⟩
          refine ⟨_, ?_, by rw [htrue]; exact hkeep.1, by rw [htrue]; exact hkeep.2⟩
          simp only [QueueRun.step, QueueMem.step, hrun, listStep, hxs, List.head?_cons,
            List.tail_cons, hqs, Option.bind_eq_bind, Option.bind_some, Option.pure_def]
        · intro r' hr a ha
          refine Function.update_of_ne (fun hax => hr (h.apart r' r a ha ?_)) _ _
          rw [hax, hxs]
          exact List.mem_cons_self
        · exact fun r' hr a ha ha' => hr (h.apart r' r a ha' (hmem a ha))
        · intro a
          by_cases hax : a = x
          · subst hax; rw [Function.update_self]; rfl
          · rw [Function.update_of_ne hax]; exact h.memory a

theorem QueueRun.Shows.splice {src dst : ρ} (hne : src ≠ dst) : CallKeeps s (.splice src dst) := by
  obtain ⟨rs, rd, links, hrun, hsrc, hdst, hframe, hdom⟩ := (h.repr src).splice (h.repr dst)
    (fun x hx hx' => hne (h.apart src dst x hx hx'))
  have hkeep := h.move hne hsrc hdst
    (fun x => by rw [Queue.items_ofList, List.mem_append, or_comm])
    (fun x _ hx => hframe x hx) (fun x => by rw [hdom x]; exact h.memory x) rfl
  have htrue : keepsLast s (.splice src dst)
      ↔ (Queue.ofList (s.lists dst ++ s.lists src)).Whole :=
    ⟨fun _ => Queue.whole_ofList _, fun _ => trivial⟩
  refine ⟨_, ?_, by rw [htrue]; exact hkeep.1, by rw [htrue]; exact hkeep.2⟩
  simp only [QueueRun.step, QueueMem.step, hrun, listStep, Queue.items_ofList,
    Option.bind_eq_bind, Option.bind_some, Option.pure_def]

theorem QueueRun.Shows.splicePrepend {src dst : ρ} (hne : src ≠ dst) :
    CallKeeps s (.splicePrepend src dst) := by
  obtain ⟨rs, rd, links, qs, qd, hrun, hspec, hsrc, hdst, hframe, hdom⟩ :=
    (h.repr src).splicePrepend (h.repr dst) (Queue.whole_ofList _)
      (fun x hx hx' => hne (h.apart src dst x hx hx'))
  obtain ⟨qs', qd', hspec', hnil, hitems, hlast⟩ :=
    (Queue.whole_ofList (s.lists src)).splicePrepend (Queue.ofList (s.lists dst))
  obtain ⟨rfl, rfl⟩ := Prod.mk.inj (Option.some.inj (hspec.symm.trans hspec'))
  simp only [Queue.items_ofList] at hitems
  have hempty : Repr links rs (Queue.ofList ([] : List α)) := by
    rw [← hnil]
    exact hsrc.whole_iff.2 (fun hne => absurd hnil hne)
  have hkeep := h.move hne hempty hdst
    (fun x => by rw [hitems, List.mem_append]) (fun x hx _ => hframe x hx)
    (fun x => by rw [hdom x]; exact h.memory x) rfl
  -- `last` is still the one `dst` had
  have hwhole : keepsLast s (.splicePrepend src dst) ↔ qd.Whole := by
    unfold keepsLast Queue.Whole
    rw [hitems, hlast]
    simp only [Queue.ofList]
    cases s.lists src <;> cases s.lists dst <;> simp
  refine ⟨_, ?_, by rw [hwhole]; exact hkeep.1, by rw [hwhole]; exact hkeep.2⟩
  simp only [QueueRun.step, QueueMem.step, hrun, listStep, hitems,
    Option.bind_eq_bind, Option.bind_some, Option.pure_def]

theorem QueueRun.Shows.slowDel {old : α} {r : ρ} (hold : old ∈ s.lists r) :
    CallKeeps s (.slowDel old r) := by
  obtain ⟨l₁, l₂, hlist⟩ := List.append_of_mem hold
  have hnodup : (l₁ ++ old :: l₂).Nodup := by
    have := (h.repr r).nodup
    rwa [Queue.items_ofList, hlist] at this
  have hnot : old ∉ l₁ := fun hm => (List.nodup_append.1 hnodup).2.2 old hm old (by simp) rfl
  obtain ⟨root, links, q, hrun, hrepr, hitems, hlast, _, hframe, hdom⟩ :=
    (h.repr r).slowDel hlist (show l₁.length < (s.lists r).length by simp [hlist])
  have herase : (s.lists r).erase old = q.items := by
    rw [hlist, hitems, List.erase_append_right _ hnot, List.erase_cons_head]
  have hsub : ∀ a ∈ q.items, a ∈ s.lists r := fun a ha => by
    rw [← herase] at ha
    exact List.mem_of_mem_erase ha
  have hkeep := h.update hrepr (r := r) ?_ ?_ ?_ .nothing rfl
  · -- `last` is set exactly if something came after the item
    have hset : q.lastSet = true ↔ l₂ ≠ [] := by
      rw [hlast]
      exact and_iff_left (Queue.whole_ofList _ (by simp [hlist]))
    have hwhole : keepsLast s (.slowDel old r) ↔ q.Whole := by
      show ((s.lists r).getLast? = some old → s.lists r = [old]) ↔ (q.items ≠ [] → _)
      rw [hset, hitems, hlist]
      cases l₂ with
      | nil =>
          have hlast' : (l₁ ++ [old]).getLast? = some old := List.getLast?_concat
          cases l₁ with
          | nil => simp
          | cons x xs =>
              refine ⟨fun hone => ?_, fun hne => absurd rfl (hne (by simp))⟩
              have hlen := congrArg List.length (hone hlast')
              simp at hlen
      | cons y ys =>
          have hy : old ∉ y :: ys := (List.nodup_cons.1 (List.nodup_append.1 hnodup).2.1).1
          refine ⟨fun _ _ => by simp, fun _ hlast' => ?_⟩
          have hmem : old ∈ y :: ys := by
            rw [List.getLast?_append, List.getLast?_cons_cons] at hlast'
            rcases hg : (y :: ys).getLast? with _ | z
            · simp at hg
            · rw [hg] at hlast'
              cases hlast'
              exact List.mem_of_getLast? hg
          exact absurd hmem hy
    refine ⟨_, ?_, by rw [hwhole]; exact hkeep.1, by rw [hwhole]; exact hkeep.2⟩
    simp only [QueueRun.step, QueueMem.step, hrun, listStep, herase,
      Option.bind_eq_bind, Option.bind_some, Option.pure_def]
  · exact fun r' hr a ha => hframe a (fun ha' => hr (h.apart r' r a ha ha'))
  · exact fun r' hr a ha ha' => hr (h.apart r' r a ha' (hsub a ha))
  · intro a; rw [hdom a]; exact h.memory a

/-- Every call it is made for runs through, and leaves the lists right exactly if it leaves
`last` right. -/
theorem QueueRun.Shows.call {a : QueueAct ρ α} (ha : properCall s a) : CallKeeps s a := by
  cases a with
  | put x r => exact h.put r ha
  | putHead x r => exact h.putHead r ha
  | get r => exact h.get r
  | splice src dst => exact h.splice ha
  | splicePrepend src dst => exact h.splicePrepend ha
  | slowDel old r => exact h.slowDel ha

end Calls

/-! ## Runs -/

omit [DecidableEq α] [DecidableEq ρ] in
theorem shows_init {links : Links α} (hlinks : ∀ x, (links x).isSome) :
    (QueueRun.init links : QueueRun ρ α).Shows :=
  ⟨fun _ => repr_init links, fun _ _ _ h => (by cases h), hlinks, rfl⟩

/-- A call that is proper and leaves `last` right. -/
def carefulCall (s : QueueRun ρ α) (a : QueueAct ρ α) : Prop := properCall s a ∧ keepsLast s a

theorem shows_reachable {links : Links α} (hlinks : ∀ x, (links x).isSome) {s : QueueRun ρ α}
    (hr : Runs QueueRun.step carefulCall (QueueRun.init links) s) : s.Shows := by
  refine Runs.invariant hr ?_ (shows_init hlinks)
  intro a t t' ht hok hstep
  obtain ⟨s', hs', hshows, _⟩ := ht.call hok.1
  obtain rfl : s' = t' := Except.ok.inj (hs'.symm.trans hstep)
  exact hshows.2 hok.2

/--
**The intrusive queues refine lists.**

As long as nothing is prepended to an empty queue and the last of several items is not
deleted, every root is well formed and stands for its list, and every call answers what
it should. The next proper call keeps that, and comes to an end, exactly if it is
neither of the two.
-/
theorem queues_refine_lists_iff (links : Links α) (hlinks : ∀ x, (links x).isSome)
    (s : QueueRun ρ α) (hr : Runs QueueRun.step carefulCall (QueueRun.init links) s) :
    s.Refines ∧ ∀ a, properCall s a →
      ((∃ s', QueueRun.step a s = .ok s' ∧ s'.Refines) ↔ keepsLast s a) := by
  have h := shows_reachable hlinks hr
  refine ⟨h.refines, fun a ha => ?_⟩
  obtain ⟨s', hstep, _, hrefines⟩ := h.call ha
  constructor
  · rintro ⟨t, ht, hgood⟩
    obtain rfl : s' = t := Except.ok.inj (hstep.symm.trans ht)
    exact hrefines.1 hgood
  · exact fun hkeep => ⟨s', hstep, hrefines.2 hkeep⟩

instance [Fintype ρ] (s : QueueRun ρ α) (a : QueueAct ρ α) : Decidable (properCall s a) := by
  cases a <;> unfold properCall <;> infer_instance

instance (s : QueueRun ρ α) (a : QueueAct ρ α) : Decidable (keepsLast s a) := by
  cases a <;> unfold keepsLast <;> infer_instance

instance [Fintype ρ] (s : QueueRun ρ α) (a : QueueAct ρ α) : Decidable (carefulCall s a) :=
  inferInstanceAs (Decidable (_ ∧ _))

/-- Two queues, filled and joined. -/
theorem queues_refine_lists_iff_two : ∃ s : QueueRun Bool Nat,
    s.lists true = [3, 1, 2] ∧ s.Refines ∧ ∀ a, properCall s a →
      ((∃ s', QueueRun.step a s = .ok s' ∧ s'.Refines) ↔ keepsLast s a) := by
  obtain ⟨s, hr, hlist⟩ := exists_run (show (runActs QueueRun.step carefulCall
    [.put 1 true, .put 4 true, .put 2 true, .putHead 3 false, .splicePrepend false true,
      .slowDel 4 true, .splice true false, .get true, .splice false true]
    (QueueRun.init (fun _ => some .poison) : QueueRun Bool Nat)).any
      (fun s => decide (s.lists true = [3, 1, 2])) = true by decide +kernel)
  exact ⟨s, of_decide_eq_true hlist,
    queues_refine_lists_iff (fun _ => some .poison) (fun _ => rfl) s hr⟩

/-- One item prepended to an empty queue: `first` is set and `last` is NULL. -/
theorem splice_prepend_loses_last : ∃ s : QueueRun Bool Nat,
    Runs QueueRun.step properCall (QueueRun.init (fun _ => some .poison)) s ∧ ¬ s.Refines := by
  obtain ⟨s, hr, hroot⟩ := exists_run (show (runActs QueueRun.step properCall
    [.put 1 false, .splicePrepend false true]
    (QueueRun.init (fun _ => some .poison) : QueueRun Bool Nat)).any
      (fun s => decide (s.mem.roots true = ⟨.node 1, .null⟩)) = true by decide +kernel)
  refine ⟨s, hr, fun h => ?_⟩
  have hnull := (h.holds true).null
  rw [of_decide_eq_true hroot] at hnull
  cases hnull.2 rfl

end Msock
