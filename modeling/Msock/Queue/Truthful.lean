import Msock.Queue.Threads

/-!
# When an empty answer is the truth

While a `msqueue_get` has the divider in hand the chain may hold one element alone, and
another `msqueue_get` that looks at it then finds what an empty queue looks like. Where
that does not happen, and no node comes back under a call that has read its address, what
the chain holds includes what is present, and the answer is the truth.
-/

namespace Msock

open Lib

universe u v
variable {ι : Type v} {α : Type u}

/-- What a thread's place in its call says about the queue. -/
def MsqueueCalls.CallHolds (s : MsqueueCalls ι α) (nodes : List (MsNode α))
    (seen : Set (MsNode α)) (j : ι) : CallAt α → Prop
  | .put new .tail => s.links new = some .null
  | .put new (.helps _ next) => s.links new = some .null ∧ next ≠ .null
  | .put new (.next tail) | .put new (.tests tail _) | .put new (.links tail) =>
      s.links new = some .null ∧ ∃ t ∈ seen, tail = .node t
  | .put new (.swings _) => ∀ a, new = .item a → s.overtaken j = false → .item a ∈ nodes
  | .get (.tests head tail next) =>
      head = tail → next = .null → s.moved j = false → s.apart j = false → s.sawEmpty j = true
  | .get (.helps _ next) => next ≠ .null
  | .returned none => s.sawEmpty j = true
  | _ => True

/-- No node is in two places, and what somebody has in hand or the chain holds is queued. -/
structure Hands (own : ι → Option (MsNode α)) (nodes : List (MsNode α)) (queued : Finset α) :
    Prop where
  owned : ∀ j n, own j = some n → n ∉ nodes
  owner : ∀ j k n, own j = some n → own k = some n → j = k
  divider : .divider ∈ nodes ∨ ∃ j, own j = some .divider
  queued : ∀ a, .item a ∈ nodes ∨ (∃ j, own j = some (.item a)) → a ∈ queued

/-- The chain from `head` to null holds what is present, its tail, and, unless some thread
has it in hand, the divider; `seen` is what has ever been in it. -/
structure MsqueueCalls.Holds (s : MsqueueCalls ι α) (nodes : List (MsNode α))
    (seen : Set (MsNode α)) : Prop where
  chain : Chain s.links s.root.head nodes
  tail : ∃ t ∈ nodes, s.root.tail = .node t
  memory : ∀ n, (s.links n).isSome
  been : ∀ n ∈ nodes, n ∈ seen
  /-- A link is null at the end of the chain, or in a node that is about to be linked. -/
  null : ∀ n ∈ seen, s.links n = some .null → n ∈ nodes ∨ ∃ j, (s.calls j).owns = some n
  hands : Hands (fun j => (s.calls j).owns) nodes s.queued
  outside : ∀ j, (s.calls j).owns = some .divider → s.outside = true
  present : ∀ a ∈ s.present, .item a ∈ nodes
  calls : ∀ j, s.CallHolds nodes seen j (s.calls j)

theorem MsqueueCalls.CallHolds.frame {s s' : MsqueueCalls ι α} {nodes nodes' : List (MsNode α)}
    {seen seen' : Set (MsNode α)} {j : ι} {call : CallAt α} (h : s.CallHolds nodes seen j call)
    (hlinks : ∀ n, call.owns = some n → s.links n = some .null → s'.links n = some .null)
    (hnodes : ∀ a tail, call = .put (.item a) (.swings tail) → s'.overtaken j = false →
      s.overtaken j = false ∧ (.item a ∈ nodes → .item a ∈ nodes'))
    (hseen : ∀ n ∈ seen, n ∈ seen')
    (hmoved : s'.moved j = s.moved j ∧ s'.apart j = s.apart j)
    (hempty : s.sawEmpty j = true → s'.sawEmpty j = true) :
    s'.CallHolds nodes' seen' j call := by
  cases call with
  | idle => trivial
  | returned head =>
      cases head with
      | none => exact hempty h
      | some head => trivial
  | put new pc =>
      cases pc with
      | reads => trivial
      | clears next => trivial
      | tail => exact hlinks new rfl h
      | helps tail next => exact ⟨hlinks new rfl h.1, h.2⟩
      | next tail => exact ⟨hlinks new rfl h.1, h.2.imp fun t ht => ⟨hseen t ht.1, ht.2⟩⟩
      | tests tail next => exact ⟨hlinks new rfl h.1, h.2.imp fun t ht => ⟨hseen t ht.1, ht.2⟩⟩
      | links tail => exact ⟨hlinks new rfl h.1, h.2.imp fun t ht => ⟨hseen t ht.1, ht.2⟩⟩
      | swings tail =>
          rintro a rfl hover
          obtain ⟨hbefore, hmem⟩ := hnodes a tail rfl hover
          exact hmem (h a rfl hbefore)
  | get pc =>
      cases pc with
      | tests head tail next =>
          intro hhead hnext hm ha
          exact hempty (h hhead hnext (hmoved.1 ▸ hm) (hmoved.2 ▸ ha))
      | head => trivial
      | tail head => trivial
      | next head tail => trivial
      | helps tail next => exact h
      | takes head next => trivial
      | poisons head next => trivial

variable [DecidableEq ι] [DecidableEq α]

section Record

variable (s : MsqueueCalls ι α) (i : ι) (before after : CallAt α)

omit [DecidableEq ι] in
@[simp] theorem observe_root : s.observe.root = s.root := rfl
omit [DecidableEq ι] in
@[simp] theorem observe_links : s.observe.links = s.links := rfl
omit [DecidableEq ι] in
@[simp] theorem observe_calls : s.observe.calls = s.calls := rfl
omit [DecidableEq ι] in
@[simp] theorem observe_queued : s.observe.queued = s.queued := rfl
omit [DecidableEq ι] in
@[simp] theorem observe_present : s.observe.present = s.present := rfl
omit [DecidableEq ι] in
@[simp] theorem observe_overtaken : s.observe.overtaken = s.overtaken := rfl
omit [DecidableEq ι] in
@[simp] theorem observe_moved : s.observe.moved = s.moved := rfl
omit [DecidableEq ι] in
@[simp] theorem observe_apart : s.observe.apart = s.apart := rfl

omit [DecidableEq ι] in
/-- What has been seen stays seen. -/
theorem observe_sawEmpty {j : ι} (h : s.sawEmpty j = true) : s.observe.sawEmpty j = true := by
  simp [MsqueueCalls.observe, h]

@[simp] theorem record_root : (s.record i before after).root = s.root := by
  unfold MsqueueCalls.record
  split <;> [rfl; (split <;> rfl); rfl; rfl; rfl; rfl; rfl]

@[simp] theorem record_links : (s.record i before after).links = s.links := by
  unfold MsqueueCalls.record
  split <;> [rfl; (split <;> rfl); rfl; rfl; rfl; rfl; rfl]

@[simp] theorem record_calls : (s.record i before after).calls = s.calls := by
  unfold MsqueueCalls.record
  split <;> [rfl; (split <;> rfl); rfl; rfl; rfl; rfl; rfl]

@[simp] theorem record_sawEmpty : (s.record i before after).sawEmpty = s.sawEmpty := by
  unfold MsqueueCalls.record
  split <;> [rfl; (split <;> rfl); rfl; rfl; rfl; rfl; rfl]

end Record

/-! ## From hand to hand -/

section Hands

variable {own : ι → Option (MsNode α)} {nodes : List (MsNode α)} {queued : Finset α} {i : ι}

omit [DecidableEq α] in
/-- Who has what, once one thread has something else. -/
theorem update_owns {x : Option (MsNode α)} {j : ι} {n : MsNode α} :
    Function.update own i x j = some n ↔ (j = i ∧ x = some n) ∨ (j ≠ i ∧ own j = some n) := by
  by_cases hj : j = i
  · subst hj; simp
  · simp [hj]

omit [DecidableEq α] in
/-- What somebody else has, it keeps. -/
theorem exists_update_owns (own : ι → Option (MsNode α)) {i : ι} {x : Option (MsNode α)} {n : MsNode α}
    (hi : own i ≠ some n) :
    (∃ j, own j = some n) → ∃ j, Function.update own i x j = some n := by
  rintro ⟨j, hj⟩
  exact ⟨j, update_owns.2 (Or.inr ⟨fun heq => hi (heq ▸ hj), hj⟩)⟩

/-- A caller's node comes into its hands. -/
theorem Hands.begin (h : Hands own nodes queued) (hi : own i = none) {a : α} (ha : a ∉ queued) :
    Hands (Function.update own i (some (.item a))) nodes (insert a queued) := by
  have hnobody : ∀ j, own j ≠ some (.item a) := fun j hj => ha (h.queued a (Or.inr ⟨j, hj⟩))
  refine ⟨?_, ?_, ?_, ?_⟩
  · intro j n hj
    rcases update_owns.1 hj with ⟨rfl, hn⟩ | ⟨_, hj⟩
    · cases hn
      exact fun hm => ha (h.queued a (Or.inl hm))
    · exact h.owned j n hj
  · intro j k n hj hk
    rcases update_owns.1 hj with ⟨rfl, hn⟩ | ⟨_, hj'⟩ <;>
      rcases update_owns.1 hk with ⟨rfl, hn'⟩ | ⟨_, hk'⟩
    · rfl
    · cases hn; exact absurd hk' (hnobody k)
    · cases hn'; exact absurd hj' (hnobody j)
    · exact h.owner j k n hj' hk'
  · exact h.divider.imp_right (exists_update_owns _ (by rw [hi]; simp))
  · rintro b (hb | ⟨j, hj⟩)
    · exact Finset.mem_insert_of_mem (h.queued b (Or.inl hb))
    · rcases update_owns.1 hj with ⟨_, hb⟩ | ⟨_, hj⟩
      · cases hb
        exact Finset.mem_insert_self ..
      · exact Finset.mem_insert_of_mem (h.queued b (Or.inr ⟨j, hj⟩))

omit [DecidableEq α] in
/-- What a thread has in hand goes to the end of the chain. -/
theorem Hands.link (h : Hands own nodes queued) {n : MsNode α} (hi : own i = some n) :
    Hands (Function.update own i none) (nodes ++ [n]) queued := by
  refine ⟨?_, ?_, ?_, ?_⟩
  · intro j m hj
    rcases update_owns.1 hj with ⟨_, hm⟩ | ⟨hne, hj⟩
    · cases hm
    · rw [List.mem_append, List.mem_singleton, not_or]
      refine ⟨h.owned j m hj, fun heq => hne ?_⟩
      exact h.owner j i m hj (heq ▸ hi)
  · intro j k m hj hk
    rcases update_owns.1 hj with ⟨_, hm⟩ | ⟨_, hj⟩
    · cases hm
    · rcases update_owns.1 hk with ⟨_, hm⟩ | ⟨_, hk⟩
      · cases hm
      · exact h.owner j k m hj hk
  · by_cases hn : n = .divider
    · exact Or.inl (by simp [hn])
    · exact h.divider.imp (List.mem_append_left _)
        (exists_update_owns _ (by rw [hi]; simpa using hn))
  · rintro b (hb | ⟨j, hj⟩)
    · rcases List.mem_append.1 hb with hb | hb
      · exact h.queued b (Or.inl hb)
      · exact h.queued b (Or.inr ⟨i, by rw [hi, List.mem_singleton.1 hb]⟩)
    · rcases update_owns.1 hj with ⟨_, hb⟩ | ⟨_, hj⟩
      · cases hb
      · exact h.queued b (Or.inr ⟨j, hj⟩)

omit [DecidableEq α] in
/-- The front of the chain comes into a thread's hands. -/
theorem Hands.take {n : MsNode α} (h : Hands own (n :: nodes) queued) (hnodup : n ∉ nodes)
    (hi : own i = none) : Hands (Function.update own i (some n)) nodes queued := by
  have hnobody : ∀ j, own j ≠ some n := fun j hj => h.owned j n hj List.mem_cons_self
  refine ⟨?_, ?_, ?_, ?_⟩
  · intro j m hj
    rcases update_owns.1 hj with ⟨_, hm⟩ | ⟨_, hj⟩
    · cases hm; exact hnodup
    · exact fun hm => h.owned j m hj (List.mem_cons_of_mem _ hm)
  · intro j k m hj hk
    rcases update_owns.1 hj with ⟨rfl, hm⟩ | ⟨_, hj'⟩ <;>
      rcases update_owns.1 hk with ⟨rfl, hm'⟩ | ⟨_, hk'⟩
    · rfl
    · cases hm; exact absurd hk' (hnobody k)
    · cases hm'; exact absurd hj' (hnobody j)
    · exact h.owner j k m hj' hk'
  · rcases h.divider with hd | hd
    · rcases List.mem_cons.1 hd with rfl | hd
      · exact Or.inr ⟨i, Function.update_self ..⟩
      · exact Or.inl hd
    · exact Or.inr (exists_update_owns _ (by rw [hi]; simp) hd)
  · rintro b (hb | ⟨j, hj⟩)
    · exact h.queued b (Or.inl (List.mem_cons_of_mem _ hb))
    · rcases update_owns.1 hj with ⟨_, hb⟩ | ⟨_, hj⟩
      · cases hb; exact h.queued b (Or.inl List.mem_cons_self)
      · exact h.queued b (Or.inr ⟨j, hj⟩)

/-- A thread gives what it took to its caller. -/
theorem Hands.drop (h : Hands own nodes queued) {a : α} (hi : own i = some (.item a)) :
    Hands (Function.update own i none) nodes (queued.erase a) := by
  refine ⟨?_, ?_, ?_, ?_⟩
  · intro j n hj
    rcases update_owns.1 hj with ⟨_, hn⟩ | ⟨_, hj⟩
    · cases hn
    · exact h.owned j n hj
  · intro j k n hj hk
    rcases update_owns.1 hj with ⟨_, hn⟩ | ⟨_, hj⟩
    · cases hn
    · rcases update_owns.1 hk with ⟨_, hn⟩ | ⟨_, hk⟩
      · cases hn
      · exact h.owner j k n hj hk
  · exact h.divider.imp_right (exists_update_owns _ (by rw [hi]; simp))
  · rintro b hb
    have hqueued : b ∈ queued := by
      refine h.queued b (hb.imp_right ?_)
      rintro ⟨j, hj⟩
      rcases update_owns.1 hj with ⟨_, hn⟩ | ⟨_, hj⟩
      · cases hn
      · exact ⟨j, hj⟩
    refine Finset.mem_erase.2 ⟨?_, hqueued⟩
    rintro rfl
    rcases hb with hb | ⟨j, hj⟩
    · exact h.owned i _ hi hb
    · rcases update_owns.1 hj with ⟨_, hn⟩ | ⟨hne, hj⟩
      · cases hn
      · exact hne (h.owner j i _ hj hi)

omit [DecidableEq α] in
/-- What the threads have in hand after one of them has moved on. -/
theorem owns_update (calls : ι → CallAt α) (call : CallAt α) :
    (fun j => (Function.update calls i call j).owns)
      = Function.update (fun j => (calls j).owns) i call.owns := by
  funext j
  by_cases hj : j = i
  · subst hj; simp only [Function.update_self]
  · simp only [Function.update_of_ne hj]

omit [DecidableEq α] in
/-- The divider stays in hand, or comes there, or is linked. -/
theorem outside_update {outside outside' : Bool} {x : Option (MsNode α)}
    (h : ∀ j, own j = some .divider → outside = true) (hx : x = some .divider → outside' = true)
    (hother : ∀ j, j ≠ i → own j = some .divider → outside = true → outside' = true) (j : ι)
    (hj : Function.update own i x j = some .divider) : outside' = true := by
  rcases update_owns.1 hj with ⟨_, heq⟩ | ⟨hne, hj⟩
  · exact hx heq
  · exact hother j hne hj (h j hj)

end Hands

/-! ## What a step does to the invariant -/

section Steps

variable {s s' : MsqueueCalls ι α} {nodes nodes' : List (MsNode α)} {seen seen' : Set (MsNode α)}
  {i : ι} {call : CallAt α}

omit [DecidableEq α] in
/-- The thread's own place is seen to apart; the other places are as they were. -/
theorem callHolds_update (h : ∀ j, s.CallHolds nodes seen j (s.calls j))
    (hcalls : s'.calls = Function.update s.calls i call)
    (hlinks : ∀ j n, j ≠ i → (s.calls j).owns = some n → s.links n = some .null →
      s'.links n = some .null)
    (hnodes : ∀ j a tail, j ≠ i → s.calls j = .put (.item a) (.swings tail) →
      s'.overtaken j = false →
      s.overtaken j = false ∧ (.item a ∈ nodes → .item a ∈ nodes'))
    (hseen : ∀ n ∈ seen, n ∈ seen')
    (hmoved : ∀ j, j ≠ i → s'.moved j = s.moved j ∧ s'.apart j = s.apart j)
    (hempty : ∀ j, j ≠ i → s.sawEmpty j = true → s'.sawEmpty j = true)
    (hcall : s'.CallHolds nodes' seen' i call) (j : ι) :
    s'.CallHolds nodes' seen' j (s'.calls j) := by
  rw [hcalls]
  by_cases hj : j = i
  · subst hj; rw [Function.update_self]; exact hcall
  · rw [Function.update_of_ne hj]
    exact (h j).frame (fun n => hlinks j n hj) (fun a tail => hnodes j a tail hj) hseen
      (hmoved j hj) (hempty j hj)

omit [DecidableEq α] in
/-- A step that moves only the tail, along the chain, and its own thread on. -/
theorem MsqueueCalls.Holds.local (h : s.Holds nodes seen)
    (hhead : s'.root.head = s.root.head) (htail : ∃ t ∈ nodes, s'.root.tail = .node t)
    (hlinks : s'.links = s.links) (hcalls : s'.calls = Function.update s.calls i call)
    (howns : call.owns = (s.calls i).owns) (hqueued : s'.queued = s.queued)
    (houtside : s'.outside = s.outside) (hpresent : ∀ a ∈ s'.present, .item a ∈ nodes)
    (hothers : ∀ j, j ≠ i → s'.overtaken j = s.overtaken j ∧
      (s'.moved j = s.moved j ∧ s'.apart j = s.apart j) ∧
      (s.sawEmpty j = true → s'.sawEmpty j = true))
    (hcall : s'.CallHolds nodes seen i call) : s'.Holds nodes seen := by
  have hown : (fun j => (s'.calls j).owns) = fun j => (s.calls j).owns := by
    rw [hcalls, owns_update, howns]
    exact Function.update_eq_self i _
  refine ⟨?_, htail, ?_, h.been, ?_, ?_, ?_, hpresent, ?_⟩
  · rw [hlinks, hhead]; exact h.chain
  · rw [hlinks]; exact h.memory
  · simpa only [hlinks, congrFun hown] using h.null
  · rw [hown, hqueued]; exact h.hands
  · rw [houtside]
    exact fun j hj => h.outside j ((congrFun hown j).symm.trans hj)
  · refine callHolds_update h.calls hcalls (fun j n _ _ hn => by rw [hlinks]; exact hn)
      (fun j a tail hj _ ho => ⟨(hothers j hj).1 ▸ ho, id⟩) (fun _ hn => hn)
      (fun j hj => (hothers j hj).2.1) (fun j hj => (hothers j hj).2.2) hcall

/-- A thread is handed a node by its caller. -/
theorem MsqueueCalls.Holds.begin (h : s.Holds nodes seen) {a : α} (hfree : (s.calls i).free = true)
    (ha : a ∉ s.queued) :
    MsqueueCalls.Holds { s with
      calls := Function.update s.calls i (.put (.item a) .reads)
      queued := insert a s.queued } nodes seen := by
  have hnone : (s.calls i).owns = none := by
    cases hcall : s.calls i <;> rw [hcall] at hfree <;> first | rfl | cases hfree
  refine ⟨h.chain, h.tail, h.memory, h.been, ?_, ?_, ?_, h.present, ?_⟩
  · intro n hn hnull
    refine (h.null n hn hnull).imp_right fun hj => ?_
    obtain ⟨j, hj⟩ := exists_update_owns (fun j => (s.calls j).owns) (i := i)
      (x := some (.item a)) (by rw [hnone]; simp) hj
    exact ⟨j, (congrFun (owns_update s.calls _) j).trans hj⟩
  · rw [owns_update]
    exact h.hands.begin hnone ha
  · exact fun j hj => outside_update h.outside (fun heq => by cases heq) (fun _ _ _ => id) j
      ((congrFun (owns_update s.calls _) j).symm.trans hj)
  · exact callHolds_update h.calls rfl (fun _ _ _ _ hn => hn) (fun _ _ _ _ _ ho => ⟨ho, id⟩)
      (fun _ hn => hn) (fun _ _ => ⟨rfl, rfl⟩) (fun _ _ => id) trivial

omit [DecidableEq ι] [DecidableEq α] in
/-- A node in hand is in nobody else's. -/
theorem MsqueueCalls.Holds.ne_of_owns (h : s.Holds nodes seen) {n m : MsNode α} {j : ι}
    (hi : (s.calls i).owns = some n) (hj : (s.calls j).owns = some m) (hne : j ≠ i) : m ≠ n :=
  fun heq => hne (h.hands.owner j i m hj (heq ▸ hi))

/-- A thread clears the link of the node it is about to put. -/
theorem MsqueueCalls.Holds.clear (h : s.Holds nodes seen) {n : MsNode α}
    (hi : (s.calls i).owns = some n) (howns : call.owns = some n) (hroot : s'.root = s.root)
    (hlinks : s'.links = Function.update s.links n (some .null))
    (hcalls : s'.calls = Function.update s.calls i call) (hqueued : s'.queued = s.queued)
    (houtside : s'.outside = s.outside) (hpresent : s'.present = s.present)
    (hothers : ∀ j, s'.overtaken j = s.overtaken j ∧
      (s'.moved j = s.moved j ∧ s'.apart j = s.apart j) ∧
      (s.sawEmpty j = true → s'.sawEmpty j = true))
    (hcall : s'.CallHolds nodes seen i call) : s'.Holds nodes seen := by
  have hown : (fun j => (s'.calls j).owns) = fun j => (s.calls j).owns := by
    rw [hcalls, owns_update, howns, ← hi]
    exact Function.update_eq_self i _
  refine ⟨?_, hroot ▸ h.tail, ?_, h.been, ?_, ?_, ?_, hpresent ▸ h.present, ?_⟩
  · rw [hroot, hlinks]
    exact Seg.update h.chain (h.hands.owned i n hi)
  · intro m
    rw [hlinks]
    by_cases hm : m = n
    · subst hm; rw [Function.update_self]; rfl
    · rw [Function.update_of_ne hm]; exact h.memory m
  · intro m hm hnull
    rw [hlinks] at hnull
    by_cases hmn : m = n
    · subst hmn; exact Or.inr ⟨i, (congrFun hown i).trans hi⟩
    · rw [Function.update_of_ne hmn] at hnull
      exact (h.null m hm hnull).imp_right fun ⟨j, hj⟩ => ⟨j, (congrFun hown j).trans hj⟩
  · rw [hown, hqueued]; exact h.hands
  · rw [houtside]
    exact fun j hj => h.outside j ((congrFun hown j).symm.trans hj)
  · refine callHolds_update h.calls hcalls (fun j m hj hm hnull => ?_)
      (fun j a tail _ _ ho => ⟨(hothers j).1 ▸ ho, id⟩) (fun _ hm => hm)
      (fun j _ => (hothers j).2.1) (fun j _ => (hothers j).2.2) hcall
    rw [hlinks, Function.update_of_ne (h.ne_of_owns hi hm hj)]
    exact hnull

/-- A thread poisons the node it has taken and returns it. -/
theorem MsqueueCalls.Holds.poison (h : s.Holds nodes seen) {a : α}
    (hi : (s.calls i).owns = some (.item a)) (howns : call.owns = none) (hroot : s'.root = s.root)
    (hlinks : s'.links = Function.update s.links (.item a) (some .poison))
    (hcalls : s'.calls = Function.update s.calls i call) (hqueued : s'.queued = s.queued.erase a)
    (houtside : s'.outside = s.outside) (hpresent : s'.present = s.present)
    (hothers : ∀ j, s'.overtaken j = s.overtaken j ∧
      (s'.moved j = s.moved j ∧ s'.apart j = s.apart j) ∧
      (s.sawEmpty j = true → s'.sawEmpty j = true))
    (hcall : s'.CallHolds nodes seen i call) : s'.Holds nodes seen := by
  have hown : (fun j => (s'.calls j).owns)
      = Function.update (fun j => (s.calls j).owns) i none := by
    rw [hcalls, owns_update, howns]
  refine ⟨?_, hroot ▸ h.tail, ?_, h.been, ?_, ?_, ?_, hpresent ▸ h.present, ?_⟩
  · rw [hroot, hlinks]
    exact Seg.update h.chain (h.hands.owned i _ hi)
  · intro m
    rw [hlinks]
    by_cases hm : m = .item a
    · subst hm; rw [Function.update_self]; rfl
    · rw [Function.update_of_ne hm]; exact h.memory m
  · intro m hm hnull
    rw [hlinks] at hnull
    by_cases hma : m = .item a
    · subst hma; rw [Function.update_self] at hnull; cases hnull
    · rw [Function.update_of_ne hma] at hnull
      refine (h.null m hm hnull).imp_right fun hj => ?_
      obtain ⟨j, hj⟩ := exists_update_owns (fun j => (s.calls j).owns) (i := i) (x := none)
        (fun heq => hma (Option.some.inj (heq.symm.trans hi))) hj
      exact ⟨j, (congrFun hown j).trans hj⟩
  · rw [hown, hqueued]; exact h.hands.drop hi
  · rw [houtside]
    exact fun j hj => outside_update h.outside (fun heq => by cases heq) (fun _ _ _ => id) j
      ((congrFun hown j).symm.trans hj)
  · refine callHolds_update h.calls hcalls (fun j m hj hm hnull => ?_)
      (fun j b tail _ _ ho => ⟨(hothers j).1 ▸ ho, id⟩) (fun _ hm => hm)
      (fun j _ => (hothers j).2.1) (fun j _ => (hothers j).2.2) hcall
    rw [hlinks, Function.update_of_ne (h.ne_of_owns hi hm hj)]
    exact hnull

/-- A thread links its node to one that has no successor and is in nobody's hands: that is
the last of the chain. -/
theorem MsqueueCalls.Holds.link (h : s.Holds nodes seen) {n t : MsNode α}
    (hi : (s.calls i).owns = some n) (hn : s.links n = some .null) (ht : t ∈ seen)
    (hlast : s.links t = some .null) (hnobody : ∀ j, (s.calls j).owns ≠ some t)
    (howns : call.owns = none) (hroot : s'.root = s.root)
    (hlinks : s'.links = Function.update s.links t (some (.node n)))
    (hcalls : s'.calls = Function.update s.calls i call) (hqueued : s'.queued = s.queued)
    (houtside : n ≠ .divider → s.outside = true → s'.outside = true)
    (hpresent : s'.present = s.present)
    (hothers : ∀ j, (j ≠ i → s'.overtaken j = s.overtaken j) ∧
      (s'.moved j = s.moved j ∧ s'.apart j = s.apart j) ∧
      (s.sawEmpty j = true → s'.sawEmpty j = true))
    (hcall : s'.CallHolds (nodes ++ [n]) (insert n seen) i call) :
    s'.Holds (nodes ++ [n]) (insert n seen) := by
  have hown : (fun j => (s'.calls j).owns)
      = Function.update (fun j => (s.calls j).owns) i none := by
    rw [hcalls, owns_update, howns]
  have hnodes : n ∉ nodes := h.hands.owned i n hi
  have hmem : t ∈ nodes := (h.null t ht hlast).resolve_right fun ⟨j, hj⟩ => hnobody j hj
  have hnt : n ≠ t := fun heq => hnobody i (heq ▸ hi)
  -- nothing follows `t` in the chain
  obtain ⟨rest, after, hsplit⟩ := List.append_of_mem hmem
  have hafter : after = [] := by
    have hchain := h.chain
    rw [hsplit] at hchain
    obtain ⟨p, _, _, q, hq, hchain⟩ := seg_append.1 hchain
    rw [hlast] at hq
    cases hq
    exact (Chain.det (show Chain s.links .null after from hchain) rfl)
  subst hafter
  have hrest : t ∉ rest := by
    have hnodup := h.chain.nodup
    rw [hsplit] at hnodup
    exact fun hm => (List.nodup_append.1 hnodup).2.2 t hm t (by simp) rfl
  refine ⟨?_, ?_, ?_, ?_, ?_, ?_, ?_, ?_, ?_⟩
  · rw [hroot, hlinks]
    refine seg_append.2 ⟨.node n, ?_, rfl, .null, ?_, rfl⟩
    · rw [hsplit]
      exact Seg.redirect (hsplit ▸ h.chain) hrest
    · rw [Function.update_of_ne hnt]; exact hn
  · rw [hroot]
    exact h.tail.imp fun m hm => ⟨List.mem_append_left _ hm.1, hm.2⟩
  · intro m
    rw [hlinks]
    by_cases hm : m = t
    · subst hm; rw [Function.update_self]; rfl
    · rw [Function.update_of_ne hm]; exact h.memory m
  · intro m hm
    rcases List.mem_append.1 hm with hm | hm
    · exact Set.mem_insert_of_mem _ (h.been m hm)
    · rw [List.mem_singleton.1 hm]; exact Set.mem_insert ..
  · intro m hm hnull
    rw [hlinks] at hnull
    by_cases hmt : m = t
    · subst hmt; rw [Function.update_self] at hnull; cases hnull
    · rw [Function.update_of_ne hmt] at hnull
      by_cases hmn : m = n
      · exact Or.inl (by simp [hmn])
      · rcases h.null m (hm.resolve_left hmn) hnull with hm | hj
        · exact Or.inl (List.mem_append_left _ hm)
        · obtain ⟨j, hj⟩ := exists_update_owns (fun j => (s.calls j).owns) (i := i)
            (x := none) (fun heq => hmn (Option.some.inj (heq.symm.trans hi))) hj
          exact Or.inr ⟨j, (congrFun hown j).trans hj⟩
  · rw [hown, hqueued]; exact h.hands.link hi
  · refine fun j hj => outside_update h.outside (fun heq => by cases heq) (fun k hk hd => ?_) j
      ((congrFun hown j).symm.trans hj)
    exact houtside fun hn => hk (h.hands.owner k i .divider hd (hn ▸ hi))
  · intro a ha
    exact List.mem_append_left _ (h.present a (hpresent ▸ ha))
  · refine callHolds_update h.calls hcalls (fun j m hj hm hnull => ?_)
      (fun j b tail hj _ ho => ⟨(hothers j).1 hj ▸ ho, List.mem_append_left _⟩)
      (fun _ hm => Set.mem_insert_of_mem _ hm)
      (fun j _ => (hothers j).2.1) (fun j _ => (hothers j).2.2) hcall
    have hmt : m ≠ t := fun heq => hnobody j (by rw [hm, heq])
    rw [hlinks, Function.update_of_ne hmt]
    exact hnull

omit [DecidableEq α] in
/-- A thread takes the first node off; it is not the tail. -/
theorem MsqueueCalls.Holds.take (h : s.Holds nodes seen) {n : MsNode α} {next : Ptr (MsNode α)}
    (hnone : (s.calls i).owns = none) (hhead : s.root.head = .node n)
    (htail : s.root.tail ≠ .node n) (hnext : s.links n = some next) (howns : call.owns = some n)
    (hroot : s'.root = { s.root with head := next }) (hlinks : s'.links = s.links)
    (hcalls : s'.calls = Function.update s.calls i call) (hqueued : s'.queued = s.queued)
    (hpresent : ∀ a ∈ s'.present, a ∈ s.present ∧ .item a ≠ n)
    (houtside : n = .divider ∨ s.outside = true → s'.outside = true)
    (hothers : ∀ j, (s'.moved j = s.moved j ∧ s'.apart j = s.apart j) ∧
      (s.sawEmpty j = true → s'.sawEmpty j = true))
    (hovertaken : ∀ j a tail, j ≠ i → s.calls j = .put (.item a) (.swings tail) →
      s'.overtaken j = false → s.overtaken j = false ∧ .item a ≠ n)
    (hcall : ∀ rest, nodes = n :: rest → s'.CallHolds rest seen i call) :
    ∃ nodes seen, s'.Holds nodes seen := by
  have hchain := h.chain
  cases nodes with
  | nil => obtain ⟨t, ht, _⟩ := h.tail; cases ht
  | cons m rest =>
      obtain ⟨hm, next', hnext', hrest⟩ := hchain
      obtain rfl : n = m := by rw [hhead] at hm; exact Ptr.node.inj hm
      obtain rfl : next = next' := Option.some.inj (hnext.symm.trans hnext')
      have hnodup : n ∉ rest := (List.nodup_cons.1 h.chain.nodup).1
      have hown : (fun j => (s'.calls j).owns)
          = Function.update (fun j => (s.calls j).owns) i (some n) := by
        rw [hcalls, owns_update, howns]
      have hstays : ∀ b, MsNode.item b ∈ n :: rest → .item b ≠ n → .item b ∈ rest :=
        fun b hb hne => (List.mem_cons.1 hb).resolve_left hne
      refine ⟨rest, seen, ?_, ?_, ?_, ?_, ?_, ?_, ?_, ?_, ?_⟩
      · rw [hroot, hlinks]; exact hrest
      · obtain ⟨t, ht, heq⟩ := h.tail
        refine ⟨t, (List.mem_cons.1 ht).resolve_left ?_, by rw [hroot]; exact heq⟩
        rintro rfl
        exact htail heq
      · rw [hlinks]; exact h.memory
      · exact fun m hm => h.been m (List.mem_cons_of_mem _ hm)
      · intro m hm hnull
        rw [hlinks] at hnull
        rcases h.null m hm hnull with hm | hj
        · rcases List.mem_cons.1 hm with rfl | hm
          · exact Or.inr ⟨i, (congrFun hown i).trans (Function.update_self ..)⟩
          · exact Or.inl hm
        · obtain ⟨j, hj⟩ := exists_update_owns (fun j => (s.calls j).owns) (i := i)
            (x := some n) (by rw [hnone]; simp) hj
          exact Or.inr ⟨j, (congrFun hown j).trans hj⟩
      · rw [hown, hqueued]; exact h.hands.take hnodup hnone
      · exact fun j hj => outside_update h.outside
          (fun heq => houtside (Or.inl (Option.some.inj heq)))
          (fun _ _ _ ho => houtside (Or.inr ho)) j ((congrFun hown j).symm.trans hj)
      · intro a ha
        obtain ⟨ha, hne⟩ := hpresent a ha
        exact hstays a (h.present a ha) hne
      · refine callHolds_update h.calls hcalls (fun j m _ _ hnull => by rw [hlinks]; exact hnull)
          (fun j b tail hj hb ho => ?_) (fun _ hm => hm) (fun j _ => (hothers j).1)
          (fun j _ => (hothers j).2) (hcall rest rfl)
        obtain ⟨ho, hne⟩ := hovertaken j b tail hj hb ho
        exact ⟨ho, fun hb => hstays b hb hne⟩

omit [DecidableEq ι] [DecidableEq α] in
/-- What a node of the chain leads to is in the chain. -/
theorem MsqueueCalls.Holds.next_mem (h : s.Holds nodes seen) {t : MsNode α}
    {next : Ptr (MsNode α)} (ht : t ∈ nodes) (hnext : s.links t = some next)
    (hne : next ≠ .null) : ∃ m ∈ nodes, next = .node m := by
  obtain ⟨before, after, rfl⟩ := List.append_of_mem ht
  obtain ⟨p, _, _, q, hq, hafter⟩ := seg_append.1 h.chain
  obtain rfl : next = q := Option.some.inj (hnext.symm.trans hq)
  cases after with
  | nil => exact absurd hafter hne
  | cons m after => exact ⟨m, by simp, hafter.1⟩

omit [DecidableEq ι] in
/-- A CAS of the tail that finds what it has read moves it along the chain. -/
theorem MsqueueCalls.Holds.casTail (h : s.Holds nodes seen) {tail next : Ptr (MsNode α)}
    (hcas : s.root.tail = tail → load s.links tail = some next) (hne : next ≠ .null) :
    ∃ t ∈ nodes, (casRoot s.root.tail tail next).2 = .node t := by
  obtain ⟨t, ht, htail⟩ := h.tail
  unfold casRoot
  by_cases heq : s.root.tail = tail
  · rw [if_pos heq]
    have hload := hcas heq
    rw [← heq, htail] at hload
    exact h.next_mem ht hload hne
  · rw [if_neg heq]
    exact ⟨t, ht, htail⟩

omit [DecidableEq ι] in
/-- What a place in a call says is not less so for a moment that is seen. -/
theorem MsqueueCalls.CallHolds.observe (h : s.CallHolds nodes seen i call) :
    s.observe.CallHolds nodes seen i call :=
  h.frame (fun _ _ hn => hn) (fun _ _ _ ho => ⟨ho, id⟩) (fun _ hn => hn) ⟨rfl, rfl⟩
    (observe_sawEmpty s)

omit [DecidableEq ι] [DecidableEq α] in
/-- When the first node has no successor and nobody has the divider in hand, the chain is
the divider. -/
theorem MsqueueCalls.Holds.empty (h : s.Holds nodes seen)
    (hnull : load s.links s.root.head = some .null)
    (hdivider : ∀ j, (s.calls j).owns ≠ some .divider) : s.present = ∅ := by
  have hchain := h.chain
  cases nodes with
  | nil => obtain ⟨t, ht, _⟩ := h.tail; cases ht
  | cons n rest =>
      obtain ⟨hhead, next, hnext, hrest⟩ := hchain
      rw [hhead, load, hnext] at hnull
      cases hnull
      obtain rfl : rest = [] := Chain.det (show Chain s.links .null rest from hrest) rfl
      have hmem : MsNode.divider ∈ [n] :=
        h.hands.divider.resolve_right fun hex => hex.elim hdivider
      obtain rfl := List.mem_singleton.1 hmem
      refine Finset.eq_empty_of_forall_notMem fun a ha => ?_
      cases List.mem_singleton.1 (h.present a ha)

/-- A step that the history does not mention. -/
theorem MsqueueCalls.Holds.quiet (h : s.Holds nodes seen) {root : MsqueueRoot α}
    (hhead : root.head = s.root.head) (htail : ∃ t ∈ nodes, root.tail = .node t)
    (howns : call.owns = (s.calls i).owns)
    (hcall : MsqueueCalls.CallHolds { s with
      root := root, calls := Function.update s.calls i call } nodes seen i call) :
    (MsqueueCalls.observe { s with
      root := root, calls := Function.update s.calls i call }).Holds nodes seen :=
  h.local hhead htail rfl rfl howns rfl rfl h.present
    (fun _ _ => ⟨rfl, ⟨rfl, rfl⟩, fun hs => observe_sawEmpty _ hs⟩) hcall.observe

end Steps

/-! ## The atomic steps -/

/-- What a step is, and what it leaves. -/
theorem msqueueStep_cases {s s' : MsqueueCalls ι α} {i : ι} (h : s.step (.step i) = .ok s') :
    ∃ root links call, callStep s.root s.links (s.calls i) = .ok (root, links, call) ∧
      s' = (MsqueueCalls.record i (s.calls i) call { s with
        root := root, links := links, calls := Function.update s.calls i call }).observe := by
  simp only [MsqueueCalls.step] at h
  split at h
  · rename_i root links call hcall
    exact ⟨root, links, call, hcall, (Except.ok.inj h).symm⟩
  · cases h

/-- A CAS of a link that goes through finds a node, and succeeds or leaves it. -/
theorem casNext_cases {h h' : Links (MsNode α)} {p old new : Ptr (MsNode α)} {swapped : Bool}
    (hc : casNext h p old new = .ok (swapped, h')) :
    ∃ n next, p = .node n ∧ h n = some next ∧
      ((next = old ∧ swapped = true ∧ h' = Function.update h n (some new)) ∨
        (next ≠ old ∧ swapped = false ∧ h' = h)) := by
  unfold casNext at hc
  obtain ⟨next, hload, hc⟩ := bind_eq_ok.1 hc
  cases p with
  | null => cases hload
  | poison => cases hload
  | node n =>
      have hn : h n = some next := by
        simp only [loadNext, load] at hload
        split at hload
        · rename_i hn; rw [hn, Except.ok.inj hload]
        · cases hload
      refine ⟨n, next, rfl, hn, ?_⟩
      by_cases heq : next = old
      · rw [if_pos heq, store_node (by rw [hn]; rfl)] at hc
        obtain ⟨rfl, rfl⟩ := Prod.mk.inj (Except.ok.inj hc)
        exact Or.inl ⟨heq, rfl, rfl⟩
      · rw [if_neg heq] at hc
        obtain ⟨rfl, rfl⟩ := Prod.mk.inj (Except.ok.inj hc)
        exact Or.inr ⟨heq, rfl, rfl⟩

section

variable {s s' : MsqueueCalls ι α} {nodes : List (MsNode α)} {seen : Set (MsNode α)} {i : ι}

/-- A step of `msqueue_put`. -/
theorem MsqueueCalls.Holds.put (h : s.Holds nodes seen) (hreuse : s.noReuse (.step i))
    (hstep : s.step (.step i) = .ok s') {new : MsNode α} {pc : PutAt α}
    (hpc : s.calls i = .put new pc) : ∃ nodes seen, s'.Holds nodes seen := by
  obtain ⟨root, links, call, hcall, rfl⟩ := msqueueStep_cases hstep
  have hat := h.calls i
  simp only [MsqueueCalls.noReuse] at hreuse
  rw [hpc] at hat hcall hreuse ⊢
  cases pc with
  | reads =>
      obtain ⟨next, hnext, hcall⟩ := bind_eq_ok.1 hcall
      cases Except.ok.inj hcall
      cases new <;> exact ⟨nodes, seen, h.quiet rfl h.tail (by rw [hpc]; rfl) trivial⟩
  | clears next =>
      obtain ⟨⟨swapped, links⟩, hcas, hcall⟩ := bind_eq_ok.1 hcall
      obtain ⟨n, next, hn, hnext, ⟨rfl, rfl, rfl⟩ | ⟨hne, rfl, rfl⟩⟩ := casNext_cases hcas
      · cases hn
        cases Except.ok.inj hcall
        refine ⟨nodes, seen, ?_⟩
        cases new <;> exact h.clear (by rw [hpc]; rfl) rfl rfl rfl rfl rfl rfl rfl
          (fun j => ⟨rfl, ⟨rfl, rfl⟩, fun hs => observe_sawEmpty _ hs⟩)
          (by simp only [MsqueueCalls.CallHolds, observe_links, record_links, Function.update_self])
      · cases hcall
  | tail =>
      obtain ⟨t, ht, htail⟩ := h.tail
      cases Except.ok.inj hcall
      cases new <;> exact ⟨nodes, seen, h.quiet rfl h.tail (by rw [hpc]; rfl)
        ⟨hat, t, h.been t ht, htail⟩⟩
  | next tail =>
      obtain ⟨next, hnext, hcall⟩ := bind_eq_ok.1 hcall
      cases Except.ok.inj hcall
      cases new <;> exact ⟨nodes, seen, h.quiet rfl h.tail (by rw [hpc]; rfl) hat⟩
  | tests tail next =>
      simp only [callStep] at hcall
      split at hcall
      · cases Except.ok.inj hcall
        cases new <;> exact ⟨nodes, seen, h.quiet rfl h.tail (by rw [hpc]; rfl) hat.1⟩
      · split at hcall
        · cases Except.ok.inj hcall
          cases new <;> exact ⟨nodes, seen, h.quiet rfl h.tail (by rw [hpc]; rfl) hat⟩
        · rename_i hne
          cases Except.ok.inj hcall
          cases new <;> exact ⟨nodes, seen, h.quiet rfl h.tail (by rw [hpc]; rfl) ⟨hat.1, hne⟩⟩
  | links tail =>
      obtain ⟨⟨swapped, links⟩, hcas, hcall⟩ := bind_eq_ok.1 hcall
      obtain ⟨hnew, t, ht, rfl⟩ := hat
      obtain ⟨n, next, hn, hnext, ⟨rfl, rfl, rfl⟩ | ⟨hne, rfl, rfl⟩⟩ := casNext_cases hcas
      · cases hn
        cases Except.ok.inj hcall
        have hnobody := hreuse (by rw [load, hnext])
        refine ⟨nodes ++ [new], insert new seen, ?_⟩
        refine h.link (by rw [hpc]; rfl) hnew ht hnext (fun j hj => hnobody j (by rw [hj]; rfl))
          rfl rfl rfl rfl rfl (fun hne ho => ?_) rfl
          (fun j => ⟨fun hj => Function.update_of_ne hj _ _, ⟨rfl, rfl⟩,
            fun hs => observe_sawEmpty _ hs⟩) ?_
        · show (s.outside && decide (new ≠ .divider)) = true
          rw [ho, decide_eq_true hne]
          rfl
        · rintro a rfl -
          simp
      · cases Except.ok.inj hcall
        cases new <;> exact ⟨nodes, seen, h.quiet rfl h.tail (by rw [hpc]; rfl) hnew⟩
  | helps tail next =>
      have htail := h.casTail hreuse hat.2
      cases Except.ok.inj hcall
      cases new <;> exact ⟨nodes, seen, h.quiet rfl htail (by rw [hpc]; rfl) hat.1⟩
  | swings tail =>
      have htail := h.casTail hreuse (by simp)
      cases Except.ok.inj hcall
      cases new with
      | divider => exact ⟨nodes, seen, h.quiet rfl htail (by rw [hpc]; rfl) trivial⟩
      | item a =>
          refine ⟨nodes, seen, ?_⟩
          -- an item that a get took before its put returned is not one that is there
          cases hover : s.overtaken i with
          | true =>
              simp only [MsqueueCalls.record, hover, if_true]
              exact h.quiet rfl htail (by rw [hpc]; rfl) trivial
          | false =>
              simp only [MsqueueCalls.record, hover, Bool.false_eq_true, if_false]
              refine h.local rfl htail rfl rfl (by rw [hpc]; rfl) rfl rfl (fun b hb => ?_)
                (fun _ _ => ⟨rfl, ⟨rfl, rfl⟩, fun hs => observe_sawEmpty _ hs⟩) trivial
              rcases Finset.mem_insert.1 hb with rfl | hb
              · exact hat b rfl hover
              · exact h.present b hb

/-- A step of `msqueue_get`. -/
theorem MsqueueCalls.Holds.get (h : s.Holds nodes seen) (hreuse : s.noReuse (.step i))
    (hdivider : s.dividerLinked (.step i)) (hstep : s.step (.step i) = .ok s') {pc : GetAt α}
    (hpc : s.calls i = .get pc) : ∃ nodes seen, s'.Holds nodes seen := by
  obtain ⟨root, links, call, hcall, rfl⟩ := msqueueStep_cases hstep
  have hat := h.calls i
  simp only [MsqueueCalls.noReuse] at hreuse
  simp only [MsqueueCalls.dividerLinked] at hdivider
  rw [hpc] at hat hcall hreuse hdivider ⊢
  cases pc with
  | head =>
      cases Except.ok.inj hcall
      exact ⟨nodes, seen, h.quiet rfl h.tail (by rw [hpc]; rfl) trivial⟩
  | tail head =>
      cases Except.ok.inj hcall
      exact ⟨nodes, seen, h.quiet rfl h.tail (by rw [hpc]; rfl) trivial⟩
  | next head tail =>
      obtain ⟨next, hnext, hcall⟩ := bind_eq_ok.1 hcall
      cases Except.ok.inj hcall
      refine ⟨nodes, seen, h.local rfl h.tail rfl rfl (by rw [hpc]; rfl) rfl rfl h.present
        (fun j hj => ⟨rfl, ⟨Function.update_of_ne hj _ _, Function.update_of_ne hj _ _⟩,
          fun hs => observe_sawEmpty _ hs⟩) ?_⟩
      rintro rfl rfl hmoved hapart
      have hhead : s.root.head = head := by
        simpa [MsqueueCalls.record] using hmoved
      have houtside : s.outside = false := by
        simpa [MsqueueCalls.record] using hapart
      have hload : load s.links head = some .null := by
        unfold loadNext at hnext
        split at hnext
        · rename_i hload; rw [hload, Except.ok.inj hnext]
        · cases hnext
      have hempty := h.empty (hhead ▸ hload) fun j hj => by
        rw [h.outside j hj] at houtside
        cases houtside
      simp [MsqueueCalls.observe, MsqueueCalls.record, CallAt.inGet, hempty]
  | tests head tail next =>
      simp only [callStep] at hcall
      split at hcall
      · cases Except.ok.inj hcall
        exact ⟨nodes, seen, h.quiet rfl h.tail (by rw [hpc]; rfl) trivial⟩
      · rename_i hhead
        split at hcall
        · rename_i htail
          split at hcall
          · rename_i hnext
            cases Except.ok.inj hcall
            exact ⟨nodes, seen, h.quiet rfl h.tail (by rw [hpc]; rfl)
              (hat htail hnext (hreuse (not_not.1 hhead).symm htail hnext)
                (hdivider (not_not.1 hhead).symm htail hnext))⟩
          · rename_i hnext
            cases Except.ok.inj hcall
            exact ⟨nodes, seen, h.quiet rfl h.tail (by rw [hpc]; rfl) hnext⟩
        · cases Except.ok.inj hcall
          exact ⟨nodes, seen, h.quiet rfl h.tail (by rw [hpc]; rfl) trivial⟩
  | helps tail next =>
      have htail := h.casTail hreuse hat
      cases Except.ok.inj hcall
      exact ⟨nodes, seen, h.quiet rfl htail (by rw [hpc]; rfl) trivial⟩
  | takes head next =>
      simp only [callStep, casRoot] at hcall
      by_cases heq : s.root.head = head
      · obtain ⟨htail, hload⟩ := hreuse heq
        simp only [if_pos heq, if_true] at hcall
        split at hcall
        · cases Except.ok.inj hcall
          exact h.take (by rw [hpc]; rfl) heq htail hload rfl rfl rfl rfl rfl
            (fun a ha => ⟨ha, by simp⟩) (fun _ => rfl)
            (fun j => ⟨⟨rfl, rfl⟩, fun hs => observe_sawEmpty _ hs⟩)
            (fun j a tail _ _ ho => ⟨ho, by simp⟩) (fun _ _ => trivial)
        · rename_i a
          cases Except.ok.inj hcall
          refine h.take (by rw [hpc]; rfl) heq htail hload rfl rfl rfl rfl rfl
            (fun b hb => ?_) (fun ho => ho.resolve_left (by simp))
            (fun j => ⟨⟨rfl, rfl⟩, fun hs => observe_sawEmpty _ hs⟩)
            (fun j b tail hj hb ho => ?_) (fun _ _ => trivial)
          · obtain ⟨hne, hb⟩ := Finset.mem_erase.1 hb
            exact ⟨hb, by simpa using hne⟩
          · have hboth : (s.overtaken j || (Function.update s.calls i (.get (.poisons a next)) j).linked a)
                = false := ho
            rw [Function.update_of_ne hj, hb, Bool.or_eq_false_iff] at hboth
            exact ⟨hboth.1, by simpa [CallAt.linked] using hboth.2⟩
        · cases hcall
      · simp only [if_neg heq, Bool.false_eq_true, if_false] at hcall
        cases Except.ok.inj hcall
        exact ⟨nodes, seen, h.quiet rfl h.tail (by rw [hpc]; rfl) trivial⟩
  | poisons a next =>
      obtain ⟨⟨swapped, links⟩, hcas, hcall⟩ := bind_eq_ok.1 hcall
      obtain ⟨n, next, hn, hnext, ⟨rfl, rfl, rfl⟩ | ⟨hne, rfl, rfl⟩⟩ := casNext_cases hcas
      · cases hn
        cases Except.ok.inj hcall
        exact ⟨nodes, seen, h.poison (by rw [hpc]; rfl) rfl rfl rfl rfl rfl rfl rfl
          (fun j => ⟨rfl, ⟨rfl, rfl⟩, fun hs => observe_sawEmpty _ hs⟩) trivial⟩
      · cases hcall

/-- Every act of a run that meets the conditions keeps the invariant. -/
theorem MsqueueCalls.Holds.act (h : s.Holds nodes seen) {a : MsqueueCallAct ι α}
    (hmay : s.mayCall a) (hreuse : s.noReuse a) (hdivider : s.dividerLinked a)
    (hstep : s.step a = .ok s') : ∃ nodes seen, s'.Holds nodes seen := by
  cases a with
  | put i a =>
      cases Except.ok.inj hstep
      exact ⟨nodes, seen, h.begin hmay.1 hmay.2⟩
  | get i =>
      have hnone : (s.calls i).owns = none := by
        have hfree : (s.calls i).free = true := hmay
        cases hcall : s.calls i <;> rw [hcall] at hfree <;> first | rfl | cases hfree
      cases Except.ok.inj hstep
      exact ⟨nodes, seen, h.local rfl h.tail rfl rfl hnone.symm rfl rfl h.present
        (fun j hj => ⟨rfl, ⟨rfl, rfl⟩, fun hs => (Function.update_of_ne hj _ _).trans hs⟩) trivial⟩
  | step i =>
      cases hpc : s.calls i with
      | idle =>
          obtain ⟨root, links, call, hcall, rfl⟩ := msqueueStep_cases hstep
          rw [hpc] at hcall ⊢
          cases Except.ok.inj hcall
          exact ⟨nodes, seen, h.quiet rfl h.tail (by rw [hpc]) trivial⟩
      | returned head =>
          obtain ⟨root, links, call, hcall, rfl⟩ := msqueueStep_cases hstep
          have hat := h.calls i
          rw [hpc] at hcall hat ⊢
          cases Except.ok.inj hcall
          exact ⟨nodes, seen, h.quiet rfl h.tail (by rw [hpc]) hat⟩
      | put new pc => exact h.put hreuse hstep hpc
      | get pc => exact h.get hreuse hdivider hstep hpc

end

/-! ## Runs -/

omit [DecidableEq ι] in
theorem calls_holds_init {links : Links (MsNode α)} (hlinks : ∀ n, (links n).isSome) :
    (MsqueueCalls.init links : MsqueueCalls ι α).Holds [.divider] {.divider} where
  chain := ⟨rfl, .null,
    by simp only [MsqueueCalls.init, initMsqueueRoot, Function.update_self], rfl⟩
  tail := ⟨.divider, by simp, rfl⟩
  memory := by
    intro n
    by_cases hn : n = .divider
    · subst hn
      simp only [MsqueueCalls.init, initMsqueueRoot, Function.update_self]
      rfl
    · simp only [MsqueueCalls.init, initMsqueueRoot, Function.update_of_ne hn]
      exact hlinks n
  been := by simp
  null := fun n hn _ => Or.inl (by simpa using hn)
  hands := by
    refine ⟨?_, ?_, Or.inl (by simp), ?_⟩
    · intro j n hj; cases hj
    · intro j k n hj; cases hj
    · rintro a (ha | ⟨j, hj⟩)
      · simp at ha
      · cases hj
  outside := fun _ hj => by cases hj
  present := fun a ha => by cases ha
  calls := fun _ => trivial

/--
**An empty answer is the truth** in every run in which no `msqueue_get` answers that there is
nothing because it found the only node without a successor while another had the divider in
hand, and no CAS or second read finds what it has read changed and changed back.

When `msqueue_get` has returned null, at some moment of the call there was nothing that
had been put and not taken.
-/
theorem msqueue_get_truthful (links : Links (MsNode α)) (hlinks : ∀ n, (links n).isSome)
    (s : MsqueueCalls ι α)
    (hr : Runs MsqueueCalls.step (fun s a => s.mayCall a ∧ s.noReuse a ∧ s.dividerLinked a)
      (MsqueueCalls.init links) s)
    (i : ι) (hi : s.calls i = .returned none) : s.sawEmpty i = true := by
  obtain ⟨nodes, seen, h⟩ : ∃ nodes seen, s.Holds nodes seen := by
    refine Runs.invariant (I := fun s => ∃ nodes seen, s.Holds nodes seen) hr ?_
      ⟨_, _, calls_holds_init hlinks⟩
    rintro a t t' ⟨nodes, seen, ht⟩ ⟨hmay, hreuse, hdivider⟩ hstep
    exact ht.act hmay hreuse hdivider hstep
  have hat := h.calls i
  rw [hi] at hat
  exact hat

/-- One thread puts and takes an element while another finds the queue empty. -/
theorem msqueue_get_truthful_two : ∃ s : MsqueueCalls (Fin 2) Nat,
    s.calls 0 = .returned (some (.item 7)) ∧ s.calls 1 = .returned none ∧
      s.sawEmpty 1 = true := by
  obtain ⟨s, hr, hs⟩ := exists_run (show (runActs MsqueueCalls.step
    (fun s a => s.mayCall a ∧ s.noReuse a ∧ s.dividerLinked a)
    ([.put 0 7] ++ List.replicate 7 (.step 0) ++ [.get 0] ++ List.replicate 4 (.step 0) ++
      [.get 1] ++ List.replicate 9 (.step 0) ++ List.replicate 4 (.step 1) ++
      List.replicate 6 (.step 0) ++ List.replicate 8 (.step 1))
    (MsqueueCalls.init (fun _ => some .null) : MsqueueCalls (Fin 2) Nat)).any
      (fun s => decide (s.calls 0 = .returned (some (.item 7)) ∧ s.calls 1 = .returned none))
      = true by decide +kernel)
  obtain ⟨hzero, hone⟩ := of_decide_eq_true hs
  exact ⟨s, hzero, hone, msqueue_get_truthful (fun _ => some .null) (fun _ => rfl) s hr 1 hone⟩

/-- A get has taken the divider off the front and not put it back; another one finds the
element that is left alone in the queue, and says that there is none. -/
theorem msqueue_get_untruthful : ∃ s : MsqueueCalls (Fin 2) Nat,
    Runs MsqueueCalls.step MsqueueCalls.mayCall (MsqueueCalls.init (fun _ => some .null)) s ∧
      s.calls 1 = .returned none ∧ s.sawEmpty 1 = false ∧ s.present = {7} := by
  obtain ⟨s, hr, hs⟩ := exists_run (show (runActs MsqueueCalls.step MsqueueCalls.mayCall
    ([.put 0 7] ++ List.replicate 7 (.step 0) ++ [.get 0] ++ List.replicate 5 (.step 0) ++
      [.get 1] ++ List.replicate 4 (.step 1))
    (MsqueueCalls.init (fun _ => some .null) : MsqueueCalls (Fin 2) Nat)).any
      (fun s => decide (s.calls 1 = .returned none ∧ s.sawEmpty 1 = false ∧ s.present = {7}))
      = true by decide +kernel)
  exact ⟨s, hr, of_decide_eq_true hs⟩

end Msock
