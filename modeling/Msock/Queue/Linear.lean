import Msock.Queue.Truthful
import Msock.Lib.AtomicQueue

/-!
# The queue of domains is linearizable

Whatever the threads do in between, each call of `msqueue_put` and `msqueue_get` takes effect
at one moment: a put when its CAS links the node, a get when its CAS moves the head past the
node it returns. While no node comes back under a call that has read its address, what can be
seen of the queue is what can be seen of an atomic one; only a get that answers that there is
nothing needs besides that no other thread has the divider in hand.
-/

namespace Msock

open Lib

universe u v
variable {ι : Type v} {α : Type u} [DecidableEq α]

/-! ## What can be seen -/

/-- Where a call stands as one of an atomic queue. The divider is put by a get. -/
def CallAt.atomic (sawEmpty : Bool) : CallAt α → AtomicCall (MsNode α)
  | .idle | .returned _ => .idle
  | .put .divider _ => .getting sawEmpty
  | .put (.item _) (.swings _) => .put
  | .put (.item a) _ => .putting (.item a)
  | .get (.poisons a _) => .got (.item a)
  | .get _ => .getting sawEmpty

/-- The elements of the chain. -/
def elements (nodes : List (MsNode α)) : List (MsNode α) :=
  nodes.filter (fun n => decide (n ≠ .divider))

@[simp] theorem elements_append (nodes nodes' : List (MsNode α)) :
    elements (nodes ++ nodes') = elements nodes ++ elements nodes' := List.filter_append ..

@[simp] theorem elements_divider (nodes : List (MsNode α)) :
    elements (.divider :: nodes) = elements nodes := List.filter_cons_of_neg (by simp)

@[simp] theorem elements_item (a : α) (nodes : List (MsNode α)) :
    elements (.item a :: nodes) = .item a :: elements nodes := List.filter_cons_of_pos (by simp)

variable [DecidableEq ι]

/-- What a step of a thread lets be seen: that its call returns. -/
def callSeen (i : ι) : CallAt α → CallAt α → List (QueueEvent ι (MsNode α))
  | .put (.item _) (.swings _), _ => [.putReturned i]
  | .get _, .returned head => [.getReturned i head]
  | _, _ => []

/-- What an act lets be seen: the calls and the returns. -/
def MsqueueCalls.seen (s s' : MsqueueCalls ι α) :
    MsqueueCallAct ι α → List (QueueEvent ι (MsNode α))
  | .put i a => [.putCalled i (.item a)]
  | .get i => [.getCalled i]
  | .step i => callSeen i (s.calls i) (s'.calls i)

/-- One act of a run without reuse; in a `strict` run no get answers that there is nothing
because it found the only node without a successor while another thread had the divider in
hand. -/
def MsqueueStep (strict : Bool) (s : MsqueueCalls ι α) (es : List (QueueEvent ι (MsNode α)))
    (s' : MsqueueCalls ι α) : Prop :=
  ∃ a, s.mayCall a ∧ s.noReuse a ∧ (strict = true → s.dividerLinked a) ∧ s.step a = .ok s' ∧
    es = s.seen s' a

/-! ## The invariant, without the history of empty moments -/

/-- The same state, but that every get has seen an empty moment. -/
def MsqueueCalls.forget (s : MsqueueCalls ι α) : MsqueueCalls ι α :=
  { s with sawEmpty := fun _ => true }

theorem record_forget (s : MsqueueCalls ι α) (i : ι) (before after : CallAt α) :
    MsqueueCalls.record i before after s.forget = (MsqueueCalls.record i before after s).forget := by
  unfold MsqueueCalls.record
  split
  · rfl
  · show (if s.overtaken i then _ else _) = _
    split <;> rfl
  · rfl
  · rfl
  · rfl
  · rfl
  · rfl

/-- Nothing but the history depends on what the history says of empty moments. -/
theorem forget_step {s s' : MsqueueCalls ι α} {i : ι} (h : s.step (.step i) = .ok s') :
    s.forget.step (.step i) = .ok s'.forget := by
  obtain ⟨root, links, call, hcall, rfl⟩ := msqueueStep_cases h
  have hcall' : callStep s.forget.root s.forget.links (s.forget.calls i) = .ok (root, links, call) :=
    hcall
  have hrecord := record_forget { s with
    root := root, links := links, calls := Function.update s.calls i call } i (s.calls i) call
  simp only [MsqueueCalls.step, hcall']
  exact congrArg (fun s => Except.ok (MsqueueCalls.observe s)) hrecord

section

variable {s s' : MsqueueCalls ι α} {nodes nodes' : List (MsNode α)} {seen seen' : Set (MsNode α)}
  {i : ι} {root : MsqueueRoot α} {links : Links (MsNode α)} {call : CallAt α}

/-- The chain is kept whether or not the divider is in somebody's hand. -/
theorem MsqueueCalls.Holds.act_forget (h : s.forget.Holds nodes seen) {a : MsqueueCallAct ι α}
    (hmay : s.mayCall a) (hreuse : s.noReuse a) (hstep : s.step a = .ok s') :
    ∃ nodes seen, s'.forget.Holds nodes seen := by
  cases a with
  | put i a =>
      cases Except.ok.inj hstep
      exact ⟨nodes, seen, h.begin hmay.1 hmay.2⟩
  | get i =>
      have hnone : (s.calls i).owns = none := by
        have hfree : (s.calls i).free = true := hmay
        cases hcall : s.calls i <;> rw [hcall] at hfree <;> first | rfl | cases hfree
      cases Except.ok.inj hstep
      exact ⟨nodes, seen, h.local rfl h.tail rfl rfl hnone.symm rfl rfl h.present
        (fun _ _ => ⟨rfl, ⟨rfl, rfl⟩, fun _ => rfl⟩) trivial⟩
  | step i =>
      by_cases htests : ∃ head tail next, s.calls i = .get (.tests head tail next)
      · -- the answer may be wrong, the chain is not touched
        obtain ⟨head, tail, next, hpc⟩ := htests
        obtain ⟨root, links, call, hcall, rfl⟩ := msqueueStep_cases hstep
        rw [hpc] at hcall ⊢
        have howns : (s.forget.calls i).owns = none := by
          show (s.calls i).owns = none
          rw [hpc]
          rfl
        simp only [callStep] at hcall
        split at hcall
        · cases Except.ok.inj hcall
          exact ⟨nodes, seen, h.quiet rfl h.tail howns.symm trivial⟩
        · split at hcall
          · split at hcall
            · cases Except.ok.inj hcall
              exact ⟨nodes, seen, h.quiet rfl h.tail howns.symm rfl⟩
            · rename_i hnext
              cases Except.ok.inj hcall
              exact ⟨nodes, seen, h.quiet rfl h.tail howns.symm hnext⟩
          · cases Except.ok.inj hcall
            exact ⟨nodes, seen, h.quiet rfl h.tail howns.symm trivial⟩
      · refine h.act (a := .step i) trivial hreuse ?_ (forget_step hstep)
        unfold MsqueueCalls.dividerLinked
        dsimp only
        split
        · rename_i head tail next hpc
          exact absurd ⟨head, tail, next, hpc⟩ htests
        · trivial

/-- What a step of a thread leaves alone. -/
theorem msqueueStep_parts (h : s.step (.step i) = .ok s') :
    ∃ root links call, callStep s.root s.links (s.calls i) = .ok (root, links, call) ∧
      s'.root = root ∧ s'.links = links ∧ s'.calls = Function.update s.calls i call ∧
      (∀ j, j ≠ i → s'.moved j = s.moved j ∧ s'.apart j = s.apart j) ∧
      ∀ head tail, s.calls i = .get (.next head tail) →
        s'.moved i = decide (root.head ≠ head) ∧ s'.apart i = s.outside := by
  obtain ⟨root, links, call, hcall, rfl⟩ := msqueueStep_cases h
  refine ⟨root, links, call, hcall, ?_, ?_, ?_, fun j hj => ?_, fun head tail hpc => ?_⟩
  · rw [observe_root, record_root]
  · rw [observe_links, record_links]
  · rw [observe_calls, record_calls]
  · rw [observe_moved, observe_apart]
    unfold MsqueueCalls.record
    split
    · exact ⟨rfl, rfl⟩
    · split <;> exact ⟨rfl, rfl⟩
    · exact ⟨Function.update_of_ne hj _ _, Function.update_of_ne hj _ _⟩
    · exact ⟨rfl, rfl⟩
    · exact ⟨rfl, rfl⟩
    · exact ⟨rfl, rfl⟩
    · exact ⟨rfl, rfl⟩
  · rw [observe_moved, observe_apart, hpc]
    exact ⟨Function.update_self .., Function.update_self ..⟩

/-! ## What a step of a thread is, seen from outside -/

omit [DecidableEq α] [DecidableEq ι] in
/-- What a thread in a call remembers of its own node is so, and its head is a node. -/
def CallAt.Sure (links : Links (MsNode α)) : CallAt α → Prop
  | .put new (.clears next) => links new = some next
  | .get (.poisons a next) => links (.item a) = some next
  | .get (.tail head) | .get (.next head _) => ∃ n, head = .node n
  | _ => True

omit [DecidableEq α] [DecidableEq ι] in
theorem CallAt.Sure.frame {links' : Links (MsNode α)} (h : call.Sure links)
    (hown : ∀ n, call.owns = some n → links' n = links n) : call.Sure links' := by
  cases call with
  | idle => trivial
  | returned head => trivial
  | put new pc =>
      cases pc with
      | clears next => exact (hown new rfl).trans h
      | _ => trivial
  | get pc =>
      cases pc with
      | poisons a next => exact (hown _ rfl).trans h
      | _ => exact h

/-- A step is one of an atomic queue, or none. -/
inductive CallMoved (i : ι) (s s' : MsqueueCalls ι α) (nodes nodes' : List (MsNode α)) : Prop
  | quiet : (∀ sawEmpty, (s'.calls i).atomic sawEmpty = (s.calls i).atomic sawEmpty) →
      elements nodes' = elements nodes → callSeen i (s.calls i) (s'.calls i) = [] →
      (∀ head tail next, s'.calls i ≠ .get (.tests head tail next)) → CallMoved i s s' nodes nodes'
  | looked (head tail next : Ptr (MsNode α)) : s.calls i = .get (.next head tail) →
      s'.calls i = .get (.tests head tail next) → load s.links head = some next →
      s'.moved i = decide (s.root.head ≠ head) → s'.apart i = s.outside → nodes' = nodes →
      CallMoved i s s' nodes nodes'
  | linked (a : α) (tail : Ptr (MsNode α)) : s.calls i = .put (.item a) (.links tail) →
      s'.calls i = .put (.item a) (.swings tail) →
      elements nodes' = elements nodes ++ [.item a] → CallMoved i s s' nodes nodes'
  | taken (a : α) (head next : Ptr (MsNode α)) : s.calls i = .get (.takes head next) →
      s'.calls i = .get (.poisons a next) → elements nodes = .item a :: elements nodes' →
      CallMoved i s s' nodes nodes'
  | putReturned (a : α) (tail : Ptr (MsNode α)) : s.calls i = .put (.item a) (.swings tail) →
      s'.calls i = .idle → nodes' = nodes → CallMoved i s s' nodes nodes'
  | getReturned (a : α) (next : Ptr (MsNode α)) : s.calls i = .get (.poisons a next) →
      s'.calls i = .returned (some (.item a)) → nodes' = nodes → CallMoved i s s' nodes nodes'
  | emptyReturned (head : Ptr (MsNode α)) : s.calls i = .get (.tests head head .null) →
      s'.calls i = .returned none → s.root.head = head → s.moved i = false → nodes' = nodes →
      CallMoved i s s' nodes nodes'

/-- What else a step leaves as it was. -/
structure CallKept (i : ι) (s s' : MsqueueCalls ι α) : Prop where
  sure : (s'.calls i).Sure s'.links
  /-- What another thread has in hand is not written to. -/
  hands : ∀ j, j ≠ i → ∀ n, (s.calls j).owns = some n → s'.links n = s.links n

omit [DecidableEq α] [DecidableEq ι] in
/-- A step that writes no link and leaves the head alone. -/
theorem same_nodes (h : s.forget.Holds nodes seen) (h' : s'.forget.Holds nodes' seen')
    (hlinks : s'.links = s.links) (hhead : s'.root.head = s.root.head) : nodes' = nodes := by
  have hchain : Chain s'.links s'.root.head nodes' := h'.chain
  rw [hlinks, hhead] at hchain
  exact hchain.det h.chain

omit [DecidableEq ι] in
/-- A step that writes to a node in its thread's hand. -/
theorem own_nodes (h : s.forget.Holds nodes seen) (h' : s'.forget.Holds nodes' seen')
    {n : MsNode α} {v : Ptr (MsNode α)} (hi : (s.calls i).owns = some n)
    (hlinks : s'.links = Function.update s.links n (some v)) (hhead : s'.root.head = s.root.head) :
    nodes' = nodes := by
  have hchain : Chain s'.links s'.root.head nodes' := h'.chain
  rw [hlinks, hhead] at hchain
  exact hchain.det (Seg.update h.chain (h.hands.owned i n hi))

omit [DecidableEq ι] in
/-- The CAS that links a node to the last of the chain. -/
theorem link_nodes (h : s.forget.Holds nodes seen) (h' : s'.forget.Holds nodes' seen')
    {n t : MsNode α} (hi : (s.calls i).owns = some n) (hn : s.links n = some .null)
    (ht : t ∈ seen) (hlast : s.links t = some .null) (hnobody : ∀ j, (s.calls j).owns ≠ some t)
    (hlinks : s'.links = Function.update s.links t (some (.node n)))
    (hhead : s'.root.head = s.root.head) : nodes' = nodes ++ [n] := by
  have hmem : t ∈ nodes := (h.null t ht hlast).resolve_right fun ⟨j, hj⟩ => hnobody j hj
  obtain ⟨before, after, hsplit⟩ := List.append_of_mem hmem
  have hseg := h.chain
  rw [hsplit] at hseg
  have hafter : after = [] := by
    obtain ⟨p, _, _, q, hq, hrest⟩ := seg_append.1 hseg
    obtain rfl : Ptr.null = q := Option.some.inj (hlast.symm.trans hq)
    exact (show Chain s.links .null after from hrest).det rfl
  subst hafter
  have hfresh : t ∉ before := fun hm =>
    (List.nodup_append.1 (hsplit ▸ h.chain.nodup)).2.2 t hm t (List.mem_singleton_self t) rfl
  have hnt : n ≠ t := fun heq => hnobody i (heq ▸ hi)
  have hchain : Chain s'.links s'.root.head nodes' := h'.chain
  rw [hlinks, hhead] at hchain
  refine hchain.det (seg_append.2 ⟨.node n, ?_, rfl, .null, ?_, rfl⟩)
  · rw [hsplit]
    exact Seg.redirect hseg hfresh
  · rw [Function.update_of_ne hnt]
    exact hn

omit [DecidableEq α] [DecidableEq ι] in
/-- The CAS that moves the head on. -/
theorem take_nodes (h : s.forget.Holds nodes seen) (h' : s'.forget.Holds nodes' seen')
    {n : MsNode α} {next : Ptr (MsNode α)} (hhead : s.root.head = .node n)
    (hnext : load s.links s.root.head = some next) (hlinks : s'.links = s.links)
    (hhead' : s'.root.head = next) : nodes = n :: nodes' := by
  have hchain : Chain s'.links s'.root.head nodes' := h'.chain
  rw [hlinks, hhead'] at hchain
  refine h.chain.det (chain_cons.2 ⟨hhead, next, ?_, hchain⟩)
  rw [hhead] at hnext
  exact hnext

/-- Most steps read, or move the tail. -/
theorem quiet_moved (h : s.forget.Holds nodes seen) (h' : s'.forget.Holds nodes' seen')
    (hcalls : s'.calls = Function.update s.calls i call) (hlinks : s'.links = s.links)
    (hhead : s'.root.head = s.root.head) (hsure : call.Sure s.links)
    (hatomic : ∀ sawEmpty, call.atomic sawEmpty = (s.calls i).atomic sawEmpty)
    (hseen : callSeen i (s.calls i) call = [])
    (htests : ∀ head tail next, call ≠ .get (.tests head tail next)) :
    CallMoved i s s' nodes nodes' ∧ CallKept i s s' := by
  have hi : s'.calls i = call := by rw [hcalls, Function.update_self]
  refine ⟨.quiet ?_ ?_ ?_ ?_, ?_, fun _ _ _ _ => by rw [hlinks]⟩
  · rw [hi]
    exact hatomic
  · rw [same_nodes h h' hlinks hhead]
  · rw [hi]
    exact hseen
  · rw [hi]
    exact htests
  · rw [hi, hlinks]
    exact hsure

omit [DecidableEq α] [DecidableEq ι] in
/-- A put that has not linked its node is about to put it. -/
theorem atomic_put {new : MsNode α} {pc pc' : PutAt α} (hpc : ∀ tail, pc ≠ .swings tail)
    (hpc' : ∀ tail, pc' ≠ .swings tail) (sawEmpty : Bool) :
    (CallAt.put new pc').atomic sawEmpty = (CallAt.put new pc).atomic sawEmpty := by
  have hputting : ∀ a (pc : PutAt α), (∀ tail, pc ≠ .swings tail) →
      (CallAt.put (.item a) pc).atomic sawEmpty = .putting (.item a) := by
    intro a pc hpc
    cases pc with
    | swings tail => exact absurd rfl (hpc tail)
    | _ => rfl
  cases new with
  | divider => rfl
  | item a => rw [hputting a pc hpc, hputting a pc' hpc']

/-- A put goes on. -/
theorem quiet_put (h : s.forget.Holds nodes seen) (h' : s'.forget.Holds nodes' seen')
    {new : MsNode α} {pc pc' : PutAt α} (hpc : s.calls i = .put new pc)
    (hcalls : s'.calls = Function.update s.calls i (.put new pc')) (hlinks : s'.links = s.links)
    (hhead : s'.root.head = s.root.head) (hsure : (CallAt.put new pc').Sure s.links)
    (hgoes : ∀ tail, pc ≠ .swings tail) (hgoes' : ∀ tail, pc' ≠ .swings tail) :
    CallMoved i s s' nodes nodes' ∧ CallKept i s s' := by
  refine quiet_moved h h' hcalls hlinks hhead hsure (fun sawEmpty => ?_) ?_ (by simp)
  · rw [hpc]
    exact atomic_put hgoes hgoes' sawEmpty
  · rw [hpc]
    cases new with
    | divider => rfl
    | item a =>
        cases pc with
        | swings tail => exact absurd rfl (hgoes tail)
        | _ => rfl

/-- A step of `msqueue_put`. -/
theorem put_moved (h : s.forget.Holds nodes seen) (h' : s'.forget.Holds nodes' seen')
    (hsure : (s.calls i).Sure s.links) (hreuse : s.noReuse (.step i))
    (hstep : s.step (.step i) = .ok s') {new : MsNode α} {pc : PutAt α}
    (hpc : s.calls i = .put new pc) : CallMoved i s s' nodes nodes' ∧ CallKept i s s' := by
  obtain ⟨root, links, call, hcall, hroot, hlinks, hcalls, -, -⟩ := msqueueStep_parts hstep
  have hat := h.calls i
  have hi : s'.calls i = call := by rw [hcalls, Function.update_self]
  simp only [MsqueueCalls.noReuse] at hreuse
  have hpc' : s.forget.calls i = .put new pc := hpc
  rw [hpc'] at hat
  rw [hpc] at hcall hsure hreuse
  cases pc with
  | reads =>
      obtain ⟨next, hnext, hcall⟩ := bind_eq_ok.1 hcall
      have hload : s.links new = some next := by
        unfold loadNext at hnext
        split at hnext
        · rename_i hload
          rw [← Except.ok.inj hnext]
          exact hload
        · cases hnext
      cases Except.ok.inj hcall
      exact quiet_put h h' hpc hcalls hlinks (by rw [hroot]) hload (by simp) (by simp)
  | clears next =>
      obtain ⟨⟨swapped, links⟩, hcas, hcall⟩ := bind_eq_ok.1 hcall
      obtain ⟨n, next, hn, hnext, ⟨rfl, rfl, rfl⟩ | ⟨hne, rfl, rfl⟩⟩ := casNext_cases hcas
      · cases hn
        cases Except.ok.inj hcall
        have hown : (s.calls i).owns = some new := by rw [hpc]; rfl
        refine ⟨.quiet ?_ ?_ ?_ (by simp [hi]), ⟨by rw [hi]; trivial, fun j hj n hn => ?_⟩⟩
        · rw [hi, hpc]
          cases new <;> exact fun _ => rfl
        · rw [own_nodes h h' hown hlinks (by rw [hroot])]
        · rw [hpc, hi]
          cases new <;> rfl
        · rw [hlinks, Function.update_of_ne (h.ne_of_owns hown hn hj)]
      · cases hcall
  | tail =>
      cases Except.ok.inj hcall
      exact quiet_put h h' hpc hcalls hlinks (by rw [hroot]) trivial (by simp) (by simp)
  | next tail =>
      obtain ⟨next, hnext, hcall⟩ := bind_eq_ok.1 hcall
      cases Except.ok.inj hcall
      exact quiet_put h h' hpc hcalls hlinks (by rw [hroot]) trivial (by simp) (by simp)
  | tests tail next =>
      simp only [callStep] at hcall
      split at hcall
      · cases Except.ok.inj hcall
        exact quiet_put h h' hpc hcalls hlinks (by rw [hroot]) trivial (by simp) (by simp)
      · split at hcall
        · cases Except.ok.inj hcall
          exact quiet_put h h' hpc hcalls hlinks (by rw [hroot]) trivial (by simp) (by simp)
        · cases Except.ok.inj hcall
          exact quiet_put h h' hpc hcalls hlinks (by rw [hroot]) trivial (by simp) (by simp)
  | links tail =>
      obtain ⟨⟨swapped, links⟩, hcas, hcall⟩ := bind_eq_ok.1 hcall
      obtain ⟨hnew, t, ht, rfl⟩ := hat
      obtain ⟨n, next, hn, hnext, ⟨rfl, rfl, rfl⟩ | ⟨hne, rfl, rfl⟩⟩ := casNext_cases hcas
      · cases hn
        cases Except.ok.inj hcall
        have hnobody : ∀ j, (s.calls j).owns ≠ some t := fun j hj =>
          hreuse (by rw [load, hnext]) j (by rw [hj]; rfl)
        have hnodes := link_nodes h h' (by rw [hpc]; rfl) hnew ht hnext hnobody hlinks (by rw [hroot])
        have hkept : CallKept i s s' := by
          refine ⟨by rw [hi]; trivial, fun j _ n hn => ?_⟩
          rw [hlinks, Function.update_of_ne]
          intro heq
          exact hnobody j (heq ▸ hn)
        -- the swap of the last node's `next` is the moment of the put, and the divider is no item
        cases new with
        | divider =>
            refine ⟨.quiet (fun _ => by rw [hi, hpc]; rfl) ?_ (by rw [hpc, hi]; rfl) (by simp [hi]), hkept⟩
            rw [hnodes, elements_append, elements_divider]
            exact List.append_nil _
        | item a =>
            refine ⟨.linked a (.node t) hpc hi ?_, hkept⟩
            rw [hnodes, elements_append, elements_item]
            rfl
      · cases Except.ok.inj hcall
        exact quiet_put h h' hpc hcalls hlinks (by rw [hroot]) trivial (by simp) (by simp)
  | helps tail next =>
      cases Except.ok.inj hcall
      exact quiet_put h h' hpc hcalls hlinks (by rw [hroot]) trivial (by simp) (by simp)
  | swings tail =>
      cases new with
      | divider =>
          cases Except.ok.inj hcall
          exact quiet_moved h h' hcalls hlinks (by rw [hroot]) trivial (fun _ => by rw [hpc]; rfl)
            (by rw [hpc]; rfl) (by simp)
      | item a =>
          cases Except.ok.inj hcall
          exact ⟨.putReturned a tail hpc hi (same_nodes h h' hlinks (by rw [hroot])),
            by rw [hi]; trivial, fun _ _ _ _ => by rw [hlinks]⟩

/-- A step of `msqueue_get`. -/
theorem get_moved (h : s.forget.Holds nodes seen) (h' : s'.forget.Holds nodes' seen')
    (hsure : (s.calls i).Sure s.links) (hreuse : s.noReuse (.step i))
    (hstep : s.step (.step i) = .ok s') {pc : GetAt α}
    (hpc : s.calls i = .get pc) : CallMoved i s s' nodes nodes' ∧ CallKept i s s' := by
  obtain ⟨root, links, call, hcall, hroot, hlinks, hcalls, -, hmoved⟩ := msqueueStep_parts hstep
  have hi : s'.calls i = call := by rw [hcalls, Function.update_self]
  simp only [MsqueueCalls.noReuse] at hreuse
  rw [hpc] at hcall hsure hreuse
  -- the chain is never empty, so that the head is a node
  have hhead : ∃ n, s.root.head = .node n := by
    obtain ⟨t, ht, _⟩ := h.tail
    have hchain := h.chain
    cases nodes with
    | nil => cases ht
    | cons n rest => exact ⟨n, hchain.1⟩
  have hquiet : ∀ {pc' : GetAt α}, call = .get pc' → s'.links = s.links →
      s'.root.head = s.root.head → (CallAt.get pc').Sure s.links →
      (∀ sawEmpty, (CallAt.get pc').atomic sawEmpty = (CallAt.get pc).atomic sawEmpty) →
      (∀ head tail next, pc' ≠ .tests head tail next) →
      CallMoved i s s' nodes nodes' ∧ CallKept i s s' := by
    intro pc' hcall hlinks hhead hsure hatomic htests
    refine quiet_moved h h' (hcall ▸ hcalls) hlinks hhead hsure ?_ ?_ ?_
    · rw [hpc]
      exact hatomic
    · rw [hpc]
      rfl
    · intro head tail next heq
      exact htests head tail next (CallAt.get.inj heq)
  cases pc with
  | head =>
      cases Except.ok.inj hcall
      exact hquiet rfl hlinks (by rw [hroot]) hhead (fun _ => rfl) (by simp)
  | tail head =>
      cases Except.ok.inj hcall
      exact hquiet rfl hlinks (by rw [hroot]) hsure (fun _ => rfl) (by simp)
  | next head tail =>
      obtain ⟨next, hnext, hcall⟩ := bind_eq_ok.1 hcall
      cases Except.ok.inj hcall
      have hload : load s.links head = some next := by
        unfold loadNext at hnext
        split at hnext
        · rename_i hload
          rw [hload, Except.ok.inj hnext]
        · cases hnext
      obtain ⟨hmoved, hapart⟩ := hmoved head tail hpc
      exact ⟨.looked head tail next hpc hi hload hmoved hapart
        (same_nodes h h' hlinks (by rw [hroot])), by rw [hi]; trivial, fun _ _ _ _ => by rw [hlinks]⟩
  | tests head tail next =>
      simp only [callStep] at hcall
      split at hcall
      · cases Except.ok.inj hcall
        exact hquiet rfl hlinks (by rw [hroot]) trivial (fun _ => rfl) (by simp)
      · rename_i hsame
        split at hcall
        · rename_i htail
          subst htail
          split at hcall
          · rename_i hnext
            subst hnext
            cases Except.ok.inj hcall
            have hfirst := (not_not.1 hsame).symm
            exact ⟨.emptyReturned head hpc hi hfirst (hreuse hfirst rfl rfl)
              (same_nodes h h' hlinks (by rw [hroot])), by rw [hi]; trivial,
              fun _ _ _ _ => by rw [hlinks]⟩
          · cases Except.ok.inj hcall
            exact hquiet rfl hlinks (by rw [hroot]) trivial (fun _ => rfl) (by simp)
        · cases Except.ok.inj hcall
          exact hquiet rfl hlinks (by rw [hroot]) trivial (fun _ => rfl) (by simp)
  | helps tail next =>
      cases Except.ok.inj hcall
      exact hquiet rfl hlinks (by rw [hroot]) trivial (fun _ => rfl) (by simp)
  | takes head next =>
      simp only [callStep, casRoot] at hcall
      by_cases heq : s.root.head = head
      · obtain ⟨-, hload⟩ := hreuse heq
        obtain ⟨n, hn⟩ := hhead
        simp only [if_pos heq, if_true] at hcall
        rw [← heq] at hload
        rw [← heq, hn] at hcall
        -- the swap of the head is the moment of the get, and the divider goes back to the queue
        cases n with
        | divider =>
            cases Except.ok.inj hcall
            have hnodes := take_nodes h h' hn hload hlinks (by rw [hroot])
            refine ⟨.quiet (fun _ => by rw [hi, hpc]; rfl) ?_ (by rw [hpc, hi]; rfl) (by simp [hi]),
              by rw [hi]; trivial, fun _ _ _ _ => by rw [hlinks]⟩
            rw [hnodes, elements_divider]
        | item a =>
            cases Except.ok.inj hcall
            have hnodes := take_nodes h h' hn hload hlinks (by rw [hroot])
            refine ⟨.taken a head next hpc hi ?_, ?_, fun _ _ _ _ => by rw [hlinks]⟩
            · rw [hnodes, elements_item]
            · rw [hi, hlinks]
              rw [hn] at hload
              exact hload
      · simp only [if_neg heq, Bool.false_eq_true, if_false] at hcall
        cases Except.ok.inj hcall
        exact hquiet rfl hlinks (by rw [hroot]) trivial (fun _ => rfl) (by simp)
  | poisons a next =>
      obtain ⟨⟨swapped, links⟩, hcas, hcall⟩ := bind_eq_ok.1 hcall
      obtain ⟨n, next, hn, hnext, ⟨rfl, rfl, rfl⟩ | ⟨hne, rfl, rfl⟩⟩ := casNext_cases hcas
      · cases hn
        cases Except.ok.inj hcall
        have hown : (s.calls i).owns = some (.item a) := by rw [hpc]; rfl
        refine ⟨.getReturned a next hpc hi (own_nodes h h' hown hlinks (by rw [hroot])),
          by rw [hi]; trivial, fun j hj n hn => ?_⟩
        rw [hlinks, Function.update_of_ne (h.ne_of_owns hown hn hj)]
      · cases hcall

/-- **What one step of a thread is.** -/
theorem call_moved (h : s.forget.Holds nodes seen) (h' : s'.forget.Holds nodes' seen')
    (hsure : (s.calls i).Sure s.links) (hreuse : s.noReuse (.step i))
    (hstep : s.step (.step i) = .ok s') : CallMoved i s s' nodes nodes' ∧ CallKept i s s' := by
  cases hpc : s.calls i with
  | put new pc => exact put_moved h h' hsure hreuse hstep hpc
  | get pc => exact get_moved h h' hsure hreuse hstep hpc
  | idle =>
      obtain ⟨root, links, call, hcall, hroot, hlinks, hcalls, -, -⟩ := msqueueStep_parts hstep
      rw [hpc] at hcall
      cases Except.ok.inj hcall
      exact quiet_moved h h' hcalls hlinks (by rw [hroot]) trivial (fun _ => by rw [hpc])
        (by rw [hpc]; rfl) (by simp)
  | returned head =>
      obtain ⟨root, links, call, hcall, hroot, hlinks, hcalls, -, -⟩ := msqueueStep_parts hstep
      rw [hpc] at hcall
      cases Except.ok.inj hcall
      exact quiet_moved h h' hcalls hlinks (by rw [hroot]) trivial (fun _ => by rw [hpc])
        (by rw [hpc]; rfl) (by simp)

omit [DecidableEq ι] in
/-- A CAS of the link of a node goes through, and succeeds if it finds what it expects. -/
theorem casNext_total {n : MsNode α} {next : Ptr (MsNode α)} (hn : links n = some next)
    (old new : Ptr (MsNode α)) : ∃ swapped links', casNext links (.node n) old new
      = .ok (swapped, links') ∧ (links n = some old → swapped = true) := by
  by_cases heq : next = old
  · subst heq
    exact ⟨true, _, casNext_same hn new, fun _ => rfl⟩
  · refine ⟨false, links, ?_, fun hold => absurd (Option.some.inj (hn.symm.trans hold)) heq⟩
    unfold casNext
    rw [loadNext_node hn]
    simp only [bind, Except.bind, if_neg heq]
    rfl

/-- **No call aborts or follows a bad pointer.** -/
theorem callStep_total (h : s.forget.Holds nodes seen) (hsure : (s.calls i).Sure s.links) :
    ∃ s', s.step (.step i) = .ok s' := by
  have hat := h.calls i
  have hforget : s.forget.calls i = s.calls i := rfl
  have hnode : ∀ n, ∃ next, s.links n = some next := fun n => Option.isSome_iff_exists.1 (h.memory n)
  suffices hcall : ∃ after, callStep s.root s.links (s.calls i) = .ok after by
    obtain ⟨⟨root, links, call⟩, hcall⟩ := hcall
    exact ⟨_, by simp only [MsqueueCalls.step, hcall]; rfl⟩
  rw [hforget] at hat
  cases hpc : s.calls i with
  | idle => exact ⟨_, rfl⟩
  | returned head => exact ⟨_, rfl⟩
  | put new pc =>
      rw [hpc] at hat hsure
      cases pc with
      | reads =>
          obtain ⟨next, hnext⟩ := hnode new
          exact ⟨_, bind_eq_ok.2 ⟨next, loadNext_node hnext, rfl⟩⟩
      | clears next =>
          obtain ⟨swapped, links, hcas, htrue⟩ := casNext_total (show s.links new = some next from hsure)
            next .null
          obtain rfl := htrue hsure
          exact ⟨_, bind_eq_ok.2 ⟨(true, links), hcas, rfl⟩⟩
      | tail => exact ⟨_, rfl⟩
      | next tail =>
          obtain ⟨_, t, _, rfl⟩ := hat
          obtain ⟨next, hnext⟩ := hnode t
          exact ⟨_, bind_eq_ok.2 ⟨next, loadNext_node hnext, rfl⟩⟩
      | tests tail next =>
          simp only [callStep]
          split
          · exact ⟨_, rfl⟩
          · split <;> exact ⟨_, rfl⟩
      | links tail =>
          obtain ⟨_, t, _, rfl⟩ := hat
          obtain ⟨next, hnext⟩ := hnode t
          obtain ⟨swapped, links, hcas, _⟩ := casNext_total hnext .null (.node new)
          exact ⟨_, bind_eq_ok.2 ⟨(swapped, links), hcas, rfl⟩⟩
      | helps tail next => exact ⟨_, rfl⟩
      | swings tail => exact ⟨_, rfl⟩
  | get pc =>
      rw [hpc] at hat hsure
      cases pc with
      | head => exact ⟨_, rfl⟩
      | tail head => exact ⟨_, rfl⟩
      | next head tail =>
          obtain ⟨n, rfl⟩ := hsure
          obtain ⟨next, hnext⟩ := hnode n
          exact ⟨_, bind_eq_ok.2 ⟨next, loadNext_node hnext, rfl⟩⟩
      | tests head tail next =>
          simp only [callStep]
          split
          · exact ⟨_, rfl⟩
          · split
            · split <;> exact ⟨_, rfl⟩
            · exact ⟨_, rfl⟩
      | helps tail next => exact ⟨_, rfl⟩
      | takes head next =>
          simp only [callStep, casRoot]
          by_cases heq : s.root.head = head
          · obtain ⟨t, ht, _⟩ := h.tail
            have hchain := h.chain
            cases nodes with
            | nil => cases ht
            | cons n rest =>
                have hhead : s.root.head = .node n := hchain.1
                simp only [← heq, hhead]
                cases n <;> exact ⟨_, rfl⟩
          · simp only [if_neg heq]
            exact ⟨_, rfl⟩
      | poisons a next =>
          obtain ⟨swapped, links, hcas, htrue⟩ :=
            casNext_total (show s.links (.item a) = some next from hsure) next .poison
          obtain rfl := htrue hsure
          exact ⟨_, bind_eq_ok.2 ⟨(true, links), hcas, rfl⟩⟩

/-! ## The atomic queue behind it -/

/-- The atomic queue that the calls are calls of. -/
structure Linear (strict : Bool) (s : MsqueueCalls ι α) (t : AtomicQueue ι (MsNode α))
    (sawEmpty : ι → Bool) (nodes : List (MsNode α)) (seen : Set (MsNode α)) : Prop where
  holds : s.forget.Holds nodes seen
  sure : ∀ j, (s.calls j).Sure s.links
  queue : t.queue = elements nodes
  calls : t.calls = fun j => (s.calls j).atomic (sawEmpty j)
  /-- A get that is about to say that there is nothing has looked at an empty queue. -/
  looked : strict = true → ∀ j head, s.calls j = .get (.tests head head .null) →
    s.moved j = false → s.apart j = false → sawEmpty j = true

omit [DecidableEq α] in
theorem atomic_update (calls : ι → CallAt α) (sawEmpty : ι → Bool) (i : ι) (call : CallAt α)
    (b : Bool) : (fun j => (Function.update calls i call j).atomic (Function.update sawEmpty i b j))
      = Function.update (fun j => (calls j).atomic (sawEmpty j)) i (call.atomic b) := by
  funext j
  by_cases hj : j = i
  · subst hj
    simp only [Function.update_self]
  · simp only [Function.update_of_ne hj]

omit [DecidableEq ι] in
/-- When the first node has no successor and nobody has the divider in hand, the chain is
the divider. -/
theorem MsqueueCalls.Holds.alone (h : s.Holds nodes seen)
    (hnull : load s.links s.root.head = some .null)
    (hdivider : ∀ j, (s.calls j).owns ≠ some .divider) : elements nodes = [] := by
  have hchain := h.chain
  cases nodes with
  | nil => rfl
  | cons n rest =>
      obtain ⟨hhead, next, hnext, hrest⟩ := hchain
      rw [hhead, load, hnext] at hnull
      cases hnull
      obtain rfl : rest = [] := Chain.det (show Chain s.links .null rest from hrest) rfl
      obtain rfl := List.mem_singleton.1 (h.hands.divider.resolve_right fun hex => hex.elim hdivider)
      rfl

variable {strict : Bool} {t : AtomicQueue ι (MsNode α)} {sawEmpty : ι → Bool}
  {es : List (QueueEvent ι (MsNode α))}

/-- One thread's call goes on, and with it the call of the atomic queue. -/
theorem Linear.moved (h : Linear strict s t sawEmpty nodes seen) (h' : s'.forget.Holds nodes' seen')
    (hcalls : s'.calls = Function.update s.calls i call) (hkept : CallKept i s s')
    (hmoved : ∀ j, j ≠ i → s'.moved j = s.moved j ∧ s'.apart j = s.apart j) (b : Bool)
    (hlooked : strict = true → ∀ head, call = .get (.tests head head .null) →
      s'.moved i = false → s'.apart i = false → b = true) :
    Linear strict s' ({ t with queue := elements nodes' }.setCall i (call.atomic b))
      (Function.update sawEmpty i b) nodes' seen' := by
  refine ⟨h', fun j => ?_, rfl, ?_, fun hstrict j head hj hm ha => ?_⟩
  · by_cases hj : j = i
    · exact hj ▸ hkept.sure
    · rw [hcalls, Function.update_of_ne hj]
      exact (h.sure j).frame (hkept.hands j hj)
  · show Function.update t.calls i (call.atomic b) = _
    rw [hcalls, atomic_update, h.calls]
  · by_cases hji : j = i
    · subst hji
      rw [hcalls, Function.update_self] at hj
      rw [Function.update_self]
      exact hlooked hstrict head hj hm ha
    · rw [hcalls, Function.update_of_ne hji] at hj
      rw [Function.update_of_ne hji]
      exact h.looked hstrict j head hj ((hmoved j hji).1 ▸ hm) ((hmoved j hji).2 ▸ ha)

/-- A step that nothing can be seen of. -/
theorem Linear.quiet (h : Linear strict s t sawEmpty nodes seen) (h' : s'.forget.Holds nodes' seen')
    (hcalls : s'.calls = Function.update s.calls i call) (hkept : CallKept i s s')
    (hmoved : ∀ j, j ≠ i → s'.moved j = s.moved j ∧ s'.apart j = s.apart j)
    (hatomic : call.atomic (sawEmpty i) = (s.calls i).atomic (sawEmpty i))
    (helements : elements nodes' = elements nodes)
    (hlooked : strict = true → ∀ head, call = .get (.tests head head .null) →
      s'.moved i = false → s'.apart i = false → sawEmpty i = true) :
    Linear strict s' t sawEmpty nodes' seen' := by
  have hlinear := h.moved h' hcalls hkept hmoved (sawEmpty i) hlooked
  have hqueue : elements nodes' = t.queue := helements.trans h.queue.symm
  have hcall : Function.update t.calls i (call.atomic (sawEmpty i)) = t.calls := by
    rw [hatomic, h.calls]
    exact Function.update_eq_self i _
  have hsame : ({ t with queue := elements nodes' } : AtomicQueue ι (MsNode α)).setCall i
      (call.atomic (sawEmpty i)) = t := by
    rw [hqueue, AtomicQueue.setCall, hcall]
  rw [hsame, Function.update_eq_self] at hlinear
  exact hlinear

/-- A step of a thread. -/
theorem Linear.goesOn (h : Linear strict s t sawEmpty nodes seen) (hreuse : s.noReuse (.step i))
    (hdivider : strict = true → s.dividerLinked (.step i)) (hstep : s.step (.step i) = .ok s') :
    ∃ t' sawEmpty' nodes' seen', Traced (AtomicStep strict) t (s.seen s' (.step i)) t' ∧
      Linear strict s' t' sawEmpty' nodes' seen' := by
  obtain ⟨nodes', seen', h'⟩ := h.holds.act_forget (a := .step i) trivial hreuse hstep
  obtain ⟨hcall, hkept⟩ := call_moved h.holds h' (h.sure i) hreuse hstep
  obtain ⟨root, links, call, -, -, -, hcalls, hmoved, -⟩ := msqueueStep_parts hstep
  have hi : s'.calls i = call := by rw [hcalls, Function.update_self]
  have hcallAt : t.calls i = (s.calls i).atomic (sawEmpty i) := by rw [h.calls]
  have hseen : s.seen s' (.step i) = callSeen i (s.calls i) call := by rw [← hi]; rfl
  rw [hseen]
  cases hcall with
  | quiet hatomic helements hnone htests =>
      rw [hi] at hatomic hnone htests
      refine ⟨t, sawEmpty, nodes', seen', ?_,
        h.quiet h' hcalls hkept hmoved (hatomic _) helements fun _ head heq => absurd heq (htests _ _ _)⟩
      rw [hnone]
      exact .refl
  | looked head tail next hpc hpc' hload hmoved' hapart' hnodes =>
      subst hnodes
      obtain rfl : call = .get (.tests head tail next) := hi.symm.trans hpc'
      rw [hpc] at hcallAt ⊢
      by_cases hempty : next = .null ∧ s.root.head = head ∧ s.outside = false
      · obtain ⟨rfl, hhead, houtside⟩ := hempty
        -- the moment at which there is nothing
        have hnothing := h.holds.alone (hhead ▸ hload) fun j hj => by
          have hout : s.outside = true := h.holds.outside j hj
          rw [houtside] at hout
          cases hout
        have hlinear := h.moved h' hcalls hkept hmoved true fun _ _ _ _ _ => rfl
        rw [← h.queue] at hlinear
        exact ⟨_, _, _, _, .single (.look i _ hcallAt (h.queue.trans hnothing)), hlinear⟩
      -- a node follows, or the head has moved: the call does not end with this read
      · refine ⟨t, sawEmpty, nodes', seen', .refl,
          h.quiet h' hcalls hkept hmoved (by rw [hpc]; rfl) rfl fun hstrict head' heq hm ha => ?_⟩
        cases heq
        rw [hmoved'] at hm
        exact absurd ⟨rfl, by simpa using hm, hapart'.symm.trans ha⟩ hempty
  | linked a tail hpc hpc' helements =>
      obtain rfl : call = .put (.item a) (.swings tail) := hi.symm.trans hpc'
      rw [hpc] at hcallAt ⊢
      have hlinear := h.moved h' hcalls hkept hmoved (sawEmpty i) fun _ _ heq => by cases heq
      rw [helements, ← h.queue] at hlinear
      exact ⟨_, _, _, _, .single (.put i _ hcallAt), hlinear⟩
  | taken a head next hpc hpc' helements =>
      obtain rfl : call = .get (.poisons a next) := hi.symm.trans hpc'
      rw [hpc] at hcallAt ⊢
      have hlinear := h.moved h' hcalls hkept hmoved (sawEmpty i) fun _ _ heq => by cases heq
      exact ⟨_, _, _, _, .single (.get i _ _ _ hcallAt (h.queue.trans helements)), hlinear⟩
  | putReturned a tail hpc hpc' hnodes =>
      subst hnodes
      obtain rfl : call = .idle := hi.symm.trans hpc'
      rw [hpc] at hcallAt ⊢
      have hlinear := h.moved h' hcalls hkept hmoved (sawEmpty i) fun _ _ heq => by cases heq
      rw [← h.queue] at hlinear
      exact ⟨_, _, _, _, .single (.returnPut i hcallAt), hlinear⟩
  | getReturned a next hpc hpc' hnodes =>
      subst hnodes
      obtain rfl : call = .returned (some (.item a)) := hi.symm.trans hpc'
      rw [hpc] at hcallAt ⊢
      have hlinear := h.moved h' hcalls hkept hmoved (sawEmpty i) fun _ _ heq => by cases heq
      rw [← h.queue] at hlinear
      exact ⟨_, _, _, _, .single (.returnGet i _ hcallAt), hlinear⟩
  | emptyReturned head hpc hpc' hhead hm hnodes =>
      subst hnodes
      obtain rfl : call = .returned none := hi.symm.trans hpc'
      have hsaw : strict = true → sawEmpty i = true := fun hstrict => by
        have hlinked := hdivider hstrict
        simp only [MsqueueCalls.dividerLinked, hpc] at hlinked
        exact h.looked hstrict i head hpc hm (hlinked hhead trivial trivial)
      rw [hpc] at hcallAt ⊢
      have hlinear := h.moved h' hcalls hkept hmoved (sawEmpty i) fun _ _ heq => by cases heq
      rw [← h.queue] at hlinear
      exact ⟨_, _, _, _, .single (.returnEmpty i _ hcallAt hsaw), hlinear⟩

/-- A thread calls one of the functions. -/
theorem Linear.called (h : Linear strict s t sawEmpty nodes seen) (h' : s'.forget.Holds nodes' seen')
    (hfree : (s.calls i).free = true) (hcalls : s'.calls = Function.update s.calls i call)
    (hlinks : s'.links = s.links) (hroot : s'.root = s.root)
    (hmoved : s'.moved = s.moved ∧ s'.apart = s.apart) (hsure : call.Sure s.links)
    (htests : ∀ head tail next, call ≠ .get (.tests head tail next)) (b : Bool) :
    t.calls i = .idle ∧ Linear strict s' (t.setCall i (call.atomic b))
      (Function.update sawEmpty i b) nodes' seen' := by
  have hidle : t.calls i = .idle := by
    rw [congrFun h.calls i]
    cases hpc : s.calls i with
    | idle => rfl
    | returned head => rfl
    | put new pc => rw [hpc] at hfree; cases hfree
    | get pc => rw [hpc] at hfree; cases hfree
  have hkept : CallKept i s s' := by
    refine ⟨?_, fun _ _ _ _ => by rw [hlinks]⟩
    rw [hcalls, Function.update_self, hlinks]
    exact hsure
  have hlinear := h.moved h' hcalls hkept (fun j _ => by rw [hmoved.1, hmoved.2]; exact ⟨rfl, rfl⟩) b
    fun _ head heq => absurd heq (htests _ _ _)
  rw [same_nodes h.holds h' hlinks (by rw [hroot]), ← h.queue] at hlinear
  rw [← same_nodes h.holds h' hlinks (by rw [hroot])] at hlinear
  exact ⟨hidle, hlinear⟩

/-- **Every act is matched.** -/
theorem Linear.step (h : Linear strict s t sawEmpty nodes seen) (hstep : MsqueueStep strict s es s') :
    ∃ t' sawEmpty' nodes' seen', Traced (AtomicStep strict) t es t' ∧
      Linear strict s' t' sawEmpty' nodes' seen' := by
  obtain ⟨a, hmay, hreuse, hdivider, hact, rfl⟩ := hstep
  cases a with
  | put i a =>
      obtain ⟨nodes', seen', h'⟩ := h.holds.act_forget hmay hreuse hact
      cases Except.ok.inj hact
      obtain ⟨hidle, hlinear⟩ := h.called h' hmay.1 rfl rfl rfl ⟨rfl, rfl⟩ trivial (by simp) (sawEmpty i)
      exact ⟨_, _, _, _, .single (.callPut i _ hidle), hlinear⟩
  | get i =>
      obtain ⟨nodes', seen', h'⟩ := h.holds.act_forget hmay hreuse hact
      cases Except.ok.inj hact
      obtain ⟨hidle, hlinear⟩ := h.called h' hmay rfl rfl rfl ⟨rfl, rfl⟩ trivial (by simp) false
      exact ⟨_, _, _, _, .single (.callGet i hidle), hlinear⟩
  | step i => exact h.goesOn hreuse hdivider hact

omit [DecidableEq ι] in
theorem linear_init {links : Links (MsNode α)} (hlinks : ∀ n, (links n).isSome) :
    Linear strict (MsqueueCalls.init links : MsqueueCalls ι α) .init (fun _ => false)
      [.divider] {.divider} where
  holds :=
    have h : (MsqueueCalls.init links : MsqueueCalls ι α).Holds [.divider] {.divider} :=
      calls_holds_init hlinks
    { h with calls := fun _ => trivial }
  sure := fun _ => trivial
  queue := rfl
  calls := rfl
  looked := fun _ _ _ h => by cases h

theorem linear_of_traced {links : Links (MsNode α)} (hlinks : ∀ n, (links n).isSome)
    (hr : Traced (MsqueueStep strict) (MsqueueCalls.init links) es s) :
    ∃ t, Traced (AtomicStep strict) .init es t ∧ ∃ sawEmpty nodes seen,
      Linear strict s t sawEmpty nodes seen := by
  refine hr.simulates (R := fun s t => ∃ sawEmpty nodes seen, Linear strict s t sawEmpty nodes seen)
    ?_ ⟨_, _, _, linear_init hlinks⟩
  intro s es s' t h hstep
  obtain ⟨sawEmpty, nodes, seen, h⟩ := h
  obtain ⟨t', sawEmpty', nodes', seen', htraced, h'⟩ := h.step hstep
  exact ⟨t', htraced, sawEmpty', nodes', seen', h'⟩

/--
**The queue of domains is linearizable.** In every run without reuse of any number of
threads, no call aborts or follows a bad pointer, and what is seen of the calls is what is
seen of an atomic queue, which holds what the chain from `head` holds but the divider. What
was put is answered once, or waits in the chain, or is in the hands of one thread. In a strict
run an answer that there is nothing has been true in the call.
-/
theorem msqueue_linearizable [Fintype ι] (links : Links (MsNode α))
    (hlinks : ∀ n, (links n).isSome) (strict : Bool) (s : MsqueueCalls ι α)
    (es : List (QueueEvent ι (MsNode α)))
    (hr : Traced (MsqueueStep strict) (MsqueueCalls.init links) es s) :
    (∀ i, ∃ s', s.step (.step i) = .ok s') ∧
    ∃ (t : AtomicQueue ι (MsNode α)) (nodes : List (MsNode α)) (sawEmpty : ι → Bool),
      Traced (AtomicStep strict) .init es t ∧
      (∀ j, t.calls j = (s.calls j).atomic (sawEmpty j)) ∧
      Chain s.links s.root.head nodes ∧ t.queue = elements nodes ∧
      (puts es : Multiset (MsNode α))
        = answers es + elements nodes + ∑ j, ((s.calls j).atomic (sawEmpty j)).held := by
  obtain ⟨t, htraced, sawEmpty, nodes, seen, h⟩ := linear_of_traced hlinks hr
  have hbalanced := balanced_of_traced htraced
  rw [AtomicQueue.Balanced, h.queue, h.calls] at hbalanced
  exact ⟨fun i => callStep_total h.holds (h.sure i), t, nodes, sawEmpty, htraced,
    fun j => congrFun h.calls j, h.holds.chain, h.queue, hbalanced⟩

end

/-- A run whose acts meet the condition has a trace. -/
theorem traced_of_runs {s s' : MsqueueCalls ι α}
    (hr : Runs MsqueueCalls.step (fun s a => s.mayCall a ∧ s.noReuse a ∧ s.dividerLinked a) s s') :
    ∃ es, Traced (MsqueueStep true) s es s' := by
  induction hr with
  | refl => exact ⟨[], .refl⟩
  | tail _ hact ih =>
      obtain ⟨es, htraced⟩ := ih
      obtain ⟨a, ⟨hmay, hreuse, hdivider⟩, hstep⟩ := hact
      exact ⟨_, htraced.tail ⟨a, hmay, hreuse, fun _ => hdivider, hstep, rfl⟩⟩

/-- A thread puts an element and takes it while another one finds the queue empty. -/
theorem msqueue_linearizable_two : ∃ (s : MsqueueCalls (Fin 2) Nat)
    (es : List (QueueEvent (Fin 2) (MsNode Nat))) (t : AtomicQueue (Fin 2) (MsNode Nat)),
    s.calls 0 = .returned (some (.item 7)) ∧ s.calls 1 = .returned none ∧
      Traced (MsqueueStep true) (MsqueueCalls.init (fun _ => some .null)) es s ∧
      Traced (AtomicStep true) .init es t ∧ (∀ i, ∃ s', s.step (.step i) = .ok s') := by
  obtain ⟨s, hr, hs⟩ := exists_run (show (runActs MsqueueCalls.step
    (fun s a => s.mayCall a ∧ s.noReuse a ∧ s.dividerLinked a)
    ([.put 0 7] ++ List.replicate 7 (.step 0) ++ [.get 0] ++ List.replicate 4 (.step 0) ++
      [.get 1] ++ List.replicate 9 (.step 0) ++ List.replicate 4 (.step 1) ++
      List.replicate 6 (.step 0) ++ List.replicate 8 (.step 1))
    (MsqueueCalls.init (fun _ => some .null) : MsqueueCalls (Fin 2) Nat)).any
      (fun s => decide (s.calls 0 = .returned (some (.item 7)) ∧ s.calls 1 = .returned none))
      = true by decide +kernel)
  obtain ⟨hzero, hone⟩ := of_decide_eq_true hs
  obtain ⟨es, htraced⟩ := traced_of_runs hr
  obtain ⟨htotal, t, nodes, sawEmpty, hatomic, -⟩ :=
    msqueue_linearizable (fun _ => some .null) (fun _ => rfl) true s es htraced
  exact ⟨s, es, t, hzero, hone, htraced, hatomic, htotal⟩

end Msock
