import Msock.Domain.Sends

/-!
# One process's mailbox

What a process does with its messages, apart from everything else in the domain:
`Mailbox` is the process, the message its callback holds, and what has happened to
messages so far; `Move` is the eight things that can happen. Every act of the domain is
a sequence of moves of each process's mailbox, so the two results about selective
receive are proved about moves.

One thing can go wrong. `queue_splice_prepend` onto an empty inbox leaves `last` NULL,
and then the next put overwrites `first`: the messages just moved back are lost. The
move `put` asks for an inbox that is whole.
-/

namespace Msock

open Lib

/-! ## The abstract mailbox -/

/-- A process and its messages. -/
structure Mailbox where
  /-- The process was not made yet. -/
  unborn : Bool
  process : Option Process
  /-- The message its callback was called with, and whether it has called `msock_receive`. -/
  handling : Option (Message × Bool)
  /-- All messages ever handed to it, presented to it, and finished with, in order. -/
  arrived : List Message
  presented : List Message
  consumed : List Message

/-- What happens to a mailbox; `msock_receive` only if `receives`. -/
inductive Move (receives : Prop) (m : Mailbox) : Mailbox → Prop
  | spawn (pid : Pid) (receiveCallback : Option Nat) : m.unborn = true →
      Move receives m { m with
        unborn := false
        process := some ⟨pid, Queue.init, Queue.init, receiveCallback⟩ }
  | put (process : Process) (msg : Message) : m.process = some process → process.inbox.Whole →
      Move receives m { m with
        process := some { process with inbox := (process.inbox.put msg).2 }
        arrived := m.arrived ++ [msg] }
  | present (process : Process) (msg : Message) (inbox : Queue Message) :
      m.process = some process → process.inbox.get = some (msg, inbox) → m.handling = none →
      Move receives m { m with
        process := some { process with inbox := inbox }
        handling := some (msg, false)
        presented := m.presented ++ [msg] }
  | consume (msg : Message) (received : Bool) : m.handling = some (msg, received) →
      Move receives m { m with handling := none, consumed := m.consumed ++ [msg] }
  | setAside (process : Process) (msg : Message) : m.process = some process →
      m.handling = some (msg, false) →
      Move receives m { m with
        process := some { process with badmatch := (process.badmatch.put msg).2 }
        handling := none }
  | receive (process : Process) (badmatch inbox : Queue Message) (receiveCallback : Option Nat) :
      receives → m.process = some process →
      process.badmatch.splicePrepend process.inbox = some (badmatch, inbox) →
      Move receives m { m with
        process := some ⟨process.pid, inbox, badmatch, receiveCallback⟩
        handling := m.handling.map (fun h => (h.1, true)) }
  | exit (process : Process) : m.process = some process →
      Move receives m { m with process := none }

/-- Several moves. -/
abbrev Moves (receives : Prop) : Mailbox → Mailbox → Prop :=
  Relation.ReflTransGen (Move receives)

section Mailboxes
variable {m m' : Mailbox} {receives receives' : Prop}

theorem Move.imp_receives (h : Move receives m m') (hr : receives → receives') :
    Move receives' m m' := by
  cases h with
  | spawn pid cb hb => exact .spawn pid cb hb
  | put process msg hp hw => exact .put process msg hp hw
  | present process msg inbox hp hget hh => exact .present process msg inbox hp hget hh
  | consume msg received hh => exact .consume msg received hh
  | setAside process msg hp hh => exact .setAside process msg hp hh
  | receive process badmatch inbox cb hre hp hs =>
      exact .receive process badmatch inbox cb (hr hre) hp hs
  | exit process hp => exact .exit process hp

theorem Moves.imp_receives (h : Moves receives m m') (hr : receives → receives') :
    Moves receives' m m' := by
  induction h with
  | refl => exact .refl
  | tail _ hm ih => exact ih.tail (hm.imp_receives hr)

/-- The message being handled. -/
def Mailbox.held (m : Mailbox) : List Message := (m.handling.map Prod.fst).toList

/-- The message being handled, as long as it may still be set aside. -/
def Mailbox.pending (m : Mailbox) : List Message :=
  match m.handling with
  | some (msg, false) => [msg]
  | _ => []

/-- Selective receive in order, for a process that has not exited. -/
structure Mailbox.Kept (m : Mailbox) (process : Process) : Prop where
  /-- A set-aside message is found through `last`. -/
  whole : process.badmatch.Whole
  /-- Every message that arrived is consumed, being handled, set aside, or in the inbox. -/
  accounted : m.arrived.Perm
    (m.consumed ++ m.held ++ process.badmatch.items ++ process.inbox.items)
  /-- What was set aside arrived first, and all of it in this order. -/
  ordered : (process.badmatch.items ++ m.pending ++ process.inbox.items).Sublist m.arrived

/-- The invariant of a mailbox. -/
structure Mailbox.Inv (m : Mailbox) : Prop where
  unborn : m.unborn = true →
    m.process = none ∧ m.handling = none ∧ m.arrived = [] ∧ m.consumed = []
  kept : ∀ process, m.process = some process → m.Kept process

theorem mailbox_move (hi : m.Inv) (h : Move receives m m') : m'.Inv := by
  have born : ∀ process, m.process = some process → m.unborn = false := by
    intro process hp
    cases hb : m.unborn with
    | false => rfl
    | true =>
        have := (hi.unborn hb).1
        rw [hp] at this
        cases this
  cases h with
  | spawn pid receiveCallback hb =>
      obtain ⟨_, hh, ha, hc⟩ := hi.unborn hb
      refine ⟨fun h => absurd h (by simp), fun process hp => ?_⟩
      obtain rfl := Option.some.inj hp
      refine ⟨Queue.whole_init, ?_, ?_⟩
      · simp [Mailbox.held, hh, ha, hc]
      · simp [Mailbox.pending, hh, ha]
  | put process msg hp hw =>
      refine ⟨fun h => absurd ((born process hp).symm.trans h) (by simp), fun process' hp' => ?_⟩
      obtain rfl := Option.some.inj hp'
      have hk := hi.kept process hp
      have hitems := (hw.put msg).1
      refine ⟨hk.whole, ?_, ?_⟩
      · simp only [hitems]
        rw [← List.append_assoc]
        exact hk.accounted.append_right [msg]
      · simp only [hitems]
        rw [← List.append_assoc]
        exact hk.ordered.append (List.Sublist.refl [msg])
  | present process msg inbox hp hget hh =>
      refine ⟨fun h => absurd ((born process hp).symm.trans h) (by simp), fun process' hp' => ?_⟩
      obtain rfl := Option.some.inj hp'
      have hk := hi.kept process hp
      obtain ⟨hitems, _⟩ := Queue.get_eq_some hget
      have hacc := hk.accounted
      have hord := hk.ordered
      rw [hitems] at hacc hord
      refine ⟨hk.whole, ?_, ?_⟩
      · simp only [Mailbox.held, hh, Option.map_none, Option.toList_none, List.append_nil,
          Option.map_some, Option.toList_some] at hacc ⊢
        refine hacc.trans ?_
        rw [List.append_assoc, List.append_assoc, List.append_assoc]
        refine List.Perm.append_left _ ?_
        exact List.perm_middle
      · simp only [Mailbox.pending, hh, List.append_nil] at hord ⊢
        simpa using hord
  | consume msg received hh =>
      refine ⟨fun h => ?_, fun process hp => ?_⟩
      · have := (hi.unborn h).2.1
        rw [hh] at this
        cases this
      · have hk := hi.kept process hp
        have hacc := hk.accounted
        refine ⟨hk.whole, ?_, ?_⟩
        · simp only [Mailbox.held, hh, Option.map_some, Option.toList_some] at hacc
          simpa [Mailbox.held] using hacc
        · refine List.Sublist.trans ?_ hk.ordered
          simp only [Mailbox.pending, List.append_nil]
          exact (List.sublist_append_left _ _).append (List.Sublist.refl _)
  | setAside process msg hp hh =>
      refine ⟨fun h => absurd ((born process hp).symm.trans h) (by simp), fun process' hp' => ?_⟩
      obtain rfl := Option.some.inj hp'
      have hk := hi.kept process hp
      have hitems := (hk.whole.put msg).1
      have hacc := hk.accounted
      have hord := hk.ordered
      refine ⟨Queue.whole_put _ _, ?_, ?_⟩
      · simp only [Mailbox.held, hh, Option.map_some, Option.toList_some] at hacc
        simp only [Mailbox.held, hitems, Option.map_none, Option.toList_none, List.append_nil]
        refine hacc.trans (List.Perm.append_right _ ?_)
        rw [List.append_assoc]
        exact List.Perm.append_left _ List.perm_append_comm
      · simp only [Mailbox.pending, hh] at hord
        simpa only [Mailbox.pending, hitems, List.append_nil] using hord
  | receive process badmatch inbox receiveCallback _ hp hsplice =>
      refine ⟨fun h => absurd ((born process hp).symm.trans h) (by simp), fun process' hp' => ?_⟩
      obtain rfl := Option.some.inj hp'
      have hk := hi.kept process hp
      obtain ⟨src, dst, hspec, hsrc, hdst, _⟩ := hk.whole.splicePrepend process.inbox
      obtain ⟨rfl, rfl⟩ : src = badmatch ∧ dst = inbox := by simpa [hspec] using hsplice
      have hheld : Mailbox.held { m with
          process := some ⟨process.pid, dst, src, receiveCallback⟩
          handling := m.handling.map (fun h => (h.1, true)) } = m.held := by
        unfold Mailbox.held
        cases m.handling <;> rfl
      refine ⟨fun h => absurd hsrc h, ?_, ?_⟩
      · rw [hheld]
        simp only [hsrc, hdst, List.append_nil]
        rw [← List.append_assoc]
        exact hk.accounted
      · refine List.Sublist.trans ?_ hk.ordered
        have hpend : Mailbox.pending { m with
            process := some ⟨process.pid, dst, src, receiveCallback⟩
            handling := m.handling.map (fun h => (h.1, true)) } = [] := by
          unfold Mailbox.pending
          cases m.handling <;> rfl
        rw [hpend]
        simp only [hsrc, hdst, List.append_nil, List.nil_append]
        exact (List.sublist_append_left _ _).append (List.Sublist.refl _)
  | exit process hp =>
      exact ⟨fun h => absurd ((born process hp).symm.trans h) (by simp), fun _ hp' => by cases hp'⟩

theorem mailbox_moves (hi : m.Inv) (h : Moves receives m m') : m'.Inv := by
  induction h with
  | refl => exact hi
  | tail _ hs ih => exact mailbox_move ih hs

/-! ## After `msock_receive` -/

/--
The mailbox `m` some moves after `start`, no `msock_receive` among them: whatever was
presented came off the front of the inbox, and whatever arrived went to its end.
-/
def Mailbox.Since (start : Mailbox) (process₀ : Process) (m : Mailbox) : Prop :=
  m.unborn = false ∧ ∀ process, m.process = some process →
    process.receiveCallback = process₀.receiveCallback ∧
    ∃ presented arrived, m.presented = start.presented ++ presented ∧
      m.arrived = start.arrived ++ arrived ∧
      presented ++ process.inbox.items = process₀.inbox.items ++ arrived

theorem since_refl {process : Process} (hp : m.process = some process) (hb : m.unborn = false) :
    m.Since process m := by
  refine ⟨hb, fun process' hp' => ?_⟩
  obtain rfl : process = process' := Option.some.inj (hp.symm.trans hp')
  exact ⟨rfl, [], [], by simp, by simp, by simp⟩

theorem since_move {start : Mailbox} {process₀ : Process} (hs : start.Since process₀ m)
    (h : Move False m m') : start.Since process₀ m' := by
  obtain ⟨hb, hs⟩ := hs
  cases h with
  | spawn pid receiveCallback hb' => rw [hb] at hb'; cases hb'
  | put process msg hp hw =>
      refine ⟨hb, fun process' hp' => ?_⟩
      obtain rfl := Option.some.inj hp'
      obtain ⟨hcb, pres, arr, hpres, harr, heq⟩ := hs process hp
      refine ⟨hcb, pres, arr ++ [msg], hpres, ?_, ?_⟩
      · rw [← List.append_assoc, ← harr]
      · rw [(hw.put msg).1, ← List.append_assoc, heq, List.append_assoc]
  | present process msg inbox hp hget hh =>
      refine ⟨hb, fun process' hp' => ?_⟩
      obtain rfl := Option.some.inj hp'
      obtain ⟨hcb, pres, arr, hpres, harr, heq⟩ := hs process hp
      refine ⟨hcb, pres ++ [msg], arr, ?_, harr, ?_⟩
      · rw [← List.append_assoc, ← hpres]
      · rw [(Queue.get_eq_some hget).1] at heq
        simpa using heq
  | consume msg received hh => exact ⟨hb, hs⟩
  | setAside process msg hp hh =>
      refine ⟨hb, fun process' hp' => ?_⟩
      obtain rfl := Option.some.inj hp'
      exact hs process hp
  | receive _ _ _ _ hno _ _ => exact hno.elim
  | exit process hp => exact ⟨hb, fun _ hp' => by cases hp'⟩

theorem since_moves {start : Mailbox} {process₀ : Process} (hs : start.Since process₀ m)
    (h : Moves False m m') : start.Since process₀ m' := by
  induction h with
  | refl => exact hs
  | tail _ hm ih => exact since_move ih hm

end Mailboxes

end Msock
