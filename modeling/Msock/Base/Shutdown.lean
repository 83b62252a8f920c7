import Msock.Base.Free
import Msock.Memalloc.Replay

/-!
# Clean shutdown

The history of a run, with the stop of the engines behind it, carried out on the two zones of
the base. It frees both of them if every message that is put into the inbox of a process is
put into one that is whole. `queue_splice_prepend` makes an inbox that is not: it leaves
`last` NULL when `msock_receive` finds the inbox empty. The next put then drops what was set
aside, and those chunks never come back to their pages.
-/

namespace Msock

open Lib

variable {b : Base} {log : List (Nat × Event)} {c : Nat}

/-- The log as a history of either zone. -/
theorem drainedLast_of_tidied {α : Type} (f : Nat × Event → Option (Nat × Deal α))
    (hown : ∀ e e', f e = some e' → e'.1 = e.1) (hdrain : ∀ c, f (c, .drain) = some (c, .tidy))
    (h : Tidied c log) : DrainedLast c (log.filterMap f) := by
  have hnot : ∀ es : List (Nat × Event), (∀ e ∈ es, e.1 ≠ c) → ∀ e' ∈ es.filterMap f, e'.1 ≠ c := by
    intro es hes e' he'
    obtain ⟨e, he, hf⟩ := List.mem_filterMap.1 he'
    rw [hown e e' hf]
    exact hes e he
  rcases h with h | ⟨es, es', rfl, hes'⟩
  · exact Or.inl (hnot log h)
  · refine Or.inr ⟨es.filterMap f, es'.filterMap f, ?_, hnot es' hes'⟩
    rw [List.filterMap_append, List.filterMap_cons_some (hdrain c)]

theorem messageDeals_drainedLast (h : Tidied c log) : DrainedLast c (messageDeals log) := by
  refine drainedLast_of_tidied _ (fun e e' hf => ?_) (fun _ => rfl) h
  obtain ⟨deal, _, rfl⟩ := Option.map_eq_some_iff.1 hf
  rfl

theorem processDeals_drainedLast (h : Tidied c log) : DrainedLast c (processDeals log) := by
  refine drainedLast_of_tidied _ (fun e e' hf => ?_) (fun _ => rfl) h
  obtain ⟨deal, _, rfl⟩ := Option.map_eq_some_iff.1 hf
  rfl

/-- A process sets the first of two messages aside, and calls `msock_receive` for the second,
with nothing else in its inbox. -/
def setAsideAloneActs : List BaseAct :=
  [.domainNew 4, .run 1 (.baseSpawn (some 0) false),
    .run 1 (.baseSend (poffGidToPid 4 1) 1 [] 0), .flush 1, .flush 1, .flush 1, .flush 1,
    .flush 1, .flush 1, .run 1 (.baseSend (poffGidToPid 4 1) 2 [] 0), .flush 1, .flush 1,
    .flush 1, .flush 1, .flush 1, .flush 1, .run 1 .pick, .run 1 .mark, .run 1 .splice,
    .run 1 .dispatch, .run 1 .nextProcess, .run 1 .nextMessage, .run 1 (.ret .badmatch),
    .run 1 .nextMessage, .run 1 (.api (.receive (some 1)))]

/-- Its new callback exits, and the domain retires. -/
def exitAndRetireActs : List BaseAct :=
  [.run 1 (.ret .ok), .run 1 .nextMessage, .run 1 (.ret .exit), .run 1 .nextProcess,
    .run 1 .dispatch, .flush 1, .flush 1, .flush 1, .flush 1, .flush 1, .flush 1, .run 1 .next,
    .run 1 .requeue]

/-- All domains are retired, checked for the gids there can be. -/
theorem retired_of_below (hr : Runs Base.step anyAct Base.new b)
    (h : ∀ gid < maxDomains, ∀ d ∈ b.gidToDomain gid, d.phase = .retired) :
    ∀ gid d, b.gidToDomain gid = some d → d.phase = .retired := by
  have hlt : ∀ gid d, b.gidToDomain gid = some d → gid < maxDomains := by
    refine hr.invariant (I := fun b => ∀ gid d, b.gidToDomain gid = some d → gid < maxDomains)
      (fun a t t' ht _ hstep => ?_) (fun _ _ hd => by cases hd)
    exact local_step (I := fun gid _ => gid < maxDomains) (P := fun _ => True)
      (fun _ _ _ hlt _ => hlt) (fun _ _ _ _ hlt _ => hlt) (fun _ _ => trivial) hstep ht
  exact fun gid d hd => h gid (hlt gid d hd) d hd

end Msock
