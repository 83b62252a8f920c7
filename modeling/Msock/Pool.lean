import Msock.Lib.Runs
import Msock.Domain.Basic

/-!
# The worker pool

`msock_base_loop` makes one thread less than there are domains with hungry processes,
and then works itself. Every worker runs `worker_loop`: it takes a domain off
`queue_of_domains`, runs it, and puts it back unless it has no process left; when it
finds the queue empty, it ends for good.

The queue is an atomic FIFO queue here. What a run does to a domain is left open but
for one thing: nobody but the constructor of an engine makes a hungry process, so the
hungry processes of a domain only become fewer, and they stay among its processes.
-/

namespace Msock

open Lib

universe u
variable {δ : Type u}

/-- The lists of a domain that the pool looks at. -/
structure Lists where
  listOfProcesses : List ProcId
  listOfHungryProcesses : List ProcId
  deriving DecidableEq

/-- What a run, or part of one, can turn the lists of a domain into. -/
def Lists.RunsTo (l l' : Lists) : Prop :=
  l'.listOfHungryProcesses.Sublist l.listOfHungryProcesses ∧
    l'.listOfHungryProcesses.Sublist l'.listOfProcesses

instance (l l' : Lists) : Decidable (l.RunsTo l') := inferInstanceAs (Decidable (_ ∧ _))

/-- A worker in `worker_loop`. -/
inductive Worker (δ : Type u) where
  /-- At the head of the loop. -/
  | looping
  /-- Holding a domain. -/
  | running (domain : δ)
  /-- Out of the loop. -/
  | exited
  deriving DecidableEq

/-- A base inside `msock_base_loop`. -/
structure Pool (δ : Type u) where
  queueOfDomains : List δ
  lists : δ → Lists
  /-- The threads that `workers_create` has still to make. -/
  toCreate : Nat
  /-- The caller of `msock_base_loop`, and then the threads. -/
  workers : List (Worker δ)
  /-- `msock_base_loop` returned. -/
  returned : Bool
  /-- Ghost: the domains that were not put back. -/
  retired : List δ

/-- `count_hungry_domains`. -/
def countHungryDomains (listOfDomains : List δ) (lists : δ → Lists) : Nat :=
  listOfDomains.countP (fun d => (lists d).listOfHungryProcesses ≠ [])

/-- `msock_base_loop` at its start, every domain being queued since `domain_new`. -/
def msockBaseLoop (listOfDomains : List δ) (lists : δ → Lists) : Pool δ where
  queueOfDomains := listOfDomains
  lists := lists
  toCreate := max 0 (countHungryDomains listOfDomains lists - 1)
  workers := [.looping]
  returned := false
  retired := []

/-- One step of a worker, by its place in the list. -/
inductive PoolAct where
  /-- `workers_create` makes a thread. -/
  | create
  /-- `msqueue_get`. -/
  | get (w : Nat)
  /-- `worker_domain_run`, or part of it. -/
  | run (w : Nat) (lists : Lists)
  /-- The end of the loop's body. -/
  | put (w : Nat)
  /-- `workers_join` returns. -/
  | join
  deriving DecidableEq

/-- One step of the pool. -/
def Pool.step [DecidableEq δ] (a : PoolAct) (s : Pool δ) : Except Stop (Pool δ) :=
  match a with
  | .create =>
      match s.toCreate with
      | 0 => .error .disabled
      | n + 1 => .ok { s with toCreate := n, workers := s.workers ++ [.looping] }
  | .get w =>
      -- the caller makes all threads before it starts to loop
      if w = 0 ∧ s.toCreate ≠ 0 then .error .disabled
      else
        match s.workers[w]? with
        | some .looping =>
            match s.queueOfDomains with
            | [] => .ok { s with workers := s.workers.set w .exited }
            | d :: queue => .ok { s with
                queueOfDomains := queue, workers := s.workers.set w (.running d) }
        | _ => .error .disabled
  | .run w lists =>
      match s.workers[w]? with
      | some (.running d) =>
          if (s.lists d).RunsTo lists then
            .ok { s with lists := Function.update s.lists d lists }
          else .error .disabled
      | _ => .error .disabled
  | .put w =>
      match s.workers[w]? with
      | some (.running d) =>
          if (s.lists d).listOfProcesses = [] then
            -- not added to the queue: the domain will never be run again
            .ok { s with workers := s.workers.set w .looping, retired := s.retired ++ [d] }
          else
            .ok { s with
              workers := s.workers.set w .looping, queueOfDomains := s.queueOfDomains ++ [d] }
      | _ => .error .disabled
  | .join =>
      if s.toCreate = 0 ∧ ∀ w ∈ s.workers, w = .exited then .ok { s with returned := true }
      else .error .disabled

end Msock
