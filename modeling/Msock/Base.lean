import Msock.Domain.Routing

/-!
# The base: several domains

`struct base`, the making of domains, the names, and the one place where domains touch
each other, `send_flush_outbox`. A step of the base is an act of one of its domains,
together with what it does to the others. Which domain acts next is left open, so a
theorem about runs is about every order in which workers can take the domains and about
every interleaving of the workers.

`Base.log` is a ghost: the events of all domains in the order they happened.
-/

namespace Msock

open Lib

/-- `struct base`. -/
structure Base where
  gidToDomain : Nat → Option Domain
  /-- The gids of `list_of_domains`. -/
  listOfDomains : List Nat
  nameToPid : Nat → Pid
  log : List (Nat × Event)

/-- `msock_base_new`, before `engines_start`. -/
def Base.new : Base := ⟨fun _ => none, [], fun _ => 0, []⟩

/-- `find_free_gid`. Gid 0 is reserved for naming. -/
def findFreeGid (b : Base) : Except Stop Nat :=
  match (List.range' 1 (maxDomains - 1)).find? (fun gid => (b.gidToDomain gid).isNone) with
  | some gid => .ok gid
  | none => .error (.fatal "Too many domains.")

/-- `domain_new`, called by the constructor of an engine. -/
def domainNew (maxProcesses : Nat) (b : Base) : Except Stop Base := do
  let gid ← findFreeGid b
  return { b with
    gidToDomain := Function.update b.gidToDomain gid (some (Domain.new gid maxProcesses))
    listOfDomains := b.listOfDomains ++ [gid] }

/-- `msock_register`. -/
def msockRegister (pid name : Pid) (b : Base) : Except Stop Base :=
  if pidToGid name ≠ 0 then .error (.fatal "Can only register as a zero domain.")
  else if maxRegNames ≤ pidToPoff name then .error (.fatal "Can't register so big name.")
  else if b.nameToPid (pidToPoff name) ≠ 0 then .error (.fatal "Name already taken.")
  else .ok { b with nameToPid := Function.update b.nameToPid (pidToPoff name) pid }

/-- What happens to a base. -/
inductive BaseAct where
  /-- An engine is started. -/
  | domainNew (maxProcesses : Nat)
  /-- `msock_register`. -/
  | register (pid name : Pid)
  /-- The code that holds a domain goes on, other than in `send_flush_outbox`. -/
  | run (gid : Nat) (a : Act)
  /-- One turn of the domain's `send_flush_outbox` up to the splice. -/
  | flush (gid : Nat)
  /-- The rest of that turn. -/
  | wake (gid : Nat)
  deriving DecidableEq

/-- The domain numbered `gid`. -/
def Base.domain (b : Base) (gid : Nat) : Except Stop Domain :=
  match b.gidToDomain gid with
  | some d => .ok d
  | none => .error .disabled

/-- The domain `gid` went from `d` to `d'`. -/
def Base.setDomain (gid : Nat) (d d' : Domain) (b : Base) : Base :=
  { b with
    gidToDomain := Function.update b.gidToDomain gid (some d')
    log := b.log ++ (d'.trace.drop d.trace.length).map (Prod.mk gid) }

/-- The tables a domain reads. -/
def Base.env (b : Base) : Env := ⟨b.nameToPid, b.listOfDomains⟩

/-- Which acts a domain may do on its own; the base's own calls go through domain 1. -/
def Act.allowed (gid : Nat) : Act → Bool
  | .arrive _ => false
  | .flushTake _ => false
  | .flushWake _ => false
  | .baseSend _ _ _ _ => gid == 1
  | .baseSpawn _ hungry => gid == 1 || hungry
  | .baseSpawn2 => gid == 1
  | _ => true

/-- The outbox that the next turn of `send_flush_outbox` splices, and its victim. -/
def Base.victim (b : Base) (d : Domain) : Option (Nat × Domain) :=
  match d.phase with
  | .flush gid _ false _ =>
      if gid < maxDomains ∧ (d.outbox gid).items ≠ [] then (b.gidToDomain gid).map (Prod.mk gid)
      else none
  | _ => none

/-- One step of the base, if it is what the program may do next. -/
def Base.step (a : BaseAct) (b : Base) : Except Stop Base :=
  match a with
  | .domainNew maxProcesses => Msock.domainNew maxProcesses b
  | .register pid name => msockRegister pid name b
  | .run gid a =>
      if a.allowed gid then do
        let d ← b.domain gid
        let d' ← d.step b.env a
        return b.setDomain gid d d'
      else .error .disabled
  | .flush gid => do
      let d ← b.domain gid
      match b.victim d with
      -- the outbox is empty, or there is no domain of that number
      | none => do
          let d' ← d.step b.env (.flushTake false)
          return b.setDomain gid d d'
      | some (v, victim) => do
          let d' ← d.step b.env (.flushTake true)
          -- both under the victim's `remote_inbox_lock`, so one step
          let victim' ← victim.step b.env (.arrive (d.outbox v))
          return (b.setDomain gid d d').setDomain v victim victim'
  | .wake gid => do
      let d ← b.domain gid
      match d.phase with
      | .flush v _ true _ => do
          -- the victim may have been taken or put back since the splice
          let victim ← b.domain v
          let d' ← d.step b.env (.flushWake victim.dequeued)
          return b.setDomain gid d d'
      | _ => .error .disabled

end Msock
