import Msock.Domain.Serve
import Msock.Base.Transport

/-!
# From send to dispatch

What a domain has sent to a process is what its calls of `msock_send` and `msock_base_send`
say: the pipe of `Transport` takes in a letter for each call whose target is the pid of the
process, a name that leads to it, or its whole domain, and what has come out of it, followed
by what waits, is what was put in.
-/

namespace Msock

open Lib

variable {b b' : Base} {s v : Nat} {p : ProcId} {pid : Pid}

/-- What `msock_send` or `msock_base_send` is given. -/
def Act.outgoing : Act → Option Outgoing
  | .api (.send target msgType msgPayload msgPayloadSz) =>
      some ⟨target, msgType, msgPayload, msgPayloadSz⟩
  | .baseSend target msgType msgPayload msgPayloadSz =>
      some ⟨target, msgType, msgPayload, msgPayloadSz⟩
  | _ => none

variable (pid) in
/-- A domain sends one message, its target resolved. -/
theorem act_posted {env : Env} {a : Act} {o : Outgoing} {d d' : Domain} (ha : a.outgoing = some o)
    (hr : Routed d.roster) (hact : d.act (env, a) = .ok d') :
    ∃ es pid' msg, d'.trace = d.trace ++ es ∧ resolveTarget env.names o.target = .ok pid' ∧
      posted es = [msg] ∧ lettersFor pid [msg] = lettersFor pid
        [Outgoing.message d.gid { o with target := pid' }] := by
  cases a with
  | api call =>
      cases call with
      | send target msgType msgPayload msgPayloadSz =>
          cases ha
          cases step_cases hact with
          | api _ _ hcalled =>
              cases hcalled with
              | send _ _ _ _ _ hsend =>
                  obtain ⟨es, pid', msg, htrace, _, hresolve, hposted, _, hletters⟩ :=
                    sendIndirect_posted 0 pid hr hsend
                  exact ⟨es, pid', msg, htrace, hresolve, hposted, hletters⟩
      | _ => cases ha
  | baseSend target msgType msgPayload msgPayloadSz =>
      cases ha
      cases step_cases hact with
      | baseSend _ _ _ _ d₁ _ hsend =>
          obtain ⟨es, pid', msg, htrace, _, hresolve, hposted, _, hletters⟩ :=
            sendIndirect_posted 0 pid hr hsend
          exact ⟨es, pid', msg, htrace, hresolve, hposted, hletters⟩
  | _ => cases ha

variable (v p pid) in
/-- A call puts its letter into the pipes to the processes that it is for. -/
theorem sent_of_call {a : Act} {o : Outgoing} (hb : b.Delivering) (ha : a.outgoing = some o)
    (hstep : b.step (.run s a) = .ok b') :
    ∃ pid', resolveTarget b.nameToPid o.target = .ok pid' ∧
      (b'.pipe s v p pid).sent = (b.pipe s v p pid).sent ++ lettersFor pid
        [Outgoing.message s { o with target := pid' }] := by
  cases baseStep_cases hstep with
  | run _ _ d d' _ hd hact =>
      obtain ⟨hgid, hr, _⟩ := hb s d hd
      obtain ⟨es, pid', msg, htrace, hresolve, hposted, hletters⟩ :=
        act_posted pid ha hr hact
      refine ⟨pid', hresolve, ?_⟩
      have hlog : (b.setDomain s d d').log = b.log ++ es.map (Prod.mk s) := log_setDomain htrace
      show lettersFor pid (posted (eventsOf s (b.setDomain s d d').log)) = _
      rw [hlog, eventsOf_append, if_pos rfl, posted_append, lettersFor_append, hposted, hletters,
        hgid]
      rfl

end Msock
