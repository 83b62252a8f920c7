import Msock.Domain.Serve
import Msock.Lib.Server
import Msock.Base.Delivery

/-!
# A service, end to end

A process of one domain runs a receive callback that is given as a function: what it sends,
returns and remembers depends on its data, the message, and what the system calls it makes
return. The base takes its steps with that function next to it. A process of another domain
sends requests there and is sent answers; both come and go in order, and nothing is lost or
repeated on either way.
-/

namespace Msock

open Lib

variable {σ ω : Type} {b b' : Base} {gid g v : Nat} {d d' : Domain} {p q : ProcId}
  {pid : Pid} {es : List Event}

/-- A receive callback, of its process's data, `msg_type`, `msg_payload`, and what the system
calls it makes return. -/
abbrev Service (σ ω : Type) :=
  σ → Int → List UInt8 → ω → Except Stop (σ × List Outgoing × Recv)

/-- What it sends for a message. -/
def Service.respond (service : Service σ ω) (data : σ) (request : Message × ω) :
    Except Stop (σ × List Outgoing) :=
  match service data request.1.msgType request.1.msgPayload request.2 with
  | .ok (data, sends, _) => .ok (data, sends)
  | .error stop => .error stop

/-- A base, and the process that serves. -/
structure Serving (σ ω : Type) where
  base : Base
  data : σ
  /-- What the running callback has still to send, and what it then returns. -/
  todo : List Outgoing
  recv : Recv
  /-- Each message that the callback was called with, and what the system calls returned. -/
  served : List (Message × ω)

/-- The message that the callback of `p`, which is running, was called with. -/
def Base.calledWith (g : Nat) (p : ProcId) (b : Base) : Option Message :=
  (b.gidToDomain g).bind (fun d => d.phase.calledWith p)

/-- A step of the base. When the callback is called, the service says what it does. -/
def Serving.step (service : Service σ ω) (g : Nat) (p : ProcId) (a : BaseAct × ω)
    (s : Serving σ ω) : Except Stop (Serving σ ω) := do
  let b ← s.base.step a.1
  match a.1 with
  | .run gid .nextMessage =>
      match if gid = g then b.calledWith g p else none with
      | some msg => do
          let (data, todo, recv) ← service s.data msg.msgType msg.msgPayload a.2
          return ⟨b, data, todo, recv, s.served ++ [(msg, a.2)]⟩
      | none => return { s with base := b }
  | .run gid (.api _) =>
      return { s with base := b, todo := if gid = g then s.todo.tail else s.todo }
  | _ => return { s with base := b }

/-- The process lives and keeps to the service, and so does the process `q` of another domain
live. -/
def serves (g : Nat) (p : ProcId) (pid : Pid) (v : Nat) (q : ProcId) (client : Pid)
    (s : Serving σ ω) (a : BaseAct × ω) : Prop :=
  attends g p pid s.base a.1 ∧ s.base.Alive v q client ∧
    ∀ act, a.1 = .run g act → ∀ d ∈ s.base.gidToDomain g, keepsTo p s.todo s.recv d act

instance (g : Nat) (p : ProcId) (pid : Pid) (v : Nat) (q : ProcId) (client : Pid)
    (s : Serving σ ω) (a : BaseAct × ω) : Decidable (serves g p pid v q client s a) :=
  have : Decidable (∀ act, a.1 = .run g act → ∀ d ∈ s.base.gidToDomain g,
      keepsTo p s.todo s.recv d act) :=
    match h : a.1 with
    | .run gid act =>
        decidable_of_iff (gid = g → ∀ d ∈ s.base.gidToDomain g, keepsTo p s.todo s.recv d act)
          ⟨fun hk act' heq => by cases heq; exact hk rfl, fun hk hg => hk act (by rw [hg])⟩
    | .domainNew _ | .register _ _ | .flush _ | .wake _ => isTrue fun _ heq => by cases heq
  inferInstanceAs (Decidable (_ ∧ _ ∧ _))

/-! ## Steps -/

/-- What a step of a serving base can be. -/
theorem serving_cases {service : Service σ ω} {a : BaseAct × ω} {s s' : Serving σ ω}
    (h : s.step service g p a = .ok s') : ∃ b', s.base.step a.1 = .ok b' ∧
      ((∃ msg data todo recv, a.1 = .run g .nextMessage ∧ b'.calledWith g p = some msg ∧
          service s.data msg.msgType msg.msgPayload a.2 = .ok (data, todo, recv) ∧
          s' = ⟨b', data, todo, recv, s.served ++ [(msg, a.2)]⟩) ∨
        (∃ call, a.1 = .run g (.api call) ∧ s' = { s with base := b', todo := s.todo.tail }) ∨
        ((a.1 = .run g .nextMessage → b'.calledWith g p = none) ∧
          (∀ call, a.1 ≠ .run g (.api call)) ∧ s' = { s with base := b' })) := by
  obtain ⟨b', hb, hret⟩ := bind_eq_ok.1 h
  refine ⟨b', hb, ?_⟩
  generalize a.1 = act at hret
  split at hret
  · rename_i gid
    split at hret
    · rename_i msg hcalled
      obtain ⟨⟨data, todo, recv⟩, hservice, hret⟩ := bind_eq_ok.1 hret
      by_cases hg : gid = g
      · subst hg
        rw [if_pos rfl] at hcalled
        exact .inl ⟨msg, data, todo, recv, rfl, hcalled, hservice, (Except.ok.inj hret).symm⟩
      · rw [if_neg hg] at hcalled
        cases hcalled
    · rename_i hnone
      refine .inr (.inr ⟨fun heq => ?_, by simp, (Except.ok.inj hret).symm⟩)
      cases heq
      rwa [if_pos rfl] at hnone
  · rename_i gid call
    by_cases hg : gid = g
    · subst hg
      rw [if_pos rfl] at hret
      exact .inr (.inl ⟨call, rfl, (Except.ok.inj hret).symm⟩)
    · rw [if_neg hg] at hret
      refine .inr (.inr ⟨by simp, fun call' heq => ?_, (Except.ok.inj hret).symm⟩)
      cases heq
      exact hg rfl
  · rename_i hnext hapi
    exact .inr (.inr ⟨fun heq => absurd heq (hnext g), fun call heq => hapi g call heq,
      (Except.ok.inj hret).symm⟩)

/-- The base of a serving run takes a run. -/
theorem serving_base {service : Service σ ω} {s s' : Serving σ ω}
    {ok : Serving σ ω → BaseAct × ω → Prop} {ok' : Base → BaseAct → Prop}
    (hok : ∀ s a, ok s a → ok' s.base a.1) (hr : Runs (Serving.step service g p) ok s s') :
    Runs Base.step ok' s.base s'.base := by
  induction hr with
  | refl => exact .refl
  | tail _ hguarded ih =>
      obtain ⟨a, hguard, hstep⟩ := hguarded
      obtain ⟨b', hb, hcase⟩ := serving_cases hstep
      refine ih.tail ⟨a.1, hok _ a hguard, ?_⟩
      rcases hcase with ⟨_, _, _, _, _, _, _, rfl⟩ | ⟨_, _, rfl⟩ | ⟨_, _, rfl⟩ <;> exact hb

/-! ## What one step adds -/

/-- A step of the base that neither calls the callback nor lets it send. -/
structure Idles (g : Nat) (p : ProcId) (pid : Pid) (todo : List Outgoing) (b b' : Base) : Prop where
  log : ∃ es, eventsOf g b'.log = eventsOf g b.log ++ es ∧ presentations p es = [] ∧
    lettersFor pid (posted es) = []
  called : todo ≠ [] → (b.calledWith g p).isSome = true → (b'.calledWith g p).isSome = true

variable {todo : List Outgoing} {recv : Recv} {env : Env} {act : Act}

theorem Idles.same (hlog : b'.log = b.log) (hdomain : b'.gidToDomain g = b.gidToDomain g) :
    Idles g p pid todo b b' where
  log := ⟨[], by rw [hlog, List.append_nil], rfl, rfl⟩
  called := fun _ hcalled => by rwa [Base.calledWith, hdomain]

theorem Idles.trans {b'' : Base} (h : Idles g p pid todo b b') (h' : Idles g p pid todo b' b'') :
    Idles g p pid todo b b'' where
  log := by
    obtain ⟨es, hlog, hpresentations, hletters⟩ := h.log
    obtain ⟨es', hlog', hpresentations', hletters'⟩ := h'.log
    refine ⟨es ++ es', by rw [hlog', hlog, List.append_assoc], ?_, ?_⟩
    · rw [presentations_append, hpresentations, hpresentations']
      rfl
    · rw [posted_append, lettersFor_append, hletters, hletters']
      rfl
  called := fun hne hcalled => h'.called hne (h.called hne hcalled)

/-- Another domain acts. -/
theorem idles_other (htrace : d'.trace = d.trace ++ es) (hne : gid ≠ g) :
    Idles g p pid todo b (b.setDomain gid d d') where
  log := ⟨[], by rw [log_setDomain htrace, eventsOf_append, if_neg hne], rfl, rfl⟩
  called := fun _ hcalled => by
    have hdomain : (b.setDomain gid d d').gidToDomain g = b.gidToDomain g :=
      Function.update_of_ne (Ne.symm hne) _ _
    rwa [Base.calledWith, hdomain]

theorem calledWith_set (d d' : Domain) (b : Base) :
    (b.setDomain g d d').calledWith g p = d'.phase.calledWith p := by
  simp [Base.calledWith, Base.setDomain]

theorem calledWith_of (hd : b.gidToDomain g = some d) :
    b.calledWith g p = d.phase.calledWith p := by
  simp [Base.calledWith, hd]

/-- What the domain of the process adds to the log. -/
theorem eventsOf_set (htrace : d'.trace = d.trace ++ es) :
    eventsOf g (b.setDomain g d d').log = eventsOf g b.log ++ es := by
  rw [log_setDomain htrace, eventsOf_append, if_pos rfl]

/-- Its domain does something else. -/
theorem idles_attended (hd : b.gidToDomain g = some d) (htrace : d'.trace = d.trace ++ es)
    (hphase : (d.phase.calledWith p).isSome = true → todo ≠ [] → d'.phase = d.phase)
    (hpresentations : presentations p es = []) (hletters : lettersFor pid (posted es) = []) :
    Idles g p pid todo b (b.setDomain g d d') where
  log := ⟨es, eventsOf_set htrace, hpresentations, hletters⟩
  called := fun hne hcalled => by
    rw [calledWith_of hd] at hcalled
    rw [calledWith_set, hphase hcalled hne]
    exact hcalled

/-- Messages arrive at any domain, or it flushes. -/
theorem idles_mild (hd : b.gidToDomain gid = some d)
    (hdomain : d.gid = gid ∧ Routed d.roster ∧ d.Addressed)
    (hg : g ≠ 0) (hpid : pidToGid pid ≠ g) (hact : d.act (env, act) = .ok d')
    (hmild : (∃ qr, act = .arrive qr) ∨ (∃ victim, act = .flushTake victim) ∨
      ∃ dequeued, act = .flushWake dequeued) : Idles g p pid todo b (b.setDomain gid d d') := by
  obtain ⟨hgid, hr, ha⟩ := hdomain
  by_cases hne : gid = g
  · subst hne
    have hkeeps : keepsTo p todo .ok d act := by
      rcases hmild with ⟨_, rfl⟩ | ⟨_, rfl⟩ | ⟨_, rfl⟩ <;> trivial
    obtain ⟨es, htrace, hattended⟩ :=
      stepped_attended (step_cases hact) hr ha (hgid ▸ hg) (hgid ▸ hpid) hkeeps
    cases hattended with
    | presented msg heq => subst heq; simp at hmild
    | sent o rest heq => subst heq; simp at hmild
    | other _ _ hphase hpresentations hletters =>
        exact idles_attended hd htrace hphase hpresentations hletters
  · rcases hmild with ⟨qr, rfl⟩ | hflush
    · have hnone : d'.trace = d.trace ++ [] := by rw [(arrive_spliced hact).1, List.append_nil]
      exact idles_other hnone hne
    · have harrive : ∀ qr, act ≠ .arrive qr := by
        rcases hflush with ⟨_, rfl⟩ | ⟨_, rfl⟩ <;> simp
      obtain ⟨es, htrace⟩ := (act_carried hact harrive hr ha).trace
      exact idles_other htrace hne

/-- Every step but an act of the domain of the process. -/
theorem idles_step {a : BaseAct} (hb : b.Delivering) (hg : g ≠ 0) (hpid : pidToGid pid ≠ g)
    (hother : ∀ act, a ≠ .run g act) (hd : b.gidToDomain g = some d) (hstep : b.step a = .ok b') :
    Idles g p pid todo b b' := by
  cases baseStep_cases hstep with
  | domainNew gid maxProcesses _ _ hnone =>
      refine .same rfl (Function.update_of_ne ?_ _ _)
      rintro rfl
      rw [hnone] at hd
      cases hd
  | register pid' name names => exact .same rfl rfl
  | run gid act e e' hallowed he hact =>
      obtain ⟨hgid, hr, ha⟩ := hb gid e he
      have hne : gid ≠ g := by
        rintro rfl
        exact hother act rfl
      obtain ⟨es, htrace⟩ := (act_carried hact (fun qr heq => by subst heq; cases hallowed) hr ha).trace
      exact idles_other htrace hne
  | flushNone gid e e' he _ hact =>
      exact idles_mild he (hb gid e he) hg hpid hact (.inr (.inl ⟨_, rfl⟩))
  | flushOne gid w e e' victim victim' he hv hact harrive =>
      obtain ⟨_, _, hvictim, _⟩ := victim_eq_some hv
      obtain ⟨_, hvictim₁⟩ := hb.victim he hv e'
      exact (idles_mild he (hb gid e he) hg hpid hact (.inr (.inl ⟨_, rfl⟩))).trans
        (idles_mild hvictim₁ (hb w victim hvictim) hg hpid harrive (.inl ⟨_, rfl⟩))
  | wake gid e e' dequeued he hact =>
      exact idles_mild he (hb gid e he) hg hpid hact (.inr (.inr ⟨_, rfl⟩))

/-! ## Runs -/

/-- Since `s₀` the callback was called with what was served, and what it sent to `pid`, together
with what it has still to send, is what the service sends for that. -/
structure Follows (service : Service σ ω) (g : Nat) (p : ProcId) (pid : Pid)
    (s₀ s : Serving σ ω) : Prop where
  served : ∃ served sends, s.served = s₀.served ++ served ∧
    serve service.respond s₀.data served = .ok (s.data, sends) ∧
    presentations p (eventsOf g s.base.log)
      = presentations p (eventsOf g s₀.base.log) ++ served.map Prod.fst ∧
    lettersFor pid (posted (eventsOf g s.base.log))
        ++ lettersFor pid (s.todo.map (Outgoing.message g))
      = lettersFor pid (posted (eventsOf g s₀.base.log))
        ++ lettersFor pid (sends.map (Outgoing.message g))
  waits : s.todo ≠ [] → (s.base.calledWith g p).isSome = true

variable {service : Service σ ω} {s₀ s s' : Serving σ ω}

theorem follows_refl (htodo : s₀.todo = []) : Follows service g p pid s₀ s₀ where
  served := ⟨[], [], (List.append_nil _).symm, rfl, (List.append_nil _).symm, by rw [htodo]⟩
  waits := fun hne => absurd htodo hne

theorem Follows.idles (h : Follows service g p pid s₀ s) (hidles : Idles g p pid s.todo s.base b') :
    Follows service g p pid s₀ { s with base := b' } where
  served := by
    obtain ⟨served, sends, hserved, hserve, hpresented, hletters⟩ := h.served
    obtain ⟨es, hlog, hnone, hnone'⟩ := hidles.log
    refine ⟨served, sends, hserved, hserve, ?_, ?_⟩
    · rw [hlog, presentations_append, hnone, List.append_nil]
      exact hpresented
    · rw [hlog, posted_append, lettersFor_append, hnone', List.append_nil]
      exact hletters
  waits := fun hne => hidles.called hne (h.waits hne)

/-- **Every step of a serving base follows the service.** -/
theorem follows_step {client : Pid} {a : BaseAct × ω} (hb : s.base.Delivering) (hg : g ≠ 0)
    (hpid : pidToGid client ≠ g) (hok : serves g p pid v q client s a)
    (h : Follows service g p client s₀ s) (hstep : s.step service g p a = .ok s') :
    Follows service g p client s₀ s' := by
  obtain ⟨b', hbase, hcase⟩ := serving_cases hstep
  obtain ⟨⟨⟨_, _⟩, halive⟩, _, hkeeps⟩ := hok
  obtain ⟨d, hd, _⟩ := alive_iff.1 halive
  obtain ⟨hgid, hr, ha⟩ := hb g d hd
  by_cases hown : ∃ act, a.1 = .run g act
  · obtain ⟨act, hact⟩ := hown
    rw [hact] at hbase hcase
    have hkept := hkeeps act hact d hd
    cases baseStep_cases hbase with
    | run _ _ e d' _ he hdact =>
        obtain rfl : d = e := Option.some.inj (hd.symm.trans he)
        obtain ⟨es, htrace, hattended⟩ :=
          stepped_attended (step_cases hdact) hr ha (hgid ▸ hg) (hgid ▸ hpid) hkept
        cases hattended with
        | presented msg hnext hbefore hcalled hpresented hnothing =>
            subst hnext
            -- it was not running, so that it had nothing left to send
            have htodo : s.todo = [] := by
              by_contra hne
              have hwaits := h.waits hne
              rw [calledWith_of hd, hbefore] at hwaits
              cases hwaits
            rcases hcase with ⟨msg', data, todo, recv, _, hmsg', hservice, rfl⟩ | ⟨call, heq, _⟩ |
              ⟨hnone, _, _⟩
            · rw [calledWith_set, hcalled] at hmsg'
              cases hmsg'
              obtain ⟨served, sends, hserved, hserve, hpresentations, hletters⟩ := h.served
              have hrespond : service.respond s.data (msg, a.2) = .ok (data, todo) := by
                rw [Service.respond, hservice]
              refine ⟨⟨served ++ [(msg, a.2)], sends ++ todo, ?_,
                serve_append hserve (serve_single hrespond), ?_, ?_⟩, fun _ => ?_⟩
              · rw [hserved, List.append_assoc]
              · rw [eventsOf_set htrace, presentations_append, hpresented, hpresentations,
                  List.map_append, List.append_assoc]
                rfl
              · rw [htodo, List.map_nil] at hletters
                have hletters' : lettersFor client (posted (eventsOf g s.base.log))
                    = lettersFor client (posted (eventsOf g s₀.base.log))
                      ++ lettersFor client (sends.map (Outgoing.message g)) :=
                  (List.append_nil _).symm.trans hletters
                rw [eventsOf_set htrace, posted_append, lettersFor_append, hnothing, List.append_nil,
                  hletters', List.map_append, lettersFor_append, List.append_assoc]
              · rw [calledWith_set, hcalled]
                rfl
            · cases heq
            · rw [calledWith_set, hcalled] at hnone
              cases hnone rfl
        | sent o rest hcall htodo hphase hnone hletter =>
            subst hcall
            rcases hcase with ⟨_, _, _, _, heq, _⟩ | ⟨_, _, rfl⟩ | ⟨_, hapi, _⟩
            · cases heq
            · obtain ⟨served, sends, hserved, hserve, hpresentations, hletters⟩ := h.served
              refine ⟨⟨served, sends, hserved, hserve, ?_, ?_⟩, fun _ => ?_⟩
              · rw [eventsOf_set htrace, presentations_append, hnone, List.append_nil]
                exact hpresentations
              · rw [htodo, List.map_cons, ← List.singleton_append, lettersFor_append] at hletters
                rw [eventsOf_set htrace, posted_append, lettersFor_append, hletter, htodo, hgid,
                  List.append_assoc]
                exact hletters
              · rw [calledWith_set, hphase]
                exact hkept.1
            · exact absurd rfl (hapi o.call)
        | other hnext hapi hphase hpresentations hletters =>
            have hidles : Idles g p client s.todo s.base (s.base.setDomain g d d') :=
              idles_attended hd htrace hphase hpresentations hletters
            rcases hcase with ⟨msg, _, _, _, heq, hcalled, _⟩ | ⟨call, heq, _⟩ | ⟨_, _, rfl⟩
            · cases heq
              rw [calledWith_set, hnext rfl] at hcalled
              cases hcalled
            · cases heq
              exact absurd rfl (hapi call)
            · exact h.idles hidles
  · have hother : ∀ act, a.1 ≠ .run g act := fun act heq => hown ⟨act, heq⟩
    rcases hcase with ⟨_, _, _, _, heq, _⟩ | ⟨_, heq, _⟩ | ⟨_, _, rfl⟩
    · exact absurd heq (hother _)
    · exact absurd heq (hother _)
    · exact h.idles (idles_step hb hg hpid hother hd hbase)

/-- There is no domain zero. -/
theorem gid_ne_zero (hr : Runs Base.step slots Base.new b) (hd : b.gidToDomain g = some d) :
    g ≠ 0 := by
  have key : b.gidToDomain 0 = none := by
    refine hr.invariant (I := fun b => b.gidToDomain 0 = none) (fun a b b' h _ hstep => ?_) rfl
    have hset : ∀ {b : Base} {gid : Nat} {d : Domain} (d' : Domain), b.gidToDomain 0 = none →
        b.gidToDomain gid = some d → (b.setDomain gid d d').gidToDomain 0 = none := by
      intro b gid d d' h hd
      have hne : 0 ≠ gid := by
        rintro rfl
        rw [h] at hd
        cases hd
      exact (Function.update_of_ne hne _ _).trans h
    cases baseStep_cases hstep with
    | domainNew gid maxProcesses hpos _ _ =>
        exact (Function.update_of_ne (Nat.ne_of_lt hpos) _ _).trans h
    | register => exact h
    | run gid act e e' _ he _ => exact hset e' h he
    | flushNone gid e e' he _ _ => exact hset e' h he
    | flushOne gid w e e' victim victim' he hv _ _ =>
        obtain ⟨_, _, hvictim, _⟩ := victim_eq_some hv
        have hzero := hset e' h he
        have hw : w ≠ 0 := by
          rintro rfl
          rw [h] at hvictim
          cases hvictim
        exact (Function.update_of_ne (Ne.symm hw) _ _).trans hzero
    | wake gid e e' dequeued he _ => exact hset e' h he
  rintro rfl
  rw [key] at hd
  cases hd

theorem follows_run {client : Pid} (hb₀ : s₀.base.Delivering) (hg : g ≠ 0)
    (hpid : pidToGid client ≠ g) (htodo : s₀.todo = [])
    (hr : Runs (Serving.step service g p) (serves g p pid v q client) s₀ s) :
    Follows service g p client s₀ s := by
  have key := hr.invariant (I := fun s => s.base.Delivering ∧ Follows service g p client s₀ s)
    (fun a s s' h hok hstep => by
      obtain ⟨b', hbase, hcase⟩ := serving_cases hstep
      have hsame : s'.base = b' := by
        rcases hcase with ⟨_, _, _, _, _, _, _, rfl⟩ | ⟨_, _, rfl⟩ | ⟨_, _, rfl⟩ <;> rfl
      exact ⟨hsame ▸ delivering_step h.1 hok.1.1.1 hbase,
        follows_step h.1 hg hpid hok h.2 hstep⟩)
    ⟨hb₀, follows_refl htodo⟩
  exact key.2

/--
**A service, end to end.** What the process of one domain has served of the requests of
another is, in the order in which they were sent, what was in its inbox, what waited and what
was sent since, as far as it got; and what a process there has been handed from it is what
waited and what the service sends it for all it served, as far as it got. Where nothing waits
at the end, nothing is missing.
-/
theorem service_end_to_end (service : Service σ ω) {b₀ : Base}
    (hr₀ : Runs Base.step slots Base.new b₀) {d₀ e₀ : Domain} {process₀ client₀ : Process}
    (hd₀ : b₀.gidToDomain g = some d₀) (hp₀ : d₀.process p = some process₀)
    (he₀ : b₀.gidToDomain v = some e₀) (hq₀ : e₀.process q = some client₀) (hne : v ≠ g)
    (hbadmatch : process₀.badmatch.items = []) (hinbox : process₀.inbox.Whole)
    (data₀ : σ) (recv₀ : Recv) {s : Serving σ ω}
    (hr : Runs (Serving.step service g p) (serves g p process₀.pid v q client₀.pid)
      ⟨b₀, data₀, [], recv₀, []⟩ s) :
    ∃ sends requests answers inbox,
      serve service.respond data₀ s.served = .ok (s.data, sends) ∧
      (s.base.pipe v g p process₀.pid).sent = (b₀.pipe v g p process₀.pid).sent ++ requests ∧
      lettersOf v (s.served.map Prod.fst) ++ lettersOf v inbox
          ++ (s.base.pipe v g p process₀.pid).waiting
        = lettersOf v process₀.inbox.items ++ (b₀.pipe v g p process₀.pid).waiting ++ requests ∧
      (∀ d process, s.base.gidToDomain g = some d → d.process p = some process →
        process.inbox.items = inbox) ∧
      (s.base.pipe g v q client₀.pid).handed = (b₀.pipe g v q client₀.pid).handed ++ answers ∧
      answers ++ (s.base.pipe g v q client₀.pid).waiting
          ++ lettersFor client₀.pid (s.todo.map (Outgoing.message g))
        = (b₀.pipe g v q client₀.pid).waiting
          ++ lettersFor client₀.pid (sends.map (Outgoing.message g)) := by
  have hb₀ := delivering_reachable hr₀
  have hlogged₀ := logged_reachable hr₀
  have hg := gid_ne_zero hr₀ hd₀
  have hpid : pidToGid client₀.pid ≠ g := by
    obtain ⟨hgid, hrouted, _⟩ := hb₀ v e₀ he₀
    rw [(hrouted.pid_fields (Domain.roster_pid hq₀)).1]
    show e₀.gid ≠ g
    rw [hgid]
    exact hne
  have hfollows : Follows service g p client₀.pid ⟨b₀, data₀, [], recv₀, []⟩ s :=
    follows_run hb₀ hg hpid rfl hr
  obtain ⟨served, sends, hserved, hserve, hpresentations, hletters⟩ := hfollows.served
  obtain rfl : s.served = served := hserved
  -- the requests
  have hattends : Runs Base.step (attends g p process₀.pid) b₀ s.base :=
    serving_base (s := ⟨b₀, data₀, [], recv₀, []⟩) (fun _ _ hok => hok.1) hr
  obtain ⟨requests, handed, hsent, hhanded, hconserved⟩ :=
    run_conserves (s := v) hb₀ (attends_lives hattends)
  obtain ⟨handed', presented, inbox, hhanded', hpresented, hqueue, hinbox'⟩ :=
    run_presents (s := v) hb₀ hlogged₀ hd₀ hp₀ hbadmatch hinbox (attends_takesAll hattends)
  obtain rfl : handed = handed' := List.append_cancel_left (hhanded.symm.trans hhanded')
  have hserved' : presented = lettersOf v (s.served.map Prod.fst) := by
    rw [Base.presentedFrom, Base.presentedFrom, hpresentations, lettersOf_append] at hpresented
    exact (List.append_cancel_left hpresented).symm
  -- the answers
  have hlives : Runs Base.step (lives v q client₀.pid) b₀ s.base :=
    serving_base (s := ⟨b₀, data₀, [], recv₀, []⟩) (fun _ _ hok => ⟨hok.1.1.1, hok.2.1⟩) hr
  obtain ⟨sent, answers, hsent', hanswers, hconserved'⟩ := run_conserves (s := g) hb₀ hlives
  have hsends : sent ++ lettersFor client₀.pid (s.todo.map (Outgoing.message g))
      = lettersFor client₀.pid (sends.map (Outgoing.message g)) := by
    have hposted : lettersFor client₀.pid (posted (eventsOf g s.base.log))
        = lettersFor client₀.pid (posted (eventsOf g b₀.log)) ++ sent := hsent'
    rw [hposted, List.append_assoc] at hletters
    exact List.append_cancel_left hletters
  refine ⟨sends, requests, answers, inbox, hserve, hsent, ?_, hinbox', hanswers, ?_⟩
  · rw [← hserved', hqueue, List.append_assoc, hconserved, ← List.append_assoc]
  · rw [hconserved', List.append_assoc, hsends]

end Msock
