import Msock.Base.Routing

/-!
# Sending to any pid

`msock_register` checks both fields of a name before it indexes `name_to_pid`. The
sending side checks neither: `name_to_pid` is read at whatever poff a name has, and
`outbox` is indexed with whatever gid the target has, resolved or not.
-/

namespace Msock

open Lib

/-- A payload `_send_indirect` takes. -/
def PayloadFits (msgPayloadSz : Int) : Prop := 0 ≤ msgPayloadSz ∧ msgPayloadSz ≤ maxMsgPayloadSz

/-- At the payload's pointer there are as many bytes to read as `memcpy` reads. -/
def PayloadReads (msgPayload : List UInt8) (msgPayloadSz : Int) : Prop :=
  msgPayloadSz.toNat ≤ msgPayload.length

/-- How a call of `_send_indirect` may end: with `fatal`, or its payload copied, with the message
in an outbox there is, or with its dispatch in the sender's own domain. -/
inductive SendSafe (names : Nat → Pid) (target : Pid) (msgType : Int) (msgPayload : List UInt8)
    (msgPayloadSz : Int) (d : Domain) : Prop
  | fatal (text : String)
      (h : sendIndirect names target msgType msgPayload msgPayloadSz d = .error (.fatal text)) :
      SendSafe names target msgType msgPayload msgPayloadSz d
  | outbox (pid : Pid) (hpid : resolveTarget names target = .ok pid)
      (hreads : PayloadReads msgPayload msgPayloadSz) (hgid : pidToGid pid < maxDomains)
      (h : sendIndirect names target msgType msgPayload msgPayloadSz d = .ok
        ((d.sending (d.newMessage pid msgType msgPayload msgPayloadSz.toNat)).putOutbox
          (pidToGid pid) (d.newMessage pid msgType msgPayload msgPayloadSz.toNat))) :
      SendSafe names target msgType msgPayload msgPayloadSz d
  | dispatch (pid : Pid) (hpid : resolveTarget names target = .ok pid)
      (hreads : PayloadReads msgPayload msgPayloadSz)
      (hgid : pidToGid pid = d.gid ∧ d.gid < maxDomains)
      (h : sendIndirect names target msgType msgPayload msgPayloadSz d
        = (dispatchMsgLocal (d.newMessage pid msgType msgPayload msgPayloadSz.toNat)
            (d.sending (d.newMessage pid msgType msgPayload msgPayloadSz.toNat))).map Prod.snd) :
      SendSafe names target msgType msgPayload msgPayloadSz d

/-- Both indices are inside their arrays, the poff of a name and the gid of the pid that the
message goes to, and the payload can be copied, if it comes to that. -/
def SendInRange (names : Nat → Pid) (target : Pid) (msgPayload : List UInt8)
    (msgPayloadSz : Int) : Prop :=
  if pidToGid target = 0 then
    pidToPoff target < maxRegNames ∧
      (names (pidToPoff target) ≠ 0 → PayloadFits msgPayloadSz →
        PayloadReads msgPayload msgPayloadSz ∧ pidToGid (names (pidToPoff target)) < maxDomains)
  else PayloadFits msgPayloadSz →
    PayloadReads msgPayload msgPayloadSz ∧ pidToGid target < maxDomains

/-- What `_send_indirect` says when a name is not registered. -/
def notRegistered : Stop := .fatal "Name not registered."

/-! ## What a dispatch may end with -/

theorem bind_eq_error {ε : Type u} {α β : Type u} {x : Except ε α} {f : α → Except ε β} {e : ε} :
    x >>= f = .error e ↔ x = .error e ∨ ∃ b, x = .ok b ∧ f b = .error e := by
  cases x with
  | error e' => simp [bind, Except.bind]
  | ok b => simp [bind, Except.bind]

theorem access_error {α : Type} {x : Option α} {stop : Stop} (h : access x = .error stop) :
    stop = .fault := by
  cases x with
  | none => exact (Except.error.inj h).symm
  | some a => cases h

theorem dispatchMsgSingle_error {p : ProcId} {msg : Message} {d : Domain} {stop : Stop}
    (h : dispatchMsgSingle p msg d = .error stop) : stop = .fault := by
  rcases bind_eq_error.1 h with h | ⟨process, _, h⟩
  · exact access_error h
  · dsimp only at h
    split at h
    · rcases bind_eq_error.1 h with h | ⟨_, _, h⟩
      · exact access_error h
      · cases h
    · cases h

theorem dispatchClones_error {msg : Message} {ps : List ProcId} {d : Domain} {stop : Stop}
    (h : dispatchClones msg ps d = .error stop) : stop = .fault := by
  induction ps generalizing d with
  | nil => cases h
  | cons p ps ih =>
      rcases bind_eq_error.1 h with h | ⟨d₁, _, h⟩
      · exact dispatchMsgSingle_error h
      · exact ih h

/-- A dispatch never calls `fatal`. -/
theorem dispatchMsgLocal_error {msg : Message} {d : Domain} {stop : Stop}
    (h : dispatchMsgLocal msg d = .error stop) : stop = .fault ∨ stop = .abort := by
  unfold dispatchMsgLocal at h
  dsimp only at h
  split at h
  · split at h
    · rcases bind_eq_error.1 h with h | ⟨_, _, h⟩
      · exact Or.inl (dispatchMsgSingle_error h)
      · cases h
    · cases h
  · split at h
    · rcases bind_eq_error.1 h with h | ⟨_, _, h⟩
      · rcases bind_eq_error.1 h with h | ⟨_, _, h⟩
        · exact Or.inl (dispatchClones_error h)
        · cases h
      · cases h
    · rcases bind_eq_error.1 h with h | ⟨_, _, h⟩
      · unfold dispatchSpecial at h
        split at h
        · cases h
        · exact Or.inr (Except.error.inj h).symm
      · cases h

/-! ## One call -/

section Call
variable {names : Nat → Pid} {target : Pid} (msgType : Int) (msgPayload : List UInt8)
  {msgPayloadSz : Int} (d : Domain)

/-- A call whose target does not resolve ends there. -/
theorem sendIndirect_unresolved (msgPayloadSz : Int) {stop : Stop}
    (h : resolveTarget names target = .error stop) :
    sendIndirect names target msgType msgPayload msgPayloadSz d = .error stop := by
  rw [sendIndirect, h]
  rfl

/-- A call whose payload does not fit says so. -/
theorem sendIndirect_big {pid : Pid} (h : resolveTarget names target = .ok pid)
    (hbig : ¬ PayloadFits msgPayloadSz) : ∃ text,
    sendIndirect names target msgType msgPayload msgPayloadSz d = .error (.fatal text) ∧
      text ≠ "Name not registered." := by
  have hcond : msgPayloadSz < 0 ∨ maxMsgPayloadSz < msgPayloadSz := by
    unfold PayloadFits at hbig
    omega
  rw [sendIndirect, h]
  refine ⟨_, if_pos hcond, fun heq => ?_⟩
  have hchars := congrArg String.toList heq
  simp [String.toList_append] at hchars

/-- A call whose payload ends early reads behind it. -/
theorem sendIndirect_short {pid : Pid} (h : resolveTarget names target = .ok pid)
    (hfits : PayloadFits msgPayloadSz) (hshort : ¬ PayloadReads msgPayload msgPayloadSz) :
    sendIndirect names target msgType msgPayload msgPayloadSz d = .error .fault := by
  have hcond : ¬ (msgPayloadSz < 0 ∨ maxMsgPayloadSz < msgPayloadSz) := by
    unfold PayloadFits at hfits
    omega
  rw [sendIndirect, h]
  show (if msgPayloadSz < 0 ∨ maxMsgPayloadSz < msgPayloadSz then _ else _) = _
  rw [if_neg hcond]
  exact if_pos (Nat.lt_of_not_le hshort)

/-- A call with a target and a payload that fits goes where the gid says. -/
theorem sendIndirect_resolved {pid : Pid} (h : resolveTarget names target = .ok pid)
    (hfits : PayloadFits msgPayloadSz) (hreads : PayloadReads msgPayload msgPayloadSz) :
    sendIndirect names target msgType msgPayload msgPayloadSz d =
      if pidToGid pid = d.gid then
        (dispatchMsgLocal (d.newMessage pid msgType msgPayload msgPayloadSz.toNat)
            (d.sending (d.newMessage pid msgType msgPayload msgPayloadSz.toNat))).map Prod.snd
      else if pidToGid pid < maxDomains then
        .ok ((d.sending (d.newMessage pid msgType msgPayload msgPayloadSz.toNat)).putOutbox
          (pidToGid pid) (d.newMessage pid msgType msgPayload msgPayloadSz.toNat))
      else .error .fault := by
  have hcond : ¬ (msgPayloadSz < 0 ∨ maxMsgPayloadSz < msgPayloadSz) := by
    unfold PayloadFits at hfits
    omega
  rw [sendIndirect, h]
  show (if msgPayloadSz < 0 ∨ maxMsgPayloadSz < msgPayloadSz then _ else _) = _
  rw [if_neg hcond]
  show (if msgPayload.length < msgPayloadSz.toNat then _ else _) = _
  rw [if_neg (Nat.not_lt.2 hreads)]
  show (if pidToGid pid = d.gid then _ else _) = _
  split
  · rcases hdis : dispatchMsgLocal (d.newMessage pid msgType msgPayload msgPayloadSz.toNat)
        (d.sending (d.newMessage pid msgType msgPayload msgPayloadSz.toNat)) with stop | ⟨k, d'⟩
    · show (dispatchMsgLocal _ _ >>= _) = _
      erw [hdis]
      rfl
    · show (dispatchMsgLocal _ _ >>= _) = _
      erw [hdis]
      rfl
  · rfl

/-- A call is safe as soon as its target resolves to a gid in range. -/
theorem sendSafe_of_resolved {pid : Pid} (hd : d.gid < maxDomains)
    (h : resolveTarget names target = .ok pid)
    (hgid : PayloadFits msgPayloadSz →
      PayloadReads msgPayload msgPayloadSz ∧ pidToGid pid < maxDomains) :
    SendSafe names target msgType msgPayload msgPayloadSz d := by
  by_cases hfits : PayloadFits msgPayloadSz
  · obtain ⟨hreads, hlt⟩ := hgid hfits
    have hsend := sendIndirect_resolved msgType msgPayload d h hfits hreads
    by_cases hown : pidToGid pid = d.gid
    · rw [if_pos hown] at hsend
      exact .dispatch pid h hreads ⟨hown, hd⟩ hsend
    · rw [if_neg hown, if_pos hlt] at hsend
      exact .outbox pid h hreads hlt hsend
  · obtain ⟨text, hsend, _⟩ := sendIndirect_big msgType msgPayload d h hfits
    exact .fatal text hsend

/-- A safe call copied its payload, if its target resolves and the payload fits. -/
theorem SendSafe.reads (hs : SendSafe names target msgType msgPayload msgPayloadSz d) {pid : Pid}
    (h : resolveTarget names target = .ok pid) (hfits : PayloadFits msgPayloadSz) :
    PayloadReads msgPayload msgPayloadSz := by
  cases hs with
  | fatal text hs =>
      by_contra hshort
      rw [sendIndirect_short msgType msgPayload d h hfits hshort] at hs
      cases hs
  | outbox pid' hpid' hreads hgid hs => exact hreads
  | dispatch pid' hpid' hreads hgid hs => exact hreads

/-- A safe call resolved to a gid in range, if its target resolves and its payload fits. -/
theorem SendSafe.gid_lt (hs : SendSafe names target msgType msgPayload msgPayloadSz d) {pid : Pid}
    (hd : d.gid < maxDomains) (h : resolveTarget names target = .ok pid)
    (hfits : PayloadFits msgPayloadSz) : pidToGid pid < maxDomains := by
  by_contra hge
  have hreads := hs.reads msgType msgPayload d h hfits
  have hsend := sendIndirect_resolved msgType msgPayload d h hfits hreads
  have hown : pidToGid pid ≠ d.gid := fun hown => hge (by rw [hown]; exact hd)
  rw [if_neg hown, if_neg hge] at hsend
  cases hs with
  | fatal text hs => rw [hsend] at hs; cases hs
  | outbox pid' hpid' _ hgid hs => rw [hsend] at hs; cases hs
  | dispatch pid' hpid' _ hgid hs =>
      obtain rfl : pid = pid' := Except.ok.inj (h.symm.trans hpid')
      exact hge (hgid.1 ▸ hgid.2)

/-- A name out of range is read past the end of the table. -/
theorem not_sendSafe_of_poff (hgid : pidToGid target = 0)
    (hpoff : ¬ pidToPoff target < maxRegNames) :
    ¬ SendSafe names target msgType msgPayload msgPayloadSz d := by
  have hfault : resolveTarget names target = .error .fault := by
    rw [resolveTarget, if_pos hgid, nameToPid, if_neg hpoff]
    rfl
  have hsend := sendIndirect_unresolved msgType msgPayload d msgPayloadSz hfault
  intro hs
  cases hs with
  | fatal text hs => rw [hsend] at hs; cases hs
  | outbox pid hpid _ _ _ => rw [hfault] at hpid; cases hpid
  | dispatch pid hpid _ _ _ => rw [hfault] at hpid; cases hpid

/-- A name in range resolves to what is registered under it. -/
theorem resolveTarget_name (names : Nat → Pid) (hgid : pidToGid target = 0)
    (hpoff : pidToPoff target < maxRegNames) :
    resolveTarget names target
      = if names (pidToPoff target) = 0 then .error notRegistered
        else .ok (names (pidToPoff target)) := by
  rw [resolveTarget, if_pos hgid, nameToPid, if_pos hpoff]
  rfl

/-- One call is safe exactly if its indices are in range. -/
theorem sendSafe_iff (hd : d.gid < maxDomains) :
    SendSafe names target msgType msgPayload msgPayloadSz d
      ↔ SendInRange names target msgPayload msgPayloadSz := by
  unfold SendInRange
  split
  · rename_i hgid
    by_cases hpoff : pidToPoff target < maxRegNames
    · have hres := resolveTarget_name names hgid hpoff
      by_cases hname : names (pidToPoff target) = 0
      · rw [if_pos hname] at hres
        refine ⟨fun _ => ⟨hpoff, fun hne => absurd hname hne⟩, fun _ => ?_⟩
        exact .fatal _ (sendIndirect_unresolved msgType msgPayload d msgPayloadSz hres)
      · rw [if_neg hname] at hres
        exact ⟨fun hs => ⟨hpoff, fun _ hfits => ⟨hs.reads msgType msgPayload d hres hfits,
            hs.gid_lt msgType msgPayload d hd hres hfits⟩⟩,
          fun h => sendSafe_of_resolved msgType msgPayload d hd hres (h.2 hname)⟩
    · exact ⟨fun hs => absurd hs (not_sendSafe_of_poff msgType msgPayload d hgid hpoff),
        fun h => absurd h.1 hpoff⟩
  · rename_i hgid
    have hres : resolveTarget names target = .ok target := by
      rw [resolveTarget, if_neg hgid]
    exact ⟨fun hs hfits => ⟨hs.reads msgType msgPayload d hres hfits,
        hs.gid_lt msgType msgPayload d hd hres hfits⟩,
      fun h => sendSafe_of_resolved msgType msgPayload d hd hres h⟩

/-- A name is found unregistered exactly if it is in range and nothing stands there. -/
theorem sendIndirect_notRegistered (hgid : pidToGid target = 0) :
    sendIndirect names target msgType msgPayload msgPayloadSz d = .error notRegistered
      ↔ pidToPoff target < maxRegNames ∧ names (pidToPoff target) = 0 := by
  by_cases hpoff : pidToPoff target < maxRegNames
  · have hres := resolveTarget_name names hgid hpoff
    by_cases hname : names (pidToPoff target) = 0
    · rw [if_pos hname] at hres
      exact ⟨fun _ => ⟨hpoff, hname⟩, fun _ => sendIndirect_unresolved msgType msgPayload d _ hres⟩
    · rw [if_neg hname] at hres
      refine ⟨fun hsend => ?_, fun h => absurd h.2 hname⟩
      exfalso
      by_cases hfits : PayloadFits msgPayloadSz
      · -- then the message goes somewhere, and no dispatch ends like that
        have hreads : PayloadReads msgPayload msgPayloadSz := by
          by_contra hshort
          rw [sendIndirect_short msgType msgPayload d hres hfits hshort] at hsend
          cases hsend
        have hgo := sendIndirect_resolved msgType msgPayload d hres hfits hreads
        rw [hsend] at hgo
        split at hgo
        · rcases hdis : dispatchMsgLocal
            (d.newMessage (names (pidToPoff target)) msgType msgPayload msgPayloadSz.toNat)
            (d.sending (d.newMessage (names (pidToPoff target)) msgType msgPayload
              msgPayloadSz.toNat)) with stop | ⟨k, d'⟩
          · rw [hdis] at hgo
            obtain rfl : notRegistered = stop := Except.error.inj hgo
            rcases dispatchMsgLocal_error hdis with h | h <;> cases h
          · rw [hdis] at hgo
            cases hgo
        · split at hgo <;> cases hgo
      · obtain ⟨text, hbig, hne⟩ := sendIndirect_big msgType msgPayload d hres hfits
        rw [hbig] at hsend
        cases hsend
        exact hne rfl
  · have hfault : resolveTarget names target = .error .fault := by
      rw [resolveTarget, if_pos hgid, nameToPid, if_neg hpoff]
      rfl
    rw [sendIndirect_unresolved msgType msgPayload d _ hfault]
    exact ⟨fun h => (by cases h), fun h => absurd h.1 hpoff⟩

end Call

/-! ## Names -/

/-- A base and the poffs under which something has been registered. -/
structure Registry where
  base : Base
  taken : List Nat

/-- The start. -/
def Registry.new : Registry := ⟨Base.new, []⟩

/-- The poff an act registers. -/
def BaseAct.registers : BaseAct → List Nat
  | .register _ name => [pidToPoff name]
  | _ => []

/-- A step of the base. -/
def Registry.step (a : BaseAct) (r : Registry) : Except Stop Registry :=
  match r.base.step a with
  | .ok base => .ok ⟨base, r.taken ++ a.registers⟩
  | .error stop => .error stop

theorem registry_step {a : BaseAct} {r r' : Registry} (h : r.step a = .ok r') :
    r.base.step a = .ok r'.base ∧ r'.taken = r.taken ++ a.registers := by
  unfold Registry.step at h
  split at h
  · rename_i base hbase
    cases h
    exact ⟨hbase, rfl⟩
  · cases h

/-- What an act registers is all that it changes in the table of names. -/
theorem names_step {a : BaseAct} {b b' : Base} (h : b.step a = .ok b') {poff : Nat}
    (hnot : poff ∉ a.registers) : b'.nameToPid poff = b.nameToPid poff := by
  cases a with
  | register pid name =>
      have hne : poff ≠ pidToPoff name := fun heq => hnot (heq ▸ List.mem_singleton_self _)
      simp only [Base.step, msockRegister] at h
      split_ifs at h
      rw [← Except.ok.inj h]
      exact Function.update_of_ne hne _ _
  | domainNew maxProcesses => cases baseStep_cases h; rfl
  | run gid a => cases baseStep_cases h; rfl
  | flush gid => cases baseStep_cases h <;> rfl
  | wake gid => cases baseStep_cases h; rfl

/-- Nothing is found under a name that was never registered. -/
theorem unregistered_reachable {r : Registry} (hr : Runs Registry.step anyAct Registry.new r)
    {poff : Nat} (hnot : poff ∉ r.taken) : r.base.nameToPid poff = 0 := by
  refine Runs.invariant (I := fun r => poff ∉ r.taken → r.base.nameToPid poff = 0) hr ?_
    (fun _ => rfl) hnot
  intro a t t' ht _ hstep hnot
  obtain ⟨hbase, htaken⟩ := registry_step hstep
  rw [htaken, List.mem_append, not_or] at hnot
  rw [names_step hbase hnot.2]
  exact ht hnot.1

/-- A domain's gid is inside the arrays. -/
theorem gid_reachable {r : Registry} (hr : Runs Registry.step anyAct Registry.new r) {gid : Nat}
    {d : Domain} (hd : r.base.gidToDomain gid = some d) : d.gid < maxDomains := by
  refine Runs.invariant
    (I := fun r => ∀ gid d, r.base.gidToDomain gid = some d → d.gid < maxDomains) hr ?_
    (fun _ _ h => by cases h) gid d hd
  intro a t t' ht _ hstep
  refine local_step (P := fun _ => True) (fun _ _ _ hlt _ => hlt) ?_ (fun _ _ => trivial)
    (registry_step hstep).1 ht
  intro _ d₁ d₂ act hlt hact
  have hgid : d₂.gid = d₁.gid := (rosterStep_limits (act_roster hact)).1
  rw [hgid]
  exact hlt

/-- `msock_register` takes a name exactly if it is one, in range and not taken. -/
theorem msockRegister_ok {pid name : Pid} {b : Base} (hgid : pidToGid name = 0) :
    (∃ b', msockRegister pid name b = .ok b')
      ↔ pidToPoff name < maxRegNames ∧ b.nameToPid (pidToPoff name) = 0 := by
  unfold msockRegister
  rw [if_neg (not_not.2 hgid)]
  split_ifs with hpoff hname
  · simp [Nat.not_lt.2 hpoff]
  · exact ⟨fun ⟨b', h⟩ => (by cases h), fun h => absurd h.2 hname⟩
  · simp [Nat.lt_of_not_le hpoff, not_not.1 hname]

/--
**Sending to any pid.**

In every base reached, whatever the names and the target: a call of `_send_indirect` is
safe, and finds a name that was never registered unregistered, exactly if both indices
it uses are in range and the payload it copies is there to read; and what it finds
unregistered is what `msock_register` would accept.
-/
theorem send_safe_iff (r : Registry) (hr : Runs Registry.step anyAct Registry.new r) (gid : Nat)
    (d : Domain) (hd : r.base.gidToDomain gid = some d) (target : Pid) (msgType : Int)
    (msgPayload : List UInt8) (msgPayloadSz : Int) :
    (SendSafe r.base.nameToPid target msgType msgPayload msgPayloadSz d ∧
        (pidToGid target = 0 → pidToPoff target ∉ r.taken →
          sendIndirect r.base.nameToPid target msgType msgPayload msgPayloadSz d
            = .error notRegistered)
      ↔ SendInRange r.base.nameToPid target msgPayload msgPayloadSz) ∧
    (pidToGid target = 0 → ∀ pid,
      (sendIndirect r.base.nameToPid target msgType msgPayload msgPayloadSz d
          = .error notRegistered ↔ ∃ b', msockRegister pid target r.base = .ok b')) := by
  refine ⟨⟨fun h => (sendSafe_iff msgType msgPayload d (gid_reachable hr hd)).1 h.1,
    fun hrange => ?_⟩, ?_⟩
  · refine ⟨(sendSafe_iff msgType msgPayload d (gid_reachable hr hd)).2 hrange, fun hgid hnot => ?_⟩
    rw [SendInRange, if_pos hgid] at hrange
    exact (sendIndirect_notRegistered msgType msgPayload d hgid).2
      ⟨hrange.1, unregistered_reachable hr hnot⟩
  · intro hgid pid
    rw [sendIndirect_notRegistered msgType msgPayload d hgid, msockRegister_ok hgid]

/-- A base with one domain: a send to a name that nobody has. -/
theorem send_safe_iff_one_domain : ∃ (b : Base) (d : Domain), b.gidToDomain 1 = some d ∧
    SendSafe b.nameToPid 7 3 [] 0 d := by
  obtain ⟨r, hr, h⟩ := exists_run (show (runActs Registry.step anyAct [.domainNew 4]
      Registry.new).any (fun r => (r.base.gidToDomain 1).isSome && decide (r.base.nameToPid 7 = 0))
      = true by decide +kernel)
  rw [Bool.and_eq_true, Option.isSome_iff_exists, decide_eq_true_eq] at h
  obtain ⟨⟨d, hd⟩, hname⟩ := h
  refine ⟨r.base, d, hd, ((send_safe_iff r hr 1 d hd 7 3 [] 0).1.2 ?_).1⟩
  rw [SendInRange, if_pos (by decide)]
  exact ⟨by decide, fun hne => absurd hname hne⟩

/-- A base with one domain: a send to the name 32, which is past the end of the table. -/
theorem send_reads_past_names : ∃ (b : Base) (d : Domain),
    Runs Base.step anyAct Base.new b ∧ b.gidToDomain 1 = some d ∧
      ¬ SendSafe b.nameToPid 32 3 [] 0 d := by
  obtain ⟨b, hr, h⟩ := exists_run (show (runActs Base.step anyAct [.domainNew 4]
      Base.new).any (fun b => (b.gidToDomain 1).isSome) = true by decide +kernel)
  obtain ⟨d, hd⟩ := Option.isSome_iff_exists.1 h
  exact ⟨b, d, hr, hd, not_sendSafe_of_poff 3 [] d (by decide) (by decide)⟩

end Msock
