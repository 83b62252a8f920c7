import Msock.Base.Sending

/-!
# Making a base

`msock_engine.c` and the constructors of the engines. The table of engines is filled before
`main`, by constructors of the program that run in no particular order; `msock_base_new` starts
the engines that it is asked for, and the user's domain always. What it returns is where every
run of the base starts.
-/

namespace Msock

open Lib

variable {b b' : Base} {maxOpenFiles maxProcesses engines : Nat}

/-! ## The engines -/

/-- `PID_SELECT`. -/
def pidSelect : Pid := 1
/-- `PID_IO`. -/
def pidIo : Pid := 3
/-- `PID_SIGNAL`. -/
def pidSignal : Pid := 4

/-- `MSOCK_ENGINE_MASK_USER`. -/
def msockEngineMaskUser : Nat := 1 <<< 1
/-- `MSOCK_ENGINE_MASK_SELECT`. -/
def msockEngineMaskSelect : Nat := 1 <<< 2
/-- `MSOCK_ENGINE_MASK_IO`. -/
def msockEngineMaskIo : Nat := 1 <<< 3
/-- `MSOCK_ENGINE_MASK_SIGNAL`. -/
def msockEngineMaskSignal : Nat := 1 <<< 4

/-- `struct engine_proto`: its constructor, a function of the user's number of processes. -/
structure EngineProto where
  construct : Nat → Base → Except Stop Base

/-- What the constructors of the engines with a process of their own do to the base: a domain
with one slot, a hungry process with the engine's `process_callback`, and its name. -/
def engineConstructor (processCallback : Nat) (name : Pid) (b : Base) : Except Stop Base := do
  let gid ← findFreeGid b
  let b ← domainNew 1 b
  let d ← b.domain gid
  let (p, d') ← processNew (some processCallback) true d
  let process ← access (d'.process p)
  msockRegister process.pid name (b.setDomain gid d d')

/-- `engine_epoll`, or `engine_select`. -/
def engineEpoll : EngineProto := ⟨fun _ => engineConstructor 0 pidSelect⟩

/-- `engine_io`. -/
def engineIo : EngineProto := ⟨fun _ => engineConstructor 1 pidIo⟩

/-- `engine_user` of `msock_engine_signal.c`. -/
def engineSignal : EngineProto := ⟨fun _ => engineConstructor 2 pidSignal⟩

/-- The processes of the user's domain. -/
def userSlots (maxOpenFiles userMaxProcesses : Nat) : Nat :=
  if userMaxProcesses = 0 then maxOpenFiles + 1 else userMaxProcesses

/-- `engine_user` of `msock_engine_user.c`. -/
def engineUser (maxOpenFiles : Nat) : EngineProto :=
  ⟨fun userMaxProcesses => domainNew (userSlots maxOpenFiles userMaxProcesses)⟩

/-- `engine_prototypes`. -/
abbrev EnginePrototypes := Nat → Option EngineProto

/-- `msock_register_engine`. -/
def msockRegisterEngine (engineMask : Nat) (ep : EngineProto) (prototypes : EnginePrototypes) :
    Except Stop EnginePrototypes :=
  (List.range maxDomains).foldlM (fun prototypes engineType =>
    if engineMask.testBit engineType then
      if (prototypes engineType).isSome then
        .error (.fatal ("Engine " ++ toString engineType ++ " already registered."))
      else .ok (Function.update prototypes engineType (some ep))
    else .ok prototypes) prototypes

/-- `engines_start`. -/
def enginesStart (prototypes : EnginePrototypes) (engineMask maxProcesses : Nat) (b : Base) :
    Except Stop Base :=
  (List.range maxDomains).foldlM (fun b et =>
    if engineMask.testBit et then
      match prototypes et with
      | none => .error (.fatal ("Unsupported engine idx=" ++ toString et ++ " mask=0x" ++
          String.ofList (Nat.toDigits 16 (1 <<< et))))
      | some proto => proto.construct maxProcesses b
    else .ok b) b

/-- `msock_base_new`. -/
def msockBaseNew (prototypes : EnginePrototypes) (engines maxProcesses : Nat) : Except Stop Base :=
  enginesStart prototypes (engines ||| msockEngineMaskUser) maxProcesses Base.new

/-- The four uses of `REGISTER_ENGINE`. -/
def registrations (maxOpenFiles : Nat) : List (Nat × EngineProto) :=
  [(msockEngineMaskUser, engineUser maxOpenFiles), (msockEngineMaskSelect, engineEpoll),
    (msockEngineMaskIo, engineIo), (msockEngineMaskSignal, engineSignal)]

/-- What runs before `main`. -/
def registerEngines (order : List (Nat × EngineProto)) : Except Stop EnginePrototypes :=
  order.foldlM (fun prototypes e => msockRegisterEngine e.1 e.2 prototypes) (fun _ => none)

/-! ## Before main -/

/-- One use of `REGISTER_ENGINE`. -/
theorem msockRegisterEngine_eq {i : Nat} (hi : i < maxDomains) (ep : EngineProto)
    (prototypes : EnginePrototypes) (hfree : prototypes i = none) :
    msockRegisterEngine (1 <<< i) ep prototypes = .ok (Function.update prototypes i (some ep)) := by
  have hbit : ∀ j, (1 <<< i).testBit j = decide (i = j) := fun j => by
    rw [Nat.one_shiftLeft, Nat.testBit_two_pow]
  have hloop : ∀ (l : List Nat) (table : EnginePrototypes), i ∉ l →
      l.foldlM (fun (prototypes : EnginePrototypes) engineType =>
        if (1 <<< i).testBit engineType then
          if (prototypes engineType).isSome then
            (.error (.fatal ("Engine " ++ toString engineType ++ " already registered.")) :
              Except Stop EnginePrototypes)
          else .ok (Function.update prototypes engineType (some ep))
        else .ok prototypes) table = .ok table := by
    intro l
    induction l with
    | nil => exact fun _ _ => rfl
    | cons j l ih =>
        intro table hnot
        rw [List.mem_cons, not_or] at hnot
        rw [List.foldlM_cons, hbit, if_neg (by simpa using hnot.1)]
        exact ih table hnot.2
  obtain ⟨l₁, l₂, hsplit⟩ := List.append_of_mem (List.mem_range.2 hi)
  have hnodup := List.nodup_range (n := maxDomains)
  rw [hsplit] at hnodup
  have hnot₁ : i ∉ l₁ := fun hm =>
    List.disjoint_of_nodup_append hnodup hm List.mem_cons_self
  have hnot₂ : i ∉ l₂ := (List.nodup_cons.1 (List.nodup_append.1 hnodup).2.1).1
  rw [msockRegisterEngine, hsplit, List.foldlM_append, hloop l₁ prototypes hnot₁]
  refine bind_eq_ok.2 ⟨prototypes, rfl, ?_⟩
  rw [List.foldlM_cons, hbit, if_pos (by simp), hfree]
  exact hloop l₂ _ hnot₂

/-- The table of `msock_engine.c` once `main` runs. -/
def enginePrototypes (maxOpenFiles : Nat) : EnginePrototypes
  | 1 => some (engineUser maxOpenFiles)
  | 2 => some engineEpoll
  | 3 => some engineIo
  | 4 => some engineSignal
  | _ => none

/-- The same four, by their number. -/
def numbered (maxOpenFiles : Nat) : List (Nat × EngineProto) :=
  [(1, engineUser maxOpenFiles), (2, engineEpoll), (3, engineIo), (4, engineSignal)]

/-- Different engines fill the table one after the other. -/
theorem registerEngines_eq {l : List (Nat × EngineProto)} (hl : ∀ e ∈ l, e.1 < maxDomains)
    (hnodup : (l.map Prod.fst).Nodup) (prototypes : EnginePrototypes)
    (hfree : ∀ e ∈ l, prototypes e.1 = none) :
    (l.map (fun e => (1 <<< e.1, e.2))).foldlM
        (fun prototypes e => msockRegisterEngine e.1 e.2 prototypes) prototypes
      = .ok (l.foldl (fun prototypes e => Function.update prototypes e.1 (some e.2)) prototypes) := by
  induction l generalizing prototypes with
  | nil => rfl
  | cons e l ih =>
      rw [List.map_cons, List.nodup_cons] at hnodup
      rw [List.map_cons, List.foldlM_cons, List.foldl_cons,
        msockRegisterEngine_eq (hl e List.mem_cons_self) e.2 prototypes (hfree e List.mem_cons_self)]
      refine ih (fun x hx => hl x (List.mem_cons_of_mem _ hx)) hnodup.2 _ fun x hx => ?_
      have hne : x.1 ≠ e.1 := fun he => hnodup.1 (he ▸ List.mem_map_of_mem hx)
      rw [Function.update_of_ne hne]
      exact hfree x (List.mem_cons_of_mem _ hx)

/-- **The order of the constructors does not matter.** -/
theorem registerEngines_perm {order : List (Nat × EngineProto)}
    (horder : order.Perm (registrations maxOpenFiles)) :
    registerEngines order = .ok (enginePrototypes maxOpenFiles) := by
  -- a registration is known by the number of its bit
  have hmap : registrations maxOpenFiles
      = (numbered maxOpenFiles).map (fun e => (1 <<< e.1, e.2)) := rfl
  have hlog : ∀ e : Nat × EngineProto, (Nat.log2 (1 <<< e.1), e.2) = e := fun e => by
    rw [Nat.one_shiftLeft, Nat.log2_two_pow]
  have hback : ∀ e ∈ order, (1 <<< Nat.log2 e.1, e.2) = e := by
    intro e he
    have hmem := horder.mem_iff.1 he
    rw [hmap, List.mem_map] at hmem
    obtain ⟨x, _, rfl⟩ := hmem
    exact congrArg (fun e : Nat × EngineProto => (1 <<< e.1, e.2)) (hlog x)
  have horder' : order = (order.map (fun e => (Nat.log2 e.1, e.2))).map
      (fun e => (1 <<< e.1, e.2)) := by
    rw [List.map_map]
    exact (List.map_id order).symm.trans (List.map_congr_left fun e he => (hback e he).symm)
  have hperm : (order.map (fun e => (Nat.log2 e.1, e.2))).Perm (numbered maxOpenFiles) := by
    have hmapped := horder.map (fun e => (Nat.log2 e.1, e.2))
    rw [hmap, List.map_map] at hmapped
    have hid : (numbered maxOpenFiles).map
        ((fun e => (Nat.log2 e.1, e.2)) ∘ fun e => (1 <<< e.1, e.2)) = numbered maxOpenFiles :=
      (List.map_congr_left fun e _ => hlog e).trans (List.map_id _)
    rwa [hid] at hmapped
  have hnodup : ((numbered maxOpenFiles).map Prod.fst).Nodup := by
    show [1, 2, 3, 4].Nodup
    decide
  have hlt : ∀ e ∈ numbered maxOpenFiles, e.1 < maxDomains := by
    intro e he
    simp only [numbered, List.mem_cons, List.not_mem_nil, or_false] at he
    unfold maxDomains
    rcases he with rfl | rfl | rfl | rfl <;> omega
  rw [registerEngines, horder',
    registerEngines_eq (fun e he => hlt e (hperm.mem_iff.1 he))
      ((hperm.map Prod.fst).nodup_iff.2 hnodup) _ (fun _ _ => rfl)]
  -- two writes to different entries commute
  have hcomm : ∀ e ∈ order.map (fun e => (Nat.log2 e.1, e.2)),
      ∀ e' ∈ order.map (fun e => (Nat.log2 e.1, e.2)), ∀ prototypes : EnginePrototypes,
      Function.update (Function.update prototypes e.1 (some e.2)) e'.1 (some e'.2)
        = Function.update (Function.update prototypes e'.1 (some e'.2)) e.1 (some e.2) := by
    intro e he e' he' prototypes
    by_cases hee : e = e'
    · rw [hee]
    · refine Function.update_comm (fun heq => hee ?_) _ _ _
      exact List.inj_on_of_nodup_map ((hperm.map Prod.fst).nodup_iff.2 hnodup) he he' heq
  rw [hperm.foldl_eq' hcomm]
  congr 1
  funext i
  match i with
  | 0 | 1 | 2 | 3 | 4 => rfl
  | n + 5 => simp [numbered, enginePrototypes, Function.update]

/-! ## The engines that are started -/

/-- The engines with a process of their own. -/
inductive EngineKind where
  | select
  | io
  | signal
  deriving DecidableEq

/-- The number of its bit, which is its place in `engine_prototypes`. -/
def EngineKind.idx : EngineKind → Nat
  | .select => 2
  | .io => 3
  | .signal => 4

/-- The name its process is registered under. -/
def EngineKind.name : EngineKind → Pid
  | .select => pidSelect
  | .io => pidIo
  | .signal => pidSignal

/-- Its `process_callback`. -/
def EngineKind.processCallback : EngineKind → Nat
  | .select => 0
  | .io => 1
  | .signal => 2

/-- The engines that are asked for, in the order in which they are started. -/
def asked (engines : Nat) : List EngineKind :=
  [.select, .io, .signal].filter (fun kind => engines.testBit kind.idx)

/-- The domain of an engine as its constructor leaves it: its process, hungry and alone. -/
structure EngineDomain (kind : EngineKind) (gid : Nat) (d : Domain) : Prop where
  gid_eq : d.gid = gid
  listOfProcesses : d.listOfProcesses = [0]
  hungry : d.listOfHungryProcesses = [0]
  process : d.process 0
    = some ⟨poffGidToPid 2 gid, Queue.init, Queue.init, some kind.processCallback⟩
  phase : d.phase = .idle

/-- The user's domain comes first, the engines follow, and each is known by its name. -/
structure Booted (kinds : List EngineKind) (maxProcesses : Nat) (b : Base) : Prop where
  listed : b.listOfDomains = List.range' 1 (kinds.length + 1)
  user : b.gidToDomain 1 = some (Domain.new 1 maxProcesses)
  engine : ∀ i kind, kinds[i]? = some kind → ∃ d, b.gidToDomain (i + 2) = some d ∧
    EngineDomain kind (i + 2) d ∧ b.nameToPid (pidToPoff kind.name) = poffGidToPid 2 (i + 2)
  free : ∀ gid, gid = 0 ∨ kinds.length + 2 ≤ gid → b.gidToDomain gid = none
  unnamed : ∀ poff, (∀ kind ∈ kinds, pidToPoff kind.name ≠ poff) → b.nameToPid poff = 0

theorem EngineKind.name_fields (kind : EngineKind) :
    pidToGid kind.name = 0 ∧ pidToPoff kind.name < maxRegNames := by
  cases kind <;> decide

theorem EngineKind.name_injective {kind kind' : EngineKind}
    (h : pidToPoff kind.name = pidToPoff kind'.name) : kind = kind' := by
  cases kind <;> cases kind' <;> first | rfl | exact absurd h (by decide)

/-- The process of an engine gets the second number of the only slot. -/
theorem processNew_engine (kind : EngineKind) (gid : Nat) :
    ∃ d, processNew (some kind.processCallback) true (Domain.new gid 1) = .ok (0, d) ∧
      EngineDomain kind gid d := by
  obtain ⟨umap, hadd⟩ : ∃ umap, umapAdd (umapNew 1 pidMaxCounter) (0 : ProcId) = some (2, umap) := by
    have hfirst : (umapAdd (umapNew 1 pidMaxCounter) (0 : ProcId)).map Prod.fst = some 2 := by
      decide +kernel
    obtain ⟨result, hresult, htwo⟩ := Option.map_eq_some_iff.1 hfirst
    exact ⟨result.2, by rw [hresult, ← htwo]⟩
  have hnew : processNew (some kind.processCallback) true (Domain.new gid 1)
      = .ok (0, (Domain.new gid 1).addProcess 2 umap (some kind.processCallback) true) := by
    unfold processNew
    dsimp only
    split
    · rename_i hnone
      have hnone : umapAdd (umapNew 1 pidMaxCounter) (0 : ProcId) = none := hnone
      rw [hadd] at hnone
      cases hnone
    · rename_i poff umap' hsome
      have hsome : umapAdd (umapNew 1 pidMaxCounter) (0 : ProcId) = some (poff, umap') := hsome
      obtain ⟨rfl, rfl⟩ : 2 = poff ∧ umap = umap' := by
        rw [hadd] at hsome
        simpa using hsome
      rfl
  refine ⟨_, hnew, rfl, rfl, rfl, ?_, rfl⟩
  simp [Domain.addProcess, Domain.new]

/-- The next gid is free. -/
theorem Booted.findFreeGid {kinds : List EngineKind} (hb : Booted kinds maxProcesses b)
    (hlen : kinds.length + 2 < maxDomains) : findFreeGid b = .ok (kinds.length + 2) := by
  have htaken : ∀ gid, 0 < gid → gid < kinds.length + 2 → (b.gidToDomain gid).isNone = false := by
    intro gid hpos hlt
    by_cases hone : gid = 1
    · rw [hone, hb.user]
      rfl
    · obtain ⟨i, rfl⟩ : ∃ i, gid = i + 2 := ⟨gid - 2, by omega⟩
      obtain ⟨d, hd, _⟩ := hb.engine i _ (List.getElem?_eq_getElem (by omega))
      rw [hd]
      rfl
  have hfree : (b.gidToDomain (kinds.length + 2)).isNone = true := by
    rw [hb.free _ (Or.inr (Nat.le_refl _))]
    rfl
  have hfind : (List.range' 1 (maxDomains - 1)).find? (fun gid => (b.gidToDomain gid).isNone)
      = some (kinds.length + 2) := by
    rw [List.find?_range'_eq_some]
    refine ⟨hfree, ?_, fun gid hle hlt => ?_⟩
    · rw [List.mem_range'_1]
      omega
    · rw [htaken gid hle hlt]
      rfl
  rw [Msock.findFreeGid, hfind]

/-- **One engine is started.** -/
theorem engineConstructor_booted {kinds : List EngineKind} {kind : EngineKind}
    (hb : Booted kinds maxProcesses b) (hlen : kinds.length + 2 < maxDomains) (hnew : kind ∉ kinds) :
    ∃ b', engineConstructor kind.processCallback kind.name b = .ok b' ∧
      Runs Base.step slots b b' ∧ Booted (kinds ++ [kind]) maxProcesses b' := by
  have hgid := hb.findFreeGid hlen
  generalize hg : kinds.length + 2 = g at hgid hlen
  -- the domain, its process, and the name
  have hdomain : domainNew 1 b = .ok { b with
      gidToDomain := Function.update b.gidToDomain g (some (Domain.new g 1))
      listOfDomains := b.listOfDomains ++ [g] } := by
    rw [domainNew, hgid]
    rfl
  generalize hb₁ : ({ b with
      gidToDomain := Function.update b.gidToDomain g (some (Domain.new g 1))
      listOfDomains := b.listOfDomains ++ [g] } : Base) = b₁ at hdomain
  have hd₁ : b₁.gidToDomain g = some (Domain.new g 1) := by
    rw [← hb₁]
    exact Function.update_self ..
  obtain ⟨d, hprocess, hengine⟩ := processNew_engine kind g
  have hname : msockRegister (poffGidToPid 2 g) kind.name (b₁.setDomain g (Domain.new g 1) d)
      = .ok { b₁.setDomain g (Domain.new g 1) d with
          nameToPid := Function.update b₁.nameToPid (pidToPoff kind.name) (poffGidToPid 2 g) } := by
    obtain ⟨hzero, hlt⟩ := kind.name_fields
    have hunnamed : (b₁.setDomain g (Domain.new g 1) d).nameToPid (pidToPoff kind.name) = 0 := by
      show b₁.nameToPid (pidToPoff kind.name) = 0
      rw [← hb₁]
      refine hb.unnamed _ fun kind' hmem heq => hnew ?_
      rw [← EngineKind.name_injective heq]
      exact hmem
    rw [msockRegister, if_neg (not_not.2 hzero), if_neg (Nat.not_le.2 hlt),
      if_neg (not_not.2 hunnamed)]
    rfl
  generalize hb₂ : ({ b₁.setDomain g (Domain.new g 1) d with
      nameToPid := Function.update b₁.nameToPid (pidToPoff kind.name) (poffGidToPid 2 g) } : Base)
    = b₂ at hname
  have hconstruct : engineConstructor kind.processCallback kind.name b = .ok b₂ := by
    refine bind_eq_ok.2 ⟨g, hgid, bind_eq_ok.2 ⟨b₁, hdomain, bind_eq_ok.2
      ⟨_, domain_eq_ok.2 hd₁, bind_eq_ok.2 ⟨(0, d), hprocess, ?_⟩⟩⟩⟩
    exact bind_eq_ok.2 ⟨_, access_eq_ok.2 hengine.process, hname⟩
  have hspawn : b₁.step (.run g (.baseSpawn (some kind.processCallback) true))
      = .ok (b₁.setDomain g (Domain.new g 1) d) := by
    have hallowed : (Act.baseSpawn (some kind.processCallback) true).allowed g = true := by
      simp [Act.allowed]
    rw [Base.step, if_pos hallowed]
    refine bind_eq_ok.2 ⟨_, domain_eq_ok.2 hd₁, bind_eq_ok.2 ⟨d, ?_, rfl⟩⟩
    exact bind_eq_ok.2 ⟨_, hprocess, rfl⟩
  have hruns : Runs Base.step slots b b₂ := by
    have h₁ : Runs Base.step slots b b₁ := Runs.single (a := .domainNew 1) ⟨by omega, by omega⟩ hdomain
    have h₂ : Runs Base.step slots b₁ _ :=
      Runs.single (a := .run g (.baseSpawn (some kind.processCallback) true)) trivial hspawn
    have h₃ : Runs Base.step slots _ b₂ :=
      Runs.single (a := .register (poffGidToPid 2 g) kind.name) trivial hname
    exact (h₁.trans h₂).trans h₃
  refine ⟨b₂, hconstruct, hruns, ?_⟩
  have hdomains : b₂.gidToDomain = Function.update b.gidToDomain g (some d) := by
    rw [← hb₂, ← hb₁]
    exact Function.update_idem ..
  have hnames : b₂.nameToPid
      = Function.update b.nameToPid (pidToPoff kind.name) (poffGidToPid 2 g) := by
    rw [← hb₂, ← hb₁]
  have hlisted : b₂.listOfDomains = b.listOfDomains ++ [g] := by
    rw [← hb₂, ← hb₁]
    rfl
  refine ⟨?_, ?_, fun i kind' hi => ?_, fun gid hout => ?_, fun poff hother => ?_⟩
  · have hlast : List.range' 1 (kinds.length + 1 + 1) = List.range' 1 (kinds.length + 1) ++ [g] := by
      rw [List.range'_concat, Nat.one_mul, ← hg, Nat.add_comm 1]
    rw [hlisted, hb.listed, List.length_append, List.length_singleton, hlast]
  · rw [hdomains, Function.update_of_ne (by omega)]
    exact hb.user
  · by_cases hlast : i = kinds.length
    · subst hlast
      obtain rfl : kind = kind' := by simpa using hi
      refine ⟨d, ?_, ?_, ?_⟩
      · rw [hdomains, hg, Function.update_self]
      · rw [hg]
        exact hengine
      · rw [hnames, hg, Function.update_self]
    · have hlt : i < kinds.length := by
        have := (List.getElem?_eq_some_iff.1 hi).1
        rw [List.length_append, List.length_singleton] at this
        omega
      rw [List.getElem?_append_left hlt] at hi
      obtain ⟨d', hd', hengine', hnamed⟩ := hb.engine i kind' hi
      refine ⟨d', ?_, hengine', ?_⟩
      · rw [hdomains, Function.update_of_ne (by omega)]
        exact hd'
      · rw [hnames, Function.update_of_ne, hnamed]
        intro heq
        exact hnew (EngineKind.name_injective heq ▸ List.mem_of_getElem? hi)
  · rw [List.length_append, List.length_singleton] at hout
    rw [hdomains, Function.update_of_ne (by omega)]
    exact hb.free gid (by omega)
  · rw [hnames, Function.update_of_ne]
    · exact hb.unnamed poff fun kind' hmem => hother kind' (List.mem_append_left _ hmem)
    · exact fun heq => hother kind (List.mem_append_right _ (List.mem_singleton_self kind)) heq.symm

/-! ## All of them -/

/-- One round of `engines_start` for an engine with a process. -/
theorem start_round {kinds : List EngineKind} (kind : EngineKind) (engineMask : Nat)
    (hb : Booted kinds maxProcesses b) (hlen : kinds.length + 2 < maxDomains)
    (hnew : kind ∉ kinds) :
    ∃ b', (if engineMask.testBit kind.idx then engineConstructor kind.processCallback kind.name b
        else .ok b) = .ok b' ∧ Runs Base.step slots b b' ∧
      Booted (kinds ++ [kind].filter (fun k => engineMask.testBit k.idx)) maxProcesses b' := by
  by_cases hbit : engineMask.testBit kind.idx = true
  · obtain ⟨b', hconstruct, hruns, hbooted⟩ := engineConstructor_booted hb hlen hnew
    refine ⟨b', by rw [if_pos hbit, hconstruct], hruns, ?_⟩
    rw [List.filter_cons_of_pos (by exact hbit), List.filter_nil]
    exact hbooted
  · refine ⟨b, by rw [if_neg hbit], .refl, ?_⟩
    rw [List.filter_cons_of_neg (by exact hbit), List.filter_nil, List.append_nil]
    exact hb

theorem booted_user (hpos : 0 < maxProcesses) (hlt : maxProcesses < 2 ^ 31) :
    ∃ b, domainNew maxProcesses Base.new = .ok b ∧ Runs Base.step slots Base.new b ∧
      Booted [] maxProcesses b := by
  have hfree : findFreeGid Base.new = .ok 1 := rfl
  have hnew : domainNew maxProcesses Base.new = .ok { Base.new with
      gidToDomain := Function.update Base.new.gidToDomain 1 (some (Domain.new 1 maxProcesses))
      listOfDomains := [1] } := by
    rw [domainNew, hfree]
    rfl
  refine ⟨_, hnew, Runs.single (a := .domainNew maxProcesses) ⟨hpos, hlt⟩ hnew, rfl, ?_,
    fun i kind hi => ?_, fun gid hout => ?_, fun _ _ => rfl⟩
  · show Function.update Base.new.gidToDomain 1 (some (Domain.new 1 maxProcesses)) 1 = _
    rw [Function.update_self]
  · cases hi
  · rw [List.length_nil] at hout
    have hne : gid ≠ 1 := by omega
    show Function.update Base.new.gidToDomain 1 (some (Domain.new 1 maxProcesses)) gid = none
    rw [Function.update_of_ne hne]
    rfl

/-- The mask that `engines_start` sees, bit by bit. -/
theorem testBit_user (engines : Nat) : (engines ||| msockEngineMaskUser).testBit 1 = true ∧
    ∀ i, i ≠ 1 → (engines ||| msockEngineMaskUser).testBit i = engines.testBit i := by
  have hbit : ∀ i, msockEngineMaskUser.testBit i = decide (1 = i) := fun i => by
    rw [msockEngineMaskUser, Nat.one_shiftLeft, Nat.testBit_two_pow]
  refine ⟨by rw [Nat.testBit_or, hbit]; simp, fun i hi => ?_⟩
  rw [Nat.testBit_or, hbit, decide_eq_false (Ne.symm hi), Bool.or_false]

/-- What `engines_start` does for each bit of the table there is. -/
theorem enginesStart_eq (engineMask : Nat) (b : Base) :
    enginesStart (enginePrototypes maxOpenFiles) engineMask maxProcesses b
      = ((if engineMask.testBit 0 then .error (.fatal "Unsupported engine idx=0 mask=0x1")
            else .ok b) >>= fun b =>
          (if engineMask.testBit 1 then domainNew (userSlots maxOpenFiles maxProcesses) b
            else .ok b) >>= fun b =>
          (if engineMask.testBit 2 then engineConstructor 0 pidSelect b else .ok b) >>= fun b =>
          (if engineMask.testBit 3 then engineConstructor 1 pidIo b else .ok b) >>= fun b =>
          if engineMask.testBit 4 then engineConstructor 2 pidSignal b else .ok b) := by
  have hrange : List.range maxDomains = [0, 1, 2, 3, 4] := by decide
  have hunsupported : Stop.fatal ("Unsupported engine idx=" ++ toString 0 ++ " mask=0x" ++
      String.ofList (Nat.toDigits 16 (1 <<< 0))) = .fatal "Unsupported engine idx=0 mask=0x1" := by
    decide
  rw [enginesStart, hrange]
  simp only [List.foldlM_cons, List.foldlM_nil, enginePrototypes, hunsupported, engineUser,
    engineEpoll, engineIo, engineSignal, bind_pure]

/-- What `msock_base_new` returns, once every engine is asked for or not. -/
theorem enginesStart_booted {engineMask : Nat} (hunsupported : engineMask.testBit 0 = false)
    (huser : engineMask.testBit 1 = true) (hpos : 0 < userSlots maxOpenFiles maxProcesses)
    (hlt : userSlots maxOpenFiles maxProcesses < 2 ^ 31) :
    ∃ b, enginesStart (enginePrototypes maxOpenFiles) engineMask maxProcesses Base.new = .ok b ∧
      Runs Base.step slots Base.new b ∧
      Booted (asked engineMask) (userSlots maxOpenFiles maxProcesses) b := by
  obtain ⟨b₁, hnew, hruns₁, hbooted₁⟩ := booted_user hpos hlt
  -- one round after the other, each finds the engines before it
  obtain ⟨b₂, hselect, hruns₂, hbooted₂⟩ := start_round .select engineMask hbooted₁ (by decide) (by simp)
  have hkinds₂ : ∀ kind ∈ [] ++ [EngineKind.select].filter (fun k => engineMask.testBit k.idx),
      kind = .select := by simp
  have hlen₂ := List.length_filter_le (fun k => engineMask.testBit k.idx) [EngineKind.select]
  obtain ⟨b₃, hio, hruns₃, hbooted₃⟩ := start_round .io engineMask hbooted₂
    (by rw [List.nil_append]; unfold maxDomains; simp only [List.length_singleton] at hlen₂; omega)
    (fun hmem => nomatch hkinds₂ _ hmem)
  rw [List.nil_append, ← List.filter_append] at hbooted₃
  have hlen₃ := List.length_filter_le (fun k => engineMask.testBit k.idx)
    ([EngineKind.select] ++ [EngineKind.io])
  obtain ⟨b₄, hsignal, hruns₄, hbooted₄⟩ := start_round .signal engineMask hbooted₃
    (by unfold maxDomains; simp only [List.length_append, List.length_singleton] at hlen₃; omega)
    (fun hmem => by simp at hmem)
  rw [← List.filter_append] at hbooted₄
  refine ⟨b₄, ?_, ((hruns₁.trans hruns₂).trans hruns₃).trans hruns₄, hbooted₄⟩
  rw [enginesStart_eq, if_neg (by rw [hunsupported]; exact Bool.false_ne_true)]
  refine bind_eq_ok.2 ⟨Base.new, rfl, bind_eq_ok.2 ⟨b₁, ?_, bind_eq_ok.2 ⟨b₂, hselect,
    bind_eq_ok.2 ⟨b₃, hio, hsignal⟩⟩⟩⟩
  rw [if_pos huser, hnew]

theorem asked_user (engines : Nat) : asked (engines ||| msockEngineMaskUser) = asked engines := by
  refine List.filter_congr fun kind _ => ?_
  refine (testBit_user engines).2 kind.idx ?_
  cases kind <;> decide

theorem userSlots_pos (maxOpenFiles maxProcesses : Nat) : 0 < userSlots maxOpenFiles maxProcesses := by
  unfold userSlots
  split <;> omega

/-- The name of an engine that was asked for leads to its process. -/
theorem Booted.resolves {kinds : List EngineKind} (hb : Booted kinds maxProcesses b)
    (hlen : kinds.length ≤ 3) {i : Nat} {kind : EngineKind} (hi : kinds[i]? = some kind) :
    resolveTarget b.nameToPid kind.name = .ok (poffGidToPid 2 (i + 2)) := by
  obtain ⟨d, _, _, hname⟩ := hb.engine i kind hi
  have hlt : i < kinds.length := (List.getElem?_eq_some_iff.1 hi).1
  have hgid : pidToGid (poffGidToPid 2 (i + 2)) = i + 2 :=
    pidToGid_poffGidToPid (by decide) (by omega)
  have hne : poffGidToPid 2 (i + 2) ≠ 0 := by
    intro hzero
    rw [hzero, pidToGid_eq] at hgid
    simp at hgid
  rw [resolveTarget_name _ kind.name_fields.1 kind.name_fields.2, hname, if_neg hne]

theorem length_asked_le (engines : Nat) : (asked engines).length ≤ 3 :=
  List.length_filter_le _ [EngineKind.select, .io, .signal]

/-- **A base is ready.** In whatever order the constructors of the program fill the table, it
is the same table, and a base is made exactly if no engine is asked for that the program lacks.
It is then a base that the calls of the library lead to from the empty one, each engine asked
for has a domain of its own with one hungry process, and the names lead to these processes and
to nothing else. -/
theorem msockBaseNew_ready (maxOpenFiles maxProcesses engines : Nat)
    {order : List (Nat × EngineProto)}
    (horder : order.Perm (registrations maxOpenFiles))
    (hslots : userSlots maxOpenFiles maxProcesses < 2 ^ 31) :
    registerEngines order = .ok (enginePrototypes maxOpenFiles) ∧
      (engines.testBit 0 = true →
        msockBaseNew (enginePrototypes maxOpenFiles) engines maxProcesses
          = .error (.fatal "Unsupported engine idx=0 mask=0x1")) ∧
      (engines.testBit 0 = false → ∃ b,
        msockBaseNew (enginePrototypes maxOpenFiles) engines maxProcesses = .ok b ∧
        Runs Base.step slots Base.new b ∧
        b.listOfDomains = List.range' 1 ((asked engines).length + 1) ∧
        b.gidToDomain 1 = some (Domain.new 1 (userSlots maxOpenFiles maxProcesses)) ∧
        (∀ i kind, (asked engines)[i]? = some kind → ∃ d, b.gidToDomain (i + 2) = some d ∧
          EngineDomain kind (i + 2) d ∧
          resolveTarget b.nameToPid kind.name = .ok (poffGidToPid 2 (i + 2))) ∧
        ∀ name, pidToGid name = 0 → pidToPoff name < maxRegNames →
          (∀ kind ∈ asked engines, pidToPoff kind.name ≠ pidToPoff name) →
          resolveTarget b.nameToPid name = .error notRegistered) := by
  refine ⟨registerEngines_perm horder, fun hbit => ?_, fun hbit => ?_⟩
  · rw [msockBaseNew, enginesStart_eq, (testBit_user engines).2 0 (by decide), if_pos hbit]
    rfl
  · have hzero : (engines ||| msockEngineMaskUser).testBit 0 = false :=
      ((testBit_user engines).2 0 (by decide)).trans hbit
    obtain ⟨b, hstart, hruns, hbooted⟩ := enginesStart_booted hzero (testBit_user engines).1
      (userSlots_pos maxOpenFiles maxProcesses) hslots
    rw [asked_user] at hbooted
    refine ⟨b, hstart, hruns, hbooted.listed, hbooted.user, fun i kind hi => ?_,
      fun name hgid hpoff hother => ?_⟩
    · obtain ⟨d, hd, hengine, _⟩ := hbooted.engine i kind hi
      exact ⟨d, hd, hengine, hbooted.resolves (length_asked_le engines) hi⟩
    · rw [resolveTarget_name _ hgid hpoff, hbooted.unnamed _ hother, if_pos rfl]

/-- The table is filled from its end, and the signal engine is asked for alone. -/
theorem msockBaseNew_ready_signal :
    ∃ b, registerEngines (registrations 1024).reverse = .ok (enginePrototypes 1024) ∧
      msockBaseNew (enginePrototypes 1024) msockEngineMaskSignal 0 = .ok b ∧
      resolveTarget b.nameToPid pidSignal = .ok (poffGidToPid 2 2) ∧
      resolveTarget b.nameToPid pidIo = .error notRegistered := by
  obtain ⟨hfill, _, hready⟩ := msockBaseNew_ready 1024 0 msockEngineMaskSignal
    (List.reverse_perm (registrations 1024)) (by decide)
  obtain ⟨b, hnew, _, _, _, hengines, hothers⟩ := hready (by decide)
  obtain ⟨_, _, _, hname⟩ := hengines 0 .signal (by decide)
  exact ⟨b, hfill, hnew, hname, hothers pidIo (by decide) (by decide) (by decide)⟩

end Msock
