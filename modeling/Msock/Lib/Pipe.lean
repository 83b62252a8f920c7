import Mathlib

/-!
# A pipe in stages

What is sent waits in an outbox, is flushed to a remote box, spliced from there to a local
box, and handed over from its front. What is sent while nothing waits may be handed over at
once. Nothing overtakes, so what has been handed over is always a prefix of what was sent;
and once the outbox was empty, the remote box was spliced after that and the local box was
emptied after that, all of it has been handed over.
-/

namespace Lib

universe u
variable {α : Type u}

/-- What was sent into the pipe, where it waits, and what came out. -/
structure Pipe (α : Type u) where
  sent : List α
  outbox : List α
  remote : List α
  localBox : List α
  handed : List α

/-- One move. -/
inductive Flow (p : Pipe α) : Pipe α → Prop
  | idle : Flow p p
  | send (xs : List α) : Flow p { p with sent := p.sent ++ xs, outbox := p.outbox ++ xs }
  | flush : Flow p { p with outbox := [], remote := p.remote ++ p.outbox }
  | splice : Flow p { p with remote := [], localBox := p.localBox ++ p.remote }
  | hand (xs ys : List α) : p.localBox = xs ++ ys →
      Flow p { p with localBox := ys, handed := p.handed ++ xs }
  | direct (xs : List α) : p.outbox = [] → p.remote = [] → p.localBox = [] →
      Flow p { p with sent := p.sent ++ xs, handed := p.handed ++ xs }

/-- Several moves. -/
abbrev Flows : Pipe α → Pipe α → Prop := Relation.ReflTransGen Flow

/-- What waits somewhere, the first to be handed over first. -/
def Pipe.waiting (p : Pipe α) : List α := p.localBox ++ p.remote ++ p.outbox

variable {p p' : Pipe α}

/-- **A move loses nothing, repeats nothing and keeps the order.** -/
theorem Flow.conserves (h : Flow p p') : ∃ sent handed, p'.sent = p.sent ++ sent ∧
    p'.handed = p.handed ++ handed ∧ handed ++ p'.waiting = p.waiting ++ sent := by
  cases h with
  | idle => exact ⟨[], [], by simp, by simp, by simp⟩
  | send xs => exact ⟨xs, [], rfl, by simp, by simp [Pipe.waiting]⟩
  | flush => exact ⟨[], [], by simp, by simp, by simp [Pipe.waiting]⟩
  | splice => exact ⟨[], [], by simp, by simp, by simp [Pipe.waiting]⟩
  | hand xs ys hlocal => exact ⟨[], xs, by simp, rfl, by simp [Pipe.waiting, hlocal]⟩
  | direct xs hout hremote hlocal =>
      exact ⟨xs, xs, rfl, rfl, by simp [Pipe.waiting, hout, hremote, hlocal]⟩

theorem Flows.conserves (h : Flows p p') : ∃ sent handed, p'.sent = p.sent ++ sent ∧
    p'.handed = p.handed ++ handed ∧ handed ++ p'.waiting = p.waiting ++ sent := by
  induction h with
  | refl => exact ⟨[], [], by simp, by simp, by simp⟩
  | tail _ hflow ih =>
      obtain ⟨sent, handed, hsent, hhanded, heq⟩ := ih
      obtain ⟨sent', handed', hsent', hhanded', heq'⟩ := hflow.conserves
      refine ⟨sent ++ sent', handed ++ handed', by rw [hsent', hsent, List.append_assoc],
        by rw [hhanded', hhanded, List.append_assoc], ?_⟩
      rw [List.append_assoc, heq', ← List.append_assoc, heq, List.append_assoc]

/-- What left the outbox stays in front of what leaves it later. -/
theorem Flow.past_outbox (h : Flow p p') :
    p.handed ++ p.localBox ++ p.remote <+: p'.handed ++ p'.localBox ++ p'.remote := by
  cases h with
  | idle => exact List.prefix_rfl
  | send xs => exact List.prefix_rfl
  | flush => exact ⟨p.outbox, by simp⟩
  | splice => exact ⟨[], by simp⟩
  | hand xs ys hlocal => exact ⟨[], by simp [hlocal]⟩
  | direct xs hout hremote hlocal => exact ⟨xs, by simp [hremote, hlocal]⟩

/-- What reached the local box stays in front of what reaches it later. -/
theorem Flow.past_remote (h : Flow p p') :
    p.handed ++ p.localBox <+: p'.handed ++ p'.localBox := by
  cases h with
  | idle => exact List.prefix_rfl
  | send xs => exact List.prefix_rfl
  | flush => exact List.prefix_rfl
  | splice => exact ⟨p.remote, by simp⟩
  | hand xs ys hlocal => exact ⟨[], by simp [hlocal]⟩
  | direct xs hout hremote hlocal => exact ⟨xs, by simp [hlocal]⟩

theorem Flows.past_outbox (h : Flows p p') :
    p.handed ++ p.localBox ++ p.remote <+: p'.handed ++ p'.localBox ++ p'.remote := by
  induction h with
  | refl => exact List.prefix_rfl
  | tail _ hflow ih => exact ih.trans hflow.past_outbox

theorem Flows.past_remote (h : Flows p p') :
    p.handed ++ p.localBox <+: p'.handed ++ p'.localBox := by
  induction h with
  | refl => exact List.prefix_rfl
  | tail _ hflow ih => exact ih.trans hflow.past_remote

/-- **Once flushed, then spliced, then emptied, the pipe has delivered** what was sent before. -/
theorem Flows.delivers {p₀ p₁ p₂ p₃ : Pipe α} (h₀ : Flows p₀ p₁) (hflushed : p₁.outbox = [])
    (h₁ : Flows p₁ p₂)
    (h₂ : Flows { p₂ with remote := [], localBox := p₂.localBox ++ p₂.remote } p₃)
    (hempty : p₃.localBox = []) :
    ∃ sent handed, p₁.sent = p₀.sent ++ sent ∧ p₃.handed = p₀.handed ++ handed ∧
      p₀.waiting ++ sent <+: handed := by
  obtain ⟨sent, handed, hsent, hhanded, heq⟩ := h₀.conserves
  have hall : Flows p₀ p₃ := (h₀.trans h₁).trans (.head .splice h₂)
  obtain ⟨_, handed', _, hhanded', _⟩ := hall.conserves
  refine ⟨sent, handed', hsent, hhanded', ?_⟩
  have hpast : p₁.handed ++ p₁.localBox ++ p₁.remote <+: p₃.handed := by
    have hspliced := h₂.past_remote
    rw [hempty, List.append_nil, ← List.append_assoc] at hspliced
    exact h₁.past_outbox.trans hspliced
  rw [hhanded, hhanded', List.append_assoc, List.append_assoc,
    List.prefix_append_right_inj] at hpast
  rw [← heq, Pipe.waiting, hflushed, List.append_nil]
  exact hpast

/-- What has been handed over is a prefix of what was sent. -/
theorem prefix_of_conserved {sent handed waiting waiting' : List α}
    (h : handed ++ waiting' = waiting ++ sent) : handed <+: waiting ++ sent :=
  ⟨waiting', h⟩

end Lib
