import Mathlib

/-!
# Dialogues

Two parties that take turns: one sends a request and waits for the reply, the other waits for a
request and replies to it. A `Dialogue` is its history, the requests sent and taken, and the
replies sent and heard; a message that was sent and has not arrived is in flight. `Step` says who
may do what: a request that is in flight is taken and answered, and a reply that is in flight is
heard, upon which the next request is sent.

So there is never more than one message in flight, in whatever order the two sides take their steps
(`Dialogue.Turn`), and messages arrive in order, none lost or repeated. A system of several
components refines a dialogue when each of its steps leaves the history alone or is a step of the
dialogue; `refines` is the rule for runs.
-/

open Relation

/-- **Refinement.** Let every step of a system keep an invariant and, seen through `f`, be a run of
another system. Then so is every run. -/
theorem Relation.ReflTransGen.refines {σ τ : Type*} {r : σ → σ → Prop} {q : τ → τ → Prop}
    {f : σ → τ} {I : σ → Prop} {s s' : σ} (h : ReflTransGen r s s')
    (hstep : ∀ s s', I s → r s s' → I s' ∧ ReflTransGen q (f s) (f s')) (hs : I s) :
    I s' ∧ ReflTransGen q (f s) (f s') := by
  induction h with
  | refl => exact ⟨hs, .refl⟩
  | tail _ hlast ih =>
    obtain ⟨hinv, hrun⟩ := hstep _ _ ih.1 hlast
    exact ⟨hinv, ih.2.trans hrun⟩

/-- The history of a dialogue. -/
@[ext]
structure Dialogue (α β : Type*) where
  /-- the requests sent -/
  asked : List α
  /-- the requests taken -/
  taken : List α
  /-- the replies sent -/
  given : List β
  /-- the replies heard -/
  heard : List β
deriving DecidableEq

namespace Dialogue

variable {α β : Type*}

/-- Nothing has been said. -/
def silent : Dialogue α β := ⟨[], [], [], []⟩

/-- The other side takes requests and replies to them. -/
def answer (requests : List α) (replies : List β) (d : Dialogue α β) : Dialogue α β :=
  { d with taken := d.taken ++ requests, given := d.given ++ replies }

/-- One side hears replies and sends requests. -/
def ask (replies : List β) (requests : List α) (d : Dialogue α β) : Dialogue α β :=
  { d with heard := d.heard ++ replies, asked := d.asked ++ requests }

theorem answer_nil (d : Dialogue α β) : d.answer [] [] = d := by
  rw [answer, List.append_nil, List.append_nil]

theorem ask_nil (d : Dialogue α β) : d.ask [] [] = d := by
  rw [ask, List.append_nil, List.append_nil]

/-- Who may do what: the first request is sent, a request in flight is answered, and a reply in
flight is heard and followed by the next request. -/
inductive Step : Dialogue α β → Dialogue α β → Prop where
  | first (a : α) : Step silent (silent.ask [] [a])
  | answer {d : Dialogue α β} (a : α) (b : β) (h : d.asked = d.taken ++ [a]) :
      Step d (d.answer [a] [b])
  | ask {d : Dialogue α β} (b : β) (a : α) (h : d.given = d.heard ++ [b]) :
      Step d (d.ask [b] [a])

/-- What is in flight. -/
inductive Turn : Dialogue α β → Prop where
  | silent : Turn silent
  | request {d : Dialogue α β} (a : α) (h : d.asked = d.taken ++ [a]) (h' : d.given = d.heard) :
      Turn d
  | reply {d : Dialogue α β} (b : β) (h : d.asked = d.taken) (h' : d.given = d.heard ++ [b]) :
      Turn d

/-- A run of a dialogue from its beginning: one message is in flight, and every request that was
taken has been answered. -/
structure Alternates (d : Dialogue α β) : Prop where
  turn : d.Turn
  answered : d.taken.length = d.given.length

variable {d d' : Dialogue α β}

theorem alternates_silent : (silent : Dialogue α β).Alternates := ⟨.silent, rfl⟩

theorem Step.alternates (h : Step d d') (hd : d.Alternates) : d'.Alternates := by
  obtain ⟨hturn, hlength⟩ := hd
  cases h with
  | first a => exact ⟨.request a rfl rfl, rfl⟩
  | answer a b h =>
    refine ⟨.reply b h ?_, by simp [Dialogue.answer, hlength]⟩
    -- no reply was in flight
    cases hturn with
    | silent => exact absurd h (by simp [silent])
    | request _ _ hgiven => exact congrArg (· ++ [b]) hgiven
    | reply _ hasked => exact absurd (hasked.symm.trans h) (by simp)
  | ask b a h =>
    refine ⟨.request a ?_ h, hlength⟩
    -- no request was in flight
    cases hturn with
    | silent => exact absurd h (by simp [silent])
    | request _ _ hgiven => exact absurd (hgiven.symm.trans h) (by simp)
    | reply _ hasked => exact congrArg (· ++ [a]) hasked

/-- **The parties take turns** in every run. -/
theorem alternates_of_run (h : ReflTransGen Step silent d) : d.Alternates := by
  induction h with
  | refl => exact alternates_silent
  | tail _ hlast ih => exact hlast.alternates ih

/-- Requests are taken in the order in which they were sent, and at most one has not been taken. -/
theorem Alternates.taken_prefix (h : d.Alternates) :
    d.taken <+: d.asked ∧ d.asked.length ≤ d.taken.length + 1 := by
  cases h.turn with
  | silent => exact ⟨List.prefix_refl _, Nat.zero_le _⟩
  | request a hasked => exact ⟨⟨[a], hasked.symm⟩, by simp [hasked]⟩
  | reply b hasked => exact ⟨⟨[], by simp [hasked]⟩, by simp [hasked]⟩

/-- When more requests have been taken than were sent before, the last of them is a new one. -/
theorem Alternates.last_taken {old new : List α} (h : d.Alternates) (hasked : d.asked = old ++ new)
    (hlate : old.length < d.taken.length) : ∃ a ∈ d.taken.getLast?, a ∈ new := by
  obtain ⟨rest, hrest⟩ := h.taken_prefix.1
  rw [hasked] at hrest
  obtain ⟨mid, htaken, hnew⟩ | ⟨mid, hold, -⟩ := List.append_eq_append_iff.mp hrest.symm
  · -- `taken` reaches into the new requests
    have hmid : mid ≠ [] := by
      rintro rfl
      rw [htaken, List.append_nil] at hlate
      exact absurd hlate (Nat.lt_irrefl _)
    refine ⟨mid.getLast hmid, ?_, ?_⟩
    · rw [htaken, List.getLast?_append_of_ne_nil _ hmid, List.getLast?_eq_getLast_of_ne_nil hmid]
      rfl
    · rw [hnew]
      exact List.mem_append_left _ (List.getLast_mem hmid)
  · rw [hold, List.length_append] at hlate
    omega

/-- Replies are heard in the order in which they were sent, and at most one has not been heard. -/
theorem Alternates.heard_prefix (h : d.Alternates) :
    d.heard <+: d.given ∧ d.given.length ≤ d.heard.length + 1 := by
  cases h.turn with
  | silent => exact ⟨List.prefix_refl _, Nat.zero_le _⟩
  | request a _ hgiven => exact ⟨⟨[], by simp [hgiven]⟩, by simp [hgiven]⟩
  | reply b _ hgiven => exact ⟨⟨[b], hgiven.symm⟩, by simp [hgiven]⟩

/-- A request and a reply are never in flight together. -/
theorem Alternates.one_in_flight (h : d.Alternates) :
    d.asked.length + d.given.length ≤ d.taken.length + d.heard.length + 1 := by
  cases h.turn with
  | silent => exact Nat.zero_le _
  | request a hasked hgiven =>
    rw [hasked, hgiven, List.length_append, List.length_singleton]
    omega
  | reply b hasked hgiven =>
    rw [hasked, hgiven, List.length_append, List.length_singleton]
    omega

end Dialogue
