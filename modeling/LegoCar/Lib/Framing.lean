import Mathlib

/-!
# Messages in a byte stream

A stream is the concatenation of the encodings of a list of messages. When a marker occurs in an
encoding at its first position only, a reader that finds the marker is at the beginning of a
message (`boundary_of_marker`). Two positions that are boundaries are compared by the messages
before them (`prefix_of_length_le`). A stream of messages of one length that is cut into pieces of
this length is cut at the boundaries (`eq_map_of_length`).
-/

namespace Framing

variable {α β : Type*} {enc : α → List β} {msgs pre pre' : List α}

/-- **The marker stands at a boundary.** -/
theorem boundary_of_marker {s : β} {T rest : List β} (hmarker : ∀ m ∈ msgs, s ∉ (enc m).tail)
    (h : T ++ s :: rest = msgs.flatMap enc) :
    ∃ pre m post, msgs = pre ++ m :: post ∧ T = pre.flatMap enc ∧
      s :: rest = enc m ++ post.flatMap enc := by
  induction msgs generalizing T with
  | nil => simp at h
  | cons a msgs ih =>
    have ih' := fun {T} => ih (T := T) fun m hm => hmarker m (List.mem_cons_of_mem a hm)
    rw [List.flatMap_cons, List.append_eq_append_iff] at h
    obtain ⟨c, hc, hrest⟩ | ⟨c, hT, hrest⟩ := h
    · cases c with
      | nil =>
        -- the position is the end of the first message
        obtain ⟨pre, m, post, hmsgs, hpre, hm⟩ := ih' (T := []) (by simpa using hrest)
        refine ⟨a :: pre, m, post, by rw [hmsgs, List.cons_append], ?_, hm⟩
        rw [List.flatMap_cons, ← hpre, hc, List.append_nil, List.append_nil]
      | cons x c =>
        -- the position is inside the first message, hence its beginning
        obtain ⟨rfl, hrest⟩ : s = x ∧ rest = c ++ msgs.flatMap enc := by simpa using hrest
        cases T with
        | nil => exact ⟨[], a, msgs, rfl, rfl, by rw [hc, hrest, List.nil_append, List.cons_append]⟩
        | cons t T => exact absurd (by rw [hc]; simp) (hmarker a List.mem_cons_self)
    · obtain ⟨pre, m, post, hmsgs, hpre, hm⟩ := ih' hrest.symm
      exact ⟨a :: pre, m, post, by rw [hmsgs, List.cons_append],
        by rw [hT, hpre, List.flatMap_cons], hm⟩

/-- Boundaries are ordered as the messages before them. -/
theorem prefix_of_length_le (henc : ∀ m, enc m ≠ []) (hpre : pre <+: msgs) (hpre' : pre' <+: msgs)
    (h : (pre.flatMap enc).length ≤ (pre'.flatMap enc).length) : pre <+: pre' := by
  obtain hle | ⟨t, rfl⟩ := List.prefix_or_prefix_of_prefix hpre hpre'
  · exact hle
  · have ht : t.flatMap enc = [] := by
      rw [List.flatMap_append, List.length_append] at h
      exact List.length_eq_zero_iff.mp (by omega)
    cases t with
    | nil => rw [List.append_nil]
    | cons m t => exact absurd (List.append_eq_nil_iff.mp ht).1 (henc m)

/-- **Pieces of the right length are messages.** -/
theorem eq_map_of_length {L : ℕ} {pieces : List (List β)} (hL : 0 < L)
    (henc : ∀ m ∈ msgs, (enc m).length = L) (hpieces : ∀ p ∈ pieces, p.length = L)
    (h : pieces.flatten = msgs.flatMap enc) : pieces = msgs.map enc := by
  induction msgs generalizing pieces with
  | nil =>
    cases pieces with
    | nil => rfl
    | cons p pieces =>
      have hp : p.length = L := hpieces p List.mem_cons_self
      obtain ⟨rfl, -⟩ := List.append_eq_nil_iff.mp h
      exact absurd hp (by simpa using hL.ne)
  | cons m msgs ih =>
    obtain ⟨hm, hmsgs⟩ := List.forall_mem_cons.mp henc
    cases pieces with
    | nil =>
      have hnil : enc m = [] := (List.append_eq_nil_iff.mp h.symm).1
      rw [hnil] at hm
      exact absurd hm (by simpa using hL.ne)
    | cons p pieces =>
      obtain ⟨hp, hrests⟩ := List.forall_mem_cons.mp hpieces
      rw [List.flatten_cons, List.flatMap_cons] at h
      obtain ⟨rfl, hrest⟩ := List.append_inj h (hp.trans hm.symm)
      rw [ih hmsgs hrests hrest, List.map_cons]

end Framing
