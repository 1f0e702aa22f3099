import Mathlib

/-!
# Descriptor tables with lowest-free allocation

A descriptor table records, for every small number, who a descriptor with this number was
opened for, or that the number is free. `openFd` hands out the lowest free number, as `socket`
and `accept` do, and `closeFd` frees a number whoever asks for it. Descriptor numbers are
integers, since programs keep `-1` for "no descriptor"; a negative number is never open.

The laws are the frame conditions a client of the table reasons with: what an `openFd` or a
`closeFd` does to the number it is about, and that every other number keeps its owner.
-/

namespace Posix

/-- A descriptor table: position `n` holds the owner of descriptor `n` when it is open. -/
structure FdTable (ω : Type*) where
  slots : List (Option ω)
deriving DecidableEq

namespace FdTable

variable {ω : Type*} (t : FdTable ω)

/-- Who the descriptor was opened for; `none` when it is not open. -/
def owner (fd : ℤ) : Option ω := if 0 ≤ fd then t.slots[fd.toNat]?.join else none

/-- The lowest free number. -/
def lowest : ℕ := t.slots.findIdx Option.isNone

/-- Open a descriptor for `w` under the lowest free number. -/
def openFd (w : ω) : FdTable ω :=
  if t.lowest < t.slots.length then ⟨t.slots.set t.lowest (some w)⟩ else ⟨t.slots ++ [some w]⟩

/-- Close a descriptor number; closing a number that is not open changes nothing. -/
def closeFd (fd : ℤ) : FdTable ω := if 0 ≤ fd then ⟨t.slots.set fd.toNat none⟩ else t

variable {t} {w : ω} {fd : ℤ}

theorem owner_of_neg (h : fd < 0) : t.owner fd = none := if_neg (by omega)

theorem owner_natCast (n : ℕ) : t.owner n = t.slots[n]?.join := by
  simp [owner]

theorem lowest_le : t.lowest ≤ t.slots.length := List.findIdx_le_length

/-- The owner of an open descriptor is in the table. -/
theorem mem_slots_of_owner (h : t.owner fd = some w) : some w ∈ t.slots := by
  rw [owner] at h
  split_ifs at h
  exact List.mem_of_getElem? (Option.join_eq_some_iff.mp h)

/-- The lowest free number is free. -/
theorem owner_lowest : t.owner t.lowest = none := by
  rw [owner_natCast]
  rcases Nat.lt_or_ge t.lowest t.slots.length with h | h
  · rw [List.getElem?_eq_getElem h]
    have hnone : (t.slots[t.lowest]).isNone = true := List.findIdx_getElem
    simpa [Option.isNone_iff_eq_none] using hnone
  · rw [List.getElem?_eq_none h]
    rfl

theorem ne_lowest_of_owner (h : t.owner fd = some w) : fd ≠ t.lowest := by
  rintro rfl
  rw [owner_lowest] at h
  exact Option.some_ne_none w h.symm

@[simp]
theorem owner_openFd_self : (t.openFd w).owner t.lowest = some w := by
  rw [owner_natCast, openFd]
  split_ifs with h
  · simp [h]
  · have heq : t.lowest = t.slots.length := Nat.le_antisymm lowest_le (not_lt.mp h)
    simp [heq]

theorem owner_openFd_of_ne (h : fd ≠ t.lowest) : (t.openFd w).owner fd = t.owner fd := by
  rcases lt_or_ge fd 0 with hneg | hpos
  · rw [owner_of_neg hneg, owner_of_neg hneg]
  · lift fd to ℕ using hpos
    have hne : fd ≠ t.lowest := fun heq => h (by exact_mod_cast heq)
    rw [owner_natCast, owner_natCast, openFd]
    split_ifs with hlt
    · rw [List.getElem?_set_ne (Ne.symm hne)]
    · have heq : t.lowest = t.slots.length := Nat.le_antisymm lowest_le (not_lt.mp hlt)
      rcases Nat.lt_or_ge fd t.slots.length with h1 | h1
      · rw [List.getElem?_append_left h1]
      · rw [List.getElem?_eq_none (by simp; omega), List.getElem?_eq_none h1]

/-- An open descriptor keeps its owner when another one is opened. -/
theorem owner_openFd_of_owner {w' : ω} (h : t.owner fd = some w') :
    (t.openFd w).owner fd = some w' := by
  rw [owner_openFd_of_ne (ne_lowest_of_owner h), h]

@[simp]
theorem owner_closeFd_self : (t.closeFd fd).owner fd = none := by
  rcases lt_or_ge fd 0 with hneg | hpos
  · exact owner_of_neg hneg
  · lift fd to ℕ using hpos
    rw [owner_natCast, closeFd, if_pos (by positivity)]
    simp only [Int.toNat_natCast, List.getElem?_set]
    split_ifs <;> simp_all

theorem owner_closeFd_of_ne {fd' : ℤ} (h : fd' ≠ fd) : (t.closeFd fd).owner fd' = t.owner fd' := by
  rw [closeFd]
  split_ifs with hpos
  · rcases lt_or_ge fd' 0 with hneg | hpos'
    · rw [owner_of_neg hneg, owner_of_neg hneg]
    · lift fd' to ℕ using hpos'
      rw [owner_natCast, owner_natCast, List.getElem?_set_ne (by omega)]
  · rfl

/-- What is open for another one after a descriptor was opened was open before. -/
theorem owner_of_openFd {w' : ω} (h : (t.openFd w).owner fd = some w') (hne : w' ≠ w) :
    t.owner fd = some w' := by
  obtain rfl | hfd := eq_or_ne fd t.lowest
  · rw [owner_openFd_self] at h
    exact absurd (Option.some.inj h).symm hne
  · rwa [owner_openFd_of_ne hfd] at h

/-- What is open after a descriptor was closed was open before. -/
theorem owner_of_closeFd {fd' : ℤ} (h : (t.closeFd fd').owner fd = some w) :
    t.owner fd = some w := by
  obtain rfl | hfd := eq_or_ne fd fd'
  · rw [owner_closeFd_self] at h
    exact absurd h.symm (Option.some_ne_none w)
  · rwa [owner_closeFd_of_ne hfd] at h

end FdTable

end Posix
