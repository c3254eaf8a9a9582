import Mathlib.Data.List.Basic
import Mathlib.Tactic.TypeStar

/-!
# Slots that are flagged

A device fills a slot and raises its flag, and a driver takes what is in it, or notes that it is
done with it, and clears the flag. `came` is what the slot was filled with, without what was
overwritten while its flag was up, and `kept` is what the driver took. A slot is `Sound` if all that
came has been kept, in its order, or is still in the slot with the flag up. It is `Lost` if
something has neither been kept nor is flagged. Only what the driver keeps can make up for that: a
lost slot stays lost when it is filled or cleared. -/

namespace Slots

/-- A slot is full until what is in it is taken. -/
structure Slot (α : Type*) where
  flag : Bool
  full : Bool
  value : α
  came : List α
  kept : List α

namespace Slot

variable {α : Type*} {s : Slot α} {v : α}

def fill (s : Slot α) (v : α) : Slot α where
  flag := true
  full := true
  value := v
  came := (if s.flag && s.full then s.came.dropLast else s.came) ++ [v]
  kept := s.kept

def clear (s : Slot α) : Slot α := { s with flag := false }

def keep (s : Slot α) : Slot α := { s with kept := s.kept ++ [s.value] }

/-- `rest` is left in the slot. -/
def take (s : Slot α) (rest : α) : Slot α := { s.keep with full := false, value := rest }

/-- What is in the slot with its flag up -/
def pending (s : Slot α) : List α := if s.flag then [s.value] else []

structure Sound (s : Slot α) : Prop where
  came : s.came = s.kept ++ s.pending
  full : s.flag = true → s.full = true

/-- What was in the slot has been taken, and its flag is still up. -/
structure Taken (s : Slot α) : Prop where
  came : s.came = s.kept
  flag : s.flag = true
  full : s.full = false

def Lost (s : Slot α) : Prop := s.kept.length + s.pending.length < s.came.length

theorem pending_up (up : s.flag = true) : s.pending = [s.value] := if_pos up

theorem pending_down (down : s.flag = false) : s.pending = [] := by
  simp [pending, down]

theorem Lost.not_came (lost : s.Lost) : s.came ≠ s.kept ++ s.pending := by
  intro came
  unfold Lost at lost
  rw [came, List.length_append] at lost
  exact Nat.lt_irrefl _ lost

/-! ## Filling -/

theorem Sound.fill (sound : s.Sound) : (s.fill v).Sound := by
  refine ⟨?_, fun _ => rfl⟩
  rw [pending_up rfl]
  change (if s.flag && s.full then _ else _) ++ [v] = s.kept ++ [v]
  cases up : s.flag with
  | true => simp [sound.full up, sound.came, pending_up up]
  | false => simp [sound.came, pending_down up]

theorem Taken.fill (taken : s.Taken) : (s.fill v).Sound := by
  refine ⟨?_, fun _ => rfl⟩
  rw [pending_up rfl]
  change (if s.flag && s.full then _ else _) ++ [v] = s.kept ++ [v]
  simp [taken.full, taken.came]

theorem Lost.fill (lost : s.Lost) : (s.fill v).Lost := by
  unfold Lost at lost ⊢
  rw [pending_up rfl]
  change s.kept.length + 1 < ((if s.flag && s.full then _ else _) ++ [v]).length
  cases up : s.flag with
  | true =>
    rw [pending_up up, List.length_singleton] at lost
    cases s.full <;> simp <;> omega
  | false =>
    rw [pending_down up, List.length_nil] at lost
    simp
    omega

/-! ## Clearing -/

theorem clear_down (down : s.flag = false) : s.clear = s := by
  unfold clear
  rw [← down]

theorem Sound.clear (sound : s.Sound) (down : s.flag = false) : s.clear.Sound := by
  refine ⟨?_, fun up => Bool.noConfusion up⟩
  rw [pending_down rfl, ← pending_down down]
  exact sound.came

theorem Taken.clear (taken : s.Taken) : s.clear.Sound := by
  refine ⟨?_, fun up => Bool.noConfusion up⟩
  rw [pending_down rfl, List.append_nil]
  exact taken.came

theorem Sound.clear_lost (sound : s.Sound) (up : s.flag = true) : s.clear.Lost := by
  have came := congrArg List.length sound.came
  rw [pending_up up, List.length_append, List.length_singleton] at came
  unfold Lost
  rw [pending_down rfl]
  change s.kept.length + 0 < s.came.length
  omega

theorem Lost.clear (lost : s.Lost) : s.clear.Lost := by
  unfold Lost at lost ⊢
  rw [pending_down rfl]
  change s.kept.length + 0 < s.came.length
  omega

/-! ## Taking -/

theorem Sound.take (sound : s.Sound) (up : s.flag = true) (rest : α) : (s.take rest).Taken := by
  refine ⟨?_, up, rfl⟩
  change s.came = s.kept ++ [s.value]
  rw [sound.came, pending_up up]

theorem Sound.clear_keep (sound : s.Sound) (up : s.flag = true) : s.clear.keep.Sound := by
  refine ⟨?_, fun up => Bool.noConfusion up⟩
  rw [pending_down rfl, List.append_nil]
  change s.came = s.kept ++ [s.value]
  rw [sound.came, pending_up up]

theorem Sound.replace (sound : s.Sound) (down : s.flag = false) (v : α) (full : Bool) :
    Sound { s with value := v, full := full } := by
  have came := sound.came
  rw [pending_down down] at came
  refine ⟨?_, fun up => absurd (down.symm.trans up) Bool.false_ne_true⟩
  rw [pending_down (s := { s with value := v, full := full }) down]
  exact came

end Slot

end Slots
