import Mathlib.Tactic.Common

/-!
# Strides of different lengths

The strides of lengths `len 0`, `len 1`, and so on follow each other. `At len d i r` says that `d`
lies in the stride `i`, `r` behind its start; there is one such place (`At.unique`), and whoever
goes over whole strides until one is longer than what is left comes to it (`At.here`,
`total_next`).
-/

namespace Strides

variable {len len' : Nat → Nat} {d e i j r s : Nat}

/-- The length of the first `n` strides -/
def total (len : Nat → Nat) : Nat → Nat
  | 0 => 0
  | n + 1 => total len n + len n

theorem total_succ (len : Nat → Nat) (n : Nat) : total len (n + 1) = total len n + len n := rfl

/-- `d` is `r` behind the start of the stride `i`. -/
structure At (len : Nat → Nat) (d i r : Nat) : Prop where
  sum : d = total len i + r
  within : r < len i

theorem total_mono (le : i ≤ j) : total len i ≤ total len j := by
  induction le with
  | refl => exact Nat.le_refl _
  | step _ ih => exact Nat.le_trans ih (Nat.le_add_right _ _)

theorem total_congr (same : ∀ k < i, len k = len' k) : total len i = total len' i := by
  induction i with
  | zero => rfl
  | succ i ih =>
    rw [total, total, ih fun k below => same k (Nat.lt_succ_of_lt below),
      same i (Nat.lt_succ_self i)]

theorem At.lt (place : At len d i r) (later : i < j) : d < total len j := by
  have next : total len (i + 1) ≤ total len j := total_mono later
  have sum := place.sum
  have within := place.within
  rw [total] at next
  omega

theorem At.unique (place : At len d i r) (place' : At len d j s) : i = j ∧ r = s := by
  have sum := place.sum
  have sum' := place'.sum
  rcases Nat.lt_trichotomy i j with before | rfl | after
  · have := place.lt before
    omega
  · exact ⟨rfl, by omega⟩
  · have := place'.lt after
    omega

theorem At.lt_iff (place : At len d i r) : d < total len j ↔ i < j := by
  constructor
  · intro less
    by_contra later
    have le : total len j ≤ total len i := total_mono (Nat.not_lt.mp later)
    have := place.sum
    omega
  · exact place.lt

theorem At.here (within : r < len i) : At len (total len i + r) i r := ⟨rfl, within⟩

theorem total_next (enough : len i ≤ r) : total len i + r = total len (i + 1) + (r - len i) := by
  rw [total]
  omega

end Strides
