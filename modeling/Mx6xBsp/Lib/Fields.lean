import Mathlib.Data.BitVec
import Mx6xBsp.Lib.Masks

/-!
# Fields put together to a register

A register is made of values that are masked to the width of their field, shifted to its
place and joined. `field w start size` reads a field back: of joined words each shows its
bits (`field_or`), the value of the field is the rest of what was put there
(`field_put`), and what was put elsewhere does not show (`field_put_apart`).
-/

namespace Fields

variable {n start size start' size' k : Nat} {v w mask : BitVec n}

/-- The value of `size` bits from `start` on -/
def field (w : BitVec n) (start size : Nat) : BitVec size := w.extractLsb' start size

/-- A value masked and shifted to the place of its field -/
def put (v mask : BitVec n) (start : Nat) : BitVec n := (v &&& mask) <<< start

theorem field_or (v w : BitVec n) (start size : Nat) :
    field (v ||| w) start size = field v start size ||| field w start size :=
  BitVec.extractLsb'_or

theorem field_toNat (w : BitVec n) (start size : Nat) :
    (field w start size).toNat = w.toNat / 2 ^ start % 2 ^ size := by
  unfold field
  rw [BitVec.extractLsb'_toNat, Nat.shiftRight_eq_div_pow]

theorem toNat_join (k : Nat) (low : w.toNat < 2 ^ k) (room : v.toNat * 2 ^ k < 2 ^ n) :
    (v <<< k ||| w).toNat = v.toNat * 2 ^ k + w.toNat := by
  rw [BitVec.toNat_or, BitVec.toNat_shiftLeft, Nat.shiftLeft_eq, Nat.mod_eq_of_lt room,
    ← Nat.shiftLeft_eq, Nat.shiftLeft_add_eq_or_of_lt low]

theorem toNat_append (v : BitVec n) (w : BitVec k) :
    (v ++ w).toNat = v.toNat * 2 ^ k + w.toNat := by
  rw [BitVec.toNat_append, ← Nat.shiftLeft_add_eq_or_of_lt w.isLt, Nat.shiftLeft_eq]

theorem low_bit (low : mask.toNat = 2 ^ size - 1) (i : Nat) :
    mask.getLsbD i = decide (i < size) := by
  rw [← BitVec.testBit_toNat, low, Nat.testBit_two_pow_sub_one]

theorem field_bit (i : Nat) :
    (field w start size).getLsbD i = (decide (i < size) && w.getLsbD (start + i)) :=
  BitVec.getLsbD_extractLsb' start size w i

theorem put_bit (low : mask.toNat = 2 ^ size - 1) (i : Nat) :
    (put v mask start).getLsbD i =
      (decide (i < n) && (!decide (i < start) && (v.getLsbD (i - start) &&
        decide (i - start < size)))) := by
  unfold put
  rw [BitVec.getLsbD_shiftLeft, BitVec.getLsbD_and, low_bit low, Bool.and_assoc]

/-- The field, or the low part of it, shows what was put there, less what does not fit. -/
theorem field_put (low : mask.toNat = 2 ^ size - 1) (part : size' ≤ size)
    (room : start + size' ≤ n) :
    (field (put v mask start) start size').toNat = v.toNat % 2 ^ size' := by
  have same : field (put v mask start) start size' = v.setWidth size' := by
    refine BitVec.eq_of_getLsbD_eq fun i below => ?_
    have inside : start + i < n := by omega
    have within : i < size := Nat.lt_of_lt_of_le below part
    rw [field_bit, put_bit low, Nat.add_sub_cancel_left, BitVec.getLsbD_setWidth,
      decide_eq_true below, decide_eq_true within, decide_eq_true inside,
      decide_eq_false (by omega : ¬start + i < start), Bool.and_true]
    rfl
  rw [same, BitVec.toNat_setWidth]

theorem field_put_apart (low : mask.toNat = 2 ^ size - 1)
    (apart : start + size ≤ start' ∨ start' + size' ≤ start) :
    field (put v mask start) start' size' = 0 := by
  refine BitVec.eq_of_getLsbD_eq fun i below => ?_
  have zero : (0 : BitVec size').getLsbD i = false := BitVec.getLsbD_zero
  rw [field_bit, put_bit low, zero, decide_eq_true below, Bool.true_and]
  have out : start' + i < start ∨ ¬start' + i - start < size := by
    rcases apart with before | after
    · exact .inr (by omega)
    · exact .inl (by omega)
  rcases out with below' | above
  · rw [decide_eq_true below', Bool.not_true, Bool.false_and]
    exact Bool.and_false _
  · rw [decide_eq_false above, Bool.and_false, Bool.and_false, Bool.and_false]

theorem field_and (v w : BitVec n) (start size : Nat) :
    field (v &&& w) start size = field v start size &&& field w start size :=
  BitVec.extractLsb'_and

theorem field_clear (cleared : field mask start size = 0) :
    field (v &&& mask) start size = 0 := by
  rw [field_and, cleared]
  exact BitVec.and_zero

theorem shift_eq_put (low : mask.toNat = 2 ^ size - 1) (fits : v.toNat < 2 ^ size) :
    v <<< start = put v mask start := by
  have same : v &&& mask = v := by
    refine BitVec.eq_of_toNat_eq ?_
    rw [Masks.toNat_and_low low, Nat.mod_eq_of_lt fits]
  unfold put
  rw [same]

end Fields
