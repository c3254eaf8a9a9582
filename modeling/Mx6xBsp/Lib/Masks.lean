import Mathlib.Data.BitVec

/-!
# Masks

What a mask takes from a word and what it leaves: the two parts make up the word
(`toNat_and_parts`), a mask of the low bits is a remainder (`toNat_and_low`), and an address
is made of the high bits of one word and the low bits of another (`toNat_mask_add`).
-/

namespace Masks

variable {n : Nat} {w a mask : BitVec n}

theorem toNat_and_low {k : Nat} {mask : BitVec n} (low : mask.toNat = 2 ^ k - 1) :
    (w &&& mask).toNat = w.toNat % 2 ^ k := by
  rw [BitVec.toNat_and, low, Nat.and_two_pow_sub_one_eq_mod]

theorem and_parts (mask : BitVec n) : (w &&& ~~~mask) ||| (w &&& mask) = w := by
  ext i
  simp only [BitVec.getElem_or, BitVec.getElem_and, BitVec.getElem_not]
  cases w[i] <;> cases mask[i] <;> rfl

theorem toNat_and_parts (mask : BitVec n) :
    (w &&& ~~~mask).toNat + (w &&& mask).toNat = w.toNat := by
  have apart : (w &&& ~~~mask) &&& (w &&& mask) = 0#n := by
    ext i
    simp only [BitVec.getElem_and, BitVec.getElem_not, BitVec.getElem_zero]
    cases w[i] <;> cases mask[i] <;> rfl
  rw [← BitVec.toNat_add_of_and_eq_zero apart, BitVec.add_eq_or_of_and_eq_zero _ _ apart,
    and_parts]

theorem toNat_andNot_low {k : Nat} {mask : BitVec n} (low : mask.toNat = 2 ^ k - 1) :
    (w &&& ~~~mask).toNat = w.toNat / 2 ^ k * 2 ^ k := by
  have parts := toNat_and_parts (w := w) mask
  have part := Nat.div_add_mod w.toNat (2 ^ k)
  rw [toNat_and_low low] at parts
  rw [Nat.mul_comm] at part
  omega

/-- A word with the bits below `2 ^ k` of an address -/
theorem toNat_mask_add {k v : Nat} {mask : BitVec n} (low : mask.toNat = 2 ^ k - 1)
    (small : k ≤ n) :
    ((w &&& ~~~mask) + (BitVec.ofNat n v &&& mask)).toNat =
      w.toNat / 2 ^ k * 2 ^ k + v % 2 ^ k := by
  have below : v % 2 ^ k < 2 ^ k := Nat.mod_lt _ (Nat.two_pow_pos k)
  have power : 2 ^ n = 2 ^ (n - k) * 2 ^ k := by rw [← Nat.pow_add, Nat.sub_add_cancel small]
  have size : w.toNat / 2 ^ k < 2 ^ (n - k) :=
    Nat.div_lt_of_lt_mul (by rw [Nat.mul_comm, ← power]; exact w.isLt)
  have fits : w.toNat / 2 ^ k * 2 ^ k + 2 ^ k ≤ 2 ^ n := by
    rw [power, ← Nat.succ_mul]
    exact Nat.mul_le_mul_right _ size
  rw [BitVec.toNat_add, toNat_and_low low, BitVec.toNat_ofNat, toNat_andNot_low low,
    Nat.mod_mod_of_dvd v (Nat.pow_dvd_pow 2 small), Nat.mod_eq_of_lt (by omega)]

theorem or_and_self (mask : BitVec n) : (w ||| mask) &&& mask = mask := by
  ext i
  simp only [BitVec.getElem_and, BitVec.getElem_or]
  cases w[i] <;> cases mask[i] <;> rfl

theorem or_and_of_clear (clear : a &&& mask = 0) : (w ||| a) &&& mask = w &&& mask := by
  rw [BitVec.and_comm, BitVec.and_or_distrib_left, BitVec.and_comm mask a, clear,
    BitVec.and_comm mask w]
  exact BitVec.or_zero

end Masks
