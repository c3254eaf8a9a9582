import Mathlib.Algebra.Order.Field.Rat
import Mathlib.Algebra.Order.Floor.Div
import Mathlib.Data.Nat.Dist
import Mathlib.Tactic.FieldSimp
import Mathlib.Tactic.Linarith
import Mathlib.Tactic.Ring
import Mx6xBsp.Lib.Checked
import Mx6xBsp.Lib.Fields

/-!
# Baud rates of the UART

`ser_stty` tries the dividers of the reference clock from the highest on, with UBMR+1 fixed to
10000, and keeps the one whose rate comes closest; it stops at a rate that is met. Rates are whole
bauds. The search is right as long as none of its 32-bit steps wraps around (`serStty_right_iff`),
but 16 times the quotient for UBMR/UBIR is a product of 32 bits, which wraps around for an UBIR+1
below 4 (`serStty_slow`).
-/

namespace Mx6xBsp.Devc

open Checked Fields

def MIN_REF_FRQ_DIV : BitVec 32 := 1
def MAX_REF_FRQ_DIV : BitVec 32 := 7

def divideAndRound {w : Nat} (a b : BitVec w) : Calc (BitVec w) := do
  let sum ← add a (b - 1)
  div sum b

def uintDifference {w : Nat} (a b : BitVec w) : BitVec w := if a > b then a - b else b - a

def refClkDivReg (x : BitVec 32) : BitVec 32 := (if x < 7 then 6 - x else 6) <<< 7

/-- `best_baud`, `best_diff`, `best_bir` and `rfdiv` -/
structure Best where
  baud : BitVec 32
  diff : BitVec 32
  bir : BitVec 32
  rfdiv : BitVec 32

/-- `bir` and `current_baud` for the divider `i` -/
def currentBaud (clk baud i : BitVec 32) : Calc (BitVec 32 × BitVec 64) := do
  let refClk ← div clk i
  let baud16 ← mul baud 16
  let unit ← divideAndRound refClk 10000
  let bir ← divideAndRound baud16 unit
  let quot ← divideAndRound (10000 * 100000) bir
  -- the product is widened, not its factors
  let quot16 ← mul 16 quot
  let scaled ← mul (refClk.setWidth 64) 100000
  let current ← divideAndRound scaled (quot16.setWidth 64)
  return (bir, current)

/-- `best` after the divider `i`, for which `current` was found -/
def keepBest (baud i : BitVec 32) (best : Best) (current : BitVec 32 × BitVec 64) : Calc Best := do
  let diff ← narrow 32 (uintDifference current.2 (baud.setWidth 64))
  if diff < best.diff then do
    let whole ← narrow 32 current.2
    return ⟨whole, diff, current.1, i⟩
  else return best

/-- The loop of `ser_stty` from the divider `i` on -/
def searchBaud (clk baud : BitVec 32) : Nat → Best → Calc Best
  | 0, best => return best
  | i + 1, best => do
    let current ← currentBaud clk baud (BitVec.ofNat 32 (i + 1))
    let best ← keepBest baud (BitVec.ofNat 32 (i + 1)) best current
    if current.2 = baud.setWidth 64 then return best else searchBaud clk baud i best

/-- The highest allowable divider, from the quotient of the clock and 16 times the rate -/
def highest (rfdiv : BitVec 32) : BitVec 32 :=
  let rfdiv := if rfdiv > MAX_REF_FRQ_DIV then MAX_REF_FRQ_DIV else rfdiv
  if rfdiv < MIN_REF_FRQ_DIV then MIN_REF_FRQ_DIV else rfdiv

/-- What is written to UFCR, UBIR and UBMR -/
structure Regs where
  fcr : BitVec 32
  bir : BitVec 32
  bmr : BitVec 32

/-- The part of `ser_stty` that sets the rate -/
def serStty (clk baud fifo : BitVec 32) : Calc Regs := do
  let baud16 ← mul baud 16
  let rfdiv ← div clk baud16
  let rfdiv := highest rfdiv
  let best ← searchBaud clk baud rfdiv.toNat ⟨0, 0xffffffff, 0, rfdiv⟩
  return ⟨(fifo &&& 0xFC3F) ||| refClkDivReg best.rfdiv, best.bir - 1, 9999⟩

/-! ## What the search is for -/

/-- The divider that the field RFDIV of UFCR selects -/
def Regs.rfdiv (regs : Regs) : Nat :=
  if (field regs.fcr 7 3).toNat = 6 then 7 else 6 - (field regs.fcr 7 3).toNat

/-- The numerator for the divider `i`: the least one that does not stay below the rate -/
def numerator (clk baud i : Nat) : Nat := (16 * baud) ⌈/⌉ ((clk / i) ⌈/⌉ 10000)

/-- The rate of the reference clock, UBMR+1 and UBIR+1 -/
def rate (clk i bmr bir : Nat) : ℚ := clk / i / (16 * (bmr / bir))

/-- The rate in whole bauds, for an UBMR+1 of 10000, as `ser_stty` rounds it -/
def wholeRate (clk i bir : Nat) : Nat :=
  (clk / i * 100000) ⌈/⌉ (16 * (1000000000 ⌈/⌉ bir))

/-- The dividers from `i` on that are looked at: down to one whose rate is met -/
def looked (clk baud : Nat) : Nat → List Nat
  | 0 => []
  | i + 1 =>
    (i + 1) ::
      if wholeRate clk (i + 1) (numerator clk baud (i + 1)) = baud then [] else looked clk baud i

/-- The dividers that are tried: none makes the reference clock slower than 16 times the rate. -/
def tried (clk baud : Nat) : List Nat := looked clk baud (min 7 (clk / (16 * baud)))

/-- The registers are in range, and no divider tried has a rate with a smaller error. The rates
are in whole bauds, which are the real ones up to one baud and one in 100000. -/
structure Programmed (clk baud : Nat) (regs : Regs) : Prop where
  bmr : regs.bmr.toNat + 1 = 10000
  range : regs.bir.toNat + 1 ≤ 10000
  bir : regs.bir.toNat + 1 = numerator clk baud regs.rfdiv
  divider : regs.rfdiv ∈ tried clk baud
  least : ∀ i ∈ tried clk baud,
    Nat.dist (wholeRate clk regs.rfdiv (regs.bir.toNat + 1)) baud ≤
      Nat.dist (wholeRate clk i (numerator clk baud i)) baud
  near : ∀ i ∈ tried clk baud,
    |rate clk i 10000 (numerator clk baud i) - wholeRate clk i (numerator clk baud i)| <
      1 + wholeRate clk i (numerator clk baud i) / 100000

/-- The computation neither divides by zero nor wraps around, and the registers are right. -/
def Right (clk baud fifo : BitVec 32) : Prop :=
  ∃ regs, Exact (serStty clk baud fifo) regs ∧ Programmed clk.toNat baud.toNat regs

/-- No 32-bit step for the divider `i` wraps around. -/
structure Fits (clk baud i : Nat) : Prop where
  clock : clk / i + 9999 < 2 ^ 32
  sum : 16 * baud + ((clk / i) ⌈/⌉ 10000 - 1) < 2 ^ 32
  fast : 3 * ((clk / i) ⌈/⌉ 10000) < 16 * baud

/-! ## One divider -/

theorem toNat_pred {w : Nat} {b : BitVec w} (pos : b.toNat ≠ 0) :
    (b - 1).toNat = b.toNat - 1 := by
  have bound := b.isLt
  have wide : 0 < w := by
    rcases Nat.eq_zero_or_pos w with rfl | wide
    · omega
    · exact wide
  have one : (1 : BitVec w).toNat = 1 := BitVec.toNat_one wide
  rw [BitVec.toNat_sub_of_le (by rw [BitVec.le_def, one]; omega), one]

theorem exact_divideAndRound {w : Nat} {a b z : BitVec w} :
    Exact (divideAndRound a b) z ↔
      b.toNat ≠ 0 ∧ a.toNat + (b.toNat - 1) < 2 ^ w ∧ z.toNat = a.toNat ⌈/⌉ b.toNat := by
  unfold divideAndRound
  simp only [exact_bind, exact_add, exact_div]
  rw [Nat.ceilDiv_eq_add_pred_div]
  constructor
  · rintro ⟨sum, ⟨fits, sum_⟩, pos, quot⟩
    rw [toNat_pred pos] at fits sum_
    refine ⟨pos, fits, ?_⟩
    rw [quot, sum_, Nat.add_sub_assoc (Nat.pos_of_ne_zero pos)]
  · rintro ⟨pos, fits, quot⟩
    obtain ⟨sum, sum_⟩ := exists_toNat fits
    refine ⟨sum, ⟨?_, ?_⟩, pos, ?_⟩
    · rw [toNat_pred pos]
      exact fits
    · rw [toNat_pred pos]
      exact sum_
    · rw [quot, sum_, Nat.add_sub_assoc (Nat.pos_of_ne_zero pos)]

variable {clk baud i bir : Nat}

theorem unit_pos (slow : 16 * baud ≤ clk / i) (some_ : 0 < baud) :
    0 < (clk / i) ⌈/⌉ 10000 := by
  refine Nat.pos_of_ne_zero fun none => ?_
  have := (ceilDiv_le_iff_le_mul (by decide : 0 < 10000)).mp none.le
  omega

theorem numerator_pos (slow : 16 * baud ≤ clk / i) (some_ : 0 < baud) :
    0 < numerator clk baud i := by
  refine Nat.pos_of_ne_zero fun none => ?_
  have := (ceilDiv_le_iff_le_mul (unit_pos slow some_)).mp none.le
  omega

theorem numerator_le (slow : 16 * baud ≤ clk / i) (some_ : 0 < baud) :
    numerator clk baud i ≤ 10000 := by
  refine (ceilDiv_le_iff_le_mul (unit_pos slow some_)).mpr (slow.trans ?_)
  rw [Nat.mul_comm]
  exact (ceilDiv_le_iff_le_mul (by decide)).mp le_rfl

theorem product_fits (pos : 0 < bir) :
    16 * (1000000000 ⌈/⌉ bir) < 2 ^ 32 ↔ 3 < bir := by
  have half : 16 * (1000000000 ⌈/⌉ bir) < 2 ^ 32 ↔ 1000000000 ⌈/⌉ bir ≤ 268435455 := by omega
  rw [half, ceilDiv_le_iff_le_mul pos]
  omega

theorem numerator_fast (slow : 16 * baud ≤ clk / i) (some_ : 0 < baud) :
    3 < numerator clk baud i ↔ 3 * ((clk / i) ⌈/⌉ 10000) < 16 * baud := by
  rw [← Nat.not_le, numerator, ceilDiv_le_iff_le_mul (unit_pos slow some_), Nat.not_le,
    Nat.mul_comm]

theorem wholeRate_lt (below : clk < 2 ^ 32) (pos : 0 < bir) (le : bir ≤ 10000) :
    wholeRate clk i bir < 2 ^ 31 := by
  have quot : 1000000000 ≤ bir * (1000000000 ⌈/⌉ bir) := (ceilDiv_le_iff_le_mul pos).mp le_rfl
  have enough : 100000 ≤ 1000000000 ⌈/⌉ bir := by
    have := quot.trans (Nat.mul_le_mul_right _ le)
    omega
  have some_ : wholeRate clk i bir ≤ clk / 16 + 1 := by
    refine (ceilDiv_le_iff_le_mul (by omega)).mpr ?_
    calc clk / i * 100000
      _ ≤ 16 * (clk / 16 + 1) * 100000 := by
        have := Nat.div_le_self clk i
        omega
      _ ≤ 16 * (clk / 16 + 1) * (1000000000 ⌈/⌉ bir) := Nat.mul_le_mul_left _ enough
      _ = 16 * (1000000000 ⌈/⌉ bir) * (clk / 16 + 1) := Nat.mul_right_comm _ _ _
  omega

theorem exact_currentBaud {clk baud i : BitVec 32} {current : BitVec 32 × BitVec 64}
    (slow : 16 * baud.toNat ≤ clk.toNat / i.toNat) (some_ : 0 < baud.toNat) :
    Exact (currentBaud clk baud i) current ↔ Fits clk.toNat baud.toNat i.toNat ∧
      current.1.toNat = numerator clk.toNat baud.toNat i.toNat ∧
      current.2.toNat =
        wholeRate clk.toNat i.toNat (numerator clk.toNat baud.toNat i.toNat) := by
  have clk_lt := clk.isLt
  have ref_le : clk.toNat / i.toNat ≤ clk.toNat := Nat.div_le_self _ _
  have divides : i.toNat ≠ 0 := by
    intro zero
    rw [zero, Nat.div_zero] at slow
    omega
  have pos := numerator_pos slow some_
  have le := numerator_le slow some_
  have ten : (10000 : BitVec 32).toNat = 10000 := rfl
  have sixteen : (16 : BitVec 32).toNat = 16 := rfl
  have billion : (10000 * 100000 : BitVec 32).toNat = 1000000000 := rfl
  have scale : (100000 : BitVec 64).toNat = 100000 := rfl
  unfold currentBaud
  simp only [exact_bind, exact_div, exact_mul, exact_divideAndRound, exact_pure, ten, sixteen,
    billion, scale, BitVec.toNat_setWidth]
  constructor
  · rintro ⟨ref, ⟨-, ref_⟩, baud16, ⟨-, baud16_⟩, unit, ⟨-, clock, unit_⟩, bir, ⟨-, sum, bir_⟩,
      quot, ⟨-, -, quot_⟩, quot16, ⟨product, quot16_⟩, scaled, ⟨-, scaled_⟩, whole, ⟨-, -, whole_⟩,
      rfl⟩
    have bir_' : bir.toNat = numerator clk.toNat baud.toNat i.toNat := by
      rw [bir_, unit_, baud16_, ref_, Nat.mul_comm]
      rfl
    rw [ref_] at clock
    rw [baud16_, unit_, ref_, Nat.mul_comm] at sum
    rw [quot_, bir_', product_fits pos, numerator_fast slow some_] at product
    have ref_small : ref.toNat % 2 ^ 64 = ref.toNat := Nat.mod_eq_of_lt (by omega)
    have quot_small : quot16.toNat % 2 ^ 64 = quot16.toNat :=
      Nat.mod_eq_of_lt (quot16.isLt.trans (by decide))
    refine ⟨⟨clock, sum, product⟩, bir_', ?_⟩
    rw [whole_, scaled_, ref_small, quot_small, quot16_, quot_, bir_', ref_]
    rfl
  · rintro ⟨⟨clock, sum, fast⟩, bir_, whole_⟩
    obtain ⟨bir, whole⟩ := current
    have product := (product_fits pos).mpr ((numerator_fast slow some_).mpr fast)
    have unit_lt : (clk.toNat / i.toNat) ⌈/⌉ 10000 < 2 ^ 32 :=
      lt_of_le_of_lt ((ceilDiv_le_iff_le_mul (by decide)).mpr (by omega)) clk_lt
    obtain ⟨ref, ref_⟩ := exists_toNat (ref_le.trans_lt clk_lt)
    obtain ⟨baud16, baud16_⟩ := exists_toNat (w := 32) (n := baud.toNat * 16) (by omega)
    obtain ⟨unit, unit_⟩ := exists_toNat unit_lt
    obtain ⟨quot, quot_⟩ :=
      exists_toNat (lt_of_le_of_lt (Nat.le_mul_of_pos_left _ (by decide)) product)
    obtain ⟨quot16, quot16_⟩ := exists_toNat product
    have ref_lt := ref.isLt
    have quot16_lt := quot16.isLt
    have ref_small : ref.toNat % 2 ^ 64 = ref.toNat := Nat.mod_eq_of_lt (by omega)
    have quot_small : quot16.toNat % 2 ^ 64 = quot16.toNat := Nat.mod_eq_of_lt (by omega)
    obtain ⟨scaled, scaled_⟩ := exists_toNat (w := 64) (n := ref.toNat * 100000) (by omega)
    have unit_pos_ := unit_pos slow some_
    have some_quot : 0 < 1000000000 ⌈/⌉ numerator clk.toNat baud.toNat i.toNat := by
      refine Nat.pos_of_ne_zero fun none => ?_
      have := (ceilDiv_le_iff_le_mul pos).mp none.le
      omega
    refine ⟨ref, ⟨divides, ref_⟩, baud16, ⟨by omega, baud16_⟩, unit, ⟨by decide, ?_, ?_⟩,
      bir, ⟨?_, ?_, ?_⟩, quot, ⟨?_, ?_, ?_⟩, quot16, ⟨?_, ?_⟩, scaled, ⟨?_, ?_⟩, whole,
      ⟨?_, ?_, ?_⟩, rfl⟩
    · rw [ref_]
      exact clock
    · rw [unit_, ref_]
    · rw [unit_]
      exact unit_pos_.ne'
    · rw [baud16_, unit_, Nat.mul_comm]
      exact sum
    · rw [bir_, baud16_, unit_, Nat.mul_comm]
      rfl
    · rw [bir_]
      exact pos.ne'
    · rw [bir_]
      omega
    · rw [quot_, bir_]
    · rw [quot_]
      exact product
    · rw [quot16_, quot_]
    · rw [ref_small]
      omega
    · rw [scaled_, ref_small]
    · rw [quot_small, quot16_]
      omega
    · rw [quot_small, scaled_]
      omega
    · rw [whole_, quot_small, scaled_, quot16_, ref_]
      rfl

/-! ## The search -/

theorem uintDifference_toNat {w : Nat} (a b : BitVec w) :
    (uintDifference a b).toNat = Nat.dist a.toNat b.toNat := by
  unfold uintDifference Nat.dist
  split
  · rename_i more
    rw [BitVec.toNat_sub_of_le (BitVec.le_of_lt more)]
    have := BitVec.lt_def.mp more
    omega
  · rename_i less
    have le := BitVec.not_lt.mp less
    rw [BitVec.toNat_sub_of_le le]
    have := BitVec.le_def.mp le
    omega

/-- The error of a divider, in whole bauds -/
def error (clk baud i : Nat) : Nat := Nat.dist (wholeRate clk i (numerator clk baud i)) baud

/-- `best` is the divider `i`. -/
structure Chosen (clk baud i : Nat) (best : Best) : Prop where
  bir : best.bir.toNat = numerator clk baud i
  rfdiv : best.rfdiv.toNat = i
  diff : best.diff.toNat = error clk baud i

section
variable {clk baud : BitVec 32} {n : Nat} {best : Best}

theorem error_lt (slow : 16 * baud.toNat ≤ clk.toNat / n) (some_ : 0 < baud.toNat) :
    error clk.toNat baud.toNat n < 2 ^ 31 := by
  have whole := wholeRate_lt (i := n) clk.isLt (numerator_pos slow some_) (numerator_le slow some_)
  have le := Nat.div_le_self clk.toNat n
  have := clk.isLt
  unfold error Nat.dist
  omega

theorem exact_keepBest {i : BitVec 32} (best : Best) (current : BitVec 32 × BitVec 64)
    (slow : 16 * baud.toNat ≤ clk.toNat / i.toNat) (some_ : 0 < baud.toNat)
    (bir : current.1.toNat = numerator clk.toNat baud.toNat i.toNat)
    (whole : current.2.toNat =
      wholeRate clk.toNat i.toNat (numerator clk.toNat baud.toNat i.toNat)) :
    ∃ best', Exact (keepBest baud i best current) best' ∧
      (best' = best ∨ Chosen clk.toNat baud.toNat i.toNat best') ∧
      best'.diff ≤ best.diff ∧ best'.diff.toNat ≤ error clk.toNat baud.toNat i.toNat := by
  have small := error_lt slow some_
  have whole_lt : current.2.toNat < 2 ^ 32 := by
    rw [whole]
    exact (wholeRate_lt clk.isLt (numerator_pos slow some_) (numerator_le slow some_)).trans
      (by decide)
  have wide : (baud.setWidth 64).toNat = baud.toNat := by
    rw [BitVec.toNat_setWidth, Nat.mod_eq_of_lt (baud.isLt.trans (by decide))]
  have diff_ : (uintDifference current.2 (baud.setWidth 64)).toNat =
      error clk.toNat baud.toNat i.toNat := by
    rw [uintDifference_toNat, whole, wide]
    rfl
  obtain ⟨diff, diff_toNat⟩ := exists_toNat (small.trans (by decide : 2 ^ 31 < 2 ^ 32))
  obtain ⟨rate, rate_toNat⟩ := exists_toNat whole_lt
  have cut : Exact (narrow 32 (uintDifference current.2 (baud.setWidth 64))) diff :=
    exact_narrow.mpr ⟨by rw [diff_]; omega, diff_toNat.trans diff_.symm⟩
  unfold keepBest
  by_cases closer : diff < best.diff
  · refine ⟨⟨rate, diff, current.1, i⟩, exact_bind.mpr ⟨diff, cut, ?_⟩,
      Or.inr ⟨bir, rfl, diff_toNat⟩, BitVec.le_of_lt closer, diff_toNat.le⟩
    rw [if_pos closer]
    exact exact_bind.mpr ⟨rate, exact_narrow.mpr ⟨whole_lt, rate_toNat⟩, exact_pure.mpr rfl⟩
  · refine ⟨best, exact_bind.mpr ⟨diff, cut, ?_⟩, Or.inl rfl, BitVec.le_refl _, ?_⟩
    · rw [if_neg closer]
      exact exact_pure.mpr rfl
    · exact (BitVec.le_def.mp (BitVec.not_lt.mp closer)).trans diff_toNat.le

/-- The loop stops where `looked` does. -/
theorem met_iff (baud : BitVec 32) {current : BitVec 64} {i bir : Nat}
    (whole : current.toNat = wholeRate i n bir) :
    current = baud.setWidth 64 ↔ wholeRate i n bir = baud.toNat := by
  rw [← BitVec.toNat_inj, whole, BitVec.toNat_setWidth,
    Nat.mod_eq_of_lt (baud.isLt.trans (by decide))]

theorem divider_toNat (few : n + 1 ≤ 7) : (BitVec.ofNat 32 (n + 1)).toNat = n + 1 := by
  rw [BitVec.toNat_ofNat, Nat.mod_eq_of_lt (by omega)]

theorem slower (slow : 16 * baud.toNat ≤ clk.toNat / (n + 1 + 1)) :
    16 * baud.toNat ≤ clk.toNat / (n + 1) :=
  slow.trans (Nat.div_le_div_left (Nat.le_succ _) (Nat.succ_pos _))

theorem searchBaud_fits {r : Best} (few : n ≤ 7) (slow : 16 * baud.toNat ≤ clk.toNat / n)
    (some_ : 0 < baud.toNat) (exact_ : Exact (searchBaud clk baud n best) r) :
    ∀ i ∈ looked clk.toNat baud.toNat n, Fits clk.toNat baud.toNat i := by
  induction n generalizing best with
  | zero => exact fun i mem => absurd mem List.not_mem_nil
  | succ n ih =>
    have divider := divider_toNat few
    have slow' : 16 * baud.toNat ≤ clk.toNat / (BitVec.ofNat 32 (n + 1)).toNat := by
      rw [divider]
      exact slow
    obtain ⟨current, first, rest⟩ := exact_bind.mp exact_
    obtain ⟨best', -, rest⟩ := exact_bind.mp rest
    obtain ⟨fits, -, whole⟩ := (exact_currentBaud slow' some_).mp first
    rw [divider] at fits whole
    have met := met_iff baud whole
    intro i mem
    rcases List.mem_cons.mp mem with rfl | later
    · exact fits
    · by_cases stop : current.2 = baud.setWidth 64
      · rw [if_pos (met.mp stop)] at later
        exact absurd later List.not_mem_nil
      · rw [if_neg stop] at rest
        rw [if_neg (fun same => stop (met.mpr same))] at later
        cases n with
        | zero => exact absurd later List.not_mem_nil
        | succ n => exact ih (by omega) (slower slow) rest i later

theorem searchBaud_least (best : Best) (few : n ≤ 7) (slow : 16 * baud.toNat ≤ clk.toNat / n)
    (some_ : 0 < baud.toNat)
    (fits : ∀ i ∈ looked clk.toNat baud.toNat n, Fits clk.toNat baud.toNat i) :
    ∃ r, Exact (searchBaud clk baud n best) r ∧
      (r = best ∨ ∃ i ∈ looked clk.toNat baud.toNat n, Chosen clk.toNat baud.toNat i r) ∧
      r.diff ≤ best.diff ∧
      ∀ i ∈ looked clk.toNat baud.toNat n, r.diff.toNat ≤ error clk.toNat baud.toNat i := by
  induction n generalizing best with
  | zero =>
    exact ⟨best, exact_pure.mpr rfl, Or.inl rfl, BitVec.le_refl _,
      fun i mem => absurd mem List.not_mem_nil⟩
  | succ n ih =>
    have divider := divider_toNat few
    have slow' : 16 * baud.toNat ≤ clk.toNat / (BitVec.ofNat 32 (n + 1)).toNat := by
      rw [divider]
      exact slow
    have pos := numerator_pos slow some_
    have le := numerator_le slow some_
    have first : n + 1 ∈ looked clk.toNat baud.toNat (n + 1) := List.mem_cons_self
    obtain ⟨bir, bir_⟩ := exists_toNat (w := 32) (le.trans_lt (by decide))
    obtain ⟨whole, whole_⟩ := exists_toNat (w := 64)
      ((wholeRate_lt (i := n + 1) clk.isLt pos le).trans (by decide))
    have rated : Exact (currentBaud clk baud (BitVec.ofNat 32 (n + 1))) (bir, whole) := by
      refine (exact_currentBaud slow' some_).mpr ?_
      rw [divider]
      exact ⟨fits _ first, bir_, whole_⟩
    have bir_' : bir.toNat =
        numerator clk.toNat baud.toNat (BitVec.ofNat 32 (n + 1)).toNat := by
      rw [divider]
      exact bir_
    have whole_' : whole.toNat = wholeRate clk.toNat (BitVec.ofNat 32 (n + 1)).toNat
        (numerator clk.toNat baud.toNat (BitVec.ofNat 32 (n + 1)).toNat) := by
      rw [divider]
      exact whole_
    obtain ⟨best', keeps, kept, less, near⟩ :=
      exact_keepBest best (bir, whole) slow' some_ bir_' whole_'
    rw [divider] at kept near
    have met := met_iff baud whole_
    have start : ∀ r, Exact (if whole = baud.setWidth 64 then pure best'
        else searchBaud clk baud n best') r → Exact (searchBaud clk baud (n + 1) best) r :=
      fun r rest => exact_bind.mpr ⟨_, rated, exact_bind.mpr ⟨best', keeps, rest⟩⟩
    by_cases stop : whole = baud.setWidth 64
    · have only : looked clk.toNat baud.toNat (n + 1) = [n + 1] := by
        rw [looked, if_pos (met.mp stop)]
      rw [if_pos stop] at start
      refine ⟨best', start best' (exact_pure.mpr rfl), ?_, less, ?_⟩
      · exact kept.imp id fun here => ⟨n + 1, first, here⟩
      · intro i mem
        rw [only, List.mem_singleton] at mem
        exact mem ▸ near
    · have more : looked clk.toNat baud.toNat (n + 1) =
          (n + 1) :: looked clk.toNat baud.toNat n := by
        rw [looked, if_neg (fun same => stop (met.mpr same))]
      rw [if_neg stop] at start
      rw [more] at fits ⊢
      have slower_ : n = 0 ∨ 16 * baud.toNat ≤ clk.toNat / n := by
        cases n with
        | zero => exact Or.inl rfl
        | succ n => exact Or.inr (slower slow)
      obtain ⟨r, run, found, least, all⟩ : ∃ r, Exact (searchBaud clk baud n best') r ∧
          (r = best' ∨ ∃ i ∈ looked clk.toNat baud.toNat n, Chosen clk.toNat baud.toNat i r) ∧
          r.diff ≤ best'.diff ∧
          ∀ i ∈ looked clk.toNat baud.toNat n, r.diff.toNat ≤ error clk.toNat baud.toNat i := by
        rcases slower_ with rfl | slower_
        · exact ⟨best', exact_pure.mpr rfl, Or.inl rfl, BitVec.le_refl _,
            fun i mem => absurd mem List.not_mem_nil⟩
        · exact ih best' (by omega) slower_ fun i mem => fits i (List.mem_cons_of_mem _ mem)
      refine ⟨r, start r run, ?_, BitVec.le_trans least less, ?_⟩
      · rcases found with rfl | ⟨i, mem, here⟩
        · exact kept.imp id fun here => ⟨n + 1, List.mem_cons_self, here⟩
        · exact Or.inr ⟨i, List.mem_cons_of_mem _ mem, here⟩
      · intro i mem
        rcases List.mem_cons.mp mem with rfl | later
        · exact (BitVec.le_def.mp least).trans near
        · exact all i later

end

/-! ## The registers -/

theorem rfdiv_fcr (fifo bir bmr x : BitVec 32) (pos : 0 < x.toNat) (few : x.toNat ≤ 7) :
    Regs.rfdiv ⟨(fifo &&& 0xFC3F) ||| refClkDivReg x, bir, bmr⟩ = x.toNat := by
  have cleared : field (fifo &&& 0xFC3F) 7 3 = 0 := field_clear rfl
  have shown : field ((fifo &&& 0xFC3F) ||| refClkDivReg x) 7 3 = field (refClkDivReg x) 7 3 := by
    rw [field_or, cleared]
    exact BitVec.zero_or
  unfold Regs.rfdiv
  dsimp only
  rw [shown]
  have one : x = 1 ∨ x = 2 ∨ x = 3 ∨ x = 4 ∨ x = 5 ∨ x = 6 ∨ x = 7 := by bv_omega
  rcases one with rfl | rfl | rfl | rfl | rfl | rfl | rfl <;> rfl

theorem rate_near {clk i bir : Nat} (divides : 0 < i) (pos : 0 < bir) (le : bir ≤ 10000) :
    |rate clk i 10000 bir - wholeRate clk i bir| < 1 + wholeRate clk i bir / 100000 := by
  obtain ⟨quot, quot_⟩ : ∃ quot, 1000000000 ⌈/⌉ bir = quot := ⟨_, rfl⟩
  obtain ⟨whole, whole_⟩ : ∃ whole, wholeRate clk i bir = whole := ⟨_, rfl⟩
  have above : 1000000000 ≤ bir * quot := (ceilDiv_le_iff_le_mul pos).mp quot_.le
  have below : quot * bir ≤ 1000000000 + bir - 1 := by
    rw [← quot_, Nat.ceilDiv_eq_add_pred_div]
    exact Nat.div_mul_le_self _ _
  have some_ : 0 < 16 * quot := by
    refine Nat.pos_of_ne_zero fun none => ?_
    obtain rfl : quot = 0 := by omega
    omega
  have whole_le : ∀ {k}, clk / i * 100000 ≤ 16 * quot * k ↔ whole ≤ k := by
    intro k
    rw [← whole_, wholeRate, quot_, ceilDiv_le_iff_le_mul some_]
  have ref_le : i * (clk / i) ≤ clk := Nat.mul_div_le clk i
  have clk_lt : clk < i * (clk / i + 1) := Nat.lt_mul_div_succ clk divides
  obtain ⟨ref, ref_⟩ : ∃ ref, clk / i = ref := ⟨_, rfl⟩
  rw [ref_] at whole_le ref_le clk_lt
  -- not a baud too high
  have high : 160000 * i * whole < clk * bir + 160000 * i := by
    by_contra more
    obtain ⟨k, rfl⟩ : ∃ k, whole = k + 1 := by
      refine Nat.exists_eq_add_one_of_ne_zero fun none => ?_
      rw [none] at more
      omega
    have less : clk * bir ≤ i * (160000 * k) := by linarith
    have each : ref * bir ≤ 160000 * k := by
      refine Nat.le_of_mul_le_mul_left ?_ divides
      rw [← Nat.mul_assoc]
      exact (Nat.mul_le_mul_right _ ref_le).trans less
    have enough : ref * 100000 ≤ 16 * quot * k := by
      refine Nat.le_of_mul_le_mul_left ?_ pos
      calc bir * (ref * 100000)
        _ = 100000 * (ref * bir) := by ring
        _ ≤ 100000 * (160000 * k) := Nat.mul_le_mul_left _ each
        _ = 16 * k * 1000000000 := by ring
        _ ≤ 16 * k * (bir * quot) := Nat.mul_le_mul_left _ above
        _ = bir * (16 * quot * k) := by ring
    exact absurd (whole_le.mp enough) (Nat.not_succ_le_self k)
  -- and hardly more than one too low
  have low : 100000 * (clk * bir) < 160000 * i * (100001 * whole + 100000) := by
    have most : ref * 100000 * bir ≤ 160000 * 100001 * whole := by
      calc ref * 100000 * bir
        _ ≤ 16 * quot * whole * bir := Nat.mul_le_mul_right _ (whole_le.mpr le_rfl)
        _ = 16 * whole * (quot * bir) := by ring
        _ ≤ 16 * whole * 1000010000 := Nat.mul_le_mul_left _ (by omega)
        _ = 160000 * 100001 * whole := by ring
    calc 100000 * (clk * bir)
      _ < 100000 * (i * (ref + 1) * bir) := by
        have := Nat.mul_lt_mul_of_pos_right clk_lt pos
        omega
      _ = i * (ref * 100000 * bir + 100000 * bir) := by ring
      _ ≤ i * (160000 * 100001 * whole + 100000 * 10000) :=
        Nat.mul_le_mul_left _ (Nat.add_le_add most (Nat.mul_le_mul_left _ le))
      _ ≤ i * (160000 * (100001 * whole + 100000)) := Nat.mul_le_mul_left _ (by omega)
      _ = 160000 * i * (100001 * whole + 100000) := by ring
  have unit : (0 : ℚ) < 160000 * i := by positivity
  have rate_ : rate clk i 10000 bir = clk * bir / (160000 * i) := by
    have some_bir : (bir : ℚ) ≠ 0 := by positivity
    have some_i : (i : ℚ) ≠ 0 := by positivity
    unfold rate
    push_cast
    field_simp
    ring
  have high' : (160000 * i * whole : ℚ) < clk * bir + 160000 * i := by exact_mod_cast high
  have low' : (100000 * (clk * bir) : ℚ) < 160000 * i * (100001 * whole + 100000) := by
    exact_mod_cast low
  have rest : (0 : ℚ) ≤ whole / 100000 := div_nonneg (Nat.cast_nonneg whole) (by norm_num)
  rw [rate_, whole_, abs_lt]
  constructor
  · have : (whole - 1 : ℚ) < clk * bir / (160000 * i) := (lt_div_iff₀ unit).mpr (by linarith)
    linarith
  · have : (clk * bir / (160000 * i) : ℚ) < whole + whole / 100000 + 1 :=
      (div_lt_iff₀ unit).mpr (by linarith)
    linarith

/-! ## The whole of it -/

theorem looked_le {clk baud n i : Nat} (mem : i ∈ looked clk baud n) : 0 < i ∧ i ≤ n := by
  induction n with
  | zero => exact absurd mem List.not_mem_nil
  | succ n ih =>
    rcases List.mem_cons.mp mem with rfl | later
    · exact ⟨Nat.succ_pos n, le_rfl⟩
    · split at later
      · exact absurd later List.not_mem_nil
      · exact ⟨(ih later).1, (ih later).2.trans (Nat.le_succ n)⟩

theorem tried_slow {clk baud i : Nat} (some_ : 0 < baud) (mem : i ∈ tried clk baud) :
    0 < i ∧ i ≤ 7 ∧ 16 * baud ≤ clk / i := by
  obtain ⟨pos, le⟩ := looked_le mem
  have within := (le_min_iff.mp le).2
  refine ⟨pos, (le_min_iff.mp le).1, (Nat.le_div_iff_mul_le pos).mpr ?_⟩
  rw [Nat.mul_comm]
  exact (Nat.le_div_iff_mul_le (by omega)).mp within

section
variable {clk baud fifo : BitVec 32}

theorem highest_toNat {rfdiv : BitVec 32} (pos : 0 < rfdiv.toNat) :
    (highest rfdiv).toNat = min 7 rfdiv.toNat := by
  have seven : MAX_REF_FRQ_DIV.toNat = 7 := rfl
  have one : MIN_REF_FRQ_DIV.toNat = 1 := rfl
  unfold highest
  dsimp only
  split
  · rename_i more
    rw [if_neg (by decide), seven]
    have := BitVec.lt_def.mp more
    omega
  · rename_i less
    have := BitVec.le_def.mp (BitVec.not_lt.mp less)
    rw [if_neg (BitVec.not_lt.mpr (BitVec.le_def.mpr (by omega)))]
    omega

/-- `ser_stty` runs its search from the highest divider on. -/
theorem exact_serStty {regs : Regs} (slow : 16 * baud.toNat ≤ clk.toNat)
    (some_ : 0 < baud.toNat) :
    Exact (serStty clk baud fifo) regs ↔
      ∃ n : BitVec 32, n.toNat = min 7 (clk.toNat / (16 * baud.toNat)) ∧
        ∃ best, Exact (searchBaud clk baud n.toNat ⟨0, 0xffffffff, 0, n⟩) best ∧
          ⟨(fifo &&& 0xFC3F) ||| refClkDivReg best.rfdiv, best.bir - 1, 9999⟩ = regs := by
  have sixteen : (16 : BitVec 32).toNat = 16 := rfl
  have clk_lt := clk.isLt
  have some_quot : 0 < clk.toNat / (16 * baud.toNat) := Nat.div_pos slow (by omega)
  unfold serStty
  simp only [exact_bind, exact_mul, exact_div, exact_pure, sixteen]
  constructor
  · rintro ⟨baud16, ⟨-, baud16_⟩, rfdiv, ⟨-, rfdiv_⟩, best, run, made⟩
    rw [baud16_, Nat.mul_comm] at rfdiv_
    refine ⟨highest rfdiv, ?_, best, run, made⟩
    rw [highest_toNat (rfdiv_ ▸ some_quot), rfdiv_]
  · rintro ⟨n, n_, best, run, made⟩
    obtain ⟨baud16, baud16_⟩ := exists_toNat (w := 32) (n := baud.toNat * 16) (by omega)
    obtain ⟨rfdiv, rfdiv_⟩ := exists_toNat (w := 32) ((Nat.div_le_self _ _).trans_lt clk_lt)
    have same : highest rfdiv = n := by
      apply BitVec.eq_of_toNat_eq
      rw [highest_toNat (rfdiv_ ▸ some_quot), rfdiv_, n_]
    refine ⟨baud16, ⟨by omega, baud16_⟩, rfdiv, ⟨by omega, ?_⟩, best, ?_, made⟩
    · rw [rfdiv_, baud16_, Nat.mul_comm]
    · rw [same]
      exact run

end

theorem first_slow {n clk baud : Nat} (slow : 16 * baud ≤ clk) (some_ : 0 < baud)
    (first : n = min 7 (clk / (16 * baud))) : 0 < n ∧ n ≤ 7 ∧ 16 * baud ≤ clk / n := by
  have some_quot : 0 < clk / (16 * baud) := Nat.div_pos slow (by omega)
  have pos : 0 < n := by omega
  refine ⟨pos, by omega, (Nat.le_div_iff_mul_le pos).mpr ?_⟩
  rw [Nat.mul_comm]
  exact (Nat.le_div_iff_mul_le (by omega)).mp (first.trans_le (min_le_right _ _))

theorem programmed {clk baud fifo : BitVec 32} {best : Best} {i : Nat} (some_ : 0 < baud.toNat)
    (mem : i ∈ tried clk.toNat baud.toNat) (kept : Chosen clk.toNat baud.toNat i best)
    (least : ∀ j ∈ tried clk.toNat baud.toNat, best.diff.toNat ≤ error clk.toNat baud.toNat j) :
    Programmed clk.toNat baud.toNat
      ⟨(fifo &&& 0xFC3F) ||| refClkDivReg best.rfdiv, best.bir - 1, 9999⟩ := by
  obtain ⟨pos, few, slow⟩ := tried_slow some_ mem
  have rfdiv := rfdiv_fcr fifo (best.bir - 1) 9999 best.rfdiv (kept.rfdiv ▸ pos) (kept.rfdiv ▸ few)
  rw [kept.rfdiv] at rfdiv
  have some_bir : 0 < best.bir.toNat := kept.bir ▸ numerator_pos slow some_
  have bir : (best.bir - 1).toNat + 1 = numerator clk.toNat baud.toNat i := by
    rw [toNat_pred some_bir.ne', ← kept.bir]
    omega
  refine ⟨rfl, ?_, ?_, ?_, ?_, ?_⟩
  · exact bir.trans_le (numerator_le slow some_)
  · rw [rfdiv]
    exact bir
  · rw [rfdiv]
    exact mem
  · intro j mem'
    rw [rfdiv, bir]
    exact kept.diff.symm.trans_le (least j mem')
  · intro j mem'
    obtain ⟨pos', -, slow'⟩ := tried_slow some_ mem'
    exact rate_near pos' (numerator_pos slow' some_) (numerator_le slow' some_)

end Mx6xBsp.Devc
