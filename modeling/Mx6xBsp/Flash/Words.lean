import Mathlib.Data.List.Basic

/-!
# Status words of interleaved flash chips

The bus to a flash array is shared by interleaved devices, so a status word has the
status bits of all of them, each in its own lane. `device_mult` has the lowest bit of
every lane, and the callouts of `mtd-flash` mask one status bit of all devices with
`(1 << n) * flashcfg.device_mult`.
-/

namespace Mx6xBsp.Flash

def EOK : Nat := 0
def EIO : Nat := 5
def EAGAIN : Nat := 11
def ENOMEM : Nat := 12
def ECANCELED : Nat := 47

/-- Why `page` has no pointer for an offset -/
abbrev Errno := { errno : Nat // errno ≠ EOK }

/-- The widths and interleaves that `flashcfg_setup` has a multiplier for, and the multiplier -/
def multipliers : List ((Nat × Nat) × BitVec 64) :=
  [((1, 1), 0x01), ((1, 2), 0x0101), ((1, 4), 0x01010101), ((1, 8), 0x0101010101010101),
    ((2, 1), 0x0001), ((2, 2), 0x00010001), ((2, 4), 0x0001000100010001),
    ((4, 1), 0x00000001), ((4, 2), 0x0000000100000001)]

theorem single_supported : ((2, 1), 0x0001) ∈ multipliers := by decide

theorem pair_supported : ((1, 2), 0x0101) ∈ multipliers := by decide

/-- `flashcfg`, with a supported width and interleave -/
structure Flashcfg where
  deviceWidth : Nat
  chipInter : Nat
  deviceMult : BitVec 64
  supported : ((deviceWidth, chipInter), deviceMult) ∈ multipliers

namespace Flashcfg

variable (cfg : Flashcfg)

def busWidth : Nat := cfg.deviceWidth * cfg.chipInter

/-- The status bit `n` of all devices -/
def mask (n : Nat) : BitVec 64 := (1 <<< n) * cfg.deviceMult

/-- The status bit `n` of the device `i` in a status word -/
def dq (n : Nat) (word : BitVec 64) (i : Nat) : Bool := word.getLsbD (8 * cfg.deviceWidth * i + n)

variable {cfg}

theorem chipInter_pos : 0 < cfg.chipInter := by
  have all : ∀ entry ∈ multipliers, 0 < entry.1.2 := by decide
  exact all _ cfg.supported

theorem dq_lt {n i : Nat} (bit : n < 8) (inside : i < cfg.chipInter) :
    8 * cfg.deviceWidth * i + n < 64 := by
  have all : ∀ entry ∈ multipliers, ∀ i < entry.1.2, 8 * entry.1.1 * i + 7 < 64 := by decide
  have fits := all _ cfg.supported i inside
  dsimp only at fits
  omega

theorem mask_bit {n j : Nat} (bit : n < 8) :
    (cfg.mask n).getLsbD j = true ↔ ∃ i < cfg.chipInter, j = 8 * cfg.deviceWidth * i + n := by
  have all : ∀ entry ∈ multipliers, ∀ n < 8, ∀ j < 64,
      ((((1 : BitVec 64) <<< n) * entry.2).getLsbD j = true ↔
        ∃ i < entry.1.2, j = 8 * entry.1.1 * i + n) := by decide +kernel
  by_cases small : j < 64
  · exact all _ cfg.supported n bit j small
  · constructor
    · intro set
      exact absurd (BitVec.lt_of_getLsbD set) small
    · rintro ⟨i, inside, rfl⟩
      exact absurd (dq_lt bit inside) small

theorem dq_mask {n i : Nat} (bit : n < 8) (inside : i < cfg.chipInter) :
    cfg.dq n (cfg.mask n) i = true := (mask_bit bit).mpr ⟨i, inside, rfl⟩

theorem dq_mask_of_ne {n m i : Nat} (bit : n < 8) (bit' : m < 8) (apart : n ≠ m) :
    cfg.dq n (cfg.mask m) i = false := by
  refine Bool.eq_false_iff.mpr fun set => ?_
  obtain ⟨j, _, same⟩ := (mask_bit bit').mp set
  rw [Nat.mul_assoc, Nat.mul_assoc] at same
  omega

theorem dq_or {n i : Nat} (first second : BitVec 64) :
    cfg.dq n (first ||| second) i = (cfg.dq n first i || cfg.dq n second i) :=
  BitVec.getLsbD_or

theorem mask_ne_zero {n : Nat} (bit : n < 8) : cfg.mask n ≠ 0 := by
  intro zero
  have set : cfg.dq n (cfg.mask n) 0 = true := dq_mask bit chipInter_pos
  rw [zero] at set
  exact absurd (BitVec.getLsbD_zero.symm.trans set) Bool.false_ne_true

theorem deviceWidth_pos : 0 < cfg.deviceWidth := by
  have all : ∀ entry ∈ multipliers, 0 < entry.1.1 := by decide
  exact all _ cfg.supported

theorem and_mask_eq_zero {n : Nat} (bit : n < 8) {word : BitVec 64} :
    word &&& cfg.mask n = 0 ↔ ∀ i < cfg.chipInter, cfg.dq n word i = false := by
  constructor
  · intro zero i inside
    have none := congrArg (·.getLsbD (8 * cfg.deviceWidth * i + n)) zero
    rw [BitVec.getLsbD_and, (mask_bit bit).mpr ⟨i, inside, rfl⟩, Bool.and_true] at none
    exact none.trans BitVec.getLsbD_zero
  · intro none
    refine BitVec.eq_of_getLsbD_eq fun j small => ?_
    rw [BitVec.getLsbD_and]
    refine Eq.trans ?_ BitVec.getLsbD_zero.symm
    cases set : (cfg.mask n).getLsbD j with
    | false => exact Bool.and_false _
    | true =>
      obtain ⟨i, inside, rfl⟩ := (mask_bit bit).mp set
      rw [Bool.and_true]
      exact none i inside

theorem toggle_eq_zero {n : Nat} (bit : n < 8) {first second : BitVec 64} :
    (first ^^^ second) &&& cfg.mask n = 0 ↔
      ∀ i < cfg.chipInter, cfg.dq n first i = cfg.dq n second i := by
  rw [and_mask_eq_zero bit]
  refine forall₂_congr fun i _ => ?_
  unfold dq
  rw [BitVec.getLsbD_xor]
  exact bne_eq_false_iff_eq

end Flashcfg

end Mx6xBsp.Flash
