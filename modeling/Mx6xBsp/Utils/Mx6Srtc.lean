import Mathlib.Data.BitVec
import Mx6xBsp.Lib.Fields

/-!
# The real time clock of the SNVS module

`clk_mx6srtc.c`: a counter of 47 bits counts 2^15 ticks a second. `get_mx6srtc` reads it in
two halves until two readings agree, and `set_mx6srtc` writes a time to it. The counter
goes on between any two reads of a register. `srtc_reads` tells that the time read is that
of a moment of the last pass, and is the time written until a second has gone by.
-/

namespace Mx6xBsp.Rtc

open Fields

abbrev Reg := BitVec 32

def MX6X_SNVS_LPCR : Nat := 0x38
def MX6X_SNVS_LPSRTCMR : Nat := 0x50
def MX6X_SNVS_LPSRTCLR : Nat := 0x54
def MX6X_SNVS_LPCR_SRTC_ENV : Reg := 1
def CNTR_TO_SECS_SH : Nat := 15

/-! ## The module -/

/-- The control register and the counter -/
structure Snvs where
  lpcr : Reg
  srtc : BitVec 47

/-- A read of a register; the upper half of the counter has 15 bits. -/
def chipRead32 (off : Nat) (s : Snvs) : Reg :=
  if off = MX6X_SNVS_LPCR then s.lpcr
  else if off = MX6X_SNVS_LPSRTCMR then (field s.srtc 32 15).setWidth 32
  else if off = MX6X_SNVS_LPSRTCLR then field s.srtc 0 32
  else 0

def chipWrite32 (off : Nat) (v : Reg) (s : Snvs) : Snvs :=
  if off = MX6X_SNVS_LPCR then { s with lpcr := v }
  else if off = MX6X_SNVS_LPSRTCMR then { s with srtc := v.setWidth 15 ++ field s.srtc 0 32 }
  else if off = MX6X_SNVS_LPSRTCLR then { s with srtc := field s.srtc 32 15 ++ v }
  else s

/-- The counter at each read of a register. It only counts up, by any number of ticks between two
reads. -/
structure Counter where
  value : Nat → BitVec 47
  up : ∀ n, (value n).toNat ≤ (value (n + 1)).toNat

/-- Read number `n` -/
def Counter.read (c : Counter) (off n : Nat) : Reg := chipRead32 off ⟨0, c.value n⟩

/-! ## `get_mx6srtc` and `set_mx6srtc` -/

/-- Both readings of a pass, from read number `n` on -/
def readPass (c : Counter) (n : Nat) : BitVec 64 × BitVec 64 :=
  let read1 := (c.read MX6X_SNVS_LPSRTCMR n).setWidth 64
  let read1 := read1 <<< 32
  let read1 := read1 ||| (c.read MX6X_SNVS_LPSRTCLR (n + 1)).setWidth 64
  let read2 := (c.read MX6X_SNVS_LPSRTCMR (n + 2)).setWidth 64
  let read2 := read2 <<< 32
  let read2 := read2 ||| (c.read MX6X_SNVS_LPSRTCLR (n + 3)).setWidth 64
  (read1, read2)

/-- The loop of `get_mx6srtc`: `counter_sec`, and the number of the first read of the last pass.
Nothing comes back where it takes more than `fuel` passes. -/
def getMx6srtc (c : Counter) : Nat → Nat → Option (Reg × Nat)
  | 0, _ => none
  | fuel + 1, n =>
    let reads := readPass c n
    if reads.1 ≠ reads.2 then getMx6srtc c fuel (n + 4)
    else some ((reads.1 >>> CNTR_TO_SECS_SH).setWidth 32, n)

/-- `set_mx6srtc` for the time `t`, which may be of a signed type. The bit of the control register
shows what was written, so that the loops which wait for it end. -/
def setMx6srtc (signed : Bool) (t : Reg) (s : Snvs) : Snvs :=
  let lpCr := chipRead32 MX6X_SNVS_LPCR s &&& ~~~MX6X_SNVS_LPCR_SRTC_ENV
  let s := chipWrite32 MX6X_SNVS_LPCR lpCr s
  let s := chipWrite32 MX6X_SNVS_LPSRTCLR (t <<< CNTR_TO_SECS_SH) s
  let high := if signed then t.sshiftRight (32 - CNTR_TO_SECS_SH) else t >>> (32 - CNTR_TO_SECS_SH)
  let s := chipWrite32 MX6X_SNVS_LPSRTCMR high s
  chipWrite32 MX6X_SNVS_LPCR (lpCr ||| MX6X_SNVS_LPCR_SRTC_ENV) s

/-- `get_mx6srtc` gets `sec` with a last pass from read number `n` on. -/
def Gets (c : Counter) (sec : Reg) (n : Nat) : Prop :=
  ∃ fuel, getMx6srtc c fuel 0 = some (sec, n)

/-! ## What a pass reads -/

theorem Counter.mono (c : Counter) {i j : Nat} (le : i ≤ j) :
    (c.value i).toNat ≤ (c.value j).toNat := by
  induction j, le using Nat.le_induction with
  | base => exact Nat.le_refl _
  | succ j _ ih => exact ih.trans (c.up j)

theorem read_high (c : Counter) (n : Nat) :
    (c.read MX6X_SNVS_LPSRTCMR n).toNat = (c.value n).toNat / 2 ^ 32 := by
  have bound := (c.value n).isLt
  show ((field (c.value n) 32 15).setWidth 32).toNat = _
  rw [BitVec.toNat_setWidth, field_toNat]
  omega

theorem read_low (c : Counter) (n : Nat) :
    (c.read MX6X_SNVS_LPSRTCLR n).toNat = (c.value n).toNat % 2 ^ 32 := by
  show (field (c.value n) 0 32).toNat = _
  rw [field_toNat, Nat.pow_zero, Nat.div_one]

theorem join_halves (high low : Reg) :
    ((high.setWidth 64 <<< 32 ||| low.setWidth 64 : BitVec 64)).toNat =
      high.toNat * 2 ^ 32 + low.toNat := by
  have wide : ∀ v : Reg, (v.setWidth 64 : BitVec 64).toNat = v.toNat := fun v => by
    rw [BitVec.toNat_setWidth]
    exact Nat.mod_eq_of_lt (Nat.lt_of_lt_of_le v.isLt (by decide))
  have bound := high.isLt
  have bound' := low.isLt
  rw [toNat_join 32 (by rw [wide]; exact bound') (by rw [wide]; omega), wide, wide]

theorem readPass_toNat (c : Counter) (n : Nat) :
    (readPass c n).1.toNat =
        (c.value n).toNat / 2 ^ 32 * 2 ^ 32 + (c.value (n + 1)).toNat % 2 ^ 32 ∧
      (readPass c n).2.toNat =
        (c.value (n + 2)).toNat / 2 ^ 32 * 2 ^ 32 + (c.value (n + 3)).toNat % 2 ^ 32 := by
  unfold readPass
  dsimp only
  rw [join_halves, join_halves, read_high, read_high, read_low, read_low]
  exact ⟨rfl, rfl⟩

/-- Readings that agree are the counter at the second read: its upper half can not have changed
between the first and the third. -/
theorem agree_value {c : Counter} {n : Nat} (agree : (readPass c n).1 = (readPass c n).2) :
    (readPass c n).1.toNat = (c.value (n + 1)).toNat := by
  obtain ⟨first, second⟩ := readPass_toNat c n
  have same := congrArg BitVec.toNat agree
  have up := c.mono (by omega : n ≤ n + 1)
  have up' := c.mono (by omega : n + 1 ≤ n + 2)
  rw [first, second] at same
  rw [first]
  omega

theorem agree_of_still {c : Counter} {n : Nat}
    (still : (c.value (n + 3)).toNat = (c.value n).toNat) :
    (readPass c n).1 = (readPass c n).2 := by
  obtain ⟨first, second⟩ := readPass_toNat c n
  have up := c.mono (by omega : n ≤ n + 1)
  have up' := c.mono (by omega : n + 1 ≤ n + 2)
  have up2 := c.mono (by omega : n + 2 ≤ n + 3)
  refine BitVec.eq_of_toNat_eq ?_
  rw [first, second, (by omega : (c.value (n + 1)).toNat = (c.value n).toNat),
    (by omega : (c.value (n + 2)).toNat = (c.value n).toNat), still]

/-! ## The loop -/

theorem getMx6srtc_ends (c : Counter) (fuel n : Nat)
    (enough : 2 ^ 47 ≤ (c.value n).toNat + fuel) : ∃ r, getMx6srtc c fuel n = some r := by
  induction fuel generalizing n with
  | zero =>
    have bound := (c.value n).isLt
    omega
  | succ fuel ih =>
    unfold getMx6srtc
    dsimp only
    by_cases agree : (readPass c n).1 = (readPass c n).2
    · rw [if_neg (not_not_intro agree)]
      exact ⟨_, rfl⟩
    · have moved := mt agree_of_still agree
      have up := c.mono (by omega : n ≤ n + 3)
      have up' := c.mono (by omega : n + 3 ≤ n + 4)
      rw [if_pos agree]
      exact ih (n + 4) (by omega)

theorem getMx6srtc_value {c : Counter} {fuel n m : Nat} {sec : Reg}
    (ends : getMx6srtc c fuel n = some (sec, m)) :
    sec.toNat = (c.value (m + 1)).toNat >>> CNTR_TO_SECS_SH := by
  induction fuel generalizing n with
  | zero => cases ends
  | succ fuel ih =>
    unfold getMx6srtc at ends
    dsimp only at ends
    by_cases agree : (readPass c n).1 = (readPass c n).2
    · rw [if_neg (not_not_intro agree)] at ends
      have value := agree_value agree
      have bound := (c.value (n + 1)).isLt
      obtain ⟨same, last⟩ := Prod.mk.inj (Option.some.inj ends)
      rw [← same, ← last, BitVec.toNat_setWidth, BitVec.toNat_ushiftRight, value]
      refine Nat.mod_eq_of_lt ?_
      rw [Nat.shiftRight_eq_div_pow]
      show (c.value (n + 1)).toNat / 2 ^ 15 < 2 ^ 32
      omega
    · rw [if_pos agree] at ends
      exact ih ends

/-! ## The time written -/

theorem high_bits (signed : Bool) (t : Reg) :
    (if signed then t.sshiftRight (32 - CNTR_TO_SECS_SH)
      else t >>> (32 - CNTR_TO_SECS_SH)).setWidth 15 = field t 17 15 := by
  refine BitVec.eq_of_getLsbD_eq fun i below => ?_
  have inside : 17 + i < 32 := by omega
  rw [BitVec.getLsbD_setWidth, field_bit, decide_eq_true below]
  cases signed with
  | true =>
    rw [if_pos rfl, BitVec.getLsbD_sshiftRight, decide_eq_false (by omega)]
    show (true && (true && if 17 + i < 32 then t.getLsbD (17 + i) else t.msb)) = _
    rw [if_pos inside, Bool.true_and]
  | false =>
    rw [if_neg (by decide), BitVec.getLsbD_ushiftRight]
    rfl

theorem setMx6srtc_toNat (signed : Bool) (t : Reg) (s : Snvs) :
    (setMx6srtc signed t s).srtc.toNat = t.toNat * 2 ^ 15 := by
  have written : (setMx6srtc signed t s).srtc = field t 17 15 ++
      field (field s.srtc 32 15 ++ t <<< CNTR_TO_SECS_SH) 0 32 := by
    rw [← high_bits signed t]
    rfl
  have bound := t.isLt
  rw [written, toNat_append, field_toNat, field_toNat, toNat_append, BitVec.toNat_shiftLeft,
    Nat.shiftLeft_eq]
  show t.toNat / 2 ^ 17 % 2 ^ 15 * 2 ^ 32 +
    ((field s.srtc 32 15).toNat * 2 ^ 32 + t.toNat * 2 ^ 15 % 2 ^ 32) / 2 ^ 0 % 2 ^ 32 = _
  omega

/-- Less than a second of ticks has gone by since the counter was enabled, at read number `n`. -/
def Elapsed (s : Snvs) (c : Counter) (n : Nat) : Prop :=
  s.srtc.toNat ≤ (c.value n).toNat ∧ (c.value n).toNat < s.srtc.toNat + 32768

instance (s : Snvs) (c : Counter) (n : Nat) : Decidable (Elapsed s c n) :=
  inferInstanceAs (Decidable (_ ∧ _))

/-- `get_mx6srtc` ends, with the time of a moment of its last pass; and after `set_mx6srtc` with the
time set, unless a second has gone by. -/
theorem srtc_reads (c : Counter) :
    (∃ sec n, Gets c sec n) ∧ ∀ sec n, Gets c sec n →
      (∃ i, n ≤ i ∧ i ≤ n + 3 ∧ sec.toNat = (c.value i).toNat >>> CNTR_TO_SECS_SH) ∧
        ∀ signed t s, (∀ i ≤ n + 3, Elapsed (setMx6srtc signed t s) c i) → sec = t := by
  refine ⟨?_, fun sec n => ?_⟩
  · obtain ⟨⟨sec, n⟩, ends⟩ := getMx6srtc_ends c (2 ^ 47) 0 (Nat.le_add_left _ _)
    exact ⟨sec, n, 2 ^ 47, ends⟩
  · rintro ⟨fuel, ends⟩
    have value := getMx6srtc_value ends
    refine ⟨⟨n + 1, by omega, by omega, value⟩, fun signed t s elapsed => ?_⟩
    obtain ⟨from_, below⟩ := elapsed (n + 1) (by omega)
    rw [setMx6srtc_toNat] at from_ below
    refine BitVec.eq_of_toNat_eq ?_
    rw [value, Nat.shiftRight_eq_div_pow]
    show (c.value (n + 1)).toNat / 2 ^ 15 = t.toNat
    omega

/-- A counter that ticks at each read, up to read 5, from the time written on -/
def ticking (t : Reg) : Counter where
  value n := (setMx6srtc true t ⟨0, 0⟩).srtc + BitVec.ofNat 47 (min n 5)
  up n := by
    have start := setMx6srtc_toNat true t ⟨0, 0⟩
    have bound := t.isLt
    rw [BitVec.toNat_add, BitVec.toNat_add, BitVec.toNat_ofNat, BitVec.toNat_ofNat, start]
    omega

/-- A time after 2038 is read back in the second pass. -/
theorem srtc_small : ∃ sec, Gets (ticking 0x80000003) sec 4 ∧ sec = 0x80000003 := by
  have ends : Gets (ticking 0x80000003) 0x80000003 4 := ⟨2, by decide⟩
  exact ⟨_, ends, ((srtc_reads (ticking 0x80000003)).2 _ 4 ends).2 true _ ⟨0, 0⟩ (by decide)⟩

end Mx6xBsp.Rtc
