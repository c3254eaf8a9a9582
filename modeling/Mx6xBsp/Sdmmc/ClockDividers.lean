import Mathlib.Tactic.Ring
import Mx6xBsp.Lib.Fields

/-!
# Clock dividers of the SD host controller

Both drivers divide the base clock by a power of two and by a number up to 16:
`imx6_sdhcx_clk` of the block driver (`hc/imx6.c`) in single and in double data rate, and
`sdmmc_set_frq` of the IPL (`sdmmc.c`). The prescaler is searched first, then the
divisor. `clocks_iff` tells for which requests the register gets both.
-/

namespace Mx6xBsp.Sdmmc.Clock

open Fields

abbrev Reg := BitVec 32

def IMX6_SDHCX_SYSCTL_DTO_SHIFT : Nat := 16
def IMX6_SDHCX_SYSCTL_SDCLKFS_SHIFT : Nat := 8
def IMX6_SDHCX_SYSCTL_DVS_SHIFT : Nat := 4

def SDMMC_CLK_DEFAULT : Nat := 198000000
def MMCSYSCTL_SDCLKEN : Reg := 1 <<< 3
def MMCSYSCTL_SDCLKFSMASK : Reg := 0xff00
def MMCSYSCTL_DVSMASK : Reg := 0xf0

/-! ## The two searches -/

/-- The loop that doubles the prescaler. Nothing comes back where it takes more than `fuel`
turns. -/
def prescale (more : Nat → Bool) : Nat → Nat → Option Nat
  | 0, _ => none
  | fuel + 1, preDiv =>
    if preDiv < 256 ∧ more preDiv then prescale more fuel (preDiv * 2) else some preDiv

/-- The loop that counts the divisor up to `last` -/
def divide (more : Nat → Bool) (last : Nat) : Nat → Nat → Option Nat
  | 0, _ => none
  | fuel + 1, div =>
    if div < last ∧ more div then divide more last fuel (div + 1) else some div

/-- The values of the two fields, and the register -/
structure Setting where
  preDiv : Nat
  div : Nat
  sysctl : Reg
  deriving DecidableEq

/-- `imx6_sdhcx_clk`, for the base clock `clkMax`; `ddr` is the timing `TIMING_DDR50`. -/
def imx6SdhcxClk (clkMax : Nat) (ddr : Bool) (clk : Nat) : Option Setting := do
  let clk := if clk > clkMax then clkMax else clk
  let preDiv ← prescale (fun preDiv => clkMax / (preDiv * 16) > clk) 16 (if ddr then 2 else 1)
  let div ← divide (fun div => clkMax / (preDiv * div) > clk) 16 32 1
  let preDiv := preDiv >>> (1 + if ddr then 1 else 0)
  let div := div - 1
  some ⟨preDiv, div, ((0xe : Reg) <<< IMX6_SDHCX_SYSCTL_DTO_SHIFT) |||
    (BitVec.ofNat 32 preDiv <<< IMX6_SDHCX_SYSCTL_SDCLKFS_SHIFT) |||
    (BitVec.ofNat 32 div <<< IMX6_SDHCX_SYSCTL_DVS_SHIFT) ||| 0xf⟩

/-- The first loop of `sdmmc_set_frq`, for slow clocks -/
def setFrqPreDiv (frq : Nat) : Option Nat :=
  if SDMMC_CLK_DEFAULT / 16 > frq then
    prescale (fun preDiv => ¬SDMMC_CLK_DEFAULT / preDiv ≤ frq * 16 % 2 ^ 32) 16 2
  else some 2

/-- `sdmmc_set_frq` with `sysctl` in the register before. The second loop ends with 17 where no
divisor is found. -/
def sdmmcSetFrq (sysctl : Reg) (frq : Nat) : Option Setting := do
  let preDiv ← setFrqPreDiv frq
  let div ← divide (fun div => ¬SDMMC_CLK_DEFAULT / (div * preDiv) ≤ frq) 17 32 1
  let preDiv := preDiv >>> 1
  let div := div - 1
  let clk := (BitVec.ofNat 32 preDiv <<< 8) ||| (BitVec.ofNat 32 div <<< 4)
  let sysctl := sysctl &&& ~~~MMCSYSCTL_SDCLKEN
  let sysctl := sysctl &&& ~~~(MMCSYSCTL_SDCLKFSMASK ||| MMCSYSCTL_DVSMASK)
  let sysctl := sysctl ||| clk
  some ⟨preDiv, div, sysctl ||| MMCSYSCTL_SDCLKEN⟩

/-! ## What the register divides by -/

/-- The prescaler in SDCLKFS, which divides by twice as much in double data rate -/
def prescaler (ddr : Bool) (w : Reg) : Nat :=
  (if (field w 8 8).toNat = 0 then 1 else (field w 8 8).toNat * 2) * if ddr then 2 else 1

/-- The divider of the base clock, with the divisor in DVS -/
def total (ddr : Bool) (w : Reg) : Nat := prescaler ddr w * ((field w 4 4).toNat + 1)

/-- Both values fit their fields, and show there. -/
structure Setting.Fits (s : Setting) : Prop where
  preDiv : s.preDiv < 2 ^ 8
  div : s.div < 2 ^ 4
  sdclkfs : (field s.sysctl 8 8).toNat = s.preDiv
  dvs : (field s.sysctl 4 4).toNat = s.div

/-- The clock does not exceed the requested one, and no prescaler from `2 ^ first` on and divisor
give a higher one that does not. -/
structure Highest (base first clk n : Nat) : Prop where
  below : base / n ≤ clk
  highest : ∀ k, first ≤ k → k ≤ 8 → ∀ div, 1 ≤ div → div ≤ 16 →
    base / (2 ^ k * div) ≤ clk → n ≤ 2 ^ k * div

/-- The search ends with values that fit, and with the highest clock for a request that the dividers
reach. -/
def Right (base first clk : Nat) (ddr : Bool) (setting : Option Setting) : Prop :=
  ∃ s, setting = some s ∧ s.Fits ∧
    (base / (256 * 16) ≤ clk → Highest base first clk (total ddr s.sysctl))

/-! ## What the searches find -/

theorem prescale_spec (more : Nat → Bool) (fuel first : Nat) (le : first ≤ 8)
    (enough : 8 < fuel + first) :
    ∃ k, prescale more fuel (2 ^ first) = some (2 ^ k) ∧ first ≤ k ∧ k ≤ 8 ∧
      (∀ j, first ≤ j → j < k → more (2 ^ j) = true) ∧ (k = 8 ∨ more (2 ^ k) = false) := by
  induction fuel generalizing first with
  | zero => omega
  | succ fuel ih =>
    unfold prescale
    by_cases goes : 2 ^ first < 256 ∧ more (2 ^ first) = true
    · have lt : first < 8 := (Nat.pow_lt_pow_iff_right (by decide : 1 < 2)).mp goes.1
      obtain ⟨k, found, le', top, before, ends⟩ := ih (first + 1) lt (by omega)
      rw [if_pos goes, ← Nat.pow_succ]
      refine ⟨k, found, Nat.le_of_succ_le le', top, fun j from_ below => ?_, ends⟩
      rcases Nat.lt_or_eq_of_le from_ with later | same
      · exact before j later below
      · rw [← same]
        exact goes.2
    · rw [if_neg goes]
      refine ⟨first, rfl, Nat.le_refl _, le, fun j from_ below => by omega, ?_⟩
      rcases Nat.lt_or_eq_of_le le with below | top
      · have lt : 2 ^ first < 256 := Nat.pow_lt_pow_right (by decide : 1 < 2) below
        exact .inr (Bool.eq_false_iff.mpr fun again => goes ⟨lt, again⟩)
      · exact .inl top

theorem divide_spec (more : Nat → Bool) (last fuel first : Nat) (le : first ≤ last)
    (enough : last < fuel + first) :
    ∃ div, divide more last fuel first = some div ∧ first ≤ div ∧ div ≤ last ∧
      (∀ d, first ≤ d → d < div → more d = true) ∧ (div = last ∨ more div = false) := by
  induction fuel generalizing first with
  | zero => omega
  | succ fuel ih =>
    unfold divide
    by_cases goes : first < last ∧ more first = true
    · obtain ⟨div, found, le', top, before, ends⟩ := ih (first + 1) goes.1 (by omega)
      rw [if_pos goes]
      refine ⟨div, found, Nat.le_of_succ_le le', top, fun d from_ below => ?_, ends⟩
      rcases Nat.lt_or_eq_of_le from_ with later | same
      · exact before d later below
      · rw [← same]
        exact goes.2
    · rw [if_neg goes]
      refine ⟨first, rfl, Nat.le_refl _, le, fun d from_ below => by omega, ?_⟩
      rcases Nat.lt_or_eq_of_le le with below | top
      · exact .inr (Bool.eq_false_iff.mpr fun again => goes ⟨below, again⟩)
      · exact .inl top

theorem highest_of {base clk first k d : Nat}
    (below : base / (2 ^ k * d) ≤ clk)
    (prescalers : ∀ j, first ≤ j → j < k → ∀ div, 1 ≤ div → div ≤ 16 →
      base / (2 ^ j * div) ≤ clk → 2 ^ k * d ≤ 2 ^ j * div)
    (divisors : ∀ div, 1 ≤ div → div < d → clk < base / (2 ^ k * div)) :
    Highest base first clk (2 ^ k * d) := by
  refine ⟨below, fun j from_ _ div one last low => ?_⟩
  rcases Nat.lt_or_ge j k with smaller | larger
  · exact prescalers j from_ smaller div one last low
  · obtain ⟨m, rfl⟩ := Nat.exists_eq_add_of_le larger
    rw [Nat.pow_add, Nat.mul_assoc] at low ⊢
    refine Nat.mul_le_mul_left _ (Nat.not_lt.mp fun less => ?_)
    have some_ : 1 ≤ 2 ^ m * div := Nat.mul_pos (Nat.two_pow_pos m) one
    exact Nat.not_lt.mpr low (divisors _ some_ less)

/-! ## The registers -/

theorem ofNat_toNat {v n : Nat} (small : v < 2 ^ n) (le : n ≤ 32) :
    (BitVec.ofNat 32 v).toNat = v := by
  rw [BitVec.toNat_ofNat]
  exact Nat.mod_eq_of_lt (Nat.lt_of_lt_of_le small (Nat.pow_le_pow_right (by decide) le))

theorem fits_of_join (other other' : Reg) {preDiv div : Nat} (small : preDiv < 2 ^ 8)
    (small' : div < 2 ^ 4) (fs : field other 8 8 = 0) (dvs : field other 4 4 = 0)
    (fs' : field other' 8 8 = 0) (dvs' : field other' 4 4 = 0) :
    Setting.Fits ⟨preDiv, div,
      other ||| ((BitVec.ofNat 32 preDiv <<< 8) ||| (BitVec.ofNat 32 div <<< 4)) ||| other'⟩ := by
  have byte : (0xff : Reg).toNat = 2 ^ 8 - 1 := rfl
  have nibble : (0xf : Reg).toNat = 2 ^ 4 - 1 := rfl
  have left : ∀ {k : Nat} (x : BitVec k), 0 ||| x = x := fun _ => BitVec.zero_or
  have right : ∀ {k : Nat} (x : BitVec k), x ||| 0 = x := fun _ => BitVec.or_zero
  have value := ofNat_toNat small (by decide)
  have value' := ofNat_toNat small' (by decide)
  have shift : BitVec.ofNat 32 preDiv <<< 8 = put (BitVec.ofNat 32 preDiv) 0xff 8 :=
    shift_eq_put byte (by rwa [value])
  have shift' : BitVec.ofNat 32 div <<< 4 = put (BitVec.ofNat 32 div) 0xf 4 :=
    shift_eq_put nibble (by rwa [value'])
  have apart : field (put (BitVec.ofNat 32 preDiv) 0xff 8) 4 4 = 0 :=
    field_put_apart byte (.inr (by decide))
  have apart' : field (put (BitVec.ofNat 32 div) 0xf 4) 8 8 = 0 :=
    field_put_apart nibble (.inl (by decide))
  refine ⟨small, small', ?_, ?_⟩
  · dsimp only
    rw [field_or, field_or, field_or, fs, fs', shift, shift', apart', left, right, right,
      field_put byte (Nat.le_refl 8) (by decide), value, Nat.mod_eq_of_lt small]
  · dsimp only
    rw [field_or, field_or, field_or, dvs, dvs', shift, shift', apart, left, left, right,
      field_put nibble (Nat.le_refl 4) (by decide), value', Nat.mod_eq_of_lt small']

theorem total_eq (ddr : Bool) {s : Setting} {k div : Nat} (fits : s.Fits) (top : k ≤ 8)
    (first : (if ddr then 1 else 0) ≤ k) (pos : 1 ≤ div)
    (preDiv : s.preDiv = 2 ^ k >>> (1 + if ddr then 1 else 0)) (divisor : s.div = div - 1) :
    total ddr s.sysctl = 2 ^ k * div := by
  have single : ∀ k ≤ 8, (if 2 ^ k >>> 1 = 0 then 1 else 2 ^ k >>> 1 * 2) * 1 = 2 ^ k := by decide
  have double : ∀ k ≤ 8, 1 ≤ k → (if 2 ^ k >>> 2 = 0 then 1 else 2 ^ k >>> 2 * 2) * 2 = 2 ^ k := by
    decide
  unfold total prescaler
  rw [fits.sdclkfs, fits.dvs, preDiv, divisor, Nat.sub_add_cancel pos]
  cases ddr with
  | false => exact congrArg (· * div) (single k top)
  | true => exact congrArg (· * div) (double k top first)

/-! ## The two drivers -/

/-- `imx6_sdhcx_clk` finds the highest clock for every request. -/
theorem imx6SdhcxClk_right (base clk : Nat) (ddr : Bool) :
    Right base (if ddr then 1 else 0) clk ddr (imx6SdhcxClk base ddr clk) := by
  have clamp : (if clk > base then base else clk) = min clk base := by
    split
    · next above => exact (Nat.min_eq_right (Nat.le_of_lt above)).symm
    · next within => exact (Nat.min_eq_left (Nat.not_lt.mp within)).symm
  have start : (if ddr then 2 else 1) = 2 ^ (if ddr then 1 else 0) := by
    cases ddr with
    | true => rfl
    | false => rfl
  have le : (if ddr then 1 else 0) ≤ 8 := by
    cases ddr with
    | true => decide
    | false => decide
  obtain ⟨k, found, first, top, before, ends⟩ :=
    prescale_spec (fun preDiv => base / (preDiv * 16) > min clk base) 16 _ le (by omega)
  obtain ⟨div, found', pos, last, before', ends'⟩ :=
    divide_spec (fun div => base / (2 ^ k * div) > min clk base) 16 32 1 (by decide) (by decide)
  have small : 2 ^ k >>> (1 + if ddr then 1 else 0) < 2 ^ 8 := by
    have power : 2 ^ k ≤ 2 ^ 8 := Nat.pow_le_pow_right (by decide) top
    have half : 2 ^ k >>> (1 + if ddr then 1 else 0) ≤ 2 ^ k / 2 := by
      rw [Nat.shiftRight_add]
      exact Nat.le_trans (Nat.shiftRight_le _ _) (Nat.le_refl _)
    omega
  have fits := fits_of_join ((0xe : Reg) <<< IMX6_SDHCX_SYSCTL_DTO_SHIFT) 0xf
    small (by omega : div - 1 < 2 ^ 4) (by decide) (by decide) (by decide) (by decide)
  refine ⟨_, ?_, fits, fun reach => ?_⟩
  · unfold imx6SdhcxClk
    dsimp only
    rw [clamp, start, found, Option.bind_eq_bind, Option.bind_some, found', Option.bind_some,
      BitVec.or_assoc (_ <<< _)]
    rfl
  · rw [total_eq ddr fits top first pos rfl rfl]
    have within : ∀ n, base / n ≤ clk → base / n ≤ min clk base := fun n low =>
      Nat.le_min.mpr ⟨low, Nat.div_le_self base n⟩
    have low : base / (2 ^ k * 16) ≤ min clk base := by
      rcases ends with full | stops
      · rw [full]
        exact within _ reach
      · exact Nat.not_lt.mp (of_decide_eq_false stops)
    have below : base / (2 ^ k * div) ≤ min clk base := by
      rcases ends' with full | stops
      · rw [full]
        exact low
      · exact Nat.not_lt.mp (of_decide_eq_false stops)
    refine highest_of (Nat.le_trans below (Nat.min_le_left _ _))
      (fun j from_ less d one last' low' => ?_) fun d one less => ?_
    · have more : min clk base < base / (2 ^ j * 16) := of_decide_eq_true (before j from_ less)
      have finer : base / (2 ^ j * 16) ≤ base / (2 ^ j * d) :=
        Nat.div_le_div_left (Nat.mul_le_mul_left _ last')
          (Nat.mul_pos (Nat.two_pow_pos j) one)
      have under := within _ low'
      omega
    · have more : min clk base < base / (2 ^ k * d) := of_decide_eq_true (before' d one less)
      rcases Nat.lt_or_ge clk (base / (2 ^ k * d)) with above | under
      · exact above
      · have under' := within _ under
        omega

/-- The prescaler that `sdmmc_set_frq` finds: smaller ones leave the clock more than 16 times too
high. -/
theorem setFrq_prescaler (frq : Nat) :
    ∃ k, setFrqPreDiv frq = some (2 ^ k) ∧ 1 ≤ k ∧ k ≤ 8 ∧
      (∀ j, 1 ≤ j → j < k → frq * 16 < SDMMC_CLK_DEFAULT / 2 ^ j) ∧
      (SDMMC_CLK_DEFAULT / (256 * 16) ≤ frq → SDMMC_CLK_DEFAULT / (2 ^ k * 16) ≤ frq) := by
  unfold setFrqPreDiv
  by_cases slow : SDMMC_CLK_DEFAULT / 16 > frq
  · have word : frq * 16 % 2 ^ 32 = frq * 16 := by
      unfold SDMMC_CLK_DEFAULT at slow
      omega
    obtain ⟨k, found, first, top, before, ends⟩ :=
      prescale_spec (fun preDiv => ¬SDMMC_CLK_DEFAULT / preDiv ≤ frq * 16 % 2 ^ 32) 16 1
        (by decide) (by decide)
    rw [if_pos slow]
    refine ⟨k, found, first, top, fun j from_ less => ?_, fun reach => ?_⟩
    · have more := of_decide_eq_true (before j from_ less)
      rw [word] at more
      exact Nat.not_le.mp more
    · rcases ends with full | stops
      · rw [full]
        exact reach
      · have low := not_not.mp (of_decide_eq_false stops)
        rw [word] at low
        rw [← Nat.div_div_eq_div_mul]
        omega
  · rw [if_neg slow]
    refine ⟨1, rfl, Nat.le_refl 1, by decide, fun j from_ less => by omega, fun _ => ?_⟩
    have half : SDMMC_CLK_DEFAULT / (2 ^ 1 * 16) ≤ SDMMC_CLK_DEFAULT / 16 :=
      Nat.div_le_div_left (by decide) (by decide)
    omega

theorem setFrq_prescalers {frq j k d e : Nat} (fast : 16 ≤ frq) (from_ : 1 ≤ j) (less : j < k)
    (before : ∀ j, 1 ≤ j → j < k → frq * 16 < SDMMC_CLK_DEFAULT / 2 ^ j)
    (divisors : ∀ div, 1 ≤ div → div < d → frq < SDMMC_CLK_DEFAULT / (2 ^ k * div))
    (one : 1 ≤ e) (last : e ≤ 16) (low : SDMMC_CLK_DEFAULT / (2 ^ j * e) ≤ frq) :
    2 ^ k * d ≤ 2 ^ j * e := by
  have high := before j from_ less
  rw [← Nat.div_div_eq_div_mul] at low
  have under : SDMMC_CLK_DEFAULT / 2 ^ j < (frq + 1) * e :=
    (Nat.div_lt_iff_lt_mul one).mp (Nat.lt_succ_of_le low)
  -- only the last divisor reaches that far
  have all : e = 16 := by
    rcases Nat.lt_or_eq_of_le last with smaller | all
    · have room : (frq + 1) * e ≤ (frq + 1) * 15 := Nat.mul_le_mul_left _ (by omega)
      omega
    · exact all
  rw [all] at under low ⊢
  -- and only with the prescaler before
  have next : k = j + 1 := by
    rcases Nat.lt_or_eq_of_le (Nat.succ_le_of_lt less) with later | same
    · have high' := before (j + 1) (by omega) later
      rw [Nat.pow_succ, ← Nat.div_div_eq_div_mul] at high'
      omega
    · exact same.symm
  have half : 2 ^ k * 8 = 2 ^ j * 16 := by
    rw [next, Nat.pow_succ]
    ring
  rw [← half]
  refine Nat.mul_le_mul_left _ (Nat.not_lt.mp fun more => ?_)
  have above := divisors 8 (by decide) more
  rw [half, ← Nat.div_div_eq_div_mul] at above
  omega

/-- `sdmmc_set_frq` finds the highest clock for the requests that the dividers reach, and puts a
divisor into SDCLKFS for all others. -/
theorem sdmmcSetFrq_right_iff (sysctl : Reg) (frq : Nat) :
    Right SDMMC_CLK_DEFAULT 1 frq false (sdmmcSetFrq sysctl frq) ↔
      SDMMC_CLK_DEFAULT / (256 * 16) ≤ frq := by
  obtain ⟨k, found, first, top, before, reached⟩ := setFrq_prescaler frq
  obtain ⟨div, found', pos, last, before', ends⟩ :=
    divide_spec (fun div => ¬SDMMC_CLK_DEFAULT / (div * 2 ^ k) ≤ frq) 17 32 1 (by decide)
      (by decide)
  have divisors : ∀ d, 1 ≤ d → d < div → frq < SDMMC_CLK_DEFAULT / (2 ^ k * d) := by
    intro d one less
    have more := of_decide_eq_true (before' d one less)
    rw [Nat.mul_comm]
    exact Nat.not_le.mp more
  have result : sdmmcSetFrq sysctl frq = some ⟨2 ^ k >>> 1, div - 1,
      (sysctl &&& ~~~MMCSYSCTL_SDCLKEN) &&& ~~~(MMCSYSCTL_SDCLKFSMASK ||| MMCSYSCTL_DVSMASK) |||
        ((BitVec.ofNat 32 (2 ^ k >>> 1) <<< 8) ||| (BitVec.ofNat 32 (div - 1) <<< 4)) |||
        MMCSYSCTL_SDCLKEN⟩ := by
    unfold sdmmcSetFrq
    dsimp only
    rw [found, Option.bind_eq_bind, Option.bind_some, found', Option.bind_some]
  rw [result]
  constructor
  · rintro ⟨s, same, fits, -⟩
    cases same
    have small : div - 1 < 2 ^ 4 := fits.div
    rcases ends with full | stops
    · omega
    · have low := not_not.mp (of_decide_eq_false stops)
      have room : div * 2 ^ k ≤ 16 * 256 :=
        Nat.mul_le_mul (by omega) (Nat.pow_le_pow_right (j := 8) Nat.two_pos top)
      have coarser : SDMMC_CLK_DEFAULT / (16 * 256) ≤ SDMMC_CLK_DEFAULT / (div * 2 ^ k) :=
        Nat.div_le_div_left room (Nat.mul_pos pos (Nat.two_pow_pos k))
      exact Nat.le_trans coarser low
  · intro reach
    have low := reached reach
    have fast : 16 ≤ frq := Nat.le_trans (by decide) reach
    have last' : div ≤ 16 := by
      rcases Nat.lt_or_ge 16 div with beyond | within
      · have above := divisors 16 (by decide) beyond
        omega
      · exact within
    have below : SDMMC_CLK_DEFAULT / (2 ^ k * div) ≤ frq := by
      rcases ends with full | stops
      · omega
      · rw [Nat.mul_comm]
        exact not_not.mp (of_decide_eq_false stops)
    have small : 2 ^ k >>> 1 < 2 ^ 8 := by
      have power : 2 ^ k ≤ 2 ^ 8 := Nat.pow_le_pow_right (by decide) top
      have half : 2 ^ k >>> 1 = 2 ^ k / 2 := rfl
      omega
    have fits := fits_of_join ((sysctl &&& ~~~MMCSYSCTL_SDCLKEN) &&&
        ~~~(MMCSYSCTL_SDCLKFSMASK ||| MMCSYSCTL_DVSMASK)) MMCSYSCTL_SDCLKEN
      small (by omega : div - 1 < 2 ^ 4) (field_clear (by decide)) (field_clear (by decide))
      (by decide) (by decide)
    refine ⟨_, rfl, fits, fun _ => ?_⟩
    rw [total_eq false fits top (Nat.zero_le k) pos rfl rfl]
    exact highest_of below (fun j from_ less e one last low =>
      setFrq_prescalers fast from_ less before divisors one last low) divisors

/-- The block driver sets all clocks right, and the IPL those that its dividers reach. -/
theorem clocks_iff (base clk : Nat) (ddr : Bool) (sysctl : Reg) (frq : Nat) :
    Right base (if ddr then 1 else 0) clk ddr (imx6SdhcxClk base ddr clk) ∧
      (Right SDMMC_CLK_DEFAULT 1 frq false (sdmmcSetFrq sysctl frq) ↔
        SDMMC_CLK_DEFAULT / (256 * 16) ≤ frq) :=
  ⟨imx6SdhcxClk_right base clk ddr, sdmmcSetFrq_right_iff sysctl frq⟩

/-- For a card whose speed is not known, the second loop ends with 17. -/
theorem clocks_broken : ¬∀ sysctl frq,
    Right SDMMC_CLK_DEFAULT 1 frq false (sdmmcSetFrq sysctl frq) := by
  intro all
  obtain ⟨s, same, fits, -⟩ := all 0 0
  have set : sdmmcSetFrq 0 0 = some ⟨128, 16, 0x8108⟩ := by decide
  cases set.symm.trans same
  exact absurd fits.div (by decide)

end Mx6xBsp.Sdmmc.Clock
