import Mx6xBsp.Lib.Fields

/-!
# The bit clock of the ESAI controller

`mxesai_set_clock_rate` divides the main clock down to the bit clock by three dividers:
8 (unless it is bypassed), TPM + 1 and TFP + 1, and the same for the receiver. Which of
them it uses depends on the quotient of the clocks. `divides_iff` tells for which
quotients the dividers it programs come as close as those can.
-/

namespace Mx6xBsp.Deva.Clock

open Fields

abbrev Reg := BitVec 32

def EOK : Int := 0

def FIXED_DIV2 : Nat := 2

def MAIN_CLK_SRC_XTAL : Nat := 0
def MAIN_CLK_SRC_FSYS : Nat := 1
def MAIN_CLK_SRC_OSC : Nat := 2

def TCCR_THCKD : Reg := 1 <<< 23
def TCCR_TFSD : Reg := 1 <<< 22
def TCCR_TCKD : Reg := 1 <<< 21
def TCCR_TFSP : Reg := 1 <<< 19
def TCCR_TCKP : Reg := 1 <<< 18
def TCCR_TFP (x : Reg) : Reg := put x 0xf 14
def TCCR_TDC (x : Reg) : Reg := put x 0x1f 9
def TCCR_TPSR : Reg := 1 <<< 8
def TCCR_TPM (x : Reg) : Reg := put x 0xff 0

def RCCR_RHCKD : Reg := 1 <<< 23
def RCCR_RFSD : Reg := 1 <<< 22
def RCCR_RCKD : Reg := 1 <<< 21
def RCCR_RFSP : Reg := 1 <<< 19
def RCCR_RCKP : Reg := 1 <<< 18
def RCCR_RFP (x : Reg) : Reg := put x 0x1f 14
def RCCR_RDC (x : Reg) : Reg := put x 0x1f 9
def RCCR_RPSP : Reg := 1 <<< 8
def RCCR_RPM (x : Reg) : Reg := put x 0xff 0

/-- What the call uses of the context of the controller -/
structure Mx where
  mainClkFreq : Nat
  mainClkSrc : Nat
  master : Bool
  nslots : Nat
  slotSize : Nat
  fsyncPol : Nat
  xclkPol : Nat
  rclkPol : Nat

structure Regs where
  tccr : Reg
  rccr : Reg

/-- What goes into the fields of the dividers: whether the divider by 8 is bypassed, TPM and TFP -/
structure Dividers where
  bypass : Bool
  tpm : Reg
  tfp : Reg

/-- The three ranges of the divisor -/
def dividers (bitClkDiv : Reg) : Dividers :=
  if bitClkDiv ≤ 256 then ⟨true, bitClkDiv - 1, 0⟩
  else if bitClkDiv ≤ 256 * 8 then ⟨false, bitClkDiv / 8 - 1, 0⟩
  else ⟨false, 256, bitClkDiv / (8 * 256) - 1⟩

namespace Mx

variable (mx : Mx)

/-- The divisor, in numbers of 32 bits. Nothing comes back where that divides by zero. -/
def bitClkDiv (rate : Nat) : Option Reg :=
  let divisor := FIXED_DIV2 * rate * mx.nslots * mx.slotSize % 2 ^ 32
  if divisor = 0 then none else some (BitVec.ofNat 32 (mx.mainClkFreq / divisor))

/-- The direction of the clocks by their source; an error for sources that are not supported -/
def direction : Option Regs :=
  if mx.mainClkSrc = MAIN_CLK_SRC_XTAL then
    some (if mx.master then
      ⟨TCCR_THCKD ||| TCCR_TCKD ||| TCCR_TFSD, RCCR_RHCKD ||| RCCR_RCKD ||| RCCR_RFSD⟩ else ⟨0, 0⟩)
  else if mx.mainClkSrc = MAIN_CLK_SRC_OSC then
    some (if mx.master then ⟨TCCR_TCKD ||| TCCR_TFSD, RCCR_RCKD ||| RCCR_RFSD⟩ else ⟨0, 0⟩)
  else none

/-- `mxesai_set_clock_rate`: the registers it programs, if any, and what it returns. Nothing comes
back where it divides by zero. -/
def setClockRate (rate : Nat) : Option (Int × Option Regs) := do
  let tccr := (if mx.fsyncPol = 0 then TCCR_TFSP else 0) |||
    (if mx.xclkPol = 0 then TCCR_TCKP else 0) ||| TCCR_TDC (BitVec.ofNat 32 mx.nslots - 1)
  let rccr := (if mx.fsyncPol = 0 then RCCR_RFSP else 0) |||
    (if mx.rclkPol = 0 then RCCR_RCKP else 0) ||| RCCR_RDC (BitVec.ofNat 32 mx.nslots - 1)
  let bitClkDiv ← mx.bitClkDiv rate
  let d := dividers bitClkDiv
  let tccr := tccr |||
    ((if d.bypass then TCCR_TPSR else 0) ||| TCCR_TPM d.tpm ||| TCCR_TFP d.tfp)
  let rccr := rccr |||
    ((if d.bypass then RCCR_RPSP else 0) ||| RCCR_RPM d.tpm ||| RCCR_RFP d.tfp)
  match mx.direction with
  | none => some (-1, none)
  | some ⟨tdir, rdir⟩ => some (EOK, some ⟨tccr ||| tdir, rccr ||| rdir⟩)

end Mx

/-! ## What the registers divide by -/

/-- The divider of a register: TPSR, TPM and TFP are at the same places as RPSP, RPM and RFP. -/
def total (w : Reg) : Nat :=
  (if field w 8 1 = 1 then 1 else 8) * ((field w 0 8).toNat + 1) * ((field w 14 4).toNat + 1)

/-- The dividers of the range of `q`: the prescaler alone, the prescaler after the divider by 8,
and the last divider after both of these -/
def Realises (q d : Nat) : Prop :=
  if q ≤ 256 then ∃ m < 256, d = m + 1
  else if q ≤ 256 * 8 then ∃ m < 256, d = 8 * (m + 1)
  else ∃ f < 16, d = 8 * 256 * (f + 1)

/-- The largest divider of the range that does not exceed `q`, and `q` if that is one -/
structure Closest (q d : Nat) : Prop where
  realised : Realises q d
  le : d ≤ q
  largest : ∀ d', Realises q d' → d' ≤ q → d' ≤ d
  exact_ : Realises q q → d = q

/-- The values fit their fields. -/
def Dividers.Fit (d : Dividers) : Prop := d.tpm.toNat < 2 ^ 8 ∧ d.tfp.toNat < 2 ^ 4

/-- The quotient of the clocks -/
def Mx.quotient (mx : Mx) (rate : Nat) : Nat :=
  mx.mainClkFreq / (FIXED_DIV2 * rate * mx.nslots * mx.slotSize)

/-- The call computes the quotient without an overflow, and the dividers it programs fit and are the
closest ones. -/
def Mx.Divides (mx : Mx) (rate : Nat) : Prop :=
  mx.bitClkDiv rate = some (BitVec.ofNat 32 (mx.quotient rate)) ∧
    (dividers (BitVec.ofNat 32 (mx.quotient rate))).Fit ∧
    ∃ regs, mx.setClockRate rate = some (EOK, some regs) ∧
      Closest (mx.quotient rate) (total regs.tccr) ∧ Closest (mx.quotient rate) (total regs.rccr)

/-! ## The fields -/

/-- A word that leaves the fields of the dividers alone -/
def Clear (w : Reg) : Prop := field w 0 8 = 0 ∧ field w 8 1 = 0 ∧ field w 14 4 = 0

theorem Clear.or {v w : Reg} (left : Clear v) (right : Clear w) : Clear (v ||| w) := by
  obtain ⟨pm, psr, fp⟩ := left
  obtain ⟨pm', psr', fp'⟩ := right
  refine ⟨?_, ?_, ?_⟩
  · rw [field_or, pm, pm']
    rfl
  · rw [field_or, psr, psr']
    rfl
  · rw [field_or, fp, fp']
    rfl

instance (w : Reg) : Decidable (Clear w) := inferInstanceAs (Decidable (_ ∧ _ ∧ _))

theorem clear_ite {c : Prop} [Decidable c] {v w : Reg} (left : Clear v) (right : Clear w) :
    Clear (if c then v else w) := by
  split
  · exact left
  · exact right

theorem clear_dc (x : Reg) : Clear (put x 0x1f 9) := by
  have low : (0x1f : Reg).toNat = 2 ^ 5 - 1 := rfl
  exact ⟨field_put_apart low (.inr (by decide)), field_put_apart low (.inr (by decide)),
    field_put_apart low (.inl (by decide))⟩

/-- The register with its dividers: `fp` is TFP or RFP, which are masked to 4 and to 5 bits. -/
theorem total_eq {other other' fpMask : Reg} {size : Nat} (d : Dividers) (clear : Clear other)
    (clear' : Clear other') (low : fpMask.toNat = 2 ^ size - 1) (part : 4 ≤ size) :
    total (other ||| ((if d.bypass then TCCR_TPSR else 0) ||| put d.tpm 0xff 0 |||
        put d.tfp fpMask 14) ||| other') =
      (if d.bypass then 1 else 8) * (d.tpm.toNat % 2 ^ 8 + 1) * (d.tfp.toNat % 2 ^ 4 + 1) := by
  obtain ⟨pm, psr, fp⟩ := clear
  obtain ⟨pm', psr', fp'⟩ := clear'
  have byte : (0xff : Reg).toNat = 2 ^ 8 - 1 := rfl
  have pmPsr : field (put d.tpm 0xff 0) 8 1 = 0 := field_put_apart byte (.inl (by decide))
  have pmFp : field (put d.tpm 0xff 0) 14 4 = 0 := field_put_apart byte (.inl (by decide))
  have fpPm : field (put d.tfp fpMask 14) 0 8 = 0 := field_put_apart low (.inr (by decide))
  have fpPsr : field (put d.tfp fpMask 14) 8 1 = 0 := field_put_apart low (.inr (by decide))
  have flag : ∀ b : Bool, field (if b then TCCR_TPSR else 0) 0 8 = 0 ∧
      field (if b then TCCR_TPSR else 0) 8 1 = (if b then 1 else 0) ∧
      field (if b then TCCR_TPSR else 0) 14 4 = 0 := by decide
  obtain ⟨flagPm, flagPsr, flagFp⟩ := flag d.bypass
  have left : ∀ {k : Nat} (x : BitVec k), 0 ||| x = x := fun _ => BitVec.zero_or
  have right : ∀ {k : Nat} (x : BitVec k), x ||| 0 = x := fun _ => BitVec.or_zero
  unfold total
  simp only [field_or, pm, psr, fp, pm', psr', fp', pmPsr, pmFp, fpPm, fpPsr, flagPm, flagPsr,
    flagFp, left, right]
  rw [field_put byte (Nat.le_refl 8) (by decide), field_put low part (by decide)]
  cases d.bypass with
  | true => rfl
  | false => rfl

/-! ## The dividers -/

/-- What a register divides by, by what was put into it -/
def Dividers.total (d : Dividers) : Nat :=
  (if d.bypass then 1 else 8) * (d.tpm.toNat % 2 ^ 8 + 1) * (d.tfp.toNat % 2 ^ 4 + 1)

variable {q : Nat}

theorem div_sub_one {n : Nat} (small : q < 2 ^ 32) (pos : 0 < n) (whole : n ≤ q)
    (word : n < 2 ^ 32) :
    (BitVec.ofNat 32 q / BitVec.ofNat 32 n - 1).toNat = q / n - 1 := by
  have one : 1 ≤ q / n := (Nat.one_le_div_iff pos).mpr whole
  have le : q / n ≤ q := Nat.div_le_self q n
  rw [BitVec.toNat_sub, BitVec.toNat_udiv, BitVec.toNat_ofNat, BitVec.toNat_ofNat,
    Nat.mod_eq_of_lt small, Nat.mod_eq_of_lt word]
  show (2 ^ 32 - 1 + q / n) % 2 ^ 32 = q / n - 1
  omega

theorem dividers_low (some_ : 1 ≤ q) (low : q ≤ 256) :
    (dividers (BitVec.ofNat 32 q)).Fit ∧ Closest q (dividers (BitVec.ofNat 32 q)).total := by
  have small : BitVec.ofNat 32 q ≤ 256 := by
    rw [BitVec.le_def, BitVec.toNat_ofNat]
    show q % 2 ^ 32 ≤ 256
    omega
  have value := div_sub_one (n := 1) (q := q) (by omega) Nat.one_pos some_ (by decide)
  have same : BitVec.ofNat 32 q / BitVec.ofNat 32 1 = BitVec.ofNat 32 q := BitVec.udiv_one
  rw [same, Nat.div_one] at value
  unfold dividers
  rw [if_pos small]
  have divided : (1 * ((q - 1) % 2 ^ 8 + 1) * (0 % 2 ^ 4 + 1)) = q := by omega
  unfold Dividers.Fit Dividers.total
  dsimp only
  rw [value]
  refine ⟨⟨by omega, by decide⟩, ?_⟩
  show Closest q (1 * ((q - 1) % 2 ^ 8 + 1) * (0 % 2 ^ 4 + 1))
  rw [divided]
  refine ⟨?_, Nat.le_refl q, fun _ _ le => le, fun _ => rfl⟩
  unfold Realises
  rw [if_pos low]
  exact ⟨q - 1, by omega, by omega⟩

theorem dividers_middle (high : 256 < q) (low : q ≤ 256 * 8) :
    (dividers (BitVec.ofNat 32 q)).Fit ∧ Closest q (dividers (BitVec.ofNat 32 q)).total := by
  have above : ¬BitVec.ofNat 32 q ≤ 256 := by
    rw [BitVec.le_def, BitVec.toNat_ofNat]
    show ¬q % 2 ^ 32 ≤ 256
    omega
  have below : BitVec.ofNat 32 q ≤ 256 * 8 := by
    rw [BitVec.le_def, BitVec.toNat_ofNat]
    show q % 2 ^ 32 ≤ 2048
    omega
  have value := div_sub_one (n := 8) (q := q) (by omega) (by decide) (by omega) (by decide)
  unfold dividers
  rw [if_neg above, if_pos below]
  unfold Dividers.Fit Dividers.total
  dsimp only
  have value' : (BitVec.ofNat 32 q / 8 - 1).toNat = q / 8 - 1 := value
  rw [value']
  have divided : 8 * ((q / 8 - 1) % 2 ^ 8 + 1) * (0 % 2 ^ 4 + 1) = 8 * (q / 8) := by omega
  refine ⟨⟨by omega, by decide⟩, ?_⟩
  show Closest q (8 * ((q / 8 - 1) % 2 ^ 8 + 1) * (0 % 2 ^ 4 + 1))
  rw [divided]
  have form : ∀ d, Realises q d ↔ ∃ m < 256, d = 8 * (m + 1) := by
    intro d
    unfold Realises
    rw [if_neg (by omega), if_pos low]
  refine ⟨(form _).mpr ⟨q / 8 - 1, by omega, by omega⟩, by omega, fun d real le => ?_,
    fun real => ?_⟩
  · obtain ⟨m, -, rfl⟩ := (form d).mp real
    omega
  · obtain ⟨m, -, whole⟩ := (form q).mp real
    omega

theorem dividers_high (high : 256 * 8 < q) (top : q ≤ 8 * 256 * 16) :
    ¬(dividers (BitVec.ofNat 32 q)).Fit := by
  have above : ¬BitVec.ofNat 32 q ≤ 256 := by
    rw [BitVec.le_def, BitVec.toNat_ofNat]
    show ¬q % 2 ^ 32 ≤ 256
    omega
  have above' : ¬BitVec.ofNat 32 q ≤ 256 * 8 := by
    rw [BitVec.le_def, BitVec.toNat_ofNat]
    show ¬q % 2 ^ 32 ≤ 2048
    omega
  unfold dividers Dividers.Fit
  rw [if_neg above, if_neg above']
  have wide : ¬(256 : Reg).toNat < 2 ^ 8 := by decide
  exact fun fit => wide fit.1

/-! ## The call -/

namespace Mx

variable {mx : Mx} {rate : Nat}

theorem bitClkDiv_eq (freq : mx.mainClkFreq < 2 ^ 31) (some_ : 1 ≤ mx.quotient rate) :
    mx.bitClkDiv rate = some (BitVec.ofNat 32 (mx.quotient rate)) := by
  unfold quotient at some_
  have pos : 0 < FIXED_DIV2 * rate * mx.nslots * mx.slotSize := by
    rcases Nat.eq_zero_or_pos (FIXED_DIV2 * rate * mx.nslots * mx.slotSize) with none | pos
    · rw [none, Nat.div_zero] at some_
      omega
    · exact pos
  have le : FIXED_DIV2 * rate * mx.nslots * mx.slotSize ≤ mx.mainClkFreq :=
    (Nat.one_le_div_iff pos).mp some_
  unfold bitClkDiv quotient
  dsimp only
  rw [Nat.mod_eq_of_lt (by omega : _ < 2 ^ 32), if_neg (Nat.ne_of_gt pos)]

theorem setClockRate_eq
    (source : mx.mainClkSrc = MAIN_CLK_SRC_XTAL ∨ mx.mainClkSrc = MAIN_CLK_SRC_OSC) {div : Reg}
    (divisor : mx.bitClkDiv rate = some div) :
    ∃ regs, mx.setClockRate rate = some (EOK, some regs) ∧
      Clock.total regs.tccr = (dividers div).total ∧
      Clock.total regs.rccr = (dividers div).total := by
  have tPol : Clear ((if mx.fsyncPol = 0 then TCCR_TFSP else 0) |||
      (if mx.xclkPol = 0 then TCCR_TCKP else 0) ||| TCCR_TDC (BitVec.ofNat 32 mx.nslots - 1)) :=
    ((clear_ite (by decide) (by decide)).or (clear_ite (by decide) (by decide))).or (clear_dc _)
  have rPol : Clear ((if mx.fsyncPol = 0 then RCCR_RFSP else 0) |||
      (if mx.rclkPol = 0 then RCCR_RCKP else 0) ||| RCCR_RDC (BitVec.ofNat 32 mx.nslots - 1)) :=
    ((clear_ite (by decide) (by decide)).or (clear_ite (by decide) (by decide))).or (clear_dc _)
  have direction : ∃ dir, mx.direction = some dir ∧ Clear dir.tccr ∧ Clear dir.rccr := by
    unfold Mx.direction
    rcases source with xtal | osc
    · rw [if_pos xtal]
      cases mx.master with
      | true => exact ⟨_, rfl, by decide, by decide⟩
      | false => exact ⟨_, rfl, by decide, by decide⟩
    · have other : mx.mainClkSrc ≠ MAIN_CLK_SRC_XTAL := by
        rw [osc]
        decide
      rw [if_neg other, if_pos osc]
      cases mx.master with
      | true => exact ⟨_, rfl, by decide, by decide⟩
      | false => exact ⟨_, rfl, by decide, by decide⟩
  have four : (0xf : Reg).toNat = 2 ^ 4 - 1 := rfl
  have five : (0x1f : Reg).toNat = 2 ^ 5 - 1 := rfl
  obtain ⟨dir, found, tDir, rDir⟩ := direction
  unfold setClockRate
  rw [divisor, Option.bind_eq_bind, Option.bind_some, found]
  exact ⟨_, rfl, total_eq (dividers div) tPol tDir four (Nat.le_refl 4),
    total_eq (dividers div) rPol rDir five (by decide)⟩

end Mx

/-- For a quotient that the dividers reach altogether, they are programmed as close as the range
allows exactly up to the end of the second range. -/
theorem Mx.divides_iff {mx : Mx} {rate : Nat} (freq : mx.mainClkFreq < 2 ^ 31)
    (source : mx.mainClkSrc = MAIN_CLK_SRC_XTAL ∨ mx.mainClkSrc = MAIN_CLK_SRC_OSC)
    (some_ : 1 ≤ mx.quotient rate) (top : mx.quotient rate ≤ 8 * 256 * 16) :
    mx.Divides rate ↔ mx.quotient rate ≤ 256 * 8 := by
  have divisor := mx.bitClkDiv_eq freq some_
  constructor
  · intro divides
    by_contra high
    exact dividers_high (Nat.not_le.mp high) top divides.2.1
  · intro low
    obtain ⟨regs, programmed, tx, rx⟩ := Mx.setClockRate_eq source divisor
    have close : (dividers (BitVec.ofNat 32 (mx.quotient rate))).Fit ∧
        Closest (mx.quotient rate) (dividers (BitVec.ofNat 32 (mx.quotient rate))).total := by
      rcases Nat.lt_or_ge 256 (mx.quotient rate) with middle | short
      · exact dividers_middle middle low
      · exact dividers_low some_ short
    exact ⟨divisor, close.1, regs, programmed, tx ▸ close.2, rx ▸ close.2⟩

/-- The clock of the board: 24.576 MHz for 48 kHz, two slots of 32 bits -/
def board : Mx where
  mainClkFreq := 24576000
  mainClkSrc := MAIN_CLK_SRC_OSC
  master := true
  nslots := 2
  slotSize := 32
  fsyncPol := 0
  xclkPol := 0
  rclkPol := 1

theorem divides_small : board.quotient 48000 ≤ 256 * 8 ∧ board.Divides 48000 :=
  ⟨by decide, (Mx.divides_iff (by decide) (.inr rfl) (by decide) (by decide)).mpr (by decide)⟩

/-- A fast clock for a slow rate: 600 MHz for 8 kHz and one slot of 16 bits, a quotient of 2343. The
bit clock is divided by 8 instead of 2048. -/
def fast : Mx := { board with mainClkFreq := 600000000, nslots := 1, slotSize := 16 }

theorem divides_broken : 1 ≤ fast.quotient 8000 ∧ fast.quotient 8000 ≤ 8 * 256 * 16 ∧
    ¬fast.Divides 8000 := by
  refine ⟨by decide, by decide, fun divides => ?_⟩
  exact dividers_high (q := fast.quotient 8000) (by decide) (by decide) divides.2.1

end Mx6xBsp.Deva.Clock
