import Mathlib.Algebra.Group.Nat.Defs
import Mathlib.Data.Nat.Log
import Mathlib.Logic.Function.Basic
import Mx6xBsp.Flash.Words
import Mx6xBsp.Lib.Words

/-!
# The geometry in a CFI query table

`f3s_iCFI_ident` and `f3s_aCFI_ident` read the same query table, each with its own code.
`decoded_iff` tells which tables both of them decode as the format says.
-/

namespace Mx6xBsp.Flash.CfiGeometry

open Words

/-! ## What the chips show -/

/-- A unit of a geometry. `unit_num` has `unitBits` bits in the flash library. -/
structure Geo where
  unitNum : Nat
  unitPow2 : Nat
  deriving DecidableEq

structure Flags where
  eraseForRead : Bool
  eraseForWrite : Bool
  writeBuffer : Bool
  deriving DecidableEq

structure Dbase where
  jedecHi : Nat
  jedecLo : Nat
  bufferSize : Nat
  geoNum : Nat
  geoVect : Nat → Geo
  chipInter : Nat
  chipWidth : Nat
  flags : Flags

variable (cfg : Flashcfg) (unitBits : Nat)

/-- The words that interleaved chips show in query mode, where the entries of the table are
`width` bytes apart -/
def shown (table : Bytes) (width : Nat) (offset : Nat) : Nat :=
  (table (offset / width)).toNat * cfg.deviceMult.toNat

/-! ## The callouts -/

/-- The mask `device_size` of `f3s_iCFI_ident` -/
def deviceSize : Nat := if cfg.deviceWidth = 2 then 0xffff else 0xff

/-- `1 << n` in an `int`. A shift by a register looks at the low byte of it. -/
def shiftOne (n : Nat) : Nat := if n % 256 < 32 then 2 ^ (n % 256) else 0

/-- The loop over a geometry vector, where `entry` decodes the region at a position of the table -/
def regions (entry : Nat → Geo) : Nat → Nat → Nat → (Nat → Geo) → Nat → Geo
  | 0, _, _, geoVect => geoVect
  | left + 1, geoIndex, geoPos, geoVect =>
    regions entry left (geoIndex + 1) (geoPos + 4)
      (Function.update geoVect geoIndex (entry geoPos))

section Intel

variable (readmem : Nat → Nat) (cfiWidth : Nat)

/-- One entry of the table, as `f3s_iCFI_ident` reads it -/
def iByte (pos : Nat) : Nat := readmem (pos * cfiWidth) &&& deviceSize cfg

/-- The loop of `f3s_iCFI_ident` for the power of two of a unit size, `left` passes before 32 -/
def findPow2 (unitSize : Nat) : Nat → Nat → Nat
  | 0, unitPow2 => unitPow2
  | left + 1, unitPow2 =>
    if 2 ^ unitPow2 = unitSize then unitPow2 else findPow2 unitSize left (unitPow2 + 1)

def iEntry (geoPos : Nat) : Geo where
  unitNum :=
    (iByte cfg readmem cfiWidth geoPos + iByte cfg readmem cfiWidth (geoPos + 1) * 0x100 + 1)
      % 2 ^ unitBits
  unitPow2 := findPow2
    ((iByte cfg readmem cfiWidth (geoPos + 2) + iByte cfg readmem cfiWidth (geoPos + 3) * 0x100)
      * 0x100 * cfg.chipInter % 2 ^ 32) 31 1

/-- `f3s_iCFI_ident` once the query string is found -/
def iCFIFill (dbase : Dbase) : Dbase :=
  -- 100 is decimal
  let tmp := iByte cfg readmem cfiWidth 0x2a + iByte cfg readmem cfiWidth 0x2b * 100
  let bufferSize := shiftOne tmp * cfg.chipInter % 2 ^ 32
  let geoNum := iByte cfg readmem cfiWidth 0x2c
  { jedecHi := readmem 0 &&& deviceSize cfg
    jedecLo := readmem cfg.busWidth &&& deviceSize cfg
    bufferSize := bufferSize
    geoNum := dbase.geoNum + geoNum
    geoVect := regions (iEntry cfg unitBits readmem cfiWidth) (geoNum - dbase.geoNum)
      dbase.geoNum 0x2d dbase.geoVect
    chipInter := cfg.chipInter
    chipWidth := cfg.busWidth
    flags := ⟨true, true, bufferSize ≠ 1⟩ }

end Intel

section Amd

variable (readmem : Nat → Nat) (amdMult : Nat)

def TOP_BOOT_DEVICE : Nat := 0x3

/-- One entry of the table, as `f3s_aCFI_ident` reads it -/
def aByte (pos : Nat) : Nat := readmem (pos * amdMult) / cfg.deviceMult.toNat

/-- The loop of `f3s_aCFI_ident` for the power of two of a unit size. An `int` is halved at most
31 times. -/
def halvings : Nat → Nat → Nat
  | 0, _ => 0
  | left + 1, unitSize => if unitSize > 1 then halvings left (unitSize >>> 1) + 1 else 0

def aEntry (geoPos : Nat) : Geo :=
  let unitSize :=
    (aByte cfg readmem amdMult (geoPos + 3) <<< 8) + aByte cfg readmem amdMult (geoPos + 2)
  { unitNum :=
      ((aByte cfg readmem amdMult (geoPos + 1) <<< 8) + aByte cfg readmem amdMult geoPos + 1)
        % 2 ^ unitBits
    unitPow2 := halvings 31 ((if unitSize = 0 then 128 else unitSize * 256) * cfg.chipInter) }

/-- The loop that turns the geometry vector round, with `left` passes to go -/
def swaps : Nat → Nat → Nat → (Nat → Geo) → Nat → Geo
  | 0, _, _, geoVect => geoVect
  | left + 1, i, j, geoVect =>
    swaps left (i + 1) (j - 1)
      (Function.update (Function.update geoVect i (geoVect j)) j (geoVect i))

/-- The suspend modes, from the entry at `pri + 6` -/
def suspendFlags (flags : Flags) (temp : Nat) : Flags :=
  if temp = 1 then { flags with eraseForRead := true }
  else if temp = 2 then { flags with eraseForRead := true, eraseForWrite := true }
  else ⟨false, false, false⟩

/-- `f3s_aCFI_ident` once the two query strings are found, with the identifiers that were read
before -/
def aCFIFill (jedecHi jedecLo : Nat) (dbase : Dbase) : Dbase :=
  let pri := (aByte cfg readmem amdMult 0x16 <<< 8) + aByte cfg readmem amdMult 0x15
  let bufferSize := (aByte cfg readmem amdMult 0x2b <<< 8) + aByte cfg readmem amdMult 0x2a
  let geoNum := aByte cfg readmem amdMult 0x2c
  let bootSectorFlag := aByte cfg readmem amdMult 0x4f
  let geoVect := regions (aEntry cfg unitBits readmem amdMult) geoNum 0 0x2d dbase.geoVect
  { jedecHi, jedecLo
    bufferSize := shiftOne bufferSize * cfg.chipInter % 2 ^ 32
    geoNum := geoNum
    geoVect :=
      if bootSectorFlag = TOP_BOOT_DEVICE then swaps (geoNum / 2) 0 (geoNum - 1) geoVect
      else geoVect
    chipInter := cfg.chipInter
    chipWidth := cfg.busWidth
    flags := suspendFlags dbase.flags (aByte cfg readmem amdMult (pri + 6)) }

end Amd

/-! ## What the table says -/

/-- The number of erase regions -/
def regionCount (table : Bytes) : Nat := (table 0x2c).toNat

/-- The exponent of the size of the write buffer -/
def bufferField (table : Bytes) : Nat := word16 table 0x2a

/-- The number of units of region `r`, less one -/
def unitField (table : Bytes) (r : Nat) : Nat := word16 table (0x2d + 4 * r)

/-- The size of a unit of region `r` in steps of 256 bytes, where 0 says 128 bytes -/
def sizeField (table : Bytes) (r : Nat) : Nat := word16 table (0x2d + 4 * r + 2)

/-- The size of a unit of region `r` in one chip -/
def chipUnitSize (table : Bytes) (r : Nat) : Nat :=
  if sizeField table r = 0 then 128 else 256 * sizeField table r

/-- A table whose unit sizes are powers of two -/
structure Table where
  byte : Bytes
  pow2 : ∀ r < regionCount byte, ∃ k, chipUnitSize byte r = 2 ^ k

/-- `dbase` has what the table says, with region `order r` in place `r` -/
structure Decodes (table : Bytes) (order : Nat → Nat) (dbase : Dbase) : Prop where
  buffer : dbase.bufferSize = 2 ^ bufferField table * cfg.chipInter
  count : dbase.geoNum = regionCount table
  units : ∀ r < regionCount table,
    (dbase.geoVect r).unitNum = unitField table (order r) + 1
  sizes : ∀ r < regionCount table,
    2 ^ (dbase.geoVect r).unitPow2 = cfg.chipInter * chipUnitSize table (order r)

/-- `cfi_width`, which is doubled for chips in the hybrid mode -/
def cfiWidth (hybrid : Bool) : Nat := if hybrid then cfg.busWidth * 2 else cfg.busWidth

def amdMult : Nat := (if cfg.deviceWidth = 1 then 2 else 1) * cfg.busWidth

/-- What `f3s_iCFI_ident` decodes for `f3s_flash_probe`, which has cleared `geo_num` -/
def iDecode (hybrid : Bool) (table : Bytes) (dbase : Dbase) : Dbase :=
  iCFIFill cfg unitBits (shown cfg table (cfiWidth cfg hybrid)) (cfiWidth cfg hybrid)
    { dbase with geoNum := 0 }

/-- What `f3s_aCFI_ident` decodes -/
def aDecode (table : Bytes) (jedecHi jedecLo : Nat) (dbase : Dbase) : Dbase :=
  aCFIFill cfg unitBits (shown cfg table (amdMult cfg)) (amdMult cfg) jedecHi jedecLo dbase

/-- The place of a region: a device with the top-boot flag has them in reverse. -/
def bootOrder (table : Bytes) (r : Nat) : Nat :=
  if table 0x4f = 3 then regionCount table - 1 - r else r

/-- Both decoders have what the table says, and they agree. -/
structure DecodedAlike (table : Bytes) (iDbase aDbase : Dbase) : Prop where
  intel : Decodes cfg table id iDbase
  amd : Decodes cfg table (bootOrder table) aDbase
  buffer : aDbase.bufferSize = iDbase.bufferSize
  count : aDbase.geoNum = iDbase.geoNum
  regions : ∀ r < regionCount table, aDbase.geoVect r = iDbase.geoVect (bootOrder table r)

/-! ## Reading an entry -/

section Reading

variable {cfg} {unitBits} {table : Bytes} {width : Nat}

theorem shown_mul (spaced : 0 < width) (pos : Nat) :
    shown cfg table width (pos * width) = (table pos).toNat * cfg.deviceMult.toNat := by
  unfold shown
  rw [Nat.mul_div_cancel _ spaced]

theorem iByte_shown (spaced : 0 < width) (pos : Nat) :
    iByte cfg (shown cfg table width) width pos = (table pos).toNat := by
  have one : ∀ entry ∈ multipliers,
      entry.2.toNat % 256 = 1 ∧ (entry.1.1 = 2 → entry.2.toNat % 65536 = 1) := by decide
  obtain ⟨byte, word⟩ := one _ cfg.supported
  have small := (table pos).toNat_lt
  unfold iByte deviceSize
  rw [shown_mul spaced]
  dsimp only at byte word
  split
  · next wide =>
    rw [show (0xffff : Nat) = 2 ^ 16 - 1 from rfl, Nat.and_two_pow_sub_one_eq_mod, Nat.mul_mod,
      show 2 ^ 16 = 65536 from rfl, word wide]
    omega
  · rw [show (0xff : Nat) = 2 ^ 8 - 1 from rfl, Nat.and_two_pow_sub_one_eq_mod, Nat.mul_mod,
      show 2 ^ 8 = 256 from rfl, byte]
    omega

theorem aByte_shown (spaced : 0 < width) (pos : Nat) :
    aByte cfg (shown cfg table width) width pos = (table pos).toNat := by
  have positive : ∀ entry ∈ multipliers, 0 < entry.2.toNat := by decide
  unfold aByte
  rw [shown_mul spaced]
  exact Nat.mul_div_cancel _ (positive _ cfg.supported)

theorem chipInter_pow2 : ∃ k ≤ 3, cfg.chipInter = 2 ^ k := by
  have all : ∀ entry ∈ multipliers, ∃ k ≤ 3, entry.1.2 = 2 ^ k := by decide
  exact all _ cfg.supported

/-! ## The loops -/

theorem regions_apply (entry : Nat → Geo) (left index pos : Nat) (geoVect : Nat → Geo)
    (k : Nat) :
    regions entry left index pos geoVect k =
      if index ≤ k ∧ k < index + left then entry (pos + 4 * (k - index)) else geoVect k := by
  induction left generalizing index pos geoVect with
  | zero =>
    unfold regions
    rw [if_neg (by omega)]
  | succ left ih =>
    unfold regions
    rw [ih]
    rcases Nat.lt_trichotomy k index with below | here | above
    · rw [if_neg (by omega), if_neg (by omega), Function.update_of_ne (by omega)]
    · subst here
      rw [if_neg (by omega), if_pos (by omega), Function.update_self, Nat.sub_self, Nat.mul_zero]
      rfl
    · by_cases inside : k < index + (left + 1)
      · rw [if_pos (by omega), if_pos (by omega)]
        congr 1
        omega
      · rw [if_neg (by omega), if_neg (by omega), Function.update_of_ne (by omega)]

theorem findPow2_two_pow {k left unitPow2 : Nat} (above : unitPow2 ≤ k)
    (below : k < unitPow2 + left) : findPow2 (2 ^ k) left unitPow2 = k := by
  induction left generalizing unitPow2 with
  | zero => omega
  | succ left ih =>
    unfold findPow2
    split
    · next same => exact Nat.pow_right_injective (le_refl 2) same
    · next other =>
      have apart : unitPow2 ≠ k := fun same => other (by rw [same])
      exact ih (by omega) (by omega)

theorem findPow2_zero (left unitPow2 : Nat) : findPow2 0 left unitPow2 = unitPow2 + left := by
  induction left generalizing unitPow2 with
  | zero => rfl
  | succ left ih =>
    unfold findPow2
    rw [if_neg (Nat.two_pow_pos _).ne', ih]
    omega

theorem halvings_two_pow {k left : Nat} (enough : k ≤ left) : halvings left (2 ^ k) = k := by
  induction left generalizing k with
  | zero =>
    obtain rfl : k = 0 := by omega
    rfl
  | succ left ih =>
    unfold halvings
    cases k with
    | zero => rfl
    | succ k =>
      have large : 2 ^ (k + 1) > 1 := Nat.one_lt_two_pow (by omega)
      rw [if_pos large, Nat.shiftRight_one, Nat.pow_succ, Nat.mul_div_cancel _ (by decide),
        ih (by omega)]

/-- The swaps turn round what lies between the first `i` and the first `j`. -/
theorem swaps_apply {left i j : Nat} (geoVect : Nat → Geo) (apart : i + 2 * left ≤ j + 1)
    (k : Nat) :
    swaps left i j geoVect k =
      if (i ≤ k ∧ k < i + left) ∨ (j < k + left ∧ k ≤ j) then geoVect (i + j - k)
      else geoVect k := by
  induction left generalizing i j geoVect with
  | zero =>
    unfold swaps
    rw [if_neg (by omega)]
  | succ left ih =>
    unfold swaps
    rw [ih _ (by omega)]
    rcases Nat.lt_trichotomy k i with below | here | above
    · rw [if_neg (by omega), if_neg (by omega), Function.update_of_ne (by omega),
        Function.update_of_ne (by omega)]
    · subst here
      rw [if_neg (by omega), if_pos (by omega), Function.update_of_ne (by omega),
        Function.update_self]
      congr 1
      omega
    · rcases Nat.lt_trichotomy k j with before | there | after
      · by_cases moved : (i ≤ k ∧ k < i + (left + 1)) ∨ (j < k + (left + 1) ∧ k ≤ j)
        · rw [if_pos (by omega), if_pos moved, Function.update_of_ne (by omega),
            Function.update_of_ne (by omega)]
          congr 1
          omega
        · rw [if_neg (by omega), if_neg moved, Function.update_of_ne (by omega),
            Function.update_of_ne (by omega)]
      · subst there
        rw [if_neg (by omega), if_pos (by omega), Function.update_self]
        congr 1
        omega
      · rw [if_neg (by omega), if_neg (by omega), Function.update_of_ne (by omega),
          Function.update_of_ne (by omega)]

theorem swaps_all (geoVect : Nat → Geo) {n k : Nat} (inside : k < n) :
    swaps (n / 2) 0 (n - 1) geoVect k = geoVect (n - 1 - k) := by
  rw [swaps_apply geoVect (by omega)]
  split
  · rw [Nat.zero_add]
  · congr 1
    omega

/-! ## The decoders -/

variable (table)

theorem iEntry_shown (spaced : 0 < width) (r : Nat) :
    iEntry cfg unitBits (shown cfg table width) width (0x2d + 4 * r) =
      { unitNum := (unitField table r + 1) % 2 ^ unitBits
        unitPow2 := findPow2 (sizeField table r * 256 * cfg.chipInter % 2 ^ 32) 31 1 } := by
  have units : (table (0x2d + 4 * r)).toNat + (table (0x2d + 4 * r + 1)).toNat * 0x100 =
      unitField table r := by
    unfold unitField word16
    omega
  have size : (table (0x2d + 4 * r + 2)).toNat + (table (0x2d + 4 * r + 3)).toNat * 0x100 =
      sizeField table r := by
    unfold sizeField word16
    rw [show 0x2d + 4 * r + 2 + 1 = 0x2d + 4 * r + 3 from rfl]
    omega
  unfold iEntry
  simp only [iByte_shown spaced]
  rw [units, size]

theorem aEntry_shown (spaced : 0 < width) (r : Nat) :
    aEntry cfg unitBits (shown cfg table width) width (0x2d + 4 * r) =
      { unitNum := (unitField table r + 1) % 2 ^ unitBits
        unitPow2 := halvings 31 (cfg.chipInter * chipUnitSize table r) } := by
  have size : ((table (0x2d + 4 * r + 3)).toNat <<< 8) + (table (0x2d + 4 * r + 2)).toNat =
      sizeField table r := by
    unfold sizeField word16
    rw [Nat.shiftLeft_eq, show 0x2d + 4 * r + 2 + 1 = 0x2d + 4 * r + 3 from rfl]
    omega
  unfold aEntry
  simp only [aByte_shown spaced]
  rw [size]
  unfold unitField word16 chipUnitSize
  rw [Nat.shiftLeft_eq]
  congr 2
  · omega
  · rw [Nat.mul_comm cfg.chipInter]
    congr 1
    split <;> omega

end Reading

/-! ## Which tables are decoded -/

section Decoding

variable {cfg} {unitBits}

/-- The sizes of units are powers of two that an `int` holds. -/
theorem unitSize_pow2 (table : Table) {r : Nat} (inside : r < regionCount table.byte) :
    ∃ k, 1 ≤ k ∧ k < 32 ∧ cfg.chipInter * chipUnitSize table.byte r = 2 ^ k := by
  obtain ⟨j, three, inter⟩ := @chipInter_pow2 cfg
  obtain ⟨k, size⟩ := table.pow2 r inside
  have field : sizeField table.byte r < 65536 := word16_lt
  have low : 2 ^ 7 ≤ 2 ^ k := by
    rw [← size]
    unfold chipUnitSize
    split <;> omega
  have high : 2 ^ k < 2 ^ 24 := by
    rw [← size]
    unfold chipUnitSize
    split <;> omega
  have above : 7 ≤ k := (Nat.pow_le_pow_iff_right (by decide)).mp low
  have below : k < 24 := (Nat.pow_lt_pow_iff_right (by decide)).mp high
  refine ⟨j + k, by omega, by omega, ?_⟩
  rw [inter, size, ← Nat.pow_add]

/-- `1 << n` of an `int` with room for the interleave -/
theorem shiftOne_fits {n : Nat} (fits : 2 ^ n * cfg.chipInter < 2 ^ 32) :
    n < 32 ∧ shiftOne n * cfg.chipInter % 2 ^ 32 = 2 ^ n * cfg.chipInter := by
  have small : 2 ^ n < 2 ^ 32 := by
    have grows := Nat.le_mul_of_pos_right (2 ^ n) cfg.chipInter_pos
    omega
  have bits : n < 32 := (Nat.pow_lt_pow_iff_right (by decide)).mp small
  have low : n % 256 = n := Nat.mod_eq_of_lt (by omega)
  refine ⟨bits, ?_⟩
  unfold shiftOne
  rw [low, if_pos bits, Nat.mod_eq_of_lt fits]

theorem findPow2_unitSize (table : Table) {r : Nat} (inside : r < regionCount table.byte)
    (coded : sizeField table.byte r ≠ 0) :
    2 ^ findPow2 (sizeField table.byte r * 256 * cfg.chipInter % 2 ^ 32) 31 1 =
      cfg.chipInter * chipUnitSize table.byte r := by
  obtain ⟨k, above, below, size⟩ := @unitSize_pow2 cfg table _ inside
  have same : sizeField table.byte r * 256 * cfg.chipInter = 2 ^ k := by
    rw [← size]
    unfold chipUnitSize
    rw [if_neg coded, Nat.mul_comm, Nat.mul_comm 256]
  have fits : 2 ^ k < 2 ^ 32 := Nat.pow_lt_pow_right (by decide) below
  rw [same, Nat.mod_eq_of_lt fits, findPow2_two_pow above (by omega), size]

theorem halvings_unitSize (table : Table) {r : Nat} (inside : r < regionCount table.byte) :
    2 ^ halvings 31 (cfg.chipInter * chipUnitSize table.byte r) =
      cfg.chipInter * chipUnitSize table.byte r := by
  obtain ⟨k, _, below, size⟩ := @unitSize_pow2 cfg table _ inside
  rw [size, halvings_two_pow (by omega)]

theorem busWidth_pos : 0 < cfg.busWidth := Nat.mul_pos cfg.deviceWidth_pos cfg.chipInter_pos

theorem cfiWidth_pos (hybrid : Bool) : 0 < cfiWidth cfg hybrid := by
  have wide := @busWidth_pos cfg
  unfold cfiWidth
  split <;> omega

theorem amdMult_pos : 0 < amdMult cfg := by
  have wide := @busWidth_pos cfg
  unfold amdMult
  split <;> omega

theorem bootOrder_lt {table : Bytes} {r : Nat} (inside : r < regionCount table) :
    bootOrder table r < regionCount table := by
  unfold bootOrder
  split <;> omega

theorem iDecode_count (hybrid : Bool) (table : Bytes) (dbase : Dbase) :
    (iDecode cfg unitBits hybrid table dbase).geoNum = regionCount table := by
  unfold iDecode iCFIFill
  simp only [iByte_shown (cfiWidth_pos hybrid), Nat.zero_add]
  rfl

theorem iDecode_geo (hybrid : Bool) (table : Bytes) (dbase : Dbase) {r : Nat}
    (inside : r < regionCount table) :
    (iDecode cfg unitBits hybrid table dbase).geoVect r =
      { unitNum := (unitField table r + 1) % 2 ^ unitBits
        unitPow2 := findPow2 (sizeField table r * 256 * cfg.chipInter % 2 ^ 32) 31 1 } := by
  unfold iDecode iCFIFill
  simp only [iByte_shown (cfiWidth_pos hybrid), Nat.sub_zero]
  unfold regionCount at inside
  rw [regions_apply, if_pos (by omega), Nat.sub_zero]
  exact iEntry_shown table (cfiWidth_pos hybrid) r

theorem aDecode_count (table : Bytes) (jedecHi jedecLo : Nat) (dbase : Dbase) :
    (aDecode cfg unitBits table jedecHi jedecLo dbase).geoNum = regionCount table :=
  aByte_shown amdMult_pos _

theorem aDecode_geo (table : Bytes) (jedecHi jedecLo : Nat) (dbase : Dbase) {r : Nat}
    (inside : r < regionCount table) :
    (aDecode cfg unitBits table jedecHi jedecLo dbase).geoVect r =
      { unitNum := (unitField table (bootOrder table r) + 1) % 2 ^ unitBits
        unitPow2 := halvings 31 (cfg.chipInter * chipUnitSize table (bootOrder table r)) } := by
  have entries : ∀ k < regionCount table,
      regions (aEntry cfg unitBits (shown cfg table (amdMult cfg)) (amdMult cfg))
          (regionCount table) 0 0x2d dbase.geoVect k =
        { unitNum := (unitField table k + 1) % 2 ^ unitBits
          unitPow2 := halvings 31 (cfg.chipInter * chipUnitSize table k) } := by
    intro k below
    rw [regions_apply, if_pos (by omega), Nat.sub_zero]
    exact aEntry_shown table amdMult_pos k
  have flag : (table 0x4f).toNat = TOP_BOOT_DEVICE ↔ table 0x4f = 3 :=
    ⟨fun same => UInt8.toNat_inj.mp same, fun same => by rw [same]; rfl⟩
  unfold aDecode aCFIFill
  simp only [aByte_shown amdMult_pos]
  change (if _ then swaps (regionCount table / 2) 0 (regionCount table - 1) _ else _) r = _
  unfold bootOrder
  by_cases top : table 0x4f = 3
  · rw [if_pos (flag.mpr top), if_pos top, swaps_all _ inside]
    exact entries _ (by omega)
  · rw [if_neg fun same => top (flag.mp same), if_neg top]
    exact entries _ inside

/-- The first decoder takes 100 for 0x100, but only where the buffer is too large anyway. -/
theorem iDecode_buffer_iff (hybrid : Bool) (table : Bytes) (dbase : Dbase) :
    (iDecode cfg unitBits hybrid table dbase).bufferSize = 2 ^ bufferField table * cfg.chipInter ↔
      2 ^ bufferField table * cfg.chipInter < 2 ^ 32 := by
  have read : (iDecode cfg unitBits hybrid table dbase).bufferSize =
      shiftOne ((table 0x2a).toNat + (table 0x2b).toNat * 100) * cfg.chipInter % 2 ^ 32 := by
    unfold iDecode iCFIFill
    simp only [iByte_shown (cfiWidth_pos hybrid)]
  rw [read]
  constructor
  · intro same
    rw [← same]
    exact Nat.mod_lt _ (by decide)
  · intro fits
    obtain ⟨bits, shifted⟩ := shiftOne_fits fits
    have field : bufferField table = (table 0x2a).toNat + 256 * (table 0x2b).toNat := rfl
    have low : (table 0x2a).toNat + (table 0x2b).toNat * 100 = bufferField table := by omega
    rw [low, shifted]

theorem aDecode_buffer_iff (table : Bytes) (jedecHi jedecLo : Nat) (dbase : Dbase) :
    (aDecode cfg unitBits table jedecHi jedecLo dbase).bufferSize =
        2 ^ bufferField table * cfg.chipInter ↔
      2 ^ bufferField table * cfg.chipInter < 2 ^ 32 := by
  have read : (aDecode cfg unitBits table jedecHi jedecLo dbase).bufferSize =
      shiftOne (bufferField table) * cfg.chipInter % 2 ^ 32 := by
    have field : ((table 0x2b).toNat <<< 8) + (table 0x2a).toNat = bufferField table := by
      have apart : bufferField table = (table 0x2a).toNat + 256 * (table 0x2b).toNat := rfl
      rw [apart, Nat.shiftLeft_eq]
      omega
    unfold aDecode aCFIFill
    simp only [aByte_shown amdMult_pos]
    rw [field]
  rw [read]
  constructor
  · intro same
    rw [← same]
    exact Nat.mod_lt _ (by decide)
  · intro fits
    exact (shiftOne_fits fits).2

/-- `unit_num` has room for the number of units of a region. -/
theorem unitNum_iff {field : Nat} : (field + 1) % 2 ^ unitBits = field + 1 ↔
    field + 1 < 2 ^ unitBits :=
  Nat.mod_eq_iff_lt (Nat.two_pow_pos _).ne'

end Decoding

/-! ## Both decoders -/

/-- Both decoders have what the table says exactly if the write buffer has a size that fits its
field, no region has units of 128 bytes, which `f3s_iCFI_ident` does not know, and `unit_num` has
room for the number of units. -/
theorem decoded_iff (hybrid : Bool) (table : Table) (jedecHi jedecLo : Nat)
    (dbase dbase' : Dbase) :
    DecodedAlike cfg table.byte (iDecode cfg unitBits hybrid table.byte dbase)
        (aDecode cfg unitBits table.byte jedecHi jedecLo dbase') ↔
      2 ^ bufferField table.byte * cfg.chipInter < 2 ^ 32 ∧
        ∀ r < regionCount table.byte,
          sizeField table.byte r ≠ 0 ∧ unitField table.byte r + 1 < 2 ^ unitBits := by
  constructor
  · intro alike
    refine ⟨(iDecode_buffer_iff hybrid table.byte dbase).mp alike.intel.buffer, ?_⟩
    intro r inside
    constructor
    · intro zero
      have size := alike.intel.sizes r inside
      rw [iDecode_geo hybrid table.byte dbase inside] at size
      obtain ⟨k, _, below, pow2⟩ := @unitSize_pow2 cfg table _ inside
      rw [id_eq, pow2, zero, Nat.zero_mul, Nat.zero_mod, findPow2_zero] at size
      have same : 1 + 31 = k := Nat.pow_right_injective (le_refl 2) size
      omega
    · have units := alike.intel.units r inside
      rw [iDecode_geo hybrid table.byte dbase inside] at units
      exact unitNum_iff.mp units
  · rintro ⟨fits, fields⟩
    have buffer := (@iDecode_buffer_iff cfg unitBits hybrid table.byte dbase).mpr fits
    have buffer' := (@aDecode_buffer_iff cfg unitBits table.byte jedecHi jedecLo
      dbase').mpr fits
    have geo : ∀ r < regionCount table.byte,
        (aDecode cfg unitBits table.byte jedecHi jedecLo dbase').geoVect r =
          (iDecode cfg unitBits hybrid table.byte dbase).geoVect (bootOrder table.byte r) := by
      intro r inside
      have inside' := bootOrder_lt inside
      have sizes := (@findPow2_unitSize cfg table _ inside' (fields _ inside').1).trans
        (halvings_unitSize table inside').symm
      rw [aDecode_geo _ _ _ _ inside, iDecode_geo _ _ _ inside',
        Nat.pow_right_injective (le_refl 2) sizes]
    have intel : Decodes cfg table.byte id (iDecode cfg unitBits hybrid table.byte dbase) := by
      refine ⟨buffer, iDecode_count hybrid table.byte dbase, ?_, ?_⟩
      · intro r inside
        rw [iDecode_geo _ _ _ inside]
        exact unitNum_iff.mpr (fields r inside).2
      · intro r inside
        rw [iDecode_geo _ _ _ inside]
        exact findPow2_unitSize table inside (fields r inside).1
    refine ⟨intel, ⟨buffer', aDecode_count table.byte jedecHi jedecLo dbase', ?_, ?_⟩,
      buffer'.trans buffer.symm, ?_, geo⟩
    · intro r inside
      rw [geo r inside]
      exact intel.units _ (bootOrder_lt inside)
    · intro r inside
      rw [geo r inside]
      exact intel.sizes _ (bootOrder_lt inside)
    · rw [aDecode_count, iDecode_count]

/-- A chip with one region of 512 units of 128 bytes -/
def smallUnits : Table where
  byte := fun pos => if pos = 0x2c then 1 else if pos = 0x2d then 0xff else if pos = 0x2e then 1
    else 0
  pow2 := fun r inside => ⟨7, by
    have first : r = 0 := by
      have one : regionCount (fun pos => if pos = 0x2c then 1 else if pos = 0x2d then 0xff
        else if pos = 0x2e then 1 else 0) = 1 := rfl
      omega
    subst first
    rfl⟩

def oneChip : Flashcfg := ⟨1, 1, 0x01, by decide⟩

def noDbase : Dbase := ⟨0, 0, 0, 0, fun _ => ⟨0, 0⟩, 0, 0, ⟨false, false, false⟩⟩

/-- `f3s_iCFI_ident` has the exponent 32 for units of 128 bytes. -/
theorem decoded_broken :
    ¬ ∀ (cfg : Flashcfg) (unitBits : Nat) (hybrid : Bool) (table : Table) (jedecHi jedecLo : Nat)
      (dbase dbase' : Dbase),
      DecodedAlike cfg table.byte (iDecode cfg unitBits hybrid table.byte dbase)
        (aDecode cfg unitBits table.byte jedecHi jedecLo dbase') := by
  intro always
  have size := (always oneChip 16 false smallUnits 0x01 0x7e noDbase noDbase).intel.sizes 0
    (by decide)
  rw [iDecode_geo _ _ _ (by decide)] at size
  have units : sizeField smallUnits.byte 0 = 0 := rfl
  rw [units, Nat.zero_mul, Nat.zero_mod, findPow2_zero] at size
  exact absurd size (by decide)

end Mx6xBsp.Flash.CfiGeometry
