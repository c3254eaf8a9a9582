import Mathlib.Data.BitVec
import Mathlib.Tactic.Ring
import Mx6xBsp.Lib.BitFields
import Mx6xBsp.Sdmmc.Registers

/-!
# The fields of the CID and CSD registers

`sdio_extract_bits` returns the addressed bits (`sdioExtractBits_bit`), so each
parser is a layout of bit ranges. Two of them have fields that share bits:
`sd_parse_cid` reads the revision out of the serial number, and `mmc_parse_csd`
takes the two low bits of an erase group field into the write protect group
size. `card_registers_iff` tells exactly when another field changes with a field,
and when the capacity of a card is lost in 32 bits.
-/

namespace Mx6xBsp.Sdmmc

open BitFields

/-! ## Single bits -/

/-- Bit `i` of a response of `bits` bits, counted from the last bit of the last word. -/
def bitAt (bits : Nat) (data : Response) (i : Nat) : Bool :=
  decide (i < bits) && (data (bits / 32 - i / 32 - 1)).getLsbD (i % 32)

abbrev rspBits (rsp : Response) : Nat → Bool := bitAt 128 rsp

/-- `sdio_extract_bits` returns the addressed bits, also across two words. -/
theorem sdioExtractBits_bit {data : Response} {bits start size : Nat} (whole : 32 ∣ bits)
    (word : size ≤ 32) (inside : start + size ≤ bits) (k : Nat) :
    (sdioExtractBits data bits start size).getLsbD k =
      (decide (k < size) && bitAt bits data (start + k)) := by
  by_cases below : k < size
  swap
  · have mask : (BitVec.ofNat 32 (2 ^ size - 1)).getLsbD k = false := by
      rw [BitVec.getLsbD_ofNat, Nat.testBit_two_pow_sub_one]
      simp [below]
    simp [sdioExtractBits, BitVec.getLsbD_and, mask, below]
  · have mask : (BitVec.ofNat 32 (2 ^ size - 1)).getLsbD k = true := by
      rw [BitVec.getLsbD_ofNat, Nat.testBit_two_pow_sub_one]
      simp [below]
      omega
    have within : start + k < bits := by omega
    simp only [sdioExtractBits, BitVec.getLsbD_and, mask, Bool.and_true, below, decide_true,
      Bool.true_and, bitAt, within]
    by_cases first : start % 32 + k < 32
    · have word : (start + k) / 32 = start / 32 := by omega
      have place : (start + k) % 32 = start % 32 + k := by omega
      rw [word, place]
      split
      · have early : k < 32 - start % 32 := by omega
        simp [BitVec.getLsbD_or, BitVec.getLsbD_ushiftRight, BitVec.getLsbD_shiftLeft, early]
      · simp [BitVec.getLsbD_ushiftRight]
    · have word : (start + k) / 32 = start / 32 + 1 := by omega
      have place : (start + k) % 32 = k - (32 - start % 32) := by omega
      have late : ¬k < 32 - start % 32 := by omega
      have crosses : size + start % 32 > 32 := by omega
      have index : bits / 32 - start / 32 - 1 - 1 = bits / 32 - (start / 32 + 1) - 1 := by omega
      have past : (data (bits / 32 - start / 32 - 1)).getLsbD (start % 32 + k) = false :=
        BitVec.getLsbD_of_ge _ _ (by omega)
      rw [if_pos crosses, word, place, index]
      simp only [BitVec.getLsbD_or, BitVec.getLsbD_ushiftRight, BitVec.getLsbD_shiftLeft, past,
        late, decide_false, Bool.not_false, Bool.and_true, Bool.false_or]
      have small : k < 32 := by omega
      simp [small]

variable {w start size : Nat} {x y : Response}

theorem field_bit (fits : size ≤ w) (word : size ≤ 32) (inside : start + size ≤ 128) (k : Nat) :
    (field w x start size).getLsbD k = (decide (k < size) && rspBits x (start + k)) := by
  unfold field
  rw [BitVec.getLsbD_setWidth, sdioExtractBits_bit (by decide) word inside]
  by_cases below : k < size
  · have : k < w := by omega
    simp [this]
  · simp [below]

theorem field_eq_iff (fits : size ≤ w) (word : size ≤ 32) (inside : start + size ≤ 128) :
    field w x start size = field w y start size ↔
      Agree ⟨start, size⟩ (rspBits x) (rspBits y) := by
  constructor
  · rintro same i ⟨from_, below⟩
    have bit := congrArg (·.getLsbD (i - start)) same
    dsimp only at bit from_ below
    rw [field_bit fits word inside, field_bit fits word inside] at bit
    have small : i - start < size := by omega
    have place : start + (i - start) = i := by omega
    simpa [small, place] using bit
  · intro agree
    apply BitVec.eq_of_getLsbD_eq
    intro k _
    rw [field_bit fits word inside, field_bit fits word inside]
    by_cases below : k < size
    · rw [agree (start + k) ⟨Nat.le_add_right .., Nat.add_lt_add_left below _⟩]
    · simp [below]

theorem productName_eq_iff {n : Nat} (fits : n ≤ 8) :
    productName x n = productName y n ↔
      Agree ⟨104 - n * 8, n * 8⟩ (rspBits x) (rspBits y) := by
  have char (idx : Nat) (below : idx < n) :
      field 8 x (96 - idx * 8) 8 = field 8 y (96 - idx * 8) 8 ↔
        Agree ⟨96 - idx * 8, 8⟩ (rspBits x) (rspBits y) :=
    field_eq_iff (by decide) (by decide) (by omega)
  unfold productName
  rw [List.append_left_inj, List.map_inj_left]
  simp only [List.mem_range]
  constructor
  · rintro same i ⟨from_, below⟩
    dsimp only at from_ below
    have idx : (103 - i) / 8 < n := by omega
    exact (char _ idx).mp (same _ idx) i ⟨by dsimp only; omega, by dsimp only; omega⟩
  · intro agree idx below
    apply (char idx below).mpr
    rintro i ⟨from_, upTo⟩
    dsimp only at from_ upTo
    exact agree i ⟨by dsimp only; omega, by dsimp only; omega⟩

theorem toNat_field_iff (fits : size ≤ w) (word : size ≤ 32) (inside : start + size ≤ 128) :
    (field w x start size).toNat = (field w y start size).toNat ↔
      Agree ⟨start, size⟩ (rspBits x) (rspBits y) := by
  rw [BitVec.toNat_inj, field_eq_iff fits word inside]

theorem agree_nothing : Agree ⟨0, 0⟩ (rspBits x) (rspBits y) :=
  fun _ inside => absurd inside.2 (Nat.not_lt_zero _)

/-! ## The layouts of the CID -/

inductive CidField
  | mid | oid | pnm | prv | psn | month | year
deriving DecidableEq

inductive CidValue
  | word (v : BitVec 32)
  | name (v : List (BitVec 8))
deriving DecidableEq

def SdioCid.get (c : SdioCid) : CidField → CidValue
  | .mid => .word c.mid
  | .oid => .word c.oid
  | .pnm => .name c.pnm
  | .prv => .word c.prv
  | .psn => .word c.psn
  | .month => .word c.month
  | .year => .word c.year

inductive CidParser
  | sd
  | mmc (specVers : Nat)

def CidParser.parse : CidParser → Response → SdioCid
  | .sd, rsp => sdParseCid rsp
  | .mmc specVers, rsp => (mmcParseCid specVers rsp).2.1

def sdCidRange : CidField → Range
  | .mid => ⟨120, 8⟩
  | .oid => ⟨104, 16⟩
  | .pnm => ⟨64, 40⟩
  | .prv => ⟨40, 8⟩
  | .psn => ⟨24, 32⟩
  | .month => ⟨8, 4⟩
  | .year => ⟨12, 8⟩

def mmcCidRange (specVers : Nat) : CidField → Range
  | .mid => if specVers ≤ 1 then ⟨104, 24⟩ else if specVers ≤ 4 then ⟨120, 8⟩ else ⟨0, 0⟩
  | .oid => if specVers ≤ 1 then ⟨0, 0⟩ else if specVers ≤ 4 then ⟨104, 8⟩ else ⟨0, 0⟩
  | .pnm => if specVers ≤ 1 then ⟨48, 56⟩ else if specVers ≤ 4 then ⟨56, 48⟩ else ⟨0, 0⟩
  | .prv => if specVers ≤ 1 then ⟨40, 8⟩ else if specVers ≤ 4 then ⟨48, 8⟩ else ⟨0, 0⟩
  | .psn => if specVers ≤ 1 then ⟨0, 0⟩ else if specVers ≤ 4 then ⟨16, 32⟩ else ⟨0, 0⟩
  | .month => if specVers ≤ 4 then ⟨12, 4⟩ else ⟨0, 0⟩
  | .year => if specVers ≤ 4 then ⟨8, 4⟩ else ⟨0, 0⟩

/-- The bits each field of a CID is read from; a field that is not read has none. -/
def CidParser.range : CidParser → CidField → Range
  | .sd => sdCidRange
  | .mmc specVers => mmcCidRange specVers

theorem word_field_iff (fits : size ≤ 32) (inside : start + size ≤ 128) :
    CidValue.word (field 32 x start size) = .word (field 32 y start size) ↔
      Agree ⟨start, size⟩ (rspBits x) (rspBits y) := by
  rw [CidValue.word.injEq, field_eq_iff fits fits inside]

theorem word_year_iff {base : BitVec 32} (fits : size ≤ 32) (inside : start + size ≤ 128) :
    CidValue.word (field 32 x start size + base) = .word (field 32 y start size + base) ↔
      Agree ⟨start, size⟩ (rspBits x) (rspBits y) := by
  rw [CidValue.word.injEq, add_left_inj, field_eq_iff fits fits inside]

theorem name_iff {n : Nat} (fits : n ≤ 8) :
    CidValue.name (productName x n) = .name (productName y n) ↔
      Agree ⟨104 - n * 8, n * 8⟩ (rspBits x) (rspBits y) := by
  rw [CidValue.name.injEq, productName_eq_iff fits]

theorem sdParseCid_exact (f : CidField) :
    (sdParseCid x).get f = (sdParseCid y).get f ↔
      Agree (sdCidRange f) (rspBits x) (rspBits y) := by
  cases f with
  | pnm => exact name_iff (by decide)
  | year => exact word_year_iff (by decide) (by decide)
  | _ => exact word_field_iff (by decide) (by decide)

theorem mmcParseCid_exact (specVers : Nat) (f : CidField) :
    (mmcParseCid specVers x).2.1.get f = (mmcParseCid specVers y).2.1.get f ↔
      Agree (mmcCidRange specVers f) (rspBits x) (rspBits y) := by
  unfold mmcParseCid mmcCidFields
  rcases Nat.lt_or_ge 4 specVers with other | known
  · have notOld : ¬specVers ≤ 1 := by omega
    have notNew : ¬specVers ≤ 4 := by omega
    simp only [if_neg notOld, if_neg notNew]
    cases f <;>
      exact iff_of_true trivial (by simpa [mmcCidRange, notOld, notNew] using agree_nothing)
  · rcases Nat.lt_or_ge 1 specVers with new | old
    · have notOld : ¬specVers ≤ 1 := by omega
      simp only [if_neg notOld, if_pos known]
      cases f with
      | pnm =>
        simp only [mmcCidRange, if_neg notOld, if_pos known]
        exact name_iff (by decide)
      | year =>
        simp only [mmcCidRange, if_pos known]
        exact word_year_iff (by decide) (by decide)
      | _ =>
        simp only [mmcCidRange, if_neg notOld, if_pos known]
        exact word_field_iff (by decide) (by decide)
    · have isOld : specVers ≤ 1 := old
      simp only [if_pos isOld]
      cases f with
      | pnm =>
        simp only [mmcCidRange, if_pos isOld]
        exact name_iff (by decide)
      | year =>
        simp only [mmcCidRange, if_pos known]
        exact word_year_iff (by decide) (by decide)
      | oid => exact iff_of_true rfl (by simpa [mmcCidRange, isOld] using agree_nothing)
      | psn => exact iff_of_true rfl (by simpa [mmcCidRange, isOld] using agree_nothing)
      | _ =>
        simp only [mmcCidRange, if_pos isOld, if_pos known]
        exact word_field_iff (by decide) (by decide)

/-- A CID as its parser takes it apart. -/
def CidParser.layout (p : CidParser) : Layout Response CidField CidValue where
  bits := rspBits
  range := p.range
  get rsp := (p.parse rsp).get
  exact_ x y f := by
    cases p with
    | sd => exact sdParseCid_exact f
    | mmc specVers => exact mmcParseCid_exact specVers f

/-! ## The layouts of the CSD -/

inductive CsdField
  | csdStructure | specVers | taac | nsac | tranSpeed | ccc | readBlLen | readBlPartial
  | writeBlkMisalign | readBlkMisalign | dsrImp | cSize | vddRCurrMin | vddRCurrMax
  | vddWCurrMin | vddWCurrMax | cSizeMult | eraseBlkEn | eraseGrpSize | eraseGrpMult
  | sectorSize | wpGrpSize | wpGrpEnable | r2wFactor | writeBlLen | writeBlPartial
  | writeProtect
deriving DecidableEq

def SdioCsd.get (c : SdioCsd) : CsdField → Nat
  | .csdStructure => c.csdStructure.toNat
  | .specVers => c.specVers.toNat
  | .taac => c.taac.toNat
  | .nsac => c.nsac.toNat
  | .tranSpeed => c.tranSpeed.toNat
  | .ccc => c.ccc.toNat
  | .readBlLen => c.readBlLen.toNat
  | .readBlPartial => c.readBlPartial.toNat
  | .writeBlkMisalign => c.writeBlkMisalign.toNat
  | .readBlkMisalign => c.readBlkMisalign.toNat
  | .dsrImp => c.dsrImp.toNat
  | .cSize => c.cSize.toNat
  | .vddRCurrMin => c.vddRCurrMin.toNat
  | .vddRCurrMax => c.vddRCurrMax.toNat
  | .vddWCurrMin => c.vddWCurrMin.toNat
  | .vddWCurrMax => c.vddWCurrMax.toNat
  | .cSizeMult => c.cSizeMult.toNat
  | .eraseBlkEn => c.eraseBlkEn.toNat
  | .eraseGrpSize => c.eraseGrpSize.toNat
  | .eraseGrpMult => c.eraseGrpMult.toNat
  | .sectorSize => c.sectorSize.toNat
  | .wpGrpSize => c.wpGrpSize.toNat
  | .wpGrpEnable => c.wpGrpEnable.toNat
  | .r2wFactor => c.r2wFactor.toNat
  | .writeBlLen => c.writeBlLen.toNat
  | .writeBlPartial => c.writeBlPartial.toNat
  | .writeProtect => c.writeProtect.toNat

inductive CsdParser
  | sd
  | mmc

def CsdParser.parse : CsdParser → Response → SdioCsd
  | .sd, rsp => (sdParseCsd rsp).2.1
  | .mmc, rsp => mmcParseCsd rsp

/-- `csd_structure`, which chooses the layout of the rest. -/
def structureOf (rsp : Response) : Nat := (field 8 rsp 126 2).toNat

/-- The fields both families have at the same bits. -/
def commonRange : CsdField → Range
  | .csdStructure => ⟨126, 2⟩
  | .taac => ⟨112, 8⟩
  | .nsac => ⟨104, 8⟩
  | .tranSpeed => ⟨96, 8⟩
  | .ccc => ⟨84, 12⟩
  | .readBlLen => ⟨80, 4⟩
  | .readBlPartial => ⟨79, 1⟩
  | .writeBlkMisalign => ⟨78, 1⟩
  | .readBlkMisalign => ⟨77, 1⟩
  | .dsrImp => ⟨76, 1⟩
  | .cSize => ⟨62, 12⟩
  | .vddRCurrMin => ⟨59, 3⟩
  | .vddRCurrMax => ⟨56, 3⟩
  | .vddWCurrMin => ⟨53, 3⟩
  | .vddWCurrMax => ⟨50, 3⟩
  | .cSizeMult => ⟨47, 3⟩
  | .wpGrpSize => ⟨32, 7⟩
  | .wpGrpEnable => ⟨31, 1⟩
  | .r2wFactor => ⟨26, 3⟩
  | .writeBlLen => ⟨22, 4⟩
  | .writeBlPartial => ⟨21, 1⟩
  | .writeProtect => ⟨12, 2⟩
  | _ => ⟨0, 0⟩

/-- The ranges of `sd_parse_csd` for standard capacity. -/
def sdCsdRange10 : CsdField → Range
  | .eraseBlkEn => ⟨46, 1⟩
  | .sectorSize => ⟨39, 7⟩
  | f => commonRange f

/-- The ranges of `sd_parse_csd` for high capacity. -/
def sdCsdRange20 : CsdField → Range
  | .cSize => ⟨48, 22⟩
  | .vddRCurrMin => ⟨0, 0⟩
  | .vddRCurrMax => ⟨0, 0⟩
  | .vddWCurrMin => ⟨0, 0⟩
  | .vddWCurrMax => ⟨0, 0⟩
  | .cSizeMult => ⟨0, 0⟩
  | f => sdCsdRange10 f

/-- What `sd_parse_csd` has read where it gives up. -/
def sdCsdRangeHead (f : CsdField) : Range :=
  if 76 ≤ (commonRange f).start then commonRange f else ⟨0, 0⟩

/-- The ranges of `mmc_parse_csd`, for the old structures and the new ones. -/
def mmcCsdRangeOld : CsdField → Range
  | .specVers => ⟨122, 4⟩
  | .sectorSize => ⟨42, 5⟩
  | .eraseGrpSize => ⟨37, 5⟩
  | f => commonRange f

def mmcCsdRangeNew : CsdField → Range
  | .specVers => ⟨122, 4⟩
  | .eraseGrpSize => ⟨42, 5⟩
  | .eraseGrpMult => ⟨37, 5⟩
  | f => commonRange f

/-- The bits each field of a CSD with the structure is read from. -/
def CsdParser.range : CsdParser → Nat → CsdField → Range
  | .sd, 0 => sdCsdRange10
  | .sd, 1 => sdCsdRange20
  | .sd, _ => sdCsdRangeHead
  | .mmc, n => if n ≤ 1 then mmcCsdRangeOld else mmcCsdRangeNew

theorem sdParseCsd_exact {n : Nat} (hx : structureOf x = n) (hy : structureOf y = n)
    (f : CsdField) :
    (sdParseCsd x).2.1.get f = (sdParseCsd y).2.1.get f ↔
      Agree (CsdParser.sd.range n f) (rspBits x) (rspBits y) := by
  have headX : (sdCsdHead x).csdStructure.toNat = n := hx
  have headY : (sdCsdHead y).csdStructure.toNat = n := hy
  unfold sdParseCsd
  simp only [headX, headY]
  match n with
  | 0 =>
    cases f
    all_goals first
      | exact toNat_field_iff (by decide) (by decide) (by decide)
      | exact iff_of_true rfl agree_nothing
  | 1 =>
    cases f
    all_goals first
      | exact toNat_field_iff (by decide) (by decide) (by decide)
      | exact iff_of_true rfl agree_nothing
  | n + 2 =>
    cases f
    all_goals first
      | exact toNat_field_iff (by decide) (by decide) (by decide)
      | exact iff_of_true rfl agree_nothing

theorem mmcParseCsd_exact {n : Nat} (hx : structureOf x = n) (hy : structureOf y = n)
    (f : CsdField) :
    (mmcParseCsd x).get f = (mmcParseCsd y).get f ↔
      Agree (CsdParser.mmc.range n f) (rspBits x) (rspBits y) := by
  have headX : (mmcCsdFields x).csdStructure.toNat = n := hx
  have headY : (mmcCsdFields y).csdStructure.toNat = n := hy
  unfold mmcParseCsd CsdParser.range
  simp only [headX, headY]
  split
  · cases f
    all_goals first
      | exact toNat_field_iff (by decide) (by decide) (by decide)
      | exact iff_of_true rfl agree_nothing
  · cases f
    all_goals first
      | exact toNat_field_iff (by decide) (by decide) (by decide)
      | exact iff_of_true rfl agree_nothing

/-- The CSDs of one structure, as their parser takes them apart. -/
def CsdParser.layout (p : CsdParser) (n : Nat) :
    Layout { rsp : Response // structureOf rsp = n } CsdField Nat where
  bits rsp := rspBits rsp
  range := p.range n
  get rsp := (p.parse rsp).get
  exact_ x y f := by
    cases p with
    | sd => exact sdParseCsd_exact x.2 y.2 f
    | mmc => exact mmcParseCsd_exact x.2 y.2 f

/-! ## Fields that share bits -/

def CidField.all : List CidField := [.mid, .oid, .pnm, .prv, .psn, .month, .year]

theorem CidField.mem_all (f : CidField) : f ∈ all := by
  cases f <;> decide

def CsdField.all : List CsdField :=
  [.csdStructure, .specVers, .taac, .nsac, .tranSpeed, .ccc, .readBlLen, .readBlPartial,
    .writeBlkMisalign, .readBlkMisalign, .dsrImp, .cSize, .vddRCurrMin, .vddRCurrMax,
    .vddWCurrMin, .vddWCurrMax, .cSizeMult, .eraseBlkEn, .eraseGrpSize, .eraseGrpMult,
    .sectorSize, .wpGrpSize, .wpGrpEnable, .r2wFactor, .writeBlLen, .writeBlPartial,
    .writeProtect]

theorem CsdField.mem_all (f : CsdField) : f ∈ all := by
  cases f <;> decide

/-- The bits of a CID field that belong to another field as well. -/
def CidParser.shared : CidParser → CidField → Range
  | .sd, .prv => ⟨40, 8⟩
  | .sd, .psn => ⟨40, 8⟩
  | _, _ => ⟨0, 0⟩

/-- The MMC field at the bits 37 to 41. -/
def mmcEraseField (n : Nat) : CsdField := if n ≤ 1 then .eraseGrpSize else .eraseGrpMult

/-- The bits of a CSD field that belong to another field as well. -/
def CsdParser.shared (p : CsdParser) (n : Nat) (f : CsdField) : Range :=
  match p with
  | .sd => ⟨0, 0⟩
  | .mmc => if f = .wpGrpSize ∨ f = mmcEraseField n then ⟨37, 2⟩ else ⟨0, 0⟩

theorem sdCid_apart : ∀ f ∈ CidField.all, ∀ g ∈ CidField.all, g ≠ f →
    ¬(f = .prv ∧ g = .psn) → ¬(f = .psn ∧ g = .prv) →
    (sdCidRange f).Apart (sdCidRange g) := by
  decide

theorem mmcCid_apart (specVers : Nat) : ∀ f ∈ CidField.all, ∀ g ∈ CidField.all, g ≠ f →
    (mmcCidRange specVers f).Apart (mmcCidRange specVers g) := by
  rcases Nat.lt_or_ge 4 specVers with other | known
  · have notOld : ¬specVers ≤ 1 := by omega
    have notNew : ¬specVers ≤ 4 := by omega
    simp only [mmcCidRange, if_neg notOld, if_neg notNew]
    decide
  · rcases Nat.lt_or_ge 1 specVers with new | old
    · have notOld : ¬specVers ≤ 1 := by omega
      simp only [mmcCidRange, if_neg notOld, if_pos known]
      decide
    · have isOld : specVers ≤ 1 := old
      simp only [mmcCidRange, if_pos isOld, if_pos known]
      decide

theorem sdCsd_apart : ∀ n, ∀ f ∈ CsdField.all, ∀ g ∈ CsdField.all, g ≠ f →
    (CsdParser.sd.range n f).Apart (CsdParser.sd.range n g)
  | 0 => by decide +kernel
  | 1 => by decide +kernel
  | n + 2 => by
      change ∀ f ∈ CsdField.all, ∀ g ∈ CsdField.all, g ≠ f →
        (sdCsdRangeHead f).Apart (sdCsdRangeHead g)
      decide +kernel

theorem mmcCsdOld_apart : ∀ f ∈ CsdField.all, ∀ g ∈ CsdField.all, g ≠ f →
    ¬(f = .wpGrpSize ∧ g = .eraseGrpSize) → ¬(f = .eraseGrpSize ∧ g = .wpGrpSize) →
    (mmcCsdRangeOld f).Apart (mmcCsdRangeOld g) := by
  decide +kernel

theorem mmcCsdNew_apart : ∀ f ∈ CsdField.all, ∀ g ∈ CsdField.all, g ≠ f →
    ¬(f = .wpGrpSize ∧ g = .eraseGrpMult) → ¬(f = .eraseGrpMult ∧ g = .wpGrpSize) →
    (mmcCsdRangeNew f).Apart (mmcCsdRangeNew g) := by
  decide +kernel

theorem cid_fields_iff (p : CidParser) {f : CidField}
    (only : OnlyIn (p.range f) (rspBits x) (rspBits y)) :
    (∀ g, g ≠ f → (p.parse x).get g = (p.parse y).get g) ↔
      Agree (p.shared f) (rspBits x) (rspBits y) := by
  have apartFrom (alone : ∀ g, g ≠ f → (p.range f).Apart (p.range g))
      (nothing : p.shared f = ⟨0, 0⟩) :
      (∀ g, g ≠ f → (p.parse x).get g = (p.parse y).get g) ↔
        Agree (p.shared f) (rspBits x) (rspBits y) := by
    rw [nothing]
    exact iff_of_true (p.layout.others_of_apart only alone) agree_nothing
  cases p with
  | mmc specVers =>
    exact apartFrom (fun g other => mmcCid_apart specVers f f.mem_all g g.mem_all other) rfl
  | sd =>
    have apart := fun g => sdCid_apart f f.mem_all g g.mem_all
    cases f with
    | prv =>
      refine CidParser.sd.layout.others_iff_shared .psn ⟨40, 8⟩ only
        (by decide) ?_ fun h other notPsn => apart h other (fun both => notPsn both.2) nofun
      intro i
      change (40 ≤ i ∧ i < 48) ↔ (40 ≤ i ∧ i < 48) ∧ 24 ≤ i ∧ i < 56
      omega
    | psn =>
      refine CidParser.sd.layout.others_iff_shared .prv ⟨40, 8⟩ only
        (by decide) ?_ fun h other notPrv => apart h other nofun (fun both => notPrv both.2)
      intro i
      change (40 ≤ i ∧ i < 48) ↔ (24 ≤ i ∧ i < 56) ∧ 40 ≤ i ∧ i < 48
      omega
    | _ => exact apartFrom (fun g other => apart g other nofun nofun) rfl

theorem csd_fields_iff (p : CsdParser) {n : Nat} (hx : structureOf x = n)
    (hy : structureOf y = n) {f : CsdField}
    (only : OnlyIn (p.range n f) (rspBits x) (rspBits y)) :
    (∀ g, g ≠ f → (p.parse x).get g = (p.parse y).get g) ↔
      Agree (p.shared n f) (rspBits x) (rspBits y) := by
  have only' : OnlyIn ((p.layout n).range f) ((p.layout n).bits ⟨x, hx⟩)
      ((p.layout n).bits ⟨y, hy⟩) := only
  have apartFrom (alone : ∀ g, g ≠ f → (p.range n f).Apart (p.range n g))
      (nothing : p.shared n f = ⟨0, 0⟩) :
      (∀ g, g ≠ f → (p.parse x).get g = (p.parse y).get g) ↔
        Agree (p.shared n f) (rspBits x) (rspBits y) := by
    rw [nothing]
    exact iff_of_true ((p.layout n).others_of_apart only' alone) agree_nothing
  have sharedWith (g : CsdField) (other : g ≠ f) (part : p.shared n f = ⟨37, 2⟩)
      (meets : ∀ i, (37 ≤ i ∧ i < 39) ↔ i ∈ p.range n f ∧ i ∈ p.range n g)
      (alone : ∀ h, h ≠ f → h ≠ g → (p.range n f).Apart (p.range n h)) :
      (∀ g, g ≠ f → (p.parse x).get g = (p.parse y).get g) ↔
        Agree (p.shared n f) (rspBits x) (rspBits y) := by
    rw [part]
    exact (p.layout n).others_iff_shared g ⟨37, 2⟩ only' other meets alone
  cases p with
  | sd => exact apartFrom (fun g other => sdCsd_apart n f f.mem_all g g.mem_all other) rfl
  | mmc =>
    -- the field of the erase groups of the structure shares bits 37 and 38 with `wpGrpSize`
    have pair (erase : CsdField) (own : mmcEraseField n = erase) (differs : erase ≠ .wpGrpSize)
        (wpAt : CsdParser.mmc.range n .wpGrpSize = ⟨32, 7⟩)
        (eraseAt : CsdParser.mmc.range n erase = ⟨37, 5⟩)
        (apart : ∀ g, g ≠ f → ¬(f = .wpGrpSize ∧ g = erase) → ¬(f = erase ∧ g = .wpGrpSize) →
          (CsdParser.mmc.range n f).Apart (CsdParser.mmc.range n g)) :
        (∀ g, g ≠ f → (CsdParser.mmc.parse x).get g = (CsdParser.mmc.parse y).get g) ↔
          Agree (CsdParser.mmc.shared n f) (rspBits x) (rspBits y) := by
      simp only [CsdParser.shared, own] at sharedWith apartFrom ⊢
      by_cases wp : f = .wpGrpSize
      · subst wp
        refine sharedWith erase differs (if_pos (Or.inl rfl)) ?_
          fun h other notErase => apart h other (fun both => notErase both.2)
            fun both => differs both.1.symm
        intro i
        rw [wpAt, eraseAt]
        change (37 ≤ i ∧ i < 39) ↔ (32 ≤ i ∧ i < 39) ∧ 37 ≤ i ∧ i < 42
        omega
      · by_cases isErase : f = erase
        · subst isErase
          refine sharedWith .wpGrpSize differs.symm (if_pos (Or.inr rfl)) ?_
            fun h other notWp => apart h other (fun both => wp both.1) (fun both => notWp both.2)
          intro i
          rw [wpAt, eraseAt]
          change (37 ≤ i ∧ i < 39) ↔ (37 ≤ i ∧ i < 42) ∧ 32 ≤ i ∧ i < 39
          omega
        · exact apartFrom (fun g other => apart g other (fun both => wp both.1)
            fun both => isErase both.1) (if_neg (by simp [wp, isErase]))
    rcases Nat.lt_or_ge 1 n with new | old
    · have range : CsdParser.mmc.range n = mmcCsdRangeNew := if_neg (by omega)
      exact pair .eraseGrpMult (if_neg (by omega)) (by decide) (by rw [range]; rfl)
        (by rw [range]; rfl) (range ▸ fun g => mmcCsdNew_apart f f.mem_all g g.mem_all)
    · have range : CsdParser.mmc.range n = mmcCsdRangeOld := if_pos old
      exact pair .eraseGrpSize (if_pos old) (by decide) (by rw [range]; rfl)
        (by rw [range]; rfl) (range ▸ fun g => mmcCsdOld_apart f f.mem_all g g.mem_all)

/-! ## Capacity -/

/-- `blksz` times `sectors`, at most 4096 times 512 blocks of a length up to 32768. -/
theorem SdioCsd.withCapacity_bytes (csd : SdioCsd) {blksz csize csizem : BitVec 32}
    (len : blksz.toNat ≤ 32768) (size : csize.toNat ≤ 4096) (mult : csizem.toNat ≤ 512) :
    (csd.withCapacity blksz csize csizem).sectors.toNat *
        (csd.withCapacity blksz csize csizem).blksz.toNat =
      csize.toNat * csizem.toNat * blksz.toNat := by
  have product : csize.toNat * csizem.toNat ≤ 4096 * 512 := Nat.mul_le_mul size mult
  unfold withCapacity
  dsimp only
  split
  · next force =>
    obtain ⟨_, whole⟩ := force
    have whole' : blksz.toNat % 512 = 0 := by
      have := congrArg BitVec.toNat whole
      simpa [SDIO_DFLT_BLKSZ] using this
    have blocks : (blksz / SDIO_DFLT_BLKSZ).toNat = blksz.toNat / 512 := by
      simp [SDIO_DFLT_BLKSZ]
    have few : blksz.toNat / 512 ≤ 64 := by omega
    have part : csize.toNat * (blksz.toNat / 512) ≤ 4096 * 64 := Nat.mul_le_mul size few
    have all : csize.toNat * (blksz.toNat / 512) * csizem.toNat ≤ 4096 * 64 * 512 :=
      Nat.mul_le_mul part mult
    have scaled : (csize * (blksz / SDIO_DFLT_BLKSZ)).toNat =
        csize.toNat * (blksz.toNat / 512) := by
      rw [BitVec.toNat_mul, blocks, Nat.mod_eq_of_lt (by omega)]
    rw [BitVec.toNat_mul, scaled, Nat.mod_eq_of_lt (by omega)]
    change csize.toNat * (blksz.toNat / 512) * csizem.toNat * 512 = _
    calc csize.toNat * (blksz.toNat / 512) * csizem.toNat * 512
        = csize.toNat * csizem.toNat * (512 * (blksz.toNat / 512)) := by ring
      _ = csize.toNat * csizem.toNat * blksz.toNat := by
          rw [Nat.mul_div_cancel' (Nat.dvd_of_mod_eq_zero whole')]
  · rw [BitVec.toNat_mul, Nat.mod_eq_of_lt (by omega)]

theorem field_lt (word : size ≤ 32) : (field w x start size).toNat < 2 ^ size := by
  have mask : (2 ^ size - 1) % 2 ^ 32 = 2 ^ size - 1 := by
    apply Nat.mod_eq_of_lt
    have := Nat.pow_le_pow_right (by decide : 2 > 0) word
    have := Nat.two_pow_pos size
    omega
  have extracted : (sdioExtractBits x 128 start size).toNat < 2 ^ size := by
    unfold sdioExtractBits
    dsimp only
    rw [BitVec.toNat_and, BitVec.toNat_ofNat, mask, Nat.and_two_pow_sub_one_eq_mod]
    exact Nat.mod_lt _ (Nat.two_pow_pos size)
  unfold field
  rw [BitVec.toNat_setWidth]
  exact Nat.lt_of_le_of_lt (Nat.mod_le ..) extracted

theorem shifted_toNat {k : Nat} (small : k < 32) : ((1 : BitVec 32) <<< k).toNat = 2 ^ k := by
  have below : 2 ^ k < 2 ^ 32 := Nat.pow_lt_pow_right (by decide) small
  rw [BitVec.toNat_shiftLeft, Nat.shiftLeft_eq]
  change 1 * 2 ^ k % 2 ^ 32 = 2 ^ k
  rw [Nat.one_mul, Nat.mod_eq_of_lt below]

/-- The size multiplier and the block length the structure of a CSD stands for. -/
def SdioCsd.multiplier (csd : SdioCsd) (highCapacity : Bool) : Nat :=
  if highCapacity then 1024 else 2 ^ (csd.cSizeMult.toNat + 2)

def SdioCsd.blockLength (csd : SdioCsd) (highCapacity : Bool) : Nat :=
  if highCapacity then 512 else 2 ^ csd.readBlLen.toNat

/-- `sectors` blocks of `blksz` bytes are what the register says. -/
def SdioCsd.CapacityExact (csd : SdioCsd) (highCapacity : Bool) : Prop :=
  csd.sectors.toNat * csd.blksz.toNat =
    (csd.cSize.toNat + 1) * csd.multiplier highCapacity * csd.blockLength highCapacity

theorem standard_capacity (csd : SdioCsd) (len : csd.readBlLen.toNat < 16)
    (size : csd.cSize.toNat < 4096) (mult : csd.cSizeMult.toNat < 8) :
    (csd.withCapacity (1 <<< csd.readBlLen.toNat) (csd.cSize + 1)
      (1 <<< (csd.cSizeMult.toNat + 2))).CapacityExact false := by
  have lenPow : ((1 : BitVec 32) <<< csd.readBlLen.toNat).toNat = 2 ^ csd.readBlLen.toNat :=
    shifted_toNat (by omega)
  have multPow : ((1 : BitVec 32) <<< (csd.cSizeMult.toNat + 2)).toNat =
      2 ^ (csd.cSizeMult.toNat + 2) := shifted_toNat (by omega)
  have plus : (csd.cSize + 1).toNat = csd.cSize.toNat + 1 := by
    rw [BitVec.toNat_add]
    change (csd.cSize.toNat + 1) % 4294967296 = _
    omega
  have lenMax : 2 ^ csd.readBlLen.toNat ≤ 2 ^ 15 := Nat.pow_le_pow_right (by decide) (by omega)
  have multMax : 2 ^ (csd.cSizeMult.toNat + 2) ≤ 2 ^ 9 :=
    Nat.pow_le_pow_right (by decide) (by omega)
  have bytes := csd.withCapacity_bytes (lenPow.trans_le (lenMax.trans (by decide)))
    (plus.trans_le size) (multPow.trans_le (multMax.trans (by decide)))
  rw [lenPow, multPow, plus] at bytes
  exact bytes

theorem mmc_capacity (rsp : Response) : (mmcParseCsd rsp).CapacityExact false := by
  have len : (field 8 rsp 80 4).toNat < 16 := field_lt (by decide)
  have size : (field 32 rsp 62 12).toNat < 4096 := field_lt (by decide)
  have mult : (field 8 rsp 47 3).toNat < 8 := field_lt (by decide)
  unfold mmcParseCsd
  dsimp only
  split
  · exact standard_capacity _ len size mult
  · exact standard_capacity _ len size mult

/-- The capacity of an SD card is right, unless its `C_SIZE` is the largest of the high
capacities. -/
theorem sd_capacity_iff (rsp : Response) (known : structureOf rsp ≤ 1) :
    (sdParseCsd rsp).2.1.CapacityExact (sdParseCsd rsp).2.2 ↔
      ¬(structureOf rsp = 1 ∧ (field 32 rsp 48 22).toNat = 2 ^ 22 - 1) := by
  have head : (sdCsdHead rsp).csdStructure.toNat = structureOf rsp := rfl
  rcases Nat.le_one_iff_eq_zero_or_eq_one.mp known with standard | high
  · have len : (field 8 rsp 80 4).toNat < 16 := field_lt (by decide)
    have size : (field 32 rsp 62 12).toNat < 4096 := field_lt (by decide)
    have mult : (field 8 rsp 47 3).toNat < 8 := field_lt (by decide)
    apply iff_of_true
    · unfold sdParseCsd
      simp only [head, standard]
      exact standard_capacity (sdCsdTail _ rsp) len size mult
    · omega
  · have size : (field 32 rsp 48 22).toNat < 2 ^ 22 := field_lt (by decide)
    have plus : (field 32 rsp 48 22 + 1).toNat = (field 32 rsp 48 22).toNat + 1 := by
      rw [BitVec.toNat_add]
      change ((field 32 rsp 48 22).toNat + 1) % 4294967296 = _
      omega
    have sectors : ((field 32 rsp 48 22 + 1) * 1024 : BitVec 32).toNat =
        ((field 32 rsp 48 22).toNat + 1) * 1024 % 4294967296 := by
      rw [BitVec.toNat_mul, plus]
      rfl
    have exact_ : (sdParseCsd rsp).2.1.CapacityExact (sdParseCsd rsp).2.2 ↔
        ((field 32 rsp 48 22).toNat + 1) * 1024 % 4294967296 * 512 =
          ((field 32 rsp 48 22).toNat + 1) * 1024 * 512 := by
      rw [← sectors]
      unfold sdParseCsd
      simp only [head, high]
      exact Iff.rfl
    rw [exact_]
    omega

/-! ## The registers of a card -/

/-- A register and a second one that differs from it in one field only, as a parser reads them. -/
inductive RegisterPair
  | cid (p : CidParser) (f : CidField) (x y : Response)
    (only : OnlyIn (p.range f) (rspBits x) (rspBits y))
  | csd (p : CsdParser) (f : CsdField) (x y : Response)
    (sameStructure : structureOf x = structureOf y)
    (only : OnlyIn (p.range (structureOf x) f) (rspBits x) (rspBits y))

/-- `DEV_CAP_HC` as the parser sets it. -/
def CsdParser.highCapacity : CsdParser → Response → Bool
  | .sd, rsp => (sdParseCsd rsp).2.2
  | .mmc, _ => false

/-- The parser knows the structure of the CSD. -/
def CsdParser.Accepts : CsdParser → Response → Prop
  | .sd, rsp => structureOf rsp ≤ 1
  | .mmc, _ => True

/-- All other fields are decoded the same, and the capacity is what the register says. -/
def RegisterPair.Decoded : RegisterPair → Prop
  | .cid p f x y _ => ∀ g, g ≠ f → (p.parse x).get g = (p.parse y).get g
  | .csd p f x y _ _ =>
    (∀ g, g ≠ f → (p.parse x).get g = (p.parse y).get g) ∧
      (p.Accepts x → (p.parse x).CapacityExact (p.highCapacity x))

/-- The registers agree on the bits the field shares with another one, and the capacity is not the
largest `C_SIZE` of a high capacity SD card. -/
def RegisterPair.Apart : RegisterPair → Prop
  | .cid p f x y _ => Agree (p.shared f) (rspBits x) (rspBits y)
  | .csd p f x y _ _ =>
    Agree (p.shared (structureOf x) f) (rspBits x) (rspBits y) ∧
      ¬(p = .sd ∧ structureOf x = 1 ∧ (field 32 x 48 22).toNat = 2 ^ 22 - 1)

/-- Every slice is the addressed one, and a register is decoded right exactly where the bits that
two fields share and the largest capacity stay out of it. -/
theorem card_registers_iff (data : Response) {bits start size : Nat} (k : Nat)
    (whole : 32 ∣ bits) (word : size ≤ 32) (inside : start + size ≤ bits) (pair : RegisterPair) :
    (sdioExtractBits data bits start size).getLsbD k =
        (decide (k < size) && bitAt bits data (start + k)) ∧
      (pair.Decoded ↔ pair.Apart) := by
  refine ⟨sdioExtractBits_bit whole word inside k, ?_⟩
  cases pair with
  | cid p f x y only => exact cid_fields_iff p only
  | csd p f x y sameStructure only =>
    refine and_congr (csd_fields_iff p rfl sameStructure.symm only) ?_
    cases p with
    | mmc => exact iff_of_true (fun _ => mmc_capacity x) (fun both => nomatch both.1)
    | sd =>
      constructor
      · rintro right ⟨_, high, largest⟩
        exact (sd_capacity_iff x high.le).mp (right high.le) ⟨high, largest⟩
      · intro notLargest known
        exact (sd_capacity_iff x known).mpr fun both => notLargest ⟨rfl, both⟩

/-- Two SD cards that differ in one bit of the serial number. -/
def serial (bit : Bool) : Response := fun idx => if idx = 2 ∧ bit then 0x100 else 0

theorem serial_only (r : Range) (inside : 40 ∈ r) :
    OnlyIn r (rspBits (serial false)) (rspBits (serial true)) := by
  have bits : ∀ i < 128, i ≠ 40 → rspBits (serial false) i = rspBits (serial true) i := by
    decide +kernel
  intro i outside
  by_cases small : i < 128
  · exact bits i small fun isShared => outside (isShared ▸ inside)
  · simp [rspBits, bitAt, small]

theorem card_registers_small :
    (sdioExtractBits (serial true) 128 24 32).getLsbD 16 = true ∧
      (RegisterPair.cid (.mmc 4) .psn _ _ (serial_only ⟨16, 32⟩ (by decide))).Decoded := by
  have slices := card_registers_iff (serial true) 16 (by decide : 32 ∣ 128) (by decide : 32 ≤ 32)
    (by decide : 24 + 32 ≤ 128) (.cid (.mmc 4) .psn _ _ (serial_only ⟨16, 32⟩ (by decide)))
  exact ⟨slices.1.trans (by decide), slices.2.mpr agree_nothing⟩

/-- The revision of an SD card differs with its serial number. -/
theorem card_registers_broken : ¬∀ pair : RegisterPair, pair.Decoded := by
  intro all
  have revision := all (.cid .sd .psn _ _ (serial_only ⟨24, 32⟩ (by decide))) .prv (by decide)
  revert revision
  decide +kernel

end Mx6xBsp.Sdmmc
