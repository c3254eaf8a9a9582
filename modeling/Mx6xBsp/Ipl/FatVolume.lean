import Mathlib.Tactic.Ring
import Mx6xBsp.Lib.Loops
import Mx6xBsp.Ipl.DirLookup

/-!
# The recognition of a FAT volume

`fat_read_mbr` and `fat_detect_type`: from the boot record and the boot sector of
the first partition to `fs_info`. The code has no division; it counts how often a
number can be subtracted (`countPass`). The layout is computed twice, once for
the number of the data sectors and once for where they begin.
-/

namespace Mx6xBsp.Ipl

open Loops

structure FsInfoT where
  fsOffset : UInt32
  fatType : UInt32
  totalSectors : UInt32
  rootDirSectors : UInt32
  reservedSectors : UInt32
  dataSectors : UInt32
  fatSize : UInt32
  numberOfFats : UInt32
  clusterSize : UInt32
  countOfClusters : UInt32
  fat1Start : UInt32
  fat2Start : UInt32
  rootDirStart : UInt32
  rootEntryCount : UInt32
  cluster2Start : UInt32

/-- The first two blocks that are read, and whether the reads fail -/
structure Card where
  block : UInt32 → Nat → UInt8
  fault : Nat → Bool

/-! ## The boot sector -/

section Bpb

variable (bpb : Nat → UInt8)

def secSize : UInt32 := GET_WORD bpb 11
def secPerClus : UInt32 := (bpb 13).toUInt32
def numRsvdSecs : UInt32 := GET_WORD bpb 14
def numFats : UInt32 := (bpb 16).toUInt32
def numRootEnts : UInt32 := GET_WORD bpb 17
def num16Secs : UInt32 := GET_WORD bpb 19
def num16FatSecs : UInt32 := GET_WORD bpb 22
def num32Secs : UInt32 := GET_LONG bpb 32
def num32FatSecs : UInt32 := GET_LONG bpb 36
def rootClus : UInt32 := GET_LONG bpb 44
def bpbSig : UInt32 := GET_WORD bpb 510

end Bpb

/-- One pass of a loop that counts how often `step` can be subtracted -/
def countPass (step : Int) (s : Int × Nat) : Pass (Int × Nat) Nat :=
  if s.1 ≥ step then .next (s.1 - step, s.2 + 1) else .leave s.2

/-- A word taken for an `int` -/
def asInt (x : UInt32) : Int := x.toBitVec.toInt

/-- The type that `fat_detect_type` returns if the signature is wrong -/
def NO_TYPE : UInt32 := -1

/-- `fat_detect_type`: what it leaves in `fs_info`, and the type -/
def fatDetectType (fuel : Nat) (bpb : Nat → UInt8) (fs : FsInfoT) : Option (FsInfoT × UInt32) :=
  if bpbSig bpb ≠ 0xaa55 then some (fs, NO_TYPE)
  else
    let bs : Int := (secSize bpb).toNat
    (run (countPass bs) fuel ((numRootEnts bpb).toNat * 32 + bs - 1, 0)).bind fun ns =>
    let fatSize := if num16FatSecs bpb = 0 then num32FatSecs bpb else num16FatSecs bpb
    let totalSectors := if num16Secs bpb = 0 then num32Secs bpb else num16Secs bpb
    let rootDirSectors := UInt32.ofNat ns
    let dataSectors := totalSectors -
      (numRsvdSecs bpb + numFats bpb * fatSize + rootDirSectors)
    (run (countPass (secPerClus bpb).toNat) fuel (asInt dataSectors, 0)).bind fun nc =>
    let fat1Start := numRsvdSecs bpb
    let fat2Start := fat1Start + fatSize
    let rootDirStart := fat2Start + fatSize
    let fs := { fs with
      rootDirSectors, fatSize, totalSectors, dataSectors, fat1Start, fat2Start, rootDirStart
      numberOfFats := numFats bpb
      reservedSectors := numRsvdSecs bpb
      clusterSize := secPerClus bpb
      countOfClusters := UInt32.ofNat nc
      rootEntryCount := numRootEnts bpb
      cluster2Start := rootDirStart + (numRootEnts bpb * 32 + (512 - 1)) / 512 }
    if fs.countOfClusters < 4085 then some (fs, 12)
    else if fs.countOfClusters < 65525 then some (fs, 16)
    else some ({ fs with rootDirStart := rootClus bpb }, 32)

/-- What `fat_read_mbr` complains of -/
inductive MbrError
  | readMbr
  | signature (sign : UInt32)
  | noPartition
  | readBpb
  | detect

/-- The offset of the first entry of the partition table -/
def partEntry : Nat := 446

def partOffset (mbr : Nat → UInt8) : UInt32 := GET_LONG mbr (partEntry + 8)
def partSize (mbr : Nat → UInt8) : UInt32 := GET_LONG mbr (partEntry + 12)
def mbrSign (mbr : Nat → UInt8) : UInt32 := GET_WORD mbr 510

/-- `fat_read_mbr`, without what it prints of a partition -/
def fatReadMbr (card : Card) (fuel : Nat) (fs : FsInfoT) :
    Option (FsInfoT × Except MbrError Unit) :=
  if card.fault 0 then some (fs, .error .readMbr)
  else
    let mbr := card.block 0
    if mbrSign mbr ≠ 0xaa55 then some (fs, .error (.signature (mbrSign mbr)))
    else if partSize mbr = 0 then some (fs, .error .noPartition)
    else
      let fs := { fs with fsOffset := partOffset mbr }
      if card.fault 1 then some (fs, .error .readBpb)
      else
        (fatDetectType fuel (card.block fs.fsOffset) fs).map fun (fs, type) =>
          ({ fs with fatType := type }, if type = NO_TYPE then .error .detect else .ok ())

/-! ## Counting loops -/

section Count

variable {step start : Int}

theorem count_ends (positive : 0 < step) : ∃ n, Ends (countPass step) (start, 0) n := by
  refine exists_ends (I := fun _ => 0 < step) (fun s => s.1.toNat) positive fun {s t} pos here => ?_
  unfold countPass at here
  split at here
  · cases here
    refine ⟨pos, ?_⟩
    dsimp only
    omega
  · cases here

theorem count_below (below : start < step) : Ends (countPass step) (start, 0) 0 :=
  ends_leave (if_neg (not_le.mpr below))

theorem count_stuck (zero : step = 0) (start_ : 0 ≤ start) :
    ¬∃ n, Ends (countPass step) (start, 0) n := by
  refine not_ends (I := fun s => 0 ≤ s.1) start_ fun {s} inside => ?_
  refine ⟨(s.1 - step, s.2 + 1), if_pos (by omega), ?_⟩
  dsimp only
  omega

theorem count_ends_iff (nonneg : 0 ≤ step) :
    (∃ n, Ends (countPass step) (start, 0) n) ↔ step ≠ 0 ∨ start < 0 := by
  constructor
  · intro ends
    by_contra stuck
    obtain ⟨zero, start_⟩ := not_or.mp stuck
    exact count_stuck (not_not.mp zero) (not_lt.mp start_) ends
  · rintro (nonzero | below)
    · exact count_ends (by omega)
    · exact ⟨0, count_below (by omega)⟩

theorem count_eq_div {d a n : Nat} (ends : Ends (countPass d) ((a : Int), 0) n) : n = a / d := by
  obtain ⟨⟨rest, count⟩, ⟨nonneg, sum⟩, left⟩ := ends.leaves
    (I := fun s : Int × Nat => 0 ≤ s.1 ∧ s.1 + ((s.2 * d : Nat) : Int) = (a : Int))
    ⟨Int.natCast_nonneg a, by simp⟩ (by
      rintro ⟨rest, count⟩ t ⟨nonneg, sum⟩ here
      unfold countPass at here
      split at here
      · cases here
        dsimp only at sum nonneg ⊢
        rw [Nat.succ_mul]
        exact ⟨by omega, by omega⟩
      · cases here)
  unfold countPass at left
  split at left
  · cases left
  · rename_i small
    obtain rfl : count = n := by simpa using left
    dsimp only at nonneg sum small
    refine (Nat.div_eq_of_lt_le ?_ ?_).symm
    · omega
    · rw [Nat.succ_mul]
      omega

end Count

/-! ## The layout -/

section Layout

variable (bpb : Nat → UInt8)

/-- The size of a FAT in the boot sector -/
def bpbFatSize : UInt32 := if num16FatSecs bpb = 0 then num32FatSecs bpb else num16FatSecs bpb

/-- The number of the sectors in the boot sector -/
def bpbSectors : UInt32 := if num16Secs bpb = 0 then num32Secs bpb else num16Secs bpb

/-- The sectors of a root directory of `numRootEnts` entries, in sectors of `size` bytes -/
def rootSecs (size : Nat) : Nat := ((numRootEnts bpb).toNat * 32 + size - 1) / size

/-- The sectors that are not data -/
def layoutSecs : UInt32 :=
  numRsvdSecs bpb + numFats bpb * bpbFatSize bpb + UInt32.ofNat (rootSecs bpb (secSize bpb).toNat)

/-- The loops of `fat_detect_type` end: there is a sector size, or no root directory; and there is a
cluster size, or the number of data sectors is negative. -/
def Counts : Prop :=
  (secSize bpb ≠ 0 ∨ numRootEnts bpb = 0) ∧
    (secPerClus bpb ≠ 0 ∨ asInt (bpbSectors bpb - layoutSecs bpb) < 0)

/-- Two FATs and a root directory in sectors of 512 bytes take as many sectors as the FATs and the
root directory of the boot sector. -/
def SameLayout : Prop :=
  2 * bpbFatSize bpb + UInt32.ofNat (rootSecs bpb 512) =
    numFats bpb * bpbFatSize bpb + UInt32.ofNat (rootSecs bpb (secSize bpb).toNat)

instance : Decidable (Counts bpb) := by
  unfold Counts
  infer_instance

instance : Decidable (SameLayout bpb) := by
  unfold SameLayout
  infer_instance

end Layout

variable {bpb : Nat → UInt8} {fs fs' : FsInfoT} {card : Card} {fuel : Nat}

theorem getWord_lt (m : Nat → UInt8) (i : Nat) : (GET_WORD m i).toNat < 65536 := by
  unfold GET_WORD
  have low := (m i).toNat_lt
  have high := (m (i + 1)).toNat_lt
  simp [UInt32.toNat_add, UInt32.toNat_shiftLeft, Nat.shiftLeft_eq]
  omega

theorem count_rootSecs :
    (∃ n, Ends (countPass (secSize bpb).toNat)
        ((numRootEnts bpb).toNat * 32 + (secSize bpb).toNat - 1, 0) n) ↔
      secSize bpb ≠ 0 ∨ numRootEnts bpb = 0 := by
  rw [count_ends_iff (Int.natCast_nonneg _)]
  constructor
  · rintro (nonzero | below)
    · refine Or.inl fun zero => nonzero ?_
      rw [zero]
      rfl
    · refine Or.inr (UInt32.toNat.inj ?_)
      rw [show (0 : UInt32).toNat = 0 from rfl]
      omega
  · rintro (nonzero | none)
    · refine Or.inl fun zero => nonzero (UInt32.toNat.inj ?_)
      rw [show (0 : UInt32).toNat = 0 from rfl]
      omega
    · by_cases zero : (secSize bpb).toNat = 0
      · rw [none, zero]
        exact Or.inr (by decide)
      · exact Or.inl (by omega)

theorem count_rootSecs_eq {n : Nat}
    (ends : Ends (countPass (secSize bpb).toNat)
      ((numRootEnts bpb).toNat * 32 + (secSize bpb).toNat - 1, 0) n) :
    n = rootSecs bpb (secSize bpb).toNat := by
  unfold rootSecs
  rcases Nat.eq_zero_or_pos (secSize bpb).toNat with zero | positive
  · rw [zero, Nat.div_zero]
    rcases count_rootSecs.mp ⟨n, ends⟩ with nonzero | none
    · exact absurd (UInt32.toNat.inj (zero.trans rfl)) nonzero
    · rw [none, zero] at ends
      exact ends.unique (count_below (by decide))
  · refine count_eq_div ?_
    have start : (((numRootEnts bpb).toNat * 32 + (secSize bpb).toNat - 1 : Nat) : Int) =
        (numRootEnts bpb).toNat * 32 + (secSize bpb).toNat - 1 := by omega
    rw [start]
    exact ends

/-- What `fat_detect_type` leaves, if it ends -/
structure Detected (bpb : Nat → UInt8) (fs fs' : FsInfoT) : Prop where
  fsOffset : fs'.fsOffset = fs.fsOffset
  reservedSectors : fs'.reservedSectors = numRsvdSecs bpb
  fat1Start : fs'.fat1Start = numRsvdSecs bpb
  numberOfFats : fs'.numberOfFats = numFats bpb
  fatSize : fs'.fatSize = bpbFatSize bpb
  clusterSize : fs'.clusterSize = secPerClus bpb
  rootDirSectors : fs'.rootDirSectors = UInt32.ofNat (rootSecs bpb (secSize bpb).toNat)
  rootEntryCount : fs'.rootEntryCount = numRootEnts bpb
  totalSectors : fs'.totalSectors = bpbSectors bpb
  dataSectors : fs'.dataSectors = bpbSectors bpb - layoutSecs bpb
  cluster2Start : fs'.cluster2Start =
    numRsvdSecs bpb + (2 * bpbFatSize bpb + UInt32.ofNat (rootSecs bpb 512))

theorem rootSecs_512 :
    (numRootEnts bpb * 32 + (512 - 1)) / 512 = UInt32.ofNat (rootSecs bpb 512) := by
  have few : (numRootEnts bpb).toNat < 65536 := getWord_lt bpb 17
  have secs : rootSecs bpb 512 < 65536 := by
    unfold rootSecs
    omega
  have sum : (numRootEnts bpb * 32 + (512 - 1)).toNat = (numRootEnts bpb).toNat * 32 + 511 := by
    rw [UInt32.toNat_add, UInt32.toNat_mul, show (32 : UInt32).toNat = 32 from rfl,
      show (512 - 1 : UInt32).toNat = 511 from rfl]
    omega
  apply UInt32.toNat.inj
  rw [UInt32.toNat_div, sum, UInt32.toNat_ofNat_of_lt' (secs.trans (by decide))]
  rfl

theorem fatDetectType_inv {type : UInt32} (sig : bpbSig bpb = 0xaa55)
    (call : fatDetectType fuel bpb fs = some (fs', type)) :
    Counts bpb ∧ type ≠ NO_TYPE ∧ Detected bpb fs fs' := by
  unfold fatDetectType at call
  rw [if_neg (not_not.mpr sig)] at call
  dsimp only at call
  obtain ⟨ns, first, call⟩ := Option.bind_eq_some_iff.mp call
  obtain ⟨nc, second, call⟩ := Option.bind_eq_some_iff.mp call
  have ns_ := count_rootSecs_eq ⟨fuel, first⟩
  have data := (count_ends_iff (Int.natCast_nonneg _)).mp ⟨nc, fuel, second⟩
  rw [ns_] at call data
  have clusters : secPerClus bpb ≠ 0 ∨ asInt (bpbSectors bpb - layoutSecs bpb) < 0 := by
    rcases data with nonzero | negative
    · refine Or.inl fun zero => nonzero ?_
      rw [zero]
      rfl
    · exact Or.inr negative
  have start : numRsvdSecs bpb + bpbFatSize bpb + bpbFatSize bpb +
      (numRootEnts bpb * 32 + (512 - 1)) / 512 =
        numRsvdSecs bpb + (2 * bpbFatSize bpb + UInt32.ofNat (rootSecs bpb 512)) := by
    rw [rootSecs_512, show (2 : UInt32) = 1 + 1 from rfl, UInt32.add_mul, UInt32.one_mul]
    ac_rfl
  refine ⟨⟨count_rootSecs.mp ⟨ns, fuel, first⟩, clusters⟩, ?_⟩
  split at call
  · cases call
    exact ⟨by decide, rfl, rfl, rfl, rfl, rfl, rfl, rfl, rfl, rfl, rfl, start⟩
  · split at call
    · cases call
      exact ⟨by decide, rfl, rfl, rfl, rfl, rfl, rfl, rfl, rfl, rfl, rfl, start⟩
    · cases call
      exact ⟨by decide, rfl, rfl, rfl, rfl, rfl, rfl, rfl, rfl, rfl, rfl, start⟩

theorem fatDetectType_ends (sig : bpbSig bpb = 0xaa55) (counts : Counts bpb) :
    ∃ fuel fs' type, fatDetectType fuel bpb fs = some (fs', type) := by
  obtain ⟨ns, fuel, first⟩ := count_rootSecs.mpr counts.1
  have ns_ := count_rootSecs_eq ⟨fuel, first⟩
  have data : (((secPerClus bpb).toNat : Int) ≠ 0 ∨
      asInt (bpbSectors bpb - layoutSecs bpb) < 0) := by
    rcases counts.2 with nonzero | negative
    · refine Or.inl fun zero => nonzero (UInt32.toNat.inj ?_)
      rw [show (0 : UInt32).toNat = 0 from rfl]
      omega
    · exact Or.inr negative
  obtain ⟨nc, fuel', second⟩ := (count_ends_iff (Int.natCast_nonneg _)).mpr data
  rw [ns_] at first
  have result : ∃ result, fatDetectType (max fuel fuel') bpb fs = some result := by
    unfold fatDetectType
    rw [if_neg (not_not.mpr sig)]
    dsimp only
    rw [run_mono (Nat.le_max_left _ _) first, Option.bind_some]
    change ∃ result, (run (countPass (secPerClus bpb).toNat) (max fuel fuel')
      (asInt (bpbSectors bpb - layoutSecs bpb), 0)).bind _ = some result
    rw [run_mono (Nat.le_max_right _ _) second, Option.bind_some]
    split
    · exact ⟨_, rfl⟩
    · split <;> exact ⟨_, rfl⟩
  obtain ⟨⟨fs', type⟩, call⟩ := result
  exact ⟨_, fs', type, call⟩

/-- The boot sector of the first partition -/
def Card.bootSector (card : Card) : Nat → UInt8 := card.block (partOffset (card.block 0))

/-- A card whose first two blocks pass the checks that `fat_read_mbr` makes -/
structure Card.Recognised (card : Card) : Prop where
  reads : card.fault 0 = false ∧ card.fault 1 = false
  sign : mbrSign (card.block 0) = 0xaa55
  size : partSize (card.block 0) ≠ 0
  sig : bpbSig card.bootSector = 0xaa55

theorem layout_iff (bpb : Nat → UInt8) :
    numRsvdSecs bpb + (2 * bpbFatSize bpb + UInt32.ofNat (rootSecs bpb 512)) = layoutSecs bpb ↔
      SameLayout bpb := by
  unfold layoutSecs SameLayout
  rw [UInt32.add_assoc]
  exact UInt32.add_right_inj _

/-- After the checks only `fat_detect_type` is left. -/
theorem Card.Recognised.fatReadMbr (recognised : card.Recognised) :
    fatReadMbr card fuel fs =
      (fatDetectType fuel card.bootSector { fs with fsOffset := partOffset (card.block 0) }).map
        fun (fs, type) =>
          ({ fs with fatType := type }, if type = NO_TYPE then .error .detect else .ok ()) := by
  unfold Ipl.fatReadMbr
  rw [recognised.reads.1, recognised.reads.2]
  dsimp only
  rw [if_neg Bool.false_ne_true, if_neg (not_not.mpr recognised.sign), if_neg recognised.size,
    if_neg Bool.false_ne_true]
  rfl

/-- The data begin where `fat_read_mbr` says. -/
def FsInfoT.Consistent (fs : FsInfoT) : Prop :=
  fs.cluster2Start = fs.reservedSectors + fs.numberOfFats * fs.fatSize + fs.rootDirSectors ∧
    fs.dataSectors = fs.totalSectors - fs.cluster2Start

theorem Detected.consistent_iff {bpb : Nat → UInt8} (detected : Detected bpb fs fs') :
    fs'.Consistent ↔ SameLayout bpb := by
  rw [← layout_iff, ← detected.cluster2Start]
  have layout : fs'.reservedSectors + fs'.numberOfFats * fs'.fatSize + fs'.rootDirSectors =
      layoutSecs bpb := by
    rw [detected.reservedSectors, detected.numberOfFats, detected.fatSize,
      detected.rootDirSectors]
    rfl
  unfold FsInfoT.Consistent
  rw [layout, detected.dataSectors, detected.totalSectors]
  exact and_iff_left_of_imp fun same => by rw [same]

theorem fatReadMbr_consistent (recognised : card.Recognised)
    (call : fatReadMbr card fuel fs = some (fs', .ok ())) (consistent : fs'.Consistent) :
    Counts card.bootSector ∧ SameLayout card.bootSector := by
  rw [recognised.fatReadMbr] at call
  obtain ⟨⟨fs', type⟩, detect, same⟩ := Option.map_eq_some_iff.mp call
  obtain ⟨rfl, -⟩ := Prod.mk.inj same
  obtain ⟨counts, -, detected⟩ := fatDetectType_inv recognised.sig detect
  exact ⟨counts, detected.consistent_iff.mp consistent⟩

/-- `fat_read_mbr` ends and has the data begin where the layout says, exactly when its loops end and
the two layouts are the same. -/
theorem fatReadMbr_layout_iff (card : Card) (fs : FsInfoT) (recognised : card.Recognised) :
    (∃ fuel fs', fatReadMbr card fuel fs = some (fs', .ok ()) ∧ fs'.Consistent) ↔
      Counts card.bootSector ∧ SameLayout card.bootSector := by
  constructor
  · rintro ⟨fuel, fs', call, consistent⟩
    exact fatReadMbr_consistent recognised call consistent
  · rintro ⟨counts, agree⟩
    let start : FsInfoT := { fs with fsOffset := partOffset (card.block 0) }
    obtain ⟨fuel, fs', type, call⟩ : ∃ fuel fs' type,
        fatDetectType fuel card.bootSector start = some (fs', type) :=
      fatDetectType_ends recognised.sig counts
    obtain ⟨-, known, detected⟩ := fatDetectType_inv recognised.sig call
    refine ⟨fuel, { fs' with fatType := type }, ?_, detected.consistent_iff.mpr agree⟩
    rw [recognised.fatReadMbr]
    refine Option.map_eq_some_iff.mpr ⟨_, call, ?_⟩
    dsimp only
    rw [if_neg known]

/-- A card with a volume of `fats` FATs of one sector each, in sectors of 512 bytes -/
def cardWith (fats : UInt8) : Card where
  block b i :=
    if b = 0 then
      if i = 454 ∨ i = 458 then 1 else if i = 510 then 0x55 else if i = 511 then 0xAA else 0
    else
      if i = 12 then 2 else if i = 13 ∨ i = 14 ∨ i = 22 then 1 else if i = 16 then fats
      else if i = 17 then 16 else if i = 20 then 1
      else if i = 510 then 0x55 else if i = 511 then 0xAA else 0
  fault _ := false

def noInfo : FsInfoT := ⟨0, 0, 0, 0, 0, 0, 0, 0, 0, 0, 0, 0, 0, 0, 0⟩

theorem fatReadMbr_layout_two :
    ∃ fuel fs', fatReadMbr (cardWith 2) fuel noInfo = some (fs', .ok ()) ∧ fs'.Consistent :=
  (fatReadMbr_layout_iff (cardWith 2) noInfo ⟨by decide, by decide, by decide, by decide⟩).mpr
    ⟨by decide, by decide⟩

/-- With one FAT the data are looked for one sector too late. -/
theorem fatReadMbr_layout_one : (cardWith 1).Recognised ∧
    ¬∃ fuel fs', fatReadMbr (cardWith 1) fuel noInfo = some (fs', .ok ()) ∧ fs'.Consistent := by
  have recognised : (cardWith 1).Recognised := ⟨by decide, by decide, by decide, by decide⟩
  refine ⟨recognised, ?_⟩
  rintro ⟨fuel, fs', call, consistent⟩
  exact absurd (fatReadMbr_consistent recognised call consistent).2 (by decide)

/-! ## The volume -/

/-- The type of the volume, from the number that `fat_detect_type` returns -/
def fatTypeOf (type : UInt32) : FatType :=
  if type = 12 then .fat12 else if type = 16 then .fat16 else .fat32

/-- What the reader of files takes from `fs_info` -/
def FsInfoT.info (fs : FsInfoT) (reservedWord : fs.fat1Start.toNat < 65536)
    (clusterByte : fs.clusterSize.toNat < 256) : FsInfo where
  fsOffset := fs.fsOffset
  fatType := fatTypeOf fs.fatType
  rootDirSectors := fs.rootDirSectors
  clusterSize := fs.clusterSize
  fat1Start := fs.fat1Start
  rootDirStart := fs.rootDirStart
  cluster2Start := fs.cluster2Start
  reservedWord := reservedWord
  clusterByte := clusterByte

theorem Detected.bounds {bpb : Nat → UInt8} (detected : Detected bpb fs fs') :
    fs'.fat1Start.toNat < 65536 ∧ fs'.clusterSize.toNat < 256 := by
  rw [detected.fat1Start, detected.clusterSize]
  exact ⟨getWord_lt bpb 14, by simpa [secPerClus] using (bpb 13).toNat_lt⟩

theorem Detected.rootDir {bpb : Nat → UInt8} (detected : Detected bpb fs fs')
    (size : secSize bpb = 512) :
    fs'.rootDirSectors.toNat = (fs'.rootEntryCount.toNat * 32 + 511) / 512 := by
  have few : (numRootEnts bpb).toNat < 65536 := getWord_lt bpb 17
  rw [detected.rootDirSectors, detected.rootEntryCount, size, rootSecs]
  change (UInt32.ofNat (((numRootEnts bpb).toNat * 32 + 512 - 1) / 512)).toNat = _
  rw [UInt32.toNat_ofNat_of_lt' (show _ < 2 ^ 32 by omega)]
  omega

end Mx6xBsp.Ipl
