import Mathlib.Algebra.Group.Nat.Defs
import Mathlib.Data.List.Basic
import Mx6xBsp.Lib.Runs

/-!
# The FAT reader of the IPL

`fat-fs.c` for a volume that `fat_read_mbr` has recognised. One block buffer
takes the sectors of the directory and those of the FAT; the FAT sector it holds
is remembered in `g_fat_sector`, and `cache_valid` tells whether that counts.
What the functions do to the buffer and the card is kept in `trace`.
-/

namespace Mx6xBsp.Ipl

open Runs

def SECTOR_SIZE : Nat := 512
def ENT_UNUSED : UInt8 := 0xE5
def ENT_END : UInt8 := 0x00

inductive FatType
  | fat12
  | fat16
  | fat32
deriving DecidableEq

/-- `fs_info`; the number of reserved sectors is a word of the boot sector, the size of a cluster a
byte. -/
structure FsInfo where
  fsOffset : UInt32
  fatType : FatType
  rootDirSectors : UInt32
  clusterSize : UInt32
  fat1Start : UInt32
  rootDirStart : UInt32
  cluster2Start : UInt32
  reservedWord : fat1Start.toNat < 65536
  clusterByte : clusterSize.toNat < 256

theorem FsInfo.reservedWord_one : (1 : UInt32).toNat < 65536 := by decide

theorem FsInfo.clusterByte_one : (1 : UInt32).toNat < 256 := by decide

/-- A volume on a card: `block` is what the card holds, and `fault n` is there if the read number
`n` fails, with what the transfer leaves in the buffer. -/
structure Volume where
  info : FsInfo
  block : UInt32 → Nat → UInt8
  fault : Nat → Option (Nat → UInt8)

/-- What is done to the block buffer, its tag, the card and the memory. -/
inductive FatOp
  | getFatEntry (cluster : UInt32)
  | readDir (sector : UInt32)
  | start
  | readFile (sector : UInt32) (buf cnt : Nat)

/-- The statics of `fat-fs.c`, the memory files are copied to, the number of reads, and what has
been done so far. -/
structure Fat where
  blk : Nat → UInt8
  gFatSector : UInt32
  cacheValid : Bool
  mem : Nat → UInt8
  reads : Nat
  trace : List FatOp

def Fat.boot (blk mem : Nat → UInt8) : Fat := ⟨blk, -1, false, mem, 0, []⟩

/-- `len` bytes of `data` over what `m` holds from `base` on. -/
def overlay (base len : Nat) (data m : Nat → UInt8) (a : Nat) : UInt8 :=
  if base ≤ a ∧ a < base + len then data (a - base) else m a

/-- `GET_WORD`, and a load of a short -/
def GET_WORD (m : Nat → UInt8) (i : Nat) : UInt32 := (m i).toUInt32 + ((m (i + 1)).toUInt32 <<< 8)

/-- `GET_LONG`, and a load of a long -/
def GET_LONG (m : Nat → UInt8) (i : Nat) : UInt32 :=
  (m i).toUInt32 + ((m (i + 1)).toUInt32 <<< 8) + ((m (i + 2)).toUInt32 <<< 16) +
    ((m (i + 3)).toUInt32 <<< 24)

variable (vol : Volume) (s : Fat)

/-- The bytes of the partition from a sector on. -/
def Volume.bytes (sector : UInt32) (i : Nat) : UInt8 :=
  vol.block (sector + vol.info.fsOffset + UInt32.ofNat (i / SECTOR_SIZE)) (i % SECTOR_SIZE)

/-- `read_fsector`: whether it works, and what it leaves in the buffer. -/
def Volume.readFsector (reads : Nat) (sector : UInt32) : Bool × (Nat → UInt8) :=
  match vol.fault reads with
  | none => (true, vol.bytes sector)
  | some rest => (false, rest)

/-- A read of `cnt` sectors into the block buffer. -/
def Fat.readBlk (sector : UInt32) (cnt : Nat) : Fat × Bool :=
  let read := vol.readFsector s.reads sector
  ({ s with blk := overlay 0 (cnt * SECTOR_SIZE) read.2 s.blk, reads := s.reads + 1 }, read.1)

/-! ## The FAT -/

def Fat.getFatEntry12 (cluster : UInt32) : Fat × UInt32 :=
  let fatSector := vol.info.fat1Start + (cluster + cluster / 2) / 512
  let fatOffs := ((cluster + cluster / 2) % 512).toNat
  let (s, ok) := s.readBlk vol fatSector 2
  if ok then
    (s, if cluster &&& 1 ≠ 0 then GET_WORD s.blk fatOffs >>> 4
      else GET_WORD s.blk fatOffs &&& 0xfff)
  else (s, 0)

/-- The common text of `get_fat_entry16` and `get_fat_entry32`, for entries of `width` bytes. -/
def Fat.getCachedEntry (width : UInt32) (load : (Nat → UInt8) → Nat → UInt32) (cluster : UInt32) :
    Fat × UInt32 :=
  let fatSector := vol.info.fat1Start + cluster * width / 512
  let fatOffs := (cluster * width % 512).toNat
  if s.cacheValid && s.gFatSector == fatSector then (s, load s.blk fatOffs)
  else
    let (s, ok) := s.readBlk vol fatSector 1
    if ok then ({ s with gFatSector := fatSector }, load s.blk fatOffs) else (s, 0)

def Fat.getFatEntry16 (cluster : UInt32) : Fat × UInt32 := s.getCachedEntry vol 2 GET_WORD cluster

def Fat.getFatEntry32 (cluster : UInt32) : Fat × UInt32 :=
  s.getCachedEntry vol 4 (fun m i => GET_LONG m i &&& 0x0fffffff) cluster

/-- The `switch` of `fat_get_fat_entry` -/
def Fat.switchFatEntry (cluster : UInt32) : Fat × UInt32 :=
  match vol.info.fatType with
  | .fat12 => s.getFatEntry12 vol cluster
  | .fat16 => s.getFatEntry16 vol cluster
  | .fat32 => s.getFatEntry32 vol cluster

/-- The effect of an operation. -/
def Fat.next (s : Fat) (op : FatOp) : Fat :=
  let t : Fat := match op with
    | .getFatEntry cluster => (s.switchFatEntry vol cluster).1
    | .readDir sector => (s.readBlk vol sector 1).1
    | .start => { s with cacheValid := true, gFatSector := -1 }
    | .readFile sector buf cnt =>
      { s with
        mem := overlay buf (cnt * SECTOR_SIZE) (vol.readFsector s.reads sector).2 s.mem
        reads := s.reads + 1 }
  { t with trace := s.trace ++ [op] }

def Fat.fatGetFatEntry (cluster : UInt32) : Fat × UInt32 :=
  (s.next vol (.getFatEntry cluster), (s.switchFatEntry vol cluster).2)

/-- `read_fsector` of a sector of the directory -/
def Fat.readDir (sector : UInt32) : Fat × Bool :=
  (s.next vol (.readDir sector), (vol.readFsector s.reads sector).1)

/-- `read_fsector` of sectors of a file -/
def Fat.readFile (sector : UInt32) (buf cnt : Nat) : Fat × Bool :=
  (s.next vol (.readFile sector buf cnt), (vol.readFsector s.reads sector).1)

def FsInfo.endOfFile (info : FsInfo) (cluster : UInt32) : Bool :=
  match info.fatType with
  | .fat12 => cluster == 0x0ff8 || cluster == 0x0fff
  | .fat16 => cluster == 0xfff8 || cluster == 0xffff
  | .fat32 => cluster == 0x0ffffff8 || cluster == 0x0fffffff

def FsInfo.cluster2fsector (info : FsInfo) (cluster : UInt32) : UInt32 :=
  info.cluster2Start + (cluster - 2) * info.clusterSize

/-! ## Files -/

/-- The bytes of a cluster. -/
def FsInfo.cbytes (info : FsInfo) : Nat := info.clusterSize.toNat * SECTOR_SIZE

/-- The inner loop of `fat_copy_file`, which puts contiguous clusters together: the cluster to go
on with and the length of the transfer. A length that an `int` does not hold has no meaning. -/
def consolidate (sz : Nat) : Nat → UInt32 → Nat → Fat → Option (Fat × UInt32 × Nat)
  | 0, _, _, _ => none
  | fuel + 1, currC, txf, s =>
    if sz > txf then
      let (s, nextC) := s.fatGetFatEntry vol currC
      if nextC = currC + 1 ∧ txf > 20 * SECTOR_SIZE then
        if txf + vol.info.cbytes < 2 ^ 31 then
          consolidate sz fuel nextC (txf + vol.info.cbytes) s
        else none
      else some (s, nextC, txf)
    else some (s, currC, txf)

/-- The outer loop of `fat_copy_file`; what is left to copy is zero where `sz` is negative. -/
def copyLoop : Nat → UInt32 → Nat → Nat → Fat → Option (Fat × Bool)
  | 0, _, _, _, _ => none
  | fuel + 1, currC, sz, buf, s =>
    if sz > 0 then
      match consolidate vol sz fuel currC vol.info.cbytes s with
      | none => none
      | some (s, nextC, txf) =>
        let (s, ok) := s.readFile vol (vol.info.cluster2fsector currC) buf (txf / SECTOR_SIZE)
        if ok then copyLoop fuel nextC (sz - txf) (buf + txf) s else some (s, false)
    else some (s, true)

/-- `fat_copy_file`; the size is taken for a signed number. -/
def fatCopyFile (fuel : Nat) (cluster size : UInt32) (buf : Nat) (s : Fat) : Option (Fat × Bool) :=
  copyLoop vol fuel cluster (if size.toNat < 2 ^ 31 then size.toNat else 0) buf
    (s.next vol .start)

/-! ## Directories -/

/-- `GET_CLUSTER` of the entry at `ent` -/
def GET_CLUSTER (blk : Nat → UInt8) (ent : Nat) : UInt32 :=
  GET_WORD blk (ent + 26) ||| (GET_WORD blk (ent + 20) <<< 16)

/-- `clust_lo` of the entry at `ent` -/
def clustLo (blk : Nat → UInt8) (ent : Nat) : UInt32 := GET_WORD blk (ent + 26)

/-- The comparison of `name` with `short_name`. -/
def nameMatches (blk : Nat → UInt8) (ent : Nat) (name : List UInt8) : Bool :=
  (List.range (min name.length 11)).all fun i => name.getD i 0 == blk (ent + i)

/-- How the search of a sector ends: with a file, at the end of the directory, or with neither. -/
inductive Scan
  | found (cluster size : UInt32)
  | done
  | more

/-- The loop over the `n` entries of a sector from `ent` on. -/
def scanEntries (cluster : Nat → UInt32) (blk : Nat → UInt8) (name : List UInt8) : Nat → Nat → Scan
  | 0, _ => .more
  | n + 1, ent =>
    if blk ent = ENT_END then .done
    else if blk ent = ENT_UNUSED then scanEntries cluster blk name n (ent + 32)
    else if nameMatches blk ent name ∧ cluster ent ≠ 0 then
      .found (cluster ent) (GET_LONG blk (ent + 28))
    else scanEntries cluster blk name n (ent + 32)

/-- `copy_named_file_fat16` from `dirSector` on -/
def copyNamedFileFat16 (buf : Nat) (name : List UInt8) :
    Nat → UInt32 → Fat → Option (Fat × Bool)
  | 0, _, _ => none
  | fuel + 1, dirSector, s =>
    if dirSector < vol.info.rootDirStart + vol.info.rootDirSectors then
      let (s, ok) := s.readDir vol dirSector
      if ok then
        match scanEntries (clustLo s.blk) s.blk name (SECTOR_SIZE / 32) 0 with
        | .found cluster size => fatCopyFile vol fuel cluster size buf s
        | .done => some (s, false)
        | .more => copyNamedFileFat16 buf name fuel (dirSector + 1) s
      else some (s, false)
    else some (s, false)

/-- The loop of `copy_named_file_fat32` over the `n` sectors of a cluster from `sector` on, with
what it returns, if it does. -/
def searchCluster (buf : Nat) (name : List UInt8) (fuel : Nat) :
    Nat → UInt32 → Fat → Option (Fat × Option Bool)
  | 0, _, s => some (s, none)
  | n + 1, sector, s =>
    let (s, ok) := s.readDir vol sector
    if ok then
      match scanEntries (GET_CLUSTER s.blk) s.blk name (SECTOR_SIZE / 32) 0 with
      | .found cluster size =>
        (fatCopyFile vol fuel cluster size buf s).map fun (s, ok) => (s, some ok)
      | .done => some (s, none)
      | .more => searchCluster buf name fuel n (sector + 1) s
    else some (s, some false)

/-- `copy_named_file_fat32` from `dirClust` on -/
def copyNamedFileFat32 (buf : Nat) (name : List UInt8) :
    Nat → UInt32 → Fat → Option (Fat × Bool)
  | 0, _, _ => none
  | fuel + 1, dirClust, s =>
    if vol.info.endOfFile dirClust then some (s, false)
    else
      match searchCluster vol buf name fuel vol.info.clusterSize.toNat
        (vol.info.cluster2fsector dirClust) s with
      | none => none
      | some (s, some result) => some (s, result)
      | some (s, none) =>
        let (s, dirClust) := s.fatGetFatEntry vol dirClust
        copyNamedFileFat32 buf name fuel dirClust s

def fatCopyNamedFile (fuel : Nat) (buf : Nat) (name : List UInt8) (s : Fat) :
    Option (Fat × Bool) :=
  match vol.info.fatType with
  | .fat12 | .fat16 => copyNamedFileFat16 vol buf name fuel vol.info.rootDirStart s
  | .fat32 => copyNamedFileFat32 vol buf name fuel vol.info.rootDirStart s

inductive IplOp
  | getFatEntry (cluster : UInt32)
  | readDir (sector : UInt32)
  | copyNamed (buf : Nat) (name : List UInt8)

/-- What the IPL does with the volume; a call of `fat_copy_named_file` counts once it is
complete. -/
def IplStep (s : Fat) : IplOp → Fat → Prop
  | .getFatEntry cluster, t => t = (s.fatGetFatEntry vol cluster).1
  | .readDir sector, t => t = (s.readDir vol sector).1
  | .copyNamed buf name, t => ∃ fuel ok, fatCopyNamedFile vol fuel buf name s = some (t, ok)

end Mx6xBsp.Ipl
