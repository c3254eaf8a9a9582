import Mx6xBsp.Lib.Words
import Mx6xBsp.Startup.Syspage

/-!
# Restoring an image file system

The functions of `restore_ifs.c` and `copy_memory`. After a warm boot the image
may still be in RAM; the restore info left by the boot before tells how to put
its writable data back (`rifs_restore_ifs`), or, for the second image, how long
it is (`rifs_restore_ifs2`). The image header, the ELF headers and the
compression flag are laid out by headers that are not part of this tree:
`ImageLayout` stands for them. Debug output is left out.
-/

namespace Mx6xBsp.Startup

open Words

/-! ## Constants and structures -/

def RIFS_FLAG_CKSUM : Nat := 0x02

def RIFS_FLAG_IFS2_RESTORE : Nat := 0x08

def RIFS_FLAG_IFS2_CKSUM : Nat := 0x10

def RIFS_FLAG_IFS2_SRC : Nat := 0x20

def RIFS_FLAG_IFS2_DST : Nat := 0x40

/-- `"rifsboot"` -/
def RIFS_SIGNATURE : List UInt8 := [114, 105, 102, 115, 98, 111, 111, 116]

def RIFS_MAX_BOOTABLE : Nat := 5

/-- `struct restore_ifs_info` is packed: 8 bytes of signature, `cksum`, `image_size`, five times
`offset`, `size` and `data`, and `numboot`. -/
def sizeofRestoreIfsInfo : Nat := 80

/-- `struct restore_ifs2_info`: signature, `cksum` and `image_size`. -/
def sizeofRestoreIfs2Info : Nat := 16

def infoCksum (info : Nat) : Nat := info + 8

def infoImageSize (info : Nat) : Nat := info + 12

def infoElf (info i : Nat) : Nat := info + 16 + 12 * i

def infoNumboot (info : Nat) : Nat := info + 76

/-- What `sys/image.h`, `sys/startup.h` and the ELF header fix: signatures, flag values and the
offsets of fields. -/
structure ImageLayout where
  imageSignature : List UInt8
  imageSize : Nat
  compressMask : Nat
  elfMagic : List UInt8
  ePhoff : Nat
  ePhnum : Nat
  ePhentsize : Nat
  pType : Nat
  pOffset : Nat
  pFilesz : Nat
  pFlags : Nat
  ptLoad : Nat
  pfW : Nat

/-- The fields of the startup header that `restore_ifs.c` reads. -/
structure RestoreHeader where
  startupSize : Nat
  storedSize : Nat
  imagePaddr : Nat
  imagefsPaddr : Nat
  flags1 : Nat

/-- The globals of `restore_ifs.c`. `mdriverMax` is `mdriver_max` if the image has
mini-drivers. -/
structure RifsState where
  ram : RamState
  shdr : RestoreHeader
  rifsFlag : Nat
  rifsInfo : Nat
  rifs2Info : Nat
  ifs2PaddrSrc : Nat
  ifs2PaddrDst : Nat
  ifs2Size : Nat
  mdriverMax : Option Nat

/-- The flag test `rifs_flag & flag`. -/
def RifsState.has (st : RifsState) (flag : Nat) : Bool := st.rifsFlag &&& flag ≠ 0

def RifsState.mem (st : RifsState) : Mem := st.ram.mem

def RifsState.setMem (st : RifsState) (mem : Mem) : RifsState :=
  { st with ram := { st.ram with mem := mem } }

/-! ## Memory -/

/-- The loop of `copy_memory`, in pieces of at most `max` bytes. -/
def copyLoop (max : Nat) : Nat → Mem → Nat → Nat → Nat → Except Crash Mem
  | 0, _, _, _, _ => .error .diverges
  | fuel + 1, mem, dst, src, len =>
    let amount := if len > max then max else len
    let mem := mem.move dst src amount
    let len := len - amount
    if len = 0 then .ok mem
    else copyLoop max fuel mem (paddr (dst + amount)) (paddr (src + amount)) len

def copyMemory (mdriverMax : Option Nat) (mem : Mem) (dst src len : Nat) : Except Crash Mem :=
  copyLoop (mdriverMax.getD len) (len + 1) mem dst src len

/-- A 32-bit value passed as a `long`. -/
def toLong (n : Nat) : Int := if n < 2147483648 then n else (n : Int) - 4294967296

/-- `rifs_checksum`: one word for as long as `len > 0`, with the result as its 32-bit pattern. -/
def rifsChecksum (mem : Mem) (ptr : Nat) (len : Int) : Nat := wordSum mem ptr ((len.toNat + 3) / 4)

/-- The value that brings a sum to zero: `0xFFFFFFFF & (0x100000000ULL - sum)`. -/
def cksumOf (sum : Nat) : Nat := (4294967296 - sum) % 4294967296

/-- `data` stands at `addr`. -/
def standsAt (mem : Mem) (addr : Nat) (data : List UInt8) : Bool :=
  (List.range data.length).all fun i => data.getD i 0 = mem (addr + i)

/-- `check_ifs_signature` returns 0. -/
def checkIfsSignature (L : ImageLayout) (mem : Mem) (ifsHdr : Nat) : Bool :=
  standsAt mem ifsHdr L.imageSignature

/-- `check_rifs_signature` returns 0. -/
def checkRifsSignature (mem : Mem) (info : Nat) : Bool :=
  standsAt mem info RIFS_SIGNATURE && rifsChecksum mem info sizeofRestoreIfsInfo == 0

/-! ## The second image -/

def rifsRestoreIfs2 (L : ImageLayout) (st : RifsState) : Except Crash (RifsState × Int) := do
  let (ram, paddr) ← allocRam st.ram NULL_PADDR sizeofRestoreIfs2Info 8
  let st := { st with ram := ram, rifs2Info := paddr }
  if checkIfsSignature L st.mem st.ifs2PaddrDst ∧
      rifsChecksum st.mem st.rifs2Info sizeofRestoreIfs2Info = 0 then
    if st.has RIFS_FLAG_IFS2_CKSUM then
      if rifsChecksum st.mem st.ifs2PaddrDst
          (toLong (word32 st.mem (infoImageSize st.rifs2Info))) ≠ 0 then return (st, -1)
      else return (st, 0)
    else return (st, 0)
  else return (st, -1)

/-- What `rifs_load_ifs2` leaves at `rifs2_info` for the next boot. -/
def saveIfs2Info (L : ImageLayout) (mem : Mem) (info ifs2Hdr : Nat) : Mem :=
  let mem := mem.write info RIFS_SIGNATURE
  let mem := put32 mem (infoImageSize info) (word32 mem (ifs2Hdr + L.imageSize))
  let mem := put32 mem (infoCksum info) 0
  put32 mem (infoCksum info) (cksumOf (rifsChecksum mem info sizeofRestoreIfs2Info))

def rifsLoadIfs2 (L : ImageLayout) (st : RifsState) : Except Crash RifsState := do
  let src := if st.has RIFS_FLAG_IFS2_SRC then st.ifs2PaddrSrc
    else paddrSub (paddr (st.shdr.imagefsPaddr + st.shdr.storedSize)) st.shdr.startupSize
  let st := { st with ifs2PaddrSrc := src }
  let reserved := if st.has RIFS_FLAG_IFS2_DST
    then (allocRam st.ram st.ifs2PaddrDst st.ifs2Size 0x1000).map Prod.fst else .ok st.ram
  let ram ← reserved
  let mem ← copyMemory st.mdriverMax ram.mem st.ifs2PaddrDst src st.ifs2Size
  let mem := if st.has RIFS_FLAG_IFS2_RESTORE then saveIfs2Info L mem st.rifs2Info st.ifs2PaddrDst
    else mem
  return { st with ram := { ram with mem := mem } }

/-- The destination `load_ifs2_nonbootable` settles on. -/
def placeIfs2 (st : RifsState) : Except Crash RifsState :=
  if st.has RIFS_FLAG_IFS2_DST then .ok st
  else do
    let (ram, paddr) ← allocRam st.ram NULL_PADDR st.ifs2Size 0x1000
    return { st with ram := ram, ifs2PaddrDst := paddr }

def loadIfs2Nonbootable (L : ImageLayout) (st : RifsState) : Except Crash RifsState := do
  let st ← placeIfs2 st
  if st.has RIFS_FLAG_IFS2_RESTORE then
    let (st, status) ← rifsRestoreIfs2 L st
    if status = -1 then rifsLoadIfs2 L st else return st
  else rifsLoadIfs2 L st

/-! ## The bootable image -/

def rifsInit (mem : Mem) (info : Nat) : Mem :=
  let mem := mem.write info RIFS_SIGNATURE
  let mem := put32 mem (infoCksum info) 0
  let mem := put32 mem (infoNumboot info) 0
  let mem := put32 mem (infoImageSize info) 0
  (List.range RIFS_MAX_BOOTABLE).foldl (fun mem i =>
    put32 (put32 (put32 mem (infoElf info i) 0) (infoElf info i + 4) 0) (infoElf info i + 8) 0) mem

/-- The loop of `rifs_restore_ifs` over the saved executables. The counter stays below the
32-bit `numboot`. -/
def restoreLoop (L : ImageLayout) (st : RifsState) : Nat → Nat → Mem → Except Crash Mem
  | 0, _, _ => .error .diverges
  | fuel + 1, i, mem =>
    if i < word32 mem (infoNumboot st.rifsInfo) then do
      let elf := infoElf st.rifsInfo i
      let offset := word32 mem elf
      let dst := paddr (st.shdr.imagePaddr + st.shdr.startupSize + offset)
      let src := if st.shdr.flags1 &&& L.compressMask ≠ 0 then word32 mem (elf + 8)
        else paddr (st.shdr.imagefsPaddr + offset)
      let mem ← copyMemory st.mdriverMax mem dst src (word32 mem (elf + 4))
      restoreLoop L st fuel (i + 1) mem
    else .ok mem

def rifsRestoreIfs (L : ImageLayout) (st : RifsState) (ifsPaddr : Nat) :
    Except Crash (RifsState × Int) := do
  let (ram, paddr) ← allocRam st.ram NULL_PADDR sizeofRestoreIfsInfo 8
  let st := { st with ram := ram, rifsInfo := paddr }
  if checkIfsSignature L st.mem ifsPaddr ∧ checkRifsSignature st.mem st.rifsInfo then
    let mem ← restoreLoop L st PADDR_SPACE 0 st.mem
    let corrupt := st.has RIFS_FLAG_CKSUM ∧
      rifsChecksum mem ifsPaddr (toLong (word32 mem (infoImageSize st.rifsInfo))) ≠ 0
    return (st.setMem (rifsInit mem st.rifsInfo), if corrupt then -1 else 0)
  else return (st.setMem (rifsInit st.mem st.rifsInfo), -1)

/-- The loop of `rifs_readelf` over the program headers, from offset `off` on. -/
def findWritable (L : ImageLayout) (mem : Mem) (ptr entsize : Nat) : Nat → Nat → Option Nat
  | 0, _ => none
  | n + 1, off =>
    let phdr := ptr + off
    if word32 mem (phdr + L.pType) = L.ptLoad ∧ word32 mem (phdr + L.pFlags) &&& L.pfW ≠ 0 then
      some phdr
    else findWritable L mem ptr entsize n (paddr (off + entsize))

def rifsReadelf (L : ImageLayout) (mem : Mem) (ptr : Nat) : Option Nat :=
  if standsAt mem ptr L.elfMagic then
    findWritable L mem ptr (word16 mem (ptr + L.ePhentsize)) (word16 mem (ptr + L.ePhnum))
      (word32 mem (ptr + L.ePhoff))
  else none

/-- `rifs_save_elf32data`; `fileOffset` is `dir->file.offset`. -/
def rifsSaveElf32data (L : ImageLayout) (st : RifsState) (addr fileOffset numboot : Nat) :
    Except Crash (RifsState × Int) :=
  if numboot ≥ RIFS_MAX_BOOTABLE then .ok (st, -1)
  else match rifsReadelf L st.mem addr with
    | none => .ok (st, -1)
    | some phdr => do
        let elf := infoElf st.rifsInfo numboot
        let counter := infoNumboot st.rifsInfo
        let mem := put32 st.mem counter (word32 st.mem counter + 1)
        let mem := put32 mem elf (fileOffset + word32 mem (phdr + L.pOffset))
        let mem := put32 mem (elf + 4) (word32 mem (phdr + L.pFilesz))
        let st := st.setMem mem
        if st.shdr.flags1 &&& L.compressMask ≠ 0 then
          let (ram, data) ← allocRam st.ram NULL_PADDR (word32 mem (elf + 4)) 8
          let mem := put32 ram.mem (elf + 8) data
          let mem ← copyMemory st.mdriverMax mem (word32 mem (elf + 8))
            (paddr (st.shdr.imagePaddr + st.shdr.startupSize + word32 mem elf))
            (word32 mem (elf + 4))
          return ({ st with ram := { ram with mem := mem } }, 0)
        else return (st, 0)

def rifsSetCksum (L : ImageLayout) (st : RifsState) (ifsHdr : Nat) : RifsState :=
  let mem := put32 st.mem (infoImageSize st.rifsInfo) (word32 st.mem (ifsHdr + L.imageSize))
  st.setMem (put32 mem (infoCksum st.rifsInfo)
    (cksumOf (rifsChecksum mem st.rifsInfo sizeofRestoreIfsInfo)))

end Mx6xBsp.Startup
