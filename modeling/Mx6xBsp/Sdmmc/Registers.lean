import Mathlib.Algebra.Group.Nat.Defs
import Mathlib.Data.List.Basic

/-!
# The CID and CSD registers of a card

`sdio_extract_bits` and `sdio_device_errata` of `base.c`, and the parsers of
`sd.c` and `mmc.c`. A response is the array of words the host controller stores,
the most significant word first.
-/

namespace Mx6xBsp.Sdmmc

def SDIO_DFLT_BLKSZ : BitVec 32 := 512
def EOK : Nat := 0
def EINVAL : Nat := 22

abbrev Response := Nat → BitVec 32

/-- `sdio_extract_bits`; the mask is as wide as the word when `size` is 32. -/
def sdioExtractBits (data : Response) (bits start size : Nat) : BitVec 32 :=
  let idx := bits / 32 - start / 32 - 1
  let shift := start % 32
  let value := data idx >>> shift
  let value := if size + shift > 32 then value ||| data (idx - 1) <<< (32 - shift) else value
  value &&& BitVec.ofNat 32 (2 ^ size - 1)

/-- A field of a 128-bit response, stored in `w` bits. -/
def field (w : Nat) (rsp : Response) (start size : Nat) : BitVec w :=
  (sdioExtractBits rsp 128 start size).setWidth w

/-! ## Card identification -/

/-- `sdio_cid_t` -/
structure SdioCid where
  mid : BitVec 32
  oid : BitVec 32
  pnm : List (BitVec 8)
  prv : BitVec 32
  psn : BitVec 32
  month : BitVec 32
  year : BitVec 32

def SdioCid.zero : SdioCid := ⟨0, 0, List.replicate 8 0, 0, 0, 0, 0⟩

/-- The `n` characters of the name, and zeros up to the end of `pnm`. -/
def productName (rsp : Response) (n : Nat) : List (BitVec 8) :=
  (List.range n).map (fun idx => field 8 rsp (96 - idx * 8) 8) ++ List.replicate (8 - n) 0

def sdParseCid (rsp : Response) : SdioCid where
  mid := field 32 rsp 120 8
  oid := field 32 rsp 104 16
  pnm := productName rsp 5
  psn := field 32 rsp 24 32
  prv := field 32 rsp 40 8
  month := field 32 rsp 8 4
  year := field 32 rsp 12 8 + 2000

/-! ## Errata -/

def DEV_ERRATA_WILDCARD : BitVec 32 := 0xffffffff
def DEV_ERRATA_ACMD12 : BitVec 32 := 0x01
def DEV_ERRATA_DISCARD_SUP : BitVec 32 := 0x02

/-- `sdio_device_errata_t` -/
structure SdioDeviceErrata where
  pnm : List (BitVec 8)
  mid : BitVec 32
  oid : BitVec 32
  prvS : BitVec 32
  prvE : BitVec 32
  errata : BitVec 32
  rsettle : BitVec 32

/-- The characters of a name in a table. -/
def chars (s : String) : List (BitVec 8) := s.toList.map fun c => BitVec.ofNat 8 c.toNat

def sdErrata : List SdioDeviceErrata :=
  [⟨chars "SD0", 0x27, DEV_ERRATA_WILDCARD, 0, DEV_ERRATA_WILDCARD, 0, 50⟩]

def mmcErrata : List SdioDeviceErrata :=
  [⟨chars "MAG2GA", 0x15, 0, 0, 6, DEV_ERRATA_ACMD12 ||| DEV_ERRATA_DISCARD_SUP, 0⟩,
    ⟨chars "MAG2GA", 0x15, 0, 0, DEV_ERRATA_WILDCARD, DEV_ERRATA_DISCARD_SUP, 0⟩,
    ⟨chars "MBG4GA", 0x15, 0, 0, 6, DEV_ERRATA_ACMD12 ||| DEV_ERRATA_DISCARD_SUP, 0⟩,
    ⟨chars "MBG4GA", 0x15, 0, 0, DEV_ERRATA_WILDCARD, DEV_ERRATA_DISCARD_SUP, 0⟩,
    ⟨chars "MCG8GA", 0x15, 0, 0, DEV_ERRATA_WILDCARD, DEV_ERRATA_DISCARD_SUP, 0⟩,
    ⟨chars "SEM08G", 0x45, 0, 0, DEV_ERRATA_WILDCARD, DEV_ERRATA_DISCARD_SUP, 0⟩]

/-- The conditions of `sdio_device_errata` on one entry. -/
def SdioCid.matches (cid : SdioCid) (errata : SdioDeviceErrata) : Bool :=
  errata.pnm.isPrefixOf cid.pnm &&
    (cid.mid = errata.mid || errata.mid = DEV_ERRATA_WILDCARD) &&
    (cid.oid = errata.oid || errata.oid = DEV_ERRATA_WILDCARD) &&
    errata.prvS ≤ cid.prv && cid.prv ≤ errata.prvE

def sdioDeviceErrata (cid : SdioCid) (erratas : List SdioDeviceErrata) :
    Option SdioDeviceErrata :=
  erratas.find? cid.matches

/-- The `switch` of `mmc_parse_cid` over the `spec_vers` of the CSD. -/
def mmcCidFields (specVers : Nat) (rsp : Response) : Nat × SdioCid :=
  if specVers ≤ 1 then
    (EOK,
      { SdioCid.zero with
        mid := field 32 rsp 104 24
        pnm := productName rsp 7
        prv := field 32 rsp 40 8
        month := field 32 rsp 12 4
        year := field 32 rsp 8 4 + 1997 })
  else if specVers ≤ 4 then
    (EOK,
      { mid := field 32 rsp 120 8
        oid := field 32 rsp 104 8
        pnm := productName rsp 6
        prv := field 32 rsp 48 8
        psn := field 32 rsp 16 32
        month := field 32 rsp 12 4
        year := field 32 rsp 8 4 + 1997 })
  else (EINVAL, .zero)

/-- `mmc_parse_cid`; the entry found takes `HC_CAP_ACMD12` from the host for `DEV_ERRATA_ACMD12`
and gives the card `DEV_CAP_DISCARD` for `DEV_ERRATA_DISCARD_SUP`. -/
def mmcParseCid (specVers : Nat) (rsp : Response) :
    Nat × SdioCid × Option SdioDeviceErrata :=
  let (status, cid) := mmcCidFields specVers rsp
  (status, cid, sdioDeviceErrata cid mmcErrata)

/-! ## Card-specific data -/

/-- `sdio_csd_t` -/
structure SdioCsd where
  csdStructure : BitVec 8
  specVers : BitVec 8
  taac : BitVec 8
  nsac : BitVec 8
  tranSpeed : BitVec 8
  ccc : BitVec 16
  readBlLen : BitVec 8
  readBlPartial : BitVec 8
  writeBlkMisalign : BitVec 8
  readBlkMisalign : BitVec 8
  dsrImp : BitVec 8
  cSize : BitVec 32
  vddRCurrMin : BitVec 8
  vddRCurrMax : BitVec 8
  vddWCurrMin : BitVec 8
  vddWCurrMax : BitVec 8
  cSizeMult : BitVec 8
  eraseBlkEn : BitVec 8
  eraseGrpSize : BitVec 8
  eraseGrpMult : BitVec 8
  sectorSize : BitVec 8
  wpGrpSize : BitVec 8
  wpGrpEnable : BitVec 8
  r2wFactor : BitVec 8
  writeBlLen : BitVec 8
  writeBlPartial : BitVec 8
  writeProtect : BitVec 8
  dtrMax : BitVec 32
  blksz : BitVec 32
  sectors : BitVec 32

def SdioCsd.zero : SdioCsd :=
  ⟨0, 0, 0, 0, 0, 0, 0, 0, 0, 0, 0, 0, 0, 0, 0, 0, 0, 0, 0, 0, 0, 0, 0, 0, 0, 0, 0, 0, 0, 0⟩

/-- `sd_tran_speed_fu`, the same as `mmc_tran_speed_fu` -/
def tranSpeedFu : List (BitVec 32) := [10000, 100000, 1000000, 10000000, 0, 0, 0, 0]

/-- `sd_tran_speed_mf`, the same as `mmc_tran_speed_mf` -/
def tranSpeedMf : List (BitVec 32) :=
  [0, 10, 12, 13, 15, 20, 25, 30, 35, 40, 45, 50, 55, 60, 70, 80]

def SdioCsd.tranSpeedMax (csd : SdioCsd) : BitVec 32 :=
  tranSpeedFu.getD (csd.tranSpeed &&& 0x7).toNat 0 *
    tranSpeedMf.getD ((csd.tranSpeed >>> 3) &&& 0xf).toNat 0

/-- The end of both parsers: blocks of 512 bytes where the block length is a multiple of that. -/
def SdioCsd.withCapacity (csd : SdioCsd) (blksz csize csizem : BitVec 32) : SdioCsd :=
  let force := blksz > SDIO_DFLT_BLKSZ ∧ blksz % SDIO_DFLT_BLKSZ = 0
  { csd with
    blksz := if force then SDIO_DFLT_BLKSZ else blksz
    sectors := (if force then csize * (blksz / SDIO_DFLT_BLKSZ) else csize) * csizem
    dtrMax := csd.tranSpeedMax }

/-- The fields of `sd_parse_csd` in front of the `switch`. -/
def sdCsdHead (rsp : Response) : SdioCsd :=
  { SdioCsd.zero with
    csdStructure := field 8 rsp 126 2
    taac := field 8 rsp 112 8
    nsac := field 8 rsp 104 8
    tranSpeed := field 8 rsp 96 8
    ccc := field 16 rsp 84 12
    readBlLen := field 8 rsp 80 4
    readBlPartial := field 8 rsp 79 1
    writeBlkMisalign := field 8 rsp 78 1
    readBlkMisalign := field 8 rsp 77 1
    dsrImp := field 8 rsp 76 1 }

/-- The fields behind it. -/
def sdCsdTail (csd : SdioCsd) (rsp : Response) : SdioCsd :=
  { csd with
    eraseBlkEn := field 8 rsp 46 1
    sectorSize := field 8 rsp 39 7
    wpGrpSize := field 8 rsp 32 7
    wpGrpEnable := field 8 rsp 31 1
    r2wFactor := field 8 rsp 26 3
    writeBlLen := field 8 rsp 22 4
    writeBlPartial := field 8 rsp 21 1
    writeProtect := field 8 rsp 12 2 }

/-- `sd_parse_csd`; the flag is `DEV_CAP_HC`. -/
def sdParseCsd (rsp : Response) : Nat × SdioCsd × Bool :=
  let csd := sdCsdHead rsp
  match csd.csdStructure.toNat with
  | 0 =>
    let csd := { csd with
      cSize := field 32 rsp 62 12
      vddRCurrMin := field 8 rsp 59 3
      vddRCurrMax := field 8 rsp 56 3
      vddWCurrMin := field 8 rsp 53 3
      vddWCurrMax := field 8 rsp 50 3
      cSizeMult := field 8 rsp 47 3 }
    (EOK, (sdCsdTail csd rsp).withCapacity (1 <<< csd.readBlLen.toNat) (csd.cSize + 1)
      (1 <<< (csd.cSizeMult.toNat + 2)), false)
  | 1 =>
    let csd := { csd with cSize := field 32 rsp 48 22 }
    (EOK, (sdCsdTail csd rsp).withCapacity SDIO_DFLT_BLKSZ (csd.cSize + 1) 1024, true)
  | _ => (EINVAL, csd, false)

/-- The fields of `mmc_parse_csd` outside the `switch`. -/
def mmcCsdFields (rsp : Response) : SdioCsd :=
  { SdioCsd.zero with
    csdStructure := field 8 rsp 126 2
    specVers := field 8 rsp 122 4
    taac := field 8 rsp 112 8
    nsac := field 8 rsp 104 8
    tranSpeed := field 8 rsp 96 8
    ccc := field 16 rsp 84 12
    readBlLen := field 8 rsp 80 4
    readBlPartial := field 8 rsp 79 1
    writeBlkMisalign := field 8 rsp 78 1
    readBlkMisalign := field 8 rsp 77 1
    dsrImp := field 8 rsp 76 1
    cSize := field 32 rsp 62 12
    vddRCurrMin := field 8 rsp 59 3
    vddRCurrMax := field 8 rsp 56 3
    vddWCurrMin := field 8 rsp 53 3
    vddWCurrMax := field 8 rsp 50 3
    cSizeMult := field 8 rsp 47 3
    wpGrpSize := field 8 rsp 32 7
    wpGrpEnable := field 8 rsp 31 1
    r2wFactor := field 8 rsp 26 3
    writeBlLen := field 8 rsp 22 4
    writeBlPartial := field 8 rsp 21 1
    writeProtect := field 8 rsp 12 2 }

def mmcParseCsd (rsp : Response) : SdioCsd :=
  let csd := mmcCsdFields rsp
  let csd :=
    if csd.csdStructure.toNat ≤ 1 then
      { csd with
        eraseGrpMult := 1
        sectorSize := field 8 rsp 42 5
        eraseGrpSize := field 8 rsp 37 5 }
    else
      { csd with
        eraseGrpMult := field 8 rsp 37 5
        eraseGrpSize := field 8 rsp 42 5 }
  csd.withCapacity (1 <<< csd.readBlLen.toNat) (csd.cSize + 1) (1 <<< (csd.cSizeMult.toNat + 2))

end Mx6xBsp.Sdmmc
