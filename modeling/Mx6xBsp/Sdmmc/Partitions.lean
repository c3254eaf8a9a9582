import Mathlib.Algebra.Group.Int.Defs
import Mathlib.Algebra.Group.Nat.Defs
import Mx6xBsp.Lib.Plans

/-!
# Erase and write protect requests to a partition

The entry points of `sim_sdmmc.c` that erase, trim or protect blocks of a partition,
down to the commands the card gets. The block numbers of the commands are those of
the hardware partition that is selected; `Card.exec` is what the card does.
-/

namespace Mx6xBsp.Sdmmc

open Plans

/-- `SDIO_DFLT_BLKSZ` -/
def DFLT_BLKSZ : Nat := 512

/-- The argument of `MMC_ERASE`. -/
inductive EraseArg
  | norm | secure | trim | secureTrim | secureTrimPurge | discard
  deriving DecidableEq

/-- Whole erase groups are erased, not blocks. -/
def EraseArg.grouped : EraseArg → Bool
  | .norm => true
  | .secure => true
  | _ => false

/-- What an error is returned for. -/
inductive EraseError
  | EIO | EINVAL | ENOTSUP
  deriving DecidableEq

/-- An SD card, or an MMC with `DEV_CAP_TRIM`, `DEV_CAP_SECURE` and `DEV_CAP_DISCARD`. -/
inductive CardKind
  | sd
  | mmc (trim secure discard : Bool)
  deriving DecidableEq

/-- What the card has reported: `DEV_CAP_HC` (it is addressed by blocks, not bytes), the length of a
block, and `erase_size` and `wp_size` in bytes. `bootBlocks` is the size of its boot partitions. -/
structure Card where
  kind : CardKind
  hc : Bool
  blksz : Nat
  eraseSize : Nat
  wpSize : Nat
  bootBlocks : Nat
  blksz_pos : 0 < blksz

namespace Card

variable (c : Card)

def trim : Bool :=
  match c.kind with
  | .sd => false
  | .mmc trim _ _ => trim

def secure : Bool :=
  match c.kind with
  | .sd => false
  | .mmc _ secure _ => secure

def discard : Bool :=
  match c.kind with
  | .sd => false
  | .mmc _ _ discard => discard

/-- `egs`, the blocks of an erase group -/
def egs : Nat := c.eraseSize / DFLT_BLKSZ

def wpGrpSize : Nat := c.wpSize / DFLT_BLKSZ

end Card

/-- A partition of a card, and the state of the driver when a request for it comes: whether the card
is present, and the hardware partition `pactive` that is selected. -/
structure Lun (c : Card) where
  config : Nat
  slba : Nat
  nlba : Nat
  present : Bool
  pactive : Nat
  nlba_lt : nlba < 2 ^ 32
  /-- The last block of the partition, `elba`, has a 32 bit number. -/
  fits : slba + nlba ≤ 2 ^ 32
  /-- A card that is addressed by bytes has 2 GB at most. -/
  addressable : c.hc = false → (slba + nlba) * c.blksz ≤ 2 ^ 31
  /-- An SD card has no hardware partitions. -/
  single : c.kind = .sd → pactive = config
  boot : config % 8 = 1 ∨ config % 8 = 2 → 0 < c.bootBlocks

/-! ## The card -/

inductive CardCmd
  /-- `ECSD_PART_CONFIG` -/
  | switchPartition (config : Nat)
  /-- `ECSD_USER_WP` -/
  | switchUserWp
  /-- `ECSD_BOOT_WP` -/
  | switchBootWp (mode : Nat)
  | tagStart (arg : Nat)
  | tagEnd (arg : Nat)
  | erase (flgs : EraseArg)
  | setWriteProt (arg : Nat)
  | clrWriteProt (arg : Nat)
  | sendWriteProt (arg : Nat)
  | sendStatus
  deriving DecidableEq

/-- The blocks from `lo` up to `hi` of a hardware partition. -/
structure Extent where
  part : Nat
  lo : Nat
  hi : Nat
  deriving DecidableEq

/-- What the card remembers: the selected partition, the first and the last block tagged, and the
extents whose blocks it has erased, trimmed, or changed the protection of. -/
structure CardState where
  pactive : Nat
  first : Nat
  last : Nat
  touched : List Extent

namespace Card

variable (c : Card)

/-- The block at an address. -/
def block (arg : Nat) : Nat := if c.hc then arg else arg / c.blksz

/-- What `MMC_ERASE` does: nothing when the tagged blocks are in the wrong order. -/
def erased (flgs : EraseArg) (s : CardState) : List Extent :=
  if s.last < s.first then []
  else if flgs.grouped then
    [⟨s.pactive % 8, s.first / c.egs * c.egs, (s.last / c.egs + 1) * c.egs⟩]
  else [⟨s.pactive % 8, s.first, s.last + 1⟩]

/-- The write protect group at an address. -/
def wpGroup (arg : Nat) (s : CardState) : Extent :=
  let start := c.block arg / c.wpGrpSize * c.wpGrpSize
  ⟨s.pactive % 8, start, start + c.wpGrpSize⟩

/-- Power-on protection of the boot area is for both boot partitions. -/
def bootArea (mode : Nat) : List Extent :=
  if mode % 2 = 1 then [⟨1, 0, c.bootBlocks⟩, ⟨2, 0, c.bootBlocks⟩] else []

def exec (s : CardState) : CardCmd → CardState
  | .switchPartition config => { s with pactive := config }
  | .switchUserWp => s
  | .switchBootWp mode => { s with touched := s.touched ++ c.bootArea mode }
  | .tagStart arg => { s with first := c.block arg }
  | .tagEnd arg => { s with last := c.block arg }
  | .erase flgs => { s with touched := s.touched ++ c.erased flgs s }
  | .setWriteProt arg => { s with touched := s.touched ++ [c.wpGroup arg s] }
  | .clrWriteProt arg => { s with touched := s.touched ++ [c.wpGroup arg s] }
  | .sendWriteProt _ => s
  | .sendStatus => s

def run (s : CardState) (cmds : List CardCmd) : CardState := cmds.foldl c.exec s

end Card

/-! ## The commands of the driver -/

abbrev CardPlan := Plan CardCmd EraseError

/-- The value of a 32 bit word as an `int`. -/
def int32 (n : Nat) : Int :=
  if n % 2 ^ 32 < 2 ^ 31 then (n % 2 ^ 32 : Nat) else (n % 2 ^ 32 : Nat) - 2 ^ 32

section Commands

variable (c : Card)

/-- `addr`, as it gets into the 32 bit argument of a command -/
def addrOf (lba : Nat) : Nat := (if c.hc then lba else lba * c.blksz) % 2 ^ 32

/-- `lba += nlba - 1`, a 64 bit number and an `int` -/
def endLba (lba : Nat) (nlba : Int) : Nat := ((lba + nlba - 1) % 2 ^ 64).toNat

def mmcSetPartition (pactive config : Nat) : CardPlan :=
  if pactive = config then .done else .send (.switchPartition config)

/-- `mmc_erase_timeout` divides by the erase group size. -/
def mmcEraseTimeout : CardPlan := if c.egs = 0 then .crash else .done

def mmcErase (pactive config : Nat) (flgs : EraseArg) (lba : Nat) (nlba : Int) : CardPlan :=
  (mmcSetPartition pactive config).andThen
    (if nlba = 0 then .done
    else
      (Plan.send (.tagStart (addrOf c lba))).andThen
        ((mmcEraseTimeout c).andThen
          ((Plan.send (.tagEnd (addrOf c (endLba lba nlba)))).andThen
            ((Plan.send (.erase flgs)).andThen (.send .sendStatus)))))

def sdErase (flgs : EraseArg) (lba : Nat) (nlba : Int) : CardPlan :=
  if nlba = 0 then .done
  else
    (Plan.send (.tagStart (addrOf c lba))).andThen
      ((Plan.send (.tagEnd (addrOf c (endLba lba nlba)))).andThen (.send (.erase flgs)))

def sdioErase (pactive config : Nat) (flgs : EraseArg) (lba : Nat) (nlba : Int) : CardPlan :=
  match c.kind with
  | .sd => sdErase c flgs lba nlba
  | .mmc _ _ _ => mmcErase c pactive config flgs lba nlba

/-- The addresses of the loop of `sdmmc_write_protect`. A turn takes at least one block off `nlba`,
so `nlba` turns are enough. -/
def wpAddrs (g : Nat) : Nat → Nat → Nat → List Nat
  | 0, _, _ => []
  | fuel + 1, lba, nlba =>
    if nlba = 0 then []
    else addrOf c lba :: wpAddrs g fuel ((lba + g) % 2 ^ 32) (nlba - min nlba g)

end Commands

/-! ## The requests -/

inductive WpAction
  | clr | set | prot | protType
  deriving DecidableEq

inductive EraseAction
  | normal | secure | trim | secureTrim | securePurge | discard
  deriving DecidableEq

inductive DsmOpt
  | trim | discard
  deriving DecidableEq

/-- The requests with their block address and count as the client gives them. An action or option of
another number is `none`. -/
inductive Request
  | writeSame (lba nlba : Nat) (unmap : Bool)
  | erase12 (lba nlba : Nat)
  | wpDevctl (action : Option WpAction) (mode lba nlba : Nat)
  | eraseDevctl (action : Option EraseAction) (lba nlba : Nat)
  | dsmDevctl (opt : Option DsmOpt) (ranges : List (Nat × Nat))

section Requests

variable {c : Card} (p : Lun c)

/-- `sdmmc_unit_ready` -/
def Lun.unitReady : Bool := p.present && p.nlba != 0

/-- The last block of the partition, `pend` -/
def Lun.pend : Nat := (p.slba + p.nlba + (2 ^ 32 - 1)) % 2 ^ 32

/-- `lba + nlba - 1` in `w` bits -/
def lastLba (w lba nlba : Nat) : Nat := (lba + nlba + (2 ^ w - 1)) % 2 ^ w

/-- `lba > pend || ( lba + nlba - 1 ) > pend` does not hold. -/
def Lun.Passes (w lba nlba : Nat) : Prop := lba ≤ p.pend ∧ lastLba w lba nlba ≤ p.pend

instance (w lba nlba : Nat) : Decidable (p.Passes w lba nlba) := by
  unfold Lun.Passes; infer_instance

def Lun.erase (flgs : EraseArg) (lba nlba : Nat) : CardPlan :=
  sdioErase c p.pactive p.config flgs lba (int32 nlba)

def sdmmcWriteSame (lba nlba : Nat) (unmap : Bool) : CardPlan :=
  if !p.unitReady then .reject EraseError.EIO
  else if !c.trim || !unmap then .reject .EINVAL
  else p.erase .trim ((lba + p.slba) % 2 ^ 64) nlba

def sdmmcErase12 (lba nlba : Nat) : CardPlan :=
  let lba' := (lba + p.slba) % 2 ^ 32
  if !p.unitReady then .reject EraseError.EIO
  else if ¬p.Passes 32 lba' nlba then .reject .EINVAL
  else if c.egs = 0 then .crash
  else if lba' % c.egs ≠ 0 ∨ nlba % c.egs ≠ 0 then .reject .EINVAL
  else p.erase .secure lba' nlba

/-- What `SET` switches before the groups are protected, for the kind of hardware partition. -/
def wpSwitch (config mode : Nat) : CardPlan :=
  match config % 8 with
  | 0 => .send .switchUserWp
  | 1 => .send (.switchBootWp mode)
  | 2 => .send (.switchBootWp mode)
  | _ => .reject .EINVAL

/-- `sdmmc_write_protect`; only power-on protection is left in `mode`. -/
def sdmmcWriteProtect (op : WpAction) (mode lba nlba : Nat) : CardPlan :=
  if c.wpGrpSize = 0 then .reject .ENOTSUP
  else if lba % c.wpGrpSize ≠ 0 then .reject .EINVAL
  else
    (mmcSetPartition p.pactive p.config).andThen
      (match op with
      | .set =>
        (wpSwitch p.config mode).andThen
          (.sendAll ((wpAddrs c c.wpGrpSize nlba lba nlba).map .setWriteProt))
      | .clr => .sendAll ((wpAddrs c c.wpGrpSize nlba lba nlba).map .clrWriteProt)
      | .prot => .send (.sendWriteProt (addrOf c lba))
      | .protType => .send (.sendWriteProt (addrOf c lba)))

def sdmmcWpDevctl (action : Option WpAction) (mode lba nlba : Nat) : CardPlan :=
  let nlba' := max 1 nlba % 2 ^ 32
  let slba' := (p.slba + lba) % 2 ^ 32
  if !p.unitReady then .reject EraseError.EIO
  else
    match action with
    | none => .reject .EINVAL
    | some op =>
      if ¬p.Passes 32 slba' nlba' then .reject .EINVAL
      else if c.kind = .sd then .reject .ENOTSUP
      else sdmmcWriteProtect p op (mode % 2) slba' nlba'

/-- An erase that is for whole groups only: a `status` of `EINVAL` unless the range is aligned. -/
def Lun.eraseAligned (flgs : EraseArg) (lba nlba : Nat) : CardPlan :=
  if c.egs = 0 then .crash
  else if lba % c.egs = 0 ∧ nlba % c.egs = 0 then p.erase flgs lba nlba
  else .reject .EINVAL

def sdmmcEraseDevctl (action : Option EraseAction) (lba nlba : Nat) : CardPlan :=
  let slba' := (p.slba + lba) % 2 ^ 64
  if !p.unitReady then .reject EraseError.EIO
  else if ¬p.Passes 64 slba' nlba then .reject .EINVAL
  else
    match action with
    | some .normal => p.eraseAligned .norm slba' nlba
    | some .secure => if c.secure then p.eraseAligned .secure slba' nlba else .reject .EINVAL
    | some .trim => if c.trim then p.erase .trim slba' nlba else .reject .EINVAL
    | some .secureTrim =>
      if c.secure && c.trim then p.erase .secureTrim slba' nlba else .reject .EINVAL
    | some .securePurge =>
      if c.secure && c.trim then p.erase .secureTrimPurge slba' nlba else .reject .EINVAL
    | some .discard => if c.trim then p.erase .discard slba' nlba else .reject .EINVAL
    | none => .reject .EINVAL

/-- `sdmmc_dsm`: range after range; the partition is selected after the first. -/
def sdmmcDsm (dtype : EraseArg) : Nat → List (Nat × Nat) → CardPlan
  | _, [] => .done
  | pactive, (lba, nlba) :: ranges =>
    let lba' := (p.slba + lba) % 2 ^ 64
    if ¬p.Passes 64 lba' nlba then .reject .EINVAL
    else
      (sdioErase c pactive p.config dtype lba' (int32 nlba)).andThen
        (sdmmcDsm dtype p.config ranges)

def sdmmcDsmDevctl (opt : Option DsmOpt) (ranges : List (Nat × Nat)) : CardPlan :=
  if !p.unitReady then .reject EraseError.EIO
  else
    match opt with
    | some .trim => if c.trim then sdmmcDsm p .trim p.pactive ranges else .reject .EINVAL
    | some .discard => if c.discard then sdmmcDsm p .discard p.pactive ranges else .reject .EINVAL
    | none => .reject .EINVAL

/-- What a request makes the driver do. -/
def Request.plan : Request → CardPlan
  | .writeSame lba nlba unmap => sdmmcWriteSame p lba nlba unmap
  | .erase12 lba nlba => sdmmcErase12 p lba nlba
  | .wpDevctl action mode lba nlba => sdmmcWpDevctl p action mode lba nlba
  | .eraseDevctl action lba nlba => sdmmcEraseDevctl p action lba nlba
  | .dsmDevctl opt ranges => sdmmcDsmDevctl p opt ranges

/-- The address and count have the width of the request's format. -/
def Request.WellFormed : Request → Prop
  | .writeSame lba nlba _ => lba < 2 ^ 64 ∧ nlba < 2 ^ 32
  | .erase12 lba nlba => lba < 2 ^ 32 ∧ nlba < 2 ^ 32
  | .wpDevctl _ _ lba nlba => lba < 2 ^ 64 ∧ nlba < 2 ^ 64
  | .eraseDevctl _ lba nlba => lba < 2 ^ 64 ∧ nlba < 2 ^ 64
  | .dsmDevctl _ ranges => ∀ r ∈ ranges, r.1 < 2 ^ 64 ∧ r.2 < 2 ^ 32

/-- The card as the request finds it. -/
def Lun.card : CardState := ⟨p.pactive, 0, 0, []⟩

/-- Nothing is divided by zero, and every block touched is one of the partition, whichever command
fails. -/
def Request.Confined (req : Request) : Prop :=
  (req.plan p).Safe fun cmds => ∀ e ∈ (c.run p.card cmds).touched, ∀ b, e.lo ≤ b → b < e.hi →
    e.part = p.config % 8 ∧ p.slba ≤ b ∧ b < p.slba + p.nlba

end Requests

end Mx6xBsp.Sdmmc
