import Mathlib.Algebra.Group.Int.Defs
import Mathlib.Algebra.Group.Nat.Defs
import Mathlib.Data.Int.Notation
import Mathlib.Data.List.Basic

/-!
# The SPI resource manager

The requests of a client to the SPI master (`spi/master`), each on behalf of an open
context (`ocb`): read and write, the five messages, devctl and close. A context has a
default chip, and a chip can be locked by one context. What the low-level driver, the
allocator and the resource manager library answer is part of a request.
-/

namespace Mx6xBsp.Spi

def EOK : Nat := 0
def EPERM : Nat := 1
def EIO : Nat := 5
def EAGAIN : Nat := 11
def ENOMEM : Nat := 12
def EFAULT : Nat := 14
def ENODEV : Nat := 19
def EINVAL : Nat := 22
def ENOTSUP : Nat := 48
def ENOSYS : Nat := 89

def SPI_DEV_ID_MASK : BitVec 32 := 0xFFFF
def SPI_DEV_ID_NONE : BitVec 32 := SPI_DEV_ID_MASK
def SPI_DEV_DEFAULT : BitVec 32 := 1 <<< 31
def SPI_DEV_LOCK : BitVec 32 := 1 <<< 30
def SPI_DEV_UNLOCK : BitVec 32 := 1 <<< 29
def SPI_MODE_LOCKED : BitVec 32 := 1 <<< 31

def SPI_DEV_READ : BitVec 32 := 1 <<< 16
def SPI_DEV_WRITE : BitVec 32 := 2 <<< 16
def SPI_DEV_EXCHANGE : BitVec 32 := 3 <<< 16

def sizeofCfg : Nat := 8
def sizeofDmaPaddr : Nat := 16

/-- `bits & mask` as a condition -/
def has (bits mask : BitVec 32) : Bool := bits &&& mask != 0

/-- The chip of a device number -/
def chipOf (device : BitVec 32) : BitVec 32 := device &&& SPI_DEV_ID_MASK

/-! ## Locks -/

/-- `spi_lock_t` -/
structure Lock where
  owner : Nat
  device : BitVec 32
  deriving DecidableEq

/-- `_spi_islock` -/
def islock (locks : List Lock) (device : BitVec 32) : Option Lock :=
  locks.find? fun lock => lock.device = chipOf device

/-- The search of `_spi_unlock_dev`. Only the owner can unlock the device. -/
def removeLock (device : BitVec 32) (ocb : Nat) : List Lock → Option (List Lock)
  | [] => none
  | lock :: locks =>
    if (lock.device = device ∨ device = SPI_DEV_ID_NONE) ∧ lock.owner = ocb then some locks
    else (removeLock device ocb locks).map (lock :: ·)

/-- `_spi_unlock_dev` -/
def unlockDev (locks : List Lock) (device : BitVec 32) (ocb : Nat) : Except Nat (List Lock) :=
  if locks.isEmpty then .error EINVAL
  else match removeLock (chipOf device) ocb locks with
    | some rest => .ok rest
    | none => .error ENODEV

/-- `_spi_lock_dev`, where `calloc` tells whether there is memory -/
def lockDev (locks : List Lock) (device : BitVec 32) (ocb : Nat) (calloc : Bool) :
    Except Nat (List Lock) :=
  if calloc then .ok (⟨ocb, chipOf device⟩ :: locks) else .error ENOMEM

/-- `_spi_lock_check` -/
def lockCheck (locks : List Lock) (device : BitVec 32) (ocb : Nat) (calloc : Bool) :
    Except Nat (List Lock) :=
  match islock locks device with
  | some lock =>
    if lock.owner = ocb then
      if has device SPI_DEV_UNLOCK then unlockDev locks device ocb else .ok locks
    else .error EPERM
  | none =>
    if has device SPI_DEV_LOCK then lockDev locks device ocb calloc
    else if has device SPI_DEV_UNLOCK then .error EINVAL
    else .ok locks

/-- The loop of `_spi_close_ocb`: at most all locks are removed. -/
def unlockAll (ocb : Nat) : Nat → List Lock → List Lock
  | 0, locks => locks
  | turns + 1, locks =>
    match unlockDev locks SPI_DEV_ID_NONE ocb with
    | .ok rest => unlockAll ocb turns rest
    | .error _ => locks

/-! ## Requests -/

/-- A call of the low-level driver (`funcs->xfer`, `funcs->dma_xfer` and a `funcs->setcfg` that sets
the configuration) -/
inductive Call
  | xfer (device : BitVec 32)
  | dmaXfer (device : BitVec 32)
  | setcfg (device : BitVec 16)
  deriving DecidableEq

/-- The chip a call is for -/
def Call.chip : Call → BitVec 32
  | .xfer device => chipOf device
  | .dmaXfer device => chipOf device
  | .setcfg device => device.setWidth 32

/-- What a request returns to the client -/
inductive Reply
  | bytes (nbytes : Int)
  | info (mode : BitVec 32)
  | done
  deriving DecidableEq

/-- The resource manager: the locks, the default chip of each context, and the length of the
buffer -/
structure Spidev where
  locks : List Lock
  chip : Nat → BitVec 32
  buflen : Nat

structure Outcome where
  rtn : Except Nat Reply
  call : Option Call
  spi : Spidev

/-- Sizes of the resource manager library and the number of the message manager -/
structure Conf where
  sizeofMsg : Nat
  sizeofWrite : Nat
  msgMaxSize : Nat
  iomgrSpi : Nat

/-- What the surroundings answer to a request: `calloc` and `malloc`, `resmgr_msgread`, the number
of bytes of `xfer` and `dma_xfer`, and the status of `setcfg`, `devinfo` (with the mode of the
device) and `drvinfo`. A driver may lack some of its functions. -/
structure Env where
  calloc : Bool
  malloc : Bool
  msgread : Except Nat Int
  xfer : Int
  dmaXfer : Option Int
  setcfg : Option Nat
  devinfo : Option (Nat × BitVec 32)
  drvinfo : Option Nat

/-- `spi_msg_t`, with `spi_dma_paddr_t` after it -/
structure Msg where
  combineLen : Nat
  mgrid : Nat
  subtype : Nat
  device : BitVec 32
  xlen : Int
  rpaddr : BitVec 64
  wpaddr : BitVec 64

inductive Subtype
  | read
  | write
  | exchange
  | cmdread
  | dmaxchange
  deriving DecidableEq

/-- `_SPI_IOMSG_READ` to `_SPI_IOMSG_DMAXCHANGE` -/
def subtypeOf : Nat → Option Subtype
  | 1 => some .read
  | 2 => some .write
  | 3 => some .exchange
  | 4 => some .cmdread
  | 5 => some .dmaxchange
  | _ => none

/-- The conversion of a sum to `int`, and of an `int` for the comparison with an unsigned size -/
def toInt (n : Int) : Int := n.bmod (2 ^ 32)

def toUnsigned (n : Int) : Nat := (n % 2 ^ 32).toNat

section Handlers

variable (c : Conf) (env : Env)

/-- A message that is not read whole -/
def msgread (want : Int) : Option Nat :=
  match env.msgread with
  | .error errno => some errno
  | .ok status => if status < want then some EFAULT else none

/-- The buffer of a request: that of the message if it is long enough, or else `dev->buf`, into
which `want` bytes of the message are read. -/
def Spidev.buffer (spi : Spidev) (msglen buflen : Nat) (want : Option Int) : Option Nat × Spidev :=
  if c.msgMaxSize < msglen then
    if spi.buflen < buflen then
      if env.malloc then (want.bind (msgread env), { spi with buflen })
      else (some ENOMEM, { spi with buflen := 0 })
    else (want.bind (msgread env), spi)
  else (none, spi)

/-- The result of a transfer -/
def transferred (nbytes : Int) : Except Nat Reply :=
  if nbytes = 0 then .error EAGAIN else if 0 < nbytes then .ok (.bytes nbytes) else .error EIO

/-- What a request answers without a transfer. `none` means that it gets to the transfer. -/
abbrev Early := Option (Except Nat Reply)

def early (buffer : Option Nat × Spidev) : Early × Spidev := (buffer.1.map .error, buffer.2)

/-- The beginning of `_spi_iomsg_read` -/
def Spidev.beginRead (spi : Spidev) (msg : Msg) : Early × Spidev :=
  if msg.xlen ≤ 0 then (some (.ok (.bytes 0)), spi)
  else early (spi.buffer c env msg.xlen.toNat msg.xlen.toNat none)

/-- The beginning of `_spi_iomsg_write` and of `_spi_iomsg_xchange` -/
def Spidev.beginWrite (spi : Spidev) (msg : Msg) : Early × Spidev :=
  if msg.xlen ≤ 0 then (some (.ok (.bytes 0)), spi)
  else
    let msglen := toInt (msg.xlen + c.sizeofMsg)
    early (spi.buffer c env (toUnsigned msglen) (toUnsigned msglen) (some msglen))

/-- The beginning of `_spi_iomsg_cmdread` -/
def Spidev.beginCmdread (spi : Spidev) (msg : Msg) : Early × Spidev :=
  let msglen := toInt (msg.combineLen + msg.xlen)
  early (spi.buffer c env (toUnsigned msglen) (toUnsigned msglen) (some msg.combineLen))

/-- The beginning of `_spi_iomsg_dmaxchange` -/
def Spidev.beginDmaxchange (spi : Spidev) (msg : Msg) : Early × Spidev :=
  if msg.combineLen < c.sizeofMsg + sizeofDmaPaddr then (some (.error ENOSYS), spi)
  else if env.dmaXfer.isNone then (some (.error ENOTSUP), spi)
  else if msg.xlen ≤ 0 ∧ (msg.wpaddr ≠ 0 ∨ msg.rpaddr ≠ 0) then (some (.ok (.bytes 0)), spi)
  else (none, spi)

/-- What comes before the transfer of a message -/
def Spidev.begin (spi : Spidev) (msg : Msg) : Subtype → Early × Spidev
  | .read => spi.beginRead c env msg
  | .write | .exchange => spi.beginWrite c env msg
  | .cmdread => spi.beginCmdread c env msg
  | .dmaxchange => spi.beginDmaxchange c env msg

/-- The chip of a message, in 16 bits: its own or else the default of the context -/
def Spidev.chip16 (spi : Spidev) (ocb : Nat) (device : BitVec 32) : BitVec 16 :=
  if chipOf device = SPI_DEV_ID_NONE then (spi.chip ocb).setWidth 16
  else (chipOf device).setWidth 16

/-- The chip of a DMA exchange, with the flags that a default chip has -/
def Spidev.chip32 (spi : Spidev) (ocb : Nat) (device : BitVec 32) : BitVec 32 :=
  if chipOf device = SPI_DEV_ID_NONE then spi.chip ocb else chipOf device

/-- The transfer of a message -/
def Spidev.transfer (spi : Spidev) (ocb : Nat) (msg : Msg) : Subtype → Call
  | .read => .xfer ((spi.chip16 ocb msg.device).setWidth 32 ||| SPI_DEV_READ)
  | .write => .xfer ((spi.chip16 ocb msg.device).setWidth 32 ||| SPI_DEV_WRITE)
  | .exchange | .cmdread =>
    .xfer ((spi.chip16 ocb msg.device).setWidth 32 ||| SPI_DEV_EXCHANGE)
  | .dmaxchange => .dmaXfer (spi.chip32 ocb msg.device)

/-- What a message returns after its transfer. A command read returns what comes after the
command. -/
def result (msg : Msg) : Subtype → Except Nat Reply
  | .read | .write | .exchange => transferred env.xfer
  | .cmdread =>
    let cbytes := msg.combineLen - c.sizeofMsg
    if env.xfer = 0 then .error EAGAIN
    else if cbytes < env.xfer then .ok (.bytes (env.xfer - cbytes))
    else .error EIO
  | .dmaxchange => transferred (env.dmaXfer.getD 0)

/-- The end of a request, with its transfer unless it has answered before -/
def finish (start : Early × Spidev) (call : Call) (rtn : Except Nat Reply) : Outcome :=
  match start with
  | (some rtn, spi) => ⟨rtn, none, spi⟩
  | (none, spi) => ⟨rtn, some call, spi⟩

/-- `_spi_iomsg` -/
def Spidev.iomsg (spi : Spidev) (ocb : Nat) (msg : Msg) : Outcome :=
  if msg.combineLen < c.sizeofMsg ∨ msg.mgrid ≠ c.iomgrSpi then ⟨.error ENOSYS, none, spi⟩
  else match subtypeOf msg.subtype with
    | none => ⟨.error EINVAL, none, spi⟩
    | some subtype =>
      match lockCheck spi.locks msg.device ocb env.calloc with
      | .error errno => ⟨.error errno, none, spi⟩
      | .ok locks =>
        finish ({ spi with locks }.begin c env msg subtype) (spi.transfer ocb msg subtype)
          (result c env msg subtype)

/-- A read or write of a context: with the status of `iofunc_read_verify` or `iofunc_write_verify`,
whether the type is `_IO_XTYPE_NONE`, and the buffer, transfer and result -/
def Spidev.io (spi : Spidev) (ocb verify : Nat) (plain : Bool) (nbytes : Int)
    (buffer : Spidev → Option Nat × Spidev) (call : Call) (rtn : Except Nat Reply) : Outcome :=
  if verify ≠ EOK then ⟨.error verify, none, spi⟩
  else if plain = false then ⟨.error ENOSYS, none, spi⟩
  else match lockCheck spi.locks (spi.chip ocb) ocb env.calloc with
    | .error errno => ⟨.error errno, none, spi⟩
    | .ok locks =>
      if nbytes ≤ 0 then ⟨.ok (.bytes 0), none, { spi with locks }⟩
      else finish (early (buffer { spi with locks })) call rtn

/-- `_spi_read` -/
def Spidev.read (spi : Spidev) (ocb verify : Nat) (plain : Bool) (nbytes : Int) : Outcome :=
  spi.io env ocb verify plain nbytes
    (fun spi => spi.buffer c env nbytes.toNat nbytes.toNat none)
    (.xfer (spi.chip ocb ||| SPI_DEV_READ))
    (if 0 < env.xfer then .ok (.bytes env.xfer) else .error EIO)

/-- `_spi_write` -/
def Spidev.write (spi : Spidev) (ocb verify : Nat) (plain : Bool) (nbytes : Int) : Outcome :=
  spi.io env ocb verify plain nbytes
    (fun spi => spi.buffer c env (c.sizeofWrite + nbytes.toNat) nbytes.toNat (some nbytes))
    (.xfer (spi.chip ocb ||| SPI_DEV_WRITE)) (transferred env.xfer)

/-- The default device of a context, with its flags -/
def Spidev.setDefault (spi : Spidev) (ocb : Nat) (device : BitVec 32) : Spidev :=
  if has device SPI_DEV_DEFAULT then
    { spi with chip := fun o => if o = ocb then device else spi.chip o }
  else spi

/-- The configuration of a device, if there is one to set -/
def Spidev.configure (spi : Spidev) (device mode : BitVec 32) : Outcome :=
  if mode ≠ 0 then
    match env.setcfg with
    | none => ⟨.error ENOTSUP, none, spi⟩
    | some status =>
      if status ≠ EOK then ⟨.error EINVAL, none, spi⟩
      else ⟨.ok .done, some (.setcfg (device.setWidth 16)), spi⟩
  else ⟨.ok .done, none, spi⟩

/-- `DCMD_SPI_SET_CONFIG` -/
def Spidev.setConfig (spi : Spidev) (ocb nbytes : Nat) (device mode : BitVec 32) : Outcome :=
  if nbytes < sizeofCfg + 4 then ⟨.error EINVAL, none, spi⟩
  else if chipOf device = SPI_DEV_ID_NONE then ⟨.error EINVAL, none, spi⟩
  else (spi.setDefault ocb device).configure env device mode

/-- `DCMD_SPI_GET_DEVINFO` -/
def Spidev.getDevinfo (spi : Spidev) (ocb nbytes : Nat) (device : BitVec 32) : Outcome :=
  if nbytes < 4 then ⟨.error EINVAL, none, spi⟩
  else match env.devinfo with
    | none => ⟨.error ENOTSUP, none, spi⟩
    | some (status, mode) =>
      if status ≠ EOK then ⟨.error EINVAL, none, spi⟩
      else
        let other := (islock spi.locks device).any fun lock => lock.owner != ocb
        ⟨.ok (.info (if other then mode ||| SPI_MODE_LOCKED else mode)), none, spi⟩

/-- `DCMD_SPI_GET_DRVINFO` -/
def Spidev.getDrvinfo (spi : Spidev) : Outcome :=
  match env.drvinfo with
  | none => ⟨.error ENOTSUP, none, spi⟩
  | some status => if status ≠ EOK then ⟨.error EINVAL, none, spi⟩ else ⟨.ok .done, none, spi⟩

inductive Dcmd
  | setConfig (nbytes : Nat) (device mode : BitVec 32)
  | getDevinfo (nbytes : Nat) (device : BitVec 32)
  | getDrvinfo
  | other

/-- `_spi_devctl`, where `handled` is what `iofunc_devctl_default` returns if it handles the
command -/
def Spidev.devctl (spi : Spidev) (ocb : Nat) (handled : Option Nat) (dcmd : Dcmd) : Outcome :=
  match handled, dcmd with
  | some status, _ => ⟨if status = EOK then .ok .done else .error status, none, spi⟩
  | none, .setConfig nbytes device mode => spi.setConfig env ocb nbytes device mode
  | none, .getDevinfo nbytes device => spi.getDevinfo env ocb nbytes device
  | none, .getDrvinfo => spi.getDrvinfo env
  | none, .other => ⟨.error ENOSYS, none, spi⟩

/-- `_spi_ocb_calloc` -/
def Spidev.open (spi : Spidev) (ocb : Nat) : Outcome :=
  ⟨.ok .done, none, { spi with chip := fun o => if o = ocb then SPI_DEV_ID_NONE else spi.chip o }⟩

/-- `_spi_close_ocb` -/
def Spidev.close (spi : Spidev) (ocb : Nat) : Outcome :=
  ⟨.ok .done, none, { spi with locks := unlockAll ocb spi.locks.length spi.locks }⟩

end Handlers

inductive Op
  | open
  | read (verify : Nat) (plain : Bool) (nbytes : Int)
  | write (verify : Nat) (plain : Bool) (nbytes : Int)
  | msg (msg : Msg)
  | devctl (handled : Option Nat) (dcmd : Dcmd)
  | close

/-- A request of a context -/
structure Request where
  ocb : Nat
  op : Op
  env : Env

def Spidev.exec (c : Conf) (spi : Spidev) (req : Request) : Outcome :=
  match req.op with
  | .open => spi.open req.ocb
  | .read verify plain nbytes => spi.read c req.env req.ocb verify plain nbytes
  | .write verify plain nbytes => spi.write c req.env req.ocb verify plain nbytes
  | .msg msg => spi.iomsg c req.env req.ocb msg
  | .devctl handled dcmd => spi.devctl req.env req.ocb handled dcmd
  | .close => spi.close req.ocb

def Spidev.next (c : Conf) (spi : Spidev) (req : Request) : Spidev := (spi.exec c req).spi

end Mx6xBsp.Spi
