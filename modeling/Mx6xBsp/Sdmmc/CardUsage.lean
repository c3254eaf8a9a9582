import Mathlib.Logic.Function.Basic
import Mx6xBsp.Lib.Brackets
import Mx6xBsp.Lib.Runs

/-!
# The usage count of a card

Clients of the SD/MMC driver work on a card by a `struct sdio_device` that counts the
operations on it. Each operation is a program that takes the mutex of the driver
twice, in `_sdio_synchronize`; `sdio_cd` handles the media changes of a host. A
section with the mutex held, and any other access to memory that is shared, is one
step. A device that was freed is not there any more, and a step that would touch it
has no meaning.
-/

namespace Mx6xBsp.Sdmmc.Usage

open Brackets

def EOK : Int := 0
def ENXIO : Int := 6
def EBUSY : Int := 16
def ENODEV : Int := 19
def EINVAL : Int := 22
def ETIMEDOUT : Int := 260

/-- The flags of a `sdio_dev_t`. -/
structure SdioDev where
  mediaChange : Bool
  present : Bool
  invalidCard : Bool
  writeProtect : Bool
  deriving DecidableEq

/-- A `struct sdio_device`; `hc` is the host. -/
structure SdioDevice where
  path : Nat
  generation : Nat
  hc : Nat
  rmvPending : Bool
  usage : BitVec 32
  deriving DecidableEq

def sdioSynchronize (dev : SdioDev) (device : SdioDevice) (io : Bool) (ncmds : Int) :
    Int × SdioDevice :=
  if !io then
    let device := { device with rmvPending := true }
    if device.usage ≠ 0 then (EBUSY, device) else (EOK, device)
  else if 0 ≤ ncmds then
    if device.rmvPending || dev.mediaChange then ( ENXIO, device)
    else (EOK, { device with usage := device.usage + BitVec.ofInt 32 ncmds })
  else (EOK, { device with usage := device.usage + BitVec.ofInt 32 ncmds })

/-! ## The public operations -/

/-- What the operations do with a card. -/
inductive CardCall
  | sendCmd | stopTransmission | mmcSetPartition | setBlockCount | setBlockLength | sdSwitch
  | mmcSwitch | mmcSendExtCsd | waitCardStatus | sendStatus | mmcCache | mmcErase | sdErase
  | sdLockUnlock | busError | reset | pwrmgnt
  deriving DecidableEq

/-- The steps of a program. What a call leads to, the type of the device and whether it has
`DEV_CAP_HPI_CMD12` is any answer. -/
inductive Request
  | synchronize (device : Nat) (io : Bool) (ncmds : Int)
  | card (call : CardCall)
  | isMmc
  | hpiCmd12
  | usage (device : Nat)
  | unlink (device : Nat)
  | free (device : Nat)
  | attach (path : Nat) (generation : Option Nat)
  deriving DecidableEq

abbrev Program := Prog Request Int

def call (c : CardCall) : Program := .ask (.card c) .ret

/-- What the operations have in common: `work` between the two calls of `_sdio_synchronize`. -/
def synchronized (device : Nat) (work : Program) : Program :=
  .ask (.synchronize device true 1) fun status =>
    if status ≠ EOK then .ret status
    else work.bind fun status => .ask (.synchronize device true (-1)) fun _ => .ret status

def sdioSendCmd (device : Nat) : Program := synchronized device (call .sendCmd)

def sdioStopTransmission (device : Nat) : Program := synchronized device (call .stopTransmission)

def sdioSetPartition (device : Nat) : Program :=
  synchronized device (.ask .isMmc fun mmc => if mmc ≠ 0 then call .mmcSetPartition else .ret EOK)

def sdioSetBlockCount (device : Nat) : Program := synchronized device (call .setBlockCount)

def sdioSetBlockLength (device : Nat) : Program := synchronized device (call .setBlockLength)

def sdioSdSwitch (device : Nat) : Program := synchronized device (call .sdSwitch)

def sdioMmcSwitch (device : Nat) : Program := synchronized device (call .mmcSwitch)

def sdioSendExtCsd (device : Nat) : Program := synchronized device (call .mmcSendExtCsd)

def sdioWaitCardStatus (device : Nat) : Program := synchronized device (call .waitCardStatus)

def sdioSendStatus (device : Nat) : Program := synchronized device (call .sendStatus)

/-- `sdio_hpi`, made of other operations -/
def sdioHpi (device : Nat) : Program :=
  (sdioWaitCardStatus device).bind fun status =>
    if status = ETIMEDOUT then
      .ask .hpiCmd12 fun cmd12 =>
        (if cmd12 ≠ 0 then sdioStopTransmission device
          else sdioSendStatus device).bind fun status =>
            if status = EOK then sdioWaitCardStatus device else .ret status
    else .ret status

def sdioCache (device : Nat) : Program :=
  synchronized device (.ask .isMmc fun mmc => if mmc ≠ 0 then call .mmcCache else .ret EINVAL)

def sdioErase (device : Nat) : Program :=
  synchronized device (.ask .isMmc fun mmc => if mmc ≠ 0 then call .mmcErase else call .sdErase)

def sdioLockUnlock (device : Nat) : Program :=
  synchronized device (.ask .isMmc fun mmc => if mmc ≠ 0 then .ret EINVAL else call .sdLockUnlock)

/-- The status of what `sdio_bus_error` and `sdio_reset` do is not returned. -/
def sdioBusError (device : Nat) : Program :=
  synchronized device ((call .busError).bind fun _ => .ret EOK)

def sdioReset (device : Nat) : Program :=
  synchronized device ((call .reset).bind fun _ => .ret EOK)

def sdioIdle (device : Nat) : Program := synchronized device (.ret EOK)

def sdioPwrmgnt (device : Nat) : Program := synchronized device (call .pwrmgnt)

/-- `sdio_detach`: the count is read without the mutex. -/
def sdioDetach (device : Nat) : Program :=
  .ask (.usage device) fun usage =>
    if usage ≠ 0 then .ret EBUSY
    else .ask (.unlink device) fun _ => .ask (.free device) fun _ => .ret EOK

/-- `sdio_attach`; no generation is `SDIO_CONNECT_WILDCARD`. -/
def sdioAttach (path : Nat) (generation : Option Nat) : Program :=
  .ask (.attach path generation) .ret

/-- A call of a client. -/
inductive Call
  | sendCmd (device : Nat)
  | stopTransmission (device : Nat)
  | setPartition (device : Nat)
  | setBlockCount (device : Nat)
  | setBlockLength (device : Nat)
  | sdSwitch (device : Nat)
  | mmcSwitch (device : Nat)
  | sendExtCsd (device : Nat)
  | waitCardStatus (device : Nat)
  | sendStatus (device : Nat)
  | hpi (device : Nat)
  | cache (device : Nat)
  | erase (device : Nat)
  | lockUnlock (device : Nat)
  | busError (device : Nat)
  | reset (device : Nat)
  | idle (device : Nat)
  | pwrmgnt (device : Nat)
  | detach (device : Nat)
  | attach (path : Nat) (generation : Option Nat)

def Call.program : Call → Program
  | .sendCmd device => sdioSendCmd device
  | .stopTransmission device => sdioStopTransmission device
  | .setPartition device => sdioSetPartition device
  | .setBlockCount device => sdioSetBlockCount device
  | .setBlockLength device => sdioSetBlockLength device
  | .sdSwitch device => sdioSdSwitch device
  | .mmcSwitch device => sdioMmcSwitch device
  | .sendExtCsd device => sdioSendExtCsd device
  | .waitCardStatus device => sdioWaitCardStatus device
  | .sendStatus device => sdioSendStatus device
  | .hpi device => sdioHpi device
  | .cache device => sdioCache device
  | .erase device => sdioErase device
  | .lockUnlock device => sdioLockUnlock device
  | .busError device => sdioBusError device
  | .reset device => sdioReset device
  | .idle device => sdioIdle device
  | .pwrmgnt device => sdioPwrmgnt device
  | .detach device => sdioDetach device
  | .attach path generation => sdioAttach path generation

/-! ## The driver -/

/-- What `hce->cd` reports: `CD_INS` and `CD_WP`. -/
structure CdState where
  ins : Bool
  wp : Bool
  deriving DecidableEq

/-- Where `sdio_cd` is; but for `idle` it holds the `cd_mutex` of the host. -/
inductive Cd
  | idle
  | changed (cd : CdState)
  | clear (cd : CdState)
  | present (cd : CdState)
  | lookup (cd : CdState)
  | wait (cd : CdState) (device : Nat)
  | removal (cd : CdState) (device : Nat)
  | power (cd : CdState)
  | insert (cd : CdState)
  | attach (cd : CdState)
  | ident (cd : CdState)
  deriving DecidableEq

/-- A `sdio_hc_t` -/
structure SdioHc where
  path : Nat
  generation : Nat
  dev : SdioDev
  cd : Cd
  deriving DecidableEq

/-- The driver with the threads of its clients; `next` is the device allocated next. -/
structure Sdio where
  hlist : List Nat
  hc : Nat → SdioHc
  device : Nat → Option SdioDevice
  next : Nat
  dlist : List Nat
  threads : List Program

def Sdio.setHc (s : Sdio) (h : Nat) (f : SdioHc → SdioHc) : Sdio :=
  { s with hc := Function.update s.hc h (f (s.hc h)) }

def Sdio.setDevice (s : Sdio) (d : Nat) (device : Option SdioDevice) : Sdio :=
  { s with device := Function.update s.device d device }

/-- The locked section of `sdio_attach`; `memory` tells whether `calloc` succeeds. -/
def Sdio.attach (s : Sdio) (path : Nat) (generation : Option Nat) (memory : Bool) : Int × Sdio :=
  let found := s.hlist.find? fun h =>
    (s.hc h).path == path && (s.hc h).dev.present &&
      (generation == none || generation == some (s.hc h).generation)
  match found with
  | some h =>
    if memory then
      let device := SdioDevice.mk (s.hc h).path (s.hc h).generation h false 0
      (EOK, { s.setDevice s.next (some device) with
        next := s.next + 1, dlist := s.dlist ++ [s.next] })
    else (ENODEV, s)
  | none => (ENODEV, s)

/-- A step of a program; `result` is the answer of what is not modelled. -/
def Request.run (s : Sdio) (result : Int) : Request → Option (Int × Sdio)
  | .synchronize d io ncmds =>
    match s.device d with
    | some device =>
      let (status, device) := sdioSynchronize (s.hc device.hc).dev device io ncmds
      some (status, s.setDevice d (some device))
    | none => none
  | .card _ => some (result, s)
  | .isMmc => some (result, s)
  | .hpiCmd12 => some (result, s)
  | .usage d => (s.device d).map fun device => (device.usage.toNat, s)
  | .unlink d => if d ∈ s.dlist then some (EOK, { s with dlist := s.dlist.erase d }) else none
  | .free d => (s.device d).map fun _ => (EOK, s.setDevice d none)
  | .attach path generation => some (s.attach path generation (result == EOK))

/-- The device of the card in the host -/
def Sdio.lookup (s : Sdio) (h : Nat) : Option Nat :=
  s.dlist.find? fun d =>
    match s.device d with
    | some device =>
      device.path == (s.hc h).path && device.generation == (s.hc h).generation
    | none => false

/-- A step of `sdio_cd`. `cd` is what the host reports when it starts, `ident` whether a card that
was inserted is identified. A wait may end at any time. -/
def sdioCd (s : Sdio) (h : Nat) (cd : CdState) (ident : Bool) : Option Sdio :=
  let dev := (s.hc h).dev
  let goto (next : Cd) (s : Sdio) := s.setHc h fun hc => { hc with cd := next }
  match (s.hc h).cd with
  | .idle => some (goto (.changed cd) s)
  | .changed cd => some (goto (if dev.mediaChange || !cd.ins then .clear cd else .insert cd) s)
  | .clear cd =>
    some (s.setHc h fun hc => { hc with
      dev := { dev with mediaChange := false, invalidCard := false, writeProtect := false }
      cd := .present cd })
  | .present cd =>
    some (s.setHc h fun hc => { hc with
      dev := { dev with present := false }
      cd := if dev.present then .lookup cd else .insert cd })
  | .lookup cd =>
    match s.lookup h with
    | none => some (goto (.power cd) s)
    | some d =>
      (s.device d).map fun device =>
        goto (if device.usage ≠ 0 then .wait cd d else .removal cd d)
          (s.setDevice d (some { device with rmvPending := true }))
  | .wait cd d =>
    (s.device d).map fun device => if device.usage ≠ 0 then s else goto (.removal cd d) s
  | .removal cd _ => some (goto (.power cd) s)
  | .power cd => some (goto (.insert cd) s)
  | .insert cd =>
    some (goto (if cd.ins && !(dev.present || dev.invalidCard) then .attach cd else .idle) s)
  | .attach cd =>
    some (s.setHc h fun hc => { hc with dev := ⟨false, false, false, false⟩, cd := .ident cd })
  | .ident cd =>
    some (s.setHc h fun hc => { hc with
      dev := if ident then { dev with present := true, writeProtect := dev.writeProtect || cd.wp }
        else { dev with invalidCard := true }
      cd := .idle })

inductive Action
  | call (thread : Nat) (call : Call)
  | step (thread : Nat) (result : Int)
  | mediaChange (h : Nat)
  | cd (h : Nat) (cd : CdState) (ident : Bool)

def Sdio.step (s : Sdio) : Action → Option Sdio
  | .call i call =>
    match s.threads[i]? with
    | some (.ret _) => some { s with threads := s.threads.set i call.program }
    | _ => none
  | .step i result =>
    match s.threads[i]? with
    | some (.ask request go) =>
      (request.run s result).map fun (answer, s) =>
        { s with threads := s.threads.set i (go answer) }
    | _ => none
  | .mediaChange h =>
    some (s.setHc h fun hc => { hc with dev := { hc.dev with mediaChange := true } })
  | .cd h cd ident => sdioCd s h cd ident

/-! ## Operations in flight -/

/-- A device as the region of its operations. -/
def region (d : Nat) : Region Request Int where
  mark
    | .synchronize device io ncmds =>
      if !io then .never
      else if device ≠ d then .other
      else if ncmds = 1 then .enter
      else if ncmds = -1 then .leave
      else .never
    | _ => .other
  ok := EOK

/-- The operations in flight on a device. -/
def Sdio.inFlight (s : Sdio) (d : Nat) : Nat := (region d).count s.threads

/-- About to free a device: `sdio_detach` after it found the count to be zero. -/
def frees (d : Nat) : Program → Bool
  | .ask (.unlink device) _ => device == d
  | .ask (.free device) _ => device == d
  | _ => false

/-- Nothing is attached, and no client or handling of a media change has begun. -/
structure Sdio.Start (s : Sdio) : Prop where
  device : ∀ d, s.device d = none
  dlist : s.dlist = []
  threads : ∀ p ∈ s.threads, ∃ status, p = .ret status
  cd : ∀ h, (s.hc h).cd = .idle

/-- The counts are those of the operations in flight. -/
def Sdio.Counted (s : Sdio) : Prop :=
  ∀ d device, s.device d = some device → device.usage.toNat = s.inFlight d

/-- What a step must not do. -/
structure Sdio.Drains (s : Sdio) (action : Action) (t : Sdio) : Prop where
  begins : ∀ d, s.inFlight d < t.inFlight d →
    ∃ device, s.device d = some device ∧ device.rmvPending = false
  removal : ∀ h cd ident cd' d, action = .cd h cd ident → (s.hc h).cd = .removal cd' d →
    s.inFlight d = 0
  frees : ∀ d device, s.device d = some device → t.device d = none → s.inFlight d = 0

end Mx6xBsp.Sdmmc.Usage
