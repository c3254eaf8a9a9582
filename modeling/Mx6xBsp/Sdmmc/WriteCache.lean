import Mx6xBsp.Lib.Traces
import Mx6xBsp.Sdmmc.Command

/-!
# Requests to a card with a write cache

The requests of `sim_sdmmc.c` that a card with an enabled write cache gets, down to
the single commands of `base.c`. The command layer resets the card by itself when a
command is not completed or the card does not wake up (`_sdio_send_cmd`,
`_sdio_pwrmgnt`); `sdmmc_reset` resets it for a request. A reset switches the power
of the card off and on, and what was in the cache is gone.

What the controller and the card answer is read from a script, one answer for each
command.
-/

namespace Mx6xBsp.Sdmmc.WriteCache

open Command (CS_CMD_INPROG CS_CMD_CMP CS_CARD_REMOVED ETIMEDOUT has)

def EOK : Nat := 0
def EIO : Nat := 5
def ENXIO : Nat := 6
def EACCES : Nat := 13
def EROFS : Nat := 30

def CDS_OUT_OF_RANGE : BitVec 32 := 1 <<< 31
def CDS_ADDRESS_ERROR : BitVec 32 := 1 <<< 30
def CDS_BLOCK_LEN_ERROR : BitVec 32 := 1 <<< 29
def CDS_ERASE_SEQ_ERROR : BitVec 32 := 1 <<< 28
def CDS_ERASE_PARAM : BitVec 32 := 1 <<< 27
def CDS_WP_VIOLATION : BitVec 32 := 1 <<< 26
def CDS_CARD_IS_LOCKED : BitVec 32 := 1 <<< 25
def CDS_LOCK_UNLOCK_FAILED : BitVec 32 := 1 <<< 24
def CDS_COM_CRC_ERROR : BitVec 32 := 1 <<< 23
def CDS_ILLEGAL_COMMAND : BitVec 32 := 1 <<< 22
def CDS_CARD_ECC_FAILED : BitVec 32 := 1 <<< 21
def CDS_CC_ERROR : BitVec 32 := 1 <<< 20
def CDS_ERROR : BitVec 32 := 1 <<< 19
def CDS_CID_CSD_OVERWRITE : BitVec 32 := 1 <<< 16
def CDS_CUR_STATE_MSK : BitVec 32 := 0xf <<< 9
def CDS_CUR_STATE_TRAN : BitVec 32 := 4 <<< 9
def CDS_READY_FOR_DATA : BitVec 32 := 1 <<< 8
def CDS_SWITCH_ERROR : BitVec 32 := 1 <<< 7
def CDS_URGENT_BKOPS : BitVec 32 := 1 <<< 6

def CDS_ERROR_MSK : BitVec 32 :=
  CDS_OUT_OF_RANGE ||| CDS_ADDRESS_ERROR ||| CDS_BLOCK_LEN_ERROR ||| CDS_ERASE_SEQ_ERROR |||
    CDS_ERASE_PARAM ||| CDS_WP_VIOLATION ||| CDS_CARD_IS_LOCKED ||| CDS_LOCK_UNLOCK_FAILED |||
    CDS_COM_CRC_ERROR ||| CDS_ILLEGAL_COMMAND ||| CDS_CARD_ECC_FAILED ||| CDS_CC_ERROR |||
    CDS_ERROR ||| CDS_SWITCH_ERROR ||| CDS_CID_CSD_OVERWRITE

def MMC_PART_USER : Nat := 0
def MMC_PART_RPMB : Nat := 3

def SDMMC_PFLAG_WP : BitVec 32 := 0x01

def BKOPS_NC_TICKS : Nat := 10
def BKOPS_IMPACTED_TICKS : Nat := 5
def BKOPS_STATUS_OPERATIONS_NONE : BitVec 32 := 0
def BKOPS_STATUS_OPERATIONS_NON_CRITICAL : BitVec 32 := 1
def BKOPS_STATUS_OPERATIONS_IMPACTED : BitVec 32 := 2
def BKOPS_STATUS_OPERATIONS_CRITICAL : BitVec 32 := 3
def BKOPS_STATUS_OPERATIONS_INPROG : BitVec 32 := 0x80000000

def SDIO_CMD_RETRIES : Nat := 3
def SDIO_TIME_DEFAULT : Nat := 1000
def SDMMC_TIME_BKOPS : Nat := SDIO_TIME_DEFAULT * 5
def MMC_PARTITION_SWITCH_TIMEOUT : Nat := 10
def MMC_OUT_OF_INTERRUPT_TIMEOUT : Nat := 10

/-! ## Answers -/

/-- What becomes of an issued command: the result of `sdio_issue_cmd`, the completion status if that
is `EOK`, the first word of the response, and `DEV_FLAG_PRESENT`. -/
structure Reply where
  issue : Nat
  status : Nat
  rsp : BitVec 32
  present : Bool

/-- The command layer resets a card that is there when its command was not completed. -/
def Reply.lost (r : Reply) : Bool := r.issue != EOK && r.present

def Reply.done (r : Reply) : Bool := r.issue == EOK && r.status == CS_CMD_CMP

/-- What becomes of the commands that wake the card or put it to sleep, whether the card is there,
and how a reset for it would end. -/
structure Change where
  replies : List Reply
  present : Bool
  reset : Nat

inductive Answer
  | reply (r : Reply)
  | pm (w : Change)

/-- The controller (`hc->entry.pm`, `HC_CAP_SLEEP`, `HC_CAP_ACMD12` and `HC_CAP_ACMD23`) and the
card: `DEV_CAP_CACHE`, `DEV_CAP_SLEEP`, `DEV_CAP_CMD23` and `DEV_CAP_HPI_CMD12`, the length of a
sector, and two times of `raw_ecsd`. -/
structure Conf where
  pm : Bool
  hostSleep : Bool
  acmd12 : Bool
  acmd23 : Bool
  cache : Bool
  sleep : Bool
  cmd23 : Bool
  hpiCmd12 : Bool
  sectorSize : Nat
  switchTime : Nat
  interruptTime : Nat

/-- The card is reset when the last command for it fails. Without a command for it, a card that is
there is always reset. -/
def Change.fails (c : Conf) (w : Change) : Bool :=
  if c.sleep then w.replies.any Reply.lost || !(w.replies.getLast?.any Reply.done) else w.present

/-- The answers for which the command layer resets the card -/
def Answer.resets (c : Conf) : Answer → Bool
  | .reply r => r.lost
  | .pm w => w.fails c

/-- An answer that ends an exchange well, by the card status -/
def Answer.good (status : BitVec 32 → Bool) : Answer → Bool
  | .reply r => r.done && status r.rsp
  | .pm _ => false

/-- `CDS_READY_FOR_DATA | CDS_CUR_STATE_TRAN` and no other state -/
def ready (rsp : BitVec 32) : Bool :=
  rsp &&& (CDS_READY_FOR_DATA ||| CDS_CUR_STATE_MSK) == CDS_READY_FOR_DATA ||| CDS_CUR_STATE_TRAN

/-! ## The command layer -/

inductive Pm
  | idle | active | sleep
  deriving DecidableEq

/-- The device of the command layer (`pactive`, `DEV_FLAG_WCE`, `DEV_FLAG_LOCKED` and
`hc->pm_state`), the card (`cached`: its cache is on, `lost`: its power was off with the cache on),
and the answers to come. Those to an exchange that decides on `sdmmc_reset` are `closing`. -/
structure Dev where
  pactive : Nat
  wce : Bool
  locked : Bool
  pm : Pm
  cached : Bool
  lost : Bool
  script : List Answer
  closing : List Answer

abbrev Lower := StateT Dev Option

def reply : Lower Reply := fun d =>
  match d.script with
  | .reply r :: rest => some (r, { d with script := rest })
  | _ => none

def change : Lower Change := fun d =>
  match d.script with
  | .pm w :: rest => some (w, { d with script := rest })
  | _ => none

/-- The computation reads all of `answers` and nothing else. -/
def onScript {α : Type} (answers : List Answer) (m : Lower α) : Lower α := fun d =>
  (m { d with script := answers }).bind fun (a, t) =>
    if t.script.isEmpty then some (a, { t with script := d.script }) else none

def closing {α : Type} (m : Lower α) : Lower α := fun d =>
  onScript d.closing m { d with closing := [] }

def setPm (pm : Pm) : Lower Unit := modify fun d => { d with pm }

/-- `_sdio_reset`. The power is switched off and on up to three times. -/
def Dev.reset (d : Dev) : Dev :=
  { d with pactive := 0, cached := false, lost := d.lost || d.cached }

def sdioReset : Lower Unit := modify Dev.reset

/-- `status`, `cmd->status` and `cmd->rsp[0]` after a command -/
structure Sent where
  status : Nat
  cstatus : Nat
  rsp : BitVec 32

/-- One turn of the loop of `_sdio_send_cmd`. The set block count command, or nothing, comes
`first`; after an error that is worth it the loop goes on with `again`. -/
def sendTurn (first : Lower Nat) (rsp : BitVec 32) (again : Reply → Lower Sent) : Lower Sent := do
  let status ← first
  if status ≠ EOK then return ⟨status, CS_CMD_INPROG, rsp⟩
  else
    let r ← reply
    if r.issue ≠ EOK then
      if r.present then
        sdioReset
        return ⟨r.issue, r.issue, r.rsp⟩
      else return ⟨r.issue, r.issue, r.rsp⟩
    else if r.status = CS_CMD_CMP then return ⟨EOK, r.status, r.rsp⟩
    else if r.status = CS_CARD_REMOVED then return ⟨ ENXIO, r.status, r.rsp⟩
    else if has r.rsp CDS_ILLEGAL_COMMAND then return ⟨ EIO, r.status, r.rsp⟩
    else again r

def sendLoop (first : Lower Nat) : Nat → BitVec 32 → Lower Sent
  | 0, rsp => sendTurn first rsp fun r => return ⟨ EIO, r.status, r.rsp⟩
  | retries + 1, rsp => sendTurn first rsp fun r => sendLoop first retries r.rsp

def skip : Lower Nat := pure EOK

/-- `sdio_select_card` with the host active -/
def selectCard : Lower Nat := do
  let sent ← sendLoop skip SDIO_CMD_RETRIES 0
  if has sent.rsp CDS_CARD_IS_LOCKED then
    modify fun d => { d with locked := true }
    return sent.status
  else return sent.status

/-- `mmc_sleep_awake` with the host active -/
def mmcSleepAwake : Lower Nat := do
  let sent ← sendLoop skip 0 0
  return sent.status

def awake : Lower Nat := do
  let status ← mmcSleepAwake
  if status = EOK then selectCard else return status

def fallAsleep : Lower Nat := do
  let status ← selectCard
  if status = EOK then mmcSleepAwake else return status

section Commands

variable (c : Conf)

/-- `_sdio_pwrmgnt( dev, PM_ACTIVE )`. The host is active before the card is woken, so the commands
for that come here only to return. -/
def pwrActive : Lower Nat := do
  let d ← get
  if c.pm = false ∨ d.pm = .active then return EOK
  else
    setPm .active
    if d.pm = .sleep ∧ c.hostSleep then
      let w ← change
      if c.sleep then
        let status ← onScript (w.replies.map .reply) awake
        if status ≠ EOK then
          sdioReset
          return w.reset
        else return EOK
      else if w.present then
        sdioReset
        return w.reset
      else return EOK
    else return EOK

/-- `_sdio_pwrmgnt( dev, PM_SLEEP )` -/
def pwrSleep : Lower Nat := do
  let d ← get
  if c.pm = false ∨ d.pm = .sleep then return EOK
  else if c.hostSleep ∧ c.sleep then
    let w ← change
    let status ← onScript (w.replies.map .reply) fallAsleep
    if status ≠ EOK then
      sdioReset
      setPm .idle
      return w.reset
    else
      setPm .sleep
      return EOK
  else
    setPm .sleep
    return EOK

/-- `_sdio_pwrmgnt( dev, PM_IDLE )` -/
def pwrIdle : Lower Nat := do
  let d ← get
  if c.pm ∧ d.pm = .active then
    setPm .idle
    return EOK
  else return EOK

/-- `_sdio_send_cmd`, with an allocated and cleared command -/
def sendCmd (first : Lower Nat) (retries : Nat) : Lower Sent := do
  let status ← pwrActive c
  if status ≠ EOK then return ⟨status, CS_CMD_INPROG, 0⟩ else sendLoop first retries 0

/-- `_sdio_set_block_count` -/
def setBlockCount : Lower Nat := do
  let sent ← sendCmd c skip 0
  return sent.status

/-- `_sdio_send_status` -/
def sendStatus : Lower (Nat × BitVec 32) := do
  let sent ← sendCmd c skip SDIO_CMD_RETRIES
  return if sent.status = EOK then (EOK, sent.rsp) else (sent.status, 0)

/-- `_sdio_stop_transmission` -/
def stopTransmission : Lower Nat := do
  let sent ← sendCmd c skip 0
  return sent.status

/-- The loop of `_sdio_wait_card_status` -/
def waitLoop (mask val : BitVec 32) : Nat → BitVec 32 → Lower (Nat × BitVec 32)
  | 0, rsp => return (ETIMEDOUT, rsp)
  | msec + 1, _ => do
    let (status, rsp) ← sendStatus c
    if status ≠ EOK then return (status, rsp)
    else if has rsp CDS_ERROR_MSK then return ( EIO, rsp)
    else if rsp &&& mask = val then return (EOK, rsp)
    else waitLoop mask val msec rsp

/-- `_sdio_wait_card_status` -/
def waitCardStatus (mask val : BitVec 32) (msec : Nat) : Lower (Nat × BitVec 32) :=
  waitLoop c mask val (max msec 1) 0

/-- Waiting for `CDS_READY_FOR_DATA | CDS_CUR_STATE_TRAN` -/
def waitReady (msec : Nat) : Lower (Nat × BitVec 32) :=
  waitCardStatus c (CDS_READY_FOR_DATA ||| CDS_CUR_STATE_MSK)
    (CDS_READY_FOR_DATA ||| CDS_CUR_STATE_TRAN) msec

def mmcSwitch (timeout : Nat) : Lower Nat := do
  let sent ← sendCmd c skip SDIO_CMD_RETRIES
  if sent.status = EOK then
    let (status, _) ← waitCardStatus c CDS_READY_FOR_DATA CDS_READY_FOR_DATA timeout
    return status
  else return sent.status

def mmcSetPartition (partition : Nat) : Lower Nat := do
  let d ← get
  if d.pactive = partition then return EOK
  else
    let status ← mmcSwitch c (MMC_PARTITION_SWITCH_TIMEOUT * c.switchTime)
    if status = EOK then
      modify fun d => { d with pactive := partition }
      return EOK
    else return status

/-- `mmc_cache` with `SDIO_CACHE_FLUSH` -/
def mmcCacheFlush (timeout : Nat) : Lower Nat := do
  let d ← get
  if d.wce then mmcSwitch c timeout else return EOK

def mmcSendExtCsd : Lower Nat := do
  let sent ← sendCmd c skip 0
  return sent.status

def sdioHpi (timeout : Nat) : Lower Nat := do
  let (status, _) ← waitReady c timeout
  if status = ETIMEDOUT then
    let status ← (if c.hpiCmd12 then stopTransmission c else
      sendStatus c >>= fun result => pure result.1)
    if status = EOK then
      let (status, _) ← waitReady c (MMC_OUT_OF_INTERRUPT_TIMEOUT * c.interruptTime)
      return status
    else return status
  else return status

/-! ## The requests -/

/-- A partition of the card, as the driver shows it -/
structure Partition where
  config : Nat
  pflags : BitVec 32
  nlba : Nat

/-- `part->config & MMC_PART_MSK` -/
def Partition.kind (part : Partition) : Nat := part.config % 8

/-- The driver: `SDMMC_EFLAG_PRESENT`, `SDMMC_EFLAG_CACHE`, `SDMMC_EFLAG_BKOPS`, the flag
`DEV_FLAG_CARD_LOCKED` of `dev_inf`, the state of the background operations and the partitions.
`silent` tells that a write was accepted after a loss, with the user partition not marked. -/
structure Hba where
  present : Bool
  cacheFlag : Bool
  bkopsFlag : Bool
  locked : Bool
  bkopsStatus : BitVec 32
  bkopsTicks : Nat
  partitions : List Partition
  dev : Dev
  silent : Bool

abbrev Upper := StateT Hba Option

def sdio {α : Type} (m : Lower α) : Upper α := fun h =>
  (m h.dev).map fun (a, dev) => (a, { h with dev })

/-- `sdmmc_set_partition_attr` -/
def setPartitionAttr (partition : Nat) (flags : BitVec 32) (parts : List Partition) :
    List Partition :=
  parts.map fun part =>
    if part.kind = partition then { part with pflags := part.pflags ||| flags } else part

/-- `sdmmc_reset` -/
def Hba.reset (h : Hba) : Hba :=
  let h := { h with dev := h.dev.reset }
  if c.cache && h.cacheFlag then
    { h with
      partitions := setPartitionAttr MMC_PART_USER SDMMC_PFLAG_WP h.partitions
      cacheFlag := false }
  else h

def sdmmcReset : Upper Unit := modify (Hba.reset c)

/-- An exchange that decides on `sdmmc_reset` -/
def resetIf {α : Type} (m : Lower α) (bad : α → Bool) : Upper Unit := do
  let a ← sdio (closing m)
  if bad a then sdmmcReset c else pure ()

/-- The switch on the status of a timer tick or request -/
def bkopsDue (status : BitVec 32) (ticks : Nat) : Bool :=
  if status = BKOPS_STATUS_OPERATIONS_NON_CRITICAL then
    BKOPS_NC_TICKS ≤ ticks && BKOPS_IMPACTED_TICKS ≤ ticks
  else if status = BKOPS_STATUS_OPERATIONS_IMPACTED then BKOPS_IMPACTED_TICKS ≤ ticks
  else status = BKOPS_STATUS_OPERATIONS_CRITICAL

/-- High priority interrupt, and a reset if that fails -/
def interrupt (timeout : Nat) : Upper Unit := resetIf c (sdioHpi c timeout) (· != EOK)

/-- The poll of a timer tick; `ecsd` is the status the card gives. -/
def bkopsPoll (ecsd : BitVec 8) : Upper Unit := do
  modify fun h =>
    if h.bkopsStatus ≠ 0 then { h with bkopsTicks := h.bkopsTicks + 1 } else h
  let status ← sdio (mmcSendExtCsd c)
  modify fun h =>
    if status = EOK ∧ h.bkopsStatus ≠ ecsd.setWidth 32 then
      { h with bkopsTicks := 0, bkopsStatus := ecsd.setWidth 32 }
    else h

/-- The start of background operations. What is kept of the result of `sdio_mmc_switch` is whether
it is `EOK`, and `ETIMEDOUT` is looked for in this. -/
def bkopsStart (tick : Bool) : Upper Unit := do
  let switched ← sdio (mmcSwitch c (if tick then 0 else SDMMC_TIME_BKOPS))
  let status := if switched ≠ EOK then 1 else 0
  if status ≠ 0 then
    if status = ETIMEDOUT then interrupt c 0 else pure ()
  else modify fun h =>
    { h with
      bkopsStatus := h.bkopsStatus ||| BKOPS_STATUS_OPERATIONS_INPROG
      bkopsTicks := 0 }

def sdmmcBkops (tick : Bool) (ecsd : BitVec 8) : Upper Unit := do
  let h ← get
  if h.bkopsFlag = false then pure ()
  else if has h.bkopsStatus BKOPS_STATUS_OPERATIONS_INPROG then
    if tick then pure ()
    else
      interrupt c 500
      modify fun h => { h with bkopsStatus := BKOPS_STATUS_OPERATIONS_NONE }
  else
    (if tick then bkopsPoll c ecsd else pure ())
    let h ← get
    if bkopsDue h.bkopsStatus h.bkopsTicks then bkopsStart c tick else pure ()

/-- The transfer of `sdmmc_rw` after its command has failed -/
def transferFailed (cmd : Sent) : Lower (Nat × BitVec 32) := do
  let (state, rsp) ← sendStatus c
  if state ≠ EOK ∨ ready rsp = false then
    let stop ← stopTransmission c
    return (if stop ≠ EOK then ETIMEDOUT else cmd.status, rsp)
  else return (cmd.status, rsp)

/-- The transfer of `sdmmc_rw` after its command is complete -/
def transferDone (write stop : Bool) (timeout : Nat) (cmd : Sent) : Lower (Nat × BitVec 32) := do
  let stopped ← (if stop then stopTransmission c else pure EOK)
  if stopped ≠ EOK then return (ETIMEDOUT, cmd.rsp)
  else if write then
    let (status, rsp) ← waitReady c timeout
    if status ≠ EOK then
      let _ ← stopTransmission c
      return (status, rsp)
    else return (status, rsp)
  else return (EOK, cmd.rsp)

/-- The status of `sdmmc_rw` by the status of the command and the last response of the card -/
def rwStatus (status cstatus : Nat) (rsp : BitVec 32) : Nat :=
  if has rsp CDS_CARD_ECC_FAILED then EIO
  else if has rsp CDS_CARD_IS_LOCKED then EACCES
  else if has rsp CDS_WP_VIOLATION then EROFS
  else if has rsp CDS_ERROR then EIO
  else if cstatus = CS_CMD_CMP then status
  else ETIMEDOUT

/-- The end of `sdmmc_rw`: a card that is not ready in the transfer state after an error is
reset. -/
def rwEnd (status : Nat) : Upper Nat := do
  if status ≠ EOK then
    resetIf c (sendStatus c) fun (state, rsp) => state != EOK || !ready rsp
    modify fun h => { h with locked := h.dev.locked }
    return status
  else return EOK

def sdmmcRw (write : Bool) (dlen timeout : Nat) : Upper Nat := do
  let timeout := timeout * 1000 % 2 ^ 32
  let multi := c.sectorSize < dlen
  let sbc := multi && !c.acmd12 && c.cmd23
  let cmd ← sdio (sendCmd c (if sbc && !c.acmd23 then setBlockCount c else skip) 0)
  if cmd.status = ENXIO then return ENXIO
  else
    let (status, rsp) ← sdio
      (if cmd.status ≠ EOK then transferFailed c cmd
      else transferDone c write (multi && !sbc && !c.acmd12) timeout cmd)
    modify fun h =>
      if has rsp CDS_URGENT_BKOPS then
        { h with bkopsStatus := BKOPS_STATUS_OPERATIONS_CRITICAL }
      else h
    rwEnd c (rwStatus status cmd.cstatus rsp)

/-- `sdmmc_unit_ready` -/
def Hba.unitReady (h : Hba) (part : Partition) : Bool := h.present && part.nlba != 0

/-- A write gets as far as the selection of its partition. -/
def Hba.accepts (h : Hba) (part : Partition) : Bool :=
  h.unitReady part && !h.locked && !has part.pflags SDMMC_PFLAG_WP && part.kind != MMC_PART_RPMB

/-- All partitions of the user area are marked write protected. -/
def Hba.marked (h : Hba) : Bool :=
  h.partitions.all fun part => part.kind != MMC_PART_USER || has part.pflags SDMMC_PFLAG_WP

/-- `sdmmc_read_write` for an accepted request -/
def transfer (write : Bool) (part : Partition) (dlen timeout : Nat) : Upper Unit := do
  let status ← sdio (mmcSetPartition c part.config)
  if status ≠ EOK then pure ()
  else
    let _ ← sdmmcRw c write dlen timeout
    pure ()

/-- `sdmmc_read_write` with `SCF_DIR_IN` -/
def sdmmcRead (part : Partition) (dlen timeout : Nat) : Upper Unit := do
  let h ← get
  if h.unitReady part && !h.locked && part.kind != MMC_PART_RPMB then
    transfer c false part dlen timeout
  else pure ()

/-- `sdmmc_read_write` with `SCF_DIR_OUT` -/
def sdmmcWrite (part : Partition) (dlen timeout : Nat) : Upper Unit := do
  let h ← get
  if h.accepts part then
    set { h with silent := h.silent || (h.dev.lost && !h.marked) }
    transfer c true part dlen timeout
  else pure ()

def sdmmcSync (part : Partition) : Upper Unit := do
  let h ← get
  if h.unitReady part && c.cache && h.cacheFlag then
    let _ ← sdio (mmcCacheFlush c (SDIO_TIME_DEFAULT * 5))
    pure ()
  else pure ()

/-- The requests to a partition, by its number, `sdmmc_bkops` before a request or by the timer, and
what `sdmmc_pm` asks of the command layer. -/
inductive Request
  | read (lun dlen timeout : Nat)
  | write (lun dlen timeout : Nat)
  | sync (lun : Nat)
  | bkops (tick : Bool) (ecsd : BitVec 8)
  | idle
  | sleep

/-- An unused entry of the table of partitions -/
def Partition.zero : Partition := ⟨0, 0, 0⟩

def Hba.part (h : Hba) (lun : Nat) : Partition := h.partitions.getD lun .zero

def exec (h : Hba) : Request → Upper Unit
  | .read lun dlen timeout => sdmmcRead c (h.part lun) dlen timeout
  | .write lun dlen timeout => sdmmcWrite c (h.part lun) dlen timeout
  | .sync lun => sdmmcSync c (h.part lun)
  | .bkops tick ecsd => sdmmcBkops c tick ecsd
  | .idle => sdio do
      let _ ← pwrIdle c
      pure ()
  | .sleep => sdio do
      let _ ← pwrSleep c
      pure ()

/-- A request and the answers to its commands. -/
structure Input where
  request : Request
  script : List Answer
  closing : List Answer

/-- One request: it reads all answers there are for it. -/
def next (h : Hba) (inp : Input) : Option Hba := do
  let dev := { h.dev with script := inp.script, closing := inp.closing }
  let (_, t) ← exec c h inp.request { h with dev }
  if t.dev.script.isEmpty && t.dev.closing.isEmpty then some t else none

end Commands

end Mx6xBsp.Sdmmc.WriteCache
