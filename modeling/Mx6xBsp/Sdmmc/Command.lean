import Mathlib.Logic.Function.Basic
import Mx6xBsp.Lib.Masks
import Mx6xBsp.Lib.Runs

/-!
# The completion of SDIO commands

One thread issues commands (`sdio_issue_cmd`), the thread of the host controller
completes them when the controller interrupts (`imx6_sdhcx_intr_event`,
`sdio_cmd_cmplt`). A section with the mutex of the controller held is one step, and
so is any other access to the active command.
-/

namespace Mx6xBsp.Sdmmc.Command

def CS_CMD_INPROG : Nat := 0
def CS_CMD_CMP : Nat := 1
def CS_CMD_CMP_ERR : Nat := 3
def CS_CMD_IDX_ERR : Nat := 4
def CS_CMD_TO_ERR : Nat := 5
def CS_CMD_CRC_ERR : Nat := 6
def CS_CMD_END_ERR : Nat := 7
def CS_DATA_TO_ERR : Nat := 8
def CS_DATA_CRC_ERR : Nat := 9
def CS_DATA_END_ERR : Nat := 10
def CS_CARD_REMOVED : Nat := 11

def ETIMEDOUT : Nat := 260

def SCF_RSP_PRESENT : BitVec 32 := 1 <<< 4
def SCF_RSP_136 : BitVec 32 := 1 <<< 5
def SCF_RSP_BUSY : BitVec 32 := 1 <<< 7

def SD_SEND_TUNING_BLOCK : Nat := 19
def MMC_SEND_TUNING_BLOCK : Nat := 21

def IMX6_SDHCX_INTR_CC : BitVec 32 := 1 <<< 0
def IMX6_SDHCX_INTR_TC : BitVec 32 := 1 <<< 1
def IMX6_SDHCX_INTR_DMA : BitVec 32 := 1 <<< 3
def IMX6_SDHCX_INTR_BWR : BitVec 32 := 1 <<< 4
def IMX6_SDHCX_INTR_BRR : BitVec 32 := 1 <<< 5
def IMX6_SDHCX_INTR_CTO : BitVec 32 := 1 <<< 16
def IMX6_SDHCX_INTR_CCRC : BitVec 32 := 1 <<< 17
def IMX6_SDHCX_INTR_CEB : BitVec 32 := 1 <<< 18
def IMX6_SDHCX_INTR_CIE : BitVec 32 := 1 <<< 19
def IMX6_SDHCX_INTR_DTO : BitVec 32 := 1 <<< 20
def IMX6_SDHCX_INTR_DCRC : BitVec 32 := 1 <<< 21
def IMX6_SDHCX_INTR_DEB : BitVec 32 := 1 <<< 22
def IMX6_SDHCX_INTR_ACE : BitVec 32 := 1 <<< 24
def IMX6_SDHCX_INTR_DMAE : BitVec 32 := 1 <<< 28

def IMX6_SDHCX_IS_ERRI : BitVec 32 :=
  IMX6_SDHCX_INTR_DMAE ||| IMX6_SDHCX_INTR_CCRC ||| IMX6_SDHCX_INTR_CTO ||| IMX6_SDHCX_INTR_CEB |||
    IMX6_SDHCX_INTR_CIE ||| IMX6_SDHCX_INTR_DTO ||| IMX6_SDHCX_INTR_DCRC ||| IMX6_SDHCX_INTR_DEB |||
    IMX6_SDHCX_INTR_ACE

/-- A `struct sdio_cmd` -/
structure Cmd where
  opcode : Nat
  flags : BitVec 32
  status : Nat
  rsp : Fin 4 → BitVec 32

/-- A command block after `memset`. -/
def Cmd.zero : Cmd := ⟨0, 0, CS_CMD_INPROG, fun _ => 0⟩

def has (bits mask : BitVec 32) : Bool := bits &&& mask != 0

theorem has_or {mask : BitVec 32} (some : mask ≠ 0) (bits : BitVec 32) :
    has (bits ||| mask) mask = true := by
  unfold has
  rw [Masks.or_and_self]
  exact bne_iff_ne.mpr some

/-! ## The interrupt -/

/-- What the controller and the card do during an event: the response registers, whether the wait
for the end of busy runs out, whether `imx6_sdhcx_pio_xfer` succeeds, and whether a card is in. -/
structure Event where
  resp : Fin 4 → BitVec 32
  busy : Bool
  pio : Bool
  ins : Bool

def tuning (cmd : Cmd) : Bool :=
  cmd.opcode == SD_SEND_TUNING_BLOCK || cmd.opcode == MMC_SEND_TUNING_BLOCK

/-- The status by the error bits; the last `if` of the source that applies counts. -/
def errorStatus (sts : BitVec 32) : Nat :=
  if has sts IMX6_SDHCX_INTR_ACE then CS_DATA_TO_ERR
  else if has sts IMX6_SDHCX_INTR_DMAE then CS_DATA_TO_ERR
  else if has sts IMX6_SDHCX_INTR_CIE then CS_CMD_IDX_ERR
  else if has sts IMX6_SDHCX_INTR_CEB then CS_CMD_END_ERR
  else if has sts IMX6_SDHCX_INTR_CCRC then CS_CMD_CRC_ERR
  else if has sts IMX6_SDHCX_INTR_CTO then CS_CMD_TO_ERR
  else if has sts IMX6_SDHCX_INTR_DEB then CS_DATA_END_ERR
  else if has sts IMX6_SDHCX_INTR_DCRC then CS_DATA_CRC_ERR
  else if has sts IMX6_SDHCX_INTR_DTO then CS_DATA_TO_ERR
  else CS_CMD_CMP_ERR

/-- The status by the other bits -/
def endStatus (cmd : Cmd) (sts : BitVec 32) (event : Event) : Nat :=
  if has sts (IMX6_SDHCX_INTR_BWR ||| IMX6_SDHCX_INTR_BRR) then
    if event.pio then CS_CMD_CMP else CS_DATA_TO_ERR
  else if has sts IMX6_SDHCX_INTR_DMA then CS_CMD_CMP
  else if has sts IMX6_SDHCX_INTR_TC then CS_CMD_CMP
  else if has sts IMX6_SDHCX_INTR_CC then
    if has cmd.flags SCF_RSP_BUSY && event.busy then CS_CMD_TO_ERR else CS_CMD_CMP
  else CS_CMD_INPROG

/-- A word of a response of 136 bits: it has no CRC, and is shifted by a byte. -/
def longResponse (resp : Fin 4 → BitVec 32) (k : Fin 4) : BitVec 32 :=
  let rsp : BitVec 32 := resp (3 - k)
  let rbyte : BitVec 32 := if k = 3 then 0 else resp (2 - k) >>> 24
  (rsp <<< 8) + rbyte

/-- The response of the card -/
def response (cmd : Cmd) (sts : BitVec 32) (event : Event) : Fin 4 → BitVec 32 :=
  let rsp :=
    if has sts IMX6_SDHCX_INTR_CC then
      if has cmd.flags SCF_RSP_136 then longResponse event.resp
      else if has cmd.flags SCF_RSP_PRESENT then Function.update cmd.rsp 0 (event.resp 0)
      else cmd.rsp
    else cmd.rsp
  if has sts IMX6_SDHCX_INTR_TC then Function.update rsp 0 (event.resp 0) else rsp

/-- What `imx6_sdhcx_intr_event` makes of an active command: the status to complete it with, or
`CS_CMD_INPROG`, and its response. -/
def examine (cmd : Cmd) (sts : BitVec 32) (event : Event) : Nat × Cmd :=
  if tuning cmd then
    (if has sts IMX6_SDHCX_IS_ERRI then CS_CMD_CMP_ERR else CS_CMD_CMP, cmd)
  else
    let (cs, cmd) :=
      if has sts IMX6_SDHCX_IS_ERRI then (errorStatus sts, cmd)
      else (endStatus cmd sts event, { cmd with rsp := response cmd sts event })
    if (cs == CS_DATA_TO_ERR || cs == CS_CMD_TO_ERR) && !event.ins then (CS_CARD_REMOVED, cmd)
    else (cs, cmd)

/-! ## The two threads -/

/-- Where the thread of the controller is. An issue of a command is told from others by its number:
`n` is the one under way when the active command was read. -/
inductive Intr
  | idle
  | status (sts : BitVec 32)
  | picked (sts : BitVec 32) (c n : Nat)
  | complete (c n cs : Nat)

/-- The command an event works on -/
def Intr.held : Intr → Option (Nat × Nat)
  | .picked _ c n => some (c, n)
  | .complete c n _ => some (c, n)
  | _ => none

/-- Where the issuing thread is in `sdio_issue_cmd`: before the active command is set, in
`hc->entry.cmd`, in `sdio_wait_cmd` before the test of the status and in `pthread_cond_timedwait`,
and after a failure. -/
inductive Issuer
  | idle
  | issue (c : Nat)
  | cmd (c n : Nat)
  | test (c n : Nat)
  | timedwait (c n : Nat)
  | failed (c n status : Nat)

/-- The command issued, and the number of the issue -/
def Issuer.current : Issuer → Option (Nat × Nat)
  | .cmd c n => some (c, n)
  | .test c n => some (c, n)
  | .timedwait c n => some (c, n)
  | .failed c n _ => some (c, n)
  | _ => none

/-- A command is issued, and neither completed with nor given up. -/
def Issuer.waits : Issuer → Option (Nat × Nat)
  | .cmd c n => some (c, n)
  | .test c n => some (c, n)
  | .timedwait c n => some (c, n)
  | _ => none

/-- The controller, its command blocks (`sdio_ctrl.clist` are the free ones, `next` is the one
allocated next) and the two threads. `ready` are the blocks that were cleared or set to
`CS_CMD_INPROG` since they were issued last. Of the issues so far, `serial` is the number, and
`outcomes` counts how often each was completed or given up. -/
structure Hc where
  active : Option Nat
  cmd : Nat → Cmd
  clist : List Nat
  next : Nat
  ready : Nat → Bool
  issuer : Issuer
  intr : Intr
  serial : Nat
  outcomes : Nat → Nat

inductive Action
  | alloc
  | free (c : Nat)
  | setup (c opcode : Nat) (flags : BitVec 32)
  | send (c : Nat)
  | issue (c : Nat)
  | activate
  | cmd (status : Option Nat)
  | test
  | wake (timedOut : Bool)
  | giveUp
  | event (sts : BitVec 32)
  | pick
  | examine (event : Event)
  | complete

def Hc.setCmd (s : Hc) (c : Nat) (cmd : Cmd) : Hc :=
  { s with cmd := Function.update s.cmd c cmd }

def Hc.setStatus (s : Hc) (c status : Nat) : Hc := s.setCmd c { s.cmd c with status := status }

def Hc.setReady (s : Hc) (c : Nat) (ready : Bool) : Hc :=
  { s with ready := Function.update s.ready c ready }

/-- The locked sections that end an issue, of `sdio_cmd_cmplt` and after a failure -/
def Hc.finish (s : Hc) (c n status : Nat) : Hc :=
  { s.setStatus c status with
    active := none
    outcomes := Function.update s.outcomes n (s.outcomes n + 1) }

/-- `sdio_alloc_cmd` -/
def Hc.alloc (s : Hc) : Hc :=
  match s.clist with
  | c :: clist => { (s.setCmd c .zero).setReady c true with clist := clist }
  | [] => { (s.setCmd s.next .zero).setReady s.next true with next := s.next + 1 }

/-- A step of the issuing thread -/
def Hc.issuerStep (s : Hc) (action : Action) : Option Hc :=
  match s.issuer, action with
  | .idle, .alloc => some s.alloc
  | .idle, .free c => some { s with clist := s.clist ++ [c] }
  | .idle, .setup c opcode flags =>
    some (s.setCmd c { s.cmd c with opcode := opcode, flags := flags })
  | .idle, .send c => some ((s.setStatus c CS_CMD_INPROG).setReady c true)
  | .idle, .issue c =>
    if s.ready c then some { s.setReady c false with issuer := .issue c } else none
  | .issue c, .activate =>
    some { s with active := some c, issuer := .cmd c s.serial, serial := s.serial + 1 }
  | .cmd c n, .cmd none => some { s with issuer := .test c n }
  | .cmd c n, .cmd (some status) => some { s with issuer := .failed c n status }
  | .test c n, .test =>
    some { s with
      issuer := if (s.cmd c).status = CS_CMD_INPROG then .timedwait c n else .idle }
  | .timedwait c n, .wake timedOut =>
    some { s with issuer := if timedOut then .failed c n ETIMEDOUT else .test c n }
  | .failed c n status, .giveUp => some { s.finish c n status with issuer := .idle }
  | _, _ => none

/-- A step of the thread of the controller -/
def Hc.intrStep (s : Hc) (action : Action) : Option Hc :=
  match s.intr, action with
  | .idle, .event sts => some { s with intr := .status sts }
  | .status sts, .pick =>
    some { s with
      intr := match s.active with
        | some c => .picked sts c (s.serial - 1)
        | none => .idle }
  | .picked sts c n, .examine event =>
    let (cs, cmd) := examine (s.cmd c) sts event
    some { s.setCmd c cmd with intr := if cs ≠ CS_CMD_INPROG then .complete c n cs else .idle }
  | .complete c n cs, .complete => some { s.finish c n cs with intr := .idle }
  | _, _ => none

def Hc.step (s : Hc) (action : Action) : Option Hc :=
  match action with
  | .event _ | .pick | .examine _ | .complete => s.intrStep action
  | _ => s.issuerStep action

/-- No command was issued yet. -/
structure Hc.Start (s : Hc) : Prop where
  active : s.active = none
  issuer : s.issuer = .idle
  intr : s.intr = .idle
  serial : s.serial = 0
  outcomes : ∀ n, s.outcomes n = 0
  ready : ∀ c, s.ready c = false

/-- Each issue but the one under way was completed or given up once, and that not more than once. -/
def Hc.Once (s : Hc) : Prop :=
  ∀ n < s.serial, s.outcomes n ≤ 1 ∧
    (s.issuer.current.map Prod.snd ≠ some n → s.outcomes n = 1)

/-- A completion is of the command that is issued, and the active command is cleared by the
completion of it or as it is given up. -/
structure Hc.Completes (s : Hc) (action : Action) (t : Hc) : Prop where
  issued : ∀ c n cs, action = .complete → s.intr = .complete c n cs →
    s.issuer.waits = some (c, n) ∧ s.active = some c
  cleared : ∀ c, s.active = some c → t.active ≠ some c →
    (action = .complete ∧ ∃ n cs, s.intr = .complete c n cs) ∨
      (action = .giveUp ∧ ∃ n status, s.issuer = .failed c n status)

end Mx6xBsp.Sdmmc.Command
