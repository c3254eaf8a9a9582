import Mathlib.Data.BitVec
import Mathlib.Tactic.Ring
import Mx6xBsp.Lib.Fields
import Mx6xBsp.Lib.Runs

/-!
# Block reads of the IPL

`sdmmc.c`: `sdmmc_init_card` finds out the kind of the card and its number of blocks, and
`sdmmc_read` reads blocks after that. The controller is known by the commands it was given,
each with the registers at that time, and by its answers. `reads_iff` tells for which
requests the read moves the blocks that it reports. The clock, the switch of an SD card to
high speed and the delays are left out, and waiting for the controller ends.
-/

namespace Mx6xBsp.Ipl.Sdmmc

open Fields Runs

abbrev Reg := BitVec 32

def SDMMC_BLOCKSIZE : Reg := 512
def POWER_UP_WAIT : Nat := 40

def MMC_GO_IDLE_STATE : Nat := 0
def MMC_SEND_OP_COND : Nat := 1
def MMC_ALL_SEND_CID : Nat := 2
def MMC_SET_RELATIVE_ADDR : Nat := 3
def MMC_SWITCH : Nat := 6
def MMC_SEL_DES_CARD : Nat := 7
def MMC_IF_COND : Nat := 8
def MMC_SEND_CSD : Nat := 9
def MMC_SEND_STATUS : Nat := 13
def MMC_SET_BLOCKLEN : Nat := 16
def MMC_READ_SINGLE_BLOCK : Nat := 17
def MMC_READ_MULTIPLE_BLOCK : Nat := 18
def MMC_APP_CMD : Nat := 55
def SD_SET_BUS_WIDTH : Nat := 55 <<< 8 ||| 6
def SD_SEND_OP_COND : Nat := 55 <<< 8 ||| 41

def MMC_IDLE : Reg := 0
def MMC_READY : Reg := 0x200
def MMC_IDENT : Reg := 0x400
def MMC_TRAN : Reg := 0x800

def MMCCMDXTYPE_DPSEL : Reg := 0x200000
def MMCCMDXTYPE_CICEN : Reg := 0x100000
def MMCCMDXTYPE_CCCEN : Reg := 0x80000
def MMCCMDXTYPE_RSPTYPMASK : Reg := 0x30000
def MMCCMDXTYPE_RSPTYPL136 : Reg := 0x10000
def MMCCMDXTYPE_RSPTYPL48 : Reg := 0x20000
def MMCCMDXTYPE_RSPTYPL48B : Reg := 0x30000
def MMCCMDXTYPE_MSBSEL : Reg := 0x20
def MMCCMDXTYPE_DTDSEL : Reg := 0x10
def MMCCMDXTYPE_AC12EN : Reg := 4
def MMCCMDXTYPE_BCEN : Reg := 2
def MMCCMDXTYPE_DMAEN : Reg := 1

def cmdtab : List (Nat × Reg) :=
  let r1 := MMCCMDXTYPE_CICEN ||| MMCCMDXTYPE_CCCEN ||| MMCCMDXTYPE_RSPTYPL48
  let r1b := MMCCMDXTYPE_CICEN ||| MMCCMDXTYPE_CCCEN ||| MMCCMDXTYPE_RSPTYPL48B
  let r2 := MMCCMDXTYPE_CCCEN ||| MMCCMDXTYPE_RSPTYPL136
  [(0, 0#32 <<< 24), (1, 1#32 <<< 24 ||| MMCCMDXTYPE_RSPTYPL48), (2, 2#32 <<< 24 ||| r2),
    (3, 3#32 <<< 24 ||| r1), (6, 6#32 <<< 24 ||| r1b), (7, 7#32 <<< 24 ||| r1b),
    (8, 8#32 <<< 24 ||| r1), (9, 9#32 <<< 24 ||| r2), (13, 13#32 <<< 24 ||| r1),
    (16, 16#32 <<< 24 ||| r1), (17, 17#32 <<< 24 ||| r1 ||| MMCCMDXTYPE_DPSEL),
    (18, 18#32 <<< 24 ||| r1 ||| MMCCMDXTYPE_DPSEL), (55, 55#32 <<< 24 ||| r1),
    (55 <<< 8 ||| 6, 6#32 <<< 24 ||| r1),
    (55 <<< 8 ||| 41, 41#32 <<< 24 ||| MMCCMDXTYPE_RSPTYPL48)]

def getCmd (cmd : Nat) : Option Reg := cmdtab.lookup cmd

/-! ## The controller and the card -/

/-- The registers at the time a command is given: MMCCMDXTYPE, MMCCMDARG, MMCMIX_CTRL, MMCBLATR and
MMCDMASYSADD -/
structure Sent where
  cmdxtype : Reg
  cmdarg : Reg
  mixCtrl : Reg
  blatr : Reg
  dmasysadd : Reg

/-- The four words of a response -/
structure Response where
  r0 : Reg
  r1 : Reg
  r2 : Reg
  r3 : Reg

/-- What follows a command: one of the error bits with its end, the response registers, and one of
the error bits with the end of the data -/
structure Reply where
  erri : Bool
  cmdrsp : Response
  dataErri : Bool

/-- The answers to the latest of the commands given so far, of which it is the first -/
abbrev Host := List Sent → Reply

inductive CardType
  | NONE
  | eMMC
  | eSDC
  | eSDC_V200
  | eSDC_HC
  | eMMC_HC
deriving DecidableEq

/-- `card_t` without the speed -/
structure Card where
  state : Reg
  type : CardType
  blkSize : Reg
  blkNum : Reg
  rca : BitVec 16

/-- The fields of `sd_csd_t` and `mmc_csd_t` that are used, and the words they are taken from -/
structure Csd where
  words : Response
  csdStructure : Reg
  readBlLen : Reg
  cSize : Reg
  cSizeMult : Reg

/-- `mx6x_sdmmc_t`, with the registers that keep their values and the commands given so far, the
latest first -/
structure Mx6xSdmmc where
  icr : Reg
  ocr : Reg
  card : Card
  csd : Csd
  mixCtrl : Reg
  blatr : Reg
  dmasysadd : Reg
  sent : List Sent

/-- Code that may end with `SDMMC_ERROR` -/
abbrev Act := OptionT (StateM Mx6xSdmmc)

/-- The bits of MMCMIX_CTRL for a command -/
def mixCtrlFor (cmd : Nat) : Reg :=
  if cmd = 17 then MMCCMDXTYPE_DTDSEL ||| MMCCMDXTYPE_DMAEN
  else if cmd = 18 then MMCCMDXTYPE_MSBSEL ||| MMCCMDXTYPE_BCEN ||| MMCCMDXTYPE_AC12EN |||
    MMCCMDXTYPE_DTDSEL ||| MMCCMDXTYPE_DMAEN
  else 0

/-- `mx6x_setup_dma_read` -/
def setupDmaRead (bsize bcnt dbuf : Reg) (s : Mx6xSdmmc) : Mx6xSdmmc :=
  { s with blatr := bcnt <<< 16 ||| bsize, dmasysadd := dbuf }

/-- The words that `sdmmc_send_cmd` makes of the response registers. A long one comes without its
CRC; of a short one there is only the first word. -/
def response (cmdxtype : Reg) (r : Response) : Response :=
  if cmdxtype &&& MMCCMDXTYPE_RSPTYPMASK = MMCCMDXTYPE_RSPTYPL136 then
    ⟨r.r0 <<< 8, r.r1 <<< 8 ||| r.r0 >>> 24, r.r2 <<< 8 ||| r.r1 >>> 24,
      r.r3 <<< 8 ||| r.r2 >>> 24⟩
  else ⟨r.r0, 0, 0, 0⟩

/-- The command is given to the controller. -/
def issue (cmd : Nat) (cmdxtype arg bsize bcnt dbuf : Reg) (s : Mx6xSdmmc) : Mx6xSdmmc :=
  let s := if cmdxtype &&& MMCCMDXTYPE_DPSEL ≠ 0 then setupDmaRead bsize bcnt dbuf s else s
  let mixCtrl := mixCtrlFor cmd ||| (s.mixCtrl &&& ((0xF : Reg) <<< 22))
  { s with mixCtrl, sent := ⟨cmdxtype, arg, mixCtrl, s.blatr, s.dmasysadd⟩ :: s.sent }

/-- What `sdmmc_send_cmd` makes of an answer. An error status is never 2, as the test of `temp` asks
for, since that is none of the error bits. -/
def answer (cmdxtype : Reg) (reply : Reply) : Option Response :=
  if reply.erri then none
  else if cmdxtype &&& MMCCMDXTYPE_DPSEL ≠ 0 ∧ reply.dataErri then none
  else some (response cmdxtype reply.cmdrsp)

/-- `sdmmc_send_cmd` -/
def sendCmd (host : Host) (cmd : Nat) (arg bsize bcnt dbuf : Reg) : Act Response :=
  OptionT.mk fun s => match getCmd cmd with
    | none => (none, s)
    | some cmdxtype =>
      let s := issue cmd cmdxtype arg bsize bcnt dbuf s
      (answer cmdxtype (host s.sent), s)

/-- Code whose error is not passed on -/
def attempt {α : Type} (act : Act α) : Act (Option α) := OptionT.lift act.run

/-- A command without data -/
def command (host : Host) (cmd : Nat) (arg : Reg) : Act Response := sendCmd host cmd arg 0 0 0

/-- The argument with the address of the card -/
def Card.rcaArg (c : Card) : Reg := c.rca.setWidth 32 <<< 16

def setState (state : Reg) (s : Mx6xSdmmc) : Mx6xSdmmc := { s with card.state := state }
def setRca (rca : BitVec 16) (s : Mx6xSdmmc) : Mx6xSdmmc := { s with card.rca := rca }
def setType (type : CardType) (s : Mx6xSdmmc) : Mx6xSdmmc := { s with card.type := type }

/-- `sdmmc_get_state` -/
def getState (host : Host) : Act Unit := do
  let rsp ← command host MMC_SEND_STATUS (← get).card.rcaArg
  modify (setState (rsp.r0 &&& 0x1e00))

/-- `sdmmc_check_ocr` -/
def checkOcr (host : Host) (ocr : Reg) : Act Unit := do
  if ocr &&& (← get).ocr = 0 then
    let _ ← attempt (command host MMC_GO_IDLE_STATE 0)
    failure

/-! ## The size of the card -/

/-- The fields that `sd_parse_csd` takes -/
def sdCsd (resp : Response) : Csd :=
  let csdStructure := resp.r3 >>> 30
  { words := resp
    csdStructure
    readBlLen := (resp.r2 >>> 16) &&& 0x0F
    cSize := if csdStructure = 0 then ((resp.r2 &&& 0x3FF) <<< 2) ||| (resp.r1 >>> 30)
      else ((resp.r2 &&& 0x3F) <<< 16) ||| (resp.r1 >>> 16)
    cSizeMult := if csdStructure = 0 then (resp.r1 >>> 15) &&& 0x07 else 0 }

/-- The fields that `mmc_parse_csd` takes -/
def mmcCsd (resp : Response) : Csd where
  words := resp
  csdStructure := resp.r3 >>> 30
  readBlLen := (resp.r2 >>> 16) &&& 0x0F
  cSize := ((resp.r2 &&& 0x3FF) <<< 2) ||| (resp.r1 >>> 30)
  cSizeMult := (resp.r1 >>> 15) &&& 0x07

/-- A block size of 512 for one that is a multiple of it -/
def forceTo512 (bsize csize : Reg) : Reg × Reg :=
  if 512 < bsize.toNat ∧ bsize % SDMMC_BLOCKSIZE = 0 then
    (SDMMC_BLOCKSIZE, csize * (bsize / SDMMC_BLOCKSIZE))
  else (bsize, csize)

/-- The block size and the number of blocks of `sd_parse_csd`. The product of the largest card is
too long for a word. -/
def sdBlocks (csd : Csd) : Reg × Reg :=
  if csd.csdStructure = 0 then
    let (bsize, csize) := forceTo512 ((1 : Reg) <<< csd.readBlLen.toNat) (csd.cSize + 1)
    (bsize, csize * ((1 : Reg) <<< (csd.cSizeMult.toNat + 2)))
  else
    let (bsize, csize) := forceTo512 SDMMC_BLOCKSIZE (csd.cSize + 1)
    (bsize, csize * 1024)

/-- The block size and the number of blocks of `mmc_parse_csd` -/
def mmcBlocks (csd : Csd) : Reg × Reg :=
  ((1 : Reg) <<< csd.readBlLen.toNat,
    (csd.cSize + 1) * ((1 : Reg) <<< (csd.cSizeMult.toNat + 2)))

def setCsd (csd : Csd) (blocks : Reg × Reg) (s : Mx6xSdmmc) : Mx6xSdmmc :=
  { s with csd, card.blkSize := blocks.1, card.blkNum := blocks.2 }

def sdParseCsd (host : Host) (resp : Response) : Act Unit := do
  modify (setCsd (sdCsd resp) (sdBlocks (sdCsd resp)))
  getState host

def mmcParseCsd (resp : Response) : Act Unit :=
  modify (setCsd (mmcCsd resp) (mmcBlocks (mmcCsd resp)))

/-! ## `sdmmc_init_card` -/

/-- The commands that tell the kind of the card -/
def probe (host : Host) : Act Unit := do
  modify (setRca 0)
  let _ ← command host MMC_GO_IDLE_STATE 0
  modify (setState MMC_IDLE)
  if (← attempt (command host MMC_IF_COND (← get).icr)).isSome then modify (setType .eSDC_V200)
  else if (← attempt (command host MMC_APP_CMD 0)).isSome then modify (setType .eSDC)
  else modify (setType .eMMC)
  let _ ← command host MMC_GO_IDLE_STATE 0

/-- A loop of the power up, which asks for the operating conditions until the card is ready; the
last answer, and whether it was in time -/
def powerUpLoop (host : Host) (request : Act Response) : Nat → Bool → Reg → Act (Reg × Bool)
  | 0, _, rsp => pure (rsp, false)
  | turns + 1, first, _ => do
    let rsp ← request
    if first then checkOcr host rsp.r0
    if rsp.r0 &&& 0x80000000 ≠ 0 then pure (rsp.r0, true)
    else powerUpLoop host request turns false rsp.r0

/-- `SD_SEND_OP_COND` after `MMC_APP_CMD` -/
def appOpCond (host : Host) : Act Response := do
  let _ ← command host MMC_APP_CMD (← get).card.rcaArg
  command host SD_SEND_OP_COND (0xc0000000 ||| (← get).ocr)

/-- The switch over the kinds that powers up the card -/
def powerUp (host : Host) : Act Bool := do
  match (← get).card.type with
  | .eSDC_V200 =>
    let _ ← command host MMC_IF_COND (← get).icr
    let (rsp, done) ← powerUpLoop host (appOpCond host) POWER_UP_WAIT true 0
    modify (setType (if rsp &&& 0x40000000 ≠ 0 then .eSDC_HC else .eSDC))
    return done
  | .eSDC =>
    let arg := 0x80000000 ||| (← get).ocr
    let (_, done) ← powerUpLoop host (command host SD_SEND_OP_COND arg) POWER_UP_WAIT true 0
    return done
  | .eMMC =>
    let arg := 0xc0000000 ||| (← get).ocr
    let (rsp, done) ← powerUpLoop host (command host MMC_SEND_OP_COND arg) POWER_UP_WAIT true 0
    if rsp &&& 0x40000000 ≠ 0 then modify (setType .eMMC_HC)
    return done
  | _ => failure

/-- The identification, with the relative address of the card -/
def identify (host : Host) : Act Unit := do
  modify (setState MMC_READY)
  let _ ← command host MMC_ALL_SEND_CID 0
  modify (setState MMC_IDENT)
  match (← get).card.type with
  | .eSDC | .eSDC_HC =>
    modify (setRca 1)
    let rsp ← command host MMC_SET_RELATIVE_ADDR (← get).card.rcaArg
    modify (setRca (rsp.r0.extractLsb' 16 16))
    getState host
  | .eMMC | .eMMC_HC =>
    modify (setRca 1)
    let _ ← command host MMC_SET_RELATIVE_ADDR (← get).card.rcaArg
    getState host
  | _ => failure

/-- The CSD of the card, parsed for its kind -/
def readCsd (host : Host) : Act Unit := do
  let rsp ← command host MMC_SEND_CSD (← get).card.rcaArg
  match (← get).card.type with
  | .eSDC | .eSDC_HC => sdParseCsd host rsp
  | .eMMC | .eMMC_HC => mmcParseCsd rsp
  | _ => failure

def selectCard (host : Host) : Act Unit := do
  let _ ← command host MMC_SEL_DES_CARD (← get).card.rcaArg
  getState host

/-- The card is made one of blocks of 512 bytes. -/
def Card.toBlockSize (c : Card) : Card :=
  { c with blkNum := c.blkNum * (c.blkSize / SDMMC_BLOCKSIZE), blkSize := SDMMC_BLOCKSIZE }

def setBlockSize (s : Mx6xSdmmc) : Mx6xSdmmc := { s with card := s.card.toBlockSize }

def setBlockLen (host : Host) : Act Unit := do
  let _ ← command host MMC_SET_BLOCKLEN (← get).card.blkSize
  getState host

/-- The switch to a wider bus; for an MMC card `mmc_switch_mode` -/
def switchMode (host : Host) : Act Unit := do
  match (← get).card.type with
  | .eSDC | .eSDC_HC =>
    let _ ← command host MMC_APP_CMD (← get).card.rcaArg
    let _ ← command host SD_SET_BUS_WIDTH 2
  | .eMMC | .eMMC_HC =>
    let _ ← command host MMC_SWITCH 0x03b70200
    let _ ← command host MMC_SWITCH 0x03b90101
  | _ => failure

def checkTime (done : Bool) : Act Unit := if done then pure () else failure

def sdmmcInitCard (host : Host) : Act Unit := do
  probe host
  let done ← powerUp host
  checkTime done
  identify host
  readCsd host
  selectCard host
  modify setBlockSize
  setBlockLen host
  switchMode host

/-! ## `sdmmc_read` -/

structure Request where
  buf : Reg
  blkno : Reg
  blkcnt : Reg

/-- What `sdmmc_read` ends with; `polling` if it still asks for the state of the card. -/
inductive Result
  | ok
  | error
  | polling
deriving DecidableEq

/-- The loop that waits until the card is ready for the next transfer -/
def waitTran (host : Host) : Nat → Mx6xSdmmc → Result × Mx6xSdmmc
  | 0, s => if s.card.state = MMC_TRAN then (.ok, s) else (.polling, s)
  | polls + 1, s =>
    if s.card.state = MMC_TRAN then (.ok, s)
    else match (getState host).run.run s with
      | (none, s) => (.error, s)
      | (some _, s) => waitTran host polls s

/-- The cards that take addresses of bytes -/
def CardType.byteAddressed (type : CardType) : Bool := type = .eMMC ∨ type = .eSDC

/-- The command of a read -/
def Request.cmd (r : Request) : Nat :=
  if r.blkcnt = 1 then MMC_READ_SINGLE_BLOCK else MMC_READ_MULTIPLE_BLOCK

/-- The argument of a read -/
def CardType.arg (type : CardType) (blkno : Reg) : Reg :=
  if type.byteAddressed then blkno * SDMMC_BLOCKSIZE else blkno

/-- The test that turns a read down -/
def Refused (s : Mx6xSdmmc) (r : Request) : Prop :=
  s.card.blkNum ≤ r.blkno ∨ s.card.blkNum < r.blkno + r.blkcnt ∨ r.blkno + r.blkcnt < r.blkno

instance (s : Mx6xSdmmc) (r : Request) : Decidable (Refused s r) :=
  inferInstanceAs (Decidable (_ ∨ _ ∨ _))

/-- `sdmmc_read`, for at most `polls` questions for the state -/
def sdmmcRead (host : Host) (polls : Nat) (r : Request) (s : Mx6xSdmmc) : Result × Mx6xSdmmc :=
  if Refused s r then (.error, s)
  else if r.blkcnt = 0 then (.ok, s)
  else
    let arg := s.card.type.arg r.blkno
    match (sendCmd host r.cmd arg SDMMC_BLOCKSIZE r.blkcnt r.buf).run.run s with
    | (none, s) => (.error, s)
    | (some _, s) => waitTran host polls s

/-! ## What is right -/

/-- The CSD as a register of 128 bits -/
def Response.bits (r : Response) : BitVec 128 := r.r3 ++ r.r2 ++ r.r1 ++ r.r0

/-- The CSD is laid out as version 2, of an SD card of high capacity. -/
def versionTwo (type : CardType) (csd : BitVec 128) : Prop :=
  (type = .eSDC ∨ type = .eSDC_HC) ∧ field csd 126 2 ≠ 0

instance (type : CardType) (csd : BitVec 128) : Decidable (versionTwo type csd) :=
  inferInstanceAs (Decidable (_ ∧ _))

/-- The capacity that a CSD declares, in bytes: C_SIZE plus 1, times the multiplier, times the
length of a block -/
def capacity (type : CardType) (csd : BitVec 128) : Nat :=
  if versionTwo type csd then ((field csd 48 22).toNat + 1) * 1024 * 512
  else ((field csd 62 12).toNat + 1) * 2 ^ ((field csd 47 3).toNat + 2) *
    2 ^ (field csd 80 4).toNat

/-- A read command moves `count` blocks of `size` bytes from the address of the card to `buf`. -/
structure Sent.Moves (c : Sent) (address count size : Nat) (buf : Reg) : Prop where
  command : (field c.cmdxtype 24 6).toNat = if count = 1 then 17 else 18
  address : c.cmdarg.toNat = address
  /-- One block without a count, or as many as are counted -/
  count : (if c.mixCtrl.getLsbD 5 then (if c.mixCtrl.getLsbD 1 then
    some (field c.blatr 16 16).toNat else none) else some 1) = some count
  size : (field c.blatr 0 13).toNat = size
  buf : c.dmasysadd = buf
  reads : c.mixCtrl.getLsbD 4 = true
  dma : c.mixCtrl.getLsbD 0 = true

/-- The address of a block on the card -/
def CardType.address (type : CardType) (blkno : Nat) : Nat :=
  if type.byteAddressed then blkno * 512 else blkno

/-- The command programs the controller for the request, which lies on the card. -/
structure Programs (s : Mx6xSdmmc) (r : Request) (c : Sent) : Prop where
  moves : c.Moves (s.card.type.address r.blkno.toNat) r.blkcnt.toNat 512 r.buf
  inside : r.blkno.toNat + r.blkcnt.toNat ≤ capacity s.card.type s.csd.words.bits / 512

/-- The question for the state of the card -/
def IsQuestion (c : Sent) : Prop := (field c.cmdxtype 24 6).toNat = MMC_SEND_STATUS

/-- A read gives no command, and reports an error unless it is for no blocks, or it gives the one
command for the request, and then asks for the state only. -/
def Right (s : Mx6xSdmmc) (r : Request) (after : Result × Mx6xSdmmc) : Prop :=
  (after.2.sent = s.sent ∧ (r.blkcnt.toNat = 0 ∨ after.1 = .error)) ∨
    ∃ c questions, after.2.sent = questions ++ c :: s.sent ∧ 0 < r.blkcnt.toNat ∧
      Programs s r c ∧ ∀ q ∈ questions, IsQuestion q

/-- The blocks of the request are blocks of the card. -/
def Within (s : Mx6xSdmmc) (r : Request) : Prop :=
  0 < r.blkcnt.toNat ∧ r.blkno.toNat + r.blkcnt.toNat ≤ s.card.blkNum.toNat

/-- The count fits its field, and an address of a byte fits the argument. -/
def Fits (s : Mx6xSdmmc) (r : Request) : Prop :=
  r.blkcnt.toNat < 2 ^ 16 ∧ (s.card.type.byteAddressed → r.blkno.toNat < 2 ^ 23)

/-! ## What the code keeps -/

/-- What the reads go by -/
def Mx6xSdmmc.size (s : Mx6xSdmmc) : CardType × Reg × Reg × Csd :=
  (s.card.type, s.card.blkSize, s.card.blkNum, s.csd)

def Keeps {α : Type} (act : Act α) : Prop := ∀ s, (act.run.run s).2.size = s.size

theorem run_bind {α β : Type} (act : Act α) (next : α → Act β) (s : Mx6xSdmmc) :
    (act >>= next).run.run s = match act.run.run s with
      | (none, t) => (none, t)
      | (some a, t) => (next a).run.run t := by
  rw [OptionT.run_bind]
  show (Option.elimM act.run (pure none) fun a => (next a).run).run s = _
  unfold Option.elimM
  rcases h : act.run.run s with ⟨_ | a, t⟩
  · rw [StateT.run_bind, h]
    rfl
  · rw [StateT.run_bind, h]
    rfl

theorem ok_bind {α β : Type} {act : Act α} {next : α → Act β} {s t : Mx6xSdmmc} {b : β}
    (ends : (act >>= next).run.run s = (some b, t)) :
    ∃ a u, act.run.run s = (some a, u) ∧ (next a).run.run u = (some b, t) := by
  rw [run_bind] at ends
  rcases h : act.run.run s with ⟨_ | a, u⟩
  · rw [h] at ends
    cases ends
  · rw [h] at ends
    exact ⟨a, u, rfl, ends⟩

theorem Keeps.bind {α β : Type} {act : Act α} {next : α → Act β} (first : Keeps act)
    (rest : ∀ a, Keeps (next a)) : Keeps (act >>= next) := by
  intro s
  rw [run_bind]
  have kept := first s
  rcases h : act.run.run s with ⟨_ | a, u⟩
  · rw [h] at kept
    exact kept
  · rw [h] at kept
    exact (rest a u).trans kept

theorem Keeps.pure {α : Type} (a : α) : Keeps (pure a : Act α) := fun _ => rfl

theorem Keeps.failure {α : Type} : Keeps (failure : Act α) := fun _ => rfl

theorem Keeps.get : Keeps (get : Act Mx6xSdmmc) := fun _ => rfl

theorem Keeps.modify {f : Mx6xSdmmc → Mx6xSdmmc} (same : ∀ s, (f s).size = s.size) :
    Keeps (modify f : Act PUnit) := same

theorem issue_size (cmd : Nat) (cmdxtype arg bsize bcnt dbuf : Reg) (s : Mx6xSdmmc) :
    (issue cmd cmdxtype arg bsize bcnt dbuf s).size = s.size := by
  unfold issue
  by_cases data : cmdxtype &&& MMCCMDXTYPE_DPSEL ≠ 0
  · rw [if_pos data]
    rfl
  · rw [if_neg data]
    rfl

theorem sendCmd_run (host : Host) {cmd : Nat} (arg bsize bcnt dbuf : Reg) (s : Mx6xSdmmc)
    {cmdxtype : Reg} (known : getCmd cmd = some cmdxtype) :
    (sendCmd host cmd arg bsize bcnt dbuf).run.run s =
      (answer cmdxtype (host (issue cmd cmdxtype arg bsize bcnt dbuf s).sent),
        issue cmd cmdxtype arg bsize bcnt dbuf s) := by
  show (match getCmd cmd with
    | none => ((none, s) : Option Response × Mx6xSdmmc)
    | some cmdxtype => _) = _
  rw [known]

theorem sendCmd_keeps (host : Host) (cmd : Nat) (arg bsize bcnt dbuf : Reg) :
    Keeps (sendCmd host cmd arg bsize bcnt dbuf) := by
  intro s
  cases known : getCmd cmd with
  | none =>
    show ((match getCmd cmd with
      | none => ((none, s) : Option Response × Mx6xSdmmc)
      | some cmdxtype => _).2).size = _
    rw [known]
  | some cmdxtype =>
    rw [sendCmd_run host arg bsize bcnt dbuf s known]
    exact issue_size cmd cmdxtype arg bsize bcnt dbuf s

theorem command_keeps (host : Host) (cmd : Nat) (arg : Reg) : Keeps (command host cmd arg) :=
  sendCmd_keeps host cmd arg 0 0 0

theorem getState_keeps (host : Host) : Keeps (getState host) :=
  Keeps.get.bind fun _ => (command_keeps host _ _).bind fun _ => Keeps.modify fun _ => rfl

theorem selectCard_keeps (host : Host) : Keeps (selectCard host) :=
  Keeps.get.bind fun _ => (command_keeps host _ _).bind fun _ => getState_keeps host

theorem setBlockLen_keeps (host : Host) : Keeps (setBlockLen host) :=
  Keeps.get.bind fun _ => (command_keeps host _ _).bind fun _ => getState_keeps host

theorem switchMode_keeps (host : Host) : Keeps (switchMode host) := by
  refine Keeps.get.bind fun s => ?_
  have sd : Keeps (do
      let _ ← command host MMC_APP_CMD (← get).card.rcaArg
      let _ ← command host SD_SET_BUS_WIDTH 2) :=
    Keeps.get.bind fun _ => (command_keeps host _ _).bind fun _ =>
      (command_keeps host _ _).bind fun _ => Keeps.pure _
  have mmc : Keeps (do
      let _ ← command host MMC_SWITCH 0x03b70200
      let _ ← command host MMC_SWITCH 0x03b90101) :=
    (command_keeps host _ _).bind fun _ => (command_keeps host _ _).bind fun _ => Keeps.pure _
  cases s.card.type with
  | eSDC => exact sd
  | eSDC_HC => exact sd
  | eMMC => exact mmc
  | eMMC_HC => exact mmc
  | NONE => exact Keeps.failure
  | eSDC_V200 => exact Keeps.failure


/-! ## The capacity -/

theorem toNat_shiftRight (w : Reg) (k : Nat) : (w >>> k).toNat = w.toNat / 2 ^ k := by
  rw [BitVec.toNat_ushiftRight, Nat.shiftRight_eq_div_pow]

theorem bits_toNat (r : Response) :
    r.bits.toNat =
      r.r3.toNat * 2 ^ 96 + r.r2.toNat * 2 ^ 64 + r.r1.toNat * 2 ^ 32 + r.r0.toNat := by
  unfold Response.bits
  rw [Fields.toNat_append, Fields.toNat_append, Fields.toNat_append]
  ring

theorem cSize_toNat (r : Response) :
    (((r.r2 &&& 0x3FF) <<< 2) ||| (r.r1 >>> 30)).toNat = (field r.bits 62 12).toNat := by
  have low : (r.r2 &&& 0x3FF).toNat = r.r2.toNat % 2 ^ 10 :=
    Masks.toNat_and_low rfl
  have high : (r.r1 >>> 30).toNat = r.r1.toNat / 2 ^ 30 := toNat_shiftRight ..
  have bound := r.r1.isLt
  have bound' := r.r0.isLt
  rw [toNat_join 2 (by omega) (by omega), low, high, field_toNat, bits_toNat]
  omega

theorem cSizeTwo_toNat (r : Response) :
    (((r.r2 &&& 0x3F) <<< 16) ||| (r.r1 >>> 16)).toNat = (field r.bits 48 22).toNat := by
  have low : (r.r2 &&& 0x3F).toNat = r.r2.toNat % 2 ^ 6 :=
    Masks.toNat_and_low rfl
  have high : (r.r1 >>> 16).toNat = r.r1.toNat / 2 ^ 16 := toNat_shiftRight ..
  have bound := r.r1.isLt
  have bound' := r.r0.isLt
  rw [toNat_join 16 (by omega) (by omega), low, high, field_toNat, bits_toNat]
  omega

theorem readBlLen_toNat (r : Response) :
    ((r.r2 >>> 16) &&& 0x0F).toNat = (field r.bits 80 4).toNat := by
  have low : ((r.r2 >>> 16) &&& 0x0F).toNat = (r.r2 >>> 16).toNat % 2 ^ 4 :=
    Masks.toNat_and_low rfl
  have bound := r.r1.isLt
  have bound' := r.r0.isLt
  rw [low, toNat_shiftRight, field_toNat, bits_toNat]
  omega

theorem cSizeMult_toNat (r : Response) :
    ((r.r1 >>> 15) &&& 0x07).toNat = (field r.bits 47 3).toNat := by
  have low : ((r.r1 >>> 15) &&& 0x07).toNat = (r.r1 >>> 15).toNat % 2 ^ 3 :=
    Masks.toNat_and_low rfl
  have bound := r.r1.isLt
  have bound' := r.r0.isLt
  rw [low, toNat_shiftRight, field_toNat, bits_toNat]
  omega

theorem csdStructure_iff (r : Response) : r.r3 >>> 30 = 0 ↔ field r.bits 126 2 = 0 := by
  have same : (r.r3 >>> 30).toNat = (field r.bits 126 2).toNat := by
    have bound := r.r3.isLt
    have bound' := r.r2.isLt
    have bound2 := r.r1.isLt
    have bound3 := r.r0.isLt
    rw [toNat_shiftRight, field_toNat, bits_toNat]
    omega
  constructor
  · intro zero
    exact BitVec.eq_of_toNat_eq (by rw [← same, zero]; rfl)
  · intro zero
    exact BitVec.eq_of_toNat_eq (by rw [same, zero]; rfl)

theorem toNat_mul_le (v w : Reg) : (v * w).toNat ≤ v.toNat * w.toNat := by
  rw [BitVec.toNat_mul]
  exact Nat.mod_le _ _

theorem succ_le (v : Reg) : (v + 1).toNat ≤ v.toNat + 1 := by
  rw [BitVec.toNat_add]
  exact Nat.mod_le _ _

theorem one_shiftLeft_le (k : Nat) : ((1 : Reg) <<< k).toNat ≤ 2 ^ k := by
  rw [BitVec.toNat_shiftLeft, Nat.shiftLeft_eq]
  exact (Nat.mod_le _ _).trans (Nat.one_mul _).le

/-- The number of blocks that is left of `csize` times `csizem` blocks of `bsize` bytes -/
theorem blocks_le {csize csizem bsize : Reg} {c m b : Nat} (le : csize.toNat ≤ c)
    (le' : csizem.toNat ≤ m) (le2 : bsize.toNat ≤ b) :
    (csize * csizem * (bsize / SDMMC_BLOCKSIZE)).toNat ≤ c * m * b / 512 := by
  have size : (bsize / SDMMC_BLOCKSIZE).toNat = bsize.toNat / 512 := BitVec.toNat_udiv
  calc (csize * csizem * (bsize / SDMMC_BLOCKSIZE)).toNat
      ≤ (csize * csizem).toNat * (bsize.toNat / 512) := by
        rw [← size]
        exact toNat_mul_le _ _
    _ ≤ c * m * (b / 512) :=
        Nat.mul_le_mul ((toNat_mul_le _ _).trans (Nat.mul_le_mul le le'))
          (Nat.div_le_div_right le2)
    _ ≤ c * m * b / 512 := Nat.mul_div_le_mul_div_assoc _ _ _

theorem forceTo512_le {bsize csize csizem : Reg} {c m b : Nat} (le : csize.toNat ≤ c)
    (le' : csizem.toNat ≤ m) (le2 : bsize.toNat ≤ b) :
    ((forceTo512 bsize csize).2 * csizem * ((forceTo512 bsize csize).1 / SDMMC_BLOCKSIZE)).toNat ≤
      c * m * b / 512 := by
  unfold forceTo512
  by_cases large : 512 < bsize.toNat ∧ bsize % SDMMC_BLOCKSIZE = 0
  · rw [if_pos large]
    have same : csize * (bsize / SDMMC_BLOCKSIZE) * csizem * (SDMMC_BLOCKSIZE / SDMMC_BLOCKSIZE) =
        csize * csizem * (bsize / SDMMC_BLOCKSIZE) := by
      have one : SDMMC_BLOCKSIZE / SDMMC_BLOCKSIZE = 1 := by decide
      rw [one]
      ring
    dsimp only
    rw [same]
    exact blocks_le le le' le2
  · rw [if_neg large]
    exact blocks_le le le' le2

/-- The card has no more blocks than its CSD declares. -/
def Sized (s : Mx6xSdmmc) : Prop :=
  s.card.blkNum.toNat ≤ capacity s.card.type s.csd.words.bits / 512

theorem Sized.of_size {s t : Mx6xSdmmc} (same : t.size = s.size) (sized : Sized s) : Sized t := by
  obtain ⟨type, _, num, csd⟩ : t.card.type = s.card.type ∧ t.card.blkSize = s.card.blkSize ∧
      t.card.blkNum = s.card.blkNum ∧ t.csd = s.csd := by
    simpa only [Mx6xSdmmc.size, Prod.mk.injEq] using same
  unfold Sized
  rw [type, num, csd]
  exact sized

theorem sdBlocks_le {type : CardType} (r : Response) (sd : type = .eSDC ∨ type = .eSDC_HC) :
    ((sdBlocks (sdCsd r)).2 * ((sdBlocks (sdCsd r)).1 / SDMMC_BLOCKSIZE)).toNat ≤
      capacity type r.bits / 512 := by
  unfold sdBlocks capacity
  by_cases one : r.r3 >>> 30 = 0
  · have version : ¬versionTwo type r.bits := fun two => two.2 ((csdStructure_iff r).mp one)
    have cSize : (sdCsd r).cSize.toNat = (field r.bits 62 12).toNat := by
      unfold sdCsd
      dsimp only
      rw [if_pos one]
      exact cSize_toNat r
    have mult : (sdCsd r).cSizeMult.toNat = (field r.bits 47 3).toNat := by
      unfold sdCsd
      dsimp only
      rw [if_pos one]
      exact cSizeMult_toNat r
    rw [if_pos (show (sdCsd r).csdStructure = 0 from one), if_neg version, ← cSize, ← mult,
      ← readBlLen_toNat r]
    exact forceTo512_le (succ_le _) (one_shiftLeft_le _) (one_shiftLeft_le _)
  · have version : versionTwo type r.bits := ⟨sd, fun zero => one ((csdStructure_iff r).mpr zero)⟩
    have cSize : (sdCsd r).cSize.toNat = (field r.bits 48 22).toNat := by
      unfold sdCsd
      dsimp only
      rw [if_neg one]
      exact cSizeTwo_toNat r
    rw [if_neg (show (sdCsd r).csdStructure ≠ 0 from one), if_pos version, ← cSize]
    exact forceTo512_le (succ_le _) (Nat.le_refl 1024) (Nat.le_refl 512)

theorem mmcBlocks_le {type : CardType} (r : Response) (mmc : type = .eMMC ∨ type = .eMMC_HC) :
    ((mmcBlocks (mmcCsd r)).2 * ((mmcBlocks (mmcCsd r)).1 / SDMMC_BLOCKSIZE)).toNat ≤
      capacity type r.bits / 512 := by
  have version : ¬versionTwo type r.bits := by
    rintro ⟨sd, _⟩
    rcases mmc with rfl | rfl
    · exact absurd sd (by decide)
    · exact absurd sd (by decide)
  unfold mmcBlocks capacity
  rw [if_neg version, ← cSize_toNat r, ← cSizeMult_toNat r, ← readBlLen_toNat r]
  exact blocks_le (succ_le _) (one_shiftLeft_le _) (one_shiftLeft_le _)

/-! ## The card after `sdmmc_init_card` -/

/-- The blocks are counted of the size they have, with which the card becomes one of as many blocks
as its CSD declares at most. -/
def Parsed (s : Mx6xSdmmc) : Prop :=
  (s.card.blkNum * (s.card.blkSize / SDMMC_BLOCKSIZE)).toNat ≤
    capacity s.card.type s.csd.words.bits / 512

theorem Parsed.of_size {s t : Mx6xSdmmc} (same : t.size = s.size) (parsed : Parsed s) :
    Parsed t := by
  obtain ⟨type, size, num, csd⟩ : t.card.type = s.card.type ∧ t.card.blkSize = s.card.blkSize ∧
      t.card.blkNum = s.card.blkNum ∧ t.csd = s.csd := by
    simpa only [Mx6xSdmmc.size, Prod.mk.injEq] using same
  unfold Parsed
  rw [type, size, num, csd]
  exact parsed

theorem keeps_ok {α : Type} {act : Act α} {s t : Mx6xSdmmc} {a : α} (keeps : Keeps act)
    (ends : act.run.run s = (some a, t)) : t.size = s.size := by
  have kept := keeps s
  rwa [ends] at kept

theorem readCsd_parsed {host : Host} {s t : Mx6xSdmmc}
    (ends : (readCsd host).run.run s = (some (), t)) : Parsed t := by
  obtain ⟨_, _, got, ends⟩ := ok_bind ends
  obtain ⟨rsp, u, _, ends⟩ := ok_bind ends
  obtain ⟨_, _, got', ends⟩ := ok_bind ends
  cases got'
  have sd : (u.card.type = .eSDC ∨ u.card.type = .eSDC_HC) →
      (sdParseCsd host rsp).run.run u = (some (), t) → Parsed t := by
    intro kind ends
    obtain ⟨_, v, set, ends⟩ := ok_bind ends
    cases set
    exact Parsed.of_size (keeps_ok (getState_keeps host) ends) (sdBlocks_le rsp kind)
  have mmc : (u.card.type = .eMMC ∨ u.card.type = .eMMC_HC) →
      (mmcParseCsd rsp).run.run u = (some (), t) → Parsed t := by
    intro kind ends
    cases ends
    exact mmcBlocks_le rsp kind
  cases kind : u.card.type with
  | eSDC =>
    rw [kind] at ends
    exact sd (.inl kind) ends
  | eSDC_HC =>
    rw [kind] at ends
    exact sd (.inr kind) ends
  | eMMC =>
    rw [kind] at ends
    exact mmc (.inl kind) ends
  | eMMC_HC =>
    rw [kind] at ends
    exact mmc (.inr kind) ends
  | NONE =>
    rw [kind] at ends
    cases ends
  | eSDC_V200 =>
    rw [kind] at ends
    cases ends

/-- A card that `sdmmc_init_card` has accepted has no more blocks than its CSD declares. -/
theorem sdmmcInitCard_sized {host : Host} {s t : Mx6xSdmmc}
    (ends : (sdmmcInitCard host).run.run s = (some (), t)) : Sized t := by
  obtain ⟨_, _, _, ends⟩ := ok_bind ends
  obtain ⟨_, _, _, ends⟩ := ok_bind ends
  obtain ⟨_, _, _, ends⟩ := ok_bind ends
  obtain ⟨_, _, _, ends⟩ := ok_bind ends
  obtain ⟨_, u, read, ends⟩ := ok_bind ends
  obtain ⟨_, v, selected, ends⟩ := ok_bind ends
  obtain ⟨_, w, sized, ends⟩ := ok_bind ends
  obtain ⟨_, x, set, ends⟩ := ok_bind ends
  have parsed := (readCsd_parsed read).of_size (keeps_ok (selectCard_keeps host) selected)
  have blocks : Sized w := by
    cases sized
    exact parsed
  exact (blocks.of_size (keeps_ok (setBlockLen_keeps host) set)).of_size
    (keeps_ok (switchMode_keeps host) ends)

/-! ## The commands of a read -/

theorem issue_sent (cmd : Nat) (cmdxtype arg bsize bcnt dbuf : Reg) (s : Mx6xSdmmc) :
    (issue cmd cmdxtype arg bsize bcnt dbuf s).sent =
      ⟨cmdxtype, arg, (issue cmd cmdxtype arg bsize bcnt dbuf s).mixCtrl,
        (issue cmd cmdxtype arg bsize bcnt dbuf s).blatr,
        (issue cmd cmdxtype arg bsize bcnt dbuf s).dmasysadd⟩ :: s.sent := by
  unfold issue
  by_cases data : cmdxtype &&& MMCCMDXTYPE_DPSEL ≠ 0
  · rw [if_pos data]
    rfl
  · rw [if_neg data]

/-- An entry of the table for the status -/
def statusXtype : Reg :=
  13#32 <<< 24 ||| (MMCCMDXTYPE_CICEN ||| MMCCMDXTYPE_CCCEN ||| MMCCMDXTYPE_RSPTYPL48)

theorem getState_sent (host : Host) (s : Mx6xSdmmc) :
    ∃ q, ((getState host).run.run s).2.sent = q :: s.sent ∧ IsQuestion q := by
  have known : getCmd MMC_SEND_STATUS = some statusXtype := by decide
  have head := issue_sent MMC_SEND_STATUS statusXtype s.card.rcaArg 0 0 0 s
  refine ⟨_, Eq.trans ?_ head, ?_⟩
  · unfold getState
    rw [run_bind]
    show ((command host MMC_SEND_STATUS s.card.rcaArg >>= _ : Act Unit).run.run s).2.sent = _
    rw [run_bind]
    unfold command
    rw [sendCmd_run host s.card.rcaArg 0 0 0 s known]
    cases answer statusXtype _ with
    | none => rfl
    | some rsp => rfl
  · show (field statusXtype 24 6).toNat = MMC_SEND_STATUS
    decide

theorem waitTran_sent (host : Host) (polls : Nat) (s : Mx6xSdmmc) :
    ∃ questions, (waitTran host polls s).2.sent = questions ++ s.sent ∧
      ∀ q ∈ questions, IsQuestion q := by
  have still : ∃ questions, s.sent = questions ++ s.sent ∧ ∀ q ∈ questions, IsQuestion q :=
    ⟨[], rfl, fun _ mem => absurd mem (List.not_mem_nil)⟩
  induction polls generalizing s with
  | zero =>
    unfold waitTran
    by_cases ready : s.card.state = MMC_TRAN
    · rw [if_pos ready]
      exact still
    · rw [if_neg ready]
      exact still
  | succ polls ih =>
    unfold waitTran
    by_cases ready : s.card.state = MMC_TRAN
    · rw [if_pos ready]
      exact still
    · rw [if_neg ready]
      obtain ⟨q, asked, question⟩ := getState_sent host s
      rcases h : (getState host).run.run s with ⟨_ | _, t⟩
      · rw [h] at asked
        exact ⟨[q], asked, fun q' mem => List.mem_singleton.mp mem ▸ question⟩
      · rw [h] at asked
        obtain ⟨questions, more, all⟩ := ih t ⟨[], rfl, fun _ mem => absurd mem List.not_mem_nil⟩
        refine ⟨questions ++ [q], ?_, fun q' mem => ?_⟩
        · rw [List.append_assoc]
          exact more.trans (congrArg (questions ++ ·) asked)
        · rcases List.mem_append.mp mem with before | last
          · exact all q' before
          · exact List.mem_singleton.mp last ▸ question

/-- The entry of the table for the reads -/
def readXtype (cmd : Nat) : Reg :=
  BitVec.ofNat 32 cmd <<< 24 ||| (MMCCMDXTYPE_CICEN ||| MMCCMDXTYPE_CCCEN |||
    MMCCMDXTYPE_RSPTYPL48) ||| MMCCMDXTYPE_DPSEL

theorem getCmd_read (r : Request) : getCmd r.cmd = some (readXtype r.cmd) := by
  unfold Request.cmd
  by_cases one : r.blkcnt = 1
  · rw [if_pos one]
    decide
  · rw [if_neg one]
    decide

/-- The registers with the command of a read -/
def readSent (s : Mx6xSdmmc) (r : Request) : Sent where
  cmdxtype := readXtype r.cmd
  cmdarg := s.card.type.arg r.blkno
  mixCtrl := mixCtrlFor r.cmd ||| (s.mixCtrl &&& ((0xF : Reg) <<< 22))
  blatr := r.blkcnt <<< 16 ||| SDMMC_BLOCKSIZE
  dmasysadd := r.buf

theorem readXtype_data (r : Request) : readXtype r.cmd &&& MMCCMDXTYPE_DPSEL ≠ 0 := by
  unfold Request.cmd
  by_cases one : r.blkcnt = 1
  · rw [if_pos one]
    decide
  · rw [if_neg one]
    decide

theorem issue_read (s : Mx6xSdmmc) (r : Request) :
    (issue r.cmd (readXtype r.cmd) (s.card.type.arg r.blkno) SDMMC_BLOCKSIZE r.blkcnt r.buf
      s).sent = readSent s r :: s.sent := by
  unfold issue
  rw [if_pos (readXtype_data r)]
  rfl

theorem within_iff (s : Mx6xSdmmc) (r : Request) :
    Within s r ↔ ¬Refused s r ∧ r.blkcnt ≠ 0 := by
  have num := s.card.blkNum.isLt
  have no := r.blkno.isLt
  have cnt := r.blkcnt.isLt
  have some_ : r.blkcnt ≠ 0 ↔ 0 < r.blkcnt.toNat := by
    rw [Nat.pos_iff_ne_zero]
    exact not_congr (BitVec.toNat_inj (y := 0)).symm
  unfold Within Refused
  rw [some_, BitVec.le_def, BitVec.lt_def, BitVec.lt_def, BitVec.toNat_add]
  omega

theorem sdmmcRead_refused (host : Host) (polls : Nat) {r : Request} {s : Mx6xSdmmc}
    (out : ¬Within s r) :
    (sdmmcRead host polls r s).2 = s ∧
      (r.blkcnt.toNat = 0 ∨ (sdmmcRead host polls r s).1 = .error) := by
  unfold sdmmcRead
  by_cases refused : Refused s r
  · rw [if_pos refused]
    exact ⟨rfl, .inr rfl⟩
  · have none_ : r.blkcnt = 0 := Classical.not_not.mp fun some_ =>
      out ((within_iff s r).mpr ⟨refused, some_⟩)
    rw [if_neg refused, if_pos none_, none_]
    exact ⟨rfl, .inl rfl⟩

theorem sdmmcRead_sent (host : Host) (polls : Nat) {r : Request} {s : Mx6xSdmmc}
    (within : Within s r) :
    ∃ questions, (sdmmcRead host polls r s).2.sent = questions ++ readSent s r :: s.sent ∧
      ∀ q ∈ questions, IsQuestion q := by
  obtain ⟨accepted, some_⟩ := (within_iff s r).mp within
  have head := issue_read s r
  unfold sdmmcRead
  rw [if_neg accepted, if_neg some_]
  dsimp only
  rw [sendCmd_run host _ _ _ _ s (getCmd_read r)]
  cases answer (readXtype r.cmd) _ with
  | none => exact ⟨[], head, fun _ mem => absurd mem List.not_mem_nil⟩
  | some rsp =>
    obtain ⟨questions, more, all⟩ := waitTran_sent host polls
      (issue r.cmd (readXtype r.cmd) (s.card.type.arg r.blkno) SDMMC_BLOCKSIZE r.blkcnt r.buf s)
    exact ⟨questions, more.trans (congrArg (questions ++ ·) head), all⟩

/-! ## When the command is right -/

theorem kept_bit (bits old : Reg) {i : Nat} (low : i < 22) :
    (bits ||| (old &&& ((0xF : Reg) <<< 22))).getLsbD i = bits.getLsbD i := by
  rw [BitVec.getLsbD_or, BitVec.getLsbD_and, BitVec.getLsbD_shiftLeft, decide_eq_true low,
    Bool.not_true, Bool.and_false, Bool.false_and, Bool.and_false, Bool.or_false]

theorem count_field (v : Reg) :
    (field (v <<< 16 ||| SDMMC_BLOCKSIZE) 16 16).toNat = v.toNat % 2 ^ 16 := by
  have out : field SDMMC_BLOCKSIZE 16 16 = BitVec.zero 16 := by decide
  rw [field_or, out]
  refine (congrArg BitVec.toNat BitVec.or_zero).trans ?_
  rw [field_toNat, BitVec.toNat_shiftLeft, Nat.shiftLeft_eq]
  omega

theorem size_field (v : Reg) : (field (v <<< 16 ||| SDMMC_BLOCKSIZE) 0 13).toNat = 512 := by
  have out : field (v <<< 16) 0 13 = BitVec.zero 13 := by
    refine BitVec.eq_of_toNat_eq ?_
    rw [field_toNat, BitVec.toNat_shiftLeft, Nat.shiftLeft_eq]
    show _ = 0
    omega
  rw [field_or, out]
  refine (congrArg BitVec.toNat BitVec.zero_or).trans ?_
  decide

theorem arg_iff (type : CardType) (blkno : Reg) :
    (type.arg blkno).toNat = type.address blkno.toNat ↔
      (type.byteAddressed → blkno.toNat < 2 ^ 23) := by
  unfold CardType.arg CardType.address
  by_cases bytes : type.byteAddressed = true
  · rw [if_pos bytes, if_pos bytes, BitVec.toNat_mul]
    have size : SDMMC_BLOCKSIZE.toNat = 512 := rfl
    have bound := blkno.isLt
    rw [size]
    constructor
    · intro same _
      omega
    · intro low
      have low := low bytes
      omega
  · rw [if_neg bytes, if_neg bytes]
    exact iff_of_true rfl fun bytes' => absurd bytes' bytes

theorem moves_iff (s : Mx6xSdmmc) (r : Request) :
    (readSent s r).Moves (s.card.type.address r.blkno.toNat) r.blkcnt.toNat 512 r.buf ↔
      Fits s r := by
  have bit : ∀ i, i < 22 →
      (readSent s r).mixCtrl.getLsbD i = (mixCtrlFor r.cmd).getLsbD i := fun i low =>
    kept_bit _ _ low
  have counted : (field (readSent s r).blatr 16 16).toNat = r.blkcnt.toNat % 2 ^ 16 :=
    count_field r.blkcnt
  have sized : (field (readSent s r).blatr 0 13).toNat = 512 := size_field r.blkcnt
  constructor
  · intro moves
    refine ⟨?_, (arg_iff _ _).mp moves.address⟩
    have count := moves.count
    by_contra long
    have many : r.cmd = 18 := if_neg fun one => long (by rw [one]; decide)
    rw [bit 5 (by decide), bit 1 (by decide), many, counted] at count
    have cut : r.blkcnt.toNat % 2 ^ 16 = r.blkcnt.toNat := Option.some.inj count
    have below := Nat.mod_lt r.blkcnt.toNat (by decide : 0 < 2 ^ 16)
    omega
  · rintro ⟨short, low⟩
    have address := (arg_iff s.card.type r.blkno).mpr low
    by_cases one : r.blkcnt = 1
    · have single : r.cmd = 17 := if_pos one
      have count : r.blkcnt.toNat = 1 := by rw [one]; rfl
      refine ⟨?_, address, ?_, sized, rfl, ?_, ?_⟩
      · show (field (readXtype r.cmd) 24 6).toNat = _
        rw [single, count]
        decide
      · rw [bit 5 (by decide), single, count]
        rfl
      · rw [bit 4 (by decide), single]
        decide
      · rw [bit 0 (by decide), single]
        decide
    · have many : r.cmd = 18 := if_neg one
      have count : r.blkcnt.toNat ≠ 1 := fun same => one (BitVec.eq_of_toNat_eq same)
      refine ⟨?_, address, ?_, sized, rfl, ?_, ?_⟩
      · show (field (readXtype r.cmd) 24 6).toNat = _
        rw [many, if_neg count]
        decide
      · rw [bit 5 (by decide), bit 1 (by decide), many, counted, Nat.mod_eq_of_lt short]
        rfl
      · rw [bit 4 (by decide), many]
        decide
      · rw [bit 0 (by decide), many]
        decide

theorem read_right_iff (host : Host) (polls : Nat) {r : Request} {s : Mx6xSdmmc} (sized : Sized s) :
    Right s r (sdmmcRead host polls r s) ↔ (Within s r → Fits s r) := by
  by_cases within : Within s r
  · obtain ⟨questions, sent, all⟩ := sdmmcRead_sent host polls within
    constructor
    · rintro (⟨nothing, _⟩ | ⟨c, questions', sent', _, programs, all'⟩) _
      · have longer := congrArg List.length (sent.symm.trans nothing)
        rw [List.length_append, List.length_cons] at longer
        omega
      · have same : questions ++ [readSent s r] = questions' ++ [c] := by
          have joined := sent.symm.trans sent'
          rw [List.append_cons, List.append_cons questions'] at joined
          exact List.append_cancel_right joined
        have command := (List.append_inj_right' same rfl)
        rw [List.cons.injEq] at command
        rw [← command.1] at programs
        exact (moves_iff s r).mp programs.moves
    · intro fits
      exact .inr ⟨readSent s r, questions, sent, within.1,
        ⟨(moves_iff s r).mpr (fits within), within.2.trans sized⟩, all⟩
  · obtain ⟨same, ends⟩ := sdmmcRead_refused host polls within
    exact iff_of_true (.inl ⟨congrArg Mx6xSdmmc.sent same, ends⟩) fun within' =>
      absurd within' within

/-! ## Any number of reads -/

/-- The state after a read, which asks for the state of the card at most as often as the number with
the request -/
def after (host : Host) (s : Mx6xSdmmc) (r : Request × Nat) : Mx6xSdmmc :=
  (sdmmcRead host r.2 r.1 s).2

theorem waitTran_size (host : Host) (polls : Nat) (s : Mx6xSdmmc) :
    (waitTran host polls s).2.size = s.size := by
  induction polls generalizing s with
  | zero =>
    unfold waitTran
    by_cases ready : s.card.state = MMC_TRAN
    · rw [if_pos ready]
    · rw [if_neg ready]
  | succ polls ih =>
    unfold waitTran
    by_cases ready : s.card.state = MMC_TRAN
    · rw [if_pos ready]
    · rw [if_neg ready]
      have kept := getState_keeps host s
      rcases h : (getState host).run.run s with ⟨_ | _, t⟩
      · rw [h] at kept
        exact kept
      · rw [h] at kept
        exact (ih t).trans kept

theorem after_size (host : Host) (s : Mx6xSdmmc) (r : Request × Nat) :
    (after host s r).size = s.size := by
  unfold after sdmmcRead
  by_cases refused : Refused s r.1
  · rw [if_pos refused]
  · rw [if_neg refused]
    by_cases none_ : r.1.blkcnt = 0
    · rw [if_pos none_]
    · rw [if_neg none_]
      have kept := sendCmd_keeps host r.1.cmd (s.card.type.arg r.1.blkno) SDMMC_BLOCKSIZE
        r.1.blkcnt r.1.buf s
      dsimp only
      rcases h : (sendCmd host r.1.cmd (s.card.type.arg r.1.blkno) SDMMC_BLOCKSIZE
        r.1.blkcnt r.1.buf).run.run s with ⟨_ | _, t⟩
      · rw [h] at kept
        exact kept
      · rw [h] at kept
        exact (waitTran_size host r.2 t).trans kept

theorem foldl_after_size (host : Host) (reads : List (Request × Nat)) (s : Mx6xSdmmc) :
    (reads.foldl (after host) s).size = s.size := by
  induction reads generalizing s with
  | nil => rfl
  | cons r reads ih => exact (ih _).trans (after_size host s r)

theorem within_of_size {s t : Mx6xSdmmc} (same : t.size = s.size) (r : Request) :
    (Within t r ↔ Within s r) ∧ (Fits t r ↔ Fits s r) := by
  obtain ⟨type, _, num, _⟩ : t.card.type = s.card.type ∧ t.card.blkSize = s.card.blkSize ∧
      t.card.blkNum = s.card.blkNum ∧ t.csd = s.csd := by
    simpa only [Mx6xSdmmc.size, Prod.mk.injEq] using same
  unfold Within Fits
  rw [type, num]
  exact ⟨Iff.rfl, Iff.rfl⟩

/-- On any card that `sdmmc_init_card` has accepted, the reads of a sequence are right exactly when
each that lies on the card has a count for the field, and on a card with addresses of bytes one
for the argument. -/
theorem reads_iff (host : Host) {start s : Mx6xSdmmc}
    (ready : (sdmmcInitCard host).run.run start = (some (), s)) (reads : List (Request × Nat)) :
    (∀ pre r, pre ++ [r] <+: reads →
        Right (pre.foldl (after host) s) r.1
          (sdmmcRead host r.2 r.1 (pre.foldl (after host) s))) ↔
      ∀ r ∈ reads, Within s r.1 → Fits s r.1 := by
  have sized := sdmmcInitCard_sized ready
  have each : ∀ (pre : List (Request × Nat)) (r : Request × Nat),
      Right (pre.foldl (after host) s) r.1 (sdmmcRead host r.2 r.1 (pre.foldl (after host) s)) ↔
        (Within s r.1 → Fits s r.1) := by
    intro pre r
    have same := foldl_after_size host pre s
    obtain ⟨within, fits⟩ := within_of_size same r.1
    rw [read_right_iff host r.2 (sized.of_size same), within, fits]
  constructor
  · intro right r mem
    obtain ⟨pre, post, split⟩ := List.append_of_mem mem
    refine (each pre r).mp (right pre r ?_)
    rw [split, List.append_cons pre r post]
    exact List.prefix_append _ _
  · intro fits pre r below
    exact (each pre r).mpr (fits r (below.subset
      (List.mem_append_right _ (List.mem_singleton_self _))))

/-- A card that answers with `csd` to every question for its CSD, and with `ocr` and the state of a
transfer to all others -/
def steadyHost (csd : Response) (ocr : Reg) : Host := fun sent =>
  match sent with
  | [] => ⟨false, ⟨0, 0, 0, 0⟩, false⟩
  | c :: _ =>
    if c.cmdxtype >>> 24 = 9 then ⟨false, csd, false⟩
    else if c.cmdxtype >>> 24 = 41 then ⟨false, ⟨ocr, 0, 0, 0⟩, false⟩
    else ⟨false, ⟨MMC_TRAN, 0, 0, 0⟩, false⟩

/-- The state that `sdmmc_init_ctrl` leaves -/
def initCtrl : Mx6xSdmmc where
  icr := 0x000001aa
  ocr := 0x00300000
  card := ⟨0, .NONE, 0, 0, 0⟩
  csd := ⟨⟨0, 0, 0, 0⟩, 0, 0, 0, 0⟩
  mixCtrl := 0
  blatr := 0
  dmasysadd := 0
  sent := []

/-- A card of 8 GB, with 2^24 blocks -/
def largeCard : Host := steadyHost ⟨0, 0x003fff00, 0, 0x00400000⟩ 0xc0300000

def largeState : Mx6xSdmmc := ((sdmmcInitCard largeCard).run.run initCtrl).2

theorem largeState_ready : (sdmmcInitCard largeCard).run.run initCtrl = (some (), largeState) :=
  Prod.ext (by decide) rfl

/-- Two reads of the card, the second with the largest count -/
theorem reads_small :
    (sdmmcInitCard largeCard).run.run initCtrl = (some (), largeState) ∧
      ∀ pre (r : Request × Nat),
        pre ++ [r] <+: [(⟨0x10800000, 8, 1⟩, 1), (⟨0x10800200, 9, 65535⟩, 1)] →
        Right (pre.foldl (after largeCard) largeState) r.1
          (sdmmcRead largeCard r.2 r.1 (pre.foldl (after largeCard) largeState)) := by
  refine ⟨largeState_ready, (reads_iff largeCard largeState_ready _).mpr fun r mem _ => ?_⟩
  have type : largeState.card.type.byteAddressed = false := by decide
  have short : r.1.blkcnt.toNat < 2 ^ 16 := by
    rcases List.mem_cons.mp mem with rfl | mem
    · decide
    · rw [List.mem_singleton.mp mem]
      decide
  exact ⟨short, fun bytes => absurd (type.symm.trans bytes) (by decide)⟩

/-- 65536 blocks of a card that has them: the read is done, with a count of 0 in the register. -/
theorem reads_broken :
    (sdmmcInitCard largeCard).run.run initCtrl = (some (), largeState) ∧
      (sdmmcRead largeCard 1 ⟨0x10800000, 0, 65536⟩ largeState).1 = .ok ∧
      ¬Right largeState ⟨0x10800000, 0, 65536⟩
        (sdmmcRead largeCard 1 ⟨0x10800000, 0, 65536⟩ largeState) := by
  refine ⟨largeState_ready, by decide, fun right => ?_⟩
  have fits := (read_right_iff largeCard 1 (sdmmcInitCard_sized largeState_ready)).mp right
    ⟨by decide, by decide⟩
  exact absurd fits.1 (by decide)

end Mx6xBsp.Ipl.Sdmmc
