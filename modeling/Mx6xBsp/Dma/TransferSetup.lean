import Mx6xBsp.Dma.Sdma
import Mx6xBsp.Lib.Fields

/-!
# Setting up a transfer

`sdma_setup_xfer` writes one buffer descriptor for each fragment of a transfer: the fragments of
the destination for a channel that reads a device, those of the source for any other, and both
addresses where the channel type is memory to memory or one that the switch does not list. What it
writes is right if there is a fragment and, for both addresses, the destination has as many
(`sdmaSetupXfer_iff`). Without a fragment the bound `n_frags-1` is `0xffffffff`, and the loop writes
behind the descriptors.
-/

namespace Mx6xBsp.Dma

open Fields

def MAX_DESCRIPTORS : Nat := 1024

def SDMA_CHTYPE_MCU_2_AP : Nat := 1
def SDMA_CHTYPE_AP_2_MCU : Nat := 2
def SDMA_CHTYPE_MCU_2_SHP : Nat := 3
def SDMA_CHTYPE_SHP_2_MCU : Nat := 4
def SDMA_CHTYPE_MCU_2_SPDIF : Nat := 5
def SDMA_CHTYPE_SPDIF_2_MCU : Nat := 6
def SDMA_CHTYPE_UARTSH_2_MCU : Nat := 7
def SDMA_CHTYPE_UART_2_MCU : Nat := 8
def SDMA_CHTYPE_MCU_2_SSISH : Nat := 9
def SDMA_CHTYPE_SSISH_2_MCU : Nat := 10

def DMA_ATTACH_EVENT_ON_COMPLETE : BitVec 32 := 0x00000010
def DMA_ATTACH_EVENT_PER_SEGMENT : BitVec 32 := 0x00000020

def SDMA_CMDSTAT_DONE_MASK : BitVec 32 := 0x10000
def SDMA_CMDSTAT_WRAP_MASK : BitVec 32 := 0x20000
def SDMA_CMDSTAT_CONT_MASK : BitVec 32 := 0x40000
def SDMA_CMDSTAT_INT_MASK : BitVec 32 := 0x80000
def SDMA_CMDSTAT_EXT_MASK : BitVec 32 := 0x800000

def SDMA_CMD_XFER_SIZE (s : BitVec 32) : BitVec 32 :=
  (if s = 8 then 1 else if s = 16 then 2 else if s = 24 then 3 else 0) <<< 24

/-- `sdma_bd_t` -/
structure SdmaBd where
  cmdAndStatus : BitVec 32
  bufPaddr : BitVec 32
  extBufPaddr : BitVec 32

/-- `dma_addr_t` -/
structure DmaAddr where
  paddr : BitVec 64
  len : BitVec 32

/-- `dma_transfer_t`. The arrays are memory: there is something behind their fragments too. -/
structure DmaTransfer where
  srcAddrs : Nat → DmaAddr
  dstAddrs : Nat → DmaAddr
  srcFragments : BitVec 32
  dstFragments : BitVec 32
  xferUnitSize : BitVec 32

/-- The limits in a `dma_channel_info_t` -/
structure ChannelInfo where
  maxXferSize : BitVec 32
  maxSrcFragments : BitVec 32
  maxDstFragments : BitVec 32
  memLowerLimit : BitVec 64
  memUpperLimit : BitVec 64

def sdmaChannelInfo : ChannelInfo where
  maxXferSize := 0xfffc
  maxSrcFragments := BitVec.ofNat 32 MAX_DESCRIPTORS
  maxDstFragments := BitVec.ofNat 32 MAX_DESCRIPTORS
  memLowerLimit := 0
  memUpperLimit := 0xffffffff

/-- A write to `bd_ptr[i]`, which is nothing outside the array -/
def writeBd (i : Nat) (write : SdmaBd → SdmaBd) (bd : Nat → SdmaBd) : Option (Nat → SdmaBd) :=
  if i < MAX_DESCRIPTORS then some (Function.update bd i (write (bd i))) else none

/-- The writes of a descriptor whose `cmd_and_status` begins as `cmd`, which is enabled last -/
def describe (cmd : BitVec 32) (addr : DmaAddr) (ext : Option DmaAddr) (i : Nat)
    (bd : Nat → SdmaBd) : Option (Nat → SdmaBd) := do
  let bd ← writeBd i (fun d => { d with cmdAndStatus := cmd }) bd
  let bd ← writeBd i (fun d => { d with bufPaddr := addr.paddr.setWidth 32 }) bd
  let bd ← match ext with
    | some dst => writeBd i (fun d => { d with extBufPaddr := dst.paddr.setWidth 32 }) bd
    | none => some bd
  writeBd i (fun d => { d with cmdAndStatus := d.cmdAndStatus ||| SDMA_CMDSTAT_DONE_MASK }) bd

/-- `cmd_and_status` of all fragments but the last, without the count -/
def cmdAndStatus (chan : SdmaChan) (unit : BitVec 32) : BitVec 32 :=
  let cmd := SDMA_CMDSTAT_EXT_MASK ||| SDMA_CMDSTAT_CONT_MASK ||| SDMA_CMD_XFER_SIZE unit
  if chan.attachFlags &&& DMA_ATTACH_EVENT_PER_SEGMENT ≠ 0 then cmd ||| SDMA_CMDSTAT_INT_MASK
  else cmd

/-- `cmd_and_status` of the last fragment -/
def lastCmdAndStatus (chan : SdmaChan) (unit len : BitVec 32) : BitVec 32 :=
  let cmd := SDMA_CMDSTAT_EXT_MASK ||| SDMA_CMD_XFER_SIZE unit ||| SDMA_CMDSTAT_WRAP_MASK ||| len
  let cmd := if chan.contDescrLoop then cmd ||| SDMA_CMDSTAT_CONT_MASK else cmd
  if chan.attachFlags &&& DMA_ATTACH_EVENT_ON_COMPLETE ≠ 0 ∨
      chan.attachFlags &&& DMA_ATTACH_EVENT_PER_SEGMENT ≠ 0 then cmd ||| SDMA_CMDSTAT_INT_MASK
  else cmd

/-- The loop over the fragments from `i` on, of which `n` are left -/
def describeAll (cmd : BitVec 32) (addrs : Nat → DmaAddr) (ext : Option (Nat → DmaAddr)) :
    Nat → Nat → (Nat → SdmaBd) → Option (Nat → SdmaBd)
  | 0, _, bd => some bd
  | n + 1, i, bd => do
    let bd ← describe (cmd ||| (addrs i).len) (addrs i) (ext.map (· i)) i bd
    describeAll cmd addrs ext n (i + 1) bd

/-- A case of the switch: the loop, whose bound is unsigned, the last descriptor, and `n_frags` -/
def setup (chan : SdmaChan) (unit nFrags : BitVec 32) (addrs : Nat → DmaAddr)
    (ext : Option (Nat → DmaAddr)) (bd : Nat → SdmaBd) :
    Option (Int × (Nat → SdmaBd) × BitVec 32) := do
  let last := (nFrags - 1).toNat
  let bd ← describeAll (cmdAndStatus chan unit) addrs ext last 0 bd
  let bd ← describe (lastCmdAndStatus chan unit (addrs last).len) (addrs last) (ext.map (· last))
    last bd
  return (0, bd, nFrags)

def DeviceToMemory (chType : Nat) : Prop :=
  chType ∈ [SDMA_CHTYPE_AP_2_MCU, SDMA_CHTYPE_SHP_2_MCU, SDMA_CHTYPE_UART_2_MCU,
    SDMA_CHTYPE_UARTSH_2_MCU, SDMA_CHTYPE_SPDIF_2_MCU, SDMA_CHTYPE_SSISH_2_MCU]

def MemoryToDevice (chType : Nat) : Prop :=
  chType ∈ [SDMA_CHTYPE_MCU_2_AP, SDMA_CHTYPE_MCU_2_SHP, SDMA_CHTYPE_MCU_2_SPDIF,
    SDMA_CHTYPE_MCU_2_SSISH]

instance (chType : Nat) : Decidable (DeviceToMemory chType) :=
  inferInstanceAs (Decidable (chType ∈ _))

instance (chType : Nat) : Decidable (MemoryToDevice chType) :=
  inferInstanceAs (Decidable (chType ∈ _))

/-- `sdma_setup_xfer`: the value returned, the descriptors and `chan_ptr->n_frags`, or nothing if
it writes outside the descriptors -/
def sdmaSetupXfer (chan : SdmaChan) (tinfo : DmaTransfer) (bd : Nat → SdmaBd) :
    Option (Int × (Nat → SdmaBd) × BitVec 32) :=
  if DeviceToMemory chan.chType then
    setup chan tinfo.xferUnitSize tinfo.dstFragments tinfo.dstAddrs none bd
  else if MemoryToDevice chan.chType then
    setup chan tinfo.xferUnitSize tinfo.srcFragments tinfo.srcAddrs none bd
  else
    setup chan tinfo.xferUnitSize tinfo.srcFragments tinfo.srcAddrs (some tinfo.dstAddrs) bd

/-! ## What is to be written -/

/-- `n` fragments are within the limits that the library reports. -/
def Within (addrs : Nat → DmaAddr) (n most : BitVec 32) : Prop :=
  n ≤ most ∧ ∀ i < n.toNat, (addrs i).len ≤ sdmaChannelInfo.maxXferSize ∧
    sdmaChannelInfo.memLowerLimit ≤ (addrs i).paddr ∧
    (addrs i).paddr ≤ sdmaChannelInfo.memUpperLimit

structure DmaTransfer.Allowed (tinfo : DmaTransfer) : Prop where
  src : Within tinfo.srcAddrs tinfo.srcFragments sdmaChannelInfo.maxSrcFragments
  dst : Within tinfo.dstAddrs tinfo.dstFragments sdmaChannelInfo.maxDstFragments

/-- The fragments that a descriptor each is for -/
def DmaTransfer.fragments (tinfo : DmaTransfer) (chType : Nat) : Nat :=
  if DeviceToMemory chType then tinfo.dstFragments.toNat else tinfo.srcFragments.toNat

def DmaTransfer.addrs (tinfo : DmaTransfer) (chType : Nat) : Nat → DmaAddr :=
  if DeviceToMemory chType then tinfo.dstAddrs else tinfo.srcAddrs

/-- The descriptor of the fragment `i` of `n` -/
structure Described (chType : Nat) (tinfo : DmaTransfer) (n i : Nat) (d : SdmaBd) : Prop where
  count : (field d.cmdAndStatus 0 16).toNat = (tinfo.addrs chType i).len.toNat
  done : (field d.cmdAndStatus 16 1) = 1
  wrap : field d.cmdAndStatus 17 1 = 1 ↔ i + 1 = n
  buf : d.bufPaddr.toNat = (tinfo.addrs chType i).paddr.toNat
  ext : ¬DeviceToMemory chType → ¬MemoryToDevice chType →
    i < tinfo.dstFragments.toNat ∧ d.extBufPaddr.toNat = (tinfo.dstAddrs i).paddr.toNat

/-- The call rejects the transfer, or writes the descriptors of its fragments and no others. -/
def SetUp (chan : SdmaChan) (tinfo : DmaTransfer) (bd : Nat → SdmaBd) : Prop :=
  ∃ r bd' n, sdmaSetupXfer chan tinfo bd = some (r, bd', n) ∧
    (r ≠ 0 ∧ bd' = bd ∨
      (∀ i < tinfo.fragments chan.chType,
        Described chan.chType tinfo (tinfo.fragments chan.chType) i (bd' i)) ∧
      ∀ i ≥ tinfo.fragments chan.chType, bd' i = bd i)

/-! ## The writes -/

/-- What `describe` makes of a descriptor -/
def descriptor (cmd : BitVec 32) (addr : DmaAddr) (ext : Option DmaAddr) (d : SdmaBd) : SdmaBd where
  cmdAndStatus := cmd ||| SDMA_CMDSTAT_DONE_MASK
  bufPaddr := addr.paddr.setWidth 32
  extBufPaddr := (ext.map (·.paddr.setWidth 32)).getD d.extBufPaddr

section
variable {cmd : BitVec 32} {addr : DmaAddr} {ext : Option DmaAddr} {addrs : Nat → DmaAddr}
  {exts : Option (Nat → DmaAddr)} {i j n : Nat} {bd : Nat → SdmaBd}

theorem writeBd_inside (write : SdmaBd → SdmaBd) (bd : Nat → SdmaBd)
    (inside : i < MAX_DESCRIPTORS) :
    writeBd i write bd = some (Function.update bd i (write (bd i))) := if_pos inside

theorem describe_inside (inside : i < MAX_DESCRIPTORS) :
    describe cmd addr ext i bd = some (Function.update bd i (descriptor cmd addr ext (bd i))) := by
  unfold describe
  cases ext with
  | none =>
    simp only [writeBd_inside _ _ inside, Option.bind_eq_bind, Option.bind_some,
      Function.update_self, Function.update_idem]
    rfl
  | some dst =>
    simp only [writeBd_inside _ _ inside, Option.bind_eq_bind, Option.bind_some,
      Function.update_self, Function.update_idem]
    rfl

theorem describe_outside (outside : MAX_DESCRIPTORS ≤ i) : describe cmd addr ext i bd = none := by
  unfold describe writeBd
  rw [if_neg (Nat.not_lt.mpr outside)]
  rfl

theorem describeAll_inside (inside : i + n ≤ MAX_DESCRIPTORS) :
    ∃ bd', describeAll cmd addrs exts n i bd = some bd' ∧ ∀ j, bd' j =
      if i ≤ j ∧ j < i + n then
        descriptor (cmd ||| (addrs j).len) (addrs j) (exts.map (· j)) (bd j)
      else bd j := by
  induction n generalizing i bd with
  | zero =>
    refine ⟨bd, rfl, fun j => ?_⟩
    rw [if_neg (by omega)]
  | succ n ih =>
    obtain ⟨bd', rest, written⟩ := @ih (i + 1) (Function.update bd i
      (descriptor (cmd ||| (addrs i).len) (addrs i) (exts.map (· i)) (bd i))) (by omega)
    refine ⟨bd', ?_, fun j => ?_⟩
    · rw [describeAll, describe_inside (by omega)]
      exact rest
    · rw [written]
      rcases Nat.lt_trichotomy j i with before | rfl | after
      · rw [if_neg (by omega), if_neg (by omega), Function.update_of_ne (Nat.ne_of_lt before)]
      · rw [if_neg (by omega), if_pos (by omega), Function.update_self]
      · rw [Function.update_of_ne (Nat.ne_of_gt after)]
        exact if_congr (by omega) rfl rfl

theorem describeAll_outside (start : i ≤ MAX_DESCRIPTORS) (long : MAX_DESCRIPTORS < i + n) :
    describeAll cmd addrs exts n i bd = none := by
  induction n generalizing i bd with
  | zero => omega
  | succ n ih =>
    rw [describeAll]
    rcases Nat.lt_or_eq_of_le start with inside | rfl
    · rw [describe_inside inside]
      exact ih inside (by omega)
    · rw [describe_outside (Nat.le_refl _)]
      rfl

end

/-! ## The fields -/

/-- The word has no count, and is neither done nor the last. -/
structure Plain (w : BitVec 32) : Prop where
  count : field w 0 16 = 0
  done : field w 16 1 = 0
  wrap : field w 17 1 = 0

theorem Plain.or {v w : BitVec 32} (left : Plain v) (right : Plain w) : Plain (v ||| w) := by
  refine ⟨?_, ?_, ?_⟩
  · rw [field_or, left.count, right.count]
    rfl
  · rw [field_or, left.done, right.done]
    rfl
  · rw [field_or, left.wrap, right.wrap]
    rfl

theorem plain_xferSize (s : BitVec 32) : Plain (SDMA_CMD_XFER_SIZE s) := by
  unfold SDMA_CMD_XFER_SIZE
  split
  · exact ⟨rfl, rfl, rfl⟩
  · split
    · exact ⟨rfl, rfl, rfl⟩
    · split
      · exact ⟨rfl, rfl, rfl⟩
      · exact ⟨rfl, rfl, rfl⟩

theorem plain_ext : Plain SDMA_CMDSTAT_EXT_MASK := ⟨rfl, rfl, rfl⟩

theorem plain_cont : Plain SDMA_CMDSTAT_CONT_MASK := ⟨rfl, rfl, rfl⟩

theorem plain_int : Plain SDMA_CMDSTAT_INT_MASK := ⟨rfl, rfl, rfl⟩

theorem plain_cmdAndStatus (chan : SdmaChan) (unit : BitVec 32) :
    Plain (cmdAndStatus chan unit) := by
  have cmd := (plain_ext.or plain_cont).or (plain_xferSize unit)
  unfold cmdAndStatus
  dsimp only
  split
  · exact cmd.or plain_int
  · exact cmd

theorem or_right_comm (u v w : BitVec 32) : u ||| v ||| w = u ||| w ||| v := by
  rw [BitVec.or_assoc, BitVec.or_comm v, BitVec.or_assoc]

theorem lastCmdAndStatus_eq (chan : SdmaChan) (unit len : BitVec 32) :
    ∃ cmd, Plain cmd ∧ lastCmdAndStatus chan unit len =
      cmd ||| (SDMA_CMDSTAT_WRAP_MASK ||| len) := by
  have cmd := plain_ext.or (plain_xferSize unit)
  unfold lastCmdAndStatus
  dsimp only
  rw [BitVec.or_assoc _ SDMA_CMDSTAT_WRAP_MASK]
  split
  · split
    · rw [or_right_comm _ _ SDMA_CMDSTAT_CONT_MASK, or_right_comm _ _ SDMA_CMDSTAT_INT_MASK]
      exact ⟨_, (cmd.or plain_cont).or plain_int, rfl⟩
    · rw [or_right_comm _ _ SDMA_CMDSTAT_INT_MASK]
      exact ⟨_, cmd.or plain_int, rfl⟩
  · split
    · rw [or_right_comm _ _ SDMA_CMDSTAT_CONT_MASK]
      exact ⟨_, cmd.or plain_cont, rfl⟩
    · exact ⟨_, cmd, rfl⟩

section
variable {cmd len : BitVec 32}

theorem len_fields (short : len.toNat < 2 ^ 16) :
    (field len 0 16).toNat = len.toNat ∧ field len 16 1 = 0 ∧ field len 17 1 = 0 := by
  refine ⟨?_, ?_, ?_⟩
  · rw [field_toNat]
    omega
  · apply BitVec.eq_of_toNat_eq
    rw [field_toNat, Nat.div_eq_of_lt short]
    rfl
  · apply BitVec.eq_of_toNat_eq
    rw [field_toNat, Nat.div_eq_of_lt (by omega)]
    rfl

theorem enabled_fields (plain : Plain cmd) (short : len.toNat < 2 ^ 16) :
    (field (cmd ||| len ||| SDMA_CMDSTAT_DONE_MASK) 0 16).toNat = len.toNat ∧
      field (cmd ||| len ||| SDMA_CMDSTAT_DONE_MASK) 16 1 = 1 ∧
      field (cmd ||| len ||| SDMA_CMDSTAT_DONE_MASK) 17 1 = 0 := by
  obtain ⟨count, done, wrap⟩ := len_fields short
  have mask : field SDMA_CMDSTAT_DONE_MASK 0 16 = 0 := rfl
  refine ⟨?_, ?_, ?_⟩
  · rw [field_or, field_or, plain.count, mask]
    change (0#16 ||| field len 0 16 ||| 0#16).toNat = _
    rw [BitVec.zero_or, BitVec.or_zero]
    exact count
  · rw [field_or, field_or, plain.done, done]
    rfl
  · rw [field_or, field_or, plain.wrap, wrap]
    rfl

theorem last_fields (plain : Plain cmd) (short : len.toNat < 2 ^ 16) :
    (field (cmd ||| (SDMA_CMDSTAT_WRAP_MASK ||| len) ||| SDMA_CMDSTAT_DONE_MASK) 0 16).toNat =
        len.toNat ∧
      field (cmd ||| (SDMA_CMDSTAT_WRAP_MASK ||| len) ||| SDMA_CMDSTAT_DONE_MASK) 16 1 = 1 ∧
      field (cmd ||| (SDMA_CMDSTAT_WRAP_MASK ||| len) ||| SDMA_CMDSTAT_DONE_MASK) 17 1 = 1 := by
  obtain ⟨count, done, wrap⟩ := len_fields short
  have mask : field SDMA_CMDSTAT_DONE_MASK 0 16 = 0 := rfl
  have mask' : field SDMA_CMDSTAT_WRAP_MASK 0 16 = 0 := rfl
  refine ⟨?_, ?_, ?_⟩
  · rw [field_or, field_or, field_or, plain.count, mask, mask']
    change (0#16 ||| (0#16 ||| field len 0 16) ||| 0#16).toNat = _
    rw [BitVec.zero_or, BitVec.zero_or, BitVec.or_zero]
    exact count
  · rw [field_or, field_or, field_or, plain.done, done]
    rfl
  · rw [field_or, field_or, field_or, plain.wrap, wrap]
    rfl

end

/-! ## A case of the switch -/

section
variable {chan : SdmaChan} {unit n : BitVec 32} {addrs : Nat → DmaAddr}
  {exts : Option (Nat → DmaAddr)} {bd : Nat → SdmaBd}

theorem last_toNat (some_ : 0 < n.toNat) : (n - 1).toNat = n.toNat - 1 := by
  have one : (1 : BitVec 32).toNat = 1 := rfl
  rw [BitVec.toNat_sub_of_le (by rw [BitVec.le_def, one]; exact some_), one]

theorem setup_inside (some_ : 0 < n.toNat) (room : n.toNat ≤ MAX_DESCRIPTORS) :
    ∃ bd', setup chan unit n addrs exts bd = some (0, bd', n) ∧ ∀ j, bd' j =
      if j + 1 = n.toNat then
        descriptor (lastCmdAndStatus chan unit (addrs j).len) (addrs j) (exts.map (· j)) (bd j)
      else if j < n.toNat then
        descriptor (cmdAndStatus chan unit ||| (addrs j).len) (addrs j) (exts.map (· j)) (bd j)
      else bd j := by
  obtain ⟨bd', loop, written⟩ : ∃ bd', describeAll (cmdAndStatus chan unit) addrs exts
      (n.toNat - 1) 0 bd = some bd' ∧ _ := describeAll_inside (by omega)
  refine ⟨Function.update bd' (n.toNat - 1) (descriptor
    (lastCmdAndStatus chan unit (addrs (n.toNat - 1)).len) (addrs (n.toNat - 1))
    (exts.map (· (n.toNat - 1))) (bd' (n.toNat - 1))), ?_, ?_⟩
  · unfold setup
    dsimp only
    rw [last_toNat some_, loop, Option.bind_eq_bind, Option.bind_some,
      describe_inside (by omega)]
    rfl
  · intro j
    by_cases last : j + 1 = n.toNat
    · obtain rfl : n.toNat - 1 = j := by omega
      rw [if_pos last, Function.update_self, written, if_neg (by omega)]
    · rw [if_neg last, Function.update_of_ne (by omega), written]
      exact if_congr (by omega) rfl rfl

theorem setup_none (none_ : n.toNat = 0) : setup chan unit n addrs exts bd = none := by
  obtain rfl : n = 0 := BitVec.eq_of_toNat_eq none_
  unfold setup
  dsimp only
  rw [describeAll_outside (Nat.zero_le _) (by decide)]
  rfl

end

/-! ## The whole call -/

section
variable {chan : SdmaChan} {tinfo : DmaTransfer} {bd : Nat → SdmaBd}

/-- Both addresses are written. -/
def BothAddrs (chType : Nat) : Prop := ¬DeviceToMemory chType ∧ ¬MemoryToDevice chType

theorem sdmaSetupXfer_eq (chan : SdmaChan) (tinfo : DmaTransfer) (bd : Nat → SdmaBd) :
    ∃ n exts, n.toNat = tinfo.fragments chan.chType ∧
      (BothAddrs chan.chType → exts = some tinfo.dstAddrs) ∧
      sdmaSetupXfer chan tinfo bd =
        setup chan tinfo.xferUnitSize n (tinfo.addrs chan.chType) exts bd := by
  unfold sdmaSetupXfer DmaTransfer.fragments DmaTransfer.addrs BothAddrs
  by_cases reads : DeviceToMemory chan.chType
  · rw [if_pos reads, if_pos reads, if_pos reads]
    exact ⟨_, none, rfl, fun both => absurd reads both.1, rfl⟩
  · rw [if_neg reads, if_neg reads, if_neg reads]
    by_cases writes : MemoryToDevice chan.chType
    · rw [if_pos writes]
      exact ⟨_, none, rfl, fun both => absurd writes both.2, rfl⟩
    · rw [if_neg writes]
      exact ⟨_, some tinfo.dstAddrs, rfl, fun _ => rfl, rfl⟩

theorem Within.short {addrs : Nat → DmaAddr} {n most : BitVec 32} {i : Nat}
    (within : Within addrs n most) (mem : i < n.toNat) :
    (addrs i).len.toNat < 2 ^ 16 ∧ (addrs i).paddr.toNat < 2 ^ 32 := by
  obtain ⟨len, -, high⟩ := within.2 i mem
  have len_le : (addrs i).len.toNat ≤ 0xfffc := BitVec.le_def.mp len
  have paddr_le : (addrs i).paddr.toNat ≤ 0xffffffff := BitVec.le_def.mp high
  omega

theorem DmaTransfer.Allowed.fragments (allowed : tinfo.Allowed) (chType : Nat) :
    tinfo.fragments chType ≤ MAX_DESCRIPTORS ∧ ∀ i < tinfo.fragments chType,
      (tinfo.addrs chType i).len.toNat < 2 ^ 16 ∧ (tinfo.addrs chType i).paddr.toNat < 2 ^ 32 := by
  unfold DmaTransfer.fragments DmaTransfer.addrs
  by_cases reads : DeviceToMemory chType
  · rw [if_pos reads, if_pos reads]
    exact ⟨BitVec.le_def.mp allowed.dst.1, fun i mem => allowed.dst.short mem⟩
  · rw [if_neg reads, if_neg reads]
    exact ⟨BitVec.le_def.mp allowed.src.1, fun i mem => allowed.src.short mem⟩

theorem DmaTransfer.Allowed.described (allowed : tinfo.Allowed) {chType n i : Nat} {cmd : BitVec 32}
    {exts : Option (Nat → DmaAddr)} {d : SdmaBd}
    (count : (field (cmd ||| SDMA_CMDSTAT_DONE_MASK) 0 16).toNat = (tinfo.addrs chType i).len.toNat)
    (done : field (cmd ||| SDMA_CMDSTAT_DONE_MASK) 16 1 = 1)
    (wrap : field (cmd ||| SDMA_CMDSTAT_DONE_MASK) 17 1 = 1 ↔ i + 1 = n)
    (paddr : (tinfo.addrs chType i).paddr.toNat < 2 ^ 32)
    (ext : BothAddrs chType → exts = some tinfo.dstAddrs ∧ i < tinfo.dstFragments.toNat) :
    Described chType tinfo n i
      (descriptor cmd (tinfo.addrs chType i) (exts.map (· i)) d) := by
  refine ⟨count, done, wrap, ?_, fun reads writes => ?_⟩
  · exact (BitVec.toNat_setWidth 32 _).trans (Nat.mod_eq_of_lt paddr)
  · obtain ⟨rfl, mem⟩ := ext ⟨reads, writes⟩
    exact ⟨mem, (BitVec.toNat_setWidth 32 _).trans (Nat.mod_eq_of_lt (allowed.dst.short mem).2)⟩

end

theorem SetUp.needs {chan : SdmaChan} {tinfo : DmaTransfer} {bd : Nat → SdmaBd}
    (allowed : tinfo.Allowed) (setUp : SetUp chan tinfo bd) :
    0 < tinfo.fragments chan.chType ∧
      (BothAddrs chan.chType → tinfo.fragments chan.chType ≤ tinfo.dstFragments.toNat) := by
  obtain ⟨n, exts, n_, -, call⟩ := sdmaSetupXfer_eq chan tinfo bd
  obtain ⟨room, -⟩ := allowed.fragments chan.chType
  obtain ⟨r, bd', n', run, right⟩ := setUp
  rw [call] at run
  rw [← n_] at room right ⊢
  have some_ : 0 < n.toNat := by
    refine Nat.pos_of_ne_zero fun none_ => ?_
    rw [setup_none none_] at run
    cases run
  obtain ⟨bd'', run', -⟩ := setup_inside some_ room
  rw [run'] at run
  cases run
  refine ⟨some_, fun both => ?_⟩
  rcases right with ⟨rejects, -⟩ | ⟨written, -⟩
  · exact absurd rfl rejects
  · have last := ((written (n.toNat - 1) (by omega)).ext both.1 both.2).1
    omega

theorem DmaTransfer.Allowed.setUp {chan : SdmaChan} {tinfo : DmaTransfer} {bd : Nat → SdmaBd}
    (allowed : tinfo.Allowed) (some_ : 0 < tinfo.fragments chan.chType)
    (dst : BothAddrs chan.chType → tinfo.fragments chan.chType ≤ tinfo.dstFragments.toNat) :
    SetUp chan tinfo bd := by
  obtain ⟨n, exts, n_, exts_, call⟩ := sdmaSetupXfer_eq chan tinfo bd
  obtain ⟨room, short⟩ := allowed.fragments chan.chType
  unfold SetUp
  rw [call]
  rw [← n_] at some_ dst room short ⊢
  obtain ⟨bd', run, written⟩ := setup_inside some_ room
  refine ⟨0, bd', n, run, Or.inr ⟨fun i mem => ?_, fun i out => ?_⟩⟩
  · obtain ⟨len, paddr⟩ := short i mem
    have ext : BothAddrs chan.chType →
        exts = some tinfo.dstAddrs ∧ i < tinfo.dstFragments.toNat :=
      fun both => ⟨exts_ both, Nat.lt_of_lt_of_le mem (dst both)⟩
    rw [written]
    by_cases last : i + 1 = n.toNat
    · obtain ⟨cmd, plain, word⟩ := lastCmdAndStatus_eq chan tinfo.xferUnitSize
        (tinfo.addrs chan.chType i).len
      obtain ⟨count, done, wrap⟩ := last_fields plain len
      rw [if_pos last, word]
      exact allowed.described count done (iff_of_true wrap last) paddr ext
    · obtain ⟨count, done, wrap⟩ :=
        enabled_fields (plain_cmdAndStatus chan tinfo.xferUnitSize) len
      rw [if_neg last, if_pos mem]
      refine allowed.described count done (iff_of_false ?_ last) paddr ext
      rw [wrap]
      decide
  · rw [written, if_neg (by omega), if_neg (by omega)]

/-- A transfer within the limits is set up right exactly when it has a fragment and, for a channel
type that writes both addresses, a destination for each. -/
theorem sdmaSetupXfer_iff (chan : SdmaChan) (tinfo : DmaTransfer) (bd : Nat → SdmaBd)
    (allowed : tinfo.Allowed) :
    SetUp chan tinfo bd ↔ 0 < tinfo.fragments chan.chType ∧
      (BothAddrs chan.chType → tinfo.fragments chan.chType ≤ tinfo.dstFragments.toNat) :=
  ⟨SetUp.needs allowed, fun ⟨some_, dst⟩ => allowed.setUp some_ dst⟩

/-- Two fragments of a source, and `dst` fragments of a destination -/
def twoFragments (dst : BitVec 32) : DmaTransfer where
  srcAddrs i := ⟨if i = 0 then 0x10000000 else 0x10010000, 0xfffc⟩
  dstAddrs i := ⟨if i = 0 then 0x20000000 else 0x20010000, 0xfffc⟩
  srcFragments := 2
  dstFragments := dst
  xferUnitSize := 32

theorem twoFragments_allowed (dst : BitVec 32) (few : dst ≤ 2) : (twoFragments dst).Allowed := by
  have len : (0xfffc : BitVec 32) ≤ 0xfffc := by decide
  have low : ∀ paddr : BitVec 64, 0 ≤ paddr := fun paddr => BitVec.le_def.mpr (Nat.zero_le _)
  have room : (2 : BitVec 32) ≤ BitVec.ofNat 32 MAX_DESCRIPTORS := by decide
  refine ⟨⟨room, fun i _ => ⟨len, low _, ?_⟩⟩, ⟨BitVec.le_trans few room, fun i _ =>
    ⟨len, low _, ?_⟩⟩⟩
  · change (if i = 0 then 0x10000000 else 0x10010000 : BitVec 64) ≤ 0xffffffff
    split <;> decide
  · change (if i = 0 then 0x20000000 else 0x20010000 : BitVec 64) ≤ 0xffffffff
    split <;> decide

/-- A copy from memory to memory -/
theorem sdmaSetupXfer_copy : SetUp SdmaChan.zero (twoFragments 2) fun _ => ⟨0, 0, 0⟩ :=
  (sdmaSetupXfer_iff SdmaChan.zero (twoFragments 2) (fun _ => ⟨0, 0, 0⟩)
    (twoFragments_allowed 2 (by decide))).mpr ⟨by decide, fun _ => by decide⟩

/-- A UART that receives to no fragments: the call writes outside the descriptors. And a copy to
fewer fragments than it is from: the address of the second one is none of the destination's. -/
theorem sdmaSetupXfer_wrong :
    (twoFragments 0).Allowed ∧
      sdmaSetupXfer { SdmaChan.zero with chType := SDMA_CHTYPE_UART_2_MCU } (twoFragments 0)
        (fun _ => ⟨0, 0, 0⟩) = none ∧
      (¬SetUp { SdmaChan.zero with chType := SDMA_CHTYPE_UART_2_MCU } (twoFragments 0)
        fun _ => ⟨0, 0, 0⟩) ∧
    (twoFragments 1).Allowed ∧ ¬SetUp SdmaChan.zero (twoFragments 1) fun _ => ⟨0, 0, 0⟩ := by
  have none_ := twoFragments_allowed 0 (by decide)
  have one := twoFragments_allowed 1 (by decide)
  refine ⟨none_, setup_none rfl, fun setUp => ?_, one, fun setUp => ?_⟩
  · exact absurd (setUp.needs none_).1 (by decide)
  · exact absurd ((setUp.needs one).2 ⟨by decide, by decide⟩) (by decide)

end Mx6xBsp.Dma
