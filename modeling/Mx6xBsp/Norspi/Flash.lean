import Mx6xBsp.Norspi.Chip

/-!
# Writes to the SPI NOR flash

`spi_cmds.c` and the callouts `f3s_spi_page`, `f3s_spi_write` and `f3s_spi_read`. A call is
cut to what is left of the page, of the burst and of the device, in `int`s and `unsigned`s, and
returns how far it came. `writeBack` tells what a call programs, and what comes of calls that
go on where the last one came to.
-/

namespace Mx6xBsp.Norspi

open Bursts Fields Pages

def CMD_LEN : Word := 1
def ADDR_LEN : Word := 3
def MAX_BURST : Word := BitVec.ofNat 32 MX_ECSPI_BURST_MAX

/-- `socket->window_size`, as `f3s_spi_open` sets it -/
def window_size : Word := BitVec.ofNat 32 TOTAL_SIZE_BYTES

inductive Errno
  | EIO
  | ERANGE

/-- `min` of two `int`s -/
def smin (a b : Word) : Word := if a.slt b then a else b

/-- `min` where one of the two is unsigned -/
def umin (a b : Word) : Word := if a.ult b then a else b

variable {σ : Type} (bus : Bus σ) (dev : MxEcspi)

/-! ## `spi_cmds.c` -/

/-- A command with what `set_address` puts behind it -/
def header (cmd : Byte) (addr : Word) : Cmd where
  c0 := cmd
  c1 := ((addr &&& 0xff0000) >>> 16).setWidth 8
  c2 := ((addr &&& 0x00ff00) >>> 8).setWidth 8
  c3 := ((addr &&& 0x0000ff) >>> 0).setWidth 8

def writeEnable (s : σ) : Except Fault (Int × σ) := do
  let (rc, s) ← spiWrite1byte bus dev CMD_WREN s
  if rc = -1 then return (rc, s) else return (0, s)

/-- `iswriting`; the bytes of `status` are all written. -/
def iswriting (s : σ) : Except Fault (Int × σ) := do
  let left ← spiCmdRead bus dev ⟨CMD_RDSR, 0, 0, 0⟩ (List.replicate 4 0) 4 s
  if left.rc ≠ 0 then return (-1, left.bus)
  else
    let status ← get left.buf 3
    return ((status &&& u8 DEVICE_SR_WIP).toNat, left.bus)

/-- The loop of `wait_for_completion`, and its result for a count that came to zero -/
def waitLoop : Nat → σ → Except Fault (Int × σ)
  | 0, s => return (-1, s)
  | count + 1, s => do
    let (rc, s) ← iswriting bus dev s
    if rc = -1 then return (-1, s)
    else if rc ≠ 0 then waitLoop count s
    else return (0, s)

def waitForCompletion (s : σ) : Except Fault (Int × σ) := waitLoop bus dev 2500 s

def pageProgram (offset len : Word) (data : List Byte) (s : σ) : Except Fault (Int × σ) := do
  let header_size := CMD_LEN + ADDR_LEN
  let nbytes := smin len (MAX_BURST - header_size)
  let page_size := BitVec.ofNat 32 PAGE_SIZE
  let nbytes := smin nbytes ((offset &&& ~~~(page_size - 1)) + page_size - offset)
  let (rc, s) ← writeEnable bus dev s
  if rc ≠ 0 then return (-1, s)
  else
    let (rc, s) ← spiCmdWrite bus dev (header CMD_PP offset) data nbytes.toNat s
    let (wait, s) ← waitForCompletion bus dev s
    if wait ≠ 0 then return (-1, s)
    else if rc = -1 then return (-1, s)
    else return (nbytes.toInt, s)

def readFrom (offset len : Word) (buffer : List Byte) (s : σ) :
    Except Fault ((Int × List Byte) × σ) := do
  let header_size := CMD_LEN + ADDR_LEN
  let max_read := MAX_BURST - header_size
  if len = 0 then return ((0, buffer), s)
  else
    let len := smin len max_read
    let left ← spiCmdRead bus dev (header CMD_READ offset) buffer len.toNat s
    if left.rc = -1 then return ((-1, left.buf), left.bus)
    else return ((len.toInt, left.buf), left.bus)

/-! ## The callouts -/

/-- `f3s_spi_page`, with what it makes of a size -/
def f3sSpiPage (offset size : Word) : Option Word :=
  if offset.ult window_size then some (umin size (window_size - offset)) else none

/-- The loop that compares what was written: whether it came to its end -/
def verifyLoop : Nat → Word → Word → List Byte → List Byte → σ → Except Fault (Bool × σ)
  | 0, _, _, _, _, _ => throw .fuel
  | fuel + 1, xfer, offset, verify, buffer, s => do
    if xfer = 0 then return (true, s)
    else
      let nbytes := umin (BitVec.ofNat 32 PAGE_SIZE) xfer
      let ((rc, verify), s) ← readFrom bus dev offset nbytes verify s
      if rc = -1 then return (false, s)
      else if verify.take rc.toNat ≠ buffer.take rc.toNat then return (false, s)
      else
        verifyLoop fuel (xfer - BitVec.ofInt 32 rc) (offset + BitVec.ofInt 32 rc) verify
          (buffer.drop rc.toNat) s

/-- `f3s_spi_write`, where `verifyWrite` stands for `F3S_VERIFY_WRITE` -/
def f3sSpiWrite (verifyWrite : Bool) (offset size : Word) (buffer : List Byte) (s : σ) :
    Except Fault ((Int × Option Errno) × σ) :=
  match f3sSpiPage offset size with
  | none => return ((-1, some .ERANGE), s)
  | some size => do
    let (rc, s) ← pageProgram bus dev offset size buffer s
    if rc = -1 then return ((-1, some Errno.EIO), s)
    else if !verifyWrite then return ((rc, none), s)
    else
      let (matched, s) ← verifyLoop bus dev (rc.toNat + 1) (BitVec.ofInt 32 rc) offset
        (List.replicate PAGE_SIZE 0) buffer s
      if matched then return ((rc, none), s) else return ((-1, some Errno.EIO), s)

def f3sSpiRead (offset size : Word) (buffer : List Byte) (s : σ) :
    Except Fault ((Int × Option Errno) × List Byte × σ) :=
  if offset.ult window_size then do
    let size := umin size (window_size - offset)
    let ((rc, buffer), s) ← readFrom bus dev offset size buffer s
    if rc = -1 then return ((-1, some Errno.EIO), buffer, s) else return ((rc, none), buffer, s)
  else return ((-1, some .ERANGE), buffer, s)

/-! ## Limits -/

theorem smin_toNat {a b : Word} (low : 2 * a.toNat < 2 ^ 32) (low' : 2 * b.toNat < 2 ^ 32) :
    (smin a b).toNat = min a.toNat b.toNat := by
  have order : a.slt b = decide (a.toNat < b.toNat) := by
    rw [BitVec.slt, BitVec.toInt_eq_toNat_of_lt low, BitVec.toInt_eq_toNat_of_lt low']
    simp
  rw [smin, order]
  by_cases less : a.toNat < b.toNat
  · rw [if_pos (decide_eq_true less), Nat.min_eq_left (Nat.le_of_lt less)]
  · rw [if_neg (by simpa using less), Nat.min_eq_right (Nat.not_lt.mp less)]

theorem umin_toNat (a b : Word) : (umin a b).toNat = min a.toNat b.toNat := by
  rw [umin, BitVec.ult]
  by_cases less : a.toNat < b.toNat
  · rw [if_pos (decide_eq_true less), Nat.min_eq_left (Nat.le_of_lt less)]
  · rw [if_neg (by simpa using less), Nat.min_eq_right (Nat.not_lt.mp less)]

theorem page_left (offset : Word) (inside : offset.toNat < TOTAL_SIZE_BYTES) :
    ((offset &&& ~~~(BitVec.ofNat 32 PAGE_SIZE - 1)) + BitVec.ofNat 32 PAGE_SIZE - offset).toNat =
      256 - offset.toNat % 256 := by
  have start : offset &&& ~~~(BitVec.ofNat 32 PAGE_SIZE - 1) = (offset >>> 8) <<< 8 := by
    apply BitVec.eq_of_getLsbD_eq
    intro i below
    have mask : ∀ i < 32, (~~~(BitVec.ofNat 32 PAGE_SIZE - 1)).getLsbD i = decide (8 ≤ i) := by
      decide
    rw [BitVec.getLsbD_and, mask i below, BitVec.getLsbD_shiftLeft, BitVec.getLsbD_ushiftRight]
    rcases Nat.lt_or_ge i 8 with low | high
    · simp [low]
    · simp [below, Nat.not_lt.mpr high, high]
  have value : ((offset >>> 8) <<< 8).toNat = offset.toNat / 256 * 256 := by
    rw [BitVec.toNat_shiftLeft, BitVec.toNat_ushiftRight, Nat.shiftRight_eq_div_pow,
      Nat.shiftLeft_eq]
    have := offset.isLt
    omega
  have small : TOTAL_SIZE_BYTES = 4194304 := rfl
  rw [start, BitVec.toNat_sub, BitVec.toNat_add, value]
  simp [PAGE_SIZE]
  omega

theorem byte_of_address (addr : Word) {mask : Word} {k : Nat}
    (ones : ∀ i < 8, mask.getLsbD (k + i) = true) :
    ((addr &&& mask) >>> k).setWidth 8 = field addr k 8 := by
  apply BitVec.eq_of_getLsbD_eq
  intro i below
  rw [field_bit, BitVec.getLsbD_setWidth, BitVec.getLsbD_ushiftRight, BitVec.getLsbD_and,
    ones i below, Bool.and_true]

theorem header_address (cmd : Byte) (addr : Word) :
    ((header cmd addr).c1 ++ (header cmd addr).c2 ++ (header cmd addr).c3).toNat =
      addr.toNat % 2 ^ 24 := by
  rw [toNat_append, toNat_append, header, byte_of_address addr (by decide),
    byte_of_address addr (by decide), byte_of_address addr (by decide), field_toNat, field_toNat,
    field_toNat]
  omega

/-! ## Calls on a chip -/

variable {chip : Chip} (w : Wired chip) (dev : MxEcspi) {s : Nor}

theorem writeEnable_eq (idle : s.wip = 0) :
    writeEnable w.bus dev s = .ok (0, { s with wel := true }) := by
  have sent := w.sends (spiWrite1byte_sends dev CMD_WREN) s
  have enabled : (chip.transfer [CMD_WREN] s).2 = { s with wel := true } := by
    simp [Chip.transfer, idle, CMD_WREN, CMD_RDSR]
  rw [writeEnable, sent, enabled]
  rfl

theorem iswriting_eq :
    iswriting w.bus dev s = .ok (if s.wip = 0 then 0 else 1, { s with wip := s.wip - 1 }) := by
  have received := w.receives (spiCmdRead_receives dev ⟨CMD_RDSR, 0, 0, 0⟩
    (List.replicate 4 0) 4 (by decide) (by decide)) s
  have bit : (u8 s.status &&& u8 DEVICE_SR_WIP).toNat = if s.wip = 0 then 0 else 1 := by
    unfold Nor.status
    by_cases idle : s.wip = 0
    · cases s.wel
      · simp [idle]
        decide
      · simp [idle]
        decide
    · cases s.wel
      · simp [idle]
        decide
      · simp [idle]
        decide
  have status : chip.transfer ((⟨CMD_RDSR, 0, 0, 0⟩ : Cmd).bytes ++ List.replicate 4 0#8) s =
      (chip.fill :: List.replicate 7 s.status, { s with wip := s.wip - 1 }) := rfl
  rw [status] at received
  rw [iswriting, received, Except.ok_bind, if_neg (fun nonzero => nonzero rfl)]
  show Except.ok ((((u8 s.status &&& u8 DEVICE_SR_WIP).toNat : Nat) : Int), _) = _
  rw [bit]
  split <;> rfl

theorem waitLoop_eq (count : Nat) :
    waitLoop w.bus dev count s =
      if s.wip < count then .ok (0, { s with wip := 0 })
      else .ok (-1, { s with wip := s.wip - count }) := by
  induction count generalizing s with
  | zero => rfl
  | succ count ih =>
    rw [waitLoop, iswriting_eq, Except.ok_bind]
    by_cases idle : s.wip = 0
    · rw [if_pos (by omega)]
      simp [idle]
      rfl
    · have less : s.wip - 1 < count ↔ s.wip < count + 1 := by omega
      have left : s.wip - 1 - count = s.wip - (count + 1) := by omega
      simp only [idle, if_false, ih, less, left]
      rfl

theorem transfer_program (chip : Chip) (idle : s.wip = 0) (enabled : s.wel = true)
    {offset : Word} (inside : offset.toNat < TOTAL_SIZE_BYTES) {block : List Byte}
    (some : block ≠ []) :
    (chip.transfer ((header CMD_PP offset).bytes ++ block) s).2 =
      { mem := program (· &&& ·) PAGE_SIZE offset.toNat block s.mem
        wel := false
        wip := chip.delay offset.toNat block } := by
  have small : TOTAL_SIZE_BYTES = 4194304 := rfl
  have wide : offset.toNat % 2 ^ 24 = offset.toNat := Nat.mod_eq_of_lt (by omega)
  show (chip.transfer (CMD_PP :: (header CMD_PP offset).c1 :: (header CMD_PP offset).c2 ::
    (header CMD_PP offset).c3 :: block) s).2 = _
  rw [Chip.transfer, if_neg (by decide), if_neg (by simpa using idle), if_neg (by decide),
    header_address, wide, Nat.mod_eq_of_lt inside, if_neg (by decide),
    if_pos ⟨rfl, enabled, some⟩]

theorem transfer_read (chip : Chip) (idle : s.wip = 0) {offset : Word} {n : Nat}
    (inside : offset.toNat + n ≤ TOTAL_SIZE_BYTES) :
    chip.transfer ((header CMD_READ offset).bytes ++ List.replicate n 0#8) s =
      (List.replicate 4 chip.fill ++ read s.mem offset.toNat n, s) := by
  have small : TOTAL_SIZE_BYTES = 4194304 := rfl
  show chip.transfer (CMD_READ :: (header CMD_READ offset).c1 :: (header CMD_READ offset).c2 ::
    (header CMD_READ offset).c3 :: List.replicate n 0#8) s = _
  rw [Chip.transfer, if_neg (by decide), if_neg (by simpa using idle), if_neg (by decide),
    header_address, if_pos rfl, List.length_replicate, Pages.read]
  congr 2
  apply List.map_congr_left
  intro k below
  have within := List.mem_range.mp below
  have wide : offset.toNat % 2 ^ 24 = offset.toNat := Nat.mod_eq_of_lt (by omega)
  rw [wide, Nat.mod_eq_of_lt (by omega : offset.toNat < TOTAL_SIZE_BYTES),
    Nat.mod_eq_of_lt (by omega)]

theorem pageProgram_eq (idle : s.wip = 0) (offset len : Word) (data : List Byte) (n : Nat)
    (inside : offset.toNat + len.toNat ≤ TOTAL_SIZE_BYTES) (some : 0 < len.toNat)
    (count : n = min (min len.toNat 252) (256 - offset.toNat % 256)) (enough : n ≤ data.length) :
    pageProgram w.bus dev offset len data s =
      if chip.delay offset.toNat (data.take n) < 2500 then
        .ok ((n : Int), ⟨merge (· &&& ·) offset.toNat (data.take n) s.mem, false, 0⟩)
      else .ok (-1, ⟨merge (· &&& ·) offset.toNat (data.take n) s.mem, false,
        chip.delay offset.toNat (data.take n) - 2500⟩) := by
  have small : TOTAL_SIZE_BYTES = 4194304 := rfl
  have burst : (MAX_BURST - (CMD_LEN + ADDR_LEN)).toNat = 252 := rfl
  have page := page_left offset (by omega)
  have nbytes : (smin (smin len (MAX_BURST - (CMD_LEN + ADDR_LEN)))
      ((offset &&& ~~~(BitVec.ofNat 32 PAGE_SIZE - 1)) + BitVec.ofNat 32 PAGE_SIZE -
        offset)).toNat = n := by
    have first := smin_toNat (a := len) (b := MAX_BURST - (CMD_LEN + ADDR_LEN)) (by omega)
      (by omega)
    rw [smin_toNat (by omega) (by omega), first, burst, page, count]
  have taken : (data.take n).length = n := by
    rw [List.length_take]
    omega
  have some' : data.take n ≠ [] := by
    intro empty
    rw [empty] at taken
    have none : 0 = n := taken
    omega
  have written := w.sends (spiCmdWrite_sends dev (header CMD_PP offset) data n
    (by omega) (by rw [MX_ECSPI_BURST_MAX]; omega)) { s with wel := true }
  rw [transfer_program chip (s := { s with wel := true }) idle rfl (by omega) some',
    program_eq_merge _ (by decide) (by rw [taken, PAGE_SIZE]; omega)] at written
  have signed : (smin (smin len (MAX_BURST - (CMD_LEN + ADDR_LEN)))
      ((offset &&& ~~~(BitVec.ofNat 32 PAGE_SIZE - 1)) + BitVec.ofNat 32 PAGE_SIZE -
        offset)).toInt = n := by
    rw [BitVec.toInt_eq_toNat_of_lt (by omega), nbytes]
  simp only [pageProgram, writeEnable_eq w dev idle, Except.ok_bind, nbytes, signed, written,
    waitForCompletion, waitLoop_eq]
  by_cases quick : chip.delay offset.toNat (data.take n) < 2500
  · rw [if_pos quick, if_pos quick]
    rfl
  · rw [if_neg quick, if_neg quick]
    rfl

theorem readFrom_eq (idle : s.wip = 0) (offset len : Word) (buffer : List Byte) (n : Nat)
    (some : 0 < len.toNat) (positive : 2 * len.toNat < 2 ^ 32) (count : n = min len.toNat 252)
    (inside : offset.toNat + n ≤ TOTAL_SIZE_BYTES) (enough : n ≤ buffer.length) :
    readFrom w.bus dev offset len buffer s =
      .ok (((n : Int), Pages.read s.mem offset.toNat n ++ buffer.drop n), s) := by
  have burst : (MAX_BURST - (CMD_LEN + ADDR_LEN)).toNat = 252 := rfl
  have nbytes : (smin len (MAX_BURST - (CMD_LEN + ADDR_LEN))).toNat = n := by
    rw [smin_toNat positive (by omega), burst, count]
  have signed : (smin len (MAX_BURST - (CMD_LEN + ADDR_LEN))).toInt = n := by
    rw [BitVec.toInt_eq_toNat_of_lt (by omega), nbytes]
  have nonzero : len ≠ 0 := by
    intro zero
    rw [zero] at some
    exact Nat.lt_irrefl 0 some
  have received := w.receives (spiCmdRead_receives dev (header CMD_READ offset) buffer
    n enough (by rw [MX_ECSPI_BURST_MAX]; omega)) s
  rw [transfer_read chip idle inside] at received
  simp only [readFrom, nonzero, if_false, nbytes, signed, received, Except.ok_bind]
  rfl

theorem verifyLoop_eq (idle : s.wip = 0) (offset : Word) (verify buffer : List Byte) (n : Nat)
    (some : 0 < n) (short : n ≤ 252) (inside : offset.toNat + n ≤ TOTAL_SIZE_BYTES)
    (enough : n ≤ verify.length) :
    verifyLoop w.bus dev (n + 1) (BitVec.ofInt 32 n) offset verify buffer s =
      .ok (decide (Pages.read s.mem offset.toNat n = buffer.take n), s) := by
  have value : (BitVec.ofInt 32 n).toNat = n := by
    rw [BitVec.ofInt_natCast, BitVec.toNat_ofNat, Nat.mod_eq_of_lt (by omega)]
  have nonzero : BitVec.ofInt 32 n ≠ 0 := by
    intro zero
    rw [zero] at value
    have none : 0 = n := value
    omega
  have whole : (umin (BitVec.ofNat 32 PAGE_SIZE) (BitVec.ofInt 32 n)).toNat = n := by
    have page : (BitVec.ofNat 32 PAGE_SIZE).toNat = 256 := rfl
    rw [umin_toNat, value, page]
    omega
  have got := readFrom_eq w dev idle offset
    (umin (BitVec.ofNat 32 PAGE_SIZE) (BitVec.ofInt 32 n)) verify n
    (by omega) (by omega) (by omega) inside enough
  have kept : (Pages.read s.mem offset.toNat n ++ verify.drop n).take n =
      Pages.read s.mem offset.toNat n := List.take_left' length_read
  rw [verifyLoop, if_neg nonzero]
  have failed : ¬ (n : Int) = -1 := by omega
  simp only [got, Except.ok_bind, failed, if_false, Int.toNat_natCast, kept, BitVec.sub_self]
  by_cases same : Pages.read s.mem offset.toNat n = buffer.take n
  · obtain ⟨k, rfl⟩ := Nat.exists_eq_succ_of_ne_zero (Nat.pos_iff_ne_zero.mp some)
    rw [if_neg (fun differ => differ same), decide_eq_true same, verifyLoop]
    exact if_pos rfl
  · rw [if_pos same, decide_eq_false same]
    rfl

/-! ## The callouts on a chip -/

/-- How far a call may go from an offset: to the end of what is left of the device, of the burst and
of the page -/
def room (offset size : Nat) : Nat :=
  min (min (min size (TOTAL_SIZE_BYTES - offset)) 252) (256 - offset % 256)

theorem room_bounds {offset size : Nat} (inside : offset < TOTAL_SIZE_BYTES) (some : 0 < size) :
    1 ≤ room offset size ∧ room offset size ≤ size ∧
      offset + room offset size ≤ TOTAL_SIZE_BYTES ∧ offset % 256 + room offset size ≤ 256 ∧
      room offset size ≤ 252 := by
  unfold room
  omega

theorem window_size_toNat : window_size.toNat = TOTAL_SIZE_BYTES := by decide

theorem ult_window {offset : Word} :
    offset.ult window_size = decide (offset.toNat < TOTAL_SIZE_BYTES) := by
  rw [BitVec.ult, window_size_toNat]

theorem umin_left {offset : Word} (inside : offset.toNat < TOTAL_SIZE_BYTES) (size : Word) :
    (umin size (window_size - offset)).toNat =
      min size.toNat (TOTAL_SIZE_BYTES - offset.toNat) := by
  have small : TOTAL_SIZE_BYTES = 4194304 := rfl
  have left : (window_size - offset).toNat = TOTAL_SIZE_BYTES - offset.toNat := by
    rw [BitVec.toNat_sub, window_size_toNat]
    omega
  rw [umin_toNat, left]

theorem f3sSpiWrite_outside {σ : Type} (bus : Bus σ) (verifyWrite : Bool) {offset : Word}
    (outside : TOTAL_SIZE_BYTES ≤ offset.toNat) (size : Word) (buffer : List Byte) (s : σ) :
    f3sSpiWrite bus dev verifyWrite offset size buffer s = .ok ((-1, some .ERANGE), s) := by
  have out : f3sSpiPage offset size = none := by
    rw [f3sSpiPage, ult_window, decide_eq_false (Nat.not_lt.mpr outside)]
    rfl
  rw [f3sSpiWrite, out]
  rfl

/-- What a call leaves that programs a block: the bytes joined with it, and an error where the chip
takes too long, or where they are compared with the block and differ. -/
def Programs (chip : Chip) (verifyWrite : Bool) (offset : Nat) (block : List Byte) (s : Nor)
    (left : (Int × Option Errno) × Nor) : Prop :=
  left.2.mem = merge (· &&& ·) offset block s.mem ∧
    left.2.wip = chip.delay offset block - 2500 ∧
    left.1 = if chip.delay offset block < 2500 ∧
        (verifyWrite → Pages.read left.2.mem offset block.length = block) then
      ((block.length : Int), none) else (-1, some Errno.EIO)

theorem f3sSpiWrite_inside (verifyWrite : Bool) (idle : s.wip = 0) (offset size : Word)
    (buffer : List Byte) (inside : offset.toNat < TOTAL_SIZE_BYTES) (some : 0 < size.toNat)
    (enough : size.toNat ≤ buffer.length) :
    ∃ left, f3sSpiWrite w.bus dev verifyWrite offset size buffer s = .ok left ∧
      Programs chip verifyWrite offset.toNat (buffer.take (room offset.toNat size.toNat)) s
        left := by
  have ⟨pos, below, device, page, burst⟩ := room_bounds inside some
  have length : (buffer.take (room offset.toNat size.toNat)).length =
      room offset.toNat size.toNat := by
    rw [List.length_take]
    omega
  have size' : f3sSpiPage offset size = .some (umin size (window_size - offset)) := by
    rw [f3sSpiPage, ult_window, decide_eq_true inside]
    rfl
  have limit := umin_left inside size
  have programmed := pageProgram_eq w dev idle offset
    (umin size (window_size - offset)) buffer (room offset.toNat size.toNat) (by omega) (by omega)
    (by rw [limit, room]) (by omega)
  have failed : ¬ ((room offset.toNat size.toNat : Nat) : Int) = -1 := by omega
  rw [f3sSpiWrite, size']
  simp only [programmed]
  generalize blockEq : buffer.take (room offset.toNat size.toNat) = block at *
  by_cases quick : chip.delay offset.toNat block < 2500
  · have ends : chip.delay offset.toNat block - 2500 = 0 := by omega
    simp only [if_pos quick, Except.ok_bind, failed, if_false, Int.toNat_natCast]
    cases verifyWrite with
    | false =>
      refine ⟨_, rfl, rfl, ends.symm, ?_⟩
      rw [if_pos ⟨quick, fun verify => by cases verify⟩, length]
    | true =>
      have compared := verifyLoop_eq w dev
        (s := ⟨merge (· &&& ·) offset.toNat block s.mem, false, 0⟩) rfl offset
        (List.replicate PAGE_SIZE 0) buffer (room offset.toNat size.toNat) pos burst device
        (by rw [List.length_replicate, PAGE_SIZE]; omega)
      rw [blockEq] at compared
      simp only [Bool.not_true, Bool.false_eq_true, if_false, compared, Except.ok_bind]
      by_cases same : Pages.read (merge (· &&& ·) offset.toNat block s.mem) offset.toNat
          (room offset.toNat size.toNat) = block
      · rw [decide_eq_true same, if_pos rfl]
        refine ⟨_, rfl, rfl, ends.symm, ?_⟩
        rw [length, if_pos ⟨quick, fun _ => same⟩]
      · rw [decide_eq_false same, if_neg Bool.false_ne_true]
        refine ⟨_, rfl, rfl, ends.symm, ?_⟩
        rw [length, if_neg fun both => same (both.2 rfl)]
  · simp only [if_neg quick, Except.ok_bind, if_true]
    refine ⟨_, rfl, rfl, rfl, ?_⟩
    rw [if_neg fun both => quick both.1]

theorem f3sSpiRead_inside (idle : s.wip = 0) (offset size : Word) (buffer : List Byte) (n : Nat)
    (inside : offset.toNat < TOTAL_SIZE_BYTES) (some : 0 < size.toNat)
    (count : n = min (min size.toNat (TOTAL_SIZE_BYTES - offset.toNat)) 252)
    (enough : n ≤ buffer.length) :
    f3sSpiRead w.bus dev offset size buffer s =
      .ok (((n : Int), none), Pages.read s.mem offset.toNat n ++ buffer.drop n, s) := by
  have small : TOTAL_SIZE_BYTES = 4194304 := rfl
  have limit := umin_left inside size
  have got := readFrom_eq w dev idle offset
    (umin size (window_size - offset)) buffer n (by omega)
    (by omega) (by rw [limit, count]) (by omega) enough
  have failed : ¬ (n : Int) = -1 := by omega
  rw [f3sSpiRead, ult_window, decide_eq_true inside, if_pos rfl]
  simp only [got, Except.ok_bind, failed, if_false]
  rfl

theorem f3sSpiRead_outside {σ : Type} (bus : Bus σ) {offset : Word}
    (outside : TOTAL_SIZE_BYTES ≤ offset.toNat) (size : Word) (buffer : List Byte) (s : σ) :
    f3sSpiRead bus dev offset size buffer s = .ok ((-1, some .ERANGE), buffer, s) := by
  rw [f3sSpiRead, ult_window, decide_eq_false (Nat.not_lt.mpr outside)]
  rfl

/-! ## Calls that go on where the last one came to -/

/-- What a caller does that has a whole buffer to write: how far it comes -/
def writeAll {σ : Type} (bus : Bus σ) (dev : MxEcspi) (verifyWrite : Bool) :
    Nat → Nat → List Byte → σ → Except Fault (Nat × σ)
  | 0, _, _, _ => throw .fuel
  | fuel + 1, offset, data, s => do
    if data = [] then return (0, s)
    else
      let ((rc, _), s) ← f3sSpiWrite bus dev verifyWrite (BitVec.ofNat 32 offset)
        (BitVec.ofNat 32 data.length) data s
      if rc = -1 then return (0, s)
      else
        let (more, s) ← writeAll bus dev verifyWrite fuel (offset + rc.toNat) (data.drop rc.toNat) s
        return (rc.toNat + more, s)

/-- What a caller does that has a whole buffer to read: the bytes it gets -/
def readAll {σ : Type} (bus : Bus σ) (dev : MxEcspi) :
    Nat → Nat → Nat → σ → Except Fault (List Byte × σ)
  | 0, _, _, _ => throw .fuel
  | fuel + 1, offset, size, s => do
    if size = 0 then return ([], s)
    else
      let ((rc, _), buffer, s) ← f3sSpiRead bus dev (BitVec.ofNat 32 offset) (BitVec.ofNat 32 size)
        (List.replicate size 0) s
      if rc = -1 then return ([], s)
      else
        let (more, s) ← readAll bus dev fuel (offset + rc.toNat) (size - rc.toNat) s
        return (buffer.take rc.toNat ++ more, s)

theorem writeAll_eq (verifyWrite : Bool) (quick : ∀ i block, chip.delay i block < 2500)
    (fuel offset : Nat) (data : List Byte) (rounds : data.length < fuel)
    (address : offset < 2 ^ 32) (length : data.length < 2 ^ 32) (idle : s.wip = 0)
    (takes : verifyWrite = true →
      Takes (· &&& ·) s.mem offset (data.take (TOTAL_SIZE_BYTES - offset))) :
    ∃ s', writeAll w.bus dev verifyWrite fuel offset data s =
        .ok ((data.take (TOTAL_SIZE_BYTES - offset)).length, s') ∧
      s'.mem = merge (· &&& ·) offset (data.take (TOTAL_SIZE_BYTES - offset)) s.mem ∧
      s'.wip = 0 := by
  induction fuel generalizing offset data s with
  | zero => exact absurd rounds (Nat.not_lt_zero _)
  | succ fuel ih =>
    rw [writeAll]
    by_cases empty : data = []
    · subst empty
      exact ⟨s, by rw [if_pos rfl, List.take_nil]; rfl, by rw [List.take_nil, merge_nil], idle⟩
    have place : (BitVec.ofNat 32 offset).toNat = offset := by
      rw [BitVec.toNat_ofNat, Nat.mod_eq_of_lt address]
    have size : (BitVec.ofNat 32 data.length).toNat = data.length := by
      rw [BitVec.toNat_ofNat, Nat.mod_eq_of_lt length]
    have some : 0 < data.length := List.length_pos_iff.mpr empty
    rw [if_neg empty]
    rcases Nat.lt_or_ge offset TOTAL_SIZE_BYTES with inside | outside
    · obtain ⟨⟨⟨rc, errno⟩, s₁⟩, call, mem, wip, result⟩ := f3sSpiWrite_inside w dev verifyWrite
        idle (BitVec.ofNat 32 offset) (BitVec.ofNat 32 data.length) data
        (by rw [place]; exact inside) (by rw [size]; exact some) (by rw [size])
      rw [place, size] at mem wip result
      have ⟨pos, below, device, _, _⟩ := room_bounds inside some
      generalize room offset data.length = n at *
      have first : (data.take n).length = n := by
        rw [List.length_take]
        omega
      have split : data.take (TOTAL_SIZE_BYTES - offset) =
          data.take n ++ (data.drop n).take (TOTAL_SIZE_BYTES - (offset + n)) := by
        rw [← List.take_add]
        congr 1
        omega
      rw [split, takes_append, first] at takes
      have kept (verify : verifyWrite = true) :
          Pages.read s₁.mem offset (data.take n).length = data.take n := by
        rw [mem]
        exact (takes verify).1.read
      have takes₁ (verify : verifyWrite = true) : Takes (· &&& ·) s₁.mem (offset + n)
          ((data.drop n).take (TOTAL_SIZE_BYTES - (offset + n))) := by
        have behind := (takes verify).2
        rw [← first] at behind ⊢
        rw [mem]
        exact behind.merge
      rw [if_pos ⟨quick _ _, kept⟩, first] at result
      cases result
      have idle₁ : s₁.wip = 0 := wip.trans (Nat.sub_eq_zero_of_le (Nat.le_of_lt (quick _ _)))
      obtain ⟨s', rest, mem', wip'⟩ := ih (offset + n) (data.drop n)
        (by rw [List.length_drop]; omega) (by
          have small : TOTAL_SIZE_BYTES = 4194304 := rfl
          omega) (by rw [List.length_drop]; omega) idle₁ takes₁
      have failed : ¬ (n : Int) = -1 := by omega
      refine ⟨s', ?_, ?_, wip'⟩
      · simp only [call, Except.ok_bind, failed, if_false, Int.toNat_natCast, rest]
        rw [split, List.length_append, first]
        rfl
      · rw [mem', mem, split, ← merge_append, first]
    · have none : TOTAL_SIZE_BYTES - offset = 0 := by omega
      rw [f3sSpiWrite_outside dev w.bus verifyWrite (by rw [place]; exact outside), none,
        List.take_zero, merge_nil]
      exact ⟨s, rfl, rfl, idle⟩

theorem readAll_eq (fuel offset size : Nat) (rounds : size < fuel) (address : offset < 2 ^ 32)
    (length : size < 2 ^ 32) (idle : s.wip = 0) :
    readAll w.bus dev fuel offset size s =
      .ok (Pages.read s.mem offset (min size (TOTAL_SIZE_BYTES - offset)), s) := by
  induction fuel generalizing offset size with
  | zero => exact absurd rounds (Nat.not_lt_zero _)
  | succ fuel ih =>
    rw [readAll]
    by_cases empty : size = 0
    · subst empty
      rw [if_pos rfl, Nat.zero_min]
      rfl
    have place : (BitVec.ofNat 32 offset).toNat = offset := by
      rw [BitVec.toNat_ofNat, Nat.mod_eq_of_lt address]
    have size' : (BitVec.ofNat 32 size).toNat = size := by
      rw [BitVec.toNat_ofNat, Nat.mod_eq_of_lt length]
    rw [if_neg empty]
    rcases Nat.lt_or_ge offset TOTAL_SIZE_BYTES with inside | outside
    · have small : TOTAL_SIZE_BYTES = 4194304 := rfl
      obtain ⟨n, count⟩ : ∃ n, n = min (min size (TOTAL_SIZE_BYTES - offset)) 252 := ⟨_, rfl⟩
      have got := f3sSpiRead_inside w dev idle (BitVec.ofNat 32 offset)
        (BitVec.ofNat 32 size) (List.replicate size 0) n
        (by rw [place]; exact inside) (by rw [size']; omega) (by rw [place, size', count])
        (by rw [List.length_replicate]; omega)
      have more := ih (offset + n) (size - n) (by omega) (by omega) (by omega)
      have failed : ¬ (n : Int) = -1 := by omega
      have split : min size (TOTAL_SIZE_BYTES - offset) =
          n + min (size - n) (TOTAL_SIZE_BYTES - (offset + n)) := by omega
      have kept : (Pages.read s.mem offset n ++ (List.replicate size (0 : Byte)).drop n).take n =
          Pages.read s.mem offset n := List.take_left' length_read
      rw [place] at got
      simp only [got, Except.ok_bind, failed, if_false, Int.toNat_natCast, more]
      rw [kept, split, read_add]
      rfl
    · have none : TOTAL_SIZE_BYTES - offset = 0 := by omega
      rw [f3sSpiRead_outside dev w.bus (by rw [place]; exact outside), none, Nat.min_zero]
      rfl

/-- What a call programs on a chip that is not busy, and what comes of calls that go on where the
last one came to: all of the data that the device has room for. What was erased reads as the
data. -/
theorem writeBack (verifyWrite : Bool) (idle : s.wip = 0) (offset size : Word)
    (buffer : List Byte) (some : 0 < size.toNat) (enough : size.toNat ≤ buffer.length) :
    (TOTAL_SIZE_BYTES ≤ offset.toNat →
      f3sSpiWrite w.bus dev verifyWrite offset size buffer s = .ok ((-1, .some .ERANGE), s)) ∧
    (offset.toNat < TOTAL_SIZE_BYTES → ∃ n left,
      1 ≤ n ∧ n ≤ size.toNat ∧ offset.toNat + n ≤ TOTAL_SIZE_BYTES ∧ offset.toNat % 256 + n ≤ 256 ∧
      f3sSpiWrite w.bus dev verifyWrite offset size buffer s = .ok left ∧
      Programs chip verifyWrite offset.toNat (buffer.take n) s left) ∧
    ((∀ i block, chip.delay i block < 2500) →
      ∀ data, data = buffer.take (min size.toNat (TOTAL_SIZE_BYTES - offset.toNat)) →
        ((verifyWrite = true → Takes (· &&& ·) s.mem offset.toNat data) →
          ∃ s', writeAll w.bus dev verifyWrite (size.toNat + 1) offset.toNat
              (buffer.take size.toNat) s = .ok (data.length, s') ∧
            s'.mem = merge (· &&& ·) offset.toNat data s.mem) ∧
        ((∀ k < data.length, s.mem (offset.toNat + k) = 0xff#8) →
          ∃ s', writeAll w.bus dev verifyWrite (size.toNat + 1) offset.toNat
              (buffer.take size.toNat) s = .ok (data.length, s') ∧
            readAll w.bus dev (size.toNat + 1) offset.toNat size.toNat s' = .ok (data, s'))) := by
  refine ⟨fun outside => f3sSpiWrite_outside dev w.bus verifyWrite outside size buffer s,
    fun inside => ?_, fun quick data whole => ?_⟩
  · have ⟨pos, below, device, page, _⟩ := room_bounds inside some
    obtain ⟨left, call, programs⟩ :=
      f3sSpiWrite_inside w dev verifyWrite idle offset size buffer inside some enough
    exact ⟨_, left, pos, below, device, page, call, programs⟩
  · have length : (buffer.take size.toNat).length = size.toNat := by
      rw [List.length_take]
      omega
    have same : (buffer.take size.toNat).take (TOTAL_SIZE_BYTES - offset.toNat) = data := by
      rw [List.take_take, whole, Nat.min_comm]
    have written (takes : verifyWrite = true → Takes (· &&& ·) s.mem offset.toNat data) :=
      writeAll_eq w dev (s := s) verifyWrite quick
      (size.toNat + 1) offset.toNat (buffer.take size.toNat)
      (by omega) offset.isLt (by have := size.isLt; omega) idle (by rw [same]; exact takes)
    rw [same] at written
    refine ⟨fun takes => ?_, fun erased => ?_⟩
    · obtain ⟨s', all, mem, _⟩ := written takes
      exact ⟨s', all, mem⟩
    · have ones : Takes (· &&& ·) s.mem offset.toNat data := by
        intro k b get
        rw [erased k (List.getElem?_eq_some_iff.mp get).1]
        exact BitVec.allOnes_and
      obtain ⟨s', all, mem, idle'⟩ := written fun _ => ones
      refine ⟨s', all, ?_⟩
      have amount : min size.toNat (TOTAL_SIZE_BYTES - offset.toNat) = data.length := by
        rw [whole, List.length_take]
        omega
      rw [readAll_eq w dev _ _ _ (by omega) offset.isLt size.isLt idle', mem, amount, ones.read]

/-- Four bytes around the end of a page, of which the second call writes the last two -/
theorem writeBack_around :
    ∃ s', writeAll (Chip.wired ⟨fun _ _ => 7, 0⟩).bus ⟨0x1000, by decide⟩ true 5 0xfe
        [1, 2, 3, 4] ⟨fun _ => 0xff, false, 0⟩ = .ok (4, s') ∧
      readAll (Chip.wired ⟨fun _ _ => 7, 0⟩).bus ⟨0x1000, by decide⟩ 5 0xfe 4 s' =
        .ok ([1, 2, 3, 4], s') :=
  ((writeBack (Chip.wired ⟨fun _ _ => 7, 0⟩) ⟨0x1000, by decide⟩ true
    (s := ⟨fun _ => 0xff, false, 0⟩) rfl 0xfe 4 [1, 2, 3, 4] (by decide)
    (by decide)).2.2 (fun _ _ => (by decide : 7 < 2500)) _ rfl).2
    fun _ _ => rfl

/-- At the end of the device nothing is programmed, and a zero that is to become a one is found out
by the comparison. -/
theorem writeBack_refused :
    f3sSpiWrite (Chip.wired ⟨fun _ _ => 7, 0⟩).bus ⟨0x1000, by decide⟩ false 0x400000 1 [0xab]
        ⟨fun _ => 0xff, false, 0⟩ = .ok ((-1, some .ERANGE), ⟨fun _ => 0xff, false, 0⟩) ∧
      (f3sSpiWrite (Chip.wired ⟨fun _ _ => 7, 0⟩).bus ⟨0x1000, by decide⟩ true 0 1 [0xff]
        ⟨fun _ => 0, false, 0⟩).map Prod.fst = .ok (-1, some Errno.EIO) := by
  refine ⟨rfl, ?_⟩
  obtain ⟨left, call, mem, _, result⟩ := f3sSpiWrite_inside (Chip.wired ⟨fun _ _ => 7, 0⟩)
    ⟨0x1000, by decide⟩ true (s := ⟨fun _ => 0, false, 0⟩) rfl 0 1 [0xff] (by decide) (by decide)
    (by decide)
  rw [call]
  show Except.ok left.1 = _
  rw [result, if_neg]
  rintro ⟨_, matched⟩
  rw [mem] at matched
  exact absurd (matched rfl) (by decide)

end Mx6xBsp.Norspi
