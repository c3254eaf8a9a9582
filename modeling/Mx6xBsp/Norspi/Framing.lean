import Mathlib.Data.BitVec
import Mx6xBsp.Lib.Bursts
import Mx6xBsp.Lib.Fields
import Mx6xBsp.Lib.Runs

/-!
# Exchanges with the SPI NOR flash

`mxecspi.c` of `norspi`: a command of four bytes and its data are one burst of the ECSPI, for
which the words are put into the TXFIFO before it starts and taken out of the RXFIFO
afterwards. A buffer is the list of its bytes, and an access beyond it faults.
`framing` tells which of the three exchanges put the right words into the TXFIFO.
-/

namespace Mx6xBsp.Norspi

open Bursts Fields

abbrev Word := BitVec 32

def MX_ECSPI_BURST_MAX : Nat := 0x100
def SCLK_FREQ : Word := 30000000
def SPI_DEV : Nat := 1
def ECSPI_CONTROLREG_ENABLE : Word := 0x1
def ECSPI_CONTROLREG_XCH : Word := 0x4
def ECSPI_CONTROLREG_CH_MODE_POS : Nat := 4
def ECSPI_CONTROLREG_CSEL_POS : Nat := 18
def ECSPI_CONTROLREG_BCNT_POS : Nat := 20
def ECSPI_CONREG_PREDIVIDR_MASK : Word := 0x0000F000
def ECSPI_CONREG_PREDIVIDR_POS : Nat := 12
def ECSPI_CONREG_POSTDIVIDR_MASK : Word := 0x00000F00

def ECSPI_CONTROLREG_MASTERMODE (i : Nat) : Word :=
  ((1 : Word) <<< i) <<< ECSPI_CONTROLREG_CH_MODE_POS

/-! ## Buffers and the controller -/

/-- What stops a call: an assertion, an access outside of a buffer, a read of the RXFIFO that finds
no word, or a loop that takes more rounds than it may -/
inductive Fault
  | assertion
  | read (i : Nat)
  | write (i : Nat)
  | empty
  | fuel
deriving DecidableEq

def assert (p : Prop) [Decidable p] : Except Fault Unit :=
  if p then .ok () else .error .assertion

/-- A `uint8_t` in an `int` -/
def u8 (b : Byte) : Word := b.setWidth 32

/-- `buf[i]` -/
def get (buf : List Byte) (i : Nat) : Except Fault Word :=
  match buf[i]? with
  | some b => .ok (u8 b)
  | none => .error (.read i)

/-- `buf[i] = data` for each of the bytes in turn -/
def put (buf : List Byte) : Nat → List Byte → Except Fault (List Byte)
  | _, [] => .ok buf
  | i, b :: bytes => if i < buf.length then put (buf.set i b) (i + 1) bytes else .error (.write i)

/-- `in32(__rxdata)`: a word, and the ones left in the RXFIFO -/
def in32 : List Word → Except Fault (Word × List Word)
  | [] => .error .empty
  | data :: rx => .ok (data, rx)

/-- The controller with what is on the bus. `exchange` is a burst, with what is written to the
control register to start it and the words in the TXFIFO: the words in the RXFIFO, unless `spi_wait`
fails. `finish` is the last write to the control register, which disables the controller and so
empties the FIFOs. -/
structure Bus (σ : Type) where
  exchange : Word → List Word → σ → Option (List Word) × σ
  finish : Word → σ → σ

/-- The bits of the burst that a control word starts -/
def burstLength (ctrl : Word) : Nat := (field ctrl ECSPI_CONTROLREG_BCNT_POS 12).toNat + 1

/-- `mx_ecspi_t`; the control word of the configuration has no burst length in it. -/
structure MxEcspi where
  ctrl : Word
  noBurst : field ctrl ECSPI_CONTROLREG_BCNT_POS 12 = 0#12

/-- The control word of `spi_setcfg` -/
def setcfgCtrl (device clock : Word) : Option Word :=
  if device.ult 4 then
    let div := clock / SCLK_FREQ
    if div = 0 ∨ BitVec.ult 16 div then none
    else
      let div := div - 1
      let ctrl := device <<< ECSPI_CONTROLREG_CSEL_POS
      let ctrl := ctrl &&& ~~~(ECSPI_CONREG_PREDIVIDR_MASK ||| ECSPI_CONREG_POSTDIVIDR_MASK)
      some (ctrl ||| div <<< ECSPI_CONREG_PREDIVIDR_POS)
  else none

theorem field_below {v : Word} {k : Nat} (low : v.toNat * 2 ^ k < 2 ^ 20) :
    field (v <<< k) ECSPI_CONTROLREG_BCNT_POS 12 = 0#12 := by
  have fits : v.toNat * 2 ^ k % 2 ^ 32 = v.toNat * 2 ^ k := Nat.mod_eq_of_lt (by omega)
  apply BitVec.eq_of_toNat_eq
  rw [field_toNat, BitVec.toNat_shiftLeft, Nat.shiftLeft_eq, ECSPI_CONTROLREG_BCNT_POS, fits,
    Nat.div_eq_of_lt low]
  rfl

theorem setcfgCtrl_noBurst {device clock ctrl : Word} (set : setcfgCtrl device clock = some ctrl) :
    field ctrl ECSPI_CONTROLREG_BCNT_POS 12 = 0#12 := by
  simp only [setcfgCtrl] at set
  split at set
  case isFalse => cases set
  case isTrue below =>
    split at set
    case isTrue => cases set
    case isFalse fits =>
      obtain rfl := Option.some.inj set
      obtain ⟨nonzero, small⟩ := not_or.mp fits
      generalize clock / SCLK_FREQ = div at *
      have few : device.toNat < 4 := by simpa [BitVec.ult] using below
      have low : (div - 1).toNat < 16 := by
        have up : div.toNat ≤ 16 := by simpa [BitVec.ult] using small
        have pos : div.toNat ≠ 0 := fun zero => nonzero (BitVec.eq_of_toNat_eq zero)
        rw [BitVec.toNat_sub]
        simp
        omega
      rw [field_or, field_and, field_below (by rw [ECSPI_CONTROLREG_CSEL_POS]; omega),
        field_below (by rw [ECSPI_CONREG_PREDIVIDR_POS]; omega), BitVec.zero_and]
      rfl

def spiSetcfg (device clock : Word) : Option MxEcspi :=
  (setcfgCtrl device clock).pmap (fun ctrl clear => ⟨ctrl, clear⟩) fun _ set =>
    setcfgCtrl_noBurst set

variable {σ : Type} (bus : Bus σ) (dev : MxEcspi)

def spiSetupExchange (len : Nat) : Except Fault Word := do
  assert (len ≤ MX_ECSPI_BURST_MAX)
  let ctrl := dev.ctrl
  let ctrl := ctrl ||| ECSPI_CONTROLREG_ENABLE
  let ctrl := ctrl ||| ECSPI_CONTROLREG_MASTERMODE SPI_DEV
  return ctrl ||| (BitVec.ofNat 32 (len <<< 3) - 1) <<< ECSPI_CONTROLREG_BCNT_POS

/-- The burst from `spi_start_exchange` to the end of `spi_wait` -/
def spiStartExchange (ctrl : Word) (tx : List Word) (s : σ) : Option (List Word) × σ :=
  bus.exchange (ctrl ||| ECSPI_CONTROLREG_XCH) tx s

def spiEndExchange (ctrl : Word) (s : σ) : σ := bus.finish (ctrl &&& ~~~ECSPI_CONTROLREG_ENABLE) s

/-- A `uint8_t cmd[4]` -/
structure Cmd where
  c0 : Byte
  c1 : Byte
  c2 : Byte
  c3 : Byte

def Cmd.bytes (cmd : Cmd) : List Byte := [cmd.c0, cmd.c1, cmd.c2, cmd.c3]

/-! ## The words of the TXFIFO -/

/-- The loop that sends `count` words of the buffer from `i` on -/
def sendWords (buf : List Byte) : Nat → Nat → Except Fault (List Word)
  | 0, _ => .ok []
  | count + 1, i => do
    let data := (← get buf i) <<< 24 ||| (← get buf (i + 1)) <<< 16 |||
      (← get buf (i + 2)) <<< 8 ||| (← get buf (i + 3))
    let rest ← sendWords buf count (i + 4)
    return data :: rest

/-- The words with the command and the odd bytes of the data -/
def cmdWriteHead (cmd : Cmd) (buf : List Byte) (remainder : Nat) : Except Fault (List Word) :=
  match remainder with
  | 0 => return [u8 cmd.c0 <<< 24 ||| u8 cmd.c1 <<< 16 ||| u8 cmd.c2 <<< 8 ||| u8 cmd.c3]
  | 1 => return [u8 cmd.c0,
      u8 cmd.c1 <<< 24 ||| u8 cmd.c2 <<< 16 ||| u8 cmd.c3 <<< 8 ||| (← get buf 0)]
  | 2 => return [u8 cmd.c0 <<< 8 ||| u8 cmd.c1,
      u8 cmd.c2 <<< 24 ||| u8 cmd.c3 <<< 16 ||| (← get buf 0) <<< 8 ||| (← get buf 1)]
  | _ => return [u8 cmd.c0 <<< 16 ||| u8 cmd.c1 <<< 8 ||| u8 cmd.c2,
      u8 cmd.c3 <<< 24 ||| (← get buf 0) <<< 16 ||| (← get buf 1) <<< 8 ||| (← get buf 2)]

def cmdReadHead (cmd : Cmd) (remainder : Nat) : List Word :=
  match remainder with
  | 0 => [u8 cmd.c0 <<< 24 ||| u8 cmd.c1 <<< 16 ||| u8 cmd.c2 <<< 8 ||| u8 cmd.c3]
  | 1 => [u8 cmd.c0, u8 cmd.c1 <<< 24 ||| u8 cmd.c2 <<< 16 ||| u8 cmd.c3 <<< 8]
  | 2 => [u8 cmd.c0 <<< 8 ||| u8 cmd.c1, u8 cmd.c2 <<< 24 ||| u8 cmd.c3 <<< 16]
  | _ => [u8 cmd.c0 <<< 16 ||| u8 cmd.c1 <<< 8 ||| u8 cmd.c2, u8 cmd.c3 <<< 24]

def norFlashWriteHead (buf : List Byte) (remainder : Nat) : Except Fault (List Word) :=
  match remainder with
  | 0 => return [(← get buf 0) <<< 24 ||| (← get buf 1) <<< 16 ||| (← get buf 2) <<< 8 |||
      (← get buf 3)]
  | 1 => return [← get buf 0,
      (← get buf 1) <<< 24 ||| (← get buf 2) <<< 16 ||| (← get buf 3) <<< 8 ||| (← get buf 4)]
  | 2 => return [(← get buf 0) <<< 8 ||| (← get buf 1),
      (← get buf 2) <<< 24 ||| (← get buf 3) <<< 16 ||| (← get buf 4) <<< 8 ||| (← get buf 5)]
  | _ => return [(← get buf 0) <<< 16 ||| (← get buf 1) <<< 8 ||| (← get buf 2),
      (← get buf 3) <<< 24 ||| (← get buf 4) <<< 16 ||| (← get buf 5) <<< 8 ||| (← get buf 6)]

/-! ## The words of the RXFIFO -/

/-- The odd bytes of the data; the first word was discarded. -/
def cmdReadOdd (remainder : Nat) (rx : List Word) (buf : List Byte) :
    Except Fault (List Word × List Byte) := do
  match remainder with
  | 0 => return (rx, buf)
  | 1 =>
    let (data, rx) ← in32 rx
    return (rx, ← put buf 0 [byteAt data 0])
  | 2 =>
    let (data, rx) ← in32 rx
    return (rx, ← put buf 0 [byteAt data 8, byteAt data 0])
  | _ =>
    let (data, rx) ← in32 rx
    return (rx, ← put buf 0 [byteAt data 16, byteAt data 8, byteAt data 0])

/-- The loop that puts `count` words into the buffer from `i` on -/
def takeWords : Nat → Nat → List Word → List Byte → Except Fault (List Word × List Byte)
  | 0, _, rx, buf => .ok (rx, buf)
  | count + 1, i, rx, buf => do
    let (data, rx) ← in32 rx
    let buf ← put buf i [byteAt data 24, byteAt data 16, byteAt data 8, byteAt data 0]
    takeWords count (i + 4) rx buf

/-! ## The exchanges -/

/-- What a call leaves: its result, and the states of the bus, the RXFIFO and the buffer -/
structure Left (σ : Type) where
  rc : Int
  bus : σ
  rx : List Word
  buf : List Byte

def spiCmdRead (cmd : Cmd) (buf : List Byte) (len : Nat) (s : σ) : Except Fault (Left σ) := do
  let total := 4 + len
  assert (total ≤ MX_ECSPI_BURST_MAX)
  let ctrl ← spiSetupExchange dev total
  let remainder := len &&& 3
  let head := cmdReadHead cmd remainder
  match spiStartExchange bus ctrl (head ++ List.replicate (len >>> 2) 0) s with
  | (none, s) => return ⟨-1, s, [], buf⟩
  | (some rx, s) =>
    let (_, rx) ← in32 rx
    let (rx, buf) ← cmdReadOdd remainder rx buf
    let (rx, buf) ← takeWords (len >>> 2) remainder rx buf
    return ⟨0, spiEndExchange bus ctrl s, rx, buf⟩

def spiCmdWrite (cmd : Cmd) (buf : List Byte) (len : Nat) (s : σ) : Except Fault (Int × σ) := do
  let total := 4 + len
  assert (total ≤ MX_ECSPI_BURST_MAX)
  let ctrl ← spiSetupExchange dev total
  let remainder := len &&& 3
  let head ← cmdWriteHead cmd buf remainder
  let rest ← sendWords buf (len >>> 2) remainder
  match spiStartExchange bus ctrl (head ++ rest) s with
  | (none, s) => return (-1, s)
  | (some _, s) => return (0, spiEndExchange bus ctrl s)

/-- `spi_nor_flash_write`, which ends the exchange with its length for the control word -/
def spiNorFlashWrite (buf : List Byte) (len : Nat) (s : σ) : Except Fault (Int × σ) := do
  assert (len ≤ MX_ECSPI_BURST_MAX)
  let ctrl ← spiSetupExchange dev len
  let remainder := len &&& 3
  let head ← norFlashWriteHead buf remainder
  let rest ← sendWords buf (len >>> 2) (remainder + 4)
  match spiStartExchange bus ctrl (head ++ rest) s with
  | (none, s) => return (-1, s)
  | (some _, s) => return (0, spiEndExchange bus (BitVec.ofNat 32 len) s)

def spiWrite1byte (cmd : Byte) (s : σ) : Except Fault (Int × σ) := do
  let ctrl ← spiSetupExchange dev 1
  match spiStartExchange bus ctrl [u8 cmd] s with
  | (none, s) => return (-1, s)
  | (some _, s) => return (0, spiEndExchange bus ctrl s)

/-! ## Words and bytes -/

theorem byteAt_u8 (b : Byte) {p q : Nat} (place : p % 8 = 0) (place' : q % 8 = 0)
    (room : p + 8 ≤ 32) : byteAt (u8 b <<< p) q = if p = q then b else 0#8 :=
  byteAt_put b place place' room

theorem byteAt_u8_zero (b : Byte) {q : Nat} (place' : q % 8 = 0) :
    byteAt (u8 b) q = if q = 0 then b else 0#8 := by
  have put := byteAt_u8 b (p := 0) rfl place' (by decide)
  rw [BitVec.shiftLeft_zero] at put
  simpa [eq_comm] using put

theorem bytesOf_word (a b c d : Byte) :
    bytesOf 4 (u8 a <<< 24 ||| u8 b <<< 16 ||| u8 c <<< 8 ||| u8 d) = [a, b, c, d] := by
  simp [bytesOf, byteAt_or, byteAt_u8, byteAt_u8_zero]

theorem burstLength_setup {len : Nat} (pos : 0 < len) (fits : len ≤ MX_ECSPI_BURST_MAX)
    (ctrl : Word) (clear : field ctrl ECSPI_CONTROLREG_BCNT_POS 12 = 0#12) :
    burstLength (ctrl ||| ECSPI_CONTROLREG_ENABLE ||| ECSPI_CONTROLREG_MASTERMODE SPI_DEV |||
      (BitVec.ofNat 32 (len <<< 3) - 1) <<< ECSPI_CONTROLREG_BCNT_POS |||
        ECSPI_CONTROLREG_XCH) = 8 * len := by
  have low : field ECSPI_CONTROLREG_ENABLE ECSPI_CONTROLREG_BCNT_POS 12 = 0#12 ∧
      field (ECSPI_CONTROLREG_MASTERMODE SPI_DEV) ECSPI_CONTROLREG_BCNT_POS 12 = 0#12 ∧
      field ECSPI_CONTROLREG_XCH ECSPI_CONTROLREG_BCNT_POS 12 = 0#12 := by decide
  unfold MX_ECSPI_BURST_MAX at fits
  unfold burstLength
  rw [field_or, field_or, field_or, field_or, clear, low.1, low.2.1, low.2.2]
  simp only [BitVec.zero_or, BitVec.or_zero, field_toNat, BitVec.toNat_shiftLeft,
    ECSPI_CONTROLREG_BCNT_POS, Nat.shiftLeft_eq]
  rw [BitVec.toNat_sub]
  simp
  omega

theorem spiSetupExchange_eq {len : Nat} (pos : 0 < len) (fits : len ≤ MX_ECSPI_BURST_MAX) :
    ∃ ctrl, spiSetupExchange dev len = .ok ctrl ∧
      burstLength (ctrl ||| ECSPI_CONTROLREG_XCH) = 8 * len := by
  refine ⟨_, ?_, burstLength_setup pos fits dev.ctrl dev.noBurst⟩
  rw [spiSetupExchange, assert, if_pos fits]
  rfl

theorem get_eq {buf : List Byte} {i : Nat} (inside : i < buf.length) :
    get buf i = .ok (u8 buf[i]) := by
  rw [get, List.getElem?_eq_getElem inside]

theorem get_beyond {buf : List Byte} {i : Nat} (beyond : buf.length ≤ i) :
    get buf i = .error (.read i) := by
  rw [get, List.getElem?_eq_none beyond]

theorem drop_word {buf : List Byte} {i : Nat} (inside : i + 4 ≤ buf.length) :
    buf.drop i = buf[i] :: buf[i + 1] :: buf[i + 2] :: buf[i + 3] :: buf.drop (i + 4) := by
  rw [List.drop_eq_getElem_cons (by omega), List.drop_eq_getElem_cons (by omega),
    List.drop_eq_getElem_cons (by omega), List.drop_eq_getElem_cons (by omega)]

theorem sendWords_eq {buf : List Byte} {count i : Nat} (inside : i + 4 * count ≤ buf.length) :
    ∃ words, sendWords buf count i = .ok words ∧ words.length = count ∧
      words.flatMap (bytesOf 4) = (buf.drop i).take (4 * count) := by
  induction count generalizing i with
  | zero => exact ⟨[], rfl, rfl, by simp⟩
  | succ count ih =>
    obtain ⟨words, sent, length, bytes⟩ := ih (i := i + 4) (by omega)
    rw [sendWords, get_eq (by omega), get_eq (by omega), get_eq (by omega), get_eq (by omega),
      sent]
    refine ⟨_, rfl, congrArg (· + 1) length, ?_⟩
    rw [List.flatMap_cons, bytesOf_word, bytes, drop_word (by omega : i + 4 ≤ buf.length)]
    rfl

theorem sendWords_short {buf : List Byte} {count i : Nat} (start : i ≤ buf.length)
    (short : buf.length < i + 4 * count) :
    sendWords buf count i = .error (.read buf.length) := by
  induction count generalizing i with
  | zero => omega
  | succ count ih =>
    rw [sendWords]
    rcases Nat.lt_or_ge buf.length (i + 4) with early | late
    · have ends : buf.length = i ∨ buf.length = i + 1 ∨ buf.length = i + 2 ∨
          buf.length = i + 3 := by omega
      rcases ends with ends | ends | ends | ends
      · rw [ends, get_beyond (by omega)]
        rfl
      · rw [ends, get_eq (by omega), get_beyond (by omega)]
        rfl
      · rw [ends, get_eq (by omega), get_eq (by omega), get_beyond (by omega)]
        rfl
      · rw [ends, get_eq (by omega), get_eq (by omega), get_eq (by omega), get_beyond (by omega)]
        rfl
    · rw [get_eq (by omega), get_eq (by omega), get_eq (by omega), get_eq (by omega),
        ih late (by omega)]
      rfl

/-! ## What is sent -/

theorem odd_bytes (len : Nat) :
    (4 + len - 1) % 4 + 1 = (if len % 4 = 0 then 4 else len % 4) ∧
      wordsFor 32 (8 * (4 + len)) = (if len % 4 = 0 then 1 else 2) + len / 4 := by
  unfold wordsFor
  split <;> omega

theorem bytesOf_low (a b c : Byte) :
    bytesOf 3 (u8 a <<< 16 ||| u8 b <<< 8 ||| u8 c) = [a, b, c] ∧
      bytesOf 2 (u8 a <<< 8 ||| u8 b) = [a, b] ∧ bytesOf 1 (u8 a) = [a] := by
  simp [bytesOf, byteAt_or, byteAt_u8, byteAt_u8_zero]

theorem cmdWriteHead_eq (cmd : Cmd) (buf : List Byte) (len : Nat)
    (inside : len % 4 ≤ buf.length) :
    ∃ head, cmdWriteHead cmd buf (len % 4) = .ok head ∧
      head.length = (if len % 4 = 0 then 1 else 2) ∧
      ∀ rest, burstBytes 4 (4 + len) (head ++ rest) =
        cmd.bytes ++ buf.take (len % 4) ++ rest.flatMap (bytesOf 4) := by
  have first := (odd_bytes len).1
  have odd : len % 4 < 4 := Nat.mod_lt _ (by decide)
  unfold Cmd.bytes
  generalize len % 4 = r at *
  match r, buf, inside with
  | 0, buf, _ =>
    refine ⟨_, rfl, rfl, fun rest => ?_⟩
    rw [List.singleton_append, burstBytes, first, if_pos rfl, bytesOf_word]
    rfl
  | 1, a :: buf, _ =>
    refine ⟨_, rfl, rfl, fun rest => ?_⟩
    rw [List.cons_append, burstBytes, first, if_neg (by decide), (bytesOf_low cmd.c0 0 0).2.2,
      List.singleton_append, List.singleton_append, List.flatMap_cons, bytesOf_word]
    rfl
  | 2, a :: b :: buf, _ =>
    refine ⟨_, rfl, rfl, fun rest => ?_⟩
    rw [List.cons_append, burstBytes, first, if_neg (by decide),
      (bytesOf_low cmd.c0 cmd.c1 0).2.1, List.singleton_append, List.flatMap_cons, bytesOf_word]
    rfl
  | 3, a :: b :: c :: buf, _ =>
    refine ⟨_, rfl, rfl, fun rest => ?_⟩
    rw [List.cons_append, burstBytes, first, if_neg (by decide),
      (bytesOf_low cmd.c0 cmd.c1 cmd.c2).1, List.singleton_append, List.flatMap_cons, bytesOf_word]
    rfl
  | 1, [], short | 2, [], short | 2, [_], short | 3, [], short | 3, [_], short | 3, [_, _], short =>
    simp at short
  | n + 4, _, _ => omega

theorem burst_of_bytes {total : Nat} {words : List Word} {bytes : List Byte} (pos : 0 < total)
    (length : words.length = wordsFor 32 (8 * total))
    (same : burstBytes 4 total words = bytes) : Burst (8 * total) words (wire bytes) where
  length := length
  bits := by rw [shifted_eq_wire (k := 4) rfl pos, same]

theorem bytes_of_burst {total : Nat} {words : List Word} {bytes : List Byte} (pos : 0 < total)
    (burst : Burst (8 * total) words (wire bytes)) : burstBytes 4 total words = bytes := by
  have bits := burst.bits
  rw [shifted_eq_wire (k := 4) rfl pos] at bits
  exact wire_injective bits

/-- A call puts the words of one burst with the bytes `out` into the TXFIFO, and gives what comes of
it back. -/
def Sends (call : {σ : Type} → Bus σ → σ → Except Fault (Int × σ)) (out : List Byte) : Prop :=
  ∃ ctrl words last, burstLength ctrl = 8 * out.length ∧
    Burst (burstLength ctrl) words (wire out) ∧
    ∀ {σ : Type} (bus : Bus σ) (s : σ), call bus s =
      .ok (match bus.exchange ctrl words s with
        | (none, s) => (-1, s)
        | (some _, s) => (0, bus.finish last s))

theorem mask_shift (len : Nat) : len &&& 3 = len % 4 ∧ len >>> 2 = len / 4 :=
  ⟨Nat.and_two_pow_sub_one_eq_mod len 2, Nat.shiftRight_eq_div_pow len 2⟩

theorem spiCmdWrite_sends (cmd : Cmd) (buf : List Byte) (len : Nat) (inside : len ≤ buf.length)
    (fits : 4 + len ≤ MX_ECSPI_BURST_MAX) :
    Sends (fun bus s => spiCmdWrite bus dev cmd buf len s) (cmd.bytes ++ buf.take len) := by
  obtain ⟨ctrl, setup, length⟩ := spiSetupExchange_eq dev (by omega : 0 < 4 + len) fits
  have ⟨mask, shift⟩ := mask_shift len
  obtain ⟨head, start, headLength, bytes⟩ :=
    cmdWriteHead_eq cmd buf len (by omega)
  obtain ⟨rest, sent, restLength, restBytes⟩ :=
    sendWords_eq (by omega : len % 4 + 4 * (len / 4) ≤ buf.length)
  have total : (cmd.bytes ++ buf.take len).length = 4 + len := by
    rw [List.length_append, List.length_take, Nat.min_eq_left inside]
    rfl
  refine ⟨ctrl ||| ECSPI_CONTROLREG_XCH, head ++ rest, ctrl &&& ~~~ECSPI_CONTROLREG_ENABLE,
    ?_, ?_, ?_⟩
  · rw [length, total]
  · rw [length]
    apply burst_of_bytes (by omega)
    · rw [List.length_append, headLength, restLength, (odd_bytes len).2]
    · rw [bytes, restBytes, List.append_assoc, ← List.take_add]
      congr 2
      omega
  · intro σ bus s
    simp only [spiCmdWrite, assert, if_pos fits, setup, mask, shift, start, sent, bind,
      Except.bind, spiStartExchange]
    rcases bus.exchange (ctrl ||| ECSPI_CONTROLREG_XCH) (head ++ rest) s with ⟨_ | _, _⟩ <;> rfl

theorem spiWrite1byte_sends (cmd : Byte) :
    Sends (fun bus s => spiWrite1byte bus dev cmd s) [cmd] := by
  obtain ⟨ctrl, setup, length⟩ := spiSetupExchange_eq dev (by decide : 0 < 1) (by decide)
  refine ⟨ctrl ||| ECSPI_CONTROLREG_XCH, [u8 cmd], ctrl &&& ~~~ECSPI_CONTROLREG_ENABLE,
    length, ?_, ?_⟩
  · rw [length]
    apply burst_of_bytes (by decide) rfl
    show bytesOf 1 (u8 cmd) ++ [] = [cmd]
    rw [(bytesOf_low cmd 0 0).2.2, List.append_nil]
  · intro σ bus s
    simp only [spiWrite1byte, setup, bind, Except.bind, spiStartExchange]
    rcases bus.exchange (ctrl ||| ECSPI_CONTROLREG_XCH) [u8 cmd] s with ⟨_ | _, _⟩ <;> rfl

/-! ## One word too many -/

theorem lt_of_get {buf : List Byte} {i : Nat} {v : Word} (got : get buf i = .ok v) :
    i < buf.length := by
  by_contra beyond
  rw [get_beyond (not_lt.mp beyond)] at got
  cases got

theorem length_sendWords {buf : List Byte} {count i : Nat} {words : List Word}
    (sent : sendWords buf count i = .ok words) : words.length = count := by
  induction count generalizing i words with
  | zero =>
    cases sent
    rfl
  | succ count ih =>
    simp only [sendWords, Except.bind_eq_ok] at sent
    obtain ⟨_, _, _, _, _, _, _, _, rest, sent, same⟩ := sent
    cases same
    exact congrArg (· + 1) (ih sent)

theorem norFlashWriteHead_ok {buf : List Byte} {r : Nat} {head : List Word} (odd : r < 4)
    (start : norFlashWriteHead buf r = .ok head) :
    head.length = (if r = 0 then 1 else 2) ∧ r + 4 ≤ buf.length := by
  match r with
  | 0 =>
    simp only [norFlashWriteHead, Except.bind_eq_ok] at start
    obtain ⟨_, _, _, _, _, _, _, got, same⟩ := start
    cases same
    exact ⟨rfl, lt_of_get got⟩
  | 1 =>
    simp only [norFlashWriteHead, Except.bind_eq_ok] at start
    obtain ⟨_, _, _, _, _, _, _, _, _, got, same⟩ := start
    cases same
    exact ⟨rfl, lt_of_get got⟩
  | 2 =>
    simp only [norFlashWriteHead, Except.bind_eq_ok] at start
    obtain ⟨_, _, _, _, _, _, _, _, _, _, _, got, same⟩ := start
    cases same
    exact ⟨rfl, lt_of_get got⟩
  | 3 =>
    simp only [norFlashWriteHead, Except.bind_eq_ok] at start
    obtain ⟨_, _, _, _, _, _, _, _, _, _, _, _, _, got, same⟩ := start
    cases same
    exact ⟨rfl, lt_of_get got⟩
  | n + 4 => omega

theorem spiNorFlashWrite_ok {bus : Bus σ} {buf : List Byte} {len : Nat} {s : σ} {left : Int × σ}
    (ok : spiNorFlashWrite bus dev buf len s = .ok left) :
    len + 4 ≤ buf.length ∧ ∃ ctrl words last, words.length = wordsFor 32 (8 * len) + 1 ∧
      left = match bus.exchange ctrl words s with
        | (none, s) => (-1, s)
        | (some _, s) => (0, bus.finish last s) := by
  have ⟨mask, shift⟩ := mask_shift len
  simp only [spiNorFlashWrite, Except.bind_eq_ok, mask, shift, spiStartExchange] at ok
  obtain ⟨_, _, ctrl, _, head, start, rest, sent, ends⟩ := ok
  have ⟨headLength, headEnd⟩ := norFlashWriteHead_ok (Nat.mod_lt _ (by decide)) start
  have restLength := length_sendWords sent
  constructor
  · by_contra short
    rw [sendWords_short headEnd (by omega)] at sent
    cases sent
  · refine ⟨ctrl ||| ECSPI_CONTROLREG_XCH, head ++ rest,
      BitVec.ofNat 32 len &&& ~~~ECSPI_CONTROLREG_ENABLE, ?_, ?_⟩
    · rw [List.length_append, headLength, restLength, wordsFor]
      split <;> omega
    · rcases exchanged :
        bus.exchange (ctrl ||| ECSPI_CONTROLREG_XCH) (head ++ rest) s with ⟨_ | _, _⟩
      · rw [exchanged] at ends
        cases ends
        rfl
      · rw [exchanged] at ends
        cases ends
        rfl

/-- A bus that keeps the words it is given -/
def keep : Bus (List Word) where
  exchange _ words _ := (none, words)
  finish _ words := words

theorem not_sends_spiNorFlashWrite (buf : List Byte) (len : Nat) {out : List Byte}
    (length : out.length = len) :
    ¬ Sends (fun bus s => spiNorFlashWrite bus dev buf len s) out := by
  rintro ⟨ctrl, words, last, burst, framed, call⟩
  obtain ⟨_, ctrl', words', last', more, same⟩ := spiNorFlashWrite_ok dev (call keep [])
  have equal : words = words' := congrArg Prod.snd same
  have exact_ := framed.length
  rw [burst, length, equal, more] at exact_
  omega

/-! ## What is read -/

theorem put_eq (buf bytes : List Byte) (i : Nat) (inside : i + bytes.length ≤ buf.length) :
    put buf i bytes = .ok (buf.take i ++ bytes ++ buf.drop (i + bytes.length)) := by
  induction bytes generalizing buf i with
  | nil => simp [put]
  | cons b bytes ih =>
    rw [List.length_cons] at inside
    have here : i < buf.length := by omega
    rw [put, if_pos here, ih _ _ (by rw [List.length_set]; omega), List.length_cons,
      List.take_succ_eq_append_getElem (by rw [List.length_set]; exact here),
      List.take_set_of_le (Nat.le_refl i), List.getElem_set_self,
      List.drop_set_of_lt (by omega), Nat.add_right_comm, Nat.add_assoc]
    simp

theorem takeWords_eq (words : List Word) (buf : List Byte) (i : Nat)
    (inside : i + 4 * words.length ≤ buf.length) :
    takeWords words.length i words buf = .ok ([], buf.take i ++ words.flatMap (bytesOf 4) ++
      buf.drop (i + 4 * words.length)) := by
  induction words generalizing buf i with
  | nil => simp [takeWords]
  | cons data words ih =>
    rw [List.length_cons] at inside
    have stored : put buf i [byteAt data 24, byteAt data 16, byteAt data 8, byteAt data 0] =
        .ok (buf.take i ++ bytesOf 4 data ++ buf.drop (i + 4)) :=
      put_eq _ _ _ (by simp; omega)
    have stop : (buf.take i ++ bytesOf 4 data).length = i + 4 := by
      simp
      omega
    rw [List.length_cons, takeWords, in32, Except.ok_bind]
    show (put buf i _ >>= fun buf => takeWords words.length (i + 4) words buf) = _
    rw [stored, Except.ok_bind, ih _ _ (by simp; omega), List.take_left' stop, ← List.drop_drop,
      List.drop_left' stop, List.drop_drop, List.flatMap_cons, Nat.mul_succ, Nat.add_assoc,
      Nat.add_comm 4, List.append_assoc (buf.take i)]

theorem drop_bytesOf {k r : Nat} (low : r ≤ k) (v : Word) :
    (bytesOf k v).drop (k - r) = bytesOf r v := by
  induction k with
  | zero =>
    obtain rfl := Nat.le_zero.mp low
    rfl
  | succ k ih =>
    rcases Nat.lt_or_eq_of_le low with below | rfl
    · rw [Nat.succ_sub (Nat.le_of_lt_succ below), bytesOf, List.drop_succ_cons,
        ih (Nat.le_of_lt_succ below)]
    · rw [Nat.sub_self, List.drop_zero]

theorem cmdReadOdd_eq {r : Nat} (odd : r < 4) (pos : 0 < r) (data : Word) (rx : List Word)
    {buf : List Byte} (inside : r ≤ buf.length) :
    cmdReadOdd r (data :: rx) buf = .ok (rx, bytesOf r data ++ buf.drop r) := by
  have stored := put_eq buf (bytesOf r data) 0
    (by rw [length_bytesOf, Nat.zero_add]; exact inside)
  rw [length_bytesOf, Nat.zero_add] at stored
  match r with
  | 1 =>
    show (put buf 0 (bytesOf 1 data) >>= fun buf => .ok (rx, buf)) = _
    rw [stored]
    rfl
  | 2 =>
    show (put buf 0 (bytesOf 2 data) >>= fun buf => .ok (rx, buf)) = _
    rw [stored]
    rfl
  | 3 =>
    show (put buf 0 (bytesOf 3 data) >>= fun buf => .ok (rx, buf)) = _
    rw [stored]
    rfl

theorem cmdWriteHead_zeros (cmd : Cmd) {r : Nat} (odd : r < 4) :
    cmdWriteHead cmd (List.replicate r 0#8) r = .ok (cmdReadHead cmd r) := by
  have zero : u8 0#8 = 0#32 := by decide
  have got (i : Nat) (inside : i < r) : get (List.replicate r 0#8) i = .ok 0#32 := by
    rw [get_eq (by rw [List.length_replicate]; exact inside), List.getElem_replicate, zero]
  match r with
  | 0 => rfl
  | 1 =>
    rw [cmdWriteHead, got 0 (by decide), Except.ok_bind, BitVec.or_zero]
    rfl
  | 2 =>
    rw [cmdWriteHead, got 0 (by decide), got 1 (by decide), Except.ok_bind, Except.ok_bind,
      BitVec.zero_shiftLeft, BitVec.or_zero, BitVec.or_zero]
    rfl
  | 3 =>
    simp only [cmdWriteHead, got 0 (by decide), got 1 (by decide), got 2 (by decide),
      Except.ok_bind, BitVec.zero_shiftLeft, BitVec.or_zero]
    rfl

theorem cmdReadHead_eq (cmd : Cmd) (len : Nat) :
    (cmdReadHead cmd (len % 4)).length = (if len % 4 = 0 then 1 else 2) ∧
      ∀ rest, burstBytes 4 (4 + len) (cmdReadHead cmd (len % 4) ++ rest) =
        cmd.bytes ++ List.replicate (len % 4) 0#8 ++ rest.flatMap (bytesOf 4) := by
  have odd : len % 4 < 4 := Nat.mod_lt _ (by decide)
  obtain ⟨head, start, length, bytes⟩ :=
    cmdWriteHead_eq cmd (List.replicate (len % 4) 0#8) len (by simp)
  rw [cmdWriteHead_zeros cmd odd] at start
  cases start
  rw [List.take_of_length_le (by simp)] at bytes
  exact ⟨length, bytes⟩

theorem flatMap_zeros (count : Nat) :
    (List.replicate count (0 : Word)).flatMap (bytesOf 4) = List.replicate (4 * count) 0#8 := by
  induction count with
  | zero => rfl
  | succ count ih =>
    rw [List.replicate_succ, List.flatMap_cons, ih, Nat.mul_succ, Nat.add_comm,
      List.replicate_add]
    rfl

/-- A call sends the bytes `out` in one burst, takes as many words as it has put into the TXFIFO,
and stores what came in after the command over the first bytes of the buffer. -/
def Receives (call : {σ : Type} → Bus σ → σ → Except Fault (Left σ)) (out buf : List Byte)
    (len : Nat) : Prop :=
  ∃ ctrl words last, burstLength ctrl = 8 * out.length ∧
    Burst (burstLength ctrl) words (wire out) ∧
    ∀ {σ : Type} (bus : Bus σ) (s : σ),
      match bus.exchange ctrl words s with
      | (none, s') => call bus s = .ok ⟨-1, s', [], buf⟩
      | (some rx, s') => ∀ back, Burst (burstLength ctrl) rx (wire back) →
          call bus s = .ok ⟨0, bus.finish last s', [], back.drop 4 ++ buf.drop len⟩

theorem store_back {rx : List Word} {back buf : List Byte} {len : Nat}
    (inside : len ≤ buf.length) (burst : Burst (8 * (4 + len)) rx (wire back)) :
    ∃ first rx' rx'' buf', rx = first :: rx' ∧
      cmdReadOdd (len % 4) rx' buf = .ok (rx'', buf') ∧
      takeWords (len / 4) (len % 4) rx'' buf' = .ok ([], back.drop 4 ++ buf.drop len) := by
  have bytes := bytes_of_burst (by omega) burst
  have length := burst.length
  have ⟨start, count⟩ := odd_bytes len
  have odd : len % 4 < 4 := Nat.mod_lt _ (by decide)
  have split : len % 4 + 4 * (len / 4) = len := Nat.mod_add_div len 4
  rw [count] at length
  rcases Nat.eq_zero_or_pos (len % 4) with none | some
  · rw [if_pos none] at start length
    rcases rx with _ | ⟨first, rest⟩
    · rw [List.length_nil] at length
      omega
    · have rounds : rest.length = len / 4 := by
        rw [List.length_cons] at length
        omega
      have taken := takeWords_eq rest buf 0 (by omega)
      refine ⟨first, rest, rest, buf, rfl, by rw [none]; rfl, ?_⟩
      rw [burstBytes, start] at bytes
      rw [none, ← rounds, taken, ← bytes, List.drop_left' (length_bytesOf 4 first), rounds]
      rw [none] at split
      rw [split]
      rfl
  · rw [if_neg (Nat.pos_iff_ne_zero.mp some)] at start length
    rcases rx with _ | ⟨first, _ | ⟨data, rest⟩⟩
    · rw [List.length_nil] at length
      omega
    · rw [List.length_singleton] at length
      omega
    · have rounds : rest.length = len / 4 := by
        rw [List.length_cons, List.length_cons] at length
        omega
      have stored := cmdReadOdd_eq odd some data rest (by omega : len % 4 ≤ buf.length)
      have stop : (bytesOf (len % 4) data).length = len % 4 := length_bytesOf _ _
      have taken := takeWords_eq rest (bytesOf (len % 4) data ++
        buf.drop (len % 4)) (len % 4) (by simp; omega)
      rw [List.take_left' stop, ← List.drop_drop, List.drop_left' stop, List.drop_drop, rounds,
        split] at taken
      refine ⟨first, data :: rest, rest, _, rfl, stored, ?_⟩
      have kept : back.drop 4 = bytesOf (len % 4) data ++ rest.flatMap (bytesOf 4) := by
        rw [burstBytes, start, List.flatMap_cons] at bytes
        have four (l : List Byte) : l.drop 4 = (l.drop (len % 4)).drop (4 - len % 4) := by
          rw [List.drop_drop, Nat.add_sub_cancel' (Nat.le_of_lt odd)]
        rw [← bytes, four, List.drop_left' (length_bytesOf _ _),
          List.drop_append_of_le_length (by simp), drop_bytesOf (Nat.le_of_lt odd)]
      rw [taken, kept]

theorem spiCmdRead_receives (cmd : Cmd) (buf : List Byte) (len : Nat) (inside : len ≤ buf.length)
    (fits : 4 + len ≤ MX_ECSPI_BURST_MAX) :
    Receives (fun bus s => spiCmdRead bus dev cmd buf len s)
      (cmd.bytes ++ List.replicate len 0#8) buf len := by
  obtain ⟨ctrl, setup, length⟩ := spiSetupExchange_eq dev (by omega : 0 < 4 + len) fits
  have ⟨mask, shift⟩ := mask_shift len
  have ⟨headLength, bytes⟩ := cmdReadHead_eq cmd len
  have total : (cmd.bytes ++ List.replicate len 0#8).length = 4 + len := by
    rw [List.length_append, List.length_replicate]
    rfl
  refine ⟨ctrl ||| ECSPI_CONTROLREG_XCH, cmdReadHead cmd (len % 4) ++ List.replicate (len / 4) 0,
    ctrl &&& ~~~ECSPI_CONTROLREG_ENABLE, ?_, ?_, ?_⟩
  · rw [length, total]
  · rw [length]
    apply burst_of_bytes (by omega)
    · rw [List.length_append, headLength, List.length_replicate, (odd_bytes len).2]
    · rw [bytes, flatMap_zeros, List.append_assoc, List.replicate_append_replicate,
        Nat.mod_add_div]
  · intro σ bus s
    split
    case h_1 exchanged =>
      simp only [spiCmdRead, assert, if_pos fits, setup, mask, shift, bind, Except.bind,
        spiStartExchange, exchanged]
      rfl
    case h_2 exchanged =>
      intro back burst
      rw [length] at burst
      obtain ⟨first, rx', rx'', buf', rfl, odd, rest⟩ := store_back inside burst
      simp only [spiCmdRead, assert, if_pos fits, setup, mask, shift, bind, Except.bind,
        spiStartExchange, exchanged, in32, odd, rest]
      rfl

/-! ## All three of them -/

/-- Commands are framed right in both directions, whatever lies behind the data in the buffer, and
`spi_nor_flash_write` frames nothing right. -/
theorem framing (cmd : Cmd) (payload rest : List Byte)
    (fits : 4 + payload.length ≤ MX_ECSPI_BURST_MAX) :
    Sends (fun bus s => spiCmdWrite bus dev cmd (payload ++ rest) payload.length s)
        (cmd.bytes ++ payload) ∧
      Receives (fun bus s => spiCmdRead bus dev cmd (payload ++ rest) payload.length s)
        (cmd.bytes ++ List.replicate payload.length 0#8) (payload ++ rest) payload.length ∧
      ¬ Sends (fun bus s => spiNorFlashWrite bus dev (payload ++ rest) payload.length s)
        payload := by
  have inside : payload.length ≤ (payload ++ rest).length := by simp
  have sends := spiCmdWrite_sends dev cmd _ _ inside fits
  rw [List.take_left] at sends
  exact ⟨sends, spiCmdRead_receives dev cmd _ _ inside fits,
    not_sends_spiNorFlashWrite dev (payload ++ rest) payload.length rfl⟩

/-- A page program of one byte, and a read of it -/
theorem framing_byte :
    Sends (fun bus s => spiCmdWrite bus ⟨0x1000, by decide⟩ ⟨2, 0, 0, 0⟩ ([0xab] ++ []) 1 s)
        ((⟨2, 0, 0, 0⟩ : Cmd).bytes ++ [0xab]) ∧
      Receives (fun bus s => spiCmdRead bus ⟨0x1000, by decide⟩ ⟨2, 0, 0, 0⟩ ([0xab] ++ []) 1 s)
        ((⟨2, 0, 0, 0⟩ : Cmd).bytes ++ [0#8]) ([0xab] ++ []) 1 ∧
      ¬ Sends (fun bus s => spiNorFlashWrite bus ⟨0x1000, by decide⟩ ([0xab] ++ []) 1 s) [0xab] :=
  framing ⟨0x1000, by decide⟩ ⟨2, 0, 0, 0⟩ [0xab] [] (by decide)

/-- The two bytes with which `write_status` writes the status register: the third is read, and where
there are more of them, two words are put into the TXFIFO for a burst that takes one. -/
theorem framing_wrong :
    spiNorFlashWrite keep ⟨0x1000, by decide⟩ [0x01, 0x00] 2 [] = .error (.read 2) ∧
      spiNorFlashWrite keep ⟨0x1000, by decide⟩ [0x01, 0x00, 0xaa, 0xbb, 0xcc, 0xdd] 2 [] =
        .ok (-1, [0x0100, 0xaabbccdd]) ∧
      wordsFor 32 (8 * 2) = 1 :=
  ⟨rfl, rfl, rfl⟩

end Mx6xBsp.Norspi
