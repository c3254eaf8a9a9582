import Mathlib.Logic.Function.Basic
import Mx6xBsp.Devc.RxDma

/-!
# The transmit DMA of the serial driver

`tto` gathers the output of a device in its `tx_dma.buf` and starts a transfer;
`mx53_tx_pulse_hdlr` runs when it is done. How far the buffer is filled is
remembered in `byte_cnt`, which is static: one counter for all devices. The output
buffer belongs to io-char; `IoChar` is what `tto` uses of it.
-/

namespace Mx6xBsp.Devc

/-- The output buffer of io-char. `stream` are the bytes that are still to come out of it;
`tto_getchar` takes the first, and `tto_write_block` the first few, as many as it finds in one piece
and the room allows. -/
structure IoChar (β : Type) where
  cnt : β → Nat
  ttoGetchar : β → UInt8 × β
  ttoWriteBlock : β → Nat → Bytes × β
  stream : β → Bytes
  getchar_stream : ∀ b, 0 < cnt b → stream b = (ttoGetchar b).1 :: stream (ttoGetchar b).2
  writeBlock_stream : ∀ b room,
    stream b = (ttoWriteBlock b room).1 ++ stream (ttoWriteBlock b room).2
  writeBlock_le : ∀ b room, (ttoWriteBlock b room).1.length ≤ room
  writeBlock_pos : ∀ b room, 0 < cnt b → 0 < room → 0 < (ttoWriteBlock b room).1.length

/-- One device. `transfer` is what the SDMA is sending and `sent` what went out on the line; `taken`
are the bytes `tto` has in `tx_dma.buf` for the next transfer, and `placed` all that ever were put
into the output buffer, in the order in which they are to go out. -/
structure TxDev (β : Type) where
  obuf : β
  /-- `OSW_PAGED_OVERRIDE` -/
  override : Bool
  usedma : Bool
  txXferActive : Bool
  buf : Bytes
  transfer : Bytes
  sent : Bytes
  taken : Bytes
  placed : Bytes

/-- All devices of the driver, and the static `byte_cnt`. -/
structure TxSystem (ι β : Type) where
  devs : ι → TxDev β
  byteCnt : Nat

/-- What a call of `tto` for `TTO_DATA` or `TTO_EVENT` finds: `tx_tmr` at zero, `OPOST`, the flags
`OHW_PAGED` and `OSW_PAGED` each time it looks at them, in the loop and behind it, and how often the
transmitter is ready. -/
structure TtoEnv where
  data : Bool
  tmrZero : Bool
  opost : Bool
  paged : Nat → Bool
  pagedEnd : Bool
  trdy : Nat
  /-- How much of a transfer that timed out has gone out. -/
  partDone : Nat

variable {ι β : Type}

/-- The bytes from index `n` on replaced. -/
def putAt (buf : Bytes) (n : Nat) (bytes : Bytes) : Bytes :=
  buf.take n ++ bytes ++ buf.drop (n + bytes.length)

/-- The loop that fills `tx_dma.buf` of a device; `k` counts its turns. -/
def fillBuf (io : IoChar β) (env : TtoEnv) : Nat → Nat → TxDev β → Nat → TxDev β × Nat
  | 0, _, dev, byteCnt => (dev, byteCnt)
  | fuel + 1, k, dev, byteCnt =>
    if io.cnt dev.obuf > 0 ∧ byteCnt < DMA_XFER_SIZE then
      if env.paged k && !dev.override then (dev, byteCnt)
      else if env.opost || dev.override then
        let (c, obuf) := io.ttoGetchar dev.obuf
        fillBuf io env fuel (k + 1)
          { dev with
            obuf := obuf
            buf := putAt dev.buf byteCnt [c]
            taken := dev.taken ++ [c]
            override := false } (byteCnt + 1)
      else
        let (bytes, obuf) := io.ttoWriteBlock dev.obuf (DMA_XFER_SIZE - byteCnt)
        fillBuf io env fuel (k + 1)
          { dev with
            obuf := obuf
            buf := putAt dev.buf byteCnt bytes
            taken := dev.taken ++ bytes } (byteCnt + bytes.length)
    else (dev, byteCnt)

/-- The DMA branch without a transfer: fill the buffer, and start the transfer unless the output is
stopped. Each turn of the loop adds a byte, so `DMA_XFER_SIZE` turns are enough. -/
def ttoDma (io : IoChar β) (env : TtoEnv) (dev : TxDev β) (byteCnt : Nat) : TxDev β × Nat :=
  let (dev, byteCnt) := fillBuf io env DMA_XFER_SIZE 0 dev byteCnt
  if byteCnt ≠ 0 ∧ !env.pagedEnd then
    ({ dev with transfer := dev.buf.take byteCnt, taken := [], txXferActive := true }, 0)
  else (dev, byteCnt)

/-- The loop without DMA. -/
def ttoPio (io : IoChar β) (env : TtoEnv) : Nat → Nat → TxDev β → TxDev β
  | 0, _, dev => dev
  | trdy + 1, k, dev =>
    if io.cnt dev.obuf > 0 then
      if env.paged k && !dev.override then dev
      else
        let (c, obuf) := io.ttoGetchar dev.obuf
        let dev' := { dev with obuf := obuf, sent := dev.sent ++ [c] }
        if dev.override then { dev' with override := false } else ttoPio io env trdy (k + 1) dev'
    else dev

/-- `tto` for output. -/
def tto (io : IoChar β) (env : TtoEnv) (dev : TxDev β) (byteCnt : Nat) : TxDev β × Nat :=
  if dev.usedma then
    if dev.txXferActive then
      if env.data && env.tmrZero then
        (ttoPio io env env.trdy 0
          { dev with
            usedma := false
            txXferActive := false
            sent := dev.sent ++ dev.transfer.take env.partDone
            transfer := [] }, byteCnt)
      else (dev, byteCnt)
    else ttoDma io env dev byteCnt
  else (ttoPio io env env.trdy 0 dev, byteCnt)

/-! ## Steps -/

inductive TxOp (ι β : Type)
  /-- io-char puts bytes behind those in the output buffer, which becomes `b`. -/
  | write (d : ι) (b : β) (bytes : Bytes)
  /-- `tx_inject` puts a control character in front of them. -/
  | inject (d : ι) (b : β) (c : UInt8)
  | tto (d : ι) (env : TtoEnv)
  /-- `mx53_tx_pulse_hdlr` -/
  | complete (d : ι)

variable [DecidableEq ι]

def TxSystem.update (s : TxSystem ι β) (d : ι) (dev : TxDev β) : TxSystem ι β :=
  { s with devs := Function.update s.devs d dev }

def TxSystem.next (io : IoChar β) (s : TxSystem ι β) : TxOp ι β → TxSystem ι β
  | .write d b bytes =>
    s.update d { s.devs d with obuf := b, placed := (s.devs d).placed ++ bytes }
  | .inject d b c =>
    let dev := s.devs d
    let left := io.stream dev.obuf
    s.update d
      { dev with
        obuf := b
        override := true
        placed := dev.placed.take (dev.placed.length - left.length) ++ c :: left }
  | .tto d env =>
    let (dev, byteCnt) := tto io env (s.devs d) s.byteCnt
    { s.update d dev with byteCnt := byteCnt }
  | .complete d =>
    let dev := s.devs d
    s.update d
      { dev with txXferActive := false, sent := dev.sent ++ dev.transfer, transfer := [] }

/-- What io-char puts into the buffer is there, and a pulse belongs to a transfer. -/
def TxSystem.Allowed (io : IoChar β) (s : TxSystem ι β) : TxOp ι β → Prop
  | .write d b bytes => io.stream b = io.stream (s.devs d).obuf ++ bytes
  | .inject d b c => io.stream b = c :: io.stream (s.devs d).obuf
  | .tto _ _ => True
  | .complete d => (s.devs d).txXferActive = true

def TxStep (io : IoChar β) (s : TxSystem ι β) (op : TxOp ι β) (t : TxSystem ι β) : Prop :=
  s.Allowed io op ∧ t = s.next io op

/-- A driver that has just started, its output buffers as they are. -/
structure TxSystem.Fresh (io : IoChar β) (s : TxSystem ι β) : Prop where
  byteCnt : s.byteCnt = 0
  usedma : ∀ d, (s.devs d).usedma = true
  inactive : ∀ d, (s.devs d).txXferActive = false
  buf : ∀ d, (s.devs d).buf.length = DMA_XFER_SIZE
  transfer : ∀ d, (s.devs d).transfer = []
  sent : ∀ d, (s.devs d).sent = []
  taken : ∀ d, (s.devs d).taken = []
  placed : ∀ d, (s.devs d).placed = io.stream (s.devs d).obuf

end Mx6xBsp.Devc
