import Mx6xBsp.Lib.Handover

/-!
# The receive DMA of the serial driver

The SDMA fills one half of `rx_dma.buf` at a time. `mx53_rx_pulse_hdlr` runs for
each half it has finished, `tto` resumes a receiver that found no room in `ibuf`,
and `ser_stty` starts and aborts the transfer with `CREAD`. A half is named by
the value of `buffer0` that stands for it.
-/

namespace Mx6xBsp.Devc

open Handover

def DMA_XFER_SIZE : Nat := 512

abbrev Bytes := List UInt8

/-- The flags of `MX1_UART_SR1` and `MX1_UART_SR2` the handler looks at after an error. -/
structure RxStatus where
  brcd : Bool
  framerr : Bool
  parityerr : Bool
  ore : Bool

/-- The bits of `rx_dma.key`. -/
inductive TtiKey
  | ok | break_ | frame | parity | overrun

/-- `error` is the return value of `xfer_complete`. -/
def RxStatus.key (sr : RxStatus) (error : Bool) : TtiKey :=
  if !error then .ok
  else if sr.brcd then .break_
  else if sr.framerr then .frame
  else if sr.parityerr then .parity
  else if sr.ore then .overrun
  else .ok

/-- A block as `tti2` gets it: from which half, its bytes, and its key. -/
abbrev RxAct := Act Bool Bytes

structure RxDma where
  buffer0 : Bool
  bytesRead : Nat
  key : TtiKey
  /-- The halves of `rx_dma.buf`. -/
  buf : Bool → Bytes
  /-- The half the running transfer fills. -/
  transfer : Option Bool
  /-- The count in the descriptor, which `bytes_left` returns. -/
  count : Nat
  /-- Pulses on their way to the handler. -/
  pulses : Nat
  /-- `IHW_PAGED` -/
  ihwPaged : Bool
  /-- `ATDMAEN` and `RDMAEN` in `MX1_UART_CR1`. -/
  rxIntrs : Bool
  /-- The keys `tti2` got with the blocks. -/
  keys : List TtiKey
  /-- What happened to the halves, the latest first. -/
  log : List RxAct

namespace RxDma

variable (s : RxDma)

/-- `setup_xfer` and `xfer_start` for one half. -/
def start (half : Bool) : RxDma :=
  { s with
    transfer := some half
    count := DMA_XFER_SIZE
    log := .lent half :: s.log }

/-- `tti2` for `bytes_read` bytes of a half. -/
def tti2 (half : Bool) : RxDma :=
  { s with
    keys := s.key :: s.keys
    log := .delivered half ((s.buf half).take s.bytesRead) :: s.log }

/-- The transfer ends with the bytes in its half, and the SDMA sends the pulse. -/
def finish (half : Bool) (data : Bytes) : RxDma :=
  { s with
    buf := Function.update s.buf half (data ++ (s.buf half).drop data.length)
    transfer := none
    count := data.length
    pulses := s.pulses + 1
    log := .filled half data :: s.log }

/-- `mx53_rx_pulse_hdlr`; `space` is what is free in `ibuf`. -/
def rxPulseHdlr (sr : RxStatus) (error : Bool) (space : Nat) : RxDma :=
  let s := { s with
    pulses := s.pulses - 1
    bytesRead := s.count
    key := sr.key error }
  if space < s.bytesRead then { s with ihwPaged := true }
  else { (s.start (!s.buffer0)).tti2 s.buffer0 with buffer0 := !s.buffer0 }

/-- The `_SERCTL_RTS_CHG` part of `tto` in DMA mode. -/
def rtsControl (ihflow rts : Bool) : RxDma :=
  if ihflow && rts then
    let s := { s with ihwPaged := false }
    { (s.tti2 s.buffer0).start (!s.buffer0) with buffer0 := !s.buffer0 }
  else s

/-- The end of `ser_stty` in DMA mode. -/
def serStty (cread : Bool) : RxDma :=
  if cread && !s.rxIntrs then { s.start true with rxIntrs := true }
  else if !cread && s.rxIntrs then { s with transfer := none, rxIntrs := false }
  else s

/-- The driver before the first `ser_stty`. -/
def initial (buf : Bool → Bytes) : RxDma where
  buffer0 := true
  bytesRead := 0
  key := .ok
  buf := buf
  transfer := none
  count := 0
  pulses := 0
  ihwPaged := false
  rxIntrs := false
  keys := []
  log := []

/-- What `create_device` leaves: `ser_attach_intr` enables the receive interrupts whatever
`CREAD` is. -/
def created (buf : Bool → Bytes) (cread : Bool) : RxDma :=
  { (initial buf).serStty cread with rxIntrs := true }

end RxDma

/-! ## Steps -/

inductive RxOp
  | finish (half : Bool) (data : Bytes)
  | pulse (sr : RxStatus) (error : Bool) (space : Nat)
  | rtsControl (ihflow rts : Bool)
  | serStty (cread : Bool)

def RxDma.next (s : RxDma) : RxOp → RxDma
  | .finish half data => s.finish half data
  | .pulse sr error space => s.rxPulseHdlr sr error space
  | .rtsControl ihflow rts => s.rtsControl ihflow rts
  | .serStty cread => s.serStty cread

/-- The SDMA finishes a running transfer, and the handler runs for a pulse. -/
def RxDma.Allowed (s : RxDma) : RxOp → Prop
  | .finish half data => s.transfer = some half ∧ data.length ≤ DMA_XFER_SIZE
  | .pulse .. => 0 < s.pulses
  | _ => True

def RxStep (s : RxDma) (op : RxOp) (t : RxDma) : Prop := s.Allowed op ∧ t = s.next op

end Mx6xBsp.Devc
