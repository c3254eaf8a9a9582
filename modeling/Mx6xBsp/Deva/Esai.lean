import Mathlib.Data.Int.Notation
import Mathlib.Data.List.Basic

/-!
# The streams of the ESAI controller

The calls of `mxesai_dll.c` that io-audio makes for a stream: acquire, trigger and
release, and what they leave in the context of the controller. Playback and capture
run from one clock, whose rate is set when a stream is acquired
(`mxesai_set_clock_rate`).
-/

namespace Mx6xBsp.Deva

def EOK : Nat := 0
def EAGAIN : Nat := 11
def EBUSY : Nat := 16
def ETIME : Nat := 62

def ESAI_CLK_SLAVE : Nat := 0
def ESAI_CLK_MASTER : Nat := 1

inductive Channel
  | playback
  | capture
  deriving DecidableEq

/-- The channel that is rate locked to this one -/
def Channel.other : Channel → Channel
  | .playback => .capture
  | .capture => .playback

/-- A stream of an interface: `active`, `pcm_subchn` (`none` for `NULL`), and of `pcm_config` the
rate of its format -/
structure Strm where
  active : Bool
  pcmSubchn : Option Nat
  pcmConfig : Option Int
  deriving DecidableEq

/-- The context of the controller: `clk_mode`, the rates, and `num_tx_aif` and `num_rx_aif`
interfaces, each with a stream for a channel. -/
structure Mx where
  clkMode : Nat
  sampleRateMin : Int
  sampleRateMax : Int
  sampleRate : Int
  numAif : Channel → Nat
  strm : Channel → Nat → Strm

namespace Mx

variable (mx : Mx)

def setStrm (chn : Channel) (i : Nat) (strm : Strm) : Mx :=
  { mx with strm := fun c j => if c = chn ∧ j = i then strm else mx.strm c j }

/-- `num_active_playback_interfaces` and `num_active_capture_interfaces` -/
def numActive (chn : Channel) : Nat :=
  (List.range (mx.numAif chn)).countP fun i => (mx.strm chn i).active

/-- `mxesai_set_clock_rate`, less its registers -/
def setClockRate (rate : Int) : Mx := { mx with sampleRate := rate }

/-- On-the-fly sample rate switching is supported. -/
def switches : Bool :=
  mx.clkMode &&& ESAI_CLK_MASTER != 0 && mx.sampleRateMin != mx.sampleRateMax

/-- The rate lock of an acquisition -/
def lockRate (chn : Channel) (rate : Int) : Option Mx :=
  if mx.switches ∧ rate ≠ mx.sampleRate then
    if 0 < mx.numActive chn.other then none else some (mx.setClockRate rate)
  else some mx

/-- The end of an acquisition, with the error of `ado_pcm_buf_alloc` -/
def aquireBuf (chn : Channel) (i : Nat) (rate : Int) (subchn : Nat) : Option Nat → Nat × Mx
  | some errno => (errno, mx)
  | none => (EOK, mx.setStrm chn i
      { mx.strm chn i with pcmSubchn := some subchn, pcmConfig := some rate })

/-- `mxesai_playback_aquire` and `mxesai_capture_aquire`, where `isChannel` is
`ado_pcm_subchn_is_channel` for the interfaces and `buf` the error of `ado_pcm_buf_alloc` -/
def aquire (chn : Channel) (isChannel : Nat → Bool) (rate : Int) (subchn : Nat)
    (buf : Option Nat) : Nat × Mx :=
  match (List.range (mx.numAif chn)).find? isChannel with
  | none => (EAGAIN, mx)
  | some i =>
    if (mx.strm chn i).pcmSubchn.isSome then (EAGAIN, mx)
    else
      let mx := mx.setStrm chn i { mx.strm chn i with active := false }
      match mx.lockRate chn rate with
      | none => (EBUSY, mx)
      | some mx => mx.aquireBuf chn i rate subchn buf

/-- What the controller does on a trigger: the error of `xfer_start` or `xfer_abort`, and for
playback whether the FIFO is filled in time -/
structure Dma where
  error : Option Nat
  filled : Bool

/-- `mxesai_playback_trigger` and `mxesai_capture_trigger` with `ADO_PCM_TRIGGER_GO` -/
def triggerGo (chn : Channel) (i : Nat) (dma : Dma) : Nat × Mx :=
  let rtn :=
    if mx.numActive chn = 0 then
      if chn = .playback ∧ dma.filled = false then ETIME else dma.error.getD EOK
    else EOK
  (rtn, mx.setStrm chn i { mx.strm chn i with active := true })

/-- `mxesai_playback_trigger` and `mxesai_capture_trigger` with `ADO_PCM_TRIGGER_STOP` -/
def triggerStop (chn : Channel) (i : Nat) (dma : Dma) : Nat × Mx :=
  let rtn := if mx.numActive chn = 1 then dma.error.getD EOK else EOK
  (rtn, mx.setStrm chn i { mx.strm chn i with active := false })

/-- `mxesai_playback_release` and `mxesai_capture_release` -/
def release (chn : Channel) (i : Nat) : Nat × Mx :=
  (EOK, mx.setStrm chn i { mx.strm chn i with pcmSubchn := none, pcmConfig := none })

/-- The rates of `mxesai_capabilities`, from those the interface has: none for a stream that is in
use, and only the rate of the controller if the other channel is active. -/
def capabilities (chn : Channel) (isChannel : Nat → Bool) (rates : Int × Int) : Int × Int :=
  if (List.range (mx.numAif chn)).any fun i => isChannel i && (mx.strm chn i).pcmSubchn.isSome then
    (0, 0)
  else if mx.clkMode = ESAI_CLK_MASTER ∧ mx.sampleRateMin ≠ mx.sampleRateMax ∧
      mx.numActive chn.other ≠ 0 then (mx.sampleRate, mx.sampleRate)
  else rates

end Mx

/-- The calls of io-audio -/
inductive Op
  | aquire (chn : Channel) (isChannel : Nat → Bool) (rate : Int) (subchn : Nat) (buf : Option Nat)
  | go (chn : Channel) (i : Nat) (dma : Mx.Dma)
  | stop (chn : Channel) (i : Nat) (dma : Mx.Dma)
  | release (chn : Channel) (i : Nat)

def Mx.exec (mx : Mx) : Op → Nat × Mx
  | .aquire chn isChannel rate subchn buf => mx.aquire chn isChannel rate subchn buf
  | .go chn i dma => mx.triggerGo chn i dma
  | .stop chn i dma => mx.triggerStop chn i dma
  | .release chn i => mx.release chn i

def Mx.next (mx : Mx) (op : Op) : Mx := (mx.exec op).2

end Mx6xBsp.Deva
