import Mx6xBsp.Deva.Multiplex

/-!
# Capture over several interfaces

The controller fills the two halves of `capture_dmabuf` in turn. With more than one
interface `mxesai_cap_pulse_hdlr` calls `mxesai_dmacapture_split` for the half that is
complete, which takes the words of each stream out of the frames by the map of
`set_reconstitute_map`. Buffers are read and written in words of 16 bits.
-/

namespace Mx6xBsp.Deva.Capture

open Blocks Playback

/-! ## The map -/

/-- The default map of `set_reconstitute_map` for capture: the array from `calloc`, and
`frame_offset` -/
def defaultMap (nslots pins : Nat) : (Nat → Int) × Nat :=
  (List.range pins).foldl
    (fun state pin =>
      (List.range nslots).foldl
        (fun (map, frameOffset) slot =>
          (Function.update map frameOffset ((slot * pins + pin : Nat) : Int), frameOffset + 1))
        state)
    (fun _ => 0, 0)

/-- The loop over the values of an option. Nothing comes back where one is too large. -/
def userMap (frameSize : Nat) : Nat → List Int → (Nat → Int) → Option (Nat → Int)
  | _, [], map => some map
  | idx, value :: values, map =>
    if frameSize ≤ idx then some map
    else if frameSize ≤ value then none
    else userMap frameSize (idx + 1) values (Function.update map idx value)

/-- `set_reconstitute_map` for capture, with the values that `strtoul` makes of the option -/
def setReconstituteMap (nslots pins : Nat) : Option (List Int) → Option (Nat → Int)
  | none => some (defaultMap nslots pins).1
  | some values => userMap (nslots * pins) 0 values fun _ => 0

/-! ## The split -/

/-- What the calls use of the context of the controller. The map is `NULL` where none was set. -/
structure Mx where
  nslots : Nat
  numSdiPins : Nat
  sdiChmap : Option (Nat → Int)

/-- The word at `sample_offset + sdi_chmap[channel]`. Nothing comes back where that is a read
outside of the map or of the half. -/
def Mx.word (mx : Mx) (dmaptr : Nat → Word) (size : Nat) (sampleOffset : Int) (channel : Nat) :
    Option Word := do
  let sdiChmap ← mx.sdiChmap
  if channel < mx.nslots * mx.numSdiPins then
    let i := sampleOffset + sdiChmap channel
    if 0 ≤ i ∧ i < (size / SAMPLE_SIZE : Nat) then some (dmaptr i.toNat) else none
  else none

/-- The loop over the voices of a stream -/
def Mx.fill (mx : Mx) (dmaptr : Nat → Word) (size : Nat) (sampleOffset : Int)
    (frameOffset offset : Nat) : Nat → (Nat → Word) → Option (Nat → Word)
  | 0, buf => some buf
  | voice + 1, buf => do
    let buf ← mx.fill dmaptr size sampleOffset frameOffset offset voice buf
    let word ← mx.word dmaptr size sampleOffset (frameOffset + voice)
    some (Function.update buf (offset + voice) word)

/-- The turn of one interface in a frame, with the calls of `dma_interrupt` -/
def Mx.splitStrm (mx : Mx) (dmaptr : Nat → Word) (size : Nat) (sampleOffset : Int)
    (frameOffset : Nat) (strm : Playback.Strm) : Option (Playback.Strm × List Nat) :=
  if strm.active then do
    let offset := if strm.pcmOffset * SAMPLE_SIZE ≥ strm.size then 0 else strm.pcmOffset
    let addr ← mx.fill dmaptr size sampleOffset frameOffset offset strm.voices strm.addr
    let pcmOffset := offset + strm.voices
    some ({ strm with addr, pcmOffset },
      if (pcmOffset * SAMPLE_SIZE) % strm.intSize = 0 then [strm.pcmSubchn] else [])
  else some (strm, [])

/-- The loop over the interfaces -/
def Mx.splitAif (mx : Mx) (dmaptr : Nat → Word) (size : Nat) (sampleOffset : Int) :
    Nat → List Playback.Strm → Option (List Playback.Strm × List Nat)
  | _, [] => some ([], [])
  | frameOffset, strm :: aif => do
    let (strm', calls) ← mx.splitStrm dmaptr size sampleOffset frameOffset strm
    let (aif, more) ← mx.splitAif dmaptr size sampleOffset (frameOffset + strm.voices) aif
    some (strm' :: aif, calls ++ more)

/-- The step of `sample_offset`, an `int16_t` -/
def Mx.frameSize (mx : Mx) : Int := int16 (mx.nslots * mx.numSdiPins : Nat)

/-- The `while` loop, whose test is on numbers of 32 bits without a sign. Nothing comes back where
it would go on for more than `fuel` turns. -/
def Mx.splitLoop (mx : Mx) (dmaptr : Nat → Word) (size : Nat) :
    Nat → Int → List Playback.Strm → List Nat → Option (List Playback.Strm × List Nat)
  | 0, _, _, _ => none
  | fuel + 1, sampleOffset, aif, interrupts =>
    if sampleOffset * SAMPLE_SIZE % 2 ^ 32 < size then do
      let (aif, calls) ← mx.splitAif dmaptr size sampleOffset 0 aif
      mx.splitLoop dmaptr size fuel (sampleOffset + mx.frameSize) aif (interrupts ++ calls)
    else some (aif, interrupts)

/-- `mxesai_dmacapture_split` -/
def Mx.dmacaptureSplit (mx : Mx) (dmaptr : Nat → Word) (size : Nat) (aif : List Playback.Strm)
    (interrupts : List Nat) : Option (List Playback.Strm × List Nat) :=
  if size = 0 then some (aif, interrupts)
  else mx.splitLoop dmaptr size (size + 1) 0 aif interrupts

/-! ## The streams and the controller -/

/-- A buffer of a client, made of whole frames and fragments -/
structure Buffer where
  frames : Nat
  fragment : Nat
  words : Nat → Word
  pcmSubchn : Nat
  frames_pos : 0 < frames
  fragment_pos : 0 < fragment

/-- The capture streams with `capture_frag_index` and `capture_dmabuf`, whose size is that of two
halves. `half` is the half that the controller fills next. -/
structure Sys where
  aif : List Playback.Strm
  captureFragIndex : Nat
  addr : Nat → Word
  half : Nat
  interrupts : List Nat

/-- What happens: the half is complete, or a call for a stream -/
inductive Event
  | complete (words : Nat → Word)
  | aquire (i : Nat) (buffer : Buffer)
  | prepare (i : Nat)
  | go (i : Nat)
  | stop (i : Nat)

/-- `mxesai_capture_aquire`, what it leaves in the stream -/
def aquire (buffer : Buffer) (strm : Playback.Strm) : Playback.Strm :=
  { strm with
    active := false
    addr := buffer.words
    size := SAMPLE_SIZE * (buffer.frames * strm.voices)
    intSize := SAMPLE_SIZE * (buffer.fragment * strm.voices)
    pcmSubchn := buffer.pcmSubchn }

/-- `mxesai_prepare` -/
def prepare (strm : Playback.Strm) : Playback.Strm := { strm with pcmOffset := 0 }

namespace Sys

variable (sys : Sys)

/-- `num_active_capture_interfaces` -/
def numActive : Nat := sys.aif.countP Playback.Strm.active

/-- `mxesai_capture_trigger`, less its registers. The transfer that it starts begins with the
first half. -/
def captureTrigger (i : Nat) (go : Bool) : Sys :=
  let sys := if go ∧ sys.numActive = 0 then { sys with captureFragIndex := 0, half := 0 } else sys
  { sys with aif := sys.aif.modify i fun strm => { strm with active := go } }

/-- The controller has written `words` to its half, of `size` bytes. -/
def transfer (size : Nat) (words : Nat → Word) : Sys :=
  { sys with
    addr := fun x =>
      if sys.half * (size / SAMPLE_SIZE) ≤ x ∧ x < (sys.half + 1) * (size / SAMPLE_SIZE) then
        words (x - sys.half * (size / SAMPLE_SIZE))
      else sys.addr x
    half := (sys.half + 1) % 2 }

/-- `mxesai_cap_pulse_hdlr`, where there is more than one interface -/
def capPulseHdlr (mx : Mx) (size : Nat) : Option Sys := do
  let index := if sys.captureFragIndex ≥ 2 then 0 else sys.captureFragIndex
  let (aif, interrupts) ← mx.dmacaptureSplit
    (fun x => sys.addr (index * (size / SAMPLE_SIZE) + x)) size sys.aif sys.interrupts
  some { sys with aif, interrupts, captureFragIndex := index + 1 }

def step (mx : Mx) (size : Nat) : Event → Option Sys
  | .complete words => (sys.transfer size words).capPulseHdlr mx size
  | .aquire i buffer => some { sys with aif := sys.aif.modify i fun s => prepare (aquire buffer s) }
  | .prepare i => some { sys with aif := sys.aif.modify i prepare }
  | .go i => some (sys.captureTrigger i true)
  | .stop i => some (sys.captureTrigger i false)

def run (mx : Mx) (size : Nat) (sys : Sys) (events : List Event) : Option Sys :=
  events.foldlM (fun sys event => sys.step mx size event) sys

end Sys

end Mx6xBsp.Deva.Capture
