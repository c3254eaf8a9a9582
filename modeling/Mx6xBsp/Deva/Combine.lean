import Mathlib.Algebra.Group.Int.Defs
import Mathlib.Algebra.Group.Nat.Defs
import Mathlib.Algebra.GroupWithZero.Nat
import Mathlib.Data.Int.Notation
import Mathlib.Data.List.Basic
import Mathlib.Logic.Function.Basic

/-!
# Playback over several interfaces

`mxesai_dmaplayback_combine` of `mxesai_dll.c` puts the streams of all interfaces into one
half of the ping-pong buffer, and with more than one output pin
`mxesai_playback_reconstitute` then interleaves each frame by the map of
`set_reconstitute_map`. Buffers are read and written in words of 16 bits; `dma i` is the
word `i` from `dstDMAAddr` on.
-/

namespace Mx6xBsp.Deva.Playback

def SAMPLE_SIZE : Nat := 2

abbrev Word := BitVec 16

abbrev Dma := Nat → Word

/-- `play_strm` of an interface, with the words of its `dmabuf`, the size of it and the result of
`ado_pcm_dma_int_size` -/
structure Strm where
  voices : Nat
  active : Bool
  pcmOffset : Nat
  addr : Nat → Word
  size : Nat
  intSize : Nat
  pcmSubchn : Nat

/-- What the calls use of the context of the controller -/
structure Mx where
  nslots : Nat
  numSdoPins : Nat
  sdoChmap : Nat → Nat

/-- What the loops have written, and the calls of `dma_interrupt` -/
structure Out where
  dma : Dma
  sampleOffset : Nat
  interrupts : List Nat

/-- The loop that writes `count` words from `sampleOffset` on -/
def copy (dma : Dma) (sampleOffset count : Nat) (buf : Nat → Word) : Dma :=
  (List.range count).foldl
    (fun dma voice => Function.update dma (sampleOffset + voice) (buf voice)) dma

/-- The turn of one interface in a frame -/
def Strm.combine (strm : Strm) (calldmainterrupt : Bool) (out : Out) : Strm × Out :=
  if strm.active then
    let offset := if strm.pcmOffset * SAMPLE_SIZE ≥ strm.size then 0 else strm.pcmOffset
    let pcmOffset := offset + strm.voices
    ({ strm with pcmOffset },
      { dma := copy out.dma out.sampleOffset strm.voices fun voice => strm.addr (offset + voice)
        sampleOffset := out.sampleOffset + strm.voices
        interrupts := out.interrupts ++
          if (pcmOffset * SAMPLE_SIZE) % strm.intSize = 0 ∧ calldmainterrupt then
            [strm.pcmSubchn]
          else [] })
  else
    (strm,
      { out with
        dma := copy out.dma out.sampleOffset strm.voices fun _ => 0
        sampleOffset := out.sampleOffset + strm.voices })

def combineAif (calldmainterrupt : Bool) : List Strm → Out → List Strm × Out
  | [], out => ([], out)
  | strm :: aif, out =>
    let (strm, out) := strm.combine calldmainterrupt out
    let (aif, out) := combineAif calldmainterrupt aif out
    (strm :: aif, out)

def slotCnt (aif : List Strm) : Nat := (aif.map Strm.voices).sum

/-- The padding up to `nslots` -/
def Mx.pad (mx : Mx) (slotCnt : Nat) (out : Out) : Out :=
  { out with
    dma := copy out.dma out.sampleOffset (mx.nslots - slotCnt) fun _ => 0
    sampleOffset := out.sampleOffset + (mx.nslots - slotCnt) }

/-- The `while` loop. Nothing comes back where it would go on for more than `fuel` turns. -/
def Mx.combineLoop (mx : Mx) (size : Nat) (calldmainterrupt : Bool) :
    Nat → List Strm → Out → Option (List Strm × Out)
  | 0, _, _ => none
  | fuel + 1, aif, out =>
    if out.sampleOffset * SAMPLE_SIZE < size then
      let (aif, out) := combineAif calldmainterrupt aif out
      mx.combineLoop size calldmainterrupt fuel aif (mx.pad (slotCnt aif) out)
    else some (aif, out)

/-- The value of an `int16_t` -/
def int16 (n : Int) : Int := n.bmod 65536

/-- The loop over `cnt`, an `int16_t`: one frame goes through the map into the buffer. Nothing
comes back where it reads before the map. -/
def gather (ptr : Dma) (chmap : Nat → Nat) (frameSize i : Nat) : Nat → Int → Dma → Option Dma
  | 0, _, _ => none
  | fuel + 1, cnt, buffer =>
    if cnt < frameSize then
      if cnt < 0 then none
      else gather ptr chmap frameSize i fuel (int16 (cnt + 1))
        (Function.update buffer cnt.toNat (ptr (i + chmap cnt.toNat)))
    else some buffer

/-- `memcpy` of a frame from the buffer to the word `i` -/
def memcpy (ptr : Dma) (i : Nat) (buffer : Dma) (frameSize : Nat) : Dma :=
  fun x => if i ≤ x ∧ x < i + frameSize then buffer (x - i) else ptr x

/-- The loop over `i`, an `int16_t` that is compared as a number of 32 bits without a sign -/
def Mx.reconstituteLoop (mx : Mx) (size : Nat) : Nat → Int → Dma → Option Dma
  | 0, _, _ => none
  | fuel + 1, i, ptr =>
    if i % 2 ^ 32 < size / SAMPLE_SIZE then do
      let frameSize := mx.nslots * mx.numSdoPins
      let buffer ← gather ptr mx.sdoChmap frameSize i.toNat (2 ^ 16) 0 fun _ => 0
      mx.reconstituteLoop size fuel (int16 (i + frameSize)) (memcpy ptr i.toNat buffer frameSize)
    else some ptr

/-- `mxesai_playback_reconstitute` -/
def Mx.reconstitute (mx : Mx) (ptr : Dma) (size : Nat) : Option Dma :=
  mx.reconstituteLoop size (size + 1) 0 ptr

/-- What a call leaves: the streams, the buffer and the calls of `dma_interrupt` -/
structure Combined where
  aif : List Strm
  dma : Dma
  interrupts : List Nat

/-- `mxesai_dmaplayback_combine` -/
def Mx.dmaplaybackCombine (mx : Mx) (aif : List Strm) (dma : Dma) (size : Nat)
    (calldmainterrupt : Bool) : Option Combined :=
  if size = 0 then some ⟨aif, dma, []⟩
  else do
    let (aif, out) ← mx.combineLoop size calldmainterrupt (size + 1) aif ⟨dma, 0, []⟩
    let dma ← if 1 < mx.numSdoPins then mx.reconstitute out.dma size else some out.dma
    some ⟨aif, dma, out.interrupts⟩

/-- The default map of `set_reconstitute_map` for playback: the array from `calloc`, and
`frame_offset` which counts through the pins and their slots -/
def setReconstituteMap (nslots pins : Nat) : (Nat → Nat) × Nat :=
  (List.range pins).foldl
    (fun state pin =>
      (List.range nslots).foldl
        (fun (map, frameOffset) slot =>
          (Function.update map (slot * pins + pin) frameOffset, frameOffset + 1)) state)
    (fun _ => 0, 0)

end Mx6xBsp.Deva.Playback
