import Mathlib.Tactic.Ring
import Mx6xBsp.Deva.Interleave
import Mx6xBsp.Lib.Blocks

/-!
# Multiplexing of playback streams

A `Stream` is played frame by frame from a buffer of whole frames. `Right` says of a
card that one half of its ping-pong buffer gets the next samples of all streams, each in
its slot. `right_iff` tells for which cards the driver does that.
-/

namespace Mx6xBsp.Deva.Playback

open Blocks

/-! ## Streams -/

/-- A stream of an interface: its buffer has `frames` frames of a sample for each voice, its
fragments `fragment`. `position` is the frame after the last one that was played. -/
structure Stream where
  voices : Nat
  frames : Nat
  fragment : Nat
  position : Nat
  active : Bool
  words : Nat → Word
  pcmSubchn : Nat
  voices_pos : 0 < voices
  frames_pos : 0 < frames
  fragment_pos : 0 < fragment
  position_le : position ≤ frames

namespace Stream

variable (s : Stream) (k : Nat)

/-- The driver's structure of a stream -/
def strm : Strm where
  voices := s.voices
  active := s.active
  pcmOffset := s.position * s.voices
  addr := s.words
  size := SAMPLE_SIZE * (s.frames * s.voices)
  intSize := SAMPLE_SIZE * (s.fragment * s.voices)
  pcmSubchn := s.pcmSubchn

/-- The frame of the buffer that is next after `k` others -/
def at_ : Nat := (s.position + k) % s.frames

/-- The samples of that frame, silence if the stream is not active -/
def row : List Word :=
  (List.range s.voices).map fun voice =>
    if s.active then s.words (s.at_ k * s.voices + voice) else 0

/-- That frame is the last one of a fragment. -/
def Completes : Prop := s.active = true ∧ (s.at_ k + 1) % s.fragment = 0

instance : Decidable (s.Completes k) := inferInstanceAs (Decidable (_ ∧ _))

/-- A position after `k` frames -/
def advance (position frames : Nat) : Nat → Nat
  | 0 => position
  | k + 1 => (position + k) % frames + 1

theorem advance_le {position frames : Nat} (pos : 0 < frames) (le : position ≤ frames) :
    advance position frames k ≤ frames := by
  cases k with
  | zero => exact le
  | succ k => exact Nat.mod_lt _ pos

/-- The stream after `k` frames have been played -/
def after : Stream :=
  { s with
    position := if s.active then advance s.position s.frames k else s.position
    position_le := by
      split
      · exact advance_le k s.frames_pos s.position_le
      · exact s.position_le }

end Stream

/-! ## Cards -/

/-- A configuration: slots, pins, the voices of the interfaces, and the number of frames in one half
of the buffer, whose size is the half of a number of 32 bits. -/
structure Card where
  nslots : Nat
  pins : Nat
  voices : List Nat
  frames : Nat
  nslots_pos : 0 < nslots
  pins_pos : 0 < pins
  voices_some : voices ≠ []
  voices_pos : ∀ v ∈ voices, 0 < v
  voices_fit : voices.sum ≤ nslots * pins
  fits : SAMPLE_SIZE * (frames * (nslots * pins)) < 2 ^ 31

namespace Card

variable (card : Card)

def frameSize : Nat := card.nslots * card.pins

/-- The size of one half of the buffer, in bytes -/
def size : Nat := SAMPLE_SIZE * (card.frames * card.frameSize)

def mx : Mx where
  nslots := card.nslots
  numSdoPins := card.pins
  sdoChmap := (setReconstituteMap card.nslots card.pins).1

end Card

/-- The sample of the channel `c` in the frame `k`: the channels of the streams follow each other,
and there is silence in those that are left. -/
def channel (streams : List Stream) (k c : Nat) : Word :=
  ((streams.flatMap (·.row k))[c]?).getD 0

/-- The streams that complete a fragment with the frame `k` -/
def fired (streams : List Stream) (k : Nat) : List Nat :=
  streams.flatMap fun s => if s.Completes k then [s.pcmSubchn] else []

/-- What a call should leave: the channel of each pin and slot in the word of the two, nothing else
written, the streams moved on, and a call of `dma_interrupt` for each fragment that is complete. -/
structure Multiplexed (card : Card) (streams : List Stream) (dma : Dma) (calldmainterrupt : Bool)
    (left : Combined) : Prop where
  words : ∀ k < card.frames, ∀ slot < card.nslots, ∀ pin < card.pins,
    left.dma (k * card.frameSize + (slot * card.pins + pin)) =
      channel streams k (pin * card.nslots + slot)
  beyond : ∀ i, card.frames * card.frameSize ≤ i → left.dma i = dma i
  aif : left.aif = streams.map fun s => (s.after card.frames).strm
  interrupts : left.interrupts =
    if calldmainterrupt then (List.range card.frames).flatMap (fired streams) else []

/-- The driver multiplexes whatever streams are played. -/
def Card.Right (card : Card) : Prop :=
  ∀ streams : List Stream, streams.map Stream.voices = card.voices → ∀ dma calldmainterrupt,
    ∃ left, card.mx.dmaplaybackCombine (streams.map Stream.strm) dma card.size calldmainterrupt =
      some left ∧ Multiplexed card streams dma calldmainterrupt left

/-! ## One frame -/

theorem copy_eq_write (dma : Dma) (sampleOffset count : Nat) (buf : Nat → Word) :
    copy dma sampleOffset count buf = write dma sampleOffset ((List.range count).map buf) :=
  foldl_update_eq_write buf count

namespace Stream

variable {s : Stream} {k : Nat}

theorem row_length (s : Stream) (k : Nat) : (s.row k).length = s.voices := by
  unfold row
  rw [List.length_map, List.length_range]

theorem advance_wraps (s : Stream) (k : Nat) :
    (if advance s.position s.frames k * s.voices * SAMPLE_SIZE ≥
        SAMPLE_SIZE * (s.frames * s.voices) then 0 else advance s.position s.frames k * s.voices) =
      s.at_ k * s.voices := by
  have size : advance s.position s.frames k * s.voices * SAMPLE_SIZE ≥
      SAMPLE_SIZE * (s.frames * s.voices) ↔ s.frames ≤ advance s.position s.frames k := by
    unfold SAMPLE_SIZE
    rw [Nat.mul_comm _ 2]
    exact ⟨fun h => Nat.le_of_mul_le_mul_right (Nat.le_of_mul_le_mul_left h (by decide))
      s.voices_pos, fun h => Nat.mul_le_mul_left 2 (Nat.mul_le_mul_right _ h)⟩
  have next : s.at_ k = advance s.position s.frames k % s.frames := by
    cases k with
    | zero => rfl
    | succ k =>
      show (s.position + (k + 1)) % s.frames = ((s.position + k) % s.frames + 1) % s.frames
      rw [Nat.mod_add_mod, Nat.add_assoc]
  by_cases full : s.frames ≤ advance s.position s.frames k
  · have all : advance s.position s.frames k = s.frames :=
      Nat.le_antisymm (advance_le k s.frames_pos s.position_le) full
    rw [if_pos (size.mpr full), next, all, Nat.mod_self, Nat.zero_mul]
  · rw [if_neg fun h => full (size.mp h), next, Nat.mod_eq_of_lt (Nat.not_le.mp full)]

theorem completes_iff (active : s.active = true) :
    (s.at_ k * s.voices + s.voices) * SAMPLE_SIZE % (SAMPLE_SIZE * (s.fragment * s.voices)) = 0 ↔
      s.Completes k := by
  unfold Completes SAMPLE_SIZE
  rw [← Nat.succ_mul, Nat.mul_comm _ 2, Nat.mul_mod_mul_left, Nat.mul_mod_mul_right]
  have voices := Nat.ne_of_gt s.voices_pos
  rw [Nat.mul_eq_zero, Nat.mul_eq_zero, or_iff_right (by decide), or_iff_left voices]
  exact (and_iff_right active).symm

/-- The turn of a stream in the frame `k` -/
theorem combine_after (call : Bool) (out : Out) :
    (s.after k).strm.combine call out =
      ((s.after (k + 1)).strm,
        { dma := write out.dma out.sampleOffset (s.row k)
          sampleOffset := out.sampleOffset + s.voices
          interrupts := out.interrupts ++
            if call then (if s.Completes k then [s.pcmSubchn] else []) else [] }) := by
  have wraps := s.advance_wraps k
  cases active : s.active with
  | true =>
    have row : s.row k = (List.range s.voices).map fun voice =>
        s.words (s.at_ k * s.voices + voice) := by
      simp only [row, active, if_true]
    have fires : ((s.at_ k * s.voices + s.voices) * SAMPLE_SIZE %
        (SAMPLE_SIZE * (s.fragment * s.voices)) = 0 ∧ call = true) ↔
        call = true ∧ s.Completes k := by
      rw [completes_iff active, and_comm]
    simp only [Strm.combine, strm, after, active, if_true, wraps, copy_eq_write, row]
    rw [if_congr fires rfl rfl, ite_and, ← Nat.succ_mul]
    rfl
  | false =>
    have row : s.row k = (List.range s.voices).map fun _ => 0 := by
      simp only [row, active, if_false, Bool.false_eq_true]
    have silent : ¬s.Completes k := fun completes =>
      Bool.false_ne_true (active.symm.trans completes.1)
    simp only [Strm.combine, strm, after, active, Bool.false_eq_true, if_false, copy_eq_write,
      row, silent, ite_self, List.append_nil]

end Stream

variable {streams : List Stream} {k : Nat} {call : Bool} {out : Out}

def voiceSum (streams : List Stream) : Nat := (streams.map Stream.voices).sum

/-- The turns of all streams in the frame `k` -/
theorem combineAif_after (streams : List Stream) (out : Out) :
    combineAif call (streams.map fun s => (s.after k).strm) out =
      (streams.map fun s => (s.after (k + 1)).strm,
        { dma := write out.dma out.sampleOffset (streams.flatMap (·.row k))
          sampleOffset := out.sampleOffset + voiceSum streams
          interrupts := out.interrupts ++ if call then fired streams k else [] }) := by
  induction streams generalizing out with
  | nil =>
    have quiet : (if call then fired [] k else []) = [] := ite_self _
    rw [quiet, List.append_nil]
    exact congrArg _ (congrArg (Out.mk · _ _) write_nil.symm)
  | cons s streams ih =>
    simp only [List.map_cons, combineAif, Stream.combine_after, ih]
    have length := Stream.row_length s k
    have sent : (if call then (if s.Completes k then [s.pcmSubchn] else []) else []) ++
        (if call then fired streams k else []) = if call then fired (s :: streams) k else [] := by
      cases call with
      | true => rfl
      | false => rfl
    rw [← length, write_append, List.append_assoc, sent, length, Nat.add_assoc]
    rfl

theorem flatMap_row_length (streams : List Stream) (k : Nat) :
    (streams.flatMap (·.row k)).length = voiceSum streams := by
  induction streams with
  | nil => rfl
  | cons s streams ih =>
    rw [List.flatMap_cons, List.length_append, ih, Stream.row_length]
    rfl

theorem slotCnt_after (streams : List Stream) (k : Nat) :
    slotCnt (streams.map fun s => (s.after k).strm) = voiceSum streams := by
  unfold slotCnt voiceSum
  rw [List.map_map]
  rfl

/-! ## The loop over the frames -/

/-- What one turn of the loop writes -/
def block (nslots : Nat) (streams : List Stream) (k : Nat) : List Word :=
  streams.flatMap (·.row k) ++ List.replicate (nslots - voiceSum streams) 0

theorem block_length (nslots : Nat) (streams : List Stream) (k : Nat) :
    (block nslots streams k).length = max (voiceSum streams) nslots := by
  unfold block
  rw [List.length_append, flatMap_row_length, List.length_replicate]
  omega

/-- The loop after `k` turns -/
def outAfter (nslots : Nat) (streams : List Stream) (dma : Dma) (call : Bool) (k : Nat) : Out where
  dma := write dma 0 ((List.range k).flatMap (block nslots streams))
  sampleOffset := k * max (voiceSum streams) nslots
  interrupts := if call then (List.range k).flatMap (fired streams) else []

theorem outAfter_succ (mx : Mx) (streams : List Stream) (dma : Dma) (call : Bool) (k : Nat) :
    mx.pad (voiceSum streams)
      { dma := write (outAfter mx.nslots streams dma call k).dma
          (outAfter mx.nslots streams dma call k).sampleOffset (streams.flatMap (·.row k))
        sampleOffset := (outAfter mx.nslots streams dma call k).sampleOffset + voiceSum streams
        interrupts := (outAfter mx.nslots streams dma call k).interrupts ++
          if call then fired streams k else [] } =
      outAfter mx.nslots streams dma call (k + 1) := by
  have before := length_flatMap_range (block_length mx.nslots streams) k
  have rows := flatMap_row_length streams k
  have zeros : (List.range (mx.nslots - voiceSum streams)).map (fun _ => (0 : Word)) =
      List.replicate (mx.nslots - voiceSum streams) 0 := by
    rw [List.map_const', List.length_range]
  have silence : copy (write (write dma 0 ((List.range k).flatMap (block mx.nslots streams)))
        (k * max (voiceSum streams) mx.nslots) (streams.flatMap (·.row k)))
        (k * max (voiceSum streams) mx.nslots + voiceSum streams)
        (mx.nslots - voiceSum streams) (fun _ => 0) =
      write dma 0 ((List.range (k + 1)).flatMap (block mx.nslots streams)) := by
    have first : write (write dma 0 ((List.range k).flatMap (block mx.nslots streams))) _
        (streams.flatMap (·.row k)) = _ := write_append
    rw [before, Nat.zero_add] at first
    have second : write (write dma 0 ((List.range k).flatMap (block mx.nslots streams) ++
        streams.flatMap (·.row k))) _ (List.replicate (mx.nslots - voiceSum streams) 0) = _ :=
      write_append
    rw [List.length_append, before, rows, Nat.zero_add] at second
    rw [copy_eq_write, zeros, first, second, List.range_succ, List.flatMap_append,
      List.flatMap_singleton, List.append_assoc]
    rfl
  have offset : k * max (voiceSum streams) mx.nslots + voiceSum streams +
      (mx.nslots - voiceSum streams) = (k + 1) * max (voiceSum streams) mx.nslots := by
    rw [Nat.succ_mul]
    omega
  have sent : ((if call then (List.range k).flatMap (fired streams) else []) ++
      if call then fired streams k else []) =
      if call then (List.range (k + 1)).flatMap (fired streams) else [] := by
    cases call with
    | true =>
      simp only [if_true, List.range_succ, List.flatMap_append, List.flatMap_singleton]
    | false => rfl
  unfold Mx.pad outAfter
  dsimp only
  rw [silence, offset, sent]

theorem combineLoop_eq (mx : Mx) (streams : List Stream) (dma : Dma) (call : Bool)
    {size rounds : Nat}
    (more : ∀ k < rounds, k * max (voiceSum streams) mx.nslots * SAMPLE_SIZE < size)
    (full : size ≤ rounds * max (voiceSum streams) mx.nslots * SAMPLE_SIZE) :
    ∀ {fuel k : Nat}, k ≤ rounds → rounds < fuel + k →
      mx.combineLoop size call fuel (streams.map fun s => (s.after k).strm)
        (outAfter mx.nslots streams dma call k) =
        some (streams.map fun s => (s.after rounds).strm,
          outAfter mx.nslots streams dma call rounds) := by
  intro fuel
  induction fuel with
  | zero =>
    intro k below enough
    omega
  | succ fuel ih =>
    intro k below enough
    unfold Mx.combineLoop
    rcases Nat.lt_or_eq_of_le below with inside | last
    · have goesOn : (outAfter mx.nslots streams dma call k).sampleOffset * SAMPLE_SIZE < size :=
        more k inside
      rw [if_pos goesOn]
      dsimp only
      rw [combineAif_after, slotCnt_after, outAfter_succ]
      exact ih inside (by omega)
    · have ends : ¬(outAfter mx.nslots streams dma call rounds).sampleOffset * SAMPLE_SIZE <
          size := Nat.not_lt.mpr full
      rw [last, if_neg ends]

/-! ## The words of the buffer -/

theorem block_get {nslots c : Nat} (inside : c < max (voiceSum streams) nslots) :
    (block nslots streams k)[c]? = some (channel streams k c) := by
  have rows := flatMap_row_length streams k
  unfold block channel
  by_cases voiced : c < voiceSum streams
  · have below : c < (streams.flatMap (·.row k)).length := by omega
    rw [List.getElem?_append_left below, List.getElem?_eq_getElem below]
    rfl
  · rw [List.getElem?_append_right (by omega), List.getElem?_replicate, if_pos (by omega),
      List.getElem?_eq_none (by omega)]
    rfl

variable {nslots rounds : Nat} {dma : Dma}

theorem outAfter_word {c : Nat} (turn : k < rounds) (inside : c < max (voiceSum streams) nslots) :
    (outAfter nslots streams dma call rounds).dma (k * max (voiceSum streams) nslots + c) =
      channel streams k c := by
  have get := getElem?_flatMap_range (block_length nslots streams) turn inside
  have word := write_get (m := dma) (i := 0) (get.trans (block_get inside))
  rw [Nat.zero_add] at word
  exact word

theorem outAfter_beyond {x : Nat} (beyond : rounds * max (voiceSum streams) nslots ≤ x) :
    (outAfter nslots streams dma call rounds).dma x = dma x := by
  have length := length_flatMap_range (block_length nslots streams) rounds
  exact write_beyond (i := 0) (by omega)

theorem outAfter_zero (nslots : Nat) (streams : List Stream) (dma : Dma) (call : Bool) :
    outAfter nslots streams dma call 0 = ⟨dma, 0, []⟩ := by
  unfold outAfter
  rw [Nat.zero_mul]
  exact congrArg₂ (Out.mk · 0 ·) write_nil (ite_self _)

theorem strm_after_zero (streams : List Stream) :
    (streams.map fun s => (s.after 0).strm) = streams.map Stream.strm := by
  refine List.map_congr_left fun s _ => ?_
  unfold Stream.strm Stream.after
  dsimp only [Stream.advance]
  rw [ite_self]

theorem Card.combine_eq (card : Card) (some_ : 0 < card.frames) (streams : List Stream)
    (dma : Dma) (call : Bool)
    (more : ∀ k < rounds,
      k * max (voiceSum streams) card.nslots < card.frames * card.frameSize)
    (full : card.frames * card.frameSize ≤ rounds * max (voiceSum streams) card.nslots) :
    card.mx.dmaplaybackCombine (streams.map Stream.strm) dma card.size call =
      (if 1 < card.pins then
        card.mx.reconstitute (outAfter card.nslots streams dma call rounds).dma card.size
      else some (outAfter card.nslots streams dma call rounds).dma).map fun left =>
        ⟨streams.map fun s => (s.after rounds).strm, left,
          (outAfter card.nslots streams dma call rounds).interrupts⟩ := by
  have slots : 0 < card.frameSize := Nat.mul_pos card.nslots_pos card.pins_pos
  have words : 0 < card.frames * card.frameSize := Nat.mul_pos some_ slots
  have size : card.size = SAMPLE_SIZE * (card.frames * card.frameSize) := rfl
  have turns : rounds ≤ card.frames * card.frameSize := by
    rcases rounds with _ | k
    · exact Nat.zero_le _
    · have last := more k (Nat.lt_succ_self k)
      have room : k * 1 ≤ k * max (voiceSum streams) card.nslots :=
        Nat.mul_le_mul_left k (Nat.le_trans card.nslots_pos (Nat.le_max_right _ _))
      omega
  have goes : ∀ k < rounds,
      k * max (voiceSum streams) card.mx.nslots * SAMPLE_SIZE < card.size := by
    intro k below
    have below' := more k below
    rw [size]
    unfold SAMPLE_SIZE
    show k * max (voiceSum streams) card.nslots * 2 < _
    omega
  have ends : card.size ≤ rounds * max (voiceSum streams) card.mx.nslots * SAMPLE_SIZE := by
    rw [size]
    unfold SAMPLE_SIZE
    show _ ≤ rounds * max (voiceSum streams) card.nslots * 2
    omega
  have enough : rounds < card.size + 1 + 0 := by
    rw [size]
    unfold SAMPLE_SIZE
    omega
  have loop := combineLoop_eq card.mx streams dma call goes ends (Nat.zero_le _) enough
  rw [strm_after_zero, outAfter_zero] at loop
  unfold Mx.dmaplaybackCombine
  rw [if_neg (by rw [size]; unfold SAMPLE_SIZE; omega), loop]
  have pins : card.mx.numSdoPins = card.pins := rfl
  simp only [Option.bind_eq_bind, Option.bind_some, pins]
  split
  · exact Option.map_eq_bind.symm
  · rfl

/-! ## Cards that multiplex -/

section Cards

variable {card : Card}

theorem Card.voiceSum_eq (same : streams.map Stream.voices = card.voices) :
    voiceSum streams = card.voices.sum :=
  congrArg List.sum same

theorem Card.map_eq {slot pin : Nat} (slotLt : slot < card.nslots) (pinLt : pin < card.pins) :
    card.mx.sdoChmap (slot * card.pins + pin) = pin * card.nslots + slot :=
  setReconstituteMap_eq slotLt pinLt

theorem Card.channel_lt {slot pin : Nat} (slotLt : slot < card.nslots) (pinLt : pin < card.pins) :
    pin * card.nslots + slot < card.frameSize := by
  have room : (pin + 1) * card.nslots ≤ card.pins * card.nslots :=
    Nat.mul_le_mul_right _ pinLt
  rw [Nat.succ_mul, Nat.mul_comm card.pins] at room
  unfold Card.frameSize
  omega

theorem Card.slot_lt {slot pin : Nat} (slotLt : slot < card.nslots) (pinLt : pin < card.pins) :
    slot * card.pins + pin < card.frameSize := by
  have room : (slot + 1) * card.pins ≤ card.nslots * card.pins :=
    Nat.mul_le_mul_right _ slotLt
  rw [Nat.succ_mul] at room
  unfold Card.frameSize
  omega

theorem Card.words_lt (card : Card) : card.frames * (card.nslots * card.pins) < 2 ^ 30 := by
  have fits := card.fits
  unfold SAMPLE_SIZE at fits
  omega

theorem Card.frameSize_pos (card : Card) : 0 < card.frameSize :=
  Nat.mul_pos card.nslots_pos card.pins_pos

theorem interleaved_word {chmap : Nat → Nat} {frameSize count k j : Nat} {ptr : Dma}
    (inFrame : j < frameSize) :
    interleaved chmap frameSize count ptr (k * frameSize + j) =
      if k < count then ptr (k * frameSize + chmap j) else ptr (k * frameSize + j) := by
  have pos : 0 < frameSize := Nat.zero_lt_of_lt inFrame
  have part : (k * frameSize + j) / frameSize = k := by
    rw [Nat.mul_comm, Nat.mul_add_div pos, Nat.div_eq_of_lt inFrame, Nat.add_zero]
  have rest : (k * frameSize + j) % frameSize = j := by
    rw [Nat.mul_comm, Nat.mul_add_mod, Nat.mod_eq_of_lt inFrame]
  unfold interleaved
  rw [part, rest]
  refine if_congr ⟨fun below => ?_, fun turn => ?_⟩ rfl rfl
  · by_contra not
    have room := Nat.mul_le_mul_right frameSize (Nat.not_lt.mp not)
    omega
  · have room := Nat.mul_le_mul_right frameSize (Nat.succ_le_of_lt turn)
    rw [Nat.succ_mul] at room
    omega

theorem reached_pos {frames frameSize : Nat} (some_ : 0 < frames) : 0 < reached frames frameSize :=
  Nat.lt_min.mpr ⟨some_, Nat.succ_pos _⟩

theorem reached_eq_iff {frames frameSize : Nat} (pos : 0 < frameSize) :
    reached frames frameSize = frames ↔ (frames - 1) * frameSize ≤ 32767 := by
  unfold reached
  rw [← Nat.le_div_iff_mul_le pos]
  generalize 32767 / frameSize = last
  omega

/-- A card whose streams fill the frame, and whose frames the index of the interleaving reaches -/
theorem Card.right_of_fills (some_ : 0 < card.frames)
    (fills : max card.voices.sum card.nslots = card.frameSize)
    (reaches : card.pins = 1 ∨ card.frameSize ≤ 32767 ∧
      (card.nslots = 1 ∨ (card.frames - 1) * card.frameSize ≤ 32767)) : card.Right := by
  intro streams same dma call
  have len : max (voiceSum streams) card.nslots = card.frameSize := by
    rw [Card.voiceSum_eq same, fills]
  have pos := card.frameSize_pos
  have goes : ∀ k < card.frames,
      k * max (voiceSum streams) card.nslots < card.frames * card.frameSize := by
    intro k below
    rw [len]
    exact Nat.mul_lt_mul_of_pos_right below pos
  have combined := card.combine_eq some_ streams dma call goes (by rw [len])
  have word : ∀ k < card.frames, ∀ c < card.frameSize,
      (outAfter card.nslots streams dma call card.frames).dma (k * card.frameSize + c) =
        channel streams k c := by
    intro k turn c inFrame
    have word : (outAfter card.nslots streams dma call card.frames).dma
        (k * max (voiceSum streams) card.nslots + c) = _ :=
      outAfter_word turn (len.symm ▸ inFrame)
    rw [len] at word
    exact word
  have beyond : ∀ x, card.frames * card.frameSize ≤ x →
      (outAfter card.nslots streams dma call card.frames).dma x = dma x :=
    fun x above => outAfter_beyond (by rw [len]; exact above)
  rcases Nat.lt_or_eq_of_le card.pins_pos with many | one
  · obtain ⟨small, starts⟩ := reaches.resolve_left (Nat.ne_of_gt many)
    have shuffled := @reconstitute_eq card.mx card.frames pos small card.words_lt
      (outAfter card.nslots streams dma call card.frames).dma
    rw [if_pos many] at combined
    refine ⟨_, combined.trans (congrArg _ shuffled), ?_, ?_, rfl, rfl⟩
    · intro k turn slot slotLt pin pinLt
      refine (interleaved_word (Card.slot_lt slotLt pinLt)).trans ?_
      by_cases reach : k < reached card.frames card.frameSize
      · have channelLt := Card.channel_lt slotLt pinLt
        exact (if_pos reach).trans
          ((congrArg _ (congrArg _ (Card.map_eq slotLt pinLt))).trans (word k turn _ channelLt))
      · have single : card.nslots = 1 := starts.resolve_right fun all =>
          reach (((reached_eq_iff pos).mpr all).symm ▸ turn)
        have same : slot * card.pins + pin = pin * card.nslots + slot := by
          rw [single] at slotLt ⊢
          rw [Nat.lt_one_iff.mp slotLt, Nat.zero_mul, Nat.mul_one, Nat.zero_add, Nat.add_zero]
        refine (if_neg reach).trans ?_
        rw [same]
        exact word k turn _ (Card.channel_lt slotLt pinLt)
    · intro x above
      have room := Nat.mul_le_mul_right card.frameSize
        (Nat.min_le_left card.frames (32767 / card.frameSize + 1))
      have past : ¬x < reached card.frames card.frameSize * card.frameSize := by
        unfold reached
        omega
      exact (if_neg past).trans (beyond x above)
  · rw [if_neg (by omega)] at combined
    refine ⟨_, combined, ?_, beyond, rfl, rfl⟩
    intro k turn slot slotLt pin pinLt
    have same : slot * card.pins + pin = pin * card.nslots + slot := by
      rw [← one] at pinLt ⊢
      rw [Nat.lt_one_iff.mp pinLt, Nat.zero_mul, Nat.mul_one, Nat.zero_add, Nat.add_zero]
    rw [same]
    exact word k turn _ (Card.channel_lt slotLt pinLt)

/-- A stream with one frame in its buffer, that is played again and again -/
def Stream.constant (voices : Nat) (pos : 0 < voices) (words : Nat → Word) : Stream where
  voices := voices
  frames := 1
  fragment := 1
  position := 0
  active := true
  words := words
  pcmSubchn := 0
  voices_pos := pos
  frames_pos := Nat.one_pos
  fragment_pos := Nat.one_pos
  position_le := Nat.zero_le 1

theorem Stream.constant_row (voices : Nat) (pos : 0 < voices) (words : Nat → Word) (k : Nat) :
    (Stream.constant voices pos words).row k = (List.range voices).map words := by
  unfold Stream.row Stream.at_
  refine List.map_congr_left fun voice _ => ?_
  show words ((0 + k) % 1 * voices + voice) = words voice
  rw [Nat.mod_one, Nat.zero_mul, Nat.zero_add]

theorem constant_streams (words : Nat → Word) {voices : List Nat} (pos : ∀ v ∈ voices, 0 < v)
    (base : Nat) :
    ∃ streams : List Stream, streams.map Stream.voices = voices ∧
      ∀ k, streams.flatMap (·.row k) =
        (List.range voices.sum).map fun c => words (base + c) := by
  induction voices generalizing base with
  | nil => exact ⟨[], rfl, fun _ => rfl⟩
  | cons v voices ih =>
    obtain ⟨streams, same, rows⟩ :=
      ih (fun v' inside => pos v' (List.mem_cons_of_mem v inside)) (base + v)
    refine ⟨.constant v (pos v List.mem_cons_self) (fun c => words (base + c)) :: streams,
      congrArg (v :: ·) same, fun k => ?_⟩
    rw [List.flatMap_cons, Stream.constant_row, rows, List.sum_cons, List.range_add,
      List.map_append, List.map_map]
    refine congrArg _ (List.map_congr_left fun c _ => ?_)
    exact congrArg words (Nat.add_assoc base v c)

theorem constant_channel (words : Nat → Word) {total : Nat}
    (rows : ∀ k, streams.flatMap (·.row k) = (List.range total).map fun c => words (0 + c))
    (k c : Nat) : channel streams k c = if c < total then words c else 0 := by
  unfold channel
  rw [rows, List.getElem?_map]
  by_cases inside : c < total
  · rw [List.getElem?_range inside, if_pos inside]
    exact congrArg words (Nat.zero_add c)
  · rw [List.getElem?_eq_none (by rw [List.length_range]; omega), if_neg inside]
    rfl

theorem exists_rounds {len : Nat} (pos : 0 < len) (words : Nat) :
    ∃ rounds, (∀ k < rounds, k * len < words) ∧ words ≤ rounds * len := by
  refine ⟨(words + len - 1) / len, fun k below => ?_, ?_⟩
  · have le := (Nat.le_div_iff_mul_le pos).mp (Nat.succ_le_of_lt below)
    rw [Nat.succ_mul] at le
    omega
  · have lt := Nat.lt_mul_of_div_lt (Nat.lt_succ_self ((words + len - 1) / len)) pos
    rw [Nat.succ_mul] at lt
    omega

/-- Where a call comes back, the frames have their words by the map, as far as the index goes. -/
theorem Card.left_words {left : Combined} (some_ : 0 < card.frames)
    (more : ∀ k < rounds,
      k * max (voiceSum streams) card.nslots < card.frames * card.frameSize)
    (full : card.frames * card.frameSize ≤ rounds * max (voiceSum streams) card.nslots)
    (many : 1 < card.pins)
    (combined : card.mx.dmaplaybackCombine (streams.map Stream.strm) dma card.size call =
      some left) :
    card.frameSize ≤ 32767 ∧
      left.dma = interleaved card.mx.sdoChmap card.frameSize
        (reached card.frames card.frameSize)
        (outAfter card.nslots streams dma call rounds).dma := by
  rw [card.combine_eq some_ streams dma call more full, if_pos many] at combined
  obtain ⟨shuffled, found, rfl⟩ := Option.map_eq_some_iff.mp combined
  by_cases small : card.frameSize ≤ 32767
  · have shuffled' := @reconstitute_eq card.mx card.frames card.frameSize_pos small card.words_lt
      (outAfter card.nslots streams dma call rounds).dma
    exact ⟨small, Option.some.inj (found.symm.trans shuffled')⟩
  · have never := @reconstitute_none card.mx card.frames (Nat.not_le.mp small) some_ card.words_lt
      (outAfter card.nslots streams dma call rounds).dma
    cases found.symm.trans never

theorem Card.fills_of_one (one : card.pins = 1) :
    max card.voices.sum card.nslots = card.frameSize := by
  have fit := card.voices_fit
  rw [one, Nat.mul_one] at fit
  unfold Card.frameSize
  rw [one, Nat.mul_one]
  exact Nat.max_eq_right fit

/-- Where the streams do not fill the frame, the next turn of the loop writes into it. -/
theorem Card.fills_of_right (some_ : 0 < card.frames) (right : card.Right) :
    max card.voices.sum card.nslots = card.frameSize := by
  by_contra short
  have many : 1 < card.pins :=
    Nat.lt_of_le_of_ne card.pins_pos fun one => short (Card.fills_of_one one.symm)
  obtain ⟨streams, same, rows⟩ := constant_streams (fun _ => 1) card.voices_pos 0
  have sum := Card.voiceSum_eq same
  obtain ⟨left, combined, multiplexed⟩ := right streams same (fun _ => 0) false
  have len : 0 < max (voiceSum streams) card.nslots :=
    Nat.lt_of_lt_of_le card.nslots_pos (Nat.le_max_right _ _)
  obtain ⟨rounds, more, full⟩ := exists_rounds len (card.frames * card.frameSize)
  obtain ⟨-, words⟩ := Card.left_words some_ more full many combined
  generalize next : max (voiceSum streams) card.nslots = c at *
  have slots : card.nslots ≤ card.frameSize := Nat.le_mul_of_pos_right _ card.pins_pos
  have inFrame : c < card.frameSize := by
    have fit : card.voices.sum ≤ card.frameSize := card.voices_fit
    rw [← sum] at fit short
    omega
  -- the channel `c` is the first that the turn leaves for the next one
  have slotLt : c % card.nslots < card.nslots := Nat.mod_lt _ card.nslots_pos
  have pinLt : c / card.nslots < card.pins :=
    (Nat.div_lt_iff_lt_mul card.nslots_pos).mpr (by rw [Nat.mul_comm]; exact inFrame)
  have parts : c / card.nslots * card.nslots + c % card.nslots = c := Nat.div_add_mod' c _
  have silence := multiplexed.words 0 some_ _ slotLt _ pinLt
  rw [words, interleaved_word (Card.slot_lt slotLt pinLt),
    if_pos (reached_pos some_), Card.map_eq slotLt pinLt, parts,
    constant_channel (fun _ => 1) rows, if_neg (by omega), Nat.zero_mul, Nat.zero_add] at silence
  have turns : 1 < rounds := by
    by_contra few
    have room := Nat.mul_le_mul (Nat.not_lt.mp few) (Nat.le_refl c)
    have frame := Nat.le_mul_of_pos_left card.frameSize some_
    omega
  have voiced : 0 < voiceSum streams := by
    rw [sum]
    obtain ⟨v, inside⟩ := List.exists_mem_of_ne_nil _ card.voices_some
    exact List.sum_pos_iff_exists_pos_nat.mpr ⟨v, inside, card.voices_pos v inside⟩
  have sound : (outAfter card.nslots streams (fun _ => 0) false _).dma
      (1 * max (voiceSum streams) card.nslots + 0) = _ := outAfter_word turns (by omega)
  rw [next, Nat.one_mul, Nat.add_zero, constant_channel (fun _ => 1) rows,
    if_pos (sum ▸ voiced)] at sound
  exact absurd (sound.symm.trans silence) (by decide)

theorem Card.reaches_of_right (some_ : 0 < card.frames) (right : card.Right) :
    card.pins = 1 ∨ card.frameSize ≤ 32767 ∧
      (card.nslots = 1 ∨ (card.frames - 1) * card.frameSize ≤ 32767) := by
  by_contra not
  obtain ⟨several, not⟩ := not_or.mp not
  have many : 1 < card.pins := Nat.lt_of_le_of_ne card.pins_pos (Ne.symm several)
  have fills := Card.fills_of_right some_ right
  obtain ⟨streams, same, rows⟩ :=
    constant_streams (fun c => if c = 1 then 1 else 0) card.voices_pos 0
  have sum := Card.voiceSum_eq same
  have len : max (voiceSum streams) card.nslots = card.frameSize := by rw [sum, fills]
  obtain ⟨left, combined, multiplexed⟩ := right streams same (fun _ => 0) false
  have goes : ∀ k < card.frames,
      k * max (voiceSum streams) card.nslots < card.frames * card.frameSize := by
    intro k below
    rw [len]
    exact Nat.mul_lt_mul_of_pos_right below card.frameSize_pos
  obtain ⟨small, words⟩ := Card.left_words some_ goes (by rw [len]) many combined
  obtain ⟨slots, late⟩ := not_or.mp fun starts => not ⟨small, starts⟩
  have stops : reached card.frames card.frameSize < card.frames :=
    Nat.lt_of_le_of_ne (Nat.min_le_left _ _) fun all =>
      late ((reached_eq_iff card.frameSize_pos).mp all)
  have full : card.voices.sum = card.frameSize := by
    have room : card.nslots < card.frameSize :=
      (Nat.lt_mul_iff_one_lt_right card.nslots_pos).mpr many
    omega
  have pinLt : 1 < card.frameSize :=
    Nat.lt_of_lt_of_le many (Nat.le_mul_of_pos_left card.pins card.nslots_pos)
  have slotsLt : card.nslots < card.frameSize :=
    (Nat.lt_mul_iff_one_lt_right card.nslots_pos).mpr many
  -- the second word of the first frame that is not reached
  have silence := multiplexed.words _ stops 0 card.nslots_pos 1 many
  rw [words, interleaved_word (Card.slot_lt card.nslots_pos many), if_neg (Nat.lt_irrefl _),
    constant_channel (fun c => if c = 1 then 1 else 0) rows, Nat.one_mul, Nat.add_zero,
    Nat.zero_mul, Nat.zero_add, if_pos (full ▸ slotsLt)] at silence
  have sound : (outAfter card.nslots streams (fun _ => 0) false _).dma
      (_ * max (voiceSum streams) card.nslots + 1) = _ := outAfter_word stops (len.symm ▸ pinLt)
  rw [len, constant_channel (fun c => if c = 1 then 1 else 0) rows, if_pos (full ▸ pinLt),
    if_pos rfl] at sound
  exact absurd (sound.symm.trans (silence.trans (if_neg slots))) (by decide)

/-- The driver multiplexes all streams exactly if there is no frame, or the voices and the slots of
one pin make up the whole frame, and with more than one pin no frame starts beyond the index. -/
theorem Card.right_iff (card : Card) :
    card.Right ↔ card.frames = 0 ∨
      max card.voices.sum card.nslots = card.frameSize ∧
        (card.pins = 1 ∨ card.frameSize ≤ 32767 ∧
          (card.nslots = 1 ∨ (card.frames - 1) * card.frameSize ≤ 32767)) := by
  rcases Nat.eq_zero_or_pos card.frames with none | some_
  · refine iff_of_true (fun streams same dma call => ?_) (.inl none)
    have empty : card.size = 0 := by
      unfold Card.size
      rw [none, Nat.zero_mul]
      rfl
    refine ⟨⟨streams.map Stream.strm, dma, []⟩, if_pos empty, ?_⟩
    refine ⟨fun k turn => ?_, fun _ _ => rfl, ?_, ?_⟩
    · rw [none] at turn
      exact absurd turn (Nat.not_lt_zero k)
    · rw [none]
      exact (strm_after_zero streams).symm
    · rw [none]
      exact (ite_self _).symm
  · refine Iff.trans ?_ (or_iff_right (Nat.ne_of_gt some_)).symm
    exact ⟨fun right => ⟨Card.fills_of_right some_ right, Card.reaches_of_right some_ right⟩,
      fun conditions => Card.right_of_fills some_ conditions.1 conditions.2⟩

/-- Two interfaces of one voice, on two pins with two slots, and a half of one frame -/
def twoPins : Card where
  nslots := 2
  pins := 2
  voices := [1, 1]
  frames := 1
  nslots_pos := by decide
  pins_pos := by decide
  voices_some := by decide
  voices_pos := by decide
  voices_fit := by decide
  fits := by decide

/-- The frame takes two samples of each voice, the second ones in the slots of the second pin. -/
theorem twoPins_broken : ¬twoPins.Right := fun right =>
  absurd (Card.fills_of_right Nat.one_pos right) (by decide)

end Cards

end Mx6xBsp.Deva.Playback
