import Mx6xBsp.Deva.Split

/-!
# Demultiplexing of capture streams

A `Stream` is recorded frame by frame into a ring of whole frames (`Stream.append`).
`Taken` is what a client should see: each active stream takes the words of its channels
out of every frame of every half that is complete. `captures_iff` tells for which cards the
driver does that, whatever its clients do.
-/

namespace Mx6xBsp.Deva.Playback.Stream

open Blocks

/-- A frame is put after the last one, around the end of the ring. -/
def append (s : Stream) (row : List Word) : Stream :=
  { s with
    words := write s.words (s.at_ 0 * s.voices) row
    position := s.at_ 0 + 1
    position_le := Nat.mod_lt _ s.frames_pos }

/-- A client has acquired the stream and prepared it. -/
def fresh (s : Stream) (buffer : Capture.Buffer) : Stream where
  voices := s.voices
  frames := buffer.frames
  fragment := buffer.fragment
  position := 0
  active := false
  words := buffer.words
  pcmSubchn := buffer.pcmSubchn
  voices_pos := s.voices_pos
  frames_pos := buffer.frames_pos
  fragment_pos := buffer.fragment_pos
  position_le := Nat.zero_le _

/-- A client has prepared the stream. -/
def rewind (s : Stream) : Stream := { s with position := 0, position_le := Nat.zero_le _ }

def setActive (s : Stream) (active : Bool) : Stream := { s with active }

end Mx6xBsp.Deva.Playback.Stream

namespace Mx6xBsp.Deva.Capture

open Blocks Playback

/-! ## What a client should see -/

/-- A configuration: slots, pins, the voices of the interfaces, the number of frames in one half of
the buffer, whose size is that of a number of 32 bits, and the map of the user if there is one. -/
structure Card where
  nslots : Nat
  pins : Nat
  voices : List Nat
  frames : Nat
  chmap : Option (List Int)
  nslots_pos : 0 < nslots
  pins_pos : 0 < pins
  several : 1 < voices.length
  voices_pos : ∀ v ∈ voices, 0 < v
  voices_fit : voices.sum ≤ nslots * pins
  fits : SAMPLE_SIZE * (frames * (nslots * pins)) < 2 ^ 31
  accepted : 1 < pins → ∀ values, chmap = some values →
    ∀ value ∈ values.take (nslots * pins), value < (nslots * pins : Nat)

/-- The streams, and the fragments that were signalled -/
structure Taken where
  streams : List Stream
  interrupts : List Nat

namespace Card

variable (card : Card)

def frameSize : Nat := card.nslots * card.pins

/-- The size of one half of the buffer, in bytes -/
def size : Nat := SAMPLE_SIZE * (card.frames * card.frameSize)

/-- A map is set where there is more than one pin. -/
def mx : Mx where
  nslots := card.nslots
  numSdiPins := card.pins
  sdiChmap := if 1 < card.pins then setReconstituteMap card.nslots card.pins card.chmap else none

/-- The word of the channel `c` in a frame: the user's, or that of the slot and the pin of it -/
def wordOf (c : Nat) : Int :=
  match card.chmap with
  | none => (c % card.nslots * card.pins + c / card.nslots : Nat)
  | some values => values[c]?.getD 0

/-- The channels of a stream in the frame `k` of a half -/
def row (half : Nat → Word) (k channel voices : Nat) : List Word :=
  (List.range voices).map fun voice =>
    half (k * card.frameSize + (card.wordOf (channel + voice)).toNat)

/-- The streams take their channels, which follow each other, out of the frame `k`. -/
def takeFrame (half : Nat → Word) (k : Nat) : Nat → List Stream → Taken
  | _, [] => ⟨[], []⟩
  | channel, s :: streams =>
    let rest := takeFrame half k (channel + s.voices) streams
    ⟨(if s.active then s.append (card.row half k channel s.voices) else s) :: rest.streams,
      (if s.Completes 0 then [s.pcmSubchn] else []) ++ rest.interrupts⟩

/-- The streams after `k` frames of a half -/
def takeFrames (half : Nat → Word) (taken : Taken) : Nat → Taken
  | 0 => taken
  | k + 1 =>
    let before := takeFrames half taken k
    let frame := card.takeFrame half k 0 before.streams
    ⟨frame.streams, before.interrupts ++ frame.interrupts⟩

def take (taken : Taken) : Event → Taken
  | .complete half => card.takeFrames half taken card.frames
  | .aquire i buffer => { taken with streams := taken.streams.modify i fun s => s.fresh buffer }
  | .prepare i => { taken with streams := taken.streams.modify i Stream.rewind }
  | .go i => { taken with streams := taken.streams.modify i (Stream.setActive · true) }
  | .stop i => { taken with streams := taken.streams.modify i (Stream.setActive · false) }

/-- The driver before the first event -/
def start (streams : List Stream) (addr : Nat → Word) : Sys where
  aif := streams.map Stream.strm
  captureFragIndex := 0
  addr := addr
  half := 0
  interrupts := []

/-- Whatever happens, the clients see what they should, and nothing is read outside of the half and
the map. -/
def Right : Prop :=
  ∀ (streams : List Stream) (addr : Nat → Word), streams.map Stream.voices = card.voices →
    ∀ events, ∃ sys, (start streams addr).run card.mx card.size events = some sys ∧
      sys.aif = (events.foldl card.take ⟨streams, []⟩).streams.map Stream.strm ∧
      sys.interrupts = (events.foldl card.take ⟨streams, []⟩).interrupts

end Card

/-! ## The map -/

theorem innerMap (map : Nat → Int) (frameOffset nslots : Nat) (word : Nat → Int) :
    (List.range nslots).foldl
        (fun (state : (Nat → Int) × Nat) slot =>
          (Function.update state.1 state.2 (word slot), state.2 + 1)) (map, frameOffset) =
      (write map frameOffset ((List.range nslots).map word), frameOffset + nslots) := by
  induction nslots with
  | zero => exact congrArg (·, frameOffset) write_nil.symm
  | succ nslots ih =>
    have next :
        write (write map frameOffset ((List.range nslots).map word)) _ [word nslots] = _ :=
      write_append
    rw [List.length_map, List.length_range] at next
    rw [List.range_succ, List.foldl_append, ih, List.map_append]
    exact congrArg (·, frameOffset + (nslots + 1)) ((write_single _).symm.trans next)

/-- The words of a pin -/
def pinWords (nslots pins pin : Nat) : List Int :=
  (List.range nslots).map fun slot => ((slot * pins + pin : Nat) : Int)

theorem pinWords_length (nslots pins pin : Nat) : (pinWords nslots pins pin).length = nslots := by
  unfold pinWords
  rw [List.length_map, List.length_range]

theorem defaultMap_eq (nslots pins : Nat) :
    (defaultMap nslots pins).1 =
      write (fun _ => 0) 0 ((List.range pins).flatMap (pinWords nslots pins)) := by
  have loop : ∀ n, (List.range n).foldl
      (fun state pin => (List.range nslots).foldl
        (fun (state : (Nat → Int) × Nat) slot =>
          (Function.update state.1 state.2 ((slot * pins + pin : Nat) : Int), state.2 + 1))
        state) ((fun _ => 0 : Nat → Int), 0) =
      (write (fun _ => 0) 0 ((List.range n).flatMap (pinWords nslots pins)), n * nslots) := by
    intro n
    induction n with
    | zero => exact congrArg₂ Prod.mk write_nil.symm (Nat.zero_mul nslots).symm
    | succ n ih =>
      have length := length_flatMap_range (pinWords_length nslots pins) n
      have next : write (write (fun _ => (0 : Int)) 0 ((List.range n).flatMap
          (pinWords nslots pins))) _ (pinWords nslots pins n) = _ := write_append
      rw [length, Nat.zero_add] at next
      rw [List.range_succ, List.foldl_append, ih, List.flatMap_append, List.flatMap_singleton,
        Nat.succ_mul, ← next]
      exact innerMap _ _ _ _
  exact congrArg Prod.fst (loop pins)

theorem defaultMap_get {nslots pins c : Nat} (inside : c < nslots * pins) :
    (defaultMap nslots pins).1 c = ((c % nslots * pins + c / nslots : Nat) : Int) := by
  have pos : 0 < nslots := Nat.pos_of_mul_pos_right (Nat.zero_lt_of_lt inside)
  have pin : c / nslots < pins := (Nat.div_lt_iff_lt_mul pos).mpr (by rwa [Nat.mul_comm])
  have slot : c % nslots < nslots := Nat.mod_lt c pos
  have get := getElem?_flatMap_range (pinWords_length nslots pins) pin slot
  have word : (pinWords nslots pins (c / nslots))[c % nslots]? =
      some ((c % nslots * pins + c / nslots : Nat) : Int) := by
    unfold pinWords
    rw [List.getElem?_map, List.getElem?_range slot]
    rfl
  have parts : 0 + (c / nslots * nslots + c % nslots) = c := by
    rw [Nat.zero_add, Nat.div_add_mod']
  rw [defaultMap_eq]
  have found := write_get (m := fun _ => (0 : Int)) (i := 0) (get.trans word)
  rwa [parts] at found

theorem userMap_eq {frameSize : Nat} {values : List Int} (idx : Nat) (map : Nat → Int)
    (small : ∀ value ∈ values.take (frameSize - idx), value < frameSize) :
    userMap frameSize idx values map = some (write map idx (values.take (frameSize - idx))) := by
  induction values generalizing idx map with
  | nil =>
    rw [List.take_nil, write_nil]
    rfl
  | cons value values ih =>
    unfold userMap
    by_cases full : frameSize ≤ idx
    · rw [if_pos full, Nat.sub_eq_zero_of_le full, List.take_zero, write_nil]
    · have room : frameSize - idx = (frameSize - (idx + 1)) + 1 := by omega
      rw [room, List.take_succ_cons] at small ⊢
      have first := small value List.mem_cons_self
      rw [if_neg full, if_neg (Int.not_le.mpr first),
        ih (idx + 1) _ fun v inside => small v (List.mem_cons_of_mem _ inside), ← write_single]
      exact congrArg some write_append

namespace Card

variable {card : Card}

theorem frameSize_pos (card : Card) : 0 < card.frameSize :=
  Nat.mul_pos card.nslots_pos card.pins_pos

/-- With more than one pin the map has the word of each channel, which is before the end of the
frame. -/
theorem map_eq (many : 1 < card.pins) :
    ∃ map, card.mx.sdiChmap = some map ∧
      ∀ c < card.frameSize, map c = card.wordOf c ∧ card.wordOf c < card.frameSize := by
  unfold mx wordOf frameSize
  dsimp only
  rw [if_pos many]
  have accepted := card.accepted many
  cases values : card.chmap with
  | none =>
    refine ⟨_, rfl, fun c inside => ⟨defaultMap_get inside, ?_⟩⟩
    have slot : c % card.nslots < card.nslots := Nat.mod_lt c card.nslots_pos
    have pin : c / card.nslots < card.pins :=
      (Nat.div_lt_iff_lt_mul card.nslots_pos).mpr (by rwa [Nat.mul_comm])
    have room := Nat.mul_le_mul_right card.pins (Nat.succ_le_of_lt slot)
    rw [Nat.succ_mul] at room
    dsimp only
    omega
  | some values' =>
    have small := accepted values' values
    refine ⟨_, userMap_eq 0 _ small, fun c inside => ?_⟩
    have pos : 0 < card.nslots * card.pins := Nat.zero_lt_of_lt inside
    dsimp only
    rw [Nat.sub_zero]
    cases get : values'[c]? with
    | none =>
      have short := List.getElem?_eq_none_iff.mp get
      refine ⟨write_beyond (Nat.le_trans ?_ short), Int.natCast_pos.mpr pos⟩
      rw [Nat.zero_add, List.length_take]
      exact Nat.min_le_right _ _
    | some value =>
      have taken : (values'.take (card.nslots * card.pins))[c]? = some value := by
        rw [List.getElem?_take_of_lt inside, get]
      have found := write_get (m := fun _ => (0 : Int)) (i := 0) taken
      rw [Nat.zero_add] at found
      exact ⟨found, small value (List.mem_of_getElem? taken)⟩

end Card

/-! ## One frame -/

section Frames

variable {card : Card} {mx : Mx} {dmaptr half : Nat → Word} {size k : Nat} {sampleOffset : Int}

theorem fill_eq {frameOffset offset voices : Nat} {word : Nat → Word} (buf : Nat → Word)
    (words : ∀ voice < voices,
      mx.word dmaptr size sampleOffset (frameOffset + voice) = some (word voice)) :
    mx.fill dmaptr size sampleOffset frameOffset offset voices buf =
      some (write buf offset ((List.range voices).map word)) := by
  induction voices with
  | zero => exact congrArg some write_nil.symm
  | succ n ih =>
    have before := ih fun voice below => words voice (Nat.lt_succ_of_lt below)
    have next : write (write buf offset ((List.range n).map word)) _ [word n] = _ := write_append
    rw [List.length_map, List.length_range] at next
    unfold Mx.fill
    rw [before, Option.bind_eq_bind, Option.bind_some, words n (Nat.lt_succ_self n),
      Option.bind_eq_bind, Option.bind_some, List.range_succ, List.map_append]
    exact congrArg some ((write_single _).symm.trans next)

/-- The words of the channels before `total` are found for the frame `k`. -/
def Found (card : Card) (dmaptr half : Nat → Word) (sampleOffset : Int) (k : Nat) : Prop :=
  ∀ c < card.voices.sum, card.mx.word dmaptr card.size sampleOffset c =
    some (half (k * card.frameSize + (card.wordOf c).toNat))

theorem splitStrm_eq (found : Found card dmaptr half sampleOffset k) {channel : Nat} (s : Stream)
    (inside : channel + s.voices ≤ card.voices.sum) :
    card.mx.splitStrm dmaptr card.size sampleOffset channel s.strm =
      some ((if s.active then s.append (card.row half k channel s.voices) else s).strm,
        if s.Completes 0 then [s.pcmSubchn] else []) := by
  cases active : s.active with
  | true =>
    have filled : card.mx.fill dmaptr card.size sampleOffset channel (s.at_ 0 * s.voices) s.voices
        s.words = _ :=
      fill_eq s.words fun voice (below : voice < s.voices) => found (channel + voice) (by omega)
    have wraps := s.advance_wraps 0
    unfold Stream.advance at wraps
    have fires := if_congr (Stream.completes_iff active (k := 0)) (Eq.refl [s.pcmSubchn])
      (Eq.refl [])
    unfold Mx.splitStrm Stream.strm
    dsimp only
    rw [if_pos active, wraps, filled, Option.bind_eq_bind, Option.bind_some, fires,
      ← Nat.succ_mul]
    rfl
  | false =>
    have silent : ¬s.Completes 0 := fun completes =>
      Bool.false_ne_true (active.symm.trans completes.1)
    have skipped : ¬s.strm.active = true := fun on => Bool.false_ne_true (active.symm.trans on)
    unfold Mx.splitStrm
    rw [if_neg skipped, if_neg silent]
    rfl

theorem append_voices (s : Stream) (row : List Word) :
    (if s.active then s.append row else s).voices = s.voices := by
  split
  · rfl
  · rfl

theorem splitAif_eq (found : Found card dmaptr half sampleOffset k) {channel : Nat}
    {streams : List Stream} (inside : channel + voiceSum streams ≤ card.voices.sum) :
    card.mx.splitAif dmaptr card.size sampleOffset channel (streams.map Stream.strm) =
      some ((card.takeFrame half k channel streams).streams.map Stream.strm,
        (card.takeFrame half k channel streams).interrupts) := by
  induction streams generalizing channel with
  | nil => rfl
  | cons s streams ih =>
    have sum : voiceSum (s :: streams) = s.voices + voiceSum streams := List.sum_cons
    have voices : s.strm.voices = s.voices := rfl
    rw [List.map_cons]
    unfold Mx.splitAif
    rw [splitStrm_eq found s (by omega), Option.bind_eq_bind, Option.bind_some, voices,
      ih (by omega)]
    rfl

theorem takeFrame_voices (channel : Nat) (streams : List Stream) :
    (card.takeFrame half k channel streams).streams.map Stream.voices =
      streams.map Stream.voices := by
  induction streams generalizing channel with
  | nil => rfl
  | cons s streams ih => exact congrArg₂ List.cons (append_voices s _) (ih _)

theorem takeFrames_voices (taken : Taken) :
    (card.takeFrames half taken k).streams.map Stream.voices =
      taken.streams.map Stream.voices := by
  induction k with
  | zero => rfl
  | succ k ih => exact (takeFrame_voices 0 _).trans ih

/-! ## A half -/

/-- The test of the loop -/
def Goes (size : Nat) (sampleOffset : Int) : Prop := sampleOffset * SAMPLE_SIZE % 2 ^ 32 < size

/-- The loop takes one frame after the other, and ends after `rounds` of them. -/
theorem splitLoop_eq {rounds : Nat} {taken : Taken}
    (voices : taken.streams.map Stream.voices = card.voices)
    (goes : ∀ k < rounds, Goes card.size (k * card.mx.frameSize))
    (ends : ¬Goes card.size (rounds * card.mx.frameSize))
    (found : ∀ k < rounds, Found card dmaptr half (k * card.mx.frameSize) k) :
    ∀ fuel k : Nat, k ≤ rounds → rounds < fuel + k →
      card.mx.splitLoop dmaptr card.size fuel (k * card.mx.frameSize)
        ((card.takeFrames half taken k).streams.map Stream.strm)
        (card.takeFrames half taken k).interrupts =
      some ((card.takeFrames half taken rounds).streams.map Stream.strm,
        (card.takeFrames half taken rounds).interrupts) := by
  intro fuel
  induction fuel with
  | zero =>
    intro k below enough
    omega
  | succ fuel ih =>
    intro k below enough
    unfold Mx.splitLoop
    rcases Nat.lt_or_eq_of_le below with inside | last
    · have sum : voiceSum (card.takeFrames half taken k).streams = card.voices.sum :=
        congrArg List.sum ((takeFrames_voices taken).trans voices)
      have next : (k : Int) * card.mx.frameSize + card.mx.frameSize =
          ((k + 1 : Nat) : Int) * card.mx.frameSize := by
        rw [Int.natCast_succ, Int.add_mul, Int.one_mul]
      have turn : (k : Int) * card.mx.frameSize * SAMPLE_SIZE % 2 ^ 32 < card.size :=
        goes k inside
      rw [if_pos turn, splitAif_eq (found k inside) (by omega), Option.bind_eq_bind,
        Option.bind_some, next]
      exact ih (k + 1) inside (by omega)
    · rw [last, if_neg (by exact ends)]

/-! ## Runs -/

/-- The step of the loop is that of the frames: they are short, or there is one frame and the step
leads out of the half. -/
def Card.Steps (card : Card) : Prop :=
  card.frameSize ≤ 32767 ∨ card.frames = 1 ∧ 32768 ≤ card.frameSize % 65536

theorem Card.step_eq (card : Card) : card.mx.frameSize =
    (card.frameSize : Int) % 65536 - if 32768 ≤ card.frameSize % 65536 then 65536 else 0 := by
  have wraps := Int.bmod_eq_emod (card.frameSize : Int) 65536
  rw [show card.mx.frameSize = (card.frameSize : Int).bmod 65536 from rfl, wraps]
  split <;> split <;> omega

theorem goes_nat {size n : Nat} (small : n < 2 ^ 31) : Goes size n ↔ n * SAMPLE_SIZE < size := by
  unfold Goes SAMPLE_SIZE
  omega

theorem Card.words_lt (card : Card) : card.frames * card.frameSize < 2 ^ 30 := by
  have fits := card.fits
  unfold SAMPLE_SIZE at fits
  unfold Card.frameSize
  omega

theorem Card.Steps.goes (steps : card.Steps) :
    (∀ k < card.frames, (k : Int) * card.mx.frameSize = (k * card.frameSize : Nat) ∧
      Goes card.size (k * card.mx.frameSize)) ∧
    ¬Goes card.size (card.frames * card.mx.frameSize) := by
  have words := card.words_lt
  have pos := card.frameSize_pos
  have step := card.step_eq
  have size : card.size = 2 * (card.frames * card.frameSize) := rfl
  rcases steps with short | ⟨one, wraps⟩
  · rw [if_neg (by omega)] at step
    have same : card.mx.frameSize = card.frameSize := by omega
    refine ⟨fun k below => ?_, ?_⟩
    · have room := Nat.mul_le_mul_right card.frameSize (Nat.succ_le_of_lt below)
      rw [Nat.succ_mul] at room
      have offset : (k : Int) * card.mx.frameSize = (k * card.frameSize : Nat) := by
        rw [same, Int.natCast_mul]
      refine ⟨offset, ?_⟩
      rw [offset, goes_nat (by omega)]
      unfold SAMPLE_SIZE
      omega
    · rw [same, ← Int.natCast_mul, goes_nat (by omega)]
      unfold SAMPLE_SIZE
      omega
  · rw [if_pos wraps] at step
    rw [one, Nat.one_mul] at size words
    rw [one]
    refine ⟨fun k below => ?_, ?_⟩
    · rw [Nat.lt_one_iff.mp below, Int.natCast_zero, Int.zero_mul, Nat.zero_mul]
      refine ⟨rfl, (goes_nat (n := 0) (by decide)).mpr ?_⟩
      unfold SAMPLE_SIZE
      omega
    · unfold Goes SAMPLE_SIZE
      rw [Int.natCast_one, Int.one_mul]
      omega

/-- With more than one pin, and no word before the frame, the words of a frame are found. -/
theorem Card.found (many : 1 < card.pins) (inFrame : ∀ c < card.voices.sum, 0 ≤ card.wordOf c)
    (same : ∀ i < card.frames * card.frameSize, dmaptr i = half i) {k : Nat}
    (below : k < card.frames) : Found card dmaptr half (k * card.frameSize : Nat) k := by
  intro c voiced
  obtain ⟨map, set, words⟩ := Card.map_eq many
  have inside : c < card.frameSize := Nat.lt_of_lt_of_le voiced card.voices_fit
  obtain ⟨entry, small⟩ := words c inside
  have positive := inFrame c voiced
  have room := Nat.mul_le_mul_right card.frameSize (Nat.succ_le_of_lt below)
  rw [Nat.succ_mul] at room
  have halfSize : card.size / SAMPLE_SIZE = card.frames * card.frameSize :=
    Nat.mul_div_cancel_left _ (by decide)
  have place : ((k * card.frameSize : Nat) : Int) + card.wordOf c =
      (k * card.frameSize + (card.wordOf c).toNat : Nat) := by omega
  have bounds : (0 : Int) ≤ (k * card.frameSize + (card.wordOf c).toNat : Nat) ∧
      ((k * card.frameSize + (card.wordOf c).toNat : Nat) : Int) <
        (card.size / SAMPLE_SIZE : Nat) := by
    rw [halfSize]
    omega
  unfold Mx.word
  rw [set, Option.bind_eq_bind, Option.bind_some, if_pos (by exact inside)]
  dsimp only
  rw [entry, place, if_pos bounds, Int.toNat_natCast, same _ (by omega)]

theorem Card.split_eq {taken : Taken} (voices : taken.streams.map Stream.voices = card.voices)
    (right : card.frames = 0 ∨ 1 < card.pins ∧ (∀ c < card.voices.sum, 0 ≤ card.wordOf c) ∧
      card.Steps)
    (same : ∀ i < card.frames * card.frameSize, dmaptr i = half i) :
    card.mx.dmacaptureSplit dmaptr card.size (taken.streams.map Stream.strm) taken.interrupts =
      some ((card.takeFrames half taken card.frames).streams.map Stream.strm,
        (card.takeFrames half taken card.frames).interrupts) := by
  have size : card.size = 2 * (card.frames * card.frameSize) := rfl
  unfold Mx.dmacaptureSplit
  rcases Nat.eq_zero_or_pos card.frames with none | some_
  · rw [none, Nat.zero_mul] at size
    rw [if_pos size, none]
    rfl
  · obtain ⟨many, inFrame, steps⟩ := right.resolve_left (Nat.ne_of_gt some_)
    obtain ⟨goes, ends⟩ := steps.goes
    have room := Nat.le_mul_of_pos_right card.frames card.frameSize_pos
    rw [if_neg (by omega)]
    have found : ∀ k < card.frames, Found card dmaptr half (k * card.mx.frameSize) k := by
      intro k below
      rw [(goes k below).1]
      exact Card.found many inFrame same below
    have loop := splitLoop_eq voices (fun k below => (goes k below).2) ends found (card.size + 1) 0
      (Nat.zero_le card.frames) (by omega)
    rw [Int.natCast_zero, Int.zero_mul] at loop
    exact loop

/-- The driver has what its clients see, and reads the half that the controller fills. -/
structure Tracks (card : Card) (sys : Sys) (taken : Taken) : Prop where
  aif : sys.aif = taken.streams.map Stream.strm
  interrupts : sys.interrupts = taken.interrupts
  voices : taken.streams.map Stream.voices = card.voices
  half : sys.half < 2
  index : sys.captureFragIndex = sys.half ∨ sys.captureFragIndex = 2 ∧ sys.half = 0

theorem map_modify {α β : Type*} {f : α → α} {f' : β → β} {g : α → β}
    (commutes : ∀ a, g (f a) = f' (g a)) (l : List α) (i : Nat) :
    (l.modify i f).map g = (l.map g).modify i f' := by
  refine List.ext_getElem? fun j => ?_
  rw [List.getElem?_map, List.getElem?_modify, List.getElem?_modify, List.getElem?_map]
  cases l[j]? with
  | none => rfl
  | some a =>
    refine congrArg some ?_
    by_cases same : i = j
    · simp only [if_pos same]
      exact commutes a
    · simp only [if_neg same]

theorem Tracks.modify {sys : Sys} {taken : Taken} (tracks : Tracks card sys taken)
    {f : Stream → Stream} {f' : Playback.Strm → Playback.Strm}
    (commutes : ∀ s, (f s).strm = f' s.strm)
    (voices : ∀ s, (f s).voices = s.voices) (i : Nat) :
    Tracks card { sys with aif := sys.aif.modify i f' }
      { taken with streams := taken.streams.modify i f } where
  aif := (congrArg (List.modify · i f') tracks.aif).trans (map_modify commutes _ i).symm
  interrupts := tracks.interrupts
  voices := by
    have same : (taken.streams.modify i f).map Stream.voices =
        (taken.streams.map Stream.voices).modify i id := map_modify voices taken.streams i
    exact same.trans ((List.modify_id i _).trans tracks.voices)
  half := tracks.half
  index := tracks.index

theorem Tracks.trigger {sys : Sys} {taken : Taken} (tracks : Tracks card sys taken) (i : Nat)
    (go : Bool) :
    Tracks card (sys.captureTrigger i go)
      { taken with streams := taken.streams.modify i (Stream.setActive · go) } := by
  have tracks' : Tracks card
      (if go ∧ sys.numActive = 0 then { sys with captureFragIndex := 0, half := 0 } else sys)
      taken := by
    split
    · exact ⟨tracks.aif, tracks.interrupts, tracks.voices, Nat.zero_lt_two, .inl rfl⟩
    · exact tracks
  exact tracks'.modify (f := (Stream.setActive · go)) (fun _ => rfl) (fun _ => rfl) i

theorem capPulseHdlr_eq {mx : Mx} {sys : Sys} {index : Nat} {aif : List Playback.Strm}
    {interrupts : List Nat}
    (next : (if sys.captureFragIndex ≥ 2 then 0 else sys.captureFragIndex) = index)
    (split : mx.dmacaptureSplit (fun x => sys.addr (index * (size / SAMPLE_SIZE) + x)) size sys.aif
      sys.interrupts = some (aif, interrupts)) :
    sys.capPulseHdlr mx size =
      some { sys with aif, interrupts, captureFragIndex := index + 1 } := by
  subst next
  unfold Sys.capPulseHdlr
  dsimp only
  rw [split]
  rfl

theorem Tracks.complete {sys : Sys} {taken : Taken} (tracks : Tracks card sys taken)
    (right : card.frames = 0 ∨ 1 < card.pins ∧ (∀ c < card.voices.sum, 0 ≤ card.wordOf c) ∧
      card.Steps) (words : Nat → Word) :
    ∃ sys', (sys.transfer card.size words).capPulseHdlr card.mx card.size = some sys' ∧
      Tracks card sys' (card.takeFrames words taken card.frames) := by
  have below := tracks.half
  have halfSize : card.size / SAMPLE_SIZE = card.frames * card.frameSize :=
    Nat.mul_div_cancel_left _ (by decide)
  have index : (if sys.captureFragIndex ≥ 2 then 0 else sys.captureFragIndex) = sys.half := by
    rcases tracks.index with same | ⟨two, zero⟩
    · rw [if_neg (by omega), same]
    · rw [if_pos (by omega), zero]
  have same : ∀ i < card.frames * card.frameSize,
      (sys.transfer card.size words).addr (sys.half * (card.size / SAMPLE_SIZE) + i) = words i := by
    intro i inside
    have room : sys.half * (card.size / SAMPLE_SIZE) ≤ sys.half * (card.size / SAMPLE_SIZE) + i ∧
        sys.half * (card.size / SAMPLE_SIZE) + i <
          (sys.half + 1) * (card.size / SAMPLE_SIZE) := by
      rw [Nat.succ_mul, halfSize]
      omega
    refine (if_pos room).trans (congrArg words ?_)
    exact Nat.add_sub_cancel_left _ _
  have split := Card.split_eq tracks.voices right same
  rw [← tracks.aif, ← tracks.interrupts] at split
  have handled : (sys.transfer card.size words).capPulseHdlr card.mx card.size = some _ :=
    capPulseHdlr_eq index split
  refine ⟨_, handled, rfl, rfl,
    (takeFrames_voices taken).trans tracks.voices, Nat.mod_lt _ Nat.zero_lt_two, ?_⟩
  show sys.half + 1 = (sys.half + 1) % 2 ∨ sys.half + 1 = 2 ∧ (sys.half + 1) % 2 = 0
  omega

theorem Tracks.step {sys : Sys} {taken : Taken} (tracks : Tracks card sys taken)
    (right : card.frames = 0 ∨ 1 < card.pins ∧ (∀ c < card.voices.sum, 0 ≤ card.wordOf c) ∧
      card.Steps) (event : Event) :
    ∃ sys', sys.step card.mx card.size event = some sys' ∧
      Tracks card sys' (card.take taken event) := by
  cases event with
  | complete words => exact tracks.complete right words
  | aquire i buffer =>
    have commutes : ∀ s : Stream, (s.fresh buffer).strm = prepare (aquire buffer s.strm) := by
      intro s
      unfold Stream.strm Stream.fresh
      rw [Nat.zero_mul]
      rfl
    exact ⟨_, rfl, tracks.modify (f := fun s => s.fresh buffer) commutes (fun _ => rfl) i⟩
  | prepare i =>
    have commutes : ∀ s : Stream, s.rewind.strm = prepare s.strm := by
      intro s
      unfold Stream.strm Stream.rewind
      rw [Nat.zero_mul]
      rfl
    exact ⟨_, rfl, tracks.modify commutes (fun _ => rfl) i⟩
  | go i => exact ⟨_, rfl, tracks.trigger i true⟩
  | stop i => exact ⟨_, rfl, tracks.trigger i false⟩

theorem Tracks.run {sys : Sys} {taken : Taken} (tracks : Tracks card sys taken)
    (right : card.frames = 0 ∨ 1 < card.pins ∧ (∀ c < card.voices.sum, 0 ≤ card.wordOf c) ∧
      card.Steps) (events : List Event) :
    ∃ sys', sys.run card.mx card.size events = some sys' ∧
      Tracks card sys' (events.foldl card.take taken) := by
  induction events generalizing sys taken with
  | nil => exact ⟨sys, rfl, tracks⟩
  | cons event events ih =>
    obtain ⟨next, step, tracks'⟩ := tracks.step right event
    obtain ⟨last, run, tracks''⟩ := ih tracks'
    refine ⟨last, ?_, tracks''⟩
    unfold Sys.run
    rw [List.foldlM_cons, step]
    exact run

end Frames

/-! ## Cards that demultiplex -/

section Cards

variable {card : Card} {dmaptr : Nat → Word} {size : Nat} {sampleOffset : Int}

theorem Tracks.start {streams : List Stream} (addr : Nat → Word)
    (voices : streams.map Stream.voices = card.voices) :
    Tracks card (Card.start streams addr) ⟨streams, []⟩ :=
  ⟨rfl, rfl, voices, Nat.zero_lt_two, .inl rfl⟩

/-- A stream that is active, with a ring of `frames` frames -/
def opened (frames : Nat) (pos : 0 < frames) (voices : Nat) (voiced : 0 < voices) : Stream where
  voices := voices
  frames := frames
  fragment := 1
  position := 0
  active := true
  words := fun _ => 0
  pcmSubchn := 0
  voices_pos := voiced
  frames_pos := pos
  fragment_pos := Nat.one_pos
  position_le := Nat.zero_le _

theorem exists_opened (frames : Nat) (pos : 0 < frames) {voices : List Nat}
    (voiced : ∀ v ∈ voices, 0 < v) :
    ∃ streams : List Stream, streams.map Stream.voices = voices ∧
      ∀ s ∈ streams, s.active = true ∧ s.position = 0 ∧ s.frames = frames := by
  induction voices with
  | nil => exact ⟨[], rfl, fun _ none => absurd none List.not_mem_nil⟩
  | cons v voices ih =>
    obtain ⟨streams, same, all⟩ := ih fun v' inside => voiced v' (List.mem_cons_of_mem v inside)
    refine ⟨opened frames pos v (voiced v List.mem_cons_self) :: streams,
      congrArg (v :: ·) same, fun s inside => ?_⟩
    rcases List.mem_cons.mp inside with rfl | later
    · exact ⟨rfl, rfl, rfl⟩
    · exact all s later

theorem fill_some {mx : Mx} {frameOffset offset voices : Nat} {buf left : Nat → Word}
    (filled : mx.fill dmaptr size sampleOffset frameOffset offset voices buf = some left) :
    ∀ voice < voices, (mx.word dmaptr size sampleOffset (frameOffset + voice)).isSome := by
  induction voices generalizing left with
  | zero => exact fun voice none => absurd none (Nat.not_lt_zero voice)
  | succ n ih =>
    unfold Mx.fill at filled
    obtain ⟨before, first, filled⟩ := Option.bind_eq_some_iff.mp filled
    obtain ⟨word, last, -⟩ := Option.bind_eq_some_iff.mp filled
    intro voice below
    rcases Nat.lt_succ_iff_lt_or_eq.mp below with earlier | same
    · exact ih first voice earlier
    · rw [same, last]
      rfl

/-- A frame that is split had a word for each channel of streams that are all active. -/
theorem splitAif_some {mx : Mx} {frameOffset : Nat} {aif : List Playback.Strm}
    {left : List Playback.Strm × List Nat} (all : ∀ strm ∈ aif, strm.active = true)
    (split : mx.splitAif dmaptr size sampleOffset frameOffset aif = some left) :
    ∀ c < (aif.map Playback.Strm.voices).sum,
      (mx.word dmaptr size sampleOffset (frameOffset + c)).isSome := by
  induction aif generalizing frameOffset left with
  | nil => exact fun c none => absurd none (Nat.not_lt_zero c)
  | cons strm aif ih =>
    unfold Mx.splitAif at split
    obtain ⟨turn, first, split⟩ := Option.bind_eq_some_iff.mp split
    obtain ⟨rest, others, -⟩ := Option.bind_eq_some_iff.mp split
    unfold Mx.splitStrm at first
    rw [if_pos (all strm List.mem_cons_self)] at first
    obtain ⟨buf, filled, -⟩ := Option.bind_eq_some_iff.mp first
    intro c below
    rw [List.map_cons, List.sum_cons] at below
    by_cases own : c < strm.voices
    · exact fill_some filled c own
    · have later := ih (fun s inside => all s (List.mem_cons_of_mem _ inside)) others
        (c - strm.voices) (by omega)
      rwa [Nat.add_assoc, Nat.add_sub_cancel' (Nat.not_lt.mp own)] at later

theorem word_some {mx : Mx} {c : Nat} (found : (mx.word dmaptr size sampleOffset c).isSome) :
    ∃ map, mx.sdiChmap = some map ∧ 0 ≤ sampleOffset + map c := by
  obtain ⟨word, found⟩ := Option.isSome_iff_exists.mp found
  unfold Mx.word at found
  obtain ⟨map, set, found⟩ := Option.bind_eq_some_iff.mp found
  refine ⟨map, set, ?_⟩
  split at found
  · dsimp only at found
    split at found
    · next bounds => exact bounds.1
    · cases found
  · cases found

theorem splitStrm_moves {mx : Mx} {frameOffset : Nat} {strm : Playback.Strm}
    {left : Playback.Strm × List Nat}
    (active : strm.active = true) (room : strm.pcmOffset * SAMPLE_SIZE < strm.size)
    (split : mx.splitStrm dmaptr size sampleOffset frameOffset strm = some left) :
    left.1.active = true ∧ left.1.pcmOffset = strm.pcmOffset + strm.voices ∧
      left.1.size = strm.size ∧ left.1.voices = strm.voices := by
  unfold Mx.splitStrm at split
  rw [if_pos active] at split
  obtain ⟨buf, -, split⟩ := Option.bind_eq_some_iff.mp split
  cases split
  exact ⟨active, congrArg (· + strm.voices) (if_neg (Nat.not_le.mpr room)), rfl, rfl⟩

/-- The loop ends at the first step that its test does not let pass, and the first stream has moved
on by as many frames. -/
theorem splitLoop_some {mx : Mx} {fuel : Nat} {strm : Playback.Strm} {aif : List Playback.Strm}
    {interrupts : List Nat} {left : List Playback.Strm × List Nat} (active : strm.active = true)
    (voiced : 0 < strm.voices)
    (room : (strm.pcmOffset + fuel * strm.voices) * SAMPLE_SIZE ≤ strm.size)
    (loop : mx.splitLoop dmaptr size fuel sampleOffset (strm :: aif) interrupts = some left) :
    ∃ rounds : Nat, (∀ k < rounds, Goes size (sampleOffset + k * mx.frameSize)) ∧
      ¬Goes size (sampleOffset + rounds * mx.frameSize) ∧
      left.1.head?.map Playback.Strm.pcmOffset = some (strm.pcmOffset + rounds * strm.voices) := by
  induction fuel generalizing sampleOffset strm aif interrupts with
  | zero =>
    unfold Mx.splitLoop at loop
    cases loop
  | succ fuel ih =>
    unfold Mx.splitLoop at loop
    by_cases goes : sampleOffset * SAMPLE_SIZE % 2 ^ 32 < size
    · rw [if_pos goes] at loop
      obtain ⟨frame, split, loop⟩ := Option.bind_eq_some_iff.mp loop
      unfold Mx.splitAif at split
      obtain ⟨turn, first, split⟩ := Option.bind_eq_some_iff.mp split
      obtain ⟨rest, -, split⟩ := Option.bind_eq_some_iff.mp split
      cases split
      have more : strm.pcmOffset * SAMPLE_SIZE < strm.size := by
        rw [Nat.succ_mul] at room
        unfold SAMPLE_SIZE at room ⊢
        omega
      obtain ⟨on, offset, same, voices⟩ := splitStrm_moves active more first
      have room' : (turn.1.pcmOffset + fuel * turn.1.voices) * SAMPLE_SIZE ≤ turn.1.size := by
        rw [offset, same, voices, Nat.add_assoc, Nat.add_comm strm.voices, ← Nat.succ_mul]
        exact room
      obtain ⟨rounds, before, ends, moved⟩ := ih on (voices.symm ▸ voiced) room' loop
      have step : ∀ k : Nat, sampleOffset + mx.frameSize + k * mx.frameSize =
          sampleOffset + ((k + 1 : Nat) : Int) * mx.frameSize := by
        intro k
        rw [Int.natCast_succ, Int.add_mul, Int.one_mul, Int.add_assoc, Int.add_comm mx.frameSize]
      refine ⟨rounds + 1, fun k below => ?_, ?_, ?_⟩
      · cases k with
        | zero =>
          rw [Int.natCast_zero, Int.zero_mul, Int.add_zero]
          exact goes
        | succ k =>
          rw [← step]
          exact before k (Nat.lt_of_succ_lt_succ below)
      · rw [← step]
        exact ends
      · rw [moved, offset, voices, Nat.succ_mul, Nat.add_assoc, Nat.add_comm strm.voices]
    · rw [if_neg goes] at loop
      cases loop
      refine ⟨0, fun k none => absurd none (Nat.not_lt_zero k), ?_, ?_⟩
      · rw [Int.natCast_zero, Int.zero_mul, Int.add_zero]
        exact goes
      · rw [Nat.zero_mul, Nat.add_zero]
        rfl

/-- A loop that ends after as many steps as there are frames takes the steps of the frames. -/
theorem Card.steps_of_rounds (some_ : 0 < card.frames)
    (goes : ∀ k < card.frames, Goes card.size (k * card.mx.frameSize))
    (ends : ¬Goes card.size (card.frames * card.mx.frameSize)) : card.Steps := by
  have words := card.words_lt
  have size : card.size = 2 * (card.frames * card.frameSize) := rfl
  have step := card.step_eq
  unfold Card.Steps
  by_contra not
  obtain ⟨long, wraps⟩ := not_or.mp not
  by_cases negative : 32768 ≤ card.frameSize % 65536
  · rw [if_pos negative] at step
    have several : 1 < card.frames := by
      rcases Nat.lt_or_ge 1 card.frames with several | few
      · exact several
      · exact absurd ⟨by omega, negative⟩ wraps
    have second := goes 1 several
    unfold Goes SAMPLE_SIZE at second
    rw [Int.natCast_one, Int.one_mul] at second
    omega
  · rw [if_neg negative] at step
    have same : card.mx.frameSize = (card.frameSize % 65536 : Nat) := by omega
    have shorter : card.frameSize % 65536 < card.frameSize := by omega
    have less := Nat.mul_lt_mul_of_pos_left shorter some_
    rw [same, ← Int.natCast_mul, goes_nat (by omega)] at ends
    unfold SAMPLE_SIZE at ends
    omega

theorem takeFrames_position {half : Nat → Word} {streams : List Stream} {s : Stream} {k : Nat}
    (active : s.active = true) (start : s.position = 0) (room : k ≤ s.frames) :
    ∃ s' rest, (card.takeFrames half ⟨s :: streams, []⟩ k).streams = s' :: rest ∧
      s'.active = true ∧ s'.position = k ∧ s'.frames = s.frames ∧ s'.voices = s.voices := by
  induction k with
  | zero => exact ⟨s, streams, rfl, active, start, rfl, rfl⟩
  | succ k ih =>
    obtain ⟨s', rest, before, active', position, frames, voices⟩ := ih (Nat.le_of_succ_le room)
    have taken : (card.takeFrames half ⟨s :: streams, []⟩ (k + 1)).streams =
        (card.takeFrame half k 0 (s' :: rest)).streams :=
      congrArg (fun l => (card.takeFrame half k 0 l).streams) before
    unfold Card.takeFrame at taken
    rw [if_pos active'] at taken
    have at_ : s'.at_ 0 = k := by
      unfold Stream.at_
      rw [position, frames, Nat.add_zero, Nat.mod_eq_of_lt room]
    exact ⟨_, _, taken, active', congrArg (· + 1) at_, frames, voices⟩

theorem Card.needs_of_right (some_ : 0 < card.frames) (right : card.Right) :
    1 < card.pins ∧ (∀ c < card.voices.sum, 0 ≤ card.wordOf c) ∧ card.Steps := by
  have words := Nat.mul_pos some_ card.frameSize_pos
  have size : card.size = 2 * (card.frames * card.frameSize) := rfl
  have few := Nat.le_mul_of_pos_right card.frames card.frameSize_pos
  obtain ⟨streams, voices, all⟩ :=
    exists_opened (card.size + 1) (Nat.succ_pos _) card.voices_pos
  obtain ⟨sys, run, aif, -⟩ := right streams (fun _ => 0) voices [.complete fun _ => 0]
  -- the run is the split of the first half
  unfold Sys.run at run
  rw [List.foldlM_cons] at run
  obtain ⟨left, step, last⟩ := Option.bind_eq_some_iff.mp run
  cases last
  obtain ⟨⟨aif', interrupts⟩, split, same⟩ := Option.bind_eq_some_iff.mp step
  cases same
  unfold Mx.dmacaptureSplit at split
  rw [if_neg (by omega)] at split
  have first : Goes card.size ((0 : Nat) : Int) := (goes_nat (by decide)).mpr (by
    unfold SAMPLE_SIZE
    omega)
  have found : ∀ c < card.voices.sum, ∃ map, card.mx.sdiChmap = some map ∧ 0 ≤ map c := by
    have loop := split
    unfold Mx.splitLoop at loop
    rw [if_pos (by exact first)] at loop
    obtain ⟨frame, turn, -⟩ := Option.bind_eq_some_iff.mp loop
    intro c inside
    have sum : ((streams.map Stream.strm).map Playback.Strm.voices).sum = card.voices.sum := by
      rw [List.map_map]
      exact congrArg List.sum voices
    have active : ∀ strm ∈ streams.map Stream.strm, strm.active = true := by
      intro strm inside
      obtain ⟨s, member, rfl⟩ := List.mem_map.mp inside
      exact (all s member).1
    obtain ⟨map, set, positive⟩ := word_some (splitAif_some active turn c (sum.symm ▸ inside))
    rw [Nat.zero_add, Int.zero_add] at positive
    exact ⟨map, set, positive⟩
  have many : 1 < card.pins := by
    have voiced : 0 < card.voices.sum := by
      obtain ⟨v, inside⟩ := List.exists_mem_of_length_pos (Nat.zero_lt_of_lt card.several)
      exact List.sum_pos_iff_exists_pos_nat.mpr ⟨v, inside, card.voices_pos v inside⟩
    obtain ⟨map, set, -⟩ := found 0 voiced
    by_contra single
    cases (if_neg single).symm.trans set
  refine ⟨many, fun c inside => ?_, ?_⟩
  · obtain ⟨map, set, positive⟩ := found c inside
    obtain ⟨map', set', words'⟩ := Card.map_eq many
    have same : map = map' := Option.some.inj (set.symm.trans set')
    rw [← (words' c (Nat.lt_of_lt_of_le inside card.voices_fit)).1, ← same]
    exact positive
  · cases streams with
    | nil =>
      have none : (0 : Nat) = card.voices.length := congrArg List.length voices
      have several := card.several
      omega
    | cons s streams =>
      obtain ⟨active, start, frames⟩ := all s List.mem_cons_self
      have room : (s.strm.pcmOffset + (card.size + 1) * s.strm.voices) * SAMPLE_SIZE ≤
          s.strm.size := by
        show (s.position * s.voices + (card.size + 1) * s.voices) * 2 ≤ 2 * (s.frames * s.voices)
        rw [start, frames, Nat.zero_mul, Nat.zero_add, Nat.mul_comm 2]
      obtain ⟨rounds, goes, ends, moved⟩ := splitLoop_some active s.voices_pos room split
      obtain ⟨s', rest, taken, -, position, -, voices'⟩ : ∃ s' rest,
          (card.takeFrames (fun _ => 0) ⟨s :: streams, []⟩ card.frames).streams = s' :: rest ∧
            s'.active = true ∧ s'.position = card.frames ∧ s'.frames = s.frames ∧
              s'.voices = s.voices := takeFrames_position active start (by omega)
      have offset : aif'.head?.map Playback.Strm.pcmOffset = some (card.frames * s.voices) := by
        have moved' : aif' = (s' :: rest).map Stream.strm := aif.trans (congrArg _ taken)
        rw [moved', ← position, ← voices']
        rfl
      have offsets : s.position * s.voices + rounds * s.voices = card.frames * s.voices :=
        Option.some.inj (moved.symm.trans offset)
      rw [start, Nat.zero_mul, Nat.zero_add] at offsets
      have turns : rounds = card.frames := Nat.eq_of_mul_eq_mul_right s.voices_pos offsets
      rw [turns, Int.zero_add] at ends
      refine Card.steps_of_rounds some_ (fun k below => ?_) ends
      have goes' := goes k (turns.symm ▸ below)
      rwa [Int.zero_add] at goes'

/-- The driver demultiplexes exactly if there is no frame in a half, or there is more than one pin,
no channel of a stream has a word before its frame, and the frame is no longer than the step of the
loop can be, but for one frame whose step leads out of the half. -/
theorem Card.captures_iff (card : Card) :
    card.Right ↔ card.frames = 0 ∨
      1 < card.pins ∧ (∀ c < card.voices.sum, 0 ≤ card.wordOf c) ∧ card.Steps := by
  constructor
  · intro right
    rcases Nat.eq_zero_or_pos card.frames with none | some_
    · exact .inl none
    · exact .inr (Card.needs_of_right some_ right)
  · intro needs streams addr voices events
    obtain ⟨sys, run, tracks⟩ := (Tracks.start addr voices).run needs events
    exact ⟨sys, run, tracks.aif, tracks.interrupts⟩

/-- Two interfaces of two voices on one pin with four slots, and a half of one frame -/
def onePin : Card where
  nslots := 4
  pins := 1
  voices := [2, 2]
  frames := 1
  chmap := none
  nslots_pos := by decide
  pins_pos := by decide
  several := by decide
  voices_pos := by decide
  voices_fit := by decide
  fits := by decide
  accepted := fun many => absurd many (by decide)

/-- There is no map for one pin. -/
theorem onePin_broken : ¬onePin.Right := fun right =>
  absurd (Card.needs_of_right Nat.one_pos right).1 (by decide)

end Cards

end Mx6xBsp.Deva.Capture
