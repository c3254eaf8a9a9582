import Mx6xBsp.Flash.Program

/-!
# Buffered writes to Intel chips

`f3s_iCFI_v2write` writes a request through the write buffer while there are whole words, and the
rest word by word. In between the chip shows its status, and it is put back into read-array mode
when a word has to be padded and at the end. `v2write_iff` has the requests and chips for which all
of that is right: the whole words lie in one region of the write buffer, and no poll runs out and
no error shows.
-/

namespace Mx6xBsp.Flash.Icfi

open Loops

/-! ## The chip -/

def INTEL_READ_ARRAY : Nat := 0xFF
def INTEL_READ_STATUS : Nat := 0x70
def INTEL_WRITE_BUFFER : Nat := 0xE8
def INTEL_BUFFER_CONFIRM : Nat := 0xD0
def INTEL_WRITE : Nat := 0x40

/-- The addresses of a buffered program: of the set-up command, the count, the data words and the
confirmation -/
structure Sequence where
  setup : Nat
  count : Nat
  data : List Nat
  confirm : Nat

/-- A chip shows its array or its status, waits for a word to program, or for the count or the words
of a buffered program. -/
inductive Mode
  | array
  | status
  | program
  | request (setup : Nat)
  | loading (setup count words : Nat)
  deriving DecidableEq

/-- What a chip holds, its mode and its write buffer, and the buffered programs it has been sent -/
structure Chip where
  flash : Contents
  mode : Mode
  buffer : List (Nat × BitVec 64)
  sequences : List Sequence

namespace Chip

def array (flash : Contents) : Chip := ⟨flash, .array, [], []⟩

/-- What reads show, which is the array only in its mode -/
def reads (chip : Chip) (shown : Contents) : Contents :=
  if chip.mode = .array then chip.flash else shown

/-- The end of a buffered program, with so many words missing -/
def confirmed (width : Nat) (chip : Chip) (setup count words memory : Nat) : Chip where
  flash :=
    if words = 0 then chip.buffer.foldl (fun flash word => flash.program width word) chip.flash
    else chip.flash
  mode := .status
  buffer := []
  sequences := chip.sequences ++ [⟨setup, count, chip.buffer.map Prod.fst, memory⟩]

/-- `send_command`, where the set-up command is followed by the count -/
def sendCommand (width : Nat) (chip : Chip) (memory code : Nat) : Chip :=
  match chip.mode with
  | .request setup => { chip with mode := .loading setup memory (code + 1), buffer := [] }
  | .loading setup count words =>
    if code = INTEL_BUFFER_CONFIRM then chip.confirmed width setup count words memory
    else { chip with mode := .status }
  | .array | .status | .program =>
    if code = INTEL_READ_ARRAY then { chip with mode := .array }
    else if code = INTEL_WRITE_BUFFER then { chip with mode := .request memory }
    else if code = INTEL_WRITE then { chip with mode := .program }
    else { chip with mode := .status }

def writeValue (width : Nat) (chip : Chip) (word : Nat × BitVec 64) : Chip :=
  match chip.mode with
  | .program => { chip with flash := chip.flash.program width word, mode := .status }
  | .loading setup count (words + 1) =>
    { chip with buffer := chip.buffer ++ [word], mode := .loading setup count words }
  | _ => { chip with mode := .status }

end Chip

/-! ## The callout -/

def F3S_I28F008_POLL : Nat := 0x10000000

/-- The configuration, the size of the write buffer and whether it is used, the window, the request
and what the stack holds at `value`. `waits` has how often a set-up command at an address finds no
buffer, `busy` how long a program that is polled there takes, `status` what the status register
shows at the end, and `shown` what reads show while it is not the array. -/
structure Setting where
  cfg : Flashcfg
  bufferSize : Nat
  writeBuffer : Bool
  window : Window
  rq : Request
  stale : BitVec 64
  waits : Nat → Nat
  busy : Nat → Nat
  status : BitVec 64
  shown : Contents
  power : ∃ q, bufferSize = 2 ^ q

/-- The variables of the callout -/
structure Writing where
  cursor : Cursor
  left : Int
  offset : Nat
  chip : Chip

/-- How a loop ends, with the callout going on or returning -1 -/
abbrev Left := Writing × Bool

/-- What is left of the poll count after the set-up commands, when `waits` of them find no buffer,
from the `sent`th on -/
def requestPolls (waits : Nat) : Nat → Nat → Nat
  | 0, _ => 0
  | poll + 1, sent => if waits ≤ sent then poll else requestPolls waits poll (sent + 1)

/-- The count of `intel_poll`, from the read `reads` on -/
def intelPolls (busy : Nat) : Nat → Nat → Nat
  | 0, _ => 0
  | poll + 1, reads => if busy ≤ reads then poll + 1 else intelPolls busy poll (reads + 1)

def intelPoll (busy : Nat) : Int := if intelPolls busy F3S_I28F008_POLL 0 = 0 then -1 else 1

/-- The code of the number of words, which is -1 for none -/
def countCode (count : Nat) : Nat := (((count : Int) - 1) % 2 ^ 64).toNat

namespace Setting

variable (set : Setting)

def intelReadStatus (status : BitVec 64) : Int :=
  let mult := set.cfg.deviceMult
  if status &&& (0x08 * mult) ≠ 0 then -1
  else if status &&& (0x02 * mult) ≠ 0 then -1
  else if status &&& (0x30 * mult) = 0x30 * mult then -1
  else if status &&& (0x10 * mult) ≠ 0 then -1
  else if status &&& (0x20 * mult) ≠ 0 then -1
  else 1

/-- The loop that fills the write buffer. The pointers also go on when a whole word is left for the
next one. -/
def loadWords (left : Int) : Nat → Cursor × Chip → Cursor × Chip :=
  fillBuffer (Chip.writeValue set.cfg.busWidth) (fun count => count > 0 ∨ left ≥ set.cfg.busWidth)
    (fun _ cursor => (cursor.next set.cfg).load set.rq set.cfg.busWidth)

/-- The bytes that are left, rounded down to words -/
def wholeWords (left : Int) : Nat := left.toNat - (left.toNat &&& (set.cfg.busWidth - 1))

/-- The bytes of the next buffered program -/
def chunk (left : Int) (offset : Nat) : Nat :=
  min (min set.bufferSize (set.wholeWords left))
    (set.bufferSize - (offset &&& (set.bufferSize - 1)))

/-- A pass of the loop that programs by the write buffer -/
def bufferPass (st : Writing) : Pass Writing Left :=
  if st.left < set.cfg.busWidth then .leave (st, true)
  else
    let memory := st.cursor.memory
    -- sent again while there is no buffer
    let chip := st.chip.sendCommand set.cfg.busWidth memory INTEL_WRITE_BUFFER
    if requestPolls (set.waits memory) F3S_I28F008_POLL 0 = 0 then .leave ({ st with chip }, false)
    else
      let size := set.chunk st.left st.offset
      let left := st.left - size
      let offset := st.offset + size
      let count := size / set.cfg.busWidth
      let chip := chip.sendCommand set.cfg.busWidth memory (countCode count)
      let (cursor, chip) := set.loadWords left count (st.cursor, chip)
      let chip := chip.sendCommand set.cfg.busWidth cursor.memory INTEL_BUFFER_CONFIRM
      if intelPoll (set.busy cursor.memory) = -1 then .leave (⟨cursor, left, offset, chip⟩, false)
      else .next ⟨cursor, left, offset, chip⟩

/-- The loop by the write buffer, where it is used -/
def buffered (fuel : Nat) (st : Writing) : Option Left :=
  if set.writeBuffer = true ∧ st.left ≥ 4 * set.cfg.busWidth then
    (run set.bufferPass fuel st).map fun (st, goes) =>
      if goes = true ∧ st.left ≠ 0 then
        let cursor := (st.cursor.next set.cfg).load set.rq (min st.left.toNat set.cfg.busWidth)
        ({ st with
            cursor
            chip := st.chip.sendCommand set.cfg.busWidth cursor.memory INTEL_READ_ARRAY }, goes)
      else (st, goes)
  else some (st, true)

/-- The end of a pass of the loop over words -/
def nextWord (st : Writing) : Writing :=
  let left := st.left - set.cfg.busWidth
  if left > 0 then
    let cursor := (st.cursor.next set.cfg).load set.rq (min set.cfg.busWidth left.toNat)
    { st with
      left, cursor
      chip :=
        if left < set.cfg.busWidth then
          st.chip.sendCommand set.cfg.busWidth cursor.memory INTEL_READ_ARRAY
        else st.chip }
  else { st with left }

/-- The value at the word, padded at the end of the request -/
def padded (st : Writing) : Cursor :=
  if st.left < set.cfg.busWidth then
    { st.cursor with
      value := padValue set.cfg st.cursor.value
        ((st.chip.reads set.shown).word set.cfg.busWidth st.cursor.memory) (st.left.toNat <<< 3)
        false }
  else st.cursor

/-- A pass of the loop over words -/
def wordPass (st : Writing) : Pass Writing Left :=
  if st.left ≤ 0 then .leave (st, true)
  else
    let cursor := set.padded st
    if cursor.value ≠ BitVec.allOnes 64 then
      let chip := st.chip.sendCommand set.cfg.busWidth cursor.memory INTEL_WRITE
      let chip := chip.writeValue set.cfg.busWidth (cursor.memory, cursor.value)
      if intelPoll (set.busy cursor.memory) = -1 then .leave ({ st with cursor, chip }, false)
      else .next (set.nextWord { st with cursor, chip })
    else .next (set.nextWord { st with cursor })

/-- The beginning of the callout, with the size that the window leaves -/
def begin (flash : Contents) (left : Nat) : Writing :=
  let pad := set.rq.offset &&& (set.cfg.busWidth - 1)
  let value :=
    Value.memcpy set.stale pad (fun k => set.rq.buffer k) (min set.cfg.busWidth left - pad)
  let base := set.rq.offset - pad
  let value :=
    if pad ≠ 0 then
      padValue set.cfg value (((Chip.array flash).reads set.shown).word set.cfg.busWidth base)
        ((set.cfg.busWidth - pad) <<< 3) true
    else value
  ⟨⟨base, -(pad : Int), value⟩, left, base, Chip.array flash⟩

/-- The comparison at the end -/
def verified (st : Writing) (chip : Chip) (size : Int) : Bool :=
  (List.range size.toNat).all fun i =>
    set.rq.buffer (st.cursor.buffer - size + st.left + set.cfg.busWidth + i) =
      chip.reads set.shown (st.cursor.memory - size + st.left + set.cfg.busWidth + i).toNat

/-- `f3s_iCFI_v2write`, if its loops end within `fuel` passes -/
def v2write (flash : Contents) (fuel : Nat) : Option (Int × Chip) :=
  let pad := set.rq.offset &&& (set.cfg.busWidth - 1)
  match set.window.page (set.rq.offset - pad) (set.rq.size + pad) with
  | none => some (-1, Chip.array flash)
  | some left => do
    let size : Int := left - pad
    let (st, goes) ← set.buffered fuel (set.begin flash left)
    if goes = false then return (-1, st.chip)
    let (st, goes) ← run set.wordPass fuel st
    if goes = false then return (-1, st.chip)
    let chip := st.chip.sendCommand set.cfg.busWidth st.cursor.memory INTEL_READ_STATUS
    if set.intelReadStatus set.status = -1 then return (-1, chip)
    let chip := chip.sendCommand set.cfg.busWidth st.cursor.memory INTEL_READ_ARRAY
    if set.rq.verify = true ∧ set.verified st chip size = false then return (-1, chip)
    return (size, chip)

end Setting

/-! ## What is to hold -/

section Spec

variable (set : Setting) (old : Contents)

/-- The bytes that are written -/
def Setting.count : Nat := set.rq.count set.window

def Setting.target : Contents := set.rq.target old set.count

/-- Every access of the sequence, which is as wide as the bus, lies in one region of the write
buffer. -/
def Setting.InRegion (sequence : Sequence) : Prop :=
  ∃ region, ∀ a ∈ sequence.setup :: sequence.count :: sequence.confirm :: sequence.data,
    set.bufferSize * region ≤ a ∧ a + set.cfg.busWidth ≤ set.bufferSize * region + set.bufferSize

/-- The callout returns with all buffered programs in one region each and the chip in read-array
mode, and if it returns a size, that is of the bytes in the window, which are anded into the array
while nothing else changes. -/
def Right : Prop := ∃ enough ret chip,
  (∀ fuel ≥ enough, set.v2write old fuel = some (ret, chip)) ∧
    (∀ sequence ∈ chip.sequences, set.InRegion sequence) ∧ chip.mode = .array ∧
    (0 ≤ ret → ret = set.count ∧ chip.flash = set.target old)

end Spec

/-! ## When it holds -/

section Conditions

namespace Setting

variable (set : Setting) (old : Contents)

/-- The word that the request begins in -/
def base : Nat := set.rq.offset - set.rq.offset % set.cfg.busWidth

/-- The bytes from there -/
def total : Nat := set.count + set.rq.offset % set.cfg.busWidth

/-- The bytes of the whole words -/
def whole : Nat := set.total - set.total % set.cfg.busWidth

def Buffered : Prop := set.writeBuffer = true ∧ 4 * set.cfg.busWidth ≤ set.total

/-- A byte of the words that are written: of the buffer, or of the array where it is padded -/
def merged (x : Nat) : BitVec 8 :=
  if set.rq.offset ≤ x ∧ x < set.rq.offset + set.count then set.rq.buffer (x - set.rq.offset)
  else old x

/-- The value of the word `m` is all ones, with what the bus does not take of it. -/
def Blank (m : Nat) : Prop :=
  (∀ k < set.cfg.busWidth, set.merged old (m + k) = 0xff) ∧
    ∀ k < 8, set.cfg.busWidth ≤ k → Value.byte set.stale k = 0xff

/-- The whole words of a buffered write lie in one region of the write buffer. -/
def OneRegion : Prop := set.Buffered →
  set.cfg.busWidth ≤ set.bufferSize ∧ set.base % set.bufferSize + set.whole ≤ set.bufferSize

/-- No poll of the word `m` on runs out. -/
def WordsPoll (m : Nat) : Prop := ∀ m', m ≤ m' → m' < set.rq.offset + set.count →
  set.cfg.busWidth ∣ m' → ¬set.Blank old m' → set.busy m' < F3S_I28F008_POLL

/-- No poll runs out: of the buffered write, which begins at the first word and is confirmed at the
last whole one, and of the words that are written one by one. -/
def Polls : Prop :=
  (set.Buffered → set.waits set.base + 1 < F3S_I28F008_POLL ∧
    set.busy (set.base + set.whole - set.cfg.busWidth) < F3S_I28F008_POLL ∧
    set.WordsPoll old (set.base + set.whole)) ∧
  (¬set.Buffered → set.WordsPoll old set.base)

/-- The status register shows no error at the end. -/
def NoError : Prop := set.intelReadStatus set.status ≠ -1

end Setting

end Conditions

/-! ## Polls and commands -/

theorem intelPolls_eq (busy poll reads : Nat) :
    intelPolls busy poll reads = poll - (busy - reads) := by
  induction poll generalizing reads with
  | zero => exact (Nat.zero_sub _).symm
  | succ poll ih =>
    unfold intelPolls
    split
    · omega
    · rw [ih]
      omega

theorem intelPoll_eq (busy : Nat) : intelPoll busy = -1 ↔ F3S_I28F008_POLL ≤ busy := by
  unfold intelPoll
  rw [intelPolls_eq]
  split
  · exact iff_of_true rfl (by omega)
  · exact iff_of_false (by decide) (by omega)

theorem requestPolls_eq (waits poll sent : Nat) :
    requestPolls waits poll sent = poll - (waits - sent + 1) := by
  induction poll generalizing sent with
  | zero => exact (Nat.zero_sub _).symm
  | succ poll ih =>
    unfold requestPolls
    split
    · omega
    · rw [ih]
      omega

theorem requestPolls_zero (waits : Nat) :
    requestPolls waits F3S_I28F008_POLL 0 = 0 ↔ F3S_I28F008_POLL ≤ waits + 1 := by
  rw [requestPolls_eq]
  omega

namespace Chip

variable {chip : Chip} {width memory : Nat}

/-- The chip waits for a command. -/
def Idle (chip : Chip) : Prop := chip.mode = .array ∨ chip.mode = .status

theorem send_idle (idle : chip.Idle) (code : Nat) :
    chip.sendCommand width memory code =
      if code = INTEL_READ_ARRAY then { chip with mode := .array }
      else if code = INTEL_WRITE_BUFFER then { chip with mode := .request memory }
      else if code = INTEL_WRITE then { chip with mode := .program }
      else { chip with mode := .status } := by
  obtain ⟨flash, mode, buffer, sequences⟩ := chip
  rcases idle with mode | mode
  · cases mode
    rfl
  · cases mode
    rfl

theorem send_readArray (idle : chip.Idle) :
    chip.sendCommand width memory INTEL_READ_ARRAY = { chip with mode := .array } := by
  rw [send_idle idle, if_pos rfl]

theorem send_request (idle : chip.Idle) :
    chip.sendCommand width memory INTEL_WRITE_BUFFER = { chip with mode := .request memory } := by
  rw [send_idle idle, if_neg (by decide), if_pos rfl]

theorem send_write (idle : chip.Idle) :
    chip.sendCommand width memory INTEL_WRITE = { chip with mode := .program } := by
  rw [send_idle idle, if_neg (by decide), if_neg (by decide), if_pos rfl]

theorem send_readStatus (idle : chip.Idle) :
    chip.sendCommand width memory INTEL_READ_STATUS = { chip with mode := .status } := by
  rw [send_idle idle, if_neg (by decide), if_neg (by decide), if_neg (by decide)]

theorem send_count {setup : Nat} (mode : chip.mode = .request setup) (code : Nat) :
    chip.sendCommand width memory code =
      { chip with mode := .loading setup memory (code + 1), buffer := [] } := by
  obtain ⟨flash, _, buffer, sequences⟩ := chip
  cases mode
  rfl

theorem send_confirm {setup count words : Nat} (mode : chip.mode = .loading setup count words) :
    chip.sendCommand width memory INTEL_BUFFER_CONFIRM =
      chip.confirmed width setup count words memory := by
  obtain ⟨flash, _, buffer, sequences⟩ := chip
  cases mode
  rfl

theorem writeValues_eq {setup count more : Nat} {words : List (Nat × BitVec 64)}
    (mode : chip.mode = .loading setup count (words.length + more)) :
    words.foldl (writeValue width) chip =
      { chip with mode := .loading setup count more, buffer := chip.buffer ++ words } := by
  induction words generalizing chip with
  | nil =>
    obtain ⟨flash, _, buffer, sequences⟩ := chip
    rw [List.length_nil, Nat.zero_add] at mode
    cases mode
    rw [List.append_nil]
    rfl
  | cons word words ih =>
    have first : chip.writeValue width word =
        { chip with
          buffer := chip.buffer ++ [word]
          mode := .loading setup count (words.length + more) } := by
      unfold writeValue
      rw [mode, List.length_cons, Nat.add_right_comm]
    rw [List.foldl_cons, first, ih rfl]
    dsimp only
    rw [List.append_assoc]
    rfl

end Chip

/-! ## Values -/

namespace Setting

variable {set : Setting} {old : Contents} {m : Nat} {st : Writing}

theorem and_merged (x : Nat) : old x &&& set.merged old x = set.target old x := by
  unfold merged target Request.target
  split
  case isTrue => rfl
  case isFalse => exact BitVec.and_self

/-- The value holds the word `m`, as far as the request goes. -/
structure Ready (set : Setting) (old : Contents) (m : Nat) (cursor : Cursor) : Prop where
  here : cursor.At set.rq m
  begun : set.rq.offset < m + set.cfg.busWidth
  value : ∀ k < set.cfg.busWidth, m + k < set.rq.offset + set.count →
    Value.byte cursor.value k = set.merged old (m + k)
  rest : ∀ k < 8, set.cfg.busWidth ≤ k → Value.byte cursor.value k = Value.byte set.stale k

/-- The pointers are still at the word before `m`. -/
structure Parked (set : Setting) (m : Nat) (cursor : Cursor) : Prop where
  here : ∃ before, m = before + set.cfg.busWidth ∧ cursor.At set.rq before
  begun : set.rq.offset < m
  rest : ∀ k < 8, set.cfg.busWidth ≤ k → Value.byte cursor.value k = Value.byte set.stale k

theorem Ready.parked {cursor : Cursor} (ready : set.Ready old m cursor) :
    set.Parked (m + set.cfg.busWidth) cursor :=
  ⟨⟨m, rfl, ready.here⟩, ready.begun, ready.rest⟩

theorem Parked.load {cursor : Cursor} {n : Nat} (parked : set.Parked m cursor)
    (part : n ≤ set.cfg.busWidth)
    (reaches : set.cfg.busWidth ≤ n ∨ set.rq.offset + set.count ≤ m + n) :
    set.Ready old m ((cursor.next set.cfg).load set.rq n) := by
  obtain ⟨⟨before, rfl, memory, buffer⟩, begun, rest⟩ := parked
  have small := @busWidth_le set.cfg
  refine ⟨⟨?_, ?_⟩, by omega, fun k inside within => ?_, fun k inside beyond => ?_⟩
  · unfold Cursor.load Cursor.next
    rw [memory]
  · unfold Cursor.load Cursor.next
    dsimp only
    omega
  · unfold Cursor.load Cursor.next merged
    dsimp only
    rw [Value.byte_memcpy (by omega), if_pos (by omega), if_pos (by omega)]
    have place : cursor.buffer + set.cfg.busWidth + ((k - 0 : Nat) : Int) =
        ((before + set.cfg.busWidth + k : Nat) : Int) - set.rq.offset := by omega
    rw [place]
  · unfold Cursor.load Cursor.next
    dsimp only
    rw [Value.byte_memcpy inside, if_neg (by omega)]
    exact rest k inside beyond

/-- The value is that of the word `m`. -/
structure Whole (set : Setting) (old : Contents) (m : Nat) (value : BitVec 64) : Prop where
  bytes : ∀ k < set.cfg.busWidth, Value.byte value k = set.merged old (m + k)
  rest : ∀ k < 8, set.cfg.busWidth ≤ k → Value.byte value k = Value.byte set.stale k

theorem Ready.whole {cursor : Cursor} (ready : set.Ready old m cursor)
    (inside : m + set.cfg.busWidth ≤ set.rq.offset + set.count) :
    set.Whole old m cursor.value :=
  ⟨fun k below => ready.value k below (by omega), ready.rest⟩

theorem Whole.fits {value : BitVec 64} (whole : set.Whole old m value) :
    Fits set.cfg.busWidth old (set.target old) m value := by
  intro k inside
  rw [whole.bytes k inside]
  exact and_merged _

theorem Whole.ones_iff {value : BitVec 64} (whole : set.Whole old m value) :
    value = BitVec.allOnes 64 ↔ set.Blank old m := by
  have small := @busWidth_le set.cfg
  rw [Value.eq_ones_iff]
  constructor
  · intro ones
    refine ⟨fun k inside => ?_, fun k inside beyond => ?_⟩
    · rw [← whole.bytes k inside]
      exact ones k (by omega)
    · rw [← whole.rest k inside beyond]
      exact ones k inside
  · intro blank k inside
    obtain ⟨bytes, rest⟩ := blank
    rcases Nat.lt_or_ge k set.cfg.busWidth with below | beyond
    · rw [whole.bytes k below]
      exact bytes k below
    · rw [whole.rest k inside beyond]
      exact rest k inside beyond

theorem Ready.padBack {cursor : Cursor} {flash : Contents} {left : Nat}
    (ready : set.Ready old m cursor) (some_ : 0 < left) (part : left < set.cfg.busWidth)
    (ends : m + left = set.rq.offset + set.count)
    (held : ∀ k < set.cfg.busWidth, flash (m + k) = old (m + k)) :
    set.Whole old m (padValue set.cfg cursor.value (flash.word set.cfg.busWidth m) (left <<< 3)
      false) := by
  have small := @busWidth_le set.cfg
  refine ⟨fun k inside => ?_, fun k inside beyond => ?_⟩
  · rw [byte_padBack some_ part inside]
    split
    case isTrue below => exact ready.value k inside (by omega)
    case isFalse beyond =>
      unfold Contents.word merged
      rw [Value.byte_memcpy (by omega), if_pos (by omega), if_neg (by omega), Nat.sub_zero,
        held k inside]
  · rw [byte_padBeyond beyond inside]
    exact ready.rest k inside beyond

/-! ## Word by word -/

/-- The request is written up to the word `m`. -/
structure Stage (set : Setting) (old : Contents) (m : Nat) (st : Writing) : Prop where
  flash : Upto old (set.target old) m st.chip.flash
  left : st.left = (set.rq.offset + set.count : Nat) - (m : Int)
  aligned : set.cfg.busWidth ∣ m
  idle : st.chip.Idle

/-- The word loop has come to the word `m`. Before the last word the chip shows its array. -/
structure Wording (set : Setting) (old : Contents) (m : Nat) (st : Writing) : Prop where
  stage : set.Stage old m st
  standing : if 0 < st.left then set.Ready old m st.cursor else set.Parked m st.cursor
  shows : 0 < st.left → st.left < set.cfg.busWidth → st.chip.mode = .array

theorem Wording.padded (wording : set.Wording old m st) (some_ : 0 < st.left) :
    ∃ value, set.padded st = { st.cursor with value } ∧ set.Whole old m value := by
  obtain ⟨stage, standing, shows⟩ := wording
  rw [if_pos some_] at standing
  have left := stage.left
  unfold Setting.padded
  split
  case isTrue short =>
    refine ⟨_, rfl, ?_⟩
    have reads : st.chip.reads set.shown = st.chip.flash := if_pos (shows some_ short)
    rw [reads, standing.here.1]
    refine standing.padBack (by omega) (by omega) (by omega) fun k _ => ?_
    rw [stage.flash (m + k), if_neg (by omega)]
  case isFalse long => exact ⟨_, rfl, standing.whole (by omega)⟩

theorem Stage.nextWord (flash : Upto old (set.target old) (m + set.cfg.busWidth) st.chip.flash)
    (left : st.left = (set.rq.offset + set.count : Nat) - (m : Int))
    (aligned : set.cfg.busWidth ∣ m) (idle : st.chip.Idle)
    (parked : set.Parked (m + set.cfg.busWidth) st.cursor) :
    set.Wording old (m + set.cfg.busWidth) (set.nextWord st) ∧
      (set.nextWord st).chip.sequences = st.chip.sequences ∧
      (set.nextWord st).left = st.left - set.cfg.busWidth := by
  have aligned' : set.cfg.busWidth ∣ m + set.cfg.busWidth := Nat.dvd_add aligned (Nat.dvd_refl _)
  unfold Setting.nextWord
  dsimp only
  split
  case isTrue more =>
    have ready := @Parked.load set old _ _ (min set.cfg.busWidth (st.left - set.cfg.busWidth).toNat)
      parked (by omega) (by omega)
    dsimp only
    split
    case isTrue short =>
      rw [Chip.send_readArray idle]
      refine ⟨⟨⟨flash, by dsimp only; omega, aligned', .inl rfl⟩, ?_, fun _ _ => rfl⟩, rfl, rfl⟩
      dsimp only
      rwa [if_pos more]
    case isFalse long =>
      refine ⟨⟨⟨flash, by dsimp only; omega, aligned', idle⟩, ?_, fun _ less => absurd less long⟩,
        rfl, rfl⟩
      dsimp only
      rwa [if_pos more]
  case isFalse none =>
    refine ⟨⟨⟨flash, by dsimp only; omega, aligned', idle⟩, ?_, fun some_ => absurd some_ none⟩,
      rfl, rfl⟩
    dsimp only
    rwa [if_neg none]

/-- A pass of the word loop goes on if the word is not programmed or its poll does not run out. -/
theorem Wording.pass (wording : set.Wording old m st) (some_ : 0 < st.left) :
    (¬set.Blank old m → set.busy m < F3S_I28F008_POLL) ∧
        (∃ st', set.wordPass st = .next st' ∧ set.Wording old (m + set.cfg.busWidth) st' ∧
          st'.chip.sequences = st.chip.sequences ∧ st'.left = st.left - set.cfg.busWidth) ∨
      ¬(¬set.Blank old m → set.busy m < F3S_I28F008_POLL) ∧
        ∃ st', set.wordPass st = .leave (st', false) ∧ st'.chip.mode ≠ .array := by
  obtain ⟨value, padded, whole⟩ := wording.padded some_
  have stage := wording.stage
  have standing := wording.standing
  rw [if_pos some_] at standing
  obtain rfl : st.cursor.memory = m := standing.here.1
  have parked : set.Parked (st.cursor.memory + set.cfg.busWidth) { st.cursor with value } :=
    ⟨⟨_, rfl, standing.here⟩, standing.begun, whole.rest⟩
  unfold wordPass
  rw [if_neg (Int.not_le.mpr some_)]
  dsimp only
  rw [padded]
  by_cases blank : value = BitVec.allOnes 64
  · rw [if_neg (not_not.mpr blank)]
    refine .inl ⟨fun written => absurd (whole.ones_iff.mp blank) written, _, rfl, ?_⟩
    refine @Stage.nextWord set old _ { st with cursor := { st.cursor with value } } ?_ stage.left
      stage.aligned stage.idle parked
    refine stage.flash.skip whole.fits fun k inside => ?_
    have small := @busWidth_le set.cfg
    exact Value.eq_ones_iff.mp blank k (by omega)
  · rw [if_pos blank, Chip.send_write stage.idle]
    by_cases polls : intelPoll (set.busy st.cursor.memory) = -1
    · rw [if_pos polls]
      refine .inr ⟨fun fine => ?_, _, rfl, Mode.noConfusion⟩
      have runs := fine fun ones => blank (whole.ones_iff.mpr ones)
      exact absurd ((intelPoll_eq _).mp polls) (Nat.not_le.mpr runs)
    · rw [if_neg polls]
      refine .inl ⟨fun _ => Nat.lt_of_not_le fun late => polls ((intelPoll_eq _).mpr late), _,
        rfl, ?_⟩
      exact @Stage.nextWord set old _
        { st with
          cursor := { st.cursor with value }
          chip := { st.chip with
            flash := st.chip.flash.program set.cfg.busWidth (st.cursor.memory, value)
            mode := .status } }
        (stage.flash.program whole.fits) stage.left stage.aligned (.inr rfl) parked

theorem wordLoop_ends (wording : set.Wording old m st) :
    ∃ st' goes, Ends set.wordPass st (st', goes) ∧
      (goes = true ∧ set.WordsPoll old m ∧ (∃ m', set.Wording old m' st' ∧ st'.left ≤ 0) ∧
          st'.chip.sequences = st.chip.sequences ∨
        goes = false ∧ ¬set.WordsPoll old m ∧ st'.chip.mode ≠ .array) := by
  generalize height : st.left.toNat = n
  induction n using Nat.strongRecOn generalizing m st with
  | _ n ih =>
    have left := wording.stage.left
    have wide := @busWidth_pos set.cfg
    rcases lt_or_ge (0 : Int) st.left with some_ | none
    · rcases wording.pass some_ with ⟨fine, t, next, wording', same, less⟩ | ⟨late, t, leaves, mode⟩
      · obtain ⟨st', goes, ends, outcome⟩ := ih t.left.toNat (by omega) wording' rfl
        refine ⟨st', goes, (ends_next next).mpr ends, ?_⟩
        rcases outcome with ⟨goes, polls, final, kept⟩ | ⟨stops, runsOut, mode⟩
        · refine .inl ⟨goes, fun m' from_ within aligned written => ?_, final, kept.trans same⟩
          rcases eq_or_ne m' m with rfl | other
          · exact fine written
          · have apart : set.cfg.busWidth ∣ m' - m := Nat.dvd_sub aligned wording.stage.aligned
            have word := Nat.le_of_dvd (by omega) apart
            exact polls m' (by omega) within aligned written
        · exact .inr ⟨stops, fun polls => runsOut fun m' from_ => polls m' (by omega), mode⟩
      · refine ⟨t, false, ends_leave leaves, .inr ⟨rfl, fun polls => late ?_, mode⟩⟩
        exact polls m (Nat.le_refl _) (by omega) wording.stage.aligned
    · have leaves : set.wordPass st = .leave (st, true) := if_pos none
      refine ⟨st, true, ends_leave leaves, .inl ⟨rfl, fun m' from_ within => ?_, ⟨m, wording, none⟩,
        rfl⟩⟩
      omega

/-! ## By the write buffer -/

theorem wholeWords_eq (left : Int) :
    set.wholeWords left = left.toNat - left.toNat % set.cfg.busWidth := by
  unfold wholeWords
  rw [and_mask_eq busWidth_pow]

theorem countCode_succ {words : Nat} (small : words < 2 ^ 64) : countCode (words + 1) = words := by
  unfold countCode
  omega

/-- Before a buffered program at the word `m` -/
structure Buffering (set : Setting) (old : Contents) (m : Nat) (st : Writing) : Prop where
  stage : set.Stage old m st
  ready : set.Ready old m st.cursor
  offset : st.offset = m

/-- Some words in the write buffer. Where the pointers go on behind the last one, they are at the
word behind. -/
theorem loadWords_laid {cursor : Cursor} {chip : Chip} {setup at_ : Nat} {left : Int} (words : Nat)
    (ready : set.Ready old m cursor)
    (inside : m + (words + 1) * set.cfg.busWidth ≤ set.rq.offset + set.count)
    (mode : chip.mode = .loading setup at_ (words + 1)) :
    ∃ last laid,
      set.loadWords left (words + 1) (cursor, chip) =
        (if left ≥ set.cfg.busWidth then
          (last.next set.cfg).load set.rq set.cfg.busWidth else last,
          { chip with mode := .loading setup at_ 0, buffer := chip.buffer ++ laid }) ∧
      Laid set.cfg.busWidth old (set.target old) m laid ∧ laid.length = words + 1 ∧
      set.Ready old (m + words * set.cfg.busWidth) last := by
  let Good : Nat → Cursor → Prop := fun m cursor =>
    set.Ready old m cursor ∧ m + set.cfg.busWidth ≤ set.rq.offset + set.count
  have start : Good m cursor := by
    refine ⟨ready, ?_⟩
    rw [Nat.succ_mul] at inside
    omega
  have steps : ∀ {m' count : Nat} {cursor : Cursor}, 0 < count →
      m' + (count + 1) * set.cfg.busWidth = m + (words + 1) * set.cfg.busWidth → Good m' cursor →
      (decide (count > 0 ∨ left ≥ set.cfg.busWidth) : Bool) = true ∧
        Good (m' + set.cfg.busWidth) ((cursor.next set.cfg).load set.rq set.cfg.busWidth) := by
    intro m' count cursor some_ ends good
    have more : set.cfg.busWidth ≤ count * set.cfg.busWidth := Nat.le_mul_of_pos_left _ some_
    rw [Nat.succ_mul] at ends
    exact ⟨decide_eq_true (.inl some_),
      good.1.parked.load (Nat.le_refl _) (.inl (Nat.le_refl _)), by omega⟩
  obtain ⟨last, laid, fills, each, length, good⟩ :=
    @fillBuffer_laid _ (Chip.writeValue set.cfg.busWidth)
      (fun count => count > 0 ∨ left ≥ set.cfg.busWidth)
      (fun _ cursor => (cursor.next set.cfg).load set.rq set.cfg.busWidth) _ _ _ Good m _ words
      cursor chip (fun good => ⟨good.1.here.1, (good.1.whole good.2).fits⟩) steps start rfl
  refine ⟨last, laid, ?_, each, length, good.1⟩
  have full : chip.mode = .loading setup at_ (laid.length + 0) := by rw [length, mode]
  rw [← Chip.writeValues_eq full]
  refine fills.trans (congrArg (·, _) ?_)
  have last_ : (decide (0 > 0 ∨ left ≥ set.cfg.busWidth) : Bool) = true ↔
      left ≥ set.cfg.busWidth := by
    rw [decide_eq_true_iff]
    exact or_iff_right (Nat.lt_irrefl 0)
  exact if_congr last_ rfl rfl

theorem words_dvd (set : Setting) :
    set.bufferSize < set.cfg.busWidth ∨ set.cfg.busWidth ∣ set.bufferSize := by
  obtain ⟨q, size⟩ := set.power
  exact busWidth_dvd size

/-- After a buffered program of `size` bytes at `m`, with the pointers where it was confirmed: at
the last word if no whole word is left, and else at the one behind -/
structure Programmed (set : Setting) (old : Contents) (m size : Nat) (st : Writing)
    (cursor : Cursor) (chip : Chip) : Prop where
  flash : Upto old (set.target old) (m + size) chip.flash
  mode : chip.mode = .status
  log : ∃ data, chip.sequences = st.chip.sequences ++ [⟨m, m, data, cursor.memory⟩] ∧
    ∀ a ∈ data, m ≤ a ∧ a + set.cfg.busWidth ≤ m + size
  ahead : set.cfg.busWidth ≤ st.left - size → cursor.memory = m + size
  last : st.left - size < set.cfg.busWidth →
    set.Parked (m + size) cursor ∧ cursor.memory + set.cfg.busWidth = m + size

theorem Buffering.pass (buffering : set.Buffering old m st)
    (word : set.cfg.busWidth ∣ set.bufferSize) (enough : set.cfg.busWidth ≤ st.left) :
    F3S_I28F008_POLL ≤ set.waits m + 1 ∧
        (∃ st', set.bufferPass st = .leave (st', false) ∧ st'.chip.mode ≠ .array) ∨
      set.waits m + 1 < F3S_I28F008_POLL ∧ ∃ size cursor chip,
        size = min (min set.bufferSize (st.left.toNat - st.left.toNat % set.cfg.busWidth))
          (set.bufferSize - m % set.bufferSize) ∧
        set.Programmed old m size st cursor chip ∧
        set.bufferPass st =
          if F3S_I28F008_POLL ≤ set.busy cursor.memory then
            .leave (⟨cursor, st.left - size, m + size, chip⟩, false)
          else .next ⟨cursor, st.left - size, m + size, chip⟩ := by
  obtain ⟨stage, ready, rfl⟩ := buffering
  have wide := @busWidth_pos set.cfg
  have small := @busWidth_le set.cfg
  have left := stage.left
  have some_ : 0 < set.bufferSize := by
    obtain ⟨q, size⟩ := set.power
    rw [size]
    exact Nat.two_pow_pos q
  have memory : st.cursor.memory = st.offset := ready.here.1
  unfold bufferPass
  rw [if_neg (Int.not_lt.mpr enough)]
  dsimp only
  rw [Chip.send_request stage.idle, memory]
  rcases Nat.lt_or_ge (set.waits st.offset + 1) F3S_I28F008_POLL with ready_ | late
  · rw [if_neg (mt (requestPolls_zero _).mp (Nat.not_le.mpr ready_))]
    refine .inr ⟨ready_, ?_⟩
    obtain ⟨count, positive, chunk, within, page⟩ :=
      chunk_words word wide some_ stage.aligned (show set.cfg.busWidth ≤ st.left.toNat by omega)
    obtain ⟨words, rfl⟩ : ∃ words, count = words + 1 := ⟨count - 1, by omega⟩
    have size : set.chunk st.left st.offset = (words + 1) * set.cfg.busWidth := by
      unfold Setting.chunk
      rw [wholeWords_eq, and_mask_eq set.power, chunk]
    have bytes : words ≤ words * set.cfg.busWidth := Nat.le_mul_of_pos_right _ wide
    have count_ : set.count ≤ set.window.stop := by
      unfold Setting.count Request.count
      omega
    have window := set.window.fits
    have few : words < 2 ^ 64 := by
      have begun := ready.begun
      rw [Nat.succ_mul] at within
      omega
    rw [size, Nat.mul_div_cancel _ wide, countCode_succ few]
    obtain ⟨last, laid, loads, each, length, atLast⟩ :=
      @loadWords_laid set old st.offset st.cursor
        { st.chip with mode := .loading st.offset st.offset (words + 1), buffer := [] } st.offset
        st.offset (st.left - ((words + 1) * set.cfg.busWidth : Nat)) words ready (by omega) rfl
    rw [Chip.send_count rfl, loads]
    dsimp only
    rw [Chip.send_confirm rfl]
    generalize behind : (if st.left - ((words + 1) * set.cfg.busWidth : Nat) ≥ set.cfg.busWidth then
      (last.next set.cfg).load set.rq set.cfg.busWidth else last) = cursor
    have ends : st.offset + words * set.cfg.busWidth + set.cfg.busWidth =
        st.offset + (words + 1) * set.cfg.busWidth := by
      rw [Nat.succ_mul, Nat.add_assoc]
    refine ⟨(words + 1) * set.cfg.busWidth, cursor, _, chunk.symm, ⟨?_, rfl, ?_, ?_, ?_⟩,
      if_congr (intelPoll_eq _) rfl rfl⟩
    · have upto := each.upto stage.flash
      rwa [length] at upto
    · refine ⟨laid.map Prod.fst, rfl, fun a member => ?_⟩
      obtain ⟨word, inside, rfl⟩ := List.mem_map.mp member
      have place := each.mem word inside
      rwa [length] at place
    · intro more
      rw [if_pos more] at behind
      rw [← behind, ← ends]
      exact congrArg (· + set.cfg.busWidth) atLast.here.1
    · intro less
      rw [if_neg (Int.not_le.mpr less)] at behind
      rw [← behind, ← ends]
      exact ⟨atLast.parked, congrArg (· + set.cfg.busWidth) atLast.here.1⟩
  · rw [if_pos ((requestPolls_zero _).mpr late)]
    exact .inl ⟨late, _, rfl, Mode.noConfusion⟩

/-! ## The request -/

theorem base_add (set : Setting) : set.base + set.rq.offset % set.cfg.busWidth = set.rq.offset :=
  Nat.sub_add_cancel (Nat.mod_le _ _)

theorem page_begin (inside : set.rq.offset < set.window.stop) :
    set.window.page set.base (set.rq.size + set.rq.offset % set.cfg.busWidth) = some set.total := by
  have base := set.base_add
  unfold Window.page total Setting.count Request.count
  rw [if_pos (by omega)]
  refine congrArg some ?_
  omega

theorem begin_buffering (old : Contents) :
    set.Buffering old set.base (set.begin old set.total) ∧
      (set.begin old set.total).chip = Chip.array old ∧
      (set.begin old set.total).left = set.total := by
  have small := @busWidth_le set.cfg
  have part := Nat.mod_lt set.rq.offset (@busWidth_pos set.cfg)
  have base := set.base_add
  have total : set.total = set.count + set.rq.offset % set.cfg.busWidth := rfl
  have masked : set.rq.offset &&& (set.cfg.busWidth - 1) = set.rq.offset % set.cfg.busWidth :=
    and_mask_eq busWidth_pow
  generalize begun : set.begin old set.total = st
  unfold begin at begun
  dsimp only at begun
  rw [masked] at begun
  have held : ∀ k < set.cfg.busWidth,
      Value.byte (((Chip.array old).reads set.shown).word set.cfg.busWidth set.base) k =
        old (set.base + k) := by
    intro k inside
    unfold Contents.word
    rw [Value.byte_memcpy (by omega), if_pos (by omega), Nat.sub_zero]
    rfl
  generalize taken : Value.memcpy set.stale (set.rq.offset % set.cfg.busWidth)
    (fun k => set.rq.buffer k)
    (min set.cfg.busWidth set.total - set.rq.offset % set.cfg.busWidth) = value at begun
  have loaded : ∀ k < set.cfg.busWidth, set.rq.offset % set.cfg.busWidth ≤ k →
      set.base + k < set.rq.offset + set.count →
      Value.byte value k = set.merged old (set.base + k) := by
    intro k inside above within
    have place : ((k - set.rq.offset % set.cfg.busWidth : Nat) : Int) =
        ((set.base + k : Nat) : Int) - set.rq.offset := by omega
    unfold merged
    rw [← taken, Value.byte_memcpy (by omega), if_pos (by omega), if_pos (by omega), place]
  have beyond : ∀ k < 8, set.cfg.busWidth ≤ k → Value.byte value k = Value.byte set.stale k := by
    intro k inside beyond
    rw [← taken, Value.byte_memcpy inside, if_neg (by omega)]
  rw [← begun]
  refine ⟨⟨⟨?_, ?_, ?_, .inl rfl⟩, ⟨⟨rfl, ?_⟩, ?_, ?_, ?_⟩, rfl⟩, rfl, rfl⟩
  · exact Upto.start old _ fun x below => Request.target_outside (.inl (by omega))
  · dsimp only
    omega
  · exact Nat.dvd_sub_mod _
  · dsimp only
    omega
  · omega
  · intro k inside within
    dsimp only
    split
    case isTrue =>
      rw [byte_padFront part (by omega)]
      split
      case isTrue below =>
        unfold merged
        rw [if_neg (by omega)]
        exact held k inside
      case isFalse above => exact loaded k inside (Nat.le_of_not_lt above) within
    case isFalse unpadded => exact loaded k inside (by omega) within
  · intro k inside beyond_
    dsimp only
    split
    case isTrue =>
      rw [byte_padBeyond beyond_ inside]
      exact beyond k inside beyond_
    case isFalse => exact beyond k inside beyond_

/-- No poll of the buffered write runs out. -/
def BufferPolls (set : Setting) : Prop := set.waits set.base + 1 < F3S_I28F008_POLL ∧
  set.busy (set.base + set.whole - set.cfg.busWidth) < F3S_I28F008_POLL

theorem whole_spec (set : Setting) (buffered : set.Buffered) :
    set.cfg.busWidth ∣ set.whole ∧ set.cfg.busWidth ≤ set.whole ∧ set.whole ≤ set.total ∧
      set.total < set.whole + set.cfg.busWidth := by
  have wide := @busWidth_pos set.cfg
  have part := Nat.mod_lt set.total wide
  have below := Nat.mod_le set.total set.cfg.busWidth
  have long := buffered.2
  unfold whole
  exact ⟨Nat.dvd_sub_mod _, by omega, by omega, by omega⟩

theorem Stage.rest (stage : set.Stage old m st) (parked : set.Parked m st.cursor)
    (short : st.left < set.cfg.busWidth) (some_ : 0 ≤ st.left) :
    ∃ st', (if true = true ∧ st.left ≠ 0 then
        let cursor := (st.cursor.next set.cfg).load set.rq (min st.left.toNat set.cfg.busWidth)
        ({ st with
            cursor
            chip := st.chip.sendCommand set.cfg.busWidth cursor.memory INTEL_READ_ARRAY }, true)
      else (st, true)) = (st', true) ∧ set.Wording old m st' ∧
        st'.chip.sequences = st.chip.sequences := by
  have left := stage.left
  by_cases none : st.left = 0
  · rw [if_neg fun both => both.2 none]
    refine ⟨st, rfl, ⟨stage, ?_, fun more => absurd none (by omega)⟩, rfl⟩
    rwa [if_neg (by omega)]
  · rw [if_pos ⟨rfl, none⟩]
    dsimp only
    rw [Chip.send_readArray stage.idle]
    refine ⟨_, rfl, ⟨⟨stage.flash, stage.left, stage.aligned, .inl rfl⟩, ?_, fun _ _ => rfl⟩, rfl⟩
    rw [if_pos (show (0 : Int) < st.left by omega)]
    exact parked.load (Nat.min_le_right _ _) (.inr (by omega))

theorem buffered_one (old : Contents) (buffered : set.Buffered)
    (wide : set.cfg.busWidth ≤ set.bufferSize)
    (region : set.base % set.bufferSize + set.whole ≤ set.bufferSize) :
    ∃ enough st goes,
      (∀ fuel ≥ enough, set.buffered fuel (set.begin old set.total) = some (st, goes)) ∧
        (goes = true ∧ set.BufferPolls ∧ set.Wording old (set.base + set.whole) st ∧
            (∀ sequence ∈ st.chip.sequences, set.InRegion sequence) ∨
          goes = false ∧ ¬set.BufferPolls ∧ st.chip.mode ≠ .array) := by
  obtain ⟨buffering, chip, left⟩ := @begin_buffering set old
  obtain ⟨words, long, below, above⟩ := set.whole_spec buffered
  have word := set.words_dvd.resolve_left (Nat.not_lt.mpr wide)
  have chosen : set.writeBuffer = true ∧
      (set.begin old set.total).left ≥ 4 * set.cfg.busWidth := by
    refine ⟨buffered.1, ?_⟩
    have enough := buffered.2
    omega
  have runs : ∀ {st goes}, Ends set.bufferPass (set.begin old set.total) (st, goes) →
      ∃ enough, ∀ fuel ≥ enough, set.buffered fuel (set.begin old set.total) =
        some (if goes = true ∧ st.left ≠ 0 then
          let cursor := (st.cursor.next set.cfg).load set.rq (min st.left.toNat set.cfg.busWidth)
          ({ st with
              cursor
              chip := st.chip.sendCommand set.cfg.busWidth cursor.memory INTEL_READ_ARRAY }, goes)
        else (st, goes)) := by
    intro st goes ends
    obtain ⟨enough, done⟩ := ends
    refine ⟨enough, fun fuel more => ?_⟩
    unfold Setting.buffered
    rw [if_pos chosen, run_mono more done]
    rfl
  rcases buffering.pass word (by omega) with
    ⟨late, t, leaves, mode⟩ | ⟨soon, size, cursor, chip', chunk, programmed, pass⟩
  · obtain ⟨enough, runs⟩ := runs (ends_leave leaves)
    exact ⟨enough, t, false, runs, .inr ⟨rfl, fun polls => by have soon := polls.1; omega, mode⟩⟩
  · have whole : size = set.whole := by
      rw [chunk, left, Int.toNat_natCast]
      unfold Setting.whole at region ⊢
      omega
    subst whole
    obtain ⟨flash, mode, ⟨data, log, inside⟩, _, last⟩ := programmed
    obtain ⟨parked, memory⟩ := last (by omega)
    have confirmed : set.base + set.whole - set.cfg.busWidth = cursor.memory := by omega
    rcases Nat.lt_or_ge (set.busy cursor.memory) F3S_I28F008_POLL with fine | late
    · rw [if_neg (Nat.not_le.mpr fine)] at pass
      generalize after : (⟨cursor, _, _, chip'⟩ : Writing) = t at pass
      have base := set.base_add
      have total : set.total = set.count + set.rq.offset % set.cfg.busWidth := rfl
      have stage : set.Stage old (set.base + set.whole) t := by
        rw [← after]
        refine ⟨flash, ?_, Nat.dvd_add buffering.stage.aligned words, .inr mode⟩
        dsimp only
        omega
      have left' : t.left = (set.total : Int) - set.whole := by
        rw [← after, left]
      have leaves : set.bufferPass t = .leave (t, true) := if_pos (by omega)
      obtain ⟨enough, runs⟩ := runs ((ends_next pass).mpr (ends_leave leaves))
      have parked' : set.Parked (set.base + set.whole) t.cursor := by
        rwa [← after]
      obtain ⟨st', rest, wording, kept⟩ := stage.rest parked' (by omega) (by omega)
      refine ⟨enough, st', true, fun fuel more => (runs fuel more).trans (congrArg some rest),
        .inl ⟨rfl, ⟨soon, ?_⟩, wording, ?_⟩⟩
      · rwa [confirmed]
      · rw [kept, ← after, log, chip]
        intro sequence member
        obtain rfl := List.mem_singleton.mp member
        have parts := Nat.div_add_mod set.base set.bufferSize
        refine ⟨set.base / set.bufferSize, fun a access => ?_⟩
        have within : set.base ≤ a ∧ a + set.cfg.busWidth ≤ set.base + set.whole := by
          rcases List.mem_cons.mp access with setup | access
          · obtain rfl : a = set.base := setup
            omega
          rcases List.mem_cons.mp access with count | access
          · obtain rfl : a = set.base := count
            omega
          rcases List.mem_cons.mp access with confirm | access
          · obtain rfl : a = cursor.memory := confirm
            omega
          exact inside a access
        omega
    · rw [if_pos late] at pass
      obtain ⟨enough, runs⟩ := runs (ends_leave pass)
      refine ⟨enough, _, false, runs, .inr ⟨rfl, fun polls => ?_, ?_⟩⟩
      · have soon := polls.2
        rw [confirmed] at soon
        omega
      · rw [mode]
        exact Mode.noConfusion

/-! ### More than one region -/

section Log

variable {sequence : Sequence}

theorem logged_send {chip : Chip} {memory : Nat} (code : Nat) (logged : sequence ∈ chip.sequences) :
    sequence ∈ (chip.sendCommand set.cfg.busWidth memory code).sequences := by
  obtain ⟨flash, mode, buffer, sequences⟩ := chip
  unfold Chip.sendCommand
  cases mode with
  | request setup => exact logged
  | loading setup count words =>
    dsimp only
    split
    · exact List.mem_append_left _ logged
    · exact logged
  | array | status | program =>
    dsimp only
    split_ifs <;> exact logged

theorem logged_write {chip : Chip} (word : Nat × BitVec 64) (logged : sequence ∈ chip.sequences) :
    sequence ∈ (chip.writeValue set.cfg.busWidth word).sequences := by
  unfold Chip.writeValue
  split <;> exact logged

theorem logged_loadWords {chip : Chip} {cursor : Cursor} (left : Int) (count : Nat)
    (logged : sequence ∈ chip.sequences) :
    sequence ∈ (set.loadWords left count (cursor, chip)).2.sequences :=
  @fillBuffer_keeps _ _ _ _ (fun chip : Chip => sequence ∈ chip.sequences) logged_write _ _ _ logged

/-- Where a pass comes to, whether it leaves the loop or not -/
def after : Pass Writing Left → Writing
  | .leave left => left.1
  | .next st => st

theorem logged_bufferPass (logged : sequence ∈ st.chip.sequences) :
    sequence ∈ (after (set.bufferPass st)).chip.sequences := by
  have sent := @logged_send set _ _ st.cursor.memory INTEL_WRITE_BUFFER logged
  unfold bufferPass
  split
  case isTrue => exact logged
  case isFalse =>
    dsimp only
    split
    case isTrue => exact sent
    case isFalse =>
      split
      · exact logged_send _ (logged_loadWords _ _ (logged_send _ sent))
      · exact logged_send _ (logged_loadWords _ _ (logged_send _ sent))

theorem logged_nextWord (logged : sequence ∈ st.chip.sequences) :
    sequence ∈ (set.nextWord st).chip.sequences := by
  unfold nextWord
  dsimp only
  split
  case isFalse => exact logged
  case isTrue =>
    dsimp only
    split
    · exact logged_send _ logged
    · exact logged

theorem logged_wordPass (logged : sequence ∈ st.chip.sequences) :
    sequence ∈ (after (set.wordPass st)).chip.sequences := by
  unfold wordPass
  split
  case isTrue => exact logged
  case isFalse =>
    dsimp only
    split
    case isFalse => exact @logged_nextWord set { st with cursor := set.padded st } _ logged
    case isTrue =>
      have written := fun memory word =>
        @logged_write set _ _ word (@logged_send set _ _ memory INTEL_WRITE logged)
      split
      · exact written _ _
      · exact logged_nextWord (written _ _)

theorem logged_ends {pass : Writing → Pass Writing Left} {left : Left}
    (keeps : ∀ {st}, sequence ∈ st.chip.sequences → sequence ∈ (after (pass st)).chip.sequences)
    (ends : Ends pass st left) (logged : sequence ∈ (after (pass st)).chip.sequences) :
    sequence ∈ left.1.chip.sequences := by
  cases first : pass st with
  | leave other =>
    rw [first] at logged
    cases (ends_leave first).unique ends
    exact logged
  | next t =>
    rw [first] at logged
    obtain ⟨u, here, leaves⟩ := @Ends.leaves _ _ _ _ _ (fun st => sequence ∈ st.chip.sequences)
      ((ends_next first).mp ends) logged fun {st t} logged next => by
        have kept := keeps logged
        rwa [next] at kept
    have kept := @keeps u here
    rwa [leaves] at kept

end Log

theorem Buffering.smallPass (buffering : set.Buffering old m st)
    (small : set.bufferSize < set.cfg.busWidth) (enough : set.cfg.busWidth ≤ st.left) :
    (∃ st', set.bufferPass st = .leave (st', false) ∧ st'.chip.mode ≠ .array) ∨
      ⟨m, m, [], m⟩ ∈ (after (set.bufferPass st)).chip.sequences := by
  obtain ⟨stage, ready, rfl⟩ := buffering
  have memory : st.cursor.memory = st.offset := ready.here.1
  have none : set.chunk st.left st.offset / set.cfg.busWidth = 0 := by
    refine Nat.div_eq_of_lt ?_
    unfold Setting.chunk
    omega
  unfold bufferPass
  rw [if_neg (Int.not_lt.mpr enough)]
  dsimp only
  rw [Chip.send_request stage.idle, none, Chip.send_count rfl, memory]
  split
  case isTrue => exact .inl ⟨_, rfl, Mode.noConfusion⟩
  case isFalse =>
    refine .inr ?_
    have loads : ∀ left here, set.loadWords left 0 here = here := fun _ _ => rfl
    rw [loads]
    dsimp only
    rw [Chip.send_confirm rfl, memory]
    split
    · exact List.mem_append_right _ (List.mem_singleton_self _)
    · exact List.mem_append_right _ (List.mem_singleton_self _)

/-- Otherwise the first buffered program, if there is one, is not within one region. -/
theorem first_spoils (old : Contents) (buffered : set.Buffered) (more : ¬set.OneRegion) :
    (∃ st', set.bufferPass (set.begin old set.total) = .leave (st', false) ∧
        st'.chip.mode ≠ .array) ∨
      ∃ sequence, ¬set.InRegion sequence ∧
        sequence ∈ (after (set.bufferPass (set.begin old set.total))).chip.sequences := by
  obtain ⟨buffering, chip, left⟩ := @begin_buffering set old
  obtain ⟨words, long, below, above⟩ := set.whole_spec buffered
  rcases set.words_dvd with small | word
  · rcases buffering.smallPass small (by omega) with leaves | logged
    · exact .inl leaves
    · refine .inr ⟨_, fun inRegion => ?_, logged⟩
      obtain ⟨region, within⟩ := inRegion
      have setup := within set.base (List.mem_cons_self)
      omega
  · rcases buffering.pass word (by omega) with
      ⟨_, leaves⟩ | ⟨_, size, cursor, chip', chunk, programmed, pass⟩
    · exact .inl leaves
    · have some_ : 0 < set.bufferSize := by
        obtain ⟨q, size⟩ := set.power
        rw [size]
        exact Nat.two_pow_pos q
      have wide := Nat.le_of_dvd some_ word
      have part := Nat.mod_lt set.base some_
      have outside : set.bufferSize < set.base % set.bufferSize + set.whole := by
        by_contra fits
        exact more fun _ => ⟨wide, Nat.not_lt.mp fits⟩
      have next : set.base + (set.bufferSize - set.base % set.bufferSize) =
          set.bufferSize * (set.base / set.bufferSize + 1) := by
        have parts := Nat.div_add_mod set.base set.bufferSize
        rw [Nat.mul_succ]
        omega
      have size_eq : size = set.bufferSize - set.base % set.bufferSize := by
        rw [chunk, left, Int.toNat_natCast]
        unfold Setting.whole at outside
        omega
      have inPage : set.cfg.busWidth ∣ size := by
        rw [size_eq]
        exact Nat.dvd_sub word ((Nat.dvd_mod_iff word).mpr buffering.stage.aligned)
      have rest := Nat.le_of_dvd (by omega) (Nat.dvd_sub words inPage)
      obtain ⟨data, log, _⟩ := programmed.log
      have confirm : cursor.memory = set.bufferSize * (set.base / set.bufferSize + 1) := by
        rw [programmed.ahead (by omega), size_eq, next]
      refine .inr ⟨⟨set.base, set.base, data, cursor.memory⟩, fun inRegion => ?_, ?_⟩
      · obtain ⟨region, within⟩ := inRegion
        have setup := within set.base (List.mem_cons_self)
        have confirmed := within cursor.memory
          (List.mem_cons_of_mem _ (List.mem_cons_of_mem _ List.mem_cons_self))
        rw [confirm] at confirmed
        have first : region ≤ set.base / set.bufferSize := by
          rw [Nat.le_div_iff_mul_le some_, Nat.mul_comm]
          exact setup.1
        have last := Nat.mul_le_mul_left set.bufferSize first
        rw [Nat.mul_succ] at confirmed
        have word' := @busWidth_pos set.cfg
        omega
      · rw [pass]
        split
        · exact log ▸ List.mem_append_right _ (List.mem_singleton_self _)
        · exact log ▸ List.mem_append_right _ (List.mem_singleton_self _)

/-! ### The whole callout -/

/-- The callout from its word loop on -/
def finish (set : Setting) (fuel : Nat) : Left → Option (Int × Chip)
  | (st, goes) => do
    if goes = false then return (-1, st.chip)
    let (st, goes) ← run set.wordPass fuel st
    if goes = false then return (-1, st.chip)
    let chip := st.chip.sendCommand set.cfg.busWidth st.cursor.memory INTEL_READ_STATUS
    if set.intelReadStatus set.status = -1 then return (-1, chip)
    let chip := chip.sendCommand set.cfg.busWidth st.cursor.memory INTEL_READ_ARRAY
    if set.rq.verify = true ∧ set.verified st chip set.count = false then return (-1, chip)
    return (set.count, chip)

theorem v2write_eq (old : Contents) (inside : set.rq.offset < set.window.stop) (fuel : Nat) :
    set.v2write old fuel =
      (set.buffered fuel (set.begin old set.total)).bind (set.finish fuel) := by
  have masked : set.rq.offset &&& (set.cfg.busWidth - 1) = set.rq.offset % set.cfg.busWidth :=
    and_mask_eq busWidth_pow
  have size : (set.total : Int) - (set.rq.offset % set.cfg.busWidth : Nat) = set.count := by
    unfold total
    omega
  have page := page_begin inside
  unfold base at page
  unfold v2write
  dsimp only
  rw [masked, page]
  dsimp only
  rw [size]
  rfl

/-- What the callout returns after its word loop -/
def finished (set : Setting) (st : Writing) : Int × Chip :=
  let chip := st.chip.sendCommand set.cfg.busWidth st.cursor.memory INTEL_READ_STATUS
  let chip' := chip.sendCommand set.cfg.busWidth st.cursor.memory INTEL_READ_ARRAY
  if set.intelReadStatus set.status = -1 then (-1, chip)
  else if set.rq.verify = true ∧ set.verified st chip' set.count = false then (-1, chip')
  else (set.count, chip')

theorem finish_ends {t : Writing} {goes : Bool} {fuel : Nat}
    (done : run set.wordPass fuel st = some (t, goes)) :
    set.finish fuel (st, true) = some (if goes = false then (-1, t.chip) else set.finished t) := by
  unfold Setting.finish finished
  simp only [Bool.true_eq_false, if_false, done, Option.bind_eq_bind, Option.bind_some,
    Option.pure_def]
  split_ifs <;> rfl

theorem logged_finished {sequence : Sequence} (logged : sequence ∈ st.chip.sequences) :
    sequence ∈ (set.finished st).2.sequences := by
  have status := fun memory => @logged_send set _ _ memory INTEL_READ_STATUS logged
  unfold finished
  dsimp only
  split_ifs
  · exact status _
  · exact logged_send _ (status _)
  · exact logged_send _ (status _)

theorem logged_finish {sequence : Sequence} {fuel : Nat} {left : Left} {ret : Int} {chip : Chip}
    (returns : set.finish fuel left = some (ret, chip))
    (logged : sequence ∈ left.1.chip.sequences) : sequence ∈ chip.sequences := by
  obtain ⟨st, goes⟩ := left
  cases goes with
  | false =>
    cases returns
    exact logged
  | true =>
    cases done : run set.wordPass fuel st with
    | none =>
      unfold Setting.finish at returns
      simp only [Bool.true_eq_false, if_false, done, Option.bind_eq_bind, Option.bind_none]
        at returns
      cases returns
    | some ended =>
      obtain ⟨t, goes⟩ := ended
      have kept := logged_ends logged_wordPass ⟨fuel, done⟩ (logged_wordPass logged)
      rw [finish_ends done] at returns
      obtain rfl := congrArg Prod.snd (Option.some.inj returns)
      split
      · exact kept
      · exact logged_finished kept

/-- After the words: the chip shows its array again unless a poll ran out or an error shows. -/
theorem Wording.finish (wording : set.Wording old m st) : ∃ enough ret chip,
    (∀ fuel ≥ enough, set.finish fuel (st, true) = some (ret, chip)) ∧
      (chip.mode = .array → set.WordsPoll old m ∧ set.NoError) ∧
      (set.WordsPoll old m → set.NoError → chip.mode = .array ∧
        chip.sequences = st.chip.sequences ∧
        (0 ≤ ret → ret = set.count ∧ chip.flash = set.target old)) := by
  obtain ⟨t, goes, ⟨enough, done⟩, outcome⟩ := wordLoop_ends wording
  rcases outcome with ⟨rfl, polls, ⟨m', last, none⟩, kept⟩ | ⟨rfl, late, mode⟩
  · refine ⟨enough, (set.finished t).1, (set.finished t).2,
      fun fuel more => finish_ends (run_mono more done), ?_⟩
    have left := last.stage.left
    have written : t.chip.flash = set.target old :=
      last.stage.flash.all fun x beyond => Request.target_outside (.inr (by omega))
    unfold finished
    dsimp only
    rw [Chip.send_readStatus last.stage.idle, Chip.send_readArray (.inr rfl)]
    by_cases error : set.intelReadStatus set.status = -1
    · rw [if_pos error]
      exact ⟨Mode.noConfusion, fun _ fine => absurd error fine⟩
    · rw [if_neg error]
      split
      case isTrue => exact ⟨fun _ => ⟨polls, error⟩, fun _ _ => ⟨rfl, kept, fun some_ => by omega⟩⟩
      case isFalse =>
        exact ⟨fun _ => ⟨polls, error⟩, fun _ _ => ⟨rfl, kept, fun _ => ⟨rfl, written⟩⟩⟩
  · exact ⟨enough, -1, t.chip, fun fuel more => finish_ends (run_mono more done),
      fun array => absurd array mode, fun polls => absurd polls late⟩

/-- If the whole words are in one region, the loop by the write buffer comes to the words that are
left, or a poll runs out. -/
theorem buffered_ends (old : Contents) (inside : set.rq.offset < set.window.stop)
    (one : set.OneRegion) : ∃ enough st goes,
    (∀ fuel ≥ enough, set.buffered fuel (set.begin old set.total) = some (st, goes)) ∧
      (goes = true ∧ (∃ m, set.Wording old m st ∧ (set.Polls old ↔ set.WordsPoll old m)) ∧
          (∀ sequence ∈ st.chip.sequences, set.InRegion sequence) ∨
        goes = false ∧ ¬set.Polls old ∧ st.chip.mode ≠ .array) := by
  by_cases buffered : set.Buffered
  · obtain ⟨wide, region⟩ := one buffered
    obtain ⟨enough, st, goes, runs, outcome⟩ := buffered_one old buffered wide region
    refine ⟨enough, st, goes, runs, ?_⟩
    rcases outcome with ⟨goes, polls, wording, regions⟩ | ⟨stops, late, mode⟩
    · refine .inl ⟨goes, ⟨_, wording, ?_⟩, regions⟩
      exact ⟨fun all => (all.1 buffered).2.2,
        fun words => ⟨fun _ => ⟨polls.1, polls.2, words⟩, fun none => absurd buffered none⟩⟩
    · refine .inr ⟨stops, fun all => late ?_, mode⟩
      exact ⟨(all.1 buffered).1, (all.1 buffered).2.1⟩
  · obtain ⟨buffering, chip, left⟩ := @begin_buffering set old
    have positive : (0 : Int) < set.total := by
      have some_ := set.rq.positive
      unfold total Setting.count Request.count
      omega
    have skipped : ¬(set.writeBuffer = true ∧
        (set.begin old set.total).left ≥ 4 * set.cfg.busWidth) := by
      rintro ⟨chosen, long⟩
      exact buffered ⟨chosen, by omega⟩
    refine ⟨0, _, true, fun fuel _ => if_neg skipped,
      .inl ⟨rfl, ⟨set.base, ⟨buffering.stage, ?_, ?_⟩, ?_⟩, ?_⟩⟩
    · rw [left, if_pos positive]
      exact buffering.ready
    · intro _ _
      rw [chip]
      rfl
    · exact ⟨fun all => all.2 buffered,
        fun words => ⟨fun chosen => absurd chosen buffered, fun _ => words⟩⟩
    · rw [chip]
      exact fun sequence none => absurd none List.not_mem_nil

/-- Within one region, the chip shows its array again unless a poll runs out or an error shows. -/
theorem writes (old : Contents) (inside : set.rq.offset < set.window.stop) (one : set.OneRegion) :
    ∃ enough ret chip, (∀ fuel ≥ enough, set.v2write old fuel = some (ret, chip)) ∧
      (chip.mode = .array → set.Polls old ∧ set.NoError) ∧
      (set.Polls old → set.NoError → chip.mode = .array ∧
        (∀ sequence ∈ chip.sequences, set.InRegion sequence) ∧
        (0 ≤ ret → ret = set.count ∧ chip.flash = set.target old)) := by
  obtain ⟨enough, st, goes, runs, outcome⟩ := buffered_ends old inside one
  rcases outcome with ⟨rfl, ⟨m, wording, polls⟩, regions⟩ | ⟨rfl, late, mode⟩
  · obtain ⟨enough', ret, chip, finishes, only, right⟩ := wording.finish
    refine ⟨max enough enough', ret, chip, fun fuel more => ?_, fun array => ?_,
      fun fine none => ?_⟩
    · rw [v2write_eq old inside, runs fuel (by omega)]
      exact finishes fuel (by omega)
    · exact ⟨polls.mpr (only array).1, (only array).2⟩
    · obtain ⟨array, kept, written⟩ := right (polls.mp fine) none
      exact ⟨array, kept ▸ regions, written⟩
  · refine ⟨enough, -1, st.chip, fun fuel more => ?_, fun array => absurd array mode,
      fun polls => absurd polls late⟩
    rw [v2write_eq old inside, runs fuel more]
    rfl

theorem not_right (old : Contents) (inside : set.rq.offset < set.window.stop)
    (more : ¬set.OneRegion) : ¬Right set old := by
  rintro ⟨enough, ret, chip, returns, regions, mode, _⟩
  have buffered : set.Buffered := by
    by_contra none
    exact more fun chosen => absurd chosen none
  have chosen : set.writeBuffer = true ∧
      (set.begin old set.total).left ≥ 4 * set.cfg.busWidth := by
    have left := (@begin_buffering set old).2.2
    have long := buffered.2
    exact ⟨buffered.1, by omega⟩
  rcases first_spoils old buffered more with ⟨t, leaves, spoilt⟩ | ⟨sequence, outside, logged⟩
  · obtain ⟨enough', done⟩ := ends_leave leaves
    have once := returns (max enough enough') (Nat.le_max_left _ _)
    rw [v2write_eq old inside] at once
    unfold Setting.buffered at once
    rw [if_pos chosen, run_mono (Nat.le_max_right _ _) done] at once
    cases once
    exact spoilt mode
  · have once := returns enough (Nat.le_refl _)
    rw [v2write_eq old inside] at once
    unfold Setting.buffered at once
    rw [if_pos chosen] at once
    cases done : run set.bufferPass enough (set.begin old set.total) with
    | none =>
      rw [done] at once
      cases once
    | some left =>
      obtain ⟨t, goes⟩ := left
      have kept := logged_ends logged_bufferPass ⟨enough, done⟩ logged
      rw [done, Option.map_some, Option.bind_some] at once
      dsimp only at once
      by_cases rest : goes = true ∧ t.left ≠ 0
      · rw [if_pos rest] at once
        exact outside (regions sequence (logged_finish once (logged_send _ kept)))
      · rw [if_neg rest] at once
        exact outside (regions sequence (logged_finish once kept))

end Setting

/-! ## When the callout is right -/

/-- The callout is right if and only if the whole words of a buffered write lie in one region of the
write buffer, no poll runs out and no error shows. -/
theorem v2write_iff (set : Setting) (old : Contents) (inside : set.rq.offset < set.window.stop) :
    Right set old ↔ set.OneRegion ∧ set.Polls old ∧ set.NoError := by
  constructor
  · intro right
    have one : set.OneRegion := by
      by_contra more
      exact Setting.not_right old inside more right
    obtain ⟨enough, ret, chip, returns, _, mode, _⟩ := right
    obtain ⟨enough', ret', chip', returns', only, _⟩ := Setting.writes old inside one
    have first := returns (max enough enough') (Nat.le_max_left _ _)
    have second := returns' (max enough enough') (Nat.le_max_right _ _)
    cases first.symm.trans second
    exact ⟨one, only mode⟩
  · intro conditions
    obtain ⟨one, polls, none⟩ := conditions
    obtain ⟨enough, ret, chip, returns, _, right⟩ := Setting.writes old inside one
    obtain ⟨array, regions, written⟩ := right polls none
    exact ⟨enough, ret, chip, returns, regions, array, written⟩

/-! ## Writes across regions -/

/-- Two interleaved chips that are ready at once and show no error, with a window of 64 bytes -/
def ready (bufferSize offset size : Nat) (power : ∃ q, bufferSize = 2 ^ q) (positive : 0 < size) :
    Setting where
  cfg := ⟨1, 2, 0x0101, pair_supported⟩
  bufferSize := bufferSize
  writeBuffer := true
  window := ⟨64, by decide⟩
  rq := ⟨offset, size, fun i => BitVec.ofInt 8 (0x10 + i), true, positive⟩
  stale := 0
  waits _ := 0
  busy _ := 0
  status := 0x8080
  shown _ := 0x80
  power := power

theorem v2write_small : (ready 32 5 20 ⟨5, rfl⟩ (by decide)).rq.offset < 64 ∧
    Right (ready 32 5 20 ⟨5, rfl⟩ (by decide)) fun _ => 0xff := by
  refine ⟨by decide, ?_⟩
  have region : (ready 32 5 20 ⟨5, rfl⟩ (by decide)).OneRegion := fun _ => by decide
  have words : ∀ m, (ready 32 5 20 ⟨5, rfl⟩ (by decide)).WordsPoll (fun _ => 0xff) m :=
    fun _ _ _ _ _ _ => show 0 < F3S_I28F008_POLL by decide
  have none : (ready 32 5 20 ⟨5, rfl⟩ (by decide)).intelReadStatus 0x8080 ≠ -1 := by decide
  exact (v2write_iff _ _ (by decide)).mpr
    ⟨region, ⟨fun _ => ⟨by decide, by decide, words _⟩, fun _ => words _⟩, none⟩

/-- Of 16 bytes through a write buffer of 8, the first program is confirmed at the second region. -/
theorem v2write_broken :
    ((ready 8 0 16 ⟨3, rfl⟩ (by decide)).v2write (fun _ => 0xff) 4).map
        (fun r => (r.1, r.2.sequences.map fun s => (s.setup, s.confirm))) =
      some (16, [(0, 8), (8, 14)]) ∧
    ¬Right (ready 8 0 16 ⟨3, rfl⟩ (by decide)) fun _ => 0xff := by
  refine ⟨by decide +kernel, Setting.not_right _ (by decide) fun one => ?_⟩
  have region := (one ⟨rfl, by decide⟩).2
  exact absurd region (by decide)

end Mx6xBsp.Flash.Icfi
