import Mx6xBsp.Flash.AmdChip

/-!
# Buffered writes to GL-S chips

`f3s_s29glxxxs_v2write` pads the first and the last word of a request before the page callback
has told how much of it the window takes, and keeps the last one in `lvalue`. `write_iff` has the
requests for which that is right: those that end within the window, rounded up to a word.
-/

namespace Mx6xBsp.Flash.Gls

open Loops Amd

/-! ## The status register -/

/-- What the status register shows after a program, until it shows all devices ready. The devices
end their programs without an error. -/
structure Status (cfg : Flashcfg) where
  word : Nat → BitVec 64
  readyAt : Nat
  ready : word readyAt &&& cfg.mask 7 = cfg.mask 7
  good : ∀ k, word k &&& (0x30 * cfg.deviceMult) = 0

/-! ## The callout -/

/-- The configuration, the sizes of the write buffer and of a chip, the window, the request, what
the stack holds at `value` and `lvalue`, and the status after each program -/
structure Setting where
  cfg : Flashcfg
  bufferSize : Nat
  chipSize : Nat
  window : Window
  commandMask : Nat
  rq : Request
  stale : BitVec 64
  staleLast : BitVec 64
  status : Nat → Status cfg
  power : ∃ q, bufferSize = 2 ^ q

/-- The variables of the loop -/
structure Writing where
  cursor : Cursor
  left : Nat
  offset : Nat
  chip : Chip

abbrev Left := Writing × Bool

def ERANGE : Nat := 34

namespace Setting

variable (set : Setting)

/-- What the address or the length of the request is beyond whole words -/
def beyond (x : Nat) : Nat := x &&& (set.cfg.busWidth - 1)

/-- The bytes before the request in its first word -/
def pad : Nat := set.beyond set.rq.offset

/-- The bytes behind the request in its last word -/
def lpad : Nat :=
  if set.beyond (set.rq.offset - set.pad + (set.rq.size + set.pad)) ≠ 0 then
    set.cfg.busWidth - set.beyond (set.rq.offset - set.pad + (set.rq.size + set.pad))
  else 0

/-- `f3s_s29glxxxs_v2sync` for a write -/
def v2sync (status : BitVec 64) (offset : Nat) : Nat :=
  match set.window.page (offset &&& set.commandMask) 0 with
  | none => ERANGE
  | some _ =>
    if status &&& set.cfg.mask 7 = set.cfg.mask 7 then
      if status &&& (0x30 * set.cfg.deviceMult) ≠ 0 then EIO else EOK
    else EAGAIN

/-- A pass of the loop that waits, after `reads` reads of the status -/
def syncPass (status : Status set.cfg) (offset reads : Nat) : Pass Nat Nat :=
  let res := set.v2sync (status.word reads) offset
  if res = EAGAIN then .next (reads + 1) else .leave res

/-- The loop that waits for a program, which ends when the status shows that it is ready -/
def wait (chip : Chip) (offset : Nat) : Nat :=
  let status := set.status chip.programs
  let offset := offset - (offset &&& (set.chipSize - 1))
  match run (set.syncPass status offset) (status.readyAt + 1) 0 with
  | some res => res
  | none => EAGAIN

/-- The code of the number of words, which is -1 for none -/
def countCode (count : Nat) : Nat := (((count : Int) - 1) % 2 ^ 64).toNat

/-- The loop that fills the write buffer, when there is `left` after it -/
def loadWords (lvalue : BitVec 64) (left : Nat) : Nat → Cursor × Chip → Cursor × Chip :=
  fillBuffer (Chip.writeValue set.cfg.busWidth) (fun count => count > 0)
    (fun count cursor =>
      let cursor := cursor.next set.cfg
      if left = 0 ∧ set.lpad ≠ 0 ∧ count = 1 then { cursor with value := lvalue }
      else cursor.load set.rq set.cfg.busWidth)

/-- A pass of the loop -/
def writePass (lvalue : BitVec 64) (st : Writing) : Pass Writing Left :=
  if st.left = 0 then .leave (st, true)
  else
    let chip := st.chip.send set.cfg.busWidth
      [AMD_UNLOCK_CMD1, AMD_UNLOCK_CMD2, AMD_WRITE_BUFFER]
    let size := min set.bufferSize (st.left - set.beyond st.left)
    let size := min size (set.bufferSize - (st.offset &&& (set.bufferSize - 1)))
    let left := st.left - size
    let offset := st.offset + size
    let count := size / set.cfg.deviceWidth / set.cfg.chipInter
    let chip := chip.send set.cfg.busWidth [countCode count]
    let (cursor, chip) := set.loadWords lvalue left count (st.cursor, chip)
    let chip := chip.send set.cfg.busWidth [AMD_BUFFER_CONFIRM]
    if set.wait chip offset = EIO then .leave (⟨cursor, left, offset, chip⟩, false)
    else if left ≠ 0 then
      let cursor := cursor.next set.cfg
      let cursor :=
        if set.lpad ≠ 0 ∧ left = set.cfg.busWidth then { cursor with value := lvalue }
        else cursor.load set.rq set.cfg.busWidth
      .next ⟨cursor, left, offset, chip⟩
    else .next ⟨cursor, left, offset, chip⟩

/-- The first word, padded, when the window leaves `left` -/
def firstValue (flash : Contents) (left : Nat) : BitVec 64 :=
  let base := set.rq.offset - set.pad
  let value := Value.memcpy set.stale set.pad (fun k => set.rq.buffer k)
    (min (set.cfg.busWidth - set.pad) set.rq.size)
  let value :=
    if set.pad ≠ 0 then
      padValue set.cfg value (flash.word set.cfg.busWidth base)
        ((set.cfg.busWidth - set.pad) <<< 3) true
    else value
  if set.lpad ≠ 0 ∧ left = set.cfg.busWidth then
    padValue set.cfg value (flash.word set.cfg.busWidth base)
      ((set.cfg.busWidth - set.lpad) <<< 3) false
  else value

/-- The last word, padded, unless it is the first one -/
def lastValue (flash : Contents) (left : Nat) : BitVec 64 :=
  if set.lpad ≠ 0 ∧ left ≠ set.cfg.busWidth then
    let used := set.cfg.busWidth - set.lpad
    padValue set.cfg
      (Value.memcpy set.staleLast 0 (fun k => set.rq.buffer ((set.rq.size : Int) - used + k)) used)
      (flash.word set.cfg.busWidth (set.rq.offset - set.pad + left - set.cfg.busWidth))
      (used <<< 3) false
  else set.staleLast

/-- The comparison at the end -/
def verified (st : Writing) : Bool :=
  (List.range set.rq.size).all fun i =>
    set.rq.buffer (st.cursor.buffer - set.rq.size - set.lpad + set.cfg.busWidth + i) =
      st.chip.flash (st.cursor.memory - set.rq.size - set.lpad + set.cfg.busWidth + i : Int).toNat

/-- `f3s_s29glxxxs_v2write`, if its loop ends within `fuel` passes -/
def v2write (flash : Contents) (fuel : Nat) : Option (Int × Chip) :=
  match set.window.page (set.rq.offset &&& set.commandMask) 0 with
  | none => some (-1, Chip.array flash)
  | some _ =>
    match set.window.page (set.rq.offset - set.pad) (set.rq.size + set.pad + set.lpad) with
    | none => some (-1, Chip.array flash)
    | some left => do
      let cursor := ⟨set.rq.offset - set.pad, -(set.pad : Int), set.firstValue flash left⟩
      let (st, goes) ← run (set.writePass (set.lastValue flash left)) fuel
        ⟨cursor, left, set.rq.offset - set.pad, Chip.array flash⟩
      if goes = false then return (-1, st.chip)
      if set.rq.verify = true ∧ set.verified st = false then return (-1, st.chip)
      return (set.rq.size, st.chip)

end Setting

/-! ## What is to hold -/

section Spec

variable (set : Setting) (old : Contents)

/-- The bytes of the request in the window -/
def Setting.count : Nat := set.rq.count set.window

/-- The callout returns the bytes of the request that lie in the window, and those are anded into
the array and nothing else changes. -/
def Right : Prop := ∃ enough chip,
  (∀ fuel ≥ enough, set.v2write old fuel = some ((set.count : Int), chip)) ∧
    chip.flash = set.rq.target old set.count

/-- The request ends within the window when it is rounded up to a word, the write buffer holds a
word, and with the verify flag the array can take the data. -/
def Fitting : Prop :=
  set.rq.offset + set.rq.size + set.lpad ≤ set.window.stop ∧ set.cfg.busWidth ≤ set.bufferSize ∧
    (set.rq.verify = true → ∀ i < set.rq.size,
      old (set.rq.offset + i) &&& set.rq.buffer i = set.rq.buffer i)

end Spec

/-! ## The loop that waits -/

namespace Setting

variable {set : Setting} {old : Contents} {m : Nat} {st : Writing}

theorem v2sync_cases (status : Status set.cfg) (offset k : Nat) :
    set.v2sync (status.word k) offset = ERANGE ∨ set.v2sync (status.word k) offset = EOK ∨
      set.v2sync (status.word k) offset = EAGAIN ∧ k ≠ status.readyAt := by
  unfold v2sync
  cases set.window.page (offset &&& set.commandMask) 0 with
  | none => exact .inl rfl
  | some _ =>
    dsimp only
    split
    case isTrue ready =>
      rw [if_neg (not_not.mpr (status.good k))]
      exact .inr (.inl rfl)
    case isFalse busy =>
      refine .inr (.inr ⟨rfl, fun same => busy ?_⟩)
      rw [same]
      exact status.ready

theorem run_syncPass (status : Status set.cfg) (offset : Nat) {n k : Nat}
    (ends : k + n = status.readyAt) :
    ∃ res, run (set.syncPass status offset) (n + 1) k = some res ∧ res ≠ EIO := by
  induction n generalizing k with
  | zero =>
    rcases v2sync_cases status offset k with out | done | ⟨_, early⟩
    · refine ⟨ERANGE, ?_, by decide⟩
      simp only [run, syncPass, out]
      rfl
    · refine ⟨EOK, ?_, by decide⟩
      simp only [run, syncPass, done]
      rfl
    · exact absurd ends early
  | succ n ih =>
    rcases v2sync_cases status offset k with out | done | ⟨busy, _⟩
    · refine ⟨ERANGE, ?_, by decide⟩
      simp only [run, syncPass, out]
      rfl
    · refine ⟨EOK, ?_, by decide⟩
      simp only [run, syncPass, done]
      rfl
    · obtain ⟨res, done, fine⟩ := ih (k := k + 1) (by omega)
      refine ⟨res, ?_, fine⟩
      rw [run]
      unfold syncPass
      rw [busy]
      exact done

theorem wait_ne (chip : Chip) (offset : Nat) : set.wait chip offset ≠ EIO := by
  obtain ⟨res, done, fine⟩ := run_syncPass (set.status chip.programs)
    (offset - (offset &&& (set.chipSize - 1))) (Nat.zero_add _)
  unfold wait
  dsimp only
  rw [done]
  exact fine

/-! ## Padding -/

theorem beyond_eq (x : Nat) : set.beyond x = x % set.cfg.busWidth := and_mask_eq busWidth_pow

theorem pad_eq : set.pad = set.rq.offset % set.cfg.busWidth := beyond_eq _

theorem pad_lt : set.pad < set.cfg.busWidth := by
  rw [pad_eq]
  exact Nat.mod_lt _ busWidth_pos

theorem pad_le : set.pad ≤ set.rq.offset := by
  rw [pad_eq]
  exact Nat.mod_le _ _

/-- The end of the request, rounded up to a word -/
def ending (set : Setting) : Nat := set.rq.offset + set.rq.size + set.lpad

theorem lpad_spec : set.lpad < set.cfg.busWidth ∧ set.cfg.busWidth ∣ set.ending := by
  have wide := @busWidth_pos set.cfg
  have below := @pad_le set
  have whole : set.rq.offset - set.pad + (set.rq.size + set.pad) = set.rq.offset + set.rq.size := by
    omega
  have part := Nat.mod_lt (set.rq.offset + set.rq.size) wide
  unfold ending lpad
  rw [whole, beyond_eq]
  split
  case isTrue some_ =>
    refine ⟨by omega, ?_⟩
    have parts := Nat.div_add_mod (set.rq.offset + set.rq.size) set.cfg.busWidth
    refine ⟨(set.rq.offset + set.rq.size) / set.cfg.busWidth + 1, ?_⟩
    rw [Nat.mul_succ]
    omega
  case isFalse none =>
    exact ⟨wide, Nat.dvd_of_mod_eq_zero (not_not.mp none)⟩

/-- The bytes from the first word to the end of the last one -/
def span (set : Setting) : Nat := set.rq.size + set.pad + set.lpad

theorem base_span : set.rq.offset - set.pad + set.span = set.ending := by
  have below := @pad_le set
  unfold span ending
  omega

theorem base_dvd : set.cfg.busWidth ∣ set.rq.offset - set.pad := by
  rw [pad_eq]
  exact Nat.dvd_sub_mod _

theorem span_dvd : set.cfg.busWidth ∣ set.span := by
  have whole := (@lpad_spec set).2
  rw [← base_span] at whole
  exact (Nat.dvd_add_right base_dvd).mp whole

theorem span_of_long (many : set.span ≠ set.cfg.busWidth) : 2 * set.cfg.busWidth ≤ set.span := by
  have positive := set.rq.positive
  have total : set.span = set.rq.size + set.pad + set.lpad := rfl
  obtain ⟨words, span⟩ := @span_dvd set
  rcases words with _ | _ | words
  · omega
  · omega
  · have two : set.cfg.busWidth * 2 ≤ set.cfg.busWidth * (words + 1 + 1) :=
      Nat.mul_le_mul_left _ (by omega)
    omega

theorem span_of_short (short : set.rq.size + set.pad < set.cfg.busWidth) :
    set.span = set.cfg.busWidth := by
  have pads := (@lpad_spec set).1
  have total : set.span = set.rq.size + set.pad + set.lpad := rfl
  by_contra many
  have long := span_of_long many
  omega

theorem first_fits (whole : set.count = set.rq.size) :
    Fits set.cfg.busWidth old (set.rq.target old set.count) (set.rq.offset - set.pad)
      (set.firstValue old set.span) := by
  intro k inside
  have small := @busWidth_le set.cfg
  have below := @pad_le set
  have part := @pad_lt set
  have pads := (@lpad_spec set).1
  have total : set.span = set.rq.size + set.pad + set.lpad := rfl
  have kept : ∀ k < set.cfg.busWidth,
      Value.byte (old.word set.cfg.busWidth (set.rq.offset - set.pad)) k =
        old (set.rq.offset - set.pad + k) := by
    intro k inside
    unfold Contents.word
    rw [Value.byte_memcpy (by omega), if_pos (by omega), Nat.sub_zero]
  -- the value with the front padded
  have front : ∀ k < set.cfg.busWidth, k < set.rq.size + set.pad →
      old (set.rq.offset - set.pad + k) &&& Value.byte (if set.pad ≠ 0 then
        padValue set.cfg (Value.memcpy set.stale set.pad (fun k => set.rq.buffer k)
            (min (set.cfg.busWidth - set.pad) set.rq.size))
          (old.word set.cfg.busWidth (set.rq.offset - set.pad))
          ((set.cfg.busWidth - set.pad) <<< 3) true
      else Value.memcpy set.stale set.pad (fun k => set.rq.buffer k)
            (min (set.cfg.busWidth - set.pad) set.rq.size)) k =
        set.rq.target old set.count (set.rq.offset - set.pad + k) := by
    intro k inside within
    have loaded : set.pad ≤ k →
        Value.byte (Value.memcpy set.stale set.pad (fun k => set.rq.buffer k)
          (min (set.cfg.busWidth - set.pad) set.rq.size)) k =
          set.rq.buffer ((k - set.pad : Nat) : Int) := by
      intro above
      rw [Value.byte_memcpy (by omega), if_pos (by omega)]
    rcases Nat.lt_or_ge k set.pad with before | above
    · rw [if_pos (by omega), byte_padFront part (by omega), if_pos before, kept k inside,
        Request.target_outside (by omega), BitVec.and_self]
    · have place : ((k - set.pad : Nat) : Int) =
          ((set.rq.offset - set.pad + k : Nat) : Int) - set.rq.offset := by omega
      rw [Request.target_inside (by omega) (by omega), ← place, ← loaded above]
      split
      case isTrue => rw [byte_padFront part (by omega), if_neg (Nat.not_lt.mpr above)]
      case isFalse => rfl
  unfold firstValue
  dsimp only
  split
  case isTrue one =>
    rw [byte_padBack (by omega) (by omega) inside]
    split
    case isTrue used => exact front k inside (by omega)
    case isFalse unused =>
      rw [kept k inside, BitVec.and_self, Request.target_outside (by omega)]
  case isFalse many =>
    refine front k inside ?_
    by_contra unused
    have one := @span_of_short set (by omega)
    exact many ⟨by omega, one⟩

theorem last_fits (whole : set.count = set.rq.size) (some_ : set.lpad ≠ 0)
    (many : set.span ≠ set.cfg.busWidth) :
    Fits set.cfg.busWidth old (set.rq.target old set.count) (set.ending - set.cfg.busWidth)
      (set.lastValue old set.span) := by
  intro k inside
  have small := @busWidth_le set.cfg
  have below := @pad_le set
  have part := @pad_lt set
  have pads := (@lpad_spec set).1
  have total : set.span = set.rq.size + set.pad + set.lpad := rfl
  have ends := @base_span set
  have ending : set.ending = set.rq.offset + set.rq.size + set.lpad := rfl
  have long := span_of_long many
  unfold lastValue
  rw [if_pos ⟨some_, many⟩]
  dsimp only
  rw [ends, byte_padBack (by omega) (by omega) inside]
  split
  case isTrue used =>
    have place : (set.rq.size : Int) - ((set.cfg.busWidth - set.lpad : Nat) : Int) +
          ((k - 0 : Nat) : Int) =
        ((set.ending - set.cfg.busWidth + k : Nat) : Int) - set.rq.offset := by omega
    rw [Value.byte_memcpy (by omega), if_pos (by omega),
      Request.target_inside (by omega) (by omega), place]
  case isFalse unused =>
    unfold Contents.word
    rw [Value.byte_memcpy (by omega), if_pos (by omega), Request.target_outside (by omega),
      Nat.sub_zero, BitVec.and_self]

/-! ## A request within the window -/

/-- The request is written up to the word `m`. -/
structure Stage (set : Setting) (old : Contents) (m : Nat) (st : Writing) : Prop where
  flash : Upto old (set.rq.target old set.count) m st.chip.flash
  left : m + st.left = set.ending
  aligned : set.cfg.busWidth ∣ m
  begun : set.rq.offset < m + set.cfg.busWidth
  mode : st.chip.mode = .read
  offset : st.offset = m

/-- The pointers stand at the word `m`, with its value. -/
structure Good (set : Setting) (old : Contents) (m : Nat) (cursor : Cursor) : Prop where
  here : cursor.At set.rq m
  begun : set.rq.offset < m + set.cfg.busWidth
  fits : Fits set.cfg.busWidth old (set.rq.target old set.count) m cursor.value

/-- At the end they are still at the last word. -/
def Standing (set : Setting) (old : Contents) (m : Nat) (st : Writing) : Prop :=
  if st.left ≠ 0 then set.Good old m st.cursor
  else ∃ before, m = before + set.cfg.busWidth ∧ st.cursor.At set.rq before

/-- The value of the next word is loaded, or is the last one, which has been padded before. -/
theorem Good.next {cursor : Cursor} (whole : set.count = set.rq.size) (good : set.Good old m cursor)
    (aligned : set.cfg.busWidth ∣ m) (within : m + 2 * set.cfg.busWidth ≤ set.ending) {last : Prop}
    [Decidable last] (isLast : last ↔ set.lpad ≠ 0 ∧ m + 2 * set.cfg.busWidth = set.ending) :
    set.Good old (m + set.cfg.busWidth)
      (if last then { cursor.next set.cfg with value := set.lastValue old set.span }
      else (cursor.next set.cfg).load set.rq set.cfg.busWidth) := by
  have below := @pad_le set
  have ends := @base_span set
  have begun := good.begun
  have moved : (cursor.next set.cfg).At set.rq (m + set.cfg.busWidth) := good.here.next
  split
  case isTrue final =>
    obtain ⟨some_, final⟩ := isLast.mp final
    refine ⟨moved, by omega, ?_⟩
    have fits := @last_fits set old whole some_ (by omega)
    have place : set.ending - set.cfg.busWidth = m + set.cfg.busWidth := by omega
    rwa [place] at fits
  case isFalse more =>
    have loaded : ((cursor.next set.cfg).load set.rq set.cfg.busWidth).Loaded set.cfg set.rq old
        set.count (m + set.cfg.busWidth) :=
      moved.load (Nat.le_of_lt begun) (.inl (Nat.le_refl _))
    refine ⟨loaded.1, by omega, loaded.fits ?_⟩
    have pads := (@lpad_spec set).1
    have ending : set.ending = set.rq.offset + set.rq.size + set.lpad := rfl
    by_cases none : set.lpad = 0
    · omega
    · have apart : m + 2 * set.cfg.busWidth ≠ set.ending :=
        fun same => more (isLast.mpr ⟨none, same⟩)
      have rest : set.cfg.busWidth ∣ set.ending - (m + 2 * set.cfg.busWidth) :=
        Nat.dvd_sub (@lpad_spec set).2 (Nat.dvd_add aligned (Nat.dvd_mul_left _ _))
      have word := Nat.le_of_dvd (by omega) rest
      omega

/-- Filling the write buffer with some words, when there is `left` after them -/
theorem loadWords_laid {cursor : Cursor} {chip : Chip} {left : Nat} (words : Nat)
    (whole : set.count = set.rq.size) (good : set.Good old m cursor)
    (aligned : set.cfg.busWidth ∣ m)
    (ends : m + (words + 1) * set.cfg.busWidth + left = set.ending)
    (mode : chip.mode = .loading (words + 1)) :
    ∃ cursor' laid,
      set.loadWords (set.lastValue old set.span) left (words + 1) (cursor, chip) =
        (cursor', { chip with mode := .full, buffer := chip.buffer ++ laid }) ∧
      Laid set.cfg.busWidth old (set.rq.target old set.count) m laid ∧ laid.length = words + 1 ∧
      set.Good old (m + words * set.cfg.busWidth) cursor' := by
  have wide := @busWidth_pos set.cfg
  let At : Nat → Cursor → Prop := fun m cursor => set.Good old m cursor ∧ set.cfg.busWidth ∣ m
  have steps : ∀ {m' count : Nat} {cursor : Cursor}, 0 < count →
      m' + (count + 1) * set.cfg.busWidth = m + (words + 1) * set.cfg.busWidth → At m' cursor →
      (decide (count > 0) : Bool) = true ∧
        At (m' + set.cfg.busWidth)
          (if left = 0 ∧ set.lpad ≠ 0 ∧ count = 1 then
            { cursor.next set.cfg with value := set.lastValue old set.span }
          else (cursor.next set.cfg).load set.rq set.cfg.busWidth) := by
    intro m' count cursor some_ ends' at_
    obtain ⟨count, rfl⟩ : ∃ c, count = c + 1 := ⟨count - 1, by omega⟩
    rw [Nat.succ_mul, Nat.succ_mul] at ends'
    refine ⟨decide_eq_true some_, ?_, Nat.dvd_add at_.2 (Nat.dvd_refl _)⟩
    refine at_.1.next whole at_.2 (by omega) ⟨fun last => ⟨last.2.1, ?_⟩, fun last => ?_⟩
    · obtain ⟨rfl, _, one⟩ := last
      obtain rfl : count = 0 := by omega
      omega
    · obtain ⟨some_, last⟩ := last
      refine ⟨by omega, some_, ?_⟩
      rcases count with _ | count
      · rfl
      · rw [Nat.succ_mul] at ends'
        omega
  obtain ⟨last, laid, fills, each, length, here, _⟩ :=
    @fillBuffer_laid _ (Chip.writeValue set.cfg.busWidth) (fun count => count > 0)
      (fun count cursor =>
        if left = 0 ∧ set.lpad ≠ 0 ∧ count = 1 then
          { cursor.next set.cfg with value := set.lastValue old set.span }
        else (cursor.next set.cfg).load set.rq set.cfg.busWidth)
      _ _ _ At m _ words cursor chip (fun good => ⟨good.1.here.1, good.1.fits⟩) steps
      ⟨good, aligned⟩ rfl
  have some_ : laid ≠ [] := by
    intro none
    rw [none] at length
    cases length
  refine ⟨last, laid, ?_, each, length, here⟩
  rw [← length] at mode
  rw [← Chip.writeValues_eq some_ mode]
  exact fills

theorem countCode_succ (words : Nat) (small : words < 2 ^ 64) : countCode (words + 1) = words := by
  unfold countCode
  omega

theorem Stage.pass (whole : set.count = set.rq.size) (words : set.cfg.busWidth ∣ set.bufferSize)
    (some_ : 0 < set.bufferSize) (short : set.ending < 2 ^ 31) (stage : set.Stage old m st)
    (standing : set.Standing old m st) (more : st.left ≠ 0) :
    ∃ m' st', set.writePass (set.lastValue old set.span) st = .next st' ∧ m < m' ∧
      set.Stage old m' st' ∧ set.Standing old m' st' := by
  have wide := @busWidth_pos set.cfg
  obtain ⟨flash, left, aligned, begun, mode, rfl⟩ := stage
  unfold Standing at standing
  rw [if_pos more] at standing
  have rest : set.cfg.busWidth ∣ st.left := by
    have ends := (@lpad_spec set).2
    rw [← left] at ends
    exact (Nat.dvd_add_right aligned).mp ends
  obtain ⟨count, pos, chunk, least, _⟩ := chunk_words words wide some_ aligned
    (Nat.le_of_dvd (Nat.pos_of_ne_zero more) rest)
  obtain ⟨count, rfl⟩ : ∃ c, count = c + 1 := ⟨count - 1, by omega⟩
  have counted :
      (count + 1) * set.cfg.busWidth / set.cfg.deviceWidth / set.cfg.chipInter = count + 1 := by
    rw [Nat.div_div_eq_div_mul]
    exact Nat.mul_div_cancel _ wide
  have fewer : count + 1 ≤ (count + 1) * set.cfg.busWidth := Nat.le_mul_of_pos_right _ wide
  obtain ⟨cursor, laid, loads, each, length, good⟩ :=
    @loadWords_laid set old st.offset st.cursor
      { st.chip with mode := .loading (count + 1), buffer := [] }
      (st.left - (count + 1) * set.cfg.busWidth) count whole standing aligned (by omega) rfl
  have filled : Chip.send set.cfg.busWidth { st.chip with mode := .full, buffer := [] ++ laid }
        [AMD_BUFFER_CONFIRM] =
      Chip.programBuffer set.cfg.busWidth { st.chip with mode := .full, buffer := laid } :=
    Chip.send_confirm rfl
  have upto := each.upto flash
  rw [length] at upto
  have moved : st.offset < st.offset + (count + 1) * set.cfg.busWidth := by omega
  have stage' : ∀ cursor, set.Stage old (st.offset + (count + 1) * set.cfg.busWidth)
      ⟨cursor, st.left - (count + 1) * set.cfg.busWidth,
        st.offset + (count + 1) * set.cfg.busWidth,
        Chip.programBuffer set.cfg.busWidth { st.chip with mode := .full, buffer := laid }⟩ := by
    intro cursor
    refine ⟨upto, ?_, Nat.dvd_add aligned (Nat.dvd_mul_left _ _), by omega, rfl, rfl⟩
    dsimp only
    omega
  have here : set.writePass (set.lastValue old set.span) st =
      if st.left - (count + 1) * set.cfg.busWidth ≠ 0 then
        .next ⟨if set.lpad ≠ 0 ∧ st.left - (count + 1) * set.cfg.busWidth = set.cfg.busWidth then
              { cursor.next set.cfg with value := set.lastValue old set.span }
            else (cursor.next set.cfg).load set.rq set.cfg.busWidth,
          st.left - (count + 1) * set.cfg.busWidth, st.offset + (count + 1) * set.cfg.busWidth,
          Chip.programBuffer set.cfg.busWidth { st.chip with mode := .full, buffer := laid }⟩
      else
        .next ⟨cursor, st.left - (count + 1) * set.cfg.busWidth,
          st.offset + (count + 1) * set.cfg.busWidth,
          Chip.programBuffer set.cfg.busWidth { st.chip with mode := .full, buffer := laid }⟩ := by
    unfold writePass
    rw [if_neg more]
    dsimp only
    rw [and_mask_eq set.power, beyond_eq, chunk, counted, Chip.send_writeBuffer mode,
      countCode_succ count (by omega),
      @Chip.send_count { st.chip with mode := .count, buffer := [] } _ rfl, loads]
    dsimp only
    rw [filled, if_neg (wait_ne _ _)]
  refine ⟨st.offset + (count + 1) * set.cfg.busWidth, ?_⟩
  rw [here]
  have before : st.offset + count * set.cfg.busWidth + set.cfg.busWidth =
      st.offset + (count + 1) * set.cfg.busWidth := by
    rw [Nat.succ_mul, Nat.add_assoc]
  split
  case isTrue further =>
    refine ⟨_, rfl, moved, stage' _, ?_⟩
    unfold Standing
    rw [if_pos further]
    have rest' : set.cfg.busWidth ∣ st.left - (count + 1) * set.cfg.busWidth :=
      Nat.dvd_sub rest (Nat.dvd_mul_left _ _)
    have word := Nat.le_of_dvd (Nat.pos_of_ne_zero further) rest'
    have isLast : set.lpad ≠ 0 ∧ st.left - (count + 1) * set.cfg.busWidth = set.cfg.busWidth ↔
        set.lpad ≠ 0 ∧
          st.offset + count * set.cfg.busWidth + 2 * set.cfg.busWidth = set.ending :=
      and_congr_right' (by omega)
    have next := good.next whole (Nat.dvd_add aligned (Nat.dvd_mul_left _ _)) (by omega) isLast
    rwa [before] at next
  case isFalse none =>
    refine ⟨_, rfl, moved, stage' _, ?_⟩
    unfold Standing
    rw [if_neg none]
    exact ⟨st.offset + count * set.cfg.busWidth, before.symm, good.here⟩

theorem loop_ends (whole : set.count = set.rq.size) (words : set.cfg.busWidth ∣ set.bufferSize)
    (some_ : 0 < set.bufferSize) (short : set.ending < 2 ^ 31) (stage : set.Stage old m st)
    (standing : set.Standing old m st) :
    ∃ before st', Ends (set.writePass (set.lastValue old set.span)) st (st', true) ∧
      set.Stage old set.ending st' ∧ set.ending = before + set.cfg.busWidth ∧
      st'.cursor.At set.rq before := by
  have falls : ∀ {st t : Writing}, (∃ m, set.Stage old m st ∧ set.Standing old m st) →
      set.writePass (set.lastValue old set.span) st = .next t →
      (∃ m, set.Stage old m t ∧ set.Standing old m t) ∧ t.left < st.left := by
    intro st t inv here
    obtain ⟨m, stage, standing⟩ := inv
    have more : st.left ≠ 0 := by
      intro none
      unfold writePass at here
      rw [if_pos none] at here
      cases here
    obtain ⟨m', st', next, further, stage', standing'⟩ :=
      stage.pass whole words some_ short standing more
    cases next.symm.trans here
    have left := stage.left
    have left' := stage'.left
    exact ⟨⟨m', stage', standing'⟩, by omega⟩
  obtain ⟨r, t, ends, ⟨m', stage', standing'⟩, left⟩ :=
    exists_ends_leave Writing.left (show ∃ m, _ from ⟨m, stage, standing⟩) falls
  have none : t.left = 0 := by
    by_contra more
    obtain ⟨_, _, next, _⟩ := stage'.pass whole words some_ short standing' more
    cases next.symm.trans left
  unfold writePass at left
  rw [if_pos none] at left
  cases left
  unfold Standing at standing'
  rw [if_neg (not_not.mpr none)] at standing'
  obtain ⟨before, rfl, here⟩ := standing'
  have place : before + set.cfg.busWidth = set.ending := by
    have left := stage'.left
    omega
  rw [place] at stage'
  exact ⟨before, t, ends, stage', place.symm, here⟩

theorem verified_iff {before : Nat} (ends : set.ending = before + set.cfg.busWidth)
    (here : st.cursor.At set.rq before) :
    set.verified st = true ↔
      ∀ i < set.rq.size, set.rq.buffer i = st.chip.flash (set.rq.offset + i) := by
  obtain ⟨memory, buffer⟩ := here
  have ending : set.ending = set.rq.offset + set.rq.size + set.lpad := rfl
  have places : ∀ i : Nat,
      st.cursor.buffer - set.rq.size - set.lpad + set.cfg.busWidth + i = i ∧
        ((st.cursor.memory : Int) - set.rq.size - set.lpad + set.cfg.busWidth + i).toNat =
          set.rq.offset + i := by
    intro i
    omega
  unfold verified
  rw [List.all_eq_true]
  constructor
  · intro all i inside
    have same := of_decide_eq_true (all i (List.mem_range.mpr inside))
    rwa [(places i).1, (places i).2] at same
  · intro all i inside
    refine decide_eq_true ?_
    rw [(places i).1, (places i).2]
    exact all i (List.mem_range.mp inside)

theorem count_eq (ends : set.ending ≤ set.window.stop) : set.count = set.rq.size := by
  have ending : set.ending = set.rq.offset + set.rq.size + set.lpad := rfl
  unfold count Request.count
  omega

theorem page_command (inside : set.rq.offset < set.window.stop) :
    ∃ left, set.window.page (set.rq.offset &&& set.commandMask) 0 = some left := by
  have small : set.rq.offset &&& set.commandMask ≤ set.rq.offset := Nat.and_le_left
  exact ⟨_, if_pos (by omega)⟩

theorem page_begin (inside : set.rq.offset < set.window.stop) :
    set.window.page (set.rq.offset - set.pad) (set.rq.size + set.pad + set.lpad) =
      some (min set.span (set.window.stop - (set.rq.offset - set.pad))) :=
  if_pos (by omega)

/-- The state before the loop, when the window leaves `left` -/
def start (set : Setting) (old : Contents) (left : Nat) : Writing :=
  ⟨⟨set.rq.offset - set.pad, -(set.pad : Int), set.firstValue old left⟩, left,
    set.rq.offset - set.pad, Chip.array old⟩

theorem writes_fitting (ends : set.ending ≤ set.window.stop)
    (word : set.cfg.busWidth ∣ set.bufferSize) (some_ : 0 < set.bufferSize) :
    ∃ enough chip, (∀ fuel ≥ enough, set.v2write old fuel =
        some (if set.rq.verify = true ∧
            ¬∀ i < set.rq.size, set.rq.buffer i = chip.flash (set.rq.offset + i) then -1
          else (set.rq.size : Int), chip)) ∧
      chip.flash = set.rq.target old set.count := by
  have ending : set.ending = set.rq.offset + set.rq.size + set.lpad := rfl
  have below := @pad_le set
  have part := @pad_lt set
  have base := @base_span set
  have positive := set.rq.positive
  have whole := count_eq ends
  have bound := set.window.fits
  have stage : set.Stage old (set.rq.offset - set.pad) (set.start old set.span) :=
    ⟨Upto.start old _ fun x before => Request.target_outside (by omega), base, base_dvd, by omega,
      rfl, rfl⟩
  have standing : set.Standing old (set.rq.offset - set.pad) (set.start old set.span) := by
    unfold Standing
    have total : set.span = set.rq.size + set.pad + set.lpad := rfl
    rw [if_pos (show (set.start old set.span).left ≠ 0 from (by omega : set.span ≠ 0))]
    refine ⟨⟨rfl, ?_⟩, by omega, first_fits whole⟩
    unfold start
    dsimp only
    omega
  obtain ⟨before, st, ⟨enough, done⟩, stage', last, here⟩ :=
    loop_ends whole word some_ (by omega) stage standing
  have written : st.chip.flash = set.rq.target old set.count :=
    stage'.flash.all fun x beyond => Request.target_outside (by omega)
  refine ⟨enough, st.chip, fun fuel more => ?_, written⟩
  obtain ⟨_, commands⟩ := @page_command set (by omega)
  have fits : min set.span (set.window.stop - (set.rq.offset - set.pad)) = set.span := by omega
  have runs := run_mono more done
  unfold start at runs
  unfold v2write
  rw [commands]
  dsimp only
  rw [page_begin (by omega), fits]
  dsimp only
  rw [runs]
  simp only [Option.bind_eq_bind, Option.bind_some, Option.pure_def, Bool.true_eq_false, if_false]
  have compares := verified_iff last here
  by_cases same : ∀ i < set.rq.size, set.rq.buffer i = st.chip.flash (set.rq.offset + i)
  · rw [if_neg (fun both => Bool.false_ne_true (both.2.symm.trans (compares.mpr same))),
      if_neg (fun both => both.2 same)]
  · have differ := Bool.eq_false_iff.mpr (compares.not.mpr same)
    by_cases verify : set.rq.verify = true
    · rw [if_pos ⟨verify, differ⟩, if_pos ⟨verify, same⟩]
    · rw [if_neg (fun both => verify both.1), if_neg (fun both => verify both.1)]

/-! ## A loop that does not end -/

/-- The next chunk -/
def chunk (set : Setting) (st : Writing) : Nat :=
  min (min set.bufferSize (st.left - set.beyond st.left))
    (set.bufferSize - (st.offset &&& (set.bufferSize - 1)))

theorem writePass_left (lvalue : BitVec 64) (more : st.left ≠ 0) :
    ∃ st', set.writePass lvalue st = .next st' ∧ st'.left = st.left - set.chunk st ∧
      st'.offset = st.offset + set.chunk st := by
  unfold writePass
  rw [if_neg more]
  dsimp only
  rw [if_neg (wait_ne _ _)]
  split
  case isTrue => exact ⟨_, rfl, rfl, rfl⟩
  case isFalse => exact ⟨_, rfl, rfl, rfl⟩

theorem not_ends_small (lvalue : BitVec 64) (small : set.bufferSize < set.cfg.busWidth)
    (more : st.left ≠ 0) : ¬∃ r, Ends (set.writePass lvalue) st r := by
  refine not_ends (I := fun st => st.left ≠ 0) more fun more => ?_
  rename_i st
  obtain ⟨st', next, left, _⟩ := writePass_left lvalue more
  refine ⟨st', next, ?_⟩
  unfold chunk at left
  rw [beyond_eq] at left
  rcases Nat.lt_or_ge st.left set.cfg.busWidth with part | word
  · rw [Nat.mod_eq_of_lt part] at left
    omega
  · omega

theorem not_ends_part (lvalue : BitVec 64) (words : set.cfg.busWidth ∣ set.bufferSize)
    (some_ : 0 < set.bufferSize) (aligned : set.cfg.busWidth ∣ st.offset)
    (part : ¬set.cfg.busWidth ∣ st.left) : ¬∃ r, Ends (set.writePass lvalue) st r := by
  have wide := @busWidth_pos set.cfg
  refine not_ends (I := fun st => set.cfg.busWidth ∣ st.offset ∧ ¬set.cfg.busWidth ∣ st.left)
    ⟨aligned, part⟩ fun inv => ?_
  rename_i st
  obtain ⟨aligned, part⟩ := inv
  have more : st.left ≠ 0 := by
    intro none
    rw [none] at part
    exact part (Nat.dvd_zero _)
  obtain ⟨st', next, left, offset⟩ := writePass_left lvalue more
  have whole : set.cfg.busWidth ∣ set.chunk st ∧ set.chunk st ≤ st.left := by
    unfold chunk
    rw [beyond_eq, and_mask_eq set.power]
    rcases Nat.lt_or_ge st.left set.cfg.busWidth with short | long
    · rw [Nat.mod_eq_of_lt short, Nat.sub_self, Nat.min_zero, Nat.zero_min]
      exact ⟨Nat.dvd_zero _, Nat.zero_le _⟩
    · obtain ⟨count, _, chunk, least, _⟩ := chunk_words words wide some_ aligned long
      rw [chunk]
      exact ⟨Nat.dvd_mul_left _ _, least⟩
  refine ⟨st', next, ?_, fun even => part ?_⟩
  · rw [offset]
    exact Nat.dvd_add aligned whole.1
  · rw [left] at even
    exact (Nat.dvd_sub_iff_left whole.2 whole.1).mp even

theorem returned {fuel : Nat} {ret : Int} {chip : Chip} (inside : set.rq.offset < set.window.stop)
    (returns : set.v2write old fuel = some (ret, chip)) :
    let left := min set.span (set.window.stop - (set.rq.offset - set.pad))
    (∃ r, Ends (set.writePass (set.lastValue old left)) (set.start old left) r) ∧
      (ret = -1 ∨ ret = set.rq.size) := by
  intro left
  obtain ⟨_, commands⟩ := page_command inside
  unfold v2write at returns
  rw [commands] at returns
  dsimp only at returns
  rw [page_begin inside] at returns
  dsimp only at returns
  cases done : run (set.writePass (set.lastValue old left)) fuel (set.start old left) with
  | none =>
    unfold start at done
    rw [done] at returns
    cases returns
  | some ended =>
    refine ⟨⟨ended, fuel, done⟩, ?_⟩
    obtain ⟨st, goes⟩ := ended
    unfold start at done
    rw [done] at returns
    simp only [Option.bind_eq_bind, Option.bind_some, Option.pure_def] at returns
    split at returns
    case isTrue => exact .inl (Prod.mk.inj (Option.some.inj returns)).1.symm
    case isFalse =>
      split at returns
      case isTrue => exact .inl (Prod.mk.inj (Option.some.inj returns)).1.symm
      case isFalse => exact .inr (Prod.mk.inj (Option.some.inj returns)).1.symm

theorem bufferSize_cases (set : Setting) :
    set.bufferSize < set.cfg.busWidth ∨ set.cfg.busWidth ∣ set.bufferSize := by
  obtain ⟨q, size⟩ := set.power
  exact busWidth_dvd size

end Setting

/-! ## When the callout is right -/

/-- The callout is right for the requests that fit, and for no others. -/
theorem write_iff (set : Setting) (old : Contents) (inside : set.rq.offset < set.window.stop) :
    Right set old ↔ Fitting set old := by
  have ending : set.ending = set.rq.offset + set.rq.size + set.lpad := rfl
  have some_ : 0 < set.bufferSize := by
    obtain ⟨q, size⟩ := set.power
    rw [size]
    exact Nat.two_pow_pos q
  constructor
  · intro right
    obtain ⟨enough, chip, returns, _⟩ := right
    have once := returns enough (Nat.le_refl _)
    obtain ⟨ends, value⟩ := Setting.returned inside once
    have below := @Setting.pad_le set
    have positive := set.rq.positive
    have total : set.span = set.rq.size + set.pad + set.lpad := rfl
    have left : (set.start old (min set.span (set.window.stop - (set.rq.offset - set.pad)))).left =
        min set.span (set.window.stop - (set.rq.offset - set.pad)) := rfl
    have words : set.cfg.busWidth ∣ set.bufferSize := by
      rcases set.bufferSize_cases with small | words
      · exact absurd ends (Setting.not_ends_small _ small (by omega))
      · exact words
    have whole : set.cfg.busWidth ∣ min set.span (set.window.stop - (set.rq.offset - set.pad)) := by
      by_contra part
      exact Setting.not_ends_part _ words some_ Setting.base_dvd part ends
    have counted : set.count = set.rq.size := by
      rcases value with error | size
      · omega
      · omega
    have within : set.rq.offset + set.rq.size ≤ set.window.stop := by
      unfold Setting.count Request.count at counted
      omega
    -- the end of the window is a multiple of the bus width, and so behind the last word
    have fits : set.ending ≤ set.window.stop := by
      by_contra short
      have pads := (@Setting.lpad_spec set).1
      have base := @Setting.base_span set
      have place : min set.span (set.window.stop - (set.rq.offset - set.pad)) =
          set.window.stop - (set.rq.offset - set.pad) := by omega
      rw [place] at whole
      have rest := Nat.dvd_sub (@Setting.span_dvd set) whole
      have word := Nat.le_of_dvd (by omega) rest
      omega
    refine ⟨fits, Nat.le_of_dvd some_ words, fun verify i inside => ?_⟩
    obtain ⟨enough', chip', returns', written⟩ := @Setting.writes_fitting set old fits words some_
    have one := returns (max enough enough') (Nat.le_max_left _ _)
    have other := returns' (max enough enough') (Nat.le_max_right _ _)
    have same := (Prod.mk.inj (Option.some.inj (one.symm.trans other))).1
    have holds : ∀ i < set.rq.size, set.rq.buffer i = chip'.flash (set.rq.offset + i) := by
      by_contra differ
      rw [if_pos ⟨verify, differ⟩] at same
      omega
    have holds := holds i inside
    rw [written, Request.target_inside (by omega) (by omega)] at holds
    have place : ((set.rq.offset + i : Nat) : Int) - set.rq.offset = i := by omega
    rw [place] at holds
    exact holds.symm
  · intro fitting
    obtain ⟨fits, word, data⟩ := fitting
    have words : set.cfg.busWidth ∣ set.bufferSize :=
      set.bufferSize_cases.resolve_left (Nat.not_lt.mpr word)
    have whole := Setting.count_eq fits
    obtain ⟨enough, chip, returns, written⟩ := @Setting.writes_fitting set old fits words some_
    refine ⟨enough, chip, fun fuel more => ?_, written⟩
    rw [returns fuel more, if_neg, whole]
    intro both
    obtain ⟨verify, differ⟩ := both
    refine differ fun i inside => ?_
    have place : ((set.rq.offset + i : Nat) : Int) - set.rq.offset = i := by omega
    rw [written, Request.target_inside (by omega) (by omega), place]
    exact (data verify i inside).symm

/-! ## Requests at the end of a window -/

/-- Two interleaved devices that are ready at once, with a window of 16 bytes -/
def atEnd (offset size : Nat) (positive : 0 < size) : Setting where
  cfg := ⟨1, 2, 0x0101, pair_supported⟩
  bufferSize := 32
  chipSize := 16
  window := ⟨16, Window.fits_small⟩
  commandMask := 0
  rq := ⟨offset, size, fun i => BitVec.ofInt 8 (0x10 + i), false, positive⟩
  stale := 0
  staleLast := 0
  status _ := ⟨fun _ => 0x8080, 0, by decide, fun _ => by decide⟩
  power := ⟨5, rfl⟩

theorem write_small : (atEnd 11 4 (by decide)).rq.offset < (atEnd 11 4 (by decide)).window.stop ∧
    Right (atEnd 11 4 (by decide)) (fun _ => 0xff) := by
  refine ⟨by decide, ?_⟩
  have fitting : Fitting (atEnd 11 4 (by decide)) (fun _ => 0xff) :=
    ⟨by decide, by decide, fun verify => by cases verify⟩
  exact (write_iff (atEnd 11 4 (by decide)) _ (by decide)).mpr fitting

/-- Of 7 bytes at 12 the window takes 4, and the callout returns 7. The last word in the window gets
the last byte of the request. -/
theorem write_broken :
    ((atEnd 12 7 (by decide)).v2write (fun _ => 0xff) 3).map
        (fun r => (r.1, r.2.flash 14, r.2.flash 15)) = some (7, 0x16, 0xff) ∧
      (atEnd 12 7 (by decide)).count = 4 ∧ ¬Right (atEnd 12 7 (by decide)) (fun _ => 0xff) := by
  refine ⟨by decide, by decide, fun right => ?_⟩
  obtain ⟨enough, chip, returns, _⟩ := right
  have value := (Setting.returned (by decide) (returns enough (Nat.le_refl _))).2
  exact absurd value (by decide)

end Mx6xBsp.Flash.Gls
