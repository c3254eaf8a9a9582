import Mx6xBsp.Flash.AmdChip

/-!
# Buffered writes to AMD chips

`f3s_aCFI_v2write` writes a request in words of the bus: through the write buffer while there are
whole words, if it is worth it, and one by one otherwise. The first and the last word are padded
with what the flash holds. `writes_window` has what comes of it on a chip that completes its
programs.
-/

namespace Mx6xBsp.Flash.Acfi

open Loops Amd

/-! ## The callout -/

/-- The configuration, the size of the write buffer and the window, the request, what the stack
holds at `value`, and the status that the chip shows after each program -/
structure Setting where
  cfg : Flashcfg
  bufferSize : Nat
  window : Window
  commandMask : Nat
  rq : Request
  stale : BitVec 64
  loops : BitVec 32
  line : Nat → (value : BitVec 64) → (dq1 : Bool) → Poll.Timeline cfg value dq1
  power : ∃ q, bufferSize = 2 ^ q

/-- The variables of the callout -/
structure Writing where
  cursor : Cursor
  left : Int
  offset : Nat
  unlock : Bool
  chip : Chip

/-- How a loop ends, with the callout going on or returning -1 -/
abbrev Left := Writing × Bool

namespace Setting

variable (set : Setting)

/-- `amd_poll` after a program -/
def poll (chip : Chip) (value : BitVec 64) (dq1 : Bool) : Int :=
  Poll.amdPoll (set.line chip.programs value dq1) set.loops

/-- The loop that fills the write buffer -/
def loadWords : Nat → Cursor × Chip → Cursor × Chip :=
  fillBuffer (Chip.writeValue set.cfg.busWidth) (fun count => count > 0)
    (fun _ cursor => (cursor.next set.cfg).load set.rq set.cfg.busWidth)

/-- The bytes that are left, rounded down to words -/
def wholeWords (left : Int) : Nat := left.toNat - (left.toNat &&& (set.cfg.busWidth - 1))

/-- A pass of the loop that programs by the write buffer -/
def bufferPass (st : Writing) : Pass Writing Left :=
  if st.left < set.cfg.busWidth then .leave (st, true)
  else
    let chip := st.chip.send set.cfg.busWidth [AMD_UNLOCK_CMD1, AMD_UNLOCK_CMD2, AMD_WRITE_BUFFER]
    let size := min set.bufferSize (set.wholeWords st.left)
    let size := min size (set.bufferSize - (st.offset &&& (set.bufferSize - 1)))
    let left := st.left - size
    let offset := st.offset + size
    let count := size / set.cfg.deviceWidth / set.cfg.chipInter
    let chip := chip.send set.cfg.busWidth [count - 1]
    let (cursor, chip) := set.loadWords count (st.cursor, chip)
    let chip := chip.send set.cfg.busWidth [AMD_BUFFER_CONFIRM]
    if set.poll chip cursor.value true = -1 then
      .leave (⟨cursor, left, offset, st.unlock,
        chip.send set.cfg.busWidth [AMD_UNLOCK_CMD1, AMD_UNLOCK_CMD2, AMD_READ_MODE]⟩, false)
    else if left ≥ set.cfg.busWidth then
      .next ⟨(cursor.next set.cfg).load set.rq set.cfg.busWidth, left, offset, st.unlock, chip⟩
    else .next ⟨cursor, left, offset, st.unlock, chip⟩

/-- The commands before a word, and whether unlock bypass is on -/
def unlockFor (st : Writing) : Bool × Chip :=
  let (unlock, chip) :=
    if st.unlock then (true, st.chip)
    else if st.left ≤ 2 * set.cfg.busWidth then
      (false, st.chip.send set.cfg.busWidth [AMD_UNLOCK_CMD1, AMD_UNLOCK_CMD2, AMD_PROGRAM])
    else (true, st.chip.send set.cfg.busWidth [AMD_UNLOCK_CMD1, AMD_UNLOCK_CMD2, AMD_UNLOCK_BYPASS])
  (unlock, if unlock then chip.send set.cfg.busWidth [AMD_PROGRAM] else chip)

/-- The end of a pass of the loop over words -/
def nextWord (st : Writing) : Writing :=
  let left := st.left - set.cfg.busWidth
  if left > 0 then
    { st with
      left, cursor := (st.cursor.next set.cfg).load set.rq (min set.cfg.busWidth left.toNat) }
  else { st with left }

/-- A pass of the loop over words -/
def wordPass (st : Writing) : Pass Writing Left :=
  if st.left ≤ 0 then .leave (st, true)
  else
    let cursor :=
      if st.left < set.cfg.busWidth then
        { st.cursor with
          value := padValue set.cfg st.cursor.value
            (st.chip.flash.word set.cfg.busWidth st.cursor.memory) (st.left.toNat <<< 3) false }
      else st.cursor
    if cursor.value ≠ BitVec.allOnes 64 then
      let (unlock, chip) := set.unlockFor st
      let chip := chip.writeValue set.cfg.busWidth (cursor.memory, cursor.value)
      if set.poll chip cursor.value false = -1 then
        .leave (⟨cursor, st.left, st.offset, unlock,
          chip.send set.cfg.busWidth [AMD_READ_MODE]⟩, false)
      else .next (set.nextWord { st with cursor, unlock, chip })
    else .next (set.nextWord { st with cursor })

/-- The beginning of the callout, with the size that the window leaves -/
def begin (flash : Contents) (left : Nat) : Writing :=
  let pad := set.rq.offset &&& (set.cfg.busWidth - 1)
  let cursor : Cursor := ⟨set.rq.offset - pad, -(pad : Int), set.stale⟩
  let cursor := cursor.load set.rq (min set.cfg.busWidth left)
  let cursor :=
    if pad ≠ 0 then
      { cursor with
        value := padValue set.cfg cursor.value (flash.word set.cfg.busWidth cursor.memory)
          ((set.cfg.busWidth - pad) <<< 3) true }
    else cursor
  ⟨cursor, left, set.rq.offset - pad, false, Chip.array flash⟩

/-- The loop by the write buffer, where it is worth it -/
def buffered (fuel : Nat) (st : Writing) : Option Left :=
  if set.bufferSize > 2 * set.cfg.busWidth ∧ st.left ≥ 4 * set.cfg.busWidth then
    (run set.bufferPass fuel st).map fun (st, goes) =>
      if goes = true ∧ st.left ≠ 0 then
        ({ st with
            cursor := (st.cursor.next set.cfg).load set.rq
              (min st.left.toNat set.cfg.busWidth) }, goes)
      else (st, goes)
  else some (st, true)

/-- The comparison at the end -/
def verified (st : Writing) (size : Int) : Bool :=
  (List.range size.toNat).all fun i =>
    set.rq.buffer (st.cursor.buffer - size + st.left + set.cfg.busWidth + i) =
      st.chip.flash (st.cursor.memory - size + st.left + set.cfg.busWidth + i).toNat

/-- `f3s_aCFI_v2write`, if its loops end within `fuel` passes -/
def v2write (flash : Contents) (fuel : Nat) : Option (Int × Chip) :=
  match set.window.page (set.rq.offset &&& set.commandMask) 0 with
  | none => some (-1, Chip.array flash)
  | some _ =>
    let pad := set.rq.offset &&& (set.cfg.busWidth - 1)
    match set.window.page (set.rq.offset - pad) (set.rq.size + pad) with
    | none => some (-1, Chip.array flash)
    | some left => do
      let size : Int := left - pad
      let (st, goes) ← set.buffered fuel (set.begin flash left)
      if goes = false then return (-1, st.chip)
      let (st, goes) ← run set.wordPass fuel st
      if goes = false then return (-1, st.chip)
      let chip :=
        if st.unlock then st.chip.send set.cfg.busWidth [AMD_BYPASS_RESET1, AMD_BYPASS_RESET2]
        else st.chip
      if set.rq.verify = true ∧ set.verified { st with chip } size = false then return (-1, chip)
      return (size, chip)

end Setting

/-! ## What every pass keeps -/

section Passes

namespace Setting

variable (set : Setting) (old : Contents)

/-- The bytes that are written -/
def count : Nat := set.rq.count set.window

def target : Contents := set.rq.target old set.count

/-- The words of a buffered program lie in one page. -/
def OnePage (words : List Nat) : Prop := ∃ page, ∀ a ∈ words, a / set.bufferSize = page

/-- The request is written up to the word `m`. -/
structure Stage (m : Nat) (st : Writing) : Prop where
  flash : Upto old (set.target old) m st.chip.flash
  left : st.left = (set.rq.offset + set.count : Nat) - (m : Int)
  aligned : set.cfg.busWidth ∣ m
  begun : set.rq.offset < m + set.cfg.busWidth
  mode : st.chip.mode = if st.unlock = true then .bypass else .read
  pages : ∀ words ∈ st.chip.buffered, set.OnePage words

/-- The pointers are still at the word before `m`. -/
def Parked (m : Nat) (cursor : Cursor) : Prop :=
  ∃ before, m = before + set.cfg.busWidth ∧ set.rq.offset < m ∧ cursor.At set.rq before

/-- The chip ends its programs in time. -/
def Completes : Prop := ∀ k value dq1, (set.line k value dq1).InTime set.loops

variable {set old} {m : Nat} {st : Writing}

theorem poll_eq (completes : set.Completes) (chip : Chip) (value : BitVec 64) (dq1 : Bool) :
    set.poll chip value dq1 = 0 := Poll.amdPoll_in_time (completes _ _ _)

theorem Parked.load {cursor : Cursor} {n : Nat} (parked : set.Parked m cursor)
    (reaches : m + set.cfg.busWidth ≤ m + n ∨ set.rq.offset + set.count ≤ m + n) :
    ((cursor.next set.cfg).load set.rq n).Loaded set.cfg set.rq old set.count m := by
  obtain ⟨before, rfl, behind, here⟩ := parked
  exact here.next.load (Nat.le_of_lt behind) reaches

theorem loadWords_laid {cursor : Cursor} {chip : Chip} (words : Nat)
    (loaded : cursor.Loaded set.cfg set.rq old set.count m)
    (begun : set.rq.offset < m + set.cfg.busWidth)
    (inside : m + (words + 1) * set.cfg.busWidth ≤ set.rq.offset + set.count)
    (mode : chip.mode = .loading (words + 1)) :
    ∃ cursor' laid,
      set.loadWords (words + 1) (cursor, chip) =
        (cursor', { chip with mode := .full, buffer := chip.buffer ++ laid }) ∧
      Laid set.cfg.busWidth old (set.target old) m laid ∧ laid.length = words + 1 ∧
      set.Parked (m + (words + 1) * set.cfg.busWidth) cursor' := by
  let Good : Nat → Cursor → Prop := fun m cursor =>
    cursor.At set.rq m ∧ set.rq.offset < m + set.cfg.busWidth ∧
      Fits set.cfg.busWidth old (set.target old) m cursor.value
  have start : Good m cursor := by
    refine ⟨loaded.1, begun, loaded.fits ?_⟩
    rw [Nat.succ_mul] at inside
    omega
  have steps : ∀ {m' count : Nat} {cursor : Cursor}, 0 < count →
      m' + (count + 1) * set.cfg.busWidth = m + (words + 1) * set.cfg.busWidth → Good m' cursor →
      (decide (count > 0) : Bool) = true ∧
        Good (m' + set.cfg.busWidth)
          ((cursor.next set.cfg).load set.rq set.cfg.busWidth) := by
    intro m' count cursor some_ ends good
    obtain ⟨here, behind, _⟩ := good
    have next : ((cursor.next set.cfg).load set.rq set.cfg.busWidth).Loaded set.cfg set.rq old
        set.count (m' + set.cfg.busWidth) :=
      here.next.load (Nat.le_of_lt behind) (.inl (Nat.le_refl _))
    refine ⟨decide_eq_true some_, next.1, by omega, next.fits ?_⟩
    have more : set.cfg.busWidth ≤ count * set.cfg.busWidth := Nat.le_mul_of_pos_left _ some_
    rw [Nat.succ_mul] at ends
    omega
  obtain ⟨last, laid, fills, each, length, here, behind, _⟩ :=
    @fillBuffer_laid _ (Chip.writeValue set.cfg.busWidth) _ _ _ _ _ Good m _ words cursor chip
      (fun good => ⟨good.1.1, good.2.2⟩) steps start rfl
  have some_ : laid ≠ [] := by
    intro none
    rw [none] at length
    cases length
  refine ⟨last, laid, ?_, each, length, m + words * set.cfg.busWidth, ?_, ?_, here⟩
  · rw [← length] at mode
    rw [← Chip.writeValues_eq some_ mode]
    exact fills
  · rw [Nat.succ_mul]
    omega
  · rw [Nat.succ_mul]
    omega

/-! ### The write buffer -/

theorem wholeWords_eq (left : Int) :
    set.wholeWords left = left.toNat - left.toNat % set.cfg.busWidth := by
  unfold wholeWords
  rw [and_mask_eq busWidth_pow]

/-- Where the pointers stand: at the word `m` with its value if there is as much `left` as is
wanted, and else still before it -/
def Standing (set : Setting) (old : Contents) (wanted : Int) (m : Nat) (st : Writing) : Prop :=
  if wanted ≤ st.left then st.cursor.Loaded set.cfg set.rq old set.count m
  else set.Parked m st.cursor

/-- Programming by the write buffer has come to the word `m`. -/
structure Buffering (set : Setting) (old : Contents) (m : Nat) (st : Writing) : Prop where
  stage : set.Stage old m st
  offset : st.offset = m
  unlock : st.unlock = false
  within : m ≤ set.rq.offset + set.count
  standing : set.Standing old set.cfg.busWidth m st

theorem Buffering.pass (completes : set.Completes) (large : set.bufferSize > 2 * set.cfg.busWidth)
    (buffering : set.Buffering old m st) (enough : (set.cfg.busWidth : Int) ≤ st.left) :
    ∃ m' st', set.bufferPass st = .next st' ∧ m < m' ∧ set.Buffering old m' st' := by
  obtain ⟨stage, rfl, unlock, within, standing⟩ := buffering
  have loaded : st.cursor.Loaded set.cfg set.rq old set.count st.offset := by
    unfold Standing at standing
    rwa [if_pos enough] at standing
  have words : set.cfg.busWidth ∣ set.bufferSize := by
    obtain ⟨p, width⟩ := @busWidth_pow set.cfg
    obtain ⟨q, size⟩ := set.power
    rw [width, size] at large ⊢
    refine Nat.pow_dvd_pow 2 ?_
    have less : 2 ^ p < 2 ^ q := by omega
    exact Nat.le_of_lt ((Nat.pow_lt_pow_iff_right (by decide)).mp less)
  have wide := @busWidth_pos set.cfg
  have left := stage.left
  have mode := stage.mode
  rw [unlock, if_neg Bool.false_ne_true] at mode
  obtain ⟨count, some_, chunk, least, page⟩ :=
    chunk_words words wide (by omega) stage.aligned (by omega : set.cfg.busWidth ≤ st.left.toNat)
  obtain ⟨words, rfl⟩ : ∃ words, count = words + 1 := ⟨count - 1, by omega⟩
  have counted :
      (words + 1) * set.cfg.busWidth / set.cfg.deviceWidth / set.cfg.chipInter = words + 1 := by
    rw [Nat.div_div_eq_div_mul]
    exact Nat.mul_div_cancel _ wide
  obtain ⟨cursor, laid, loads, each, length, parked⟩ :=
    @loadWords_laid set old st.offset st.cursor
      { st.chip with mode := .loading (words + 1), buffer := [] } words loaded stage.begun
      (by omega) rfl
  -- the chip with all words in its write buffer, and then with the words programmed
  have filled : Chip.send set.cfg.busWidth { st.chip with mode := .full, buffer := [] ++ laid }
        [AMD_BUFFER_CONFIRM] =
      Chip.programBuffer set.cfg.busWidth { st.chip with mode := .full, buffer := laid } :=
    Chip.send_confirm rfl
  have here : set.bufferPass st =
      if st.left - ((words + 1) * set.cfg.busWidth : Nat) ≥ set.cfg.busWidth then
        .next ⟨(cursor.next set.cfg).load set.rq set.cfg.busWidth,
          st.left - ((words + 1) * set.cfg.busWidth : Nat),
          st.offset + (words + 1) * set.cfg.busWidth, st.unlock,
          Chip.programBuffer set.cfg.busWidth { st.chip with mode := .full, buffer := laid }⟩
      else
        .next ⟨cursor, st.left - ((words + 1) * set.cfg.busWidth : Nat),
          st.offset + (words + 1) * set.cfg.busWidth, st.unlock,
          Chip.programBuffer set.cfg.busWidth { st.chip with mode := .full, buffer := laid }⟩ := by
    unfold bufferPass
    rw [if_neg (Int.not_lt.mpr enough)]
    dsimp only
    rw [and_mask_eq set.power, wholeWords_eq, chunk, counted, Chip.send_writeBuffer mode,
      @Chip.send_count { st.chip with mode := .count, buffer := [] } _ rfl, Nat.add_sub_cancel,
      loads]
    dsimp only
    rw [filled, poll_eq completes, if_neg (by decide)]
  have stage' : ∀ cursor left unlock offset,
      left = st.left - ((words + 1) * set.cfg.busWidth : Nat) →
      unlock = false →
      set.Stage old (st.offset + (words + 1) * set.cfg.busWidth) ⟨cursor, left, offset, unlock,
        Chip.programBuffer set.cfg.busWidth { st.chip with mode := .full, buffer := laid }⟩ := by
    rintro cursor left unlock offset rfl rfl
    refine ⟨?_, ?_, Nat.dvd_add stage.aligned (Nat.dvd_mul_left _ _), ?_, rfl, ?_⟩
    · have upto := each.upto stage.flash
      rwa [length] at upto
    · dsimp only
      omega
    · have begun := stage.begun
      omega
    · intro words' member
      rcases List.mem_append.mp member with earlier | last
      · exact stage.pages words' earlier
      · obtain rfl := List.mem_singleton.mp last
        refine ⟨st.offset / set.bufferSize, fun a member => ?_⟩
        obtain ⟨word, inside, rfl⟩ := List.mem_map.mp member
        obtain ⟨above, below⟩ := each.mem word inside
        rw [length] at below
        exact page_eq page above (by omega)
  refine ⟨st.offset + (words + 1) * set.cfg.busWidth, ?_⟩
  have moved : st.offset < st.offset + (words + 1) * set.cfg.busWidth :=
    Nat.lt_add_of_pos_right (Nat.mul_pos (Nat.succ_pos _) wide)
  rw [here]
  split
  case isTrue more =>
    refine ⟨_, rfl, moved, stage' _ _ _ _ rfl unlock, rfl, unlock, by omega, ?_⟩
    unfold Standing
    rw [if_pos more]
    exact parked.load (.inl (Nat.le_refl _))
  case isFalse less =>
    refine ⟨_, rfl, moved, stage' _ _ _ _ rfl unlock, rfl, unlock, by omega, ?_⟩
    unfold Standing
    rw [if_neg less]
    exact parked

/-! ### Word by word -/

/-- Programming word by word has come to the word `m`. -/
structure Wording (set : Setting) (old : Contents) (m : Nat) (st : Writing) : Prop where
  stage : set.Stage old m st
  standing : set.Standing old 1 m st

theorem unlockFor_eq (mode : st.chip.mode = if st.unlock = true then .bypass else .read) :
    ∃ unlock, set.unlockFor st =
      (unlock, { st.chip with mode := if unlock = true then .bypassProgram else .program }) := by
  unfold unlockFor
  cases unlock : st.unlock with
  | true =>
    rw [unlock, if_pos rfl] at mode
    rw [if_pos rfl]
    refine ⟨true, ?_⟩
    dsimp only
    rw [if_pos rfl, if_pos rfl, Chip.send_bypassProgram mode]
  | false =>
    rw [unlock, if_neg Bool.false_ne_true] at mode
    rw [if_neg Bool.false_ne_true]
    by_cases short : st.left ≤ 2 * set.cfg.busWidth
    · rw [if_pos short]
      refine ⟨false, ?_⟩
      dsimp only
      rw [if_neg Bool.false_ne_true, if_neg Bool.false_ne_true, Chip.send_program mode]
    · rw [if_neg short]
      refine ⟨true, ?_⟩
      dsimp only
      rw [if_pos rfl, if_pos rfl, Chip.send_bypass mode]
      exact congrArg _ (@Chip.send_bypassProgram { st.chip with mode := .bypass } _ rfl)

/-- The value that is written at the word `m`, padded at the end of the request -/
theorem Wording.value (wording : set.Wording old m st) (some_ : 0 < st.left) :
    ∃ value,
      (if st.left < set.cfg.busWidth then
        { st.cursor with
          value := padValue set.cfg st.cursor.value
            (st.chip.flash.word set.cfg.busWidth st.cursor.memory) (st.left.toNat <<< 3) false }
      else st.cursor) = { st.cursor with value } ∧
      Fits set.cfg.busWidth old (set.target old) m value ∧ st.cursor.At set.rq m := by
  obtain ⟨stage, standing⟩ := wording
  unfold Standing at standing
  rw [if_pos (by omega)] at standing
  have left := stage.left
  split
  case isTrue short =>
    refine ⟨_, rfl, ?_, standing.1⟩
    rw [standing.1.1]
    refine standing.padBack (by omega) (by omega) (by omega) fun k _ => ?_
    rw [stage.flash (m + k), if_neg (by omega)]
  case isFalse long =>
    exact ⟨_, rfl, standing.fits (by omega), standing.1⟩

theorem Stage.nextWord (stage : set.Stage old (m + set.cfg.busWidth)
      { st with left := st.left - set.cfg.busWidth })
    (behind : set.rq.offset < m + set.cfg.busWidth) (here : st.cursor.At set.rq m) :
    set.Wording old (m + set.cfg.busWidth) (set.nextWord st) := by
  have left := stage.left
  dsimp only at left
  unfold Setting.nextWord
  dsimp only
  split
  case isTrue more =>
    refine ⟨⟨stage.flash, stage.left, stage.aligned, stage.begun, stage.mode, stage.pages⟩, ?_⟩
    unfold Standing
    rw [if_pos (show (1 : Int) ≤ st.left - set.cfg.busWidth by omega)]
    refine here.next.load (Nat.le_of_lt behind) ?_
    rcases Nat.le_total set.cfg.busWidth (st.left - set.cfg.busWidth).toNat with whole | part
    · rw [Nat.min_eq_left whole]
      exact .inl (Nat.le_refl _)
    · rw [Nat.min_eq_right part]
      refine .inr ?_
      omega
  case isFalse none =>
    refine ⟨stage, ?_⟩
    unfold Standing
    rw [if_neg (show ¬(1 : Int) ≤ st.left - set.cfg.busWidth by omega)]
    exact ⟨m, rfl, behind, here⟩

theorem Wording.pass (completes : set.Completes) (wording : set.Wording old m st)
    (some_ : 0 < st.left) :
    ∃ st', set.wordPass st = .next st' ∧ set.Wording old (m + set.cfg.busWidth) st' := by
  obtain ⟨value, written, fits, here⟩ := wording.value some_
  have stage := wording.stage
  have left := stage.left
  have wide := @busWidth_pos set.cfg
  unfold wordPass
  rw [if_neg (Int.not_le.mpr some_)]
  dsimp only
  rw [written]
  have next : ∀ flash unlock programs, Upto old (set.target old) (m + set.cfg.busWidth) flash →
      set.Stage old (m + set.cfg.busWidth)
        { st with
          cursor := { st.cursor with value }, left := st.left - set.cfg.busWidth, unlock
          chip := { st.chip with
            flash, programs, mode := if unlock = true then .bypass else .read } } := by
    intro flash unlock programs upto
    refine ⟨upto, ?_, Nat.dvd_add stage.aligned (Nat.dvd_refl _), ?_, rfl, stage.pages⟩
    · dsimp only
      omega
    · have begun := stage.begun
      omega
  split
  case isTrue programs =>
    obtain ⟨unlock, unlocks⟩ := unlockFor_eq stage.mode
    rw [unlocks]
    dsimp only
    rw [Chip.writeValue_eq, poll_eq completes, if_neg (by decide)]
    refine ⟨_, rfl, Stage.nextWord (next _ _ _ ?_) stage.begun here⟩
    rw [here.1]
    exact stage.flash.program fits
  case isFalse blank =>
    refine ⟨_, rfl, Stage.nextWord ?_ stage.begun here⟩
    have same := next st.chip.flash st.unlock st.chip.programs
      (stage.flash.skip fits fun k inside => ?_)
    · rw [← stage.mode] at same
      exact same
    · have small := @busWidth_le set.cfg
      have ones : value = BitVec.allOnes 64 := not_not.mp blank
      rw [ones]
      have all : ∀ k < 8, Value.byte (BitVec.allOnes 64) k = 0xff := by decide
      exact all k (by omega)

/-! ### The whole request -/

theorem page_begin (inside : set.rq.offset < set.window.stop) :
    set.window.page (set.rq.offset - set.rq.offset % set.cfg.busWidth)
        (set.rq.size + set.rq.offset % set.cfg.busWidth) =
      some (set.count + set.rq.offset % set.cfg.busWidth) := by
  have part := Nat.mod_le set.rq.offset set.cfg.busWidth
  unfold Window.page Setting.count Request.count
  rw [if_pos (by omega)]
  refine congrArg some ?_
  omega

theorem begin_loaded (flash : Contents) :
    let base := set.rq.offset - set.rq.offset % set.cfg.busWidth
    let st := set.begin flash (set.count + set.rq.offset % set.cfg.busWidth)
    st.cursor.Loaded set.cfg set.rq flash set.count base ∧ set.Stage flash base st ∧
      st.offset = base ∧ st.unlock = false := by
  intro base st
  have wide := @busWidth_pos set.cfg
  have small := @busWidth_le set.cfg
  have part := Nat.mod_lt set.rq.offset wide
  have before := Nat.mod_le set.rq.offset set.cfg.busWidth
  have begun : st = set.begin flash (set.count + set.rq.offset % set.cfg.busWidth) := rfl
  unfold begin at begun
  rw [and_mask_eq busWidth_pow] at begun
  have unpadded : ∀ k, set.rq.offset % set.cfg.busWidth ≤ k → base + k < set.rq.offset + set.count →
      k < set.cfg.busWidth →
      flash (base + k) &&& Value.byte (Value.memcpy set.stale 0
        (fun k => set.rq.buffer (-((set.rq.offset % set.cfg.busWidth : Nat) : Int) + k))
        (min set.cfg.busWidth (set.count + set.rq.offset % set.cfg.busWidth))) k =
        set.target flash (base + k) := by
    intro k above within inside
    unfold target Request.target
    rw [Value.byte_memcpy (by omega), if_pos (by omega), if_pos (by omega)]
    have place : -((set.rq.offset % set.cfg.busWidth : Nat) : Int) + ((k - 0 : Nat) : Int) =
        ((base + k : Nat) : Int) - set.rq.offset := by omega
    rw [place]
  have stage : set.Stage flash base st := by
    rw [begun]
    refine ⟨Upto.start flash _ fun x below => ?_, ?_, Nat.dvd_sub_mod _, ?_, rfl, ?_⟩
    · unfold target Request.target
      exact if_neg (by omega)
    · dsimp only
      omega
    · omega
    · exact fun words none => absurd none List.not_mem_nil
  refine ⟨?_, stage, by rw [begun], by rw [begun]⟩
  rw [begun]
  dsimp only
  split
  case isTrue padded =>
    refine ⟨⟨rfl, ?_⟩, fun k inside within => ?_⟩
    · unfold Cursor.load
      dsimp only
      omega
    · dsimp only
      rw [byte_padFront part (by omega)]
      split
      case isTrue below =>
        unfold Cursor.load Contents.word Request.target
        dsimp only
        rw [Value.byte_memcpy (by omega), if_pos (by omega), if_neg (by omega), Nat.sub_zero,
          BitVec.and_self]
      case isFalse above => exact unpadded k (Nat.le_of_not_lt above) within inside
  case isFalse unpadded_ =>
    refine ⟨⟨rfl, ?_⟩, fun k inside within => unpadded k (by omega) within inside⟩
    unfold Cursor.load
    dsimp only
    omega

theorem bufferLoop_ends (completes : set.Completes) (large : set.bufferSize > 2 * set.cfg.busWidth)
    (buffering : set.Buffering old m st) :
    ∃ m' st', Ends set.bufferPass st (st', true) ∧ set.Buffering old m' st' ∧
      st'.left < set.cfg.busWidth := by
  have wide := @busWidth_pos set.cfg
  have goes : ∀ {st t : Writing},
      set.bufferPass st = .next t → (set.cfg.busWidth : Int) ≤ st.left := by
    intro st t here
    by_contra less
    unfold bufferPass at here
    rw [if_pos (Int.not_le.mp less)] at here
    cases here
  have falls : ∀ {st t : Writing}, (∃ m, set.Buffering old m st) → set.bufferPass st = .next t →
      (∃ m, set.Buffering old m t) ∧ t.left.toNat < st.left.toNat := by
    intro st t inv here
    obtain ⟨m, buffering⟩ := inv
    have enough := goes here
    obtain ⟨m', st', next, further, buffering'⟩ := buffering.pass completes large enough
    cases next.symm.trans here
    have left := buffering.stage.left
    have left' := buffering'.stage.left
    exact ⟨⟨m', buffering'⟩, by omega⟩
  obtain ⟨r, t, ends, ⟨m', buffering'⟩, left⟩ :=
    exists_ends_leave (fun st : Writing => st.left.toNat)
      (show ∃ m, set.Buffering old m st from ⟨m, buffering⟩) falls
  have short : t.left < set.cfg.busWidth := by
    by_contra long
    obtain ⟨_, _, next, _⟩ := buffering'.pass completes large (Int.not_lt.mp long)
    cases next.symm.trans left
  unfold bufferPass at left
  rw [if_pos short] at left
  cases left
  exact ⟨m', t, ends, buffering', short⟩

theorem buffered_wording (completes : set.Completes) (some_ : 0 < st.left)
    (loaded : st.cursor.Loaded set.cfg set.rq old set.count m) (stage : set.Stage old m st)
    (offset : st.offset = m) (unlock : st.unlock = false) :
    ∃ enough m' st', (∀ fuel ≥ enough, set.buffered fuel st = some (st', true)) ∧
      set.Wording old m' st' := by
  have left := stage.left
  by_cases large : set.bufferSize > 2 * set.cfg.busWidth ∧ st.left ≥ 4 * set.cfg.busWidth
  · have standing : set.Standing old set.cfg.busWidth m st := by
      unfold Standing
      rwa [if_pos (by omega)]
    obtain ⟨m', t, ⟨enough, done⟩, ⟨stage', _, _, within, parked⟩, short⟩ :=
      bufferLoop_ends completes large.1 ⟨stage, offset, unlock, by omega, standing⟩
    have left' := stage'.left
    unfold Standing at parked
    rw [if_neg (Int.not_le.mpr short)] at parked
    have runs : ∀ fuel ≥ enough, set.buffered fuel st =
        some (if true = true ∧ t.left ≠ 0 then
          ({ t with
              cursor := (t.cursor.next set.cfg).load set.rq
                (min t.left.toNat set.cfg.busWidth) }, true)
          else (t, true)) := by
      intro fuel more
      unfold buffered
      rw [if_pos large, run_mono more done]
      rfl
    by_cases none : t.left = 0
    · refine ⟨enough, m', t, fun fuel more => ?_, stage', ?_⟩
      · rw [runs fuel more, if_neg (fun both => both.2 none)]
      · unfold Standing
        rwa [if_neg (by omega)]
    · refine ⟨enough, m', { t with
          cursor := (t.cursor.next set.cfg).load set.rq (min t.left.toNat set.cfg.busWidth) },
        fun fuel more => ?_, ⟨stage'.flash, stage'.left, stage'.aligned, stage'.begun,
          stage'.mode, stage'.pages⟩, ?_⟩
      · rw [runs fuel more, if_pos ⟨rfl, none⟩]
      · unfold Standing
        rw [if_pos (show (1 : Int) ≤ t.left by omega)]
        exact parked.load (.inr (by omega))
  · refine ⟨0, m, st, fun fuel _ => if_neg large, stage, ?_⟩
    unfold Standing
    rwa [if_pos (by omega)]

theorem wordLoop_ends (completes : set.Completes) (wording : set.Wording old m st) :
    ∃ m' st', Ends set.wordPass st (st', true) ∧ set.Stage old m' st' ∧ st'.left ≤ 0 ∧
      set.Parked m' st'.cursor := by
  have wide := @busWidth_pos set.cfg
  have falls : ∀ {st t : Writing}, (∃ m, set.Wording old m st) → set.wordPass st = .next t →
      (∃ m, set.Wording old m t) ∧ t.left.toNat < st.left.toNat := by
    intro st t inv here
    obtain ⟨m, wording⟩ := inv
    have some_ : 0 < st.left := by
      by_contra none
      unfold wordPass at here
      rw [if_pos (Int.not_lt.mp none)] at here
      cases here
    obtain ⟨st', next, wording'⟩ := wording.pass completes some_
    cases next.symm.trans here
    have left := wording.stage.left
    have left' := wording'.stage.left
    exact ⟨⟨_, wording'⟩, by omega⟩
  obtain ⟨r, t, ends, ⟨m', wording'⟩, left⟩ :=
    exists_ends_leave (fun st : Writing => st.left.toNat)
      (show ∃ m, set.Wording old m st from ⟨m, wording⟩) falls
  have none : t.left ≤ 0 := by
    by_contra some_
    obtain ⟨_, next, _⟩ := wording'.pass completes (Int.not_le.mp some_)
    cases next.symm.trans left
  unfold wordPass at left
  rw [if_pos none] at left
  cases left
  have standing := wording'.standing
  unfold Standing at standing
  rw [if_neg (by omega)] at standing
  exact ⟨m', t, ends, wording'.stage, none, standing⟩

theorem verified_eq (stage : set.Stage old m st) (parked : set.Parked m st.cursor) (chip : Chip) :
    set.verified { st with chip } set.count = true ↔
      ∀ i < set.count, set.rq.buffer i = chip.flash (set.rq.offset + i) := by
  obtain ⟨before, rfl, _, memory, buffer⟩ := parked
  have left := stage.left
  have places : ∀ i : Nat,
      st.cursor.buffer - (set.count : Int) + st.left + set.cfg.busWidth + i = i ∧
        ((st.cursor.memory : Int) - (set.count : Int) + st.left + set.cfg.busWidth + i).toNat =
          set.rq.offset + i := by
    intro i
    omega
  unfold verified
  rw [List.all_eq_true]
  dsimp only
  constructor
  · intro all i inside
    have same := of_decide_eq_true (all i (List.mem_range.mpr (by omega)))
    rwa [(places i).1, (places i).2] at same
  · intro all i inside
    refine decide_eq_true ?_
    rw [(places i).1, (places i).2]
    exact all i (by have below := List.mem_range.mp inside; omega)

/-- What the callout returns for what the flash holds in the end -/
def answer (set : Setting) (flash : Contents) : Int :=
  if set.rq.verify = true ∧ ¬∀ i < set.count, set.rq.buffer i = flash (set.rq.offset + i) then -1
  else set.count

end Setting

end Passes

/-! ## The callout -/

/-- On a chip that completes its programs, the callout returns the bytes of the request that lie in
the window. Those are anded into the array and nothing else changes, no buffered program has
words of two pages, and with the verify flag the callout returns -1 exactly when the array does
not hold the buffer then. -/
theorem writes_window (set : Setting) (old : Contents) (completes : set.Completes)
    (inside : set.rq.offset < set.window.stop) :
    ∃ enough chip, (∀ fuel ≥ enough,
        set.v2write old fuel = some (set.answer chip.flash, chip)) ∧
      (∀ x, chip.flash x =
        if set.rq.offset ≤ x ∧ x < set.rq.offset + min set.rq.size (set.window.stop - set.rq.offset)
        then old x &&& set.rq.buffer (x - set.rq.offset) else old x) ∧
      ∀ words ∈ chip.buffered, set.OnePage words := by
  obtain ⟨loaded, stage, offset, unlock⟩ := @Setting.begin_loaded set old
  have counted : 0 < set.count := by
    have positive := set.rq.positive
    unfold Setting.count Request.count
    omega
  have some_ : 0 < (set.begin old (set.count + set.rq.offset % set.cfg.busWidth)).left := by
    have left := stage.left
    omega
  obtain ⟨enough, m, st, buffers, wording⟩ :=
    Setting.buffered_wording completes some_ loaded stage offset unlock
  obtain ⟨m', st', ⟨enough', words⟩, stage', none, parked⟩ :=
    Setting.wordLoop_ends completes wording
  have left := stage'.left
  -- the chip after the reset of unlock bypass
  obtain ⟨mode, chip⟩ : ∃ mode,
      (if st'.unlock then st'.chip.send set.cfg.busWidth [AMD_BYPASS_RESET1, AMD_BYPASS_RESET2]
        else st'.chip) = { st'.chip with mode } := by
    have mode := stage'.mode
    cases unlock : st'.unlock with
    | true =>
      rw [unlock, if_pos rfl] at mode
      exact ⟨_, (if_pos rfl).trans (Chip.send_bypassReset mode)⟩
    | false => exact ⟨st'.chip.mode, if_neg Bool.false_ne_true⟩
  have written : st'.chip.flash = set.target old :=
    stage'.flash.all fun x beyond => by
      unfold Setting.target Request.target
      exact if_neg (by omega)
  refine ⟨max enough enough', { st'.chip with mode }, fun fuel more => ?_, fun x => ?_,
    stage'.pages⟩
  · have commands : ∃ left, set.window.page (set.rq.offset &&& set.commandMask) 0 = some left := by
      have small : set.rq.offset &&& set.commandMask ≤ set.rq.offset := Nat.and_le_left
      exact ⟨_, if_pos (by omega)⟩
    obtain ⟨_, commands⟩ := commands
    have size : ((set.count + set.rq.offset % set.cfg.busWidth : Nat) : Int) -
        (set.rq.offset % set.cfg.busWidth : Nat) = set.count := by omega
    unfold Setting.v2write
    rw [commands]
    dsimp only
    rw [and_mask_eq busWidth_pow, Setting.page_begin inside]
    dsimp only
    rw [buffers fuel (by omega)]
    simp only [Option.bind_eq_bind, Option.bind_some, Option.pure_def, Bool.true_eq_false,
      if_false]
    rw [run_mono (by omega : enough' ≤ fuel) words]
    simp only [Option.bind_some, Bool.true_eq_false, if_false]
    rw [chip, size]
    have compares := Setting.verified_eq stage' parked { st'.chip with mode }
    unfold Setting.answer
    by_cases same : ∀ i < set.count, set.rq.buffer i = st'.chip.flash (set.rq.offset + i)
    · rw [if_neg (fun both => Bool.false_ne_true (both.2.symm.trans (compares.mpr same))),
        if_neg (fun both => both.2 same)]
    · have differ := Bool.eq_false_iff.mpr (compares.not.mpr same)
      by_cases verify : set.rq.verify = true
      · rw [if_pos ⟨verify, differ⟩, if_pos ⟨verify, same⟩]
      · rw [if_neg (fun both => verify both.1), if_neg (fun both => verify both.1)]
  · rw [written]
    rfl

/-- Devices that have ended when they are first read -/
def atOnce (cfg : Flashcfg) (value : BitVec 64) (dq1 : Bool) : Poll.Timeline cfg value dq1 where
  word _ := value
  busy _ := 0
  ending _ := .done
  toggles i _ k runs := absurd runs (by simp)
  inverted i _ k runs := absurd runs (by simp)
  waits i _ k early := absurd early (Nat.not_lt_zero k)
  shows i _ _ k _ := ⟨rfl, rfl⟩
  fails i _ q5 q1 failed := by cases failed

/-- 20 bytes from offset 3 on, on a bus of two bytes with a write buffer of 8 bytes and a window of
16 bytes -/
def acrossPages : Setting where
  cfg := ⟨1, 2, 0x0101, pair_supported⟩
  bufferSize := 8
  window := ⟨16, Window.fits_small⟩
  commandMask := 0
  rq := ⟨3, 20, fun _ => 0x5a, false, by decide⟩
  stale := 0
  loops := BitVec.allOnes 32
  line _ value dq1 := atOnce _ value dq1
  power := ⟨3, rfl⟩

theorem writes_window_small : acrossPages.Completes ∧ ∃ enough chip,
    (∀ fuel ≥ enough, acrossPages.v2write (fun _ => 0xff) fuel = some (13, chip)) ∧
      ∀ x, chip.flash x = if 3 ≤ x ∧ x < 16 then 0x5a else 0xff := by
  have completes : acrossPages.Completes := by
    intro k value dq1
    refine ⟨fun _ _ => rfl, fun _ _ => ?_⟩
    exact (by decide : 0 + 6 ≤ 2 * (BitVec.allOnes 32).toNat)
  obtain ⟨enough, chip, returns, written, _⟩ :=
    writes_window acrossPages (fun _ => 0xff) completes (by decide)
  refine ⟨completes, enough, chip, fun fuel more => ?_, fun x => ?_⟩
  · rw [returns fuel more]
    rfl
  · rw [written x]
    have anded : (0xff : BitVec 8) &&& 0x5a = 0x5a := by decide
    exact if_congr Iff.rfl anded rfl

end Mx6xBsp.Flash.Acfi
