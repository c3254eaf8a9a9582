import Mx6xBsp.Flash.Poll

/-!
# Writing to flash word by word

What the write callouts of the AMD, Spansion and Intel sets have in common: a request and the
window the page callback gives it, values that are loaded from the buffer and padded with what
the flash holds, and an array in which a word that is programmed is anded with the old one.
Words that each come out as wanted make the whole request come out as wanted (`Upto.program`,
`Laid.upto`).
-/

namespace Mx6xBsp.Flash

/-! ## Values -/

namespace Value

/-- A byte of a value, the lowest one first -/
def byte (value : BitVec 64) (k : Nat) : BitVec 8 := (value >>> (8 * k)).setWidth 8

def setByte (value : BitVec 64) (k : Nat) (b : BitVec 8) : BitVec 64 :=
  (value &&& ~~~((0xff : BitVec 64) <<< (8 * k))) ||| (b.setWidth 64 <<< (8 * k))

/-- `memcpy` of `n` bytes to a value, from its byte `first` on -/
def memcpy (value : BitVec 64) (first : Nat) (src : Nat → BitVec 8) : Nat → BitVec 64
  | 0 => value
  | n + 1 => setByte (memcpy value first src n) (first + n) (src n)

variable {value current : BitVec 64} {b : BitVec 8} {src : Nat → BitVec 8}

theorem byte_bit {k j : Nat} (bit : j < 8) :
    (byte value k).getLsbD j = value.getLsbD (8 * k + j) := by
  unfold byte
  rw [BitVec.getLsbD_setWidth, BitVec.getLsbD_ushiftRight, decide_eq_true bit, Bool.true_and]

theorem byte_ext {k : Nat} (same : ∀ j < 8, value.getLsbD (8 * k + j) = b.getLsbD j) :
    byte value k = b :=
  BitVec.eq_of_getLsbD_eq fun j bit => (byte_bit bit).trans (same j bit)

theorem setByte_bit {k i : Nat} (inside : i < 64) :
    (setByte value k b).getLsbD i =
      if 8 * k ≤ i ∧ i < 8 * k + 8 then b.getLsbD (i - 8 * k) else value.getLsbD i := by
  have low : ∀ j, (0xff : BitVec 64).getLsbD j = decide (j < 8) := by
    intro j
    rcases Nat.lt_or_ge j 64 with small | large
    · have all : ∀ j < 64, (0xff : BitVec 64).getLsbD j = decide (j < 8) := by decide
      exact all j small
    · rw [BitVec.getLsbD_of_ge _ _ large]
      exact (decide_eq_false (by omega)).symm
  unfold setByte
  rw [BitVec.getLsbD_or, BitVec.getLsbD_and, BitVec.getLsbD_not, BitVec.getLsbD_shiftLeft,
    BitVec.getLsbD_shiftLeft, BitVec.getLsbD_setWidth, low, decide_eq_true inside]
  rcases Nat.lt_or_ge i (8 * k) with below | above
  · rw [if_neg (by omega), decide_eq_true below]
    simp
  · rcases Nat.lt_or_ge i (8 * k + 8) with within | beyond
    · rw [if_pos ⟨above, within⟩, decide_eq_false (Nat.not_lt.mpr above),
        decide_eq_true (show i - 8 * k < 8 by omega),
        decide_eq_true (show i - 8 * k < 64 by omega)]
      simp
    · rw [if_neg (by omega), decide_eq_false (Nat.not_lt.mpr above),
        decide_eq_false (show ¬i - 8 * k < 8 by omega),
        BitVec.getLsbD_of_ge b _ (show 8 ≤ i - 8 * k by omega)]
      simp

theorem byte_setByte {k i : Nat} (inside : i < 8) :
    byte (setByte value k b) i = if i = k then b else byte value i := by
  refine byte_ext fun j bit => ?_
  rw [setByte_bit (by omega)]
  split
  case isTrue within =>
    obtain rfl : i = k := by omega
    rw [if_pos rfl, Nat.add_sub_cancel_left]
  case isFalse outside =>
    have other : i ≠ k := by
      rintro rfl
      omega
    rw [if_neg other, byte_bit bit]

theorem byte_memcpy {first n k : Nat} (inside : k < 8) :
    byte (memcpy value first src n) k =
      if first ≤ k ∧ k < first + n then src (k - first) else byte value k := by
  induction n with
  | zero =>
    rw [if_neg (by omega)]
    rfl
  | succ n ih =>
    unfold memcpy
    rw [byte_setByte inside, ih]
    rcases eq_or_ne k (first + n) with rfl | other
    · rw [if_pos rfl, if_pos (by omega), Nat.add_sub_cancel_left]
    · rw [if_neg other]
      exact if_congr (by omega) rfl rfl

theorem eq_ones_iff : value = BitVec.allOnes 64 ↔ ∀ k < 8, byte value k = 0xff := by
  constructor
  · rintro rfl
    decide
  · intro ones
    refine BitVec.eq_of_getLsbD_eq fun i inside => ?_
    have parts := Nat.div_add_mod i 8
    have place := Nat.mod_lt i (by decide : 0 < 8)
    have all : ∀ j < 8, (0xff : BitVec 8).getLsbD j = true := by decide
    have bit := @byte_bit value (i / 8) (i % 8) place
    rw [ones (i / 8) (by omega), all _ place, parts] at bit
    rw [← bit, BitVec.getLsbD_allOnes]
    exact (decide_eq_true inside).symm

end Value

/-! ## Padding -/

section Padding

variable (cfg : Flashcfg)

/-- The mask of `pad_value`, for the bytes at the front or at the back -/
def padMask (shift : Nat) (front : Bool) : BitVec (8 * cfg.busWidth) :=
  if front then BitVec.allOnes _ >>> shift else BitVec.allOnes _ <<< shift

/-- `pad_value`, which changes the member of the union that is as wide as the bus, unless that is
one byte -/
def padValue (value current : BitVec 64) (shift : Nat) (front : Bool) : BitVec 64 :=
  if cfg.busWidth = 1 then value
  else
    let mask := padMask cfg shift front
    let member := (value.setWidth _ &&& ~~~mask) ||| (mask &&& current.setWidth _)
    (value >>> (8 * cfg.busWidth)) <<< (8 * cfg.busWidth) ||| member.setWidth 64

variable {cfg}

theorem busWidth_le : cfg.busWidth ≤ 8 := by
  have all : ∀ entry ∈ multipliers, entry.1.1 * entry.1.2 ≤ 8 := by decide
  exact all _ cfg.supported

theorem busWidth_pos : 0 < cfg.busWidth := Nat.mul_pos cfg.deviceWidth_pos cfg.chipInter_pos

theorem busWidth_pow : ∃ p, cfg.busWidth = 2 ^ p := by
  have all : ∀ entry ∈ multipliers, ∃ p ∈ List.range 4, entry.1.1 * entry.1.2 = 2 ^ p := by decide
  obtain ⟨p, _, same⟩ := all _ cfg.supported
  exact ⟨p, same⟩

theorem busWidth_dvd {n q : Nat} (power : n = 2 ^ q) : n < cfg.busWidth ∨ cfg.busWidth ∣ n := by
  obtain ⟨p, width⟩ := @busWidth_pow cfg
  rw [width, power]
  rcases Nat.lt_or_ge q p with less | more
  · exact Or.inl ((Nat.pow_lt_pow_iff_right (by decide)).mpr less)
  · exact Or.inr (Nat.pow_dvd_pow 2 more)

theorem padValue_bit {value current : BitVec 64} {shift i : Nat} {front : Bool}
    (wide : cfg.busWidth ≠ 1) (inside : i < 64) :
    (padValue cfg value current shift front).getLsbD i =
      if (padMask cfg shift front).getLsbD i = true then current.getLsbD i
      else value.getLsbD i := by
  unfold padValue
  rw [if_neg wide]
  dsimp only
  rw [BitVec.getLsbD_or, BitVec.getLsbD_shiftLeft, BitVec.getLsbD_ushiftRight,
    BitVec.getLsbD_setWidth, BitVec.getLsbD_or, BitVec.getLsbD_and, BitVec.getLsbD_and,
    BitVec.getLsbD_not, BitVec.getLsbD_setWidth, BitVec.getLsbD_setWidth, decide_eq_true inside]
  rcases Nat.lt_or_ge i (8 * cfg.busWidth) with within | beyond
  · rw [decide_eq_true within]
    cases (padMask cfg shift front).getLsbD i <;> simp
  · have none : (padMask cfg shift front).getLsbD i = false := BitVec.getLsbD_of_ge _ _ beyond
    rw [none, decide_eq_false (Nat.not_lt.mpr beyond), Nat.add_sub_cancel' beyond]
    simp

theorem byte_padBeyond {value current : BitVec 64} {shift k : Nat} {front : Bool}
    (beyond : cfg.busWidth ≤ k) (inside : k < 8) :
    Value.byte (padValue cfg value current shift front) k = Value.byte value k := by
  refine Value.byte_ext fun j bit => ?_
  rw [Value.byte_bit bit]
  rcases eq_or_ne cfg.busWidth 1 with narrow | wide
  · unfold padValue
    rw [if_pos narrow]
  · have none : (padMask cfg shift front).getLsbD (8 * k + j) = false :=
      BitVec.getLsbD_of_ge _ _ (by omega)
    rw [padValue_bit wide (by omega), none, if_neg Bool.false_ne_true]

theorem byte_padFront {value current : BitVec 64} {pad k : Nat} (part : pad < cfg.busWidth)
    (inside : k < 8) :
    Value.byte (padValue cfg value current ((cfg.busWidth - pad) <<< 3) true) k =
      if k < pad then Value.byte current k else Value.byte value k := by
  refine Value.byte_ext fun j bit => ?_
  rcases eq_or_ne cfg.busWidth 1 with narrow | wide
  · unfold padValue
    rw [if_pos narrow, if_neg (by omega), Value.byte_bit bit]
  · have mask : (padMask cfg ((cfg.busWidth - pad) <<< 3) true).getLsbD (8 * k + j) = true ↔
        k < pad := by
      unfold padMask
      rw [if_pos rfl, BitVec.getLsbD_ushiftRight, BitVec.getLsbD_allOnes, decide_eq_true_iff,
        Nat.shiftLeft_eq]
      omega
    rw [padValue_bit wide (by omega)]
    rcases Nat.lt_or_ge k pad with below | above
    · rw [if_pos (mask.mpr below), if_pos below, Value.byte_bit bit]
    · rw [if_neg (mask.not.mpr (Nat.not_lt.mpr above)), if_neg (Nat.not_lt.mpr above),
        Value.byte_bit bit]

theorem byte_padBack {value current : BitVec 64} {left k : Nat} (some_ : 0 < left)
    (part : left < cfg.busWidth) (inside : k < cfg.busWidth) :
    Value.byte (padValue cfg value current (left <<< 3) false) k =
      if k < left then Value.byte value k else Value.byte current k := by
  have small := @busWidth_le cfg
  have wide : cfg.busWidth ≠ 1 := by omega
  refine Value.byte_ext fun j bit => ?_
  have mask : (padMask cfg (left <<< 3) false).getLsbD (8 * k + j) = true ↔ left ≤ k := by
    unfold padMask
    rw [if_neg Bool.false_ne_true, BitVec.getLsbD_shiftLeft, BitVec.getLsbD_allOnes,
      Nat.shiftLeft_eq, decide_eq_true (show 8 * k + j < 8 * cfg.busWidth by omega),
      decide_eq_true (show 8 * k + j - left * 2 ^ 3 < 8 * cfg.busWidth by omega)]
    simp
    omega
  rw [padValue_bit wide (by omega)]
  rcases Nat.lt_or_ge k left with below | above
  · rw [if_neg (mask.not.mpr (Nat.not_le.mpr below)), if_pos below, Value.byte_bit bit]
  · rw [if_pos (mask.mpr above), if_neg (Nat.not_lt.mpr above), Value.byte_bit bit]

end Padding

/-! ## Requests -/

/-- What the callers of a write callout pass: where to, how much, and the memory around the
buffer -/
structure Request where
  offset : Nat
  size : Nat
  buffer : Int → BitVec 8
  verify : Bool
  positive : 0 < size

/-- A linear window. It is mapped as a whole, so that what is left of it fits an `int32_t`. -/
structure Window where
  stop : Nat
  fits : stop < 2 ^ 31

theorem Window.fits_small : 16 < 2 ^ 31 := by decide

/-- The page callback: no pointer, or what is left of the size -/
def Window.page (window : Window) (offset size : Nat) : Option Nat :=
  if offset < window.stop then some (min size (window.stop - offset)) else none

/-- What a flash array holds -/
abbrev Contents := Nat → BitVec 8

/-- The value of the word at `memory`, as `memcpy` takes it -/
def Contents.word (flash : Contents) (width memory : Nat) : BitVec 64 :=
  Value.memcpy 0 0 (fun k => flash (memory + k)) width

/-- The array ands a word with what it holds. -/
def Contents.program (flash : Contents) (width : Nat) (word : Nat × BitVec 64) : Contents :=
  fun x =>
    if word.1 ≤ x ∧ x < word.1 + width then flash x &&& Value.byte word.2 (x - word.1) else flash x

/-- The bytes of the request that lie in the window -/
def Request.count (rq : Request) (window : Window) : Nat := min rq.size (window.stop - rq.offset)

/-- The old contents with the first `n` bytes of the buffer anded in -/
def Request.target (rq : Request) (old : Contents) (n : Nat) : Contents := fun x =>
  if rq.offset ≤ x ∧ x < rq.offset + n then old x &&& rq.buffer (x - rq.offset) else old x

theorem Request.target_inside {rq : Request} {old : Contents} {n x : Nat} (above : rq.offset ≤ x)
    (below : x < rq.offset + n) : rq.target old n x = old x &&& rq.buffer (x - rq.offset) :=
  if_pos ⟨above, below⟩

theorem Request.target_outside {rq : Request} {old : Contents} {n x : Nat}
    (outside : x < rq.offset ∨ rq.offset + n ≤ x) : rq.target old n x = old x :=
  if_neg (by omega)

/-! ## Words that come out as wanted -/

section Sweep

variable {width m : Nat} {old target flash : Contents} {value : BitVec 64}

/-- Everything below `m` has come out as wanted, and the rest is as it was. -/
def Upto (old target : Contents) (m : Nat) (flash : Contents) : Prop :=
  ∀ x, flash x = if x < m then target x else old x

/-- A word at `m` that makes the old contents come out as wanted -/
def Fits (width : Nat) (old target : Contents) (m : Nat) (value : BitVec 64) : Prop :=
  ∀ k < width, old (m + k) &&& Value.byte value k = target (m + k)

/-- Words from `m` on that each make the old contents come out as wanted -/
def Laid (width : Nat) (old target : Contents) : Nat → List (Nat × BitVec 64) → Prop
  | _, [] => True
  | m, word :: words =>
    word.1 = m ∧ Fits width old target m word.2 ∧ Laid width old target (m + width) words

theorem Upto.program (upto : Upto old target m flash) (fits : Fits width old target m value) :
    Upto old target (m + width) (flash.program width (m, value)) := by
  intro x
  unfold Contents.program
  dsimp only
  rcases Nat.lt_or_ge x m with below | above
  · rw [if_neg (by omega), upto x, if_pos below, if_pos (by omega)]
  · rcases Nat.lt_or_ge x (m + width) with within | beyond
    · have fit := fits (x - m) (by omega)
      rw [Nat.add_sub_cancel' above] at fit
      rw [if_pos ⟨above, within⟩, upto x, if_neg (Nat.not_lt.mpr above), if_pos within, fit]
    · rw [if_neg (by omega), upto x, if_neg (by omega), if_neg (by omega)]

theorem Upto.skip (upto : Upto old target m flash) (fits : Fits width old target m value)
    (ones : ∀ k < width, Value.byte value k = 0xff) : Upto old target (m + width) flash := by
  intro x
  rw [upto x]
  rcases Nat.lt_or_ge x m with below | above
  · rw [if_pos below, if_pos (by omega)]
  · rcases Nat.lt_or_ge x (m + width) with within | beyond
    · have fit := fits (x - m) (by omega)
      rw [ones (x - m) (by omega), Nat.add_sub_cancel' above] at fit
      rw [if_neg (Nat.not_lt.mpr above), if_pos within, ← fit]
      exact (BitVec.and_allOnes (x := old x)).symm
    · rw [if_neg (by omega), if_neg (by omega)]

theorem Laid.upto {words : List (Nat × BitVec 64)} (laid : Laid width old target m words)
    (upto : Upto old target m flash) :
    Upto old target (m + words.length * width)
      (words.foldl (fun flash word => flash.program width word) flash) := by
  induction words generalizing m flash with
  | nil =>
    rw [List.length_nil, Nat.zero_mul]
    exact upto
  | cons word words ih =>
    obtain ⟨⟨rfl, fits⟩, rest⟩ := and_assoc.mpr laid
    have next := ih rest (upto.program fits)
    rwa [List.length_cons, Nat.succ_mul, Nat.add_comm (words.length * width), ← Nat.add_assoc]

theorem Upto.start (flash target : Contents) {m : Nat} (same : ∀ x < m, target x = flash x) :
    Upto flash target m flash := by
  intro x
  split
  case isTrue below => exact (same x below).symm
  case isFalse => rfl

theorem Upto.all (upto : Upto old target m flash) (same : ∀ x, m ≤ x → target x = old x) :
    flash = target := by
  funext x
  rw [upto x]
  split
  case isTrue => rfl
  case isFalse beyond => exact (same x (Nat.le_of_not_lt beyond)).symm

end Sweep

/-! ## Chunks of the write buffer -/

theorem and_mask_eq {size x : Nat} (power : ∃ q, size = 2 ^ q) : x &&& (size - 1) = x % size := by
  obtain ⟨q, rfl⟩ := power
  exact Nat.and_two_pow_sub_one_eq_mod x q

theorem chunk_words {width size m left : Nat} (words : width ∣ size) (wide : 0 < width)
    (some_ : 0 < size) (aligned : width ∣ m) (enough : width ≤ left) :
    ∃ count, 0 < count ∧
      min (min size (left - left % width)) (size - m % size) = count * width ∧
      count * width ≤ left ∧ m % size + count * width ≤ size := by
  have page := Nat.mod_lt m some_
  have inPage : width ∣ m % size := (Nat.dvd_mod_iff words).mpr aligned
  have whole : width ∣ left - left % width := Nat.dvd_sub_mod left
  have rest : width ∣ size - m % size := Nat.dvd_sub words inPage
  have first : width ∣ min size (left - left % width) := by
    rcases Nat.le_total size (left - left % width) with less | more
    · rwa [Nat.min_eq_left less]
    · rwa [Nat.min_eq_right more]
  have both : width ∣ min (min size (left - left % width)) (size - m % size) := by
    rcases Nat.le_total (min size (left - left % width)) (size - m % size) with less | more
    · rwa [Nat.min_eq_left less]
    · rwa [Nat.min_eq_right more]
  have word : 0 < left - left % width := by
    have part := Nat.mod_lt left wide
    omega
  obtain ⟨count, chunk⟩ := both
  rw [Nat.mul_comm] at chunk
  refine ⟨count, Nat.pos_of_ne_zero fun zero => ?_, chunk, ?_, ?_⟩
  · rw [zero, Nat.zero_mul] at chunk
    omega
  · omega
  · omega

theorem page_eq {size m x span : Nat} (within : m % size + span ≤ size) (from_ : m ≤ x)
    (below : x < m + span) : x / size = m / size := by
  have some_ : 0 < size := by omega
  have parts := Nat.div_add_mod m size
  have place : x = size * (m / size) + (m % size + (x - m)) := by omega
  have rest : (m % size + (x - m)) / size = 0 := Nat.div_eq_of_lt (by omega)
  rw [place, Nat.mul_add_div some_, rest, Nat.add_zero]

theorem Laid.mem {width m : Nat} {old target : Contents} {words : List (Nat × BitVec 64)}
    (laid : Laid width old target m words) :
    ∀ word ∈ words, m ≤ word.1 ∧ word.1 + width ≤ m + words.length * width := by
  induction words generalizing m with
  | nil => exact fun word none => absurd none List.not_mem_nil
  | cons word words ih =>
    obtain ⟨rfl, _, rest⟩ := laid
    intro word' member
    rw [List.length_cons, Nat.succ_mul]
    rcases List.mem_cons.mp member with rfl | later
    · omega
    · obtain ⟨above, below⟩ := ih rest word' later
      omega

/-! ## The running pointers -/

/-- The pointers to the array and to the buffer, and the value -/
structure Cursor where
  memory : Nat
  buffer : Int
  value : BitVec 64

namespace Cursor

variable (cfg : Flashcfg) (rq : Request)

/-- `memcpy` of `n` bytes from the buffer to the value -/
def load (cursor : Cursor) (n : Nat) : Cursor :=
  { cursor with value := Value.memcpy cursor.value 0 (fun k => rq.buffer (cursor.buffer + k)) n }

/-- The next word -/
def next (cursor : Cursor) : Cursor :=
  { cursor with memory := cursor.memory + cfg.busWidth, buffer := cursor.buffer + cfg.busWidth }

/-- The cursor stands at the word `m`. -/
def At (m : Nat) (cursor : Cursor) : Prop :=
  cursor.memory = m ∧ cursor.buffer = (m : Int) - rq.offset

/-- and has its value, as far as the `n` bytes of the request go. -/
def Loaded (old : Contents) (n m : Nat) (cursor : Cursor) : Prop :=
  At rq m cursor ∧ ∀ k < cfg.busWidth, m + k < rq.offset + n →
    old (m + k) &&& Value.byte cursor.value k = rq.target old n (m + k)

variable {cfg rq} {cursor : Cursor} {old flash : Contents} {n m left : Nat}

theorem At.next (here : At rq m cursor) : At rq (m + cfg.busWidth) (cursor.next cfg) := by
  obtain ⟨rfl, buffer⟩ := here
  refine ⟨rfl, ?_⟩
  unfold Cursor.next
  dsimp only
  omega

theorem At.load (here : At rq m cursor) (behind : rq.offset ≤ m)
    (reaches : m + cfg.busWidth ≤ m + left ∨ rq.offset + n ≤ m + left) :
    Loaded cfg rq old n m (cursor.load rq left) := by
  obtain ⟨rfl, buffer⟩ := here
  refine ⟨⟨rfl, buffer⟩, fun k inside within => ?_⟩
  have small := @busWidth_le cfg
  unfold Cursor.load Request.target
  rw [Value.byte_memcpy (by omega), if_pos (by omega), if_pos (by omega)]
  have place : cursor.buffer + ((k - 0 : Nat) : Int) =
      ((cursor.memory + k : Nat) : Int) - rq.offset := by omega
  rw [place]

theorem Loaded.fits (loaded : Loaded cfg rq old n m cursor)
    (whole : m + cfg.busWidth ≤ rq.offset + n) :
    Fits cfg.busWidth old (rq.target old n) m cursor.value :=
  fun k inside => loaded.2 k inside (by omega)

theorem Loaded.padBack (loaded : Loaded cfg rq old n m cursor) (some_ : 0 < left)
    (part : left < cfg.busWidth) (ends : m + left = rq.offset + n)
    (held : ∀ k < cfg.busWidth, flash (m + k) = old (m + k)) :
    Fits cfg.busWidth old (rq.target old n) m
      (padValue cfg cursor.value (flash.word cfg.busWidth m) (left <<< 3) false) := by
  intro k inside
  have small := @busWidth_le cfg
  rw [byte_padBack some_ part inside]
  split
  case isTrue below => exact loaded.2 k inside (by omega)
  case isFalse beyond =>
    unfold Contents.word Request.target
    rw [Value.byte_memcpy (by omega), if_pos (by omega), if_neg (by omega), Nat.sub_zero,
      held k inside, BitVec.and_self]

end Cursor

/-! ## Filling a write buffer -/

section Fill

variable {κ : Type*} (write : κ → Nat × BitVec 64 → κ) (goes : Nat → Bool)
  (next : Nat → Cursor → Cursor)

/-- The loops that fill a write buffer. After a word it is told how many are still to come, whether
the pointers go on and what the value is then. -/
def fillBuffer : Nat → Cursor × κ → Cursor × κ
  | 0, here => here
  | count + 1, (cursor, chip) =>
    fillBuffer count (if goes count then next count cursor else cursor,
      write chip (cursor.memory, cursor.value))

variable {write goes next} {width : Nat} {old target : Contents} {Good : Nat → Cursor → Prop}

theorem fillBuffer_laid {m stop words : Nat} {cursor : Cursor} {chip : κ}
    (fits : ∀ {m cursor}, Good m cursor →
      cursor.memory = m ∧ Fits width old target m cursor.value)
    (steps : ∀ {m count cursor}, 0 < count → m + (count + 1) * width = stop → Good m cursor →
      goes count = true ∧ Good (m + width) (next count cursor))
    (here : Good m cursor) (ends : m + (words + 1) * width = stop) :
    ∃ last laid,
      fillBuffer write goes next (words + 1) (cursor, chip) =
        (if goes 0 then next 0 last else last, laid.foldl write chip) ∧
      Laid width old target m laid ∧ laid.length = words + 1 ∧
      Good (m + words * width) last := by
  induction words generalizing m cursor chip with
  | zero =>
    obtain ⟨rfl, fit⟩ := fits here
    refine ⟨cursor, [(cursor.memory, cursor.value)], rfl, ⟨rfl, fit, trivial⟩, rfl, ?_⟩
    rwa [Nat.zero_mul, Nat.add_zero]
  | succ words ih =>
    obtain ⟨rfl, fit⟩ := fits here
    obtain ⟨on, here'⟩ := steps (Nat.succ_pos words) ends here
    have further : cursor.memory + width + (words + 1) * width = stop := by
      rw [← ends, Nat.succ_mul (words + 1)]
      omega
    obtain ⟨last, laid, fills, each, length, good⟩ :=
      @ih _ _ (write chip (cursor.memory, cursor.value)) here' further
    refine ⟨last, (cursor.memory, cursor.value) :: laid, ?_, ⟨rfl, fit, each⟩,
      by rw [List.length_cons, length], ?_⟩
    · unfold fillBuffer
      rw [if_pos on]
      exact fills
    · rw [Nat.succ_mul, Nat.add_comm _ width, ← Nat.add_assoc]
      exact good

theorem fillBuffer_keeps {I : κ → Prop} (keeps : ∀ {chip} word, I chip → I (write chip word))
    {words : Nat} {cursor : Cursor} {chip : κ} (start : I chip) :
    I (fillBuffer write goes next words (cursor, chip)).2 := by
  induction words generalizing cursor chip with
  | zero => exact start
  | succ words ih => exact ih (keeps _ start)

end Fill

end Mx6xBsp.Flash
