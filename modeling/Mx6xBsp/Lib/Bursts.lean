import Mathlib.Data.BitVec
import Mathlib.Data.List.Basic

/-!
# Bursts of bits out of words

A burst shifts bits out of a row of words, the most significant bit first. Where the bits do
not fill the words, the first word is the short one and only its low bits count. `wire` is
how bytes look on the line, and what a burst of whole bytes shifts out are the bytes that
`burstBytes` reads off the words (`shifted_eq_wire`). Bytes are told apart on the line
(`wire_injective`), so that a burst that arrives can be read off the words in the same way.
-/

namespace Bursts

abbrev Byte := BitVec 8

variable {w : Nat}

/-! ## Bits -/

/-- The low bits of a word, the most significant one first -/
def bitsMsb : Nat → BitVec w → List Bool
  | 0, _ => []
  | n + 1, v => v.getLsbD n :: bitsMsb n v

@[simp] theorem length_bitsMsb (n : Nat) (v : BitVec w) : (bitsMsb n v).length = n := by
  induction n with
  | zero => rfl
  | succ n ih => simp [bitsMsb, ih]

theorem bitsMsb_add (m n : Nat) (v : BitVec w) :
    bitsMsb (m + n) v = bitsMsb m (v >>> n) ++ bitsMsb n v := by
  induction m with
  | zero => simp [bitsMsb]
  | succ m ih =>
    rw [Nat.add_right_comm]
    simp [bitsMsb, ih, Nat.add_comm n m]

theorem bitsMsb_congr {u : Nat} {v : BitVec w} {v' : BitVec u} {n : Nat}
    (same : ∀ i < n, v.getLsbD i = v'.getLsbD i) : bitsMsb n v = bitsMsb n v' := by
  induction n with
  | zero => rfl
  | succ n ih =>
    rw [bitsMsb, bitsMsb, same n (Nat.lt_succ_self n),
      ih fun i below => same i (Nat.lt_succ_of_lt below)]

theorem getLsbD_of_bitsMsb_eq {v v' : BitVec w} {n : Nat} (same : bitsMsb n v = bitsMsb n v') :
    ∀ i < n, v.getLsbD i = v'.getLsbD i := by
  induction n with
  | zero =>
    intro i below
    exact absurd below (Nat.not_lt_zero i)
  | succ n ih =>
    intro i below
    obtain ⟨top, rest⟩ := List.cons.inj same
    rcases Nat.lt_succ_iff_lt_or_eq.mp below with lower | rfl
    · exact ih rest i lower
    · exact top

/-! ## Bytes -/

/-- The byte of a word from a place on -/
def byteAt (v : BitVec w) (place : Nat) : Byte := (v >>> place).setWidth 8

/-- The low bytes of a word, the most significant one first -/
def bytesOf : Nat → BitVec w → List Byte
  | 0, _ => []
  | k + 1, v => byteAt v (8 * k) :: bytesOf k v

/-- Bytes on the line -/
def wire (bytes : List Byte) : List Bool := bytes.flatMap (bitsMsb 8)

@[simp] theorem length_bytesOf (k : Nat) (v : BitVec w) : (bytesOf k v).length = k := by
  induction k with
  | zero => rfl
  | succ k ih => simp [bytesOf, ih]

theorem wire_append (bytes more : List Byte) : wire (bytes ++ more) = wire bytes ++ wire more :=
  List.flatMap_append

theorem wire_flatMap {α : Type*} (items : List α) (f : α → List Byte) :
    wire (items.flatMap f) = items.flatMap fun a => wire (f a) :=
  List.flatMap_assoc

theorem bitsMsb_byteAt (v : BitVec w) (place : Nat) :
    bitsMsb 8 (byteAt v place) = bitsMsb 8 (v >>> place) := by
  apply bitsMsb_congr
  intro i below
  simp [byteAt, below]

theorem bitsMsb_eq_wire (k : Nat) (v : BitVec w) : bitsMsb (8 * k) v = wire (bytesOf k v) := by
  induction k with
  | zero => rfl
  | succ k ih =>
    rw [Nat.mul_succ, Nat.add_comm, bitsMsb_add, ih, bytesOf, ← bitsMsb_byteAt]
    rfl

theorem wire_injective {bytes more : List Byte} (same : wire bytes = wire more) :
    bytes = more := by
  induction bytes generalizing more with
  | nil =>
    cases more with
    | nil => rfl
    | cons b more => exact absurd same.symm (List.cons_ne_nil _ _)
  | cons a bytes ih =>
    cases more with
    | nil => exact absurd same (List.cons_ne_nil _ _)
    | cons b more =>
      have ⟨first, rest⟩ : bitsMsb 8 a = bitsMsb 8 b ∧ wire bytes = wire more :=
        List.append_inj same (by simp)
      rw [BitVec.eq_of_getLsbD_eq (getLsbD_of_bitsMsb_eq first), ih rest]

/-! ## Words put together of bytes -/

theorem byteAt_or (v v' : BitVec w) (place : Nat) :
    byteAt (v ||| v') place = byteAt v place ||| byteAt v' place := by
  simp [byteAt, BitVec.ushiftRight_or_distrib, BitVec.setWidth_or]

theorem byteAt_put (b : Byte) {p q : Nat} (place : p % 8 = 0) (place' : q % 8 = 0)
    (room : p + 8 ≤ w) : byteAt (b.setWidth w <<< p) q = if p = q then b else 0#8 := by
  apply BitVec.eq_of_getLsbD_eq
  intro k below
  simp only [byteAt, BitVec.getLsbD_setWidth, BitVec.getLsbD_ushiftRight,
    BitVec.getLsbD_shiftLeft, below, decide_true, Bool.true_and]
  rcases Nat.lt_trichotomy p q with lower | same | higher
  · have beyond : b.getLsbD (q + k - p) = false := BitVec.getLsbD_of_ge _ _ (by omega)
    rw [if_neg (Nat.ne_of_lt lower), beyond]
    simp
  · have inside : q + k < w := by omega
    have at_ : q + k - p = k := by omega
    have above : ¬ q + k < p := by omega
    have narrow : k < w := by omega
    simp [if_pos same, inside, at_, above, narrow]
  · have under : q + k < p := by omega
    rw [if_neg (Nat.ne_of_gt higher)]
    simp [under]

/-! ## Bursts -/

/-- The number of words that a burst takes -/
def wordsFor (w count : Nat) : Nat := (count + w - 1) / w

/-- The bits that a burst of `count` bits shifts out of words of `w` bits -/
def shifted (count : Nat) : List (BitVec w) → List Bool
  | [] => []
  | first :: rest => bitsMsb ((count - 1) % w + 1) first ++ rest.flatMap (bitsMsb w)

/-- The bytes that a burst of `count` bytes shifts out of words of `k` bytes -/
def burstBytes (k count : Nat) : List (BitVec w) → List Byte
  | [] => []
  | first :: rest => bytesOf ((count - 1) % k + 1) first ++ rest.flatMap (bytesOf k)

/-- The words are what a burst of `count` bits takes, and the bits what it shifts out of them. -/
structure Burst (count : Nat) (words : List (BitVec w)) (bits : List Bool) : Prop where
  length : words.length = wordsFor w count
  bits : shifted count words = bits

variable {k count : Nat} {words : List (BitVec w)}

theorem shifted_eq_wire (whole : w = 8 * k) (pos : 0 < count) :
    shifted (8 * count) words = wire (burstBytes k count words) := by
  subst whole
  cases words with
  | nil => rfl
  | cons first rest =>
    have short : (8 * count - 1) % (8 * k) + 1 = 8 * ((count - 1) % k + 1) := by
      have low : (8 * count - 1) % 8 = 7 := by omega
      have high : (8 * count - 1) / 8 = count - 1 := by omega
      rw [Nat.mod_mul, low, high]
      omega
    rw [shifted, burstBytes, wire_append, wire_flatMap, short, bitsMsb_eq_wire]
    congr 2
    funext v
    exact bitsMsb_eq_wire k v

/-! ## Bytes put into words -/

/-- The word with the bytes in its low bits, the first one on top -/
def ofBytes (w : Nat) : List Byte → BitVec w
  | [] => 0
  | b :: bytes => b.setWidth w <<< (8 * bytes.length) ||| ofBytes w bytes

/-- Whole words of `k` bytes -/
def wordsOf (w k : Nat) : Nat → List Byte → List (BitVec w)
  | 0, _ => []
  | n + 1, bytes => ofBytes w (bytes.take k) :: wordsOf w k n (bytes.drop k)

/-- The words of a burst: the first one takes what does not fill a whole one. -/
def frame (w k : Nat) (bytes : List Byte) : List (BitVec w) :=
  let short := (bytes.length - 1) % k + 1
  ofBytes w (bytes.take short) :: wordsOf w k ((bytes.length - 1) / k) (bytes.drop short)

theorem byteAt_ofBytes_above {bytes : List Byte} (fits : 8 * bytes.length ≤ w) {j : Nat}
    (above : bytes.length ≤ j) : byteAt (ofBytes w bytes) (8 * j) = 0#8 := by
  induction bytes with
  | nil => simp [ofBytes, byteAt]
  | cons b bytes ih =>
    rw [List.length_cons] at fits above
    rw [ofBytes, byteAt_or, ih (by omega) (by omega),
      byteAt_put b (by omega) (by omega) (by omega), if_neg (by omega)]
    rfl

theorem bytesOf_or_put (b : Byte) (v : BitVec w) {n k : Nat} (room : 8 * n + 8 ≤ w)
    (low : k ≤ n) : bytesOf k (b.setWidth w <<< (8 * n) ||| v) = bytesOf k v := by
  induction k with
  | zero => rfl
  | succ k ih =>
    rw [bytesOf, bytesOf, ih (by omega), byteAt_or,
      byteAt_put b (by omega) (by omega) (by omega), if_neg (by omega), BitVec.zero_or]

theorem bytesOf_ofBytes (bytes : List Byte) (fits : 8 * bytes.length ≤ w) :
    bytesOf bytes.length (ofBytes w bytes) = bytes := by
  induction bytes with
  | nil => rfl
  | cons b bytes ih =>
    rw [List.length_cons] at fits
    rw [List.length_cons, bytesOf, ofBytes, bytesOf_or_put b _ (by omega) (Nat.le_refl _),
      ih (by omega), byteAt_or, byteAt_put b (by omega) (by omega) (by omega), if_pos rfl,
      byteAt_ofBytes_above (by omega) (Nat.le_refl _), BitVec.or_zero]

theorem wordsOf_bytes (n : Nat) (bytes : List Byte) (fits : 8 * k ≤ w)
    (length : bytes.length = k * n) :
    (wordsOf w k n bytes).length = n ∧ (wordsOf w k n bytes).flatMap (bytesOf k) = bytes := by
  induction n generalizing bytes with
  | zero =>
    obtain rfl := List.eq_nil_of_length_eq_zero length
    exact ⟨rfl, rfl⟩
  | succ n ih =>
    have first : (bytes.take k).length = k := by
      rw [List.length_take, length, Nat.mul_succ]
      omega
    have ⟨count, rest⟩ := ih (bytes.drop k) (by
      rw [List.length_drop, length, Nat.mul_succ]
      omega)
    have whole := bytesOf_ofBytes (w := w) (bytes.take k) (by omega)
    rw [first] at whole
    constructor
    · rw [wordsOf, List.length_cons, count]
    · rw [wordsOf, List.flatMap_cons, whole, rest, List.take_append_drop]

theorem burst_frame (whole : w = 8 * k) (pos : 0 < k) {bytes : List Byte} (some : bytes ≠ []) :
    Burst (8 * bytes.length) (frame w k bytes) (wire bytes) := by
  have count : 0 < bytes.length := List.length_pos_iff.mpr some
  have split := Nat.div_add_mod (bytes.length - 1) k
  have below : (bytes.length - 1) % k < k := Nat.mod_lt _ pos
  have rest : (bytes.drop ((bytes.length - 1) % k + 1)).length = k * ((bytes.length - 1) / k) := by
    rw [List.length_drop]
    omega
  have ⟨length, flat⟩ := wordsOf_bytes (w := w) _ _ (by omega) rest
  have short : (bytes.take ((bytes.length - 1) % k + 1)).length =
      (bytes.length - 1) % k + 1 := by
    rw [List.length_take]
    omega
  have first := bytesOf_ofBytes (w := w) (bytes.take ((bytes.length - 1) % k + 1))
    (by omega)
  rw [short] at first
  constructor
  · have bits : (8 * bytes.length + 8 * k - 1) / 8 = bytes.length - 1 + k := by omega
    rw [frame, List.length_cons, length, wordsFor, whole, ← Nat.div_div_eq_div_mul, bits,
      Nat.add_div_right _ pos]
  · rw [shifted_eq_wire whole count, frame, burstBytes, first, flat, List.take_append_drop]

end Bursts
