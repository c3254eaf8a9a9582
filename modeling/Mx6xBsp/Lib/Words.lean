import Mathlib.Logic.Function.Basic
import Mathlib.Data.Nat.Basic

/-!
# Little-endian words in byte memory

A memory, or a window on one, is a function from addresses to bytes. `word16`
and `word32` read a little-endian word and `put16` and `put32` write one;
a word written somewhere is read back there and nowhere else. `byteSum` is the sum of the
words of any number of bytes.
-/

namespace Words

abbrev Bytes := Nat → UInt8

def word16 (f : Bytes) (a : Nat) : Nat := (f a).toNat + 256 * (f (a + 1)).toNat

def word32 (f : Bytes) (a : Nat) : Nat := word16 f a + 65536 * word16 f (a + 2)

def put16 (f : Bytes) (a v : Nat) : Bytes :=
  Function.update (Function.update f a (UInt8.ofNat v)) (a + 1) (UInt8.ofNat (v / 256))

def put32 (f : Bytes) (a v : Nat) : Bytes := put16 (put16 f a v) (a + 2) (v / 65536)

/-- The sum of `n` words from `a` on, to 32 bits. -/
def wordSum (f : Bytes) (a : Nat) : Nat → Nat
  | 0 => 0
  | n + 1 => (word32 f a + wordSum f (a + 4) n) % 4294967296

variable {f g : Bytes} {a b v : Nat}

theorem word16_lt : word16 f a < 65536 := by
  have := (f a).toNat_lt
  have := (f (a + 1)).toNat_lt
  unfold word16
  omega

theorem word32_lt : word32 f a < 4294967296 := by
  have := word16_lt (f := f) (a := a)
  have := word16_lt (f := f) (a := a + 2)
  unfold word32
  omega

theorem word16_congr (low : f a = g a) (high : f (a + 1) = g (a + 1)) :
    word16 f a = word16 g a := by
  unfold word16
  rw [low, high]

theorem word32_congr (same : ∀ i, i < 4 → f (a + i) = g (a + i)) : word32 f a = word32 g a := by
  have low : word16 f a = word16 g a := word16_congr (same 0 (by decide)) (same 1 (by decide))
  have high : word16 f (a + 2) = word16 g (a + 2) :=
    word16_congr (same 2 (by decide)) (same 3 (by decide))
  unfold word32
  rw [low, high]

theorem put16_of_ne (low : b ≠ a) (high : b ≠ a + 1) : put16 f a v b = f b := by
  unfold put16
  rw [Function.update_of_ne high, Function.update_of_ne low]

theorem put16_low : put16 f a v a = UInt8.ofNat v := by
  unfold put16
  rw [Function.update_of_ne (by omega), Function.update_self]

theorem put16_high : put16 f a v (a + 1) = UInt8.ofNat (v / 256) := Function.update_self ..

theorem word16_put16 : word16 (put16 f a v) a = v % 65536 := by
  unfold word16
  rw [put16_low, put16_high, UInt8.toNat_ofNat', UInt8.toNat_ofNat']
  omega

theorem word16_put16_apart (apart : a + 2 ≤ b ∨ b + 2 ≤ a) :
    word16 (put16 f a v) b = word16 f b :=
  word16_congr (put16_of_ne (by omega) (by omega)) (put16_of_ne (by omega) (by omega))

theorem put32_of_ne (outside : b < a ∨ a + 4 ≤ b) : put32 f a v b = f b := by
  unfold put32
  rw [put16_of_ne (by omega) (by omega), put16_of_ne (by omega) (by omega)]

theorem word32_put32 : word32 (put32 f a v) a = v % 4294967296 := by
  unfold word32 put32
  rw [word16_put16_apart (by omega), word16_put16, word16_put16]
  omega

theorem word32_put32_apart (apart : a + 4 ≤ b ∨ b + 4 ≤ a) :
    word32 (put32 f a v) b = word32 f b :=
  word32_congr fun _ hi => put32_of_ne (by omega)

theorem wordSum_lt {n : Nat} : wordSum f a n < 4294967296 := by
  cases n with
  | zero => exact Nat.zero_lt_succ _
  | succ n => exact Nat.mod_lt _ (by decide)

theorem wordSum_congr {n : Nat} (same : ∀ i, i < 4 * n → f (a + i) = g (a + i)) :
    wordSum f a n = wordSum g a n := by
  induction n generalizing a with
  | zero => rfl
  | succ n ih =>
    have head : word32 f a = word32 g a := word32_congr fun i hi => same i (by omega)
    have tail : wordSum f (a + 4) n = wordSum g (a + 4) n := ih fun i hi => by
      have := same (4 + i) (by omega)
      rwa [← Nat.add_assoc] at this
    rw [wordSum, wordSum, head, tail]

/-- Two memories that differ in one word at most have sums that differ by its change. -/
theorem wordSum_change {n i : Nat} (within : i < n)
    (same : ∀ j, j < 4 * n → j < 4 * i ∨ 4 * i + 4 ≤ j → f (a + j) = g (a + j)) :
    (wordSum f a n + word32 g (a + 4 * i)) % 4294967296 =
      (wordSum g a n + word32 f (a + 4 * i)) % 4294967296 := by
  induction n generalizing a i with
  | zero => omega
  | succ n ih =>
    rw [wordSum, wordSum]
    cases i with
    | zero =>
      have tail : wordSum f (a + 4) n = wordSum g (a + 4) n := wordSum_congr fun j hj => by
        have := same (4 + j) (by omega) (Or.inr (by omega))
        rwa [← Nat.add_assoc] at this
      rw [tail]
      simp only [Nat.mul_zero, Nat.add_zero]
      omega
    | succ i =>
      have head : word32 f a = word32 g a :=
        word32_congr fun j hj => same j (by omega) (Or.inl (by omega))
      have tail := ih (a := a + 4) (i := i) (by omega) fun j hj outside => by
        have := same (4 + j) (by omega) (by omega)
        rwa [← Nat.add_assoc] at this
      rw [show a + 4 * (i + 1) = a + 4 + 4 * i by omega, head]
      omega

/-- Storing the complement of the sum in a word that was zero brings the sum to zero. -/
theorem wordSum_close {n i : Nat} (within : i < n) (zero : word32 f (a + 4 * i) = 0) :
    wordSum (put32 f (a + 4 * i) ((4294967296 - wordSum f a n) % 4294967296)) a n = 0 := by
  have change := wordSum_change (f := put32 f (a + 4 * i)
    ((4294967296 - wordSum f a n) % 4294967296)) (g := f) (a := a) within
    fun j _ outside => put32_of_ne (by omega)
  have sum := wordSum_lt (f := f) (a := a) (n := n)
  have new := wordSum_lt (f := put32 f (a + 4 * i)
    ((4294967296 - wordSum f a n) % 4294967296)) (a := a) (n := n)
  rw [zero, word32_put32] at change
  omega

/-! ## The words of a number of bytes -/

/-- The first `len` bytes, and zeros behind them -/
def padded (f : Bytes) (len : Nat) : Bytes := fun k => if k < len then f k else 0

/-- The sum of the words of `len` bytes, a short last word filled up with zeros -/
def byteSum (f : Bytes) (len : Nat) : Nat := wordSum (padded f len) 0 ((len + 3) / 4)

theorem wordSum_add (m n : Nat) :
    wordSum f a (m + n) = (wordSum f a m + wordSum f (a + 4 * m) n) % 4294967296 := by
  induction m generalizing a with
  | zero =>
    rw [Nat.zero_add, wordSum, Nat.zero_add, Nat.mul_zero, Nat.add_zero,
      Nat.mod_eq_of_lt wordSum_lt]
  | succ m ih =>
    rw [Nat.add_right_comm, wordSum, wordSum, ih, show a + 4 + 4 * m = a + 4 * (m + 1) by omega]
    omega

theorem word32_shift (b : Nat) : word32 (fun k => f (b + k)) a = word32 f (b + a) := rfl

theorem wordSum_shift (b n : Nat) : wordSum (fun k => f (b + k)) a n = wordSum f (b + a) n := by
  induction n generalizing a with
  | zero => rfl
  | succ n ih => rw [wordSum, wordSum, word32_shift, ih, Nat.add_assoc]

theorem byteSum_add (f : Bytes) (m len : Nat) :
    byteSum f (4 * m + len) =
      (wordSum f 0 m + byteSum (fun k => f (4 * m + k)) len) % 4294967296 := by
  have words : (4 * m + len + 3) / 4 = m + (len + 3) / 4 := by omega
  have whole : wordSum (padded f (4 * m + len)) 0 m = wordSum f 0 m :=
    wordSum_congr fun i within => if_pos (by omega)
  have rest : padded (fun k => f (4 * m + k)) len =
      fun k => padded f (4 * m + len) (4 * m + k) := by
    funext k
    simp [padded]
  unfold byteSum
  rw [words, wordSum_add, whole, rest, wordSum_shift]
  simp

theorem word16_inj (same : word16 f a = word16 g a) : f a = g a ∧ f (a + 1) = g (a + 1) := by
  have := (f a).toNat_lt
  have := (g a).toNat_lt
  unfold word16 at same
  exact ⟨UInt8.toNat_inj.mp (by omega), UInt8.toNat_inj.mp (by omega)⟩

theorem word32_inj (same : word32 f a = word32 g a) : ∀ i < 4, f (a + i) = g (a + i) := by
  have := word16_lt (f := f) (a := a)
  have := word16_lt (f := g) (a := a)
  unfold word32 at same
  obtain ⟨first, second⟩ := word16_inj (by omega : word16 f a = word16 g a)
  obtain ⟨third, fourth⟩ := word16_inj (by omega : word16 f (a + 2) = word16 g (a + 2))
  intro i less
  rcases (by omega : i = 0 ∨ i = 1 ∨ i = 2 ∨ i = 3) with rfl | rfl | rfl | rfl
  · exact first
  · exact second
  · exact third
  · exact fourth

/-- Memories that differ behind the first `len` bytes have one sum just if the last word is filled
up with the same. -/
theorem wordSum_eq_iff {len : Nat} (same : ∀ k < len, f k = g k) :
    wordSum f 0 ((len + 3) / 4) = wordSum g 0 ((len + 3) / 4) ↔
      ∀ k, len ≤ k → k < 4 * ((len + 3) / 4) → f k = g k := by
  constructor
  · intro sum k behind before
    obtain ⟨n, words⟩ : ∃ n, (len + 3) / 4 = n + 1 := ⟨(len + 3) / 4 - 1, by omega⟩
    have first : wordSum f 0 n = wordSum g 0 n := wordSum_congr fun i within => by
      rw [Nat.zero_add]
      exact same i (by omega)
    have last : word32 f (4 * n) = word32 g (4 * n) := by
      have := wordSum_lt (f := g) (a := 0) (n := n)
      have := word32_lt (f := f) (a := 4 * n)
      have := word32_lt (f := g) (a := 4 * n)
      rw [words, wordSum_add, wordSum_add, first] at sum
      simp only [wordSum, Nat.zero_add, Nat.add_zero] at sum
      omega
    have place := word32_inj last (k - 4 * n) (by omega)
    rw [Nat.add_sub_cancel' (by omega)] at place
    exact place
  · intro filled
    apply wordSum_congr
    intro i within
    rw [Nat.zero_add]
    by_cases before : i < len
    · exact same i before
    · exact filled i (Nat.not_lt.mp before) within

end Words
