import Mathlib.Data.BitVec

/-!
# Memories by what was written to them

A memory tells what a read gives after the writes made so far. It may tell anything: only of one
without faults is it known that it gives what was written last to the place that is read, and that
a write elsewhere does not count (`ReadsBack`). `ram` is such a memory. The cells of a region keep
what they hold but for the one that is written (`ReadsBack.cell`).
-/

namespace Histories

inductive Width
  | byte
  | half
  | word
  | double

def Width.bytes : Width → Nat
  | .byte => 1
  | .half => 2
  | .word => 4
  | .double => 8

def Width.bits (w : Width) : Nat := 8 * w.bytes

theorem Width.bytes_pos (w : Width) : 0 < w.bytes := by
  cases w <;> decide

theorem Width.bytes_le (w : Width) : w.bytes ≤ 8 := by
  cases w <;> decide

structure Write (n : Nat) where
  width : Width
  address : BitVec n
  value : BitVec width.bits

/-- What a read gives after the writes so far, the latest first -/
abbrev Memory (n : Nat) := List (Write n) → BitVec n → (w : Width) → BitVec w.bits

variable {n : Nat}

/-- Two accesses that have no byte in common -/
def Apart (a : BitVec n) (w : Width) (b : BitVec n) (w' : Width) : Prop :=
  ∀ i < w.bytes, ∀ j < w'.bytes, a + BitVec.ofNat n i ≠ b + BitVec.ofNat n j

/-- After some number of writes the memory has no faults any more. -/
structure ReadsBack (mem : Memory n) (since : Nat) : Prop where
  same {history : List (Write n)} (w : Width) (a : BitVec n) (v : BitVec w.bits) :
    since ≤ history.length → mem (⟨w, a, v⟩ :: history) a w = v
  apart {history : List (Write n)} {write : Write n} {a : BitVec n} {w : Width} :
    since ≤ history.length → Apart write.address write.width a w →
    mem (write :: history) a w = mem history a w

/-! ## Cells -/

/-- The cell with a number, in a region of cells of one width -/
def cell (base : BitVec n) (w : Width) (i : Nat) : BitVec n := base + BitVec.ofNat n (i * w.bytes)

theorem apart_cell {base : BitVec n} {w : Width} {i j count : Nat} (i_lt : i < count)
    (j_lt : j < count) (fits : count * w.bytes ≤ 2 ^ n) (ne : i ≠ j) :
    Apart (cell base w i) w (cell base w j) w := by
  intro x x_lt y y_lt same
  have i_le : (i + 1) * w.bytes ≤ count * w.bytes := Nat.mul_le_mul_right _ i_lt
  have j_le : (j + 1) * w.bytes ≤ count * w.bytes := Nat.mul_le_mul_right _ j_lt
  rw [Nat.succ_mul] at i_le j_le
  unfold cell at same
  rw [BitVec.add_assoc, BitVec.add_assoc, BitVec.add_right_inj, ← BitVec.ofNat_add,
    ← BitVec.ofNat_add, ← BitVec.toNat_inj, BitVec.toNat_ofNat, BitVec.toNat_ofNat,
    Nat.mod_eq_of_lt (by omega), Nat.mod_eq_of_lt (by omega)] at same
  have quotient (k z : Nat) (z_lt : z < w.bytes) : (k * w.bytes + z) / w.bytes = k := by
    rw [Nat.mul_comm, Nat.mul_add_div w.bytes_pos, Nat.div_eq_of_lt z_lt, Nat.add_zero]
  apply ne
  rw [← quotient i x x_lt, same, quotient j y y_lt]

theorem ReadsBack.cell {mem : Memory n} {since : Nat} (reads : ReadsBack mem since)
    {history : List (Write n)} (late : since ≤ history.length) (base : BitVec n) {w : Width}
    {i j count : Nat} (i_lt : i < count) (j_lt : j < count) (fits : count * w.bytes ≤ 2 ^ n)
    (v : BitVec w.bits) :
    mem (⟨w, Histories.cell base w j, v⟩ :: history) (Histories.cell base w i) w =
      if i = j then v else mem history (Histories.cell base w i) w := by
  split
  next same => rw [same, reads.same w _ v late]
  next ne => exact reads.apart late (apart_cell j_lt i_lt fits (Ne.symm ne))

/-! ## A memory without faults -/

/-- One bit of the byte at an address: that of the latest write to it -/
def bitAt : List (Write n) → BitVec n → Nat → Bool
  | [], _, _ => false
  | write :: history, a, i =>
    let byte := (a - write.address).toNat
    if byte < write.width.bytes then write.value.getLsbD (8 * byte + i) else bitAt history a i

/-- Bytes in the order of their addresses, the lowest first -/
def ram : Memory n := fun history a w =>
  BitVec.ofNat w.bits (Nat.ofBits fun i : Fin w.bits =>
    bitAt history (a + BitVec.ofNat n (i / 8)) (i % 8))

theorem ram_getLsbD (history : List (Write n)) (a : BitVec n) {w : Width} {i : Nat}
    (inside : i < w.bits) :
    (ram history a w).getLsbD i = bitAt history (a + BitVec.ofNat n (i / 8)) (i % 8) := by
  unfold ram
  rw [BitVec.getLsbD_ofNat, Nat.testBit_ofBits_lt _ _ inside, decide_eq_true inside, Bool.true_and]

theorem ram_readsBack (room : 3 ≤ n) : ReadsBack (ram (n := n)) 0 where
  same w a v _ := by
    have space : 2 ^ 3 ≤ 2 ^ n := Nat.pow_le_pow_right (by decide) room
    have small := w.bytes_le
    apply BitVec.eq_of_getLsbD_eq
    intro i inside
    have byte : i / 8 < w.bytes := Nat.div_lt_of_lt_mul inside
    have distance : (a + BitVec.ofNat n (i / 8) - a).toNat = i / 8 := by
      rw [BitVec.add_comm, BitVec.add_sub_cancel, BitVec.toNat_ofNat, Nat.mod_eq_of_lt (by omega)]
    rw [ram_getLsbD _ _ inside]
    unfold bitAt
    dsimp only
    rw [distance, if_pos byte, Nat.div_add_mod]
  apart {history write a w} _ separate := by
    apply BitVec.eq_of_getLsbD_eq
    intro i inside
    have byte : i / 8 < w.bytes := Nat.div_lt_of_lt_mul inside
    rw [ram_getLsbD _ _ inside, ram_getLsbD _ _ inside]
    conv => lhs; unfold bitAt
    dsimp only
    rw [if_neg]
    intro hit
    apply separate _ hit (i / 8) byte
    rw [BitVec.ofNat_toNat, BitVec.setWidth_eq, BitVec.add_comm, BitVec.sub_add_cancel]

end Histories
