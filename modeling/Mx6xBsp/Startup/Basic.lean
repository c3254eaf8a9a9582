import Mathlib.Data.BitVec

/-!
# Physical addresses of the startup library

The startup library of this tree is built for `le.v7` with the 32-bit
`paddr_t`, so an address is a natural number below `2 ^ 32` and every
`paddr_t` computation is reduced by `paddr`. Sums held in a `paddr64_t` are
plain naturals: they never exceed `2 ^ 33`.
-/

namespace Mx6xBsp.Startup

/-- The reasons for which a startup call does not return. -/
inductive Crash
  /-- `RAM entry array overflow` -/
  | ramEntryArrayOverflow
  /-- `Can't remove whole sysram entry.` -/
  | wholeSysramEntry
  /-- `Could not reserve 0x%l bytes of memory.` -/
  | couldNotReserve (size : Nat)
  /-- `Syspage memory request of %d exceeds maximum of %d bytes.` -/
  | syspageMemory
  /-- The loop does not end within the bound the model gives it. -/
  | diverges
deriving DecidableEq

def PADDR_SPACE : Nat := 4294967296

/-- Truncation to `paddr_t`. -/
def paddr (n : Nat) : Nat := n % PADDR_SPACE

/-- `NULL_PADDR` and `NULL_PADDR32`. -/
def NULL_PADDR : Nat := 0xffffffff

def MAX_PADDR32 : Nat := 0xffffffff

def PAGESIZE : Nat := 4096

/-- `a - b` on `paddr_t`. -/
def paddrSub (a b : Nat) : Nat := paddr (a + (PADDR_SPACE - paddr b))

/-- `~m` on `paddr_t`. -/
def paddrNot (m : Nat) : Nat := 0xffffffff - paddr m

/-- `TRUNC(_x,_a)` -/
def TRUNC (x a : Nat) : Nat := paddr x &&& paddrNot (paddrSub a 1)

/-- `ROUND(_x,_a)` -/
def ROUND (x a : Nat) : Nat := TRUNC (paddr x + paddrSub a 1) a

theorem paddr_lt (n : Nat) : paddr n < PADDR_SPACE := Nat.mod_lt _ (by decide)

theorem paddr_of_lt {n : Nat} (h : n < PADDR_SPACE) : paddr n = n := Nat.mod_eq_of_lt h

theorem paddrSub_one {a : Nat} (pos : 0 < a) (fits : a ≤ PADDR_SPACE) :
    paddrSub a 1 = a - 1 := by
  simp only [paddrSub, paddr, PADDR_SPACE] at *
  omega

/-- The last address of a range that ends at `n`. -/
theorem paddrSub_end {n : Nat} (pos : 0 < n) (fits : n ≤ PADDR_SPACE) :
    paddrSub (paddr n) 1 = n - 1 := by
  simp only [paddrSub, paddr, PADDR_SPACE] at *
  omega

private theorem and_not_add_and (x m : BitVec 32) :
    (x &&& ~~~m).toNat + (x &&& m).toNat = x.toNat := by
  have apart : x &&& ~~~m &&& (x &&& m) = 0#32 := by
    ext i hi
    simp only [BitVec.getElem_and, BitVec.getElem_not, BitVec.getElem_zero]
    cases x[i] <;> cases m[i] <;> rfl
  rw [← BitVec.toNat_add_of_and_eq_zero apart, BitVec.add_eq_or_of_and_eq_zero _ _ apart]
  congr 1
  ext i hi
  simp only [BitVec.getElem_and, BitVec.getElem_not, BitVec.getElem_or]
  cases x[i] <;> cases m[i] <;> rfl

/-- Clearing the bits of `m` takes away the bits `x` shares with it. -/
theorem and_paddrNot_add_and {x m : Nat} (hx : x < PADDR_SPACE) (hm : m < PADDR_SPACE) :
    (x &&& paddrNot m) + (x &&& m) = x := by
  have split := and_not_add_and (BitVec.ofNat 32 x) (BitVec.ofNat 32 m)
  simp only [PADDR_SPACE] at hx hm
  simp only [BitVec.toNat_and, BitVec.toNat_not, BitVec.toNat_ofNat] at split
  rw [Nat.mod_eq_of_lt hx, Nat.mod_eq_of_lt hm] at split
  have complement : paddrNot m = 2 ^ 32 - 1 - m := by
    simp only [paddrNot, paddr, PADDR_SPACE]
    omega
  rw [complement]
  exact split

/-- Clearing the bits of `m` takes away at most `m`. -/
theorem and_paddrNot_bounds {x m : Nat} (hx : x < PADDR_SPACE) (hm : m < PADDR_SPACE) :
    x &&& paddrNot m ≤ x ∧ x ≤ (x &&& paddrNot m) + m := by
  have split := and_paddrNot_add_and hx hm
  have masked : x &&& m ≤ m := Nat.and_le_right
  omega

theorem TRUNC_le (x a : Nat) : TRUNC x a ≤ paddr x :=
  (and_paddrNot_bounds (paddr_lt x) (paddr_lt _)).1

theorem le_ROUND {x a : Nat} (fits : x + paddrSub a 1 < PADDR_SPACE) : x ≤ ROUND x a := by
  have bounds := and_paddrNot_bounds (x := x + paddrSub a 1) (m := paddrSub a 1) fits
    (paddr_lt _)
  rw [ROUND, paddr_of_lt (by omega : x < PADDR_SPACE), TRUNC, paddr_of_lt fits]
  omega

theorem ROUND_two_pow {x k : Nat} (small : k < 32) (fits : x + (2 ^ k - 1) < PADDR_SPACE) :
    ROUND x (2 ^ k) = x + (2 ^ k - 1) - (x + (2 ^ k - 1)) % 2 ^ k := by
  have pos : 0 < 2 ^ k := Nat.two_pow_pos k
  have bound : 2 ^ k ≤ 2 ^ 31 := Nat.pow_le_pow_right (by decide) (by omega)
  have pred : paddrSub (2 ^ k) 1 = 2 ^ k - 1 :=
    paddrSub_one pos (le_trans bound (by decide))
  have split := and_paddrNot_add_and fits (m := 2 ^ k - 1) (by unfold PADDR_SPACE; omega)
  rw [Nat.and_two_pow_sub_one_eq_mod] at split
  rw [ROUND, TRUNC, pred, paddr_of_lt (by omega : x < PADDR_SPACE), paddr_of_lt fits]
  omega

theorem ROUND_eight {x : Nat} (fits : x + 7 < PADDR_SPACE) : ROUND x 8 = (x + 7) / 8 * 8 := by
  have rounded := ROUND_two_pow (x := x) (k := 3) (by decide) fits
  rw [show 8 = 2 ^ 3 by rfl, rounded]
  omega

end Mx6xBsp.Startup
