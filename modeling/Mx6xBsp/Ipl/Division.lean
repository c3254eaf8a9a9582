import Mathlib.Data.BitVec
import Mathlib.Data.Nat.Bitwise
import Mathlib.Tactic.Ring

/-!
# Division in software

`divsi3.c` of the IPL divides by shifting the denominator up to the numerator and subtracting on its
way back. The bit of the quotient is a `long`: once it has come to the highest bit, which it does
for a denominator of one and a numerator above 2^30, it is shifted back with its sign and never
goes away. `division_iff` tells for which operands each entry returns what it should.
-/

namespace Mx6xBsp.Ipl.Division

abbrev Word := BitVec 32

/-! ## `divmodsi4` -/

/-- The first loop: the denominator and the bit shifted up. Nothing comes back where it takes more
than `fuel` rounds. -/
def normalize (num : Word) : Nat → Word → Word → Option (Word × Word)
  | 0, _, _ => none
  | fuel + 1, den, bit =>
    if den < num ∧ bit ≠ 0 ∧ den &&& (1#32 <<< 31) = 0 then
      normalize num fuel (den <<< 1) (bit <<< 1)
    else some (den, bit)

/-- The second loop: what is left of the numerator, and the quotient. `den` has no sign and `bit`
has. -/
def subtract : Nat → Word → Word → Word → Word → Option (Word × Word)
  | 0, _, _, _, _ => none
  | fuel + 1, num, den, bit, res =>
    if bit ≠ 0 then
      if num ≥ den then subtract fuel (num - den) (den >>> 1) (bit.sshiftRight 1) (res ||| bit)
      else subtract fuel num (den >>> 1) (bit.sshiftRight 1) res
    else some (num, res)

def divmodsi4 (fuel : Nat) (modwanted : Bool) (num den : Word) : Option Word :=
  (normalize num fuel den 1).bind fun (den, bit) =>
    (subtract fuel num den bit 0).map fun (num, res) => if modwanted then num else res

/-! ## The entries -/

def modsi3 (fuel : Nat) (numerator denominator : Word) : Option Word :=
  let (numerator, sign) := if numerator.slt 0 then (-numerator, 1) else (numerator, 0)
  let denominator := if denominator.slt 0 then -denominator else denominator
  (divmodsi4 fuel true numerator denominator).map fun modul => if sign ≠ 0 then -modul else modul

/-- The macro `divnorm`: the operands without signs, and the sign of the quotient -/
def divnorm (num den : Word) : Word × Word × Nat :=
  let (num, sign) := if num.slt 0 then (-num, 1) else (num, 0)
  let (den, sign) := if den.slt 0 then (-den, 1 - sign) else (den, sign)
  (num, den, sign)

def divsi3 (fuel : Nat) (numerator denominator : Word) : Option Word :=
  let (numerator, denominator, sign) := divnorm numerator denominator
  (divmodsi4 fuel false numerator denominator).map fun dividend =>
    if sign ≠ 0 then -dividend else dividend

def aeabiUidiv (fuel : Nat) (numerator denominator : Word) : Option Word :=
  divsi3 fuel numerator denominator

def umodsi3 (fuel : Nat) (numerator denominator : Word) : Option Word :=
  divmodsi4 fuel true numerator denominator

def udivsi3 (fuel : Nat) (numerator denominator : Word) : Option Word :=
  divmodsi4 fuel false numerator denominator

/-! ## What they should return -/

/-- The division ends with a value as it should be. -/
def Returns (divide : Nat → Option Word) (right : Word → Prop) : Prop :=
  ∃ fuel value, divide fuel = some value ∧ right value

/-- The bit of the quotient comes to the highest bit. -/
def Stuck (num den : Word) : Prop := den = 1 ∧ 2 ^ 30 < num.toNat

instance (num den : Word) : Decidable (Stuck num den) :=
  inferInstanceAs (Decidable (den = 1 ∧ 2 ^ 30 < num.toNat))

/-- An operand without its sign -/
def magnitude (v : Word) : Word := if v.slt 0 then -v else v

/-- Where the operands of `__aeabi_uidiv` have no highest bit it divides as the others do. A
numerator with it is right over one if it is large enough to have a small magnitude, and over
itself. A denominator with it is right under numerators below its magnitude. -/
def Unsigned (num den : Word) : Prop :=
  (num.toNat < 2 ^ 31 ∧ den.toNat < 2 ^ 31 ∧ ¬Stuck num den) ∨
    (den = 1 ∧ 3 * 2 ^ 30 ≤ num.toNat) ∨
    (num.toNat < 2 ^ 31 ∧ 2 ^ 31 ≤ den.toNat ∧ num.toNat + den.toNat < 2 ^ 32) ∨
    (2 ^ 31 ≤ num.toNat ∧ num = den)

/-! ## The first loop -/

section Loops

variable {num den bit res : Word} {d k : Nat}

theorem and_high_iff (v : Word) : v &&& (1#32 <<< 31) = 0 ↔ v.toNat < 2 ^ 31 := by
  have bound := v.isLt
  have high : (1#32 <<< 31).toNat = 2 ^ 31 := by decide
  rw [← BitVec.toNat_inj, BitVec.toNat_and, high, Nat.and_two_pow, Nat.testBit_eq_decide_div_mod_eq]
  show _ = 0 ↔ _
  by_cases set : v.toNat / 2 ^ 31 % 2 = 1
  · simp only [set, decide_true, Bool.toNat_true]
    omega
  · simp only [set, decide_false, Bool.toNat_false]
    omega

/-- What the first loop comes to: the denominator is shifted to the numerator, or as far as it
goes. -/
structure Shifted (num : Word) (d k : Nat) : Prop where
  fits : d * 2 ^ k < 2 ^ 32
  enough : num.toNat ≤ d * 2 ^ k ∨ 2 ^ 31 ≤ d * 2 ^ k
  last : 0 < k → d * 2 ^ (k - 1) < num.toNat

/-- The condition of the first loop fails with the denominator shifted as far as it should be. -/
theorem Shifted.of_stop {i : Nat} (shifted : den.toNat = d * 2 ^ i)
    (bit_eq : bit.toNat = 2 ^ i) (last : 0 < i → d * 2 ^ (i - 1) < num.toNat)
    (stop : ¬(den < num ∧ bit ≠ 0 ∧ den &&& (1#32 <<< 31) = 0)) : Shifted num d i := by
  have bound := den.isLt
  refine ⟨shifted ▸ bound, ?_, last⟩
  by_contra more
  obtain ⟨less, low⟩ := not_or.mp more
  apply stop
  refine ⟨?_, ?_, ?_⟩
  · show den.toNat < num.toNat
    omega
  · intro zero
    rw [zero] at bit_eq
    have some_ : 0 < 2 ^ i := Nat.two_pow_pos i
    exact some_.ne bit_eq
  · rw [and_high_iff]
    omega

theorem normalize_stop {i : Nat} (shifted : den.toNat = d * 2 ^ i) (bit_eq : bit.toNat = 2 ^ i)
    (stop : ¬(den < num ∧ bit ≠ 0 ∧ den &&& (1#32 <<< 31) = 0)) (fuel : Nat) :
    normalize num fuel den bit =
      if i - i < fuel then some (BitVec.ofNat 32 (d * 2 ^ i), BitVec.ofNat 32 (2 ^ i))
      else none := by
  cases fuel with
  | zero => rw [if_neg (Nat.not_lt_zero _), normalize]
  | succ fuel =>
    rw [normalize, if_neg stop, if_pos (by omega), ← shifted, ← bit_eq, BitVec.ofNat_toNat,
      BitVec.ofNat_toNat, BitVec.setWidth_eq, BitVec.setWidth_eq]

/-- From `i` shifts on the loop takes as many rounds as it takes to `k`. -/
theorem normalize_eq (num : Word) {i : Nat} (pos : 0 < d) (left : Nat) (rounds : left + i = 31)
    (shifted : den.toNat = d * 2 ^ i) (bit_eq : bit.toNat = 2 ^ i)
    (last : 0 < i → d * 2 ^ (i - 1) < num.toNat) :
    ∃ k, i ≤ k ∧ k ≤ 31 ∧ Shifted num d k ∧ ∀ fuel, normalize num fuel den bit =
      if k - i < fuel then some (BitVec.ofNat 32 (d * 2 ^ k), BitVec.ofNat 32 (2 ^ k))
      else none := by
  induction left generalizing i den bit with
  | zero =>
    have top : i = 31 := by omega
    have stop : ¬(den < num ∧ bit ≠ 0 ∧ den &&& (1#32 <<< 31) = 0) := by
      intro more
      have low := (and_high_iff den).mp more.2.2
      rw [top] at shifted
      omega
    exact ⟨i, Nat.le_refl i, by omega, Shifted.of_stop shifted bit_eq last stop,
      normalize_stop shifted bit_eq stop⟩
  | succ left ih =>
    by_cases more : den < num ∧ bit ≠ 0 ∧ den &&& (1#32 <<< 31) = 0
    · have less := more.1
      have low := more.2.2
      have low' := (and_high_iff den).mp low
      have less' : den.toNat < num.toNat := less
      have whole : 2 ^ i ≤ d * 2 ^ i := Nat.le_mul_of_pos_left _ pos
      have next : 2 ^ (i + 1) = 2 ^ i * 2 := Nat.pow_succ ..
      have den_eq : (den <<< 1).toNat = d * 2 ^ (i + 1) := by
        rw [BitVec.toNat_shiftLeft, Nat.shiftLeft_eq, Nat.mod_eq_of_lt (by omega), shifted, next,
          Nat.mul_assoc]
      have bit_eq' : (bit <<< 1).toNat = 2 ^ (i + 1) := by
        rw [BitVec.toNat_shiftLeft, Nat.shiftLeft_eq, Nat.mod_eq_of_lt (by omega), bit_eq, next]
      obtain ⟨k, beyond, top, found, runs⟩ := ih (by omega) den_eq bit_eq' fun _ => by
        rw [Nat.add_sub_cancel, ← shifted]
        exact less'
      refine ⟨k, by omega, top, found, fun fuel => ?_⟩
      cases fuel with
      | zero => rfl
      | succ fuel =>
        rw [normalize, if_pos more, runs fuel]
        by_cases enough : k - (i + 1) < fuel
        · rw [if_pos enough, if_pos (by omega)]
        · rw [if_neg enough, if_neg (by omega)]
    · exact ⟨i, Nat.le_refl i, by omega, Shifted.of_stop shifted bit_eq last more,
        normalize_stop shifted bit_eq more⟩

theorem Shifted.top_iff (found : Shifted num d k) (pos : 0 < d) (le : k ≤ 31) :
    k = 31 ↔ d = 1 ∧ 2 ^ 30 < num.toNat := by
  obtain ⟨fits, enough, last⟩ := found
  constructor
  · rintro rfl
    have before := last (by decide)
    simp only [Nat.reduceSub] at before
    omega
  · rintro ⟨rfl, large⟩
    by_contra less
    have short : 2 ^ k ≤ 2 ^ 30 := Nat.pow_le_pow_right (by decide) (by omega)
    omega

/-! ## The second loop -/

theorem or_bit (above : res.toNat % 2 ^ (k + 1) = 0) (bit_eq : bit.toNat = 2 ^ k) :
    (res ||| bit).toNat = res.toNat + 2 ^ k := by
  have split := Nat.div_add_mod res.toNat (2 ^ (k + 1))
  have below : 2 ^ k < 2 ^ (k + 1) := Nat.pow_lt_pow_right (by decide) (Nat.lt_succ_self k)
  have joined := Nat.two_pow_add_eq_or_of_lt below (res.toNat / 2 ^ (k + 1))
  rw [above, Nat.add_zero] at split
  rw [split] at joined
  rw [BitVec.toNat_or, bit_eq]
  exact joined.symm

theorem shift_bit (low : k ≤ 30) (bit_eq : bit.toNat = 2 ^ k) :
    (bit.sshiftRight 1).toNat = 2 ^ k / 2 := by
  have below : 2 ^ k ≤ 2 ^ 30 := Nat.pow_le_pow_right (by decide) low
  have msb : bit.msb = false := by
    rw [BitVec.msb_eq_false_iff_two_mul_lt, bit_eq]
    omega
  rw [BitVec.sshiftRight_eq_of_msb_false msb, BitVec.toNat_ushiftRight, bit_eq,
    Nat.shiftRight_eq_div_pow]

/-- With `k` bits of the quotient to find, the loop finds them and leaves the remainder. -/
theorem subtract_eq (low : k ≤ 31) (shifted : den.toNat = d * 2 ^ k / 2)
    (bit_eq : bit.toNat = 2 ^ k / 2) (small : num.toNat < d * 2 ^ k)
    (above : res.toNat % 2 ^ k = 0) (room : res.toNat + 2 ^ k ≤ 2 ^ 31) (fuel : Nat) :
    subtract fuel num den bit res = if k < fuel then
      some (BitVec.ofNat 32 (num.toNat % d), BitVec.ofNat 32 (res.toNat + num.toNat / d))
    else none := by
  induction k generalizing fuel num den bit res with
  | zero =>
    have zero : bit = 0 := BitVec.eq_of_toNat_eq bit_eq
    rw [Nat.pow_zero, Nat.mul_one] at small
    cases fuel with
    | zero => rfl
    | succ fuel =>
      rw [subtract, if_neg (not_not_intro zero), if_pos (Nat.succ_pos fuel),
        Nat.mod_eq_of_lt small, Nat.div_eq_of_lt small, Nat.add_zero, BitVec.ofNat_toNat,
        BitVec.ofNat_toNat, BitVec.setWidth_eq, BitVec.setWidth_eq]
  | succ k ih =>
    have next : 2 ^ (k + 1) = 2 ^ k * 2 := Nat.pow_succ ..
    have some_ : 0 < 2 ^ k := Nat.two_pow_pos k
    rw [next, Nat.mul_div_cancel _ (by decide)] at bit_eq
    rw [next, ← Nat.mul_assoc, Nat.mul_div_cancel _ (by decide)] at shifted
    have nonzero : bit ≠ 0 := by
      intro zero
      rw [zero] at bit_eq
      exact some_.ne bit_eq
    have bit_eq' := shift_bit (by omega) bit_eq
    have shifted' : (den >>> 1).toNat = d * 2 ^ k / 2 := by
      rw [BitVec.toNat_ushiftRight, Nat.shiftRight_eq_div_pow, shifted]
    have whole : res.toNat % 2 ^ k = 0 :=
      Nat.mod_eq_zero_of_dvd ((Dvd.intro 2 next.symm).trans (Nat.dvd_of_mod_eq_zero above))
    cases fuel with
    | zero => rfl
    | succ fuel =>
      rw [subtract, if_pos nonzero]
      by_cases fits : num ≥ den
      · have fits' : den.toNat ≤ num.toNat := fits
        have pos : 0 < d := Nat.pos_of_ne_zero fun zero => by
          rw [zero, Nat.zero_mul] at small
          exact Nat.not_lt_zero _ small
        have num_eq : (num - den).toNat = num.toNat - d * 2 ^ k := by
          rw [BitVec.toNat_sub_of_le fits, shifted]
        have res_eq : (res ||| bit).toNat = res.toNat + 2 ^ k := or_bit above bit_eq
        have split : num.toNat = num.toNat - d * 2 ^ k + d * 2 ^ k := by omega
        have remainder : num.toNat % d = (num.toNat - d * 2 ^ k) % d := by
          conv => lhs; rw [split, Nat.add_mul_mod_self_left]
        have quotient : num.toNat / d = (num.toNat - d * 2 ^ k) / d + 2 ^ k := by
          conv => lhs; rw [split, Nat.add_mul_div_left _ _ pos]
        have less : num.toNat < d * 2 ^ k + d * 2 ^ k := by
          rw [next, ← Nat.mul_assoc] at small
          omega
        rw [if_pos fits, ih (by omega) shifted' bit_eq' (by omega)
          (by rw [res_eq, Nat.add_mod_right, whole]) (by omega), num_eq, res_eq, remainder,
          quotient, Nat.add_right_comm, Nat.add_assoc]
        simp only [Nat.add_lt_add_iff_right]
      · have less : num.toNat < den.toNat := Nat.not_le.mp fits
        rw [if_neg fits, ih (by omega) shifted' bit_eq' (by omega) whole (by omega)]
        simp only [Nat.add_lt_add_iff_right]

theorem subtract_stuck (fuel : Nat) (sign : bit.msb = true) :
    subtract fuel num den bit res = none := by
  induction fuel generalizing num den bit res with
  | zero => rfl
  | succ fuel ih =>
    have nonzero : bit ≠ 0 := by
      intro zero
      rw [zero] at sign
      exact absurd sign (by decide)
    have sign' : (bit.sshiftRight 1).msb = true := by
      rw [BitVec.msb_sshiftRight, sign]
    rw [subtract, if_pos nonzero]
    split
    · exact ih sign'
    · exact ih sign'

/-- The division without signs returns the quotient or the remainder, unless it is stuck. -/
theorem divmodsi4_some (nonzero : den ≠ 0) (modwanted : Bool) (value : Word) :
    (∃ fuel, divmodsi4 fuel modwanted num den = some value) ↔
      ¬Stuck num den ∧ value = if modwanted then num % den else num / den := by
  have pos : 0 < den.toNat := Nat.pos_of_ne_zero fun zero => nonzero (BitVec.eq_of_toNat_eq zero)
  have start : (1 : Word).toNat = 2 ^ 0 := rfl
  obtain ⟨k, -, top, found, rounds⟩ :=
    normalize_eq num pos 31 rfl (Nat.mul_one den.toNat).symm start
      fun before => absurd before (Nat.lt_irrefl 0)
  have stuck : k = 31 ↔ Stuck num den := by
    rw [found.top_iff pos top]
    unfold Stuck
    rw [← BitVec.toNat_inj]
    rfl
  rw [← stuck]
  by_cases high : k = 31
  · refine iff_of_false ?_ fun both => both.1 high
    rintro ⟨fuel, ends⟩
    unfold divmodsi4 at ends
    rw [rounds, high] at ends
    split at ends
    · rw [Option.bind_some] at ends
      dsimp only at ends
      rw [subtract_stuck fuel (by decide)] at ends
      cases ends
    · cases ends
  · have fits := found.fits
    have word := num.isLt
    have next : 2 ^ (k + 1) = 2 ^ k * 2 := Nat.pow_succ ..
    have total : den.toNat * 2 ^ (k + 1) = den.toNat * 2 ^ k + den.toNat * 2 ^ k := by
      rw [next, ← Nat.mul_assoc]
      omega
    have bits : 2 ^ k ≤ 2 ^ 30 := Nat.pow_le_pow_right (by decide) (by omega)
    have den_eq : (BitVec.ofNat 32 (den.toNat * 2 ^ k)).toNat = den.toNat * 2 ^ (k + 1) / 2 := by
      rw [BitVec.toNat_ofNat, Nat.mod_eq_of_lt fits, total]
      omega
    have bit_eq : (BitVec.ofNat 32 (2 ^ k)).toNat = 2 ^ (k + 1) / 2 := by
      rw [BitVec.toNat_ofNat, Nat.mod_eq_of_lt (by omega), next]
      omega
    have some_ : 0 < den.toNat * 2 ^ k := Nat.mul_pos pos (Nat.two_pow_pos k)
    have small : num.toNat < den.toNat * 2 ^ (k + 1) := by
      have enough := found.enough
      omega
    have none_ : (0 : Word).toNat = 0 := rfl
    have ends (fuel : Nat) : subtract fuel num (BitVec.ofNat 32 (den.toNat * 2 ^ k))
        (BitVec.ofNat 32 (2 ^ k)) 0 =
          if k + 1 < fuel then some (num % den, num / den) else none := by
      rw [subtract_eq (by omega) den_eq bit_eq small (Nat.zero_mod _) (by rw [none_]; omega), none_,
        Nat.zero_add, BitVec.umod_def, BitVec.udiv_def]
    have returns (fuel : Nat) : divmodsi4 fuel modwanted num den =
        if k + 1 < fuel then some (if modwanted then num % den else num / den) else none := by
      unfold divmodsi4
      rw [rounds]
      by_cases enough : k + 1 < fuel
      · rw [if_pos (by omega), Option.bind_some]
        dsimp only
        rw [ends, if_pos enough, if_pos enough]
        rfl
      · rw [if_neg enough]
        split
        · rw [Option.bind_some]
          dsimp only
          rw [ends, if_neg enough]
          rfl
        · rfl
    constructor
    · rintro ⟨fuel, same⟩
      rw [returns] at same
      split at same
      · exact ⟨high, (Option.some.inj same).symm⟩
      · cases same
    · rintro ⟨-, rfl⟩
      exact ⟨k + 2, by rw [returns, if_pos (by omega)]⟩

end Loops

/-! ## The entries with signs -/

section Entries

variable {n d : Word}

theorem slt_zero (v : Word) : v.slt 0 = v.msb := BitVec.slt_zero_eq_msb

theorem magnitude_eq (v : Word) : magnitude v = if v.msb then -v else v := by
  unfold magnitude
  rw [slt_zero]

theorem magnitude_ne_zero (nonzero : d ≠ 0) : magnitude d ≠ 0 := by
  unfold magnitude
  split
  · exact neg_ne_zero.mpr nonzero
  · exact nonzero

theorem map_some {modwanted : Bool} {num den : Word} (nonzero : den ≠ 0) (g : Word → Word)
    (value : Word) :
    (∃ fuel, (divmodsi4 fuel modwanted num den).map g = some value) ↔
      ¬Stuck num den ∧ value = g (if modwanted then num % den else num / den) := by
  constructor
  · rintro ⟨fuel, ends⟩
    obtain ⟨r, inner, rfl⟩ := Option.map_eq_some_iff.mp ends
    obtain ⟨free, rfl⟩ := (divmodsi4_some nonzero modwanted r).mp ⟨fuel, inner⟩
    exact ⟨free, rfl⟩
  · rintro ⟨free, rfl⟩
    obtain ⟨fuel, inner⟩ := (divmodsi4_some nonzero modwanted _).mpr ⟨free, rfl⟩
    exact ⟨fuel, by rw [inner]; rfl⟩

theorem modsi3_some (nonzero : d ≠ 0) (value : Word) :
    (∃ fuel, modsi3 fuel n d = some value) ↔
      ¬Stuck (magnitude n) (magnitude d) ∧ value = n.srem d := by
  have signs : n.srem d =
      if n.msb then -(magnitude n % magnitude d) else magnitude n % magnitude d := by
    rw [BitVec.srem_eq, magnitude_eq, magnitude_eq]
    cases n.msb <;> cases d.msb <;> rfl
  have entry (fuel : Nat) : modsi3 fuel n d = (divmodsi4 fuel true (magnitude n) (magnitude d)).map
      fun modul => if n.msb then -modul else modul := by
    unfold modsi3 magnitude
    rw [slt_zero]
    cases n.msb <;> rfl
  simp only [entry]
  rw [map_some (magnitude_ne_zero nonzero), signs]
  rfl

theorem sdiv_magnitude (n d : Word) :
    n.sdiv d = if n.msb ≠ d.msb then -(magnitude n / magnitude d)
      else magnitude n / magnitude d := by
  rw [BitVec.sdiv_eq, magnitude_eq, magnitude_eq]
  cases n.msb <;> cases d.msb <;> rfl

theorem divsi3_some (nonzero : d ≠ 0) (value : Word) :
    (∃ fuel, divsi3 fuel n d = some value) ↔
      ¬Stuck (magnitude n) (magnitude d) ∧ value = n.sdiv d := by
  have entry (fuel : Nat) : divsi3 fuel n d =
      (divmodsi4 fuel false (magnitude n) (magnitude d)).map fun dividend =>
        if n.msb ≠ d.msb then -dividend else dividend := by
    unfold divsi3 divnorm magnitude
    rw [slt_zero, slt_zero]
    cases n.msb <;> cases d.msb <;> rfl
  simp only [entry]
  rw [map_some (magnitude_ne_zero nonzero), sdiv_magnitude]
  rfl

theorem magnitude_low (low : d.toNat < 2 ^ 31) : d.msb = false ∧ magnitude d = d := by
  have msb : d.msb = false := by
    rw [BitVec.msb_eq_false_iff_two_mul_lt]
    omega
  exact ⟨msb, by rw [magnitude_eq, msb]; rfl⟩

theorem magnitude_high (high : 2 ^ 31 ≤ d.toNat) :
    d.msb = true ∧ (magnitude d).toNat = 2 ^ 32 - d.toNat := by
  have msb : d.msb = true := by
    rw [BitVec.msb_eq_true_iff_two_mul_ge]
    omega
  refine ⟨msb, ?_⟩
  rw [magnitude_eq, msb, if_pos rfl, BitVec.toNat_neg]
  omega

theorem stuck_iff : Stuck n d ↔ d.toNat = 1 ∧ 2 ^ 30 < n.toNat := by
  unfold Stuck
  rw [← BitVec.toNat_inj]
  rfl

theorem unsigned_iff (nonzero : d ≠ 0) :
    ¬Stuck (magnitude n) (magnitude d) ∧ (n.sdiv d).toNat = n.toNat / d.toNat ↔ Unsigned n d := by
  have pos : 0 < d.toNat := Nat.pos_of_ne_zero fun zero => nonzero (BitVec.eq_of_toNat_eq zero)
  have n_lt := n.isLt
  have d_lt := d.isLt
  have one : d = 1 ↔ d.toNat = 1 := by
    rw [← BitVec.toNat_inj]
    rfl
  have same : n = d ↔ n.toNat = d.toNat := BitVec.toNat_inj.symm
  unfold Unsigned
  rw [stuck_iff, stuck_iff, sdiv_magnitude, one, same]
  rcases Nat.lt_or_ge n.toNat (2 ^ 31) with low | high
  · obtain ⟨n_msb, n_eq⟩ := magnitude_low low
    rcases Nat.lt_or_ge d.toNat (2 ^ 31) with low' | high'
    · obtain ⟨d_msb, d_eq⟩ := magnitude_low low'
      rw [n_msb, d_msb, if_neg (not_not_intro rfl), n_eq, d_eq, BitVec.toNat_udiv]
      omega
    · obtain ⟨d_msb, d_eq⟩ := magnitude_high high'
      have zero : n.toNat / d.toNat = 0 := Nat.div_eq_of_lt (by omega)
      have small : n.toNat / (2 ^ 32 - d.toNat) = 0 ↔ n.toNat < 2 ^ 32 - d.toNat :=
        Nat.div_eq_zero_iff_lt (by omega)
      have le : n.toNat / (2 ^ 32 - d.toNat) ≤ n.toNat := Nat.div_le_self _ _
      rw [n_msb, d_msb, if_pos (by decide), n_eq, BitVec.toNat_neg, BitVec.toNat_udiv, d_eq, zero]
      generalize n.toNat / (2 ^ 32 - d.toNat) = q at small le ⊢
      omega
  · obtain ⟨n_msb, n_eq⟩ := magnitude_high high
    rcases Nat.lt_or_ge d.toNat (2 ^ 31) with low' | high'
    · obtain ⟨d_msb, d_eq⟩ := magnitude_low low'
      rw [n_msb, d_msb, if_pos (by decide), n_eq, d_eq, BitVec.toNat_neg, BitVec.toNat_udiv, n_eq]
      by_cases unit : d.toNat = 1
      · rw [unit, Nat.div_one, Nat.div_one]
        omega
      · -- the quotient without signs is below 2^31, the other is zero or close to 2^32
        have half : (2 ^ 32 - n.toNat) / d.toNat ≤ (2 ^ 32 - n.toNat) / 2 :=
          Nat.div_le_div_left (by omega) (by decide)
        have half' : n.toNat / d.toNat ≤ n.toNat / 2 := Nat.div_le_div_left (by omega) (by decide)
        have some_ : 0 < n.toNat / d.toNat := Nat.div_pos (by omega) pos
        generalize (2 ^ 32 - n.toNat) / d.toNat = q at half ⊢
        generalize n.toNat / d.toNat = q' at half' some_ ⊢
        omega
    · obtain ⟨d_msb, d_eq⟩ := magnitude_high high'
      rw [n_msb, d_msb, if_neg (not_not_intro rfl), n_eq, d_eq, BitVec.toNat_udiv, n_eq, d_eq]
      have small : (2 ^ 32 - n.toNat) / (2 ^ 32 - d.toNat) = 0 ↔
          2 ^ 32 - n.toNat < 2 ^ 32 - d.toNat := Nat.div_eq_zero_iff_lt (by omega)
      have small' : n.toNat / d.toNat = 0 ↔ n.toNat < d.toNat := Nat.div_eq_zero_iff_lt pos
      by_cases equal : n.toNat = d.toNat
      · rw [equal, Nat.div_self pos, Nat.div_self (by omega)]
        omega
      · omega

theorem returns_iff {divide : Nat → Option Word} {free : Prop} {result : Word}
    (entry : ∀ value, (∃ fuel, divide fuel = some value) ↔ free ∧ value = result)
    (right : Word → Prop) : Returns divide right ↔ free ∧ right result := by
  constructor
  · rintro ⟨fuel, value, ends, ok⟩
    obtain ⟨unstuck, rfl⟩ := (entry value).mp ⟨fuel, ends⟩
    exact ⟨unstuck, ok⟩
  · rintro ⟨unstuck, ok⟩
    obtain ⟨fuel, ends⟩ := (entry result).mpr ⟨unstuck, rfl⟩
    exact ⟨fuel, result, ends, ok⟩

end Entries

/-- Of every pair of operands with a denominator other than zero, the entries return what they
should just as follows. The signed ones leave out the quotient of the least number by -1, which has
no place in a word. -/
theorem division_iff (n d : Word) (nonzero : d ≠ 0) :
    ((n ≠ BitVec.intMin 32 ∨ d ≠ -1) →
      (Returns (divsi3 · n d) (fun q => q.toInt = n.toInt.tdiv d.toInt) ↔
        ¬Stuck (magnitude n) (magnitude d)) ∧
      (Returns (modsi3 · n d) (fun r => r.toInt = n.toInt.tmod d.toInt) ↔
        ¬Stuck (magnitude n) (magnitude d))) ∧
    (Returns (udivsi3 · n d) (fun q => q.toNat = n.toNat / d.toNat) ↔ ¬Stuck n d) ∧
    (Returns (umodsi3 · n d) (fun r => r.toNat = n.toNat % d.toNat) ↔ ¬Stuck n d) ∧
    (Returns (aeabiUidiv · n d) (fun q => q.toNat = n.toNat / d.toNat) ↔ Unsigned n d) := by
  refine ⟨fun place => ⟨?_, ?_⟩, ?_, ?_, ?_⟩
  · rw [returns_iff (divsi3_some nonzero)]
    exact and_iff_left (BitVec.toInt_sdiv_of_ne_or_ne n d place)
  · rw [returns_iff (modsi3_some nonzero)]
    exact and_iff_left (BitVec.toInt_srem n d)
  · exact (returns_iff (divmodsi4_some nonzero false) _).trans (and_iff_left BitVec.toNat_udiv)
  · exact (returns_iff (divmodsi4_some nonzero true) _).trans (and_iff_left BitVec.toNat_umod)
  · rw [← unsigned_iff nonzero]
    exact returns_iff (divsi3_some nonzero) _

/-- Seven and minus two: every entry with signs is right, and `__aeabi_uidiv` is not. -/
theorem division_seven :
    Returns (divsi3 · 7 (-2)) (fun q => q.toInt = -3) ∧
    Returns (modsi3 · 7 (-2)) (fun r => r.toInt = 1) ∧
    Returns (udivsi3 · 7 (-2)) (fun q => q.toNat = 0) ∧
    Returns (umodsi3 · 7 (-2)) (fun r => r.toNat = 7) ∧
    ¬Returns (aeabiUidiv · 7 (-2)) (fun q => q.toNat = 0) := by
  obtain ⟨signed, quotient, remainder, entry⟩ := division_iff 7 (-2) (by decide)
  obtain ⟨signed_quotient, signed_remainder⟩ := signed (by decide)
  refine ⟨signed_quotient.mpr ?_, signed_remainder.mpr ?_, quotient.mpr ?_, remainder.mpr ?_, ?_⟩
  · decide
  · decide
  · decide
  · decide
  · intro returns
    exact absurd (entry.mp returns) (by unfold Unsigned; decide)

/-- 2^30 + 1 is never divided by one, and `__aeabi_uidiv` makes zero of 2^32 - 1 by two. -/
theorem division_wrong :
    (∀ fuel, udivsi3 fuel 0x40000001 1 = none) ∧ (∀ fuel, umodsi3 fuel 0x40000001 1 = none) ∧
      (∀ fuel, divsi3 fuel 0x40000001 1 = none) ∧ (∀ fuel, modsi3 fuel 0x40000001 1 = none) ∧
      ¬Returns (aeabiUidiv · 0xffffffff 2) (fun q => q.toNat = 0x7fffffff) := by
  have stuck : Stuck 0x40000001 1 := by
    rw [stuck_iff]
    decide
  have ends {divide : Nat → Option Word} {result : Word} (entry : ∀ value,
      (∃ fuel, divide fuel = some value) ↔ ¬Stuck 0x40000001 1 ∧ value = result) (fuel : Nat) :
      divide fuel = none := by
    apply Option.eq_none_iff_forall_ne_some.mpr
    intro value returned
    exact ((entry value).mp ⟨fuel, returned⟩).1 stuck
  have one : (1 : Word) ≠ 0 := by decide
  refine ⟨ends (divmodsi4_some one false), ends (divmodsi4_some one true), ends (divsi3_some one),
    ends (modsi3_some one), ?_⟩
  intro returns
  obtain ⟨-, wrong⟩ := (returns_iff (divsi3_some (by decide)) _).mp returns
  exact absurd wrong (by decide)

end Mx6xBsp.Ipl.Division
