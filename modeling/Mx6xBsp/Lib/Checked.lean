import Mathlib.Data.BitVec

/-!
# Arithmetic that is watched

A computation with words either divides by zero or has a value, and it is noted whether
every step so far gave the number it stands for. `Exact c a` says that `c` ends with `a`
and that nothing was cut off or wrapped around on the way. There is one rule for each
step that a computation can begin with.
-/

namespace Checked

/-- A division by zero, or a value and whether every step was exact -/
inductive Calc (α : Type)
  | trap
  | value (a : α) (exact : Bool)

variable {α β : Type} {w v : Nat}

def Calc.bind : Calc α → (α → Calc β) → Calc β
  | .trap, _ => .trap
  | .value a exact, f =>
    match f a with
    | .trap => .trap
    | .value b exact' => .value b (exact && exact')

instance : Monad Calc where
  pure a := .value a true
  bind := Calc.bind

def mul (a b : BitVec w) : Calc (BitVec w) := .value (a * b) (a.toNat * b.toNat < 2 ^ w)

def add (a b : BitVec w) : Calc (BitVec w) := .value (a + b) (a.toNat + b.toNat < 2 ^ w)

/-- The same for signed words, of which neither is negative -/
def smul (a b : BitVec (w + 1)) : Calc (BitVec (w + 1)) :=
  .value (a * b) (a.toNat * b.toNat < 2 ^ w)

def sadd (a b : BitVec (w + 1)) : Calc (BitVec (w + 1)) :=
  .value (a + b) (a.toNat + b.toNat < 2 ^ w)

def div (a b : BitVec w) : Calc (BitVec w) := if b = 0 then .trap else .value (a / b) true

/-- A word cut off to `v` bits -/
def narrow (v : Nat) (a : BitVec w) : Calc (BitVec v) := .value (a.setWidth v) (a.toNat < 2 ^ v)

/-- The computation ends with a value, and every step was exact. -/
def Exact (c : Calc α) (a : α) : Prop := c = .value a true

variable {c : Calc α} {f : α → Calc β} {a a' : α} {b : β} {x y : BitVec w}

theorem Exact.unique (exact : Exact c a) (exact' : Exact c a') : a = a' :=
  (Calc.value.inj (exact.symm.trans exact')).1

theorem exists_toNat {n : Nat} (below : n < 2 ^ w) : ∃ z : BitVec w, z.toNat = n :=
  ⟨BitVec.ofNat w n, (BitVec.toNat_ofNat n w).trans (Nat.mod_eq_of_lt below)⟩

theorem exact_pure : Exact (pure a : Calc α) a' ↔ a = a' :=
  ⟨fun exact => (Calc.value.inj exact).1, fun same => same ▸ rfl⟩

theorem exact_bind : Exact (c >>= f) b ↔ ∃ a, Exact c a ∧ Exact (f a) b := by
  change Calc.bind c f = .value b true ↔ _
  constructor
  · intro exact
    cases c with
    | trap => cases exact
    | value a first =>
      unfold Calc.bind at exact
      dsimp only at exact
      cases rest : f a with
      | trap =>
        rw [rest] at exact
        cases exact
      | value b' second =>
        rw [rest] at exact
        obtain ⟨rfl, both⟩ := Calc.value.inj exact
        obtain ⟨rfl, rfl⟩ := (Bool.and_eq_true _ _).mp both
        exact ⟨a, rfl, rest⟩
  · rintro ⟨a, rfl, rest⟩
    unfold Calc.bind
    dsimp only
    rw [show f a = .value b true from rest]
    rfl

theorem exact_value {value z : BitVec w} {p : Prop} [Decidable p] {n : Nat}
    (right : p → value.toNat = n) : Exact (.value value (decide p)) z ↔ p ∧ z.toNat = n := by
  constructor
  · intro exact
    obtain ⟨rfl, holds⟩ := Calc.value.inj exact
    exact ⟨of_decide_eq_true holds, right (of_decide_eq_true holds)⟩
  · rintro ⟨holds, same⟩
    rw [BitVec.eq_of_toNat_eq (same.trans (right holds).symm), decide_eq_true holds]
    rfl

theorem exact_mul {z : BitVec w} :
    Exact (mul x y) z ↔ x.toNat * y.toNat < 2 ^ w ∧ z.toNat = x.toNat * y.toNat :=
  exact_value fun fits => (BitVec.toNat_mul x y).trans (Nat.mod_eq_of_lt fits)

theorem exact_add {z : BitVec w} :
    Exact (add x y) z ↔ x.toNat + y.toNat < 2 ^ w ∧ z.toNat = x.toNat + y.toNat :=
  exact_value fun fits => (BitVec.toNat_add x y).trans (Nat.mod_eq_of_lt fits)

theorem exact_smul {x y z : BitVec (w + 1)} :
    Exact (smul x y) z ↔ x.toNat * y.toNat < 2 ^ w ∧ z.toNat = x.toNat * y.toNat :=
  exact_value fun fits => (BitVec.toNat_mul x y).trans
    (Nat.mod_eq_of_lt (fits.trans (Nat.pow_lt_pow_succ Nat.one_lt_two)))

theorem exact_sadd {x y z : BitVec (w + 1)} :
    Exact (sadd x y) z ↔ x.toNat + y.toNat < 2 ^ w ∧ z.toNat = x.toNat + y.toNat :=
  exact_value fun fits => (BitVec.toNat_add x y).trans
    (Nat.mod_eq_of_lt (fits.trans (Nat.pow_lt_pow_succ Nat.one_lt_two)))

theorem exact_narrow {z : BitVec v} :
    Exact (narrow v x) z ↔ x.toNat < 2 ^ v ∧ z.toNat = x.toNat :=
  exact_value fun fits => (BitVec.toNat_setWidth v x).trans (Nat.mod_eq_of_lt fits)

theorem exact_div {z : BitVec w} :
    Exact (div x y) z ↔ y.toNat ≠ 0 ∧ z.toNat = x.toNat / y.toNat := by
  have zero : y = 0 ↔ y.toNat = 0 := BitVec.toNat_inj.symm
  unfold div
  by_cases none : y = 0
  · rw [if_pos none]
    constructor
    · intro exact
      cases exact
    · intro both
      exact absurd (zero.mp none) both.1
  · rw [if_neg none]
    constructor
    · intro exact
      obtain ⟨rfl, -⟩ := Calc.value.inj exact
      exact ⟨fun no => none (zero.mpr no), BitVec.toNat_udiv⟩
    · rintro ⟨-, same⟩
      rw [BitVec.eq_of_toNat_eq (same.trans (BitVec.toNat_udiv (x := x) (y := y)).symm)]
      rfl

end Checked
