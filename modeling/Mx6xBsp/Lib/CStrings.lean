import Mx6xBsp.Lib.Words

/-!
# NUL-terminated strings in byte memory

`Holds f a data` says that the bytes of `data` stand from `a` on, and
`readString` walks from `a` to the first NUL, for a bounded number of bytes.
A string that stands with its NUL is read back, and only such strings are read.
`packed` puts strings one after the other, each with its NUL.
-/

namespace CStrings

open Words

/-- The bytes of `data` stand from `a` on. -/
def Holds (f : Bytes) (a : Nat) (data : List UInt8) : Prop :=
  ∀ i (within : i < data.length), f (a + i) = data[i]

instance (f : Bytes) (a : Nat) (data : List UInt8) : Decidable (Holds f a data) :=
  inferInstanceAs (Decidable (∀ i (within : i < data.length), f (a + i) = data[i]))

/-- The string at `a`, if it ends within `fuel` bytes. -/
def readString (f : Bytes) : Nat → Nat → Option (List UInt8)
  | 0, _ => none
  | fuel + 1, a => if f a = 0 then some [] else (readString f fuel (a + 1)).map (f a :: ·)

/-- No byte of the text is the terminator. -/
def NulFree (s : List UInt8) : Prop := ∀ c ∈ s, c ≠ 0

instance (s : List UInt8) : Decidable (NulFree s) := List.decidableBAll (· ≠ 0) s

variable {f g : Bytes} {a fuel : Nat} {s t data more : List UInt8} {c : UInt8}

theorem holds_nil : Holds f a [] := fun _ within => absurd within (Nat.not_lt_zero _)

theorem holds_cons : Holds f a (c :: s) ↔ f a = c ∧ Holds f (a + 1) s := by
  constructor
  · intro holds
    refine ⟨holds 0 (Nat.zero_lt_succ _), fun i within => ?_⟩
    rw [show a + 1 + i = a + (i + 1) by omega]
    exact holds (i + 1) (Nat.succ_lt_succ within)
  · rintro ⟨head, tail⟩ i within
    cases i with
    | zero => exact head
    | succ i =>
      rw [show a + (i + 1) = a + 1 + i by omega]
      exact tail i (Nat.lt_of_succ_lt_succ within)

theorem holds_append :
    Holds f a (data ++ more) ↔ Holds f a data ∧ Holds f (a + data.length) more := by
  induction data generalizing a with
  | nil => simp [holds_nil]
  | cons c data ih =>
    rw [List.cons_append, holds_cons, ih, holds_cons, List.length_cons, and_assoc,
      show a + (data.length + 1) = a + 1 + data.length by omega]

theorem Holds.congr (holds : Holds f a data)
    (same : ∀ i, i < data.length → g (a + i) = f (a + i)) : Holds g a data :=
  fun i within => (same i within).trans (holds i within)

theorem nulFree_cons : NulFree (c :: s) ↔ c ≠ 0 ∧ NulFree s := List.forall_mem_cons

theorem readString_of_holds (holds : Holds f a (s ++ [0])) (free : NulFree s)
    (enough : s.length < fuel) : readString f fuel a = some s := by
  induction s generalizing a fuel with
  | nil =>
    obtain ⟨fuel, rfl⟩ := Nat.exists_eq_succ_of_ne_zero (by omega : fuel ≠ 0)
    rw [readString, if_pos (holds_cons.mp holds).1]
  | cons c s ih =>
    obtain ⟨fuel, rfl⟩ := Nat.exists_eq_succ_of_ne_zero (by omega : fuel ≠ 0)
    obtain ⟨head, tail⟩ := holds_cons.mp holds
    obtain ⟨nonzero, rest⟩ := nulFree_cons.mp free
    rw [readString, head, if_neg nonzero, ih tail rest (by simpa using enough)]
    rfl

/-- The strings one after the other. -/
def packed (ss : List (List UInt8)) : List UInt8 := ss.flatMap (· ++ [0])

variable {ss ts : List (List UInt8)}

@[simp] theorem packed_nil : packed [] = [] := rfl

@[simp] theorem packed_cons : packed (s :: ss) = s ++ [0] ++ packed ss := List.flatMap_cons

@[simp] theorem packed_append : packed (ss ++ ts) = packed ss ++ packed ts := List.flatMap_append

end CStrings
