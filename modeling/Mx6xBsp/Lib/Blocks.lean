import Mathlib.Data.List.Basic
import Mathlib.Logic.Function.Basic
import Mathlib.Tactic.TypeStar

/-!
# Blocks of a memory

A memory is a function of the address. `write m i block` puts a list into it, one item an
address; writes that follow each other are one write (`write_append`). A loop that stores
one item after the other is a write (`foldl_update_eq_write`), and the items of blocks of one
length, taken one after the other, are found by block and offset (`getElem?_flatMap_range`).
-/

namespace Blocks

variable {α : Type*} {m : Nat → α} {i x : Nat} {block more : List α}

/-- The items of a list from `i` on -/
def write (m : Nat → α) (i : Nat) (block : List α) : Nat → α :=
  fun x => if i ≤ x then (block[x - i]?).getD (m x) else m x

theorem write_below (below : x < i) : write m i block x = m x :=
  if_neg (Nat.not_le.mpr below)

theorem write_beyond (beyond : i + block.length ≤ x) : write m i block x = m x := by
  have none : block[x - i]? = none := List.getElem?_eq_none (by omega)
  unfold write
  rw [none]
  split
  · rfl
  · rfl

theorem write_get {o : Nat} {a : α} (get : block[o]? = some a) : write m i block (i + o) = a := by
  unfold write
  rw [if_pos (Nat.le_add_right i o), Nat.add_sub_cancel_left, get]
  rfl

theorem write_nil : write m i [] = m := by
  funext x
  unfold write
  split
  · rfl
  · rfl

theorem write_append :
    write (write m i block) (i + block.length) more = write m i (block ++ more) := by
  funext x
  unfold write
  by_cases below : i ≤ x
  · rw [if_pos below, if_pos below]
    by_cases inside : i + block.length ≤ x
    · rw [if_pos inside, List.getElem?_append_right (by omega), Nat.sub_sub,
        List.getElem?_eq_none (by omega : block.length ≤ x - i)]
      rfl
    · rw [if_neg inside, List.getElem?_append_left (by omega)]
  · rw [if_neg below, if_neg below, if_neg (by omega)]

theorem write_single (a : α) : write m i [a] = Function.update m i a := by
  funext x
  rcases Nat.lt_trichotomy x i with below | same | above
  · rw [write_below below, Function.update_of_ne (Nat.ne_of_lt below)]
  · rw [same, Function.update_self]
    exact write_get (o := 0) rfl
  · rw [write_beyond above, Function.update_of_ne (Nat.ne_of_gt above)]

theorem foldl_update_eq_write (items : Nat → α) (count : Nat) :
    (List.range count).foldl (fun m n => Function.update m (i + n) (items n)) m =
      write m i ((List.range count).map items) := by
  induction count with
  | zero => exact write_nil.symm
  | succ count ih =>
    rw [List.range_succ, List.foldl_append, ih, List.map_append, ← write_append,
      List.length_map, List.length_range]
    exact (write_single _).symm

section Blocks

variable {f : Nat → List α} {len : Nat}

theorem length_flatMap_range (lens : ∀ k, (f k).length = len) (n : Nat) :
    ((List.range n).flatMap f).length = n * len := by
  induction n with
  | zero => exact (Nat.zero_mul len).symm
  | succ n ih =>
    rw [List.range_succ, List.flatMap_append, List.length_append, ih, List.flatMap_singleton,
      lens, Nat.succ_mul]

theorem getElem?_flatMap_range (lens : ∀ k, (f k).length = len) {n k o : Nat} (block : k < n)
    (inside : o < len) : ((List.range n).flatMap f)[k * len + o]? = (f k)[o]? := by
  induction n with
  | zero => exact absurd block (Nat.not_lt_zero k)
  | succ n ih =>
    rw [List.range_succ, List.flatMap_append, List.flatMap_singleton]
    have total := length_flatMap_range lens n
    rcases Nat.lt_succ_iff_lt_or_eq.mp block with earlier | last
    · have room : (k + 1) * len ≤ n * len := Nat.mul_le_mul_right len earlier
      rw [Nat.succ_mul] at room
      rw [List.getElem?_append_left (by omega), ih earlier]
    · rw [last, List.getElem?_append_right (by omega), total, Nat.add_sub_cancel_left]

end Blocks

end Blocks
