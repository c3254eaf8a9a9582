import Mathlib.Data.BitVec
import Mathlib.Algebra.BigOperators.Group.List.Basic

/-!
# Ranges of cells

The cells of a range, in order, on a machine whose addresses wrap around. A range is its first
part and the rest after it (`cells_add`), so a list of ranges that goes through another one in
pieces has the same cells.
-/

namespace Extents

variable {w : Nat}

/-- The `n` cells from `a` on -/
def cells (a : BitVec w) (n : Nat) : List (BitVec w) :=
  (List.range n).map fun k => a + BitVec.ofNat w k

@[simp] theorem cells_zero (a : BitVec w) : cells a 0 = [] := rfl

@[simp] theorem cells_length (a : BitVec w) (n : Nat) : (cells a n).length = n := by
  unfold cells
  rw [List.length_map, List.length_range]

theorem cells_add (a : BitVec w) (m n : Nat) :
    cells a (m + n) = cells a m ++ cells (a + BitVec.ofNat w m) n := by
  unfold cells
  rw [List.range_add, List.map_append, List.map_map]
  congr 1
  refine List.map_congr_left fun k _ => ?_
  rw [Function.comp_apply, BitVec.ofNat_add, add_assoc]

theorem length_flatMap_cells {α : Type*} (addr : α → BitVec w) (count : α → Nat) (l : List α) :
    (l.flatMap fun e => cells (addr e) (count e)).length = (l.map count).sum := by
  rw [List.length_flatMap]
  exact congrArg List.sum (List.map_congr_left fun e _ => cells_length _ _)

end Extents
