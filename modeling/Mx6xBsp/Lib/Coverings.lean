import Mathlib.Data.List.Count
import Mathlib.Tactic.TypeStar

/-!
# How often a list of regions covers a point

`cover inside l x` counts the regions of `l` with `x` inside. The regions are pairwise disjoint
exactly when no point is covered twice (`pairwise_iff_cover_le`).
-/

namespace Coverings

variable {α ξ : Type*} (inside : α → ξ → Bool)

def cover (l : List α) (x : ξ) : Nat := l.countP (inside · x)

variable {inside} {l m : List α} {a : α} {x : ξ}

@[simp] theorem cover_nil : cover inside [] x = 0 := rfl

@[simp] theorem cover_cons :
    cover inside (a :: l) x = cover inside l x + if inside a x then 1 else 0 :=
  List.countP_cons

@[simp] theorem cover_append : cover inside (l ++ m) x = cover inside l x + cover inside m x :=
  List.countP_append

theorem cover_pos : 0 < cover inside l x ↔ ∃ a ∈ l, inside a x := List.countP_pos_iff

theorem cover_eq_zero : cover inside l x = 0 ↔ ∀ a ∈ l, ¬inside a x := List.countP_eq_zero

theorem cover_filter {p : α → Bool} (empty : ∀ a, inside a x → p a) :
    cover inside (l.filter p) x = cover inside l x := by
  unfold cover
  rw [List.countP_filter]
  apply List.countP_congr
  intro a _
  simpa using empty a

theorem pairwise_iff_cover_le :
    l.Pairwise (fun a b => ∀ x, ¬(inside a x ∧ inside b x)) ↔ ∀ x, cover inside l x ≤ 1 := by
  induction l with
  | nil => simp
  | cons a l ih =>
    rw [List.pairwise_cons, ih]
    constructor
    · rintro ⟨apart, rest⟩ x
      rw [cover_cons]
      split
      · rename_i here
        have none : cover inside l x = 0 := cover_eq_zero.mpr fun b mem also =>
          apart b mem x ⟨here, also⟩
        omega
      · exact rest x
    · intro once
      constructor
      · rintro b mem x ⟨here, also⟩
        have twice := once x
        rw [cover_cons, if_pos here] at twice
        have pos := cover_pos.mpr ⟨b, mem, also⟩
        omega
      · intro x
        have total := once x
        rw [cover_cons] at total
        omega

end Coverings
