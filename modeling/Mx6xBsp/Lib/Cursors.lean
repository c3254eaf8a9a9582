import Mathlib.Data.List.Basic

/-!
# A place in a list that is kept in pieces

A list is kept in pieces, one after the other. `advance` goes over whole pieces until an
offset lies in the one it has come to (`Cursor`). It finds a place exactly if the list is
that long (`advance_eq_none_iff`), to go on from a place is to go further from the start
(`advance_skip`), and what is read behind a place within its piece is what the list has
there (`advance_getElem?`).
-/

namespace Cursors

variable {α : Type*}

/-- A place in a piece, with the pieces behind it. -/
structure Cursor (α : Type*) where
  piece : List α
  rest : List (List α)
  offset : Nat
  inside : offset < piece.length

def advance : List (List α) → Nat → Option (Cursor α)
  | [], _ => none
  | piece :: rest, n =>
    if h : n ≥ piece.length then advance rest (n - piece.length)
    else some ⟨piece, rest, n, Nat.lt_of_not_le h⟩

/-- Going on from a place. -/
def Cursor.skip (c : Cursor α) (k : Nat) : Option (Cursor α) :=
  advance (c.piece :: c.rest) (c.offset + k)

variable {pieces rest : List (List α)} {piece : List α} {n k i : Nat} {c : Cursor α}

theorem advance_over (past : piece.length ≤ n) :
    advance (piece :: rest) n = advance rest (n - piece.length) := by
  rw [advance, dif_pos past]

theorem advance_within (within : n < piece.length) :
    advance (piece :: rest) n = some ⟨piece, rest, n, within⟩ := by
  rw [advance, dif_neg (Nat.not_le_of_lt within)]

theorem advance_eq_none_iff : advance pieces n = none ↔ pieces.flatten.length ≤ n := by
  induction pieces generalizing n with
  | nil => exact iff_of_true rfl (Nat.zero_le n)
  | cons piece rest ih =>
    rw [List.flatten_cons, List.length_append]
    rcases Nat.lt_or_ge n piece.length with within | past
    · rw [advance_within within]
      exact iff_of_false nofun (by omega)
    · rw [advance_over past, ih]
      omega

theorem exists_advance (long : n < pieces.flatten.length) : ∃ c, advance pieces n = some c :=
  Option.ne_none_iff_exists'.mp fun none =>
    absurd (advance_eq_none_iff.mp none) (Nat.not_le_of_lt long)

/-- What `advance` passes over does not matter afterwards. -/
theorem advance_suffix (found : advance pieces n = some c) (k : Nat) :
    advance (c.piece :: c.rest) (c.offset + k) = advance pieces (n + k) ∧
      pieces.flatten.drop n = c.piece.drop c.offset ++ c.rest.flatten := by
  induction pieces generalizing n with
  | nil => cases found
  | cons piece rest ih =>
    rcases Nat.lt_or_ge n piece.length with within | past
    · rw [advance_within within] at found
      cases found
      rw [List.flatten_cons, List.drop_append_of_le_length (Nat.le_of_lt within)]
      exact ⟨rfl, rfl⟩
    · rw [advance_over past] at found
      obtain ⟨next, left⟩ := ih found
      constructor
      · rw [next, advance_over (Nat.le_add_right_of_le past), Nat.sub_add_comm past]
      · rw [List.flatten_cons, List.drop_append, List.drop_eq_nil_of_le past, List.nil_append,
          left]

theorem advance_skip (found : advance pieces n = some c) (k : Nat) :
    c.skip k = advance pieces (n + k) := (advance_suffix found k).1

theorem advance_getElem? (found : advance pieces n = some c)
    (within : c.offset + i < c.piece.length) :
    c.piece[c.offset + i]? = pieces.flatten[n + i]? := by
  have left := (advance_suffix found 0).2
  rw [← List.getElem?_drop, ← List.getElem?_drop, left, List.getElem?_append_left]
  rw [List.length_drop]
  omega

theorem advance_le (found : advance pieces n = some c)
    (within : c.offset + i ≤ c.piece.length) : n + i ≤ pieces.flatten.length := by
  have left := congrArg List.length (advance_suffix found 0).2
  rw [List.length_append, List.length_drop, List.length_drop] at left
  have inside := c.inside
  omega

end Cursors
