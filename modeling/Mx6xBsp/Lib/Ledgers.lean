import Mathlib.Data.List.Basic
import Mathlib.Tactic.TypeStar

/-!
# Ledgers of blocks

What a program does with blocks of memory, one thing after the other: it takes a block of some
size, gives one back, uses one, and relies on something (`Move`). `replay` follows the moves
with the blocks that are out. It has no meaning once a block is given back that is not out, or
is given back with another size, once a block is used that is not out, or once something relied
on does not hold. Moves are `Clean` if they can be replayed and leave no block out.

A `Round` is a list of moves that leads back to the blocks it starts with exactly if some
condition holds, and nowhere otherwise. There is one rule for each move and for each way to put
rounds together, and a block may be taken before a round and given back after it.
-/

namespace Ledgers

/-- Where a block may be missing there may be a null pointer in its place. -/
inductive Move (ι : Type*)
  | take (b : ι) (size : Nat)
  | give (b : Option ι) (size : Nat)
  | use (b : Option ι)
  | rely (holds : Bool)

/-- The blocks that are out, each with its size -/
abbrev Heap (ι : Type*) := List (ι × Nat)

variable {ι : Type*} [DecidableEq ι]

/-- To give back a null pointer does nothing, and it cannot be used. -/
def Move.step (heap : Heap ι) : Move ι → Option (Heap ι)
  | .take b size => some ((b, size) :: heap)
  | .give none _ => some heap
  | .give (some b) size => if (b, size) ∈ heap then some (heap.erase (b, size)) else none
  | .use none => none
  | .use (some b) => if b ∈ heap.map Prod.fst then some heap else none
  | .rely holds => if holds then some heap else none

def replay (heap : Heap ι) (moves : List (Move ι)) : Option (Heap ι) :=
  moves.foldlM Move.step heap

def Clean (moves : List (Move ι)) : Prop := replay [] moves = some []

structure Round (heap : Heap ι) (moves : List (Move ι)) (P : Prop) : Prop where
  back : P → replay heap moves = some heap
  nowhere : ¬P → replay heap moves = none

variable {heap : Heap ι} {moves more : List (Move ι)} {b : ι} {n m : Nat} {P Q : Prop}

theorem replay_append : replay heap (moves ++ more) =
    (replay heap moves).bind fun heap => replay heap more :=
  List.foldlM_append

theorem replay_single (move : Move ι) : replay heap [move] = move.step heap :=
  Option.bind_fun_some _

/-! ## One move -/

theorem Round.nil : Round heap [] True := ⟨fun _ => rfl, fun no => absurd trivial no⟩

theorem Round.rely {holds : Bool} : Round heap [.rely holds] (holds = true) := by
  constructor <;> intro given <;> rw [replay_single]
  · exact if_pos given
  · exact if_neg given

theorem Round.use_last : Round ((b, n) :: heap) [.use (some b)] True := by
  refine ⟨fun _ => ?_, fun no => absurd trivial no⟩
  rw [replay_single]
  exact if_pos List.mem_cons_self

theorem Round.use_missing {b : Option ι} (missing : ∀ i ∈ b, i ∉ heap.map Prod.fst) :
    Round heap [.use b] False := by
  refine ⟨False.elim, fun _ => ?_⟩
  rw [replay_single]
  cases b with
  | none => rfl
  | some i => exact if_neg (missing i rfl)

theorem Round.give_missing {b : Option ι} (missing : ∀ i ∈ b, i ∉ heap.map Prod.fst) :
    Round heap [.give b n] (b = none) := by
  constructor <;> intro given <;> rw [replay_single]
  · rw [given]
    rfl
  · obtain ⟨i, rfl⟩ := Option.ne_none_iff_exists'.mp given
    exact if_neg fun mem => missing i rfl (List.mem_map_of_mem mem)

/-! ## Rounds put together -/

theorem Round.congr (round : Round heap moves P) (same : P ↔ Q) : Round heap moves Q :=
  ⟨fun holds => round.back (same.mpr holds), fun no => round.nowhere (mt same.mp no)⟩

theorem Round.append (first : Round heap moves P) (second : Round heap more Q) :
    Round heap (moves ++ more) (P ∧ Q) := by
  constructor
  · rintro ⟨left, right⟩
    rw [replay_append, first.back left]
    exact second.back right
  · intro no
    rw [replay_append]
    by_cases left : P
    · rw [first.back left]
      exact second.nowhere fun right => no ⟨left, right⟩
    · rw [first.nowhere left]
      rfl

theorem Round.ite {c : Prop} [Decidable c] (round : c → Round heap moves P) :
    Round heap (if c then moves else []) (c → P) := by
  split
  · rename_i yes
    exact (round yes).congr ⟨fun holds _ => holds, fun holds => holds yes⟩
  · rename_i no
    exact Round.nil.congr ⟨fun _ yes => absurd yes no, fun _ => trivial⟩

/-- A block that is taken before the round can be given back after it, with its size. -/
theorem Round.block (single : b ∉ heap.map Prod.fst) (round : Round ((b, n) :: heap) moves P) :
    Round heap (.take b n :: (moves ++ [.give (some b) m])) (P ∧ m = n) := by
  have give : replay ((b, n) :: heap) [.give (some b) m] = if m = n then some heap else none := by
    rw [replay_single]
    by_cases same : m = n
    · rw [if_pos same, same]
      refine (if_pos List.mem_cons_self).trans ?_
      rw [List.erase_cons_head]
    · rw [if_neg same]
      refine if_neg fun mem => ?_
      rcases List.mem_cons.mp mem with head | tail
      · exact same (Prod.mk.inj head).2
      · exact single (List.mem_map_of_mem tail)
  have taken : replay heap (.take b n :: (moves ++ [.give (some b) m])) =
      replay ((b, n) :: heap) (moves ++ [.give (some b) m]) := rfl
  constructor
  · rintro ⟨holds, same⟩
    rw [taken, replay_append, round.back holds]
    exact give.trans (if_pos same)
  · intro no
    rw [taken, replay_append]
    by_cases holds : P
    · rw [round.back holds]
      exact give.trans (if_neg fun same => no ⟨holds, same⟩)
    · rw [round.nowhere holds]
      rfl

theorem Round.clean_iff (round : Round [] moves P) : Clean moves ↔ P := by
  constructor
  · intro clean
    by_contra no
    exact Option.some_ne_none _ (clean.symm.trans (round.nowhere no))
  · exact round.back

end Ledgers
