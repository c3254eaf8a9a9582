import Mathlib.Data.BitVec
import Mathlib.Algebra.BigOperators.Group.List.Basic
import Mathlib.Tactic.Abel

/-!
# Copies made piece by piece

A memory is a function from the addresses of a machine, which wrap around, to its cells.
`move` copies a range all at once, as if the source were read before anything is written.
`pieces` moves a range as consecutive pieces, from the lowest on, and `ascend` cell by
cell. `pieces_right_iff` tells when pieces do what one move does: the destination is the
source, or does not begin in the rest of it, or there is a single piece. `descend` copies
from the highest cell down (`descend_right_iff`).
-/

namespace Copies

variable {w : Nat} {β : Type*} {dst src a : BitVec w} {n k b : Nat} {lens : List Nat}
  {mem : BitVec w → β}

/-- `n` cells copied from `src` to `dst` -/
def move (dst src : BitVec w) (n : Nat) (mem : BitVec w → β) : BitVec w → β := fun a =>
  if (a - dst).toNat < n then mem (src + (a - dst)) else mem a

/-- Consecutive pieces of the given lengths, moved one after the other -/
def pieces (dst src : BitVec w) : List Nat → (BitVec w → β) → BitVec w → β
  | [], mem => mem
  | n :: lens, mem =>
    pieces (dst + BitVec.ofNat w n) (src + BitVec.ofNat w n) lens (move dst src n mem)

/-- Cell by cell, from the lowest address on -/
def ascend (dst src : BitVec w) (n : Nat) (mem : BitVec w → β) : BitVec w → β :=
  pieces dst src (List.replicate n 1) mem

/-- How far the destination begins behind the source -/
def gap (dst src : BitVec w) : Nat := (dst - src).toNat

theorem gap_add (dst src v : BitVec w) : gap (dst + v) (src + v) = gap dst src := by
  unfold gap
  rw [add_sub_add_right_eq_sub]

/-- An address behind the first `n` cells, from the cell after them -/
theorem behind_toNat (behind : n ≤ (a - dst).toNat) :
    (a - (dst + BitVec.ofNat w n)).toNat = (a - dst).toNat - n := by
  have bound := (a - dst).isLt
  have split : a - (dst + BitVec.ofNat w n) = (a - dst) - BitVec.ofNat w n :=
    sub_add_eq_sub_sub _ _ _
  rw [split, BitVec.toNat_sub_of_le, BitVec.toNat_ofNat, Nat.mod_eq_of_lt (by omega)]
  rw [BitVec.le_def, BitVec.toNat_ofNat, Nat.mod_eq_of_lt (by omega)]
  exact behind

theorem offset_toNat (dst : BitVec w) (below : k < 2 ^ w) :
    (dst + BitVec.ofNat w k - dst).toNat = k := by
  rw [add_sub_cancel_left, BitVec.toNat_ofNat, Nat.mod_eq_of_lt below]

/-- An offset behind the first `b` cells -/
theorem offset_after (behind : b ≤ k) :
    (dst + BitVec.ofNat w k) = (dst + BitVec.ofNat w b) + BitVec.ofNat w (k - b) := by
  rw [add_assoc, ← BitVec.ofNat_add, Nat.add_sub_cancel' behind]

theorem move_inside (below : k < 2 ^ w) (inside : k < n) :
    move dst src n mem (dst + BitVec.ofNat w k) = mem (src + BitVec.ofNat w k) := by
  unfold move
  rw [offset_toNat dst below, if_pos inside, add_sub_cancel_left]

theorem move_outside (outside : n ≤ (a - dst).toNat) : move dst src n mem a = mem a :=
  if_neg (Nat.not_lt.mpr outside)

theorem move_zero : move dst src 0 mem = mem :=
  funext fun _ => move_outside (Nat.zero_le _)

theorem move_self : move dst dst n mem = mem := by
  funext a
  unfold move
  rw [add_sub_cancel]
  exact ite_self _

theorem pieces_append (lens' : List Nat) :
    pieces dst src (lens ++ lens') mem =
      pieces (dst + BitVec.ofNat w lens.sum) (src + BitVec.ofNat w lens.sum) lens'
        (pieces dst src lens mem) := by
  induction lens generalizing dst src mem with
  | nil =>
    have zero : BitVec.ofNat w 0 = 0 := rfl
    rw [List.sum_nil, zero, add_zero, add_zero]
    rfl
  | cons n lens ih =>
    rw [List.sum_cons, BitVec.ofNat_add, ← add_assoc, ← add_assoc]
    exact ih

theorem pieces_outside (room : lens.sum ≤ 2 ^ w) (outside : lens.sum ≤ (a - dst).toNat) :
    pieces dst src lens mem a = mem a := by
  induction lens generalizing dst src mem with
  | nil => rfl
  | cons n lens ih =>
    rw [List.sum_cons] at room outside
    have behind : (a - (dst + BitVec.ofNat w n)).toNat = (a - dst).toNat - n :=
      behind_toNat (by omega)
    refine (ih (by omega) (by omega)).trans (move_outside (by omega))

/-- Offset `k` is not written by the first `k` cells moved. -/
theorem source_offset (room : k < 2 ^ w) (near : k < gap dst src) :
    k ≤ (src + BitVec.ofNat w k - dst).toNat := by
  have gap_lt : gap dst src < 2 ^ w := (dst - src).isLt
  have turned : src + BitVec.ofNat w k - dst = BitVec.ofNat w k - (dst - src) := by
    rw [sub_sub_eq_add_sub, add_comm]
  have apart : (dst - src).toNat = gap dst src := rfl
  rw [turned, BitVec.toNat_sub, BitVec.toNat_ofNat, Nat.mod_eq_of_lt room, apart,
    Nat.mod_eq_of_lt (by omega)]
  omega

/-- An offset closer than the destination is to the source gets the cell that was there. -/
theorem pieces_at (room : lens.sum ≤ 2 ^ w) (inside : k < lens.sum) (near : k < gap dst src) :
    pieces dst src lens mem (dst + BitVec.ofNat w k) = mem (src + BitVec.ofNat w k) := by
  induction lens generalizing dst src mem k with
  | nil => exact absurd inside (Nat.not_lt_zero k)
  | cons n lens ih =>
    rw [List.sum_cons] at room inside
    by_cases first : k < n
    · have behind : lens.sum ≤
          (dst + BitVec.ofNat w k - (dst + BitVec.ofNat w n)).toNat := by
        rw [add_sub_add_left_eq_sub, BitVec.toNat_sub, BitVec.toNat_ofNat, BitVec.toNat_ofNat]
        by_cases full : n = 2 ^ w
        · omega
        · rw [Nat.mod_eq_of_lt (by omega : n < 2 ^ w), Nat.mod_eq_of_lt (by omega : k < 2 ^ w),
            Nat.mod_eq_of_lt (by omega)]
          omega
      exact (pieces_outside (by omega) behind).trans (move_inside (by omega) first)
    · have kept : move dst src n mem (src + BitVec.ofNat w k) = mem (src + BitVec.ofNat w k) :=
        move_outside ((Nat.not_lt.mp first).trans (source_offset (by omega) near))
      have later : pieces _ _ lens (move dst src n mem) (dst + _ + BitVec.ofNat w (k - n)) =
          move dst src n mem (src + BitVec.ofNat w n + BitVec.ofNat w (k - n)) :=
        ih (by omega) (by omega) (by rw [gap_add]; omega)
      rw [← offset_after (Nat.not_lt.mp first), ← offset_after (Nat.not_lt.mp first)] at later
      exact later.trans kept

theorem pieces_self : pieces dst dst lens mem = mem := by
  induction lens generalizing dst mem with
  | nil => rfl
  | cons n lens ih =>
    show pieces _ _ lens (move dst dst n mem) = mem
    rw [move_self, ih]

/-- Pieces do what one move does if the destination does not begin in the rest of the source. -/
theorem pieces_eq_move (room : lens.sum ≤ 2 ^ w) (apart : lens.sum ≤ gap dst src) :
    pieces dst src lens mem = move dst src lens.sum mem := by
  funext a
  have back : dst + BitVec.ofNat w (a - dst).toNat = a := by
    rw [BitVec.ofNat_toNat, BitVec.setWidth_eq, add_sub_cancel]
  have bound := (a - dst).isLt
  by_cases inside : (a - dst).toNat < lens.sum
  · rw [← back, pieces_at room inside (Nat.lt_of_lt_of_le inside apart),
      move_inside bound inside]
  · rw [pieces_outside room (Nat.not_lt.mp inside), move_outside (Nat.not_lt.mp inside)]

theorem pieces_ne_move {x y : β} (differ : x ≠ y) {rest : List Nat}
    (first : 0 < b) (more : 0 < rest.sum) (room : b + rest.sum ≤ 2 ^ w)
    (pos : 0 < gap dst src) (near : gap dst src < b + rest.sum) :
    ∃ mem : BitVec w → β,
      pieces dst src (b :: rest) mem ≠ move dst src (b + rest.sum) mem := by
  have d_lt : gap dst src < 2 ^ w := (dst - src).isLt
  -- `i` is in the first piece, and the place that it is read from by the copy of `i + gap` is not
  obtain ⟨i, within, behind, inside⟩ : ∃ i, i < b ∧ b ≤ i + gap dst src ∧
      i + gap dst src < b + rest.sum := by
    by_cases long : gap dst src < b
    · exact ⟨b - gap dst src, by omega, by omega, by omega⟩
    · exact ⟨0, first, by omega, by omega⟩
  refine ⟨fun a => if a = src + BitVec.ofNat w i then x else y, fun same => ?_⟩
  have shift : src + BitVec.ofNat w (i + gap dst src) = dst + BitVec.ofNat w i := by
    have apart : BitVec.ofNat w (gap dst src) = dst - src := by
      unfold gap
      rw [BitVec.ofNat_toNat, BitVec.setWidth_eq]
    rw [BitVec.ofNat_add, apart, add_comm (BitVec.ofNat w i), ← add_assoc, add_sub_cancel]
  have at_ := congrFun same (dst + BitVec.ofNat w (i + gap dst src))
  rw [move_inside (by omega) inside] at at_
  have passed : pieces _ _ rest
        (move dst src b fun a => if a = src + BitVec.ofNat w i then x else y)
        (dst + _ + BitVec.ofNat w (i + gap dst src - b)) =
      move dst src b (fun a => if a = src + BitVec.ofNat w i then x else y)
        (src + BitVec.ofNat w b + BitVec.ofNat w (i + gap dst src - b)) :=
    pieces_at (by omega) (by omega) (by rw [gap_add]; omega)
  rw [← offset_after behind, ← offset_after behind, shift, move_inside (by omega) within,
    if_pos rfl] at passed
  have other : src + BitVec.ofNat w (i + gap dst src) ≠ src + BitVec.ofNat w i := by
    intro eq
    have places := congrArg BitVec.toNat (add_left_cancel eq)
    rw [BitVec.toNat_ofNat, BitVec.toNat_ofNat, Nat.mod_eq_of_lt (by omega),
      Nat.mod_eq_of_lt (by omega)] at places
    omega
  rw [if_neg other] at at_
  exact differ (passed.symm.trans at_)

theorem pieces_right_iff [Nontrivial β] (dst src : BitVec w) (pos : ∀ n ∈ lens, 0 < n)
    (room : lens.sum ≤ 2 ^ w) :
    (∀ mem : BitVec w → β, pieces dst src lens mem = move dst src lens.sum mem) ↔
      gap dst src = 0 ∨ lens.sum ≤ gap dst src ∨ lens.length ≤ 1 := by
  constructor
  · intro right
    by_contra wrong
    obtain ⟨away, wrong⟩ := not_or.mp wrong
    obtain ⟨near, many⟩ := not_or.mp wrong
    obtain ⟨x, y, differ⟩ := exists_pair_ne β
    cases lens with
    | nil => exact many (Nat.zero_le 1)
    | cons b rest =>
      cases rest with
      | nil => exact many (Nat.le_refl 1)
      | cons c rest =>
        have later : 0 < (c :: rest).sum := by
          rw [List.sum_cons]
          have := pos c (List.mem_cons_of_mem _ List.mem_cons_self)
          omega
        rw [List.sum_cons] at room near right
        obtain ⟨mem, differs⟩ := pieces_ne_move differ (pos b List.mem_cons_self) later room
          (Nat.pos_of_ne_zero away) (Nat.not_le.mp near)
        exact differs (right mem)
  · rintro (none_ | apart | single) mem
    · have same : dst = src := by
        have zero : dst - src = 0 := BitVec.eq_of_toNat_eq none_
        exact sub_eq_zero.mp zero
      rw [same, pieces_self, move_self]
    · exact pieces_eq_move room apart
    · match lens, single with
      | [], _ => exact move_zero.symm
      | [n], _ => exact congrArg (fun k => move dst src k mem) (add_zero n).symm

/-! ## From the highest address down -/

/-- Cell by cell, from the highest address down -/
def descend (dst src : BitVec w) : Nat → (BitVec w → β) → BitVec w → β
  | 0, mem => mem
  | n + 1, mem =>
    descend dst src n (move (dst + BitVec.ofNat w n) (src + BitVec.ofNat w n) 1 mem)

theorem descend_self : descend dst dst n mem = mem := by
  induction n generalizing mem with
  | zero => rfl
  | succ n ih =>
    show descend dst dst n (move _ _ 1 mem) = mem
    rw [move_self, ih]

theorem move_succ (room : n < 2 ^ w) (apart : gap dst src + (n + 1) ≤ 2 ^ w) :
    move dst src n (move (dst + BitVec.ofNat w n) (src + BitVec.ofNat w n) 1 mem) =
      move dst src (n + 1) mem := by
  funext a
  have back : dst + BitVec.ofNat w (a - dst).toNat = a := by
    rw [BitVec.ofNat_toNat, BitVec.setWidth_eq, add_sub_cancel]
  have bound := (a - dst).isLt
  by_cases before : (a - dst).toNat < n
  · rw [← back, move_inside bound before, move_inside bound (by omega)]
    apply move_outside
    -- what is read is not the cell moved before
    have turned : src + BitVec.ofNat w (a - dst).toNat - (dst + BitVec.ofNat w n) =
        BitVec.ofNat w (a - dst).toNat - (BitVec.ofNat w n + (dst - src)) := by
      abel
    have far : (BitVec.ofNat w n + (dst - src)).toNat = n + gap dst src := by
      rw [BitVec.toNat_add, BitVec.toNat_ofNat, Nat.mod_eq_of_lt room]
      exact Nat.mod_eq_of_lt (by unfold gap at apart; omega)
    rw [turned, BitVec.toNat_sub, far, BitVec.toNat_ofNat, Nat.mod_eq_of_lt bound,
      Nat.mod_eq_of_lt (by omega)]
    omega
  · rw [move_outside (Nat.not_lt.mp before)]
    by_cases last : (a - dst).toNat = n
    · have place : a = dst + BitVec.ofNat w n + BitVec.ofNat w 0 := by
        rw [← last, back]
        exact (add_zero a).symm
      rw [← back, last, move_inside room (Nat.lt_succ_self n)]
      have zero : (0 : Nat) < 2 ^ w := Nat.two_pow_pos w
      have first : move (dst + BitVec.ofNat w n) (src + BitVec.ofNat w n) 1 mem
          (dst + BitVec.ofNat w n + BitVec.ofNat w 0) = _ := move_inside zero Nat.one_pos
      rw [← place, ← back, last] at first
      exact first.trans (congrArg mem (add_zero _))
    · rw [move_outside (n := n + 1) (by omega)]
      apply move_outside
      rw [behind_toNat (by omega)]
      omega

theorem descend_eq_move (room : n ≤ 2 ^ w) (apart : gap dst src + n ≤ 2 ^ w) :
    descend dst src n mem = move dst src n mem := by
  induction n generalizing mem with
  | zero => exact move_zero.symm
  | succ n ih => exact (ih (by omega) (by omega)).trans (move_succ room apart)

/-! ## A cell that is lost -/

/-- The memories differ in no cell but `c`. -/
def Agree (c : BitVec w) (mem mem' : BitVec w → β) : Prop := ∀ a ≠ c, mem a = mem' a

variable {c : BitVec w} {mem' : BitVec w → β}

theorem Agree.move (agree : Agree c mem mem') (unread : ∀ k < n, src + BitVec.ofNat w k ≠ c) :
    Agree c (move dst src n mem) (move dst src n mem') := by
  intro a other
  unfold Copies.move
  by_cases inside : (a - dst).toNat < n
  · have away := unread _ inside
    rw [BitVec.ofNat_toNat, BitVec.setWidth_eq] at away
    rw [if_pos inside, if_pos inside, agree _ away]
  · rw [if_neg inside, if_neg inside, agree a other]

theorem Agree.move_lost (agree : Agree c mem mem')
    (unread : ∀ k < n, src + BitVec.ofNat w k ≠ c) (written : (c - dst).toNat < n) :
    Copies.move dst src n mem = Copies.move dst src n mem' := by
  funext a
  by_cases same : a = c
  · have away := unread _ written
    rw [BitVec.ofNat_toNat, BitVec.setWidth_eq] at away
    unfold Copies.move
    rw [same, if_pos written, if_pos written, agree _ away]
  · exact agree.move unread a same

theorem Agree.pieces_lost (agree : Agree c mem mem')
    (unread : ∀ k < lens.sum, src + BitVec.ofNat w k ≠ c) (written : (c - dst).toNat < lens.sum) :
    pieces dst src lens mem = pieces dst src lens mem' := by
  induction lens generalizing dst src mem mem' with
  | nil => exact absurd written (Nat.not_lt_zero _)
  | cons n lens ih =>
    rw [List.sum_cons] at unread written
    have first : ∀ k < n, src + BitVec.ofNat w k ≠ c := fun k less => unread k (by omega)
    by_cases now : (c - dst).toNat < n
    · exact congrArg (pieces _ _ lens) (agree.move_lost first now)
    · refine ih (agree.move first) (fun k less => ?_) ?_
      · rw [add_assoc, ← BitVec.ofNat_add]
        exact unread (n + k) (by omega)
      · rw [behind_toNat (Nat.not_lt.mp now)]
        omega

theorem Agree.descend_lost (agree : Agree c mem mem')
    (unread : ∀ k < n, src + BitVec.ofNat w k ≠ c) (written : (c - dst).toNat < n) :
    descend dst src n mem = descend dst src n mem' := by
  induction n generalizing mem mem' with
  | zero => exact absurd written (Nat.not_lt_zero _)
  | succ n ih =>
    have last : ∀ k < 1, src + BitVec.ofNat w n + BitVec.ofNat w k ≠ c := by
      intro k less
      rw [add_assoc, ← BitVec.ofNat_add]
      exact unread (n + k) (by omega)
    by_cases now : (c - dst).toNat = n
    · refine congrArg (descend dst src n) (agree.move_lost last ?_)
      rw [behind_toNat now.ge]
      omega
    · exact ih (agree.move last) (fun k less => unread k (by omega)) (by omega)

theorem not_move_of_lost [Nontrivial β] {copy : (BitVec w → β) → BitVec w → β} (inside : k < n)
    (room : n ≤ 2 ^ w) (cell : c = src + BitVec.ofNat w k)
    (lost : ∀ mem mem', Agree c mem mem' → copy mem = copy mem') :
    ¬∀ mem, copy mem = move dst src n mem := by
  intro right
  obtain ⟨x, y, differ⟩ := exists_pair_ne β
  have agree : Agree c (fun a => if a = c then x else y) fun _ => y := fun a other => if_neg other
  have same := lost _ _ agree
  rw [right, right] at same
  have delivered := congrFun same (dst + BitVec.ofNat w k)
  rw [move_inside (by omega) inside, move_inside (by omega) inside, ← cell, if_pos rfl] at delivered
  exact differ delivered

/-- Downwards a copy is one move if the source does not begin in the rest of the destination. -/
theorem descend_right_iff [Nontrivial β] (dst src : BitVec w) (room : n ≤ 2 ^ w) :
    (∀ mem : BitVec w → β, descend dst src n mem = move dst src n mem) ↔
      gap dst src = 0 ∨ gap dst src + n ≤ 2 ^ w := by
  constructor
  · intro right
    by_contra wrong
    obtain ⟨away, near⟩ := not_or.mp wrong
    have gap_lt : gap dst src < 2 ^ w := (dst - src).isLt
    cases n with
    | zero => omega
    | succ n =>
      have apart : src + BitVec.ofNat w (gap dst src) = dst := by
        unfold gap
        rw [BitVec.ofNat_toNat, BitVec.setWidth_eq, add_sub_cancel]
      -- the last cell of the destination is read from the source later
      have cell : dst + BitVec.ofNat w n = src + BitVec.ofNat w (n + gap dst src - 2 ^ w) := by
        have turn : BitVec.ofNat w (n + gap dst src) =
            BitVec.ofNat w (n + gap dst src - 2 ^ w) := by
          apply BitVec.eq_of_toNat_eq
          rw [BitVec.toNat_ofNat, BitVec.toNat_ofNat, ← Nat.mod_eq_sub_mod (by omega)]
        rw [← turn, Nat.add_comm n, BitVec.ofNat_add, ← add_assoc, apart]
      refine not_move_of_lost (by omega) room cell (fun mem mem' agree => ?_) right
      refine congrArg (descend dst src n) (agree.move_lost (fun k less => ?_) ?_)
      · rw [Nat.lt_one_iff.mp less]
        intro same
        have zero : src + BitVec.ofNat w n = dst + BitVec.ofNat w n :=
          (add_zero _).symm.trans same
        have equal := add_right_cancel zero
        unfold gap at away
        rw [equal, sub_self] at away
        exact away rfl
      · rw [sub_self]
        exact Nat.one_pos
  · rintro (none_ | apart) mem
    · have zero : dst - src = 0 := BitVec.eq_of_toNat_eq none_
      rw [sub_eq_zero.mp zero, descend_self, move_self]
    · exact descend_eq_move room apart

end Copies
