import Mathlib.Data.List.Basic
import Mathlib.Data.List.GetD
import Mx6xBsp.Lib.Blocks

/-!
# Memories that are programmed by pages

A row of items sent to a page fills a latch, and goes on at the begin of the page where it
comes to its end; what is in the latch is then joined with the memory (`program`). A row that
stays in its page is joined with the items from its start on (`program_eq_merge`), rows that
follow each other are joined as one (`merge_append`), and a row that the memory takes as it
is reads back (`merge_eq_write`, `read_write`).
-/

namespace Pages

open Blocks

variable {α : Type*} (op : α → α → α) {m : Nat → α} {i n : Nat} {block more : List α}

/-- What the latch of a page holds at `o` when the items were sent to it from `start` on -/
def latch (size : Nat) : Nat → List α → Nat → Option α
  | _, [], _ => none
  | start, a :: block, o =>
    (latch size (start + 1) block o).or (if start % size = o then some a else none)

/-- The items are joined with the page of `i`. -/
def program (size i : Nat) (block : List α) (m : Nat → α) (x : Nat) : α :=
  if x / size = i / size then (latch size i block (x % size)).elim (m x) (op (m x)) else m x

/-- The items are joined with those from `i` on. -/
def merge (i : Nat) (block : List α) (m : Nat → α) (x : Nat) : α :=
  if i ≤ x then (block[x - i]?).elim (m x) (op (m x)) else m x

/-- The memory takes the items as they are. -/
def Takes (m : Nat → α) (i : Nat) (block : List α) : Prop :=
  ∀ o a, block[o]? = some a → op (m (i + o)) a = a

/-- The `n` items from `i` on -/
def read (m : Nat → α) (i n : Nat) : List α := (List.range n).map fun k => m (i + k)

/-! ## Rows that stay in their page -/

theorem latch_inside (page : Nat) {size start o : Nat} (room : start + block.length ≤ size)
    (inside : o < size) :
    latch size (size * page + start) block o =
      if start ≤ o then block[o - start]? else none := by
  induction block generalizing start with
  | nil => simp [latch]
  | cons a block ih =>
    rw [List.length_cons] at room
    have here : (size * page + start) % size = start := by
      rw [Nat.mul_add_mod, Nat.mod_eq_of_lt (by omega)]
    rw [latch, Nat.add_assoc, ih (by omega), here]
    rcases Nat.lt_trichotomy start o with before | same | after
    · have next : o - start = (o - (start + 1)) + 1 := by omega
      rw [if_pos (Nat.succ_le_of_lt before), if_pos (Nat.le_of_lt before),
        if_neg (Nat.ne_of_lt before), next,
        List.getElem?_cons_succ, Option.or_none]
    · subst same
      rw [if_neg (Nat.not_succ_le_self start), if_pos (Nat.le_refl start), if_pos rfl,
        Nat.sub_self, List.getElem?_cons_zero, Option.none_or]
    · rw [if_neg (by omega), if_neg (by omega), if_neg (by omega)]
      rfl

theorem merge_nil : merge op i [] m = m := by
  funext x
  simp [merge]

theorem merge_below {x : Nat} (below : x < i) : merge op i block m x = m x :=
  if_neg (Nat.not_le.mpr below)

theorem merge_beyond {x : Nat} (beyond : i + block.length ≤ x) : merge op i block m x = m x := by
  have none : block[x - i]? = none := List.getElem?_eq_none (by omega)
  simp [merge, none]

theorem merge_get {o : Nat} {a : α} (get : block[o]? = some a) :
    merge op i block m (i + o) = op (m (i + o)) a := by
  simp [merge, get]

theorem program_eq_merge {size : Nat} (pos : 0 < size)
    (room : i % size + block.length ≤ size) :
    program op size i block m = merge op i block m := by
  funext x
  have start : size * (i / size) + i % size = i := Nat.div_add_mod i size
  by_cases same : x / size = i / size
  · have place : size * (i / size) + x % size = x := by
      rw [← same]
      exact Nat.div_add_mod x size
    have held := latch_inside (i / size) room (Nat.mod_lt x pos)
    rw [start] at held
    have apart : x % size - i % size = x - i := by omega
    rw [program, if_pos same, held, merge, apart]
    by_cases above : i ≤ x
    · rw [if_pos above, if_pos (by omega)]
    · rw [if_neg above, if_neg (by omega)]
      rfl
  · rw [program, if_neg same]
    rcases Nat.lt_or_ge x i with below | above
    · exact (merge_below op below).symm
    · rcases Nat.lt_or_ge x (i + block.length) with inside | beyond
      · have page : x / size = i / size := by
          apply Nat.div_eq_of_lt_le
          · rw [Nat.mul_comm]
            omega
          · rw [Nat.succ_mul, Nat.mul_comm]
            omega
        exact absurd page same
      · exact (merge_beyond op beyond).symm

theorem merge_append :
    merge op (i + block.length) more (merge op i block m) = merge op i (block ++ more) m := by
  funext x
  rcases Nat.lt_or_ge x i with below | above
  · rw [merge_below op below, merge_below op (by omega), merge_below op below]
  · obtain ⟨o, rfl⟩ := Nat.exists_eq_add_of_le above
    rcases Nat.lt_or_ge o block.length with inside | beyond
    · have here := List.getElem?_eq_getElem inside
      rw [merge_below op (by omega), merge_get op here, merge_get op]
      rw [List.getElem?_append_left inside, here]
    · obtain ⟨k, rfl⟩ := Nat.exists_eq_add_of_le beyond
      have next : (block ++ more)[block.length + k]? = more[k]? := by
        rw [List.getElem?_append_right (Nat.le_add_right _ _), Nat.add_sub_cancel_left]
      cases get : more[k]? with
      | none =>
        have outside : more.length ≤ k := List.getElem?_eq_none_iff.mp get
        rw [merge_beyond op (by omega), merge_beyond op (by omega),
          merge_beyond op (by rw [List.length_append]; omega)]
      | some a =>
        rw [← Nat.add_assoc, merge_get op get, merge_beyond op (Nat.le_add_right _ _),
          Nat.add_assoc, merge_get op (next.trans get)]

variable {op}

theorem merge_eq_write (takes : Takes op m i block) : merge op i block m = write m i block := by
  funext x
  unfold merge write
  split
  case isTrue above =>
    cases get : block[x - i]? with
    | none => rfl
    | some a =>
      have same := takes (x - i) a get
      rw [Nat.add_sub_cancel' above] at same
      exact same
  case isFalse => rfl

theorem takes_append :
    Takes op m i (block ++ more) ↔ Takes op m i block ∧ Takes op m (i + block.length) more := by
  constructor
  · intro takes
    constructor
    · intro o a get
      apply takes o a
      rw [List.getElem?_append_left (List.getElem?_eq_some_iff.mp get).1, get]
    · intro o a get
      rw [Nat.add_assoc]
      apply takes (block.length + o) a
      rw [List.getElem?_append_right (Nat.le_add_right _ _), Nat.add_sub_cancel_left, get]
  · intro ⟨first, rest⟩ o a get
    rcases Nat.lt_or_ge o block.length with inside | beyond
    · rw [List.getElem?_append_left inside] at get
      exact first o a get
    · obtain ⟨k, rfl⟩ := Nat.exists_eq_add_of_le beyond
      rw [List.getElem?_append_right beyond, Nat.add_sub_cancel_left] at get
      rw [← Nat.add_assoc]
      exact rest k a get

theorem Takes.merge (takes : Takes op m (i + block.length) more) :
    Takes op (merge op i block m) (i + block.length) more := by
  intro o a get
  rw [merge_beyond op (Nat.le_add_right _ _)]
  exact takes o a get

/-! ## Reads -/

@[simp] theorem length_read : (read m i n).length = n := by
  simp [read]

theorem read_add (k : Nat) : read m i (n + k) = read m i n ++ read m (i + n) k := by
  simp [read, List.range_add, Nat.add_assoc]

theorem read_write : read (write m i block) i block.length = block := by
  apply List.ext_getElem?
  intro k
  rcases Nat.lt_or_ge k block.length with inside | beyond
  · have here := List.getElem?_eq_getElem inside
    simp [read, inside, write_get here]
  · simp [read, beyond]

theorem Takes.read (takes : Takes op m i block) :
    read (Pages.merge op i block m) i block.length = block := by
  rw [merge_eq_write takes, read_write]

end Pages
