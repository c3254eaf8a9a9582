import Mx6xBsp.Startup.SdmaCopy

/-!
# Moving memory in chunks

`memmove.c` and `memcpy.c` of the startup library byte by byte and word by word, and the
`copy_memory` of `memfuncs.c` on top of them. On ARM a mapped address is a pointer as it is, and the
pointer to the one-to-one mapping area is off by `paddr_bias`. The mini-drivers that run between two
chunks write to data of their own. `copyMemory_iff` tells when the copy is one of the whole range:
for overlapping ranges `memmove` needs to have the range at once.
-/

namespace Mx6xBsp.Startup.MemMove

open Copies SdmaCopy

abbrev Mem := Addr → UInt8

/-! ## `memcpy` -/

/-- The pointers of `memcpy` with the memory they point to -/
structure Pointers where
  d : Addr
  s : Addr
  mem : Mem

/-- `*d++ = *s++` for a type of `n` bytes -/
def Pointers.next (n : Nat) (p : Pointers) : Pointers :=
  ⟨p.d + BitVec.ofNat 32 n, p.s + BitVec.ofNat 32 n, move p.d p.s n p.mem⟩

/-- `count` of these in a row -/
def Pointers.steps (n : Nat) : Nat → Pointers → Pointers
  | 0, p => p
  | count + 1, p => Pointers.steps n count (p.next n)

/-- The loop of words with `n` rounds, the first of which is entered `entry` words before its
end -/
def duff : Nat → Nat → Pointers → Pointers
  | 0, _, p => p
  | n + 1, entry, p => duff n 16 (p.steps 4 entry)

def memcpy (dst src : Addr) (nbytes : Reg) (mem : Mem) : Mem :=
  if 4 ≤ nbytes ∧ src &&& 3 = 0 ∧ dst &&& 3 = 0 then
    let words := (nbytes >>> 2).toNat
    let p := duff ((words + 15) / 16) (if words % 16 = 0 then 16 else words % 16) ⟨dst, src, mem⟩
    -- the remainder, where there is none neither pointer is used any more
    (p.steps 1 (nbytes &&& 3).toNat).mem
  else (Pointers.steps 1 nbytes.toNat ⟨dst, src, mem⟩).mem

/-! ## `memmove` -/

/-- The backward loop, with `d[len] = s[len]` for the byte -/
def backward (d s : Addr) : Nat → Mem → Mem
  | 0, mem => mem
  | len + 1, mem =>
    backward d s len (move (d + BitVec.ofNat 32 len) (s + BitVec.ofNat 32 len) 1 mem)

def memmove (d s : Addr) (len : Reg) (mem : Mem) : Mem :=
  -- pointers overlapping, have to copy backwards
  if s < d ∧ s + len > d then backward d s len.toNat mem
  else memcpy d s len mem

/-! ## `copy_memory` -/

/-- `MAKE_1TO1_PTR` with the bias of the startup header -/
def MAKE_1TO1_PTR (bias : Addr) (p : Addr) : Addr := p + bias

/-- `startup_memory_map` for ARM -/
def startupMemoryMap (phys : Addr) : Addr := phys

/-- The loop of `copy_memory`. Nothing comes back where it takes more than `fuel` rounds. -/
def copyLoop (bias : Addr) (max : Reg) : Nat → Addr → Addr → Reg → Mem → Option Mem
  | 0, _, _, _, _ => none
  | fuel + 1, dst, src, len, mem =>
    let amount := if len > max then max else len
    let d := MAKE_1TO1_PTR bias dst
    let s := startupMemoryMap src
    let mem := memmove d s amount mem
    let len := len - amount
    if len = 0 then some mem
    else copyLoop bias max fuel (dst + amount) (src + amount) len mem

def copyMemory (bias : Addr) (m : Mdriver) (dst src : Addr) (len : Reg) (mem : Mem) : Option Mem :=
  let max := if 0 < m.size then m.max else len
  copyLoop bias max (len.toNat + 1) dst src len mem

/-- The bytes come to the one-to-one mapping of `dst` as they were before the call, and no other
changes. -/
def Copied (bias : Addr) (m : Mdriver) (dst src : Addr) (len : Reg) : Prop :=
  ∀ mem, copyMemory bias m dst src len mem =
    some (move (MAKE_1TO1_PTR bias dst) (startupMemoryMap src) len.toNat mem)

/-! ## `memcpy` is a sequence of pieces -/

theorem Pointers.steps_eq (n count : Nat) (p : Pointers) :
    p.steps n count = ⟨p.d + BitVec.ofNat 32 (n * count), p.s + BitVec.ofNat 32 (n * count),
      pieces p.d p.s (List.replicate count n) p.mem⟩ := by
  induction count generalizing p with
  | zero =>
    have zero : BitVec.ofNat 32 (n * 0) = 0 := rfl
    rw [zero, add_zero, add_zero]
    rfl
  | succ count ih =>
    have total : n * (count + 1) = n + n * count := by rw [Nat.mul_succ, Nat.add_comm]
    rw [total, BitVec.ofNat_add, ← add_assoc, ← add_assoc]
    exact ih (p.next n)

theorem Pointers.steps_steps (n count count' : Nat) (p : Pointers) :
    (p.steps n count).steps n count' = p.steps n (count + count') := by
  induction count generalizing p with
  | zero => rw [Nat.zero_add]; rfl
  | succ count ih =>
    rw [Nat.add_right_comm]
    exact ih (p.next n)

theorem duff_eq (n entry : Nat) (p : Pointers) :
    duff (n + 1) entry p = p.steps 4 (entry + 16 * n) := by
  induction n generalizing entry p with
  | zero => rfl
  | succ n ih =>
    have total : entry + 16 * (n + 1) = entry + (16 + 16 * n) := by omega
    rw [total, ← Pointers.steps_steps]
    exact ih 16 (p.steps 4 entry)

/-- The pieces of `memcpy` -/
def cpyLens (dst src : Addr) (nbytes : Reg) : List Nat :=
  if 4 ≤ nbytes ∧ src &&& 3 = 0 ∧ dst &&& 3 = 0 then
    List.replicate (nbytes.toNat / 4) 4 ++ List.replicate (nbytes.toNat % 4) 1
  else List.replicate nbytes.toNat 1

theorem and_three (v : BitVec 32) : (v &&& 3).toNat = v.toNat % 4 := by
  rw [BitVec.toNat_and]
  exact Nat.and_two_pow_sub_one_eq_mod _ 2

theorem memcpy_eq (dst src : Addr) (nbytes : Reg) (mem : Mem) :
    memcpy dst src nbytes mem = pieces dst src (cpyLens dst src nbytes) mem := by
  unfold memcpy cpyLens
  by_cases aligned : 4 ≤ nbytes ∧ src &&& 3 = 0 ∧ dst &&& 3 = 0
  · have words : (nbytes >>> 2).toNat = nbytes.toNat / 4 := by
      rw [BitVec.toNat_ushiftRight, Nat.shiftRight_eq_div_pow]
    have least : 4 ≤ nbytes.toNat := aligned.1
    rw [if_pos aligned, if_pos aligned]
    dsimp only
    rw [words, and_three]
    obtain ⟨n, rounds⟩ : ∃ n, (nbytes.toNat / 4 + 15) / 16 = n + 1 :=
      ⟨(nbytes.toNat / 4 + 15) / 16 - 1, by omega⟩
    have total : (if nbytes.toNat / 4 % 16 = 0 then 16 else nbytes.toNat / 4 % 16) + 16 * n =
        nbytes.toNat / 4 := by
      by_cases whole : nbytes.toNat / 4 % 16 = 0
      · rw [if_pos whole]
        omega
      · rw [if_neg whole]
        omega
    rw [rounds, duff_eq, total, Pointers.steps_eq, Pointers.steps_eq, pieces_append,
      List.sum_replicate_nat, Nat.mul_comm 4]
  · rw [if_neg aligned, if_neg aligned, Pointers.steps_eq]

theorem cpyLens_sum (dst src : Addr) (nbytes : Reg) :
    (cpyLens dst src nbytes).sum = nbytes.toNat := by
  unfold cpyLens
  by_cases aligned : 4 ≤ nbytes ∧ src &&& 3 = 0 ∧ dst &&& 3 = 0
  · rw [if_pos aligned, List.sum_append, List.sum_replicate_nat, List.sum_replicate_nat,
      Nat.mul_one, Nat.div_add_mod']
  · rw [if_neg aligned, List.sum_replicate_nat, Nat.mul_one]

theorem cpyLens_pos (dst src : Addr) (nbytes : Reg) : ∀ n ∈ cpyLens dst src nbytes, 0 < n := by
  intro n mem
  unfold cpyLens at mem
  by_cases aligned : 4 ≤ nbytes ∧ src &&& 3 = 0 ∧ dst &&& 3 = 0
  · rw [if_pos aligned] at mem
    rcases List.mem_append.mp mem with word | byte
    · rw [List.eq_of_mem_replicate word]
      decide
    · rw [List.eq_of_mem_replicate byte]
      decide
  · rw [if_neg aligned] at mem
    rw [List.eq_of_mem_replicate mem]
    decide

/-- A single piece of `memcpy` is a byte, or a word at addresses of words, which do not overlap. -/
theorem cpyLens_single {dst src : Addr} {nbytes : Reg}
    (single : (cpyLens dst src nbytes).length ≤ 1) :
    gap dst src = 0 ∨ nbytes.toNat ≤ gap dst src := by
  unfold cpyLens at single
  by_cases aligned : 4 ≤ nbytes ∧ src &&& 3 = 0 ∧ dst &&& 3 = 0
  · rw [if_pos aligned, List.length_append, List.length_replicate, List.length_replicate] at single
    obtain ⟨least, low, low'⟩ := aligned
    have four : 4 ≤ nbytes.toNat := least
    have first : dst.toNat % 4 = 0 := (and_three dst).symm.trans (congrArg BitVec.toNat low')
    have second : src.toNat % 4 = 0 := (and_three src).symm.trans (congrArg BitVec.toNat low)
    have bound := src.isLt
    unfold gap
    rw [BitVec.toNat_sub]
    omega
  · rw [if_neg aligned, List.length_replicate] at single
    omega

/-- `memcpy` is right unless the destination begins in the rest of the source. -/
theorem memcpy_right_iff (dst src : Addr) (nbytes : Reg) :
    (∀ mem, memcpy dst src nbytes mem = move dst src nbytes.toNat mem) ↔
      gap dst src = 0 ∨ nbytes.toNat ≤ gap dst src := by
  have right : (∀ mem : Mem, pieces dst src (cpyLens dst src nbytes) mem =
      move dst src (cpyLens dst src nbytes).sum mem) ↔ _ :=
    pieces_right_iff dst src (cpyLens_pos dst src nbytes)
      (by rw [cpyLens_sum]; exact nbytes.isLt.le)
  rw [cpyLens_sum] at right
  constructor
  · intro copied
    rcases right.mp (fun mem => (memcpy_eq dst src nbytes mem).symm.trans (copied mem)) with
      same | apart | single
    · exact .inl same
    · exact .inr apart
    · exact cpyLens_single single
  · intro apart mem
    rw [memcpy_eq]
    exact right.mpr (apart.imp_right .inl) mem

/-! ## `memmove` -/

theorem backward_eq (d s : Addr) (len : Nat) (mem : Mem) :
    backward d s len mem = descend d s len mem := by
  induction len generalizing mem with
  | zero => rfl
  | succ len ih => exact ih _

/-- The two comparisons find an overlap whose source does not reach the end of the memory. -/
theorem overlap_iff (d s : Addr) (len : Reg) :
    s < d ∧ s + len > d ↔
      gap d s ≠ 0 ∧ gap d s < len.toNat ∧ s.toNat + len.toNat < 2 ^ 32 := by
  have d_lt := d.isLt
  have s_lt := s.isLt
  have len_lt := len.isLt
  show s.toNat < d.toNat ∧ d.toNat < (s + len).toNat ↔ _
  unfold gap
  rw [BitVec.toNat_sub, BitVec.toNat_add]
  omega

/-- What `memmove` needs: the destination is the source, or does not begin in the rest of it, or
neither range reaches the end of the memory and comes back to the other. -/
def Movable (d s : Addr) (len : Nat) : Prop :=
  gap d s = 0 ∨ len ≤ gap d s ∨ (s.toNat + len < 2 ^ 32 ∧ gap d s + len ≤ 2 ^ 32)

theorem memmove_right_iff (d s : Addr) (len : Reg) :
    (∀ mem, memmove d s len mem = move d s len.toNat mem) ↔ Movable d s len.toNat := by
  unfold memmove Movable
  by_cases overlap : s < d ∧ s + len > d
  · have back : (∀ mem : Mem, descend d s len.toNat mem = move d s len.toNat mem) ↔ _ :=
      descend_right_iff d s len.isLt.le
    obtain ⟨away, near, low⟩ := (overlap_iff d s len).mp overlap
    simp only [if_pos overlap, backward_eq]
    rw [back]
    omega
  · simp only [if_neg overlap]
    rw [memcpy_right_iff]
    rw [overlap_iff] at overlap
    omega

/-- A byte of memory that `memmove` writes and does not read is lost. -/
theorem memmove_lost {d s c : Addr} {len : Reg} {mem mem' : Mem} (agree : Copies.Agree c mem mem')
    (unread : ∀ k < len.toNat, s + BitVec.ofNat 32 k ≠ c) (written : (c - d).toNat < len.toNat) :
    memmove d s len mem = memmove d s len mem' := by
  unfold memmove
  by_cases overlap : s < d ∧ s + len > d
  · rw [if_pos overlap, if_pos overlap, backward_eq, backward_eq]
    exact agree.descend_lost unread written
  · rw [if_neg overlap, if_neg overlap, memcpy_eq, memcpy_eq]
    rw [← cpyLens_sum d s len] at unread written
    exact agree.pieces_lost unread written

/-! ## The chunks of `copy_memory` -/

variable {bias : Addr} {max len : Reg} {dst src : Addr} {mem : Mem} {fuel : Nat}

/-- Chunks of ranges that do not overlap are moved as if each were read before it is written. -/
theorem copyLoop_eq (apart : gap (MAKE_1TO1_PTR bias dst) src = 0 ∨
    len.toNat ≤ gap (MAKE_1TO1_PTR bias dst) src) :
    copyLoop bias max fuel dst src len mem =
      SdmaCopy.copyLoop max fuel (MAKE_1TO1_PTR bias dst) src len mem := by
  induction fuel generalizing dst src len mem with
  | zero => rfl
  | succ fuel ih =>
    have amount_le : (if len > max then max else len).toNat ≤ len.toNat := by
      by_cases more : len > max
      · rw [if_pos more]
        exact Nat.le_of_lt more
      · rw [if_neg more]
    have next : MAKE_1TO1_PTR bias (dst + if len > max then max else len) =
        MAKE_1TO1_PTR bias dst + if len > max then max else len := add_right_comm _ _ _
    unfold copyLoop SdmaCopy.copyLoop startupMemoryMap
    dsimp only
    have moved := (memmove_right_iff (MAKE_1TO1_PTR bias dst) src
      (if len > max then max else len)).mpr (by unfold Movable; omega) mem
    rw [moved]
    by_cases last : len - (if len > max then max else len) = 0
    · rw [if_pos last]
      exact (if_pos last).symm
    · rw [if_neg last]
      refine Eq.trans ?_ (if_neg last).symm
      rw [ih, next]
      rw [next, gap_add, BitVec.toNat_sub_of_le amount_le]
      omega

theorem copyLoop_lost (more : len > max) (pos : 0 < max) (enough : 0 < fuel)
    (away : gap (MAKE_1TO1_PTR bias dst) src ≠ 0)
    (near : gap (MAKE_1TO1_PTR bias dst) src < len.toNat) :
    ∃ k < len.toNat, ∀ mem mem', Copies.Agree (src + BitVec.ofNat 32 k) mem mem' →
      copyLoop bias max fuel dst src len mem = copyLoop bias max fuel dst src len mem' := by
  obtain ⟨fuel, rfl⟩ : ∃ f, fuel = f + 1 := ⟨fuel - 1, by omega⟩
  have len_lt := len.isLt
  have chunk : max.toNat < len.toNat := more
  have first : 0 < max.toNat := pos
  -- `i` is in the first chunk, and the place that it is read from by the copy of `k` is not
  obtain ⟨i, k, within, behind, inside, sum⟩ : ∃ i k, i < max.toNat ∧ max.toNat ≤ k ∧
      k < len.toNat ∧ k = i + gap (MAKE_1TO1_PTR bias dst) src := by
    by_cases long : gap (MAKE_1TO1_PTR bias dst) src < max.toNat
    · exact ⟨max.toNat - gap (MAKE_1TO1_PTR bias dst) src, _, by omega, by omega, by omega, rfl⟩
    · exact ⟨0, _, by omega, by omega, by omega, rfl⟩
  refine ⟨k, inside, fun mem mem' agree => ?_⟩
  have place : src + BitVec.ofNat 32 k = MAKE_1TO1_PTR bias dst + BitVec.ofNat 32 i := by
    have apart : BitVec.ofNat 32 (gap (MAKE_1TO1_PTR bias dst) src) =
        MAKE_1TO1_PTR bias dst - src := by
      unfold gap
      rw [BitVec.ofNat_toNat, BitVec.setWidth_eq]
    rw [sum, BitVec.ofNat_add, apart]
    abel
  have unread : ∀ j < max.toNat, src + BitVec.ofNat 32 j ≠ src + BitVec.ofNat 32 k := by
    intro j less same
    have equal := congrArg BitVec.toNat (add_left_cancel same)
    rw [BitVec.toNat_ofNat, BitVec.toNat_ofNat, Nat.mod_eq_of_lt (by omega),
      Nat.mod_eq_of_lt (by omega)] at equal
    omega
  have written : (src + BitVec.ofNat 32 k - MAKE_1TO1_PTR bias dst).toNat < max.toNat := by
    rw [place, offset_toNat _ (by omega)]
    exact within
  unfold copyLoop startupMemoryMap
  rw [if_pos more]
  dsimp only
  rw [memmove_lost agree unread written]

/-- A single chunk is one `memmove`. -/
theorem copyMemory_single {m : Mdriver} (single : m.On → len.toNat ≤ m.max.toNat) :
    copyMemory bias m dst src len mem =
      some (memmove (MAKE_1TO1_PTR bias dst) (startupMemoryMap src) len mem) := by
  have whole : ¬ len > if 0 < m.size then m.max else len := by
    by_cases on : 0 < m.size
    · rw [if_pos on]
      exact Nat.not_lt.mpr (single on)
    · rw [if_neg on]
      exact Nat.lt_irrefl _
  unfold copyMemory copyLoop
  dsimp only
  rw [if_neg whole, sub_self, if_pos rfl]

/-- The range is copied whole just when the destination is the source or does not begin in the rest
of it, or else the mini-drivers leave it in one chunk, and neither range reaches the end of the
memory and comes back to the other. -/
theorem copyMemory_iff (bias : Addr) (m : Mdriver) (dst src : Addr) (len : Reg) :
    Copied bias m dst src len ↔
      gap (MAKE_1TO1_PTR bias dst) src = 0 ∨ len.toNat ≤ gap (MAKE_1TO1_PTR bias dst) src ∨
        ((m.On → len.toNat ≤ m.max.toNat) ∧ src.toNat + len.toNat < 2 ^ 32 ∧
          gap (MAKE_1TO1_PTR bias dst) src + len.toNat ≤ 2 ^ 32) := by
  constructor
  · intro copied
    by_contra wrong
    obtain ⟨away, wrong⟩ := not_or.mp wrong
    obtain ⟨near, wrong⟩ := not_or.mp wrong
    by_cases single : m.On → len.toNat ≤ m.max.toNat
    · have moved := (memmove_right_iff (MAKE_1TO1_PTR bias dst) src len).mp fun mem =>
        Option.some.inj ((copyMemory_single single).symm.trans (copied mem))
      rcases moved with same | apart | inside
      · exact away same
      · exact near apart
      · exact wrong ⟨single, inside⟩
    · obtain ⟨on, more⟩ := Classical.not_imp.mp single
      have on' : 0 < m.size := on
      have chunk : len > if 0 < m.size then m.max else len := by
        rw [if_pos on']
        exact Nat.not_le.mp more
      have pos : 0 < if 0 < m.size then m.max else len := by
        rw [if_pos on']
        exact m.positive on'
      obtain ⟨k, inside, lost⟩ := copyLoop_lost chunk pos (Nat.succ_pos len.toNat) away
        (Nat.not_le.mp near)
      have never : ¬∀ mem : Mem, move (MAKE_1TO1_PTR bias dst) src len.toNat mem =
          move (MAKE_1TO1_PTR bias dst) src len.toNat mem := by
        refine not_move_of_lost inside len.isLt.le rfl fun mem mem' agree => ?_
        have same := lost mem mem' agree
        exact Option.some.inj ((copied mem).symm.trans (same.trans (copied mem')))
      exact never fun _ => rfl
  · intro fine mem
    by_cases apart : gap (MAKE_1TO1_PTR bias dst) src = 0 ∨
        len.toNat ≤ gap (MAKE_1TO1_PTR bias dst) src
    · have chunks : copyMemory bias m dst src len mem =
          SdmaCopy.copyMemory m (MAKE_1TO1_PTR bias dst) src len mem := copyLoop_eq apart
      have right : pieces (MAKE_1TO1_PTR bias dst) src (memoryLens m len.toNat) mem = _ :=
        (pieces_right_iff (MAKE_1TO1_PTR bias dst) src (memoryLens_pos m len.toNat)
          (by rw [memoryLens_sum]; exact len.isLt.le)).mpr
            (by rw [memoryLens_sum]; exact apart.imp_right .inl) mem
      rw [memoryLens_sum] at right
      rw [chunks, copyMemory_eq, right]
      rfl
    · rw [or_assoc.symm, or_iff_right apart] at fine
      obtain ⟨single, low, back⟩ := fine
      rw [copyMemory_single single]
      have moved := (memmove_right_iff (MAKE_1TO1_PTR bias dst) (startupMemoryMap src) len).mpr
        (.inr (.inr ⟨low, back⟩)) mem
      rw [moved]

/-- With chunks of four bytes, eight bytes moved up by two come out with the third and fourth in
place of the fifth and sixth. Without mini-drivers they are right. -/
theorem copyMemory_overlap :
    let m : Mdriver := ⟨16, 4, fun _ => by decide⟩
    let mem : Mem := fun a => UInt8.ofNat a.toNat
    (copyMemory 0 m 0x1002 0x1000 8 mem).map (fun mem => (List.range 8).map fun i =>
      mem (0x1002 + BitVec.ofNat 32 i)) = some [0, 1, 2, 3, 2, 3, 6, 7] ∧
    (copyMemory 0 ⟨0, 0, fun pos => absurd pos (by decide)⟩ 0x1002 0x1000 8 mem).map
      (fun mem => (List.range 8).map fun i => mem (0x1002 + BitVec.ofNat 32 i)) =
        some [0, 1, 2, 3, 4, 5, 6, 7] ∧
    ¬ Copied 0 m 0x1002 0x1000 8 := by
  refine ⟨by decide +kernel, by decide +kernel, fun copied => ?_⟩
  have wrong := congrArg (Option.map fun mem : Mem => mem 0x1006)
    (copied fun a => UInt8.ofNat a.toNat)
  exact absurd wrong (by decide +kernel)

end Mx6xBsp.Startup.MemMove
