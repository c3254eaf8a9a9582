import Mx6xBsp.Lib.Copies
import Mx6xBsp.Lib.Words

/-!
# The checksum of the IPL

`copy.c` and the checksum of `image_scan.c`. What is summed goes block by block through the buffer
`scratch`, and the last block is summed in whole words: where the length is no multiple of four,
up to three bytes of an earlier block, or of an earlier call, are summed with it.
`checksum_right_iff` tells when that does no harm.
-/

namespace Mx6xBsp.Ipl.Checksum

open Words

abbrev Addr := BitVec 32

/-- The objects a pointer points into: the static ones of `image_scan.c`, and the memory that is
scanned -/
inductive Object where
  | scratch
  | startupHdr
  | memory
  deriving DecidableEq

structure Ptr where
  object : Object
  addr : Addr
  deriving DecidableEq

def Ptr.add (p : Ptr) (n : Nat) : Ptr := ⟨p.object, p.addr + BitVec.ofNat 32 n⟩

abbrev Memory := Ptr → UInt8

/-- The bytes from a pointer on -/
def view (m : Memory) (p : Ptr) : Bytes := fun k => m (p.add k)

def scratch : Ptr := ⟨.scratch, 0⟩

def memory (addr : Addr) : Ptr := ⟨.memory, addr⟩

/-! ## `copy` -/

/-- `*dest = *src` for a type of `n` bytes -/
def transfer (n : Nat) (dest src : Ptr) (m : Memory) : Memory := fun p =>
  if p.object = dest.object ∧ (p.addr - dest.addr).toNat < n then
    view m src (p.addr - dest.addr).toNat
  else m p

/-- `count` of these in a row, with both pointers moved on -/
def transfers (n : Nat) : Nat → Ptr → Ptr → Memory → Memory
  | 0, _, _, m => m
  | count + 1, dest, src, m => transfers n count (dest.add n) (src.add n) (transfer n dest src m)

def copyMemory (dest src : Ptr) (sz : Nat) (m : Memory) : Memory :=
  let remainder := sz % 4
  let words := sz / 4
  let m := transfers 4 words dest src m
  transfers 1 remainder (dest.add (4 * words)) (src.add (4 * words)) m

def copy (dst src : Ptr) (size : Nat) (m : Memory) : Memory := copyMemory dst src size m

/-! ## `checksum` -/

/-- The loop of `small_checksum` -/
def smallChecksumLoop (m : Memory) : Nat → Ptr → Nat → Nat
  | 0, _, sum => sum
  | n + 1, iray, sum =>
    smallChecksumLoop m n (iray.add 4) ((sum + word32 (view m iray) 0) % 2 ^ 32)

/-- `small_checksum`: with four less a round, a positive `len` is so for `(len + 3) / 4` rounds. -/
def smallChecksum (m : Memory) (iray : Ptr) (len : Nat) : Nat :=
  smallChecksumLoop m ((len + 3) / 4) iray 0

/-- The loop of `checksum`, which takes 512 bytes a round: the sum, the address behind and the
memory -/
def checksumLoop : Nat → Addr → Nat → Memory → Nat × Addr × Memory
  | 0, addr, sum, m => (sum, addr, m)
  | n + 1, addr, sum, m =>
    let m := copy scratch (memory addr) 512 m
    let sum := (sum + smallChecksum m scratch 512) % 2 ^ 32
    checksumLoop n (addr + 512) sum m

/-- `checksum`: the sum, and the memory after it. The comparison with a size makes `len` a number
without sign, so that a length below zero is a long one. -/
def checksum (addr : Addr) (len : BitVec 32) (m : Memory) : Nat × Memory :=
  let (sum, addr, m) := checksumLoop (len.toNat / 512) addr 0 m
  let len := len.toNat % 512
  if len ≠ 0 then
    let m := copy scratch (memory addr) len m
    ((sum + smallChecksum m scratch len) % 2 ^ 32, m)
  else (sum, m)

/-! ## What a checksum should be -/

/-- The calls that may have been made before -/
inductive Call where
  | copy (dst src : Ptr) (size : BitVec 32)
  | checksum (addr : Addr) (len : BitVec 32)

def Call.run (m : Memory) : Call → Memory
  | .copy dst src size => Checksum.copy dst src size.toNat m
  | .checksum addr len => (Checksum.checksum addr len m).2

/-- The byte of `scratch` that the last block, which is the one after `blocks` whole ones, finds
there -/
def stale (m : Memory) (addr : Addr) (blocks k : Nat) : UInt8 :=
  if blocks = 0 then view m scratch k else view m (memory addr) (512 * (blocks - 1) + k)

/-- The last word is filled up with zeros: those of the block before, or what an earlier call has
left. With whole words there is nothing to fill. -/
def Clean (addr : Addr) (len : BitVec 32) (m : Memory) : Prop :=
  ∀ k, len.toNat % 512 ≤ k → k < 4 * ((len.toNat % 512 + 3) / 4) →
    stale m addr (len.toNat / 512) k = 0

/-! ## Copies from one object to another -/

section Copies

variable {m : Memory} {dest src p : Ptr} {n k : Nat}

theorem Ptr.add_add (p : Ptr) (n k : Nat) : (p.add n).add k = p.add (n + k) := by
  simp [Ptr.add, BitVec.ofNat_add, BitVec.add_assoc]

theorem view_add (m : Memory) (p : Ptr) (n : Nat) :
    view m (p.add n) = fun k => view m p (n + k) := by
  funext k
  simp [view, Ptr.add_add]

theorem transfer_other (other : p.object ≠ dest.object) : transfer n dest src m p = m p :=
  if_neg fun here => other here.1

theorem view_transfer (below : k < 2 ^ 32) :
    view (transfer n dest src m) dest k = if k < n then view m src k else view m dest k := by
  have place : ((dest.add k).addr - dest.addr).toNat = k := Copies.offset_toNat _ below
  have here : (dest.add k).object = dest.object := rfl
  unfold view
  show (if _ ∧ _ then _ else _) = _
  rw [place]
  simp [here, view]

theorem view_other (apart : src.object ≠ dest.object) (q : Ptr) :
    view (transfer n dest q m) src = view m src :=
  funext fun _ => transfer_other apart

theorem transfer_transfer (apart : src.object ≠ dest.object) (room : n + k ≤ 2 ^ 32) :
    transfer k (dest.add n) (src.add n) (transfer n dest src m) =
      transfer (n + k) dest src m := by
  funext p
  by_cases here : p.object = dest.object
  · have bound := (p.addr - dest.addr).isLt
    have later : (p.addr - (dest.add n).addr).toNat =
        if n ≤ (p.addr - dest.addr).toNat then (p.addr - dest.addr).toNat - n
        else (p.addr - dest.addr).toNat + 2 ^ 32 - n := by
      by_cases behind : n ≤ (p.addr - dest.addr).toNat
      · rw [if_pos behind]
        exact Copies.behind_toNat behind
      · have split : p.addr - (dest.add n).addr = p.addr - dest.addr - BitVec.ofNat 32 n :=
          sub_add_eq_sub_sub _ _ _
        rw [if_neg behind, split, BitVec.toNat_sub, BitVec.toNat_ofNat]
        omega
    have same : (dest.add n).object = dest.object := rfl
    unfold transfer
    simp only [here, same, true_and]
    rw [later]
    by_cases first : (p.addr - dest.addr).toNat < n
    · rw [if_neg (Nat.not_le.mpr first), if_neg (by omega), if_pos first, if_pos (by omega)]
    · rw [if_pos (Nat.not_lt.mp first), if_neg first]
      by_cases second : (p.addr - dest.addr).toNat < n + k
      · have source : (src.add n).object ≠ dest.object := apart
        have read := congrFun (view_other (n := n) (m := m) source src)
          ((p.addr - dest.addr).toNat - n)
        unfold transfer at read
        rw [if_pos (by omega), if_pos second, read, view_add]
        dsimp only
        rw [Nat.add_sub_cancel' (Nat.not_lt.mp first)]
      · rw [if_neg (by omega), if_neg second]
  · have here' : p.object ≠ (dest.add n).object := here
    rw [transfer_other here', transfer_other here, transfer_other here]

theorem transfer_zero : transfer 0 dest src m = m :=
  funext fun _ => if_neg fun none_ => Nat.not_lt_zero _ none_.2

theorem transfers_eq {count : Nat} (apart : src.object ≠ dest.object)
    (room : n * count ≤ 2 ^ 32) :
    transfers n count dest src m = transfer (n * count) dest src m := by
  induction count generalizing dest src m with
  | zero => exact transfer_zero.symm
  | succ count ih =>
    have total : n * (count + 1) = n + n * count := by rw [Nat.mul_succ, Nat.add_comm]
    have apart' : (src.add n).object ≠ (dest.add n).object := apart
    rw [transfers, ih apart' (by omega), transfer_transfer apart (by omega), total]

theorem copy_eq (apart : src.object ≠ dest.object) (room : n ≤ 2 ^ 32) :
    copy dest src n m = transfer n dest src m := by
  have apart' : (src.add (4 * (n / 4))).object ≠ (dest.add (4 * (n / 4))).object := apart
  unfold copy copyMemory
  dsimp only
  rw [transfers_eq apart (by omega), transfers_eq apart' (by omega),
    transfer_transfer apart (by omega), Nat.one_mul, Nat.div_add_mod]

theorem transfer_again {q : Ptr} (apart : src.object ≠ dest.object) :
    transfer n dest src (transfer n dest q m) = transfer n dest src m := by
  funext p
  by_cases here : p.object = dest.object ∧ (p.addr - dest.addr).toNat < n
  · have read := congrFun (view_other (n := n) (m := m) apart q) (p.addr - dest.addr).toNat
    show (if _ then _ else _) = if _ then _ else _
    rw [if_pos here, if_pos here, read]
  · show (if _ then _ else _) = if _ then _ else _
    rw [if_neg here, if_neg here]
    exact if_neg here

end Copies

/-! ## The sum of a block -/

section Sums

variable {m : Memory} {addr : Addr} {n sum : Nat}

theorem smallChecksumLoop_eq (iray : Ptr) (small : sum < 2 ^ 32) :
    smallChecksumLoop m n iray sum = (sum + wordSum (view m iray) 0 n) % 2 ^ 32 := by
  induction n generalizing iray sum with
  | zero => exact (Nat.mod_eq_of_lt small).symm
  | succ n ih =>
    rw [smallChecksumLoop, ih _ (Nat.mod_lt _ (by decide)), view_add, wordSum_shift, wordSum]
    simp only [Nat.add_zero, Nat.zero_add]
    omega

theorem smallChecksum_eq (iray : Ptr) (len : Nat) :
    smallChecksum m iray len = wordSum (view m iray) 0 ((len + 3) / 4) := by
  unfold smallChecksum
  rw [smallChecksumLoop_eq iray (by decide), Nat.zero_add]
  exact Nat.mod_eq_of_lt wordSum_lt

theorem scratch_apart (addr : Addr) : (memory addr).object ≠ scratch.object := by
  show Object.memory ≠ Object.scratch
  decide

/-- The memory after `n` blocks: the last of them is in `scratch`. -/
def after (n : Nat) (addr : Addr) (m : Memory) : Memory :=
  if n = 0 then m else transfer 512 scratch ((memory addr).add (512 * (n - 1))) m

theorem memory_add (addr : Addr) (n : Nat) :
    (memory addr).add n = memory (addr + BitVec.ofNat 32 n) := rfl

theorem view_memory (q : Ptr) :
    view (transfer n scratch q m) (memory addr) = view m (memory addr) :=
  view_other (scratch_apart addr) q

theorem view_after (n : Nat) (addr addr' : Addr) (m : Memory) :
    view (after n addr m) (memory addr') = view m (memory addr') := by
  unfold after
  split
  · rfl
  · exact view_memory _

theorem after_succ (n : Nat) (addr : Addr) (m : Memory) :
    after n (addr + 512) (transfer 512 scratch (memory addr) m) = after (n + 1) addr m := by
  unfold after
  rw [if_neg (Nat.succ_ne_zero n), Nat.add_sub_cancel]
  rcases Nat.eq_zero_or_pos n with rfl | pos
  · rw [if_pos rfl, Nat.mul_zero, memory_add]
    simp
  · have place : (memory (addr + 512)).add (512 * (n - 1)) = (memory addr).add (512 * n) := by
      have total : 512 * n = 512 + 512 * (n - 1) := by omega
      rw [total, ← Ptr.add_add]
      rfl
    rw [if_neg pos.ne', place]
    exact transfer_again (scratch_apart _)

/-- What `scratch` holds after `n` blocks -/
theorem view_scratch {k : Nat} (within : k < 512) :
    view (after n addr m) scratch k = stale m addr n k := by
  unfold after stale
  by_cases none_ : n = 0
  · rw [if_pos none_, if_pos none_]
  · rw [if_neg none_, if_neg none_, view_transfer (by omega), if_pos within, view_add]

theorem checksumLoop_eq (small : sum < 2 ^ 32) :
    checksumLoop n addr sum m = ((sum + wordSum (view m (memory addr)) 0 (128 * n)) % 2 ^ 32,
      addr + BitVec.ofNat 32 (512 * n), after n addr m) := by
  induction n generalizing addr sum m with
  | zero =>
    simp only [checksumLoop, after, wordSum, Nat.mul_zero, Nat.add_zero, if_pos]
    rw [Nat.mod_eq_of_lt small]
    simp
  | succ n ih =>
    have block : wordSum (view (transfer 512 scratch (memory addr) m) scratch) 0 ((512 + 3) / 4) =
        wordSum (view m (memory addr)) 0 128 := by
      apply wordSum_congr
      intro i within
      rw [Nat.zero_add, view_transfer (by omega), if_pos (by omega)]
    have rest : view m (memory (addr + 512)) = fun k => view m (memory addr) (512 + k) :=
      view_add m (memory addr) 512
    have words : 128 * (n + 1) = 128 + 128 * n := by omega
    have bytes : 512 * (n + 1) = 512 + 512 * n := by omega
    rw [checksumLoop, copy_eq (scratch_apart addr) (by decide), ih (Nat.mod_lt _ (by decide)),
      after_succ,
      smallChecksum_eq, block, view_memory, rest, wordSum_shift, words, wordSum_add, bytes,
      BitVec.ofNat_add, ← BitVec.add_assoc]
    apply Prod.ext
    · simp only [Nat.add_zero, Nat.zero_add, Nat.reduceMul]
      omega
    · rfl

end Sums

/-- The last block as it is summed: what `scratch` held before is behind it. -/
theorem view_last {addr addr' : Addr} {m : Memory} {n r k : Nat} (within : k < 512) :
    view (transfer r scratch (memory addr') (after n addr m)) scratch k =
      if k < r then view m (memory addr') k else stale m addr n k := by
  rw [view_transfer (by omega), view_after, view_scratch within]

theorem checksum_fst_iff (addr : Addr) (len : BitVec 32) (m : Memory) :
    (checksum addr len m).1 = byteSum (view m (memory addr)) len.toNat ↔ Clean addr len m := by
  have bytes : 4 * (128 * (len.toNat / 512)) + len.toNat % 512 = len.toNat := by omega
  have small : len.toNat % 512 < 512 := Nat.mod_lt _ (by decide)
  have rest : view m (memory (addr + BitVec.ofNat 32 (512 * (len.toNat / 512)))) =
      fun k => view m (memory addr) (4 * (128 * (len.toNat / 512)) + k) := by
    have places : 512 * (len.toNat / 512) = 4 * (128 * (len.toNat / 512)) := by omega
    rw [places]
    exact view_add m (memory addr) _
  have sum := byteSum_add (view m (memory addr)) (128 * (len.toNat / 512)) (len.toNat % 512)
  rw [bytes, ← rest] at sum
  unfold checksum Clean
  rw [checksumLoop_eq (by decide), sum, Nat.zero_add]
  dsimp only
  generalize len.toNat / 512 = n, len.toNat % 512 = r at *
  generalize addr + BitVec.ofNat 32 (512 * n) = addr' at *
  by_cases whole : r = 0
  · rw [if_neg (not_not_intro whole), whole]
    have nothing : byteSum (view m (memory addr')) 0 = 0 := rfl
    refine iff_of_true ?_ fun k _ before => absurd before (Nat.not_lt_zero k)
    rw [nothing, Nat.add_zero]
    rfl
  · rw [if_pos whole, copy_eq (scratch_apart _) (by omega), smallChecksum_eq]
    have same : ∀ k < r, view (transfer r scratch (memory addr') (after n addr m)) scratch k =
        Words.padded (view m (memory addr')) r k := by
      intro k before
      rw [view_last (by omega), if_pos before]
      exact (if_pos before).symm
    have last := wordSum_eq_iff same
    have first := wordSum_lt (f := view m (memory addr)) (a := 0) (n := 128 * n)
    have block := wordSum_lt
      (f := view (transfer r scratch (memory addr') (after n addr m)) scratch) (a := 0)
      (n := (r + 3) / 4)
    have block' := wordSum_lt (f := Words.padded (view m (memory addr')) r) (a := 0)
      (n := (r + 3) / 4)
    refine Iff.trans ?_ (last.trans ?_)
    · unfold byteSum
      dsimp only
      omega
    · apply forall_congr'
      intro k
      apply imp_congr_right
      intro behind
      apply imp_congr_right
      intro before
      rw [view_last (by omega), if_neg (Nat.not_lt.mpr behind)]
      unfold Words.padded
      rw [if_neg (Nat.not_lt.mpr behind)]

/-- After any calls the sum is that of the bytes just where the last word is filled up with
zeros. -/
theorem checksum_right_iff (history : List Call) (m : Memory) (addr : Addr) (len : BitVec 32) :
    (checksum addr len (history.foldl Call.run m)).1 =
        byteSum (view (history.foldl Call.run m) (memory addr)) len.toNat ↔
      Clean addr len (history.foldl Call.run m) :=
  checksum_fst_iff addr len _

/-- Memory of all ones, with zeros in the static objects -/
def ones : Memory := fun p => if p.object = .memory then 0xff else 0

/-- A byte is summed as itself, and after a word has been summed, as that word. -/
theorem checksum_stale :
    (checksum 0 1 ones).1 = 0xff ∧
    (checksum 0 1 ([Call.checksum 0 4].foldl Call.run ones)).1 = 0xffffffff ∧
    byteSum (view ([Call.checksum 0 4].foldl Call.run ones) (memory 0)) 1 = 0xff := by
  decide +kernel

end Mx6xBsp.Ipl.Checksum
