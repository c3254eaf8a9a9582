import Mx6xBsp.Lib.Copies
import Mx6xBsp.Lib.Fields

/-!
# The copy of the image by the SDMA engine

`sdma_copy` of `boards/imx6x/sdma_copy.c` beside `copy_memory` of `lib/memfuncs.c`.
Both copy in chunks between which the mini-drivers run, and `sdma_copy` gives the larger
chunks to a script of the SDMA engine. All of it is a sequence of moved pieces, so that
`copies_iff` can tell for which ranges and mini-drivers the copy is one of the whole range.
-/

namespace Mx6xBsp.Startup.SdmaCopy

open Copies Fields

abbrev Reg := BitVec 32
abbrev Addr := BitVec 32
abbrev Mem := Addr → UInt8

def MAX_SDMA_XFER_SIZE : Reg := 16 * 1024 * 1024 - 4
def MIN_SDMA_XFER_SIZE : Reg := 32

def SDMA_CMDSTAT_DONE_MASK : Reg := 0x10000
def SDMA_CMDSTAT_WRAP_MASK : Reg := 0x20000
def SDMA_CMDSTAT_INT_MASK : Reg := 0x80000
def SDMA_CMDSTAT_EXT_MASK : Reg := 0x800000

/-- `lsp.mdriver.size` and `mdriver_max`, which is positive where there are mini-drivers -/
structure Mdriver where
  size : Reg
  max : Reg
  positive : 0 < size → 0 < max

/-! ## `copy_memory` -/

/-- The loop of `copy_memory`. Nothing comes back where it takes more than `fuel` turns. -/
def copyLoop (max : Reg) : Nat → Addr → Addr → Reg → Mem → Option Mem
  | 0, _, _, _, _ => none
  | fuel + 1, dst, src, len, mem =>
    let amount := if max < len then max else len
    let mem := move dst src amount.toNat mem
    if len - amount = 0 then some mem
    else copyLoop max fuel (dst + amount) (src + amount) (len - amount) mem

/-- `copy_memory`, where the mappings are to the addresses themselves -/
def copyMemory (m : Mdriver) (dst src : Addr) (len : Reg) (mem : Mem) : Option Mem :=
  copyLoop (if 0 < m.size then m.max else len) (len.toNat + 1) dst src len mem

/-! ## `sdma_copy` -/

/-- `sdma_bd_t` -/
structure Bd where
  cmdAndStatus : Reg
  bufPaddr : Addr
  extBufPaddr : Addr

/-- The bytes to copy, as the script takes them from the descriptor -/
def Bd.count (bd : Bd) : Nat :=
  (field bd.cmdAndStatus 24 8).toNat * 2 ^ 16 + (field bd.cmdAndStatus 0 16).toNat

/-- The limits of the script -/
structure Bd.Meets (bd : Bd) : Prop where
  src : bd.bufPaddr.toNat % 4 = 0
  dst : bd.extBufPaddr.toNat % 4 = 0
  words : bd.count % 4 = 0
  least : 32 ≤ bd.count

/-- The script for copies from memory to memory. It copies a block within its limits in ascending
order. -/
structure Script where
  run : Bd → Mem → Mem
  ascends : ∀ bd mem, bd.Meets → run bd mem = ascend bd.extBufPaddr bd.bufPaddr bd.count mem

/-- The arguments of `sdma_xfer` -/
structure Xfer where
  src : Addr
  dst : Addr
  len : Reg

/-- The descriptor of `sdma_xfer` -/
def Xfer.bd (x : Xfer) : Bd :=
  let lengthLow := x.len &&& 0xffff
  let lengthHigh := ((x.len >>> 16) &&& 0xff) <<< 24
  { cmdAndStatus := lengthHigh ||| SDMA_CMDSTAT_EXT_MASK ||| SDMA_CMDSTAT_WRAP_MASK |||
      SDMA_CMDSTAT_INT_MASK ||| lengthLow ||| SDMA_CMDSTAT_DONE_MASK
    bufPaddr := x.src
    extBufPaddr := x.dst }

/-- The memory, and the transfers so far -/
structure St where
  mem : Mem
  xfers : List Xfer

/-- `sdma_xfer`, to the interrupt of the channel -/
def sdmaXfer (script : Script) (x : Xfer) (st : St) : St :=
  ⟨script.run x.bd st.mem, st.xfers ++ [x]⟩

/-- `dmasz`, an `int` -/
def dmasz (m : Mdriver) (size : Reg) : Reg :=
  let dmasz := if 0 < m.size then (if m.max ≤ size then m.max else size) else size
  if MAX_SDMA_XFER_SIZE.sle dmasz then MAX_SDMA_XFER_SIZE else dmasz

/-- A chunk of `n` bytes -/
def copyChunk (script : Script) (m : Mdriver) (dst src : Addr) (n : Reg) (st : St) : Option St :=
  if n.slt MIN_SDMA_XFER_SIZE then
    (copyMemory m dst src n st.mem).map fun mem => { st with mem }
  else some (sdmaXfer script ⟨src, dst, n⟩ st)

/-- The loop of `sdma_copy`, with what is left of it: the addresses behind -/
def copyChunks (script : Script) (m : Mdriver) :
    Nat → Addr → Addr → Reg → St → Option (Addr × Addr × St)
  | 0, _, _, _, _ => none
  | fuel + 1, dst, src, size, st =>
    if size = 0 then some (dst, src, st)
    else (copyChunk script m dst src (dmasz m size) st).bind
      (copyChunks script m fuel (dst + dmasz m size) (src + dmasz m size) (size - dmasz m size))

/-- The bytes that are left beyond -/
def copyLeftover (m : Mdriver) (leftover : Reg) (at_ : Addr × Addr × St) : Option St :=
  if leftover = 0 then some at_.2.2
  else (copyMemory m at_.1 at_.2.1 leftover at_.2.2.mem).map fun mem => { at_.2.2 with mem }

def sdmaCopy (script : Script) (m : Mdriver) (dst src : Addr) (size : Reg) (mem : Mem) :
    Option St :=
  if src % 4 ≠ 0 ∨ dst % 4 ≠ 0 then (copyMemory m dst src size mem).map fun mem => ⟨mem, []⟩
  else
    let leftover := size % MIN_SDMA_XFER_SIZE
    let size := size - leftover
    (copyChunks script m (size.toNat + 1) dst src size ⟨mem, []⟩).bind (copyLeftover m leftover)

/-! ## What is right -/

/-- The limits that the file states -/
structure Xfer.Meets (x : Xfer) : Prop where
  src : x.src.toNat % 4 = 0
  dst : x.dst.toNat % 4 = 0
  words : x.len.toNat % 4 = 0
  least : 32 ≤ x.len.toNat
  most : x.len.toNat ≤ 16 * 1024 * 1024 - 4

/-- The copy ends with the range copied as it was and nothing else changed, by transfers within the
limits. -/
def Right (script : Script) (m : Mdriver) (dst src : Addr) (size : Reg) (mem : Mem) : Prop :=
  ∃ st, sdmaCopy script m dst src size mem = some st ∧ st.mem = move dst src size.toNat mem ∧
    ∀ x ∈ st.xfers, x.Meets

/-- Mini-drivers run between the chunks. -/
def Mdriver.On (m : Mdriver) : Prop := 0 < m.size

instance (m : Mdriver) : Decidable m.On := inferInstanceAs (Decidable (0 < m.size))

/-- No chunk breaks the limits: its size keeps the addresses aligned, or is too small for the script
or cut to its maximum, or the range is shorter than one. A size of 2^31 and more is negative, and
copied without the script; then less than 32 bytes may follow. -/
def Limits (m : Mdriver) (size : Nat) : Prop :=
  ¬m.On ∨ m.max.toNat % 4 = 0 ∨ m.max.toNat < 32 ∨ size < m.max.toNat ∨
    (16 * 1024 * 1024 - 4 ≤ m.max.toNat ∧ m.max.toNat < 2 ^ 31) ∨
    (2 ^ 31 ≤ m.max.toNat ∧ size < m.max.toNat + 32)

/-- Both addresses are aligned, and the script may be used. -/
def Aligned (dst src : Addr) : Prop := src.toNat % 4 = 0 ∧ dst.toNat % 4 = 0

instance (dst src : Addr) : Decidable (Aligned dst src) := inferInstanceAs (Decidable (_ ∧ _))

/-- The range is moved at once: as one chunk without the script, which one of 32 bytes and more is
only if its size is negative. -/
def AtOnce (m : Mdriver) (dst src : Addr) (size : Nat) : Prop :=
  (m.On → size ≤ m.max.toNat) ∧
    (Aligned dst src → 32 ≤ size → size % 32 = 0 ∧ 2 ^ 31 ≤ size)

/-! ## The pieces of the copy -/

/-- The pieces of `copy_memory` -/
def copyLens (max : Nat) : Nat → Nat → List Nat
  | 0, _ => []
  | fuel + 1, len =>
    if len ≤ max then if len = 0 then [] else [len]
    else max :: copyLens max fuel (len - max)

theorem copyLens_pos {max fuel len : Nat} (pos : 0 < max ∨ len ≤ max) :
    ∀ n ∈ copyLens max fuel len, 0 < n := by
  induction fuel generalizing len with
  | zero => exact fun n mem => absurd mem List.not_mem_nil
  | succ fuel ih =>
    intro n mem
    unfold copyLens at mem
    by_cases last : len ≤ max
    · rw [if_pos last] at mem
      by_cases none_ : len = 0
      · rw [if_pos none_] at mem
        exact absurd mem List.not_mem_nil
      · rw [if_neg none_] at mem
        rw [List.mem_singleton.mp mem]
        exact Nat.pos_of_ne_zero none_
    · rw [if_neg last] at mem
      have pos' : 0 < max := pos.resolve_right last
      rcases List.mem_cons.mp mem with rfl | rest
      · exact pos'
      · exact ih (.inl pos') n rest

theorem copyLens_sum {max fuel len : Nat} (pos : 0 < max ∨ len ≤ max) (enough : len < fuel) :
    (copyLens max fuel len).sum = len := by
  induction fuel generalizing len with
  | zero => omega
  | succ fuel ih =>
    unfold copyLens
    by_cases last : len ≤ max
    · rw [if_pos last]
      by_cases none_ : len = 0
      · rw [if_pos none_, none_]
        rfl
      · rw [if_neg none_]
        exact List.sum_singleton
    · have pos' : 0 < max := pos.resolve_right last
      rw [if_neg last, List.sum_cons, ih (.inl pos') (by omega)]
      omega

theorem length_pos_of_sum (lens : List Nat) (pos : 0 < lens.sum) : 0 < lens.length := by
  cases lens with
  | nil => exact absurd pos (Nat.lt_irrefl 0)
  | cons n lens => exact Nat.succ_pos _

theorem copyLens_single {max fuel len : Nat} (pos : 0 < max ∨ len ≤ max) (enough : len < fuel) :
    (copyLens max fuel len).length ≤ 1 ↔ len ≤ max := by
  cases fuel with
  | zero => omega
  | succ fuel =>
    unfold copyLens
    by_cases last : len ≤ max
    · rw [if_pos last]
      refine iff_of_true ?_ last
      by_cases none_ : len = 0
      · rw [if_pos none_]
        exact Nat.zero_le 1
      · rw [if_neg none_]
        exact Nat.le_refl 1
    · have pos' : 0 < max := pos.resolve_right last
      have rest := length_pos_of_sum (copyLens max fuel (len - max))
        (by rw [copyLens_sum (.inl pos') (by omega)]; omega)
      rw [if_neg last, List.length_cons]
      omega

theorem copyLoop_eq {max : Reg} {fuel : Nat} {len : Reg}
    (pos : 0 < max.toNat ∨ len.toNat ≤ max.toNat)
    (enough : len.toNat < fuel) (dst src : Addr) (mem : Mem) :
    copyLoop max fuel dst src len mem =
      some (pieces dst src (copyLens max.toNat fuel len.toNat) mem) := by
  induction fuel generalizing dst src len mem with
  | zero => omega
  | succ fuel ih =>
    unfold copyLoop copyLens
    dsimp only
    by_cases last : len.toNat ≤ max.toNat
    · have whole : ¬max < len := by
        rw [BitVec.lt_def]
        exact Nat.not_lt.mpr last
      rw [if_neg whole, sub_self, if_pos rfl, if_pos last]
      by_cases none_ : len.toNat = 0
      · rw [if_pos none_, none_, move_zero]
        rfl
      · rw [if_neg none_]
        rfl
    · have pos' : 0 < max.toNat := pos.resolve_right last
      have part : max < len := by
        rw [BitVec.lt_def]
        exact Nat.not_le.mp last
      have rest : (len - max).toNat = len.toNat - max.toNat :=
        BitVec.toNat_sub_of_le (BitVec.le_of_lt part)
      have more : len - max ≠ 0 := by
        intro zero
        have none_ := congrArg BitVec.toNat zero
        rw [rest] at none_
        have zero' : (0 : Reg).toNat = 0 := rfl
        omega
      rw [if_pos part, if_neg more, if_neg last, ih (.inl pos') (by omega), rest]
      show _ = some (pieces (dst + BitVec.ofNat 32 max.toNat)
        (src + BitVec.ofNat 32 max.toNat) _ _)
      rw [BitVec.ofNat_toNat, BitVec.setWidth_eq]

/-- The most that `copy_memory` moves at once -/
def Mdriver.most (m : Mdriver) (len : Nat) : Nat := if m.On then m.max.toNat else len

theorem Mdriver.most_pos (m : Mdriver) (len : Nat) : 0 < m.most len ∨ len ≤ m.most len := by
  unfold Mdriver.most
  by_cases on : m.On
  · rw [if_pos on]
    exact .inl (m.positive on)
  · rw [if_neg on]
    exact .inr (Nat.le_refl len)

/-- The pieces of `copy_memory` for `len` bytes -/
def memoryLens (m : Mdriver) (len : Nat) : List Nat := copyLens (m.most len) (len + 1) len

theorem copyMemory_eq (m : Mdriver) (dst src : Addr) (len : Reg) (mem : Mem) :
    copyMemory m dst src len mem = some (pieces dst src (memoryLens m len.toNat) mem) := by
  have most : (if 0 < m.size then m.max else len).toNat = m.most len.toNat := by
    unfold Mdriver.most Mdriver.On
    exact apply_ite BitVec.toNat _ _ _
  unfold copyMemory memoryLens
  rw [copyLoop_eq (by rw [most]; exact m.most_pos _) (Nat.lt_succ_self _), most]

theorem memoryLens_pos (m : Mdriver) (len : Nat) : ∀ n ∈ memoryLens m len, 0 < n :=
  copyLens_pos (m.most_pos len)

theorem memoryLens_sum (m : Mdriver) (len : Nat) : (memoryLens m len).sum = len :=
  copyLens_sum (m.most_pos len) (Nat.lt_succ_self _)

theorem memoryLens_single (m : Mdriver) (len : Nat) :
    (memoryLens m len).length ≤ 1 ↔ (m.On → len ≤ m.max.toNat) := by
  unfold memoryLens
  rw [copyLens_single (m.most_pos len) (Nat.lt_succ_self _)]
  unfold Mdriver.most
  by_cases on : m.On
  · rw [if_pos on]
    exact ⟨fun le _ => le, fun le => le on⟩
  · rw [if_neg on]
    exact iff_of_true (Nat.le_refl _) fun on' => absurd on' on

/-! ## The chunks -/

/-- `dmasz` before it is cut to the maximum of the script -/
def share (m : Mdriver) (size : Nat) : Nat :=
  if m.On ∧ m.max.toNat ≤ size then m.max.toNat else size

theorem toInt_eq (n : Reg) :
    n.toInt = if n.toNat < 2 ^ 31 then (n.toNat : Int) else n.toNat - 2 ^ 32 := by
  rw [BitVec.toInt_eq_toNat_cond]
  by_cases low : n.toNat < 2 ^ 31
  · rw [if_pos (by omega), if_pos low]
  · rw [if_neg (by omega), if_neg low]
    rfl

theorem dmasz_toNat (m : Mdriver) (size : Reg) :
    (dmasz m size).toNat =
      if 16 * 1024 * 1024 - 4 ≤ share m size.toNat ∧ share m size.toNat < 2 ^ 31 then
        16 * 1024 * 1024 - 4
      else share m size.toNat := by
  have shared : (if 0 < m.size then (if m.max ≤ size then m.max else size) else size).toNat =
      share m size.toNat := by
    unfold share Mdriver.On
    by_cases on : 0 < m.size
    · by_cases le : m.max ≤ size
      · rw [if_pos on, if_pos le, if_pos ⟨on, le⟩]
      · rw [if_pos on, if_neg le, if_neg fun both => le both.2]
    · rw [if_neg on, if_neg fun both => on both.1]
  have most : MAX_SDMA_XFER_SIZE.toInt = 16 * 1024 * 1024 - 4 := by decide
  unfold dmasz
  dsimp only
  rw [← shared]
  generalize (if 0 < m.size then (if m.max ≤ size then m.max else size) else size) = n
  have bound := n.isLt
  by_cases cut : 16 * 1024 * 1024 - 4 ≤ n.toNat ∧ n.toNat < 2 ^ 31
  · have beyond : MAX_SDMA_XFER_SIZE.sle n = true := by
      refine decide_eq_true ?_
      rw [most, toInt_eq, if_pos cut.2]
      omega
    rw [if_pos beyond, if_pos cut]
    rfl
  · have under : ¬MAX_SDMA_XFER_SIZE.sle n = true := by
      intro beyond
      have le := of_decide_eq_true beyond
      rw [most, toInt_eq] at le
      by_cases low : n.toNat < 2 ^ 31
      · rw [if_pos low] at le
        omega
      · rw [if_neg low] at le
        omega
    rw [if_neg under, if_neg cut]

theorem slt_iff (n : Reg) :
    n.slt MIN_SDMA_XFER_SIZE = true ↔ n.toNat < 32 ∨ 2 ^ 31 ≤ n.toNat := by
  have least : MIN_SDMA_XFER_SIZE.toInt = 32 := by decide
  have bound := n.isLt
  unfold BitVec.slt
  rw [decide_eq_true_iff, least, toInt_eq]
  by_cases low : n.toNat < 2 ^ 31
  · rw [if_pos low]
    omega
  · rw [if_neg low]
    omega

theorem share_le (m : Mdriver) (size : Nat) : share m size ≤ size := by
  unfold share
  by_cases full : m.On ∧ m.max.toNat ≤ size
  · rw [if_pos full]
    exact full.2
  · rw [if_neg full]

theorem share_pos (m : Mdriver) {size : Nat} (pos : 0 < size) : 0 < share m size := by
  unfold share
  by_cases full : m.On ∧ m.max.toNat ≤ size
  · rw [if_pos full]
    exact m.positive full.1
  · rw [if_neg full]
    exact pos

theorem dmasz_le (m : Mdriver) (size : Reg) : (dmasz m size).toNat ≤ size.toNat := by
  have le := share_le m size.toNat
  rw [dmasz_toNat]
  by_cases cut : 16 * 1024 * 1024 - 4 ≤ share m size.toNat ∧ share m size.toNat < 2 ^ 31
  · rw [if_pos cut]
    omega
  · rw [if_neg cut]
    exact le

theorem dmasz_pos (m : Mdriver) {size : Reg} (pos : 0 < size.toNat) :
    0 < (dmasz m size).toNat := by
  have pos' := share_pos m pos
  rw [dmasz_toNat]
  by_cases cut : 16 * 1024 * 1024 - 4 ≤ share m size.toNat ∧ share m size.toNat < 2 ^ 31
  · rw [if_pos cut]
    omega
  · rw [if_neg cut]
    exact pos'

theorem rest_toNat (m : Mdriver) (size : Reg) :
    (size - dmasz m size).toNat = size.toNat - (dmasz m size).toNat :=
  BitVec.toNat_sub_of_le (dmasz_le m size)

theorem Xfer.Meets.count {x : Xfer} (meets : x.Meets) : x.bd.count = x.len.toNat := by
  have byte : (0xff : Reg).toNat = 2 ^ 8 - 1 := rfl
  have word : (0xffff : Reg).toNat = 2 ^ 16 - 1 := rfl
  have left : ∀ {k : Nat} (v : BitVec k), 0 ||| v = v := fun _ => BitVec.zero_or
  have right : ∀ {k : Nat} (v : BitVec k), v ||| 0 = v := fun _ => BitVec.or_zero
  have low : x.len &&& 0xffff = put x.len 0xffff 0 := by
    unfold put
    rw [BitVec.shiftLeft_zero]
  have high : ((x.len >>> 16) &&& 0xff) <<< 24 = put (x.len >>> 16) 0xff 24 := rfl
  have ext : field SDMA_CMDSTAT_EXT_MASK 24 8 = 0 ∧ field SDMA_CMDSTAT_EXT_MASK 0 16 = 0 := by
    decide
  have wrap : field SDMA_CMDSTAT_WRAP_MASK 24 8 = 0 ∧ field SDMA_CMDSTAT_WRAP_MASK 0 16 = 0 := by
    decide
  have int : field SDMA_CMDSTAT_INT_MASK 24 8 = 0 ∧ field SDMA_CMDSTAT_INT_MASK 0 16 = 0 := by
    decide
  have done : field SDMA_CMDSTAT_DONE_MASK 24 8 = 0 ∧ field SDMA_CMDSTAT_DONE_MASK 0 16 = 0 := by
    decide
  have apart : field (put (x.len >>> 16) 0xff 24) 0 16 = 0 :=
    field_put_apart byte (.inr (by decide))
  have apart' : field (put x.len 0xffff 0) 24 8 = 0 := field_put_apart word (.inl (by decide))
  have upper : (field x.bd.cmdAndStatus 24 8).toNat = x.len.toNat / 2 ^ 16 % 2 ^ 8 := by
    unfold Xfer.bd
    dsimp only
    rw [low, high, field_or, field_or, field_or, field_or, field_or, ext.1, wrap.1,
      int.1, done.1, apart', right, right, right, right, right,
      field_put byte (Nat.le_refl 8) (by decide), BitVec.toNat_ushiftRight,
      Nat.shiftRight_eq_div_pow]
  have lower : (field x.bd.cmdAndStatus 0 16).toNat = x.len.toNat % 2 ^ 16 := by
    unfold Xfer.bd
    dsimp only
    rw [low, high, field_or, field_or, field_or, field_or, field_or, ext.2, wrap.2,
      int.2, done.2, apart, right, right, right, right, left,
      field_put word (Nat.le_refl 16) (by decide)]
  have most := meets.most
  unfold Bd.count
  rw [upper, lower]
  omega

theorem Xfer.Meets.bd {x : Xfer} (meets : x.Meets) : x.bd.Meets where
  src := meets.src
  dst := meets.dst
  words := by rw [meets.count]; exact meets.words
  least := by rw [meets.count]; exact meets.least

/-- The pieces of a chunk -/
def chunkLens (m : Mdriver) (n : Reg) : List Nat :=
  if n.slt MIN_SDMA_XFER_SIZE then memoryLens m n.toNat else List.replicate n.toNat 1

/-- The transfer for a chunk -/
def chunkXfers (dst src : Addr) (n : Reg) : List Xfer :=
  if n.slt MIN_SDMA_XFER_SIZE then [] else [⟨src, dst, n⟩]

theorem chunkLens_pos (m : Mdriver) (n : Reg) : ∀ k ∈ chunkLens m n, 0 < k := by
  unfold chunkLens
  by_cases small : n.slt MIN_SDMA_XFER_SIZE = true
  · rw [if_pos small]
    exact memoryLens_pos m n.toNat
  · rw [if_neg small]
    intro k mem
    rw [List.eq_of_mem_replicate mem]
    exact Nat.one_pos

theorem chunkLens_sum (m : Mdriver) (n : Reg) : (chunkLens m n).sum = n.toNat := by
  unfold chunkLens
  by_cases small : n.slt MIN_SDMA_XFER_SIZE = true
  · rw [if_pos small]
    exact memoryLens_sum m n.toNat
  · rw [if_neg small, List.sum_replicate_nat, Nat.mul_one]

theorem copyChunk_eq (script : Script) (m : Mdriver) (dst src : Addr) (n : Reg) (st : St) :
    ∃ st', copyChunk script m dst src n st = some st' ∧
      st'.xfers = st.xfers ++ chunkXfers dst src n ∧
      ((∀ x ∈ chunkXfers dst src n, x.Meets) →
        st'.mem = pieces dst src (chunkLens m n) st.mem) := by
  unfold copyChunk chunkXfers chunkLens
  by_cases small : n.slt MIN_SDMA_XFER_SIZE = true
  · rw [if_pos small, if_pos small, if_pos small, copyMemory_eq]
    exact ⟨_, rfl, (List.append_nil _).symm, fun _ => rfl⟩
  · rw [if_neg small, if_neg small, if_neg small]
    refine ⟨_, rfl, rfl, fun meets => ?_⟩
    have one : Xfer.Meets ⟨src, dst, n⟩ := meets _ (List.mem_singleton_self _)
    have ran := script.ascends _ st.mem one.bd
    rw [one.count] at ran
    exact ran

/-- The pieces of the chunks -/
def lens (m : Mdriver) : Nat → Reg → List Nat
  | 0, _ => []
  | fuel + 1, size =>
    if size = 0 then [] else chunkLens m (dmasz m size) ++ lens m fuel (size - dmasz m size)

/-- The transfers for the chunks -/
def xfers (m : Mdriver) : Nat → Addr → Addr → Reg → List Xfer
  | 0, _, _, _ => []
  | fuel + 1, dst, src, size =>
    if size = 0 then []
    else chunkXfers dst src (dmasz m size) ++
      xfers m fuel (dst + dmasz m size) (src + dmasz m size) (size - dmasz m size)

theorem pos_of_ne_zero {size : Reg} (more : size ≠ 0) : 0 < size.toNat :=
  Nat.pos_of_ne_zero fun zero => more (BitVec.eq_of_toNat_eq zero)

theorem lens_pos (m : Mdriver) (fuel : Nat) (size : Reg) : ∀ n ∈ lens m fuel size, 0 < n := by
  induction fuel generalizing size with
  | zero => exact fun n mem => absurd mem List.not_mem_nil
  | succ fuel ih =>
    intro n mem
    unfold lens at mem
    by_cases done : size = 0
    · rw [if_pos done] at mem
      exact absurd mem List.not_mem_nil
    · rw [if_neg done] at mem
      rcases List.mem_append.mp mem with chunk | rest
      · exact chunkLens_pos m _ n chunk
      · exact ih _ n rest

theorem lens_sum (m : Mdriver) {fuel : Nat} {size : Reg} (enough : size.toNat < fuel) :
    (lens m fuel size).sum = size.toNat := by
  induction fuel generalizing size with
  | zero => omega
  | succ fuel ih =>
    unfold lens
    by_cases done : size = 0
    · rw [if_pos done, done]
      rfl
    · have pos := dmasz_pos m (pos_of_ne_zero done)
      have le := dmasz_le m size
      have rest := rest_toNat m size
      rw [if_neg done, List.sum_append, chunkLens_sum, ih (by omega), rest]
      omega

theorem copyChunks_eq (script : Script) (m : Mdriver) {fuel : Nat} {size : Reg}
    (enough : size.toNat < fuel) (dst src : Addr) (st : St) :
    ∃ st', copyChunks script m fuel dst src size st = some (dst + size, src + size, st') ∧
      st'.xfers = st.xfers ++ xfers m fuel dst src size ∧
      ((∀ x ∈ xfers m fuel dst src size, x.Meets) →
        st'.mem = pieces dst src (lens m fuel size) st.mem) := by
  induction fuel generalizing dst src size st with
  | zero => omega
  | succ fuel ih =>
    unfold copyChunks xfers lens
    by_cases done : size = 0
    · rw [if_pos done, if_pos done, if_pos done, done, add_zero, add_zero]
      exact ⟨st, rfl, (List.append_nil _).symm, fun _ => rfl⟩
    · have pos := dmasz_pos m (pos_of_ne_zero done)
      have le := dmasz_le m size
      have rest := rest_toNat m size
      obtain ⟨st', ran, traced, moved⟩ := copyChunk_eq script m dst src (dmasz m size) st
      obtain ⟨st2, ran', traced', moved'⟩ := ih
        (by omega : (size - dmasz m size).toNat < fuel) (dst + dmasz m size)
        (src + dmasz m size) st'
      rw [if_neg done, if_neg done, if_neg done, ran, Option.bind_some, ran', add_assoc,
        add_assoc, add_sub_cancel]
      refine ⟨st2, rfl, ?_, fun meets => ?_⟩
      · rw [traced', traced, List.append_assoc]
      · have first := moved fun x mem => meets x (List.mem_append_left _ mem)
        rw [moved' fun x mem => meets x (List.mem_append_right _ mem), first, pieces_append,
          chunkLens_sum, BitVec.ofNat_toNat, BitVec.setWidth_eq]

/-! ## When the transfers are within the limits -/

theorem add_mod_four {a n : Addr} (aligned : a.toNat % 4 = 0) (words : n.toNat % 4 = 0) :
    (a + n).toNat % 4 = 0 := by
  rw [BitVec.toNat_add]
  omega

/-- All chunks are of whole words. -/
def Steady (m : Mdriver) (size : Nat) : Prop :=
  size % 4 = 0 ∧ (¬m.On ∨ m.max.toNat % 4 = 0 ∨ size < m.max.toNat ∨
    (16 * 1024 * 1024 - 4 ≤ m.max.toNat ∧ m.max.toNat < 2 ^ 31))

theorem Steady.words {m : Mdriver} {size : Reg} (steady : Steady m size.toNat) :
    (dmasz m size).toNat % 4 = 0 := by
  obtain ⟨words, drivers⟩ := steady
  rw [dmasz_toNat]
  by_cases cut : 16 * 1024 * 1024 - 4 ≤ share m size.toNat ∧ share m size.toNat < 2 ^ 31
  · rw [if_pos cut]
  · rw [if_neg cut]
    unfold share at cut ⊢
    by_cases full : m.On ∧ m.max.toNat ≤ size.toNat
    · rw [if_pos full] at cut ⊢
      rcases drivers with off | multiple | short | large
      · exact absurd full.1 off
      · exact multiple
      · exact absurd short (Nat.not_lt.mpr full.2)
      · exact absurd large cut
    · rw [if_neg full]
      exact words

theorem Steady.rest {m : Mdriver} {size : Reg} (steady : Steady m size.toNat) :
    Steady m (size - dmasz m size).toNat := by
  have words := steady.words
  obtain ⟨words', drivers⟩ := steady
  have rest := rest_toNat m size
  have le := dmasz_le m size
  refine ⟨by omega, ?_⟩
  rcases drivers with off | multiple | short | large
  · exact .inl off
  · exact .inr (.inl multiple)
  · exact .inr (.inr (.inl (by omega)))
  · exact .inr (.inr (.inr large))

theorem chunkXfers_meets {dst src : Addr} {n : Reg} (aligned : Aligned dst src)
    (words : n.toNat % 4 = 0) (most : n.toNat < 2 ^ 31 → n.toNat ≤ 16 * 1024 * 1024 - 4) :
    ∀ x ∈ chunkXfers dst src n, x.Meets := by
  unfold chunkXfers
  by_cases small : n.slt MIN_SDMA_XFER_SIZE = true
  · rw [if_pos small]
    exact fun x mem => absurd mem List.not_mem_nil
  · have large := mt (slt_iff n).mpr small
    rw [if_neg small]
    intro x mem
    rw [List.mem_singleton.mp mem]
    have least : 32 ≤ n.toNat := by omega
    exact ⟨aligned.1, aligned.2, words, least, most (by omega)⟩

theorem dmasz_most (m : Mdriver) (size : Reg) (low : (dmasz m size).toNat < 2 ^ 31) :
    (dmasz m size).toNat ≤ 16 * 1024 * 1024 - 4 := by
  rw [dmasz_toNat] at low ⊢
  by_cases cut : 16 * 1024 * 1024 - 4 ≤ share m size.toNat ∧ share m size.toNat < 2 ^ 31
  · rw [if_pos cut]
  · rw [if_neg cut] at low ⊢
    omega

theorem xfers_steady {m : Mdriver} {fuel : Nat} {dst src : Addr} {size : Reg}
    (aligned : Aligned dst src) (steady : Steady m size.toNat) :
    ∀ x ∈ xfers m fuel dst src size, x.Meets := by
  induction fuel generalizing dst src size with
  | zero => exact fun x mem => absurd mem List.not_mem_nil
  | succ fuel ih =>
    intro x mem
    unfold xfers at mem
    by_cases done : size = 0
    · rw [if_pos done] at mem
      exact absurd mem List.not_mem_nil
    · rw [if_neg done] at mem
      rcases List.mem_append.mp mem with chunk | rest
      · exact chunkXfers_meets aligned steady.words (dmasz_most m size) x chunk
      · exact ih ⟨add_mod_four aligned.1 steady.words, add_mod_four aligned.2 steady.words⟩
          steady.rest x rest

theorem xfers_small {m : Mdriver} {fuel : Nat} {dst src : Addr} {size : Reg}
    (small : (m.On ∧ m.max.toNat < 32) ∨ size.toNat < 32) : xfers m fuel dst src size = [] := by
  induction fuel generalizing dst src size with
  | zero => rfl
  | succ fuel ih =>
    unfold xfers
    by_cases done : size = 0
    · rw [if_pos done]
    · have le := dmasz_le m size
      have rest := rest_toNat m size
      have short : (dmasz m size).toNat < 32 := by
        rcases small with ⟨on, max⟩ | size'
        · rw [dmasz_toNat]
          have shared : share m size.toNat ≤ m.max.toNat := by
            unfold share
            by_cases full : m.On ∧ m.max.toNat ≤ size.toNat
            · rw [if_pos full]
            · rw [if_neg full]
              exact Nat.le_of_lt (Nat.not_le.mp fun le => full ⟨on, le⟩)
          rw [if_neg (by omega)]
          omega
        · omega
      have none_ : chunkXfers dst src (dmasz m size) = [] :=
        if_pos ((slt_iff _).mpr (.inl short))
      rw [if_neg done, none_, ih (small.imp_right fun short' => by omega)]
      rfl

theorem xfers_first {m : Mdriver} (fuel : Nat) (dst src : Addr) {size : Reg}
    (least : 32 ≤ size.toNat) (large : 32 ≤ (dmasz m size).toNat)
    (low : (dmasz m size).toNat < 2 ^ 31) :
    ⟨src, dst, dmasz m size⟩ ∈ xfers m (fuel + 1) dst src size := by
  have more : size ≠ 0 := by
    intro zero
    rw [zero] at least
    exact absurd least (by decide)
  have given : ¬(dmasz m size).slt MIN_SDMA_XFER_SIZE = true := by
    rw [slt_iff]
    omega
  unfold xfers chunkXfers
  rw [if_neg more, if_neg given]
  exact List.mem_append_left _ (List.mem_singleton_self _)

theorem xfers_meets_iff {m : Mdriver} {fuel : Nat} {dst src : Addr} {size : Reg}
    (aligned : Aligned dst src) (words : size.toNat % 4 = 0) (enough : size.toNat < fuel) :
    (∀ x ∈ xfers m fuel dst src size, x.Meets) ↔ Limits m size.toNat := by
  by_cases steady : Steady m size.toNat
  · refine iff_of_true (xfers_steady aligned steady) ?_
    obtain ⟨_, off | multiple | short | large⟩ := steady
    · exact .inl off
    · exact .inr (.inl multiple)
    · exact .inr (.inr (.inr (.inl short)))
    · exact .inr (.inr (.inr (.inr (.inl large))))
  · have uneven : m.On ∧ m.max.toNat % 4 ≠ 0 ∧ m.max.toNat ≤ size.toNat ∧
        ¬(16 * 1024 * 1024 - 4 ≤ m.max.toNat ∧ m.max.toNat < 2 ^ 31) := by
      unfold Steady at steady
      by_cases on : m.On
      · exact ⟨on, by omega⟩
      · exact absurd ⟨words, .inl on⟩ steady
    obtain ⟨on, odd, full, unlike⟩ := uneven
    have on' : ¬¬m.On := not_not_intro on
    have shared : share m size.toNat = m.max.toNat := if_pos ⟨on, full⟩
    have chunk : (dmasz m size).toNat = m.max.toNat := by
      rw [dmasz_toNat, shared, if_neg unlike]
    cases fuel with
    | zero => omega
    | succ fuel =>
      by_cases tiny : m.max.toNat < 32
      · rw [xfers_small (.inl ⟨on, tiny⟩)]
        exact iff_of_true (fun x mem => absurd mem List.not_mem_nil) (.inr (.inr (.inl tiny)))
      · by_cases low : m.max.toNat < 2 ^ 31
        · -- the first chunk is no multiple of 4
          have breaks := xfers_first fuel dst src (m := m)
            (by omega : 32 ≤ size.toNat) (by omega) (by omega)
          refine iff_of_false (fun meets => ?_) fun limits => ?_
          · have words' := (meets _ breaks).words
            dsimp only at words'
            omega
          · rcases limits with off | multiple | small | short | large | negative
            · exact on' off
            · exact odd multiple
            · exact tiny small
            · omega
            · exact unlike large
            · omega
        · -- the first chunk is negative, and the next one is not aligned
          have none_ : chunkXfers dst src (dmasz m size) = [] :=
            if_pos ((slt_iff _).mpr (.inr (by omega)))
          have more : size ≠ 0 := by
            intro zero
            rw [zero] at full
            have zero' : (0 : Reg).toNat = 0 := rfl
            omega
          have rest := rest_toNat m size
          have bound := size.isLt
          unfold xfers
          rw [if_neg more, none_, List.nil_append]
          by_cases few : (size - dmasz m size).toNat < 32
          · rw [xfers_small (.inr few)]
            exact iff_of_true (fun x mem => absurd mem List.not_mem_nil)
              (.inr (.inr (.inr (.inr (.inr ⟨by omega, by omega⟩)))))
          · have chunk' : (dmasz m (size - dmasz m size)).toNat =
                if 16 * 1024 * 1024 - 4 ≤ (size - dmasz m size).toNat ∧
                  (size - dmasz m size).toNat < 2 ^ 31 then 16 * 1024 * 1024 - 4
                else (size - dmasz m size).toNat := by
              have last : share m (size - dmasz m size).toNat = (size - dmasz m size).toNat :=
                if_neg fun both => absurd both.2 (by omega)
              rw [dmasz_toNat, last]
            have sized : 32 ≤ (dmasz m (size - dmasz m size)).toNat ∧
                (dmasz m (size - dmasz m size)).toNat < 2 ^ 31 := by
              by_cases cut : 16 * 1024 * 1024 - 4 ≤ (size - dmasz m size).toNat ∧
                  (size - dmasz m size).toNat < 2 ^ 31
              · rw [if_pos cut] at chunk'
                omega
              · rw [if_neg cut] at chunk'
                omega
            cases fuel with
            | zero => omega
            | succ fuel =>
              have breaks := xfers_first fuel (dst + dmasz m size) (src + dmasz m size)
                (by omega) sized.1 sized.2
              refine iff_of_false (fun meets => ?_) fun limits => ?_
              · have unaligned := (meets _ breaks).src
                dsimp only at unaligned
                rw [BitVec.toNat_add, chunk] at unaligned
                have start := aligned.1
                omega
              · rcases limits with off | multiple | small | short | large | negative
                · exact on' off
                · exact odd multiple
                · exact tiny small
                · omega
                · exact unlike large
                · omega

/-! ## The whole copy -/

theorem lens_zero (m : Mdriver) (fuel : Nat) : lens m fuel 0 = [] := by
  cases fuel with
  | zero => rfl
  | succ fuel => exact if_pos rfl

theorem lens_single {m : Mdriver} {fuel : Nat} {size : Reg} (enough : size.toNat < fuel)
    (least : 32 ≤ size.toNat) :
    (lens m fuel size).length ≤ 1 ↔ 2 ^ 31 ≤ size.toNat ∧ (m.On → size.toNat ≤ m.max.toNat) := by
  cases fuel with
  | zero => omega
  | succ fuel =>
    have more : size ≠ 0 := by
      intro zero
      rw [zero] at least
      exact absurd least (by decide)
    have pos := dmasz_pos m (pos_of_ne_zero more)
    have le := dmasz_le m size
    have rest := rest_toNat m size
    unfold lens
    rw [if_neg more, List.length_append]
    by_cases part : (dmasz m size).toNat < size.toNat
    · have first := length_pos_of_sum (chunkLens m (dmasz m size))
        (by rw [chunkLens_sum]; exact pos)
      have later := length_pos_of_sum (lens m fuel (size - dmasz m size))
        (by rw [lens_sum m (by omega)]; omega)
      refine iff_of_false (by omega) fun ⟨negative, within⟩ => ?_
      have shared : share m size.toNat = size.toNat := by
        unfold share
        by_cases full : m.On ∧ m.max.toNat ≤ size.toNat
        · rw [if_pos full]
          exact Nat.le_antisymm full.2 (within full.1)
        · rw [if_neg full]
      have chunk := dmasz_toNat m size
      rw [shared, if_neg (by omega)] at chunk
      omega
    · have all : dmasz m size = size := BitVec.eq_of_toNat_eq (by omega)
      rw [all, sub_self, lens_zero, List.length_nil, Nat.add_zero]
      unfold chunkLens
      by_cases negative : 2 ^ 31 ≤ size.toNat
      · rw [if_pos ((slt_iff size).mpr (.inr negative)), memoryLens_single]
        exact ⟨fun within => ⟨negative, within⟩, fun both => both.2⟩
      · rw [if_neg (mt (slt_iff size).mp (by omega)), List.length_replicate]
        exact iff_of_false (by omega) fun both => negative both.1

/-- The pieces of the whole copy -/
def wholeLens (m : Mdriver) (dst src : Addr) (size : Reg) : List Nat :=
  if Aligned dst src then
    lens m ((size - size % MIN_SDMA_XFER_SIZE).toNat + 1) (size - size % MIN_SDMA_XFER_SIZE) ++
      memoryLens m (size % MIN_SDMA_XFER_SIZE).toNat
  else memoryLens m size.toNat

/-- The transfers of the whole copy -/
def wholeXfers (m : Mdriver) (dst src : Addr) (size : Reg) : List Xfer :=
  if Aligned dst src then
    xfers m ((size - size % MIN_SDMA_XFER_SIZE).toNat + 1) dst src
      (size - size % MIN_SDMA_XFER_SIZE)
  else []

theorem leftover_toNat (size : Reg) : (size % MIN_SDMA_XFER_SIZE).toNat = size.toNat % 32 :=
  BitVec.toNat_umod

theorem rounded_toNat (size : Reg) :
    (size - size % MIN_SDMA_XFER_SIZE).toNat = size.toNat - size.toNat % 32 := by
  have left := leftover_toNat size
  rw [BitVec.toNat_sub_of_le, left]
  rw [BitVec.le_def, left]
  exact Nat.mod_le _ _

theorem unaligned_iff (dst src : Addr) : (src % 4 ≠ 0 ∨ dst % 4 ≠ 0) ↔ ¬Aligned dst src := by
  have four : ∀ a : Addr, a % 4 = 0 ↔ a.toNat % 4 = 0 := by
    intro a
    have value : (a % 4).toNat = a.toNat % 4 := BitVec.toNat_umod
    rw [← value]
    exact BitVec.toNat_inj.symm
  unfold Aligned
  rw [ne_eq, ne_eq, four, four, not_and_or]

theorem copyLeftover_eq (m : Mdriver) (dst src : Addr) (leftover : Reg) (st : St) :
    copyLeftover m leftover (dst, src, st) =
      some ⟨pieces dst src (memoryLens m leftover.toNat) st.mem, st.xfers⟩ := by
  unfold copyLeftover
  by_cases none_ : leftover = 0
  · have empty : memoryLens m (0 : Reg).toNat = [] := by
      show copyLens _ 1 0 = []
      unfold copyLens
      rw [if_pos (Nat.zero_le _), if_pos rfl]
    rw [if_pos none_, none_, empty]
    rfl
  · rw [if_neg none_, copyMemory_eq]
    rfl

theorem sdmaCopy_eq (script : Script) (m : Mdriver) (dst src : Addr) (size : Reg) (mem : Mem) :
    ∃ st, sdmaCopy script m dst src size mem = some st ∧ st.xfers = wholeXfers m dst src size ∧
      ((∀ x ∈ wholeXfers m dst src size, x.Meets) →
        st.mem = pieces dst src (wholeLens m dst src size) mem) := by
  unfold sdmaCopy wholeXfers wholeLens
  by_cases aligned : Aligned dst src
  · obtain ⟨st, ran, traced, moved⟩ := copyChunks_eq script m
      (Nat.lt_succ_self (size - size % MIN_SDMA_XFER_SIZE).toNat) dst src ⟨mem, []⟩
    rw [if_neg (mt (unaligned_iff dst src).mp (not_not_intro aligned)), if_pos aligned,
      if_pos aligned]
    dsimp only
    rw [ran, Option.bind_some, copyLeftover_eq]
    refine ⟨_, rfl, traced, fun meets => ?_⟩
    dsimp only
    rw [moved meets, pieces_append, lens_sum m (Nat.lt_succ_self _), BitVec.ofNat_toNat,
      BitVec.setWidth_eq]
  · rw [if_pos ((unaligned_iff dst src).mpr aligned), if_neg aligned, if_neg aligned,
      copyMemory_eq]
    exact ⟨_, rfl, rfl, fun _ => rfl⟩

theorem wholeLens_pos (m : Mdriver) (dst src : Addr) (size : Reg) :
    ∀ n ∈ wholeLens m dst src size, 0 < n := by
  unfold wholeLens
  by_cases aligned : Aligned dst src
  · rw [if_pos aligned]
    intro n mem
    rcases List.mem_append.mp mem with chunk | leftover
    · exact lens_pos m _ _ n chunk
    · exact memoryLens_pos m _ n leftover
  · rw [if_neg aligned]
    exact memoryLens_pos m _

theorem wholeLens_sum (m : Mdriver) (dst src : Addr) (size : Reg) :
    (wholeLens m dst src size).sum = size.toNat := by
  unfold wholeLens
  by_cases aligned : Aligned dst src
  · rw [if_pos aligned, List.sum_append, lens_sum m (Nat.lt_succ_self _), memoryLens_sum,
      rounded_toNat, leftover_toNat]
    omega
  · rw [if_neg aligned, memoryLens_sum]

theorem wholeLens_single (m : Mdriver) (dst src : Addr) (size : Reg) :
    (wholeLens m dst src size).length ≤ 1 ↔ AtOnce m dst src size.toNat := by
  unfold wholeLens AtOnce
  by_cases aligned : Aligned dst src
  · rw [if_pos aligned, List.length_append]
    by_cases least : 32 ≤ size.toNat
    · have rounded := rounded_toNat size
      have first := length_pos_of_sum
        (lens m ((size - size % MIN_SDMA_XFER_SIZE).toNat + 1)
          (size - size % MIN_SDMA_XFER_SIZE))
        (by rw [lens_sum m (Nat.lt_succ_self _), rounded]; omega)
      have single := lens_single (m := m) (Nat.lt_succ_self _)
        (show 32 ≤ (size - size % MIN_SDMA_XFER_SIZE).toNat by omega)
      by_cases even : size.toNat % 32 = 0
      · have empty : (memoryLens m (size % MIN_SDMA_XFER_SIZE).toNat).length = 0 := by
          rw [leftover_toNat, even]
          show (copyLens _ 1 0).length = 0
          unfold copyLens
          rw [if_pos (Nat.zero_le _), if_pos rfl]
          rfl
        rw [empty, Nat.add_zero, single, rounded, even]
        exact ⟨fun both => ⟨both.2, fun _ _ => ⟨rfl, both.1⟩⟩,
          fun both => ⟨(both.2 aligned least).2, both.1⟩⟩
      · have later := length_pos_of_sum
          (memoryLens m (size % MIN_SDMA_XFER_SIZE).toNat)
          (by rw [memoryLens_sum, leftover_toNat]; omega)
        exact iff_of_false (by omega) fun both => even (both.2 aligned least).1
    · have none_ : size - size % MIN_SDMA_XFER_SIZE = 0 :=
        BitVec.eq_of_toNat_eq (by rw [rounded_toNat]; show _ = 0; omega)
      have all : (size % MIN_SDMA_XFER_SIZE).toNat = size.toNat := by
        rw [leftover_toNat, Nat.mod_eq_of_lt (by omega)]
      rw [none_, lens_zero, List.length_nil, Nat.zero_add, memoryLens_single, all]
      exact ⟨fun within => ⟨within, fun _ large => absurd large least⟩, fun both => both.1⟩
  · rw [if_neg aligned, memoryLens_single]
    exact ⟨fun within => ⟨within, fun aligned' => absurd aligned' aligned⟩, fun both => both.1⟩

theorem wholeXfers_meets_iff (m : Mdriver) (dst src : Addr) (size : Reg) :
    (∀ x ∈ wholeXfers m dst src size, x.Meets) ↔
      (Aligned dst src → Limits m (size.toNat - size.toNat % 32)) := by
  unfold wholeXfers
  by_cases aligned : Aligned dst src
  · rw [if_pos aligned, xfers_meets_iff aligned (by rw [rounded_toNat]; omega)
      (Nat.lt_succ_self _), rounded_toNat]
    exact ⟨fun limits _ => limits, fun limits => limits aligned⟩
  · rw [if_neg aligned]
    exact iff_of_true (fun x mem => absurd mem List.not_mem_nil) fun aligned' =>
      absurd aligned' aligned

instance nontrivial_uint8 : Nontrivial UInt8 := ⟨0, 1, by decide⟩

theorem move_right_iff (script : Script) (m : Mdriver) (dst src : Addr) (size : Reg) :
    (∀ mem, Right script m dst src size mem) ↔
      (∀ x ∈ wholeXfers m dst src size, x.Meets) ∧
        (gap dst src = 0 ∨ size.toNat ≤ gap dst src ∨ AtOnce m dst src size.toNat) := by
  have moves : (∀ mem : Mem, pieces dst src (wholeLens m dst src size) mem =
      move dst src (wholeLens m dst src size).sum mem) ↔ _ := pieces_right_iff dst src
    (wholeLens_pos m dst src size) (by rw [wholeLens_sum]; exact Nat.le_of_lt size.isLt)
  rw [wholeLens_sum, wholeLens_single] at moves
  rw [← moves]
  constructor
  · intro right
    have meets : ∀ x ∈ wholeXfers m dst src size, x.Meets := by
      obtain ⟨st, ran, _, meets⟩ := right fun _ => 0
      obtain ⟨st', ran', traced, _⟩ := sdmaCopy_eq script m dst src size fun _ => 0
      rw [Option.some.inj (ran'.symm.trans ran)] at traced
      rwa [traced] at meets
    refine ⟨meets, fun mem => ?_⟩
    obtain ⟨st, ran, moved, _⟩ := right mem
    obtain ⟨st', ran', _, moved'⟩ := sdmaCopy_eq script m dst src size mem
    rw [Option.some.inj (ran'.symm.trans ran)] at moved'
    exact (moved' meets).symm.trans moved
  · rintro ⟨meets, moved⟩ mem
    obtain ⟨st, ran, traced, moved'⟩ := sdmaCopy_eq script m dst src size mem
    refine ⟨st, ran, (moved' meets).trans (moved mem), ?_⟩
    rw [traced]
    exact meets

/-- A script that copies any block in ascending order -/
def plainScript : Script where
  run bd := ascend bd.extBufPaddr bd.bufPaddr bd.count
  ascends _ _ _ := rfl

/-- No mini-drivers -/
def noMdriver : Mdriver := ⟨0, 0x4000, fun on => absurd on (by decide)⟩

/-- One mini-driver, which is to run after every 33 bytes -/
def oddMdriver : Mdriver := ⟨28, 33, fun _ => by decide⟩

end Mx6xBsp.Startup.SdmaCopy
