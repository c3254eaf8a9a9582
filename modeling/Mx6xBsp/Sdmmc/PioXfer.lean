import Mx6xBsp.Lib.Loops
import Mx6xBsp.Sdmmc.AdmaSetup

/-!
# Transfers without DMA

`imx6_sdhcx_pio_xfer` moves the blocks of a command through the data port of the
controller. It takes the buffers from the scatter/gather list with `sdio_sg_nxt`, as
much at a time as the element and the block have left, and moves that in words of four
bytes: what is left over of a piece is neither moved nor made up for. A list is moved as
it is exactly when its elements and the blocks are made of whole words (`pio_xfer_iff`).
-/

namespace Mx6xBsp.Sdmmc.Pio

open Extents Loops

open Adma (Sge EOK bytesOf)

def EINVAL : Nat := 22
def ETIMEDOUT : Nat := 260

def IMX6_SDHCX_WATML_WR : Int := 128

/-- A command with data: as many bytes in the elements of its list as in its blocks. The pointer
to the list of a command may be `NULL` if there are no elements. -/
structure Cmd where
  blks : Nat
  blksz : Nat
  sgl : List Sge
  null : Bool
  blksInt : blks < 2 ^ 31
  blkszInt : blksz < 2 ^ 31
  sgcInt : sgl.length < 2 ^ 31
  nullEmpty : null = true → sgl = []
  whole : (sgl.map fun sge => sge.sg_count.toNat).sum = blks * blksz

/-- What is read at a place of the list; `beyond` is in memory behind it. -/
def Cmd.element (cmd : Cmd) (beyond : Nat → Sge) (i : Nat) : Sge := cmd.sgl[i]?.getD (beyond i)

/-! ## Walking the list -/

/-- The part of a `sdio_wspc_t` that walks a list, and the elements it has read -/
structure Wspc where
  sge : Nat
  nsg : Int
  sgc : Int
  sga : BitVec 32
  read : List Nat

/-- An element is entered. -/
def Wspc.enter (w : Wspc) (element : Nat → Sge) (i : Nat) (nsg : Int) : Wspc :=
  { sge := i
    nsg := nsg
    sgc := (element i).sg_count.toInt
    sga := (element i).sg_address
    read := w.read ++ [i] }

/-- Bytes of the element are taken. -/
def Wspc.advance (w : Wspc) (len : Int) : Wspc :=
  { w with
    sga := w.sga + BitVec.ofInt 32 len
    sgc := w.sgc - len }

def sdio_sg_start (element : Nat → Sge) (null : Bool) (nsg : Int) (w : Wspc) : Nat × Wspc :=
  if nsg = 0 ∧ null = true then (EINVAL, w)
  else (EOK, w.enter element 0 nsg)

/-- The next piece of the list, of at most `blksz` bytes; none once the list is through -/
def sdio_sg_nxt (element : Nat → Sge) (w : Wspc) (blksz : Int) : Option (BitVec 32 × Int × Wspc) :=
  if w.nsg = 1 ∧ w.sgc = 0 then none
  else
    let w := if w.sgc = 0 then w.enter element (w.sge + 1) (w.nsg - 1) else w
    let len := min w.sgc blksz
    some (w.sga, len, w.advance len)

/-! ## The data port -/

/-- A call of `imx6_sdhcx_in32s` or `imx6_sdhcx_out32s` -/
structure Burst where
  addr : BitVec 32
  words : Int

/-- What has been moved, and how often the port was waited for -/
structure Port where
  bursts : List Burst
  waits : Nat

/-- The words of one piece, no more at a time than the watermark allows; `false` when the
port does not get ready -/
def Port.move (ready : Nat → Bool) (port : Port) (addr : BitVec 32) (len : Int) : Bool × Port :=
  if len = 0 then (true, port)
  else
    let xfer_len := min len IMX6_SDHCX_WATML_WR
    if ready port.waits then
      Port.move ready
        { bursts := port.bursts ++ [⟨addr, xfer_len⟩], waits := port.waits + 1 }
        (addr + BitVec.ofInt 32 (xfer_len * 4)) (len - xfer_len)
    else (false, { port with waits := port.waits + 1 })
termination_by len.natAbs
decreasing_by
  simp only [IMX6_SDHCX_WATML_WR]
  omega

/-! ## The blocks -/

/-- The loops of `imx6_sdhcx_pio_xfer`: the blocks and the bytes of the block that are left -/
structure State where
  blks : Nat
  blksz : Int
  wspc : Wspc
  port : Port

structure Result where
  status : Nat
  wspc : Wspc
  port : Port

/-- A pass of the inner loop, or of the outer one when a block is through -/
def pass (cmd : Cmd) (beyond : Nat → Sge) (ready : Nat → Bool) (s : State) : Pass State Result :=
  if s.blksz = 0 then
    if s.blks = 0 then .leave ⟨EOK, s.wspc, s.port⟩
    else .next { s with blks := s.blks - 1, blksz := cmd.blksz }
  else
    match sdio_sg_nxt (cmd.element beyond) s.wspc s.blksz with
    | none => .next { s with blksz := 0 }
    | some (addr, len, wspc) =>
      match s.port.move ready addr (len.tdiv 4) with
      | (false, port) => .leave ⟨ETIMEDOUT, wspc, port⟩
      | (true, port) => .next { s with blksz := s.blksz - len, wspc := wspc, port := port }

/-- The list is started when the command is set up. -/
def start (cmd : Cmd) (beyond : Nat → Sge) (wspc : Wspc) : State :=
  { blks := cmd.blks
    blksz := 0
    wspc := (sdio_sg_start (cmd.element beyond) cmd.null cmd.sgl.length { wspc with read := [] }).2
    port := ⟨[], 0⟩ }

/-- The bytes of the buffers in the order in which they go through the port -/
def Port.moved (port : Port) : List (BitVec 32) :=
  port.bursts.flatMap fun burst => cells burst.addr (4 * burst.words.toNat)

/-- No element behind the list is read, no burst has a negative count, which would be taken for
one of billions of words, and unless the port does not get ready the bytes of the list have
been moved. -/
structure Result.Right (r : Result) (sgl : List Sge) : Prop where
  inside : ∀ i ∈ r.wspc.read, i < sgl.length
  counts : ∀ burst ∈ r.port.bursts, 0 ≤ burst.words
  moves : r.status = EOK → r.port.moved = bytesOf sgl

/-- There is an element or no list, and the elements and the blocks are made of whole words, the
elements of fewer bytes than an `int` counts. -/
structure Cmd.Fits (cmd : Cmd) : Prop where
  list : cmd.sgl ≠ [] ∨ cmd.null = true
  blocks : cmd.blks = 0 ∨ 4 ∣ cmd.blksz
  elements : ∀ sge ∈ cmd.sgl, sge.sg_count.toNat < 2 ^ 31 ∧ 4 ∣ sge.sg_count.toNat

/-! ## What a piece moves -/

/-- Bursts put together to a range -/
def Burst.cells (burst : Burst) : List (BitVec 32) :=
  Extents.cells burst.addr (4 * burst.words.toNat)

/-- The words of a piece: bursts are added that together are the range, or a wait was too long.
A negative count makes one burst. -/
structure Port.Moves (port : Port) (addr : BitVec 32) (len : Int) (r : Bool × Port)
    (added : List Burst) : Prop where
  bursts : r.2.bursts = port.bursts ++ added
  counts : 0 ≤ len → ∀ burst ∈ added, 0 ≤ burst.words
  cells : r.1 = true → 0 ≤ len → added.flatMap Burst.cells = cells addr (4 * len.toNat)
  negative : r.1 = true → len < 0 → ∃ burst ∈ added, burst.words < 0

theorem Port.moves (ready : Nat → Bool) (port : Port) (addr : BitVec 32) (len : Int) :
    ∃ added, port.Moves addr len (port.move ready addr len) added := by
  induction port, addr, len using Port.move.induct ready with
  | case1 port addr =>
    unfold move
    rw [if_pos rfl]
    exact ⟨[], (List.append_nil _).symm, fun _ _ mem => absurd mem List.not_mem_nil,
      fun _ _ => rfl, fun _ below => absurd below (lt_irrefl 0)⟩
  | case2 port addr len some xfer_len up ih =>
    unfold move
    rw [if_neg some]
    dsimp only
    rw [if_pos up]
    obtain ⟨added, moves⟩ := ih
    have whole : 0 ≤ len → 0 ≤ len - xfer_len := fun _ => Int.sub_nonneg.mpr (min_le_left _ _)
    have chunk : 0 ≤ len → 0 ≤ xfer_len := fun nonneg => le_min nonneg (by decide)
    refine ⟨⟨addr, xfer_len⟩ :: added, ?_, ?_, ?_, ?_⟩
    · rw [moves.bursts]
      exact List.append_assoc _ _ _
    · intro nonneg burst mem
      rcases List.mem_cons.mp mem with rfl | rest
      · exact chunk nonneg
      · exact moves.counts (whole nonneg) burst rest
    · intro done nonneg
      have first := chunk nonneg
      have rest := whole nonneg
      rw [List.flatMap_cons, moves.cells done rest]
      unfold Burst.cells
      rw [show 4 * len.toNat = 4 * xfer_len.toNat + 4 * (len - xfer_len).toNat by omega, cells_add]
      congr 2
      rw [← BitVec.ofInt_natCast]
      congr 2
      omega
    · intro _ below
      exact ⟨_, List.mem_cons_self, (min_le_left _ _).trans_lt below⟩
  | case3 port addr len some down =>
    unfold move
    rw [if_neg some]
    dsimp only
    rw [if_neg down]
    exact ⟨[], (List.append_nil _).symm, fun _ _ mem => absurd mem List.not_mem_nil,
      fun done => absurd done Bool.false_ne_true, fun done => absurd done Bool.false_ne_true⟩

theorem Port.move_ready (port : Port) (addr : BitVec 32) (len : Int) :
    (port.move (fun _ => true) addr len).1 = true := by
  induction port, addr, len using Port.move.induct (fun _ => true) with
  | case1 port addr =>
    unfold move
    rw [if_pos rfl]
  | case2 port addr len some xfer_len up ih =>
    unfold move
    rw [if_neg some]
    dsimp only
    rw [if_pos up]
    exact ih
  | case3 port addr len some down => exact absurd rfl down

/-! ## A walk through the list -/

/-- The elements and the blocks are made of whole words. -/
structure Cmd.Words (cmd : Cmd) : Prop where
  blocks : cmd.blks = 0 ∨ 4 ∣ cmd.blksz
  elements : ∀ sge ∈ cmd.sgl, 4 ∣ sge.sg_count.toNat

/-- How many bytes have been taken from the list: all of the elements that are done, and from the
current one all but `left` -/
def taken (done : List Sge) (cur : Sge) (left : Nat) : Nat :=
  (done.map fun sge => sge.sg_count.toNat).sum + (cur.sg_count.toNat - left)

/-- Where the loops are: in an element with `left` bytes to go, in a block with `b` bytes to go.
What has been moved is no more than what was taken, and if it is as much the same. -/
structure Walk (cmd : Cmd) (s : State) (done : List Sge) (cur : Sge) (rest : List Sge)
    (left b : Nat) : Prop where
  list : cmd.sgl = done ++ cur :: rest
  sge : s.wspc.sge = done.length
  nsg : s.wspc.nsg = rest.length + 1
  sgc : s.wspc.sgc = left
  sga : s.wspc.sga = cur.sg_address + BitVec.ofNat 32 (cur.sg_count.toNat - left)
  blksz : s.blksz = b
  leftLe : left ≤ cur.sg_count.toNat
  bLe : b ≤ cmd.blksz
  blksLe : s.blks ≤ cmd.blks
  total : s.blks * cmd.blksz + b + taken done cur left = cmd.blks * cmd.blksz
  inside : ∀ i ∈ s.wspc.read, i < cmd.sgl.length
  counts : ∀ burst ∈ s.port.bursts, 0 ≤ burst.words
  moved : s.port.moved.length ≤ taken done cur left
  same : s.port.moved.length = taken done cur left →
    s.port.moved = bytesOf done ++ cells cur.sg_address (cur.sg_count.toNat - left)
  words : s.port.moved.length = taken done cur left →
    (∀ sge ∈ done, 4 ∣ sge.sg_count.toNat) ∧ 4 ∣ cur.sg_count.toNat - left ∧
      (s.blks < cmd.blks → 4 ∣ cmd.blksz - b)
  whole : cmd.Words → s.port.moved.length = taken done cur left ∧ 4 ∣ left ∧ 4 ∣ b

section Walk

variable {cmd : Cmd} {beyond : Nat → Sge} {ready : Nat → Bool} {s : State} {done rest : List Sge}
  {cur next : Sge} {left b len : Nat}

theorem Walk.rest_eq (walk : Walk cmd s done cur rest left b) :
    s.blks * cmd.blksz + b = left + (rest.map fun sge => sge.sg_count.toNat).sum := by
  have total := walk.total
  have whole := cmd.whole
  rw [walk.list, List.map_append, List.sum_append, List.map_cons, List.sum_cons] at whole
  have leftLe := walk.leftLe
  unfold taken at total
  omega

theorem Walk.enter (beyond : Nat → Sge) (walk : Walk cmd s done cur (next :: rest) 0 b)
    (short : next.sg_count.toNat < 2 ^ 31) :
    Walk cmd
      { s with wspc := s.wspc.enter (cmd.element beyond) (s.wspc.sge + 1) (s.wspc.nsg - 1) }
      (done ++ [cur]) next rest next.sg_count.toNat b := by
  have list : cmd.sgl = (done ++ [cur]) ++ next :: rest := by
    rw [walk.list, List.append_assoc]
    rfl
  have element : cmd.element beyond (s.wspc.sge + 1) = next := by
    unfold Cmd.element
    rw [walk.sge, list, List.getElem?_append_right (by rw [List.length_append]; rfl)]
    simp
  have same : taken (done ++ [cur]) next next.sg_count.toNat = taken done cur 0 := by
    unfold taken
    rw [List.map_append, List.sum_append, Nat.sub_self, Nat.sub_zero]
    simp
  constructor
  · exact list
  · simp only [Wspc.enter, walk.sge, List.length_append, List.length_singleton]
  · simp only [Wspc.enter, walk.nsg, List.length_cons]
    omega
  · simp only [Wspc.enter, element]
    exact BitVec.toInt_eq_toNat_of_lt (by omega)
  · simp only [Wspc.enter, element, Nat.sub_self]
    exact (BitVec.add_zero _).symm
  · exact walk.blksz
  · exact le_rfl
  · exact walk.bLe
  · exact walk.blksLe
  · rw [same]
    exact walk.total
  · intro i mem
    rcases List.mem_append.mp mem with old | new
    · exact walk.inside i old
    · rw [List.mem_singleton.mp new, walk.sge, list]
      simp
  · exact walk.counts
  · rw [same]
    exact walk.moved
  · rw [same]
    intro equal
    refine (walk.same equal).trans ?_
    unfold bytesOf
    simp
  · rw [same]
    intro equal
    obtain ⟨before, this, blocks⟩ := walk.words equal
    refine ⟨fun sge mem => ?_, by rw [Nat.sub_self]; exact dvd_zero 4, blocks⟩
    rcases List.mem_append.mp mem with old | new
    · exact before sge old
    · rw [List.mem_singleton.mp new]
      exact this
  · rw [same]
    intro words
    obtain ⟨equal, -, block⟩ := walk.whole words
    refine ⟨equal, words.elements next ?_, block⟩
    rw [list]
    simp

theorem Walk.take (walk : Walk cmd s done cur rest left b) (inElement : len ≤ left)
    (inBlock : len ≤ b) (ends : len = left ∨ len = b) {port : Port} {added : List Burst}
    (moves : s.port.Moves s.wspc.sga (len / 4 : Nat) (true, port) added) :
    Walk cmd
      { s with
        blksz := s.blksz - len
        wspc := s.wspc.advance len
        port := port }
      done cur rest (left - len) (b - len) := by
  have leftLe := walk.leftLe
  have grown : port.moved = s.port.moved ++ cells s.wspc.sga (4 * (len / 4)) := by
    have bursts : port.bursts = s.port.bursts ++ added := moves.bursts
    have piece := moves.cells rfl (Int.natCast_nonneg _)
    rw [Int.toNat_natCast] at piece
    unfold Port.moved
    rw [bursts, List.flatMap_append, ← piece]
    rfl
  have length : port.moved.length = s.port.moved.length + 4 * (len / 4) := by
    rw [grown, List.length_append, cells_length]
  have took : taken done cur (left - len) = taken done cur left + len := by
    unfold taken
    omega
  have moved := walk.moved
  have consumed : cur.sg_count.toNat - (left - len) = cur.sg_count.toNat - left + len := by omega
  -- no byte was lost before, and none is now
  have exact : port.moved.length = taken done cur (left - len) →
      s.port.moved.length = taken done cur left ∧ 4 ∣ len := by
    intro equal
    rw [length, took] at equal
    omega
  constructor
  · exact walk.list
  · exact walk.sge
  · exact walk.nsg
  · change s.wspc.sgc - len = _
    rw [walk.sgc]
    omega
  · change s.wspc.sga + BitVec.ofInt 32 len = _
    rw [walk.sga, consumed, BitVec.ofNat_add, BitVec.ofInt_natCast, add_assoc]
  · change s.blksz - len = _
    rw [walk.blksz]
    omega
  · omega
  · exact (Nat.sub_le _ _).trans walk.bLe
  · exact walk.blksLe
  · rw [took]
    have total := walk.total
    change s.blks * cmd.blksz + (b - len) + _ = _
    omega
  · exact walk.inside
  · intro burst mem
    change burst ∈ port.bursts at mem
    rw [show port.bursts = s.port.bursts ++ added from moves.bursts] at mem
    rcases List.mem_append.mp mem with old | new
    · exact walk.counts burst old
    · exact moves.counts (Int.natCast_nonneg _) burst new
  · rw [took]
    change port.moved.length ≤ _
    omega
  · intro equal
    obtain ⟨before, words⟩ := exact equal
    change port.moved = _
    rw [grown, walk.same before, Nat.mul_div_cancel' words, consumed, cells_add, walk.sga,
      List.append_assoc]
  · intro equal
    obtain ⟨before, words⟩ := exact equal
    obtain ⟨elements, this, blocks⟩ := walk.words before
    refine ⟨elements, ?_, fun fewer => ?_⟩
    · rw [consumed]
      omega
    · have block := blocks fewer
      have bLe := walk.bLe
      omega
  · intro words
    obtain ⟨equal, element, block⟩ := walk.whole words
    have whole : 4 ∣ len := by
      rcases ends with rfl | rfl
      · exact element
      · exact block
    refine ⟨?_, by omega, by omega⟩
    change port.moved.length = _
    rw [length, took, equal]
    omega

theorem Walk.block (walk : Walk cmd s done cur rest left 0) (some : s.blks ≠ 0) :
    Walk cmd { s with blks := s.blks - 1, blksz := cmd.blksz } done cur rest left cmd.blksz := by
  have blksLe := walk.blksLe
  constructor
  · exact walk.list
  · exact walk.sge
  · exact walk.nsg
  · exact walk.sgc
  · exact walk.sga
  · rfl
  · exact walk.leftLe
  · exact le_rfl
  · exact (Nat.sub_le _ _).trans blksLe
  · have total := walk.total
    have round : s.blks * cmd.blksz = (s.blks - 1) * cmd.blksz + cmd.blksz := by
      rw [← Nat.succ_mul, Nat.succ_eq_add_one, Nat.sub_add_cancel (Nat.pos_of_ne_zero some)]
    change (s.blks - 1) * cmd.blksz + cmd.blksz + _ = _
    omega
  · exact walk.inside
  · exact walk.counts
  · exact walk.moved
  · exact walk.same
  · intro equal
    obtain ⟨elements, this, -⟩ := walk.words equal
    exact ⟨elements, this, fun _ => by rw [Nat.sub_self]; exact dvd_zero 4⟩
  · intro words
    obtain ⟨equal, element, -⟩ := walk.whole words
    exact ⟨equal, element, words.blocks.resolve_left (by omega)⟩

/-! ## The whole transfer -/

/-- The elements are short enough for an `int`. -/
def Cmd.Short (cmd : Cmd) : Prop := ∀ sge ∈ cmd.sgl, sge.sg_count.toNat < 2 ^ 31

/-- A place in the list -/
def Walking (cmd : Cmd) (s : State) : Prop :=
  ∃ done cur rest left b, Walk cmd s done cur rest left b

/-- What is still to do, in passes -/
def togo (cmd : Cmd) (s : State) : Nat :=
  s.blks * (cmd.blksz + 2) + s.blksz.toNat + s.wspc.nsg.toNat

/-- How a pass ends -/
def Passes (cmd : Cmd) (s : State) : Pass State Result → Prop
  | .next t => Walking cmd t ∧ togo cmd t < togo cmd s
  | .leave r => (∀ i ∈ r.wspc.read, i < cmd.sgl.length) ∧
      (∀ burst ∈ r.port.bursts, 0 ≤ burst.words) ∧
      (r.status = EOK → r.port = s.port ∧ s.blks = 0 ∧ s.blksz = 0)

/-- `sdio_sg_nxt` finds a piece: what is left of this element, or of the next one. -/
theorem Walk.nxt (beyond : Nat → Sge) (walk : Walk cmd s done cur rest left b)
    (short : cmd.Short) (within : 0 < b) :
    ∃ w done' cur' rest' left', Walk cmd { s with wspc := w } done' cur' rest' left' b ∧
      sdio_sg_nxt (cmd.element beyond) s.wspc b =
        some (w.sga, ((min left' b : Nat) : Int), w.advance (min left' b : Nat)) ∧
      (w.nsg = s.wspc.nsg ∧ 0 < left' ∨ w.nsg = s.wspc.nsg - 1) := by
  have enough := walk.rest_eq
  have sgc := walk.sgc
  have nsg := walk.nsg
  rcases Nat.eq_zero_or_pos left with rfl | some
  · cases rest with
    | nil =>
      rw [List.map_nil, List.sum_nil] at enough
      omega
    | cons next rest =>
      have mem : next ∈ cmd.sgl := by
        rw [walk.list]
        simp
      rw [List.length_cons] at nsg
      have entered := walk.enter beyond (short next mem)
      have count := entered.sgc
      refine ⟨_, _, _, _, _, entered, ?_, Or.inr rfl⟩
      have len : min ((next.sg_count.toNat : Nat) : Int) b = (min next.sg_count.toNat b : Nat) := by
        omega
      unfold sdio_sg_nxt
      rw [if_neg (by omega), if_pos (by omega)]
      dsimp only at count ⊢
      rw [count, len]
  · refine ⟨s.wspc, done, cur, rest, left, walk, ?_, Or.inl ⟨rfl, some⟩⟩
    unfold sdio_sg_nxt
    rw [if_neg (by omega), if_neg (by omega)]
    dsimp only
    rw [show min s.wspc.sgc (b : Int) = (min left b : Nat) by omega]

theorem Walking.pass (beyond : Nat → Sge) (ready : Nat → Bool) (short : cmd.Short)
    (walking : Walking cmd s) :
    Passes cmd s (pass cmd beyond ready s) := by
  obtain ⟨done, cur, rest, left, b, walk⟩ := walking
  have blksz := walk.blksz
  unfold Pio.pass
  by_cases through : s.blksz = 0
  · rw [if_pos through]
    obtain rfl : b = 0 := by omega
    by_cases last : s.blks = 0
    · rw [if_pos last]
      exact ⟨walk.inside, walk.counts, fun _ => ⟨rfl, last, through⟩⟩
    · rw [if_neg last]
      refine ⟨⟨_, _, _, _, _, walk.block last⟩, ?_⟩
      unfold togo
      obtain ⟨k, round⟩ := Nat.exists_eq_succ_of_ne_zero last
      rw [through, round, Nat.succ_mul]
      dsimp only
      rw [Nat.succ_sub_one, Int.toNat_natCast, Int.toNat_zero]
      omega
  · rw [if_neg through]
    obtain ⟨w, done', cur', rest', left', entered, nxt, falls⟩ :=
      walk.nxt beyond short (by omega)
    rw [← blksz] at nxt
    rw [nxt]
    dsimp only
    obtain ⟨added, moves⟩ := s.port.moves ready w.sga (min left' b / 4 : Nat)
    rw [show ((min left' b : Nat) : Int).tdiv 4 = (min left' b / 4 : Nat) from rfl]
    generalize s.port.move ready w.sga (min left' b / 4 : Nat) = r at moves
    obtain ⟨ok, port⟩ := r
    cases ok with
    | false =>
      refine ⟨entered.inside, fun burst mem => ?_, ?_⟩
      · rw [show port.bursts = s.port.bursts ++ added from moves.bursts] at mem
        rcases List.mem_append.mp mem with old | new
        · exact walk.counts burst old
        · exact moves.counts (Int.natCast_nonneg _) burst new
      · exact fun fails => absurd (show ETIMEDOUT = EOK from fails) (by decide)
    | true =>
      have took := entered.take (Nat.min_le_left left' b) (Nat.min_le_right left' b) (by omega)
        moves
      refine ⟨⟨_, _, _, _, _, took⟩, ?_⟩
      have nsg := walk.nsg
      have nsg' := entered.nsg
      unfold togo
      dsimp only [Wspc.advance] at nsg' ⊢
      omega

theorem bytesOf_length (sgl : List Sge) :
    (bytesOf sgl).length = (sgl.map fun sge => sge.sg_count.toNat).sum := by
  unfold bytesOf
  exact length_flatMap_cells _ _ _

theorem bytesOf_empty {sgl : List Sge} (none : (sgl.map fun sge => sge.sg_count.toNat).sum = 0) :
    bytesOf sgl = [] :=
  List.length_eq_zero_iff.mp ((bytesOf_length sgl).trans none)

theorem Walk.end (walk : Walk cmd s done cur rest left b) (blks : s.blks = 0)
    (blksz : s.blksz = 0) :
    left = 0 ∧ (rest.map fun sge => sge.sg_count.toNat).sum = 0 ∧
      taken done cur left = (bytesOf cmd.sgl).length := by
  have enough := walk.rest_eq
  have total := walk.total
  have here := walk.blksz
  rw [blks, Nat.zero_mul] at enough total
  rw [bytesOf_length, cmd.whole]
  omega

theorem Walk.moved_eq (walk : Walk cmd s done cur rest left b) (blks : s.blks = 0)
    (blksz : s.blksz = 0) (equal : s.port.moved.length = taken done cur left) :
    s.port.moved = bytesOf cmd.sgl := by
  obtain ⟨rfl, none, -⟩ := walk.end blks blksz
  rw [walk.same equal, walk.list]
  have rest := bytesOf_empty none
  unfold bytesOf at rest ⊢
  rw [List.flatMap_append, List.flatMap_cons, rest, List.append_nil, Nat.sub_zero]

theorem Walk.words_of_moved (walk : Walk cmd s done cur rest left b) (blks : s.blks = 0)
    (blksz : s.blksz = 0) (moved : s.port.moved = bytesOf cmd.sgl) : cmd.Words := by
  obtain ⟨rfl, none, took⟩ := walk.end blks blksz
  have here := walk.blksz
  obtain ⟨elements, this, blocks⟩ := walk.words (by rw [moved, took])
  obtain rfl : b = 0 := by omega
  constructor
  · rcases Nat.eq_zero_or_pos cmd.blks with zero | some
    · exact Or.inl zero
    · exact Or.inr (blocks (by omega))
  · intro sge mem
    rw [walk.list] at mem
    rcases List.mem_append.mp mem with before | after
    · exact elements sge before
    · rcases List.mem_cons.mp after with rfl | behind
      · exact this
      · have zero := List.sum_eq_zero_iff.mp none _ (List.mem_map_of_mem behind)
        rw [zero]
        exact dvd_zero 4

end Walk

section Start

variable {cmd : Cmd} {beyond : Nat → Sge} {ready : Nat → Bool} {wspc : Wspc}

theorem start_walking (some : cmd.sgl ≠ []) (short : cmd.Short) :
    Walking cmd (start cmd beyond wspc) := by
  obtain ⟨sge, rest, list⟩ := List.exists_cons_of_ne_nil some
  have count := short sge (list ▸ List.mem_cons_self)
  have element : cmd.element beyond 0 = sge := by
    unfold Cmd.element
    rw [list]
    rfl
  have begun : start cmd beyond wspc =
      { blks := cmd.blks
        blksz := 0
        wspc := ⟨0, rest.length + 1, sge.sg_count.toInt, sge.sg_address, [0]⟩
        port := ⟨[], 0⟩ } := by
    unfold start sdio_sg_start
    rw [if_neg (by rw [list, List.length_cons]; omega)]
    unfold Wspc.enter
    rw [element, list]
    rfl
  have none : taken [] sge sge.sg_count.toNat = 0 := by
    unfold taken
    rw [Nat.sub_self]
    rfl
  refine ⟨[], sge, rest, sge.sg_count.toNat, 0, ?_⟩
  rw [begun]
  constructor
  · exact list
  · rfl
  · rfl
  · exact BitVec.toInt_eq_toNat_of_lt (by omega)
  · rw [Nat.sub_self]
    exact (BitVec.add_zero _).symm
  · rfl
  · exact le_rfl
  · exact Nat.zero_le _
  · exact le_rfl
  · rw [none]
    rfl
  · intro i mem
    rw [List.mem_singleton.mp mem, list]
    exact Nat.succ_pos _
  · exact fun burst mem => absurd mem List.not_mem_nil
  · exact Nat.zero_le _
  · intro _
    rw [Nat.sub_self]
    rfl
  · intro _
    refine ⟨fun _ mem => absurd mem List.not_mem_nil, ?_, fun fewer => absurd fewer (lt_irrefl _)⟩
    rw [Nat.sub_self]
    exact dvd_zero 4
  · intro words
    rw [none]
    exact ⟨rfl, words.elements sge (list ▸ List.mem_cons_self), dvd_zero 4⟩

theorem exists_leave (beyond : Nat → Sge) (wspc : Wspc) (some : cmd.sgl ≠ []) (short : cmd.Short)
    (ready : Nat → Bool) :
    ∃ r t, Ends (pass cmd beyond ready) (start cmd beyond wspc) r ∧ Walking cmd t ∧
      Passes cmd t (.leave r) := by
  have ended : ∃ r t, Ends (pass cmd beyond ready) (start cmd beyond wspc) r ∧ Walking cmd t ∧
      pass cmd beyond ready t = .leave r :=
    exists_ends_leave (togo cmd) (start_walking some short) fun {s t} walking here => by
      have passes := walking.pass beyond ready short
      rwa [here] at passes
  obtain ⟨r, t, ends, walking, left⟩ := ended
  have passes := walking.pass beyond ready short
  exact ⟨r, t, ends, walking, left ▸ passes⟩

/-- Blocks are left to be counted down, and nothing has been touched. -/
def Idle (cmd : Cmd) (s : State) : Prop :=
  s.blks ≤ cmd.blks ∧ s.blksz = 0 ∧ s.wspc.read = [] ∧ s.port = ⟨[], 0⟩

/-- A list without elements, at `NULL`, is not touched. -/
theorem empty_right (null : cmd.null = true) :
    ∃ r, Ends (pass cmd beyond ready) (start cmd beyond wspc) r ∧ r.Right cmd.sgl := by
  have empty := cmd.nullEmpty null
  have whole := cmd.whole
  rw [empty, List.map_nil, List.sum_nil] at whole
  have begun : start cmd beyond wspc = ⟨cmd.blks, 0, { wspc with read := [] }, ⟨[], 0⟩⟩ := by
    unfold start sdio_sg_start
    rw [if_pos ⟨by rw [empty]; rfl, null⟩]
  have idle : Idle cmd (start cmd beyond wspc) := by
    rw [begun]
    exact ⟨le_rfl, rfl, rfl, rfl⟩
  have falls : ∀ {s t}, Idle cmd s → pass cmd beyond ready s = .next t →
      Idle cmd t ∧ t.blks < s.blks := by
    rintro s t ⟨le, blksz, read, port⟩ here
    unfold pass at here
    rw [if_pos blksz] at here
    split at here
    · cases here
    · rename_i more
      obtain rfl := (Pass.next.inj here).symm
      refine ⟨⟨(Nat.sub_le _ _).trans le, ?_, read, port⟩, Nat.sub_lt (Nat.pos_of_ne_zero more)
        Nat.one_pos⟩
      rcases Nat.mul_eq_zero.mp whole.symm with none | none
      · omega
      · exact congrArg Nat.cast none
  obtain ⟨r, t, ends, ⟨-, blksz, read, port⟩, left⟩ := exists_ends_leave State.blks idle falls
  unfold pass at left
  rw [if_pos blksz] at left
  split at left
  · obtain rfl := (Pass.leave.inj left).symm
    refine ⟨_, ends, ?_, ?_, ?_⟩
    · exact fun i mem => absurd (read ▸ mem) List.not_mem_nil
    · rw [port]
      exact fun burst mem => absurd mem List.not_mem_nil
    · intro _
      rw [port, empty]
      rfl
  · cases left

theorem Cmd.Fits.right (fits : cmd.Fits) (ready : Nat → Bool) :
    ∃ r, Ends (pass cmd beyond ready) (start cmd beyond wspc) r ∧ r.Right cmd.sgl := by
  by_cases empty : cmd.sgl = []
  · exact empty_right (fits.list.resolve_left (fun some => some empty))
  · have short : cmd.Short := fun sge mem => (fits.elements sge mem).1
    have words : cmd.Words := ⟨fits.blocks, fun sge mem => (fits.elements sge mem).2⟩
    obtain ⟨r, t, ends, ⟨done, cur, rest, left, b, walk⟩, inside, counts, end_⟩ :=
      exists_leave beyond wspc empty short ready
    refine ⟨r, ends, inside, counts, fun ok => ?_⟩
    obtain ⟨port, blks, blksz⟩ := end_ ok
    rw [port]
    exact walk.moved_eq blks blksz (walk.whole words).1

/-! ## Elements too long for an `int` -/

/-- What an element counts for as an `int` -/
def pos (sge : Sge) : Nat := sge.sg_count.toInt.toNat

theorem pos_le (sge : Sge) : pos sge ≤ sge.sg_count.toNat := by
  unfold pos
  rw [BitVec.toInt_eq_toNat_cond]
  split <;> omega

theorem pos_lt {sge : Sge} (same : pos sge = sge.sg_count.toNat) : sge.sg_count.toNat < 2 ^ 31 := by
  unfold pos at same
  have bound := sge.sg_count.isLt
  rw [BitVec.toInt_eq_toNat_cond] at same
  split at same <;> omega

/-- Without negative counts no more is moved than the elements that are entered have. -/
structure Bounded (cmd : Cmd) (s : State) : Prop where
  sge : s.wspc.sge < cmd.sgl.length
  nsg : s.wspc.nsg = cmd.sgl.length - s.wspc.sge
  blksz : 0 ≤ s.blksz
  bound : (∀ burst ∈ s.port.bursts, 0 ≤ burst.words) →
    s.port.moved.length + s.wspc.sgc.toNat + ((cmd.sgl.drop (s.wspc.sge + 1)).map pos).sum ≤
      (cmd.sgl.map pos).sum

theorem Bounded.enter {s : State} (bounded : Bounded cmd s) (through : s.wspc.sgc = 0)
    (more : s.wspc.nsg ≠ 1) : Bounded cmd
      { s with wspc := s.wspc.enter (cmd.element beyond) (s.wspc.sge + 1) (s.wspc.nsg - 1) } := by
  have nsg := bounded.nsg
  have within : s.wspc.sge + 1 < cmd.sgl.length := by
    have := bounded.sge
    omega
  have element : cmd.element beyond (s.wspc.sge + 1) = cmd.sgl[s.wspc.sge + 1] := by
    unfold Cmd.element
    rw [List.getElem?_eq_getElem within]
    rfl
  constructor
  · exact within
  · simp only [Wspc.enter, nsg, Nat.cast_succ]
    omega
  · exact bounded.blksz
  · intro counts
    have bound := bounded.bound counts
    rw [through, List.drop_eq_getElem_cons within, List.map_cons, List.sum_cons] at bound
    simp only [Wspc.enter, element]
    unfold pos at bound ⊢
    omega

theorem Bounded.take {s : State} (bounded : Bounded cmd s) {port : Port} {added : List Burst}
    (moves : s.port.Moves s.wspc.sga ((min s.wspc.sgc s.blksz).tdiv 4) (true, port) added) :
    Bounded cmd
      { s with
        blksz := s.blksz - min s.wspc.sgc s.blksz
        wspc := s.wspc.advance (min s.wspc.sgc s.blksz)
        port := port } := by
  have blksz := bounded.blksz
  constructor
  · exact bounded.sge
  · exact bounded.nsg
  · dsimp only
    omega
  · intro counts
    have bursts : port.bursts = s.port.bursts ++ added := moves.bursts
    dsimp only [Wspc.advance] at counts ⊢
    rw [bursts] at counts
    have bound := bounded.bound fun burst mem => counts burst (List.mem_append_left _ mem)
    have words : 0 ≤ (min s.wspc.sgc s.blksz).tdiv 4 := by
      by_contra below
      obtain ⟨burst, mem, negative⟩ := moves.negative rfl (not_le.mp below)
      exact absurd (counts burst (List.mem_append_right _ mem)) (not_le.mpr negative)
    have length : port.moved.length =
        s.port.moved.length + 4 * ((min s.wspc.sgc s.blksz).tdiv 4).toNat := by
      have grown : port.moved = s.port.moved ++ added.flatMap Burst.cells := by
        unfold Port.moved
        rw [bursts, List.flatMap_append]
        rfl
      rw [grown, List.length_append, moves.cells rfl words, cells_length]
    rw [length]
    rcases le_or_gt 0 s.wspc.sgc with nonneg | negative
    · rw [Int.tdiv_eq_ediv_of_nonneg (le_min nonneg blksz)] at words ⊢
      omega
    · rw [min_eq_left (negative.le.trans blksz)] at words ⊢
      have back : 0 ≤ (-s.wspc.sgc).tdiv 4 := Int.tdiv_nonneg (by omega) (by decide)
      rw [Int.neg_tdiv] at back
      omega

theorem Bounded.nxt {s : State} (bounded : Bounded cmd s) {addr : BitVec 32} {len : Int}
    {wspc : Wspc}
    (nxt : sdio_sg_nxt (cmd.element beyond) s.wspc s.blksz = some (addr, len, wspc)) :
    ∃ w, Bounded cmd { s with wspc := w } ∧ addr = w.sga ∧ len = min w.sgc s.blksz ∧
      wspc = w.advance (min w.sgc s.blksz) := by
  unfold sdio_sg_nxt at nxt
  split at nxt
  · cases nxt
  · rename_i more
    cases nxt
    split
    · rename_i through
      exact ⟨_, bounded.enter through fun single => more ⟨single, through⟩, rfl, rfl, rfl⟩
    · exact ⟨s.wspc, bounded, rfl, rfl, rfl⟩

theorem Bounded.pass {s t : State} (bounded : Bounded cmd s)
    (here : pass cmd beyond ready s = .next t) : Bounded cmd t := by
  unfold Pio.pass at here
  split at here
  · split at here
    · cases here
    · cases here
      exact ⟨bounded.sge, bounded.nsg, Int.natCast_nonneg _, bounded.bound⟩
  · have blksz := bounded.blksz
    split at here
    · cases here
      exact ⟨bounded.sge, bounded.nsg, le_rfl, bounded.bound⟩
    · rename_i addr len wspc nxt
      obtain ⟨w, entered, rfl, rfl, rfl⟩ := bounded.nxt nxt
      obtain ⟨added, moves⟩ := s.port.moves ready w.sga ((min w.sgc s.blksz).tdiv 4)
      split at here
      · cases here
      · rename_i port move
        rw [move] at moves
        cases here
        exact entered.take moves

/-! ## What is read -/

theorem nxt_read {element : Nat → Sge} {w w' : Wspc} {blksz len : Int} {addr : BitVec 32} {i : Nat}
    (nxt : sdio_sg_nxt element w blksz = some (addr, len, w')) (mem : i ∈ w.read) :
    i ∈ w'.read := by
  unfold sdio_sg_nxt at nxt
  split at nxt
  · cases nxt
  · cases nxt
    dsimp only [Wspc.advance]
    split
    · exact List.mem_append_left _ mem
    · exact mem

/-- The walk after a pass -/
def reached : Pass State Result → Wspc
  | .next t => t.wspc
  | .leave r => r.wspc

theorem pass_read (cmd : Cmd) (beyond : Nat → Sge) (ready : Nat → Bool) {s : State} {i : Nat}
    (mem : i ∈ s.wspc.read) :
    i ∈ (reached (pass cmd beyond ready s)).read := by
  unfold pass
  split
  · split <;> exact mem
  · split
    · exact mem
    · rename_i nxt
      split <;> exact nxt_read nxt mem

/-! ## The lists that are moved -/

theorem list_of_inside {r : Result} (ends : Ends (pass cmd beyond ready) (start cmd beyond wspc) r)
    (inside : ∀ i ∈ r.wspc.read, i < cmd.sgl.length) : cmd.sgl ≠ [] ∨ cmd.null = true := by
  by_contra neither
  obtain ⟨empty, some⟩ := not_or.mp neither
  rw [not_not] at empty
  have first : 0 ∈ (start cmd beyond wspc).wspc.read := by
    unfold start sdio_sg_start
    rw [if_neg fun both => some both.2]
    exact List.mem_append_right _ (List.mem_singleton_self 0)
  obtain ⟨t, read, left⟩ := ends.leaves (I := fun s => 0 ∈ s.wspc.read) first fun mem here => by
    have stays := pass_read cmd beyond ready mem
    rwa [here] at stays
  have stays := pass_read cmd beyond ready read
  rw [left] at stays
  have below := inside 0 stays
  rw [empty] at below
  exact absurd below (lt_irrefl 0)

theorem start_bounded (some : cmd.sgl ≠ []) : Bounded cmd (start cmd beyond wspc) := by
  obtain ⟨sge, rest, list⟩ := List.exists_cons_of_ne_nil some
  have element : cmd.element beyond 0 = sge := by
    unfold Cmd.element
    rw [list]
    rfl
  unfold start sdio_sg_start
  rw [if_neg (by rw [list, List.length_cons]; omega)]
  constructor
  · rw [list]
    exact Nat.succ_pos _
  · simp only [Wspc.enter]
    omega
  · exact le_rfl
  · intro _
    dsimp only [Wspc.enter]
    rw [element, list]
    exact le_of_eq (Nat.zero_add _ ▸ rfl)

theorem leave_ready {t : State} {r : Result} (left : pass cmd beyond (fun _ => true) t = .leave r) :
    r.status = EOK ∧ r.port = t.port := by
  unfold pass at left
  split at left
  · split at left
    · cases left
      exact ⟨rfl, rfl⟩
    · cases left
  · split at left
    · cases left
    · rename_i addr len _ _
      split at left
      · rename_i move
        have ready := t.port.move_ready addr (len.tdiv 4)
        rw [move] at ready
        cases ready
      · cases left

theorem ends_ok {s : State} {r : Result} (ends : Ends (pass cmd beyond fun _ => true) s r) :
    r.status = EOK := by
  obtain ⟨t, -, left⟩ := ends.leaves (I := fun _ => True) trivial fun _ _ => trivial
  exact (leave_ready left).1

theorem pos_eq_of_sum {sgl : List Sge}
    (sum : (sgl.map fun sge => sge.sg_count.toNat).sum ≤ (sgl.map pos).sum) :
    ∀ sge ∈ sgl, pos sge = sge.sg_count.toNat := by
  induction sgl with
  | nil => exact fun _ mem => absurd mem List.not_mem_nil
  | cons sge sgl ih =>
    have rest : (sgl.map pos).sum ≤ (sgl.map fun sge => sge.sg_count.toNat).sum :=
      List.sum_le_sum fun sge _ => pos_le sge
    have first := pos_le sge
    rw [List.map_cons, List.map_cons, List.sum_cons, List.sum_cons] at sum
    intro sge' mem
    rcases List.mem_cons.mp mem with rfl | behind
    · omega
    · exact ih (by omega) sge' behind

theorem short_of_right {r : Result} (some : cmd.sgl ≠ [])
    (ends : Ends (pass cmd beyond fun _ => true) (start cmd beyond wspc) r)
    (right : r.Right cmd.sgl) : cmd.Short := by
  obtain ⟨t, bounded, left⟩ := ends.leaves (start_bounded some) Bounded.pass
  obtain ⟨ok, port⟩ := leave_ready left
  have moved := right.moves ok
  have counts := right.counts
  rw [port] at moved counts
  have bound := bounded.bound counts
  rw [moved, bytesOf_length] at bound
  exact fun sge mem => pos_lt (pos_eq_of_sum (by omega) sge mem)

theorem Cmd.fits_of_right
    (right : ∀ ready, ∃ r, Ends (pass cmd beyond ready) (start cmd beyond wspc) r ∧
      r.Right cmd.sgl) : cmd.Fits := by
  obtain ⟨r, ends, right⟩ := right fun _ => true
  have list := list_of_inside ends right.inside
  by_cases empty : cmd.sgl = []
  · have whole := cmd.whole
    rw [empty, List.map_nil, List.sum_nil] at whole
    refine ⟨list, ?_, fun sge mem => absurd (empty ▸ mem) List.not_mem_nil⟩
    rcases Nat.mul_eq_zero.mp whole.symm with none | none
    · exact Or.inl none
    · exact Or.inr (none ▸ dvd_zero 4)
  · have short := short_of_right empty ends right
    obtain ⟨r', t, ends', ⟨done, cur, rest, left, b, walk⟩, -, -, finish⟩ :=
      exists_leave beyond wspc empty short fun _ => true
    obtain rfl := ends.unique ends'
    have ok := ends_ok ends
    obtain ⟨port, blks, blksz⟩ := finish ok
    have words := walk.words_of_moved blks blksz (port ▸ right.moves ok)
    exact ⟨list, words.blocks, fun sge mem => ⟨short sge mem, words.elements sge mem⟩⟩

end Start

/-- However often and long the port is waited for, the transfer ends, keeps to the list and, unless
the port does not get ready, moves the bytes that DMA would move, exactly for a list of whole words
whose elements are short enough for an `int`. -/
theorem pio_xfer_iff (cmd : Cmd) (beyond : Nat → Sge) (wspc : Wspc) :
    (∀ ready, ∃ r, Ends (pass cmd beyond ready) (start cmd beyond wspc) r ∧ r.Right cmd.sgl) ↔
      cmd.Fits :=
  ⟨Cmd.fits_of_right, Cmd.Fits.right⟩

/-- The block of `_sdio_lock_unlock` for a password of four bytes: the operation, the length and
the password -/
def lockCmd : Cmd :=
  { blks := 1
    blksz := 6
    sgl := [⟨0x08050000, 6⟩]
    null := false
    blksInt := by decide
    blkszInt := by decide
    sgcInt := by decide
    nullEmpty := by decide
    whole := by decide }

/-- The last two bytes of the password are not sent. -/
theorem pio_xfer_lock :
    ¬ ∀ ready, ∃ r, Ends (pass lockCmd (fun _ => ⟨0, 0⟩) ready)
      (start lockCmd (fun _ => ⟨0, 0⟩) ⟨0, 0, 0, 0, []⟩) r ∧ r.Right lockCmd.sgl := by
  intro right
  have fits := Cmd.fits_of_right right
  exact absurd fits.blocks (by decide)

end Mx6xBsp.Sdmmc.Pio
