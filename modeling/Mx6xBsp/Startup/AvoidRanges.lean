import Mathlib.Data.List.TakeWhile
import Mx6xBsp.Startup.RamSafety

/-!
# The ranges of `avoid_ram`

`avoid_ram` keeps the end of a range in 32 bits, and an end of 0 marks the end
of the avoid list. A range that reaches the top of the address space therefore
ends the scan of the list, and one that reaches beyond it is kept with an end
below its start, which holds no candidate off. `Storage` is the allocator with a
record of the ranges it was told to avoid; the searches keep off all of them
exactly when no range has the end 0 and whatever part of the address space a
range with a wrapped end stands for is covered by ranges that do not wrap
(`honours_avoid`).
-/

namespace Mx6xBsp.Startup

open Runs

/-- The arguments of one call of `avoid_ram`. -/
structure AvoidRange where
  start : BitVec 32
  size : BitVec 32
deriving DecidableEq

/-- The entry `avoid_ram` stores. -/
def AvoidRange.entry (r : AvoidRange) : AvoidEntry := ⟨r.start.toNat, (r.start + r.size).toNat⟩

def AvoidRange.Contains (r : AvoidRange) (x : Nat) : Prop :=
  r.start.toNat ≤ x ∧ x < r.start.toNat + r.size.toNat

/-- The range ends at the top of the address space or beyond it. -/
def AvoidRange.Wraps (r : AvoidRange) : Prop := PADDR_SPACE ≤ r.start.toNat + r.size.toNat

instance {r : AvoidRange} : Decidable r.Wraps := inferInstanceAs (Decidable (_ ≤ _))

theorem AvoidRange.entry_eq (r : AvoidRange) :
    r.entry = ⟨r.start.toNat, paddr (r.start.toNat + r.size.toNat)⟩ := by
  rw [entry, BitVec.toNat_add]
  rfl

theorem AvoidRange.stop_of_not_wraps {r : AvoidRange} (whole : ¬r.Wraps) :
    r.entry.stop = r.start.toNat + r.size.toNat := by
  rw [r.entry_eq]
  exact paddr_of_lt (Nat.lt_of_not_le whole)

theorem AvoidRange.stop_of_wraps {r : AvoidRange} (wraps : r.Wraps) :
    r.entry.stop < r.entry.start := by
  have size := r.size.isLt
  have start := r.start.isLt
  rw [r.entry_eq]
  simp only [Wraps, paddr, PADDR_SPACE] at *
  omega

/-! ## The allocator and what it was told to avoid -/

/-- The allocator, with a record of what it was told and of what it gave out. -/
structure Storage where
  st : RamState
  /-- the ranges to avoid, in the order of their entries -/
  ranges : List AvoidRange
  /-- what `ws_alloc` returned -/
  working : Set Nat

inductive RamCall
  | addRam (start size : BitVec 32)
  | avoidRam (start size : BitVec 32)
  | allocRam (addr size align : BitVec 32)
  | wsAlloc (size : BitVec 32)

/-- The range `add_ram` registers for the temporary system page. -/
def tempRange (st st' : RamState) : List AvoidRange :=
  if st.tempSyspage = NULL_PADDR ∧ st'.tempSyspage ≠ NULL_PADDR then
    [⟨BitVec.ofNat 32 st'.tempSyspage, BitVec.ofNat 32 TEMP_SYSPAGE_SIZE⟩]
  else []

/-- The range `ws_alloc` registers for its block. -/
def wsRange (st : RamState) (size : Nat) : List AvoidRange :=
  match (wsAlloc st size).2 with
  | some addr => [⟨BitVec.ofNat 32 addr, BitVec.ofNat 32 (ROUND size 8)⟩]
  | none => []

/-- What `ws_alloc` returns: as many bytes as it was asked for. -/
def wsMemory (st : RamState) (size : Nat) : Set Nat :=
  {x | ∃ addr, (wsAlloc st size).2 = some addr ∧ addr ≤ x ∧ x < addr + size}

/-- A call that returns, what it registers and what it gives out. -/
def RamCall.Step (shdr : StartupHeader) (b : Storage) : RamCall → Storage → Prop
  | .addRam start size, b' =>
    ∃ st, Startup.addRam shdr b.st start.toNat size.toNat = .ok st ∧
      b' = { b with st := st, ranges := b.ranges ++ tempRange b.st st }
  | .avoidRam start size, b' =>
    b' = { b with st := Startup.avoidRam b.st start.toNat size.toNat,
                  ranges := b.ranges ++ [⟨start, size⟩] }
  | .allocRam addr size align, b' =>
    ∃ st got, Startup.allocRam b.st addr.toNat size.toNat align.toNat = .ok (st, got) ∧
      b' = { b with st := st }
  | .wsAlloc size, b' =>
    b' = { st := (Startup.wsAlloc b.st size.toNat).1,
           ranges := b.ranges ++ wsRange b.st size.toNat,
           working := b.working ∪ wsMemory b.st size.toNat }

/-- Where `ws_init` puts the avoid list. -/
def StartupHeader.avoidBase (shdr : StartupHeader) : Nat := ROUND (shdr.ramPaddr + shdr.ramSize) 8

/-- Where `ws_init` puts the free list. -/
def StartupHeader.ramBase (shdr : StartupHeader) : Nat :=
  paddr (shdr.avoidBase + MAX_AVOID_LIST_SIZE)

/-- The ranges of `ws_init`: the two tables and the startup program. -/
def StartupHeader.ranges (shdr : StartupHeader) : List AvoidRange :=
  [⟨BitVec.ofNat 32 shdr.avoidBase, BitVec.ofNat 32 MAX_AVOID_LIST_SIZE⟩,
    ⟨BitVec.ofNat 32 shdr.ramBase, BitVec.ofNat 32 MAX_RAM_LIST_SIZE⟩,
    ⟨BitVec.ofNat 32 shdr.ramPaddr, BitVec.ofNat 32 shdr.startupSize⟩]

/-- `ws_init` has run. -/
def Storage.start (shdr : StartupHeader) (secureSystem : Bool) (asinfo : Asinfo) (mem : Mem) :
    Storage :=
  { st := wsInit shdr secureSystem asinfo mem, ranges := shdr.ranges, working := ∅ }

/-- The fields of the startup header are 32 bits wide. -/
structure StartupHeader.Wide (shdr : StartupHeader) : Prop where
  ramPaddr : shdr.ramPaddr < PADDR_SPACE
  startupSize : shdr.startupSize < PADDR_SPACE

/-! ## The avoid list is the record -/

/-- The avoid list that holds the ranges. -/
def avoidTable (ranges : List AvoidRange) : List AvoidEntry :=
  ranges.map AvoidRange.entry ++ [⟨0, 0⟩]

theorem avoidRam_table {st : RamState} {ranges : List AvoidRange} {start size : Nat}
    (table : st.avoidList = avoidTable ranges) (low : start < PADDR_SPACE)
    (small : size < PADDR_SPACE) :
    (avoidRam st start size).avoidList =
      avoidTable (ranges ++ [⟨BitVec.ofNat 32 start, BitVec.ofNat 32 size⟩]) := by
  have start' : (BitVec.ofNat 32 start).toNat = start := Nat.mod_eq_of_lt low
  have size' : (BitVec.ofNat 32 size).toNat = size := Nat.mod_eq_of_lt small
  simp only [avoidRam, table, avoidTable, List.dropLast_concat, List.map_append, List.map_cons,
    List.map_nil, AvoidRange.entry_eq, start', size', List.append_assoc, List.cons_append,
    List.nil_append]

theorem ROUND_lt (x a : Nat) : ROUND x a < PADDR_SPACE := (TRUNC_le _ _).trans_lt (paddr_lt _)

/-- What every run of the calls keeps. -/
structure Storage.Recorded (b : Storage) : Prop where
  table : b.st.avoidList = avoidTable b.ranges
  early : b.st.wsEarlyNext < PADDR_SPACE

theorem Storage.Recorded.start {shdr : StartupHeader} {secureSystem : Bool} {asinfo : Asinfo}
    {mem : Mem} (wide : shdr.Wide) : (Storage.start shdr secureSystem asinfo mem).Recorded := by
  have first : ROUND MAX_AVOID_LIST_SIZE 8 = MAX_AVOID_LIST_SIZE := by decide
  have second : ROUND MAX_RAM_LIST_SIZE 8 = MAX_RAM_LIST_SIZE := by decide
  have base : (BitVec.ofNat 32 shdr.avoidBase).toNat = shdr.avoidBase :=
    Nat.mod_eq_of_lt (ROUND_lt _ _)
  have base' : (BitVec.ofNat 32 shdr.ramBase).toNat = shdr.ramBase :=
    Nat.mod_eq_of_lt (paddr_lt _)
  have image : (BitVec.ofNat 32 shdr.ramPaddr).toNat = shdr.ramPaddr :=
    Nat.mod_eq_of_lt wide.ramPaddr
  have startup : (BitVec.ofNat 32 shdr.startupSize).toNat = shdr.startupSize :=
    Nat.mod_eq_of_lt wide.startupSize
  have avoidSize : (BitVec.ofNat 32 MAX_AVOID_LIST_SIZE).toNat = MAX_AVOID_LIST_SIZE := rfl
  have ramSize : (BitVec.ofNat 32 MAX_RAM_LIST_SIZE).toNat = MAX_RAM_LIST_SIZE := rfl
  refine ⟨?_, ?_⟩
  · simp only [Storage.start, StartupHeader.ranges, avoidTable, List.map_cons, List.map_nil,
      AvoidRange.entry_eq, base, base', image, startup, avoidSize, ramSize]
    simp [wsInit, wsAlloc, avoidRam, first, second, StartupHeader.avoidBase, StartupHeader.ramBase]
  · simp only [Storage.start, wsInit, wsAlloc, avoidRam, List.length_nil]
    exact paddr_lt _

theorem findRam_paddr {st : RamState} {size align colour mask : Nat}
    (found : findRam st size align colour mask ≠ NULL_PADDR) :
    findRam st size align colour mask < PADDR_SPACE :=
  (Nat.le_add_right _ _).trans_lt (findRam_lt found)

/-- What `add_ram` registers in its last lines is what the record says. -/
theorem findTempSyspage_table {st : RamState} {ranges : List AvoidRange}
    (table : st.avoidList = avoidTable ranges) :
    (findTempSyspage st).avoidList = avoidTable (ranges ++ tempRange st (findTempSyspage st)) ∧
      (findTempSyspage st).wsEarlyNext = st.wsEarlyNext := by
  unfold findTempSyspage
  by_cases unset : st.tempSyspage = NULL_PADDR
  · rw [if_pos unset]
    by_cases found : findRam st TEMP_SYSPAGE_SIZE PAGESIZE 0 0 = NULL_PADDR
    · simp [tempRange, unset, found, table]
    · simp only [found, ne_eq, not_false_eq_true, if_true]
      refine ⟨?_, rfl⟩
      rw [tempRange, if_pos ⟨unset, found⟩]
      exact avoidRam_table table (findRam_paddr found) (by decide)
  · simp [tempRange, unset, table]

theorem wsAlloc_table {st : RamState} {ranges : List AvoidRange} {size : Nat}
    (table : st.avoidList = avoidTable ranges) (early : st.wsEarlyNext < PADDR_SPACE) :
    (wsAlloc st size).1.avoidList = avoidTable (ranges ++ wsRange st size) ∧
      (wsAlloc st size).1.wsEarlyNext < PADDR_SPACE := by
  unfold wsRange wsAlloc
  by_cases exhausted : 16 * st.ramList.length ≤ 16
  · simp only [exhausted, if_true]
    exact ⟨avoidRam_table table early (ROUND_lt _ _), paddr_lt _⟩
  · simp only [exhausted, if_false]
    by_cases missing : findRam st (ROUND size 8) 8 0 0 = NULL_PADDR
    · simp [missing, table, early]
    · simp only [missing, if_false]
      exact ⟨avoidRam_table table (findRam_paddr missing) (ROUND_lt _ _), early⟩

theorem Storage.Recorded.step {shdr : StartupHeader} {b b' : Storage} {call : RamCall}
    (rec : b.Recorded) (step : call.Step shdr b b') : b'.Recorded := by
  obtain ⟨table, early⟩ := rec
  cases call with
  | addRam start size =>
    obtain ⟨st, added, rfl⟩ := step
    obtain ⟨mid, memory, added⟩ := Except.bind_eq_ok.mp added
    cases added
    obtain ⟨ram, asinfo, mem, rfl⟩ := addRamMemory_frame memory
    obtain ⟨table', early'⟩ := @findTempSyspage_table
      { b.st with ramList := ram, asinfo := asinfo, mem := mem } _ table
    exact ⟨table', early'.trans_lt early⟩
  | avoidRam start size =>
    subst step
    refine ⟨?_, early⟩
    have stored := avoidRam_table table start.isLt size.isLt
    simpa only [BitVec.ofNat_toNat, BitVec.setWidth_eq] using stored
  | allocRam addr size align =>
    obtain ⟨st, got, taken, rfl⟩ := step
    obtain ⟨ram, asinfo, mem, rfl⟩ := allocRam_frame taken
    exact ⟨table, early⟩
  | wsAlloc size =>
    subst step
    obtain ⟨table', early'⟩ := @wsAlloc_table _ _ size.toNat table early
    exact ⟨table', early'⟩

/-! ## Searches -/

inductive Search
  | findRam (size align colour mask : BitVec 32)
  | findRamInRange (rangeStart rangeEnd size align colour mask : BitVec 32)
  | findTopRamAligned (size align pagesize : BitVec 32)

def Search.size : Search → Nat
  | .findRam size _ _ _ => size.toNat
  | .findRamInRange _ _ size _ _ _ => size.toNat
  | .findTopRamAligned size _ _ => size.toNat

def Search.result (st : RamState) : Search → Nat
  | .findRam size align colour mask =>
    Startup.findRam st size.toNat align.toNat colour.toNat mask.toNat
  | .findRamInRange rangeStart rangeEnd size align colour mask =>
    Startup.findRamInRange st.avoidList rangeStart.toNat rangeEnd.toNat size.toNat align.toNat
      colour.toNat mask.toNat st.ramList
  | .findTopRamAligned size align pagesize =>
    Startup.findTopRamAligned st.ramList st.avoidList size.toNat align.toNat pagesize.toNat

/-- The search rounds nothing past the top of the address space. -/
def Search.NoWrap (st : RamState) : Search → Prop
  | .findRam size align colour mask =>
    st.SearchNoWrap size.toNat align.toNat colour.toNat mask.toNat
  | .findRamInRange rangeStart rangeEnd size align colour mask =>
    SearchNoWrap st.avoidList rangeStart.toNat rangeEnd.toNat size.toNat align.toNat
      colour.toNat mask.toNat st.ramList
  | .findTopRamAligned size _ pagesize => size.toNat + paddrSub pagesize.toNat 1 < PADDR_SPACE

theorem Search.fits {st : RamState} {search : Search} (calm : search.NoWrap st)
    (found : search.result st ≠ NULL_PADDR) :
    Fits st.ramList st.avoidList (search.result st) search.size := by
  cases search with
  | findRam size align colour mask => exact findRam_fits calm mask.isLt found
  | findRamInRange rangeStart rangeEnd size align colour mask =>
    exact findRamInRange_fits calm mask.isLt rfl found
  | findTopRamAligned size align pagesize =>
    exact (findTopRamAligned_fits found).mono (le_ROUND calm)

theorem fixAvoided_of_misses {avoid : List AvoidEntry} {s e : Nat}
    (misses : ∀ a ∈ avoid, a.stop ≤ s ∨ e ≤ a.start) : fixAvoided avoid s e = some (s, e) := by
  induction avoid with
  | nil => rfl
  | cons a rest ih =>
    have kept : fixSize s e a.start a.stop = some (s, e) :=
      if_pos (misses a List.mem_cons_self)
    rw [fixAvoided, kept]
    split_ifs
    · rfl
    · exact ih fun a mem => misses a (List.mem_cons_of_mem _ mem)

theorem ROUND_one {x : Nat} (low : x < PADDR_SPACE) : ROUND x 1 = x := by
  have rounded := @ROUND_two_pow x 0 (by decide) (by simpa using low)
  simpa [Nat.mod_one] using rounded

theorem oneBlock_found {avoid : List AvoidEntry} {x n : Nat} (low : x < PADDR_SPACE) (pos : 0 < n)
    (misses : ∀ a ∈ avoid, a.stop ≤ x ∨ x + n ≤ a.start) :
    findRamInRange avoid 0 0 n 1 0 0 [⟨x, n⟩] = x ∧ SearchNoWrap avoid 0 0 n 1 0 0 [⟨x, n⟩] := by
  have fixed := fixAvoided_of_misses misses
  have rounded := ROUND_one low
  have pred : paddrSub 1 1 = 0 := by decide
  have aligned : alignColour x 1 0 0 = x := by simp [alignColour, rounded]
  have placed : placeInRange 0 0 n 1 0 0 x (x + n) = some x := by
    simp [placeInRange, aligned]
    omega
  constructor
  · rw [findRamInRange, if_neg (by simpa using pos.ne'), fixed]
    simp only [placed]
  · refine Or.inr ?_
    simp only [fixed, placed]
    refine ⟨⟨?_, Or.inl (by simp)⟩, by simp⟩
    rw [pred]
    exact low

/-! ## When all ranges are honoured -/

/-- The scan of the avoid list reaches every range, and no later search returns
a block that meets one. -/
structure Storage.Honours (b : Storage) : Prop where
  scan : heeded b.st.avoidList = b.ranges.map AvoidRange.entry
  searches : ∀ later : RamState, later.avoidList = b.st.avoidList →
    (∀ r ∈ later.ramList, r.addr + r.size ≤ PADDR_SPACE) →
    ∀ search : Search, search.NoWrap later → search.result later ≠ NULL_PADDR →
    ∀ r ∈ b.ranges, ∀ x, r.Contains x →
      ¬(search.result later ≤ x ∧ x < search.result later + search.size)

/-- The addresses from `start` on are covered by ranges that do not wrap, up to
the last but one, and one of these ends there. -/
def CoversTop (ranges : List AvoidRange) (start : Nat) : Prop :=
  (∀ x, start ≤ x → x < NULL_PADDR → ∃ r ∈ ranges, ¬r.Wraps ∧ r.Contains x) ∧
    ∃ r ∈ ranges, ¬r.Wraps ∧ r.start.toNat + r.size.toNat = NULL_PADDR

/-- The end of the range is not stored as 0, and if the range wraps, others cover it. -/
def AvoidRange.Kept (ranges : List AvoidRange) (r : AvoidRange) : Prop :=
  r.start + r.size ≠ 0 ∧ (r.Wraps → CoversTop ranges r.start.toNat)

theorem kept_of_whole {ranges : List AvoidRange}
    (whole : ∀ r ∈ ranges, r.start + r.size ≠ 0 ∧ ¬r.Wraps) : ∀ r ∈ ranges, r.Kept ranges :=
  fun r mem => ⟨(whole r mem).1, fun wraps => absurd wraps (whole r mem).2⟩

/-- The scan reaches all ranges if no end is stored as the mark of the end of the list. -/
theorem heeded_table {ranges : List AvoidRange} :
    heeded (avoidTable ranges) = ranges.map AvoidRange.entry ↔
      ∀ r ∈ ranges, r.start + r.size ≠ 0 := by
  have stored : ∀ r : AvoidRange, r.entry.stop = 0 ↔ r.start + r.size = 0 := by
    intro r
    exact BitVec.toNat_eq_nat.trans ⟨fun h => h.2.symm ▸ rfl, fun h => by simp [h]⟩
  constructor
  · intro scan r mem zero
    have member : r.entry ∈ heeded (avoidTable ranges) := scan ▸ List.mem_map_of_mem mem
    have nonzero := List.mem_takeWhile_imp member
    simp [(stored r).mpr zero] at nonzero
  · intro nonzero
    unfold heeded avoidTable
    rw [List.takeWhile_append_of_pos]
    · simp
    · intro a mem
      obtain ⟨r, inside, rfl⟩ := List.mem_map.mp mem
      simpa [stored] using nonzero r inside

/-- When all is honoured, a block that misses what the entries say misses every range. -/
theorem Storage.Honours.oneBlock {b : Storage} {x : Nat} {n : BitVec 32} (honours : b.Honours)
    (rec : b.Recorded) (low : x < NULL_PADDR) (pos : 0 < n.toNat) (fits : x + n.toNat ≤ PADDR_SPACE)
    (misses : ∀ r ∈ b.ranges, r.entry.stop ≤ x ∨ x + n.toNat ≤ r.entry.start) :
    ∀ r ∈ b.ranges, ∀ y, r.Contains y → ¬(x ≤ y ∧ y < x + n.toNat) := by
  have missed : ∀ a ∈ b.st.avoidList, a.stop ≤ x ∨ x + n.toNat ≤ a.start := by
    rw [rec.table]
    refine List.forall_mem_append.mpr ⟨List.forall_mem_map.mpr misses, ?_⟩
    exact List.forall_mem_singleton.mpr (Or.inl (Nat.zero_le x))
  obtain ⟨found, calm⟩ := oneBlock_found (low.trans (by decide)) pos missed
  have searched := honours.searches { b.st with ramList := [⟨x, n.toNat⟩] } rfl
    (List.forall_mem_singleton.mpr fits) (.findRamInRange 0 0 n 1 0 0) calm
  have result : (Search.findRamInRange 0 0 n 1 0 0).result
      { b.st with ramList := [⟨x, n.toNat⟩] } = x := found
  rw [result] at searched
  exact searched low.ne

theorem AvoidRange.misses_byte {r : AvoidRange} {x : Nat} (outside : ¬r.Wraps → ¬r.Contains x) :
    r.entry.stop ≤ x ∨ x + 1 ≤ r.entry.start := by
  by_cases wraps : r.Wraps
  · have backwards := r.stop_of_wraps wraps
    omega
  · have stop := r.stop_of_not_wraps wraps
    have apart := outside wraps
    simp only [Contains, entry] at *
    omega

/-- If no range that does not wrap ends right below the last address, no entry
holds the block of the last two addresses off. -/
theorem AvoidRange.misses_top {r : AvoidRange}
    (open_ : ¬r.Wraps → r.start.toNat + r.size.toNat ≠ NULL_PADDR) :
    r.entry.stop ≤ NULL_PADDR - 1 := by
  by_cases wraps : r.Wraps
  · have backwards := r.stop_of_wraps wraps
    have wide : r.entry.start < 4294967296 := r.start.isLt
    simp only [NULL_PADDR]
    omega
  · have stop := r.stop_of_not_wraps wraps
    have ends := open_ wraps
    simp only [Wraps, NULL_PADDR, PADDR_SPACE] at *
    omega

/-- A range that wraps is honoured only if others cover the top of the address space. -/
theorem Storage.Honours.coversTop {b : Storage} {r : AvoidRange} (honours : b.Honours)
    (rec : b.Recorded) (mem : r ∈ b.ranges) (wraps : r.Wraps) :
    CoversTop b.ranges r.start.toNat := by
  have wide : r.start.toNat < 4294967296 := r.start.isLt
  have reaches : 4294967296 ≤ r.start.toNat + r.size.toNat := wraps
  have null : NULL_PADDR = 4294967295 := rfl
  have covers : ∀ x, r.start.toNat ≤ x → x < NULL_PADDR →
      ∃ q ∈ b.ranges, ¬q.Wraps ∧ q.Contains x := by
    intro x above below
    by_contra uncovered
    have fits : x + (1#32).toNat ≤ PADDR_SPACE := by
      simp only [PADDR_SPACE, BitVec.toNat_ofNat]
      omega
    have misses : ∀ q ∈ b.ranges, q.entry.stop ≤ x ∨ x + (1#32).toNat ≤ q.entry.start :=
      fun q known => q.misses_byte fun whole inside => uncovered ⟨q, known, whole, inside⟩
    exact honours.oneBlock rec below (by decide) fits misses r mem x ⟨above, by omega⟩
      ⟨le_rfl, Nat.lt_succ_self x⟩
  refine ⟨covers, ?_⟩
  by_contra unended
  have misses : ∀ q ∈ b.ranges,
      q.entry.stop ≤ NULL_PADDR - 1 ∨ NULL_PADDR - 1 + (2#32).toNat ≤ q.entry.start :=
    fun q known => Or.inl (q.misses_top fun whole ends => unended ⟨q, known, whole, ends⟩)
  by_cases last : r.start.toNat = NULL_PADDR
  · exact honours.oneBlock rec (by decide) (by decide) (by decide) misses r mem NULL_PADDR
      ⟨last.le, by omega⟩ ⟨by decide, by decide⟩
  · obtain ⟨q, known, whole, inside⟩ := covers (NULL_PADDR - 1) (by omega) (by omega)
    refine unended ⟨q, known, whole, ?_⟩
    simp only [AvoidRange.Wraps, AvoidRange.Contains, PADDR_SPACE] at whole inside
    omega

/-- What a search returns misses every range that does not wrap, and so the rest
of the top of the address space if these cover it. -/
theorem honours_of_kept {b : Storage} (rec : b.Recorded)
    (kept : ∀ r ∈ b.ranges, r.Kept b.ranges) : b.Honours := by
  have scan : heeded b.st.avoidList = b.ranges.map AvoidRange.entry := by
    rw [rec.table]
    exact heeded_table.mpr fun r mem => (kept r mem).1
  refine ⟨scan, ?_⟩
  rintro later avoid space search calm found r mem x ⟨left, right⟩ ⟨low, high⟩
  have fits := search.fits calm found
  rw [avoid] at fits
  have avoids : ∀ q ∈ b.ranges, ¬q.Wraps → search.result later + search.size ≤ q.start.toNat ∨
      q.start.toNat + q.size.toNat ≤ search.result later := by
    intro q known whole
    have missed := fits.avoids q.entry (scan ▸ List.mem_map_of_mem known)
    rwa [AvoidRange.stop_of_not_wraps whole] at missed
  by_cases wraps : r.Wraps
  · obtain ⟨covers, q, known, whole, ends⟩ := (kept r mem).2 wraps
    obtain ⟨entry, live, _, inEntry⟩ := fits.entry
    have top := space entry ((List.takeWhile_sublist _).subset live)
    by_cases last : x < NULL_PADDR
    · obtain ⟨q', known', whole', inside⟩ := covers x left last
      have missed := avoids q' known' whole'
      obtain ⟨low', high'⟩ := inside
      omega
    · have missed := avoids q known whole
      simp only [PADDR_SPACE, NULL_PADDR] at *
      omega
  · have missed := avoids r mem wraps
    omega

theorem honours_iff {b : Storage} (rec : b.Recorded) :
    b.Honours ↔ ∀ r ∈ b.ranges, r.Kept b.ranges := by
  refine ⟨fun honours r mem => ⟨?_, honours.coversTop rec mem⟩, honours_of_kept rec⟩
  have scan := honours.scan
  rw [rec.table] at scan
  exact heeded_table.mp scan r mem

/-- A call that returns and leaves the avoid list, terminator included, inside the
bytes reserved for it. -/
def RamCall.Stored (shdr : StartupHeader) (b : Storage) (call : RamCall) (b' : Storage) : Prop :=
  call.Step shdr b b' ∧ 8 * b'.st.avoidList.length ≤ MAX_AVOID_LIST_SIZE

/-- After every sequence of calls the scan reaches all ranges and the searches keep
off them exactly if each range is kept whole or covered by others. -/
theorem honours_avoid {shdr : StartupHeader} {secureSystem : Bool} {asinfo : Asinfo} {mem : Mem}
    {calls : List RamCall} {b : Storage} (wide : shdr.Wide)
    (run : Run (RamCall.Stored shdr) (Storage.start shdr secureSystem asinfo mem) calls b) :
    b.Honours ↔ ∀ r ∈ b.ranges, r.Kept b.ranges :=
  honours_iff (run.invariant (I := Storage.Recorded) (fun rec step => rec.step step.1)
    (Storage.Recorded.start wide))

/-- A small board without memory yet. -/
def smallStorage : Storage := Storage.start smallHeader false ⟨[], 100⟩ fun _ => 0

/-- A range with memory on both sides of it, and one that ends at the last address. -/
theorem honours_avoid_small :
    ∃ b, Run (RamCall.Stored smallHeader) smallStorage
      [.avoidRam 0xfffff000 0xfff, .addRam 0x10003000 0x3000, .avoidRam 0x10004000 0x1000] b ∧
      b.Honours := by
  have run : Run (RamCall.Stored smallHeader) smallStorage
      [.avoidRam 0xfffff000 0xfff, .addRam 0x10003000 0x3000, .avoidRam 0x10004000 0x1000] _ :=
    .cons ⟨rfl, by decide⟩ (.cons ⟨⟨_, rfl, rfl⟩, by decide⟩ (.cons ⟨rfl, by decide⟩ .nil))
  exact ⟨_, run, (honours_avoid ⟨by decide, by decide⟩ run).mpr (kept_of_whole (by decide))⟩

/-- With the last page of the address space registered, the range behind it is not seen. -/
theorem avoid_top_lost :
    ∃ b, Run (RamCall.Stored smallHeader) smallStorage
      [.avoidRam 0xfffff000 0x1000, .avoidRam 0x10003000 0x1000, .addRam 0x10003000 0x2000] b ∧
      (Search.findRam 0x1000 0x1000 0 0).result b.st = 0x10003000 ∧ ¬b.Honours := by
  have run : Run (RamCall.Stored smallHeader) smallStorage
      [.avoidRam 0xfffff000 0x1000, .avoidRam 0x10003000 0x1000, .addRam 0x10003000 0x2000] _ :=
    .cons ⟨rfl, by decide⟩ (.cons ⟨rfl, by decide⟩ (.cons ⟨⟨_, rfl, rfl⟩, by decide⟩ .nil))
  refine ⟨_, run, by decide, fun honours => ?_⟩
  exact honours.searches _ rfl (by decide) (.findRam 0x1000 0x1000 0 0)
    (Or.inr ⟨by decide, fun missed => nomatch missed⟩) (by decide) ⟨0x10003000, 0x1000⟩ (by decide)
    0x10003000 ⟨by decide, by decide⟩ ⟨by decide, by decide⟩

end Mx6xBsp.Startup
