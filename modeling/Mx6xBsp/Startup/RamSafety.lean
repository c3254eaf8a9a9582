import Mx6xBsp.Startup.RamCalls

/-!
# Safety of the allocator over a boot

A boot is the state of `ram.c` with a record of what its calls have given out:
the memory added, the working storage, and every block of `alloc_ram` with the
ranges that were registered when it was handed out (`Boot`). A run in which
`ws_alloc` falls back to the early area only before memory is added, and in
which no range with the end 0 is registered, hands out blocks that are safe in
every state it reaches (`boot_safe`). Without these two conditions it need not
(`boot_unsafe`).
-/

namespace Mx6xBsp.Startup

open Spans Runs

/-- The ranges `avoid_ram` has registered, also those behind an early terminator. -/
def registered (avoid : List AvoidEntry) : Set Nat :=
  {x | ∃ a ∈ avoid, a.start ≤ x ∧ x < a.stop}

/-- A block of `alloc_ram` and the ranges registered when it was handed out. -/
structure Block where
  start : Nat
  size : Nat
  avoided : Set Nat

def Block.toSet (b : Block) : Set Nat := Set.Ico b.start (b.start + b.size)

structure Boot where
  st : RamState
  /-- what `add_ram` was given -/
  added : Set Nat
  /-- what `ws_alloc` returned -/
  working : Set Nat
  blocks : List Block

/-- The addresses handed out by `alloc_ram`. -/
def Boot.handed (b : Boot) : Set Nat := {x | ∃ blk ∈ b.blocks, x ∈ blk.toSet}

structure Boot.Safe (b : Boot) : Prop where
  apart : b.blocks.Pairwise fun p q => Disjoint p.toSet q.toSet
  added : ∀ blk ∈ b.blocks, blk.toSet ⊆ b.added
  avoided : ∀ blk ∈ b.blocks, Disjoint blk.toSet blk.avoided
  working : ∀ blk ∈ b.blocks, Disjoint blk.toSet b.working

/-! ## The calls of a boot -/

inductive BootCall
  | addRam (start size : Nat)
  | avoidRam (start size : Nat)
  | wsAlloc (size : Nat)
  /-- `find_ram_in_range`, of which `find_ram` is a case, and `alloc_ram` of what it found -/
  | findAlloc (rangeStart rangeEnd size align colour mask : Nat)
  /-- `find_top_ram_aligned`, of which `find_top_ram` is a case, and `alloc_ram` of what it found -/
  | topAlloc (size align pagesize : Nat)
  /-- `alloc_ram(NULL_PADDR, size, align)` -/
  | allocRam (size align : Nat)
  | reserveRam (size align pagesize : Nat)

/-- The boot after `alloc_ram` handed out `[start, start + size)` and left `st`. -/
def Boot.hand (b : Boot) (st : RamState) (start size : Nat) : Boot :=
  { b with st := st, blocks := ⟨start, size, registered b.st.avoidList⟩ :: b.blocks }

/-- What `ws_alloc` returned, if anything. -/
def wsBlock (st : RamState) (size : Nat) : Set Nat :=
  {x | ∃ addr, (wsAlloc st size).2 = some addr ∧ addr ≤ x ∧ x < addr + ROUND size 8}

/-- A call that returns, and what it gives out. -/
def BootCall.Step (shdr : StartupHeader) (b : Boot) : BootCall → Boot → Prop
  | .addRam start size, b' =>
    ∃ st, Startup.addRam shdr b.st start size = .ok st ∧
      b' = { b with st := st, added := b.added ∪ Set.Ico start (start + size) }
  | .avoidRam start size, b' => b' = { b with st := Startup.avoidRam b.st start size }
  | .wsAlloc size, b' =>
    b' = { b with st := (Startup.wsAlloc b.st size).1, working := b.working ∪ wsBlock b.st size }
  | .findAlloc rangeStart rangeEnd size align colour mask, b' =>
    let addr := findRamInRange b.st.avoidList rangeStart rangeEnd size align colour mask
      b.st.ramList
    if addr = NULL_PADDR then b' = b
    else ∃ st, Startup.allocRam b.st addr size align = .ok (st, addr) ∧ b' = b.hand st addr size
  | .topAlloc size align pagesize, b' =>
    let addr := findTopRamAligned b.st.ramList b.st.avoidList size align pagesize
    if addr = NULL_PADDR then b' = b
    else ∃ st, Startup.allocRam b.st addr size align = .ok (st, addr) ∧ b' = b.hand st addr size
  | .allocRam size align, b' =>
    ∃ st addr, Startup.allocRam b.st NULL_PADDR size align = .ok (st, addr) ∧
      b' = if addr = NULL_PADDR then b else b.hand st addr size
  | .reserveRam size align pagesize, b' =>
    ∃ st, Startup.reserveRam b.st size align pagesize = .ok st ∧
      b' = if size = 0 then b else b.hand st (reserveTarget b.st size align pagesize) size

/-- Room for one more range; `avoid_ram` does not look. -/
def Boot.AvoidRoom (b : Boot) : Prop := 8 * b.st.avoidList.length < MAX_AVOID_LIST_SIZE

/-- No table overflows, no address computation wraps, and `add_ram` is not given
memory that `alloc_ram` has handed out. -/
def BootCall.InDomain (b : Boot) : BootCall → Prop
  | .addRam start size =>
    start + size ≤ PADDR_SPACE ∧ Disjoint (Set.Ico start (start + size)) b.handed ∧
      b.AvoidRoom
  | .avoidRam start size => start + size < PADDR_SPACE ∧ b.AvoidRoom
  | .wsAlloc size =>
    size + 7 < PADDR_SPACE ∧ b.AvoidRoom ∧
      if 16 * b.st.ramList.length ≤ 16 then b.st.wsEarlyNext + ROUND size 8 < PADDR_SPACE
      else b.st.SearchNoWrap (ROUND size 8) 8 0 0
  | .findAlloc rangeStart rangeEnd size align colour mask =>
    mask < PADDR_SPACE ∧
      SearchNoWrap b.st.avoidList rangeStart rangeEnd size align colour mask b.st.ramList ∧
      let addr := findRamInRange b.st.avoidList rangeStart rangeEnd size align colour mask
        b.st.ramList
      (addr = NULL_PADDR ∨ addr + size < PADDR_SPACE)
  | .topAlloc size align pagesize =>
    size + paddrSub pagesize 1 < PADDR_SPACE ∧
      let addr := findTopRamAligned b.st.ramList b.st.avoidList size align pagesize
      (addr = NULL_PADDR ∨ addr + size < PADDR_SPACE)
  | .allocRam size align => 0 < size ∧ b.st.SearchNoWrap size align 0 0
  | .reserveRam size align pagesize =>
    size + paddrSub pagesize 1 < PADDR_SPACE ∧
      let addr := reserveTarget b.st size align pagesize
      (addr = NULL_PADDR ∨ addr + size < PADDR_SPACE)

/-- A call inside the domain that returns. -/
def BootStep (shdr : StartupHeader) (b : Boot) (call : BootCall) (b' : Boot) : Prop :=
  call.Step shdr b b' ∧ call.InDomain b

/-- The early area is used only while no memory has been added, and no range is
registered whose end is 0, the mark of the end of the avoid list. -/
def BootCall.Careful (b : Boot) : BootCall → Prop
  | .avoidRam start size => start + size ≠ 0
  | .wsAlloc size =>
    if 16 * b.st.ramList.length ≤ 16 then b.added = ∅
    else findRam b.st (ROUND size 8) 8 0 0 + ROUND size 8 ≠ 0
  | _ => True

/-! ## The start -/

/-- The computations of `ws_init` and of the reservation for the image do not wrap. -/
structure StartupHeader.NoWrap (shdr : StartupHeader) : Prop where
  rounds : shdr.ramPaddr + shdr.ramSize + 7 < PADDR_SPACE
  early : ROUND (shdr.ramPaddr + shdr.ramSize) 8 + MAX_AVOID_LIST_SIZE + MAX_RAM_LIST_SIZE <
    PADDR_SPACE
  startup : shdr.startupSize ≤ shdr.ramSize

/-- `ws_init` has run; the free list is the first block of working storage. -/
def Boot.start (shdr : StartupHeader) (secureSystem : Bool) (asinfo : Asinfo) (mem : Mem) : Boot :=
  let st := wsInit shdr secureSystem asinfo mem
  { st := st, added := ∅, blocks := [],
    working := Set.Ico (st.wsEarlyNext - MAX_RAM_LIST_SIZE) st.wsEarlyNext }

theorem wsInit_eq {shdr : StartupHeader} {secureSystem : Bool} {asinfo : Asinfo} {mem : Mem}
    (calm : shdr.NoWrap) :
    wsInit shdr secureSystem asinfo mem =
      let early := ROUND (shdr.ramPaddr + shdr.ramSize) 8
      { ramList := [⟨0, 0⟩],
        avoidList := [⟨early, early + 1024⟩, ⟨early + 1024, early + 4096⟩,
          ⟨shdr.ramPaddr, shdr.ramPaddr + shdr.startupSize⟩, ⟨0, 0⟩],
        wsEarlyNext := early + 4096, tempSyspage := NULL_PADDR, sysramAdded := false,
        asinfo := asinfo, secureSystem := secureSystem, mem := mem } := by
  obtain ⟨rounds, early, startup⟩ := calm
  simp only [MAX_AVOID_LIST_SIZE, MAX_RAM_LIST_SIZE] at early
  have first : ROUND MAX_AVOID_LIST_SIZE 8 = 1024 := by decide
  have second : ROUND MAX_RAM_LIST_SIZE 8 = 3072 := by decide
  have next : paddr (ROUND (shdr.ramPaddr + shdr.ramSize) 8 + 1024) =
      ROUND (shdr.ramPaddr + shdr.ramSize) 8 + 1024 := paddr_of_lt (by omega)
  have last : paddr (ROUND (shdr.ramPaddr + shdr.ramSize) 8 + 1024 + 3072) =
      ROUND (shdr.ramPaddr + shdr.ramSize) 8 + 4096 := paddr_of_lt (by omega)
  have image : paddr (shdr.ramPaddr + shdr.startupSize) = shdr.ramPaddr + shdr.startupSize :=
    paddr_of_lt (by omega)
  simp [wsInit, wsAlloc, avoidRam, first, second, next, last, image]

/-! ## The invariant -/

/-- Every registered range is in front of the terminator. -/
def AllHeeded (avoid : List AvoidEntry) : Prop :=
  ∃ ranges t, avoid = ranges ++ [t] ∧ t.stop = 0 ∧ ∀ a ∈ ranges, a.stop ≠ 0

theorem AllHeeded.avoidSet {avoid : List AvoidEntry} (all : AllHeeded avoid) :
    avoidSet avoid = registered avoid := by
  obtain ⟨ranges, t, rfl, zero, nonzero⟩ := all
  have heard : heeded (ranges ++ [t]) = ranges := by
    unfold heeded
    rw [List.takeWhile_append_of_pos (fun a mem => by simpa using nonzero a mem)]
    simp [zero]
  ext x
  simp only [Startup.avoidSet, registered, heard, Set.mem_ofPred_eq, List.mem_append,
    List.mem_singleton]
  constructor
  · rintro ⟨a, mem, inside⟩
    exact ⟨a, Or.inl mem, inside⟩
  · rintro ⟨a, mem | rfl, low, high⟩
    · exact ⟨a, mem, low, high⟩
    · omega

theorem AllHeeded.avoidRam {st : RamState} {start size : Nat} (all : AllHeeded st.avoidList)
    (fits : start + size < PADDR_SPACE) (nonzero : start + size ≠ 0) :
    AllHeeded (avoidRam st start size).avoidList := by
  obtain ⟨ranges, t, split, zero, kept⟩ := all
  refine ⟨ranges ++ [⟨start, start + size⟩], ⟨0, 0⟩, ?_, rfl, fun a mem => ?_⟩
  · simp [Startup.avoidRam, split, paddr_of_lt fits]
  · rcases List.mem_append.mp mem with mem | mem
    · exact kept a mem
    · rw [List.mem_singleton.mp mem]
      exact nonzero

/-- `avoid_ram` registers its range and forgets none. -/
theorem registered_avoidRam {st : RamState} {start size : Nat} (all : AllHeeded st.avoidList)
    (fits : start + size < PADDR_SPACE) :
    registered (avoidRam st start size).avoidList =
      registered st.avoidList ∪ Set.Ico start (start + size) := by
  obtain ⟨ranges, t, split, zero, kept⟩ := all
  ext x
  simp only [avoidRam, split, registered, paddr_of_lt fits, List.dropLast_concat, List.mem_append,
    List.mem_cons, List.not_mem_nil, or_false, Set.mem_ofPred_eq, Set.mem_union, Set.mem_Ico]
  constructor
  · rintro ⟨a, mem | rfl | rfl, low, high⟩
    · exact Or.inl ⟨a, Or.inl mem, low, high⟩
    · exact Or.inr ⟨low, high⟩
    · simp at high
  · rintro (⟨a, mem | rfl, low, high⟩ | inside)
    · exact ⟨a, Or.inl mem, low, high⟩
    · omega
    · exact ⟨⟨start, start + size⟩, Or.inr (Or.inl rfl), inside⟩

/-- What a careful boot keeps. -/
structure BootInv (b : Boot) : Prop where
  table : ∃ es, RamTable b.st.ramList es
  heeded : AllHeeded b.st.avoidList
  early : 0 < b.st.wsEarlyNext
  /-- free memory was added … -/
  added : freeSet b.st.ramList ⊆ b.added
  /-- … and is not handed out -/
  kept : Disjoint (freeSet b.st.ramList) b.handed
  working : b.working ⊆ registered b.st.avoidList
  safe : b.Safe

theorem BootInv.start {shdr : StartupHeader} {secureSystem : Bool} {asinfo : Asinfo} {mem : Mem}
    (calm : shdr.NoWrap) (image : shdr.ramPaddr + shdr.startupSize ≠ 0) :
    BootInv (Boot.start shdr secureSystem asinfo mem) := by
  have init := @wsInit_eq _ secureSystem asinfo mem calm
  unfold Boot.start
  rw [init]
  have empty : freeSet [(⟨0, 0⟩ : RamEntry)] = ∅ := by simp [freeSet, live]
  refine ⟨⟨[], ⟨⟨0, 0⟩, rfl, rfl⟩, Separated.nil, by simp⟩, ?_, by simp, ?_, ?_, ?_, ?_⟩
  · refine ⟨[_, _, _], ⟨0, 0⟩, rfl, rfl, ?_⟩
    simp only [List.mem_cons, List.not_mem_nil, or_false, forall_eq_or_imp, forall_eq]
    omega
  · exact empty.subset.trans (Set.empty_subset _)
  · rw [empty]
    exact Set.empty_disjoint _
  · rintro x ⟨low, high⟩
    refine ⟨⟨_, _⟩, List.mem_cons_of_mem _ List.mem_cons_self, ?_, high⟩
    simp only [MAX_RAM_LIST_SIZE] at low ⊢
    omega
  · exact ⟨List.Pairwise.nil, by simp, by simp, by simp⟩

theorem BootInv.hand {b : Boot} {st : RamState} {addr size : Nat} (inv : BootInv b)
    (fits : Fits b.st.ramList b.st.avoidList addr size) (taken : Taken b.st st addr size) :
    BootInv (b.hand st addr size) := by
  obtain ⟨⟨ram, asinfo, mem, frame⟩, table, free⟩ := taken
  have avoid : st.avoidList = b.st.avoidList := by rw [frame]
  have inFree := fits.subset_freeSet
  have apart := fits.disjoint_avoidSet
  rw [inv.heeded.avoidSet] at apart
  have handed : (b.hand st addr size).handed = Set.Ico addr (addr + size) ∪ b.handed := by
    ext x
    simp [Boot.handed, Boot.hand, Block.toSet]
  refine ⟨table, ?_, ?_, ?_, ?_, ?_, ?_⟩
  · exact avoid.symm ▸ inv.heeded
  · simp only [Boot.hand, frame]
    exact inv.early
  · exact (free.le.trans Set.sdiff_subset).trans inv.added
  · rw [handed]
    refine Set.disjoint_union_right.mpr ⟨?_, ?_⟩
    · exact free.symm ▸ Set.disjoint_sdiff_left
    · exact inv.kept.mono_left (free.le.trans Set.sdiff_subset)
  · exact avoid.symm ▸ inv.working
  · obtain ⟨blocks, added, avoided, working⟩ := inv.safe
    refine ⟨List.pairwise_cons.mpr ⟨fun blk mem => ?_, blocks⟩,
      List.forall_mem_cons.mpr ⟨inFree.trans inv.added, added⟩,
      List.forall_mem_cons.mpr ⟨apart, avoided⟩,
      List.forall_mem_cons.mpr ⟨apart.mono_right inv.working, working⟩⟩
    have inHanded : blk.toSet ⊆ b.handed := fun x inside => ⟨blk, mem, inside⟩
    exact (inv.kept.mono_left inFree).mono_right inHanded

theorem BootInv.avoid {b : Boot} {st : RamState} {start size : Nat} {working : Set Nat}
    (inv : BootInv b) (ram : st.ramList = b.st.ramList) (avoid : st.avoidList = b.st.avoidList)
    (early : 0 < st.wsEarlyNext) (fits : start + size < PADDR_SPACE) (nonzero : start + size ≠ 0)
    (inside : working ⊆ Set.Ico start (start + size)) (apart : Disjoint b.handed working) :
    BootInv { b with st := avoidRam st start size, working := b.working ∪ working } := by
  have heeded : AllHeeded st.avoidList := avoid ▸ inv.heeded
  have more := registered_avoidRam heeded fits
  have list : (avoidRam st start size).ramList = b.st.ramList := ram
  refine ⟨list ▸ inv.table, heeded.avoidRam fits nonzero, early, ?_, ?_, ?_, ?_⟩
  · exact (congrArg freeSet list).subset.trans inv.added
  · exact inv.kept.mono_left (congrArg freeSet list).subset
  · rw [avoid] at more
    exact (Set.union_subset_union inv.working inside).trans more.superset
  · obtain ⟨blocks, added, avoided, kept⟩ := inv.safe
    refine ⟨blocks, added, avoided, fun blk mem => Set.disjoint_union_right.mpr ⟨kept blk mem, ?_⟩⟩
    have inHanded : blk.toSet ⊆ b.handed := fun x inside => ⟨blk, mem, inside⟩
    exact apart.mono_left inHanded

/-- The free list may change as long as it stays inside memory that was added
and not handed out. -/
theorem BootInv.refill {b : Boot} {ram : List RamEntry} {asinfo : Asinfo} {mem : Mem}
    {added : Set Nat} (inv : BootInv b) (table : ∃ es, RamTable ram es)
    (free : freeSet ram ⊆ freeSet b.st.ramList ∪ added) (fresh : Disjoint added b.handed) :
    BootInv { b with st := { b.st with ramList := ram, asinfo := asinfo, mem := mem },
                     added := b.added ∪ added } := by
  refine ⟨table, inv.heeded, inv.early, ?_, ?_, inv.working, ?_⟩
  · exact free.trans (Set.union_subset_union_left _ inv.added)
  · exact (Set.disjoint_union_left.mpr ⟨inv.kept, fresh⟩).mono_left free
  · obtain ⟨blocks, inside, avoided, kept⟩ := inv.safe
    exact ⟨blocks, fun blk mem => (inside blk mem).trans Set.subset_union_left, avoided, kept⟩

theorem addMem_means {ram ram' es : List RamEntry} {start size : Nat} (table : RamTable ram es)
    (fits : start + size ≤ PADDR_SPACE) (call : addMem ram start size = .ok ram') :
    (∃ es', RamTable ram' es') ∧ freeSet ram' = freeSet ram ∪ Set.Ico start (start + size) := by
  by_cases pos : 0 < size
  · obtain ⟨ram₁, es', added, table', free⟩ | ⟨crash, _⟩ := addMem_table table pos fits
    · rw [call] at added
      cases added
      exact ⟨⟨es', table'⟩, by rw [table'.freeSet, free, table.freeSet]⟩
    · rw [call] at crash
      cases crash
  · obtain rfl : size = 0 := by omega
    simp only [addMem, gt_iff_lt, lt_self_iff_false, if_false, Except.ok.injEq] at call
    exact ⟨⟨es, call ▸ table⟩, by simp [call]⟩

/-- What `add_ram` does before it looks for the temporary system page. -/
theorem addRamMemory_means {shdr : StartupHeader} {st mid : RamState} {es : List RamEntry}
    {start size : Nat} (calm : shdr.NoWrap) (table : RamTable st.ramList es)
    (fits : start + size ≤ PADDR_SPACE) (call : addRamMemory shdr st start size = .ok mid) :
    ∃ ram asinfo mem, mid = { st with ramList := ram, asinfo := asinfo, mem := mem } ∧
      (∃ es', RamTable ram es') ∧
      freeSet ram ⊆ freeSet st.ramList ∪ Set.Ico start (start + size) := by
  obtain ⟨asinfo₀, _, call⟩ := Except.bind_eq_ok.mp call
  obtain ⟨⟨asinfo₁, _⟩, _, call⟩ := Except.bind_eq_ok.mp call
  obtain ⟨ram₁, added, call⟩ := Except.bind_eq_ok.mp call
  obtain ⟨⟨st', got⟩, taken, call⟩ := Except.bind_eq_ok.mp call
  cases call
  obtain ⟨⟨es₁, table₁⟩, free₁⟩ := addMem_means table fits added
  obtain ⟨rounds, -, startup⟩ := calm
  have image : paddr (shdr.ramPaddr + shdr.startupSize) + paddrSub shdr.ramSize shdr.startupSize <
      PADDR_SPACE := by
    simp only [paddrSub, paddr, PADDR_SPACE] at *
    omega
  obtain ⟨-, ⟨-, rfl⟩ | ⟨-, -, ⟨ram, asinfo, mem, rfl⟩, table', free⟩⟩ :=
    allocRam_cases table₁ (Or.inr image) taken
  · exact ⟨ram₁, asinfo₁, st.mem, rfl, ⟨es₁, table₁⟩, free₁.subset⟩
  · exact ⟨ram, asinfo, mem, rfl, table', (free.subset.trans Set.sdiff_subset).trans free₁.subset⟩

theorem BootInv.findTempSyspage {b : Boot} (inv : BootInv b) :
    BootInv { b with st := findTempSyspage b.st } := by
  unfold Startup.findTempSyspage
  split_ifs with unset
  · simp only
    split_ifs with found
    · have fits : findRam b.st TEMP_SYSPAGE_SIZE PAGESIZE 0 0 + TEMP_SYSPAGE_SIZE < PADDR_SPACE :=
        findRam_lt found
      have := @BootInv.avoid _
          { b.st with tempSyspage := findRam b.st TEMP_SYSPAGE_SIZE PAGESIZE 0 0 } _ _ _ inv rfl rfl
          inv.early fits (by simp [TEMP_SYSPAGE_SIZE]) (Set.empty_subset _) (Set.disjoint_empty _)
      simpa using this
    · exact ⟨inv.table, inv.heeded, inv.early, inv.added, inv.kept, inv.working,
        ⟨inv.safe.apart, inv.safe.added, inv.safe.avoided, inv.safe.working⟩⟩
  · exact inv

theorem BootInv.handed_added {b : Boot} (inv : BootInv b) : b.handed ⊆ b.added := by
  rintro x ⟨blk, mem, inside⟩
  exact inv.safe.added blk mem inside

theorem BootInv.wsAlloc {b : Boot} {size : Nat} (inv : BootInv b)
    (domain : (BootCall.wsAlloc size).InDomain b)
    (careful : (BootCall.wsAlloc size).Careful b) :
    BootInv { b with st := (wsAlloc b.st size).1, working := b.working ∪ wsBlock b.st size } := by
  obtain ⟨-, -, calm⟩ := domain
  simp only [BootCall.Careful] at careful
  have empty : b.working ∪ ∅ = b.working := Set.union_empty _
  by_cases exhausted : 16 * b.st.ramList.length ≤ 16
  · rw [if_pos exhausted] at calm careful
    have none_handed : b.handed = ∅ := Set.subset_empty_iff.mp (careful ▸ inv.handed_added)
    have next : paddr (b.st.wsEarlyNext + ROUND size 8) = b.st.wsEarlyNext + ROUND size 8 :=
      paddr_of_lt calm
    have early := inv.early
    have result : Startup.wsAlloc b.st size =
        (avoidRam { b.st with wsEarlyNext := b.st.wsEarlyNext + ROUND size 8 } b.st.wsEarlyNext
          (ROUND size 8), some b.st.wsEarlyNext) := by
      simp only [Startup.wsAlloc, if_pos exhausted, next]
    rw [result]
    refine inv.avoid rfl rfl (by simp only; omega) calm (by omega) ?_
      (none_handed ▸ Set.empty_disjoint _)
    rintro x ⟨addr, got, low, high⟩
    rw [result] at got
    cases got
    exact ⟨low, high⟩
  rw [if_neg exhausted] at calm careful
  by_cases missing : findRam b.st (ROUND size 8) 8 0 0 = NULL_PADDR
  · have result : Startup.wsAlloc b.st size = (b.st, none) := by
      simp only [Startup.wsAlloc, if_neg exhausted, if_pos missing]
    have nothing : wsBlock b.st size = ∅ := by
      refine Set.eq_empty_iff_forall_notMem.mpr ?_
      rintro x ⟨addr, got, -⟩
      rw [result] at got
      cases got
    rw [result, nothing, empty]
    exact inv
  · have result : Startup.wsAlloc b.st size =
        (avoidRam b.st (findRam b.st (ROUND size 8) 8 0 0) (ROUND size 8),
          some (findRam b.st (ROUND size 8) 8 0 0)) := by
      simp only [Startup.wsAlloc, if_neg exhausted, if_neg missing]
    have inFree := (findRam_fits calm (by decide) missing).subset_freeSet
    have block : wsBlock b.st size ⊆ Set.Ico (findRam b.st (ROUND size 8) 8 0 0)
        (findRam b.st (ROUND size 8) 8 0 0 + ROUND size 8) := by
      rintro x ⟨addr, got, low, high⟩
      rw [result] at got
      cases got
      exact ⟨low, high⟩
    rw [result]
    exact inv.avoid rfl rfl inv.early (findRam_lt missing) careful block
      (inv.kept.mono_left (block.trans inFree)).symm

/-- `reserve_ram` of a nonzero size hands out the block at its target. -/
theorem reserveRam_taken {st st' : RamState} {es : List RamEntry} {size align pagesize : Nat}
    (table : RamTable st.ramList es) (pos : size ≠ 0)
    (fits : reserveTarget st size align pagesize = NULL_PADDR ∨
      reserveTarget st size align pagesize + size < PADDR_SPACE)
    (call : reserveRam st size align pagesize = .ok st') :
    reserveTarget st size align pagesize ≠ NULL_PADDR ∧
      Taken st st' (reserveTarget st size align pagesize) size := by
  rw [reserveRam, if_neg pos] at call
  by_cases missing : reserveTarget st size align pagesize = NULL_PADDR
  · simp only [if_pos missing] at call
    cases call
  simp only [if_neg missing] at call
  refine ⟨missing, ?_⟩
  obtain ⟨⟨st₁, got⟩, taken, call⟩ := Except.bind_eq_ok.mp call
  obtain ⟨⟨asinfo, _⟩, _, call⟩ := Except.bind_eq_ok.mp call
  cases call
  obtain ⟨rfl, ⟨gone, -⟩ | ⟨-, -, ⟨ram, asinfo₁, mem, rfl⟩, table', free⟩⟩ :=
    allocRam_cases table (Or.inr (fits.resolve_left missing)) taken
  · rw [allocTarget, if_neg missing] at gone
    exact absurd gone missing
  · rw [allocTarget, if_neg missing] at free
    exact ⟨⟨ram, asinfo, mem, rfl⟩, table', free⟩

theorem BootInv.found {b b' : Boot} {addr size align : Nat} (inv : BootInv b)
    (fits : addr = NULL_PADDR ∨ addr + size < PADDR_SPACE)
    (block : addr ≠ NULL_PADDR → Fits b.st.ramList b.st.avoidList addr size)
    (step : if addr = NULL_PADDR then b' = b
      else ∃ st, Startup.allocRam b.st addr size align = .ok (st, addr) ∧
        b' = b.hand st addr size) :
    BootInv b' := by
  obtain ⟨es, table⟩ := inv.table
  by_cases missing : addr = NULL_PADDR
  · rw [if_pos missing] at step
    exact step ▸ inv
  rw [if_neg missing] at step
  obtain ⟨st, taken, rfl⟩ := step
  obtain ⟨-, ⟨gone, -⟩ | ⟨-, -, taken⟩⟩ :=
    allocRam_cases table (Or.inr (fits.resolve_left missing)) taken
  · exact absurd gone missing
  · exact inv.hand (block missing) taken

theorem BootInv.step {shdr : StartupHeader} {b b' : Boot} {call : BootCall} (calm : shdr.NoWrap)
    (inv : BootInv b) (step : BootStep shdr b call b') (careful : call.Careful b) :
    BootInv b' := by
  obtain ⟨step, domain⟩ := step
  obtain ⟨es, table⟩ := inv.table
  cases call with
  | addRam start size =>
    obtain ⟨st, added, rfl⟩ := step
    obtain ⟨fits, fresh, -⟩ := domain
    obtain ⟨mid, memory, added⟩ := Except.bind_eq_ok.mp added
    cases added
    obtain ⟨ram, asinfo, mem, rfl, table', free⟩ := addRamMemory_means calm table fits memory
    exact (inv.refill table' free fresh).findTempSyspage
  | avoidRam start size =>
    subst step
    have := inv.avoid rfl rfl inv.early domain.1 careful
      (Set.empty_subset _) (Set.disjoint_empty _)
    simpa using this
  | wsAlloc size =>
    subst step
    exact inv.wsAlloc domain careful
  | findAlloc rangeStart rangeEnd size align colour mask =>
    obtain ⟨width, search, fits⟩ := domain
    exact inv.found fits (findRamInRange_fits search width rfl) step
  | topAlloc size align pagesize =>
    obtain ⟨rounds, fits⟩ := domain
    exact inv.found fits (fun found => (findTopRamAligned_fits found).mono (le_ROUND rounds)) step
  | allocRam size align =>
    obtain ⟨-, search⟩ := domain
    obtain ⟨st, addr, taken, rfl⟩ := step
    obtain ⟨rfl, ⟨gone, -⟩ | ⟨found, -, taken⟩⟩ := allocRam_cases table (Or.inl rfl) taken
    · rw [if_pos gone]
      exact inv
    · rw [if_neg found]
      exact inv.hand (findRam_fits search (by decide) found) taken
  | reserveRam size align pagesize =>
    obtain ⟨rounds, fits⟩ := domain
    obtain ⟨st, reserved, rfl⟩ := step
    split_ifs with zero
    · exact inv
    obtain ⟨found, taken⟩ := reserveRam_taken table zero fits reserved
    exact inv.hand ((findTopRamAligned_fits found).mono (le_ROUND rounds)) taken

/-! ## Runs -/

/-- A run of careful calls hands out safe blocks. -/
theorem boot_safe {shdr : StartupHeader} {secureSystem : Bool} {asinfo : Asinfo} {mem : Mem}
    {calls : List BootCall} {b : Boot} (calm : shdr.NoWrap)
    (image : shdr.ramPaddr + shdr.startupSize ≠ 0)
    (run : Run (fun b call b' => BootStep shdr b call b' ∧ call.Careful b)
      (Boot.start shdr secureSystem asinfo mem) calls b) : b.Safe := by
  have inv : BootInv b :=
    run.invariant (I := BootInv) (fun inv step => inv.step calm step.1 step.2)
      (BootInv.start calm image)
  exact inv.safe

def smallHeader : StartupHeader := ⟨0x10000000, 0x2000, 0x1000⟩

theorem smallHeader_noWrap : smallHeader.NoWrap := ⟨by decide, by decide, by decide⟩

def smallBoot : Boot := Boot.start smallHeader false ⟨[], 100⟩ fun _ => 0

theorem smallBoot_apart {s : Set Nat} : Disjoint s smallBoot.handed := by
  refine Set.disjoint_left.mpr ?_
  rintro x - ⟨blk, mem, -⟩
  cases mem

/-- Working storage taken before any memory is added stays apart from the block. -/
theorem boot_safe_small :
    ∃ b, Run (fun b call b' => BootStep smallHeader b call b' ∧ call.Careful b) smallBoot
      [.wsAlloc 8, .addRam 0x10003000 0x2000, .allocRam 0x1000 0x1000] b ∧ b.Safe := by
  have run : Run (fun b call b' => BootStep smallHeader b call b' ∧ call.Careful b) smallBoot
      [.wsAlloc 8, .addRam 0x10003000 0x2000, .allocRam 0x1000 0x1000] _ :=
    .cons ⟨⟨rfl, by decide, by unfold Boot.AvoidRoom; decide,
        (by decide : 0x10003000 + 8 < PADDR_SPACE)⟩, rfl⟩
      (.cons ⟨⟨⟨_, rfl, rfl⟩, by decide, smallBoot_apart, by unfold Boot.AvoidRoom; decide⟩,
        trivial⟩
        (.cons ⟨⟨⟨_, _, rfl, rfl⟩, by decide, Or.inr ⟨by decide, fun h => absurd h (by decide)⟩⟩,
          trivial⟩
          .nil))
  exact ⟨_, run, boot_safe smallHeader_noWrap (by decide) run⟩

/-- With the free list used up, `ws_alloc` takes the early area, which a board
may have added and handed out; and behind a range with the end 0 no range is heeded. -/
theorem boot_unsafe :
    (∃ b, Run (BootStep smallHeader) smallBoot
      [.addRam 0x10003000 0x1000, .allocRam 0x1000 0x1000, .wsAlloc 8] b ∧ ¬ b.Safe) ∧
    ∃ b, Run (BootStep smallHeader) smallBoot
      [.avoidRam 0 0, .avoidRam 0x10003000 0x1000, .addRam 0x10003000 0x2000,
        .allocRam 0x1000 0x1000] b ∧ ¬ b.Safe := by
  constructor
  · refine ⟨_, .cons ⟨⟨_, rfl, rfl⟩, ?_, smallBoot_apart, ?_⟩
      (.cons ⟨⟨_, _, rfl, rfl⟩, ?_, ?_⟩ (.cons ⟨rfl, ?_, ?_, ?_⟩ .nil)), ?_⟩
    · decide
    · exact (by decide : 8 * 4 < 1024)
    · decide
    · exact Or.inr ⟨by decide, fun h => nomatch h⟩
    · decide
    · exact (by decide : 8 * 4 < 1024)
    · exact (by decide : 0x10003000 + 8 < PADDR_SPACE)
    · intro safe
      have apart := safe.working ⟨0x10003000, 0x1000, _⟩ List.mem_cons_self
      exact Set.disjoint_left.mp apart (⟨by decide, by decide⟩ : 0x10003000 ∈ Set.Ico _ _)
        (Or.inr ⟨0x10003000, rfl, by decide, by decide⟩)
  · refine ⟨_, .cons ⟨rfl, ?_, ?_⟩ (.cons ⟨rfl, ?_, ?_⟩
      (.cons ⟨⟨_, rfl, rfl⟩, ?_, smallBoot_apart, ?_⟩
        (.cons ⟨⟨_, _, rfl, rfl⟩, ?_, ?_⟩ .nil))), ?_⟩
    · decide
    · exact (by decide : 8 * 4 < 1024)
    · decide
    · exact (by decide : 8 * 5 < 1024)
    · decide
    · exact (by decide : 8 * 6 < 1024)
    · decide
    · exact Or.inr ⟨by decide, fun h => nomatch h⟩
    · intro safe
      have apart := safe.avoided ⟨0x10003000, 0x1000, _⟩ List.mem_cons_self
      exact Set.disjoint_left.mp apart (⟨by decide, by decide⟩ : 0x10003000 ∈ Set.Ico _ _)
        ⟨⟨0x10003000, 0x10004000⟩, by decide, by decide, by decide⟩

end Mx6xBsp.Startup
