import Mx6xBsp.Startup.AvoidRanges

/-!
# The tables of the allocator in working storage

`ws_init` cuts the avoid list and the free list out of the memory behind the
image, one right after the other. `add_mem` looks whether its table is full,
`avoid_ram` does not. Every run of the calls therefore keeps the free list inside
its bytes and the blocks of `ws_alloc` off both tables (`Laid`), and the avoid
list stays inside its own as long as each call that registers a range finds a
slot (`tables_contained`); one range more and its terminator is the first entry
of the free list.
-/

namespace Mx6xBsp.Startup

open Runs

/-! ## The free list is bounded -/

theorem length_insertEntry (start size : Nat) (ram : List RamEntry) :
    (insertEntry start size ram).length ≤ ram.length + 1 := by
  induction ram with
  | nil => exact Nat.zero_le _
  | cons r rest ih =>
    rw [insertEntry]
    split_ifs
    · exact Nat.succ_le_succ ih
    · exact le_rfl

theorem length_mergeEntries (p : RamEntry) (ram : List RamEntry) :
    (mergeEntries p ram).length ≤ ram.length + 1 := by
  induction ram generalizing p with
  | nil => exact le_rfl
  | cons r rest ih =>
    rw [mergeEntries]
    by_cases last : r.size = 0
    · rw [if_pos last]
      exact le_rfl
    rw [if_neg last]
    dsimp only
    by_cases meets : r.addr ≤ p.addr + p.size
    · rw [if_pos meets]
      exact (ih _).trans (Nat.le_succ _)
    · rw [if_neg meets]
      exact Nat.succ_le_succ (ih r)

/-- The free list keeps inside its bytes. -/
def RamFits (ram : List RamEntry) : Prop := 16 * ram.length ≤ MAX_RAM_LIST_SIZE

theorem addMem_ramFits {ram ram' : List RamEntry} {start size : Nat} (fits : RamFits ram)
    (call : addMem ram start size = .ok ram') : RamFits ram' := by
  unfold addMem at call
  split_ifs at call with used full
  · have inserted := length_insertEntry start size ram
    have room : 16 * (ram.length + 1) ≤ MAX_RAM_LIST_SIZE := by
      simp only [MAX_RAM_LIST_SIZE] at *
      omega
    cases entries : insertEntry start size ram with
    | nil =>
      rw [entries] at call
      cases call
      exact Nat.zero_le _
    | cons p rest =>
      rw [entries] at call inserted
      cases call
      have merged := length_mergeEntries p rest
      simp only [List.length_cons] at inserted
      unfold RamFits
      omega
  · cases call
    exact fits

theorem allocLoop_ramFits {addr stop fuel i : Nat} {ram ram' : List RamEntry} (fits : RamFits ram)
    (call : allocLoop addr stop fuel ram i = .ok ram') : RamFits ram' := by
  induction fuel generalizing ram i with
  | zero => cases call
  | succ fuel ih =>
    rw [allocLoop] at call
    cases slot : ram[i]? with
    | none =>
      rw [slot] at call
      cases call
      exact fits
    | some r =>
      have removed : RamFits (ram.eraseIdx i) :=
        (Nat.mul_le_mul_left 16 (List.length_eraseIdx_le ram i)).trans fits
      have replaced : ∀ q, RamFits (ram.set i q) := by
        intro q
        unfold RamFits
        rwa [List.length_set]
      simp only [slot] at call
      by_cases last : r.size = 0
      · rw [if_pos last] at call
        cases call
        exact fits
      rw [if_neg last] at call
      by_cases overlaps : (addr ≤ r.addr ∧ stop > r.addr) ∨
          (addr ≥ r.addr ∧ addr < r.addr + r.size) ∨ (stop ≥ r.addr ∧ stop < r.addr + r.size)
      swap
      · rw [if_neg overlaps] at call
        exact ih fits call
      rw [if_pos overlaps] at call
      generalize (if stop > r.addr + r.size then stop else r.addr + r.size) = e at call
      generalize (if addr < r.addr then addr else r.addr) = s at call
      split_ifs at call with whole front split
      · exact ih removed call
      · exact ih (replaced _) call
      · obtain ⟨more, added, call⟩ := Except.bind_eq_ok.mp call
        exact ih (addMem_ramFits (replaced _) added) call
      · exact ih (replaced _) call

theorem takeRam_ramFits {st st' : RamState} {addr size : Nat} (fits : RamFits st.ramList)
    (call : takeRam st addr size = .ok st') : RamFits st'.ramList := by
  obtain ⟨ram, asinfo, rfl, loop⟩ := takeRam_frame call
  exact allocLoop_ramFits fits loop

theorem allocRam_ramFits {st st' : RamState} {addr size align got : Nat}
    (fits : RamFits st.ramList) (call : allocRam st addr size align = .ok (st', got)) :
    RamFits st'.ramList := by
  by_cases missing : allocTarget st addr size align = NULL_PADDR
  · rw [allocRam_missing missing] at call
    cases call
    exact fits
  · rw [allocRam_found missing] at call
    obtain ⟨st₁, taken, call⟩ := Except.bind_eq_ok.mp call
    cases call
    obtain ⟨mem, source⟩ := allocFrom_frame st addr size align
    rw [source] at taken
    exact @takeRam_ramFits { st with mem := mem } _ _ _ fits taken

theorem addRamMemory_ramFits {shdr : StartupHeader} {st mid : RamState} {start size : Nat}
    (fits : RamFits st.ramList) (call : addRamMemory shdr st start size = .ok mid) :
    RamFits mid.ramList := by
  obtain ⟨asinfo₀, _, call⟩ := Except.bind_eq_ok.mp call
  obtain ⟨⟨asinfo₁, _⟩, _, call⟩ := Except.bind_eq_ok.mp call
  obtain ⟨ram₁, added, call⟩ := Except.bind_eq_ok.mp call
  obtain ⟨⟨st', got⟩, taken, call⟩ := Except.bind_eq_ok.mp call
  cases call
  exact @allocRam_ramFits { st with asinfo := asinfo₁, ramList := ram₁ } _ _ _ _ _
    (addMem_ramFits fits added) taken

/-! ## What the tables occupy -/

/-- The bytes of the avoid list, its terminator included. -/
def Storage.avoidBytes (shdr : StartupHeader) (b : Storage) : Set Nat :=
  Set.Ico shdr.avoidBase (shdr.avoidBase + 8 * b.st.avoidList.length)

/-- The bytes of the free list, its terminator included. -/
def Storage.ramBytes (shdr : StartupHeader) (b : Storage) : Set Nat :=
  Set.Ico shdr.ramBase (shdr.ramBase + 16 * b.st.ramList.length)

/-- Both tables are inside the bytes reserved for them and off each other and all
that `ws_alloc` returned. -/
structure Storage.Contained (shdr : StartupHeader) (b : Storage) : Prop where
  avoid : b.avoidBytes shdr ⊆ Set.Ico shdr.avoidBase (shdr.avoidBase + MAX_AVOID_LIST_SIZE)
  ram : b.ramBytes shdr ⊆ Set.Ico shdr.ramBase (shdr.ramBase + MAX_RAM_LIST_SIZE)
  apart : Disjoint (b.avoidBytes shdr) (b.ramBytes shdr)
  working : Disjoint (b.avoidBytes shdr ∪ b.ramBytes shdr) b.working

/-! ## The calls -/

/-- A call that calls `avoid_ram`. -/
def RamCall.Registers (shdr : StartupHeader) (b : Storage) : RamCall → Prop
  | .addRam start size =>
    ∃ mid, addRamMemory shdr b.st start.toNat size.toNat = .ok mid ∧
      mid.tempSyspage = NULL_PADDR ∧ findRam mid TEMP_SYSPAGE_SIZE PAGESIZE 0 0 ≠ NULL_PADDR
  | .avoidRam _ _ => True
  | .allocRam _ _ _ => False
  | .wsAlloc size =>
    16 * b.st.ramList.length ≤ 16 ∨ findRam b.st (ROUND size.toNat 8) 8 0 0 ≠ NULL_PADDR

/-- `ws_alloc` rounds and adds nothing past the top of the address space. -/
def RamCall.NoWrap (b : Storage) : RamCall → Prop
  | .wsAlloc size =>
    size.toNat + 7 < PADDR_SPACE ∧
      if 16 * b.st.ramList.length ≤ 16 then
        b.st.wsEarlyNext + ROUND size.toNat 8 < PADDR_SPACE
      else b.st.SearchNoWrap (ROUND size.toNat 8) 8 0 0
  | _ => True

/-- A call that returns and in which `ws_alloc` does not wrap. -/
def RamCall.Calm (shdr : StartupHeader) (b : Storage) (call : RamCall) (b' : Storage) : Prop :=
  call.Step shdr b b' ∧ call.NoWrap b

/-- If the call registers a range, the avoid list has a slot for it. -/
def RamCall.HasRoom (shdr : StartupHeader) (b : Storage) (call : RamCall) : Prop :=
  call.Registers shdr b → 8 * (b.st.avoidList.length + 1) ≤ MAX_AVOID_LIST_SIZE

theorem findTempSyspage_range {st mid : RamState} (same : mid.tempSyspage = st.tempSyspage) :
    tempRange st (findTempSyspage mid) =
      if mid.tempSyspage = NULL_PADDR ∧ findRam mid TEMP_SYSPAGE_SIZE PAGESIZE 0 0 ≠ NULL_PADDR then
        [⟨BitVec.ofNat 32 (findRam mid TEMP_SYSPAGE_SIZE PAGESIZE 0 0),
          BitVec.ofNat 32 TEMP_SYSPAGE_SIZE⟩]
      else [] := by
  unfold tempRange findTempSyspage
  rw [← same]
  by_cases unset : mid.tempSyspage = NULL_PADDR
  · by_cases missing : findRam mid TEMP_SYSPAGE_SIZE PAGESIZE 0 0 = NULL_PADDR
    · simp [unset, missing]
    · simp [unset, missing, avoidRam]
  · simp [unset]

theorem RamCall.Step.ranges {shdr : StartupHeader} {b b' : Storage} {call : RamCall}
    (step : call.Step shdr b b') :
    ∃ more, b'.ranges = b.ranges ++ more ∧
      ((call.Registers shdr b ∧ more.length = 1) ∨ (¬call.Registers shdr b ∧ more = [])) := by
  cases call with
  | addRam start size =>
    obtain ⟨st, added, rfl⟩ := step
    obtain ⟨mid, memory, added⟩ := Except.bind_eq_ok.mp added
    cases added
    refine ⟨_, rfl, ?_⟩
    have same : mid.tempSyspage = b.st.tempSyspage := by
      obtain ⟨ram, asinfo, mem, rfl⟩ := addRamMemory_frame memory
      rfl
    rw [findTempSyspage_range same]
    by_cases searches : mid.tempSyspage = NULL_PADDR ∧
        findRam mid TEMP_SYSPAGE_SIZE PAGESIZE 0 0 ≠ NULL_PADDR
    · rw [if_pos searches]
      exact Or.inl ⟨⟨mid, memory, searches⟩, rfl⟩
    · rw [if_neg searches]
      refine Or.inr ⟨?_, rfl⟩
      rintro ⟨mid', memory', searches'⟩
      rw [memory] at memory'
      cases memory'
      exact searches searches'
  | avoidRam start size =>
    subst step
    exact ⟨_, rfl, Or.inl ⟨trivial, rfl⟩⟩
  | allocRam addr size align =>
    obtain ⟨st, got, taken, rfl⟩ := step
    exact ⟨[], (List.append_nil _).symm, Or.inr ⟨id, rfl⟩⟩
  | wsAlloc size =>
    subst step
    refine ⟨_, rfl, ?_⟩
    unfold wsRange Startup.wsAlloc
    by_cases exhausted : 16 * b.st.ramList.length ≤ 16
    · simp [Registers, exhausted]
    · by_cases missing : findRam b.st (ROUND size.toNat 8) 8 0 0 = NULL_PADDR
      · simp [Registers, exhausted, missing]
      · simp [Registers, exhausted, missing]

/-! ## What every run keeps -/

/-- The layout every run keeps, whether the avoid list has overrun or not. -/
structure Storage.Laid (shdr : StartupHeader) (b : Storage) : Prop where
  recorded : b.Recorded
  front : shdr.ranges <+: b.ranges
  ram : RamFits b.st.ramList
  early : shdr.avoidBase + MAX_AVOID_LIST_SIZE + MAX_RAM_LIST_SIZE ≤ b.st.wsEarlyNext
  working : ∀ x ∈ b.working, x < shdr.avoidBase ∨
    shdr.avoidBase + MAX_AVOID_LIST_SIZE + MAX_RAM_LIST_SIZE ≤ x

theorem StartupHeader.NoWrap.wide {shdr : StartupHeader} (calm : shdr.NoWrap) : shdr.Wide := by
  obtain ⟨rounds, -, startup⟩ := calm
  constructor <;> omega

theorem StartupHeader.NoWrap.ramBase {shdr : StartupHeader} (calm : shdr.NoWrap) :
    shdr.ramBase = shdr.avoidBase + MAX_AVOID_LIST_SIZE :=
  paddr_of_lt ((Nat.le_add_right _ _).trans_lt calm.early)

theorem Storage.Laid.start {shdr : StartupHeader} {secureSystem : Bool} {asinfo : Asinfo}
    {mem : Mem} (calm : shdr.NoWrap) :
    (Storage.start shdr secureSystem asinfo mem).Laid shdr := by
  have init := @wsInit_eq _ secureSystem asinfo mem calm
  refine ⟨Storage.Recorded.start calm.wide, List.prefix_rfl, ?_, ?_, fun x inside => inside.elim⟩
  · unfold Storage.start RamFits
    rw [init]
    exact (by decide : 16 * 1 ≤ MAX_RAM_LIST_SIZE)
  · unfold Storage.start
    rw [init]
    exact le_rfl

theorem StartupHeader.NoWrap.entries {shdr : StartupHeader} (calm : shdr.NoWrap) :
    shdr.ranges.map AvoidRange.entry =
      [⟨shdr.avoidBase, shdr.avoidBase + MAX_AVOID_LIST_SIZE⟩,
        ⟨shdr.avoidBase + MAX_AVOID_LIST_SIZE,
          shdr.avoidBase + MAX_AVOID_LIST_SIZE + MAX_RAM_LIST_SIZE⟩,
        ⟨shdr.ramPaddr, shdr.ramPaddr + shdr.startupSize⟩] := by
  have table := (@Storage.Recorded.start _ false ⟨[], 0⟩ (fun _ => 0) calm.wide).table
  unfold Storage.start at table
  rw [wsInit_eq calm] at table
  have stored : shdr.ranges.map AvoidRange.entry ++ [⟨0, 0⟩] =
      [⟨shdr.avoidBase, shdr.avoidBase + MAX_AVOID_LIST_SIZE⟩,
        ⟨shdr.avoidBase + MAX_AVOID_LIST_SIZE,
          shdr.avoidBase + MAX_AVOID_LIST_SIZE + MAX_RAM_LIST_SIZE⟩,
        ⟨shdr.ramPaddr, shdr.ramPaddr + shdr.startupSize⟩] ++ [⟨0, 0⟩] := table.symm
  exact List.append_cancel_right stored

theorem Storage.Laid.tables_heeded {shdr : StartupHeader} {b : Storage} (laid : b.Laid shdr)
    (calm : shdr.NoWrap) :
    ⟨shdr.avoidBase, shdr.avoidBase + MAX_AVOID_LIST_SIZE⟩ ∈ heeded b.st.avoidList ∧
      ⟨shdr.avoidBase + MAX_AVOID_LIST_SIZE,
        shdr.avoidBase + MAX_AVOID_LIST_SIZE + MAX_RAM_LIST_SIZE⟩ ∈ heeded b.st.avoidList := by
  obtain ⟨more, front⟩ := laid.front
  have sizes : MAX_AVOID_LIST_SIZE ≠ 0 ∧ MAX_RAM_LIST_SIZE ≠ 0 := by decide
  rw [laid.recorded.table, ← front, avoidTable, List.map_append, calm.entries]
  simp only [List.cons_append]
  rw [heeded_cons (by simp only; omega), heeded_cons (by simp only; omega)]
  exact ⟨List.mem_cons_self, List.mem_cons_of_mem _ List.mem_cons_self⟩

/-- What `ws_alloc` returns is off both tables. -/
theorem Storage.Laid.wsMemory_apart {shdr : StartupHeader} {b : Storage} {size : BitVec 32}
    (laid : b.Laid shdr) (calm : shdr.NoWrap) (noWrap : (RamCall.wsAlloc size).NoWrap b) :
    ∀ x ∈ wsMemory b.st size.toNat, x < shdr.avoidBase ∨
      shdr.avoidBase + MAX_AVOID_LIST_SIZE + MAX_RAM_LIST_SIZE ≤ x := by
  obtain ⟨rounds, search⟩ := noWrap
  have whole : size.toNat ≤ ROUND size.toNat 8 := le_ROUND rounds
  rintro x ⟨addr, got, low, high⟩
  have early := laid.early
  unfold wsAlloc at got
  by_cases exhausted : 16 * b.st.ramList.length ≤ 16
  · simp only [exhausted, if_true, Option.some.injEq] at got
    omega
  · simp only [exhausted, if_false] at got search
    by_cases missing : findRam b.st (ROUND size.toNat 8) 8 0 0 = NULL_PADDR
    · simp [missing] at got
    simp only [missing, if_false, Option.some.injEq] at got
    obtain ⟨first, second⟩ := laid.tables_heeded calm
    have fits := findRam_fits search (by decide) missing
    have missed := fits.avoids _ first
    have missed' := fits.avoids _ second
    simp only at missed missed'
    omega

theorem wsAlloc_early {st : RamState} {size bound : Nat} (early : bound ≤ st.wsEarlyNext)
    (calm : 16 * st.ramList.length ≤ 16 → st.wsEarlyNext + ROUND size 8 < PADDR_SPACE) :
    bound ≤ (wsAlloc st size).1.wsEarlyNext := by
  unfold wsAlloc
  by_cases exhausted : 16 * st.ramList.length ≤ 16
  · simp only [exhausted, if_true]
    have next := paddr_of_lt (calm exhausted)
    exact early.trans (next.symm ▸ Nat.le_add_right _ _)
  · simp only [exhausted, if_false]
    split_ifs
    · exact early
    · exact early

theorem Storage.Laid.step {shdr : StartupHeader} {b b' : Storage} {call : RamCall}
    (calm : shdr.NoWrap) (laid : b.Laid shdr) (step : call.Calm shdr b b') : b'.Laid shdr := by
  obtain ⟨step, noWrap⟩ := step
  have recorded := laid.recorded.step step
  obtain ⟨more, ranges, -⟩ := step.ranges
  have front : shdr.ranges <+: b'.ranges := laid.front.trans ⟨more, ranges.symm⟩
  cases call with
  | addRam start size =>
    obtain ⟨st, added, rfl⟩ := step
    obtain ⟨mid, memory, added⟩ := Except.bind_eq_ok.mp added
    cases added
    have fits := addRamMemory_ramFits laid.ram memory
    obtain ⟨ram, asinfo, mem, rfl⟩ := addRamMemory_frame memory
    obtain ⟨temp, avoid, frame⟩ := findTempSyspage_frame
      { b.st with ramList := ram, asinfo := asinfo, mem := mem }
    rw [frame] at recorded front ⊢
    exact ⟨recorded, front, fits, laid.early, laid.working⟩
  | avoidRam start size =>
    subst step
    exact ⟨recorded, front, laid.ram, laid.early, laid.working⟩
  | allocRam addr size align =>
    obtain ⟨st, got, taken, rfl⟩ := step
    have fits := allocRam_ramFits laid.ram taken
    obtain ⟨ram, asinfo, mem, rfl⟩ := allocRam_frame taken
    exact ⟨recorded, front, fits, laid.early, laid.working⟩
  | wsAlloc size =>
    subst step
    obtain ⟨avoid, next, frame⟩ := wsAlloc_frame b.st size.toNat
    have ram : (Startup.wsAlloc b.st size.toNat).1.ramList = b.st.ramList := by rw [frame]
    have early := @wsAlloc_early _ size.toNat _ laid.early fun exhausted => by
      simpa only [RamCall.NoWrap, exhausted, if_true] using noWrap.2
    refine ⟨recorded, front, ram.symm ▸ laid.ram, early, ?_⟩
    rintro x (before | now)
    · exact laid.working x before
    · exact laid.wsMemory_apart calm noWrap x now

/-! ## When the tables are contained -/

theorem Storage.Laid.contained_iff {shdr : StartupHeader} {b : Storage} (laid : b.Laid shdr)
    (calm : shdr.NoWrap) :
    b.Contained shdr ↔ 8 * b.st.avoidList.length ≤ MAX_AVOID_LIST_SIZE := by
  have base := calm.ramBase
  have ram := laid.ram
  unfold RamFits at ram
  constructor
  · intro contained
    by_contra overrun
    have behind : shdr.avoidBase + MAX_AVOID_LIST_SIZE ∈ b.avoidBytes shdr :=
      ⟨Nat.le_add_right _ _, by omega⟩
    exact (contained.avoid behind).2.false
  · intro short
    have avoid : b.avoidBytes shdr ⊆
        Set.Ico shdr.avoidBase (shdr.avoidBase + MAX_AVOID_LIST_SIZE) :=
      Set.Ico_subset_Ico_right (by omega)
    have list : b.ramBytes shdr ⊆ Set.Ico shdr.ramBase (shdr.ramBase + MAX_RAM_LIST_SIZE) :=
      Set.Ico_subset_Ico_right (by omega)
    refine ⟨avoid, list, ?_, ?_⟩
    · refine Set.disjoint_left.mpr fun x inAvoid inRam => ?_
      have := (avoid inAvoid).2
      have := (list inRam).1
      omega
    · refine Set.disjoint_left.mpr ?_
      rintro x (inAvoid | inRam) working
      · have := avoid inAvoid
        have := laid.working x working
        simp only [Set.mem_Ico] at *
        omega
      · have := list inRam
        have := laid.working x working
        simp only [Set.mem_Ico] at *
        omega

/-- A call keeps the tables contained exactly if it finds room for what it registers. -/
theorem Storage.Laid.contained_step {shdr : StartupHeader} {b b' : Storage} {call : RamCall}
    (laid : b.Laid shdr) (calm : shdr.NoWrap) (contained : b.Contained shdr)
    (step : call.Calm shdr b b') : b'.Contained shdr ↔ call.HasRoom shdr b := by
  have laid' := laid.step calm step
  rw [laid.contained_iff calm] at contained
  rw [laid'.contained_iff calm]
  have length := congrArg List.length laid.recorded.table
  have length' := congrArg List.length laid'.recorded.table
  simp only [avoidTable, List.length_append, List.length_map, List.length_singleton] at *
  obtain ⟨more, ranges, ⟨registers, one⟩ | ⟨silent, rfl⟩⟩ := step.1.ranges
  · simp only [RamCall.HasRoom, registers, forall_const]
    rw [ranges, List.length_append, one] at length'
    rw [length, length']
  · simp only [RamCall.HasRoom, silent, false_imp_iff, iff_true]
    rw [List.append_nil] at ranges
    rw [length', ranges, ← length]
    exact contained

/-- Along every run the tables stay contained exactly if each call finds room for
what it registers. -/
theorem tables_contained {shdr : StartupHeader} {secureSystem : Bool} {asinfo : Asinfo} {mem : Mem}
    {calls : List RamCall} (calm : shdr.NoWrap) :
    (∀ pre b, pre <+: calls →
        Run (RamCall.Calm shdr) (Storage.start shdr secureSystem asinfo mem) pre b →
        b.Contained shdr) ↔
      ∀ pre call b b', pre ++ [call] <+: calls →
        Run (RamCall.Calm shdr) (Storage.start shdr secureSystem asinfo mem) pre b →
        call.Calm shdr b b' → call.HasRoom shdr b := by
  have laid : (Storage.start shdr secureSystem asinfo mem).Laid shdr := Storage.Laid.start calm
  have contained : (Storage.start shdr secureSystem asinfo mem).Contained shdr := by
    refine (laid.contained_iff calm).mpr ?_
    rw [laid.recorded.table]
    exact (by decide : 8 * 4 ≤ MAX_AVOID_LIST_SIZE)
  exact Run.along_iff (fun laid step => laid.step calm step)
    (fun laid contained step => laid.contained_step calm contained step) laid contained

/-- A run registers at most one range a call, on top of the three of `ws_init`. -/
theorem length_ranges_le {shdr : StartupHeader} {b b' : Storage} {calls : List RamCall}
    (run : Run (RamCall.Calm shdr) b calls b') :
    b'.ranges.length ≤ b.ranges.length + calls.length := by
  induction run with
  | nil => exact le_rfl
  | cons first _ ih =>
    obtain ⟨more, ranges, ⟨_, one⟩ | ⟨_, rfl⟩⟩ := first.1.ranges
    · rw [ranges, List.length_append, one] at ih
      simp only [List.length_cons]
      omega
    · rw [ranges, List.append_nil] at ih
      simp only [List.length_cons]
      omega

theorem hasRoom_of_short {shdr : StartupHeader} {secureSystem : Bool} {asinfo : Asinfo} {mem : Mem}
    {pre : List RamCall} {call : RamCall} {b : Storage} (calm : shdr.NoWrap)
    (short : pre.length < 124)
    (run : Run (RamCall.Calm shdr) (Storage.start shdr secureSystem asinfo mem) pre b) :
    call.HasRoom shdr b := by
  have laid : b.Laid shdr := run.invariant (fun laid step => laid.step calm step)
    (Storage.Laid.start calm)
  have bound := length_ranges_le run
  intro registers
  rw [laid.recorded.table]
  have three : (Storage.start shdr secureSystem asinfo mem).ranges.length = 3 := rfl
  simp only [avoidTable, List.length_append, List.length_map, List.length_singleton,
    MAX_AVOID_LIST_SIZE]
  omega

theorem tables_contained_small :
    ∃ b, Run (RamCall.Calm smallHeader) smallStorage
      [.wsAlloc 8, .addRam 0x10003000 0x20000, .avoidRam 0x10004000 0x1000, .wsAlloc 16] b ∧
      b.Contained smallHeader := by
  have run : Run (RamCall.Calm smallHeader) smallStorage
      [.wsAlloc 8, .addRam 0x10003000 0x20000, .avoidRam 0x10004000 0x1000, .wsAlloc 16] _ :=
    .cons ⟨rfl, by decide, (by decide : smallStorage.st.wsEarlyNext + 8 < PADDR_SPACE)⟩
      (.cons ⟨⟨_, rfl, rfl⟩, trivial⟩ (.cons ⟨rfl, trivial⟩
        (.cons ⟨rfl, by decide, Or.inr ⟨by decide, fun missed => nomatch missed⟩⟩ .nil)))
  refine ⟨_, run, (tables_contained smallHeader_noWrap).mpr ?_ _ _ List.prefix_rfl run⟩
  intro pre call b b' below before _
  have short := below.length_le
  simp only [List.length_append, List.length_cons, List.length_nil] at short
  exact hasRoom_of_short smallHeader_noWrap (by omega) before

/-- Calls of `avoid_ram` alone, which nothing stops. -/
theorem avoidRam_run (shdr : StartupHeader) (start size : BitVec 32) (n : Nat) (b : Storage) :
    ∃ b', Run (RamCall.Calm shdr) b (List.replicate n (.avoidRam start size)) b' ∧
      b'.ranges.length = b.ranges.length + n ∧ b'.st.ramList = b.st.ramList := by
  induction n generalizing b with
  | zero => exact ⟨b, .nil, rfl, rfl⟩
  | succ n ih =>
    obtain ⟨b', run, length, list⟩ := ih
      { b with st := avoidRam b.st start.toNat size.toNat,
               ranges := b.ranges ++ [⟨start, size⟩] }
    refine ⟨b', .cons ⟨rfl, trivial⟩ run, ?_, list⟩
    rw [length, List.length_append, List.length_singleton]
    omega

/-- 125 ranges on top of those of `ws_init`: the terminator is in the free list. -/
theorem tables_overrun :
    ∃ b, Run (RamCall.Calm smallHeader) smallStorage
      (List.replicate 125 (.avoidRam 0x80000000 0x1000)) b ∧
      ¬Disjoint (b.avoidBytes smallHeader) (b.ramBytes smallHeader) ∧
      ¬b.Contained smallHeader := by
  obtain ⟨b, run, length, list⟩ := avoidRam_run smallHeader 0x80000000 0x1000 125 smallStorage
  have laid : b.Laid smallHeader := run.invariant
    (fun laid step => laid.step smallHeader_noWrap step) (Storage.Laid.start smallHeader_noWrap)
  have avoid : b.st.avoidList.length = 129 := by
    rw [laid.recorded.table, avoidTable, List.length_append, List.length_map, length]
    rfl
  have both : ¬Disjoint (b.avoidBytes smallHeader) (b.ramBytes smallHeader) := by
    unfold Storage.avoidBytes Storage.ramBytes
    rw [avoid, list]
    have inAvoid : smallHeader.ramBase ∈
        Set.Ico smallHeader.avoidBase (smallHeader.avoidBase + 8 * 129) := ⟨by decide, by decide⟩
    exact fun apart => Set.disjoint_left.mp apart inAvoid ⟨le_rfl, by decide⟩
  exact ⟨b, run, both, fun contained => both contained.apart⟩

end Mx6xBsp.Startup
