import Mx6xBsp.Startup.Ifs2Restore
import Mx6xBsp.Startup.RamCalls
import Mx6xBsp.Startup.RamWrap

/-!
# The memory of the second image

`load_ifs2_nonbootable` allocates the destination of the image itself, or takes
it from the options; in the second case `rifs_load_ifs2` reserves it, but
`rifs_restore_ifs2` does not. `ifs2_reserved_iff` says on which states the whole
range is out of the free list at the end, whatever way was taken.
-/

namespace Mx6xBsp.Startup

open Spans Runs

variable {L : ImageLayout} {st st' : RifsState} {es : List RamEntry}

/-- `alloc_ram` told to take `[addr, addr + size)` removes all of it from `free`: the block ends
below `2 ^ 32`, or nothing from its start on is free, or it ends at `2 ^ 32` in free memory. -/
def Removable (free : Set Nat) (addr size : Nat) : Prop :=
  addr + size < PADDR_SPACE ∨ Disjoint free (Set.Ico addr PADDR_SPACE) ∨
    (addr + size = PADDR_SPACE ∧ RemovedToTop free addr)

/-- The block `rifs_restore_ifs2` gets for its info. -/
def ifs2Info (st : RifsState) : Nat := findRam st.ram sizeofRestoreIfs2Info 8 0 0

/-- The free memory once the info is allocated. -/
def freeBesideInfo (st : RifsState) : Set Nat :=
  {x | x ∈ freeSet st.ram.ramList ∧
    ¬ (st.has RIFS_FLAG_IFS2_RESTORE ∧ ifs2Info st ≠ NULL_PADDR ∧
      ifs2Info st ≤ x ∧ x < ifs2Info st + sizeofRestoreIfs2Info)}

/-- Memory once the info is allocated: a secure system has zeroed it. -/
def memBesideInfo (st : RifsState) : Mem :=
  if ifs2Info st = NULL_PADDR then st.mem
  else (zeroSecure st.ram (ifs2Info st) sizeofRestoreIfs2Info).mem

/-- The states in which `load_ifs2_nonbootable` takes the range of the image out of the free
list. -/
inductive Reserves (L : ImageLayout) (st : RifsState) : Prop
  | found : st.has RIFS_FLAG_IFS2_DST = false → findRam st.ram st.ifs2Size 0x1000 0 0 ≠ NULL_PADDR →
    Reserves L st
  | notFound : st.has RIFS_FLAG_IFS2_DST = false →
    findRam st.ram st.ifs2Size 0x1000 0 0 = NULL_PADDR →
    (st.ifs2Size = 0 ∨ NULL_PADDR ∉ freeSet st.ram.ramList) → Reserves L st
  | loaded : st.has RIFS_FLAG_IFS2_DST →
    ¬ (st.has RIFS_FLAG_IFS2_RESTORE ∧ Accepted L st (memBesideInfo st) (ifs2Info st)) →
    Removable (freeBesideInfo st) st.ifs2PaddrDst st.ifs2Size → Reserves L st
  | restored : st.has RIFS_FLAG_IFS2_DST →
    st.has RIFS_FLAG_IFS2_RESTORE → Accepted L st (memBesideInfo st) (ifs2Info st) →
    Disjoint (freeBesideInfo st) (Set.Ico st.ifs2PaddrDst (st.ifs2PaddrDst + st.ifs2Size)) →
    Reserves L st

/-- A block at a given address is removed exactly if it is `Removable`. -/
theorem takeRam_removes_iff {st st' : RamState} {addr size : Nat} (table : RamTable st.ramList es)
    (low : addr < PADDR_SPACE) (width : size < PADDR_SPACE)
    (call : takeRam st addr size = .ok st') :
    (Removable (freeSet st.ramList) addr size → ∃ es', RamTable st'.ramList es') ∧
      (Disjoint (freeSet st'.ramList) (Set.Ico addr (addr + size)) ↔
        Removable (freeSet st.ramList) addr size) := by
  rcases Nat.lt_or_ge (addr + size) PADDR_SPACE with fits | wraps
  · obtain ⟨_, table', free⟩ := takeRam_taken table fits call
    refine ⟨fun _ => table', iff_of_true ?_ (Or.inl fits)⟩
    rw [free]
    exact Set.disjoint_sdiff_left
  obtain ⟨ram, asinfo, rfl, loop⟩ := takeRam_frame call
  have stop : paddr (addr + size) = addr + size - PADDR_SPACE := by
    rw [paddr, Nat.mod_eq_sub_mod wraps, Nat.mod_eq_of_lt (by omega)]
  rw [stop] at loop
  rcases wraps.lt_or_eq with past | ends
  · obtain ⟨t, term, slots⟩ := table.slots
    rw [slots] at loop
    obtain ⟨keeps, table'⟩ := allocLoop_past_keeps (by omega) (by omega) low term table.separated
      table.bounded loop
    rw [← table.freeSet] at keeps table'
    have same : Disjoint (freeSet ram) (Set.Ico addr (addr + size)) ↔
        Disjoint (freeSet st.ramList) (Set.Ico addr PADDR_SPACE) := by
      rw [Set.disjoint_left, Set.disjoint_left]
      constructor
      · intro apart x free within
        exact apart ((keeps x within.1).mpr free) ⟨within.1, within.2.trans past⟩
      · intro apart x free within
        have before := (keeps x within.1).mp free
        exact apart before ⟨within.1, table.freeSet_lt before⟩
    have wide : Removable (freeSet st.ramList) addr size ↔
        Disjoint (freeSet st.ramList) (Set.Ico addr PADDR_SPACE) := by
      refine ⟨?_, fun apart => Or.inr (Or.inl apart)⟩
      rintro (small | apart | ⟨ends, _⟩)
      · omega
      · exact apart
      · omega
    rw [wide]
    exact ⟨fun apart => table' fun free => Set.disjoint_left.mp apart free ⟨le_rfl, low⟩, same⟩
  · rw [← ends, Nat.sub_self] at loop
    obtain ⟨table', removed⟩ := allocLoop_wrap_removes_iff table (by omega) low loop
    have wide : Removable (freeSet st.ramList) addr size ↔
        RemovedToTop (freeSet st.ramList) addr := by
      refine ⟨?_, fun removed => Or.inr (Or.inr ⟨ends.symm, removed⟩)⟩
      rintro (small | apart | ⟨_, removed⟩)
      · omega
      · exact Or.inl apart
      · exact removed
    rw [wide, ← ends]
    exact ⟨table', removed⟩

/-! ## The steps of `load_ifs2_nonbootable` -/

/-- What the options leave: 32-bit values, and a destination on a page boundary. -/
structure RifsState.FromOptions (st : RifsState) : Prop where
  size : st.ifs2Size < PADDR_SPACE
  dst : st.has RIFS_FLAG_IFS2_DST → st.ifs2PaddrDst < PADDR_SPACE ∧ st.ifs2PaddrDst % 4096 = 0

/-- Allocating the info leaves `freeBesideInfo` and `memBesideInfo`. -/
theorem allocInfo_spec {ram : RamState} {info : Nat} (table : RamTable st.ram.ramList es)
    (restores : st.has RIFS_FLAG_IFS2_RESTORE)
    (alloc : allocRam st.ram NULL_PADDR sizeofRestoreIfs2Info 8 = .ok (ram, info)) :
    info = ifs2Info st ∧ ram.mem = memBesideInfo st ∧ (∃ es', RamTable ram.ramList es') ∧
      freeSet ram.ramList = freeBesideInfo st := by
  have target : allocTarget st.ram NULL_PADDR sizeofRestoreIfs2Info 8 = ifs2Info st := if_pos rfl
  by_cases missing : ifs2Info st = NULL_PADDR
  · rw [allocRam_missing (target.trans missing)] at alloc
    cases alloc
    refine ⟨missing.symm, (if_pos missing).symm, ⟨es, table⟩, ?_⟩
    ext x
    simp [freeBesideInfo, missing]
  · obtain ⟨same, ⟨null, _⟩ | ⟨_, _, taken⟩⟩ := allocRam_cases table (Or.inl rfl) alloc
    · exact absurd (target.symm.trans (same.symm.trans null)) missing
    have info_eq : info = ifs2Info st := same.trans target
    refine ⟨info_eq, ?_, taken.table, ?_⟩
    · rw [allocRam_found (fun null => missing (target.symm.trans null))] at alloc
      obtain ⟨_, took, done⟩ := Except.bind_eq_ok.mp alloc
      cases done
      obtain ⟨_, _, rfl, _⟩ := takeRam_frame took
      simp only [memBesideInfo, if_neg missing]
      rfl
    · rw [taken.free, info_eq]
      ext x
      simp [freeBesideInfo, missing, restores]

/-- Only a destination from the options is reserved by `rifs_load_ifs2`. -/
theorem rifsLoadIfs2_frame (call : rifsLoadIfs2 L st = .ok st') :
    ∃ ram, (if st.has RIFS_FLAG_IFS2_DST
        then ∃ got, allocRam st.ram st.ifs2PaddrDst st.ifs2Size 0x1000 = .ok (ram, got)
        else ram = st.ram) ∧
      st'.ram.ramList = ram.ramList ∧ st'.ifs2PaddrDst = st.ifs2PaddrDst ∧
      st'.ifs2Size = st.ifs2Size := by
  obtain ⟨ram, reserved, call⟩ := Except.bind_eq_ok.mp call
  obtain ⟨mem, _, call⟩ := Except.bind_eq_ok.mp call
  cases call
  refine ⟨ram, ?_, rfl, rfl, rfl⟩
  change (if st.has RIFS_FLAG_IFS2_DST
    then (allocRam st.ram st.ifs2PaddrDst st.ifs2Size 0x1000).map Prod.fst
    else .ok st.ram) = .ok ram at reserved
  split_ifs at reserved ⊢ with dst
  · obtain ⟨⟨ram', got⟩, alloc, rfl⟩ := Except.exists_of_map reserved
    exact ⟨got, alloc⟩
  · cases reserved
    rfl

theorem rifsLoadIfs2_reserves (table : RamTable st.ram.ramList es)
    (dst : st.has RIFS_FLAG_IFS2_DST) (options : st.FromOptions)
    (call : rifsLoadIfs2 L st = .ok st') :
    (Removable (freeSet st.ram.ramList) st.ifs2PaddrDst st.ifs2Size →
        ∃ es', RamTable st'.ram.ramList es') ∧
      (Disjoint (freeSet st'.ram.ramList)
          (Set.Ico st'.ifs2PaddrDst (st'.ifs2PaddrDst + st'.ifs2Size)) ↔
        Removable (freeSet st.ram.ramList) st.ifs2PaddrDst st.ifs2Size) := by
  obtain ⟨ram, reserved, list, place, size⟩ := rifsLoadIfs2_frame call
  obtain ⟨low, aligned⟩ := options.dst dst
  rw [if_pos dst] at reserved
  obtain ⟨got, alloc⟩ := reserved
  have given : st.ifs2PaddrDst ≠ NULL_PADDR := by
    unfold NULL_PADDR
    omega
  rw [allocRam, if_neg given] at alloc
  obtain ⟨_, took, done⟩ := Except.bind_eq_ok.mp alloc
  cases done
  rw [list, place, size]
  exact takeRam_removes_iff table low options.size took

theorem reserves_loaded_iff (dst : st.has RIFS_FLAG_IFS2_DST)
    (load : ¬ (st.has RIFS_FLAG_IFS2_RESTORE ∧ Accepted L st (memBesideInfo st) (ifs2Info st))) :
    Reserves L st ↔ Removable (freeBesideInfo st) st.ifs2PaddrDst st.ifs2Size := by
  constructor
  · intro reserves
    cases reserves with
    | found none _ => exact absurd dst (by simp [none])
    | notFound none _ _ => exact absurd dst (by simp [none])
    | loaded _ _ removable => exact removable
    | restored _ restores accepted _ => exact absurd ⟨restores, accepted⟩ load
  · exact fun removable => .loaded dst load removable

theorem reserves_restored_iff (dst : st.has RIFS_FLAG_IFS2_DST)
    (restores : st.has RIFS_FLAG_IFS2_RESTORE)
    (accepted : Accepted L st (memBesideInfo st) (ifs2Info st)) :
    Reserves L st ↔ Disjoint (freeBesideInfo st)
      (Set.Ico st.ifs2PaddrDst (st.ifs2PaddrDst + st.ifs2Size)) := by
  constructor
  · intro reserves
    cases reserves with
    | found none _ => exact absurd dst (by simp [none])
    | notFound none _ _ => exact absurd dst (by simp [none])
    | loaded _ load _ => exact absurd ⟨restores, accepted⟩ load
    | restored _ _ _ apart => exact apart
  · exact fun apart => .restored dst restores accepted apart

/-- What `load_ifs2_nonbootable` does with a destination from the options. -/
theorem loadIfs2_given_iff (table : RamTable st.ram.ramList es) (dst : st.has RIFS_FLAG_IFS2_DST)
    (options : st.FromOptions) (call : loadIfs2Nonbootable L st = .ok st') :
    (Reserves L st → ∃ es', RamTable st'.ram.ramList es') ∧
      (Disjoint (freeSet st'.ram.ramList)
          (Set.Ico st'.ifs2PaddrDst (st'.ifs2PaddrDst + st'.ifs2Size)) ↔ Reserves L st) := by
  have placed : placeIfs2 st = .ok st := if_pos dst
  rw [loadIfs2Nonbootable, placed, Except.ok_bind] at call
  by_cases restores : st.has RIFS_FLAG_IFS2_RESTORE
  · rw [if_pos restores] at call
    obtain ⟨⟨st₁, status⟩, restore, call⟩ := Except.bind_eq_ok.mp call
    obtain ⟨ram, info, alloc, rfl, answer⟩ := rifsRestoreIfs2_status restore
    obtain ⟨rfl, mem, ⟨es₁, table₁⟩, free⟩ := allocInfo_spec table restores alloc
    rw [mem] at answer
    rcases answer with ⟨rfl, accepted⟩ | ⟨rfl, refused⟩
    · cases call
      rw [reserves_restored_iff dst restores accepted, ← free]
      exact ⟨fun _ => ⟨es₁, table₁⟩, Iff.rfl⟩
    · rw [reserves_loaded_iff dst fun h => refused h.2, ← free]
      exact @rifsLoadIfs2_reserves _ { st with ram := ram, rifs2Info := ifs2Info st } _ _ table₁ dst
          ⟨options.size, options.dst⟩ call
  · have kept : freeBesideInfo st = freeSet st.ram.ramList := by
      ext x
      simp [freeBesideInfo, restores]
    rw [if_neg restores] at call
    rw [reserves_loaded_iff dst fun h => restores h.1, kept]
    exact rifsLoadIfs2_reserves table dst options call

/-- Without a destination from the options `rifs_load_ifs2` reserves nothing. -/
theorem rifsLoadIfs2_kept (dst : st.has RIFS_FLAG_IFS2_DST = false)
    (call : rifsLoadIfs2 L st = .ok st') :
    st'.ram.ramList = st.ram.ramList ∧ st'.ifs2PaddrDst = st.ifs2PaddrDst ∧
      st'.ifs2Size = st.ifs2Size := by
  obtain ⟨ram, reserved, list, place, size⟩ := rifsLoadIfs2_frame call
  rw [if_neg (by simp [dst])] at reserved
  subst reserved
  exact ⟨list, place, size⟩

/-- Behind `placeIfs2` at most the info leaves the free list. -/
theorem loadIfs2_placed {st₁ : RifsState} (dst : st₁.has RIFS_FLAG_IFS2_DST = false)
    (placed : placeIfs2 st = .ok st₁)
    (table : RamTable st₁.ram.ramList es) (call : loadIfs2Nonbootable L st = .ok st') :
    st'.ifs2PaddrDst = st₁.ifs2PaddrDst ∧ st'.ifs2Size = st₁.ifs2Size ∧
      (∃ es', RamTable st'.ram.ramList es') ∧
      freeSet st'.ram.ramList = freeBesideInfo st₁ := by
  rw [loadIfs2Nonbootable, placed, Except.ok_bind] at call
  by_cases restores : st₁.has RIFS_FLAG_IFS2_RESTORE
  · rw [if_pos restores] at call
    obtain ⟨⟨st₂, status⟩, restore, call⟩ := Except.bind_eq_ok.mp call
    obtain ⟨ram, info, alloc, rfl, answer⟩ := rifsRestoreIfs2_status restore
    obtain ⟨rfl, _, table₁, free⟩ := allocInfo_spec table restores alloc
    rcases answer with ⟨rfl, _⟩ | ⟨rfl, _⟩
    · cases call
      exact ⟨rfl, rfl, table₁, free⟩
    · obtain ⟨list, place, size⟩ := @rifsLoadIfs2_kept _
          { st₁ with ram := ram, rifs2Info := ifs2Info st₁ } _ dst call
      rw [list]
      exact ⟨place, size, table₁, free⟩
  · rw [if_neg restores] at call
    obtain ⟨list, place, size⟩ := rifsLoadIfs2_kept dst call
    have kept : freeBesideInfo st₁ = freeSet st₁.ram.ramList := by
      ext x
      simp [freeBesideInfo, restores]
    rw [list, kept]
    exact ⟨place, size, ⟨es, table⟩, rfl⟩

theorem freeBesideInfo_subset : freeBesideInfo st ⊆ freeSet st.ram.ramList := fun _ mem => mem.1

theorem null_mem_freeBesideInfo :
    NULL_PADDR ∈ freeBesideInfo st ↔ NULL_PADDR ∈ freeSet st.ram.ramList := by
  refine ⟨fun mem => mem.1, fun mem => ⟨mem, ?_⟩⟩
  rintro ⟨_, found, _, high⟩
  have small := findRam_lt found
  simp only [ifs2Info, NULL_PADDR, PADDR_SPACE] at small high
  omega

/-- Without memory for the image the destination is `NULL_PADDR`. -/
theorem notFound_iff (table : RamTable st.ram.ramList es)
    (dst : st.has RIFS_FLAG_IFS2_DST = false)
    (missing : findRam st.ram st.ifs2Size 0x1000 0 0 = NULL_PADDR) :
    Disjoint (freeBesideInfo st) (Set.Ico NULL_PADDR (NULL_PADDR + st.ifs2Size)) ↔
      Reserves L st := by
  constructor
  · intro apart
    refine .notFound dst missing ?_
    by_contra exposed
    push Not at exposed
    obtain ⟨nonempty, free⟩ := exposed
    exact Set.disjoint_left.mp apart (null_mem_freeBesideInfo.mpr free) ⟨le_rfl, by omega⟩
  · intro reserves
    cases reserves with
    | found _ found => exact absurd missing found
    | notFound _ _ harmless =>
      rw [Set.disjoint_left]
      rintro x free ⟨low, high⟩
      rcases harmless with empty | used
      · omega
      · have small : x < PADDR_SPACE := table.freeSet_lt (freeBesideInfo_subset free)
        obtain rfl : x = NULL_PADDR := by
          simp only [NULL_PADDR, PADDR_SPACE] at *
          omega
        exact used (null_mem_freeBesideInfo.mp free)
    | loaded given _ _ => exact absurd given (by simp [dst])
    | restored given _ _ _ => exact absurd given (by simp [dst])

/-- What `load_ifs2_nonbootable` does with a destination of its own. -/
theorem loadIfs2_own_iff (table : RamTable st.ram.ramList es)
    (dst : st.has RIFS_FLAG_IFS2_DST = false) (call : loadIfs2Nonbootable L st = .ok st') :
    (∃ es', RamTable st'.ram.ramList es') ∧
      (Disjoint (freeSet st'.ram.ramList)
          (Set.Ico st'.ifs2PaddrDst (st'.ifs2PaddrDst + st'.ifs2Size)) ↔ Reserves L st) := by
  have unset : ¬ st.has RIFS_FLAG_IFS2_DST := by simp [dst]
  obtain ⟨st₁, placed, _⟩ := Except.bind_eq_ok.mp call
  have placing := placed
  rw [placeIfs2, if_neg unset] at placing
  obtain ⟨⟨ram, got⟩, alloc, done⟩ := Except.bind_eq_ok.mp placing
  cases done
  have target : allocTarget st.ram NULL_PADDR st.ifs2Size 0x1000 =
      findRam st.ram st.ifs2Size 0x1000 0 0 := if_pos rfl
  obtain ⟨same, ⟨null, rfl⟩ | ⟨found, fits, taken⟩⟩ := allocRam_cases table (Or.inl rfl) alloc
  · obtain ⟨place, size, table', free⟩ := @loadIfs2_placed _ _ _ _
        { st with ram := st.ram, ifs2PaddrDst := got } dst placed table call
    subst null
    rw [target] at same
    refine ⟨table', ?_⟩
    rw [place, size, free]
    exact notFound_iff table dst same.symm
  · obtain ⟨es₁, table₁⟩ := taken.table
    obtain ⟨place, size, table', free⟩ := @loadIfs2_placed _ _ _ _
        { st with ram := ram, ifs2PaddrDst := got } dst placed table₁ call
    refine ⟨table', iff_of_true ?_ (.found dst ?_)⟩
    · rw [place, size, free]
      refine Disjoint.mono_left freeBesideInfo_subset ?_
      rw [taken.free]
      exact Set.disjoint_sdiff_left
    · rw [← target, ← same]
      exact found

/-! ## The whole call -/

/-- A later `alloc_ram(NULL_PADDR, size, align)` that returns `got`. -/
structure LaterAlloc where
  size : Nat
  align : Nat
  got : Nat

def LaterAlloc.Step (ram : RamState) (call : LaterAlloc) (ram' : RamState) : Prop :=
  allocRam ram NULL_PADDR call.size call.align = .ok (ram', call.got) ∧
    ram.SearchNoWrap call.size call.align 0 0

theorem later_apart {ram ram' : RamState} {calls : List LaterAlloc} {range : Set Nat}
    (table : RamTable ram.ramList es) (apart : Disjoint (freeSet ram.ramList) range)
    (run : Run LaterAlloc.Step ram calls ram') :
    ∀ call ∈ calls, call.got ≠ NULL_PADDR →
      Disjoint (Set.Ico call.got (call.got + call.size)) range := by
  induction run generalizing es with
  | nil => simp
  | @cons ram mid ram' call calls first _ ih =>
    obtain ⟨alloc, calm⟩ := first
    obtain ⟨same, rest⟩ := allocRam_cases table (Or.inl rfl) alloc
    have target : call.got = findRam ram call.size call.align 0 0 := same.trans (if_pos rfl)
    refine List.forall_mem_cons.mpr ⟨fun found => ?_, ?_⟩
    · rw [target] at found ⊢
      exact apart.mono_left (findRam_fits calm (by decide) found).subset_freeSet
    · obtain ⟨_, rfl⟩ | ⟨_, _, taken⟩ := rest
      · exact ih table apart
      · obtain ⟨es', table'⟩ := taken.table
        refine ih table' (apart.mono_left ?_)
        rw [taken.free]
        exact Set.sdiff_subset

/-- `load_ifs2_nonbootable` leaves the whole range of the image out of the free list exactly on
the states of `Reserves`, and then no later search hands any of it out. -/
theorem ifs2_reserved_iff (table : RamTable st.ram.ramList es) (options : st.FromOptions)
    (call : loadIfs2Nonbootable L st = .ok st') :
    (Disjoint (freeSet st'.ram.ramList)
        (Set.Ico st'.ifs2PaddrDst (st'.ifs2PaddrDst + st'.ifs2Size)) ↔ Reserves L st) ∧
      (Reserves L st → ∀ calls ram', Run LaterAlloc.Step st'.ram calls ram' →
        ∀ call ∈ calls, call.got ≠ NULL_PADDR →
          Disjoint (Set.Ico call.got (call.got + call.size))
            (Set.Ico st'.ifs2PaddrDst (st'.ifs2PaddrDst + st'.ifs2Size))) := by
  have outcome : (Reserves L st → ∃ es', RamTable st'.ram.ramList es') ∧
      (Disjoint (freeSet st'.ram.ramList)
          (Set.Ico st'.ifs2PaddrDst (st'.ifs2PaddrDst + st'.ifs2Size)) ↔ Reserves L st) := by
    by_cases dst : st.has RIFS_FLAG_IFS2_DST
    · exact loadIfs2_given_iff table dst options call
    · obtain ⟨table', reserved⟩ := loadIfs2_own_iff table (Bool.eq_false_iff.mpr dst) call
      exact ⟨fun _ => table', reserved⟩
  obtain ⟨table', reserved⟩ := outcome
  refine ⟨reserved, fun reserves calls ram' run => ?_⟩
  obtain ⟨es', table'⟩ := table' reserves
  exact later_apart table' (reserved.mpr reserves) run

/-- A cold boot with a destination from the options and free memory around it. -/
def ifs2Fixed : RifsState :=
  { ifs2State with
    rifsFlag := 0x44
    ram := { ifs2State.ram with ramList := [⟨0x20000000, 0x1000⟩, ⟨0x30000000, 0x2000⟩, ⟨0, 0⟩] } }

theorem ifs2Fixed_table : RamTable ifs2Fixed.ram.ramList
    [⟨0x20000000, 0x1000⟩, ⟨0x30000000, 0x2000⟩] :=
  ⟨⟨⟨0, 0⟩, rfl, rfl⟩, ⟨by decide, by decide⟩, by decide⟩

theorem ifs2_reserved_iff_fixed : ∃ st', loadIfs2Nonbootable imageLayout ifs2Fixed = .ok st' ∧
    Disjoint (freeSet st'.ram.ramList)
      (Set.Ico st'.ifs2PaddrDst (st'.ifs2PaddrDst + st'.ifs2Size)) := by
  obtain ⟨st', call, _⟩ := Except.exists_of_map (x := loadIfs2Nonbootable imageLayout ifs2Fixed)
    (f := fun st => st.ifs2Size) (b := 0x1000) (by decide +kernel)
  refine ⟨st', call, (ifs2_reserved_iff ifs2Fixed_table ⟨by decide, by decide⟩ call).1.mpr ?_⟩
  exact .loaded rfl (fun h => absurd h.1 (by decide)) (Or.inl (by decide))

/-- A warm boot with the same options, on which the restore is accepted. -/
def ifs2Warm : RifsState :=
  { ifs2Written with
    ram := { ifs2Written.ram with
      ramList := [⟨0x20000000, 0x1000⟩, ⟨0x30000000, 0x2000⟩, ⟨0, 0⟩] } }

/-- The restored image stays in the free list. -/
theorem ifs2_unreserved : ¬ ∀ (L : ImageLayout) (st st' : RifsState) (es : List RamEntry),
    RamTable st.ram.ramList es → st.FromOptions → loadIfs2Nonbootable L st = .ok st' →
      Disjoint (freeSet st'.ram.ramList)
        (Set.Ico st'.ifs2PaddrDst (st'.ifs2PaddrDst + st'.ifs2Size)) := by
  intro claimed
  obtain ⟨st', call, result⟩ := Except.exists_of_map (x := loadIfs2Nonbootable imageLayout ifs2Warm)
    (f := fun st => (st.ifs2PaddrDst, st.ifs2Size, st.ram.ramList))
    (b := (0x30000000, 0x1000, [⟨0x20000010, 0xff0⟩, ⟨0x30000000, 0x2000⟩, ⟨0, 0⟩]))
    (by decide +kernel)
  simp only [Prod.mk.injEq] at result
  obtain ⟨place, size, list⟩ := result
  have apart := claimed imageLayout ifs2Warm st' _ ifs2Fixed_table ⟨by decide, by decide⟩ call
  rw [place, size, list] at apart
  have free : 0x30000000 ∈ freeSet [⟨0x20000010, 0xff0⟩, ⟨0x30000000, 0x2000⟩, ⟨0, 0⟩] :=
    mem_denote_entries.mpr ⟨⟨0x30000000, 0x2000⟩, by decide, by decide, by decide⟩
  exact Set.disjoint_left.mp apart free ⟨le_rfl, by decide⟩

end Mx6xBsp.Startup
