import Mx6xBsp.Startup.RamSearch

/-!
# `alloc_ram` and the meaning of the free list over a run

`alloc_ram` takes its block out of the free list and touches nothing else but
`asinfo` and, on a secure system, memory (`Taken`). Together with `addMem_table`
this makes `ram_list` a faithful picture of a set of addresses along every run
of `add_mem` and `alloc_ram`.
-/

namespace Mx6xBsp.Startup

open Spans Runs

/-- `[addr, addr + size)` left the free list of `st`. -/
structure Taken (st st' : RamState) (addr size : Nat) : Prop where
  frame : ∃ ram asinfo mem, st' = { st with ramList := ram, asinfo := asinfo, mem := mem }
  table : ∃ es, RamTable st'.ramList es
  free : freeSet st'.ramList = freeSet st.ramList \ Set.Ico addr (addr + size)

/-- The second part of `alloc_ram` edits the two tables only. -/
theorem takeRam_frame {st st' : RamState} {addr size : Nat}
    (call : takeRam st addr size = .ok st') :
    ∃ ram asinfo, st' = { st with ramList := ram, asinfo := asinfo } ∧
      allocLoop addr (paddr (addr + size)) (2 * st.ramList.length + 2) st.ramList 0 = .ok ram := by
  obtain ⟨ram, loop, call⟩ := Except.bind_eq_ok.mp call
  simp only at call
  split_ifs at call with added
  · obtain ⟨asinfo, _, call⟩ := Except.bind_eq_ok.mp call
    cases call
    exact ⟨ram, asinfo, rfl, loop⟩
  · cases call
    exact ⟨ram, st.asinfo, rfl, loop⟩

theorem takeRam_taken {st st' : RamState} {es : List RamEntry} {addr size : Nat}
    (table : RamTable st.ramList es) (fits : addr + size < PADDR_SPACE)
    (call : takeRam st addr size = .ok st') : Taken st st' addr size := by
  obtain ⟨ram, asinfo, rfl, loop⟩ := takeRam_frame call
  rw [paddr_of_lt fits] at loop
  obtain ⟨ram', es', loop', table', free⟩ | ⟨crash, _⟩ :=
    @allocLoop_table _ _ addr (addr + size) table (by omega)
  swap
  · rw [crash] at loop
    cases loop
  rw [loop] at loop'
  cases loop'
  refine ⟨⟨ram, asinfo, st.mem, rfl⟩, ⟨es', table'⟩, ?_⟩
  rw [table'.freeSet, table.freeSet, free]

/-- The block `alloc_ram` is asked for: the given address, or what `find_ram` finds. -/
def allocTarget (st : RamState) (addr size align : Nat) : Nat :=
  if addr = NULL_PADDR then findRam st size align 0 0 else addr

/-- The state in which `alloc_ram` takes its block. -/
def allocFrom (st : RamState) (addr size align : Nat) : RamState :=
  if addr = NULL_PADDR then zeroSecure st (findRam st size align 0 0) size else st

theorem allocFrom_frame (st : RamState) (addr size align : Nat) :
    ∃ mem, allocFrom st addr size align = { st with mem := mem } := by
  unfold allocFrom
  split_ifs
  · exact ⟨_, rfl⟩
  · exact ⟨st.mem, rfl⟩

theorem allocRam_missing {st : RamState} {addr size align : Nat}
    (missing : allocTarget st addr size align = NULL_PADDR) :
    allocRam st addr size align = .ok (st, NULL_PADDR) := by
  unfold allocTarget at missing
  split_ifs at missing with search
  · rw [allocRam, if_pos search, if_pos missing]
  · exact absurd missing search

theorem allocRam_found {st : RamState} {addr size align : Nat}
    (found : allocTarget st addr size align ≠ NULL_PADDR) :
    allocRam st addr size align = do
      let st' ← takeRam (allocFrom st addr size align) (allocTarget st addr size align) size
      return (st', allocTarget st addr size align) := by
  rw [allocRam]
  unfold allocTarget allocFrom at *
  split_ifs at found ⊢ with search
  · simp only [found, if_false]
  · rfl

/-! ## What the calls leave as it was -/

/-- `alloc_ram` leaves everything but the free list, `asinfo` and memory as it was. -/
theorem allocRam_frame {st st' : RamState} {addr size align got : Nat}
    (call : allocRam st addr size align = .ok (st', got)) :
    ∃ ram asinfo mem, st' = { st with ramList := ram, asinfo := asinfo, mem := mem } := by
  by_cases missing : allocTarget st addr size align = NULL_PADDR
  · rw [allocRam_missing missing] at call
    cases call
    exact ⟨st.ramList, st.asinfo, st.mem, rfl⟩
  · rw [allocRam_found missing] at call
    obtain ⟨st₁, taken, call⟩ := Except.bind_eq_ok.mp call
    cases call
    obtain ⟨mem, source⟩ := allocFrom_frame st addr size align
    rw [source] at taken
    obtain ⟨ram, asinfo, rfl, _⟩ := takeRam_frame taken
    exact ⟨ram, asinfo, mem, rfl⟩

/-- So does `add_ram` up to its search for the temporary system page. -/
theorem addRamMemory_frame {shdr : StartupHeader} {st mid : RamState} {start size : Nat}
    (call : addRamMemory shdr st start size = .ok mid) :
    ∃ ram asinfo mem, mid = { st with ramList := ram, asinfo := asinfo, mem := mem } := by
  obtain ⟨asinfo₀, _, call⟩ := Except.bind_eq_ok.mp call
  obtain ⟨⟨asinfo₁, _⟩, _, call⟩ := Except.bind_eq_ok.mp call
  obtain ⟨ram₁, _, call⟩ := Except.bind_eq_ok.mp call
  obtain ⟨⟨st', got⟩, taken, call⟩ := Except.bind_eq_ok.mp call
  cases call
  obtain ⟨ram, asinfo, mem, rfl⟩ := allocRam_frame taken
  exact ⟨ram, asinfo, mem, rfl⟩

theorem findTempSyspage_frame (st : RamState) :
    ∃ temp avoid, findTempSyspage st = { st with tempSyspage := temp, avoidList := avoid } := by
  unfold findTempSyspage
  split_ifs
  · simp only
    split_ifs
    · exact ⟨_, _, rfl⟩
    · exact ⟨_, _, rfl⟩
  · exact ⟨_, _, rfl⟩

theorem wsAlloc_frame (st : RamState) (size : Nat) :
    ∃ avoid next, (wsAlloc st size).1 = { st with avoidList := avoid, wsEarlyNext := next } := by
  unfold wsAlloc
  simp only
  split_ifs
  · exact ⟨_, _, rfl⟩
  · exact ⟨_, _, rfl⟩
  · exact ⟨_, _, rfl⟩

/-! ## Blocks -/

theorem allocTarget_fits {st : RamState} {addr size align : Nat}
    (fits : addr = NULL_PADDR ∨ addr + size < PADDR_SPACE)
    (found : allocTarget st addr size align ≠ NULL_PADDR) :
    allocTarget st addr size align + size < PADDR_SPACE := by
  unfold allocTarget at *
  split_ifs at found ⊢ with search
  · exact findRam_lt found
  · exact fits.resolve_left search

theorem allocRam_cases {st st' : RamState} {es : List RamEntry} {addr size align got : Nat}
    (table : RamTable st.ramList es) (fits : addr = NULL_PADDR ∨ addr + size < PADDR_SPACE)
    (call : allocRam st addr size align = .ok (st', got)) :
    got = allocTarget st addr size align ∧
      ((got = NULL_PADDR ∧ st' = st) ∨
        (got ≠ NULL_PADDR ∧ got + size < PADDR_SPACE ∧ Taken st st' got size)) := by
  by_cases missing : allocTarget st addr size align = NULL_PADDR
  · rw [allocRam_missing missing] at call
    cases call
    exact ⟨missing.symm, Or.inl ⟨rfl, rfl⟩⟩
  · rw [allocRam_found missing] at call
    obtain ⟨st₁, taken, call⟩ := Except.bind_eq_ok.mp call
    cases call
    have small := allocTarget_fits fits missing
    refine ⟨rfl, Or.inr ⟨missing, small, ?_⟩⟩
    obtain ⟨mem, source⟩ := allocFrom_frame st addr size align
    rw [source] at taken
    obtain ⟨⟨ram, asinfo, mem', rfl⟩, table', free⟩ :=
      @takeRam_taken { st with mem := mem } _ _ _ _ table small taken
    exact ⟨⟨ram, asinfo, mem', rfl⟩, table', free⟩

/-- Before `add_sysram` only a full table stops `alloc_ram`. -/
theorem allocRam_returns {st : RamState} {es : List RamEntry} {addr size align : Nat}
    (table : RamTable st.ramList es) (fits : addr = NULL_PADDR ∨ addr + size < PADDR_SPACE)
    (room : es.length < 191) (unpublished : st.sysramAdded = false) :
    ∃ st' got, allocRam st addr size align = .ok (st', got) := by
  by_cases missing : allocTarget st addr size align = NULL_PADDR
  · exact ⟨_, _, allocRam_missing missing⟩
  obtain ⟨mem, source⟩ := allocFrom_frame st addr size align
  have small := allocTarget_fits fits missing
  obtain ⟨ram, es', loop, -⟩ | ⟨-, full⟩ :=
    @allocLoop_table _ _ (allocTarget st addr size align) (allocTarget st addr size align + size)
        table (by omega)
  · refine ⟨{ st with mem := mem, ramList := ram }, allocTarget st addr size align, ?_⟩
    rw [allocRam_found missing, source, takeRam, paddr_of_lt small]
    simp only [loop, unpublished]
    rfl
  · omega

/-! ## Runs of `add_mem` and `alloc_ram` -/

/-- A call that edits the free list; `got` is what `alloc_ram` returned. -/
inductive ListCall
  | addMem (start size : Nat)
  | allocRam (addr size align got : Nat)

def ListCall.Step (st : RamState) : ListCall → RamState → Prop
  | .addMem start size, st' =>
    ∃ ram, Startup.addMem st.ramList start size = .ok ram ∧ st' = { st with ramList := ram }
  | .allocRam addr size align got, st' => Startup.allocRam st addr size align = .ok (st', got)

/-- Nothing wraps: added memory ends at or below `2 ^ 32`, and so does a block
that `alloc_ram` is told to take, strictly. -/
def ListCall.NoWrap : ListCall → Prop
  | .addMem start size => 0 < size ∧ start + size ≤ PADDR_SPACE
  | .allocRam addr size _ _ => addr = NULL_PADDR ∨ addr + size < PADDR_SPACE

instance : DecidablePred ListCall.NoWrap
  | .addMem start size => inferInstanceAs (Decidable (0 < size ∧ start + size ≤ PADDR_SPACE))
  | .allocRam addr size _ _ =>
    inferInstanceAs (Decidable (addr = NULL_PADDR ∨ addr + size < PADDR_SPACE))

/-- What a call does to the set of free addresses. -/
def ListCall.effect (free : Set Nat) : ListCall → Set Nat
  | .addMem start size => free ∪ Set.Ico start (start + size)
  | .allocRam _ size _ got =>
    free \ {x | got ≠ NULL_PADDR ∧ got ≤ x ∧ x < got + size}

/-- `ram_list` is in canonical form and denotes `free`. -/
def ListMeans (st : RamState) (free : Set Nat) : Prop :=
  (∃ es, RamTable st.ramList es) ∧ freeSet st.ramList = free

theorem ListCall.Step.means {st st' : RamState} {call : ListCall} {free : Set Nat}
    (means : ListMeans st free) (step : call.Step st st' ∧ call.NoWrap) :
    ListMeans st' (call.effect free) := by
  obtain ⟨⟨es, table⟩, rfl⟩ := means
  obtain ⟨step, calm⟩ := step
  cases call with
  | addMem start size =>
    obtain ⟨ram, added, rfl⟩ := step
    obtain ⟨ram', es', added', table', free⟩ | ⟨crash, _⟩ := addMem_table table calm.1 calm.2
    · rw [added] at added'
      cases added'
      exact ⟨⟨es', table'⟩, by rw [table'.freeSet, free, table.freeSet]; rfl⟩
    · rw [crash] at added
      cases added
  | allocRam addr size align got =>
    obtain ⟨-, ⟨missing, rfl⟩ | ⟨found, -, taken⟩⟩ := allocRam_cases table calm step
    · refine ⟨⟨es, table⟩, ?_⟩
      simp [ListCall.effect, missing]
    · refine ⟨taken.table, taken.free.trans ?_⟩
      simp only [ListCall.effect, found, ne_eq, not_false_eq_true, true_and]
      rfl

/-- The tables as they are before the first `add_ram`. -/
def freshRam : RamState :=
  { ramList := [⟨0, 0⟩], avoidList := [⟨0, 0⟩], wsEarlyNext := 0, tempSyspage := NULL_PADDR,
    sysramAdded := false, asinfo := ⟨[], 0⟩, secureSystem := false, mem := fun _ => 0 }

theorem freshRam_means : ListMeans freshRam ∅ :=
  ⟨⟨[], ⟨⟨0, 0⟩, rfl, rfl⟩, Separated.nil, by simp⟩, by simp [freeSet, live, freshRam]⟩

end Mx6xBsp.Startup
