import Mx6xBsp.Startup.RamSafety
import Mx6xBsp.Startup.Sysram

/-!
# From the first `add_ram` to the last `alloc_ram`

Before `add_sysram` every free address lies in a `ram` entry (`Prepared`), so
`add_sysram` publishes exactly the free memory, and every `alloc_ram` and
`reserve_ram` after it keeps the `sysram` entries and the free list the same
set (`sysram_agrees`). The conditions of the run rule out the two places where
an address computed in 32 bits wraps.
-/

namespace Mx6xBsp.Startup

open Spans Runs

/-! ## Calls after `add_sysram` -/

/-- The addresses of a block that was handed out. -/
def blockSet (got size : Nat) : Set Nat := {x | got ≠ NULL_PADDR ∧ got ≤ x ∧ x < got + size}

theorem Agree.withMem {st : RamState} {mem : Mem} (agree : Agree st) :
    Agree { st with mem := mem } :=
  ⟨agree.table, agree.published, agree.same, agree.unowned, agree.valid⟩

/-- The block `alloc_ram` takes fits. -/
def AllocFits (st : RamState) (addr size : Nat) : Prop :=
  addr = NULL_PADDR ∨ BlockFits (freeSet st.ramList) addr size

theorem allocTarget_blockFits {st : RamState} {addr size align : Nat}
    (fits : AllocFits st addr size) (found : allocTarget st addr size align ≠ NULL_PADDR) :
    BlockFits (freeSet st.ramList) (allocTarget st addr size align) size := by
  unfold allocTarget at *
  split_ifs at found ⊢ with search
  · exact Or.inl (findRam_lt found)
  · exact fits.resolve_left search

theorem allocRam_agree {st : RamState} {addr size align : Nat} (agree : Agree st)
    (fits : AllocFits st addr size) :
    (∃ st', allocRam st addr size align = .ok (st', allocTarget st addr size align) ∧ Agree st' ∧
      freeSet st'.ramList =
        freeSet st.ramList \ blockSet (allocTarget st addr size align) size) ∨
    ∃ crash, allocRam st addr size align = .error crash ∧ crash ≠ .diverges := by
  by_cases missing : allocTarget st addr size align = NULL_PADDR
  · refine Or.inl ⟨st, by rw [allocRam_missing missing, missing], agree, ?_⟩
    simp [blockSet, missing]
  obtain ⟨mem, source⟩ := allocFrom_frame st addr size align
  rw [allocRam_found missing, source]
  rcases @takeRam_agree { st with mem := mem } (allocTarget st addr size align) _ agree.withMem
      (allocTarget_blockFits fits missing) with
    ⟨ram, asinfo, taken, agree', free⟩ | ⟨crash, failed, ends⟩
  · rw [taken, Except.ok_bind]
    refine Or.inl ⟨_, rfl, agree', free.trans ?_⟩
    simp only [blockSet, missing, ne_eq, not_false_eq_true, true_and]
    rfl
  · refine Or.inr ⟨crash, ?_, ends⟩
    rw [failed]
    rfl

theorem addPieces_error {attr : AsAttr} {name : String} {list : List AsRange} {as : Asinfo}
    {offs : Option (Nat × Nat)} {crash : Crash} (flat : attr.overlayIo = false)
    (call : addPieces attr name list as offs = .error crash) : crash = .syspageMemory := by
  induction list generalizing as offs with
  | nil => cases call
  | cons r list ih =>
    rw [addPieces] at call
    split_ifs at call
    · rcases Except.bind_eq_error.mp call with failed | ⟨_, _, later⟩
      · exact asAdd_error flat failed
      · exact ih later
    · exact ih call

theorem asAddContaining_error {as : Asinfo} {start stop : Nat} {attr : AsAttr}
    {name container : String} {crash : Crash} (flat : attr.overlayIo = false)
    (call : asAddContaining as start stop attr name container = .error crash) :
    crash = .syspageMemory := by
  rcases Except.bind_eq_error.mp call with failed | ⟨⟨as₁, offs⟩, _, later⟩
  · exact addPieces_error rfl failed
  · cases offs with
    | none => cases later
    | some ends =>
      simp only [flat, Bool.false_eq_true, if_false] at later
      cases later

/-- Entries for a range that meets no `sysram` entry leave the published memory alone. -/
theorem Unowned.asAddContaining {as as' : Asinfo} {start stop : Nat} {attr : AsAttr}
    {name container : String} {first : Option Nat} (flat : attr.overlayIo = false)
    (ordered : start ≤ stop) (below : stop < PADDR_SPACE)
    (unowned : Unowned "sysram" (as.entries.map AsinfoEntry.bare))
    (valid : ∀ e ∈ as.entries.map AsinfoEntry.bare, e.Valid)
    (apart : Disjoint (Set.Icc start stop)
      (namedSet "sysram" (as.entries.map AsinfoEntry.bare)))
    (call : Startup.asAddContaining as start stop attr name container = .ok (as', first)) :
    ∃ new, as'.entries.map AsinfoEntry.bare = as.entries.map AsinfoEntry.bare ++ new ∧
      Unowned "sysram" (as'.entries.map AsinfoEntry.bare) ∧
      (∀ e ∈ as'.entries.map AsinfoEntry.bare, e.Valid) ∧
      (∀ e ∈ new, e.name = name) ∧
      Set.Icc start stop ∩ namedSet container (as.entries.map AsinfoEntry.bare) ⊆
        namedSet name new ∧
      (CollectsCleanly as.entries start stop container (as.entries.length + 1) none [] →
        namedSet name new ⊆ Set.Icc start stop) := by
  obtain ⟨new, layout, owned, covers, inside⟩ := asAddContaining_covers flat call
  have validRaw : ∀ e ∈ as.entries, e.Valid := fun e mem => valid e.bare (List.mem_map_of_mem mem)
  refine ⟨new, layout, ?_, ?_, fun e mem => (owned e mem).1, ?_,
    inside ordered fun e mem => (validRaw e mem).1⟩
  · rw [layout]
    refine unowned.append fun e mem o owner => ?_
    obtain ⟨-, -, -, o', owner', own, at_o, hit⟩ := owned e mem
    rw [owner] at owner'
    cases owner'
    refine ⟨own.bare, by rw [List.getElem?_map, at_o]; rfl, fun named => ?_⟩
    have member := List.mem_of_getElem? at_o
    have ends := overlap_of_containsEnd (asHit_containsEnd hit) ordered (validRaw own member).1
    have nonempty := (validRaw own member).1
    refine Set.disjoint_left.mp apart (show max start own.start ∈ _ from ⟨?_, ?_⟩)
      ⟨own.bare, List.mem_map_of_mem member, named, ?_, ?_⟩
    · omega
    · omega
    · simp only [AsinfoEntry.bare]
      omega
    · simp only [AsinfoEntry.bare]
      omega
  · rw [layout]
    intro e mem
    rcases List.mem_append.mp mem with mem | mem
    · exact valid e mem
    · obtain ⟨-, nonempty, high, -⟩ := owned e mem
      exact ⟨nonempty, high.trans_lt below⟩
  · rw [namedSet_bare]
    exact covers

theorem namedSet_none {name : String} {es : List AsinfoEntry} (other : ∀ e ∈ es, e.name ≠ name) :
    namedSet name es = ∅ := by
  refine Set.eq_empty_iff_forall_notMem.mpr ?_
  rintro x ⟨e, mem, named, -⟩
  exact other e mem named

/-- The block `reserve_ram` takes fits. -/
def ReserveFits (st : RamState) (size align pagesize : Nat) : Prop :=
  size = 0 ∨ reserveTarget st size align pagesize = NULL_PADDR ∨
    BlockFits (freeSet st.ramList) (reserveTarget st size align pagesize) size

theorem reserveRam_agree {st : RamState} {size align pagesize : Nat} (agree : Agree st)
    (fits : ReserveFits st size align pagesize) :
    (∃ st', reserveRam st size align pagesize = .ok st' ∧ Agree st' ∧
      freeSet st'.ramList =
        freeSet st.ramList \ blockSet (reserveTarget st size align pagesize) size) ∨
    ∃ crash, reserveRam st size align pagesize = .error crash ∧ crash ≠ .diverges := by
  by_cases zero : size = 0
  · refine Or.inl ⟨st, by rw [reserveRam, if_pos zero], agree, ?_⟩
    have nothing : blockSet (reserveTarget st size align pagesize) size = ∅ := by
      refine Set.eq_empty_iff_forall_notMem.mpr fun x inside => ?_
      simp only [blockSet, Set.mem_ofPred_eq] at inside
      omega
    rw [nothing, Set.sdiff_empty]
  rw [reserveRam, if_neg zero]
  by_cases missing : reserveTarget st size align pagesize = NULL_PADDR
  · exact Or.inr ⟨.couldNotReserve size, by simp only [if_pos missing], by simp⟩
  simp only [if_neg missing]
  have fits := (fits.resolve_left zero).resolve_left missing
  have target : allocTarget st (reserveTarget st size align pagesize) size
      (if align ≠ 0 then align else pagesize) = reserveTarget st size align pagesize :=
    if_neg missing
  rcases allocRam_agree
      agree (Or.inr fits) with
    ⟨st₁, taken, agree₁, free⟩ | ⟨crash, failed, ends⟩
  swap
  · refine Or.inr ⟨crash, ?_, ends⟩
    rw [failed]
    rfl
  rw [target] at taken free
  rw [taken, Except.ok_bind]
  simp only
  have bound : reserveTarget st size align pagesize + size ≤ PADDR_SPACE := by
    rcases fits with fits | fits <;> omega
  rw [paddrSub_end (by omega) bound]
  cases added : asAddContaining st₁.asinfo (reserveTarget st size align pagesize)
      (reserveTarget st size align pagesize + size - 1) AS_ATTR_RAM "reserved" "ram" with
  | error crash =>
    refine Or.inr ⟨crash, rfl, ?_⟩
    rw [asAddContaining_error rfl added]
    decide
  | ok out =>
    obtain ⟨asinfo, first⟩ := out
    have apart : Disjoint (Set.Icc (reserveTarget st size align pagesize)
        (reserveTarget st size align pagesize + size - 1))
        (namedSet "sysram" (st₁.asinfo.entries.map AsinfoEntry.bare)) := by
      rw [agree₁.same, free]
      refine Set.disjoint_left.mpr ?_
      rintro x ⟨low, high⟩ ⟨-, outside⟩
      exact outside ⟨missing, low, by omega⟩
    obtain ⟨new, layout, unowned, valid, named, -, -⟩ := Unowned.asAddContaining rfl (by omega)
      (by omega) agree₁.unowned agree₁.valid apart added
    refine Or.inl ⟨_, rfl, ⟨agree₁.table, agree₁.published, ?_, unowned, valid⟩, free⟩
    have none_new : namedSet "sysram" new = ∅ :=
      namedSet_none fun e mem => by
        rw [named e mem]
        decide
    simp only
    rw [layout, namedSet_append, none_new, Set.union_empty, agree₁.same]

/-! ## `add_sysram` -/

/-- While `add_sysram` publishes, no piece that ends at `0xffffffff` cuts a shorter one. -/
def PublishesCleanly : List RamEntry → Asinfo → Prop
  | [], _ => True
  | r :: rest, as =>
    r.size = 0 ∨
      (CollectsCleanly as.entries (paddr r.addr) (paddr (r.addr + r.size - 1)) "ram"
          (as.entries.length + 1) none [] ∧
        ∀ as' first, asAddContaining as (paddr r.addr) (paddr (r.addr + r.size - 1)) AS_ATTR_RAM
          "sysram" "ram" = .ok (as', first) → PublishesCleanly rest as')

theorem addSysramLoop_publishes {es : List RamEntry} {t : RamEntry} {as as' : Asinfo}
    (term : t.size = 0) (sep : Separated (es.map RamEntry.span))
    (bounded : ∀ r ∈ es, r.addr + r.size ≤ PADDR_SPACE)
    (covered : denote (es.map RamEntry.span) ⊆ namedSet "ram" (as.entries.map AsinfoEntry.bare))
    (apart : Disjoint (denote (es.map RamEntry.span))
      (namedSet "sysram" (as.entries.map AsinfoEntry.bare)))
    (unowned : Unowned "sysram" (as.entries.map AsinfoEntry.bare))
    (valid : ∀ e ∈ as.entries.map AsinfoEntry.bare, e.Valid)
    (clean : PublishesCleanly (es ++ [t]) as)
    (call : addSysramLoop (es ++ [t]) as = .ok as') :
    namedSet "sysram" (as'.entries.map AsinfoEntry.bare) =
        namedSet "sysram" (as.entries.map AsinfoEntry.bare) ∪ denote (es.map RamEntry.span) ∧
      Unowned "sysram" (as'.entries.map AsinfoEntry.bare) ∧
      ∀ e ∈ as'.entries.map AsinfoEntry.bare, e.Valid := by
  induction es generalizing as with
  | nil =>
    simp only [List.nil_append, addSysramLoop, term, if_true, Except.ok.injEq] at call
    subst call
    exact ⟨by simp, unowned, valid⟩
  | cons r es ih =>
    have nonempty : r.size ≠ 0 := size_ne_zero_of_separated sep r List.mem_cons_self
    have bound := bounded r List.mem_cons_self
    have start : paddr r.addr = r.addr := paddr_of_lt (by omega)
    have stop : paddr (r.addr + r.size - 1) = r.addr + r.size - 1 := paddr_of_lt (by omega)
    rw [List.cons_append] at call clean
    simp only [addSysramLoop, nonempty, if_false, start, stop] at call
    simp only [PublishesCleanly, nonempty, false_or, start, stop] at clean
    obtain ⟨⟨as₁, first⟩, added, call⟩ := Except.bind_eq_ok.mp call
    obtain ⟨here, later⟩ := clean
    have range : Set.Icc r.addr (r.addr + r.size - 1) = r.span.toSet := by
      ext x
      simp only [Set.mem_Icc, RamEntry.span, Span.mem_toSet]
      omega
    rw [List.map_cons, denote_cons] at covered apart
    obtain ⟨new, layout, unowned₁, valid₁, named, covers, inside⟩ := Unowned.asAddContaining rfl
      (by omega) (by omega) unowned valid
      (range ▸ apart.mono_left Set.subset_union_left) added
    have published : namedSet "sysram" (as₁.entries.map AsinfoEntry.bare) =
        namedSet "sysram" (as.entries.map AsinfoEntry.bare) ∪ r.span.toSet := by
      rw [layout, namedSet_append]
      congr 1
      refine Set.Subset.antisymm (range ▸ inside here) fun x mem => covers ⟨range ▸ mem, ?_⟩
      exact covered (Or.inl mem)
    have covered₁ : denote (es.map RamEntry.span) ⊆
        namedSet "ram" (as₁.entries.map AsinfoEntry.bare) := by
      rw [layout, namedSet_append]
      exact (Set.subset_union_right.trans covered).trans Set.subset_union_left
    have apart₁ : Disjoint (denote (es.map RamEntry.span))
        (namedSet "sysram" (as₁.entries.map AsinfoEntry.bare)) := by
      rw [published]
      refine Set.disjoint_union_right.mpr ⟨apart.mono_left Set.subset_union_right, ?_⟩
      refine Set.disjoint_left.mpr ?_
      rintro x ⟨s, mem, low, _⟩ ⟨_, high⟩
      exact absurd ((sep.head_gap s mem).trans_le low) (by simpa using high.le)
    obtain ⟨set, rest⟩ := ih sep.tail (fun q mem => bounded q (List.mem_cons_of_mem _ mem))
      covered₁ apart₁ unowned₁ valid₁ (later as₁ first added) call
    refine ⟨?_, rest⟩
    rw [set, published, List.map_cons, denote_cons, Set.union_assoc]

/-! ## Calls before `add_sysram` -/

/-- No entry is called `sysram` yet. -/
structure Unpublished (es : List AsinfoEntry) : Prop where
  fresh : ∀ e ∈ es, e.name ≠ "sysram"
  unowned : Unowned "sysram" es
  valid : ∀ e ∈ es, e.Valid

theorem Unpublished.append {es new : List AsinfoEntry} (unpublished : Unpublished es)
    (added : ∀ e ∈ new, e.name ≠ "sysram" ∧ e.Valid ∧
      ∀ o, e.owner = some o → o < es.length) : Unpublished (es ++ new) := by
  obtain ⟨fresh, unowned, valid⟩ := unpublished
  refine ⟨fun e mem => ?_, unowned.append fun e mem o owner => ?_, fun e mem => ?_⟩
  · rcases List.mem_append.mp mem with mem | mem
    · exact fresh e mem
    · exact (added e mem).1
  · have inside := (added e mem).2.2 o owner
    exact ⟨es[o], List.getElem?_eq_getElem inside, fresh _ (List.getElem_mem inside)⟩
  · rcases List.mem_append.mp mem with mem | mem
    · exact valid e mem
    · exact (added e mem).2.1

theorem Unpublished.asAddContaining {as as' : Asinfo} {start stop : Nat} {attr : AsAttr}
    {name container : String} {first : Option Nat} (flat : attr.overlayIo = false)
    (below : stop < PADDR_SPACE) (other : name ≠ "sysram")
    (unpublished : Unpublished (as.entries.map AsinfoEntry.bare))
    (call : Startup.asAddContaining as start stop attr name container = .ok (as', first)) :
    ∃ new, as'.entries.map AsinfoEntry.bare = as.entries.map AsinfoEntry.bare ++ new ∧
      Unpublished (as'.entries.map AsinfoEntry.bare) ∧
      Set.Icc start stop ∩ namedSet container (as.entries.map AsinfoEntry.bare) ⊆
        namedSet name new ∧
      (as.entries = [] → new = []) := by
  obtain ⟨new, layout, owned, covers, -⟩ := asAddContaining_covers flat call
  refine ⟨new, layout, ?_, by rw [namedSet_bare]; exact covers, fun none_yet => ?_⟩
  swap
  · refine List.eq_nil_iff_forall_not_mem.mpr fun e mem => ?_
    obtain ⟨-, -, -, o, -, own, at_o, -⟩ := owned e mem
    rw [none_yet] at at_o
    cases at_o
  rw [layout]
  refine unpublished.append fun e mem => ?_
  obtain ⟨named, nonempty, high, o, owner, own, at_o, -⟩ := owned e mem
  refine ⟨named ▸ other, ⟨nonempty, high.trans_lt below⟩, fun o' owner' => ?_⟩
  rw [owner] at owner'
  cases owner'
  rw [List.length_map]
  exact (List.getElem?_eq_some_iff.mp at_o).1

/-- The state before `add_sysram`. -/
structure Prepared (st : RamState) : Prop where
  table : ∃ es, RamTable st.ramList es
  unpublished : st.sysramAdded = false
  /-- free memory lies in `ram` entries … -/
  covered : freeSet st.ramList ⊆ namedSet "ram" (st.asinfo.entries.map AsinfoEntry.bare)
  /-- … and those in `memory`, once there is any entry -/
  memory : st.asinfo.entries = [] ∨
    Set.Iio PADDR_SPACE ⊆ namedSet "memory" (st.asinfo.entries.map AsinfoEntry.bare)
  entries : Unpublished (st.asinfo.entries.map AsinfoEntry.bare)

/-- A call that shrinks the free list and appends entries keeps the state prepared. -/
theorem Prepared.update {st : RamState} {ram : List RamEntry} {asinfo : Asinfo} {mem : Mem}
    {new : List AsinfoEntry} (prepared : Prepared st) (table : ∃ es, RamTable ram es)
    (free : freeSet ram ⊆ freeSet st.ramList ∪ namedSet "ram" new)
    (layout : asinfo.entries.map AsinfoEntry.bare =
      st.asinfo.entries.map AsinfoEntry.bare ++ new)
    (entries : Unpublished (asinfo.entries.map AsinfoEntry.bare))
    (memory : asinfo.entries = [] ∨
      Set.Iio PADDR_SPACE ⊆ namedSet "memory" (asinfo.entries.map AsinfoEntry.bare)) :
    Prepared { st with ramList := ram, asinfo := asinfo, mem := mem } := by
  refine ⟨table, prepared.unpublished, ?_, memory, entries⟩
  simp only
  rw [layout, namedSet_append]
  exact free.trans (Set.union_subset_union_left _ prepared.covered)

theorem initAsinfo_memory {as as' : Asinfo}
    (memory : as.entries = [] ∨
      Set.Iio PADDR_SPACE ⊆ namedSet "memory" (as.entries.map AsinfoEntry.bare))
    (entries : Unpublished (as.entries.map AsinfoEntry.bare))
    (call : initAsinfo as = .ok as') :
    ∃ new, as'.entries.map AsinfoEntry.bare = as.entries.map AsinfoEntry.bare ++ new ∧
      Set.Iio PADDR_SPACE ⊆ namedSet "memory" (as'.entries.map AsinfoEntry.bare) ∧
      Unpublished (as'.entries.map AsinfoEntry.bare) := by
  unfold initAsinfo at call
  split_ifs at call with empty
  · obtain ⟨⟨as₁, off⟩, first, call⟩ := Except.bind_eq_ok.mp call
    obtain ⟨⟨as', _⟩, second, call⟩ := Except.bind_eq_ok.mp call
    cases call
    have none_yet : as.entries = [] := List.length_eq_zero_iff.mp empty
    obtain ⟨layout₁, at_⟩ := asAdd_spec rfl first
    have layout₂ := (asAdd_spec rfl second).1
    have off_eq : off = 0 := at_.trans empty
    have covers : Set.Iio PADDR_SPACE ⊆
        namedSet "memory" [(⟨0, 0xffffffff, none, "memory", AS_ATTR_NONE⟩ : AsinfoEntry)] := by
      intro x below
      refine ⟨_, List.mem_singleton_self _, rfl, Nat.zero_le _, ?_⟩
      exact Nat.le_of_lt_succ below
    have layout : as'.entries.map AsinfoEntry.bare = as.entries.map AsinfoEntry.bare ++
        [⟨0, 0xffffffff, none, "memory", AS_ATTR_NONE⟩,
          ⟨0, 0xffffffff, some 0, "below4G", AS_ATTR_NONE⟩] := by
      rw [layout₂, layout₁, off_eq, List.append_assoc]
      rfl
    refine ⟨_, layout, ?_, ?_⟩
    · rw [layout₂, layout₁, namedSet_append, namedSet_append]
      exact (covers.trans Set.subset_union_right).trans Set.subset_union_left
    · rw [layout₂, layout₁, off_eq]
      have full : (0xffffffff : Nat) < PADDR_SPACE := by decide
      refine (entries.append fun e mem => ?_).append fun e mem => ?_
      · rw [List.mem_singleton.mp mem]
        exact ⟨by decide, ⟨Nat.zero_le _, full⟩, by simp⟩
      · rw [List.mem_singleton.mp mem]
        refine ⟨by decide, ⟨Nat.zero_le _, full⟩, ?_⟩
        simp
  · cases call
    have memory := memory.resolve_left fun none => empty (by rw [none]; rfl)
    exact ⟨[], by simp, memory, entries⟩

/-- `alloc_ram` before `add_sysram` only shrinks the free list. -/
theorem Prepared.allocRam {st st' : RamState} {addr size align got : Nat}
    (prepared : Prepared st) (fits : AllocFits st addr size)
    (call : Startup.allocRam st addr size align = .ok (st', got)) :
    Prepared st' ∧ st'.asinfo = st.asinfo := by
  by_cases missing : allocTarget st addr size align = NULL_PADDR
  · rw [allocRam_missing missing] at call
    cases call
    exact ⟨prepared, rfl⟩
  obtain ⟨es, table⟩ := prepared.table
  obtain ⟨mem, source⟩ := allocFrom_frame st addr size align
  rw [allocRam_found missing, source] at call
  obtain ⟨st₁, taken, call⟩ := Except.bind_eq_ok.mp call
  cases call
  rcases @takeRam_cases { st with mem := mem } _ (allocTarget st addr size align) _ table
      (allocTarget_blockFits fits missing) with ⟨ram, table', free, result⟩ | crash
  · rw [result, if_neg (by simp [prepared.unpublished]), Except.ok_bind] at taken
    cases taken
    have shrunk := (free.subset.trans Set.sdiff_subset).trans
      (Set.subset_union_left (t := namedSet "ram" []))
    have prepared' := @Prepared.update _ _ _ mem _ prepared table' shrunk (by simp) prepared.entries
        prepared.memory
    exact ⟨prepared', rfl⟩
  · rw [crash] at taken
    cases taken

theorem Prepared.reserveRam {st st' : RamState} {size align pagesize : Nat}
    (prepared : Prepared st) (fits : ReserveFits st size align pagesize)
    (call : Startup.reserveRam st size align pagesize = .ok st') : Prepared st' := by
  by_cases zero : size = 0
  · rw [Startup.reserveRam, if_pos zero] at call
    cases call
    exact prepared
  rw [Startup.reserveRam, if_neg zero] at call
  by_cases missing : reserveTarget st size align pagesize = NULL_PADDR
  · simp only [if_pos missing] at call
    cases call
  simp only [if_neg missing] at call
  obtain ⟨⟨st₁, got⟩, taken, call⟩ := Except.bind_eq_ok.mp call
  obtain ⟨⟨asinfo, first⟩, added, call⟩ := Except.bind_eq_ok.mp call
  cases call
  obtain ⟨prepared₁, -⟩ := prepared.allocRam
    (Or.inr ((fits.resolve_left zero).resolve_left missing)) taken
  obtain ⟨new, layout, entries, -, nothing⟩ := prepared₁.entries.asAddContaining rfl (paddr_lt _)
    (by decide) added
  have memory : asinfo.entries = [] ∨
      Set.Iio PADDR_SPACE ⊆ namedSet "memory" (asinfo.entries.map AsinfoEntry.bare) := by
    rcases prepared₁.memory with none_yet | covers
    · left
      rw [none_yet, nothing none_yet] at layout
      exact List.map_eq_nil_iff.mp layout
    · right
      rw [layout, namedSet_append]
      exact covers.trans Set.subset_union_left
  exact prepared₁.update prepared₁.table Set.subset_union_left layout entries
    memory

theorem Prepared.congr {st st' : RamState} (prepared : Prepared st)
    (ram : st'.ramList = st.ramList) (asinfo : st'.asinfo = st.asinfo)
    (sysram : st'.sysramAdded = st.sysramAdded) : Prepared st' := by
  obtain ⟨table, unpublished, covered, memory, entries⟩ := prepared
  refine ⟨ram ▸ table, sysram ▸ unpublished, ?_, asinfo ▸ memory, asinfo ▸ entries⟩
  rw [ram, asinfo]
  exact covered

theorem Prepared.addRam {shdr : StartupHeader} {st st' : RamState} {start size : Nat}
    (calm : shdr.NoWrap) (prepared : Prepared st) (fits : start + size ≤ PADDR_SPACE)
    (call : Startup.addRam shdr st start size = .ok st') : Prepared st' := by
  obtain ⟨mid, memory, call⟩ := Except.bind_eq_ok.mp call
  cases call
  obtain ⟨temp, avoid, frame⟩ := findTempSyspage_frame mid
  rw [frame]
  refine @Prepared.congr mid _ ?_ rfl rfl rfl
  obtain ⟨as₀, init, memory⟩ := Except.bind_eq_ok.mp memory
  obtain ⟨⟨as₁, first⟩, ramEntry, memory⟩ := Except.bind_eq_ok.mp memory
  obtain ⟨ram, added, memory⟩ := Except.bind_eq_ok.mp memory
  obtain ⟨⟨st₁, got⟩, taken, memory⟩ := Except.bind_eq_ok.mp memory
  cases memory
  obtain ⟨es, table⟩ := prepared.table
  obtain ⟨table', free⟩ := addMem_means table fits added
  obtain ⟨new₀, layout₀, covers₀, entries₀⟩ :=
    initAsinfo_memory prepared.memory prepared.entries init
  have below : paddrSub (paddr (start + size)) 1 < PADDR_SPACE := paddr_lt _
  obtain ⟨new₁, layout₁, entries₁, covers₁, -⟩ :=
    entries₀.asAddContaining rfl below (by decide) ramEntry
  have block : Set.Ico start (start + size) ⊆ namedSet "ram" new₁ := by
    rintro x ⟨low, high⟩
    refine covers₁ ⟨⟨low, ?_⟩, covers₀ (show x < PADDR_SPACE by omega)⟩
    rw [paddrSub_end (by omega) fits]
    omega
  have layout : as₁.entries.map AsinfoEntry.bare =
      st.asinfo.entries.map AsinfoEntry.bare ++ (new₀ ++ new₁) := by
    rw [layout₁, layout₀, List.append_assoc]
  have grown : freeSet ram ⊆ freeSet st.ramList ∪ namedSet "ram" (new₀ ++ new₁) := by
    rw [free, namedSet_append]
    exact Set.union_subset_union_right _ (block.trans Set.subset_union_right)
  have memory₁ : Set.Iio PADDR_SPACE ⊆ namedSet "memory" (as₁.entries.map AsinfoEntry.bare) := by
    rw [layout₁, namedSet_append]
    exact covers₀.trans Set.subset_union_left
  have prepared₁ := @Prepared.update _ _ _ st.mem _ prepared table' grown layout entries₁
      (Or.inr memory₁)
  have image : AllocFits { st with ramList := ram, asinfo := as₁ }
      (paddr (shdr.ramPaddr + shdr.startupSize)) (paddrSub shdr.ramSize shdr.startupSize) := by
    obtain ⟨rounds, -, startup⟩ := calm
    refine Or.inr (Or.inl ?_)
    simp only [paddrSub, paddr, PADDR_SPACE] at *
    omega
  exact (prepared₁.allocRam image taken).1

/-! ## Runs -/

/-- A call before `add_sysram`. -/
inductive PrepCall
  | addRam (start size : Nat)
  | avoidRam (start size : Nat)
  | wsAlloc (size : Nat)
  | allocRam (addr size align : Nat)
  | reserveRam (size align pagesize : Nat)

def PrepCall.Step (shdr : StartupHeader) (st : RamState) : PrepCall → RamState → Prop
  | .addRam start size, st' =>
    start + size ≤ PADDR_SPACE ∧ Startup.addRam shdr st start size = .ok st'
  | .avoidRam start size, st' => st' = Startup.avoidRam st start size
  | .wsAlloc size, st' => st' = (Startup.wsAlloc st size).1
  | .allocRam addr size align, st' => ∃ got, Startup.allocRam st addr size align = .ok (st', got)
  | .reserveRam size align pagesize, st' => Startup.reserveRam st size align pagesize = .ok st'

def PrepCall.Fits (st : RamState) : PrepCall → Prop
  | .allocRam addr size _ => AllocFits st addr size
  | .reserveRam size align pagesize => ReserveFits st size align pagesize
  | _ => True

theorem Prepared.step {shdr : StartupHeader} {st st' : RamState} {call : PrepCall}
    (calm : shdr.NoWrap) (prepared : Prepared st) (step : call.Step shdr st st')
    (fits : call.Fits st) : Prepared st' := by
  cases call with
  | addRam start size => exact prepared.addRam calm step.1 step.2
  | avoidRam start size =>
    subst step
    exact prepared.congr rfl rfl rfl
  | wsAlloc size =>
    subst step
    obtain ⟨avoid, next, frame⟩ := wsAlloc_frame st size
    rw [frame]
    exact prepared.congr rfl rfl rfl
  | allocRam addr size align =>
    obtain ⟨got, call⟩ := step
    exact (prepared.allocRam fits call).1
  | reserveRam size align pagesize => exact prepared.reserveRam fits step

theorem Prepared.start {shdr : StartupHeader} {secureSystem : Bool} {mem : Mem} {room : Nat}
    (calm : shdr.NoWrap) : Prepared (wsInit shdr secureSystem ⟨[], room⟩ mem) := by
  rw [wsInit_eq calm]
  refine ⟨⟨[], ⟨⟨0, 0⟩, rfl, rfl⟩, Separated.nil, by simp⟩, rfl, ?_, Or.inl rfl, ?_⟩
  · simp [freeSet, live]
  · exact ⟨by simp, by simp [Unowned], by simp⟩

theorem addSysram_agree {st st' : RamState} (prepared : Prepared st)
    (clean : PublishesCleanly st.ramList st.asinfo) (call : addSysram st = .ok st') :
    Agree st' := by
  obtain ⟨asinfo, published, call⟩ := Except.bind_eq_ok.mp call
  cases call
  obtain ⟨es, table⟩ := prepared.table
  obtain ⟨t, term, slots⟩ := table.slots
  have covered := prepared.covered
  have fresh : namedSet "sysram" (st.asinfo.entries.map AsinfoEntry.bare) = ∅ :=
    namedSet_none prepared.entries.fresh
  rw [table.freeSet] at covered
  rw [slots] at clean published
  obtain ⟨set, unowned, valid⟩ := addSysramLoop_publishes term table.separated table.bounded covered
    (fresh ▸ Set.disjoint_empty _) prepared.entries.unowned prepared.entries.valid clean published
  refine ⟨prepared.table, rfl, ?_, unowned, valid⟩
  simp only
  rw [set, fresh, Set.empty_union, table.freeSet]

/-- A call after `add_sysram`. -/
inductive TakeCall
  | allocRam (addr size align : Nat)
  | reserveRam (size align pagesize : Nat)

/-- The block the call asks for. -/
def TakeCall.block (st : RamState) : TakeCall → Set Nat
  | .allocRam addr size align => blockSet (allocTarget st addr size align) size
  | .reserveRam size align pagesize => blockSet (reserveTarget st size align pagesize) size

def TakeCall.run (st : RamState) : TakeCall → Except Crash RamState
  | .allocRam addr size align => do
      let (st, _) ← Startup.allocRam st addr size align
      return st
  | .reserveRam size align pagesize => Startup.reserveRam st size align pagesize

def TakeCall.Fits (st : RamState) : TakeCall → Prop
  | .allocRam addr size _ => AllocFits st addr size
  | .reserveRam size align pagesize => ReserveFits st size align pagesize

theorem TakeCall.run_agree {st : RamState} {call : TakeCall} (agree : Agree st)
    (fits : call.Fits st) :
    (∃ st', call.run st = .ok st' ∧ Agree st' ∧
      freeSet st'.ramList = freeSet st.ramList \ call.block st) ∨
    ∃ crash, call.run st = .error crash ∧ crash ≠ .diverges := by
  cases call with
  | allocRam addr size align =>
    rcases allocRam_agree agree fits with ⟨st', call, agree', free⟩ |
      ⟨crash, failed, ends⟩
    · exact Or.inl ⟨st', by rw [run, call]; rfl, agree', free⟩
    · exact Or.inr ⟨crash, by rw [run, failed]; rfl, ends⟩
  | reserveRam size align pagesize => exact reserveRam_agree agree fits

def PrepStep (shdr : StartupHeader) (st : RamState) (call : PrepCall) (st' : RamState) : Prop :=
  call.Step shdr st st'

def TakeStep (st : RamState) (call : TakeCall) (st' : RamState) : Prop := call.run st = .ok st'

/-- After `add_sysram` the `sysram` entries are the free memory, in every state of
every run of fitting calls, and a further call ends and takes its block out of them. -/
theorem sysram_agrees {shdr : StartupHeader} {secureSystem : Bool} {mem : Mem} {room : Nat}
    {prep : List PrepCall} {calls : List TakeCall} {st₁ st₂ st₃ : RamState} (calm : shdr.NoWrap)
    (prepare : Run (fun st call st' => PrepStep shdr st call st' ∧ call.Fits st)
      (wsInit shdr secureSystem ⟨[], room⟩ mem) prep st₁)
    (clean : PublishesCleanly st₁.ramList st₁.asinfo) (publish : addSysram st₁ = .ok st₂)
    (run : Run (fun st call st' => TakeStep st call st' ∧ call.Fits st) st₂ calls st₃) :
    namedSet "sysram" st₃.asinfo.entries = freeSet st₃.ramList ∧
      ∀ call : TakeCall, call.Fits st₃ → call.run st₃ ≠ .error .diverges ∧
        ∀ st₄, call.run st₃ = .ok st₄ → namedSet "sysram" st₄.asinfo.entries =
          namedSet "sysram" st₃.asinfo.entries \ call.block st₃ := by
  have prepared : Prepared st₁ :=
    prepare.invariant (I := Prepared) (fun inv step => inv.step calm step.1 step.2)
      (Prepared.start calm)
  have agree : Agree st₃ := by
    refine run.invariant (I := Agree) (fun {st call st'} inv step => ?_)
      (addSysram_agree prepared clean publish)
    obtain ⟨step, fits⟩ := step
    rcases TakeCall.run_agree inv fits with ⟨out, done, agree, _⟩ | ⟨crash, failed, _⟩
    · rw [step] at done
      cases done
      exact agree
    · rw [step] at failed
      cases failed
  have same := agree.same
  rw [namedSet_bare] at same
  refine ⟨same, fun call fits => ?_⟩
  rcases TakeCall.run_agree agree fits with ⟨out, done, agree', free⟩ | ⟨crash, failed, ends⟩
  · refine ⟨fun diverges => ?_, fun st₄ again => ?_⟩
    · rw [done] at diverges
      cases diverges
    · rw [done] at again
      cases again
      have same' := agree'.same
      rw [namedSet_bare] at same'
      rw [same', same, free]
  · refine ⟨fun diverges => ?_, fun st₄ again => ?_⟩
    · rw [failed] at diverges
      cases diverges
      exact ends rfl
    · rw [failed] at again
      cases again

/-! ## Memory at both ends of the address space -/

def AsAttr.parent (attr : AsAttr) : AsAttr := { attr with kids := true }

/-- A region at address 0 was added … -/
def edgeLow : RamState :=
  { smallBoot.st with
    ramList := [⟨0, 0x1000⟩, ⟨0, 0⟩]
    asinfo := ⟨[⟨0, 0xffffffff, none, "memory", AS_ATTR_NONE.parent⟩,
      ⟨0, 0xffffffff, some 0, "below4G", AS_ATTR_NONE.parent⟩,
      ⟨0, 0xfff, some 1, "ram", AS_ATTR_RAM⟩], 97⟩ }

/-- … and one that ends at `2 ^ 32` … -/
def edgeBoth : RamState :=
  { smallBoot.st with
    ramList := [⟨0, 0x1000⟩, ⟨0xffff0000, 0x10000⟩, ⟨0, 0⟩]
    avoidList := [⟨0x10002000, 0x10002400⟩, ⟨0x10002400, 0x10003000⟩,
      ⟨0x10000000, 0x10001000⟩, ⟨0xffff0000, 0xffff8000⟩, ⟨0, 0⟩]
    tempSyspage := 0xffff0000
    asinfo := ⟨[⟨0, 0xffffffff, none, "memory", AS_ATTR_NONE.parent⟩,
      ⟨0, 0xffffffff, some 0, "below4G", AS_ATTR_NONE.parent⟩,
      ⟨0, 0xfff, some 1, "ram", AS_ATTR_RAM⟩,
      ⟨0xffff0000, 0xffffffff, some 1, "ram", AS_ATTR_RAM⟩], 96⟩ }

/-- … and both were published. -/
def edgeShown : RamState :=
  { edgeBoth with
    sysramAdded := true
    asinfo := ⟨[⟨0, 0xffffffff, none, "memory", AS_ATTR_NONE.parent⟩,
      ⟨0, 0xffffffff, some 0, "below4G", AS_ATTR_NONE.parent⟩,
      ⟨0, 0xfff, some 1, "ram", AS_ATTR_RAM.parent⟩,
      ⟨0xffff0000, 0xffffffff, some 1, "ram", AS_ATTR_RAM.parent⟩,
      ⟨0, 0xfff, some 2, "sysram", AS_ATTR_RAM⟩,
      ⟨0xffff0000, 0xffffffff, some 3, "sysram", AS_ATTR_RAM⟩], 94⟩ }

theorem edgeShown_prepared :
    Run (fun st call st' => PrepStep smallHeader st call st' ∧ call.Fits st) smallBoot.st
      [.addRam 0 0x1000, .addRam 0xffff0000 0x10000] edgeBoth :=
  .cons (t := edgeLow) ⟨⟨by decide, rfl⟩, trivial⟩ (.cons ⟨⟨by decide, rfl⟩, trivial⟩ .nil)

theorem edgeBoth_clean : PublishesCleanly edgeBoth.ramList edgeBoth.asinfo := by
  refine Or.inr ⟨⟨trivial, trivial⟩, fun as' first added => ?_⟩
  cases added
  exact Or.inr ⟨⟨trivial, trivial⟩, fun _ _ _ => Or.inl rfl⟩

/-- A block at the bottom of the low region was taken. -/
def edgeTaken : RamState :=
  { edgeShown with
    ramList := [⟨0x800, 0x800⟩, ⟨0xffff0000, 0x10000⟩, ⟨0, 0⟩]
    asinfo := { edgeShown.asinfo with
      entries := edgeShown.asinfo.entries.set 4 ⟨0x800, 0xfff, some 2, "sysram", AS_ATTR_RAM⟩ } }

theorem sysram_agrees_below :
    namedSet "sysram" edgeTaken.asinfo.entries = freeSet edgeTaken.ramList :=
  (@sysram_agrees _ _ _ _ _ [.allocRam NULL_PADDR 0x800 8] _ _ _ smallHeader_noWrap
      edgeShown_prepared edgeBoth_clean rfl (.cons ⟨rfl, Or.inl rfl⟩ .nil)).1

/-- The block at the very top was taken. Its `end` is 0, and everything between
the two regions has become free. -/
def edgeLost : RamState :=
  { edgeShown with
    ramList := [⟨0, 0x100000000⟩, ⟨0, 0⟩]
    asinfo := { edgeShown.asinfo with
      entries := edgeShown.asinfo.entries.set 5
        ⟨0xffff0000, 0xffffefff, some 3, "sysram", AS_ATTR_RAM⟩ } }

/-- … and it is entered as reserved. -/
def edgeReserved : RamState :=
  { edgeLost with
    asinfo := ⟨edgeLost.asinfo.entries ++
      [⟨0xfffff000, 0xffffffff, some 3, "reserved", AS_ATTR_RAM⟩], 93⟩ }

theorem sysram_disagrees :
    Run (PrepStep smallHeader) smallBoot.st
        [.addRam 0 0x1000, .addRam 0xffff0000 0x10000] edgeBoth ∧
      addSysram edgeBoth = .ok edgeShown ∧
      Run TakeStep edgeShown [.reserveRam 0x1000 0x1000 0x1000] edgeReserved ∧
      namedSet "sysram" edgeReserved.asinfo.entries ≠ freeSet edgeReserved.ramList := by
  have target : reserveTarget edgeShown 0x1000 0x1000 0x1000 = 0xfffff000 := rfl
  have taken : allocRam edgeShown 0xfffff000 0x1000 0x1000 = .ok (edgeLost, 0xfffff000) := rfl
  have step : TakeStep edgeShown (.reserveRam 0x1000 0x1000 0x1000) edgeReserved := by
    rw [TakeStep, TakeCall.run, reserveRam, if_neg (by decide)]
    simp only [target]
    rw [if_neg (by decide), if_pos (by decide), taken]
    rfl
  refine ⟨edgeShown_prepared.mono fun step => step.1, rfl, .single step, fun same => ?_⟩
  have free : 0x8000 ∈ freeSet edgeReserved.ramList :=
    ⟨⟨0, 0x100000000⟩, List.mem_singleton_self _, by decide, by decide⟩
  rw [← same] at free
  exact (by decide : ¬ ∃ e ∈ edgeReserved.asinfo.entries,
    e.name = "sysram" ∧ e.start ≤ 0x8000 ∧ 0x8000 ≤ e.stop) free

end Mx6xBsp.Startup
