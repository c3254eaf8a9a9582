import Mx6xBsp.Arm.ElfMap

/-!
# Loaded executables stay mapped

While the segments are mapped by sections, the L1 tables say where each is
(`BySections`). When they are mapped again by pages, sections may be left over;
`arm_32_map` does the same on the tables without those (`Tables.clean`), as long
as none stands in the first entry of a group, where it looks for a page table.
`elf_map_run` says that all segments stay mapped in the runs that keep to this.
-/

namespace Mx6xBsp.Arm

open Startup Runs Masks

variable {m : Mmu} {window : Option Nat} {t t' u : Tables}

/-! ## Left-over sections -/

/-- The tables without the entries of the groups that have none in the first place. -/
def Tables.clean (t : Tables) : Tables :=
  { t with l1 := fun c i => if kind (t.l1 c (i / 4 * 4)) = 0 then 0 else t.l1 c i }

theorem clean_mapPtblCpu {cpu p va : Nat} :
    (m.mapPtblCpu cpu p va t).clean = m.mapPtblCpu cpu p va t.clean := by
  have entries : (m.mapPtblCpu cpu p va t).clean.l1 = (m.mapPtblCpu cpu p va t.clean).l1 := by
    funext c i
    by_cases same : c = cpu
    · subst same
      by_cases group : i / 4 = va / 2 ^ 22
      · have base : i / 4 * 4 / 4 = va / 2 ^ 22 := by omega
        have entry := kind_tableEntry (m := m) (p := p) (i := i / 4 * 4)
        unfold Mmu.tableEntry at entry
        simp only [Tables.clean, Mmu.mapPtblCpu, Function.update_self, if_pos group, if_pos base,
          entry]
        rfl
      · have base : ¬i / 4 * 4 / 4 = va / 2 ^ 22 := by omega
        simp only [Tables.clean, Mmu.mapPtblCpu, Function.update_self, if_neg group, if_neg base]
    · simp only [Tables.clean, Mmu.mapPtblCpu, Function.update_of_ne same, Tables.store]
  exact congrArg (fun l1 => { m.mapPtblCpu cpu p va t with l1 := l1 }) entries

theorem clean_store {p slot : Nat} {entry : Word} :
    (t.store p slot entry).clean = t.clean.store p slot entry := rfl

theorem clean_mapPtbl {p va : Nat} : (m.mapPtbl p va t).clean = m.mapPtbl p va t.clean := by
  unfold Mmu.mapPtbl
  induction List.range m.numCpu generalizing t with
  | nil => rfl
  | cons cpu cpus ih => rw [List.foldl_cons, List.foldl_cons, ih, clean_mapPtblCpu]

theorem clean_callocRam : t.clean.callocRam = t.callocRam.map fun (p, t) => (p, t.clean) := by
  unfold Tables.callocRam
  cases ram : t.ram with
  | nil => simp [Tables.clean, ram]
  | cons p rest => simp [Tables.clean, ram]

theorem clean_fillPtes {p n i : Nat} {pa : Word} :
    fillPtes p n i pa t.clean =
      ((fillPtes p n i pa t).1, (fillPtes p n i pa t).2.1, (fillPtes p n i pa t).2.2.clean) := by
  induction n generalizing i pa t with
  | zero => rfl
  | succ n ih =>
    unfold fillPtes
    split
    · rw [← clean_store, ih]
    · rfl

theorem clean_base {c i : Nat} : t.clean.l1 c (i / 4 * 4) = if kind (t.l1 c (i / 4 * 4)) = 0 then 0
    else t.l1 c (i / 4 * 4) := by
  have base : i / 4 * 4 / 4 * 4 = i / 4 * 4 := by omega
  unfold Tables.clean
  dsimp only
  rw [base]

theorem clean_mapPages {cpu fuel n va : Nat} {pa : Word} :
    m.mapPages cpu fuel n va pa t.clean = (m.mapPages cpu fuel n va pa t).map Tables.clean := by
  induction fuel generalizing n va pa t with
  | zero => cases n <;> rfl
  | succ fuel ih =>
    cases n with
    | zero => rfl
    | succ n =>
      have lookup : (if t.clean.l1 cpu (va / 2 ^ 20 / 4 * 4) &&& ARM_PTP_VALID = 0 then
            t.clean.callocRam.map fun (page, t) => (page, m.mapPtbl page va t)
          else some (pageOf (t.clean.l1 cpu (va / 2 ^ 20 / 4 * 4)), t.clean)) =
          (if t.l1 cpu (va / 2 ^ 20 / 4 * 4) &&& ARM_PTP_VALID = 0 then
            t.callocRam.map fun (page, t) => (page, m.mapPtbl page va t)
          else some (pageOf (t.l1 cpu (va / 2 ^ 20 / 4 * 4)), t)).map
            fun (page, t) => (page, t.clean) := by
        rw [clean_base]
        by_cases none : kind (t.l1 cpu (va / 2 ^ 20 / 4 * 4)) = 0
        · rw [if_pos none, if_pos (by decide), if_pos (kind_eq_zero.mpr none), clean_callocRam,
            Option.map_map, Option.map_map]
          refine congrArg (Option.map · t.callocRam) (funext fun x => ?_)
          exact congrArg (Prod.mk x.1) clean_mapPtbl.symm
        · have present : ¬t.l1 cpu (va / 2 ^ 20 / 4 * 4) &&& ARM_PTP_VALID = 0 :=
            fun zero => none (kind_eq_zero.mp zero)
          rw [if_neg none, if_neg present, if_neg present]
          rfl
      unfold Mmu.mapPages
      dsimp only
      rw [lookup]
      cases (if t.l1 cpu (va / 2 ^ 20 / 4 * 4) &&& ARM_PTP_VALID = 0 then
          t.callocRam.map fun (page, t) => (page, m.mapPtbl page va t)
        else some (pageOf (t.l1 cpu (va / 2 ^ 20 / 4 * 4)), t)) with
      | none => rfl
      | some found =>
        dsimp only [Option.map_some]
        rw [clean_fillPtes]
        exact ih

/-- `arm_32_map` does not look at left-over sections. -/
theorem clean_arm32Map {vaddr size addr : Nat} {paddr flags : Word}
    (call : m.arm32Map vaddr paddr size flags t = some (t', addr)) :
    m.arm32Map vaddr paddr size flags t.clean = some (t'.clean, addr) := by
  have loop : ∀ (cpus : List Nat) (n va : Nat) (pa : Word) (t : Tables),
      cpus.foldlM (fun t cpu => m.mapPages cpu n n va pa t) t.clean =
        (cpus.foldlM (fun t cpu => m.mapPages cpu n n va pa t) t).map Tables.clean := by
    intro cpus n va pa
    induction cpus with
    | nil => exact fun t => rfl
    | cons cpu cpus ih =>
      intro t
      rw [List.foldlM_cons, List.foldlM_cons, clean_mapPages]
      cases m.mapPages cpu n n va pa t with
      | none => rfl
      | some t₁ => exact ih t₁
  unfold Mmu.arm32Map at call ⊢
  split at call
  · rename_i physical
    cases call
    rw [if_pos physical]
  · rename_i virtual
    rw [if_neg virtual]
    dsimp only at call ⊢
    obtain ⟨v, all, same⟩ := Option.map_eq_some_iff.mp call
    cases same
    refine Option.map_eq_some_iff.mpr ⟨t'.clean, ?_, rfl⟩
    have start : (if vaddr = 2 ^ 32 - 1 then
          { t.clean with nextAddr := t.clean.nextAddr + mapSize paddr size } else t.clean) =
        (if vaddr = 2 ^ 32 - 1 then { t with nextAddr := t.nextAddr + mapSize paddr size }
          else t).clean := by
      split <;> rfl
    rw [start]
    refine (loop ..).trans ?_
    rw [show t.clean.mapAddr vaddr = t.mapAddr vaddr from rfl, all]
    rfl

theorem translate_clean {c page base : Nat} (mapped : t.clean.translate c page = some base) :
    t.translate c page = some base := by
  have entry : t.clean.l1 c (page / 256) =
      if kind (t.l1 c (page / 256 / 4 * 4)) = 0 then 0 else t.l1 c (page / 256) := rfl
  unfold Tables.translate at mapped ⊢
  dsimp only at mapped ⊢
  rw [entry] at mapped
  split at mapped
  · cases mapped
  · exact mapped

/-! ## Segments -/

/-- The MB of a segment, rounded up. -/
def Segment.inSections (seg : Segment) (i : Nat) : Prop :=
  seg.va / 2 ^ 20 ≤ i ∧ i < seg.va / 2 ^ 20 + scCount seg.va seg.size

/-- The pages of a segment. -/
def Segment.inPages (seg : Segment) (page : Nat) : Prop :=
  seg.va / PAGESIZE ≤ page ∧ page < seg.va / PAGESIZE + pageCount seg.pa seg.size

/-- The MB of the memory for an MB of the segment. -/
def Segment.scTarget (seg : Segment) (i : Nat) : Nat :=
  (seg.pa.toNat / 2 ^ 20 + (i - seg.va / 2 ^ 20)) % 2 ^ 12

/-- The page of the memory for a page of the segment. -/
def Segment.target (seg : Segment) (page : Nat) : Nat :=
  Arm.target (seg.va / PAGESIZE) seg.pa page

/-- A segment in the address space that pages can map, in groups in which nothing was mapped. -/
structure Segment.Proper (m : Mmu) (window : Option Nat) (t₀ : Tables) (seg : Segment) : Prop where
  start : seg.va < 2 ^ 32 - 1
  space : seg.va + seg.size ≤ 2 ^ 32
  small : seg.size + seg.va % 2 ^ 20 + (2 ^ 20 - 1) < 2 ^ 32
  page : seg.va % PAGESIZE = seg.pa.toNat % PAGESIZE
  free : ∀ i, i = seg.va / 2 ^ 20 ∨ seg.inSections i →
    some (i / 4) ≠ window ∧ ∀ c < m.numCpu, t₀.Absent c (i / 4)

/-- The walk of the source gives the right address for every byte of the segment. -/
def Segment.Mapped (m : Mmu) (seg : Segment) (t : Tables) : Prop :=
  ∀ x < seg.size, ∀ c < m.numCpu,
    (t.vaddrToPaddr c (seg.va + x)).toNat = (seg.pa.toNat + x) % 2 ^ 32

variable {t₀ : Tables} {seg : Segment} {segs : List Segment}

theorem Segment.Proper.scCount (proper : seg.Proper m window t₀) :
    Arm.scCount seg.va seg.size = (seg.size + seg.va % 2 ^ 20 + (2 ^ 20 - 1)) / 2 ^ 20 := by
  rw [Arm.scCount, Nat.mod_eq_of_lt proper.small]

theorem Segment.Proper.inSections_lt (proper : seg.Proper m window t₀) {i : Nat}
    (inside : seg.inSections i) : i < 4096 := by
  obtain ⟨_, above⟩ := inside
  have space := proper.space
  rw [proper.scCount] at above
  omega

theorem Segment.Proper.inPages (proper : seg.Proper m window t₀) {page : Nat}
    (inside : seg.inPages page) : seg.inSections (page / 256) := by
  obtain ⟨below, above⟩ := inside
  have congruent := proper.page
  unfold Segment.inSections
  rw [proper.scCount]
  unfold pageCount PAGESIZE at *
  omega

theorem Segment.Proper.byte (proper : seg.Proper m window t₀) {x : Nat} (inside : x < seg.size) :
    seg.inPages ((seg.va + x) / PAGESIZE) := by
  have congruent := proper.page
  unfold Segment.inPages pageCount PAGESIZE at *
  omega

theorem page_address {va pa x : Nat} (congruent : va % PAGESIZE = pa % PAGESIZE) :
    (pa / 4096 + ((va + x) / PAGESIZE - va / PAGESIZE)) % 2 ^ 20 * PAGESIZE + (va + x) % PAGESIZE =
      (pa + x) % 2 ^ 32 := by
  unfold PAGESIZE at congruent ⊢
  omega

theorem Segment.Proper.mapped_of_pages (proper : seg.Proper m window t₀)
    (pages : ∀ page, seg.inPages page → ∀ c < m.numCpu,
      t.translate c page = some (seg.target page)) : seg.Mapped m t := by
  intro x inside c hc
  have translated := pages _ (proper.byte inside) c hc
  have split : (seg.va + x) / PAGESIZE * PAGESIZE + (seg.va + x) % PAGESIZE = seg.va + x :=
    Nat.div_add_mod' _ _
  have walk := Tables.vaddrToPaddr_eq translated (Nat.mod_lt (seg.va + x) (by decide))
  rw [split] at walk
  rw [walk, Segment.target, Arm.target, pageOf_eq]
  exact page_address proper.page

theorem Segment.Proper.mapped_of_sections (proper : seg.Proper m window t₀)
    (aligned : seg.va % 2 ^ 20 = seg.pa.toNat % 2 ^ 20)
    (sections : ∀ i, seg.inSections i → ∀ c < m.numCpu,
      kind (t.l1 c i) = 2 ∧ (t.l1 c i).toNat / 2 ^ 20 = seg.scTarget i) : seg.Mapped m t := by
  intro x inside c hc
  have here := proper.inPages (proper.byte inside)
  obtain ⟨type, entry⟩ := sections _ here c hc
  have translated : t.translate c ((seg.va + x) / PAGESIZE) =
      some (seg.scTarget ((seg.va + x) / PAGESIZE / 256) * 256 +
        (seg.va + x) / PAGESIZE % 256) := by
    unfold Tables.translate
    dsimp only
    rw [type, entry]
    rfl
  have split : (seg.va + x) / PAGESIZE * PAGESIZE + (seg.va + x) % PAGESIZE = seg.va + x :=
    Nat.div_add_mod' _ _
  have walk := Tables.vaddrToPaddr_eq translated (Nat.mod_lt (seg.va + x) (by decide))
  rw [split] at walk
  rw [walk, Segment.scTarget]
  unfold PAGESIZE
  omega

/-! ## By sections -/

/-- The segments are mapped by sections, and the tables are else as they were. -/
structure BySections (m : Mmu) (t₀ : Tables) (segs : List Segment) (t : Tables) : Prop where
  aligned : ∀ seg ∈ segs, seg.va % 2 ^ 20 = seg.pa.toNat % 2 ^ 20
  entry : ∀ seg ∈ segs, ∀ i, seg.inSections i → ∀ c < m.numCpu,
    kind (t.l1 c i) = 2 ∧ (t.l1 c i).toNat / 2 ^ 20 = seg.scTarget i
  rest : ∀ c i, (∀ seg ∈ segs, ¬seg.inSections i) → t.l1 c i = t₀.l1 c i
  ram : t.ram = t₀.ram

theorem mapSections_spec {n va : Nat} {pa : Word} (aligned : pa.toNat % 2 ^ 20 = 0) :
    (∀ c < m.numCpu, ∀ i, va / 2 ^ 20 ≤ i → i < va / 2 ^ 20 + n →
        kind ((m.mapSections n va pa t).l1 c i) = 2 ∧
          ((m.mapSections n va pa t).l1 c i).toNat / 2 ^ 20 =
            (pa.toNat / 2 ^ 20 + (i - va / 2 ^ 20)) % 2 ^ 12) ∧
      (∀ c i, ¬(va / 2 ^ 20 ≤ i ∧ i < va / 2 ^ 20 + n) →
        (m.mapSections n va pa t).l1 c i = t.l1 c i) ∧
      (m.mapSections n va pa t).ram = t.ram := by
  induction n generalizing va pa t with
  | zero => exact ⟨fun c hc i below above => by omega, fun _ _ _ => rfl, rfl⟩
  | succ n ih =>
    have next : (pa + BitVec.ofNat 32 (2 ^ 20)).toNat = (pa.toNat + 2 ^ 20) % 2 ^ 32 := by
      rw [BitVec.toNat_add, BitVec.toNat_ofNat]
      rfl
    obtain ⟨entry, rest, ram⟩ := ih
      (t := m.armScmap va pa (ext (m.bits.RW ||| m.bits.CB)) t)
      (show (pa + BitVec.ofNat 32 (2 ^ 20)).toNat % 2 ^ 20 = 0 by rw [next]; omega)
    have index : (va + 2 ^ 20) / 2 ^ 20 = va / 2 ^ 20 + 1 := Nat.add_div_right va (by decide)
    rw [index] at entry rest
    refine ⟨fun c hc i below above => ?_, fun c i away => ?_, ram⟩
    · by_cases first : i = va / 2 ^ 20
      · obtain ⟨value, type⟩ := scEntry (m := m) aligned
        have here : (m.mapSections (n + 1) va pa t).l1 c i =
            pa ||| ext (m.scProt (ext (m.bits.RW ||| m.bits.CB))) :=
          (rest c i (by omega)).trans (if_pos ⟨hc, first⟩)
        rw [here, type, value, first]
        have bound := pa.isLt
        exact ⟨rfl, by omega⟩
      · obtain ⟨type, value⟩ := entry c hc i (by omega) (by omega)
        refine ⟨type, value.trans ?_⟩
        rw [next]
        omega
    · exact (rest c i (by omega)).trans (if_neg fun both => away (by omega))

theorem BySections.map (mapped : BySections m t₀ segs t)
    (aligned : seg.va % 2 ^ 20 = seg.pa.toNat % 2 ^ 20)
    (agree : ∀ r ∈ segs, ∀ i, r.inSections i → seg.inSections i → r.scTarget i = seg.scTarget i) :
    BySections m t₀ (segs ++ [seg]) (m.mapSections (scCount seg.va seg.size)
      (seg.va / 2 ^ 20 * 2 ^ 20) (seg.pa &&& ~~~ARM_SCMASK) t) := by
  have base : (seg.pa &&& ~~~ARM_SCMASK).toNat = seg.pa.toNat / 2 ^ 20 * 2 ^ 20 := by
    have parts := toNat_and_parts (w := seg.pa) ARM_SCMASK
    rw [@toNat_and_low _ _ 20 ARM_SCMASK rfl] at parts
    omega
  obtain ⟨entry, rest, ram⟩ := @mapSections_spec m t (scCount seg.va seg.size)
      (seg.va / 2 ^ 20 * 2 ^ 20) _
      (show (seg.pa &&& ~~~ARM_SCMASK).toNat % 2 ^ 20 = 0 by rw [base]; omega)
  rw [base, Nat.mul_div_cancel _ (by decide), Nat.mul_div_cancel _ (by decide)] at entry
  rw [Nat.mul_div_cancel _ (by decide)] at rest
  have new : ∀ i, seg.inSections i → ∀ c < m.numCpu, _ := fun i inside c hc =>
    entry c hc i inside.1 inside.2
  refine ⟨fun r mem => ?_, fun r mem i inside c hc => ?_, fun c i away => ?_, ram.trans mapped.ram⟩
  · rcases List.mem_append.mp mem with old | last
    · exact mapped.aligned r old
    · rwa [List.mem_singleton.mp last]
  · rcases List.mem_append.mp mem with old | last
    · by_cases here : seg.inSections i
      · rw [agree r old i inside here]
        exact new i here c hc
      · rw [rest c i here]
        exact mapped.entry r old i inside c hc
    · rw [List.mem_singleton.mp last] at inside ⊢
      exact new i inside c hc
  · have outside : ¬seg.inSections i := away seg (List.mem_append_right _ List.mem_cons_self)
    exact (rest c i outside).trans
      (mapped.rest c i fun r mem => away r (List.mem_append_left _ mem))

/-! ## By pages -/

/-- The segments are mapped by pages, and so can others be in groups in which nothing was mapped;
left-over sections do not count. -/
structure ByPages (m : Mmu) (window : Option Nat) (t₀ : Tables) (segs : List Segment)
    (t : Tables) : Prop where
  inv : TablesInv m window t.clean
  uniform : ∀ g < 1024, some g ≠ window → (∀ c < m.numCpu, t₀.Absent c g) → m.Uniform t.clean g
  pages : ∀ seg ∈ segs, ∀ page, seg.inPages page → ∀ c < m.numCpu,
    t.clean.translate c page = some (seg.target page)

theorem ByPages.map {addr : Nat} {flags : Word} (virt : m.virt = true)
    (mapped : ByPages m window t₀ segs t) (propers : ∀ r ∈ segs, r.Proper m window t₀)
    (proper : seg.Proper m window t₀)
    (agree : ∀ r ∈ segs, ∀ page, r.inPages page → seg.inPages page →
      r.target page = seg.target page)
    (call : m.arm32Map seg.va seg.pa seg.size flags t = some (t', addr)) :
    ByPages m window t₀ (segs ++ [seg]) t' := by
  have given : seg.va ≠ 2 ^ 32 - 1 := Nat.ne_of_lt proper.start
  have first : firstPage t.clean.nextAddr seg.va = seg.va / PAGESIZE := by
    rw [firstPage, if_neg given]
  have below : ∀ {r : Segment}, r.Proper m window t₀ → ∀ {page : Nat}, r.inPages page →
      page < 2 ^ 20 := by
    intro r proper page inside
    have := proper.inSections_lt (proper.inPages inside)
    omega
  have open_ : ∀ {r : Segment}, r.Proper m window t₀ → ∀ {page : Nat}, r.inPages page →
      some (page / 1024) ≠ window ∧ ∀ c < m.numCpu, t₀.Absent c (page / 1024) := by
    intro r proper page inside
    have := proper.free _ (Or.inr (proper.inPages inside))
    rwa [show page / 256 / 4 = page / 1024 by omega] at this
  have covers : ∀ page, (MapOp.map seg.va seg.pa seg.size flags).covers t.clean.nextAddr page ↔
      seg.inPages page := by
    intro page
    change firstPage t.clean.nextAddr seg.va ≤ page ∧
      page < firstPage t.clean.nextAddr seg.va + pageCount seg.pa seg.size ↔ _
    rw [first]
    exact Iff.rfl
  have effect := arm32Map_spec (m := m) virt mapped.inv ?_ ?_ ?_
    (clean_arm32Map call)
  · rw [first] at effect
    have given : t.clean.assign seg.va (pageCount seg.pa seg.size) = t.clean := by
      unfold Tables.assign
      rw [if_neg given]
    rw [given] at effect
    refine ⟨effect.inv, fun g hg out free => effect.uniform g hg (mapped.uniform g hg out free),
      fun r mem page inside c hc => ?_⟩
    rcases List.mem_append.mp mem with old | last
    · have outside := (open_ (propers r old) inside).1
      have before := mapped.pages r old page inside c hc
      by_cases here : seg.inPages page
      · rcases effect.inside c hc page (below (propers r old) inside) outside
          ((covers page).mpr here) with same | new
        · rw [same, before]
        · rw [new, agree r old page inside here]
          rfl
      · rw [effect.outside c hc page (below (propers r old) inside) outside
          fun covered => here ((covers page).mp covered), before]
    · rw [List.mem_singleton.mp last] at inside ⊢
      exact effect.mapped c hc page (below proper inside) (open_ proper inside).1
        ((covers page).mpr inside) hc
  · have small := proper.small
    have congruent := proper.page
    unfold PAGESIZE at *
    omega
  · have space := proper.space
    have congruent := proper.page
    rw [first]
    unfold pageCount PAGESIZE at *
    omega
  · intro page covered
    have inside := (covers page).mp covered
    obtain ⟨out, free⟩ := open_ proper inside
    exact mapped.uniform _ (by have := below proper inside; omega) out free

theorem ByPages.mapAll {more : List Segment} (virt : m.virt = true)
    (mapped : ByPages m window t₀ segs t) (propers : ∀ r ∈ segs ++ more, r.Proper m window t₀)
    (agree : (segs ++ more).Pairwise fun r seg => ∀ page, r.inPages page → seg.inPages page →
      r.target page = seg.target page)
    (call : more.foldlM (fun t seg =>
      (m.arm32Map seg.va seg.pa seg.size seg.flags t).map Prod.fst) t = some t') :
    ByPages m window t₀ (segs ++ more) t' := by
  induction more generalizing segs t with
  | nil =>
    cases call
    rwa [List.append_nil]
  | cons seg more ih =>
    rw [List.foldlM_cons] at call
    obtain ⟨u, first, others⟩ := Option.bind_eq_some_iff.mp call
    obtain ⟨⟨v, addr⟩, call, rfl⟩ := Option.map_eq_some_iff.mp first
    have order : segs ++ seg :: more = segs ++ [seg] ++ more := by simp
    have earlier := (List.pairwise_append.mp agree).2.2
    rw [order] at propers agree ⊢
    refine ih (mapped.map virt (fun r old => propers r (by simp [old])) (propers seg (by simp))
      (fun r old => earlier r old seg List.mem_cons_self) call) propers agree others

theorem unmap_spec :
    (∀ c i, (segs.foldl (fun t seg => m.armScunmap seg.va t) t).l1 c i =
        if c < m.numCpu ∧ ∃ seg ∈ segs, i = seg.va / 2 ^ 20 then 0 else t.l1 c i) ∧
      (segs.foldl (fun t seg => m.armScunmap seg.va t) t).ram = t.ram := by
  induction segs generalizing t with
  | nil => exact ⟨fun c i => (if_neg (by simp)).symm, rfl⟩
  | cons seg segs ih =>
    obtain ⟨l1, ram⟩ := ih (t := m.armScunmap seg.va t)
    refine ⟨fun c i => (l1 c i).trans ?_, ram⟩
    by_cases later : c < m.numCpu ∧ ∃ seg ∈ segs, i = seg.va / 2 ^ 20
    · obtain ⟨hc, r, mem, here⟩ := later
      rw [if_pos ⟨hc, r, mem, here⟩, if_pos ⟨hc, r, List.mem_cons_of_mem _ mem, here⟩]
    · rw [if_neg later]
      refine if_congr (and_congr_right fun hc => ?_) rfl rfl
      rw [List.exists_mem_cons_iff, or_iff_left fun other => later ⟨hc, other⟩]

/-- The first entry of a group is unmapped wherever a segment is in that MB. -/
def Unmapped (segs : List Segment) : Prop :=
  ∀ seg ∈ segs, ∀ i, seg.inSections i → i % 4 = 0 → ∃ r ∈ segs, i = r.va / 2 ^ 20

theorem BySections.unmap (mapped : BySections m t₀ segs t)
    (propers : ∀ seg ∈ segs, seg.Proper m window t₀) (inv : TablesInv m window t₀)
    (unmapped : Unmapped segs) :
    ByPages m window t₀ [] (segs.foldl (fun t seg => m.armScunmap seg.va t) t) := by
  obtain ⟨entry, ram⟩ := unmap_spec (m := m) (t := t)
  generalize segs.foldl (fun t seg => m.armScunmap seg.va t) t = t₁ at entry ram ⊢
  have vacant : ∀ c < m.numCpu, ∀ g, (∀ c < m.numCpu, t₀.Absent c g) → t₁.clean.Absent c g := by
    intro c hc g absent i hi
    have base : (4 * g + i) / 4 * 4 = 4 * g := by omega
    have first : kind (t₁.l1 c (4 * g)) = 0 := by
      rw [entry]
      by_cases start : ∃ seg ∈ segs, 4 * g = seg.va / 2 ^ 20
      · rw [if_pos ⟨hc, start⟩]
        rfl
      · have outside : ∀ seg ∈ segs, ¬seg.inSections (4 * g) := fun seg mem inside =>
          start (unmapped seg mem _ inside (by omega))
        rw [if_neg fun both => start both.2, mapped.rest c _ outside]
        exact absent c hc 0 (by decide)
    change kind (if kind (t₁.l1 c ((4 * g + i) / 4 * 4)) = 0 then 0 else _) = 0
    rw [base, if_pos first]
    rfl
  refine ⟨inv.restrict (ram.trans mapped.ram) fun c hc g hg => ?_,
    fun g _ _ absent => Or.inr fun c hc => vacant c hc g absent, fun _ none => by cases none⟩
  by_cases free : some g ≠ window ∧ ∀ c < m.numCpu, t₀.Absent c g
  · exact Or.inr fun i hi => Or.inl (vacant c hc g free.2 i hi)
  · have same : ∀ i < 4, t₁.l1 c (4 * g + i) = t₀.l1 c (4 * g + i) := by
      intro i hi
      have group : (4 * g + i) / 4 = g := by omega
      rw [entry, if_neg fun ⟨_, seg, mem, here⟩ =>
        free (group ▸ (propers seg mem).free _ (Or.inl here))]
      exact mapped.rest c _ fun seg mem inside =>
        free (group ▸ (propers seg mem).free _ (Or.inr inside))
    by_cases first : kind (t₀.l1 c (4 * g + 0)) = 0
    · refine Or.inr fun i hi => Or.inl ?_
      change kind (if kind (t₁.l1 c ((4 * g + i) / 4 * 4)) = 0 then 0 else _) = 0
      rw [show (4 * g + i) / 4 * 4 = 4 * g + 0 by omega, same 0 (by decide), if_pos first]
      rfl
    · refine Or.inl fun i hi => ?_
      change (if kind (t₁.l1 c ((4 * g + i) / 4 * 4)) = 0 then 0 else _) = _
      rw [show (4 * g + i) / 4 * 4 = 4 * g + 0 by omega, same 0 (by decide), if_neg first,
        same i hi]

/-! ## Runs -/

/-- The statics with the segments so far. -/
structure ElfSystem where
  mapper : ElfMapper
  segs : List Segment

/-- The segment as it is recorded. -/
def Mmu.recorded (m : Mmu) (seg : Segment) : Segment := { seg with flags := m.elfFlags seg.flags }

/-- A call of `elf_map`. -/
def ElfStep (m : Mmu) (s : ElfSystem) (seg : Segment) (s' : ElfSystem) : Prop :=
  m.elfMap seg.va seg.pa seg.size seg.flags s.mapper = some s'.mapper ∧
    s'.segs = s.segs ++ [m.recorded seg]

/-- Pages and, with sections, MB that the segment has in common with another are the same memory
for both. When segments are mapped again by pages, none of their sections is left in the first entry
of a group. -/
def ElfHarmless (s : ElfSystem) (seg : Segment) : Prop :=
  (∀ r ∈ s.segs, ∀ page, r.inPages page → seg.inPages page → r.target page = seg.target page) ∧
    if s.mapper.remaps seg then ∀ segs, s.mapper.phdr = some segs → Unmapped segs
    else ∀ r ∈ s.segs, ∀ i, r.inSections i → seg.inSections i → r.scTarget i = seg.scTarget i

/-- The segments are mapped, by sections or by pages. -/
structure ElfInv (m : Mmu) (window : Option Nat) (t₀ : Tables) (s : ElfSystem) : Prop where
  propers : ∀ seg ∈ s.segs, seg.Proper m window t₀
  agree : s.segs.Pairwise fun r seg => ∀ page, r.inPages page → seg.inPages page →
    r.target page = seg.target page
  phdr : ∀ segs, s.mapper.phdr = some segs → segs = s.segs ∧ BySections m t₀ segs s.mapper.tables
  paged : s.mapper.phdr = none → ByPages m window t₀ s.segs s.mapper.tables

theorem ElfInv.mapped {s : ElfSystem} (inv : ElfInv m window t₀ s) (mem : seg ∈ s.segs) :
    seg.Mapped m s.mapper.tables := by
  have proper := inv.propers seg mem
  cases phdr : s.mapper.phdr with
  | some segs =>
    obtain ⟨rfl, sections⟩ := inv.phdr segs phdr
    exact proper.mapped_of_sections (sections.aligned seg mem) (sections.entry seg mem)
  | none =>
    exact proper.mapped_of_pages fun page inside c hc =>
      translate_clean ((inv.paged phdr).pages seg mem page inside c hc)

theorem ElfInv.step {s s' : ElfSystem} (virt : m.virt = true) (inv₀ : TablesInv m window t₀)
    (inv : ElfInv m window t₀ s) (step : ElfStep m s seg s') (proper : seg.Proper m window t₀)
    (harmless : ElfHarmless s seg) : ElfInv m window t₀ s' := by
  obtain ⟨call, grown⟩ := step
  obtain ⟨pages, shared⟩ := harmless
  have propers : ∀ r ∈ s'.segs, r.Proper m window t₀ := by
    intro r mem
    rcases List.mem_append.mp (grown ▸ mem) with old | last
    · exact inv.propers r old
    · rw [List.mem_singleton.mp last]
      exact ⟨proper.start, proper.space, proper.small, proper.page, proper.free⟩
  have agree : s'.segs.Pairwise fun r seg => ∀ page, r.inPages page → seg.inPages page →
      r.target page = seg.target page := by
    rw [grown, List.pairwise_append]
    refine ⟨inv.agree, List.pairwise_singleton _ _, fun r old last mem => ?_⟩
    rw [List.mem_singleton.mp mem]
    exact pages r old
  unfold Mmu.elfMap at call
  dsimp only at call
  by_cases remaps : s.mapper.remaps ⟨seg.va, seg.pa, seg.size, m.elfFlags seg.flags⟩
  · rw [if_pos remaps] at call
    rw [if_pos (show s.mapper.remaps seg = true from remaps)] at shared
    obtain ⟨t, call, same⟩ := Option.map_eq_some_iff.mp call
    have none_ : s'.mapper.phdr = none := same ▸ rfl
    have tables : s'.mapper.tables = t := same ▸ rfl
    refine ⟨propers, agree, fun segs some_ => ?_, fun _ => ?_⟩
    · rw [none_] at some_
      cases some_
    rw [tables]
    cases phdr : s.mapper.phdr with
    | some segs =>
      obtain ⟨rfl, sections⟩ := inv.phdr segs phdr
      have paged := sections.unmap inv.propers inv₀ (shared _ phdr)
      rw [phdr] at call
      rw [grown] at propers agree ⊢
      exact @ByPages.mapAll _ _ _ _ _ [] _ virt paged propers agree call
    | none =>
      rw [phdr] at call
      rw [grown] at propers agree ⊢
      exact (inv.paged phdr).mapAll virt propers agree call
  · rw [if_neg remaps] at call
    rw [if_neg (show ¬s.mapper.remaps seg = true from remaps)] at shared
    split at call
    · cases call
    · have same := Option.some.inj call
      unfold ElfMapper.remaps at remaps
      simp only [Bool.or_eq_true, not_or] at remaps
      obtain ⟨aligned, follows⟩ := remaps
      have aligned : seg.va % 2 ^ 20 = seg.pa.toNat % 2 ^ 20 := by
        simpa using aligned
      cases phdr : s.mapper.phdr with
      | none => simp [phdr] at follows
      | some segs =>
        obtain ⟨rfl, sections⟩ := inv.phdr segs phdr
        rw [phdr] at same
        refine ⟨propers, agree, fun segs some_ => ?_, fun none_ => ?_⟩
        · rw [← same] at some_ ⊢
          cases some_
          rw [grown]
          exact ⟨rfl, sections.map aligned shared⟩
        · rw [← same] at none_
          cases none_

/-- In every run in which pages or MB that segments share are the same memory, and no section is
left where a page table is looked for, all segments are mapped. -/
theorem elf_map_run (m : Mmu) (window : Option Nat) (t₀ : Tables) (ops : List Segment)
    (s : ElfSystem) (virt : m.virt = true) (inv : TablesInv m window t₀)
    (run : Run (fun s seg s' => ElfStep m s seg s' ∧ seg.Proper m window t₀ ∧ ElfHarmless s seg)
      ⟨⟨some [], t₀⟩, []⟩ ops s) :
    ∀ seg ∈ ops, seg.Mapped m s.mapper.tables := by
  have sections : BySections m t₀ [] t₀ :=
    ⟨fun _ none => absurd none List.not_mem_nil, fun _ none => absurd none List.not_mem_nil,
      fun _ _ _ => rfl, rfl⟩
  have start : ElfInv m window t₀ ⟨⟨some [], t₀⟩, []⟩ :=
    ⟨fun _ none => absurd none List.not_mem_nil, List.Pairwise.nil,
      fun _ same => Option.some.inj same ▸ ⟨rfl, sections⟩, nofun⟩
  have all : s.segs = ops.map m.recorded := by
    have follows := run.simulates (R := fun (s : ElfSystem) segs => s.segs = segs)
      (fun same step => same ▸ step.1.2) rfl
    rw [follows]
    clear * -
    induction ops using List.reverseRecOn with
    | nil => rfl
    | append_singleton ops seg ih => rw [List.foldl_append, ih, List.map_append]; rfl
  intro seg mem
  have inv := run.invariant (fun inv step => inv.step virt ‹_› step.1 step.2.1 step.2.2) start
  exact @ElfInv.mapped _ _ _ (m.recorded seg) _ inv (all ▸ List.mem_map_of_mem mem)

/-! ## Two segments -/

/-- The statics and the segments after some calls. -/
def loaded (ops : List Segment) : ElfSystem :=
  ops.foldl (fun s seg => ⟨(smp.elfMap seg.va seg.pa seg.size seg.flags s.mapper).getD s.mapper,
    s.segs ++ [smp.recorded seg]⟩) ⟨⟨some [], empty⟩, []⟩

theorem step_loaded {pre : List Segment} {seg : Segment}
    (works : (smp.elfMap seg.va seg.pa seg.size seg.flags (loaded pre).mapper).isSome = true) :
    ElfStep smp (loaded pre) seg (loaded (pre ++ [seg])) := by
  obtain ⟨mapper, call⟩ := Option.isSome_iff_exists.mp works
  have last : loaded (pre ++ [seg]) =
      ⟨(smp.elfMap seg.va seg.pa seg.size seg.flags (loaded pre).mapper).getD (loaded pre).mapper,
        (loaded pre).segs ++ [smp.recorded seg]⟩ := by
    rw [loaded, List.foldl_append]
    rfl
  rw [last]
  exact ⟨call.trans (by rw [call]; rfl), rfl⟩

theorem proper_empty {seg : Segment} (start : seg.va < 2 ^ 32 - 1)
    (space : seg.va + seg.size ≤ 2 ^ 32)
    (small : seg.size + seg.va % 2 ^ 20 + (2 ^ 20 - 1) < 2 ^ 32)
    (page : seg.va % PAGESIZE = seg.pa.toNat % PAGESIZE) : seg.Proper smp none empty :=
  ⟨start, space, small, page, fun _ _ => ⟨nofun, fun _ _ _ _ => rfl⟩⟩

/-- The second segment does not lie behind the first, and its section is replaced by pages. -/
theorem elf_map_run_small :
    ∃ s, Run (fun s seg s' => ElfStep smp s seg s' ∧ seg.Proper smp none empty ∧
        ElfHarmless s seg) ⟨⟨some [], empty⟩, []⟩
      [⟨0x500000, 0x10500000, 0x1800, 5⟩, ⟨0x502000, 0x10600000, 0x1000, 6⟩] s ∧
    s.mapper.phdr = none ∧
    (s.mapper.tables.vaddrToPaddr 0 0x501004).toNat = 0x10501004 ∧
    (s.mapper.tables.vaddrToPaddr 1 0x502004).toNat = 0x10600004 := by
  have run : Run (fun s seg s' => ElfStep smp s seg s' ∧ seg.Proper smp none empty ∧
        ElfHarmless s seg) ⟨⟨some [], empty⟩, []⟩
      [⟨0x500000, 0x10500000, 0x1800, 5⟩, ⟨0x502000, 0x10600000, 0x1000, 6⟩]
      (loaded [⟨0x500000, 0x10500000, 0x1800, 5⟩, ⟨0x502000, 0x10600000, 0x1000, 6⟩]) := by
    refine .cons ⟨@step_loaded [] _ (by decide +kernel),
        proper_empty (by decide) (by decide) (by decide) (by decide),
        fun _ none => absurd none List.not_mem_nil, fun _ none => absurd none List.not_mem_nil⟩ <|
      .single ⟨step_loaded (by decide +kernel),
        proper_empty (by decide) (by decide) (by decide) (by decide),
        fun r mem page inside here => ?_, fun segs same seg mem i inside base => ?_⟩
    · rw [List.mem_singleton.mp mem] at inside
      have first := inside.2
      have second := here.1
      have count : pageCount 0x10500000 0x1800 = 2 := rfl
      change page < 0x500000 / PAGESIZE + pageCount 0x10500000 0x1800 at first
      change 0x502000 / PAGESIZE ≤ page at second
      rw [count] at first
      unfold PAGESIZE at first second
      omega
    · cases same
      rw [List.mem_singleton.mp mem] at inside
      have first := inside.1
      have second := inside.2
      have count : scCount 0x500000 0x1800 = 1 := rfl
      change 0x500000 / 2 ^ 20 ≤ i at first
      change i < 0x500000 / 2 ^ 20 + scCount 0x500000 0x1800 at second
      rw [count] at second
      omega
  have mapped := elf_map_run smp none empty _ _ rfl empty_inv run
  exact ⟨_, run, by decide +kernel, mapped _ List.mem_cons_self 0x1004 (by decide) 0 (by decide),
    mapped _ (List.mem_cons_of_mem _ List.mem_cons_self) 4 (by decide) 1 (by decide)⟩

/-- A segment in two MB of two groups leaves a section, and the next segment in the second group is
not mapped. -/
theorem elf_map_broken :
    ∃ s, Run (fun s seg s' => ElfStep smp s seg s' ∧ seg.Proper smp none empty)
        ⟨⟨some [], empty⟩, []⟩
        [⟨0x3ff000, 0x103ff000, 0x2000, 5⟩, ⟨0x500000, 0x10600000, 0x1000, 6⟩] s ∧
      s.mapper.tables.vaddrToPaddr 0 0x500000 = 0 ∧
      ¬∀ seg ∈ ([⟨0x3ff000, 0x103ff000, 0x2000, 5⟩, ⟨0x500000, 0x10600000, 0x1000, 6⟩] :
        List Segment), seg.Mapped smp s.mapper.tables := by
  have lost : (loaded [⟨0x3ff000, 0x103ff000, 0x2000, 5⟩,
      ⟨0x500000, 0x10600000, 0x1000, 6⟩]).mapper.tables.vaddrToPaddr 0 0x500000 = 0 := by
    decide +kernel
  refine ⟨_, .cons ⟨@step_loaded [] _ (by decide +kernel),
      proper_empty (by decide) (by decide) (by decide) (by decide)⟩ <|
    .single ⟨step_loaded (by decide +kernel),
      proper_empty (by decide) (by decide) (by decide) (by decide)⟩, lost, fun mapped => ?_⟩
  have first := mapped _ (List.mem_cons_of_mem _ List.mem_cons_self) 0 (by decide) 0 (by decide)
  exact absurd ((congrArg BitVec.toNat lost).symm.trans first) (by decide)

end Mx6xBsp.Arm
