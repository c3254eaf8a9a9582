import Mathlib.Data.List.Nodup
import Mathlib.Tactic.Common
import Mx6xBsp.Arm.ArmMap
import Mx6xBsp.Lib.Masks

/-!
# Translation tables

What a page translates to on a processor (`Tables.translate`), and what becomes
of it when a page table is put in place (`TablesInv.attach`) and when an entry of
one is stored (`translate_store`). The four entries of an L1 table that share a
page of L2 tables are a group.
-/

namespace Mx6xBsp.Arm

open Startup Masks

variable {m : Mmu} {w x : Word}

/-! ## Words -/

/-- The type of an entry. -/
def kind (w : Word) : Nat := w.toNat % 4

theorem pageOf_eq : pageOf w = w.toNat / 4096 := by
  have split := toNat_and_parts (w := w) PGMASK
  rw [@toNat_and_low _ _ 12 PGMASK rfl] at split
  unfold pageOf PAGESIZE
  omega

theorem kind_eq_zero : w &&& ARM_PTP_VALID = 0 ↔ kind w = 0 := by
  rw [← BitVec.toNat_inj, toNat_and_low (k := 2) rfl]
  rfl

theorem kind_eq_two : w &&& ARM_PTP_VALID = ARM_PTP_SC &&& ARM_PTP_VALID ↔ kind w = 2 := by
  rw [← BitVec.toNat_inj, toNat_and_low (k := 2) rfl]
  rfl

theorem pageOf_or (low : x.toNat < 4096) : pageOf (w ||| x) = pageOf w := by
  rw [pageOf_eq, pageOf_eq, BitVec.toNat_or, ← Nat.shiftRight_eq_div_pow _ 12,
    Nat.shiftRight_or_distrib, Nat.shiftRight_eq_div_pow x.toNat 12, Nat.div_eq_of_lt low,
    Nat.or_zero, Nat.shiftRight_eq_div_pow]

theorem pageOf_andNot (low : x.toNat < 4096) : pageOf (w &&& ~~~x) = pageOf w := by
  have low : (w &&& x).toNat < 4096 :=
    lt_of_le_of_lt (BitVec.toNat_and .. ▸ Nat.and_le_right) low
  rw [← pageOf_or low, and_parts]

theorem toNat_ext {n k : Nat} (a : BitVec n) (small : n ≤ k) : (ext a).toNat < 2 ^ k := by
  rw [ext, BitVec.toNat_setWidth]
  exact lt_of_le_of_lt (Nat.mod_le _ _)
    (lt_of_lt_of_le a.isLt (Nat.pow_le_pow_right (by decide) small))

theorem toNat_and_ext {n k : Nat} (a : BitVec n) (small : n ≤ k) : (w &&& ext a).toNat < 2 ^ k :=
  lt_of_le_of_lt (BitVec.toNat_and .. ▸ Nat.and_le_right) (toNat_ext a small)

theorem getLsbD_ext {n : Nat} (a : BitVec n) : (ext a).getLsbD 1 = a.getLsbD 1 := by
  rw [ext, BitVec.getLsbD_setWidth]
  simp

theorem kind_of_small (small : w.getLsbD 1 = true) : kind w ≠ 0 := by
  rw [BitVec.getLsbD, Nat.testBit_eq_decide_div_mod_eq, decide_eq_true_iff] at small
  unfold kind
  omega

/-- `set_prot` keeps the page, and makes the entry that of a small page. -/
theorem Mmu.pageOf_setProt (paddr flags : Word) :
    pageOf (m.setProt paddr flags) = pageOf paddr := by
  have attr : ∀ a : BitVec 12, (ext a).toNat < 4096 := fun a => toNat_ext (k := 12) a le_rfl
  have given : ∀ a : BitVec 12, (flags &&& ext a).toNat < 4096 :=
    fun a => toNat_and_ext (k := 12) a le_rfl
  unfold Mmu.setProt
  split
  · split
    · rw [pageOf_andNot (attr _), pageOf_or (attr _)]
    · rw [pageOf_or (attr _)]
  · extract_lets first second third
    have one : pageOf first = pageOf paddr := by
      unfold first
      split <;> rw [pageOf_or (attr _)]
    have two : pageOf second = pageOf paddr := by
      unfold second
      split
      · rw [pageOf_andNot (attr _), one]
      · exact one
    split
    · have three : pageOf third = pageOf paddr := by rw [pageOf_or (given _), two]
      split
      · rw [pageOf_or (attr _), three]
      · exact three
    · rw [pageOf_or (given _), two]

theorem Mmu.kind_setProt (paddr flags : Word) : kind (m.setProt paddr flags) ≠ 0 := by
  apply kind_of_small
  have upteRo := m.pte.smallPage m.pte.upteRo (by simp)
  have upteRw := m.pte.smallPage m.pte.upteRw (by simp)
  have kpteRo := m.pte.smallPage m.pte.kpteRo (by simp)
  have kpteRw := m.pte.smallPage m.pte.kpteRw (by simp)
  unfold Mmu.setProt
  split
  · split
    · rw [BitVec.getLsbD_and, BitVec.getLsbD_or, BitVec.getLsbD_not, getLsbD_ext, getLsbD_ext,
        upteRw, m.bits.access]
      simp
    · rw [BitVec.getLsbD_or, getLsbD_ext, upteRo, Bool.or_true]
  · extract_lets first second third
    have one : first.getLsbD 1 = true := by
      unfold first
      split <;> split <;> simp [getLsbD_ext, upteRo, upteRw, kpteRo, kpteRw]
    have two : second.getLsbD 1 = true := by
      unfold second
      split
      · rw [BitVec.getLsbD_and, BitVec.getLsbD_not, getLsbD_ext, one, m.pte.cacheBits]
        rfl
      · exact one
    split
    · split <;> simp [third, two]
    · simp [two]

/-! ## Translation -/

/-- What the entry of a small page stands for. -/
def small (w : Word) : Option Nat := if kind w = 0 then none else some (pageOf w)

/-- The page of the memory a virtual page stands for on a processor. -/
def Tables.translate (t : Tables) (cpu page : Nat) : Option Nat :=
  let ptp := t.l1 cpu (page / 256)
  if kind ptp = 0 then none
  else if kind ptp = 2 then some (ptp.toNat / 2 ^ 20 * 256 + page % 256)
  else small (t.mem (pageOf ptp) (page % 1024))

theorem Tables.vaddrToPaddr_eq {t : Tables} {cpu page base off : Nat}
    (mapped : t.translate cpu page = some base) (inside : off < PAGESIZE) :
    (t.vaddrToPaddr cpu (page * PAGESIZE + off)).toNat = base * PAGESIZE + off := by
  unfold PAGESIZE at inside ⊢
  have entry : (page * 4096 + off) / 2 ^ 20 = page / 256 := by omega
  have slot : (page * 4096 + off) / PAGESIZE % ARM_L2_SIZE = page % 1024 := by
    unfold PAGESIZE ARM_L2_SIZE
    omega
  unfold Tables.translate at mapped
  unfold Tables.vaddrToPaddr
  dsimp only at mapped ⊢
  rw [entry, slot]
  split at mapped
  · cases mapped
  · split at mapped
    · rename_i section_
      cases mapped
      rw [if_pos (kind_eq_two.mpr section_), toNat_mask_add (k := 20) rfl (by decide)]
      omega
    · rename_i table
      rw [if_neg (fun section_ => table (kind_eq_two.mp section_)),
        toNat_mask_add (k := 12) rfl (by decide)]
      unfold small at mapped
      split at mapped
      · cases mapped
      · cases mapped
        have found := pageOf_eq (w := t.mem (pageOf (t.l1 cpu (page / 256))) (page % 1024))
        omega

/-- The group has the page table `ptbl` on a processor. -/
def Tables.HasTable (t : Tables) (cpu group ptbl : Nat) : Prop :=
  ∀ i < 4, pageOf (t.l1 cpu (4 * group + i)) = ptbl ∧ kind (t.l1 cpu (4 * group + i)) = 1

/-- Nothing is mapped in the group on a processor. -/
def Tables.Absent (t : Tables) (cpu group : Nat) : Prop :=
  ∀ i < 4, kind (t.l1 cpu (4 * group + i)) = 0

instance {t : Tables} {cpu group ptbl : Nat} : Decidable (t.HasTable cpu group ptbl) :=
  inferInstanceAs (Decidable (∀ i < 4, _))

instance {t : Tables} {cpu group : Nat} : Decidable (t.Absent cpu group) :=
  inferInstanceAs (Decidable (∀ i < 4, _))

theorem group_index (page : Nat) : page / 256 = 4 * (page / 1024) + page % 1024 / 256 := by omega

theorem translate_table {t : Tables} {cpu page ptbl : Nat}
    (table : t.HasTable cpu (page / 1024) ptbl) :
    t.translate cpu page = small (t.mem ptbl (page % 1024)) := by
  obtain ⟨at_, type⟩ := table (page % 1024 / 256) (by omega)
  rw [Tables.translate, group_index, at_, type]
  rfl

theorem translate_absent {t : Tables} {cpu page : Nat} (absent : t.Absent cpu (page / 1024)) :
    t.translate cpu page = none := by
  rw [Tables.translate, group_index, absent (page % 1024 / 256) (by omega)]
  rfl

/-- Where neither the entry of the L1 table nor, if there is one, the page table changes. -/
theorem translate_congr {t t' : Tables} {cpu page : Nat}
    (same : t'.l1 cpu (page / 256) = t.l1 cpu (page / 256))
    (slot : kind (t.l1 cpu (page / 256)) = 1 ∨ kind (t.l1 cpu (page / 256)) = 3 →
      t'.mem (pageOf (t.l1 cpu (page / 256))) (page % 1024) =
        t.mem (pageOf (t.l1 cpu (page / 256))) (page % 1024)) :
    t'.translate cpu page = t.translate cpu page := by
  unfold Tables.translate
  dsimp only
  rw [same]
  split
  · rfl
  · split
    · rfl
    · rename_i present table
      rw [slot]
      have bound : kind (t.l1 cpu (page / 256)) < 4 := Nat.mod_lt _ (by decide)
      omega

/-! ## The invariant -/

/-- A group has a page table or none of its entries points to one; page tables serve one group
each, and are neither those of the "page directory", except for the group `window` where it is
mapped, nor among the pages that `calloc_ram` has left. -/
structure TablesInv (m : Mmu) (window : Option Nat) (t : Tables) : Prop where
  groups : ∀ cpu < m.numCpu, ∀ g < 1024, (∃ p, t.HasTable cpu g p) ∨
    ∀ i < 4, kind (t.l1 cpu (4 * g + i)) = 0 ∨ kind (t.l1 cpu (4 * g + i)) = 2
  apart : ∀ cpu < m.numCpu, ∀ cpu' < m.numCpu, ∀ g < 1024, ∀ g' < 1024, ∀ p,
    t.HasTable cpu g p → t.HasTable cpu' g' p → g = g'
  dir : ∀ cpu < m.numCpu, ∀ cpu' < m.numCpu, ∀ g < 1024, some g ≠ window →
    ¬t.HasTable cpu g (m.l2Table cpu')
  fresh : ∀ p ∈ t.ram, p < 2 ^ 20 ∧ (∀ cpu < m.numCpu, p ≠ m.l2Table cpu) ∧
    ∀ cpu < m.numCpu, ∀ g < 1024, ¬t.HasTable cpu g p
  nodup : t.ram.Nodup

variable {window : Option Nat} {t t' : Tables}

theorem TablesInv.congr (inv : TablesInv m window t) (l1 : t'.l1 = t.l1) (ram : t'.ram = t.ram) :
    TablesInv m window t' := by
  have has : ∀ cpu g p, t'.HasTable cpu g p ↔ t.HasTable cpu g p := by
    intro cpu g p
    unfold Tables.HasTable
    rw [l1]
  refine ⟨fun cpu hc g hg => ?_, fun cpu hc cpu' hc' g hg g' hg' p left right => ?_,
    fun cpu hc cpu' hc' g hg out table => ?_, fun p free => ?_, ram ▸ inv.nodup⟩
  · rw [l1]
    simpa only [has] using inv.groups cpu hc g hg
  · exact inv.apart cpu hc cpu' hc' g hg g' hg' p ((has ..).mp left) ((has ..).mp right)
  · exact inv.dir cpu hc cpu' hc' g hg out ((has ..).mp table)
  · obtain ⟨low, notDir, notTable⟩ := inv.fresh p (ram ▸ free)
    exact ⟨low, notDir, fun cpu hc g hg table => notTable cpu hc g hg ((has ..).mp table)⟩

/-! ## Storing an entry -/

/-- A store to the page table of a group changes the translation of that page on the processors
that have the table. -/
theorem translate_store {cpu g p slot c page : Nat} {entry : Word} (inv : TablesInv m window t)
    (hcpu : cpu < m.numCpu) (hg : g < 1024) (table : t.HasTable cpu g p) (within : slot < 1024)
    (hc : c < m.numCpu) (hpage : page < 2 ^ 20) :
    (t.store p slot entry).translate c page =
      if page = 1024 * g + slot ∧ t.HasTable c g p then small entry else t.translate c page := by
  have group : page / 1024 < 1024 := by omega
  split
  · rename_i here
    obtain ⟨rfl, shared⟩ := here
    have place : (1024 * g + slot) / 1024 = g := by omega
    have index : (1024 * g + slot) % 1024 = slot := by omega
    have kept : (t.store p slot entry).HasTable c ((1024 * g + slot) / 1024) p := by
      rw [place]
      exact shared
    rw [translate_table kept, index]
    simp [Tables.store]
  · rename_i away
    rcases inv.groups c hc _ group with ⟨q, table'⟩ | plain
    · have kept : (t.store p slot entry).HasTable c (page / 1024) q := table'
      rw [translate_table kept, translate_table table']
      by_cases same : q = p
      · subst same
        have here := inv.apart c hc cpu hcpu _ group g hg q table' table
        have other : page % 1024 ≠ slot := by
          rintro rfl
          exact away ⟨by omega, here ▸ table'⟩
        simp [Tables.store, Function.update_of_ne other]
      · simp [Tables.store, Function.update_of_ne same]
    · refine translate_congr rfl fun tabled => ?_
      have := plain (page % 1024 / 256) (by omega)
      rw [← group_index] at this
      omega

/-! ## A new page table -/

/-- The entry of the L1 table for an L2 table in the page `ptbl`. -/
def Mmu.tableEntry (m : Mmu) (ptbl i : Nat) : Word :=
  (addrOf ptbl + BitVec.ofNat 32 (i % 4 * ARM_L2_SIZE)) ||| ext m.pte.l1Pgtable

theorem kind_tableEntry {p i : Nat} : kind (m.tableEntry p i) = 1 := by
  have type := m.pte.pageTable
  have same : (ext m.pte.l1Pgtable).toNat = m.pte.l1Pgtable.toNat := by
    have bound := m.pte.l1Pgtable.isLt
    rw [ext, BitVec.toNat_setWidth]
    omega
  have base : (addrOf p + BitVec.ofNat 32 (i % 4 * ARM_L2_SIZE)).toNat % 2 ^ 2 = 0 := by
    rw [addrOf, BitVec.toNat_add, BitVec.toNat_ofNat, BitVec.toNat_ofNat]
    unfold PAGESIZE ARM_L2_SIZE
    omega
  rw [kind, Mmu.tableEntry, BitVec.toNat_or, same]
  refine (Nat.or_mod_two_pow (n := 2)).trans ?_
  rw [base, Nat.zero_or]
  exact type

theorem tableEntry_page {p i : Nat} (low : p < 2 ^ 20) :
    pageOf (m.tableEntry p i) = p ∧ kind (m.tableEntry p i) = 1 := by
  have attr : (ext m.pte.l1Pgtable).toNat < 1024 := toNat_ext (k := 10) _ le_rfl
  have value : (addrOf p + BitVec.ofNat 32 (i % 4 * ARM_L2_SIZE)).toNat =
      p * 4096 + i % 4 * 1024 := by
    rw [addrOf, BitVec.toNat_add, BitVec.toNat_ofNat, BitVec.toNat_ofNat]
    unfold PAGESIZE ARM_L2_SIZE
    omega
  refine ⟨?_, kind_tableEntry⟩
  rw [Mmu.tableEntry, pageOf_or (by omega), pageOf_eq, value]
  omega

/-- `map_ptbl_cpu` for some processors. -/
def Mmu.mapPtblOn (m : Mmu) (cpus : List Nat) (ptbl : Nat → Nat) (vaddr : Nat) (t : Tables) :
    Tables :=
  cpus.foldl (fun t cpu => m.mapPtblCpu cpu (ptbl cpu) vaddr t) t

theorem mapPtblOn_spec {cpus : List Nat} {ptbl : Nat → Nat} {va : Nat} :
    (∀ c i, (m.mapPtblOn cpus ptbl va t).l1 c i =
        if c ∈ cpus ∧ i / 4 = va / 2 ^ 22 then m.tableEntry (ptbl c) i else t.l1 c i) ∧
      (∀ q, (∀ c ∈ cpus, q ≠ m.l2Table c) → (m.mapPtblOn cpus ptbl va t).mem q = t.mem q) ∧
      (m.mapPtblOn cpus ptbl va t).ram = t.ram ∧
      (m.mapPtblOn cpus ptbl va t).nextAddr = t.nextAddr := by
  induction cpus generalizing t with
  | nil => exact ⟨fun c i => (if_neg (by simp)).symm, fun _ _ => rfl, rfl, rfl⟩
  | cons cpu cpus ih =>
    obtain ⟨l1, mem, ram, next⟩ := ih (t := m.mapPtblCpu cpu (ptbl cpu) va t)
    refine ⟨fun c i => (l1 c i).trans ?_, fun q apart => (mem q fun c hc =>
      apart c (List.mem_cons_of_mem _ hc)).trans ?_, ram, next⟩
    · by_cases group : i / 4 = va / 2 ^ 22
      · by_cases same : c = cpu
        · subst same
          simp [group, Mmu.mapPtblCpu, Mmu.tableEntry]
        · simp [same, Mmu.mapPtblCpu, Tables.store]
      · rw [if_neg fun here => group here.2, if_neg fun here => group here.2]
        by_cases same : c = cpu
        · subst same
          exact (congrFun (Function.update_self ..) i).trans (if_neg group)
        · exact congrFun (Function.update_of_ne same _ _) i
    · exact Function.update_of_ne (apart cpu List.mem_cons_self) _ _

theorem mapPtblOn_groups {cpus : List Nat} {ptbl : Nat → Nat} {va : Nat}
    (low : ∀ c ∈ cpus, ptbl c < 2 ^ 20) :
    (∀ c g, ¬(c ∈ cpus ∧ g = va / 2 ^ 22) → ∀ i < 4,
        (m.mapPtblOn cpus ptbl va t).l1 c (4 * g + i) = t.l1 c (4 * g + i)) ∧
      (∀ c g q, (m.mapPtblOn cpus ptbl va t).HasTable c g q ↔
        if c ∈ cpus ∧ g = va / 2 ^ 22 then q = ptbl c else t.HasTable c g q) ∧
      ∀ c g, (m.mapPtblOn cpus ptbl va t).Absent c g ↔
        ¬(c ∈ cpus ∧ g = va / 2 ^ 22) ∧ t.Absent c g := by
  have entry : ∀ c g i, i < 4 → (m.mapPtblOn cpus ptbl va t).l1 c (4 * g + i) =
      if c ∈ cpus ∧ g = va / 2 ^ 22 then m.tableEntry (ptbl c) (4 * g + i)
      else t.l1 c (4 * g + i) := by
    intro c g i hi
    rw [mapPtblOn_spec.1, show (4 * g + i) / 4 = g by omega]
  refine ⟨fun c g away i hi => by rw [entry c g i hi, if_neg away], fun c g q => ?_,
    fun c g => ?_⟩
  · unfold Tables.HasTable
    split
    · rename_i here
      constructor
      · intro table
        have first := (table 0 (by decide)).1
        rw [entry c g 0 (by decide), if_pos here, (tableEntry_page (low c here.1)).1] at first
        exact first.symm
      · rintro rfl i hi
        rw [entry c g i hi, if_pos here]
        exact tableEntry_page (low c here.1)
    · rename_i away
      refine forall_congr' fun i => forall_congr' fun hi => ?_
      rw [entry c g i hi, if_neg away]
  · unfold Tables.Absent
    by_cases here : c ∈ cpus ∧ g = va / 2 ^ 22
    · refine ⟨fun none => ?_, fun none => absurd here none.1⟩
      have first := none 0 (by decide)
      rw [entry c g 0 (by decide), if_pos here, (tableEntry_page (low c here.1)).2] at first
      cases first
    · rw [and_iff_right here]
      refine forall_congr' fun i => forall_congr' fun hi => ?_
      rw [entry c g i hi, if_neg here]

theorem callocRam_mem {p : Nat} (alloc : t.callocRam = some (p, t')) : p ∈ t.ram := by
  unfold Tables.callocRam at alloc
  split at alloc
  · cases alloc
  · rename_i page rest ram
    cases alloc
    exact ram ▸ List.mem_cons_self

/-- A page of the memory with a page table for the group of `va` on some processors, on which there
was nothing. -/
theorem TablesInv.attach {cpus : List Nat} {p va : Nat} {t₁ : Tables}
    (inv : TablesInv m window t) (alloc : t.callocRam = some (p, t₁))
    (known : ∀ c ∈ cpus, c < m.numCpu)
    (absent : ∀ c ∈ cpus, t.Absent c (va / 2 ^ 22)) :
    let t' := m.mapPtblOn cpus (fun _ => p) va t₁
    TablesInv m window t' ∧
      (∀ c g q, (t'.HasTable c g q ↔
        if c ∈ cpus ∧ g = va / 2 ^ 22 then q = p else t.HasTable c g q)) ∧
      (∀ c g, (t'.Absent c g ↔ ¬(c ∈ cpus ∧ g = va / 2 ^ 22) ∧ t.Absent c g)) ∧
      (∀ c < m.numCpu, ∀ page < 2 ^ 20, some (page / 1024) ≠ window →
        t'.translate c page = t.translate c page) ∧
      t'.nextAddr = t.nextAddr := by
  intro t'
  obtain ⟨rest, ram, rfl⟩ : ∃ rest, t.ram = p :: rest ∧
      t₁ = { t with ram := rest, mem := Function.update t.mem p fun _ => 0 } := by
    unfold Tables.callocRam at alloc
    split at alloc
    · cases alloc
    · cases alloc
      exact ⟨_, by assumption, rfl⟩
  obtain ⟨_, mem, ram', next⟩ := mapPtblOn_spec (m := m)
    (t := { t with ram := rest, mem := Function.update t.mem p fun _ => 0 })
  obtain ⟨low, notDir, notTable⟩ := inv.fresh p (ram ▸ List.mem_cons_self)
  obtain ⟨entry, has, free⟩ := mapPtblOn_groups (m := m)
    (t := { t with ram := rest, mem := Function.update t.mem p fun _ => 0 })
    fun _ _ => low
  have nodup := inv.nodup
  rw [ram, List.nodup_cons] at nodup
  have ram' : t'.ram = rest := ram'
  refine ⟨⟨fun c hc g hg => ?_, fun c hc c' hc' g hg g' hg' q left right => ?_,
    fun c hc c' hc' g hg out table => ?_, fun q mem => ?_, ?_⟩, has, free,
    fun c hc page hpage out => ?_, next⟩
  · by_cases here : c ∈ cpus ∧ g = va / 2 ^ 22
    · exact Or.inl ⟨p, (has c g p).mpr (by rw [if_pos here])⟩
    · rcases inv.groups c hc g hg with ⟨q, table⟩ | plain
      · exact Or.inl ⟨q, (has c g q).mpr (by rwa [if_neg here])⟩
      · refine Or.inr fun i hi => ?_
        rw [entry c g here i hi]
        exact plain i hi
  · rw [has] at left right
    split at left
    · rename_i here
      split at right
      · rename_i here'
        rw [here.2, here'.2]
      · rw [left] at right
        exact absurd right (notTable c' hc' g' hg')
    · split at right
      · rw [right] at left
        exact absurd left (notTable c hc g hg)
      · exact inv.apart c hc c' hc' g hg g' hg' q left right
  · rw [has] at table
    split at table
    · exact notDir c' hc' table.symm
    · exact inv.dir c hc c' hc' g hg out table
  · rw [ram'] at mem
    obtain ⟨low', notDir', notTable'⟩ := inv.fresh q (ram ▸ List.mem_cons_of_mem _ mem)
    refine ⟨low', notDir', fun c hc g hg table => ?_⟩
    rw [has] at table
    split at table
    · exact nodup.1 (table ▸ mem)
    · exact notTable' c hc g hg table
  · rw [ram']
    exact nodup.2
  · have group : page / 1024 < 1024 := by omega
    by_cases here : c ∈ cpus ∧ page / 1024 = va / 2 ^ 22
    · have table : t'.HasTable c (page / 1024) p := (has ..).mpr (by rw [if_pos here])
      have none : t.Absent c (page / 1024) := here.2 ▸ absent c here.1
      rw [translate_table table, translate_absent none, mem p fun c hc => notDir c (known c hc)]
      simp [small, kind]
    · rcases inv.groups c hc _ group with ⟨q, table⟩ | plain
      · have kept : t'.HasTable c (page / 1024) q := (has ..).mpr (by rwa [if_neg here])
        have other : q ≠ p := fun same => notTable c hc _ group (same ▸ table)
        have notDir : ∀ c' ∈ cpus, q ≠ m.l2Table c' := fun c' hc' same =>
          inv.dir c hc c' (known c' hc') _ group out (same ▸ table)
        rw [translate_table kept, translate_table table, mem q notDir]
        exact congrArg small (congrFun (Function.update_of_ne other _ _) _)
      · have same := entry c (page / 1024) here (page % 1024 / 256) (by omega)
        have type := plain (page % 1024 / 256) (by omega)
        rw [← group_index] at same
        rw [← group_index] at type
        exact translate_congr same fun tabled => by omega

/-! ## The tables of `init_mmu_32` -/

theorem blank_inv {mem : Nat → Nat → Word} {next : Nat} {ram : List Nat}
    (fresh : ∀ p ∈ ram, p < 2 ^ 20 ∧ ∀ cpu < m.numCpu, p ≠ m.l2Table cpu) (nodup : ram.Nodup) :
    TablesInv m none ⟨fun _ _ => 0, mem, next, ram⟩ := by
  have none : ∀ cpu g p, ¬(⟨fun _ _ => 0, mem, next, ram⟩ : Tables).HasTable cpu g p := by
    intro cpu g p table
    cases (table 0 (by decide)).2
  exact ⟨fun _ _ _ _ => Or.inr fun _ _ => Or.inl rfl,
    fun c _ _ _ g _ _ _ p table => absurd table (none c g p), fun c _ _ _ g _ _ => none c g _,
    fun p free => ⟨(fresh p free).1, (fresh p free).2, fun c _ g _ => none c g p⟩, nodup⟩

theorem TablesInv.pdmap {va : Nat} (inv : TablesInv m none t)
    (low : ∀ cpu < m.numCpu, m.l2Table cpu < 2 ^ 20) :
    TablesInv m (some (va / 2 ^ 22)) (m.armPdmap va t) := by
  have all : ∀ c, c < m.numCpu → c ∈ List.range m.numCpu := fun c => List.mem_range.mpr
  have ram : (m.armPdmap va t).ram = t.ram :=
    (mapPtblOn_spec).2.2.1
  obtain ⟨entry, tables, _⟩ := mapPtblOn_groups (m := m)
    (t := t) fun c hc => low c (List.mem_range.mp hc)
  have has : ∀ c < m.numCpu, ∀ g q, ((m.armPdmap va t).HasTable c g q ↔
      if g = va / 2 ^ 22 then q = m.l2Table c else t.HasTable c g q) := by
    intro c hc g q
    refine (tables c g q).trans (Iff.of_eq (if_congr ?_ rfl rfl))
    exact and_iff_right (all c hc)
  refine ⟨fun c hc g hg => ?_, fun c hc c' hc' g hg g' hg' q left right => ?_,
    fun c hc c' hc' g hg out table => ?_, fun q mem => ?_, ram ▸ inv.nodup⟩
  · by_cases here : g = va / 2 ^ 22
    · exact Or.inl ⟨m.l2Table c, (has c hc g _).mpr (by rw [if_pos here])⟩
    · rcases inv.groups c hc g hg with ⟨q, table⟩ | plain
      · exact Or.inl ⟨q, (has c hc g q).mpr (by rwa [if_neg here])⟩
      · exact Or.inr fun i hi => entry c g (fun both => here both.2) i hi ▸ plain i hi
  · rw [has c hc] at left
    rw [has c' hc'] at right
    split at left
    · rename_i here
      split at right
      · rename_i here'
        rw [here, here']
      · exact absurd (left ▸ right) (inv.dir c' hc' c hc g' hg' nofun)
    · split at right
      · exact absurd (right ▸ left) (inv.dir c hc c' hc' g hg nofun)
      · exact inv.apart c hc c' hc' g hg g' hg' q left right
  · rw [has c hc, if_neg fun here => out (congrArg some here)] at table
    exact inv.dir c hc c' hc' g hg nofun table
  · rw [ram] at mem
    obtain ⟨below, notDir, notTable⟩ := inv.fresh q mem
    refine ⟨below, notDir, fun c hc g hg table => ?_⟩
    rw [has c hc] at table
    split at table
    · exact notDir c hc table
    · exact notTable c hc g hg table

theorem toNat_scProt {flags : Word} : (ext (m.scProt flags)).toNat % 4 = 2 := by
  have types := m.pte.section_
  have value : (ext (m.scProt flags)).toNat = (m.scProt flags).toNat := by
    rw [ext, BitVec.toNat_setWidth]
    exact Nat.mod_eq_of_lt (lt_trans (m.scProt flags).isLt (by decide))
  rw [value]
  unfold Mmu.scProt
  dsimp only
  split <;> split <;> exact types _ (by simp)

theorem scEntry {paddr flags : Word} (aligned : paddr.toNat % 2 ^ 20 = 0) :
    (paddr ||| ext (m.scProt flags)).toNat / 2 ^ 20 = paddr.toNat / 2 ^ 20 ∧
      kind (paddr ||| ext (m.scProt flags)) = 2 := by
  have attr : (ext (m.scProt flags)).toNat < 2 ^ 20 := toNat_ext (k := 20) _ le_rfl
  constructor
  · rw [BitVec.toNat_or, ← Nat.shiftRight_eq_div_pow, Nat.shiftRight_or_distrib,
      Nat.shiftRight_eq_div_pow (ext (m.scProt flags)).toNat, Nat.div_eq_of_lt attr, Nat.or_zero,
      Nat.shiftRight_eq_div_pow]
  · rw [kind, BitVec.toNat_or, show 4 = 2 ^ 2 from rfl, Nat.or_mod_two_pow,
      show paddr.toNat % 2 ^ 2 = 0 by omega, Nat.zero_or]
    exact toNat_scProt

theorem TablesInv.restrict (inv : TablesInv m window t) (ram : t'.ram = t.ram)
    (groups : ∀ c < m.numCpu, ∀ g < 1024, (∀ i < 4, t'.l1 c (4 * g + i) = t.l1 c (4 * g + i)) ∨
      ∀ i < 4, kind (t'.l1 c (4 * g + i)) = 0 ∨ kind (t'.l1 c (4 * g + i)) = 2) :
    TablesInv m window t' := by
  have has : ∀ c < m.numCpu, ∀ g < 1024, ∀ p, t'.HasTable c g p → t.HasTable c g p := by
    intro c hc g hg p table
    rcases groups c hc g hg with same | plain
    · exact fun i hi => same i hi ▸ table i hi
    · have type := (table 0 (by decide)).2
      have := plain 0 (by decide)
      omega
  refine ⟨fun c hc g hg => ?_, fun c hc c' hc' g hg g' hg' p left right =>
    inv.apart c hc c' hc' g hg g' hg' p (has c hc g hg p left) (has c' hc' g' hg' p right),
    fun c hc c' hc' g hg out table => inv.dir c hc c' hc' g hg out (has c hc g hg _ table),
    fun p free => ?_, ram ▸ inv.nodup⟩
  · rcases groups c hc g hg with same | plain
    · rcases inv.groups c hc g hg with ⟨p, table⟩ | plain
      · exact Or.inl ⟨p, fun i hi => by rw [same i hi]; exact table i hi⟩
      · exact Or.inr fun i hi => by rw [same i hi]; exact plain i hi
    · exact Or.inr plain
  · obtain ⟨low, notDir, notTable⟩ := inv.fresh p (ram ▸ free)
    exact ⟨low, notDir, fun c hc g hg table => notTable c hc g hg (has c hc g hg p table)⟩

theorem TablesInv.scmap {va : Nat} {paddr flags : Word} (inv : TablesInv m window t)
    (aligned : paddr.toNat % 2 ^ 20 = 0)
    (plain : ∀ cpu < m.numCpu, ∀ p, ¬t.HasTable cpu (va / 2 ^ 22) p) :
    TablesInv m window (m.armScmap va paddr flags t) := by
  obtain ⟨_, type⟩ := scEntry (m := m) aligned
  have l1 : ∀ c i, (m.armScmap va paddr flags t).l1 c i =
      if c < m.numCpu ∧ i = va / 2 ^ 20 then paddr ||| ext (m.scProt flags) else t.l1 c i :=
    fun _ _ => rfl
  refine inv.restrict rfl fun c hc g hg => ?_
  by_cases here : g = va / 2 ^ 22
  · have other := (inv.groups c hc g hg).resolve_left fun ⟨p, table⟩ => plain c hc p (here ▸ table)
    refine Or.inr fun i hi => ?_
    rw [l1]
    split
    · exact Or.inr type
    · exact other i hi
  · exact Or.inl fun i hi => if_neg fun both => by omega

end Mx6xBsp.Arm
