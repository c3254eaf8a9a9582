import Mathlib.Data.List.Nodup
import Mathlib.Tactic.NormNum
import Mx6xBsp.Arm.LpaeMap
import Mx6xBsp.Lib.Masks

/-!
# The L2 and L3 tables

The translation that the tables of a processor give, the invariant of the tables, and what
a store of a descriptor, a new L3 table and a block change.
-/

namespace Mx6xBsp.Arm.Lpae

open Startup Masks

variable {m : Mmu} {d p a : Desc}

/-! ## Descriptors -/

/-- The type of a descriptor: none, a block, or a table or page -/
def kind (d : Desc) : Nat := d.toNat % 4

theorem toNat_and_addr :
    (d &&& ARM_LPAE_DESC_ADDR_MASK).toNat = d.toNat / 4096 % 2 ^ 28 * 4096 := by
  have mask : ARM_LPAE_DESC_ADDR_MASK.toNat = (2 ^ 28 - 1) <<< 12 := by decide
  rw [BitVec.toNat_and, mask, show (4096 : Nat) = 2 ^ 12 from rfl, ← Nat.shiftRight_eq_div_pow,
    ← Nat.shiftLeft_eq]
  refine Nat.eq_of_testBit_eq fun i => ?_
  simp only [Nat.testBit_and, Nat.testBit_shiftLeft, Nat.testBit_mod_two_pow,
    Nat.testBit_shiftRight, Nat.testBit_two_pow_sub_one]
  by_cases low : 12 ≤ i
  · rw [Nat.add_sub_cancel' low]
    simp only [ge_iff_le, low, decide_true, Bool.true_and, Bool.and_comm]
  · simp only [ge_iff_le, low, decide_false, Bool.false_and, Bool.and_false]

theorem pageOf_eq : pageOf d = d.toNat / 4096 % 2 ^ 28 := by
  unfold pageOf PAGESIZE
  rw [toNat_and_addr]
  exact Nat.mul_div_cancel _ (by decide)

theorem pageOf_addrOf {page : Nat} (low : page < 2 ^ 20) : pageOf (addrOf page) = page := by
  unfold addrOf PAGESIZE
  rw [pageOf_eq, BitVec.toNat_ofNat]
  omega

theorem ptrOf_eq (low : pageOf d < 2 ^ 20) : ptrOf d = pageOf d := Nat.mod_eq_of_lt low

theorem kind_eq_zero : d &&& ARM_LPAE_DESC_VT_MASK = 0 ↔ kind d = 0 := by
  rw [← BitVec.toNat_inj, toNat_and_low (k := 2) rfl]
  exact Iff.rfl

theorem kind_eq_one : d &&& ARM_LPAE_DESC_VT_MASK = ARM_LPAE_DESC_VALID ↔ kind d = 1 := by
  rw [← BitVec.toNat_inj, toNat_and_low (k := 2) rfl]
  exact Iff.rfl

theorem valid_eq_zero : d &&& ARM_LPAE_DESC_VALID = 0 ↔ kind d % 2 = 0 := by
  rw [← BitVec.toNat_inj, toNat_and_low (k := 1) rfl]
  unfold kind
  show d.toNat % 2 = 0 ↔ _
  omega

theorem Clear.addr (clear : Clear a) : a &&& ARM_LPAE_DESC_ADDR_MASK = 0 := by
  have parts : a &&& ARM_LPAE_DESC_ADDR_MASK =
      a &&& (ARM_LPAE_DESC_ADDR_MASK ||| ARM_LPAE_DESC_VT_MASK) &&& ARM_LPAE_DESC_ADDR_MASK := by
    rw [BitVec.and_assoc]
    rfl
  rw [parts, clear]
  exact BitVec.zero_and

theorem Clear.type (clear : Clear a) : a &&& ARM_LPAE_DESC_VT_MASK = 0 := by
  have parts : a &&& ARM_LPAE_DESC_VT_MASK =
      a &&& (ARM_LPAE_DESC_ADDR_MASK ||| ARM_LPAE_DESC_VT_MASK) &&& ARM_LPAE_DESC_VT_MASK := by
    rw [BitVec.and_assoc]
    rfl
  rw [parts, clear]
  exact BitVec.zero_and

theorem Clear.or {b : Desc} (left : Clear a) (right : Clear b) : Clear (a ||| b) := by
  unfold Clear at *
  rw [BitVec.and_comm, BitVec.and_or_distrib_left, BitVec.and_comm _ a, BitVec.and_comm _ b,
    left, right]
  rfl

theorem pageOf_or (clear : a &&& ARM_LPAE_DESC_ADDR_MASK = 0) : pageOf (d ||| a) = pageOf d := by
  unfold pageOf
  rw [or_and_of_clear clear]

theorem kind_or (clear : a &&& ARM_LPAE_DESC_VT_MASK = 0) : kind (d ||| a) = kind d := by
  have value := congrArg BitVec.toNat (or_and_of_clear (w := d) clear)
  rw [toNat_and_low (k := 2) rfl, toNat_and_low (k := 2) rfl] at value
  exact value

theorem kind_or_type {type : Desc} (small : type.toNat < 4) :
    kind (d ||| type) = kind d ||| type.toNat := by
  unfold kind
  rw [BitVec.toNat_or, show 4 = 2 ^ 2 from rfl, Nat.or_mod_two_pow,
    Nat.mod_eq_of_lt (show type.toNat < 2 ^ 2 from small)]

theorem Clear.ite {b : Desc} {P : Prop} [Decidable P] (left : Clear a) (right : Clear b) :
    Clear (if P then a else b) := by
  by_cases cond : P
  · rwa [if_pos cond]
  · rwa [if_neg cond]

/-- A descriptor to which attributes were added -/
def Attributed (paddr d : Desc) : Prop := ∃ a, Clear a ∧ d = paddr ||| a

theorem Attributed.or {paddr : Desc} (is : Attributed paddr d) (clear : Clear a) :
    Attributed paddr (d ||| a) := by
  obtain ⟨b, clear', rfl⟩ := is
  exact ⟨b ||| a, clear'.or clear, BitVec.or_assoc ..⟩

theorem Attributed.ite {paddr b : Desc} {P : Prop} [Decidable P] (left : Attributed paddr d)
    (right : Attributed paddr b) : Attributed paddr (if P then d else b) := by
  by_cases cond : P
  · rwa [if_pos cond]
  · rwa [if_neg cond]

/-- `lpae_set_prot` adds attributes. -/
theorem Mmu.setProt_eq (m : Mmu) (paddr : Desc) (flags : BitVec 32) :
    ∃ a, Clear a ∧ m.setProt paddr flags = paddr ||| a := by
  have bits := m.bits.clear
  simp only [List.mem_cons, List.not_mem_nil, or_false, forall_eq_or_imp, forall_eq] at bits
  obtain ⟨AF, normal, device, storder, nocache, inner, outer, privRw, privRo, allRw, allRo, nG,
    xn, pxn⟩ := bits
  have start : Attributed paddr (paddr ||| m.bits.AF) := ⟨_, AF, rfl⟩
  have cached := (start.or normal).or inner
  -- the type of the memory, the access, and what may be executed
  have type := ((start.or device).or outer).ite (P := flags &&& ARM_MAP_DEVICE ≠ 0)
    (((start.or storder).or outer).ite (P := flags &&& ARM_MAP_STORDER ≠ 0)
      (((start.or nocache).or inner).ite (P := flags &&& ARM_MAP_NOCACHE ≠ 0) cached))
  have access := ((type.or (allRw.ite (P := flags &&& m.bits.PTE_RW ≠ 0) allRo)).or nG).ite
    (P := flags &&& m.bits.PTE_U ≠ 0)
    (type.or (privRw.ite (P := flags &&& m.bits.PTE_RW ≠ 0) privRo))
  have mapped := (access.or (xn.or pxn)).ite (P := flags &&& ARM_MAP_NOEXEC ≠ 0) access
  exact (cached.or privRw).ite ((cached.or allRo).ite mapped)

theorem pageOf_tableEntry (paddr : Desc) (flags : BitVec 32) :
    pageOf (m.tableEntry paddr flags) = pageOf paddr := by
  obtain ⟨a, clear, same⟩ := m.setProt_eq paddr flags
  unfold Mmu.tableEntry
  rw [pageOf_or (by decide), same, pageOf_or clear.addr]

theorem kind_tableEntry (paddr : Desc) (flags : BitVec 32) :
    kind (m.tableEntry paddr flags) = 3 := by
  have type : (ARM_LPAE_DESC_VALID ||| ARM_LPAE_DESC_TABLE).toNat = 3 := by decide
  have full : ∀ k < 4, k ||| 3 = 3 := by decide
  unfold Mmu.tableEntry
  rw [kind_or_type (by decide), type]
  exact full _ (Nat.mod_lt _ (by decide))

theorem block_entry {paddr : Desc} {flags : BitVec 32} (aligned : paddr.toNat % PAGESIZE = 0) :
    pageOf (m.setProt paddr flags ||| ARM_LPAE_DESC_VALID) = pageOf paddr ∧
      kind (m.setProt paddr flags ||| ARM_LPAE_DESC_VALID) = 1 := by
  obtain ⟨a, clear, same⟩ := m.setProt_eq paddr flags
  have none : kind paddr = 0 := by
    unfold kind
    unfold PAGESIZE at aligned
    omega
  rw [pageOf_or (by decide), kind_or_type (by decide), same, pageOf_or clear.addr,
    kind_or clear.type, none]
  exact ⟨rfl, rfl⟩

/-! ## Translation -/

/-- The entry for a slot of 2 MB in the L2 tables of a processor -/
def Mmu.l2Entry (m : Mmu) (cpu slot : Nat) : Nat :=
  if slot < 1536 then m.l2 * 512 + slot else (m.l2 + 3 + cpu) * 512 + slot % 512

/-- The pages of the L2 tables -/
def Mmu.InL2 (m : Mmu) (page : Nat) : Prop := m.l2 ≤ page ∧ page < m.l2 + 3 + m.numCpu

instance (m : Mmu) (page : Nat) : Decidable (m.InL2 page) := inferInstanceAs (Decidable (_ ∧ _))

/-- The page of the memory a virtual page stands for on a processor -/
def Mmu.translate (m : Mmu) (t : Tables) (cpu page : Nat) : Option Nat :=
  let value := t.mem (m.l2Entry cpu (page / 512))
  if kind value = 1 then some (pageOf value / 512 * 512 + page % 512)
  else if kind value = 3 then
    let pd := t.mem (pageOf value * 512 + page % 512)
    if kind pd = 3 then some (pageOf pd) else none
  else none

theorem l2Entry_page {cpu slot : Nat} (known : cpu < m.numCpu) (low : slot < 2048) :
    m.InL2 (m.l2Entry cpu slot / 512) := by
  unfold Mmu.InL2 Mmu.l2Entry
  split
  · omega
  · omega

theorem l2Entry_inj {cpu cpu' slot slot' : Nat} (low : slot < 2048) (low' : slot' < 2048) :
    m.l2Entry cpu slot = m.l2Entry cpu' slot' ↔ slot = slot' ∧ (slot < 1536 ∨ cpu = cpu') := by
  unfold Mmu.l2Entry
  split
  · split
    · omega
    · omega
  · split
    · omega
    · omega

theorem userL2_eq {vaddr : Nat} (user : ARM_LPAE_USER_SPACE vaddr) (cpu : Nat) :
    m.userL2 vaddr = m.l2Entry cpu (vaddr / 2 ^ 21) := by
  unfold ARM_LPAE_USER_SPACE at user
  unfold Mmu.userL2 Mmu.l2Entry
  rw [if_pos (by omega)]

theorem kernL2_eq {vaddr : Nat} (kern : ¬ARM_LPAE_USER_SPACE vaddr) (cpu : Nat) :
    m.kernL2 cpu vaddr = m.l2Entry cpu (vaddr / 2 ^ 21) := by
  unfold ARM_LPAE_USER_SPACE at kern
  unfold Mmu.kernL2 Mmu.l2Entry
  rw [if_neg (by omega)]

theorem l2_eq (vaddr cpu : Nat) :
    (if ARM_LPAE_USER_SPACE vaddr then m.userL2 vaddr else m.kernL2 cpu vaddr) =
      m.l2Entry cpu (vaddr / 2 ^ 21) := by
  split
  · exact userL2_eq ‹_› cpu
  · exact kernL2_eq ‹_› cpu

/-- The slot has the L3 table in the page `ptbl` on a processor. -/
def Mmu.HasTable (m : Mmu) (t : Tables) (cpu slot ptbl : Nat) : Prop :=
  kind (t.mem (m.l2Entry cpu slot)) = 3 ∧ pageOf (t.mem (m.l2Entry cpu slot)) = ptbl

/-- Nothing is mapped in the slot on a processor. -/
def Mmu.Absent (m : Mmu) (t : Tables) (cpu slot : Nat) : Prop :=
  kind (t.mem (m.l2Entry cpu slot)) = 0

instance (m : Mmu) (t : Tables) (cpu slot ptbl : Nat) : Decidable (m.HasTable t cpu slot ptbl) :=
  inferInstanceAs (Decidable (_ ∧ _))

instance (m : Mmu) (t : Tables) (cpu slot : Nat) : Decidable (m.Absent t cpu slot) :=
  inferInstanceAs (Decidable (_ = _))

/-- What the descriptor of a page stands for -/
def small (d : Desc) : Option Nat := if kind d = 3 then some (pageOf d) else none

variable {t t' : Tables} {cpu page slot ptbl : Nat}

theorem translate_table (table : m.HasTable t cpu (page / 512) ptbl) :
    m.translate t cpu page = small (t.mem (ptbl * 512 + page % 512)) := by
  obtain ⟨type, rfl⟩ := table
  unfold Mmu.translate
  dsimp only
  rw [type]
  rfl

theorem translate_absent (absent : m.Absent t cpu (page / 512)) :
    m.translate t cpu page = none := by
  unfold Mmu.translate
  dsimp only
  rw [show kind _ = 0 from absent]
  rfl

theorem translate_block (block : kind (t.mem (m.l2Entry cpu (page / 512))) = 1) :
    m.translate t cpu page =
      some (pageOf (t.mem (m.l2Entry cpu (page / 512))) / 512 * 512 + page % 512) :=
  if_pos block

/-- Where neither the entry nor, if there is one, the descriptor in the L3 table changes -/
theorem translate_congr
    (same : t'.mem (m.l2Entry cpu (page / 512)) = t.mem (m.l2Entry cpu (page / 512)))
    (pd : ∀ p, m.HasTable t cpu (page / 512) p →
      t'.mem (p * 512 + page % 512) = t.mem (p * 512 + page % 512)) :
    m.translate t' cpu page = m.translate t cpu page := by
  by_cases table : kind (t.mem (m.l2Entry cpu (page / 512))) = 3
  · have has : m.HasTable t cpu (page / 512) _ := ⟨table, rfl⟩
    have has' : m.HasTable t' cpu (page / 512) (pageOf (t.mem (m.l2Entry cpu (page / 512)))) :=
      ⟨same ▸ table, congrArg pageOf same⟩
    rw [translate_table has, translate_table has', pd _ has]
  · unfold Mmu.translate
    dsimp only
    rw [same, if_neg table, if_neg table]

/-! ## The invariant -/

/-- The tables of the slots, but for `window` where a processor may have its L2 table itself, serve
one slot each and lie in pages that `calloc_ram` has given; all stores went to these and to the L2
tables. -/
structure Inv (m : Mmu) (window : Option Nat) (t : Tables) : Prop where
  types : ∀ cpu < m.numCpu, ∀ slot < 2048, kind (t.mem (m.l2Entry cpu slot)) ≠ 2
  tables : ∀ cpu < m.numCpu, ∀ slot < 2048, some slot ≠ window → ∀ p, m.HasTable t cpu slot p →
    p < 2 ^ 20 ∧ p ∈ t.given ∧ p ∉ t.ram ∧ ¬m.InL2 p
  apart : ∀ cpu < m.numCpu, ∀ cpu' < m.numCpu, ∀ slot < 2048, ∀ slot' < 2048,
    some slot ≠ window → some slot' ≠ window → ∀ p, m.HasTable t cpu slot p →
      m.HasTable t cpu' slot' p → slot = slot'
  fresh : ∀ p ∈ t.ram, p < 2 ^ 20 ∧ ¬m.InL2 p
  nodup : t.ram.Nodup
  stores : ∀ i ∈ t.stores, m.InL2 (i / 512) ∨ i / 512 ∈ t.given

variable {window : Option Nat}

theorem HasTable.unique {p : Nat} (table : m.HasTable t cpu slot ptbl)
    (other : m.HasTable t cpu slot p) : ptbl = p :=
  table.2.symm.trans other.2

theorem Inv.table_or_absent (inv : Inv m window t) (known : cpu < m.numCpu) (low : slot < 2048)
    (plain : kind (t.mem (m.l2Entry cpu slot)) ≠ 1) :
    (∃ p, m.HasTable t cpu slot p) ∨ m.Absent t cpu slot := by
  have two := inv.types cpu known slot low
  have bound : kind (t.mem (m.l2Entry cpu slot)) < 4 := Nat.mod_lt _ (by decide)
  by_cases table : kind (t.mem (m.l2Entry cpu slot)) = 3
  · exact .inl ⟨_, table, rfl⟩
  · refine .inr ?_
    unfold Mmu.Absent
    omega

theorem hasTable_congr (same : t'.mem (m.l2Entry cpu slot) = t.mem (m.l2Entry cpu slot)) :
    m.HasTable t' cpu slot ptbl ↔ m.HasTable t cpu slot ptbl := by
  unfold Mmu.HasTable
  rw [same]

theorem Inv.congr (inv : Inv m window t)
    (same : ∀ cpu < m.numCpu, ∀ slot < 2048,
      t'.mem (m.l2Entry cpu slot) = t.mem (m.l2Entry cpu slot))
    (ram : t'.ram = t.ram) (given : t'.given = t.given)
    (stores : ∀ i ∈ t'.stores, i ∈ t.stores ∨ m.InL2 (i / 512) ∨ i / 512 ∈ t.given) :
    Inv m window t' := by
  have has {c s p : Nat} (hc : c < m.numCpu) (hs : s < 2048) :
      m.HasTable t' c s p ↔ m.HasTable t c s p := hasTable_congr (same c hc s hs)
  refine ⟨fun c hc s hs => ?_, fun c hc s hs out p table => ?_,
    fun c hc c' hc' s hs s' hs' out out' p left right => ?_, ram ▸ inv.fresh, ram ▸ inv.nodup,
    fun i stored => ?_⟩
  · rw [same c hc s hs]
    exact inv.types c hc s hs
  · rw [ram, given]
    exact inv.tables c hc s hs out p ((has hc hs).mp table)
  · exact inv.apart c hc c' hc' s hs s' hs' out out' p ((has hc hs).mp left)
      ((has hc' hs').mp right)
  · rw [given]
    rcases stores i stored with old | new
    · exact inv.stores i old
    · exact new

/-! ## Storing a descriptor in an L3 table -/

@[simp] theorem store_self (t : Tables) (i : Nat) (d : Desc) : (t.store i d).mem i = d :=
  Function.update_self _ _ _

theorem store_of_ne {i j : Nat} (other : j ≠ i) (t : Tables) (d : Desc) :
    (t.store i d).mem j = t.mem j :=
  Function.update_of_ne other _ _

section Store

variable {off : Nat} (inv : Inv m window t) (known : cpu < m.numCpu) (low : slot < 2048)
  (out : some slot ≠ window) (table : m.HasTable t cpu slot ptbl) (inside : off < 512)

include inv known low out table inside

theorem store_l2 (d : Desc) {c s : Nat} (hc : c < m.numCpu) (hs : s < 2048) :
    (t.store (ptbl * 512 + off) d).mem (m.l2Entry c s) = t.mem (m.l2Entry c s) := by
  obtain ⟨-, -, -, notL2⟩ := inv.tables cpu known slot low out ptbl table
  refine store_of_ne (fun same => notL2 ?_) t d
  have inL2 := l2Entry_page hc hs
  rw [same, show (ptbl * 512 + off) / 512 = ptbl by omega] at inL2
  exact inL2

theorem store_inv (d : Desc) : Inv m window (t.store (ptbl * 512 + off) d) := by
  have same {c s : Nat} (hc : c < m.numCpu) (hs : s < 2048) :=
    store_l2 inv known low out table inside d hc hs
  refine inv.congr (fun c hc s hs => same hc hs) rfl rfl fun i stored => ?_
  rcases List.mem_cons.mp stored with new | old
  · refine .inr (.inr ?_)
    rw [new, show (ptbl * 512 + off) / 512 = ptbl by omega]
    exact (inv.tables cpu known slot low out ptbl table).2.1
  · exact .inl old

theorem translate_store (d : Desc) {c : Nat} (hc : c < m.numCpu) (hp : page < 2 ^ 20)
    (outPage : some (page / 512) ≠ window) :
    m.translate (t.store (ptbl * 512 + off) d) c page =
      if page = 512 * slot + off ∧ m.HasTable t c slot ptbl then small d
      else m.translate t c page := by
  have group : page / 512 < 2048 := by omega
  have same := store_l2 inv known low out table inside d hc group
  split
  · rename_i both
    obtain ⟨rfl, shared⟩ := both
    have place : (512 * slot + off) / 512 = slot := by omega
    have index : (512 * slot + off) % 512 = off := by omega
    rw [place] at same
    have kept : m.HasTable (t.store (ptbl * 512 + off) d) c ((512 * slot + off) / 512) ptbl := by
      rw [place]
      exact (hasTable_congr same).mpr shared
    rw [translate_table kept, index, store_self]
  · rename_i away
    refine translate_congr same fun p table' => ?_
    have other : p * 512 + page % 512 ≠ ptbl * 512 + off := by
      intro here
      have same' : p = ptbl := by omega
      rw [same'] at table'
      have slots := inv.apart c hc cpu known _ group slot low outPage out ptbl table' table
      exact away ⟨by omega, slots ▸ table'⟩
    exact store_of_ne other t d

end Store

/-! ## Changing the L2 tables -/

/-- The entry `d` has been put into the L2 tables for a slot, on the processors that `cpus`
tells. -/
structure SetL2 (m : Mmu) (cpus : Nat → Prop) (slot : Nat) (d : Desc) (t t' : Tables) : Prop where
  here : ∀ c < m.numCpu, cpus c → t'.mem (m.l2Entry c slot) = d
  away : ∀ c < m.numCpu, ∀ s < 2048, ¬(cpus c ∧ s = slot) →
    t'.mem (m.l2Entry c s) = t.mem (m.l2Entry c s)
  mem : ∀ i, ¬m.InL2 (i / 512) → t'.mem i = t.mem i
  ram : t'.ram = t.ram
  given : t'.given = t.given
  next : t'.nextAddr = t.nextAddr
  stores : ∀ i ∈ t'.stores, i ∈ t.stores ∨ m.InL2 (i / 512)

variable {d : Desc} {vaddr : Nat}

theorem setL2_user (user : ARM_LPAE_USER_SPACE vaddr) (some_ : 0 < m.numCpu) (t : Tables) :
    SetL2 m (fun _ => True) (vaddr / 2 ^ 21) d t (t.store (m.userL2 vaddr) d) := by
  have low : vaddr / 2 ^ 21 < 1536 := by
    unfold ARM_LPAE_USER_SPACE at user
    omega
  have entry (c : Nat) := userL2_eq (m := m) user c
  have inL2 : m.InL2 (m.userL2 vaddr / 512) := by
    rw [entry 0]
    exact l2Entry_page some_ (by omega)
  refine ⟨fun c _ _ => ?_, fun c _ s hs other => ?_, fun i notL2 => ?_, rfl, rfl, rfl,
    fun i stored => ?_⟩
  · rw [entry c]
    exact store_self _ _ _
  · rw [entry c]
    refine store_of_ne (fun same => other ⟨trivial, ?_⟩) t d
    exact ((l2Entry_inj hs (by omega)).mp same).1
  · refine store_of_ne ?_ t d
    rintro rfl
    exact notL2 inL2
  · rcases List.mem_cons.mp stored with new | old
    · exact .inr (new ▸ inL2)
    · exact .inl old

theorem setL2_kern (kern : 1536 ≤ slot) (low : slot < 2048) {cpus : List Nat}
    (known : ∀ c ∈ cpus, c < m.numCpu) (t : Tables) :
    SetL2 m (· ∈ cpus) slot d t (cpus.foldl (fun t c => t.store (m.l2Entry c slot) d) t) := by
  induction cpus generalizing t with
  | nil => exact ⟨fun _ _ => nofun, fun _ _ _ _ _ => rfl, fun _ _ => rfl, rfl, rfl, rfl,
      fun i old => .inl old⟩
  | cons cpu cpus ih =>
    have inL2 := l2Entry_page (known cpu List.mem_cons_self) low
    have rest := ih (fun c hc => known c (List.mem_cons_of_mem _ hc))
      (t.store (m.l2Entry cpu slot) d)
    refine ⟨fun c hc which => ?_, fun c hc s hs other => ?_, fun i notL2 => ?_, rest.ram,
      rest.given, rest.next, fun i stored => ?_⟩
    · by_cases later : c ∈ cpus
      · exact rest.here c hc later
      · have first : c = cpu := (List.mem_cons.mp which).resolve_right later
        rw [List.foldl_cons, rest.away c hc slot low fun both => later both.1, first]
        exact store_self _ _ _
    · rw [List.foldl_cons, rest.away c hc s hs fun both =>
        other ⟨List.mem_cons_of_mem _ both.1, both.2⟩]
      refine store_of_ne (fun same => other ?_) t d
      obtain ⟨place, one⟩ := (l2Entry_inj hs low).mp same
      exact ⟨one.resolve_left (by omega) ▸ List.mem_cons_self, place⟩
    · rw [List.foldl_cons, rest.mem i notL2]
      refine store_of_ne ?_ t d
      rintro rfl
      exact notL2 inL2
    · rcases rest.stores i stored with before | new
      · rcases List.mem_cons.mp before with first | old
        · exact .inr (first ▸ inL2)
        · exact .inl old
      · exact .inr new

/-- What `calloc_ram` leaves -/
theorem callocRam_eq {t₁ : Tables} (alloc : t.callocRam = some (ptbl, t₁)) :
    ∃ rest, t.ram = ptbl :: rest ∧ t₁ = { t with
      ram := rest
      given := ptbl :: t.given
      mem := fun i => if i / 512 = ptbl then 0 else t.mem i } := by
  unfold Tables.callocRam at alloc
  split at alloc
  · cases alloc
  · cases alloc
    exact ⟨_, ‹_›, rfl⟩

theorem Inv.attach {cpus : Nat → Prop} {flags : BitVec 32} {t₁ : Tables} (inv : Inv m window t)
    (alloc : t.callocRam = some (ptbl, t₁))
    (set : SetL2 m cpus slot (m.tableEntry (addrOf ptbl) flags) t₁ t') (low : slot < 2048)
    (absent : ∀ c < m.numCpu, cpus c → m.Absent t c slot) :
    Inv m window t' ∧
      (∀ c < m.numCpu, cpus c → m.HasTable t' c slot ptbl) ∧
      (∀ c < m.numCpu, ∀ s < 2048, ¬(cpus c ∧ s = slot) →
        t'.mem (m.l2Entry c s) = t.mem (m.l2Entry c s)) ∧
      (∀ c < m.numCpu, ∀ page < 2 ^ 20, some (page / 512) ≠ window →
        m.translate t' c page = m.translate t c page) ∧
      t'.nextAddr = t.nextAddr := by
  obtain ⟨rest, ram, rfl⟩ := callocRam_eq alloc
  have nodup := inv.nodup
  rw [ram, List.nodup_cons] at nodup
  have free : ptbl ∈ t.ram := ram ▸ List.mem_cons_self
  obtain ⟨small', notL2⟩ := inv.fresh ptbl free
  have ram' : t'.ram = rest := set.ram
  have given' : t'.given = ptbl :: t.given := set.given
  have cleared : ∀ i, i / 512 ≠ ptbl → (if i / 512 = ptbl then 0 else t.mem i) = t.mem i :=
    fun i other => if_neg other
  have has : ∀ c < m.numCpu, cpus c → m.HasTable t' c slot ptbl := by
    intro c hc which
    have entry := set.here c hc which
    unfold Mmu.HasTable
    rw [entry, kind_tableEntry, pageOf_tableEntry, pageOf_addrOf small']
    exact ⟨rfl, rfl⟩
  have same : ∀ c < m.numCpu, ∀ s < 2048, ¬(cpus c ∧ s = slot) →
      t'.mem (m.l2Entry c s) = t.mem (m.l2Entry c s) := by
    intro c hc s hs other
    refine (set.away c hc s hs other).trans (cleared _ fun here => notL2 ?_)
    exact here ▸ l2Entry_page hc hs
  -- a table is the new one or one of before
  have cases_ : ∀ c < m.numCpu, ∀ s < 2048, ∀ q, m.HasTable t' c s q →
      cpus c ∧ s = slot ∧ q = ptbl ∨ m.HasTable t c s q := by
    intro c hc s hs q table
    by_cases here : cpus c ∧ s = slot
    · obtain ⟨which, rfl⟩ := here
      exact .inl ⟨which, rfl, HasTable.unique table (has c hc which)⟩
    · exact .inr ((hasTable_congr (same c hc s hs here)).mp table)
  have notNew : ∀ c < m.numCpu, ∀ s < 2048, some s ≠ window → ¬m.HasTable t c s ptbl :=
    fun c hc s hs out table => (inv.tables c hc s hs out ptbl table).2.2.1 free
  refine ⟨⟨fun c hc s hs => ?_, fun c hc s hs out q table => ?_,
    fun c hc c' hc' s hs s' hs' out out' q left right => ?_, fun q member => ?_, ?_,
    fun i stored => ?_⟩, has, same, fun c hc page hp out => ?_, set.next⟩
  · by_cases here : cpus c ∧ s = slot
    · obtain ⟨which, rfl⟩ := here
      rw [(has c hc which).1]
      decide
    · rw [same c hc s hs here]
      exact inv.types c hc s hs
  · rw [given', ram']
    rcases cases_ c hc s hs q table with ⟨-, -, rfl⟩ | old
    · exact ⟨small', List.mem_cons_self, nodup.1, notL2⟩
    · obtain ⟨low', given, notFree, notL2'⟩ := inv.tables c hc s hs out q old
      exact ⟨low', List.mem_cons_of_mem _ given,
        fun member => notFree (ram ▸ List.mem_cons_of_mem _ member), notL2'⟩
  · rcases cases_ c hc s hs q left with ⟨-, rfl, rfl⟩ | old
    · rcases cases_ c' hc' s' hs' _ right with ⟨-, rfl, -⟩ | old'
      · rfl
      · exact absurd old' (notNew c' hc' s' hs' out')
    · rcases cases_ c' hc' s' hs' q right with ⟨-, -, rfl⟩ | old'
      · exact absurd old (notNew c hc s hs out)
      · exact inv.apart c hc c' hc' s hs s' hs' out out' q old old'
  · rw [ram'] at member
    exact inv.fresh q (ram ▸ List.mem_cons_of_mem _ member)
  · rw [ram']
    exact nodup.2
  · rw [given']
    rcases set.stores i stored with old | new
    · exact (inv.stores i old).imp_right (List.mem_cons_of_mem _)
    · exact .inl new
  · have group : page / 512 < 2048 := by omega
    by_cases here : cpus c ∧ page / 512 = slot
    · obtain ⟨which, rfl⟩ := here
      have index : (ptbl * 512 + page % 512) / 512 = ptbl := by omega
      have zero : t'.mem (ptbl * 512 + page % 512) = 0 :=
        (set.mem _ (index.symm ▸ notL2)).trans (if_pos index)
      rw [translate_table (has c hc which), zero, translate_absent (absent c hc which)]
      rfl
    · refine translate_congr (same c hc _ group here) fun q table => ?_
      obtain ⟨-, -, notFree, notL2'⟩ := inv.tables c hc _ group out q table
      have index : (q * 512 + page % 512) / 512 = q := by omega
      refine (set.mem _ (index.symm ▸ notL2')).trans (cleared _ fun here => notFree ?_)
      rw [← index, here]
      exact free

theorem Inv.block (inv : Inv m window t) (set : SetL2 m (fun _ => True) slot d t t')
    (low : slot < 2048) (type : kind d = 1) :
    Inv m window t' ∧
      ∀ c < m.numCpu, ∀ page < 2 ^ 20, some (page / 512) ≠ window →
        m.translate t' c page =
          if page / 512 = slot then some (pageOf d / 512 * 512 + page % 512)
          else m.translate t c page := by
  have old : ∀ c < m.numCpu, ∀ s < 2048, ∀ q, m.HasTable t' c s q → m.HasTable t c s q := by
    intro c hc s hs q table
    by_cases here : s = slot
    · obtain rfl := here
      have type' := table.1
      rw [set.here c hc trivial, type] at type'
      cases type'
    · exact (hasTable_congr (set.away c hc s hs fun both => here both.2)).mp table
  refine ⟨⟨fun c hc s hs => ?_, fun c hc s hs out q table => ?_,
    fun c hc c' hc' s hs s' hs' out out' q left right =>
      inv.apart c hc c' hc' s hs s' hs' out out' q (old c hc s hs q left)
        (old c' hc' s' hs' q right),
    set.ram ▸ inv.fresh, set.ram ▸ inv.nodup, fun i stored => ?_⟩, fun c hc page hp out => ?_⟩
  · by_cases here : s = slot
    · obtain rfl := here
      rw [set.here c hc trivial, type]
      decide
    · rw [set.away c hc s hs fun both => here both.2]
      exact inv.types c hc s hs
  · rw [set.given, set.ram]
    exact inv.tables c hc s hs out q (old c hc s hs q table)
  · rw [set.given]
    rcases set.stores i stored with before | new
    · exact inv.stores i before
    · exact .inl new
  · have group : page / 512 < 2048 := by omega
    split
    · rename_i here
      obtain rfl := here
      have entry := set.here c hc trivial
      rw [translate_block (entry.symm ▸ type), entry]
    · rename_i away
      refine translate_congr (set.away c hc _ group fun both => away both.2) fun q table => ?_
      obtain ⟨-, -, -, notL2⟩ := inv.tables c hc _ group out q table
      have index : (q * 512 + page % 512) / 512 = q := by omega
      exact set.mem _ (index.symm ▸ notL2)

theorem blank_inv {mem : Nat → Desc} {next : Nat} {ram given : List Nat}
    (blank : ∀ i, m.InL2 (i / 512) → mem i = 0) (fresh : ∀ p ∈ ram, p < 2 ^ 20 ∧ ¬m.InL2 p)
    (nodup : ram.Nodup) : Inv m none ⟨mem, next, ram, given, []⟩ := by
  have zero : ∀ c < m.numCpu, ∀ s < 2048, mem (m.l2Entry c s) = 0 :=
    fun c hc s hs => blank _ (l2Entry_page hc hs)
  have nothing : ∀ c < m.numCpu, ∀ s < 2048, ∀ q,
      ¬m.HasTable ⟨mem, next, ram, given, []⟩ c s q := by
    intro c hc s hs q table
    have type : kind (mem (m.l2Entry c s)) = 3 := table.1
    rw [zero c hc s hs] at type
    cases type
  refine ⟨fun c hc s hs => ?_, fun c hc s hs _ q table => absurd table (nothing c hc s hs q),
    fun c hc _ _ s hs _ _ _ _ q table => absurd table (nothing c hc s hs q), fresh, nodup, nofun⟩
  show kind (mem (m.l2Entry c s)) ≠ 2
  rw [zero c hc s hs]
  decide

end Mx6xBsp.Arm.Lpae
