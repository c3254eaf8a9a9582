import Mathlib.Data.BitVec
import Mx6xBsp.Startup.Basic

/-!
# Page tables of the ARM

`arm_map.c` without LPAE: an entry of an L1 table stands for 1 MB and is a
section or points to an L2 table of 1 KB; four L2 tables in a row make up a page
and serve four entries in a row. An address is a number and a table entry a
word; the page tables are known by the number of their page.
-/

namespace Mx6xBsp.Arm

open Startup

abbrev Word := BitVec 32

/-- The size of an L2 table in bytes, and the number of entries in a page. -/
def ARM_L2_SIZE : Nat := 1024

/-- The type of an entry of an L1 table: none, an L2 table or a section. -/
def ARM_PTP_VALID : Word := 3
def ARM_PTP_SC : Word := 2

def ARM_SCMASK : Word := 0xfffff
def PGMASK : Word := 0xfff

def ARM_MAP_SYSPAGE : Word := 0xffffffff
def ARM_MAP_NOEXEC : Word := 0x80000000

/-- The bits of the entry of a small page and of the flags of a mapping, from `<arm/mmu.h>`; they
lie below the address. Neither access bits nor `nG` are the bit of a small page. -/
structure PteBits where
  RO : BitVec 12
  RW : BitVec 12
  U : BitVec 12
  CB : BitVec 12
  V5_SP_TEX_MASK : BitVec 12
  V6_SP_TEX_MASK : BitVec 12
  V6_SP_XN : BitVec 12
  V6_AP0 : BitVec 12
  V6_S : BitVec 12
  V6_nG : BitVec 12
  access : (V6_AP0 ||| V6_nG).getLsbD 1 = false

/-- `struct armv_pte`: the attributes of small pages, of entries that point to an L2 table and of
sections, with the type of entry they are for. -/
structure ArmvPte where
  upteRo : BitVec 12
  upteRw : BitVec 12
  kpteRo : BitVec 12
  kpteRw : BitVec 12
  maskNc : BitVec 12
  l1Pgtable : BitVec 10
  kscnRo : BitVec 20
  kscnRw : BitVec 20
  kscnCb : BitVec 20
  smallPage : ∀ a ∈ [upteRo, upteRw, kpteRo, kpteRw], a.getLsbD 1 = true
  cacheBits : maskNc.getLsbD 1 = false
  pageTable : l1Pgtable.toNat % 4 = 1
  section_ : ∀ a ∈ [kscnRo, kscnRw, kscnRo ||| kscnCb, kscnRw ||| kscnCb], a.toNat % 4 = 2

/-- The processor and the globals of the startup. `l2Table cpu` is the page of `CPU_L2_TABLE`. -/
structure Mmu where
  numCpu : Nat
  virt : Bool
  v6 : Bool
  bits : PteBits
  pte : ArmvPte
  pteAttr : BitVec 12
  l2Table : Nat → Nat

/-- The L1 tables of the processors and the pages of the memory, an array of words each; `ram` are
the pages that `calloc_ram` will give. -/
structure Tables where
  l1 : Nat → Nat → Word
  mem : Nat → Nat → Word
  nextAddr : Nat
  ram : List Nat

/-- The page a word points to. -/
def pageOf (w : Word) : Nat := (w &&& ~~~PGMASK).toNat / PAGESIZE

/-- The address of a page. -/
def addrOf (page : Nat) : Word := BitVec.ofNat 32 (page * PAGESIZE)

variable (m : Mmu)

/-- Attributes in a word -/
def ext {n : Nat} (attr : BitVec n) : Word := attr.setWidth 32

def Mmu.setProt (paddr flags : Word) : Word :=
  if flags = ARM_MAP_SYSPAGE then
    if m.v6 then (paddr ||| ext m.pte.upteRw) &&& ~~~ext (m.bits.V6_AP0 ||| m.bits.V6_nG)
    else paddr ||| ext m.pte.upteRo
  else
    let paddr :=
      if flags &&& ext m.bits.U ≠ 0 then
        paddr ||| ext (if flags &&& ext m.bits.RW ≠ 0 then m.pte.upteRw else m.pte.upteRo)
      else paddr ||| ext (if flags &&& ext m.bits.RW ≠ 0 then m.pte.kpteRw else m.pte.kpteRo)
    let paddr :=
      if flags &&& ext m.bits.CB ≠ ext m.bits.CB then paddr &&& ~~~ext m.pte.maskNc else paddr
    if m.v6 then
      let paddr := paddr ||| (flags &&& ext (m.bits.V6_S ||| m.bits.V6_SP_TEX_MASK ||| m.bits.CB))
      if flags &&& ARM_MAP_NOEXEC ≠ 0 then paddr ||| ext m.bits.V6_SP_XN else paddr
    else paddr ||| (flags &&& ext (m.bits.V5_SP_TEX_MASK ||| m.bits.CB))

/-- The entry for the L2 table at `ptbl` in the "page directory" -/
def Mmu.dirEntry (ptbl : Word) : Word :=
  ((ptbl ||| ext m.pte.kpteRw) &&& ~~~ext m.pte.maskNc) ||| ext m.pteAttr

/-- A store to a page table -/
def Tables.store (t : Tables) (page slot : Nat) (entry : Word) : Tables :=
  { t with mem := Function.update t.mem page (Function.update (t.mem page) slot entry) }

/-- `map_ptbl_cpu`; `ptbl` is the number of the page. -/
def Mmu.mapPtblCpu (cpu ptbl vaddr : Nat) (t : Tables) : Tables :=
  { t.store (m.l2Table cpu) (vaddr / 2 ^ 22) (m.dirEntry (addrOf ptbl)) with
    l1 := Function.update t.l1 cpu fun i =>
      if i / 4 = vaddr / 2 ^ 22 then
        (addrOf ptbl + BitVec.ofNat 32 (i % 4 * ARM_L2_SIZE)) ||| ext m.pte.l1Pgtable
      else t.l1 cpu i }

def Mmu.mapPtbl (ptbl vaddr : Nat) (t : Tables) : Tables :=
  (List.range m.numCpu).foldl (fun t cpu => m.mapPtblCpu cpu ptbl vaddr t) t

def Mmu.armPdmap (vaddr : Nat) (t : Tables) : Tables :=
  (List.range m.numCpu).foldl (fun t cpu => m.mapPtblCpu cpu (m.l2Table cpu) vaddr t) t

/-- The attributes `arm_scmap` gives to a section. -/
def Mmu.scProt (flags : Word) : BitVec 20 :=
  let prot := if flags &&& ext m.bits.RW ≠ 0 then m.pte.kscnRw else m.pte.kscnRo
  if flags &&& ext m.bits.CB ≠ 0 then prot ||| m.pte.kscnCb else prot

/-- A store to the entry for `vaddr` in the L1 table of each processor -/
def Mmu.setL1 (vaddr : Nat) (entry : Word) (t : Tables) : Tables :=
  { t with l1 := fun cpu i =>
      if cpu < m.numCpu ∧ i = vaddr / 2 ^ 20 then entry else t.l1 cpu i }

def Mmu.armScmap (vaddr : Nat) (paddr flags : Word) : Tables → Tables :=
  m.setL1 vaddr (paddr ||| ext (m.scProt flags))

def Mmu.armScunmap (vaddr : Nat) : Tables → Tables := m.setL1 vaddr 0

/-- `calloc_ram` of a page -/
def Tables.callocRam (t : Tables) : Option (Nat × Tables) :=
  match t.ram with
  | [] => none
  | page :: rest =>
    some (page, { t with ram := rest, mem := Function.update t.mem page fun _ => 0 })

/-- The `for` loop of `arm_32_map`: `n` pages are left to map from `pa` on, and slot `i` is next.
What is left of them comes back. -/
def fillPtes (pte : Nat) : Nat → Nat → Word → Tables → Nat × Word × Tables
  | 0, _, pa, t => (0, pa, t)
  | n + 1, i, pa, t =>
    if i < ARM_L2_SIZE then
      fillPtes pte n (i + 1) (pa + BitVec.ofNat 32 PAGESIZE) (t.store pte i pa)
    else (n + 1, pa, t)

/-- The `while` loop of `arm_32_map` for one processor. Each round maps a page at least. -/
def Mmu.mapPages (cpu : Nat) : Nat → Nat → Nat → Word → Tables → Option Tables
  | _, 0, _, _, t => some t
  | 0, _ + 1, _, _, _ => none
  | fuel + 1, n + 1, va, pa, t =>
    let ptp := t.l1 cpu (va / 2 ^ 20 / 4 * 4)
    let table :=
      if ptp &&& ARM_PTP_VALID = 0 then
        t.callocRam.map fun (page, t) => (page, m.mapPtbl page va t)
      else some (pageOf ptp, t)
    match table with
    | none => none
    | some (pte, t) =>
      let (left, pa, t) := fillPtes pte (n + 1) (va / PAGESIZE % ARM_L2_SIZE) pa t
      mapPages cpu fuel left (va + (n + 1 - left) * PAGESIZE) pa t

/-- `ROUNDPG` of a size -/
def ROUNDPG (size : Nat) : Nat := (size + (PAGESIZE - 1)) % 2 ^ 32 / PAGESIZE * PAGESIZE

/-- The size of the mapping `arm_32_map` makes. -/
def mapSize (paddr : Word) (size : Nat) : Nat :=
  ROUNDPG ((size + (paddr &&& PGMASK).toNat) % 2 ^ 32)

/-- The address `arm_32_map` maps at. -/
def Tables.mapAddr (t : Tables) (vaddr : Nat) : Nat :=
  if vaddr = 2 ^ 32 - 1 then t.nextAddr else vaddr

def Mmu.arm32Map (vaddr : Nat) (paddr : Word) (size : Nat) (flags : Word) (t : Tables) :
    Option (Tables × Nat) :=
  if !m.virt then some (t, paddr.toNat)
  else
    let off := paddr &&& PGMASK
    let size := mapSize paddr size
    let va := t.mapAddr vaddr
    let t := if vaddr = 2 ^ 32 - 1 then { t with nextAddr := t.nextAddr + size } else t
    let pa := m.setProt (paddr &&& ~~~PGMASK) flags
    let pages := size / PAGESIZE
    ((List.range m.numCpu).foldlM (fun t cpu => m.mapPages cpu pages pages va pa t) t).map
      fun t => (t, va + off.toNat)

def Mmu.arm32MapCpu (cpu vaddr : Nat) (paddr flags : Word) (t : Tables) : Option Tables :=
  let ptp := t.l1 cpu (vaddr / 2 ^ 20 / 4 * 4)
  let table :=
    if ptp &&& ARM_PTP_VALID = 0 then
      t.callocRam.map fun (page, t) => (page, m.mapPtblCpu cpu page vaddr t)
    else some (pageOf ptp, t)
  table.map fun (pte, t) => t.store pte (vaddr / PAGESIZE % ARM_L2_SIZE) (m.setProt paddr flags)

/-- `arm_32_elf_vaddr_to_paddr` on the tables of a processor; the source takes the first. -/
def Tables.vaddrToPaddr (t : Tables) (cpu vaddr : Nat) : Word :=
  let ptp := t.l1 cpu (vaddr / 2 ^ 20)
  if ptp &&& ARM_PTP_VALID = ARM_PTP_SC &&& ARM_PTP_VALID then
    (ptp &&& ~~~ARM_SCMASK) + (BitVec.ofNat 32 vaddr &&& ARM_SCMASK)
  else
    let pte := t.mem (pageOf ptp) (vaddr / PAGESIZE % ARM_L2_SIZE)
    (pte &&& ~~~PGMASK) + (BitVec.ofNat 32 vaddr &&& PGMASK)

end Mx6xBsp.Arm
