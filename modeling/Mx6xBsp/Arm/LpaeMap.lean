import Mathlib.Data.BitVec
import Mx6xBsp.Startup.Basic

/-!
# Page tables of the ARM with LPAE

`arm_map_lpae.c`: an entry of an L2 table stands for 2 MB and is a block or points to an
L3 table of 4 KB. Three pages of L2 entries for the user are shared by all processors, and
each processor has one page for the kernel behind them. A table lies in the memory of the
machine, which is counted in descriptors of 8 bytes, 512 a page; `stores` are those the
calls have written.
-/

namespace Mx6xBsp.Arm.Lpae

open Startup

/-- `lpae_pd_t` and the physical addresses -/
abbrev Desc := BitVec 64

def ARM_LPAE_DESC_VALID : Desc := 1
def ARM_LPAE_DESC_TABLE : Desc := 2
def ARM_LPAE_DESC_VT_MASK : Desc := 3
def ARM_LPAE_DESC_ADDR_MASK : Desc := 0xfffffff000
def ARM_LPAE_BMASK : Desc := 0x1fffff
def PGMASK : Desc := 0xfff

/-- The size of an L3 table, in bytes -/
def ARM_LPAE_L3_SIZE : Nat := 4096

def ARM_MAP_SYSPAGE : BitVec 32 := 0xffffffff
def ARM_MAP_SYSPAGE_RO : BitVec 32 := 0xfffffffe
def ARM_MAP_NOEXEC : BitVec 32 := 0x80000000
def ARM_MAP_DEVICE : BitVec 32 := 0x40000000
def ARM_MAP_STORDER : BitVec 32 := 0x20000000
def ARM_MAP_NOCACHE : BitVec 32 := 0x10000000

/-- A bit of a descriptor that is neither of its address nor of its type -/
def Clear (a : Desc) : Prop := a &&& (ARM_LPAE_DESC_ADDR_MASK ||| ARM_LPAE_DESC_VT_MASK) = 0

instance (a : Desc) : Decidable (Clear a) := inferInstanceAs (Decidable (_ = _))

/-- The attributes of a descriptor and the flags of a mapping, from `<arm/mmu.h>` -/
structure DescBits where
  AF : Desc
  ATTR_NORMAL : Desc
  ATTR_DEVICE : Desc
  ATTR_STORDER : Desc
  ATTR_NOCACHE : Desc
  SH_INNER_SHAREABLE : Desc
  SH_OUTER_SHAREABLE : Desc
  AP_PRIV_RW : Desc
  AP_PRIV_RO : Desc
  AP_ALL_RW : Desc
  AP_ALL_RO : Desc
  NG : Desc
  XN : Desc
  PXN : Desc
  PTE_U : BitVec 32
  PTE_RW : BitVec 32
  clear : ∀ a ∈ [AF, ATTR_NORMAL, ATTR_DEVICE, ATTR_STORDER, ATTR_NOCACHE, SH_INNER_SHAREABLE,
    SH_OUTER_SHAREABLE, AP_PRIV_RW, AP_PRIV_RO, AP_ALL_RW, AP_ALL_RO, NG, XN, PXN], Clear a

/-- The processors and the globals of the startup; `l2` is the page of `L2_paddr`. -/
structure Mmu where
  numCpu : Nat
  virt : Bool
  bits : DescBits
  l2 : Nat

/-- The memory, the address to assign next, the pages that `calloc_ram` will give and those it has
given, and the descriptors that were stored -/
structure Tables where
  mem : Nat → Desc
  nextAddr : Nat
  ram : List Nat
  given : List Nat
  stores : List Nat

/-- The page of the address in a descriptor -/
def pageOf (d : Desc) : Nat := (d &&& ARM_LPAE_DESC_ADDR_MASK).toNat / PAGESIZE

/-- The page of that address as a pointer of 32 bits -/
def ptrOf (d : Desc) : Nat := pageOf d % 2 ^ 20

/-- The address of a page -/
def addrOf (page : Nat) : Desc := BitVec.ofNat 64 (page * PAGESIZE)

def ARM_LPAE_USER_SPACE (vaddr : Nat) : Prop := vaddr < 3 * 2 ^ 30

instance (vaddr : Nat) : Decidable (ARM_LPAE_USER_SPACE vaddr) :=
  inferInstanceAs (Decidable (_ < _))

/-- The entry in the L2 table of the user -/
def Mmu.userL2 (m : Mmu) (vaddr : Nat) : Nat := m.l2 * 512 + vaddr / 2 ^ 21

/-- The entry in the L2 table of a processor for the kernel -/
def Mmu.kernL2 (m : Mmu) (cpu vaddr : Nat) : Nat :=
  (m.l2 + 3 + cpu) * 512 + vaddr / 2 ^ 21 % 512

variable (m : Mmu)

/-- `lpae_set_prot` -/
def Mmu.setProt (paddr : Desc) (flags : BitVec 32) : Desc :=
  let pd := paddr ||| m.bits.AF
  if flags = ARM_MAP_SYSPAGE then
    pd ||| m.bits.ATTR_NORMAL ||| m.bits.SH_INNER_SHAREABLE ||| m.bits.AP_PRIV_RW
  else if flags = ARM_MAP_SYSPAGE_RO then
    pd ||| m.bits.ATTR_NORMAL ||| m.bits.SH_INNER_SHAREABLE ||| m.bits.AP_ALL_RO
  else
    let pd :=
      if flags &&& ARM_MAP_DEVICE ≠ 0 then pd ||| m.bits.ATTR_DEVICE ||| m.bits.SH_OUTER_SHAREABLE
      else if flags &&& ARM_MAP_STORDER ≠ 0 then
        pd ||| m.bits.ATTR_STORDER ||| m.bits.SH_OUTER_SHAREABLE
      else if flags &&& ARM_MAP_NOCACHE ≠ 0 then
        pd ||| m.bits.ATTR_NOCACHE ||| m.bits.SH_INNER_SHAREABLE
      else pd ||| m.bits.ATTR_NORMAL ||| m.bits.SH_INNER_SHAREABLE
    let pd :=
      if flags &&& m.bits.PTE_U ≠ 0 then
        pd ||| (if flags &&& m.bits.PTE_RW ≠ 0 then m.bits.AP_ALL_RW else m.bits.AP_ALL_RO) |||
          m.bits.NG
      else pd ||| (if flags &&& m.bits.PTE_RW ≠ 0 then m.bits.AP_PRIV_RW else m.bits.AP_PRIV_RO)
    if flags &&& ARM_MAP_NOEXEC ≠ 0 then pd ||| (m.bits.XN ||| m.bits.PXN) else pd

/-- A valid entry of an L2 table for an L3 table, or of an L3 table for a page -/
def Mmu.tableEntry (paddr : Desc) (flags : BitVec 32) : Desc :=
  m.setProt paddr flags ||| (ARM_LPAE_DESC_VALID ||| ARM_LPAE_DESC_TABLE)

/-- A store of a descriptor -/
def Tables.store (t : Tables) (i : Nat) (d : Desc) : Tables :=
  { t with mem := Function.update t.mem i d, stores := i :: t.stores }

/-- `lpae_map_l3_cpu`; `ptbl` is the number of the page. -/
def Mmu.mapL3Cpu (cpu ptbl vaddr : Nat) (t : Tables) : Tables :=
  t.store (if ARM_LPAE_USER_SPACE vaddr then m.userL2 vaddr else m.kernL2 cpu vaddr)
    (m.tableEntry (addrOf ptbl) m.bits.PTE_RW)

/-- `lpae_map_ptbl` -/
def Mmu.mapPtbl (ptbl vaddr : Nat) (t : Tables) : Tables :=
  (List.range m.numCpu).foldl (fun t cpu => m.mapL3Cpu cpu ptbl vaddr t) t

/-- `arm_lpae_bmap` -/
def Mmu.bmap (vaddr : Nat) (paddr : Desc) (flags : BitVec 32) (t : Tables) : Tables :=
  let value := m.setProt paddr flags ||| ARM_LPAE_DESC_VALID
  if ARM_LPAE_USER_SPACE vaddr then t.store (m.userL2 vaddr) value
  else (List.range m.numCpu).foldl (fun t cpu => t.store (m.kernL2 cpu vaddr) value) t

/-- `calloc_ram` of a page -/
def Tables.callocRam (t : Tables) : Option (Nat × Tables) :=
  match t.ram with
  | [] => none
  | page :: rest =>
    some (page, { t with
      ram := rest
      given := page :: t.given
      mem := fun i => if i / 512 = page then 0 else t.mem i })

/-- The `for` loops of `arm_lpae_map`: `n` pages are left to map from `pa` on, `l3pd` is the next
descriptor, and `i` the number that is compared with the size of a table. What is left of the pages
comes back. -/
def Mmu.fillPds (flags : BitVec 32) : Nat → Nat → Nat → Desc → Tables → Nat × Desc × Tables
  | 0, _, _, pa, t => (0, pa, t)
  | n + 1, i, l3pd, pa, t =>
    if i < ARM_LPAE_L3_SIZE then
      fillPds flags n (i + 1) (l3pd + 1) (pa + BitVec.ofNat 64 PAGESIZE)
        (t.store l3pd (m.tableEntry pa flags))
    else (n + 1, pa, t)

/-- The `while` loops of `arm_lpae_map`, with the entry `l2pd` of an address in the L2 table and
what puts a new L3 table there. Each round maps a page at least. -/
def Mmu.mapPages (l2pd : Nat → Nat) (attach : Nat → Nat → Tables → Tables) (flags : BitVec 32) :
    Nat → Nat → Nat → Desc → Tables → Option Tables
  | _, 0, _, _, t => some t
  | 0, _ + 1, _, _, _ => none
  | fuel + 1, n + 1, va, pa, t =>
    let table :=
      if t.mem (l2pd va) &&& ARM_LPAE_DESC_VT_MASK = 0 then
        t.callocRam.map fun (new, t) => attach new va t
      else some t
    match table with
    | none => none
    | some t =>
      let l3pd := ptrOf (t.mem (l2pd va)) * 512 + va / PAGESIZE % 512
      let (left, pa, t) := m.fillPds flags (n + 1) (va / PAGESIZE % ARM_LPAE_L3_SIZE) l3pd pa t
      mapPages l2pd attach flags fuel left
        ((va + (n + 1 - left) * PAGESIZE) % 2 ^ 32) pa t

/-- `ROUNDPG` of a size and the offset of the address, as a number of 32 bits -/
def mapSize (paddr : Desc) (size : Nat) : Nat :=
  (size + (paddr &&& PGMASK).toNat + (PAGESIZE - 1)) / PAGESIZE * PAGESIZE % 2 ^ 32

/-- The address `arm_lpae_map` maps at -/
def Tables.mapAddr (t : Tables) (vaddr : Nat) : Nat :=
  if vaddr = 2 ^ 32 - 1 then t.nextAddr else vaddr

/-- `arm_lpae_map` -/
def Mmu.map (vaddr : Nat) (paddr : Desc) (size : Nat) (flags : BitVec 32) (t : Tables) :
    Option (Tables × Nat) :=
  if !m.virt then some (t, paddr.toNat % 2 ^ 32)
  else
    let off := paddr &&& PGMASK
    let size := mapSize paddr size
    let va := t.mapAddr vaddr
    let t :=
      if vaddr = 2 ^ 32 - 1 then { t with nextAddr := (t.nextAddr + size) % 2 ^ 32 } else t
    let pa := paddr &&& ~~~PGMASK
    let pages := size / PAGESIZE
    let mapped :=
      if ARM_LPAE_USER_SPACE va then
        m.mapPages m.userL2
          (fun new va t => t.store (m.userL2 va) (m.tableEntry (addrOf new) m.bits.PTE_RW))
          flags pages pages va pa t
      else
        (List.range m.numCpu).foldlM
          (fun t cpu => m.mapPages (m.kernL2 cpu) m.mapPtbl flags pages pages va pa t) t
    mapped.map fun t => (t, (va + off.toNat) % 2 ^ 32)

/-- `arm_lpae_map_cpu` -/
def Mmu.mapCpu (cpu vaddr : Nat) (paddr : Desc) (flags : BitVec 32) (t : Tables) :
    Option Tables :=
  let l2 := m.kernL2 cpu vaddr
  if t.mem l2 &&& ARM_LPAE_DESC_VT_MASK = ARM_LPAE_DESC_VALID then some t
  else
    let table :=
      if t.mem l2 &&& ARM_LPAE_DESC_VALID = 0 then
        t.callocRam.map fun (new, t) => m.mapL3Cpu cpu new vaddr t
      else some t
    table.map fun t =>
      t.store (ptrOf (t.mem l2) * 512 + vaddr / PAGESIZE % 512) (m.tableEntry paddr flags)

/-- `arm_lpae_elf_vaddr_to_paddr` on the tables of a processor; the source takes the first. -/
def Mmu.vaddrToPaddr (t : Tables) (cpu vaddr : Nat) : Desc :=
  let value := t.mem (if ARM_LPAE_USER_SPACE vaddr then m.userL2 vaddr else m.kernL2 cpu vaddr)
  if value &&& ARM_LPAE_DESC_VT_MASK = ARM_LPAE_DESC_VALID then
    (value &&& ARM_LPAE_DESC_ADDR_MASK &&& ~~~ARM_LPAE_BMASK) +
      (BitVec.ofNat 64 vaddr &&& ARM_LPAE_BMASK)
  else
    let pd := ptrOf value * 512 + vaddr / PAGESIZE % 512
    (t.mem pd &&& ARM_LPAE_DESC_ADDR_MASK) + (BitVec.ofNat 64 vaddr &&& PGMASK)

end Mx6xBsp.Arm.Lpae
