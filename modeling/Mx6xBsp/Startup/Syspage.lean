import Mathlib.Data.Fintype.Defs
import Mx6xBsp.Startup.Ram

/-!
# System page sections

The system page is one block of memory that starts with its header and holds
the sections one after another; `lsp` points at each of them. The two 16-bit
header words `total_size` and `size` are the state's own `totalSize` and
`maxSize` (`size` holds the growth limit while startup runs); every other byte
is in `mem`.
-/

namespace Mx6xBsp.Startup

/-- The `local_section` slots between `SECTION_START` and `SECTION_END`; the last two are
those of `struct cpu_local_syspage`. -/
inductive LocalSection
  | syspage
  | systemPrivate
  | meminfo
  | asinfo
  | hwinfo
  | cpuinfo
  | cacheattr
  | qtime
  | callout
  | callin
  | typedStrings
  | strings
  | intrinfo
  | smp
  | pminfo
  | mdriver
  | armBoxinfo
  | armCpu
deriving DecidableEq

instance : Fintype LocalSection where
  elems := {.syspage, .systemPrivate, .meminfo, .asinfo, .hwinfo, .cpuinfo, .cacheattr, .qtime,
    .callout, .callin, .typedStrings, .strings, .intrinfo, .smp, .pminfo, .mdriver, .armBoxinfo,
    .armCpu}
  complete sect := by cases sect <;> decide

/-- `struct co_info` as it stands in `patch_data`. -/
structure CoInfo where
  owner : Nat
  data : Nat

/-- `lsp` with `fixed_size`, `patch_data` and memory. -/
structure Syspage where
  p : LocalSection → Nat
  size : LocalSection → Nat
  fixedSize : Nat
  totalSize : Nat
  maxSize : Nat
  patchData : List CoInfo
  mem : Mem

/-- The byte string of a section. -/
def Syspage.bytes (lsp : Syspage) (sect : LocalSection) : List UInt8 :=
  (List.range (lsp.size sect)).map fun off => lsp.mem (lsp.p sect + off)

/-- `memmove` -/
def Mem.move (mem : Mem) (dst src len : Nat) : Mem :=
  fun a => if dst ≤ a ∧ a < dst + len then mem (src + (a - dst)) else mem a

/-- Bytes stored one after another. -/
def Mem.write (mem : Mem) (dst : Nat) (data : List UInt8) : Mem :=
  fun a => if dst ≤ a ∧ a < dst + data.length then data.getD (a - dst) 0 else mem a

/-! ## Patch owners -/

/-- `callout_register_data`; `patcher` tells whether the routine at `rp` has a patcher. -/
def calloutRegisterData (patchData : List CoInfo) (rp data : Nat) (patcher : Bool) :
    List CoInfo :=
  if data ≠ 0 ∧ patcher then
    if patchData.any (fun pd => pd.owner = rp) then patchData
    else ⟨rp, data⟩ :: patchData
  else patchData

/-- `callout_reloc_data`; a negative `diff` is passed as its 32-bit pattern. -/
def calloutRelocData (base len diff : Nat) (patchData : List CoInfo) : List CoInfo :=
  patchData.map fun pd =>
    if base ≤ pd.owner ∧ paddr (base + len) > pd.owner then
      { pd with owner := paddr (pd.owner + diff) }
    else pd

/-! ## Sections -/

/-- The section pointers after the loop of `grow_syspage_section`. -/
def slideSections (lsp : Syspage) (sect : LocalSection) (bottom add : Nat) :
    LocalSection → Nat :=
  fun s2 => if s2 ≠ sect ∧ lsp.p s2 ≥ bottom then paddr (lsp.p s2 + add) else lsp.p s2

/-- `grow_syspage_section`, without its poll of the mini-drivers. -/
def growSyspageSection (lsp : Syspage) (sect : LocalSection) (add : Nat) :
    Except Crash (Syspage × Nat) :=
  if add > 0 then
    let add := ROUND add 8
    let newSize := paddr (lsp.totalSize + add)
    if newSize > lsp.maxSize then .error .syspageMemory
    else
      let bottom := paddr (lsp.p sect + lsp.size sect)
      let p := slideSections lsp sect bottom add
      let len := paddrSub lsp.totalSize (paddrSub bottom (p .syspage))
      .ok ({ lsp with
        p := p
        size := Function.update lsp.size sect (paddr (lsp.size sect + add))
        totalSize := newSize % 65536
        patchData := calloutRelocData bottom len add lsp.patchData
        mem := (lsp.mem.move (paddr (bottom + add)) bottom len).zero bottom add }, p sect)
  else .ok (lsp, lsp.p sect)

def setSyspageSection (lsp : Syspage) (sect : LocalSection) (size : Nat) :
    Except Crash (Syspage × Nat) :=
  let size := ROUND size 8
  growSyspageSection { lsp with
    p := Function.update lsp.p sect (paddr (lsp.p .syspage + lsp.fixedSize))
    fixedSize := paddr (lsp.fixedSize + size) } sect size

/-- `init_syspage_memory` up to its first `set_syspage_section`; `hdrSize` is the size of
`struct syspage_entry`. -/
def initSections (base maxSize hdrSize : Nat) (patchData : List CoInfo) (mem : Mem) : Syspage :=
  let spsize := ROUND hdrSize 8
  { p := fun sect => if sect = .syspage then base else paddr (base + spsize)
    size := fun sect => if sect = .syspage then spsize else 0
    fixedSize := spsize
    totalSize := spsize % 65536
    maxSize := maxSize % 65536
    patchData := patchData
    mem := mem.zero base spsize }

def relocSyspageMemory (lsp : Syspage) (base maxSize : Nat) : Syspage :=
  let diff := paddrSub base (lsp.p .syspage)
  { lsp with
    p := fun sect => paddr (lsp.p sect + diff)
    maxSize := maxSize % 65536
    patchData := calloutRelocData (lsp.p .syspage) lsp.totalSize diff lsp.patchData
    mem := lsp.mem.move base (lsp.p .syspage) lsp.totalSize }

/-! ## Calls -/

/-- The three calls on the page, and what the rest of startup does between them: storing a
byte of a section and registering patch data for a slot of one. -/
inductive SyspageCall
  | set (sect : LocalSection) (size : Nat)
  | grow (sect : LocalSection) (add : Nat)
  | reloc (base maxSize : Nat)
  | store (sect : LocalSection) (off : Nat) (val : UInt8)
  | register (sect : LocalSection) (off data : Nat) (patcher : Bool)

def SyspageCall.exec (lsp : Syspage) : SyspageCall → Except Crash Syspage
  | .set sect size => return (← setSyspageSection lsp sect size).1
  | .grow sect add => return (← growSyspageSection lsp sect add).1
  | .reloc base maxSize => return relocSyspageMemory lsp base maxSize
  | .store sect off val => return { lsp with mem := Function.update lsp.mem (lsp.p sect + off) val }
  | .register sect off data patcher => return { lsp with
      patchData := calloutRegisterData lsp.patchData (lsp.p sect + off) data patcher }

/-- The rest of `init_syspage_memory` with `cpu_init_syspage_memory`, up to `hwi_default`; the
arguments are the sizes of the structures. -/
def initCalls (calloutEntry callinEntry hwiPrefix armCpuEntry : Nat) : List SyspageCall :=
  [.set .callout calloutEntry, .set .callin callinEntry, .grow .typedStrings 4, .grow .strings 1,
    .grow .hwinfo hwiPrefix, .set .armCpu armCpuEntry]

end Mx6xBsp.Startup
