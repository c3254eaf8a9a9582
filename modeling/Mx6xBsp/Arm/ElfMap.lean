import Mx6xBsp.Arm.ArmMapRuns

/-!
# Mapping the segments of an executable

`elf_map.c` without LPAE. Segments that lie one behind the other in the memory
are mapped by sections; the first that does not has them all mapped again by
pages, and pages it stays from then on.
-/

namespace Mx6xBsp.Arm

open Startup Runs

/-- `We assume we only have 2 load segments` -/
def MAX_PHDR : Nat := 2

def PF_W : Word := 2

/-- A segment as it is recorded: an element of `va`, `pa`, `sz` and `fl`. -/
structure Segment where
  va : Nat
  pa : Word
  size : Nat
  flags : Word

/-- The statics of `elf_map` with the page tables: `phdr` are the segments recorded, and `none`
stands for minus one. -/
structure ElfMapper where
  phdr : Option (List Segment)
  tables : Tables

variable (m : Mmu)

/-- The flags of a segment for `arm_map`. -/
def Mmu.elfFlags (flags : Word) : Word :=
  if flags &&& PF_W ≠ 0 then ext (m.bits.RW ||| m.bits.CB) else ext (m.bits.RO ||| m.bits.CB)

/-- The loop that maps `n` sections. -/
def Mmu.mapSections : Nat → Nat → Word → Tables → Tables
  | 0, _, _, t => t
  | n + 1, vaddr, paddr, t =>
    mapSections n (vaddr + 2 ^ 20) (paddr + BitVec.ofNat 32 (2 ^ 20))
      (m.armScmap vaddr paddr (ext (m.bits.RW ||| m.bits.CB)) t)

/-- The sections of a segment -/
def scCount (vaddr size : Nat) : Nat := (size + vaddr % 2 ^ 20 + (2 ^ 20 - 1)) % 2 ^ 32 / 2 ^ 20

/-- The segment cannot be mapped by sections, or does not follow the one before it. -/
def ElfMapper.remaps (s : ElfMapper) (seg : Segment) : Bool :=
  seg.va % 2 ^ 20 != seg.pa.toNat % 2 ^ 20 ||
    match s.phdr with
    | none => true
    | some segs =>
      match segs.getLast? with
      | none => false
      | some last => last.pa + BitVec.ofNat 32 last.size != seg.pa

/-- `elf_map`; `none` stands for a crash and for a page table that cannot be allocated. -/
def Mmu.elfMap (vaddr : Nat) (paddr : Word) (size : Nat) (flags : Word) (s : ElfMapper) :
    Option ElfMapper :=
  let seg : Segment := ⟨vaddr, paddr, size, m.elfFlags flags⟩
  let segs := s.phdr.getD []
  if s.remaps seg then
    let t := segs.foldl (fun t seg => m.armScunmap seg.va t) s.tables
    ((segs ++ [seg]).foldlM (fun t seg =>
      (m.arm32Map seg.va seg.pa seg.size seg.flags t).map Prod.fst) t).map fun t => ⟨none, t⟩
  else if segs.length = MAX_PHDR then none
  else
    some ⟨some (segs ++ [seg]), m.mapSections (scCount vaddr size) (vaddr / 2 ^ 20 * 2 ^ 20)
      (paddr &&& ~~~ARM_SCMASK) s.tables⟩

end Mx6xBsp.Arm
