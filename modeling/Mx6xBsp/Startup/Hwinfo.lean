import Mx6xBsp.Lib.Words
import Mx6xBsp.Startup.Strings

/-!
# The hwinfo section

The functions of `hwi_alloc.c`. The section is a sequence of
tags, each with a prefix that holds its size in 4-byte units, ended by a zero
size; an item is a tag whose header also counts, in `itemsize`, the tags that
belong to it. The layout of the prefix and of the item header, the pad tag and
`hwi_off2tag` come from `sys/hwinfo.h`, which is not part of this tree:
`HwHeader` stands for them.
-/

namespace Mx6xBsp.Startup

open Words

/-- What `sys/hwinfo.h` fixes: offsets of the 16-bit fields, sizes of the structures, the pad
tag, `HWI_NULL_OFF` and `hwi_off2tag` as a function of `__hwi_base()` and the offset. -/
structure HwHeader where
  prefixSize : Nat
  prefixName : Nat
  itemItemsize : Nat
  itemItemname : Nat
  itemOwner : Nat
  itemKids : Nat
  sizeofPrefix : Nat
  sizeofItem : Nat
  padName : List UInt8
  sizeofPad : Nat
  padAlign : Nat
  nullOff : Nat
  off2tag : Nat → Nat → Nat

/-- The system page with the statics `offset` and `last_item` of `hwi_alloc.c`. -/
structure HwInfo where
  lsp : Syspage
  offset : Nat
  lastItem : Nat

/-- A store of a 16-bit field. -/
def Syspage.put16 (lsp : Syspage) (addr val : Nat) : Syspage :=
  { lsp with mem := Words.put16 lsp.mem addr val }

/-! ## Tags -/

/-- `align_tag`, with `hwi_alloc_tag` for the pad tag. -/
def alignTag (hw : HwInfo) (align : Nat) (allocPad : HwInfo → Except Crash (HwInfo × Nat)) :
    Except Crash HwInfo :=
  if paddrSub (ROUND hw.offset align) hw.offset ≠ 0 then do
    let (hw, _) ← allocPad hw
    return hw
  else .ok hw

/-- The part of `hwi_alloc_tag` after the alignment; the result is the tag's address. -/
def placeTag (H : HwHeader) (hw : HwInfo) (name : List UInt8) (size : Nat) :
    Except Crash (HwInfo × Nat) := do
  let (lsp, nameOff) ← addString hw.lsp name
  let (lsp, p) ← growSyspageSection lsp .hwinfo size
  let itemsize := p + hw.lastItem + H.itemItemsize
  let lsp := lsp.put16 itemsize (word16 lsp.mem itemsize + size / 4)
  let tag := p + hw.offset
  let lsp := lsp.put16 (tag + H.prefixSize) (size / 4)
  let lsp := lsp.put16 (tag + H.prefixName) nameOff
  return ({ hw with lsp := lsp, offset := paddr (hw.offset + size) }, tag)

/-- `hwi_alloc_tag`; the bound is on its nesting through `align_tag`. -/
def hwiAllocTag (H : HwHeader) : Nat → HwInfo → List UInt8 → Nat → Nat →
    Except Crash (HwInfo × Nat)
  | 0, _, _, _, _ => .error .diverges
  | fuel + 1, hw, name, size, align => do
      let hw ← alignTag hw align fun hw => hwiAllocTag H fuel hw H.padName H.sizeofPad H.padAlign
      placeTag H hw name size

/-- The bound of the nesting: a pad tag needs no pad of its own. -/
def nesting : Nat := 2

def hwiAllocItem (H : HwHeader) (hw : HwInfo) (name : List UInt8) (size align : Nat)
    (itemname : List UInt8) (owner : Nat) : Except Crash (HwInfo × Nat) := do
  let (lsp, savedIn) ← addString hw.lsp itemname
  let hw ← alignTag { hw with lsp := lsp } align fun hw =>
    hwiAllocTag H nesting hw H.padName H.sizeofPad H.padAlign
  let (hw, tag) ← hwiAllocTag H nesting { hw with lastItem := hw.offset } name size align
  let lsp := hw.lsp.put16 (tag + H.itemItemname) savedIn
  let lsp := lsp.put16 (tag + H.itemOwner) owner
  if owner ≠ H.nullOff then
    let kids := H.off2tag (lsp.p .hwinfo) owner + H.itemKids
    return ({ hw with lsp := lsp.put16 kids (word16 lsp.mem kids + 1) }, tag)
  else return ({ hw with lsp := lsp }, tag)

/-- `hwi_grow_tag`. Its parameter hides the static `offset`, so `offset += size` advances the
parameter. -/
def hwiGrowTag (H : HwHeader) (hw : HwInfo) (offset size : Nat) :
    Except Crash (HwInfo × Nat) := do
  let (lsp, p) ← growSyspageSection hw.lsp .hwinfo size
  let itemsize := p + hw.lastItem + H.itemItemsize
  let lsp := lsp.put16 itemsize (word16 lsp.mem itemsize + size / 4)
  let tag := p + offset
  let lsp := lsp.put16 (tag + H.prefixSize) (word16 lsp.mem (tag + H.prefixSize) + size / 4)
  return ({ hw with lsp := lsp }, tag)

/-! ## Walking the section -/

/-- A walk of the section from offset `off`: the offsets of the tags it visits and of the
zero-size prefix that ends it, if it meets one inside the section. -/
def hwiWalk (H : HwHeader) (win : Bytes) (len : Nat) : Nat → Nat → Option (List Nat × Nat)
  | 0, _ => none
  | fuel + 1, off =>
    if off + H.sizeofPrefix ≤ len then
      let size := word16 win (off + H.prefixSize)
      if size = 0 then some ([], off)
      else (hwiWalk H win len fuel (off + 4 * size)).map fun (tags, stop) => (off :: tags, stop)
    else none

end Mx6xBsp.Startup
