import Mx6xBsp.Lib.CStrings
import Mx6xBsp.Startup.Syspage

/-!
# The string sections of the system page

The functions of `strings.c`. `typed_strings` holds pairs of a type word and a
text padded to a word, up to the type `_CS_NONE`; `strings` holds texts one
after another, up to an empty one. Both are searched in place and grown through
`grow_syspage_section`, which does not move the section it grows.
-/

namespace Mx6xBsp.Startup

open Words CStrings

/-- The header that defines it is not part of this tree; the fresh section of zero bytes ends
with it. -/
def CS_NONE : Nat := 0

/-- The C string at `addr`; the bound stands for the end of memory. -/
def cString (mem : Mem) (addr : Nat) : Except Crash (List UInt8) :=
  match readString mem PADDR_SPACE addr with
  | some str => .ok str
  | none => .error .diverges

/-- A store of bytes one after another, as `strcpy` does. -/
def Syspage.write (lsp : Syspage) (addr : Nat) (data : List UInt8) : Syspage :=
  { lsp with mem := lsp.mem.write addr data }

/-! ## Typed strings -/

/-- The loop of `find_typed_string` from index `i` on; `p` is the section's data. -/
def findTypedLoop (mem : Mem) (p type : Nat) : Nat → Nat → Except Crash (Option Nat)
  | 0, _ => .error .diverges
  | fuel + 1, i =>
    let here := word32 mem (p + i)
    if here = type then .ok (some i)
    else if here = CS_NONE then .ok none
    else do
      let i := i + 4
      let str ← cString mem (p + i)
      findTypedLoop mem p type fuel (ROUND (i + str.length + 1) 4)

/-- `find_typed_string`; `none` is its -1. -/
def findTypedString (lsp : Syspage) (type : Nat) : Except Crash (Option Nat) :=
  findTypedLoop lsp.mem (lsp.p .typedStrings) type PADDR_SPACE 0

/-- The two byte loops of `del_typed_string`. The first copies forward to a lower address, as a
move does; the second zeroes what it has left. -/
def slideTyped (mem : Mem) (p i j stop : Nat) : Mem :=
  let len := stop - j
  (mem.move (p + i) (p + j) len).zero (p + (i + len)) (j + len - (i + len))

def delTypedString (lsp : Syspage) (type : Nat) : Except Crash (Syspage × Bool) := do
  let p := lsp.p .typedStrings
  match ← findTypedString lsp type with
  | none => return (lsp, false)
  | some i => do
      let str ← cString lsp.mem (p + (i + 4))
      let j := ROUND (i + str.length + 1) 4
      let stop ← findTypedString lsp CS_NONE
      return ({ lsp with mem := slideTyped lsp.mem p i j (stop.getD 0) }, true)

def addTypedString (lsp : Syspage) (type : Nat) (name : List UInt8) :
    Except Crash (Syspage × Nat) := do
  let p := lsp.p .typedStrings
  let (lsp, _) ← delTypedString lsp type
  let found ← findTypedString lsp CS_NONE
  let i := found.getD 0
  let len := ROUND (name.length + 1) 4
  let need := len + 2 * 4
  let spare := paddrSub (lsp.size .typedStrings) i
  let grown := if spare < need then growSyspageSection lsp .typedStrings (need - spare)
    else .ok (lsp, p)
  let (lsp, _) ← grown
  let lsp := { lsp with mem := put32 lsp.mem (p + i) type }
  return (lsp.write (p + (i + 4)) (name ++ [0]), i)

/-! ## The string pool -/

/-- The search loop of `add_string` in the strings from offset `i` on: where it stops, and
whether it has found `name` there. The bound is the length of the section. -/
def findString (name : List UInt8) : Nat → List UInt8 → Nat → Option (Nat × Bool)
  | 0, _, _ => none
  | fuel + 1, data, i =>
    let str := data.takeWhile (· ≠ 0)
    if str.length = data.length then none
    else if str = [] then some (i, false)
    else if str = name then some (i, true)
    else findString name fuel (data.drop (str.length + 1)) (i + str.length + 1)

def addString (lsp : Syspage) (name : List UInt8) : Except Crash (Syspage × Nat) :=
  match findString name (lsp.size .strings + 1) (lsp.bytes .strings) 0 with
  | none => .error .diverges
  | some (i, true) => .ok (lsp, i)
  | some (i, false) => do
      let len := name.length + 2
      let spare := lsp.size .strings - i
      let grown :=
        if len > spare then growSyspageSection lsp .strings (len - spare)
        else .ok (lsp, lsp.p .strings)
      let (lsp, p) ← grown
      return (lsp.write (p + i) (name ++ [0]), i)

end Mx6xBsp.Startup
