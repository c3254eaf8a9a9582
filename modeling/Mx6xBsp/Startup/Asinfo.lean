import Mx6xBsp.Startup.Basic
import Mx6xBsp.Lib.Runs

/-!
# The address-space table

`asinfo_entry` records and the functions of `as_add64.c`, `as_find_containing.c`
and `as_add_containing.c`. An offset into the section is the index of its
entry, `AS_NULL_OFF` is `none`, and a name is the string its offset resolves
to. The section shares the system page with others; `room` is the number of
entries that still fit before `grow_syspage_section` crashes.
-/

namespace Mx6xBsp.Startup

/-- The bits of `AS_ATTR_*` and `AS_OVERLAY_IO` that the table functions read or set. -/
structure AsAttr where
  readable : Bool := false
  writable : Bool := false
  cachable : Bool := false
  kids : Bool := false
  continued : Bool := false
  overlayIo : Bool := false

def AS_ATTR_NONE : AsAttr := {}

def AS_ATTR_RAM : AsAttr := { readable := true, writable := true, cachable := true }

/-- `struct asinfo_entry`; `stop` is its inclusive `end`. -/
structure AsinfoEntry where
  start : Nat
  stop : Nat
  owner : Option Nat
  name : String
  attr : AsAttr

/-- `lsp.asinfo` -/
structure Asinfo where
  entries : List AsinfoEntry
  room : Nat

/-- One entry appended, its owner marked as having kids. -/
def asAppend (as : Asinfo) (start stop : Nat) (attr : AsAttr) (name : String)
    (owner : Option Nat) : Except Crash (Asinfo × Nat) :=
  match as.room with
  | 0 => .error .syspageMemory
  | room + 1 =>
    let marked := match owner with
      | none => as.entries
      | some o => as.entries.modify o fun own =>
        { own with attr := { own.attr with kids := true } }
    .ok ({ entries := marked ++ [⟨start, stop, owner, name, { attr with overlayIo := false }⟩],
           room := room }, as.entries.length)

/-- `as_add64`, and `as_add`, which only forwards to it. -/
def asAdd (as : Asinfo) (start stop : Nat) (attr : AsAttr) (name : String)
    (owner : Option Nat) : Except Crash (Asinfo × Nat) := do
  let (as, off) ← asAppend as start stop attr name owner
  if attr.overlayIo then
    let (as, _) ← asAppend as start stop { attr with overlayIo := false } "io" (some off)
    return (as, off)
  else
    return (as, off)

/-- `match_name`: the entry or one of its owners bears the name. The fuel is
the length of the table, which bounds every acyclic chain of owners. -/
def matchName (base : List AsinfoEntry) (name : String) : Nat → AsinfoEntry → Bool
  | fuel, as =>
    if as.name = name then true
    else match fuel, as.owner with
      | _, none => false
      | 0, _ => false
      | fuel + 1, some o =>
        match base[o]? with
        | none => false
        | some owner => matchName base name fuel owner

/-- The three tests of `as_find_containing` on a matching entry. -/
def containsEnd (as : AsinfoEntry) (start stop : Nat) : Bool :=
  (start ≥ as.start && start ≤ as.stop) || (stop ≥ as.start && stop ≤ as.stop) ||
    (start ≤ as.start && stop ≥ as.stop)

def asHit (base : List AsinfoEntry) (start stop : Nat) (container : String)
    (as : AsinfoEntry) : Bool :=
  matchName base container base.length as && containsEnd as start stop

/-- The scan of `as_find_containing` over the entries `todo`, the first of which
has offset `i`. -/
def asScan (hit : AsinfoEntry → Bool) : List AsinfoEntry → Nat → Option Nat
  | [], _ => none
  | as :: todo, i => if hit as then some i else asScan hit todo (i + 1)

/-- The first offset a search behind `off` looks at. -/
def offNext : Option Nat → Nat
  | none => 0
  | some o => o + 1

/-- `as_find_containing`: the search starts behind `off`. -/
def asFindContaining (base : List AsinfoEntry) (off : Option Nat) (start stop : Nat)
    (container : String) : Option Nat :=
  asScan (asHit base start stop container) (base.drop (offNext off)) (offNext off)

/-- `struct as_range` -/
structure AsRange where
  start : Nat
  stop : Nat
  owner : Nat
deriving DecidableEq

/-- The inner loop of `as_add_containing`: put one piece on the list, which
splits the first range that contains its start. -/
def addPiece (pieceStart pieceStop owner : Nat) : List AsRange → List AsRange
  | [] => [⟨pieceStart, pieceStop, owner⟩]
  | curr :: next =>
    if curr.start ≤ pieceStart ∧ curr.stop ≥ pieceStart then
      if curr.start = pieceStart ∧ curr.stop = pieceStop then
        { curr with owner := owner } :: next
      else if curr.start = pieceStart then
        ⟨pieceStart, pieceStop, owner⟩ :: { curr with start := paddr (pieceStop + 1) } :: next
      else
        { curr with stop := pieceStart - 1 } :: ⟨pieceStart, pieceStop, owner⟩ ::
          if curr.stop ≠ pieceStop then
            ⟨paddr (pieceStop + 1), curr.stop, curr.owner⟩ :: next
          else next
    else curr :: addPiece pieceStart pieceStop owner next

/-- The outer loop of `as_add_containing`: one piece for each matching entry
behind `owner`. -/
def collectPieces (base : List AsinfoEntry) (start stop : Nat) (container : String) :
    Nat → Option Nat → List AsRange → List AsRange
  | 0, _, list => list
  | fuel + 1, owner, list =>
    match asFindContaining base owner start stop container with
    | none => list
    | some o =>
      match base[o]? with
      | none => list
      | some as =>
        collectPieces base start stop container fuel (some o)
          (addPiece (max start as.start) (min stop as.stop) o list)

/-- The last loop of `as_add_containing`: an entry for each nonempty piece.
The result is the table with the offsets of the first and the last entry added. -/
def addPieces (attr : AsAttr) (name : String) :
    List AsRange → Asinfo → Option (Nat × Nat) → Except Crash (Asinfo × Option (Nat × Nat))
  | [], as, offs => .ok (as, offs)
  | r :: list, as, offs =>
    if r.start ≤ r.stop then do
      let (as, off) ← asAdd as r.start r.stop attr name (some r.owner)
      addPieces attr name list as (some ((offs.map Prod.fst).getD off, off))
    else addPieces attr name list as offs

/-- The overlay loop of `as_add_containing`: an entry `name` owned by each entry
from `off` to the first that is not continued. -/
def addOverlay (attr : AsAttr) (name : String) : Nat → Nat → Asinfo → Except Crash Asinfo
  | 0, _, _ => .error .diverges
  | fuel + 1, off, as =>
    match as.entries[off]? with
    | none => .ok as
    | some e => do
        let (as, _) ← asAdd as e.start e.stop { attr with overlayIo := false } name (some off)
        if e.attr.continued then addOverlay attr name fuel (off + 1) as else return as

def asAddContaining (as : Asinfo) (start stop : Nat) (attr : AsAttr) (name : String)
    (container : String) : Except Crash (Asinfo × Option Nat) := do
  let list := collectPieces as.entries start stop container (as.entries.length + 1) none []
  let (as, offs) ← addPieces { attr with overlayIo := false, continued := true } name list as none
  match offs with
  | none => return (as, none)
  | some (startOff, off) =>
    let as := { as with entries := as.entries.modify off fun e =>
      { e with attr := { e.attr with continued := false } } }
    if attr.overlayIo then
      let as ← addOverlay attr name as.entries.length startOff as
      return (as, some startOff)
    else
      return (as, some startOff)

end Mx6xBsp.Startup
