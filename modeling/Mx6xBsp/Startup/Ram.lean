import Mx6xBsp.Startup.Asinfo

/-!
# The startup RAM allocator

The functions of `ram.c`. `ramList` and `avoidList` are the slots of the two
tables, terminators included, so that `ram_list_size` is 16 times the length of
the first and `avoid_list_size` 8 times the length of the second; a loop over a
table stops at the slot with a zero `size` or a zero `end`. Memory is addressed
physically, which is what `MAKE_1TO1_PTR` gives up to a constant bias.
-/

namespace Mx6xBsp.Startup

/-- `struct ram_entry`, 16 bytes. -/
structure RamEntry where
  addr : Nat
  size : Nat
deriving DecidableEq

/-- `struct avoid_entry`, 8 bytes; `stop` is its `end`. -/
structure AvoidEntry where
  start : Nat
  stop : Nat
deriving DecidableEq

/-- The fields of the startup header that the allocator reads. -/
structure StartupHeader where
  ramPaddr : Nat
  ramSize : Nat
  startupSize : Nat

abbrev Mem := Nat → UInt8

/-- The statics of `ram.c`, with `lsp.asinfo`, `secure_system` and memory. -/
structure RamState where
  ramList : List RamEntry
  avoidList : List AvoidEntry
  wsEarlyNext : Nat
  tempSyspage : Nat
  sysramAdded : Bool
  asinfo : Asinfo
  secureSystem : Bool
  mem : Mem

def MAX_RAM_LIST_SIZE : Nat := 3072

def MAX_AVOID_LIST_SIZE : Nat := 1024

def TEMP_SYSPAGE_SIZE : Nat := 32768

/-! ## Adding memory -/

/-- The slot search, `memmove` and store of `add_mem`. -/
def insertEntry (start size : Nat) : List RamEntry → List RamEntry
  | [] => []
  | r :: rest =>
    if r.size ≠ 0 ∧ r.addr ≤ start then r :: insertEntry start size rest
    else ⟨start, size⟩ :: r :: rest

/-- The merging loop of `add_mem`; `p` is `r[-1]`. -/
def mergeEntries (p : RamEntry) : List RamEntry → List RamEntry
  | [] => [p]
  | r :: rest =>
    if r.size = 0 then p :: r :: rest
    else
      let e := p.addr + p.size
      let s := r.addr
      if s ≤ e then
        let e := if s + r.size > e then s + r.size else e
        mergeEntries ⟨p.addr, e - p.addr⟩ rest
      else p :: mergeEntries r rest

def addMem (ram : List RamEntry) (start size : Nat) : Except Crash (List RamEntry) :=
  if size > 0 then
    if 16 * ram.length > MAX_RAM_LIST_SIZE - 16 then .error .ramEntryArrayOverflow
    else match insertEntry start size ram with
      | [] => .ok []
      | p :: rest => .ok (mergeEntries p rest)
  else .ok ram

/-! ## Searching memory -/

/-- `fix_size`; `none` is its zero result. -/
def fixSize (s e as ae : Nat) : Option (Nat × Nat) :=
  if s ≥ ae ∨ e ≤ as then some (s, e)
  else if s ≥ as then
    if e ≤ ae then none else some (ae, e)
  else if e < ae then some (s, as)
  else if as - s > e - ae then some (s, as)
  else some (ae, e)

/-- The loop over the avoid list that narrows one candidate. -/
def fixAvoided : List AvoidEntry → Nat → Nat → Option (Nat × Nat)
  | [], s, e => some (s, e)
  | a :: rest, s, e =>
    if a.stop = 0 then some (s, e)
    else match fixSize s e a.start a.stop with
      | none => none
      | some (s, e) => fixAvoided rest s e

/-- The candidate address of `find_top_ram_aligned` in `[s, e)`, if it fits. -/
def topOf (s e size align : Nat) : Option Nat :=
  if e - s ≥ size then
    let chk := if align ≠ 0 then TRUNC (e - size) align else paddr (e - size)
    if chk ≥ s then some chk else none
  else none

def findTopLoop (avoid : List AvoidEntry) (size align : Nat) : List RamEntry → Nat → Nat
  | [], top => top
  | r :: rest, top =>
    if r.size = 0 then top
    else match fixAvoided avoid r.addr (r.addr + r.size) with
      | none => findTopLoop avoid size align rest top
      | some (s, e) =>
        match topOf s e size align with
        | none => findTopLoop avoid size align rest top
        | some chk => findTopLoop avoid size align rest (if chk > top then chk else top)

def findTopRamAligned (ram : List RamEntry) (avoid : List AvoidEntry)
    (size align pagesize : Nat) : Nat :=
  let top := findTopLoop avoid (ROUND size pagesize) align ram 0
  if top = 0 then NULL_PADDR else top

/-- The address `find_ram_in_range` tries in a candidate starting at `s`. -/
def alignColour (s align colour mask : Nat) : Nat :=
  let addr := ROUND s align
  if addr &&& mask ≠ colour then
    let incr := paddr ((paddrSub mask 1 ||| mask) + 1)
    (paddr (addr + incr) &&& paddrNot mask) ||| colour
  else addr

/-- The address `find_ram_in_range` settles on in the candidate `[s, e)`, if the block fits. -/
def placeInRange (rangeStart rangeEnd size align colour mask s e : Nat) : Option Nat :=
  let addr := alignColour s align colour mask
  let addr := if rangeStart ≠ 0 ∧ addr < rangeStart then rangeStart else addr
  let e := if rangeEnd ≠ 0 ∧ e > rangeEnd then rangeEnd else e
  if addr ≥ e then none
  else if size ≤ e - addr then some addr
  else none

def findRamInRange (avoid : List AvoidEntry) (rangeStart rangeEnd size align colour mask : Nat) :
    List RamEntry → Nat
  | [] => NULL_PADDR
  | r :: rest =>
    let next := findRamInRange avoid rangeStart rangeEnd size align colour mask rest
    if r.size = 0 then NULL_PADDR
    else match fixAvoided avoid r.addr (r.addr + r.size) with
      | none => next
      | some (s, e) =>
        match placeInRange rangeStart rangeEnd size align colour mask s e with
        | none => next
        | some addr => addr

def findRam (st : RamState) (size align colour mask : Nat) : Nat :=
  findRamInRange st.avoidList 0 MAX_PADDR32 size align colour mask st.ramList

/-! ## Allocating memory -/

/-- The loop of `alloc_ram` over `ram_list`; `i` is the index of `r`. -/
def allocLoop (addr stop : Nat) : Nat → List RamEntry → Nat → Except Crash (List RamEntry)
  | 0, _, _ => .error .diverges
  | fuel + 1, ram, i =>
    match ram[i]? with
    | none => .ok ram
    | some r =>
      if r.size = 0 then .ok ram
      else
        let s := r.addr
        let e := s + r.size
        if (addr ≤ s ∧ stop > s) ∨ (addr ≥ s ∧ addr < e) ∨ (stop ≥ s ∧ stop < e) then
          let e := if stop > e then stop else e
          let s := if addr < s then addr else s
          if addr = s ∧ stop = e then
            allocLoop addr stop fuel (ram.eraseIdx i) i
          else if addr = s then
            allocLoop addr stop fuel (ram.set i ⟨stop, e - stop⟩) (i + 1)
          else
            let ram := ram.set i ⟨r.addr, addr - s⟩
            if e ≠ stop then do
              let ram ← addMem ram (paddr stop) (paddr (e - stop))
              allocLoop addr stop fuel ram (i + 1)
            else allocLoop addr stop fuel ram (i + 1)
        else allocLoop addr stop fuel ram (i + 1)

/-- What `alloc_ram` does to the `sysram` entry `ent` at `off`; `last` is the
64-bit `end` after its decrement. -/
def sysramTrim (addr last : Nat) (as : Asinfo) (off : Nat) (ent : AsinfoEntry) :
    Except Crash Asinfo :=
  let s := ent.start
  let e := ent.stop
  let e := if last > e then last else e
  let s := if addr < s then addr else s
  if addr = s ∧ last = e then .error .wholeSysramEntry
  else if addr = s then
    .ok { as with entries := as.entries.set off { ent with start := last + 1 } }
  else
    let as := { as with entries := as.entries.set off { ent with stop := addr - 1 } }
    if e ≠ last then do
      let (as, _) ← asAdd as (paddr (last + 1)) (paddr e) AS_ATTR_RAM "sysram" ent.owner
      return as
    else .ok as

/-- The loop of `alloc_ram` that takes `[addr, last]` out of the `sysram` entries. -/
def sysramLoop (addr last : Nat) : Nat → Asinfo → Option Nat → Except Crash Asinfo
  | 0, _, _ => .error .diverges
  | fuel + 1, as, off =>
    match asFindContaining as.entries off addr (paddr last) "sysram" with
    | none => .ok as
    | some off =>
      match as.entries[off]? with
      | none => .ok as
      | some ent => do
          let as ← sysramTrim addr last as off ent
          sysramLoop addr last fuel as (some off)

/-- The block `[addr, addr + size)` zeroed. -/
def Mem.zero (mem : Mem) (addr size : Nat) : Mem :=
  fun a => if addr ≤ a ∧ a < addr + size then 0 else mem a

/-- The part of `alloc_ram` after the address is known. -/
def takeRam (st : RamState) (addr size : Nat) : Except Crash RamState := do
  let stop := paddr (addr + size)
  let ramList ← allocLoop addr stop (2 * st.ramList.length + 2) st.ramList 0
  let st := { st with ramList := ramList }
  if st.sysramAdded then
    -- `--end` on the 64-bit `end`
    let last := (stop + (2 ^ 64 - 1)) % 2 ^ 64
    let asinfo ← sysramLoop addr last (2 * st.asinfo.entries.length + 2) st.asinfo none
    return { st with asinfo := asinfo }
  else
    return st

/-- On a secure system a found block is zeroed. -/
def zeroSecure (st : RamState) (addr size : Nat) : RamState :=
  { st with mem := if st.secureSystem then st.mem.zero addr size else st.mem }

def allocRam (st : RamState) (addr size align : Nat) : Except Crash (RamState × Nat) :=
  if addr = NULL_PADDR then
    let found := findRam st size align 0 0
    if found = NULL_PADDR then .ok (st, NULL_PADDR)
    else do
      let st ← takeRam (zeroSecure st found size) found size
      return (st, found)
  else do
    let st ← takeRam st addr size
    return (st, addr)

/-! ## Ranges to avoid and working storage -/

/-- `avoid_ram`, after `ws_init` has run. -/
def avoidRam (st : RamState) (start size : Nat) : RamState :=
  { st with avoidList := st.avoidList.dropLast ++ [⟨start, paddr (start + size)⟩, ⟨0, 0⟩] }

/-- `ws_alloc`, after `ws_init` has run; `none` is its `NULL`. -/
def wsAlloc (st : RamState) (size : Nat) : RamState × Option Nat :=
  let size := ROUND size 8
  if 16 * st.ramList.length ≤ 16 then
    let addr := st.wsEarlyNext
    (avoidRam { st with wsEarlyNext := paddr (st.wsEarlyNext + size) } addr size, some addr)
  else
    let addr := findRam st size 8 0 0
    if addr = NULL_PADDR then (st, none)
    else (avoidRam st addr size, some addr)

/-- `ws_init`: the state in which `_main` starts. -/
def wsInit (shdr : StartupHeader) (secureSystem : Bool) (asinfo : Asinfo) (mem : Mem) :
    RamState :=
  let early := ROUND (shdr.ramPaddr + shdr.ramSize) 8
  let next := paddr (early + ROUND MAX_AVOID_LIST_SIZE 8)
  let st : RamState :=
    { ramList := [], avoidList := [⟨early, next⟩, ⟨0, 0⟩], wsEarlyNext := next,
      tempSyspage := NULL_PADDR, sysramAdded := false, asinfo := asinfo,
      secureSystem := secureSystem, mem := mem }
  let (st, _) := wsAlloc st MAX_RAM_LIST_SIZE
  let st := { st with ramList := [⟨0, 0⟩] }
  avoidRam st shdr.ramPaddr shdr.startupSize

/-! ## The operations of boards -/

/-- `as_default` and the first lines of `add_ram`; `init_asinfo` is empty on this board. -/
def initAsinfo (as : Asinfo) : Except Crash Asinfo :=
  if as.entries.length = 0 then do
    let (as, mem) ← asAdd as 0 0xffffffff AS_ATTR_NONE "memory" none
    let (as, _) ← asAdd as 0 0xffffffff AS_ATTR_NONE "below4G" (some mem)
    return as
  else return as

/-- The temporary system page `add_ram` looks for once. -/
def findTempSyspage (st : RamState) : RamState :=
  if st.tempSyspage = NULL_PADDR then
    let addr := findRam st TEMP_SYSPAGE_SIZE PAGESIZE 0 0
    let st := { st with tempSyspage := addr }
    if addr ≠ NULL_PADDR then avoidRam st addr TEMP_SYSPAGE_SIZE else st
  else st

/-- `add_ram` up to its search for the temporary system page. -/
def addRamMemory (shdr : StartupHeader) (st : RamState) (start size : Nat) :
    Except Crash RamState := do
  let asinfo ← initAsinfo st.asinfo
  let (asinfo, _) ← asAddContaining asinfo start (paddrSub (paddr (start + size)) 1) AS_ATTR_RAM
    "ram" "memory"
  let ramList ← addMem st.ramList start size
  let st := { st with asinfo := asinfo, ramList := ramList }
  let (st, _) ← allocRam st (paddr (shdr.ramPaddr + shdr.startupSize))
    (paddrSub shdr.ramSize shdr.startupSize) 1
  return st

/-- `add_ram`, with no watchers registered. -/
def addRam (shdr : StartupHeader) (st : RamState) (start size : Nat) : Except Crash RamState := do
  let st ← addRamMemory shdr st start size
  return findTempSyspage st

/-- The loop of `add_sysram`. -/
def addSysramLoop : List RamEntry → Asinfo → Except Crash Asinfo
  | [], as => .ok as
  | r :: rest, as =>
    if r.size = 0 then .ok as
    else do
      let (as, _) ← asAddContaining as (paddr r.addr) (paddr (r.addr + r.size - 1)) AS_ATTR_RAM
        "sysram" "ram"
      addSysramLoop rest as

/-- `add_sysram`, with no watchers registered. -/
def addSysram (st : RamState) : Except Crash RamState := do
  let asinfo ← addSysramLoop st.ramList st.asinfo
  return { st with asinfo := asinfo, sysramAdded := true }

/-- The block `reserve_ram` picks. -/
def reserveTarget (st : RamState) (size align pagesize : Nat) : Nat :=
  findTopRamAligned st.ramList st.avoidList size (if align ≠ 0 then align else pagesize) pagesize

def reserveRam (st : RamState) (size align pagesize : Nat) : Except Crash RamState :=
  if size = 0 then .ok st
  else
    let reserved := reserveTarget st size align pagesize
    if reserved = NULL_PADDR then .error (.couldNotReserve size)
    else do
      let (st, _) ← allocRam st reserved size (if align ≠ 0 then align else pagesize)
      let (asinfo, _) ← asAddContaining st.asinfo reserved
        (paddrSub (paddr (reserved + size)) 1) AS_ATTR_RAM "reserved" "ram"
      return { st with asinfo := asinfo }

end Mx6xBsp.Startup
