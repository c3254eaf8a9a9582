import Mathlib.Data.BitVec
import Mx6xBsp.Lib.Blocks
import Mx6xBsp.Lib.Runs

/-!
# Exchanges of the i.MX51 SPI driver

`mxecspi.c` and `intr.c` of `mx51ecspi`: one buffer is sent and takes what comes back.
`mx51_xfer` fills the TXFIFO for a burst of up to 512 bytes, or for as many words, and the
interrupt handler empties the RXFIFO and fills the TXFIFO up. The controller gives a word
back for each word sent, and its interrupts are taken at any time. `exchange_right_iff` tells
when a transfer that succeeds has sent the buffer and filled it with what came back.
-/

namespace Mx6xBsp.Spi.Ecspi

open Blocks Runs

abbrev Word := BitVec 32
abbrev Byte := BitVec 8

def MX51_CSPI_BURST_MAX : Nat := 0x200
def MX51_CSPI_FIFO_SIZE : Nat := 0x40
def MX51_CSPI_FIFO_RXMARK : Nat := MX51_CSPI_FIFO_SIZE >>> 1

/-! ## Words and bytes -/

/-- The `char`, `uint16_t` and `uint32_t` at an offset of the buffer -/
def char (buf : Nat → Byte) (i : Nat) : Word := (buf i).setWidth 32

def uint16 (buf : Nat → Byte) (i : Nat) : Word := char buf (i + 1) <<< 8 ||| char buf i

def uint32 (buf : Nat → Byte) (i : Nat) : Word :=
  char buf (i + 3) <<< 24 ||| char buf (i + 2) <<< 16 ||| char buf (i + 1) <<< 8 ||| char buf i

/-- The data that is written to the TXFIFO for `n` bytes of the buffer -/
def txData (dlen n : Nat) (buf : Nat → Byte) (i : Nat) : Word :=
  match dlen, n with
  | 1, 1 => char buf i
  | 1, 2 => char buf i <<< 8 ||| char buf (i + 1)
  | 1, 3 => char buf i <<< 16 ||| char buf (i + 1) <<< 8 ||| char buf (i + 2)
  | 1, _ => char buf i <<< 24 ||| char buf (i + 1) <<< 16 ||| char buf (i + 2) <<< 8 |||
      char buf (i + 3)
  | 2, 2 => uint16 buf i
  | 2, _ => uint16 buf i <<< 16 ||| uint16 buf (i + 2)
  | _, _ => uint32 buf i

/-- A byte of data -/
def byteAt (data : Word) (place : Nat) : Byte := (data >>> place).setWidth 8

/-- The bytes that data from the RXFIFO puts into the buffer -/
def rxBytes (dlen n : Nat) (data : Word) : List Byte :=
  match dlen, n with
  | 1, 1 => [byteAt data 0]
  | 1, 2 => [byteAt data 8, byteAt data 0]
  | 1, 3 => [byteAt data 16, byteAt data 8, byteAt data 0]
  | 1, _ => [byteAt data 24, byteAt data 16, byteAt data 8, byteAt data 0]
  | 2, 2 => [byteAt data 0, byteAt data 8]
  | 2, _ => [byteAt data 16, byteAt data 24, byteAt data 0, byteAt data 8]
  | _, _ => [byteAt data 0, byteAt data 8, byteAt data 16, byteAt data 24]

/-- A transfer: the length of a word in bits, whether the driver was started for bursts, the length
in bytes, and what an empty RXFIFO reads as. A negative length is refused as a short one. -/
structure Xchg where
  charLen : Nat
  burst : Bool
  xlen : Nat
  empty : Word

def Xchg.dlen (x : Xchg) : Nat := (x.charLen + 7) >>> 3

/-- The bytes a word takes without bursts -/
def Xchg.unit (x : Xchg) : Option Nat :=
  match x.dlen with
  | 1 => some 1
  | 2 => some 2
  | 3 => some 4
  | 4 => some 4
  | _ => none

/-- The words that bursts support -/
def Xchg.supported (x : Xchg) : Bool := x.dlen = 1 || x.dlen = 2 || x.dlen = 4

/-- Whether a burst may have `n` bytes in its first word, which is not a full one -/
def Xchg.adjusts (x : Xchg) (n : Nat) : Bool := x.dlen = 1 || (x.dlen = 2 && n = 2)

/-! ## The buffer and the FIFOs -/

/-- A word of the TXFIFO, and how many bytes it stands for -/
structure Sent where
  n : Nat
  out : Word

/-- A word that was sent, and the one that came back -/
structure Exchanged extends Sent where
  back : Word

inductive Access
  | read (i : Nat)
  | write (i : Nat)
  deriving DecidableEq

def Access.offset : Access → Nat
  | .read i => i
  | .write i => i

/-- The buffer with all accesses to it, the lengths sent and received, the FIFOs, and what the
controller has exchanged -/
structure Io where
  buf : Nat → Byte
  trace : List Access
  tlen : Nat
  rlen : Nat
  tx : List Sent
  rx : List Word
  exchanged : List Exchanged

/-- A write to the TXFIFO; a full one does not take it. -/
def Io.out32 (n : Nat) (data : Word) (io : Io) : Io :=
  { io with tx := if io.tx.length < MX51_CSPI_FIFO_SIZE then io.tx ++ [⟨n, data⟩] else io.tx }

/-- The next `n` bytes of the buffer are sent. -/
def Io.send (x : Xchg) (n : Nat) (io : Io) : Io :=
  { io.out32 n (txData x.dlen n io.buf io.tlen) with
    trace := io.trace ++ (List.range n).map fun j => .read (io.tlen + j)
    tlen := io.tlen + n }

/-- A word of the RXFIFO goes into the next `n` bytes of the buffer. -/
def Io.receive (x : Xchg) (n : Nat) (io : Io) : Io :=
  { io with
    rx := io.rx.tail
    buf := write io.buf io.rlen (rxBytes x.dlen n (io.rx.headD x.empty))
    trace := io.trace ++ (List.range n).map fun j => .write (io.rlen + j)
    rlen := io.rlen + n }

/-- `mx51_cspi_t`; `enabled` tells of the interrupts, and `pulses` counts those that wait. -/
structure Dev extends Io where
  bxlen : Nat
  btlen : Nat
  brlen : Nat
  lsbAdjust : Nat
  enabled : Bool
  pulses : Nat

variable (x : Xchg)

/-! ## `spi_intr` -/

inductive Status
  | tc
  | rdr
  | other
  deriving DecidableEq

/-- The loop that reads the rest of the RXFIFO, of which each round counts four bytes of the
burst -/
def drain : Nat → Int → Dev → Dev
  | 0, _, d => d
  | fuel + 1, count, d =>
    if count ≠ 0 ∧ d.rlen < x.xlen ∧ d.rlen < d.tlen ∧ d.brlen < d.bxlen then
      drain fuel (count - 1) { d with toIo := d.toIo.receive x 4, brlen := d.brlen + 4 }
    else d

/-- The loop that fills the TXFIFO for the burst -/
def refill : Nat → Dev → Dev
  | 0, d => d
  | count + 1, d =>
    if d.btlen < d.bxlen then
      refill count { d with toIo := d.toIo.send x 4, btlen := d.btlen + 4 }
    else d

/-- The loop without bursts -/
def swap : Nat → Dev → Dev
  | 0, d => d
  | count + 1, d =>
    match x.unit with
    | none => swap count { d with rx := d.rx.tail }
    | some n =>
      let io := d.toIo.receive x n
      swap count { d with toIo := if io.tlen < x.xlen then io.send x n else io }

def Dev.spievent (d : Dev) : Dev := { d with enabled := false, pulses := d.pulses + 1 }

/-- The RXFIFO is read, first the short word of the burst. -/
def emptyBurst (count : Nat) (d : Dev) : Dev :=
  if d.lsbAdjust ≠ 0 then
    drain x d.bxlen (count - 1) { d with
      toIo := d.toIo.receive x d.lsbAdjust
      brlen := d.brlen + d.lsbAdjust
      lsbAdjust := 0 }
  else drain x d.bxlen count d

/-- The branch for bursts. `mx51_xfer` has started one only for words that are supported, and
with an adjustment only for words that allow it. -/
def intrBurst (count : Nat) (d : Dev) : Dev :=
  let d := emptyBurst x count d
  let d := refill x (MX51_CSPI_FIFO_SIZE - d.tx.length) d
  if d.brlen ≥ d.bxlen ∨ d.rlen ≥ x.xlen then d.spievent else d

/-- The branch without bursts -/
def intrWords (count : Nat) (d : Dev) : Dev :=
  let d := swap x count d
  if d.rlen ≥ x.xlen then d.spievent else d

def spiIntr (status : Status) (d : Dev) : Dev :=
  let branch := if x.burst then intrBurst x else intrWords x
  match status with
  | .tc => branch d.rx.length d
  | .rdr => branch (min d.rx.length MX51_CSPI_FIFO_RXMARK) d
  | .other => d.spievent

/-! ## `mx51_xfer` -/

/-- The rest of a burst goes to the TXFIFO. -/
def fill : Nat → Dev → Option Dev
  | 0, d => some d
  | room + 1, d =>
    if d.btlen < d.bxlen then
      if x.supported then fill room { d with toIo := d.toIo.send x 4, btlen := d.btlen + 4 }
      else none
    else some d

/-- The words that go to the TXFIFO without bursts -/
def fillWords : Nat → Dev → Dev
  | 0, d => d
  | room + 1, d =>
    if d.tlen ≥ x.xlen then d
    else
      match x.unit with
      | none => fillWords room d
      | some n => fillWords room { d with toIo := d.toIo.send x n }

/-- What `mx51_xfer` does before it waits, with the interrupts on at the end -/
def startBurst (d : Dev) : Option Dev :=
  let d := { d with brlen := 0, btlen := 0 }
  let filled :=
    if x.burst then
      if x.xlen - d.tlen ≥ MX51_CSPI_BURST_MAX then
        fill x MX51_CSPI_FIFO_SIZE { d with bxlen := MX51_CSPI_BURST_MAX, lsbAdjust := 0 }
      else
        let d := { d with bxlen := x.xlen - d.tlen, btlen := (x.xlen - d.tlen) % 4 }
        if d.btlen = 0 then fill x MX51_CSPI_FIFO_SIZE { d with lsbAdjust := 0 }
        else if x.adjusts d.btlen then
          fill x (MX51_CSPI_FIFO_SIZE - 1)
            { d with toIo := d.toIo.send x d.btlen, lsbAdjust := d.btlen }
        else none
    else some (fillWords x MX51_CSPI_FIFO_SIZE d)
  filled.map fun d => { d with enabled := true }

/-- Before the first burst: the RXFIFO is cleared, and `left` are words that an earlier transfer has
left in the TXFIFO. A transfer shorter than a word is refused. -/
def xfer (buf : Nat → Byte) (left : List Sent) (pulses : Nat) : Option Dev :=
  if x.xlen < x.dlen then none
  else
    some { buf, trace := [], tlen := 0, rlen := 0, tx := left, rx := [], exchanged := [],
           bxlen := 0, btlen := 0, brlen := 0, lsbAdjust := 0, enabled := false, pulses }

/-! ## Transfers -/

/-- The controller exchanges a word, as long as the RXFIFO has room for it, or an interrupt is
taken. -/
inductive Event
  | shift (back : Word)
  | intr (status : Status)
  deriving DecidableEq

def Dev.next (d : Dev) : Event → Option Dev
  | .shift back =>
    match d.tx with
    | [] => none
    | e :: tx =>
      if d.rx.length < MX51_CSPI_FIFO_SIZE then
        some { d with tx, rx := d.rx ++ [back], exchanged := d.exchanged ++ [⟨e, back⟩] }
      else none
  | .intr status => if d.enabled then some (spiIntr x status d) else none

/-- The loop of `mx51_xfer`, where each burst waits for a pulse. A transfer that times out returns
-1 as its length and is none of these. `C` is a condition on the events. -/
inductive Transfer (C : Dev → Event → Prop) : Dev → Dev → Prop
  | done {d : Dev} : ¬(d.rlen < x.xlen ∧ d.tlen < x.xlen) → Transfer C d d
  | burst {d t u v : Dev} {events : List Event} {n : Nat} :
    d.rlen < x.xlen ∧ d.tlen < x.xlen → startBurst x d = some t →
    Run (fun s e s' => s.next x e = some s' ∧ C s e) t events u → u.pulses = n + 1 →
    Transfer C { u with pulses := n } v → Transfer C d v

/-- The interrupts are those of the two statuses. -/
def Expected (_ : Dev) : Event → Prop
  | .shift _ => True
  | .intr status => status ≠ .other

/-- And no interrupt is taken with an empty RXFIFO before the short word of a burst is read. -/
def Fresh (d : Dev) : Event → Prop
  | .shift _ => True
  | .intr status => status ≠ .other ∧ (d.lsbAdjust ≠ 0 → d.rx ≠ [])

instance (d : Dev) : DecidablePred (Expected d)
  | .shift _ => .isTrue trivial
  | .intr status => inferInstanceAs (Decidable (status ≠ .other))

instance (d : Dev) : DecidablePred (Fresh d)
  | .shift _ => .isTrue trivial
  | .intr status =>
    inferInstanceAs (Decidable (status ≠ .other ∧ (d.lsbAdjust ≠ 0 → d.rx ≠ [])))

/-- One burst with its events, where it is the whole transfer -/
def once (C : Dev → Event → Prop) [∀ d, DecidablePred (C d)] (events : List Event) (d : Dev) :
    Option Dev := do
  let t ← startBurst x d
  let u ← evalRun (fun s e => s.next x e) (fun s e => C s e) t events
  if u.pulses = 1 ∧ (d.rlen < x.xlen ∧ d.tlen < x.xlen) ∧ ¬(u.rlen < x.xlen ∧ u.tlen < x.xlen) then
    some { u with pulses := 0 }
  else none

/-- The bytes of the buffer up to an offset -/
def upTo (buf : Nat → Byte) (n : Nat) : List Byte := (List.range n).map buf

/-- The words that were sent are the buffer, those that came back are in their place, the length
returned is the one asked for, and each byte was read before it was written, with no access
outside. -/
structure Right (buf : Nat → Byte) (d : Dev) : Prop where
  returned : d.rlen = x.xlen
  sent : d.exchanged.flatMap (fun e => rxBytes x.dlen e.n e.out) = upTo buf x.xlen
  received : d.exchanged.flatMap (fun e => rxBytes x.dlen e.n e.back) = upTo d.buf x.xlen
  inside : ∀ a ∈ d.trace, a.offset < x.xlen
  order : ∀ before i after, d.trace = before ++ .write i :: after → .read i ∈ before

/-! ## Bytes of a word -/

/-- The parts a word of the FIFOs can have: one to four bytes of 8 bits, one or two words of 16
bits, or a word of 32 bits -/
def Fits (dlen n : Nat) : Prop :=
  dlen = 1 ∧ (n = 1 ∨ n = 2 ∨ n = 3 ∨ n = 4) ∨ dlen = 2 ∧ (n = 2 ∨ n = 4) ∨
    (dlen = 3 ∨ dlen = 4) ∧ n = 4

theorem byteAt_or (v w : Word) (place : Nat) :
    byteAt (v ||| w) place = byteAt v place ||| byteAt w place := by
  unfold byteAt
  rw [BitVec.ushiftRight_or_distrib, BitVec.setWidth_or]

theorem byteAt_char (b : Byte) : ∀ place ∈ [0, 8, 16, 24], ∀ place' ∈ [0, 8, 16, 24],
    byteAt (b.setWidth 32 <<< place) place' = if place = place' then b else 0 := by
  revert b
  decide +kernel

theorem byteAt_shifted (buf : Nat → Byte) (i place place' : Nat) (known : place ∈ [0, 8, 16, 24])
    (known' : place' ∈ [0, 8, 16, 24]) :
    byteAt (char buf i <<< place) place' = if place = place' then buf i else 0 :=
  byteAt_char (buf i) place known place' known'

theorem rxBytes_txData {dlen n : Nat} (fits : Fits dlen n) (buf : Nat → Byte) (i : Nat) :
    rxBytes dlen n (txData dlen n buf i) = (List.range n).map fun j => buf (i + j) := by
  have plain (k place' : Nat) (known' : place' ∈ [0, 8, 16, 24]) :
      byteAt (char buf k) place' = if 0 = place' then buf k else 0 := by
    have shifted := byteAt_shifted buf k 0 place' (by decide) known'
    rwa [BitVec.shiftLeft_zero] at shifted
  have high : (char buf (i + 1) <<< 8 ||| char buf i) <<< 16 =
      char buf (i + 1) <<< 24 ||| char buf i <<< 16 := by
    rw [BitVec.shiftLeft_or_distrib, ← BitVec.shiftLeft_add]
  rcases fits with ⟨rfl, rfl | rfl | rfl | rfl⟩ | ⟨rfl, rfl | rfl⟩ | ⟨rfl | rfl, rfl⟩
  all_goals
    simp [rxBytes, txData, high, uint16, uint32, byteAt_or, byteAt_shifted, plain, List.range_succ]

theorem rxBytes_length {dlen n : Nat} (fits : Fits dlen n) (data : Word) :
    (rxBytes dlen n data).length = n := by
  rcases fits with ⟨rfl, rfl | rfl | rfl | rfl⟩ | ⟨rfl, rfl | rfl⟩ | ⟨rfl | rfl, rfl⟩
  all_goals rfl

theorem Fits.pos {dlen n : Nat} (fits : Fits dlen n) : 0 < n := by
  rcases fits with ⟨_, h⟩ | ⟨_, h⟩ | ⟨_, h⟩ <;> omega

theorem upTo_add (buf : Nat → Byte) (k n : Nat) :
    upTo buf (k + n) = upTo buf k ++ (List.range n).map fun j => buf (k + j) := by
  unfold upTo
  rw [List.range_add, List.map_append, List.map_map]
  rfl

theorem upTo_congr {buf buf' : Nat → Byte} {n : Nat} (same : ∀ i < n, buf i = buf' i) :
    upTo buf n = upTo buf' n :=
  List.map_congr_left fun i inside => same i (List.mem_range.mp inside)

theorem upTo_write (buf : Nat → Byte) (k : Nat) (bytes : List Byte) :
    upTo (write buf k bytes) (k + bytes.length) = upTo buf k ++ bytes := by
  rw [upTo_add, upTo_congr fun i below => write_below below]
  congr 1
  refine List.ext_getElem (by rw [List.length_map, List.length_range]) fun j below below' => ?_
  rw [List.getElem_map, List.getElem_range]
  exact write_get (List.getElem?_eq_getElem below')

/-! ## What goes through the FIFOs -/

/-- The widths of the words that the buffer still waits for: those exchanged and not read, and those
not sent yet -/
def due (waiting : List Exchanged) (tx : List Sent) : List Nat :=
  waiting.map (·.n) ++ tx.map (·.n)

/-- The words exchanged are those done and those waiting in the RXFIFO. The buffer has what came
back up to `rlen` and its own bytes from there, which were read up to `tlen`. -/
structure Flow (orig : Nat → Byte) (done waiting : List Exchanged) (io : Io) : Prop where
  exchanged : io.exchanged = done ++ waiting
  rx : io.rx = waiting.map (·.back)
  sent : io.exchanged.flatMap (fun e => rxBytes x.dlen e.n e.out) ++
    io.tx.flatMap (fun e => rxBytes x.dlen e.n e.out) = upTo orig io.tlen
  got : done.flatMap (fun e => rxBytes x.dlen e.n e.back) = upTo io.buf io.rlen
  rest : ∀ i, io.rlen ≤ i → io.buf i = orig i
  fits : ∀ n ∈ due waiting io.tx, Fits x.dlen n
  total : io.tlen = io.rlen + (due waiting io.tx).sum
  within : io.tlen ≤ x.xlen
  read : ∀ i < io.tlen, .read i ∈ io.trace
  inside : ∀ a ∈ io.trace, a.offset < x.xlen
  order : ∀ before i after, io.trace = before ++ .write i :: after → .read i ∈ before

variable {x}
variable {orig : Nat → Byte} {done waiting : List Exchanged} {io : Io}

theorem due_append (waiting : List Exchanged) (tx : List Sent) (e : Sent) :
    due waiting (tx ++ [e]) = due waiting tx ++ [e.n] := by
  unfold due
  rw [List.map_append, List.append_assoc, List.map_singleton]

theorem due_cons (e : Exchanged) (waiting : List Exchanged) (tx : List Sent) :
    due (e :: waiting) tx = e.n :: due waiting tx :=
  rfl

theorem due_shift (waiting : List Exchanged) (e : Sent) (back : Word) (tx : List Sent) :
    due (waiting ++ [⟨e, back⟩]) tx = due waiting (e :: tx) := by
  unfold due
  rw [List.map_append, List.append_assoc]
  rfl

theorem Flow.behind (flow : Flow x orig done waiting io) : io.rlen ≤ io.tlen := by
  have total := flow.total
  omega

theorem Flow.settled (flow : Flow x orig done waiting io) (caught : io.tlen ≤ io.rlen) :
    waiting = [] ∧ io.tx = [] := by
  have total := flow.total
  have none : (due waiting io.tx).sum = 0 := by omega
  have empty : due waiting io.tx = [] := by
    rcases found : due waiting io.tx with _ | ⟨n, rest⟩
    · rfl
    · have pos := (flow.fits n (found ▸ List.mem_cons_self)).pos
      rw [found, List.sum_cons] at none
      omega
  obtain ⟨noWaiting, noTx⟩ := List.append_eq_nil_iff.mp empty
  exact ⟨List.map_eq_nil_iff.mp noWaiting, List.map_eq_nil_iff.mp noTx⟩

theorem access_split {trace new before after : List Access} {a : Access}
    (split : trace ++ new = before ++ a :: after) :
    (∃ more, trace = before ++ a :: more) ∨ (∃ more, before = trace ++ more) ∧ a ∈ new := by
  rcases List.append_eq_append_iff.mp split with ⟨more, longer, tail⟩ | ⟨more, longer, tail⟩
  · exact .inr ⟨⟨more, longer⟩, tail ▸ List.mem_append_right more List.mem_cons_self⟩
  · rcases List.cons_eq_append_iff.mp tail with ⟨rfl, new⟩ | ⟨old, rfl, _⟩
    · refine .inr ⟨⟨[], by rw [longer, List.append_nil, List.append_nil]⟩, ?_⟩
      exact new ▸ List.mem_cons_self
    · exact .inl ⟨old, longer⟩

theorem order_reads {trace : List Access} (k n : Nat)
    (order : ∀ before i after, trace = before ++ .write i :: after → .read i ∈ before) :
    ∀ before i after, trace ++ (List.range n).map (fun j => .read (k + j)) =
      before ++ .write i :: after → .read i ∈ before := by
  intro before i after split
  rcases access_split split with ⟨more, old⟩ | ⟨_, new⟩
  · exact order before i more old
  · obtain ⟨j, _, wrong⟩ := List.mem_map.mp new
    cases wrong

theorem order_writes {trace : List Access} (k n : Nat)
    (order : ∀ before i after, trace = before ++ .write i :: after → .read i ∈ before)
    (read : ∀ j < n, .read (k + j) ∈ trace) :
    ∀ before i after, trace ++ (List.range n).map (fun j => .write (k + j)) =
      before ++ .write i :: after → .read i ∈ before := by
  intro before i after split
  rcases access_split split with ⟨more, old⟩ | ⟨⟨more, rfl⟩, new⟩
  · exact order before i more old
  · obtain ⟨j, below, same⟩ := List.mem_map.mp new
    obtain rfl := Access.write.inj same
    exact List.mem_append_left more (read j (List.mem_range.mp below))

theorem inside_new {trace : List Access} {access : Nat → Access} {k n len : Nat}
    (inside : ∀ a ∈ trace, a.offset < len) (at' : ∀ i, (access i).offset = i)
    (within : k + n ≤ len) :
    ∀ a ∈ trace ++ (List.range n).map (fun j => access (k + j)), a.offset < len := by
  intro a found
  rcases List.mem_append.mp found with old | new
  · exact inside a old
  · obtain ⟨j, below, rfl⟩ := List.mem_map.mp new
    have := List.mem_range.mp below
    rw [at']
    omega

theorem Flow.send (flow : Flow x orig done waiting io) {n : Nat} (room : io.tx.length < 64)
    (fits : Fits x.dlen n) (within : io.tlen + n ≤ x.xlen) :
    Flow x orig done waiting (io.send x n) ∧
      (io.send x n).tx = io.tx ++ [⟨n, txData x.dlen n io.buf io.tlen⟩] := by
  have pushed : (io.send x n).tx = io.tx ++ [⟨n, txData x.dlen n io.buf io.tlen⟩] :=
    if_pos room
  have bytes : (List.range n).map (fun j => io.buf (io.tlen + j)) =
      (List.range n).map fun j => orig (io.tlen + j) := by
    refine List.map_congr_left fun j _ => flow.rest _ ?_
    have behind := flow.behind
    omega
  refine ⟨⟨flow.exchanged, flow.rx, ?_, flow.got, flow.rest, ?_, ?_, within, ?_, ?_, ?_⟩, pushed⟩
  · show _ = upTo orig (io.tlen + n)
    rw [pushed, List.flatMap_append, ← List.append_assoc, upTo_add, ← bytes,
      ← rxBytes_txData fits]
    exact congrArg₂ _ flow.sent (List.append_nil _)
  · intro m found
    rw [pushed, due_append] at found
    rcases List.mem_append.mp found with old | new
    · exact flow.fits m old
    · exact List.mem_singleton.mp new ▸ fits
  · show io.tlen + n = _
    have total := flow.total
    rw [pushed, due_append, List.sum_append, List.sum_singleton]
    show _ = io.rlen + ((due waiting io.tx).sum + n)
    omega
  · intro i below
    by_cases old : i < io.tlen
    · exact List.mem_append_left _ (flow.read i old)
    · refine List.mem_append_right _ (List.mem_map.mpr ⟨i - io.tlen, List.mem_range.mpr ?_, ?_⟩)
      · have : i < io.tlen + n := below
        omega
      · rw [Nat.add_sub_cancel' (Nat.le_of_not_lt old)]
  · exact inside_new flow.inside (fun _ => rfl) within
  · exact order_reads io.tlen n flow.order

theorem Flow.receive {e : Exchanged} (flow : Flow x orig done (e :: waiting) io) :
    Flow x orig (done ++ [e]) waiting (io.receive x e.n) := by
  have total := flow.total
  rw [due_cons, List.sum_cons] at total
  have head : io.rx.headD x.empty = e.back := by
    rw [flow.rx]
    rfl
  have size := rxBytes_length (flow.fits e.n List.mem_cons_self) e.back
  refine ⟨?_, ?_, flow.sent, ?_, ?_, ?_, ?_, flow.within, ?_, ?_, ?_⟩
  · rw [List.append_assoc]
    exact flow.exchanged
  · show io.rx.tail = _
    rw [flow.rx]
    rfl
  · show _ = upTo (write io.buf io.rlen (rxBytes x.dlen e.n (io.rx.headD x.empty))) (io.rlen + e.n)
    rw [List.flatMap_append, flow.got, head, List.flatMap_singleton, ← upTo_write, size]
  · intro i beyond
    have ended : io.rlen + e.n ≤ i := beyond
    show write io.buf io.rlen (rxBytes x.dlen e.n (io.rx.headD x.empty)) i = orig i
    rw [head, write_beyond (by rw [size]; exact ended)]
    exact flow.rest i (by omega)
  · exact fun n found => flow.fits n (List.mem_cons_of_mem _ found)
  · show io.tlen = io.rlen + e.n + (due waiting io.tx).sum
    omega
  · exact fun i below => List.mem_append_left _ (flow.read i below)
  · exact inside_new flow.inside (fun _ => rfl) (by have := flow.within; omega)
  · exact order_writes io.rlen e.n flow.order fun j below => flow.read _ (by omega)

theorem Flow.shift {e : Sent} {tx : List Sent} (flow : Flow x orig done waiting io)
    (front : io.tx = e :: tx) (back : Word) :
    Flow x orig done (waiting ++ [⟨e, back⟩])
      { io with tx, rx := io.rx ++ [back], exchanged := io.exchanged ++ [⟨e, back⟩] } := by
  have sent := flow.sent
  have fits := flow.fits
  have total := flow.total
  rw [front] at sent fits total
  rw [← due_shift waiting e back] at fits total
  refine ⟨?_, ?_, ?_, flow.got, flow.rest, fits, total, flow.within, flow.read, flow.inside,
    flow.order⟩
  · rw [flow.exchanged, List.append_assoc]
  · rw [flow.rx, List.map_append, List.map_singleton]
  · rw [List.flatMap_append, List.append_assoc, List.flatMap_singleton]
    rw [List.flatMap_cons] at sent
    exact sent

/-! ## A burst -/

variable (x) in
/-- The words waited for are full ones behind the short word of the burst. What is left to fill is
full words too. -/
structure Burst (orig : Nat → Byte) (done waiting : List Exchanged) (d : Dev) : Prop
    extends Flow x orig done waiting d.toIo where
  widths : ∃ k, due waiting d.tx =
    (if d.lsbAdjust = 0 then [] else [d.lsbAdjust]) ++ List.replicate k 4
  level : d.brlen + d.tlen = d.btlen + d.rlen
  left : ∃ k, d.bxlen = d.btlen + 4 * k
  ends : d.tlen + d.bxlen ≤ x.xlen + d.btlen
  fifo : d.tx.length ≤ MX51_CSPI_FIFO_SIZE
  word : Fits x.dlen 4
  quiet : d.pulses = 0

variable {d t : Dev}

theorem Burst.fill (busy : Burst x orig done waiting d) (more : d.btlen < d.bxlen)
    (room : d.tx.length < MX51_CSPI_FIFO_SIZE) :
    Burst x orig done waiting { d with toIo := d.toIo.send x 4, btlen := d.btlen + 4 } ∧
      (d.toIo.send x 4).tx.length = d.tx.length + 1 := by
  obtain ⟨k, widths⟩ := busy.widths
  obtain ⟨left, toFill⟩ := busy.left
  have ends := busy.ends
  have level := busy.level
  obtain ⟨flow, pushed⟩ := busy.toFlow.send room busy.word (by omega)
  have longer : (d.toIo.send x 4).tx.length = d.tx.length + 1 := by
    rw [pushed, List.length_append, List.length_singleton]
  refine ⟨⟨flow, ⟨k + 1, ?_⟩, ?_, ⟨left - 1, ?_⟩, ?_, ?_, busy.word, busy.quiet⟩, longer⟩
  · show due waiting (d.toIo.send x 4).tx = _
    rw [pushed, due_append, widths, List.append_assoc, ← List.replicate_succ']
  · show d.brlen + (d.tlen + 4) = d.btlen + 4 + d.rlen
    omega
  · show d.bxlen = d.btlen + 4 + 4 * (left - 1)
    omega
  · show d.tlen + 4 + d.bxlen ≤ x.xlen + (d.btlen + 4)
    omega
  · exact longer ▸ room

theorem Burst.refill {count : Nat} {d : Dev} (busy : Burst x orig done waiting d)
    (room : d.tx.length + count ≤ MX51_CSPI_FIFO_SIZE) :
    Burst x orig done waiting (Ecspi.refill x count d) := by
  induction count generalizing d with
  | zero => exact busy
  | succ count next =>
    unfold Ecspi.refill
    split
    case isTrue more =>
      obtain ⟨busy', longer⟩ := busy.fill more (by omega)
      refine next busy' ?_
      show (d.toIo.send x 4).tx.length + count ≤ _
      omega
    case isFalse => exact busy

theorem Burst.filled {room : Nat} {d t : Dev} (busy : Burst x orig done waiting d)
    (fits : d.tx.length + room ≤ MX51_CSPI_FIFO_SIZE) (filled : Ecspi.fill x room d = some t) :
    Burst x orig done waiting t := by
  induction room generalizing d with
  | zero => exact Option.some.inj filled ▸ busy
  | succ room next =>
    unfold Ecspi.fill at filled
    split at filled
    case isTrue more =>
      split at filled
      case isTrue =>
        obtain ⟨busy', longer⟩ := busy.fill more (by omega)
        refine next busy' ?_ filled
        show (d.toIo.send x 4).tx.length + room ≤ _
        omega
      case isFalse => cases filled
    case isFalse => exact Option.some.inj filled ▸ busy

theorem Burst.first {e : Exchanged} (busy : Burst x orig done (e :: waiting) d)
    (adjust : d.lsbAdjust ≠ 0) :
    Burst x orig (done ++ [e]) waiting { d with
      toIo := d.toIo.receive x d.lsbAdjust
      brlen := d.brlen + d.lsbAdjust
      lsbAdjust := 0 } := by
  obtain ⟨k, widths⟩ := busy.widths
  rw [due_cons, if_neg adjust] at widths
  obtain ⟨width, full⟩ := List.cons.inj widths
  have level := busy.level
  refine ⟨width ▸ busy.toFlow.receive, ⟨k, full⟩, ?_, busy.left, busy.ends, busy.fifo, busy.word,
    busy.quiet⟩
  show d.brlen + d.lsbAdjust + d.tlen = d.btlen + (d.rlen + d.lsbAdjust)
  omega

theorem Burst.next {e : Exchanged} (busy : Burst x orig done (e :: waiting) d)
    (aligned : d.lsbAdjust = 0) :
    Burst x orig (done ++ [e]) waiting
      { d with toIo := d.toIo.receive x 4, brlen := d.brlen + 4 } := by
  obtain ⟨k, widths⟩ := busy.widths
  rw [due_cons, if_pos aligned, List.nil_append] at widths
  rcases k with _ | k
  · cases widths
  obtain ⟨width, full⟩ := List.cons.inj widths
  have level := busy.level
  refine ⟨width ▸ busy.toFlow.receive, ⟨k, ?_⟩, ?_, busy.left, busy.ends, busy.fifo, busy.word,
    busy.quiet⟩
  · rw [if_pos aligned, List.nil_append]
    exact full
  · show d.brlen + 4 + d.tlen = d.btlen + (d.rlen + 4)
    omega

theorem Burst.drain {fuel count : Nat} {done waiting : List Exchanged} {d : Dev}
    (busy : Burst x orig done waiting d) (aligned : d.lsbAdjust = 0)
    (known : count ≤ waiting.length) :
    ∃ done waiting, Burst x orig done waiting (Ecspi.drain x fuel count d) := by
  induction fuel generalizing count done waiting d with
  | zero => exact ⟨done, waiting, busy⟩
  | succ fuel next =>
    unfold Ecspi.drain
    split
    case isTrue more =>
      obtain ⟨count, rfl⟩ := Nat.exists_eq_succ_of_ne_zero (Int.natCast_ne_zero.mp more.1)
      rcases waiting with _ | ⟨e, waiting⟩
      · exact absurd known (Nat.not_succ_le_zero count)
      rw [Int.natCast_succ, Int.add_sub_cancel]
      exact next (busy.next aligned) aligned (Nat.le_of_succ_le_succ known)
    case isFalse => exact ⟨done, waiting, busy⟩

theorem Burst.empty {count : Nat} (busy : Burst x orig done waiting d)
    (known : count ≤ waiting.length) (fresh : d.lsbAdjust ≠ 0 → 0 < count) :
    ∃ done waiting, Burst x orig done waiting (emptyBurst x count d) := by
  unfold emptyBurst
  split
  case isTrue adjust =>
    obtain ⟨count, rfl⟩ := Nat.exists_eq_succ_of_ne_zero (Nat.ne_of_gt (fresh adjust))
    rcases waiting with _ | ⟨e, waiting⟩
    · exact absurd known (Nat.not_succ_le_zero count)
    rw [Int.natCast_succ, Int.add_sub_cancel]
    exact (busy.first adjust).drain rfl (Nat.le_of_succ_le_succ known)
  case isFalse aligned => exact busy.drain (not_not.mp aligned) known

variable (x) in
/-- All that was sent has been read, and the pulse is sent. -/
structure Ended (orig : Nat → Byte) (d : Dev) : Prop where
  flow : ∃ done, Flow x orig done [] d.toIo
  sent : d.tx = []
  disabled : d.enabled = false
  pulse : d.pulses = 1
  whole : x.burst = false → ∀ u ∈ x.unit, u ∣ x.xlen - d.tlen

theorem Burst.end (busy : Burst x orig done waiting d) (bursts : x.burst = true)
    (ended : d.brlen ≥ d.bxlen ∨ d.rlen ≥ x.xlen) : Ended x orig d.spievent := by
  obtain ⟨left, toFill⟩ := busy.left
  have level := busy.level
  have within := busy.within
  obtain ⟨rfl, empty⟩ := busy.toFlow.settled (by omega)
  refine ⟨⟨done, busy.toFlow⟩, empty, rfl, congrArg (· + 1) busy.quiet, ?_⟩
  intro words
  rw [bursts] at words
  cases words

theorem Burst.intr {count : Nat} (busy : Burst x orig done waiting d) (bursts : x.burst = true)
    (known : count ≤ waiting.length) (fresh : d.lsbAdjust ≠ 0 → 0 < count) :
    (∃ done waiting, Burst x orig done waiting (intrBurst x count d)) ∨
      Ended x orig (intrBurst x count d) := by
  obtain ⟨done, waiting, busy⟩ := busy.empty known fresh
  have filled := busy.refill (Nat.le_of_eq (Nat.add_sub_cancel' busy.fifo))
  simp only [intrBurst]
  split
  case isTrue ended => exact .inr (filled.end bursts ended)
  case isFalse => exact .inl ⟨done, waiting, filled⟩

/-! ## Words without bursts -/

variable (x) in
/-- Each word waited for has the bytes of one, and so do all that are left. -/
structure Words (orig : Nat → Byte) (done waiting : List Exchanged) (d : Dev) : Prop
    extends Flow x orig done waiting d.toIo where
  unit : ∀ n ∈ due waiting d.tx, x.unit = some n
  whole : ∀ u ∈ x.unit, u ∣ x.xlen - d.tlen
  fifo : d.tx.length + waiting.length ≤ MX51_CSPI_FIFO_SIZE
  quiet : d.pulses = 0

theorem Xchg.fits {n : Nat} (unit : x.unit = some n) : Fits x.dlen n := by
  unfold Xchg.unit at unit
  split at unit
  case h_1 one => exact .inl ⟨one, Or.inl (Option.some.inj unit).symm⟩
  case h_2 two => exact .inr (.inl ⟨two, Or.inl (Option.some.inj unit).symm⟩)
  case h_3 three => exact .inr (.inr ⟨.inl three, (Option.some.inj unit).symm⟩)
  case h_4 four => exact .inr (.inr ⟨.inr four, (Option.some.inj unit).symm⟩)
  case h_5 => cases unit

theorem Words.send (busy : Words x orig done waiting d) {n : Nat} (unit : x.unit = some n)
    (more : d.tlen < x.xlen) (room : d.tx.length + waiting.length < MX51_CSPI_FIFO_SIZE) :
    Words x orig done waiting { d with toIo := d.toIo.send x n } ∧
      (d.toIo.send x n).tx.length = d.tx.length + 1 := by
  obtain ⟨k, whole⟩ := busy.whole n unit
  have pos : 0 < k := Nat.pos_of_ne_zero fun none => by subst none; omega
  obtain ⟨k, rfl⟩ := Nat.exists_eq_succ_of_ne_zero (Nat.ne_of_gt pos)
  rw [Nat.mul_succ] at whole
  obtain ⟨flow, pushed⟩ := busy.toFlow.send (by unfold MX51_CSPI_FIFO_SIZE at room; omega)
    (Xchg.fits unit) (by omega)
  have longer : (d.toIo.send x n).tx.length = d.tx.length + 1 := by
    rw [pushed, List.length_append, List.length_singleton]
  refine ⟨⟨flow, ?_, ?_, ?_, busy.quiet⟩, longer⟩
  · intro m found
    replace found : m ∈ due waiting (d.toIo.send x n).tx := found
    rw [pushed, due_append] at found
    rcases List.mem_append.mp found with old | new
    · exact busy.unit m old
    · exact List.mem_singleton.mp new ▸ unit
  · intro u same
    obtain rfl : n = u := Option.some.inj (unit.symm.trans same)
    refine ⟨k, ?_⟩
    show x.xlen - (d.tlen + n) = n * k
    omega
  · show (d.toIo.send x n).tx.length + waiting.length ≤ _
    omega

theorem Words.filled {room : Nat} {d : Dev} (busy : Words x orig done waiting d)
    (fits : d.tx.length + waiting.length + room ≤ MX51_CSPI_FIFO_SIZE) :
    Words x orig done waiting (fillWords x room d) := by
  induction room generalizing d with
  | zero => exact busy
  | succ room next =>
    unfold fillWords
    split
    case isTrue => exact busy
    case isFalse more =>
      split
      case h_1 => exact next busy (by omega)
      case h_2 n unit =>
        obtain ⟨busy', longer⟩ := busy.send unit (Nat.lt_of_not_le more) (by omega)
        refine next busy' ?_
        show (d.toIo.send x n).tx.length + waiting.length + room ≤ _
        omega

theorem Words.receive {e : Exchanged} (busy : Words x orig done (e :: waiting) d) :
    Words x orig (done ++ [e]) waiting { d with toIo := d.toIo.receive x e.n } := by
  refine ⟨busy.toFlow.receive, fun n found => ?_, busy.whole, ?_, busy.quiet⟩
  · exact busy.unit n (List.mem_cons_of_mem _ found)
  · have fifo := busy.fifo
    rw [List.length_cons] at fifo
    show d.tx.length + waiting.length ≤ _
    omega

theorem Words.swap {count : Nat} {done waiting : List Exchanged} {d : Dev}
    (busy : Words x orig done waiting d) (known : count ≤ waiting.length) :
    ∃ done waiting, Words x orig done waiting (Ecspi.swap x count d) := by
  induction count generalizing done waiting d with
  | zero => exact ⟨done, waiting, busy⟩
  | succ count next =>
    rcases waiting with _ | ⟨e, waiting⟩
    · exact absurd known (Nat.not_succ_le_zero count)
    have unit := busy.unit e.n List.mem_cons_self
    have known' := Nat.le_of_succ_le_succ known
    have fifo := busy.fifo
    rw [List.length_cons] at fifo
    simp only [Ecspi.swap, unit]
    split
    case isTrue more =>
      exact next (busy.receive.send unit more (Nat.lt_of_lt_of_le (Nat.lt_succ_self _) fifo)).1
        known'
    case isFalse => exact next busy.receive known'

theorem Words.intr {count : Nat} (busy : Words x orig done waiting d)
    (known : count ≤ waiting.length) :
    (∃ done waiting, Words x orig done waiting (intrWords x count d)) ∨
      Ended x orig (intrWords x count d) := by
  obtain ⟨done, waiting, busy⟩ := busy.swap known
  simp only [intrWords]
  split
  case isTrue ended =>
    have within := busy.within
    obtain ⟨rfl, empty⟩ := busy.toFlow.settled (Nat.le_trans within ended)
    exact .inr ⟨⟨done, busy.toFlow⟩, empty, rfl, congrArg (· + 1) busy.quiet, fun _ => busy.whole⟩
  case isFalse => exact .inl ⟨done, waiting, busy⟩

/-! ## Any order of the interrupts -/

variable (x) in
/-- A transfer is in a burst, in words without one, or ended. -/
def Going (orig : Nat → Byte) (d : Dev) : Prop :=
  (x.burst = true ∧ ∃ done waiting, Burst x orig done waiting d) ∨
    (x.burst = false ∧ ∃ done waiting, Words x orig done waiting d) ∨ Ended x orig d

variable (x) in
/-- Between two bursts all that was sent has been read. -/
structure Ready (orig : Nat → Byte) (d : Dev) : Prop where
  flow : ∃ done, Flow x orig done [] d.toIo
  sent : d.tx = []
  quiet : d.pulses = 0
  whole : x.burst = false → ∀ u ∈ x.unit, u ∣ x.xlen - d.tlen

theorem fill_supported (room : Nat) (filled : fill x (room + 1) d = some t)
    (more : d.btlen < d.bxlen) : x.supported = true := by
  unfold fill at filled
  rw [if_pos more] at filled
  split at filled
  case isTrue supported => exact supported
  case isFalse => cases filled

theorem Xchg.fits_supported (supported : x.supported = true) : Fits x.dlen 4 := by
  unfold Xchg.supported at supported
  unfold Fits
  simp only [Bool.or_eq_true, decide_eq_true_eq] at supported
  omega

theorem Xchg.fits_adjusts {n : Nat} (adjusts : x.adjusts n = true) (short : n < 4) (some : n ≠ 0) :
    Fits x.dlen n ∧ Fits x.dlen 4 := by
  unfold Xchg.adjusts at adjusts
  unfold Fits
  simp only [Bool.or_eq_true, Bool.and_eq_true, decide_eq_true_eq] at adjusts
  omega

theorem Ready.aligned (ready : Ready x orig d) {n : Nat} (whole : 4 ∣ n) (pos : 0 < n)
    (ends : d.tlen + n ≤ x.xlen)
    (filled : fill x MX51_CSPI_FIFO_SIZE
      { d with brlen := 0, btlen := 0, bxlen := n, lsbAdjust := 0 } = some t) :
    ∃ done waiting, Burst x orig done waiting t := by
  obtain ⟨done, flow⟩ := ready.flow
  have total := flow.total
  rw [ready.sent] at total
  have word := Xchg.fits_supported (fill_supported 63 filled pos)
  obtain ⟨k, whole⟩ := whole
  have start : Burst x orig done []
      { d with brlen := 0, btlen := 0, bxlen := n, lsbAdjust := 0 } := by
    refine ⟨flow, ⟨0, ?_⟩, ?_, ⟨k, ?_⟩, ends, ?_, word, ready.quiet⟩
    · show due [] d.tx = _
      rw [ready.sent]
      rfl
    · show 0 + d.tlen = 0 + d.rlen
      simp only [due, List.map_nil, List.append_nil, List.sum_nil] at total
      omega
    · exact whole.trans (Nat.zero_add _).symm
    · show d.tx.length ≤ _
      rw [ready.sent]
      exact Nat.zero_le _
  refine ⟨done, [], start.filled ?_ filled⟩
  show d.tx.length + _ ≤ _
  rw [ready.sent]
  exact Nat.le_of_eq (Nat.zero_add _)

theorem Ready.short (ready : Ready x orig d) {n m : Nat} (rest : m = n % 4) (some' : m ≠ 0)
    (ends : d.tlen + n ≤ x.xlen) (adjusts : x.adjusts m = true)
    (filled : fill x (MX51_CSPI_FIFO_SIZE - 1)
      { d with toIo := d.toIo.send x m, brlen := 0, btlen := m, bxlen := n, lsbAdjust := m } =
        some t) :
    ∃ done waiting, Burst x orig done waiting t := by
  obtain ⟨done, flow⟩ := ready.flow
  have total := flow.total
  rw [ready.sent] at total
  simp only [due, List.map_nil, List.append_nil, List.sum_nil] at total
  obtain ⟨fits, word⟩ := Xchg.fits_adjusts adjusts (by omega) some'
  obtain ⟨flow', pushed⟩ := flow.send (by rw [ready.sent]; decide) fits (by omega)
  rw [ready.sent, List.nil_append] at pushed
  have start : Burst x orig done []
      { d with toIo := d.toIo.send x m, brlen := 0, btlen := m, bxlen := n, lsbAdjust := m } := by
    refine ⟨flow', ⟨0, ?_⟩, ?_, ⟨n / 4, ?_⟩, ?_, ?_, word, ready.quiet⟩
    · show due [] (d.toIo.send x m).tx = _
      rw [pushed, if_neg some']
      rfl
    · show 0 + (d.tlen + m) = m + d.rlen
      omega
    · show n = m + 4 * (n / 4)
      omega
    · show d.tlen + m + n ≤ x.xlen + m
      omega
    · show (d.toIo.send x m).tx.length ≤ _
      rw [pushed]
      exact (by decide : 1 ≤ MX51_CSPI_FIFO_SIZE)
  refine ⟨done, [], start.filled ?_ filled⟩
  show (d.toIo.send x m).tx.length + _ ≤ _
  rw [pushed]
  exact (by decide : 1 + (MX51_CSPI_FIFO_SIZE - 1) ≤ MX51_CSPI_FIFO_SIZE)

theorem Ready.start (ready : Ready x orig d) (more : d.rlen < x.xlen ∧ d.tlen < x.xlen)
    (started : startBurst x d = some t) : Going x orig t := by
  simp only [startBurst] at started
  obtain ⟨u, filled, rfl⟩ := Option.map_eq_some_iff.mp started
  split at filled
  case isTrue bursts =>
    refine .inl ⟨bursts, ?_⟩
    suffices ∃ done waiting, Burst x orig done waiting u by
      obtain ⟨done, waiting, busy⟩ := this
      exact ⟨done, waiting, busy.toFlow, busy.widths, busy.level, busy.left, busy.ends, busy.fifo,
        busy.word, busy.quiet⟩
    split at filled
    case isTrue large =>
      have : d.tlen + MX51_CSPI_BURST_MAX ≤ x.xlen := by
        have : MX51_CSPI_BURST_MAX ≤ x.xlen - d.tlen := large
        omega
      exact ready.aligned (by decide) (by decide) this filled
    case isFalse =>
      split at filled
      case isTrue whole =>
        replace whole : (x.xlen - d.tlen) % 4 = 0 := whole
        refine ready.aligned (Nat.dvd_of_mod_eq_zero whole) (by omega) (by omega) ?_
        rw [← filled, whole]
      case isFalse some' =>
        split at filled
        case isTrue adjusts => exact ready.short rfl some' (by omega) adjusts filled
        case isFalse => cases filled
  case isFalse words =>
    replace words := Bool.eq_false_iff.mpr words
    refine .inr (.inl ⟨words, ?_⟩)
    obtain ⟨done, flow⟩ := ready.flow
    have start : Words x orig done [] { d with brlen := 0, btlen := 0 } := by
      refine ⟨flow, fun n found => ?_, ready.whole words, ?_, ready.quiet⟩
      · replace found : n ∈ due [] d.tx := found
        rw [ready.sent] at found
        cases found
      · show d.tx.length + 0 ≤ _
        rw [ready.sent]
        exact Nat.zero_le _
    have fits : d.tx.length + 0 + MX51_CSPI_FIFO_SIZE ≤ MX51_CSPI_FIFO_SIZE := by
      rw [ready.sent]
      exact Nat.le_of_eq (Nat.zero_add _)
    have filled' := start.filled fits
    rw [Option.some.inj filled] at filled'
    exact ⟨done, [], filled'.toFlow, filled'.unit, filled'.whole, filled'.fifo, filled'.quiet⟩

theorem Going.next {e : Event} (going : Going x orig d) (fresh : Fresh d e)
    (next : d.next x e = some t) : Going x orig t := by
  cases e with
  | shift back =>
    rcases front : d.tx with _ | ⟨e, tx⟩
    · simp only [Dev.next, front, reduceCtorEq] at next
    simp only [Dev.next, front] at next
    split at next
    case isFalse => cases next
    case isTrue room =>
    obtain rfl := Option.some.inj next
    rcases going with ⟨bursts, done, waiting, busy⟩ | ⟨words, done, waiting, busy⟩ | ended
    · obtain ⟨k, widths⟩ := busy.widths
      have fifo := busy.fifo
      rw [front] at widths fifo
      refine .inl ⟨bursts, done, waiting ++ [⟨e, back⟩], busy.toFlow.shift front back, ⟨k, ?_⟩,
        busy.level, busy.left, busy.ends, Nat.le_of_succ_le fifo, busy.word, busy.quiet⟩
      exact (due_shift waiting e back tx).trans widths
    · have unit := busy.unit
      have fifo := busy.fifo
      rw [front] at unit fifo
      refine .inr (.inl ⟨words, done, waiting ++ [⟨e, back⟩], busy.toFlow.shift front back, ?_,
        busy.whole, ?_, busy.quiet⟩)
      · exact (due_shift waiting e back tx).symm ▸ unit
      · rw [List.length_cons] at fifo
        rw [List.length_append, List.length_singleton]
        show tx.length + (waiting.length + 1) ≤ _
        omega
    · rw [ended.sent] at front
      cases front
  | intr status =>
    simp only [Dev.next] at next
    split at next
    case isFalse => cases next
    case isTrue enabled =>
    obtain rfl := Option.some.inj next
    obtain ⟨known, first⟩ := fresh
    have some' : d.lsbAdjust ≠ 0 → 0 < d.rx.length := fun adjust =>
      List.length_pos_iff.mpr (first adjust)
    rcases going with ⟨bursts, done, waiting, busy⟩ | ⟨words, done, waiting, busy⟩ | ended
    · have size : d.rx.length = waiting.length := by rw [busy.rx, List.length_map]
      have step (count : Nat) (fits : count ≤ waiting.length)
          (first : d.lsbAdjust ≠ 0 → 0 < count) :
          Going x orig (intrBurst x count d) := by
        rcases busy.intr bursts fits first with busy | ended
        · exact .inl ⟨bursts, busy⟩
        · exact .inr (.inr ended)
      cases status with
      | tc =>
        simp only [spiIntr, bursts]
        exact step _ (Nat.le_of_eq size) some'
      | rdr =>
        simp only [spiIntr, bursts]
        exact step _ (size ▸ Nat.min_le_left _ _) fun adjust =>
          Nat.lt_min.mpr ⟨some' adjust, by decide⟩
      | other => exact absurd rfl known
    · have size : d.rx.length = waiting.length := by rw [busy.rx, List.length_map]
      have step (count : Nat) (fits : count ≤ waiting.length) :
          Going x orig (intrWords x count d) := by
        rcases busy.intr fits with busy | ended
        · exact .inr (.inl ⟨words, busy⟩)
        · exact .inr (.inr ended)
      cases status with
      | tc =>
        simp only [spiIntr, words]
        exact step _ (Nat.le_of_eq size)
      | rdr =>
        simp only [spiIntr, words]
        exact step _ (size ▸ Nat.min_le_left _ _)
      | other => exact absurd rfl known
    · rw [ended.disabled] at enabled
      cases enabled

theorem Going.pulse {n : Nat} (going : Going x orig d) (pulse : d.pulses = n + 1) :
    Ready x orig { d with pulses := n } := by
  rcases going with ⟨_, done, waiting, busy⟩ | ⟨_, done, waiting, busy⟩ | ended
  · rw [busy.quiet] at pulse
    cases pulse
  · rw [busy.quiet] at pulse
    cases pulse
  · exact ⟨ended.flow, ended.sent, (Nat.succ.inj (ended.pulse.symm.trans pulse)).symm, ended.whole⟩

theorem Ready.transfer {v : Dev} (ready : Ready x orig d) (transfer : Transfer x Fresh d v) :
    Ready x orig v ∧ ¬(v.rlen < x.xlen ∧ v.tlen < x.xlen) := by
  induction transfer with
  | done ended => exact ⟨ready, ended⟩
  | burst more started run pulse _ next =>
    have going := run.invariant (I := Going x orig)
      (fun going step => going.next step.2 step.1) (ready.start more started)
    exact next (going.pulse pulse)

theorem Ready.right {v : Dev} (ready : Ready x orig v)
    (ended : ¬(v.rlen < x.xlen ∧ v.tlen < x.xlen)) : Right x orig v := by
  obtain ⟨done, flow⟩ := ready.flow
  have total := flow.total
  rw [ready.sent] at total
  simp only [due, List.map_nil, List.append_nil, List.sum_nil] at total
  have within := flow.within
  have all : v.rlen = x.xlen := by omega
  have sent := flow.sent
  rw [ready.sent, List.flatMap_nil, List.append_nil, total, all] at sent
  refine ⟨all, sent, ?_, flow.inside, flow.order⟩
  rw [flow.exchanged, List.append_nil, flow.got, all]

theorem xfer_ready (accepted : xfer x orig [] 0 = some d)
    (whole : x.burst = true ∨ ∀ u ∈ x.unit, u ∣ x.xlen) : Ready x orig d := by
  unfold xfer at accepted
  split at accepted
  case isTrue => cases accepted
  case isFalse =>
  obtain rfl := Option.some.inj accepted
  refine ⟨⟨[], rfl, rfl, rfl, rfl, fun i _ => rfl, ?_, rfl, Nat.zero_le _, ?_, ?_, ?_⟩, rfl, rfl,
    ?_⟩
  · intro n found
    cases found
  · intro i below
    cases below
  · intro a found
    cases found
  · intro before i after split
    cases before <;> cases split
  · intro words u unit
    rcases whole with bursts | whole
    · rw [words] at bursts
      cases bursts
    · exact whole u unit

/-! ### Words and the length -/

theorem fillWords_rlen (room : Nat) (d : Dev) : (fillWords x room d).rlen = d.rlen := by
  induction room generalizing d with
  | zero => rfl
  | succ room next =>
    unfold fillWords
    split
    case isTrue => rfl
    case isFalse =>
      split
      case h_1 => exact next d
      case h_2 n _ => exact next { d with toIo := d.toIo.send x n }

theorem swap_rlen {n : Nat} (unit : x.unit = some n) (count : Nat) (d : Dev) :
    (swap x count d).rlen = d.rlen + count * n := by
  induction count generalizing d with
  | zero => rw [Nat.zero_mul]; rfl
  | succ count next =>
    have one : (swap x (count + 1) d).rlen = (d.toIo.receive x n).rlen + count * n := by
      simp only [swap, unit]
      rw [next]
      split <;> rfl
    rw [one, Nat.succ_mul]
    show d.rlen + n + _ = _
    omega

theorem words_next {n : Nat} (words : x.burst = false) (unit : x.unit = some n) {e : Event}
    (whole : n ∣ d.rlen) (next : d.next x e = some t) : n ∣ t.rlen := by
  cases e with
  | shift back =>
    rcases front : d.tx with _ | ⟨e, tx⟩
    · simp only [Dev.next, front, reduceCtorEq] at next
    · simp only [Dev.next, front] at next
      obtain ⟨_, same⟩ := Option.ite_none_right_eq_some.mp next
      obtain rfl := Option.some.inj same
      exact whole
  | intr status =>
    obtain ⟨_, same⟩ := Option.ite_none_right_eq_some.mp next
    obtain rfl := Option.some.inj same
    have step (count : Nat) : n ∣ (intrWords x count d).rlen := by
      have swapped : n ∣ (swap x count d).rlen :=
        swap_rlen unit count d ▸ Nat.dvd_add whole (Nat.dvd_mul_left n count)
      simp only [intrWords]
      split <;> exact swapped
    cases status with
    | tc =>
      simp only [spiIntr, words]
      exact step _
    | rdr =>
      simp only [spiIntr, words]
      exact step _
    | other => exact whole

theorem words_transfer {C : Dev → Event → Prop} {n : Nat} {v : Dev} (words : x.burst = false)
    (unit : x.unit = some n) (whole : n ∣ d.rlen) (transfer : Transfer x C d v) : n ∣ v.rlen := by
  induction transfer with
  | done => exact whole
  | @burst d t u v events m _ started run _ _ next =>
    have begun : t.rlen = d.rlen := by
      simp only [startBurst, words] at started
      obtain rfl := Option.some.inj started
      exact fillWords_rlen _ _
    exact next (run.invariant (I := fun d => n ∣ d.rlen)
      (fun whole step => words_next words unit whole step.1) (begun ▸ whole))

theorem Transfer.once {C : Dev → Event → Prop} [∀ d, DecidablePred (C d)] {d v : Dev}
    (events : List Event) (transferred : Ecspi.once x C events d = some v) : Transfer x C d v := by
  unfold Ecspi.once at transferred
  obtain ⟨t, started, transferred⟩ := Option.bind_eq_some_iff.mp transferred
  obtain ⟨u, ran, transferred⟩ := Option.bind_eq_some_iff.mp transferred
  split at transferred
  case isFalse => cases transferred
  case isTrue last =>
  obtain ⟨pulse, more, ended⟩ := last
  obtain rfl := Option.some.inj transferred
  exact .burst more started (Run.of_eval (fun check => of_decide_eq_true check) ran) pulse
    (.done ended)

/-- A transfer that succeeds has sent the buffer and filled it with what came back, whenever its
interrupts are taken, if it has bursts or whole words and only then: with nothing left of an earlier
transfer, and when no interrupt finds the RXFIFO empty while the short word of a burst is to be
read. -/
theorem exchange_right_iff (x : Xchg) (buf : Nat → Byte) (left : List Sent) (pulses : Nat) (v : Dev)
    (empty : left = []) (quiet : pulses = 0)
    (succeeds : ∃ d, xfer x buf left pulses = some d ∧ Transfer x Fresh d v) :
    Right x buf v ↔ x.burst = true ∨ ∀ u ∈ x.unit, u ∣ x.xlen := by
  obtain ⟨d, accepted, transfer⟩ := succeeds
  subst empty quiet
  constructor
  · intro right
    rcases words : x.burst with _ | _
    · refine .inr fun u unit => right.returned ▸ words_transfer words unit ?_ transfer
      obtain ⟨_, same⟩ := Option.ite_none_left_eq_some.mp accepted
      obtain rfl := Option.some.inj same
      exact Nat.dvd_zero u
    · exact .inl rfl
  · intro whole
    obtain ⟨last, ended⟩ := (xfer_ready accepted whole).transfer transfer
    exact last.right ended

/-- Five bytes go out and five come back, the first one on its own. -/
theorem exchange_right_five : ∃ d v : Dev,
    xfer ⟨8, true, 5, 0⟩ (BitVec.ofNat 8) [] 0 = some d ∧
    once ⟨8, true, 5, 0⟩ Fresh [.shift 0x51, .shift 0x61626364, .intr .tc] d = some v ∧
    upTo v.buf 5 = [0x51, 0x61, 0x62, 0x63, 0x64] ∧ Right ⟨8, true, 5, 0⟩ (BitVec.ofNat 8) v :=
  ⟨_, _, rfl, rfl, rfl,
    (exchange_right_iff _ _ [] 0 _ rfl rfl
      ⟨_, rfl, Transfer.once [.shift 0x51, .shift 0x61626364, .intr .tc] rfl⟩).mpr (.inl rfl)⟩

/-- Without bursts, three bytes of 16-bit words take a fourth one of the buffer. With a burst, a TC
that is pending fills all of it before anything has come back. -/
theorem exchange_broken :
    (∃ v, (∃ d, xfer ⟨16, false, 3, 0⟩ (BitVec.ofNat 8) [] 0 = some d ∧
        Transfer ⟨16, false, 3, 0⟩ Expected d v) ∧
      v.rlen = 4 ∧ .read 3 ∈ v.trace ∧ .write 3 ∈ v.trace ∧
      ¬Right ⟨16, false, 3, 0⟩ (BitVec.ofNat 8) v) ∧
    ∃ v, (∃ d, xfer ⟨8, true, 5, 0⟩ (BitVec.ofNat 8) [] 0 = some d ∧
        Transfer ⟨8, true, 5, 0⟩ Expected d v) ∧
      v.rlen = 5 ∧ v.exchanged = [] ∧ ¬Right ⟨8, true, 5, 0⟩ (BitVec.ofNat 8) v := by
  constructor
  · refine ⟨_, ⟨_, rfl, Transfer.once [.shift 0, .shift 0, .intr .tc] rfl⟩, rfl, by decide,
      by decide, fun right => ?_⟩
    exact absurd right.returned (by decide)
  · refine ⟨_, ⟨_, rfl, Transfer.once [.intr .tc] rfl⟩, rfl, rfl, fun right => ?_⟩
    exact absurd right.sent (by decide)

end Mx6xBsp.Spi.Ecspi
