import Mx6xBsp.Ipl.Checksum

/-!
# The download over the serial line

`image_download_ser` of `image_download_ser.c` waits for a start record and takes data records,
numbered modulo 128, until a go record ends the download. `imageDownloadSer_iff` tells how it ends
for every stream of bytes, and `lost_records` which lost records it does not notice. The port is one
that has been initialised; what `put_byte` is given is the output.
-/

namespace Mx6xBsp.Ipl.SerialDownload

open Checksum

def START_CMD : UInt8 := 0x80
def DATA_CMD : UInt8 := 0x81
def GO_CMD : UInt8 := 0x82
def ABORT_CMD : UInt8 := 0x88

def ABORT_SEQ : UInt8 := 2
def ABORT_PROTOCOL : UInt8 := 3

/-- `data_record_t` after its `cmd`; nothing reads `cksum` and the bytes of `daddr`. -/
structure DataRecord where
  seq : UInt8
  cksum : UInt8
  nbytes : UInt8
  daddr : UInt8 × UInt8 × UInt8 × UInt8

/-- What is still to come from the port, what has gone to it, and the memory -/
structure Port where
  input : List UInt8
  output : List UInt8
  m : Memory

/-- Nothing comes back while the port is waited for. -/
abbrev Act := StateT Port Option

def serGetchar : Act UInt8 := fun s =>
  match s.input with
  | [] => none
  | c :: rest => some (c, { s with input := rest })

def serPutchar (c : UInt8) : Act Unit := fun s =>
  some ((), { s with output := s.output ++ if c = 10 then [13, c] else [c] })

def downloadAbort (abort : UInt8) : Act Unit := do
  serPutchar ABORT_CMD
  serPutchar abort

/-- `while (ser_getchar() != START_CMD)`, for at most `fuel` bytes -/
def waitStart : Nat → Act Unit
  | 0 => fun _ => none
  | fuel + 1 => do
    let c ← serGetchar
    if c = START_CMD then return () else waitStart fuel

def readRecord : Act DataRecord := do
  let seq ← serGetchar
  let cksum ← serGetchar
  let nbytes ← serGetchar
  let d₀ ← serGetchar
  let d₁ ← serGetchar
  let d₂ ← serGetchar
  let d₃ ← serGetchar
  return ⟨seq, cksum, nbytes, d₀, d₁, d₂, d₃⟩

/-- `*dst = ser_getchar(); dst++`, `n` times -/
def readData : Nat → Addr → Act Addr
  | 0, dst => return dst
  | n + 1, dst => do
    let c ← serGetchar
    modify fun s => { s with m := Function.update s.m (memory dst) c }
    readData n (dst + 1)

/-- The loop over the records, of which it takes less than `fuel` -/
def records : Nat → UInt8 → Addr → Act Nat
  | 0, _, _ => fun _ => none
  | fuel + 1, seq, dst => do
    let cmd ← serGetchar
    if cmd = DATA_CMD then
      let record ← readRecord
      if seq = record.seq then
        let dst ← readData (record.nbytes.toNat + 1) dst
        records fuel ((seq + 1) &&& 0x7f) dst
      else
        downloadAbort ABORT_SEQ
        return 1
    else if cmd = GO_CMD then return 0
    else
      downloadAbort ABORT_PROTOCOL
      return 1

def imageDownloadSer (wait fuel : Nat) (dst : Addr) : Act Nat := do
  waitStart wait
  records fuel 0 dst

/-! ## What is sent -/

def DataRecord.wire (r : DataRecord) : List UInt8 :=
  [r.seq, r.cksum, r.nbytes, r.daddr.1, r.daddr.2.1, r.daddr.2.2.1, r.daddr.2.2.2]

/-- The data of a record, with what its header holds besides -/
structure Block where
  cksum : UInt8
  daddr : UInt8 × UInt8 × UInt8 × UInt8
  data : List UInt8
  some_ : 0 < data.length
  most : data.length ≤ 256

def Block.record (b : Block) (seq : UInt8) : DataRecord :=
  ⟨seq, b.cksum, UInt8.ofNat (b.data.length - 1), b.daddr⟩

def Block.wire (b : Block) (seq : UInt8) : List UInt8 :=
  DATA_CMD :: (b.record seq).wire ++ b.data

/-- The number of the record that comes after some -/
def seqAfter (seq : UInt8) (blocks : List Block) : UInt8 :=
  blocks.foldl (fun seq _ => (seq + 1) &&& 0x7f) seq

def wire : UInt8 → List Block → List UInt8
  | _, [] => []
  | seq, b :: blocks => b.wire seq ++ wire ((seq + 1) &&& 0x7f) blocks

def payload (blocks : List Block) : List UInt8 := blocks.flatMap Block.data

/-- Bytes stored one by one -/
def stored : Addr → List UInt8 → Memory → Memory
  | _, [], m => m
  | dst, c :: data, m => stored (dst + 1) data (Function.update m (memory dst) c)

/-- What ends the download where the record `seq` is awaited, with the result and the answer -/
inductive Last (seq : UInt8) : List UInt8 → Nat → List UInt8 → Prop
  | go : Last seq [GO_CMD] 0 []
  | protocol {cmd : UInt8} : cmd ≠ DATA_CMD → cmd ≠ GO_CMD →
    Last seq [cmd] 1 [ABORT_CMD, ABORT_PROTOCOL]
  | sequence {r : DataRecord} : seq ≠ r.seq →
    Last seq (DATA_CMD :: r.wire) 1 [ABORT_CMD, ABORT_SEQ]

/-! ## Reading -/

section Reading

variable {input output : List UInt8} {m : Memory} {t : Port}

theorem bind_iff {α β : Type} {x : Act α} {f : α → Act β} {s : Port} {r : β × Port} :
    (x >>= f) s = some r ↔ ∃ a t, x s = some (a, t) ∧ f a t = some r := by
  change (x s).bind (fun p => f p.1 p.2) = some r ↔ _
  rw [Option.bind_eq_some_iff]
  exact Prod.exists

theorem bind_eq {α β : Type} {x : Act α} {f : α → Act β} {s : Port} {a : α}
    (first : x s = some (a, t)) : (x >>= f) s = f a t := by
  change (x s).bind (fun p => f p.1 p.2) = f a t
  rw [first]
  rfl

theorem return_iff {α : Type} {a : α} {s : Port} {r : α × Port} :
    (return a : Act α) s = some r ↔ r = (a, s) := by
  change some (a, s) = some r ↔ _
  rw [Option.some_inj, eq_comm]

theorem serGetchar_iff {c : UInt8} : serGetchar ⟨input, output, m⟩ = some (c, t) ↔
    ∃ rest, input = c :: rest ∧ t = ⟨rest, output, m⟩ := by
  cases input <;> simp [serGetchar, eq_comm]

theorem downloadAbort_iff {abort : UInt8} (other : abort ≠ 10) :
    downloadAbort abort ⟨input, output, m⟩ = some ((), t) ↔
      t = ⟨input, output ++ [ABORT_CMD, abort], m⟩ := by
  have first : serPutchar ABORT_CMD ⟨input, output, m⟩ =
    some ((), ⟨input, output ++ [ABORT_CMD], m⟩) := rfl
  have both : downloadAbort abort ⟨input, output, m⟩ =
      some ((), ⟨input, output ++ [ABORT_CMD, abort], m⟩) := by
    apply bind_iff.mpr ⟨(), _, first, _⟩
    rw [serPutchar, if_neg other, List.append_assoc]
    rfl
  rw [both]
  simp [eq_comm]

theorem waitStart_iff : (∃ fuel, waitStart fuel ⟨input, output, m⟩ = some ((), t)) ↔
    ∃ noise rest, START_CMD ∉ noise ∧ input = noise ++ START_CMD :: rest ∧
      t = ⟨rest, output, m⟩ := by
  constructor
  · rintro ⟨fuel, done⟩
    induction fuel generalizing input with
    | zero => cases done
    | succ fuel ih =>
      obtain ⟨c, _, got, later⟩ := bind_iff.mp done
      obtain ⟨rest, rfl, rfl⟩ := serGetchar_iff.mp got
      split at later
      · rename_i start
        cases return_iff.mp later
        exact ⟨[], rest, List.not_mem_nil, by rw [start]; rfl, rfl⟩
      · rename_i other
        obtain ⟨noise, rest, none, rfl, rfl⟩ := ih later
        refine ⟨c :: noise, rest, ?_, rfl, rfl⟩
        simpa using ⟨Ne.symm other, none⟩
  · rintro ⟨noise, rest, none, rfl, rfl⟩
    induction noise with
    | nil =>
      refine ⟨1, bind_iff.mpr ⟨START_CMD, _, serGetchar_iff.mpr ⟨rest, rfl, rfl⟩, ?_⟩⟩
      rw [if_pos rfl]
      rfl
    | cons c noise ih =>
      rw [List.mem_cons, not_or] at none
      obtain ⟨fuel, later⟩ := ih none.2
      refine ⟨fuel + 1, bind_iff.mpr ⟨c, _, serGetchar_iff.mpr ⟨_, rfl, rfl⟩, ?_⟩⟩
      rwa [if_neg (Ne.symm none.1)]

theorem readRecord_iff {r : DataRecord} : readRecord ⟨input, output, m⟩ = some (r, t) ↔
    ∃ rest, input = r.wire ++ rest ∧ t = ⟨rest, output, m⟩ := by
  constructor
  · intro done
    simp only [readRecord, bind_iff] at done
    obtain ⟨_, _, got, _, _, got₁, _, _, got₂, _, _, got₃, _, _, got₄, _, _, got₅, _, _, got₆,
      last⟩ := done
    obtain ⟨_, rfl, rfl⟩ := serGetchar_iff.mp got
    obtain ⟨_, rfl, rfl⟩ := serGetchar_iff.mp got₁
    obtain ⟨_, rfl, rfl⟩ := serGetchar_iff.mp got₂
    obtain ⟨_, rfl, rfl⟩ := serGetchar_iff.mp got₃
    obtain ⟨_, rfl, rfl⟩ := serGetchar_iff.mp got₄
    obtain ⟨_, rfl, rfl⟩ := serGetchar_iff.mp got₅
    obtain ⟨_, rfl, rfl⟩ := serGetchar_iff.mp got₆
    cases return_iff.mp last
    exact ⟨_, rfl, rfl⟩
  · rintro ⟨rest, rfl, rfl⟩
    rfl

theorem add_next {dst : Addr} {n : Nat} :
    dst + 1 + BitVec.ofNat 32 n = dst + BitVec.ofNat 32 (n + 1) := by
  rw [BitVec.add_assoc, BitVec.ofNat_add, BitVec.add_comm 1]
  rfl

theorem readData_iff {n : Nat} {dst dst' : Addr} :
    readData n dst ⟨input, output, m⟩ = some (dst', t) ↔ ∃ data rest, data.length = n ∧
      input = data ++ rest ∧ dst' = dst + BitVec.ofNat 32 n ∧
        t = ⟨rest, output, stored dst data m⟩ := by
  induction n generalizing dst input m with
  | zero =>
    have same : dst + BitVec.ofNat 32 0 = dst := BitVec.add_zero dst
    rw [readData, return_iff, same]
    constructor
    · rintro ⟨⟩
      exact ⟨[], input, rfl, rfl, rfl, rfl⟩
    · rintro ⟨data, rest, none, rfl, rfl, rfl⟩
      cases List.length_eq_zero_iff.mp none
      rfl
  | succ n ih =>
    rw [readData, bind_iff]
    constructor
    · rintro ⟨c, _, got, later⟩
      obtain ⟨_, rfl, rfl⟩ := serGetchar_iff.mp got
      obtain ⟨data, rest, length, rfl, rfl, rfl⟩ := ih.mp later
      exact ⟨c :: data, rest, congrArg Nat.succ length, rfl, add_next, rfl⟩
    · rintro ⟨data, rest, length, rfl, rfl, rfl⟩
      cases data with
      | nil => cases length
      | cons c data =>
        refine ⟨c, _, serGetchar_iff.mpr ⟨data ++ rest, rfl, rfl⟩, ih.mpr ?_⟩
        exact ⟨data, rest, Nat.succ.inj length, rfl, add_next.symm, rfl⟩

end Reading

/-! ## The records -/

section Records

variable {input output : List UInt8} {m : Memory} {t : Port} {seq : UInt8} {dst : Addr}
  {status : Nat}

theorem stored_append {data later : List UInt8} : stored dst (data ++ later) m =
    stored (dst + BitVec.ofNat 32 data.length) later (stored dst data m) := by
  induction data generalizing dst m with
  | nil =>
    have same : dst + BitVec.ofNat 32 0 = dst := BitVec.add_zero dst
    rw [List.length_nil, same]
    rfl
  | cons c data ih =>
    rw [List.cons_append, stored, ih, add_next]
    rfl

theorem stored_cons (b : Block) (blocks : List Block) : stored dst (payload (b :: blocks)) m =
    stored (dst + BitVec.ofNat 32 b.data.length) (payload blocks) (stored dst b.data m) := by
  rw [payload, List.flatMap_cons, stored_append]
  rfl

theorem Block.length_eq (b : Block) (seq : UInt8) :
    b.data.length = (b.record seq).nbytes.toNat + 1 := by
  have some_ := b.some_
  have most := b.most
  change b.data.length = (UInt8.ofNat (b.data.length - 1)).toNat + 1
  rw [UInt8.toNat_ofNat', Nat.mod_eq_of_lt (by omega)]
  omega

theorem exists_block {r : DataRecord} {data : List UInt8}
    (length : data.length = r.nbytes.toNat + 1) :
    ∃ b : Block, b.data = data ∧ b.record r.seq = r := by
  have most : r.nbytes.toNat < 256 := r.nbytes.toNat_lt
  refine ⟨⟨r.cksum, r.daddr, data, by omega, by omega⟩, rfl, ?_⟩
  have nbytes : UInt8.ofNat (data.length - 1) = r.nbytes := by
    rw [length, Nat.add_sub_cancel, UInt8.ofNat_toNat]
  rw [Block.record, nbytes]

theorem records_block (b : Block) (fuel : Nat) (rest : List UInt8) :
    records (fuel + 1) seq dst ⟨b.wire seq ++ rest, output, m⟩ =
      records fuel ((seq + 1) &&& 0x7f) (dst + BitVec.ofNat 32 b.data.length)
        ⟨rest, output, stored dst b.data m⟩ := by
  have wired : b.wire seq ++ rest = DATA_CMD :: ((b.record seq).wire ++ (b.data ++ rest)) := by
    simp [Block.wire]
  rw [wired, records, bind_eq (serGetchar_iff.mpr ⟨_, rfl, rfl⟩), if_pos rfl,
    bind_eq (readRecord_iff.mpr ⟨_, rfl, rfl⟩), if_pos (show seq = (b.record seq).seq from rfl)]
  exact bind_eq (readData_iff.mpr ⟨b.data, rest, b.length_eq seq, rfl, by rw [b.length_eq seq], rfl⟩)

theorem records_last {last told rest : List UInt8} (ends : Last seq last status told) :
    records 1 seq dst ⟨last ++ rest, output, m⟩ = some (status, ⟨rest, output ++ told, m⟩) := by
  cases ends with
  | go =>
    rw [List.append_nil]
    rfl
  | protocol data go =>
    rw [records, List.singleton_append, bind_eq (serGetchar_iff.mpr ⟨_, rfl, rfl⟩), if_neg data, if_neg go,
      bind_eq ((downloadAbort_iff (by decide)).mpr rfl)]
    rfl
  | sequence other =>
    rw [records, List.cons_append, bind_eq (serGetchar_iff.mpr ⟨_, rfl, rfl⟩), if_pos rfl,
      bind_eq (readRecord_iff.mpr ⟨_, rfl, rfl⟩), if_neg other,
      bind_eq ((downloadAbort_iff (by decide)).mpr rfl)]
    rfl

/-- The loop takes records for as long as their numbers are right, and ends at what comes then. -/
theorem records_iff : (∃ fuel, records fuel seq dst ⟨input, output, m⟩ = some (status, t)) ↔
    ∃ blocks last told rest, input = wire seq blocks ++ (last ++ rest) ∧
      Last (seqAfter seq blocks) last status told ∧
        t = ⟨rest, output ++ told, stored dst (payload blocks) m⟩ := by
  constructor
  · rintro ⟨fuel, done⟩
    induction fuel generalizing input m seq dst with
    | zero => cases done
    | succ fuel ih =>
      obtain ⟨cmd, _, got, later⟩ := bind_iff.mp done
      obtain ⟨_, rfl, rfl⟩ := serGetchar_iff.mp got
      split at later
      · rename_i data
        obtain ⟨r, _, read, later⟩ := bind_iff.mp later
        obtain ⟨_, rfl, rfl⟩ := readRecord_iff.mp read
        split at later
        · rename_i same
          obtain ⟨_, _, read, later⟩ := bind_iff.mp later
          obtain ⟨data', _, length, rfl, rfl, rfl⟩ := readData_iff.mp read
          obtain ⟨blocks, last, told, rest, rfl, ends, rfl⟩ := ih later
          obtain ⟨b, rfl, record⟩ := exists_block length
          refine ⟨b :: blocks, last, told, rest, ?_, ends, ?_⟩
          · simp [wire, Block.wire, same, record, data]
          · rw [stored_cons, length]
        · rename_i other
          obtain ⟨_, _, told, later⟩ := bind_iff.mp later
          cases (downloadAbort_iff (by decide)).mp told
          cases return_iff.mp later
          exact ⟨[], DATA_CMD :: r.wire, _, _, by rw [data]; rfl, .sequence other, rfl⟩
      · rename_i data
        split at later
        · rename_i go
          cases return_iff.mp later
          refine ⟨[], [GO_CMD], [], _, by rw [go]; rfl, .go, ?_⟩
          rw [List.append_nil]
          rfl
        · rename_i go
          obtain ⟨_, _, told, later⟩ := bind_iff.mp later
          cases (downloadAbort_iff (by decide)).mp told
          cases return_iff.mp later
          exact ⟨[], [cmd], _, _, rfl, .protocol data go, rfl⟩
  · rintro ⟨blocks, last, told, rest, rfl, ends, rfl⟩
    induction blocks generalizing m seq dst with
    | nil => exact ⟨1, records_last ends⟩
    | cons b blocks ih =>
      obtain ⟨fuel, later⟩ := ih ends
      refine ⟨fuel + 1, ?_⟩
      rw [wire, List.append_assoc, records_block, later, stored_cons]

/-- The download returns for exactly those streams that have a start record, then records numbered
from zero, then what ends it; it has stored the data of these records and nothing else. -/
theorem imageDownloadSer_iff (input output : List UInt8) (m : Memory) (dst : Addr) (status : Nat)
    (t : Port) :
    (∃ wait fuel, imageDownloadSer wait fuel dst ⟨input, output, m⟩ = some (status, t)) ↔
      ∃ noise blocks last told rest, START_CMD ∉ noise ∧
        input = noise ++ START_CMD :: (wire 0 blocks ++ (last ++ rest)) ∧
        Last (seqAfter 0 blocks) last status told ∧
        t = ⟨rest, output ++ told, stored dst (payload blocks) m⟩ := by
  constructor
  · rintro ⟨wait, fuel, done⟩
    obtain ⟨_, _, start, later⟩ := bind_iff.mp done
    obtain ⟨noise, _, none, rfl, rfl⟩ := waitStart_iff.mp ⟨wait, start⟩
    obtain ⟨blocks, last, told, rest, rfl, ends, same⟩ := records_iff.mp ⟨fuel, later⟩
    exact ⟨noise, blocks, last, told, rest, none, rfl, ends, same⟩
  · rintro ⟨noise, blocks, last, told, rest, none, rfl, ends, same⟩
    obtain ⟨wait, start⟩ := waitStart_iff.mpr ⟨noise, _, none, rfl, rfl⟩
    obtain ⟨fuel, later⟩ := records_iff.mpr ⟨blocks, last, told, rest, rfl, ends, same⟩
    exact ⟨wait, fuel, (bind_eq start).trans later⟩

/-! ## Lost records -/

theorem seqAfter_toNat (blocks : List Block) (low : seq.toNat < 128) :
    (seqAfter seq blocks).toNat = (seq.toNat + blocks.length) % 128 := by
  induction blocks generalizing seq with
  | nil => exact (Nat.mod_eq_of_lt low).symm
  | cons b blocks ih =>
    have next : ((seq + 1) &&& 0x7f).toNat = (seq.toNat + 1) % 128 := by
      rw [UInt8.toNat_and, UInt8.toNat_add]
      change (seq.toNat + 1) % 256 &&& 2 ^ 7 - 1 = _
      rw [Nat.and_two_pow_sub_one_eq_mod]
      omega
    have later := @ih ((seq + 1) &&& 0x7f) (by omega)
    rw [next, Nat.mod_add_mod] at later
    rw [List.length_cons, Nat.add_comm blocks.length, ← Nat.add_assoc]
    exact later

theorem wire_append {kept later : List Block} :
    wire seq (kept ++ later) = wire seq kept ++ wire (seqAfter seq kept) later := by
  induction kept generalizing seq with
  | nil => rfl
  | cons b kept ih =>
    rw [List.cons_append, wire, ih, wire, List.append_assoc]
    rfl

/-- Records that get lost before some other are noticed, and nothing behind them is stored, unless
their number is a multiple of 128; then the data that come later are stored in their place. -/
theorem lost_records (kept lost later : List Block) (b : Block) (output : List UInt8) (m : Memory)
    (dst : Addr) :
    let input := START_CMD ::
      (wire 0 kept ++ (wire (seqAfter 0 (kept ++ lost)) (b :: later) ++ [GO_CMD]))
    (128 ∣ lost.length → ∃ wait fuel, imageDownloadSer wait fuel dst ⟨input, output, m⟩ =
      some (0, ⟨[], output, stored dst (payload (kept ++ b :: later)) m⟩)) ∧
    (¬128 ∣ lost.length → ∃ wait fuel rest, imageDownloadSer wait fuel dst ⟨input, output, m⟩ =
      some (1, ⟨rest, output ++ [ABORT_CMD, ABORT_SEQ], stored dst (payload kept) m⟩)) := by
  intro input
  have start : waitStart 1 ⟨input, output, m⟩ = some ((), ⟨input.tail, output, m⟩) := rfl
  have known : (seqAfter 0 kept).toNat = _ := seqAfter_toNat kept (by decide)
  have sent : (seqAfter 0 (kept ++ lost)).toNat = _ := seqAfter_toNat (kept ++ lost) (by decide)
  rw [List.length_append] at sent
  have zero : (0 : UInt8).toNat = 0 := rfl
  constructor
  · intro whole
    have same : seqAfter 0 (kept ++ lost) = seqAfter 0 kept := by
      apply UInt8.toNat_inj.mp
      omega
    have stream : input.tail = wire 0 (kept ++ b :: later) ++ ([GO_CMD] ++ []) := by
      rw [wire_append, List.append_assoc, ← same]
      rfl
    obtain ⟨fuel, done⟩ := records_iff.mpr ⟨_, _, _, _, stream, .go, rfl⟩
    rw [List.append_nil] at done
    exact ⟨1, fuel, (bind_eq start).trans done⟩
  · intro part
    have other : seqAfter 0 kept ≠ (b.record (seqAfter 0 (kept ++ lost))).seq := by
      intro same
      have numbers := congrArg UInt8.toNat same
      change (seqAfter 0 kept).toNat = (seqAfter 0 (kept ++ lost)).toNat at numbers
      omega
    obtain ⟨rest, stream⟩ : ∃ rest, input.tail = wire 0 kept ++
        (DATA_CMD :: (b.record (seqAfter 0 (kept ++ lost))).wire ++ rest) := by
      refine ⟨b.data ++ (wire ((seqAfter 0 (kept ++ lost) + 1) &&& 0x7f) later ++ [GO_CMD]), ?_⟩
      simp [input, wire, Block.wire]
    obtain ⟨fuel, done⟩ := records_iff.mpr ⟨_, _, _, _, stream, .sequence other, rfl⟩
    exact ⟨1, fuel, rest, (bind_eq start).trans done⟩

end Records

end Mx6xBsp.Ipl.SerialDownload
