import Mathlib.Algebra.Order.Floor.Div
import Mathlib.Data.List.Chain
import Mathlib.Tactic.Ring
import Mx6xBsp.Ipl.FatCache

/-!
# A file is its cluster chain

`fat_copy_file` puts contiguous clusters together and reads each run at once.
`Volume.loadChain` reads one cluster at a time. `Loaded` compares the two, and says
which clusters are looked up in the FAT and which sectors are read.
-/

namespace Mx6xBsp.Ipl

variable {vol : Volume} {s t u : Fat}

/-! ## Clusters -/

/-- The bytes of a cluster -/
def Volume.cluster (vol : Volume) (cluster : UInt32) : Nat → UInt8 :=
  vol.bytes (vol.info.cluster2fsector cluster)

/-- The memory after the clusters of a chain have been read one at a time. -/
def Volume.loadChain (vol : Volume) : List UInt32 → Nat → (Nat → UInt8) → Nat → UInt8
  | [], _, mem => mem
  | cluster :: rest, buf, mem =>
    loadChain vol rest (buf + vol.info.cbytes)
      (overlay buf vol.info.cbytes (vol.cluster cluster) mem)

/-- One chain after another, with the first one in one piece of memory -/
def Volume.contents (vol : Volume) (chain : List UInt32) (i : Nat) : UInt8 :=
  vol.cluster (chain.getD (i / vol.info.cbytes) 0) (i % vol.info.cbytes)

theorem overlay_zero {base : Nat} {data m : Nat → UInt8} : overlay base 0 data m = m :=
  funext fun a => if_neg (by omega)

theorem overlay_add {base len more : Nat} {data m : Nat → UInt8} :
    overlay base (len + more) data m =
      overlay (base + len) more (fun i => data (len + i)) (overlay base len data m) := by
  funext a
  unfold overlay
  by_cases first : a < base + len
  · rw [if_neg (c := base + len ≤ a ∧ a < base + len + more) (by omega)]
    by_cases inside : base ≤ a
    · rw [if_pos (by omega), if_pos ⟨inside, first⟩]
    · rw [if_neg (by omega), if_neg (by omega)]
  · rw [if_neg (c := base ≤ a ∧ a < base + len) (by omega)]
    by_cases inside : a < base + len + more
    · rw [if_pos (by omega), if_pos (by omega)]
      exact congrArg data (by omega)
    · rw [if_neg (by omega), if_neg (by omega)]

theorem overlay_congr {base len : Nat} {data data' m : Nat → UInt8}
    (same : ∀ i < len, data i = data' i) : overlay base len data m = overlay base len data' m := by
  funext a
  unfold overlay
  split
  · rename_i inside
    exact same _ (by omega)
  · rfl

theorem loadChain_append {chain chain' : List UInt32} {buf : Nat} {mem : Nat → UInt8} :
    vol.loadChain (chain ++ chain') buf mem =
      vol.loadChain chain' (buf + chain.length * vol.info.cbytes)
        (vol.loadChain chain buf mem) := by
  induction chain generalizing buf mem with
  | nil => rw [List.nil_append, List.length_nil, Nat.zero_mul, Nat.add_zero, Volume.loadChain]
  | cons cluster rest ih =>
    rw [List.cons_append, Volume.loadChain, ih, Volume.loadChain, List.length_cons]
    have place : buf + vol.info.cbytes + rest.length * vol.info.cbytes =
        buf + (rest.length + 1) * vol.info.cbytes := by
      rw [Nat.succ_mul]
      omega
    rw [place]

/-- What is in memory in the end is the contents of the clusters, one after the other. -/
theorem loadChain_eq_contents {chain : List UInt32} {buf : Nat} {mem : Nat → UInt8}
    (room : 0 < vol.info.cbytes) :
    vol.loadChain chain buf mem =
      overlay buf (chain.length * vol.info.cbytes) (vol.contents chain) mem := by
  induction chain generalizing buf mem with
  | nil => rw [List.length_nil, Nat.zero_mul, overlay_zero, Volume.loadChain]
  | cons cluster rest ih =>
    have later : ∀ i, vol.contents (cluster :: rest) (vol.info.cbytes + i) =
        vol.contents rest i := by
      intro i
      unfold Volume.contents
      rw [Nat.add_mod_left, Nat.add_div_left _ room, List.getD_cons_succ]
    have first : ∀ i < vol.info.cbytes,
        vol.cluster cluster i = vol.contents (cluster :: rest) i := by
      intro i below
      unfold Volume.contents
      rw [Nat.div_eq_of_lt below, Nat.mod_eq_of_lt below, List.getD_cons_zero]
    have size : (cluster :: rest).length * vol.info.cbytes =
        vol.info.cbytes + rest.length * vol.info.cbytes := by
      rw [List.length_cons, Nat.succ_mul, Nat.add_comm]
    rw [Volume.loadChain, ih, size, overlay_add, overlay_congr first, funext later]

theorem cluster2fsector_succ (info : FsInfo) (c : UInt32) :
    info.cluster2fsector (c + 1) = info.cluster2fsector c + info.clusterSize := by
  unfold FsInfo.cluster2fsector
  have behind : c + 1 - 2 = c - 2 + 1 := by
    rw [UInt32.sub_eq_add_neg, UInt32.sub_eq_add_neg, UInt32.add_assoc, UInt32.add_comm 1,
      ← UInt32.add_assoc]
  rw [behind, UInt32.add_mul, UInt32.one_mul, UInt32.add_assoc]

theorem bytes_sectors (sector : UInt32) (k i : Nat) :
    vol.bytes sector (k * SECTOR_SIZE + i) = vol.bytes (sector + UInt32.ofNat k) i := by
  unfold Volume.bytes
  rw [Nat.mul_add_mod_self_right, Nat.add_comm (k * SECTOR_SIZE),
    Nat.add_mul_div_right _ _ (by decide), Nat.add_comm, UInt32.ofNat_add]
  congr 1
  ac_rfl

theorem clusterSize_ofNat (info : FsInfo) :
    UInt32.ofNat info.clusterSize.toNat = info.clusterSize :=
  UInt32.ofNat_toNat

/-- Clusters that follow each other on the card -/
def Contiguous (chain : List UInt32) : Prop := chain.IsChain fun c d => d = c + 1

instance (chain : List UInt32) : Decidable (Contiguous chain) :=
  inferInstanceAs (Decidable (chain.IsChain _))

theorem loadChain_contiguous {c : UInt32} {more : List UInt32} {buf : Nat} {mem : Nat → UInt8}
    (run : Contiguous (c :: more)) :
    vol.loadChain (c :: more) buf mem =
      overlay buf ((more.length + 1) * vol.info.cbytes) (vol.cluster c) mem := by
  induction more generalizing c buf mem with
  | nil =>
    rw [List.length_nil, Nat.zero_add, Nat.one_mul, Volume.loadChain, Volume.loadChain]
  | cons d more ih =>
    obtain ⟨next, run⟩ := List.isChain_cons_cons.mp run
    have behind : ∀ i, vol.cluster c (vol.info.cbytes + i) = vol.cluster d i := by
      intro i
      unfold Volume.cluster FsInfo.cbytes
      rw [bytes_sectors, clusterSize_ofNat, next, cluster2fsector_succ]
    have size : ((d :: more).length + 1) * vol.info.cbytes =
        vol.info.cbytes + (more.length + 1) * vol.info.cbytes := by
      rw [List.length_cons, Nat.succ_mul, Nat.add_comm]
    rw [Volume.loadChain, ih run, size, overlay_add, funext behind]

/-- The sectors of a cluster -/
def FsInfo.sectors (info : FsInfo) (c : UInt32) : List UInt32 :=
  (List.range info.clusterSize.toNat).map fun i => info.cluster2fsector c + UInt32.ofNat i

/-- The sectors an operation reads, those of the FAT apart. -/
def FatOp.sectors : FatOp → List UInt32
  | .readDir sector => [sector]
  | .readFile sector _ cnt => (List.range cnt).map fun i => sector + UInt32.ofNat i
  | _ => []

/-- The clusters an operation looks up. -/
def FatOp.asked : FatOp → List UInt32
  | .getFatEntry c => [c]
  | _ => []

theorem sectors_contiguous {info : FsInfo} {c : UInt32} {more : List UInt32}
    (run : Contiguous (c :: more)) :
    ((List.range ((more.length + 1) * info.clusterSize.toNat)).map fun i =>
      info.cluster2fsector c + UInt32.ofNat i) = (c :: more).flatMap info.sectors := by
  induction more generalizing c with
  | nil =>
    rw [List.length_nil, Nat.zero_add, Nat.one_mul, List.flatMap_singleton]
    rfl
  | cons d more ih =>
    obtain ⟨next, run⟩ := List.isChain_cons_cons.mp run
    have behind : ∀ i, info.cluster2fsector c + UInt32.ofNat (info.clusterSize.toNat + i) =
        info.cluster2fsector d + UInt32.ofNat i := by
      intro i
      rw [UInt32.ofNat_add, clusterSize_ofNat, next, cluster2fsector_succ, UInt32.add_assoc]
    have size : ((d :: more).length + 1) * info.clusterSize.toNat =
        info.clusterSize.toNat + (more.length + 1) * info.clusterSize.toNat := by
      rw [List.length_cons, Nat.succ_mul, Nat.add_comm]
    rw [size, List.range_add, List.map_append, List.map_map, List.flatMap_cons, ← ih run]
    exact congrArg (_ ++ ·) (List.map_congr_left fun i _ => behind i)

/-! ## Lookups -/

/-- The tag of the buffer is right, and FAT12 has none. -/
def Fat.Ready (vol : Volume) (s : Fat) : Prop :=
  s.Coherent vol ∧ (vol.info.fatType = .fat12 → s.gFatSector = -1)

theorem start_ready : (s.next vol .start).Ready vol :=
  ⟨fun _ none => absurd rfl none, fun _ => rfl⟩

theorem getCachedEntry_mem {width : UInt32} {load : (Nat → UInt8) → Nat → UInt32} {c : UInt32} :
    (s.getCachedEntry vol width load c).1.mem = s.mem := by
  unfold Fat.getCachedEntry
  dsimp only
  split
  · rfl
  · split <;> rfl

theorem getFatEntry_mem {c : UInt32} : (s.fatGetFatEntry vol c).1.mem = s.mem := by
  change (s.switchFatEntry vol c).1.mem = s.mem
  unfold Fat.switchFatEntry
  split
  · unfold Fat.getFatEntry12
    dsimp only
    split <;> rfl
  · exact getCachedEntry_mem
  · exact getCachedEntry_mem

theorem getFatEntry12_eq {c : UInt32} (ok : vol.fault s.reads = none)
    (type : vol.info.fatType = .fat12) :
    (s.getFatEntry12 vol c).2 = vol.fatEntry c ∧
      (s.getFatEntry12 vol c).1.gFatSector = s.gFatSector := by
  have offs : ((c + c / 2) % 512).toNat + 1 < 2 * SECTOR_SIZE := by
    rw [UInt32.toNat_mod, SECTOR_SIZE, show (512 : UInt32).toNat = 512 from rfl]
    omega
  let sector := vol.info.fat1Start + (c + c / 2) / 512
  let word := GET_WORD (s.readBlk vol sector 2).1.blk ((c + c / 2) % 512).toNat
  have read := @readFsector_ok _ s sector ok
  have data : word = GET_WORD (vol.bytes sector) ((c + c / 2) % 512).toNat := by
    change GET_WORD (overlay 0 _ (vol.readFsector s.reads sector).2 s.blk) _ = _
    rw [read]
    unfold GET_WORD overlay
    rw [if_pos (by omega), if_pos (by omega), Nat.sub_zero, Nat.sub_zero]
  have worked : (s.readBlk vol sector 2).2 = true := congrArg Prod.fst read
  have entry : s.getFatEntry12 vol c = ((s.readBlk vol sector 2).1,
      if c &&& 1 ≠ 0 then word >>> 4 else word &&& 0xfff) := if_pos worked
  rw [entry, data, Volume.fatEntry, type]
  exact ⟨rfl, rfl⟩

theorem Fat.Ready.lookup {c : UInt32} (ready : s.Ready vol) (works : ∀ n, vol.fault n = none) :
    (s.fatGetFatEntry vol c).2 = vol.fatEntry c ∧ (s.fatGetFatEntry vol c).1.Ready vol := by
  by_cases type : vol.info.fatType = .fat12
  · have looked := getFatEntry12_eq (c := c) (works s.reads) type
    have entry : s.switchFatEntry vol c = s.getFatEntry12 vol c := by
      rw [Fat.switchFatEntry, type]
    have tag : (s.fatGetFatEntry vol c).1.gFatSector = -1 := by
      change (s.switchFatEntry vol c).1.gFatSector = -1
      rw [entry, looked.2, ready.2 type]
    refine ⟨?_, fun _ tagged => absurd tag tagged, fun _ => tag⟩
    change (s.switchFatEntry vol c).2 = _
    rw [entry, looked.1]
  · obtain ⟨coherent, answer⟩ := (ready.1.next type).mpr
      (show Harmless vol s (.getFatEntry c) from Or.inr (Or.inl (works s.reads)))
    exact ⟨answer, coherent, fun fat12 => absurd fat12 type⟩

/-- The state after some clusters have been looked up -/
def Fat.looked (vol : Volume) (s : Fat) (clusters : List UInt32) : Fat :=
  clusters.foldl (fun s c => (s.fatGetFatEntry vol c).1) s

theorem looked_ready {clusters : List UInt32} (ready : s.Ready vol)
    (works : ∀ n, vol.fault n = none) : (s.looked vol clusters).Ready vol := by
  induction clusters generalizing s with
  | nil => exact ready
  | cons c rest ih => exact ih (ready.lookup works).2

theorem looked_mem {clusters : List UInt32} : (s.looked vol clusters).mem = s.mem := by
  induction clusters generalizing s with
  | nil => rfl
  | cons c rest ih => exact ih.trans getFatEntry_mem

theorem looked_trace {clusters : List UInt32} :
    (s.looked vol clusters).trace = s.trace ++ clusters.map .getFatEntry := by
  induction clusters generalizing s with
  | nil => exact (List.append_nil _).symm
  | cons c rest ih =>
    refine ih.trans ?_
    rw [List.map_cons, List.append_cons]
    rfl

/-! ## Runs of clusters -/

/-- The clusters are linked in the FAT of the card. -/
def Volume.Linked (vol : Volume) (chain : List UInt32) : Prop :=
  chain.IsChain fun c d => vol.fatEntry c = d

/-- The length of the transfer stays an `int` as the clusters behind `c` are added to it. -/
def RunFits (sz cbytes : Nat) : Nat → UInt32 → List UInt32 → Prop
  | _, _, [] => True
  | txf, c, d :: rest => txf < sz → d = c + 1 → 20 * SECTOR_SIZE < txf →
      txf + cbytes < 2 ^ 31 ∧ RunFits sz cbytes (txf + cbytes) d rest

theorem runFits_of_small {sz cbytes txf : Nat} {c : UInt32} {rest : List UInt32}
    (small : sz + cbytes ≤ 2 ^ 31) : RunFits sz cbytes txf c rest := by
  induction rest generalizing txf c with
  | nil => trivial
  | cons d rest ih =>
    intro below next wide
    exact ⟨by omega, ih⟩

theorem runFits_of_narrow {sz cbytes txf : Nat} {c : UInt32} {rest : List UInt32}
    (narrow : txf ≤ 20 * SECTOR_SIZE) : RunFits sz cbytes txf c rest := by
  cases rest with
  | nil => trivial
  | cons d rest =>
    intro below next wide
    exact absurd wide (Nat.not_lt.mpr narrow)

/-- A break before the length reaches `2 ^ 31` is in time. -/
theorem runFits_of_break {sz cbytes txf n : Nat} {c : UInt32} {rest : List UInt32}
    (room : 0 < cbytes) (reach : txf + n * cbytes = 2 ^ 31)
    (broken : ¬Contiguous ((c :: rest).take (n + 1))) : RunFits sz cbytes txf c rest := by
  induction rest generalizing txf c n with
  | nil => trivial
  | cons d rest ih =>
    intro below next wide
    cases n with
    | zero => exact absurd (List.isChain_singleton c) broken
    | succ n =>
      have later : ¬Contiguous ((d :: rest).take (n + 1)) := by
        intro run
        exact broken (List.isChain_cons_cons.mpr ⟨next, run⟩)
      have more : n ≠ 0 := by
        rintro rfl
        exact later (List.isChain_singleton d)
      have gap : cbytes ≤ n * cbytes := Nat.le_mul_of_pos_left _ (Nat.pos_of_ne_zero more)
      rw [Nat.succ_mul] at reach
      exact ⟨by omega, ih (by omega) later⟩

/-- The inner loop: it takes the run of contiguous clusters at the head of the chain, or a part of
it, and looks up each cluster it needs to go on from. -/
theorem consolidate_spec {sz fuel txf : Nat} {c : UInt32} {rest : List UInt32}
    (works : ∀ n, vol.fault n = none) (ready : s.Ready vol) (linked : vol.Linked (c :: rest))
    (enough : sz ≤ txf + rest.length * vol.info.cbytes)
    (fits : RunFits sz vol.info.cbytes txf c rest)
    (fuel_ : rest.length < fuel) :
    ∃ more rest' nextC, rest = more ++ rest' ∧ Contiguous (c :: more) ∧
      (more = [] ∨ txf + more.length * vol.info.cbytes < sz + vol.info.cbytes) ∧
      (sz ≤ txf + more.length * vol.info.cbytes ∧
          consolidate vol sz fuel c txf s = some (s.looked vol (c :: more).dropLast, nextC,
            txf + more.length * vol.info.cbytes) ∨
        txf + more.length * vol.info.cbytes < sz ∧ rest'.head? = some nextC ∧
          consolidate vol sz fuel c txf s = some (s.looked vol (c :: more), nextC,
            txf + more.length * vol.info.cbytes)) := by
  induction rest generalizing c txf s fuel with
  | nil =>
    obtain ⟨fuel, rfl⟩ := Nat.exists_eq_succ_of_ne_zero (Nat.ne_of_gt (Nat.zero_lt_of_lt fuel_))
    have done : sz ≤ txf := by simpa using enough
    refine ⟨[], [], c, rfl, List.isChain_singleton c, Or.inl rfl,
      Or.inl ⟨by simpa using done, ?_⟩⟩
    unfold consolidate
    rw [if_neg (Nat.not_lt.mpr done), List.length_nil, Nat.zero_mul, Nat.add_zero]
    rfl
  | cons d rest ih =>
    obtain ⟨fuel, rfl⟩ := Nat.exists_eq_succ_of_ne_zero (Nat.ne_of_gt (Nat.zero_lt_of_lt fuel_))
    by_cases done : sz ≤ txf
    · refine ⟨[], d :: rest, c, rfl, List.isChain_singleton c, Or.inl rfl,
        Or.inl ⟨by simpa using done, ?_⟩⟩
      unfold consolidate
      rw [if_neg (Nat.not_lt.mpr done), List.length_nil, Nat.zero_mul, Nat.add_zero]
      rfl
    · have below : txf < sz := Nat.lt_of_not_le done
      obtain ⟨entry, linked⟩ := List.isChain_cons_cons.mp linked
      obtain ⟨answer, ready'⟩ := ready.lookup (c := c) works
      have step : consolidate vol sz (fuel + 1) c txf s =
          if d = c + 1 ∧ txf > 20 * SECTOR_SIZE then
            if txf + vol.info.cbytes < 2 ^ 31 then
              consolidate vol sz fuel d (txf + vol.info.cbytes) (s.fatGetFatEntry vol c).1
            else none
          else some ((s.fatGetFatEntry vol c).1, d, txf) := by
        rw [consolidate, if_pos below, ← entry, ← answer]
      by_cases merge : d = c + 1 ∧ txf > 20 * SECTOR_SIZE
      · obtain ⟨int, fits⟩ := fits below merge.1 merge.2
        rw [List.length_cons, Nat.succ_mul] at enough
        obtain ⟨more, rest', nextC, split, run, size, ends⟩ :=
          ih ready' linked (by omega) fits (Nat.lt_of_succ_lt_succ fuel_)
        have length : txf + vol.info.cbytes + more.length * vol.info.cbytes =
            txf + (d :: more).length * vol.info.cbytes := by
          rw [List.length_cons, Nat.succ_mul]
          omega
        rw [length] at ends size
        rw [step, if_pos merge, if_pos int]
        refine ⟨d :: more, rest', nextC, congrArg (d :: ·) split,
          List.isChain_cons_cons.mpr ⟨merge.1, run⟩, Or.inr ?_, ends⟩
        rcases size with rfl | size
        · rw [List.length_singleton, Nat.one_mul]
          omega
        · exact size
      · rw [step, if_neg merge]
        refine ⟨[], d :: rest, d, rfl, List.isChain_singleton c, Or.inl rfl,
          Or.inr ⟨by simpa using below, rfl, ?_⟩⟩
        rw [List.length_nil, Nat.zero_mul, Nat.add_zero]
        rfl

/-! ## The file -/

/-- What has been done from `s` to `t`: the clusters are in memory, and apart from the clusters
`asked` for nothing else was looked up or read. -/
structure Loaded (vol : Volume) (clusters asked : List UInt32) (buf : Nat) (s t : Fat) : Prop where
  ready : t.Ready vol
  mem : t.mem = vol.loadChain clusters buf s.mem
  trace : ∃ ops, t.trace = s.trace ++ ops ∧ ops.flatMap FatOp.asked = asked ∧
    ops.flatMap FatOp.sectors = clusters.flatMap vol.info.sectors

theorem Loaded.refl {buf : Nat} (ready : s.Ready vol) : Loaded vol [] [] buf s s :=
  ⟨ready, rfl, [], (List.append_nil _).symm, rfl, rfl⟩

theorem Loaded.trans {clusters clusters' asked asked' : List UInt32} {buf : Nat}
    (first : Loaded vol clusters asked buf s t)
    (second : Loaded vol clusters' asked' (buf + clusters.length * vol.info.cbytes) t u) :
    Loaded vol (clusters ++ clusters') (asked ++ asked') buf s u := by
  obtain ⟨ops, before, asks, reads⟩ := first.trace
  obtain ⟨ops', after, asks', reads'⟩ := second.trace
  refine ⟨second.ready, ?_, ops ++ ops', ?_, ?_, ?_⟩
  · rw [loadChain_append, second.mem, first.mem]
  · rw [after, before, List.append_assoc]
  · rw [List.flatMap_append, asks, asks']
  · rw [List.flatMap_append, List.flatMap_append, reads, reads']

theorem loaded_run {c : UInt32} {more : List UInt32} (asked : List UInt32) (buf : Nat)
    (works : ∀ n, vol.fault n = none) (ready : s.Ready vol) (run : Contiguous (c :: more)) :
    Loaded vol (c :: more) asked buf s ((s.looked vol asked).next vol (.readFile
      (vol.info.cluster2fsector c) buf ((more.length + 1) * vol.info.clusterSize.toNat))) := by
  refine ⟨looked_ready ready works, ?_, asked.map .getFatEntry ++ [.readFile
    (vol.info.cluster2fsector c) buf ((more.length + 1) * vol.info.clusterSize.toNat)], ?_, ?_, ?_⟩
  · change overlay buf _ (vol.readFsector _ _).2 (s.looked vol asked).mem = _
    rw [readFsector_ok (works _), looked_mem, loadChain_contiguous run, FsInfo.cbytes,
      Nat.mul_assoc]
    rfl
  · change (s.looked vol asked).trace ++ _ = _
    rw [looked_trace, List.append_assoc]
  · rw [List.flatMap_append, List.flatMap_map]
    exact (List.append_nil _).trans (List.flatMap_singleton' asked)
  · rw [List.flatMap_append, List.flatMap_map, ← sectors_contiguous run]
    have none : (asked.flatMap fun c => (FatOp.getFatEntry c).sectors) = [] :=
      List.flatMap_eq_nil_iff.mpr fun c _ => rfl
    rw [none]
    exact List.append_nil _

/-- What is left of a file behind its first `k` clusters -/
theorem ceilDiv_sub {sz cbytes k : Nat} (room : 0 < cbytes) :
    (sz - k * cbytes) ⌈/⌉ cbytes = sz ⌈/⌉ cbytes - k := by
  refine eq_of_forall_ge_iff fun n => ?_
  rw [ceilDiv_le_iff_le_mul room, Nat.sub_le_iff_le_add, Nat.sub_le_iff_le_add,
    ceilDiv_le_iff_le_mul room, Nat.mul_add, Nat.mul_comm k]

/-- One turn of the outer loop whose transfer has `k` clusters -/
theorem copyLoop_turn {fuel sz buf k : Nat} {c nextC : UInt32}
    (works : ∀ n, vol.fault n = none) (more : 0 < sz)
    (call : consolidate vol sz fuel c vol.info.cbytes s = some (t, nextC, k * vol.info.cbytes)) :
    copyLoop vol (fuel + 1) c sz buf s =
      copyLoop vol fuel nextC (sz - k * vol.info.cbytes) (buf + k * vol.info.cbytes)
        (t.next vol (.readFile (vol.info.cluster2fsector c) buf
          (k * vol.info.clusterSize.toNat))) := by
  have cnt : k * vol.info.cbytes / SECTOR_SIZE = k * vol.info.clusterSize.toNat := by
    rw [FsInfo.cbytes, ← Nat.mul_assoc, Nat.mul_div_cancel _ (by decide)]
  have ok : (vol.readFsector t.reads (vol.info.cluster2fsector c)).1 = true :=
    congrArg Prod.fst (readFsector_ok (works _))
  rw [copyLoop, if_pos more, call]
  dsimp only
  rw [cnt]
  exact if_pos ok

theorem copyLoop_spec {fuel sz buf : Nat} {c : UInt32} {rest : List UInt32}
    (works : ∀ n, vol.fault n = none) (room : 0 < vol.info.cbytes) (ready : s.Ready vol)
    (linked : vol.Linked (c :: rest)) (enough : sz ⌈/⌉ vol.info.cbytes ≤ (c :: rest).length)
    (int : sz < 2 ^ 31) (fits : RunFits sz vol.info.cbytes vol.info.cbytes c rest)
    (fuel_ : rest.length + 2 ≤ fuel) :
    ∃ t, copyLoop vol fuel c sz buf s = some (t, true) ∧
      Loaded vol ((c :: rest).take (sz ⌈/⌉ vol.info.cbytes))
        ((c :: rest).take (sz ⌈/⌉ vol.info.cbytes)).dropLast buf s t := by
  induction fuel generalizing c rest sz buf s with
  | zero => omega
  | succ fuel ih =>
    rcases Nat.eq_zero_or_pos sz with rfl | more
    · rw [zero_ceilDiv, List.take_zero, List.dropLast_nil]
      exact ⟨s, rfl, .refl ready⟩
    · have sum : ∀ n, vol.info.cbytes + n * vol.info.cbytes = (n + 1) * vol.info.cbytes :=
        fun n => by rw [Nat.succ_mul, Nat.add_comm]
      have long : sz ≤ vol.info.cbytes + rest.length * vol.info.cbytes := by
        rw [sum, Nat.mul_comm]
        exact (ceilDiv_le_iff_le_mul room).mp enough
      obtain ⟨run, rest', nextC, rfl, contiguous, size, ends⟩ :=
        consolidate_spec works ready linked long fits (show rest.length < fuel by omega)
      rw [sum] at ends size
      rcases ends with ⟨done, call⟩ | ⟨left, next, call⟩
      · -- the run is the rest of the file
        have clusters : sz ⌈/⌉ vol.info.cbytes = run.length + 1 := by
          refine le_antisymm ((ceilDiv_le_iff_le_mul room).mpr (Nat.mul_comm _ _ ▸ done)) ?_
          by_contra fewer
          have short := (ceilDiv_le_iff_le_mul room).mp (Nat.le_of_lt_succ (not_le.mp fewer))
          rw [Nat.mul_comm] at short
          rw [Nat.succ_mul] at size
          rcases size with rfl | size
          · rw [List.length_nil, Nat.zero_mul] at short
            omega
          · omega
        have head : (c :: (run ++ rest')).take (run.length + 1) = c :: run := by
          rw [List.take_succ_cons, List.take_left]
        obtain ⟨fuel, rfl⟩ := Nat.exists_eq_succ_of_ne_zero (n := fuel) (by omega)
        rw [copyLoop_turn works more call, Nat.sub_eq_zero_of_le done, clusters, head]
        exact ⟨_, rfl, loaded_run _ _ works ready contiguous⟩
      · -- the file goes on in the cluster that was looked up
        obtain ⟨rest, rfl⟩ := List.head?_eq_some_iff.mp next
        have behind : (sz - (run.length + 1) * vol.info.cbytes) ⌈/⌉ vol.info.cbytes =
            sz ⌈/⌉ vol.info.cbytes - (run.length + 1) := ceilDiv_sub room
        have later : 0 < sz ⌈/⌉ vol.info.cbytes - (run.length + 1) := by
          refine Nat.sub_pos_of_lt (not_le.mp fun few => ?_)
          have short := (ceilDiv_le_iff_le_mul room).mp few
          rw [Nat.mul_comm] at short
          omega
        have split : (c :: (run ++ nextC :: rest)).take (sz ⌈/⌉ vol.info.cbytes) =
            (c :: run) ++ (nextC :: rest).take (sz ⌈/⌉ vol.info.cbytes - (run.length + 1)) := by
          rw [← List.cons_append, List.take_append, List.take_of_length_le, List.length_cons]
          rw [List.length_cons]
          omega
        have nonempty :
            (nextC :: rest).take (sz ⌈/⌉ vol.info.cbytes - (run.length + 1)) ≠ [] := by
          rw [Ne, List.take_eq_nil_iff]
          rintro (none | none)
          · omega
          · cases none
        have first := loaded_run (c :: run) buf works ready contiguous
        have whole : vol.info.cbytes ≤ (run.length + 1) * vol.info.cbytes :=
          Nat.le_mul_of_pos_left _ (Nat.succ_pos _)
        have lengths : (c :: (run ++ nextC :: rest)).length =
            run.length + 1 + (nextC :: rest).length := by
          simp only [List.length_cons, List.length_append]
          omega
        have linked' : vol.Linked (nextC :: rest) :=
          (List.isChain_append.mp (List.cons_append (a := c) ▸ linked)).2.1
        obtain ⟨t, call', second⟩ : ∃ t, copyLoop vol fuel nextC
            (sz - (run.length + 1) * vol.info.cbytes) (buf + (run.length + 1) * vol.info.cbytes)
            _ = some (t, true) ∧ _ := ih first.ready linked'
          (by rw [behind]; omega) (by omega) (runFits_of_small (by omega))
          (by rw [List.length_append, List.length_cons] at fuel_; omega)
        rw [copyLoop_turn works more call, split, List.dropLast_append_of_ne_nil nonempty]
        rw [behind] at second
        exact ⟨t, call', first.trans second⟩

/-- A run of contiguous clusters up to the length that an `int` does not hold -/
theorem consolidate_overflow {sz fuel txf n : Nat} {c : UInt32} {rest : List UInt32}
    (works : ∀ n, vol.fault n = none) (ready : s.Ready vol) (linked : vol.Linked (c :: rest))
    (wide : 20 * SECTOR_SIZE < txf) (reach : txf + (n + 1) * vol.info.cbytes = 2 ^ 31)
    (last : 2 ^ 31 < sz + vol.info.cbytes) (long : n + 1 ≤ rest.length)
    (run : Contiguous ((c :: rest).take (n + 2))) :
    consolidate vol sz fuel c txf s = none := by
  induction fuel generalizing n c rest txf s with
  | zero => rfl
  | succ fuel ih =>
    obtain ⟨d, rest, rfl⟩ := List.exists_cons_of_length_pos (Nat.zero_lt_of_lt long)
    obtain ⟨entry, linked⟩ := List.isChain_cons_cons.mp linked
    obtain ⟨answer, ready'⟩ := ready.lookup (c := c) works
    obtain ⟨next, run⟩ := List.isChain_cons_cons.mp run
    rw [Nat.succ_mul] at reach
    have merge : (s.fatGetFatEntry vol c).2 = c + 1 ∧ txf > 20 * SECTOR_SIZE :=
      ⟨by rw [answer, entry, next], wide⟩
    rw [consolidate, if_pos (by omega)]
    dsimp only
    rw [if_pos merge]
    cases n with
    | zero => exact if_neg (by omega)
    | succ n =>
      rw [answer, entry]
      have later : consolidate vol sz fuel d (txf + vol.info.cbytes)
          (s.fatGetFatEntry vol c).1 = none :=
        ih ready' linked (by omega) (by omega) (Nat.le_of_succ_le_succ long) run
      rw [later]
      exact ite_self _

/-- The clusters of a file of this size, from the start of its chain -/
def FsInfo.clusters (info : FsInfo) (size : UInt32) (chain : List UInt32) : List UInt32 :=
  chain.take (size.toNat ⌈/⌉ info.cbytes)

/-- The size is an `int`, and so is the length of the longest transfer: clusters of more than 20
sectors are put together, and a file that is contiguous and has as many as reach `2 ^ 31` bytes is
too long. -/
def SizeFits (info : FsInfo) (size : UInt32) (chain : List UInt32) : Prop :=
  size.toNat + info.cbytes ≤ 2 ^ 31 ∨ size.toNat < 2 ^ 31 ∧
    (info.clusterSize.toNat ≤ 20 ∨ ¬Contiguous (info.clusters size chain))

theorem cbytes_pos {k : Nat} (power : vol.info.clusterSize.toNat = 2 ^ k) :
    0 < vol.info.cbytes :=
  Nat.mul_pos (power ▸ Nat.two_pow_pos k) (by decide)

theorem cbytes_mul {k : Nat} (power : vol.info.clusterSize.toNat = 2 ^ k) :
    2 ≤ 2 ^ (22 - k) ∧ 2 ^ (22 - k) * vol.info.cbytes = 2 ^ 31 := by
  have byte := vol.info.clusterByte
  have bound : k < 8 := by
    rw [power] at byte
    exact (Nat.pow_lt_pow_iff_right (by decide)).mp (byte.trans_eq (by decide : 256 = 2 ^ 8))
  refine ⟨Nat.le_self_pow (by omega) 2, ?_⟩
  rw [FsInfo.cbytes, power, ← Nat.mul_assoc, ← Nat.pow_add, Nat.sub_add_cancel (by omega)]
  rfl

/-- The number of clusters of a file that reaches into the last cluster below `2 ^ 31` -/
theorem ceilDiv_last {sz cbytes n : Nat} (room : 0 < cbytes) (whole : (2 + n) * cbytes = 2 ^ 31)
    (int : sz < 2 ^ 31) (last : 2 ^ 31 < sz + cbytes) : sz ⌈/⌉ cbytes = 2 + n := by
  refine le_antisymm ((ceilDiv_le_iff_le_mul room).mpr ?_) (not_lt.mp fun fewer => ?_)
  · rw [Nat.mul_comm, whole]
    exact int.le
  · have short : sz ≤ cbytes * (1 + n) := (ceilDiv_le_iff_le_mul room).mp (by omega)
    have split : (2 + n) * cbytes = cbytes * (1 + n) + cbytes := by ring
    omega

/-- With a size that fits, the clusters of the file get into memory, and nothing else is looked up
or read. -/
theorem fatCopyFile_loads {cluster size : UInt32} {rest : List UInt32} {k : Nat} (buf : Nat)
    (works : ∀ n, vol.fault n = none) (power : vol.info.clusterSize.toNat = 2 ^ k)
    (linked : vol.Linked (cluster :: rest))
    (enough : size.toNat ⌈/⌉ vol.info.cbytes ≤ (cluster :: rest).length)
    (fits : SizeFits vol.info size (cluster :: rest)) (s : Fat) :
    ∃ t, fatCopyFile vol (rest.length + 2) cluster size buf s = some (t, true) ∧
      Loaded vol (vol.info.clusters size (cluster :: rest))
        (vol.info.clusters size (cluster :: rest)).dropLast buf (s.next vol .start) t := by
  have room := cbytes_pos power
  obtain ⟨two, whole⟩ := cbytes_mul power
  have int : size.toNat < 2 ^ 31 := by
    rcases fits with small | ⟨int, _⟩
    · omega
    · exact int
  have runs : RunFits size.toNat vol.info.cbytes vol.info.cbytes cluster rest := by
    rcases fits with small | ⟨_, narrow | broken⟩
    · exact runFits_of_small small
    · exact runFits_of_narrow (Nat.mul_le_mul_right _ narrow)
    · by_cases small : size.toNat + vol.info.cbytes ≤ 2 ^ 31
      · exact runFits_of_small small
      · obtain ⟨n, clusters⟩ := Nat.exists_eq_add_of_le two
        rw [clusters] at whole
        rw [FsInfo.clusters, ceilDiv_last room whole int (not_le.mp small),
          Nat.add_comm 2] at broken
        refine runFits_of_break (n := n + 1) room ?_ broken
        rw [← whole, Nat.add_mul, Nat.add_mul]
        omega
  unfold fatCopyFile
  rw [if_pos int]
  exact copyLoop_spec works room start_ready linked enough int runs le_rfl

/-- A size that does not fit: nothing is copied, or the length of a transfer overflows. -/
theorem fatCopyFile_too_long {cluster size : UInt32} {rest : List UInt32} {buf k fuel : Nat}
    (works : ∀ n, vol.fault n = none) (power : vol.info.clusterSize.toNat = 2 ^ k)
    (linked : vol.Linked (cluster :: rest))
    (enough : size.toNat ⌈/⌉ vol.info.cbytes ≤ (cluster :: rest).length)
    (long : ¬SizeFits vol.info size (cluster :: rest)) {ok : Bool}
    (call : fatCopyFile vol fuel cluster size buf s = some (t, ok)) :
    2 ^ 31 ≤ size.toNat ∧ t = s.next vol .start := by
  have room := cbytes_pos power
  obtain ⟨two, whole⟩ := cbytes_mul power
  obtain ⟨last, rest_⟩ := not_or.mp long
  unfold fatCopyFile at call
  cases fuel with
  | zero => cases call
  | succ fuel =>
    by_cases int : size.toNat < 2 ^ 31
    · obtain ⟨narrow, run⟩ := not_or.mp (not_and.mp rest_ int)
      have run := not_not.mp run
      obtain ⟨n, clusters⟩ := Nat.exists_eq_add_of_le two
      rw [clusters] at whole
      have count := ceilDiv_last room whole int (not_le.mp last)
      rw [FsInfo.clusters, count, Nat.add_comm 2] at run
      have wide : 20 * SECTOR_SIZE < vol.info.cbytes :=
        Nat.mul_lt_mul_of_pos_right (not_le.mp narrow) (by decide)
      have overflow : consolidate vol size.toNat fuel cluster vol.info.cbytes
          (s.next vol .start) = none := by
        refine consolidate_overflow works start_ready linked wide ?_ (not_le.mp last) ?_ run
        · rw [← whole]
          ring
        · rw [count, List.length_cons] at enough
          omega
      have half : vol.info.cbytes ≤ 2 ^ 31 := whole ▸ Nat.le_mul_of_pos_left _ (by omega)
      rw [if_pos int, copyLoop, if_pos (by omega), overflow] at call
      cases call
    · rw [if_neg int] at call
      cases call
      exact ⟨not_lt.mp int, rfl⟩

theorem loadChain_changes {clusters : List UInt32} (buf : Nat) (room : 0 < vol.info.cbytes)
    (some_ : 0 < clusters.length) : ∃ mem, vol.loadChain clusters buf mem ≠ mem := by
  refine ⟨fun _ => vol.contents clusters 0 + 1, fun same => ?_⟩
  have first := congrFun same buf
  have inside := Nat.mul_pos some_ room
  rw [loadChain_eq_contents room, overlay, if_pos ⟨le_rfl, by omega⟩, Nat.sub_self] at first
  simp at first

/-- `fat_copy_file` leaves in memory what reading the clusters of the file one at a time does,
exactly when the size fits: a size from `2 ^ 31` on is negative, and nothing is copied. -/
theorem fatCopyFile_chain_iff (vol : Volume) (cluster size : UInt32) (rest : List UInt32)
    (buf k : Nat) (works : ∀ n, vol.fault n = none) (power : vol.info.clusterSize.toNat = 2 ^ k)
    (linked : vol.Linked (cluster :: rest))
    (enough : size.toNat ⌈/⌉ vol.info.cbytes ≤ (cluster :: rest).length) :
    (∀ s, ∃ fuel t, fatCopyFile vol fuel cluster size buf s = some (t, true) ∧
        t.mem = vol.loadChain (vol.info.clusters size (cluster :: rest)) buf s.mem) ↔
      SizeFits vol.info size (cluster :: rest) := by
  constructor
  · intro copies
    by_contra long
    obtain ⟨fuel, t, call, _⟩ := copies (.boot (fun _ => 0) fun _ => 0)
    have big := (fatCopyFile_too_long works power linked enough long call).1
    have some_ : 0 < (vol.info.clusters size (cluster :: rest)).length := by
      rw [FsInfo.clusters, List.length_take, Nat.min_eq_left enough]
      refine Nat.pos_of_ne_zero fun none => ?_
      have := (ceilDiv_le_iff_le_mul (cbytes_pos power)).mp none.le
      omega
    obtain ⟨mem, changes⟩ := loadChain_changes buf (cbytes_pos power) some_
    obtain ⟨fuel, t, call, loaded⟩ := copies (.boot mem mem)
    have same := (fatCopyFile_too_long works power linked enough long call).2
    exact changes (loaded.symm.trans (congrArg Fat.mem same))
  · intro fits s
    obtain ⟨t, call, loaded⟩ := fatCopyFile_loads buf works power linked enough fits s
    exact ⟨_, t, call, loaded.mem⟩

/-- Two clusters of one sector, from the example volume -/
theorem fatCopyFile_chain_small :
    SizeFits twoClusters.info 600 [4, 5] ∧ ∀ s, ∃ fuel t,
      fatCopyFile twoClusters fuel 4 600 0x1000 s = some (t, true) ∧
        t.mem = twoClusters.loadChain (twoClusters.info.clusters 600 [4, 5]) 0x1000 s.mem := by
  have fits : SizeFits twoClusters.info 600 [4, 5] := Or.inl (by decide)
  exact ⟨fits, (fatCopyFile_chain_iff twoClusters 4 600 [5] 0x1000 0 (fun _ => rfl) rfl
    (List.isChain_cons_cons.mpr ⟨by decide, List.isChain_singleton _⟩) (by decide)).mpr fits⟩

/-! ## A large contiguous file -/

/-- FAT32 with 128 sectors per cluster; each cluster of the FAT goes on in the next one. -/
def nextCluster : Volume where
  info := ⟨0, .fat32, 0, 128, 1, 40000, 1025, FsInfo.reservedWord_one, by decide⟩
  block b i := UInt8.ofNat (((b.toNat - 1) * 128 + i / 4 + 1) / 256 ^ (i % 4) % 256)
  fault _ := none

theorem getLong_ofNat {m : Nat → UInt8} {i v : Nat} (bound : v < 2 ^ 32)
    (bytes : ∀ k < 4, m (i + k) = UInt8.ofNat (v / 256 ^ k % 256)) :
    GET_LONG m i = UInt32.ofNat v := by
  have zero := bytes 0 (by decide)
  have one := bytes 1 (by decide)
  have two := bytes 2 (by decide)
  have three := bytes 3 (by decide)
  rw [Nat.add_zero] at zero
  apply UInt32.toNat.inj
  simp [GET_LONG, zero, one, two, three, UInt32.toNat_add, UInt32.toNat_shiftLeft,
    Nat.shiftLeft_eq]
  omega

theorem nextCluster_fatEntry {c : UInt32} (bits : c.toNat + 1 < 2 ^ 28) :
    nextCluster.fatEntry c = UInt32.ofNat (c.toNat + 1) := by
  have address := fatEntry32_address (show c.toNat < 2 ^ 28 by omega)
  let sector := (c * 4 / 512).toNat
  let offs := (c * 4 % 512).toNat
  have place : sector * SECTOR_SIZE + offs = 4 * c.toNat := address
  have low : offs < 512 := by
    change (c * 4 % 512).toNat < 512
    rw [UInt32.toNat_mod, show (512 : UInt32).toNat = 512 from rfl]
    exact Nat.mod_lt _ (by decide)
  have block : (1 + c * 4 / 512 : UInt32).toNat = sector + 1 := by
    rw [UInt32.toNat_add, show (1 : UInt32).toNat = 1 from rfl, Nat.add_comm]
    change (sector + 1) % 2 ^ 32 = sector + 1
    rw [SECTOR_SIZE] at place
    omega
  have long : GET_LONG (nextCluster.bytes (1 + c * 4 / 512)) offs =
      UInt32.ofNat (c.toNat + 1) := by
    refine getLong_ofNat (by omega) fun k below => ?_
    have inside : offs + k < SECTOR_SIZE := by
      rw [SECTOR_SIZE] at place ⊢
      omega
    have entry : ((sector + 1 - 1) * 128 + (offs + k) / 4 + 1) / 256 ^ ((offs + k) % 4) % 256 =
        (c.toNat + 1) / 256 ^ k % 256 := by
      rw [SECTOR_SIZE] at place
      have digit : (offs + k) % 4 = k := by omega
      have number : (sector + 1 - 1) * 128 + (offs + k) / 4 + 1 = c.toNat + 1 := by omega
      rw [digit, number]
    unfold Volume.bytes
    rw [Nat.div_eq_of_lt inside, Nat.mod_eq_of_lt inside]
    change UInt8.ofNat
      ((((1 + c * 4 / 512 + 0 + 0 : UInt32).toNat - 1) * 128 + (offs + k) / 4 + 1) /
      256 ^ ((offs + k) % 4) % 256) = _
    rw [UInt32.add_zero, UInt32.add_zero, block, entry]
  change GET_LONG (nextCluster.bytes (1 + c * 4 / 512)) offs &&& 0x0fffffff = _
  apply UInt32.toNat.inj
  rw [long, UInt32.toNat_and, UInt32.toNat_ofNat_of_lt' (show c.toNat + 1 < 2 ^ 32 by omega)]
  exact (Nat.and_two_pow_sub_one_eq_mod _ 28).trans (Nat.mod_eq_of_lt bits)

/-- `n` clusters in order from the third on; the first one is cluster 2 -/
def laterClusters (n : Nat) : List UInt32 := (List.range n).map fun i => UInt32.ofNat (i + 3)

theorem laterClusters_linked {n : Nat} (bits : n + 3 < 2 ^ 28) :
    nextCluster.Linked (2 :: laterClusters n) := by
  have value : ∀ i < n + 1, (2 :: laterClusters n)[i]? = some (UInt32.ofNat (i + 2)) := by
    intro i below
    cases i with
    | zero => rfl
    | succ i =>
      rw [List.getElem?_cons_succ, laterClusters, List.getElem?_map,
        List.getElem?_range (by omega), Option.map_some]
  refine List.isChain_iff_getElem.mpr fun i below => ?_
  rw [List.length_cons, laterClusters, List.length_map, List.length_range] at below
  have here := List.getElem?_eq_some_iff.mp (value i (by omega))
  have next := List.getElem?_eq_some_iff.mp (value (i + 1) (by omega))
  have number : (UInt32.ofNat (i + 2)).toNat = i + 2 :=
    UInt32.toNat_ofNat_of_lt' (show i + 2 < 2 ^ 32 by omega)
  rw [here.2, next.2, nextCluster_fatEntry (by omega), number]

theorem laterClusters_nodup {n : Nat} (bits : n + 3 < 2 ^ 28) : (2 :: laterClusters n).Nodup := by
  have number : ∀ i < n, (UInt32.ofNat (i + 3)).toNat = i + 3 := fun i below =>
    UInt32.toNat_ofNat_of_lt' (show i + 3 < 2 ^ 32 by omega)
  refine List.nodup_cons.mpr ⟨fun mem => ?_, List.Nodup.map_on ?_ List.nodup_range⟩
  · obtain ⟨i, below, same⟩ := List.mem_map.mp mem
    have value := congrArg UInt32.toNat same
    rw [number i (List.mem_range.mp below), show (2 : UInt32).toNat = 2 from rfl] at value
    omega
  · intro i below j below' same
    have value := congrArg UInt32.toNat same
    rw [number i (List.mem_range.mp below), number j (List.mem_range.mp below')] at value
    omega

/-- Two gibibytes, all in order: not a byte is copied. -/
theorem fatCopyFile_two_gib : ∃ rest, nextCluster.Linked (2 :: rest) ∧ (2 :: rest).Nodup ∧
    (0x80000000 : UInt32).toNat ⌈/⌉ nextCluster.info.cbytes ≤ (2 :: rest).length ∧
    nextCluster.info.clusterSize.toNat = 2 ^ 7 ∧ (∀ n, nextCluster.fault n = none) ∧
    ¬∀ s, ∃ fuel t, fatCopyFile nextCluster fuel 2 0x80000000 0x1000 s = some (t, true) ∧
      t.mem = nextCluster.loadChain (nextCluster.info.clusters 0x80000000 (2 :: rest)) 0x1000
        s.mem := by
  have linked := laterClusters_linked (n := 32767) (by decide)
  have enough : (0x80000000 : UInt32).toNat ⌈/⌉ nextCluster.info.cbytes ≤
      (2 :: laterClusters 32767).length := by
    rw [laterClusters, List.length_cons, List.length_map, List.length_range]
    decide
  have long : ¬SizeFits nextCluster.info 0x80000000 (2 :: laterClusters 32767) := by
    rintro (small | ⟨int, _⟩)
    · exact absurd small (by decide)
    · exact absurd int (by decide)
  refine ⟨_, linked, ?_, enough, rfl, fun _ => rfl, fun copies => ?_⟩
  · exact laterClusters_nodup (by decide)
  · have some_ : 0 <
        (nextCluster.info.clusters 0x80000000 (2 :: laterClusters 32767)).length := by
      rw [FsInfo.clusters, List.length_take, Nat.min_eq_left enough]
      decide
    have room : 0 < nextCluster.info.cbytes := by decide
    obtain ⟨mem, changes⟩ := loadChain_changes 0x1000 room some_
    obtain ⟨fuel, t, call, loaded⟩ := copies (.boot mem mem)
    have same := (fatCopyFile_too_long (k := 7) (fun _ => rfl) rfl linked enough long call).2
    exact changes (loaded.symm.trans (congrArg Fat.mem same))

end Mx6xBsp.Ipl
