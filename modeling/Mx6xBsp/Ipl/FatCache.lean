import Mathlib.Tactic.Common
import Mx6xBsp.Ipl.FatFs

/-!
# Coherence of the FAT cache

The tag of the block buffer is right as long as nothing else is read over a
tagged sector (`Harmless`). The state after a run is the replay of its trace, so
that `fat_cache_coherent_iff` speaks about every moment of it, those within a
call of `fat_copy_named_file` included.
-/

namespace Mx6xBsp.Ipl

open Runs

variable {vol : Volume} {s t : Fat}

/-- The tag of the block buffer describes what is in it. -/
def Fat.Coherent (vol : Volume) (s : Fat) : Prop :=
  s.cacheValid = true → s.gFatSector ≠ -1 → ∀ i < SECTOR_SIZE, s.blk i = vol.bytes s.gFatSector i

/-- The entry the FAT on the card has for a cluster. -/
def Volume.fatEntry (vol : Volume) (cluster : UInt32) : UInt32 :=
  match vol.info.fatType with
  | .fat12 =>
    let word := GET_WORD (vol.bytes (vol.info.fat1Start + (cluster + cluster / 2) / 512))
      ((cluster + cluster / 2) % 512).toNat
    if cluster &&& 1 ≠ 0 then word >>> 4 else word &&& 0xfff
  | .fat16 => GET_WORD (vol.bytes (vol.info.fat1Start + cluster * 2 / 512))
      (cluster * 2 % 512).toNat
  | .fat32 => GET_LONG (vol.bytes (vol.info.fat1Start + cluster * 4 / 512))
      (cluster * 4 % 512).toNat &&& 0x0fffffff

/-- The entries of FAT32 are the longs of the FAT in order: a cluster number has 28 bits. -/
theorem fatEntry32_address {cluster : UInt32} (bits : cluster.toNat < 2 ^ 28) :
    (cluster * 4 / 512).toNat * SECTOR_SIZE + (cluster * 4 % 512).toNat = 4 * cluster.toNat := by
  rw [UInt32.toNat_div, UInt32.toNat_mod, UInt32.toNat_mul, SECTOR_SIZE,
    show (4 : UInt32).toNat = 4 from rfl, show (512 : UInt32).toNat = 512 from rfl]
  omega

/-- The size of an entry in bytes. -/
def FatType.width : FatType → UInt32
  | .fat32 => 4
  | _ => 2

/-- `get_fat_entry16` and `get_fat_entry32` find the sector in the buffer. -/
def Fat.Hit (vol : Volume) (s : Fat) (cluster : UInt32) : Prop :=
  s.cacheValid = true ∧
    s.gFatSector = vol.info.fat1Start + cluster * vol.info.fatType.width / 512

/-- If the buffer has a tag, `data` is the same as the sector of the tag. -/
def Fat.Keeps (vol : Volume) (s : Fat) (data : Nat → UInt8) : Prop :=
  s.cacheValid = true → s.gFatSector ≠ -1 → ∀ i < SECTOR_SIZE, data i = vol.bytes s.gFatSector i

/-- The operation reads nothing else over a tagged sector, and no read of a FAT entry fails; what
goes wrong without an effect does not count. -/
def Harmless (vol : Volume) (s : Fat) : FatOp → Prop
  | .getFatEntry cluster => s.Hit vol cluster ∨ vol.fault s.reads = none ∨
      vol.fatEntry cluster = 0 ∧ ∀ rest ∈ vol.fault s.reads, s.Keeps vol rest
  | .readDir sector => s.Keeps vol (vol.readFsector s.reads sector).2
  | .start => True
  | .readFile .. => True

/-! ## One operation -/

theorem FsInfo.fatSector_ne (info : FsInfo) (x : UInt32) : info.fat1Start + x / 512 ≠ -1 := by
  intro none
  have value := congrArg UInt32.toNat none
  rw [UInt32.toNat_add, UInt32.toNat_div] at value
  have word := info.reservedWord
  have bound := x.toNat_lt
  rw [show (-1 : UInt32).toNat = 4294967295 from rfl,
    show (512 : UInt32).toNat = 512 from rfl] at value
  omega

theorem getWord_congr {m m' : Nat → UInt8} (same : ∀ i < SECTOR_SIZE, m i = m' i) (c : UInt32) :
    GET_WORD m (c * 2 % 512).toNat = GET_WORD m' (c * 2 % 512).toNat := by
  have offs : (c * 2 % 512).toNat + 1 < SECTOR_SIZE := by
    rw [UInt32.toNat_mod, UInt32.toNat_mul, SECTOR_SIZE, show (2 : UInt32).toNat = 2 from rfl,
      show (512 : UInt32).toNat = 512 from rfl]
    omega
  unfold GET_WORD
  rw [same _ (by omega), same _ offs]

theorem getLong_congr {m m' : Nat → UInt8} (same : ∀ i < SECTOR_SIZE, m i = m' i) (c : UInt32) :
    GET_LONG m (c * 4 % 512).toNat = GET_LONG m' (c * 4 % 512).toNat := by
  have offs : (c * 4 % 512).toNat + 3 < SECTOR_SIZE := by
    rw [UInt32.toNat_mod, UInt32.toNat_mul, SECTOR_SIZE, show (4 : UInt32).toNat = 4 from rfl,
      show (512 : UInt32).toNat = 512 from rfl]
    omega
  unfold GET_LONG
  rw [same _ (by omega), same _ (by omega), same _ (by omega), same _ offs]

theorem readFsector_ok {sector : UInt32} (ok : vol.fault s.reads = none) :
    vol.readFsector s.reads sector = (true, vol.bytes sector) := by
  rw [Volume.readFsector, ok]

theorem readFsector_fault {sector : UInt32} {rest : Nat → UInt8}
    (fault : vol.fault s.reads = some rest) :
    vol.readFsector s.reads sector = (false, rest) := by
  rw [Volume.readFsector, fault]

theorem readBlk_blk {sector : UInt32} : ∀ i < SECTOR_SIZE,
    (s.readBlk vol sector 1).1.blk i = (vol.readFsector s.reads sector).2 i := by
  intro i below
  exact if_pos ⟨Nat.zero_le _, by simpa using below⟩

/-- Reading over a tagged buffer leaves the tag right exactly when it reads the same. -/
theorem readBlk_coherent {sector : UInt32} : (s.readBlk vol sector 1).1.Coherent vol ↔
    s.Keeps vol (vol.readFsector s.reads sector).2 := by
  refine forall_congr' fun _ => forall_congr' fun _ => ?_
  constructor
  · intro same i below
    rw [← readBlk_blk i below]
    exact same i below
  · intro same i below
    rw [readBlk_blk i below]
    exact same i below

/-- The cached lookup, from a right tag: it gives the entry and leaves the tag right exactly when
the sector is there, or can be read. -/
theorem Fat.Coherent.getCachedEntry {width : UInt32} {load : (Nat → UInt8) → Nat → UInt32}
    {cluster : UInt32} (coherent : s.Coherent vol)
    (within : ∀ m m' : Nat → UInt8, (∀ i < SECTOR_SIZE, m i = m' i) →
      load m (cluster * width % 512).toNat = load m' (cluster * width % 512).toNat) :
    let sector := vol.info.fat1Start + cluster * width / 512
    let entry := load (vol.bytes sector) (cluster * width % 512).toNat
    ((s.getCachedEntry vol width load cluster).1.Coherent vol ∧
        (s.getCachedEntry vol width load cluster).2 = entry) ↔
      (s.cacheValid = true ∧ s.gFatSector = sector) ∨ vol.fault s.reads = none ∨
        entry = 0 ∧ ∀ rest ∈ vol.fault s.reads, s.Keeps vol rest := by
  intro sector entry
  by_cases hit : s.cacheValid = true ∧ s.gFatSector = sector
  · have found : s.getCachedEntry vol width load cluster =
        (s, load s.blk (cluster * width % 512).toNat) :=
      if_pos (by rw [hit.1, hit.2, beq_self_eq_true]; rfl)
    have same : load s.blk (cluster * width % 512).toNat = entry := by
      refine within _ _ fun i below => ?_
      rw [coherent hit.1 (hit.2 ▸ vol.info.fatSector_ne _) i below, hit.2]
    rw [found]
    exact ⟨fun _ => Or.inl hit, fun _ => ⟨coherent, same⟩⟩
  · have miss : ¬(s.cacheValid && s.gFatSector == sector) = true := by
      rwa [Bool.and_eq_true, beq_iff_eq]
    have looked : s.getCachedEntry vol width load cluster =
        if (s.readBlk vol sector 1).2 then
          ({ (s.readBlk vol sector 1).1 with gFatSector := sector },
            load (s.readBlk vol sector 1).1.blk (cluster * width % 512).toNat)
        else ((s.readBlk vol sector 1).1, 0) := if_neg miss
    rw [looked]
    cases fault : vol.fault s.reads with
    | none =>
      have read := @readFsector_ok _ s sector fault
      have buffer : ∀ i < SECTOR_SIZE,
          (s.readBlk vol sector 1).1.blk i = vol.bytes sector i := by
        intro i below
        rw [readBlk_blk i below, read]
      have worked : (s.readBlk vol sector 1).2 = true := congrArg Prod.fst read
      rw [if_pos worked]
      exact ⟨fun _ => Or.inr (Or.inl rfl),
        fun _ => ⟨fun _ _ i below => buffer i below, within _ _ buffer⟩⟩
    | some rest =>
      have read := @readFsector_fault _ s sector _ fault
      have kept : (s.readBlk vol sector 1).1.Coherent vol ↔ s.Keeps vol rest := by
        rw [readBlk_coherent, read]
      have failed : (s.readBlk vol sector 1).2 = false := congrArg Prod.fst read
      rw [if_neg (by rw [failed]; decide), kept]
      constructor
      · rintro ⟨keeps, zero⟩
        refine Or.inr (Or.inr ⟨zero.symm, fun r mem => ?_⟩)
        cases mem
        exact keeps
      · rintro (now | none | ⟨zero, keeps⟩)
        · exact absurd now hit
        · cases none
        · exact ⟨keeps rest rfl, zero.symm⟩

/-- `fat_get_fat_entry` returns the entry of the card. -/
def Answers (vol : Volume) (s : Fat) : FatOp → Prop
  | .getFatEntry cluster => (s.fatGetFatEntry vol cluster).2 = vol.fatEntry cluster
  | _ => True

theorem Fat.Coherent.next {op : FatOp} (type : vol.info.fatType ≠ .fat12)
    (coherent : s.Coherent vol) :
    (s.next vol op).Coherent vol ∧ Answers vol s op ↔ Harmless vol s op := by
  cases op with
  | getFatEntry cluster =>
    unfold Harmless Fat.Hit Answers Volume.fatEntry
    change (s.switchFatEntry vol cluster).1.Coherent vol ∧
      (s.switchFatEntry vol cluster).2 = _ ↔ _
    unfold Fat.switchFatEntry
    cases kind : vol.info.fatType with
    | fat12 => exact absurd kind type
    | fat16 => exact coherent.getCachedEntry fun m m' same => getWord_congr same cluster
    | fat32 =>
      exact coherent.getCachedEntry fun m m' same =>
        congrArg (· &&& 0x0fffffff) (getLong_congr same cluster)
  | readDir sector =>
    refine (and_iff_left trivial).trans ?_
    exact readBlk_coherent (s := s)
  | start => exact ⟨fun _ => trivial, fun _ => ⟨fun _ none => absurd rfl none, trivial⟩⟩
  | readFile sector buf cnt => exact ⟨fun _ => trivial, fun _ => ⟨coherent, trivial⟩⟩

/-! ## Traces -/

variable {blk mem : Nat → UInt8}

/-- The state after some operations. -/
def replay (vol : Volume) (blk mem : Nat → UInt8) (ops : List FatOp) : Fat :=
  ops.foldl (Fat.next vol) (.boot blk mem)

/-- The state is what the operations of its trace have made of the first one. -/
def Replayed (vol : Volume) (blk mem : Nat → UInt8) (s : Fat) : Prop :=
  s = replay vol blk mem s.trace

theorem Replayed.next (replayed : Replayed vol blk mem s) (op : FatOp) :
    Replayed vol blk mem (s.next vol op) := by
  have after : (s.next vol op).trace = s.trace ++ [op] := by
    cases op <;> rfl
  rw [Replayed, after, replay, List.foldl_append]
  exact congrArg (Fat.next vol · op) replayed

theorem Replayed.consolidate {sz fuel txf txf' : Nat} {currC nextC : UInt32}
    (replayed : Replayed vol blk mem s)
    (call : consolidate vol sz fuel currC txf s = some (t, nextC, txf')) :
    Replayed vol blk mem t := by
  induction fuel generalizing currC txf s with
  | zero => cases call
  | succ fuel ih =>
    unfold Ipl.consolidate at call
    split at call
    · dsimp only at call
      split at call
      · split at call
        · exact ih (replayed.next (.getFatEntry currC)) call
        · cases call
      · cases call
        exact replayed.next (.getFatEntry currC)
    · cases call
      exact replayed

theorem Replayed.copyLoop {fuel sz buf : Nat} {currC : UInt32} {ok : Bool}
    (replayed : Replayed vol blk mem s)
    (call : copyLoop vol fuel currC sz buf s = some (t, ok)) : Replayed vol blk mem t := by
  induction fuel generalizing currC sz buf s with
  | zero => cases call
  | succ fuel ih =>
    unfold Ipl.copyLoop at call
    split at call
    · split at call
      · cases call
      · rename_i u nextC txf together
        have read := (replayed.consolidate together).next
          (.readFile (vol.info.cluster2fsector currC) buf (txf / SECTOR_SIZE))
        dsimp only at call
        split at call
        · exact ih read call
        · cases call
          exact read
    · cases call
      exact replayed

theorem Replayed.fatCopyFile {fuel buf : Nat} {cluster size : UInt32} {ok : Bool}
    (replayed : Replayed vol blk mem s)
    (call : fatCopyFile vol fuel cluster size buf s = some (t, ok)) : Replayed vol blk mem t :=
  (replayed.next .start).copyLoop call

theorem Replayed.copyNamedFileFat16 {fuel buf : Nat} {name : List UInt8} {dirSector : UInt32}
    {ok : Bool} (replayed : Replayed vol blk mem s)
    (call : copyNamedFileFat16 vol buf name fuel dirSector s = some (t, ok)) :
    Replayed vol blk mem t := by
  induction fuel generalizing dirSector s with
  | zero => cases call
  | succ fuel ih =>
    have read := replayed.next (.readDir dirSector)
    unfold Ipl.copyNamedFileFat16 at call
    split at call
    · dsimp only at call
      split at call
      · split at call
        · exact read.fatCopyFile call
        · cases call
          exact read
        · exact ih read call
      · cases call
        exact read
    · cases call
      exact replayed

theorem Replayed.searchCluster {fuel buf n : Nat} {name : List UInt8} {sector : UInt32}
    {result : Option Bool} (replayed : Replayed vol blk mem s)
    (call : searchCluster vol buf name fuel n sector s = some (t, result)) :
    Replayed vol blk mem t := by
  induction n generalizing sector s with
  | zero =>
    cases call
    exact replayed
  | succ n ih =>
    have read := replayed.next (.readDir sector)
    unfold Ipl.searchCluster at call
    dsimp only at call
    split at call
    · split at call
      · obtain ⟨⟨u, ok⟩, copied, same⟩ := Option.map_eq_some_iff.mp call
        cases same
        exact read.fatCopyFile copied
      · cases call
        exact read
      · exact ih read call
    · cases call
      exact read

theorem Replayed.copyNamedFileFat32 {fuel buf : Nat} {name : List UInt8} {dirClust : UInt32}
    {ok : Bool} (replayed : Replayed vol blk mem s)
    (call : copyNamedFileFat32 vol buf name fuel dirClust s = some (t, ok)) :
    Replayed vol blk mem t := by
  induction fuel generalizing dirClust s with
  | zero => cases call
  | succ fuel ih =>
    unfold Ipl.copyNamedFileFat32 at call
    split at call
    · cases call
      exact replayed
    · split at call
      · cases call
      · rename_i u result searched
        cases call
        exact replayed.searchCluster searched
      · rename_i u searched
        exact ih ((replayed.searchCluster searched).next (.getFatEntry dirClust)) call

theorem Replayed.fatCopyNamedFile {fuel buf : Nat} {name : List UInt8} {ok : Bool}
    (replayed : Replayed vol blk mem s)
    (call : fatCopyNamedFile vol fuel buf name s = some (t, ok)) : Replayed vol blk mem t := by
  unfold Ipl.fatCopyNamedFile at call
  split at call
  · exact replayed.copyNamedFileFat16 call
  · exact replayed.copyNamedFileFat16 call
  · exact replayed.copyNamedFileFat32 call

theorem run_replayed {ops : List IplOp} (run : Run (IplStep vol) (.boot blk mem) ops s) :
    Replayed vol blk mem s := by
  refine run.invariant (fun {s op t} replayed step => ?_) (show Replayed vol blk mem _ from rfl)
  cases op with
  | getFatEntry cluster =>
    obtain rfl := step
    exact replayed.next (.getFatEntry cluster)
  | readDir sector =>
    obtain rfl := step
    exact replayed.next (.readDir sector)
  | copyNamed buf name =>
    obtain ⟨fuel, ok, call⟩ := step
    exact replayed.fatCopyNamedFile call

/-- At every moment of a run the tag is right, and `fat_get_fat_entry` returns the entry of the
card, exactly when no operation on the way does harm. -/
theorem fat_cache_coherent_iff (vol : Volume) (blk mem : Nat → UInt8) (ops : List IplOp) (s : Fat)
    (type : vol.info.fatType ≠ .fat12) (run : Run (IplStep vol) (.boot blk mem) ops s) :
    s = replay vol blk mem s.trace ∧
      (((∀ pre, pre <+: s.trace → (replay vol blk mem pre).Coherent vol) ∧
          ∀ pre op, pre ++ [op] <+: s.trace → Answers vol (replay vol blk mem pre) op) ↔
        ∀ pre op, pre ++ [op] <+: s.trace → Harmless vol (replay vol blk mem pre) op) :=
  ⟨run_replayed run, along_iff (fun coherent => coherent.next type) fun valid => by cases valid⟩

/-! ## A directory of two clusters -/

/-- Little-endian longs from the start of a sector on. -/
def longs (values : List Nat) (i : Nat) : UInt8 :=
  UInt8.ofNat (values.getD (i / 4) 0 / 256 ^ (i % 4) % 256)

/-- FAT32 with one sector per cluster: the directory is in the clusters 2 and 3, and the file `A` in
the clusters 4 and 5. The first sector of the directory has deleted long names only. -/
def twoClusters : Volume where
  info := ⟨0, .fat32, 0, 1, 1, 2, 2, FsInfo.reservedWord_one, FsInfo.clusterByte_one⟩
  block b i :=
    if b = 1 then longs [0x0ffffff8, 0x0fffffff, 3, 0x0fffffff, 5, 0x0fffffff] i
    else if b = 2 then longs [0xffff41e5, 0xffffffff, 0x0fffffff, 0, 0, 0, 0, 0] (i % 32)
    else if b = 3 then longs [0x20202041, 0x20202020, 0x20202020, 0, 0, 0, 0x00040000, 600] i
    else 0
  fault _ := none

def blank (_ : Nat) : UInt8 := 0

/-- The first load of the file is right. -/
theorem fat_cache_coherent_small : ∃ s, Run (IplStep twoClusters) (.boot blank blank)
      [.copyNamed 0x1000 [0x41]] s ∧
    s.trace = [.readDir 2, .getFatEntry 2, .readDir 3, .start, .getFatEntry 4,
      .readFile 4 0x1000 1, .readFile 5 0x1200 1] ∧
    ∀ pre op, pre ++ [op] <+: s.trace →
      Answers twoClusters (replay twoClusters blank blank pre) op := by
  have run : Run (IplStep twoClusters) (.boot blank blank) [.copyNamed 0x1000 [0x41]] _ :=
    .single ⟨8, true, rfl⟩
  refine ⟨_, run, rfl, ?_⟩
  refine ((fat_cache_coherent_iff twoClusters blank blank _ _ (by decide) run).2.mpr ?_).2
  rintro pre op ⟨post, split⟩
  cases op with
  | getFatEntry cluster => exact Or.inr (Or.inl rfl)
  | readDir sector =>
    have early : pre = [] ∨ pre = [.readDir 2, .getFatEntry 2] := by
      have split : pre ++ [.readDir sector] ++ post = [.readDir 2, .getFatEntry 2, .readDir 3,
        .start, .getFatEntry 4, .readFile 4 0x1000 1, .readFile 5 0x1200 1] := split
      rcases pre with _ | ⟨a, _ | ⟨b, _ | ⟨c, _ | ⟨d, _ | ⟨e, _ | ⟨f, _ | ⟨g, pre⟩⟩⟩⟩⟩⟩⟩ <;>
        simp at split ⊢
      exact ⟨split.1, split.2.1⟩
    rcases early with rfl | rfl <;> exact fun valid => by cases valid
  | start => trivial
  | readFile sector buf cnt => trivial

/-- The second load takes the directory for the FAT: it does not get past the first cluster, and
does not find the file. -/
theorem fat_cache_stale : ∃ s, Run (IplStep twoClusters) (.boot blank blank)
      [.copyNamed 0x1000 [0x41], .copyNamed 0x1000 [0x41]] s ∧
    ∃ pre, pre ++ [.readDir 2, .getFatEntry 2] = s.trace ∧
      ((replay twoClusters blank blank (pre ++ [.readDir 2])).fatGetFatEntry twoClusters 2).2 =
        0x0fffffff ∧
      twoClusters.fatEntry 2 = 3 ∧
      ¬(replay twoClusters blank blank (pre ++ [.readDir 2])).Coherent twoClusters := by
  refine ⟨_, .cons ⟨8, true, rfl⟩ <| .single ⟨8, false, rfl⟩, [.readDir 2, .getFatEntry 2,
    .readDir 3, .start, .getFatEntry 4, .readFile 4 0x1000 1, .readFile 5 0x1200 1], rfl,
    by decide, by decide, fun coherent => ?_⟩
  have first := coherent rfl (by decide) 0 (by decide)
  revert first
  decide

end Mx6xBsp.Ipl
