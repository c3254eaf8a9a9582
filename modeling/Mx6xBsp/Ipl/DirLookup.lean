import Mathlib.Data.List.TakeWhile
import Mathlib.Logic.Function.Iterate
import Mx6xBsp.Ipl.FileCopy

/-!
# The entry that a name finds

The walks of `copy_named_file_fat16` and `copy_named_file_fat32` up to the call of
`fat_copy_file` (`lookNamedFile`), with the entry they end at. `Root` is a root
directory, and `Root.wanted` is the entry that a name means. The code takes the
first entry that its own test accepts (`accepts`), which looks at no attribute and
compares the beginning of the name.
-/

namespace Mx6xBsp.Ipl

variable {vol : Volume} {s t : Fat}

/-- The place of a directory entry: its sector, and where in the sector it begins -/
abbrev Slot : Type := UInt32 × Nat

/-! ## The walks without the copy -/

inductive Look
  | entry (ent : Nat)
  | done
  | more

/-- `scanEntries` with the entry it ends at -/
def lookEntries (cluster : (Nat → UInt8) → Nat → UInt32) (blk : Nat → UInt8) (name : List UInt8) :
    Nat → Nat → Look
  | 0, _ => .more
  | n + 1, ent =>
    if blk ent = ENT_END then .done
    else if blk ent = ENT_UNUSED then lookEntries cluster blk name n (ent + 32)
    else if nameMatches blk ent name ∧ cluster blk ent ≠ 0 then .entry ent
    else lookEntries cluster blk name n (ent + 32)

/-- `copyNamedFileFat16` up to the copy: the fuel that is left, and the entry -/
def lookFat16 (vol : Volume) (name : List UInt8) :
    Nat → UInt32 → Fat → Option (Nat × Fat × Option Slot)
  | 0, _, _ => none
  | fuel + 1, dirSector, s =>
    if dirSector < vol.info.rootDirStart + vol.info.rootDirSectors then
      let (s, ok) := s.readDir vol dirSector
      if ok then
        match lookEntries clustLo s.blk name (SECTOR_SIZE / 32) 0 with
        | .entry ent => some (fuel, s, some (dirSector, ent))
        | .done => some (fuel, s, none)
        | .more => lookFat16 vol name fuel (dirSector + 1) s
      else some (fuel, s, none)
    else some (fuel, s, none)

/-- `searchCluster` up to the copy: whether the walk is over, and the entry -/
def lookCluster (vol : Volume) (name : List UInt8) :
    Nat → UInt32 → Fat → Fat × Bool × Option Slot
  | 0, _, s => (s, false, none)
  | n + 1, sector, s =>
    let (s, ok) := s.readDir vol sector
    if ok then
      match lookEntries GET_CLUSTER s.blk name (SECTOR_SIZE / 32) 0 with
      | .entry ent => (s, true, some (sector, ent))
      | .done => (s, false, none)
      | .more => lookCluster vol name n (sector + 1) s
    else (s, true, none)

/-- `copyNamedFileFat32` up to the copy -/
def lookFat32 (vol : Volume) (name : List UInt8) :
    Nat → UInt32 → Fat → Option (Nat × Fat × Option Slot)
  | 0, _, _ => none
  | fuel + 1, dirClust, s =>
    if vol.info.endOfFile dirClust then some (fuel, s, none)
    else
      match lookCluster vol name vol.info.clusterSize.toNat
        (vol.info.cluster2fsector dirClust) s with
      | (s, true, found) => some (fuel, s, found)
      | (s, false, _) =>
        let (s, dirClust) := s.fatGetFatEntry vol dirClust
        lookFat32 vol name fuel dirClust s

/-- Where an entry has the number of its first cluster -/
def FatType.entryCluster : FatType → (Nat → UInt8) → Nat → UInt32
  | .fat32 => GET_CLUSTER
  | _ => clustLo

/-- `fat_copy_named_file` up to the copy -/
def lookNamedFile (vol : Volume) (name : List UInt8) (fuel : Nat) (s : Fat) :
    Option (Nat × Fat × Option Slot) :=
  match vol.info.fatType with
  | .fat12 | .fat16 => lookFat16 vol name fuel vol.info.rootDirStart s
  | .fat32 => lookFat32 vol name fuel vol.info.rootDirStart s

/-- What is done with the entry; its sector is in the buffer. -/
def copyFound (vol : Volume) (buf : Nat) : Nat × Fat × Option Slot → Option (Fat × Bool)
  | (_, s, none) => some (s, false)
  | (fuel, s, some slot) =>
    fatCopyFile vol fuel (vol.info.fatType.entryCluster s.blk slot.2)
      (GET_LONG s.blk (slot.2 + 28)) buf s

theorem scanEntries_look {cluster : (Nat → UInt8) → Nat → UInt32} {blk : Nat → UInt8}
    {name : List UInt8} {n ent : Nat} :
    scanEntries (cluster blk) blk name n ent =
      match lookEntries cluster blk name n ent with
      | .entry ent => .found (cluster blk ent) (GET_LONG blk (ent + 28))
      | .done => .done
      | .more => .more := by
  induction n generalizing ent with
  | zero => rfl
  | succ n ih =>
    unfold scanEntries lookEntries
    split
    · rfl
    · split
      · exact ih
      · split
        · rfl
        · exact ih

theorem copyNamedFileFat16_look {buf fuel : Nat} {name : List UInt8} {dirSector : UInt32}
    (type : vol.info.fatType ≠ .fat32) :
    copyNamedFileFat16 vol buf name fuel dirSector s =
      (lookFat16 vol name fuel dirSector s).bind (copyFound vol buf) := by
  have low : vol.info.fatType.entryCluster = clustLo := by
    cases kind : vol.info.fatType with
    | fat32 => exact absurd kind type
    | _ => rfl
  induction fuel generalizing dirSector s with
  | zero => rfl
  | succ fuel ih =>
    unfold copyNamedFileFat16 lookFat16
    dsimp only
    rw [scanEntries_look]
    split
    · split
      · cases lookEntries clustLo (s.readDir vol dirSector).1.blk name (SECTOR_SIZE / 32) 0 with
        | entry ent =>
          rw [Option.bind_some, copyFound, low]
        | done => rfl
        | more => exact ih
      · rfl
    · rfl

theorem searchCluster_look {buf fuel n : Nat} {name : List UInt8} {sector : UInt32}
    (type : vol.info.fatType = .fat32) :
    searchCluster vol buf name fuel n sector s =
      match lookCluster vol name n sector s with
      | (s, true, found) => (copyFound vol buf (fuel, s, found)).map fun (s, ok) => (s, some ok)
      | (s, false, _) => some (s, none) := by
  have whole : vol.info.fatType.entryCluster = GET_CLUSTER := by
    rw [type]
    rfl
  induction n generalizing sector s with
  | zero => rfl
  | succ n ih =>
    unfold searchCluster lookCluster
    dsimp only
    rw [scanEntries_look]
    split
    · cases lookEntries GET_CLUSTER (s.readDir vol sector).1.blk name (SECTOR_SIZE / 32) 0 with
      | entry ent =>
        dsimp only [copyFound]
        rw [whole]
      | done => rfl
      | more => exact ih
    · rfl

theorem copyNamedFileFat32_look {buf fuel : Nat} {name : List UInt8} {dirClust : UInt32}
    (type : vol.info.fatType = .fat32) :
    copyNamedFileFat32 vol buf name fuel dirClust s =
      (lookFat32 vol name fuel dirClust s).bind (copyFound vol buf) := by
  induction fuel generalizing dirClust s with
  | zero => rfl
  | succ fuel ih =>
    unfold copyNamedFileFat32 lookFat32
    rw [searchCluster_look type]
    split
    · rfl
    · rcases lookCluster vol name vol.info.clusterSize.toNat
        (vol.info.cluster2fsector dirClust) s with ⟨u, ended, found⟩
      cases ended with
      | true =>
        dsimp only
        rw [Option.bind_some]
        cases copyFound vol buf (fuel, u, found) with
        | none => rfl
        | some result => rfl
      | false => exact ih

/-- `fat_copy_named_file` is its walk and then `fat_copy_file` with the entry. -/
theorem fatCopyNamedFile_look {buf fuel : Nat} {name : List UInt8} :
    fatCopyNamedFile vol fuel buf name s =
      (lookNamedFile vol name fuel s).bind (copyFound vol buf) := by
  unfold fatCopyNamedFile lookNamedFile
  cases type : vol.info.fatType with
  | fat32 => exact copyNamedFileFat32_look type
  | _ =>
    refine copyNamedFileFat16_look ?_
    rw [type]
    decide

/-! ## Lists that end at a mark -/

section Marks

variable {α : Type} {ends p q : α → Bool} {l more : List α}

/-- The members before the first one that ends the list -/
def before (ends : α → Bool) (l : List α) : List α := l.takeWhile fun x => !ends x

theorem before_append_of_open (open_ : ∀ x ∈ l, ends x = false) :
    before ends (l ++ more) = l ++ before ends more := by
  induction l with
  | nil => rfl
  | cons x l ih =>
    have first := open_ x List.mem_cons_self
    unfold before
    rw [List.cons_append, List.takeWhile_cons_of_pos (by rw [first]; rfl), List.cons_append]
    exact congrArg (x :: ·) (ih fun y mem => open_ y (List.mem_cons_of_mem _ mem))

theorem before_of_open (open_ : ∀ x ∈ l, ends x = false) : before ends l = l := by
  have whole : before ends (l ++ []) = l ++ before ends [] := before_append_of_open open_
  rwa [show before ends ([] : List α) = [] from rfl, List.append_nil] at whole

theorem before_append_of_ended (ended : ∃ x ∈ l, ends x = true) :
    before ends (l ++ more) = before ends l := by
  induction l with
  | nil =>
    obtain ⟨x, mem, _⟩ := ended
    cases mem
  | cons x l ih =>
    unfold before
    rw [List.cons_append]
    cases first : ends x with
    | true => rw [List.takeWhile_cons_of_neg (by rw [first]; decide),
        List.takeWhile_cons_of_neg (by rw [first]; decide)]
    | false =>
      obtain ⟨y, mem, last⟩ := ended
      have later : ∃ x ∈ l, ends x = true := by
        rcases List.mem_cons.mp mem with rfl | mem
        · rw [first] at last
          cases last
        · exact ⟨y, mem, last⟩
      rw [List.takeWhile_cons_of_pos (by rw [first]; rfl),
        List.takeWhile_cons_of_pos (by rw [first]; rfl)]
      exact congrArg (x :: ·) (ih later)

theorem before_cons_of_open {x : α} (first : ends x = false) :
    before ends (x :: l) = x :: before ends l :=
  List.takeWhile_cons_of_pos (by rw [first]; rfl)

theorem before_cons_of_end {x : α} (first : ends x = true) : before ends (x :: l) = [] :=
  List.takeWhile_cons_of_neg (by rw [first]; decide)

theorem mem_before {x : α} (mem : x ∈ before ends l) : x ∈ l ∧ ends x = false :=
  ⟨(List.takeWhile_sublist _).mem mem, by simpa using List.mem_takeWhile_imp mem⟩

/-- Up to the first member that `q` holds of, `p` holds of the same. -/
def AgreeUpTo (p q : α → Bool) (l : List α) : Prop :=
  ∀ pre x post, l = pre ++ x :: post → (∀ y ∈ pre, q y = false) → p x = q x

theorem agreeUpTo_iff : AgreeUpTo p q l ↔ l.find? p = l.find? q := by
  constructor
  · intro agree
    induction l with
    | nil => rfl
    | cons a l ih =>
      have first := agree [] a l rfl (fun _ mem => by cases mem)
      cases wanted : q a with
      | true => rw [List.find?_cons_of_pos wanted, List.find?_cons_of_pos (first.trans wanted)]
      | false =>
        rw [List.find?_cons_of_neg (by rw [first, wanted]; decide),
          List.find?_cons_of_neg (by rw [wanted]; decide)]
        refine ih fun pre x post split none => ?_
        refine agree (a :: pre) x post (congrArg (a :: ·) split) fun y mem => ?_
        rcases List.mem_cons.mp mem with rfl | mem
        · exact wanted
        · exact none y mem
  · intro same
    induction l with
    | nil => exact fun pre x post split => by simp at split
    | cons a l ih =>
      have first : p a = q a := by
        cases accepted : p a with
        | true =>
          rw [List.find?_cons_of_pos accepted] at same
          exact (List.find?_some same.symm).symm
        | false =>
          cases wanted : q a with
          | true =>
            rw [List.find?_cons_of_pos wanted] at same
            exact absurd (List.find?_some same) (by rw [accepted]; decide)
          | false => rfl
      intro pre x post split none
      cases pre with
      | nil =>
        cases split
        exact first
      | cons y pre =>
        cases split
        have skipped := none a List.mem_cons_self
        rw [List.find?_cons_of_neg (by rw [first, skipped]; decide),
          List.find?_cons_of_neg (by rw [skipped]; decide)] at same
        exact ih same pre x post rfl fun y mem => none y (List.mem_cons_of_mem _ mem)

end Marks

/-! ## Entries -/

/-- An entry behind the last one of the directory -/
def endsAt (blk : Nat → UInt8) (ent : Nat) : Bool := blk ent == ENT_END

/-- The test of the loop over the entries of a sector -/
def acceptsAt (cluster : (Nat → UInt8) → Nat → UInt32) (blk : Nat → UInt8) (name : List UInt8)
    (ent : Nat) : Bool :=
  blk ent ≠ ENT_UNUSED ∧ nameMatches blk ent name ∧ cluster blk ent ≠ 0

/-- The places in a sector -/
def offsets (n ent : Nat) : List Nat := List.range' ent n 32

theorem lookEntries_spec {cluster : (Nat → UInt8) → Nat → UInt32} {blk : Nat → UInt8}
    {name : List UInt8} {n ent : Nat} :
    match lookEntries cluster blk name n ent with
    | .entry e => (before (endsAt blk) (offsets n ent)).find?
        (acceptsAt cluster blk name) = some e
    | .done => (before (endsAt blk) (offsets n ent)).find?
        (acceptsAt cluster blk name) = none ∧ ∃ e ∈ offsets n ent, endsAt blk e = true
    | .more => (before (endsAt blk) (offsets n ent)).find?
        (acceptsAt cluster blk name) = none ∧ ∀ e ∈ offsets n ent, endsAt blk e = false := by
  induction n generalizing ent with
  | zero => exact ⟨rfl, fun e mem => by cases mem⟩
  | succ n ih =>
    have split : offsets (n + 1) ent = ent :: offsets n (ent + 32) := List.range'_succ
    rw [split]
    by_cases last : blk ent = ENT_END
    · have ended : endsAt blk ent = true := beq_iff_eq.mpr last
      rw [lookEntries, if_pos last, before_cons_of_end ended]
      exact ⟨rfl, ent, List.mem_cons_self, ended⟩
    · have open_ : endsAt blk ent = false := beq_eq_false_iff_ne.mpr last
      rw [before_cons_of_open open_]
      by_cases accepted : acceptsAt cluster blk name ent = true
      · obtain ⟨used, fits⟩ := of_decide_eq_true accepted
        rw [lookEntries, if_neg last, if_neg used, if_pos fits]
        exact List.find?_cons_of_pos accepted
      · have skip : lookEntries cluster blk name (n + 1) ent =
            lookEntries cluster blk name n (ent + 32) := by
          rw [lookEntries, if_neg last]
          split
          · rfl
          · rename_i used
            exact if_neg fun fits => accepted (decide_eq_true ⟨used, fits⟩)
        rw [skip, List.find?_cons_of_neg accepted]
        have rest := @ih (ent + 32)
        revert rest
        cases lookEntries cluster blk name n (ent + 32) with
        | entry e => exact id
        | done => exact fun rest => ⟨rest.1, rest.2.imp fun e mem =>
          ⟨List.mem_cons_of_mem _ mem.1, mem.2⟩⟩
        | more => exact fun rest => ⟨rest.1, List.forall_mem_cons.mpr ⟨open_, rest.2⟩⟩

theorem nameMatches_congr {blk blk' : Nat → UInt8} {ent : Nat} {name : List UInt8}
    (same : ∀ i < ent + 32, blk i = blk' i) :
    nameMatches blk ent name = nameMatches blk' ent name := by
  unfold nameMatches
  rw [Bool.eq_iff_iff, List.all_eq_true, List.all_eq_true]
  refine forall₂_congr fun i mem => ?_
  have below := List.mem_range.mp mem
  rw [same (ent + i) (by omega)]

theorem entryCluster_congr {type : FatType} {blk blk' : Nat → UInt8} {ent : Nat}
    (same : ∀ i < ent + 32, blk i = blk' i) :
    type.entryCluster blk ent = type.entryCluster blk' ent := by
  have low : clustLo blk ent = clustLo blk' ent := by
    unfold clustLo GET_WORD
    rw [same (ent + 26) (by omega), same (ent + 26 + 1) (by omega)]
  cases type with
  | fat32 =>
    change clustLo blk ent ||| (GET_WORD blk (ent + 20) <<< 16) = _
    rw [low, GET_WORD, same (ent + 20) (by omega), same (ent + 20 + 1) (by omega)]
    rfl
  | _ => exact low

theorem lookEntries_congr {type : FatType} {blk blk' : Nat → UInt8} {name : List UInt8}
    {n ent : Nat} (same : ∀ i < ent + 32 * n, blk i = blk' i) :
    lookEntries type.entryCluster blk name n ent =
      lookEntries type.entryCluster blk' name n ent := by
  induction n generalizing ent with
  | zero => rfl
  | succ n ih =>
    have here : ∀ i < ent + 32, blk i = blk' i := fun i below => same i (by omega)
    have below : ∀ i < ent + 32 + 32 * n, blk i = blk' i := fun i below => same i (by omega)
    have rest := ih below
    unfold lookEntries
    rw [same ent (by omega), nameMatches_congr here, entryCluster_congr here, rest]

/-! ## Directories -/

def Volume.ends (vol : Volume) (slot : Slot) : Bool := endsAt (vol.bytes slot.1) slot.2

/-- The code's test of an entry -/
def Volume.accepts (vol : Volume) (name : List UInt8) (slot : Slot) : Bool :=
  acceptsAt vol.info.fatType.entryCluster (vol.bytes slot.1) name slot.2

/-- The places in a sector -/
def sectorSlots (sector : UInt32) : List Slot := (offsets (SECTOR_SIZE / 32) 0).map (sector, ·)

/-- The places in `n` sectors from one on -/
def slotsFrom (sector : UInt32) (n : Nat) : List Slot :=
  (List.range n).flatMap fun i => sectorSlots (sector + UInt32.ofNat i)

/-- The entry that the code takes from some places -/
def Volume.taken (vol : Volume) (name : List UInt8) (slots : List Slot) : Option Slot :=
  (before vol.ends slots).find? (vol.accepts name)

theorem slotsFrom_succ (sector : UInt32) (n : Nat) :
    slotsFrom sector (n + 1) = sectorSlots sector ++ slotsFrom (sector + 1) n := by
  unfold slotsFrom
  have first : sector + UInt32.ofNat 0 = sector := UInt32.add_zero sector
  have later : ∀ i, sector + UInt32.ofNat (i + 1) = sector + 1 + UInt32.ofNat i := by
    intro i
    rw [Nat.add_comm, UInt32.ofNat_add, UInt32.add_assoc]
    rfl
  rw [List.range_succ_eq_map, List.flatMap_cons, List.flatMap_map, first]
  simp only [Nat.succ_eq_add_one, later]

theorem taken_of_open {name : List UInt8} {slots more : List Slot}
    (open_ : ∀ x ∈ slots, vol.ends x = false) (none_ : vol.taken name slots = none) :
    vol.taken name (slots ++ more) = vol.taken name more := by
  unfold Volume.taken at none_ ⊢
  rw [before_of_open open_] at none_
  rw [before_append_of_open open_, List.find?_append, none_, Option.none_or]

theorem taken_of_ended {name : List UInt8} {slots more : List Slot}
    (ended : ∃ x ∈ slots, vol.ends x = true) :
    vol.taken name (slots ++ more) = vol.taken name slots := by
  unfold Volume.taken
  rw [before_append_of_ended ended]

theorem taken_of_some {name : List UInt8} {slots more : List Slot} {slot : Slot}
    (found : vol.taken name slots = some slot) :
    vol.taken name (slots ++ more) = some slot := by
  by_cases ended : ∃ x ∈ slots, vol.ends x = true
  · rw [taken_of_ended ended, found]
  · have open_ : ∀ x ∈ slots, vol.ends x = false := fun x mem =>
      Bool.eq_false_iff.mpr fun last => ended ⟨x, mem, last⟩
    unfold Volume.taken at found ⊢
    rw [before_of_open open_] at found
    rw [before_append_of_open open_, List.find?_append, found, Option.some_or]

theorem lookSector_spec (name : List UInt8) {blk : Nat → UInt8} {sector : UInt32}
    (same : ∀ i < SECTOR_SIZE, blk i = vol.bytes sector i) :
    match lookEntries vol.info.fatType.entryCluster blk name (SECTOR_SIZE / 32) 0 with
    | .entry e => vol.taken name (sectorSlots sector) = some (sector, e)
    | .done => vol.taken name (sectorSlots sector) = none ∧
        ∃ x ∈ sectorSlots sector, vol.ends x = true
    | .more => vol.taken name (sectorSlots sector) = none ∧
        ∀ x ∈ sectorSlots sector, vol.ends x = false := by
  have taken : vol.taken name (sectorSlots sector) =
      ((before (endsAt (vol.bytes sector)) (offsets (SECTOR_SIZE / 32) 0)).find?
        (acceptsAt vol.info.fatType.entryCluster (vol.bytes sector) name)).map (sector, ·) := by
    unfold Volume.taken sectorSlots before
    rw [List.takeWhile_map, List.find?_map]
    rfl
  rw [@lookEntries_congr _ _ (vol.bytes sector) _ _ _ fun i below =>
    same i (below.trans_eq (by decide)), taken]
  have spec := @lookEntries_spec vol.info.fatType.entryCluster (vol.bytes sector) name
    (SECTOR_SIZE / 32) 0
  revert spec
  cases lookEntries vol.info.fatType.entryCluster (vol.bytes sector) name (SECTOR_SIZE / 32) 0 with
  | entry e => exact fun spec => by rw [spec]; rfl
  | done =>
    rintro ⟨none, e, mem, last⟩
    exact ⟨by rw [none]; rfl, (sector, e), List.mem_map_of_mem mem, last⟩
  | more =>
    rintro ⟨none, open_⟩
    exact ⟨by rw [none]; rfl, List.forall_mem_map.mpr open_⟩

/-! ## The walk over sectors -/

theorem readDir_blk (sector : UInt32) (works : ∀ n, vol.fault n = none) :
    ∀ i < SECTOR_SIZE, (s.readDir vol sector).1.blk i = vol.bytes sector i := by
  intro i below
  have read : (s.readDir vol sector).1.blk i = (vol.readFsector s.reads sector).2 i :=
    readBlk_blk i below
  rwa [readFsector_ok (works _)] at read

theorem readDir_ok {sector : UInt32} (works : ∀ n, vol.fault n = none) :
    (s.readDir vol sector).2 = true :=
  congrArg Prod.fst (readFsector_ok (works s.reads))

theorem lookFat16_spec (name : List UInt8) {n : Nat} {dirSector : UInt32}
    (works : ∀ n, vol.fault n = none) (type : vol.info.fatType ≠ .fat32)
    (placed : vol.info.rootDirStart.toNat + vol.info.rootDirSectors.toNat < 2 ^ 32)
    (left : dirSector.toNat + n = vol.info.rootDirStart.toNat + vol.info.rootDirSectors.toNat) :
    ∃ fuel t, lookFat16 vol name (n + 1) dirSector s =
      some (fuel, t, vol.taken name (slotsFrom dirSector n)) := by
  have low : clustLo = vol.info.fatType.entryCluster := by
    cases kind : vol.info.fatType with
    | fat32 => exact absurd kind type
    | _ => rfl
  have bound : (vol.info.rootDirStart + vol.info.rootDirSectors).toNat =
      vol.info.rootDirStart.toNat + vol.info.rootDirSectors.toNat := by
    rw [UInt32.toNat_add, Nat.mod_eq_of_lt placed]
  induction n generalizing dirSector s with
  | zero =>
    have behind : ¬dirSector < vol.info.rootDirStart + vol.info.rootDirSectors := by
      rw [UInt32.lt_iff_toNat_lt, bound]
      omega
    refine ⟨0, s, ?_⟩
    rw [lookFat16, if_neg behind]
    rfl
  | succ n ih =>
    have inside : dirSector < vol.info.rootDirStart + vol.info.rootDirSectors := by
      rw [UInt32.lt_iff_toNat_lt, bound]
      omega
    have next : (dirSector + 1).toNat = dirSector.toNat + 1 := by
      rw [UInt32.toNat_add, show (1 : UInt32).toNat = 1 from rfl, Nat.mod_eq_of_lt (by omega)]
    obtain ⟨fuel, t, rest⟩ := ih (s := (s.readDir vol dirSector).1)
      (show (dirSector + 1).toNat + n = _ by omega)
    have here := lookSector_spec name (readDir_blk (s := s) dirSector works)
    rw [lookFat16, if_pos inside, slotsFrom_succ]
    dsimp only
    rw [if_pos (readDir_ok works), low]
    revert here
    cases lookEntries vol.info.fatType.entryCluster (s.readDir vol dirSector).1.blk name
      (SECTOR_SIZE / 32) 0 with
    | entry e => exact fun found => ⟨_, _, by rw [taken_of_some found]⟩
    | done => exact fun here => ⟨_, _, by rw [taken_of_ended here.2, here.1]⟩
    | more => exact fun here => ⟨fuel, t, by rw [taken_of_open here.2 here.1]; exact rest⟩

/-- The sectors of a cluster, of which some are read: what the directory is read for -/
theorem lookCluster_spec (name : List UInt8) {n : Nat} (sector : UInt32)
    (works : ∀ n, vol.fault n = none) (type : vol.info.fatType = .fat32) :
    ∃ t k, lookCluster vol name n sector s =
        (t, (vol.taken name (slotsFrom sector n)).isSome, vol.taken name (slotsFrom sector n)) ∧
      t.cacheValid = s.cacheValid ∧ k ≤ n ∧ (0 < n → 0 < k) ∧
      t.trace = s.trace ++ (List.range k).map fun i => .readDir (sector + UInt32.ofNat i) := by
  have whole : GET_CLUSTER = vol.info.fatType.entryCluster := by
    rw [type]
    rfl
  induction n generalizing sector s with
  | zero => exact ⟨s, 0, rfl, rfl, le_rfl, id, (List.append_nil _).symm⟩
  | succ n ih =>
    have here := lookSector_spec name (readDir_blk (s := s) sector works)
    have one : (s.readDir vol sector).1.trace = s.trace ++
        (List.range 1).map fun i => .readDir (sector + UInt32.ofNat i) := by
      change s.trace ++ [.readDir sector] = s.trace ++ [.readDir (sector + 0)]
      rw [UInt32.add_zero]
    have valid : (s.readDir vol sector).1.cacheValid = s.cacheValid := rfl
    rw [lookCluster, slotsFrom_succ]
    dsimp only
    rw [if_pos (readDir_ok works), whole]
    revert here
    cases lookEntries vol.info.fatType.entryCluster (s.readDir vol sector).1.blk name
      (SECTOR_SIZE / 32) 0 with
    | entry e =>
      intro found
      rw [taken_of_some found]
      exact ⟨_, 1, rfl, valid, Nat.succ_pos _, fun _ => Nat.one_pos, one⟩
    | done =>
      intro here
      rw [taken_of_ended here.2, here.1]
      exact ⟨_, 1, rfl, valid, Nat.succ_pos _, fun _ => Nat.one_pos, one⟩
    | more =>
      intro here
      obtain ⟨t, k, call, kept, few, _, trace⟩ :=
        ih (sector + 1) (s := (s.readDir vol sector).1)
      rw [taken_of_open here.2 here.1]
      refine ⟨t, k + 1, call, kept, Nat.succ_le_succ few, fun _ => Nat.succ_pos k, ?_⟩
      have later : ∀ i, sector + 1 + UInt32.ofNat i = sector + UInt32.ofNat (1 + i) := by
        intro i
        rw [UInt32.ofNat_add, ← UInt32.add_assoc]
        rfl
      rw [trace, one, List.append_assoc, Nat.add_comm k 1, List.range_add, List.map_append,
        List.map_map]
      simp only [later]
      rfl

/-! ## The walk over clusters -/

/-- The places in a cluster -/
def Volume.clusterSlots (vol : Volume) (c : UInt32) : List Slot :=
  slotsFrom (vol.info.cluster2fsector c) vol.info.clusterSize.toNat

/-- The clusters of the directory as the FAT goes on from a cluster -/
def Volume.dirCluster (vol : Volume) (c : UInt32) (n : Nat) : UInt32 := vol.fatEntry^[n] c

theorem lookup_untagged {c : UInt32} (works : ∀ n, vol.fault n = none)
    (type : vol.info.fatType = .fat32) (untagged : s.cacheValid = false) :
    (s.fatGetFatEntry vol c).2 = vol.fatEntry c ∧
      (s.fatGetFatEntry vol c).1.cacheValid = false := by
  have ready : s.Ready vol := by
    refine ⟨fun valid => ?_, fun fat12 => ?_⟩
    · rw [untagged] at valid
      cases valid
    · rw [type] at fat12
      cases fat12
  refine ⟨(ready.lookup works).1, ?_⟩
  change (s.switchFatEntry vol c).1.cacheValid = false
  unfold Fat.switchFatEntry
  rw [type]
  unfold Fat.getFatEntry32 Fat.getCachedEntry
  rw [untagged]
  dsimp only
  split
  · exact untagged
  · split <;> exact untagged

theorem lookFat32_cluster (name : List UInt8) {c : UInt32}
    (works : ∀ n, vol.fault n = none) (type : vol.info.fatType = .fat32)
    (untagged : s.cacheValid = false) (inside : vol.info.endOfFile c = false) :
    ∃ t k, t.cacheValid = false ∧ k ≤ vol.info.clusterSize.toNat ∧
      (0 < vol.info.clusterSize.toNat → 0 < k) ∧
      t.trace = s.trace ++ ((List.range k).map fun i =>
        .readDir (vol.info.cluster2fsector c + UInt32.ofNat i)) ++
        (if (vol.taken name (vol.clusterSlots c)).isSome then [] else [.getFatEntry c]) ∧
      ∀ fuel, lookFat32 vol name (fuel + 1) c s =
        match vol.taken name (vol.clusterSlots c) with
        | some slot => some (fuel, t, some slot)
        | none => lookFat32 vol name fuel (vol.fatEntry c) t := by
  obtain ⟨u, k, call, kept, few, some_, trace⟩ := lookCluster_spec name (s := s)
    (n := vol.info.clusterSize.toNat) (vol.info.cluster2fsector c) works type
  obtain ⟨answer, untagged'⟩ := lookup_untagged (c := c) works type (kept.trans untagged)
  have step : ∀ fuel, lookFat32 vol name (fuel + 1) c s =
      match ((u, (vol.taken name (vol.clusterSlots c)).isSome,
        vol.taken name (vol.clusterSlots c)) : Fat × Bool × Option Slot) with
      | (s, true, found) => some (fuel, s, found)
      | (s, false, _) => lookFat32 vol name fuel (s.fatGetFatEntry vol c).2
          (s.fatGetFatEntry vol c).1 := by
    intro fuel
    rw [lookFat32, if_neg (by rw [inside]; decide), call]
    rfl
  simp only [step]
  cases vol.taken name (vol.clusterSlots c) with
  | some slot =>
    exact ⟨u, k, kept.trans untagged, few, some_, by rw [trace]; exact (List.append_nil _).symm,
      fun _ => rfl⟩
  | none =>
    refine ⟨_, k, untagged', few, some_, ?_, fun _ => by rw [← answer]; rfl⟩
    change u.trace ++ [.getFatEntry c] = _
    rw [trace]
    rfl

theorem lookFat32_found {name : List UInt8} {c : UInt32} {rest : List UInt32} {slot : Slot}
    (works : ∀ n, vol.fault n = none) (type : vol.info.fatType = .fat32)
    (untagged : s.cacheValid = false) (linked : vol.Linked (c :: rest))
    (inside : ∀ d ∈ c :: rest, vol.info.endOfFile d = false)
    (found : vol.taken name ((c :: rest).flatMap vol.clusterSlots) = some slot) :
    ∃ fuel left t, lookFat32 vol name fuel c s = some (left, t, some slot) := by
  induction rest generalizing c s with
  | nil =>
    obtain ⟨t, k, -, -, -, -, call⟩ := lookFat32_cluster name works type
      untagged (inside c List.mem_cons_self)
    rw [List.flatMap_singleton] at found
    rw [found] at call
    exact ⟨1, 0, t, call 0⟩
  | cons d rest ih =>
    obtain ⟨next, linked⟩ := List.isChain_cons_cons.mp linked
    obtain ⟨t, k, untagged', -, -, -, call⟩ := lookFat32_cluster name works type
      untagged (inside c List.mem_cons_self)
    rw [List.flatMap_cons] at found
    cases here : vol.taken name (vol.clusterSlots c) with
    | some first =>
      rw [here] at call
      rw [taken_of_some here] at found
      cases found
      exact ⟨1, 0, t, call 0⟩
    | none =>
      have open_ : ∀ x ∈ vol.clusterSlots c, vol.ends x = false := fun x mem => by
        by_contra last
        rw [taken_of_ended ⟨x, mem, Bool.eq_true_of_not_eq_false last⟩, here] at found
        cases found
      rw [taken_of_open open_ here] at found
      obtain ⟨fuel, left, u, rest_⟩ := ih untagged' linked
        (fun e mem => inside e (List.mem_cons_of_mem _ mem)) found
      rw [here, next] at call
      exact ⟨fuel + 1, left, u, (call fuel).trans rest_⟩

/-- The walk comes to an end of the chain, and the code takes no entry on the way. -/
def Volume.Silent (vol : Volume) (name : List UInt8) (c : UInt32) : Prop :=
  ∃ n, vol.info.endOfFile (vol.dirCluster c n) = true ∧
    ∀ m < n, vol.taken name (vol.clusterSlots (vol.dirCluster c m)) = none

theorem lookFat32_silent {name : List UInt8} {c : UInt32} (works : ∀ n, vol.fault n = none)
    (type : vol.info.fatType = .fat32) (untagged : s.cacheValid = false)
    (silent : vol.Silent name c) :
    ∃ fuel left t, lookFat32 vol name fuel c s = some (left, t, none) := by
  obtain ⟨n, ended, nothing⟩ := silent
  induction n generalizing c s with
  | zero =>
    refine ⟨1, 0, s, ?_⟩
    rw [lookFat32]
    exact if_pos ended
  | succ n ih =>
    cases inside : vol.info.endOfFile c with
    | true =>
      refine ⟨1, 0, s, ?_⟩
      rw [lookFat32]
      exact if_pos inside
    | false =>
      obtain ⟨t, k, untagged', -, -, -, call⟩ := lookFat32_cluster name works type
        untagged inside
      obtain ⟨fuel, left, u, rest⟩ := ih untagged' ended fun m below =>
        nothing (m + 1) (Nat.succ_lt_succ below)
      rw [show vol.taken name (vol.clusterSlots c) = none from nothing 0 n.succ_pos] at call
      exact ⟨fuel + 1, left, u, (call fuel).trans rest⟩

theorem lookFat32_cases {name : List UInt8} {c : UInt32} {fuel left : Nat} {found : Option Slot}
    (works : ∀ n, vol.fault n = none) (type : vol.info.fatType = .fat32)
    (untagged : s.cacheValid = false)
    (call : lookFat32 vol name fuel c s = some (left, t, found)) :
    found = none ∧ vol.Silent name c ∨
      ∃ slot, found = some slot ∧ vol.accepts name slot = true := by
  induction fuel generalizing c s with
  | zero => cases call
  | succ fuel ih =>
    cases inside : vol.info.endOfFile c with
    | true =>
      rw [lookFat32, if_pos inside] at call
      cases call
      exact Or.inl ⟨rfl, 0, inside, fun m below => absurd below m.not_lt_zero⟩
    | false =>
      obtain ⟨u, k, untagged', -, -, -, step⟩ := lookFat32_cluster name works type
        untagged inside
      rw [step fuel] at call
      cases here : vol.taken name (vol.clusterSlots c) with
      | some slot =>
        rw [here] at call
        cases call
        exact Or.inr ⟨slot, rfl, List.find?_some here⟩
      | none =>
        rw [here] at call
        rcases ih untagged' call with ⟨rfl, n, ended, nothing⟩ | accepted
        · refine Or.inl ⟨rfl, n + 1, ended, fun m below => ?_⟩
          cases m with
          | zero => exact here
          | succ m => exact nothing m (Nat.lt_of_succ_lt_succ below)
        · exact Or.inr accepted

theorem lookFat16_more {name : List UInt8} {c : UInt32} {fuel left more : Nat}
    {found : Option Slot} (call : lookFat16 vol name fuel c s = some (left, t, found)) :
    lookFat16 vol name (fuel + more) c s = some (left + more, t, found) := by
  induction fuel generalizing c s with
  | zero => cases call
  | succ fuel ih =>
    rw [Nat.add_right_comm]
    unfold lookFat16 at call ⊢
    split
    · rename_i inside
      rw [if_pos inside] at call
      dsimp only at call ⊢
      split
      · rename_i ok
        rw [if_pos ok] at call
        split <;> rename_i look <;> rw [look] at call
        · cases call
          rfl
        · cases call
          rfl
        · exact ih call
      · rename_i failed
        rw [if_neg failed] at call
        cases call
        rfl
    · rename_i outside
      rw [if_neg outside] at call
      cases call
      rfl

theorem lookFat32_more {name : List UInt8} {c : UInt32} {fuel left more : Nat}
    {found : Option Slot} (call : lookFat32 vol name fuel c s = some (left, t, found)) :
    lookFat32 vol name (fuel + more) c s = some (left + more, t, found) := by
  induction fuel generalizing c s with
  | zero => cases call
  | succ fuel ih =>
    rw [Nat.add_right_comm]
    unfold lookFat32 at call ⊢
    split
    · rename_i ended
      rw [if_pos ended] at call
      cases call
      rfl
    · rename_i inside
      rw [if_neg inside] at call
      split <;> rename_i look <;> rw [look] at call
      · cases call
        rfl
      · exact ih call

theorem lookNamedFile_unique {name : List UInt8} {fuel fuel' left left' : Nat} {t t' : Fat}
    {found found' : Option Slot}
    (call : lookNamedFile vol name fuel s = some (left, t, found))
    (call' : lookNamedFile vol name fuel' s = some (left', t', found')) : found = found' := by
  have longer : lookNamedFile vol name (fuel + fuel') s = some (left + fuel', t, found) := by
    unfold lookNamedFile at call ⊢
    split <;> rename_i type <;> rw [type] at call
    · exact lookFat16_more call
    · exact lookFat16_more call
    · exact lookFat32_more call
  have longer' : lookNamedFile vol name (fuel' + fuel) s = some (left' + fuel, t', found') := by
    unfold lookNamedFile at call' ⊢
    split <;> rename_i type <;> rw [type] at call'
    · exact lookFat16_more call'
    · exact lookFat16_more call'
    · exact lookFat32_more call'
  rw [Nat.add_comm, longer] at longer'
  exact (Prod.mk.inj (Prod.mk.inj (Option.some.inj longer')).2).2

/-! ## Root directories -/

/-- The first of the values that end a chain; the one before it marks a bad cluster. -/
def FatType.mark : FatType → UInt32
  | .fat12 => 0x0ff8
  | .fat16 => 0xfff8
  | .fat32 => 0x0ffffff8

/-- A well-formed chain in the FAT of the card -/
structure Volume.Chain (vol : Volume) (chain : List UInt32) : Prop where
  linked : vol.Linked chain
  clusters : ∀ c ∈ chain, 2 ≤ c ∧ c < vol.info.fatType.mark - 1
  ended : ∀ c ∈ chain.getLast?, vol.info.fatType.mark ≤ vol.fatEntry c

theorem Volume.Chain.inside {chain : List UInt32} (chain_ : vol.Chain chain) :
    ∀ c ∈ chain, vol.info.endOfFile c = false := by
  intro c mem
  have below := (chain_.clusters c mem).2
  unfold FsInfo.endOfFile
  revert below
  cases vol.info.fatType <;> intro below <;>
    simp only [Bool.or_eq_false_iff, beq_eq_false_iff_ne] <;>
    exact ⟨fun same => absurd below (by rw [same]; decide),
      fun same => absurd below (by rw [same]; decide)⟩

/-- A root directory: `count` entries in sectors of their own, in the number that `fat_detect_type`
computes, or a chain of clusters -/
inductive Volume.Root (vol : Volume)
  | fixed (count : Nat) (type : vol.info.fatType ≠ .fat32)
      (sectors : vol.info.rootDirSectors.toNat = (count * 32 + 511) / 512)
      (placed : vol.info.rootDirStart.toNat + vol.info.rootDirSectors.toNat < 2 ^ 32)
  | chained (rest : List UInt32) (type : vol.info.fatType = .fat32)
      (chain : vol.Chain (vol.info.rootDirStart :: rest))

/-- The places in all the sectors of a fixed root directory -/
def Volume.rootSlots (vol : Volume) : List Slot :=
  slotsFrom vol.info.rootDirStart vol.info.rootDirSectors.toNat

/-- The places of the entries of a directory, in order -/
def Volume.Root.slots : vol.Root → List Slot
  | .fixed count .. => vol.rootSlots.take count
  | .chained rest .. => (vol.info.rootDirStart :: rest).flatMap vol.clusterSlots

def DOT : UInt8 := 0x2E
def BLANK : UInt8 := 0x20

def pad (n : Nat) (text : List UInt8) : List UInt8 :=
  text ++ List.replicate (n - text.length) BLANK

/-- The 11 bytes that stand for a name in a directory -/
def padded (name : List UInt8) : List UInt8 :=
  if DOT ∈ name then
    pad 8 (name.takeWhile (· ≠ DOT)) ++ pad 3 ((name.dropWhile (· ≠ DOT)).drop 1)
  else pad 11 name

/-- A file, not a part of a long name, a volume label or a directory -/
def regularAt (blk : Nat → UInt8) (ent : Nat) : Bool :=
  blk ent ≠ ENT_UNUSED ∧ blk (ent + 11) &&& 0x18 = 0

/-- The entry is a file of this name. -/
def Volume.means (vol : Volume) (name : List UInt8) (slot : Slot) : Bool :=
  regularAt (vol.bytes slot.1) slot.2 ∧
    (List.range 11).map (fun i => vol.bytes slot.1 (slot.2 + i)) = padded name

/-- The entries before the end marker -/
def Volume.Root.entries (root : vol.Root) : List Slot := before vol.ends root.slots

/-- The entry that a name means -/
def Volume.Root.wanted (root : vol.Root) (name : List UInt8) : Option Slot :=
  root.entries.find? (vol.means name)

/-- The code takes nothing where the walk goes: in all sectors of a fixed root directory, or in each
cluster up to an end marker in it, until the chain ends. -/
def Volume.Root.Silent (name : List UInt8) : vol.Root → Prop
  | .fixed .. => vol.taken name vol.rootSlots = none
  | .chained .. => vol.Silent name vol.info.rootDirStart

/-- Up to the entry that the name means, the test of the code accepts no other, and accepts this
one; if there is none, the code takes nothing. -/
def Volume.Root.Finds (root : vol.Root) (name : List UInt8) : Prop :=
  AgreeUpTo (vol.accepts name) (vol.means name) root.entries ∧
    ((∀ slot ∈ root.entries, vol.means name slot = false) → root.Silent name)

/-- The buffer has no tag before the first file is copied; a fixed root directory needs no FAT. -/
def Volume.Root.Untagged (s : Fat) : vol.Root → Prop
  | .fixed .. => True
  | .chained .. => s.cacheValid = false

/-! ## What the lookup finds -/

/-- The first cluster of an entry on the card -/
def Volume.slotCluster (vol : Volume) (slot : Slot) : UInt32 :=
  vol.info.fatType.entryCluster (vol.bytes slot.1) slot.2

/-- The size in an entry on the card -/
def Volume.slotSize (vol : Volume) (slot : Slot) : UInt32 :=
  GET_LONG (vol.bytes slot.1) (slot.2 + 28)

/-- A file is loaded from the entry that the walk has ended at; without one it is an error. -/
def Volume.copySlot (vol : Volume) (buf : Nat) : Nat × Fat × Option Slot → Option (Fat × Bool)
  | (_, s, none) => some (s, false)
  | (fuel, s, some slot) =>
    fatCopyFile vol fuel (vol.slotCluster slot) (vol.slotSize slot) buf s

/-- The sector of the entry is in the buffer. -/
def Held (vol : Volume) (s : Fat) : Option Slot → Prop
  | none => True
  | some slot => slot.2 + 32 ≤ SECTOR_SIZE ∧ ∀ i < SECTOR_SIZE, s.blk i = vol.bytes slot.1 i

theorem lookEntries_place {cluster : (Nat → UInt8) → Nat → UInt32} {blk : Nat → UInt8}
    {name : List UInt8} {n ent e : Nat} (look : lookEntries cluster blk name n ent = .entry e) :
    e + 32 ≤ ent + 32 * n := by
  have spec := @lookEntries_spec cluster blk name n ent
  rw [look] at spec
  have mem := (mem_before (List.mem_of_find?_eq_some spec)).1
  obtain ⟨i, below, rfl⟩ := List.mem_range'.mp mem
  omega

theorem held_entry {cluster : (Nat → UInt8) → Nat → UInt32} {name : List UInt8} {sector : UInt32}
    {e : Nat} (works : ∀ n, vol.fault n = none)
    (look : lookEntries cluster (s.readDir vol sector).1.blk name (SECTOR_SIZE / 32) 0 = .entry e) :
    Held vol (s.readDir vol sector).1 (some (sector, e)) :=
  ⟨(lookEntries_place look).trans_eq (by decide), readDir_blk _ works⟩

theorem lookFat16_held {name : List UInt8} {fuel left : Nat} {dirSector : UInt32}
    {found : Option Slot} (works : ∀ n, vol.fault n = none)
    (call : lookFat16 vol name fuel dirSector s = some (left, t, found)) : Held vol t found := by
  induction fuel generalizing dirSector s with
  | zero => cases call
  | succ fuel ih =>
    unfold lookFat16 at call
    dsimp only at call
    split at call
    · split at call
      · split at call
        · rename_i ent look
          cases call
          exact held_entry works look
        · cases call
          trivial
        · exact ih call
      · cases call
        trivial
    · cases call
      trivial

theorem lookCluster_held {name : List UInt8} {n : Nat} {sector : UInt32} {ended : Bool}
    {found : Option Slot} (works : ∀ n, vol.fault n = none)
    (call : lookCluster vol name n sector s = (t, ended, found)) : Held vol t found := by
  induction n generalizing sector s with
  | zero =>
    cases call
    trivial
  | succ n ih =>
    unfold lookCluster at call
    dsimp only at call
    split at call
    · split at call
      · rename_i ent look
        cases call
        exact held_entry works look
      · cases call
        trivial
      · exact ih call
    · cases call
      trivial

theorem lookFat32_held {name : List UInt8} {fuel left : Nat} {dirClust : UInt32}
    {found : Option Slot} (works : ∀ n, vol.fault n = none)
    (call : lookFat32 vol name fuel dirClust s = some (left, t, found)) : Held vol t found := by
  induction fuel generalizing dirClust s with
  | zero => cases call
  | succ fuel ih =>
    unfold lookFat32 at call
    split at call
    · cases call
      trivial
    · split at call
      · rename_i u slot look
        cases call
        exact lookCluster_held works look
      · exact ih call

theorem fatCopyNamedFile_slot {buf fuel : Nat} {name : List UInt8}
    (works : ∀ n, vol.fault n = none) :
    fatCopyNamedFile vol fuel buf name s =
      (lookNamedFile vol name fuel s).bind (vol.copySlot buf) := by
  rw [fatCopyNamedFile_look]
  cases call : lookNamedFile vol name fuel s with
  | none => rfl
  | some result =>
    obtain ⟨left, t, found⟩ := result
    have held : Held vol t found := by
      unfold lookNamedFile at call
      split at call
      · exact lookFat16_held works call
      · exact lookFat16_held works call
      · exact lookFat32_held works call
    cases found with
    | none => rfl
    | some slot =>
      obtain ⟨place, same⟩ := held
      have cluster : vol.info.fatType.entryCluster t.blk slot.2 = vol.slotCluster slot :=
        entryCluster_congr fun i below => same i (by omega)
      have size : GET_LONG t.blk (slot.2 + 28) = vol.slotSize slot := by
        unfold Volume.slotSize GET_LONG
        rw [same _ (by omega), same _ (by omega), same _ (by omega), same _ (by omega)]
      rw [Option.bind_some, Option.bind_some, copyFound, Volume.copySlot, cluster, size]

/-! ## The lookup of a name -/

theorem lookNamedFile_fixed (name : List UInt8) (works : ∀ n, vol.fault n = none)
    (type : vol.info.fatType ≠ .fat32)
    (placed : vol.info.rootDirStart.toNat + vol.info.rootDirSectors.toNat < 2 ^ 32) :
    ∃ fuel left t, lookNamedFile vol name fuel s =
      some (left, t, vol.taken name vol.rootSlots) := by
  obtain ⟨left, t, call⟩ := lookFat16_spec name (s := s) works type placed rfl
  refine ⟨vol.info.rootDirSectors.toNat + 1, left, t, Eq.trans ?_ call⟩
  unfold lookNamedFile
  split
  · rfl
  · rfl
  · rename_i fat32
    exact absurd fat32 type

theorem lookNamedFile_chained {name : List UInt8} {fuel : Nat}
    (type : vol.info.fatType = .fat32) :
    lookNamedFile vol name fuel s = lookFat32 vol name fuel vol.info.rootDirStart s := by
  rw [lookNamedFile, type]

/-- The entry that the code takes from the directory, if it takes one, is where the walk ends. -/
theorem lookNamedFile_found {root : vol.Root} {name : List UInt8} {slot : Slot}
    (works : ∀ n, vol.fault n = none) (untagged : root.Untagged s)
    (found : vol.taken name root.slots = some slot) :
    ∃ fuel left t, lookNamedFile vol name fuel s = some (left, t, some slot) := by
  cases root with
  | fixed count type sectors placed =>
    have whole : vol.taken name vol.rootSlots = some slot := by
      rw [← List.take_append_drop count vol.rootSlots]
      exact taken_of_some found
    rw [← whole]
    exact lookNamedFile_fixed name works type placed
  | chained rest type chain =>
    simp only [lookNamedFile_chained type]
    exact lookFat32_found works type untagged chain.linked chain.inside found

theorem lookNamedFile_silent {root : vol.Root} {name : List UInt8}
    (works : ∀ n, vol.fault n = none) (untagged : root.Untagged s) (silent : root.Silent name) :
    ∃ fuel left t, lookNamedFile vol name fuel s = some (left, t, none) := by
  cases root with
  | fixed count type sectors placed =>
    rw [← show vol.taken name vol.rootSlots = none from silent]
    exact lookNamedFile_fixed name works type placed
  | chained rest type chain =>
    simp only [lookNamedFile_chained type]
    exact lookFat32_silent works type untagged silent

theorem lookNamedFile_cases {root : vol.Root} {name : List UInt8} {fuel left : Nat}
    {found : Option Slot} (works : ∀ n, vol.fault n = none) (untagged : root.Untagged s)
    (call : lookNamedFile vol name fuel s = some (left, t, found)) :
    found = none ∧ root.Silent name ∨
      ∃ slot, found = some slot ∧ vol.accepts name slot = true := by
  cases root with
  | fixed count type sectors placed =>
    obtain ⟨_, _, _, call'⟩ := lookNamedFile_fixed name (s := s) works type placed
    obtain rfl := lookNamedFile_unique call call'
    cases taken : vol.taken name vol.rootSlots with
    | none => exact Or.inl ⟨rfl, taken⟩
    | some slot => exact Or.inr ⟨slot, rfl, List.find?_some taken⟩
  | chained rest type chain =>
    rw [lookNamedFile_chained type] at call
    exact lookFat32_cases works type untagged call

/-- `fat_copy_named_file` loads the file that the name means, or fails without one, exactly when its
own test of an entry finds it and the walk takes nothing else. -/
theorem directory_lookup_iff (vol : Volume) (root : vol.Root) (name : List UInt8) (buf : Nat)
    (s : Fat) (works : ∀ n, vol.fault n = none) (untagged : root.Untagged s) :
    (∀ fuel, fatCopyNamedFile vol fuel buf name s =
        (lookNamedFile vol name fuel s).bind (vol.copySlot buf)) ∧
      ((∃ fuel left t, lookNamedFile vol name fuel s = some (left, t, root.wanted name)) ↔
        root.Finds name) := by
  refine ⟨fun fuel => fatCopyNamedFile_slot works, ?_⟩
  unfold Volume.Root.Finds
  rw [agreeUpTo_iff]
  constructor
  · rintro ⟨fuel, left, t, call⟩
    cases taken : vol.taken name root.slots with
    | some slot =>
      obtain ⟨_, _, _, call'⟩ := lookNamedFile_found works untagged taken
      have same : some slot = root.wanted name := (lookNamedFile_unique call call').symm
      refine ⟨taken.trans same, fun none => ?_⟩
      have mem := List.mem_of_find?_eq_some same.symm
      exact absurd (List.find?_some same.symm) (by rw [none slot mem]; decide)
    | none =>
      rcases lookNamedFile_cases works untagged call with
        ⟨nothing, silent⟩ | ⟨slot, same, accepted⟩
      · exact ⟨taken.trans nothing.symm, fun _ => silent⟩
      · have mem := List.mem_of_find?_eq_some same
        exact absurd accepted (List.find?_eq_none.mp taken slot mem)
  · rintro ⟨agree, silent⟩
    cases wanted : root.wanted name with
    | some slot => exact lookNamedFile_found works untagged (agree.trans wanted)
    | none =>
      refine lookNamedFile_silent works untagged (silent fun slot mem => ?_)
      exact Bool.eq_false_iff.mpr (List.find?_eq_none.mp wanted slot mem)

theorem forall_mem_some {α : Type} {p : α → Prop} {a : α} : (∀ b ∈ some a, p b) ↔ p a :=
  ⟨fun all => all a rfl, fun holds _ same => Option.some.inj same ▸ holds⟩

/-- The root directory of the example volume -/
def twoClustersRoot : twoClusters.Root :=
  .chained [3] rfl ⟨List.isChain_cons_cons.mpr ⟨by decide, List.isChain_singleton _⟩,
    List.forall_mem_cons.mpr ⟨by decide, List.forall_mem_singleton.mpr (by decide)⟩,
    forall_mem_some.mpr (by decide)⟩

/-- The entry in the second cluster is the one that the name means. -/
theorem directory_lookup_small :
    (∀ fuel, fatCopyNamedFile twoClusters fuel 0x1000 [0x41] (.boot blank blank) =
        (lookNamedFile twoClusters [0x41] fuel (.boot blank blank)).bind
          (twoClusters.copySlot 0x1000)) ∧
      ((∃ fuel left t, lookNamedFile twoClusters [0x41] fuel (.boot blank blank) =
          some (left, t, twoClustersRoot.wanted [0x41])) ↔ twoClustersRoot.Finds [0x41]) :=
  directory_lookup_iff twoClusters twoClustersRoot [0x41] 0x1000 (.boot blank blank) (fun _ => rfl)
    rfl

/-- FAT16 with a root directory of one sector: one entry, the file `AB` in cluster 2 -/
def longerName : Volume where
  info := ⟨0, .fat16, 1, 1, 1, 3, 4, FsInfo.reservedWord_one, FsInfo.clusterByte_one⟩
  block b i :=
    if b = 3 then longs [0x20204241, 0x20202020, 0x20202020, 0, 0, 0, 0x00020000, 512] i
    else if b = 1 then longs [0xfffffff8, 0x0000ffff] i
    else 0
  fault _ := none

def longerNameRoot : longerName.Root := .fixed 16 (by decide) (by decide) (by decide)

/-- There is no file `A`, and `AB` is loaded for it. -/
theorem directory_lookup_prefix : longerNameRoot.wanted [0x41] = none ∧
    (∃ left t, lookNamedFile longerName [0x41] 1 (.boot blank blank) =
      some (left, t, some (3, 0))) ∧
    ¬∃ fuel left t, lookNamedFile longerName [0x41] fuel (.boot blank blank) =
      some (left, t, longerNameRoot.wanted [0x41]) := by
  have none_ : longerNameRoot.wanted [0x41] = none := by decide
  have found : ∃ left t, lookNamedFile longerName [0x41] 1 (.boot blank blank) =
      some (left, t, some (3, 0)) := ⟨_, _, rfl⟩
  refine ⟨none_, found, fun ⟨fuel, left, t, call⟩ => ?_⟩
  obtain ⟨_, _, call'⟩ := found
  have same := lookNamedFile_unique call call'
  rw [none_] at same
  cases same

end Mx6xBsp.Ipl
