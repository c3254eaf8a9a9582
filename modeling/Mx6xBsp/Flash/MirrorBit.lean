import Mathlib.Algebra.BigOperators.Group.Finset.Basic
import Mathlib.Algebra.Order.BigOperators.Group.Finset
import Mx6xBsp.Flash.Words
import Mx6xBsp.Lib.Traces

/-!
# Erasing MirrorBit chips

The matched set `f3s_aMB_v2erase` and `f3s_aMB_v2sync`. The erase callout clears the
record of `DQ4` and waits until no device toggles, and the sync callout takes an erase
for done only if it has itself seen `DQ4` on every device that still toggled.
`erase_never_done` has what follows: an erase that all devices finish ends in an error.
-/

namespace Mx6xBsp.Flash.MirrorBit

open Traces

/-! ## The sector -/

/-- What the reads of a sector show after the erase command: `DQ6` of a device toggles while the
device is busy, and a device that has finished reads all ones. -/
structure Timeline (cfg : Flashcfg) where
  word : Nat → BitVec 64
  busy : Nat → Nat
  toggles : ∀ i < cfg.chipInter, ∀ k, k + 1 < busy i →
    cfg.dq 6 (word k) i ≠ cfg.dq 6 (word (k + 1)) i
  ones : ∀ i < cfg.chipInter, ∀ k, busy i ≤ k → ∀ n < 8 * cfg.deviceWidth,
    cfg.dq n (word k) i = true

/-- The geometry of a chip, `geo_num` entries of `geo_vect` -/
structure Geo where
  unitNum : BitVec 16
  unitPow2 : BitVec 16

structure Dbase where
  geoNum : Nat
  geoVect : Nat → Geo

/-- The reads so far, and the record of `DQ4` of the thread, which has none before its first
erase -/
structure Thread where
  reads : Nat
  DQ4 : Option (BitVec 64)

abbrev Calling := StateT Thread Option

/-! ## The callouts -/

section Callouts

variable {cfg : Flashcfg} (line : Timeline cfg)

def MAX_ITER_TIMEOUT : Nat := 1000000

/-- A read anywhere in the sector -/
def readmem : Calling (BitVec 64) := fun th =>
  some (line.word th.reads, { th with reads := th.reads + 1 })

/-- The check after the loop of `f3s_aMB_v2erase` -/
def checkDq6 : Calling Int := do
  let status ← readmem line
  let status2 ← readmem line
  if (status ^^^ status2) &&& cfg.mask 6 ≠ 0 then return -1
  else return EOK

/-- The loop, where `i` is `left` below its last value -/
def pollDq6 : Nat → Calling Int
  | 0 => do
    let status ← readmem line
    let status2 ← readmem line
    if (status ^^^ status2) &&& cfg.mask 6 = 0 then return EOK
    else return -1
  | left + 1 => do
    let status ← readmem line
    let status2 ← readmem line
    if (status ^^^ status2) &&& cfg.mask 6 = 0 then return EOK
    else if status2 &&& cfg.mask 5 ≠ 0 then checkDq6 line
    else pollDq6 left

/-- `f3s_aMB_v2erase`, with what `page` and `malloc` say -/
def v2erase (page : Option Errno) (malloc : Bool) : Calling Int := do
  match page with
  | some errno => return errno.val
  | none =>
    let th ← get
    if th.DQ4 = none ∧ malloc = false then return ENOMEM
    else
      set { th with DQ4 := some 0 }
      pollDq6 line (MAX_ITER_TIMEOUT + 1)

def Geo.size (geo : Geo) : BitVec 32 := geo.unitNum.setWidth 32 <<< geo.unitPow2.toNat

/-- The search of `f3s_aMB_v2sync` for the size of a sector, in at most `fuel` passes -/
def sectorSize (dbase : Dbase) (offset : BitVec 32) : Nat → Nat → BitVec 32 → Option (BitVec 16)
  | 0, _, _ => none
  | fuel + 1, i, temp =>
    if offset < temp + (dbase.geoVect i).size then some (dbase.geoVect i).unitPow2
    else sectorSize dbase offset fuel (if i + 1 < dbase.geoNum then i + 1 else 0)
      (temp + (dbase.geoVect i).size)

/-- The word of erased devices -/
def allOnes (cfg : Flashcfg) : BitVec 64 :=
  if cfg.deviceWidth = 1 then 0xFF * cfg.deviceMult else 0xFFFF * cfg.deviceMult

/-- The end of `f3s_aMB_v2sync`, when `DQ6` does not toggle -/
def syncDone (status1 : BitVec 64) : Calling Int := do
  let th ← get
  match th.DQ4 with
  | none => failure
  | some seen =>
    if seen = cfg.mask 4 then
      if status1 = allOnes cfg then
        let last ← readmem line
        if last = allOnes cfg then return EOK else return EIO
      else return EIO
    else return EIO

/-- The rest of `f3s_aMB_v2sync`, with the sector found -/
def syncSector : Calling Int := do
  let status0 ← readmem line
  let status1 ← readmem line
  let toggle := (status0 ^^^ status1) &&& cfg.mask 6
  if toggle ≠ 0 then
    let mask := (status0 &&& (toggle >>> 1)) <<< 1
    if mask = toggle then
      let status2 ← readmem line
      if (status1 ^^^ status2) &&& mask ≠ 0 then return EIO
      else if (status1 ^^^ status2) &&& cfg.mask 6 ≠ 0 then return EAGAIN
      else syncDone line status2
    else
      let mask := status0 &&& (toggle >>> 2)
      if mask ≠ 0 then
        let th ← get
        match th.DQ4 with
        | none => failure
        | some seen =>
          set { th with DQ4 := some (seen ||| mask) }
          return EAGAIN
      else return EAGAIN
  else syncDone line status1

/-- `f3s_aMB_v2sync`, where the search takes at most `fuel` passes -/
def v2sync (fuel : Nat) (dbase : Dbase) (offset : BitVec 32) (page : BitVec 32 → Option Errno) :
    Calling Int := do
  match sectorSize dbase offset fuel 0 0 with
  | none => failure
  | some unitPow2 =>
    match page (offset &&& (0xFFFFFFFF <<< unitPow2.toNat)) with
    | some errno => return errno.val
    | none => syncSector line

/-- Sync after sync, until one does not say `EAGAIN`. Each finds its page or not. -/
def repeatSync (fuel : Nat) (dbase : Dbase) (offset : BitVec 32) :
    List (BitVec 32 → Option Errno) → Calling Int
  | [] => return EAGAIN
  | page :: pages => do
    let status ← v2sync line fuel dbase offset page
    if status = EAGAIN then repeatSync fuel dbase offset pages
    else return status

/-- An erase, and sync after sync -/
def eraseSector (fuel : Nat) (dbase : Dbase) (offset : BitVec 32) (page : Option Errno)
    (malloc : Bool) (pages : List (BitVec 32 → Option Errno)) : Calling Int := do
  let status ← v2erase line page malloc
  if status = EOK then repeatSync line fuel dbase offset pages
  else return status

end Callouts

/-! ## What the callouts have seen -/

section Seen

variable {cfg : Flashcfg} {line : Timeline cfg} {th th' : Thread} {status : Int}

/-- All devices have finished before the next read. -/
def Timeline.Finished (line : Timeline cfg) (th : Thread) : Prop :=
  ∀ i < cfg.chipInter, line.busy i < th.reads

/-- `DQ6` stops only when all devices have finished. -/
theorem Timeline.finished_of_still {k : Nat}
    (still : (line.word k ^^^ line.word (k + 1)) &&& cfg.mask 6 = 0) :
    ∀ i < cfg.chipInter, line.busy i < k + 2 := by
  intro i inside
  have same := (Flashcfg.toggle_eq_zero (by decide)).mp still i inside
  by_contra late
  exact line.toggles i inside k (by omega) same

theorem Timeline.still_of_finished {k : Nat} (finished : ∀ i < cfg.chipInter, line.busy i ≤ k) :
    (line.word k ^^^ line.word (k + 1)) &&& cfg.mask 6 = 0 := by
  refine (Flashcfg.toggle_eq_zero (by decide)).mpr fun i inside => ?_
  have bit : 6 < 8 * cfg.deviceWidth := by
    have width := cfg.deviceWidth_pos
    omega
  have done := finished i inside
  rw [line.ones i inside k done 6 bit, line.ones i inside (k + 1) (Nat.le_succ_of_le done) 6 bit]

theorem readmem_bind {β : Type} {f : BitVec 64 → Calling β} :
    (readmem line >>= f) th = f (line.word th.reads) { th with reads := th.reads + 1 } := rfl

/-- An outcome of the erase: `EOK` comes when all devices have finished, and the record is as it
was. -/
def Waited (line : Timeline cfg) (th : Thread) (status : Int) (th' : Thread) : Prop :=
  th'.DQ4 = th.DQ4 ∧ (status = EOK → line.Finished th')

theorem waited_error {k : Nat} : Waited line th (-1) { th with reads := k } :=
  ⟨rfl, fun same => absurd same (by decide)⟩

theorem checkDq6_waited (run : checkDq6 line th = some (status, th')) :
    Waited line th status th' := by
  unfold checkDq6 at run
  rw [readmem_bind, readmem_bind] at run
  split at run
  · cases run
    exact waited_error
  · rename_i still
    cases run
    exact ⟨rfl, fun _ => line.finished_of_still (not_not.mp still)⟩

theorem pollDq6_waited {left : Nat} (run : pollDq6 line left th = some (status, th')) :
    Waited line th status th' := by
  induction left generalizing th with
  | zero =>
    unfold pollDq6 at run
    rw [readmem_bind, readmem_bind] at run
    split at run
    · rename_i still
      cases run
      exact ⟨rfl, fun _ => line.finished_of_still still⟩
    · cases run
      exact waited_error
  | succ left ih =>
    unfold pollDq6 at run
    rw [readmem_bind, readmem_bind] at run
    split at run
    · rename_i still
      cases run
      exact ⟨rfl, fun _ => line.finished_of_still still⟩
    · split at run
      · have waited := checkDq6_waited run
        exact ⟨waited.1, waited.2⟩
      · have waited := ih run
        exact ⟨waited.1, waited.2⟩

/-- After an erase that says `EOK` all devices have finished, and the record of `DQ4` is clear. -/
theorem v2erase_ok {page : Option Errno} {malloc : Bool}
    (run : v2erase line page malloc th = some ((EOK : Int), th')) :
    th'.DQ4 = some 0 ∧ line.Finished th' := by
  cases page with
  | some errno =>
    obtain ⟨same, _⟩ := pure_eq_some.mp run
    exact absurd (Int.ofNat.inj same) errno.2
  | none =>
    obtain ⟨_, _, got, run⟩ := bind_eq_some.mp run
    cases got
    split at run
    · obtain ⟨same, _⟩ := pure_eq_some.mp run
      exact absurd same (by decide)
    · obtain ⟨_, _, stored, run⟩ := bind_eq_some.mp run
      cases stored
      have waited := pollDq6_waited run
      exact ⟨waited.1, waited.2 rfl⟩

/-- With all devices finished and no `DQ4` seen the sync takes the erase for failed. -/
theorem syncSector_ends (finished : line.Finished th) (clear : th.DQ4 = some 0) :
    syncSector line th = some (( EIO : Int), { th with reads := th.reads + 2 }) := by
  have still := line.still_of_finished fun i inside => Nat.le_of_lt (finished i inside)
  unfold syncSector
  rw [readmem_bind, readmem_bind]
  dsimp only
  rw [if_neg (not_not.mpr still)]
  refine bind_eq_some.mpr ⟨_, _, rfl, ?_⟩
  dsimp only
  rw [clear]
  dsimp only
  rw [if_neg (Flashcfg.mask_ne_zero (by decide)).symm]
  rfl

/-- A sync after that fails: there is no `DQ4` to see any more. -/
theorem v2sync_fails {fuel : Nat} {dbase : Dbase} {offset : BitVec 32}
    {page : BitVec 32 → Option Errno} (finished : line.Finished th) (clear : th.DQ4 = some 0)
    (run : v2sync line fuel dbase offset page th = some (status, th')) :
    status ≠ EOK ∧ line.Finished th' ∧ th'.DQ4 = some 0 := by
  unfold v2sync at run
  cases sector : sectorSize dbase offset fuel 0 0 with
  | none =>
    rw [sector] at run
    cases run
  | some unitPow2 =>
    rw [sector] at run
    dsimp only at run
    cases there : page (offset &&& (0xFFFFFFFF <<< unitPow2.toNat)) with
    | some errno =>
      rw [there] at run
      obtain ⟨rfl, rfl⟩ := pure_eq_some.mp run
      exact ⟨fun same => errno.2 (Int.ofNat.inj same), finished, clear⟩
    | none =>
      rw [there] at run
      cases (syncSector_ends finished clear).symm.trans run
      refine ⟨by decide, fun i inside => ?_, clear⟩
      exact Nat.lt_of_lt_of_le (finished i inside) (Nat.le_add_right _ 2)

theorem repeatSync_fails {fuel : Nat} {dbase : Dbase} {offset : BitVec 32}
    {pages : List (BitVec 32 → Option Errno)} (finished : line.Finished th)
    (clear : th.DQ4 = some 0)
    (run : repeatSync line fuel dbase offset pages th = some (status, th')) : status ≠ EOK := by
  induction pages generalizing th with
  | nil =>
    obtain ⟨rfl, _⟩ := pure_eq_some.mp run
    decide
  | cons page pages ih =>
    obtain ⟨_, _, sync, run⟩ := bind_eq_some.mp run
    obtain ⟨fails, finished, clear⟩ := v2sync_fails finished clear sync
    split at run
    · exact ih finished clear run
    · obtain ⟨rfl, _⟩ := pure_eq_some.mp run
      exact fails

/-- The end of a sync says `EOK` after one more read. -/
theorem syncDone_ok {status1 : BitVec 64}
    (run : syncDone line status1 th = some ((EOK : Int), th')) : th'.reads = th.reads + 1 := by
  obtain ⟨_, _, got, run⟩ := bind_eq_some.mp run
  cases got
  have fails : ∀ {t : Thread}, (pure ( EIO : Int) : Calling Int) t ≠ some ((EOK : Int), th') :=
    fun same => absurd (pure_eq_some.mp same).1 (by decide)
  cases seen : th.DQ4 with
  | none =>
    rw [seen] at run
    cases run
  | some bits =>
    rw [seen] at run
    dsimp only at run
    split at run
    · split at run
      · rw [readmem_bind] at run
        split at run
        · obtain ⟨_, rfl⟩ := pure_eq_some.mp run
          rfl
        · exact absurd run fails
      · exact absurd run fails
    · exact absurd run fails

/-- A sync says `EOK` only if all devices have finished. -/
theorem syncSector_ok (run : syncSector line th = some ((EOK : Int), th')) : line.Finished th' := by
  unfold syncSector at run
  rw [readmem_bind, readmem_bind] at run
  dsimp only at run
  have waits : ∀ {t : Thread}, (pure (EAGAIN : Int) : Calling Int) t ≠ some ((EOK : Int), th') :=
    fun same => absurd (pure_eq_some.mp same).1 (by decide)
  split at run
  · split at run
    · rw [readmem_bind] at run
      dsimp only at run
      split at run
      · exact absurd (pure_eq_some.mp run).1 (by decide)
      · split at run
        · exact absurd run waits
        · rename_i still
          intro i inside
          rw [syncDone_ok run]
          have done := line.finished_of_still (not_not.mp still) i inside
          exact Nat.lt_succ_of_lt done
    · split at run
      · obtain ⟨_, _, got, run⟩ := bind_eq_some.mp run
        cases got
        dsimp only at run
        cases seen : th.DQ4 with
        | none =>
          rw [seen] at run
          cases run
        | some bits =>
          rw [seen] at run
          obtain ⟨_, _, _, run⟩ := bind_eq_some.mp run
          exact absurd run waits
      · exact absurd run waits
  · rename_i still
    intro i inside
    rw [syncDone_ok run]
    have done := line.finished_of_still (not_not.mp still) i inside
    exact Nat.lt_succ_of_lt done

theorem v2sync_ok {fuel : Nat} {dbase : Dbase} {offset : BitVec 32}
    {page : BitVec 32 → Option Errno}
    (run : v2sync line fuel dbase offset page th = some ((EOK : Int), th')) :
    line.Finished th' := by
  unfold v2sync at run
  cases sector : sectorSize dbase offset fuel 0 0 with
  | none =>
    rw [sector] at run
    cases run
  | some unitPow2 =>
    rw [sector] at run
    dsimp only at run
    cases there : page (offset &&& (0xFFFFFFFF <<< unitPow2.toNat)) with
    | some errno =>
      rw [there] at run
      exact absurd (Int.ofNat.inj (pure_eq_some.mp run).1) errno.2
    | none =>
      rw [there] at run
      exact syncSector_ok run

end Seen

/-! ## The size of a sector -/

section Geometry

variable {dbase : Dbase} {offset : BitVec 32}

def Geo.bytes (geo : Geo) : Nat := geo.unitNum.toNat * 2 ^ geo.unitPow2.toNat

/-- The entry of a pass, where the chips repeat the geometry -/
def Dbase.entry (dbase : Dbase) (n : Nat) : Geo := dbase.geoVect (n % dbase.geoNum)

/-- Where the entry of a pass begins -/
def Dbase.upto (dbase : Dbase) (n : Nat) : Nat := ∑ j ∈ Finset.range n, (dbase.entry j).bytes

theorem Geo.size_eq (geo : Geo) : geo.size = BitVec.ofNat 32 geo.bytes := by
  refine BitVec.eq_of_toNat_eq ?_
  unfold Geo.size Geo.bytes
  rw [BitVec.toNat_shiftLeft, BitVec.toNat_setWidth, BitVec.toNat_ofNat, Nat.shiftLeft_eq,
    Nat.mod_mul_mod]

theorem Dbase.upto_succ (n : Nat) :
    dbase.upto (n + 1) = dbase.upto n + (dbase.entry n).bytes := Finset.sum_range_succ _ n

theorem Dbase.upto_mono {m n : Nat} (le : m ≤ n) : dbase.upto m ≤ dbase.upto n := by
  induction le with
  | refl => exact Nat.le_refl _
  | step _ ih =>
    rw [Dbase.upto_succ]
    exact Nat.le_add_right_of_le ih

theorem next_index {num n : Nat} (some : 0 < num) :
    (if n % num + 1 < num then n % num + 1 else 0) = (n + 1) % num := by
  rw [← Nat.mod_add_mod]
  split
  · exact (Nat.mod_eq_of_lt ‹_›).symm
  · have last : n % num + 1 = num := by
      have small := Nat.mod_lt n some
      omega
    rw [last, Nat.mod_self]

theorem sectorSize_pass (entries : 0 < dbase.geoNum) (fuel n : Nat) :
    sectorSize dbase offset (fuel + 1) (n % dbase.geoNum) (BitVec.ofNat 32 (dbase.upto n)) =
      if offset.toNat < dbase.upto (n + 1) % 2 ^ 32 then some (dbase.entry n).unitPow2
      else sectorSize dbase offset fuel ((n + 1) % dbase.geoNum)
        (BitVec.ofNat 32 (dbase.upto (n + 1))) := by
  have temp : BitVec.ofNat 32 (dbase.upto n) + (dbase.geoVect (n % dbase.geoNum)).size =
      BitVec.ofNat 32 (dbase.upto (n + 1)) := by
    rw [Geo.size_eq, Dbase.upto_succ, BitVec.ofNat_add]
    rfl
  rw [sectorSize, temp, next_index entries]
  refine if_congr ?_ rfl rfl
  rw [BitVec.lt_def, BitVec.toNat_ofNat]

/-- The search ends at the first pass whose end, in 32 bits, lies after the offset. -/
theorem sectorSize_finds (entries : 0 < dbase.geoNum) {n d : Nat} (fuel : Nat)
    (before : ∀ k < d, dbase.upto (n + k + 1) % 2 ^ 32 ≤ offset.toNat)
    (here : offset.toNat < dbase.upto (n + d + 1) % 2 ^ 32) :
    sectorSize dbase offset (d + 1 + fuel) (n % dbase.geoNum) (BitVec.ofNat 32 (dbase.upto n)) =
      some (dbase.entry (n + d)).unitPow2 := by
  induction d generalizing n with
  | zero =>
    rw [Nat.zero_add, Nat.add_comm 1 fuel, sectorSize_pass entries]
    exact if_pos here
  | succ d ih =>
    rw [Nat.add_right_comm, sectorSize_pass entries,
      if_neg (Nat.not_lt.mpr (before 0 (Nat.succ_pos d)))]
    have shift : ∀ k, n + (k + 1) = n + 1 + k := fun k => by omega
    rw [shift d] at here ⊢
    refine ih (fun k below => ?_) here
    have earlier := before (k + 1) (Nat.succ_lt_succ below)
    rwa [shift k] at earlier

/-- The search finds the entry that contains the offset, if this ends below `2 ^ 32`. -/
theorem sectorSize_contains (entries : 0 < dbase.geoNum) {n : Nat} (fuel : Nat)
    (begins : dbase.upto n ≤ offset.toNat) (ends : offset.toNat < dbase.upto (n + 1))
    (fits : dbase.upto (n + 1) < 2 ^ 32) :
    sectorSize dbase offset (n + 1 + fuel) 0 0 = some (dbase.entry n).unitPow2 := by
  have earlier : ∀ k < n, dbase.upto (0 + k + 1) % 2 ^ 32 ≤ offset.toNat := by
    intro k below
    rw [Nat.zero_add]
    exact (Nat.mod_le _ _).trans ((Dbase.upto_mono below).trans begins)
  have here : offset.toNat < dbase.upto (0 + n + 1) % 2 ^ 32 := by
    rw [Nat.zero_add, Nat.mod_eq_of_lt fits]
    exact ends
  have found := sectorSize_finds entries fuel earlier here
  rw [Nat.zero_mod, Nat.zero_add] at found
  exact found

theorem Dbase.exists_contains {j : Nat} (inside : j < dbase.geoNum)
    (units : 0 < (dbase.geoVect j).unitNum.toNat) :
    ∃ n, dbase.upto n ≤ offset.toNat ∧ offset.toNat < dbase.upto (n + 1) := by
  have bytes : 0 < (dbase.geoVect j).bytes := Nat.mul_pos units (Nat.two_pow_pos _)
  have rounds : ∀ k, k ≤ dbase.upto (dbase.geoNum * k + j) := by
    intro k
    induction k with
    | zero => exact Nat.zero_le _
    | succ k ih =>
      have same : (dbase.entry (dbase.geoNum * k + j)).bytes = (dbase.geoVect j).bytes := by
        unfold Dbase.entry
        rw [Nat.mul_add_mod, Nat.mod_eq_of_lt inside]
      have next : dbase.upto (dbase.geoNum * k + j + 1) = _ :=
        Dbase.upto_succ (dbase.geoNum * k + j)
      rw [same] at next
      have later : dbase.upto (dbase.geoNum * k + j + 1) ≤
          dbase.upto (dbase.geoNum * (k + 1) + j) := by
        refine Dbase.upto_mono ?_
        rw [Nat.mul_succ]
        omega
      omega
  have entries : ∃ n, offset.toNat < dbase.upto (n + 1) :=
    ⟨_, (rounds (offset.toNat + 1)).trans (Dbase.upto_mono (Nat.le_succ _))⟩
  classical
  refine ⟨Nat.find entries, ?_, Nat.find_spec entries⟩
  cases found : Nat.find entries with
  | zero => exact Nat.zero_le _
  | succ n =>
    have before : n < Nat.find entries := by omega
    exact Nat.le_of_not_lt (Nat.find_min entries before)

end Geometry

/-! ## Erases -/

section Erases

variable {cfg : Flashcfg} (line : Timeline cfg) (fuel : Nat) (dbase : Dbase) (offset : BitVec 32)

/-- Whatever the devices and the geometry are, an erase that all devices finish never ends with
`EOK`: when the erase callout has seen them finish, no sync can see `DQ4`. -/
theorem erase_never_done (page : Option Errno) (malloc : Bool)
    (pages : List (BitVec 32 → Option Errno)) (DQ4 : Option (BitVec 64)) (th : Thread) :
    eraseSector line fuel dbase offset page malloc pages ⟨0, DQ4⟩ ≠ some ((EOK : Int), th) := by
  intro run
  obtain ⟨status, th', erased, run⟩ := bind_eq_some.mp run
  split at run
  · rename_i ok
    rw [ok] at erased
    obtain ⟨clear, finished⟩ := v2erase_ok erased
    exact repeatSync_fails finished clear run rfl
  · rename_i fails
    exact fails (pure_eq_some.mp run).1

variable {line fuel dbase offset}

theorem checkDq6_ends (th : Thread) : ∃ status th', checkDq6 line th = some (status, th') ∧
    (status = EOK ∨ status = -1) := by
  unfold checkDq6
  rw [readmem_bind, readmem_bind]
  split
  · exact ⟨_, _, rfl, .inr rfl⟩
  · exact ⟨_, _, rfl, .inl rfl⟩

theorem pollDq6_ends (left : Nat) (th : Thread) : ∃ status th',
    pollDq6 line left th = some (status, th') ∧ (status = EOK ∨ status = -1) := by
  induction left generalizing th with
  | zero =>
    unfold pollDq6
    rw [readmem_bind, readmem_bind]
    split
    · exact ⟨_, _, rfl, .inl rfl⟩
    · exact ⟨_, _, rfl, .inr rfl⟩
  | succ left ih =>
    unfold pollDq6
    rw [readmem_bind, readmem_bind]
    split
    · exact ⟨_, _, rfl, .inl rfl⟩
    · split
      · exact checkDq6_ends _
      · exact ih _

theorem erase_fails {unitPow2 : BitVec 16}
    (sector : sectorSize dbase offset fuel 0 0 = some unitPow2)
    (pages : List (BitVec 32 → Option Errno)) (DQ4 : Option (BitVec 64)) :
    ∃ status th, eraseSector line fuel dbase offset none true ((fun _ => none) :: pages) ⟨0, DQ4⟩ =
      some (status, th) ∧ (status = EIO ∨ status = -1) := by
  have erased : v2erase line none true ⟨0, DQ4⟩ =
      pollDq6 line (MAX_ITER_TIMEOUT + 1) ⟨0, some 0⟩ := by
    refine Eq.trans (b := (if DQ4 = none ∧ true = false then (pure (ENOMEM : Int) : Calling Int)
      else do
        set (⟨0, some 0⟩ : Thread)
        pollDq6 line (MAX_ITER_TIMEOUT + 1)) ⟨0, DQ4⟩) rfl ?_
    rw [if_neg fun none => nomatch none.2]
    rfl
  obtain ⟨status, th, polled, outcome⟩ : ∃ status th,
      pollDq6 line (MAX_ITER_TIMEOUT + 1) ⟨0, some 0⟩ = some (status, th) ∧
        (status = EOK ∨ status = -1) := pollDq6_ends (MAX_ITER_TIMEOUT + 1) ⟨0, some 0⟩
  have run := erased.trans polled
  rcases outcome with rfl | rfl
  · obtain ⟨clear, finished⟩ := v2erase_ok run
    have sync : v2sync line fuel dbase offset (fun _ => none) th =
        some (( EIO : Int), { th with reads := th.reads + 2 }) := by
      unfold v2sync
      rw [sector]
      exact syncSector_ends finished clear
    refine ⟨ EIO, { th with reads := th.reads + 2 }, bind_eq_some.mpr ⟨_, _, run, ?_⟩, .inl rfl⟩
    rw [if_pos rfl]
    exact bind_eq_some.mpr ⟨_, _, sync, rfl⟩
  · exact ⟨_, _, bind_eq_some.mpr ⟨_, _, run, rfl⟩, .inr rfl⟩

/-! ### One chip -/

/-- A device of 16 bits, busy for two reads -/
def chip : Timeline ⟨2, 1, 0x0001, single_supported⟩ where
  word k := if k = 0 then 0x0040 else if k = 1 then 0 else 0xFFFF
  busy _ := 2
  toggles i inside k early := by
    have first : k = 0 := by omega
    rw [Nat.lt_one_iff.mp inside, first]
    decide
  ones i inside k late n bit := by
    have single : i = 0 := Nat.lt_one_iff.mp inside
    rw [single, if_neg (by omega), if_neg (by omega)]
    have all : ∀ n < 16, BitVec.getLsbD (0xFFFF : BitVec 64) n = true := by decide
    unfold Flashcfg.dq
    rw [Nat.mul_zero, Nat.zero_add]
    exact all n bit

/-- The erase callout returns when the chip has finished, and the first sync takes the erase for
failed. -/
theorem erase_broken :
    eraseSector chip 1 ⟨1, fun _ => ⟨8, 16⟩⟩ 0 none true [fun _ => none] ⟨0, none⟩ =
      some (( EIO : Int), ⟨6, some 0⟩) := by
  rfl

/-- A sync that has seen `DQ4` finds the chip erased. -/
theorem v2sync_ok_chip : v2sync chip 1 ⟨1, fun _ => ⟨8, 16⟩⟩ 0 (fun _ => none) ⟨2, some 0x10⟩ =
      some ((EOK : Int), ⟨5, some 0x10⟩) ∧ chip.Finished ⟨5, some 0x10⟩ := by
  have run : v2sync chip 1 ⟨1, fun _ => ⟨8, 16⟩⟩ 0 (fun _ => none) ⟨2, some 0x10⟩ =
    some ((EOK : Int), ⟨5, some 0x10⟩) := rfl
  exact ⟨run, v2sync_ok run⟩
end Erases

end Mx6xBsp.Flash.MirrorBit
