import Mathlib.Data.List.Nodup
import Mx6xBsp.Lib.Runs
import Mx6xBsp.Spi.Master

/-!
# The locks of the SPI resource manager

The lock check looks at the device number of a message, and the transfer is made on
the default chip when that number is `SPI_DEV_ID_NONE`. `DCMD_SPI_SET_CONFIG` makes no
lock check. `lock_exclusive_iff` tells exactly which requests get round a lock, leave a
chip unlocked that was to be locked, or take the lock of another chip away.
-/

namespace Mx6xBsp.Spi

open Runs

/-! ## Chips -/

theorem chipOf_chipOf (device : BitVec 32) : chipOf (chipOf device) = chipOf device := by
  unfold chipOf
  rw [BitVec.and_assoc, BitVec.and_self]

theorem chipOf_none : chipOf SPI_DEV_ID_NONE = SPI_DEV_ID_NONE := by decide

theorem chipOf_or {flag : BitVec 32} (apart : chipOf flag = 0) (device : BitVec 32) :
    chipOf (device ||| flag) = chipOf device := by
  unfold chipOf at apart ⊢
  rw [BitVec.and_comm, BitVec.and_or_distrib_left, BitVec.and_comm _ flag, apart, BitVec.and_comm]
  exact BitVec.or_zero

theorem setWidth_chip (device : BitVec 32) :
    (device.setWidth 16).setWidth 32 = chipOf device := by
  refine BitVec.eq_of_toNat_eq ?_
  have mask : device.toNat &&& (2 ^ 16 - 1) = device.toNat % 2 ^ 16 :=
    Nat.and_two_pow_sub_one_eq_mod _ 16
  have small : device.toNat % 2 ^ 16 < 2 ^ 32 :=
    Nat.lt_trans (Nat.mod_lt _ (by decide)) (by decide)
  rw [BitVec.toNat_setWidth, BitVec.toNat_setWidth, Nat.mod_eq_of_lt small]
  exact mask.symm

/-! ## Lists of locks -/

/-- At most one lock for a device -/
def Unique (locks : List Lock) : Prop := (locks.map Lock.device).Nodup

theorem Unique.owner_eq {locks : List Lock} (unique : Unique locks) {first second : Lock}
    (one : first ∈ locks) (two : second ∈ locks) (same : first.device = second.device) :
    first = second := List.inj_on_of_nodup_map unique one two same

theorem islock_eq_none {locks : List Lock} {device : BitVec 32} :
    islock locks device = none ↔ ∀ lock ∈ locks, lock.device ≠ chipOf device := by
  refine List.find?_eq_none.trans (forall₂_congr fun lock _ => ?_)
  rw [decide_eq_true_iff]

theorem islock_some {locks : List Lock} {device : BitVec 32} {lock : Lock}
    (found : islock locks device = some lock) : lock ∈ locks ∧ lock.device = chipOf device := by
  have fits := List.find?_some found
  exact ⟨List.mem_of_find?_eq_some found, of_decide_eq_true fits⟩

theorem removeLock_some {device : BitVec 32} {ocb : Nat} {locks rest : List Lock}
    (removed : removeLock device ocb locks = some rest) :
    ∃ before lock after, locks = before ++ lock :: after ∧ rest = before ++ after ∧
      lock.owner = ocb ∧ (lock.device = device ∨ device = SPI_DEV_ID_NONE) ∧
      ∀ other ∈ before, ¬((other.device = device ∨ device = SPI_DEV_ID_NONE) ∧
        other.owner = ocb) := by
  induction locks generalizing rest with
  | nil => cases removed
  | cons lock locks ih =>
    unfold removeLock at removed
    split at removed
    case isTrue here =>
      cases removed
      exact ⟨[], lock, locks, rfl, rfl, here.2, here.1, fun _ mem => nomatch mem⟩
    case isFalse later =>
      obtain ⟨tail, found, rfl⟩ := Option.map_eq_some_iff.mp removed
      obtain ⟨before, first, after, rfl, rfl, owner, match_, none⟩ := ih found
      refine ⟨lock :: before, first, after, rfl, rfl, owner, match_, fun other mem => ?_⟩
      rcases List.mem_cons.mp mem with rfl | mem
      · exact later
      · exact none other mem

theorem removeLock_none {device : BitVec 32} {ocb : Nat} {locks : List Lock}
    (kept : removeLock device ocb locks = none) :
    ∀ lock ∈ locks, ¬((lock.device = device ∨ device = SPI_DEV_ID_NONE) ∧ lock.owner = ocb) := by
  induction locks with
  | nil => exact fun _ mem => nomatch mem
  | cons lock locks ih =>
    unfold removeLock at kept
    split at kept
    case isTrue => cases kept
    case isFalse later =>
      intro other mem
      rcases List.mem_cons.mp mem with rfl | mem
      · exact later
      · exact ih (Option.map_eq_none_iff.mp kept) other mem

/-- The lock that the context made last -/
def newest (locks : List Lock) (ocb : Nat) : Option Lock := locks.find? fun lock => lock.owner = ocb

theorem removeLock_mem {device : BitVec 32} {ocb : Nat} {locks rest : List Lock}
    (unique : Unique locks) (removed : removeLock device ocb locks = some rest) :
    Unique rest ∧ ∃ lock ∈ locks, lock.owner = ocb ∧
      (lock.device = device ∨ device = SPI_DEV_ID_NONE) ∧
      (device = SPI_DEV_ID_NONE → newest locks ocb = some lock) ∧
      ∀ other, other ∈ rest ↔ other ∈ locks ∧ other ≠ lock := by
  obtain ⟨before, lock, after, rfl, rfl, owner, fits, none⟩ := removeLock_some removed
  have apart : lock ∉ before ++ after :=
    (List.nodup_middle.mp (List.Nodup.of_map _ unique)).notMem
  have last : device = SPI_DEV_ID_NONE → newest (before ++ lock :: after) ocb = some lock := by
    intro any
    have others : before.find? (fun lock => lock.owner = ocb) = Option.none := by
      refine List.find?_eq_none.mpr fun other mem same => ?_
      exact none other mem ⟨.inr any, of_decide_eq_true same⟩
    unfold newest
    rw [List.find?_append, others, Option.none_or]
    exact List.find?_cons_of_pos (decide_eq_true owner)
  refine ⟨?_, lock, List.mem_append_right _ List.mem_cons_self, owner, fits, last,
    fun other => ?_⟩
  · exact List.Nodup.sublist
      ((List.Sublist.append_left (List.sublist_cons_self lock after) before).map _) unique
  · rw [List.mem_append, List.mem_append, List.mem_cons]
    constructor
    · intro mem
      have other_ne : other ≠ lock := by
        rintro rfl
        exact apart (List.mem_append.mpr mem)
      rcases mem with mem | mem
      · exact ⟨.inl mem, other_ne⟩
      · exact ⟨.inr (.inr mem), other_ne⟩
    · rintro ⟨mem | rfl | mem, other_ne⟩
      · exact .inl mem
      · exact absurd rfl other_ne
      · exact .inr mem

/-! ## The lock check -/

section Check

variable {locks rest : List Lock} {device : BitVec 32} {ocb : Nat} {calloc : Bool}

/-- How a lock check passes: the lock is the context's own and is left or taken out, or there is
none and one is made or not. -/
inductive Passed (locks : List Lock) (device : BitVec 32) (ocb : Nat) : List Lock → Prop
  | own {lock : Lock} (found : islock locks device = some lock) (owner : lock.owner = ocb)
    (kept : has device SPI_DEV_UNLOCK = false) : Passed locks device ocb locks
  | unlocked {lock : Lock} {rest : List Lock} (found : islock locks device = some lock)
    (owner : lock.owner = ocb) (unlock : has device SPI_DEV_UNLOCK = true)
    (removed : removeLock (chipOf device) ocb locks = some rest) : Passed locks device ocb rest
  | locked (none : islock locks device = none) (lock : has device SPI_DEV_LOCK = true) :
    Passed locks device ocb (⟨ocb, chipOf device⟩ :: locks)
  | free (none : islock locks device = none) (unlock : has device SPI_DEV_LOCK = false) :
    Passed locks device ocb locks

theorem lockCheck_passed (passed : lockCheck locks device ocb calloc = .ok rest) :
    Passed locks device ocb rest := by
  unfold lockCheck at passed
  cases found : islock locks device with
  | some lock =>
    rw [found] at passed
    dsimp only at passed
    split at passed
    case isFalse => cases passed
    case isTrue owner =>
      split at passed
      case isFalse kept =>
        cases passed
        exact .own found owner (Bool.eq_false_iff.mpr kept)
      case isTrue unlock =>
        unfold unlockDev at passed
        split at passed
        case isTrue => cases passed
        case isFalse =>
          cases removed : removeLock (chipOf device) ocb locks with
          | none =>
            rw [removed] at passed
            cases passed
          | some rest' =>
            rw [removed] at passed
            cases passed
            exact .unlocked found owner unlock removed
  | none =>
    rw [found] at passed
    dsimp only at passed
    split at passed
    case isTrue lock =>
      unfold lockDev at passed
      split at passed
      case isTrue =>
        cases passed
        exact .locked found lock
      case isFalse => cases passed
    case isFalse unlocked =>
      split at passed
      case isTrue => cases passed
      case isFalse =>
        cases passed
        exact .free found (Bool.eq_false_iff.mpr unlocked)

theorem Passed.unique (passed : Passed locks device ocb rest) (unique : Unique locks) :
    Unique rest := by
  cases passed with
  | own | free => exact unique
  | unlocked found owner unlock removed => exact (removeLock_mem unique removed).1
  | locked none lock =>
    refine List.nodup_cons.mpr ⟨fun mem => ?_, unique⟩
    obtain ⟨other, mem, same⟩ := List.mem_map.mp mem
    exact islock_eq_none.mp none other mem same

theorem Passed.access (passed : Passed locks device ocb rest) (unique : Unique locks) :
    ∀ lock ∈ locks, lock.device = chipOf device → lock.owner = ocb := by
  intro lock mem same
  cases passed with
  | own found owner | unlocked found owner =>
    obtain ⟨there, device⟩ := islock_some found
    rw [unique.owner_eq mem there (same.trans device.symm)]
    exact owner
  | locked none | free none => exact absurd same (islock_eq_none.mp none lock mem)

theorem held_of_islock {lock : Lock} (found : islock locks device = some lock)
    (owner : lock.owner = ocb) : (⟨ocb, chipOf device⟩ : Lock) ∈ locks := by
  obtain ⟨mem, same⟩ := islock_some found
  rw [← owner, ← same]
  exact mem

theorem Passed.holds (passed : Passed locks device ocb rest)
    (flag : has device SPI_DEV_LOCK = true) :
    ⟨ocb, chipOf device⟩ ∈ rest ∨
      has device SPI_DEV_UNLOCK = true ∧ ⟨ocb, chipOf device⟩ ∈ locks := by
  cases passed with
  | own found owner => exact .inl (held_of_islock found owner)
  | unlocked found owner unlock => exact .inr ⟨unlock, held_of_islock found owner⟩
  | locked => exact .inl List.mem_cons_self
  | free none unlock =>
    rw [unlock] at flag
    cases flag

/-- A lock that is gone was unlocked by its owner: that of the device, or with no device the one
made last. -/
theorem Passed.released (passed : Passed locks device ocb rest) (unique : Unique locks) :
    ∀ lock ∈ locks, lock ∉ rest → lock.owner = ocb ∧ has device SPI_DEV_UNLOCK = true ∧
      ⟨ocb, chipOf device⟩ ∈ locks ∧ (lock.device = chipOf device ∨
        chipOf device = SPI_DEV_ID_NONE ∧ newest locks ocb = some lock) := by
  intro lock mem gone
  cases passed with
  | own | free => exact absurd mem gone
  | locked => exact absurd (List.mem_cons_of_mem _ mem) gone
  | unlocked found owner unlock removed =>
    obtain ⟨_, out, _, outOwner, fits, last, others⟩ := removeLock_mem unique removed
    by_cases same : lock = out
    · rw [same]
      exact ⟨outOwner, unlock, held_of_islock found owner,
        fits.imp_right fun any => ⟨any, last any⟩⟩
    · exact absurd ((others lock).mpr ⟨mem, same⟩) gone

theorem Passed.mem_of_ne (passed : Passed locks device ocb rest) (unique : Unique locks)
    {lock : Lock} (mem : lock ∈ rest) (apart : lock.device ≠ chipOf device) : lock ∈ locks := by
  cases passed with
  | own | free => exact mem
  | unlocked found owner unlock removed =>
    obtain ⟨_, _, _, _, _, _, others⟩ := removeLock_mem unique removed
    exact ((others lock).mp mem).1
  | locked =>
    rcases List.mem_cons.mp mem with rfl | mem
    · exact absurd rfl apart
    · exact mem

theorem Passed.newest_gone (passed : Passed locks device ocb rest) (unique : Unique locks)
    (any : chipOf device = SPI_DEV_ID_NONE) (unlock : has device SPI_DEV_UNLOCK = true)
    (held : ⟨ocb, SPI_DEV_ID_NONE⟩ ∈ locks) {lock : Lock} (last : newest locks ocb = some lock) :
    lock ∈ locks ∧ lock ∉ rest := by
  have mem : lock ∈ locks := List.mem_of_find?_eq_some last
  cases passed with
  | own _ _ kept =>
    rw [unlock] at kept
    cases kept
  | locked none | free none =>
    exact absurd any.symm (islock_eq_none.mp none _ held)
  | unlocked found owner _ removed =>
    obtain ⟨_, out, _, _, _, lastOut, others⟩ := removeLock_mem unique removed
    have same : lock = out := Option.some_inj.mp (last.symm.trans (lastOut any))
    exact ⟨mem, fun there => ((others lock).mp there).2 same⟩

end Check

/-! ## Requests -/

section Requests

variable (c : Conf) (spi : Spidev) (req : Request)

/-- The context has a lock on the chip. -/
def Spidev.Holds (chip : BitVec 32) (ocb : Nat) : Prop := ⟨ocb, chip⟩ ∈ spi.locks

/-- The chip a context has by default -/
def Spidev.default (ocb : Nat) : BitVec 32 := chipOf (spi.chip ocb)

/-- The chip that a request is for -/
def Spidev.target : BitVec 32 :=
  match req.op with
  | .read _ _ _ | .write _ _ _ => spi.default req.ocb
  | .msg msg =>
    if chipOf msg.device = SPI_DEV_ID_NONE then spi.default req.ocb else chipOf msg.device
  | .devctl _ (.setConfig _ device _) => chipOf device
  | .open | .devctl _ _ | .close => SPI_DEV_ID_NONE

/-- The device number of a request, with its flags -/
def Spidev.flags : BitVec 32 :=
  match req.op with
  | .read _ _ _ | .write _ _ _ => spi.chip req.ocb
  | .msg msg => msg.device
  | .open | .devctl _ _ | .close => 0

/-- A request respects the locks: it transfers or configures only chips that no other context has
locked, its lock flag locks its chip unless it unlocks it, and it takes away only a lock of its
own context, for its chip or for none or at the close. -/
structure Spidev.Exclusive : Prop where
  access : ∀ call, (spi.exec c req).call = some call →
    ∀ owner, spi.Holds call.chip owner → owner = req.ocb
  locked : has (spi.flags req) SPI_DEV_LOCK = true → (spi.exec c req).rtn.isOk = true →
    spi.target req ≠ SPI_DEV_ID_NONE → (spi.next c req).Holds (spi.target req) req.ocb ∨
      has (spi.flags req) SPI_DEV_UNLOCK = true ∧ spi.Holds (spi.target req) req.ocb
  released : ∀ lock ∈ spi.locks, lock ∉ (spi.next c req).locks → lock.owner = req.ocb ∧
    (req.op = .close ∨ has (spi.flags req) SPI_DEV_UNLOCK = true ∧
      (lock.device = spi.target req ∨ lock.device = SPI_DEV_ID_NONE))

/-- A message for no device respects the locks: it makes its transfer only if no other context has
locked the default chip, its lock flag comes with a lock on the default chip, and its unlock
flag, if there is a lock for no device, comes when the last lock of the context was that or one
for the default chip. -/
structure Spidev.KeptDefault (msg : Msg) (subtype : Subtype) (locks : List Lock) : Prop where
  access : ({ spi with locks }.begin c req.env msg subtype).1 = none →
    ∀ owner, spi.Holds (spi.default req.ocb) owner → owner = req.ocb
  locked : has msg.device SPI_DEV_LOCK = true →
    (({ spi with locks }.begin c req.env msg subtype).1.getD
      (result c req.env msg subtype)).isOk = true →
    spi.default req.ocb ≠ SPI_DEV_ID_NONE → spi.Holds (spi.default req.ocb) req.ocb
  unlocked : has msg.device SPI_DEV_UNLOCK = true → spi.Holds SPI_DEV_ID_NONE req.ocb →
    ∀ lock, newest spi.locks req.ocb = some lock →
      lock.device = spi.default req.ocb ∨ lock.device = SPI_DEV_ID_NONE

/-- The requests that respect the locks: a message for no device that passes the lock check does so,
and a configuration is set only if no other context has locked the chip. -/
def Spidev.Kept : Prop :=
  match req.op with
  | .msg msg => c.sizeofMsg ≤ msg.combineLen → msg.mgrid = c.iomgrSpi →
    chipOf msg.device = SPI_DEV_ID_NONE → ∀ subtype, subtypeOf msg.subtype = some subtype →
      ∀ locks, lockCheck spi.locks msg.device req.ocb req.env.calloc = .ok locks →
        spi.KeptDefault c req msg subtype locks
  | .devctl none (.setConfig nbytes device mode) =>
    sizeofCfg + 4 ≤ nbytes → chipOf device ≠ SPI_DEV_ID_NONE → mode ≠ 0 →
      req.env.setcfg = some EOK → ∀ owner, spi.Holds (chipOf device) owner → owner = req.ocb
  | _ => True

end Requests

/-! ### What a request does -/

section Outcomes

variable {c : Conf} {env : Env} {spi : Spidev} {ocb : Nat}

/-- What comes before a transfer changes the length of the buffer and nothing else. -/
def Framed (spi t : Spidev) : Prop := t = { spi with buflen := t.buflen }

theorem Framed.locks {t : Spidev} (framed : Framed spi t) : t.locks = spi.locks := by
  unfold Framed at framed
  rw [framed]

theorem Framed.chip {t : Spidev} (framed : Framed spi t) : t.chip = spi.chip := by
  unfold Framed at framed
  rw [framed]

theorem buffer_framed (msglen buflen : Nat) (want : Option Int) :
    Framed spi (spi.buffer c env msglen buflen want).2 := by
  unfold Spidev.buffer
  split
  · split
    · split
      · rfl
      · rfl
    · rfl
  · rfl

theorem begin_framed (msg : Msg) (subtype : Subtype) :
    Framed spi (spi.begin c env msg subtype).2 := by
  have write : Framed spi (spi.beginWrite c env msg).2 := by
    unfold Spidev.beginWrite
    split
    · rfl
    · exact buffer_framed _ _ _
  cases subtype with
  | read =>
    unfold Spidev.begin Spidev.beginRead
    dsimp only
    split
    · rfl
    · exact buffer_framed _ _ _
  | write => exact write
  | exchange => exact write
  | cmdread => exact buffer_framed _ _ _
  | dmaxchange =>
    unfold Spidev.begin Spidev.beginDmaxchange
    dsimp only
    split
    · rfl
    split
    · rfl
    split
    · rfl
    · rfl

theorem finish_spi (start : Early × Spidev) (call : Call) (rtn : Except Nat Reply) :
    (finish start call rtn).spi = start.2 := by
  rcases start with ⟨none | early, spi⟩
  · rfl
  · rfl

theorem finish_rtn (start : Early × Spidev) (call : Call) (rtn : Except Nat Reply) :
    (finish start call rtn).rtn = start.1.getD rtn := by
  rcases start with ⟨none | early, spi⟩
  · rfl
  · rfl

theorem finish_call (start : Early × Spidev) {call made : Call} {rtn : Except Nat Reply} :
    (finish start call rtn).call = some made ↔ start.1 = none ∧ call = made := by
  rcases start with ⟨none | early, spi⟩
  · exact ⟨fun same => ⟨rfl, Option.some_inj.mp same⟩, fun both => congrArg some both.2⟩
  · exact ⟨fun same => (nomatch same), fun both => (nomatch both.1)⟩

theorem chipOf_read (device : BitVec 32) : chipOf (device ||| SPI_DEV_READ) = chipOf device :=
  chipOf_or (by decide) device

theorem chipOf_write (device : BitVec 32) : chipOf (device ||| SPI_DEV_WRITE) = chipOf device :=
  chipOf_or (by decide) device

theorem chipOf_exchange (device : BitVec 32) :
    chipOf (device ||| SPI_DEV_EXCHANGE) = chipOf device := chipOf_or (by decide) device

theorem transfer_chip (msg : Msg) (subtype : Subtype) :
    (spi.transfer ocb msg subtype).chip =
      if chipOf msg.device = SPI_DEV_ID_NONE then spi.default ocb else chipOf msg.device := by
  have chip16 : chipOf ((spi.chip16 ocb msg.device).setWidth 32) =
      if chipOf msg.device = SPI_DEV_ID_NONE then spi.default ocb else chipOf msg.device := by
    unfold Spidev.chip16 Spidev.default
    split
    · rw [setWidth_chip, chipOf_chipOf]
    · rw [setWidth_chip, chipOf_chipOf, chipOf_chipOf]
  cases subtype with
  | read => exact (chipOf_read _).trans chip16
  | write => exact (chipOf_write _).trans chip16
  | exchange | cmdread => exact (chipOf_exchange _).trans chip16
  | dmaxchange =>
    change chipOf (spi.chip32 ocb msg.device) = _
    unfold Spidev.chip32 Spidev.default
    split
    · rfl
    · exact chipOf_chipOf _

theorem exclusive_of_refused {req : Request} {errno : Nat}
    (refused : spi.exec c req = ⟨.error errno, none, spi⟩) : spi.Exclusive c req where
  access := by
    rw [refused]
    exact fun _ made => nomatch made
  locked := by
    rw [refused]
    exact fun _ ok => nomatch ok
  released := by
    unfold Spidev.next
    rw [refused]
    exact fun _ mem gone => absurd mem gone

variable {req : Request} {rest : List Lock} {device : BitVec 32}

theorem exclusive_of_passed (unique : Unique spi.locks)
    (passed : Passed spi.locks device req.ocb rest) (flags : spi.flags req = device)
    (target : spi.target req = chipOf device) (locks : (spi.next c req).locks = rest)
    (chip : ∀ call, (spi.exec c req).call = some call → call.chip = chipOf device)
    (some_ : chipOf device = SPI_DEV_ID_NONE → has device SPI_DEV_UNLOCK = false) :
    spi.Exclusive c req where
  access := by
    intro call made owner held
    rw [chip call made] at held
    exact passed.access unique _ held rfl
  locked := by
    intro lock _ _
    rw [flags] at lock ⊢
    unfold Spidev.Holds
    rw [target, locks]
    exact passed.holds lock
  released := by
    intro lock mem gone
    rw [locks] at gone
    obtain ⟨owner, unlock, _, same | ⟨any, _⟩⟩ := passed.released unique lock mem gone
    · rw [flags, target]
      exact ⟨owner, .inr ⟨unlock, .inl same⟩⟩
    · rw [some_ any] at unlock
      cases unlock

/-- What holds at every moment: at most one lock for a device, and a default that is no chip has no
flags. -/
structure Spidev.Sane (spi : Spidev) : Prop where
  unique : Unique spi.locks
  plain : ∀ ocb, spi.default ocb = SPI_DEV_ID_NONE → spi.chip ocb = SPI_DEV_ID_NONE

theorem Spidev.Sane.no_unlock (sane : spi.Sane) (any : chipOf (spi.chip ocb) = SPI_DEV_ID_NONE) :
    has (spi.chip ocb) SPI_DEV_UNLOCK = false := by
  rw [sane.plain ocb any]
  decide

theorem exclusive_of_default {start : Early × Spidev} {call : Call} {rtn : Except Nat Reply}
    (sane : spi.Sane) (passed : Passed spi.locks (spi.chip req.ocb) req.ocb rest)
    (flags : spi.flags req = spi.chip req.ocb) (target : spi.target req = spi.default req.ocb)
    (outcome : spi.exec c req = finish start call rtn) (locks : start.2.locks = rest)
    (chip : call.chip = chipOf (spi.chip req.ocb)) : spi.Exclusive c req := by
  refine exclusive_of_passed sane.unique passed flags target ?_ ?_ sane.no_unlock
  · unfold Spidev.next
    rw [outcome, finish_spi]
    exact locks
  · intro made there
    rw [outcome] at there
    rw [← ((finish_call start).mp there).2]
    exact chip

theorem nothing_finish (rtn : Except Nat Reply) (call : Call) :
    (⟨rtn, none, spi⟩ : Outcome) = finish (some rtn, spi) call rtn := rfl

theorem io_exclusive {verify : Nat} {plain : Bool} {nbytes : Int} {call : Call}
    {buffer : Spidev → Option Nat × Spidev} {rtn : Except Nat Reply} (sane : spi.Sane)
    (flags : spi.flags req = spi.chip req.ocb) (target : spi.target req = spi.default req.ocb)
    (outcome : spi.exec c req =
      spi.io req.env req.ocb verify plain nbytes buffer call rtn)
    (framed : ∀ spi, Framed spi (buffer spi).2)
    (chip : call.chip = chipOf (spi.chip req.ocb)) : spi.Exclusive c req := by
  unfold Spidev.io at outcome
  split at outcome
  · exact exclusive_of_refused outcome
  split at outcome
  · exact exclusive_of_refused outcome
  split at outcome
  case h_1 => exact exclusive_of_refused outcome
  case h_2 rest checked =>
    have passed := lockCheck_passed checked
    split at outcome
    · exact exclusive_of_default sane passed flags target
        (outcome.trans (nothing_finish _ call)) rfl chip
    · exact exclusive_of_default sane passed flags target outcome (framed _).locks chip

/-! ### Messages -/

/-- A message that is checked -/
structure Checked (c : Conf) (spi : Spidev) (req : Request) (msg : Msg) (subtype : Subtype)
    (rest : List Lock) : Prop where
  op : req.op = .msg msg
  valid : c.sizeofMsg ≤ msg.combineLen ∧ msg.mgrid = c.iomgrSpi
  subtype : subtypeOf msg.subtype = some subtype
  check : lockCheck spi.locks msg.device req.ocb req.env.calloc = .ok rest

variable {msg : Msg} {subtype : Subtype}

theorem Checked.outcome (checked : Checked c spi req msg subtype rest) :
    spi.exec c req = finish ({ spi with locks := rest }.begin c req.env msg subtype)
      (spi.transfer req.ocb msg subtype) (result c req.env msg subtype) := by
  unfold Spidev.exec
  rw [checked.op]
  unfold Spidev.iomsg
  dsimp only
  rw [if_neg, checked.subtype, checked.check]
  rintro (short | other)
  · exact absurd short (Nat.not_lt.mpr checked.valid.1)
  · exact other checked.valid.2

theorem Checked.locks (checked : Checked c spi req msg subtype rest) :
    (spi.next c req).locks = rest := by
  unfold Spidev.next
  rw [checked.outcome, finish_spi, (begin_framed _ _).locks]

theorem Checked.flags (checked : Checked c spi req msg subtype rest) :
    spi.flags req = msg.device := by
  unfold Spidev.flags
  rw [checked.op]

theorem Checked.target (checked : Checked c spi req msg subtype rest) : spi.target req =
    if chipOf msg.device = SPI_DEV_ID_NONE then spi.default req.ocb else chipOf msg.device := by
  unfold Spidev.target
  rw [checked.op]

theorem msg_cases (c : Conf) (spi : Spidev) (op : req.op = .msg msg) :
    (∃ errno, spi.exec c req = ⟨.error errno, none, spi⟩ ∧
      ∀ subtype rest, ¬Checked c spi req msg subtype rest) ∨
    ∃ subtype rest, Checked c spi req msg subtype rest := by
  have outcome : spi.exec c req = spi.iomsg c req.env req.ocb msg := by
    unfold Spidev.exec
    rw [op]
  unfold Spidev.iomsg at outcome
  split at outcome
  case isTrue invalid =>
    refine .inl ⟨_, outcome, fun _ _ checked => ?_⟩
    rcases invalid with short | other
    · exact absurd short (Nat.not_lt.mpr checked.valid.1)
    · exact other checked.valid.2
  case isFalse valid =>
    have valid : c.sizeofMsg ≤ msg.combineLen ∧ msg.mgrid = c.iomgrSpi :=
      ⟨Nat.not_lt.mp fun short => valid (.inl short), not_not.mp fun other => valid (.inr other)⟩
    split at outcome
    case h_1 unknown =>
      exact .inl ⟨_, outcome, fun _ _ checked => nomatch unknown.symm.trans checked.subtype⟩
    case h_2 subtype known =>
      split at outcome
      case h_1 failed =>
        exact .inl ⟨_, outcome, fun _ _ checked => nomatch failed.symm.trans checked.check⟩
      case h_2 rest passed => exact .inr ⟨subtype, rest, op, valid, known, passed⟩

theorem Checked.unique (first : Checked c spi req msg subtype rest) {subtype' : Subtype}
    {rest' : List Lock} (second : Checked c spi req msg subtype' rest') :
    subtype = subtype' ∧ rest = rest' :=
  ⟨Option.some_inj.mp (first.subtype.symm.trans second.subtype),
    Except.ok.inj (first.check.symm.trans second.check)⟩

theorem Checked.exclusive (checked : Checked c spi req msg subtype rest) (unique : Unique spi.locks)
    (chip : chipOf msg.device ≠ SPI_DEV_ID_NONE) : spi.Exclusive c req := by
  refine exclusive_of_passed unique (lockCheck_passed checked.check) checked.flags
    (checked.target.trans (if_neg chip)) checked.locks ?_ fun any => absurd any chip
  intro call made
  rw [checked.outcome] at made
  rw [← ((finish_call _).mp made).2, transfer_chip, if_neg chip]

theorem Checked.default_iff (checked : Checked c spi req msg subtype rest)
    (unique : Unique spi.locks) (any : chipOf msg.device = SPI_DEV_ID_NONE) :
    spi.Exclusive c req ↔ spi.KeptDefault c req msg subtype rest := by
  have passed := lockCheck_passed checked.check
  have target : spi.target req = spi.default req.ocb := checked.target.trans (if_pos any)
  have call : (spi.transfer req.ocb msg subtype).chip = spi.default req.ocb := by
    rw [transfer_chip, if_pos any]
  have rtn : (spi.exec c req).rtn = (({ spi with locks := rest }.begin c req.env msg subtype).1.getD
      (result c req.env msg subtype)) := by
    rw [checked.outcome, finish_rtn]
  constructor
  · intro exclusive
    refine ⟨fun reached owner held => ?_, fun lock ok chip => ?_, fun unlock held lock last => ?_⟩
    · have made : (spi.exec c req).call = some (spi.transfer req.ocb msg subtype) := by
        rw [checked.outcome]
        exact (finish_call _).mpr ⟨reached, rfl⟩
      rw [← call] at held
      exact exclusive.access _ made owner held
    · rw [← rtn] at ok
      have kept := exclusive.locked (by rw [checked.flags]; exact lock) ok
        (by rw [target]; exact chip)
      unfold Spidev.Holds at kept ⊢
      rw [target, checked.locks] at kept
      rcases kept with held | ⟨_, held⟩
      · exact passed.mem_of_ne unique held fun same => chip (same.trans any)
      · exact held
    · obtain ⟨mem, gone⟩ := passed.newest_gone unique any unlock held last
      rw [← checked.locks] at gone
      obtain ⟨_, closed | ⟨_, fits⟩⟩ := exclusive.released lock mem gone
      · exact nomatch checked.op.symm.trans closed
      · rw [target] at fits
        exact fits
  · intro kept
    refine ⟨fun made there owner held => ?_, fun lock ok chip => ?_, fun lock mem gone => ?_⟩
    · rw [checked.outcome] at there
      obtain ⟨reached, rfl⟩ := (finish_call _).mp there
      rw [call] at held
      exact kept.access reached owner held
    · rw [checked.flags] at lock ⊢
      rw [rtn] at ok
      rw [target] at chip ⊢
      have held := kept.locked lock ok chip
      by_cases there : ⟨req.ocb, spi.default req.ocb⟩ ∈ rest
      · refine .inl ?_
        unfold Spidev.Holds
        rw [checked.locks]
        exact there
      · exact .inr ⟨(passed.released unique _ held there).2.1, held⟩
    · rw [checked.locks] at gone
      rw [checked.flags, target]
      obtain ⟨owner, unlock, held, same | ⟨_, last⟩⟩ := passed.released unique lock mem gone
      · exact ⟨owner, .inr ⟨unlock, .inr (same.trans any)⟩⟩
      · rw [any] at held
        exact ⟨owner, .inr ⟨unlock, kept.unlocked unlock held lock last⟩⟩

theorem msg_kept_iff (unique : Unique spi.locks) (op : req.op = .msg msg) :
    spi.Exclusive c req ↔ spi.Kept c req := by
  have kept : spi.Kept c req ↔ ∀ subtype rest, Checked c spi req msg subtype rest →
      chipOf msg.device = SPI_DEV_ID_NONE → spi.KeptDefault c req msg subtype rest := by
    unfold Spidev.Kept
    rw [op]
    constructor
    · intro kept subtype rest checked any
      exact kept checked.valid.1 checked.valid.2 any subtype checked.subtype rest checked.check
    · intro kept long manager any subtype known rest check
      exact kept subtype rest ⟨op, ⟨long, manager⟩, known, check⟩ any
  rw [kept]
  rcases msg_cases c spi op with ⟨_, refused, never⟩ | ⟨subtype, rest, checked⟩
  · exact iff_of_true (exclusive_of_refused refused)
      fun subtype rest checked => absurd checked (never subtype rest)
  · by_cases any : chipOf msg.device = SPI_DEV_ID_NONE
    · rw [checked.default_iff unique any]
      constructor
      · intro here subtype' rest' other _
        obtain ⟨rfl, rfl⟩ := checked.unique other
        exact here
      · exact fun all => all subtype rest checked any
    · exact iff_of_true (checked.exclusive unique any) fun _ _ _ none => absurd none any

/-! ### Devctl and close -/

theorem exclusive_of_quiet (calls : (spi.exec c req).call = none)
    (locks : (spi.next c req).locks = spi.locks)
    (flags : has (spi.flags req) SPI_DEV_LOCK = false) : spi.Exclusive c req where
  access := by
    rw [calls]
    exact fun _ made => nomatch made
  locked := by
    rw [flags]
    exact fun set => nomatch set
  released := by
    rw [locks]
    exact fun _ mem gone => absurd mem gone

theorem configure_spi (mode : BitVec 32) : (spi.configure env device mode).spi = spi := by
  unfold Spidev.configure
  split
  · split
    · rfl
    · split
      · rfl
      · rfl
  · rfl

theorem setConfig_locks (nbytes : Nat) (mode : BitVec 32) :
    (spi.setConfig env ocb nbytes device mode).spi.locks = spi.locks := by
  unfold Spidev.setConfig
  split
  · rfl
  split
  · rfl
  rw [configure_spi]
  unfold Spidev.setDefault
  split
  · rfl
  · rfl

theorem setConfig_call {nbytes : Nat} {mode : BitVec 32} {call : Call} :
    (spi.setConfig env ocb nbytes device mode).call = some call ↔
      (sizeofCfg + 4 ≤ nbytes ∧ chipOf device ≠ SPI_DEV_ID_NONE ∧ mode ≠ 0 ∧
        env.setcfg = some EOK) ∧ call = .setcfg (device.setWidth 16) := by
  unfold Spidev.setConfig Spidev.configure
  split
  case isTrue short => exact ⟨nofun, fun made => absurd made.1.1 (Nat.not_le.mpr short)⟩
  split
  case isTrue any => exact ⟨nofun, fun made => absurd any made.1.2.1⟩
  rename_i long some_
  split
  case isFalse unset => exact ⟨nofun, fun made => absurd made.1.2.2.1 unset⟩
  rename_i set
  split
  case h_1 lacks => exact ⟨nofun, fun made => nomatch lacks.symm.trans made.1.2.2.2⟩
  rename_i status known
  split
  case isTrue failed =>
    refine ⟨nofun, fun made => absurd ?_ failed⟩
    exact Option.some_inj.mp (known.symm.trans made.1.2.2.2)
  case isFalse done =>
    constructor
    · intro made
      have eok : env.setcfg = some EOK := known.trans (congrArg some (not_not.mp done))
      exact ⟨⟨Nat.not_lt.mp long, some_, set, eok⟩, (Option.some_inj.mp made).symm⟩
    · exact fun made => congrArg some made.2.symm

theorem setConfig_kept_iff {nbytes : Nat} {mode : BitVec 32}
    (op : req.op = .devctl none (.setConfig nbytes device mode)) :
    spi.Exclusive c req ↔ spi.Kept c req := by
  have outcome : spi.exec c req = spi.setConfig req.env req.ocb nbytes device mode := by
    unfold Spidev.exec
    rw [op]
    rfl
  have flags : has (spi.flags req) SPI_DEV_LOCK = false := by
    have none : spi.flags req = 0 := by
      unfold Spidev.flags
      rw [op]
    rw [none]
    decide
  have locks : (spi.next c req).locks = spi.locks := by
    unfold Spidev.next
    rw [outcome]
    exact setConfig_locks nbytes mode
  have called (call : Call) : (spi.exec c req).call = some call ↔
      (sizeofCfg + 4 ≤ nbytes ∧ chipOf device ≠ SPI_DEV_ID_NONE ∧ mode ≠ 0 ∧
        req.env.setcfg = some EOK) ∧ call = .setcfg (device.setWidth 16) := by
    rw [outcome]
    exact setConfig_call
  have chip : (Call.setcfg (device.setWidth 16)).chip = chipOf device := setWidth_chip device
  have kept : spi.Kept c req ↔ (sizeofCfg + 4 ≤ nbytes → chipOf device ≠ SPI_DEV_ID_NONE →
      mode ≠ 0 → req.env.setcfg = some EOK →
        ∀ owner, spi.Holds (chipOf device) owner → owner = req.ocb) := by
    unfold Spidev.Kept
    rw [op]
  rw [kept]
  constructor
  · intro exclusive long some_ set done owner held
    rw [← chip] at held
    exact exclusive.access _ ((called _).mpr ⟨⟨long, some_, set, done⟩, rfl⟩) owner held
  · intro kept
    refine ⟨fun call made owner held => ?_, ?_, ?_⟩
    · obtain ⟨⟨long, some_, set, done⟩, rfl⟩ := (called call).mp made
      rw [chip] at held
      exact kept long some_ set done owner held
    · rw [flags]
      exact fun set => nomatch set
    · rw [locks]
      exact fun _ mem gone => absurd mem gone

/-- `_spi_close_ocb` removes the locks of the context. -/
theorem unlockAll_eq (ocb : Nat) {turns : Nat} {locks : List Lock} (enough : locks.length ≤ turns) :
    unlockAll ocb turns locks = locks.filter fun lock => lock.owner ≠ ocb := by
  induction turns generalizing locks with
  | zero =>
    rw [List.eq_nil_of_length_eq_zero (Nat.le_zero.mp enough)]
    rfl
  | succ turns ih =>
    have kept (none : ∀ lock ∈ locks, lock.owner ≠ ocb) :
        locks = locks.filter fun lock => lock.owner ≠ ocb :=
      (List.filter_eq_self.mpr fun lock mem => decide_eq_true (none lock mem)).symm
    unfold unlockAll unlockDev
    split
    case h_2 failed =>
      split at failed
      case isTrue empty =>
        rw [List.isEmpty_iff.mp empty]
        rfl
      case isFalse =>
        split at failed
        case h_1 => cases failed
        case h_2 none =>
          refine kept fun lock mem owner => ?_
          exact removeLock_none none lock mem ⟨.inr chipOf_none, owner⟩
    case h_1 rest removed =>
      split at removed
      case isTrue => cases removed
      case isFalse =>
        split at removed
        case h_2 => cases removed
        case h_1 rest' found =>
          cases removed
          obtain ⟨before, lock, after, rfl, rfl, owner, _⟩ := removeLock_some found
          have shorter : (before ++ after).length ≤ turns := by
            rw [List.length_append, List.length_cons] at enough
            rw [List.length_append]
            omega
          rw [ih shorter, List.filter_append, List.filter_append, List.filter_cons_of_neg]
          rw [decide_eq_true_iff]
          exact not_not.mpr owner

theorem close_exclusive (op : req.op = .close) : spi.Exclusive c req := by
  have outcome : spi.exec c req = spi.close req.ocb := by
    unfold Spidev.exec
    rw [op]
  refine ⟨?_, ?_, fun lock mem gone => ?_⟩
  · rw [outcome]
    exact fun _ made => nomatch made
  · have none : spi.flags req = 0 := by
      unfold Spidev.flags
      rw [op]
    rw [none]
    exact fun set => absurd set (by decide)
  · unfold Spidev.next at gone
    rw [outcome] at gone
    have gone : lock ∉ unlockAll req.ocb spi.locks.length spi.locks := gone
    rw [unlockAll_eq req.ocb (Nat.le_refl _), List.mem_filter, decide_eq_true_iff] at gone
    exact ⟨not_not.mp fun other => gone ⟨mem, other⟩, .inl op⟩

theorem devctl_quiet (env : Env) (spi : Spidev) (ocb : Nat) (handled : Option Nat) (dcmd : Dcmd)
    (other : handled = none → ∀ nbytes device mode, dcmd ≠ .setConfig nbytes device mode) :
    (spi.devctl env ocb handled dcmd).call = none ∧
      (spi.devctl env ocb handled dcmd).spi = spi := by
  cases handled with
  | some status => exact ⟨rfl, rfl⟩
  | none =>
    cases dcmd with
    | setConfig nbytes device mode => exact absurd rfl (other rfl nbytes device mode)
    | getDevinfo nbytes device =>
      change (spi.getDevinfo env ocb nbytes device).call = none ∧
        (spi.getDevinfo env ocb nbytes device).spi = spi
      unfold Spidev.getDevinfo
      split
      · exact ⟨rfl, rfl⟩
      split
      · exact ⟨rfl, rfl⟩
      split
      · exact ⟨rfl, rfl⟩
      · exact ⟨rfl, rfl⟩
    | getDrvinfo =>
      change (spi.getDrvinfo env).call = none ∧ (spi.getDrvinfo env).spi = spi
      unfold Spidev.getDrvinfo
      split
      · exact ⟨rfl, rfl⟩
      split
      · exact ⟨rfl, rfl⟩
      · exact ⟨rfl, rfl⟩
    | other => exact ⟨rfl, rfl⟩

theorem kept_iff (sane : spi.Sane) (req : Request) : spi.Exclusive c req ↔ spi.Kept c req := by
  have unflagged : has 0 SPI_DEV_LOCK = false := by decide
  rcases req with ⟨ocb, op, env⟩
  cases op with
  | «open» => exact iff_of_true (exclusive_of_quiet rfl rfl unflagged) trivial
  | read verify plain nbytes =>
    have outcome : spi.exec c ⟨ocb, .read verify plain nbytes, env⟩ =
        spi.read c env ocb verify plain nbytes := rfl
    refine iff_of_true (io_exclusive sane rfl rfl outcome ?_ ?_) trivial
    · exact fun _ => buffer_framed _ _ _
    · exact chipOf_read _
  | write verify plain nbytes =>
    have outcome : spi.exec c ⟨ocb, .write verify plain nbytes, env⟩ =
        spi.write c env ocb verify plain nbytes := rfl
    refine iff_of_true (io_exclusive sane rfl rfl outcome ?_ ?_) trivial
    · exact fun _ => buffer_framed _ _ _
    · exact chipOf_write _
  | msg msg => exact msg_kept_iff sane.unique rfl
  | devctl handled dcmd =>
    have quiet (other : handled = none → ∀ nbytes device mode,
        dcmd ≠ .setConfig nbytes device mode) :
        spi.Exclusive c ⟨ocb, .devctl handled dcmd, env⟩ := by
      obtain ⟨calls, same⟩ := devctl_quiet env spi ocb handled dcmd other
      exact exclusive_of_quiet calls (congrArg Spidev.locks same) unflagged
    cases handled with
    | some status => exact iff_of_true (quiet nofun) trivial
    | none =>
      cases dcmd with
      | setConfig nbytes device mode => exact setConfig_kept_iff rfl
      | getDevinfo | getDrvinfo | other =>
        exact iff_of_true (quiet fun _ _ _ _ => nofun) trivial
  | close => exact iff_of_true (close_exclusive rfl) trivial

/-! ### At every moment -/

/-- The locks are changed by a lock check alone, and the default chips stay. -/
structure Moved (spi : Spidev) (ocb : Nat) (t : Spidev) : Prop where
  locks : t.locks = spi.locks ∨ ∃ device, Passed spi.locks device ocb t.locks
  chip : t.chip = spi.chip

theorem Moved.sane {t : Spidev} (moved : Moved spi ocb t) (sane : spi.Sane) : t.Sane where
  unique := by
    rcases moved.locks with same | ⟨device, passed⟩
    · rw [same]
      exact sane.unique
    · exact passed.unique sane.unique
  plain o any := by
    unfold Spidev.default at any
    rw [moved.chip] at any ⊢
    exact sane.plain o any

theorem io_moved {verify : Nat} {plain : Bool} {nbytes : Int} {call : Call}
    {buffer : Spidev → Option Nat × Spidev} {rtn : Except Nat Reply}
    (framed : ∀ spi, Framed spi (buffer spi).2) :
    Moved spi ocb (spi.io env ocb verify plain nbytes buffer call rtn).spi := by
  unfold Spidev.io
  split
  · exact ⟨.inl rfl, rfl⟩
  split
  · exact ⟨.inl rfl, rfl⟩
  split
  case h_1 => exact ⟨.inl rfl, rfl⟩
  case h_2 rest checked =>
    have passed := lockCheck_passed checked
    split
    · exact ⟨.inr ⟨_, passed⟩, rfl⟩
    · rw [finish_spi]
      have same := framed { spi with locks := rest }
      refine ⟨.inr ⟨spi.chip ocb, ?_⟩, same.chip⟩
      rw [show (early _).2.locks = rest from same.locks]
      exact passed

theorem Checked.moved (checked : Checked c spi req msg subtype rest) :
    Moved spi req.ocb (spi.next c req) := by
  refine ⟨.inr ⟨msg.device, ?_⟩, ?_⟩
  · rw [checked.locks]
    exact lockCheck_passed checked.check
  · unfold Spidev.next
    rw [checked.outcome, finish_spi]
    exact (begin_framed _ _).chip

theorem setConfig_sane {nbytes : Nat} {mode : BitVec 32} (sane : spi.Sane) :
    (spi.setConfig env ocb nbytes device mode).spi.Sane := by
  unfold Spidev.setConfig
  split
  · exact sane
  split
  · exact sane
  rename_i some_
  rw [configure_spi]
  unfold Spidev.setDefault
  split
  · refine ⟨sane.unique, fun o any => ?_⟩
    unfold Spidev.default at any
    dsimp only at any ⊢
    split at any
    · exact absurd any some_
    · rw [if_neg ‹_›]
      exact sane.plain o any
  · exact sane

theorem Spidev.Sane.next (sane : spi.Sane) (req : Request) : (spi.next c req).Sane := by
  rcases req with ⟨ocb, op, env⟩
  cases op with
  | «open» =>
    refine ⟨sane.unique, fun o any => ?_⟩
    change (if o = ocb then SPI_DEV_ID_NONE else spi.chip o) = SPI_DEV_ID_NONE
    split
    · rfl
    · refine sane.plain o ?_
      change chipOf (if o = ocb then SPI_DEV_ID_NONE else spi.chip o) = SPI_DEV_ID_NONE at any
      rw [if_neg ‹_›] at any
      exact any
  | read verify plain nbytes => exact (io_moved fun _ => buffer_framed _ _ _).sane sane
  | write verify plain nbytes => exact (io_moved fun _ => buffer_framed _ _ _).sane sane
  | msg msg =>
    have op : (⟨ocb, .msg msg, env⟩ : Request).op = .msg msg := rfl
    rcases msg_cases c spi op with
      ⟨_, refused, _⟩ | ⟨subtype, rest, checked⟩
    · unfold Spidev.next
      rw [refused]
      exact sane
    · exact checked.moved.sane sane
  | devctl handled dcmd =>
    cases handled with
    | some status => exact sane
    | none =>
      cases dcmd with
      | setConfig nbytes device mode => exact setConfig_sane sane
      | getDevinfo nbytes device =>
        have same : spi.next c ⟨ocb, .devctl none (.getDevinfo nbytes device), env⟩ = spi :=
          (devctl_quiet env spi ocb none (.getDevinfo nbytes device) fun _ _ _ _ => nofun).2
        rw [same]
        exact sane
      | getDrvinfo =>
        have same : spi.next c ⟨ocb, .devctl none .getDrvinfo, env⟩ = spi :=
          (devctl_quiet env spi ocb none .getDrvinfo fun _ _ _ _ => nofun).2
        rw [same]
        exact sane
      | other => exact sane
  | close =>
    refine ⟨?_, sane.plain⟩
    change Unique (unlockAll ocb spi.locks.length spi.locks)
    rw [unlockAll_eq ocb (Nat.le_refl _)]
    exact List.Nodup.sublist (List.filter_sublist.map _) sane.unique

end Outcomes

/-! ## Runs -/

/-- A resource manager before its first request -/
structure Spidev.Start (spi : Spidev) : Prop where
  locks : spi.locks = []
  chip : ∀ ocb, spi.chip ocb = SPI_DEV_ID_NONE

theorem Spidev.Start.sane {spi : Spidev} (start : spi.Start) : spi.Sane where
  unique := by
    unfold Unique
    rw [start.locks]
    exact List.nodup_nil
  plain ocb _ := start.chip ocb

/-- At every moment there is at most one lock for a device, and every request respects the locks,
exactly when every request meets its condition. -/
theorem lock_exclusive_iff (c : Conf) {spi : Spidev} (start : spi.Start) (reqs : List Request) :
    ((∀ pre, pre <+: reqs → (pre.foldl (Spidev.next c) spi).Sane) ∧
        ∀ pre req, pre ++ [req] <+: reqs → (pre.foldl (Spidev.next c) spi).Exclusive c req) ↔
      ∀ pre req, pre ++ [req] <+: reqs → (pre.foldl (Spidev.next c) spi).Kept c req :=
  along_iff (fun sane => (and_iff_right (sane.next _)).trans (kept_iff sane _)) start.sane

/-- The context unlocks the chip or closes. -/
def Spidev.Unlocks (spi : Spidev) (req : Request) (chip : BitVec 32) : Prop :=
  req.op = .close ∨ has (spi.flags req) SPI_DEV_UNLOCK = true ∧ spi.target req = chip

theorem Spidev.Exclusive.holds {c : Conf} {spi : Spidev} {req : Request}
    (exclusive : spi.Exclusive c req) {chip : BitVec 32} (some_ : chip ≠ SPI_DEV_ID_NONE)
    {owner : Nat} (held : spi.Holds chip owner)
    (kept : req.ocb = owner → ¬spi.Unlocks req chip) : (spi.next c req).Holds chip owner := by
  refine not_not.mp fun gone => ?_
  obtain ⟨same, closed | ⟨unlock, target | none⟩⟩ := exclusive.released _ held gone
  · exact kept same.symm (.inl closed)
  · exact kept same.symm (.inr ⟨unlock, target.symm⟩)
  · exact some_ none

/-- Sizes as the library has them -/
def conf : Conf := ⟨16, 16, 2048, 0xF001⟩

def fresh : Spidev := ⟨[], fun _ => SPI_DEV_ID_NONE, 0⟩

theorem fresh_start : fresh.Start := ⟨rfl, fun _ => rfl⟩

/-- A driver that transfers four bytes -/
def fourBytes : Env := ⟨true, true, .ok 4, 4, none, some EOK, none, none⟩

/-- A read message of a context for a device number -/
def readMsg (ocb : Nat) (device : BitVec 32) : Request :=
  ⟨ocb, .msg ⟨16, 0xF001, 1, device, 4, 0, 0⟩, fourBytes⟩

/-- A context locks chip 3, another one is refused, and the first one unlocks it. -/
def lockAndUnlock : List Request :=
  [readMsg 0 (3 ||| SPI_DEV_LOCK), readMsg 1 3, readMsg 0 (3 ||| SPI_DEV_UNLOCK)]

theorem lock_exclusive_small :
    (fresh.next conf (readMsg 0 (3 ||| SPI_DEV_LOCK))).Exclusive conf (readMsg 1 3) := by
  have chips : ∀ req ∈ lockAndUnlock, ∀ spi : Spidev, spi.Kept conf req := by
    intro req mem spi
    rcases List.mem_cons.mp mem with rfl | mem
    · exact fun _ _ any => absurd any (by decide)
    rcases List.mem_pair.mp mem with rfl | rfl
    · exact fun _ _ any => absurd any (by decide)
    · exact fun _ _ any => absurd any (by decide)
  have respected := (lock_exclusive_iff conf fresh_start lockAndUnlock).mpr fun pre req below =>
    chips req (below.subset (List.mem_append_right pre (List.mem_singleton_self req))) _
  exact respected.2 [readMsg 0 (3 ||| SPI_DEV_LOCK)] (readMsg 1 3)
    ⟨[readMsg 0 (3 ||| SPI_DEV_UNLOCK)], rfl⟩

/-- A context locks chip 3, and another one that has it as its default device reads from it with a
message for no device. -/
theorem lock_exclusive_broken :
    ¬∀ (c : Conf) (spi : Spidev), spi.Start → ∀ reqs : List Request,
      (∀ pre, pre <+: reqs → (pre.foldl (Spidev.next c) spi).Sane) ∧
        ∀ pre req, pre ++ [req] <+: reqs → (pre.foldl (Spidev.next c) spi).Exclusive c req := by
  intro claim
  let before : List Request :=
    [⟨1, .devctl none (.setConfig 12 (3 ||| SPI_DEV_DEFAULT) 0), fourBytes⟩,
      readMsg 0 (3 ||| SPI_DEV_LOCK)]
  have exclusive := (claim conf fresh fresh_start (before ++ [readMsg 1 SPI_DEV_ID_NONE])).2 before
    (readMsg 1 SPI_DEV_ID_NONE) (List.prefix_refl _)
  have held : (before.foldl (Spidev.next conf) fresh).Holds (chipOf (3 ||| SPI_DEV_READ)) 0 := by
    unfold Spidev.Holds
    decide
  exact absurd (exclusive.access (.xfer (3 ||| SPI_DEV_READ)) (by decide) 0 held) (by decide)

end Mx6xBsp.Spi
