import Mathlib.Data.List.TakeWhile
import Mathlib.Data.Nat.Bitwise
import Mx6xBsp.Lib.Histories
import Mx6xBsp.Lib.Loops

/-!
# The memory tests

The twelve tests of `mem_tests.c` of the IPL: data bus, address bus and device, in four widths. A
test returns how many bytes it has tested, or zero. The last two kinds take the address of a fault
for a sign that there is one, and the size of the memory for what they have tested, cut to 32 bits.
-/

namespace Mx6xBsp.Ipl.MemTests

open Histories

/-- `unsigned`, `unsigned long` and `paddr_t` -/
abbrev Word := BitVec 32

/-- `uint64_t` -/
abbrev Size := BitVec 64

abbrev History := List (Write 32)

/-- What a test leaves: the writes so far, what it returns, and whether it has read something else
than it expects. -/
structure Tested where
  history : History
  n : Word
  missed : Bool

section Tests

variable (mem : Memory 32) (w : Width)

/-- `&(baseAddress)[offset]` -/
def slot (base offset : Word) : Word := base + offset * BitVec.ofNat 32 w.bytes

/-! ## Data bus -/

/-- The values of the loop of `_1s_WALK`, up to the one that has lost its bit -/
def walkValues : List (BitVec w.bits) := (List.range w.bits).map (1#w.bits <<< ·)

/-- `_1s_WALK`, with the value its loop is left with -/
def onesWalk (p : Word) : List (BitVec w.bits) → History → History × BitVec w.bits
  | [], history => (history, 0)
  | v :: vs, history =>
    let history := ⟨w, p, v⟩ :: history
    if mem history p w ≠ v then (history, v) else onesWalk p vs history

def walkTest (mem_loc : Word) (_mem_size : Size) (history : History) : Tested :=
  let (history, v) := onesWalk mem w mem_loc (walkValues w) history
  ⟨history, if v = 0 then BitVec.ofNat 32 w.bytes else 0, v ≠ 0⟩

/-! ## Address bus -/

/-- The offsets of `for (offset=1; (offset & (mask))!=0; offset<<=1)`: behind the last of the 32
powers the offset is zero. -/
def offsets (mask : Word) : List Word :=
  ((List.range 32).map (1#32 <<< ·)).takeWhile fun offset => offset &&& mask ≠ 0

/-- The default pattern at each offset -/
def writePattern (base : Word) (pattern : BitVec w.bits) (history : History) : List Word → History
  | [] => history
  | offset :: rest => writePattern base pattern (⟨w, slot w base offset, pattern⟩ :: history) rest

/-- The check for address bits that are stuck low or shorted. With the writes comes the fault
location of a `goto done`. -/
def checkLow (base : Word) (pattern pattern_1scomp : BitVec w.bits) (all : List Word) :
    List Word → History → History × Option Word
  | [], history => (history, none)
  | testOffset :: rest, history =>
    let history := ⟨w, slot w base testOffset, pattern_1scomp⟩ :: history
    if mem history (slot w base 0) w ≠ pattern then (history, some (slot w base testOffset))
    else if all.any fun offset =>
        mem history (slot w base offset) w ≠ pattern ∧ offset ≠ testOffset then
      (history, some (slot w base testOffset))
    else
      checkLow base pattern pattern_1scomp all rest
        (⟨w, slot w base testOffset, pattern⟩ :: history)

def ADDR_TEST (base mask : Word) (pattern pattern_1scomp : BitVec w.bits) (history : History) :
    History × Option Word :=
  let history := writePattern w base pattern history (offsets mask)
  let history := ⟨w, slot w base 0, pattern_1scomp⟩ :: history
  match (offsets mask).find? fun offset => mem history (slot w base offset) w ≠ pattern with
  | some offset => (history, some (slot w base offset))
  | none =>
    let history := ⟨w, slot w base 0, pattern⟩ :: history
    checkLow mem w base pattern pattern_1scomp (offsets mask) (offsets mask) history

/-- `return (r == 0) ? mem_size : 0`, where `r` is zero without a fault -/
def report (mem_size : Size) (tested : History × Option Word) : Tested :=
  ⟨tested.1, if tested.2.getD 0 = 0 then mem_size.setWidth 32 else 0, tested.2.isSome⟩

def addrTest (pattern pattern_1scomp : BitVec w.bits) (mem_loc : Word) (mem_size : Size)
    (history : History) : Tested :=
  let mask := (mem_size / BitVec.ofNat 64 w.bytes - 1).setWidth 32
  report mem_size (ADDR_TEST mem w mem_loc mask pattern pattern_1scomp history)

/-! ## Device -/

/-- A known pattern in every place, with `num` left -/
def fill (base : Word) : Nat → Word → BitVec w.bits → History → History
  | 0, _, _, history => history
  | left + 1, offset, pattern, history =>
    fill base left (offset + 1) (pattern + 1) (⟨w, slot w base offset, pattern⟩ :: history)

/-- The check of each place before it is inverted -/
def invert (base : Word) : Nat → Word → BitVec w.bits → History → History × Option Word
  | 0, _, _, history => (history, none)
  | left + 1, offset, pattern, history =>
    if mem history (slot w base offset) w ≠ pattern then (history, some (slot w base offset))
    else
      invert base left (offset + 1) (pattern + 1) (⟨w, slot w base offset, ~~~pattern⟩ :: history)

/-- The check of each place for the inverted pattern -/
def checkInverted (base : Word) (history : History) : Nat → Word → BitVec w.bits → Option Word
  | 0, _, _ => none
  | left + 1, offset, pattern =>
    if mem history (slot w base offset) w ≠ ~~~pattern then some (slot w base offset)
    else checkInverted base history left (offset + 1) (pattern + 1)

def DEVICE_TEST (base num : Word) (history : History) : History × Option Word :=
  match invert mem w base num.toNat 0 1 (fill w base num.toNat 0 1 history) with
  | (history, some r) => (history, some r)
  | (history, none) => (history, checkInverted mem w base history num.toNat 0 1)

def devTest (mem_loc : Word) (mem_size : Size) (history : History) : Tested :=
  let num := (mem_size / BitVec.ofNat 64 w.bytes).setWidth 32
  report mem_size (DEVICE_TEST mem w mem_loc num history)

end Tests

/-! ## The twelve -/

section Table

variable (mem : Memory 32)

def onesWalk8bit := walkTest mem .byte

def onesWalk16bit := walkTest mem .half

def onesWalk32bit := walkTest mem .word

def onesWalk64bit := walkTest mem .double

def addrTest8bit := addrTest mem .byte 0xAA 0x55

def addrTest16bit := addrTest mem .half 0xAAAA 0x5555

def addrTest32bit := addrTest mem .word 0xAAAAAAAA 0x55555555

def addrTest64bit := addrTest mem .double 0xAAAAAAAAAAAAAAAA 0x5555555555555555

def devTest8bit := devTest mem .byte

def devTest16bit := devTest mem .half

def devTest32bit := devTest mem .word

def devTest64bit := devTest mem .double

/-- `_tests`, where number zero has none -/
def tests : List (Option (Word → Size → History → Tested)) :=
  [none, some (onesWalk8bit mem), some (onesWalk16bit mem), some (onesWalk32bit mem),
    some (onesWalk64bit mem), some (addrTest8bit mem), some (addrTest16bit mem),
    some (addrTest32bit mem), some (addrTest64bit mem), some (devTest8bit mem),
    some (devTest16bit mem), some (devTest32bit mem), some (devTest64bit mem)]

end Table

/-! ## `_mem_test` -/

def memtest_e_ALL : Word := -1

def memtest_e_first : Word := 1

/-- `memtest_e_8bit_1s_walk` to `memtest_e_64bit_1s_walk` -/
def memtest_e_1s_walk : Width → Word
  | .byte => 1
  | .half => 2
  | .word => 3
  | .double => 4

/-- `memtest_e_8bit_addr_test` to `memtest_e_64bit_addr_test` -/
def memtest_e_addr_test : Width → Word
  | .byte => 5
  | .half => 6
  | .word => 7
  | .double => 8

/-- `memtest_e_8bit_dev_test` to `memtest_e_64bit_dev_test` -/
def memtest_e_dev_test : Width → Word
  | .byte => 9
  | .half => 10
  | .word => 11
  | .double => 12

/-- The variables of `_mem_test`, with the writes so far and whether some test has missed -/
structure Scan where
  cur_mem_loc : Word
  bytes_tested : Size
  history : History
  missed : Bool

/-- A pass of the `while` loop -/
def scanPass (test_fn : Word → Size → History → Tested) (last_mem_loc : Word) (mem_size : Size)
    (s : Scan) : Loops.Pass Scan Scan :=
  if s.cur_mem_loc < last_mem_loc then
    let t := test_fn s.cur_mem_loc mem_size s.history
    let s := { s with history := t.history, missed := s.missed || t.missed }
    if t.n = 0 then .leave s
    else .next { s with
      cur_mem_loc := s.cur_mem_loc + t.n
      bytes_tested := s.bytes_tested + t.n.setWidth 64 }
  else .leave s

/-- The `for` loop over the tests with the given numbers. Nothing comes back where one of them takes
more than `fuel` passes. -/
def runTests (fuel : Nat) (mem : Memory 32) (start last_mem_loc : Word) (mem_size : Size) :
    List Nat → Scan → Option Scan
  | [], s => some s
  | i :: rest, s =>
    match (tests mem)[i]? with
    | some (some test_fn) =>
      (Loops.run (scanPass test_fn last_mem_loc mem_size) fuel
        { s with cur_mem_loc := start, bytes_tested := 0 }).bind
          (runTests fuel mem start last_mem_loc mem_size rest)
    | _ => runTests fuel mem start last_mem_loc mem_size rest s

def memTest (fuel : Nat) (mem : Memory 32) (start : Word) (mem_size : Size) (test_num : Word) :
    Option Scan :=
  let test_num_start := if test_num = memtest_e_ALL then memtest_e_first else test_num
  let NELEMENTS := BitVec.ofNat 32 (tests mem).length
  let test_num_end := if test_num = memtest_e_ALL then NELEMENTS - 1 else test_num
  let last_mem_loc := start + mem_size.setWidth 32
  let s : Scan := ⟨start, 0, [], false⟩
  if test_num_start < memtest_e_first ∨ test_num_start ≥ NELEMENTS then some s
  else
    runTests fuel mem start last_mem_loc mem_size
      (List.range' test_num_start.toNat (test_num_end.toNat + 1 - test_num_start.toNat)) s

section Facts

variable {mem : Memory 32} {w : Width} {base mask num r : Word} {history : History}

/-! ## Where a fault is -/

theorem slot_ofNat (w : Width) (base : Word) (i : Nat) :
    slot w base (BitVec.ofNat 32 i) = cell base w i := by
  unfold slot cell
  rw [BitVec.ofNat_mul]

theorem ofNat_succ {n : Nat} (i : Nat) : BitVec.ofNat n i + 1 = BitVec.ofNat n (i + 1) :=
  (BitVec.ofNat_add i 1).symm

theorem one_shift {k : Nat} (low : k < 32) : (1#32 <<< k).toNat = 2 ^ k := by
  have fits : 2 ^ k < 2 ^ 32 := Nat.pow_lt_pow_right (by decide) low
  rw [BitVec.toNat_shiftLeft, BitVec.toNat_one (by decide), Nat.one_shiftLeft,
    Nat.mod_eq_of_lt fits]

theorem mem_offsets {offset : Word} (at_ : offset ∈ offsets mask) :
    ∃ k < 32, offset = BitVec.ofNat 32 (2 ^ k) ∧ 2 ^ k ≤ mask.toNat := by
  unfold offsets at at_
  have hits := List.mem_takeWhile_imp at_
  obtain ⟨k, in_range, rfl⟩ := List.mem_map.mp ((List.takeWhile_sublist _).subset at_)
  have low : k < 32 := List.mem_range.mp in_range
  have power := one_shift low
  refine ⟨k, low, ?_, ?_⟩
  · rw [← power, BitVec.ofNat_toNat, BitVec.setWidth_eq]
  · apply Nat.ge_two_pow_of_testBit
    by_contra clear
    apply of_decide_eq_true hits
    apply BitVec.eq_of_toNat_eq
    rw [BitVec.toNat_and, power, Nat.two_pow_and, Bool.eq_false_of_not_eq_true clear,
      Bool.toNat_false, Nat.mul_zero]
    rfl

theorem checkLow_fault {pattern comp : BitVec w.bits} {all rest : List Word}
    (missed : (checkLow mem w base pattern comp all rest history).2 = some r) :
    ∃ offset ∈ rest, r = slot w base offset := by
  induction rest generalizing history with
  | nil => cases missed
  | cons testOffset rest ih =>
    unfold checkLow at missed
    dsimp only at missed
    split at missed
    · exact ⟨testOffset, List.mem_cons_self, (Option.some.inj missed).symm⟩
    · split at missed
      · exact ⟨testOffset, List.mem_cons_self, (Option.some.inj missed).symm⟩
      · obtain ⟨offset, inside, found⟩ := ih missed
        exact ⟨offset, List.mem_cons_of_mem _ inside, found⟩

theorem ADDR_TEST_fault {pattern comp : BitVec w.bits}
    (missed : (ADDR_TEST mem w base mask pattern comp history).2 = some r) :
    ∃ offset ∈ offsets mask, r = slot w base offset := by
  unfold ADDR_TEST at missed
  dsimp only at missed
  split at missed
  next offset found =>
    exact ⟨offset, List.mem_of_find?_eq_some found, (Option.some.inj missed).symm⟩
  next => exact checkLow_fault missed

theorem invert_fault {left i : Nat} {pattern : BitVec w.bits}
    (missed : (invert mem w base left (BitVec.ofNat 32 i) pattern history).2 = some r) :
    ∃ j < i + left, r = cell base w j := by
  induction left generalizing i pattern history with
  | zero => cases missed
  | succ left ih =>
    unfold invert at missed
    split at missed
    · refine ⟨i, by omega, ?_⟩
      rw [← slot_ofNat]
      exact (Option.some.inj missed).symm
    · rw [ofNat_succ] at missed
      obtain ⟨j, inside, found⟩ := ih missed
      exact ⟨j, by omega, found⟩

theorem checkInverted_fault {left i : Nat} {pattern : BitVec w.bits}
    (missed : checkInverted mem w base history left (BitVec.ofNat 32 i) pattern = some r) :
    ∃ j < i + left, r = cell base w j := by
  induction left generalizing i pattern with
  | zero => cases missed
  | succ left ih =>
    unfold checkInverted at missed
    split at missed
    · refine ⟨i, by omega, ?_⟩
      rw [← slot_ofNat]
      exact (Option.some.inj missed).symm
    · rw [ofNat_succ] at missed
      obtain ⟨j, inside, found⟩ := ih missed
      exact ⟨j, by omega, found⟩

theorem DEVICE_TEST_fault (missed : (DEVICE_TEST mem w base num history).2 = some r) :
    ∃ i < num.toNat, r = cell base w i := by
  unfold DEVICE_TEST at missed
  split at missed
  next same =>
    obtain ⟨i, inside, found⟩ :=
      invert_fault (i := 0) (r := r) ((congrArg Prod.snd same).trans missed)
    exact ⟨i, by omega, found⟩
  next =>
    obtain ⟨i, inside, found⟩ := checkInverted_fault (i := 0) missed
    exact ⟨i, by omega, found⟩

/-! ## Every test only adds writes -/

theorem length_of_cons {write : Write 32} {k : Nat} (le : (write :: history).length ≤ k) :
    history.length ≤ k :=
  Nat.le_of_succ_le le

theorem length_cons {write : Write 32} {k : Nat} (le : k ≤ history.length) :
    k ≤ (write :: history).length :=
  Nat.le_succ_of_le le

theorem writePattern_length (base : Word) (pattern : BitVec w.bits) (rest : List Word) :
    history.length ≤ (writePattern w base pattern history rest).length := by
  induction rest generalizing history with
  | nil => exact Nat.le_refl _
  | cons offset rest ih => exact length_of_cons ih

theorem checkLow_length {pattern comp : BitVec w.bits} {all : List Word} (rest : List Word) :
    history.length ≤ (checkLow mem w base pattern comp all rest history).1.length := by
  induction rest generalizing history with
  | nil => exact Nat.le_refl _
  | cons offset rest ih =>
    unfold checkLow
    dsimp only
    split
    · exact Nat.le_succ _
    · split
      · exact Nat.le_succ _
      · exact length_of_cons (length_of_cons ih)

theorem ADDR_TEST_length {pattern comp : BitVec w.bits} :
    history.length < (ADDR_TEST mem w base mask pattern comp history).1.length := by
  have written : history.length ≤ (writePattern w base pattern history (offsets mask)).length :=
    writePattern_length base pattern (offsets mask)
  unfold ADDR_TEST
  dsimp only
  split
  · exact Nat.lt_succ_of_le written
  · refine Nat.lt_of_lt_of_le ?_ (length_of_cons (checkLow_length (offsets mask)))
    exact Nat.lt_succ_of_le written

theorem fill_length {left : Nat} {offset : Word} {pattern : BitVec w.bits} :
    history.length ≤ (fill w base left offset pattern history).length := by
  induction left generalizing offset pattern history with
  | zero => exact Nat.le_refl _
  | succ left ih => exact length_of_cons ih

theorem invert_length {left : Nat} {offset : Word} {pattern : BitVec w.bits} :
    history.length ≤ (invert mem w base left offset pattern history).1.length := by
  induction left generalizing offset pattern history with
  | zero => exact Nat.le_refl _
  | succ left ih =>
    unfold invert
    split
    · exact Nat.le_refl _
    · exact length_of_cons ih

theorem DEVICE_TEST_length : history.length ≤ (DEVICE_TEST mem w base num history).1.length := by
  have inverted : history.length ≤
      (invert mem w base num.toNat 0 1 (fill w base num.toNat 0 1 history)).1.length :=
    fill_length.trans invert_length
  unfold DEVICE_TEST
  split
  next same =>
    rw [same] at inverted
    exact inverted
  next same =>
    rw [same] at inverted
    exact inverted

/-! ## Without faults -/

section Faultless

variable {since count : Nat}

theorem onesWalk_reads (reads : ReadsBack mem since) (late : since ≤ history.length) (p : Word)
    (vs : List (BitVec w.bits)) : (onesWalk mem w p vs history).2 = 0 := by
  induction vs generalizing history with
  | nil => rfl
  | cons v vs ih =>
    unfold onesWalk
    dsimp only
    rw [reads.same w p v late, if_neg (not_not_intro rfl)]
    exact ih (length_cons late)

theorem slot_toNat (w : Width) (base offset : Word) :
    slot w base offset = cell base w offset.toNat := by
  rw [← slot_ofNat, BitVec.ofNat_toNat, BitVec.setWidth_eq]

theorem writePattern_reads (reads : ReadsBack mem since) (late : since ≤ history.length)
    (fits : count * w.bytes ≤ 2 ^ 32) {rest : List Word} (inside : ∀ o ∈ rest, o.toNat < count)
    (pattern : BitVec w.bits) {i : Nat} (i_lt : i < count) :
    mem (writePattern w base pattern history rest) (cell base w i) w =
      if ∃ o ∈ rest, o.toNat = i then pattern else mem history (cell base w i) w := by
  induction rest generalizing history with
  | nil =>
    rw [if_neg (by simp)]
    rfl
  | cons offset rest ih =>
    have offset_lt := inside offset List.mem_cons_self
    unfold writePattern
    rw [ih (length_cons late) fun o at_ => inside o (List.mem_cons_of_mem _ at_),
      slot_toNat, reads.cell late base i_lt offset_lt fits]
    by_cases later : ∃ o ∈ rest, o.toNat = i
    · obtain ⟨o, at_, same⟩ := later
      rw [if_pos ⟨o, at_, same⟩, if_pos ⟨o, List.mem_cons_of_mem _ at_, same⟩]
    · rw [if_neg later]
      apply if_congr _ rfl rfl
      constructor
      · intro same
        exact ⟨offset, List.mem_cons_self, same.symm⟩
      · intro found
        obtain ⟨o, at_, same⟩ := found
        rcases List.mem_cons.mp at_ with first | at_
        · rw [← same, first]
        · exact absurd ⟨o, at_, same⟩ later

theorem checkLow_reads (reads : ReadsBack mem since) (late : since ≤ history.length)
    (fits : count * w.bytes ≤ 2 ^ 32) {pattern comp : BitVec w.bits} {all rest : List Word}
    (sub : rest ⊆ all) (inside : ∀ o ∈ all, 0 < o.toNat ∧ o.toNat < count)
    (base_holds : mem history (cell base w 0) w = pattern)
    (all_hold : ∀ o ∈ all, mem history (cell base w o.toNat) w = pattern) :
    (checkLow mem w base pattern comp all rest history).2 = none := by
  induction rest generalizing history with
  | nil => rfl
  | cons t rest ih =>
    have at_ : t ∈ all := sub List.mem_cons_self
    obtain ⟨t_pos, t_lt⟩ := inside t at_
    have marked {i : Nat} (i_lt : i < count) := reads.cell late base i_lt t_lt fits comp
    have restored {i : Nat} (i_lt : i < count) :
        mem (⟨w, cell base w t.toNat, pattern⟩ :: ⟨w, cell base w t.toNat, comp⟩ :: history)
          (cell base w i) w = if i = t.toNat then pattern
            else mem (⟨w, cell base w t.toNat, comp⟩ :: history) (cell base w i) w :=
      reads.cell (length_cons late) base i_lt t_lt fits pattern
    unfold checkLow
    dsimp only
    rw [slot_toNat w base 0, slot_toNat w base t, if_neg, if_neg]
    · apply ih (length_cons (length_cons late)) fun o at_ => sub (List.mem_cons_of_mem _ at_)
      · rw [restored (by omega), if_neg t_pos.ne, marked (by omega), if_neg t_pos.ne, base_holds]
      · intro o at_'
        obtain ⟨-, o_lt⟩ := inside o at_'
        rw [restored o_lt, marked o_lt, all_hold o at_']
        split
        next => rfl
        next => rfl
    · rw [Bool.not_eq_true, List.any_eq_false]
      intro o at_'
      obtain ⟨-, o_lt⟩ := inside o at_'
      rw [slot_toNat, marked o_lt, all_hold o at_']
      by_cases same : o = t
      · simp [same]
      · rw [if_neg fun same' => same (BitVec.eq_of_toNat_eq same')]
        simp
    · show ¬mem _ (cell base w 0) w ≠ pattern
      rw [marked (by omega), if_neg t_pos.ne, base_holds]
      exact not_not_intro rfl

theorem ADDR_TEST_reads (reads : ReadsBack mem since) (late : since ≤ history.length)
    (fits : count * w.bytes ≤ 2 ^ 32) (some_ : 0 < count) (inside : mask.toNat < count)
    (pattern comp : BitVec w.bits) :
    (ADDR_TEST mem w base mask pattern comp history).2 = none := by
  have bounds (o : Word) (at_ : o ∈ offsets mask) : 0 < o.toNat ∧ o.toNat < count := by
    obtain ⟨k, low, rfl, le⟩ := mem_offsets at_
    have word := mask.isLt
    have pos : 0 < 2 ^ k := Nat.two_pow_pos k
    rw [BitVec.toNat_ofNat, Nat.mod_eq_of_lt (by omega)]
    omega
  have written := late.trans (writePattern_length base pattern (offsets mask))
  have holds {o : Word} (at_ : o ∈ offsets mask) :
      mem (writePattern w base pattern history (offsets mask)) (cell base w o.toNat) w =
        pattern := by
    rw [writePattern_reads reads late fits (fun o at_ => (bounds o at_).2) pattern (bounds o at_).2,
      if_pos ⟨o, at_, rfl⟩]
  have kept {h : History} (late : since ≤ h.length) (v : BitVec w.bits) {o : Word}
      (at_ : o ∈ offsets mask) : mem (⟨w, cell base w 0, v⟩ :: h) (cell base w o.toNat) w =
        mem h (cell base w o.toNat) w := by
    obtain ⟨pos, lt⟩ := bounds o at_
    rw [reads.cell late base lt some_ fits, if_neg pos.ne']
  unfold ADDR_TEST
  dsimp only
  rw [slot_toNat w base 0]
  split
  next o found =>
    have at_ := List.mem_of_find?_eq_some found
    have wrong := List.find?_some found
    rw [slot_toNat] at wrong
    exact absurd ((kept written comp at_).trans (holds at_)) (of_decide_eq_true wrong)
  next =>
    apply checkLow_reads reads (length_cons (length_cons written)) fits
      (List.Subset.refl _) bounds
    · exact reads.same w _ pattern (length_cons written)
    · intro o at_
      exact (kept (length_cons written) pattern at_).trans
        ((kept written comp at_).trans (holds at_))

/-- With `left` places to fill from the place `i` on -/
theorem fill_reads (reads : ReadsBack mem since) (late : since ≤ history.length)
    (fits : count * w.bytes ≤ 2 ^ 32) {left i : Nat} (inside : i + left ≤ count) {j : Nat}
    (j_lt : j < count) :
    mem (fill w base left (BitVec.ofNat 32 i) (BitVec.ofNat w.bits (i + 1)) history)
      (cell base w j) w =
      if i ≤ j ∧ j < i + left then BitVec.ofNat w.bits (j + 1)
      else mem history (cell base w j) w := by
  induction left generalizing i history with
  | zero =>
    rw [if_neg (by omega)]
    rfl
  | succ left ih =>
    unfold fill
    rw [slot_ofNat, ofNat_succ, ofNat_succ, ih (length_cons late) (by omega),
      reads.cell late base j_lt (by omega) fits]
    by_cases later : i + 1 ≤ j ∧ j < i + 1 + left
    · rw [if_pos later, if_pos (by omega)]
    · rw [if_neg later]
      split
      next same => rw [same, if_pos (by omega)]
      next ne => rw [if_neg (by omega)]

theorem invert_reads (reads : ReadsBack mem since) (late : since ≤ history.length)
    (fits : count * w.bytes ≤ 2 ^ 32) {left i : Nat} (inside : i + left ≤ count)
    (hold : ∀ j, i ≤ j → j < i + left →
      mem history (cell base w j) w = BitVec.ofNat w.bits (j + 1)) :
    ∃ history', invert mem w base left (BitVec.ofNat 32 i) (BitVec.ofNat w.bits (i + 1)) history =
        (history', none) ∧ ∀ j < count, mem history' (cell base w j) w =
          if i ≤ j ∧ j < i + left then ~~~(BitVec.ofNat w.bits (j + 1))
          else mem history (cell base w j) w := by
  induction left generalizing i history with
  | zero =>
    refine ⟨history, rfl, ?_⟩
    intro j _
    rw [if_neg (by omega)]
  | succ left ih =>
    have i_lt : i < count := by omega
    have marked {j : Nat} (j_lt : j < count) :=
      reads.cell late base j_lt i_lt fits (~~~(BitVec.ofNat w.bits (i + 1)))
    have rest (j : Nat) (le : i + 1 ≤ j) (lt : j < i + 1 + left) :
        mem (⟨w, cell base w i, ~~~(BitVec.ofNat w.bits (i + 1))⟩ :: history) (cell base w j) w =
          BitVec.ofNat w.bits (j + 1) := by
      rw [marked (by omega), if_neg (by omega)]
      exact hold j (by omega) (by omega)
    obtain ⟨history', inverted, after⟩ := ih (length_cons late) (by omega) rest
    refine ⟨history', ?_, ?_⟩
    · unfold invert
      rw [slot_ofNat, hold i (Nat.le_refl i) (by omega), if_neg (not_not_intro rfl), ofNat_succ,
        ofNat_succ]
      exact inverted
    · intro j j_lt
      rw [after j j_lt, marked j_lt]
      by_cases later : i + 1 ≤ j ∧ j < i + 1 + left
      · rw [if_pos later, if_pos (by omega)]
      · rw [if_neg later]
        split
        next same => rw [same, if_pos (by omega)]
        next ne => rw [if_neg (by omega)]

theorem checkInverted_reads {left i : Nat} (hold : ∀ j, i ≤ j → j < i + left →
    mem history (cell base w j) w = ~~~(BitVec.ofNat w.bits (j + 1))) :
    checkInverted mem w base history left (BitVec.ofNat 32 i) (BitVec.ofNat w.bits (i + 1)) =
      none := by
  induction left generalizing i with
  | zero => rfl
  | succ left ih =>
    unfold checkInverted
    rw [slot_ofNat, hold i (Nat.le_refl i) (by omega), if_neg (not_not_intro rfl), ofNat_succ,
      ofNat_succ]
    exact ih fun j le lt => hold j (by omega) (by omega)

theorem DEVICE_TEST_reads (reads : ReadsBack mem since) (late : since ≤ history.length)
    (fits : num.toNat * w.bytes ≤ 2 ^ 32) : (DEVICE_TEST mem w base num history).2 = none := by
  have all : 0 + num.toNat ≤ num.toNat := (Nat.zero_add _).le
  have filled (j : Nat) (_ : 0 ≤ j) (lt : j < 0 + num.toNat) :
      mem (fill w base num.toNat 0 1 history) (cell base w j) w = BitVec.ofNat w.bits (j + 1) :=
    (fill_reads reads late fits all (by omega)).trans (if_pos ⟨Nat.zero_le j, lt⟩)
  obtain ⟨history', inverted, after⟩ :=
    invert_reads reads (late.trans fill_length) fits all filled
  have checked : checkInverted mem w base history' num.toNat 0 1 = none :=
    checkInverted_reads (i := 0) fun j le lt => (after j (by omega)).trans (if_pos ⟨le, lt⟩)
  unfold DEVICE_TEST
  split
  next same => cases inverted.symm.trans same
  next same =>
    cases inverted.symm.trans same
    exact checked

end Faultless

end Facts

end Mx6xBsp.Ipl.MemTests
