import Mathlib.Tactic.IntervalCases
import Mx6xBsp.Ipl.MemTests

/-!
# What the memory tests come to

`_mem_test` repeats a test until the memory is tested, and tells the bytes of the last test only.
`memTest_iff` says for which start, size and selection it is the size only if no test has missed,
whatever the memory does, and for which memories without faults are found good.
-/

namespace Mx6xBsp.Ipl.MemTests

open Histories Loops

/-! ## What a caller expects -/

section Claims

variable (mem : Memory 32) (start : Word) (mem_size : Size) (test_num : Word)

/-- The size comes back only if every test has read what it expects. -/
def Sound : Prop :=
  ∀ fuel s, memTest fuel mem start mem_size test_num = some s → s.bytes_tested = mem_size →
    s.missed = false

def Completes : Prop :=
  ∃ fuel s, memTest fuel mem start mem_size test_num = some s ∧ s.bytes_tested = mem_size

/-- What is below the end of the address space can be found good in spite of a fault: by the last of
all tests, by a device test at address zero, and by an address test of a size below its width, the
mask of which has all bits, with an offset that comes to address zero. -/
def Hides : Prop :=
  start.toNat + mem_size.toNat < 2 ^ 32 ∧
    ((test_num = memtest_e_ALL ∧ 0 < mem_size.toNat) ∨
      (∃ w, test_num = memtest_e_addr_test w ∧ 0 < mem_size.toNat ∧ mem_size.toNat < w.bytes ∧
        ∃ k < 32, (start.toNat + 2 ^ k * w.bytes) % 2 ^ 32 = 0) ∨
      ∃ w, test_num = memtest_e_dev_test w ∧ start = 0 ∧ w.bytes ≤ mem_size.toNat)

def Selects : Prop := test_num = memtest_e_ALL ∨ 1 ≤ test_num.toNat ∧ test_num.toNat ≤ 12

end Claims

/-! ## The `while` loop -/

section Loop

variable {test_fn : Word → Size → History → Tested} {start last : Word} {mem_size : Size}
  {history : History} {missed : Bool} {r s : Scan}

theorem start_lt_iff (start n : Word) :
    start < start + n ↔ 0 < n.toNat ∧ start.toNat + n.toNat < 2 ^ 32 := by
  have start_lt := start.isLt
  have n_lt := n.isLt
  rw [BitVec.lt_def, BitVec.toNat_add]
  omega

theorem low_size : (mem_size.setWidth 32).toNat = mem_size.toNat % 2 ^ 32 :=
  BitVec.toNat_setWidth ..

theorem lt_of_fits (some_ : 0 < mem_size.toNat) (fits : start.toNat + mem_size.toNat < 2 ^ 32) :
    start < start + mem_size.setWidth 32 := by
  rw [start_lt_iff, low_size, Nat.mod_eq_of_lt (by omega)]
  exact ⟨some_, fits⟩

theorem not_lt_of_zero (none_ : mem_size.toNat = 0) :
    ¬start < start + mem_size.setWidth 32 := by
  rw [start_lt_iff, low_size, none_]
  exact fun both => absurd both.1 (Nat.lt_irrefl 0)

theorem scanPass_next {t : Scan} (next : scanPass test_fn last mem_size s = .next t) :
    (test_fn s.cur_mem_loc mem_size s.history).n ≠ 0 ∧ s.cur_mem_loc < last ∧
      t.cur_mem_loc = s.cur_mem_loc + (test_fn s.cur_mem_loc mem_size s.history).n ∧
      t.bytes_tested =
        s.bytes_tested + (test_fn s.cur_mem_loc mem_size s.history).n.setWidth 64 ∧
      t.missed = (s.missed || (test_fn s.cur_mem_loc mem_size s.history).missed) := by
  unfold scanPass at next
  split at next
  next below =>
    dsimp only at next
    split at next
    · cases next
    next some_ =>
      cases next
      exact ⟨some_, below, rfl, rfl, rfl⟩
  · cases next

theorem scanPass_leave (leave : scanPass test_fn last mem_size s = .leave r) :
    (¬s.cur_mem_loc < last ∧ r = s) ∨
      (s.cur_mem_loc < last ∧ (test_fn s.cur_mem_loc mem_size s.history).n = 0 ∧
        r.bytes_tested = s.bytes_tested) := by
  unfold scanPass at leave
  split at leave
  next below =>
    dsimp only at leave
    split at leave
    next none_ =>
      cases leave
      exact Or.inr ⟨below, none_, rfl⟩
    · cases leave
  next beyond =>
    cases leave
    exact Or.inl ⟨beyond, rfl⟩

theorem scan_beyond (beyond : ¬s.cur_mem_loc < last) :
    Ends (scanPass test_fn last mem_size) s s := by
  apply ends_leave
  unfold scanPass
  rw [if_neg beyond]

theorem location_add (start n : Word) (bytes : Size) :
    start + bytes.setWidth 32 + n = start + (bytes + n.setWidth 64).setWidth 32 := by
  rw [BitVec.setWidth_add _ _ (by decide), BitVec.setWidth_setWidth_of_le _ (by decide),
    BitVec.setWidth_eq, BitVec.add_assoc]

/-- If the test never returns bytes after it has missed, the loop does not come to the size. -/
theorem scan_sound (honest : ∀ a h, (test_fn a mem_size h).n ≠ 0 →
    (test_fn a mem_size h).missed = false)
    (ends : Ends (scanPass test_fn (start + mem_size.setWidth 32) mem_size)
      ⟨start, 0, history, missed⟩ r) (full : r.bytes_tested = mem_size) : r.missed = missed := by
  obtain ⟨t, ⟨location, same⟩, left⟩ := ends.leaves
    (I := fun s => s.cur_mem_loc = start + s.bytes_tested.setWidth 32 ∧ s.missed = missed)
    ⟨(BitVec.add_zero start).symm, rfl⟩ fun ⟨location, same⟩ next => by
      obtain ⟨some_, -, cur, bytes, miss⟩ := scanPass_next next
      rw [cur, bytes, miss, location, honest _ _ (location ▸ some_), same, Bool.or_false]
      exact ⟨location_add .., rfl⟩
  rcases scanPass_leave left with ⟨-, rfl⟩ | ⟨below, -, bytes⟩
  · exact same
  · rw [location, ← bytes, full] at below
    exact absurd below (BitVec.lt_irrefl _)

/-! ## Tests of the whole size -/

/-- A test that returns the size, cut to 32 bits, or nothing -/
def Whole (test_fn : Word → Size → History → Tested) (mem_size : Size) : Prop :=
  ∀ a h, (test_fn a mem_size h).n = 0 ∨ (test_fn a mem_size h).n = mem_size.setWidth 32

theorem report_whole (mem_size : Size) (tested : History × Option Word) :
    (report mem_size tested).n = 0 ∨ (report mem_size tested).n = mem_size.setWidth 32 := by
  unfold report
  dsimp only
  split
  · exact Or.inr rfl
  · exact Or.inl rfl

/-- Where the loop of such a test comes to -/
def wholeEnd (test_fn : Word → Size → History → Tested) (start : Word) (mem_size : Size)
    (history : History) (missed : Bool) : Scan :=
  if start < start + mem_size.setWidth 32 then
    let t := test_fn start mem_size history
    ⟨start + t.n, t.n.setWidth 64, t.history, missed || t.missed⟩
  else ⟨start, 0, history, missed⟩

theorem scan_whole (whole : Whole test_fn mem_size) :
    Ends (scanPass test_fn (start + mem_size.setWidth 32) mem_size) ⟨start, 0, history, missed⟩
      (wholeEnd test_fn start mem_size history missed) := by
  unfold wholeEnd
  split
  next below =>
    dsimp only
    rcases whole start history with none_ | all
    · apply ends_leave
      unfold scanPass
      rw [if_pos below]
      dsimp only
      rw [if_pos none_, none_]
      exact congrArg (fun cur => Pass.leave (Scan.mk cur 0 _ _)) (BitVec.add_zero start).symm
    · have some_ : (test_fn start mem_size history).n ≠ 0 := by
        intro zero
        rw [← all, zero, add_zero] at below
        exact BitVec.lt_irrefl _ below
      rw [ends_next (t := ⟨start + (test_fn start mem_size history).n,
        (test_fn start mem_size history).n.setWidth 64, (test_fn start mem_size history).history,
        missed || (test_fn start mem_size history).missed⟩)]
      · apply scan_beyond
        rw [all]
        exact BitVec.lt_irrefl _
      · unfold scanPass
        rw [if_pos below]
        dsimp only
        rw [if_neg some_, zero_add]
  next beyond => exact scan_beyond beyond

/-- It comes to the size only below the end of the address space, with one call that returns it. -/
theorem wholeEnd_full (whole : Whole test_fn mem_size) (some_ : 0 < mem_size.toNat)
    (full : (wholeEnd test_fn start mem_size history missed).bytes_tested = mem_size) :
    start.toNat + mem_size.toNat < 2 ^ 32 ∧ (test_fn start mem_size history).n ≠ 0 ∧
      (wholeEnd test_fn start mem_size history missed).missed =
        (missed || (test_fn start mem_size history).missed) := by
  unfold wholeEnd at full ⊢
  split at full
  next below =>
    dsimp only at full
    have called : (test_fn start mem_size history).n ≠ 0 := by
      intro zero
      rw [zero] at full
      rw [← full] at some_
      exact absurd some_ (by decide)
    have all := (whole start history).resolve_left called
    rw [if_pos below]
    obtain ⟨-, fits⟩ := (start_lt_iff start _).mp below
    rw [all] at full
    have narrow : mem_size.toNat = (mem_size.setWidth 32).toNat := by
      conv => lhs; rw [← full]
      rw [BitVec.toNat_setWidth_of_le (by decide)]
    exact ⟨narrow ▸ fits, called, rfl⟩
  next =>
    dsimp only at full
    rw [← full] at some_
    exact absurd some_ (by decide)

/-- Below the end of the address space a call that returns something returns the size. -/
theorem wholeEnd_of_fits (whole : Whole test_fn mem_size) (some_ : 0 < mem_size.toNat)
    (fits : start.toNat + mem_size.toNat < 2 ^ 32)
    (called : (test_fn start mem_size history).n ≠ 0) (missed : Bool) :
    (wholeEnd test_fn start mem_size history missed).bytes_tested = mem_size ∧
      (wholeEnd test_fn start mem_size history missed).missed =
        (missed || (test_fn start mem_size history).missed) := by
  have narrow : (mem_size.setWidth 32).toNat = mem_size.toNat := by
    rw [low_size, Nat.mod_eq_of_lt (by omega)]
  unfold wholeEnd
  rw [if_pos (lt_of_fits some_ fits)]
  dsimp only
  rw [(whole start history).resolve_left called]
  refine ⟨?_, rfl⟩
  apply BitVec.eq_of_toNat_eq
  rw [BitVec.toNat_setWidth_of_le (by decide), narrow]

/-! ## Data bus tests -/

theorem walkTest_honest {mem : Memory 32} {w : Width} {a : Word}
    (called : (walkTest mem w a mem_size history).n ≠ 0) :
    (walkTest mem w a mem_size history).missed = false := by
  unfold walkTest at called ⊢
  dsimp only at called ⊢
  split at called
  next zero =>
    rw [zero]
    exact decide_eq_false (not_not_intro rfl)
  next => exact absurd rfl called

theorem walkTest_reads {mem : Memory 32} (reads : ReadsBack mem 0) (w : Width) (a : Word) :
    (walkTest mem w a mem_size history).n = BitVec.ofNat 32 w.bytes := by
  unfold walkTest
  dsimp only
  rw [onesWalk_reads reads (Nat.zero_le _), if_pos rfl]

/-- So far the loop of a data bus test has gone through whole words of the memory. -/
structure Walked (start n : Word) (w : Width) (s : Scan) : Prop where
  location : s.cur_mem_loc = start + s.bytes_tested.setWidth 32
  le : s.bytes_tested.toNat ≤ n.toNat
  aligned : w.bytes ∣ s.bytes_tested.toNat

theorem Walked.lt_iff {n : Word} {w : Width} (walked : Walked start n w s)
    (fits : start.toNat + n.toNat < 2 ^ 32) :
    s.cur_mem_loc < start + n ↔ s.bytes_tested.toNat < n.toNat := by
  have le := walked.le
  rw [walked.location, BitVec.lt_def, BitVec.toNat_add, BitVec.toNat_add, BitVec.toNat_setWidth]
  omega

theorem Walked.next {n : Word} {w : Width} {t : Scan} (walked : Walked start n w s)
    (whole : w.bytes ∣ n.toNat) (before : s.bytes_tested.toNat < n.toNat)
    (location : t.cur_mem_loc = s.cur_mem_loc + BitVec.ofNat 32 w.bytes)
    (bytes : t.bytes_tested = s.bytes_tested + (BitVec.ofNat 32 w.bytes).setWidth 64) :
    Walked start n w t ∧
      n.toNat - t.bytes_tested.toNat < n.toNat - s.bytes_tested.toNat := by
  have n_lt := n.isLt
  have pos := w.bytes_pos
  have small := w.bytes_le
  have word : (BitVec.ofNat 32 w.bytes).toNat = w.bytes := by
    rw [BitVec.toNat_ofNat, Nat.mod_eq_of_lt (by omega)]
  have room : w.bytes ≤ n.toNat - s.bytes_tested.toNat :=
    Nat.le_of_dvd (by omega) (Nat.dvd_sub whole walked.aligned)
  have total : t.bytes_tested.toNat = s.bytes_tested.toNat + w.bytes := by
    rw [bytes, BitVec.toNat_add, BitVec.toNat_setWidth_of_le (by decide), word,
      Nat.mod_eq_of_lt (by omega)]
  refine ⟨⟨?_, by omega, ?_⟩, by omega⟩
  · rw [location, bytes, walked.location]
    exact location_add ..
  · rw [total]
    exact Nat.dvd_add walked.aligned (Nat.dvd_refl _)

/-- Without faults the loop of a data bus test comes to the end of the memory, word by word. -/
theorem scan_walk {mem : Memory 32} (reads : ReadsBack mem 0) (w : Width)
    (divides : 8 ∣ mem_size.toNat) (below : start < start + mem_size.setWidth 32) :
    ∃ r, Ends (scanPass (walkTest mem w) (start + mem_size.setWidth 32) mem_size)
      ⟨start, 0, history, missed⟩ r ∧ r.bytes_tested = (mem_size.setWidth 32).setWidth 64 := by
  obtain ⟨some_, fits⟩ := (start_lt_iff start _).mp below
  have eight : w.bytes ∣ 8 := by cases w <;> decide
  have whole : w.bytes ∣ (mem_size.setWidth 32).toNat := by
    rw [low_size]
    exact (Nat.dvd_mod_iff (eight.trans (by decide))).mpr (eight.trans divides)
  generalize mem_size.setWidth 32 = n at *
  have start_walked : Walked start n w ⟨start, 0, history, missed⟩ :=
    ⟨(add_zero start).symm, Nat.zero_le _, Nat.dvd_zero _⟩
  have ended : ∃ r t, Ends (scanPass (walkTest mem w) (start + n) mem_size)
      ⟨start, 0, history, missed⟩ r ∧ Walked start n w t ∧
        scanPass (walkTest mem w) (start + n) mem_size t = .leave r := by
    apply exists_ends_leave (fun s => n.toNat - s.bytes_tested.toNat) start_walked
    intro s t walked next
    obtain ⟨-, before, location, bytes, -⟩ := scanPass_next next
    rw [walkTest_reads reads] at location bytes
    exact walked.next whole ((walked.lt_iff fits).mp before) location bytes
  obtain ⟨r, t, ends, walked, left⟩ := ended
  refine ⟨r, ends, ?_⟩
  rcases scanPass_leave left with ⟨beyond, rfl⟩ | ⟨-, none_, -⟩
  · have le := walked.le
    rw [walked.lt_iff fits] at beyond
    apply BitVec.eq_of_toNat_eq
    rw [BitVec.toNat_setWidth_of_le (by decide)]
    omega
  · rw [walkTest_reads reads] at none_
    exact absurd none_ (by cases w <;> decide)

end Loop

/-! ## The `for` loop -/

section Tests

variable {mem : Memory 32} {start last : Word} {mem_size : Size} {is : List Nat} {r s t : Scan}

/-- The tests with the numbers `is` come to an end, from `s` to `t`. -/
def Runs (mem : Memory 32) (start last : Word) (mem_size : Size) (is : List Nat) (s t : Scan) :
    Prop :=
  ∃ fuel, runTests fuel mem start last mem_size is s = some t

theorem runTests_mono {fuel fuel' : Nat} (more : fuel ≤ fuel')
    (done : runTests fuel mem start last mem_size is s = some t) :
    runTests fuel' mem start last mem_size is s = some t := by
  induction is generalizing s with
  | nil => exact done
  | cons i rest ih =>
    unfold runTests at done ⊢
    split at done
    next =>
      obtain ⟨u, one, others⟩ := Option.bind_eq_some_iff.mp done
      exact Option.bind_eq_some_iff.mpr ⟨u, run_mono more one, ih others⟩
    next => exact ih done

theorem Runs.unique (one : Runs mem start last mem_size is s t)
    (other : Runs mem start last mem_size is s r) : t = r := by
  obtain ⟨fuel, done⟩ := one
  obtain ⟨fuel', done'⟩ := other
  have first := runTests_mono (Nat.le_max_left fuel fuel') done
  exact Option.some.inj (first.symm.trans (runTests_mono (Nat.le_max_right fuel fuel') done'))

theorem runs_cons {i : Nat} {test_fn : Word → Size → History → Tested}
    (number : (tests mem)[i]? = some (some test_fn)) :
    Runs mem start last mem_size (i :: is) s t ↔
      ∃ u, Ends (scanPass test_fn last mem_size)
        { s with cur_mem_loc := start, bytes_tested := 0 } u ∧
        Runs mem start last mem_size is u t := by
  have first (fuel : Nat) : runTests fuel mem start last mem_size (i :: is) s =
      (Loops.run (scanPass test_fn last mem_size) fuel
        { s with cur_mem_loc := start, bytes_tested := 0 }).bind
          (runTests fuel mem start last mem_size is) := by
    conv => lhs; unfold runTests
    rw [number]
  unfold Runs
  simp only [first, Option.bind_eq_some_iff]
  constructor
  · intro ⟨fuel, u, one, others⟩
    exact ⟨u, ⟨fuel, one⟩, fuel, others⟩
  · intro ⟨u, ⟨fuel, one⟩, fuel', others⟩
    exact ⟨max fuel fuel', u, run_mono (Nat.le_max_left fuel fuel') one,
      runTests_mono (Nat.le_max_right fuel fuel') others⟩

theorem runs_nil : Runs mem start last mem_size [] s t ↔ s = t := by
  constructor
  · intro ⟨_, done⟩
    exact Option.some.inj done
  · rintro rfl
    exact ⟨0, rfl⟩

theorem runs_single {i : Nat} {test_fn : Word → Size → History → Tested}
    (number : (tests mem)[i]? = some (some test_fn)) :
    Runs mem start last mem_size [i] s t ↔
      Ends (scanPass test_fn last mem_size)
        { s with cur_mem_loc := start, bytes_tested := 0 } t := by
  rw [runs_cons number]
  simp only [runs_nil, exists_eq_right]

theorem runTests_append (fuel : Nat) (js : List Nat) :
    runTests fuel mem start last mem_size (is ++ js) s =
      (runTests fuel mem start last mem_size is s).bind
        (runTests fuel mem start last mem_size js) := by
  induction is generalizing s with
  | nil => rfl
  | cons i rest ih =>
    rw [List.cons_append, runTests, runTests]
    split
    · rw [Option.bind_assoc]
      exact congrArg _ (funext fun _ => ih)
    · exact ih

theorem runs_append {js : List Nat} : Runs mem start last mem_size (is ++ js) s t ↔
    ∃ u, Runs mem start last mem_size is s u ∧ Runs mem start last mem_size js u t := by
  unfold Runs
  simp only [runTests_append, Option.bind_eq_some_iff]
  constructor
  · intro ⟨fuel, u, one, others⟩
    exact ⟨u, ⟨fuel, one⟩, fuel, others⟩
  · intro ⟨u, ⟨fuel, one⟩, fuel', others⟩
    exact ⟨max fuel fuel', u, runTests_mono (Nat.le_max_left fuel fuel') one,
      runTests_mono (Nat.le_max_right fuel fuel') others⟩

theorem runs_beyond (beyond : ¬start < last) (run : Runs mem start last mem_size is s t) :
    t.missed = s.missed := by
  obtain ⟨fuel, done⟩ := run
  induction is generalizing s with
  | nil => rw [Option.some.inj done]
  | cons i rest ih =>
    unfold runTests at done
    split at done
    next =>
      obtain ⟨u, one, others⟩ := Option.bind_eq_some_iff.mp done
      rw [ih others, (show Ends _ _ u from ⟨fuel, one⟩).unique (scan_beyond beyond)]
    next => exact ih done

/-! ## The table -/

theorem tests_walk (w : Width) :
    (tests mem)[(memtest_e_1s_walk w).toNat]? = some (some (walkTest mem w)) := by
  cases w <;> rfl

/-- The pattern of the address tests and its complement -/
def pattern : (w : Width) → BitVec w.bits × BitVec w.bits
  | .byte => (0xAA, 0x55)
  | .half => (0xAAAA, 0x5555)
  | .word => (0xAAAAAAAA, 0x55555555)
  | .double => (0xAAAAAAAAAAAAAAAA, 0x5555555555555555)

theorem tests_addr (w : Width) : (tests mem)[(memtest_e_addr_test w).toNat]? =
    some (some (addrTest mem w (pattern w).1 (pattern w).2)) := by
  cases w <;> rfl

theorem tests_dev (w : Width) :
    (tests mem)[(memtest_e_dev_test w).toNat]? = some (some (devTest mem w)) := by
  cases w <;> rfl

theorem tests_last : (tests mem)[12]? = some (some (devTest mem .double)) := rfl

/-- The numbers of the tests that are run -/
def selected (test_num : Word) : List Nat :=
  if test_num = memtest_e_ALL then List.range' 1 12
  else if 1 ≤ test_num.toNat ∧ test_num.toNat ≤ 12 then [test_num.toNat] else []

theorem tests_length (mem : Memory 32) : (tests mem).length = 13 := rfl

theorem memTest_eq (fuel : Nat) (test_num : Word) :
    memTest fuel mem start mem_size test_num =
      runTests fuel mem start (start + mem_size.setWidth 32) mem_size (selected test_num)
        ⟨start, 0, [], false⟩ := by
  by_cases all : test_num = memtest_e_ALL
  · unfold memTest selected
    dsimp only
    rw [if_pos all, if_pos all, if_pos all, tests_length, if_neg (by decide)]
    have numbers : List.range' memtest_e_first.toNat
        ((BitVec.ofNat 32 13 - 1).toNat + 1 - memtest_e_first.toNat) = List.range' 1 12 := by
      decide
    rw [numbers]
  · unfold memTest selected
    dsimp only
    rw [if_neg all, if_neg all, if_neg all]
    by_cases one : 1 ≤ test_num.toNat ∧ test_num.toNat ≤ 12
    · rw [if_pos one, if_neg, Nat.add_sub_cancel_left]
      · rfl
      · intro bogus
        rcases bogus with low | high
        · exact absurd (BitVec.lt_def.mp low) (Nat.not_lt.mpr one.1)
        · exact absurd (BitVec.le_def.mp high) (Nat.not_le.mpr (Nat.lt_succ_of_le one.2))
    · rw [if_neg one, if_pos]
      · rfl
      · rw [BitVec.lt_def]
        show _ ∨ 13 ≤ test_num.toNat
        change test_num.toNat < 1 ∨ _
        omega

theorem sound_iff {test_num : Word} : Sound mem start mem_size test_num ↔
    ∀ s, Runs mem start (start + mem_size.setWidth 32) mem_size (selected test_num)
      ⟨start, 0, [], false⟩ s → s.bytes_tested = mem_size → s.missed = false := by
  unfold Sound Runs
  simp only [memTest_eq]
  constructor
  · intro sound s ⟨fuel, done⟩
    exact sound fuel s done
  · intro sound fuel s done
    exact sound s ⟨fuel, done⟩

theorem completes_iff {test_num : Word} : Completes mem start mem_size test_num ↔
    ∃ s, Runs mem start (start + mem_size.setWidth 32) mem_size (selected test_num)
      ⟨start, 0, [], false⟩ s ∧ s.bytes_tested = mem_size := by
  unfold Completes Runs
  simp only [memTest_eq]
  constructor
  · intro ⟨fuel, s, done, full⟩
    exact ⟨s, ⟨fuel, done⟩, full⟩
  · intro ⟨s, ⟨fuel, done⟩, full⟩
    exact ⟨fuel, s, done, full⟩

theorem number_cases : ∀ k < 13, 1 ≤ k → ∃ w ∈ [Width.byte, .half, .word, .double],
    BitVec.ofNat 32 k = memtest_e_1s_walk w ∨ BitVec.ofNat 32 k = memtest_e_addr_test w ∨
      BitVec.ofNat 32 k = memtest_e_dev_test w := by
  decide

theorem selected_cases (test_num : Word) :
    (test_num = memtest_e_ALL ∧ selected test_num = List.range' 1 11 ++ [12]) ∨
      (selected test_num = [test_num.toNat] ∧ ∃ w, test_num = memtest_e_1s_walk w ∨
        test_num = memtest_e_addr_test w ∨ test_num = memtest_e_dev_test w) ∨
      (¬Selects test_num ∧ selected test_num = []) := by
  by_cases all : test_num = memtest_e_ALL
  · rw [all]
    exact Or.inl ⟨rfl, rfl⟩
  · right
    unfold Selects selected
    rw [if_neg all]
    by_cases one : 1 ≤ test_num.toNat ∧ test_num.toNat ≤ 12
    · obtain ⟨w, -, number⟩ := number_cases test_num.toNat (Nat.lt_succ_of_le one.2) one.1
      rw [BitVec.ofNat_toNat, BitVec.setWidth_eq] at number
      rw [if_pos one]
      exact Or.inl ⟨rfl, w, number⟩
    · rw [if_neg one]
      exact Or.inr ⟨not_or.mpr ⟨all, one⟩, rfl⟩

/-! ## Where the result can be relied on -/

theorem addrTest_whole (w : Width) (p comp : BitVec w.bits) :
    Whole (addrTest mem w p comp) mem_size :=
  fun _ _ => report_whole ..

theorem devTest_whole (w : Width) : Whole (devTest mem w) mem_size :=
  fun _ _ => report_whole ..

/-- A whole test that misses and returns the size takes a fault at address zero for none. -/
theorem report_hidden {tested : History × Option Word} (called : (report mem_size tested).n ≠ 0)
    (missed : (report mem_size tested).missed = true) : tested.2 = some 0 := by
  obtain ⟨history, fault⟩ := tested
  cases fault with
  | none => cases missed
  | some r =>
    unfold report at called
    dsimp only [Option.getD_some] at called
    split at called
    next zero => rw [zero]
    next => exact absurd rfl called

theorem cell_zero {start : Word} {w : Width} {i : Nat} (zero : 0 = cell start w i) :
    (start.toNat + i * w.bytes) % 2 ^ 32 = 0 := by
  have value := congrArg BitVec.toNat zero
  unfold cell at value
  rw [BitVec.toNat_add, BitVec.toNat_ofNat, Nat.add_mod_mod] at value
  exact value.symm

theorem mask_toNat (w : Width) (fits : mem_size.toNat < 2 ^ 32)
    (enough : w.bytes ≤ mem_size.toNat) :
    ((mem_size / BitVec.ofNat 64 w.bytes - 1).setWidth 32).toNat =
      mem_size.toNat / w.bytes - 1 := by
  have small := w.bytes_le
  have le : mem_size.toNat / w.bytes ≤ mem_size.toNat := Nat.div_le_self ..
  have some_ : 0 < mem_size.toNat / w.bytes := Nat.div_pos enough w.bytes_pos
  have word : (BitVec.ofNat 64 w.bytes).toNat = w.bytes := by
    rw [BitVec.toNat_ofNat, Nat.mod_eq_of_lt (by omega)]
  have one : (1 : Size).toNat = 1 := rfl
  rw [BitVec.toNat_setWidth, BitVec.toNat_sub_of_le, BitVec.toNat_udiv, word, one,
    Nat.mod_eq_of_lt (by omega)]
  rw [BitVec.le_def, BitVec.toNat_udiv, word, one]
  omega

theorem num_toNat (w : Width) (fits : mem_size.toNat < 2 ^ 32) :
    ((mem_size / BitVec.ofNat 64 w.bytes).setWidth 32).toNat = mem_size.toNat / w.bytes := by
  have small := w.bytes_le
  have le : mem_size.toNat / w.bytes ≤ mem_size.toNat := Nat.div_le_self ..
  have word : (BitVec.ofNat 64 w.bytes).toNat = w.bytes := by
    rw [BitVec.toNat_ofNat, Nat.mod_eq_of_lt (by omega)]
  rw [BitVec.toNat_setWidth, BitVec.toNat_udiv, word, Nat.mod_eq_of_lt (by omega)]

theorem addrTest_hidden {w : Width} {p comp : BitVec w.bits} {history : History}
    (fits : start.toNat + mem_size.toNat < 2 ^ 32)
    (called : (addrTest mem w p comp start mem_size history).n ≠ 0)
    (missed : (addrTest mem w p comp start mem_size history).missed = true) :
    mem_size.toNat < w.bytes ∧ ∃ k < 32, (start.toNat + 2 ^ k * w.bytes) % 2 ^ 32 = 0 := by
  obtain ⟨offset, at_, zero⟩ := ADDR_TEST_fault (report_hidden called missed)
  obtain ⟨k, low, rfl, le⟩ := mem_offsets at_
  rw [slot_ofNat] at zero
  have wraps := cell_zero zero
  refine ⟨?_, k, low, wraps⟩
  by_contra enough
  rw [Nat.not_lt] at enough
  rw [mask_toNat w (by omega) enough] at le
  have some_ : 0 < 2 ^ k := Nat.two_pow_pos k
  have inside : (2 ^ k + 1) * w.bytes ≤ mem_size.toNat :=
    (Nat.mul_le_mul_right _ (by omega)).trans (Nat.div_mul_le_self mem_size.toNat w.bytes)
  have pos : 0 < 2 ^ k * w.bytes := Nat.mul_pos some_ w.bytes_pos
  rw [Nat.succ_mul] at inside
  rw [Nat.mod_eq_of_lt (by omega)] at wraps
  omega

theorem devTest_hidden {w : Width} {history : History}
    (fits : start.toNat + mem_size.toNat < 2 ^ 32)
    (called : (devTest mem w start mem_size history).n ≠ 0)
    (missed : (devTest mem w start mem_size history).missed = true) :
    start = 0 ∧ w.bytes ≤ mem_size.toNat := by
  obtain ⟨i, i_lt, zero⟩ := DEVICE_TEST_fault (report_hidden called missed)
  have wraps := cell_zero zero
  rw [num_toNat w (by omega)] at i_lt
  have inside : (i + 1) * w.bytes ≤ mem_size.toNat :=
    (Nat.mul_le_mul_right _ (by omega)).trans (Nat.div_mul_le_self mem_size.toNat w.bytes)
  have pos := w.bytes_pos
  rw [Nat.succ_mul] at inside
  rw [Nat.mod_eq_of_lt (by omega)] at wraps
  have zero' : start.toNat = 0 := by omega
  exact ⟨BitVec.eq_of_toNat_eq zero', by omega⟩

theorem whole_hidden {test_fn : Word → Size → History → Tested} (whole : Whole test_fn mem_size)
    (ends : Ends (scanPass test_fn (start + mem_size.setWidth 32) mem_size) ⟨start, 0, [], false⟩ r)
    (full : r.bytes_tested = mem_size) (missed : r.missed = true) :
    0 < mem_size.toNat ∧ start.toNat + mem_size.toNat < 2 ^ 32 ∧
      (test_fn start mem_size []).n ≠ 0 ∧ (test_fn start mem_size []).missed = true := by
  have end_ := ends.unique (scan_whole whole)
  rw [end_] at full missed
  rcases Nat.eq_zero_or_pos mem_size.toNat with none_ | some_
  · unfold wholeEnd at missed
    rw [if_neg (not_lt_of_zero none_)] at missed
    cases missed
  · obtain ⟨fits, called, same⟩ := wholeEnd_full whole some_ full
    rw [same, Bool.false_or] at missed
    exact ⟨some_, fits, called, missed⟩

theorem sound_of_not_hides {test_num : Word} (shows : ¬Hides start mem_size test_num) :
    Sound mem start mem_size test_num := by
  rw [sound_iff]
  intro s runs full
  by_contra missed
  rw [Bool.not_eq_false] at missed
  apply shows
  rcases selected_cases test_num with ⟨all, numbers⟩ | ⟨numbers, w, kind⟩ | ⟨-, numbers⟩
  · rw [numbers] at runs
    obtain ⟨u, before, last_⟩ := runs_append.mp runs
    have end_ := ((runs_single tests_last).mp last_).unique (scan_whole (devTest_whole .double))
    rcases Nat.eq_zero_or_pos mem_size.toNat with none_ | some_
    · have nothing := @not_lt_of_zero start _ none_
      rw [runs_beyond nothing last_, runs_beyond nothing before] at missed
      cases missed
    · rw [end_] at full
      exact ⟨(wholeEnd_full (devTest_whole .double) some_ full).1, Or.inl ⟨all, some_⟩⟩
  · rw [numbers] at runs
    rcases kind with rfl | rfl | rfl
    · have ends := (runs_single (tests_walk w)).mp runs
      have same := scan_sound (fun _ _ => walkTest_honest) ends full
      exact absurd missed (Bool.eq_false_iff.mp same)
    · have ends := (runs_single (tests_addr w)).mp runs
      obtain ⟨some_, fits, called, missed⟩ := whole_hidden (addrTest_whole w _ _) ends full missed
      obtain ⟨small, wraps⟩ := addrTest_hidden fits called missed
      exact ⟨fits, Or.inr (Or.inl ⟨w, rfl, some_, small, wraps⟩)⟩
    · have ends := (runs_single (tests_dev w)).mp runs
      obtain ⟨some_, fits, called, missed⟩ := whole_hidden (devTest_whole w) ends full missed
      obtain ⟨zero, enough⟩ := devTest_hidden fits called missed
      exact ⟨fits, Or.inr (Or.inr ⟨w, rfl, zero, enough⟩)⟩
  · rw [numbers, runs_nil] at runs
    rw [← runs] at missed
    cases missed

/-! ## Memories without faults -/

/-- The loop of a test ends, with the size below the end of the address space and only there. -/
def Answers (test_fn : Word → Size → History → Tested) (start : Word) (mem_size : Size) : Prop :=
  ∀ history missed, ∃ r, Ends (scanPass test_fn (start + mem_size.setWidth 32) mem_size)
    ⟨start, 0, history, missed⟩ r ∧
      (r.bytes_tested = mem_size ↔ start.toNat + mem_size.toNat < 2 ^ 32)

theorem answers_whole {test_fn : Word → Size → History → Tested} (whole : Whole test_fn mem_size)
    (some_ : 0 < mem_size.toNat) (called : start.toNat + mem_size.toNat < 2 ^ 32 →
      ∀ history, (test_fn start mem_size history).n ≠ 0) : Answers test_fn start mem_size := by
  intro history missed
  refine ⟨_, scan_whole whole, ?_⟩
  constructor
  · intro full
    exact (wholeEnd_full whole some_ full).1
  · intro fits
    exact (wholeEnd_of_fits whole some_ fits (called fits history) missed).1

theorem report_reads {tested : History × Option Word} (good : tested.2 = none) :
    (report mem_size tested).n = mem_size.setWidth 32 := by
  unfold report
  rw [good]
  rfl

theorem low_ne_zero (some_ : 0 < mem_size.toNat) (fits : start.toNat + mem_size.toNat < 2 ^ 32) :
    mem_size.setWidth 32 ≠ 0 := by
  intro zero
  have value := congrArg BitVec.toNat zero
  rw [low_size, Nat.mod_eq_of_lt (by omega)] at value
  exact some_.ne' value

theorem addrTest_reads (reads : ReadsBack mem 0) {w : Width} (p comp : BitVec w.bits)
    (history : History) (fits : mem_size.toNat < 2 ^ 32) (enough : w.bytes ≤ mem_size.toNat) :
    (addrTest mem w p comp start mem_size history).n = mem_size.setWidth 32 := by
  have count : 0 < mem_size.toNat / w.bytes := Nat.div_pos enough w.bytes_pos
  have inside := mask_toNat w fits enough
  apply report_reads
  apply ADDR_TEST_reads reads (Nat.zero_le _) ((Nat.div_mul_le_self ..).trans fits.le) count
  omega

theorem devTest_reads {since : Nat} (reads : ReadsBack mem since) (w : Width) {history : History}
    (late : since ≤ history.length) (fits : mem_size.toNat < 2 ^ 32) :
    (devTest mem w start mem_size history).n = mem_size.setWidth 32 := by
  apply report_reads
  apply DEVICE_TEST_reads reads late
  rw [num_toNat w fits]
  exact (Nat.div_mul_le_self ..).trans fits.le

theorem answers_walk (reads : ReadsBack mem 0) (w : Width) (some_ : 0 < mem_size.toNat)
    (divides : 8 ∣ mem_size.toNat) : Answers (walkTest mem w) start mem_size := by
  intro history missed
  by_cases below : start < start + mem_size.setWidth 32
  · have walked : ∃ r, Ends (scanPass (walkTest mem w) (start + mem_size.setWidth 32) mem_size)
        ⟨start, 0, history, missed⟩ r ∧ r.bytes_tested = (mem_size.setWidth 32).setWidth 64 :=
      scan_walk reads w divides below
    obtain ⟨r, ends, bytes⟩ := walked
    refine ⟨r, ends, ?_⟩
    obtain ⟨-, low⟩ := (start_lt_iff start _).mp below
    rw [low_size] at low
    rw [bytes, ← BitVec.toNat_inj, BitVec.toNat_setWidth_of_le (by decide), low_size]
    have word := mem_size.isLt
    omega
  · refine ⟨_, scan_beyond below, ?_⟩
    rw [start_lt_iff, low_size] at below
    rw [← BitVec.toNat_inj]
    change 0 = mem_size.toNat ↔ _
    omega

theorem answers (reads : ReadsBack mem 0) (some_ : 0 < mem_size.toNat)
    (divides : 8 ∣ mem_size.toNat) {k : Nat} (low : 1 ≤ k) (high : k < 13) :
    ∃ test_fn, (tests mem)[k]? = some (some test_fn) ∧ Answers test_fn start mem_size := by
  obtain ⟨w, -, number⟩ := number_cases k high low
  have small : w.bytes ≤ mem_size.toNat := w.bytes_le.trans (Nat.le_of_dvd some_ divides)
  have value : k = (BitVec.ofNat 32 k).toNat := by
    rw [BitVec.toNat_ofNat, Nat.mod_eq_of_lt (by omega)]
  rw [value]
  rcases number with kind | kind | kind
  · rw [kind]
    exact ⟨_, tests_walk w, answers_walk reads w some_ divides⟩
  · rw [kind]
    refine ⟨_, tests_addr w, answers_whole (addrTest_whole w _ _) some_ ?_⟩
    intro fits history
    rw [addrTest_reads reads _ _ history (by omega) small]
    exact low_ne_zero some_ fits
  · rw [kind]
    refine ⟨_, tests_dev w, answers_whole (devTest_whole w) some_ ?_⟩
    intro fits history
    rw [devTest_reads reads w (Nat.zero_le _) (by omega)]
    exact low_ne_zero some_ fits

theorem runs_answers (all : ∀ i ∈ is, ∃ test_fn, (tests mem)[i]? = some (some test_fn) ∧
    Answers test_fn start mem_size)
    (settled : is = [] → (s.bytes_tested = mem_size ↔ start.toNat + mem_size.toNat < 2 ^ 32)) :
    ∃ t, Runs mem start (start + mem_size.setWidth 32) mem_size is s t ∧
      (t.bytes_tested = mem_size ↔ start.toNat + mem_size.toNat < 2 ^ 32) := by
  induction is generalizing s with
  | nil => exact ⟨s, runs_nil.mpr rfl, settled rfl⟩
  | cons i rest ih =>
    obtain ⟨test_fn, number, answers⟩ := all i List.mem_cons_self
    obtain ⟨u, ends, full⟩ := answers s.history s.missed
    obtain ⟨t, runs, result⟩ := ih (fun i at_ => all i (List.mem_cons_of_mem _ at_)) fun _ => full
    exact ⟨t, (runs_cons number).mpr ⟨u, ends, runs⟩, result⟩

theorem completes_of_reads (reads : ReadsBack mem 0) (some_ : 0 < mem_size.toNat)
    (divides : 8 ∣ mem_size.toNat) {test_num : Word} (selects : Selects test_num) :
    Completes mem start mem_size test_num ↔ start.toNat + mem_size.toNat < 2 ^ 32 := by
  have numbers : selected test_num ≠ [] ∧ ∀ k ∈ selected test_num, 1 ≤ k ∧ k < 13 := by
    unfold selected
    rcases selects with rfl | one
    · decide
    · split
      · decide
      · refine ⟨List.cons_ne_nil _ _, ?_⟩
        intro k at_
        rw [List.mem_singleton.mp at_]
        omega
  have all (k : Nat) (at_ : k ∈ selected test_num) : ∃ test_fn,
      (tests mem)[k]? = some (some test_fn) ∧ Answers test_fn start mem_size :=
    answers reads some_ divides (numbers.2 k at_).1 (numbers.2 k at_).2
  obtain ⟨t, runs, result⟩ := runs_answers (s := ⟨start, 0, [], false⟩) all
    fun none_ => absurd none_ numbers.1
  rw [completes_iff, ← result]
  constructor
  · intro ⟨s, runs', full⟩
    rw [runs.unique runs']
    exact full
  · intro full
    exact ⟨t, runs, full⟩

/-! ## Faults that are hidden -/

theorem not_sound_whole {test_fn : Word → Size → History → Tested} {test_num : Word} {i : Nat}
    (numbers : selected test_num = [i]) (number : (tests mem)[i]? = some (some test_fn))
    (whole : Whole test_fn mem_size) (some_ : 0 < mem_size.toNat)
    (fits : start.toNat + mem_size.toNat < 2 ^ 32) (called : (test_fn start mem_size []).n ≠ 0)
    (missed : (test_fn start mem_size []).missed = true) : ¬Sound mem start mem_size test_num := by
  intro sound
  obtain ⟨full, same⟩ := wholeEnd_of_fits whole some_ fits called false
  have runs : Runs mem start (start + mem_size.setWidth 32) mem_size [i] ⟨start, 0, [], false⟩
      (wholeEnd test_fn start mem_size [] false) := (runs_single number).mpr (scan_whole whole)
  rw [sound_iff, numbers] at sound
  have hidden := sound _ runs full
  rw [same, missed] at hidden
  cases hidden

theorem report_zero (mem_size : Size) {tested : History × Option Word} (fault : tested.2 = some 0) :
    (report mem_size tested).n = mem_size.setWidth 32 ∧ (report mem_size tested).missed = true := by
  unfold report
  rw [fault]
  exact ⟨rfl, rfl⟩

theorem one_ne_zero (w : Width) : (0 : BitVec w.bits) ≠ 1 := by
  cases w <;> decide

theorem dev_hides (w : Width) (enough : w.bytes ≤ mem_size.toNat) (fits : mem_size.toNat < 2 ^ 32) :
    ¬Sound (fun _ _ _ => 0) 0 mem_size (memtest_e_dev_test w) := by
  have count : 0 < mem_size.toNat / w.bytes := Nat.div_pos enough w.bytes_pos
  have some_ : 0 < mem_size.toNat := Nat.lt_of_lt_of_le w.bytes_pos enough
  have fits' : (0 : Word).toNat + mem_size.toNat < 2 ^ 32 := (Nat.zero_add _).symm ▸ fits
  have first : (DEVICE_TEST (fun _ _ _ => 0) w 0
      ((mem_size / BitVec.ofNat 64 w.bytes).setWidth 32) []).2 = some 0 := by
    unfold DEVICE_TEST
    obtain ⟨left, more⟩ := Nat.exists_eq_succ_of_ne_zero count.ne'
    rw [num_toNat w fits, more]
    unfold invert
    rw [if_pos (one_ne_zero w)]
    exact congrArg some (by cases w <;> rfl)
  obtain ⟨all, missed⟩ := report_zero mem_size first
  apply not_sound_whole (by cases w <;> rfl) (tests_dev w) (devTest_whole w) some_ fits' _ missed
  exact all.symm ▸ low_ne_zero some_ fits'

theorem offsets_all : offsets (-1) = (List.range 32).map (1#32 <<< ·) := by
  decide

/-- With a size below its width an address test goes through all powers, and takes a fault at
address zero for none. -/
theorem addr_hides (w : Width) (some_ : 0 < mem_size.toNat) (small : mem_size.toNat < w.bytes)
    (fits : start.toNat + mem_size.toNat < 2 ^ 32) {k : Nat} (low : k < 32)
    (wraps : (start.toNat + 2 ^ k * w.bytes) % 2 ^ 32 = 0) :
    ¬Sound (fun _ a w => if a = 0 then 0 else (pattern w).1) start mem_size
      (memtest_e_addr_test w) := by
  have width := w.bytes_le
  have none_ : mem_size / BitVec.ofNat 64 w.bytes = 0 := by
    apply BitVec.eq_of_toNat_eq
    rw [BitVec.toNat_udiv, BitVec.toNat_ofNat, Nat.mod_eq_of_lt (by omega), Nat.div_eq_of_lt small]
    rfl
  have mask : (mem_size / BitVec.ofNat 64 w.bytes - 1).setWidth 32 = (-1 : Word) := by
    rw [none_]
    decide
  have power : 1#32 <<< k = BitVec.ofNat 32 (2 ^ k) := by
    rw [← one_shift low, BitVec.ofNat_toNat, BitVec.setWidth_eq]
  have zero : slot w start (1#32 <<< k) = 0 := by
    rw [power, slot_ofNat]
    apply BitVec.eq_of_toNat_eq
    unfold cell
    rw [BitVec.toNat_add, BitVec.toNat_ofNat, Nat.add_mod_mod, wraps]
    rfl
  have nonzero : (0 : BitVec w.bits) ≠ (pattern w).1 := by cases w <;> decide
  have first : (ADDR_TEST (fun _ a w => if a = 0 then 0 else (pattern w).1) w start
      ((mem_size / BitVec.ofNat 64 w.bytes - 1).setWidth 32) (pattern w).1 (pattern w).2 []).2 =
        some 0 := by
    rw [mask]
    unfold ADDR_TEST
    dsimp only
    rw [offsets_all]
    split
    next offset found =>
      have wrong := List.find?_some found
      have here : slot w start offset = 0 := by
        by_contra elsewhere
        exact absurd (if_neg elsewhere) (of_decide_eq_true wrong)
      exact congrArg some here
    next found =>
      have reached : 1#32 <<< k ∈ (List.range 32).map (1#32 <<< ·) :=
        List.mem_map_of_mem (List.mem_range.mpr low)
      apply absurd _ (List.find?_eq_none.mp found _ reached)
      apply decide_eq_true
      rw [zero, if_pos rfl]
      exact nonzero
  obtain ⟨all, missed⟩ := report_zero mem_size first
  apply not_sound_whole (by cases w <;> rfl) (tests_addr w) (addrTest_whole w _ _) some_ fits _
    missed
  exact all.symm ▸ low_ne_zero some_ fits

/-- A memory that reads as zero until four writes are made, and then has no faults -/
def lateRam : Memory 32 := fun history a w => if history.length ≤ 4 then 0 else ram history a w

theorem lateRam_reads : ReadsBack lateRam 5 where
  same w a v late := by
    unfold lateRam
    rw [if_neg (by rw [List.length_cons]; omega)]
    exact (ram_readsBack (by decide)).same w a v (Nat.zero_le _)
  apart late separate := by
    unfold lateRam
    rw [if_neg (by rw [List.length_cons]; omega), if_neg (by omega)]
    exact (ram_readsBack (by decide)).apart (Nat.zero_le _) separate

theorem scan_walk_late (w : Width) {history : History} {missed : Bool} (early : history.length ≤ 3)
    (below : start < last) : Ends (scanPass (walkTest lateRam w) last mem_size)
      ⟨start, 0, history, missed⟩ ⟨start, 0, ⟨w, start, 1⟩ :: history, true⟩ := by
  have first : ∃ vs, walkValues w = 1 :: vs := by cases w <;> exact ⟨_, rfl⟩
  obtain ⟨vs, values⟩ := first
  have read : lateRam (⟨w, start, 1⟩ :: history) start w = 0 := if_pos (Nat.succ_le_succ early)
  have fails : onesWalk lateRam w start (walkValues w) history = (⟨w, start, 1⟩ :: history, 1) := by
    rw [values]
    unfold onesWalk
    dsimp only
    rw [read, if_pos (one_ne_zero w)]
  apply ends_leave
  unfold scanPass walkTest
  rw [if_pos below]
  dsimp only
  rw [fails]
  dsimp only
  rw [if_neg (one_ne_zero w).symm, if_pos rfl, decide_eq_true (one_ne_zero w).symm, Bool.or_true]

theorem runs_whole (all : ∀ i ∈ is, ∃ test_fn, (tests mem)[i]? = some (some test_fn) ∧
    Whole test_fn mem_size ∧ ∀ a h, h.length ≤ (test_fn a mem_size h).history.length)
    (missed : s.missed = true) :
    ∃ t, Runs mem start (start + mem_size.setWidth 32) mem_size is s t ∧
      s.history.length ≤ t.history.length ∧ t.missed = true := by
  induction is generalizing s with
  | nil => exact ⟨s, runs_nil.mpr rfl, Nat.le_refl _, missed⟩
  | cons i rest ih =>
    obtain ⟨test_fn, number, whole, longer⟩ := all i List.mem_cons_self
    have one : s.history.length ≤
        (wholeEnd test_fn start mem_size s.history s.missed).history.length ∧
          (wholeEnd test_fn start mem_size s.history s.missed).missed = true := by
      unfold wholeEnd
      rw [missed]
      split
      · exact ⟨longer _ _, rfl⟩
      · exact ⟨Nat.le_refl _, rfl⟩
    obtain ⟨t, runs, more, missed'⟩ := ih (fun i at_ => all i (List.mem_cons_of_mem _ at_)) one.2
    exact ⟨t, (runs_cons number).mpr ⟨_, scan_whole whole, runs⟩, one.1.trans more, missed'⟩

theorem addrTest_length {w : Width} {p comp : BitVec w.bits} {a : Word} (history : History) :
    history.length < (addrTest mem w p comp a mem_size history).history.length :=
  ADDR_TEST_length

theorem devTest_length {w : Width} {a : Word} (history : History) :
    history.length ≤ (devTest mem w a mem_size history).history.length :=
  DEVICE_TEST_length

theorem walks_late (below : start < last) (ws : List Width)
    (early : s.history.length + ws.length ≤ 4) (missed : ws = [] → s.missed = true) :
    ∃ u, Runs lateRam start last mem_size (ws.map fun w => (memtest_e_1s_walk w).toNat) s u ∧
      u.history.length = s.history.length + ws.length ∧ u.missed = true := by
  induction ws generalizing s with
  | nil => exact ⟨s, runs_nil.mpr rfl, rfl, missed rfl⟩
  | cons w ws ih =>
    rw [List.length_cons] at early
    obtain ⟨u, runs, more, missed'⟩ := ih (s := ⟨start, 0, ⟨w, start, 1⟩ :: s.history, true⟩)
      (by rw [List.length_cons]; omega) fun _ => rfl
    refine ⟨u, ?_, ?_, missed'⟩
    · rw [List.map_cons, runs_cons (tests_walk w)]
      exact ⟨_, scan_walk_late w (by omega) below, runs⟩
    · rw [more, List.length_cons, List.length_cons]
      omega

theorem tests_whole {i : Nat} (low : 5 ≤ i) (high : i < 13) : ∃ test_fn,
    (tests mem)[i]? = some (some test_fn) ∧ Whole test_fn mem_size ∧
      ∀ a h, h.length ≤ (test_fn a mem_size h).history.length := by
  obtain ⟨w, -, number⟩ := number_cases i high (by omega)
  have value : (BitVec.ofNat 32 i).toNat = i := by
    rw [BitVec.toNat_ofNat, Nat.mod_eq_of_lt (by omega)]
  rcases number with kind | kind | kind
  · have few : (memtest_e_1s_walk w).toNat ≤ 4 := by cases w <;> decide
    rw [kind] at value
    omega
  · rw [← value, kind]
    exact ⟨_, tests_addr w, addrTest_whole w _ _, fun _ h => (addrTest_length h).le⟩
  · rw [← value, kind]
    exact ⟨_, tests_dev w, devTest_whole w, fun _ h => devTest_length h⟩

theorem scan_addr_longer (mem : Memory 32) {w : Width} (p comp : BitVec w.bits) (history : History)
    (below : start < start + mem_size.setWidth 32) :
    ∃ b, Ends (scanPass (addrTest mem w p comp) (start + mem_size.setWidth 32) mem_size)
      ⟨start, 0, history, true⟩ b ∧ history.length < b.history.length ∧ b.missed = true := by
  refine ⟨_, scan_whole (addrTest_whole w p comp), ?_, ?_⟩
  · unfold wholeEnd
    rw [if_pos below]
    exact addrTest_length history
  · unfold wholeEnd
    rw [if_pos below]
    rfl

theorem eleven_late (below : start < start + mem_size.setWidth 32) :
    ∃ c, Runs lateRam start (start + mem_size.setWidth 32) mem_size (List.range' 1 11)
      ⟨start, 0, [], false⟩ c ∧ 5 ≤ c.history.length ∧ c.missed = true := by
  have numbers : List.range' 1 11 = [Width.byte, .half, .word, .double].map
      (fun w => (memtest_e_1s_walk w).toNat) ++ (memtest_e_addr_test .byte).toNat ::
        [6, 7, 8, 9, 10, 11] := by
    decide
  have walks : ∃ a, Runs lateRam start (start + mem_size.setWidth 32) mem_size
      ([Width.byte, .half, .word, .double].map fun w => (memtest_e_1s_walk w).toNat)
      ⟨start, 0, [], false⟩ a ∧ a.history.length = 4 ∧ a.missed = true :=
    walks_late below _ (Nat.le_refl 4) fun none_ => by cases none_
  obtain ⟨a, walks, four, missed_a⟩ := walks
  obtain ⟨b, fifth, more, missed_b⟩ :=
    scan_addr_longer lateRam (pattern .byte).1 (pattern .byte).2 a.history below
  rw [← missed_a] at fifth
  have whole (i : Nat) (at_ : i ∈ [6, 7, 8, 9, 10, 11]) : ∃ test_fn,
      (tests lateRam)[i]? = some (some test_fn) ∧ Whole test_fn mem_size ∧
        ∀ a h, h.length ≤ (test_fn a mem_size h).history.length := by
    have range : ∀ i ∈ [6, 7, 8, 9, 10, 11], 5 ≤ i ∧ i < 13 := by decide
    exact tests_whole (range i at_).1 (range i at_).2
  obtain ⟨c, others, more', missed_c⟩ := runs_whole whole missed_b
  refine ⟨c, ?_, by omega, missed_c⟩
  rw [numbers, runs_append]
  exact ⟨a, walks, (runs_cons (tests_addr .byte)).mpr ⟨b, fifth, others⟩⟩

theorem all_hides (some_ : 0 < mem_size.toNat) (fits : start.toNat + mem_size.toNat < 2 ^ 32) :
    ¬Sound lateRam start mem_size memtest_e_ALL := by
  obtain ⟨c, eleven, late, missed⟩ := eleven_late (lt_of_fits some_ fits)
  have called : (devTest lateRam .double start mem_size c.history).n ≠ 0 := by
    rw [devTest_reads lateRam_reads .double late (by omega)]
    exact low_ne_zero some_ fits
  obtain ⟨full, same⟩ := wholeEnd_of_fits (devTest_whole .double) some_ fits called c.missed
  have runs : Runs lateRam start (start + mem_size.setWidth 32) mem_size
      (selected memtest_e_ALL) ⟨start, 0, [], false⟩
      (wholeEnd (devTest lateRam .double) start mem_size c.history c.missed) :=
    runs_append.mpr ⟨c, eleven, (runs_single tests_last).mpr (scan_whole (devTest_whole .double))⟩
  intro sound
  have hidden := sound_iff.mp sound _ runs full
  rw [same, missed] at hidden
  cases hidden

theorem sound_iff_not_hides (test_num : Word) :
    (∀ mem, Sound mem start mem_size test_num) ↔ ¬Hides start mem_size test_num := by
  constructor
  · intro sound hides
    obtain ⟨fits, kind⟩ := hides
    rcases kind with ⟨rfl, some_⟩ | ⟨w, rfl, some_, small, k, low, wraps⟩ | ⟨w, rfl, rfl, enough⟩
    · exact all_hides some_ fits (sound lateRam)
    · exact addr_hides w some_ small fits low wraps (sound _)
    · exact dev_hides w enough (by omega) (sound _)
  · intro shows mem
    exact sound_of_not_hides shows

end Tests

/-- For every start, size and selection: the size comes back only without a missed read, whatever
the memory does, just where no result hides one; and it comes back of every memory without faults
whose size is a multiple of eight just where the memory ends below the end of the address space. -/
theorem memTest_iff (start : Word) (mem_size : Size) (test_num : Word) :
    ((∀ mem, Sound mem start mem_size test_num) ↔ ¬Hides start mem_size test_num) ∧
    (Selects test_num → 0 < mem_size.toNat → 8 ∣ mem_size.toNat → ∀ mem, ReadsBack mem 0 →
      (Completes mem start mem_size test_num ↔ start.toNat + mem_size.toNat < 2 ^ 32)) :=
  ⟨sound_iff_not_hides test_num, fun selects some_ divides _ reads =>
    completes_of_reads reads some_ divides selects⟩

/-- A megabyte of good memory completes the single test of its data bus, which hides nothing. -/
theorem memTest_megabyte :
    Completes ram 0x10000000 0x100000 (memtest_e_1s_walk .word) ∧
      ∀ mem, Sound mem 0x10000000 0x100000 (memtest_e_1s_walk .word) := by
  obtain ⟨sound, completes⟩ := memTest_iff 0x10000000 0x100000 (memtest_e_1s_walk .word)
  constructor
  · apply (completes _ _ _ ram (ram_readsBack (by decide))).mpr
    · decide
    · exact Or.inr (by decide)
    · decide
    · decide
  · apply sound.mpr
    rintro ⟨-, ⟨all, -⟩ | ⟨w, number, -⟩ | ⟨w, number, -⟩⟩
    · exact absurd all (by decide)
    · exact absurd number (by cases w <;> decide)
    · exact absurd number (by cases w <;> decide)

/-- A memory that fails the first of all tests is found good, one that reads as zero passes a device
test at address zero, and good memory up to the end of the address space is not found good. -/
theorem memTest_wrong :
    ¬Sound lateRam 0x10000000 0x100000 memtest_e_ALL ∧
      ¬Sound (fun _ _ _ => 0) 0 0x1000 (memtest_e_dev_test .word) ∧
      ¬Completes ram 0xfffff000 0x1000 memtest_e_ALL := by
  refine ⟨all_hides (by decide) (by decide), dev_hides .word (by decide) (by decide), ?_⟩
  rw [completes_of_reads (ram_readsBack (by decide)) (by decide) (by decide) (Or.inl rfl)]
  decide

end Mx6xBsp.Ipl.MemTests
