import Mathlib.Algebra.BigOperators.Group.Finset.Basic
import Mathlib.Algebra.BigOperators.Ring.Finset
import Mathlib.Data.BitVec
import Mx6xBsp.Flash.CfiGeometry
import Mx6xBsp.Lib.Loops

/-!
# Probing a flash array

`f3s_flash_probe` tries the ident callouts, scales the erase units of the chip up to the unit
size of the socket, and counts the chips. `probe_iff` tells when it comes to an end with the
chip that the ident callout has reported and a count that fits the window.
-/

namespace Mx6xBsp.Flash.Probe

open Loops CfiGeometry

abbrev Word := BitVec 32
abbrev Byte := BitVec 8

/-! ## Callouts -/

/-- The part of `flashcfg` that the probe sets -/
structure Config where
  busWidth : Nat
  deviceWidth : Nat
  chipInter : Nat

/-- A page callout has no page at or past the end of the window, and may give less than is asked
for before it. -/
structure Socket where
  windowSize : Word
  unitSize : Word
  rest : Word → Nat → Nat

def Socket.page (k : Socket) (offset : Word) (size : Nat) : Option Nat :=
  if k.windowSize ≤ offset then none else some (k.rest offset size)

/-- The `rest` of `generic_page` -/
def genericRest (windowSize offset : Word) (size : Nat) : Nat :=
  min ((offset &&& ~~~(windowSize - 1)) + windowSize - offset).toNat size

/-- The `rest` of `f3s_spi_page` -/
def spiRest (windowSize offset : Word) (size : Nat) : Nat := min size (windowSize - offset).toNat

/-- How the ident string of a chip is read. The first argument numbers the chips. -/
inductive Reader
  | v1 (read : Nat → Word → Nat → Option (List Byte))
  | v2 (v2read : Nat → Word → Nat → Option (List Byte))
  /-- The memory at a page -/
  | paged (memory : Nat → Word → Nat → List Byte)

/-- What an ident callout finds. It may set the unit size of the socket. -/
structure Report where
  dbase : Dbase
  unitSize : Option Word

/-- An entry of the list of flash callouts -/
structure Entry where
  ident : Config → Nat → Word → Except Nat Report
  reader : Reader

/-! ## The callout that knows the chip -/

structure Found where
  entry : Entry
  cfg : Config
  dbase : Dbase
  unitSize : Word

variable (k : Socket)

def attempt (e : Entry) (cfg : Config) : Option Found :=
  match e.ident cfg 0 0 with
  | .error _ => none
  | .ok report => some ⟨e, cfg, report.dbase, report.unitSize.getD k.unitSize⟩

/-- The device widths and interleaves in the order of the two loops -/
def autoWidths : List (Nat × Nat) :=
  [(4, 2), (4, 1), (2, 4), (2, 2), (2, 1), (1, 8), (1, 4), (1, 2), (1, 1)]

def identifyEntry (user : Config) (e : Entry) : Option Found :=
  if user.busWidth = 0 then
    autoWidths.findSome? fun w => attempt k e ⟨w.2 * w.1, w.1, w.2⟩
  else
    let inter := if user.chipInter = 0 then 1 else user.chipInter
    attempt k e ⟨user.busWidth, user.busWidth / inter, inter⟩

/-- The loop over the list of callouts -/
def identify (user : Config) (flash : List Entry) : Option Found :=
  flash.findSome? (identifyEntry k user)

/-! ## Scaling the units -/

/-- A shift of an `int` by a register, which looks at the low byte of it -/
def shl (n : Word) (count : Nat) : Word := n <<< (count % 256)

def maxInt (a b : Word) : Word := if a.toInt < b.toInt then b else a

/-- The largest unit size -/
def largest (dbase : Dbase) : Word :=
  (List.range dbase.geoNum).foldl (fun u i => maxInt u (shl 1 (dbase.geoVect i).unitPow2)) 0

structure Scaling where
  unitSize : Word
  dbase : Dbase

/-- `unit_num` is not scaled down. -/
def grow (dbase : Dbase) : Dbase :=
  { dbase with
    geoVect := fun i =>
      if i < dbase.geoNum then { dbase.geoVect i with unitPow2 := (dbase.geoVect i).unitPow2 + 1 }
      else dbase.geoVect i }

def scalePass (unitSize : Word) (st : Scaling) : Pass Scaling Scaling :=
  if (st.dbase.geoVect 0).unitPow2 < 32 ∧ st.unitSize ≠ unitSize then
    .next ⟨st.unitSize <<< 1, grow st.dbase⟩
  else .leave st

/-! ## Counting the chips -/

inductive Outcome
  /-- No callout knows the chip, and the process exits. -/
  | exited
  /-- `-1` -/
  | failed
  | found (chipTotal : Nat) (dbase : Dbase) (unitSize : Word)

def chipSize (dbase : Dbase) : Word :=
  (List.range dbase.geoNum).foldl
    (fun size i => size + shl (.ofNat 32 (dbase.geoVect i).unitNum) (dbase.geoVect i).unitPow2) 0

/-- The ident string of the first chip, as many bytes of it as there are -/
def readIdent (e : Entry) (size : Nat) : Except Outcome (Nat × List Byte) :=
  match e.reader with
  | .v1 read =>
    match read 0 0 size with
    | none => .error .failed
    | some bytes => .ok (bytes.length, bytes)
  | .v2 v2read =>
    match v2read 0 0 size with
    | none => .error .exited
    | some bytes => .ok (bytes.length, bytes)
  | .paged memory =>
    match k.page 0 size with
    | none => .error .failed
    | some size => .ok (size, memory 0 0 size)

/-- The ident string and its size, which the page callout may cut before the chip is reset -/
def identString (e : Entry) (size : Nat) : Except Outcome (Nat × List Byte) :=
  match readIdent k e size with
  | .error outcome => .error outcome
  | .ok (size, ident) =>
    match k.page 0 size with
    | none => .error .failed
    | some size => .ok (size, ident)

/-- The string of a chip further on, and its size -/
def compareString (e : Entry) (chip : Nat) (offset : Word) (size : Nat) :
    Option (Nat × List Byte) :=
  match e.reader with
  | .v1 read => (read chip offset size).map fun bytes => (bytes.length, bytes)
  | .v2 v2read => (v2read chip offset size).map fun bytes => (bytes.length, bytes)
  | .paged memory => (k.page offset size).map fun size => (size, memory chip offset size)

/-- A chip further on, which has to be there and to be another one. What is left is the size of its
string. -/
def nextChip (e : Entry) (cfg : Config) (ident : List Byte) (chip : Nat) (offset : Word)
    (size : Nat) : Option Nat :=
  match compareString k e chip offset size with
  | none => none
  | some (size, bytes) =>
    if ident.take size = bytes.take size then none
    else
      match e.ident cfg chip offset with
      | .error _ => none
      | .ok _ => some size

structure Counting where
  chipTotal : Nat
  textOffset : Word
  identSize : Nat

def countPass (e : Entry) (cfg : Config) (ident : List Byte) (size : Word) (st : Counting) :
    Pass Counting Nat :=
  match nextChip k e cfg ident (st.chipTotal + 1) (st.textOffset + size) st.identSize with
  | none => .leave (st.chipTotal + 1)
  | some identSize => .next ⟨st.chipTotal + 1, st.textOffset + size, identSize⟩

def identSize (dbase : Dbase) : Nat := 2 * dbase.chipWidth * dbase.chipInter

/-- The rest of the probe, from the ident string on -/
def count (fuel : Nat) (found : Found) (dbase : Dbase) (unitSize : Word) : Option Outcome :=
  match identString k found.entry (identSize dbase) with
  | .error outcome => some outcome
  | .ok (size, ident) =>
    match run (countPass k found.entry found.cfg ident (chipSize dbase)) fuel ⟨0, 0, size⟩ with
    | none => none
    | some chipTotal =>
      match k.page 0 size with
      | none => some .failed
      | some _ =>
        some (.found chipTotal
          { dbase with
            chipInter := found.cfg.chipInter
            chipWidth := found.cfg.busWidth / found.cfg.chipInter } unitSize)

/-- `f3s_flash_probe`, with at most `fuel` passes of each loop -/
def probe (fuel : Nat) (user : Config) (flash : List Entry) : Option Outcome :=
  match k.page 0 64 with
  | none => some .failed
  | some _ =>
    match identify k user flash with
    | none => some .exited
    | some found =>
      if found.unitSize ≠ 0 then
        match run (scalePass found.unitSize) fuel ⟨largest found.dbase, found.dbase⟩ with
        | none => none
        | some scaled =>
          if (scaled.dbase.geoVect 0).unitPow2 = 32 then some .failed
          else count k fuel found scaled.dbase found.unitSize
      else count k fuel found found.dbase (largest found.dbase)

/-! ## What a probe should do -/

/-- The size of one chip -/
def total (dbase : Dbase) : Nat :=
  ∑ i ∈ Finset.range dbase.geoNum, (dbase.geoVect i).unitNum * 2 ^ (dbase.geoVect i).unitPow2

/-- A count has the size of the chip that was reported, and fits the window. -/
def Fits (found : Found) : Outcome → Prop
  | .exited => True
  | .failed => True
  | .found chipTotal dbase _ =>
    total dbase = total found.dbase ∧ chipTotal * total found.dbase ≤ k.windowSize.toNat

/-- The probe comes to an end and its count is right. -/
def Right (user : Config) (flash : List Entry) : Prop :=
  ∃ fuel outcome, probe k fuel user flash = some outcome ∧
    ∀ found, identify k user flash = some found → Fits k found outcome

/-! ## When it does -/

/-- The callouts find another chip at each of the first places, `step` apart. -/
def answers (found : Found) (ident : List Byte) (step size : Nat) : Nat → Option Nat
  | 0 => some size
  | m + 1 =>
    match answers found ident step size m with
    | none => none
    | some size =>
      nextChip k found.entry found.cfg ident (m + 1) (.ofNat 32 ((m + 1) * step)) size

/-- The unit size of the socket is met as it is, or some shift meets it, or the exponent is out of
range. -/
def Scales (found : Found) : Prop :=
  found.unitSize = 0 ∨ 32 < (found.dbase.geoVect 0).unitPow2 ∨
    ∃ j, (found.dbase.geoVect 0).unitPow2 + j < 32 ∧ largest found.dbase <<< j = found.unitSize

/-- Nothing has to be scaled. -/
def Unscaled (found : Found) : Prop :=
  found.unitSize = 0 ∨ 32 < (found.dbase.geoVect 0).unitPow2 ∨
    largest found.dbase = found.unitSize

/-- The chips fit: each chip that the callouts find lies in the window as a whole, and chips without
a size are not found for ever. -/
structure ChipsFit (found : Found) (ident : List Byte) (size : Nat) : Prop where
  window : ∀ m identSize, answers k found ident (total found.dbase) size m = some identSize →
    (m + 1) * total found.dbase ≤ k.windowSize.toNat
  ends : total found.dbase = 0 → ∃ m, answers k found ident 0 size m = none

structure Sound (found : Found) : Prop where
  /-- A geometry without regions is not scaled. -/
  regions : found.unitSize ≠ 0 → found.dbase.geoNum = 0 →
    32 ≤ (found.dbase.geoVect 0).unitPow2
  chips : ∀ size ident, identString k found.entry (identSize found.dbase) = .ok (size, ident) →
    Scales found → (Unscaled found ∨ total found.dbase = 0) ∧ ChipsFit k found ident size

/-! ## Scaling -/

section Scaling

/-- The geometry after `j` passes of the scaling loop -/
def growBy (j : Nat) (dbase : Dbase) : Dbase :=
  { dbase with
    geoVect := fun i =>
      if i < dbase.geoNum then { dbase.geoVect i with unitPow2 := (dbase.geoVect i).unitPow2 + j }
      else dbase.geoVect i }

variable {dbase : Dbase} {unitSize : Word}

theorem growBy_zero : growBy 0 dbase = dbase := by
  unfold growBy
  simp only [Nat.add_zero, ite_self]

theorem grow_growBy (j : Nat) : grow (growBy j dbase) = growBy (j + 1) dbase := by
  unfold grow growBy
  congr 1
  funext i
  dsimp only
  by_cases inside : i < dbase.geoNum
  · simp only [if_pos inside]
    rfl
  · simp only [if_neg inside]

theorem growBy_first {j : Nat} (regions : dbase.geoNum ≠ 0) :
    ((growBy j dbase).geoVect 0).unitPow2 = (dbase.geoVect 0).unitPow2 + j := by
  have inside : 0 < dbase.geoNum := by omega
  unfold growBy
  dsimp only
  rw [if_pos inside]

theorem total_growBy (j : Nat) : total (growBy j dbase) = 2 ^ j * total dbase := by
  unfold total
  rw [Finset.mul_sum]
  refine Finset.sum_congr rfl fun i inside => ?_
  unfold growBy
  dsimp only
  rw [if_pos (Finset.mem_range.mp inside)]
  dsimp only
  rw [Nat.pow_add, Nat.mul_comm (2 ^ j), Nat.mul_assoc]

theorem largest_empty (none : dbase.geoNum = 0) : largest dbase = 0 := by
  unfold largest
  rw [none]
  rfl

/-- The scaling loop ends at the first shift that meets the unit size, or at the exponent 32. -/
theorem scale_ends (regions : dbase.geoNum = 0 → 32 ≤ (dbase.geoVect 0).unitPow2)
    (u largest : Word) :
    ∃ j, Ends (scalePass u) ⟨largest, dbase⟩ ⟨largest <<< j, growBy j dbase⟩ ∧
      (∀ i < j, (dbase.geoVect 0).unitPow2 + i < 32 ∧ largest <<< i ≠ u) ∧
      ((growBy j dbase).geoVect 0).unitPow2 = (dbase.geoVect 0).unitPow2 + j ∧
      ((dbase.geoVect 0).unitPow2 + j < 32 → largest <<< j = u) := by
  let Inv : Scaling → Prop := fun st => ∃ j, st = ⟨largest <<< j, growBy j dbase⟩ ∧
    (∀ i < j, (dbase.geoVect 0).unitPow2 + i < 32 ∧ largest <<< i ≠ u) ∧
    ((growBy j dbase).geoVect 0).unitPow2 = (dbase.geoVect 0).unitPow2 + j
  have start : Inv ⟨largest, dbase⟩ := by
    refine ⟨0, ?_, ?_, ?_⟩
    · rw [growBy_zero]
      congr 1
      simp
    · intro i below
      omega
    · rw [growBy_zero]
      rfl
  have falls : ∀ {s t}, Inv s → scalePass u s = .next t →
      Inv t ∧ 32 - (t.dbase.geoVect 0).unitPow2 < 32 - (s.dbase.geoVect 0).unitPow2 := by
    rintro s t ⟨j, rfl, before, first⟩ here
    unfold scalePass at here
    dsimp only at here
    split at here
    · next test =>
      cases here
      obtain ⟨low, other⟩ := test
      have some : dbase.geoNum ≠ 0 := by
        intro none
        have high := regions none
        omega
      rw [grow_growBy]
      have first' := growBy_first (j := j + 1) some
      refine ⟨⟨j + 1, ?_, ?_, first'⟩, ?_⟩
      · rw [BitVec.shiftLeft_add]
      · intro i below
        by_cases last : i = j
        · subst last
          rw [first] at low
          exact ⟨low, other⟩
        · exact before i (by omega)
      · dsimp only
        omega
    · cases here
  obtain ⟨r, ends⟩ := exists_ends (fun st => 32 - (st.dbase.geoVect 0).unitPow2) start falls
  obtain ⟨st, ⟨j, rfl, before, first⟩, left⟩ :=
    ends.leaves start fun inv here => (falls inv here).1
  unfold scalePass at left
  dsimp only at left
  split at left
  · cases left
  · next test =>
    cases left
    refine ⟨j, ends, before, first, ?_⟩
    intro low
    by_contra other
    exact test ⟨by omega, other⟩

theorem scale_stuck (none : dbase.geoNum = 0) (low : (dbase.geoVect 0).unitPow2 < 32) {u : Word}
    (wanted : u ≠ 0) : ¬∃ r, Ends (scalePass u) ⟨0, dbase⟩ r := by
  refine not_ends (I := fun st => st = ⟨0, dbase⟩) rfl ?_
  rintro st rfl
  have same : grow dbase = dbase := by
    unfold grow
    simp only [none, Nat.not_lt_zero, if_false]
    cases dbase
    cases none
    rfl
  refine ⟨⟨0, dbase⟩, ?_, rfl⟩
  unfold scalePass
  dsimp only
  rw [if_pos ⟨low, fun zero => wanted zero.symm⟩, same]
  rfl

end Scaling

/-! ## The size of a chip -/

theorem shl_ofNat {n count : Nat} (fits : n * 2 ^ count < 2 ^ 32) :
    shl (.ofNat 32 n) count = .ofNat 32 (n * 2 ^ count) := by
  unfold shl
  by_cases short : count < 32
  · rw [Nat.mod_eq_of_lt (by omega)]
    apply BitVec.eq_of_toNat_eq
    rw [BitVec.toNat_shiftLeft, BitVec.toNat_ofNat, BitVec.toNat_ofNat, Nat.shiftLeft_eq,
      Nat.mod_mul_mod]
  · have large : 2 ^ 32 ≤ 2 ^ count := Nat.pow_le_pow_right (by decide) (by omega)
    have none : n = 0 := by
      by_contra some
      have grows : 2 ^ count ≤ n * 2 ^ count := Nat.le_mul_of_pos_left _ (by omega)
      omega
    subst none
    rw [Nat.zero_mul]
    simp

theorem chipSize_eq {dbase : Dbase} (fits : total dbase < 2 ^ 32) :
    chipSize dbase = .ofNat 32 (total dbase) := by
  unfold chipSize total at *
  generalize dbase.geoNum = n at fits ⊢
  induction n with
  | zero => rfl
  | succ n ih =>
    rw [Finset.sum_range_succ] at fits ⊢
    rw [List.range_succ, List.foldl_append, ih (by omega)]
    simp only [List.foldl_cons, List.foldl_nil]
    rw [shl_ofNat (by omega), BitVec.ofNat_add]

/-! ## Counting -/

section Counting

variable {k} {found : Found} {ident : List Byte} {step size : Nat}

theorem answers_none {m n : Nat} (stop : answers k found ident step size m = none)
    (later : m ≤ n) : answers k found ident step size n = none := by
  induction n, later using Nat.le_induction with
  | base => exact stop
  | succ n _ ih =>
    unfold answers
    rw [ih]

/-- The state of the counting loop, and what the callouts have answered so far -/
def Counted (k : Socket) (found : Found) (ident : List Byte) (step size : Nat) (st : Counting) :
    Prop :=
  answers k found ident step size st.chipTotal = some st.identSize ∧
    st.textOffset = .ofNat 32 (st.chipTotal * step)

theorem nextChip_counted {st : Counting} (inv : Counted k found ident step size st) :
    nextChip k found.entry found.cfg ident (st.chipTotal + 1) (st.textOffset + .ofNat 32 step)
        st.identSize =
      answers k found ident step size (st.chipTotal + 1) := by
  obtain ⟨so_far, offset⟩ := inv
  have place : st.textOffset + .ofNat 32 step = .ofNat 32 ((st.chipTotal + 1) * step) := by
    rw [offset, ← BitVec.ofNat_add, Nat.succ_mul]
  conv_rhs => unfold answers
  rw [so_far, place]

theorem Counted.next {s t : Counting} (inv : Counted k found ident step size s)
    (here : countPass k found.entry found.cfg ident (.ofNat 32 step) s = .next t) :
    Counted k found ident step size t ∧ t.chipTotal = s.chipTotal + 1 := by
  have answer := nextChip_counted inv
  unfold countPass at here
  split at here
  · cases here
  · next identSize found' =>
    cases here
    refine ⟨⟨answer.symm.trans found', ?_⟩, rfl⟩
    rw [inv.2, ← BitVec.ofNat_add, Nat.succ_mul]

theorem Counted.leave {s : Counting} {n : Nat} (inv : Counted k found ident step size s)
    (here : countPass k found.entry found.cfg ident (.ofNat 32 step) s = .leave n) :
    answers k found ident step size (s.chipTotal + 1) = none ∧ n = s.chipTotal + 1 := by
  have answer := nextChip_counted inv
  unfold countPass at here
  split at here
  · next none =>
    cases here
    exact ⟨answer.symm.trans none, rfl⟩
  · cases here

theorem Counted.start : Counted k found ident step size ⟨0, 0, size⟩ := by
  refine ⟨rfl, ?_⟩
  rw [Nat.zero_mul]
  rfl

theorem count_ends {n : Nat}
    (ends : Ends (countPass k found.entry found.cfg ident (.ofNat 32 step)) ⟨0, 0, size⟩ n) :
    ∃ m, n = m + 1 ∧ (∃ identSize, answers k found ident step size m = some identSize) ∧
      answers k found ident step size (m + 1) = none := by
  obtain ⟨st, inv, left⟩ := ends.leaves Counted.start fun inv here => (inv.next here).1
  obtain ⟨stop, last⟩ := inv.leave left
  exact ⟨st.chipTotal, last, ⟨st.identSize, inv.1⟩, stop⟩

theorem exists_count {stop : Nat} (none : answers k found ident step size stop = none) :
    ∃ n, Ends (countPass k found.entry found.cfg ident (.ofNat 32 step)) ⟨0, 0, size⟩ n := by
  refine exists_ends (I := Counted k found ident step size) (fun st => stop - st.chipTotal)
    Counted.start ?_
  intro s t inv here
  obtain ⟨inv', later⟩ := inv.next here
  refine ⟨inv', ?_⟩
  have before : s.chipTotal < stop := by
    by_contra past
    have gone := answers_none none (Nat.le_of_not_lt past)
    rw [inv.1] at gone
    cases gone
  omega

theorem page_zero (k : Socket) (size : Nat) : k.page 0 size = none ↔ k.windowSize = 0 := by
  unfold Socket.page
  split
  · next past => exact ⟨fun _ => BitVec.le_zero_iff.mp past, fun _ => rfl⟩
  · next inside =>
    constructor
    · intro none
      cases none
    · intro zero
      exact absurd (BitVec.le_zero_iff.mpr zero) inside

theorem identString_error {e : Entry} {n : Nat} {outcome : Outcome}
    (error : identString k e n = .error outcome) : outcome = .failed ∨ outcome = .exited := by
  have first : ∀ {outcome}, readIdent k e n = .error outcome →
      outcome = .failed ∨ outcome = .exited := by
    intro outcome error
    unfold readIdent at error
    split at error
    · split at error
      · cases error
        exact Or.inl rfl
      · cases error
    · split at error
      · cases error
        exact Or.inr rfl
      · cases error
    · split at error
      · cases error
        exact Or.inl rfl
      · cases error
  unfold identString at error
  split at error
  · next here =>
    cases error
    exact first here
  · split at error
    · cases error
      exact Or.inl rfl
    · cases error

theorem count_mono {dbase : Dbase} {unitSize : Word} {fuel fuel' : Nat} {outcome : Outcome}
    (more : fuel ≤ fuel') (done : count k fuel found dbase unitSize = some outcome) :
    count k fuel' found dbase unitSize = some outcome := by
  unfold count at done ⊢
  split at done
  · exact done
  · split at done
    · cases done
    · next counted =>
      rw [run_mono more counted]
      exact done

/-- From the ident string on, the probe comes to a right end exactly if the chip has the size that
was reported and the chips fit. -/
theorem count_right_iff (window : k.windowSize ≠ 0) (dbase : Dbase) (unitSize : Word) :
    (∃ fuel outcome,
        count k fuel found dbase unitSize = some outcome ∧ Fits k found outcome) ↔
      ∀ size ident, identString k found.entry (identSize dbase) = .ok (size, ident) →
        total dbase = total found.dbase ∧ ChipsFit k found ident size := by
  have inWindow : ∀ size, ∃ rest, k.page 0 size = some rest := fun size =>
    Option.ne_none_iff_exists'.mp fun none => window ((page_zero k size).mp none)
  have bound := k.windowSize.isLt
  constructor
  · rintro ⟨fuel, outcome, done, fits⟩ size ident read
    unfold count at done
    rw [read] at done
    dsimp only at done
    split at done
    · cases done
    · next chipTotal counted =>
      obtain ⟨rest, page⟩ := inWindow size
      rw [page] at done
      cases done
      obtain ⟨same, within⟩ := fits
      have same' : total dbase = total found.dbase := same
      refine ⟨same', ?_⟩
      have positive : 0 < chipTotal := by
        obtain ⟨st, _, left⟩ :=
          Ends.leaves (I := fun _ => True) ⟨fuel, counted⟩ trivial fun _ _ => trivial
        unfold countPass at left
        split at left
        · cases left
          exact Nat.succ_pos _
        · cases left
      have small : total dbase < 2 ^ 32 := by
        have one := Nat.le_mul_of_pos_left (total found.dbase) positive
        omega
      rw [chipSize_eq small, same'] at counted
      obtain ⟨m, last, _, stop⟩ := count_ends ⟨fuel, counted⟩
      constructor
      · intro m' identSize answer
        have before : m' ≤ m := by
          by_contra past
          rw [answers_none stop (by omega)] at answer
          cases answer
        have mono := Nat.mul_le_mul_right (total found.dbase) (Nat.succ_le_succ before)
        rw [last] at within
        exact Nat.le_trans mono within
      · intro zero
        rw [zero] at stop
        exact ⟨m + 1, stop⟩
  · intro right
    cases read : identString k found.entry (identSize dbase) with
    | error outcome =>
      refine ⟨0, outcome, ?_, ?_⟩
      · unfold count
        rw [read]
      · rcases identString_error read with rfl | rfl <;> trivial
    | ok string =>
      obtain ⟨size, ident⟩ := string
      obtain ⟨same, fits⟩ := right size ident read
      have one : total found.dbase ≤ k.windowSize.toNat := by
        have first := fits.window 0 size rfl
        omega
      have stops : ∃ m, answers k found ident (total found.dbase) size m = none := by
        rcases Nat.eq_zero_or_pos (total found.dbase) with zero | positive
        · rw [zero]
          exact fits.ends zero
        · refine ⟨k.windowSize.toNat, ?_⟩
          by_contra some
          obtain ⟨identSize, answer⟩ := Option.ne_none_iff_exists'.mp some
          have within := fits.window _ _ answer
          have grows := Nat.le_mul_of_pos_right (k.windowSize.toNat + 1) positive
          omega
      obtain ⟨m, none⟩ := stops
      obtain ⟨chipTotal, fuel, counted⟩ := exists_count none
      obtain ⟨last, rfl, ⟨identSize, answer⟩, _⟩ := count_ends ⟨fuel, counted⟩
      obtain ⟨rest, page⟩ := inWindow size
      refine ⟨fuel, .found (last + 1)
        { dbase with
          chipInter := found.cfg.chipInter
          chipWidth := found.cfg.busWidth / found.cfg.chipInter } unitSize,
        ?_, same, fits.window last identSize answer⟩
      unfold count
      rw [read]
      dsimp only
      rw [chipSize_eq (by omega), same, counted]
      dsimp only
      rw [page]

end Counting

/-- In a window that the chips fill, every chip that is found lies in the window as a whole. -/
theorem chipsFit_of_dvd {k : Socket} {found : Found} {ident : List Byte} {size : Nat}
    {memory : Nat → Word → Nat → List Byte} (paged : found.entry.reader = .paged memory)
    (window : k.windowSize ≠ 0) (positive : 0 < total found.dbase)
    (fills : total found.dbase ∣ k.windowSize.toNat) : ChipsFit k found ident size := by
  have bound := k.windowSize.isLt
  refine ⟨?_, fun zero => absurd zero positive.ne'⟩
  obtain ⟨chips, full⟩ := fills
  intro m
  induction m with
  | zero =>
    intro _ _
    have some : k.windowSize.toNat ≠ 0 := fun zero => window (BitVec.eq_of_toNat_eq zero)
    rw [Nat.zero_add, Nat.one_mul, full]
    refine Nat.le_mul_of_pos_right _ (Nat.pos_of_ne_zero fun none => some ?_)
    rw [full, none, Nat.mul_zero]
  | succ m ih =>
    intro identSize answer
    unfold answers at answer
    split at answer
    · cases answer
    · next size' before =>
      have inside := ih _ before
      have offset : (BitVec.ofNat 32 ((m + 1) * total found.dbase)).toNat =
          (m + 1) * total found.dbase := by
        rw [BitVec.toNat_ofNat, Nat.mod_eq_of_lt (by omega)]
      have short : (m + 1) * total found.dbase < k.windowSize.toNat := by
        unfold nextChip compareString at answer
        rw [paged] at answer
        dsimp only at answer
        by_contra past
        have gone : k.page (.ofNat 32 ((m + 1) * total found.dbase)) size' = none := by
          unfold Socket.page
          rw [if_pos (BitVec.le_def.mpr (by omega))]
        rw [gone] at answer
        cases answer
      rw [full, Nat.mul_comm (m + 1)] at short
      have next : m + 1 < chips := Nat.lt_of_mul_lt_mul_left short
      rw [full, Nat.mul_comm (total found.dbase)]
      exact Nat.mul_le_mul_right _ next

/-! ## The whole probe -/

section Whole

variable {k} {user : Config} {flash : List Entry} {found : Found}

theorem scaled_right_iff (window : k.windowSize ≠ 0)
    (identified : identify k user flash = some found) (wanted : found.unitSize ≠ 0) :
    Right k user flash ↔ Sound k found := by
  obtain ⟨rest, page⟩ : ∃ rest, k.page 0 64 = some rest :=
    Option.ne_none_iff_exists'.mp fun none => window ((page_zero k 64).mp none)
  have unfolded : ∀ fuel, probe k fuel user flash =
      match run (scalePass found.unitSize) fuel ⟨largest found.dbase, found.dbase⟩ with
      | none => none
      | some scaled =>
        if (scaled.dbase.geoVect 0).unitPow2 = 32 then some .failed
        else count k fuel found scaled.dbase found.unitSize := by
    intro fuel
    unfold probe
    rw [page, identified]
    exact if_pos wanted
  by_cases regions : found.dbase.geoNum = 0 → 32 ≤ (found.dbase.geoVect 0).unitPow2
  · obtain ⟨j, scaled, before, first, met⟩ :=
      scale_ends regions found.unitSize (largest found.dbase)
    by_cases top : (found.dbase.geoVect 0).unitPow2 + j = 32
    · -- the exponent has reached 32, and no shift below it meets the unit size
      constructor
      · intro _
        refine ⟨fun _ => regions, ?_⟩
        intro size ident _ scales
        rcases scales with zero | past | ⟨i, low, same⟩
        · exact absurd zero wanted
        · omega
        · exact absurd same (before i (by omega)).2
      · intro _
        obtain ⟨fuel, done⟩ := scaled
        refine ⟨fuel, .failed, ?_, fun _ _ => trivial⟩
        rw [unfolded, done]
        exact if_pos (first.trans top)
    · have counts : Right k user flash ↔
          ∃ fuel outcome, count k fuel found (growBy j found.dbase) found.unitSize =
            some outcome ∧ Fits k found outcome := by
        constructor
        · rintro ⟨fuel, outcome, done, fits⟩
          rw [unfolded] at done
          split at done
          · cases done
          · next st ran =>
            cases scaled.unique ⟨fuel, ran⟩
            rw [if_neg (fun same => top (first.symm.trans same))] at done
            exact ⟨fuel, outcome, done, fits found identified⟩
        · rintro ⟨fuel, outcome, done, fits⟩
          obtain ⟨fuel', ran⟩ := scaled
          refine ⟨max fuel fuel', outcome, ?_, ?_⟩
          · rw [unfolded, run_mono (Nat.le_max_right fuel fuel') ran]
            dsimp only
            rw [if_neg (fun same => top (first.symm.trans same))]
            exact count_mono (Nat.le_max_left fuel fuel') done
          · intro found' identified'
            cases identified.symm.trans identified'
            exact fits
      have scales : Scales found := by
        by_cases low : (found.dbase.geoVect 0).unitPow2 + j < 32
        · exact Or.inr (Or.inr ⟨j, low, met low⟩)
        · cases j with
          | zero => exact Or.inr (Or.inl (by omega))
          | succ j =>
            have last := (before j (by omega)).1
            omega
      have same : total (growBy j found.dbase) = total found.dbase ↔
          Unscaled found ∨ total found.dbase = 0 := by
        rw [total_growBy]
        cases j with
        | zero =>
          rw [Nat.pow_zero, Nat.one_mul]
          refine iff_of_true rfl (Or.inl ?_)
          by_cases low : (found.dbase.geoVect 0).unitPow2 < 32
          · have here := met low
            exact Or.inr (Or.inr (by simpa using here))
          · exact Or.inr (Or.inl (by omega))
        | succ j =>
          obtain ⟨low, other⟩ := before 0 (by omega)
          have moved : ¬Unscaled found := by
            rintro (zero | past | here)
            · exact wanted zero
            · omega
            · exact other (by simpa using here)
          have grows : 2 ≤ 2 ^ (j + 1) := Nat.le_self_pow (by omega) 2
          constructor
          · intro fixed
            refine Or.inr (Nat.eq_zero_of_not_pos fun positive => ?_)
            have doubled := Nat.mul_le_mul_right (total found.dbase) grows
            omega
          · rintro (unscaled | zero)
            · exact absurd unscaled moved
            · rw [zero, Nat.mul_zero]
      rw [counts, count_right_iff window]
      constructor
      · intro right
        refine ⟨fun _ => regions, ?_⟩
        intro size ident read _
        obtain ⟨fixed, fits⟩ := right size ident read
        exact ⟨same.mp fixed, fits⟩
      · intro sound size ident read
        obtain ⟨fixed, fits⟩ := sound.chips size ident read scales
        exact ⟨same.mpr fixed, fits⟩
  · -- no regions: the loop shifts zero
    obtain ⟨none, low⟩ := Classical.not_imp.mp regions
    refine iff_of_false ?_ fun sound => regions (sound.regions wanted)
    rintro ⟨fuel, outcome, done, _⟩
    rw [unfolded, largest_empty none] at done
    split at done
    · cases done
    · next st ran => exact scale_stuck none (by omega) wanted ⟨st, fuel, ran⟩

theorem unscaled_right_iff (window : k.windowSize ≠ 0)
    (identified : identify k user flash = some found) (free : found.unitSize = 0) :
    Right k user flash ↔ Sound k found := by
  obtain ⟨rest, page⟩ : ∃ rest, k.page 0 64 = some rest :=
    Option.ne_none_iff_exists'.mp fun none => window ((page_zero k 64).mp none)
  have unfolded : ∀ fuel, probe k fuel user flash =
      count k fuel found found.dbase (largest found.dbase) := by
    intro fuel
    unfold probe
    rw [page, identified]
    exact if_neg fun wanted => wanted free
  have counts : Right k user flash ↔
      ∃ fuel outcome, count k fuel found found.dbase (largest found.dbase) = some outcome ∧
        Fits k found outcome := by
    constructor
    · rintro ⟨fuel, outcome, done, fits⟩
      exact ⟨fuel, outcome, (unfolded fuel).symm.trans done, fits found identified⟩
    · rintro ⟨fuel, outcome, done, fits⟩
      refine ⟨fuel, outcome, (unfolded fuel).trans done, ?_⟩
      intro found' identified'
      cases identified.symm.trans identified'
      exact fits
  rw [counts, count_right_iff window]
  constructor
  · intro right
    refine ⟨fun wanted => absurd free wanted, ?_⟩
    intro size ident read _
    exact ⟨Or.inl (Or.inl free), (right size ident read).2⟩
  · intro sound size ident read
    exact ⟨rfl, (sound.chips size ident read (Or.inl free)).2⟩

/-- The probe comes to an end, with the reported chip and a count that fits the window, exactly if
the callout that knows the chip has reported a geometry that needs no scaling and chips that lie in
the window as a whole. -/
theorem probe_iff (k : Socket) (user : Config) (flash : List Entry) :
    Right k user flash ↔
      ∀ found, k.windowSize ≠ 0 → identify k user flash = some found → Sound k found := by
  by_cases window : k.windowSize = 0
  · refine iff_of_true ?_ fun _ some => absurd window some
    refine ⟨0, .failed, ?_, fun _ _ => trivial⟩
    unfold probe
    rw [(page_zero k 64).mpr window]
  · cases identified : identify k user flash with
    | none =>
      refine iff_of_true ⟨0, .exited, ?_, fun _ _ => trivial⟩ fun found _ some => by cases some
      obtain ⟨rest, page⟩ : ∃ rest, k.page 0 64 = some rest :=
        Option.ne_none_iff_exists'.mp fun none => window ((page_zero k 64).mp none)
      unfold probe
      rw [page, identified]
    | some found =>
      have right : Right k user flash ↔ Sound k found := by
        by_cases free : found.unitSize = 0
        · exact unscaled_right_iff window identified free
        · exact scaled_right_iff window identified free
      rw [right]
      constructor
      · intro sound found' _ same
        cases same
        exact sound
      · intro sound
        exact sound found window rfl

end Whole

/-- A chip of 128 units of 64 KiB -/
def chip : Dbase := ⟨0x89, 0x17, 32, 1, fun _ => ⟨128, 16⟩, 1, 1, ⟨true, true, true⟩⟩

/-- A callout that knows the first chip alone -/
def knowsChip : Entry where
  ident := fun _ place _ => if place = 0 then .ok ⟨chip, none⟩ else .error 48
  reader := .paged fun _ _ size => List.replicate size 0

/-- A window of 16 MiB whose socket asks for units of 128 KiB -/
def wideSocket : Socket := ⟨0x1000000, 0x20000, genericRest 0x1000000⟩

/-- Units of 64 KiB on a socket with units of 128 KiB make a chip of twice the size. -/
theorem probe_broken :
    ¬∀ (k : Socket) (user : Config) (flash : List Entry), Right k user flash := by
  intro always
  have identified : identify wideSocket ⟨1, 1, 1⟩ [knowsChip] =
      some ⟨knowsChip, ⟨1, 1, 1⟩, chip, 0x20000⟩ := rfl
  have sound := (scaled_right_iff (by decide) identified (by decide)).mp (always _ _ _)
  have scales : Scales ⟨knowsChip, ⟨1, 1, 1⟩, chip, 0x20000⟩ :=
    Or.inr (Or.inr ⟨1, by decide, by decide⟩)
  obtain ⟨unscaled, _⟩ := sound.chips 2 [0, 0] rfl scales
  rcases unscaled with (zero | past | met) | none
  · exact absurd zero (by decide)
  · exact absurd past (by decide)
  · exact absurd met (by decide)
  · exact absurd none (by decide)

end Mx6xBsp.Flash.Probe
