import Mathlib.Data.BitVec
import Mathlib.Logic.Function.Basic

/-!
# The MC146818 clock

`clk_mc146818.c`: a file of registers of eight bits behind an index and a data port.
`set_mc146818` writes a time in BCD or binary, as the clock is set, and forces the 24-hour
mode. `get_mc146818` reads the registers until two readings agree. The century is written
as two digits, but read for whether it is zero; `setGet_iff` tells which times come back.
-/

namespace Mx6xBsp.Rtc.Mc146818

abbrev Byte := BitVec 8

/-- The registers, by what is written to the index port -/
abbrev Regs := Byte → Byte

def CLK_HOLD : Byte := 0x80
def H2412 : Byte := 0x02
def BIN : Byte := 0x04
def REG_A : Byte := 0x0A
def REG_B : Byte := 0x0B
def CMOS_CNT : Nat := 0xffff

def cmos (regs : Regs) (i : Nat) : Nat := (regs (BitVec.ofNat 8 i)).toNat

def cmosSet (i d : Nat) (regs : Regs) : Regs :=
  Function.update regs (BitVec.ofNat 8 i) (BitVec.ofNat 8 d)

def BIN2BCD (a : Nat) : Nat :=
  ((a % 10000 / 1000) <<< 12) + ((a % 1000 / 100) <<< 8) + ((a % 100 / 10) <<< 4) + a % 10

def BCD2BIN (a : Nat) : Nat :=
  ((a &&& 0xf000) >>> 12) * 1000 + ((a &&& 0xf00) >>> 8) * 100 + ((a &&& 0xf0) >>> 4) * 10 +
    (a &&& 0x0f)

/-- A conversion is left out where register B says that the data are binary. -/
def unlessBinary (x : Byte) (convert : Nat → Nat) (v : Nat) : Nat :=
  if x &&& BIN = 0#8 then convert v else v

/-- What both functions use of a `struct tm` -/
structure Tm where
  sec : Int
  min : Int
  hour : Int
  mday : Int
  mon : Int
  year : Int
deriving DecidableEq

/-- An `int` in an `unsigned` -/
def unsigned (i : Int) : Nat := (BitVec.ofInt 32 i).toNat

/-! ## `set_mc146818` -/

def setMc146818 (tm : Tm) (cent_reg : Int) (regs : Regs) : Regs :=
  let x := regs REG_A
  let regs := Function.update regs REG_A ((x &&& 0xf#8) ||| 0x20#8)
  let x := regs REG_B ||| (CLK_HOLD ||| H2412)
  let regs := Function.update regs REG_B x
  let code := unlessBinary x BIN2BCD
  let regs := cmosSet 7 (code (unsigned tm.mday)) regs
  let regs := cmosSet 8 (code (unsigned (tm.mon + 1))) regs
  let regs := cmosSet 9 (code (unsigned (tm.year.tmod 100))) regs
  let cent := code (unsigned (tm.year.tdiv 100 + 19))
  let regs := if cent_reg ≥ 0 then cmosSet cent_reg.toNat cent regs else regs
  let regs := cmosSet 4 (code (unsigned tm.hour)) regs
  let regs := cmosSet 2 (code (unsigned tm.min)) regs
  let regs := cmosSet 0 (code (unsigned tm.sec)) regs
  Function.update regs REG_B (x &&& ~~~CLK_HOLD)

/-! ## `get_mc146818` -/

/-- `clk_buf[0]` -/
structure ClkBuf where
  seconds : Nat
  minutes : Nat
  hours : Nat
  day : Nat
  month : Nat
  year : Nat
  century : Nat
deriving DecidableEq

/-- The check for a chip with reserved bits in register A: whether the clock can be read, and the
registers. Where it cannot, register A has its old value again. -/
def probe (regs : Regs) : Bool × Regs :=
  let x := regs REG_A
  if x &&& 0x60#8 ≠ 0x20#8 then
    let probed := Function.update regs REG_A (x ||| 0x60#8)
    if probed REG_A &&& 0x60#8 ≠ 0#8 then (false, Function.update probed REG_A x)
    else (true, probed)
  else (true, regs)

/-- The wait for the end of an update, and the count it leaves -/
def waitUip (regs : Regs) : Nat → Byte → Nat
  | 0, _ => 0
  | count + 1, x => if x &&& 0x80#8 ≠ 0#8 then waitUip regs count (regs REG_A) else count + 1

def readClk (regs : Regs) (cent_reg : Int) : ClkBuf where
  seconds := cmos regs 0
  minutes := cmos regs 2
  hours := cmos regs 4
  day := cmos regs 7
  month := cmos regs 8
  year := cmos regs 9
  century := if cent_reg ≥ 0 then cmos regs cent_reg.toNat else 0

/-- The loop until two readings agree. Nothing comes back where it takes more than `fuel` rounds,
and no reading where an update does not end. -/
def readTwice (regs : Regs) (cent_reg : Int) : Nat → ClkBuf → Option (Option ClkBuf)
  | 0, _ => none
  | fuel + 1, last =>
    if waitUip regs CMOS_CNT 0x80#8 = 0 then some none
    else
      let clk := readClk regs cent_reg
      if clk = last then some (some clk) else readTwice regs cent_reg fuel clk

/-- The time of a reading, with the modes in register B -/
def decode (x : Byte) (cent_reg : Int) (clk : ClkBuf) : Tm :=
  let plain := unlessBinary x BCD2BIN
  let hours := unlessBinary x (fun hours => BCD2BIN (hours &&& 0x7f)) clk.hours
  let hour := hours &&& 0x7f
  let year : Int := plain clk.year
  { sec := plain clk.seconds
    min := plain clk.minutes
    hour := if x &&& H2412 = 0#8 ∧ clk.hours &&& 0x80 ≠ 0 then hour + 12 else hour
    mday := plain clk.day
    mon := plain clk.month - 1
    year :=
      if cent_reg ≥ 0 then if plain clk.century ≠ 0 then year + 100 else year
      else if year < 70 then year + 100 else year }

/-- The time read, if any, and the registers. The wait for the begin of an update is left out: it
only reads register A. -/
def getMc146818 (fuel : Nat) (cent_reg : Int) (regs : Regs) : Option (Option Tm × Regs) :=
  let (there, regs) := probe regs
  if there then
    (readTwice regs cent_reg fuel ⟨0, 0, 0, 0, 0, 0, 0⟩).map fun clk =>
      (clk.map (decode (regs REG_B) cent_reg), regs)
  else some (none, regs)

/-! ## A clock that does not tick -/

theorem waitUip_still {regs : Regs} (still : regs REG_A &&& 0x80#8 = 0#8) (count : Nat) :
    waitUip regs (count + 2) 0x80#8 = count + 1 := by
  simp [waitUip, still]

theorem readTwice_still {regs : Regs} (still : regs REG_A &&& 0x80#8 = 0#8) (cent_reg : Int)
    (fuel : Nat) (last : ClkBuf) :
    readTwice regs cent_reg (fuel + 2) last = some (some (readClk regs cent_reg)) := by
  have wait : waitUip regs CMOS_CNT 0x80#8 ≠ 0 := by
    have left : waitUip regs CMOS_CNT 0x80#8 = 0xffff - 1 := waitUip_still still 0xfffd
    rw [left]
    decide
  simp [readTwice, wait]

theorem getMc146818_still {regs : Regs} (running : regs REG_A &&& 0x60#8 = 0x20#8)
    (still : regs REG_A &&& 0x80#8 = 0#8) (cent_reg : Int) (fuel : Nat) :
    getMc146818 (fuel + 2) cent_reg regs =
      some (some (decode (regs REG_B) cent_reg (readClk regs cent_reg)), regs) := by
  simp [getMc146818, probe, running, readTwice_still still]

/-- A chip whose oscillator seems to stand, and which takes the reserved bits, is given up. -/
theorem getMc146818_stopped {regs : Regs} (stopped : regs REG_A &&& 0x60#8 = 0#8) (cent_reg : Int)
    (fuel : Nat) : getMc146818 fuel cent_reg regs = some (none, regs) := by
  have taken : (regs REG_A ||| 0x60#8) &&& 0x60#8 ≠ 0#8 := by
    have all : ∀ x : Byte, (x ||| 0x60#8) &&& 0x60#8 ≠ 0#8 := by decide
    exact all _
  simp [getMc146818, probe, stopped, taken]

/-! ## The codes -/

theorem unsigned_of_nonneg {i : Int} (low : 0 ≤ i) (high : i < 2 ^ 32) :
    (unsigned i : Int) = i := by
  simp only [unsigned, BitVec.toNat_ofInt]
  omega

theorem BCD2BIN_BIN2BCD :
    ∀ v < 100, BIN2BCD v < 256 ∧ BCD2BIN (BIN2BCD v) = v := by
  decide

theorem unlessBinary_unlessBinary {x y : Byte} (mode : y &&& BIN = x &&& BIN) {v : Nat}
    (digits : v < 100) :
    unlessBinary y BCD2BIN (unlessBinary x BIN2BCD v % 256) = v := by
  have ⟨byte, back⟩ := BCD2BIN_BIN2BCD v digits
  by_cases bcd : x &&& BIN = 0#8
  · simp [unlessBinary, mode, bcd, Nat.mod_eq_of_lt byte, back]
  · simp only [unlessBinary, mode, bcd, if_false]
    omega

theorem hours_unlessBinary {x y : Byte} (mode : y &&& BIN = x &&& BIN) {v : Nat}
    (hour : v < 24) :
    unlessBinary y (fun hours => BCD2BIN (hours &&& 0x7f)) (unlessBinary x BIN2BCD v % 256) &&&
        0x7f = v := by
  have plain : ∀ v < 24, v % 256 &&& 127 = v ∧ BCD2BIN (BIN2BCD v % 256 &&& 0x7f) &&& 0x7f = v := by
    decide
  by_cases bcd : x &&& BIN = 0#8
  · simpa [unlessBinary, mode, bcd] using (plain v hour).2
  · simpa [unlessBinary, mode, bcd] using (plain v hour).1

/-! ## The registers after `set_mc146818` -/

theorem cmos_cmosSet (i d : Nat) (regs : Regs) (j : Nat) :
    cmos (cmosSet i d regs) j = if j % 256 = i % 256 then d % 256 else cmos regs j := by
  have same : BitVec.ofNat 8 j = BitVec.ofNat 8 i ↔ j % 256 = i % 256 := by
    simp [← BitVec.toNat_inj]
  simp only [cmos, cmosSet, Function.update_apply, same]
  split <;> simp

theorem cmos_update_REG_B (regs : Regs) (b : Byte) (j : Nat) :
    cmos (Function.update regs REG_B b) j = if j % 256 = 11 then b.toNat else cmos regs j := by
  have same : BitVec.ofNat 8 j = REG_B ↔ j % 256 = 11 := by
    simp [← BitVec.toNat_inj, REG_B]
  simp only [cmos, Function.update_apply, same]
  split <;> simp

/-- Register B while the clock is held, and in which mode the time is written -/
def held (regs : Regs) : Byte := regs REG_B ||| (CLK_HOLD ||| H2412)

/-- The digits written of a number -/
def digits (regs : Regs) (i : Int) : Nat := unlessBinary (held regs) BIN2BCD (unsigned i) % 256

theorem cmos_setMc146818 (tm : Tm) (cent_reg : Int) (regs : Regs) (j : Nat) :
    cmos (setMc146818 tm cent_reg regs) j =
      if j % 256 = 11 then (held regs &&& ~~~CLK_HOLD).toNat
      else if j % 256 = 0 then digits regs tm.sec
      else if j % 256 = 2 then digits regs tm.min
      else if j % 256 = 4 then digits regs tm.hour
      else if 0 ≤ cent_reg ∧ cent_reg.toNat % 256 = j % 256 then
        digits regs (tm.year.tdiv 100 + 19)
      else if j % 256 = 9 then digits regs (tm.year.tmod 100)
      else if j % 256 = 8 then digits regs (tm.mon + 1)
      else if j % 256 = 7 then digits regs tm.mday
      else if j % 256 = 10 then ((regs REG_A &&& 0xf#8) ||| 0x20#8).toNat
      else cmos regs j := by
  have control : cmos (Function.update regs REG_A ((regs REG_A &&& 0xf#8) ||| 0x20#8)) j =
      if j % 256 = 10 then ((regs REG_A &&& 0xf#8) ||| 0x20#8).toNat else cmos regs j := by
    have same : BitVec.ofNat 8 j = REG_A ↔ j % 256 = 10 := by
      simp [← BitVec.toNat_inj, REG_A]
    simp only [cmos, Function.update_apply, same]
    split <;> simp
  have mode : Function.update regs REG_A ((regs REG_A &&& 0xf#8) ||| 0x20#8) REG_B =
      regs REG_B := Function.update_of_ne (by decide) _ _
  by_cases register : 0 ≤ cent_reg
  · simp only [setMc146818, mode, ge_iff_le, register, if_true, true_and, cmos_cmosSet,
      cmos_update_REG_B, control, held, digits]
    grind
  · simp only [setMc146818, mode, ge_iff_le, register, if_false, false_and, cmos_cmosSet,
      cmos_update_REG_B, control, held, digits]
    grind

/-! ## What is read of them -/

/-- The times of the calendar for which the years are enough, leap seconds among them -/
structure Tm.Valid (tm : Tm) : Prop where
  sec : 0 ≤ tm.sec ∧ tm.sec ≤ 61
  min : 0 ≤ tm.min ∧ tm.min < 60
  hour : 0 ≤ tm.hour ∧ tm.hour < 24
  mday : 1 ≤ tm.mday ∧ tm.mday ≤ 31
  mon : 0 ≤ tm.mon ∧ tm.mon < 12
  year : 70 ≤ tm.year ∧ tm.year ≤ 169

/-- Register B once the clock goes on: the mode of the data is kept, and the hours are 24. -/
theorem released (x : Byte) :
    (x &&& ~~~CLK_HOLD) &&& BIN = x &&& BIN ∧
      ((x ||| (CLK_HOLD ||| H2412)) &&& ~~~CLK_HOLD) &&& H2412 ≠ 0#8 := by
  have all : ∀ x : Byte, (x &&& ~~~CLK_HOLD) &&& BIN = x &&& BIN ∧
      ((x ||| (CLK_HOLD ||| H2412)) &&& ~~~CLK_HOLD) &&& H2412 ≠ 0#8 := by decide
  exact all x

theorem plain_digits (regs : Regs) {i : Int} (low : 0 ≤ i) (high : i < 100) :
    (unlessBinary (held regs &&& ~~~CLK_HOLD) BCD2BIN (digits regs i) : Int) = i := by
  have value := unsigned_of_nonneg low (by omega)
  rw [digits, unlessBinary_unlessBinary (released _).1 (by omega), value]

theorem hours_digits (regs : Regs) {i : Int} (low : 0 ≤ i) (high : i < 24) :
    ((unlessBinary (held regs &&& ~~~CLK_HOLD) (fun hours => BCD2BIN (hours &&& 0x7f))
      (digits regs i) &&& 0x7f : Nat) : Int) = i := by
  have value := unsigned_of_nonneg low (by omega)
  rw [digits, hours_unlessBinary (released _).1 (by omega), value]

theorem plain_released (regs : Regs) :
    unlessBinary (held regs &&& ~~~CLK_HOLD) BCD2BIN (held regs &&& ~~~CLK_HOLD).toNat ≠ 0 := by
  have all : ∀ x : Byte, unlessBinary ((x ||| (CLK_HOLD ||| H2412)) &&& ~~~CLK_HOLD) BCD2BIN
      ((x ||| (CLK_HOLD ||| H2412)) &&& ~~~CLK_HOLD).toNat ≠ 0 := by decide
  exact all (regs REG_B)

/-- The century is in register `i`. -/
abbrev CenturyAt (cent_reg : Int) (i : Nat) : Prop := 0 ≤ cent_reg ∧ cent_reg.toNat % 256 = i

/-- The century shares its register with a part of the time, which is zero. -/
abbrev ZeroCentury (tm : Tm) (cent_reg : Int) : Prop :=
  CenturyAt cent_reg 0 ∧ tm.sec = 0 ∨ CenturyAt cent_reg 2 ∧ tm.min = 0 ∨
    CenturyAt cent_reg 4 ∧ tm.hour = 0

theorem Tm.Valid.century {tm : Tm} (valid : tm.Valid) :
    tm.year.tdiv 100 = tm.year / 100 ∧ tm.year.tmod 100 = tm.year % 100 := by
  have nonneg : 0 ≤ tm.year := by
    have low := valid.year.1
    omega
  exact ⟨Int.tdiv_eq_ediv_of_nonneg nonneg, Int.tmod_eq_emod_of_nonneg nonneg⟩

theorem century_zero_iff {tm : Tm} (valid : tm.Valid) {cent_reg : Int} (register : 0 ≤ cent_reg)
    (regs : Regs) :
    unlessBinary (held regs &&& ~~~CLK_HOLD) BCD2BIN
        (cmos (setMc146818 tm cent_reg regs) cent_reg.toNat) = 0 ↔
      ZeroCentury tm cent_reg := by
  have ⟨sec, min, hour, mday, mon, year⟩ := valid
  have sec := plain_digits regs sec.1 (by omega)
  have min := plain_digits regs min.1 (by omega)
  have hour := plain_digits regs hour.1 (by omega)
  have cent : (unlessBinary (held regs &&& ~~~CLK_HOLD) BCD2BIN
      (digits regs (tm.year.tdiv 100 + 19)) : Int) = tm.year / 100 + 19 := by
    rw [valid.century.1]
    exact plain_digits regs (by omega) (by omega)
  have own := plain_released regs
  rw [cmos_setMc146818]
  simp only [register, true_and, ZeroCentury]
  split
  · omega
  split
  · omega
  split
  · omega
  split
  · omega
  · simp only [if_true]
    omega

/-- The reading after a time has been set: the century may have taken the place of the date. -/
theorem readClk_setMc146818 (tm : Tm) (cent_reg : Int) (regs : Regs) :
    readClk (setMc146818 tm cent_reg regs) cent_reg =
      { seconds := digits regs tm.sec
        minutes := digits regs tm.min
        hours := digits regs tm.hour
        day := digits regs (if CenturyAt cent_reg 7 then tm.year.tdiv 100 + 19 else tm.mday)
        month :=
          digits regs (if CenturyAt cent_reg 8 then tm.year.tdiv 100 + 19 else tm.mon + 1)
        year :=
          digits regs (if CenturyAt cent_reg 9 then tm.year.tdiv 100 + 19 else tm.year.tmod 100)
        century :=
          if cent_reg ≥ 0 then cmos (setMc146818 tm cent_reg regs) cent_reg.toNat else 0 } := by
  have written := cmos_setMc146818 tm cent_reg regs
  simp only [readClk, ClkBuf.mk.injEq, and_true, apply_ite (digits regs)]
  refine ⟨?_, ?_, ?_, ?_, ?_, ?_⟩
  · simp [written 0]
  · simp [written 2]
  · simp [written 4]
  · simp [written 7]
  · simp [written 8]
  · simp [written 9]

theorem decode_readClk {tm : Tm} (valid : tm.Valid) (cent_reg : Int) (regs : Regs) :
    decode (held regs &&& ~~~CLK_HOLD) cent_reg
        (readClk (setMc146818 tm cent_reg regs) cent_reg) =
      { sec := tm.sec
        min := tm.min
        hour := tm.hour
        mday := if CenturyAt cent_reg 7 then tm.year / 100 + 19 else tm.mday
        mon := if CenturyAt cent_reg 8 then tm.year / 100 + 18 else tm.mon
        year :=
          if 0 ≤ cent_reg then
            (if CenturyAt cent_reg 9 then tm.year / 100 + 19 else tm.year % 100) +
              if ZeroCentury tm cent_reg then 0 else 100
          else tm.year } := by
  have ⟨sec, min, hour, mday, mon, year⟩ := valid
  have sec := plain_digits regs sec.1 (by omega)
  have min := plain_digits regs min.1 (by omega)
  have hour := hours_digits regs hour.1 (by omega)
  have ⟨century, years⟩ := valid.century
  have day := plain_digits regs
    (i := if CenturyAt cent_reg 7 then tm.year.tdiv 100 + 19 else tm.mday)
    (by split <;> omega) (by split <;> omega)
  have month := plain_digits regs
    (i := if CenturyAt cent_reg 8 then tm.year.tdiv 100 + 19 else tm.mon + 1)
    (by split <;> omega) (by split <;> omega)
  have years := plain_digits regs
    (i := if CenturyAt cent_reg 9 then tm.year.tdiv 100 + 19 else tm.year.tmod 100)
    (by split <;> omega) (by split <;> omega)
  have always24 : (held regs &&& ~~~CLK_HOLD) &&& H2412 ≠ 0#8 := (released (regs REG_B)).2
  rw [readClk_setMc146818, decode]
  simp only [sec, min, hour, day, month, years, always24, false_and, if_false]
  by_cases register : 0 ≤ cent_reg
  · have zero := century_zero_iff valid register regs
    simp only [register, zero, if_true, ne_eq, Tm.mk.injEq, true_and]
    refine ⟨?_, ?_⟩
    · split <;> omega
    · grind
  · simp only [register, if_false, CenturyAt, false_and]
    rw [Tm.mk.injEq]
    grind

/-! ## The round trip -/

/-- The times that come back. The year does where the century that is read is zero before 2000 and
not after; in a register of the date, or in register A, the century takes the place of what is
there. -/
def ComesBack (tm : Tm) (cent_reg : Int) (regs : Regs) : Prop :=
  cent_reg < 0 ∨
    match cent_reg.toNat % 256 with
    | 0 => tm.sec ≠ 0 ↔ 100 ≤ tm.year
    | 2 => tm.min ≠ 0 ↔ 100 ≤ tm.year
    | 4 => tm.hour ≠ 0 ↔ 100 ≤ tm.year
    | 7 => 100 ≤ tm.year ∧ tm.mday = 20
    | 8 => False
    | 9 => tm.year = 120
    | 10 => 100 ≤ tm.year ∧ regs REG_B &&& BIN = 0#8
    | _ => 100 ≤ tm.year

theorem setMc146818_REG_A (tm : Tm) (cent_reg : Int) (regs : Regs) :
    (setMc146818 tm cent_reg regs REG_A).toNat =
      if CenturyAt cent_reg 10 then digits regs (tm.year.tdiv 100 + 19)
      else ((regs REG_A &&& 0xf#8) ||| 0x20#8).toNat := by
  have written := cmos_setMc146818 tm cent_reg regs 10
  simp only [Nat.reduceMod, Nat.reduceEqDiff, if_false, if_true] at written
  exact written

theorem running_REG_A {cent_reg : Int} (elsewhere : ¬ CenturyAt cent_reg 10) (tm : Tm)
    (regs : Regs) :
    setMc146818 tm cent_reg regs REG_A &&& 0x60#8 = 0x20#8 ∧
      setMc146818 tm cent_reg regs REG_A &&& 0x80#8 = 0#8 := by
  have all : ∀ x : Byte, ((x &&& 0xf#8) ||| 0x20#8) &&& 0x60#8 = 0x20#8 ∧
      ((x &&& 0xf#8) ||| 0x20#8) &&& 0x80#8 = 0#8 := by decide
  have register := setMc146818_REG_A tm cent_reg regs
  rw [if_neg elsewhere] at register
  rw [BitVec.eq_of_toNat_eq register]
  exact all (regs REG_A)

/-- The century in register A: 20 in BCD looks like a clock that runs, and nothing else does. -/
theorem century_REG_A {tm : Tm} (valid : tm.Valid) {cent_reg : Int}
    (shared : CenturyAt cent_reg 10) (regs : Regs) :
    if 100 ≤ tm.year ∧ regs REG_B &&& BIN = 0#8 then
      setMc146818 tm cent_reg regs REG_A &&& 0x60#8 = 0x20#8 ∧
        setMc146818 tm cent_reg regs REG_A &&& 0x80#8 = 0#8
    else setMc146818 tm cent_reg regs REG_A &&& 0x60#8 = 0#8 := by
  have register := setMc146818_REG_A tm cent_reg regs
  rw [if_pos shared, valid.century.1] at register
  have mode : held regs &&& BIN = regs REG_B &&& BIN := by
    have all : ∀ x : Byte, (x ||| (CLK_HOLD ||| H2412)) &&& BIN = x &&& BIN := by decide
    exact all (regs REG_B)
  have ⟨low, high⟩ := valid.year
  by_cases late : 100 ≤ tm.year
  · rw [show tm.year / 100 + 19 = 20 by omega, digits, unlessBinary, mode] at register
    by_cases bcd : regs REG_B &&& BIN = 0#8
    · rw [if_pos bcd] at register
      rw [if_pos ⟨late, bcd⟩, BitVec.eq_of_toNat_eq (y := 0x20#8) register]
      decide
    · rw [if_neg bcd] at register
      rw [if_neg (bcd ·.2), BitVec.eq_of_toNat_eq (y := 0x14#8) register]
      decide
  · rw [show tm.year / 100 + 19 = 19 by omega, digits, unlessBinary, mode] at register
    rw [if_neg (late ·.1)]
    by_cases bcd : regs REG_B &&& BIN = 0#8
    · rw [if_pos bcd] at register
      rw [BitVec.eq_of_toNat_eq (y := 0x19#8) register]
      decide
    · rw [if_neg bcd] at register
      rw [BitVec.eq_of_toNat_eq (y := 0x13#8) register]
      decide

theorem decode_eq_iff {tm : Tm} (valid : tm.Valid) {cent_reg : Int} {regs : Regs}
    (runs : CenturyAt cent_reg 10 → 100 ≤ tm.year ∧ regs REG_B &&& BIN = 0#8) :
    decode (held regs &&& ~~~CLK_HOLD) cent_reg
        (readClk (setMc146818 tm cent_reg regs) cent_reg) = tm ↔
      ComesBack tm cent_reg regs := by
  have ⟨sec, min, hour, mday, mon, year⟩ := valid
  rw [decode_readClk valid, ComesBack]
  cases tm with
  | mk s m h d mo y =>
    simp only [Tm.mk.injEq, true_and] at *
    by_cases register : 0 ≤ cent_reg
    · have present : ¬ cent_reg < 0 := not_lt.mpr register
      simp only [register, present, true_and, false_or, if_true, CenturyAt, ZeroCentury] at *
      generalize cent_reg.toNat % 256 = c at *
      match c with
      | 0 => simp; omega
      | 2 => simp; omega
      | 4 => simp; omega
      | 7 => simp; omega
      | 8 => simp; omega
      | 9 => simp; omega
      | 10 => simp [runs]; omega
      | 1 | 3 | 5 | 6 => simp; omega
      | n + 11 => simp; omega
    · have absent : cent_reg < 0 := not_le.mp register
      simp [register, absent, CenturyAt]

/-- The times that come back, however often the loop may go round -/
theorem setGet_iff {tm : Tm} (valid : tm.Valid) (cent_reg : Int) (regs : Regs) (fuel : Nat) :
    (getMc146818 (fuel + 2) cent_reg (setMc146818 tm cent_reg regs)).map Prod.fst =
        some (some tm) ↔
      ComesBack tm cent_reg regs := by
  have modes : setMc146818 tm cent_reg regs REG_B = held regs &&& ~~~CLK_HOLD :=
    BitVec.eq_of_toNat_eq (cmos_setMc146818 tm cent_reg regs 11)
  by_cases shared : CenturyAt cent_reg 10
  · have century := century_REG_A valid shared regs
    split at century
    case isTrue runs =>
      rw [getMc146818_still century.1 century.2, modes, Option.map_some, Option.some_inj,
        Option.some_inj]
      exact decode_eq_iff valid fun _ => runs
    case isFalse stands =>
      rw [getMc146818_stopped century]
      simp [ComesBack, shared.2, stands]
      omega
  · have ⟨running, still⟩ := running_REG_A shared tm regs
    rw [getMc146818_still running still, modes, Option.map_some, Option.some_inj,
      Option.some_inj]
    exact decode_eq_iff valid fun here => absurd here shared

/-- The first second of 2000 comes back with the century in register 50. -/
theorem setGet_2000 :
    (getMc146818 2 50 (setMc146818 ⟨0, 0, 0, 1, 0, 100⟩ 50 fun _ => 0)).map Prod.fst =
      some (some ⟨0, 0, 0, 1, 0, 100⟩) := by
  have valid : (⟨0, 0, 0, 1, 0, 100⟩ : Tm).Valid := by constructor <;> decide
  exact (setGet_iff valid 50 _ 0).mpr (Or.inr (le_refl (100 : Int)))

/-- The second before it is read as one of 2099. -/
theorem setGet_wrong :
    (⟨59, 59, 23, 31, 11, 99⟩ : Tm).Valid ∧
      (getMc146818 2 50 (setMc146818 ⟨59, 59, 23, 31, 11, 99⟩ 50 fun _ => 0)).map Prod.fst =
        some (some ⟨59, 59, 23, 31, 11, 199⟩) :=
  ⟨by constructor <;> decide, by decide⟩

end Mx6xBsp.Rtc.Mc146818
