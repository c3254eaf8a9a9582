import Mathlib.Algebra.Order.Field.Rat
import Mathlib.Tactic.FieldSimp
import Mathlib.Tactic.Linarith
import Mathlib.Tactic.Positivity
import Mathlib.Tactic.Ring

/-!
# The compensation of the timestamp clock

`mx6q_ptp_set_compensation` asks the timer to gain or lose `comp` nanoseconds a second. On every
tick the timer adds the increment, and once in a correction period the correction increment in its
place. The increment and the period are found by trying every increment up to that of a tick.
`setCompensation_iff` tells which requests the timer then follows: those below the frequency, as
long as the increments fit into their fields.
-/

namespace Mx6xBsp.Devnp.PtpCompensation

def MX6Q_TIMER_INCR_MASK : Nat := 0x7f
def MX6Q_TIMER_INCR_CORR_OFF : Nat := 8

/-- `mx6q_clock_period` in nanoseconds and `mx6q_clock_freq` in Hz, one of which
`mx6q_ptp_start` works out from the other: the period from the frequency of an option, or the
frequency from the period calibrated -/
structure Clock where
  period : Nat
  freq : Nat
  set : (0 < freq ∧ freq < 2 ^ 32 ∧ period = 10 ^ 9 / freq) ∨
    (0 < period ∧ period < 2 ^ 32 ∧ freq = 10 ^ 9 / period)

/-- `ptp_comp_t` -/
structure PtpComp where
  comp : UInt32
  positive : UInt8

/-- The two registers that are written -/
structure Registers where
  incr : Nat
  corr : Nat
  deriving DecidableEq

inductive Outcome where
  /-- too big, ignored -/
  | refused
  | dividedByZero
  | written (registers : Registers)
  deriving DecidableEq

/-! ## `mx6q_ptp_set_compensation` -/

/-- The best correction so far -/
structure Best where
  incCor : Nat
  corPeriod : Nat
  minErr : Nat
  deriving DecidableEq

/-- The loop over the increments from `i` on, of which `n` are left. Nothing comes back from a
division by zero. -/
def findBest (freq remOffset comp : Nat) : Nat → Nat → Best → Option Best
  | 0, _, best => some best
  | n + 1, i, best =>
    if remOffset = 0 then none
    else
      let testPeriod := freq * i % 2 ^ 32 / remOffset
      if testPeriod = 0 then none
      else
        let testOffset := freq * i % 2 ^ 32 / testPeriod
        -- Integer division so never too small
        let err := (testOffset + 2 ^ 32 - comp) % 2 ^ 32
        if err = 0 then some ⟨i, testPeriod, err⟩
        else if err < best.minErr then findBest freq remOffset comp n (i + 1) ⟨i, testPeriod, err⟩
        else findBest freq remOffset comp n (i + 1) best

/-- The base increment. In the inner `if` the amount stands for the sign. -/
def baseIncrement (clock : Clock) (comp : Nat) : Nat :=
  if comp ≥ clock.freq then
    if comp ≠ 0 then (clock.period + comp / clock.freq) % 2 ^ 32
    else (clock.period + 2 ^ 32 - comp / clock.freq) % 2 ^ 32
  else clock.period

/-- What is written with the correction found -/
def correct (positive : UInt8) (inc : Nat) (best : Best) : Registers :=
  let incCor :=
    if positive ≠ 0 then (inc + best.incCor) % 2 ^ 32 else (inc + 2 ^ 32 - best.incCor) % 2 ^ 32
  ⟨inc ||| incCor <<< MX6Q_TIMER_INCR_CORR_OFF % 2 ^ 32, best.corPeriod⟩

def setCompensation (clock : Clock) (ptc : PtpComp) : Outcome :=
  let comp := ptc.comp.toNat
  -- Reset back to default
  if comp = 0 then .written ⟨clock.period, 0⟩
  else if clock.freq = 0 then .dividedByZero
  -- Allow a frequency swing of up to half our clock
  else if comp / clock.freq > clock.freq / 2 then .refused
  else
    let inc := baseIncrement clock comp
    let remOffset := comp - comp / clock.freq
    match findBest clock.freq remOffset comp inc 1 ⟨inc, 0, 2 ^ 32 - 1⟩ with
    | none => .dividedByZero
    | some best => .written (correct ptc.positive inc best)

/-! ## What the timer makes of it -/

/-- The increment of a tick -/
def Registers.inc (r : Registers) : Nat := r.incr &&& MX6Q_TIMER_INCR_MASK

/-- The increment of a tick with a correction -/
def Registers.incCorr (r : Registers) : Nat :=
  (r.incr >>> MX6Q_TIMER_INCR_CORR_OFF) &&& MX6Q_TIMER_INCR_MASK

/-- What the timer gains a second against `freq` ticks of `period` nanoseconds, with one of `cor`
ticks corrected, and none where `cor` is zero -/
def offset (clock : Clock) (r : Registers) (cor : Nat) : ℚ :=
  clock.freq * r.inc + clock.freq / cor * (r.incCorr - r.inc) - clock.freq * clock.period

/-- What it should gain -/
def PtpComp.requested (ptc : PtpComp) : ℚ :=
  if ptc.positive ≠ 0 then ptc.comp.toNat else -ptc.comp.toNat

/-- The timer gains if it should and loses if it should, and what was requested lies between this
period and one of a tick more, or is exact where nothing is corrected. -/
structure Realises (clock : Clock) (ptc : PtpComp) (r : Registers) : Prop where
  gains : 0 < ptc.requested → 0 < offset clock r r.corr
  loses : ptc.requested < 0 → offset clock r r.corr < 0
  near : if r.corr = 0 then offset clock r 0 = ptc.requested
    else min (offset clock r r.corr) (offset clock r (r.corr + 1)) ≤ ptc.requested ∧
      ptc.requested ≤ max (offset clock r r.corr) (offset clock r (r.corr + 1))

/-- The check lets the request through. -/
def Accepts (clock : Clock) (ptc : PtpComp) : Prop :=
  ptc.comp = 0 ∨ clock.freq ≠ 0 ∧ ptc.comp.toNat / clock.freq ≤ clock.freq / 2

/-- What a correction by `i` gains too much, with the longest period that is enough -/
def excess (freq comp i : Nat) : Nat := freq * i / (freq * i / comp) - comp

/-- The sum of the two increments fits into the field of the second for one that is as good as any
for which it does not. -/
def Fits (clock : Clock) (comp : Nat) : Prop :=
  ∃ i, 0 < i ∧ clock.period + i ≤ MX6Q_TIMER_INCR_MASK ∧
    ∀ j ≤ clock.period, MX6Q_TIMER_INCR_MASK < clock.period + j →
      excess clock.freq comp i ≤ excess clock.freq comp j

/-- The requests that the timer can be made to follow -/
def Follows (clock : Clock) (ptc : PtpComp) : Prop :=
  if ptc.comp = 0 then clock.freq = 0 ∨ clock.period ≤ MX6Q_TIMER_INCR_MASK
  else ptc.comp.toNat < clock.freq ∧ 0 < clock.period ∧ clock.period ≤ MX6Q_TIMER_INCR_MASK ∧
    (ptc.positive = 0 ∨ Fits clock ptc.comp.toNat)

/-! ## The clock -/

theorem Clock.product_le (clock : Clock) : clock.freq * clock.period ≤ 10 ^ 9 := by
  rcases clock.set with ⟨-, -, period⟩ | ⟨-, -, freq⟩
  · rw [period]
    exact Nat.mul_div_le _ _
  · rw [freq]
    exact Nat.div_mul_le_self _ _

theorem Clock.freq_lt (clock : Clock) : clock.freq < 2 ^ 32 := by
  rcases clock.set with ⟨-, word, -⟩ | ⟨-, -, freq⟩
  · exact word
  · have le : 10 ^ 9 / clock.period ≤ 10 ^ 9 := Nat.div_le_self _ _
    omega

/-! ## The search -/

section Search

variable {freq comp i n : Nat} {best : Best}

/-- What was found among the increments below `i`: the first with the least excess -/
structure Least (freq comp i : Nat) (best : Best) : Prop where
  pos : 0 < best.incCor
  below : best.incCor < i
  period : best.corPeriod = freq * best.incCor / comp
  err : best.minErr = excess freq comp best.incCor
  least : ∀ j, 0 < j → j < i → excess freq comp best.incCor ≤ excess freq comp j
  first : ∀ j, 0 < j → j < best.incCor → excess freq comp best.incCor < excess freq comp j

theorem period_pos (pos : 0 < comp) (less : comp < freq) (pos' : 0 < i) : 0 < freq * i / comp := by
  have le : freq ≤ freq * i := Nat.le_mul_of_pos_right _ pos'
  exact Nat.div_pos (less.le.trans le) pos

theorem comp_le_offset (pos : 0 < comp) (less : comp < freq) (pos' : 0 < i) :
    comp ≤ freq * i / (freq * i / comp) := by
  rw [Nat.le_div_iff_mul_le (period_pos pos less pos')]
  exact Nat.mul_div_le _ _

theorem findBest_round (pos : 0 < comp) (less : comp < freq) (pos' : 0 < i)
    (fits : freq * i < 2 ^ 32) :
    findBest freq comp comp (n + 1) i best =
      if excess freq comp i = 0 then some ⟨i, freq * i / comp, excess freq comp i⟩
      else if excess freq comp i < best.minErr then
        findBest freq comp comp n (i + 1) ⟨i, freq * i / comp, excess freq comp i⟩
      else findBest freq comp comp n (i + 1) best := by
  have enough := comp_le_offset pos less pos'
  have word : freq * i / (freq * i / comp) < 2 ^ 32 := (Nat.div_le_self _ _).trans_lt fits
  have err : (freq * i / (freq * i / comp) + 2 ^ 32 - comp) % 2 ^ 32 = excess freq comp i := by
    unfold excess
    omega
  rw [findBest, if_neg pos.ne', Nat.mod_eq_of_lt fits]
  dsimp only
  rw [if_neg (period_pos pos less pos').ne', err]

theorem Least.exact (pos : 0 < i) (more : ∀ j, 0 < j → j < i → 0 < excess freq comp j)
    (none_ : excess freq comp i = 0) :
    Least freq comp (i + (n + 1)) ⟨i, freq * i / comp, excess freq comp i⟩ where
  pos := pos
  below := by dsimp only; omega
  period := rfl
  err := rfl
  least j _ _ := by
    dsimp only
    omega
  first j pos' before := by
    dsimp only at before ⊢
    rw [none_]
    exact more j pos' before

theorem Least.better (found : Least freq comp i best) (better : excess freq comp i < best.minErr) :
    Least freq comp (i + 1) ⟨i, freq * i / comp, excess freq comp i⟩ where
  pos := found.pos.trans found.below
  below := Nat.lt_succ_self i
  period := rfl
  err := rfl
  least j pos' before := by
    dsimp only
    rcases Nat.lt_succ_iff_lt_or_eq.mp before with less | rfl
    · rw [found.err] at better
      exact better.le.trans (found.least j pos' less)
    · exact Nat.le_refl _
  first j pos' before := by
    dsimp only at before ⊢
    rw [found.err] at better
    exact better.trans_le (found.least j pos' before)

theorem Least.kept (found : Least freq comp i best) (worse : ¬ excess freq comp i < best.minErr) :
    Least freq comp (i + 1) best := by
  refine ⟨found.pos, found.below.trans (Nat.lt_succ_self i), found.period, found.err, ?_,
    found.first⟩
  intro j pos' before
  rcases Nat.lt_succ_iff_lt_or_eq.mp before with less | rfl
  · exact found.least j pos' less
  · rw [← found.err]
    exact Nat.not_lt.mp worse

theorem findBest_least (pos : 0 < comp) (less : comp < freq) (fits : freq * (i + n) < 2 ^ 32 + freq)
    (found : Least freq comp i best) (more : ∀ j, 0 < j → j < i → 0 < excess freq comp j) :
    ∃ best', findBest freq comp comp n i best = some best' ∧ Least freq comp (i + n) best' := by
  induction n generalizing i best with
  | zero => exact ⟨best, rfl, found⟩
  | succ n ih =>
    have pos' : 0 < i := found.pos.trans found.below
    have within : freq * i + freq ≤ freq * (i + (n + 1)) := by
      rw [← Nat.mul_succ]
      exact Nat.mul_le_mul_left _ (by omega)
    rw [findBest_round pos less pos' (by omega)]
    by_cases none_ : excess freq comp i = 0
    · rw [if_pos none_]
      exact ⟨_, rfl, Least.exact pos' more none_⟩
    · have more' : ∀ j, 0 < j → j < i + 1 → 0 < excess freq comp j := by
        intro j above before
        rcases Nat.lt_succ_iff_lt_or_eq.mp before with below | rfl
        · exact more j above below
        · exact Nat.pos_of_ne_zero none_
      rw [if_neg none_, Nat.add_comm n 1, ← Nat.add_assoc] at *
      by_cases better : excess freq comp i < best.minErr
      · rw [if_pos better]
        exact ih fits (found.better better) more'
      · rw [if_neg better]
        exact ih fits (found.kept better) more'

theorem findBest_some (pos : 0 < comp) (less : comp < freq) (word : freq < 2 ^ 32) {inc : Nat}
    (pos' : 0 < inc) (fits : freq * inc < 2 ^ 32) :
    ∃ best, findBest freq comp comp inc 1 ⟨inc, 0, 2 ^ 32 - 1⟩ = some best ∧
      Least freq comp (inc + 1) best := by
  obtain ⟨n, rfl⟩ : ∃ n, inc = n + 1 := ⟨inc - 1, by omega⟩
  have room : freq * 1 < 2 ^ 32 := by omega
  have none_before : ∀ j, 0 < j → j < 1 → 0 < excess freq comp j := by
    intro j above before
    omega
  rw [findBest_round pos less Nat.one_pos room]
  by_cases none_ : excess freq comp 1 = 0
  · rw [if_pos none_, Nat.add_comm (n + 1) 1]
    exact ⟨_, rfl, Least.exact Nat.one_pos none_before none_⟩
  · have small : excess freq comp 1 < 2 ^ 32 - 1 := by
      have le : freq * 1 / (freq * 1 / comp) ≤ freq * 1 := Nat.div_le_self _ _
      unfold excess
      omega
    have found : Least freq comp 2 ⟨1, freq * 1 / comp, excess freq comp 1⟩ := by
      refine ⟨Nat.one_pos, Nat.one_lt_two, rfl, rfl, fun j above before => ?_,
        fun j above before => ?_⟩
      · have one : j = 1 := by omega
        rw [one]
      · dsimp only at before
        omega
    rw [if_neg none_, if_pos small]
    obtain ⟨best, ends, least⟩ := findBest_least (n := n) pos less
      (by rw [Nat.add_comm 2 n, Nat.mul_succ]; omega) found fun j above before => by
        have one : j = 1 := by omega
        rw [one]
        exact Nat.pos_of_ne_zero none_
    exact ⟨best, ends, by rw [Nat.add_assoc, Nat.add_comm n]; exact least⟩

end Search

/-! ## The registers -/

theorem and_mask (n : Nat) : n &&& MX6Q_TIMER_INCR_MASK = n % 128 :=
  Nat.and_two_pow_sub_one_eq_mod n 7

theorem Registers.inc_lt (r : Registers) : r.inc < 128 := by
  unfold Registers.inc
  rw [and_mask]
  exact Nat.mod_lt _ (by decide)

theorem Registers.incCorr_lt (r : Registers) : r.incCorr < 128 := by
  unfold Registers.incCorr
  rw [and_mask]
  exact Nat.mod_lt _ (by decide)

theorem read_back {inc incCor : Nat} (cor : Nat) (low : inc < 256) (high : incCor < 2 ^ 24) :
    let r : Registers := ⟨inc ||| incCor <<< MX6Q_TIMER_INCR_CORR_OFF % 2 ^ 32, cor⟩
    r.inc = inc % 128 ∧ r.incCorr = incCor % 128 := by
  have shifted : incCor <<< MX6Q_TIMER_INCR_CORR_OFF % 2 ^ 32 = incCor * 256 := by
    unfold MX6Q_TIMER_INCR_CORR_OFF
    rw [Nat.shiftLeft_eq]
    omega
  have sum : inc ||| incCor * 256 = incCor * 256 + inc := by
    have joined := Nat.shiftLeft_add_eq_or_of_lt (i := 8) low incCor
    rw [Nat.shiftLeft_eq] at joined
    rw [Nat.or_comm]
    exact joined.symm
  dsimp only
  unfold Registers.inc Registers.incCorr
  dsimp only
  rw [shifted, sum, and_mask, and_mask]
  unfold MX6Q_TIMER_INCR_CORR_OFF
  rw [Nat.shiftRight_eq_div_pow]
  omega

section Timer

variable {clock : Clock} {ptc : PtpComp} {r : Registers}

theorem offset_le (clock : Clock) (r : Registers) (cor : Nat) :
    offset clock r cor ≤ clock.freq * (127 - clock.period) := by
  have inc_le : (r.inc : ℚ) ≤ 127 := by exact_mod_cast Nat.le_of_lt_succ r.inc_lt
  have incCorr_le : (r.incCorr : ℚ) ≤ 127 := by exact_mod_cast Nat.le_of_lt_succ r.incCorr_lt
  have freq_nonneg : (0 : ℚ) ≤ clock.freq := Nat.cast_nonneg _
  unfold offset
  rcases Nat.eq_zero_or_pos cor with rfl | pos
  · rw [Nat.cast_zero, div_zero, zero_mul, add_zero, ← mul_sub]
    exact mul_le_mul_of_nonneg_left (by linarith) freq_nonneg
  · have once : (1 : ℚ) ≤ cor := by exact_mod_cast pos
    have part : clock.freq / (cor : ℚ) ≤ clock.freq := div_le_self freq_nonneg once
    have part_nonneg : 0 ≤ clock.freq / (cor : ℚ) := div_nonneg freq_nonneg (Nat.cast_nonneg _)
    have corrected : clock.freq / (cor : ℚ) * r.incCorr ≤ clock.freq / (cor : ℚ) * 127 :=
      mul_le_mul_of_nonneg_left incCorr_le part_nonneg
    have rest : (clock.freq - clock.freq / (cor : ℚ)) * r.inc ≤
        (clock.freq - clock.freq / (cor : ℚ)) * 127 :=
      mul_le_mul_of_nonneg_left inc_le (sub_nonneg.mpr part)
    linarith

theorem Realises.requested_le (realises : Realises clock ptc r) :
    ptc.requested ≤ clock.freq * (127 - clock.period) := by
  have near := realises.near
  by_cases off : r.corr = 0
  · rw [if_pos off] at near
    rw [← near]
    exact offset_le clock r 0
  · rw [if_neg off] at near
    exact near.2.trans (max_le (offset_le clock r _) (offset_le clock r _))

theorem realises_of_incCorr {i : Nat} (sign : ℚ) (pos : 0 < ptc.comp.toNat)
    (less : ptc.comp.toNat < clock.freq) (pos' : 0 < i) (inc : r.inc = clock.period)
    (incCorr : (r.incCorr : ℚ) = clock.period + sign * i)
    (corr : r.corr = clock.freq * i / ptc.comp.toNat) (one : sign = 1 ∨ sign = -1)
    (requested : ptc.requested = sign * ptc.comp.toNat) : Realises clock ptc r := by
  have corr_pos : 0 < r.corr := by
    rw [corr]
    exact period_pos pos less pos'
  have divisor : (0 : ℚ) < r.corr := by exact_mod_cast corr_pos
  have gain (cor : Nat) : offset clock r cor = sign * (clock.freq * i / cor) := by
    unfold offset
    rw [inc, incCorr]
    ring
  have freq_pos : (0 : ℚ) < clock.freq := by exact_mod_cast pos.trans less
  have i_pos : (0 : ℚ) < i := by exact_mod_cast pos'
  have much : (ptc.comp.toNat : ℚ) ≤ clock.freq * i / r.corr := by
    rw [le_div_iff₀ divisor, corr]
    exact_mod_cast Nat.mul_div_le _ _
  have little : clock.freq * i / ((r.corr + 1 : Nat) : ℚ) ≤ ptc.comp.toNat := by
    have next : clock.freq * i ≤ ptc.comp.toNat * (r.corr + 1) := by
      rw [corr]
      exact (Nat.lt_mul_div_succ _ pos).le
    rw [div_le_iff₀ (by exact_mod_cast Nat.succ_pos r.corr)]
    exact_mod_cast next
  have gain_pos : 0 < (clock.freq * i / r.corr : ℚ) := div_pos (mul_pos freq_pos i_pos) divisor
  have comp_pos : (0 : ℚ) < ptc.comp.toNat := by exact_mod_cast pos
  rcases one with rfl | rfl
  · refine ⟨fun _ => ?_, fun negative => ?_, ?_⟩
    · rw [gain, one_mul]
      exact gain_pos
    · rw [requested] at negative
      linarith
    · rw [if_neg corr_pos.ne', gain, gain, requested, one_mul, one_mul, one_mul]
      exact ⟨(min_le_right _ _).trans little, much.trans (le_max_left _ _)⟩
  · refine ⟨fun positive => ?_, fun _ => ?_, ?_⟩
    · rw [requested] at positive
      linarith
    · rw [gain]
      linarith
    · rw [if_neg corr_pos.ne', gain, gain, requested]
      refine ⟨(min_le_left _ _).trans ?_, le_trans ?_ (le_max_right _ _)⟩
      · linarith
      · linarith

end Timer

/-! ## Requests below the frequency -/

section Below

variable {clock : Clock} {ptc : PtpComp}

theorem written_of_less (pos : 0 < ptc.comp.toNat) (less : ptc.comp.toNat < clock.freq)
    (pos' : 0 < clock.period) :
    ∃ best, Least clock.freq ptc.comp.toNat (clock.period + 1) best ∧
      setCompensation clock ptc = .written (correct ptc.positive clock.period best) := by
  have fits : clock.freq * clock.period < 2 ^ 32 := clock.product_le.trans_lt (by decide)
  obtain ⟨best, ends, least⟩ := findBest_some pos less clock.freq_lt pos' fits
  have base : baseIncrement clock ptc.comp.toNat = clock.period := if_neg (Nat.not_le.mpr less)
  refine ⟨best, least, ?_⟩
  unfold setCompensation
  dsimp only
  rw [if_neg pos.ne', if_neg (by omega), Nat.div_eq_of_lt less, if_neg (Nat.not_lt_zero _), base,
    Nat.sub_zero, ends]

theorem setCompensation_none (pos : 0 < ptc.comp.toNat) (less : ptc.comp.toNat < clock.freq)
    (none_ : clock.period = 0) : setCompensation clock ptc = .written ⟨0, 0⟩ := by
  have base : baseIncrement clock ptc.comp.toNat = 0 :=
    (if_neg (Nat.not_le.mpr less)).trans none_
  have nothing : correct ptc.positive 0 ⟨0, 0, 2 ^ 32 - 1⟩ = ⟨0, 0⟩ := by
    unfold correct
    by_cases positive : ptc.positive ≠ 0
    · rw [if_pos positive]
      rfl
    · rw [if_neg positive]
      rfl
  unfold setCompensation
  dsimp only
  rw [if_neg pos.ne', if_neg (by omega), Nat.div_eq_of_lt less, if_neg (Nat.not_lt_zero _), base]
  exact congrArg Outcome.written nothing

theorem requested_pos (positive : ptc.positive ≠ 0) : ptc.requested = ptc.comp.toNat :=
  if_pos positive

theorem requested_neg (negative : ptc.positive = 0) : ptc.requested = -ptc.comp.toNat :=
  if_neg (not_not_intro negative)

variable {best : Best}

theorem correct_pos (positive : ptc.positive ≠ 0) (low : clock.period < 128)
    (below : best.incCor ≤ clock.period) :
    (correct ptc.positive clock.period best).inc = clock.period ∧
      (correct ptc.positive clock.period best).incCorr = (clock.period + best.incCor) % 128 := by
  have sum : (clock.period + best.incCor) % 2 ^ 32 = clock.period + best.incCor :=
    Nat.mod_eq_of_lt (by omega)
  have low' : clock.period < 256 := by omega
  have high : clock.period + best.incCor < 2 ^ 24 := by omega
  have fields := read_back best.corPeriod low' high
  rw [Nat.mod_eq_of_lt low] at fields
  unfold correct
  rw [if_pos positive, sum]
  exact fields

theorem correct_neg (negative : ptc.positive = 0) (low : clock.period < 128)
    (below : best.incCor ≤ clock.period) :
    (correct ptc.positive clock.period best).inc = clock.period ∧
      (correct ptc.positive clock.period best).incCorr = clock.period - best.incCor := by
  have difference : (clock.period + 2 ^ 32 - best.incCor) % 2 ^ 32 =
      clock.period - best.incCor := by
    omega
  have low' : clock.period < 256 := by omega
  have high : clock.period - best.incCor < 2 ^ 24 := by omega
  have fields := read_back best.corPeriod low' high
  rw [Nat.mod_eq_of_lt low,
    Nat.mod_eq_of_lt (by omega : clock.period - best.incCor < 128)] at fields
  unfold correct
  rw [if_neg (not_not_intro negative), difference]
  exact fields

theorem Least.fits_iff {comp : Nat} (found : Least clock.freq comp (clock.period + 1) best) :
    clock.period + best.incCor ≤ MX6Q_TIMER_INCR_MASK ↔ Fits clock comp := by
  constructor
  · intro fits
    exact ⟨best.incCor, found.pos, fits, fun j below above =>
      found.least j (by omega) (by omega)⟩
  · rintro ⟨i, pos, fits, good⟩
    by_contra beyond
    have below := found.below
    have better := found.first i pos (by omega)
    have worse := good best.incCor (by omega) (by omega)
    omega

theorem realises_below (pos : 0 < ptc.comp.toNat) (less : ptc.comp.toNat < clock.freq) :
    (∃ r, setCompensation clock ptc = .written r ∧ Realises clock ptc r) ↔
      0 < clock.period ∧ clock.period ≤ MX6Q_TIMER_INCR_MASK ∧
        (ptc.positive = 0 ∨ Fits clock ptc.comp.toNat) := by
  have comp_pos : (0 : ℚ) < ptc.comp.toNat := by exact_mod_cast pos
  have below : (ptc.comp.toNat : ℚ) < clock.freq := by exact_mod_cast less
  rcases Nat.eq_zero_or_pos clock.period with none_ | pos'
  · rw [setCompensation_none pos less none_]
    refine iff_of_false ?_ fun ⟨pos', _⟩ => absurd none_ pos'.ne'
    rintro ⟨r, written, realises⟩
    cases written
    have still : offset clock ⟨0, 0⟩ 0 = 0 := by
      unfold offset Registers.inc Registers.incCorr
      rw [none_]
      norm_num
    have near := realises.near
    rw [if_pos rfl, still] at near
    by_cases positive : ptc.positive = 0
    · rw [requested_neg positive] at near
      linarith
    · rw [requested_pos positive] at near
      linarith
  · obtain ⟨best, found, written⟩ := written_of_less pos less pos'
    have mask : MX6Q_TIMER_INCR_MASK = 127 := rfl
    have within : best.incCor ≤ clock.period := Nat.le_of_lt_succ found.below
    rw [written]
    constructor
    · rintro ⟨r, same, realises⟩
      cases same
      have low : clock.period < 128 := by
        by_contra high
        have bound := realises.requested_le
        have least : -(ptc.comp.toNat : ℚ) ≤ ptc.requested := by
          by_cases positive : ptc.positive = 0
          · rw [requested_neg positive]
          · rw [requested_pos positive]
            linarith
        have far : (128 : ℚ) ≤ clock.period := by exact_mod_cast Nat.not_lt.mp high
        have freq_pos : (0 : ℚ) < clock.freq := comp_pos.trans below
        have slow : (clock.freq : ℚ) * (127 - clock.period) ≤ clock.freq * (-1) :=
          mul_le_mul_of_nonneg_left (by linarith) freq_pos.le
        linarith
      refine ⟨pos', Nat.le_of_lt_succ low, ?_⟩
      by_cases positive : ptc.positive = 0
      · exact .inl positive
      · refine .inr (found.fits_iff.mp ?_)
        by_contra beyond
        -- the sum loses its highest bit, and what should be a gain is a loss
        obtain ⟨inc, incCorr⟩ := correct_pos positive low within
        have gains := realises.gains (by rw [requested_pos positive]; exact comp_pos)
        have divisor : (0 : ℚ) ≤ clock.freq / (correct ptc.positive clock.period best).corr :=
          div_nonneg (comp_pos.trans below).le (Nat.cast_nonneg _)
        have loss : ((correct ptc.positive clock.period best).incCorr : ℚ) ≤ clock.period := by
          rw [incCorr]
          exact_mod_cast (by omega : (clock.period + best.incCor) % 128 ≤ clock.period)
        have product := mul_nonpos_of_nonneg_of_nonpos divisor (sub_nonpos.mpr loss)
        unfold offset at gains
        rw [inc] at gains
        linarith
    · rintro ⟨-, low, fits⟩
      refine ⟨_, rfl, ?_⟩
      by_cases positive : ptc.positive = 0
      · obtain ⟨inc, incCorr⟩ := correct_neg positive (by omega) within
        refine realises_of_incCorr (-1) pos less found.pos inc ?_ found.period (.inr rfl) ?_
        · rw [incCorr, Nat.cast_sub within]
          ring
        · rw [requested_neg positive]
          ring
      · have fits' := found.fits_iff.mpr (fits.resolve_left positive)
        obtain ⟨inc, incCorr⟩ := correct_pos positive (by omega) within
        refine realises_of_incCorr 1 pos less found.pos inc ?_ found.period (.inl rfl) ?_
        · rw [incCorr, Nat.mod_eq_of_lt (by omega), Nat.cast_add]
          ring
        · rw [requested_pos positive, one_mul]

end Below

/-! ## Requests from the frequency on -/

section Above

variable {clock : Clock} {ptc : PtpComp} {r : Registers}

theorem findBest_never {freq remOffset comp n i : Nat} {best : Best} (divisor : remOffset ≠ 0)
    (worst : best.minErr ≤ 2 ^ 32 - 1) (never : ∀ j, i ≤ j → j < i + n →
      freq * j % 2 ^ 32 / remOffset ≠ 0 ∧
        freq * j % 2 ^ 32 / (freq * j % 2 ^ 32 / remOffset) + 1 = comp) :
    findBest freq remOffset comp n i best = some best := by
  induction n generalizing i with
  | zero => rfl
  | succ n ih =>
    obtain ⟨some_, misses⟩ := never i (Nat.le_refl i) (by omega)
    have err : (freq * i % 2 ^ 32 / (freq * i % 2 ^ 32 / remOffset) + 2 ^ 32 - comp) % 2 ^ 32 =
        2 ^ 32 - 1 := by
      omega
    rw [findBest, if_neg divisor]
    dsimp only
    rw [if_neg some_, err, if_neg (by decide), if_neg (Nat.not_lt.mpr worst)]
    exact ih fun j after before => never j (by omega) (by omega)

theorem Clock.freq_ge {clock : Clock} (low : clock.period ≤ 128) : 3 ≤ clock.freq := by
  rcases clock.set with ⟨pos, -, period⟩ | ⟨pos, -, freq⟩
  · by_contra few
    have long : 10 ^ 9 / 2 ≤ 10 ^ 9 / clock.freq := Nat.div_le_div_left (by omega) pos
    omega
  · have many : 10 ^ 9 / 128 ≤ 10 ^ 9 / clock.period := Nat.div_le_div_left low pos
    omega

theorem comp_of_written (accepts : Accepts clock ptc) (pos : 0 < ptc.comp.toNat)
    (above : clock.freq ≤ ptc.comp.toNat) (written : setCompensation clock ptc = .written r) :
    ptc.comp.toNat / clock.freq = 1 ∧ ptc.comp.toNat ≤ clock.freq + 1 ∧
      ∃ best, findBest clock.freq (ptc.comp.toNat - 1) ptc.comp.toNat (clock.period + 1) 1
          ⟨clock.period + 1, 0, 2 ^ 32 - 1⟩ = some best ∧
        r = correct ptc.positive (clock.period + 1) best := by
  have word := clock.freq_lt
  have nonzero : ptc.comp ≠ 0 := by
    intro zero
    rw [zero] at pos
    exact absurd pos (by decide)
  obtain ⟨freq_pos, half⟩ := accepts.resolve_left nonzero
  have once : 1 ≤ ptc.comp.toNat / clock.freq := Nat.div_pos above (by omega)
  have product := clock.product_le
  have period_le : clock.period ≤ 10 ^ 9 :=
    (Nat.le_mul_of_pos_left _ (by omega)).trans product
  have base : baseIncrement clock ptc.comp.toNat =
      clock.period + ptc.comp.toNat / clock.freq := by
    unfold baseIncrement
    rw [if_pos above, if_pos pos.ne', Nat.mod_eq_of_lt (by omega)]
  unfold setCompensation at written
  dsimp only at written
  rw [if_neg pos.ne', if_neg freq_pos, if_neg (Nat.not_lt.mpr half), base] at written
  cases ends : findBest clock.freq (ptc.comp.toNat - ptc.comp.toNat / clock.freq) ptc.comp.toNat
      (clock.period + ptc.comp.toNat / clock.freq) 1
      ⟨clock.period + ptc.comp.toNat / clock.freq, 0, 2 ^ 32 - 1⟩ with
  | none =>
    rw [ends] at written
    cases written
  | some best =>
    rw [ends] at written
    -- the first round divides by the quotient of the frequency
    have few : ptc.comp.toNat - ptc.comp.toNat / clock.freq ≤ clock.freq := by
      by_contra many
      obtain ⟨n, rounds⟩ : ∃ n, clock.period + ptc.comp.toNat / clock.freq = n + 1 :=
        ⟨clock.period + ptc.comp.toNat / clock.freq - 1, by omega⟩
      rw [rounds, findBest, if_neg (by omega)] at ends
      dsimp only at ends
      rw [Nat.mul_one, Nat.mod_eq_of_lt word,
        if_pos (Nat.div_eq_of_lt (Nat.not_le.mp many))] at ends
      cases ends
    have whole := Nat.div_mul_le_self ptc.comp.toNat clock.freq
    have single : ptc.comp.toNat / clock.freq = 1 := by
      by_contra several
      have twice := Nat.mul_le_mul_right clock.freq
        (by omega : 2 ≤ ptc.comp.toNat / clock.freq)
      omega
    rw [single] at ends written few
    cases written
    exact ⟨single, by omega, best, ends, rfl⟩

theorem not_realises_succ (low : clock.period ≤ 128) (comp : ptc.comp.toNat = clock.freq + 1)
    (off : r.corr = 0) : ¬ Realises clock ptc r := by
  intro realises
  have near := realises.near
  have ticks := Clock.freq_ge low
  rw [if_pos off] at near
  have requested : ptc.requested = clock.freq + 1 ∨ ptc.requested = -(clock.freq + 1) := by
    by_cases positive : ptc.positive = 0
    · rw [requested_neg positive, comp, Nat.cast_add, Nat.cast_one]
      exact .inr rfl
    · rw [requested_pos positive, comp, Nat.cast_add, Nat.cast_one]
      exact .inl rfl
  have multiple : offset clock r 0 = clock.freq * (r.inc - clock.period) := by
    unfold offset
    rw [Nat.cast_zero, div_zero, zero_mul]
    ring
  rw [multiple] at near
  rcases requested with gain | loss
  · rw [gain] at near
    have whole : (clock.freq : Int) * (r.inc - clock.period - 1) = 1 := by
      have same : (clock.freq : Int) * (r.inc - clock.period) = clock.freq + 1 := by
        exact_mod_cast near
      linarith
    have unit := Int.eq_one_of_mul_eq_one_right (Int.natCast_nonneg _) whole
    omega
  · rw [loss] at near
    have whole : (clock.freq : Int) * (clock.period - 1 - r.inc) = 1 := by
      have same : (clock.freq : Int) * (r.inc - clock.period) = -(clock.freq + 1) := by
        exact_mod_cast near
      linarith
    have unit := Int.eq_one_of_mul_eq_one_right (Int.natCast_nonneg _) whole
    omega

theorem offset_one (clock : Clock) (r : Registers) :
    offset clock r 1 = clock.freq * (r.incCorr - clock.period) := by
  unfold offset
  rw [Nat.cast_one, div_one]
  ring

theorem offset_two (clock : Clock) (r : Registers) :
    offset clock r (1 + 1) = clock.freq * ((r.inc + r.incCorr) / 2 - clock.period) := by
  unfold offset
  push_cast
  ring

/-- A request of the frequency comes on top of what the base increment gains already. -/
theorem not_realises_same (low : clock.period ≤ 128) (comp : ptc.comp.toNat = clock.freq) :
    ¬ Realises clock ptc (correct ptc.positive (clock.period + 1) ⟨1, 1, 0⟩) := by
  intro realises
  have ticks := Clock.freq_ge low
  have freq_pos : (0 : ℚ) < clock.freq := by exact_mod_cast (by omega : 0 < clock.freq)
  have one : (correct ptc.positive (clock.period + 1) ⟨1, 1, 0⟩).corr = 1 := rfl
  have low' : clock.period + 1 < 256 := by omega
  obtain ⟨gains, loses, near⟩ := realises
  rw [one, offset_one] at gains loses
  rw [one, if_neg Nat.one_ne_zero, offset_one, offset_two] at near
  by_cases positive : ptc.positive = 0
  · have requested : ptc.requested = -clock.freq := by rw [requested_neg positive, comp]
    have fields : (correct ptc.positive (clock.period + 1) ⟨1, 1, 0⟩).inc =
        (clock.period + 1) % 128 ∧
          (correct ptc.positive (clock.period + 1) ⟨1, 1, 0⟩).incCorr = clock.period % 128 := by
      have difference : (clock.period + 1 + 2 ^ 32 - 1) % 2 ^ 32 = clock.period := by omega
      have high : clock.period < 2 ^ 24 := by omega
      unfold correct
      rw [if_neg (not_not_intro positive), difference]
      exact read_back 1 low' high
    rw [fields.1, fields.2, requested] at near
    have less := neg_of_mul_neg_right (loses (by rw [requested]; linarith)) freq_pos.le
    have beyond : clock.period % 128 < clock.period := by
      rw [fields.2] at less
      exact_mod_cast sub_neg.mp less
    have period : clock.period = 128 := by omega
    rw [period] at near
    rcases le_max_iff.mp near.2 with le | le
    · norm_num at le
      linarith
    · norm_num at le
      linarith
  · have requested : ptc.requested = clock.freq := by rw [requested_pos positive, comp]
    have fields : (correct ptc.positive (clock.period + 1) ⟨1, 1, 0⟩).inc =
        (clock.period + 1) % 128 ∧
          (correct ptc.positive (clock.period + 1) ⟨1, 1, 0⟩).incCorr =
            (clock.period + 2) % 128 := by
      have sum : (clock.period + 1 + 1) % 2 ^ 32 = clock.period + 2 := by omega
      have high : clock.period + 2 < 2 ^ 24 := by omega
      unfold correct
      rw [if_pos positive, sum]
      exact read_back 1 low' high
    rw [fields.1, fields.2, requested] at near
    have more := pos_of_mul_pos_right (gains (by rw [requested]; linarith)) freq_pos.le
    have above : clock.period < (clock.period + 2) % 128 := by
      rw [fields.2] at more
      exact_mod_cast sub_pos.mp more
    rw [Nat.mod_eq_of_lt (by omega : clock.period + 1 < 128),
      Nat.mod_eq_of_lt (by omega : clock.period + 2 < 128)] at near
    push_cast at near
    rcases min_le_iff.mp near.1 with le | le
    · linarith
    · linarith

theorem not_realises_above (accepts : Accepts clock ptc) (pos : 0 < ptc.comp.toNat)
    (above : clock.freq ≤ ptc.comp.toNat) (written : setCompensation clock ptc = .written r) :
    ¬ Realises clock ptc r := by
  intro realises
  obtain ⟨once, top, best, ends, rfl⟩ := comp_of_written accepts pos above written
  have nonzero : ptc.comp ≠ 0 := by
    intro zero
    rw [zero] at pos
    exact absurd pos (by decide)
  have half := (accepts.resolve_left nonzero).2
  have low : clock.period ≤ 128 := by
    by_contra high
    have bound := realises.requested_le
    have comp_le : (ptc.comp.toNat : ℚ) ≤ clock.freq + 1 := by exact_mod_cast top
    have comp_nonneg : (0 : ℚ) ≤ ptc.comp.toNat := Nat.cast_nonneg _
    have least : -(ptc.comp.toNat : ℚ) ≤ ptc.requested := by
      by_cases positive : ptc.positive = 0
      · rw [requested_neg positive]
      · rw [requested_pos positive]
        linarith
    have two : (2 : ℚ) ≤ clock.freq := by exact_mod_cast (by omega : 2 ≤ clock.freq)
    have far : (129 : ℚ) ≤ clock.period := by exact_mod_cast Nat.not_le.mp high
    have slow : (clock.freq : ℚ) * (127 - clock.period) ≤ clock.freq * (-2) :=
      mul_le_mul_of_nonneg_left (by linarith) (by linarith)
    linarith
  have ticks := Clock.freq_ge low
  have word := clock.freq_lt
  rcases (by omega : ptc.comp.toNat = clock.freq ∨ ptc.comp.toNat = clock.freq + 1) with
    comp | comp
  · have exact : best = ⟨1, 1, 0⟩ := by
      have whole : clock.freq / (clock.freq - 1) = 1 :=
        Nat.div_eq_of_lt_le (by omega) (by omega)
      rw [findBest, if_neg (by omega)] at ends
      dsimp only at ends
      rw [Nat.mul_one, Nat.mod_eq_of_lt word, comp, whole, if_neg Nat.one_ne_zero, Nat.div_one,
        Nat.add_sub_cancel_left, if_pos (by decide)] at ends
      exact (Option.some.inj ends).symm
    rw [exact] at realises
    exact not_realises_same low comp realises
  · have product := clock.product_le
    have room : clock.freq * (clock.period + 1) < 2 ^ 32 := by
      rw [Nat.mul_succ]
      by_cases none_ : clock.period = 0
      · rw [none_]
        omega
      · have tick : clock.freq ≤ clock.freq * clock.period :=
          Nat.le_mul_of_pos_right _ (Nat.pos_of_ne_zero none_)
        omega
    rw [comp, Nat.add_sub_cancel, findBest_never (by omega) (Nat.le_refl _)] at ends
    · cases ends
      exact not_realises_succ low comp rfl realises
    · intro j after before
      have fits : clock.freq * j < 2 ^ 32 :=
        (Nat.mul_le_mul_left _ (by omega)).trans_lt room
      rw [Nat.mod_eq_of_lt fits, Nat.mul_div_cancel_left j (by omega),
        Nat.mul_div_cancel clock.freq (by omega)]
      exact ⟨by omega, rfl⟩

end Above

theorem realises_default {clock : Clock} {ptc : PtpComp} (zero : ptc.comp = 0) :
    (∃ r, setCompensation clock ptc = .written r ∧ Realises clock ptc r) ↔
      clock.freq = 0 ∨ clock.period ≤ MX6Q_TIMER_INCR_MASK := by
  have none_ : ptc.comp.toNat = 0 := by
    rw [zero]
    rfl
  have mask : MX6Q_TIMER_INCR_MASK = 127 := rfl
  have written : setCompensation clock ptc = .written ⟨clock.period, 0⟩ := if_pos none_
  have requested : ptc.requested = 0 := by
    unfold PtpComp.requested
    rw [none_, Nat.cast_zero, neg_zero, ite_self]
  have inc : (⟨clock.period, 0⟩ : Registers).inc = clock.period % 128 := and_mask clock.period
  have gain : offset clock ⟨clock.period, 0⟩ 0 =
      clock.freq * (((clock.period % 128 : Nat) : ℚ) - clock.period) := by
    unfold offset
    rw [inc, Nat.cast_zero, div_zero, zero_mul]
    ring
  rw [written]
  constructor
  · rintro ⟨r, same, realises⟩
    cases same
    have near := realises.near
    rw [if_pos rfl, gain, requested] at near
    rcases mul_eq_zero.mp near with still | whole
    · exact .inl (by exact_mod_cast still)
    · have fits : clock.period % 128 = clock.period := by exact_mod_cast sub_eq_zero.mp whole
      exact .inr (by omega)
  · intro fits
    have same : offset clock ⟨clock.period, 0⟩ 0 = 0 := by
      rw [gain]
      rcases fits with still | low
      · rw [still, Nat.cast_zero, zero_mul]
      · rw [Nat.mod_eq_of_lt (by omega), sub_self, mul_zero]
    refine ⟨_, rfl, fun positive => ?_, fun negative => ?_, ?_⟩
    · rw [requested] at positive
      exact absurd positive (lt_irrefl 0)
    · rw [requested] at negative
      exact absurd negative (lt_irrefl 0)
    · rw [if_pos rfl, same, requested]

/-- Of the requests that it accepts, `mx6q_ptp_set_compensation` makes the timer follow just those
below the frequency, with a period that fits into its field, and a sum of the two increments that
does if the timer is to gain. To go back to the default only the period needs to fit. -/
theorem setCompensation_iff (clock : Clock) (ptc : PtpComp) (accepts : Accepts clock ptc) :
    (∃ r, setCompensation clock ptc = .written r ∧ Realises clock ptc r) ↔
      Follows clock ptc := by
  unfold Follows
  by_cases zero : ptc.comp = 0
  · rw [if_pos zero]
    exact realises_default zero
  · have pos : 0 < ptc.comp.toNat := by
      refine Nat.pos_of_ne_zero fun none_ => zero ?_
      exact UInt32.toNat_inj.mp none_
    rw [if_neg zero]
    by_cases less : ptc.comp.toNat < clock.freq
    · rw [realises_below pos less]
      exact (and_iff_right less).symm
    · refine iff_of_false ?_ fun follows => less follows.1
      rintro ⟨r, written, realises⟩
      exact not_realises_above accepts pos (Nat.not_lt.mp less) written realises

/-- The clock that the calibration defaults to -/
def Clock.MHz125 : Clock := ⟨8, 125000000, .inr (by decide)⟩

/-- To gain a microsecond a second -/
theorem setCompensation_microsecond :
    ∃ r, setCompensation Clock.MHz125 ⟨1000, 1⟩ = .written r ∧
      Realises Clock.MHz125 ⟨1000, 1⟩ r := by
  refine (setCompensation_iff Clock.MHz125 ⟨1000, 1⟩ (.inr (by decide))).mpr ?_
  have fits : Fits Clock.MHz125 1000 :=
    ⟨1, by decide, by decide, fun j below beyond => by
      have period : Clock.MHz125.period = 8 := rfl
      have mask : MX6Q_TIMER_INCR_MASK = 127 := rfl
      omega⟩
  exact ⟨by decide, by decide, by decide, .inr fits⟩

/-- To lose 125 ms a second, the base increment is made one more and the correction one less, which
loses nothing. To lose 200 ms a second divides by zero. -/
theorem setCompensation_slower :
    Accepts Clock.MHz125 ⟨125000000, 0⟩ ∧ Accepts Clock.MHz125 ⟨200000000, 0⟩ ∧
      setCompensation Clock.MHz125 ⟨125000000, 0⟩ = .written ⟨0x809, 1⟩ ∧
      offset Clock.MHz125 ⟨0x809, 1⟩ 1 = 0 ∧
      ¬ Realises Clock.MHz125 ⟨125000000, 0⟩ ⟨0x809, 1⟩ ∧
      setCompensation Clock.MHz125 ⟨200000000, 0⟩ = .dividedByZero := by
  have still : offset Clock.MHz125 ⟨0x809, 1⟩ 1 = 0 := by
    have inc : (⟨0x809, 1⟩ : Registers).inc = 9 := by decide
    have incCorr : (⟨0x809, 1⟩ : Registers).incCorr = 8 := by decide
    unfold offset Clock.MHz125
    rw [inc, incCorr]
    norm_num
  refine ⟨.inr (by decide), .inr (by decide), by decide, still, fun realises => ?_, by decide⟩
  have loses := realises.loses (by
    rw [requested_neg rfl]
    exact neg_lt_zero.mpr (by exact_mod_cast (by decide : 0 < (125000000 : UInt32).toNat)))
  exact absurd still loses.ne

end Mx6xBsp.Devnp.PtpCompensation
