import Mathlib.Algebra.Group.Nat.Defs
import Mathlib.Data.List.MinMax
import Mx6xBsp.Lib.Runs

/-!
# The bus speed of the i.MX I2C driver

`bus_speed.c`: the divider for a requested speed is taken from a table that is not sorted.
`speed_iff` tells for which requests of a run the bus is not too fast, and as fast as the
table allows.
-/

namespace Mx6xBsp.I2c.BusSpeed

open Runs

def I2C_Divs : Vector Nat 64 := #v[
    30,   32,   36,   42,   48,   52,   60,   72,
    80,   88,  104,  128,  144,  160,  192,  240,
   288,  320,  384,  480,  576,  640,  768,  960,
  1152, 1280, 1536, 1920, 2304, 2560, 3072, 3840,
    22,   24,   26,   28,   32,   36,   40,   44,
    48,   56,   64,   72,   80,   96,  112,  128,
   160,  192,  224,  256,  320,  384,  448,  512,
   640,  768,  896, 1024, 1280, 1536, 1792, 2048]

/-- The index of 768 -/
def IMX_DEFAULT_IC : Fin 64 := 22

/-- The divider at an index -/
def divider (ic : Fin 64) : Nat := I2C_Divs[ic]

/-- The loop over the table; `~0` is no index. -/
def bestIc (i2cDiv : Nat) : Option (Fin 64) :=
  (List.finRange 64).foldl (fun best ic =>
    if divider ic ≥ i2cDiv then
      match best with
      | none => some ic
      | some b => if divider ic < divider b then some ic else some b
    else best) none

def findBestIc (i2cDiv : Nat) : Fin 64 := (bestIc i2cDiv).getD IMX_DEFAULT_IC

/-- The fields of `imx_dev_t` for the speed; `frqReg` is the register. -/
structure Dev where
  inputClk : Nat
  speed : Nat
  slaveRespTimeoutSlack : Nat
  slaveTimeoutMultiplier : Nat
  i2cFreqVal : Fin 64
  frqReg : Fin 64

inductive Reply
  | einval
  | ok (ospeed : Nat)
  deriving DecidableEq

/-- `imx_i2c_set_bus_speed`; there is no result where it divides by zero. -/
def imxI2cSetBusSpeed (dev : Dev) (speed : Nat) : Option (Dev × Reply) :=
  if speed > 400000 then some (dev, .einval)
  else if speed ≠ dev.speed then
    if speed = 0 then none
    else
      let ic := findBestIc (dev.inputClk / speed)
      let dev := { dev with
        frqReg := ic
        speed
        i2cFreqVal := ic
        slaveTimeoutMultiplier :=
          1000000000 / speed * (10 * dev.slaveRespTimeoutSlack % 2 ^ 32) % 2 ^ 64 }
      some (dev, .ok (dev.inputClk / divider ic))
  else some (dev, .ok (dev.inputClk / divider dev.i2cFreqVal))

/-- `imx_i2c_init` for the speed: `imx_i2c_reset` writes the register again. -/
def imxI2cInit (inputClk slack : Nat) : Option Dev :=
  (imxI2cSetBusSpeed ⟨inputClk, 0, slack, 0, 0, 0⟩ 100000).map fun d =>
    { d.1 with frqReg := d.1.i2cFreqVal }

/-! ## The search -/

theorem bestIc_eq (i2cDiv : Nat) :
    bestIc i2cDiv = ((List.finRange 64).filter fun ic => divider ic ≥ i2cDiv).argmin divider := by
  unfold bestIc List.argmin
  rw [List.foldl_filter]
  congr 1
  funext best ic
  rcases best with _ | b
  · simp only [List.argAux, decide_eq_true_eq]
  · simp only [List.argAux, decide_eq_true_eq]

theorem findBestIc_least {i2cDiv : Nat} (reach : i2cDiv ≤ 3840) :
    i2cDiv ≤ divider (findBestIc i2cDiv) ∧
      ∀ ic, i2cDiv ≤ divider ic → divider (findBestIc i2cDiv) ≤ divider ic := by
  have listed (ic : Fin 64) (large : i2cDiv ≤ divider ic) :
      ic ∈ (List.finRange 64).filter fun ic => divider ic ≥ i2cDiv :=
    List.mem_filter.mpr ⟨List.mem_finRange ic, decide_eq_true large⟩
  rcases found : bestIc i2cDiv with _ | best
  · rw [bestIc_eq, List.argmin_eq_none] at found
    have last := listed 31 reach
    rw [found] at last
    cases last
  · have same : findBestIc i2cDiv = best := by
      unfold findBestIc
      rw [found, Option.getD_some]
    rw [bestIc_eq] at found
    rw [same]
    refine ⟨of_decide_eq_true (List.mem_filter.mp (List.argmin_mem found)).2, ?_⟩
    exact fun ic large => List.le_of_mem_argmin (listed ic large) found

theorem findBestIc_default {i2cDiv : Nat} (beyond : 3840 < i2cDiv) :
    findBestIc i2cDiv = IMX_DEFAULT_IC := by
  have none : (List.finRange 64).filter (fun ic => divider ic ≥ i2cDiv) = [] := by
    refine List.filter_eq_nil_iff.mpr fun ic _ large => ?_
    have most : ∀ ic, divider ic ≤ 3840 := by decide
    exact Nat.not_lt_of_le (Nat.le_trans (of_decide_eq_true large) (most ic)) beyond
  unfold findBestIc
  rw [bestIc_eq, none]
  rfl

/-! ## The speed of the bus -/

/-- The divider makes the bus no faster than requested, and no other one in the table that does so
makes it faster. -/
structure Fastest (inputClk speed : Nat) (ic : Fin 64) : Prop where
  slow : inputClk ≤ speed * divider ic
  fast : ∀ ic', inputClk ≤ speed * divider ic' → divider ic ≤ divider ic'

/-- A request is rejected and nothing changes, or the register has the fastest divider and the speed
that is reported is the one it makes. -/
def Right (dev : Dev) (speed : Nat) : Prop :=
  imxI2cSetBusSpeed dev speed = some (dev, .einval) ∨
    ∃ dev', imxI2cSetBusSpeed dev speed =
        some (dev', .ok (dev'.inputClk / divider dev'.frqReg)) ∧
      dev'.inputClk = dev.inputClk ∧ Fastest dev.inputClk speed dev'.frqReg

/-- The requests for which this holds -/
def Served (inputClk speed : Nat) : Prop :=
  400000 < speed ∨ 0 < speed ∧ inputClk / speed ≤ 3840 ∧
    ((∃ ic, divider ic = inputClk / speed) → speed ∣ inputClk)

instance (inputClk speed : Nat) : Decidable (Served inputClk speed) :=
  inferInstanceAs (Decidable (_ ∨ _))

/-- The divisor is rounded down: it is right unless it stands in the table and is too small. -/
theorem fastest_iff {inputClk speed : Nat} (pos : 0 < speed) :
    Fastest inputClk speed (findBestIc (inputClk / speed)) ↔
      inputClk / speed ≤ 3840 ∧ ((∃ ic, divider ic = inputClk / speed) → speed ∣ inputClk) := by
  have enough (ic : Fin 64) (slow : inputClk ≤ speed * divider ic) :
      inputClk / speed ≤ divider ic := Nat.div_le_of_le_mul slow
  constructor
  · intro fastest
    have slow := fastest.slow
    have reach : inputClk / speed ≤ 3840 := by
      by_contra beyond
      have default : divider (findBestIc (inputClk / speed)) = 768 := by
        rw [findBestIc_default (Nat.not_le.mp beyond)]
        rfl
      have short := enough _ slow
      rw [default] at short
      omega
    refine ⟨reach, fun ⟨ic, exact_⟩ => ?_⟩
    obtain ⟨_, least⟩ := findBestIc_least reach
    have below := least ic (Nat.le_of_eq exact_.symm)
    rw [exact_] at below
    have product : inputClk ≤ speed * (inputClk / speed) :=
      Nat.le_trans slow (Nat.mul_le_mul_left speed below)
    exact ⟨inputClk / speed, Nat.le_antisymm product (Nat.mul_div_le inputClk speed)⟩
  · intro ⟨reach, whole⟩
    obtain ⟨large, least⟩ := findBestIc_least reach
    refine ⟨?_, fun ic slow => least ic (enough ic slow)⟩
    rcases Nat.eq_or_lt_of_le large with same | above
    · obtain ⟨k, rfl⟩ := whole ⟨_, same.symm⟩
      rw [Nat.mul_div_cancel_left k pos] at same ⊢
      exact Nat.le_of_eq (congrArg (speed * ·) same)
    · have next : inputClk < speed * (inputClk / speed + 1) := Nat.lt_mul_div_succ inputClk pos
      exact Nat.le_of_lt (Nat.lt_of_lt_of_le next (Nat.mul_le_mul_left speed above))

/-- The index is the one for the speed, and the register has it. -/
structure Set (inputClk : Nat) (dev : Dev) : Prop where
  clk : dev.inputClk = inputClk
  pos : 0 < dev.speed
  most : dev.speed ≤ 400000
  index : dev.i2cFreqVal = findBestIc (inputClk / dev.speed)
  reg : dev.frqReg = dev.i2cFreqVal

theorem Set.init {inputClk slack : Nat} {dev : Dev} (start : imxI2cInit inputClk slack = some dev) :
    Set inputClk dev := by
  obtain rfl := Option.some.inj start
  exact ⟨rfl, (by decide : 0 < 100000), (by decide : 100000 ≤ 400000), rfl, rfl⟩

theorem Set.request {inputClk speed : Nat} {dev dev' : Dev} {reply : Reply}
    (set : Set inputClk dev) (done : imxI2cSetBusSpeed dev speed = some (dev', reply)) :
    Set inputClk dev' := by
  unfold imxI2cSetBusSpeed at done
  split at done
  case isTrue =>
    obtain ⟨rfl, _⟩ := Prod.mk.inj (Option.some.inj done)
    exact set
  case isFalse low =>
    split at done
    case isTrue =>
      split at done
      case isTrue => cases done
      case isFalse some_ =>
        obtain ⟨rfl, _⟩ := Prod.mk.inj (Option.some.inj done)
        exact ⟨set.clk, Nat.pos_of_ne_zero some_, Nat.le_of_not_lt low, by rw [set.clk], rfl⟩
    case isFalse =>
      obtain ⟨rfl, _⟩ := Prod.mk.inj (Option.some.inj done)
      exact set

theorem Set.serving_iff {inputClk speed : Nat} {dev : Dev} (set : Set inputClk dev) :
    Right dev speed ↔ Served inputClk speed := by
  rcases Nat.lt_or_ge 400000 speed with high | low
  · exact iff_of_true (.inl (if_pos high)) (.inl high)
  have admitted : ¬speed > 400000 := Nat.not_lt.mpr low
  rcases Nat.eq_zero_or_pos speed with rfl | pos
  · have crash : imxI2cSetBusSpeed dev 0 = none := by
      rw [imxI2cSetBusSpeed, if_neg admitted, if_pos (Nat.ne_of_lt set.pos), if_pos rfl]
    unfold Right Served
    rw [crash]
    refine iff_of_false ?_ ?_
    · intro right
      rcases right with rejected | ⟨_, done, _⟩
      · cases rejected
      · cases done
    · intro served
      rcases served with high | ⟨pos, _⟩
      · exact admitted high
      · exact Nat.lt_irrefl 0 pos
  · -- the device has the divider for the speed, whether it was computed again or not
    have done : ∃ dev', imxI2cSetBusSpeed dev speed =
          some (dev', .ok (dev'.inputClk / divider dev'.frqReg)) ∧
        dev'.inputClk = inputClk ∧ dev'.frqReg = findBestIc (inputClk / speed) := by
      rcases eq_or_ne speed dev.speed with rfl | other
      · refine ⟨dev, ?_, set.clk, set.reg.trans set.index⟩
        rw [imxI2cSetBusSpeed, if_neg admitted, if_neg (not_not.mpr rfl), set.reg]
      · refine ⟨{ dev with
            frqReg := findBestIc (dev.inputClk / speed)
            speed
            i2cFreqVal := findBestIc (dev.inputClk / speed)
            slaveTimeoutMultiplier :=
              1000000000 / speed * (10 * dev.slaveRespTimeoutSlack % 2 ^ 32) % 2 ^ 64 },
          ?_, set.clk, by rw [set.clk]⟩
        rw [imxI2cSetBusSpeed, if_neg admitted, if_pos other, if_neg (Nat.ne_of_gt pos)]
    obtain ⟨dev', done, clk, reg⟩ := done
    have served : Served inputClk speed ↔ Fastest inputClk speed (findBestIc (inputClk / speed)) :=
      (or_iff_right admitted).trans ((and_iff_right pos).trans (fastest_iff pos).symm)
    rw [served]
    constructor
    · intro right
      rcases right with rejected | ⟨_, again, _, fastest⟩
      · cases (Prod.mk.inj (Option.some.inj (done.symm.trans rejected))).2
      · obtain ⟨rfl, _⟩ := Prod.mk.inj (Option.some.inj (done.symm.trans again))
        rwa [set.clk, reg] at fastest
    · intro fastest
      exact .inr ⟨dev', done, clk.trans set.clk.symm, by rwa [set.clk, reg]⟩

/-- After any requests to a driver that was started with any clock, a request is served right
exactly if it is too high, or else not 0 and such that the divisor is within the table, and comes
out even where it stands in the table itself. -/
theorem speed_iff {inputClk slack : Nat} {start dev : Dev} {requests : List (Nat × Reply)}
    (init : imxI2cInit inputClk slack = some start)
    (run : Run (fun d r d' => imxI2cSetBusSpeed d r.1 = some (d', r.2)) start requests dev)
    (speed : Nat) : Right dev speed ↔ Served inputClk speed :=
  (run.invariant (fun set done => set.request done) (Set.init init)).serving_iff

/-- 400 kHz after 50 kHz, from 60 MHz: 160 would be the divisor for 375 kHz. -/
theorem speed_small : ∃ start dev,
    imxI2cInit 60000000 1 = some start ∧
    Run (fun d r d' => imxI2cSetBusSpeed d r.1 = some (d', r.2)) start [(50000, .ok 46875)] dev ∧
    Right dev 400000 := by
  refine ⟨_, _, rfl, .single rfl, ?_⟩
  have iff := @speed_iff 60000000 1 _ _ [(50000, .ok 46875)] rfl (.single rfl) 400000
  exact iff.mpr (.inr ⟨by decide, by decide, by decide⟩)

/-- A request of 0 divides by zero, one of 374999 Hz from 60 MHz gets 375 kHz, and one of 10 kHz
gets 78125 Hz. -/
theorem speed_broken : ∃ start, imxI2cInit 60000000 1 = some start ∧
    imxI2cSetBusSpeed start 0 = none ∧ ¬Right start 0 ∧
    (∃ dev, imxI2cSetBusSpeed start 374999 = some (dev, .ok 375000)) ∧ ¬Right start 374999 ∧
    (∃ dev, imxI2cSetBusSpeed start 10000 = some (dev, .ok 78125)) ∧ ¬Right start 10000 := by
  refine ⟨_, rfl, rfl, fun right => ?_, ⟨_, rfl⟩, fun right => ?_, ⟨_, rfl⟩, fun right => ?_⟩
  · have served := (Set.serving_iff (@Set.init 60000000 1 _ rfl)).mp right
    exact absurd served (by decide)
  · have served := (Set.serving_iff (@Set.init 60000000 1 _ rfl)).mp right
    exact absurd served (by decide)
  · have served := (Set.serving_iff (@Set.init 60000000 1 _ rfl)).mp right
    exact absurd served (by decide)

end Mx6xBsp.I2c.BusSpeed
