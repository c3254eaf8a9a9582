import Mathlib.Algebra.Order.Field.Rat
import Mathlib.Algebra.Order.Field.Power
import Mathlib.Tactic.FieldSimp
import Mathlib.Tactic.Linarith
import Mathlib.Tactic.Ring

/-!
# Timer ticks and nanoseconds

`invert_timer_freq.c` turns the frequency of the timer into the period of a tick, `rate` times ten
to the power of `scale` seconds, and `timer_tick2ns.c` multiplies by it. A product that does not
fit is taken again with a digit less of `rate`, and that it does not fit is told by a zero.
`tick2ns_iff` tells for which frequencies the conversion comes to an end, and for which of them
more ticks never convert to less time.
-/

namespace Mx6xBsp.Startup.Timer

/-- `unsigned long` has 32 bits. -/
def ULONG_MAX : Nat := 2 ^ 32 - 1

/-- What `struct qtime_entry` keeps of the timer -/
structure Qtime where
  timerRate : Nat
  timerScale : Int
  deriving DecidableEq

/-! ## `invert_timer_freq` -/

/-- The loop of `invert_timer_freq`. Nothing comes back where it takes more than `fuel` rounds. -/
def invertLoop (freq : Nat) : Nat → Nat → Nat → Int → Option Qtime
  | 0, _, _, _ => none
  | fuel + 1, rate, quot, scale =>
    let div := quot / freq
    let rate := (rate * 10 + div) % 2 ^ 32
    if rate ≥ ULONG_MAX / 10 - 10 then some ⟨rate, scale⟩
    else
      let rem := quot % freq
      if rem = 0 then some ⟨rate, scale⟩
      else invertLoop freq fuel rate (rem * 10 % 2 ^ 32) (scale - 1)

/-- `invert_timer_freq`, which crashes for a frequency of zero -/
def invertTimerFreq (fuel freq : Nat) : Option Qtime :=
  if freq = 0 then none
  -- to ensure `quot = rem * 10` does not overflow
  else if freq > ULONG_MAX / 10 then invertLoop (freq / 10) fuel 0 1 (-1)
  else invertLoop freq fuel 0 1 0

/-- `invert_timer_freq` accepts `freq` and stores `qtime`. -/
def Inverts (freq : Nat) (qtime : Qtime) : Prop :=
  freq ≤ ULONG_MAX ∧ ∃ fuel, invertTimerFreq fuel freq = some qtime

/-! ## `timer_tick2ns` -/

/-- The product of a round, taken where `ns` is zero, and whether one that wrapped was kept. Nothing
comes back from a division by a `rate` of zero. -/
def product (rate ticks ns : Nat) : Option (Nat × Bool) :=
  if ns = 0 then
    if rate = 0 then none
    else
      let ns := rate * ticks % 2 ^ 32
      if ns / rate ≠ ticks then some (0, false) else some (ns, decide (ns ≠ rate * ticks))
  else some (ns, false)

/-- The first loop of `timer_tick2ns`, which ends once `power` is not above zero: `ns`, and whether
a product in it wrapped -/
def roundsDown (ticks : Nat) : Nat → Nat → Nat → Bool → Option (Nat × Bool)
  | 0, rate, ns, wrapped => (product rate ticks ns).map fun kept => (kept.1, wrapped || kept.2)
  | power + 1, rate, ns, wrapped =>
    (product rate ticks ns).bind fun kept =>
      roundsDown ticks power (rate / 10) (kept.1 / 10) (wrapped || kept.2)

/-- The second loop, for a `power` below zero -/
def roundsUp : Nat → Nat × Bool → Nat × Bool
  | 0, ns => ns
  | power + 1, ns =>
    roundsUp power (ns.1 * 10 % 2 ^ 32, ns.2 || decide (ns.1 * 10 % 2 ^ 32 ≠ ns.1 * 10))

/-- `power` at the start of `timer_tick2ns` -/
def Qtime.power (qtime : Qtime) : Int := -9 - qtime.timerScale

/-- `timer_tick2ns`: the nanoseconds, and whether a product in them wrapped -/
def timerTick2ns (qtime : Qtime) (ticks : Nat) : Option (Nat × Bool) :=
  (roundsDown ticks qtime.power.toNat qtime.timerRate 0 false).map
    (roundsUp (-qtime.power).toNat)

/-! ## What a conversion should be -/

/-- The exact duration of `ticks` in nanoseconds -/
def Qtime.duration (qtime : Qtime) (ticks : Nat) : ℚ :=
  ticks * qtime.timerRate * 10 ^ (qtime.timerScale + 9)

/-- A count of ticks that the argument can be, with a duration below 2^32 ns -/
structure InRange (qtime : Qtime) (ticks : Nat) : Prop where
  word : ticks ≤ ULONG_MAX
  short : qtime.duration ticks < 2 ^ 32

/-- Counts in range are converted without a division by zero or a product that wraps, never to more
than their duration, and more ticks never to less than fewer. -/
structure Converts (qtime : Qtime) : Prop where
  ends : ∀ ticks, InRange qtime ticks → ∃ ns, timerTick2ns qtime ticks = some (ns, false)
  below : ∀ ticks ns wrapped, InRange qtime ticks →
    timerTick2ns qtime ticks = some (ns, wrapped) → (ns : ℚ) ≤ qtime.duration ticks
  mono : ∀ ticks ticks' ns ns' wrapped wrapped', ticks ≤ ticks' → InRange qtime ticks' →
    timerTick2ns qtime ticks = some (ns, wrapped) →
      timerTick2ns qtime ticks' = some (ns', wrapped') → ns ≤ ns'

/-- The digits of the rate that are left after `j` rounds -/
def Qtime.digits (qtime : Qtime) (j : Nat) : Nat := qtime.timerRate / 10 ^ j

/-- The last count whose product with the digits left after `j` rounds fits -/
def Qtime.last (qtime : Qtime) (j : Nat) : Nat := ULONG_MAX / qtime.digits j

/-- Where one tick more takes one digit less of the rate, what that tick adds makes up for what the
digit was worth. -/
def Steps (qtime : Qtime) : Prop :=
  ∀ j < qtime.power.toNat, qtime.duration (qtime.last j + 1) < 2 ^ 32 →
    qtime.digits j * qtime.last j / 10 ^ (qtime.power.toNat - j) ≤
      qtime.digits (j + 1) * (qtime.last j + 1) / 10 ^ (qtime.power.toNat - (j + 1))

/-! ## What `invert_timer_freq` stores -/

/-- The state at the head of a round, with `k` digits behind the point so far: the last rate is that
of `10 ^ (k - 1)`, and `quot` is what is left to divide. -/
structure Head (freq k rate quot : Nat) : Prop where
  split : 10 ^ k = rate * 10 * freq + quot
  small : quot < 10 * freq
  room : rate < ULONG_MAX / 10 - 10

theorem Head.start {freq : Nat} (pos : 0 < freq) : Head freq 0 0 1 :=
  ⟨by omega, by omega, by decide⟩

/-- A round divides `10 ^ k`. -/
theorem Head.divided {freq k rate quot : Nat} (head : Head freq k rate quot) (pos : 0 < freq) :
    10 ^ k / freq = rate * 10 + quot / freq ∧ 10 ^ k % freq = quot % freq := by
  have rest := Nat.mod_lt quot pos
  have power : 10 ^ k = freq * (rate * 10 + quot / freq) + quot % freq := by
    rw [head.split, Nat.mul_add, Nat.add_assoc, Nat.div_add_mod, Nat.mul_comm freq]
  rw [power]
  exact ⟨by rw [Nat.mul_add_div pos, Nat.div_eq_of_lt rest, Nat.add_zero],
    by rw [Nat.mul_add_mod, Nat.mod_eq_of_lt rest]⟩

theorem Head.rate_le {freq k rate quot : Nat} (head : Head freq k rate quot) (pos : 0 < freq) :
    10 ^ k / freq ≤ ULONG_MAX := by
  have room := head.room
  have max : ULONG_MAX = 4294967295 := rfl
  have digit : quot / freq < 10 :=
    Nat.div_lt_of_lt_mul (by rw [Nat.mul_comm]; exact head.small)
  rw [(head.divided pos).1]
  omega

theorem Head.round {freq k rate quot : Nat} (head : Head freq k rate quot) (pos : 0 < freq)
    (bound : freq ≤ ULONG_MAX / 10) (fuel : Nat) (scale : Int) :
    invertLoop freq (fuel + 1) rate quot scale =
      if 10 ^ k / freq ≥ ULONG_MAX / 10 - 10 then some ⟨10 ^ k / freq, scale⟩
      else if 10 ^ k % freq = 0 then some ⟨10 ^ k / freq, scale⟩
      else invertLoop freq fuel (10 ^ k / freq) (10 ^ k % freq * 10) (scale - 1) := by
  obtain ⟨quotient, remainder⟩ := head.divided pos
  have max : ULONG_MAX = 4294967295 := rfl
  have word := head.rate_le pos
  have rest := Nat.mod_lt quot pos
  have fits : (rate * 10 + quot / freq) % 2 ^ 32 = rate * 10 + quot / freq :=
    Nat.mod_eq_of_lt (by omega)
  have fits' : quot % freq * 10 % 2 ^ 32 = quot % freq * 10 := Nat.mod_eq_of_lt (by omega)
  show (if (rate * 10 + quot / freq) % 2 ^ 32 ≥ _ then _ else _) = _
  rw [fits, fits', quotient, remainder]

theorem Head.next {freq k : Nat} (pos : 0 < freq)
    (room : ¬ 10 ^ k / freq ≥ ULONG_MAX / 10 - 10) :
    Head freq (k + 1) (10 ^ k / freq) (10 ^ k % freq * 10) := by
  have rest := Nat.mod_lt (10 ^ k) pos
  have parts := Nat.div_add_mod (10 ^ k) freq
  refine ⟨?_, by omega, by omega⟩
  calc 10 ^ (k + 1) = (freq * (10 ^ k / freq) + 10 ^ k % freq) * 10 := by
        rw [parts, Nat.pow_succ]
    _ = 10 ^ k / freq * 10 * freq + 10 ^ k % freq * 10 := by ring

theorem Head.digits_lt {freq k rate quot : Nat} (head : Head freq k rate quot)
    (bound : freq ≤ ULONG_MAX / 10) : k < 19 := by
  obtain ⟨split, small, room⟩ := head
  have max : ULONG_MAX = 4294967295 := rfl
  by_contra many
  have long : 10 ^ 19 ≤ 10 ^ k := Nat.pow_le_pow_right (by decide) (by omega)
  have short : (rate + 1) * (10 * freq) ≤ 429496719 * 4294967290 :=
    Nat.mul_le_mul (by omega) (by omega)
  have top : 10 ^ k < (rate + 1) * (10 * freq) := by
    rw [split, Nat.add_one_mul, ← Nat.mul_assoc rate 10 freq]
    omega
  omega

/-- The rate stored is `10 ^ k` divided by `freq`, with `k` one less for every one of the scale. -/
theorem invertLoop_rate {freq fuel k rate quot : Nat} {e : Int} {qtime : Qtime}
    (pos : 0 < freq) (bound : freq ≤ ULONG_MAX / 10) (head : Head freq k rate quot)
    (stores : invertLoop freq fuel rate quot (-(k : Int) - e) = some qtime) :
    ∃ k' : Nat, qtime = ⟨10 ^ k' / freq, -(k' : Int) - e⟩ ∧
      10 ^ k' / freq ≤ ULONG_MAX ∧
      (10 ^ k' % freq = 0 ∨ ULONG_MAX / 10 - 10 ≤ 10 ^ k' / freq) := by
  induction fuel generalizing k rate quot with
  | zero => cases stores
  | succ fuel ih =>
    have word := head.rate_le pos
    rw [head.round pos bound] at stores
    by_cases full : 10 ^ k / freq ≥ ULONG_MAX / 10 - 10
    · rw [if_pos full] at stores
      exact ⟨k, (Option.some.inj stores).symm, word, Or.inr full⟩
    · rw [if_neg full] at stores
      by_cases exact : 10 ^ k % freq = 0
      · rw [if_pos exact] at stores
        exact ⟨k, (Option.some.inj stores).symm, word, Or.inl exact⟩
      · rw [if_neg exact, show -(k : Int) - e - 1 = -((k + 1 : Nat) : Int) - e by omega] at stores
        exact ih (Head.next pos full) stores

theorem invertLoop_ends {freq fuel k rate quot : Nat} {scale : Int} (pos : 0 < freq)
    (bound : freq ≤ ULONG_MAX / 10) (head : Head freq k rate quot) (enough : 19 ≤ fuel + k) :
    ∃ qtime, invertLoop freq fuel rate quot scale = some qtime := by
  induction fuel generalizing k rate quot scale with
  | zero =>
    have few := head.digits_lt bound
    omega
  | succ fuel ih =>
    rw [head.round pos bound]
    by_cases full : 10 ^ k / freq ≥ ULONG_MAX / 10 - 10
    · rw [if_pos full]
      exact ⟨_, rfl⟩
    · rw [if_neg full]
      by_cases exact : 10 ^ k % freq = 0
      · rw [if_pos exact]
        exact ⟨_, rfl⟩
      · rw [if_neg exact]
        exact ih (Head.next pos full) (by omega)

theorem inverts_of_pos {freq : Nat} (pos : 0 < freq) (word : freq ≤ ULONG_MAX) :
    ∃ qtime, Inverts freq qtime := by
  have max : ULONG_MAX = 4294967295 := rfl
  by_cases large : freq > ULONG_MAX / 10
  · have head : Head (freq / 10) 0 0 1 := Head.start (by omega)
    obtain ⟨qtime, stores⟩ : ∃ qtime, invertLoop (freq / 10) 19 0 1 (-1) = some qtime :=
      invertLoop_ends (by omega) (by omega) head (by omega)
    refine ⟨qtime, word, 19, ?_⟩
    unfold invertTimerFreq
    rw [if_neg (by omega), if_pos large, stores]
  · obtain ⟨qtime, stores⟩ : ∃ qtime, invertLoop freq 19 0 1 0 = some qtime :=
      invertLoop_ends pos (by omega) (Head.start pos) (by omega)
    refine ⟨qtime, word, 19, ?_⟩
    unfold invertTimerFreq
    rw [if_neg (by omega), if_neg large, stores]

theorem Inverts.rate {freq : Nat} {qtime : Qtime} (inverts : Inverts freq qtime) :
    ∃ k e f : Nat, qtime = ⟨10 ^ k / f, -(k : Int) - e⟩ ∧ 0 < f ∧
      (e = 0 ∧ f = freq ∧ freq ≤ ULONG_MAX / 10 ∨ e = 1 ∧ f = freq / 10 ∧ ULONG_MAX / 10 < freq) ∧
      10 ^ k / f ≤ ULONG_MAX ∧
      (10 ^ k % f = 0 ∨ ULONG_MAX / 10 - 10 ≤ 10 ^ k / f) := by
  have max : ULONG_MAX = 4294967295 := rfl
  obtain ⟨word, fuel, stores⟩ := inverts
  unfold invertTimerFreq at stores
  by_cases zero : freq = 0
  · rw [if_pos zero] at stores
    cases stores
  · rw [if_neg zero] at stores
    by_cases large : freq > ULONG_MAX / 10
    · rw [if_pos large] at stores
      have head : Head (freq / 10) 0 0 1 := Head.start (by omega)
      obtain ⟨k, same, stop⟩ := invertLoop_rate (e := 1) (by omega) (by omega) head stores
      exact ⟨k, 1, freq / 10, same, by omega, Or.inr ⟨rfl, rfl, large⟩, stop⟩
    · rw [if_neg large] at stores
      have pos : 0 < freq := by omega
      obtain ⟨k, same, stop⟩ := invertLoop_rate (e := 0) pos (by omega) (Head.start pos) stores
      exact ⟨k, 0, freq, same, by omega, Or.inl ⟨rfl, rfl, by omega⟩, stop⟩

theorem le_of_stop {k f : Nat}
    (stop : 10 ^ k % f = 0 ∨ ULONG_MAX / 10 - 10 ≤ 10 ^ k / f) : f ≤ 10 ^ k := by
  rcases stop with exact | full
  · exact Nat.le_of_dvd (Nat.pow_pos (by decide)) (Nat.dvd_of_mod_eq_zero exact)
  · by_contra less
    rw [Nat.div_eq_of_lt (Nat.lt_of_not_le less)] at full
    exact absurd full (by decide)

theorem Qtime.power_eq {rate k e : Nat} :
    (⟨rate, -(k : Int) - e⟩ : Qtime).power = (k : Int) + e - 9 := by
  unfold Qtime.power
  dsimp only
  omega

theorem Inverts.digits_pos_iff {freq : Nat} {qtime : Qtime} (inverts : Inverts freq qtime) :
    0 < qtime.digits qtime.power.toNat ↔ freq ≤ 1000000009 := by
  have max : ULONG_MAX = 4294967295 := rfl
  obtain ⟨k, e, f, rfl, pos, form, -, stop⟩ := inverts.rate
  have nine : e ≤ 9 := by omega
  have bound : f ≤ 10 ^ (9 - e) ↔ freq ≤ 1000000009 := by
    rcases form with ⟨rfl, rfl, small⟩ | ⟨rfl, rfl, large⟩
    · omega
    · omega
  rw [← bound, Qtime.power_eq]
  unfold Qtime.digits
  dsimp only
  by_cases up : k + e ≤ 9
  · rw [show ((k : Int) + e - 9).toNat = 0 by omega, Nat.pow_zero, Nat.div_one, Nat.div_pos_iff]
    have grow : 10 ^ k ≤ 10 ^ (9 - e) := Nat.pow_le_pow_right (by decide) (by omega)
    have whole := le_of_stop stop
    exact ⟨fun _ => by omega, fun _ => ⟨pos, whole⟩⟩
  · obtain ⟨p, level⟩ : ∃ p, k = (9 - e) + p := ⟨k - (9 - e), by omega⟩
    rw [show ((k : Int) + e - 9).toNat = p by omega, Nat.div_div_eq_div_mul, Nat.div_pos_iff, level,
      Nat.pow_add]
    have tens : 0 < 10 ^ p := Nat.pow_pos (by decide)
    exact ⟨fun ⟨_, le⟩ => Nat.le_of_mul_le_mul_right le tens,
      fun le => ⟨Nat.mul_pos pos tens, Nat.mul_le_mul_right _ le⟩⟩

theorem Inverts.rate_le {freq : Nat} {qtime : Qtime} (inverts : Inverts freq qtime) :
    qtime.timerRate ≤ ULONG_MAX := by
  obtain ⟨k, e, f, rfl, -, -, word, -⟩ := inverts.rate
  exact word

/-! ## The rounds of `timer_tick2ns` -/

theorem product_fits {rate ticks : Nat} (pos : 0 < rate) (fits : rate * ticks < 2 ^ 32) :
    product rate ticks 0 = some (rate * ticks, false) := by
  unfold product
  dsimp only
  rw [if_pos rfl, if_neg (by omega), Nat.mod_eq_of_lt fits, Nat.mul_div_cancel_left ticks pos,
    if_neg (not_not_intro rfl), decide_eq_false (not_not_intro rfl)]

/-- A product that does not fit is seen: what wrapped is less than any multiple of the rate by
`ticks`. -/
theorem product_over {rate ticks : Nat} (pos : 0 < rate) (beyond : 2 ^ 32 ≤ rate * ticks) :
    product rate ticks 0 = some (0, false) := by
  have less : rate * ticks % 2 ^ 32 < rate * ticks :=
    Nat.lt_of_lt_of_le (Nat.mod_lt _ (by decide)) beyond
  have seen : rate * ticks % 2 ^ 32 / rate < ticks := Nat.div_lt_of_lt_mul less
  unfold product
  dsimp only
  rw [if_pos rfl, if_neg (by omega), if_pos (Nat.ne_of_lt seen)]

theorem product_kept {rate ticks ns : Nat} (kept : ns ≠ 0) :
    product rate ticks ns = some (ns, false) := if_neg kept

theorem left_div {power rate : Nat} (left : 10 ^ (power + 1) ≤ rate) : 10 ^ power ≤ rate / 10 := by
  rw [Nat.pow_succ] at left
  exact (Nat.le_div_iff_mul_le (by decide)).mpr left

theorem roundsDown_kept {ticks power rate ns : Nat} (left : 10 ^ power ≤ rate) (nonzero : 0 < ticks)
    (large : rate * ticks ≤ ns) :
    roundsDown ticks power rate ns false = some (ns / 10 ^ power, false) := by
  have pos : 0 < rate := Nat.lt_of_lt_of_le (Nat.pow_pos (by decide)) left
  have kept : ns ≠ 0 := by
    have prod := Nat.mul_pos pos nonzero
    omega
  induction power generalizing rate ns with
  | zero =>
    unfold roundsDown
    rw [product_kept kept, Nat.pow_zero, Nat.div_one]
    rfl
  | succ power ih =>
    have left' := left_div left
    have pos' : 0 < rate / 10 := Nat.lt_of_lt_of_le (Nat.pow_pos (by decide)) left'
    have large' : rate / 10 * ticks ≤ ns / 10 :=
      (Nat.le_div_iff_mul_le (by decide)).mpr <|
        calc rate / 10 * ticks * 10 = rate / 10 * 10 * ticks := Nat.mul_right_comm _ _ _
          _ ≤ rate * ticks := Nat.mul_le_mul_right _ (Nat.div_mul_le_self _ _)
          _ ≤ ns := large
    have kept' : ns / 10 ≠ 0 := by
      have prod := Nat.mul_pos pos' nonzero
      omega
    unfold roundsDown
    rw [product_kept kept]
    show roundsDown ticks power (rate / 10) (ns / 10) false = _
    rw [ih left' large' pos' kept', Nat.div_div_eq_div_mul, Nat.pow_succ, Nat.mul_comm 10]

theorem roundsDown_zero {power rate : Nat} :
    roundsDown 0 power rate 0 false = if 10 ^ power ≤ rate then some (0, false) else none := by
  induction power generalizing rate with
  | zero =>
    rcases Nat.eq_zero_or_pos rate with rfl | pos
    · rfl
    · unfold roundsDown
      rw [product_fits pos (by rw [Nat.mul_zero]; decide), if_pos (by rwa [Nat.pow_zero])]
      rfl
  | succ power ih =>
    unfold roundsDown
    rcases Nat.eq_zero_or_pos rate with rfl | pos
    · have gone : ¬ 10 ^ (power + 1) ≤ 0 := Nat.not_le.mpr (Nat.pow_pos (by decide))
      rw [if_neg gone]
      rfl
    · rw [product_fits pos (by rw [Nat.mul_zero]; decide), Nat.mul_zero]
      show roundsDown 0 power (rate / 10) (0 / 10) false = _
      rw [Nat.zero_div, ih]
      refine if_congr ?_ rfl rfl
      rw [Nat.le_div_iff_mul_le (by decide), Nat.pow_succ]

theorem roundsDown_fits {ticks power rate : Nat} (left : 10 ^ power ≤ rate)
    (fits : rate * ticks < 2 ^ 32) :
    roundsDown ticks power rate 0 false = some (rate * ticks / 10 ^ power, false) := by
  have pos : 0 < rate := Nat.lt_of_lt_of_le (Nat.pow_pos (by decide)) left
  rcases Nat.eq_zero_or_pos ticks with rfl | nonzero
  · rw [roundsDown_zero, if_pos left, Nat.mul_zero, Nat.zero_div]
  · have same := roundsDown_kept left nonzero (Nat.le_refl (rate * ticks))
    have prod := Nat.mul_pos pos nonzero
    rw [← same]
    cases power with
    | zero =>
      unfold roundsDown
      rw [product_fits pos fits, product_kept (by omega)]
    | succ power =>
      unfold roundsDown
      rw [product_fits pos fits, product_kept (by omega)]

/-! ## The round that keeps a product -/

theorem Qtime.digits_succ (qtime : Qtime) (j : Nat) :
    qtime.digits (j + 1) = qtime.digits j / 10 := by
  unfold Qtime.digits
  rw [Nat.pow_succ, Nat.div_div_eq_div_mul]

theorem Qtime.digits_anti (qtime : Qtime) {i j : Nat} (le : i ≤ j) :
    qtime.digits j ≤ qtime.digits i :=
  Nat.div_le_div_left (Nat.pow_le_pow_right (by decide) le) (Nat.pow_pos (by decide))

/-- The product of round `j` is the first that fits. -/
structure Qtime.Kept (qtime : Qtime) (ticks j : Nat) : Prop where
  beyond : ∀ i < j, 2 ^ 32 ≤ qtime.digits i * ticks
  fits : qtime.digits j * ticks < 2 ^ 32

theorem Qtime.exists_kept {qtime : Qtime} {ticks power : Nat}
    (fits : qtime.digits power * ticks < 2 ^ 32) : ∃ j ≤ power, qtime.Kept ticks j := by
  classical
  have nonzero : ∃ j, qtime.digits j * ticks < 2 ^ 32 := ⟨power, fits⟩
  exact ⟨Nat.find nonzero, Nat.find_min' nonzero fits,
    fun i less => Nat.le_of_not_lt (Nat.find_min nonzero less), Nat.find_spec nonzero⟩

/-- The rounds before it drop a digit of the rate each, those after it one of the product. -/
theorem roundsDown_at {ticks power rate j : Nat} (left : 10 ^ power ≤ rate) (le : j ≤ power)
    (beyond : ∀ i < j, 2 ^ 32 ≤ rate / 10 ^ i * ticks) (fits : rate / 10 ^ j * ticks < 2 ^ 32) :
    roundsDown ticks power rate 0 false =
      some (rate / 10 ^ j * ticks / 10 ^ (power - j), false) := by
  induction j generalizing power rate with
  | zero =>
    rw [Nat.pow_zero, Nat.div_one] at fits ⊢
    exact roundsDown_fits left fits
  | succ j ih =>
    obtain ⟨power, rfl⟩ : ∃ n, power = n + 1 := ⟨power - 1, by omega⟩
    have pos : 0 < rate := Nat.lt_of_lt_of_le (Nat.pow_pos (by decide)) left
    have first : 2 ^ 32 ≤ rate * ticks := by
      have first := beyond 0 (Nat.succ_pos j)
      rwa [Nat.pow_zero, Nat.div_one] at first
    have shift : ∀ i, rate / 10 ^ (i + 1) = rate / 10 / 10 ^ i := fun i => by
      rw [Nat.pow_succ, Nat.mul_comm, Nat.div_div_eq_div_mul]
    rw [shift] at fits ⊢
    unfold roundsDown
    rw [product_over pos first]
    show roundsDown ticks power (rate / 10) 0 false = _
    rw [ih (left_div left) (by omega) (fun i less => shift i ▸ beyond (i + 1) (by omega)) fits,
      Nat.add_sub_add_right]

/-! ## The nanoseconds -/

theorem roundsUp_fits {power ns : Nat} (fits : ns * 10 ^ power < 2 ^ 32) :
    roundsUp power (ns, false) = (ns * 10 ^ power, false) := by
  induction power generalizing ns with
  | zero =>
    rw [Nat.pow_zero, Nat.mul_one]
    rfl
  | succ power ih =>
    have tens : 0 < 10 ^ power := Nat.pow_pos (by decide)
    rw [Nat.pow_succ, Nat.mul_comm _ 10, ← Nat.mul_assoc] at fits ⊢
    have once : ns * 10 < 2 ^ 32 := Nat.lt_of_le_of_lt (Nat.le_mul_of_pos_right _ tens) fits
    unfold roundsUp
    rw [Nat.mod_eq_of_lt once, decide_eq_false (not_not_intro rfl)]
    exact ih fits

theorem Qtime.duration_mul (qtime : Qtime) (ticks : Nat) :
    qtime.duration ticks * (10 ^ qtime.power.toNat : Nat) =
      (ticks * qtime.timerRate * 10 ^ (-qtime.power).toNat : Nat) := by
  have zero : (10 : ℚ) ≠ 0 := by norm_num
  have level : qtime.timerScale + 9 + (qtime.power.toNat : Int) = ((-qtime.power).toNat : Int) := by
    unfold Qtime.power
    omega
  unfold Qtime.duration
  push_cast
  rw [mul_assoc, ← zpow_natCast, ← zpow_add₀ zero, level, zpow_natCast]

theorem Qtime.le_duration_iff (qtime : Qtime) (ticks ns : Nat) :
    (ns : ℚ) ≤ qtime.duration ticks ↔
      ns * 10 ^ qtime.power.toNat ≤ ticks * qtime.timerRate * 10 ^ (-qtime.power).toNat := by
  have tens : (0 : ℚ) < (10 ^ qtime.power.toNat : Nat) := by
    exact_mod_cast Nat.pow_pos (by decide : 0 < 10)
  rw [← mul_le_mul_iff_of_pos_right tens, qtime.duration_mul]
  exact_mod_cast Iff.rfl

theorem Qtime.duration_lt_iff (qtime : Qtime) (ticks : Nat) :
    qtime.duration ticks < 2 ^ 32 ↔
      ticks * qtime.timerRate * 10 ^ (-qtime.power).toNat < 2 ^ 32 * 10 ^ qtime.power.toNat := by
  have tens : (0 : ℚ) < (10 ^ qtime.power.toNat : Nat) := by
    exact_mod_cast Nat.pow_pos (by decide : 0 < 10)
  rw [← mul_lt_mul_iff_of_pos_right tens, qtime.duration_mul]
  exact_mod_cast Iff.rfl

theorem InRange.mono {qtime : Qtime} {ticks ticks' : Nat} (le : ticks ≤ ticks')
    (range : InRange qtime ticks') : InRange qtime ticks := by
  have short := (qtime.duration_lt_iff ticks').mp range.short
  refine ⟨le.trans range.word, (qtime.duration_lt_iff ticks).mpr ?_⟩
  exact Nat.lt_of_le_of_lt (Nat.mul_le_mul_right _ (Nat.mul_le_mul_right _ le)) short

theorem Qtime.digits_le (qtime : Qtime) {power j : Nat} (ticks : Nat) (le : j ≤ power) :
    qtime.digits j * ticks / 10 ^ (power - j) * 10 ^ power ≤ ticks * qtime.timerRate := by
  have level : 10 ^ power = 10 ^ (power - j) * 10 ^ j := by
    rw [← Nat.pow_add, Nat.sub_add_cancel le]
  calc qtime.digits j * ticks / 10 ^ (power - j) * 10 ^ power
      = qtime.digits j * ticks / 10 ^ (power - j) * 10 ^ (power - j) * 10 ^ j := by
        rw [level, Nat.mul_assoc]
    _ ≤ qtime.digits j * ticks * 10 ^ j := Nat.mul_le_mul_right _ (Nat.div_mul_le_self _ _)
    _ = qtime.digits j * 10 ^ j * ticks := Nat.mul_right_comm _ _ _
    _ ≤ qtime.timerRate * ticks := Nat.mul_le_mul_right _ (Nat.div_mul_le_self _ _)
    _ = ticks * qtime.timerRate := Nat.mul_comm _ _

/-- The nanoseconds for a product kept in round `j` -/
def Qtime.value (qtime : Qtime) (ticks j : Nat) : Nat :=
  qtime.digits j * ticks / 10 ^ (qtime.power.toNat - j)

variable {qtime : Qtime} {ticks : Nat}

theorem InRange.value_le (qtime : Qtime) (ticks : Nat) {j : Nat} (le : j ≤ qtime.power.toNat) :
    ((qtime.value ticks j * 10 ^ (-qtime.power).toNat : Nat) : ℚ) ≤ qtime.duration ticks := by
  rw [Qtime.le_duration_iff, Nat.mul_right_comm]
  exact Nat.mul_le_mul_right _ (qtime.digits_le ticks le)

theorem InRange.tick2ns (range : InRange qtime ticks) {j : Nat}
    (left : 0 < qtime.digits qtime.power.toNat) (le : j ≤ qtime.power.toNat)
    (kept : qtime.Kept ticks j) :
    timerTick2ns qtime ticks =
      some (qtime.value ticks j * 10 ^ (-qtime.power).toNat, false) := by
  have tens : 10 ^ qtime.power.toNat ≤ qtime.timerRate := (Nat.div_pos_iff.mp left).2
  have fits : qtime.value ticks j * 10 ^ (-qtime.power).toNat < 2 ^ 32 := by
    have short := lt_of_le_of_lt (InRange.value_le qtime ticks le) range.short
    exact_mod_cast short
  unfold timerTick2ns
  rw [roundsDown_at tens le kept.beyond kept.fits]
  exact congrArg some (roundsUp_fits fits)

theorem InRange.fits_last (range : InRange qtime ticks) :
    qtime.digits qtime.power.toNat * ticks < 2 ^ 32 := by
  have short := (qtime.duration_lt_iff ticks).mp range.short
  have tens : 0 < 10 ^ qtime.power.toNat := Nat.pow_pos (by decide)
  have le := qtime.digits_le ticks (Nat.le_refl qtime.power.toNat)
  have up : 0 < 10 ^ (-qtime.power).toNat := Nat.pow_pos (by decide)
  rw [Nat.sub_self, Nat.pow_zero, Nat.div_one] at le
  refine Nat.lt_of_mul_lt_mul_right (a := 10 ^ qtime.power.toNat) ?_
  exact Nat.lt_of_le_of_lt (le.trans (Nat.le_mul_of_pos_right _ up)) short

theorem InRange.exists_kept (range : InRange qtime ticks) :
    ∃ j ≤ qtime.power.toNat, qtime.Kept ticks j := Qtime.exists_kept range.fits_last

/-! ## The thresholds -/

theorem Qtime.kept_last {j : Nat} (pos : 0 < qtime.digits j) (word : qtime.timerRate ≤ ULONG_MAX) :
    qtime.Kept (qtime.last j) j := by
  have max : ULONG_MAX = 4294967295 := rfl
  have small : qtime.digits j ≤ ULONG_MAX := (Nat.div_le_self _ _).trans word
  have nonzero : 0 < qtime.last j := Nat.div_pos small pos
  have low : qtime.digits j * qtime.last j ≤ ULONG_MAX := Nat.mul_div_le _ _
  have high : ULONG_MAX < qtime.digits j * qtime.last j + qtime.digits j := by
    rw [← Nat.mul_succ]
    exact Nat.lt_mul_div_succ ULONG_MAX pos
  have whole : qtime.digits j ≤ qtime.digits j * qtime.last j := Nat.le_mul_of_pos_right _ nonzero
  refine ⟨fun i less => ?_, by omega⟩
  have digit : qtime.digits j * 10 ≤ qtime.digits i :=
    calc qtime.digits j * 10 ≤ qtime.digits (i + 1) * 10 :=
          Nat.mul_le_mul_right _ (qtime.digits_anti less)
      _ ≤ qtime.digits i := by
          rw [qtime.digits_succ]
          exact Nat.div_mul_le_self _ _
  have ten := Nat.mul_le_mul_right (qtime.last j) digit
  rw [Nat.mul_right_comm] at ten
  omega

theorem Qtime.kept_next {j : Nat} (word : qtime.timerRate ≤ ULONG_MAX)
    (kept : qtime.Kept ticks j) (beyond : 2 ^ 32 ≤ qtime.digits j * (ticks + 1)) :
    qtime.Kept (ticks + 1) (j + 1) := by
  have max : ULONG_MAX = 4294967295 := rfl
  have small : qtime.digits j ≤ ULONG_MAX := (Nat.div_le_self _ _).trans word
  refine ⟨fun i less => ?_, ?_⟩
  · rcases Nat.lt_succ_iff_lt_or_eq.mp less with before | rfl
    · exact (kept.beyond i before).trans (Nat.mul_le_mul_left _ (Nat.le_succ _))
    · exact beyond
  · have fits := kept.fits
    have tenth : qtime.digits (j + 1) * (ticks + 1) * 10 ≤ qtime.digits j * (ticks + 1) := by
      rw [qtime.digits_succ, Nat.mul_right_comm]
      exact Nat.mul_le_mul_right _ (Nat.div_mul_le_self _ _)
    rw [Nat.mul_succ (qtime.digits j)] at tenth
    omega

theorem Qtime.last_over {j : Nat} (pos : 0 < qtime.digits j) :
    2 ^ 32 ≤ qtime.digits j * (qtime.last j + 1) := Nat.lt_mul_div_succ ULONG_MAX pos

/-- A count that fits in a round with the next one not fitting is the last one of that round. -/
theorem Qtime.eq_last {j : Nat} (fits : qtime.digits j * ticks < 2 ^ 32)
    (beyond : 2 ^ 32 ≤ qtime.digits j * (ticks + 1)) : ticks = qtime.last j := by
  have pos : 0 < qtime.digits j := Nat.pos_of_ne_zero fun zero => by
    rw [zero, Nat.zero_mul] at beyond
    exact absurd beyond (by decide)
  refine (Nat.div_eq_of_lt_le ?_ ?_).symm
  · rw [Nat.mul_comm]
    exact Nat.le_of_lt_succ fits
  · rw [Nat.mul_comm]
    exact beyond

theorem Steps.succ {ns ns' : Nat} {wrapped wrapped' : Bool} (steps : Steps qtime)
    (left : 0 < qtime.digits qtime.power.toNat) (word : qtime.timerRate ≤ ULONG_MAX)
    (range : InRange qtime (ticks + 1)) (first : timerTick2ns qtime ticks = some (ns, wrapped))
    (second : timerTick2ns qtime (ticks + 1) = some (ns', wrapped')) : ns ≤ ns' := by
  have range' : InRange qtime ticks := range.mono (Nat.le_succ ticks)
  obtain ⟨j, le, kept⟩ := range'.exists_kept
  rw [range'.tick2ns left le kept] at first
  obtain ⟨rfl, -⟩ := Prod.mk.inj (Option.some.inj first)
  by_cases fits : qtime.digits j * (ticks + 1) < 2 ^ 32
  · have more : qtime.digits j * ticks ≤ qtime.digits j * (ticks + 1) :=
      Nat.mul_le_mul_left _ (Nat.le_succ ticks)
    have kept' : qtime.Kept (ticks + 1) j :=
      ⟨fun i less => (kept.beyond i less).trans (Nat.mul_le_mul_left _ (Nat.le_succ ticks)), fits⟩
    rw [range.tick2ns left le kept'] at second
    obtain ⟨rfl, -⟩ := Prod.mk.inj (Option.some.inj second)
    exact Nat.mul_le_mul_right _ (Nat.div_le_div_right more)
  · have beyond := Nat.le_of_not_lt fits
    have less : j < qtime.power.toNat := lt_of_le_of_ne le fun same => by
      rw [same] at fits
      exact fits range.fits_last
    have kept' := Qtime.kept_next word kept beyond
    rw [range.tick2ns left less kept'] at second
    obtain ⟨rfl, -⟩ := Prod.mk.inj (Option.some.inj second)
    have threshold := Qtime.eq_last kept.fits beyond
    have step := steps j less (threshold ▸ range.short)
    rw [← threshold] at step
    exact Nat.mul_le_mul_right _ step

theorem Steps.mono {ticks' : Nat} (steps : Steps qtime)
    (left : 0 < qtime.digits qtime.power.toNat) (word : qtime.timerRate ≤ ULONG_MAX)
    (le : ticks ≤ ticks') : InRange qtime ticks' → ∀ ns ns' wrapped wrapped',
      timerTick2ns qtime ticks = some (ns, wrapped) →
      timerTick2ns qtime ticks' = some (ns', wrapped') → ns ≤ ns' := by
  induction ticks', le using Nat.le_induction with
  | base =>
    intro _ ns ns' wrapped wrapped' first second
    rw [first] at second
    exact (Prod.mk.inj (Option.some.inj second)).1.le
  | succ ticks' le ih =>
    intro range ns ns' wrapped wrapped' first second
    have range' : InRange qtime ticks' := range.mono (Nat.le_succ ticks')
    obtain ⟨j, below, kept⟩ := range'.exists_kept
    have middle := range'.tick2ns left below kept
    exact (ih range' ns _ wrapped false first middle).trans
      (steps.succ left word range middle second)

theorem Converts.steps (converts : Converts qtime) (left : 0 < qtime.digits qtime.power.toNat)
    (word : qtime.timerRate ≤ ULONG_MAX) : Steps qtime := by
  intro j less short
  have max : ULONG_MAX = 4294967295 := rfl
  have ten : 10 ≤ qtime.digits j := by
    have next : 0 < qtime.digits (j + 1) := lt_of_lt_of_le left (qtime.digits_anti less)
    rw [qtime.digits_succ] at next
    omega
  have few : qtime.last j ≤ ULONG_MAX / 10 := Nat.div_le_div_left ten (by decide)
  have range : InRange qtime (qtime.last j + 1) := ⟨by omega, short⟩
  have range' : InRange qtime (qtime.last j) := range.mono (Nat.le_succ _)
  have pos : 0 < qtime.digits j := by omega
  have kept := Qtime.kept_last pos word
  have kept' := Qtime.kept_next word kept (Qtime.last_over pos)
  have le := converts.mono _ _ _ _ _ _ (Nat.le_succ _) range (range'.tick2ns left less.le kept)
    (range.tick2ns left less kept')
  exact Nat.le_of_mul_le_mul_right le (Nat.pow_pos (by decide))

theorem inRange_zero (qtime : Qtime) : InRange qtime 0 := by
  refine ⟨Nat.zero_le _, ?_⟩
  unfold Qtime.duration
  rw [Nat.cast_zero, zero_mul, zero_mul]
  norm_num

/-- With what `invert_timer_freq` stores, `timer_tick2ns` converts every count in range without a
division by zero and in order just when the frequency leaves a digit of the rate for the last
round, and no threshold loses more with a digit than its tick adds. -/
theorem tick2ns_iff {freq : Nat} {qtime : Qtime} (inverts : Inverts freq qtime) :
    Converts qtime ↔ freq ≤ 1000000009 ∧ Steps qtime := by
  have word := inverts.rate_le
  rw [← inverts.digits_pos_iff]
  constructor
  · intro converts
    have left : 0 < qtime.digits qtime.power.toNat := by
      obtain ⟨ns, ends⟩ := converts.ends 0 (inRange_zero qtime)
      unfold timerTick2ns at ends
      by_contra gone
      rw [roundsDown_zero, if_neg fun le => gone (Nat.div_pos le (Nat.pow_pos (by decide)))] at ends
      cases ends
    exact ⟨left, converts.steps left word⟩
  · rintro ⟨left, steps⟩
    refine ⟨fun ticks range => ?_, fun ticks ns wrapped range ends => ?_,
      fun ticks ticks' ns ns' wrapped wrapped' le range => ?_⟩
    · obtain ⟨j, le, kept⟩ := range.exists_kept
      exact ⟨_, range.tick2ns left le kept⟩
    · obtain ⟨j, le, kept⟩ := range.exists_kept
      rw [range.tick2ns left le kept] at ends
      obtain ⟨rfl, -⟩ := Prod.mk.inj (Option.some.inj ends)
      exact InRange.value_le qtime ticks le
    · exact steps.mono left word le range ns ns' wrapped wrapped'

/-- At 3 Hz the rate 3333333333 gives way to 333333333 after one tick of 333333333 ns, and two
ticks take 666666666 ns. -/
theorem tick2ns_three : Converts ⟨3333333333, -10⟩ := by
  have inverts : Inverts 3 ⟨3333333333, -10⟩ := ⟨by decide, 30, by decide⟩
  refine (tick2ns_iff inverts).mpr ⟨by decide, fun j less _ => ?_⟩
  have first : j = 0 := Nat.lt_one_iff.mp less
  rw [first]
  decide

/-- At 66 MHz 283477 ticks are 4294960 ns, and 283478 ticks are 4294691 ns. At 2 GHz no ticks at all
divide by zero. -/
theorem tick2ns_broken :
    (∃ qtime, Inverts 66000000 qtime ∧ InRange qtime 283478 ∧
      timerTick2ns qtime 283477 = some (4294960, false) ∧
      timerTick2ns qtime 283478 = some (4294691, false) ∧ ¬ Converts qtime) ∧
    ∃ qtime, Inverts 2000000000 qtime ∧ InRange qtime 0 ∧ timerTick2ns qtime 0 = none ∧
      ¬ Converts qtime := by
  have range : InRange ⟨1515151515, -17⟩ 283478 :=
    ⟨by decide, (Qtime.duration_lt_iff _ _).mpr (by decide)⟩
  have first : timerTick2ns ⟨1515151515, -17⟩ 283477 = some (4294960, false) := by decide
  have second : timerTick2ns ⟨1515151515, -17⟩ 283478 = some (4294691, false) := by decide
  have gone : timerTick2ns ⟨5, -10⟩ 0 = none := by decide
  refine ⟨⟨⟨1515151515, -17⟩, ⟨by decide, 30, by decide⟩, range, first, second, ?_⟩,
    ⟨⟨5, -10⟩, ⟨by decide, 30, by decide⟩, inRange_zero _, gone, ?_⟩⟩
  · intro converts
    have le := converts.mono _ _ _ _ _ _ (by decide) range first second
    exact absurd le (by decide)
  · intro converts
    obtain ⟨ns, ends⟩ := converts.ends 0 (inRange_zero _)
    rw [gone] at ends
    cases ends

end Mx6xBsp.Startup.Timer
