import Mx6xBsp.Startup.TimerTicks

/-!
# The period of a timer

`invert_timer_freq` divides one by the frequency, a decimal digit a round. For a frequency of at
most `ULONG_MAX / 10` the division ends after 19 rounds at most, no sum or product of it wraps
around, and it stops at the exact period or where a further digit would not be sure to fit
(`invertTimerFreq_inverse`).
-/

namespace Mx6xBsp.Startup.Timer

/-- `invertLoop` with a note whether a sum or a product has wrapped around -/
def invertWatched (freq : Nat) : Nat → Nat → Nat → Int → Bool → Option (Qtime × Bool)
  | 0, _, _, _, _ => none
  | fuel + 1, rate, quot, scale, wrapped =>
    let div := quot / freq
    let wrapped := wrapped || decide (2 ^ 32 ≤ rate * 10 + div)
    let rate := (rate * 10 + div) % 2 ^ 32
    if rate ≥ ULONG_MAX / 10 - 10 then some (⟨rate, scale⟩, wrapped)
    else
      let rem := quot % freq
      if rem = 0 then some (⟨rate, scale⟩, wrapped)
      else invertWatched freq fuel rate (rem * 10 % 2 ^ 32) (scale - 1)
        (wrapped || decide (2 ^ 32 ≤ rem * 10))

/-- `invert_timer_freq` with the note -/
def invertTimerFreqWatched (fuel freq : Nat) : Option (Qtime × Bool) :=
  if freq = 0 then none
  else if freq > ULONG_MAX / 10 then invertWatched (freq / 10) fuel 0 1 (-1) false
  else invertWatched freq fuel 0 1 0 false

/-- What is stored is the period of `freq`, rounded down, exactly or with all digits but one that an
`unsigned long` is sure to hold. -/
structure Inverse (freq : Nat) (qtime : Qtime) : Prop where
  word : qtime.timerRate ≤ ULONG_MAX
  below : (qtime.timerRate : ℚ) * 10 ^ qtime.timerScale ≤ 1 / freq
  above : (1 / freq : ℚ) < (qtime.timerRate + 1) * 10 ^ qtime.timerScale
  precise : (qtime.timerRate : ℚ) * 10 ^ qtime.timerScale = 1 / freq ∨
    ULONG_MAX / 10 - 10 ≤ qtime.timerRate

theorem invertWatched_fst (freq fuel rate quot : Nat) (scale : Int) (wrapped : Bool) :
    (invertWatched freq fuel rate quot scale wrapped).map Prod.fst =
      invertLoop freq fuel rate quot scale := by
  induction fuel generalizing rate quot scale wrapped with
  | zero => rfl
  | succ fuel ih =>
    unfold invertWatched invertLoop
    dsimp only
    split
    · rfl
    · split
      · rfl
      · exact ih _ _ _ _

theorem Head.watched {freq fuel k rate quot : Nat} {scale : Int} {kept : Qtime × Bool}
    (pos : 0 < freq) (bound : freq ≤ ULONG_MAX / 10) (head : Head freq k rate quot)
    (stores : invertWatched freq fuel rate quot scale false = some kept) : kept.2 = false := by
  induction fuel generalizing k rate quot scale with
  | zero => cases stores
  | succ fuel ih =>
    obtain ⟨quotient, remainder⟩ := head.divided pos
    have max : ULONG_MAX = 4294967295 := rfl
    have word := head.rate_le pos
    have rest := Nat.mod_lt quot pos
    have sum : rate * 10 + quot / freq < 2 ^ 32 := by omega
    have product : quot % freq * 10 < 2 ^ 32 := by omega
    have next := Head.next (k := k) pos
    rw [quotient, remainder] at next
    unfold invertWatched at stores
    dsimp only at stores
    rw [Nat.mod_eq_of_lt sum, Nat.mod_eq_of_lt product, decide_eq_false (Nat.not_le.mpr sum),
      decide_eq_false (Nat.not_le.mpr product), Bool.or_self] at stores
    split at stores
    · cases stores
      rfl
    · split at stores
      · cases stores
        rfl
      · rename_i room _
        exact ih (next room) stores

theorem invertLoop_more {freq fuel fuel' rate quot : Nat} {scale : Int} {qtime : Qtime}
    (le : fuel ≤ fuel') (stores : invertLoop freq fuel rate quot scale = some qtime) :
    invertLoop freq fuel' rate quot scale = some qtime := by
  induction fuel generalizing fuel' rate quot scale with
  | zero => cases stores
  | succ fuel ih =>
    obtain ⟨fuel', rfl⟩ : ∃ f, fuel' = f + 1 := ⟨fuel' - 1, by omega⟩
    unfold invertLoop at stores ⊢
    dsimp only at stores ⊢
    by_cases full : (rate * 10 + quot / freq) % 2 ^ 32 ≥ ULONG_MAX / 10 - 10
    · rw [if_pos full] at stores ⊢
      exact stores
    · rw [if_neg full] at stores ⊢
      by_cases exact : quot % freq = 0
      · rw [if_pos exact] at stores ⊢
        exact stores
      · rw [if_neg exact] at stores ⊢
        exact ih (Nat.le_of_succ_le_succ le) stores

/-- A decimal fraction and the period, both times `10 ^ k` and the frequency -/
theorem le_period_iff {freq : Nat} (pos : 0 < freq) (n k : Nat) :
    (n : ℚ) * 10 ^ (-(k : Int)) ≤ 1 / freq ↔ n * freq ≤ 10 ^ k := by
  have tens : (0 : ℚ) < 10 ^ k := pow_pos (by norm_num) k
  have divisor : (0 : ℚ) < freq := by exact_mod_cast pos
  rw [zpow_neg, zpow_natCast, ← div_eq_mul_inv, div_le_div_iff₀ tens divisor, one_mul]
  exact_mod_cast Iff.rfl

theorem period_le_iff {freq : Nat} (pos : 0 < freq) (n k : Nat) :
    (1 / freq : ℚ) ≤ n * 10 ^ (-(k : Int)) ↔ 10 ^ k ≤ n * freq := by
  have tens : (0 : ℚ) < 10 ^ k := pow_pos (by norm_num) k
  have divisor : (0 : ℚ) < freq := by exact_mod_cast pos
  rw [zpow_neg, zpow_natCast, ← div_eq_mul_inv, div_le_div_iff₀ divisor tens, one_mul]
  exact_mod_cast Iff.rfl

/-- The rate after `k` digits is the period to those digits. -/
theorem Inverse.of_digits {freq k : Nat} (pos : 0 < freq) (word : 10 ^ k / freq ≤ ULONG_MAX)
    (stop : 10 ^ k % freq = 0 ∨ ULONG_MAX / 10 - 10 ≤ 10 ^ k / freq) :
    Inverse freq ⟨10 ^ k / freq, -(k : Int)⟩ := by
  have below : 10 ^ k / freq * freq ≤ 10 ^ k := Nat.div_mul_le_self _ _
  have above : 10 ^ k < (10 ^ k / freq + 1) * freq := by
    rw [Nat.mul_comm]
    exact Nat.lt_mul_div_succ _ pos
  refine ⟨word, (le_period_iff pos _ k).mpr below, ?_, ?_⟩
  · have short := mt (le_period_iff pos (10 ^ k / freq + 1) k).mp (Nat.not_le.mpr above)
    rw [Nat.cast_add, Nat.cast_one] at short
    exact not_le.mp short
  · rcases stop with exact | full
    · have whole : 10 ^ k / freq * freq = 10 ^ k :=
        Nat.div_mul_cancel (Nat.dvd_of_mod_eq_zero exact)
      apply Or.inl
      apply le_antisymm
      · exact (le_period_iff pos _ k).mpr whole.le
      · exact (period_le_iff pos _ k).mpr whole.ge
    · exact Or.inr full

/-- Up to `ULONG_MAX / 10` the division comes to an end in 19 rounds without wrapping around, and
what it stores is the period: rounded down, and exactly or with as many digits as are sure to
fit. -/
theorem invertTimerFreq_inverse (freq : Nat) (pos : 1 ≤ freq) (bound : freq ≤ ULONG_MAX / 10) :
    ∃ qtime, Inverse freq qtime ∧ ∀ fuel ≥ 19,
      invertTimerFreq fuel freq = some qtime ∧
      invertTimerFreqWatched fuel freq = some (qtime, false) := by
  have unfolded (fuel : Nat) : invertTimerFreq fuel freq = invertLoop freq fuel 0 1 0 := by
    unfold invertTimerFreq
    rw [if_neg (by omega), if_neg (by omega)]
  have watched (fuel : Nat) :
      invertTimerFreqWatched fuel freq = invertWatched freq fuel 0 1 0 false := by
    unfold invertTimerFreqWatched
    rw [if_neg (by omega), if_neg (by omega)]
  have head : Head freq 0 0 1 := Head.start pos
  obtain ⟨qtime, stores⟩ : ∃ qtime, invertLoop freq 19 0 1 0 = some qtime :=
    invertLoop_ends pos bound head (by omega)
  obtain ⟨k, same, word, stop⟩ := invertLoop_rate (e := 0) pos bound head stores
  rw [Int.sub_zero] at same
  subst same
  have inverse := Inverse.of_digits pos word stop
  refine ⟨_, inverse, fun fuel enough => ?_⟩
  have ends : invertLoop freq fuel 0 1 0 = some ⟨10 ^ k / freq, -(k : Int)⟩ :=
    invertLoop_more enough stores
  have first := invertWatched_fst freq fuel 0 1 0 false
  rw [ends, Option.map_eq_some_iff] at first
  obtain ⟨kept, same, shown⟩ := first
  refine ⟨(unfolded fuel).trans ends, ?_⟩
  rw [watched, same, ← shown, ← head.watched pos bound same]

/-- At 66 MHz a tick takes 1515151515 times 10^-17 seconds, to all the digits that fit. -/
theorem invertTimerFreq_66MHz :
    ∃ qtime, Inverse 66000000 qtime ∧ ∀ fuel ≥ 19,
      invertTimerFreq fuel 66000000 = some qtime ∧
      invertTimerFreqWatched fuel 66000000 = some (qtime, false) :=
  invertTimerFreq_inverse 66000000 (by decide) (by decide)

end Mx6xBsp.Startup.Timer
