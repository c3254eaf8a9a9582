import Mx6xBsp.Sdmmc.BusError

/-!
# Bus errors lead down

The settings an SD card or an MMC can be in after its bus was initialised are
`SdBus.Settled` and `MmcBus.Settled`. A bus error leads to a lower one unless the
host lacks a mode the card reports, the mode that follows has a higher clock, a rate
is below what is taken off it, or a mode given up comes back.
-/

namespace Mx6xBsp.Sdmmc

open Descent

theorem sdioClock_eq {hc : Hc} {clk : Nat} (low : hc.clkMin ≤ clk) :
    sdioClock hc clk = { hc with clk := min clk hc.clkMax } :=
  if_neg (Nat.not_lt_of_le low)

theorem sdioClock_low {hc : Hc} {clk : Nat} (low : clk < hc.clkMin) : sdioClock hc clk = hc :=
  if_pos low

/-- What a step has to show. -/
structure LeadsDown {σ : Type} (hc : σ → Hc) (Settled AtFloor : σ → Prop) (s t : σ) : Prop where
  settled : Settled t
  slower : ¬AtFloor s →
    Setting.Slower ⟨(hc t).timing.level, (hc t).clk⟩ ⟨(hc s).timing.level, (hc s).clk⟩
  rate : (hc t).clk ≤ (hc s).clk
  floor : AtFloor s → AtFloor t

theorem sub32_eq {a b : Nat} (le : b ≤ a) : sub32 a b = a - b := if_pos le

/-! ## The legacy rates -/

/-- Where a legacy rate is the last one. -/
def Hc.Lowest (hc : Hc) (dtrMax : Nat) : Prop :=
  dtrMax = DTR_MIN_LS ∨ dtrMax < hc.clkMin + DTR_LS_DEC

/-- The clock at a legacy rate, and the one at the rate after it. -/
structure LsStep (hc hc' : Hc) (dtrMax rate : Nat) : Prop where
  timing : hc'.timing = .ls
  clk : hc'.clkMin ≤ rate → hc'.clk = min rate hc'.clkMax
  slower : ¬hc.Lowest dtrMax → hc'.clk < hc.clk
  le : hc'.clk ≤ hc.clk
  lowest : hc.Lowest dtrMax → hc'.Lowest rate

section Rates

variable {floor dec rate clkMax : Nat}

theorem le_lowered : rate ≤ max floor (rate - dec) + dec := by omega

theorem lowered_lt (some : 0 < dec) (high : floor < rate) : max floor (rate - dec) < rate := by
  omega

theorem clipped_lt (some : 0 < dec) (high : floor < rate) (fast : floor < clkMax)
    (near : rate < clkMax + dec) : min (max floor (rate - dec)) clkMax < min rate clkMax := by
  omega

end Rates

theorem sdioClock_ls {hc : Hc} {dtrMax rate : Nat}
    (clk : hc.clkMin ≤ dtrMax → hc.clk = min dtrMax hc.clkMax)
    (next : rate < dtrMax ∨ dtrMax = DTR_MIN_LS ∧ rate = DTR_MIN_LS)
    (near : dtrMax ≤ rate + DTR_LS_DEC)
    (fast : ¬hc.Lowest dtrMax → min rate hc.clkMax < min dtrMax hc.clkMax)
    (bottom : DTR_MIN_LS ≤ rate) :
    LsStep hc (sdioClock (sdioTiming hc .ls) rate) dtrMax rate := by
  have some : 0 < DTR_LS_DEC := by decide
  rcases Nat.lt_or_ge rate hc.clkMin with below | within
  · have clock : sdioClock (sdioTiming hc .ls) rate = { hc with timing := .ls } :=
      sdioClock_low below
    have lowest : hc.Lowest dtrMax := .inr (by omega)
    rw [clock]
    exact ⟨rfl, fun low => absurd low (Nat.not_le_of_lt below), fun above => absurd lowest above,
      Nat.le_refl _, fun _ => .inr (Nat.lt_add_right _ below)⟩
  · have clock : sdioClock (sdioTiming hc .ls) rate =
        { hc with timing := .ls, clk := min rate hc.clkMax } := sdioClock_eq within
    have falls : rate ≤ dtrMax := by omega
    have before := clk (Nat.le_trans within falls)
    have least : min rate hc.clkMax ≤ hc.clk := by omega
    have stays (lowest : hc.Lowest dtrMax) : rate = DTR_MIN_LS ∨ rate < hc.clkMin + DTR_LS_DEC := by
      unfold Hc.Lowest at lowest
      omega
    rw [clock]
    exact ⟨rfl, fun _ => rfl, fun above => before ▸ fast above, least, stays⟩

/-- A legacy rate that is not too low for a step, and not clipped by the host. -/
def lsFits (floor : Prop) (dtrMax clkMax : Nat) : Prop :=
  DTR_MIN_LS ≤ dtrMax ∧ (floor ∨ DTR_MIN_LS < clkMax ∧ dtrMax < clkMax + DTR_LS_DEC)

theorem lowered_ls {dtrMax : Nat} (high : DTR_MIN_LS ≤ dtrMax) :
    max DTR_MIN_LS (dtrMax - DTR_LS_DEC) < dtrMax ∨ dtrMax = DTR_MIN_LS ∧
      max DTR_MIN_LS (dtrMax - DTR_LS_DEC) = DTR_MIN_LS := by
  rcases Nat.eq_or_lt_of_le high with last | high
  · exact .inr ⟨last.symm, last ▸ Nat.max_eq_left (Nat.sub_le _ _)⟩
  · exact .inl (lowered_lt (by decide) high)

theorem lsFits.fast {floor : Prop} {dtrMax clkMax : Nat} (fits : lsFits floor dtrMax clkMax)
    (notLast : dtrMax ≠ DTR_MIN_LS) (above : ¬floor) :
    min (max DTR_MIN_LS (dtrMax - DTR_LS_DEC)) clkMax < min dtrMax clkMax := by
  obtain ⟨high, steps⟩ := fits
  obtain ⟨fast, near⟩ := steps.resolve_left above
  exact clipped_lt (by decide) (Nat.lt_of_le_of_ne high notLast.symm) fast near

theorem lsFits.of_floor {floor floor' : Prop} {dtrMax clkMax : Nat}
    (fits : lsFits floor dtrMax clkMax) (weaken : floor → floor') : lsFits floor' dtrMax clkMax :=
  ⟨fits.1, fits.2.imp_left weaken⟩

theorem lsFits.step {hc : Hc} {dtrMax : Nat} (fits : lsFits (hc.Lowest dtrMax) dtrMax hc.clkMax)
    (clk : hc.clkMin ≤ dtrMax → hc.clk = min dtrMax hc.clkMax) :
    LsStep hc
      (sdioClock (sdioTiming hc .ls) (max DTR_MIN_LS (sub32 dtrMax DTR_LS_DEC))) dtrMax
      (max DTR_MIN_LS (sub32 dtrMax DTR_LS_DEC)) := by
  have dec : sub32 dtrMax DTR_LS_DEC = dtrMax - DTR_LS_DEC :=
    sub32_eq (Nat.le_trans (by decide) fits.1)
  rw [dec]
  apply sdioClock_ls clk
  · exact lowered_ls fits.1
  · exact le_lowered
  · intro above
    exact fits.fast (fun last => above (.inl last)) above
  · exact Nat.le_max_left _ _

/-! ## SD -/

/-- What `sd_init_bus` leaves when its commands are carried out. -/
inductive SdBus.Settled (s : SdBus) : Prop
  | uhs (flag : s.uhs = true) (noHs : s.hs = false) (volt : s.volt18 = true)
    (timing : s.hc.timing = (sdSelectBusMode s.hostUhs s.busMode).timing)
    (clk : s.hc.clk = min (sdSelectBusMode s.hostUhs s.busMode).dtr s.hc.clkMax)
  | hs (noUhs : s.uhs = false) (flag : s.hs = true) (volt : s.volt18 = false)
    (cap : s.capHs = true) (timing : s.hc.timing = .hs)
    (clk : s.hc.clk = min s.dtrMaxHs s.hc.clkMax)
  | ls (noUhs : s.uhs = false) (noHs : s.hs = false) (volt : s.volt18 = false)
    (cap : s.capHs = false) (timing : s.hc.timing = .ls)
    (clk : s.hc.clkMin ≤ s.dtrMax → s.hc.clk = min s.dtrMax s.hc.clkMax)

/-- The modes the card has left when the one in use is given up. -/
def SdBus.modesLeft (s : SdBus) : UhsMode → Bool :=
  Function.update s.busMode (sdSelectBusMode s.hostUhs s.busMode) false

/-- The rate of the card at 3.3 V. -/
def SdBus.lowRate (s : SdBus) : Nat := if s.capHs then s.dtrMaxHs else s.dtrMax

/-- What a UHS card needs for a bus error to lead down: out of the last mode it has, the commands
and a rate at 3.3 V that is not above that of the mode; otherwise that the mode is not SDR12, and
not DDR50 with SDR50 left, but on a slow host. -/
def SdBus.UhsFits (s : SdBus) (env : SdEnv) : Prop :=
  let mode := sdSelectBusMode s.hostUhs s.busMode
  if noMode s.modesLeft then
    env.reset = true ∧ (s.capHs = true → env.hs = true) ∧ s.hc.clkMin ≤ s.lowRate ∧
      (s.lowRate ≤ mode.dtr ∨ s.hc.clkMax ≤ mode.dtr)
  else
    s.bw4 = true ∧ env.uhs = true ∧ mode ≠ .sdr12 ∧
      (mode = .ddr50 → sdSelectBusMode s.hostUhs s.modesLeft = .sdr50 →
        s.hc.clkMax ≤ DTR_MAX_DDR50)

/-- At high speed: the last step down leads to a legacy rate that is not higher, and the rates
before are neither too low for a step nor clipped by the host. -/
def SdBus.HsFits (s : SdBus) (env : SdEnv) : Prop :=
  if s.dtrMaxHs = DTR_MAX_HS26 then
    s.hc.clkMin ≤ s.dtrMax ∧ (s.dtrMax ≤ DTR_MAX_HS26 ∨ s.hc.clkMax ≤ DTR_MAX_HS26)
  else
    env.hs = true ∧ DTR_MAX_HS26 < s.dtrMaxHs ∧ DTR_MAX_HS26 < s.hc.clkMax ∧
      s.dtrMaxHs < s.hc.clkMax + DTR_HS_DEC

/-- When a bus error of an SD card leads down. -/
def SdBus.Fits (s : SdBus) (env : SdEnv) : Prop :=
  s.hc.clkMin ≤ DTR_MAX_SDR12 ∧ (s.bw4 = true → env.width = true) ∧
    if s.uhs then s.UhsFits env
    else if s.hs then s.HsFits env
    else lsFits s.AtFloor s.dtrMax s.hc.clkMax

section Select

variable {hostUhs busMode : UhsMode → Bool}

theorem select_both (other : sdSelectBusMode hostUhs busMode ≠ .sdr12) :
    hostUhs (sdSelectBusMode hostUhs busMode) = true ∧
      busMode (sdSelectBusMode hostUhs busMode) = true := by
  unfold sdSelectBusMode at other ⊢
  repeat' split
  all_goals simp_all

theorem le_select {mode : UhsMode} (host : hostUhs mode = true) (card : busMode mode = true) :
    mode.timing.level ≤ (sdSelectBusMode hostUhs busMode).timing.level := by
  unfold sdSelectBusMode
  cases mode <;> repeat' split
  all_goals simp_all [UhsMode.timing, Timing.level]

theorem UhsMode.level_inj {a b : UhsMode} (same : a.timing.level = b.timing.level) : a = b := by
  cases a <;> cases b <;> first | rfl | cases same

theorem level_sdr12_le (mode : UhsMode) : UhsMode.sdr12.timing.level ≤ mode.timing.level := by
  cases mode <;> decide

end Select

section Sd

variable {s : SdBus} {env : SdEnv}

theorem SdBus.next_lower (other : sdSelectBusMode s.hostUhs s.busMode ≠ .sdr12) :
    (sdSelectBusMode s.hostUhs s.modesLeft).timing.level <
      (sdSelectBusMode s.hostUhs s.busMode).timing.level := by
  apply Nat.lt_of_le_of_ne
  · rcases eq_or_ne (sdSelectBusMode s.hostUhs s.modesLeft) .sdr12 with last | more
    · rw [last]
      exact level_sdr12_le _
    · obtain ⟨host, left⟩ := select_both more
      have apart : sdSelectBusMode s.hostUhs s.modesLeft ≠
          sdSelectBusMode s.hostUhs s.busMode := by
        intro same
        unfold SdBus.modesLeft at left same
        rw [same, Function.update_self] at left
        cases left
      unfold SdBus.modesLeft at left apart host ⊢
      rw [Function.update_of_ne apart] at left
      exact le_select host left
  · intro same
    have same := UhsMode.level_inj same
    rcases eq_or_ne (sdSelectBusMode s.hostUhs s.modesLeft) .sdr12 with last | more
    · exact other (same.symm.trans last)
    · have left := (select_both more).2
      rw [same] at left
      unfold SdBus.modesLeft at left
      rw [Function.update_self] at left
      cases left

theorem UhsMode.dtr_le {a b : UhsMode} (lower : a.timing.level < b.timing.level)
    (other : ¬(b = .ddr50 ∧ a = .sdr50)) : a.dtr ≤ b.dtr := by
  cases a <;> cases b <;> first
    | decide
    | exact absurd lower (by decide)
    | exact absurd ⟨rfl, rfl⟩ other

theorem sdInitBus_uhs (volt : s.volt18 = true) (bw4 : s.bw4 = true) (width : env.width = true)
    (uhs : env.uhs = true) :
    sdInitBus env s =
      { s with
        hc := sdioClock (sdioTiming s.hc (sdSelectBusMode s.hostUhs s.busMode).timing)
          (sdSelectBusMode s.hostUhs s.busMode).dtr
        uhs := true } := by
  unfold sdInitBus sdInitUhs
  rw [volt, bw4, width, uhs]
  rfl

theorem sdInitBus_hs (volt : s.volt18 = false) (cap : s.capHs = true) (hs : env.hs = true)
    (width : s.bw4 = true → env.width = true) :
    sdInitBus env s =
      { s with hs := true, hc := sdioClock (sdioTiming s.hc .hs) s.dtrMaxHs } := by
  unfold sdInitBus
  rw [volt, cap, hs]
  cases bw4 : s.bw4 with
  | true => rw [width bw4]; rfl
  | false => rfl

theorem sdInitBus_ls (volt : s.volt18 = false) (cap : s.capHs = false)
    (width : s.bw4 = true → env.width = true) :
    sdInitBus env s = { s with hc := sdioClock (sdioTiming s.hc .ls) s.dtrMax } := by
  unfold sdInitBus
  rw [volt, cap]
  cases bw4 : s.bw4 with
  | true => rw [width bw4]; rfl
  | false => rfl

abbrev SdBus.Down : SdBus → SdBus → Prop := LeadsDown SdBus.hc SdBus.Settled SdBus.AtFloor

theorem SdBus.down_low {t : SdBus} (uhs : t.uhs = false) (hs : t.hs = false)
    (volt : t.volt18 = false) (width : t.bw4 = true → env.width = true)
    (switch : t.capHs = true → env.hs = true) (low : t.hc.clkMin ≤ t.lowRate)
    (rate : min t.lowRate t.hc.clkMax ≤ s.hc.clk)
    (lower : (if t.capHs then Timing.hs else Timing.ls).level < s.hc.timing.level)
    (above : ¬s.AtFloor) : s.Down (sdInitBus env t) := by
  unfold SdBus.lowRate at low rate
  cases cap : t.capHs with
  | true =>
    rw [cap] at low rate lower
    rw [sdInitBus_hs volt cap (switch cap) width]
    have clock : sdioClock (sdioTiming t.hc .hs) t.dtrMaxHs =
        { t.hc with timing := .hs, clk := min t.dtrMaxHs t.hc.clkMax } := sdioClock_eq low
    rw [clock]
    exact ⟨.hs uhs rfl volt cap rfl rfl, fun _ => .inl lower, rate,
      fun floor => absurd floor above⟩
  | false =>
    rw [cap] at low rate lower
    rw [sdInitBus_ls volt cap width]
    have clock : sdioClock (sdioTiming t.hc .ls) t.dtrMax =
        { t.hc with timing := .ls, clk := min t.dtrMax t.hc.clkMax } := sdioClock_eq low
    rw [clock]
    exact ⟨.ls uhs hs volt cap rfl fun _ => rfl, fun _ => .inl lower, rate,
      fun floor => absurd floor above⟩

theorem SdBus.down_uhs (flag : s.uhs = true) (noHs : s.hs = false) (volt : s.volt18 = true)
    (timing : s.hc.timing = (sdSelectBusMode s.hostUhs s.busMode).timing)
    (clk : s.hc.clk = min (sdSelectBusMode s.hostUhs s.busMode).dtr s.hc.clkMax)
    (min12 : s.hc.clkMin ≤ DTR_MAX_SDR12) (width : s.bw4 = true → env.width = true)
    (fits : s.UhsFits env) : s.Down (sdBusError env s) := by
  have above : ¬s.AtFloor := fun floor => absurd (flag.symm.trans floor.1) nofun
  unfold SdBus.UhsFits at fits
  dsimp only at fits
  unfold sdBusError
  rw [if_pos flag]
  dsimp only
  change s.Down (if noMode s.modesLeft = true then _ else _)
  split
  · next last =>
    rw [if_pos last] at fits
    obtain ⟨reset, switch, low, rate⟩ := fits
    unfold sdReset
    rw [if_pos reset]
    have clkMin : (sdioClock s.hc s.hc.clkInit).clkMin = s.hc.clkMin := by
      unfold sdioClock
      split <;> rfl
    have clkMax : (sdioClock s.hc s.hc.clkInit).clkMax = s.hc.clkMax := by
      unfold sdioClock
      split <;> rfl
    apply SdBus.down_low
    · rfl
    · exact noHs
    · rfl
    · exact width
    · exact switch
    · exact clkMin.symm ▸ low
    · change min s.lowRate (sdioClock s.hc s.hc.clkInit).clkMax ≤ s.hc.clk
      rw [clkMax, clk]
      omega
    · rw [timing]
      have bottom := level_sdr12_le (sdSelectBusMode s.hostUhs s.busMode)
      change 2 ≤ _ at bottom
      split
      · exact Nat.lt_of_lt_of_le (by decide : Timing.hs.level < 2) bottom
      · exact Nat.lt_of_lt_of_le (by decide : Timing.ls.level < 2) bottom
    · exact above
  · next more =>
    rw [if_neg more] at fits
    obtain ⟨bw4, uhs, other, ddr⟩ := fits
    have lower := s.next_lower other
    change s.Down (sdInitBus env { s with uhs := false, busMode := s.modesLeft })
    rw [sdInitBus_uhs (s := { s with uhs := false, busMode := s.modesLeft }) volt bw4 (width bw4)
      uhs]
    dsimp only
    have least : DTR_MAX_SDR12 ≤ (sdSelectBusMode s.hostUhs s.modesLeft).dtr := by
      cases sdSelectBusMode s.hostUhs s.modesLeft <;> decide
    have low : (sdioTiming s.hc (sdSelectBusMode s.hostUhs s.modesLeft).timing).clkMin ≤
        (sdSelectBusMode s.hostUhs s.modesLeft).dtr := Nat.le_trans min12 least
    have clock := sdioClock_eq low
    rw [clock]
    refine ⟨.uhs rfl noHs volt rfl rfl, fun _ => .inl (timing ▸ lower), ?_,
      fun floor => absurd floor above⟩
    change min _ s.hc.clkMax ≤ s.hc.clk
    rw [clk]
    rcases Classical.em (sdSelectBusMode s.hostUhs s.busMode = .ddr50 ∧
      sdSelectBusMode s.hostUhs s.modesLeft = .sdr50) with ⟨ddr50, sdr50⟩ | usual
    · have slow := ddr ddr50 sdr50
      rw [ddr50]
      change _ ≤ min DTR_MAX_DDR50 s.hc.clkMax
      omega
    · have rate := UhsMode.dtr_le lower usual
      omega

theorem SdBus.down_hs_rate (noUhs : s.uhs = false) (volt : s.volt18 = false) (cap : s.capHs = true)
    (timing : s.hc.timing = .hs) (width : s.bw4 = true → env.width = true) (switch : env.hs = true)
    (above : ¬s.AtFloor) {rate : Nat} (low : s.hc.clkMin ≤ rate)
    (lower : min rate s.hc.clkMax < s.hc.clk) :
    s.Down (sdInitBus env { s with hs := false, dtrMaxHs := rate }) := by
  have clock : sdioClock (sdioTiming s.hc .hs) rate =
      { s.hc with timing := .hs, clk := min rate s.hc.clkMax } := sdioClock_eq low
  rw [sdInitBus_hs (s := { s with hs := false, dtrMaxHs := rate }) volt cap switch width]
  dsimp only
  rw [clock]
  exact ⟨.hs noUhs rfl volt cap rfl rfl, fun _ => .inr ⟨congrArg Timing.level timing.symm, lower⟩,
    Nat.le_of_lt lower, fun floor => absurd floor above⟩

theorem SdBus.down_hs (noUhs : s.uhs = false) (flag : s.hs = true) (volt : s.volt18 = false)
    (cap : s.capHs = true) (timing : s.hc.timing = .hs)
    (clk : s.hc.clk = min s.dtrMaxHs s.hc.clkMax) (min12 : s.hc.clkMin ≤ DTR_MAX_SDR12)
    (width : s.bw4 = true → env.width = true) (fits : s.HsFits env) :
    s.Down (sdBusError env s) := by
  have above : ¬s.AtFloor := fun floor => absurd (flag.symm.trans floor.2.1) nofun
  unfold SdBus.HsFits at fits
  unfold sdBusError
  rw [if_neg (by rw [noUhs]; decide), if_pos flag]
  split
  · next last =>
    rw [if_pos last] at fits
    obtain ⟨low, rate⟩ := fits
    apply SdBus.down_low
    · exact noUhs
    · rfl
    · exact volt
    · exact width
    · exact nofun
    · exact low
    · change min s.dtrMax s.hc.clkMax ≤ s.hc.clk
      rw [clk, last]
      omega
    · rw [timing]
      exact (by decide : Timing.ls.level < Timing.hs.level)
    · exact above
  · next more =>
    rw [if_neg more] at fits
    obtain ⟨switch, high, fast, near⟩ := fits
    have dec : sub32 s.dtrMaxHs DTR_HS_DEC = s.dtrMaxHs - DTR_HS_DEC :=
      sub32_eq (Nat.le_trans (by decide) (Nat.le_of_lt high))
    have bottom : DTR_MAX_SDR12 ≤ DTR_MAX_HS26 := by decide
    have low : s.hc.clkMin ≤ max DTR_MAX_HS26 (s.dtrMaxHs - DTR_HS_DEC) :=
      Nat.le_trans (Nat.le_trans min12 bottom) (Nat.le_max_left _ _)
    have lower := clipped_lt (by decide) high fast near
    rw [dec]
    rw [← clk] at lower
    exact SdBus.down_hs_rate noUhs volt cap timing width switch above low lower

theorem SdBus.down_ls_rate (noUhs : s.uhs = false) (noHs : s.hs = false) (volt : s.volt18 = false)
    (cap : s.capHs = false) (timing : s.hc.timing = .ls) (width : s.bw4 = true → env.width = true)
    {rate : Nat} (step : LsStep s.hc (sdioClock (sdioTiming s.hc .ls) rate) s.dtrMax rate) :
    s.Down (sdInitBus env { s with dtrMax := rate }) := by
  rw [sdInitBus_ls (s := { s with dtrMax := rate }) volt cap width]
  refine ⟨.ls noUhs noHs volt cap step.timing step.clk, fun above => ?_, step.le, fun floor => ?_⟩
  · have above : ¬s.hc.Lowest s.dtrMax := fun lowest => above ⟨noUhs, noHs, timing, lowest⟩
    exact .inr ⟨congrArg Timing.level (step.timing.trans timing.symm), step.slower above⟩
  · exact ⟨noUhs, noHs, step.timing, step.lowest floor.2.2.2⟩

theorem SdBus.down_ls (noUhs : s.uhs = false) (noHs : s.hs = false) (volt : s.volt18 = false)
    (cap : s.capHs = false) (timing : s.hc.timing = .ls)
    (clk : s.hc.clkMin ≤ s.dtrMax → s.hc.clk = min s.dtrMax s.hc.clkMax)
    (width : s.bw4 = true → env.width = true) (fits : lsFits s.AtFloor s.dtrMax s.hc.clkMax) :
    s.Down (sdBusError env s) := by
  have fits := fits.of_floor fun floor => floor.2.2.2
  unfold sdBusError
  rw [if_neg (by rw [noUhs]; decide), if_neg (by rw [noHs]; decide)]
  exact SdBus.down_ls_rate noUhs noHs volt cap timing width (fits.step clk)

theorem SdBus.Settled.down (settled : s.Settled) (fits : s.Fits env) :
    s.Down (sdBusError env s) := by
  obtain ⟨min12, width, fits⟩ := fits
  cases settled with
  | uhs flag noHs volt timing clk =>
    rw [if_pos flag] at fits
    exact SdBus.down_uhs flag noHs volt timing clk min12 width fits
  | hs noUhs flag volt cap timing clk =>
    rw [if_neg (by rw [noUhs]; decide), if_pos flag] at fits
    exact SdBus.down_hs noUhs flag volt cap timing clk min12 width fits
  | ls noUhs noHs volt cap timing clk =>
    rw [if_neg (by rw [noUhs]; decide), if_neg (by rw [noHs]; decide)] at fits
    exact SdBus.down_ls noUhs noHs volt cap timing clk width fits

end Sd

/-! ## MMC -/

/-- No mode, and a single one, as the flags. -/
def noFlag : MmcModes := ⟨false, false, false, false⟩

/-- What `mmc_init_bus` leaves. A card with HS200 or HS400 has high speed too. -/
inductive MmcBus.Settled (s : MmcBus) : Prop
  | hs400 (flag : s.flag = ⟨true, false, false, false⟩) (timing : s.hc.timing = .hs400)
    (clk : s.hc.clk = min s.dtrMaxHs s.hc.clkMax) (high : DTR_MAX_HS52 < s.dtrMaxHs)
    (cap : s.cap.hs = true)
  | hs200 (flag : s.flag = ⟨false, true, false, false⟩) (timing : s.hc.timing = .hs200)
    (clk : s.hc.clk = min s.dtrMaxHs s.hc.clkMax) (high : DTR_MAX_HS52 < s.dtrMaxHs)
    (cap : s.cap.hs = true)
  | ddr50 (flag : s.flag = ⟨false, false, true, true⟩) (timing : s.hc.timing = .ddr50)
    (clk : s.hc.clk = min s.dtrMaxHs s.hc.clkMax) (low : s.dtrMaxHs ≤ DTR_MAX_HS52)
    (cap : s.cap.hs = true)
  | hs (flag : s.flag = ⟨false, false, true, false⟩) (timing : s.hc.timing = .hs)
    (clk : s.hc.clk = min s.dtrMaxHs s.hc.clkMax) (low : s.dtrMaxHs ≤ DTR_MAX_HS52)
    (cap : s.cap.hs = true)
  | ls (flag : s.flag = noFlag) (timing : s.hc.timing = .ls)
    (clk : s.hc.clkMin ≤ s.dtrMax → s.hc.clk = min s.dtrMax s.hc.clkMax)
    (low : s.dtrMaxHs ≤ DTR_MAX_HS52)

abbrev MmcBus.Down : MmcBus → MmcBus → Prop := LeadsDown MmcBus.hc MmcBus.Settled MmcBus.AtFloor

/-- HS200, or high speed, is there to fall back to, and can be switched to. -/
def MmcBus.Takes200 (s : MmcBus) (env : MmcEnv) : Prop :=
  s.cap.hs200 = true ∧ 4 ≤ s.width ∧ env.hs200 = .ok

def MmcBus.TakesHs (s : MmcBus) (env : MmcEnv) : Prop := s.cap.hs = true ∧ env.hs = true

/-- The legacy rate is not above that of the mode before. -/
def MmcBus.LegacyFits (s : MmcBus) : Prop :=
  s.hc.clkMin ≤ s.dtrMax ∧ (s.dtrMax ≤ s.dtrMaxHs ∨ s.hc.clkMax ≤ s.dtrMaxHs)

/-- When a bus error of an MMC leads down. At high speed the rate must be above the last, which is
not left any more, and DDR must not come back; at a legacy rate high speed must not. -/
def MmcBus.Fits (s : MmcBus) (env : MmcEnv) : Prop :=
  s.hc.clkMin ≤ DTR_MAX_HS26 ∧
    if s.flag.hs400 then s.Takes200 env ∨ s.TakesHs env ∨ s.LegacyFits
    else if s.flag.hs200 then s.TakesHs env ∨ s.LegacyFits
    else if s.flag.ddr50 then env.hs = true ∧ s.hc.clkMin ≤ s.dtrMaxHs
    else if s.flag.hs then
      DTR_MAX_HS26 ≤ s.dtrMaxHs ∧
        if env.hs then
          ¬(4 ≤ s.width ∧ s.cap.ddr50 = true ∧ env.ddr50 = true) ∧ DTR_MAX_HS26 < s.dtrMaxHs ∧
            DTR_MAX_HS26 < s.hc.clkMax ∧ s.dtrMaxHs < s.hc.clkMax + DTR_HS_DEC
        else s.LegacyFits
    else ¬s.TakesHs env ∧ lsFits s.AtFloor s.dtrMax s.hc.clkMax

section Mmc

variable {s : MmcBus} {env : MmcEnv}

theorem mmcTry400_low (low : s.dtrMaxHs ≤ DTR_MAX_HS52) : mmcTry400 env s = s := by
  unfold mmcTry400
  rw [decide_eq_false (Nat.not_lt_of_le low), Bool.and_false]
  rfl

theorem mmcTry400_cap (cap : s.cap.hs400 = false) : mmcTry400 env s = s := by
  unfold mmcTry400
  rw [cap]
  rfl

theorem mmcTry200_low (low : s.dtrMaxHs ≤ DTR_MAX_HS52) : mmcTry200 env s = s := by
  unfold mmcTry200
  rw [decide_eq_false (Nat.not_lt_of_le low), Bool.and_false]
  rfl

theorem sdioClock_limits (hc : Hc) (clk : Nat) :
    (sdioClock hc clk).clkMin = hc.clkMin ∧ (sdioClock hc clk).clkMax = hc.clkMax := by
  unfold sdioClock
  split
  · exact ⟨rfl, rfl⟩
  · exact ⟨rfl, rfl⟩

theorem mmcTry200_fails (env : MmcEnv)
    (fails : s.cap.hs200 = true → 4 ≤ s.width → env.hs200 ≠ .ok) :
    ∃ hc : Hc, hc.clkMin = s.hc.clkMin ∧ hc.clkMax = s.hc.clkMax ∧
      mmcTry200 env s = { s with hc := hc } := by
  unfold mmcTry200
  split
  · next attempt =>
    simp only [Bool.and_eq_true, decide_eq_true_eq] at attempt
    obtain ⟨⟨⟨_, cap⟩, _⟩, width⟩ := attempt
    unfold mmcInitHs200 mmcInitHs200Bus
    have same : { s.flag with hs200 := s.flag.hs200 || false } = s.flag := by
      rw [Bool.or_false]
    cases result : env.hs200 with
    | ok => exact absurd result (fails cap width)
    | switch =>
      refine ⟨s.hc, rfl, rfl, ?_⟩
      dsimp only
      rw [show (Hs200Result.switch == .ok) = false from rfl, same]
    | tune =>
      obtain ⟨clkMin, clkMax⟩ := sdioClock_limits (sdioTiming s.hc .hs200) s.dtrMaxHs
      refine ⟨_, clkMin, clkMax, ?_⟩
      dsimp only
      rw [show (Hs200Result.tune == .ok) = false from rfl, same]
  · exact ⟨s.hc, rfl, rfl, rfl⟩

theorem mmcTry200_takes (flag : s.flag = noFlag) (high : DTR_MAX_HS52 < s.dtrMaxHs)
    (takes : s.Takes200 env) :
    mmcTry200 env s =
      { s with
        hc := sdioClock (sdioTiming s.hc .hs200) s.dtrMaxHs
        flag := ⟨false, true, false, false⟩ } := by
  obtain ⟨cap, width, ok⟩ := takes
  unfold mmcTry200 mmcInitHs200 mmcInitHs200Bus
  rw [flag, cap, decide_eq_true high, decide_eq_true width, ok]
  rfl

theorem mmcTryHs_takes (flag : s.flag = noFlag) (takes : s.TakesHs env) :
    mmcTryHs env s =
      { s with
        dtrMaxHs := min s.dtrMaxHs DTR_MAX_HS52
        hc := sdioClock (sdioTiming s.hc .hs) (min s.dtrMaxHs DTR_MAX_HS52)
        flag := ⟨false, false, true, false⟩ } := by
  obtain ⟨cap, ok⟩ := takes
  unfold mmcTryHs mmcInitHs
  rw [flag, cap, ok]
  rfl

theorem mmcTryHs_fails (flag : s.flag = noFlag) (fails : ¬s.TakesHs env)
    (low : s.cap.hs = true ∨ s.dtrMaxHs ≤ DTR_MAX_HS52) :
    ∃ dtr, dtr ≤ DTR_MAX_HS52 ∧ mmcTryHs env s = { s with dtrMaxHs := dtr } := by
  unfold mmcTryHs
  cases cap : s.cap.hs with
  | true =>
    have ok : env.hs = false := Bool.eq_false_of_not_eq_true fun ok => fails ⟨cap, ok⟩
    refine ⟨_, Nat.min_le_right s.dtrMaxHs _, (if_pos (by rw [flag]; rfl)).trans ?_⟩
    unfold mmcInitHs
    rw [ok]
    rfl
  | false =>
    have low := low.resolve_left (by rw [cap]; decide)
    exact ⟨s.dtrMaxHs, low, if_neg (by rw [Bool.and_false]; decide)⟩

theorem mmcLegacy_noFlag (flag : s.flag = noFlag) :
    mmcLegacy (mmcTryDdr env s) = { s with hc := sdioClock (sdioTiming s.hc .ls) s.dtrMax } := by
  have noDdr : mmcTryDdr env s = s := by
    unfold mmcTryDdr
    rw [flag]
    exact if_neg nofun
  rw [noDdr]
  unfold mmcLegacy
  exact if_pos (by rw [flag]; rfl)

theorem mmcLegacy_flag (flag : s.flag.hs = true ∨ s.flag.hs200 = true) : mmcLegacy s = s := by
  unfold mmcLegacy
  rcases flag with hs | hs200
  · rw [hs, Bool.or_true]
    rfl
  · rw [hs200, Bool.or_true]
    rfl

variable {t : MmcBus}

theorem MmcBus.down_takesHs (flag : t.flag = noFlag) (takes : t.TakesHs env)
    (low : t.hc.clkMin ≤ min t.dtrMaxHs DTR_MAX_HS52)
    (rate : min (min t.dtrMaxHs DTR_MAX_HS52) t.hc.clkMax ≤ s.hc.clk)
    (lower : Timing.ddr50.level < s.hc.timing.level) (above : ¬s.AtFloor) :
    s.Down (mmcLegacy (mmcTryDdr env (mmcTryHs env t))) := by
  have bound : min t.dtrMaxHs DTR_MAX_HS52 ≤ DTR_MAX_HS52 := Nat.min_le_right _ _
  rw [mmcTryHs_takes flag takes]
  generalize min t.dtrMaxHs DTR_MAX_HS52 = dtr at low rate bound ⊢
  have clock : sdioClock (sdioTiming t.hc .hs) dtr =
      { t.hc with timing := .hs, clk := min dtr t.hc.clkMax } := sdioClock_eq low
  rw [clock]
  unfold mmcTryDdr mmcInitDdr
  dsimp only
  split
  · split
    · rw [mmcLegacy_flag (.inl rfl)]
      exact ⟨.ddr50 rfl rfl rfl bound takes.1, fun _ => .inl lower, rate,
        fun floor => absurd floor above⟩
    · rw [mmcLegacy_flag (.inl rfl)]
      exact ⟨.hs rfl rfl rfl bound takes.1,
        fun _ => .inl (Nat.lt_trans (by decide : Timing.hs.level < Timing.ddr50.level) lower), rate,
        fun floor => absurd floor above⟩
  · rw [mmcLegacy_flag (.inl rfl)]
    exact ⟨.hs rfl rfl rfl bound takes.1,
      fun _ => .inl (Nat.lt_trans (by decide : Timing.hs.level < Timing.ddr50.level) lower), rate,
      fun floor => absurd floor above⟩

theorem MmcBus.down_legacy (flag : t.flag = noFlag) (fails : ¬t.TakesHs env)
    (high : t.cap.hs = true ∨ t.dtrMaxHs ≤ DTR_MAX_HS52) (low : t.hc.clkMin ≤ t.dtrMax)
    (rate : min t.dtrMax t.hc.clkMax ≤ s.hc.clk)
    (lower : Timing.ls.level < s.hc.timing.level) (above : ¬s.AtFloor) :
    s.Down (mmcLegacy (mmcTryDdr env (mmcTryHs env t))) := by
  obtain ⟨dtr, bound, tried⟩ := mmcTryHs_fails flag fails high
  rw [tried, mmcLegacy_noFlag (s := { t with dtrMaxHs := dtr }) flag]
  have clock : sdioClock (sdioTiming t.hc .ls) t.dtrMax =
      { t.hc with timing := .ls, clk := min t.dtrMax t.hc.clkMax } := sdioClock_eq low
  dsimp only
  rw [clock]
  exact ⟨.ls flag rfl (fun _ => rfl) bound, fun _ => .inl lower, rate,
    fun floor => absurd floor above⟩

theorem MmcBus.down_fast (flag : t.flag = noFlag) (cap : t.cap.hs = true)
    (clk : s.hc.clk = min s.dtrMaxHs t.hc.clkMax) (high : DTR_MAX_HS52 < s.dtrMaxHs)
    (min26 : t.hc.clkMin ≤ DTR_MAX_HS26) (bottom : DTR_MAX_HS26 ≤ t.dtrMaxHs)
    (lower : Timing.ddr50.level < s.hc.timing.level) (above : ¬s.AtFloor)
    (fits : t.TakesHs env ∨
      t.hc.clkMin ≤ t.dtrMax ∧ (t.dtrMax ≤ s.dtrMaxHs ∨ t.hc.clkMax ≤ s.dtrMaxHs)) :
    s.Down (mmcLegacy (mmcTryDdr env (mmcTryHs env t))) := by
  have between : DTR_MAX_HS26 ≤ DTR_MAX_HS52 := by decide
  rcases Classical.em (t.TakesHs env) with takes | fails
  · refine MmcBus.down_takesHs flag takes ?_ ?_ lower above
    · exact Nat.le_min.mpr ⟨Nat.le_trans min26 bottom, Nat.le_trans min26 between⟩
    · rw [clk]
      omega
  · obtain ⟨low, rate⟩ := fits.resolve_left fails
    refine MmcBus.down_legacy flag fails (.inl cap) low ?_ (Nat.lt_trans (by decide) lower) above
    rw [clk]
    omega

theorem MmcBus.down_hs400 (flag : s.flag = ⟨true, false, false, false⟩)
    (timing : s.hc.timing = .hs400) (clk : s.hc.clk = min s.dtrMaxHs s.hc.clkMax)
    (high : DTR_MAX_HS52 < s.dtrMaxHs) (cap : s.cap.hs = true)
    (min26 : s.hc.clkMin ≤ DTR_MAX_HS26)
    (fits : s.Takes200 env ∨ s.TakesHs env ∨ s.LegacyFits) : s.Down (mmcBusError env s) := by
  have between : DTR_MAX_HS26 ≤ DTR_MAX_HS52 := by decide
  have above : ¬s.AtFloor := fun floor => absurd (flag.symm.trans floor.1) (by decide)
  have start : mmcBusError env s = mmcLegacy (mmcTryDdr env (mmcTryHs env (mmcTry200 env
      { s with cap := { s.cap with hs400 := false }, flag := noFlag }))) := by
    unfold mmcBusError mmcInitBus
    rw [if_pos (by rw [flag]), mmcTry400_cap rfl, flag]
    rfl
  rw [start]
  rcases Classical.em (s.Takes200 env) with takes | fails
  · rw [mmcTry200_takes (s := { s with cap := { s.cap with hs400 := false }, flag := noFlag }) rfl
      high takes]
    dsimp only
    have clock : sdioClock (sdioTiming s.hc .hs200) s.dtrMaxHs =
        { s.hc with timing := .hs200, clk := min s.dtrMaxHs s.hc.clkMax } :=
      sdioClock_eq (Nat.le_trans min26 (Nat.le_trans between (Nat.le_of_lt high)))
    rw [clock]
    have tail : ∀ u : MmcBus, u.flag = ⟨false, true, false, false⟩ →
        mmcLegacy (mmcTryDdr env (mmcTryHs env u)) = u := by
      intro u flag
      have hs : mmcTryHs env u = u := by
        unfold mmcTryHs
        rw [flag]
        rfl
      have ddr : mmcTryDdr env u = u := by
        unfold mmcTryDdr
        rw [flag]
        rfl
      rw [hs, ddr, mmcLegacy_flag (.inr (by rw [flag]))]
    rw [tail _ rfl]
    have lower : Timing.hs200.level < s.hc.timing.level := by
      rw [timing]
      decide
    exact ⟨.hs200 rfl rfl rfl high cap, fun _ => .inl lower, Nat.le_of_eq clk.symm,
      fun floor => absurd floor above⟩
  · obtain ⟨hc, clkMin, clkMax, tried⟩ := mmcTry200_fails env
      (s := { s with cap := { s.cap with hs400 := false }, flag := noFlag })
      fun cap width ok => fails ⟨cap, width, ok⟩
    dsimp only at clkMin clkMax
    rw [tried]
    refine MmcBus.down_fast rfl cap ?_ high ?_ ?_ ?_ above ?_
    · dsimp only
      rw [clkMax]
      exact clk
    · dsimp only
      rw [clkMin]
      exact min26
    · exact Nat.le_trans between (Nat.le_of_lt high)
    · rw [timing]
      decide
    · unfold MmcBus.LegacyFits at fits
      dsimp only
      rw [clkMin, clkMax]
      exact fits.resolve_left fails

theorem MmcBus.down_hs200 (flag : s.flag = ⟨false, true, false, false⟩)
    (timing : s.hc.timing = .hs200) (clk : s.hc.clk = min s.dtrMaxHs s.hc.clkMax)
    (high : DTR_MAX_HS52 < s.dtrMaxHs) (cap : s.cap.hs = true)
    (min26 : s.hc.clkMin ≤ DTR_MAX_HS26) (fits : s.TakesHs env ∨ s.LegacyFits) :
    s.Down (mmcBusError env s) := by
  have above : ¬s.AtFloor := fun floor => absurd (flag.symm.trans floor.1) (by decide)
  have start : mmcBusError env s = mmcLegacy (mmcTryDdr env (mmcTryHs env
      { s with
        cap := { s.cap with hs200 := false }, flag := noFlag, dtrMaxHs := DTR_MAX_HS52 })) := by
    unfold mmcBusError mmcInitBus
    rw [if_neg (by rw [flag]; decide), if_pos (by rw [flag]), mmcTry400_low (Nat.le_refl _),
      mmcTry200_low (Nat.le_refl _), flag]
    rfl
  rw [start]
  exact MmcBus.down_fast rfl cap clk high min26 (by decide : DTR_MAX_HS26 ≤ DTR_MAX_HS52)
    (by rw [timing]; decide) above fits

theorem MmcBus.down_ddr50 (flag : s.flag = ⟨false, false, true, true⟩)
    (timing : s.hc.timing = .ddr50) (clk : s.hc.clk = min s.dtrMaxHs s.hc.clkMax)
    (low : s.dtrMaxHs ≤ DTR_MAX_HS52) (cap : s.cap.hs = true) (within : s.hc.clkMin ≤ s.dtrMaxHs)
    (hs : env.hs = true) : s.Down (mmcBusError env s) := by
  have above : ¬s.AtFloor := fun floor => absurd (flag.symm.trans floor.1) (by decide)
  have start : mmcBusError env s = mmcLegacy (mmcTryDdr env (mmcTryHs env
      { s with
        cap := { s.cap with ddr50 := false }
        flag := ⟨false, false, true, false⟩ })) := by
    unfold mmcBusError mmcInitBus
    rw [if_neg (by rw [flag]; decide), if_neg (by rw [flag]; decide), if_pos (by rw [flag])]
    have skip (u : MmcBus) (low : u.dtrMaxHs ≤ DTR_MAX_HS52) :
        mmcTry200 env (mmcTry400 env u) = u := by
      rw [mmcTry400_low low, mmcTry200_low low]
    rw [skip, flag]
    exact low
  have taken : mmcTryHs env
      { s with cap := { s.cap with ddr50 := false }, flag := ⟨false, false, true, false⟩ } =
      { s with
        cap := { s.cap with ddr50 := false }
        flag := ⟨false, false, true, false⟩
        hc := sdioClock (sdioTiming s.hc .hs) s.dtrMaxHs } := by
    unfold mmcTryHs mmcInitHs
    dsimp only
    rw [cap, hs, Nat.min_eq_left low]
    rfl
  have noDdr (u : MmcBus) (cap : u.cap.ddr50 = false) : mmcTryDdr env u = u := by
    unfold mmcTryDdr
    rw [cap, Bool.and_false]
    rfl
  have clock : sdioClock (sdioTiming s.hc .hs) s.dtrMaxHs =
      { s.hc with timing := .hs, clk := min s.dtrMaxHs s.hc.clkMax } := sdioClock_eq within
  have lower : Timing.hs.level < s.hc.timing.level := by
    rw [timing]
    decide
  rw [start, taken, noDdr _ rfl, mmcLegacy_flag (.inl rfl), clock]
  exact ⟨.hs rfl rfl rfl low cap, fun _ => .inl lower, Nat.le_of_eq clk.symm,
    fun floor => absurd floor above⟩

theorem MmcBus.down_hs_rate (timing : s.hc.timing = .hs) (cap : s.cap.hs = true)
    (above : ¬s.AtFloor) {rate : Nat} (bound : rate ≤ DTR_MAX_HS52) (within : s.hc.clkMin ≤ rate)
    (fits : (env.hs = true → ¬(4 ≤ s.width ∧ s.cap.ddr50 = true ∧ env.ddr50 = true) ∧
      min rate s.hc.clkMax < s.hc.clk) ∧
      (env.hs = false → s.hc.clkMin ≤ s.dtrMax ∧ min s.dtrMax s.hc.clkMax ≤ s.hc.clk)) :
    s.Down (mmcInitBus env { s with flag := noFlag, dtrMaxHs := rate }) := by
  unfold mmcInitBus
  rw [mmcTry400_low bound, mmcTry200_low bound]
  cases hs : env.hs with
  | true =>
    obtain ⟨noDdr, lower⟩ := fits.1 hs
    have clock : sdioClock (sdioTiming s.hc .hs) rate =
        { s.hc with timing := .hs, clk := min rate s.hc.clkMax } := sdioClock_eq within
    rw [mmcTryHs_takes (s := { s with flag := noFlag, dtrMaxHs := rate }) rfl ⟨cap, hs⟩]
    dsimp only
    rw [Nat.min_eq_left bound, clock]
    have slow : mmcTryDdr env
        { s with
          dtrMaxHs := rate
          hc := { s.hc with timing := .hs, clk := min rate s.hc.clkMax }
          flag := ⟨false, false, true, false⟩ } =
        { s with
          dtrMaxHs := rate
          hc := { s.hc with timing := .hs, clk := min rate s.hc.clkMax }
          flag := ⟨false, false, true, false⟩ } := by
      unfold mmcTryDdr mmcInitDdr
      split
      · next attempt =>
        simp only [Bool.and_eq_true, decide_eq_true_eq] at attempt
        exact if_neg fun ok => noDdr ⟨attempt.1.2, attempt.2, ok⟩
      · rfl
    rw [slow, mmcLegacy_flag (.inl rfl)]
    exact ⟨.hs rfl rfl rfl bound cap,
      fun _ => .inr ⟨congrArg Timing.level timing.symm, lower⟩, Nat.le_of_lt lower,
      fun floor => absurd floor above⟩
  | false =>
    obtain ⟨low, lower⟩ := fits.2 hs
    apply MmcBus.down_legacy
    · rfl
    · exact fun takes => absurd (hs.symm.trans takes.2) nofun
    · exact .inr bound
    · exact low
    · exact lower
    · rw [timing]
      exact (by decide : Timing.ls.level < Timing.hs.level)
    · exact above

theorem MmcBus.down_hs (flag : s.flag = ⟨false, false, true, false⟩) (timing : s.hc.timing = .hs)
    (clk : s.hc.clk = min s.dtrMaxHs s.hc.clkMax) (low : s.dtrMaxHs ≤ DTR_MAX_HS52)
    (cap : s.cap.hs = true) (min26 : s.hc.clkMin ≤ DTR_MAX_HS26)
    (fits : DTR_MAX_HS26 ≤ s.dtrMaxHs ∧
      if env.hs then
        ¬(4 ≤ s.width ∧ s.cap.ddr50 = true ∧ env.ddr50 = true) ∧ DTR_MAX_HS26 < s.dtrMaxHs ∧
          DTR_MAX_HS26 < s.hc.clkMax ∧ s.dtrMaxHs < s.hc.clkMax + DTR_HS_DEC
      else s.LegacyFits) : s.Down (mmcBusError env s) := by
  have above : ¬s.AtFloor := fun floor => absurd (flag.symm.trans floor.1) (by decide)
  obtain ⟨bottom, fits⟩ := fits
  have dec : sub32 s.dtrMaxHs DTR_HS_DEC = s.dtrMaxHs - DTR_HS_DEC :=
    sub32_eq (Nat.le_trans (by decide) bottom)
  have legacy (hs : env.hs = false) :
      s.hc.clkMin ≤ s.dtrMax ∧ min s.dtrMax s.hc.clkMax ≤ s.hc.clk := by
    rw [hs, if_neg nofun] at fits
    obtain ⟨within, rate⟩ := fits
    refine ⟨within, ?_⟩
    rw [clk]
    omega
  unfold mmcBusError
  rw [if_neg (by rw [flag]; decide), if_neg (by rw [flag]; decide),
    if_neg (by rw [flag]; decide), if_pos (by rw [flag]), dec, flag]
  split
  · next last =>
    refine MmcBus.down_hs_rate timing cap above low (Nat.le_trans min26 bottom)
      ⟨fun hs => ?_, legacy⟩
    rw [hs, if_pos rfl] at fits
    exact absurd fits.2.1 (by rw [last]; exact Nat.lt_irrefl _)
  · refine MmcBus.down_hs_rate timing cap above ?_ ?_ ⟨fun hs => ?_, legacy⟩
    · exact Nat.max_le.mpr ⟨by decide, Nat.le_trans (Nat.sub_le _ _) low⟩
    · exact Nat.le_trans min26 (Nat.le_max_left _ _)
    · rw [hs, if_pos rfl] at fits
      obtain ⟨noDdr, high, fast, near⟩ := fits
      refine ⟨noDdr, ?_⟩
      rw [clk]
      exact clipped_lt (by decide) high fast near

theorem MmcBus.down_ls_rate (flag : s.flag = noFlag) (timing : s.hc.timing = .ls)
    (low : s.dtrMaxHs ≤ DTR_MAX_HS52) (fails : ¬s.TakesHs env) {rate : Nat}
    (step : LsStep s.hc (sdioClock (sdioTiming s.hc .ls) rate) s.dtrMax rate) :
    s.Down (mmcInitBus env { s with dtrMax := rate }) := by
  unfold mmcInitBus
  rw [mmcTry400_low (s := { s with dtrMax := rate }) low,
    mmcTry200_low (s := { s with dtrMax := rate }) low]
  obtain ⟨dtr, bound, tried⟩ :=
    mmcTryHs_fails (s := { s with dtrMax := rate }) flag fails (.inr low)
  rw [tried, mmcLegacy_noFlag (s := { s with dtrMax := rate, dtrMaxHs := dtr }) flag]
  refine ⟨.ls flag step.timing step.clk bound, fun above => ?_, step.le, fun floor => ?_⟩
  · have above : ¬s.hc.Lowest s.dtrMax := fun lowest => above ⟨flag, timing, lowest⟩
    exact .inr ⟨congrArg Timing.level (step.timing.trans timing.symm), step.slower above⟩
  · exact ⟨flag, step.timing, step.lowest floor.2.2⟩

theorem MmcBus.down_ls (flag : s.flag = noFlag) (timing : s.hc.timing = .ls)
    (clk : s.hc.clkMin ≤ s.dtrMax → s.hc.clk = min s.dtrMax s.hc.clkMax)
    (low : s.dtrMaxHs ≤ DTR_MAX_HS52) (fails : ¬s.TakesHs env)
    (fits : lsFits s.AtFloor s.dtrMax s.hc.clkMax) : s.Down (mmcBusError env s) := by
  have fits := fits.of_floor fun floor => floor.2.2
  unfold mmcBusError
  rw [if_neg (by rw [flag]; decide), if_neg (by rw [flag]; decide),
    if_neg (by rw [flag]; decide), if_neg (by rw [flag]; decide)]
  exact MmcBus.down_ls_rate flag timing low fails (fits.step clk)

theorem MmcBus.Settled.down (settled : s.Settled) (fits : s.Fits env) :
    s.Down (mmcBusError env s) := by
  obtain ⟨min26, fits⟩ := fits
  cases settled with
  | hs400 flag timing clk high cap =>
    rw [if_pos (by rw [flag])] at fits
    exact MmcBus.down_hs400 flag timing clk high cap min26 fits
  | hs200 flag timing clk high cap =>
    rw [if_neg (by rw [flag]; decide), if_pos (by rw [flag])] at fits
    exact MmcBus.down_hs200 flag timing clk high cap min26 fits
  | ddr50 flag timing clk low cap =>
    rw [if_neg (by rw [flag]; decide), if_neg (by rw [flag]; decide),
      if_pos (by rw [flag])] at fits
    exact MmcBus.down_ddr50 flag timing clk low cap fits.2 fits.1
  | hs flag timing clk low cap =>
    rw [if_neg (by rw [flag]; decide), if_neg (by rw [flag]; decide),
      if_neg (by rw [flag]; decide), if_pos (by rw [flag])] at fits
    exact MmcBus.down_hs flag timing clk low cap min26 fits
  | ls flag timing clk low =>
    rw [if_neg (by rw [flag]; decide), if_neg (by rw [flag]; decide),
      if_neg (by rw [flag]; decide), if_neg (by rw [flag]; decide)] at fits
    exact MmcBus.down_ls flag timing clk low fits.1 fits.2

end Mmc

/-! ## Both -/

def Bus.Settled : Bus → Prop
  | .sd s => s.Settled
  | .mmc s => s.Settled

/-- When a bus error leads down. -/
def Bus.Fits (s : Bus) (env : BusEnv) : Prop :=
  match s with
  | .sd s => s.Fits env.sd
  | .mmc s => s.Fits env.mmc

theorem busSystem_descending : Descending busSystem Bus.Settled Bus.Fits where
  inv {s e} settled fits := by
    cases s with
    | sd s => exact (SdBus.Settled.down settled fits).settled
    | mmc s => exact (MmcBus.Settled.down settled fits).settled
  down {s e} settled fits := by
    cases s with
    | sd s =>
      have down := SdBus.Settled.down settled fits
      exact ⟨down.slower, down.rate⟩
    | mmc s =>
      have down := MmcBus.Settled.down settled fits
      exact ⟨down.slower, down.rate⟩
  floor {s e} settled fits := by
    cases s with
    | sd s => exact (SdBus.Settled.down settled fits).floor
    | mmc s => exact (MmcBus.Settled.down settled fits).floor

/-- Bus errors that fit lead down one by one, and to the floor once there are more of them than
settings below the first. -/
theorem bus_error_run {s : Bus} (settled : s.Settled) {envs : List BusEnv}
    (fits : busSystem.Each Bus.Fits s envs) :
    busSystem.Each busSystem.StepsDown s envs ∧
      ((busSystem.setting s).height (busSystem.setting s).rate < envs.length →
        busSystem.AtFloor (busSystem.after s envs)) :=
  ⟨busSystem_descending.each settled fits,
    busSystem_descending.reaches_floor settled fits (Nat.le_refl _)⟩

instance : DecidablePred SdBus.AtFloor := fun s => by
  unfold SdBus.AtFloor
  infer_instance

instance : DecidablePred MmcBus.AtFloor := fun s => by
  unfold MmcBus.AtFloor
  infer_instance

instance (s : SdBus) (env : SdEnv) : Decidable (s.Fits env) := by
  unfold SdBus.Fits SdBus.UhsFits SdBus.HsFits lsFits
  infer_instance

instance (s : MmcBus) (env : MmcEnv) : Decidable (s.Fits env) := by
  unfold MmcBus.Fits MmcBus.Takes200 MmcBus.TakesHs MmcBus.LegacyFits lsFits
  infer_instance

instance : ∀ s env, Decidable (Bus.Fits s env)
  | .sd s, env => inferInstanceAs (Decidable (s.Fits env.sd))
  | .mmc s, env => inferInstanceAs (Decidable (s.Fits env.mmc))

/-- A card in SDR50 mode that has SDR12 and SDR25 too, and may have SDR104. -/
def sdr50 (hostUhs : UhsMode → Bool) (sdr104 : Bool) : SdBus where
  hc := ⟨400000, 200000000, 400000, 100000000, .sdr50⟩
  hostUhs := hostUhs
  bw4 := true
  volt18 := true
  busMode := fun mode => mode == .sdr12 || mode == .sdr25 || mode == .sdr50 ||
    mode == .sdr104 && sdr104
  capHs := true
  dtrMaxHs := 25000000
  dtrMax := 25000000
  uhs := true
  hs := false

def carriedOut : BusEnv where
  sd := ⟨true, true, true, true⟩
  mmc := ⟨.ok, .ok, true, true⟩

theorem bus_error_run_small :
    busSystem.setting
        (busSystem.after (.sd (sdr50 (fun _ => true) false)) (List.replicate 3 carriedOut)) =
      ⟨Timing.level .hs, 25000000⟩ ∧
    busSystem.Each busSystem.StepsDown (.sd (sdr50 (fun _ => true) false))
      (List.replicate 3 carriedOut) := by
  have settled : Bus.Settled (.sd (sdr50 (fun _ => true) false)) := .uhs rfl rfl rfl rfl rfl
  have fits : busSystem.Each Bus.Fits (.sd (sdr50 (fun _ => true) false))
      (List.replicate 3 carriedOut) := by decide +kernel
  exact ⟨by decide +kernel, (bus_error_run settled fits).1⟩

/-- A host without SDR104: the card has that mode left after SDR12 failed, so that the driver does
not leave 1.8 V, and selects SDR12 once more. -/
theorem bus_error_broken :
    ¬∀ s : Bus, s.Settled → ∀ envs : List BusEnv,
      busSystem.Each busSystem.StepsDown s envs ∧
        ((busSystem.setting s).height (busSystem.setting s).rate < envs.length →
          busSystem.AtFloor (busSystem.after s envs)) := by
  intro claim
  let start := Bus.sd (sdr50 (fun mode => mode != .sdr104) true)
  have settled : start.Settled := .uhs rfl rfl rfl rfl rfl
  have down := (claim start settled (List.replicate 3 carriedOut)).1.2.2.1.1
  have above : ¬busSystem.AtFloor (busSystem.after start (List.replicate 2 carriedOut)) :=
    fun floor => absurd floor.1 (by decide +kernel)
  have slower : ¬(busSystem.setting (busSystem.after start (List.replicate 3 carriedOut))).Slower
      (busSystem.setting (busSystem.after start (List.replicate 2 carriedOut))) := by
    decide +kernel
  exact slower (down above)

end Mx6xBsp.Sdmmc
