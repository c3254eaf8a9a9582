import Mathlib.Data.BitVec
import Mx6xBsp.Devnp.Ptp
import Mx6xBsp.Lib.Runs

/-!
# The times the 1588 clock returns

`mx6q_ptp_set_cnt` sets the seconds and the timer, but neither `rtc_half` nor the
half-second event. The clock is right as long as each set lands where the flag
and a pending event still say the truth (`Ptp.Fits`), and each stamp is inserted
less than 250 ms after the NIC took it (`ptp_run`). `ClockInv` says how the flag,
the timer and the two pending interrupts hang together along such a run.
-/

namespace Mx6xBsp.Devnp

open Runs

/-! ## What is to hold of a step -/

/-- A set fits if no interrupt handler is about to count the second before it, and the half of the
second it lands in is the one `rtc_half` tells, or will tell in time. A stamp is inserted less than
250 ms after it was taken, with no set in between. -/
def Ptp.Fits (s : Ptp) : PtpOp → Prop
  | .set cnt =>
    s.ievent = false ∧
      match s.tf with
      | none => if s.rtcHalf then 250000000 ≤ cnt.nsec else cnt.nsec < 500000000
      | some age =>
        250000000 ≤ cnt.nsec ∧ cnt.nsec ≤ age + if s.rtcHalf then 750000000 else 500000001
  | .addRx _ f => f.sets = s.sets ∧ s.uptime < f.uptime + 250000000
  | .addTx _ f => f.sets = s.sets ∧ s.uptime < f.uptime + 250000000
  | _ => True

/-- The time the step returns is the right one: the time last set plus the time passed since. -/
def Ptp.Right (s : Ptp) : PtpOp → Prop
  | .get => s.mx6qPtpGetCnt = PtpTime.ofNanos s.time
  | .addRx ph f =>
    ph.version &&& 0x0f = 0x2 →
      ((s.mx6qPtpAddRxTimestamp ph f.timestamp).rx.entries s.rx.cnt).ts = PtpTime.ofNanos f.time
  | .addTx ph f =>
    ph.version &&& 0x0f = 0x2 →
      ((s.mx6qPtpAddTxTimestamp ph f.timestamp).tx.entries s.tx.cnt).ts = PtpTime.ofNanos f.time
  | _ => True

/-- A step of a run: any of the hardware, the interrupt handlers and the calls. -/
def PtpStep (s : Ptp) (op : PtpOp) (t : Ptp) : Prop := s.Allowed op ∧ t = s.next op

/-! ## The invariant -/

/-- The clock in its second `sec`. -/
structure ClockInv (sec : Nat) (s : Ptp) : Prop where
  time : s.time = sec * 1000000000 + s.timer
  timer_lt : s.timer < 1000000000
  /-- While the second is not counted yet, the flag is still that of the one before. -/
  uncounted : ∀ age, s.tsTimer = some age →
    age = s.timer ∧ age < 250000000 ∧ s.rtcHalf = true ∧ s.rtc + 1 = BitVec.ofNat 32 sec
  counted : s.tsTimer = none →
    s.rtc = BitVec.ofNat 32 sec ∧ (s.timer < 250000000 → s.rtcHalf = false)
  seen : s.ievent = true → s.tsTimer ≠ none
  late : 750000000 < s.timer → s.rtcHalf = true
  ahead : s.tf = none → s.rtcHalf = false → s.timer < 500000000
  pending : ∀ age, s.tf = some age → age < 250000000 ∧ 250000000 ≤ s.timer ∧
    s.timer ≤ age + if s.rtcHalf then 750000000 else 500000001
  /-- The flag is early only after a set into the second quarter. -/
  early : s.rtcHalf = true ∨ s.tf ≠ none → s.timer < 500000000 → s.tsTimer = none →
    sec * 1000000000 + 250000000 ≤ s.origin
  since : s.origin ≤ s.time
  frames : ∀ f ∈ s.frames, f.sets ≤ s.sets ∧ f.timestamp = f.time % 1000000000 ∧
    (f.sets = s.sets → s.origin ≤ f.time ∧ f.uptime ≤ s.uptime ∧
      f.time + s.uptime = s.time + f.uptime)

section Steps

variable {s : Ptp} {sec : Nat}

theorem ClockInv.start (rx tx : TsTable) : ClockInv 0 (Ptp.start rx tx) where
  time := rfl
  timer_lt := Nat.zero_lt_succ _
  uncounted := nofun
  counted _ := ⟨rfl, fun _ => rfl⟩
  seen := nofun
  late := nofun
  ahead _ _ := Nat.zero_lt_succ _
  pending := nofun
  early := by
    rintro (half | pending)
    · cases half
    · exact absurd rfl pending
  since := Nat.le_refl _
  frames := nofun

theorem ClockInv.tf_none (inv : ClockInv sec s) {age : Nat} (ts : s.tsTimer = some age) :
    s.tf = none := by
  obtain ⟨same, young, _, _⟩ := inv.uncounted age ts
  cases tf : s.tf with
  | none => rfl
  | some a =>
    have := (inv.pending a tf).2.1
    omega

theorem ClockInv.ts_none (inv : ClockInv sec s) (after : 250000000 ≤ s.timer) :
    s.tsTimer = none := by
  cases ts : s.tsTimer with
  | none => rfl
  | some age =>
    obtain ⟨same, young, _, _⟩ := inv.uncounted age ts
    omega

theorem ClockInv.uptime (inv : ClockInv sec s) {f : PtpFrame} (mem : f ∈ s.frames) :
    f ∈ s.tick.frames ∧ f.sets ≤ s.sets ∧ f.timestamp = f.time % 1000000000 ∧
      (f.sets = s.sets → s.origin ≤ f.time ∧ f.uptime ≤ s.uptime + 1 ∧
        f.time + (s.uptime + 1) = s.time + 1 + f.uptime) := by
  obtain ⟨sets, stamp, current⟩ := inv.frames f mem
  refine ⟨mem, sets, stamp, fun same => ?_⟩
  obtain ⟨origin, before, passed⟩ := current same
  exact ⟨origin, by omega, by omega⟩

theorem ClockInv.half_of_late (inv : ClockInv sec s) (timely : s.tick.Timely)
    (after : 750000000 < s.timer + 1) : s.rtcHalf = true := by
  cases half : s.rtcHalf with
  | true => rfl
  | false =>
    cases tf : s.tf with
    | none =>
      have := inv.ahead tf half
      omega
    | some age =>
      have young := timely.2 (age + 1) (by simp [Ptp.tick, tf])
      have within := (inv.pending age tf).2.2
      rw [half] at within
      simp only [Bool.false_eq_true, if_false] at within
      omega

theorem ClockInv.tick_within (inv : ClockInv sec s) (timely : s.tick.Timely)
    (within : s.timer + 1 < 1000000000) : ClockInv sec s.tick := by
  have notWrap : ¬s.timer + 1 = MX6Q_TIMER_PER1SEC := Nat.ne_of_lt within
  have timer : s.tick.timer = s.timer + 1 := if_neg notWrap
  have ts : s.tick.tsTimer = s.tsTimer.map (· + 1) := by
    unfold Ptp.tick
    cases s.tsTimer with
    | none => exact if_neg notWrap
    | some age => rfl
  have tsNone (none_ : s.tick.tsTimer = none) : s.tsTimer = none :=
    Option.map_eq_none_iff.mp (ts ▸ none_)
  have time := inv.time
  constructor
  · change s.time + 1 = _
    rw [timer, time]
    omega
  · rw [timer]
    exact within
  · intro age raised
    have young := timely.1 age raised
    rw [ts] at raised
    obtain ⟨old, before, rfl⟩ := Option.map_eq_some_iff.mp raised
    obtain ⟨same, _, half, count⟩ := inv.uncounted old before
    rw [timer]
    exact ⟨by omega, young, half, count⟩
  · intro none_
    obtain ⟨count, flag⟩ := inv.counted (tsNone none_)
    rw [timer]
    exact ⟨count, fun small => flag (by omega)⟩
  · exact fun seen none_ => inv.seen seen (tsNone none_)
  · intro after
    rw [timer] at after
    exact inv.half_of_late timely after
  · intro none_ half
    cases tf : s.tf with
    | some age => simp [Ptp.tick, tf] at none_
    | none =>
      have before := inv.ahead tf half
      have notMiddle : s.timer + 1 ≠ 500000000 := by
        intro middle
        simp [Ptp.tick, tf, MX6Q_TIMER_PER05SEC, middle] at none_
      rw [timer]
      omega
  · intro age raised
    have young := timely.2 age raised
    rw [timer]
    change age < 250000000 ∧ 250000000 ≤ s.timer + 1 ∧
      s.timer + 1 ≤ age + if s.rtcHalf then 750000000 else 500000001
    cases tf : s.tf with
    | some old =>
      have aged : old + 1 = age := by simpa [Ptp.tick, tf] using raised
      obtain ⟨_, from_, upTo⟩ := inv.pending old tf
      exact ⟨young, by omega, by omega⟩
    | none =>
      have middle : s.timer + 1 = 500000000 ∧ 0 = age := by
        simpa [Ptp.tick, tf, MX6Q_TIMER_PER05SEC] using raised
      refine ⟨young, by omega, ?_⟩
      split <;> omega
  · intro flagged before none_
    rw [timer] at before
    refine inv.early ?_ (by omega) (tsNone none_)
    rcases flagged with half | pending
    · exact .inl half
    · right
      intro tf
      have notMiddle : s.timer + 1 ≠ 500000000 := by omega
      simp [Ptp.tick, tf, MX6Q_TIMER_PER05SEC, notMiddle] at pending
  · exact inv.since.trans (Nat.le_succ _)
  · exact fun f mem => (inv.uptime mem).2

theorem ClockInv.tick_wrap (inv : ClockInv sec s) (timely : s.tick.Timely)
    (wraps : s.timer + 1 = 1000000000) : ClockInv (sec + 1) s.tick := by
  have half : s.rtcHalf = true := inv.late (by omega)
  have tsNone : s.tsTimer = none := inv.ts_none (by omega)
  have tfNone : s.tf = none := by
    cases tf : s.tf with
    | none => rfl
    | some age =>
      have young := timely.2 (age + 1) (by simp [Ptp.tick, tf])
      have within := (inv.pending age tf).2.2
      rw [half] at within
      simp only [if_true] at within
      omega
  have timer : s.tick.timer = 0 := if_pos wraps
  have ts : s.tick.tsTimer = some 0 := by
    simp [Ptp.tick, tsNone, wraps, MX6Q_TIMER_PER1SEC]
  have tf : s.tick.tf = none := by
    have notMiddle : s.timer + 1 ≠ 500000000 := by omega
    simp [Ptp.tick, tfNone, notMiddle, MX6Q_TIMER_PER05SEC]
  have time := inv.time
  constructor
  · change s.time + 1 = _
    rw [timer, time]
    omega
  · rw [timer]
    decide
  · intro age raised
    rw [ts] at raised
    cases raised
    refine ⟨timer.symm, by decide, half, ?_⟩
    change s.rtc + 1 = _
    rw [(inv.counted tsNone).1, BitVec.ofNat_add]
    rfl
  · intro none_
    rw [ts] at none_
    cases none_
  · intro _ none_
    rw [ts] at none_
    cases none_
  · exact fun _ => half
  · intro _ half'
    cases half.symm.trans half'
  · intro age raised
    rw [tf] at raised
    cases raised
  · intro _ _ none_
    rw [ts] at none_
    cases none_
  · exact inv.since.trans (Nat.le_succ _)
  · exact fun f mem => (inv.uptime mem).2

theorem ClockInv.tick (inv : ClockInv sec s) (timely : s.tick.Timely) :
    ∃ sec, ClockInv sec s.tick := by
  have below := inv.timer_lt
  rcases Nat.lt_or_ge (s.timer + 1) 1000000000 with within | end_
  · exact ⟨_, inv.tick_within timely within⟩
  · exact ⟨_, inv.tick_wrap timely (by omega)⟩

theorem ClockInv.capture (inv : ClockInv sec s) : ClockInv sec s.capture := by
  have time := inv.time
  have below := inv.timer_lt
  exact
    { inv with
      frames := by
        intro f mem
        rcases List.mem_cons.mp mem with rfl | old
        · refine ⟨Nat.le_refl _, ?_, fun _ => ⟨inv.since, Nat.le_refl _, rfl⟩⟩
          change s.timer = s.time % 1000000000
          omega
        · exact inv.frames f old }

theorem ClockInv.isrRead (inv : ClockInv sec s) : ClockInv sec s.isrRead :=
  { inv with
    seen := fun seen none_ => by
      simp [Ptp.isrRead, show s.tsTimer = none from none_] at seen }

theorem ClockInv.isrReturn (inv : ClockInv sec s) : ClockInv sec s.isrReturn :=
  { inv with seen := nofun }

theorem ClockInv.isrTimer (inv : ClockInv sec s) : ClockInv sec s.isrTimer := by
  unfold Ptp.isrTimer
  cases seen : s.ievent with
  | false => simpa using inv
  | true =>
    obtain ⟨age, ts⟩ := Option.ne_none_iff_exists'.mp (inv.seen seen)
    obtain ⟨same, young, half, count⟩ := inv.uncounted age ts
    have tf := inv.tf_none ts
    rw [if_pos rfl]
    exact
      { inv with
        uncounted := nofun
        counted := fun _ => ⟨count, fun _ => rfl⟩
        seen := nofun
        late := fun after => absurd after (by dsimp only; omega)
        ahead := fun _ _ => by dsimp only; omega
        pending := fun _ raised => nomatch tf.symm.trans raised
        early := by
          rintro (half | pending)
          · cases half
          · exact absurd tf pending }

theorem ClockInv.half (inv : ClockInv sec s) (raised : s.tf.isSome) :
    ClockInv sec s.mx6q1588Isr := by
  obtain ⟨age, tf⟩ := Option.isSome_iff_exists.mp raised
  have from_ := (inv.pending age tf).2.1
  have tsNone := inv.ts_none from_
  exact
    { inv with
      uncounted := fun _ ts => nomatch tsNone.symm.trans ts
      counted := fun _ => ⟨(inv.counted tsNone).1, fun small => absurd small (Nat.not_lt.mpr from_)⟩
      late := fun _ => rfl
      ahead := nofun
      pending := nofun
      early := fun _ before _ => inv.early (.inr (by simp [tf])) before tsNone }

theorem ClockInv.set (inv : ClockInv sec s) {cnt : PtpTime} (below : cnt.nsec < 1000000000)
    (fits : s.Fits (.set cnt)) : ClockInv cnt.sec.toNat (s.mx6qPtpSetCnt cnt) := by
  obtain ⟨unseen, place⟩ := fits
  have seconds : BitVec.ofNat 32 cnt.sec.toNat = cnt.sec := by simp
  have past : ∀ f ∈ s.frames, f.sets ≤ s.sets ∧ f.timestamp = f.time % 1000000000 :=
    fun f mem => ⟨(inv.frames f mem).1, (inv.frames f mem).2.1⟩
  constructor
  · rfl
  · exact below
  · exact nofun
  · refine fun _ => ⟨seconds.symm, fun small => ?_⟩
    change cnt.nsec < 250000000 at small
    change s.rtcHalf = false
    cases tf : s.tf with
    | none =>
      rw [tf] at place
      cases half : s.rtcHalf with
      | false => rfl
      | true =>
        rw [half] at place
        exact absurd (show 250000000 ≤ cnt.nsec from place) (by omega)
    | some age =>
      rw [tf] at place
      exact absurd place.1 (by omega)
  · intro seen
    cases unseen.symm.trans seen
  · intro after
    change 750000000 < cnt.nsec at after
    change s.rtcHalf = true
    cases half : s.rtcHalf with
    | true => rfl
    | false =>
      rw [half] at place
      cases tf : s.tf with
      | none =>
        rw [tf] at place
        exact absurd (show cnt.nsec < 500000000 from place) (by omega)
      | some age =>
        rw [tf] at place
        have young := (inv.pending age tf).1
        have upTo : cnt.nsec ≤ age + 500000001 := place.2
        omega
  · intro tf half
    change s.tf = none at tf
    change s.rtcHalf = false at half
    rw [tf, half] at place
    exact place
  · intro age tf
    change s.tf = some age at tf
    rw [tf] at place
    exact ⟨(inv.pending age tf).1, place⟩
  · intro flagged _ _
    have after : 250000000 ≤ cnt.nsec := by
      cases tf : s.tf with
      | some age =>
        rw [tf] at place
        exact place.1
      | none =>
        rcases flagged with half | pending
        · change s.rtcHalf = true at half
          rw [tf, half] at place
          exact place
        · exact absurd tf pending
    exact Nat.add_le_add_left after _
  · exact Nat.le_refl _
  · intro f mem
    obtain ⟨sets, stamp⟩ := past f mem
    refine ⟨Nat.le_succ_of_le sets, stamp, fun same => ?_⟩
    change f.sets = s.sets + 1 at same
    omega

theorem ClockInv.step (inv : ClockInv sec s) {op : PtpOp} (allowed : s.Allowed op)
    (fits : s.Fits op) : ∃ sec, ClockInv sec (s.next op) := by
  cases op with
  | tick => exact inv.tick allowed
  | capture => exact ⟨_, inv.capture⟩
  | isrRead => exact ⟨_, inv.isrRead⟩
  | isrReturn => exact ⟨_, inv.isrReturn⟩
  | isrTimer => exact ⟨_, inv.isrTimer⟩
  | half => exact ⟨_, inv.half allowed⟩
  | get => exact ⟨_, inv⟩
  | set cnt => exact ⟨_, inv.set allowed fits⟩
  | addRx ph f => exact ⟨_, { inv with }⟩
  | addTx ph f => exact ⟨_, { inv with }⟩

/-! ## The times returned -/

theorem ClockInv.secondsOf (inv : ClockInv sec s) {time : Nat} (since : s.origin ≤ time)
    (before : time ≤ s.time) (fresh : s.time < time + 250000000) :
    s.secondsOf (time % 1000000000) = BitVec.ofNat 32 (time / 1000000000) := by
  have now := inv.time
  have below := inv.timer_lt
  unfold Ptp.secondsOf
  rcases Nat.lt_or_ge time (sec * 1000000000) with previous | current
  · -- taken before the wrap, read behind it: the timer is in its first quarter
    obtain ⟨last, rfl⟩ : ∃ last, sec = last + 1 := ⟨sec - 1, by omega⟩
    have second : time / 1000000000 = last := by omega
    have high : time % 1000000000 > 750000000 := by omega
    have notLow : ¬time % 1000000000 < 250000000 := by omega
    have early : s.timer < 250000000 := by omega
    rw [second]
    cases ts : s.tsTimer with
    | none =>
      obtain ⟨count, flag⟩ := inv.counted ts
      rw [if_pos ⟨high, flag early⟩, count, BitVec.ofNat_add]
      exact add_sub_cancel_right _ _
    | some age =>
      obtain ⟨_, _, half, count⟩ := inv.uncounted age ts
      rw [BitVec.ofNat_add] at count
      simp only [half, notLow, reduceCtorEq, and_false, false_and, if_false]
      exact add_right_cancel count
  · have second : time / 1000000000 = sec := by omega
    rw [second]
    cases ts : s.tsTimer with
    | some age =>
      obtain ⟨same, young, half, count⟩ := inv.uncounted age ts
      have low : time % 1000000000 < 250000000 := by omega
      simp only [half, low, reduceCtorEq, and_false, if_false, and_self, if_true]
      exact count
    | none =>
      obtain ⟨count, flag⟩ := inv.counted ts
      have notLate : ¬(time % 1000000000 > 750000000 ∧ s.rtcHalf = false) := by
        rintro ⟨high, half⟩
        cases half.symm.trans (inv.late (by omega))
      have notEarly : ¬(time % 1000000000 < 250000000 ∧ s.rtcHalf = true) := by
        rintro ⟨low, half⟩
        have := inv.early (.inl half) (by omega) ts
        omega
      rw [if_neg notLate, if_neg notEarly, count]

theorem ClockInv.stamp (inv : ClockInv sec s) {f : PtpFrame} (mem : f ∈ s.frames)
    (same : f.sets = s.sets) (fresh : s.uptime < f.uptime + 250000000) :
    (⟨s.secondsOf f.timestamp, f.timestamp⟩ : PtpTime) = PtpTime.ofNanos f.time := by
  obtain ⟨_, stamp, current⟩ := inv.frames f mem
  obtain ⟨since, before, passed⟩ := current same
  rw [stamp, inv.secondsOf since (by omega) (by omega)]
  rfl

theorem Ptp.addTimestamp_ts (s : Ptp) (size : Nat) (table : TsTable) {ph : PtpHdr}
    (timestamp : Nat) (version : ph.version &&& 0x0f = 0x2) :
    ((s.addTimestamp size table ph timestamp).entries table.cnt).ts =
      ⟨s.secondsOf timestamp, timestamp⟩ := by
  unfold addTimestamp
  rw [if_neg (not_not_intro version)]
  dsimp only
  rw [Function.update_self]

theorem ClockInv.right (inv : ClockInv sec s) {op : PtpOp} (allowed : s.Allowed op)
    (fits : s.Fits op) : s.Right op := by
  cases op with
  | get =>
    have now := inv.time
    have below := inv.timer_lt
    have value : s.timer = s.time % 1000000000 := by omega
    change (⟨s.secondsOf s.timer, s.timer⟩ : PtpTime) = _
    rw [value, inv.secondsOf inv.since (Nat.le_refl _) (by omega)]
    rfl
  | addRx ph f =>
    intro version
    rw [← inv.stamp allowed fits.1 fits.2]
    exact s.addTimestamp_ts MX6Q_RX_TIMESTAMP_BUF_SZ s.rx f.timestamp version
  | addTx ph f =>
    intro version
    rw [← inv.stamp allowed fits.1 fits.2]
    exact s.addTimestamp_ts MX6Q_TX_TIMESTAMP_BUF_SZ s.tx f.timestamp version
  | _ => trivial

end Steps

/-- In a run whose sets and insertions fit, all times returned are right. -/
theorem ptp_run {rx tx : TsTable} {ops : List PtpOp} {s t : Ptp} {op : PtpOp}
    (run : Run (fun s op t => PtpStep s op t ∧ s.Fits op) (Ptp.start rx tx) ops s)
    (step : PtpStep s op t ∧ s.Fits op) : s.Right op := by
  have inv : ∃ sec, ClockInv sec s := by
    refine run.invariant (I := fun s => ∃ sec, ClockInv sec s) ?_ ⟨0, .start rx tx⟩
    rintro s op t ⟨sec, inv⟩ ⟨⟨allowed, rfl⟩, fits⟩
    exact inv.step allowed fits
  obtain ⟨sec, inv⟩ := inv
  exact inv.right step.1.1 step.2

def noStamps : TsTable where
  entries _ := ⟨0, [], 0, 0, ⟨0, 0⟩⟩
  cnt := 0

/-- The clock right after it was started and set. -/
def setAtStart (cnt : PtpTime) : Ptp := (Ptp.start noStamps noStamps).mx6qPtpSetCnt cnt

theorem ptp_run_small : (setAtStart ⟨10, 100000000⟩).Right .get := by
  have below : (Ptp.start noStamps noStamps).Allowed (.set ⟨10, 100000000⟩) :=
    (by decide : 100000000 < MX6Q_TIMER_PER1SEC)
  have fits : (Ptp.start noStamps noStamps).Fits (.set ⟨10, 100000000⟩) :=
    ⟨rfl, (by decide : 100000000 < 500000000)⟩
  exact ptp_run (.single ⟨⟨below, rfl⟩, fits⟩) ⟨⟨trivial, rfl⟩, trivial⟩

/-- Set to 10.8 s in the first half of a second, the clock returns 9.8 s. -/
theorem ptp_broken :
    ¬∀ (ops : List PtpOp) (s t : Ptp) (op : PtpOp),
      Run PtpStep (Ptp.start noStamps noStamps) ops s → PtpStep s op t → s.Right op := by
  intro all
  have returned : (setAtStart ⟨10, 800000000⟩).mx6qPtpGetCnt = PtpTime.ofNanos 10800000000 :=
    all [.set ⟨10, 800000000⟩] _ _ .get
      (.single ⟨(by decide : 800000000 < MX6Q_TIMER_PER1SEC), rfl⟩) ⟨trivial, rfl⟩
  revert returned
  decide +kernel

end Mx6xBsp.Devnp
