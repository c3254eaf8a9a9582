import Mathlib.Logic.Function.Basic

/-!
# The 1588 clock of the Ethernet driver

The timer of the NIC counts the nanoseconds of a second; the seconds are `rtc` in
software, counted by `mx6q_isr` when the timer wraps. `rtc_half`, set by
`mx6q_1588_isr` in the middle of a second, tells a reader on which side of a wrap
`rtc` is. Beside the registers a state keeps the ages of the two interrupts and
what the time should be: the time last set and what has passed since.
-/

namespace Mx6xBsp.Devnp

def MX6Q_TIMER_PER1SEC : Nat := 1000000000
def MX6Q_TIMER_PER05SEC : Nat := 500000000
def MX6Q_RX_TIMESTAMP_BUF_SZ : Nat := 64
def MX6Q_TX_TIMESTAMP_BUF_SZ : Nat := 16

/-- `ptp_time_t` -/
structure PtpTime where
  sec : BitVec 32
  nsec : Nat
deriving DecidableEq

/-- The time `t` nanoseconds after the beginning. -/
def PtpTime.ofNanos (t : Nat) : PtpTime :=
  ⟨BitVec.ofNat 32 (t / MX6Q_TIMER_PER1SEC), t % MX6Q_TIMER_PER1SEC⟩

/-- What the driver uses of `ptpv2hdr_t`. -/
structure PtpHdr where
  version : BitVec 8
  messageId : BitVec 8
  sequenceId : Nat
  clockIdentity : List (BitVec 8)
  sportId : Nat

/-- `ptp_extts_t` -/
structure PtpExtTs where
  msgType : BitVec 8
  clockIdentity : List (BitVec 8)
  sportId : Nat
  sequenceId : Nat
  ts : PtpTime

/-- `rx_ts` with `rx_ts_cnt`, or `tx_ts` with `tx_ts_cnt`. -/
structure TsTable where
  entries : Nat → PtpExtTs
  cnt : Nat

/-- A frame the NIC has stamped: the `timestamp` of its descriptor, the right time, the uptime and
the number of times the clock was set. -/
structure PtpFrame where
  timestamp : Nat
  time : Nat
  uptime : Nat
  sets : Nat

structure Ptp where
  rtc : BitVec 32
  rtcHalf : Bool
  /-- `MX6Q_TIMER_VALUER` -/
  timer : Nat
  /-- The age of `IEVENT_TS_TIMER`. -/
  tsTimer : Option Nat
  /-- The age of `MX6Q_TCSR_TF`. -/
  tf : Option Nat
  /-- `mx6q_isr` has read `IEVENT_TS_TIMER` and not yet handled it. -/
  ievent : Bool
  rx : TsTable
  tx : TsTable
  frames : List PtpFrame
  /-- The right time. -/
  time : Nat
  /-- The right time when the clock was last set. -/
  origin : Nat
  uptime : Nat
  sets : Nat

namespace Ptp

/-- After `mx6q_ptp_start`. -/
def start (rx tx : TsTable) : Ptp where
  rtc := 0
  rtcHalf := false
  timer := 0
  tsTimer := none
  tf := none
  ievent := false
  rx := rx
  tx := tx
  frames := []
  time := 0
  origin := 0
  uptime := 0
  sets := 0

variable (s : Ptp)

/-! ## The hardware -/

/-- One nanosecond: the timer wraps at the period, and the compare event comes in the middle. -/
def tick : Ptp :=
  let timer := s.timer + 1
  { s with
    timer := if timer = MX6Q_TIMER_PER1SEC then 0 else timer
    tsTimer := match s.tsTimer with
      | some age => some (age + 1)
      | none => if timer = MX6Q_TIMER_PER1SEC then some 0 else none
    tf := match s.tf with
      | some age => some (age + 1)
      | none => if timer = MX6Q_TIMER_PER05SEC then some 0 else none
    time := s.time + 1
    uptime := s.uptime + 1 }

/-- The NIC stamps a frame. -/
def capture : Ptp :=
  { s with frames := ⟨s.timer, s.time, s.uptime, s.sets⟩ :: s.frames }

/-! ## The interrupts -/

/-- `mx6q_isr` reads `ievent`. -/
def isrRead : Ptp := { s with ievent := s.tsTimer.isSome }

/-- It returns early for a received frame. -/
def isrReturn : Ptp := { s with ievent := false }

/-- It handles `IEVENT_TS_TIMER` under `rtc_spinner`. -/
def isrTimer : Ptp :=
  if s.ievent then
    { s with tsTimer := none, rtcHalf := false, rtc := s.rtc + 1, ievent := false }
  else s

def mx6q1588Isr : Ptp := { s with rtcHalf := true, tf := none }

/-! ## The calls -/

/-- The seconds for a value of the timer, as `mx6q_ptp_get_cnt` and both insertions find them. -/
def secondsOf (nsec : Nat) : BitVec 32 :=
  if nsec > 750000000 ∧ s.rtcHalf = false then s.rtc - 1
  else if nsec < 250000000 ∧ s.rtcHalf = true then s.rtc + 1
  else s.rtc

def mx6qPtpGetCnt : PtpTime := ⟨s.secondsOf s.timer, s.timer⟩

def mx6qPtpSetCnt (cnt : PtpTime) : Ptp :=
  { s with
    tsTimer := none
    rtc := cnt.sec
    timer := cnt.nsec
    time := cnt.sec.toNat * MX6Q_TIMER_PER1SEC + cnt.nsec
    origin := cnt.sec.toNat * MX6Q_TIMER_PER1SEC + cnt.nsec
    sets := s.sets + 1 }

/-- Either insertion, into a table of `size` entries. -/
def addTimestamp (size : Nat) (table : TsTable) (ph : PtpHdr) (timestamp : Nat) : TsTable :=
  if ph.version &&& 0x0f ≠ 0x2 then table
  else
    { entries := Function.update table.entries table.cnt
        ⟨ph.messageId &&& 0x0f, ph.clockIdentity, ph.sportId, ph.sequenceId,
          ⟨s.secondsOf timestamp, timestamp⟩⟩
      cnt := (table.cnt + 1) % size }

def mx6qPtpAddRxTimestamp (ph : PtpHdr) (timestamp : Nat) : Ptp :=
  { s with rx := s.addTimestamp MX6Q_RX_TIMESTAMP_BUF_SZ s.rx ph timestamp }

def mx6qPtpAddTxTimestamp (ph : PtpHdr) (timestamp : Nat) : Ptp :=
  { s with tx := s.addTimestamp MX6Q_TX_TIMESTAMP_BUF_SZ s.tx ph timestamp }

end Ptp

/-! ## Steps -/

inductive PtpOp
  | tick
  | capture
  | isrRead
  | isrReturn
  | isrTimer
  | half
  | get
  | set (cnt : PtpTime)
  | addRx (ph : PtpHdr) (f : PtpFrame)
  | addTx (ph : PtpHdr) (f : PtpFrame)

def Ptp.next (s : Ptp) : PtpOp → Ptp
  | .tick => s.tick
  | .capture => s.capture
  | .isrRead => s.isrRead
  | .isrReturn => s.isrReturn
  | .isrTimer => s.isrTimer
  | .half => s.mx6q1588Isr
  | .get => s
  | .set cnt => s.mx6qPtpSetCnt cnt
  | .addRx ph f => s.mx6qPtpAddRxTimestamp ph f.timestamp
  | .addTx ph f => s.mx6qPtpAddTxTimestamp ph f.timestamp

/-- The two interrupts are served within 250 ms. -/
def Ptp.Timely (s : Ptp) : Prop :=
  (∀ age ∈ s.tsTimer, age < 250000000) ∧ ∀ age ∈ s.tf, age < 250000000

/-- What may happen in a state: time passes while the interrupts are served in time,
`mx6q_1588_isr` runs for its event, a time set has less than a second of nanoseconds, and a stamp
inserted is one the NIC took. -/
def Ptp.Allowed (s : Ptp) : PtpOp → Prop
  | .tick => s.tick.Timely
  | .half => s.tf.isSome
  | .set cnt => cnt.nsec < MX6Q_TIMER_PER1SEC
  | .addRx _ f => f ∈ s.frames
  | .addTx _ f => f ∈ s.frames
  | _ => True

end Mx6xBsp.Devnp
