import Mathlib.Data.List.Basic

/-!
# The I2C master

`imx_i2c_send` and `imx_i2c_recv` write down a transaction and send the address, and
the interrupt handler does the rest. The caller waits for a pulse of the handler on a
channel, for a time that goes with the length of the message. Every transaction that is
begun has a number, its buffers and the pulses raised for it have this number too.
-/

namespace Mx6xBsp.I2c

def I2C_STATUS_DONE : Nat := 0x0001
def I2C_STATUS_ERROR : Nat := 0x0002
def I2C_STATUS_NACK : Nat := 0x0010
def I2C_STATUS_ARBL : Nat := 0x0020
def I2C_STATUS_BUSY : Nat := 0x0040

def CTRREG_IEN : BitVec 16 := 1 <<< 7
def CTRREG_IIEN : BitVec 16 := 1 <<< 6
def CTRREG_MSTA : BitVec 16 := 1 <<< 5
def CTRREG_MTX : BitVec 16 := 1 <<< 4
def CTRREG_TXAK : BitVec 16 := 1 <<< 3

def STSREG_IAL : BitVec 16 := 1 <<< 4
def STSREG_RXAK : BitVec 16 := 1 <<< 0

def has (bits mask : BitVec 16) : Bool := bits &&& mask != 0

inductive Transaction
  | masterSend
  | masterReceive
  deriving DecidableEq

inductive BusState
  | stopped
  | waitRestart
  | txAddr7bit
  | txAddr10bitMsb
  | txAddr10bitLsb
  | txData
  | rxData
  deriving DecidableEq

inductive TransStatus
  | inProgress
  | complete
  | failed
  deriving DecidableEq

inductive AddrFmt
  | bit7
  | bit10
  deriving DecidableEq

/-- `tx_buf` or `rx_buf`, by the number of its transaction, with its length and index -/
structure Buf where
  owner : Nat
  len : Nat
  idx : Nat

/-- The device: `CTRREG`, the parameters of the transaction, the number of transactions so far, and
the pulses on the channel -/
structure Dev where
  ctr : BitVec 16
  stopReq : Bool
  tx : Buf
  rx : Buf
  transaction : Transaction
  transactionStatus : TransStatus
  transactionError : Nat
  busState : BusState
  calls : Nat
  pulses : List Nat

namespace Dev

variable (d : Dev)

/-- `imx_i2c_reset` -/
def reset : Dev := { d with ctr := CTRREG_IEN ||| CTRREG_IIEN, busState := .stopped }

/-! ## The interrupt handler -/

/-- What the handler leaves: the device, whether it returns `intrevent`, and the buffer it has
touched -/
structure Handled where
  dev : Dev
  event : Bool
  access : Option Nat

def fail (error : Nat) : Handled :=
  ⟨{ d with
      transactionStatus := .failed
      transactionError := error
      ctr := CTRREG_IEN ||| CTRREG_IIEN }, true, none⟩

/-- Transmit data phase -/
def txData : Handled :=
  if d.tx.idx < d.tx.len then
    ⟨{ d with tx := { d.tx with idx := d.tx.idx + 1 } }, false, some d.tx.owner⟩
  else if d.stopReq then
    ⟨{ d with
        ctr := CTRREG_IEN ||| CTRREG_IIEN
        busState := .stopped
        transactionStatus := .complete }, true, none⟩
  else
    ⟨{ d with busState := .waitRestart, transactionStatus := .complete }, true, none⟩

/-- Before a byte is received, the last but one or the last -/
def rxControl : Dev :=
  if d.rx.idx + 1 = d.rx.len then
    if d.stopReq then
      { d with
        ctr := CTRREG_IEN ||| CTRREG_IIEN ||| CTRREG_MTX ||| CTRREG_TXAK
        busState := .stopped
        transactionStatus := .complete }
    else
      { d with
        ctr := CTRREG_IEN ||| CTRREG_IIEN ||| CTRREG_MTX ||| CTRREG_TXAK ||| CTRREG_MSTA
        busState := .waitRestart
        transactionStatus := .complete }
  else if d.rx.idx + 2 = d.rx.len then
    { d with ctr := CTRREG_IEN ||| CTRREG_IIEN ||| CTRREG_MSTA ||| CTRREG_TXAK }
  else d

/-- Receive data phase -/
def rxData : Handled :=
  ⟨{ d.rxControl with rx := { d.rx with idx := d.rx.idx + 1 } }, d.rx.idx + 1 == d.rx.len,
    some d.rx.owner⟩

/-- A missing acknowledge counts after an address or data byte. -/
def acknowledged : Bool :=
  d.busState == .txAddr7bit || d.busState == .txAddr10bitMsb || d.busState == .txData

/-- The rest of the handler, after the checks for errors -/
def phase : Handled :=
  match d.busState with
  | .txAddr10bitMsb => ⟨{ d with busState := .txAddr10bitLsb }, false, none⟩
  | .txAddr10bitLsb | .txAddr7bit =>
    match d.transaction with
    | .masterSend => txData { d with busState := .txData }
    | .masterReceive =>
      ⟨{ d with
          busState := .rxData
          ctr := CTRREG_IEN ||| CTRREG_IIEN ||| CTRREG_MSTA |||
            (if d.rx.len = 1 then CTRREG_TXAK else 0) }, false, none⟩
  | .txData => d.txData
  | .rxData => d.rxData
  | .stopped | .waitRestart => ⟨{ d with transactionError := 0xDEAD }, true, none⟩

/-- `imx_i2c_intr` for a status -/
def intr (i2sr : BitVec 16) : Handled :=
  if has i2sr STSREG_IAL then d.fail I2C_STATUS_ARBL
  else if d.acknowledged && has i2sr STSREG_RXAK then d.fail I2C_STATUS_NACK
  else d.phase

/-- An interrupt: the event of the handler is a pulse. -/
def interrupt (i2sr : BitVec 16) : Dev :=
  { (d.intr i2sr).dev with
    pulses := if (d.intr i2sr).event then d.pulses ++ [d.calls] else d.pulses }

/-! ## Calls -/

/-- How the bus is when it has to be idle for a start: so, or so after a reset, or not -/
inductive Bus
  | idle
  | reset
  | busy
  deriving DecidableEq

/-- A call for a slave with an address of the format `fmt`: what the bus is like, and the statuses
of the interrupts before the state of the bus is written down (`early`), then until the caller
receives a pulse or has waited long enough (`before`), and from then to its return (`after`) -/
structure Call where
  transaction : Transaction
  fmt : AddrFmt
  len : Nat
  stop : Bool
  bus : Bus
  early : List (BitVec 16)
  before : List (BitVec 16)
  after : List (BitVec 16)

/-- The wait for the bus, with `none` for the return of `I2C_STATUS_BUSY` -/
def waitBus (bus : Bus) : Option Dev :=
  if d.busState = .stopped then
    match bus with
    | .idle => some d
    | .reset => some d.reset
    | .busy => none
  else some d

/-- The transaction of a call is filled in. -/
def fillIn (c : Call) : Dev :=
  let d := { d with
    calls := d.calls + 1
    transaction := c.transaction
    transactionStatus := .inProgress
    transactionError := 0
    stopReq := c.stop }
  match c.transaction with
  | .masterSend => { d with tx := ⟨d.calls, c.len, 0⟩ }
  | .masterReceive => { d with rx := ⟨d.calls, c.len, 0⟩, ctr := d.ctr ||| CTRREG_IIEN }

/-- There is a start, or a repeated start, on the bus: the bit `MSTA` is set, or `RSTA` by the
master. -/
def starts : Bool :=
  match d.busState with
  | .stopped => !has d.ctr CTRREG_MSTA
  | .waitRestart => has d.ctr CTRREG_MSTA
  | _ => false

/-- `imx_sendaddr7` and `imx_sendaddr10` up to the address byte -/
def sendaddr : Dev :=
  let d := { d with ctr := d.ctr ||| CTRREG_MTX }
  if d.busState = .stopped then { d with ctr := d.ctr ||| CTRREG_MSTA } else d

/-- Update bus state for ISR to keep track of what to do next -/
def addrState (fmt : AddrFmt) : Dev :=
  { d with busState := if fmt = .bit7 then .txAddr7bit else .txAddr10bitMsb }

def interrupts (statuses : List (BitVec 16)) : Dev := statuses.foldl interrupt d

/-- `MsgReceivePulse`, which gives up when there is none -/
def receive : Dev := { d with pulses := d.pulses.tail }

/-- The end of a call -/
def finish : Nat × Dev :=
  match d.transactionStatus with
  | .inProgress =>
    match d.transaction with
    | .masterSend => (I2C_STATUS_BUSY, d)
    | .masterReceive =>
      (I2C_STATUS_ERROR, { d with ctr := CTRREG_IEN ||| CTRREG_IIEN, busState := .stopped })
  | .failed => (d.transactionError, d.reset)
  | .complete => (I2C_STATUS_DONE, d)

/-- The transaction of a call begins. -/
def start (c : Call) : Dev := ((d.fillIn c).sendaddr.interrupts c.early).addrState c.fmt

/-- The device when the caller looks for a pulse -/
def waited (c : Call) : Dev := (d.start c).interrupts c.before

/-- `imx_i2c_send` and `imx_i2c_recv` -/
def exec (c : Call) : Nat × Dev :=
  if c.len = 0 then (I2C_STATUS_DONE, d)
  else
    match d.waitBus c.bus with
    | none => (I2C_STATUS_BUSY, d.reset)
    | some d => ((d.waited c).receive.interrupts c.after).finish

end Dev

/-! ## Runs -/

/-- Calls, one at a time, and interrupts when there is none in progress -/
inductive Event
  | call (c : Dev.Call)
  | intr (i2sr : BitVec 16)

namespace Dev

variable (d : Dev)

def next : Event → Dev
  | .call c => (d.exec c).2
  | .intr i2sr => d.interrupt i2sr

/-- The buffers that a sequence of interrupts touches -/
def accesses : Dev → List (BitVec 16) → List Nat
  | _, [] => []
  | d, i2sr :: statuses => (d.intr i2sr).access.toList ++ accesses (d.interrupt i2sr) statuses

/-- A transaction is isolated: it begins with a start, the caller gets a pulse for the end of it or
none, and the interrupts until the return only touch its buffer. -/
structure Isolated (c : Call) : Prop where
  starts : (d.fillIn c).starts = true
  pulse : ∀ p ∈ (d.waited c).pulses.head?,
    p = d.calls + 1 ∧ (d.waited c).transactionStatus ≠ .inProgress
  accesses : ∀ owner ∈ (d.fillIn c).sendaddr.accesses c.early ++ ((d.start c).accesses c.before ++
    (d.waited c).receive.accesses c.after), owner = d.calls + 1

/-- Every transaction is isolated, and no interrupt touches a buffer after the return. -/
def Fine : Event → Prop
  | .call c => c.len ≠ 0 → ∀ t, d.waitBus c.bus = some t → t.Isolated c
  | .intr i2sr => (d.intr i2sr).access = none

/-- The events of the handler over a sequence of interrupts -/
def events : Dev → List (BitVec 16) → Nat
  | _, [] => 0
  | d, i2sr :: statuses => (d.intr i2sr).event.toNat + events (d.interrupt i2sr) statuses

/-- The interrupts of a call raise one pulse, that for its end, before the caller gives up and none
after, or in a receive none at all. An interrupt before the state is written down can only be for
a lost arbitration. -/
structure Ends (c : Call) : Prop where
  after : (d.waited c).receive.events c.after = 0
  before : c.early = [] ∧ ((d.start c).events c.before = 1 ∨
      c.transaction = .masterReceive ∧ (d.start c).events c.before = 0) ∨
    (∃ i2sr, c.early = [i2sr] ∧ has i2sr STSREG_IAL = true) ∧ (d.start c).events c.before = 0

/-- The condition: the calls end so, and no interrupt comes when there is no call. -/
def Kept : Event → Prop
  | .call c => c.len ≠ 0 → ∀ t, d.waitBus c.bus = some t → t.Ends c
  | .intr _ => False

end Dev

end Mx6xBsp.I2c
