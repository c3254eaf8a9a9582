import Mathlib.Data.BitVec
import Mx6xBsp.I2c.Isolation
import Mx6xBsp.Lib.Loops

/-!
# The bytes of an I2C transfer

What the handler writes to the data register and reads from it, and what that puts on the bus. The
controller sends a byte that is written, or takes the next one after a read, and gives an interrupt
when it is through. `transfer_iff` tells for which slaves the bytes on the bus, the buffer and the
status of a call agree.
-/

namespace Mx6xBsp.I2c.Transfer

open Dev Loops

abbrev Byte := BitVec 8

def IMX_I2C_ADDR_RD : Byte := 1

/-! ## Requests -/

/-- The address of a slave, of 7 or 10 bits -/
structure Address where
  fmt : AddrFmt
  addr : BitVec 32
  fits : addr.toNat < match fmt with
    | .bit7 => 128
    | .bit10 => 1024

inductive Request
  | send (buf : List Byte)
  | recv (len : Nat)

def Request.len : Request → Nat
  | .send buf => buf.length
  | .recv len => len

def Request.transaction : Request → Transaction
  | .send _ => .masterSend
  | .recv _ => .masterReceive

structure Xfer where
  address : Address
  request : Request
  stop : Bool
  some : 0 < request.len

/-- The call, on a bus that is idle -/
def Xfer.call (x : Xfer) : Call :=
  { transaction := x.request.transaction
    fmt := x.address.fmt
    len := x.request.len
    stop := x.stop
    bus := .idle
    early := []
    before := []
    after := [] }

/-! ## The bus -/

inductive Sym
  | start
  | restart
  | sent (b : Byte) (ack : Bool)
  | received (b : Byte) (ack : Bool)
  | stop
  deriving DecidableEq

/-- What the controller is about -/
inductive Line
  | idle
  | sending (b : Byte)
  | receiving

/-- A slave acknowledges bytes and has data, whatever has been on the bus. -/
structure Slave where
  ack : List Sym → Byte → Bool
  data : List Sym → Byte

/-- The device with the buffer of a receive, the data register, and what this transfer has put on
the bus -/
structure Io where
  dev : Dev
  rxBuf : Nat → Byte
  datreg : Byte
  line : Line
  bus : List Sym

/-- A change of `MSTA` -/
def edge (old new : BitVec 16) : List Sym :=
  match has old CTRREG_MSTA, has new CTRREG_MSTA with
  | true, false => [.stop]
  | false, true => [.start]
  | _, _ => []

/-- `out16` of the control register -/
def Io.control (io : Io) (dev : Dev) : Io :=
  { io with dev, bus := io.bus ++ edge io.dev.ctr dev.ctr }

/-- `out16` of the data register -/
def Io.put (b : Byte) (io : Io) : Io :=
  if has io.dev.ctr CTRREG_MSTA && has io.dev.ctr CTRREG_MTX then { io with line := .sending b }
  else io

/-- `in16` of the data register, which begins the next byte -/
def Io.get (io : Io) : Io :=
  if has io.dev.ctr CTRREG_MSTA && !has io.dev.ctr CTRREG_MTX then { io with line := .receiving }
  else io

/-- The status register without an acknowledge -/
def statusOf (ack : Bool) : BitVec 16 := if ack then 0 else STSREG_RXAK

/-- The controller is through with a byte, and gives an interrupt with its status. -/
def Io.complete (slave : Slave) (io : Io) : Option (BitVec 16 × Io) :=
  match io.line with
  | .idle => none
  | .sending b =>
    let ack := slave.ack io.bus b
    some (statusOf ack, { io with line := .idle, bus := io.bus ++ [.sent b ack] })
  | .receiving =>
    let b := slave.data io.bus
    let ack := !has io.dev.ctr CTRREG_TXAK
    some (statusOf ack, { io with line := .idle, datreg := b, bus := io.bus ++ [.received b ack] })

/-! ## The handler -/

variable (x : Xfer) (slave : Slave)

def xaddr1 (addr : BitVec 32) : Byte := (0xf0 ||| ((addr >>> 7) &&& 0x6)).setWidth 8

def xaddr2 (addr : BitVec 32) : Byte := (addr &&& 0xff).setWidth 8

/-- What the handler does with the data register -/
inductive Access
  | none
  | put (b : Byte)
  | dummy
  | get (idx : Nat)

def Request.next (idx : Nat) : Request → Access
  | .send buf => if h : idx < buf.length then .put (buf.get ⟨idx, h⟩) else .none
  | .recv _ => .none

def access (d : Dev) (i2sr : BitVec 16) : Access :=
  if has i2sr STSREG_IAL || (d.acknowledged && has i2sr STSREG_RXAK) then .none
  else
    match d.busState with
    | .txAddr10bitMsb => .put (xaddr2 x.address.addr)
    | .txAddr10bitLsb | .txAddr7bit =>
      match d.transaction with
      | .masterSend => x.request.next d.tx.idx
      | .masterReceive => .dummy
    | .txData => x.request.next d.tx.idx
    | .rxData => .get d.rx.idx
    | .stopped | .waitRestart => .none

/-- `imx_i2c_intr`: the control register first, then the data register -/
def Io.intr (i2sr : BitVec 16) (io : Io) : Io :=
  let written := io.control (io.dev.interrupt i2sr)
  match access x io.dev i2sr with
  | .none => written
  | .put b => written.put b
  | .dummy => written.get
  | .get idx => { written.get with rxBuf := Function.update io.rxBuf idx io.datreg }

/-! ## A call -/

/-- The byte that `imx_sendaddr7` and `imx_sendaddr10` send -/
def addressByte : Byte :=
  let byte :=
    match x.address.fmt with
    | .bit7 => (x.address.addr <<< 1).setWidth 8
    | .bit10 => xaddr1 x.address.addr
  if x.request.transaction = .masterReceive then byte ||| IMX_I2C_ADDR_RD else byte

/-- The start of a transfer, or its repeated start -/
def startSyms (d : Dev) : List Sym :=
  if d.busState = .stopped then edge d.ctr (d.fillIn x.call).sendaddr.ctr
  else if d.busState = .waitRestart then [.restart]
  else []

/-- A device that no transfer occupies, with the buffer of the call -/
structure Ready where
  dev : Dev
  clean : dev.Clean
  rxBuf : Nat → Byte
  datreg : Byte

/-- The call up to its wait -/
def Ready.begin (k : Ready) : Io :=
  let addressed : Io :=
    { dev := (k.dev.fillIn x.call).sendaddr
      rxBuf := k.rxBuf
      datreg := k.datreg
      line := .idle
      bus := startSyms x k.dev }
  { addressed.put (addressByte x) with dev := k.dev.start x.call }

/-- An interrupt while the caller waits. With none to come it waits until the time is over. -/
def pass (io : Io) : Pass Io (Option Io) :=
  match io.complete slave with
  | none => .leave none
  | some (i2sr, through) =>
    if (through.dev.intr i2sr).event then .leave (some (through.intr x i2sr))
    else .next (through.intr x i2sr)

/-! ## What a transfer should do -/

/-- The address on the bus, for a 7-bit or a 10-bit address -/
def addressBytes : List Byte :=
  let addr := x.address.addr.toNat
  let rw := match x.request with
    | .send _ => 0
    | .recv _ => 1
  match x.address.fmt with
  | .bit7 => [.ofNat 8 (2 * addr + rw)]
  | .bit10 => [.ofNat 8 (0xf0 + 2 * (addr / 256) + rw), .ofNat 8 addr]

/-- The bytes that the master sends -/
def bytes : List Byte :=
  addressBytes x ++ match x.request with
    | .send buf => buf
    | .recv _ => []

/-- Bytes that are received, where the last one is not acknowledged -/
def taken : List Byte → List Sym
  | [] => []
  | [b] => [.received b false]
  | b :: rest => .received b true :: taken rest

/-- What the master receives, as the buffer has it in the end -/
def received (io : Io) : List Sym :=
  match x.request with
  | .send _ => []
  | .recv len => taken ((List.range len).map io.rxBuf)

def acked (sent : List Byte) : List Sym := sent.map (.sent · true)

def stopSyms : List Sym := if x.stop then [.stop] else []

/-- A transfer that is done has sent all its bytes with an acknowledge for each, and has the bytes
in the buffer that came. Otherwise the first byte without an acknowledge is the last. -/
structure Right (first : List Sym) (io : Io) (status : Nat) : Prop where
  done : status = I2C_STATUS_DONE →
    io.bus = first ++ (acked (bytes x) ++ (received x io ++ stopSyms x))
  nack : status ≠ I2C_STATUS_DONE → status = I2C_STATUS_NACK ∧
    ∃ before b after, bytes x = before ++ b :: after ∧
      io.bus = first ++ (acked before ++ [.sent b false, .stop])

/-- The call returns with a right transfer. -/
def TransferRight (k : Ready) : Prop :=
  ∃ last, Ends (pass x slave) (k.begin x) (some last) ∧
    Right x (startSyms x k.dev) last last.dev.receive.finish.1

/-- A slave that acknowledges the first byte of a 10-bit address acknowledges the second one. -/
def SecondAcked (k : Ready) : Prop :=
  x.address.fmt = .bit10 → slave.ack (startSyms x k.dev) (addressByte x) = true →
    slave.ack (startSyms x k.dev ++ [.sent (addressByte x) true]) (xaddr2 x.address.addr) = true

/-! ## One interrupt -/

section Interrupts

variable {x} {slave} {io : Io} {b : Byte} {ack : Bool}

theorem statusOf_ial : has (statusOf ack) STSREG_IAL = false := by cases ack <;> decide

theorem statusOf_rxak : has (statusOf ack) STSREG_RXAK = !ack := by cases ack <;> decide

/-- The handler goes on after an acknowledge, and where it does not look for one. -/
def GoesOn (d : Dev) (ack : Bool) : Prop := d.acknowledged = false ∨ ack = true

theorem intr_goesOn {d : Dev} (on : GoesOn d ack) : d.intr (statusOf ack) = d.phase := by
  unfold Dev.intr
  rw [statusOf_ial, statusOf_rxak]
  rcases on with none | heard
  · rw [none]
    rfl
  · rw [heard, Bool.not_true, Bool.and_false]
    rfl

theorem ial_zero : has (0 : BitVec 16) STSREG_IAL = false := by decide

theorem rxak_zero : has (0 : BitVec 16) STSREG_RXAK = false := by decide

theorem access_goesOn {d : Dev} (on : GoesOn d ack) : access x d (statusOf ack) = access x d 0 := by
  unfold access
  rw [statusOf_ial, statusOf_rxak, ial_zero, rxak_zero, Bool.and_false]
  rcases on with none | heard
  · rw [none]
    rfl
  · rw [heard, Bool.not_true, Bool.and_false]

theorem pass_nack (line : io.line = .sending b) (looks : io.dev.acknowledged = true)
    (master : has io.dev.ctr CTRREG_MSTA = true) (unheard : slave.ack io.bus b = false) :
    ∃ last, pass x slave io = .leave (some last) ∧
      last.dev.transactionStatus = .failed ∧ last.dev.transactionError = I2C_STATUS_NACK ∧
      last.bus = io.bus ++ [.sent b false, .stop] := by
  have failed : io.dev.intr (statusOf false) = io.dev.fail I2C_STATUS_NACK := by
    unfold Dev.intr
    rw [statusOf_ial, statusOf_rxak, looks]
    rfl
  have none : access x io.dev (statusOf false) = .none := by
    unfold access
    rw [statusOf_ial, statusOf_rxak, looks]
    rfl
  let through : Io := { io with line := .idle, bus := io.bus ++ [.sent b false] }
  have passed : pass x slave io = .leave (some (through.intr x (statusOf false))) := by
    unfold pass Io.complete
    rw [line]
    dsimp only
    rw [unheard, failed]
    rfl
  refine ⟨_, passed, ?_⟩
  have dev : through.dev.interrupt (statusOf false) =
      { (io.dev.fail I2C_STATUS_NACK).dev with pulses := io.dev.pulses ++ [io.dev.calls] } := by
    unfold Dev.interrupt
    dsimp only [through]
    rw [failed]
    rfl
  unfold Io.intr
  rw [show access x through.dev (statusOf false) = .none from none]
  unfold Io.control
  rw [dev]
  have stopped : edge io.dev.ctr (CTRREG_IEN ||| CTRREG_IIEN) = [.stop] := by
    unfold edge
    rw [master, stop_clear]
  refine ⟨rfl, rfl, ?_⟩
  change (io.bus ++ [Sym.sent b false]) ++ edge io.dev.ctr (CTRREG_IEN ||| CTRREG_IIEN) = _
  rw [stopped, List.append_assoc]
  rfl

end Interrupts

/-! ## Sending -/

section Sending

variable {x} {slave}

/-- The byte `b` of a send is on the bus, and `rest` is still to come. -/
structure Sending (x : Xfer) (buf : List Byte) (io : Io) (b : Byte) (rest : List Byte) : Prop where
  request : x.request = .send buf
  line : io.line = .sending b
  transaction : io.dev.transaction = .masterSend
  status : io.dev.transactionStatus = .inProgress
  stop : io.dev.stopReq = x.stop
  master : has io.dev.ctr CTRREG_MSTA = true
  mtx : has io.dev.ctr CTRREG_MTX = true
  len : io.dev.tx.len = buf.length
  rest : rest = buf.drop io.dev.tx.idx
  state : io.dev.busState = .txAddr7bit ∨ io.dev.busState = .txAddr10bitLsb ∨
    io.dev.busState = .txData

variable {buf : List Byte} {io : Io} {b : Byte} {ack : Bool}

theorem Sending.phase {rest : List Byte} (sending : Sending x buf io b rest) :
    io.dev.phase = txData { io.dev with busState := .txData } := by
  have send := sending.transaction
  have state := sending.state
  generalize io.dev = d at send state
  cases d
  dsimp only at send state
  subst send
  rcases state with state | state | state <;> subst state <;> rfl

theorem Sending.access {rest : List Byte} (sending : Sending x buf io b rest)
    (on : GoesOn io.dev ack) :
    access x io.dev (statusOf ack) = x.request.next io.dev.tx.idx := by
  rw [access_goesOn on]
  unfold Transfer.access
  rw [ial_zero, rxak_zero, Bool.and_false]
  rcases sending.state with state | state | state
  · rw [state, sending.transaction]
    rfl
  · rw [state, sending.transaction]
    rfl
  · rw [state]
    rfl

theorem Sending.more {next : Byte} {rest : List Byte} (sending : Sending x buf io b (next :: rest))
    (heard : slave.ack io.bus b = ack) (on : GoesOn io.dev ack) :
    ∃ t, pass x slave io = .next t ∧ Sending x buf t next rest ∧ t.dev.busState = .txData ∧
      t.bus = io.bus ++ [.sent b ack] := by
  have inside : io.dev.tx.idx < buf.length := by
    by_contra past
    have none : buf.drop io.dev.tx.idx = [] := List.drop_eq_nil_of_le (by omega)
    have some := sending.rest
    rw [none] at some
    cases some
  have split : buf[io.dev.tx.idx] = next ∧ buf.drop (io.dev.tx.idx + 1) = rest := by
    have here := (List.drop_eq_getElem_cons inside).symm.trans sending.rest.symm
    injection here with one others
    exact ⟨one, others⟩
  let dev : Dev :=
    { io.dev with busState := .txData, tx := { io.dev.tx with idx := io.dev.tx.idx + 1 } }
  have handled : io.dev.intr (statusOf ack) = ⟨dev, false, some io.dev.tx.owner⟩ := by
    rw [intr_goesOn on, sending.phase]
    unfold txData
    rw [if_pos (by rw [sending.len]; exact inside)]
  have put : Transfer.access x io.dev (statusOf ack) = .put next := by
    rw [sending.access on, sending.request]
    unfold Request.next
    dsimp only
    rw [dif_pos inside]
    exact congrArg Access.put split.1
  let t : Io := { io with dev := dev, line := .sending next, bus := io.bus ++ [.sent b ack] }
  have passed : pass x slave io = .next t := by
    unfold pass Io.complete
    rw [sending.line]
    dsimp only
    rw [heard, handled]
    unfold Io.intr
    dsimp only
    rw [put]
    unfold Dev.interrupt Io.control Io.put
    rw [handled]
    have same : edge io.dev.ctr io.dev.ctr = [] := by
      unfold edge
      cases has io.dev.ctr CTRREG_MSTA <;> rfl
    dsimp only [dev]
    rw [same, List.append_nil, sending.master, sending.mtx]
    rfl
  refine ⟨t, passed, ?_, rfl, rfl⟩
  exact ⟨sending.request, rfl, sending.transaction, sending.status, sending.stop, sending.master,
    sending.mtx, sending.len, split.2.symm, Or.inr (Or.inr rfl)⟩

theorem Sending.last (sending : Sending x buf io b []) (heard : slave.ack io.bus b = ack)
    (on : GoesOn io.dev ack) :
    ∃ last, pass x slave io = .leave (some last) ∧ last.dev.transactionStatus = .complete ∧
      last.bus = io.bus ++ [.sent b ack] ++ stopSyms x := by
  have past : buf.length ≤ io.dev.tx.idx := List.drop_eq_nil_iff.mp sending.rest.symm
  have put : Transfer.access x io.dev (statusOf ack) = .none := by
    rw [sending.access on, sending.request]
    unfold Request.next
    dsimp only
    rw [dif_neg (by omega)]
  let through : Io := { io with line := .idle, bus := io.bus ++ [.sent b ack] }
  have handled : ∃ dev, io.dev.intr (statusOf ack) = ⟨dev, true, none⟩ ∧
      dev.transactionStatus = .complete ∧ edge io.dev.ctr dev.ctr = stopSyms x := by
    have full : ¬io.dev.tx.idx < io.dev.tx.len := by
      rw [sending.len]
      omega
    rw [intr_goesOn on, sending.phase]
    unfold txData stopSyms
    rw [if_neg full]
    dsimp only
    rw [sending.stop]
    split
    · refine ⟨_, rfl, rfl, ?_⟩
      unfold edge
      rw [sending.master, stop_clear]
    · refine ⟨_, rfl, rfl, ?_⟩
      unfold edge
      rw [sending.master]
  obtain ⟨dev, handled, complete, stops⟩ := handled
  have passed : pass x slave io = .leave (some (through.intr x (statusOf ack))) := by
    unfold pass Io.complete
    rw [sending.line]
    dsimp only
    rw [heard, handled]
    rfl
  refine ⟨_, passed, ?_⟩
  have interrupted : through.dev.interrupt (statusOf ack) =
      { dev with pulses := io.dev.pulses ++ [io.dev.calls] } := by
    unfold Dev.interrupt
    dsimp only [through]
    rw [handled]
    rfl
  unfold Io.intr
  rw [show Transfer.access x through.dev (statusOf ack) = .none from put]
  unfold Io.control
  rw [interrupted]
  refine ⟨complete, ?_⟩
  change (io.bus ++ [Sym.sent b ack]) ++ edge io.dev.ctr dev.ctr = _
  rw [stops]

/-- How the bytes that should be sent have gone out, from a bus as it was -/
def Outcome (x : Xfer) (bus : List Sym) (sent : List Byte) (last : Io) : Prop :=
  last.dev.transactionStatus = .complete ∧
      last.bus = bus ++ (acked sent ++ (received x last ++ stopSyms x)) ∨
    last.dev.transactionStatus = .failed ∧ last.dev.transactionError = I2C_STATUS_NACK ∧
      ∃ before b after, sent = before ++ b :: after ∧
        last.bus = bus ++ (acked before ++ [.sent b false, .stop])

theorem Outcome.cons {bus : List Sym} {b : Byte} {sent : List Byte} {last : Io}
    (outcome : Outcome x (bus ++ [.sent b true]) sent last) : Outcome x bus (b :: sent) last := by
  rcases outcome with ⟨complete, same⟩ | ⟨failed, error, before, c, after, split, same⟩
  · refine Or.inl ⟨complete, ?_⟩
    rw [same, List.append_assoc]
    rfl
  · refine Or.inr ⟨failed, error, b :: before, c, after, ?_, ?_⟩
    · rw [split]
      rfl
    · rw [same, List.append_assoc]
      rfl

theorem Outcome.nack {sent : List Byte} (line : io.line = .sending b)
    (looks : io.dev.acknowledged = true) (master : has io.dev.ctr CTRREG_MSTA = true)
    (unheard : slave.ack io.bus b = false) :
    ∃ last, Ends (pass x slave) io (some last) ∧ Outcome x io.bus (b :: sent) last := by
  obtain ⟨last, passed, failed, error, bus⟩ := pass_nack (x := x) line looks master unheard
  exact ⟨last, ends_leave passed, Or.inr ⟨failed, error, [], b, sent, rfl, bus⟩⟩

theorem Sending.outcome {rest : List Byte} (sending : Sending x buf io b rest)
    (looks : io.dev.acknowledged = true ∨ slave.ack io.bus b = true) :
    ∃ last, Ends (pass x slave) io (some last) ∧ Outcome x io.bus (b :: rest) last := by
  induction rest generalizing io b with
  | nil =>
    cases heard : slave.ack io.bus b with
    | false =>
      rw [heard] at looks
      exact Outcome.nack sending.line (looks.resolve_right nofun) sending.master heard
    | true =>
      obtain ⟨last, passed, complete, bus⟩ := sending.last heard (Or.inr rfl)
      refine ⟨last, ends_leave passed, Or.inl ⟨complete, ?_⟩⟩
      have none : received x last = [] := by
        unfold received
        rw [sending.request]
      rw [bus, none, List.append_assoc]
      rfl
  | cons next rest ih =>
    cases heard : slave.ack io.bus b with
    | false =>
      rw [heard] at looks
      exact Outcome.nack sending.line (looks.resolve_right nofun) sending.master heard
    | true =>
      obtain ⟨t, passed, sending', state, bus⟩ := sending.more heard (Or.inr rfl)
      have looks' : t.dev.acknowledged = true := by
        unfold Dev.acknowledged
        rw [state]
        rfl
      obtain ⟨last, ends, outcome⟩ := ih sending' (Or.inl looks')
      rw [bus] at outcome
      exact ⟨last, (ends_next passed).mpr ends, outcome.cons⟩

end Sending

/-! ## Receiving -/

section Receiving

variable {x} {slave} {len k : Nat} {io : Io}

/-- The byte `k` of a receive is on its way, and is acknowledged if it is not the last one. -/
structure Receiving (x : Xfer) (len : Nat) (io : Io) (k : Nat) : Prop where
  line : io.line = .receiving
  status : io.dev.transactionStatus = .inProgress
  stop : io.dev.stopReq = x.stop
  master : has io.dev.ctr CTRREG_MSTA = true
  mtx : has io.dev.ctr CTRREG_MTX = false
  size : io.dev.rx.len = len
  idx : io.dev.rx.idx = k
  inside : k < len
  ack : has io.dev.ctr CTRREG_TXAK = decide (k + 1 = len)
  state : io.dev.busState = .rxData

theorem Receiving.goesOn (receiving : Receiving x len io k) (ack : Bool) : GoesOn io.dev ack := by
  left
  unfold Dev.acknowledged
  rw [receiving.state]
  rfl

theorem Receiving.phase (receiving : Receiving x len io k) : io.dev.phase = io.dev.rxData := by
  unfold Dev.phase
  rw [receiving.state]

theorem Receiving.access (receiving : Receiving x len io k) (ack : Bool) :
    access x io.dev (statusOf ack) = .get k := by
  rw [access_goesOn (receiving.goesOn ack)]
  unfold Transfer.access
  rw [ial_zero, rxak_zero, Bool.and_false, receiving.state, receiving.idx]
  rfl

theorem rxLast_bits :
    has (CTRREG_IEN ||| CTRREG_IIEN ||| CTRREG_MSTA ||| CTRREG_TXAK) CTRREG_MTX = false ∧
      has (CTRREG_IEN ||| CTRREG_IIEN ||| CTRREG_MSTA ||| CTRREG_TXAK) CTRREG_TXAK = true := by
  decide

/-- What the handler makes of the device when the byte `k` is there -/
theorem Receiving.interrupt (receiving : Receiving x len io k) (ack : Bool) :
    (io.dev.intr (statusOf ack)).event = decide (k + 1 = len) ∧
      (io.dev.interrupt (statusOf ack)).transactionStatus = io.dev.rxControl.transactionStatus ∧
      (io.dev.interrupt (statusOf ack)).ctr = io.dev.rxControl.ctr ∧
      (io.dev.interrupt (statusOf ack)).stopReq = x.stop ∧
      (io.dev.interrupt (statusOf ack)).rx = { io.dev.rx with idx := k + 1 } ∧
      (io.dev.interrupt (statusOf ack)).busState = io.dev.rxControl.busState := by
  have stop : io.dev.rxControl.stopReq = io.dev.stopReq := by
    unfold rxControl
    split
    · split <;> rfl
    · split <;> rfl
  unfold Dev.interrupt
  rw [intr_goesOn (receiving.goesOn ack), receiving.phase]
  unfold Dev.rxData
  dsimp only
  rw [receiving.size, receiving.idx, stop, receiving.stop]
  exact ⟨rfl, rfl, rfl, rfl, rfl, rfl⟩

theorem Receiving.pass (receiving : Receiving x len io k) :
    ∃ t, Transfer.pass x slave io =
        (if k + 1 = len then .leave (some t) else .next t) ∧
      t.dev = io.dev.interrupt (statusOf (!decide (k + 1 = len))) ∧
      t.rxBuf = Function.update io.rxBuf k (slave.data io.bus) ∧
      t.bus = io.bus ++ [.received (slave.data io.bus) (!decide (k + 1 = len))] ++
        edge io.dev.ctr (io.dev.interrupt (statusOf (!decide (k + 1 = len)))).ctr ∧
      (has t.dev.ctr CTRREG_MSTA = true → has t.dev.ctr CTRREG_MTX = false →
        t.line = .receiving) := by
  let ack := !decide (k + 1 = len)
  let through : Io := { io with
    line := .idle
    datreg := slave.data io.bus
    bus := io.bus ++ [.received (slave.data io.bus) ack] }
  let written := through.control (io.dev.interrupt (statusOf ack))
  have read : written.get.dev = written.dev ∧ written.get.bus = written.bus ∧
      (has written.dev.ctr CTRREG_MSTA = true → has written.dev.ctr CTRREG_MTX = false →
        written.get.line = .receiving) := by
    unfold Io.get
    split
    · exact ⟨rfl, rfl, fun _ _ => rfl⟩
    · next off =>
      refine ⟨rfl, rfl, fun master mtx => absurd ?_ off⟩
      rw [master, mtx]
      rfl
  refine ⟨through.intr x (statusOf ack), ?_, ?_⟩
  · unfold Transfer.pass Io.complete
    rw [receiving.line]
    dsimp only
    rw [receiving.ack, (receiving.interrupt _).1]
    split
    · next last => rw [if_pos (of_decide_eq_true last)]
    · next more => rw [if_neg fun last => more (decide_eq_true last)]
  · have got : through.intr x (statusOf ack) =
        { written.get with rxBuf := Function.update io.rxBuf k (slave.data io.bus) } := by
      unfold Io.intr
      rw [show Transfer.access x through.dev (statusOf ack) = .get k from receiving.access ack]
    rw [got]
    obtain ⟨dev, bus, line⟩ := read
    refine ⟨dev, rfl, bus, ?_⟩
    dsimp only
    rw [dev]
    exact line

theorem Receiving.last (receiving : Receiving x len io k) (here : k + 1 = len) :
    ∃ last, Transfer.pass x slave io = .leave (some last) ∧
      last.dev.transactionStatus = .complete ∧
      last.rxBuf = Function.update io.rxBuf k (slave.data io.bus) ∧
      last.bus = io.bus ++ [.received (slave.data io.bus) false] ++ stopSyms x := by
  obtain ⟨last, passed, dev, rxBuf, bus, _⟩ := @Receiving.pass x slave _ _ _ receiving
  obtain ⟨_, status, ctr, _⟩ := receiving.interrupt (!decide (k + 1 = len))
  have control : io.dev.rxControl.transactionStatus = .complete ∧
      edge io.dev.ctr io.dev.rxControl.ctr = stopSyms x := by
    unfold rxControl stopSyms edge
    rw [receiving.idx, receiving.size, if_pos here, receiving.stop]
    split
    · rw [receiving.master, rxStop_clear]
      exact ⟨rfl, rfl⟩
    · rw [receiving.master, rxHold_set]
      exact ⟨rfl, rfl⟩
  rw [if_pos here] at passed
  rw [ctr, control.2, decide_eq_true here] at bus
  refine ⟨last, passed, ?_, rxBuf, bus⟩
  rw [dev, status, control.1]

theorem Receiving.more (receiving : Receiving x len io k) (further : k + 1 ≠ len) :
    ∃ t, Transfer.pass x slave io = .next t ∧ Receiving x len t (k + 1) ∧
      t.rxBuf = Function.update io.rxBuf k (slave.data io.bus) ∧
      t.bus = io.bus ++ [.received (slave.data io.bus) true] := by
  obtain ⟨t, passed, dev, rxBuf, bus, line⟩ := @Receiving.pass x slave _ _ _ receiving
  obtain ⟨_, status, ctr, stop, rx, state⟩ := receiving.interrupt (!decide (k + 1 = len))
  have control : io.dev.rxControl.transactionStatus = .inProgress ∧
      io.dev.rxControl.busState = .rxData ∧ has io.dev.rxControl.ctr CTRREG_MSTA = true ∧
      has io.dev.rxControl.ctr CTRREG_MTX = false ∧
      has io.dev.rxControl.ctr CTRREG_TXAK = decide (k + 2 = len) := by
    unfold rxControl
    rw [receiving.idx, receiving.size, if_neg further]
    split
    · next second =>
      rw [decide_eq_true second]
      exact ⟨receiving.status, receiving.state, rxLast_set, rxLast_bits⟩
    · next before =>
      rw [decide_eq_false before]
      refine ⟨receiving.status, receiving.state, receiving.master, receiving.mtx, ?_⟩
      rw [receiving.ack]
      exact decide_eq_false further
  obtain ⟨status', state', master, mtx, ack⟩ := control
  have same : edge io.dev.ctr io.dev.rxControl.ctr = [] := by
    unfold edge
    rw [receiving.master, master]
  rw [if_neg further] at passed
  rw [ctr, same, List.append_nil, decide_eq_false further] at bus
  have control : t.dev.ctr = io.dev.rxControl.ctr := by rw [dev, ctr]
  rw [← control] at master mtx ack
  have inside := receiving.inside
  refine ⟨t, passed, ⟨line master mtx, ?_, ?_, master, mtx, ?_, ?_, by omega, ack, ?_⟩, rxBuf, bus⟩
  · rw [dev, status, status']
  · rw [dev, stop]
  · rw [dev, rx]
    exact receiving.size
  · rw [dev, rx]
  · rw [dev, state, state']

theorem Receiving.outcome {n : Nat} (receiving : Receiving x len io k)
    (left : k + (n + 1) = len) :
    ∃ last, Ends (Transfer.pass x slave) io (some last) ∧
      last.dev.transactionStatus = .complete ∧
      last.bus = io.bus ++ (taken ((List.range' k (n + 1)).map last.rxBuf) ++ stopSyms x) ∧
      ∀ i < k, last.rxBuf i = io.rxBuf i := by
  induction n generalizing io k with
  | zero =>
    obtain ⟨last, passed, complete, rxBuf, bus⟩ :=
      @Receiving.last x slave _ _ _ receiving (by omega)
    refine ⟨last, ends_leave passed, complete, ?_, ?_⟩
    · rw [bus, rxBuf, List.append_assoc]
      have one : (List.range' k (0 + 1)).map (Function.update io.rxBuf k (slave.data io.bus)) =
          [slave.data io.bus] := by
        change [Function.update io.rxBuf k (slave.data io.bus) k] = _
        rw [Function.update_self]
      rw [one]
      rfl
    · intro i below
      rw [rxBuf, Function.update_of_ne (by omega)]
  | succ n ih =>
    obtain ⟨t, passed, receiving', rxBuf, bus⟩ := @Receiving.more x slave _ _ _ receiving (by omega)
    obtain ⟨last, ends, complete, bus', before⟩ := ih receiving' (by omega)
    refine ⟨last, (ends_next passed).mpr ends, complete, ?_, ?_⟩
    · have first : last.rxBuf k = slave.data io.bus := by
        rw [before k (by omega), rxBuf, Function.update_self]
      have others : ∀ b rest, rest ≠ [] → taken (b :: rest) = .received b true :: taken rest := by
        intro b rest some
        cases rest with
        | nil => exact absurd rfl some
        | cons => rfl
      have unrolled : (List.range' k (n + 1 + 1)).map last.rxBuf =
          slave.data io.bus :: (List.range' (k + 1) (n + 1)).map last.rxBuf := by
        rw [List.range'_succ, List.map_cons, first]
      rw [bus', bus, unrolled, others _ _ (by simp), List.append_assoc]
      rfl
    · intro i below
      rw [before i (by omega), rxBuf, Function.update_of_ne (by omega)]

end Receiving

/-! ## The address -/

section Addressing

variable {x} {slave} {io : Io} {b : Byte} {ack : Bool}

/-- An address byte is on the bus. -/
structure Addressing (x : Xfer) (io : Io) (b : Byte) : Prop where
  line : io.line = .sending b
  transaction : io.dev.transaction = x.request.transaction
  status : io.dev.transactionStatus = .inProgress
  stop : io.dev.stopReq = x.stop
  master : has io.dev.ctr CTRREG_MSTA = true
  mtx : has io.dev.ctr CTRREG_MTX = true
  tx : ∀ buf, x.request = .send buf → io.dev.tx.len = buf.length ∧ io.dev.tx.idx = 0
  rx : ∀ len, x.request = .recv len → io.dev.rx.len = len ∧ io.dev.rx.idx = 0

/-- The last byte of the address -/
def Final (d : Dev) : Prop := d.busState = .txAddr7bit ∨ d.busState = .txAddr10bitLsb

theorem Addressing.sending {buf : List Byte} (addressing : Addressing x io b) (final : Final io.dev)
    (request : x.request = .send buf) : Sending x buf io b buf := by
  obtain ⟨len, idx⟩ := addressing.tx buf request
  have send := addressing.transaction
  rw [request] at send
  refine ⟨request, addressing.line, send, addressing.status, addressing.stop, addressing.master,
    addressing.mtx, len, ?_, ?_⟩
  · rw [idx]
    rfl
  · rcases final with state | state
    · exact Or.inl state
    · exact Or.inr (Or.inl state)

theorem phase_receive {d : Dev} (final : Final d) (receive : d.transaction = .masterReceive) :
    d.phase = ⟨{ d with
      busState := .rxData
      ctr := CTRREG_IEN ||| CTRREG_IIEN ||| CTRREG_MSTA |||
        (if d.rx.len = 1 then CTRREG_TXAK else 0) }, false, none⟩ := by
  unfold Final at final
  cases d
  dsimp only at final receive
  subst receive
  rcases final with state | state <;> subst state <;> rfl

theorem access_receive {d : Dev} (final : Final d) (receive : d.transaction = .masterReceive)
    (on : GoesOn d ack) : access x d (statusOf ack) = .dummy := by
  rw [access_goesOn on]
  unfold access
  rw [ial_zero, rxak_zero, Bool.and_false]
  rcases final with state | state
  · rw [state, receive]
    rfl
  · rw [state, receive]
    rfl

theorem Addressing.receives {len : Nat} (addressing : Addressing x io b) (final : Final io.dev)
    (request : x.request = .recv len) (heard : slave.ack io.bus b = ack) (on : GoesOn io.dev ack) :
    ∃ t, pass x slave io = .next t ∧ Receiving x len t 0 ∧ t.bus = io.bus ++ [.sent b ack] := by
  obtain ⟨size, idx⟩ := addressing.rx len request
  have receive := addressing.transaction
  rw [request] at receive
  let ctr := CTRREG_IEN ||| CTRREG_IIEN ||| CTRREG_MSTA |||
    (if io.dev.rx.len = 1 then CTRREG_TXAK else 0)
  let dev : Dev := { io.dev with busState := .rxData, ctr }
  have handled : io.dev.intr (statusOf ack) = ⟨dev, false, none⟩ := by
    rw [intr_goesOn on, phase_receive final receive]
  have bits : has ctr CTRREG_MTX = false ∧ has ctr CTRREG_TXAK = decide (0 + 1 = len) := by
    dsimp only [ctr]
    rw [size]
    split
    · next one =>
      subst one
      exact rxLast_bits
    · next more =>
      rw [decide_eq_false (by omega)]
      decide
  have master : has ctr CTRREG_MSTA = true := rxFirst_set _
  have same : edge io.dev.ctr ctr = [] := by
    unfold edge
    rw [addressing.master, master]
  let t : Io := { io with dev := dev, line := .receiving, bus := io.bus ++ [.sent b ack] }
  have passed : pass x slave io = .next t := by
    unfold pass Io.complete
    rw [addressing.line]
    dsimp only
    rw [heard, handled]
    unfold Io.intr
    dsimp only
    rw [access_receive final receive on]
    unfold Dev.interrupt Io.control Io.get
    rw [handled]
    dsimp only [dev]
    rw [same, List.append_nil, master, bits.1]
    rfl
  have positive : 0 < len := by
    have some := x.some
    rw [request] at some
    exact some
  exact ⟨t, passed, ⟨rfl, addressing.status, addressing.stop, master, bits.1, size, idx, positive,
    bits.2, rfl⟩, rfl⟩

/-- The data that is sent after the address -/
def data (x : Xfer) : List Byte :=
  match x.request with
  | .send buf => buf
  | .recv _ => []

theorem Addressing.outcome (addressing : Addressing x io b) (final : Final io.dev)
    (looks : io.dev.acknowledged = true ∨ slave.ack io.bus b = true) :
    ∃ last, Ends (pass x slave) io (some last) ∧ Outcome x io.bus (b :: data x) last := by
  cases request : x.request with
  | send buf =>
    have same : data x = buf := by
      unfold data
      rw [request]
    rw [same]
    exact (addressing.sending final request).outcome looks
  | recv len =>
    cases heard : slave.ack io.bus b with
    | false =>
      rw [heard] at looks
      exact Outcome.nack addressing.line (looks.resolve_right nofun) addressing.master heard
    | true =>
      obtain ⟨t, passed, receiving, bus⟩ := addressing.receives final request heard (Or.inr rfl)
      have positive := receiving.inside
      obtain ⟨n, whole⟩ : ∃ n, 0 + (n + 1) = len := ⟨len - 1, by omega⟩
      obtain ⟨last, ends, complete, bus', _⟩ := @Receiving.outcome x slave _ _ _ _ receiving whole
      refine ⟨last, (ends_next passed).mpr ends, Or.inl ⟨complete, ?_⟩⟩
      have none : data x = [] := by
        unfold data
        rw [request]
      have got : received x last = taken ((List.range' 0 (n + 1)).map last.rxBuf) := by
        unfold received
        rw [request, ← whole, Nat.zero_add]
        dsimp only
        rw [List.range_eq_range']
      rw [bus', bus, none, got, List.append_assoc]
      rfl

/-- The first byte of a 10-bit address is acknowledged, and the second one goes out. -/
theorem Addressing.second (addressing : Addressing x io b)
    (state : io.dev.busState = .txAddr10bitMsb) (heard : slave.ack io.bus b = true) :
    ∃ t, pass x slave io = .next t ∧ Addressing x t (xaddr2 x.address.addr) ∧
      t.dev.busState = .txAddr10bitLsb ∧ t.bus = io.bus ++ [.sent b true] := by
  let dev : Dev := { io.dev with busState := .txAddr10bitLsb }
  have on : GoesOn io.dev true := Or.inr rfl
  have handled : io.dev.intr (statusOf true) = ⟨dev, false, none⟩ := by
    rw [intr_goesOn on]
    unfold Dev.phase
    rw [state]
  have put : access x io.dev (statusOf true) = .put (xaddr2 x.address.addr) := by
    rw [access_goesOn on]
    unfold access
    rw [ial_zero, rxak_zero, Bool.and_false, state]
    rfl
  let t : Io :=
    { io with
      dev := dev
      line := .sending (xaddr2 x.address.addr)
      bus := io.bus ++ [.sent b true] }
  have same : edge io.dev.ctr io.dev.ctr = [] := by
    unfold edge
    cases has io.dev.ctr CTRREG_MSTA <;> rfl
  have passed : pass x slave io = .next t := by
    unfold pass Io.complete
    rw [addressing.line]
    dsimp only
    rw [heard, handled]
    unfold Io.intr
    dsimp only
    rw [put]
    unfold Dev.interrupt Io.control Io.put
    rw [handled]
    dsimp only [dev]
    rw [same, List.append_nil, addressing.master, addressing.mtx]
    rfl
  exact ⟨t, passed, ⟨rfl, addressing.transaction, addressing.status, addressing.stop,
    addressing.master, addressing.mtx, addressing.tx, addressing.rx⟩, rfl, rfl⟩

end Addressing

/-! ## The whole transfer -/

section Whole

variable {x} {slave}

theorem sendaddr_mtx (d : Dev) : has d.sendaddr.ctr CTRREG_MTX = true := by
  unfold Dev.sendaddr
  dsimp only
  split
  · exact (has_or_apart (by decide) _).trans (has_or (by decide) _)
  · exact has_or (by decide) _

theorem sendaddr_keeps (d : Dev) : d.sendaddr.transaction = d.transaction ∧
    d.sendaddr.stopReq = d.stopReq ∧ d.sendaddr.tx = d.tx ∧ d.sendaddr.rx = d.rx := by
  unfold Dev.sendaddr
  dsimp only
  split
  · exact ⟨rfl, rfl, rfl, rfl⟩
  · exact ⟨rfl, rfl, rfl, rfl⟩

theorem fillIn_filled (d : Dev) :
    (d.fillIn x.call).transaction = x.request.transaction ∧ (d.fillIn x.call).stopReq = x.stop ∧
      (∀ buf, x.request = .send buf → (d.fillIn x.call).tx = ⟨d.calls + 1, buf.length, 0⟩) ∧
      ∀ len, x.request = .recv len → (d.fillIn x.call).rx = ⟨d.calls + 1, len, 0⟩ := by
  unfold Dev.fillIn Xfer.call
  cases x.request with
  | send buf =>
    refine ⟨rfl, rfl, fun buf' same => ?_, nofun⟩
    cases same
    rfl
  | recv len =>
    refine ⟨rfl, rfl, nofun, fun len' same => ?_⟩
    cases same
    rfl

theorem start_filled (d : Dev) :
    (d.start x.call).transaction = x.request.transaction ∧
      (d.start x.call).stopReq = x.stop ∧
      (d.start x.call).ctr = (d.fillIn x.call).sendaddr.ctr ∧
      (d.start x.call).busState = (if x.address.fmt = .bit7 then .txAddr7bit
        else .txAddr10bitMsb) ∧
      (∀ buf, x.request = .send buf → (d.start x.call).tx.len = buf.length ∧
        (d.start x.call).tx.idx = 0) ∧
      ∀ len, x.request = .recv len → (d.start x.call).rx.len = len ∧
        (d.start x.call).rx.idx = 0 := by
  obtain ⟨transaction, stop, tx, rx⟩ := sendaddr_keeps (d.fillIn x.call)
  obtain ⟨transaction', stop', tx', rx'⟩ := fillIn_filled (x := x) d
  have started : d.start x.call = (d.fillIn x.call).sendaddr.addrState x.address.fmt := rfl
  rw [started]
  unfold Dev.addrState
  dsimp only
  rw [transaction, stop, tx, rx]
  refine ⟨transaction', stop', rfl, rfl, fun buf same => ?_, fun len same => ?_⟩
  · rw [tx' buf same]
    exact ⟨rfl, rfl⟩
  · rw [rx' len same]
    exact ⟨rfl, rfl⟩

theorem begin_addressing (k : Ready) :
    Addressing x (k.begin x) (addressByte x) ∧ (k.begin x).bus = startSyms x k.dev := by
  have underway := Dev.start_underway (c := x.call) k.clean.restartable rfl
  have master := Dev.sendaddr_master (c := x.call) k.clean.restartable
  have mtx := sendaddr_mtx (k.dev.fillIn x.call)
  obtain ⟨transaction, stop, ctr, _, tx, rx⟩ := start_filled (x := x) k.dev
  have begun : k.begin x =
      { dev := k.dev.start x.call
        rxBuf := k.rxBuf
        datreg := k.datreg
        line := .sending (addressByte x)
        bus := startSyms x k.dev } := by
    unfold Ready.begin Io.put
    dsimp only
    rw [master, mtx]
    rfl
  rw [begun]
  refine ⟨⟨rfl, transaction, underway.status, stop, underway.master, ?_, tx, rx⟩, rfl⟩
  dsimp only
  rw [ctr]
  exact mtx

theorem begin_state (k : Ready) : (k.begin x).dev.busState =
    (if x.address.fmt = .bit7 then .txAddr7bit else .txAddr10bitMsb) :=
  (start_filled (x := x) k.dev).2.2.2.1

theorem addressBytes_eq : addressBytes x =
    match x.address.fmt with
    | .bit7 => [addressByte x]
    | .bit10 => [addressByte x, xaddr2 x.address.addr] := by
  have seven : ∀ n < 128, BitVec.ofNat 8 (2 * n + 0) = (BitVec.ofNat 32 n <<< 1).setWidth 8 ∧
      BitVec.ofNat 8 (2 * n + 1) = (BitVec.ofNat 32 n <<< 1).setWidth 8 ||| IMX_I2C_ADDR_RD := by
    decide +kernel
  have ten : ∀ n < 1024,
      BitVec.ofNat 8 (0xf0 + 2 * (n / 256) + 0) = xaddr1 (BitVec.ofNat 32 n) ∧
      BitVec.ofNat 8 (0xf0 + 2 * (n / 256) + 1) = xaddr1 (BitVec.ofNat 32 n) ||| IMX_I2C_ADDR_RD ∧
      BitVec.ofNat 8 n = xaddr2 (BitVec.ofNat 32 n) := by
    decide +kernel
  have fits := x.address.fits
  have whole : BitVec.ofNat 32 x.address.addr.toNat = x.address.addr := BitVec.ofNat_toNat _ _
  unfold addressBytes addressByte
  cases fmt : x.address.fmt with
  | bit7 =>
    rw [fmt] at fits
    have same := seven _ fits
    rw [whole] at same
    cases x.request with
    | send buf => exact congrArg (· :: []) same.1
    | recv len => exact congrArg (· :: []) same.2
  | bit10 =>
    rw [fmt] at fits
    have same := ten _ fits
    rw [whole] at same
    cases x.request with
    | send buf => exact congrArg₂ (fun a b => [a, b]) same.1 same.2.2
    | recv len => exact congrArg₂ (fun a b => [a, b]) same.2.1 same.2.2

theorem Outcome.right {first : List Sym} {last : Io} (outcome : Outcome x first (bytes x) last) :
    Right x first last last.dev.receive.finish.1 := by
  rcases outcome with ⟨complete, bus⟩ | ⟨failed, error, unacked⟩
  · have done : last.dev.receive.finish.1 = I2C_STATUS_DONE := by
      unfold Dev.finish Dev.receive
      rw [complete]
    exact ⟨fun _ => bus, fun other => absurd done other⟩
  · have nack : last.dev.receive.finish.1 = I2C_STATUS_NACK := by
      unfold Dev.finish Dev.receive
      rw [failed]
      exact error
    refine ⟨fun done => ?_, fun _ => ⟨nack, unacked⟩⟩
    rw [nack] at done
    exact absurd done (by decide)

/-! ## What stays on the bus -/

theorem intr_bus (io : Io) (i2sr : BitVec 16) : io.bus <+: (io.intr x i2sr).bus := by
  have put : ∀ (b : Byte) (io : Io), (io.put b).bus = io.bus := by
    intro b io
    unfold Io.put
    split <;> rfl
  have get : ∀ io : Io, io.get.bus = io.bus := by
    intro io
    unfold Io.get
    split <;> rfl
  have written : io.bus <+: (io.control (io.dev.interrupt i2sr)).bus := List.prefix_append _ _
  unfold Io.intr
  dsimp only
  split
  · exact written
  · rw [put]
    exact written
  · rw [get]
    exact written
  · dsimp only
    rw [get]
    exact written

theorem ends_bus {io last : Io} (ends : Ends (pass x slave) io (some last)) :
    ∃ i2sr through, io.complete slave = some (i2sr, through) ∧ through.bus <+: last.bus := by
  have grows : ∀ {io through : Io} {i2sr : BitVec 16},
      io.complete slave = some (i2sr, through) → io.bus <+: through.bus := by
    intro io through i2sr completed
    unfold Io.complete at completed
    split at completed
    · cases completed
    · cases completed
      exact List.prefix_append _ _
    · cases completed
      exact List.prefix_append _ _
  have later : ∀ {P : List Sym} {io : Io}, P <+: io.bus →
      Ends (pass x slave) io (some last) → P <+: last.bus := by
    intro P io held ends
    obtain ⟨t, held', left⟩ := ends.leaves (I := fun t => P <+: t.bus) held (by
      intro s t held next
      unfold pass at next
      split at next
      · cases next
      · next completed =>
        split at next
        · cases next
        · cases next
          exact held.trans ((grows completed).trans (intr_bus _ _)))
    unfold pass at left
    split at left
    · cases left
    · next completed =>
      split at left
      · cases left
        exact held'.trans ((grows completed).trans (intr_bus _ _))
      · cases left
  cases completed : io.complete slave with
  | none =>
    have left : pass x slave io = .leave none := by
      unfold pass
      rw [completed]
    cases ends.unique (ends_leave left)
  | some done =>
    obtain ⟨i2sr, through⟩ := done
    refine ⟨i2sr, through, rfl, ?_⟩
    by_cases event : (through.dev.intr i2sr).event = true
    · have left : pass x slave io = .leave (some (through.intr x i2sr)) := by
        unfold pass
        rw [completed]
        exact if_pos event
      cases ends.unique (ends_leave left)
      exact intr_bus _ _
    · have next : pass x slave io = .next (through.intr x i2sr) := by
        unfold pass
        rw [completed]
        exact if_neg event
      exact later (intr_bus _ _) ((ends_next next).mp ends)

theorem intr_dev (io : Io) (i2sr : BitVec 16) :
    (io.intr x i2sr).dev = io.dev.interrupt i2sr := by
  unfold Io.intr Io.put Io.get Io.control
  dsimp only
  split
  · rfl
  · split <;> rfl
  · split <;> rfl
  · split <;> rfl

theorem complete_dev {io through : Io} {i2sr : BitVec 16}
    (completed : io.complete slave = some (i2sr, through)) : through.dev = io.dev := by
  unfold Io.complete at completed
  split at completed
  · cases completed
  · cases completed
    rfl
  · cases completed
    rfl

/-- A transfer is a call of the control model with the statuses that the bus gives. -/
theorem ends_exec {k : Ready} {last : Io} (ends : Ends (pass x slave) (k.begin x) (some last)) :
    ∃ statuses, k.dev.exec { x.call with before := statuses } = last.dev.receive.finish := by
  let Inv : Io → Prop := fun io => ∃ statuses, io.dev = (k.dev.start x.call).interrupts statuses
  have after : ∀ {io through : Io} {i2sr : BitVec 16}, Inv io →
      io.complete slave = some (i2sr, through) → Inv (through.intr x i2sr) := by
    rintro io through i2sr ⟨statuses, same⟩ completed
    refine ⟨statuses ++ [i2sr], ?_⟩
    rw [intr_dev, complete_dev completed, same]
    unfold Dev.interrupts
    rw [List.foldl_append]
    rfl
  obtain ⟨t, inv, left⟩ := ends.leaves (I := Inv) ⟨[], rfl⟩ (by
    intro s t inv next
    unfold pass at next
    split at next
    · cases next
    · next completed =>
      split at next
      · cases next
      · cases next
        exact after inv completed)
  unfold pass at left
  split at left
  · cases left
  · next completed =>
    split at left
    · cases left
      obtain ⟨statuses, same⟩ := after inv completed
      refine ⟨statuses, ?_⟩
      have some := x.some
      have idle : k.dev.waitBus .idle = Option.some k.dev := by
        unfold Dev.waitBus
        split <;> rfl
      rw [same]
      unfold Dev.exec Xfer.call
      dsimp only
      rw [if_neg (by omega), idle]
      rfl
    · cases left

/-- After the second address byte the transfer goes on, whether it was acknowledged or not. -/
theorem second_unheard {io last : Io} (addressing : Addressing x io (xaddr2 x.address.addr))
    (state : io.dev.busState = .txAddr10bitLsb)
    (unheard : slave.ack io.bus (xaddr2 x.address.addr) = false)
    (ends : Ends (pass x slave) io (some last)) :
    ∃ sym, sym ≠ .stop ∧ io.bus ++ [.sent (xaddr2 x.address.addr) false, sym] <+: last.bus := by
  have on : GoesOn io.dev false := by
    left
    unfold Dev.acknowledged
    rw [state]
    rfl
  have final : Final io.dev := Or.inr state
  have next : ∃ t, pass x slave io = .next t ∧ (t.line = .receiving ∨ ∃ b, t.line = .sending b) ∧
      t.bus = io.bus ++ [.sent (xaddr2 x.address.addr) false] := by
    cases request : x.request with
    | send buf =>
      have some := x.some
      rw [request] at some
      cases buf with
      | nil => cases some
      | cons b buf =>
        obtain ⟨t, passed, sending, _, bus⟩ :=
          (addressing.sending final request).more unheard on
        exact ⟨t, passed, Or.inr ⟨b, sending.line⟩, bus⟩
    | recv len =>
      obtain ⟨t, passed, receiving, bus⟩ := addressing.receives final request unheard on
      exact ⟨t, passed, Or.inl receiving.line, bus⟩
  obtain ⟨t, passed, line, bus⟩ := next
  obtain ⟨i2sr, through, completed, held⟩ := ends_bus ((ends_next passed).mp ends)
  have symbol : ∃ sym, sym ≠ .stop ∧ through.bus = t.bus ++ [sym] := by
    unfold Io.complete at completed
    rcases line with line | ⟨b, line⟩
    · rw [line] at completed
      cases completed
      exact ⟨.received (slave.data t.bus) (!has t.dev.ctr CTRREG_TXAK), nofun, rfl⟩
    · rw [line] at completed
      cases completed
      exact ⟨.sent b (slave.ack t.bus b), nofun, rfl⟩
  obtain ⟨sym, other, same⟩ := symbol
  refine ⟨sym, other, ?_⟩
  rw [same, bus, List.append_assoc] at held
  exact held

/-- A right transfer has no byte without an acknowledge that something else than a stop follows. -/
theorem Right.no_more {first : List Sym} {last : Io} {status : Nat} {b c : Byte} {sym : Sym}
    (right : Right x first last status)
    (held : first ++ [.sent b true] ++ [.sent c false, sym] <+: last.bus)
    (address : ∃ rest, bytes x = b :: c :: rest) : sym = .stop := by
  obtain ⟨rest, split⟩ := address
  obtain ⟨tail, whole⟩ := held
  rw [List.append_assoc, List.append_assoc] at whole
  by_cases done : status = I2C_STATUS_DONE
  · have bus := right.done done
    rw [split] at bus
    have same := List.append_cancel_left (whole.trans bus)
    cases same
  · obtain ⟨_, before, d, after, parts, bus⟩ := right.nack done
    have same := List.append_cancel_left (whole.trans bus)
    rcases before with _ | ⟨e, _ | ⟨f, before⟩⟩
    · cases same
    · injection same with _ same
      injection same with _ same
      injection same
    · cases same

/-- A transfer is right exactly if a slave that acknowledges the first byte of its 10-bit address
also acknowledges the second one, which the handler does not look at. -/
theorem transfer_iff (x : Xfer) (slave : Slave) (k : Ready) :
    TransferRight x slave k ↔ SecondAcked x slave k := by
  obtain ⟨addressing, bus⟩ := begin_addressing (x := x) k
  have state := begin_state (x := x) k
  have split := addressBytes_eq (x := x)
  have all : bytes x = addressBytes x ++ data x := rfl
  cases fmt : x.address.fmt with
  | bit7 =>
    refine iff_of_true ?_ fun ten => absurd (fmt.symm.trans ten) nofun
    rw [fmt] at state split
    have looks : (k.begin x).dev.acknowledged = true := by
      unfold Dev.acknowledged
      rw [state]
      rfl
    obtain ⟨last, ends, outcome⟩ :=
      @Addressing.outcome x slave _ _ addressing (Or.inl state) (Or.inl looks)
    refine ⟨last, ends, Outcome.right ?_⟩
    rw [all, split]
    rw [bus] at outcome
    exact outcome
  | bit10 =>
    rw [fmt] at state split
    have state' : (k.begin x).dev.busState = .txAddr10bitMsb := state
    have looks : (k.begin x).dev.acknowledged = true := by
      unfold Dev.acknowledged
      rw [state']
      rfl
    cases heard : slave.ack (startSyms x k.dev) (addressByte x) with
    | false =>
      refine iff_of_true ?_ fun _ first => absurd (heard.symm.trans first) nofun
      rw [← bus] at heard
      obtain ⟨last, ends, outcome⟩ := @Outcome.nack x slave _ _
        (xaddr2 x.address.addr :: data x) addressing.line looks addressing.master heard
      refine ⟨last, ends, Outcome.right ?_⟩
      rw [all, split]
      rw [bus] at outcome
      exact outcome
    | true =>
      have first := heard
      rw [← bus] at first
      obtain ⟨t, passed, addressing', lsb, bus'⟩ := addressing.second state' first
      rw [bus] at bus'
      cases second : slave.ack t.bus (xaddr2 x.address.addr) with
      | true =>
        rw [bus'] at second
        refine iff_of_true ?_ fun _ _ => second
        rw [← bus'] at second
        obtain ⟨last, ends, outcome⟩ :=
          @Addressing.outcome x slave _ _ addressing' (Or.inr lsb) (Or.inr second)
        refine ⟨last, (ends_next passed).mpr ends, Outcome.right ?_⟩
        rw [all, split]
        rw [bus'] at outcome
        exact outcome.cons
      | false =>
        refine iff_of_false ?_ ?_
        · rintro ⟨last, ends, right⟩
          obtain ⟨sym, other, held⟩ :=
            second_unheard addressing' lsb second ((ends_next passed).mp ends)
          rw [bus'] at held
          refine other (right.no_more held ⟨data x, ?_⟩)
          rw [all, split]
          rfl
        · intro acked
          rw [bus'] at second
          exact absurd ((acked fmt heard).symm.trans second) nofun

end Whole

/-- A send of one byte to the 10-bit address 0x123 -/
def oneByte : Xfer where
  address := ⟨.bit10, 0x123, by decide⟩
  request := .send [0x55]
  stop := true
  some := by decide

/-- A slave that acknowledges all but the low byte of that address -/
def otherSlave : Slave := ⟨fun _ b => b != 0x23, fun _ => 0⟩

def stoppedDev : Dev :=
  ⟨CTRREG_IEN ||| CTRREG_IIEN, false, ⟨0, 0, 0⟩, ⟨0, 0, 0⟩, .masterSend, .complete, 0, .stopped, 0,
    []⟩

def ready : Ready := ⟨stoppedDev, ⟨rfl, Or.inl ⟨rfl, stop_clear⟩⟩, fun _ => 0, 0⟩

theorem ends_exec_oneByte : ∃ last statuses,
    Ends (pass oneByte otherSlave) (ready.begin oneByte) (some last) ∧
      ready.dev.exec { oneByte.call with before := statuses } = last.dev.receive.finish := by
  obtain ⟨last, ends⟩ : ∃ last,
    Ends (pass oneByte otherSlave) (ready.begin oneByte) (some last) := ⟨_, 8, rfl⟩
  obtain ⟨statuses, same⟩ := ends_exec ends
  exact ⟨last, statuses, ends, same⟩
/-- Data goes to a slave that has not acknowledged its address. -/
theorem transfer_broken :
    ¬∀ (x : Xfer) (slave : Slave) (k : Ready), TransferRight x slave k := by
  intro always
  obtain ⟨last, ends, right⟩ := always oneByte otherSlave ready
  obtain ⟨addressing, bus⟩ := begin_addressing (x := oneByte) ready
  have heard : otherSlave.ack (ready.begin oneByte).bus (addressByte oneByte) = true := by decide
  obtain ⟨t, passed, addressing', lsb, bus'⟩ := addressing.second (begin_state ready) heard
  have unheard : otherSlave.ack t.bus (xaddr2 oneByte.address.addr) = false :=
    show (xaddr2 oneByte.address.addr != 0x23) = false by decide
  obtain ⟨sym, other, held⟩ :=
    second_unheard addressing' lsb unheard ((ends_next passed).mp ends)
  rw [bus', bus] at held
  exact other (right.no_more held ⟨[0x55], by decide⟩)

end Mx6xBsp.I2c.Transfer
