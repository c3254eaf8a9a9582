import Mx6xBsp.I2c.Imx
import Mx6xBsp.Lib.Masks
import Mx6xBsp.Lib.Runs

/-!
# Transactions of the I2C master

A send that gives up leaves its transaction to the interrupt handler, and pulses that
come late stay on the channel. `isolated_iff` tells which runs are isolated, also from
the call after them.
-/

namespace Mx6xBsp.I2c

open Runs

namespace Dev

variable {d : Dev} {i2sr : BitVec 16} {statuses : List (BitVec 16)} {c : Call}

/-! ## The control register -/

theorem has_or {mask : BitVec 16} (some : mask ≠ 0) (bits : BitVec 16) :
    has (bits ||| mask) mask = true := by
  unfold has
  rw [Masks.or_and_self]
  exact bne_iff_ne.mpr some

theorem has_or_apart {mask other : BitVec 16} (apart : other &&& mask = 0) (bits : BitVec 16) :
    has (bits ||| other) mask = has bits mask := by
  unfold has
  rw [Masks.or_and_of_clear apart]

theorem stop_clear : has (CTRREG_IEN ||| CTRREG_IIEN) CTRREG_MSTA = false := by decide

theorem rxStop_clear :
    has (CTRREG_IEN ||| CTRREG_IIEN ||| CTRREG_MTX ||| CTRREG_TXAK) CTRREG_MSTA = false := by decide

theorem rxHold_set :
    has (CTRREG_IEN ||| CTRREG_IIEN ||| CTRREG_MTX ||| CTRREG_TXAK ||| CTRREG_MSTA) CTRREG_MSTA =
      true := by decide

theorem rxLast_set :
    has (CTRREG_IEN ||| CTRREG_IIEN ||| CTRREG_MSTA ||| CTRREG_TXAK) CTRREG_MSTA = true := by decide

theorem rxFirst_set (one : Prop) [Decidable one] :
    has (CTRREG_IEN ||| CTRREG_IIEN ||| CTRREG_MSTA ||| (if one then CTRREG_TXAK else 0))
      CTRREG_MSTA = true := by
  split
  · exact rxLast_set
  · decide

/-! ## The handler -/

/-- What the handler does, by the state of the bus -/
inductive Took (d : Dev) : Handled → Prop
  | failed (error : Nat) : Took d (d.fail error)
  | lsb (state : d.busState = .txAddr10bitMsb) :
    Took d ⟨{ d with busState := .txAddr10bitLsb }, false, none⟩
  | send (state : d.busState ≠ .stopped ∧ d.busState ≠ .waitRestart)
    (send : d.transaction = .masterSend) : Took d (txData { d with busState := .txData })
  | receive (state : d.busState ≠ .stopped ∧ d.busState ≠ .waitRestart)
    (receive : d.transaction = .masterReceive) :
    Took d ⟨{ d with
      busState := .rxData
      ctr := CTRREG_IEN ||| CTRREG_IIEN ||| CTRREG_MSTA |||
        (if d.rx.len = 1 then CTRREG_TXAK else 0) }, false, none⟩
  | txData (state : d.busState = .txData) : Took d d.txData
  | rxData (state : d.busState = .rxData) : Took d d.rxData
  | unexpected (state : d.busState = .stopped ∨ d.busState = .waitRestart) :
    Took d ⟨{ d with transactionError := 0xDEAD }, true, none⟩

theorem phase_took : d.Took d.phase := by
  have sent {state : BusState} (is : d.busState = state)
      (busy : state ≠ .stopped ∧ state ≠ .waitRestart) :
      d.busState ≠ .stopped ∧ d.busState ≠ .waitRestart := is ▸ busy
  unfold phase
  split
  · exact .lsb ‹_›
  · rename_i state
    split
    · exact .send (sent state ⟨nofun, nofun⟩) ‹_›
    · exact .receive (sent state ⟨nofun, nofun⟩) ‹_›
  · rename_i state
    split
    · exact .send (sent state ⟨nofun, nofun⟩) ‹_›
    · exact .receive (sent state ⟨nofun, nofun⟩) ‹_›
  · exact .txData ‹_›
  · exact .rxData ‹_›
  · exact .unexpected (.inl ‹_›)
  · exact .unexpected (.inr ‹_›)

theorem intr_took (i2sr : BitVec 16) : d.Took (d.intr i2sr) := by
  unfold intr
  split
  · exact .failed _
  · split
    · exact .failed _
    · exact phase_took

/-- What the handler never changes -/
structure Same (d t : Dev) : Prop where
  calls : t.calls = d.calls
  pulses : t.pulses = d.pulses
  transaction : t.transaction = d.transaction
  tx : t.tx.owner = d.tx.owner
  rx : t.rx.owner = d.rx.owner

theorem txData_same : d.Same d.txData.dev := by
  unfold txData
  split
  · exact ⟨rfl, rfl, rfl, rfl, rfl⟩
  · split
    · exact ⟨rfl, rfl, rfl, rfl, rfl⟩
    · exact ⟨rfl, rfl, rfl, rfl, rfl⟩

theorem rxData_same : d.Same d.rxData.dev := by
  unfold rxData rxControl
  split
  · split
    · exact ⟨rfl, rfl, rfl, rfl, rfl⟩
    · exact ⟨rfl, rfl, rfl, rfl, rfl⟩
  · split
    · exact ⟨rfl, rfl, rfl, rfl, rfl⟩
    · exact ⟨rfl, rfl, rfl, rfl, rfl⟩

theorem Took.same {h : Handled} (took : d.Took h) : d.Same h.dev := by
  cases took with
  | failed | lsb | receive | unexpected => exact ⟨rfl, rfl, rfl, rfl, rfl⟩
  | send =>
    have same := txData_same (d := { d with busState := .txData })
    exact ⟨same.calls, same.pulses, same.transaction, same.tx, same.rx⟩
  | txData => exact txData_same
  | rxData => exact rxData_same

/-- A stopped bus has no master. -/
def Lawful (d : Dev) : Prop := d.busState = .stopped → has d.ctr CTRREG_MSTA = false

theorem txData_lawful (state : d.busState = .txData) : d.txData.dev.Lawful := by
  unfold txData
  split
  · exact fun stopped => absurd (state.symm.trans stopped) nofun
  · split
    · exact fun _ => stop_clear
    · exact nofun

theorem rxData_lawful (state : d.busState = .rxData) : d.rxData.dev.Lawful := by
  unfold rxData rxControl
  split
  · split
    · exact fun _ => rxStop_clear
    · exact nofun
  · split
    · exact fun stopped => absurd (state.symm.trans stopped) nofun
    · exact fun stopped => absurd (state.symm.trans stopped) nofun

theorem Took.lawful {h : Handled} (took : d.Took h) (lawful : d.Lawful) : h.dev.Lawful := by
  cases took with
  | failed => exact fun _ => stop_clear
  | lsb | receive => exact nofun
  | send => exact txData_lawful rfl
  | txData state => exact txData_lawful state
  | rxData state => exact rxData_lawful state
  | unexpected => exact lawful

/-- The bus can be started by the master, or again. -/
def Restartable (d : Dev) : Prop :=
  d.busState = .stopped ∧ has d.ctr CTRREG_MSTA = false ∨
    d.busState = .waitRestart ∧ has d.ctr CTRREG_MSTA = true

/-- The bus is with the master for a transaction. -/
structure Underway (d : Dev) : Prop where
  status : d.transactionStatus = .inProgress
  busy : d.busState ≠ .stopped ∧ d.busState ≠ .waitRestart
  master : has d.ctr CTRREG_MSTA = true

/-- The transaction has ended, and if it was not for a failure the bus can be started. -/
def Ended (d : Dev) : Prop :=
  d.transactionStatus = .failed ∨ d.transactionStatus = .complete ∧ d.Restartable

theorem txData_underway (underway : d.Underway) :
    d.txData.event = false ∧ d.txData.dev.Underway ∨
      d.txData.event = true ∧ d.txData.dev.Ended := by
  unfold txData
  split
  · exact .inl ⟨rfl, underway.status, underway.busy, underway.master⟩
  · split
    · exact .inr ⟨rfl, .inr ⟨rfl, .inl ⟨rfl, stop_clear⟩⟩⟩
    · exact .inr ⟨rfl, .inr ⟨rfl, .inr ⟨rfl, underway.master⟩⟩⟩

theorem rxData_underway (underway : d.Underway) :
    d.rxData.event = false ∧ d.rxData.dev.Underway ∨
      d.rxData.event = true ∧ d.rxData.dev.Ended := by
  unfold rxData rxControl
  split
  · rename_i last
    rw [beq_iff_eq.mpr last]
    split
    · exact .inr ⟨rfl, .inr ⟨rfl, .inl ⟨rfl, rxStop_clear⟩⟩⟩
    · exact .inr ⟨rfl, .inr ⟨rfl, .inr ⟨rfl, rxHold_set⟩⟩⟩
  · rename_i more
    rw [beq_eq_false_iff_ne.mpr more]
    split
    · exact .inl ⟨rfl, underway.status, underway.busy, rxLast_set⟩
    · exact .inl ⟨rfl, underway.status, underway.busy, underway.master⟩

theorem Took.underway {h : Handled} (took : d.Took h) (underway : d.Underway) :
    h.event = false ∧ h.dev.Underway ∨ h.event = true ∧ h.dev.Ended := by
  cases took with
  | failed => exact .inr ⟨rfl, .inl rfl⟩
  | lsb => exact .inl ⟨rfl, underway.status, ⟨nofun, nofun⟩, underway.master⟩
  | send =>
    have still : Underway { d with busState := .txData } :=
      ⟨underway.status, ⟨nofun, nofun⟩, underway.master⟩
    exact txData_underway still
  | receive =>
    exact .inl ⟨rfl, underway.status, ⟨nofun, nofun⟩, rxFirst_set _⟩
  | txData => exact txData_underway underway
  | rxData => exact rxData_underway underway
  | unexpected state =>
    rcases state with state | state
    · exact absurd state underway.busy.1
    · exact absurd state underway.busy.2

theorem txData_quiet (none : d.txData.event = false) :
    d.txData.dev.transactionStatus = d.transactionStatus := by
  unfold txData at none ⊢
  split at none
  · rw [if_pos ‹_›]
  · split at none
    · cases none
    · cases none

theorem Took.quiet {h : Handled} (took : d.Took h) (none : h.event = false) :
    h.dev.transactionStatus = d.transactionStatus := by
  cases took with
  | failed | unexpected => cases none
  | lsb | receive => rfl
  | send => exact txData_quiet none
  | txData => exact txData_quiet none
  | rxData =>
    have more := beq_eq_false_iff_ne.mp none
    unfold Dev.rxData rxControl
    rw [if_neg more]
    split
    · rfl
    · rfl

theorem Took.idle {h : Handled} (took : d.Took h)
    (state : d.busState = .stopped ∨ d.busState = .waitRestart) :
    h.event = true ∧ h.dev.busState = d.busState := by
  have differs {other : BusState} (is : d.busState = other)
      (busy : other ≠ .stopped ∧ other ≠ .waitRestart) : False := by
    rcases state with state | state
    · exact busy.1 (is.symm.trans state)
    · exact busy.2 (is.symm.trans state)
  cases took with
  | failed | unexpected => exact ⟨rfl, rfl⟩
  | lsb is => exact (differs is ⟨nofun, nofun⟩).elim
  | send busy | receive busy => exact (differs rfl busy).elim
  | txData is => exact (differs is ⟨nofun, nofun⟩).elim
  | rxData is => exact (differs is ⟨nofun, nofun⟩).elim

/-- The buffer that the transaction uses is its own. -/
structure Owned (d : Dev) : Prop where
  tx : d.transaction = .masterSend → d.tx.owner = d.calls
  rx : d.transaction = .masterReceive → d.rx.owner = d.calls
  send : d.busState = .txData → d.transaction = .masterSend
  receive : d.busState = .rxData → d.transaction = .masterReceive

theorem txData_owned (owned : d.Owned) (state : d.busState = .txData) :
    d.txData.dev.Owned ∧ ∀ owner ∈ d.txData.access, owner = d.calls := by
  have own := owned.tx (owned.send state)
  unfold txData
  split
  · refine ⟨⟨fun _ => own, owned.rx, owned.send, owned.receive⟩, fun owner mem => ?_⟩
    exact (Option.some_inj.mp mem).symm.trans own
  · split
    · exact ⟨⟨owned.tx, owned.rx, nofun, nofun⟩, nofun⟩
    · exact ⟨⟨owned.tx, owned.rx, nofun, nofun⟩, nofun⟩

theorem rxData_owned (owned : d.Owned) (state : d.busState = .rxData) :
    d.rxData.dev.Owned ∧ ∀ owner ∈ d.rxData.access, owner = d.calls := by
  have own := owned.rx (owned.receive state)
  refine ⟨?_, fun owner mem => (Option.some_inj.mp mem).symm.trans own⟩
  unfold rxData rxControl
  split
  · split
    · exact ⟨owned.tx, fun _ => own, nofun, nofun⟩
    · exact ⟨owned.tx, fun _ => own, nofun, nofun⟩
  · split
    · exact ⟨owned.tx, fun _ => own, owned.send, owned.receive⟩
    · exact ⟨owned.tx, fun _ => own, owned.send, owned.receive⟩

theorem Took.owned {h : Handled} (took : d.Took h) (owned : d.Owned) :
    h.dev.Owned ∧ ∀ owner ∈ h.access, owner = d.calls := by
  cases took with
  | failed | unexpected => exact ⟨⟨owned.tx, owned.rx, owned.send, owned.receive⟩, nofun⟩
  | lsb => exact ⟨⟨owned.tx, owned.rx, nofun, nofun⟩, nofun⟩
  | send _ send =>
    have still : Owned { d with busState := .txData } :=
      ⟨owned.tx, owned.rx, fun _ => send, nofun⟩
    exact txData_owned still rfl
  | receive _ receive => exact ⟨⟨owned.tx, owned.rx, nofun, fun _ => receive⟩, nofun⟩
  | txData state => exact txData_owned owned state
  | rxData state => exact rxData_owned owned state

/-! ## Sequences of interrupts -/

theorem interrupt_pulses (i2sr : BitVec 16) : (d.interrupt i2sr).pulses =
    d.pulses ++ List.replicate (d.intr i2sr).event.toNat d.calls := by
  unfold interrupt
  cases (d.intr i2sr).event with
  | false => exact (List.append_nil _).symm
  | true => rfl

theorem interrupts_calls : (d.interrupts statuses).calls = d.calls ∧
    (d.interrupts statuses).transaction = d.transaction := by
  induction statuses generalizing d with
  | nil => exact ⟨rfl, rfl⟩
  | cons i2sr statuses ih =>
    have same := (d.intr_took i2sr).same
    have rest := ih (d := d.interrupt i2sr)
    exact ⟨rest.1.trans same.calls, rest.2.trans same.transaction⟩

theorem interrupts_pulses : (d.interrupts statuses).pulses =
    d.pulses ++ List.replicate (d.events statuses) d.calls := by
  induction statuses generalizing d with
  | nil => exact (List.append_nil _).symm
  | cons i2sr statuses ih =>
    have rest := ih (d := d.interrupt i2sr)
    have calls : (d.interrupt i2sr).calls = d.calls := (d.intr_took i2sr).same.calls
    rw [calls, interrupt_pulses, List.append_assoc, List.replicate_append_replicate] at rest
    exact rest

theorem interrupts_lawful (lawful : d.Lawful) : (d.interrupts statuses).Lawful := by
  induction statuses generalizing d with
  | nil => exact lawful
  | cons i2sr statuses ih => exact ih ((d.intr_took i2sr).lawful lawful)

theorem Owned.interrupt (owned : d.Owned) (i2sr : BitVec 16) : (d.interrupt i2sr).Owned := by
  have took := (d.intr_took i2sr).owned owned
  exact ⟨took.1.tx, took.1.rx, took.1.send, took.1.receive⟩

theorem Owned.interrupts (owned : d.Owned) : (d.interrupts statuses).Owned := by
  induction statuses generalizing d with
  | nil => exact owned
  | cons i2sr statuses ih => exact ih (owned.interrupt i2sr)

theorem Owned.accesses (owned : d.Owned) :
    ∀ owner ∈ d.accesses statuses, owner = d.calls := by
  induction statuses generalizing d with
  | nil => exact nofun
  | cons i2sr statuses ih =>
    intro owner mem
    rcases List.mem_append.mp mem with mem | mem
    · exact ((d.intr_took i2sr).owned owned).2 owner (Option.mem_toList.mp mem)
    · exact (ih (owned.interrupt i2sr) owner mem).trans (d.intr_took i2sr).same.calls

theorem interrupts_quiet (none : d.events statuses = 0) :
    (d.interrupts statuses).transactionStatus = d.transactionStatus := by
  induction statuses generalizing d with
  | nil => rfl
  | cons i2sr statuses ih =>
    obtain ⟨first, rest⟩ := Nat.add_eq_zero_iff.mp none
    have quiet := (d.intr_took i2sr).quiet (Bool.toNat_eq_zero.mp first)
    exact (ih rest).trans quiet

theorem events_idle (state : d.busState = .stopped ∨ d.busState = .waitRestart) :
    d.events statuses = statuses.length := by
  induction statuses generalizing d with
  | nil => rfl
  | cons i2sr statuses ih =>
    obtain ⟨event, same⟩ := (d.intr_took i2sr).idle state
    have rest := ih (d := d.interrupt i2sr) (state.imp same.trans same.trans)
    have count : d.events (i2sr :: statuses) = 1 + statuses.length := by
      unfold events
      rw [event, rest]
      rfl
    exact count.trans (Nat.add_comm _ _)

theorem Underway.interrupts (underway : d.Underway) (none : d.events statuses = 0) :
    (d.interrupts statuses).Underway := by
  induction statuses generalizing d with
  | nil => exact underway
  | cons i2sr statuses ih =>
    obtain ⟨first, rest⟩ := Nat.add_eq_zero_iff.mp none
    rcases (d.intr_took i2sr).underway underway with ⟨_, still⟩ | ⟨event, _⟩
    · exact ih ⟨still.status, still.busy, still.master⟩ rest
    · exact absurd (event.symm.trans (Bool.toNat_eq_zero.mp first)) Bool.noConfusion

theorem Ended.interrupts (ended : d.Ended) (none : d.events statuses = 0) :
    (d.interrupts statuses).Ended := by
  rcases ended with failed | ⟨complete, restartable⟩
  · exact .inl ((interrupts_quiet none).trans failed)
  · have idle : d.busState = .stopped ∨ d.busState = .waitRestart :=
      restartable.imp And.left And.left
    have nothing := List.length_eq_zero_iff.mp ((events_idle idle).symm.trans none)
    rw [nothing]
    exact .inr ⟨complete, restartable⟩

theorem Underway.ends (underway : d.Underway) (one : d.events statuses = 1) :
    (d.interrupts statuses).Ended := by
  induction statuses generalizing d with
  | nil => cases one
  | cons i2sr statuses ih =>
    rcases (d.intr_took i2sr).underway underway with ⟨event, still⟩ | ⟨event, ended⟩
    · have rest : (d.interrupt i2sr).events statuses = 1 := by
        unfold events at one
        rw [event] at one
        exact (Nat.zero_add _).symm.trans one
      exact ih ⟨still.status, still.busy, still.master⟩ rest
    · have rest : (d.interrupt i2sr).events statuses = 0 := by
        unfold events at one
        rw [event] at one
        exact Nat.add_left_cancel one
      have now : (d.interrupt i2sr).Ended := ended
      exact now.interrupts rest

/-! ## A call -/

/-- No pulse is left, and the next transaction can begin with a start. -/
structure Clean (d : Dev) : Prop where
  pulses : d.pulses = []
  restartable : d.Restartable

theorem Restartable.idle (restartable : d.Restartable) :
    d.busState = .stopped ∨ d.busState = .waitRestart := restartable.imp And.left And.left

theorem Restartable.lawful (restartable : d.Restartable) : d.Lawful := by
  rcases restartable with ⟨_, clear⟩ | ⟨wait, _⟩
  · exact fun _ => clear
  · exact fun stopped => absurd (wait.symm.trans stopped) nofun

theorem reset_clean (none : d.pulses = []) : d.reset.Clean := ⟨none, .inl ⟨rfl, stop_clear⟩⟩

theorem sendaddr_same : (d.fillIn c).sendaddr.calls = d.calls + 1 ∧
    (d.fillIn c).sendaddr.pulses = d.pulses ∧
    (d.fillIn c).sendaddr.transaction = c.transaction ∧
    (d.fillIn c).sendaddr.transactionStatus = .inProgress ∧
    (d.fillIn c).sendaddr.busState = d.busState := by
  unfold fillIn sendaddr
  cases c.transaction with
  | masterSend =>
    dsimp only
    split
    · exact ⟨rfl, rfl, rfl, rfl, rfl⟩
    · exact ⟨rfl, rfl, rfl, rfl, rfl⟩
  | masterReceive =>
    dsimp only
    split
    · exact ⟨rfl, rfl, rfl, rfl, rfl⟩
    · exact ⟨rfl, rfl, rfl, rfl, rfl⟩

theorem fillIn_bus : (d.fillIn c).busState = d.busState ∧
    has (d.fillIn c).ctr CTRREG_MSTA = has d.ctr CTRREG_MSTA := by
  unfold fillIn
  cases c.transaction with
  | masterSend => exact ⟨rfl, rfl⟩
  | masterReceive => exact ⟨rfl, has_or_apart (by decide) d.ctr⟩

theorem starts_iff : (d.fillIn c).starts = true ↔ d.Restartable := by
  obtain ⟨state, master⟩ := d.fillIn_bus (c := c)
  unfold starts Restartable
  rw [state, master]
  cases is : d.busState with
  | stopped => simp
  | waitRestart => simp
  | txAddr7bit | txAddr10bitMsb | txAddr10bitLsb | txData | rxData => simp

theorem sendaddr_master (restartable : d.Restartable) :
    has (d.fillIn c).sendaddr.ctr CTRREG_MSTA = true := by
  obtain ⟨state, master⟩ := d.fillIn_bus (c := c)
  unfold sendaddr
  dsimp only
  split
  · exact has_or (by decide) _
  · rename_i held
    rcases restartable with ⟨stopped, _⟩ | ⟨_, set⟩
    · exact absurd (state.trans stopped) held
    · exact (has_or_apart (by decide) _).trans (master.trans set)

theorem sendaddr_owned (idle : d.busState = .stopped ∨ d.busState = .waitRestart) :
    (d.fillIn c).sendaddr.Owned := by
  have own : (c.transaction = .masterSend → (d.fillIn c).sendaddr.tx.owner = d.calls + 1) ∧
      (c.transaction = .masterReceive → (d.fillIn c).sendaddr.rx.owner = d.calls + 1) := by
    unfold fillIn sendaddr
    cases c.transaction with
    | masterSend =>
      dsimp only
      split
      · exact ⟨fun _ => rfl, nofun⟩
      · exact ⟨fun _ => rfl, nofun⟩
    | masterReceive =>
      dsimp only
      split
      · exact ⟨nofun, fun _ => rfl⟩
      · exact ⟨nofun, fun _ => rfl⟩
  obtain ⟨calls, _, transaction, _, state⟩ := d.sendaddr_same (c := c)
  have apart {other : BusState} (busy : other ≠ .stopped ∧ other ≠ .waitRestart) :
      (d.fillIn c).sendaddr.busState ≠ other := by
    rintro rfl
    rw [state] at busy
    exact idle.elim busy.1 busy.2
  refine ⟨fun send => ?_, fun receive => ?_, fun is => ?_, fun is => ?_⟩
  · exact (own.1 (transaction.symm.trans send)).trans calls.symm
  · exact (own.2 (transaction.symm.trans receive)).trans calls.symm
  · exact absurd is (apart ⟨nofun, nofun⟩)
  · exact absurd is (apart ⟨nofun, nofun⟩)

theorem Owned.addrState (owned : d.Owned) (fmt : AddrFmt) : (d.addrState fmt).Owned := by
  unfold Dev.addrState
  cases fmt with
  | bit7 => exact ⟨owned.tx, owned.rx, nofun, nofun⟩
  | bit10 => exact ⟨owned.tx, owned.rx, nofun, nofun⟩

theorem start_underway (restartable : d.Restartable) (none : c.early = []) :
    (d.start c).Underway := by
  obtain ⟨_, _, _, status, _⟩ := d.sendaddr_same (c := c)
  have master := sendaddr_master (c := c) restartable
  unfold start
  rw [none]
  cases fmt : c.fmt with
  | bit7 => exact ⟨status, ⟨nofun, nofun⟩, master⟩
  | bit10 => exact ⟨status, ⟨nofun, nofun⟩, master⟩

theorem start_calls : (d.start c).calls = d.calls + 1 ∧
    (d.start c).transaction = c.transaction := by
  obtain ⟨calls, _, transaction, _⟩ := d.sendaddr_same (c := c)
  have early : (d.start c).calls = _ ∧ (d.start c).transaction = _ := interrupts_calls
  exact ⟨early.1.trans calls, early.2.trans transaction⟩

theorem waited_pulses : (d.waited c).pulses = d.pulses ++
    List.replicate ((d.fillIn c).sendaddr.events c.early + (d.start c).events c.before)
      (d.calls + 1) := by
  obtain ⟨calls, pulses, _⟩ := d.sendaddr_same (c := c)
  have early : (d.start c).pulses = _ := interrupts_pulses
  have before : (d.waited c).pulses = _ := interrupts_pulses
  have first : (d.start c).pulses = d.pulses ++
      List.replicate ((d.fillIn c).sendaddr.events c.early) (d.calls + 1) := by
    rw [← calls, ← pulses]
    exact early
  rw [first, start_calls.1, List.append_assoc, List.replicate_append_replicate] at before
  exact before

theorem Restartable.accesses (restartable : d.Restartable) :
    ∀ owner ∈ (d.fillIn c).sendaddr.accesses c.early ++ ((d.start c).accesses c.before ++
      (d.waited c).receive.accesses c.after), owner = d.calls + 1 := by
  have owned := sendaddr_owned (c := c) restartable.idle
  have started : (d.start c).Owned := Owned.addrState owned.interrupts c.fmt
  have waited : (d.waited c).Owned := started.interrupts
  have received : (d.waited c).receive.Owned :=
    ⟨waited.tx, waited.rx, waited.send, waited.receive⟩
  have calls : (d.waited c).calls = d.calls + 1 := interrupts_calls.1.trans start_calls.1
  intro owner mem
  rcases List.mem_append.mp mem with mem | mem
  · exact (owned.accesses owner mem).trans sendaddr_same.1
  · rcases List.mem_append.mp mem with mem | mem
    · exact (started.accesses owner mem).trans start_calls.1
    · exact (received.accesses owner mem).trans calls

/-- Before the state of the bus is written down an interrupt that is not for a lost arbitration
leaves the transaction in progress. -/
theorem intr_idle (idle : d.busState = .stopped ∨ d.busState = .waitRestart) :
    (d.intr i2sr).dev.transactionStatus =
      if has i2sr STSREG_IAL then .failed else d.transactionStatus := by
  unfold intr
  split
  · rfl
  · have none : d.acknowledged = false := by
      unfold acknowledged
      rcases idle with state | state
      · rw [state]
        rfl
      · rw [state]
        rfl
    rw [none, Bool.false_and, if_neg Bool.false_ne_true]
    unfold phase
    rcases idle with state | state
    · rw [state]
    · rw [state]

theorem finish_pulses : d.finish.2.pulses = d.pulses := by
  unfold finish
  split
  · split
    · rfl
    · rfl
  · rfl
  · rfl

theorem Ended.finish (ended : d.Ended) (none : d.pulses = []) : d.finish.2.Clean := by
  unfold Dev.finish
  rcases ended with failed | ⟨complete, restartable⟩
  · rw [failed]
    exact reset_clean none
  · rw [complete]
    exact ⟨none, restartable⟩

theorem Underway.finish (underway : d.Underway) (none : d.pulses = []) :
    d.finish.2.Clean ↔ d.transaction = .masterReceive := by
  unfold Dev.finish
  rw [underway.status]
  cases transaction : d.transaction with
  | masterSend =>
    refine ⟨fun clean => ?_, nofun⟩
    rcases clean.restartable.idle with state | state
    · exact absurd state underway.busy.1
    · exact absurd state underway.busy.2
  | masterReceive => exact ⟨fun _ => rfl, fun _ => ⟨none, .inl ⟨rfl, stop_clear⟩⟩⟩

theorem left_pulses (clean : d.Clean) :
    ((d.waited c).receive.interrupts c.after).finish.2.pulses =
      List.replicate (c.early.length + (d.start c).events c.before - 1 +
        (d.waited c).receive.events c.after) (d.calls + 1) := by
  have waited := d.waited_pulses (c := c)
  obtain ⟨_, _, _, _, state⟩ := d.sendaddr_same (c := c)
  have early : (d.fillIn c).sendaddr.events c.early = c.early.length :=
    events_idle (clean.restartable.idle.imp state.trans state.trans)
  rw [clean.pulses, early, List.nil_append] at waited
  have received : (d.waited c).receive.pulses =
      List.replicate (c.early.length + (d.start c).events c.before - 1) (d.calls + 1) :=
    (congrArg List.tail waited).trans List.tail_replicate
  have calls : (d.waited c).receive.calls = d.calls + 1 := interrupts_calls.1.trans start_calls.1
  rw [finish_pulses, interrupts_pulses, received, calls, List.replicate_append_replicate]

theorem ends_of_clean (clean : d.Clean) (isolated : d.Isolated c)
    (next : ((d.waited c).receive.interrupts c.after).finish.2.Clean) : d.Ends c := by
  have left := next.pulses
  rw [left_pulses clean, List.replicate_eq_nil_iff] at left
  have after : (d.waited c).receive.events c.after = 0 := by omega
  refine ⟨after, ?_⟩
  obtain ⟨_, _, _, status, state⟩ := d.sendaddr_same (c := c)
  have idle := clean.restartable.idle.imp state.trans state.trans
  cases early : c.early with
  | nil =>
    refine .inl ⟨rfl, ?_⟩
    cases none : (d.start c).events c.before with
    | succ n =>
      rw [early, none, List.length_nil] at left
      exact .inl (by omega)
    | zero =>
      refine .inr ⟨?_, rfl⟩
      have waited : (d.waited c).Underway :=
        (start_underway clean.restartable early).interrupts none
      have received : (d.waited c).receive.Underway :=
        ⟨waited.status, waited.busy, waited.master⟩
      have ended := received.interrupts after
      have pulses := finish_pulses.symm.trans next.pulses
      have receive := (ended.finish pulses).mp next
      have kept : ((d.waited c).receive.interrupts c.after).transaction =
          (d.waited c).transaction := interrupts_calls.2
      have begun : (d.waited c).transaction = c.transaction :=
        interrupts_calls.2.trans start_calls.2
      exact begun.symm.trans (kept.symm.trans receive)
  | cons i2sr rest =>
    rw [early, List.length_cons] at left
    have none : rest = [] := List.length_eq_zero_iff.mp (by omega)
    have before : (d.start c).events c.before = 0 := by omega
    refine .inr ⟨⟨i2sr, by rw [none], ?_⟩, before⟩
    have pulse : d.calls + 1 ∈ (d.waited c).pulses.head? := by
      have waited := d.waited_pulses (c := c)
      rw [clean.pulses, events_idle idle, early, none, before] at waited
      rw [waited]
      exact rfl
    have told := (isolated.pulse _ pulse).2
    have quiet : (d.waited c).transactionStatus = (d.start c).transactionStatus :=
      interrupts_quiet before
    have first : (d.start c).transactionStatus =
        ((d.fillIn c).sendaddr.intr i2sr).dev.transactionStatus := by
      unfold start
      rw [early, none]
      rfl
    rw [quiet, first, intr_idle idle] at told
    by_contra lost
    exact told ((if_neg lost).trans status)

/-- How a call that ends well has ended when the caller looks for a pulse: it is given up in a
receive, or it has ended. -/
theorem Ends.waited (ends : d.Ends c) (clean : d.Clean) :
    (d.waited c).Underway ∧ c.transaction = .masterReceive ∧ (d.waited c).pulses = [] ∨
      (d.waited c).Ended ∧ (d.waited c).pulses = [d.calls + 1] := by
  have pulses := d.waited_pulses (c := c)
  obtain ⟨_, _, _, status, state⟩ := d.sendaddr_same (c := c)
  have idle := clean.restartable.idle.imp state.trans state.trans
  rw [clean.pulses, events_idle idle, List.nil_append] at pulses
  rcases ends.before with ⟨early, one | ⟨receive, none⟩⟩ | ⟨⟨i2sr, early, lost⟩, none⟩
  · rw [early, one] at pulses
    exact .inr ⟨(start_underway clean.restartable early).ends one, pulses⟩
  · rw [early, none] at pulses
    exact .inl ⟨(start_underway clean.restartable early).interrupts none, receive, pulses⟩
  · rw [early, none] at pulses
    refine .inr ⟨.inl ?_, pulses⟩
    have quiet : (d.waited c).transactionStatus = (d.start c).transactionStatus :=
      interrupts_quiet none
    have first : (d.start c).transactionStatus =
        ((d.fillIn c).sendaddr.intr i2sr).dev.transactionStatus := by
      unfold start
      rw [early]
      rfl
    rw [quiet, first, intr_idle idle, if_pos lost]

theorem Ends.isolated (ends : d.Ends c) (clean : d.Clean) : d.Isolated c where
  starts := starts_iff.mpr clean.restartable
  accesses := clean.restartable.accesses
  pulse := by
    intro p mem
    rcases ends.waited clean with ⟨_, _, none⟩ | ⟨ended, one⟩
    · rw [none] at mem
      cases mem
    · rw [one] at mem
      refine ⟨(Option.some_inj.mp mem).symm, fun status => ?_⟩
      rcases ended with failed | ⟨complete, _⟩
      · exact absurd (failed.symm.trans status) nofun
      · exact absurd (complete.symm.trans status) nofun

theorem Ends.clean (ends : d.Ends c) (clean : d.Clean) :
    ((d.waited c).receive.interrupts c.after).finish.2.Clean := by
  have pulses : ((d.waited c).receive.interrupts c.after).pulses = (d.waited c).pulses.tail := by
    rw [interrupts_pulses, ends.after]
    exact List.append_nil _
  rcases ends.waited clean with ⟨underway, receive, none⟩ | ⟨ended, one⟩
  · rw [none] at pulses
    have received : (d.waited c).receive.Underway :=
      ⟨underway.status, underway.busy, underway.master⟩
    refine ((received.interrupts ends.after).finish pulses).mpr ?_
    have kept : ((d.waited c).receive.interrupts c.after).transaction =
        (d.waited c).transaction := interrupts_calls.2
    exact kept.trans ((interrupts_calls.2.trans start_calls.2).trans receive)
  · rw [one] at pulses
    have received : (d.waited c).receive.Ended := ended
    exact (received.interrupts ends.after).finish pulses

/-- A call from a clean device is isolated and leaves it clean exactly if it ends well. -/
theorem ends_iff (clean : d.Clean) :
    d.Isolated c ∧ ((d.waited c).receive.interrupts c.after).finish.2.Clean ↔ d.Ends c :=
  ⟨fun both => ends_of_clean clean both.1 both.2,
    fun ends => ⟨ends.isolated clean, ends.clean clean⟩⟩

/-! ## A device that is not clean -/

/-- The pulses on the channel are of transactions that there were. -/
structure Numbered (d : Dev) : Prop where
  lawful : d.Lawful
  pulses : ∀ p ∈ d.pulses, p ≤ d.calls

theorem not_isolated (numbered : d.Numbered) (not : ¬d.Clean) : ¬d.Isolated c := by
  intro isolated
  have restartable := starts_iff.mp isolated.starts
  have some : d.pulses ≠ [] := fun none => not ⟨none, restartable⟩
  obtain ⟨p, rest, pulses⟩ := List.exists_cons_of_ne_nil some
  have head : p ∈ (d.waited c).pulses.head? := by
    rw [waited_pulses, pulses]
    exact rfl
  have own := (isolated.pulse p head).1
  have old := numbered.pulses p (by rw [pulses]; exact List.mem_cons_self)
  omega

theorem waitBus_some {bus : Bus} {t : Dev} (numbered : d.Numbered)
    (waits : d.waitBus bus = some t) : t.Numbered ∧ (t.Clean ↔ d.Clean) := by
  unfold waitBus at waits
  split at waits
  · rename_i stopped
    have restartable : d.Restartable := .inl ⟨stopped, numbered.lawful stopped⟩
    cases bus with
    | idle =>
      cases waits
      exact ⟨numbered, Iff.rfl⟩
    | reset =>
      cases waits
      exact ⟨⟨fun _ => stop_clear, numbered.pulses⟩,
        fun clean => ⟨clean.pulses, restartable⟩, fun clean => reset_clean clean.pulses⟩
    | busy => cases waits
  · cases waits
    exact ⟨numbered, Iff.rfl⟩

theorem waitBus_none {bus : Bus} (numbered : d.Numbered) (gives : d.waitBus bus = none) :
    d.reset.Numbered ∧ (d.reset.Clean ↔ d.Clean) := by
  unfold waitBus at gives
  split at gives
  · rename_i stopped
    have restartable : d.Restartable := .inl ⟨stopped, numbered.lawful stopped⟩
    exact ⟨⟨fun _ => stop_clear, numbered.pulses⟩,
      fun clean => ⟨clean.pulses, restartable⟩, fun clean => reset_clean clean.pulses⟩
  · cases gives

theorem Numbered.interrupts (numbered : d.Numbered) : (d.interrupts statuses).Numbered := by
  refine ⟨interrupts_lawful numbered.lawful, fun p mem => ?_⟩
  rw [interrupts_pulses] at mem
  rw [interrupts_calls.1]
  rcases List.mem_append.mp mem with mem | mem
  · exact numbered.pulses p mem
  · exact Nat.le_of_eq (List.eq_of_mem_replicate mem)

theorem Numbered.start (numbered : d.Numbered) : (d.start c).Numbered := by
  obtain ⟨calls, pulses, _⟩ := d.sendaddr_same (c := c)
  have first : ∀ p ∈ (d.fillIn c).sendaddr.pulses, p ≤ (d.fillIn c).sendaddr.calls := by
    intro p mem
    rw [pulses] at mem
    rw [calls]
    exact Nat.le_succ_of_le (numbered.pulses p mem)
  refine ⟨?_, fun p mem => ?_⟩
  · unfold Dev.start Dev.addrState
    cases c.fmt with
    | bit7 => exact nofun
    | bit10 => exact nofun
  · have pulses' : (d.start c).pulses = ((d.fillIn c).sendaddr.interrupts c.early).pulses := rfl
    rw [pulses', interrupts_pulses] at mem
    rw [start_calls.1, ← calls]
    rcases List.mem_append.mp mem with mem | mem
    · exact first p mem
    · exact Nat.le_of_eq (List.eq_of_mem_replicate mem)

theorem Numbered.finish (numbered : d.Numbered) : d.finish.2.Numbered := by
  unfold Dev.finish
  split
  · split
    · exact numbered
    · exact ⟨fun _ => stop_clear, numbered.pulses⟩
  · exact ⟨fun _ => stop_clear, numbered.pulses⟩
  · exact numbered

theorem Numbered.receive (numbered : d.Numbered) : d.receive.Numbered :=
  ⟨numbered.lawful, fun p mem => numbered.pulses p (List.mem_of_mem_tail mem)⟩

theorem next_zero (zero : c.len = 0) : d.next (.call c) = d := by
  unfold next exec
  exact congrArg Prod.snd (if_pos zero)

theorem next_busy (some : c.len ≠ 0) (gives : d.waitBus c.bus = none) :
    d.next (.call c) = d.reset := by
  have run : d.exec c = (I2C_STATUS_BUSY, d.reset) := by
    unfold exec
    rw [if_neg some, gives]
  exact congrArg Prod.snd run

theorem next_call {t : Dev} (some : c.len ≠ 0) (waits : d.waitBus c.bus = Option.some t) :
    d.next (.call c) = ((t.waited c).receive.interrupts c.after).finish.2 := by
  have run : d.exec c = ((t.waited c).receive.interrupts c.after).finish := by
    unfold exec
    rw [if_neg some, waits]
  exact congrArg Prod.snd run

theorem Numbered.next (numbered : d.Numbered) (event : Event) : (d.next event).Numbered := by
  cases event with
  | intr i2sr =>
    have kept : (d.interrupts [i2sr]).Numbered := numbered.interrupts
    exact kept
  | call c =>
    by_cases zero : c.len = 0
    · rw [next_zero zero]
      exact numbered
    · cases waits : d.waitBus c.bus with
      | none =>
        rw [next_busy zero waits]
        exact (waitBus_none numbered waits).1
      | some t =>
        rw [next_call zero waits]
        have start := (waitBus_some numbered waits).1.start (c := c)
        exact (start.interrupts.receive.interrupts).finish

theorem txData_busy (none : d.txData.event = false) : d.txData.access ≠ Option.none := by
  unfold txData at none ⊢
  split at none
  · rw [if_pos ‹_›]
    exact nofun
  · split at none
    · cases none
    · cases none

/-- A handler that raises no event and touches no buffer leaves the bus with the master. -/
theorem Took.busy {h : Handled} (took : d.Took h) (none : h.event = false)
    (untouched : h.access = Option.none) :
    h.dev.busState ≠ .stopped ∧ h.dev.busState ≠ .waitRestart := by
  cases took with
  | failed | unexpected => cases none
  | lsb | receive => exact ⟨nofun, nofun⟩
  | send => exact absurd untouched (txData_busy none)
  | txData => exact absurd untouched (txData_busy none)
  | rxData => cases untouched

theorem Numbered.stays (numbered : d.Numbered) (not : ¬d.Clean) {event : Event}
    (fine : d.Fine event) : ¬(d.next event).Clean := by
  cases event with
  | call c =>
    by_cases zero : c.len = 0
    · rw [next_zero zero]
      exact not
    · cases waits : d.waitBus c.bus with
      | none =>
        rw [next_busy zero waits]
        exact fun clean => not ((waitBus_none numbered waits).2.mp clean)
      | some t =>
        obtain ⟨numbered', same⟩ := waitBus_some numbered waits
        exact absurd (fine zero t waits)
          (not_isolated numbered' fun clean => not (same.mp clean))
  | intr i2sr =>
    intro clean
    have pulses := clean.pulses
    have next : d.next (.intr i2sr) = d.interrupt i2sr := rfl
    rw [next, interrupt_pulses] at pulses
    have quiet := (List.replicate_eq_nil_iff _).mp (List.append_eq_nil_iff.mp pulses).2
    have busy := (d.intr_took i2sr).busy (Bool.toNat_eq_zero.mp quiet) fine
    rcases clean.restartable.idle with state | state
    · exact busy.1 state
    · exact busy.2 state

/-! ## Runs -/

/-- An event from a clean device is isolated and leaves it clean exactly if it keeps to the
condition. -/
theorem kept_iff (clean : d.Clean) (event : Event) :
    (d.next event).Clean ∧ d.Fine event ↔ d.Kept event := by
  have numbered : d.Numbered :=
    ⟨clean.restartable.lawful, by rw [clean.pulses]; exact nofun⟩
  cases event with
  | call c =>
    by_cases zero : c.len = 0
    · rw [next_zero zero]
      exact ⟨fun _ some => absurd zero some, fun _ => ⟨clean, fun some => absurd zero some⟩⟩
    · cases waits : d.waitBus c.bus with
      | none =>
        rw [next_busy zero waits]
        have never {p : Dev → Prop} : ∀ t, d.waitBus c.bus = some t → p t := by
          intro t found
          rw [waits] at found
          cases found
        have still := (waitBus_none numbered waits).2.mpr clean
        exact ⟨fun _ _ => never, fun _ => ⟨still, fun _ => never⟩⟩
      | some t =>
        rw [next_call zero waits]
        have iff := ends_iff (c := c) ((waitBus_some numbered waits).2.mpr clean)
        have only {p : Dev → Prop} (holds : p t) : ∀ u, d.waitBus c.bus = some u → p u := by
          intro u found
          rw [waits] at found
          cases found
          exact holds
        exact ⟨fun both _ => only (iff.mp ⟨both.2 zero t waits, both.1⟩),
          fun kept => ⟨(iff.mpr (kept zero t waits)).2,
            fun _ => only (iff.mpr (kept zero t waits)).1⟩⟩
  | intr i2sr =>
    refine ⟨fun both => ?_, fun none => none.elim⟩
    have pulses := both.1.pulses
    have next : d.next (.intr i2sr) = d.interrupt i2sr := rfl
    rw [next, interrupt_pulses, ((d.intr_took i2sr).idle clean.restartable.idle).1] at pulses
    exact absurd (List.append_eq_nil_iff.mp pulses).2 nofun

/-- A send of one byte to a slave that answers at once -/
def probe : Call := ⟨.masterSend, .bit7, 1, true, .idle, [], [0, 0], []⟩

theorem probe_ends : d.Ends probe := by
  have sent : ∃ ctr, (d.fillIn probe).sendaddr = ⟨ctr, true, ⟨d.calls + 1, 1, 0⟩, d.rx,
      .masterSend, .inProgress, 0, d.busState, d.calls + 1, d.pulses⟩ := by
    refine ⟨(d.fillIn probe).sendaddr.ctr, ?_⟩
    have state : (d.fillIn probe).busState = d.busState := fillIn_bus.1
    unfold sendaddr
    dsimp only
    by_cases stopped : (d.fillIn probe).busState = .stopped
    · rw [if_pos stopped, state]
      rfl
    · rw [if_neg stopped, state]
      rfl
  obtain ⟨ctr, sent⟩ := sent
  refine ⟨rfl, .inl ⟨rfl, .inl ?_⟩⟩
  unfold Dev.start
  rw [sent]
  rfl

theorem waitBus_idle : d.waitBus .idle = some d := by
  unfold waitBus
  split
  · rfl
  · rfl

theorem probe_fine_iff (numbered : d.Numbered) : d.Fine (.call probe) ↔ d.Clean := by
  constructor
  · intro fine
    by_contra bad
    exact not_isolated numbered bad (fine Nat.one_ne_zero d waitBus_idle)
  · intro clean
    exact ((kept_iff clean (.call probe)).mpr fun _ _ _ => probe_ends).2

end Dev

/-- From a clean device a run, and a call to a slave that answers at once after it, are isolated
exactly if all calls of the run end well and no interrupt comes when there is no call. -/
theorem isolated_iff {d : Dev} (clean : d.Clean) (events : List Event) :
    (∀ pre event, pre ++ [event] <+: events ++ [.call Dev.probe] →
        (pre.foldl Dev.next d).Fine event) ↔
      ∀ pre event, pre ++ [event] <+: events → (pre.foldl Dev.next d).Kept event := by
  have numbered : d.Numbered :=
    ⟨clean.restartable.lawful, by rw [clean.pulses]; exact nofun⟩
  exact along_last_iff (fun numbered => numbered.next _) (fun _ clean => Dev.kept_iff clean _)
    (fun numbered bad fine => numbered.stays bad fine) Dev.probe_fine_iff numbered clean

/-- The device after `imx_i2c_init` -/
def Dev.ready : Dev := ⟨CTRREG_IEN ||| CTRREG_IIEN, false, ⟨0, 0, 0⟩, ⟨0, 0, 0⟩, .masterSend,
  .inProgress, 0, .stopped, 0, []⟩

theorem Dev.ready_clean : Dev.ready.Clean := ⟨rfl, .inl ⟨rfl, stop_clear⟩⟩

/-- A send with a repeated start after it, and a receive that is given up -/
theorem isolated_small : Dev.ready.Clean ∧ ∀ pre event,
    pre ++ [event] <+: [Event.call ⟨.masterSend, .bit7, 2, false, .idle, [], [0, 0, 0], []⟩,
      .call ⟨.masterReceive, .bit7, 4, true, .idle, [], [0, 0], []⟩] ++ [.call Dev.probe] →
        (pre.foldl Dev.next Dev.ready).Fine event := by
  refine ⟨Dev.ready_clean, (isolated_iff Dev.ready_clean _).mpr ?_⟩
  refine along_cons ?_ (along_cons ?_ along_nil)
  · intro _ t waits
    cases waits
    exact ⟨by decide, .inl ⟨rfl, .inl (by decide)⟩⟩
  · intro _ t waits
    cases waits
    exact ⟨by decide, .inl ⟨rfl, .inr ⟨rfl, by decide⟩⟩⟩

/-- A send of four bytes is given up after the address: the next byte is read from its buffer at
the next interrupt, and the next call begins with no start. -/
theorem isolated_broken :
    let late := (Dev.ready.next (.call ⟨.masterSend, .bit7, 4, true, .idle, [], [0], []⟩))
    ¬late.Fine (.intr 0) ∧ ¬late.Fine (.call Dev.probe) := by
  intro late
  refine ⟨fun fine => ?_, fun fine => ?_⟩
  · exact absurd (show (late.intr 0).access = none from fine) (by decide)
  · have isolated := fine Nat.one_ne_zero late Dev.waitBus_idle
    exact absurd isolated.starts (by decide)

end Mx6xBsp.I2c
