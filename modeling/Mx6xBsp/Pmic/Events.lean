import Mx6xBsp.Lib.Runs

/-!
# Events of the PMIC

Clients register for bits of the four status registers of the PMIC, and the interrupt
thread sends them pulses (`pmpf0100_comms.c`). A status register is cleared by ones, and
a one in the mask register behind it masks the bit. The PMIC may raise bits at any time,
also between the two transfers of a call. `reaches_iff` tells exactly which runs keep the
masks and send all that is cleared.
-/

namespace Mx6xBsp.Pmic

open Runs

def EOK : Nat := 0
def ENOMEM : Nat := 12
def EINVAL : Nat := 22
def ENOMSG : Nat := 35

def PMPF0100_MAX_CALLBACKS : Nat := 32
def PMPF0100_NUM_IRQ_REGS : Nat := 4

def PMPF0100_INT_STATUS0 : Nat := 0x05
def PMPF0100_INT_MASK0 : Nat := 0x06
def PMPF0100_INT_STATUS1 : Nat := 0x08
def PMPF0100_INT_STATUS3 : Nat := 0x0e
def PMPF0100_INT_STATUS4 : Nat := 0x11

abbrev Byte := BitVec 8

/-- `pmpf0100_irq_array` -/
def irqArray : Nat → Nat
  | 0 => PMPF0100_INT_STATUS0
  | 1 => PMPF0100_INT_STATUS1
  | 2 => PMPF0100_INT_STATUS3
  | _ => PMPF0100_INT_STATUS4

/-- The mask register is the one behind the status register. -/
def maskReg (eventReg : Nat) : Nat := irqArray eventReg + 1

/-! ## The registers -/

/-- The registers of the PMIC by their numbers -/
abbrev Regs := Nat → Byte

def isStatus (reg : Nat) : Bool :=
  (List.range PMPF0100_NUM_IRQ_REGS).any fun eventReg => irqArray eventReg == reg

/-- A write; ones clear bits of a status register. -/
def Regs.write (regs : Regs) (reg : Nat) (value : Byte) : Regs :=
  Function.update regs reg (if isStatus reg then regs reg &&& ~~~value else value)

/-- The PMIC raises bits of its status registers. -/
def Regs.raise (regs : Regs) (bits : Nat → Byte) : Regs :=
  fun reg => if isStatus reg then regs reg ||| bits reg else regs reg

/-- The bus during the two transfers of a call: the error of each one, and the bits that the PMIC
raises in between -/
structure Bus where
  get : Option Nat
  raised : Nat → Byte
  set : Option Nat

/-- What the two transfers of a call come to -/
def Bus.result (bus : Bus) : Nat := bus.get.getD (bus.set.getD EOK)

/-- `pmpf0100_comms_get_status` of a register and `pmpf0100_comms_set_status` with what `value`
makes of it -/
def Regs.exchange (regs : Regs) (bus : Bus) (reg : Nat) (value : Byte → Byte) : Nat × Regs :=
  (bus.result,
    if bus.get = none ∧ bus.set = none then (regs.raise bus.raised).write reg (value (regs reg))
    else regs.raise bus.raised)

/-! ## The calls -/

/-- `pmpf0100_event_info_t`, of the pulse its mask, register and guid -/
structure EventInfo where
  eventMask : Byte
  eventReg : Nat
  guid : BitVec 32

/-- `event` of `pmpf0100_comms_t`, whether the interrupt is attached (`irq_id`), and the PMIC -/
structure Comms where
  attached : Bool
  list : List EventInfo
  nextGuid : BitVec 32
  regs : Regs

/-- A pulse to an entry, with the register that its flags were read from -/
structure Pulse where
  guid : BitVec 32
  reg : Nat
  flags : Byte

/-- What a call leaves -/
structure Result where
  rtn : Nat
  comms : Comms
  pulses : List Pulse

/-- The bits that entries have registered, whatever their registers -/
def globalEventMask (list : List EventInfo) : Byte :=
  list.foldl (fun mask entry => mask ||| entry.eventMask) 0

namespace Comms

variable (comms : Comms)

/-- `pmpf0100_comms_event_register`, with the error of `ConnectAttach` -/
def eventRegister (eventMask : Byte) (eventReg : Nat) (bus : Bus) (connect : Option Nat) :
    Result :=
  if comms.attached = false then ⟨EINVAL, comms, []⟩
  else if eventMask = 0 ∨ eventReg ≥ PMPF0100_NUM_IRQ_REGS then ⟨EINVAL, comms, []⟩
  else if comms.list.length ≥ PMPF0100_MAX_CALLBACKS then ⟨ENOMEM, comms, []⟩
  else
    let (result, regs) := comms.regs.exchange bus (irqArray eventReg)
      fun irqMask => irqMask &&& eventMask
    if result = EOK then
      ⟨connect.getD result,
        { comms with
          list := comms.list ++ [⟨eventMask, eventReg, comms.nextGuid⟩]
          nextGuid := comms.nextGuid + 1
          regs := regs }, []⟩
    else ⟨result, { comms with regs := regs }, []⟩

/-- `pmpf0100_comms_event_cancel` -/
def eventCancel (eventGuid : BitVec 32) (bus : Bus) : Result :=
  if eventGuid = 0 then ⟨EINVAL, comms, []⟩
  else if eventGuid < comms.nextGuid then
    match comms.list.find? fun entry => entry.guid == eventGuid with
    | none => ⟨ENOMSG, comms, []⟩
    | some entry =>
      let list := comms.list.eraseP fun entry => entry.guid == eventGuid
      let globalIrqMask := globalEventMask list
      let cancelIrqMask := (entry.eventMask ^^^ globalIrqMask) &&& ~~~globalIrqMask
      let (result, regs) := comms.regs.exchange bus PMPF0100_INT_MASK0
        fun mask => mask ||| cancelIrqMask
      ⟨result, { comms with list, regs }, []⟩
  else ⟨EINVAL, comms, []⟩

/-- The pulses for the events that were read -/
def sendPulses (currentEvents : Byte) : List Pulse :=
  (comms.list.filter fun entry => currentEvents &&& entry.eventMask != 0).map fun entry =>
    ⟨entry.guid, 0, currentEvents &&& entry.eventMask⟩

/-- `pmpf0100_comms_irq_event_process`, with the error of the last `MsgSendPulse` that failed -/
def irqEventProcess (bus : Bus) (send : Option Nat) : Result :=
  let (result, regs) := comms.regs.exchange bus PMPF0100_INT_STATUS0
    fun _ => globalEventMask comms.list
  if result = EOK then
    ⟨send.getD result, { comms with regs := regs },
      comms.sendPulses (comms.regs PMPF0100_INT_STATUS0)⟩
  else ⟨result, { comms with regs := regs }, []⟩

end Comms

inductive Op
  | raise (bits : Nat → Byte)
  | register (eventMask : Byte) (eventReg : Nat) (bus : Bus) (connect : Option Nat)
  | cancel (eventGuid : BitVec 32) (bus : Bus)
  | process (bus : Bus) (send : Option Nat)

def Comms.exec (comms : Comms) : Op → Result
  | .raise bits => ⟨EOK, { comms with regs := comms.regs.raise bits }, []⟩
  | .register eventMask eventReg bus connect => comms.eventRegister eventMask eventReg bus connect
  | .cancel eventGuid bus => comms.eventCancel eventGuid bus
  | .process bus send => comms.irqEventProcess bus send

def Comms.next (comms : Comms) (op : Op) : Comms := (comms.exec op).comms

/-! ## What should hold -/

/-- The bits that entries have registered for one register -/
def registered (list : List EventInfo) (eventReg : Nat) : Byte :=
  globalEventMask (list.filter fun entry => entry.eventReg == eventReg)

/-- The bits that are not masked are those that are registered. -/
def Comms.Masked (comms : Comms) : Prop :=
  ∀ eventReg < PMPF0100_NUM_IRQ_REGS,
    ~~~comms.regs (maskReg eventReg) = registered comms.list eventReg

/-- The bits that the PMIC raises during a call -/
def Op.raised : Op → Nat → Byte
  | .raise bits => bits
  | .register _ _ bus _ => bus.raised
  | .cancel _ bus => bus.raised
  | .process bus _ => bus.raised

/-- The pulses of the call have the bit for the entry. -/
def Result.Sends (result : Result) (entry : EventInfo) (bit : Nat) : Prop :=
  ∃ pulse ∈ result.pulses, pulse.guid = entry.guid ∧ pulse.reg = entry.eventReg ∧
    pulse.flags.getLsbD bit = true

/-- What a call should do -/
structure Fine (comms : Comms) (op : Op) : Prop where
  /-- A register call that returns an error leaves the list as it was. -/
  refused : ∀ eventMask eventReg bus connect, op = .register eventMask eventReg bus connect →
    (comms.exec op).rtn ≠ EOK → (comms.next op).list = comms.list
  /-- A bit that is cleared is sent to all who have registered for it. -/
  cleared : ∀ entry ∈ comms.list, ∀ bit, entry.eventMask.getLsbD bit = true →
    (comms.regs (irqArray entry.eventReg) ||| op.raised (irqArray entry.eventReg)).getLsbD bit =
      true →
    ((comms.next op).regs (irqArray entry.eventReg)).getLsbD bit = false →
    (comms.exec op).Sends entry bit
  /-- The interrupt thread sends the bits that it finds to all who have registered for them. -/
  reached : ∀ bus send, op = .process bus send → bus.result = EOK → ∀ entry ∈ comms.list,
    ∀ bit, entry.eventMask.getLsbD bit = true →
    (comms.regs (irqArray entry.eventReg)).getLsbD bit = true → (comms.exec op).Sends entry bit
  /-- A pulse has bits of the register of its entry. -/
  own : ∀ pulse ∈ (comms.exec op).pulses, ∃ entry ∈ comms.list, entry.guid = pulse.guid ∧
    entry.eventReg = pulse.reg

/-- A register call that is refused before it comes to the list, or whose transfers fail -/
def Refused (attached : Bool) : Op → Prop
  | .register eventMask eventReg bus _ => attached = false ∨ eventMask = 0 ∨
      PMPF0100_NUM_IRQ_REGS ≤ eventReg ∨ bus.result ≠ EOK
  | _ => True

/-! ## Masks -/

theorem mask_not_status {eventReg : Nat} (below : eventReg < PMPF0100_NUM_IRQ_REGS) :
    isStatus (maskReg eventReg) = false := by
  have all : ∀ eventReg < 4, isStatus (maskReg eventReg) = false := by decide
  exact all eventReg below

theorem irqArray_isStatus (eventReg : Nat) : isStatus (irqArray eventReg) = true := by
  match eventReg with
  | 0 => rfl
  | 1 => rfl
  | 2 => rfl
  | _ + 3 => rfl

theorem raise_mask (regs : Regs) (bits : Nat → Byte) {reg : Nat} (mask : isStatus reg = false) :
    regs.raise bits reg = regs reg :=
  if_neg fun status => Bool.false_ne_true (mask.symm.trans status)

theorem exchange_mask (regs : Regs) (bus : Bus) {reg reg' : Nat} (value : Byte → Byte)
    (status : isStatus reg = true) (mask : isStatus reg' = false) :
    (regs.exchange bus reg value).2 reg' = regs reg' := by
  have apart : reg' ≠ reg := fun same =>
    Bool.false_ne_true (mask.symm.trans ((congrArg isStatus same).trans status))
  unfold Regs.exchange
  dsimp only
  split
  · exact (Function.update_of_ne apart _ _).trans (raise_mask regs bus.raised mask)
  · exact raise_mask regs bus.raised mask

theorem masked_of_same {comms comms' : Comms} (none : comms.list = []) (none' : comms'.list = [])
    (same : ∀ eventReg < PMPF0100_NUM_IRQ_REGS,
      comms'.regs (maskReg eventReg) = comms.regs (maskReg eventReg)) (masked : comms.Masked) :
    comms'.Masked := by
  intro eventReg below
  rw [same eventReg below, none', ← none]
  exact masked eventReg below

/-! ## A driver with no entry -/

section Empty

variable {comms : Comms} {op : Op}

theorem next_of_refused (none : comms.list = []) (refused : Refused comms.attached op) :
    (comms.next op).list = [] ∧ (comms.next op).attached = comms.attached ∧
      ∀ eventReg < PMPF0100_NUM_IRQ_REGS,
        (comms.next op).regs (maskReg eventReg) = comms.regs (maskReg eventReg) := by
  cases op with
  | raise bits =>
    exact ⟨none, rfl, fun _ below => raise_mask comms.regs bits (mask_not_status below)⟩
  | register eventMask eventReg bus connect =>
    unfold Comms.next Comms.exec Comms.eventRegister
    dsimp only
    split
    · exact ⟨none, rfl, fun _ _ => rfl⟩
    split
    · exact ⟨none, rfl, fun _ _ => rfl⟩
    split
    · exact ⟨none, rfl, fun _ _ => rfl⟩
    rename_i attached arguments _
    have failed : bus.result ≠ EOK := by
      rcases refused with off | empty | large | failed
      · exact absurd off attached
      · exact absurd (.inl empty) arguments
      · exact absurd (.inr large) arguments
      · exact failed
    split
    · rename_i done
      exact absurd done failed
    · exact ⟨none, rfl, fun _ below => exchange_mask comms.regs bus
        (fun irqMask => irqMask &&& eventMask) (irqArray_isStatus eventReg)
        (mask_not_status below)⟩
  | cancel eventGuid bus =>
    unfold Comms.next Comms.exec Comms.eventCancel
    rw [none]
    dsimp only
    split
    · exact ⟨none, rfl, fun _ _ => rfl⟩
    split
    · exact ⟨none, rfl, fun _ _ => rfl⟩
    · exact ⟨none, rfl, fun _ _ => rfl⟩
  | process bus send =>
    have status : isStatus PMPF0100_INT_STATUS0 = true := rfl
    have masks : ∀ eventReg < PMPF0100_NUM_IRQ_REGS, (comms.regs.exchange bus
        PMPF0100_INT_STATUS0 fun _ => globalEventMask comms.list).2 (maskReg eventReg) =
        comms.regs (maskReg eventReg) := fun _ below =>
      exchange_mask comms.regs bus _ status (mask_not_status below)
    unfold Comms.next Comms.exec Comms.irqEventProcess
    dsimp only
    split
    · exact ⟨none, rfl, masks⟩
    · exact ⟨none, rfl, masks⟩

theorem exec_pulses (none : comms.list = []) : (comms.exec op).pulses = [] := by
  cases op with
  | raise bits => rfl
  | register eventMask eventReg bus connect =>
    unfold Comms.exec Comms.eventRegister
    dsimp only
    split
    · rfl
    split
    · rfl
    split
    · rfl
    split
    · rfl
    · rfl
  | cancel eventGuid bus =>
    unfold Comms.exec Comms.eventCancel
    rw [none]
    dsimp only
    split
    · rfl
    split
    · rfl
    · rfl
  | process bus send =>
    unfold Comms.exec Comms.irqEventProcess Comms.sendPulses
    rw [none]
    dsimp only
    split
    · rfl
    · rfl

theorem not_masked_of_accepted (none : comms.list = []) (masked : comms.Masked)
    (accepted : ¬Refused comms.attached op) : ¬(comms.next op).Masked := by
  cases op with
  | raise bits => exact absurd trivial accepted
  | cancel eventGuid bus => exact absurd trivial accepted
  | process bus send => exact absurd trivial accepted
  | register eventMask eventReg bus connect =>
    unfold Refused at accepted
    obtain ⟨attached, accepted⟩ := not_or.mp accepted
    obtain ⟨some_, accepted⟩ := not_or.mp accepted
    obtain ⟨below, done⟩ := not_or.mp accepted
    have added : comms.next (.register eventMask eventReg bus connect) =
        { comms with
          list := comms.list ++ [⟨eventMask, eventReg, comms.nextGuid⟩]
          nextGuid := comms.nextGuid + 1
          regs := (comms.regs.exchange bus (irqArray eventReg)
            fun irqMask => irqMask &&& eventMask).2 } := by
      have arguments : ¬(eventMask = 0 ∨ eventReg ≥ PMPF0100_NUM_IRQ_REGS) :=
        not_or.mpr ⟨some_, below⟩
      have room : ¬comms.list.length ≥ PMPF0100_MAX_CALLBACKS := by
        rw [none]
        decide
      unfold Comms.next Comms.exec Comms.eventRegister
      dsimp only
      rw [if_neg attached, if_neg arguments, if_neg room]
      exact congrArg Result.comms (if_pos (not_not.mp done))
    intro masked'
    have inside : eventReg < PMPF0100_NUM_IRQ_REGS := Nat.not_le.mp below
    have before := masked eventReg inside
    have after := masked' eventReg inside
    rw [none] at before
    rw [added] at after
    dsimp only at after
    rw [exchange_mask _ _ _ (irqArray_isStatus eventReg) (mask_not_status inside), before, none,
      List.nil_append] at after
    have only : registered [⟨eventMask, eventReg, comms.nextGuid⟩] eventReg = eventMask := by
      unfold registered globalEventMask
      simp only [List.filter_cons, beq_self_eq_true, if_true, List.filter_nil]
      exact BitVec.zero_or
    exact some_ (after.trans only).symm

theorem fine_of_refused (none : comms.list = []) (refused : Refused comms.attached op) :
    Fine comms op where
  refused _ _ _ _ _ _ := (next_of_refused none refused).1.trans none.symm
  cleared _ inside := absurd (none ▸ inside) List.not_mem_nil
  reached _ _ _ _ _ inside := absurd (none ▸ inside) List.not_mem_nil
  own _ inside := by
    have pulses : (comms.exec op).pulses = [] := exec_pulses none
    exact absurd (pulses ▸ inside) List.not_mem_nil

end Empty

/-! ## Runs -/

/-- Before the first call nothing is registered. -/
def start (attached : Bool) (regs : Regs) : Comms := ⟨attached, [], 1, regs⟩

/-- The masks are right after each call, and all calls are fine, exactly if all bits are masked at
first and no register call comes through: those that do unmask nothing. -/
theorem reaches_iff (attached : Bool) (regs : Regs) (ops : List Op) :
    ((∀ pre, pre <+: ops → (pre.foldl Comms.next (start attached regs)).Masked) ∧
        ∀ pre op, pre ++ [op] <+: ops → Fine (pre.foldl Comms.next (start attached regs)) op) ↔
      (∀ eventReg < PMPF0100_NUM_IRQ_REGS, ~~~regs (maskReg eventReg) = 0) ∧
        ∀ op ∈ ops, Refused attached op := by
  have empty : ∀ {comms : Comms} {ops : List Op}, comms.list = [] → comms.Masked →
      (((∀ pre, pre <+: ops → (pre.foldl Comms.next comms).Masked) ∧
        ∀ pre op, pre ++ [op] <+: ops → Fine (pre.foldl Comms.next comms) op) ↔
      ∀ op ∈ ops, Refused comms.attached op) := by
    intro comms ops none masked
    induction ops generalizing comms with
    | nil =>
      refine iff_of_true ⟨fun pre below => ?_, along_nil⟩ fun op inside =>
        absurd inside List.not_mem_nil
      rw [List.prefix_nil.mp below]
      exact masked
    | cons op ops ih =>
      constructor
      · rintro ⟨masks, fine⟩
        have first : Refused comms.attached op := by
          by_contra accepted
          exact not_masked_of_accepted none masked accepted
            (masks [op] (List.prefix_append [op] ops))
        obtain ⟨none', attached', same⟩ := next_of_refused none first
        have rest := (ih none' (masked_of_same none none' same masked)).mp
          ⟨fun pre below => masks (op :: pre) (List.cons_prefix_cons.mpr ⟨rfl, below⟩),
            (along_of_cons fine).2⟩
        rw [attached'] at rest
        exact List.forall_mem_cons.mpr ⟨first, rest⟩
      · intro all
        obtain ⟨first, rest⟩ := List.forall_mem_cons.mp all
        obtain ⟨none', attached', same⟩ := next_of_refused none first
        rw [← attached'] at rest
        obtain ⟨masks, fine⟩ := (ih none' (masked_of_same none none' same masked)).mpr rest
        refine ⟨fun pre below => ?_, along_cons (fine_of_refused none first) fine⟩
        cases pre with
        | nil => exact masked
        | cons op' pre =>
          obtain ⟨rfl, below'⟩ := List.cons_prefix_cons.mp below
          exact masks pre below'
  by_cases masked : (start attached regs).Masked
  · exact (empty rfl masked).trans (and_iff_right masked).symm
  · exact iff_of_false (fun both => masked (both.1 [] List.nil_prefix)) fun both => masked both.1

/-- All bits masked, and no event raised -/
def quiet : Regs := fun reg => if isStatus reg then 0 else 0xff

/-- A client registers for the bit 0 of the second register. -/
def one : Op := .register 1 1 ⟨none, fun _ => 0, none⟩ none

/-- The bit stays masked. -/
theorem reaches_broken :
    ¬∀ regs ops, (∀ eventReg < PMPF0100_NUM_IRQ_REGS, ~~~regs (maskReg eventReg) = (0 : Byte)) →
      (∀ pre, pre <+: ops → (pre.foldl Comms.next (start true regs)).Masked) ∧
        ∀ pre op, pre ++ [op] <+: ops → Fine (pre.foldl Comms.next (start true regs)) op := by
  intro all
  have masks := (all quiet [one] (by decide)).1 [one] (List.prefix_refl _)
  exact absurd (masks 1 (by decide)) (by decide)

end Mx6xBsp.Pmic
