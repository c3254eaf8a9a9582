import Mx6xBsp.Can.MiniCapture
import Mx6xBsp.Lib.Fields
import Mx6xBsp.Lib.Slots

/-!
# The mailboxes of the CAN driver

The controller flags a receive mailbox when a frame has come in, and a transmit mailbox when its
frame is out. A flag stays up until a one is written to it in `IFLAG1` or `IFLAG2`. The driver
(`canmx6x.c`) is interrupted, reads the flags and serves the mailboxes: `can_intr_pass` is one pass
of the loop in `can_intr`, and `can_drvr_transmit` starts a transmission from outside. For each
mailbox it is recorded what frames came in or went out (`came`), and which of them the driver
received or was done with (`kept`). A mailbox is a slot (`Driver.slot`): what the controller and
the driver do fills, takes and clears it. -/

namespace Mx6xBsp.Can

open Fields Mode Slots

def RAW_MODE_TX_NUM_MBOX : Nat := 1
def RAW_MODE_TX_IRQ : BitVec 32 := 0x01 <<< 2

def REC_CODE_FULL : BitVec 32 := 0x2

def CANDEV_RINGO_TX_ENABLED : BitVec 32 := 0x00000001

/-- A constant of the CAN library, too -/
structure Library extends Libcan where
  CAN_MSG_MID_UNKNOWN : BitVec 32

def Mode.numtx : Mode → Nat
  | CANDEV_MODE_IO => CAN_NUM_MAILBOX_USER / 2
  | CANDEV_MODE_RAW_FRAME => RAW_MODE_TX_NUM_MBOX

abbrev Mode.txmbxstart (mode : Mode) : Nat := CAN_FIRST_USER_MAILBOX_INDEX + mode.numrx

/-- A receive mailbox -/
abbrev Mode.Rx (mode : Mode) (i : Nat) : Prop :=
  CAN_FIRST_USER_MAILBOX_INDEX ≤ i ∧ i < mode.rxmbxend

/-- A transmit mailbox -/
abbrev Mode.Tx (mode : Mode) (i : Nat) : Prop :=
  mode.txmbxstart ≤ i ∧ i < mode.txmbxstart + mode.numtx

/-! ## Codes -/

def CanMsgObj.code (obj : CanMsgObj) : BitVec 4 := field obj.canmcf MSG_BUF_CODE_SHIFT 4

def CanMsgObj.coded (obj : CanMsgObj) (code : BitVec 32) : CanMsgObj :=
  { obj with canmcf := obj.canmcf &&& ~~~MSG_BUF_CODE_MASK ||| code <<< MSG_BUF_CODE_SHIFT }

theorem code_coded (obj : CanMsgObj) (code : BitVec 32) :
    (obj.coded code).code = field (code <<< MSG_BUF_CODE_SHIFT) MSG_BUF_CODE_SHIFT 4 := by
  change field (_ &&& _ ||| _) _ _ = _
  rw [field_or, field_clear (by decide)]
  exact BitVec.zero_or

theorem code_emptied (obj : CanMsgObj) : obj.emptied.code = 0x4 := by
  change field (_ &&& _ ||| _ ||| _ &&& _) _ _ = _
  rw [field_or, field_or, field_clear (by decide), field_clear (by decide)]
  rfl

/-- The control word while a transmit mailbox is filled -/
def can_mcf (mode : Mode) (canmcf : BitVec 32) (txmsg : CanMsg) : BitVec 32 :=
  let can_mcf := canmcf &&& ~~~(MSG_BUF_CODE_MASK ||| MSG_BUF_DLC_MASK)
  let can_mcf := can_mcf ||| TRANS_CODE_NOT_READY <<< MSG_BUF_CODE_SHIFT
  let can_mcf := can_mcf ||| txmsg.len.setWidth 32 <<< MSG_BUF_DLC_SHIFT
  match mode with
  | CANDEV_MODE_RAW_FRAME =>
    can_mcf &&& ~~~MB_CNT_IDE ||| if txmsg.is_extended_mid ≠ 0 then MB_CNT_IDE else 0
  | CANDEV_MODE_IO => can_mcf

theorem code_can_mcf (mode : Mode) (canmcf : BitVec 32) (txmsg : CanMsg) :
    field (can_mcf mode canmcf txmsg ||| (TRANS_CODE_TRANSMIT_ONCE &&& 0x0F) <<< 24)
      MSG_BUF_CODE_SHIFT 4 = 0xC := by
  have fits : (txmsg.len.setWidth 32 : BitVec 32).toNat < 2 ^ 8 := by
    rw [BitVec.toNat_setWidth_of_le (by decide)]
    exact txmsg.len.isLt
  have length : field ((txmsg.len.setWidth 32 : BitVec 32) <<< MSG_BUF_DLC_SHIFT)
      MSG_BUF_CODE_SHIFT 4 = 0 := by
    have low : (0xFF : BitVec 32).toNat = 2 ^ 8 - 1 := rfl
    rw [shift_eq_put low fits]
    exact field_put_apart low (.inl (by decide))
  have cleared : field (canmcf &&& ~~~(MSG_BUF_CODE_MASK ||| MSG_BUF_DLC_MASK))
      MSG_BUF_CODE_SHIFT 4 = 0 := field_clear (by decide)
  have ide : field (if txmsg.is_extended_mid ≠ 0 then MB_CNT_IDE else 0) MSG_BUF_CODE_SHIFT 4 =
      0 := by
    split <;> decide
  unfold can_mcf
  cases mode with
  | CANDEV_MODE_IO =>
    dsimp only
    rw [field_or, field_or, field_or, length, cleared]
    decide
  | CANDEV_MODE_RAW_FRAME =>
    dsimp only
    rw [field_or, field_or, field_and, field_or, field_or, length, cleared, ide]
    decide

/-! ## The controller and the driver -/

variable {lib : Library}

/-- `CANDEV_RINGO_INFO` with the flags of the devices, the registers of the flags, and what came in
or went out of each mailbox, and was received or done with -/
structure Driver (lib : Library) where
  info : DevInfo lib.toLibcan
  dflags : Nat → BitVec 32
  transmitted_frames : BitVec 32
  iflag1 : BitVec 32
  iflag2 : BitVec 32
  came : Nat → List CanMsgObj
  kept : Nat → List CanMsgObj

/-- What the controller does: a frame comes in, or one is out. -/
inductive Hw
  | arrive (mbxid : Nat) (obj : CanMsgObj)
  | complete (mbxid : Nat)

namespace Driver

variable (s : Driver lib)

def flagged (i : Nat) : Bool := if i < 32 then s.iflag1.getLsbD i else s.iflag2.getLsbD (i - 32)

/-- A frame of this mailbox is to be sent. -/
abbrev Outstanding (i : Nat) : Prop := (s.info.canmsg i).code = 0xC

abbrev Enabled (i : Nat) : Prop := s.dflags i &&& CANDEV_RINGO_TX_ENABLED ≠ 0

/-- The mailbox as a slot -/
def slot (i : Nat) : Slot CanMsgObj where
  flag := s.flagged i
  full := (s.info.canmsg i).code ≠ 0x4
  value := s.info.canmsg i
  came := s.came i
  kept := s.kept i

/-- A mailbox holds something new, and its flag goes up. What was still flagged there, and had not
been read out, is gone. -/
def fill (i : Nat) (obj : CanMsgObj) : Driver lib :=
  { s with
    info := { s.info with canmsg := Function.update s.info.canmsg i obj }
    came := Function.update s.came i ((s.slot i).fill obj).came
    iflag1 := if i < 32 then s.iflag1 ||| BitVec.twoPow 32 i else s.iflag1
    iflag2 := if i < 32 then s.iflag2 else s.iflag2 ||| BitVec.twoPow 32 (i - 32) }

/-- Frames come in at receive mailboxes only, and only what was to be sent is out. -/
def raise (s : Driver lib) : Hw → Driver lib
  | .arrive i obj =>
    if s.info.mode.Rx i then s.fill i (obj.coded REC_CODE_FULL) else s
  | .complete i =>
    if s.info.mode.Tx i ∧ s.Outstanding i then
      s.fill i ((s.info.canmsg i).coded TRANS_CODE_NOT_READY)
    else s

def raises (s : Driver lib) (events : List Hw) : Driver lib := events.foldl raise s

/-- Ones are written to `RINGO_CANIFLAG1`. -/
def out1 (flags : BitVec 32) : Driver lib := { s with iflag1 := s.iflag1 &&& ~~~flags }

/-- Ones are written to `RINGO_CANIFLAG2`. -/
def out2 (flags : BitVec 32) : Driver lib := { s with iflag2 := s.iflag2 &&& ~~~flags }

def setDevice (d : Nat) (dev : Device lib.toLibcan) : Driver lib :=
  { s with info := { s.info with devlist := Function.update s.info.devlist d dev } }

/-! ## Receiving -/

/-- The next free receive message, or the oldest. There is none if both queues are empty. -/
def rxmsg (mbxid : Nat) : Option CanMsg × Driver lib :=
  let dev := s.info.devlist mbxid
  match lib.dequeue_element dev.free_queue with
  | some (rxmsg, free) => (some rxmsg, s.setDevice mbxid ⟨free, dev.msg_queue⟩)
  | none =>
    let s := { s with info := { s.info with sw_receive_q_full := s.info.sw_receive_q_full + 1 } }
    match lib.dequeue_element dev.msg_queue with
    | some (rxmsg, msg) => (some rxmsg, s.setDevice mbxid ⟨dev.free_queue, msg⟩)
    | none => (none, s)

/-- What is in a mailbox has been read out, and it is set to empty. -/
def emptied (mbxid : Nat) : Driver lib :=
  { s with
    info := { s.info with
      canmsg := Function.update s.info.canmsg mbxid (s.info.canmsg mbxid).emptied }
    kept := Function.update s.kept mbxid (s.kept mbxid ++ [s.info.canmsg mbxid]) }

/-- The message is added to the receive queue. -/
def received (mbxid : Nat) (rxmsg : CanMsg) : Driver lib :=
  let dev := s.info.devlist mbxid
  { s with
    info := s.info.setDevice mbxid dev.free_queue (lib.queue_element dev.msg_queue rxmsg) }

/-! ## Transmitting -/

def can_ringo_tx (mbxid : Nat) (txmsg : CanMsg) : Driver lib :=
  let info := s.info
  let obj := info.canmsg mbxid
  let canmid :=
    match info.mode with
    | CANDEV_MODE_RAW_FRAME => txmsg.mid
    | CANDEV_MODE_IO => if txmsg.mid ≠ lib.CAN_MSG_MID_UNKNOWN then txmsg.mid else obj.canmid
  let obj :=
    { canmcf := can_mcf info.mode obj.canmcf txmsg ||| (TRANS_CODE_TRANSMIT_ONCE &&& 0x0F) <<< 24
      canmid := canmid
      canmdl := if info.has INFO_FLAGS_ENDIAN_SWAP then ENDIAN_SWAP32 txmsg.dat0 else txmsg.dat0
      canmdh := if info.has INFO_FLAGS_ENDIAN_SWAP then ENDIAN_SWAP32 txmsg.dat1 else txmsg.dat1 }
  let canmsg := Function.update info.canmsg mbxid obj
  -- Errata ERR005829 step 8
  let first :=
    { canmsg CAN_FIRST_MAILBOX_INDEX with canmcf := (TRANS_CODE_NOT_READY &&& 0x0F) <<< 24 }
  { s with info := { info with
    canmsg := Function.update canmsg CAN_FIRST_MAILBOX_INDEX first } }

/-- The next message is sent and its element is free again. -/
def transmitNext (mbxid : Nat) (txmsg : CanMsg) (msg : lib.Queue) : Driver lib :=
  ((s.setDevice mbxid ⟨(s.info.devlist mbxid).free_queue, msg⟩).can_ringo_tx mbxid txmsg).setDevice
    mbxid ⟨lib.queue_element (s.info.devlist mbxid).free_queue txmsg, msg⟩

def setFlags (mbxid : Nat) (flags : BitVec 32) : Driver lib :=
  { s with dflags := Function.update s.dflags mbxid flags }

def can_drvr_transmit (d : Nat) : Driver lib :=
  if s.Enabled d then s
  else
    match lib.dequeue_element (s.info.devlist d).msg_queue with
    | none => s
    | some (txmsg, msg) =>
      (s.setFlags d (s.dflags d ||| CANDEV_RINGO_TX_ENABLED)).transmitNext d txmsg msg

/-- Transmit mailbox processing: the message is out. -/
def transmitted (mbxid : Nat) : Driver lib :=
  let s :=
    { s with
      transmitted_frames := s.transmitted_frames + 1
      kept := Function.update s.kept mbxid (s.kept mbxid ++ [s.info.canmsg mbxid]) }
  match lib.dequeue_element (s.info.devlist mbxid).msg_queue with
  | some (txmsg, msg) => s.transmitNext mbxid txmsg msg
  | none => s.setFlags mbxid (s.dflags mbxid &&& ~~~CANDEV_RINGO_TX_ENABLED)

end Driver

/-! ## Mailboxes as slots -/

theorem Mode.Rx.lt {mode : Mode} {i : Nat} (rx : mode.Rx i) : i < 32 :=
  Nat.lt_of_lt_of_le rx.2 (rxmbxend_le mode)

theorem Mode.Tx.lt {mode : Mode} {i : Nat} (tx : mode.Tx i) : i < 64 := by
  have inside := tx.2
  cases mode <;> simp [Mode.txmbxstart, Mode.numrx, Mode.numtx, CAN_FIRST_USER_MAILBOX_INDEX,
    CAN_NUM_MAILBOX_USER, RAW_MODE_RX_NUM_MBOX, RAW_MODE_TX_NUM_MBOX] at inside <;> omega

theorem Mode.Tx.ne {mode : Mode} {i j : Nat} (tx : mode.Tx i) (rx : mode.Rx j) : i ≠ j :=
  (Nat.lt_of_lt_of_le rx.2 tx.1).ne'

theorem Mode.Tx.ne_first {mode : Mode} {i : Nat} (tx : mode.Tx i) : i ≠ CAN_FIRST_MAILBOX_INDEX :=
  (Nat.lt_of_lt_of_le (Nat.succ_pos _) ((Nat.le_add_right _ _).trans tx.1)).ne'

theorem Mode.Rx.ne_first {mode : Mode} {i : Nat} (rx : mode.Rx i) : i ≠ CAN_FIRST_MAILBOX_INDEX :=
  (Nat.lt_of_lt_of_le (Nat.succ_pos _) rx.1).ne'

namespace Driver

variable {s : Driver lib} {i j : Nat} {e : Hw} {es : List Hw}

theorem flagged_fill (obj : CanMsgObj) (room : i < 64) (j : Nat) :
    (s.fill i obj).flagged j = (decide (i = j) || s.flagged j) := by
  unfold flagged fill
  dsimp only
  by_cases low : i < 32 <;> by_cases low' : j < 32 <;>
    simp [low, low', BitVec.getLsbD_or, BitVec.getLsbD_twoPow] <;> grind

theorem slot_fill {obj : CanMsgObj} (room : i < 64) (full : obj.code ≠ 0x4) :
    (s.fill i obj).slot i = (s.slot i).fill obj := by
  have up := flagged_fill (s := s) obj room i
  unfold slot
  rw [up]
  simp [fill, Slot.fill, slot]
  exact full

theorem slot_fill_of_ne {obj : CanMsgObj} (room : i < 64) (other : j ≠ i) :
    (s.fill i obj).slot j = s.slot j := by
  unfold slot
  rw [flagged_fill obj room]
  simp [fill, other, other.symm]

theorem flagged_out1 (flags : BitVec 32) (j : Nat) :
    (s.out1 flags).flagged j = (s.flagged j && !(decide (j < 32) && flags.getLsbD j)) := by
  unfold flagged out1
  by_cases low : j < 32 <;> simp [low]

theorem flagged_out2 (flags : BitVec 32) (j : Nat) :
    (s.out2 flags).flagged j =
      (s.flagged j && !(decide (32 ≤ j) && flags.getLsbD (j - 32))) := by
  unfold flagged out2
  by_cases low : j < 32
  · simp [low]
  · rw [if_neg low, if_neg low, decide_eq_true (Nat.le_of_not_lt low)]
    by_cases inside : j - 32 < 32
    · simp [inside]
    · rw [BitVec.getLsbD_of_ge _ _ (Nat.le_of_not_lt inside),
        BitVec.getLsbD_of_ge _ _ (Nat.le_of_not_lt inside)]
      rfl

theorem slot_out1_of_not {flags : BitVec 32} (other : ¬(j < 32 ∧ flags.getLsbD j = true)) :
    (s.out1 flags).slot j = s.slot j := by
  have same : (s.out1 flags).flagged j = s.flagged j := by
    rw [flagged_out1]
    simp
    grind
  unfold slot
  rw [same]
  rfl

theorem slot_out1 {flags : BitVec 32} (low : j < 32) (here : flags.getLsbD j = true) :
    (s.out1 flags).slot j = (s.slot j).clear := by
  have down : (s.out1 flags).flagged j = false := by
    rw [flagged_out1]
    simp [low, here]
  unfold slot
  rw [down]
  rfl

theorem slot_out2_of_not {flags : BitVec 32} (other : ¬(32 ≤ j ∧ flags.getLsbD (j - 32) = true)) :
    (s.out2 flags).slot j = s.slot j := by
  have same : (s.out2 flags).flagged j = s.flagged j := by
    rw [flagged_out2]
    simp
    grind
  unfold slot
  rw [same]
  rfl

theorem slot_out2 {flags : BitVec 32} (high : 32 ≤ j) (here : flags.getLsbD (j - 32) = true) :
    (s.out2 flags).slot j = (s.slot j).clear := by
  have down : (s.out2 flags).flagged j = false := by
    rw [flagged_out2]
    simp [high, here]
  unfold slot
  rw [down]
  rfl

/-! ## What the controller does -/

/-- It does nothing to the mailboxes or fills one of them: a frame has come in at a receive mailbox,
or what was to be sent is out. -/
theorem raise_inv (s : Driver lib) (e : Hw) : s.raise e = s ∨
    ∃ i obj, i < 64 ∧ obj.code ≠ 0x4 ∧ s.raise e = s.fill i obj ∧
      ((∃ frame, e = .arrive i frame ∧ s.info.mode.Rx i) ∨
        e = .complete i ∧ s.info.mode.Tx i ∧ s.Outstanding i) := by
  cases e with
  | arrive i frame =>
    by_cases rx : s.info.mode.Rx i
    · refine .inr ⟨i, _, Nat.lt_trans rx.lt (by decide), ?_, if_pos rx, .inl ⟨frame, rfl, rx⟩⟩
      rw [code_coded]
      decide
    · exact .inl (if_neg rx)
  | complete i =>
    by_cases out : s.info.mode.Tx i ∧ s.Outstanding i
    · refine .inr ⟨i, _, out.1.lt, ?_, if_pos out, .inr ⟨rfl, out⟩⟩
      rw [code_coded]
      decide
    · exact .inl (if_neg out)

theorem raise_cases (s : Driver lib) (i : Nat) (e : Hw) :
    (s.raise e).slot i = s.slot i ∨ ∃ obj, (s.raise e).slot i = (s.slot i).fill obj := by
  rcases s.raise_inv e with same | ⟨j, obj, room, full, filled, _⟩
  · rw [same]
    exact .inl rfl
  · rw [filled]
    rcases eq_or_ne i j with rfl | other
    · exact .inr ⟨obj, slot_fill room full⟩
    · exact .inl (slot_fill_of_ne room other)

theorem raise_keeps (s : Driver lib) (e : Hw) : (s.raise e).info.mode = s.info.mode ∧
    (s.raise e).info.devlist = s.info.devlist ∧ (s.raise e).dflags = s.dflags := by
  unfold raise
  cases e <;> dsimp only <;> split <;> exact ⟨rfl, rfl, rfl⟩

theorem raises_keeps (s : Driver lib) (es : List Hw) : (s.raises es).info.mode = s.info.mode ∧
    (s.raises es).info.devlist = s.info.devlist ∧ (s.raises es).dflags = s.dflags := by
  induction es generalizing s with
  | nil => exact ⟨rfl, rfl, rfl⟩
  | cons e es ih =>
    obtain ⟨mode, devlist, dflags⟩ := ih (s.raise e)
    obtain ⟨mode', devlist', dflags'⟩ := raise_keeps s e
    exact ⟨mode.trans mode', devlist.trans devlist', dflags.trans dflags'⟩

theorem raises_slot {P : Slot CanMsgObj → Prop} (keeps : ∀ {t obj}, P t → P (t.fill obj))
    (holds : P (s.slot i)) (es : List Hw) : P ((s.raises es).slot i) := by
  induction es generalizing s with
  | nil => exact holds
  | cons e es ih =>
    apply ih (s := s.raise e)
    rcases raise_cases s i e with same | ⟨obj, filled⟩
    · rw [same]
      exact holds
    · rw [filled]
      exact keeps holds

/-- A frame comes in at the mailbox. -/
def Hits (i : Nat) (es : List Hw) : Prop := ∃ obj, Hw.arrive i obj ∈ es

theorem raise_arrive (rx : s.info.mode.Rx i) (obj : CanMsgObj) :
    (s.raise (.arrive i obj)).slot i = (s.slot i).fill (obj.coded REC_CODE_FULL) := by
  unfold raise
  dsimp only
  rw [if_pos rx]
  apply slot_fill (Nat.lt_trans rx.lt (by decide))
  rw [code_coded]
  decide

theorem raise_rx_of_not (rx : s.info.mode.Rx i) (miss : ∀ obj, e ≠ .arrive i obj) :
    (s.raise e).slot i = s.slot i := by
  rcases s.raise_inv e with same | ⟨j, obj, room, _, filled, which⟩
  · rw [same]
  · rw [filled]
    apply slot_fill_of_ne room
    rintro rfl
    rcases which with ⟨frame, here, _⟩ | ⟨_, tx, _⟩
    · exact miss frame here
    · exact tx.ne rx rfl

theorem raises_miss (rx : s.info.mode.Rx i) (miss : ¬Hits i es) :
    (s.raises es).slot i = s.slot i := by
  induction es generalizing s with
  | nil => rfl
  | cons e es ih =>
    have first : (s.raise e).slot i = s.slot i := by
      apply raise_rx_of_not rx
      rintro obj rfl
      exact miss ⟨obj, List.mem_cons_self⟩
    have rx' : (s.raise e).info.mode.Rx i := by
      rw [(raise_keeps s e).1]
      exact rx
    rw [← first]
    exact ih rx' fun ⟨obj, mem⟩ => miss ⟨obj, List.mem_cons_of_mem e mem⟩

theorem raises_up (up : (s.slot i).flag = true) (es : List Hw) :
    ((s.raises es).slot i).flag = true :=
  raises_slot (P := fun t => t.flag = true) (fun _ => rfl) up es

theorem raises_hit (rx : s.info.mode.Rx i) (hit : Hits i es) :
    ((s.raises es).slot i).flag = true ∧
      ((s.slot i).Taken → ((s.raises es).slot i).Sound) := by
  induction es generalizing s with
  | nil =>
    obtain ⟨obj, mem⟩ := hit
    cases mem
  | cons e es ih =>
    have rx' : (s.raise e).info.mode.Rx i := by
      rw [(raise_keeps s e).1]
      exact rx
    by_cases here : ∃ obj, e = .arrive i obj
    · obtain ⟨obj, rfl⟩ := here
      have filled := raise_arrive rx obj
      refine ⟨raises_up (by rw [filled]; rfl) es, fun taken => ?_⟩
      have sound : ((s.raise (.arrive i obj)).slot i).Sound := by
        rw [filled]
        exact taken.fill
      exact raises_slot Slot.Sound.fill sound es
    · have later : Hits i es := by
        obtain ⟨obj, mem⟩ := hit
        rcases List.mem_cons.mp mem with first | later
        · exact absurd ⟨obj, first.symm⟩ here
        · exact ⟨obj, later⟩
      have same := raise_rx_of_not rx fun obj first => here ⟨obj, first⟩
      obtain ⟨up, sound⟩ := ih rx' later
      rw [same] at sound
      exact ⟨up, sound⟩

/-! ### Transmit mailboxes -/

theorem raise_tx_of_not (tx : s.info.mode.Tx i) (quiet : ¬(s.Outstanding i ∧ e = .complete i)) :
    (s.raise e).slot i = s.slot i := by
  rcases s.raise_inv e with same | ⟨j, obj, room, _, filled, which⟩
  · rw [same]
  · rw [filled]
    apply slot_fill_of_ne room
    rintro rfl
    rcases which with ⟨_, _, rx⟩ | ⟨here, _, out⟩
    · exact tx.ne rx rfl
    · exact quiet ⟨out, here⟩

theorem outstanding_iff : s.Outstanding i ↔ (s.slot i).value.code = 0xC := Iff.rfl

theorem raises_tx_of_not (tx : s.info.mode.Tx i)
    (quiet : ¬(s.Outstanding i ∧ Hw.complete i ∈ es)) : (s.raises es).slot i = s.slot i := by
  induction es generalizing s with
  | nil => rfl
  | cons e es ih =>
    have first : (s.raise e).slot i = s.slot i := by
      apply raise_tx_of_not tx
      rintro ⟨out, rfl⟩
      exact quiet ⟨out, List.mem_cons_self⟩
    have tx' : (s.raise e).info.mode.Tx i := by
      rw [(raise_keeps s e).1]
      exact tx
    rw [← first]
    apply ih tx'
    rintro ⟨out, mem⟩
    rw [outstanding_iff, first] at out
    exact quiet ⟨out, List.mem_cons_of_mem e mem⟩

theorem raises_complete (tx : s.info.mode.Tx i) (out : s.Outstanding i)
    (here : Hw.complete i ∈ es) :
    ¬(s.raises es).Outstanding i ∧ ((s.raises es).slot i).flag = true := by
  induction es generalizing s with
  | nil => cases here
  | cons e es ih =>
    have tx' : (s.raise e).info.mode.Tx i := by
      rw [(raise_keeps s e).1]
      exact tx
    rcases eq_or_ne e (.complete i) with rfl | other
    · have code : ((s.info.canmsg i).coded TRANS_CODE_NOT_READY).code = 0x8 := by
        rw [code_coded]
        decide
      have filled : (s.raise (.complete i)).slot i =
          (s.slot i).fill ((s.info.canmsg i).coded TRANS_CODE_NOT_READY) := by
        unfold raise
        dsimp only
        rw [if_pos ⟨tx, out⟩]
        apply slot_fill tx.lt
        rw [code]
        decide
      have idle : ¬(s.raise (.complete i)).Outstanding i := by
        rw [outstanding_iff, filled]
        exact fun same => absurd (code.symm.trans same) (by decide)
      have rest : ((s.raise (.complete i)).raises es).slot i = (s.raise (.complete i)).slot i :=
        raises_tx_of_not tx' fun again => idle again.1
      change ¬((s.raise (.complete i)).raises es).Outstanding i ∧ _
      rw [outstanding_iff, rest]
      refine ⟨idle, ?_⟩
      change (((s.raise (.complete i)).raises es).slot i).flag = true
      rw [rest, filled]
      rfl
    · have same := raise_tx_of_not tx fun first => other first.2
      have later : Hw.complete i ∈ es := (List.mem_cons.mp here).resolve_left other.symm
      refine ih tx' ?_ later
      rw [outstanding_iff, same]
      exact out

/-- A transmit mailbox is not in use, has a frame to be sent, or has one that is out. -/
inductive Phase (enabled : Prop) (t : Slot CanMsgObj) : Prop
  | idle : ¬enabled → t.value.code ≠ 0xC → t.flag = false → Phase enabled t
  | sending : enabled → t.value.code = 0xC → t.flag = false → Phase enabled t
  | sent : enabled → t.value.code ≠ 0xC → t.flag = true → Phase enabled t

/-- Of a transmit mailbox nothing is lost, and it is enabled exactly while it is in use. -/
structure TxSound (s : Driver lib) (i : Nat) : Prop where
  sound : (s.slot i).Sound
  phase : Phase (s.Enabled i) (s.slot i)

theorem enabled_raises (s : Driver lib) (es : List Hw) (i : Nat) :
    (s.raises es).Enabled i ↔ s.Enabled i := by
  unfold Enabled
  rw [(raises_keeps s es).2.2]

theorem TxSound.raises (sound : s.TxSound i) (tx : s.info.mode.Tx i) (es : List Hw) :
    (s.raises es).TxSound i := by
  refine ⟨raises_slot Slot.Sound.fill sound.sound es, ?_⟩
  by_cases out : s.Outstanding i ∧ Hw.complete i ∈ es
  · obtain ⟨idle, up⟩ := raises_complete tx out.1 out.2
    rcases sound.phase with ⟨_, idle', _⟩ | ⟨enabled, _, _⟩ | ⟨_, idle', _⟩
    · exact absurd out.1 idle'
    · exact .sent ((enabled_raises s es i).mpr enabled) idle up
    · exact absurd out.1 idle'
  · rw [raises_tx_of_not tx out]
    have enabled := enabled_raises s es i
    rcases sound.phase with ⟨no, code, flag⟩ | ⟨yes, code, flag⟩ | ⟨yes, code, flag⟩
    · exact .idle (enabled.not.mpr no) code flag
    · exact .sending (enabled.mpr yes) code flag
    · exact .sent (enabled.mpr yes) code flag

/-! ## What the driver does -/

theorem slot_emptied (s : Driver lib) (i : Nat) :
    (s.emptied i).slot i = (s.slot i).take (s.info.canmsg i).emptied := by
  have code := code_emptied (s.info.canmsg i)
  simp [slot, emptied, flagged, Slot.take, Slot.keep, code]

theorem slot_emptied_of_ne (other : j ≠ i) : (s.emptied i).slot j = s.slot j := by
  simp [slot, emptied, flagged, other]

theorem rxmsg_keeps (s : Driver lib) (i : Nat) :
    ((s.rxmsg i).2.slot = s.slot ∧ (s.rxmsg i).2.dflags = s.dflags) ∧
      (s.rxmsg i).2.info.mode = s.info.mode := by
  unfold rxmsg
  dsimp only
  split
  · exact ⟨⟨rfl, rfl⟩, rfl⟩
  · split <;> exact ⟨⟨rfl, rfl⟩, rfl⟩

theorem rxmsg_congr {t : Driver lib} (same : t.info.devlist = s.info.devlist) (i : Nat) :
    (t.rxmsg i).1 = (s.rxmsg i).1 := by
  unfold rxmsg
  rw [same]
  dsimp only
  split
  · rfl
  · split <;> rfl

theorem slot_transmitNext (s : Driver lib) (first : i ≠ CAN_FIRST_MAILBOX_INDEX) (txmsg : CanMsg)
    (msg : lib.Queue) : ∃ obj : CanMsgObj, obj.code = 0xC ∧
      (s.transmitNext i txmsg msg).slot i = { s.slot i with value := obj, full := true } := by
  have mcf := code_can_mcf s.info.mode (s.info.canmsg i).canmcf txmsg
  have code : ((s.transmitNext i txmsg msg).info.canmsg i).code = 0xC := by
    simpa [transmitNext, can_ringo_tx, setDevice, first, CanMsgObj.code] using mcf
  have full : ((s.transmitNext i txmsg msg).slot i).full = true := by
    simp [slot, code]
  refine ⟨_, code, ?_⟩
  rw [← full]
  rfl

theorem slot_transmitNext_of_ne (other : j ≠ i) (first : j ≠ CAN_FIRST_MAILBOX_INDEX)
    (txmsg : CanMsg) (msg : lib.Queue) : (s.transmitNext i txmsg msg).slot j = s.slot j := by
  simp [transmitNext, can_ringo_tx, setDevice, slot, flagged, other, first]

theorem enabled_setFlags (s : Driver lib) (i : Nat) :
    (s.setFlags i (s.dflags i ||| CANDEV_RINGO_TX_ENABLED)).Enabled i ∧
      ¬(s.setFlags i (s.dflags i &&& ~~~CANDEV_RINGO_TX_ENABLED)).Enabled i := by
  simp only [Enabled, setFlags, Function.update_self]
  refine ⟨?_, fun on => on ?_⟩
  · rw [Masks.or_and_self]
    decide
  · rw [BitVec.and_assoc, BitVec.not_and_self]
    exact BitVec.and_zero

theorem TxSound.can_drvr_transmit (sound : s.TxSound i) (tx : s.info.mode.Tx i) (d : Nat) :
    (s.can_drvr_transmit d).TxSound i := by
  unfold Driver.can_drvr_transmit
  split
  case isTrue => exact sound
  case isFalse off =>
    split
    case h_1 => exact sound
    case h_2 txmsg msg _ =>
      rcases eq_or_ne i d with rfl | other
      · rcases sound.phase with ⟨_, _, down⟩ | ⟨on, _, _⟩ | ⟨on, _, _⟩
        · obtain ⟨obj, code, sent⟩ := slot_transmitNext
            (s.setFlags i (s.dflags i ||| CANDEV_RINGO_TX_ENABLED)) tx.ne_first txmsg msg
          refine ⟨?_, ?_⟩
          · rw [sent]
            exact sound.sound.replace down obj true
          · rw [sent]
            exact .sending (enabled_setFlags s i).1 code down
        · exact absurd on off
        · exact absurd on off
      · have same := slot_transmitNext_of_ne
          (s := s.setFlags d (s.dflags d ||| CANDEV_RINGO_TX_ENABLED)) other tx.ne_first txmsg msg
        refine ⟨?_, ?_⟩
        · rw [same]
          exact sound.sound
        · have flags : (s.setFlags d (s.dflags d ||| CANDEV_RINGO_TX_ENABLED)).dflags i =
              s.dflags i := Function.update_of_ne other _ _
          rw [same]
          change Phase ((s.setFlags d (s.dflags d ||| CANDEV_RINGO_TX_ENABLED)).dflags i &&& _ ≠ 0) _
          rw [flags]
          exact sound.phase

theorem slot_can_drvr_transmit_of_ne {d : Nat} (other : i ≠ d)
    (first : i ≠ CAN_FIRST_MAILBOX_INDEX) : (s.can_drvr_transmit d).slot i = s.slot i := by
  unfold can_drvr_transmit
  split
  · rfl
  · split
    · rfl
    · exact slot_transmitNext_of_ne other first _ _

theorem transmitted_of_ne (other : j ≠ i) (first : j ≠ CAN_FIRST_MAILBOX_INDEX) :
    (s.transmitted i).slot j = s.slot j ∧ (s.transmitted i).dflags j = s.dflags j := by
  have kept : Function.update s.kept i (s.kept i ++ [s.info.canmsg i]) j = s.kept j :=
    Function.update_of_ne other _ _
  unfold transmitted
  dsimp only
  split
  · rw [slot_transmitNext_of_ne other first]
    refine ⟨?_, rfl⟩
    simp only [slot, kept]
    rfl
  · refine ⟨?_, Function.update_of_ne other _ _⟩
    simp only [slot, setFlags, kept]
    rfl

/-- When the flag of a frame that is out has been cleared, transmit mailbox processing makes good
for it: the next message is sent, or the mailbox is not in use any more. -/
theorem TxSound.transmitted {t : Driver lib} (sound : t.TxSound i)
    (up : (t.slot i).flag = true) (cleared : s.slot i = (t.slot i).clear)
    (dflags : s.dflags = t.dflags) (first : i ≠ CAN_FIRST_MAILBOX_INDEX) :
    (s.transmitted i).TxSound i ∧ ((s.transmitted i).slot i).flag = false ∧
      ((s.transmitted i).Outstanding i ↔
        (lib.dequeue_element (s.info.devlist i).msg_queue).isSome = true) := by
  rcases sound.phase with ⟨_, _, down⟩ | ⟨_, _, down⟩ | ⟨enabled, quiet, _⟩
  · exact absurd (down.symm.trans up) Bool.false_ne_true
  · exact absurd (down.symm.trans up) Bool.false_ne_true
  rw [Enabled, ← dflags] at enabled
  have done := sound.sound.clear_keep up
  rw [← cleared] at done
  have down : (s.slot i).flag = false := by
    rw [cleared]
    rfl
  have code : (s.slot i).value.code ≠ 0xC := by
    rw [cleared]
    exact quiet
  have kept : ∀ frames : BitVec 32,
      slot { s with
        transmitted_frames := frames
        kept := Function.update s.kept i (s.kept i ++ [s.info.canmsg i]) } i =
        (s.slot i).keep := by
    intro frames
    simp [slot, Slot.keep, flagged]
  unfold Driver.transmitted
  dsimp only
  split
  case h_1 txmsg msg found =>
    obtain ⟨obj, sending, sent⟩ := slot_transmitNext
      { s with
        transmitted_frames := s.transmitted_frames + 1
        kept := Function.update s.kept i (s.kept i ++ [s.info.canmsg i]) } first txmsg msg
    rw [kept] at sent
    refine ⟨⟨?_, ?_⟩, ?_, ?_⟩
    · rw [sent]
      exact done.replace down obj true
    · rw [sent]
      exact .sending enabled sending down
    · rw [sent]
      exact down
    · rw [outstanding_iff, sent, found]
      exact iff_of_true sending rfl
  case h_2 found =>
    refine ⟨⟨?_, ?_⟩, down, ?_⟩
    · change Slot.Sound (slot { s with
        transmitted_frames := s.transmitted_frames + 1
        kept := Function.update s.kept i (s.kept i ++ [s.info.canmsg i]) } i)
      rw [kept]
      exact done
    · exact .idle (enabled_setFlags s i).2 code down
    · rw [found]
      exact iff_of_false code Bool.false_ne_true

end Driver

end Mx6xBsp.Can
