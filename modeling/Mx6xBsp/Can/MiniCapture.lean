import Mx6xBsp.Can.MiniDriver

/-!
# What the CAN mini-driver captures

`mini_can` is called with a state of the boot. `MDRIVER_INIT` sets its data up; every later call but
the last one takes the messages of all flagged receive mailboxes to the end of its data, and is
done with the mailboxes that have been sent. A `Capture` is the data and the device, with the places
the messages went to and the messages whose flags have been cleared. The data have no end for the
mini-driver; `captured_iff` tells when they end in time.
-/

namespace Mx6xBsp.Can

def NUM_TX_MAILBOX : Nat := CAN_NUM_MAILBOX_USER / 2
def TX_INIT_MAILBOX : Nat := NUM_RX_MAILBOX + 1
def CAN_FIRST_MAILBOX_INDEX : Nat := 0
def MINI_DATA_BUF_SIZE : Nat := 64 * 1024

def MB_CNT_RTR : BitVec 32 := 0x00100000
def MB_CNT_SRR : BitVec 32 := 0x00400000
def TRANS_CODE_NOT_READY : BitVec 32 := 0x8
def TRANS_CODE_TRANSMIT_ONCE : BitVec 32 := 0xC

def RINGO_CANCTRL_BOFFMSK : BitVec 32 := 0x01 <<< 15
def RINGO_CANCTRL_ERRMASK : BitVec 32 := 0x01 <<< 14
def RINGO_CANCTRL_TWRNMSK : BitVec 32 := 0x01 <<< 11
def RINGO_CANCTRL_RWRNMSK : BitVec 32 := 0x01 <<< 10

def MB_CNT_CODE (x : BitVec 32) : BitVec 32 := (x &&& 0x0F) <<< 24
def MB_CNT_LENGTH (x : BitVec 32) : BitVec 32 := (x &&& 0x0F) <<< 16
def MAILBOX (i : Nat) : BitVec 32 := BitVec.twoPow 32 i
def SET_MEM32 (mem mask data : BitVec 32) : BitVec 32 := mem &&& ~~~mask ||| data &&& mask

/-- The sizes of `minican_data_t` and `can_msg_obj_t` -/
def sizeofMinican : Nat := 32
def sizeofMsgObj : Nat := 16

/-- `minican_data_t`; the mappings of the one device are left out. -/
structure MiniData extends Minican where
  nstartup : BitVec 16
  nstartupp : BitVec 16
  nstartupf : BitVec 16
  nkernel : BitVec 16
  nprocess : BitVec 16
  tx_enabled : BitVec 32

/-- The flags, the interrupts that are enabled, and the mailboxes -/
structure Flexcan where
  iflag1 : BitVec 32
  iflag2 : BitVec 32
  imask1 : BitVec 32
  imask2 : BitVec 32
  ctrl : BitVec 32
  canmem : Nat → CanMsgObj

/-- The mini-driver and its device. `spare` is set once it is not called any more, `pending` are the
messages as they came to the receive mailboxes, `stores` the places behind the data that have been
written, and `cleared` the messages whose flags have been cleared. -/
structure Capture where
  mdata : MiniData
  hw : Flexcan
  spare : Bool
  pending : Nat → CanMsgObj
  stores : List Nat
  cleared : List CanMsgObj

/-- `minican_msg_t` -/
structure MinicanMsg where
  id : BitVec 32
  is_extended : Bool
  len : BitVec 32
  dat : Nat → BitVec 8

/-! ## Start -/

def pack_msg_id (msg : MinicanMsg) : BitVec 32 :=
  if msg.is_extended then msg.id &&& 0x1FFFFFFF else (msg.id &&& 0x7FF) <<< 18

def setCode (obj : CanMsgObj) (code : BitVec 32) : CanMsgObj :=
  { obj with canmcf := SET_MEM32 obj.canmcf MSG_BUF_CODE_MASK (MB_CNT_CODE code) }

/-- `can_tx`, once the bus is idle -/
def can_tx (hw : Flexcan) (msg : MinicanMsg) (mailbox : Nat) : Flexcan :=
  let canmcf := (hw.canmem mailbox).canmcf
  let canmcf := SET_MEM32 canmcf MSG_BUF_CODE_MASK (MB_CNT_CODE TRANS_CODE_NOT_READY)
  let canmcf := SET_MEM32 canmcf MB_CNT_RTR 0
  let canmcf := SET_MEM32 canmcf MB_CNT_SRR 0
  let canmcf := SET_MEM32 canmcf MB_CNT_IDE (if msg.is_extended then MB_CNT_IDE else 0)
  let canmcf := SET_MEM32 canmcf MSG_BUF_DLC_MASK (MB_CNT_LENGTH msg.len)
  let obj : CanMsgObj :=
    { canmcf
      canmid := pack_msg_id msg
      canmdl := msg.dat 0 ++ msg.dat 1 ++ msg.dat 2 ++ msg.dat 3
      canmdh := msg.dat 4 ++ msg.dat 5 ++ msg.dat 6 ++ msg.dat 7 }
  let canmem := Function.update hw.canmem mailbox (setCode obj TRANS_CODE_TRANSMIT_ONCE)
  { hw with
    canmem := Function.update canmem CAN_FIRST_MAILBOX_INDEX
      (setCode (canmem CAN_FIRST_MAILBOX_INDEX) TRANS_CODE_NOT_READY) }

/-- `MDRIVER_INIT`, after `init_hw` has left the device as `hw` -/
def mini_can_init (mcanmsg : Nat → CanMsgObj) (hw : Flexcan) (msgs : List MinicanMsg) : Capture :=
  let tx := msgs.take NUM_TX_MAILBOX
  let hw := tx.zipIdx.foldl (fun hw (msg, i) => can_tx hw msg (TX_INIT_MAILBOX + i)) hw
  let tx_enabled := tx.zipIdx.foldl (fun flags (_, i) => SET_MEM32 flags (MAILBOX i) (MAILBOX i)) 0
  { mdata := ⟨⟨mcanmsg, 0⟩, 0, 0, 0, 0, 0, tx_enabled⟩
    hw, spare := false, pending := hw.canmem, stores := [], cleared := [] }

/-! ## Later calls -/

def disable_interrupts (hw : Flexcan) : Flexcan :=
  let masks := [RINGO_CANCTRL_BOFFMSK, RINGO_CANCTRL_ERRMASK, RINGO_CANCTRL_TWRNMSK,
    RINGO_CANCTRL_RWRNMSK]
  { hw with imask1 := 0, imask2 := 0, ctrl := masks.foldl (SET_MEM32 · · 0) hw.ctrl }

/-- A flagged receive mailbox that is not busy: its message is copied, it is set to empty, and its
flag is cleared. -/
def rx_mailbox (s : Capture) (i : Nat) : Capture :=
  { s with
    mdata := { s.mdata with toMinican := mini_can_copy s.mdata.toMinican (s.hw.canmem i) }
    hw := { s.hw with
      canmem := Function.update s.hw.canmem i (setCode (s.hw.canmem i) REC_CODE_EMPTY)
      iflag1 := s.hw.iflag1 &&& ~~~MAILBOX i }
    stores := s.stores ++ [s.mdata.nrx.toNat]
    cleared := s.cleared ++ [s.pending i] }

/-- The loop over the receive mailboxes -/
def rx_loop (s : Capture) : Capture :=
  (List.range (NUM_RX_MAILBOX + 1)).foldl
    (fun t i => if s.hw.iflag1.getLsbD i then rx_mailbox t i else t) s

/-- A transmit mailbox that has been sent -/
def tx_mailbox (s : Capture) (i : Nat) : Capture :=
  let mbxid := TX_INIT_MAILBOX + i
  { s with
    mdata := { s.mdata with tx_enabled := SET_MEM32 s.mdata.tx_enabled (MAILBOX i) 0 }
    hw := { s.hw with
      canmem := Function.update s.hw.canmem mbxid (setCode (s.hw.canmem mbxid) TRANS_CODE_NOT_READY)
      iflag2 := s.hw.iflag2 &&& ~~~MAILBOX i } }

def tx_loop (s : Capture) : Capture :=
  (List.range NUM_TX_MAILBOX).foldl
    (fun t i => if s.hw.iflag2.getLsbD i then tx_mailbox t i else t) s

/-- The states the mini-driver is called with after `MDRIVER_INIT`; for the preparation, whether the
device can be mapped -/
inductive MdriverState
  | MDRIVER_STARTUP
  | MDRIVER_STARTUP_PREPARE (mapped : Bool)
  | MDRIVER_STARTUP_FINI
  | MDRIVER_KERNEL
  | MDRIVER_PROCESS
  | MDRIVER_INTR_ATTACH

open MdriverState

/-- The mini-driver is done. -/
def MdriverState.last : MdriverState → Bool
  | MDRIVER_STARTUP_PREPARE mapped => !mapped
  | MDRIVER_INTR_ATTACH => true
  | _ => false

def MiniData.count (m : MiniData) : MdriverState → MiniData
  | MDRIVER_STARTUP => { m with nstartup := m.nstartup + 1 }
  | MDRIVER_STARTUP_PREPARE _ => { m with nstartupp := m.nstartupp + 1 }
  | MDRIVER_STARTUP_FINI => { m with nstartupf := m.nstartupf + 1 }
  | MDRIVER_KERNEL => { m with nkernel := m.nkernel + 1 }
  | MDRIVER_PROCESS => { m with nprocess := m.nprocess + 1 }
  | MDRIVER_INTR_ATTACH => m

/-- `mini_can`: with what it returns as `spare` -/
def mini_can_call (s : Capture) (state : MdriverState) : Capture :=
  let s := { s with mdata := s.mdata.count state }
  if state.last then { s with hw := disable_interrupts s.hw, spare := true }
  else tx_loop (rx_loop s)

inductive Op
  /-- A message comes in a receive mailbox. -/
  | arrive (i : Fin 32) (obj : CanMsgObj)
  /-- A transmit mailbox has been sent. -/
  | sent (i : Nat)
  | call (state : MdriverState)

/-- What happens to the device, or a call, as `mdriver_docheck` makes it -/
def Capture.next (s : Capture) : Op → Capture
  | .arrive i obj =>
    { s with
      hw := { s.hw with
        iflag1 := s.hw.iflag1 ||| MAILBOX i
        canmem := Function.update s.hw.canmem i obj }
      pending := Function.update s.pending i obj }
  | .sent i => { s with hw := { s.hw with iflag2 := s.hw.iflag2 ||| MAILBOX i } }
  | .call state => if s.spare then s else mini_can_call s state

/-! ## What is received -/

/-- The number of receive mailboxes that are flagged -/
def flagged (flags : BitVec 32) : Nat :=
  (List.range (NUM_RX_MAILBOX + 1)).countP fun i => flags.getLsbD i

/-- The number of messages that calls find, with these mailboxes flagged before -/
def found : BitVec 32 → List Op → Nat
  | _, [] => 0
  | flags, .arrive i _ :: ops => found (flags ||| MAILBOX i) ops
  | flags, .sent _ :: ops => found flags ops
  | flags, .call state :: ops => if state.last then 0 else flagged flags + found 0 ops

/-- The number of messages that data of this size have room for -/
def capacity (size : Nat) : Nat := (size - sizeofMinican) / sizeofMsgObj

/-- All messages whose flags have been cleared are in the data, once and in order, they are as many
as are counted, and none goes past the end. -/
structure Captured (size : Nat) (s : Capture) : Prop where
  messages : s.mdata.messages = s.cleared
  count : s.mdata.nrx.toNat = s.stores.length
  within : ∀ i ∈ s.stores, sizeofMinican + (i + 1) * sizeofMsgObj ≤ size

variable {s : Capture} {size : Nat}

/-- The flagged mailboxes have what came to them, and the messages go to consecutive places, until
the counter wraps. -/
structure Capture.Inv (s : Capture) : Prop where
  pending : ∀ i, s.hw.iflag1.getLsbD i = true → s.hw.canmem i = s.pending i
  stores : s.stores = (List.range s.cleared.length).map (· % 2 ^ 16)
  nrx : s.mdata.nrx.toNat = s.cleared.length % 2 ^ 16
  messages : s.cleared.length < 2 ^ 16 → s.mdata.messages = s.cleared

theorem getLsbD_clear (flags : BitVec 32) (i j : Nat) :
    (flags &&& ~~~MAILBOX i).getLsbD j = (flags.getLsbD j && decide (i ≠ j)) := by
  rw [BitVec.getLsbD_and, BitVec.getLsbD_not, MAILBOX, BitVec.getLsbD_twoPow]
  by_cases below : j < 32
  · by_cases same : i = j
    · subst same
      simp [below]
    · simp [below, same]
  · rw [BitVec.getLsbD_of_ge flags j (by omega)]
    rfl

theorem rx_mailbox_inv {i : Nat} (inv : s.Inv) (flag : s.hw.iflag1.getLsbD i = true) :
    (rx_mailbox s i).Inv := by
  have length : (rx_mailbox s i).cleared.length = s.cleared.length + 1 := by
    unfold rx_mailbox
    rw [List.length_append]
    rfl
  refine ⟨fun j set => ?_, ?_, ?_, fun short => ?_⟩
  · have still : s.hw.iflag1.getLsbD j = true ∧ i ≠ j := by
      have set : (s.hw.iflag1 &&& ~~~MAILBOX i).getLsbD j = true := set
      rwa [getLsbD_clear, Bool.and_eq_true, decide_eq_true_eq] at set
    change Function.update s.hw.canmem i _ j = s.pending j
    rw [Function.update_of_ne still.2.symm]
    exact inv.pending j still.1
  · rw [length, List.range_succ, List.map_append, ← inv.stores, List.map_singleton, ← inv.nrx]
    rfl
  · rw [length]
    change (s.mdata.nrx + 1).toNat = _
    rw [BitVec.toNat_add, inv.nrx]
    change (s.cleared.length % 2 ^ 16 + 1) % 2 ^ 16 = _
    omega
  · rw [length] at short
    have room : s.mdata.nrx.toNat + 1 < 2 ^ 16 := by
      rw [inv.nrx, Nat.mod_eq_of_lt (by omega)]
      exact short
    change (mini_can_copy s.mdata.toMinican (s.hw.canmem i)).messages = s.cleared ++ [s.pending i]
    rw [(messages_copy room _).1, inv.messages (by omega), inv.pending i flag]

/-- The loop over some receive mailboxes, of which those in `flags` were flagged at its start -/
theorem rx_fold {flags : BitVec 32} {l : List Nat} (nodup : l.Nodup) (inv : s.Inv)
    (set : ∀ i ∈ l, flags.getLsbD i = true → s.hw.iflag1.getLsbD i = true) :
    let t := l.foldl (fun t i => if flags.getLsbD i then rx_mailbox t i else t) s
    t.Inv ∧ t.spare = s.spare ∧
      t.cleared.length = s.cleared.length + l.countP (fun i => flags.getLsbD i) ∧
      ∀ j, t.hw.iflag1.getLsbD j = true →
        s.hw.iflag1.getLsbD j = true ∧ ¬(j ∈ l ∧ flags.getLsbD j = true) := by
  induction l generalizing s with
  | nil => exact ⟨inv, rfl, rfl, fun j still => ⟨still, fun mem => by cases mem.1⟩⟩
  | cons i l ih =>
    obtain ⟨fresh, nodup⟩ := List.nodup_cons.mp nodup
    rw [List.foldl_cons, List.countP_cons]
    by_cases flag : flags.getLsbD i = true
    · rw [if_pos flag, if_pos flag]
      have first := set i List.mem_cons_self flag
      have cleared : ∀ j, (rx_mailbox s i).hw.iflag1.getLsbD j =
          (s.hw.iflag1.getLsbD j && decide (i ≠ j)) := getLsbD_clear s.hw.iflag1 i
      obtain ⟨inv', spare, length, flags'⟩ :=
          ih nodup (rx_mailbox_inv inv first) fun j mem flag' => by
        have other : i ≠ j := fun same => fresh (same ▸ mem)
        rw [cleared, set j (List.mem_cons_of_mem _ mem) flag', decide_eq_true other]
        rfl
      have one : (rx_mailbox s i).cleared.length = s.cleared.length + 1 := by
        unfold rx_mailbox
        rw [List.length_append]
        rfl
      refine ⟨inv', spare, by rw [length, one]; omega, fun j still => ?_⟩
      obtain ⟨before, not⟩ := flags' j still
      rw [cleared, Bool.and_eq_true, decide_eq_true_eq] at before
      refine ⟨before.1, fun mem => ?_⟩
      rcases List.mem_cons.mp mem.1 with rfl | inside
      · exact before.2 rfl
      · exact not ⟨inside, mem.2⟩
    · rw [if_neg flag, if_neg flag]
      obtain ⟨inv', spare, length, flags'⟩ := ih nodup inv fun j mem =>
        set j (List.mem_cons_of_mem _ mem)
      refine ⟨inv', spare, length, fun j still => ?_⟩
      obtain ⟨before, not⟩ := flags' j still
      refine ⟨before, fun mem => ?_⟩
      rcases List.mem_cons.mp mem.1 with rfl | inside
      · exact flag mem.2
      · exact not ⟨inside, mem.2⟩

theorem rx_loop_spec (inv : s.Inv) :
    (rx_loop s).Inv ∧ (rx_loop s).spare = s.spare ∧ (rx_loop s).hw.iflag1 = 0 ∧
      (rx_loop s).cleared.length = s.cleared.length + flagged s.hw.iflag1 := by
  obtain ⟨inv', spare, length, flags⟩ := rx_fold List.nodup_range inv
    fun i _ flag => flag
  refine ⟨inv', spare, BitVec.eq_of_getLsbD_eq fun j below => ?_, length⟩
  rw [BitVec.ofNat_eq_ofNat, BitVec.getLsbD_zero]
  refine Bool.eq_false_iff.mpr fun still => ?_
  obtain ⟨before, not⟩ := flags j still
  exact not ⟨List.mem_range.mpr below, before⟩

theorem tx_mailbox_inv {i : Nat} (inv : s.Inv) : (tx_mailbox s i).Inv := by
  refine ⟨fun j set => ?_, inv.stores, inv.nrx, inv.messages⟩
  have low : j < 32 := BitVec.lt_of_getLsbD set
  have other : j ≠ TX_INIT_MAILBOX + i := by
    rw [TX_INIT_MAILBOX, NUM_RX_MAILBOX, CAN_NUM_MAILBOX_USER]
    omega
  change Function.update s.hw.canmem (TX_INIT_MAILBOX + i) _ j = s.pending j
  rw [Function.update_of_ne other]
  exact inv.pending j set

theorem tx_loop_spec (inv : s.Inv) :
    (tx_loop s).Inv ∧ (tx_loop s).spare = s.spare ∧ (tx_loop s).hw.iflag1 = s.hw.iflag1 ∧
      (tx_loop s).cleared = s.cleared := by
  unfold tx_loop
  refine List.foldlRecOn (motive := fun t : Capture => t.Inv ∧ t.spare = s.spare ∧
    t.hw.iflag1 = s.hw.iflag1 ∧ t.cleared = s.cleared) _ _ ⟨inv, rfl, rfl, rfl⟩ ?_
  intro t kept i _
  split
  · exact ⟨tx_mailbox_inv kept.1, kept.2⟩
  · exact kept

theorem count_inv (state : MdriverState) (inv : s.Inv) :
    ({ s with mdata := s.mdata.count state } : Capture).Inv := by
  have same : (s.mdata.count state).toMinican = s.mdata.toMinican := by
    cases state <;> rfl
  refine ⟨inv.pending, inv.stores, ?_, fun short => ?_⟩
  · rw [same]
    exact inv.nrx
  · rw [same]
    exact inv.messages short

theorem mini_can_call_spec {state : MdriverState} (inv : s.Inv) (active : s.spare = false) :
    (mini_can_call s state).Inv ∧
      (state.last = true → (mini_can_call s state).spare = true ∧
        (mini_can_call s state).cleared = s.cleared) ∧
      (state.last = false → (mini_can_call s state).spare = false ∧
        (mini_can_call s state).hw.iflag1 = 0 ∧
        (mini_can_call s state).cleared.length = s.cleared.length + flagged s.hw.iflag1) := by
  have counted := count_inv state inv
  unfold mini_can_call
  cases last : state.last with
  | true =>
    refine ⟨⟨counted.pending, counted.stores, counted.nrx, counted.messages⟩,
      fun _ => ⟨rfl, rfl⟩, fun none => by cases none⟩
  | false =>
    obtain ⟨inv', spare, flags, length⟩ := rx_loop_spec counted
    obtain ⟨inv'', spare', flags', cleared⟩ := tx_loop_spec inv'
    refine ⟨inv'', fun none => (by cases none), fun _ => ⟨?_, ?_, ?_⟩⟩
    · exact spare'.trans (spare.trans active)
    · exact flags'.trans flags
    · exact (congrArg List.length cleared).trans length

/-! ## Runs -/

theorem Capture.Inv.next (inv : s.Inv) (op : Op) : (s.next op).Inv := by
  cases op with
  | arrive i obj =>
    refine ⟨fun j set => ?_, inv.stores, inv.nrx, inv.messages⟩
    change Function.update s.hw.canmem i obj j = Function.update s.pending i obj j
    by_cases same : j = i
    · rw [same, Function.update_self, Function.update_self]
    · rw [Function.update_of_ne same, Function.update_of_ne same]
      refine inv.pending j ?_
      have set : (s.hw.iflag1 ||| MAILBOX i).getLsbD j = true := set
      rw [BitVec.getLsbD_or, MAILBOX, BitVec.getLsbD_twoPow, decide_eq_false (Ne.symm same),
        Bool.and_false, Bool.or_false] at set
      exact set
  | sent i => exact ⟨inv.pending, inv.stores, inv.nrx, inv.messages⟩
  | call state =>
    change (if s.spare then s else mini_can_call s state).Inv
    cases active : s.spare with
    | true => exact inv
    | false => exact (mini_can_call_spec inv active).1

theorem run_inv (inv : s.Inv) (ops : List Op) : (ops.foldl Capture.next s).Inv := by
  induction ops generalizing s with
  | nil => exact inv
  | cons op ops ih => exact ih (inv.next op)

theorem run_spare (spare : s.spare = true) (ops : List Op) :
    (ops.foldl Capture.next s).cleared = s.cleared := by
  induction ops generalizing s with
  | nil => rfl
  | cons op ops ih =>
    have kept : (s.next op).spare = true ∧ (s.next op).cleared = s.cleared := by
      cases op with
      | arrive i obj => exact ⟨spare, rfl⟩
      | sent i => exact ⟨spare, rfl⟩
      | call state =>
        change (if s.spare then s else mini_can_call s state).spare = true ∧
          (if s.spare then s else mini_can_call s state).cleared = s.cleared
        rw [spare]
        exact ⟨spare, rfl⟩
    exact (ih kept.1).trans kept.2

theorem run_found (inv : s.Inv) (active : s.spare = false) (ops : List Op) :
    (ops.foldl Capture.next s).cleared.length =
      s.cleared.length + found s.hw.iflag1 ops := by
  induction ops generalizing s with
  | nil => rfl
  | cons op ops ih =>
    have inv' := inv.next op
    rw [List.foldl_cons]
    cases op with
    | arrive i obj => exact ih inv' active
    | sent i => exact ih inv' active
    | call state =>
      have step : s.next (.call state) = mini_can_call s state := by
        change (if s.spare then s else mini_can_call s state) = _
        rw [active]
        rfl
      obtain ⟨-, done, more⟩ := mini_can_call_spec inv active
      rw [step] at inv' ⊢
      unfold found
      cases last : state.last with
      | true =>
        obtain ⟨spare, cleared⟩ := done last
        rw [run_spare spare, cleared]
        rfl
      | false =>
        obtain ⟨active', flags, length⟩ := more last
        rw [ih inv' active', flags, length, Nat.add_assoc]
        rfl

theorem found_prefix {flags : BitVec 32} {pre ops : List Op} (below : pre <+: ops) :
    found flags pre ≤ found flags ops := by
  obtain ⟨post, rfl⟩ := below
  induction pre generalizing flags with
  | nil => exact Nat.zero_le _
  | cons op pre ih =>
    cases op with
    | arrive i obj => exact ih
    | sent i => exact ih
    | call state =>
      rw [List.cons_append]
      unfold found
      split
      · exact le_rfl
      · exact Nat.add_le_add_left ih _

theorem Capture.Inv.captured (inv : s.Inv) (counted : s.cleared.length < 2 ^ 16)
    (room : s.cleared.length ≤ capacity size) : Captured size s := by
  have places : s.stores = List.range s.cleared.length := by
    rw [inv.stores]
    refine (List.map_congr_left fun i mem => ?_).trans (List.map_id _)
    exact Nat.mod_eq_of_lt ((List.mem_range.mp mem).trans counted)
  refine ⟨inv.messages counted, ?_, fun i mem => ?_⟩
  · rw [inv.nrx, places, List.length_range, Nat.mod_eq_of_lt counted]
  · rw [places] at mem
    have below := List.mem_range.mp mem
    have fits := Nat.mul_le_of_le_div sizeofMsgObj _ _ (Nat.succ_le_of_lt (below.trans_le room))
    rw [sizeofMinican, sizeofMsgObj] at *
    omega

theorem Captured.room (captured : Captured size s) (inv : s.Inv) :
    s.cleared.length < 2 ^ 16 ∧ s.cleared.length ≤ capacity size := by
  have length : s.stores.length = s.cleared.length := by
    rw [inv.stores, List.length_map, List.length_range]
  have counted : s.cleared.length < 2 ^ 16 := by
    rw [← length, ← captured.count]
    exact s.mdata.nrx.isLt
  refine ⟨counted, ?_⟩
  rcases Nat.eq_zero_or_pos s.cleared.length with none | some_
  · exact none.le.trans (Nat.zero_le _)
  · have last : s.cleared.length - 1 ∈ s.stores := by
      rw [inv.stores]
      refine List.mem_map.mpr ⟨s.cleared.length - 1, List.mem_range.mpr (by omega), ?_⟩
      exact Nat.mod_eq_of_lt (by omega)
    have inside := captured.within _ last
    rw [Nat.sub_add_cancel some_] at inside
    exact (Nat.le_div_iff_mul_le (by decide)).mpr (by omega)

theorem init_inv (mcanmsg : Nat → CanMsgObj) (hw : Flexcan) (msgs : List MinicanMsg) :
    (mini_can_init mcanmsg hw msgs).Inv :=
  ⟨fun _ _ => rfl, rfl, rfl, fun _ => rfl⟩

/-- From its start on the mini-driver keeps every message and stays within its data of `size` bytes,
exactly when the messages that its calls find fit in the data and its counter. -/
theorem captured_iff (size : Nat) (mcanmsg : Nat → CanMsgObj) (hw : Flexcan)
    (msgs : List MinicanMsg) (ops : List Op) :
    (∀ pre, pre <+: ops →
        Captured size (pre.foldl Capture.next (mini_can_init mcanmsg hw msgs))) ↔
      found (mini_can_init mcanmsg hw msgs).hw.iflag1 ops ≤ capacity size ∧
        found (mini_can_init mcanmsg hw msgs).hw.iflag1 ops < 2 ^ 16 := by
  have start := init_inv mcanmsg hw msgs
  have length : ∀ pre, (pre.foldl Capture.next (mini_can_init mcanmsg hw msgs)).cleared.length =
      found (mini_can_init mcanmsg hw msgs).hw.iflag1 pre :=
    fun pre => (run_found start rfl pre).trans (Nat.zero_add _)
  constructor
  · intro captured
    obtain ⟨counted, room⟩ := (captured ops List.prefix_rfl).room (run_inv start ops)
    rw [length] at counted room
    exact ⟨room, counted⟩
  · rintro ⟨room, counted⟩ pre below
    have few : found (mini_can_init mcanmsg hw msgs).hw.iflag1 pre ≤
        found (mini_can_init mcanmsg hw msgs).hw.iflag1 ops := found_prefix below
    refine (run_inv start pre).captured ?_ ?_
    · rw [length]
      exact few.trans_lt counted
    · rw [length]
      exact few.trans room

/-! ## More messages than fit -/

def idleDevice : Flexcan := ⟨0, 0, 0, 0, 0, fun _ => ⟨0, 0, 0, 0⟩⟩

/-- Messages that come in one by one, each found by the next call while the system starts up -/
def oneByOne (n : Nat) : List Op :=
  (List.replicate n [Op.arrive 1 ⟨0, 0, 0, 0⟩, Op.call MDRIVER_STARTUP]).flatten

theorem found_oneByOne (n : Nat) : found 0 (oneByOne n) = n := by
  induction n with
  | zero => rfl
  | succ n ih =>
    have one : flagged (0 ||| MAILBOX 1) = 1 := by decide
    change flagged (0 ||| MAILBOX 1) + found 0 (oneByOne n) = n + 1
    rw [one, ih, Nat.add_comm]

/-- The message number 4095 goes past the end of the data of the board. -/
theorem captured_overflow :
    ¬∀ pre, pre <+: oneByOne 4095 → Captured MINI_DATA_BUF_SIZE
      (pre.foldl Capture.next (mini_can_init (fun _ => ⟨0, 0, 0, 0⟩) idleDevice [])) := by
  intro captured
  have start := init_inv (fun _ => ⟨0, 0, 0, 0⟩) idleDevice []
  have room := ((captured _ List.prefix_rfl).room (run_inv start _)).2
  have count : found (mini_can_init (fun _ => ⟨0, 0, 0, 0⟩) idleDevice []).hw.iflag1
      (oneByOne 4095) = 4095 := found_oneByOne 4095
  rw [run_found start rfl, count] at room
  exact absurd room (by decide)

end Mx6xBsp.Can
