import Mathlib.Data.BitVec
import Mathlib.Data.List.Forall2
import Mathlib.Logic.Function.Basic

/-!
# Hand-over from the CAN mini-driver

While the system boots, `mini_can` copies the mailboxes that have received a message to a buffer.
`mdriver_init_data` then queues what is in the buffer on the devices of the full driver, which
queues what it receives itself in `can_intr`. The mini-driver does not keep which mailbox
a message came in, so it is queued on the first receive device, or, with sorting, on that of the
first mailbox with its identifier, if there is one. On these devices it is what `can_intr` would
have queued there (`handover`), but for the time stamp and, unless full messages are asked
for, the identifier.
-/

namespace Mx6xBsp.Can

def CAN_FIRST_USER_MAILBOX_INDEX : Nat := 1
def CAN_NUM_MAILBOX_USER : Nat := 62
def NUM_RX_MAILBOX : Nat := CAN_NUM_MAILBOX_USER / 2
def RAW_MODE_RX_NUM_MBOX : Nat := 1
def RAW_MODE_RX_IRQ : BitVec 32 := 0x01 <<< 1

def MB_CNT_IDE : BitVec 32 := 0x00200000
def MSG_BUF_DLC_MASK : BitVec 32 := 0x000F0000
def MSG_BUF_DLC_SHIFT : Nat := 16
def MSG_BUF_CODE_MASK : BitVec 32 := 0x0F000000
def MSG_BUF_CODE_SHIFT : Nat := 24
def REC_CODE_EMPTY : BitVec 32 := 0x4

def INFO_FLAGS_RX_FULL_MSG : BitVec 32 := 0x00000001
def INFO_FLAGS_ENDIAN_SWAP : BitVec 32 := 0x00000002
def INIT_FLAGS_MDRIVER_SORT : BitVec 32 := 0x00000080

/-- The bytes of a word in reverse -/
def ENDIAN_SWAP32 (x : BitVec 32) : BitVec 32 :=
  x.extractLsb' 0 8 ++ x.extractLsb' 8 8 ++ x.extractLsb' 16 8 ++ x.extractLsb' 24 8

/-- `can_msg_obj_t`, a mailbox -/
structure CanMsgObj where
  canmcf : BitVec 32
  canmid : BitVec 32
  canmdl : BitVec 32
  canmdh : BitVec 32

/-- `CAN_MSG`, with the data as two words -/
structure CanMsg where
  dat0 : BitVec 32
  dat1 : BitVec 32
  len : BitVec 8
  mid : BitVec 32
  timestamp : BitVec 32
  is_extended_mid : BitVec 32
  is_remote_frame : BitVec 32

/-- The queues of the CAN library, whose code is not among the sources: elements are taken in the
order in which they were put in. -/
structure Libcan where
  Queue : Type
  elems : Queue → List CanMsg
  dequeue_element : Queue → Option (CanMsg × Queue)
  queue_element : Queue → CanMsg → Queue
  dequeue_nil : ∀ {q}, elems q = [] → dequeue_element q = none
  dequeue_cons : ∀ {q m ms}, elems q = m :: ms →
    ∃ q', dequeue_element q = some (m, q') ∧ elems q' = ms
  elems_queue : ∀ q m, elems (queue_element q m) = elems q ++ [m]

structure Device (lib : Libcan) where
  free_queue : lib.Queue
  msg_queue : lib.Queue

inductive Mode
  | CANDEV_MODE_IO
  | CANDEV_MODE_RAW_FRAME

open Mode

def Mode.numrx : Mode → Nat
  | CANDEV_MODE_IO => CAN_NUM_MAILBOX_USER / 2
  | CANDEV_MODE_RAW_FRAME => RAW_MODE_RX_NUM_MBOX

/-- What the driver knows of its devices, `CANDEV_RINGO_INFO`: `canmsg` are the mailboxes, each with
its device in `devlist`, and `rxmbxstart` is always `CAN_FIRST_USER_MAILBOX_INDEX`. -/
structure DevInfo (lib : Libcan) where
  mode : Mode
  iflags : BitVec 32
  canmsg : Nat → CanMsgObj
  devlist : Nat → Device lib
  received_frames : BitVec 32
  sw_receive_q_full : BitVec 32

/-- Behind the last receive mailbox -/
abbrev Mode.rxmbxend (mode : Mode) : Nat := CAN_FIRST_USER_MAILBOX_INDEX + mode.numrx

/-! ## The mini-driver -/

/-- What is flagged when the mini-driver runs, and the mailboxes -/
structure Poll where
  flag_rx : BitVec 32
  canmem : Nat → CanMsgObj

/-- `minican_data_t`: the messages behind it, and their number -/
structure Minican where
  mcanmsg : Nat → CanMsgObj
  nrx : BitVec 16

def mini_can_copy (m : Minican) (obj : CanMsgObj) : Minican :=
  ⟨Function.update m.mcanmsg m.nrx.toNat obj, m.nrx + 1⟩

/-- The loop over the receive mailboxes -/
def mini_can (m : Minican) (p : Poll) : Minican :=
  (List.range (NUM_RX_MAILBOX + 1)).foldl
    (fun m i => if p.flag_rx.getLsbD i then mini_can_copy m (p.canmem i) else m) m

/-! ## The full driver -/

section Driver

variable {lib : Libcan}

def DevInfo.has (info : DevInfo lib) (flag : BitVec 32) : Bool := info.iflags &&& flag ≠ 0

def DevInfo.setDevice (info : DevInfo lib) (mbxid : Nat) (free msg : lib.Queue) : DevInfo lib :=
  { info with
    devlist := Function.update info.devlist mbxid ⟨free, msg⟩
    received_frames := info.received_frames + 1 }

def mdriver_find_mbxid (info : DevInfo lib) (canmid : BitVec 32) : Option Nat :=
  (List.range' CAN_FIRST_USER_MAILBOX_INDEX info.mode.numrx).find? fun i =>
    canmid = (info.canmsg i).canmid

/-- The device that `mdriver_init_data` queues a message on -/
def mdriver_mbxid (info : DevInfo lib) (flags canmid : BitVec 32) : Option Nat :=
  if flags &&& INIT_FLAGS_MDRIVER_SORT ≠ 0 then mdriver_find_mbxid info canmid
  else some CAN_FIRST_USER_MAILBOX_INDEX

/-- The message is copied to an element of the free queue. -/
def mdriver_message (info : DevInfo lib) (obj : CanMsgObj) (rxmsg : CanMsg) : CanMsg :=
  { rxmsg with
    dat0 := if info.has INFO_FLAGS_ENDIAN_SWAP then ENDIAN_SWAP32 obj.canmdl else obj.canmdl
    dat1 := if info.has INFO_FLAGS_ENDIAN_SWAP then ENDIAN_SWAP32 obj.canmdh else obj.canmdh
    len := ((obj.canmcf &&& MSG_BUF_DLC_MASK) >>> MSG_BUF_DLC_SHIFT).setWidth 8
    mid := if info.has INFO_FLAGS_RX_FULL_MSG then obj.canmid else rxmsg.mid
    timestamp := if info.has INFO_FLAGS_RX_FULL_MSG then 0 else rxmsg.timestamp
    is_extended_mid := if obj.canmcf &&& MB_CNT_IDE > 0 then 1 else 0 }

def mdriver_next (flags : BitVec 32) (info : DevInfo lib) (obj : CanMsgObj) : DevInfo lib :=
  match mdriver_mbxid info flags obj.canmid with
  | none => info
  | some mbxid =>
    match lib.dequeue_element (info.devlist mbxid).free_queue with
    | none => info
    | some (rxmsg, free) =>
      info.setDevice mbxid free
        (lib.queue_element (info.devlist mbxid).msg_queue (mdriver_message info obj rxmsg))

def mdriver_init_data (info : DevInfo lib) (flags : BitVec 32) : Option Minican → DevInfo lib
  | none => info
  | some m => ((List.range m.nrx.toNat).map m.mcanmsg).foldl (mdriver_next flags) info

/-- What is received of a mailbox, which is not busy any more -/
def can_intr_message (info : DevInfo lib) (obj : CanMsgObj) (rxmsg : CanMsg) : CanMsg :=
  let ctrl := obj.canmcf
  let canmcf_ide := ctrl &&& MB_CNT_IDE
  { rxmsg with
    len := ((ctrl &&& MSG_BUF_DLC_MASK) >>> MSG_BUF_DLC_SHIFT).setWidth 8
    mid := obj.canmid
    timestamp := ctrl &&& 0x0000FFFF
    is_extended_mid := if canmcf_ide > 0 then 1 else 0
    dat0 := if info.has INFO_FLAGS_ENDIAN_SWAP then ENDIAN_SWAP32 obj.canmdl else obj.canmdl
    dat1 := if info.has INFO_FLAGS_ENDIAN_SWAP then ENDIAN_SWAP32 obj.canmdh else obj.canmdh }

/-- The mailbox is set to empty. -/
def CanMsgObj.emptied (obj : CanMsgObj) : CanMsgObj :=
  { obj with
    canmcf := obj.canmcf &&& ~~~MSG_BUF_CODE_MASK ||| REC_CODE_EMPTY <<< MSG_BUF_CODE_SHIFT |||
      obj.canmcf &&& MB_CNT_IDE }

/-- The message in a mailbox is received into `rxmsg`. -/
def can_intr_receive (info : DevInfo lib) (mbxid : Nat) (rxmsg : CanMsg) (free msg : lib.Queue) :
    DevInfo lib :=
  { info.setDevice mbxid free
      (lib.queue_element msg (can_intr_message info (info.canmsg mbxid) rxmsg)) with
    canmsg := Function.update info.canmsg mbxid (info.canmsg mbxid).emptied }

/-- The lowest mailbox that is flagged -/
def lowest (iflag_rx : BitVec 32) (mode : Mode) : Nat :=
  ((List.range mode.rxmbxend).find? fun i => iflag_rx.getLsbD i).getD 0

def Mode.iflag_rx (mode : Mode) (irqsrc1 : BitVec 32) : BitVec 32 :=
  match mode with
  | CANDEV_MODE_RAW_FRAME => irqsrc1 &&& RAW_MODE_RX_IRQ
  | CANDEV_MODE_IO => irqsrc1

/-- The receive path of `can_intr`: the next free element is used, or the oldest message. -/
def can_intr (info : DevInfo lib) (irqsrc1 : BitVec 32) : DevInfo lib :=
  let iflag_rx := info.mode.iflag_rx irqsrc1
  if iflag_rx > 0 then
    let mbxid := lowest iflag_rx info.mode
    let dev := info.devlist mbxid
    match lib.dequeue_element dev.free_queue with
    | some (rxmsg, free) => can_intr_receive info mbxid rxmsg free dev.msg_queue
    | none =>
      let info := { info with sw_receive_q_full := info.sw_receive_q_full + 1 }
      match lib.dequeue_element dev.msg_queue with
      | some (rxmsg, msg) => can_intr_receive info mbxid rxmsg dev.free_queue msg
      | none => info
  else info

/-- A message comes in a mailbox, and the driver is interrupted. -/
def arrive (info : DevInfo lib) (arrival : Nat × CanMsgObj) : DevInfo lib :=
  can_intr { info with canmsg := Function.update info.canmsg arrival.1 arrival.2 }
    (BitVec.twoPow 32 arrival.1)

end Driver

/-! ## What both handle -/

/-- The mailboxes that the mini-driver finds flagged, in the order in which it copies them -/
def Poll.received (p : Poll) : List (Nat × CanMsgObj) :=
  ((List.range (NUM_RX_MAILBOX + 1)).filter fun i => p.flag_rx.getLsbD i).map fun i =>
    (i, p.canmem i)

def arrivals (polls : List Poll) : List (Nat × CanMsgObj) := polls.flatMap Poll.received

section Spec

variable {lib : Libcan}

/-- The messages with the mailboxes of the devices that `mdriver_init_data` queues them on -/
def assigned (flags : BitVec 32) (info : DevInfo lib) (objs : List CanMsgObj) :
    List (Nat × CanMsgObj) :=
  objs.filterMap fun obj => (mdriver_mbxid info flags obj.canmid).map fun mbxid => (mbxid, obj)

/-- Each message finds a free element of its device. -/
def Fits (info : DevInfo lib) (messages : List (Nat × CanMsgObj)) : Prop :=
  ∀ d, (messages.countP fun message => message.1 = d) ≤
    (lib.elems (info.devlist d).free_queue).length

/-- The same data, length, extended flag and, if wanted, identifier -/
structure Same (mid : Bool) (m m' : CanMsg) : Prop where
  dat0 : m.dat0 = m'.dat0
  dat1 : m.dat1 = m'.dat1
  len : m.len = m'.len
  is_extended_mid : m.is_extended_mid = m'.is_extended_mid
  mid : mid = true → m.mid = m'.mid

/-- The messages queued on a device -/
abbrev DevInfo.queued (info : DevInfo lib) (d : Nat) : List CanMsg :=
  lib.elems (info.devlist d).msg_queue

end Spec

/-! ## The buffer of the mini-driver -/

section Buffer

/-- The messages in the buffer -/
def Minican.messages (m : Minican) : List CanMsgObj :=
  (List.range m.nrx.toNat).map m.mcanmsg

theorem messages_copy {m : Minican} (room : m.nrx.toNat + 1 < 2 ^ 16) (obj : CanMsgObj) :
    (mini_can_copy m obj).messages = m.messages ++ [obj] ∧
      (mini_can_copy m obj).nrx.toNat = m.nrx.toNat + 1 := by
  have count : (m.nrx + 1).toNat = m.nrx.toNat + 1 := by
    rw [BitVec.toNat_add]
    exact Nat.mod_eq_of_lt room
  refine ⟨?_, count⟩
  unfold Minican.messages mini_can_copy
  dsimp only
  rw [count, List.range_succ, List.map_append, List.map_singleton, Function.update_self]
  congr 1
  refine List.map_congr_left fun i mem => Function.update_of_ne ?_ _ _
  exact (List.mem_range.mp mem).ne

/-- As long as its counter does not wrap, the buffer takes the messages in their order. -/
theorem messages_copies {m : Minican} {objs : List CanMsgObj}
    (room : m.nrx.toNat + objs.length < 2 ^ 16) :
    (objs.foldl mini_can_copy m).messages = m.messages ++ objs := by
  induction objs generalizing m with
  | nil => exact (List.append_nil _).symm
  | cons obj objs ih =>
    rw [List.length_cons] at room
    obtain ⟨messages, count⟩ := messages_copy (show m.nrx.toNat + 1 < 2 ^ 16 by omega) obj
    rw [List.foldl_cons, ih (by omega), messages, List.append_assoc]
    rfl

theorem mini_can_eq (m : Minican) (p : Poll) :
    mini_can m p = (p.received.map Prod.snd).foldl mini_can_copy m := by
  unfold mini_can Poll.received
  rw [List.map_map, List.foldl_map, List.foldl_filter]
  rfl

theorem polls_eq (m : Minican) (polls : List Poll) :
    polls.foldl mini_can m = ((arrivals polls).map Prod.snd).foldl mini_can_copy m := by
  induction polls generalizing m with
  | nil => rfl
  | cons p polls ih =>
    unfold arrivals at ih ⊢
    rw [List.foldl_cons, ih, mini_can_eq, List.flatMap_cons, List.map_append, List.foldl_append]

theorem buffered_messages {polls : List Poll} (counted : (arrivals polls).length < 2 ^ 16)
    (mcanmsg : Nat → CanMsgObj) :
    (polls.foldl mini_can ⟨mcanmsg, 0⟩).messages = (arrivals polls).map Prod.snd := by
  rw [polls_eq, messages_copies]
  · rfl
  · rw [List.length_map]
    change 0 + _ < _
    omega

end Buffer

/-! ## One message -/

section Messages

variable {lib : Libcan} {info direct : DevInfo lib} {flags : BitVec 32} {d : Nat}
  {obj : CanMsgObj}

theorem mdriver_mbxid_range (found : mdriver_mbxid info flags obj.canmid = some d) :
    CAN_FIRST_USER_MAILBOX_INDEX ≤ d ∧ d < info.mode.rxmbxend := by
  unfold mdriver_mbxid mdriver_find_mbxid at found
  split at found
  · obtain ⟨below, above⟩ := List.mem_range'_1.mp (List.mem_of_find?_eq_some found)
    exact ⟨below, above⟩
  · obtain rfl := Option.some.inj found
    cases info.mode <;> decide

theorem rxmbxend_le (mode : Mode) : mode.rxmbxend ≤ 32 := by
  cases mode <;> decide

/-- The flag of a receive mailbox is that of the mailbox `can_intr` looks at. -/
theorem iflag_rx_eq {mode : Mode} (above : CAN_FIRST_USER_MAILBOX_INDEX ≤ d)
    (below : d < mode.rxmbxend) :
    mode.iflag_rx (BitVec.twoPow 32 d) = BitVec.twoPow 32 d := by
  cases mode with
  | CANDEV_MODE_IO => rfl
  | CANDEV_MODE_RAW_FRAME =>
    obtain rfl : d = 1 := Nat.le_antisymm (Nat.lt_succ_iff.mp below) above
    rfl

theorem lowest_eq {mode : Mode} (below : d < mode.rxmbxend) :
    lowest (BitVec.twoPow 32 d) mode = d := by
  have found : (List.range mode.rxmbxend).find? (fun i => (BitVec.twoPow 32 d).getLsbD i) =
      some d := by
    rw [List.find?_range_eq_some]
    have here := below.trans_le (rxmbxend_le mode)
    refine ⟨?_, List.mem_range.mpr below, fun i lower => ?_⟩
    · rw [BitVec.getLsbD_twoPow, decide_eq_true here, decide_eq_true rfl, Bool.true_and]
    · rw [BitVec.getLsbD_twoPow, decide_eq_false lower.ne', Bool.and_false]
      rfl
  unfold lowest
  rw [found]
  rfl

theorem arrive_eq {m : CanMsg} (above : CAN_FIRST_USER_MAILBOX_INDEX ≤ d)
    (below : d < info.mode.rxmbxend) {free : lib.Queue}
    (some_ : lib.dequeue_element (info.devlist d).free_queue = some (m, free)) :
    (arrive info (d, obj)).devlist = Function.update info.devlist d
      ⟨free, lib.queue_element (info.devlist d).msg_queue (can_intr_message info obj m)⟩ ∧
      (arrive info (d, obj)).mode = info.mode ∧ (arrive info (d, obj)).iflags = info.iflags := by
  have flagged : BitVec.twoPow 32 d > 0 := by
    rw [gt_iff_lt, BitVec.lt_def, BitVec.toNat_twoPow_of_lt (below.trans_le (rxmbxend_le _))]
    exact Nat.two_pow_pos d
  unfold arrive can_intr
  dsimp only
  rw [iflag_rx_eq above below, lowest_eq below, if_pos flagged, some_]
  dsimp only
  unfold can_intr_receive DevInfo.setDevice can_intr_message DevInfo.has
  dsimp only
  rw [Function.update_self]
  exact ⟨rfl, rfl, rfl⟩

/-- An element that both fill has the same message, if it is the identifier of full messages. -/
theorem same_message (flags : direct.iflags = info.iflags) (m : CanMsg) :
    Same (info.has INFO_FLAGS_RX_FULL_MSG) (mdriver_message info obj m)
      (can_intr_message direct obj m) := by
  have swap : direct.has INFO_FLAGS_ENDIAN_SWAP = info.has INFO_FLAGS_ENDIAN_SWAP := by
    unfold DevInfo.has
    rw [flags]
  unfold mdriver_message can_intr_message
  refine ⟨?_, ?_, rfl, rfl, fun full => if_pos full⟩
  · rw [swap]
  · rw [swap]

end Messages

/-! ## All messages -/

section Runs

variable {lib : Libcan} {flags : BitVec 32} {began info direct : DevInfo lib} {d : Nat}
  {obj : CanMsgObj} {rest : List (Nat × CanMsgObj)}

/-- `mdriver_init_data` is at `info` and `can_intr` at `direct`. -/
structure Agree (began info direct : DevInfo lib) : Prop where
  canmsg : info.canmsg = began.canmsg
  mode : info.mode = began.mode ∧ direct.mode = began.mode
  iflags : info.iflags = began.iflags ∧ direct.iflags = began.iflags
  free : ∀ d, (direct.devlist d).free_queue = (info.devlist d).free_queue
  queued : ∀ d, List.Forall₂ (Same (began.has INFO_FLAGS_RX_FULL_MSG)) (info.queued d)
    (direct.queued d)

theorem Agree.start (info : DevInfo lib) : Agree info info info :=
  ⟨rfl, ⟨rfl, rfl⟩, ⟨rfl, rfl⟩, fun _ => rfl, fun _ =>
    List.forall₂_same.mpr fun _ _ => ⟨rfl, rfl, rfl, rfl, fun _ => rfl⟩⟩

theorem Agree.mdriver_mbxid_eq (agree : Agree began info direct) (canmid : BitVec 32) :
    mdriver_mbxid info flags canmid = mdriver_mbxid began flags canmid := by
  unfold mdriver_mbxid mdriver_find_mbxid
  rw [agree.canmsg, agree.mode.1]

theorem Fits.room (fits : Fits info ((d, obj) :: rest)) :
    ∃ m ms, lib.elems (info.devlist d).free_queue = m :: ms := by
  have count := fits d
  rw [List.countP_cons, if_pos (decide_eq_true rfl)] at count
  exact List.exists_cons_of_length_pos ((Nat.succ_pos _).trans_le count)

theorem Fits.next {m : CanMsg} {ms : List CanMsg} {free msg : lib.Queue}
    (fits : Fits info ((d, obj) :: rest))
    (room : lib.elems (info.devlist d).free_queue = m :: ms) (left : lib.elems free = ms) :
    Fits (info.setDevice d free msg) rest := by
  intro d'
  have before := fits d'
  rw [List.countP_cons] at before
  change _ ≤ (lib.elems (Function.update info.devlist d _ d').free_queue).length
  by_cases same : d = d'
  · subst same
    rw [if_pos (decide_eq_true rfl), room, List.length_cons] at before
    rw [Function.update_self, left]
    exact Nat.le_of_succ_le_succ before
  · rw [if_neg (fun yes => same (of_decide_eq_true yes))] at before
    rwa [Function.update_of_ne (Ne.symm same)]

theorem Agree.next (agree : Agree began info direct)
    (found : mdriver_mbxid began flags obj.canmid = some d) (fits : Fits info ((d, obj) :: rest)) :
    Agree began (mdriver_next flags info obj) (arrive direct (d, obj)) ∧
      Fits (mdriver_next flags info obj) rest := by
  obtain ⟨m, ms, room⟩ := fits.room
  obtain ⟨free, dequeued, left⟩ := lib.dequeue_cons room
  have next : mdriver_next flags info obj = info.setDevice d free
      (lib.queue_element (info.devlist d).msg_queue (mdriver_message info obj m)) := by
    unfold mdriver_next
    rw [agree.mdriver_mbxid_eq, found]
    dsimp only
    rw [dequeued]
  have dequeued' : lib.dequeue_element (direct.devlist d).free_queue = some (m, free) := by
    rw [agree.free d, dequeued]
  obtain ⟨above, below⟩ := mdriver_mbxid_range found
  rw [← agree.mode.2] at below
  obtain ⟨devlist, mode, iflags⟩ := @arrive_eq _ _ _ obj _ above below _ dequeued'
  rw [next]
  refine ⟨⟨agree.canmsg, ⟨agree.mode.1, mode.trans agree.mode.2⟩,
    ⟨agree.iflags.1, iflags.trans agree.iflags.2⟩, fun d' => ?_, fun d' => ?_⟩,
    fits.next room left⟩
  · rw [devlist]
    unfold DevInfo.setDevice
    dsimp only
    by_cases same : d' = d
    · rw [same, Function.update_self, Function.update_self]
    · rw [Function.update_of_ne same, Function.update_of_ne same]
      exact agree.free d'
  · unfold DevInfo.queued DevInfo.setDevice
    rw [devlist]
    dsimp only
    by_cases same : d' = d
    · rw [same, Function.update_self, Function.update_self, lib.elems_queue, lib.elems_queue]
      refine List.rel_append (agree.queued d) (List.Forall₂.cons ?_ List.Forall₂.nil)
      have full : info.has INFO_FLAGS_RX_FULL_MSG = began.has INFO_FLAGS_RX_FULL_MSG := by
        unfold DevInfo.has
        rw [agree.iflags.1]
      exact full ▸ same_message (agree.iflags.2.trans agree.iflags.1.symm) m
    · rw [Function.update_of_ne same, Function.update_of_ne same]
      exact agree.queued d'

theorem Agree.skip (agree : Agree began info direct)
    (missing : mdriver_mbxid began flags obj.canmid = none) :
    mdriver_next flags info obj = info := by
  unfold mdriver_next
  rw [agree.mdriver_mbxid_eq, missing]

theorem Agree.run {objs : List CanMsgObj} (agree : Agree began info direct)
    (fits : Fits info (assigned flags began objs)) :
    Agree began (objs.foldl (mdriver_next flags) info)
      ((assigned flags began objs).foldl arrive direct) := by
  induction objs generalizing info direct with
  | nil => exact agree
  | cons obj objs ih =>
    rw [List.foldl_cons]
    unfold assigned at fits ih ⊢
    cases found : mdriver_mbxid began flags obj.canmid with
    | none =>
      rw [List.filterMap_cons, found, Option.map_none] at fits ⊢
      rw [agree.skip found]
      exact ih agree fits
    | some d =>
      rw [List.filterMap_cons, found, Option.map_some] at fits ⊢
      obtain ⟨agree', fits'⟩ := agree.next found fits
      exact ih agree' fits'

end Runs

/-- Whatever the mini-driver has found flagged, if its counter does not wrap and the messages fit in
the free queues of the devices they are queued on, these are queued as `can_intr` would have done it
there; only the identifier is kept with full messages alone. -/
theorem handover (lib : Libcan) (info : DevInfo lib) (flags : BitVec 32)
    (mcanmsg : Nat → CanMsgObj) (polls : List Poll) (counted : (arrivals polls).length < 2 ^ 16)
    (fits : Fits info (assigned flags info ((arrivals polls).map Prod.snd))) (d : Nat) :
    List.Forall₂ (Same (info.has INFO_FLAGS_RX_FULL_MSG))
      ((mdriver_init_data info flags (some (polls.foldl mini_can ⟨mcanmsg, 0⟩))).queued d)
      (((assigned flags info ((arrivals polls).map Prod.snd)).foldl arrive info).queued d) := by
  have messages := buffered_messages counted mcanmsg
  unfold Minican.messages at messages
  unfold mdriver_init_data
  dsimp only
  rw [messages]
  exact ((Agree.start info).run fits).queued d

/-! ## A message for the second device -/

def lists : Libcan where
  Queue := List CanMsg
  elems ms := ms
  dequeue_element
    | [] => none
    | m :: ms => some (m, ms)
  queue_element ms m := ms ++ [m]
  dequeue_nil empty := by
    cases empty
    rfl
  dequeue_cons some := by
    cases some
    exact ⟨_, rfl, rfl⟩
  elems_queue _ _ := rfl

def blank : CanMsg := ⟨0, 0, 0, 0, 0, 0, 0⟩

def cleared : Nat → CanMsgObj := fun _ => ⟨0, 0, 0, 0⟩

/-- Each device has one free element. -/
def idle : DevInfo lists where
  mode := CANDEV_MODE_IO
  iflags := INFO_FLAGS_RX_FULL_MSG
  canmsg := cleared
  devlist _ := ⟨[blank], []⟩
  received_frames := 0
  sw_receive_q_full := 0

/-- Eight bytes with the identifier `0x101C0000`, in the second receive mailbox -/
def second : Poll where
  flag_rx := 0x4
  canmem _ := ⟨0x02080000, 0x101C0000, 0x11223344, 0x55667788⟩

theorem handover_second :
    (arrivals [second]).length = 1 ∧
      List.Forall₂ (Same (idle.has INFO_FLAGS_RX_FULL_MSG))
        ((mdriver_init_data idle 0 (some ([second].foldl mini_can ⟨cleared, 0⟩))).queued 1)
        (((assigned 0 idle ((arrivals [second]).map Prod.snd)).foldl arrive idle).queued 1) :=
  ⟨by decide, handover lists idle 0 cleared [second] (by decide) (fun _ => List.countP_le_length) 1⟩

/-- Without sorting the message is queued on the first device, not where it has come in. -/
theorem handover_misplaced :
    ¬∀ (lib : Libcan) (info : DevInfo lib) (flags : BitVec 32) (mcanmsg : Nat → CanMsgObj)
      (polls : List Poll), (arrivals polls).length < 2 ^ 16 → Fits info (arrivals polls) →
      Fits info (assigned flags info ((arrivals polls).map Prod.snd)) → ∀ d,
      List.Forall₂ (Same true)
        ((mdriver_init_data info flags (some (polls.foldl mini_can ⟨mcanmsg, 0⟩))).queued d)
        (((arrivals polls).foldl arrive info).queued d) := by
  intro same
  have queued := same lists idle 0 cleared [second] (by decide) (fun _ => List.countP_le_length)
    (fun _ => List.countP_le_length) 2
  exact absurd queued.length_eq (by decide)

end Mx6xBsp.Can
