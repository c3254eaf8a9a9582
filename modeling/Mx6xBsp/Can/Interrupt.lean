import Mx6xBsp.Can.Mailboxes
import Mx6xBsp.Lib.Runs

/-!
# The interrupt handler of the CAN driver
-/

namespace Mx6xBsp.Can

open Mode Runs Slots

variable {lib : Library}

/-! ## The interrupt handler -/

/-- What happens while the handler runs: `hw k` comes before its access number `k` to the flags or
to a receive mailbox, and `waits d` tells if a client waits for a device. -/
structure Gaps where
  hw : Nat → List Hw
  waits : Nat → Bool

/-- The transmit flags, as they are in their register -/
def Mode.oflag_tx (mode : Mode) (irqsrc1 irqsrc2 : BitVec 32) : BitVec 32 :=
  match mode with
  | CANDEV_MODE_RAW_FRAME => irqsrc1 &&& RAW_MODE_TX_IRQ
  | CANDEV_MODE_IO => irqsrc2

/-- The transmit flags, that of the first transmit mailbox being the lowest -/
def Mode.iflag_tx (mode : Mode) (irqsrc1 irqsrc2 : BitVec 32) : BitVec 32 :=
  match mode with
  | CANDEV_MODE_RAW_FRAME =>
    mode.oflag_tx irqsrc1 irqsrc2 >>> (mode.numrx + CAN_FIRST_USER_MAILBOX_INDEX)
  | CANDEV_MODE_IO => mode.oflag_tx irqsrc1 irqsrc2

/-- The lowest transmit mailbox that is flagged -/
def lowestTx (iflag_tx : BitVec 32) (mode : Mode) : Nat :=
  ((List.range mode.numtx).find? fun i => iflag_tx.getLsbD i).elim 0 (mode.txmbxstart + ·)

namespace Driver

variable (s : Driver lib)

/-- Ones are written to the register with the transmit flags. -/
def outTx (flags : BitVec 32) : Driver lib :=
  match s.info.mode with
  | CANDEV_MODE_RAW_FRAME => s.out1 flags
  | CANDEV_MODE_IO => s.out2 flags

/-- The receive part of a pass, and if the pass goes on after it -/
def can_intr_rx (g : Gaps) (irqsrc1 : BitVec 32) : Bool × Driver lib :=
  let iflag_rx := s.info.mode.iflag_rx irqsrc1
  if iflag_rx > 0 then
    let mbxid := lowest iflag_rx s.info.mode
    match s.rxmsg mbxid with
    | (none, s) => (false, s)
    | (some rxmsg, s) =>
      let s := s.raises (g.hw 2)
      let rxmsg := can_intr_message s.info (s.info.canmsg mbxid) rxmsg
      let s := ((s.emptied mbxid).raises (g.hw 3)).out1 iflag_rx
      (!g.waits mbxid, s.received mbxid rxmsg)
  else (true, s)

/-- The transmit part of a pass, and if the pass goes on after it -/
def can_intr_tx (g : Gaps) (irqsrc1 irqsrc2 : BitVec 32) : Bool × Driver lib :=
  let iflag_tx := s.info.mode.iflag_tx irqsrc1 irqsrc2
  if iflag_tx > 0 then
    let mbxid := lowestTx iflag_tx s.info.mode
    let s := s.outTx (s.info.mode.oflag_tx irqsrc1 irqsrc2)
    (!g.waits mbxid, s.transmitted mbxid)
  else (true, s)

/-- The flags that were read are cleared at the end of a pass. -/
def can_intr_end (g : Gaps) (irqsrc1 irqsrc2 : BitVec 32) : Driver lib :=
  (((s.raises (g.hw 5)).out1 irqsrc1).raises (g.hw 6)).out2 irqsrc2

/-- `irqsrc1` -/
def read1 (g : Gaps) : BitVec 32 := (s.raises (g.hw 0)).iflag1

/-- Both registers have been read. -/
def fetched (g : Gaps) : Driver lib := (s.raises (g.hw 0)).raises (g.hw 1)

/-- `irqsrc2` -/
def read2 (g : Gaps) : BitVec 32 := (s.fetched g).iflag2

/-- One pass of the loop, and if there is another one -/
def can_intr_pass (g : Gaps) : Bool × Driver lib :=
  let irqsrc1 := s.read1 g
  let irqsrc2 := s.read2 g
  let s := s.fetched g
  if irqsrc1 = 0 ∧ irqsrc2 = 0 then (false, s)
  else
    match s.can_intr_rx g irqsrc1 with
    | (false, s) => (false, s)
    | (true, s) =>
      match (s.raises (g.hw 4)).can_intr_tx g irqsrc1 irqsrc2 with
      | (false, s) => (false, s)
      | (true, s) => (true, s.can_intr_end g irqsrc1 irqsrc2)

/-- As many passes as there are gaps for, if the loop is not left before -/
def can_intr (s : Driver lib) : List Gaps → Driver lib
  | [] => s
  | g :: gs =>
    match s.can_intr_pass g with
    | (false, s) => s
    | (true, s) => s.can_intr gs

/-! ## What a pass finds -/

variable (g : Gaps)

/-- The pass has read that the mailbox is flagged. -/
def found (i : Nat) : Bool :=
  if i < 32 then (s.read1 g).getLsbD i else (s.read2 g).getLsbD (i - 32)

def rxMbxid : Nat := lowest (s.info.mode.iflag_rx (s.read1 g)) s.info.mode

def txMbxid : Nat := lowestTx (s.info.mode.iflag_tx (s.read1 g) (s.read2 g)) s.info.mode

/-- Only mailboxes in use are flagged. -/
def Tidy : Prop := ∀ i, s.flagged i = true → s.info.mode.Rx i ∨ s.info.mode.Tx i

variable {s g} {i j : Nat} {e : Hw} {es : List Hw}

theorem Tidy.fill (tidy : s.Tidy) (use : s.info.mode.Rx i ∨ s.info.mode.Tx i) (room : i < 64)
    (obj : CanMsgObj) : (s.fill i obj).Tidy := by
  intro j up
  rw [flagged_fill obj room] at up
  rcases Bool.or_eq_true_iff.mp up with here | before
  · rw [← of_decide_eq_true here]
    exact use
  · exact tidy j before

theorem Tidy.raise (tidy : s.Tidy) (e : Hw) : (s.raise e).Tidy := by
  rcases s.raise_inv e with same | ⟨j, obj, room, _, filled, ⟨_, _, rx⟩ | ⟨_, tx, _⟩⟩
  · rwa [same]
  · rw [filled]
    exact tidy.fill (.inl rx) room obj
  · rw [filled]
    exact tidy.fill (.inr tx) room obj

theorem Tidy.raises (tidy : s.Tidy) (es : List Hw) : (s.raises es).Tidy := by
  induction es generalizing s with
  | nil => exact tidy
  | cons e es ih => exact ih (tidy.raise e)

theorem found_up (found : s.found g i = true) :
    ((s.fetched g).slot i).flag = true := by
  unfold Driver.found at found
  split at found
  case isTrue low =>
    apply raises_up
    change flagged _ i = true
    unfold flagged
    rw [if_pos low]
    exact found
  case isFalse high =>
    change flagged _ i = true
    unfold flagged
    rw [if_neg high]
    exact found

theorem Tidy.of_found (tidy : s.Tidy) (found : s.found g i = true) :
    s.info.mode.Rx i ∨ s.info.mode.Tx i := by
  have use := ((tidy.raises (g.hw 0)).raises (g.hw 1)) i (found_up found)
  rwa [(raises_keeps _ _).1, (raises_keeps _ _).1] at use

theorem pos_iff {w : BitVec 32} : w > 0 ↔ ∃ k, w.getLsbD k = true := by
  constructor
  · intro pos
    by_contra none
    have zero : w = 0 := by
      apply BitVec.eq_of_getLsbD_eq
      intro k _
      rw [Bool.eq_false_iff.mpr fun up => none ⟨k, up⟩]
      exact BitVec.getLsbD_zero.symm
    rw [zero] at pos
    exact absurd pos (by decide)
  · rintro ⟨k, up⟩
    rw [gt_iff_lt, BitVec.lt_def]
    apply Nat.pos_of_ne_zero
    intro zero
    have none : w = 0 := BitVec.eq_of_toNat_eq zero
    rw [none] at up
    exact absurd up (by simp)

theorem iflag_rx_bit (mode : Mode) (w : BitVec 32) (k : Nat) :
    (mode.iflag_rx w).getLsbD k =
      match mode with
      | CANDEV_MODE_IO => w.getLsbD k
      | CANDEV_MODE_RAW_FRAME => decide (k = 1) && w.getLsbD k := by
  cases mode with
  | CANDEV_MODE_IO => rfl
  | CANDEV_MODE_RAW_FRAME =>
    have one : RAW_MODE_RX_IRQ = BitVec.twoPow 32 1 := by decide
    dsimp only [Mode.iflag_rx]
    rw [one, BitVec.getLsbD_and, BitVec.getLsbD_twoPow]
    grind

theorem oflag_tx_bit (mode : Mode) (w v : BitVec 32) (k : Nat) :
    (mode.oflag_tx w v).getLsbD k =
      match mode with
      | CANDEV_MODE_IO => v.getLsbD k
      | CANDEV_MODE_RAW_FRAME => decide (k = 2) && w.getLsbD k := by
  cases mode with
  | CANDEV_MODE_IO => rfl
  | CANDEV_MODE_RAW_FRAME =>
    have two : RAW_MODE_TX_IRQ = BitVec.twoPow 32 2 := by decide
    dsimp only [Mode.oflag_tx]
    rw [two, BitVec.getLsbD_and, BitVec.getLsbD_twoPow]
    grind

theorem iflag_tx_raw (w v : BitVec 32) (k : Nat) :
    (CANDEV_MODE_RAW_FRAME.iflag_tx w v).getLsbD k =
      (CANDEV_MODE_RAW_FRAME.oflag_tx w v).getLsbD (2 + k) :=
  BitVec.getLsbD_ushiftRight _ 2 k

theorem rx_found (rx : s.info.mode.Rx i) :
    (s.info.mode.iflag_rx (s.read1 g)).getLsbD i = s.found g i := by
  unfold found
  rw [iflag_rx_bit, if_pos rx.lt]
  cases mode : s.info.mode with
  | CANDEV_MODE_IO => rfl
  | CANDEV_MODE_RAW_FRAME =>
    rw [mode] at rx
    have one : i = 1 := Nat.le_antisymm (Nat.lt_succ_iff.mp rx.2) rx.1
    dsimp only
    rw [decide_eq_true one, Bool.true_and]

theorem Tidy.rx_bit (tidy : s.Tidy) {k : Nat}
    (up : (s.info.mode.iflag_rx (s.read1 g)).getLsbD k = true) :
    s.info.mode.Rx k ∧ s.found g k = true := by
  have low : k < 32 := BitVec.lt_of_getLsbD up
  rw [iflag_rx_bit] at up
  cases mode : s.info.mode with
  | CANDEV_MODE_IO =>
    rw [mode] at up
    have found : s.found g k = true := by
      unfold Driver.found
      rw [if_pos low]
      exact up
    refine ⟨?_, found⟩
    rcases tidy.of_found found with rx | tx
    · rwa [mode] at rx
    · rw [mode] at tx
      exact absurd (Nat.lt_of_lt_of_le low tx.1) (Nat.lt_irrefl _)
  | CANDEV_MODE_RAW_FRAME =>
    rw [mode] at up
    obtain ⟨one, up⟩ := Bool.and_eq_true_iff.mp up
    rw [of_decide_eq_true one] at up ⊢
    exact ⟨by decide, up⟩

theorem Tidy.rx_pos_iff (tidy : s.Tidy) : s.info.mode.iflag_rx (s.read1 g) > 0 ↔
    ∃ i, s.info.mode.Rx i ∧ s.found g i = true := by
  rw [pos_iff]
  constructor
  · rintro ⟨k, up⟩
    exact ⟨k, tidy.rx_bit up⟩
  · rintro ⟨i, rx, found⟩
    exact ⟨i, (rx_found rx).trans found⟩

theorem Tidy.rxMbxid (tidy : s.Tidy) (some : ∃ i, s.info.mode.Rx i ∧ s.found g i = true) :
    s.info.mode.Rx (s.rxMbxid g) ∧ s.found g (s.rxMbxid g) = true := by
  obtain ⟨i, rx, found⟩ := some
  have isSome : ((List.range s.info.mode.rxmbxend).find? fun i =>
      (s.info.mode.iflag_rx (s.read1 g)).getLsbD i).isSome = true :=
    List.find?_isSome.mpr ⟨i, List.mem_range.mpr rx.2, (rx_found rx).trans found⟩
  obtain ⟨k, here⟩ := Option.isSome_iff_exists.mp isSome
  have mbxid : s.rxMbxid g = k := by
    unfold Driver.rxMbxid lowest
    rw [here]
    rfl
  rw [mbxid]
  exact tidy.rx_bit (List.find?_some here)

theorem tx_found {k : Nat} (inside : k < s.info.mode.numtx) :
    (s.info.mode.iflag_tx (s.read1 g) (s.read2 g)).getLsbD k =
      s.found g (s.info.mode.txmbxstart + k) := by
  unfold found
  cases mode : s.info.mode with
  | CANDEV_MODE_IO =>
    have high : ¬ ( CANDEV_MODE_IO.txmbxstart + k < 32) := by
      change ¬(32 + k < 32)
      omega
    have place : CANDEV_MODE_IO.txmbxstart + k - 32 = k := by
      change 32 + k - 32 = k
      omega
    rw [if_neg high, place]
    rfl
  | CANDEV_MODE_RAW_FRAME =>
    rw [mode] at inside
    have zero : k = 0 := Nat.lt_one_iff.mp inside
    rw [iflag_tx_raw, oflag_tx_bit, zero]
    rfl

theorem Tidy.tx_bit (tidy : s.Tidy) {k : Nat}
    (up : (s.info.mode.iflag_tx (s.read1 g) (s.read2 g)).getLsbD k = true) :
    k < s.info.mode.numtx := by
  cases mode : s.info.mode with
  | CANDEV_MODE_IO =>
    rw [mode] at up
    have found : s.found g (32 + k) = true := by
      unfold Driver.found
      rw [if_neg (by omega), Nat.add_sub_cancel_left]
      exact up
    rcases tidy.of_found found with rx | tx
    · exact absurd rx.lt (by omega)
    · rw [mode] at tx
      have inside : 32 + k < 32 + 31 := tx.2
      change k < 31
      omega
  | CANDEV_MODE_RAW_FRAME =>
    rw [mode] at up
    rw [iflag_tx_raw, oflag_tx_bit] at up
    have two := of_decide_eq_true (Bool.and_eq_true_iff.mp up).1
    change k < 1
    omega

theorem Mode.Tx.eq_add {mode : Mode} (tx : mode.Tx i) :
    ∃ k < mode.numtx, i = mode.txmbxstart + k :=
  ⟨i - mode.txmbxstart, by have := tx.1; have := tx.2; omega, by have := tx.1; omega⟩

theorem Tidy.tx_pos_iff (tidy : s.Tidy) :
    s.info.mode.iflag_tx (s.read1 g) (s.read2 g) > 0 ↔
      ∃ i, s.info.mode.Tx i ∧ s.found g i = true := by
  rw [pos_iff]
  constructor
  · rintro ⟨k, up⟩
    have inside := tidy.tx_bit up
    rw [tx_found inside] at up
    exact ⟨_, ⟨Nat.le_add_right _ _, Nat.add_lt_add_left inside _⟩, up⟩
  · rintro ⟨i, tx, found⟩
    obtain ⟨k, inside, rfl⟩ := Mode.Tx.eq_add tx
    exact ⟨k, (tx_found inside).trans found⟩

theorem txMbxid_spec (some : ∃ i, s.info.mode.Tx i ∧ s.found g i = true) :
    s.info.mode.Tx (s.txMbxid g) ∧ s.found g (s.txMbxid g) = true := by
  obtain ⟨i, tx, found⟩ := some
  obtain ⟨k, inside, rfl⟩ := Mode.Tx.eq_add tx
  have isSome : ((List.range s.info.mode.numtx).find? fun i =>
      (s.info.mode.iflag_tx (s.read1 g) (s.read2 g)).getLsbD i).isSome = true :=
    List.find?_isSome.mpr ⟨k, List.mem_range.mpr inside, (tx_found inside).trans found⟩
  obtain ⟨k', here⟩ := Option.isSome_iff_exists.mp isSome
  have inside' := List.mem_range.mp (List.mem_of_find?_eq_some here)
  have mbxid : s.txMbxid g = s.info.mode.txmbxstart + k' := by
    unfold txMbxid lowestTx
    rw [here]
    rfl
  rw [mbxid]
  exact ⟨⟨Nat.le_add_right _ _, Nat.add_lt_add_left inside' _⟩,
    (tx_found inside').symm.trans (List.find?_some here)⟩

/-! ## What a pass does -/

section Conditions

variable (s : Driver lib) (g : Gaps)

def RxSome : Prop := ∃ i, s.info.mode.Rx i ∧ s.found g i = true

def TxSome : Prop := ∃ i, s.info.mode.Tx i ∧ s.found g i = true

/-- There is a free element for a message of the mailbox, or an old message. -/
def HasElement (mbxid : Nat) : Prop := (s.rxmsg mbxid).1.isSome = true

/-- A message is received. -/
def Receives : Prop := s.RxSome g ∧ s.HasElement (s.rxMbxid g)

/-- The pass goes on to the transmit mailboxes. -/
def GoesOn : Prop := s.RxSome g → s.HasElement (s.rxMbxid g) ∧ g.waits (s.rxMbxid g) = false

/-- A transmit mailbox is processed. -/
def Transmits : Prop := s.GoesOn g ∧ s.TxSome g

/-- The pass comes to its end, where all flags that it has found are cleared. -/
def Ends : Prop := s.GoesOn g ∧ (s.TxSome g → g.waits (s.txMbxid g) = false)

end Conditions

theorem fetched_keeps (s : Driver lib) (g : Gaps) : (s.fetched g).info.mode = s.info.mode ∧
    (s.fetched g).info.devlist = s.info.devlist ∧ (s.fetched g).dflags = s.dflags := by
  obtain ⟨mode, devlist, dflags⟩ := raises_keeps s (g.hw 0)
  obtain ⟨mode', devlist', dflags'⟩ := raises_keeps (s.raises (g.hw 0)) (g.hw 1)
  exact ⟨mode'.trans mode, devlist'.trans devlist, dflags'.trans dflags⟩

/-! ### The receive part -/

theorem rx_none (tidy : s.Tidy) (none : ¬s.RxSome g) :
    (s.fetched g).can_intr_rx g (s.read1 g) = (true, s.fetched g) := by
  unfold can_intr_rx
  dsimp only
  rw [(fetched_keeps s g).1, if_neg fun pos => none (tidy.rx_pos_iff.mp pos)]

/-- `v` is where the receive part leads from `t`, but for what it does to the mailboxes. -/
structure Beside (m : Nat) (t v : Driver lib) : Prop where
  mode : v.info.mode = t.info.mode
  dflags : v.dflags = t.dflags
  devlist : ∀ j ≠ m, v.info.devlist j = t.info.devlist j

theorem rxmsg_beside (t : Driver lib) (m : Nat) : Beside m t (t.rxmsg m).2 := by
  unfold rxmsg
  dsimp only
  split
  · exact ⟨rfl, rfl, fun j other => Function.update_of_ne other _ _⟩
  · split
    · exact ⟨rfl, rfl, fun j other => Function.update_of_ne other _ _⟩
    · exact ⟨rfl, rfl, fun _ _ => rfl⟩

theorem rxmsg_isSome (s : Driver lib) (g : Gaps) (m : Nat) :
    ((s.fetched g).rxmsg m).1.isSome = true ↔ s.HasElement m := by
  unfold HasElement
  rw [rxmsg_congr (fetched_keeps s g).2.1]

theorem rx_some (tidy : s.Tidy) (found : s.RxSome g) :
    (s.fetched g).can_intr_rx g (s.read1 g) =
      match (s.fetched g).rxmsg (s.rxMbxid g) with
      | (none, t) => (false, t)
      | (some rxmsg, t) =>
        let t := t.raises (g.hw 2)
        let rxmsg := can_intr_message t.info (t.info.canmsg (s.rxMbxid g)) rxmsg
        let t := ((t.emptied (s.rxMbxid g)).raises (g.hw 3)).out1 (s.info.mode.iflag_rx (s.read1 g))
        (!g.waits (s.rxMbxid g), t.received (s.rxMbxid g) rxmsg) := by
  unfold can_intr_rx
  dsimp only
  rw [(fetched_keeps s g).1, if_pos (tidy.rx_pos_iff.mpr found)]
  rfl

theorem rx_empty (tidy : s.Tidy) (some : s.RxSome g) (empty : ¬s.HasElement (s.rxMbxid g)) :
    ∃ v, (s.fetched g).can_intr_rx g (s.read1 g) = (false, v) ∧ v.slot = (s.fetched g).slot ∧
      Beside (s.rxMbxid g) (s.fetched g) v := by
  have keeps := rxmsg_keeps (s.fetched g) (s.rxMbxid g)
  have beside := rxmsg_beside (s.fetched g) (s.rxMbxid g)
  have none := (rxmsg_isSome s g (s.rxMbxid g)).not.mpr empty
  rw [rx_some tidy some]
  generalize (s.fetched g).rxmsg (s.rxMbxid g) = found at keeps beside none ⊢
  rcases found with ⟨_ | _, v⟩
  · exact ⟨v, rfl, keeps.1.1, beside⟩
  · exact absurd rfl none

theorem rx_receives (tidy : s.Tidy) (receives : s.Receives g) :
    ∃ t v, (s.fetched g).can_intr_rx g (s.read1 g) = (!g.waits (s.rxMbxid g), v) ∧
      t.slot = (s.fetched g).slot ∧ Beside (s.rxMbxid g) (s.fetched g) t ∧
      v.slot = ((((t.raises (g.hw 2)).emptied (s.rxMbxid g)).raises (g.hw 3)).out1
        (s.info.mode.iflag_rx (s.read1 g))).slot ∧
      Beside (s.rxMbxid g) (s.fetched g) v := by
  have keeps := rxmsg_keeps (s.fetched g) (s.rxMbxid g)
  have beside := rxmsg_beside (s.fetched g) (s.rxMbxid g)
  have some := (rxmsg_isSome s g (s.rxMbxid g)).mpr receives.2
  rw [rx_some tidy receives.1]
  generalize (s.fetched g).rxmsg (s.rxMbxid g) = found at keeps beside some ⊢
  rcases found with ⟨_ | rxmsg, t⟩
  · cases some
  · obtain ⟨mode, devlist, dflags⟩ := raises_keeps t (g.hw 2)
    obtain ⟨mode', devlist', dflags'⟩ :=
      raises_keeps ((t.raises (g.hw 2)).emptied (s.rxMbxid g)) (g.hw 3)
    refine ⟨t, _, rfl, keeps.1.1, beside, rfl, ?_, ?_, fun j other => ?_⟩
    · exact (mode'.trans mode).trans beside.mode
    · exact (dflags'.trans dflags).trans beside.dflags
    · refine (Function.update_of_ne other _ _).trans ?_
      change ((((t.raises (g.hw 2)).emptied (s.rxMbxid g)).raises (g.hw 3)).info.devlist j) = _
      rw [devlist', ← beside.devlist j other]
      exact congrFun devlist j

/-! ### The transmit part -/

theorem tx_none {t : Driver lib} (tidy : s.Tidy) (mode : t.info.mode = s.info.mode)
    (none : ¬s.TxSome g) : t.can_intr_tx g (s.read1 g) (s.read2 g) = (true, t) := by
  unfold can_intr_tx
  dsimp only
  rw [mode, if_neg fun pos => none (tidy.tx_pos_iff.mp pos)]

theorem tx_some {t : Driver lib} (tidy : s.Tidy) (mode : t.info.mode = s.info.mode)
    (some : s.TxSome g) : t.can_intr_tx g (s.read1 g) (s.read2 g) =
      (!g.waits (s.txMbxid g),
        (t.outTx (s.info.mode.oflag_tx (s.read1 g) (s.read2 g))).transmitted (s.txMbxid g)) := by
  unfold can_intr_tx
  dsimp only
  rw [mode, if_pos (tidy.tx_pos_iff.mpr some)]
  rfl

theorem slot_out1_cases (s : Driver lib) (flags : BitVec 32) (i : Nat) :
    (s.out1 flags).slot i = s.slot i ∨ (s.out1 flags).slot i = (s.slot i).clear := by
  by_cases here : i < 32 ∧ flags.getLsbD i = true
  · exact .inr (slot_out1 here.1 here.2)
  · exact .inl (slot_out1_of_not here)

theorem slot_out2_cases (s : Driver lib) (flags : BitVec 32) (i : Nat) :
    (s.out2 flags).slot i = s.slot i ∨ (s.out2 flags).slot i = (s.slot i).clear := by
  by_cases here : 32 ≤ i ∧ flags.getLsbD (i - 32) = true
  · exact .inr (slot_out2 here.1 here.2)
  · exact .inl (slot_out2_of_not here)

theorem slot_outTx_rx {t : Driver lib} (mode : t.info.mode = s.info.mode)
    (rx : s.info.mode.Rx i) :
    (t.outTx (s.info.mode.oflag_tx (s.read1 g) (s.read2 g))).slot i = t.slot i := by
  have low := rx.lt
  unfold outTx
  rw [mode]
  cases raw : s.info.mode with
  | CANDEV_MODE_IO =>
    apply slot_out2_of_not
    omega
  | CANDEV_MODE_RAW_FRAME =>
    rw [raw] at rx
    apply slot_out1_of_not
    rw [oflag_tx_bit]
    have one : i < 2 := rx.2
    grind

theorem slot_outTx_tx {t : Driver lib} (mode : t.info.mode = s.info.mode)
    (tx : s.info.mode.Tx i) :
    (t.outTx (s.info.mode.oflag_tx (s.read1 g) (s.read2 g))).slot i =
      if s.found g i = true then (t.slot i).clear else t.slot i := by
  unfold outTx found
  rw [mode]
  cases raw : s.info.mode with
  | CANDEV_MODE_IO =>
    rw [raw] at tx
    have high : 32 ≤ i := tx.1
    rw [if_neg (Nat.not_lt_of_le high)]
    dsimp only
    split
    case isTrue here => exact slot_out2 high here
    case isFalse not => exact slot_out2_of_not fun here => not here.2
  | CANDEV_MODE_RAW_FRAME =>
    rw [raw] at tx
    have two : i = 2 := Nat.le_antisymm (Nat.lt_succ_iff.mp tx.2) tx.1
    have low : i < 32 := by omega
    rw [if_pos low]
    dsimp only
    have bit := oflag_tx_bit CANDEV_MODE_RAW_FRAME (s.read1 g) (s.read2 g) i
    dsimp only at bit
    rw [decide_eq_true two, Bool.true_and] at bit
    split
    case isTrue here => exact slot_out1 low (bit.trans here)
    case isFalse not => exact slot_out1_of_not fun here => not (bit.symm.trans here.2)

theorem outTx_keeps (t : Driver lib) (flags : BitVec 32) :
    (t.outTx flags).info = t.info ∧ (t.outTx flags).dflags = t.dflags := by
  unfold outTx
  split <;> exact ⟨rfl, rfl⟩

/-! ### The end -/

theorem end_lost {t : Driver lib} (lost : (t.slot i).Lost) (g : Gaps) (w v : BitVec 32) :
    ((t.can_intr_end g w v).slot i).Lost := by
  have first := raises_slot Slot.Lost.fill lost (g.hw 5)
  have second : (((t.raises (g.hw 5)).out1 w).slot i).Lost := by
    rcases slot_out1_cases (t.raises (g.hw 5)) w i with same | cleared
    · rwa [same]
    · rw [cleared]
      exact first.clear
  have third := raises_slot Slot.Lost.fill second (g.hw 6)
  unfold can_intr_end
  rcases slot_out2_cases (((t.raises (g.hw 5)).out1 w).raises (g.hw 6)) v i with same | cleared
  · rwa [same]
  · rw [cleared]
    exact third.clear

theorem out1_unfound (unfound : s.found g i = false) (t : Driver lib) :
    (t.out1 (s.read1 g)).slot i = t.slot i := by
  unfold found at unfound
  apply slot_out1_of_not
  rintro ⟨low, here⟩
  rw [if_pos low, here] at unfound
  cases unfound

theorem out2_unfound (unfound : s.found g i = false) (t : Driver lib) :
    (t.out2 (s.read2 g)).slot i = t.slot i := by
  unfold found at unfound
  apply slot_out2_of_not
  rintro ⟨high, here⟩
  rw [if_neg (Nat.not_lt_of_le high), here] at unfound
  cases unfound

theorem end_unfound {t : Driver lib} (unfound : s.found g i = false)
    (sound : (t.slot i).Sound) : ((t.can_intr_end g (s.read1 g) (s.read2 g)).slot i).Sound := by
  unfold can_intr_end
  rw [out2_unfound unfound]
  apply raises_slot Slot.Sound.fill
  rw [out1_unfound unfound]
  exact raises_slot Slot.Sound.fill sound _

theorem end_rx {t : Driver lib} (mode : t.info.mode = s.info.mode) (rx : s.info.mode.Rx i)
    (found : s.found g i = true) (sound : (t.slot i).Sound) :
    (¬((t.slot i).flag = true ∨ Hits i (g.hw 5)) →
      ((t.can_intr_end g (s.read1 g) (s.read2 g)).slot i).Sound) ∧
    ((t.slot i).flag = true ∨ Hits i (g.hw 5) →
      ((t.can_intr_end g (s.read1 g) (s.read2 g)).slot i).Lost) := by
  have here : (s.read1 g).getLsbD i = true := by
    unfold Driver.found at found
    rwa [if_pos rx.lt] at found
  have rx' : t.info.mode.Rx i := by rwa [mode]
  have cleared := slot_out1 (s := t.raises (g.hw 5)) rx.lt here
  have sound' := raises_slot Slot.Sound.fill sound (g.hw 5)
  have last : ∀ u : Driver lib, (u.out2 (s.read2 g)).slot i = u.slot i := fun u =>
    slot_out2_of_not fun high => absurd rx.lt (Nat.not_lt_of_le high.1)
  unfold can_intr_end
  rw [last]
  constructor
  · intro quiet
    have missed := raises_miss rx' fun hit => quiet (.inr hit)
    apply raises_slot Slot.Sound.fill
    rw [cleared]
    apply sound'.clear
    rw [missed]
    exact Bool.eq_false_iff.mpr fun up => quiet (.inl up)
  · intro again
    have up : ((t.raises (g.hw 5)).slot i).flag = true := by
      rcases again with up | hit
      · exact raises_up up _
      · exact (raises_hit rx' hit).1
    apply raises_slot Slot.Lost.fill
    rw [cleared]
    exact sound'.clear_lost up

theorem TxSound.congr {t : Driver lib} (sound : s.TxSound i) (slot : t.slot i = s.slot i)
    (dflags : t.dflags i = s.dflags i) : t.TxSound i := by
  refine ⟨?_, ?_⟩
  · rw [slot]
    exact sound.sound
  · rw [slot, Enabled, dflags]
    exact sound.phase

theorem TxSound.end_unfound {t : Driver lib} (sound : t.TxSound i)
    (mode : t.info.mode = s.info.mode) (tx : s.info.mode.Tx i) (unfound : s.found g i = false) :
    (t.can_intr_end g (s.read1 g) (s.read2 g)).TxSound i := by
  have first := sound.raises (by rwa [mode]) (g.hw 5)
  have second := first.congr (out1_unfound unfound _) rfl
  have mode' : ((t.raises (g.hw 5)).out1 (s.read1 g)).info.mode = s.info.mode :=
    (raises_keeps t (g.hw 5)).1.trans mode
  have third := second.raises (by rwa [mode']) (g.hw 6)
  exact third.congr (out2_unfound unfound _) rfl

/-- The mailbox is enabled, but there is neither a frame to be sent nor one that is out. -/
def Stranded (s : Driver lib) (i : Nat) : Prop :=
  s.Enabled i ∧ ¬s.Outstanding i ∧ s.flagged i = false

theorem TxSound.cleared {t : Driver lib} (sound : s.TxSound i)
    (slot : t.slot i = (s.slot i).clear) (dflags : t.dflags i = s.dflags i) :
    ((s.slot i).flag = false → t.TxSound i) ∧
      ((s.slot i).flag = true → (t.slot i).Lost ∧ t.Stranded i) := by
  constructor
  · intro down
    exact sound.congr (slot.trans (Slot.clear_down down)) dflags
  · intro up
    rcases sound.phase with ⟨_, _, down⟩ | ⟨_, _, down⟩ | ⟨on, quiet, _⟩
    · exact absurd (down.symm.trans up) Bool.false_ne_true
    · exact absurd (down.symm.trans up) Bool.false_ne_true
    · refine ⟨?_, ?_, ?_, ?_⟩
      · rw [slot]
        exact sound.sound.clear_lost up
      · rw [Enabled, dflags]
        exact on
      · rw [outstanding_iff, slot]
        exact quiet
      · exact congrArg Slot.flag slot

theorem raises_up_iff (tx : s.info.mode.Tx i) (es : List Hw) :
    ((s.raises es).slot i).flag = true ↔
      (s.slot i).flag = true ∨ s.Outstanding i ∧ Hw.complete i ∈ es := by
  by_cases out : s.Outstanding i ∧ Hw.complete i ∈ es
  · exact iff_of_true (raises_complete tx out.1 out.2).2 (.inr out)
  · rw [raises_tx_of_not tx out]
    exact ⟨.inl, fun up => up.resolve_right out⟩

theorem Stranded.congr {t : Driver lib} (stranded : s.Stranded i)
    (slot : t.slot i = s.slot i ∨ t.slot i = (s.slot i).clear) (dflags : t.dflags i = s.dflags i) :
    t.Stranded i := by
  obtain ⟨on, quiet, down⟩ := stranded
  have same : t.slot i = s.slot i := slot.elim id fun cleared =>
    cleared.trans (Slot.clear_down down)
  refine ⟨?_, ?_, ?_⟩
  · rw [Enabled, dflags]
    exact on
  · rw [outstanding_iff, same]
    exact quiet
  · exact (congrArg Slot.flag same).trans down

theorem Stranded.raises (stranded : s.Stranded i) (tx : s.info.mode.Tx i) (es : List Hw) :
    (s.raises es).Stranded i :=
  stranded.congr (.inl (raises_tx_of_not tx fun out => stranded.2.1 out.1))
    (congrFun (raises_keeps s es).2.2 i)

theorem Stranded.end_stranded (stranded : s.Stranded i) (tx : s.info.mode.Tx i) (g : Gaps)
    (w v : BitVec 32) : (s.can_intr_end g w v).Stranded i := by
  have first := (stranded.raises tx (g.hw 5)).congr
    (slot_out1_cases (s.raises (g.hw 5)) w i) rfl
  have tx' : ((s.raises (g.hw 5)).out1 w).info.mode.Tx i := by
    have mode : ((s.raises (g.hw 5)).out1 w).info.mode = s.info.mode := (raises_keeps s _).1
    rwa [mode]
  exact (first.raises tx' (g.hw 6)).congr (slot_out2_cases _ v i) rfl

/-- A frame is out again before the flag that has been found is cleared at the end. -/
def Again (g : Gaps) (mode : Mode) (i : Nat) : Prop :=
  Hw.complete i ∈ g.hw 5 ∨ mode = CANDEV_MODE_IO ∧ Hw.complete i ∈ g.hw 6

theorem TxSound.end_tx {t : Driver lib} (sound : t.TxSound i) (mode : t.info.mode = s.info.mode)
    (tx : s.info.mode.Tx i) (found : s.found g i = true) (down : (t.slot i).flag = false) :
    (¬(t.Outstanding i ∧ Again g s.info.mode i) →
      (t.can_intr_end g (s.read1 g) (s.read2 g)).TxSound i) ∧
    (t.Outstanding i ∧ Again g s.info.mode i →
      ((t.can_intr_end g (s.read1 g) (s.read2 g)).slot i).Lost ∧
        (t.can_intr_end g (s.read1 g) (s.read2 g)).Stranded i) := by
  have tx₁ : t.info.mode.Tx i := by rwa [mode]
  have first := sound.raises tx₁ (g.hw 5)
  have up₁ := raises_up_iff tx₁ (g.hw 5)
  have mode₁ : ((t.raises (g.hw 5)).out1 (s.read1 g)).info.mode = s.info.mode :=
    (raises_keeps t (g.hw 5)).1.trans mode
  have tx₂ : ((t.raises (g.hw 5)).out1 (s.read1 g)).info.mode.Tx i := by rwa [mode₁]
  rw [down, Bool.false_eq_true, false_or] at up₁
  unfold Driver.found at found
  unfold can_intr_end Again
  cases raw : s.info.mode with
  | CANDEV_MODE_IO =>
    rw [raw] at tx
    have high : 32 ≤ i := tx.1
    rw [if_neg (Nat.not_lt_of_le high)] at found
    have same : ((t.raises (g.hw 5)).out1 (s.read1 g)).slot i = (t.raises (g.hw 5)).slot i :=
      slot_out1_of_not fun low => absurd low.1 (Nat.not_lt_of_le high)
    have second := first.congr same rfl
    have third := second.raises tx₂ (g.hw 6)
    have up₂ := raises_up_iff tx₂ (g.hw 6)
    rw [outstanding_iff, same] at up₂
    have cleared := third.cleared (slot_out2 high found) rfl
    have up : ((((t.raises (g.hw 5)).out1 (s.read1 g)).raises (g.hw 6)).slot i).flag = true ↔
        t.Outstanding i ∧ (Hw.complete i ∈ g.hw 5 ∨ Hw.complete i ∈ g.hw 6) := by
      rw [up₂, up₁]
      by_cases out : t.Outstanding i ∧ Hw.complete i ∈ g.hw 5
      · exact iff_of_true (.inl out) ⟨out.1, .inl out.2⟩
      · rw [raises_tx_of_not tx₁ out, ← outstanding_iff]
        tauto
    rw [← Bool.not_eq_true, up] at cleared
    simpa using cleared
  | CANDEV_MODE_RAW_FRAME =>
    rw [raw] at tx
    have low : i < 32 := Nat.lt_of_lt_of_le tx.2 (by decide)
    rw [if_pos low] at found
    have cleared := first.cleared (slot_out1 (s := t.raises (g.hw 5)) low found) rfl
    have last : ∀ u : Driver lib, (u.out2 (s.read2 g)).slot i = u.slot i := fun u =>
      slot_out2_of_not fun high => absurd low (Nat.not_lt_of_le high.1)
    rw [← Bool.not_eq_true, up₁] at cleared
    constructor
    · intro quiet
      have second := cleared.1 fun out => quiet ⟨out.1, .inl out.2⟩
      exact (second.raises tx₂ (g.hw 6)).congr (last _) rfl
    · rintro ⟨out, here | io⟩
      · obtain ⟨lost, stranded⟩ := cleared.2 ⟨out, here⟩
        rw [last]
        exact ⟨raises_slot Slot.Lost.fill lost _,
          (stranded.raises tx₂ (g.hw 6)).congr (.inl (last _)) rfl⟩
      · cases io.1

/-! ## A whole pass -/

/-- Of the receive mailboxes nothing is lost. -/
structure RxInv (s : Driver lib) : Prop where
  tidy : s.Tidy
  rx : ∀ i, s.info.mode.Rx i → (s.slot i).Sound

/-- Of the transmit mailboxes nothing is lost, and they are enabled exactly while they are in
use. -/
structure TxInv (s : Driver lib) : Prop where
  tidy : s.Tidy
  tx : ∀ i, s.info.mode.Tx i → s.TxSound i

section Parts

variable (s : Driver lib) (g : Gaps)

def afterRx : Driver lib := ((s.fetched g).can_intr_rx g (s.read1 g)).2

def afterTx : Driver lib :=
  (((s.afterRx g).raises (g.hw 4)).can_intr_tx g (s.read1 g) (s.read2 g)).2

/-- No flag is up. -/
abbrev Quiet : Prop := s.read1 g = 0 ∧ s.read2 g = 0

end Parts

theorem not_quiet (found : s.found g i = true) : ¬s.Quiet g := by
  rintro ⟨first, second⟩
  unfold Driver.found at found
  rw [first, second] at found
  simp at found

theorem goes_iff (tidy : s.Tidy) :
    ((s.fetched g).can_intr_rx g (s.read1 g)).1 = true ↔ s.GoesOn g := by
  by_cases some : s.RxSome g
  · by_cases element : s.HasElement (s.rxMbxid g)
    · obtain ⟨_, v, part, _⟩ := rx_receives tidy ⟨some, element⟩
      rw [part]
      unfold GoesOn
      simp [some, element]
    · obtain ⟨v, part, _⟩ := rx_empty tidy some element
      rw [part]
      exact iff_of_false Bool.false_ne_true fun goes => element (goes some).1
  · rw [rx_none tidy some]
    exact iff_of_true rfl fun some' => absurd some' some

theorem afterRx_beside (tidy : s.Tidy) : (s.afterRx g).info.mode = s.info.mode ∧
    (s.afterRx g).dflags = s.dflags ∧
    ∀ j, s.info.mode.Tx j → (s.afterRx g).info.devlist j = s.info.devlist j := by
  obtain ⟨mode, devlist, dflags⟩ := fetched_keeps s g
  by_cases some : s.RxSome g
  · have apart : ∀ j, s.info.mode.Tx j → j ≠ s.rxMbxid g := fun j tx =>
      tx.ne (tidy.rxMbxid some).1
    have done : Beside (s.rxMbxid g) (s.fetched g) (s.afterRx g) := by
      unfold afterRx
      by_cases element : s.HasElement (s.rxMbxid g)
      · obtain ⟨_, v, part, _, _, _, beside⟩ := rx_receives tidy ⟨some, element⟩
        rw [part]
        exact beside
      · obtain ⟨v, part, _, beside⟩ := rx_empty tidy some element
        rw [part]
        exact beside
    refine ⟨done.mode.trans mode, done.dflags.trans dflags, fun j tx => ?_⟩
    exact (done.devlist j (apart j tx)).trans (congrFun devlist j)
  · unfold afterRx
    rw [rx_none tidy some]
    exact ⟨mode, dflags, fun j _ => congrFun devlist j⟩

theorem tx_goes_iff (tidy : s.Tidy) :
    (((s.afterRx g).raises (g.hw 4)).can_intr_tx g (s.read1 g) (s.read2 g)).1 = true ↔
      (s.TxSome g → g.waits (s.txMbxid g) = false) := by
  have mode : ((s.afterRx g).raises (g.hw 4)).info.mode = s.info.mode :=
    (raises_keeps _ _).1.trans (afterRx_beside tidy).1
  by_cases some : s.TxSome g
  · rw [tx_some tidy mode some]
    simp [some]
  · rw [tx_none tidy mode some]
    exact iff_of_true rfl fun some' => absurd some' some

theorem pass_quiet (quiet : s.Quiet g) : (s.can_intr_pass g).2 = s.fetched g := by
  unfold can_intr_pass
  dsimp only
  rw [if_pos quiet]

theorem pass_eq (some : ¬s.Quiet g) : (s.can_intr_pass g).2 =
    if ((s.fetched g).can_intr_rx g (s.read1 g)).1 = true then
      if (((s.afterRx g).raises (g.hw 4)).can_intr_tx g (s.read1 g) (s.read2 g)).1 = true then
        (s.afterTx g).can_intr_end g (s.read1 g) (s.read2 g)
      else s.afterTx g
    else s.afterRx g := by
  unfold can_intr_pass afterTx afterRx
  dsimp only
  rw [if_neg some]
  rcases (s.fetched g).can_intr_rx g (s.read1 g) with ⟨_ | _, t⟩
  · rfl
  · dsimp only
    rcases (t.raises (g.hw 4)).can_intr_tx g (s.read1 g) (s.read2 g) with ⟨_ | _, u⟩
    · rfl
    · rfl

theorem pass_left (tidy : s.Tidy) (left : ¬s.GoesOn g) : (s.can_intr_pass g).2 = s.afterRx g := by
  have some : s.RxSome g := by
    by_contra none
    exact left fun some => absurd some none
  obtain ⟨i, _, found⟩ := some
  rw [pass_eq (not_quiet found), if_neg ((goes_iff tidy).not.mpr left)]

theorem pass_returned (tidy : s.Tidy) (goes : s.GoesOn g) (stays : ¬s.Ends g) :
    (s.can_intr_pass g).2 = s.afterTx g := by
  have stop := (tx_goes_iff tidy).not.mpr fun ends => stays ⟨goes, ends⟩
  have some : s.TxSome g := by
    by_contra none
    exact stays ⟨goes, fun some => absurd some none⟩
  obtain ⟨i, _, found⟩ := some
  rw [pass_eq (not_quiet found), if_pos ((goes_iff tidy).mpr goes), if_neg stop]

theorem pass_ended (tidy : s.Tidy) (ends : s.Ends g) (some : ¬s.Quiet g) :
    (s.can_intr_pass g).2 = (s.afterTx g).can_intr_end g (s.read1 g) (s.read2 g) := by
  rw [pass_eq some, if_pos ((goes_iff tidy).mpr ends.1), if_pos ((tx_goes_iff tidy).mpr ends.2)]

/-! ### Receive mailboxes -/

/-- If a pass receives a message, it has found no other receive mailbox flagged, and no other frame
comes in at the mailbox before its flag is cleared for the last time. -/
def RxFine (s : Driver lib) (g : Gaps) : Prop :=
  s.Receives g → (∀ i, s.info.mode.Rx i → s.found g i = true → i = s.rxMbxid g) ∧
    ¬Hits (s.rxMbxid g) (g.hw 3) ∧
    (s.Ends g → ¬Hits (s.rxMbxid g) (g.hw 4) ∧ ¬Hits (s.rxMbxid g) (g.hw 5))

theorem fetched_sound (sound : (s.slot i).Sound) (g : Gaps) : ((s.fetched g).slot i).Sound :=
  raises_slot Slot.Sound.fill (raises_slot Slot.Sound.fill sound _) _

theorem afterRx_unfound (inv : s.RxInv) (rx : s.info.mode.Rx i)
    (not : ¬(s.found g i = true ∧ s.Receives g)) : ((s.afterRx g).slot i).Sound := by
  have sound := fetched_sound (inv.rx i rx) g
  unfold afterRx
  by_cases some : s.RxSome g
  · by_cases element : s.HasElement (s.rxMbxid g)
    · have unfound : s.found g i ≠ true := fun found => not ⟨found, some, element⟩
      obtain ⟨t, v, part, start, _, slot, _⟩ := rx_receives inv.tidy ⟨some, element⟩
      have other : i ≠ s.rxMbxid g := by
        rintro rfl
        exact unfound (inv.tidy.rxMbxid some).2
      rw [part, slot, slot_out1_of_not fun here => unfound ((rx_found rx).symm.trans here.2)]
      apply raises_slot Slot.Sound.fill
      rw [slot_emptied_of_ne other]
      apply raises_slot Slot.Sound.fill
      rw [start]
      exact sound
    · obtain ⟨v, part, slot, _⟩ := rx_empty inv.tidy some element
      rw [part, slot]
      exact sound
  · rw [rx_none inv.tidy some]
    exact sound

/-- Of the mailboxes that have been found, the flag of all is cleared, and one message is
received. -/
theorem afterRx_found (inv : s.RxInv) (receives : s.Receives g) (rx : s.info.mode.Rx i)
    (found : s.found g i = true) :
    (i = s.rxMbxid g ∧ ¬Hits i (g.hw 3) →
      ((s.afterRx g).slot i).Sound ∧ ((s.afterRx g).slot i).flag = false) ∧
    (¬(i = s.rxMbxid g ∧ ¬Hits i (g.hw 3)) → ((s.afterRx g).slot i).Lost) := by
  obtain ⟨t, v, part, start, beside, slot, _⟩ := rx_receives inv.tidy receives
  have mode : t.info.mode = s.info.mode := beside.mode.trans (fetched_keeps s g).1
  have sound : ((t.raises (g.hw 2)).slot i).Sound := by
    apply raises_slot Slot.Sound.fill
    rw [start]
    exact fetched_sound (inv.rx i rx) g
  have up : ((t.raises (g.hw 2)).slot i).flag = true := by
    apply raises_up
    rw [start]
    exact found_up found
  have rx' : ((t.raises (g.hw 2)).emptied (s.rxMbxid g)).info.mode.Rx i := by
    change (t.raises (g.hw 2)).info.mode.Rx i
    rwa [(raises_keeps _ _).1, mode]
  have cleared : ((s.afterRx g).slot i) =
      ((((t.raises (g.hw 2)).emptied (s.rxMbxid g)).raises (g.hw 3)).slot i).clear := by
    unfold afterRx
    rw [part, slot, slot_out1 rx.lt ((rx_found rx).trans found)]
  rw [cleared]
  rcases eq_or_ne i (s.rxMbxid g) with rfl | other
  · have taken : (((t.raises (g.hw 2)).emptied (s.rxMbxid g)).slot (s.rxMbxid g)).Taken := by
      rw [slot_emptied]
      exact sound.take up _
    constructor
    · rintro ⟨_, missed⟩
      rw [raises_miss rx' missed]
      exact ⟨taken.clear, rfl⟩
    · intro bad
      have hit : Hits (s.rxMbxid g) (g.hw 3) := by
        by_contra missed
        exact bad ⟨rfl, missed⟩
      obtain ⟨up', sound'⟩ := raises_hit rx' hit
      exact (sound' taken).clear_lost up'
  · refine ⟨fun same => absurd same.1 other, fun _ => ?_⟩
    have same := slot_emptied_of_ne (s := t.raises (g.hw 2)) other
    apply Slot.Sound.clear_lost
    · apply raises_slot Slot.Sound.fill
      rw [same]
      exact sound
    · apply raises_up
      rw [same]
      exact up

theorem before_tx_mode (tidy : s.Tidy) :
    ((s.afterRx g).raises (g.hw 4)).info.mode = s.info.mode :=
  (raises_keeps _ _).1.trans (afterRx_beside tidy).1

theorem afterTx_rx (tidy : s.Tidy) (rx : s.info.mode.Rx i) :
    (s.afterTx g).slot i = ((s.afterRx g).raises (g.hw 4)).slot i := by
  have mode := before_tx_mode (g := g) tidy
  unfold afterTx
  by_cases some : s.TxSome g
  · have other : i ≠ s.txMbxid g := ((txMbxid_spec some).1.ne rx).symm
    rw [tx_some tidy mode some, (transmitted_of_ne other rx.ne_first).1, slot_outTx_rx mode rx]
  · rw [tx_none tidy mode some]

theorem afterTx_mode (tidy : s.Tidy) : (s.afterTx g).info.mode = s.info.mode := by
  have mode := before_tx_mode (g := g) tidy
  unfold afterTx
  by_cases some : s.TxSome g
  · rw [tx_some tidy mode some]
    have kept : ∀ (t : Driver lib) (i : Nat), (t.transmitted i).info.mode = t.info.mode := by
      intro t i
      unfold transmitted
      dsimp only
      split <;> rfl
    rw [kept, (outTx_keeps _ _).1, mode]
  · rw [tx_none tidy mode some, mode]

theorem pass_rx_stays (inv : s.RxInv) (rx : s.info.mode.Rx i) (found : s.found g i = true)
    (lost : ((s.afterRx g).slot i).Lost) : ((s.can_intr_pass g).2.slot i).Lost := by
  have lost' : ((s.afterTx g).slot i).Lost := by
    rw [afterTx_rx inv.tidy rx]
    exact raises_slot Slot.Lost.fill lost _
  by_cases goes : s.GoesOn g
  · by_cases ends : s.Ends g
    · rw [pass_ended inv.tidy ends (not_quiet found)]
      exact end_lost lost' g _ _
    · rwa [pass_returned inv.tidy goes ends]
  · rwa [pass_left inv.tidy goes]

theorem pass_rx_sound (inv : s.RxInv) (fine : s.RxFine g) (rx : s.info.mode.Rx i) :
    ((s.can_intr_pass g).2.slot i).Sound := by
  have sound : ((s.afterRx g).slot i).Sound := by
    by_cases taken : s.found g i = true ∧ s.Receives g
    · obtain ⟨single, missed, _⟩ := fine taken.2
      have same := single i rx taken.1
      rw [← same] at missed
      exact ((afterRx_found inv taken.2 rx taken.1).1 ⟨same, missed⟩).1
    · exact afterRx_unfound inv rx taken
  have sound' : ((s.afterTx g).slot i).Sound := by
    rw [afterTx_rx inv.tidy rx]
    exact raises_slot Slot.Sound.fill sound _
  by_cases quiet : s.Quiet g
  · rw [pass_quiet quiet]
    exact fetched_sound (inv.rx i rx) g
  · by_cases goes : s.GoesOn g
    · by_cases ends : s.Ends g
      · rw [pass_ended inv.tidy ends quiet]
        cases found : s.found g i with
        | false => exact end_unfound found sound'
        | true =>
          have receives : s.Receives g := ⟨⟨i, rx, found⟩, (goes ⟨i, rx, found⟩).1⟩
          obtain ⟨single, missed, later⟩ := fine receives
          obtain ⟨missed₄, missed₅⟩ := later ends
          have same := single i rx found
          rw [← same] at missed missed₄ missed₅
          have down := ((afterRx_found inv receives rx found).1 ⟨same, missed⟩).2
          have rx' : (s.afterRx g).info.mode.Rx i := by rwa [(afterRx_beside inv.tidy).1]
          apply (end_rx (afterTx_mode inv.tidy) rx found sound').1
          rintro (up | hit)
          · rw [afterTx_rx inv.tidy rx, raises_miss rx' missed₄, down] at up
            cases up
          · exact missed₅ hit
      · rwa [pass_returned inv.tidy goes ends]
    · rwa [pass_left inv.tidy goes]

theorem pass_rx_lost (inv : s.RxInv) (not : ¬s.RxFine g) :
    ∃ i, s.info.mode.Rx i ∧ ((s.can_intr_pass g).2.slot i).Lost := by
  unfold RxFine at not
  push Not at not
  obtain ⟨receives, bad⟩ := not
  obtain ⟨rx, found⟩ := inv.tidy.rxMbxid receives.1
  by_cases single : ∀ i, s.info.mode.Rx i → s.found g i = true → i = s.rxMbxid g
  · by_cases hit : Hits (s.rxMbxid g) (g.hw 3)
    · have lost := (afterRx_found inv receives rx found).2 fun good => good.2 hit
      exact ⟨_, rx, pass_rx_stays inv rx found lost⟩
    · obtain ⟨ends, late⟩ := bad single hit
      obtain ⟨sound, _⟩ := (afterRx_found inv receives rx found).1 ⟨rfl, hit⟩
      have rx' : (s.afterRx g).info.mode.Rx (s.rxMbxid g) := by
        rwa [(afterRx_beside inv.tidy).1]
      have sound' : ((s.afterTx g).slot (s.rxMbxid g)).Sound := by
        rw [afterTx_rx inv.tidy rx]
        exact raises_slot Slot.Sound.fill sound _
      refine ⟨_, rx, ?_⟩
      rw [pass_ended inv.tidy ends (not_quiet found)]
      apply (end_rx (afterTx_mode inv.tidy) rx found sound').2
      by_cases hit₄ : Hits (s.rxMbxid g) (g.hw 4)
      · left
        rw [afterTx_rx inv.tidy rx]
        exact (raises_hit rx' hit₄).1
      · exact .inr (late hit₄)
  · push Not at single
    obtain ⟨i, rx', found', other⟩ := single
    have lost := (afterRx_found inv receives rx' found').2 fun good => other good.1
    exact ⟨i, rx', pass_rx_stays inv rx' found' lost⟩

/-! ### Transmit mailboxes -/

/-- A message waits to be sent from the mailbox. -/
def HasNext (s : Driver lib) (i : Nat) : Prop :=
  (lib.dequeue_element (s.info.devlist i).msg_queue).isSome = true

/-- If a pass processes a transmit mailbox, it has found no other one flagged, and if it sends the
next message, this is not out before the flag is cleared for the last time. -/
def TxFine (s : Driver lib) (g : Gaps) : Prop :=
  s.Transmits g → (∀ i, s.info.mode.Tx i → s.found g i = true → i = s.txMbxid g) ∧
    (s.Ends g → s.HasNext (s.txMbxid g) → ¬Again g s.info.mode (s.txMbxid g))

theorem fetched_tx (inv : s.TxInv) (tx : s.info.mode.Tx i) (g : Gaps) :
    (s.fetched g).TxSound i := by
  have first := (inv.tx i tx).raises tx (g.hw 0)
  exact first.raises (by rwa [(raises_keeps s (g.hw 0)).1]) (g.hw 1)

theorem afterRx_tx (inv : s.TxInv) (tx : s.info.mode.Tx i) :
    (s.afterRx g).TxSound i ∧
      (s.found g i = true → ((s.afterRx g).slot i).flag = true) := by
  have sound := fetched_tx inv tx g
  have up : s.found g i = true → ((s.fetched g).slot i).flag = true := found_up
  unfold afterRx
  by_cases some : s.RxSome g
  · have other : i ≠ s.rxMbxid g := tx.ne (inv.tidy.rxMbxid some).1
    by_cases element : s.HasElement (s.rxMbxid g)
    · obtain ⟨t, v, part, start, beside, slot, beside'⟩ := rx_receives inv.tidy ⟨some, element⟩
      have modes := (fetched_keeps s g).1
      have tx₁ : t.info.mode.Tx i := by rwa [beside.mode, modes]
      have tx₂ : ((t.raises (g.hw 2)).emptied (s.rxMbxid g)).info.mode.Tx i := by
        change (t.raises (g.hw 2)).info.mode.Tx i
        rwa [(raises_keeps t (g.hw 2)).1]
      have first : t.TxSound i := sound.congr (congrFun start i) (congrFun beside.dflags i)
      have second := (first.raises tx₁ (g.hw 2)).congr (slot_emptied_of_ne other) rfl
      have third := second.raises tx₂ (g.hw 3)
      have unread : ¬(i < 32 ∧ (s.info.mode.iflag_rx (s.read1 g)).getLsbD i = true) := fun here =>
        (tx.ne (inv.tidy.rx_bit here.2).1) rfl
      have same : v.slot i =
          (((t.raises (g.hw 2)).emptied (s.rxMbxid g)).raises (g.hw 3)).slot i := by
        rw [slot, slot_out1_of_not unread]
      have dflags : v.dflags =
          (((t.raises (g.hw 2)).emptied (s.rxMbxid g)).raises (g.hw 3)).dflags := by
        rw [(raises_keeps _ _).2.2, beside'.dflags, ← beside.dflags]
        exact (raises_keeps t (g.hw 2)).2.2.symm
      rw [part]
      refine ⟨third.congr same (congrFun dflags i), fun found => ?_⟩
      change (v.slot i).flag = true
      rw [same]
      apply raises_up
      rw [slot_emptied_of_ne other]
      apply raises_up
      rw [start]
      exact up found
    · obtain ⟨v, part, slot, beside⟩ := rx_empty inv.tidy some element
      rw [part]
      refine ⟨sound.congr (congrFun slot i) (congrFun beside.dflags i), fun found => ?_⟩
      change (v.slot i).flag = true
      rw [slot]
      exact up found
  · rw [rx_none inv.tidy some]
    exact ⟨sound, up⟩

theorem before_tx (inv : s.TxInv) (tx : s.info.mode.Tx i) :
    ((s.afterRx g).raises (g.hw 4)).TxSound i ∧
      (s.found g i = true → (((s.afterRx g).raises (g.hw 4)).slot i).flag = true) := by
  obtain ⟨sound, up⟩ := afterRx_tx (g := g) inv tx
  exact ⟨sound.raises (by rwa [(afterRx_beside inv.tidy).1]) _, fun found => raises_up (up found) _⟩

theorem afterTx_unfound (inv : s.TxInv) (tx : s.info.mode.Tx i) (unfound : s.found g i = false) :
    (s.afterTx g).TxSound i := by
  have mode := before_tx_mode (g := g) inv.tidy
  obtain ⟨sound, _⟩ := before_tx (g := g) inv tx
  unfold afterTx
  by_cases some : s.TxSome g
  · have other : i ≠ s.txMbxid g := by
      rintro rfl
      exact Bool.false_ne_true (unfound.symm.trans (txMbxid_spec some).2)
    obtain ⟨slot, dflags⟩ := transmitted_of_ne
      (s := ((s.afterRx g).raises (g.hw 4)).outTx (s.info.mode.oflag_tx (s.read1 g) (s.read2 g)))
      other tx.ne_first
    rw [tx_some inv.tidy mode some]
    refine sound.congr ?_ ?_
    · rw [slot, slot_outTx_tx mode tx, if_neg (by rw [unfound]; exact Bool.false_ne_true)]
    · rw [dflags, (outTx_keeps _ _).2]
  · rw [tx_none inv.tidy mode some]
    exact sound

theorem afterTx_found (inv : s.TxInv) (tx : s.info.mode.Tx i) (found : s.found g i = true) :
    (i = s.txMbxid g → (s.afterTx g).TxSound i ∧ ((s.afterTx g).slot i).flag = false ∧
      ((s.afterTx g).Outstanding i ↔ s.HasNext i)) ∧
    (i ≠ s.txMbxid g → ((s.afterTx g).slot i).Lost ∧ (s.afterTx g).Stranded i) := by
  have mode := before_tx_mode (g := g) inv.tidy
  obtain ⟨sound, up⟩ := before_tx (g := g) inv tx
  have cleared := slot_outTx_tx (g := g) mode tx
  rw [if_pos found] at cleared
  have some : s.TxSome g := ⟨i, tx, found⟩
  obtain ⟨info, dflags⟩ := outTx_keeps ((s.afterRx g).raises (g.hw 4))
    (s.info.mode.oflag_tx (s.read1 g) (s.read2 g))
  unfold afterTx
  rw [tx_some inv.tidy mode some]
  constructor
  · rintro rfl
    have done := sound.transmitted (up found) cleared dflags tx.ne_first
    rw [info, (raises_keeps _ _).2.1, (afterRx_beside inv.tidy).2.2 _ tx] at done
    exact done
  · intro other
    obtain ⟨slot', dflags'⟩ := transmitted_of_ne
      (s := ((s.afterRx g).raises (g.hw 4)).outTx (s.info.mode.oflag_tx (s.read1 g) (s.read2 g)))
      other tx.ne_first
    refine (sound.cleared (slot'.trans cleared) ?_).2 (up found)
    rw [dflags', dflags]

theorem pass_tx_sound (inv : s.TxInv) (fine : s.TxFine g) (tx : s.info.mode.Tx i) :
    (s.can_intr_pass g).2.TxSound i := by
  by_cases quiet : s.Quiet g
  · rw [pass_quiet quiet]
    exact fetched_tx inv tx g
  · by_cases goes : s.GoesOn g
    · cases found : s.found g i with
      | false =>
        have sound := afterTx_unfound inv tx found
        by_cases ends : s.Ends g
        · rw [pass_ended inv.tidy ends quiet]
          exact sound.end_unfound (afterTx_mode inv.tidy) tx found
        · rwa [pass_returned inv.tidy goes ends]
      | true =>
        obtain ⟨single, later⟩ := fine ⟨goes, i, tx, found⟩
        have same := single i tx found
        obtain ⟨sound, down, next⟩ := (afterTx_found inv tx found).1 same
        by_cases ends : s.Ends g
        · rw [pass_ended inv.tidy ends quiet]
          apply (sound.end_tx (afterTx_mode inv.tidy) tx found down).1
          rintro ⟨out, again⟩
          have later' := later ends
          rw [← same] at later'
          exact later' (next.mp out) again
        · rwa [pass_returned inv.tidy goes ends]
    · rw [pass_left inv.tidy goes]
      exact (afterRx_tx inv tx).1

theorem pass_tx_lost (inv : s.TxInv) (not : ¬s.TxFine g) : ∃ i, s.info.mode.Tx i ∧
    ((s.can_intr_pass g).2.slot i).Lost ∧ (s.can_intr_pass g).2.Stranded i := by
  unfold TxFine at not
  push Not at not
  obtain ⟨⟨goes, some⟩, bad⟩ := not
  obtain ⟨tx, found⟩ := txMbxid_spec some
  by_cases single : ∀ i, s.info.mode.Tx i → s.found g i = true → i = s.txMbxid g
  · obtain ⟨ends, next, again⟩ := bad single
    obtain ⟨sound, down, next'⟩ := (afterTx_found inv tx found).1 rfl
    refine ⟨_, tx, ?_⟩
    rw [pass_ended inv.tidy ends (not_quiet found)]
    exact (sound.end_tx (afterTx_mode inv.tidy) tx found down).2 ⟨next'.mpr next, again⟩
  · push Not at single
    obtain ⟨i, tx', found', other⟩ := single
    obtain ⟨lost, stranded⟩ := (afterTx_found inv tx' found').2 other
    refine ⟨i, tx', ?_⟩
    by_cases ends : s.Ends g
    · rw [pass_ended inv.tidy ends (not_quiet found)]
      exact ⟨end_lost lost g _ _,
        stranded.end_stranded (by rwa [afterTx_mode inv.tidy]) g _ _⟩
    · rw [pass_returned inv.tidy goes ends]
      exact ⟨lost, stranded⟩

end Driver

end Mx6xBsp.Can
