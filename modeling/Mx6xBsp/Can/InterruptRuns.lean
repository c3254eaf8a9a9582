import Mx6xBsp.Can.Interrupt

/-!
# Runs of the CAN driver

Frames come in and go out, the client library queues messages and takes them, transmissions are
started from outside, and the interrupt handler passes through its loop, in any order. A pass
clears all the flags that it has found, but serves one receive mailbox and one transmit mailbox,
and it clears their flags again at its end. So messages are received and transmissions are noted
without a loss exactly if every pass finds one mailbox of a kind and the controller does not use it
again too early (`served_iff`); for the transmit mailboxes alone, that is when none of them is
stranded (`progress_iff`). -/

namespace Mx6xBsp.Can

open Mode Runs Slots

variable {lib : Library}

/-- What happens. An invocation of `can_intr` is a row of passes (`can_intr_passes`), `client` is
what the client library makes of the queues of a device. -/
inductive Step (lib : Library)
  | hw (e : Hw)
  | client (d : Nat) (dev : Device lib.toLibcan)
  | transmit (d : Nat)
  | pass (g : Gaps)

namespace Driver

variable {s : Driver lib} {g : Gaps} {i : Nat} {step : Step lib} {steps : List (Step lib)}

/-- The client library transmits on the devices of transmit mailboxes only. -/
def next (s : Driver lib) : Step lib → Driver lib
  | .hw e => s.raise e
  | .client d dev => s.setDevice d dev
  | .transmit d => if s.info.mode.Tx d then s.can_drvr_transmit d else s
  | .pass g => (s.can_intr_pass g).2

theorem can_intr_passes (s : Driver lib) (gs : List Gaps) :
    ∃ gs', gs' <+: gs ∧ s.can_intr gs = (gs'.map Step.pass).foldl next s := by
  induction gs generalizing s with
  | nil => exact ⟨[], List.nil_prefix, rfl⟩
  | cons g gs ih =>
    unfold can_intr
    rcases pass : s.can_intr_pass g with ⟨_ | _, t⟩
    · refine ⟨[g], List.prefix_append [g] gs, ?_⟩
      change t = (s.can_intr_pass g).2
      rw [pass]
    · obtain ⟨gs', below, same⟩ := ih t
      refine ⟨g :: gs', List.cons_prefix_cons.mpr ⟨rfl, below⟩, ?_⟩
      change t.can_intr gs = (gs'.map Step.pass).foldl next (s.can_intr_pass g).2
      rw [pass]
      exact same

/-! ## Flags that are up -/

theorem Tidy.lower {t : Driver lib} (tidy : s.Tidy) (mode : t.info.mode = s.info.mode)
    (lower : ∀ i, t.flagged i = true → s.flagged i = true) : t.Tidy := by
  intro i up
  rw [mode]
  exact tidy i (lower i up)

theorem Tidy.out1 (tidy : s.Tidy) (flags : BitVec 32) : (s.out1 flags).Tidy := by
  refine tidy.lower rfl fun i up => ?_
  rw [flagged_out1] at up
  exact (Bool.and_eq_true_iff.mp up).1

theorem Tidy.out2 (tidy : s.Tidy) (flags : BitVec 32) : (s.out2 flags).Tidy := by
  refine tidy.lower rfl fun i up => ?_
  rw [flagged_out2] at up
  exact (Bool.and_eq_true_iff.mp up).1

theorem Tidy.of_slot {t : Driver lib} (tidy : s.Tidy) (mode : t.info.mode = s.info.mode)
    (slot : t.slot = s.slot) : t.Tidy := by
  apply tidy.lower mode
  intro i up
  have same := congrArg Slot.flag (congrFun slot i)
  exact same.symm.trans up

theorem Tidy.fetched (tidy : s.Tidy) (g : Gaps) : (s.fetched g).Tidy :=
  (tidy.raises (g.hw 0)).raises (g.hw 1)

theorem Tidy.afterRx (tidy : s.Tidy) (g : Gaps) : (s.afterRx g).Tidy := by
  have start := tidy.fetched g
  unfold Driver.afterRx
  by_cases some : s.RxSome g
  · by_cases element : s.HasElement (s.rxMbxid g)
    · obtain ⟨t, v, part, slot, beside, slot', beside'⟩ := rx_receives tidy ⟨some, element⟩
      have first := (start.of_slot beside.mode slot).raises (g.hw 2)
      have second : ((t.raises (g.hw 2)).emptied (s.rxMbxid g)).Tidy := first.lower rfl fun _ => id
      have third := (second.raises (g.hw 3)).out1 (s.info.mode.iflag_rx (s.read1 g))
      rw [part]
      refine third.of_slot ?_ slot'
      rw [beside'.mode, ← beside.mode]
      exact ((raises_keeps ((t.raises (g.hw 2)).emptied (s.rxMbxid g)) (g.hw 3)).1.trans
        (raises_keeps t (g.hw 2)).1).symm
    · obtain ⟨v, part, slot, beside⟩ := rx_empty tidy some element
      rw [part]
      exact start.of_slot beside.mode slot
  · rw [rx_none tidy some]
    exact start

theorem Tidy.outTx (tidy : s.Tidy) (flags : BitVec 32) : (s.outTx flags).Tidy := by
  unfold Driver.outTx
  split
  · exact tidy.out1 flags
  · exact tidy.out2 flags

theorem transmitted_keeps (s : Driver lib) (i : Nat) :
    (s.transmitted i).info.mode = s.info.mode ∧ (s.transmitted i).flagged = s.flagged := by
  unfold transmitted
  dsimp only
  split <;> exact ⟨rfl, rfl⟩

theorem Tidy.afterTx (tidy : s.Tidy) (g : Gaps) : (s.afterTx g).Tidy := by
  have start := (tidy.afterRx g).raises (g.hw 4)
  have mode := before_tx_mode (g := g) tidy
  unfold Driver.afterTx
  by_cases some : s.TxSome g
  · rw [tx_some tidy mode some]
    obtain ⟨mode', flagged⟩ := transmitted_keeps
      (((s.afterRx g).raises (g.hw 4)).outTx (s.info.mode.oflag_tx (s.read1 g) (s.read2 g)))
      (s.txMbxid g)
    apply (start.outTx _).lower mode'
    intro i up
    rwa [flagged] at up
  · rw [tx_none tidy mode some]
    exact start

theorem Tidy.pass (tidy : s.Tidy) (g : Gaps) :
    (s.can_intr_pass g).2.Tidy ∧ (s.can_intr_pass g).2.info.mode = s.info.mode := by
  by_cases quiet : s.Quiet g
  · rw [pass_quiet quiet]
    exact ⟨tidy.fetched g, (fetched_keeps s g).1⟩
  · by_cases goes : s.GoesOn g
    · by_cases ends : s.Ends g
      · rw [pass_ended tidy ends quiet]
        refine ⟨(((((tidy.afterTx g).raises (g.hw 5)).out1 (s.read1 g)).raises (g.hw 6)).out2
          (s.read2 g)), ?_⟩
        have first := (raises_keeps (s.afterTx g) (g.hw 5)).1
        have second := (raises_keeps (((s.afterTx g).raises (g.hw 5)).out1 (s.read1 g)) (g.hw 6)).1
        exact (second.trans first).trans (afterTx_mode tidy)
      · rw [pass_returned tidy goes ends]
        exact ⟨tidy.afterTx g, afterTx_mode tidy⟩
    · rw [pass_left tidy goes]
      exact ⟨tidy.afterRx g, (afterRx_beside tidy).1⟩

/-! ## One step -/

/-- The condition on what happens -/
def RxStep (s : Driver lib) : Step lib → Prop
  | .pass g => s.RxFine g
  | _ => True

def TxStep (s : Driver lib) : Step lib → Prop
  | .pass g => s.TxFine g
  | _ => True

def Serves (s : Driver lib) (step : Step lib) : Prop := s.RxStep step ∧ s.TxStep step

theorem next_mode (tidy : s.Tidy) (step : Step lib) : (s.next step).info.mode = s.info.mode := by
  cases step with
  | hw e => exact (raise_keeps s e).1
  | client d dev => rfl
  | transmit d =>
    unfold next
    dsimp only
    split
    · unfold can_drvr_transmit
      split
      · rfl
      · split <;> rfl
    · rfl
  | pass g => exact (tidy.pass g).2

theorem Tidy.next (tidy : s.Tidy) (step : Step lib) : (s.next step).Tidy := by
  cases step with
  | hw e => exact tidy.raise e
  | client d dev => exact tidy.lower rfl fun _ => id
  | transmit d =>
    apply tidy.lower (next_mode tidy _)
    intro i up
    unfold Driver.next can_drvr_transmit at up
    dsimp only at up
    split at up
    · split at up
      · exact up
      · split at up <;> exact up
    · exact up
  | pass g => exact (tidy.pass g).1

theorem RxInv.next (inv : s.RxInv) (fine : s.RxStep step) : (s.next step).RxInv := by
  refine ⟨inv.tidy.next step, fun i rx => ?_⟩
  rw [next_mode inv.tidy] at rx
  have sound := inv.rx i rx
  cases step with
  | hw e => exact raises_slot Slot.Sound.fill sound [e]
  | client d dev => exact sound
  | transmit d =>
    unfold Driver.next
    dsimp only
    split
    case isTrue tx =>
      rw [slot_can_drvr_transmit_of_ne (tx.ne rx).symm rx.ne_first]
      exact sound
    case isFalse => exact sound
  | pass g => exact pass_rx_sound inv fine rx

theorem TxInv.next (inv : s.TxInv) (fine : s.TxStep step) : (s.next step).TxInv := by
  refine ⟨inv.tidy.next step, fun i tx => ?_⟩
  rw [next_mode inv.tidy] at tx
  have sound := inv.tx i tx
  cases step with
  | hw e => exact sound.raises tx [e]
  | client d dev => exact sound.congr rfl rfl
  | transmit d =>
    unfold Driver.next
    dsimp only
    split
    · exact sound.can_drvr_transmit tx d
    · exact sound
  | pass g => exact pass_tx_sound inv fine tx

/-! ## Runs -/

/-- What `can_init_hw` and `can_init` leave: no flag is up and no transmission has been started. -/
structure Started (s : Driver lib) : Prop where
  iflag1 : s.iflag1 = 0
  iflag2 : s.iflag2 = 0
  disabled : ∀ i, ¬s.Enabled i
  quiet : ∀ i, ¬s.Outstanding i
  came : ∀ i, s.came i = []
  kept : ∀ i, s.kept i = []

theorem Started.flagged (start : s.Started) (i : Nat) : s.flagged i = false := by
  unfold Driver.flagged
  rw [start.iflag1, start.iflag2]
  simp

theorem Started.tidy (start : s.Started) : s.Tidy := fun i up =>
  absurd ((start.flagged i).symm.trans up) Bool.false_ne_true

theorem Started.sound (start : s.Started) (i : Nat) : (s.slot i).Sound := by
  have down : (s.slot i).flag = false := start.flagged i
  refine ⟨?_, fun up => absurd (down.symm.trans up) Bool.false_ne_true⟩
  rw [Slot.pending_down down]
  change s.came i = s.kept i ++ []
  rw [start.came, start.kept]
  rfl

theorem Started.rx (start : s.Started) : s.RxInv := ⟨start.tidy, fun i _ => start.sound i⟩

theorem Started.tx (start : s.Started) : s.TxInv :=
  ⟨start.tidy, fun i _ => ⟨start.sound i, .idle (start.disabled i) (start.quiet i)
    (start.flagged i)⟩⟩

/-- Every frame that came in at a mailbox, or went out from it, has been received or noted once, in
their order, but for one whose flag is up. -/
def Lossless (s : Driver lib) : Prop :=
  ∀ i, s.info.mode.Rx i ∨ s.info.mode.Tx i →
    s.came i = s.kept i ++ if s.flagged i then [s.info.canmsg i] else []

/-- While a transmit mailbox is enabled, it has a frame to be sent or one that is out, whose flag is
up. -/
def Progress (s : Driver lib) : Prop :=
  ∀ i, s.info.mode.Tx i → s.Enabled i → s.Outstanding i ∨ s.flagged i = true

/-- The library with lists for its queues -/
def queues : Library := { lists with CAN_MSG_MID_UNKNOWN := 0 }

/-- Each device has one free element, and nothing has happened yet. -/
def fresh : Driver queues where
  info := idle
  dflags _ := 0
  transmitted_frames := 0
  iflag1 := 0
  iflag2 := 0
  came _ := []
  kept _ := []

theorem fresh_started : fresh.Started where
  iflag1 := rfl
  iflag2 := rfl
  disabled _ on := on BitVec.zero_and
  quiet _ := by
    change ¬CanMsgObj.code ⟨0, 0, 0, 0⟩ = 0xC
    decide
  came _ := rfl
  kept _ := rfl

/-- Nothing happens during a pass, and no client waits. -/
def calm : Gaps := ⟨fun _ => [], fun _ => false⟩

theorem calm_miss (i k : Nat) : ¬Hits i (calm.hw k) := fun ⟨_, mem⟩ => List.not_mem_nil mem

def frame : CanMsgObj := ⟨0x02080000, 0x101C0000, 0x11223344, 0x55667788⟩

/-- Whatever happens, no transmit mailbox is stranded at any time exactly if every pass serves the
transmit mailboxes that it finds. -/
theorem progress_iff (lib : Library) (s : Driver lib) (start : s.Started)
    (steps : List (Step lib)) :
    (∀ pre, pre <+: steps → (pre.foldl next s).Progress) ↔
      ∀ pre step, pre ++ [step] <+: steps → (pre.foldl next s).TxStep step := by
  apply along_iff_of_invariant (I := TxInv) (G := Progress) (C := TxStep)
  · intro s inv i tx enabled
    rcases (inv.tx i tx).phase with ⟨off, _, _⟩ | ⟨_, out, _⟩ | ⟨_, _, up⟩
    · exact absurd enabled off
    · exact .inl out
    · exact .inr up
  · exact TxInv.next
  · intro s step inv bad progress
    have mode := next_mode inv.tidy step
    cases step with
    | pass g =>
      obtain ⟨i, use, _, on, quiet, down⟩ := pass_tx_lost inv bad
      rcases progress i (by rwa [mode]) on with out | up
      · exact quiet out
      · exact Bool.false_ne_true (down.symm.trans up)
    | hw e => exact bad trivial
    | client d dev => exact bad trivial
    | transmit d => exact bad trivial
  · exact start.tx

/-- A message is queued on a device and sent, and it is out. -/
def sent (i : Nat) : List (Step queues) :=
  [.client i ⟨[], [blank]⟩, .transmit i, .hw (.complete i)]

/-- A message that is sent alone is noted. -/
theorem progress_alone : ((sent 32 ++ [Step.pass calm]).foldl next fresh).Progress := by
  apply (progress_iff queues fresh fresh_started (sent 32 ++ [Step.pass calm])).mpr _ _
    List.prefix_rfl
  refine along_cons trivial (along_cons trivial (along_cons trivial ?_))
  refine along_cons (fun _ => ⟨?_, fun _ _ => ?_⟩) along_nil
  · intro i tx found
    have all : ∀ i < 64, ((sent 32).foldl next fresh).found calm i = true →
        i = ((sent 32).foldl next fresh).txMbxid calm := by decide
    exact all i tx.lt found
  · rintro (again | ⟨_, again⟩) <;> exact List.not_mem_nil again

/-- Of two messages that are out before a pass, one strands its mailbox. -/
theorem progress_broken : fresh.Started ∧ ¬∀ pre, pre <+: sent 32 ++ sent 33 ++ [Step.pass calm] →
    (pre.foldl next fresh).Progress := by
  refine ⟨fresh_started, fun all => ?_⟩
  have stranded := all _ List.prefix_rfl 33 (by decide) (by decide)
  exact absurd stranded (by decide)

end Driver

end Mx6xBsp.Can
