import Mathlib.Order.WellFounded
import Mx6xBsp.Lib.Loops
import Mx6xBsp.Spi.Exchange

/-!
# The configuration of a SPI device

`mx51_setcfg` stores the configuration of a device and the dividers that `mx51_cfg` finds for it,
and `mx51_xfer` trusts both. `setcfg_iff` tells which configurations are stored with dividers that
fit their fields and with the best rate, so that every transfer comes to an end.
-/

namespace Mx6xBsp.Spi.Ecspi

open Loops Runs

def MX51_CSPI_CHANNEL_MAX : Nat := 4
def CSPI_CONREG_POSTDIVIDR_POS : Nat := 8
def CSPI_CONREG_PREDIVIDR_POS : Nat := 12
def CSPI_CONTROLREG_DRCTL_POS : Nat := 16
def CSPI_CONFIGREG_PHA_POS : Nat := 0
def CSPI_CONFIGREG_POL_POS : Nat := 4
def CSPI_CONFIGREG_SSPOL_POS : Nat := 12
def CSPI_CONFIGREG_CLKCTL_POS : Nat := 20

/-! ## `mx51_cfg` -/

inductive Rdy
  | none
  | edge
  | level
  deriving DecidableEq

/-- `CSPI_CONTROLREG_DRCTL_EDGE` and `CSPI_CONTROLREG_DRCTL_LEVEL` -/
def Rdy.drctl : Rdy → Word
  | .none => 0
  | .edge => 1
  | .level => 2

/-- `spi_cfg_t`, with the parts of its mode -/
structure Cfg where
  charLen : Nat
  rdy : Rdy
  ckpolHigh : Bool
  ckphaseHalf : Bool
  cspolHigh : Bool
  clockRate : Word

/-- What the double loop leaves -/
structure Dividers where
  postDiv : Nat
  div : Nat
  drate : Nat
  deriving DecidableEq

/-- The inner loop: `div` and `drate`, with `left` passes to go -/
def searchDiv (postDrate clockRate : Nat) : Nat → Nat → Nat → Nat × Nat
  | 0, div, drate => (div, drate)
  | left + 1, div, _ =>
    let drate := postDrate / (div + 1)
    if drate ≤ clockRate then (div, drate) else searchDiv postDrate clockRate left (div + 1) drate

/-- The outer loop -/
def searchPost (clock clockRate : Nat) : Nat → Dividers → Dividers
  | 0, found => found
  | left + 1, found =>
    let (div, drate) := searchDiv (clock >>> found.postDiv) clockRate 16 0 found.drate
    if drate ≤ clockRate then ⟨found.postDiv, div, drate⟩
    else searchPost clock clockRate left ⟨found.postDiv + 1, div, drate⟩

def dividers (clock clockRate : Nat) : Dividers := searchPost clock clockRate 16 ⟨0, 0, 0⟩

/-- `mx51_cfg`: the control word and the clock rate that it writes back -/
def mx51Cfg (clock : Word) (cfg : Cfg) : Word × Word :=
  if cfg.charLen > 32 ∨ cfg.charLen < 1 then (0, cfg.clockRate)
  else
    let found := dividers clock.toNat cfg.clockRate.toNat
    (BitVec.ofNat 32 found.postDiv <<< CSPI_CONREG_POSTDIVIDR_POS |||
        BitVec.ofNat 32 found.div <<< CSPI_CONREG_PREDIVIDR_POS |||
        cfg.rdy.drctl <<< CSPI_CONTROLREG_DRCTL_POS,
      BitVec.ofNat 32 found.drate)

/-! ## `mx51_setcfg` -/

/-- The clock of the controller, and what is stored for its devices -/
structure Driver where
  clock : Word
  devlist : Nat → Cfg
  devctrl : Nat → Word
  devcfg : Nat → Word

inductive Errno
  | eok
  | einval
  deriving DecidableEq

/-- A bit of the configuration register is set or cleared. -/
def putBit (set : Bool) (pos : Nat) (reg : Word) : Word :=
  if set then reg ||| (1 : Word) <<< pos else reg &&& ~~~((1 : Word) <<< pos)

/-- `mx51_setcfg`, which does not look at what `mx51_cfg` returns -/
def mx51Setcfg (dev : Driver) (device : Nat) (cfg : Cfg) : Driver × Errno :=
  if device ≥ MX51_CSPI_CHANNEL_MAX then (dev, .einval)
  else
    let (ctrl, clockRate) := mx51Cfg dev.clock cfg
    let reg := putBit (!cfg.ckpolHigh) (device + CSPI_CONFIGREG_POL_POS) (dev.devcfg device)
    let reg := putBit (!cfg.ckpolHigh) (device + CSPI_CONFIGREG_CLKCTL_POS) reg
    let reg := putBit (!cfg.ckphaseHalf) (device + CSPI_CONFIGREG_PHA_POS) reg
    let reg := putBit cfg.cspolHigh (device + CSPI_CONFIGREG_SSPOL_POS) reg
    ({ dev with
        devlist := Function.update dev.devlist device { cfg with clockRate }
        devctrl := Function.update dev.devctrl device ctrl
        devcfg := Function.update dev.devcfg device reg }, .eok)

/-! ## Transfers that may time out -/

/-- The time for a word in microseconds, where a rate of zero is divided by -/
def dtime (dlen : Nat) (clockRate : Word) : Option Nat :=
  if clockRate = 0 then none else some (dlen * 8 * 1000 * 1000 / clockRate.toNat + 1)

/-- A transfer in its loop. Once it has timed out `rlen` is -1, whatever `dev` has for it. -/
structure Xfer where
  dev : Dev
  late : Bool

variable (x : Xchg)

def Xfer.rlen (w : Xfer) : Int := if w.late then -1 else w.dev.rlen

/-- The handler leaves the lengths alone when `rlen` is negative. -/
def lateIntr (status : Status) (d : Dev) : Dev :=
  if status = .other then d.spievent else { d with pulses := d.pulses + 1 }

def Xfer.next (w : Xfer) (e : Event) : Option Xfer :=
  match w.late, e with
  | true, .intr status =>
    if w.dev.enabled then some { w with dev := lateIntr status w.dev } else none
  | _, e => (w.dev.next x e).map fun dev => { w with dev }

def Xfer.goesOn (w : Xfer) : Prop := w.rlen < x.xlen ∧ (w.dev.tlen : Int) < x.xlen

/-- `mx51_wait`: a pulse, or a time-out where none waits -/
def mx51Wait (w : Xfer) : Xfer :=
  match w.dev.pulses with
  | 0 => { w with late := true }
  | n + 1 => { w with dev := { w.dev with pulses := n } }

/-- A pass of the loop of `mx51_xfer` that comes to its end, with what happens meanwhile -/
def Again (w v : Xfer) : Prop :=
  w.goesOn x ∧ ∃ t events u, startBurst x w.dev = some t ∧
    Run (fun s e s' => s.next x e = some s') ⟨t, w.late⟩ events u ∧ v = mx51Wait u

/-- The transfer divides by no zero, and no run of passes goes on for ever. -/
def Safe (clockRate : Word) (buf : Nat → Byte) (left : List Sent) (pulses : Nat) : Prop :=
  ∀ d, xfer x buf left pulses = some d →
    dtime x.dlen clockRate ≠ none ∧ Acc (fun v w => Again x w v) ⟨d, false⟩

/-! ## What a configuration should have -/

/-- The rate of a pair of dividers -/
def rateOf (clock postDiv div : Nat) : Nat := clock / (2 ^ postDiv * (div + 1))

/-- The highest rate that is not above the one asked for, or the lowest of all if all are -/
structure Best (clock clockRate drate : Nat) : Prop where
  some : ∃ postDiv < 16, ∃ div < 16, drate = rateOf clock postDiv div
  highest : ∀ postDiv < 16, ∀ div < 16, rateOf clock postDiv div ≤ clockRate →
    drate ≤ clockRate ∧ rateOf clock postDiv div ≤ drate
  lowest : (∀ postDiv < 16, ∀ div < 16, clockRate < rateOf clock postDiv div) →
    ∀ postDiv < 16, ∀ div < 16, drate ≤ rateOf clock postDiv div

/-- The dividers that go into the control word fit their fields. Nothing goes there for a word
length that is refused. -/
def FieldsFit (clock : Word) (cfg : Cfg) : Prop :=
  1 ≤ cfg.charLen ∧ cfg.charLen ≤ 32 →
    (dividers clock.toNat cfg.clockRate.toNat).postDiv < 16 ∧
      (dividers clock.toNat cfg.clockRate.toNat).div < 16

/-- A configuration that is accepted has its dividers in their fields, the best rate, and safe
transfers. -/
def SetcfgRight (dev : Driver) (device : Nat) (cfg : Cfg) : Prop :=
  (mx51Setcfg dev device cfg).2 = .eok →
    let stored := (mx51Setcfg dev device cfg).1.devlist device
    FieldsFit dev.clock cfg ∧ Best dev.clock.toNat cfg.clockRate.toNat stored.clockRate.toNat ∧
      ∀ (x : Xchg) (buf : Nat → Byte) (left : List Sent) (pulses : Nat),
        x.charLen = stored.charLen → Safe x stored.clockRate buf left pulses

/-! ## The search for dividers -/

section Search

variable {clock clockRate : Nat}

/-- The inner loop stops at the first divider that is slow enough, or with the last rate. -/
theorem searchDiv_spec (postDrate left div drate : Nat)
    (before : ∀ e < div, clockRate < postDrate / (e + 1))
    (last : div ≠ 0 → drate = postDrate / div) (some : div + left ≠ 0) :
    ∃ found rate, searchDiv postDrate clockRate left div drate = (found, rate) ∧
      (∀ e < found, clockRate < postDrate / (e + 1)) ∧
      ((found < div + left ∧ rate = postDrate / (found + 1) ∧ rate ≤ clockRate) ∨
        found = div + left ∧ rate = postDrate / found) := by
  induction left generalizing div drate with
  | zero => exact ⟨div, drate, rfl, before, Or.inr ⟨rfl, last (by omega)⟩⟩
  | succ left ih =>
    unfold searchDiv
    dsimp only
    split
    · next slow => exact ⟨div, _, rfl, before, Or.inl ⟨by omega, rfl, slow⟩⟩
    · next fast =>
      have before' : ∀ e < div + 1, clockRate < postDrate / (e + 1) := by
        intro e below
        by_cases here : e = div
        · subst here
          omega
        · exact before e (by omega)
      obtain ⟨found, rate, same, all, outcome⟩ := ih _ _ before' (fun _ => rfl) (by omega)
      refine ⟨found, rate, same, all, ?_⟩
      rwa [Nat.add_right_comm, Nat.add_assoc] at outcome

/-- What the double loop leaves: the first pair that is slow enough, or the lowest rate and two
dividers of 16 -/
structure Searched (clock clockRate : Nat) (found : Dividers) : Prop where
  before : ∀ post < found.postDiv, ∀ div < 16, clockRate < rateOf clock post div
  outcome : (found.postDiv < 16 ∧ found.div < 16 ∧
        found.drate = rateOf clock found.postDiv found.div ∧ found.drate ≤ clockRate ∧
        ∀ div < found.div, clockRate < rateOf clock found.postDiv div) ∨
      found.postDiv = 16 ∧ found.div = 16 ∧ found.drate = rateOf clock 15 15

theorem shifted_rate (post div : Nat) : clock >>> post / (div + 1) = rateOf clock post div := by
  unfold rateOf
  rw [Nat.shiftRight_eq_div_pow, Nat.div_div_eq_div_mul]

theorem searchPost_spec {left : Nat} {found : Dividers}
    (before : ∀ post < found.postDiv, ∀ div < 16, clockRate < rateOf clock post div)
    (last : found.postDiv ≠ 0 →
      found.div = 16 ∧ found.drate = rateOf clock (found.postDiv - 1) 15)
    (all : found.postDiv + left = 16) :
    Searched clock clockRate (searchPost clock clockRate left found) := by
  induction left generalizing found with
  | zero =>
    obtain ⟨div, rate⟩ := last (by omega)
    have post : found.postDiv = 16 := by omega
    rw [post] at rate
    exact ⟨before, Or.inr ⟨post, div, rate⟩⟩
  | succ left ih =>
    obtain ⟨div, rate, same, faster, outcome⟩ :=
      searchDiv_spec (clock >>> found.postDiv) 16 0 found.drate
        (fun e (below : e < 0) => absurd below (Nat.not_lt_zero e))
        (fun some => absurd rfl some) (by decide)
    unfold searchPost
    rw [same]
    dsimp only
    simp only [shifted_rate] at faster outcome
    rcases outcome with ⟨inside, here, slow⟩ | ⟨past, here⟩
    · rw [if_pos slow]
      exact ⟨before, Or.inl ⟨by dsimp only; omega, by dsimp only; omega, here, slow, faster⟩⟩
    · have sixteen : div = 16 := by omega
      subst sixteen
      have lowest : rate = rateOf clock found.postDiv 15 := here.trans (shifted_rate _ 15)
      have fast : clockRate < rate := by
        rw [lowest]
        exact faster 15 (by decide)
      rw [if_neg (by omega)]
      refine ih ?_ (fun _ => ⟨rfl, lowest⟩) (by dsimp only; omega)
      intro post below div inside
      by_cases here : post = found.postDiv
      · subst here
        exact faster div inside
      · exact before post (by dsimp only at below; omega) div inside

theorem dividers_searched (clock clockRate : Nat) :
    Searched clock clockRate (dividers clock clockRate) :=
  searchPost_spec (fun post below => absurd below (Nat.not_lt_zero post))
    (fun some => absurd rfl some) rfl

theorem rateOf_le {post div post' div' : Nat}
    (more : 2 ^ post * (div + 1) ≤ 2 ^ post' * (div' + 1)) :
    rateOf clock post' div' ≤ rateOf clock post div :=
  Nat.div_le_div_left more (Nat.mul_pos (Nat.two_pow_pos post) (Nat.succ_pos div))

theorem lowest_le {post div : Nat} (post16 : post < 16) (div16 : div < 16) :
    rateOf clock 15 15 ≤ rateOf clock post div :=
  rateOf_le (Nat.mul_le_mul (Nat.pow_le_pow_right (by decide) (by omega)) (by omega))

theorem searched_best {found : Dividers} (searched : Searched clock clockRate found) :
    Best clock clockRate found.drate := by
  rcases searched.outcome with ⟨post16, div16, rate, slow, faster⟩ | ⟨post, div, rate⟩
  · refine ⟨⟨_, post16, _, div16, rate⟩, ?_, ?_⟩
    · intro post inPost div inDiv slow'
      refine ⟨slow, ?_⟩
      have later : found.postDiv ≤ post := by
        by_contra earlier
        have fast := searched.before post (by omega) div inDiv
        omega
      -- a finer divisor of the same clock
      obtain ⟨k, split⟩ := Nat.exists_eq_add_of_le later
      have divisor : 2 ^ post * (div + 1) = 2 ^ found.postDiv * (2 ^ k * (div + 1)) := by
        rw [split, Nat.pow_add, Nat.mul_assoc]
      have positive : 0 < 2 ^ k * (div + 1) := Nat.mul_pos (Nat.two_pow_pos k) (Nat.succ_pos div)
      rw [rate]
      by_contra higher
      have small : 2 ^ k * (div + 1) < found.div + 1 := by
        by_contra large
        refine higher (rateOf_le ?_)
        rw [divisor]
        exact Nat.mul_le_mul_left _ (by omega)
      have fast := faster (2 ^ k * (div + 1) - 1) (by omega)
      unfold rateOf at fast slow'
      rw [Nat.sub_add_cancel positive, ← divisor] at fast
      omega
    · intro all
      have fast := all _ post16 _ div16
      rw [rate] at slow
      omega
  · have all : ∀ post < 16, ∀ div < 16, clockRate < rateOf clock post div := by
      intro p inPost d inDiv
      exact searched.before p (by omega) d inDiv
    refine ⟨⟨15, by decide, 15, by decide, rate⟩, ?_, ?_⟩
    · intro p inPost d inDiv slow
      have fast := all p inPost d inDiv
      omega
    · intro _ p inPost d inDiv
      rw [rate]
      exact lowest_le inPost inDiv

theorem searched_fits {found : Dividers} (searched : Searched clock clockRate found) :
    found.postDiv < 16 ∧ found.div < 16 ↔ rateOf clock 15 15 ≤ clockRate := by
  rcases searched.outcome with ⟨post16, div16, rate, slow, _⟩ | ⟨post, div, rate⟩
  · refine iff_of_true ⟨post16, div16⟩ ?_
    have low : rateOf clock 15 15 ≤ rateOf clock found.postDiv found.div := lowest_le post16 div16
    omega
  · refine iff_of_false (by omega) ?_
    have fast := searched.before 15 (by omega) 15 (by decide)
    omega

theorem searched_pos {found : Dividers} (searched : Searched clock clockRate found)
    (fits : rateOf clock 15 15 ≤ clockRate) :
    found.drate ≠ 0 ↔ 0 < clock ∧ 0 < clockRate := by
  obtain ⟨post16, div16⟩ := (searched_fits searched).mpr fits
  rcases searched.outcome with ⟨_, _, rate, slow, faster⟩ | ⟨post, _, _⟩
  · constructor
    · intro some
      refine ⟨Nat.pos_of_ne_zero fun none => some ?_, by omega⟩
      rw [rate, none]
      exact Nat.zero_div _
    · rintro ⟨clocked, asked⟩ zero
      have short : clock < 2 ^ found.postDiv * (found.div + 1) := by
        rw [rate] at zero
        exact (Nat.div_eq_zero_iff_lt (Nat.mul_pos (Nat.two_pow_pos _) (Nat.succ_pos _))).mp zero
      cases divided : found.div with
      | zero =>
        cases shifted : found.postDiv with
        | zero =>
          rw [divided, shifted] at short
          omega
        | succ post =>
          have fast := searched.before post (by omega) 0 (by decide)
          unfold rateOf at fast
          have two : 2 * (2 ^ post * (0 + 1)) ≤ clock := Nat.mul_le_of_le_div _ _ _ (by omega)
          rw [divided, shifted, Nat.pow_succ] at short
          omega
      | succ div =>
        have fast := faster div (by omega)
        unfold rateOf at fast
        have two : 2 * (2 ^ found.postDiv * (div + 1)) ≤ clock :=
          Nat.mul_le_of_le_div _ _ _ (by omega)
        have grows : 2 ^ found.postDiv ≤ 2 ^ found.postDiv * (div + 1) :=
          Nat.le_mul_of_pos_right _ (Nat.succ_pos div)
        rw [divided, Nat.mul_succ] at short
        omega
  · omega

end Search

/-! ## What a pass sends -/

section Passes

variable {x} {d t : Dev}

theorem fill_tlen {room : Nat} (filled : fill x room d = some t) :
    d.tlen ≤ t.tlen ∧ (room ≠ 0 → d.btlen < d.bxlen → d.tlen < t.tlen) := by
  induction room generalizing d with
  | zero =>
    cases filled
    exact ⟨le_refl _, fun some => absurd rfl some⟩
  | succ room ih =>
    unfold fill at filled
    split at filled
    · split at filled
      · obtain ⟨more, _⟩ := ih filled
        have sent : d.tlen + 4 ≤ t.tlen := more
        exact ⟨by omega, fun _ _ => by omega⟩
      · cases filled
    · next full =>
      cases filled
      exact ⟨le_refl _, fun _ less => absurd less full⟩

theorem fillWords_tlen (room : Nat) (d : Dev) :
    d.tlen ≤ (fillWords x room d).tlen ∧
      (room ≠ 0 → d.tlen < x.xlen → x.unit ≠ none → d.tlen < (fillWords x room d).tlen) := by
  induction room generalizing d with
  | zero => exact ⟨le_refl _, fun some => absurd rfl some⟩
  | succ room ih =>
    unfold fillWords
    split
    · next past => exact ⟨le_refl _, fun _ less => absurd past (by omega)⟩
    · split
      · next none =>
        exact ⟨(ih d).1, fun _ _ some => absurd none some⟩
      · next n unit =>
        have more : d.tlen + n ≤ _ := (ih { d with toIo := d.toIo.send x n }).1
        have positive : 0 < n := (Xchg.fits unit).pos
        exact ⟨by omega, fun _ _ _ => by omega⟩

theorem refill_tlen (count : Nat) (d : Dev) : d.tlen ≤ (refill x count d).tlen := by
  induction count generalizing d with
  | zero => exact le_refl _
  | succ count ih =>
    unfold refill
    split
    · exact Nat.le_trans (Nat.le_add_right d.tlen 4)
        (ih { d with toIo := d.toIo.send x 4, btlen := d.btlen + 4 })
    · exact le_refl _

theorem drain_tlen (fuel : Nat) (count : Int) (d : Dev) :
    (drain x fuel count d).tlen = d.tlen := by
  induction fuel generalizing count d with
  | zero => rfl
  | succ fuel ih =>
    unfold drain
    split
    · exact ih (count - 1) { d with toIo := d.toIo.receive x 4, brlen := d.brlen + 4 }
    · rfl

theorem swap_tlen (count : Nat) (d : Dev) : d.tlen ≤ (swap x count d).tlen := by
  induction count generalizing d with
  | zero => exact le_refl _
  | succ count ih =>
    unfold swap
    split
    · exact ih { d with rx := d.rx.tail }
    · next n _ =>
      refine Nat.le_trans ?_ (ih _)
      split
      · exact Nat.le_add_right d.tlen n
      · exact le_refl _

theorem spiIntr_tlen (status : Status) (d : Dev) : d.tlen ≤ (spiIntr x status d).tlen := by
  have branch :
      ∀ count, d.tlen ≤ ((if x.burst then intrBurst x else intrWords x) count d).tlen := by
    intro count
    split
    · have emptied : (emptyBurst x count d).tlen = d.tlen := by
        unfold emptyBurst
        split
        · exact drain_tlen _ _ _
        · exact drain_tlen _ _ _
      have filled := refill_tlen (x := x)
        (MX51_CSPI_FIFO_SIZE - (emptyBurst x count d).tx.length) (emptyBurst x count d)
      rw [emptied] at filled
      unfold intrBurst
      dsimp only
      split
      · exact filled
      · exact filled
    · have swapped := swap_tlen (x := x) count d
      unfold intrWords
      dsimp only
      split
      · exact swapped
      · exact swapped
  unfold spiIntr
  cases status with
  | tc => exact branch _
  | rdr => exact branch _
  | other => exact le_refl _

theorem Xfer.next_tlen {w v : Xfer} {e : Event} (next : w.next x e = some v) :
    w.dev.tlen ≤ v.dev.tlen := by
  have device : ∀ {d t : Dev}, d.next x e = some t → d.tlen ≤ t.tlen := by
    intro d t next
    unfold Dev.next at next
    split at next
    · split at next
      · cases next
      · split at next
        · cases next
          exact le_refl _
        · cases next
    · split at next
      · cases next
        exact spiIntr_tlen _ d
      · cases next
  unfold Xfer.next at next
  split at next
  · split at next
    · cases next
      unfold lateIntr
      split
      · exact le_refl _
      · exact le_refl _
    · cases next
  · obtain ⟨t, there, rfl⟩ := Option.map_eq_some_iff.mp next
    exact device there

theorem mx51Wait_tlen (w : Xfer) : (mx51Wait w).dev.tlen = w.dev.tlen := by
  unfold mx51Wait
  split <;> rfl

theorem startBurst_tlen (started : startBurst x d = some t) (more : d.tlen < x.xlen)
    (sends : x.burst = true ∨ x.unit ≠ none) : d.tlen < t.tlen := by
  unfold startBurst at started
  obtain ⟨u, filled, rfl⟩ := Option.map_eq_some_iff.mp started
  have room : MX51_CSPI_FIFO_SIZE ≠ 0 := by decide
  have burst : 0 < MX51_CSPI_BURST_MAX := by decide
  show d.tlen < u.tlen
  dsimp only at filled
  split at filled
  · split at filled
    · exact (fill_tlen filled).2 room burst
    · split at filled
      · refine (fill_tlen filled).2 room ?_
        dsimp only
        omega
      · split at filled
        · have sent : d.tlen + (x.xlen - d.tlen) % 4 ≤ u.tlen := (fill_tlen filled).1
          omega
        · cases filled
  · next words =>
    cases filled
    have unit : x.unit ≠ none := sends.resolve_left words
    have sent := (fillWords_tlen MX51_CSPI_FIFO_SIZE { d with brlen := 0, btlen := 0 }).2 room more
      unit
    exact sent

theorem again_acc (sends : x.burst = true ∨ x.unit ≠ none) (w : Xfer) :
    Acc (fun v w => Again x w v) w := by
  have falls : ∀ {v w : Xfer}, Again x w v →
      x.xlen - v.dev.tlen < x.xlen - w.dev.tlen := by
    rintro v w ⟨⟨_, more⟩, t, events, u, started, ran, rfl⟩
    have start := startBurst_tlen started (by omega) sends
    have waits : t.tlen ≤ u.dev.tlen :=
      ran.invariant (I := fun s => t.tlen ≤ s.dev.tlen)
        (fun before next => Nat.le_trans before (Xfer.next_tlen next)) (le_refl _)
    rw [mx51Wait_tlen]
    omega
  exact Subrelation.accessible falls ((measure fun w : Xfer => x.xlen - w.dev.tlen).wf.apply w)

theorem fillWords_none (none : x.unit = none) (room : Nat) (d : Dev) : fillWords x room d = d := by
  induction room with
  | zero => rfl
  | succ room ih =>
    unfold fillWords
    split
    · rfl
    · rw [none]
      exact ih

theorem again_stuck (words : x.burst = false) (none : x.unit = none) {w : Xfer}
    (more : w.dev.tlen < x.xlen) (behind : w.late = true ∨ w.dev.rlen < x.xlen) :
    ¬Acc (fun v w => Again x w v) w := by
  refine not_acc_of_stuck
    (J := fun w => w.dev.tlen < x.xlen ∧ (w.late = true ∨ w.dev.rlen < x.xlen)) ⟨more, behind⟩ ?_
  rintro w ⟨more, behind⟩
  let t : Dev := { w.dev with brlen := 0, btlen := 0, enabled := true }
  have started : startBurst x w.dev = some t := by
    unfold startBurst
    dsimp only
    rw [if_neg (by rw [words]; decide), fillWords_none none]
    rfl
  have goesOn : w.goesOn x := by
    refine ⟨?_, by omega⟩
    unfold Xfer.rlen
    split
    · omega
    · next here =>
      have less := behind.resolve_left here
      omega
  refine ⟨mx51Wait ⟨t, w.late⟩, ⟨goesOn, t, [], ⟨t, w.late⟩, started, .nil, rfl⟩, ?_, ?_⟩
  · rw [mx51Wait_tlen]
    exact more
  · unfold mx51Wait
    split
    · exact Or.inl rfl
    · exact behind

theorem unit_none_iff : x.unit = none ↔ x.charLen > 32 ∨ x.charLen < 1 := by
  have bytes : x.dlen = (x.charLen + 7) / 8 := Nat.shiftRight_eq_div_pow _ 3
  constructor
  · intro none
    by_contra valid
    have whole : x.dlen = 1 ∨ x.dlen = 2 ∨ x.dlen = 3 ∨ x.dlen = 4 := by omega
    unfold Xchg.unit at none
    rcases whole with len | len | len | len <;> rw [len] at none <;> cases none
  · intro refused
    have outside : x.dlen = 0 ∨ 5 ≤ x.dlen := by omega
    unfold Xchg.unit
    split
    · omega
    · omega
    · omega
    · omega
    · rfl

end Passes

/-! ## Which configurations are right -/

theorem setcfg_stored (dev : Driver) {device : Nat} (cfg : Cfg)
    (known : device < MX51_CSPI_CHANNEL_MAX) :
    (mx51Setcfg dev device cfg).2 = .eok ∧
      (mx51Setcfg dev device cfg).1.devlist device =
        { cfg with clockRate := (mx51Cfg dev.clock cfg).2 } := by
  unfold mx51Setcfg
  rw [if_neg (by omega)]
  exact ⟨rfl, Function.update_self ..⟩

theorem drate_toNat (clock : Word) (cfg : Cfg) (valid : ¬(cfg.charLen > 32 ∨ cfg.charLen < 1)) :
    (mx51Cfg clock cfg).2.toNat = (dividers clock.toNat cfg.clockRate.toNat).drate := by
  have best := searched_best (dividers_searched clock.toNat cfg.clockRate.toNat)
  obtain ⟨post, _, div, _, rate⟩ := best.some
  have small : rateOf clock.toNat post div ≤ clock.toNat := Nat.div_le_self _ _
  have bound := clock.isLt
  unfold mx51Cfg
  rw [if_neg valid]
  dsimp only
  rw [BitVec.toNat_ofNat, Nat.mod_eq_of_lt (by omega)]

/-- A configuration that is accepted is right exactly if its word length is from 1 to 32, the
controller has a clock, the rate is not zero, and the lowest rate is not above it. -/
theorem setcfg_iff (dev : Driver) (device : Nat) (cfg : Cfg) :
    SetcfgRight dev device cfg ↔
      (device < MX51_CSPI_CHANNEL_MAX →
        (1 ≤ cfg.charLen ∧ cfg.charLen ≤ 32) ∧ 0 < dev.clock.toNat ∧ 0 < cfg.clockRate.toNat ∧
          rateOf dev.clock.toNat 15 15 ≤ cfg.clockRate.toNat) := by
  have searched := dividers_searched dev.clock.toNat cfg.clockRate.toNat
  constructor
  · intro right known
    obtain ⟨accepted, stored⟩ := setcfg_stored dev cfg known
    obtain ⟨fits, _, safe⟩ := right accepted
    rw [stored] at safe
    have valid : ¬(cfg.charLen > 32 ∨ cfg.charLen < 1) := by
      intro refused
      let x : Xchg := ⟨cfg.charLen, false, (cfg.charLen + 7) >>> 3 + 1, 0⟩
      have none : x.unit = none := unit_none_iff.mpr refused
      have begun : xfer x (fun _ => 0) [] 0 = some ⟨⟨fun _ => 0, [], 0, 0, [], [], []⟩,
          0, 0, 0, 0, false, 0⟩ := if_neg (Nat.not_lt.mpr (Nat.le_succ _))
      exact again_stuck rfl none (Nat.succ_pos _) (Or.inr (Nat.succ_pos _))
        (safe x (fun _ => 0) [] 0 rfl _ begun).2
    have low := (searched_fits searched).mp (fits (by omega))
    have moves : (mx51Cfg dev.clock cfg).2 ≠ 0 := by
      intro zero
      let x : Xchg := ⟨cfg.charLen, false, (cfg.charLen + 7) >>> 3, 0⟩
      have begun : xfer x (fun _ => 0) [] 0 = some ⟨⟨fun _ => 0, [], 0, 0, [], [], []⟩,
          0, 0, 0, 0, false, 0⟩ := if_neg (Nat.lt_irrefl _)
      exact (safe x (fun _ => 0) [] 0 rfl _ begun).1 (if_pos zero)
    have positive : (dividers dev.clock.toNat cfg.clockRate.toNat).drate ≠ 0 := by
      rw [← drate_toNat dev.clock cfg valid]
      exact fun zero => moves (BitVec.eq_of_toNat_eq zero)
    obtain ⟨clocked, asked⟩ := (searched_pos searched low).mp positive
    exact ⟨by omega, clocked, asked, low⟩
  · intro condition accepted
    have known : device < MX51_CSPI_CHANNEL_MAX := by
      by_contra past
      unfold mx51Setcfg at accepted
      rw [if_pos (by omega)] at accepted
      cases accepted
    obtain ⟨valid, clocked, asked, low⟩ := condition known
    obtain ⟨_, stored⟩ := setcfg_stored dev cfg known
    have valid' : ¬(cfg.charLen > 32 ∨ cfg.charLen < 1) := by omega
    have positive := (searched_pos searched low).mpr ⟨clocked, asked⟩
    rw [stored]
    refine ⟨fun _ => (searched_fits searched).mpr low, ?_, ?_⟩
    · rw [drate_toNat dev.clock cfg valid']
      exact searched_best searched
    · intro x buf left pulses same d begun
      constructor
      · have moves : (mx51Cfg dev.clock cfg).2 ≠ 0 := by
          intro zero
          rw [← drate_toNat dev.clock cfg valid', zero] at positive
          exact positive rfl
        unfold dtime
        rw [if_neg moves]
        exact Option.some_ne_none _
      · refine again_acc (Or.inr fun none => valid' ?_) _
        have refused := unit_none_iff.mp none
        rw [same] at refused
        exact refused

/-- A word length of 40 bits is accepted. -/
theorem setcfg_broken :
    ¬∀ (dev : Driver) (device : Nat) (cfg : Cfg), SetcfgRight dev device cfg := by
  intro always
  let wide : Cfg := ⟨40, .none, false, false, false, 1000000⟩
  let dev : Driver := ⟨60000000, fun _ => wide, fun _ => 0, fun _ => 0⟩
  obtain ⟨_, _, safe⟩ := always dev 0 wide rfl
  let x : Xchg := ⟨40, false, 6, 0⟩
  have begun : xfer x (fun _ => 0) [] 0 = some ⟨⟨fun _ => 0, [], 0, 0, [], [], []⟩,
      0, 0, 0, 0, false, 0⟩ := if_neg (by decide)
  have none : x.unit = none := unit_none_iff.mpr (Or.inl (by decide))
  exact again_stuck rfl none (Nat.succ_pos _) (Or.inr (Nat.succ_pos _))
    (safe x (fun _ => 0) [] 0 rfl _ begun).2

end Mx6xBsp.Spi.Ecspi
