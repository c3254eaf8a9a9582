import Mathlib.Data.List.Basic
import Mathlib.Tactic.IntervalCases
import Mx6xBsp.Lib.Fields

/-!
# The SPI transfers of the startup program

`mx6x_spi.c`: `spi_init` looks for the dividers of a clock rate, and `spi_xfer` exchanges a
buffer with a device while the controller shifts. The controller has two FIFOs of 64
words. How far it has come at each access of a register is up to the pace of its clock.
`spi_iff` tells for which rates the dividers are right, and for which lengths the transfer
is at any pace.
-/

namespace Mx6xBsp.Startup.Ecspi

open Fields

abbrev Reg := BitVec 32
abbrev Byte := BitVec 8

def MX6X_ECSPI_CONREG_EN : Reg := 1
def MX6X_ECSPI_CONREG_XCH : Reg := 4
def MX6X_ECSPI_CONREG_SMC : Reg := 8
def MX6X_ECSPI_CONREG_CHANNEL_MODE_SHIFT : Nat := 4
def MX6X_ECSPI_CONREG_POST_DIVIDER_SHIFT : Nat := 8
def MX6X_ECSPI_CONREG_POST_DIVIDER_MASK : Reg := 0xF00
def MX6X_ECSPI_CONREG_PRE_DIVIDER_SHIFT : Nat := 12
def MX6X_ECSPI_CONREG_PRE_DIVIDER_MASK : Reg := 0xF000
def MX6X_ECSPI_CONREG_DRCTL_MASK : Reg := 0x30000
def MX6X_ECSPI_CONREG_CHANNEL_SELECT_SHIFT : Nat := 18
def MX6X_ECSPI_CONREG_CHANNEL_SELECT_MASK : Reg := 0xC0000
def MX6X_ECSPI_CONREG_BURST_LENGTH_SHIFT : Nat := 20
def MX6X_ECSPI_CONREG_BURST_LENGTH_MASK : Reg := 0xFFF00000

def RX_WATERMARK : Nat := 32

/-! ## `spi_init` -/

/-- A device on one of the four channels of the controller -/
structure SpiDev where
  channel : Fin 4
  clockRate : Reg

/-- The inner loop: `pre_div` and the last `drate`, for the turns left -/
def findPre (postDrate clockRate : Nat) : Nat → Nat → Nat → Nat × Nat
  | 0, preDiv, drate => (preDiv, drate)
  | turns + 1, preDiv, _ =>
    let drate := postDrate / (preDiv + 1)
    if drate ≤ clockRate then (preDiv, drate)
    else findPre postDrate clockRate turns (preDiv + 1) drate

/-- The outer loop: `post_div` and `pre_div` -/
def findPost (moduleClock clockRate : Nat) : Nat → Nat → Nat → Nat × Nat
  | 0, postDiv, preDiv => (postDiv, preDiv)
  | turns + 1, postDiv, _ =>
    let found := findPre (moduleClock >>> postDiv) clockRate 16 0 0
    if found.2 ≤ clockRate then (postDiv, found.1)
    else findPost moduleClock clockRate turns (postDiv + 1) found.1

/-- The bits of CONREG that `spi_init` sets, and those that it clears before -/
structure RegVals where
  conreg : Reg
  conregMask : Reg

/-- The channel's bit of the field for the mode -/
def channelMode (channel : Fin 4) : Reg :=
  ((1 : Reg) <<< channel.val) <<< MX6X_ECSPI_CONREG_CHANNEL_MODE_SHIFT

/-- `spi_init`, of which CONREG has the dividers -/
def spiInit (moduleClock : Reg) (dev : SpiDev) : RegVals :=
  let (postDiv, preDiv) := findPost moduleClock.toNat dev.clockRate.toNat 16 0 0
  { conreg := 0
      ||| ((BitVec.ofNat 32 dev.channel.val <<< MX6X_ECSPI_CONREG_CHANNEL_SELECT_SHIFT) &&&
        MX6X_ECSPI_CONREG_CHANNEL_SELECT_MASK)
      ||| ((BitVec.ofNat 32 preDiv <<< MX6X_ECSPI_CONREG_PRE_DIVIDER_SHIFT) &&&
        MX6X_ECSPI_CONREG_PRE_DIVIDER_MASK)
      ||| ((BitVec.ofNat 32 postDiv <<< MX6X_ECSPI_CONREG_POST_DIVIDER_SHIFT) &&&
        MX6X_ECSPI_CONREG_POST_DIVIDER_MASK)
      ||| channelMode dev.channel ||| MX6X_ECSPI_CONREG_SMC ||| MX6X_ECSPI_CONREG_EN
    conregMask := 0 ||| MX6X_ECSPI_CONREG_CHANNEL_SELECT_MASK ||| MX6X_ECSPI_CONREG_DRCTL_MASK
      ||| MX6X_ECSPI_CONREG_PRE_DIVIDER_MASK ||| MX6X_ECSPI_CONREG_POST_DIVIDER_MASK
      ||| channelMode dev.channel ||| MX6X_ECSPI_CONREG_SMC ||| MX6X_ECSPI_CONREG_XCH
      ||| MX6X_ECSPI_CONREG_EN }

/-! ## The controller -/

/-- CONREG, the FIFOs from the oldest word on, and the words sent -/
structure Ctl where
  conreg : Reg
  tx : List Reg
  rx : List Reg
  sent : List Reg

/-- The other side: the words that the device answers with, and how many words are exchanged before
each access of a register at least -/
structure Bus where
  reply : Nat → Reg
  pace : Nat → Nat

/-- A word is sent, and the one returned for it is dropped if the FIFO is full. -/
def Ctl.tick (b : Bus) (c : Ctl) : Ctl :=
  match c.tx with
  | [] => c
  | w :: tx =>
    { c with
      tx
      sent := c.sent ++ [w]
      rx := if c.rx.length < 64 then c.rx ++ [b.reply c.sent.length] else c.rx }

def Ctl.ticks (b : Bus) : Nat → Ctl → Ctl
  | 0, c => c
  | n + 1, c => (c.tick b).ticks b n

/-- What a store into the buffer finds: its place, and how many words were sent before -/
structure Store where
  first : Nat
  count : Nat
  sent : Nat

/-- The controller, the number of accesses so far, the buffer with the memory behind it, and the two
indices -/
structure St where
  ctl : Ctl
  time : Nat
  data : Nat → Byte
  transmittedLength : Nat
  receivedLength : Nat
  stores : List Store

/-- The time until the next access -/
def elapse (b : Bus) (s : St) : St :=
  { s with ctl := s.ctl.ticks b (b.pace s.time), time := s.time + 1 }

/-! ## `spi_xfer` -/

/-- The word of the switch beyond `len % 4`, and its bytes -/
def firstWord (data : Nat → Byte) (len : Nat) : Option (Reg × Nat) :=
  match len % 4 with
  | 1 => some ((data 0).setWidth 32, 1)
  | 2 => some ((data 0).setWidth 32 <<< 8 ||| (data 1).setWidth 32, 2)
  | 3 => some ((data 0).setWidth 32 <<< 16 ||| (data 1).setWidth 32 <<< 8 |||
      (data 2).setWidth 32, 3)
  | _ => none

/-- Four bytes of the buffer -/
def wordAt (data : Nat → Byte) (p : Nat) : Reg :=
  (data p).setWidth 32 <<< 24 ||| (data (p + 1)).setWidth 32 <<< 16 |||
    (data (p + 2)).setWidth 32 <<< 8 ||| (data (p + 3)).setWidth 32 <<< 0

/-- The bytes that `read_word` takes from a word -/
def recBytes (receivedLength len : Nat) (recWord : Reg) : List Byte :=
  if receivedLength = 0 ∧ len % 4 ≠ 0 then
    match len % 4 with
    | 1 => [recWord.setWidth 8]
    | 2 => [(recWord >>> 8).setWidth 8, (recWord >>> 0).setWidth 8]
    | _ => [(recWord >>> 16).setWidth 8, (recWord >>> 8).setWidth 8, (recWord >>> 0).setWidth 8]
  else [(recWord >>> 24).setWidth 8, (recWord >>> 16).setWidth 8, (recWord >>> 8).setWidth 8,
    (recWord >>> 0).setWidth 8]

/-- Bytes stored from `p` on -/
def putBytes (data : Nat → Byte) (p : Nat) (bytes : List Byte) : Nat → Byte := fun q =>
  if p ≤ q then bytes[q - p]?.getD (data q) else data q

/-- `read_word`, with its result added to `received_length` -/
def readWord (b : Bus) (len : Nat) (s : St) : St :=
  let s := elapse b s
  let bytes := recBytes s.receivedLength len (s.ctl.rx.headD 0)
  { s with
    ctl.rx := s.ctl.rx.tail
    data := putBytes s.data s.receivedLength bytes
    receivedLength := s.receivedLength + bytes.length
    stores := s.stores ++ [⟨s.receivedLength, bytes.length, s.ctl.sent.length⟩] }

def readWords (b : Bus) (len : Nat) : Nat → St → St
  | 0, s => s
  | n + 1, s => readWords b len n (readWord b len s)

/-- TXDATA is written. -/
def writeTx (b : Bus) (w : Reg) (bytes : Nat) (s : St) : St :=
  let s := elapse b s
  { s with ctl.tx := s.ctl.tx ++ [w], transmittedLength := s.transmittedLength + bytes }

/-- The loop that waits for room: a word more is sent if there is none. -/
def waitRoom (b : Bus) (s : St) : St :=
  let s := elapse b s
  if 64 ≤ s.ctl.tx.length then { s with ctl := s.ctl.tick b } else s

/-- The status RDR is read, and with more words than the watermark as many are taken. -/
def checkRx (b : Bus) (len : Nat) (s : St) : St :=
  let s := elapse b s
  if RX_WATERMARK < s.ctl.rx.length then readWords b len RX_WATERMARK s else s

/-- The loop that queues the words. Nothing comes back where it takes more than `fuel` turns. -/
def queueWords (b : Bus) (len : Nat) : Nat → St → Option St
  | 0, _ => none
  | fuel + 1, s =>
    if s.transmittedLength < len then
      let s := waitRoom b s
      queueWords b len fuel (checkRx b len (writeTx b (wordAt s.data s.transmittedLength) 4 s))
    else some s

/-- The loop that waits for the end of the burst -/
def waitTc (b : Bus) (s : St) : St := { s with ctl := s.ctl.ticks b s.ctl.tx.length }

/-- The loop that empties the FIFO at the end, for the number of words in it -/
def drain (b : Bus) (len : Nat) : Nat → St → St
  | 0, s => s
  | n + 1, s =>
    if s.receivedLength < len then drain b len n (readWord b len s)
    else drain b len n { s with ctl.rx := s.ctl.rx.tail }

/-- CONREG for a burst -/
def burstConreg (vals : RegVals) (len : Nat) (reg : Reg) : Reg :=
  let burstLength := BitVec.ofNat 32 (len * 8 - 1)
  (((reg &&& ~~~vals.conregMask) ||| vals.conreg) &&& ~~~MX6X_ECSPI_CONREG_BURST_LENGTH_MASK) |||
    ((burstLength <<< MX6X_ECSPI_CONREG_BURST_LENGTH_SHIFT) &&&
      MX6X_ECSPI_CONREG_BURST_LENGTH_MASK)

/-- The registers and the indices at the start. What is left in the FIFO is thrown away. -/
def begin_ (vals : RegVals) (len : Nat) (s : St) : St :=
  { s with
    ctl := { s.ctl with conreg := burstConreg vals len s.ctl.conreg, rx := [] }
    transmittedLength := 0
    receivedLength := 0 }

/-- The short word that comes first -/
def writeFirst (b : Bus) (len : Nat) (s : St) : St :=
  match firstWord s.data len with
  | some (w, bytes) => writeTx b w bytes s
  | none => s

/-- The end of `spi_xfer`, with its result -/
def conclude (b : Bus) (len : Nat) (s : St) : Int × St :=
  let s := waitTc b s
  let s := drain b len s.ctl.rx.length s
  (if s.receivedLength ≠ s.transmittedLength then -1 else 0, s)

def spiXfer (vals : RegVals) (b : Bus) (len : Nat) (s : St) : Option (Int × St) :=
  if len < 1 ∨ 512 < len then some (-1, s)
  else (queueWords b len len (writeFirst b len (begin_ vals len s))).map (conclude b len)

/-! ## What is right -/

/-- The rate that dividers give -/
def rate (moduleClock postDiv preDiv : Nat) : Nat := moduleClock / (2 ^ postDiv * (preDiv + 1))

/-- The rate that CONREG selects -/
def selected (moduleClock : Nat) (conreg : Reg) : Nat :=
  rate moduleClock (field conreg 8 4).toNat (field conreg 12 4).toNat

/-- The fastest rate that is not above the requested one is selected, or the slowest one if all are
above. -/
def Selects (moduleClock clockRate : Nat) (conreg : Reg) : Prop :=
  ((∃ post < 16, ∃ pre < 16, rate moduleClock post pre ≤ clockRate) →
      selected moduleClock conreg ≤ clockRate ∧
        ∀ post < 16, ∀ pre < 16, rate moduleClock post pre ≤ clockRate →
          rate moduleClock post pre ≤ selected moduleClock conreg) ∧
    ((∀ post < 16, ∀ pre < 16, clockRate < rate moduleClock post pre) →
      ∀ post < 16, ∀ pre < 16, selected moduleClock conreg ≤ rate moduleClock post pre)

/-- The words of a transfer: a short one first if the length is no multiple of 4 -/
def words (len : Nat) : Nat := (len + 3) / 4

/-- The bytes of word `j` -/
def width (len j : Nat) : Nat := if j = 0 ∧ len % 4 ≠ 0 then len % 4 else 4

/-- The place of word `j` -/
def start (len : Nat) : Nat → Nat
  | 0 => 0
  | j + 1 => start len j + width len j

/-- Byte `i` of the `k` low bytes of a word, the most significant one first -/
def byteAt (k : Nat) (w : Reg) (i : Nat) : Byte := (w >>> (8 * (k - 1 - i))).setWidth 8

/-- A whole buffer has been exchanged: the words sent hold the bytes that were there, in order; each
byte returned is in the place of the one it came for; nothing behind is changed; and whatever was
stored was stored after the word of that place was sent. -/
structure Exchanged (b : Bus) (len : Nat) (data : Nat → Byte) (s : St) : Prop where
  burst : (field s.ctl.conreg 20 12).toNat + 1 = len * 8
  count : s.ctl.sent.length = words len
  sent : ∀ j w, s.ctl.sent[j]? = some w → ∀ i < width len j,
    byteAt (width len j) w i = data (start len j + i)
  received : ∀ j < words len, ∀ i < width len j,
    s.data (start len j + i) = byteAt (width len j) (b.reply j) i
  outside : ∀ p, len ≤ p → s.data p = data p
  late : ∀ x ∈ s.stores, x.first + x.count ≤ start len x.sent

/-- A state in which no transfer is under way; there may be words in the receive FIFO. -/
def idle (conreg : Reg) (rx : List Reg) (data : Nat → Byte) : St where
  ctl := ⟨conreg, [], rx, []⟩
  time := 0
  data := data
  transmittedLength := 0
  receivedLength := 0
  stores := []

/-- The transfer ends with 0 and the buffer exchanged. -/
def Right (vals : RegVals) (b : Bus) (len : Nat) (s : St) : Prop :=
  ∃ t, spiXfer vals b len s = some (0, t) ∧ Exchanged b len s.data t

/-! ## The dividers -/

theorem findPre_spec (postDrate clockRate turns preDiv drate : Nat)
    (above : turns = 0 → clockRate < drate) :
    ∃ q, preDiv ≤ q ∧ q ≤ preDiv + turns ∧
      (∀ k, preDiv ≤ k → k < q → clockRate < postDrate / (k + 1)) ∧
      (findPre postDrate clockRate turns preDiv drate).1 = q ∧
      ((findPre postDrate clockRate turns preDiv drate).2 ≤ clockRate ↔ q < preDiv + turns) ∧
      (q < preDiv + turns → postDrate / (q + 1) ≤ clockRate) := by
  induction turns generalizing preDiv drate with
  | zero =>
    exact ⟨preDiv, le_refl _, le_refl _, fun k from_ below => absurd below (by omega), rfl,
      iff_of_false (Nat.not_le.mpr (above rfl)) (Nat.lt_irrefl _),
      fun below => absurd below (Nat.lt_irrefl _)⟩
  | succ turns ih =>
    unfold findPre
    dsimp only
    by_cases found : postDrate / (preDiv + 1) ≤ clockRate
    · rw [if_pos found]
      exact ⟨preDiv, le_refl _, by omega, fun k from_ below => absurd below (by omega), rfl,
        iff_of_true found (by omega), fun _ => found⟩
    · rw [if_neg found]
      obtain ⟨q, from_, below, before, same, ends, fits⟩ :=
        ih (preDiv + 1) (postDrate / (preDiv + 1)) fun _ => Nat.not_le.mp found
      refine ⟨q, by omega, by omega, fun k from' below' => ?_, same, ?_,
        fun lt => fits (by omega)⟩
      · by_cases first : k = preDiv
        · rw [first]
          exact Nat.not_le.mp found
        · exact before k (by omega) below'
      · rw [ends]
        omega

/-- No divider in reach is enough. -/
def Above (moduleClock clockRate post : Nat) : Prop :=
  ∀ pre < 16, clockRate < rate moduleClock post pre

theorem findPost_spec (moduleClock clockRate turns postDiv preDiv : Nat)
    (last : turns = 0 → preDiv = 16) :
    (∃ p q, postDiv ≤ p ∧ p < postDiv + turns ∧ q < 16 ∧
        findPost moduleClock clockRate turns postDiv preDiv = (p, q) ∧
        rate moduleClock p q ≤ clockRate ∧
        (∀ k < q, clockRate < rate moduleClock p k) ∧
        ∀ k, postDiv ≤ k → k < p → Above moduleClock clockRate k) ∨
      (findPost moduleClock clockRate turns postDiv preDiv = (postDiv + turns, 16) ∧
        ∀ k, postDiv ≤ k → k < postDiv + turns → Above moduleClock clockRate k) := by
  induction turns generalizing postDiv preDiv with
  | zero =>
    refine .inr ⟨?_, fun k from_ below => absurd below (by omega)⟩
    rw [last rfl]
    rfl
  | succ turns ih =>
    have split : ∀ pre, moduleClock >>> postDiv / (pre + 1) = rate moduleClock postDiv pre := by
      intro pre
      unfold rate
      rw [Nat.shiftRight_eq_div_pow, Nat.div_div_eq_div_mul]
    obtain ⟨q, _, below, before, same, ends, fits⟩ :=
      findPre_spec (moduleClock >>> postDiv) clockRate 16 0 0
        (fun none_ => absurd none_ (by decide))
    unfold findPost
    dsimp only
    by_cases found : (findPre (moduleClock >>> postDiv) clockRate 16 0 0).2 ≤ clockRate
    · have lt := ends.mp found
      rw [if_pos found, same]
      refine .inl ⟨postDiv, q, le_refl _, by omega, by omega, rfl, ?_, fun k lt' => ?_,
        fun k from_ below' => absurd below' (by omega)⟩
      · rw [← split]
        exact fits lt
      · rw [← split]
        exact before k (Nat.zero_le k) lt'
    · have full : q = 16 := by
        have out := mt ends.mpr found
        omega
      have above : Above moduleClock clockRate postDiv := by
        intro pre lt
        rw [← split]
        exact before pre (Nat.zero_le pre) (by omega)
      have each : ∀ p, (∀ k, postDiv + 1 ≤ k → k < p → Above moduleClock clockRate k) →
          ∀ k, postDiv ≤ k → k < p → Above moduleClock clockRate k := by
        intro p later k from_ below'
        by_cases first : k = postDiv
        · rw [first]
          exact above
        · exact later k (by omega) below'
      rw [if_neg found, same]
      rcases ih (postDiv + 1) q fun _ => full with
        ⟨p, pre, from_, lt, lt', found', low, below', later⟩ | ⟨none_, later⟩
      · exact .inl ⟨p, pre, by omega, by omega, lt', found', low, below', each p later⟩
      · refine .inr ⟨?_, each _ fun k from_ lt => later k from_ (by omega)⟩
        rw [none_]
        exact congrArg (·, 16) (by omega)

theorem rate_le {moduleClock post pre post' pre' : Nat}
    (le : 2 ^ post * (pre + 1) ≤ 2 ^ post' * (pre' + 1)) :
    rate moduleClock post' pre' ≤ rate moduleClock post pre :=
  Nat.div_le_div_left le (Nat.mul_pos (Nat.two_pow_pos post) (Nat.succ_pos pre))

theorem found_least {moduleClock clockRate p q post pre : Nat}
    (before : ∀ k < q, clockRate < rate moduleClock p k)
    (earlier : ∀ k < p, Above moduleClock clockRate k) (low : pre < 16)
    (fits : rate moduleClock post pre ≤ clockRate) :
    2 ^ p * (q + 1) ≤ 2 ^ post * (pre + 1) := by
  have late : p ≤ post := by
    by_contra early
    exact absurd fits (Nat.not_le.mpr (earlier post (Nat.not_le.mp early) pre low))
  obtain ⟨d, rfl⟩ := Nat.exists_eq_add_of_le late
  have regroup : 2 ^ (p + d) * (pre + 1) = 2 ^ p * (2 ^ d * (pre + 1)) := by
    rw [Nat.pow_add, Nat.mul_assoc]
  rw [regroup]
  refine Nat.mul_le_mul_left _ ?_
  by_contra small
  have pos : 0 < 2 ^ d * (pre + 1) := Nat.mul_pos (Nat.two_pow_pos d) (Nat.succ_pos pre)
  have slow := before (2 ^ d * (pre + 1) - 1) (by omega)
  have same : rate moduleClock p (2 ^ d * (pre + 1) - 1) = rate moduleClock (p + d) pre := by
    unfold rate
    rw [regroup, Nat.sub_add_cancel pos]
  rw [same] at slow
  omega

theorem masked_field (v : Nat) (start k : Nat) {mask : Reg} (room : start + k ≤ 32)
    (ones : field mask start k = BitVec.allOnes k) :
    (field ((BitVec.ofNat 32 v <<< start) &&& mask) start k).toNat = v % 2 ^ k := by
  rw [field_and, ones, BitVec.and_allOnes, field_toNat, BitVec.toNat_shiftLeft, BitVec.toNat_ofNat,
    Nat.shiftLeft_eq]
  have split : (2 : Nat) ^ 32 = 2 ^ start * (2 ^ (32 - start)) := by
    rw [← Nat.pow_add, Nat.add_sub_cancel' (by omega)]
  have part : 2 ^ k ∣ 2 ^ (32 - start) := Nat.pow_dvd_pow 2 (by omega)
  have part' : 2 ^ k ∣ 2 ^ 32 := Nat.pow_dvd_pow 2 (by omega)
  rw [split, Nat.mul_comm (v % _), Nat.mul_mod_mul_left,
    Nat.mul_div_cancel_left _ (Nat.two_pow_pos start), ← split]
  rw [Nat.mod_mod_of_dvd _ part, Nat.mod_mod_of_dvd _ part']

theorem spiInit_dividers (moduleClock : Reg) (dev : SpiDev) :
    (field (spiInit moduleClock dev).conreg 8 4).toNat =
        (findPost moduleClock.toNat dev.clockRate.toNat 16 0 0).1 % 16 ∧
      (field (spiInit moduleClock dev).conreg 12 4).toNat =
        (findPost moduleClock.toNat dev.clockRate.toNat 16 0 0).2 % 16 := by
  have left : ∀ v : BitVec 4, 0 ||| v = v := fun _ => BitVec.zero_or
  have right : ∀ v : BitVec 4, v ||| 0 = v := fun _ => BitVec.or_zero
  have mode : ∀ c : Fin 4, field (channelMode c) 8 4 = 0 ∧ field (channelMode c) 12 4 = 0 := by
    decide
  have zero : field (0 : Reg) 8 4 = 0 ∧ field (0 : Reg) 12 4 = 0 := by decide
  have smc : field MX6X_ECSPI_CONREG_SMC 8 4 = 0 ∧ field MX6X_ECSPI_CONREG_SMC 12 4 = 0 := by
    decide
  have en : field MX6X_ECSPI_CONREG_EN 8 4 = 0 ∧ field MX6X_ECSPI_CONREG_EN 12 4 = 0 := by
    decide
  unfold spiInit
  generalize findPost moduleClock.toNat dev.clockRate.toNat 16 0 0 = found
  dsimp only
  constructor
  · rw [field_or, field_or, field_or, field_or, field_or, field_or, zero.1, (mode _).1, smc.1, en.1,
      field_clear (by decide : field MX6X_ECSPI_CONREG_CHANNEL_SELECT_MASK 8 4 = 0),
      field_clear (by decide : field MX6X_ECSPI_CONREG_PRE_DIVIDER_MASK 8 4 = 0), left, left, left,
      right, right, right]
    exact masked_field found.1 8 4 (by decide) (by decide)
  · rw [field_or, field_or, field_or, field_or, field_or, field_or, zero.2, (mode _).2, smc.2, en.2,
      field_clear (by decide : field MX6X_ECSPI_CONREG_CHANNEL_SELECT_MASK 12 4 = 0),
      field_clear (by decide : field MX6X_ECSPI_CONREG_POST_DIVIDER_MASK 12 4 = 0), left, left,
      right, right, right, right]
    exact masked_field found.2 12 4 (by decide) (by decide)

/-- Where no divider is enough, both counters have run to 16, which the fields have not room for. -/
theorem selects_iff (moduleClock : Reg) (dev : SpiDev) :
    Selects moduleClock.toNat dev.clockRate.toNat (spiInit moduleClock dev).conreg ↔
      moduleClock.toNat / 2 ^ 19 ≤ dev.clockRate.toNat := by
  obtain ⟨post, pre⟩ := spiInit_dividers moduleClock dev
  have slowest : rate moduleClock.toNat 15 15 = moduleClock.toNat / 2 ^ 19 := rfl
  have chosen : selected moduleClock.toNat (spiInit moduleClock dev).conreg =
      rate moduleClock.toNat ((findPost moduleClock.toNat dev.clockRate.toNat 16 0 0).1 % 16)
        ((findPost moduleClock.toNat dev.clockRate.toNat 16 0 0).2 % 16) := by
    unfold selected
    rw [post, pre]
  unfold Selects
  rw [chosen]
  rcases findPost_spec moduleClock.toNat dev.clockRate.toNat 16 0 0
      (fun none_ => absurd none_ (by decide)) with
    ⟨p, q, _, lt, lt', found, fits, before, earlier⟩ | ⟨none_, above⟩
  · rw [found]
    dsimp only
    rw [Nat.mod_eq_of_lt (by omega : p < 16), Nat.mod_eq_of_lt lt']
    refine iff_of_true ⟨fun _ => ⟨fits, fun post' _ pre' low fits' => ?_⟩, fun all => ?_⟩ ?_
    · exact rate_le (found_least before (fun k below => earlier k (Nat.zero_le k) below) low fits')
    · exact absurd fits (Nat.not_le.mpr (all p (by omega) q lt'))
    · rw [← slowest]
      refine le_trans (rate_le ?_) fits
      exact Nat.mul_le_mul (Nat.pow_le_pow_right (by decide) (by omega)) (by omega)
  · have all : ∀ post < 16, ∀ pre < 16,
        dev.clockRate.toNat < rate moduleClock.toNat post pre :=
      fun post lt => above post (Nat.zero_le post) (by omega)
    have beyond := all 15 (by decide) 15 (by decide)
    rw [none_]
    show ((_ → _) ∧ (_ → ∀ post < 16, ∀ pre < 16,
      rate moduleClock.toNat 0 0 ≤ rate moduleClock.toNat post pre)) ↔ _
    refine iff_of_false (fun both => ?_) (by rw [← slowest]; omega)
    have least := both.2 all 15 (by decide) 15 (by decide)
    have whole : rate moduleClock.toNat 0 0 = moduleClock.toNat := by
      unfold rate
      rw [Nat.pow_zero, Nat.one_mul, Nat.zero_add, Nat.div_one]
    rw [whole, slowest] at least
    rw [slowest] at beyond
    omega

/-! ## The words -/

theorem width_pos (len j : Nat) : 0 < width len j := by
  unfold width
  by_cases short : j = 0 ∧ len % 4 ≠ 0
  · rw [if_pos short]
    exact Nat.pos_of_ne_zero short.2
  · rw [if_neg short]
    exact Nat.zero_lt_succ 3

theorem start_succ (len j : Nat) :
    start len (j + 1) = (if len % 4 = 0 then 4 else len % 4) + 4 * j := by
  induction j with
  | zero =>
    show 0 + width len 0 = _
    unfold width
    by_cases even : len % 4 = 0
    · rw [if_neg fun both => both.2 even, if_pos even]
    · rw [if_pos ⟨rfl, even⟩, if_neg even, Nat.zero_add, Nat.mul_zero, Nat.add_zero]
  | succ j ih =>
    show start len (j + 1) + width len (j + 1) = _
    have full : width len (j + 1) = 4 := if_neg fun both => absurd both.1 (Nat.succ_ne_zero j)
    rw [ih, full]
    omega

theorem start_words {len : Nat} (pos : 1 ≤ len) : start len (words len) = len := by
  obtain ⟨j, last⟩ : ∃ j, words len = j + 1 := ⟨words len - 1, by unfold words; omega⟩
  rw [last, start_succ]
  unfold words at last
  by_cases even : len % 4 = 0
  · rw [if_pos even]
    omega
  · rw [if_neg even]
    omega

theorem start_mono (len : Nat) {j k : Nat} (le : j ≤ k) : start len j ≤ start len k := by
  induction k, le using Nat.le_induction with
  | base => exact Nat.le_refl _
  | succ k _ ih => exact ih.trans (Nat.le_add_right _ _)

theorem start_lt (len : Nat) {j k : Nat} (lt : j < k) : start len j + width len j ≤ start len k :=
  start_mono len lt

theorem start_lt_iff {len : Nat} (pos : 1 ≤ len) (j : Nat) : start len j < len ↔ j < words len := by
  constructor
  · intro below
    by_contra late
    have le := start_mono len (Nat.not_lt.mp late)
    rw [start_words pos] at le
    omega
  · intro below
    have le := start_lt len below
    rw [start_words pos] at le
    have := width_pos len j
    omega

/-- The word `j` for the buffer -/
def txWord (len : Nat) (data : Nat → Byte) (j : Nat) : Reg :=
  if j = 0 then ((firstWord data len).map Prod.fst).getD (wordAt data 0)
  else wordAt data (start len j)

theorem byte_toNat (v : Byte) : (v.setWidth 32 : Reg).toNat = v.toNat := by
  rw [BitVec.toNat_setWidth]
  exact Nat.mod_eq_of_lt (Nat.lt_of_lt_of_le v.isLt (by decide))

theorem byteAt_toNat (k : Nat) (w : Reg) (i : Nat) :
    (byteAt k w i).toNat = w.toNat / 2 ^ (8 * (k - 1 - i)) % 2 ^ 8 := by
  unfold byteAt
  rw [BitVec.toNat_setWidth, BitVec.toNat_ushiftRight, Nat.shiftRight_eq_div_pow]

theorem join_toNat {high low : Nat} {v w : Reg} (fits : v.toNat < 2 ^ high)
    (below : w.toNat < 2 ^ low) (room : high + low ≤ 32) :
    (v <<< low ||| w).toNat = v.toNat * 2 ^ low + w.toNat ∧
      v.toNat * 2 ^ low + w.toNat < 2 ^ (high + low) := by
  have bound : v.toNat * 2 ^ low + w.toNat < 2 ^ (high + low) := by
    have step : (v.toNat + 1) * 2 ^ low ≤ 2 ^ high * 2 ^ low := Nat.mul_le_mul_right _ fits
    rw [Nat.pow_add]
    rw [Nat.add_mul, Nat.one_mul] at step
    omega
  refine ⟨toNat_join low below ?_, bound⟩
  have top : (2 : Nat) ^ (high + low) ≤ 2 ^ 32 := Nat.pow_le_pow_right (by decide) room
  omega

theorem wordAt_toNat (data : Nat → Byte) (p : Nat) :
    (wordAt data p).toNat = (data p).toNat * 2 ^ 24 + (data (p + 1)).toNat * 2 ^ 16 +
      (data (p + 2)).toNat * 2 ^ 8 + (data (p + 3)).toNat := by
  have small : ∀ v : Byte, (v.setWidth 32 : Reg).toNat < 2 ^ 8 := fun v => by
    rw [byte_toNat]
    exact v.isLt
  obtain ⟨two, lt⟩ := join_toNat (small (data (p + 2))) (small (data (p + 3))) (by decide)
  obtain ⟨three, lt'⟩ := join_toNat (small (data (p + 1))) (two.trans_lt lt) (by decide)
  obtain ⟨four, _⟩ := join_toNat (small (data p)) (three.trans_lt lt') (by decide)
  unfold wordAt
  rw [BitVec.shiftLeft_zero, BitVec.or_assoc, BitVec.or_assoc, four, three, two, byte_toNat,
    byte_toNat, byte_toNat, byte_toNat]
  omega

theorem byteAt_wordAt (data : Nat → Byte) (p : Nat) {i : Nat} (inside : i < 4) :
    byteAt 4 (wordAt data p) i = data (p + i) := by
  refine BitVec.eq_of_toNat_eq ?_
  have b0 := (data p).isLt
  have b1 := (data (p + 1)).isLt
  have b2 := (data (p + 2)).isLt
  have b3 := (data (p + 3)).isLt
  rw [byteAt_toNat, wordAt_toNat]
  interval_cases i
  · show _ = (data p).toNat
    omega
  · omega
  · omega
  · omega

theorem firstWord_even (data : Nat → Byte) {len : Nat} (even : len % 4 = 0) :
    firstWord data len = none := by
  unfold firstWord
  rw [even]
  rfl

theorem byteAt_firstWord (data : Nat → Byte) {len : Nat} {i : Nat} (inside : i < len % 4) :
    ∃ w, firstWord data len = some (w, len % 4) ∧ byteAt (len % 4) w i = data i := by
  have small : ∀ v : Byte, (v.setWidth 32 : Reg).toNat < 2 ^ 8 := fun v => by
    rw [byte_toNat]
    exact v.isLt
  obtain ⟨two, lt⟩ := join_toNat (small (data 1)) (small (data 2)) (by decide)
  obtain ⟨three, _⟩ := join_toNat (small (data 0)) (two.trans_lt lt) (by decide)
  obtain ⟨pair, _⟩ := join_toNat (small (data 0)) (small (data 1)) (by decide)
  have b0 := (data 0).isLt
  have b1 := (data 1).isLt
  have b2 := (data 2).isLt
  have lt4 := Nat.mod_lt len (by decide : 0 < 4)
  unfold firstWord
  generalize len % 4 = k at inside lt4
  interval_cases k
  · omega
  · refine ⟨_, rfl, BitVec.eq_of_toNat_eq ?_⟩
    rw [byteAt_toNat, byte_toNat]
    interval_cases i
    omega
  · refine ⟨_, rfl, BitVec.eq_of_toNat_eq ?_⟩
    rw [byteAt_toNat, pair, byte_toNat, byte_toNat]
    interval_cases i
    · omega
    · omega
  · refine ⟨_, rfl, BitVec.eq_of_toNat_eq ?_⟩
    rw [byteAt_toNat, BitVec.or_assoc, three, two, byte_toNat, byte_toNat, byte_toNat]
    interval_cases i
    · omega
    · omega
    · omega

theorem byteAt_txWord (len : Nat) (data : Nat → Byte) (j : Nat) {i : Nat}
    (inside : i < width len j) :
    byteAt (width len j) (txWord len data j) i = data (start len j + i) := by
  unfold txWord
  by_cases short : j = 0 ∧ len % 4 ≠ 0
  · have narrow : width len j = len % 4 := if_pos short
    rw [narrow] at inside ⊢
    obtain ⟨w, first, byte⟩ := byteAt_firstWord data inside
    rw [if_pos short.1, first, short.1]
    exact byte.trans (congrArg data (Nat.zero_add i).symm)
  · have full : width len j = 4 := if_neg short
    rw [full] at inside ⊢
    by_cases first : j = 0
    · have even : len % 4 = 0 := Classical.not_not.mp fun odd => short ⟨first, odd⟩
      have none_ := firstWord_even data even
      rw [if_pos first, none_, first]
      exact byteAt_wordAt data 0 inside
    · rw [if_neg first]
      exact byteAt_wordAt data _ inside

theorem start_eq_zero (len r : Nat) : start len r = 0 ↔ r = 0 := by
  cases r with
  | zero => exact iff_of_true rfl rfl
  | succ r =>
    have pos := width_pos len r
    refine iff_of_false ?_ (Nat.succ_ne_zero r)
    show start len r + width len r ≠ 0
    omega

theorem recBytes_eq (len r : Nat) (w : Reg) :
    recBytes (start len r) len w = (List.range (width len r)).map (byteAt (width len r) w) := by
  have first : start len r = 0 ∧ len % 4 ≠ 0 ↔ r = 0 ∧ len % 4 ≠ 0 :=
    and_congr_left fun _ => start_eq_zero len r
  unfold recBytes width
  by_cases short : r = 0 ∧ len % 4 ≠ 0
  · rw [if_pos (first.mpr short), if_pos short]
    have odd := short.2
    have lt4 := Nat.mod_lt len (by decide : 0 < 4)
    generalize len % 4 = k at odd lt4
    interval_cases k
    · exact absurd rfl odd
    · rfl
    · rfl
    · rfl
  · rw [if_neg (mt first.mp short), if_neg short]
    rfl

theorem putBytes_inside {data : Nat → Byte} {p i : Nat} {bytes : List Byte}
    (inside : i < bytes.length) :
    putBytes data p bytes (p + i) = bytes[i] := by
  unfold putBytes
  rw [if_pos (Nat.le_add_right p i), Nat.add_sub_cancel_left, List.getElem?_eq_getElem inside]
  rfl

theorem putBytes_outside {data : Nat → Byte} {p q : Nat} {bytes : List Byte}
    (outside : q < p ∨ p + bytes.length ≤ q) : putBytes data p bytes q = data q := by
  unfold putBytes
  by_cases behind : p ≤ q
  · rw [if_pos behind, List.getElem?_eq_none (by omega)]
    rfl
  · rw [if_neg behind]

/-! ## Transfers that fit the FIFOs -/

/-- `q` words have been queued and `r` taken, and no word has been dropped. -/
structure Held (b : Bus) (len : Nat) (data : Nat → Byte) (q r : Nat) (s : St) : Prop where
  burst : (field s.ctl.conreg 20 12).toNat + 1 = len * 8
  transmitted : s.transmittedLength = start len q
  received : s.receivedLength = start len r
  queued : s.ctl.sent ++ s.ctl.tx = (List.range q).map (txWord len data)
  inside : q ≤ words len
  back : r ≤ s.ctl.sent.length
  rx : s.ctl.rx = (List.range' r (s.ctl.sent.length - r)).map b.reply
  stored : ∀ j < r, ∀ i < width len j,
    s.data (start len j + i) = byteAt (width len j) (b.reply j) i
  rest : ∀ p, start len r ≤ p → s.data p = data p
  late : ∀ x ∈ s.stores, x.first + x.count ≤ start len x.sent

section Fits

variable {b : Bus} {len : Nat} {data : Nat → Byte} {q r : Nat} {s : St}

theorem Held.length (held : Held b len data q r s) :
    s.ctl.sent.length + s.ctl.tx.length = q := by
  have same := congrArg List.length held.queued
  rwa [List.length_append, List.length_map, List.length_range] at same

theorem Held.rx_length (held : Held b len data q r s) :
    s.ctl.rx.length = s.ctl.sent.length - r := by
  rw [held.rx, List.length_map, List.length_range']

theorem Held.tick (held : Held b len data q r s) (short : words len ≤ 64) :
    Held b len data q r { s with ctl := s.ctl.tick b } ∧
      s.ctl.sent.length ≤ (s.ctl.tick b).sent.length ∧
      (s.ctl.tick b).tx.length = s.ctl.tx.length - 1 := by
  have length := held.length
  have inside := held.inside
  have room := held.rx_length
  have back := held.back
  unfold Ctl.tick
  cases queue : s.ctl.tx with
  | nil => exact ⟨held, le_refl _, by rw [queue]; rfl⟩
  | cons w tx =>
    rw [queue, List.length_cons] at length
    dsimp only
    rw [if_pos (by omega : s.ctl.rx.length < 64)]
    refine ⟨⟨held.burst, held.transmitted, held.received, ?_, inside, ?_, ?_, held.stored,
      held.rest, held.late⟩, ?_, rfl⟩
    · dsimp only
      rw [List.append_assoc, List.singleton_append, ← queue]
      exact held.queued
    · dsimp only
      rw [List.length_append]
      exact Nat.le_add_right_of_le back
    · dsimp only
      rw [List.length_append, List.length_singleton, Nat.sub_add_comm back,
        List.range'_1_concat, List.map_append, ← held.rx, Nat.add_sub_cancel' back]
      rfl
    · rw [List.length_append]
      exact Nat.le_add_right _ _

theorem Held.ticks (held : Held b len data q r s) (short : words len ≤ 64) (n : Nat) :
    Held b len data q r { s with ctl := s.ctl.ticks b n } ∧
      s.ctl.sent.length ≤ (s.ctl.ticks b n).sent.length ∧
      (s.ctl.ticks b n).tx.length = s.ctl.tx.length - n := by
  induction n generalizing s with
  | zero => exact ⟨held, le_refl _, rfl⟩
  | succ n ih =>
    obtain ⟨held', more, less⟩ := held.tick short
    obtain ⟨held2, more', less'⟩ := ih held'
    exact ⟨held2, more.trans more', less'.trans (by rw [less]; omega)⟩

theorem Held.elapse (held : Held b len data q r s) (short : words len ≤ 64) :
    Held b len data q r (elapse b s) ∧
      s.ctl.sent.length ≤ (Ecspi.elapse b s).ctl.sent.length := by
  obtain ⟨held', more, _⟩ := held.ticks short (b.pace s.time)
  exact ⟨⟨held'.burst, held'.transmitted, held'.received, held'.queued, held'.inside, held'.back,
    held'.rx, held'.stored, held'.rest, held'.late⟩, more⟩

theorem Held.writeTx (held : Held b len data q r s) (short : words len ≤ 64)
    (more : q < words len) :
    Held b len data (q + 1) r (writeTx b (txWord len data q) (width len q) s) := by
  obtain ⟨held', _⟩ := held.elapse short
  refine ⟨held'.burst, congrArg (· + width len q) held'.transmitted, held'.received, ?_, more,
    held'.back, held'.rx, held'.stored, held'.rest, held'.late⟩
  show (Ecspi.elapse b s).ctl.sent ++ ((Ecspi.elapse b s).ctl.tx ++ [txWord len data q]) = _
  rw [← List.append_assoc, held'.queued, List.range_succ, List.map_append]
  rfl

theorem Held.readWord (held : Held b len data q r s) (short : words len ≤ 64)
    (there : r < s.ctl.sent.length) :
    Held b len data q (r + 1) (readWord b len s) ∧
      s.ctl.sent.length ≤ (readWord b len s).ctl.sent.length := by
  obtain ⟨held', more⟩ := held.elapse short
  have there' : r < (Ecspi.elapse b s).ctl.sent.length := Nat.lt_of_lt_of_le there more
  have split : (Ecspi.elapse b s).ctl.rx = b.reply r ::
      (List.range' (r + 1) ((Ecspi.elapse b s).ctl.sent.length - (r + 1))).map b.reply := by
    have count : (Ecspi.elapse b s).ctl.sent.length - r =
        ((Ecspi.elapse b s).ctl.sent.length - (r + 1)) + 1 := by omega
    rw [held'.rx, count, List.range'_succ, List.map_cons]
  have bytes : recBytes (Ecspi.elapse b s).receivedLength len
      ((Ecspi.elapse b s).ctl.rx.headD 0) =
      (List.range (width len r)).map (byteAt (width len r) (b.reply r)) := by
    rw [held'.received, split, recBytes_eq]
    rfl
  have count : (recBytes (Ecspi.elapse b s).receivedLength len
      ((Ecspi.elapse b s).ctl.rx.headD 0)).length = width len r := by
    rw [bytes, List.length_map, List.length_range]
  refine ⟨⟨held'.burst, held'.transmitted, ?_, held'.queued, held'.inside, there', ?_, ?_, ?_, ?_⟩,
    more⟩
  · show (Ecspi.elapse b s).receivedLength + _ = _
    rw [count, held'.received]
    rfl
  · show (Ecspi.elapse b s).ctl.rx.tail = _
    rw [split]
    rfl
  · intro j taken i inside
    show putBytes _ _ _ _ = _
    rw [held'.received]
    by_cases last : j = r
    · rw [last] at inside ⊢
      rw [held'.received] at count bytes
      rw [putBytes_inside (by rw [count]; exact inside)]
      simp only [bytes, List.getElem_map, List.getElem_range]
    · have before : j < r := by omega
      have apart := start_lt len before
      rw [putBytes_outside (.inl (by omega))]
      exact held'.stored j before i inside
  · intro p behind
    have behind' : start len r + width len r ≤ p := behind
    show putBytes _ _ _ _ = _
    rw [putBytes_outside (.inr (by rw [count, held'.received]; exact behind'))]
    exact held'.rest p (Nat.le_of_add_right_le behind')
  · intro x mem
    rcases List.mem_append.mp mem with old | new
    · exact held'.late x old
    · rw [List.mem_singleton.mp new]
      show (Ecspi.elapse b s).receivedLength + _ ≤ start len (Ecspi.elapse b s).ctl.sent.length
      rw [count, held'.received]
      exact start_lt len there'

theorem Held.readWords (held : Held b len data q r s) (short : words len ≤ 64) {n : Nat}
    (there : r + n ≤ s.ctl.sent.length) : Held b len data q (r + n) (readWords b len n s) := by
  induction n generalizing r s with
  | zero => exact held
  | succ n ih =>
    obtain ⟨held', more⟩ := held.readWord short (by omega)
    have next := ih held' (by omega)
    rwa [Nat.add_assoc, Nat.add_comm 1] at next

theorem Held.checkRx (held : Held b len data q r s) (short : words len ≤ 64) :
    ∃ r', Held b len data q r' (checkRx b len s) := by
  obtain ⟨held', _⟩ := held.elapse short
  unfold Ecspi.checkRx
  by_cases many : RX_WATERMARK < (Ecspi.elapse b s).ctl.rx.length
  · rw [if_pos many]
    rw [held'.rx_length] at many
    exact ⟨_, held'.readWords short (by omega)⟩
  · rw [if_neg many]
    exact ⟨r, held'⟩

theorem Held.waitRoom (held : Held b len data q r s) (short : words len ≤ 64) :
    Held b len data q r (waitRoom b s) := by
  obtain ⟨held', _⟩ := held.elapse short
  unfold Ecspi.waitRoom
  by_cases full : 64 ≤ (Ecspi.elapse b s).ctl.tx.length
  · rw [if_pos full]
    exact (held'.tick short).1
  · rw [if_neg full]
    exact held'

theorem Held.wordAt (held : Held b len data q r s)
    (later : q = 0 → len % 4 = 0) :
    wordAt s.data s.transmittedLength = txWord len data q ∧ width len q = 4 := by
  have full : width len q = 4 := if_neg fun both => both.2 (later both.1)
  have length := held.length
  have place : start len r ≤ start len q := start_mono len (held.back.trans (by omega))
  have same : ∀ i, s.data (start len q + i) = data (start len q + i) := fun i =>
    held.rest _ (Nat.le_add_right_of_le place)
  refine ⟨?_, full⟩
  have whole : Ecspi.wordAt s.data (start len q) = Ecspi.wordAt data (start len q) := by
    unfold Ecspi.wordAt
    rw [same 1, same 2, same 3, held.rest _ place]
  rw [held.transmitted, whole]
  unfold txWord
  by_cases first : q = 0
  · have none_ := firstWord_even data (later first)
    rw [if_pos first, none_, first]
    rfl
  · rw [if_neg first]

theorem Held.queueWords (held : Held b len data q r s) (short : words len ≤ 64) (pos : 1 ≤ len)
    (later : q = 0 → len % 4 = 0) {fuel : Nat} (enough : words len - q < fuel) :
    ∃ t r', queueWords b len fuel s = some t ∧ Held b len data (words len) r' t := by
  induction fuel generalizing q r s with
  | zero => omega
  | succ fuel ih =>
    unfold Ecspi.queueWords
    by_cases more : q < words len
    · have going : s.transmittedLength < len := by
        rw [held.transmitted]
        exact (start_lt_iff pos q).mpr more
      have held' := held.waitRoom short
      obtain ⟨word, four⟩ := held'.wordAt later
      have written := held'.writeTx short more
      obtain ⟨r', checked⟩ := written.checkRx short
      rw [if_pos going]
      dsimp only
      rw [word, ← four]
      exact ih checked (fun zero => absurd zero (Nat.succ_ne_zero q)) (by omega)
    · have done : q = words len := Nat.le_antisymm held.inside (Nat.not_lt.mp more)
      have stopped : ¬s.transmittedLength < len := by
        rw [held.transmitted]
        exact mt (start_lt_iff pos q).mp more
      rw [if_neg stopped]
      rw [done] at held
      exact ⟨s, r, rfl, held⟩

theorem Held.drain (held : Held b len data (words len) r s) (short : words len ≤ 64)
    (pos : 1 ≤ len) {n : Nat} (left : r + n = words len)
    (all : words len ≤ s.ctl.sent.length) :
    Held b len data (words len) (words len) (drain b len n s) := by
  induction n generalizing r s with
  | zero =>
    rw [Nat.add_zero] at left
    rw [left] at held
    exact held
  | succ n ih =>
    have going : s.receivedLength < len := by
      rw [held.received]
      exact (start_lt_iff pos r).mpr (by omega)
    obtain ⟨held', more⟩ := held.readWord short (by omega)
    unfold Ecspi.drain
    rw [if_pos going]
    exact ih held' (by omega) (all.trans more)

theorem Held.conclude (held : Held b len data (words len) r s) (short : words len ≤ 64)
    (pos : 1 ≤ len) :
    ∃ t, conclude b len s = (0, t) ∧ Held b len data (words len) (words len) t ∧
      t.ctl.sent.length = words len := by
  obtain ⟨held', more, empty⟩ := held.ticks short s.ctl.tx.length
  have length := held'.length
  have back := held'.back
  have room := held'.rx_length
  dsimp only at length back room
  rw [Nat.sub_self] at empty
  have drained := held'.drain short pos (n := (waitTc b s).ctl.rx.length)
    (by show r + (s.ctl.ticks b s.ctl.tx.length).rx.length = words len; omega)
    (by dsimp only; omega)
  refine ⟨_, ?_, drained, ?_⟩
  · unfold Ecspi.conclude
    dsimp only
    rw [if_neg]
    · rfl
    · show ¬(Ecspi.drain b len _ (waitTc b s)).receivedLength ≠
        (Ecspi.drain b len _ (waitTc b s)).transmittedLength
      rw [show (Ecspi.drain b len _ (waitTc b s)).receivedLength = _ from drained.received,
        show (Ecspi.drain b len _ (waitTc b s)).transmittedLength = _ from drained.transmitted]
      exact not_not_intro rfl
  · have length' := drained.length
    have back' := drained.back
    omega

theorem Held.exchanged (held : Held b len data (words len) (words len) s) (pos : 1 ≤ len)
    (count : s.ctl.sent.length = words len) : Exchanged b len data s where
  burst := held.burst
  count := count
  sent := by
    intro j w at_ i inside
    have length := held.length
    have none_ : s.ctl.tx = [] := List.eq_nil_of_length_eq_zero (by omega)
    have all := held.queued
    rw [none_, List.append_nil] at all
    rw [all, List.getElem?_map] at at_
    obtain ⟨k, there, word⟩ := Option.map_eq_some_iff.mp at_
    obtain ⟨_, same⟩ := List.getElem?_eq_some_iff.mp there
    rw [List.getElem_range] at same
    rw [← word, ← same]
    exact byteAt_txWord len data j inside
  received := held.stored
  outside := by
    intro p behind
    refine held.rest p ?_
    rw [start_words pos]
    exact behind
  late := held.late

end Fits

theorem burst_field (vals : RegVals) {len : Nat} (most : len ≤ 512) (pos : 1 ≤ len) (reg : Reg) :
    (field (burstConreg vals len reg) 20 12).toNat + 1 = len * 8 := by
  have left : ∀ v : BitVec 12, 0 ||| v = v := fun _ => BitVec.zero_or
  unfold burstConreg
  dsimp only
  rw [field_or, field_clear (by decide : field (~~~MX6X_ECSPI_CONREG_BURST_LENGTH_MASK) 20 12 = 0),
    left]
  have burst := masked_field (len * 8 - 1) 20 12 (by decide)
    (by decide : field MX6X_ECSPI_CONREG_BURST_LENGTH_MASK 20 12 = BitVec.allOnes 12)
  rw [show MX6X_ECSPI_CONREG_BURST_LENGTH_SHIFT = 20 from rfl, burst, Nat.mod_eq_of_lt (by omega)]
  omega

theorem begin_held (vals : RegVals) (b : Bus) {len : Nat} (most : len ≤ 512) (pos : 1 ≤ len)
    (conreg : Reg) (rx : List Reg) (data : Nat → Byte) :
    Held b len data 0 0 (begin_ vals len (idle conreg rx data)) where
  burst := burst_field vals most pos conreg
  transmitted := rfl
  received := rfl
  queued := rfl
  inside := Nat.zero_le _
  back := le_refl 0
  rx := rfl
  stored := fun j none_ => absurd none_ (Nat.not_lt_zero j)
  rest := fun _ _ => rfl
  late := fun _ mem => absurd mem List.not_mem_nil

theorem right_of_short (vals : RegVals) (b : Bus) {len : Nat} (pos : 1 ≤ len) (short : len ≤ 256)
    (conreg : Reg) (rx : List Reg) (data : Nat → Byte) :
    Right vals b len (idle conreg rx data) := by
  have few : words len ≤ 64 := by
    unfold words
    omega
  have started := begin_held vals b (by omega : len ≤ 512) pos conreg rx data
  obtain ⟨q, first, later⟩ : ∃ q,
      Held b len data q 0 (writeFirst b len (begin_ vals len (idle conreg rx data))) ∧
        (q = 0 → len % 4 = 0) := by
    unfold writeFirst
    by_cases even : len % 4 = 0
    · have none_ := firstWord_even data even
      rw [show firstWord (begin_ vals len (idle conreg rx data)).data len = none from none_]
      exact ⟨0, started, fun _ => even⟩
    · obtain ⟨w, word, _⟩ := byteAt_firstWord data (Nat.pos_of_ne_zero even)
      have same : txWord len data 0 = w := by
        unfold txWord
        rw [if_pos rfl, word]
        rfl
      have narrow : width len 0 = len % 4 := if_pos ⟨rfl, even⟩
      rw [show firstWord (begin_ vals len (idle conreg rx data)).data len = _ from word]
      have written := started.writeTx few (by unfold words; omega)
      rw [same, narrow] at written
      exact ⟨1, written, fun zero => absurd zero (by decide)⟩
  have enough : words len - q < len := by
    unfold words
    by_cases none_ : q = 0
    · have even := later none_
      omega
    · omega
  obtain ⟨t, r, ran, queued⟩ := first.queueWords few pos later enough
  obtain ⟨u, ends, done, count⟩ := queued.conclude few pos
  refine ⟨u, ?_, done.exchanged pos count⟩
  unfold spiXfer
  rw [if_neg (by omega), ran, Option.map_some, ends]

/-! ## Longer transfers -/

/-- A device that does not answer, and a clock that goes on only where the processor waits for it -/
def slow : Bus := ⟨fun _ => 0, fun _ => 0⟩

/-- At the slow pace: the transmit FIFO holds the words queued, as far as there is room, and from
the 65th word on there is one in the receive FIFO. -/
structure Full (len q r : Nat) (s : St) : Prop where
  transmitted : s.transmittedLength = start len q
  received : s.receivedLength = start len r
  tx : s.ctl.tx.length = min q 64
  taken : r + s.ctl.rx.length + s.ctl.tx.length ≤ q
  room : s.ctl.rx.length ≤ 64
  some_ : 64 < q → 0 < s.ctl.rx.length

theorem readWord_slow {len r : Nat} {s : St} (received : s.receivedLength = start len r) :
    (readWord slow len s).receivedLength = start len (r + 1) ∧
      (readWord slow len s).ctl.rx.length = s.ctl.rx.length - 1 ∧
      (readWord slow len s).ctl.tx = s.ctl.tx ∧
      (readWord slow len s).transmittedLength = s.transmittedLength := by
  refine ⟨?_, List.length_tail, rfl, rfl⟩
  show s.receivedLength + (recBytes s.receivedLength len (s.ctl.rx.headD 0)).length = _
  rw [received, recBytes_eq, List.length_map, List.length_range]
  rfl

theorem readWords_slow {len r : Nat} {s : St} (received : s.receivedLength = start len r)
    (n : Nat) :
    (readWords slow len n s).receivedLength = start len (r + n) ∧
      (readWords slow len n s).ctl.rx.length = s.ctl.rx.length - n ∧
      (readWords slow len n s).ctl.tx = s.ctl.tx ∧
      (readWords slow len n s).transmittedLength = s.transmittedLength := by
  induction n generalizing r s with
  | zero => exact ⟨received, rfl, rfl, rfl⟩
  | succ n ih =>
    obtain ⟨received', less, tx, transmitted⟩ := readWord_slow received
    obtain ⟨received2, less', tx', transmitted'⟩ := ih received'
    rw [Nat.add_assoc, Nat.add_comm 1] at received2
    exact ⟨received2, less'.trans (by rw [less]; omega), tx'.trans tx,
      transmitted'.trans transmitted⟩

theorem tick_slow (c : Ctl) (more : 0 < c.tx.length) :
    (c.tick slow).tx.length = c.tx.length - 1 ∧
      (c.rx.length < 64 → (c.tick slow).rx.length = c.rx.length + 1) ∧
      (¬c.rx.length < 64 → (c.tick slow).rx.length = c.rx.length) := by
  unfold Ctl.tick
  cases queue : c.tx with
  | nil =>
    rw [queue] at more
    exact absurd more (Nat.lt_irrefl 0)
  | cons w tx =>
    refine ⟨rfl, fun room => ?_, fun full => ?_⟩
    · dsimp only
      rw [if_pos room, List.length_append, List.length_singleton]
    · dsimp only
      rw [if_neg full]

theorem ticks_slow (c : Ctl) (n : Nat) (room : c.rx.length ≤ 64) :
    (c.ticks slow n).rx.length ≤ 64 := by
  induction n generalizing c with
  | zero => exact room
  | succ n ih =>
    refine ih (c.tick slow) ?_
    by_cases more : 0 < c.tx.length
    · obtain ⟨_, grows, stays⟩ := tick_slow c more
      by_cases free : c.rx.length < 64
      · rw [grows free]
        exact free
      · rw [stays free]
        exact room
    · have none_ : c.tx = [] := List.eq_nil_of_length_eq_zero (by omega)
      unfold Ctl.tick
      rw [none_]
      exact room

section Slow

variable {len q r : Nat} {s : St}

theorem Full.waitRoom (full : Full len q r s) :
    (waitRoom slow s).transmittedLength = start len q ∧
      (waitRoom slow s).receivedLength = start len r ∧
      (waitRoom slow s).ctl.tx.length = min q 63 ∧
      r + (waitRoom slow s).ctl.rx.length + (waitRoom slow s).ctl.tx.length ≤ q ∧
      (waitRoom slow s).ctl.rx.length ≤ 64 ∧
      (64 ≤ q → 0 < (waitRoom slow s).ctl.rx.length) := by
  have tx := full.tx
  have taken := full.taken
  have room := full.room
  unfold Ecspi.waitRoom
  by_cases many : 64 ≤ (elapse slow s).ctl.tx.length
  · rw [if_pos many]
    have many' : 64 ≤ s.ctl.tx.length := many
    obtain ⟨less, grows, stays⟩ := tick_slow s.ctl (by omega)
    refine ⟨full.transmitted, full.received, ?_⟩
    show (s.ctl.tick slow).tx.length = min q 63 ∧
      r + (s.ctl.tick slow).rx.length + (s.ctl.tick slow).tx.length ≤ q ∧
      (s.ctl.tick slow).rx.length ≤ 64 ∧ (64 ≤ q → 0 < (s.ctl.tick slow).rx.length)
    by_cases free : s.ctl.rx.length < 64
    · have grown := grows free
      omega
    · have same := stays free
      omega
  · rw [if_neg many]
    have few : s.ctl.tx.length < 64 := Nat.not_le.mp many
    refine ⟨full.transmitted, full.received, ?_⟩
    show s.ctl.tx.length = min q 63 ∧ r + s.ctl.rx.length + s.ctl.tx.length ≤ q ∧
      s.ctl.rx.length ≤ 64 ∧ (64 ≤ q → 0 < s.ctl.rx.length)
    omega

theorem Full.checkRx (full : Full len q r s) : ∃ r', Full len q r' (checkRx slow len s) := by
  unfold Ecspi.checkRx
  by_cases many : RX_WATERMARK < (elapse slow s).ctl.rx.length
  · obtain ⟨received, less, tx, transmitted⟩ :=
      readWords_slow (s := elapse slow s) full.received RX_WATERMARK
    have mark : RX_WATERMARK = 32 := rfl
    have taken := full.taken
    have room := full.room
    have many' : RX_WATERMARK < s.ctl.rx.length := many
    have less' : (readWords slow len RX_WATERMARK (elapse slow s)).ctl.rx.length =
        s.ctl.rx.length - RX_WATERMARK := less
    have same : (readWords slow len RX_WATERMARK (elapse slow s)).ctl.tx.length =
        s.ctl.tx.length := congrArg List.length tx
    rw [if_pos many]
    exact ⟨r + RX_WATERMARK, transmitted.trans full.transmitted, received, same.trans full.tx,
      by omega, by omega, fun _ => by omega⟩
  · rw [if_neg many]
    exact ⟨r, full.transmitted, full.received, full.tx, full.taken, full.room, full.some_⟩

theorem Full.queueWords (full : Full len q r s) (pos : 1 ≤ len) (inside : q ≤ words len)
    (later : q = 0 → len % 4 = 0) {fuel : Nat} (enough : words len - q < fuel) :
    ∃ t r', queueWords slow len fuel s = some t ∧ Full len (words len) r' t := by
  induction fuel generalizing q r s with
  | zero => omega
  | succ fuel ih =>
    unfold Ecspi.queueWords
    by_cases more : q < words len
    · have going : s.transmittedLength < len := by
        rw [full.transmitted]
        exact (start_lt_iff pos q).mpr more
      obtain ⟨transmitted, received, tx, taken, room, some_⟩ := full.waitRoom
      have four : width len q = 4 := if_neg fun both => both.2 (later both.1)
      have written : Full len (q + 1) r (writeTx slow
          (wordAt (Ecspi.waitRoom slow s).data (Ecspi.waitRoom slow s).transmittedLength) 4
          (Ecspi.waitRoom slow s)) := by
        refine ⟨?_, received, ?_, ?_, room, fun above => some_ (by omega)⟩
        · show (Ecspi.waitRoom slow s).transmittedLength + 4 = start len q + width len q
          rw [transmitted, four]
        · show ((Ecspi.waitRoom slow s).ctl.tx ++ [_]).length = _
          rw [List.length_append, List.length_singleton]
          omega
        · show r + (Ecspi.waitRoom slow s).ctl.rx.length +
            ((Ecspi.waitRoom slow s).ctl.tx ++ [_]).length ≤ _
          rw [List.length_append, List.length_singleton]
          omega
      obtain ⟨r', checked⟩ := written.checkRx
      rw [if_pos going]
      exact ih checked more (fun zero => absurd zero (Nat.succ_ne_zero q)) (by omega)
    · have done : q = words len := Nat.le_antisymm inside (Nat.not_lt.mp more)
      have stopped : ¬s.transmittedLength < len := by
        rw [full.transmitted]
        exact mt (start_lt_iff pos q).mp more
      rw [if_neg stopped]
      rw [done] at full
      exact ⟨s, r, rfl, full⟩

theorem drain_slow (pos : 1 ≤ len) (received : s.receivedLength = start len r) {n : Nat}
    (short : r + n < words len) :
    (drain slow len n s).receivedLength = start len (r + n) ∧
      (drain slow len n s).transmittedLength = s.transmittedLength := by
  induction n generalizing r s with
  | zero => exact ⟨received, rfl⟩
  | succ n ih =>
    have going : s.receivedLength < len := by
      rw [received]
      exact (start_lt_iff pos r).mpr (by omega)
    obtain ⟨received', _, _, transmitted⟩ := readWord_slow received
    obtain ⟨received2, transmitted'⟩ := ih received' (by omega)
    unfold drain
    rw [if_pos going]
    rw [Nat.add_assoc, Nat.add_comm 1] at received2
    exact ⟨received2, transmitted'.trans transmitted⟩

theorem Full.conclude (full : Full len (words len) r s) (pos : 1 ≤ len) (long : 64 < words len) :
    (conclude slow len s).1 = -1 := by
  have tx := full.tx
  have taken := full.taken
  have some_ := full.some_ long
  have room : (waitTc slow s).ctl.rx.length ≤ 64 := ticks_slow s.ctl _ full.room
  have short : r + (waitTc slow s).ctl.rx.length < words len := by omega
  obtain ⟨received, transmitted⟩ := drain_slow (s := waitTc slow s) pos full.received short
  have missing := (start_lt_iff pos _).mpr short
  unfold Ecspi.conclude
  dsimp only
  rw [received, transmitted]
  refine if_pos fun same => ?_
  have whole : (waitTc slow s).transmittedLength = len :=
    full.transmitted.trans (start_words pos)
  omega

end Slow

theorem writeFirst_full (vals : RegVals) (len : Nat) (conreg : Reg) (rx : List Reg)
    (data : Nat → Byte) :
    ∃ q, Full len q 0 (writeFirst slow len (begin_ vals len (idle conreg rx data))) ∧
      (q = 0 → len % 4 = 0) ∧ q ≤ 1 := by
  unfold writeFirst
  by_cases even : len % 4 = 0
  · have none_ := firstWord_even data even
    rw [show firstWord (begin_ vals len (idle conreg rx data)).data len = none from none_]
    exact ⟨0, ⟨rfl, rfl, rfl, Nat.le_refl 0, Nat.zero_le _, fun above => absurd above (by decide)⟩,
      fun _ => even, Nat.zero_le 1⟩
  · obtain ⟨w, word, _⟩ := byteAt_firstWord data (Nat.pos_of_ne_zero even)
    have narrow : width len 0 = len % 4 := if_pos ⟨rfl, even⟩
    rw [show firstWord (begin_ vals len (idle conreg rx data)).data len = _ from word]
    refine ⟨1, ⟨?_, rfl, rfl, Nat.le_refl 1, Nat.zero_le _, fun above => absurd above (by decide)⟩,
      fun zero => absurd zero (by decide), Nat.le_refl 1⟩
    show 0 + len % 4 = 0 + width len 0
    rw [narrow]

theorem wrong_of_long (vals : RegVals) {len : Nat} (long : 256 < len) (most : len ≤ 512)
    (conreg : Reg) (rx : List Reg) (data : Nat → Byte) :
    ¬Right vals slow len (idle conreg rx data) := by
  have pos : 1 ≤ len := by omega
  have many : 64 < words len := by
    unfold words
    omega
  obtain ⟨q, first, later, few⟩ := writeFirst_full vals len conreg rx data
  have enough : words len - q < len := by
    unfold words
    omega
  obtain ⟨t, r, ran, queued⟩ := first.queueWords pos (by omega) later enough
  have fails := queued.conclude pos many
  rintro ⟨u, ends, _⟩
  unfold spiXfer at ends
  rw [if_neg (by omega), ran, Option.map_some] at ends
  rw [Option.some.inj ends] at fails
  exact absurd (show (0 : Int) = -1 from fails) (by decide)

theorem transfers_iff {len : Nat} (pos : 1 ≤ len) (most : len ≤ 512) :
    (∀ vals b conreg rx data, Right vals b len (idle conreg rx data)) ↔ len ≤ 256 := by
  constructor
  · intro right
    by_contra long
    exact wrong_of_long ⟨0, 0⟩ (Nat.not_le.mp long) most 0 [] (fun _ => 0) (right _ slow _ _ _)
  · intro short vals b conreg rx data
    exact right_of_short vals b pos short conreg rx data

/-- The dividers are right exactly for the rates that the slowest one does not exceed, and a
transfer is right at any pace of the clock, for any data, exactly if its words fit a FIFO. -/
theorem spi_iff (moduleClock : Reg) (dev : SpiDev) {len : Nat} (pos : 1 ≤ len) (most : len ≤ 512) :
    (Selects moduleClock.toNat dev.clockRate.toNat (spiInit moduleClock dev).conreg ↔
        moduleClock.toNat / 2 ^ 19 ≤ dev.clockRate.toNat) ∧
      ((∀ vals b conreg rx data, Right vals b len (idle conreg rx data)) ↔ len ≤ 256) :=
  ⟨selects_iff moduleClock dev, transfers_iff pos most⟩

/-- A rate of 20 MHz from 60 MHz, and a transfer of 256 bytes -/
theorem spi_small :
    Selects 60000000 20000000 (spiInit 60000000 ⟨0, 20000000⟩).conreg ∧
      ∀ vals b conreg rx data, Right vals b 256 (idle conreg rx data) :=
  have both := @spi_iff 60000000 ⟨0, 20000000⟩ 256 (by decide) (by decide)
  ⟨both.1.mpr (by decide), both.2.mpr (by decide)⟩

/-- A rate of 100 Hz from 60 MHz gets the fastest clock, and a transfer of 257 bytes fails at the
slow pace. -/
theorem spi_broken :
    ¬Selects 60000000 100 (spiInit 60000000 ⟨0, 100⟩).conreg ∧
      ¬Right ⟨0, 0⟩ slow 257 (idle 0 [] fun _ => 0) :=
  ⟨fun selects => absurd ((selects_iff 60000000 ⟨0, 100⟩).mp selects) (by decide),
    wrong_of_long ⟨0, 0⟩ (by decide) (by decide) 0 [] _⟩

end Mx6xBsp.Startup.Ecspi
