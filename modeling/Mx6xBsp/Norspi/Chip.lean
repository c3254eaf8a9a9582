import Mx6xBsp.Lib.Pages
import Mx6xBsp.Norspi.Framing

/-!
# The SPI NOR flash

The chip behind the ECSPI, as `variant.h` has it. A page program joins the bytes that are
sent with the ones in its page, by `&`, and goes on at the begin of the page where it comes to
the end; a read sends bytes in turn. A program has to be enabled, and goes on for some reads of
the status. A bus is wired to a chip if a burst brings it what is shifted out, and brings back
what it sends (`Wired`), so that a call which frames its command right is a transfer of the chip
(`Wired.sends`, `Wired.receives`).
-/

namespace Mx6xBsp.Norspi

open Bursts Fields Pages

def PAGE_SIZE : Nat := 256
def SECTOR_SIZE : Nat := 256
def TOTAL_SIZE : Nat := 64
def TOTAL_SIZE_BYTES : Nat := TOTAL_SIZE * SECTOR_SIZE * PAGE_SIZE
def CMD_WREN : Byte := 0x06
def CMD_RDSR : Byte := 0x05
def CMD_READ : Byte := 0x03
def CMD_PP : Byte := 0x02
def DEVICE_SR_WIP : Byte := 0x01
def DEVICE_SR_WEL : Byte := 0x02

/-- The state of a chip: its bytes, whether a program is enabled, and for how many reads of the
status the last one still goes on -/
structure Nor where
  mem : Nat → Byte
  wel : Bool
  wip : Nat

/-- How long a chip programs, and what it sends where it has nothing to send -/
structure Chip where
  delay : Nat → List Byte → Nat
  fill : Byte

def Nor.status (s : Nor) : Byte :=
  (if s.wip ≠ 0 then DEVICE_SR_WIP else 0) ||| if s.wel then DEVICE_SR_WEL else 0

/-- What a chip sends while it is sent some bytes, and its state afterwards. While a program goes on
it answers to a read of the status only. -/
def Chip.transfer (chip : Chip) : List Byte → Nor → List Byte × Nor
  | [], s => ([], s)
  | c :: rest, s =>
    if c = CMD_RDSR then
      (chip.fill :: List.replicate rest.length s.status, { s with wip := s.wip - 1 })
    else if s.wip ≠ 0 then (List.replicate (rest.length + 1) chip.fill, s)
    else if c = CMD_WREN then
      (List.replicate (rest.length + 1) chip.fill,
        if rest = [] then { s with wel := true } else s)
    else
      match rest with
      | a :: b :: d :: data =>
        let i := (a ++ b ++ d).toNat % TOTAL_SIZE_BYTES
        if c = CMD_READ then
          (List.replicate 4 chip.fill ++ (List.range data.length).map fun k =>
            s.mem ((i + k) % TOTAL_SIZE_BYTES), s)
        else if c = CMD_PP ∧ s.wel ∧ data ≠ [] then
          (List.replicate (data.length + 4) chip.fill,
            { mem := program (· &&& ·) PAGE_SIZE i data s.mem
              wel := false
              wip := chip.delay i data })
        else (List.replicate (data.length + 4) chip.fill, s)
      | _ => (List.replicate (rest.length + 1) chip.fill, s)

theorem Chip.length_transfer (chip : Chip) (out : List Byte) (s : Nor) :
    (chip.transfer out s).1.length = out.length := by
  match out with
  | [] => rfl
  | [c] | [c, _] | [c, _, _] =>
    simp only [Chip.transfer]
    split
    · rfl
    split
    · rfl
    split
    · rfl
    · rfl
  | c :: a :: b :: d :: data =>
    simp only [Chip.transfer]
    split
    · simp
    split
    · simp
    split
    · simp
    split
    · simp
    split
    · simp
    · simp

/-- A bus that brings the bytes of a burst to a chip, and back what it sends -/
structure Wired (chip : Chip) where
  bus : Bus Nor
  exchange : ∀ ctrl words out, burstLength ctrl = 8 * out.length →
    Burst (burstLength ctrl) words (wire out) → ∀ s, ∃ rx,
      bus.exchange ctrl words s = (some rx, (chip.transfer out s).2) ∧
        Burst (burstLength ctrl) rx (wire (chip.transfer out s).1)
  finish : ∀ ctrl s, bus.finish ctrl s = s

/-- Such a bus: the words of the RXFIFO are framed as those of the TXFIFO are. -/
def Chip.wired (chip : Chip) : Wired chip where
  bus :=
    { exchange := fun ctrl words s =>
        let back := chip.transfer (burstBytes 4 (burstLength ctrl / 8) words) s
        (some (frame 32 4 back.1), back.2)
      finish := fun _ s => s }
  exchange := by
    intro ctrl words out length burst s
    have some : out ≠ [] := by
      intro empty
      rw [empty] at length
      exact absurd length (Nat.succ_ne_zero _)
    have pos : 0 < out.length := List.length_pos_iff.mpr some
    rw [length] at burst
    have bytes : burstBytes 4 (burstLength ctrl / 8) words = out := by
      rw [length, Nat.mul_div_cancel_left _ (by decide)]
      exact bytes_of_burst pos burst
    have back := chip.length_transfer out s
    refine ⟨frame 32 4 (chip.transfer out s).1, ?_, ?_⟩
    · show (Option.some (frame 32 4 (chip.transfer _ s).1), (chip.transfer _ s).2) = _
      rw [bytes]
    rw [length, ← back]
    have framed (bytes : List Byte) : bytes ≠ [] →
        Burst (8 * bytes.length) (frame 32 4 bytes) (wire bytes) :=
      burst_frame (w := 32) (k := 4) rfl (by decide)
    apply framed
    intro empty
    rw [← back, empty] at pos
    exact Nat.lt_irrefl 0 pos
  finish := fun _ _ => rfl

variable {chip : Chip} (w : Wired chip)

theorem Wired.sends {call : {σ : Type} → Bus σ → σ → Except Fault (Int × σ)} {out : List Byte}
    (sends : Sends call out) (s : Nor) : call w.bus s = .ok (0, (chip.transfer out s).2) := by
  obtain ⟨ctrl, words, last, length, burst, left⟩ := sends
  obtain ⟨rx, exchanged, _⟩ := w.exchange ctrl words out length burst s
  have left := left w.bus s
  simp only [exchanged, w.finish] at left
  exact left

theorem Wired.receives {call : {σ : Type} → Bus σ → σ → Except Fault (Left σ)}
    {out buf : List Byte} {len : Nat} (receives : Receives call out buf len) (s : Nor) :
    call w.bus s = .ok ⟨0, (chip.transfer out s).2, [],
      (chip.transfer out s).1.drop 4 ++ buf.drop len⟩ := by
  obtain ⟨ctrl, words, last, length, burst, left⟩ := receives
  obtain ⟨rx, exchanged, back⟩ := w.exchange ctrl words out length burst s
  have left := left w.bus s
  simp only [exchanged, w.finish] at left
  exact left _ back

end Mx6xBsp.Norspi
