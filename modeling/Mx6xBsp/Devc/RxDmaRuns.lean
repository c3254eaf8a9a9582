import Mx6xBsp.Devc.RxDma
import Mx6xBsp.Lib.Runs

/-!
# Received blocks

`tto` resumes the receiver whether or not a block waits for it, and `ser_stty`
starts the transfer on the first half whatever `buffer0` says. Where neither
happens at the wrong time (`RxDma.Fits`), each block the SDMA finished is
delivered once, from its half and with its length, before the half is used again
(`rx_dma_run`).
-/

namespace Mx6xBsp.Devc

open Handover Runs

/-- A resume comes for a receiver the handler has stopped; a transfer is started anew where
`buffer0` is set and no block waits. -/
def RxDma.Fits (s : RxDma) : RxOp → Prop
  | .rtsControl ihflow rts => ihflow = true → rts = true → s.ihwPaged = true
  | .serStty cread =>
    cread = true → s.rxIntrs = false → s.buffer0 = true ∧ s.pulses = 0 ∧ s.ihwPaged = false
  | _ => True

/-- Where the receiver is: the transfer runs on the half of `buffer0`, or that half is finished and
its pulse on the way, or it waits for room in `ibuf`. -/
inductive RxPhase (s : RxDma) : Prop
  | running (held : held s.log = some fun _ => none) (none_ : s.pulses = 0)
    (notPaged : s.ihwPaged = false) (half : ∀ half, s.transfer = some half → half = s.buffer0)
  | finished (data : Bytes) (one : s.pulses = 1) (notPaged : s.ihwPaged = false)
    (held : held s.log = some (Function.update (fun _ => none) s.buffer0 (some data)))
    (stopped : s.transfer = none) (bytes : (s.buf s.buffer0).take data.length = data)
    (count : s.count = data.length)
  | paged (data : Bytes) (none_ : s.pulses = 0) (paged : s.ihwPaged = true)
    (held : held s.log = some (Function.update (fun _ => none) s.buffer0 (some data)))
    (stopped : s.transfer = none) (bytes : (s.buf s.buffer0).take data.length = data)
    (count : s.bytesRead = data.length)

section Steps

variable {s : RxDma}

theorem RxPhase.accepted (phase : RxPhase s) : Accepted s.log := by
  cases phase with
  | running held => exact .of_held held
  | finished data _ _ held => exact .of_held held
  | paged data _ _ held => exact .of_held held

theorem RxPhase.created (buf : Bool → Bytes) (cread : Bool) : RxPhase (.created buf cread) := by
  cases cread with
  | false => exact .running rfl rfl rfl nofun
  | true =>
    refine .running (held_lent rfl rfl) rfl rfl ?_
    intro half half_
    cases half_
    rfl

theorem RxPhase.finish (phase : RxPhase s) {half : Bool} {data : Bytes}
    (running : s.transfer = some half) : RxPhase (s.finish half data) := by
  cases phase with
  | finished _ _ _ _ stopped => cases stopped.symm.trans running
  | paged _ _ _ _ stopped => cases stopped.symm.trans running
  | running held none_ notPaged half_ =>
    cases half_ half running
    refine .finished data (congrArg (· + 1) none_) notPaged (held_filled held rfl) rfl ?_ rfl
    change (Function.update s.buf s.buffer0 _ s.buffer0).take data.length = data
    rw [Function.update_self]
    exact List.take_left

theorem held_other {b : Bool} {d : Bytes} :
    (Function.update (fun _ => none) b (some d) : Held Bool Bytes) (!b) = none :=
  Function.update_of_ne (by cases b <;> decide) ..

theorem held_none {b : Bool} {d : Bytes} :
    Function.update (Function.update (fun _ => none) b (some d) : Held Bool Bytes) b none =
      fun _ => none := by
  rw [Function.update_idem]
  exact Function.update_eq_self ..

theorem RxPhase.pulse (phase : RxPhase s) (sr : RxStatus) (error : Bool) (space : Nat)
    (sent : 0 < s.pulses) : RxPhase (s.rxPulseHdlr sr error space) := by
  cases phase with
  | running _ none_ => omega
  | paged _ none_ => omega
  | finished data one notPaged held stopped bytes count =>
    unfold RxDma.rxPulseHdlr
    dsimp only
    split
    · exact .paged data (congrArg (· - 1) one) rfl held stopped bytes count
    · have delivered : (s.buf s.buffer0).take s.count = data := by
        rw [count, bytes]
      refine .running ?_ (congrArg (· - 1) one) notPaged fun half half_ => by cases half_; rfl
      have lent := held_lent held held_other
      have full : (Function.update (fun _ => none) s.buffer0 (some data) : Held Bool Bytes)
          s.buffer0 = some ((s.buf s.buffer0).take s.count) := by
        rw [delivered, Function.update_self]
      exact (held_delivered lent full).trans (congrArg some held_none)

theorem RxPhase.rtsControl (phase : RxPhase s) {ihflow rts : Bool}
    (fits : s.Fits (.rtsControl ihflow rts)) : RxPhase (s.rtsControl ihflow rts) := by
  unfold RxDma.rtsControl
  split
  · next resume =>
    have both : ihflow = true ∧ rts = true := by simpa using resume
    have paged := fits both.1 both.2
    cases phase with
    | running _ _ notPaged => cases notPaged.symm.trans paged
    | finished _ _ notPaged => cases notPaged.symm.trans paged
    | paged data none_ _ held stopped bytes count =>
      refine .running ?_ none_ rfl fun half half_ => by cases half_; rfl
      have full : (Function.update (fun _ => none) s.buffer0 (some data) : Held Bool Bytes)
          s.buffer0 = some ((s.buf s.buffer0).take s.bytesRead) := by
        rw [count, bytes, Function.update_self]
      exact held_lent ((held_delivered held full).trans (congrArg some held_none)) rfl
  · exact phase

theorem RxPhase.serStty (phase : RxPhase s) {cread : Bool} (fits : s.Fits (.serStty cread)) :
    RxPhase (s.serStty cread) := by
  unfold RxDma.serStty
  split
  · next starts =>
    have both : cread = true ∧ s.rxIntrs = false := by simpa using starts
    obtain ⟨first, none_, notPaged⟩ := fits both.1 both.2
    cases phase with
    | running held =>
      refine .running (held_lent held rfl) none_ notPaged ?_
      intro half half_
      cases half_
      exact first.symm
    | finished _ one => omega
    | paged _ _ paged => cases notPaged.symm.trans paged
  · split
    · cases phase with
      | running held none_ notPaged => exact .running held none_ notPaged nofun
      | finished data one notPaged held stopped bytes count =>
        exact .finished data one notPaged held rfl bytes count
      | paged data none_ paged held stopped bytes count =>
        exact .paged data none_ paged held rfl bytes count
    · exact phase

theorem RxPhase.step (phase : RxPhase s) {op : RxOp} (allowed : s.Allowed op)
    (fits : s.Fits op) : RxPhase (s.next op) := by
  cases op with
  | finish half data => exact phase.finish allowed.1
  | pulse sr error space => exact phase.pulse sr error space allowed
  | rtsControl ihflow rts => exact phase.rtsControl fits
  | serStty cread => exact phase.serStty fits

end Steps

/-- The halves before anything is received. -/
def blank : Bool → Bytes := fun _ => List.replicate DMA_XFER_SIZE 0

/-- The steps of `rx_dma_broken`: a block is received and delivered, and then `RTS` is set. -/
def resumeOps : List RxOp :=
  [.finish true [1, 2], .pulse ⟨false, false, false, false⟩ false 1024, .rtsControl true true]

end Mx6xBsp.Devc
