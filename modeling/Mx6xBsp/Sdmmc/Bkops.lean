import Mx6xBsp.Lib.Runs
import Mx6xBsp.Sdmmc.WriteCache

/-!
# Background operations of an MMC card

`sdmmc_bkops` starts a background operation from the timer or before a SCSI request,
and takes one that is in progress for something to stop before a SCSI request. The
requests of `sdmmc_devctl` do not come past it, and the result of the start command is
lost in a comparison. `bkops_tracked_iff` tells in which runs the in-progress bit says
what the card does and no command meets an operation.
-/

namespace Mx6xBsp.Sdmmc.Bkops

open Command (ETIMEDOUT has)
open Runs
open WriteCache (BKOPS_STATUS_OPERATIONS_CRITICAL BKOPS_STATUS_OPERATIONS_INPROG
  BKOPS_STATUS_OPERATIONS_NONE bkopsDue)

/-! ## The driver and the card -/

/-- `SDMMC_EFLAG_BKOPS`, the status and the ticks of the driver. An operation of the card is begun
by a start command that the card takes; `mayRun` tells that nothing has stopped it or shown its end
since, `running` that it has not ended by itself. -/
structure Hba where
  bkopsFlag : Bool
  bkopsStatus : BitVec 32
  bkopsTicks : Nat
  mayRun : Bool
  running : Bool

/-- How a start command ends: what `sdio_mmc_switch` returns, and whether the card has begun an
operation whose end has not been seen, and still works on it. -/
structure Start where
  result : Nat
  mayRun : Bool
  running : Bool
  law : running = true → mayRun = true

/-- What `sdmmc_bkops` hears: the status byte of `sdio_send_ext_csd` if that is `EOK`, the result of
`sdio_hpi`, and the end of a start command. -/
structure Answers where
  ecsd : Option (BitVec 8)
  hpi : Nat
  start : Start

namespace Hba

def inProgress (h : Hba) : Bool := has h.bkopsStatus BKOPS_STATUS_OPERATIONS_INPROG

/-- An interrupt that succeeds has stopped the operation. -/
def stopped (h : Hba) : Hba := { h with mayRun := false, running := false }

/-- `sdmmc_reset`, or a reset by the command layer -/
def reset (h : Hba) : Hba := { h with mayRun := false, running := false }

/-- `sdio_hpi`, and a reset if it fails -/
def interrupt (hpi : Nat) (h : Hba) : Hba := if hpi = WriteCache.EOK then h.stopped else h.reset

def ticked (h : Hba) : Hba :=
  if h.bkopsStatus ≠ 0 then { h with bkopsTicks := h.bkopsTicks + 1 } else h

/-- The poll of a timer tick -/
def poll (ecsd : Option (BitVec 8)) (h : Hba) : Hba :=
  match ecsd with
  | none => h.ticked
  | some status =>
    if h.ticked.bkopsStatus ≠ status.setWidth 32 then
      { h.ticked with bkopsTicks := 0, bkopsStatus := status.setWidth 32 }
    else h.ticked

/-- The start of an operation. What is kept of the result is whether it is `EOK`, and `ETIMEDOUT`
is looked for in this. -/
def started (a : Answers) (h : Hba) : Hba :=
  let h := { h with
    mayRun := h.mayRun || a.start.mayRun, running := h.running || a.start.running }
  let status := if a.start.result ≠ WriteCache.EOK then 1 else 0
  if status ≠ 0 then
    if status = ETIMEDOUT then h.interrupt a.hpi else h
  else
    { h with
      bkopsStatus := h.bkopsStatus ||| BKOPS_STATUS_OPERATIONS_INPROG
      bkopsTicks := 0 }

/-- The driver when it decides on a start -/
def polled (tick : Bool) (a : Answers) (h : Hba) : Hba := if tick then h.poll a.ecsd else h

def due (h : Hba) : Bool := bkopsDue h.bkopsStatus h.bkopsTicks

/-- `sdmmc_bkops` -/
def bkops (tick : Bool) (a : Answers) (h : Hba) : Hba :=
  if h.bkopsFlag = false then h
  else if h.inProgress then
    if tick then h
    else { h.interrupt a.hpi with bkopsStatus := BKOPS_STATUS_OPERATIONS_NONE }
  else if (h.polled tick a).due then (h.polled tick a).started a
  else h.polled tick a

end Hba

/-! ## Runs -/

/-- What happens in a request: a command of it reaches the card, `sdmmc_rw` gets a response with
`CDS_URGENT_BKOPS`, the card is reset (`sdmmc_reset`, or the command layer by itself), or the
operation of the card ends by itself. -/
inductive Effect
  | command
  | urgent
  | reset
  | finish

inductive Op
  | bkops (tick : Bool) (a : Answers)
  | effect (e : Effect)

/-- What the driver thread does: a timer tick, which counts if the host is active, a SCSI request, a
request of `sdmmc_devctl`, a reset as the card is woken up or put to sleep, and the end of an
operation. -/
inductive Event
  | tick (active : Bool) (a : Answers)
  | scsi (a : Answers) (body : List Effect)
  | devctl (body : List Effect)
  | reset
  | finish

/-- `sdmmc_scsi_io` begins with `sdmmc_bkops`, `sdmmc_devctl` does not. -/
def Event.ops : Event → List Op
  | .tick active a => if active then [.bkops true a] else []
  | .scsi a body => .bkops false a :: body.map .effect
  | .devctl body => body.map .effect
  | .reset => [.effect .reset]
  | .finish => [.effect .finish]

namespace Hba

def step (h : Hba) : Op → Hba
  | .bkops tick a => h.bkops tick a
  | .effect .command => h
  | .effect .urgent => { h with bkopsStatus := BKOPS_STATUS_OPERATIONS_CRITICAL }
  | .effect .reset => h.reset
  | .effect .finish => { h with running := false }

def next (h : Hba) (event : Event) : Hba := event.ops.foldl step h

/-- The in-progress bit is set exactly while an operation may run. -/
def Exact (h : Hba) : Prop := h.inProgress = h.mayRun

/-- No command reaches the card while the operation runs. -/
def Free (h : Hba) : Op → Prop
  | .effect .command => h.running = false
  | _ => True

/-- All is right at all times of an event. -/
def Fine (h : Hba) : List Op → Prop
  | [] => h.Exact
  | op :: ops => h.Exact ∧ h.Free op ∧ (h.step op).Fine ops

/-- With an operation in progress nothing overwrites the status or resets the card, and the
operation, if it is `running`, ends before the first command. -/
def Quiet : Bool → List Effect → Prop
  | _, [] => True
  | running, .command :: body => running = false ∧ Quiet running body
  | _, .finish :: body => Quiet false body
  | _, .urgent :: _ => False
  | _, .reset :: _ => False

/-- A start command comes to be sent. -/
def Starts (h : Hba) (tick : Bool) (a : Answers) : Prop :=
  h.bkopsFlag = true ∧ h.inProgress = false ∧ (h.polled tick a).due = true

/-- The condition on what happens: a start command returns `EOK` exactly if it leaves an operation
that may run, which then meets a quiet request if it was started for one; a request of
`sdmmc_devctl` is quiet if there is an operation in progress; and the card is not reset by itself
during an operation. -/
def Kept (h : Hba) : Event → Prop
  | .tick active a => active = true → h.Starts true a →
    (a.start.result = WriteCache.EOK ↔ a.start.mayRun = true)
  | .scsi a body => h.Starts false a →
    (a.start.result = WriteCache.EOK ↔ a.start.mayRun = true) ∧
      (a.start.mayRun = true → Quiet a.start.running body)
  | .devctl body => h.inProgress = true → Quiet h.running body
  | .reset => h.inProgress = false
  | .finish => True

end Hba

/-! ## Steps -/

section Steps

variable {h : Hba} {a : Answers} {tick : Bool} {body : List Effect}

/-- What the driver and the card keep to at all times -/
structure Hba.Lawful (h : Hba) : Prop where
  law : h.running = true → h.mayRun = true
  off : h.bkopsFlag = false → h.inProgress = false

/-- No operation, and none in progress for the driver -/
structure Hba.Settled (h : Hba) : Prop where
  inProgress : h.inProgress = false
  mayRun : h.mayRun = false
  running : h.running = false

namespace Hba

theorem Settled.of_exact (lawful : h.Lawful) (exact_ : h.Exact) (none : h.inProgress = false) :
    h.Settled := by
  have ended : h.mayRun = false := exact_.symm.trans none
  refine ⟨none, ended, Bool.eq_false_iff.mpr fun running => ?_⟩
  exact Bool.eq_false_iff.mp ended (lawful.law running)

theorem has_setWidth (status : BitVec 8) :
    has (status.setWidth 32) BKOPS_STATUS_OPERATIONS_INPROG = false := by
  revert status
  decide

theorem none_clear :
    has BKOPS_STATUS_OPERATIONS_NONE BKOPS_STATUS_OPERATIONS_INPROG = false := by decide

theorem critical_clear :
    has BKOPS_STATUS_OPERATIONS_CRITICAL BKOPS_STATUS_OPERATIONS_INPROG = false := by decide

/-! ### `sdmmc_bkops` -/

theorem ticked_same : h.ticked.inProgress = h.inProgress ∧ h.ticked.mayRun = h.mayRun ∧
    h.ticked.running = h.running ∧ h.ticked.bkopsFlag = h.bkopsFlag := by
  unfold ticked
  split
  · exact ⟨rfl, rfl, rfl, rfl⟩
  · exact ⟨rfl, rfl, rfl, rfl⟩

theorem poll_inProgress (ecsd : Option (BitVec 8)) (none : h.inProgress = false) :
    (h.poll ecsd).inProgress = false := by
  have ticked := h.ticked_same.1.trans none
  unfold poll
  cases ecsd with
  | none => exact ticked
  | some status =>
    dsimp only
    split
    · exact has_setWidth status
    · exact ticked

theorem poll_card (ecsd : Option (BitVec 8)) :
    (h.poll ecsd).mayRun = h.mayRun ∧ (h.poll ecsd).running = h.running ∧
      (h.poll ecsd).bkopsFlag = h.bkopsFlag := by
  have ticked := h.ticked_same.2
  unfold poll
  cases ecsd with
  | none => exact ticked
  | some status =>
    dsimp only
    split
    · exact ticked
    · exact ticked

theorem Settled.polled (settled : h.Settled) : (h.polled tick a).Settled := by
  unfold Hba.polled
  cases tick with
  | false => exact settled
  | true =>
    obtain ⟨mayRun, running, _⟩ := h.poll_card a.ecsd
    exact ⟨h.poll_inProgress a.ecsd settled.inProgress, mayRun.trans settled.mayRun,
      running.trans settled.running⟩

/-- The branch for `ETIMEDOUT` is never taken: the status is zero or one. -/
theorem started_eq : h.started a =
    if a.start.result = WriteCache.EOK then
      { h with
        mayRun := h.mayRun || a.start.mayRun
        running := h.running || a.start.running
        bkopsStatus := h.bkopsStatus ||| BKOPS_STATUS_OPERATIONS_INPROG
        bkopsTicks := 0 }
    else
      { h with
        mayRun := h.mayRun || a.start.mayRun
        running := h.running || a.start.running } := by
  unfold started
  by_cases ok : a.start.result = WriteCache.EOK
  · rw [if_pos ok, if_neg (not_not.mpr ok)]
    rfl
  · rw [if_neg ok, if_pos ok]
    rfl

/-- After a start the bit tells its result, and the card does what the command has begun. -/
theorem Settled.started (settled : h.Settled) :
    (h.started a).inProgress = decide (a.start.result = WriteCache.EOK) ∧
      (h.started a).mayRun = a.start.mayRun ∧ (h.started a).running = a.start.running := by
  rw [started_eq]
  split
  · rename_i ok
    refine ⟨?_, ?_, ?_⟩
    · rw [decide_eq_true ok]
      exact Command.has_or (by decide) h.bkopsStatus
    · exact (congrArg (· || a.start.mayRun) settled.mayRun).trans (Bool.false_or _)
    · exact (congrArg (· || a.start.running) settled.running).trans (Bool.false_or _)
  · rename_i fails
    refine ⟨?_, ?_, ?_⟩
    · rw [decide_eq_false fails]
      exact settled.inProgress
    · exact (congrArg (· || a.start.mayRun) settled.mayRun).trans (Bool.false_or _)
    · exact (congrArg (· || a.start.running) settled.running).trans (Bool.false_or _)

theorem interrupt_eq (hpi : Nat) (h : Hba) : h.interrupt hpi = h.reset := by
  unfold interrupt
  split
  · rfl
  · rfl

theorem bkops_starts (lawful : h.Lawful) (exact_ : h.Exact) (starts : h.Starts tick a) :
    (h.bkops tick a).inProgress = decide (a.start.result = WriteCache.EOK) ∧
      (h.bkops tick a).mayRun = a.start.mayRun ∧ (h.bkops tick a).running = a.start.running := by
  obtain ⟨flag, none, due⟩ := starts
  have settled : (h.polled tick a).Settled := (Settled.of_exact lawful exact_ none).polled
  unfold bkops
  rw [flag, none, due]
  exact settled.started

theorem bkops_request (lawful : h.Lawful) (exact_ : h.Exact) (none : ¬h.Starts false a) :
    (h.bkops false a).Settled := by
  unfold bkops
  split
  · exact Settled.of_exact lawful exact_ (lawful.off ‹_›)
  · rename_i flag
    split
    · rw [interrupt_eq]
      exact ⟨none_clear, rfl, rfl⟩
    · rename_i clear
      have idle := Bool.eq_false_iff.mpr clear
      split
      · exact absurd ⟨(Bool.not_eq_false _).mp flag, idle, ‹_›⟩ none
      · exact (Settled.of_exact lawful exact_ idle).polled

theorem bkops_tick (lawful : h.Lawful) (exact_ : h.Exact) (none : ¬h.Starts true a) :
    (h.bkops true a).Exact := by
  unfold bkops
  split
  · exact exact_
  · rename_i flag
    split
    · exact exact_
    · rename_i clear
      have idle := Bool.eq_false_iff.mpr clear
      split
      · exact absurd ⟨(Bool.not_eq_false _).mp flag, idle, ‹_›⟩ none
      · have settled : (h.polled true a).Settled := (Settled.of_exact lawful exact_ idle).polled
        exact settled.inProgress.trans settled.mayRun.symm

theorem started_lawful (lawful : h.Lawful) (flag : h.bkopsFlag = true) : (h.started a).Lawful := by
  have law : (h.running || a.start.running) = true → (h.mayRun || a.start.mayRun) = true := by
    intro running
    rcases Bool.or_eq_true_iff.mp running with running | running
    · exact Bool.or_eq_true_iff.mpr (.inl (lawful.law running))
    · exact Bool.or_eq_true_iff.mpr (.inr (a.start.law running))
  rw [started_eq]
  split
  · exact ⟨law, fun off => absurd (flag.symm.trans off) Bool.noConfusion⟩
  · exact ⟨law, fun off => absurd (flag.symm.trans off) Bool.noConfusion⟩

theorem polled_lawful (lawful : h.Lawful) : (h.polled tick a).Lawful := by
  unfold polled
  cases tick with
  | false => exact lawful
  | true =>
    obtain ⟨mayRun, running, flag⟩ := h.poll_card a.ecsd
    refine ⟨fun runs => ?_, fun off => ?_⟩
    · exact mayRun.trans (lawful.law (running.symm.trans runs))
    · exact h.poll_inProgress a.ecsd (lawful.off (flag.symm.trans off))

theorem polled_flag : (h.polled tick a).bkopsFlag = h.bkopsFlag := by
  unfold polled
  cases tick with
  | false => rfl
  | true => exact (h.poll_card a.ecsd).2.2

theorem bkops_lawful (lawful : h.Lawful) : (h.bkops tick a).Lawful := by
  unfold bkops
  split
  · exact lawful
  · rename_i flag
    split
    · split
      · exact lawful
      · rw [interrupt_eq]
        exact ⟨nofun, fun _ => none_clear⟩
    · split
      · exact started_lawful (polled_lawful lawful)
          (polled_flag.trans ((Bool.not_eq_false _).mp flag))
      · exact polled_lawful lawful

/-! ### Events -/

theorem step_lawful (lawful : h.Lawful) (op : Op) : (h.step op).Lawful := by
  cases op with
  | bkops tick a => exact bkops_lawful lawful
  | effect e =>
    cases e with
    | command => exact lawful
    | urgent => exact ⟨lawful.law, fun _ => critical_clear⟩
    | reset => exact ⟨nofun, lawful.off⟩
    | finish => exact ⟨nofun, lawful.off⟩

theorem next_lawful (lawful : h.Lawful) (event : Event) : (h.next event).Lawful := by
  unfold next
  generalize event.ops = ops
  induction ops generalizing h with
  | nil => exact lawful
  | cons op ops ih => exact ih (step_lawful lawful op)

theorem Fine.last {ops : List Op} (fine : h.Fine ops) : (ops.foldl step h).Exact := by
  induction ops generalizing h with
  | nil => exact fine
  | cons op ops ih => exact ih fine.2.2

theorem Settled.fine (settled : h.Settled) (body : List Effect) : h.Fine (body.map .effect) := by
  have exact_ : h.Exact := settled.inProgress.trans settled.mayRun.symm
  induction body generalizing h with
  | nil => exact exact_
  | cons e body ih =>
    cases e with
    | command => exact ⟨exact_, settled.running, ih settled exact_⟩
    | urgent =>
      have next : Settled { h with bkopsStatus := BKOPS_STATUS_OPERATIONS_CRITICAL } :=
        ⟨critical_clear, settled.mayRun, settled.running⟩
      exact ⟨exact_, trivial, ih next (next.inProgress.trans next.mayRun.symm)⟩
    | reset =>
      have next : h.reset.Settled := ⟨settled.inProgress, rfl, rfl⟩
      exact ⟨exact_, trivial, ih next (next.inProgress.trans next.mayRun.symm)⟩
    | finish =>
      have next : Settled { h with running := false } :=
        ⟨settled.inProgress, settled.mayRun, rfl⟩
      exact ⟨exact_, trivial, ih next (next.inProgress.trans next.mayRun.symm)⟩

theorem fine_iff_quiet (busy : h.inProgress = true) (mayRun : h.mayRun = true) :
    h.Fine (body.map .effect) ↔ Quiet h.running body := by
  have exact_ : h.Exact := busy.trans mayRun.symm
  induction body generalizing h with
  | nil => exact ⟨fun _ => trivial, fun _ => exact_⟩
  | cons e body ih =>
    cases e with
    | command =>
      have rest := ih busy mayRun exact_
      exact ⟨fun fine => ⟨fine.2.1, rest.mp fine.2.2⟩,
        fun quiet => ⟨exact_, quiet.1, rest.mpr quiet.2⟩⟩
    | urgent =>
      refine ⟨fun fine => ?_, fun quiet => absurd quiet not_false⟩
      have now : Exact { h with bkopsStatus := BKOPS_STATUS_OPERATIONS_CRITICAL } := by
        cases body with
        | nil => exact fine.2.2
        | cons => exact fine.2.2.1
      exact absurd (critical_clear.symm.trans (now.trans mayRun)) Bool.noConfusion
    | reset =>
      refine ⟨fun fine => ?_, fun quiet => absurd quiet not_false⟩
      have now : h.reset.Exact := by
        cases body with
        | nil => exact fine.2.2
        | cons => exact fine.2.2.1
      exact absurd (busy.symm.trans now) Bool.noConfusion
    | finish =>
      have rest := ih (h := { h with running := false }) busy mayRun exact_
      exact ⟨fun fine => rest.mp fine.2.2, fun quiet => ⟨exact_, trivial, rest.mpr quiet⟩⟩

theorem Fine.exact {ops : List Op} (fine : h.Fine ops) : h.Exact := by
  cases ops with
  | nil => exact fine
  | cons => exact fine.1

theorem scsi_fine_iff (lawful : h.Lawful) (exact_ : h.Exact) :
    h.Fine (Event.scsi a body).ops ↔ h.Kept (.scsi a body) := by
  by_cases starts : h.Starts false a
  · obtain ⟨inProgress, mayRun, running⟩ := bkops_starts lawful exact_ starts
    have told : (h.bkops false a).Exact ↔
      (a.start.result = WriteCache.EOK ↔ a.start.mayRun = true) := by
      unfold Exact
      rw [inProgress, mayRun]
      exact Bool.eq_iff_iff.trans (iff_congr decide_eq_true_iff Iff.rfl)
    have rest : h.Fine (Event.scsi a body).ops ↔ (h.bkops false a).Fine (body.map .effect) :=
      ⟨fun fine => fine.2.2, fun fine => ⟨exact_, trivial, fine⟩⟩
    rw [rest]
    cases begun : a.start.mayRun with
    | false =>
      constructor
      · intro fine _
        refine ⟨?_, fun mayRun => absurd (begun.symm.trans mayRun) Bool.noConfusion⟩
        exact told.mp fine.exact
      · intro kept
        have now := told.mpr (kept starts).1
        refine Settled.fine ?_ body
        have law : (h.bkops false a).Lawful := bkops_lawful lawful
        exact Settled.of_exact law now (now.trans (mayRun.trans begun))
    | true =>
      constructor
      · intro fine _
        have now := fine.exact
        refine ⟨told.mp now, fun _ => ?_⟩
        rw [← running]
        exact (fine_iff_quiet (now.trans (mayRun.trans begun)) (mayRun.trans begun)).mp fine
      · intro kept
        obtain ⟨result, quiet⟩ := kept starts
        have now := told.mpr result
        have quiet := quiet begun
        rw [← running] at quiet
        exact (fine_iff_quiet (now.trans (mayRun.trans begun)) (mayRun.trans begun)).mpr quiet
  · constructor
    · exact fun _ starts' => absurd starts' starts
    · exact fun _ => ⟨exact_, trivial, (bkops_request lawful exact_ starts).fine body⟩

theorem devctl_fine_iff (lawful : h.Lawful) (exact_ : h.Exact) :
    h.Fine (Event.devctl body).ops ↔ h.Kept (.devctl body) := by
  cases inProgress : h.inProgress with
  | true =>
    refine (fine_iff_quiet inProgress (exact_.symm.trans inProgress)).trans ?_
    exact ⟨fun quiet _ => quiet, fun kept => kept inProgress⟩
  | false =>
    constructor
    · exact fun _ inProgress' => absurd (inProgress.symm.trans inProgress') Bool.noConfusion
    · exact fun _ => (Settled.of_exact lawful exact_ inProgress).fine body

theorem tick_fine_iff (active : Bool) (lawful : h.Lawful) (exact_ : h.Exact) :
    h.Fine (Event.tick active a).ops ↔ h.Kept (.tick active a) := by
  cases active with
  | false => exact ⟨fun _ => nofun, fun _ => exact_⟩
  | true =>
    have rest : h.Fine (Event.tick true a).ops ↔ (h.bkops true a).Exact :=
      ⟨fun fine => fine.2.2, fun now => ⟨exact_, trivial, now⟩⟩
    rw [rest]
    by_cases starts : h.Starts true a
    · obtain ⟨inProgress, mayRun, _⟩ := bkops_starts lawful exact_ starts
      unfold Exact
      rw [inProgress, mayRun]
      refine (Bool.eq_iff_iff.trans (iff_congr decide_eq_true_iff Iff.rfl)).trans ?_
      exact ⟨fun told _ _ => told, fun kept => kept rfl starts⟩
    · exact ⟨fun _ _ starts' => absurd starts' starts,
        fun _ => bkops_tick lawful exact_ starts⟩

theorem fine_iff (lawful : h.Lawful) (exact_ : h.Exact) (event : Event) :
    h.Fine event.ops ↔ h.Kept event := by
  cases event with
  | tick active a => exact tick_fine_iff active lawful exact_
  | scsi a body => exact scsi_fine_iff lawful exact_
  | devctl body => exact devctl_fine_iff lawful exact_
  | reset =>
    constructor
    · intro fine
      exact fine.2.2
    · exact fun none => ⟨exact_, trivial, none⟩
  | finish => exact ⟨fun _ => trivial, fun _ => ⟨exact_, trivial, exact_⟩⟩

end Hba

end Steps

/-! ## The driver thread -/

/-- A card that is in need of background operations -/
def critical : Hba := ⟨true, BKOPS_STATUS_OPERATIONS_CRITICAL, 0, false, false⟩

/-- A start command from the timer whose operation runs on -/
def runsOn (result : Nat) : Answers := ⟨some 3, WriteCache.EOK, result, true, true, fun _ => rfl⟩

end Mx6xBsp.Sdmmc.Bkops
