import Mx6xBsp.Flash.Words
import Mx6xBsp.Lib.Runs
import Mx6xBsp.Lib.Traces

/-!
# Suspending an erase

The suspend, resume and sync callouts of the AMD CFI set (`f3s_aCFI_v2suspend`,
`f3s_a29f040_v2resume` and `f3s_a29f040_v2sync`) and of the Spansion set
(`f3s_s29glxxxs_v2suspend` and its companions). Both keep one flag, `suspended`, for
all chips of a socket. `suspend_tracked_iff` tells for which chips the callouts may be
used while the flag is set or clear.
-/

namespace Mx6xBsp.Flash

open Runs Traces

/-! ## Devices -/

/-- A device is ready, erases, erases with a suspend command under way, or is suspended in the
middle of an erase. -/
inductive Phase
  | ready
  | erasing
  | suspending
  | suspended
  deriving DecidableEq

/-- The device erases, and `DQ6` toggles. -/
def Phase.busy : Phase → Bool
  | .erasing | .suspending => true
  | .ready | .suspended => false

/-- What a device becomes by itself -/
def Phase.later : Phase → Phase → Bool
  | .ready, .ready => true
  | .erasing, .erasing | .erasing, .ready => true
  | .suspending, .suspending | .suspending, .suspended | .suspending, .ready => true
  | .suspended, .suspended => true
  | _, _ => false

/-- `AMD_ERASE_SUSPEND`, `AMD_ERASE_RESUME` and the commands of an erase -/
inductive Cmd
  | suspend
  | resume
  | erase
  deriving DecidableEq

def Phase.command : Cmd → Phase → Phase
  | .suspend, .erasing => .suspending
  | .resume, .suspending | .resume, .suspended => .erasing
  | .erase, .ready => .erasing
  | _, phase => phase

/-- The devices of a chip, which share its offsets -/
abbrev Chip := Nat → Phase

def Chip.command (cmd : Cmd) (chip : Chip) : Chip := fun i => (chip i).command cmd

/-- A status word, and the phases of the devices as it is read -/
structure Reading where
  phase : Chip
  word : BitVec 64

section Devices

variable (cfg : Flashcfg)

/-- Time passes. -/
def Goes (chip chip' : Chip) : Prop := ∀ i < cfg.chipInter, (chip i).later (chip' i) = true

/-- Two status words read one after the other: `DQ6` of a busy device toggles, and `DQ2` of a device
that is suspended, if the address is in the suspended `sector`. -/
def Follows (sector : Bool) (first second : Reading) : Prop :=
  ∀ i < cfg.chipInter,
    ((second.phase i).busy = true → cfg.dq 6 first.word i ≠ cfg.dq 6 second.word i) ∧
      (sector = true → first.phase i = .suspended → second.phase i = .suspended →
        cfg.dq 2 first.word i ≠ cfg.dq 2 second.word i)

/-- Readings of a chip, from its phases before -/
def Chain (sector : Bool) : Chip → List Reading → Prop
  | _, [] => True
  | chip, r :: rest =>
    Goes cfg chip r.phase ∧ (∀ r' ∈ rest.head?, Follows cfg sector r r') ∧
      Chain sector r.phase rest

/-- The phases after some readings -/
def lastPhase : Chip → List Reading → Chip
  | chip, [] => chip
  | _, r :: rest => lastPhase r.phase rest

end Devices

/-! ## The callouts -/

/-- The readings to come -/
abbrev Polling := StateT (List Reading) Option

def readmem : Polling (BitVec 64) := fun readings =>
  match readings with
  | r :: rest => some (r.word, rest)
  | [] => none

/-- The status of a callout, the flag `suspended`, and whether the resume command is sent at the
end -/
structure Result where
  status : Nat
  suspended : Bool
  resumes : Bool

section Callouts

variable (cfg : Flashcfg)

/-- How the loop of `f3s_aCFI_v2suspend` ends -/
inductive Polled
  | stopped
  | failed
  | timeout
  deriving DecidableEq

def pollDq6 : Nat → Polling Polled
  | 0 => return .timeout
  | loops + 1 => do
    let status0 ← readmem
    let status1 ← readmem
    let toggle := (status0 ^^^ status1) &&& cfg.mask 6
    if toggle = 0 then return .stopped
    else if status0 &&& (toggle >>> 1) ≠ 0 then return .failed
    else pollDq6 loops

/-- `f3s_aCFI_v2suspend` with the flag clear, after its command -/
def aCFIv2suspend (loops : Nat) : Polling Result := do
  let polled ← pollDq6 cfg loops
  match polled with
  | .stopped => return ⟨EOK, true, false⟩
  | .failed => return ⟨ECANCELED, false, false⟩
  | .timeout => return ⟨ EIO, false, true⟩

/-- The end of `f3s_a29f040_v2sync`, when `DQ6` does not toggle. The flag is clear by then, so that
`DATA#` polling looks for a zero. -/
def syncDone (status0 status1 : BitVec 64) : Polling Result := do
  let status ← readmem
  if status &&& cfg.mask 7 = 0 then return ⟨EAGAIN, false, false⟩
  else if (status0 ^^^ status1) &&& cfg.mask 2 ≠ 0 then return ⟨EAGAIN, false, true⟩
  else return ⟨EOK, false, false⟩

/-- `f3s_a29f040_v2sync` after the resume command it may begin with -/
def a29f040v2sync : Polling Result := do
  let status0 ← readmem
  let status1 ← readmem
  let toggle := (status0 ^^^ status1) &&& cfg.mask 6
  if toggle ≠ 0 then
    let mask := (status0 &&& (toggle >>> 1)) <<< 1
    if mask = toggle then
      let status2 ← readmem
      if (status1 ^^^ status2) &&& mask ≠ 0 then return ⟨ EIO, false, false⟩
      else if (status1 ^^^ status2) &&& cfg.mask 6 ≠ 0 then return ⟨EAGAIN, false, false⟩
      else syncDone cfg status1 status2
    else return ⟨EAGAIN, false, false⟩
  else syncDone cfg status0 status1

/-- `f3s_s29glxxxs_v2sync` after the resume command it may begin with: the status register is read,
and the flag is as it is by then. -/
def s29glxxxsv2sync (suspended : Bool) : Polling Result := do
  let status ← readmem
  let rdymask := 0x80 * cfg.deviceMult
  let errmask := 0x30 * cfg.deviceMult
  if status &&& rdymask = rdymask then
    if status &&& errmask ≠ 0 then return ⟨ EIO, suspended, false⟩
    else return ⟨EOK, suspended, false⟩
  else return ⟨EAGAIN, suspended, false⟩

end Callouts

/-! ## The socket -/

/-- The AMD CFI callouts and the Spansion ones -/
inductive Callouts
  | aCFI
  | s29glxxxs
  deriving DecidableEq

/-- The flag, and the chips of a socket -/
structure Socket where
  suspended : Bool
  chips : Nat → Chip

def Socket.setChip (s : Socket) (c : Nat) (chip : Chip) : Socket :=
  { s with chips := fun d => if d = c then chip else s.chips d }

/-- What happens to the flash of a socket: time passes for a chip, an erase is begun, and the
callouts for an offset in a chip. For a sync, `forWrite` tells what is synchronised and `sector`
whether the offset is in a suspended sector. -/
inductive Event
  | goes (c : Nat)
  | erase (c : Nat)
  | suspend (c : Nat)
  | resume (c : Nat)
  | sync (c : Nat) (forWrite sector : Bool)

/-- A sync begins with the resume command. The Spansion one does not for a write. -/
def Socket.resumes (s : Socket) (set : Callouts) (forWrite : Bool) : Bool :=
  s.suspended && (set == .aCFI || !forWrite)

section Steps

variable (cfg : Flashcfg) (set : Callouts) (loops : Nat)

/-- The socket and the status after some readings of a chip, which are all that the callout makes -/
inductive Ran (m : Polling Result) (s : Socket) (c : Nat) (chip : Chip) (readings : List Reading) :
    Nat → Socket → Prop
  | intro {result : Result} (all : m readings = some (result, [])) :
    Ran m s c chip readings result.status
      { s.setChip c (if result.resumes then (lastPhase chip readings).command .resume
          else lastPhase chip readings) with suspended := result.suspended }

/-- What an event does, with the status of a callout -/
inductive Step (s : Socket) : Event → Nat → Socket → Prop
  | goes {c : Nat} {chip : Chip} (goes : Goes cfg (s.chips c) chip) :
    Step s (.goes c) EOK (s.setChip c chip)
  | erase {c : Nat} : Step s (.erase c) EOK (s.setChip c ((s.chips c).command .erase))
  | noPage {c : Nat} (errno : Errno) (clear : s.suspended = false) :
    Step s (.suspend c) errno s
  /-- Do nothing if erase has been suspended -/
  | already {c : Nat} (flag : s.suspended = true) : Step s (.suspend c) EOK s
  | aCFIv2suspend {t : Socket} {c status : Nat} {readings : List Reading} (aCFI : set = .aCFI)
    (clear : s.suspended = false)
    (chain : Chain cfg true ((s.chips c).command .suspend) readings)
    (ran : Ran (aCFIv2suspend cfg loops) s c ((s.chips c).command .suspend) readings status t) :
    Step s (.suspend c) status t
  /-- Maximum suspend time 50 us: no device erases at the end of it. -/
  | s29glxxxsv2suspend {c : Nat} {settled : Chip} (s29 : set = .s29glxxxs)
    (clear : s.suspended = false) (goes : Goes cfg ((s.chips c).command .suspend) settled)
    (inTime : ∀ i < cfg.chipInter, (settled i).busy = false) :
    Step s (.suspend c) EOK { s.setChip c settled with suspended := true }
  | resume {c : Nat} : Step s (.resume c) EOK s
  | syncNoPage {c : Nat} {forWrite sector : Bool} (errno : Errno) :
    Step s (.sync c forWrite sector) errno s
  | a29f040v2sync {t : Socket} {c status : Nat} {forWrite sector : Bool} {chip : Chip}
    {readings : List Reading} (aCFI : set = .aCFI)
    (start : chip = if s.resumes set forWrite then (s.chips c).command .resume else s.chips c)
    (chain : Chain cfg sector chip readings)
    (ran : Ran (a29f040v2sync cfg) s c chip readings status t) :
    Step s (.sync c forWrite sector) status t
  /-- The status register shows a device ready that is not busy. -/
  | s29glxxxsv2sync {t : Socket} {c status : Nat} {forWrite sector : Bool} {chip : Chip}
    {readings : List Reading} (s29 : set = .s29glxxxs)
    (start : chip = if s.resumes set forWrite then (s.chips c).command .resume else s.chips c)
    (chain : Chain cfg sector chip readings)
    (shows : ∀ r ∈ readings, ∀ i < cfg.chipInter, cfg.dq 7 r.word i = !(r.phase i).busy)
    (ran : Ran (s29glxxxsv2sync cfg (s.suspended && !s.resumes set forWrite)) s c chip
      readings status t) :
    Step s (.sync c forWrite sector) status t

/-- The events with any status -/
def Happens (s : Socket) (event : Event) (t : Socket) : Prop :=
  ∃ status, Step cfg set loops s event status t

/-- What is promised of the status `EOK`: after a suspend the chip does not erase, and after a sync
of an erase no device of the chip is still suspended. -/
def Event.Tracked (status : Nat) (t : Socket) : Event → Prop
  | .suspend c => status = EOK → ∀ i < cfg.chipInter, (t.chips c i).busy = false
  | .sync c false _ => status = EOK → ∀ i < cfg.chipInter, t.chips c i ≠ .suspended
  | _ => True

/-- The use of the callouts that tracks the chips: with the flag set a suspend names a chip that
does not erase, and with the flag clear a sync of an erase names a chip with no device suspended or
about to be. The AMD one may name an offset in a sector that a device of the chip has suspended. -/
def Socket.Kept (s : Socket) : Event → Prop
  | .suspend c => s.suspended = true → ∀ i < cfg.chipInter, (s.chips c i).busy = false
  | .sync c false sector => s.suspended = false →
    (∃ i < cfg.chipInter, s.chips c i = .suspended ∨ s.chips c i = .suspending) →
      set = .aCFI ∧ sector = true ∧ ∃ i < cfg.chipInter, s.chips c i = .suspended
  | _ => True

end Steps

/-! ## What the callouts have seen -/

section Readings

variable {cfg : Flashcfg} {sector : Bool}

theorem Phase.later_refl (phase : Phase) : phase.later phase = true := by
  cases phase <;> rfl

theorem Phase.later_trans {first second third : Phase} (one : first.later second = true)
    (two : second.later third = true) : first.later third = true := by
  cases first <;> cases second <;> cases third <;> simp_all [Phase.later]

theorem Phase.suspended_before {first : Phase} (later : first.later .suspended = true) :
    first = .suspended ∨ first = .suspending := by
  cases first with
  | ready | erasing => cases later
  | suspending => exact .inr rfl
  | suspended => exact .inl rfl

theorem Phase.stays_suspended {second : Phase} (later : Phase.suspended.later second = true) :
    second = .suspended := by
  cases second with
  | ready | erasing | suspending => cases later
  | suspended => rfl

theorem Phase.resumed (phase : Phase) : phase.command .resume ≠ .suspended ∧
    phase.command .resume ≠ .suspending := by
  cases phase <;> exact ⟨nofun, nofun⟩

theorem Goes.refl (chip : Chip) : Goes cfg chip chip := fun i _ => (chip i).later_refl

theorem Goes.trans {first second third : Chip} (one : Goes cfg first second)
    (two : Goes cfg second third) : Goes cfg first third :=
  fun i inside => Phase.later_trans (one i inside) (two i inside)

theorem Chain.later {chip : Chip} {before rest : List Reading}
    (chain : Chain cfg sector chip (before ++ rest)) :
    ∃ chip', Goes cfg chip chip' ∧ Chain cfg sector chip' rest ∧
      lastPhase chip (before ++ rest) = lastPhase chip' rest := by
  induction before generalizing chip with
  | nil => exact ⟨chip, Goes.refl chip, chain, rfl⟩
  | cons r before ih =>
    obtain ⟨goes, _, chain⟩ := chain
    obtain ⟨chip', later, chain, last⟩ := ih chain
    exact ⟨chip', goes.trans later, chain, last⟩

theorem Chain.goes {chip : Chip} {readings : List Reading}
    (chain : Chain cfg sector chip readings) : Goes cfg chip (lastPhase chip readings) := by
  induction readings generalizing chip with
  | nil => exact Goes.refl chip
  | cons r readings ih =>
    obtain ⟨goes, _, chain⟩ := chain
    exact goes.trans (ih chain)

/-- The readings `used` come first. -/
def Uses (used readings rest : List Reading) : Prop := readings = used ++ rest

theorem uses : Tracing Uses where
  nil _ := rfl
  append := by
    rintro xs ys s t u rfl rfl
    exact (List.append_assoc xs ys u).symm

theorem readmem_uses :
    Does Uses readmem fun used word => ∃ r, used = [r] ∧ r.word = word := by
  intro readings word rest run
  cases readings with
  | nil => cases run
  | cons r readings =>
    cases run
    exact ⟨[r], rfl, r, rfl, rfl⟩

theorem readmem_bind {β : Type} {f : BitVec 64 → Polling β} {S : List Reading → β → Prop}
    (rest : ∀ r, Does Uses (f r.word) fun used b => S (r :: used) b) :
    Does Uses (readmem >>= f) S := by
  refine Does.bind uses readmem_uses fun used word read => ?_
  obtain ⟨r, rfl, rfl⟩ := read
  exact rest r

/-- `DQ6` does not toggle over the last two readings. -/
def Still (cfg : Flashcfg) (used : List Reading) : Prop :=
  ∃ before r r', used = before ++ [r, r'] ∧
    ∀ i < cfg.chipInter, cfg.dq 6 r.word i = cfg.dq 6 r'.word i

theorem Still.cons {used : List Reading} (r : Reading) (still : Still cfg used) :
    Still cfg (r :: used) := by
  obtain ⟨before, r0, r1, rfl, same⟩ := still
  exact ⟨r :: before, r0, r1, rfl, same⟩

theorem pollDq6_still (loops : Nat) :
    Does Uses (pollDq6 cfg loops) fun used polled => polled = .stopped → Still cfg used := by
  induction loops with
  | zero => exact Does.pure uses nofun
  | succ loops ih =>
    refine readmem_bind fun r => readmem_bind fun r' => ?_
    refine Does.ite (fun same => ?_) fun _ => Does.ite (fun _ => ?_) fun _ => ?_
    · exact Does.pure uses fun _ =>
        ⟨[], r, r', rfl, (Flashcfg.toggle_eq_zero (by decide)).mp same⟩
    · exact Does.pure uses nofun
    · exact Does.mono ih fun used polled still stopped =>
        ((still stopped).cons r').cons r

theorem aCFIv2suspend_still (loops : Nat) :
    Does Uses (aCFIv2suspend cfg loops) fun used result =>
      result.status = EOK → Still cfg used ∧ result.resumes = false := by
  refine Does.bind uses (pollDq6_still loops) fun used polled still => ?_
  cases polled with
  | stopped =>
    refine Does.pure uses fun _ => ⟨?_, rfl⟩
    rw [List.append_nil]
    exact still rfl
  | failed => exact Does.pure uses fun same => absurd same (by decide : ECANCELED ≠ EOK)
  | timeout => exact Does.pure uses fun same => absurd same (by decide : EIO ≠ EOK)

/-- Neither `DQ6` nor `DQ2` toggles over two readings, and another one comes after them. -/
def Finished (cfg : Flashcfg) (used : List Reading) : Prop :=
  ∃ before r r' r'', used = before ++ [r, r', r''] ∧ ∀ i < cfg.chipInter,
    cfg.dq 6 r.word i = cfg.dq 6 r'.word i ∧ cfg.dq 2 r.word i = cfg.dq 2 r'.word i

theorem syncDone_finished {r r' : Reading} (before : List Reading)
    (same : (r.word ^^^ r'.word) &&& cfg.mask 6 = 0) :
    Does Uses (syncDone cfg r.word r'.word) fun used result =>
      result.status = EOK → Finished cfg (before ++ r :: r' :: used) ∧ result.resumes = false := by
  refine readmem_bind fun r'' => ?_
  refine Does.ite (fun _ => ?_) fun _ => Does.ite (fun _ => ?_) fun still => ?_
  · exact Does.pure uses fun same => absurd same (by decide : EAGAIN ≠ EOK)
  · exact Does.pure uses fun same => absurd same (by decide : EAGAIN ≠ EOK)
  · refine Does.pure uses fun _ => ⟨⟨before, r, r', r'', rfl, fun i inside => ⟨?_, ?_⟩⟩, rfl⟩
    · exact (Flashcfg.toggle_eq_zero (by decide)).mp same i inside
    · exact (Flashcfg.toggle_eq_zero (by decide)).mp (not_not.mp still) i inside

theorem a29f040v2sync_finished :
    Does Uses (a29f040v2sync cfg) fun used result =>
      result.status = EOK → Finished cfg used ∧ result.resumes = false := by
  refine readmem_bind fun r => readmem_bind fun r' => ?_
  refine Does.ite (fun _ => ?_) fun same => syncDone_finished [] (not_not.mp same)
  refine Does.ite (fun _ => ?_) fun _ => ?_
  · refine readmem_bind fun r'' => ?_
    refine Does.ite (fun _ => ?_) fun _ => Does.ite (fun _ => ?_) fun same => ?_
    · exact Does.pure uses fun same => absurd same (by decide : EIO ≠ EOK)
    · exact Does.pure uses fun same => absurd same (by decide : EAGAIN ≠ EOK)
    · exact syncDone_finished [r] (not_not.mp same)
  · exact Does.pure uses fun same => absurd same (by decide : EAGAIN ≠ EOK)

theorem Does.all {m : Polling Result} {Q : List Reading → Result → Prop} {readings : List Reading}
    {result : Result} (does : Does Uses m Q) (run : m readings = some (result, [])) :
    Q readings result := by
  obtain ⟨used, same, holds⟩ := does run
  have all : readings = used := same.trans (List.append_nil used)
  rw [all]
  exact holds

/-- No device erases after `DQ6` has stopped. -/
theorem Still.quiet {chip : Chip} {readings : List Reading}
    (chain : Chain cfg sector chip readings) (still : Still cfg readings) :
    ∀ i < cfg.chipInter, (lastPhase chip readings i).busy = false := by
  obtain ⟨before, r, r', rfl, same⟩ := still
  obtain ⟨chip', _, ⟨_, follows, _⟩, last⟩ := chain.later
  intro i inside
  rw [last]
  by_contra busy
  exact (follows r' rfl i inside).1 ((Bool.not_eq_false _).mp busy) (same i inside)

/-- `DQ2` does not stop in the sector of a suspended device. -/
theorem Finished.absurd {chip : Chip} {readings : List Reading} {i : Nat}
    (chain : Chain cfg true chip readings) (finished : Finished cfg readings)
    (inside : i < cfg.chipInter) (suspended : chip i = .suspended) : False := by
  obtain ⟨before, r, r', r'', rfl, same⟩ := finished
  obtain ⟨chip', later, ⟨goes, follows, goes', _⟩, _⟩ := chain.later
  have stays := later i inside
  rw [suspended] at stays
  have stays' := goes i inside
  rw [Phase.stays_suspended stays] at stays'
  have stays'' := goes' i inside
  have first := Phase.stays_suspended stays'
  rw [first] at stays''
  exact (follows r' rfl i inside).2 rfl first (Phase.stays_suspended stays'') (same i inside).2

end Readings

/-! ## Steps -/

section Tracked

variable {cfg : Flashcfg} {set : Callouts} {loops : Nat} {s t : Socket} {c status : Nat}

theorem Socket.setChip_chip (chip : Chip) : (s.setChip c chip).chips c = chip := if_pos rfl

theorem Ran.suspended {m : Polling Result} {chip : Chip} {readings : List Reading} {i : Nat}
    (ran : Ran m s c chip readings status t) (suspended : t.chips c i = .suspended) :
    lastPhase chip readings i = .suspended := by
  cases ran with
  | @intro result all =>
    cases resumes : result.resumes with
    | false =>
      rw [resumes] at suspended
      exact (congrFun (Socket.setChip_chip _) i).symm.trans suspended
    | true =>
      rw [resumes] at suspended
      have resumed := (congrFun (Socket.setChip_chip _) i).symm.trans suspended
      exact absurd resumed (Phase.resumed _).1

theorem Chain.held {chip : Chip} {readings : List Reading} {sector : Bool} {i : Nat}
    (start : chip = if s.resumes set false then (s.chips c).command .resume else s.chips c)
    (chain : Chain cfg sector chip readings) (inside : i < cfg.chipInter)
    (suspended : lastPhase chip readings i = .suspended) :
    s.suspended = false ∧ (s.chips c i = .suspended ∨ s.chips c i = .suspending) := by
  have goes := chain.goes i inside
  rw [suspended] at goes
  have held := Phase.suspended_before goes
  cases flag : s.suspended with
  | false =>
    have still : s.resumes set false = false := by
      unfold Socket.resumes
      rw [flag]
      rfl
    rw [start, still] at held
    exact ⟨rfl, held⟩
  | true =>
    have resumes : s.resumes set false = true := by
      unfold Socket.resumes
      rw [flag]
      exact Bool.or_true _
    rw [start, resumes] at held
    rcases held with held | held
    · exact absurd held (Phase.resumed _).1
    · exact absurd held (Phase.resumed _).2

theorem Step.tracked {event : Event} (step : Step cfg set loops s event status t)
    (kept : s.Kept cfg set event) : event.Tracked cfg status t := by
  cases step with
  | goes | erase | resume => trivial
  | noPage errno clear => exact fun same => absurd same errno.2
  | already flag => exact fun _ => kept flag
  | aCFIv2suspend aCFI clear chain ran =>
    cases ran with
    | intro all =>
      intro same i inside
      obtain ⟨still, resumes⟩ := Does.all (aCFIv2suspend_still loops) all same
      rw [resumes]
      exact (congrArg Phase.busy (congrFun (Socket.setChip_chip _) i)).trans
        (still.quiet chain i inside)
  | s29glxxxsv2suspend s29 clear goes inTime =>
    intro _ i inside
    exact (congrArg Phase.busy (congrFun (Socket.setChip_chip _) i)).trans (inTime i inside)
  | @syncNoPage _ forWrite sector errno =>
    cases forWrite with
    | true => trivial
    | false => exact fun same => absurd same errno.2
  | @a29f040v2sync _ _ _ forWrite sector chip readings aCFI start chain ran =>
    cases forWrite with
    | true => trivial
    | false =>
      intro same i inside suspended
      obtain ⟨clear, held⟩ := chain.held start inside (ran.suspended suspended)
      obtain ⟨_, inSector, j, insideJ, suspendedJ⟩ := kept clear ⟨i, inside, held⟩
      have begins : chip j = .suspended := by
        unfold Socket.resumes at start
        rw [start, clear]
        exact suspendedJ
      rw [inSector] at chain
      cases ran with
      | intro all =>
        exact (Does.all a29f040v2sync_finished all same).1.absurd chain insideJ begins
  | @s29glxxxsv2sync _ _ _ forWrite sector chip readings s29 start chain shows ran =>
    cases forWrite with
    | true => trivial
    | false =>
      intro _ i inside suspended
      obtain ⟨clear, held⟩ := chain.held start inside (ran.suspended suspended)
      obtain ⟨aCFI, _⟩ := kept clear ⟨i, inside, held⟩
      rw [s29] at aCFI
      cases aCFI

/-! ### Where a chip is not tracked -/

/-- What a device becomes when it ends its work -/
def Phase.settle : Phase → Phase
  | .ready | .erasing => .ready
  | .suspending | .suspended => .suspended

theorem Phase.later_settle (phase : Phase) : phase.later phase.settle = true := by
  cases phase <;> rfl

theorem Phase.busy_settle (phase : Phase) : phase.settle.busy = false := by
  cases phase <;> rfl

theorem Phase.settle_held {phase : Phase} (held : phase = .suspended ∨ phase = .suspending) :
    phase.settle = .suspended := by
  rcases held with rfl | rfl
  · rfl
  · rfl

/-- The devices of a chip end their work. -/
def Chip.settle (chip : Chip) : Chip := fun i => (chip i).settle

/-- The readings of a chip as its devices settle: at last `DQ2` toggles. -/
def settling (cfg : Flashcfg) (chip : Chip) : List Reading :=
  [⟨chip, cfg.mask 7⟩, ⟨chip.settle, cfg.mask 7⟩, ⟨chip.settle, cfg.mask 7 ||| cfg.mask 2⟩]

theorem a29f040v2sync_settling (chip : Chip) :
    a29f040v2sync cfg (settling cfg chip) = some (⟨EOK, false, false⟩, []) := by
  have same : cfg.mask 7 ^^^ cfg.mask 7 = 0 := BitVec.xor_self
  have shows : (cfg.mask 7 ||| cfg.mask 2) &&& cfg.mask 7 ≠ 0 := by
    intro zero
    have none := (Flashcfg.and_mask_eq_zero (by decide)).mp zero 0 Flashcfg.chipInter_pos
    rw [Flashcfg.dq_or, Flashcfg.dq_mask (by decide) Flashcfg.chipInter_pos] at none
    cases none
  have done : syncDone cfg (cfg.mask 7) (cfg.mask 7)
      [⟨chip.settle, cfg.mask 7 ||| cfg.mask 2⟩] = some (⟨EOK, false, false⟩, []) := by
    unfold syncDone
    refine bind_eq_some.mpr ⟨_, _, rfl, ?_⟩
    dsimp only
    rw [if_neg shows, if_neg]
    · rfl
    · rw [same]
      exact fun absent => absent BitVec.zero_and
  refine bind_eq_some.mpr ⟨_, _, rfl, bind_eq_some.mpr ⟨_, _, rfl, ?_⟩⟩
  dsimp only
  rw [if_neg]
  · exact done
  · rw [same]
    exact fun absent => absent BitVec.zero_and

theorem settling_chain {chip : Chip} {sector : Bool}
    (none : sector = true → ∀ i < cfg.chipInter, chip i ≠ .suspended) :
    Chain cfg sector chip (settling cfg chip) := by
  have stops : ∀ i, (chip.settle i).busy = false := fun i => (chip i).busy_settle
  refine ⟨Goes.refl chip, ?_, fun i _ => (chip i).later_settle, ?_, Goes.refl _, nofun, trivial⟩
  · intro r' head i inside
    cases head
    refine ⟨fun busy => ?_, fun inSector suspended => absurd suspended (none inSector i inside)⟩
    rw [stops i] at busy
    cases busy
  · intro r' head i inside
    cases head
    refine ⟨fun busy => ?_, fun _ _ _ => ?_⟩
    · rw [stops i] at busy
      cases busy
    · rw [Flashcfg.dq_or, Flashcfg.dq_mask (by decide) inside,
        Flashcfg.dq_mask_of_ne (by decide) (by decide) (by decide)]
      exact Bool.false_ne_true

theorem s29glxxxsv2sync_settled (chip : Chip) (suspended : Bool) :
    s29glxxxsv2sync cfg suspended [⟨chip.settle, cfg.mask 7⟩] =
      some (⟨EOK, suspended, false⟩, []) := by
  have apart : ∀ entry ∈ multipliers,
      (((1 : BitVec 64) <<< 7) * entry.2) &&& (0x30 * entry.2) = 0 := by decide
  have noErrors : cfg.mask 7 &&& (0x30 * cfg.deviceMult) = 0 := apart _ cfg.supported
  have ready : cfg.mask 7 &&& (0x80 * cfg.deviceMult) = 0x80 * cfg.deviceMult := BitVec.and_self
  refine bind_eq_some.mpr ⟨_, _, rfl, ?_⟩
  dsimp only
  rw [if_pos ready, if_neg (not_not.mpr noErrors)]
  rfl

theorem Step.exists_not_tracked (set : Callouts) (loops : Nat) {event : Event}
    (broken : ¬ s.Kept cfg set event) :
    ∃ status t, Step cfg set loops s event status t ∧ ¬ event.Tracked cfg status t := by
  cases event with
  | goes | erase | resume => exact absurd trivial broken
  | suspend c =>
    obtain ⟨flag, busy⟩ := Classical.not_imp.mp broken
    exact ⟨EOK, s, .already flag, fun tracked => busy (tracked rfl)⟩
  | sync c forWrite sector =>
    cases forWrite with
    | true => exact absurd trivial broken
    | false =>
      obtain ⟨clear, broken⟩ := Classical.not_imp.mp broken
      obtain ⟨⟨i, inside, held⟩, broken⟩ := Classical.not_imp.mp broken
      have start : s.chips c = if s.resumes set false then (s.chips c).command .resume
          else s.chips c := by
        unfold Socket.resumes
        rw [clear]
        rfl
      have ends : (s.setChip c (s.chips c).settle).chips c i = .suspended :=
        (congrFun (Socket.setChip_chip _) i).trans (Phase.settle_held held)
      cases set with
      | aCFI =>
        have none : sector = true → ∀ i < cfg.chipInter, s.chips c i ≠ .suspended :=
          fun inSector j insideJ suspended =>
            broken ⟨rfl, inSector, j, insideJ, suspended⟩
        refine ⟨EOK, _, .a29f040v2sync rfl start (settling_chain none)
          ⟨a29f040v2sync_settling _⟩, fun tracked => ?_⟩
        exact tracked rfl i inside ends
      | s29glxxxs =>
        have chain : Chain cfg sector (s.chips c) [⟨(s.chips c).settle, cfg.mask 7⟩] :=
          ⟨fun i _ => (s.chips c i).later_settle, nofun, trivial⟩
        refine ⟨EOK, _, .s29glxxxsv2sync rfl start chain ?_
          ⟨s29glxxxsv2sync_settled _ _⟩, fun tracked => ?_⟩
        · intro r there i inside
          rw [List.mem_singleton.mp there, Flashcfg.dq_mask (by decide) inside]
          exact (congrArg Bool.not (Phase.busy_settle _)).symm
        · exact tracked rfl i inside ends

end Tracked

/-! ## Runs -/

section Runs

variable (cfg : Flashcfg) (set : Callouts) (loops : Nat)

/-- In all runs over the events the callouts keep their promises exactly if with the flag set no
suspend names a chip that erases, and with the flag clear no sync of an erase names a chip with a
device suspended or about to be, unless the AMD callout sees one in its sector. -/
theorem suspend_tracked_iff (s : Socket) (events : List Event) :
    (∀ pre event t status u, pre ++ [event] <+: events → Run (Happens cfg set loops) s pre t →
        Step cfg set loops t event status u → event.Tracked cfg status u) ↔
      ∀ pre event t, pre ++ [event] <+: events → Run (Happens cfg set loops) s pre t →
        t.Kept cfg set event := by
  constructor
  · intro tracked pre event t below run
    by_contra broken
    obtain ⟨status, u, step, fails⟩ := Step.exists_not_tracked set loops broken
    exact fails (tracked pre event t status u below run step)
  · intro kept pre event t status u below run step
    exact step.tracked (kept pre event t below run)

/-! ### Two chips -/

/-- One device of 16 bits a chip -/
def single : Flashcfg := ⟨2, 1, 0x0001, single_supported⟩

/-- Two chips erase and the first is suspended: the suspend of the second does nothing, and it
erases on. -/
theorem suspend_tracked_broken :
    ∃ t u, Run (Happens single .s29glxxxs 0) ⟨false, fun _ _ => .ready⟩
        [.erase 0, .erase 1, .suspend 0] t ∧
      Step single .s29glxxxs 0 t (.suspend 1) EOK u ∧
        ¬ (Event.suspend 1).Tracked single EOK u := by
  have goes : Goes single (Chip.command .suspend fun _ => .erasing) fun _ => .suspended := by
    intro i _
    rfl
  have run : Run (Happens single .s29glxxxs 0) ⟨false, fun _ _ => .ready⟩
      [.erase 0, .erase 1, .suspend 0] _ :=
    .cons ⟨_, .erase⟩ (.cons ⟨_, .erase⟩ (.cons
      ⟨_, .s29glxxxsv2suspend rfl rfl goes fun _ _ => rfl⟩ .nil))
  refine ⟨_, _, run, .already rfl, fun tracked => ?_⟩
  exact absurd (tracked rfl 0 (by decide)) (by decide)

end Runs

end Mx6xBsp.Flash
