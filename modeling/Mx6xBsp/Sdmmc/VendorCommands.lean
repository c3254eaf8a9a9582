import Mx6xBsp.Lib.Ledgers
import Mathlib.Data.BitVec

/-!
# Lists of vendor commands

`sim_bs_vuc_cmd` works through the entries of a list that a client passes in a buffer. Each
entry is a command for the card, which may have data: at a physical address, or in the same
buffer, and then they go through a temporary I/O buffer. `events` is what is done with these
buffers and the command block, what is copied from and to the buffer of the client, and what
the end of an entry is decided from. The pointer to the I/O buffer and the status of the command
are carried from one entry to the next, so that what is done is right exactly in the lists in
which no entry takes them from an earlier one, and no length wraps or is overwritten by the data
of the card (`vuc_cmd_iff`).
-/

namespace Mx6xBsp.Sdmmc.Vuc

open Ledgers

def EOK : Nat := 0
def EIO : Nat := 5
def ENOMEM : Nat := 12
def EINVAL : Nat := 22
def ETIMEDOUT : Nat := 260

def CS_CMD_CMP : BitVec 32 := 0x01

abbrev Bytes := Nat → UInt8

/-- `memcpy` of `n` bytes to `d`, from the start of another memory -/
def memcpy (dst : Bytes) (d : Nat) (src : Bytes) (n : Nat) : Bytes := fun i =>
  if d ≤ i ∧ i < d + n then src (i - d) else dst i

/-- What the loop reads of an `MMCSD_VUC_CMD`, apart from what goes to the card as it is -/
structure Entry where
  flags : BitVec 32
  data_len : BitVec 32
  buf_off : BitVec 32

/-- The header that declares `MMCSD_VUC_CMD` and its flags is not among the sources:
`MMCSD_VUC_RSP` is `SCF_RSP_PRESENT` moved to where the flags of the entries have it. -/
structure Header where
  sizeof : Nat
  pos : 0 < sizeof
  read : Bytes → Nat → Entry
  MMCSD_VUC_RSP : BitVec 32
  MMCSD_VUC_DATA_MSK : BitVec 32
  MMCSD_VUC_DATA_IN : BitVec 32
  MMCSD_VUC_DATA_OUT : BitVec 32
  MMCSD_VUC_DATA_PHYS : BitVec 32
  MMCSD_VUC_END : BitVec 32

abbrev Entry.has (v : Entry) (flag : BitVec 32) : Prop := v.flags &&& flag ≠ 0

/-- `HC_CAP_ACMD12`, `DEV_CAP_CMD23` and the size of a sector -/
structure Host where
  acmd12 : Bool
  cmd23 : Bool
  sector_size : BitVec 32

/-- What an entry meets: the card locked, the partition write protected or an RPMB one, how it is
set, whether there is memory for an I/O buffer, how the command ends, with which status and which
bytes in the I/O buffer, and, once it has ended, whether the card is not found ready for data, how
a stop ends, and how the wait for the card -/
structure Env where
  locked : Bool
  wp : Bool
  rpmb : Bool
  set_partition : Nat
  alloc : Bool
  send_cmd : Nat
  cmd_status : BitVec 32
  io : Bytes
  stuck : Bool
  stop_transmission : Nat
  wait_card_status : Nat

/-- What is done with the command block, with an I/O buffer, which is numbered by the entry that
allocates it and is used when it is handed to the card or to `memcpy`, and with the buffer of the
client; and that an entry is decided from a status, which is its own or not -/
inductive Event
  | alloc_cmd
  | free_cmd
  | alloc (io : Nat) (len : Nat)
  | free (io : Option Nat) (len : Nat)
  | use (io : Option Nat)
  | copy (off len : Nat)
  | decide (own : Bool)

/-- The buffer of the client, where the entry is in it, the number of the entry, and the variables
`io` and `cstatus` -/
structure State where
  mem : Bytes
  off : Nat
  k : Nat
  io : Option Nat
  cstatus : BitVec 32

inductive Ending
  | error (status : Nat)
  | done
  | next (mem : Bytes) (io : Option Nat) (cstatus : BitVec 32)

/-- `CAM_REQ_CMP` and `CAM_REQ_CMP_ERR` -/
inductive Cam
  | CAM_REQ_CMP
  | CAM_REQ_CMP_ERR

structure Done where
  cam : Cam
  cam_devctl_status : Nat
  events : List Event

section Code

variable (h : Header) (host : Host) (size : BitVec 32)

/-- The checks before a command with data, and the status with which the list ends there -/
def refused (v : Entry) (env : Env) : Option Nat :=
  if v.has h.MMCSD_VUC_DATA_MSK then
    if env.locked then some EOK
    else if v.has h.MMCSD_VUC_DATA_OUT ∧ env.wp then some EOK
    else if env.rpmb then some EOK
    else if env.set_partition ≠ EOK then some EOK
    else if v.has h.MMCSD_VUC_DATA_PHYS then none
    else if v.buf_off > size ∨ v.buf_off + v.data_len > size then some EINVAL
    else if env.alloc = false then some ENOMEM
    else none
  else none

/-- The entry allocates an I/O buffer. -/
abbrev Header.buffered (v : Entry) : Prop :=
  v.has h.MMCSD_VUC_DATA_MSK ∧ ¬v.has h.MMCSD_VUC_DATA_PHYS

/-- `io` once the command is set up -/
def Header.ioAfter (v : Entry) (s : State) : Option Nat :=
  if h.buffered v then some s.k else s.io

/-- `memcpy` between the I/O buffer and the data in the buffer of the client, if the entry has the
flag -/
def Entry.carry (v : Entry) (flag : BitVec 32) (io : Option Nat) : List Event :=
  if v.has flag then [.use io, .copy v.buf_off.toNat v.data_len.toNat] else []

/-- The I/O buffer is allocated, filled for output, and handed to the card. -/
def Header.setup (v : Entry) (k : Nat) : List Event :=
  if h.buffered v then
    .alloc k v.data_len.toNat :: (v.carry h.MMCSD_VUC_DATA_OUT (some k) ++ [.use (some k)])
  else []

/-- The buffer of the client once the command has been sent -/
def Header.received (v : Entry) (env : Env) (mem : Bytes) : Bytes :=
  if ¬v.has h.MMCSD_VUC_DATA_PHYS ∧ v.has h.MMCSD_VUC_DATA_IN then
    memcpy mem v.buf_off.toNat env.io v.data_len.toNat
  else mem

/-- What comes in is copied from the I/O buffer, which is freed with the length that the entry has
then. -/
def Header.release (v v' : Entry) (io : Option Nat) : List Event :=
  if v.has h.MMCSD_VUC_DATA_PHYS then []
  else v.carry h.MMCSD_VUC_DATA_IN io ++ [.free io v'.data_len.toNat]

/-- `SCF_MULTIBLK` without `SCF_SBC`, and no `CMD12` by the host -/
abbrev Header.stops (v v' : Entry) : Prop :=
  (v.has h.MMCSD_VUC_DATA_MSK ∧ v.data_len > host.sector_size) ∧
    ¬(host.acmd12 = false ∧ host.cmd23 = true) ∧ v'.data_len > host.sector_size ∧
    host.acmd12 = false

def Header.status (v v' : Entry) (env : Env) : Nat :=
  if env.send_cmd ≠ EOK then
    if env.stuck ∧ env.stop_transmission ≠ EOK then ETIMEDOUT else env.send_cmd
  else if h.stops host v v' ∧ env.stop_transmission ≠ EOK then ETIMEDOUT
  else env.wait_card_status

/-- One entry -/
def entry (env : Env) (s : State) : List Event × Ending :=
  let v := h.read s.mem s.off
  match refused h size v env with
  | some status => ([], .error status)
  | none =>
    let io := h.ioAfter v s
    let mem := h.received v env s.mem
    let v' := h.read mem s.off
    let status := h.status host v v' env
    let cstatus := if v.has h.MMCSD_VUC_RSP then env.cmd_status else s.cstatus
    (h.setup v s.k ++ h.release v v' io ++
        -- `cstatus` is looked at if `status` is `EOK`
        if status = EOK then [.decide (v.has h.MMCSD_VUC_RSP)] else [],
      if status ≠ EOK ∨ cstatus ≠ CS_CMD_CMP then .error EOK
      else if v'.has h.MMCSD_VUC_END then .done
      else .next mem io cstatus)

def loop (env : Nat → Env) (s : State) : Done :=
  if s.off + h.sizeof > size.toNat then ⟨.CAM_REQ_CMP_ERR, EINVAL, []⟩
  else
    match entry h host size (env s.k) s with
    | (events, .error status) => ⟨.CAM_REQ_CMP_ERR, status, events⟩
    | (events, .done) => ⟨.CAM_REQ_CMP, EOK, events⟩
    | (events, .next mem io cstatus) =>
      let rest := loop env ⟨mem, s.off + h.sizeof, s.k + 1, io, cstatus⟩
      { rest with events := events ++ rest.events }
  termination_by size.toNat - s.off
  decreasing_by have pos := h.pos; omega

/-- Where the loop starts; `cstatus` has no value yet. -/
def start (mem : Bytes) (cstatus : BitVec 32) : State := ⟨mem, 0, 0, none, cstatus⟩

def sim_bs_vuc_cmd (env : Nat → Env) (ready alloc_cmd : Bool) (mem : Bytes)
    (cstatus : BitVec 32) : Done :=
  if ready = false then ⟨.CAM_REQ_CMP, EIO, []⟩
  else if alloc_cmd = false then ⟨.CAM_REQ_CMP, ENOMEM, []⟩
  else
    let done := loop h host size env (start mem cstatus)
    { done with events := .alloc_cmd :: (done.events ++ [.free_cmd]) }

end Code

/-! ## What is right -/

inductive Block
  | cmd
  | io (k : Nat)
  deriving DecidableEq

def Event.move (size : BitVec 32) : Event → Move Block
  | .alloc_cmd => .take .cmd 0
  | .free_cmd => .give (some .cmd) 0
  | .alloc k len => .take (.io k) len
  | .free io len => .give (io.map .io) len
  | .use io => .use (io.map .io)
  | .copy off len => .rely (off + len ≤ size.toNat)
  | .decide own => .rely own

/-- Every I/O buffer that is allocated, and the command block, is freed once, and as a whole; no I/O
buffer is used but between; copies stay inside the buffer of the client; and no entry is decided
from a status that is not its own. -/
def Done.Right (d : Done) (size : BitVec 32) : Prop := Clean (d.events.map (Event.move size))

section Spec

variable (h : Header) (host : Host) (size : BitVec 32) (env : Nat → Env)

/-- The entry is inside the buffer of the client. -/
abbrev State.Whole (s : State) : Prop := s.off + h.sizeof ≤ size.toNat

/-- The states in which the loop comes to an entry -/
inductive Reached : State → State → Prop
  | here (s : State) : Reached s s
  | later {s t : State} {mem : Bytes} {io : Option Nat} {cstatus : BitVec 32} :
    s.Whole h size → (entry h host size (env s.k) s).2 = .next mem io cstatus →
      Reached ⟨mem, s.off + h.sizeof, s.k + 1, io, cstatus⟩ t → Reached s t

/-- The command and what follows it end well. -/
def Env.Succeeds (e : Env) (v v' : Entry) : Prop :=
  e.send_cmd = EOK ∧ (h.stops host v v' → e.stop_transmission = EOK) ∧ e.wait_card_status = EOK

/-- An entry with data in the buffer of the client says where they are without a wrap, and the data
that come in leave it the length it has; one without data comes before all those; and one that
succeeds has a response. -/
structure Carried (e : Env) (v v' : Entry) (io : Option Nat) : Prop where
  range : h.buffered v → v.has h.MMCSD_VUC_DATA_IN ∨ v.has h.MMCSD_VUC_DATA_OUT →
    v.buf_off.toNat + v.data_len.toNat < 2 ^ 32
  length : h.buffered v → v'.data_len = v.data_len
  bare : ¬v.has h.MMCSD_VUC_DATA_MSK → ¬v.has h.MMCSD_VUC_DATA_PHYS →
    io = none ∧ ¬v.has h.MMCSD_VUC_DATA_IN
  response : e.Succeeds h host v v' → v.has h.MMCSD_VUC_RSP

/-- The entry is refused by a check, or what it carries is fine. -/
def Fits (s : State) : Prop :=
  let v := h.read s.mem s.off
  refused h size v (env s.k) ≠ none ∨
    Carried h host (env s.k) v (h.read (h.received v (env s.k) s.mem) s.off) s.io

end Spec

variable {h : Header} {host : Host} {size : BitVec 32} {env : Nat → Env} {e : Env}
  {v v' : Entry} {k : Nat}

theorem status_eq_iff : h.status host v v' e = EOK ↔ e.Succeeds h host v v' := by
  unfold Header.status Env.Succeeds
  split_ifs with failed stuck stop
  · exact iff_of_false (by decide) fun succeeds => failed succeeds.1
  · exact iff_of_false failed fun succeeds => failed succeeds.1
  · exact iff_of_false (by decide) fun succeeds => stop.2 (succeeds.2.1 stop.1)
  · rw [not_ne_iff] at failed
    refine ⟨fun wait => ⟨failed, fun stops => ?_, wait⟩, fun succeeds => succeeds.2.2⟩
    by_contra bad
    exact stop ⟨stops, bad⟩

/-- A command with data in the buffer of the client is let through only with what the check of its
range leaves. -/
theorem range_of_refused (through : refused h size v e = none) (buffered : h.buffered v) :
    v.buf_off.toNat ≤ size.toNat ∧
      (v.buf_off.toNat + v.data_len.toNat) % 2 ^ 32 ≤ size.toNat := by
  unfold refused at through
  rw [if_pos buffered.1] at through
  split_ifs at through with _ _ _ _ phys range
  · exact absurd phys buffered.2
  · obtain ⟨off, sum⟩ := not_or.mp range
    have below := BitVec.le_def.mp (BitVec.not_lt.mp sum)
    rw [BitVec.toNat_add] at below
    exact ⟨BitVec.le_def.mp (BitVec.not_lt.mp off), below⟩

theorem bounded_iff (through : refused h size v e = none) (buffered : h.buffered v) :
    v.buf_off.toNat + v.data_len.toNat ≤ size.toNat ↔
      v.buf_off.toNat + v.data_len.toNat < 2 ^ 32 := by
  obtain ⟨-, sum⟩ := range_of_refused through buffered
  have short := size.isLt
  constructor
  · omega
  · intro below
    rwa [Nat.mod_eq_of_lt below] at sum

/-! ## One entry -/

/-- The command block is out and no I/O buffer. -/
abbrev atEntry : Heap Block := [(.cmd, 0)]

theorem io_not_mem (io : Option Nat) : ∀ b ∈ io.map Block.io, b ∉ atEntry.map Prod.fst := by
  rintro b mem out
  obtain ⟨k, -, rfl⟩ := Option.map_eq_some_iff.mp mem
  cases List.mem_singleton.mp out

theorem carry_round (v : Entry) (size flag : BitVec 32) {n : Nat} {heap : Heap Block} :
    Round ((.io k, n) :: heap) ((v.carry flag (some k)).map (Event.move size))
      (v.has flag → v.buf_off.toNat + v.data_len.toNat ≤ size.toNat) := by
  unfold Entry.carry
  rw [apply_ite (List.map (Event.move size)), List.map_nil]
  refine Round.ite fun _ => ?_
  have used : Round ((Block.io k, n) :: heap) [.use (some (.io k))] True := Round.use_last
  exact (used.append (Round.rely.congr decide_eq_true_iff)).congr (and_iff_right trivial)

theorem carry_missing (flag : BitVec 32) (io : Option Nat) :
    Round atEntry ((v.carry flag io).map (Event.move size)) (¬v.has flag) := by
  unfold Entry.carry
  rw [apply_ite (List.map (Event.move size)), List.map_nil]
  refine (Round.ite fun _ => ?_).congr (imp_false)
  exact ((Round.use_missing (io_not_mem io)).append (Round.rely.congr decide_eq_true_iff)).congr
    (iff_of_false (fun both => both.1) id)

theorem decide_round {succeeds own : Prop} [Decidable succeeds] [Decidable own] :
    Round atEntry ((if succeeds then [Event.decide own] else []).map (Event.move size))
      (succeeds → own) := by
  rw [apply_ite (List.map (Event.move size)), List.map_nil]
  exact Round.ite fun _ => Round.rely.congr decide_eq_true_iff

/-- A command with an I/O buffer, from where that is allocated to where it is freed -/
theorem buffered_round (buffered : h.buffered v) :
    Round atEntry ((h.setup v k ++ h.release v v' (some k)).map (Event.move size))
      ((v.has h.MMCSD_VUC_DATA_IN ∨ v.has h.MMCSD_VUC_DATA_OUT →
          v.buf_off.toNat + v.data_len.toNat ≤ size.toNat) ∧ v'.data_len = v.data_len) := by
  have single : Block.io k ∉ atEntry.map Prod.fst := io_not_mem (some k) _ rfl
  have used : Round ((Block.io k, v.data_len.toNat) :: atEntry) [.use (some (.io k))] True :=
    Round.use_last
  have block := Round.block (m := v'.data_len.toNat) single
    ((carry_round v size h.MMCSD_VUC_DATA_OUT).append
      (used.append (carry_round v size h.MMCSD_VUC_DATA_IN)))
  unfold Header.setup Header.release
  rw [if_pos buffered, if_neg buffered.2]
  simp only [List.map_append, List.map_cons, List.cons_append, List.append_assoc] at block ⊢
  refine block.congr ?_
  rw [← BitVec.toNat_inj]
  constructor
  · rintro ⟨⟨out, -, in_⟩, same⟩
    exact ⟨fun flag => flag.elim in_ out, same⟩
  · rintro ⟨copied, same⟩
    exact ⟨⟨fun out => copied (.inr out), trivial, fun in_ => copied (.inl in_)⟩, same⟩

theorem unbuffered_round (unbuffered : ¬h.buffered v) (io : Option Nat) :
    Round atEntry ((h.setup v k ++ h.release v v' io).map (Event.move size))
      (¬v.has h.MMCSD_VUC_DATA_MSK → ¬v.has h.MMCSD_VUC_DATA_PHYS →
        io = none ∧ ¬v.has h.MMCSD_VUC_DATA_IN) := by
  unfold Header.setup Header.release
  rw [if_neg unbuffered, List.nil_append]
  split_ifs with phys
  · exact Round.nil.congr ⟨fun _ _ no => absurd phys no, fun _ => trivial⟩
  · rw [List.map_append]
    refine ((carry_missing _ io).append (Round.give_missing (io_not_mem io))).congr ?_
    rw [Option.map_eq_none_iff, and_comm]
    exact ⟨fun both _ _ => both, fun both => both (fun data => unbuffered ⟨data, phys⟩) phys⟩

theorem entry_round (h : Header) (host : Host) (size : BitVec 32) (env : Nat → Env) (s : State) :
    Round atEntry ((entry h host size (env s.k) s).1.map (Event.move size))
      (Fits h host size env s) := by
  unfold entry Fits
  dsimp only
  generalize h.read s.mem s.off = v
  cases through : refused h size v (env s.k) with
  | some status => exact Round.nil.congr ⟨fun _ => .inl (Option.some_ne_none _), fun _ => trivial⟩
  | none =>
    dsimp only
    generalize h.read (h.received v (env s.k) s.mem) s.off = v'
    rw [List.map_append, or_iff_right (not_not.mpr rfl)]
    by_cases buffered : h.buffered v
    · unfold Header.ioAfter
      rw [if_pos buffered]
      refine ((buffered_round buffered).append decide_round).congr ?_
      rw [status_eq_iff, bounded_iff through buffered]
      constructor
      · rintro ⟨⟨range, length⟩, response⟩
        exact ⟨fun _ => range, fun _ => length, fun none => absurd buffered.1 none, response⟩
      · rintro ⟨range, length, -, response⟩
        exact ⟨⟨range buffered, length buffered⟩, response⟩
    · unfold Header.ioAfter
      rw [if_neg buffered]
      refine ((unbuffered_round buffered s.io).append decide_round).congr ?_
      rw [status_eq_iff]
      constructor
      · rintro ⟨bare, response⟩
        exact ⟨fun yes => absurd yes buffered, fun yes => absurd yes buffered, bare, response⟩
      · rintro ⟨-, -, bare, response⟩
        exact ⟨bare, response⟩

/-! ## The list -/

theorem last_iff {s : State} (inside : ¬s.off + h.sizeof > size.toNat)
    (ends : ∀ mem io cstatus, (entry h host size (env s.k) s).2 ≠ .next mem io cstatus) :
    Fits h host size env s ↔
      ∀ t, Reached h host size env s t → t.Whole h size → Fits h host size env t := by
  refine ⟨fun fits t reached _ => ?_, fun all => all s (.here s) (Nat.le_of_not_lt inside)⟩
  cases reached with
  | here => exact fits
  | later _ next => exact absurd next (ends _ _ _)

theorem loop_round (h : Header) (host : Host) (size : BitVec 32) (env : Nat → Env) (s : State) :
    Round atEntry ((loop h host size env s).events.map (Event.move size))
      (∀ t, Reached h host size env s t → t.Whole h size → Fits h host size env t) := by
  induction s using loop.induct h host size env with
  | case1 s outside =>
    unfold loop
    rw [if_pos outside]
    refine Round.nil.congr ⟨fun _ t reached whole => ?_, fun _ => trivial⟩
    cases reached with
    | here => exact absurd whole (Nat.not_le_of_lt outside)
    | later inside => exact absurd inside (Nat.not_le_of_lt outside)
  | case2 s inside events status ends =>
    have round := entry_round h host size env s
    unfold loop
    rw [if_neg inside]
    rw [ends] at round ⊢
    refine round.congr (last_iff inside fun _ _ _ next => ?_)
    rw [ends] at next
    cases next
  | case3 s inside events ends => 
    have round := entry_round h host size env s
    unfold loop
    rw [if_neg inside]
    rw [ends] at round ⊢
    refine round.congr (last_iff inside fun _ _ _ next => ?_)
    rw [ends] at next
    cases next
  | case4 s inside events mem io cstatus ends ih =>
    have round := entry_round h host size env s
    unfold loop
    rw [if_neg inside]
    rw [ends] at round ⊢
    dsimp only
    rw [List.map_append]
    refine (round.append ih).congr ⟨?_, fun all => ?_⟩
    · rintro ⟨fits, rest⟩ t reached whole
      cases reached with
      | here => exact fits
      | later _ next reached =>
        rw [ends] at next
        cases next
        exact rest t reached whole
    · have here : s.Whole h size := Nat.le_of_not_lt inside
      have next : (entry h host size (env s.k) s).2 = .next mem io cstatus := congrArg Prod.snd ends
      exact ⟨all s (.here s) here, fun t reached => all t (.later here next reached)⟩

theorem vuc_round (h : Header) (host : Host) (size : BitVec 32) (env : Nat → Env) (mem : Bytes)
    (cstatus : BitVec 32) :
    Round [] ((sim_bs_vuc_cmd h host size env true true mem cstatus).events.map (Event.move size))
      (∀ t, Reached h host size env (start mem cstatus) t → t.Whole h size →
        Fits h host size env t) := by
  have block := Round.block (b := Block.cmd) (n := 0) (m := 0) List.not_mem_nil
    (loop_round h host size env (start mem cstatus))
  unfold sim_bs_vuc_cmd
  rw [if_neg (Bool.noConfusion), if_neg (Bool.noConfusion)]
  dsimp only
  rw [List.map_cons, List.map_append]
  exact block.congr (and_iff_left rfl)

/-- A list of vendor commands, with whatever the entries meet, is handled right exactly if each
entry it comes to fits, or it comes to none. -/
theorem vuc_cmd_iff (h : Header) (host : Host) (size : BitVec 32) (env : Nat → Env)
    (ready alloc_cmd : Bool) (mem : Bytes) (cstatus : BitVec 32) :
    (sim_bs_vuc_cmd h host size env ready alloc_cmd mem cstatus).Right size ↔
      (ready = true → alloc_cmd = true → ∀ t, Reached h host size env (start mem cstatus) t →
        t.Whole h size → Fits h host size env t) := by
  have idle : Clean ([] : List (Move Block)) := rfl
  cases ready with
  | false => exact iff_of_true idle fun ready => absurd ready Bool.false_ne_true
  | true =>
    cases alloc_cmd with
    | false => exact iff_of_true idle fun _ alloc => absurd alloc Bool.false_ne_true
    | true =>
      rw [imp_iff_right rfl, imp_iff_right rfl]
      exact (vuc_round h host size env mem cstatus).clean_iff

/-! ## A command without data after one with data -/

/-- Three words in a row, least byte first -/
def words : Header where
  sizeof := 12
  pos := by decide
  read mem off :=
    let word (i : Nat) := (mem (off + i + 3)).toBitVec ++ (mem (off + i + 2)).toBitVec ++
      (mem (off + i + 1)).toBitVec ++ (mem (off + i)).toBitVec
    ⟨word 0, word 4, word 8⟩
  MMCSD_VUC_RSP := 0x100
  MMCSD_VUC_DATA_MSK := 0x3
  MMCSD_VUC_DATA_IN := 0x1
  MMCSD_VUC_DATA_OUT := 0x2
  MMCSD_VUC_DATA_PHYS := 0x4
  MMCSD_VUC_END := 0x8

/-- Four bytes are read from the card to the end of the buffer, then a command has no data. -/
def readThenBare : Bytes := fun i =>
  [0x01, 0x01, 0, 0, 4, 0, 0, 0, 24, 0, 0, 0, 0x08, 0x01, 0, 0].getD i 0

def fine : Env where
  locked := false
  wp := false
  rpmb := false
  set_partition := EOK
  alloc := true
  send_cmd := EOK
  cmd_status := CS_CMD_CMP
  io _ := 7
  stuck := false
  stop_transmission := EOK
  wait_card_status := EOK

def plain : Host := ⟨false, false, 512⟩

/-- The first command succeeds, and the second comes with the pointer to its I/O buffer. -/
theorem second_entry : (entry words plain 28 fine (start readThenBare 0)).2 =
    .next (words.received (words.read readThenBare 0) fine readThenBare) (some 0) CS_CMD_CMP := by
  have through : refused words 28 (words.read readThenBare 0) fine = none := by decide
  have buffered : words.buffered (words.read readThenBare 0) := by decide
  unfold entry
  dsimp only
  split
  · rename_i refused
    exact absurd (through.symm.trans refused) (Option.some_ne_none _).symm
  · dsimp only
    rw [if_neg (by decide), if_neg (by decide)]
    exact congrArg (Ending.next _ · _) (if_pos buffered)

/-- The I/O buffer of the first command is freed by the second once more. -/
theorem vuc_double_free :
    ¬∀ (h : Header) (host : Host) (size : BitVec 32) (env : Nat → Env) (ready alloc_cmd : Bool)
      (mem : Bytes) (cstatus : BitVec 32),
      (sim_bs_vuc_cmd h host size env ready alloc_cmd mem cstatus).Right size := by
  intro right
  have round := vuc_round words plain 28 (fun _ => fine) readThenBare 0
  have all := round.clean_iff.mp (right _ _ _ _ _ _ _ _)
  have fits := all _ (.later (by decide) second_entry (.here _)) (by decide)
  rcases fits with refused | carried
  · exact refused (by decide)
  · exact absurd (carried.bare (by decide) (by decide)).1 (Option.some_ne_none _)

end Mx6xBsp.Sdmmc.Vuc
