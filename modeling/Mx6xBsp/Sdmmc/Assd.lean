import Mathlib.Data.BitVec

/-!
# APDUs for the secure part of a card

`sdmmc_assd_apdu_devctl` packs the data of a client into a block of 512 bytes behind two
bytes of length, has the card exchange the block for another, and copies the data of that
one back. What the request says is checked, but not what the card says: the exchange stays
in bounds exactly if the length of the answer is one that the block and the client have room
for (`apdu_iff`).
-/

namespace Mx6xBsp.Sdmmc.Assd

def EOK : Nat := 0
def EIO : Nat := 5
def ENOMEM : Nat := 12

def ASSD_APDU_STL_SIZE : BitVec 32 := 2
def ASSD_APDU_MIN_DLEN : Int := 4
def ASSD_APDU_MAX_DLEN : Nat := 512

/-- `sizeof( SDMMC_ASSD_APDU )` -/
def APDU_SIZE : BitVec 32 := 32

abbrev Bytes := Nat → UInt8

/-- `memcpy` of `n` bytes, between offsets of two memories -/
def memcpy (dst : Bytes) (d : Nat) (src : Bytes) (s n : Nat) : Bytes := fun i =>
  if d ≤ i ∧ i < d + n then src (s + (i - d)) else dst i

/-- A request: the length in the header, the memory behind the header, and `cam_devctl_size` -/
structure Request where
  length : BitVec 32
  data : Bytes
  size : BitVec 32

/-- What the request meets: whether the unit is ready, the state of the card, whether there is
memory, how the commands end, and the memory of the block once the card has answered -/
structure Env where
  ready : Bool
  assd_state : Nat
  alloc : Bool
  write_sec_cmd : Nat
  wait_card_status : Nat
  wait_scc : Nat
  read_sec_cmd : Nat
  memory : Bytes
  block : Bytes

/-- How it ends: the status, the header and the data of the client, the block that was sent, and how
many bytes were copied from the client and back -/
structure Done where
  status : Nat
  length : BitVec 32
  data : Bytes
  sent : Option Bytes
  taken : Nat
  returned : Nat

/-- The check of the lengths -/
def Request.Checked (r : Request) : Prop :=
  (r.length + ASSD_APDU_STL_SIZE + APDU_SIZE).toNat < r.size.toNat ∧
    (r.length + ASSD_APDU_STL_SIZE).toInt < ASSD_APDU_MAX_DLEN ∧
    (r.length + ASSD_APDU_STL_SIZE).toInt > ASSD_APDU_MIN_DLEN

instance (r : Request) : Decidable r.Checked := by
  unfold Request.Checked
  infer_instance

/-- The block to be sent -/
def Request.pack (r : Request) (memory : Bytes) : Bytes :=
  let len := r.length + ASSD_APDU_STL_SIZE
  let data := Function.update (Function.update memory 0 (len >>> 8).toNat.toUInt8) 1
    len.toNat.toUInt8
  let data := memcpy data 2 r.data 0 (len - ASSD_APDU_STL_SIZE).toNat
  fun i => if len.toNat ≤ i ∧ i < ASSD_APDU_MAX_DLEN then 0 else data i

/-- The answer is copied to the client: as much as its own first bytes say, up to 512 bytes. -/
def Request.receive (r : Request) (block sent : Bytes) : Done :=
  let len : Int := ((block 0).toNat * 256 + (block 1).toNat : Nat) - 2
  let length := BitVec.ofInt 32 (min len ASSD_APDU_MAX_DLEN)
  { status := EOK
    length := length
    data := memcpy r.data 0 block 2 length.toNat
    sent := some sent
    taken := r.length.toNat
    returned := length.toNat }

/-- The request as it was, with a status -/
def Request.ends (r : Request) (status : Nat) (sent : Option Bytes) : Done :=
  { status := status
    length := r.length
    data := r.data
    sent := sent
    taken := if sent.isSome then r.length.toNat else 0
    returned := 0 }

def sdmmc_assd_apdu_devctl (env : Env) (r : Request) : Done :=
  if env.ready = false then r.ends EIO none
  else if env.assd_state ≠ 0 then r.ends env.assd_state none
  else if r.Checked then
    if env.alloc then
      let sent := r.pack env.memory
      if env.write_sec_cmd ≠ 0 then r.ends env.write_sec_cmd (some sent)
      else if env.wait_card_status ≠ 0 then r.ends env.wait_card_status (some sent)
      else if env.wait_scc ≠ 0 then r.ends env.wait_scc (some sent)
      else if env.read_sec_cmd ≠ 0 then r.ends env.read_sec_cmd (some sent)
      else r.receive env.block sent
    else r.ends ENOMEM none
  -- the status of `assd_state` has replaced `EINVAL`
  else r.ends EOK none

/-- Where the data of the client ends, from behind its header -/
def Request.room (r : Request) : Nat := r.size.toNat - APDU_SIZE.toNat

/-- Only the block is read, and only the data of the client is read and written; and if the request
ends well, the length in its header is that of the bytes copied back. -/
structure Done.Right (d : Done) (r : Request) : Prop where
  taken : d.taken ≤ r.room ∧ 2 + d.taken ≤ ASSD_APDU_MAX_DLEN
  block : d.returned ≠ 0 → 2 + d.returned ≤ ASSD_APDU_MAX_DLEN
  client : d.returned ≤ r.room
  length : d.status = EOK → d.length.toNat = d.returned

/-- The card has answered. -/
structure Env.Answers (env : Env) : Prop where
  alloc : env.alloc = true
  write : env.write_sec_cmd = 0
  ready : env.wait_card_status = 0
  scc : env.wait_scc = 0
  read : env.read_sec_cmd = 0

/-- The length that the card says its answer has -/
def Env.answered (env : Env) : Nat := (env.block 0).toNat * 256 + (env.block 1).toNat

/-- The request is not let in; or its length is refused, and is 0; or the card does not answer; or
the answer says that it has at least the bytes of its length, and no more than block and client
hold. -/
def Fits (env : Env) (r : Request) : Prop :=
  (env.ready = false ∨ env.assd_state ≠ 0) ∨
    if r.Checked then env.Answers → 2 ≤ env.answered ∧ env.answered ≤ 512 ∧
      env.answered + 30 ≤ r.size.toNat
    else r.length = 0

section Devctl

variable {env : Env} {r : Request}

theorem Request.Checked.bounds (checked : r.Checked) :
    r.length.toNat < 510 ∧ r.length.toNat ≤ r.room ∧ 37 < r.size.toNat := by
  obtain ⟨room, below, above⟩ := checked
  have short := r.length.isLt
  have header : APDU_SIZE.toNat = 32 := rfl
  have stl : ASSD_APDU_STL_SIZE.toNat = 2 := rfl
  unfold ASSD_APDU_MAX_DLEN at below
  unfold ASSD_APDU_MIN_DLEN at above
  rw [BitVec.toInt_eq_toNat_cond, BitVec.toNat_add, stl] at below above
  rw [BitVec.toNat_add, BitVec.toNat_add, stl, header] at room
  unfold Request.room
  rw [header]
  split at below <;> omega

theorem Request.ends_right {status : Nat} {sent : Option Bytes} (failed : status ≠ 0)
    (checked : sent.isSome = true → r.Checked) : (r.ends status sent).Right r := by
  refine ⟨?_, fun some => absurd rfl some, Nat.zero_le _, fun ok => absurd ok failed⟩
  unfold Request.ends
  dsimp only
  split
  · rename_i some
    obtain ⟨small, client, -⟩ := (checked some).bounds
    unfold ASSD_APDU_MAX_DLEN
    omega
  · exact ⟨Nat.zero_le _, (by decide : 2 + 0 ≤ ASSD_APDU_MAX_DLEN)⟩

theorem Request.refused_right_iff : (r.ends EOK none).Right r ↔ r.length = 0 := by
  constructor
  · intro right
    exact BitVec.eq_of_toNat_eq (right.length rfl)
  · intro none
    refine ⟨⟨Nat.zero_le _, (by decide : 2 + 0 ≤ ASSD_APDU_MAX_DLEN)⟩, fun some => absurd rfl some,
      Nat.zero_le _, fun _ => ?_⟩
    exact congrArg BitVec.toNat none

/-- What is copied back; a length below that of its own bytes becomes one of almost 4 GiB. -/
theorem Request.returned_eq (env : Env) (sent : Bytes) : (r.receive env.block sent).returned =
    if env.answered < 2 then 2 ^ 32 - 2 + env.answered else min (env.answered - 2) 512 := by
  have low := (env.block 0).toNat_lt
  have high := (env.block 1).toNat_lt
  unfold Request.receive Env.answered ASSD_APDU_MAX_DLEN
  dsimp only
  rw [BitVec.toNat_ofInt]
  split <;> omega

theorem Request.receive_right_iff (checked : r.Checked) (sent : Bytes) :
    (r.receive env.block sent).Right r ↔ 2 ≤ env.answered ∧ env.answered ≤ 512 ∧
      env.answered + 30 ≤ r.size.toNat := by
  obtain ⟨small, client, large⟩ := checked.bounds
  have returned := r.returned_eq env sent
  have room : r.room = r.size.toNat - 32 := rfl
  constructor
  · intro right
    have block := right.block
    have back := right.client
    rw [returned] at block back
    unfold ASSD_APDU_MAX_DLEN at block
    split at block
    · exact absurd (block (by omega)) (by omega)
    · rename_i long
      rw [if_neg long] at back
      by_cases empty : env.answered = 2
      · omega
      · have := block (by omega)
        omega
  · rintro ⟨long, short, fits⟩
    rw [if_neg (by omega), min_eq_left (by omega)] at returned
    refine ⟨⟨client, ?_⟩, fun _ => ?_, ?_, fun _ => rfl⟩
    · change 2 + r.length.toNat ≤ 512
      omega
    · rw [returned]
      unfold ASSD_APDU_MAX_DLEN
      omega
    · rw [returned, room]
      omega

end Devctl

/-- An exchange stays within the block and the data of the client, and tells how much it has copied,
exactly where the request is not let in, or is refused with length 0, or is not answered, or is
answered with a length that both have room for. -/
theorem apdu_iff (env : Env) (r : Request) :
    (sdmmc_assd_apdu_devctl env r).Right r ↔ Fits env r := by
  unfold sdmmc_assd_apdu_devctl Fits
  by_cases away : env.ready = false
  · rw [if_pos away]
    exact iff_of_true (Request.ends_right (by decide) fun sent => absurd sent (by decide))
      (Or.inl (Or.inl away))
  rw [if_neg away]
  by_cases state : env.assd_state ≠ 0
  · rw [if_pos state]
    exact iff_of_true (Request.ends_right state fun sent => absurd sent (by decide))
      (Or.inl (Or.inr state))
  rw [if_neg state, or_iff_right (not_or.mpr ⟨away, state⟩)]
  by_cases checked : r.Checked
  · rw [if_pos checked, if_pos checked]
    dsimp only
    by_cases answers : env.Answers
    · rw [if_pos answers.alloc, if_neg (not_not.mpr answers.write),
        if_neg (not_not.mpr answers.ready),
        if_neg (not_not.mpr answers.scc), if_neg (not_not.mpr answers.read)]
      exact (Request.receive_right_iff checked _).trans ⟨fun fits _ => fits, fun fits =>
        fits answers⟩
    · refine iff_of_true ?_ fun given => absurd given answers
      split
      · rename_i alloc
        split
        · rename_i failed
          exact Request.ends_right failed fun _ => checked
        rename_i write
        split
        · rename_i failed
          exact Request.ends_right failed fun _ => checked
        rename_i ready
        split
        · rename_i failed
          exact Request.ends_right failed fun _ => checked
        rename_i scc
        split
        · rename_i failed
          exact Request.ends_right failed fun _ => checked
        rename_i read
        exact absurd ⟨alloc, not_not.mp write, not_not.mp ready, not_not.mp scc,
          not_not.mp read⟩ answers
      · exact Request.ends_right (by decide) fun sent => absurd sent (by decide)
  · rw [if_neg checked, if_neg checked]
    exact Request.refused_right_iff

/-- A card that answers with a block full of zeros -/
def silent : Env :=
  { ready := true
    assd_state := 0
    alloc := true
    write_sec_cmd := 0
    wait_card_status := 0
    wait_scc := 0
    read_sec_cmd := 0
    memory := fun _ => 0
    block := fun _ => 0 }

/-- Almost 4 GiB are copied to a client with a buffer of 64 bytes. -/
theorem apdu_overrun :
    ¬(sdmmc_assd_apdu_devctl silent ⟨8, fun _ => 0x5a, 64⟩).Right ⟨8, fun _ => 0x5a, 64⟩ := by
  intro right
  exact absurd right.client (by decide)

end Mx6xBsp.Sdmmc.Assd
