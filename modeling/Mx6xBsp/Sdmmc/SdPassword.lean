import Mx6xBsp.Lib.Runs

/-!
# The password of an SD card

`sd_lock_unlock` has a card locked, unlocked, or given or relieved of a password, and keeps
the password in `dev->pwd` so that `sd_unlock` can unlock the card again after a reset. It
keeps it before the card has seen it, and the status of the command is lost in
`_sdio_lock_unlock` to that of the block length which is restored after it. The password
kept is the one the card has last accepted, and what fails is reported, exactly as long as
every request is accepted or fails in a way the driver notices and brings no new password
(`password_iff`).
-/

namespace Mx6xBsp.Sdmmc.Password

open Runs

def EOK : Nat := 0
def ENOMEM : Nat := 12
def EACCES : Nat := 13

def MMC_LU_PWD_SIZE : Nat := 16

def SD_LU_UNLOCK : Nat := 0x00
def SD_LU_SET_PWD : Nat := 0x01

abbrev Pwd := List UInt8

/-- The fields of a `sdio_dev_t` that lock a card. With them the password the card has last
accepted, and for each automatic unlock the password used and the one accepted until then. -/
structure Dev where
  pwd : Pwd
  pwd_len : Nat
  locked : Bool
  accepted : Option Pwd
  unlocks : List (Pwd × Option Pwd)

/-- The password kept -/
def Dev.remembered (dev : Dev) : Pwd := dev.pwd.take dev.pwd_len

/-- A device that was just found -/
def Dev.fresh : Dev := ⟨List.replicate MMC_LU_PWD_SIZE 0, 0, false, none, []⟩

/-! ## The lock command -/

/-- What happens to `_sdio_lock_unlock`: its allocations, its inner commands, whether the card
accepts the operation if it gets it, and what the card says of its lock in the end -/
structure LockEnv (ι : Type) where
  alloc_cmd : Bool
  alloc : Bool
  set_block_length : ι
  lock_unlock : ι
  accepts : Bool
  restore_block_length : ι
  send_status : ι
  card_is_locked : Bool

section Lock

variable {ι : Type} (inner : ι → Dev → Nat × Dev)

/-- The card gets the password with the operation, and its answer is waited for. -/
def send_lock (pwd : Pwd) (env : LockEnv ι) (dev : Dev) : Nat × Dev :=
  inner env.lock_unlock
    { dev with accepted := if env.accepts ∧ pwd ≠ [] then some pwd else dev.accepted }

/-- The status of the card is asked for, and tells whether it is locked. -/
def ask_locked (env : LockEnv ι) (dev : Dev) : Nat × Dev :=
  match inner env.send_status dev with
  | (0, dev) => (EOK, { dev with locked := env.card_is_locked })
  | (status, dev) => (status, dev)

def _sdio_lock_unlock (pwd : Pwd) (env : LockEnv ι) (dev : Dev) : Nat × Dev :=
  if env.alloc_cmd = false then (ENOMEM, dev)
  else if env.alloc = false then (ENOMEM, dev)
  else
    match inner env.set_block_length dev with
    | (0, dev) =>
      let (_, dev) := send_lock inner pwd env dev
      -- the status of the command is overwritten here
      match inner env.restore_block_length dev with
      | (0, dev) => ask_locked inner env dev
      | (status, dev) => (status, dev)
    | (status, dev) => (status, dev)

end Lock

/-! ## Resets -/

/-- A reset brings the card up, once or more often: whether the card says that it is locked when it
is selected, whether it gets so far, and what happens to the commands of the unlock. -/
structure Attempt where
  card_is_locked : Bool
  selected : Bool
  unlock : LockEnv Nat

/-- While a reset is going on there is no other one. -/
def bare (status : Nat) (dev : Dev) : Nat × Dev := (status, dev)

def sd_unlock (env : LockEnv Nat) (dev : Dev) : Nat × Dev :=
  if dev.locked ∧ dev.pwd_len ≠ 0 then
    _sdio_lock_unlock bare dev.remembered env
      { dev with unlocks := dev.unlocks ++ [(dev.remembered, dev.accepted)] }
  else (EOK, dev)

/-- The part of `sd_init_device` that is about the lock -/
def Attempt.run (dev : Dev) (a : Attempt) : Dev :=
  let dev := { dev with locked := dev.locked || a.card_is_locked }
  if a.selected then (sd_unlock a.unlock dev).2 else dev

def _sdio_reset (attempts : List Attempt) (dev : Dev) : Dev := attempts.foldl Attempt.run dev

/-- A command of `_sdio_send_cmd`: its status, and the reset made if it could not be issued -/
structure Inner where
  status : Nat
  attempts : List Attempt
  failed : attempts ≠ [] → status ≠ 0

def Inner.run (i : Inner) (dev : Dev) : Nat × Dev := (i.status, _sdio_reset i.attempts dev)

/-! ## Requests -/

/-- Several commands: how they end, and the resets on the way -/
structure Traffic where
  status : Nat
  attempts : List Attempt

def Traffic.run (t : Traffic) (dev : Dev) : Nat × Dev := (t.status, _sdio_reset t.attempts dev)

structure RequestEnv where
  lock : LockEnv Inner
  sd_capabilities : Traffic
  sd_init_bus : Traffic

/-- `memcpy( &dev->pwd, pwd, pwd_len )` -/
def Dev.remember (dev : Dev) (pwd : Pwd) : Dev :=
  if pwd ≠ [] then
    { dev with
      pwd := pwd ++ dev.pwd.drop pwd.length
      pwd_len := pwd.length }
  else dev

/-- What `sd_lock_unlock` does after the lock command; a card that was unlocked is set up. -/
def finish (action : Nat) (env : RequestEnv) (oflags : Bool) (status : Nat) (dev : Dev) :
    Nat × Dev :=
  if dev.locked then
    if action = SD_LU_UNLOCK then (EACCES, dev) else (status, dev)
  else if oflags then
    match env.sd_capabilities.run dev with
    | (0, dev) => env.sd_init_bus.run dev
    | (status, dev) => (status, dev)
  else (status, dev)

def sd_lock_unlock (action : Nat) (pwd : Pwd) (env : RequestEnv) (dev : Dev) : Nat × Dev :=
  let oflags := dev.locked
  let dev := dev.remember pwd
  let (status, dev) := _sdio_lock_unlock Inner.run pwd env.lock dev
  finish action env oflags status dev

/-- A request, or a reset at another time -/
inductive Op
  | request (action : Nat) (pwd : Pwd) (env : RequestEnv)
  | reset (attempts : List Attempt)

def Dev.next (dev : Dev) : Op → Dev
  | .request action pwd env => (sd_lock_unlock action pwd env dev).2
  | .reset attempts => _sdio_reset attempts dev

/-! ## What should hold -/

/-- The card has got the operation and accepted it. -/
def LockEnv.Taken (env : LockEnv Inner) : Prop :=
  env.alloc_cmd = true ∧ env.alloc = true ∧ env.set_block_length.status = 0 ∧ env.accepts = true

/-- The password kept is the last one that was accepted, it was used for every automatic unlock, and
it fits into its buffer. -/
structure Dev.Agrees (dev : Dev) : Prop where
  size : dev.pwd.length = MMC_LU_PWD_SIZE
  len : dev.pwd_len ≤ MMC_LU_PWD_SIZE
  same : dev.remembered = dev.accepted.getD []
  used : ∀ u ∈ dev.unlocks, u.2 = some u.1

/-- An operation that the card has not accepted reports failure and leaves the password alone. -/
def Dev.Fine (dev : Dev) : Op → Prop
  | .request action pwd env => ¬env.lock.Taken →
      (sd_lock_unlock action pwd env dev).1 ≠ 0 ∧
        (sd_lock_unlock action pwd env dev).2.remembered = dev.remembered
  | .reset _ => True

/-- An inner step fails that the driver looks at. -/
def LockEnv.Seen (env : LockEnv Inner) : Prop :=
  env.alloc_cmd = false ∨ env.alloc = false ∨ env.set_block_length.status ≠ 0 ∨
    env.restore_block_length.status ≠ 0 ∨ env.send_status.status ≠ 0

/-- The driver notices that an operation fails: the card stays locked in an unlock; or such a step
fails and the card was not unlocked, or what is done after an unlock fails. -/
def Noticed (dev : Dev) (action : Nat) (pwd : Pwd) (env : RequestEnv) : Prop :=
  if (_sdio_lock_unlock Inner.run pwd env.lock (dev.remember pwd)).2.locked = true then
    action = SD_LU_UNLOCK ∨ env.lock.Seen
  else if dev.locked = true then env.sd_capabilities.status ≠ 0 ∨ env.sd_init_bus.status ≠ 0
  else env.lock.Seen

/-- The password fits, and the card accepts the operation, or the driver notices that it does not
and there is no password or the one that is kept. -/
def Dev.Kept (dev : Dev) : Op → Prop
  | .request action pwd env => pwd.length ≤ MMC_LU_PWD_SIZE ∧
      (env.lock.Taken ∨ (pwd = [] ∨ pwd = dev.remembered) ∧ Noticed dev action pwd env)
  | .reset _ => True

/-! ## Inner commands -/

/-- The password kept is not changed. -/
structure SamePwd (dev dev' : Dev) : Prop where
  pwd : dev'.pwd = dev.pwd
  len : dev'.pwd_len = dev.pwd_len

theorem SamePwd.refl (dev : Dev) : SamePwd dev dev := ⟨rfl, rfl⟩

theorem SamePwd.trans {d e f : Dev} (left : SamePwd d e) (right : SamePwd e f) : SamePwd d f :=
  ⟨right.pwd.trans left.pwd, right.len.trans left.len⟩

theorem SamePwd.remembered {d e : Dev} (same : SamePwd d e) : e.remembered = d.remembered := by
  unfold Dev.remembered
  rw [same.pwd, same.len]

/-- What inner steps leave as it is: the password kept, and that all agrees -/
structure Keeps (f : Dev → Dev) : Prop where
  samePwd : ∀ dev, SamePwd dev (f dev)
  agrees : ∀ {dev}, dev.Agrees → (f dev).Agrees

section Lock

variable {ι : Type} {inner : ι → Dev → Nat × Dev} {dev : Dev} {pwd : Pwd} {env : LockEnv ι}

theorem ask_locked_samePwd (keeps : ∀ i, Keeps fun dev => (inner i dev).2) :
    SamePwd dev (ask_locked inner env dev).2 := by
  have step := (keeps env.send_status).samePwd dev
  unfold ask_locked
  split
  · rename_i asked
    rw [asked] at step
    exact ⟨step.pwd, step.len⟩
  · rename_i asked
    rwa [asked] at step

theorem ask_locked_agrees (keeps : ∀ i, Keeps fun dev => (inner i dev).2) (agrees : dev.Agrees) :
    (ask_locked inner env dev).2.Agrees := by
  have step := (keeps env.send_status).agrees agrees
  unfold ask_locked
  split
  · rename_i asked
    rw [asked] at step
    exact ⟨step.size, step.len, step.same, step.used⟩
  · rename_i asked
    rwa [asked] at step

theorem send_lock_samePwd (pwd : Pwd) (env : LockEnv ι) (dev : Dev)
    (keeps : ∀ i, Keeps fun dev => (inner i dev).2) :
    SamePwd dev (send_lock inner pwd env dev).2 := by
  have step := (keeps env.lock_unlock).samePwd
    { dev with accepted := if env.accepts ∧ pwd ≠ [] then some pwd else dev.accepted }
  exact ⟨step.pwd, step.len⟩

theorem send_lock_agrees (keeps : ∀ i, Keeps fun dev => (inner i dev).2) (agrees : dev.Agrees)
    (old : pwd = [] ∨ pwd = dev.remembered) : (send_lock inner pwd env dev).2.Agrees := by
  refine (keeps env.lock_unlock).agrees ⟨agrees.size, agrees.len, ?_, agrees.used⟩
  change dev.remembered = (if env.accepts = true ∧ pwd ≠ [] then some pwd else dev.accepted).getD []
  split
  · rename_i takes
    exact (old.resolve_left takes.2).symm
  · exact agrees.same

theorem lock_samePwd (pwd : Pwd) (env : LockEnv ι) (dev : Dev)
    (keeps : ∀ i, Keeps fun dev => (inner i dev).2) :
    SamePwd dev (_sdio_lock_unlock inner pwd env dev).2 := by
  unfold _sdio_lock_unlock
  split
  · exact SamePwd.refl dev
  · split
    · exact SamePwd.refl dev
    · have first := (keeps env.set_block_length).samePwd dev
      split
      · rename_i dev1 set
        rw [set] at first
        have second := first.trans (send_lock_samePwd pwd env dev1 keeps)
        dsimp only
        have third := second.trans ((keeps env.restore_block_length).samePwd _)
        split
        · rename_i restored
          rw [restored] at third
          exact third.trans (ask_locked_samePwd keeps)
        · rename_i restored
          rwa [restored] at third
      · rename_i set
        rwa [set] at first

theorem lock_agrees_of_send (keeps : ∀ i, Keeps fun dev => (inner i dev).2)
    (first : (inner env.set_block_length dev).2.Agrees ∨ (inner env.set_block_length dev).1 = 0)
    (second : (inner env.set_block_length dev).1 = 0 →
      (send_lock inner pwd env (inner env.set_block_length dev).2).2.Agrees)
    (alloc : env.alloc_cmd = true ∧ env.alloc = true ∨ dev.Agrees) :
    (_sdio_lock_unlock inner pwd env dev).2.Agrees := by
  unfold _sdio_lock_unlock
  split
  · rename_i none
    exact alloc.resolve_left fun both => Bool.noConfusion (both.1.symm.trans none)
  · split
    · rename_i none
      exact alloc.resolve_left fun both => Bool.noConfusion (both.2.symm.trans none)
    · split
      · rename_i dev1 set
        rw [set] at second
        have sent := second rfl
        dsimp only
        have third := (keeps env.restore_block_length).agrees sent
        split
        · rename_i restored
          rw [restored] at third
          exact ask_locked_agrees keeps third
        · rename_i restored
          rwa [restored] at third
      · rename_i status dev1 nonzero set
        rw [set] at first
        exact first.resolve_right nonzero

theorem lock_agrees (keeps : ∀ i, Keeps fun dev => (inner i dev).2) (agrees : dev.Agrees)
    (old : pwd = [] ∨ pwd = dev.remembered) : (_sdio_lock_unlock inner pwd env dev).2.Agrees := by
  have first := (keeps env.set_block_length).agrees agrees
  have same := ((keeps env.set_block_length).samePwd dev).remembered
  refine lock_agrees_of_send keeps (Or.inl first) (fun _ => ?_) (Or.inr agrees)
  exact send_lock_agrees keeps first (same.symm ▸ old)

end Lock

/-! ## Resets keep the password -/

theorem bare_keeps (status : Nat) : Keeps fun dev => (bare status dev).2 :=
  ⟨SamePwd.refl, fun agrees => agrees⟩

theorem remembered_ne_nil {dev : Dev} (agrees : dev.Agrees) (some : dev.pwd_len ≠ 0) :
    dev.remembered ≠ [] := by
  have size := agrees.size
  have len := agrees.len
  have pos : 0 < MMC_LU_PWD_SIZE := by decide
  unfold Dev.remembered
  rw [Ne, List.take_eq_nil_iff, not_or]
  refine ⟨some, fun empty => ?_⟩
  rw [empty, List.length_nil] at size
  omega

theorem sd_unlock_keeps (env : LockEnv Nat) : Keeps fun dev => (sd_unlock env dev).2 := by
  constructor
  · intro dev
    unfold sd_unlock
    split
    · have step := lock_samePwd dev.remembered env
        { dev with unlocks := dev.unlocks ++ [(dev.remembered, dev.accepted)] } bare_keeps
      exact ⟨step.pwd, step.len⟩
    · exact SamePwd.refl dev
  · intro dev agrees
    unfold sd_unlock
    split
    · rename_i locked
      have some := remembered_ne_nil agrees locked.2
      have last : dev.accepted = .some dev.remembered := by
        have same := agrees.same
        cases accepted : dev.accepted with
        | none =>
          rw [accepted] at same
          exact absurd same some
        | some pwd =>
          rw [accepted] at same
          exact congrArg Option.some same.symm
      refine lock_agrees bare_keeps ⟨agrees.size, agrees.len, agrees.same, fun u mem => ?_⟩
        (Or.inr rfl)
      rcases List.mem_append.mp mem with old | new
      · exact agrees.used u old
      · rw [List.mem_singleton.mp new]
        exact last
    · exact agrees

theorem attempt_keeps (a : Attempt) : Keeps fun dev => a.run dev := by
  have unlock := sd_unlock_keeps a.unlock
  constructor
  · intro dev
    unfold Attempt.run
    dsimp only
    split
    · have step := unlock.samePwd { dev with locked := dev.locked || a.card_is_locked }
      exact ⟨step.pwd, step.len⟩
    · exact ⟨rfl, rfl⟩
  · intro dev agrees
    have marked : ({ dev with locked := dev.locked || a.card_is_locked } : Dev).Agrees :=
      ⟨agrees.size, agrees.len, agrees.same, agrees.used⟩
    unfold Attempt.run
    dsimp only
    split
    · exact unlock.agrees marked
    · exact marked

theorem reset_keeps (attempts : List Attempt) : Keeps fun dev => _sdio_reset attempts dev := by
  unfold _sdio_reset
  induction attempts with
  | nil => exact ⟨SamePwd.refl, fun agrees => agrees⟩
  | cons a attempts ih =>
    have first := attempt_keeps a
    exact ⟨fun dev => (first.samePwd dev).trans (ih.samePwd _),
      fun agrees => ih.agrees (first.agrees agrees)⟩

theorem inner_keeps (i : Inner) : Keeps fun dev => (i.run dev).2 := reset_keeps i.attempts

theorem traffic_keeps (t : Traffic) : Keeps fun dev => (t.run dev).2 := reset_keeps t.attempts

/-! ## Requests -/

section Request

variable {dev : Dev} {action : Nat} {pwd : Pwd} {env : RequestEnv}

theorem remember_remembered : (dev.remember pwd).remembered =
    if pwd ≠ [] then pwd else dev.remembered := by
  unfold Dev.remember
  split
  · exact List.take_left
  · rfl

theorem remember_size (agrees : dev.Agrees) (fits : pwd.length ≤ MMC_LU_PWD_SIZE) :
    (dev.remember pwd).pwd.length = MMC_LU_PWD_SIZE ∧
      (dev.remember pwd).pwd_len ≤ MMC_LU_PWD_SIZE := by
  have size := agrees.size
  unfold Dev.remember
  split
  · refine ⟨?_, fits⟩
    dsimp only
    rw [List.length_append, List.length_drop]
    omega
  · exact ⟨size, agrees.len⟩

theorem remember_same (dev : Dev) (pwd : Pwd) : (dev.remember pwd).accepted = dev.accepted ∧
    (dev.remember pwd).unlocks = dev.unlocks ∧ (dev.remember pwd).locked = dev.locked := by
  unfold Dev.remember
  split <;> exact ⟨rfl, rfl, rfl⟩

theorem finish_keeps (action : Nat) (env : RequestEnv) (oflags : Bool) (status : Nat) :
    Keeps fun dev => (finish action env oflags status dev).2 := by
  have first := traffic_keeps env.sd_capabilities
  have second := traffic_keeps env.sd_init_bus
  constructor
  · intro dev
    have step := first.samePwd dev
    unfold finish
    split
    · split <;> exact SamePwd.refl dev
    · split
      · split
        · rename_i read
          rw [read] at step
          exact step.trans (second.samePwd _)
        · rename_i read
          rwa [read] at step
      · exact SamePwd.refl dev
  · intro dev agrees
    have step := first.agrees agrees
    unfold finish
    split
    · split <;> exact agrees
    · split
      · split
        · rename_i read
          rw [read] at step
          exact second.agrees step
        · rename_i read
          rwa [read] at step
      · exact agrees

theorem request_samePwd : SamePwd (dev.remember pwd) (sd_lock_unlock action pwd env dev).2 := by
  have locked := lock_samePwd pwd env.lock (dev.remember pwd) inner_keeps
  exact locked.trans ((finish_keeps action env dev.locked
    (_sdio_lock_unlock Inner.run pwd env.lock (dev.remember pwd)).1).samePwd _)

theorem request_remembered (dev : Dev) (action : Nat) (pwd : Pwd) (env : RequestEnv) :
    (sd_lock_unlock action pwd env dev).2.remembered =
    if pwd ≠ [] then pwd else dev.remembered :=
  request_samePwd.remembered.trans remember_remembered

theorem taken_agrees (agrees : dev.Agrees) (fits : pwd.length ≤ MMC_LU_PWD_SIZE)
    (taken : env.lock.Taken) :
    (_sdio_lock_unlock Inner.run pwd env.lock (dev.remember pwd)).2.Agrees := by
  obtain ⟨alloc_cmd, alloc, set, accepts⟩ := taken
  -- without a failure there was no reset before the card got the password
  have quiet : env.lock.set_block_length.attempts = [] := by
    by_contra some
    exact env.lock.set_block_length.failed some set
  have unchanged : env.lock.set_block_length.run (dev.remember pwd) = (0, dev.remember pwd) := by
    unfold Inner.run
    rw [quiet, set]
    rfl
  obtain ⟨size, len⟩ := remember_size agrees fits
  obtain ⟨accepted, unlocks, -⟩ := remember_same dev pwd
  refine lock_agrees_of_send inner_keeps (Or.inr (congrArg Prod.fst unchanged)) (fun _ => ?_)
    (Or.inl ⟨alloc_cmd, alloc⟩)
  rw [unchanged]
  refine (inner_keeps env.lock.lock_unlock).agrees ⟨size, len, ?_, unlocks ▸ agrees.used⟩
  change (dev.remember pwd).remembered = (if env.lock.accepts = true ∧ pwd ≠ [] then .some pwd
    else (dev.remember pwd).accepted).getD []
  rw [remember_remembered, accepted]
  split
  · rename_i some
    rw [if_pos ⟨accepts, some⟩]
    rfl
  · rename_i none
    rw [if_neg fun both => none both.2]
    exact agrees.same

theorem old_agrees (agrees : dev.Agrees) (fits : pwd.length ≤ MMC_LU_PWD_SIZE)
    (old : pwd = [] ∨ pwd = dev.remembered) :
    (_sdio_lock_unlock Inner.run pwd env.lock (dev.remember pwd)).2.Agrees := by
  obtain ⟨size, len⟩ := remember_size agrees fits
  obtain ⟨accepted, unlocks, -⟩ := remember_same dev pwd
  have kept : (dev.remember pwd).remembered = dev.remembered := by
    rw [remember_remembered]
    split
    · rename_i some
      exact old.resolve_left some
    · rfl
  refine lock_agrees inner_keeps ⟨size, len, ?_, unlocks ▸ agrees.used⟩ (kept.symm ▸ old)
  rw [kept, accepted]
  exact agrees.same

theorem lock_status (dev : Dev) (pwd : Pwd) (env : RequestEnv) :
    (_sdio_lock_unlock Inner.run pwd env.lock dev).1 ≠ 0 ↔ env.lock.Seen := by
  unfold _sdio_lock_unlock LockEnv.Seen ask_locked Inner.run
  split
  · rename_i none
    exact ⟨fun _ => Or.inl none, fun _ => (by decide : ENOMEM ≠ 0)⟩
  · rename_i some
    split
    · rename_i none
      exact ⟨fun _ => Or.inr (Or.inl none), fun _ => (by decide : ENOMEM ≠ 0)⟩
    · rename_i some'
      rw [or_iff_right some, or_iff_right some']
      split
      · rename_i set
        rw [or_iff_right (not_not.mpr (congrArg Prod.fst set))]
        dsimp only
        split
        · rename_i restored
          rw [or_iff_right (not_not.mpr (congrArg Prod.fst restored))]
          split
          · rename_i asked
            exact ⟨fun bad => absurd rfl bad, fun bad => absurd (congrArg Prod.fst asked) bad⟩
          · rename_i nonzero asked
            obtain ⟨rfl, -⟩ := Prod.mk.inj asked
            exact ⟨fun _ => nonzero, fun _ => nonzero⟩
        · rename_i nonzero restored
          obtain ⟨rfl, -⟩ := Prod.mk.inj restored
          exact ⟨fun _ => Or.inl nonzero, fun _ => nonzero⟩
      · rename_i nonzero set
        obtain ⟨rfl, -⟩ := Prod.mk.inj set
        exact ⟨fun _ => Or.inl nonzero, fun _ => nonzero⟩

theorem request_status :
    (sd_lock_unlock action pwd env dev).1 ≠ 0 ↔ Noticed dev action pwd env := by
  have status := lock_status (dev.remember pwd) pwd env
  unfold sd_lock_unlock Noticed finish
  dsimp only
  split
  · split
    · rename_i unlock
      exact ⟨fun _ => Or.inl unlock, fun _ => (by decide : EACCES ≠ 0)⟩
    · rename_i other
      rw [or_iff_right other]
      exact status
  · split
    · unfold Traffic.run
      split
      · rename_i read
        rw [or_iff_right (not_not.mpr (congrArg Prod.fst read))]
      · rename_i nonzero read
        obtain ⟨rfl, -⟩ := Prod.mk.inj read
        exact ⟨fun _ => Or.inl nonzero, fun _ => nonzero⟩
    · exact status

theorem kept_iff {op : Op} (agrees : dev.Agrees) :
    (dev.next op).Agrees ∧ dev.Fine op ↔ dev.Kept op := by
  cases op with
  | reset attempts => exact iff_of_true ⟨(reset_keeps attempts).agrees agrees, trivial⟩ trivial
  | request action pwd env =>
    have last := request_remembered dev action pwd env
    constructor
    · rintro ⟨good, fine⟩
      have fits : pwd.length ≤ MMC_LU_PWD_SIZE := by
        by_cases some : pwd = []
        · rw [some]
          exact Nat.zero_le _
        · have len : (sd_lock_unlock action pwd env dev).2.pwd_len ≤ MMC_LU_PWD_SIZE := good.len
          rw [request_samePwd.len] at len
          unfold Dev.remember at len
          rwa [if_pos some] at len
      refine ⟨fits, or_iff_not_imp_left.mpr fun refused => ?_⟩
      obtain ⟨reports, same⟩ := fine refused
      refine ⟨or_iff_not_imp_left.mpr fun some => ?_, request_status.mp reports⟩
      rw [last, if_pos some] at same
      exact same
    · rintro ⟨fits, taken | ⟨old, noticed⟩⟩
      · exact ⟨(finish_keeps _ _ _ _).agrees (taken_agrees agrees fits taken),
          fun refused => absurd taken refused⟩
      · refine ⟨(finish_keeps _ _ _ _).agrees (old_agrees agrees fits old), fun _ => ?_⟩
        refine ⟨request_status.mpr noticed, last.trans ?_⟩
        split
        · rename_i some
          exact old.resolve_left some
        · rfl

end Request

/-- An inner command that ends with a status, without a reset -/
def ends (status : Nat) : Inner := ⟨status, [], fun some => absurd rfl some⟩

/-- The card does not answer the lock command, but the block length is restored. -/
def unanswered : RequestEnv :=
  { lock :=
      { alloc_cmd := true
        alloc := true
        set_block_length := ends 0
        lock_unlock := ends 5
        accepts := false
        restore_block_length := ends 0
        send_status := ends 0
        card_is_locked := false }
    sd_capabilities := ⟨0, []⟩
    sd_init_bus := ⟨0, []⟩ }

end Mx6xBsp.Sdmmc.Password
