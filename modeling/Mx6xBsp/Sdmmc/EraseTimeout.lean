import Mx6xBsp.Lib.Checked
import Mx6xBsp.Sdmmc.Registers

/-!
# Time-outs of an erase

`mmc_erase_timeout` and `sd_erase_timeout` compute how long an erase may take from what
the card says of itself and from the number of blocks, and `_sdio_send_cmd` takes the
result as 32 bits. The group of an MMC device may have no blocks, and many blocks may
take longer than 32 bits of milliseconds tell; `erase_timeout_iff` says from which number
on.
-/

namespace Mx6xBsp.Sdmmc.Erase

open Checked

def MMC_ERASE_TIMEOUT : BitVec 32 := 300
def MMC_ERASE_TIMEOUT_MIN : BitVec 64 := 2000
def MMC_ERASE_GRP_512K : BitVec 64 := 0x80000
def SD_ERASE_TIMEOUT : BitVec 32 := 250

def ECSD_ERASE_MULT : Nat := 223
def ECSD_SEC_TRIM_MULT : Nat := 229
def ECSD_SEC_ERASE_MULT : Nat := 230
def ECSD_TRIM_MULT : Nat := 232

def MMC_ERASE_SECURE_TRIM_PURGE : BitVec 32 := 0x80008000
def MMC_ERASE_SECURE_TRIM : BitVec 32 := 0x80000001
def MMC_ERASE_SECURE : BitVec 32 := 0x80000000
def MMC_ERASE_DISCARD : BitVec 32 := 0x00000003
def MMC_ERASE_TRIM : BitVec 32 := 0x00000001

/-! ## MMC -/

/-- What is known of an MMC device: its EXT_CSD, and the fields read from it and from the CSD -/
structure MmcDev where
  raw_ecsd : Nat → BitVec 8
  erase_grp_def : BitVec 8
  hc_erase_group_size : BitVec 8
  erase_grp_size : BitVec 8
  erase_grp_mult : BitVec 8

def mmc_erase_grp_size (dev : MmcDev) : Calc (BitVec 64) :=
  if dev.erase_grp_def ≠ 0 then mul (dev.hc_erase_group_size.setWidth 64) MMC_ERASE_GRP_512K
  else do
    let size ← sadd (w := 31) (dev.erase_grp_size.setWidth 32) 1
    let mult ← sadd (w := 31) (dev.erase_grp_mult.setWidth 32) 1
    let blocks ← smul size mult
    let bytes ← smul blocks 512
    return bytes.setWidth 64

/-- A multiplier of the EXT_CSD as an `int` -/
def MmcDev.mult (dev : MmcDev) (index : Nat) : BitVec (31 + 1) := (dev.raw_ecsd index).setWidth 32

/-- The time for a group -/
def mmc_tmult (dev : MmcDev) (etype : BitVec 32) : Calc (BitVec (31 + 1)) :=
  if dev.erase_grp_def ≠ 0 then
    if etype = MMC_ERASE_TRIM ∨ etype = MMC_ERASE_DISCARD then
      smul MMC_ERASE_TIMEOUT (dev.mult ECSD_TRIM_MULT)
    else if etype = MMC_ERASE_SECURE then do
      let tmult ← smul MMC_ERASE_TIMEOUT (dev.mult ECSD_ERASE_MULT)
      smul tmult (dev.mult ECSD_SEC_ERASE_MULT)
    else if etype = MMC_ERASE_SECURE_TRIM ∨ etype = MMC_ERASE_SECURE_TRIM_PURGE then do
      let tmult ← smul MMC_ERASE_TIMEOUT (dev.mult ECSD_ERASE_MULT)
      smul tmult (dev.mult ECSD_SEC_TRIM_MULT)
    else smul MMC_ERASE_TIMEOUT (dev.mult ECSD_ERASE_MULT)
  else pure MMC_ERASE_TIMEOUT

def mmc_erase_timeout (dev : MmcDev) (etype : BitVec 32) (nlba : BitVec 64) : Calc (BitVec 64) := do
  let erase_grp_size ← mmc_erase_grp_size dev
  let erase_grp_size ← div erase_grp_size 512
  let tmult ← mmc_tmult dev etype
  let groups ← div nlba erase_grp_size
  let groups ← add groups 2
  let timeout ← mul (tmult.setWidth 64) groups
  return if timeout > MMC_ERASE_TIMEOUT_MIN then timeout else MMC_ERASE_TIMEOUT_MIN

/-! ## SD -/

/-- The fields of a `sd_sds_t` that time an erase -/
structure Sds where
  erase_timeout : BitVec 32
  erase_offset : BitVec 32

/-- What `sd_read_status` makes of an SD status -/
def sd_read_status (sds : Sds) (status : Response) : Calc Sds :=
  let au := sdioExtractBits status 512 428 4
  let e_size := sdioExtractBits status 512 408 16
  let e_offset := sdioExtractBits status 512 400 2
  let e_timeout := sdioExtractBits status 512 402 6
  if au ≠ 0 then
    if e_size ≠ 0 ∧ e_timeout ≠ 0 then do
      let erase_offset ← mul e_offset 1000
      let ms ← mul e_timeout 1000
      let erase_timeout ← div ms e_size
      return { erase_timeout, erase_offset }
    else pure sds
  else pure sds

def sd_erase_timeout (sds : Sds) (nlba : BitVec 32) : Calc (BitVec 64) :=
  if sds.erase_timeout ≠ 0 then do
    let timeout ← mul sds.erase_timeout nlba
    let timeout ← add timeout sds.erase_offset
    return timeout.setWidth 64
  else do
    let timeout ← mul SD_ERASE_TIMEOUT nlba
    return timeout.setWidth 64

/-- What `_sdio_send_cmd` gets -/
def handed (timeout : Calc (BitVec 64)) : Calc (BitVec 32) := do
  let timeout ← timeout
  narrow 32 timeout

/-- The time-out for a number of blocks is computed without dividing by zero and without a step that
wraps around or cuts off, and so it is for fewer blocks, where it is no longer. -/
def Sound {w : Nat} (timeout : BitVec w → Calc (BitVec 32)) (nlba : BitVec w) : Prop :=
  ∃ t, Exact (timeout nlba) t ∧ ∀ n ≤ nlba, ∃ s, Exact (timeout n) s ∧ s ≤ t

/-! ## What the computations give -/

/-- The blocks of an erase group -/
def MmcDev.group (dev : MmcDev) : Nat :=
  if dev.erase_grp_def ≠ 0 then 1024 * dev.hc_erase_group_size.toNat
  else (dev.erase_grp_size.toNat + 1) * (dev.erase_grp_mult.toNat + 1)

/-- By what the time for a group is multiplied -/
def MmcDev.multiplier (dev : MmcDev) (etype : BitVec 32) : Nat :=
  if dev.erase_grp_def ≠ 0 then
    if etype = MMC_ERASE_TRIM ∨ etype = MMC_ERASE_DISCARD then (dev.raw_ecsd ECSD_TRIM_MULT).toNat
    else if etype = MMC_ERASE_SECURE then
      (dev.raw_ecsd ECSD_ERASE_MULT).toNat * (dev.raw_ecsd ECSD_SEC_ERASE_MULT).toNat
    else if etype = MMC_ERASE_SECURE_TRIM ∨ etype = MMC_ERASE_SECURE_TRIM_PURGE then
      (dev.raw_ecsd ECSD_ERASE_MULT).toNat * (dev.raw_ecsd ECSD_SEC_TRIM_MULT).toNat
    else (dev.raw_ecsd ECSD_ERASE_MULT).toNat
  else 1

/-- The group has blocks, and there are fewer blocks than make 32 bits of milliseconds. -/
structure MmcDev.Fits (dev : MmcDev) (etype : BitVec 32) (nlba : Nat) : Prop where
  group : dev.erase_grp_def = 0 ∨ dev.hc_erase_group_size ≠ 0
  blocks : dev.multiplier etype = 0 ∨
    nlba < dev.group * ((2 ^ 32 - 1) / (300 * dev.multiplier etype) - 1)

/-- No more blocks than make 32 bits of milliseconds -/
def Sds.Fits (sds : Sds) (nlba : Nat) : Prop :=
  if sds.erase_timeout ≠ 0 then
    nlba ≤ (2 ^ 32 - 1 - sds.erase_offset.toNat) / sds.erase_timeout.toNat
  else nlba ≤ (2 ^ 32 - 1) / 250

theorem byte_toNat {w : Nat} (b : BitVec 8) (wide : 8 ≤ w) : (b.setWidth w).toNat = b.toNat :=
  BitVec.toNat_setWidth_of_le wide

theorem mul_lt {a b m n : Nat} (left : a < m) (right : b < n) : a * b < m * n :=
  Nat.mul_lt_mul'' left right

theorem exact_grp_size (dev : MmcDev) :
    ∃ size, Exact (mmc_erase_grp_size dev) size ∧ size.toNat = 512 * dev.group := by
  unfold mmc_erase_grp_size MmcDev.group
  split
  · have hc := dev.hc_erase_group_size.isLt
    obtain ⟨size, value⟩ := exists_toNat (w := 64)
      (n := 512 * (1024 * dev.hc_erase_group_size.toNat)) (by omega)
    refine ⟨size, exact_mul.mpr ?_, value⟩
    rw [byte_toNat _ (by decide), value, show MMC_ERASE_GRP_512K.toNat = 524288 from rfl]
    omega
  · have size_lt := dev.erase_grp_size.isLt
    have mult_lt := dev.erase_grp_mult.isLt
    have area : (dev.erase_grp_size.toNat + 1) * (dev.erase_grp_mult.toNat + 1) < 257 * 257 :=
      mul_lt (by omega) (by omega)
    obtain ⟨size, size_value⟩ := exists_toNat (w := 32) (n := dev.erase_grp_size.toNat + 1)
      (by omega)
    obtain ⟨mult, mult_value⟩ := exists_toNat (w := 32) (n := dev.erase_grp_mult.toNat + 1)
      (by omega)
    obtain ⟨blocks, blocks_value⟩ := exists_toNat (w := 32)
      (n := (dev.erase_grp_size.toNat + 1) * (dev.erase_grp_mult.toNat + 1)) (by omega)
    obtain ⟨bytes, bytes_value⟩ := exists_toNat (w := 32)
      (n := (dev.erase_grp_size.toNat + 1) * (dev.erase_grp_mult.toNat + 1) * 512) (by omega)
    refine ⟨bytes.setWidth 64, ?_, ?_⟩
    · simp only [exact_bind, exact_sadd, exact_smul, exact_pure]
      refine ⟨size, ⟨?_, ?_⟩, mult, ⟨?_, ?_⟩, blocks, ⟨?_, ?_⟩, bytes, ⟨?_, ?_⟩, rfl⟩
      all_goals
        simp only [byte_toNat _ (show 8 ≤ 32 by decide), size_value, mult_value, blocks_value,
          bytes_value, show BitVec.toNat (1 : BitVec (31 + 1)) = 1 from rfl,
          show BitVec.toNat (512 : BitVec (31 + 1)) = 512 from rfl]
      all_goals omega
    · rw [BitVec.toNat_setWidth_of_le (by decide), bytes_value]
      omega

theorem exact_once (b : BitVec 8) : ∃ t : BitVec (31 + 1),
    Exact (smul MMC_ERASE_TIMEOUT (b.setWidth 32)) t ∧ t.toNat = 300 * b.toNat := by
  have below := b.isLt
  obtain ⟨t, value⟩ := exists_toNat (w := 32) (n := 300 * b.toNat) (by omega)
  refine ⟨t, exact_smul.mpr ?_, value⟩
  rw [byte_toNat _ (by decide), value, show MMC_ERASE_TIMEOUT.toNat = 300 from rfl]
  omega

theorem exact_twice (b c : BitVec 8) : ∃ t : BitVec (31 + 1),
    Exact (do
      let tmult ← smul (w := 31) MMC_ERASE_TIMEOUT (b.setWidth 32)
      smul tmult (c.setWidth 32)) t ∧ t.toNat = 300 * (b.toNat * c.toNat) := by
  have product : b.toNat * c.toNat < 256 * 256 := mul_lt b.isLt c.isLt
  obtain ⟨s, first, s_value⟩ := exact_once b
  obtain ⟨t, value⟩ := exists_toNat (w := 32) (n := 300 * (b.toNat * c.toNat)) (by omega)
  refine ⟨t, exact_bind.mpr ⟨s, first, exact_smul.mpr ?_⟩, value⟩
  rw [byte_toNat _ (by decide), value, s_value, Nat.mul_assoc]
  omega

theorem exact_tmult (dev : MmcDev) (etype : BitVec 32) :
    ∃ tmult, Exact (mmc_tmult dev etype) tmult ∧ tmult.toNat = 300 * dev.multiplier etype := by
  unfold mmc_tmult MmcDev.multiplier MmcDev.mult
  split
  · split
    · exact exact_once _
    · split
      · exact exact_twice _ _
      · split
        · exact exact_twice _ _
        · exact exact_once _
  · exact ⟨_, exact_pure.mpr rfl, rfl⟩

theorem group_blocks {dev : MmcDev} {size : BitVec 64} (value : size.toNat = 512 * dev.group) :
    size.toNat / BitVec.toNat (512 : BitVec 64) = dev.group := by
  rw [value, show BitVec.toNat (512 : BitVec 64) = 512 from rfl,
    Nat.mul_div_cancel_left _ (by decide)]

theorem groups_lt {dev : MmcDev} {etype : BitVec 32} {n : Nat} (wide : n < 2 ^ 64)
    (some : dev.group ≠ 0) (room : 300 * dev.multiplier etype * (n / dev.group + 2) < 2 ^ 32) :
    n / dev.group + 2 < 2 ^ 64 := by
  unfold MmcDev.group MmcDev.multiplier at room
  unfold MmcDev.group at some ⊢
  by_cases def_ : dev.erase_grp_def ≠ 0
  · rw [if_pos def_] at some ⊢
    have large : n / (1024 * dev.hc_erase_group_size.toNat) ≤ n / 1024 :=
      Nat.div_le_div_left (by omega) (by decide)
    omega
  · rw [if_neg def_, if_neg def_] at room
    rw [if_neg def_]
    omega

theorem max_toNat (timeout : BitVec 64) :
    (if timeout > MMC_ERASE_TIMEOUT_MIN then timeout else MMC_ERASE_TIMEOUT_MIN).toNat =
      max timeout.toNat 2000 := by
  have least : MMC_ERASE_TIMEOUT_MIN.toNat = 2000 := rfl
  split
  · rename_i longer
    have := BitVec.lt_def.mp longer
    omega
  · rename_i shorter
    have := BitVec.not_lt.mp shorter
    have := BitVec.le_def.mp this
    omega

theorem exact_mmc (dev : MmcDev) (etype : BitVec 32) (n : BitVec 64) (t : BitVec 32) :
    Exact (handed (mmc_erase_timeout dev etype n)) t ↔
      (dev.group ≠ 0 ∧ 300 * dev.multiplier etype * (n.toNat / dev.group + 2) < 2 ^ 32) ∧
        t.toNat = max (300 * dev.multiplier etype * (n.toNat / dev.group + 2)) 2000 := by
  obtain ⟨size, grp, size_value⟩ := exact_grp_size dev
  obtain ⟨tmult, time, tmult_value⟩ := exact_tmult dev etype
  have blocks := group_blocks size_value
  unfold handed mmc_erase_timeout
  simp only [exact_bind, exact_div, exact_add, exact_mul, exact_pure, exact_narrow]
  constructor
  · rintro ⟨timeout, ⟨size', grp', egs, ⟨-, egs_value⟩, tmult', time', groups, ⟨some, groups_value⟩,
      more, ⟨-, more_value⟩, product, ⟨-, product_value⟩, rfl⟩, fits, value⟩
    obtain rfl := grp.unique grp'
    obtain rfl := time.unique time'
    rw [blocks] at egs_value
    rw [egs_value] at some groups_value
    rw [BitVec.toNat_setWidth_of_le (by decide), more_value, groups_value,
      tmult_value] at product_value
    rw [max_toNat, product_value] at fits value
    exact ⟨⟨some, (le_max_left _ _).trans_lt fits⟩, value⟩
  · rintro ⟨⟨some, room⟩, value⟩
    have groups_lt := groups_lt n.isLt some room
    obtain ⟨egs, egs_value⟩ := exists_toNat (w := 64) (n := dev.group)
      (by have := size.isLt; omega)
    obtain ⟨groups, groups_value⟩ := exists_toNat (w := 64) (n := n.toNat / dev.group) (by omega)
    obtain ⟨more, more_value⟩ := exists_toNat (w := 64) (n := n.toNat / dev.group + 2) groups_lt
    obtain ⟨product, product_value⟩ := exists_toNat (w := 64)
      (n := 300 * dev.multiplier etype * (n.toNat / dev.group + 2)) (by omega)
    refine ⟨_, ⟨size, grp, egs, ⟨by decide, by rw [blocks, egs_value]⟩, tmult, time, groups,
      ⟨by rwa [egs_value], by rw [egs_value, groups_value]⟩, more, ⟨?_, ?_⟩, product, ⟨?_, ?_⟩,
        rfl⟩,
      ?_, ?_⟩
    · rw [groups_value]
      exact groups_lt
    · rw [more_value, groups_value]
      rfl
    · rw [BitVec.toNat_setWidth_of_le (by decide), tmult_value, more_value]
      omega
    · rw [BitVec.toNat_setWidth_of_le (by decide), tmult_value, more_value, product_value]
    · rw [max_toNat, product_value]
      omega
    · rw [max_toNat, product_value]
      exact value

/-! ## SD -/

theorem sdioExtractBits_lt (data : Response) (bits start : Nat) {size : Nat} (short : size < 32) :
    (sdioExtractBits data bits start size).toNat < 2 ^ size := by
  have power : 2 ^ size < 2 ^ 32 := Nat.pow_lt_pow_right Nat.one_lt_two short
  have pos := Nat.two_pow_pos size
  unfold sdioExtractBits
  dsimp only
  have mask : (2 ^ size - 1) % 2 ^ 32 = 2 ^ size - 1 := Nat.mod_eq_of_lt (by omega)
  rw [BitVec.toNat_and, BitVec.toNat_ofNat, mask]
  exact Nat.lt_of_le_sub_one pos Nat.and_le_right

/-- Whatever the SD status is, it is read without a division by zero and without a wrap. -/
theorem exact_read_status (sds : Sds) (status : Response) :
    ∃ sds', Exact (sd_read_status sds status) sds' := by
  have offset_lt := sdioExtractBits_lt status 512 400 (by decide : 2 < 32)
  have timeout_lt := sdioExtractBits_lt status 512 402 (by decide : 6 < 32)
  have thousand : BitVec.toNat (1000 : BitVec 32) = 1000 := rfl
  unfold sd_read_status
  dsimp only
  split
  · split
    · rename_i some
      generalize sdioExtractBits status 512 400 2 = e_offset at offset_lt
      generalize sdioExtractBits status 512 402 6 = e_timeout at timeout_lt
      generalize sdioExtractBits status 512 408 16 = e_size at some
      obtain ⟨offset, offset_value⟩ := exists_toNat (w := 32) (n := e_offset.toNat * 1000)
        (by omega)
      obtain ⟨ms, ms_value⟩ := exists_toNat (w := 32) (n := e_timeout.toNat * 1000) (by omega)
      have quotient : ms.toNat / e_size.toNat ≤ ms.toNat := Nat.div_le_self _ _
      obtain ⟨each, each_value⟩ := exists_toNat (w := 32) (n := ms.toNat / e_size.toNat) (by omega)
      refine ⟨⟨each, offset⟩, ?_⟩
      simp only [exact_bind, exact_mul, exact_div, exact_pure, thousand]
      exact ⟨offset, ⟨by omega, offset_value⟩, ms, ⟨by omega, ms_value⟩, each,
        ⟨fun zero => some.1 (BitVec.eq_of_toNat_eq zero), each_value⟩, rfl⟩
    · exact ⟨_, exact_pure.mpr rfl⟩
  · exact ⟨_, exact_pure.mpr rfl⟩

/-- The time-out as a number -/
def Sds.value (sds : Sds) (n : Nat) : Nat :=
  if sds.erase_timeout ≠ 0 then sds.erase_timeout.toNat * n + sds.erase_offset.toNat else 250 * n

theorem Sds.fits_iff (sds : Sds) (n : Nat) : sds.Fits n ↔ sds.value n < 2 ^ 32 := by
  unfold Sds.Fits Sds.value
  split
  · rename_i some
    have pos : 0 < sds.erase_timeout.toNat :=
      Nat.pos_of_ne_zero fun zero => some (BitVec.eq_of_toNat_eq zero)
    have offset_lt := sds.erase_offset.isLt
    rw [Nat.le_div_iff_mul_le pos, Nat.mul_comm]
    omega
  · omega

theorem exact_sd (sds : Sds) (n t : BitVec 32) : Exact (handed (sd_erase_timeout sds n)) t ↔
    sds.Fits n.toNat ∧ t.toNat = sds.value n.toNat := by
  rw [sds.fits_iff]
  unfold handed sd_erase_timeout Sds.value
  simp only [exact_bind, exact_narrow]
  split
  · simp only [exact_bind, exact_mul, exact_add, exact_pure]
    constructor
    · rintro ⟨timeout, ⟨product, ⟨-, product_value⟩, sum, ⟨fits, sum_value⟩, rfl⟩, -, value⟩
      rw [product_value] at fits sum_value
      rw [BitVec.toNat_setWidth_of_le (by decide), sum_value] at value
      exact ⟨fits, value⟩
    · rintro ⟨fits, value⟩
      obtain ⟨product, product_value⟩ := exists_toNat (w := 32)
        (n := sds.erase_timeout.toNat * n.toNat) (by omega)
      refine ⟨_, ⟨product, ⟨by omega, product_value⟩, t, ⟨by omega, by omega⟩, rfl⟩, ?_, ?_⟩
      all_goals rw [BitVec.toNat_setWidth_of_le (by decide)]
      exact t.isLt
  · have each : SD_ERASE_TIMEOUT.toNat = 250 := rfl
    simp only [exact_bind, exact_mul, exact_pure, each]
    constructor
    · rintro ⟨timeout, ⟨product, ⟨fits, product_value⟩, rfl⟩, -, value⟩
      rw [BitVec.toNat_setWidth_of_le (by decide), product_value] at value
      exact ⟨fits, value⟩
    · rintro ⟨fits, value⟩
      refine ⟨_, ⟨t, ⟨fits, value⟩, rfl⟩, ?_, ?_⟩
      all_goals rw [BitVec.toNat_setWidth_of_le (by decide)]
      exact t.isLt

/-! ## The claim -/

theorem sound_iff {w : Nat} {timeout : BitVec w → Calc (BitVec 32)} (fits : Nat → Prop)
    (value : Nat → Nat)
    (exact_iff : ∀ n t, Exact (timeout n) t ↔ fits n.toNat ∧ t.toNat = value n.toNat)
    (fewer : ∀ {m n}, m ≤ n → fits n → fits m) (longer : ∀ {m n}, m ≤ n → value m ≤ value n)
    (room : ∀ {n}, fits n → value n < 2 ^ 32) (nlba : BitVec w) :
    Sound timeout nlba ↔ fits nlba.toNat := by
  constructor
  · rintro ⟨t, exact, -⟩
    exact ((exact_iff nlba t).mp exact).1
  · intro here
    obtain ⟨t, t_value⟩ := exists_toNat (w := 32) (room here)
    refine ⟨t, (exact_iff nlba t).mpr ⟨here, t_value⟩, fun n le => ?_⟩
    have below := BitVec.le_def.mp le
    have there := fewer below here
    obtain ⟨s, s_value⟩ := exists_toNat (w := 32) (room there)
    refine ⟨s, (exact_iff n s).mpr ⟨there, s_value⟩, BitVec.le_def.mpr ?_⟩
    rw [s_value, t_value]
    exact longer below

theorem group_ne_zero (dev : MmcDev) :
    dev.group ≠ 0 ↔ dev.erase_grp_def = 0 ∨ dev.hc_erase_group_size ≠ 0 := by
  have zero : dev.hc_erase_group_size = 0 ↔ dev.hc_erase_group_size.toNat = 0 :=
    BitVec.toNat_inj.symm
  have area : (dev.erase_grp_size.toNat + 1) * (dev.erase_grp_mult.toNat + 1) ≠ 0 :=
    Nat.mul_ne_zero (Nat.succ_ne_zero _) (Nat.succ_ne_zero _)
  unfold MmcDev.group
  split
  · rename_i def_
    constructor
    · intro some
      exact Or.inr fun none => some (by rw [zero.mp none])
    · intro either
      have := mt zero.mpr (either.resolve_left def_)
      omega
  · rename_i undef
    exact ⟨fun _ => Or.inl (not_not.mp undef), fun _ => area⟩

theorem room_iff {group time n : Nat} (some : group ≠ 0) :
    time * (n / group + 2) < 2 ^ 32 ↔ time = 0 ∨ n < group * ((2 ^ 32 - 1) / time - 1) := by
  rcases Nat.eq_zero_or_pos time with rfl | pos
  · rw [Nat.zero_mul]
    exact ⟨fun _ => Or.inl rfl, fun _ => by decide⟩
  · have whole : time * (n / group + 2) < 2 ^ 32 ↔ n / group + 2 ≤ (2 ^ 32 - 1) / time := by
      rw [Nat.le_div_iff_mul_le pos, Nat.mul_comm]
      omega
    have groups : n < group * ((2 ^ 32 - 1) / time - 1) ↔ n / group < (2 ^ 32 - 1) / time - 1 := by
      rw [Nat.div_lt_iff_lt_mul (Nat.pos_of_ne_zero some), Nat.mul_comm]
    rw [whole, groups]
    generalize n / group = q
    generalize (2 ^ 32 - 1) / time = k
    omega

theorem mmc_sound_iff (dev : MmcDev) (etype : BitVec 32) (nlba : BitVec 64) :
    Sound (fun n => handed (mmc_erase_timeout dev etype n)) nlba ↔ dev.Fits etype nlba.toNat := by
  have longer : ∀ {m n : Nat}, m ≤ n → 300 * dev.multiplier etype * (m / dev.group + 2) ≤
      300 * dev.multiplier etype * (n / dev.group + 2) := fun le =>
    Nat.mul_le_mul_left _ (Nat.add_le_add_right (Nat.div_le_div_right le) 2)
  rw [sound_iff
    (fun n => dev.group ≠ 0 ∧ 300 * dev.multiplier etype * (n / dev.group + 2) < 2 ^ 32)
    (fun n => max (300 * dev.multiplier etype * (n / dev.group + 2)) 2000)
    (exact_mmc dev etype) (fun le fits => ⟨fits.1, (longer le).trans_lt fits.2⟩)
    (fun le => max_le_max (longer le) le_rfl) fun fits => max_lt fits.2 (by decide)]
  constructor
  · rintro ⟨some, room⟩
    refine ⟨(group_ne_zero dev).mp some, ?_⟩
    rcases (room_iff some).mp room with none | below
    · exact Or.inl (by omega)
    · exact Or.inr below
  · rintro ⟨group, blocks⟩
    have some := (group_ne_zero dev).mpr group
    refine ⟨some, (room_iff some).mpr ?_⟩
    rcases blocks with none | below
    · exact Or.inl (by rw [none])
    · exact Or.inr below

theorem Sds.value_le (sds : Sds) {m n : Nat} (le : m ≤ n) : sds.value m ≤ sds.value n := by
  unfold Sds.value
  split
  · exact Nat.add_le_add_right (Nat.mul_le_mul_left _ le) _
  · exact Nat.mul_le_mul_left _ le

theorem sd_sound_iff (sds : Sds) (nlba : BitVec 32) :
    Sound (fun n => handed (sd_erase_timeout sds n)) nlba ↔ sds.Fits nlba.toNat := by
  refine sound_iff sds.Fits sds.value (exact_sd sds) ?_ ?_ ?_ nlba
  · intro m n le fits
    exact (sds.fits_iff m).mpr ((sds.value_le le).trans_lt ((sds.fits_iff n).mp fits))
  · exact fun le => sds.value_le le
  · exact fun fits => (sds.fits_iff _).mp fits

/-- For an MMC device of any contents, and for an SD card with any status, the time-out of an erase
is sound exactly up to a number of blocks that the contents give. -/
theorem erase_timeout_iff (dev : MmcDev) (etype : BitVec 32) (blocks : BitVec 64) (sds : Sds)
    (status : Response) (nlba : BitVec 32) :
    (Sound (fun n => handed (mmc_erase_timeout dev etype n)) blocks ↔
      dev.Fits etype blocks.toNat) ∧
    ∃ sds', Exact (sd_read_status sds status) sds' ∧
      (Sound (fun n => handed (sd_erase_timeout sds' n)) nlba ↔ sds'.Fits nlba.toNat) := by
  obtain ⟨sds', read⟩ := exact_read_status sds status
  exact ⟨mmc_sound_iff dev etype blocks, sds', read, sd_sound_iff sds' nlba⟩

/-- A card that says nothing of erases, and its first 8.8 GB -/
theorem erase_timeout_wraps :
    ¬ ∃ sds, Exact (sd_read_status ⟨0, 0⟩ fun _ => 0) sds ∧
      Sound (fun n => handed (sd_erase_timeout sds n)) 17179870 := by
  rintro ⟨sds, read, sound⟩
  obtain rfl : ⟨0, 0⟩ = sds := exact_pure.mp read
  have fits := (sd_sound_iff _ _).mp sound
  exact absurd ((Sds.fits_iff _ _).mp fits) (by decide)

end Mx6xBsp.Sdmmc.Erase
