import Mx6xBsp.Lib.Runs
import Mx6xBsp.Startup.RestoreIfs

/-!
# What `rifs_restore_ifs2` accepts

The restore info is read from memory that the last boot, or nothing at all, has
left behind. `rifs_restore_ifs2` takes it for genuine when its four words sum to
zero; it looks neither at the signature that `rifs_load_ifs2` stores in it, as
`check_rifs_signature` does for the other image, nor at the size it then sums
the image over. `restore_genuine_iff` says for which contents this is enough.
-/

namespace Mx6xBsp.Startup

open Words Runs

variable {L : ImageLayout} {st st' : RifsState} {mem mem' : Mem} {info dst : Nat}

/-- The image size the info records. -/
def infoSize (mem : Mem) (info : Nat) : Nat := word32 mem (infoImageSize info)

/-- The info reads as `rifs_load_ifs2` leaves it for the image at `dst`. -/
structure WrittenFor (L : ImageLayout) (mem : Mem) (info dst : Nat) : Prop where
  signature : standsAt mem info RIFS_SIGNATURE
  imageSize : infoSize mem info = word32 mem (dst + L.imageSize)
  cksum : rifsChecksum mem info sizeofRestoreIfs2Info = 0

/-- The info was written for the image at `dst`, which has a size, and the words of the whole
image sum to zero. -/
structure Genuine (L : ImageLayout) (mem : Mem) (info dst : Nat) : Prop where
  written : WrittenFor L mem info dst
  nonempty : 0 < infoSize mem info
  imageCksum : rifsChecksum mem dst (infoSize mem info : Int) = 0

/-- The contents on which the tests of `rifs_restore_ifs2` tell: one of them fails, or the info
carries the signature and the size of the image, and the size is one that the sum over the image
is really taken over. -/
inductive Telling (L : ImageLayout) (mem : Mem) (info dst : Nat) : Prop
  | noImage : checkIfsSignature L mem dst = false → Telling L mem info dst
  | infoCorrupt : rifsChecksum mem info sizeofRestoreIfs2Info ≠ 0 → Telling L mem info dst
  | imageCorrupt : infoSize mem info < 2147483648 →
    rifsChecksum mem dst (infoSize mem info : Int) ≠ 0 → Telling L mem info dst
  | signed : standsAt mem info RIFS_SIGNATURE → infoSize mem info = word32 mem (dst + L.imageSize) →
    0 < infoSize mem info →
    (infoSize mem info < 2147483648 ∨ rifsChecksum mem dst (infoSize mem info : Int) = 0) →
    Telling L mem info dst

theorem standsAt_iff {addr : Nat} {data : List UInt8} :
    standsAt mem addr data = true ↔ ∀ i, i < data.length → data.getD i 0 = mem (addr + i) := by
  simp [standsAt]

theorem standsAt_write {addr : Nat} {data : List UInt8} :
    standsAt (mem.write addr data) addr data = true := by
  rw [standsAt_iff]
  intro i hi
  unfold Mem.write
  rw [if_pos (by omega), Nat.add_sub_cancel_left]

theorem standsAt_congr {mem' : Mem} {addr : Nat} {data : List UInt8}
    (same : ∀ i, i < data.length → mem' (addr + i) = mem (addr + i)) :
    standsAt mem' addr data = standsAt mem addr data := by
  rw [Bool.eq_iff_iff, standsAt_iff, standsAt_iff]
  constructor
  · intro stands i hi
    rw [← same i hi]
    exact stands i hi
  · intro stands i hi
    rw [same i hi]
    exact stands i hi

/-- What `rifs_load_ifs2` stores is what `WrittenFor` says, if the info block and the header's
size field are apart. -/
theorem saveIfs2Info_written (apart : dst + L.imageSize + 4 ≤ info ∨
    info + sizeofRestoreIfs2Info ≤ dst + L.imageSize) :
    WrittenFor L (saveIfs2Info L mem info dst) info dst := by
  unfold sizeofRestoreIfs2Info at apart
  let signed := mem.write info RIFS_SIGNATURE
  let sized := put32 signed (infoImageSize info) (word32 signed (dst + L.imageSize))
  let blank := put32 sized (infoCksum info) 0
  have saved : saveIfs2Info L mem info dst =
      put32 blank (infoCksum info) (cksumOf (wordSum blank info 4)) := rfl
  rw [saved]
  refine ⟨?_, ?_, ?_⟩
  · refine (standsAt_congr fun i hi => ?_).trans (@standsAt_write mem _ _)
    change i < 8 at hi
    simp only [blank, sized, infoCksum, infoImageSize]
    rw [put32_of_ne (by omega), put32_of_ne (by omega), put32_of_ne (by omega)]
  · have header : word32 (put32 blank (infoCksum info) (cksumOf (wordSum blank info 4)))
        (dst + L.imageSize) = word32 signed (dst + L.imageSize) := by
      simp only [blank, sized, infoCksum, infoImageSize]
      rw [word32_put32_apart (by omega), word32_put32_apart (by omega),
        word32_put32_apart (by omega)]
    rw [header, infoSize]
    simp only [blank, sized, infoCksum, infoImageSize]
    rw [word32_put32_apart (by omega), word32_put32_apart (by omega), word32_put32]
    exact Nat.mod_eq_of_lt word32_lt
  · have zero : word32 blank (info + 4 * 2) = 0 := word32_put32.trans rfl
    exact wordSum_close (i := 2) (n := 4) (by decide) zero

theorem toLong_of_lt {n : Nat} (small : n < 2147483648) : toLong n = n := if_pos small

/-- A size of `2 ^ 31` or more is a negative length, over which nothing is summed. -/
theorem rifsChecksum_negative {n : Nat} (large : 2147483648 ≤ n) (bound : n < 4294967296) :
    rifsChecksum mem dst (toLong n) = 0 := by
  have none : ((toLong n).toNat + 3) / 4 = 0 := by
    unfold toLong
    rw [if_neg (by omega)]
    omega
  rw [rifsChecksum, none]
  rfl

/-- The tests of `rifs_restore_ifs2`. -/
structure Accepted (L : ImageLayout) (st : RifsState) (mem : Mem) (info : Nat) : Prop where
  image : checkIfsSignature L mem st.ifs2PaddrDst = true
  infoCksum : rifsChecksum mem info sizeofRestoreIfs2Info = 0
  imageCksum : st.has RIFS_FLAG_IFS2_CKSUM →
    rifsChecksum mem st.ifs2PaddrDst (toLong (infoSize mem info)) = 0

/-- What `rifs_restore_ifs2` leaves and answers. -/
theorem rifsRestoreIfs2_status {status : Int} (call : rifsRestoreIfs2 L st = .ok (st', status)) :
    ∃ ram info, allocRam st.ram NULL_PADDR sizeofRestoreIfs2Info 8 = .ok (ram, info) ∧
      st' = { st with ram := ram, rifs2Info := info } ∧
      (status = 0 ∧ Accepted L st ram.mem info ∨ status = -1 ∧ ¬ Accepted L st ram.mem info) := by
  obtain ⟨⟨ram, info⟩, alloc, call⟩ := Except.bind_eq_ok.mp call
  refine ⟨ram, info, alloc, ?_⟩
  dsimp only at call
  have flag : ({ st with ram := ram, rifs2Info := info } : RifsState).has RIFS_FLAG_IFS2_CKSUM =
      st.has RIFS_FLAG_IFS2_CKSUM := rfl
  rw [flag] at call
  split at call
  · rename_i tests
    obtain ⟨image, sum⟩ := tests
    split at call
    · split at call
      · rename_i on corrupt
        cases call
        exact ⟨rfl, Or.inr ⟨rfl, fun accepted => corrupt (accepted.imageCksum on)⟩⟩
      · rename_i on clean
        cases call
        exact ⟨rfl, Or.inl ⟨rfl, image, sum, fun _ => not_not.mp clean⟩⟩
    · rename_i off
      cases call
      exact ⟨rfl, Or.inl ⟨rfl, image, sum, fun on => absurd on off⟩⟩
  · rename_i tests
    cases call
    exact ⟨rfl, Or.inr ⟨rfl, fun accepted => tests ⟨accepted.image, accepted.infoCksum⟩⟩⟩

/-- With the checksum flag set, `rifs_restore_ifs2` reports success for a genuine image only, and
failure for anything else, exactly on the contents its tests can tell. -/
theorem restore_genuine_iff {ram : RamState} {status : Int}
    (cksum : st.has RIFS_FLAG_IFS2_CKSUM)
    (alloc : allocRam st.ram NULL_PADDR sizeofRestoreIfs2Info 8 = .ok (ram, info))
    (call : rifsRestoreIfs2 L st = .ok (st', status)) :
    ((status = 0 → Genuine L ram.mem info st.ifs2PaddrDst) ∧
      (¬ Genuine L ram.mem info st.ifs2PaddrDst → status = -1)) ↔
      Telling L ram.mem info st.ifs2PaddrDst := by
  obtain ⟨ram', info', alloc', _, answer⟩ := rifsRestoreIfs2_status call
  rw [alloc] at alloc'
  cases alloc'
  have sound : ((status = 0 → Genuine L ram.mem info st.ifs2PaddrDst) ∧
      (¬ Genuine L ram.mem info st.ifs2PaddrDst → status = -1)) ↔
      (Accepted L st ram.mem info → Genuine L ram.mem info st.ifs2PaddrDst) := by
    rcases answer with ⟨rfl, accepted⟩ | ⟨rfl, refused⟩
    · simp [accepted]
    · simp [refused]
  rw [sound]
  constructor
  · intro sound
    by_cases image : checkIfsSignature L ram.mem st.ifs2PaddrDst
    · by_cases sum : rifsChecksum ram.mem info sizeofRestoreIfs2Info = 0
      · by_cases whole : rifsChecksum ram.mem st.ifs2PaddrDst (toLong (infoSize ram.mem info)) = 0
        · obtain ⟨⟨signature, size, _⟩, nonempty, imageCksum⟩ := sound ⟨image, sum, fun _ => whole⟩
          exact .signed signature size nonempty (Or.inr imageCksum)
        · have small : infoSize ram.mem info < 2147483648 := by
            by_contra large
            exact whole (rifsChecksum_negative (Nat.le_of_not_lt large) word32_lt)
          rw [toLong_of_lt small] at whole
          exact .imageCorrupt small whole
      · exact .infoCorrupt sum
    · exact .noImage (Bool.eq_false_iff.mpr image)
  · rintro telling ⟨image, sum, whole⟩
    have whole := whole cksum
    cases telling with
    | noImage none =>
      rw [image] at none
      cases none
    | infoCorrupt corrupt => exact (corrupt sum).elim
    | imageCorrupt small corrupt =>
      rw [toLong_of_lt small] at whole
      exact (corrupt whole).elim
    | signed signature size nonempty summed =>
      refine ⟨⟨signature, size, sum⟩, nonempty, ?_⟩
      rcases summed with small | summed
      · rwa [toLong_of_lt small] at whole
      · exact summed

/-- The values of `sys/image.h`, `sys/startup.h` and of 32-bit ELF files. -/
def imageLayout : ImageLayout where
  imageSignature := [105, 109, 97, 103, 101, 102, 115]
  imageSize := 8
  compressMask := 0x1c
  elfMagic := [127, 69, 76, 70]
  ePhoff := 28
  ePhnum := 44
  ePhentsize := 42
  pType := 0
  pOffset := 4
  pFilesz := 16
  pFlags := 24
  ptLoad := 1
  pfW := 2

/-- A boot that restores and sums a second image at `0x30000000`, with a page of free memory at
`0x20000000` and the image of 16 bytes in place. -/
def ifs2State : RifsState where
  ram :=
    { ramList := [⟨0x20000000, 0x1000⟩, ⟨0, 0⟩], avoidList := [⟨0, 0⟩], wsEarlyNext := 0,
      tempSyspage := NULL_PADDR, sysramAdded := false, asinfo := ⟨[], 0⟩, secureSystem := false,
      mem := put32 (put32 (put32 (put32 (fun _ => 0) 0x30000000 0x67616d69) 0x30000004 0x736665)
        0x30000008 16) 0x3000000c 0x982b2c22 }
  shdr := ⟨0, 0, 0, 0, 0⟩
  rifsFlag := 0x5c
  rifsInfo := 0
  rifs2Info := 0
  ifs2PaddrSrc := 0
  ifs2PaddrDst := 0x30000000
  ifs2Size := 0x1000
  mdriverMax := none

/-- The same boot with the restore info that `rifs_load_ifs2` leaves for this image. -/
def ifs2Written : RifsState :=
  ifs2State.setMem (saveIfs2Info imageLayout ifs2State.mem 0x20000000 0x30000000)

theorem restore_genuine_iff_written : ∃ ram st',
    allocRam ifs2Written.ram NULL_PADDR sizeofRestoreIfs2Info 8 = .ok (ram, 0x20000000) ∧
      rifsRestoreIfs2 imageLayout ifs2Written = .ok (st', 0) ∧
      Genuine imageLayout ram.mem 0x20000000 ifs2Written.ifs2PaddrDst := by
  obtain ⟨⟨ram, info⟩, alloc, kept⟩ := Except.exists_of_map
    (x := allocRam ifs2Written.ram NULL_PADDR sizeofRestoreIfs2Info 8)
    (f := fun r => (r.2, standsAt r.1.mem 0x20000000 RIFS_SIGNATURE,
      infoSize r.1.mem 0x20000000, word32 r.1.mem 0x30000008))
    (b := (0x20000000, true, 16, 16)) (by decide +kernel)
  obtain ⟨⟨st', status⟩, call, success⟩ := Except.exists_of_map
    (x := rifsRestoreIfs2 imageLayout ifs2Written) (f := Prod.snd) (b := 0) (by decide +kernel)
  simp only [Prod.mk.injEq] at kept success
  obtain ⟨rfl, signature, size, header⟩ := kept
  subst success
  have telling : Telling imageLayout ram.mem 0x20000000 ifs2Written.ifs2PaddrDst :=
    .signed signature (size.trans header.symm) (by omega) (Or.inl (by omega))
  exact ⟨ram, st', alloc, call, ((restore_genuine_iff rfl alloc call).mpr telling).1 rfl⟩

/-- The restore info is all zero, as memory may be after power-up, and it is accepted. -/
theorem restore_zero_info : ¬ ∀ (L : ImageLayout) (st st' : RifsState) (status : Int),
    st.has RIFS_FLAG_IFS2_CKSUM → rifsRestoreIfs2 L st = .ok (st', status) → status = 0 →
      Genuine L st'.ram.mem st'.rifs2Info st.ifs2PaddrDst := by
  intro claimed
  obtain ⟨⟨st', status⟩, call, answer⟩ := Except.exists_of_map
    (x := rifsRestoreIfs2 imageLayout ifs2State)
    (f := fun r => (r.2, standsAt r.1.ram.mem r.1.rifs2Info RIFS_SIGNATURE))
    (b := (0, false)) (by decide +kernel)
  simp only [Prod.mk.injEq] at answer
  obtain ⟨success, unsigned⟩ := answer
  have genuine := claimed imageLayout ifs2State st' status rfl call success
  rw [genuine.written.signature] at unsigned
  cases unsigned

/-! ## The restore info of the bootable image -/

/-- The info block has its signature, and no checksum yet. -/
structure Unsummed (mem : Mem) (info : Nat) : Prop where
  signature : standsAt mem info RIFS_SIGNATURE = true
  cksum : word32 mem (infoCksum info) = 0

theorem Unsummed.put32 (unsummed : Unsummed mem info) {a v : Nat} (behind : info + 12 ≤ a) :
    Unsummed (put32 mem a v) info where
  signature := by
    refine (standsAt_congr fun i below => ?_).trans unsummed.signature
    change i < 8 at below
    exact put32_of_ne (by omega)
  cksum := by
    unfold infoCksum
    rw [word32_put32_apart (by omega)]
    exact unsummed.cksum

theorem unsummed_rifsInit : Unsummed (rifsInit mem info) info := by
  have signed : Unsummed (Words.put32 (mem.write info RIFS_SIGNATURE) (infoCksum info) 0) info := by
    refine ⟨(standsAt_congr fun i below => ?_).trans (@standsAt_write mem _ _), word32_put32⟩
    change i < 8 at below
    unfold infoCksum
    exact put32_of_ne (by omega)
  have count : info + 12 ≤ infoNumboot info := by unfold infoNumboot; omega
  refine List.foldlRecOn (motive := (Unsummed · info)) _ _
    ((signed.put32 count).put32 (Nat.le_refl _)) fun _ unsummed i _ => ?_
  have entry : info + 12 ≤ infoElf info i := by unfold infoElf; omega
  exact ((unsummed.put32 entry).put32 (by omega)).put32 (by omega)

/-- `rifs_save_elf32data` for an executable: where it is, its offset, its number -/
def SaveStep (L : ImageLayout) (st : RifsState) (exec : Nat × Nat × Nat) (st' : RifsState) : Prop :=
  ∃ status, rifsSaveElf32data L st exec.1 exec.2.1 exec.2.2 = .ok (st', status)

/-- The state between `rifs_init` and `rifs_set_cksum` for an image that is not compressed. -/
structure Saving (L : ImageLayout) (info : Nat) (st : RifsState) : Prop where
  place : st.rifsInfo = info
  plain : st.shdr.flags1 &&& L.compressMask = 0
  unsummed : Unsummed st.mem info

theorem Saving.step {exec : Nat × Nat × Nat} (saving : Saving L info st)
    (save : SaveStep L st exec st') : Saving L info st' := by
  obtain ⟨status, save⟩ := save
  unfold rifsSaveElf32data at save
  split at save
  · cases save
    exact saving
  · split at save
    · cases save
      exact saving
    · dsimp only at save
      split at save
      · rename_i compressed
        exact absurd saving.plain compressed
      · cases save
        obtain ⟨rfl, plain, unsummed⟩ := saving
        have count : st.rifsInfo + 12 ≤ infoNumboot st.rifsInfo := by unfold infoNumboot; omega
        have entry : st.rifsInfo + 12 ≤ infoElf st.rifsInfo exec.2.2 := by unfold infoElf; omega
        exact ⟨rfl, plain, ((unsummed.put32 count).put32 entry).put32 (by omega)⟩

/-- After any run of saves, `rifs_set_cksum` leaves info that `check_rifs_signature` accepts, and
of the blocks that differ from it in one word at most it accepts no other. -/
theorem rifsSetCksum_tells {execs : List (Nat × Nat × Nat)} {ifsHdr i : Nat}
    (plain : st.shdr.flags1 &&& L.compressMask = 0)
    (saves : Run (SaveStep L) (st.setMem (rifsInit st.mem st.rifsInfo)) execs st')
    (within : i < 20) (same : ∀ j < 80, j < 4 * i ∨ 4 * i + 4 ≤ j →
      mem' (st.rifsInfo + j) = (rifsSetCksum L st' ifsHdr).mem (st.rifsInfo + j)) :
    checkRifsSignature mem' st.rifsInfo = true ↔
      word32 mem' (st.rifsInfo + 4 * i) =
        word32 (rifsSetCksum L st' ifsHdr).mem (st.rifsInfo + 4 * i) := by
  obtain ⟨place, -, unsummed⟩ := saves.invariant (I := Saving L st.rifsInfo) Saving.step
    ⟨rfl, plain, unsummed_rifsInit⟩
  have sized := unsummed.put32 (v := word32 st'.mem (ifsHdr + L.imageSize)) (Nat.le_refl _)
  generalize st.rifsInfo = info at *
  subst place
  have closed : wordSum (rifsSetCksum L st' ifsHdr).mem st'.rifsInfo 20 = 0 :=
    wordSum_close (i := 2) (by decide) sized.cksum
  have stands : standsAt (rifsSetCksum L st' ifsHdr).mem st'.rifsInfo RIFS_SIGNATURE := by
    refine (standsAt_congr fun k below => ?_).trans sized.signature
    change k < 8 at below
    exact put32_of_ne (by unfold infoCksum; omega)
  generalize (rifsSetCksum L st' ifsHdr).mem = saved at *
  have change := wordSum_change within same
  rw [closed] at change
  have := @word32_lt mem' (st'.rifsInfo + 4 * i)
  have := @word32_lt saved (st'.rifsInfo + 4 * i)
  rw [checkRifsSignature, Bool.and_eq_true, beq_iff_eq]
  constructor
  · rintro ⟨-, sum⟩
    change wordSum mem' st'.rifsInfo 20 = 0 at sum
    omega
  · intro equal
    refine ⟨(standsAt_congr fun k below => ?_).trans stands, ?_⟩
    · change k < 8 at below
      by_cases outside : k < 4 * i ∨ 4 * i + 4 ≤ k
      · exact same k (by omega) outside
      · have byte := word32_inj equal (k - 4 * i) (by omega)
        rwa [show st'.rifsInfo + 4 * i + (k - 4 * i) = st'.rifsInfo + k by omega] at byte
    · have := wordSum_lt (f := mem') (a := st'.rifsInfo) (n := 20)
      change wordSum mem' st'.rifsInfo 20 = 0
      omega
theorem rifsSetCksum_tells_blank : ∃ st', Run (SaveStep imageLayout)
    (ifs2State.setMem (rifsInit ifs2State.mem 0)) [(0x40000000, 0, 0)] st' ∧
      checkRifsSignature (rifsSetCksum imageLayout st' 0x30000000).mem 0 = true := by
  have run : Run (SaveStep imageLayout) (ifs2State.setMem (rifsInit ifs2State.mem 0))
      [(0x40000000, 0, 0)] (ifs2State.setMem (rifsInit ifs2State.mem 0)) := .single ⟨-1, rfl⟩
  exact ⟨_, run, (rifsSetCksum_tells (i := 0) rfl run (by decide) fun _ _ _ => rfl).mpr rfl⟩

end Mx6xBsp.Startup
