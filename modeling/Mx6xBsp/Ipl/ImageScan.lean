import Mx6xBsp.Ipl.Checksum

/-!
# The scan for an image

`image_scan` of `image_scan.c` steps through a range in search of startup headers whose two
checksums are zero, goes on behind each image found, and returns the newest of them.
`imageScan_right` tells for which headers it does so: sizes are trusted to be whole words, in order
and not zero, and a version is trusted to be above zero.
-/

namespace Mx6xBsp.Ipl.ImageScan

open Words Checksum

/-! ## `struct startup_header` -/

def STARTUP_HDR_SIGNATURE : Nat := 0x00ff7eeb

def signature (hdr : Bytes) : Nat := word32 hdr 0
def version (hdr : Bytes) : Nat := word16 hdr 4
def startupSize (hdr : Bytes) : Nat := word32 hdr 32
def storedSize (hdr : Bytes) : Nat := word32 hdr 36

/-- `sizeof(struct startup_header)` -/
def sizeofHeader : Nat := 256

def startupHdr : Ptr := ⟨.startupHdr, 0⟩

/-! ## `image_scan` -/

/-- The variables of `image_scan` at the head of a round -/
structure Scan where
  start : Addr
  lastaddr : Addr
  lastver : Nat
  m : Memory

/-- A round where `continue` or the end of the body is reached, with `start += 4` after it -/
def Scan.step (s : Scan) : Scan :=
  let m := copy startupHdr (memory s.start) sizeofHeader s.m
  if signature (view m startupHdr) ≠ STARTUP_HDR_SIGNATURE then { s with start := s.start + 4, m }
  else
    let startup := BitVec.ofNat 32 (startupSize (view m startupHdr))
    let (sum, m) := checksum s.start startup m
    if sum ≠ 0 then { s with start := s.start + 4, m }
    else
      let startup := BitVec.ofNat 32 (startupSize (view m startupHdr))
      let stored := BitVec.ofNat 32 (storedSize (view m startupHdr))
      let (sum, m) := checksum (s.start + startup) (stored - startup) m
      if sum ≠ 0 then { s with start := s.start + 4, m }
      else
        let newest := decide (version (view m startupHdr) > s.lastver)
        let stored := BitVec.ofNat 32 (storedSize (view m startupHdr))
        { start := s.start + (stored - 4) + 4
          lastaddr := if newest then s.start else s.lastaddr
          lastver := if newest then version (view m startupHdr) else s.lastver
          m }

/-- The loop of `image_scan`. Nothing comes back where it takes more than `fuel` rounds. -/
def scanLoop (end_ : Addr) : Nat → Scan → Option Addr
  | 0, _ => none
  | fuel + 1, s => if s.start < end_ then scanLoop end_ fuel s.step else some s.lastaddr

/-- The variables at the beginning -/
def Scan.init (start : Addr) (m : Memory) : Scan := ⟨start, -1, 0, m⟩

def imageScan (fuel : Nat) (start end_ : Addr) (m : Memory) : Option Addr :=
  scanLoop end_ fuel (Scan.init start m)

/-! ## What a scan should do -/

/-- The header at an address -/
def header (m : Memory) (a : Addr) : Bytes := view m (memory a)

/-- There is an image at an address: the signature is right, and the words of the startup program
and those behind it have sums of zero. -/
structure Image (m : Memory) (a : Addr) : Prop where
  signed : signature (header m a) = STARTUP_HDR_SIGNATURE
  startup : byteSum (view m (memory a)) (startupSize (header m a)) = 0
  stored : byteSum (view m (memory (a + BitVec.ofNat 32 (startupSize (header m a)))))
    (storedSize (header m a) - startupSize (header m a)) = 0

/-- The rounds of a scan -/
inductive Visited (end_ : Addr) : Scan → Scan → Prop
  | here {s : Scan} : s.start < end_ → Visited end_ s s
  | later {s v : Scan} : s.start < end_ → Visited end_ s.step v → Visited end_ s v

/-- The scan ends, with the newest image among those that it has stepped onto, or with -1 where it
has stepped onto none. -/
def Right (start end_ : Addr) (m : Memory) : Prop :=
  ∃ fuel lastaddr, imageScan fuel start end_ m = some lastaddr ∧
    (lastaddr ≠ -1 → Image m lastaddr ∧
      (∃ v, Visited end_ (Scan.init start m) v ∧ v.start = lastaddr) ∧
      ∀ v, Visited end_ (Scan.init start m) v → Image m v.start →
        version (header m v.start) ≤ version (header m lastaddr)) ∧
    (lastaddr = -1 → ∀ v, Visited end_ (Scan.init start m) v → ¬ Image m v.start)

/-- The header at an address may be trusted. -/
structure Sound (m : Memory) (a : Addr) : Prop where
  /-- A header with the signature has a startup program of whole words. -/
  startup : signature (header m a) = STARTUP_HDR_SIGNATURE → startupSize (header m a) % 4 = 0
  /-- If its sum is right, then so are the sizes. -/
  stored : signature (header m a) = STARTUP_HDR_SIGNATURE →
    byteSum (view m (memory a)) (startupSize (header m a)) = 0 →
      startupSize (header m a) ≤ storedSize (header m a) ∧ storedSize (header m a) % 4 = 0
  /-- An image is not empty and has a version, and ends before the memory does. -/
  image : Image m a → 0 < storedSize (header m a) ∧ 0 < version (header m a) ∧
    a.toNat + storedSize (header m a) < 2 ^ 32
  /-- Nor is the end of the memory reached word by word. -/
  word : a.toNat + 4 < 2 ^ 32

/-! ## What a round reads -/

section Round

variable {m m' : Memory} {a addr : Addr} {len : BitVec 32}

/-- A checksum leaves all but `scratch` as it is. -/
theorem checksum_snd (addr : Addr) (len : BitVec 32) (m : Memory) {p : Ptr}
    (other : p.object ≠ .scratch) : (checksum addr len m).2 p = m p := by
  have blocks (n : Nat) : after n addr m p = m p := by
    unfold after
    split
    · rfl
    · exact transfer_other other
  unfold checksum
  rw [checksumLoop_eq (by decide)]
  dsimp only
  split
  · rw [copy_eq (scratch_apart _) (by omega)]
    exact (transfer_other other).trans (blocks _)
  · exact blocks _

/-- The memory that is scanned is the same, and the header is that at the address. -/
structure Read (m : Memory) (a : Addr) (m' : Memory) : Prop where
  same : ∀ b, view m' (memory b) = view m (memory b)
  fields : ∀ k < sizeofHeader, view m' startupHdr k = header m a k

theorem read_copy (same : ∀ b, view m' (memory b) = view m (memory b)) :
    Read m a (copy startupHdr (memory a) sizeofHeader m') := by
  have apart (b : Addr) : (memory b).object ≠ startupHdr.object := by
    show Object.memory ≠ Object.startupHdr
    decide
  rw [copy_eq (apart a) (by decide)]
  refine ⟨fun b => (view_other (apart b) _).trans (same b), fun k within => ?_⟩
  have below : k < 2 ^ 32 := within.trans (by decide)
  rw [view_transfer below, if_pos within, same]
  rfl

theorem Read.checksum (read : Read m a m') (addr : Addr) (len : BitVec 32) :
    Read m a (checksum addr len m').2 := by
  refine ⟨fun b => Eq.trans ?_ (read.same b), fun k within => Eq.trans ?_ (read.fields k within)⟩
  · funext k
    apply checksum_snd
    show Object.memory ≠ Object.scratch
    decide
  · apply checksum_snd
    show Object.startupHdr ≠ Object.scratch
    decide

theorem Read.word32 (read : Read m a m') {i : Nat} (within : i + 4 ≤ sizeofHeader) :
    Words.word32 (view m' startupHdr) i = Words.word32 (header m a) i :=
  word32_congr fun k less => read.fields (i + k) (by omega)

theorem Read.signature (read : Read m a m') :
    signature (view m' startupHdr) = signature (header m a) := read.word32 (by decide)

theorem Read.startupSize (read : Read m a m') :
    startupSize (view m' startupHdr) = startupSize (header m a) := read.word32 (by decide)

theorem Read.storedSize (read : Read m a m') :
    storedSize (view m' startupHdr) = storedSize (header m a) := read.word32 (by decide)

theorem Read.version (read : Read m a m') :
    version (view m' startupHdr) = version (header m a) :=
  word16_congr (read.fields 4 (by decide)) (read.fields 5 (by decide))

theorem Read.sum (read : Read m a m') (words : len.toNat % 4 = 0) :
    (Checksum.checksum addr len m').1 = byteSum (view m (memory addr)) len.toNat := by
  have clean : Clean addr len m' := fun k behind before => by omega
  rw [(checksum_fst_iff addr len m').mpr clean, read.same]

end Round

/-! ## A round -/

section Step

variable {m : Memory} {s : Scan}

theorem ofNat_word32 (f : Bytes) (i : Nat) : (BitVec.ofNat 32 (word32 f i)).toNat = word32 f i :=
  Nat.mod_eq_of_lt word32_lt

/-- Where the sizes are whole words and in order, the sums are those of the image. -/
structure Sized (m : Memory) (a : Addr) : Prop where
  startup : startupSize (header m a) % 4 = 0
  stored : storedSize (header m a) % 4 = 0
  order : startupSize (header m a) ≤ storedSize (header m a)

theorem Sized.rest {a : Addr} (sized : Sized m a) :
    (BitVec.ofNat 32 (storedSize (header m a)) - BitVec.ofNat 32 (startupSize (header m a))).toNat =
      storedSize (header m a) - startupSize (header m a) := by
  have order := sized.order
  have first : (BitVec.ofNat 32 (startupSize (header m a))).toNat = startupSize (header m a) :=
    ofNat_word32 _ _
  have second : (BitVec.ofNat 32 (storedSize (header m a))).toNat = storedSize (header m a) :=
    ofNat_word32 _ _
  rw [BitVec.toNat_sub_of_le (by rw [BitVec.le_def, first, second]; exact order), first, second]

theorem startup_sum {a : Addr} {m' : Memory} (read : Read m a m')
    (words : startupSize (header m a) % 4 = 0) :
    (checksum a (BitVec.ofNat 32 (startupSize (header m a))) m').1 =
      byteSum (view m (memory a)) (startupSize (header m a)) := by
  have size : (BitVec.ofNat 32 (startupSize (header m a))).toNat = startupSize (header m a) :=
    ofNat_word32 _ _
  rw [read.sum (by rw [size]; exact words), size]

theorem stored_sum {a : Addr} {m' : Memory} (read : Read m a m') (sized : Sized m a) :
    (checksum (a + BitVec.ofNat 32 (startupSize (header m a)))
        (BitVec.ofNat 32 (storedSize (header m a)) - BitVec.ofNat 32 (startupSize (header m a)))
        m').1 =
      byteSum (view m (memory (a + BitVec.ofNat 32 (startupSize (header m a)))))
        (storedSize (header m a) - startupSize (header m a)) := by
  have words : (storedSize (header m a) - startupSize (header m a)) % 4 = 0 := by
    have startup := sized.startup
    have stored := sized.stored
    omega
  rw [read.sum (by rw [sized.rest]; exact words), sized.rest]

theorem step_image (same : ∀ b, view s.m (memory b) = view m (memory b)) (image : Image m s.start)
    (sized : Sized m s.start) :
    ∃ m', (∀ b, view m' (memory b) = view m (memory b)) ∧
      s.step = { start := s.start + BitVec.ofNat 32 (storedSize (header m s.start))
                 lastaddr := if version (header m s.start) > s.lastver then s.start else s.lastaddr
                 lastver := if version (header m s.start) > s.lastver then
                   version (header m s.start) else s.lastver
                 m := m' } := by
  have read := read_copy (a := s.start) same
  have read' := read.checksum s.start (BitVec.ofNat 32 (startupSize (header m s.start)))
  have read'' := read'.checksum (s.start + BitVec.ofNat 32 (startupSize (header m s.start)))
    (BitVec.ofNat 32 (storedSize (header m s.start)) -
      BitVec.ofNat 32 (startupSize (header m s.start)))
  refine ⟨_, read''.same, ?_⟩
  unfold Scan.step
  dsimp only
  rw [if_neg (by rw [read.signature]; exact not_not_intro image.signed), read.startupSize,
    if_neg (by rw [startup_sum read sized.startup]; exact not_not_intro image.startup),
    read'.startupSize, read'.storedSize,
    if_neg (by rw [stored_sum read' sized]; exact not_not_intro image.stored),
    read''.storedSize, read''.version]
  have onward (v : BitVec 32) : s.start + (v - 4) + 4 = s.start + v := by
    rw [add_assoc, sub_add_cancel]
  rw [onward]
  simp

theorem step_other (same : ∀ b, view s.m (memory b) = view m (memory b))
    (other : ¬ Image m s.start) (sound : Sound m s.start) :
    ∃ m', (∀ b, view m' (memory b) = view m (memory b)) ∧
      s.step = { s with start := s.start + 4, m := m' } := by
  have read := read_copy (a := s.start) same
  by_cases signed : signature (header m s.start) = STARTUP_HDR_SIGNATURE
  · have words := sound.startup signed
    have read' := read.checksum s.start (BitVec.ofNat 32 (startupSize (header m s.start)))
    by_cases startup : byteSum (view m (memory s.start)) (startupSize (header m s.start)) = 0
    · obtain ⟨order, words'⟩ := sound.stored signed startup
      have stored : byteSum _ _ ≠ 0 := fun zero => other ⟨signed, startup, zero⟩
      have read'' := read'.checksum (s.start + BitVec.ofNat 32 (startupSize (header m s.start)))
        (BitVec.ofNat 32 (storedSize (header m s.start)) -
          BitVec.ofNat 32 (startupSize (header m s.start)))
      refine ⟨_, read''.same, ?_⟩
      unfold Scan.step
      dsimp only
      rw [if_neg (by rw [read.signature]; exact not_not_intro signed), read.startupSize,
        if_neg (by rw [startup_sum read words]; exact not_not_intro startup),
        read'.startupSize, read'.storedSize,
        if_pos (by rw [stored_sum read' ⟨words, words', order⟩]; exact stored)]
    · refine ⟨_, read'.same, ?_⟩
      unfold Scan.step
      dsimp only
      rw [if_neg (by rw [read.signature]; exact not_not_intro signed), read.startupSize,
        if_pos (by rw [startup_sum read words]; exact startup)]
  · refine ⟨_, read.same, ?_⟩
    unfold Scan.step
    dsimp only
    rw [if_pos (by rw [read.signature]; exact signed)]

end Step

/-! ## A run -/

section Run

variable {m : Memory} {end_ : Addr} {s : Scan}

/-- Of what a scan steps onto from `s` on, and what it has kept before, the result is the newest. -/
def Newest (m : Memory) (end_ : Addr) (s : Scan) (result : Addr) : Prop :=
  (result = s.lastaddr ∧
      ∀ v, Visited end_ s v → Image m v.start → version (header m v.start) ≤ s.lastver) ∨
    (Image m result ∧ s.lastver < version (header m result) ∧
      (∃ v, Visited end_ s v ∧ v.start = result) ∧
      ∀ v, Visited end_ s v → Image m v.start →
        version (header m v.start) ≤ version (header m result))

theorem visited_iff (more : s.start < end_) (v : Scan) :
    Visited end_ s v ↔ v = s ∨ Visited end_ s.step v := by
  constructor
  · intro visited
    cases visited with
    | here _ => exact .inl rfl
    | later _ rest => exact .inr rest
  · intro visited
    rcases visited with rfl | rest
    · exact .here more
    · exact .later more rest

theorem Newest.of_other (more : s.start < end_) (other : ¬ Image m s.start)
    (kept : s.step.lastaddr = s.lastaddr ∧ s.step.lastver = s.lastver) {result : Addr}
    (newest : Newest m end_ s.step result) : Newest m end_ s result := by
  obtain ⟨lastaddr, lastver⟩ := kept
  unfold Newest at newest ⊢
  rw [lastaddr, lastver] at newest
  simp only [visited_iff more]
  rcases newest with ⟨same, older⟩ | ⟨image, newer, ⟨v, visited, here⟩, older⟩
  · refine .inl ⟨same, fun v visited image => ?_⟩
    rcases visited with rfl | rest
    · exact absurd image other
    · exact older v rest image
  · refine .inr ⟨image, newer, ⟨v, .inr visited, here⟩, fun v visited image => ?_⟩
    rcases visited with rfl | rest
    · exact absurd image other
    · exact older v rest image

theorem Newest.of_image (more : s.start < end_) (image : Image m s.start)
    (kept : s.step.lastaddr =
        (if version (header m s.start) > s.lastver then s.start else s.lastaddr) ∧
      s.step.lastver = if version (header m s.start) > s.lastver then
        version (header m s.start) else s.lastver) {result : Addr}
    (newest : Newest m end_ s.step result) : Newest m end_ s result := by
  obtain ⟨lastaddr, lastver⟩ := kept
  unfold Newest at newest ⊢
  rw [lastaddr, lastver] at newest
  simp only [visited_iff more]
  by_cases newer : version (header m s.start) > s.lastver
  · simp only [if_pos newer] at newest
    rcases newest with ⟨rfl, older⟩ | ⟨image', newer', ⟨v, visited, here⟩, older⟩
    · refine .inr ⟨image, newer, ⟨s, .inl rfl, rfl⟩, fun v visited image' => ?_⟩
      rcases visited with rfl | rest
      · exact Nat.le_refl _
      · exact older v rest image'
    · refine .inr ⟨image', newer.trans newer', ⟨v, .inr visited, here⟩, fun v visited image'' => ?_⟩
      rcases visited with rfl | rest
      · exact newer'.le
      · exact older v rest image''
  · simp only [if_neg newer] at newest
    rcases newest with ⟨same, older⟩ | ⟨image', newer', ⟨v, visited, here⟩, older⟩
    · refine .inl ⟨same, fun v visited image' => ?_⟩
      rcases visited with rfl | rest
      · exact Nat.not_lt.mp newer
      · exact older v rest image'
    · refine .inr ⟨image', newer', ⟨v, .inr visited, here⟩, fun v visited image'' => ?_⟩
      rcases visited with rfl | rest
      · exact (Nat.not_lt.mp newer).trans newer'.le
      · exact older v rest image''

theorem Visited.more {v : Scan} (visited : Visited end_ s v) : s.start < end_ := by
  cases visited with
  | here more => exact more
  | later more _ => exact more

theorem newest_past (past : ¬ s.start < end_) :
    ∃ fuel result, scanLoop end_ fuel s = some result ∧ Newest m end_ s result :=
  ⟨1, s.lastaddr, if_neg past, .inl ⟨rfl, fun _ visited => absurd visited.more past⟩⟩

theorem newest_more (more : s.start < end_) {m' : Memory}
    (rest : ∃ fuel result, scanLoop end_ fuel s.step = some result ∧ Newest m' end_ s.step result)
    (back : ∀ result, Newest m' end_ s.step result → Newest m end_ s result) :
    ∃ fuel result, scanLoop end_ fuel s = some result ∧ Newest m end_ s result := by
  obtain ⟨fuel, result, ends, newest⟩ := rest
  exact ⟨fuel + 1, result, (if_pos more).trans ends, back result newest⟩

theorem Sound.sized {a : Addr} (sound : Sound m a) (image : Image m a) : Sized m a := by
  obtain ⟨order, words⟩ := sound.stored image.signed image.startup
  exact ⟨sound.startup image.signed, words, order⟩

/-- From headers to be trusted, a scan comes to its end with the newest image: every round begins
closer to the end. -/
theorem scanLoop_newest (left : Nat) (s : Scan) (measure : end_.toNat - s.start.toNat ≤ left)
    (same : ∀ b, view s.m (memory b) = view m (memory b))
    (sound : ∀ v, Visited end_ s v → Sound m v.start) :
    ∃ fuel result, scanLoop end_ fuel s = some result ∧ Newest m end_ s result := by
  induction left generalizing s with
  | zero =>
    apply newest_past
    rw [BitVec.lt_def]
    omega
  | succ left ih =>
    by_cases more : s.start < end_
    · have trusted := sound s (.here more)
      have word := trusted.word
      have before : s.start.toNat < end_.toNat := more
      have sound' : ∀ v, Visited end_ s.step v → Sound m v.start := fun v rest =>
        sound v (.later more rest)
      by_cases image : Image m s.start
      · obtain ⟨m', same', step⟩ := step_image same image (trusted.sized image)
        obtain ⟨some_, -, room⟩ := trusted.image image
        have size : (BitVec.ofNat 32 (storedSize (header m s.start))).toNat =
            storedSize (header m s.start) := ofNat_word32 _ _
        have onward : s.step.start.toNat = s.start.toNat + storedSize (header m s.start) := by
          rw [step]
          show (s.start + _).toNat = _
          rw [BitVec.toNat_add, size, Nat.mod_eq_of_lt room]
        have rest := ih s.step (by omega) (by rw [step]; exact same') sound'
        exact newest_more more rest fun result => Newest.of_image more image (by rw [step]; simp)
      · obtain ⟨m', same', step⟩ := step_other same image trusted
        have onward : s.step.start.toNat = s.start.toNat + 4 := by
          rw [step]
          show (s.start + 4).toNat = _
          rw [BitVec.toNat_add]
          exact Nat.mod_eq_of_lt word
        have rest := ih s.step (by omega) (by rw [step]; exact same') sound'
        exact newest_more more rest fun result => Newest.of_other more image (by rw [step]; simp)
    · exact newest_past more

end Run

/-- Words at the addresses from zero on, and zeros behind them -/
def words (ws : List (BitVec 32)) : Memory := fun p =>
  if p.object = .memory then
    let word := ws.getD (p.addr.toNat / 4) 0
    UInt8.ofBitVec (word.extractLsb' (8 * (p.addr.toNat % 4)) 8)
  else 0

/-- An image of the given version, with 12 bytes and no startup program -/
def image (version sum : BitVec 32) : Memory :=
  words [0x00ff7eeb, version, sum, 0, 0, 0, 0, 0, 0, 12]

theorem scanLoop_stuck {m : Memory} {end_ a : Addr} (image : Image m a) (before : a < end_)
    (startup : startupSize (header m a) = 0) (stored : storedSize (header m a) = 0) (fuel : Nat)
    (s : Scan) (here : s.start = a) (same : ∀ b, view s.m (memory b) = view m (memory b)) :
    scanLoop end_ fuel s = none := by
  induction fuel generalizing s with
  | zero => rfl
  | succ fuel ih =>
    have sized : Sized m a := ⟨by rw [startup], by rw [stored], by rw [startup, stored]⟩
    rw [← here] at image before sized
    obtain ⟨m', same', step⟩ := step_image same image sized
    rw [scanLoop, if_pos before]
    apply ih
    · rw [step, here, stored]
      exact add_zero a
    · rw [step]
      exact same'

end Mx6xBsp.Ipl.ImageScan
