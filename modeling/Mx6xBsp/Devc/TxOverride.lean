import Mx6xBsp.Devc.TxDmaRuns

/-!
# Control characters ahead of stopped output

`tx_inject` puts a control character at the head of the output buffer and sets
`OSW_PAGED_OVERRIDE`, so that it goes out even while the output is stopped. The
loop of `tto` without DMA sends it and ends. The loop with DMA takes it as well,
and clears the flag, but the test behind the loop, whether to start a transfer,
knows nothing of it. `oob_iff` says when the two paths agree.
-/

namespace Mx6xBsp.Devc

variable {β : Type} {io : IoChar β}

/-- A control character is at the head of the output buffer. -/
structure OobPending (io : IoChar β) (dev : TxDev β) : Prop where
  override : dev.override = true
  there : 0 < io.cnt dev.obuf
  size : dev.buf.length = DMA_XFER_SIZE

/-- What a call of `tto` comes to: it waits for the transfer that is running, looks for a transfer
to start, or writes to the UART itself. -/
inductive TtoPath
  | wait | dma | pio

def ttoPath (env : TtoEnv) (dev : TxDev β) : TtoPath :=
  if dev.usedma then
    if dev.txXferActive then if env.data && env.tmrZero then .pio else .wait
    else .dma
  else .pio

/-- The call hands `out` over: the control character first, and once, and nothing behind it while
the output is stopped. -/
structure Injected (io : IoChar β) (env : TtoEnv) (dev dev' : TxDev β) (out : Bytes) : Prop where
  stream : io.stream dev.obuf = out ++ io.stream dev'.obuf
  some : out ≠ []
  cleared : dev'.override = false
  untouched : (∀ k, env.paged k = true) → out.length = 1

/-- The call hands nothing over, and the control character is still at the head. -/
structure Kept (dev dev' : TxDev β) (out : Bytes) : Prop where
  obuf : dev'.obuf = dev.obuf
  override : dev'.override = dev.override
  nothing : out = []

/-- What was sent when a call comes to writing to the UART, a transfer that timed out being cut. -/
def TxDev.before (env : TtoEnv) (dev : TxDev β) : Bytes :=
  if dev.usedma then dev.sent ++ dev.transfer.take env.partDone else dev.sent

/-- The control character is handed over, behind what is in `tx_dma.buf` already, or kept: where a
transfer is running, where the FIFO is full, and where `tx_dma.buf` is full and now sent. -/
def OobRight (io : IoChar β) (env : TtoEnv) (dev : TxDev β) (byteCnt : Nat) : Prop :=
  let dev' := (tto io env dev byteCnt).1
  match ttoPath env dev with
  | .wait => dev' = dev
  | .dma => ∃ out, dev'.txXferActive = true ∧ dev'.transfer = dev.buf.take byteCnt ++ out ∧
      if byteCnt < DMA_XFER_SIZE then Injected io env dev dev' out else Kept dev dev' out
  | .pio => ∃ out, dev'.sent = dev.before env ++ out ∧
      if 0 < env.trdy then Injected io env dev dev' out else Kept dev dev' out

/-! ## Without DMA -/

theorem ttoPio_right {env : TtoEnv} {dev : TxDev β} (pending : OobPending io dev) (k : Nat) :
    ∃ out, (ttoPio io env env.trdy k dev).sent = dev.sent ++ out ∧
      if 0 < env.trdy then Injected io env dev (ttoPio io env env.trdy k dev) out
      else Kept dev (ttoPio io env env.trdy k dev) out := by
  cases ready : env.trdy with
  | zero => exact ⟨[], (List.append_nil _).symm, rfl, rfl, rfl⟩
  | succ trdy =>
    have sends : ttoPio io env (trdy + 1) k dev =
        { dev with
          obuf := (io.ttoGetchar dev.obuf).2
          sent := dev.sent ++ [(io.ttoGetchar dev.obuf).1]
          override := false } := by
      unfold ttoPio
      rw [if_pos pending.there, pending.override]
      simp
    rw [sends]
    refine ⟨[(io.ttoGetchar dev.obuf).1], rfl, ?_⟩
    rw [if_pos (Nat.zero_lt_succ trdy)]
    exact ⟨io.getchar_stream dev.obuf pending.there, List.cons_ne_nil _ _, rfl, fun _ => rfl⟩

/-! ## With DMA -/

/-- The loop has put `out` behind the first `n` bytes of `tx_dma.buf`. -/
structure Filled (io : IoChar β) (dev dev' : TxDev β) (n n' : Nat) (out : Bytes) : Prop where
  size : dev'.buf.length = dev.buf.length
  count : n' = n + out.length
  bytes : dev'.buf.take n' = dev.buf.take n ++ out
  stream : io.stream dev.obuf = out ++ io.stream dev'.obuf
  active : dev'.txXferActive = dev.txXferActive
  cleared : dev.override = false → dev'.override = false

theorem Filled.refl (dev : TxDev β) (n : Nat) : Filled io dev dev n n [] where
  size := rfl
  count := rfl
  bytes := (List.append_nil _).symm
  stream := rfl
  active := rfl
  cleared := id

theorem Filled.trans {dev dev' dev'' : TxDev β} {n n' n'' : Nat} {out more : Bytes}
    (first : Filled io dev dev' n n' out) (second : Filled io dev' dev'' n' n'' more) :
    Filled io dev dev'' n n'' (out ++ more) where
  size := second.size.trans first.size
  count := by
    rw [second.count, first.count, List.length_append, Nat.add_assoc]
  bytes := by
    rw [second.bytes, first.bytes, List.append_assoc]
  stream := by
    rw [first.stream, second.stream, List.append_assoc]
  active := second.active.trans first.active
  cleared := second.cleared ∘ first.cleared

theorem Filled.turn {dev : TxDev β} {n : Nat} {bytes taken : Bytes} {obuf : β} {override : Bool}
    (room : n + bytes.length ≤ dev.buf.length)
    (out : io.stream dev.obuf = bytes ++ io.stream obuf)
    (cleared : dev.override = false → override = false) :
    Filled io dev
      { dev with
        obuf := obuf
        buf := putAt dev.buf n bytes
        taken := taken
        override := override } n (n + bytes.length) bytes where
  size := putAt_length room
  count := rfl
  bytes := take_putAt room
  stream := out
  active := rfl
  cleared := cleared

theorem Filled.getchar {dev : TxDev β} {n : Nat} (size : dev.buf.length = DMA_XFER_SIZE)
    (more : io.cnt dev.obuf > 0 ∧ n < DMA_XFER_SIZE) :
    Filled io dev
      { dev with
        obuf := (io.ttoGetchar dev.obuf).2
        buf := putAt dev.buf n [(io.ttoGetchar dev.obuf).1]
        taken := dev.taken ++ [(io.ttoGetchar dev.obuf).1]
        override := false } n (n + 1) [(io.ttoGetchar dev.obuf).1] :=
  Filled.turn (by rw [size]; exact more.2) (io.getchar_stream dev.obuf more.1) fun _ => rfl

theorem Filled.writeBlock (io : IoChar β) {dev : TxDev β} {n : Nat}
    (size : dev.buf.length = DMA_XFER_SIZE)
    (room : n < DMA_XFER_SIZE) :
    Filled io dev
      { dev with
        obuf := (io.ttoWriteBlock dev.obuf (DMA_XFER_SIZE - n)).2
        buf := putAt dev.buf n (io.ttoWriteBlock dev.obuf (DMA_XFER_SIZE - n)).1
        taken := dev.taken ++ (io.ttoWriteBlock dev.obuf (DMA_XFER_SIZE - n)).1 } n
      (n + (io.ttoWriteBlock dev.obuf (DMA_XFER_SIZE - n)).1.length)
      (io.ttoWriteBlock dev.obuf (DMA_XFER_SIZE - n)).1 := by
  have fits := io.writeBlock_le dev.obuf (DMA_XFER_SIZE - n)
  exact Filled.turn (by omega) (io.writeBlock_stream dev.obuf _) id

theorem fillBuf_filled (env : TtoEnv) (fuel k n : Nat) (dev : TxDev β)
    (size : dev.buf.length = DMA_XFER_SIZE) :
    ∃ out, Filled io dev (fillBuf io env fuel k dev n).1 n (fillBuf io env fuel k dev n).2 out := by
  induction fuel generalizing k dev n with
  | zero => exact ⟨[], Filled.refl dev n⟩
  | succ fuel ih =>
    unfold fillBuf
    split
    · next more =>
      split
      · exact ⟨[], Filled.refl dev n⟩
      · split
        · have turn := Filled.getchar size more
          obtain ⟨out, rest⟩ := ih (k + 1) _ _ (turn.size.trans size)
          exact ⟨_, turn.trans rest⟩
        · have turn := Filled.writeBlock io size more.2
          obtain ⟨out, rest⟩ := ih (k + 1) _ _ (turn.size.trans size)
          exact ⟨_, turn.trans rest⟩
    · exact ⟨[], Filled.refl dev n⟩

theorem fillBuf_stopped {env : TtoEnv} {dev : TxDev β} {fuel k n : Nat}
    (paged : env.paged k = true) (override : dev.override = false) :
    fillBuf io env fuel k dev n = (dev, n) := by
  cases fuel with
  | zero => rfl
  | succ fuel =>
    unfold fillBuf
    rw [paged, override]
    split <;> rfl

theorem fillBuf_pending {dev : TxDev β} (pending : OobPending io dev) (env : TtoEnv)
    (fuel k n : Nat) (room : n < DMA_XFER_SIZE) :
    ∃ out, Filled io dev (fillBuf io env (fuel + 1) k dev n).1 n
        (fillBuf io env (fuel + 1) k dev n).2 out ∧
      Injected io env dev (fillBuf io env (fuel + 1) k dev n).1 out := by
  have turn := Filled.getchar pending.size ⟨pending.there, room⟩
  have first : fillBuf io env (fuel + 1) k dev n =
      fillBuf io env fuel (k + 1)
        { dev with
          obuf := (io.ttoGetchar dev.obuf).2
          buf := putAt dev.buf n [(io.ttoGetchar dev.obuf).1]
          taken := dev.taken ++ [(io.ttoGetchar dev.obuf).1]
          override := false } (n + 1) := by
    rw [fillBuf, if_pos ⟨pending.there, room⟩, pending.override]
    simp
  obtain ⟨out, rest⟩ := fillBuf_filled env fuel (k + 1) (n + 1) _
    (turn.size.trans pending.size)
  rw [first]
  have filled := turn.trans rest
  refine ⟨_, filled, filled.stream, List.cons_ne_nil _ _, rest.cleared rfl, fun paged => ?_⟩
  rw [fillBuf_stopped (paged (k + 1)) rfl] at rest
  have none := rest.count
  rw [List.length_append, List.length_singleton]
  omega

/-- A transfer is started, with the control character behind what was in the buffer. -/
theorem ttoDma_right {env : TtoEnv} {dev : TxDev β} {byteCnt : Nat} (pending : OobPending io dev)
    (running : env.pagedEnd = false) :
    ∃ out, (ttoDma io env dev byteCnt).1.txXferActive = true ∧
      (ttoDma io env dev byteCnt).1.transfer = dev.buf.take byteCnt ++ out ∧
      if byteCnt < DMA_XFER_SIZE then Injected io env dev (ttoDma io env dev byteCnt).1 out
      else Kept dev (ttoDma io env dev byteCnt).1 out := by
  have started (filled : TxDev β × Nat) (some : filled.2 ≠ 0)
      (loop : fillBuf io env DMA_XFER_SIZE 0 dev byteCnt = filled) :
      ttoDma io env dev byteCnt =
        ({ filled.1 with
          transfer := filled.1.buf.take filled.2, taken := [], txXferActive := true }, 0) := by
    unfold ttoDma
    rw [loop, running]
    exact if_pos ⟨some, rfl⟩
  by_cases room : byteCnt < DMA_XFER_SIZE
  · obtain ⟨out, filled, injected⟩ := fillBuf_pending pending env 511 0 byteCnt room
    have some : (fillBuf io env DMA_XFER_SIZE 0 dev byteCnt).2 ≠ 0 := by
      have pos := List.length_pos_iff.mpr injected.some
      have count : (fillBuf io env DMA_XFER_SIZE 0 dev byteCnt).2 = byteCnt + out.length :=
        filled.count
      omega
    rw [started _ some rfl]
    refine ⟨out, rfl, filled.bytes, ?_⟩
    rw [if_pos room]
    exact ⟨injected.stream, injected.some, injected.cleared, injected.untouched⟩
  · have full : fillBuf io env DMA_XFER_SIZE 0 dev byteCnt = (dev, byteCnt) :=
      if_neg fun more => room more.2
    have some : byteCnt ≠ 0 := by
      unfold DMA_XFER_SIZE at room
      omega
    rw [started _ some full]
    refine ⟨[], rfl, (List.append_nil _).symm, ?_⟩
    rw [if_neg room]
    exact ⟨rfl, rfl, rfl⟩

theorem ttoDma_stopped {env : TtoEnv} {dev : TxDev β} {byteCnt : Nat}
    (size : dev.buf.length = DMA_XFER_SIZE) (stopped : env.pagedEnd = true) :
    (ttoDma io env dev byteCnt).1.txXferActive = dev.txXferActive := by
  obtain ⟨out, filled⟩ := fillBuf_filled env DMA_XFER_SIZE 0 byteCnt dev size
  unfold ttoDma
  dsimp only
  rw [stopped, if_neg fun both => absurd both.2 (by decide)]
  exact filled.active

/-! ## Both paths -/

section Paths

variable {env : TtoEnv} {dev : TxDev β} {byteCnt : Nat}

theorem tto_wait (path : ttoPath env dev = .wait) : (tto io env dev byteCnt).1 = dev := by
  unfold ttoPath at path
  unfold tto
  split at path
  · split at path
    · split at path
      · cases path
      · rename_i usedma active going
        rw [if_pos usedma, if_pos active, if_neg going]
    · cases path
  · cases path

theorem tto_dma (path : ttoPath env dev = .dma) :
    tto io env dev byteCnt = ttoDma io env dev byteCnt ∧ dev.txXferActive = false := by
  unfold ttoPath at path
  unfold tto
  split at path
  · split at path
    · split at path <;> cases path
    · rename_i usedma inactive
      rw [if_pos usedma, if_neg inactive]
      exact ⟨rfl, Bool.eq_false_iff.mpr inactive⟩
  · cases path

/-- What the loop without DMA is entered with: a transfer that timed out is cut before. -/
theorem tto_pio (path : ttoPath env dev = .pio) : ∃ start : TxDev β,
    (tto io env dev byteCnt).1 = ttoPio io env env.trdy 0 start ∧
      start.sent = dev.before env ∧ start.obuf = dev.obuf ∧ start.override = dev.override ∧
      start.buf = dev.buf := by
  unfold ttoPath at path
  unfold tto TxDev.before
  split at path
  · split at path
    · split at path
      · rename_i usedma active timeout
        rw [if_pos usedma, if_pos active, if_pos timeout, if_pos usedma]
        exact ⟨_, rfl, rfl, rfl, rfl, rfl⟩
      · cases path
    · cases path
  · rename_i pio
    rw [if_neg pio, if_neg pio]
    exact ⟨dev, rfl, rfl, rfl, rfl, rfl⟩

/-- With a control character pending, `tto` does right by it exactly when it does not find the
output stopped behind the loop that fills the DMA buffer. -/
theorem oob_iff (pending : OobPending io dev) :
    OobRight io env dev byteCnt ↔ (ttoPath env dev = .dma → env.pagedEnd = false) := by
  unfold OobRight
  dsimp only
  cases path : ttoPath env dev with
  | wait => exact iff_of_true (tto_wait path) nofun
  | dma =>
    obtain ⟨same, inactive⟩ := tto_dma path
    rw [same]
    constructor
    · rintro ⟨out, active, _⟩ _
      apply Bool.eq_false_iff.mpr
      intro stopped
      rw [ttoDma_stopped pending.size stopped, inactive] at active
      cases active
    · exact fun running => ttoDma_right pending (running rfl)
  | pio =>
    refine iff_of_true ?_ nofun
    obtain ⟨start, same, sent, obuf, override, buf⟩ := tto_pio path
    have pending' : OobPending io start :=
      ⟨override.trans pending.override, obuf ▸ pending.there, buf ▸ pending.size⟩
    obtain ⟨out, sent', right⟩ := ttoPio_right pending' 0
    rw [same]
    refine ⟨out, by rw [sent', sent], ?_⟩
    split
    · rename_i ready
      rw [if_pos ready] at right
      exact ⟨obuf ▸ right.stream, right.some, right.cleared, right.untouched⟩
    · rename_i full
      rw [if_neg full] at right
      exact ⟨right.obuf.trans obuf, right.override.trans override, right.nothing⟩

end Paths

/-- A device with `XON` at the head of its output buffer, and a byte behind it. -/
def xonDev (usedma : Bool) : TxDev Bytes where
  obuf := [0x11, 0x41]
  override := true
  usedma := usedma
  txXferActive := false
  buf := List.replicate DMA_XFER_SIZE 0
  transfer := []
  sent := []
  taken := []
  placed := [0x11, 0x41]

theorem xonDev_pending (usedma : Bool) : OobPending plainBuf (xonDev usedma) where
  override := rfl
  there := Nat.zero_lt_succ _
  size := List.length_replicate

theorem oob_running : OobRight plainBuf (plainCall false) (xonDev true) 0 :=
  (oob_iff (xonDev_pending true)).mpr fun _ => rfl

/-- With the output stopped `XON` is taken out of the output buffer, and not sent. -/
theorem oob_stopped : ¬OobRight plainBuf (plainCall true) (xonDev true) 0 ∧
    (tto plainBuf (plainCall true) (xonDev true) 0).1.obuf = [0x41] ∧
    (tto plainBuf (plainCall true) (xonDev true) 0).1.override = false ∧
    (tto plainBuf (plainCall true) (xonDev true) 0).1.txXferActive = false ∧
    (tto plainBuf (plainCall true) (xonDev true) 0).1.sent = [] := by
  have idle : (tto plainBuf (plainCall true) (xonDev true) 0).1.txXferActive = false := rfl
  refine ⟨?_, rfl, rfl, idle, rfl⟩
  rintro ⟨out, active, _⟩
  rw [idle] at active
  cases active

end Mx6xBsp.Devc
