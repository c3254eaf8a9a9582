import Mx6xBsp.Devc.TxDma
import Mx6xBsp.Lib.Runs

/-!
# Sent bytes

The static `byte_cnt` of `tto` belongs to the device whose `tx_dma.buf` is partly
filled. A device whose output is stopped leaves a control character there, and the
next `tto` of another device takes the counter for its own. Where no `tto` takes or
sends anything while bytes of another device are waiting, and no transfer is cut
short by its time-out, each device sends what was put into its output buffer
(`tx_dma_run`).
-/

namespace Mx6xBsp.Devc

open Runs

variable {ι β : Type} [DecidableEq ι] {io : IoChar β}

/-- The DMA branch neither takes a byte nor starts a transfer. -/
def TtoEnv.Stops (io : IoChar β) (env : TtoEnv) (dev : TxDev β) : Prop :=
  env.pagedEnd = true ∧ (io.cnt dev.obuf = 0 ∨ env.paged 0 = true ∧ dev.override = false)

/-- Where `tto` looks for a transfer to start, no other device has bytes in its buffer for which
none was started; where the transfer of this one has timed out, it was through. -/
def TxSystem.Fits (io : IoChar β) (s : TxSystem ι β) : TxOp ι β → Prop
  | .tto d env =>
    if (s.devs d).usedma then
      if (s.devs d).txXferActive then
        (env.data && env.tmrZero) = true → (s.devs d).transfer.length ≤ env.partDone
      else env.Stops io (s.devs d) ∨ ∀ e, e ≠ d → (s.devs e).taken = []
    else True
  | _ => True

/-- What went out, is on its way, waits in `tx_dma.buf` and is left in the output buffer is in this
order what was placed there. -/
def TxDev.Conserved (io : IoChar β) (dev : TxDev β) : Prop :=
  dev.sent ++ dev.transfer ++ dev.taken ++ io.stream dev.obuf = dev.placed

/-! ## Filling the buffer -/

/-- The buffer of a device holds the bytes taken, `n` of them. -/
structure Filling (io : IoChar β) (dev : TxDev β) (n : Nat) : Prop where
  length : dev.buf.length = DMA_XFER_SIZE
  count : dev.taken.length = n
  bytes : dev.buf.take n = dev.taken
  fits : n ≤ DMA_XFER_SIZE
  conserved : dev.Conserved io

/-- Nothing but the buffers and the override flag has changed. -/
structure SameTransfer (dev dev' : TxDev β) : Prop where
  usedma : dev'.usedma = dev.usedma
  active : dev'.txXferActive = dev.txXferActive
  transfer : dev'.transfer = dev.transfer
  sent : dev'.sent = dev.sent
  placed : dev'.placed = dev.placed

theorem putAt_length {buf bytes : Bytes} {n : Nat} (room : n + bytes.length ≤ buf.length) :
    (putAt buf n bytes).length = buf.length := by
  unfold putAt
  simp only [List.length_append, List.length_take, List.length_drop]
  omega

theorem take_putAt {buf bytes : Bytes} {n : Nat} (room : n + bytes.length ≤ buf.length) :
    (putAt buf n bytes).take (n + bytes.length) = buf.take n ++ bytes := by
  have length : (buf.take n ++ bytes).length = n + bytes.length := by
    rw [List.length_append, List.length_take, Nat.min_eq_left (by omega)]
  unfold putAt
  rw [← length]
  exact List.take_left

section Filling

variable {dev : TxDev β} {n : Nat}

theorem Filling.put (filling : Filling io dev n) (bytes : Bytes) (obuf : β) (override : Bool)
    (room : n + bytes.length ≤ DMA_XFER_SIZE)
    (out : io.stream dev.obuf = bytes ++ io.stream obuf) :
    Filling io
      { dev with
        obuf := obuf
        buf := putAt dev.buf n bytes
        taken := dev.taken ++ bytes
        override := override } (n + bytes.length) := by
  have within : n + bytes.length ≤ dev.buf.length := filling.length.symm ▸ room
  have conserved := filling.conserved
  constructor
  · exact (putAt_length within).trans filling.length
  · exact List.length_append.trans (congrArg (· + bytes.length) filling.count)
  · exact (take_putAt within).trans (congrArg (· ++ bytes) filling.bytes)
  · exact room
  · unfold TxDev.Conserved at conserved ⊢
    rw [← conserved, out]
    simp only [List.append_assoc]

theorem Filling.fillBuf (filling : Filling io dev n) (env : TtoEnv) (fuel k : Nat) :
    Filling io (fillBuf io env fuel k dev n).1 (fillBuf io env fuel k dev n).2 ∧
      SameTransfer dev (fillBuf io env fuel k dev n).1 := by
  induction fuel generalizing k dev n with
  | zero => exact ⟨filling, rfl, rfl, rfl, rfl, rfl⟩
  | succ fuel ih =>
    unfold Devc.fillBuf
    split
    · next more =>
      split
      · exact ⟨filling, rfl, rfl, rfl, rfl, rfl⟩
      · split
        · have put := filling.put [(io.ttoGetchar dev.obuf).1] (io.ttoGetchar dev.obuf).2 false
            more.2 (io.getchar_stream dev.obuf more.1)
          obtain ⟨filled, same⟩ := ih put (k + 1)
          exact ⟨filled, same.usedma, same.active, same.transfer, same.sent, same.placed⟩
        · have fits := io.writeBlock_le dev.obuf (DMA_XFER_SIZE - n)
          have put := filling.put (io.ttoWriteBlock dev.obuf (DMA_XFER_SIZE - n)).1
            (io.ttoWriteBlock dev.obuf (DMA_XFER_SIZE - n)).2 dev.override (by omega)
            (io.writeBlock_stream dev.obuf _)
          obtain ⟨filled, same⟩ := ih put (k + 1)
          exact ⟨filled, same.usedma, same.active, same.transfer, same.sent, same.placed⟩
    · exact ⟨filling, rfl, rfl, rfl, rfl, rfl⟩

/-- After the DMA branch the buffer still holds what was taken, or it is on its way. -/
theorem Filling.ttoDma (filling : Filling io dev n) (env : TtoEnv) (idle : dev.transfer = [])
    (inactive : dev.txXferActive = false) (usedma : dev.usedma = true) :
    Filling io (ttoDma io env dev n).1 (ttoDma io env dev n).2 ∧
      (ttoDma io env dev n).1.usedma = true ∧
      ((ttoDma io env dev n).1.txXferActive = false → (ttoDma io env dev n).1.transfer = []) ∧
      ((ttoDma io env dev n).1.txXferActive = true → (ttoDma io env dev n).1.taken = []) := by
  obtain ⟨filled, same⟩ := filling.fillBuf env DMA_XFER_SIZE 0
  have idle' := same.transfer.trans idle
  have inactive' := same.active.trans inactive
  unfold Devc.ttoDma
  dsimp only
  split
  · have conserved := filled.conserved
    refine ⟨⟨filled.length, rfl, rfl, Nat.zero_le _, ?_⟩, same.usedma.trans usedma, nofun,
      fun _ => rfl⟩
    unfold TxDev.Conserved at conserved ⊢
    rw [← conserved, idle']
    dsimp only
    rw [filled.bytes, List.append_nil, List.append_nil]
  · exact ⟨filled, same.usedma.trans usedma, fun _ => idle',
      fun active => absurd inactive' (active ▸ nofun)⟩

end Filling

theorem TtoEnv.Stops.ttoDma {env : TtoEnv} {dev : TxDev β} (stops : env.Stops io dev) (n : Nat) :
    Devc.ttoDma io env dev n = (dev, n) := by
  have unfilled (fuel : Nat) : fillBuf io env fuel 0 dev n = (dev, n) := by
    cases fuel with
    | zero => rfl
    | succ fuel =>
      unfold fillBuf
      rcases stops.2 with empty | ⟨paged, override⟩
      · exact if_neg fun more => absurd empty (Nat.ne_of_gt more.1)
      · rw [paged, override]
        split
        · rfl
        · rfl
  unfold Devc.ttoDma
  rw [unfilled]
  dsimp only
  rw [stops.1]
  exact if_neg fun both => absurd both.2 (by decide)

/-! ## The invariant -/

/-- What holds of each device; one without DMA has nothing waiting or on its way. -/
structure DevInv (io : IoChar β) (dev : TxDev β) : Prop where
  length : dev.buf.length = DMA_XFER_SIZE
  idle : dev.txXferActive = false → dev.transfer = []
  busy : dev.txXferActive = true → dev.taken = []
  pio : dev.usedma = false → dev.txXferActive = false ∧ dev.taken = []
  conserved : dev.Conserved io

/-- The counter belongs to the one device that has bytes waiting. -/
structure TxDmaInv (io : IoChar β) (s : TxSystem ι β) : Prop where
  dev : ∀ d, DevInv io (s.devs d)
  owner : ∀ d, (s.devs d).taken ≠ [] → (∀ e, e ≠ d → (s.devs e).taken = []) ∧
    (s.devs d).taken.length = s.byteCnt ∧ (s.devs d).buf.take s.byteCnt = (s.devs d).taken
  unowned : (∀ d, (s.devs d).taken = []) → s.byteCnt = 0

theorem DevInv.ttoPio {dev : TxDev β} (inv : DevInv io dev) (usedma : dev.usedma = false)
    (env : TtoEnv) (trdy k : Nat) :
    DevInv io (ttoPio io env trdy k dev) ∧ (ttoPio io env trdy k dev).taken = dev.taken ∧
      (ttoPio io env trdy k dev).buf = dev.buf := by
  induction trdy generalizing k dev with
  | zero => exact ⟨inv, rfl, rfl⟩
  | succ trdy ih =>
    unfold Devc.ttoPio
    split
    · next more =>
      split
      · exact ⟨inv, rfl, rfl⟩
      · obtain ⟨inactive, empty⟩ := inv.pio usedma
        have idle := inv.idle inactive
        have out := io.getchar_stream dev.obuf more
        have conserved : TxDev.Conserved io
            { dev with
              obuf := (io.ttoGetchar dev.obuf).2
              sent := dev.sent ++ [(io.ttoGetchar dev.obuf).1] } := by
          have before := inv.conserved
          unfold TxDev.Conserved at before ⊢
          dsimp only
          rw [← before, out, idle, empty]
          simp only [List.append_nil, List.append_assoc, List.singleton_append]
        have next : DevInv io
            { dev with
              obuf := (io.ttoGetchar dev.obuf).2
              sent := dev.sent ++ [(io.ttoGetchar dev.obuf).1] } :=
          ⟨inv.length, inv.idle, inv.busy, inv.pio, conserved⟩
        dsimp only
        split
        · exact ⟨⟨inv.length, inv.idle, inv.busy, inv.pio, conserved⟩, rfl, rfl⟩
        · exact ih next usedma (k + 1)
    · exact ⟨inv, rfl, rfl⟩

variable {s : TxSystem ι β}

omit [DecidableEq ι] in
theorem TxSystem.Fresh.inv (fresh : s.Fresh io) : TxDmaInv io s where
  dev d :=
    { length := fresh.buf d
      idle := fun _ => fresh.transfer d
      busy := fun _ => fresh.taken d
      pio := fun _ => ⟨fresh.inactive d, fresh.taken d⟩
      conserved := by
        unfold TxDev.Conserved
        rw [fresh.sent, fresh.transfer, fresh.taken, fresh.placed]
        rfl }
  owner d waiting := absurd (fresh.taken d) waiting
  unowned _ := fresh.byteCnt

theorem TxDmaInv.update (inv : TxDmaInv io s) {d : ι} {dev : TxDev β} (devInv : DevInv io dev)
    (taken : dev.taken = (s.devs d).taken) (buf : dev.buf = (s.devs d).buf) :
    TxDmaInv io (s.update d dev) := by
  have at_ (e : ι) : DevInv io (Function.update s.devs d dev e) ∧
      (Function.update s.devs d dev e).taken = (s.devs e).taken ∧
      (Function.update s.devs d dev e).buf = (s.devs e).buf := by
    rcases eq_or_ne e d with rfl | apart
    · rw [Function.update_self]
      exact ⟨devInv, taken, buf⟩
    · rw [Function.update_of_ne apart]
      exact ⟨inv.dev e, rfl, rfl⟩
  constructor
  · intro e
    exact (at_ e).1
  · intro e
    change (Function.update s.devs d dev e).taken ≠ [] →
      (∀ e', e' ≠ e → (Function.update s.devs d dev e').taken = []) ∧
        (Function.update s.devs d dev e).taken.length = s.byteCnt ∧
        (Function.update s.devs d dev e).buf.take s.byteCnt =
          (Function.update s.devs d dev e).taken
    rw [(at_ e).2.1, (at_ e).2.2]
    intro waiting
    obtain ⟨alone, count⟩ := inv.owner e waiting
    exact ⟨fun e' apart => (at_ e').2.1.trans (alone e' apart), count⟩
  · intro empty
    exact inv.unowned fun e => (at_ e).2.1.symm.trans (empty e)

omit [DecidableEq ι] in
/-- Where no other device has bytes waiting, the counter counts those of this one. -/
theorem TxDmaInv.filling (inv : TxDmaInv io s) {d : ι}
    (alone : ∀ e, e ≠ d → (s.devs e).taken = []) : Filling io (s.devs d) s.byteCnt := by
  have devInv := inv.dev d
  rcases eq_or_ne (s.devs d).taken [] with empty | waiting
  · have zero : s.byteCnt = 0 := by
      apply inv.unowned
      intro e
      rcases eq_or_ne e d with rfl | apart
      · exact empty
      · exact alone e apart
    rw [zero]
    exact ⟨devInv.length, congrArg List.length empty, empty.symm, Nat.zero_le _,
      devInv.conserved⟩
  · obtain ⟨_, count, bytes⟩ := inv.owner d waiting
    have within := congrArg List.length bytes
    rw [List.length_take, count, devInv.length] at within
    exact ⟨devInv.length, count, bytes, by omega, devInv.conserved⟩

/-- A call of `tto` that looks for a transfer to start. -/
theorem TxDmaInv.ttoDma (inv : TxDmaInv io s) {d : ι} (env : TtoEnv)
    (alone : ∀ e, e ≠ d → (s.devs e).taken = []) (usedma : (s.devs d).usedma = true)
    (inactive : (s.devs d).txXferActive = false) :
    TxDmaInv io
      { s.update d (Devc.ttoDma io env (s.devs d) s.byteCnt).1 with
        byteCnt := (Devc.ttoDma io env (s.devs d) s.byteCnt).2 } := by
  obtain ⟨filled, usedma', idle, busy⟩ :=
    (inv.filling alone).ttoDma env ((inv.dev d).idle inactive) inactive usedma
  generalize Devc.ttoDma io env (s.devs d) s.byteCnt = result at filled usedma' idle busy
  have others (e : ι) (apart : e ≠ d) :
      (Function.update s.devs d result.1 e).taken = [] := by
    rw [Function.update_of_ne apart]
    exact alone e apart
  constructor
  · intro e
    change DevInv io (Function.update s.devs d result.1 e)
    rcases eq_or_ne e d with rfl | apart
    · rw [Function.update_self]
      exact ⟨filled.length, idle, busy, fun off => absurd usedma' (off ▸ nofun),
        filled.conserved⟩
    · rw [Function.update_of_ne apart]
      exact inv.dev e
  · intro e waiting
    rcases eq_or_ne e d with rfl | apart
    · refine ⟨others, ?_⟩
      change (Function.update s.devs e result.1 e).taken.length = result.2 ∧
        (Function.update s.devs e result.1 e).buf.take result.2 =
          (Function.update s.devs e result.1 e).taken
      rw [Function.update_self]
      exact ⟨filled.count, filled.bytes⟩
    · exact absurd (others e apart) waiting
  · intro empty
    have own : (Function.update s.devs d result.1 d).taken = [] := empty d
    rw [Function.update_self] at own
    exact filled.count.symm.trans (congrArg List.length own)

theorem TxDmaInv.tto (inv : TxDmaInv io s) {d : ι} {env : TtoEnv}
    (fits : s.Fits io (.tto d env)) : TxDmaInv io (s.next io (.tto d env)) := by
  have devInv := inv.dev d
  -- a call that leaves the counter alone
  have pass {dev : TxDev β} (same : Devc.tto io env (s.devs d) s.byteCnt = (dev, s.byteCnt))
      (kept : DevInv io dev ∧ dev.taken = (s.devs d).taken ∧ dev.buf = (s.devs d).buf) :
      TxDmaInv io (s.next io (.tto d env)) := by
    unfold TxSystem.next
    dsimp only
    rw [same]
    exact inv.update kept.1 kept.2.1 kept.2.2
  unfold TxSystem.Fits at fits
  dsimp only at fits
  cases usedma : (s.devs d).usedma with
  | false =>
    refine pass ?_ (devInv.ttoPio usedma env env.trdy 0)
    unfold Devc.tto
    rw [usedma]
    rfl
  | true =>
    rw [usedma, if_pos rfl] at fits
    cases active : (s.devs d).txXferActive with
    | true =>
      rw [active, if_pos rfl] at fits
      cases timeout : (env.data && env.tmrZero) with
      | false =>
        refine pass ?_ ⟨devInv, rfl, rfl⟩
        unfold Devc.tto
        rw [usedma, active, timeout]
        rfl
      | true =>
        have through := List.take_of_length_le (fits timeout)
        have cleaned : DevInv io
            { s.devs d with
              usedma := false
              txXferActive := false
              sent := (s.devs d).sent ++ (s.devs d).transfer.take env.partDone
              transfer := [] } := by
          have conserved := devInv.conserved
          refine ⟨devInv.length, fun _ => rfl, nofun,
            fun _ => ⟨rfl, devInv.busy active⟩, ?_⟩
          unfold TxDev.Conserved at conserved ⊢
          dsimp only
          rw [← conserved, through, List.append_nil]
        refine pass ?_ (cleaned.ttoPio rfl env env.trdy 0)
        unfold Devc.tto
        rw [usedma, active, timeout]
        rfl
    | false =>
      rw [active, if_neg nofun] at fits
      have dma : Devc.tto io env (s.devs d) s.byteCnt =
          Devc.ttoDma io env (s.devs d) s.byteCnt := by
        unfold Devc.tto
        rw [usedma, active]
        rfl
      rcases fits with stops | alone
      · exact pass (dma.trans (stops.ttoDma s.byteCnt)) ⟨devInv, rfl, rfl⟩
      · have started := inv.ttoDma env alone usedma active
        unfold TxSystem.next
        dsimp only
        rw [dma]
        exact started

theorem TxDmaInv.step (inv : TxDmaInv io s) {op : TxOp ι β} (allowed : s.Allowed io op)
    (fits : s.Fits io op) : TxDmaInv io (s.next io op) := by
  cases op with
  | tto d env => exact inv.tto fits
  | write d b bytes =>
    have devInv := inv.dev d
    have conserved := devInv.conserved
    have put : io.stream b = io.stream (s.devs d).obuf ++ bytes := allowed
    refine inv.update ⟨devInv.length, devInv.idle, devInv.busy, devInv.pio, ?_⟩ rfl rfl
    unfold TxDev.Conserved at conserved ⊢
    dsimp only
    rw [← conserved, put, List.append_assoc _ _ bytes]
  | inject d b c =>
    have devInv := inv.dev d
    have conserved := devInv.conserved
    have put : io.stream b = c :: io.stream (s.devs d).obuf := allowed
    refine inv.update ⟨devInv.length, devInv.idle, devInv.busy, devInv.pio, ?_⟩ rfl rfl
    unfold TxDev.Conserved at conserved ⊢
    dsimp only
    rw [← conserved, put, List.length_append, Nat.add_sub_cancel, List.take_left]
  | complete d =>
    have devInv := inv.dev d
    have conserved := devInv.conserved
    have active : (s.devs d).txXferActive = true := allowed
    refine inv.update ⟨devInv.length, fun _ => rfl, nofun,
      fun _ => ⟨rfl, devInv.busy active⟩, ?_⟩ rfl rfl
    unfold TxDev.Conserved at conserved ⊢
    dsimp only
    rw [← conserved, List.append_nil]

/-- In a run whose calls of `tto` fit, every device sends what was placed in its output buffer. -/
theorem tx_dma_run {ops : List (TxOp ι β)} {t : TxSystem ι β} (fresh : s.Fresh io)
    (run : Run (fun s op t => TxStep io s op t ∧ s.Fits io op) s ops t) (d : ι) :
    (t.devs d).Conserved io := by
  have inv : TxDmaInv io t := by
    apply run.invariant (I := TxDmaInv io) ?_ fresh.inv
    rintro s op t inv ⟨⟨allowed, rfl⟩, fits⟩
    exact inv.step allowed fits
  exact (inv.dev d).conserved

/-! ## Two devices -/

/-- An output buffer in one piece, sent as it is. -/
def plainBuf : IoChar Bytes where
  cnt := List.length
  ttoGetchar b := (b.headD 0, b.tail)
  ttoWriteBlock b room := (b.take room, b.drop room)
  stream b := b
  getchar_stream b some := by
    cases b with
    | nil => cases some
    | cons c b => rfl
  writeBlock_stream b room := (List.take_append_drop room b).symm
  writeBlock_le b room := (List.length_take_le room b)
  writeBlock_pos b room some space := by
    rw [List.length_take]
    exact Nat.lt_min.mpr ⟨space, some⟩

/-- Two devices with nothing to send. -/
def twoDevs : TxSystem Bool Bytes where
  devs _ :=
    { obuf := []
      override := false
      usedma := true
      txXferActive := false
      buf := List.replicate DMA_XFER_SIZE 0
      transfer := []
      sent := []
      taken := []
      placed := [] }
  byteCnt := 0

theorem twoDevs_fresh : twoDevs.Fresh plainBuf where
  byteCnt := rfl
  usedma _ := rfl
  inactive _ := rfl
  buf _ := List.length_replicate
  transfer _ := rfl
  sent _ := rfl
  taken _ := rfl
  placed _ := rfl

/-- A call without post-processing that finds the output stopped, or running. -/
def plainCall (paged : Bool) : TtoEnv where
  data := true
  tmrZero := false
  opost := false
  paged _ := paged
  pagedEnd := paged
  trdy := 0
  partDone := 0

/-- The steps of `tx_dma_run_small`: two bytes for one device. -/
def plainOps : List (TxOp Bool Bytes) :=
  [.write true [1, 2] [1, 2], .tto true (plainCall false), .complete true]

theorem tx_dma_run_small :
    ((plainOps.foldl (·.next plainBuf) twoDevs).devs true).Conserved plainBuf := by
  have started : (twoDevs.next plainBuf (.write true [1, 2] [1, 2])).Fits plainBuf
      (.tto true (plainCall false)) := by
    refine .inr fun e apart => ?_
    cases e with
    | true => exact absurd rfl apart
    | false => rfl
  have active : (((twoDevs.next plainBuf (.write true [1, 2] [1, 2])).next plainBuf
      (.tto true (plainCall false))).devs true).txXferActive = true := by decide +kernel
  have run : Run (fun s op t => TxStep plainBuf s op t ∧ s.Fits plainBuf op) twoDevs plainOps
      (plainOps.foldl (·.next plainBuf) twoDevs) :=
    .cons ⟨⟨rfl, rfl⟩, trivial⟩ (.cons ⟨⟨trivial, rfl⟩, started⟩
      (.cons ⟨⟨active, rfl⟩, trivial⟩ .nil))
  exact tx_dma_run twoDevs_fresh run true

/-- The steps of `tx_dma_broken`: `XOFF` for a device whose output is stopped, and then two bytes
for the other. -/
def staleOps : List (TxOp Bool Bytes) :=
  [.inject false [0x13] 0x13, .tto false (plainCall true), .write true [1, 2] [1, 2],
    .tto true (plainCall false)]

/-- The second device sends a byte from its buffer that nobody placed there. -/
theorem tx_dma_broken :
    ¬∀ (ops : List (TxOp Bool Bytes)) (t : TxSystem Bool Bytes),
      Run (TxStep plainBuf) twoDevs ops t → ∀ d, (t.devs d).Conserved plainBuf := by
  intro all
  have conserved := all staleOps _ (.cons ⟨rfl, rfl⟩ (.cons ⟨trivial, rfl⟩
    (.cons ⟨rfl, rfl⟩ (.cons ⟨trivial, rfl⟩ .nil)))) true
  unfold TxDev.Conserved at conserved
  revert conserved
  decide +kernel

end Mx6xBsp.Devc
