import Mx6xBsp.Devnp.TransmitRing

/-!
# When a frame cannot be sent

`mx6q_tx` gives up in two places: where `mx6q_defrag` has no memory, before the
ring is touched, and where a descriptor it is about to load still has `TXBD_R`,
with the descriptors before it loaded already. In the second place it also
unlocks the send queue, as its callers do once more. `tx_failure_iff` says that
failures are clean exactly when that place is not reached.

Descriptors that still have `TXBD_R` beyond `tx_pidx` come from `mx6q_stop`
(`mx6qStop_ready`). While the ring holds a queue there are none
(`TxInv.vacant`), and both callers unlock once (`startEvents_unlocks`,
`mx6qOutput_unlocks`).
-/

namespace Mx6xBsp.Devnp

open Rings Runs

/-! ## What the calls do besides -/

/-- The chains that a call takes from the allocator and frees, and what it does to the lock of the
send queue, `if_snd_ex`. The frees of `mx6q_transmit_complete` are `freed` of the ring. -/
inductive TxEvent
  | take (m : Chain)
  | free (m : Chain)
  | lock
  | unlock
deriving DecidableEq

def takes (trace : List TxEvent) : List Chain :=
  trace.filterMap fun
    | .take m => some m
    | _ => none

def frees (trace : List TxEvent) : List Chain :=
  trace.filterMap fun
    | .free m => some m
    | _ => none

def unlocks (trace : List TxEvent) : Nat := trace.count .unlock

/-- `mx6q_defrag`: the packet is freed in every case. -/
def TxConfig.defragEvents (cfg : TxConfig) (alloc : TxAlloc) (m : Chain) : List TxEvent :=
  if m.pktLen > cfg.MCLBYTES then
    match alloc.dup with
    | none => [.free m]
    | some m2 =>
      .take m2 :: .free m :: if m2.mbufs.length > MX6Q_MAX_FRAGS then [.free m2] else []
  else
    match alloc.cluster with
    | none => [.free m]
    | some (head, data) => [.take ⟨head, m.pktLen, [⟨data, m.pktLen⟩]⟩, .free m]

/-- `mx6q_tx` -/
def TxConfig.txEvents (cfg : TxConfig) (alloc : TxAlloc) (s : TxRing) (m : Chain) :
    List TxEvent :=
  let copied := if cfg.numFrag m > MX6Q_MAX_FRAGS then cfg.defragEvents alloc m else []
  match cfg.toLoad alloc m with
  | none => copied
  | some (m, _) =>
    match cfg.loadDescriptors m.mbufs ⟨s.bd, none, none, s.pidx⟩ with
    | .error _ => copied ++ [.free m, .unlock]
    | .ok _ => copied

/-! ## The callers -/

/-- The reaping ahead of the test for space. -/
def TxConfig.makeSpace (cfg : TxConfig) (s : TxRing) : TxRing :=
  if cfg.descAvail s ≤ MX6Q_MAX_FRAGS then cfg.transmitComplete cfg.numTx s else s

/-- The loop of `mx6q_start`, entered with the send queue locked, and what stands behind it. Where
`mx6q_tx` does not come back nothing does. -/
def TxConfig.loopEvents (cfg : TxConfig) : List (Chain × TxAlloc) → TxRing → List TxEvent
  | queue, s =>
    let s := cfg.makeSpace s
    if cfg.descAvail s ≤ MX6Q_MAX_FRAGS then [.unlock]
    else
      match queue with
      | [] => [.unlock]
      | (m, alloc) :: queue =>
        cfg.txEvents alloc s m ++
          match cfg.mx6qTx alloc s m with
          | none => []
          | some (s, _) => cfg.loopEvents queue s

/-- `mx6q_start`; `up` is `IFF_RUNNING` without `NIC_FLAG_LINK_DOWN`. -/
def TxConfig.startEvents (cfg : TxConfig) (up : Bool) (queue : List (Chain × TxAlloc))
    (s : TxRing) : List TxEvent :=
  if up then cfg.loopEvents queue s
  else queue.map (fun packet => .free packet.1) ++ [.unlock]

/-- The Ethernet header in front of the data counts again. -/
def Chain.withHeader (m : Chain) : Chain :=
  { m with
    pktLen := m.pktLen + 14
    mbufs := m.mbufs.modifyHead fun m2 => ⟨m2.data - 14, m2.len + 14⟩ }

/-- `num_free`, without a sign. -/
def TxConfig.numFree (cfg : TxConfig) (s : TxRing) : Nat := (cfg.descAvail s % 2 ^ 32).toNat

/-- What `mx6q_output` answers. -/
inductive OutputErrno
  | tx (e : Errno)
  | ENOBUFS

/-- `mx6q_output` from the lock on, for the queue that the priority leads to. -/
def TxConfig.mx6qOutput (cfg : TxConfig) (alloc : TxAlloc) (s : TxRing) (m : Chain) :
    Option (TxRing × OutputErrno × List TxEvent) :=
  let s :=
    if cfg.numFree s ≤ MX6Q_MAX_FRAGS then cfg.transmitComplete cfg.numTx s else s
  if cfg.numFree s ≤ MX6Q_MAX_FRAGS then some (s, .ENOBUFS, [.lock, .free m, .unlock])
  else
    let m := m.withHeader
    match cfg.mx6qTx alloc s m with
    | none => none
    | some (t, e) => some (t, .tx e, .lock :: cfg.txEvents alloc s m ++ [.unlock])

/-- `mx6q_stop`, what it does to the queue: the descriptors of the frames that are left lose
their bits where a chain hangs on them. -/
def TxConfig.mx6qStop (cfg : TxConfig) (s : TxRing) : TxRing :=
  let s := cfg.transmitComplete cfg.numTx s
  { s with
    bd := fun i =>
      if i < cfg.numTx ∧ (s.pkts i).isSome then
        { s.bd i with ready := false, last := false, tc := false }
      else s.bd i
    pkts := fun i => if i < cfg.numTx then none else s.pkts i
    freed := ((List.range cfg.numTx).filterMap s.pkts).reverse ++ s.freed
    pidx := s.cidx
    inuse := 0 }

/-! ## Clean failures -/

/-- The failing call leaves the ring as it was, frees the packet and what it took, and leaves it
to its callers to unlock the send queue: `mx6q_output` does so, and so does `mx6q_start`, which
goes on with the packets behind this one. -/
structure CleanFailure (cfg : TxConfig) (alloc : TxAlloc) (s : TxRing) (m : Chain)
    (t : TxRing) : Prop where
  ring : t = s
  freed : frees (cfg.txEvents alloc s m) = m :: takes (cfg.txEvents alloc s m)
  output : unlocks (.lock :: cfg.txEvents alloc s m ++ [.unlock]) = 1
  start : ∀ queue, unlocks (cfg.loopEvents queue t) = 1 →
    unlocks (cfg.txEvents alloc s m ++ cfg.loopEvents queue t) = 1

def FailsCleanly (cfg : TxConfig) (alloc : TxAlloc) (s : TxRing) (m : Chain) : Prop :=
  ∀ t e, cfg.mx6qTx alloc s m = some (t, e) → e ≠ .EOK → CleanFailure cfg alloc s m t

/-- The descriptors that the packet is to be loaded to, from `tx_pidx` on, are not the NIC's. -/
def Vacant (cfg : TxConfig) (alloc : TxAlloc) (s : TxRing) (m : Chain) : Prop :=
  ∀ m' n, cfg.toLoad alloc m = some (m', n) →
    ∀ k < n, (s.bd (cfg.NEXT_TX^[k] s.pidx)).ready = false

variable {cfg : TxConfig} {s t : TxRing} {q : List TxSlot} {alloc : TxAlloc} {m : Chain}

/-! ## Loading -/

theorem TxConfig.NEXT_TX_iterate (cfg : TxConfig) (i k : Nat) :
    cfg.NEXT_TX^[k + 1] i = place cfg.numTx i (k + 1) := by
  induction k with
  | zero => rfl
  | succ k ih =>
    rw [Function.iterate_succ_apply', ih]
    exact next_place

theorem TxConfig.NEXT_TX_apart {i k : Nat} (short : k + 1 < cfg.numTx) :
    cfg.NEXT_TX^[k + 1] i ≠ i := by
  intro same
  rw [cfg.NEXT_TX_iterate] at same
  have inside : i < cfg.numTx := same ▸ place_lt cfg.pos
  have zero := place_inj short cfg.pos (same.trans (place_zero inside).symm)
  omega

theorem loadOne_bd {l : TxLoad} {m2 : Mbuf} {i : Nat} (apart : i ≠ l.idx) :
    (cfg.loadOne l m2).bd i = l.bd i := Function.update_of_ne apart _ _

theorem loadDescriptors_iff {mbufs : List Mbuf} {l : TxLoad}
    (short : (mbufs.filter fun m2 => m2.len ≠ 0).length ≤ cfg.numTx) :
    (∃ l', cfg.loadDescriptors mbufs l = .ok l') ↔
      ∀ k < (mbufs.filter fun m2 => m2.len ≠ 0).length,
        (l.bd (cfg.NEXT_TX^[k] l.idx)).ready = false := by
  induction mbufs generalizing l with
  | nil => exact ⟨fun _ k within => absurd within (Nat.not_lt_zero k), fun _ => ⟨l, rfl⟩⟩
  | cons m2 rest ih =>
    by_cases empty : m2.len = 0
    · rw [List.filter_cons_of_neg (by simpa using empty)] at short ⊢
      rw [TxConfig.loadDescriptors, if_pos empty]
      exact ih short
    · rw [List.filter_cons_of_pos (by simpa using empty), List.length_cons] at short ⊢
      rw [TxConfig.loadDescriptors, if_neg empty]
      have later : ∀ k < (rest.filter fun m2 => m2.len ≠ 0).length,
          (cfg.loadOne l m2).bd (cfg.NEXT_TX^[k] (cfg.loadOne l m2).idx) =
            l.bd (cfg.NEXT_TX^[k + 1] l.idx) :=
        fun k within => loadOne_bd (TxConfig.NEXT_TX_apart (by omega))
      cases ready : (l.bd l.idx).ready with
      | true =>
        refine iff_of_false ?_ fun vacant => ?_
        · rintro ⟨l', loaded⟩
          cases loaded
        · have first := vacant 0 (Nat.succ_pos _)
          rw [Function.iterate_zero_apply, ready] at first
          cases first
      | false =>
        rw [if_neg Bool.false_ne_true, ih (by omega)]
        constructor
        · intro vacant k within
          cases k with
          | zero => exact ready
          | succ k =>
            rw [← later k (by omega)]
            exact vacant k (by omega)
        · intro vacant k within
          rw [later k within]
          exact vacant (k + 1) (by omega)

theorem load_iff {m' : Chain} {n : Nat} (load : cfg.toLoad alloc m = some (m', n)) :
    (∃ l, cfg.loadDescriptors m'.mbufs ⟨s.bd, none, none, s.pidx⟩ = .ok l) ↔
      Vacant cfg alloc s m := by
  obtain ⟨count, few⟩ := toLoad_frags load
  have size := cfg.minimum
  unfold MX6Q_MAX_FRAGS at few
  unfold MIN_NUM_TX_DESCRIPTORS at size
  have short : (m'.mbufs.filter fun m2 => m2.len ≠ 0).length ≤ cfg.numTx := by
    change m'.frags.length ≤ cfg.numTx
    omega
  rw [loadDescriptors_iff short]
  change (∀ k < m'.frags.length, _) ↔ _
  rw [← count]
  constructor
  · intro vacant m'' n' load'
    rw [load] at load'
    cases load'
    exact vacant
  · exact fun vacant => vacant m' n load

/-! ## Failures -/

theorem unlocks_append (xs ys : List TxEvent) : unlocks (xs ++ ys) = unlocks xs + unlocks ys :=
  List.count_append

/-- `mx6q_defrag` leaves the lock alone. -/
theorem defragEvents_unlocks : unlocks (cfg.defragEvents alloc m) = 0 := by
  unfold TxConfig.defragEvents
  split
  · split
    · rfl
    · split <;> rfl
  · split <;> rfl

/-- Without memory for the copy the packet is freed, and so is a copy that is too fragmented. -/
theorem defragEvents_failed (failed : cfg.mx6qDefrag alloc m = none) :
    frees (cfg.defragEvents alloc m) = m :: takes (cfg.defragEvents alloc m) := by
  unfold TxConfig.mx6qDefrag at failed
  unfold TxConfig.defragEvents
  split
  · rename_i jumbo
    rw [if_pos jumbo] at failed
    cases dup : alloc.dup with
    | none => rfl
    | some m2 =>
      rw [dup] at failed
      by_cases many : m2.mbufs.length > MX6Q_MAX_FRAGS
      · dsimp only
        rw [if_pos many]
        rfl
      · dsimp only at failed
        rw [if_neg many] at failed
        cases failed
  · rename_i small
    rw [if_neg small] at failed
    cases cluster : alloc.cluster with
    | none => rfl
    | some found =>
      rw [cluster] at failed
      cases failed

theorem txEvents_quiet_iff : unlocks (cfg.txEvents alloc s m) = 0 ↔ Vacant cfg alloc s m := by
  have copied : unlocks (if cfg.numFrag m > MX6Q_MAX_FRAGS then cfg.defragEvents alloc m
      else []) = 0 := by
    split
    · exact defragEvents_unlocks
    · rfl
  rw [TxConfig.txEvents]
  cases load : cfg.toLoad alloc m with
  | none =>
    refine iff_of_true copied fun m' n load' => ?_
    rw [load] at load'
    cases load'
  | some frame =>
    obtain ⟨m', n⟩ := frame
    rw [← load_iff load]
    dsimp only
    cases cfg.loadDescriptors m'.mbufs ⟨s.bd, none, none, s.pidx⟩ with
    | error l =>
      refine iff_of_false (fun none => ?_) ?_
      · rw [unlocks_append] at none
        exact absurd (Nat.eq_zero_of_add_eq_zero_left none) Nat.one_ne_zero
      · rintro ⟨l', other⟩
        cases other
    | ok l => exact iff_of_true copied ⟨l, rfl⟩

theorem mx6qTx_refused (occupied : ¬Vacant cfg alloc s m) :
    ∃ t, cfg.mx6qTx alloc s m = some (t, .EINVAL) := by
  cases load : cfg.toLoad alloc m with
  | none =>
    refine absurd (fun m' n load' => ?_) occupied
    rw [load] at load'
    cases load'
  | some frame =>
    obtain ⟨m', n⟩ := frame
    rw [← load_iff load] at occupied
    rw [TxConfig.mx6qTx, load]
    dsimp only
    cases loaded : cfg.loadDescriptors m'.mbufs ⟨s.bd, none, none, s.pidx⟩ with
    | error l => exact ⟨_, rfl⟩
    | ok l => exact absurd ⟨l, loaded⟩ occupied

theorem mx6qTx_failed {e : Errno} (vacant : Vacant cfg alloc s m)
    (sent : cfg.mx6qTx alloc s m = some (t, e)) (failed : e ≠ .EOK) :
    t = s ∧ frees (cfg.txEvents alloc s m) = m :: takes (cfg.txEvents alloc s m) := by
  cases load : cfg.toLoad alloc m with
  | none =>
    have defrag : cfg.numFrag m > MX6Q_MAX_FRAGS ∧ cfg.mx6qDefrag alloc m = none := by
      unfold TxConfig.toLoad at load
      split at load
      · exact ⟨‹_›, Option.map_eq_none_iff.mp load⟩
      · cases load
    have trace : cfg.txEvents alloc s m = cfg.defragEvents alloc m := by
      rw [TxConfig.txEvents, load]
      exact if_pos defrag.1
    rw [TxConfig.mx6qTx, load] at sent
    cases sent
    rw [trace]
    exact ⟨rfl, defragEvents_failed defrag.2⟩
  | some frame =>
    obtain ⟨m', n⟩ := frame
    obtain ⟨l, loaded⟩ := (load_iff load).mpr vacant
    refine absurd ?_ failed
    rw [TxConfig.mx6qTx, load] at sent
    dsimp only at sent
    rw [loaded] at sent
    dsimp only at sent
    split at sent
    · cases sent
      rfl
    · cases sent

/-- For every packet and every ring, failures of `mx6q_tx` are clean exactly when the descriptors
it is to load are free. -/
theorem tx_failure_iff (cfg : TxConfig) (alloc : TxAlloc) (s : TxRing) (m : Chain) :
    FailsCleanly cfg alloc s m ↔ Vacant cfg alloc s m := by
  have within : unlocks (.lock :: cfg.txEvents alloc s m ++ [.unlock]) =
      unlocks (cfg.txEvents alloc s m) + 1 := by
    rw [unlocks_append, unlocks, List.count_cons_of_ne (by decide)]
    rfl
  constructor
  · intro clean
    by_contra occupied
    obtain ⟨t, sent⟩ := mx6qTx_refused occupied
    have once := (clean t _ sent (by decide)).output
    rw [within] at once
    exact occupied (txEvents_quiet_iff.mp (Nat.succ_injective once))
  · intro vacant t e sent failed
    obtain ⟨rfl, freed⟩ := mx6qTx_failed vacant sent failed
    have quiet := txEvents_quiet_iff.mpr vacant
    refine ⟨rfl, freed, ?_, fun queue once => ?_⟩
    · rw [within, quiet]
    · rw [unlocks_append, quiet, once]

/-- Two frames are pending when the interface is stopped, of one descriptor and of two. The next
packet finds the last one still marked: it leaves `TXBD_R` in the second, and the send queue is
unlocked twice. -/
theorem tx_failure_stopped : ∃ sent s t, Run (TxStep smallTx) smallTx.init
      [.send ⟨0, 60, [⟨0x1000, 60⟩]⟩ ⟨none, none⟩,
        .send ⟨1, 100, [⟨0x2000, 14⟩, ⟨0x3000, 86⟩]⟩ ⟨none, none⟩] sent ∧
    smallTx.mx6qStop sent = s ∧
    smallTx.mx6qOutput ⟨none, none⟩ s ⟨2, 186, [⟨0x400e, 86⟩, ⟨0x5000, 50⟩, ⟨0x6000, 50⟩]⟩ =
      some (t, .tx .EINVAL,
        [.lock, .free ⟨2, 200, [⟨0x4000, 100⟩, ⟨0x5000, 50⟩, ⟨0x6000, 50⟩]⟩, .unlock, .unlock]) ∧
    (s.bd 1).ready = false ∧ (t.bd 1).ready = true ∧
    ¬FailsCleanly smallTx ⟨none, none⟩ s
      ⟨2, 200, [⟨0x4000, 100⟩, ⟨0x5000, 50⟩, ⟨0x6000, 50⟩]⟩ := by
  refine ⟨_, _, _, .cons ⟨by decide, _, rfl⟩ <| .single ⟨by decide, _, rfl⟩, rfl, rfl, rfl, rfl,
    fun clean => ?_⟩
  have once := (clean _ _ rfl (by decide)).output
  cases once

/-! ## Where failures come from -/

/-- While the ring holds a queue there is room for every packet that passes the test. -/
theorem TxInv.vacant (inv : TxInv cfg s q) (avail : MX6Q_MAX_FRAGS < cfg.descAvail s) :
    Vacant cfg alloc s m := by
  intro m' n load k within
  obtain ⟨_, few⟩ := toLoad_frags load
  have used := inv.inuse
  unfold TxConfig.descAvail at avail
  have blank := inv.ring.rest (q.length + k) (Nat.le_add_right _ _) (by omega)
  have here : cfg.NEXT_TX^[k] s.pidx = place cfg.numTx s.cidx (q.length + k) := by
    cases k with
    | zero => exact inv.pidx
    | succ k =>
      rw [cfg.NEXT_TX_iterate, inv.pidx, place, place, place, Nat.mod_add_mod, Nat.add_assoc]
  rw [here]
  exact congrArg TxSlot.ready blank

theorem TxInv.makeSpace (inv : TxInv cfg s q) : ∃ q', TxInv cfg (cfg.makeSpace s) q' := by
  obtain ⟨ops, run⟩ := reap_run (s := s)
  exact run.invariant (I := fun s => ∃ q, TxInv cfg s q) (fun ⟨_, inv⟩ step => inv.step step)
    ⟨q, inv⟩

theorem loopEvents_unlocks {queue left : List (Chain × TxAlloc)} (inv : TxInv cfg s q)
    (start : cfg.mx6qStart queue s = some (t, left)) : unlocks (cfg.loopEvents queue s) = 1 := by
  induction queue generalizing s q with
  | nil =>
    unfold TxConfig.loopEvents
    dsimp only
    split <;> rfl
  | cons head queue ih =>
    obtain ⟨q', inv'⟩ := inv.makeSpace
    unfold TxConfig.mx6qStart at start
    unfold TxConfig.loopEvents
    dsimp only at start ⊢
    rw [← TxConfig.makeSpace] at start
    split
    · rfl
    · rename_i avail
      rw [if_neg avail] at start
      obtain ⟨⟨next, e⟩, sent, rest⟩ := Option.bind_eq_some_iff.mp start
      have space := Int.not_le.mp avail
      have vacant : Vacant cfg head.2 (cfg.makeSpace s) head.1 := inv'.vacant space
      have step : TxStep cfg (cfg.makeSpace s) (.send head.1 head.2) next := ⟨space, e, sent⟩
      have quiet := txEvents_quiet_iff.mpr vacant
      obtain ⟨q'', inv''⟩ := inv'.step step
      rw [sent, unlocks_append, quiet, Nat.zero_add]
      exact ih inv'' rest

/-- From such a ring `mx6q_start` unlocks the send queue once, whatever packets are in it. -/
theorem startEvents_unlocks {queue left : List (Chain × TxAlloc)} (up : Bool)
    (inv : TxInv cfg s q) (start : cfg.mx6qStart queue s = some (t, left)) :
    unlocks (cfg.startEvents up queue s) = 1 := by
  cases up with
  | true => exact loopEvents_unlocks inv start
  | false =>
    have purged : unlocks (queue.map fun packet => TxEvent.free packet.1) = 0 := by
      apply List.count_eq_zero.mpr
      simp
    change unlocks (_ ++ [TxEvent.unlock]) = 1
    rw [unlocks_append, purged]
    rfl

theorem TxInv.numFree (inv : TxInv cfg s q) : (cfg.numFree s : Int) = cfg.descAvail s := by
  have used := inv.inuse
  have free := inv.free
  have maximum := cfg.maximum
  unfold MAX_NUM_TX_DESCRIPTORS at maximum
  unfold TxConfig.numFree TxConfig.descAvail
  omega

/-- So does `mx6q_output`. -/
theorem mx6qOutput_unlocks {e : OutputErrno} {trace : List TxEvent} (inv : TxInv cfg s q)
    (out : cfg.mx6qOutput alloc s m = some (t, e, trace)) : unlocks trace = 1 := by
  obtain ⟨q', inv'⟩ := inv.makeSpace
  have space : (if cfg.numFree s ≤ MX6Q_MAX_FRAGS then cfg.transmitComplete cfg.numTx s else s) =
      cfg.makeSpace s := by
    unfold TxConfig.makeSpace
    simp only [← inv.numFree, Int.ofNat_le]
  unfold TxConfig.mx6qOutput at out
  rw [space] at out
  dsimp only at out
  split at out
  · cases out
    rfl
  · rename_i avail
    have room : (MX6Q_MAX_FRAGS : Int) < cfg.descAvail (cfg.makeSpace s) := by
      rw [← inv'.numFree]
      exact Int.ofNat_lt.mpr (Nat.lt_of_not_le avail)
    have vacant : Vacant cfg alloc (cfg.makeSpace s) m.withHeader := inv'.vacant room
    split at out
    · cases out
    · cases out
      rw [unlocks_append, unlocks, List.count_cons_of_ne (by decide)]
      exact congrArg (· + 1) (txEvents_quiet_iff.mpr vacant)

end Mx6xBsp.Devnp
