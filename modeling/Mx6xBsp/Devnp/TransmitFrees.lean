import Mx6xBsp.Devnp.TransmitRing

/-!
# When transmitted mbufs are freed

The mbuf chain of a frame hangs on the frame's first descriptor, and
`mx6q_transmit_complete` frees it as soon as the NIC has released that one. The
NIC may then still be reading the fragments of the other descriptors.
`tx_lifetime_iff` says that the frees are in time in every interleaving exactly
when every frame takes one descriptor.
-/

namespace Mx6xBsp.Devnp

open Rings Runs

variable {cfg : TxConfig} {s t : TxRing} {q : List TxSlot} {ops : List TxOp}

/-- The NIC has released all descriptors of the frame that starts at `i`, up to the one with
`TXBD_L`. -/
def TxRing.Released (cfg : TxConfig) (s : TxRing) (i : Nat) : Prop :=
  ∃ n, (s.bd (place cfg.numTx i n)).last = true ∧
    ∀ k ≤ n, (s.bd (place cfg.numTx i k)).ready = false

/-- The chains that stand in `tx_pkts`, in ring order. -/
def TxRing.held (cfg : TxConfig) (s : TxRing) : List Chain :=
  (List.range cfg.numTx).filterMap fun k => s.pkts (place cfg.numTx s.cidx k)

/-- The NIC has released every descriptor and has written its updates. -/
def TxRing.AllReleased (cfg : TxConfig) (s : TxRing) : Prop :=
  ∀ i < cfg.numTx, (s.bd i).ready = false ∧ ((s.bd i).last = true → (s.bd i).bdu = true)

/-- The life of the mbuf chains: the reaper frees a chain only when its frame is released, each
accepted chain is freed once or still held, and `mx6q_transmit_complete` frees them all once the
NIC is done. -/
structure Lifetime (cfg : TxConfig) (s : TxRing) : Prop where
  after : ∀ t m, cfg.reapOne s = some t → s.pkts s.cidx = some m → s.Released cfg s.cidx
  once : s.accepted.Perm (s.freed ++ s.held cfg)
  all : s.AllReleased cfg → (cfg.transmitComplete cfg.numTx s).freed.Perm s.accepted

/-- Chains are taken from `S`, and the NIC goes through the descriptors in ring order. -/
def OrderedStep (cfg : TxConfig) (S : Set (Chain × TxAlloc)) (s : TxRing) (op : TxOp)
    (t : TxRing) : Prop :=
  TxStep cfg s op t ∧
    match op with
    | .send m alloc => (m, alloc) ∈ S
    | .release i => ∀ j k, j < k → k < cfg.numTx → i = place cfg.numTx s.cidx k →
        (s.bd (place cfg.numTx s.cidx j)).ready = false
    | _ => True

/-! ## Frees happen once -/

theorem TxInv.held (inv : TxInv cfg s q) : s.held cfg = chains q := by
  have free := inv.free
  have used : (List.range q.length).map (fun k => slotOf s.bd s.pkts (place cfg.numTx s.cidx k)) =
      q := by
    refine List.ext_getElem (by simp) fun k h h' => ?_
    rw [List.getElem_map, List.getElem_range]
    exact inv.ring.used k h'
  have rest : (List.range (cfg.numTx - q.length)).filterMap
      ((fun k => s.pkts (place cfg.numTx s.cidx k)) ∘ (q.length + ·)) = [] := by
    refine List.filterMap_eq_nil_iff.mpr fun k mem => ?_
    rw [List.mem_range] at mem
    exact congrArg TxSlot.chain (inv.ring.rest (q.length + k) (by omega) (by omega))
  have split : List.range cfg.numTx =
      List.range q.length ++ (List.range (cfg.numTx - q.length)).map (q.length + ·) := by
    rw [← List.range_add]
    congr 1
    omega
  unfold TxRing.held
  rw [split, List.filterMap_append, List.filterMap_map, rest, List.append_nil]
  conv => rhs; rw [← used]
  rw [chains, List.filterMap_map]
  rfl

theorem TxInv.reapOne {x : TxSlot} {rest : List TxSlot} (inv : TxInv cfg s (x :: rest))
    (ready : (s.bd s.cidx).ready = false)
    (written : (s.bd s.cidx).last = true → (s.bd s.cidx).bdu = true) :
    ∃ t, cfg.reapOne s = some t ∧ t.accepted = s.accepted ∧
      t.bd = Function.update s.bd s.cidx
        { s.bd s.cidx with ready := false, last := false, tc := false, bdu := false } := by
  have busy : s.pidx ≠ s.cidx := by
    intro same
    have first : place cfg.numTx s.cidx (x :: rest).length = place cfg.numTx s.cidx 0 := by
      rw [← inv.pidx, same, place_zero inv.ring.start]
    cases place_inj inv.free cfg.pos first
  have released : ¬((s.bd s.cidx).ready = true ∨
      ((s.bd s.cidx).last = true ∧ ¬(s.bd s.cidx).bdu = true)) := by
    rintro (owned | ⟨last, waiting⟩)
    · rw [ready] at owned
      cases owned
    · exact waiting (written last)
  refine ⟨{ s with
      freed := (s.pkts s.cidx).toList ++ s.freed
      pkts := Function.update s.pkts s.cidx none
      bd := Function.update s.bd s.cidx
        { s.bd s.cidx with ready := false, last := false, tc := false, bdu := false }
      inuse := s.inuse - 1
      cidx := cfg.NEXT_TX s.cidx }, ?_, rfl, rfl⟩
  unfold TxConfig.reapOne
  rw [if_pos busy]
  exact if_neg released

theorem TxInv.transmitComplete {fuel : Nat} (inv : TxInv cfg s q) (released : s.AllReleased cfg)
    (enough : q.length ≤ fuel) :
    TxInv cfg (cfg.transmitComplete fuel s) [] ∧
      (cfg.transmitComplete fuel s).accepted = s.accepted := by
  induction fuel generalizing s q with
  | zero =>
    obtain rfl := List.length_eq_zero_iff.mp (Nat.le_zero.mp enough)
    exact ⟨inv, rfl⟩
  | succ fuel ih =>
    rw [TxConfig.transmitComplete]
    cases q with
    | nil =>
      have idle : cfg.reapOne s = none := by
        unfold TxConfig.reapOne
        rw [if_neg]
        exact fun busy => busy (inv.pidx.trans (place_zero inv.ring.start))
      rw [idle]
      exact ⟨inv, rfl⟩
    | cons x rest =>
      obtain ⟨ready, written⟩ := released s.cidx inv.ring.start
      obtain ⟨t, reaped, accepted, bd⟩ := inv.reapOne ready written
      obtain ⟨_, _, same, _, _, inv'⟩ := inv.reap reaped
      cases same
      have released' : t.AllReleased cfg := by
        intro i within
        rw [bd]
        by_cases here : i = s.cidx
        · subst here
          rw [Function.update_self]
          exact ⟨rfl, fun last => by cases last⟩
        · rw [Function.update_of_ne here]
          exact released i within
      obtain ⟨inv'', same⟩ := ih inv' released' (Nat.le_of_succ_le_succ enough)
      rw [reaped]
      exact ⟨inv'', same.trans accepted⟩

theorem TxInv.freed_all (inv : TxInv cfg s q) (released : s.AllReleased cfg) :
    (cfg.transmitComplete cfg.numTx s).freed.Perm s.accepted := by
  obtain ⟨inv', accepted⟩ := inv.transmitComplete released inv.free.le
  have accounts := inv'.accounts
  rw [accepted, show chains [] = [] from rfl, List.append_nil] at accounts
  exact accounts.symm

/-! ## Frees in time -/

/-- While every descriptor in use ends its frame, a frame is released with its first descriptor. -/
theorem TxInv.released (inv : TxInv cfg s q) (single : ∀ x ∈ q, x.last = true)
    (reaped : cfg.reapOne s = some t) : s.Released cfg s.cidx := by
  obtain ⟨x, rest, rfl, ready, _, _⟩ := inv.reap reaped
  have head := inv.ring.head
  have zero := place_zero inv.ring.start
  refine ⟨0, ?_, fun k le => ?_⟩
  · rw [zero]
    exact (congrArg TxSlot.last head).trans (single x (List.mem_cons_self ..))
  · rw [Nat.le_zero.mp le, zero]
    exact (congrArg TxSlot.ready head).trans ready

/-- The invariant of the runs whose frames take one descriptor each. -/
def Single (cfg : TxConfig) (s : TxRing) : Prop := ∃ q, TxInv cfg s q ∧ ∀ x ∈ q, x.last = true

theorem Single.step {S : Set (Chain × TxAlloc)} {op : TxOp} (inv : Single cfg s)
    (small : ∀ p ∈ S, ∀ m n, cfg.toLoad p.2 p.1 = some (m, n) → n ≤ 1)
    (step : OrderedStep cfg S s op t) : Single cfg t := by
  obtain ⟨q, inv, single⟩ := inv
  obtain ⟨step, allowed⟩ := step
  cases op with
  | send m alloc =>
    obtain ⟨avail, e, sent⟩ := step
    rcases inv.send avail sent with ⟨_, rfl⟩ | ⟨m', n, _, load, pos, inv'⟩
    · exact ⟨q, inv, single⟩
    · have one : n = 1 := by
        have := small _ allowed m' n load
        omega
      subst one
      refine ⟨_, inv', fun x mem => ?_⟩
      rcases List.mem_append.mp mem with old | new
      · exact single x old
      · rw [List.mem_singleton.mp new]
        rfl
  | reap =>
    obtain ⟨x, rest, rfl, _, _, inv'⟩ := inv.reap step
    exact ⟨rest, inv', fun y mem => single y (List.mem_cons_of_mem _ mem)⟩
  | release i =>
    obtain ⟨k, _, _, inv'⟩ := inv.release step
    refine ⟨_, inv', fun y mem => ?_⟩
    obtain ⟨j, h, rfl⟩ := List.getElem_of_mem mem
    have within : j < q.length := by rwa [List.length_modify] at h
    rw [List.getElem_modify]
    split
    · change q[j].last = true
      exact single _ (List.getElem_mem _)
    · exact single _ (List.getElem_mem _)
  | update i => exact ⟨q, inv.update step, single⟩

theorem freed_early {S : Set (Chain × TxAlloc)} {p : Chain × TxAlloc} {m : Chain} {n : Nat}
    (listed : p ∈ S) (load : cfg.toLoad p.2 p.1 = some (m, n)) (several : 1 < n) :
    ∃ ops s, Run (OrderedStep cfg S) cfg.init ops s ∧ ¬Lifetime cfg s := by
  have avail : (MX6Q_MAX_FRAGS : Int) < cfg.descAvail cfg.init := by
    have := cfg.minimum
    unfold TxConfig.descAvail TxConfig.init MX6Q_MAX_FRAGS
    unfold MIN_NUM_TX_DESCRIPTORS at this
    dsimp only
    omega
  obtain ⟨sent, call, inv⟩ := (cfg.init_inv.send_frame avail load).2 (by omega)
  have room : n < cfg.numTx := by
    have := inv.free
    rwa [List.nil_append, length_frameSlots] at this
  have start : sent.cidx < cfg.numTx := inv.ring.start
  have slot : ∀ k < n, slotOf sent.bd sent.pkts (place cfg.numTx sent.cidx k) =
      ⟨true, decide (k + 1 = n), if k = 0 then some m else none⟩ := by
    intro k within
    have used := inv.ring.used k (by rwa [List.nil_append, length_frameSlots])
    simpa only [List.nil_append, getElem_frameSlots] using used
  have first := slot 0 (by omega)
  rw [place_zero start] at first
  have ready : (sent.bd sent.cidx).ready = true := congrArg TxSlot.ready first
  have last : (sent.bd sent.cidx).last = false :=
    (congrArg TxSlot.last first).trans (decide_eq_false (by omega))
  let released : TxRing := { sent with
    bd := Function.update sent.bd sent.cidx { sent.bd sent.cidx with ready := false } }
  have release : TxStep cfg sent (.release sent.cidx) released := ⟨start, ready, rfl⟩
  have here : released.bd sent.cidx = { sent.bd sent.cidx with ready := false } :=
    Function.update_self ..
  refine ⟨[.send p.1 p.2, .release sent.cidx], released,
    .cons ⟨⟨avail, _, call⟩, listed⟩ (.single ⟨release, ?_⟩), fun lifetime => ?_⟩
  · intro j k below within same
    have zero := place_inj cfg.pos within ((place_zero start).trans same)
    omega
  · have idle : (released.bd released.cidx).ready = false := congrArg TxBd.ready here
    have unmarked : (released.bd released.cidx).last = false := (congrArg TxBd.last here).trans last
    obtain ⟨k, _, _, inv'⟩ := inv.release release
    obtain ⟨x, rest, split⟩ :
        ∃ x rest, ([] ++ frameSlots m n).modify k TxSlot.done = x :: rest := by
      refine List.exists_cons_of_length_pos ?_
      rw [List.length_modify, List.nil_append, length_frameSlots]
      omega
    rw [split] at inv'
    obtain ⟨t, reaped, _, _⟩ := inv'.reapOne idle fun last => by
      rw [unmarked] at last
      cases last
    have carried : released.pkts released.cidx = some m := congrArg TxSlot.chain first
    obtain ⟨stop, lastAt, done⟩ := lifetime.after t m reaped carried
    rcases Nat.eq_zero_or_pos stop with rfl | later
    · rw [place_zero start, unmarked] at lastAt
      cases lastAt
    · have second := congrArg TxSlot.ready (slot 1 several)
      have apart : place cfg.numTx sent.cidx 1 ≠ sent.cidx := by
        intro same
        have := place_inj (by omega) cfg.pos (same.trans (place_zero start).symm)
        omega
      have owned : (released.bd (place cfg.numTx released.cidx 1)).ready = true :=
        (congrArg TxBd.ready (Function.update_of_ne apart _ _)).trans second
      rw [done 1 later] at owned
      cases owned

/-- In every interleaving over the chains of `S` the frees are right, exactly when every frame
takes one descriptor. -/
theorem tx_lifetime_iff (cfg : TxConfig) (S : Set (Chain × TxAlloc)) :
    (∀ ops s, Run (OrderedStep cfg S) cfg.init ops s → Lifetime cfg s) ↔
      ∀ p ∈ S, ∀ m n, cfg.toLoad p.2 p.1 = some (m, n) → n ≤ 1 := by
  constructor
  · intro correct p listed m n load
    by_contra several
    obtain ⟨ops, s, run, broken⟩ := freed_early listed load (by omega)
    exact broken (correct ops s run)
  · intro small ops s run
    obtain ⟨q, inv, single⟩ := run.invariant (I := Single cfg)
      (fun inv step => inv.step small step) ⟨[], cfg.init_inv, fun x mem => by cases mem⟩
    exact ⟨fun t m reaped _ => inv.released single reaped, by rw [inv.held]; exact inv.accounts,
      inv.freed_all⟩

/-- Two fragments: the reaper frees both when the NIC has released the first. -/
theorem tx_lifetime_broken : ∃ s t, Run (OrderedStep smallTx Set.univ) smallTx.init
      [.send ⟨0, 100, [⟨0x1000, 14⟩, ⟨0x2000, 86⟩]⟩ ⟨none, none⟩, .release 0] s ∧
    smallTx.reapOne s = some t ∧
    t.freed = [⟨0, 100, [⟨0x1000, 14⟩, ⟨0x2000, 86⟩]⟩] ∧ (t.bd 1).ready = true ∧
    ¬s.Released smallTx s.cidx := by
  refine ⟨_, _, .cons ⟨⟨by decide, _, rfl⟩, trivial⟩ <|
    .single ⟨⟨by decide, rfl, rfl⟩, ?_⟩, rfl, rfl, rfl, ?_⟩
  · intro j k below within same
    have zero : 0 = k := place_inj (N := smallTx.numTx) (c := 0) smallTx.pos within same
    omega
  · rintro ⟨n, last, done⟩
    rcases Nat.eq_zero_or_pos n with rfl | later
    · cases last
    · cases done 1 later

end Mx6xBsp.Devnp
