import Mx6xBsp.Devnp.Transmit
import Mx6xBsp.Lib.Rings

/-!
# The transmit ring as a queue

Between `tx_cidx` and `tx_pidx` the ring holds the descriptors in use, and no
other descriptor is marked or has an mbuf (`TxInv`). `mx6q_tx` appends the
descriptors of a frame, the reaper takes the first one off, and the NIC only
clears bits. The accounting of the driver follows for every run
(`tx_accounting`).
-/

namespace Mx6xBsp.Devnp

open Rings Runs

/-- What the queue says about a descriptor. -/
@[ext] structure TxSlot where
  ready : Bool
  last : Bool
  chain : Option Chain

def TxSlot.blank : TxSlot := ⟨false, false, none⟩

def slotOf (bd : Nat → TxBd) (pkts : Nat → Option Chain) (i : Nat) : TxSlot :=
  ⟨(bd i).ready, (bd i).last, pkts i⟩

/-- The chains of the descriptors in use. -/
def chains (q : List TxSlot) : List Chain := q.filterMap TxSlot.chain

variable {cfg : TxConfig} {s t : TxRing} {q : List TxSlot} {bd : Nat → TxBd}
  {pkts : Nat → Option Chain} {alloc : TxAlloc} {m : Chain}

/-- The ring holds the queue `q`. -/
structure TxInv (cfg : TxConfig) (s : TxRing) (q : List TxSlot) : Prop where
  ring : Ring cfg.numTx s.cidx (slotOf s.bd s.pkts) .blank q
  free : q.length < cfg.numTx
  pidx : s.pidx = place cfg.numTx s.cidx q.length
  inuse : s.inuse = q.length
  wrap : ∀ i, (s.bd i).wrap = decide (i = cfg.numTx - 1)
  accounts : s.accepted.Perm (s.freed ++ chains q)

theorem TxConfig.pos (cfg : TxConfig) : 0 < cfg.numTx :=
  lt_of_lt_of_le (by decide) cfg.minimum

theorem TxConfig.init_inv : TxInv cfg cfg.init [] where
  ring := Ring.empty cfg.pos fun _ _ => rfl
  free := cfg.pos
  pidx := (place_zero cfg.pos).symm
  inuse := rfl
  wrap _ := rfl
  accounts := List.Perm.refl _

theorem slotOf_bd (i : Nat) (d : TxBd) :
    slotOf (Function.update bd i d) pkts =
      Function.update (slotOf bd pkts) i ⟨d.ready, d.last, pkts i⟩ := by
  funext j
  by_cases same : j = i
  · subst same
    simp [slotOf]
  · simp [slotOf, Function.update_of_ne same]

theorem slotOf_pkts (i : Nat) (c : Option Chain) :
    slotOf bd (Function.update pkts i c) =
      Function.update (slotOf bd pkts) i { slotOf bd pkts i with chain := c } := by
  funext j
  by_cases same : j = i
  · subst same
    simp [slotOf]
  · simp [slotOf, Function.update_of_ne same]

theorem wrap_update {i : Nat} {d : TxBd} (wrap : ∀ i, (bd i).wrap = decide (i = cfg.numTx - 1))
    (same : d.wrap = (bd i).wrap) (j : Nat) :
    (Function.update bd i d j).wrap = decide (j = cfg.numTx - 1) := by
  by_cases here : j = i
  · subst here
    rw [Function.update_self, same]
    exact wrap j
  · rw [Function.update_of_ne here]
    exact wrap j

/-! ## Loading -/

/-- The descriptors of a frame while they are loaded: the first one is not ready. -/
def loading (k : Nat) : List TxSlot :=
  (List.range k).map fun j => ⟨decide (0 < j), false, none⟩

/-- The descriptors of a frame of `n` fragments. -/
def frameSlots (m : Chain) (n : Nat) : List TxSlot :=
  (List.range n).map fun j => ⟨true, decide (j + 1 = n), if j = 0 then some m else none⟩

theorem length_loading {k : Nat} : (loading k).length = k := by simp [loading]

theorem length_frameSlots {n : Nat} : (frameSlots m n).length = n := by simp [frameSlots]

theorem loading_succ {k : Nat} :
    loading (k + 1) = loading k ++ [⟨decide (0 < k), false, none⟩] := by
  simp [loading, List.range_succ]

theorem chains_frameSlots {n : Nat} (pos : 0 < n) : chains (frameSlots m n) = [m] := by
  obtain ⟨n, rfl⟩ := Nat.exists_eq_add_one_of_ne_zero (by omega : n ≠ 0)
  have others : (List.range n).filterMap
      ((fun j => if j = 0 then some m else none) ∘ Nat.succ) = [] :=
    List.filterMap_eq_nil_iff.mpr fun j _ => by simp
  rw [chains, frameSlots, List.filterMap_map, List.range_succ_eq_map, List.filterMap_cons,
    List.filterMap_map]
  exact congrArg (m :: ·) others

/-- The loop has loaded `k` descriptors behind `q`. -/
structure LoadInv (cfg : TxConfig) (c : Nat) (pkts : Nat → Option Chain) (q : List TxSlot)
    (l : TxLoad) (k : Nat) : Prop where
  ring : Ring cfg.numTx c (slotOf l.bd pkts) .blank (q ++ loading k)
  idx : l.idx = place cfg.numTx c (q.length + k)
  first : l.first = if k = 0 then none else some (place cfg.numTx c q.length)
  cur : l.cur = if k = 0 then none else some (place cfg.numTx c (q.length + (k - 1)))
  wrap : ∀ i, (l.bd i).wrap = decide (i = cfg.numTx - 1)

theorem LoadInv.one {c k : Nat} {l : TxLoad} {m2 : Mbuf} (inv : LoadInv cfg c pkts q l k)
    (room : q.length + k < cfg.numTx) :
    (l.bd l.idx).ready = false ∧ LoadInv cfg c pkts q (cfg.loadOne l m2) (k + 1) := by
  have length : (q ++ loading k).length = q.length + k := by
    rw [List.length_append, length_loading]
  have blank : slotOf l.bd pkts l.idx = .blank := by
    rw [inv.idx]
    exact inv.ring.rest _ length.le room
  have ready : (l.bd l.idx).ready = false := congrArg TxSlot.ready blank
  have last : (l.bd l.idx).last = false := congrArg TxSlot.last blank
  have chain : pkts l.idx = none := congrArg TxSlot.chain blank
  have started : l.first.isSome = decide (0 < k) := by
    rw [inv.first]
    by_cases zero : k = 0
    · simp [zero]
    · simp [zero, Nat.pos_of_ne_zero zero]
  refine ⟨ready, ?_, ?_, ?_, ?_, ?_⟩
  · have pushed := inv.ring.push (x := ⟨decide (0 < k), false, none⟩) (by omega)
    rw [length, ← inv.idx, List.append_assoc, ← loading_succ] at pushed
    convert pushed using 1
    unfold TxConfig.loadOne
    rw [slotOf_bd, started]
    by_cases zero : 0 < k
    · simp [zero, last, chain]
    · simp [zero, ready, last, chain]
  · change cfg.NEXT_TX l.idx = _
    rw [inv.idx, TxConfig.NEXT_TX, next_place]
    rfl
  · change (if l.first.isSome then l.first else some l.idx) = _
    rw [inv.first, inv.idx]
    by_cases zero : k = 0
    · simp [zero]
    · simp [zero]
  · change some l.idx = _
    rw [inv.idx]
    simp
  · change ∀ i, (Function.update l.bd l.idx _ i).wrap = _
    refine fun i => wrap_update inv.wrap ?_ i
    split <;> rfl

theorem loadDescriptors_inv {c k : Nat} {l : TxLoad} {mbufs : List Mbuf}
    (inv : LoadInv cfg c pkts q l k)
    (room : q.length + k + (mbufs.filter fun m2 => m2.len ≠ 0).length ≤ cfg.numTx) :
    ∃ l', cfg.loadDescriptors mbufs l = .ok l' ∧
      LoadInv cfg c pkts q l' (k + (mbufs.filter fun m2 => m2.len ≠ 0).length) := by
  induction mbufs generalizing l k with
  | nil => exact ⟨l, rfl, inv⟩
  | cons m2 rest ih =>
    by_cases empty : m2.len = 0
    · simp only [TxConfig.loadDescriptors, empty, if_true]
      rw [List.filter_cons_of_neg (by simpa using empty)] at room ⊢
      exact ih inv room
    · rw [List.filter_cons_of_pos (by simpa using empty), List.length_cons] at room ⊢
      obtain ⟨notReady, next⟩ := inv.one (by omega)
      obtain ⟨l', loaded, inv'⟩ := ih next (by omega)
      refine ⟨l', ?_, ?_⟩
      · rw [TxConfig.loadDescriptors, if_neg empty, if_neg (by simp [notReady]), loaded]
      · rwa [Nat.add_assoc, Nat.add_comm 1] at inv'

/-! ## Sending -/

def TxSlot.start (x : TxSlot) : TxSlot := { x with ready := true }
def TxSlot.stop (x : TxSlot) : TxSlot := { x with last := true }
def TxSlot.carry (m : Chain) (x : TxSlot) : TxSlot := { x with chain := some m }

theorem getElem_loading {n j : Nat} (h : j < (loading n).length) :
    (loading n)[j] = ⟨decide (0 < j), false, none⟩ := by
  simp [loading]

theorem getElem_frameSlots {n j : Nat} (h : j < (frameSlots m n).length) :
    (frameSlots m n)[j] = ⟨true, decide (j + 1 = n), if j = 0 then some m else none⟩ := by
  simp [frameSlots]

theorem slotOf_startFrame_single {i : Nat} : slotOf (startFrame bd i i) pkts =
    Function.update (slotOf bd pkts) i (slotOf bd pkts i).start.stop := by
  rw [startFrame, if_pos rfl]
  exact slotOf_bd _ _

theorem slotOf_startFrame_multi {first cur : Nat} (apart : first ≠ cur) :
    slotOf (startFrame bd first cur) pkts =
      Function.update (Function.update (slotOf bd pkts) cur (slotOf bd pkts cur).stop) first
        (Function.update (slotOf bd pkts) cur (slotOf bd pkts cur).stop first).start := by
  rw [startFrame, if_neg apart]
  refine (slotOf_bd _ _).trans ?_
  rw [slotOf_bd]
  congr 1
  rw [Function.update_of_ne apart, Function.update_of_ne apart]
  rfl

theorem frameSlots_eq {n : Nat} (several : 1 < n) :
    (((loading n).modify (n - 1) TxSlot.stop).modify 0 TxSlot.start).modify 0 (TxSlot.carry m) =
      frameSlots m n := by
  refine List.ext_getElem (by simp [length_loading, length_frameSlots]) fun j h h' => ?_
  rw [length_frameSlots] at h'
  simp only [List.getElem_modify, getElem_loading, getElem_frameSlots]
  by_cases first : j = 0
  · subst first
    simp [TxSlot.start, TxSlot.carry, show n - 1 ≠ 0 by omega, show 1 ≠ n by omega]
  · by_cases last : n - 1 = j
    · simp [Ne.symm first, first, last, TxSlot.stop, show j + 1 = n by omega,
        Nat.pos_of_ne_zero first]
    · simp [Ne.symm first, first, last, show j + 1 ≠ n by omega, Nat.pos_of_ne_zero first]

theorem startFrame_wrap {first cur : Nat} (wrap : ∀ i, (bd i).wrap = decide (i = cfg.numTx - 1))
    (i : Nat) : (startFrame bd first cur i).wrap = decide (i = cfg.numTx - 1) := by
  unfold startFrame
  split
  · exact wrap_update wrap (by rfl) i
  · exact wrap_update (wrap_update wrap (by rfl)) (by rfl) i

/-- The last writes of `mx6q_tx` turn what was loaded into a frame. -/
theorem startFrame_ring {c n : Nat}
    (ring : Ring cfg.numTx c (slotOf bd pkts) .blank (q ++ loading n)) (pos : 0 < n) :
    Ring cfg.numTx c
      (slotOf (startFrame bd (place cfg.numTx c q.length) (place cfg.numTx c (q.length + (n - 1))))
        (Function.update pkts (place cfg.numTx c q.length) (some m))) .blank
      (q ++ frameSlots m n) := by
  have room := ring.room
  rw [List.length_append, length_loading] at room
  have length : (q ++ loading n).length = q.length + n := by
    rw [List.length_append, length_loading]
  rw [slotOf_pkts]
  by_cases single : n = 1
  · subst single
    have marked := ring.modify (fun x => x.start.stop) (i := q.length + 0) (by omega)
    have carried := marked.modify (TxSlot.carry m) (i := q.length + 0) (by
      rw [List.length_modify]
      omega)
    rw [modify_append, modify_append, Nat.add_zero] at carried
    rw [Nat.sub_self, Nat.add_zero, slotOf_startFrame_single]
    exact carried
  · have apart : place cfg.numTx c q.length ≠ place cfg.numTx c (q.length + (n - 1)) := by
      intro same
      have := place_inj (by omega) (by omega) same
      omega
    have stopped := ring.modify TxSlot.stop (i := q.length + (n - 1)) (by omega)
    have started := stopped.modify TxSlot.start (i := q.length + 0) (by
      rw [List.length_modify]
      omega)
    have carried := started.modify (TxSlot.carry m) (i := q.length + 0) (by
      rw [List.length_modify, List.length_modify]
      omega)
    rw [modify_append, modify_append, modify_append, frameSlots_eq (by omega),
      Nat.add_zero] at carried
    rw [slotOf_startFrame_multi apart]
    exact carried

theorem numFrag_eq (few : cfg.numFrag m ≤ MX6Q_MAX_FRAGS) : cfg.numFrag m = m.frags.length := by
  unfold TxConfig.numFrag Chain.frags at *
  generalize m.mbufs = mbufs at *
  induction mbufs with
  | nil => rfl
  | cons m2 rest ih =>
    rw [List.map_cons, List.sum_cons] at few ⊢
    rw [ih (by omega)]
    by_cases empty : m2.len = 0
    · simp [TxConfig.fragCount, empty]
    · have one : cfg.fragCount m2 = 1 := by
        have small : cfg.fragCount m2 ≤ MX6Q_MAX_FRAGS := by omega
        unfold TxConfig.fragCount at small ⊢
        rw [if_pos empty] at small ⊢
        split at small
        · omega
        · rename_i aligned
          rw [if_neg aligned]
      rw [one, List.filter_cons_of_pos (by simpa using empty), List.length_cons, Nat.add_comm]

theorem mx6qDefrag_frags {m' : Chain} (defrag : cfg.mx6qDefrag alloc m = some m') :
    m'.frags.length ≤ MX6Q_MAX_FRAGS := by
  have kept : m'.frags.length ≤ m'.mbufs.length := List.length_filter_le _ _
  unfold TxConfig.mx6qDefrag at defrag
  split at defrag
  · split at defrag
    · cases defrag
    · split at defrag
      · cases defrag
      · cases defrag
        omega
  · split at defrag
    · cases defrag
    · cases defrag
      exact kept.trans (by simp [MX6Q_MAX_FRAGS])

/-- What is loaded has at most `MX6Q_MAX_FRAGS` fragments, and they are what is counted. -/
theorem toLoad_frags {m' : Chain} {n : Nat} (load : cfg.toLoad alloc m = some (m', n)) :
    n = m'.frags.length ∧ n ≤ MX6Q_MAX_FRAGS := by
  unfold TxConfig.toLoad at load
  split at load
  · obtain ⟨m2, defrag, same⟩ := Option.map_eq_some_iff.mp load
    cases same
    exact ⟨rfl, mx6qDefrag_frags defrag⟩
  · rename_i few
    cases load
    exact ⟨numFrag_eq (Nat.le_of_not_lt few), Nat.le_of_not_lt few⟩

/-- `mx6q_tx` appends the descriptors of the frame: there is room for them. -/
theorem TxInv.send_frame {m' : Chain} {n : Nat} (inv : TxInv cfg s q)
    (avail : MX6Q_MAX_FRAGS < cfg.descAvail s) (load : cfg.toLoad alloc m = some (m', n)) :
    (n = 0 → cfg.mx6qTx alloc s m = none) ∧ (0 < n → ∃ t,
      cfg.mx6qTx alloc s m = some (t, .EOK) ∧ TxInv cfg t (q ++ frameSlots m' n)) := by
  obtain ⟨count, few⟩ := toLoad_frags load
  have start : LoadInv cfg s.cidx s.pkts q ⟨s.bd, none, none, s.pidx⟩ 0 :=
    ⟨by simpa [loading] using inv.ring, inv.pidx, rfl, rfl, inv.wrap⟩
  have room : q.length + n < cfg.numTx := by
    have used := inv.inuse
    unfold TxConfig.descAvail at avail
    omega
  obtain ⟨l, loaded, inv'⟩ := loadDescriptors_inv start (by
    change q.length + 0 + m'.frags.length ≤ _
    omega)
  change LoadInv _ _ _ _ _ (0 + m'.frags.length) at inv'
  rw [Nat.zero_add, ← count] at inv'
  simp only [TxConfig.mx6qTx, load, loaded, inv'.first, inv'.cur]
  refine ⟨fun zero => by rw [if_pos zero], fun pos => ?_⟩
  have nonzero : n ≠ 0 := by omega
  rw [if_neg nonzero, if_neg nonzero]
  refine ⟨_, rfl, ?_, ?_, ?_, ?_, ?_, ?_⟩
  · rw [inv.pidx]
    exact startFrame_ring inv'.ring pos
  · rw [List.length_append, length_frameSlots]
    exact room
  · rw [List.length_append, length_frameSlots]
    exact inv'.idx
  · have used := inv.inuse
    rw [List.length_append, length_frameSlots]
    change s.inuse + (n : Int) = ((q.length + n : Nat) : Int)
    omega
  · exact startFrame_wrap inv'.wrap
  · rw [chains, List.filterMap_append]
    change (m' :: s.accepted).Perm (s.freed ++ (chains q ++ chains (frameSlots m' n)))
    rw [chains_frameSlots pos, ← List.append_assoc]
    exact (inv.accounts.cons m').trans (List.perm_append_singleton _ _).symm

/-- What a call of `mx6q_tx` that returns has done. -/
theorem TxInv.send {e : Errno} (inv : TxInv cfg s q) (avail : MX6Q_MAX_FRAGS < cfg.descAvail s)
    (sent : cfg.mx6qTx alloc s m = some (t, e)) :
    e = .ENOMEM ∧ t = s ∨ ∃ m' n, e = .EOK ∧ cfg.toLoad alloc m = some (m', n) ∧ 0 < n ∧
      TxInv cfg t (q ++ frameSlots m' n) := by
  cases load : cfg.toLoad alloc m with
  | none =>
    rw [TxConfig.mx6qTx, load] at sent
    cases sent
    exact Or.inl ⟨rfl, rfl⟩
  | some frame =>
    obtain ⟨m', n⟩ := frame
    obtain ⟨crash, frame⟩ := inv.send_frame avail load
    rcases Nat.eq_zero_or_pos n with zero | pos
    · rw [crash zero] at sent
      cases sent
    · obtain ⟨t', sent', inv'⟩ := frame pos
      rw [sent'] at sent
      cases sent
      exact Or.inr ⟨m', n, rfl, rfl, pos, inv'⟩

/-! ## Reaping, and the NIC -/

/-- An iteration of the reaper takes the first descriptor, which the NIC has released. -/
theorem TxInv.reap (inv : TxInv cfg s q) (reaped : cfg.reapOne s = some t) :
    ∃ x rest, q = x :: rest ∧ x.ready = false ∧ t.freed = x.chain.toList ++ s.freed ∧
      TxInv cfg t rest := by
  unfold TxConfig.reapOne at reaped
  split at reaped
  · rename_i busy
    dsimp only at reaped
    split at reaped
    · cases reaped
    · rename_i released
      cases reaped
      cases q with
      | nil => exact absurd (inv.pidx.trans (place_zero inv.ring.start)) busy
      | cons x rest =>
        have head := inv.ring.head
        have free := inv.free
        rw [List.length_cons] at free
        refine ⟨x, rest, rfl, ?_, ?_, ?_, by omega, ?_, ?_, ?_, ?_⟩
        · rw [← head]
          simpa [slotOf] using fun ready => released (Or.inl ready)
        · rw [← head]
          rfl
        · change Ring _ (place cfg.numTx s.cidx 1)
            (slotOf (Function.update s.bd s.cidx _) (Function.update s.pkts s.cidx none)) _ _
          rw [slotOf_pkts, slotOf_bd, Function.update_self, Function.update_idem]
          exact inv.ring.pop
        · have last := inv.pidx
          rw [List.length_cons, ← place_next] at last
          exact last
        · have used := inv.inuse
          rw [List.length_cons] at used
          change s.inuse - 1 = (rest.length : Int)
          omega
        · exact wrap_update inv.wrap (by rfl)
        · have chain : s.pkts s.cidx = x.chain := congrArg TxSlot.chain head
          have accounts := inv.accounts
          unfold chains at accounts ⊢
          change s.accepted.Perm (((s.pkts s.cidx).toList ++ s.freed) ++ _)
          rw [chain]
          cases carried : x.chain with
          | none => simpa [List.filterMap_cons, carried] using accounts
          | some m =>
            rw [List.filterMap_cons, carried] at accounts
            exact accounts.trans List.perm_middle
  · cases reaped

theorem chains_modify {k : Nat} {f : TxSlot → TxSlot} (keeps : ∀ x, (f x).chain = x.chain) :
    chains (q.modify k f) = chains q := by
  have same : (q.modify k f).map TxSlot.chain = q.map TxSlot.chain := by
    refine List.ext_getElem (by simp) fun j h h' => ?_
    rw [List.getElem_map, List.getElem_map, List.getElem_modify]
    split
    · exact keeps _
    · rfl
  have map : ∀ q : List TxSlot, chains q = (q.map TxSlot.chain).filterMap id := by
    intro q
    rw [List.filterMap_map]
    rfl
  rw [map, same, ← map]

/-- The descriptor as the NIC leaves it. -/
def TxSlot.done (x : TxSlot) : TxSlot := { x with ready := false }

theorem TxInv.release {i : Nat} (inv : TxInv cfg s q) (step : TxStep cfg s (.release i) t) :
    ∃ k, k < q.length ∧ i = place cfg.numTx s.cidx k ∧ TxInv cfg t (q.modify k TxSlot.done) := by
  obtain ⟨within, ready, rfl⟩ := step
  rcases inv.ring.cases within with ⟨k, h, rfl, _⟩ | blank
  · refine ⟨k, h, rfl, ?_, ?_, ?_, ?_, ?_, ?_⟩
    · change Ring _ _ (slotOf (Function.update s.bd _ _) s.pkts) _ _
      rw [slotOf_bd]
      exact inv.ring.modify TxSlot.done h
    · rw [List.length_modify]
      exact inv.free
    · rw [List.length_modify]
      exact inv.pidx
    · rw [List.length_modify]
      exact inv.inuse
    · exact wrap_update inv.wrap (by rfl)
    · rw [chains_modify (f := TxSlot.done) fun _ => rfl]
      exact inv.accounts
  · have idle : (s.bd i).ready = false := congrArg TxSlot.ready blank
    rw [ready] at idle
    cases idle

/-- `BD_BDU` is not part of the queue. -/
theorem TxInv.update {i : Nat} (inv : TxInv cfg s q) (step : TxStep cfg s (.update i) t) :
    TxInv cfg t q := by
  obtain ⟨_, rfl⟩ := step
  refine ⟨?_, inv.free, inv.pidx, inv.inuse, wrap_update inv.wrap (by rfl), inv.accounts⟩
  change Ring _ _ (slotOf (Function.update s.bd _ _) s.pkts) _ _
  rw [slotOf_bd]
  have same : Function.update (slotOf s.bd s.pkts) i (slotOf s.bd s.pkts i) =
      slotOf s.bd s.pkts := Function.update_eq_self _ _
  have ring := inv.ring
  rw [← same] at ring
  exact ring

theorem TxInv.step {op : TxOp} (inv : TxInv cfg s q) (step : TxStep cfg s op t) :
    ∃ q', TxInv cfg t q' := by
  cases op with
  | send m alloc =>
    obtain ⟨avail, e, sent⟩ := step
    rcases inv.send avail sent with ⟨_, rfl⟩ | ⟨m', n, _, _, _, inv'⟩
    · exact ⟨q, inv⟩
    · exact ⟨_, inv'⟩
  | reap =>
    obtain ⟨_, rest, _, _, _, inv'⟩ := inv.reap step
    exact ⟨rest, inv'⟩
  | release i =>
    obtain ⟨k, _, _, inv'⟩ := inv.release step
    exact ⟨_, inv'⟩
  | update i => exact ⟨q, inv.update step⟩

/-! ## Runs -/

variable {ops : List TxOp}

theorem tx_run (run : Run (TxStep cfg) cfg.init ops s) : ∃ q, TxInv cfg s q :=
  run.invariant (I := fun s => ∃ q, TxInv cfg s q)
    (fun ⟨_, inv⟩ step => inv.step step) ⟨[], cfg.init_inv⟩

/-- `mx6q_transmit_complete` is a run of its iterations. -/
theorem transmitComplete_run (fuel : Nat) :
    ∃ ops, Run (TxStep cfg) s ops (cfg.transmitComplete fuel s) := by
  induction fuel generalizing s with
  | zero => exact ⟨[], .nil⟩
  | succ fuel ih =>
    rw [TxConfig.transmitComplete]
    cases reaped : cfg.reapOne s with
    | none => exact ⟨[], .nil⟩
    | some t =>
      obtain ⟨ops, run⟩ := ih (s := t)
      exact ⟨.reap :: ops, .cons reaped run⟩

/-- The reaping at the head of the loop of `mx6q_start`. -/
theorem reap_run : ∃ ops, Run (TxStep cfg) s ops
    (if cfg.descAvail s ≤ MX6Q_MAX_FRAGS then cfg.transmitComplete cfg.numTx s else s) := by
  split
  · exact transmitComplete_run _
  · exact ⟨[], .nil⟩

/-- The transmit ring's accounting in every run. -/
theorem tx_accounting (run : Run (TxStep cfg) cfg.init ops s) :
    s.inuse = ((s.pidx : Int) - s.cidx) % cfg.numTx ∧ s.inuse < cfg.numTx ∧
      (s.pidx = s.cidx → s.inuse = 0) ∧
      (∀ i < cfg.numTx, (s.bd i).wrap = true ↔ i = cfg.numTx - 1) ∧
      ∀ m alloc t e, MX6Q_MAX_FRAGS < cfg.descAvail s → cfg.mx6qTx alloc s m = some (t, e) →
        e ≠ .EINVAL := by
  obtain ⟨q, inv⟩ := tx_run run
  have free := inv.free
  have used := inv.inuse
  have distance : s.inuse = ((s.pidx : Int) - s.cidx) % cfg.numTx := by
    rw [used, inv.pidx, place, Int.natCast_emod, Int.natCast_add, Int.sub_emod, Int.emod_emod,
      ← Int.sub_emod, add_sub_cancel_left, Int.emod_eq_of_lt (by omega) (by omega)]
  refine ⟨distance, by omega, fun same => ?_, fun i _ => ?_, fun m alloc t e avail sent => ?_⟩
  · rw [distance, same, Int.sub_self, Int.zero_emod]
  · rw [inv.wrap, decide_eq_true_eq]
  · rcases inv.send avail sent with ⟨rfl, _⟩ | ⟨_, _, rfl, _⟩
    · decide
    · decide

/-- The smallest ring. -/
def smallTx : TxConfig := .detect 0 false 2048

/-- A frame of two fragments is sent and the NIC releases the first. -/
theorem tx_accounting_small : ∃ s, Run (TxStep smallTx) smallTx.init
      [.send ⟨0, 100, [⟨0x1000, 14⟩, ⟨0x2000, 86⟩]⟩ ⟨none, none⟩, .release 0, .reap] s ∧
    s.inuse = ((s.pidx : Int) - s.cidx) % smallTx.numTx ∧ s.pidx = 2 ∧ s.cidx = 1 := by
  have run : Run (TxStep smallTx) smallTx.init
      [.send ⟨0, 100, [⟨0x1000, 14⟩, ⟨0x2000, 86⟩]⟩ ⟨none, none⟩, .release 0, .reap] _ :=
    .cons ⟨by decide, _, rfl⟩ <| .cons ⟨by decide, rfl, rfl⟩ <| .single rfl
  exact ⟨_, run, (tx_accounting run).1, rfl, rfl⟩

end Mx6xBsp.Devnp
