import Mathlib.Data.List.DropRight
import Mathlib.Data.List.Nodup
import Mx6xBsp.Devnp.Receive
import Mx6xBsp.Lib.Rings

/-!
# Reassembly of received frames

What the driver has of a frame are the parts behind the last one it has dropped
(`kept`), while the length of the last descriptor is that of the whole frame.
A packet is right exactly when nothing of its frame was dropped, and
`rx_reassembly_iff` says which sequences of descriptors give right packets only.
The descriptors own their mbufs in every run (`rx_owned`).
-/

namespace Mx6xBsp.Devnp

open Rings Runs

variable {cfg : RxConfig} {s t : RxSystem} {f : Fill} {env : RxEnv}

/-! ## Lengths and parts -/

/-- The length of the parts. -/
def partsLen (seen : List (Fill × Bool)) : Nat := (seen.map fun x => x.1.bytes.length).sum

/-- The length of a frame of which `acc` bytes are there, with one more part. -/
def frameNext (acc : Nat) (f : Fill) : Nat := if f.last then 0 else acc + f.bytes.length

/-- The descriptors as the NIC writes them, `acc` bytes into a frame. -/
def stamped (acc : Nat) : List Fill → List (Fill × Nat)
  | [] => []
  | f :: fs =>
    (f, if f.last then acc + f.bytes.length else f.bytes.length) :: stamped (frameNext acc f) fs

/-- The parts behind the last one that was dropped. -/
def kept (seen : List (Fill × Bool)) : List Fill :=
  (seen.rtakeWhile fun x => !x.2).map Prod.fst

def keptLen (seen : List (Fill × Bool)) : Nat := ((kept seen).map fun f => f.bytes.length).sum

theorem partsLen_concat {seen : List (Fill × Bool)} {b : Bool} :
    partsLen (seen ++ [(f, b)]) = partsLen seen + f.bytes.length := by
  simp [partsLen]

theorem kept_drop {seen : List (Fill × Bool)} : kept (seen ++ [(f, true)]) = [] := by
  rw [kept, List.rtakeWhile_concat_neg _ _ _ (by simp)]
  rfl

theorem kept_keep {seen : List (Fill × Bool)} :
    kept (seen ++ [(f, false)]) = kept seen ++ [f] := by
  rw [kept, List.rtakeWhile_concat_pos _ _ _ (by simp), List.map_append]
  rfl

theorem kept_all {seen : List (Fill × Bool)} (all : ∀ x ∈ seen, x.2 = false) :
    kept seen = seen.map Prod.fst := by
  rw [kept, List.rtakeWhile_eq_self_iff.mpr fun x mem => by simp [all x mem]]

theorem length_stamped {acc : Nat} {fs : List Fill} : (stamped acc fs).length = fs.length := by
  induction fs generalizing acc with
  | nil => rfl
  | cons f fs ih => rw [stamped, List.length_cons, List.length_cons, ih]

theorem stamped_concat {acc : Nat} {fs : List Fill} :
    stamped acc (fs ++ [f]) = stamped acc fs ++ [(f,
      if f.last then fs.foldl frameNext acc + f.bytes.length else f.bytes.length)] := by
  induction fs generalizing acc with
  | nil => rfl
  | cons g fs ih =>
    rw [List.cons_append, stamped, stamped, ih]
    rfl

/-! ## The invariant -/

/-- What a descriptor that the NIC has filled holds. -/
def rxSlot (ring : RxRing) (i : Nat) : Option (Fill × Nat) :=
  if (ring.bd i).empty then none
  else some (⟨ring.data (ring.bd i).buffer, (ring.bd i).last, (ring.bd i).err⟩, (ring.bd i).length)

/-- Every descriptor owns an mbuf, of which it has the buffer, and nobody else has it. -/
structure Owned (cfg : RxConfig) (s : RxSystem) : Prop where
  buffer : ∀ i < cfg.numRx, (s.ring.bd i).buffer = s.ring.pkts i
  notNull : ∀ i < cfg.numRx, s.ring.pkts i ≠ NULL
  distinct : ∀ i < cfg.numRx, ∀ j < cfg.numRx, s.ring.pkts i = s.ring.pkts j → i = j
  apart : ∀ i < cfg.numRx, s.ring.pkts i ∉ s.ring.rpkt.map RxMbuf.mbuf ∧ s.ring.pkts i ∉ s.live
  once : (s.ring.rpkt.map RxMbuf.mbuf ++ s.live).Nodup

structure RxInv (cfg : RxConfig) (s : RxSystem) : Prop where
  ring : Ring cfg.numRx s.ring.cidx (rxSlot s.ring) none
    ((stamped (partsLen s.seen) s.fills).map some)
  nidx : s.nidx = place cfg.numRx s.ring.cidx s.fills.length
  frameLen : s.frameLen = s.fills.foldl frameNext (partsLen s.seen)
  wrap : ∀ i < cfg.numRx, (s.ring.bd i).wrap = decide (i = cfg.numRx - 1)
  owned : Owned cfg s
  rpkt : s.ring.rpkt.map (fun m => (m.len, s.ring.data m.mbuf)) =
    (kept s.seen).map fun f => (f.bytes.length, f.bytes)
  length : s.ring.length = keptLen s.seen

theorem RxConfig.pos (cfg : RxConfig) : 0 < cfg.numRx := lt_of_lt_of_le (by decide) cfg.minimum

/-- The mbufs `mx6q_detect` allocates are distinct. -/
theorem RxConfig.init_inv {pkts : Nat → Nat} {data : Nat → List UInt8}
    (notNull : ∀ i < cfg.numRx, pkts i ≠ NULL)
    (distinct : ∀ i < cfg.numRx, ∀ j < cfg.numRx, pkts i = pkts j → i = j) :
    RxInv cfg (cfg.init pkts data) where
  ring := Ring.empty cfg.pos fun _ _ => rfl
  nidx := (place_zero cfg.pos).symm
  frameLen := rfl
  wrap _ _ := rfl
  owned := ⟨fun _ _ => rfl, notNull, distinct, fun _ _ => ⟨List.not_mem_nil, List.not_mem_nil⟩,
    List.nodup_nil⟩
  rpkt := rfl
  length := rfl

/-! ## The NIC -/

theorem RxInv.nidx_lt (inv : RxInv cfg s) : s.nidx < cfg.numRx := by
  rw [inv.nidx]
  exact place_lt cfg.pos

theorem RxInv.room (inv : RxInv cfg s) (empty : (s.ring.bd s.nidx).empty = true) :
    s.fills.length < cfg.numRx := by
  have le := inv.ring.room
  rw [List.length_map, length_stamped] at le
  refine Nat.lt_of_le_of_ne le fun full => ?_
  have pos := cfg.pos
  have first := inv.ring.used 0 (by rw [List.length_map, length_stamped]; omega)
  have around : place cfg.numRx s.ring.cidx 0 = s.nidx := by
    rw [inv.nidx, full, place_full inv.ring.start, place_zero inv.ring.start]
  rw [around, rxSlot, if_pos empty, List.getElem_map] at first
  cases first

theorem nicFill_bd (i : Nat) : ((s.nicFill f).ring.bd i).wrap = (s.ring.bd i).wrap ∧
    ((s.nicFill f).ring.bd i).buffer = (s.ring.bd i).buffer := by
  by_cases here : i = s.nidx
  · subst here
    simp [RxSystem.nicFill]
  · simp [RxSystem.nicFill, Function.update_of_ne here]

theorem RxInv.fill (inv : RxInv cfg s) (step : RxStep cfg s (.fill f) t) : RxInv cfg t := by
  obtain ⟨empty, _, rfl⟩ := step
  have within := inv.nidx_lt
  have room := inv.room empty
  have owned := inv.owned
  have buffer := owned.buffer s.nidx within
  have others : ∀ i < cfg.numRx, i ≠ s.nidx →
      (s.nicFill f).ring.data (s.ring.bd i).buffer = s.ring.data (s.ring.bd i).buffer := by
    intro i hi other
    refine Function.update_of_ne (fun same => other ?_) _ _
    rw [buffer, owned.buffer i hi] at same
    exact owned.distinct i hi s.nidx within same
  refine ⟨?_, ?_, ?_, ?_, ?_, ?_, inv.length⟩
  · have pushed := inv.ring.push (x := some (f, if f.last then
      s.fills.foldl frameNext (partsLen s.seen) + f.bytes.length else f.bytes.length))
      (by rwa [List.length_map, length_stamped])
    rw [List.length_map, length_stamped, ← inv.nidx, ← List.map_singleton (f := some),
      ← List.map_append, ← stamped_concat] at pushed
    refine pushed.congr fun i hi => ?_
    by_cases here : i = s.nidx
    · subst here
      rw [Function.update_self, rxSlot]
      simp [RxSystem.nicFill, inv.frameLen]
    · have kept : (s.nicFill f).ring.bd i = s.ring.bd i := Function.update_of_ne here _ _
      rw [Function.update_of_ne here, rxSlot, rxSlot, kept, others i hi here]
  · change (if (s.ring.bd s.nidx).wrap then 0 else s.nidx + 1) =
      place cfg.numRx s.ring.cidx (s.fills ++ [f]).length
    rw [List.length_append, List.length_singleton, ← next_place, ← inv.nidx, inv.wrap _ within]
    by_cases last : s.nidx = cfg.numRx - 1
    · rw [if_pos (decide_eq_true last), show s.nidx + 1 = cfg.numRx by omega, Nat.mod_self]
    · rw [if_neg (by simpa using last), Nat.mod_eq_of_lt (by omega)]
  · change (if f.last then 0 else s.frameLen + f.bytes.length) =
      (s.fills ++ [f]).foldl frameNext (partsLen s.seen)
    rw [List.foldl_append, ← inv.frameLen]
    rfl
  · exact fun i hi => (nicFill_bd i).1.trans (inv.wrap i hi)
  · exact ⟨fun i hi => (nicFill_bd i).2.trans (owned.buffer i hi), owned.notNull, owned.distinct,
      owned.apart, owned.once⟩
  · refine Eq.trans (List.map_congr_left fun m mem => ?_) inv.rpkt
    have other : m.mbuf ≠ (s.ring.bd s.nidx).buffer := by
      rw [buffer]
      intro same
      exact (owned.apart s.nidx within).1 (same ▸ List.mem_map_of_mem mem)
    exact congrArg (Prod.mk m.len) (Function.update_of_ne other _ _)

/-! ## The driver -/

variable {rest : List Fill} {ring : RxRing} {pkt : Option Packet} {new : Nat}

/-- The length the NIC has written into the descriptor of the next part. -/
def RxSystem.stamp (s : RxSystem) (f : Fill) : Nat :=
  if f.last then partsLen s.seen + f.bytes.length else f.bytes.length

theorem RxInv.head (inv : RxInv cfg s) (fills : s.fills = f :: rest) :
    (s.ring.bd s.ring.cidx).empty = false ∧ (s.ring.bd s.ring.cidx).last = f.last ∧
      (s.ring.bd s.ring.cidx).err = f.err ∧ (s.ring.bd s.ring.cidx).length = s.stamp f ∧
      s.ring.data (s.ring.pkts s.ring.cidx) = f.bytes := by
  have ring := inv.ring
  rw [fills, stamped, List.map_cons] at ring
  have slot := ring.head
  rw [rxSlot] at slot
  split at slot
  · cases slot
  · rename_i filled
    rw [← inv.owned.buffer _ inv.ring.start]
    obtain ⟨fill, length⟩ := Prod.mk.inj (Option.some.inj slot)
    exact ⟨by simpa using filled, congrArg Fill.last fill, congrArg Fill.err fill, length,
      congrArg Fill.bytes fill⟩

/-- A null `rpkt` goes with a length of zero, so that what is left of a packet after a part is
dropped is nothing. -/
theorem RxInv.discard (inv : RxInv cfg s) (rpkt : ring.rpkt = s.ring.rpkt)
    (length : ring.length = s.ring.length) :
    ring.discard = { ring with rpkt := [], length := 0 } := by
  unfold RxRing.discard
  split
  · rfl
  · rename_i none
    have none : ring.rpkt = [] := by simpa using none
    have parts := inv.rpkt
    rw [← rpkt, none] at parts
    have nothing : kept s.seen = [] := List.map_eq_nil_iff.mp parts.symm
    have zero : ring.length = 0 := by
      rw [length, inv.length, keptLen, nothing]
      rfl
    rw [← none, ← zero]

/-- The parts after one more. -/
def RxSystem.after (s : RxSystem) (f : Fill) (env : RxEnv) : List (Fill × Bool) :=
  if f.last then [] else s.seen ++ [(f, dropped f env)]

theorem partsLen_after : partsLen (s.after f env) = frameNext (partsLen s.seen) f := by
  unfold RxSystem.after frameNext
  split
  · rfl
  · exact partsLen_concat

theorem RxInv.advance (inv : RxInv cfg s) (fills : s.fills = f :: rest)
    (bd : ring.bd = Function.update s.ring.bd s.ring.cidx
      ⟨true, decide (s.ring.cidx % cfg.numRx = cfg.numRx - 1), false, false, 0, new⟩)
    (cidx : ring.cidx = cfg.NEXT_RX s.ring.cidx) (data : ring.data = s.ring.data) :
    Ring cfg.numRx ring.cidx (rxSlot ring) none
        ((stamped (partsLen (s.after f env)) rest).map some) ∧
      s.nidx = place cfg.numRx ring.cidx rest.length ∧
      s.frameLen = rest.foldl frameNext (partsLen (s.after f env)) ∧
      ∀ i < cfg.numRx, (ring.bd i).wrap = decide (i = cfg.numRx - 1) := by
  have here : cfg.NEXT_RX s.ring.cidx = place cfg.numRx s.ring.cidx 1 := rfl
  refine ⟨?_, ?_, ?_, fun i hi => ?_⟩
  · have popped := inv.ring
    rw [fills, stamped, List.map_cons] at popped
    have popped := popped.pop
    rw [partsLen_after, cidx, here]
    refine popped.congr fun i _ => ?_
    by_cases same : i = s.ring.cidx
    · subst same
      simp [rxSlot, bd]
    · rw [Function.update_of_ne same, rxSlot, rxSlot, bd, Function.update_of_ne same, data]
  · have last := inv.nidx
    rw [fills, List.length_cons, ← place_next] at last
    rw [cidx, here]
    exact last
  · have total := inv.frameLen
    rw [fills, List.foldl_cons] at total
    rw [partsLen_after]
    exact total
  · rw [bd]
    by_cases same : i = s.ring.cidx
    · subst same
      rw [Function.update_self, Nat.mod_eq_of_lt hi]
    · rw [Function.update_of_ne same]
      exact inv.wrap i hi

/-- Ownership after the mbuf of the descriptor is replaced by `new`: whoever has an mbuf now had
it before, or has the one of the descriptor. -/
theorem Owned.swap {rpkt live : List Nat} (owned : Owned cfg s)
    (within : s.ring.cidx < cfg.numRx)
    (fresh : s.Fresh cfg new)
    (old : ∀ x ∈ rpkt ++ live, x ∈ s.ring.rpkt.map RxMbuf.mbuf ∨ x ∈ s.live ∨
      x = s.ring.pkts s.ring.cidx)
    (once : (rpkt ++ live).Nodup)
    (bd : ∀ i, (t.ring.bd i).buffer =
      Function.update (fun i => (s.ring.bd i).buffer) s.ring.cidx new i)
    (pkts : t.ring.pkts = Function.update s.ring.pkts s.ring.cidx new)
    (holds : t.ring.rpkt.map RxMbuf.mbuf = rpkt) (stack : t.live = live) : Owned cfg t := by
  obtain ⟨notNull, notOwned, notPart, notLive⟩ := fresh
  have apart : ∀ i < cfg.numRx, t.ring.pkts i ∉ rpkt ++ live := by
    intro i hi mem
    rw [pkts] at mem
    by_cases same : i = s.ring.cidx
    · subst same
      rw [Function.update_self] at mem
      rcases old _ mem with part | stack | here
      · exact notPart part
      · exact notLive stack
      · exact notOwned _ within here.symm
    · rw [Function.update_of_ne same] at mem
      rcases old _ mem with part | stack | here
      · exact (owned.apart i hi).1 part
      · exact (owned.apart i hi).2 stack
      · exact same (owned.distinct i hi _ within here)
  refine ⟨fun i hi => ?_, fun i hi => ?_, fun i hi j hj equal => ?_, fun i hi => ?_, ?_⟩
  · rw [bd, pkts]
    by_cases same : i = s.ring.cidx
    · subst same
      rw [Function.update_self, Function.update_self]
    · rw [Function.update_of_ne same, Function.update_of_ne same]
      exact owned.buffer i hi
  · rw [pkts]
    by_cases same : i = s.ring.cidx
    · subst same
      rwa [Function.update_self]
    · rw [Function.update_of_ne same]
      exact owned.notNull i hi
  · rw [pkts] at equal
    by_cases left : i = s.ring.cidx
    · by_cases right : j = s.ring.cidx
      · rw [left, right]
      · rw [left, Function.update_self, Function.update_of_ne right] at equal
        exact absurd equal.symm (notOwned j hj)
    · by_cases right : j = s.ring.cidx
      · rw [right, Function.update_self, Function.update_of_ne left] at equal
        exact absurd equal (notOwned i hi)
      · rw [Function.update_of_ne left, Function.update_of_ne right] at equal
        exact owned.distinct i hi j hj equal
  · rw [holds, stack]
    exact ⟨fun mem => apart i hi (List.mem_append_left _ mem),
      fun mem => apart i hi (List.mem_append_right _ mem)⟩
  · rwa [holds, stack]

theorem RxInv.received (inv : RxInv cfg s) (fills : s.fills = f :: rest)
    (bd : ring.bd = Function.update s.ring.bd s.ring.cidx
      ⟨true, decide (s.ring.cidx % cfg.numRx = cfg.numRx - 1), false, false, 0, new⟩)
    (cidx : ring.cidx = cfg.NEXT_RX s.ring.cidx) (data : ring.data = s.ring.data)
    (owned : Owned cfg (s.received ring f env pkt))
    (rpkt : ring.rpkt.map (fun m => (m.len, s.ring.data m.mbuf)) =
      (kept (s.after f env)).map fun f => (f.bytes.length, f.bytes))
    (length : ring.length = keptLen (s.after f env)) :
    RxInv cfg (s.received ring f env pkt) := by
  obtain ⟨slots, nidx, frameLen, wrap⟩ := inv.advance fills bd cidx data
  have tail : s.fills.tail = rest := by rw [fills, List.tail_cons]
  refine ⟨?_, ?_, ?_, wrap, owned, ?_, length⟩
  · change Ring _ _ _ _ ((stamped (partsLen (s.after f env)) s.fills.tail).map some)
    rwa [tail]
  · change s.nidx = place _ _ s.fills.tail.length
    rwa [tail]
  · change s.frameLen = s.fills.tail.foldl frameNext (partsLen (s.after f env))
    rwa [tail]
  · change ring.rpkt.map (fun m => (m.len, ring.data m.mbuf)) = _
    rw [data]
    exact rpkt

/-- A part that is dropped: the mbuf goes back, and what there is of the packet is freed. -/
theorem RxInv.drop (inv : RxInv cfg s) (fills : s.fills = f :: rest)
    (drop : dropped f env = true) (one : cfg.receiveOne env s.ring = some (ring, pkt)) :
    pkt = none ∧ RxInv cfg (s.received ring f env pkt) := by
  obtain ⟨filled, _, err, _, _⟩ := inv.head fills
  have owned := inv.owned
  let back := cfg.mx6qAddPkt { s.ring with cidx := cfg.NEXT_RX s.ring.cidx }
    (s.ring.pkts s.ring.cidx) s.ring.cidx
  have result : cfg.receiveOne env s.ring = some (back.discard, none) := by
    unfold RxConfig.receiveOne
    simp only [filled, err]
    cases error : f.err with
    | true => rfl
    | false =>
      have none : env.alloc = none := by simpa [dropped, error] using drop
      simp only [none]
      rfl
  rw [result] at one
  cases one
  refine ⟨rfl, ?_⟩
  rw [@RxInv.discard _ _ back inv rfl rfl]
  have same : back.pkts = s.ring.pkts := Function.update_eq_self _ _
  have nothing : kept (s.after f env) = [] := by
    unfold RxSystem.after
    split
    · rfl
    · rw [drop]
      exact kept_drop
  refine inv.received fills rfl rfl rfl ?_ ?_ ?_
  · have live : (s.received { back with rpkt := [], length := 0 } f env none).live = s.live :=
      List.append_nil _
    refine ⟨fun i hi => ?_, ?_, ?_, fun i hi => ?_, ?_⟩
    · change (Function.update s.ring.bd s.ring.cidx _ i).buffer = back.pkts i
      rw [same]
      by_cases here : i = s.ring.cidx
      · subst here
        rw [Function.update_self]
      · rw [Function.update_of_ne here]
        exact owned.buffer i hi
    · exact fun i hi => same ▸ owned.notNull i hi
    · exact fun i hi j hj equal => owned.distinct i hi j hj (same ▸ equal)
    · rw [live]
      exact ⟨List.not_mem_nil, same ▸ (owned.apart i hi).2⟩
    · rw [live]
      exact (List.nodup_append.mp owned.once).2.1
  · rw [nothing]
    rfl
  · rw [keptLen, nothing]
    rfl

/-- The mbufs of the packet, the one of the descriptor and those of the stack are distinct. -/
theorem Owned.parts_nodup (owned : Owned cfg s) (within : s.ring.cidx < cfg.numRx) :
    (s.ring.rpkt.map RxMbuf.mbuf ++ s.ring.pkts s.ring.cidx :: s.live).Nodup := by
  rw [List.nodup_middle, List.nodup_cons]
  obtain ⟨notPart, notLive⟩ := owned.apart _ within
  exact ⟨fun mem => (List.mem_append.mp mem).elim notPart notLive, owned.once⟩

theorem addPkt_buffer (i : Nat) (b : RxBd) (buffer : b.buffer = new) :
    (Function.update s.ring.bd s.ring.cidx b i).buffer =
      Function.update (fun i => (s.ring.bd i).buffer) s.ring.cidx new i := by
  by_cases same : i = s.ring.cidx
  · subst same
    rw [Function.update_self, Function.update_self, buffer]
  · rw [Function.update_of_ne same, Function.update_of_ne same]

theorem RxInv.keep (inv : RxInv cfg s) (fills : s.fills = f :: rest)
    (fresh : ∀ new ∈ env.alloc, s.Fresh cfg new)
    (keep : dropped f env = false) (middle : f.last = false)
    (one : cfg.receiveOne env s.ring = some (ring, pkt)) :
    pkt = none ∧ RxInv cfg (s.received ring f env pkt) := by
  obtain ⟨filled, last, err, length, data⟩ := inv.head fills
  have owned := inv.owned
  have within := inv.ring.start
  obtain ⟨noError, allocated⟩ : f.err = false ∧ env.alloc.isNone = false := by
    simpa [dropped] using keep
  obtain ⟨new, alloc⟩ := Option.isSome_iff_exists.mp (by simpa using allocated)
  have stamp : s.stamp f = f.bytes.length := by
    rw [RxSystem.stamp, middle]
    rfl
  unfold RxConfig.receiveOne at one
  simp only [filled, err, noError, alloc, last, middle, length, stamp] at one
  cases one
  refine ⟨rfl, ?_⟩
  have after : s.after f env = s.seen ++ [(f, false)] := by
    rw [RxSystem.after, middle, keep]
    rfl
  refine inv.received fills rfl rfl rfl ?_ ?_ ?_
  · refine @Owned.swap _ _ _ _ (s.ring.rpkt.map RxMbuf.mbuf ++ [s.ring.pkts s.ring.cidx]) _ owned
        within (fresh new alloc) (fun x mem => ?_) ?_ (fun i => addPkt_buffer i _ rfl)
        (Function.update_idem ..) ?_ (List.append_nil _)
    · simp only [List.mem_append, List.mem_singleton] at mem
      tauto
    · rw [List.append_assoc]
      exact owned.parts_nodup within
    · exact List.map_append
  · change (s.ring.rpkt ++ [(⟨s.ring.pkts s.ring.cidx, f.bytes.length⟩ : RxMbuf)]).map _ = _
    rw [after, kept_keep, List.map_append, List.map_append, inv.rpkt, List.map_singleton,
      List.map_singleton, data]
  · rw [after, keptLen, kept_keep, List.map_append, List.sum_append]
    change s.ring.length + f.bytes.length = _
    rw [inv.length]
    rfl

/-- What the stack gets when the last part of a frame is kept. -/
def RxSystem.package (s : RxSystem) (f : Fill) : Handed where
  len := partsLen s.seen + f.bytes.length
  mbufs := ((kept s.seen).map fun g => (g.bytes.length, g.bytes)) ++
    [(partsLen s.seen + f.bytes.length - keptLen s.seen, f.bytes)]
  frame := s.seen ++ [(f, false)]

theorem RxInv.finish (inv : RxInv cfg s) (fills : s.fills = f :: rest)
    (fresh : ∀ new ∈ env.alloc, s.Fresh cfg new)
    (keep : dropped f env = false) (last : f.last = true)
    (one : cfg.receiveOne env s.ring = some (ring, pkt)) :
    RxInv cfg (s.received ring f env pkt) ∧ (s.received ring f env pkt).handed =
      s.handed ++ if env.full then [] else [s.package f] := by
  obtain ⟨filled, lastBit, err, length, data⟩ := inv.head fills
  have owned := inv.owned
  have within := inv.ring.start
  obtain ⟨noError, allocated⟩ : f.err = false ∧ env.alloc.isNone = false := by
    simpa [dropped] using keep
  obtain ⟨new, alloc⟩ := Option.isSome_iff_exists.mp (by simpa using allocated)
  have stamp : s.stamp f = partsLen s.seen + f.bytes.length := by
    rw [RxSystem.stamp, last]
    rfl
  unfold RxConfig.receiveOne at one
  simp only [filled, err, noError, alloc, lastBit, last, length, stamp, inv.length] at one
  cases one
  have after : s.after f env = [] := by
    rw [RxSystem.after, last]
    rfl
  have distinct := owned.parts_nodup within
  constructor
  · refine inv.received fills rfl rfl rfl ?_ (by rw [after]; rfl) (by rw [after]; rfl)
    cases full : env.full with
    | true =>
      refine owned.swap within (fresh new alloc)
        (fun x mem => Or.inr (Or.inl mem)) ?_ (fun i => addPkt_buffer i _ rfl)
        (Function.update_idem ..) rfl (List.append_nil _)
      exact (List.nodup_append.mp owned.once).2.1
    | false =>
      refine @Owned.swap _ _ _ _ []
          (s.live ++ (s.ring.rpkt.map RxMbuf.mbuf ++ [s.ring.pkts s.ring.cidx])) owned within
          (fresh new alloc) (fun x mem => ?_) ?_ (fun i => addPkt_buffer i _ rfl)
          (Function.update_idem ..) rfl ?_
      · simp only [List.nil_append, List.mem_append, List.mem_singleton] at mem
        tauto
      · rw [List.nil_append]
        refine (List.perm_append_comm.nodup_iff).mp ?_
        rwa [List.append_assoc]
      · exact congrArg (s.live ++ ·) List.map_append
  · cases full : env.full with
    | true => rfl
    | false =>
      refine congrArg (s.handed ++ [·]) ?_
      have parts : (s.ring.rpkt ++ [(⟨s.ring.pkts s.ring.cidx,
          partsLen s.seen + f.bytes.length - keptLen s.seen⟩ : RxMbuf)]).map
            (fun m => (m.len, s.ring.data m.mbuf)) = (s.package f).mbufs := by
        rw [List.map_append, inv.rpkt, List.map_singleton, data]
        rfl
      have frame : s.seen ++ [(f, dropped f env)] = (s.package f).frame := by
        rw [keep]
        rfl
      exact congrArg₂ (Handed.mk (partsLen s.seen + f.bytes.length)) parts frame

theorem RxInv.free {mbuf : Nat} (inv : RxInv cfg s) (step : RxStep cfg s (.free mbuf) t) :
    RxInv cfg t := by
  obtain rfl := step
  have owned := inv.owned
  have erased : (s.live.erase mbuf).Sublist s.live := List.erase_sublist
  refine ⟨inv.ring, inv.nidx, inv.frameLen, inv.wrap, ⟨owned.buffer, owned.notNull, owned.distinct,
    fun i hi => ⟨(owned.apart i hi).1, fun mem => (owned.apart i hi).2 (erased.subset mem)⟩, ?_⟩,
    inv.rpkt, inv.length⟩
  exact owned.once.sublist (List.Sublist.append_left erased _)

/-- What the packets of a step are. -/
def RxOp.packets (s : RxSystem) : RxOp → List Handed
  | .receive f env => if f.last ∧ ¬dropped f env ∧ ¬env.full then [s.package f] else []
  | _ => []

/-- The parts seen after a step. -/
def RxOp.seen (s : RxSystem) : RxOp → List (Fill × Bool)
  | .receive f env => s.after f env
  | _ => s.seen

theorem RxInv.step {op : RxOp} (inv : RxInv cfg s) (step : RxStep cfg s op t) :
    RxInv cfg t ∧ t.handed = s.handed ++ op.packets s ∧ t.seen = op.seen s := by
  cases op with
  | fill f =>
    refine ⟨inv.fill step, ?_, ?_⟩
    · obtain ⟨_, _, rfl⟩ := step
      exact (List.append_nil _).symm
    · obtain ⟨_, _, rfl⟩ := step
      rfl
  | free mbuf =>
    refine ⟨inv.free step, ?_, ?_⟩
    · obtain rfl := step
      exact (List.append_nil _).symm
    · obtain rfl := step
      rfl
  | receive f env =>
    obtain ⟨head, fresh, ring, pkt, one, rfl⟩ := step
    obtain ⟨rest, fills⟩ := List.head?_eq_some_iff.mp head
    unfold RxOp.packets
    cases drop : dropped f env with
    | true =>
      obtain ⟨rfl, inv'⟩ := inv.drop fills drop one
      exact ⟨inv', by simp [RxSystem.received, drop], rfl⟩
    | false =>
      cases last : f.last with
      | false =>
        obtain ⟨rfl, inv'⟩ := inv.keep fills fresh drop last one
        exact ⟨inv', by simp [RxSystem.received, last], rfl⟩
      | true =>
        obtain ⟨inv', handed⟩ := inv.finish fills fresh drop last one
        refine ⟨inv', ?_, rfl⟩
        rw [handed]
        cases full : env.full <;> simp [drop, last, full]

/-! ## Runs -/

variable {ops : List RxOp}

/-- The packet is the concatenation of all parts of its frame, with the lengths right, and no
part was dropped. -/
structure Handed.Whole (h : Handed) : Prop where
  good : ∀ x ∈ h.frame, x.2 = false
  len : h.len = partsLen h.frame
  mbufs : h.mbufs = h.frame.map fun x => (x.1.bytes.length, x.1.bytes)

/-- Whenever the last part of a frame is neither dropped nor refused, nothing of the frame was
dropped before; `lost` tells whether something of the current frame was. -/
def Clean (lost : Bool) : List RxOp → Prop
  | [] => True
  | .receive f env :: ops =>
    (f.last = true → dropped f env = false → env.full = false → lost = false) ∧
      Clean (if f.last then false else lost || dropped f env) ops
  | .fill _ :: ops => Clean lost ops
  | .free _ :: ops => Clean lost ops

/-- Something of the current frame was dropped. -/
def RxSystem.lost (s : RxSystem) : Bool := s.seen.any Prod.snd

theorem package_whole : (s.package f).Whole ↔ s.lost = false := by
  constructor
  · intro whole
    refine List.any_eq_false.mpr fun x mem => ?_
    simp [whole.good x (List.mem_append_left _ mem)]
  · intro intact
    have all : ∀ x ∈ s.seen, x.2 = false := fun x mem => by
      simpa using List.any_eq_false.mp intact x mem
    have parts := kept_all all
    have lens : keptLen s.seen = partsLen s.seen := by
      rw [keptLen, parts, List.map_map]
      rfl
    refine ⟨fun x mem => ?_, partsLen_concat.symm, ?_⟩
    · rcases List.mem_append.mp mem with before | here
      · exact all x before
      · rw [List.mem_singleton.mp here]
    · simp only [RxSystem.package, parts, lens, Nat.add_sub_cancel_left, List.map_map,
        List.map_append, List.map_singleton]
      rfl

theorem lost_after : (s.after f env).any Prod.snd =
    if f.last then false else s.lost || dropped f env := by
  unfold RxSystem.after RxSystem.lost
  split
  · rfl
  · simp

/-- In every run the descriptors own their mbufs, and the packets handed over are right exactly
when the parts dropped are. -/
theorem RxInv.run (inv : RxInv cfg s) (run : Run (RxStep cfg) s ops t) :
    RxInv cfg t ∧ ((∀ h ∈ t.handed, h.Whole) ↔ (∀ h ∈ s.handed, h.Whole) ∧ Clean s.lost ops) := by
  induction run with
  | nil => exact ⟨inv, by simp [Clean]⟩
  | @cons s mid t op ops first _ ih =>
    obtain ⟨inv', handed, seen⟩ := inv.step first
    obtain ⟨final, later⟩ := ih inv'
    refine ⟨final, later.trans ?_⟩
    have lost : mid.lost = (op.seen s).any Prod.snd := congrArg (List.any · Prod.snd) seen
    rw [handed, lost]
    cases op with
    | fill f => simp [RxOp.packets, RxOp.seen, Clean, RxSystem.lost]
    | free mbuf => simp [RxOp.packets, RxOp.seen, Clean, RxSystem.lost]
    | receive f env =>
      rw [RxOp.packets, RxOp.seen, lost_after, Clean]
      by_cases ended : f.last = true ∧ ¬dropped f env = true ∧ ¬env.full = true
      · have delivered : (∀ h ∈ s.handed ++ [s.package f], h.Whole) ↔
            (∀ h ∈ s.handed, h.Whole) ∧ s.lost = false := by
          rw [List.forall_mem_append, List.forall_mem_singleton, package_whole]
        have clean : (f.last = true → dropped f env = false → env.full = false →
            s.lost = false) ↔ s.lost = false :=
          ⟨fun all => all ended.1 (by simpa using ended.2.1) (by simpa using ended.2.2),
            fun intact _ _ _ => intact⟩
        rw [if_pos ended, delivered, clean, and_assoc]
      · have clean : f.last = true → dropped f env = false → env.full = false →
            s.lost = false := fun last keep room =>
          absurd ⟨last, by simp [keep], by simp [room]⟩ ended
        rw [if_neg ended, List.append_nil, and_iff_right clean]

theorem RxInv.exists_fill {result : RxRing × Option Packet} (inv : RxInv cfg s)
    (one : cfg.receiveOne env s.ring = some result) : ∃ f rest, s.fills = f :: rest := by
  cases fills : s.fills with
  | cons f rest => exact ⟨f, rest, rfl⟩
  | nil =>
    have blank := inv.ring.rest 0 (by simp [fills, stamped]) cfg.pos
    rw [place_zero inv.ring.start, rxSlot] at blank
    split at blank
    · rename_i empty
      rw [RxConfig.receiveOne, if_pos empty] at one
      cases one
    · cases blank

/-- An mbuf that is free before a descriptor is looked at and is not allocated for it is free
afterwards. -/
theorem RxSystem.Fresh.receive {x : Nat} (fresh : s.Fresh cfg x) (other : env.alloc ≠ some x)
    (within : s.ring.cidx < cfg.numRx)
    (one : cfg.receiveOne env s.ring = some (ring, pkt)) :
    (s.received ring f env pkt).Fresh cfg x := by
  obtain ⟨notNull, notOwned, notPart, notLive⟩ := fresh
  have here := notOwned _ within
  have back : ∀ new ≠ x, ∀ i < cfg.numRx,
      Function.update s.ring.pkts s.ring.cidx new i ≠ x := by
    intro new apart i hi
    by_cases same : i = s.ring.cidx
    · subst same
      rwa [Function.update_self]
    · rw [Function.update_of_ne same]
      exact notOwned i hi
  have returned : ∀ i < cfg.numRx,
      Function.update s.ring.pkts s.ring.cidx (s.ring.pkts s.ring.cidx) i ≠ x := by
    rw [Function.update_eq_self]
    exact notOwned
  have held : x ∉ s.live ++ [] := by rwa [List.append_nil]
  have discarded : ∀ r : RxRing, r.discard.pkts = r.pkts ∧ ∀ m ∈ r.discard.rpkt, m ∈ r.rpkt := by
    intro r
    unfold RxRing.discard
    split
    · exact ⟨rfl, fun m mem => by cases mem⟩
    · exact ⟨rfl, fun m mem => mem⟩
  have dropping : ∀ r : RxRing, r.pkts = Function.update s.ring.pkts s.ring.cidx
      (s.ring.pkts s.ring.cidx) → r.rpkt = s.ring.rpkt →
      (s.received r.discard f env none).Fresh cfg x := by
    intro r pkts rpkt
    refine ⟨notNull, ?_, fun mem => ?_, ?_⟩
    · change ∀ i < cfg.numRx, r.discard.pkts i ≠ x
      rw [(discarded r).1, pkts]
      exact returned
    · obtain ⟨m, part, same⟩ := List.mem_map.mp mem
      exact notPart (List.mem_map.mpr ⟨m, rpkt ▸ (discarded r).2 m part, same⟩)
    · exact held
  unfold RxConfig.receiveOne at one
  dsimp only at one
  split at one
  · cases one
  split at one
  · cases one
    exact dropping _ rfl rfl
  split at one
  · cases one
    exact dropping _ rfl rfl
  rename_i new alloc
  have replaced : ∀ i < cfg.numRx, Function.update (Function.update s.ring.pkts s.ring.cidx NULL)
      s.ring.cidx new i ≠ x := by
    rw [Function.update_idem]
    exact back new fun same => other (same ▸ alloc)
  split at one
  · cases one
    refine ⟨notNull, replaced, List.not_mem_nil, ?_⟩
    cases env.full with
    | true => exact held
    | false =>
      intro mem
      rcases List.mem_append.mp mem with stack | packet
      · exact notLive stack
      · obtain ⟨m, part, same⟩ := List.mem_map.mp packet
        rcases List.mem_append.mp part with before | last
        · exact notPart (List.mem_map.mpr ⟨m, before, same⟩)
        · rw [List.mem_singleton.mp last] at same
          exact here same
  · cases one
    refine ⟨notNull, replaced, fun mem => ?_, ?_⟩
    · obtain ⟨m, part, same⟩ := List.mem_map.mp mem
      rcases List.mem_append.mp part with before | last
      · exact notPart (List.mem_map.mpr ⟨m, before, same⟩)
      · rw [List.mem_singleton.mp last] at same
        exact here same
    · exact held

/-- In every run from the ring of `mx6q_detect` the descriptors own their mbufs. -/
theorem rx_owned {pkts : Nat → Nat} {data : Nat → List UInt8}
    (notNull : ∀ i < cfg.numRx, pkts i ≠ NULL)
    (distinct : ∀ i < cfg.numRx, ∀ j < cfg.numRx, pkts i = pkts j → i = j)
    (run : Run (RxStep cfg) (cfg.init pkts data) ops s) : Owned cfg s :=
  ((RxConfig.init_inv notNull distinct).run run).1.owned

/-- The packets handed over are whole frames, and the descriptors own their mbufs, exactly when the
last part of a frame is never kept behind a dropped one. -/
theorem rx_reassembly_iff (cfg : RxConfig) (pkts : Nat → Nat) (data : Nat → List UInt8)
    (ops : List RxOp) (s : RxSystem) (notNull : ∀ i < cfg.numRx, pkts i ≠ NULL)
    (distinct : ∀ i < cfg.numRx, ∀ j < cfg.numRx, pkts i = pkts j → i = j)
    (run : Run (RxStep cfg) (cfg.init pkts data) ops s) :
    (Owned cfg s ∧ ∀ h ∈ s.handed, h.Whole) ↔ Clean false ops := by
  have packets := ((RxConfig.init_inv notNull distinct).run run).2
  have none : ∀ h ∈ (cfg.init pkts data).handed, h.Whole := fun h mem => by cases mem
  rw [and_iff_right (rx_owned notNull distinct run), packets, and_iff_right none]
  rfl

def smallRx : RxConfig := ⟨16, by decide, by decide⟩

/-- The mbufs at the addresses from 1 on. -/
def smallPkts (i : Nat) : Nat := i + 1

/-- A frame in two descriptors. -/
def twoParts (env env' : RxEnv) : List RxOp :=
  [.fill ⟨[1, 2], false, false⟩, .fill ⟨[3], true, false⟩,
    .receive ⟨[1, 2], false, false⟩ env, .receive ⟨[3], true, false⟩ env']

theorem rx_reassembly_small : ∃ s,
    Run (RxStep smallRx) (smallRx.init smallPkts fun _ => [])
      (twoParts ⟨some 100, false, false⟩ ⟨some 101, false, false⟩) s ∧
    s.handed = [⟨3, [(2, [1, 2]), (1, [3])],
      [(⟨[1, 2], false, false⟩, false), (⟨[3], true, false⟩, false)]⟩] ∧
    ∀ h ∈ s.handed, h.Whole := by
  have run : Run (RxStep smallRx) (smallRx.init smallPkts fun _ => [])
      (twoParts ⟨some 100, false, false⟩ ⟨some 101, false, false⟩) _ :=
    .cons ⟨rfl, by decide, rfl⟩ <| .cons ⟨rfl, by decide, rfl⟩ <|
      .cons ⟨rfl, by decide, _, _, rfl, rfl⟩ <| .single ⟨rfl, by decide, _, _, rfl, rfl⟩
  have clean : Clean false (twoParts ⟨some 100, false, false⟩ ⟨some 101, false, false⟩) := by
    simp [twoParts, Clean, dropped]
  exact ⟨_, run, rfl, ((rx_reassembly_iff smallRx smallPkts (fun _ => []) _ _ (by decide)
    (fun i _ j _ same => Nat.succ.inj same) run).mpr clean).2⟩

/-- Without an mbuf for the first part, the rest of the frame is taken for a packet. -/
theorem rx_reassembly_broken : ∃ s,
    Run (RxStep smallRx) (smallRx.init smallPkts fun _ => [])
      (twoParts ⟨none, false, false⟩ ⟨some 100, false, false⟩) s ∧
    s.handed = [⟨3, [(3, [3])],
      [(⟨[1, 2], false, false⟩, true), (⟨[3], true, false⟩, false)]⟩] ∧
    ¬∀ h ∈ s.handed, h.Whole := by
  refine ⟨_, .cons ⟨rfl, by decide, rfl⟩ <| .cons ⟨rfl, by decide, rfl⟩ <|
      .cons ⟨rfl, nofun, _, _, rfl, rfl⟩ <| .single ⟨rfl, by decide, _, _, rfl, rfl⟩, rfl, ?_⟩
  intro whole
  have len := (whole _ (List.mem_singleton.mpr rfl)).mbufs
  cases len

end Mx6xBsp.Devnp
