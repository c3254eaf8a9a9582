import Mathlib.Algebra.GroupWithZero.Nat
import Mathlib.Logic.Function.Basic
import Mx6xBsp.Lib.Runs

/-!
# The transmit ring of the Ethernet driver

`transmit.c` for one of the transmit queues: the descriptors from `offset` on
and the mbuf pointers beside them, the two indices and the in-use counter. The
NIC works on the same descriptors: it clears `TXBD_R` when it is done with one,
and sets `BD_BDU` when it has written the update back. Both run beside the
driver, whose own functions exclude each other by the lock of the send queue.
-/

namespace Mx6xBsp.Devnp

def MX6Q_MAX_FRAGS : Nat := 10
def MIN_NUM_TX_DESCRIPTORS : Nat := 64
def MAX_NUM_TX_DESCRIPTORS : Nat := 2048

/-- The options of the driver; `numTx` is `num_tx_descriptors`. -/
structure TxConfig where
  numTx : Nat
  minimum : MIN_NUM_TX_DESCRIPTORS ≤ numTx
  maximum : numTx ≤ MAX_NUM_TX_DESCRIPTORS
  /-- Built with `MX6XSLX`, without the alignment requirement. -/
  slx : Bool
  MCLBYTES : Nat

/-- The number of descriptors `mx6q_detect` settles on; the mask rounds down to a multiple of
four. -/
def numTxDescriptors (requested : Int) : Nat :=
  let masked := requested - requested % 4
  if masked < MIN_NUM_TX_DESCRIPTORS then MIN_NUM_TX_DESCRIPTORS
  else if masked > MAX_NUM_TX_DESCRIPTORS then MAX_NUM_TX_DESCRIPTORS
  else masked.toNat

theorem numTxDescriptors_bounds (requested : Int) :
    MIN_NUM_TX_DESCRIPTORS ≤ numTxDescriptors requested ∧
      numTxDescriptors requested ≤ MAX_NUM_TX_DESCRIPTORS := by
  unfold numTxDescriptors MIN_NUM_TX_DESCRIPTORS MAX_NUM_TX_DESCRIPTORS
  dsimp only
  split
  · decide
  · split
    · decide
    · omega

def TxConfig.detect (requested : Int) (slx : Bool) (MCLBYTES : Nat) : TxConfig where
  numTx := numTxDescriptors requested
  minimum := (numTxDescriptors_bounds requested).1
  maximum := (numTxDescriptors_bounds requested).2
  slx := slx
  MCLBYTES := MCLBYTES

/-- One mbuf of a chain; `data` is the address `m_data`. -/
structure Mbuf where
  data : Nat
  len : Nat
deriving DecidableEq

/-- An mbuf chain, known by the address of its first mbuf. -/
structure Chain where
  head : Nat
  pktLen : Nat
  mbufs : List Mbuf
deriving DecidableEq

/-- What the mbuf allocator answers in one call of `mx6q_tx`: the copy of `m_dup`, and the mbuf of
`m_getcl` with the address of its cluster. -/
structure TxAlloc where
  dup : Option Chain
  cluster : Option (Nat × Nat)

/-- `mpc_bd_t` of a transmit ring; the first four are bits of `status`, `bdu` is one of `bdu`. -/
structure TxBd where
  ready : Bool
  wrap : Bool
  last : Bool
  tc : Bool
  length : Nat
  buffer : Nat
  bdu : Bool

/-- One transmit queue. `accepted` and `freed` record the chains stored in `tx_pkts` by `mx6q_tx`
and freed by `mx6q_transmit_complete`. -/
structure TxRing where
  bd : Nat → TxBd
  pkts : Nat → Option Chain
  pidx : Nat
  cidx : Nat
  inuse : Int
  accepted : List Chain
  freed : List Chain

/-- The ring as `mx6q_detect` leaves it. -/
def TxConfig.init (cfg : TxConfig) : TxRing where
  bd i := ⟨false, decide (i = cfg.numTx - 1), false, false, 0, 0, false⟩
  pkts _ := none
  pidx := 0
  cidx := 0
  inuse := 0
  accepted := []
  freed := []

/-- `NEXT_TX(x)` -/
def TxConfig.NEXT_TX (cfg : TxConfig) (x : Nat) : Nat := (x + 1) % cfg.numTx

/-! ## Sending -/

/-- What `mx6q_tx` adds to `num_frag` for an mbuf. -/
def TxConfig.fragCount (cfg : TxConfig) (m2 : Mbuf) : Nat :=
  if m2.len ≠ 0 then
    if !cfg.slx ∧ m2.data % 8 ≠ 0 then MX6Q_MAX_FRAGS + 1 else 1
  else 0

def TxConfig.numFrag (cfg : TxConfig) (m : Chain) : Nat := (m.mbufs.map cfg.fragCount).sum

/-- The mbufs that take a descriptor. -/
def Chain.frags (m : Chain) : List Mbuf := m.mbufs.filter fun m2 => m2.len ≠ 0

def TxConfig.mx6qDefrag (cfg : TxConfig) (alloc : TxAlloc) (m : Chain) : Option Chain :=
  if m.pktLen > cfg.MCLBYTES then
    match alloc.dup with
    | none => none
    | some m2 => if m2.mbufs.length > MX6Q_MAX_FRAGS then none else some m2
  else
    match alloc.cluster with
    | none => none
    | some (head, data) => some ⟨head, m.pktLen, [⟨data, m.pktLen⟩]⟩

/-- The chain `mx6q_tx` loads and its `num_frag`. -/
def TxConfig.toLoad (cfg : TxConfig) (alloc : TxAlloc) (m : Chain) : Option (Chain × Nat) :=
  if cfg.numFrag m > MX6Q_MAX_FRAGS then
    (cfg.mx6qDefrag alloc m).map fun m2 => (m2, m2.frags.length)
  else some (m, cfg.numFrag m)

/-- The variables of the loop that loads the descriptors; `first` and `cur` are the indices of
`tx_bd_first` and `tx_bd`. -/
structure TxLoad where
  bd : Nat → TxBd
  first : Option Nat
  cur : Option Nat
  idx : Nat

/-- One descriptor, not owned by the NIC. The first one does not get its `TXBD_R` yet. -/
def TxConfig.loadOne (cfg : TxConfig) (l : TxLoad) (m2 : Mbuf) : TxLoad :=
  let txBd := { l.bd l.idx with buffer := m2.data, length := m2.len % 65536 }
  { bd := Function.update l.bd l.idx
      (if l.first.isSome then { txBd with ready := true } else txBd)
    first := if l.first.isSome then l.first else some l.idx
    cur := some l.idx
    idx := cfg.NEXT_TX l.idx }

/-- The loop; an error is the descriptor still owned by the NIC. -/
def TxConfig.loadDescriptors (cfg : TxConfig) : List Mbuf → TxLoad → Except TxLoad TxLoad
  | [], l => .ok l
  | m2 :: rest, l =>
    if m2.len = 0 then cfg.loadDescriptors rest l
    else if (l.bd l.idx).ready then .error l
    else cfg.loadDescriptors rest (cfg.loadOne l m2)

/-- The last writes: `TXBD_L` and `TXBD_TC` for the last descriptor, `TXBD_R` for the first. -/
def startFrame (bd : Nat → TxBd) (first cur : Nat) : Nat → TxBd :=
  if first = cur then
    Function.update bd cur { bd cur with ready := true, last := true, tc := true }
  else
    let bd := Function.update bd cur { bd cur with last := true, tc := true }
    Function.update bd first { bd first with ready := true }

inductive Errno
  | EOK
  | ENOMEM
  | EINVAL
deriving DecidableEq

/-- `mx6q_tx`; `none` for a chain without data, where `tx_bd` is still NULL when its status is
set. -/
def TxConfig.mx6qTx (cfg : TxConfig) (alloc : TxAlloc) (s : TxRing) (m : Chain) :
    Option (TxRing × Errno) :=
  match cfg.toLoad alloc m with
  | none => some (s, .ENOMEM)
  | some (m, numFrag) =>
    match cfg.loadDescriptors m.mbufs ⟨s.bd, none, none, s.pidx⟩ with
    | .error l => some ({ s with bd := l.bd }, .EINVAL)
    | .ok l =>
      match l.first, l.cur with
      | some first, some cur => some ({ s with
          bd := startFrame l.bd first cur
          inuse := s.inuse + numFrag
          pkts := Function.update s.pkts s.pidx (some m)
          pidx := l.idx
          accepted := m :: s.accepted }, .EOK)
      | _, _ => none

/-! ## Reaping -/

/-- One iteration of the loop of `mx6q_transmit_complete`; `none` where the loop ends. The NIC
leaves a descriptor alone once `TXBD_R` is clear, but for `BD_BDU`, so that the two words count as
read when the second is. -/
def TxConfig.reapOne (cfg : TxConfig) (s : TxRing) : Option TxRing :=
  if s.pidx ≠ s.cidx then
    let idx := s.cidx
    let bd := s.bd idx
    if bd.ready ∨ (bd.last ∧ ¬bd.bdu) then none
    else some { s with
      freed := (s.pkts idx).toList ++ s.freed
      pkts := Function.update s.pkts idx none
      bd := Function.update s.bd idx
        { bd with ready := false, last := false, tc := false, bdu := false }
      inuse := s.inuse - 1
      cidx := cfg.NEXT_TX idx }
  else none

/-- `mx6q_transmit_complete` while the NIC does nothing, for a number of iterations. -/
def TxConfig.transmitComplete (cfg : TxConfig) : Nat → TxRing → TxRing
  | 0, s => s
  | fuel + 1, s =>
    match cfg.reapOne s with
    | none => s
    | some s => cfg.transmitComplete fuel s

/-! ## The callers -/

def TxConfig.descAvail (cfg : TxConfig) (s : TxRing) : Int := cfg.numTx - s.inuse

/-- The loop of `mx6q_start` over the send queue; it answers the chains left in it. -/
def TxConfig.mx6qStart (cfg : TxConfig) :
    List (Chain × TxAlloc) → TxRing → Option (TxRing × List (Chain × TxAlloc))
  | queue, s =>
    let s := if cfg.descAvail s ≤ MX6Q_MAX_FRAGS then cfg.transmitComplete cfg.numTx s else s
    if cfg.descAvail s ≤ MX6Q_MAX_FRAGS then some (s, queue)
    else
      match queue with
      | [] => some (s, [])
      | (m, alloc) :: queue => do
          let (s, _) ← cfg.mx6qTx alloc s m
          cfg.mx6qStart queue s

/-! ## Steps -/

/-- What happens to a ring: a call of `mx6q_tx`, one iteration of the reaper's loop, and the two
writes of the NIC. -/
inductive TxOp
  | send (m : Chain) (alloc : TxAlloc)
  | reap
  | release (i : Nat)
  | update (i : Nat)

/-- `mx6q_tx` is called where the free-descriptor test has passed. Its own writes count as one
step: the NIC does not go beyond the first descriptor, which gets its `TXBD_R` last. -/
def TxStep (cfg : TxConfig) (s : TxRing) : TxOp → TxRing → Prop
  | .send m alloc, s' =>
    MX6Q_MAX_FRAGS < cfg.descAvail s ∧ ∃ e, cfg.mx6qTx alloc s m = some (s', e)
  | .reap, s' => cfg.reapOne s = some s'
  | .release i, s' => i < cfg.numTx ∧ (s.bd i).ready = true ∧
      s' = { s with bd := Function.update s.bd i { s.bd i with ready := false } }
  | .update i, s' => i < cfg.numTx ∧
      s' = { s with bd := Function.update s.bd i { s.bd i with bdu := true } }

end Mx6xBsp.Devnp
