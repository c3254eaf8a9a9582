import Mathlib.Logic.Function.Basic
import Mx6xBsp.Lib.Runs

/-!
# The receive ring of the Ethernet driver

`receive.c` for one of the receive queues. The NIC goes around the ring and
stores what it receives into the mbufs of empty descriptors; a frame that does
not fit in one of them goes on in the next. The length it writes is that of the
data stored, and for the last descriptor of a frame the length of the frame.
-/

namespace Mx6xBsp.Devnp

def MIN_NUM_RX_DESCRIPTORS : Nat := 16
def MAX_NUM_RX_DESCRIPTORS : Nat := 2048

/-- `numRx` is `num_rx_descriptors`. -/
structure RxConfig where
  numRx : Nat
  minimum : MIN_NUM_RX_DESCRIPTORS ≤ numRx
  maximum : numRx ≤ MAX_NUM_RX_DESCRIPTORS

/-- The null pointer; an mbuf is known by its address. -/
def NULL : Nat := 0

/-- `mpc_bd_t` of a receive ring; the first four are bits of `status`, `err` stands for all those
of `RXBD_ERR`. The buffer is known by the mbuf whose cluster it is. -/
structure RxBd where
  empty : Bool
  wrap : Bool
  last : Bool
  err : Bool
  length : Nat
  buffer : Nat

/-- An mbuf of a packet with its `m_len`. -/
structure RxMbuf where
  mbuf : Nat
  len : Nat

/-- A packet; `len` is `m_pkthdr.len`. -/
structure Packet where
  len : Nat
  mbufs : List RxMbuf

/-- One receive queue. `rpkt` is the list of mbufs from `rpkt` to `rpkt_tail`, empty for a null
pointer; `data` is what the clusters hold. -/
structure RxRing where
  bd : Nat → RxBd
  pkts : Nat → Nat
  cidx : Nat
  rpkt : List RxMbuf
  length : Nat
  data : Nat → List UInt8

/-- What the functions that `mx6q_receive` calls answer for one descriptor: the mbuf of
`m_getcl_wtp`; whether the packet is refused, which is so if it is none for AVTP and
`IF_QFULL`; and whether it went into a queue that is about to overflow with flow control on. -/
structure RxEnv where
  alloc : Option Nat
  full : Bool
  pause : Bool

/-- `NEXT_RX(x)` -/
def RxConfig.NEXT_RX (cfg : RxConfig) (x : Nat) : Nat := (x + 1) % cfg.numRx

def RxConfig.mx6qAddPkt (cfg : RxConfig) (s : RxRing) (new idx : Nat) : RxRing :=
  { s with
    pkts := Function.update s.pkts idx new
    bd := Function.update s.bd idx
      ⟨true, decide (idx % cfg.numRx = cfg.numRx - 1), false, false, 0, new⟩ }

/-- `Half way through a packet, discard it all` -/
def RxRing.discard (s : RxRing) : RxRing :=
  if s.rpkt ≠ [] then { s with rpkt := [], length := 0 } else s

/-- One iteration of the loop of `mx6q_receive` with the packet handed over, if any; `none` where
the NIC owns the descriptor. The subtraction that gives the last mbuf its length does not go below
zero. -/
def RxConfig.receiveOne (cfg : RxConfig) (env : RxEnv) (s : RxRing) :
    Option (RxRing × Option Packet) :=
  let thisIdx := s.cidx
  let rxBd := s.bd thisIdx
  if rxBd.empty then none
  else
    let s := { s with cidx := cfg.NEXT_RX thisIdx }
    if rxBd.err then some ((cfg.mx6qAddPkt s (s.pkts thisIdx) thisIdx).discard, none)
    else
      match env.alloc with
      | none => some ((cfg.mx6qAddPkt s (s.pkts thisIdx) thisIdx).discard, none)
      | some new =>
        let tail : RxMbuf := ⟨s.pkts thisIdx, rxBd.length⟩
        let s := { s with pkts := Function.update s.pkts thisIdx NULL }
        let s := cfg.mx6qAddPkt s new thisIdx
        if rxBd.last then
          let pkt : Packet :=
            ⟨tail.len, s.rpkt ++ [{ tail with len := tail.len - s.length }]⟩
          some ({ s with rpkt := [], length := 0 }, if env.full then none else some pkt)
        else some ({ s with rpkt := s.rpkt ++ [tail], length := s.length + tail.len }, none)

/-- The loop of `mx6q_receive` on a ring to which the NIC adds nothing. The packets handed over
come with it. -/
def RxConfig.mx6qReceive (cfg : RxConfig) : List RxEnv → RxRing → RxRing × List Packet
  | [], s => (s, [])
  | env :: envs, s =>
    match cfg.receiveOne env s with
    | none => (s, [])
    | some (t, pkt) =>
      let rxBd := s.bd s.cidx
      if env.pause ∧ env.alloc.isSome ∧ rxBd.last ∧ ¬rxBd.err then (t, pkt.toList)
      else
        let (u, pkts) := cfg.mx6qReceive envs t
        (u, pkt.toList ++ pkts)

/-! ## The NIC and the stack -/

/-- What the NIC has written into a descriptor. -/
structure Fill where
  bytes : List UInt8
  last : Bool
  err : Bool

/-- A packet as the stack gets it, with what the mbufs hold, and the frame it was made from: each
part with whether the driver has dropped it. -/
structure Handed where
  len : Nat
  mbufs : List (Nat × List UInt8)
  frame : List (Fill × Bool)

/-- The queue with its surroundings: `nidx` and `frameLen` belong to the NIC, `fills` is what it
has written and the driver has not looked at, `seen` are the parts of the current frame that the
driver has looked at, `handed` the packets handed over, and `live` the mbufs the stack holds. -/
structure RxSystem where
  ring : RxRing
  nidx : Nat
  frameLen : Nat
  fills : List Fill
  seen : List (Fill × Bool)
  handed : List Handed
  live : List Nat

/-- The ring as `mx6q_detect` leaves it, with the mbufs it has allocated. -/
def RxConfig.init (cfg : RxConfig) (pkts : Nat → Nat) (data : Nat → List UInt8) : RxSystem where
  ring :=
    { bd := fun i => ⟨true, decide (i = cfg.numRx - 1), false, false, 0, pkts i⟩
      pkts := pkts
      cidx := 0
      rpkt := []
      length := 0
      data := data }
  nidx := 0
  frameLen := 0
  fills := []
  seen := []
  handed := []
  live := []

inductive RxOp
  | fill (f : Fill)
  | receive (f : Fill) (env : RxEnv)
  | free (mbuf : Nat)

/-- The driver drops the part: it has errors, or there is no mbuf to take its place. -/
def dropped (f : Fill) (env : RxEnv) : Bool := f.err || env.alloc.isNone

/-- An mbuf of the allocator is not in use. -/
def RxSystem.Fresh (cfg : RxConfig) (s : RxSystem) (new : Nat) : Prop :=
  new ≠ NULL ∧ (∀ i < cfg.numRx, s.ring.pkts i ≠ new) ∧ new ∉ s.ring.rpkt.map RxMbuf.mbuf ∧
    new ∉ s.live

instance {cfg : RxConfig} {s : RxSystem} {new : Nat} : Decidable (s.Fresh cfg new) :=
  inferInstanceAs (Decidable (_ ∧ _ ∧ _ ∧ _))

/-- The NIC fills the next descriptor, if it is empty. -/
def RxSystem.nicFill (s : RxSystem) (f : Fill) : RxSystem :=
  let bd := s.ring.bd s.nidx
  { s with
    ring := { s.ring with
      bd := Function.update s.ring.bd s.nidx { bd with
        empty := false
        last := f.last
        err := f.err
        length := if f.last then s.frameLen + f.bytes.length else f.bytes.length }
      data := Function.update s.ring.data bd.buffer f.bytes }
    nidx := if bd.wrap then 0 else s.nidx + 1
    frameLen := if f.last then 0 else s.frameLen + f.bytes.length
    fills := s.fills ++ [f] }

/-- The driver has looked at the descriptor with `f`. -/
def RxSystem.received (s : RxSystem) (ring : RxRing) (f : Fill) (env : RxEnv)
    (pkt : Option Packet) : RxSystem :=
  let frame := s.seen ++ [(f, dropped f env)]
  { s with
    ring := ring
    fills := s.fills.tail
    seen := if f.last then [] else frame
    handed := s.handed ++ (pkt.map fun p => ⟨p.len,
      p.mbufs.map fun m => (m.len, ring.data m.mbuf), frame⟩).toList
    live := s.live ++ (pkt.map fun p => p.mbufs.map RxMbuf.mbuf).getD [] }

/-- What happens to a queue: the NIC fills a descriptor, the driver looks at one, the stack frees
an mbuf of a packet. The total length of a frame fits in the length word. -/
def RxStep (cfg : RxConfig) (s : RxSystem) : RxOp → RxSystem → Prop
  | .fill f, t => (s.ring.bd s.nidx).empty = true ∧ s.frameLen + f.bytes.length < 65536 ∧
      t = s.nicFill f
  | .receive f env, t => s.fills.head? = some f ∧ (∀ new ∈ env.alloc, s.Fresh cfg new) ∧
      ∃ ring pkt, cfg.receiveOne env s.ring = some (ring, pkt) ∧ t = s.received ring f env pkt
  | .free mbuf, t => t = { s with live := s.live.erase mbuf }

end Mx6xBsp.Devnp
