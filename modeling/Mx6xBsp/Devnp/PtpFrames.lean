import Mathlib.Data.BitVec
import Mx6xBsp.Lib.Cursors

/-!
# Which frames are PTP event messages

`mx6q_ptp_is_eventmsg` looks for a PTP header in an mbuf chain: behind an
Ethernet header with the EtherType of PTP, or behind IPv4 and UDP headers with
the event port. It goes from mbuf to mbuf between the headers, but it takes the
fields of a header to be where the header begins. `ptp_classified_iff` says for
which packets it stays inside the mbufs and is right.
-/

namespace Mx6xBsp.Devnp

open Cursors

def ETHERTYPE_PTP : Nat := 0x88F7
def ETHERTYPE_IP : Nat := 0x0800
def ETHERTYPE_VLAN : Nat := 0x8100
def IPPROTO_UDP : Nat := 17
def PTP_UDP_PORT : Nat := 319
def PTP_MSG_PDELAY_RESP : Nat := 3

/-- `sizeof(struct ether_header)` -/
def sizeofEtherHeader : Nat := 14
/-- `sizeof(struct udphdr)` -/
def sizeofUdphdr : Nat := 8
/-- `sizeof(ptpv2hdr_t)` -/
def sizeofPtpv2hdr : Nat := 34

/-- The bytes of an mbuf chain whose `pkthdr.len` is the sum of its lengths. -/
structure PtpPacket where
  mbufs : List (List (BitVec 8))
  pktLen : Nat
  sum : pktLen = mbufs.flatten.length
  int : pktLen < 2 ^ 31

/-- A NULL `m_next` is followed, or something outside of an mbuf is read. -/
inductive PtpFault
  | null
  | outside

/-! ## The function -/

/-- `while (remain >= m->m_len) { remain -= m->m_len; m = m->m_next; }` -/
def gotoMbuf (place : Option (Cursor (BitVec 8))) : Except PtpFault (Cursor (BitVec 8)) :=
  match place with
  | none => .error .null
  | some c => .ok c

def read8 (m : List (BitVec 8)) (i : Nat) : Except PtpFault Nat :=
  match m[i]? with
  | none => .error .outside
  | some byte => .ok byte.toNat

/-- `ntohs` of two bytes -/
def read16 (m : List (BitVec 8)) (i : Nat) : Except PtpFault Nat := do
  let high ← read8 m i
  let low ← read8 m (i + 1)
  return high * 256 + low

/-- The last test: the PTP header is in one mbuf. -/
def ptpHeader (m : Cursor (BitVec 8)) : Option (Cursor (BitVec 8)) :=
  if m.piece.length - m.offset < sizeofPtpv2hdr then none else some m

/-- `case ETHERTYPE_IP`, with `udph` found. -/
def udpEventmsg (udph : Cursor (BitVec 8)) :
    Except PtpFault (Option (Cursor (BitVec 8))) := do
  let uhDport ← read16 udph.piece (udph.offset + 2)
  if uhDport ≠ PTP_UDP_PORT then return none
  else
    let m ← gotoMbuf (udph.skip sizeofUdphdr)
    return ptpHeader m

/-- `case ETHERTYPE_IP`, with `iph` found. -/
def ipEventmsg (pktlen : Nat) (iph : Cursor (BitVec 8)) :
    Except PtpFault (Option (Cursor (BitVec 8))) := do
  let ipP ← read8 iph.piece (iph.offset + 9)
  if ipP ≠ IPPROTO_UDP then return none
  else
    let ipHl := (← read8 iph.piece iph.offset) % 16
    if pktlen < sizeofEtherHeader + ipHl * 4 + sizeofUdphdr + sizeofPtpv2hdr then return none
    else
      let udph ← gotoMbuf (iph.skip (ipHl * 4))
      udpEventmsg udph

/-- `switch (ntohs(eh->ether_type))` -/
def etherTypeEventmsg (p : PtpPacket) (etherType : Nat) :
    Except PtpFault (Option (Cursor (BitVec 8))) :=
  if etherType = ETHERTYPE_PTP then do
    let m ← gotoMbuf (advance p.mbufs sizeofEtherHeader)
    return ptpHeader m
  else if etherType = ETHERTYPE_IP then do
    let iph ← gotoMbuf (advance p.mbufs sizeofEtherHeader)
    ipEventmsg p.pktLen iph
  else .ok none

/-- `mx6q_ptp_is_eventmsg`; a place found is the one `*ph` is set to. -/
def mx6qPtpIsEventmsg (p : PtpPacket) : Except PtpFault (Option (Cursor (BitVec 8))) :=
  match p.mbufs with
  | [] => .ok none
  | eh :: _ =>
    if p.pktLen < sizeofEtherHeader + sizeofPtpv2hdr then .ok none
    else do
      let etherType ← read16 eh 12
      etherTypeEventmsg p etherType

/-! ## Event messages -/

namespace PtpPacket

/-- A byte of the frame, counted without the mbufs. -/
def byte (p : PtpPacket) (i : Nat) : Nat := (p.mbufs.flatten[i]?.map BitVec.toNat).getD 0

def word (p : PtpPacket) (i : Nat) : Nat := p.byte i * 256 + p.byte (i + 1)

/-- `n` bytes from `start` on lie in one mbuf. -/
def Whole (p : PtpPacket) (start n : Nat) : Prop :=
  ∃ c, advance p.mbufs start = some c ∧ c.offset + n ≤ c.piece.length

/-- What follows the EtherType begins at `l3`. -/
def etherType (p : PtpPacket) (l3 : Nat) : Nat := p.word (l3 - 2)

def ihl (p : PtpPacket) (l3 : Nat) : Nat := p.byte l3 % 16

/-- The frame has the EtherType of PTP. -/
def Raw (p : PtpPacket) (l3 : Nat) : Prop := p.etherType l3 = ETHERTYPE_PTP

/-- The frame has the EtherType of IPv4, the protocol of UDP and the event port. -/
def Udp (p : PtpPacket) (l3 : Nat) : Prop :=
  p.etherType l3 = ETHERTYPE_IP ∧ p.byte (l3 + 9) = IPPROTO_UDP ∧
    p.word (l3 + p.ihl l3 * 4 + 2) = PTP_UDP_PORT

/-- Where the PTP header is to begin. -/
def header (p : PtpPacket) (l3 : Nat) : Nat :=
  if p.etherType l3 = ETHERTYPE_PTP then l3 else l3 + p.ihl l3 * 4 + sizeofUdphdr

/-- A PTP event message: the message type is that of one, or the datagram goes to the event port.
The IPv4 header is one, and no fragment but the first has a UDP header. -/
def Event (p : PtpPacket) (l3 : Nat) : Prop :=
  p.header l3 + sizeofPtpv2hdr ≤ p.pktLen ∧
    (p.Raw l3 ∧ p.byte l3 % 16 ≤ PTP_MSG_PDELAY_RESP ∨
      p.Udp l3 ∧ p.byte l3 / 16 = 4 ∧ 5 ≤ p.ihl l3 ∧ p.word (l3 + 6) % 2 ^ 13 = 0)

/-- With or without a VLAN tag. -/
def AnyEvent (p : PtpPacket) : Prop := p.Event 14 ∨ p.etherType 14 = ETHERTYPE_VLAN ∧ p.Event 18

/-- The function reads nothing outside, and finds the event messages. -/
def Recognized (p : PtpPacket) : Prop :=
  ∃ found, mx6qPtpIsEventmsg p = .ok found ∧ (found.isSome = true ↔ p.AnyEvent)

/-- The function reads nothing outside, and finds the event messages without a tag whose PTP header
is in one mbuf. -/
def Classified (p : PtpPacket) : Prop :=
  ∃ found, mx6qPtpIsEventmsg p = .ok found ∧
    (found.isSome = true ↔ p.Event 14 ∧ p.Whole (p.header 14) sizeofPtpv2hdr)

/-- The protocol of the IPv4 header and the port of the UDP header lie in the mbuf in which the
header begins. -/
def InPlaceIp (p : PtpPacket) : Prop :=
  p.Whole 14 10 ∧
    (p.byte 23 = IPPROTO_UDP →
      14 + p.ihl 14 * 4 + sizeofUdphdr + sizeofPtpv2hdr ≤ p.pktLen →
        p.Whole (14 + p.ihl 14 * 4) 4)

/-- The fields that are read lie in the mbuf in which their header begins, the EtherType in the
first one. -/
def InPlace (p : PtpPacket) : Prop :=
  sizeofEtherHeader + sizeofPtpv2hdr ≤ p.pktLen →
    (∀ eh ∈ p.mbufs.head?, sizeofEtherHeader ≤ eh.length) ∧
      (p.etherType 14 = ETHERTYPE_IP → p.InPlaceIp)

/-- What has the EtherType of PTP is an event message, and what has the event port is a UDP
datagram. -/
def Genuine (p : PtpPacket) : Prop :=
  p.Raw 14 ∨ p.Udp 14 → p.Whole (p.header 14) sizeofPtpv2hdr → p.Event 14

end PtpPacket

/-! ## Reading -/

section Reading

variable {p : PtpPacket} {c : Cursor (BitVec 8)} {n i : Nat} {m : List (BitVec 8)}

theorem read8_outside (outside : m.length ≤ i) : read8 m i = .error .outside := by
  rw [read8, List.getElem?_eq_none outside]

theorem read16_outside (outside : m.length ≤ i + 1) : read16 m i = .error .outside := by
  unfold read16
  rcases Nat.lt_or_ge i m.length with within | beyond
  · have high : read8 m i = .ok (m[i]).toNat := by
      rw [read8, List.getElem?_eq_getElem within]
    rw [high, read8_outside outside]
    rfl
  · rw [read8_outside beyond]
    rfl

theorem read8_found (found : advance p.mbufs n = some c)
    (within : c.offset + i < c.piece.length) :
    read8 c.piece (c.offset + i) = .ok (p.byte (n + i)) := by
  have same := advance_getElem? found within
  rw [List.getElem?_eq_getElem within] at same
  rw [read8, PtpPacket.byte, ← same, List.getElem?_eq_getElem within]
  rfl

theorem read16_found (found : advance p.mbufs n = some c)
    (within : c.offset + i + 1 < c.piece.length) :
    read16 c.piece (c.offset + i) = .ok (p.word (n + i)) := by
  unfold read16
  rw [read8_found found (Nat.lt_of_succ_lt within), Nat.add_assoc,
    read8_found found (by omega)]
  rfl

theorem PtpPacket.Whole.le {k : Nat} (whole : p.Whole n k) : n + k ≤ p.pktLen := by
  obtain ⟨c, found, within⟩ := whole
  rw [p.sum]
  exact advance_le found within

theorem PtpPacket.goto (p : PtpPacket) (long : n < p.pktLen) :
    ∃ c, advance p.mbufs n = some c ∧ gotoMbuf (advance p.mbufs n) = .ok c := by
  obtain ⟨c, found⟩ := exists_advance (p.sum ▸ long)
  refine ⟨c, found, ?_⟩
  rw [found]
  rfl

theorem whole_iff {k : Nat} (found : advance p.mbufs n = some c) :
    p.Whole n k ↔ c.offset + k ≤ c.piece.length := by
  constructor
  · rintro ⟨c', other, within⟩
    rw [found] at other
    cases other
    exact within
  · exact fun within => ⟨c, found, within⟩

theorem ptpHeader_isSome (found : advance p.mbufs n = some c) :
    (ptpHeader c).isSome = true ↔ p.Whole n sizeofPtpv2hdr := by
  have inside := c.inside
  rw [whole_iff found, ptpHeader]
  split
  · exact iff_of_false nofun (by omega)
  · exact iff_of_true rfl (by omega)

end Reading

/-! ## What the function finds -/

/-- An answer `r` that is right where `place` holds, and the fault of a read outside elsewhere. -/
def Answers (r : Except PtpFault (Option (Cursor (BitVec 8)))) (place carried : Prop) : Prop :=
  (place ∧ ∃ found, r = .ok found ∧ (found.isSome = true ↔ carried)) ∨
    (¬place ∧ r = .error .outside)

section Finding

variable {p : PtpPacket} {place place' carried carried' : Prop}
  {r : Except PtpFault (Option (Cursor (BitVec 8)))}

theorem Answers.congr (answers : Answers r place carried) (same : place ↔ place')
    (alike : carried ↔ carried') : Answers r place' carried' := by
  rw [← propext same, ← propext alike]
  exact answers

theorem Answers.nothing (inPlace : place) (not : ¬carried) : Answers (.ok none) place carried :=
  Or.inl ⟨inPlace, none, rfl, iff_of_false nofun not⟩

theorem answers_header {n : Nat} (long : n + sizeofPtpv2hdr ≤ p.pktLen) :
    Answers (do
      let m ← gotoMbuf (advance p.mbufs n)
      return ptpHeader m) True (p.Whole n sizeofPtpv2hdr) := by
  unfold sizeofPtpv2hdr at long
  obtain ⟨c, found, goto⟩ := p.goto (show n < p.pktLen by omega)
  rw [goto]
  exact Or.inl ⟨trivial, ptpHeader c, rfl, ptpHeader_isSome found⟩

theorem answers_udp {n : Nat} {udph : Cursor (BitVec 8)} (found : advance p.mbufs n = some udph)
    (long : n + sizeofUdphdr + sizeofPtpv2hdr ≤ p.pktLen) :
    Answers (udpEventmsg udph) (p.Whole n 4)
      (p.word (n + 2) = PTP_UDP_PORT ∧ p.Whole (n + sizeofUdphdr) sizeofPtpv2hdr) := by
  unfold udpEventmsg
  by_cases within : udph.offset + 4 ≤ udph.piece.length
  · have whole := (whole_iff found).mpr within
    rw [read16_found found (by omega)]
    change Answers (if p.word (n + 2) ≠ PTP_UDP_PORT then _ else _) _ _
    by_cases port : p.word (n + 2) = PTP_UDP_PORT
    · rw [if_neg (not_not_intro port), advance_skip found]
      exact (answers_header long).congr (iff_of_true trivial whole) (and_iff_right port).symm
    · rw [if_pos port]
      exact Answers.nothing whole fun carried => port carried.1
  · refine Or.inr ⟨fun inPlace => within ((whole_iff found).mp inPlace), ?_⟩
    rw [read16_outside (by omega)]
    rfl

theorem answers_ip {iph : Cursor (BitVec 8)} (found : advance p.mbufs 14 = some iph) :
    Answers (ipEventmsg p.pktLen iph) p.InPlaceIp
      (p.byte 23 = IPPROTO_UDP ∧ p.word (14 + p.ihl 14 * 4 + 2) = PTP_UDP_PORT ∧
        p.Whole (14 + p.ihl 14 * 4 + sizeofUdphdr) sizeofPtpv2hdr) := by
  unfold ipEventmsg PtpPacket.InPlaceIp
  by_cases protocol : iph.offset + 10 ≤ iph.piece.length
  · have whole := (whole_iff found).mpr protocol
    have first := read8_found (i := 0) found (by omega)
    rw [Nat.add_zero, Nat.add_zero] at first
    rw [read8_found found (by omega), first]
    change Answers (if p.byte 23 ≠ IPPROTO_UDP then .ok none else
      if p.pktLen < 14 + p.ihl 14 * 4 + sizeofUdphdr + sizeofPtpv2hdr then .ok none
      else gotoMbuf (iph.skip (p.ihl 14 * 4)) >>= udpEventmsg) _ _
    by_cases udp : p.byte 23 = IPPROTO_UDP
    · rw [if_neg (not_not_intro udp)]
      rcases Nat.lt_or_ge p.pktLen (14 + p.ihl 14 * 4 + sizeofUdphdr + sizeofPtpv2hdr) with
        short | long
      · rw [if_pos short]
        refine Answers.nothing ⟨whole, fun _ long => absurd short (Nat.not_lt_of_le long)⟩ ?_
        rintro ⟨_, _, header⟩
        exact absurd short (Nat.not_lt_of_le header.le)
      · rw [if_neg (Nat.not_lt_of_le long), advance_skip found]
        unfold sizeofUdphdr sizeofPtpv2hdr at long
        obtain ⟨udph, second, goto⟩ := p.goto (show 14 + p.ihl 14 * 4 < p.pktLen by omega)
        rw [goto]
        apply (answers_udp second long).congr
        · exact ⟨fun inPlace => ⟨whole, fun _ _ => inPlace⟩, fun inPlace => inPlace.2 udp long⟩
        · exact (and_iff_right udp).symm
    · rw [if_pos udp]
      exact Answers.nothing ⟨whole, fun same => absurd same udp⟩ fun carried => udp carried.1
  · refine Or.inr ⟨fun inPlace => protocol ((whole_iff found).mp inPlace.1), ?_⟩
    rw [read8_outside (by omega)]
    rfl

theorem read16_first {eh : List (BitVec 8)} {rest : List (List (BitVec 8))}
    (first : p.mbufs = eh :: rest) (within : sizeofEtherHeader ≤ eh.length) :
    read16 eh 12 = .ok (p.etherType 14) := by
  unfold sizeofEtherHeader at within
  have found : advance p.mbufs 0 = some ⟨eh, rest, 0, by omega⟩ := by
    rw [first, advance_within]
  have read := read16_found (i := 12) found (by dsimp only; omega)
  rwa [Nat.zero_add] at read

theorem answers_etherType (long : sizeofEtherHeader + sizeofPtpv2hdr ≤ p.pktLen) :
    Answers (etherTypeEventmsg p (p.etherType 14))
      (p.etherType 14 = ETHERTYPE_IP → p.InPlaceIp)
      ((p.Raw 14 ∨ p.Udp 14) ∧ p.Whole (p.header 14) sizeofPtpv2hdr) := by
  unfold etherTypeEventmsg PtpPacket.Raw PtpPacket.Udp PtpPacket.header
  by_cases raw : p.etherType 14 = ETHERTYPE_PTP
  · have notIp : p.etherType 14 ≠ ETHERTYPE_IP := by
      rw [raw]
      decide
    rw [if_pos raw, if_pos raw]
    apply (answers_header long).congr
    · exact iff_of_true trivial fun ip => absurd ip notIp
    · exact (and_iff_right (Or.inl raw)).symm
  · rw [if_neg raw, if_neg raw]
    by_cases ip : p.etherType 14 = ETHERTYPE_IP
    · rw [if_pos ip]
      unfold sizeofEtherHeader sizeofPtpv2hdr at long
      obtain ⟨iph, found, goto⟩ := p.goto (show 14 < p.pktLen by omega)
      rw [show sizeofEtherHeader = 14 from rfl, goto]
      apply (answers_ip found).congr
      · exact ⟨fun inPlace _ => inPlace, fun inPlace => inPlace ip⟩
      · rw [or_iff_right raw, and_iff_right ip, and_assoc]
    · rw [if_neg ip]
      refine Answers.nothing (fun same => absurd same ip) ?_
      rintro ⟨same | udp, _⟩
      · exact raw same
      · exact ip udp.1

/-- The function reads outside exactly where a field is not in place, and never follows a NULL. It
finds what has the EtherType or the port, and a whole header. -/
theorem answers (p : PtpPacket) : Answers (mx6qPtpIsEventmsg p) p.InPlace
    ((p.Raw 14 ∨ p.Udp 14) ∧ p.Whole (p.header 14) sizeofPtpv2hdr) := by
  rcases Nat.lt_or_ge p.pktLen (sizeofEtherHeader + sizeofPtpv2hdr) with short | long
  · have none : mx6qPtpIsEventmsg p = .ok none := by
      unfold mx6qPtpIsEventmsg
      split
      · rfl
      · exact if_pos short
    rw [none]
    refine Answers.nothing (fun long => absurd short (Nat.not_lt_of_le long)) ?_
    rintro ⟨_, whole⟩
    have before : 14 ≤ p.header 14 := by
      unfold PtpPacket.header
      split <;> omega
    exact absurd short (Nat.not_lt_of_le ((Nat.add_le_add_right before _).trans whole.le))
  · cases first : p.mbufs with
    | nil =>
      have empty := p.sum
      rw [first] at empty
      rw [empty] at long
      cases long
    | cons eh rest =>
      have start : mx6qPtpIsEventmsg p = read16 eh 12 >>= etherTypeEventmsg p := by
        unfold mx6qPtpIsEventmsg
        rw [first]
        exact if_neg (Nat.not_lt_of_le long)
      have place : p.InPlace ↔ sizeofEtherHeader ≤ eh.length ∧
          (p.etherType 14 = ETHERTYPE_IP → p.InPlaceIp) := by
        unfold PtpPacket.InPlace
        rw [forall_prop_of_true long, first]
        simp
      rw [start]
      by_cases within : sizeofEtherHeader ≤ eh.length
      · rw [read16_first first within]
        exact (answers_etherType long).congr (place.trans (and_iff_right within)).symm Iff.rfl
      · refine Or.inr ⟨fun inPlace => within (place.mp inPlace).1, ?_⟩
        unfold sizeofEtherHeader at within
        rw [read16_outside (by omega)]
        rfl

end Finding

/-! ## The classification -/

theorem PtpPacket.Event.carried {p : PtpPacket} (event : p.Event 14) : p.Raw 14 ∨ p.Udp 14 :=
  event.2.imp And.left And.left

theorem PtpPacket.Recognized.carried {p : PtpPacket} (recognized : p.Recognized)
    (event : p.AnyEvent) : (p.Raw 14 ∨ p.Udp 14) ∧ p.Whole (p.header 14) sizeofPtpv2hdr := by
  obtain ⟨found, answer, only⟩ := recognized
  rcases answers p with ⟨_, found', answer', carried⟩ | ⟨_, fault⟩
  · rw [answer] at answer'
    cases answer'
    exact carried.mp (only.mpr event)
  · rw [answer] at fault
    cases fault

/-- For every packet, the function never follows a NULL. It reads nothing outside of the mbufs and
finds exactly the event messages without a tag and with a whole header if and only if the fields it
reads are in place and the packet is what its EtherType or its port say. -/
theorem ptp_classified_iff (p : PtpPacket) :
    mx6qPtpIsEventmsg p ≠ .error .null ∧ (p.Classified ↔ p.InPlace ∧ p.Genuine) := by
  rcases answers p with ⟨inPlace, found, answer, carried⟩ | ⟨outside, answer⟩
  · refine ⟨by rw [answer]; nofun, ?_⟩
    rw [and_iff_right inPlace]
    constructor
    · rintro ⟨found', answer', event⟩ like whole
      rw [answer] at answer'
      cases answer'
      exact (event.mp (carried.mpr ⟨like, whole⟩)).1
    · intro genuine
      refine ⟨found, answer, carried.trans ⟨?_, ?_⟩⟩
      · rintro ⟨like, whole⟩
        exact ⟨genuine like whole, whole⟩
      · rintro ⟨event, whole⟩
        exact ⟨event.carried, whole⟩
  · refine ⟨by rw [answer]; nofun, iff_of_false ?_ fun right => outside right.1⟩
    rintro ⟨found, other, _⟩
    rw [answer] at other
    cases other

/-- A Sync message with a VLAN tag, in one mbuf. -/
def taggedSync : PtpPacket where
  mbufs := [List.replicate 12 0 ++ [0x81, 0x00, 0x00, 0x05, 0x88, 0xF7] ++ List.replicate 34 0]
  pktLen := 52
  sum := rfl
  int := by decide

/-- One without a tag, with the PTP header in two mbufs. -/
def splitSync : PtpPacket where
  mbufs := [List.replicate 12 0 ++ [0x88, 0xF7] ++ List.replicate 6 0, List.replicate 28 0]
  pktLen := 48
  sum := rfl
  int := by decide

/-- Neither of the two is found. -/
theorem ptp_unrecognized : ¬taggedSync.Recognized ∧ ¬splitSync.Recognized := by
  constructor
  · intro recognized
    have event : taggedSync.AnyEvent := Or.inr ⟨rfl, by decide, Or.inl ⟨rfl, by decide⟩⟩
    obtain ⟨raw | udp, _⟩ := recognized.carried event
    · exact absurd (show taggedSync.etherType 14 = ETHERTYPE_PTP from raw) (by decide)
    · exact absurd udp.1 (by decide)
  · intro recognized
    have event : splitSync.AnyEvent := Or.inl ⟨by decide, Or.inl ⟨rfl, by decide⟩⟩
    obtain ⟨_, whole⟩ := recognized.carried event
    rw [show splitSync.header 14 = 14 from if_pos (by decide)] at whole
    have first : advance splitSync.mbufs 14 = some _ := advance_within (by decide)
    exact absurd ((whole_iff first).mp whole) (by decide)

end Mx6xBsp.Devnp
