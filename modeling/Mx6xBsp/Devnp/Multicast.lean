import Mx6xBsp.Lib.Fields

/-!
# The filter for multicast addresses

`mx6q_set_multicast` of `multicast.c` sets one of 64 bits for each address that has been joined, by
the upper six bits of its checksum, or all of them if a range has been joined. The NIC takes a
frame if the bit of its address is set; `mx6qSetMulticast_takes_iff` tells which frames these are.
The checksum of the library is a parameter.
-/

namespace Mx6xBsp.Devnp

abbrev EtherAddr := Vector UInt8 6

/-- `struct ether_multi` -/
structure EtherMulti where
  addrlo : EtherAddr
  addrhi : EtherAddr

/-- `gaddr_val`, or the registers, with `IFF_ALLMULTI` -/
structure McastFilter where
  gaddr0 : BitVec 32
  gaddr1 : BitVec 32
  allmulti : Bool

def McastFilter.set (f : McastFilter) (h : BitVec 32) : McastFilter :=
  if h &&& 0x20 ≠ 0 then { f with gaddr0 := f.gaddr0 ||| (1 : BitVec 32) <<< (h &&& 0x1f).toNat }
  else { f with gaddr1 := f.gaddr1 ||| (1 : BitVec 32) <<< (h &&& 0x1f).toNat }

variable (crc : EtherAddr → BitVec 32)

/-- The 6 most-significant bits of `ether_crc32_le` -/
def mcastHash (addr : EtherAddr) : BitVec 32 := (crc addr >>> 26) &&& 0x3f

/-- The loop over the list, with `none` where it goes to `allmulti` -/
def mcastLoop : List EtherMulti → McastFilter → Option McastFilter
  | [], f => some f
  | enm :: step, f =>
    if enm.addrlo ≠ enm.addrhi then none else mcastLoop step (f.set (mcastHash crc enm.addrlo))

def mx6qSetMulticast (multi : List EtherMulti) : McastFilter :=
  match mcastLoop crc multi ⟨0, 0, false⟩ with
  | none => ⟨0xffffffff, 0xffffffff, true⟩
  | some f => f

/-- The NIC takes a frame to a group: the upper 32 hashes have their bits in the first register. -/
def McastFilter.Takes (f : McastFilter) (h : BitVec 32) : Prop :=
  (if h &&& 0x20 ≠ 0 then f.gaddr0 else f.gaddr1).getLsbD (h &&& 0x1f).toNat = true

variable {crc} {multi : List EtherMulti} {f : McastFilter} {h h' : BitVec 32}

theorem low_toNat : (h &&& 0x1f).toNat = h.toNat % 32 := by
  rw [BitVec.toNat_and]
  exact Nat.and_two_pow_sub_one_eq_mod h.toNat 5

theorem upper_iff (below : h.toNat < 64) : h &&& 0x20 ≠ 0 ↔ 32 ≤ h.toNat := by
  have bit : ∀ n < 64, n &&& 32 ≠ 0 ↔ 32 ≤ n := by decide
  rw [← bit _ below, ne_eq, ← BitVec.toNat_inj, BitVec.toNat_and]
  rfl

theorem mcastHash_lt (addr : EtherAddr) : (mcastHash crc addr).toNat < 64 := by
  rw [mcastHash, BitVec.toNat_and]
  exact Nat.lt_succ_of_le Nat.and_le_right

theorem bit_iff {v : BitVec 32} {n k : Nat} (small : n < 32) :
    (v ||| (1 : BitVec 32) <<< n).getLsbD k = true ↔ v.getLsbD k = true ∨ n = k := by
  have bit : ((1 : BitVec 32) <<< n).getLsbD k = (decide (n < 32) && decide (n = k)) :=
    BitVec.getLsbD_twoPow n k
  rw [BitVec.getLsbD_or, bit]
  simp [small]

theorem takes_set (below : h.toNat < 64) (below' : h'.toNat < 64) :
    (f.set h').Takes h ↔ f.Takes h ∨ h' = h := by
  have low := low_toNat (h := h)
  have low' := low_toNat (h := h')
  have same : h' = h ↔ h'.toNat = h.toNat := BitVec.toNat_inj.symm
  unfold McastFilter.Takes McastFilter.set
  simp only [upper_iff below, upper_iff below', same]
  by_cases upper : 32 ≤ h.toNat
  · rw [if_pos upper, if_pos upper]
    by_cases upper' : 32 ≤ h'.toNat
    · rw [if_pos upper']
      exact (bit_iff (by omega)).trans (or_congr_right (by omega))
    · rw [if_neg upper', or_iff_left (by omega)]
  · rw [if_neg upper, if_neg upper]
    by_cases upper' : 32 ≤ h'.toNat
    · rw [if_pos upper', or_iff_left (by omega)]
    · rw [if_neg upper']
      exact (bit_iff (by omega)).trans (or_congr_right (by omega))

theorem set_allmulti : (f.set h).allmulti = f.allmulti := by
  unfold McastFilter.set
  split <;> rfl

/-- Without a range the loop ends, and adds the hashes of the list to those that are taken. -/
theorem mcastLoop_takes (single : ∀ enm ∈ multi, enm.addrlo = enm.addrhi) (below : h.toNat < 64) :
    ∃ g, mcastLoop crc multi f = some g ∧ g.allmulti = f.allmulti ∧
      (g.Takes h ↔ f.Takes h ∨ ∃ enm ∈ multi, mcastHash crc enm.addrlo = h) := by
  induction multi generalizing f with
  | nil => exact ⟨f, rfl, rfl, by simp⟩
  | cons enm step ih =>
    obtain ⟨g, done, flag, takes⟩ := ih (f := f.set (mcastHash crc enm.addrlo))
      fun enm mem => single enm (List.mem_cons_of_mem _ mem)
    refine ⟨g, ?_, flag.trans set_allmulti, takes.trans ?_⟩
    · rw [mcastLoop, if_neg (not_not.mpr (single enm List.mem_cons_self)), done]
    · rw [takes_set below (mcastHash_lt _), List.exists_mem_cons_iff, or_assoc]

theorem mcastLoop_range (range : ∃ enm ∈ multi, enm.addrlo ≠ enm.addrhi) :
    mcastLoop crc multi f = none := by
  induction multi generalizing f with
  | nil => simp at range
  | cons first step ih =>
    rw [mcastLoop]
    split
    · rfl
    · rename_i single
      apply ih
      rcases (List.exists_mem_cons_iff _ _ _).mp range with here | later
      · exact absurd here single
      · exact later

/-- The NIC takes the frames for an address exactly if a range has been joined, or an address with
the same hash; all those joined are among them. -/
theorem mx6qSetMulticast_takes_iff (crc : EtherAddr → BitVec 32) (multi : List EtherMulti)
    (addr : EtherAddr) :
    ((mx6qSetMulticast crc multi).Takes (mcastHash crc addr) ↔
      (∃ enm ∈ multi, enm.addrlo ≠ enm.addrhi) ∨
        ∃ enm ∈ multi, mcastHash crc enm.addrlo = mcastHash crc addr) ∧
    ((mx6qSetMulticast crc multi).allmulti = true ↔ ∃ enm ∈ multi, enm.addrlo ≠ enm.addrhi) := by
  by_cases range : ∃ enm ∈ multi, enm.addrlo ≠ enm.addrhi
  · have bit : ∀ k < 32, BitVec.getLsbD (0xffffffff : BitVec 32) k = true := by decide
    have low := low_toNat (h := mcastHash crc addr)
    rw [mx6qSetMulticast, mcastLoop_range range]
    refine ⟨iff_of_true ?_ (.inl range), iff_of_true rfl range⟩
    rw [McastFilter.Takes, ite_self]
    exact bit _ (by omega)
  · have single : ∀ enm ∈ multi, enm.addrlo = enm.addrhi := by simpa using range
    obtain ⟨g, done, flag, takes⟩ := mcastLoop_takes (f := ⟨0, 0, false⟩)
      (h := mcastHash crc addr) single (mcastHash_lt addr)
    have none : ¬(McastFilter.mk 0 0 false).Takes (mcastHash crc addr) := by
      rw [McastFilter.Takes, ite_self]
      simp
    rw [mx6qSetMulticast, done, or_iff_right range, flag, takes, or_iff_right none]
    exact ⟨Iff.rfl, iff_of_false nofun range⟩

end Mx6xBsp.Devnp
