import Mathlib.Algebra.BigOperators.Group.Finset.Basic
import Mathlib.Algebra.BigOperators.Group.Finset.Piecewise
import Mathlib.Algebra.Order.BigOperators.Group.Finset
import Mx6xBsp.Startup.Syspage

/-!
# What the section calls do to the system page

Seen from outside, the page is a byte string for each section: growing a section
appends zeros to its string and every other string is unchanged, wherever the
sections stand in memory (`Syspage.bytes`, `SyspageCall.next`). `Laid` is the
layout that makes this true; an empty section counts as standing between its
neighbours, so that two sections are apart when one ends where or before the
other begins.
-/

namespace Mx6xBsp.Startup

open Finset

namespace Syspage

/-- The address after the last byte of a section. -/
def stop (lsp : Syspage) (sect : LocalSection) : Nat := lsp.p sect + lsp.size sect

/-- The sections are apart, the header first, and they make up the page. -/
structure Laid (lsp : Syspage) : Prop where
  apart : ∀ s t, s ≠ t → lsp.stop s ≤ lsp.p t ∨ lsp.stop t ≤ lsp.p s
  headerFirst : ∀ s, s ≠ .syspage → lsp.stop .syspage ≤ lsp.p s
  headerPos : 0 < lsp.size .syspage
  inside : ∀ s, lsp.stop s ≤ lsp.p .syspage + lsp.totalSize
  total : lsp.totalSize = ∑ s, lsp.size s
  addressable : lsp.p .syspage + lsp.totalSize < PADDR_SPACE
  growable : lsp.p .syspage + lsp.maxSize < PADDR_SPACE
  maxSize_lt : lsp.maxSize < 65536
  totalSize_lt : lsp.totalSize < 65536

/-- `addr` is byte `off` of the section. -/
def Designates (lsp : Syspage) (addr : Nat) (sect : LocalSection) (off : Nat) : Prop :=
  addr = lsp.p sect + off ∧ off < lsp.size sect

/-- Each patch owner of the first page is, in the second, the owner of the same slot. -/
def OwnersKept (lsp lsp' : Syspage) : Prop :=
  List.Forall₂ (fun pd pd' => pd'.data = pd.data ∧
    ∀ sect off, lsp.Designates pd.owner sect off → lsp'.Designates pd'.owner sect off)
    lsp.patchData lsp'.patchData

variable {lsp lsp' lsp'' : Syspage} {sect s t : LocalSection} {n : Nat}

@[simp] theorem bytes_length : (lsp.bytes s).length = lsp.size s := by
  simp [bytes]

theorem bytes_getElem {off : Nat} (h : off < (lsp.bytes s).length) :
    (lsp.bytes s)[off] = lsp.mem (lsp.p s + off) := by
  simp [bytes]

theorem bytes_congr (size : lsp'.size s = lsp.size s)
    (same : ∀ off, off < lsp.size s → lsp'.mem (lsp'.p s + off) = lsp.mem (lsp.p s + off)) :
    lsp'.bytes s = lsp.bytes s := by
  unfold bytes
  rw [size]
  exact List.map_congr_left fun off hoff => same off (List.mem_range.mp hoff)

theorem Laid.header_le (laid : lsp.Laid) (s : LocalSection) : lsp.p .syspage ≤ lsp.p s := by
  by_cases h : s = .syspage
  · rw [h]
  · have := laid.headerFirst s h
    unfold stop at this
    omega

theorem OwnersKept.refl (lsp : Syspage) : lsp.OwnersKept lsp :=
  List.forall₂_same.mpr fun _ _ => ⟨rfl, fun _ _ h => h⟩

theorem OwnersKept.trans (first : lsp.OwnersKept lsp') (second : lsp'.OwnersKept lsp'') :
    lsp.OwnersKept lsp'' := by
  unfold OwnersKept at *
  rw [List.forall₂_iff_get] at *
  obtain ⟨len, first⟩ := first
  obtain ⟨len', second⟩ := second
  refine ⟨len.trans len', fun i h h'' => ?_⟩
  obtain ⟨data, owner⟩ := first i h (len ▸ h)
  obtain ⟨data', owner'⟩ := second i (len ▸ h) h''
  exact ⟨data'.trans data, fun sect off d => owner' sect off (owner sect off d)⟩

/-- Moving the addresses of a page's owners by a map that follows the sections keeps them. -/
theorem OwnersKept.of_map {move : CoInfo → CoInfo} (moved : lsp'.patchData = lsp.patchData.map move)
    (data : ∀ pd, (move pd).data = pd.data)
    (follows : ∀ pd sect off, lsp.Designates pd.owner sect off →
      lsp'.Designates (move pd).owner sect off) : lsp.OwnersKept lsp' := by
  unfold OwnersKept
  rw [moved, List.forall₂_map_right_iff]
  exact List.forall₂_same.mpr fun pd _ => ⟨data pd, follows pd⟩

/-! ## Growing a section -/

/-- `lsp'` is `lsp` with `n` zero bytes put in at the end of `sect`. -/
structure Grown (lsp : Syspage) (sect : LocalSection) (n : Nat) (lsp' : Syspage) : Prop where
  p : ∀ s, lsp'.p s = if s ≠ sect ∧ lsp.stop sect ≤ lsp.p s then lsp.p s + n else lsp.p s
  size : lsp'.size = Function.update lsp.size sect (lsp.size sect + n)
  total : lsp'.totalSize = lsp.totalSize + n
  fits : lsp.p .syspage + lsp.totalSize + n < PADDR_SPACE
  fits16 : lsp.totalSize + n < 65536
  maxSize : lsp'.maxSize = lsp.maxSize
  fixedSize : lsp'.fixedSize = lsp.fixedSize
  patchData : lsp'.patchData = lsp.patchData.map fun pd =>
    if lsp.stop sect ≤ pd.owner ∧ pd.owner < lsp.p .syspage + lsp.totalSize then
      { pd with owner := paddr (pd.owner + n) }
    else pd
  zeroed : ∀ a, lsp.stop sect ≤ a → a < lsp.stop sect + n → lsp'.mem a = 0
  slid : ∀ a, lsp.stop sect ≤ a → a < lsp.p .syspage + lsp.totalSize →
    lsp'.mem (a + n) = lsp.mem a
  kept : ∀ a, a < lsp.stop sect → lsp'.mem a = lsp.mem a

/-- A section slides exactly when it stands at or after the end of the one that grows. -/
theorem Laid.slides_or_stays (laid : lsp.Laid) (other : s ≠ sect) :
    lsp.stop sect ≤ lsp.p s ∨ (lsp.p s < lsp.stop sect ∧ lsp.stop s ≤ lsp.p sect) := by
  have := laid.apart sect s (Ne.symm other)
  omega

theorem Grown.p_sect (grown : Grown lsp sect n lsp') : lsp'.p sect = lsp.p sect := by
  simp [grown.p]

theorem Grown.p_slid (grown : Grown lsp sect n lsp') (other : s ≠ sect)
    (above : lsp.stop sect ≤ lsp.p s) : lsp'.p s = lsp.p s + n := by
  simp [grown.p, other, above]

theorem Grown.p_stays (grown : Grown lsp sect n lsp') (below : lsp.p s < lsp.stop sect) :
    lsp'.p s = lsp.p s := by
  rw [grown.p, if_neg (by omega)]

theorem Grown.size_sect (grown : Grown lsp sect n lsp') :
    lsp'.size sect = lsp.size sect + n := by
  simp [grown.size]

theorem Grown.size_other (grown : Grown lsp sect n lsp') (other : s ≠ sect) :
    lsp'.size s = lsp.size s := by
  simp [grown.size, other]

theorem Grown.header (grown : Grown lsp sect n lsp') (laid : lsp.Laid) :
    lsp'.p .syspage = lsp.p .syspage := by
  by_cases h : sect = .syspage
  · rw [← h]
    exact grown.p_sect
  · have first := laid.headerFirst sect h
    have pos := laid.headerPos
    unfold stop at first
    exact grown.p_stays (by unfold stop; omega)

theorem Grown.stop_sect (grown : Grown lsp sect n lsp') : lsp'.stop sect = lsp.stop sect + n := by
  unfold stop
  rw [grown.p_sect, grown.size_sect]
  omega

/-- Where the sections other than `sect` stand after it has grown. -/
theorem Grown.other_cases (grown : Grown lsp sect n lsp') (laid : lsp.Laid) (other : s ≠ sect) :
    (lsp.stop sect ≤ lsp.p s ∧ lsp'.p s = lsp.p s + n ∧ lsp'.stop s = lsp.stop s + n) ∨
      (lsp.p s < lsp.stop sect ∧ lsp.stop s ≤ lsp.p sect ∧ lsp'.p s = lsp.p s ∧
        lsp'.stop s = lsp.stop s) := by
  unfold stop
  rw [grown.size_other other]
  rcases laid.slides_or_stays other with above | ⟨below, before⟩
  · have moved := grown.p_slid other above
    unfold stop at above
    exact Or.inl ⟨above, moved, by omega⟩
  · have same := grown.p_stays below
    unfold stop at below before
    exact Or.inr ⟨below, before, same, by omega⟩

theorem Grown.laid (grown : Grown lsp sect n lsp') (laid : lsp.Laid) : lsp'.Laid := by
  have header := grown.header laid
  have start : lsp.p sect ≤ lsp.stop sect := Nat.le_add_right _ _
  have here := grown.p_sect
  have ends := grown.stop_sect
  refine ⟨?_, ?_, ?_, ?_, ?_, ?_, ?_, ?_, ?_⟩
  · intro s t distinct
    have was := laid.apart s t distinct
    by_cases hs : s = sect
    · subst hs
      have := grown.other_cases laid (Ne.symm distinct)
      omega
    · have atS := grown.other_cases laid hs
      by_cases ht : t = sect
      · subst ht
        omega
      · have atT := grown.other_cases laid ht
        have : lsp.p s ≤ lsp.stop s := Nat.le_add_right _ _
        have : lsp.p t ≤ lsp.stop t := Nat.le_add_right _ _
        omega
  · intro s hs
    have first := laid.headerFirst s hs
    by_cases hh : LocalSection.syspage = sect
    · subst hh
      have := grown.other_cases laid hs
      have := laid.headerPos
      unfold stop at *
      omega
    · have atHeader := grown.other_cases laid hh
      by_cases hst : s = sect
      · subst hst
        omega
      · have := grown.other_cases laid hst
        omega
  · by_cases hh : LocalSection.syspage = sect
    · subst hh
      have := grown.size_sect
      have := laid.headerPos
      omega
    · rw [grown.size_other hh]
      exact laid.headerPos
  · intro s
    have within := laid.inside s
    rw [header, grown.total]
    by_cases hs : s = sect
    · subst hs
      omega
    · have := grown.other_cases laid hs
      omega
  · rw [grown.total, grown.size, laid.total, Finset.sum_update_of_mem (mem_univ sect),
      ← Finset.add_sum_erase univ lsp.size (mem_univ sect), Finset.sdiff_singleton_eq_erase]
    omega
  · have := grown.fits
    rw [header, grown.total]
    omega
  · rw [header, grown.maxSize]
    exact laid.growable
  · rw [grown.maxSize]
    exact laid.maxSize_lt
  · rw [grown.total]
    exact grown.fits16

theorem Grown.bytes (grown : Grown lsp sect n lsp') (laid : lsp.Laid) :
    lsp'.bytes = Function.update lsp.bytes sect (lsp.bytes sect ++ List.replicate n 0) := by
  funext s
  by_cases hs : s = sect
  · subst hs
    rw [Function.update_self]
    apply List.ext_getElem
    · simp [grown.size_sect]
    · intro off h h'
      rw [bytes_getElem, grown.p_sect, List.getElem_append]
      rw [bytes_length, grown.size_sect] at h
      split
      · rename_i old
        rw [bytes_length] at old
        rw [bytes_getElem]
        exact grown.kept _ (by unfold stop; omega)
      · rename_i new
        rw [bytes_length] at new
        rw [List.getElem_replicate]
        exact grown.zeroed _ (by unfold stop; omega) (by unfold stop; omega)
  · rw [Function.update_of_ne hs]
    refine bytes_congr (grown.size_other hs) fun off hoff => ?_
    have within := laid.inside s
    rcases grown.other_cases laid hs with ⟨above, moved, _⟩ | ⟨_, before, same, _⟩
    · rw [moved, show lsp.p s + n + off = lsp.p s + off + n by omega]
      unfold stop at within
      exact grown.slid _ (by omega) (by omega)
    · rw [same]
      unfold stop at before
      exact grown.kept _ (by unfold stop; omega)

theorem Grown.ownersKept (grown : Grown lsp sect n lsp') (laid : lsp.Laid) :
    lsp.OwnersKept lsp' := by
  refine OwnersKept.of_map grown.patchData (fun pd => by split <;> rfl) ?_
  rintro pd s off ⟨addr, hoff⟩
  have within := laid.inside s
  have fits := grown.fits
  unfold stop at within
  by_cases hs : s = sect
  · subst hs
    rw [if_neg (by unfold stop; omega)]
    exact ⟨by rw [grown.p_sect]; exact addr, by rw [grown.size_sect]; omega⟩
  · rw [Designates, grown.size_other hs]
    rcases grown.other_cases laid hs with ⟨above, moved, _⟩ | ⟨_, before, same, _⟩
    · rw [if_pos (by omega), moved]
      refine ⟨?_, hoff⟩
      change paddr (pd.owner + n) = _
      rw [paddr_of_lt (by omega)]
      omega
    · unfold stop at before
      rw [if_neg (by unfold stop; omega), same]
      exact ⟨addr, hoff⟩

/-! ## The calls -/

/-- What `grow_syspage_section` does when it does not crash. -/
theorem growSyspageSection_grown {add q : Nat} (laid : lsp.Laid) (small : add ≤ 2 ^ 31)
    (grow : growSyspageSection lsp sect add = .ok (lsp', q)) :
    Grown lsp sect (ROUND add 8) lsp' := by
  have within := laid.inside sect
  have addressable := laid.addressable
  have growable := laid.growable
  have limit := laid.maxSize_lt
  have total := laid.totalSize_lt
  have start := laid.header_le sect
  unfold growSyspageSection at grow
  split at grow
  · have rounded := ROUND_eight (x := add) (by unfold PADDR_SPACE; omega)
    generalize ROUND add 8 = n at *
    simp only at grow
    split at grow
    · cases grow
    · rename_i room
      cases grow
      have bottom : paddr (lsp.p sect + lsp.size sect) = lsp.stop sect :=
        paddr_of_lt (by unfold stop at within; omega)
      have newSize : paddr (lsp.totalSize + n) = lsp.totalSize + n :=
        paddr_of_lt (by unfold PADDR_SPACE; omega)
      rw [newSize] at room
      have slide : ∀ s, slideSections lsp sect (lsp.stop sect) n s =
          if s ≠ sect ∧ lsp.stop sect ≤ lsp.p s then lsp.p s + n else lsp.p s := by
        intro s
        have := laid.inside s
        unfold stop at this
        unfold slideSections
        split
        · exact paddr_of_lt (by omega)
        · rfl
      have header : slideSections lsp sect (lsp.stop sect) n .syspage = lsp.p .syspage := by
        rw [slide, if_neg]
        rintro ⟨other, above⟩
        have first := laid.headerFirst sect (Ne.symm other)
        have pos := laid.headerPos
        unfold stop at *
        omega
      have len : paddrSub lsp.totalSize (paddrSub (lsp.stop sect) (lsp.p .syspage)) =
          lsp.p .syspage + lsp.totalSize - lsp.stop sect := by
        unfold stop at *
        unfold paddrSub paddr PADDR_SPACE at *
        omega
      have lower : lsp.p sect ≤ lsp.stop sect := Nat.le_add_right _ _
      simp only [bottom, newSize, header, len]
      constructor
      · exact slide
      · have : paddr (lsp.size sect + n) = lsp.size sect + n := by
          unfold stop at within
          exact paddr_of_lt (by unfold PADDR_SPACE; omega)
        simp only [this]
      · exact Nat.mod_eq_of_lt (by omega)
      · omega
      · omega
      · rfl
      · rfl
      · have : paddr (lsp.stop sect + (lsp.p .syspage + lsp.totalSize - lsp.stop sect)) =
            lsp.p .syspage + lsp.totalSize := by
          rw [Nat.add_sub_cancel' within]
          exact paddr_of_lt addressable
        simp only [calloutRelocData, this, gt_iff_lt]
      · intro a low high
        exact if_pos ⟨low, high⟩
      · intro a low high
        simp only [Mem.zero, Mem.move]
        rw [if_neg (by omega), paddr_of_lt (by omega), if_pos (by omega)]
        congr 1
        omega
      · intro a low
        simp only [Mem.zero, Mem.move]
        rw [if_neg (by omega), paddr_of_lt (by omega), if_neg (by omega)]
  · rename_i zero
    cases grow
    obtain rfl : add = 0 := by omega
    rw [show ROUND 0 8 = 0 by decide]
    refine ⟨fun s => by simp, by simp, rfl, addressable, total, rfl, rfl, ?_,
      fun a low high => ?_, fun a _ _ => rfl, fun a _ => rfl⟩
    · refine (List.map_id' _).symm.trans (List.map_congr_left fun pd _ => ?_)
      split
      · have : paddr (pd.owner + 0) = pd.owner := paddr_of_lt (by omega)
        rw [this]
      · rfl
    · omega

/-- The page with an empty section moved, as `set_syspage_section` leaves it to
`grow_syspage_section`. -/
def place (lsp : Syspage) (sect : LocalSection) (size : Nat) : Syspage :=
  { lsp with
    p := Function.update lsp.p sect (paddr (lsp.p .syspage + lsp.fixedSize))
    fixedSize := paddr (lsp.fixedSize + size) }

/-- The layout invariant with that of the fixed area at the front of the page. -/
structure Good (lsp : Syspage) : Prop extends Laid lsp where
  fixedPos : 0 < lsp.fixedSize
  fixedLe : lsp.fixedSize ≤ lsp.totalSize

/-- The end of the fixed area, where `set_syspage_section` puts a section. -/
def fixedEnd (lsp : Syspage) : Nat := lsp.p .syspage + lsp.fixedSize

/-- `set_syspage_section` places `sect` as its design has it: the section is still empty, and
the end of the fixed area does not lie strictly inside another section. -/
structure Placeable (lsp : Syspage) (sect : LocalSection) : Prop where
  empty : lsp.size sect = 0
  boundary : ∀ t, t ≠ sect → lsp.fixedEnd ≤ lsp.p t ∨ lsp.stop t ≤ lsp.fixedEnd

theorem Placeable.other (placeable : lsp.Placeable sect) (good : lsp.Good) :
    sect ≠ .syspage := by
  rintro rfl
  have := placeable.empty
  have := good.headerPos
  omega

theorem Good.fixedEnd_lt (good : lsp.Good) : lsp.fixedEnd < PADDR_SPACE := by
  have := good.addressable
  have := good.fixedLe
  unfold fixedEnd
  omega

theorem place_p_sect (good : lsp.Good) : (lsp.place sect n).p sect = lsp.fixedEnd :=
  (Function.update_self ..).trans (paddr_of_lt good.fixedEnd_lt)

theorem place_p_other (other : s ≠ sect) : (lsp.place sect n).p s = lsp.p s :=
  Function.update_of_ne other _ _

theorem place_stop_other (other : s ≠ sect) : (lsp.place sect n).stop s = lsp.stop s := by
  unfold stop
  rw [place_p_other other]
  rfl

theorem Placeable.laid (placeable : lsp.Placeable sect) (good : lsp.Good) :
    (lsp.place sect n).Laid := by
  have notHeader := placeable.other good
  have headerP : (lsp.place sect n).p .syspage = lsp.p .syspage :=
    place_p_other (Ne.symm notHeader)
  have headerStop : (lsp.place sect n).stop .syspage = lsp.stop .syspage :=
    place_stop_other (Ne.symm notHeader)
  have here : (lsp.place sect n).p sect = lsp.fixedEnd := place_p_sect good
  have ends : (lsp.place sect n).stop sect = lsp.fixedEnd := by
    have := placeable.empty
    unfold stop
    rw [here]
    change lsp.fixedEnd + lsp.size sect = _
    omega
  have afterHeader : lsp.stop .syspage ≤ lsp.fixedEnd := by
    rcases placeable.boundary .syspage (Ne.symm notHeader) with before | after
    · have := good.fixedPos
      unfold fixedEnd at before
      omega
    · exact after
  refine ⟨?_, ?_, good.headerPos, ?_, good.total, ?_, ?_, good.maxSize_lt, good.totalSize_lt⟩
  · intro s t distinct
    by_cases hs : s = sect
    · subst hs
      rw [ends, here, place_p_other (Ne.symm distinct), place_stop_other (Ne.symm distinct)]
      exact placeable.boundary t (Ne.symm distinct)
    · by_cases ht : t = sect
      · subst ht
        rw [ends, here, place_p_other hs, place_stop_other hs]
        exact (placeable.boundary s hs).symm
      · rw [place_p_other hs, place_p_other ht, place_stop_other hs, place_stop_other ht]
        exact good.apart s t distinct
  · intro s hs
    rw [headerStop]
    by_cases hsect : s = sect
    · rw [hsect, here]
      exact afterHeader
    · rw [place_p_other hsect]
      exact good.headerFirst s hs
  · intro s
    rw [headerP]
    by_cases hsect : s = sect
    · have := good.fixedLe
      rw [hsect, ends]
      unfold fixedEnd
      exact Nat.add_le_add_left this _
    · rw [place_stop_other hsect]
      exact good.inside s
  · rw [headerP]
    exact good.addressable
  · rw [headerP]
    exact good.growable

theorem Placeable.bytes (placeable : lsp.Placeable sect) :
    (lsp.place sect n).bytes = lsp.bytes := by
  funext s
  by_cases hs : s = sect
  · subst hs
    refine bytes_congr rfl fun off hoff => ?_
    have := placeable.empty
    omega
  · refine bytes_congr rfl fun off _ => ?_
    rw [place_p_other hs]
    rfl

theorem Placeable.ownersKept (placeable : lsp.Placeable sect) :
    lsp.OwnersKept (lsp.place sect n) := by
  refine OwnersKept.of_map (List.map_id _).symm (fun _ => rfl) ?_
  rintro pd s off ⟨addr, hoff⟩
  by_cases hs : s = sect
  · subst hs
    have := placeable.empty
    omega
  · exact ⟨by rw [place_p_other hs]; exact addr, hoff⟩

/-- What `set_syspage_section` does when it does not crash. -/
theorem setSyspageSection_grown {size q : Nat} (good : lsp.Good) (placeable : lsp.Placeable sect)
    (small : size < 2 ^ 31)
    (set : setSyspageSection lsp sect size = .ok (lsp', q)) :
    lsp.totalSize + ROUND size 8 < PADDR_SPACE ∧
      Grown (lsp.place sect (ROUND size 8)) sect (ROUND size 8) lsp' := by
  have rounded := ROUND_eight (x := size) (by unfold PADDR_SPACE; omega)
  have again := ROUND_eight (x := ROUND size 8) (by unfold PADDR_SPACE; omega)
  have grown := growSyspageSection_grown (placeable.laid good) (by omega) set
  rw [show ROUND (ROUND size 8) 8 = ROUND size 8 by omega] at grown
  have := good.totalSize_lt
  exact ⟨by unfold PADDR_SPACE; omega, grown⟩

/-! ## Relocating the page -/

/-- A page pointer after `reloc_syspage_memory`. -/
theorem paddr_add_diff {a base base' : Nat} (above : base ≤ a)
    (fits : base' + (a - base) < PADDR_SPACE) :
    paddr (a + paddrSub base' base) = base' + (a - base) := by
  unfold PADDR_SPACE at fits
  unfold paddrSub paddr PADDR_SPACE
  omega

variable {base maxSize : Nat}

/-- The new place has room for the page and for its growth, and does not overlap the old one:
`reloc_syspage_memory` reads `total_size` from the old header after the `memmove`. -/
structure Relocatable (lsp : Syspage) (base maxSize : Nat) : Prop where
  room : base + lsp.totalSize < PADDR_SPACE
  limit : base + maxSize % 65536 < PADDR_SPACE
  clear : base + lsp.totalSize ≤ lsp.p .syspage ∨ lsp.p .syspage + lsp.totalSize ≤ base

theorem reloc_p (laid : lsp.Laid) (place : lsp.Relocatable base maxSize) (s : LocalSection) :
    (relocSyspageMemory lsp base maxSize).p s = base + (lsp.p s - lsp.p .syspage) := by
  have within := laid.inside s
  have room := place.room
  unfold stop at within
  exact paddr_add_diff (laid.header_le s) (by omega)

theorem reloc_stop (laid : lsp.Laid) (place : lsp.Relocatable base maxSize) (s : LocalSection) :
    (relocSyspageMemory lsp base maxSize).stop s = base + (lsp.stop s - lsp.p .syspage) := by
  have := laid.header_le s
  unfold stop
  rw [reloc_p laid place]
  change base + (lsp.p s - lsp.p .syspage) + lsp.size s = _
  omega

theorem reloc_laid (laid : lsp.Laid) (place : lsp.Relocatable base maxSize) :
    (relocSyspageMemory lsp base maxSize).Laid := by
  have header : (relocSyspageMemory lsp base maxSize).p .syspage = base := by
    rw [reloc_p laid place, Nat.sub_self, Nat.add_zero]
  refine ⟨?_, ?_, laid.headerPos, ?_, laid.total, ?_, ?_, Nat.mod_lt _ (by decide),
    laid.totalSize_lt⟩
  · intro s t distinct
    rw [reloc_stop laid place, reloc_stop laid place, reloc_p laid place, reloc_p laid place]
    have := laid.apart s t distinct
    omega
  · intro s hs
    rw [reloc_stop laid place, reloc_p laid place]
    have := laid.headerFirst s hs
    omega
  · intro s
    rw [header, reloc_stop laid place]
    have := laid.inside s
    change _ ≤ base + lsp.totalSize
    omega
  · rw [header]
    exact place.room
  · rw [header]
    exact place.limit

theorem reloc_bytes (laid : lsp.Laid) (place : lsp.Relocatable base maxSize) :
    (relocSyspageMemory lsp base maxSize).bytes = lsp.bytes := by
  funext s
  refine bytes_congr rfl fun off hoff => ?_
  have within := laid.inside s
  have above := laid.header_le s
  unfold stop at within
  rw [reloc_p laid place]
  refine (if_pos (by omega)).trans (congrArg lsp.mem ?_)
  omega

theorem reloc_ownersKept (laid : lsp.Laid) (place : lsp.Relocatable base maxSize) :
    lsp.OwnersKept (relocSyspageMemory lsp base maxSize) := by
  refine OwnersKept.of_map rfl (fun pd => by split <;> rfl) ?_
  rintro pd s off ⟨addr, hoff⟩
  have within := laid.inside s
  have above := laid.header_le s
  have room := place.room
  have ends := paddr_of_lt laid.addressable
  unfold stop at within
  rw [if_pos ⟨by omega, by rw [ends]; omega⟩, Designates, reloc_p laid place]
  refine ⟨?_, hoff⟩
  change paddr (pd.owner + paddrSub base (lsp.p .syspage)) = _
  rw [paddr_add_diff (by omega) (by omega)]
  omega

/-! ## Storing and registering -/

variable {off : Nat} {val : UInt8}

theorem store_bytes (laid : lsp.Laid) (within : off < lsp.size sect) :
    ({ lsp with mem := Function.update lsp.mem (lsp.p sect + off) val } : Syspage).bytes =
      Function.update lsp.bytes sect ((lsp.bytes sect).set off val) := by
  funext s
  by_cases hs : s = sect
  · subst hs
    rw [Function.update_self]
    apply List.ext_getElem
    · simp
    · intro i h h'
      rw [bytes_getElem, List.getElem_set]
      split
      · rename_i same
        subst same
        exact Function.update_self ..
      · rename_i other
        rw [bytes_getElem]
        refine Function.update_of_ne ?_ _ _
        change lsp.p s + i ≠ lsp.p s + off
        omega
  · rw [Function.update_of_ne hs]
    refine bytes_congr rfl fun i hi => Function.update_of_ne ?_ _ _
    have := laid.apart s sect hs
    change lsp.p s + i ≠ lsp.p sect + off
    change i < lsp.size s at hi
    unfold stop at this
    omega

end Syspage

end Mx6xBsp.Startup
