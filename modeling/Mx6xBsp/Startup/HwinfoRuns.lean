import Mathlib.Data.List.GetD
import Mx6xBsp.Startup.HwinfoTags
import Mx6xBsp.Startup.SyspageRuns

/-!
# Runs of hwinfo calls

Each function of `hwi_alloc.c` as an operation on the window of the hwinfo
section, and from that what holds along runs. `hwi_grow_tag` leaves the static
`offset` where the grown tag ended before, so that the next allocation is placed
inside the grown tag: the section is well formed after a run exactly when
nothing is allocated after a tag has grown (`wellFormed_iff`).
-/

namespace Mx6xBsp.Startup

open Words Runs HwTag

namespace Syspage

variable {lsp lsp' : Syspage} {sect s : LocalSection}

/-- The bytes of a section by offset, zero beyond its end. -/
def win (lsp : Syspage) (sect : LocalSection) : Bytes := fun off => (lsp.bytes sect).getD off 0

theorem win_of_lt {off : Nat} (h : off < lsp.size sect) :
    lsp.win sect off = lsp.mem (lsp.p sect + off) := by
  simp [win, bytes, List.getD, h]

theorem win_of_le {off : Nat} (h : lsp.size sect ≤ off) : lsp.win sect off = 0 := by
  simp [win, bytes, List.getD, h]

theorem word16_win {off : Nat} (h : off + 2 ≤ lsp.size sect) :
    word16 lsp.mem (lsp.p sect + off) = word16 (lsp.win sect) off := by
  unfold word16
  rw [win_of_lt (by omega), win_of_lt (by omega), Nat.add_assoc]

theorem put16_win {off val : Nat} (h : off + 2 ≤ lsp.size sect) :
    (lsp.put16 (lsp.p sect + off) val).win sect = Words.put16 (lsp.win sect) off val := by
  funext i
  by_cases hi : i < lsp.size sect
  · rw [@Syspage.win_of_lt (lsp.put16 _ _) _ _ hi]
    change Words.put16 lsp.mem (lsp.p sect + off) val (lsp.p sect + i) = _
    by_cases low : i = off
    · rw [low, put16_low, put16_low]
    · by_cases high : i = off + 1
      · rw [high, ← Nat.add_assoc, put16_high, put16_high]
      · rw [put16_of_ne (by omega) (by omega), put16_of_ne low high, win_of_lt hi]
  · rw [@Syspage.win_of_le (lsp.put16 _ _) _ _ (Nat.le_of_not_lt hi),
      put16_of_ne (by omega) (by omega), win_of_le (Nat.le_of_not_lt hi)]

theorem store_win {off i : Nat} {val : UInt8} (other : i ≠ off) :
    ({ lsp with mem := Function.update lsp.mem (lsp.p sect + off) val } : Syspage).win sect i =
      lsp.win sect i := by
  let stored : Syspage := { lsp with mem := Function.update lsp.mem (lsp.p sect + off) val }
  by_cases hi : i < lsp.size sect
  · rw [@Syspage.win_of_lt stored _ _ hi, win_of_lt hi]
    exact Function.update_of_ne (fun same => other (Nat.add_left_cancel same)) _ _
  · have past := Nat.le_of_not_lt hi
    rw [@Syspage.win_of_le stored _ _ past, win_of_le past]

/-- What `grow_syspage_section` does to the windows. -/
theorem grow_win {add q : Nat} (good : lsp.Good) (small : add < 2 ^ 31)
    (grow : growSyspageSection lsp sect add = .ok (lsp', q)) :
    lsp'.Good ∧ lsp'.win = lsp.win ∧ lsp'.size sect = lsp.size sect + ROUND add 8 ∧
      (∀ t, t ≠ sect → lsp'.size t = lsp.size t) ∧ q = lsp'.p sect := by
  have grown := growSyspageSection_grown good.toLaid (le_of_lt small) grow
  obtain ⟨good', bytes, here⟩ := grow_bytes good small grow
  refine ⟨good', ?_, grown.size_sect, fun t other => grown.size_other other, here⟩
  funext s off
  unfold win
  rw [bytes]
  by_cases hs : s = sect
  · subst hs
    simp only [Function.update_self]
    by_cases hoff : off < (lsp.bytes s).length
    · rw [List.getD_append _ _ _ _ hoff]
    · rw [List.getD_append_right _ _ _ _ (by omega), List.getD_eq_getElem?_getD,
        List.getElem?_getD_replicate_default_eq, List.getD_eq_default _ _ (by omega)]
  · simp only [Function.update_of_ne hs]

theorem write_win {off : Nat} {data : List UInt8} (good : lsp.Good) (other : s ≠ sect)
    (inside : off + data.length ≤ lsp.size sect) :
    (lsp.write (lsp.p sect + off) data).win s = lsp.win s := by
  funext i
  by_cases hi : i < lsp.size s
  · rw [@Syspage.win_of_lt (lsp.write _ _) _ _ hi, win_of_lt hi]
    have apart := good.apart s sect other
    unfold stop at apart
    exact if_neg (by change ¬(_ ≤ lsp.p s + i ∧ lsp.p s + i < _); omega)
  · rw [@Syspage.win_of_le (lsp.write _ _) _ _ (Nat.le_of_not_lt hi),
      win_of_le (Nat.le_of_not_lt hi)]

end Syspage

/-! ## Strings -/

variable {lsp lsp' : Syspage} {name : List UInt8}

/-- The search of `add_string` stops inside the strings it searches. -/
theorem findString_lt {fuel i j : Nat} {found : Bool} {data : List UInt8}
    (find : findString name fuel data i = some (j, found)) : j < i + data.length := by
  induction fuel generalizing data i with
  | zero => cases find
  | succ fuel ih =>
    have le := (List.takeWhile_prefix (· ≠ (0 : UInt8)) (l := data)).length_le
    unfold findString at find
    dsimp only at find
    split at find
    · cases find
    · split at find
      · cases find
        omega
      · split at find
        · cases find
          omega
        · have := ih find
          rw [List.length_drop] at this
          omega

/-- `add_string` touches the strings section only. -/
theorem addString_spec {off : Nat} (good : lsp.Good) (short : name.length < 65536)
    (add : addString lsp name = .ok (lsp', off)) :
    lsp'.Good ∧ ∀ s, s ≠ .strings → lsp'.win s = lsp.win s ∧ lsp'.size s = lsp.size s := by
  unfold addString at add
  split at add
  · cases add
  · cases add
    exact ⟨good, fun s _ => ⟨rfl, rfl⟩⟩
  · rename_i i find
    have inside := findString_lt find
    rw [Nat.zero_add, Syspage.bytes_length] at inside
    obtain ⟨⟨grown, p⟩, grow, ⟨⟩⟩ := Except.bind_eq_ok.mp add
    have spec : grown.Good ∧ grown.win = lsp.win ∧ (∀ s, s ≠ .strings → grown.size s = lsp.size s) ∧
        p = grown.p .strings ∧ off + name.length + 2 ≤ grown.size .strings := by
      split at grow
      · have small : name.length + 2 - (lsp.size .strings - off) < 2 ^ 31 := by omega
        obtain ⟨good', win, size, others, here⟩ := Syspage.grow_win good small grow
        have := le_ROUND (x := name.length + 2 - (lsp.size .strings - off)) (a := 8) (by
          rw [show paddrSub 8 1 = 7 by decide]
          unfold PADDR_SPACE
          omega)
        exact ⟨good', win, others, here, by omega⟩
      · cases grow
        exact ⟨good, rfl, fun _ _ => rfl, rfl, by omega⟩
    obtain ⟨good', win, others, rfl, room⟩ := spec
    refine ⟨good'.setMem, fun s other => ⟨?_, others s other⟩⟩
    rw [← win]
    exact Syspage.write_win good' other (by simp; omega)

/-! ## Placing and growing tags -/

namespace HwInfo

/-- The window of the hwinfo section. -/
def win (hw : HwInfo) : Bytes := hw.lsp.win .hwinfo

def len (hw : HwInfo) : Nat := hw.lsp.size .hwinfo

end HwInfo

variable {H : HwHeader} {hw hw' : HwInfo} {tag size : Nat}

theorem HwInfo.len_lt (good : hw.lsp.Good) : hw.len < 65536 := by
  have := good.inside .hwinfo
  have := good.header_le .hwinfo
  have := good.totalSize_lt
  unfold Syspage.stop at *
  unfold HwInfo.len
  omega

/-- What the part of `hwi_alloc_tag` after the alignment does to the window. -/
theorem placeTag_spec (standard : H.Standard) (good : hw.lsp.Good) (short : name.length < 65536)
    (small : size < 2 ^ 31) (itemsizeIn : hw.lastItem + H.itemItemsize + 2 ≤ hw.len + size)
    (prefixIn : hw.offset + 4 ≤ hw.len)
    (place : placeTag H hw name size = .ok (hw', tag)) :
    ∃ nameOff, hw'.lsp.Good ∧ hw'.len = hw.len + ROUND size 8 ∧
      hw'.win = put16 (put16 (put16 hw.win (hw.lastItem + H.itemItemsize)
        (word16 hw.win (hw.lastItem + H.itemItemsize) + size / 4))
        (hw.offset + H.prefixSize) (size / 4)) (hw.offset + H.prefixName) nameOff ∧
      hw'.offset = paddr (hw.offset + size) ∧ hw'.lastItem = hw.lastItem ∧
      tag = hw'.lsp.p .hwinfo + hw.offset := by
  have hsize := standard.prefixSize
  have hname := standard.prefixName
  obtain ⟨⟨strings, nameOff⟩, add, rest⟩ := Except.bind_eq_ok.mp place
  obtain ⟨⟨grown, p⟩, grow, ⟨⟩⟩ := Except.bind_eq_ok.mp rest
  obtain ⟨goodS, sameS⟩ := addString_spec good short add
  obtain ⟨winS, lenS⟩ := sameS .hwinfo (by decide)
  obtain ⟨goodG, winG, lenG, _, rfl⟩ := Syspage.grow_win goodS small grow
  have rounded := le_ROUND (x := size) (a := 8) (by
    rw [show paddrSub 8 1 = 7 by decide]
    unfold PADDR_SPACE
    omega)
  have len : grown.size .hwinfo = hw.len + ROUND size 8 := by
    rw [lenG, lenS]
    rfl
  have win : grown.win .hwinfo = hw.win := by
    rw [winG, winS]
    rfl
  have counted : word16 grown.mem (grown.p .hwinfo + (hw.lastItem + H.itemItemsize)) =
      word16 hw.win (hw.lastItem + H.itemItemsize) := by
    rw [Syspage.word16_win (by omega), win]
  refine ⟨nameOff, goodG.setMem.setMem.setMem, len, ?_, rfl, rfl, rfl⟩
  rw [← counted, ← win, ← Syspage.put16_win (by omega)]
  simp only [← Nat.add_assoc]
  let first := grown.put16 (grown.p .hwinfo + hw.lastItem + H.itemItemsize)
    (word16 grown.mem (grown.p .hwinfo + hw.lastItem + H.itemItemsize) + size / 4)
  let second := first.put16 (grown.p .hwinfo + hw.offset + H.prefixSize) (size / 4)
  have atSize : second.win .hwinfo =
      put16 (first.win .hwinfo) (hw.offset + H.prefixSize) (size / 4) := by
    simp only [second, Nat.add_assoc]
    exact Syspage.put16_win (by change _ ≤ grown.size .hwinfo; omega)
  refine Eq.trans ?_ (congrArg (put16 · (hw.offset + H.prefixName) nameOff) atSize)
  change (second.put16 (grown.p .hwinfo + hw.offset + H.prefixName) nameOff).win .hwinfo = _
  rw [Nat.add_assoc]
  exact Syspage.put16_win (by change _ ≤ grown.size .hwinfo; omega)

/-- What `hwi_grow_tag` does to the window. -/
theorem hwiGrowTag_spec {off : Nat} (standard : H.Standard) (good : hw.lsp.Good)
    (small : size < 2 ^ 31) (itemsizeIn : hw.lastItem + H.itemItemsize + 2 ≤ hw.len)
    (prefixIn : off + 4 ≤ hw.len)
    (apart : hw.lastItem + H.itemItemsize + 2 ≤ off + H.prefixSize ∨
      off + H.prefixSize + 2 ≤ hw.lastItem + H.itemItemsize)
    (call : hwiGrowTag H hw off size = .ok (hw', tag)) :
    hw'.lsp.Good ∧ hw'.len = hw.len + ROUND size 8 ∧
      hw'.win = put16 (put16 hw.win (hw.lastItem + H.itemItemsize)
        (word16 hw.win (hw.lastItem + H.itemItemsize) + size / 4))
        (off + H.prefixSize) (word16 hw.win (off + H.prefixSize) + size / 4) ∧
      hw'.offset = hw.offset ∧ hw'.lastItem = hw.lastItem := by
  have hsize := standard.prefixSize
  obtain ⟨⟨grown, p⟩, grow, ⟨⟩⟩ := Except.bind_eq_ok.mp call
  obtain ⟨goodG, winG, lenG, _, rfl⟩ := Syspage.grow_win good small grow
  have len : grown.size .hwinfo = hw.len + ROUND size 8 := lenG
  have win : grown.win .hwinfo = hw.win := by
    rw [winG]
    rfl
  have counted : word16 grown.mem (grown.p .hwinfo + (hw.lastItem + H.itemItemsize)) =
      word16 hw.win (hw.lastItem + H.itemItemsize) := by
    rw [Syspage.word16_win (by omega), win]
  let first := grown.put16 (grown.p .hwinfo + hw.lastItem + H.itemItemsize)
    (word16 grown.mem (grown.p .hwinfo + hw.lastItem + H.itemItemsize) + size / 4)
  have atItem : first.win .hwinfo = put16 hw.win (hw.lastItem + H.itemItemsize)
      (word16 hw.win (hw.lastItem + H.itemItemsize) + size / 4) := by
    simp only [first, Nat.add_assoc (grown.p .hwinfo), counted, ← win]
    exact Syspage.put16_win (by omega)
  have sized : word16 first.mem (grown.p .hwinfo + (off + H.prefixSize)) =
      word16 hw.win (off + H.prefixSize) := by
    rw [show grown.p .hwinfo = first.p .hwinfo from rfl,
      Syspage.word16_win (by change _ ≤ grown.size .hwinfo; omega), atItem,
      word16_put16_apart apart]
  refine ⟨goodG.setMem.setMem, len, ?_, rfl, rfl⟩
  rw [← atItem, ← sized]
  change (first.put16 (grown.p .hwinfo + off + H.prefixSize) _).win .hwinfo = _
  rw [Nat.add_assoc]
  exact Syspage.put16_win (by change _ ≤ grown.size .hwinfo; omega)

/-! ## The invariant -/

/-- The section records `tags`; the static `offset` is at their end, until a tag has grown and
left it inside the most recent tag. -/
structure HwInv (H : HwHeader) (hw : HwInfo) (tags : List HwTag) (grown : Bool) : Prop where
  good : hw.lsp.Good
  recorded : Recorded H hw.win hw.len tags
  newest : tags ≠ [] → newestItem tags = some hw.lastItem
  offset : grown = false → hw.offset = spanEnd tags
  inside : grown = true → ∃ t ts, tags = t :: ts ∧ t.off < hw.offset ∧ hw.offset < t.off + t.size

variable {tags : List HwTag} {grown : Bool} {align : Nat}

theorem HwInv.item_mem (inv : HwInv H hw tags grown) (some : tags ≠ []) :
    ∃ t ∈ tags, t.item ∧ t.off = hw.lastItem := newestItem_mem (inv.newest some)

/-- Placing a tag, or an item header that `last_item` has been set to. -/
theorem HwInv.place {item : Bool} {last : Nat} (inv : HwInv H hw tags false)
    (standard : H.Standard) (short : name.length < 65536) (pos : 0 < size) (mod : size % 4 = 0)
    (small : size < 2 ^ 31)
    (header : (item = true ∧ last = hw.offset ∧ H.sizeofItem ≤ size) ∨
      (item = false ∧ last = hw.lastItem ∧ tags ≠ []))
    (place : placeTag H { hw with lastItem := last } name size = .ok (hw', tag)) :
    HwInv H hw' (⟨hw.offset, size, item⟩ :: tags) false ∧ hw'.offset = hw.offset + size ∧
      tag = hw'.lsp.p .hwinfo + hw.offset := by
  have atEnd := inv.offset rfl
  have room := inv.recorded.room
  have hitemsize := standard.itemsize
  have lenLt := HwInfo.len_lt inv.good
  have itemsizeIn : last + H.itemItemsize + 2 ≤ hw.len + size := by
    rcases header with ⟨_, rfl, big⟩ | ⟨_, rfl, nonempty⟩
    · omega
    · obtain ⟨t, ht, item, off⟩ := inv.item_mem nonempty
      have := inv.recorded.itemsize_in standard ht item
      have := inv.recorded.chained.mem ht
      omega
  obtain ⟨nameOff, good, len, win, offset, lastItem, at'⟩ := @placeTag_spec _ _
      { hw with lastItem := last } _ _ _ standard inv.good short small itemsizeIn
      (by change hw.offset + 4 ≤ hw.len; omega) place
  have rounded := le_ROUND (x := size) (a := 8) (by
    rw [show paddrSub 8 1 = 7 by decide]
    unfold PADDR_SPACE
    omega)
  have newLt := HwInfo.len_lt good
  have len : hw'.len = hw.len + ROUND size 8 := len
  have offset : hw'.offset = hw.offset + size :=
    offset.trans (paddr_of_lt (by
      change hw.offset + size < _
      unfold PADDR_SPACE
      omega))
  have recorded := @Recorded.place _ _ _ _ _ nameOff last _ _ inv.recorded standard pos mod
      (by omega) newLt (by
      rcases header with ⟨isItem, rfl, big⟩ | ⟨notItem, rfl, nonempty⟩
      · exact Or.inl ⟨isItem, atEnd, big⟩
      · exact Or.inr ⟨notItem, inv.newest nonempty⟩)
  rw [← atEnd] at recorded
  refine ⟨⟨good, ?_, fun _ => ?_, fun _ => ?_, fun h => by cases h⟩, offset, at'⟩
  · rw [win]
    exact recorded
  · rw [lastItem]
    rcases header with ⟨rfl, rfl, _⟩ | ⟨rfl, rfl, nonempty⟩
    · rfl
    · exact inv.newest nonempty
  · rw [offset]
    rfl

theorem HwInv.body {lsp : Syspage} (inv : HwInv H hw tags grown) (standard : H.Standard)
    (good : lsp.Good) (len : lsp.size .hwinfo = hw.len)
    (same : ∀ i, ¬BodyByte H tags i → lsp.win .hwinfo i = hw.win i) :
    HwInv H { hw with lsp := lsp } tags grown := by
  refine ⟨good, ?_, inv.newest, inv.offset, inv.inside⟩
  have recorded := inv.recorded.body standard same
  rw [← len] at recorded
  exact recorded

/-! ## Allocating -/

/-- Whether `align_tag` finds the static `offset` aligned. -/
theorem ROUND_eq_self_iff {x : Nat} (aligned : align = 4 ∨ align = 8) (mod : x % 4 = 0)
    (small : x < 2 ^ 31) : ROUND x align = x ↔ x % align = 0 := by
  rcases aligned with rfl | rfl
  · have := ROUND_two_pow (x := x) (k := 2) (by decide) (by unfold PADDR_SPACE; omega)
    rw [show 4 = 2 ^ 2 by rfl, this]
    omega
  · rw [ROUND_eight (by unfold PADDR_SPACE; omega)]
    omega

theorem alignTag_eq {allocPad : HwInfo → Except Crash (HwInfo × Nat)} (small : hw.offset < 2 ^ 31) :
    alignTag hw align allocPad =
      if ROUND hw.offset align = hw.offset then .ok hw else (allocPad hw).map Prod.fst := by
  have lt : ROUND hw.offset align < PADDR_SPACE := by
    have := TRUNC_le (paddr hw.offset + paddrSub align 1) align
    have := paddr_lt (paddr hw.offset + paddrSub align 1)
    unfold ROUND
    omega
  have iff :
      paddrSub (ROUND hw.offset align) hw.offset ≠ 0 ↔ ¬ROUND hw.offset align = hw.offset := by
    unfold paddrSub paddr PADDR_SPACE at *
    omega
  unfold alignTag
  by_cases aligned : ROUND hw.offset align = hw.offset
  · rw [if_neg (fun h => iff.mp h aligned), if_pos aligned]
  · rw [if_pos (iff.mpr aligned), if_neg aligned]
    cases allocPad hw <;> rfl

/-- The tags an allocation adds: a pad where the alignment asks for one, then the tag. -/
def newTags (H : HwHeader) (offset size align : Nat) (item : Bool) : List HwTag :=
  if ROUND offset align = offset then [⟨offset, size, item⟩]
  else [⟨offset + H.sizeofPad, size, item⟩, ⟨offset, H.sizeofPad, false⟩]

theorem HwInv.offset_small (inv : HwInv H hw tags false) :
    hw.offset < 2 ^ 31 ∧ hw.offset % 4 = 0 := by
  have := inv.offset rfl
  have := inv.recorded.room
  have := HwInfo.len_lt inv.good
  have := inv.recorded.chained.spanEnd_mod
  omega

theorem hwiAllocTag_aligned {fuel : Nat} (small : hw.offset < 2 ^ 31)
    (aligned : ROUND hw.offset align = hw.offset) :
    hwiAllocTag H (fuel + 1) hw name size align = placeTag H hw name size := by
  rw [hwiAllocTag, alignTag_eq small, if_pos aligned]
  rfl

/-- `align_tag` places the pad the alignment asks for, and one is enough. -/
theorem HwInv.alignTag {fuel : Nat} (inv : HwInv H hw tags false) (standard : H.Standard)
    (aligns : align = 4 ∨ align = 8)
    (call : alignTag hw align (fun hw => hwiAllocTag H (fuel + 1) hw H.padName H.sizeofPad
      H.padAlign) = .ok hw') :
    ∃ pads, HwInv H hw' (pads ++ tags) false ∧ ROUND hw'.offset align = hw'.offset ∧
      (∀ size item, ⟨hw'.offset, size, item⟩ :: pads = newTags H hw.offset size align item) ∧
      (tags ≠ [] → pads ++ tags ≠ []) := by
  obtain ⟨small, mod⟩ := inv.offset_small
  rw [alignTag_eq small] at call
  by_cases aligned : ROUND hw.offset align = hw.offset
  · rw [if_pos aligned] at call
    cases call
    exact ⟨[], inv, aligned, fun size item => by rw [newTags, if_pos aligned], id⟩
  · have nonempty : tags ≠ [] := by
      rintro rfl
      apply aligned
      rw [ROUND_eq_self_iff aligns mod small, inv.offset rfl]
      exact Nat.zero_mod _
    have padAligned : ROUND hw.offset H.padAlign = hw.offset := by
      rw [standard.padAlign, ROUND_eq_self_iff (Or.inl rfl) mod small]
      exact mod
    rw [if_neg aligned, hwiAllocTag_aligned small padAligned] at call
    cases pad : placeTag H hw H.padName H.sizeofPad with
    | error e =>
      rw [pad] at call
      cases call
    | ok placed =>
      obtain ⟨padded, p⟩ := placed
      rw [pad] at call
      cases call
      have size := standard.sizeofPad
      obtain ⟨inv', offset, _⟩ := inv.place standard standard.padName (by omega) (by omega)
        (by omega) (Or.inr ⟨rfl, rfl, nonempty⟩) pad
      refine ⟨[⟨hw.offset, H.sizeofPad, false⟩], inv', ?_, fun size item => ?_, fun _ => by simp⟩
      · obtain ⟨small', mod'⟩ := inv'.offset_small
        rw [ROUND_eq_self_iff aligns mod' small', offset, size]
        rw [ROUND_eq_self_iff aligns mod small] at aligned
        rcases aligns with rfl | rfl <;> omega
      · rw [newTags, if_neg aligned, offset]

theorem HwInv.allocTag (inv : HwInv H hw tags false) (standard : H.Standard)
    (short : name.length < 65536) (pos : 0 < size) (mod : size % 4 = 0) (small : size < 2 ^ 31)
    (aligns : align = 4 ∨ align = 8) (nonempty : tags ≠ [])
    (call : hwiAllocTag H nesting hw name size align = .ok (hw', tag)) :
    HwInv H hw' (newTags H hw.offset size align false ++ tags) false := by
  obtain ⟨padded, pad, place⟩ := Except.bind_eq_ok.mp call
  obtain ⟨pads, inv', _, new, keeps⟩ := inv.alignTag standard aligns pad
  obtain ⟨inv'', _, _⟩ := inv'.place standard short pos mod small
    (Or.inr ⟨rfl, rfl, keeps nonempty⟩) place
  rw [← new size false]
  exact inv''

theorem HwInv.put16 {off field val : Nat} (inv : HwInv H hw tags grown) (standard : H.Standard)
    (body : BodyByte H tags (off + field) ∧ BodyByte H tags (off + field + 1)) :
    HwInv H { hw with lsp := hw.lsp.put16 (hw.lsp.p .hwinfo + off + field) val } tags grown := by
  obtain ⟨low, high⟩ := body
  have inside : off + field + 2 ≤ hw.lsp.size .hwinfo := by
    obtain ⟨t, ht, _, below, _⟩ := high
    have := inv.recorded.chained.mem ht
    have := inv.recorded.room
    change off + field + 2 ≤ hw.len
    omega
  refine inv.body standard inv.good.setMem rfl fun i outside => ?_
  rw [Nat.add_assoc, Syspage.put16_win inside]
  refine put16_of_ne ?_ ?_
  · rintro rfl
    exact outside low
  · rintro rfl
    exact outside high

/-- A 16-bit field of an item header behind its `itemsize` or before it is in the body. -/
theorem Recorded.field_body {win : Bytes} {len field : Nat} {t : HwTag}
    (rec : Recorded H win len tags) (mem : t ∈ tags) (item : t.item)
    (inHeader : 4 ≤ field ∧ field + 2 ≤ H.sizeofItem)
    (apart : field + 2 ≤ H.itemItemsize ∨ H.itemItemsize + 2 ≤ field) :
    BodyByte H tags (t.off + field) ∧ BodyByte H tags (t.off + field + 1) := by
  have := rec.itemFits t mem item
  exact ⟨⟨t, mem, by omega, by omega, fun _ => by omega⟩,
    ⟨t, mem, by omega, by omega, fun _ => by omega⟩⟩

theorem HwInv.allocItem {itemname : List UInt8} {owner : Nat} (inv : HwInv H hw tags false)
    (standard : H.Standard) (short : name.length < 65536) (shortItem : itemname.length < 65536)
    (big : H.sizeofItem ≤ size) (mod : size % 4 = 0) (small : size < 2 ^ 31)
    (aligns : align = 4 ∨ align = 8)
    (owned : owner = H.nullOff ∨ ∃ t ∈ tags, t.item ∧ t.off = owner)
    (call : hwiAllocItem H hw name size align itemname owner = .ok (hw', tag)) :
    HwInv H hw' (newTags H hw.offset size align true ++ tags) false := by
  obtain ⟨⟨strings, savedIn⟩, add, rest⟩ := Except.bind_eq_ok.mp call
  obtain ⟨padded, pad, rest⟩ := Except.bind_eq_ok.mp rest
  obtain ⟨⟨placed, at'⟩, alloc, rest⟩ := Except.bind_eq_ok.mp rest
  obtain ⟨goodS, sameS⟩ := addString_spec inv.good shortItem add
  obtain ⟨winS, lenS⟩ := sameS .hwinfo (by decide)
  have invS : HwInv H { hw with lsp := strings } tags false :=
    inv.body standard goodS lenS fun i _ => congrFun winS i
  obtain ⟨pads, invP, aligned, new, _⟩ := invS.alignTag standard aligns pad
  have header := standard.itemsize
  rw [nesting, @hwiAllocTag_aligned _ _ { padded with lastItem := padded.offset } _ _ _
      invP.offset_small.1 aligned] at alloc
  obtain ⟨inv', _, here⟩ := invP.place standard short (by omega) mod small
    (Or.inl ⟨rfl, rfl, big⟩) alloc
  rw [← List.cons_append, new size true] at inv'
  have isNew : (⟨padded.offset, size, true⟩ : HwTag) ∈
      newTags H hw.offset size align true ++ tags := by
    have : (⟨padded.offset, size, true⟩ : HwTag) ∈ newTags H hw.offset size align true := by
      rw [← show _ = newTags H hw.offset size align true from new size true]
      exact List.mem_cons_self ..
    exact List.mem_append_left _ this
  subst here
  have named := @HwInv.put16 _ _ _ _ _ _ savedIn inv' standard
      (inv'.recorded.field_body isNew rfl standard.itemname standard.itemnameApart)
  have ownerSet := @HwInv.put16 _ _ _ _ _ _ owner named standard
      (inv'.recorded.field_body isNew rfl standard.owner standard.ownerApart)
  dsimp only at rest
  split at rest
  · rename_i hasOwner
    cases rest
    obtain ⟨t, ht, item, rfl⟩ := owned.resolve_left hasOwner
    have isOld := List.mem_append_right (newTags H hw.offset size align true) ht
    rw [standard.off2tag]
    exact ownerSet.put16 standard
      (inv'.recorded.field_body isOld item standard.kids standard.kidsApart)
  · cases rest
    exact ownerSet

/-! ## Growing -/

theorem HwInv.growTag {t : HwTag} {ts : List HwTag} (inv : HwInv H hw (t :: ts) grown)
    (standard : H.Standard) (small : size < 2 ^ 31)
    (call : hwiGrowTag H hw t.off size = .ok (hw', tag)) :
    HwInv H hw' ({ t with size := t.size + 4 * (size / 4) } :: ts)
      (grown || decide (4 ≤ size)) := by
  have newest := inv.newest (List.cons_ne_nil _ _)
  have here : t ∈ t :: ts := List.mem_cons_self ..
  have atT := inv.recorded.chained.mem here
  have room : t.off + t.size + 4 ≤ hw.len := inv.recorded.room
  have top : spanEnd (t :: ts) = t.off + t.size := rfl
  obtain ⟨u, hu, item, atItem⟩ := inv.item_mem (List.cons_ne_nil _ _)
  have inItem := inv.recorded.itemsize_in standard hu item
  have atU := inv.recorded.chained.mem hu
  have apart := inv.recorded.itemsize_apart standard hu item here
  obtain ⟨good, len, win, offset, lastItem⟩ := hwiGrowTag_spec standard inv.good small (by omega)
    (by omega) (by omega) call
  have rounded := le_ROUND (x := size) (a := 8) (by
    rw [show paddrSub 8 1 = 7 by decide]
    unfold PADDR_SPACE
    omega)
  have recorded := @Recorded.grow _ _ _ _ _ size _ _ inv.recorded standard newest (by omega)
      (HwInfo.len_lt good)
  rw [← win] at recorded
  refine ⟨good, recorded, fun _ => ?_, fun unchanged => ?_, fun changed => ?_⟩
  · rw [lastItem, ← newest]
    rfl
  · obtain ⟨ungrown, less⟩ := Bool.or_eq_false_iff.mp unchanged
    have less := of_decide_eq_false less
    have atEnd := inv.offset ungrown
    rw [offset, atEnd]
    change t.off + t.size = t.off + (t.size + 4 * (size / 4))
    omega
  · refine ⟨_, _, rfl, ?_⟩
    rw [offset]
    dsimp only
    cases grown with
    | true =>
      obtain ⟨_, _, same, low, high⟩ := inv.inside rfl
      cases same
      omega
    | false =>
      have atEnd := inv.offset rfl
      have more := of_decide_eq_true changed
      omega

/-! ## Runs -/

/-- The three functions, and a store of the caller into a tag it has allocated. -/
inductive HwCall
  | allocTag (name : List UInt8) (size align : Nat)
  | allocItem (name : List UInt8) (size align : Nat) (itemname : List UInt8) (owner : Nat)
  | growTag (offset size : Nat)
  | store (offset : Nat) (val : UInt8)

/-- The section and the tags allocated in it, the most recent one first. -/
structure HwState where
  hw : HwInfo
  tags : List HwTag

namespace HwCall

def exec (H : HwHeader) (hw : HwInfo) : HwCall → Except Crash HwInfo
  | .allocTag name size align => return (← hwiAllocTag H nesting hw name size align).1
  | .allocItem name size align itemname owner =>
    return (← hwiAllocItem H hw name size align itemname owner).1
  | .growTag offset size => return (← hwiGrowTag H hw offset size).1
  | .store offset val => return { hw with lsp := { hw.lsp with
      mem := Function.update hw.lsp.mem (hw.lsp.p .hwinfo + offset) val } }

/-- The allocated tags after a call: an allocation stands where the static `offset` is. -/
def allocated (H : HwHeader) (s : HwState) : HwCall → List HwTag
  | .allocTag _ size align => newTags H s.hw.offset size align false ++ s.tags
  | .allocItem _ size align _ _ => newTags H s.hw.offset size align true ++ s.tags
  | .growTag _ size =>
    match s.tags with
    | [] => []
    | t :: ts => { t with size := t.size + 4 * (size / 4) } :: ts
  | .store .. => s.tags

/-- What the callers promise: sizes and alignments are those of `HWI_TAG_INFO`, a tag belongs to
an item, an owner is an item, only the most recent tag grows, and stores stay in the bodies of
tags. -/
def Proper (H : HwHeader) (s : HwState) : HwCall → Prop
  | .allocTag name size align => name.length < 65536 ∧ 0 < size ∧ size % 4 = 0 ∧ size < 2 ^ 31 ∧
      (align = 4 ∨ align = 8) ∧ s.tags ≠ []
  | .allocItem name size align itemname owner => name.length < 65536 ∧ itemname.length < 65536 ∧
      H.sizeofItem ≤ size ∧ size % 4 = 0 ∧ size < 2 ^ 31 ∧ (align = 4 ∨ align = 8) ∧
      (owner = H.nullOff ∨ ∃ t ∈ s.tags, t.item ∧ t.off = owner)
  | .growTag offset size => size < 2 ^ 31 ∧ ∃ t ts, s.tags = t :: ts ∧ t.off = offset
  | .store offset _ => BodyByte H s.tags offset

def Allocates : HwCall → Prop
  | .allocTag .. | .allocItem .. => True
  | .growTag .. | .store .. => False

/-- A `hwi_grow_tag` of at least one 4-byte unit. -/
def Grows : HwCall → Prop
  | .growTag _ size => 4 ≤ size
  | _ => False

end HwCall

def HwStep (H : HwHeader) (s : HwState) (call : HwCall) (s' : HwState) : Prop :=
  call.Proper H s ∧ call.exec H s.hw = .ok s'.hw ∧ s'.tags = call.allocated H s

/-- The section is well formed: a walk visits exactly the allocated tags, in the order of their
allocation, and ends on a zero-size prefix inside the section; no byte belongs to two tags, a
prefix holds its tag's size, and `itemsize` the size of an item with its tags. -/
structure WellFormed (H : HwHeader) (s : HwState) : Prop where
  walk : ∃ stop, hwiWalk H s.hw.win s.hw.len s.hw.len 0 = some (s.tags.reverse.map off, stop)
  apart : s.tags.Pairwise Apart
  sizes : ∀ t ∈ s.tags, word16 s.hw.win (t.off + H.prefixSize) = t.size / 4
  sums : ∀ p ∈ itemSums 0 s.tags, word16 s.hw.win (p.1 + H.itemItemsize) = p.2 / 4

variable {s s' : HwState} {call : HwCall} {calls : List HwCall}

theorem HwInv.wellFormed (inv : HwInv H s.hw s.tags grown) (standard : H.Standard) :
    WellFormed H s :=
  ⟨⟨_, inv.recorded.walk standard⟩, inv.recorded.chained.pairwise, inv.recorded.sizes,
    inv.recorded.sums⟩

theorem HwInv.step (inv : HwInv H s.hw s.tags grown) (standard : H.Standard)
    (step : HwStep H s call s')
    (careful : call.Allocates → grown = false) :
    ∃ grown', HwInv H s'.hw s'.tags grown' ∧ (grown' = true ↔ grown = true ∨ call.Grows) := by
  obtain ⟨hw', tags'⟩ := s'
  obtain ⟨proper, exec, rfl⟩ := step
  cases call with
  | allocTag name size align =>
    obtain ⟨short, pos, mod, small, aligns, nonempty⟩ := proper
    obtain ⟨⟨_, at'⟩, alloc, ⟨⟩⟩ := Except.bind_eq_ok.mp exec
    obtain rfl := careful trivial
    exact ⟨false, inv.allocTag standard short pos mod small aligns nonempty alloc,
      by simp [HwCall.Grows]⟩
  | allocItem name size align itemname owner =>
    obtain ⟨short, shortItem, big, mod, small, aligns, owned⟩ := proper
    obtain ⟨⟨_, at'⟩, alloc, ⟨⟩⟩ := Except.bind_eq_ok.mp exec
    obtain rfl := careful trivial
    exact ⟨false, inv.allocItem standard short shortItem big mod small aligns owned alloc,
      by simp [HwCall.Grows]⟩
  | growTag offset size =>
    obtain ⟨small, t, ts, top, rfl⟩ := proper
    obtain ⟨⟨_, at'⟩, grow, ⟨⟩⟩ := Except.bind_eq_ok.mp exec
    rw [top] at inv
    refine ⟨grown || decide (4 ≤ size), ?_, by simp [HwCall.Grows]⟩
    dsimp only [HwCall.allocated]
    rw [top]
    exact inv.growTag standard small grow
  | store offset val =>
    cases exec
    refine ⟨grown, inv.body standard inv.good.setMem rfl fun i outside => ?_,
      by simp [HwCall.Grows]⟩
    exact Syspage.store_win fun same => outside (same ▸ proper)

theorem overlap_step (step : HwStep H s call s') (overlap : ¬s.tags.Pairwise Apart) :
    ¬s'.tags.Pairwise Apart := by
  obtain ⟨_, _, tags⟩ := step
  rw [tags]
  cases call with
  | allocTag name size align => exact fun apart => overlap (List.pairwise_append.mp apart).2.1
  | allocItem name size align itemname owner =>
    exact fun apart => overlap (List.pairwise_append.mp apart).2.1
  | growTag offset size =>
    intro apart
    dsimp only [HwCall.allocated] at apart
    cases top : s.tags with
    | nil => exact overlap (top ▸ .nil)
    | cons t ts =>
      rw [top] at apart overlap
      obtain ⟨head, rest⟩ := List.pairwise_cons.mp apart
      refine overlap (List.pairwise_cons.mpr ⟨fun u hu => ?_, rest⟩)
      have := head u hu
      unfold Apart at *
      dsimp only at this
      omega
  | store offset val => exact overlap

/-- An allocation places a tag or a pad at the static `offset`. -/
theorem newTags_offset {offset : Nat} {item : Bool} (standard : H.Standard) (pos : 0 < size) :
    ∃ u ∈ newTags H offset size align item, u.off = offset ∧ 0 < u.size := by
  unfold newTags
  split
  · exact ⟨_, List.mem_cons_self .., rfl, pos⟩
  · refine ⟨_, List.mem_cons_of_mem _ (List.mem_cons_self ..), rfl, ?_⟩
    dsimp only
    rw [standard.sizeofPad]
    decide

theorem HwInv.overlap (inv : HwInv H s.hw s.tags true) (standard : H.Standard)
    (allocates : call.Allocates) (step : HwStep H s call s') : ¬s'.tags.Pairwise Apart := by
  obtain ⟨proper, _, tags⟩ := step
  obtain ⟨t, ts, top, low, high⟩ := inv.inside rfl
  have newInside : ∀ new : List HwTag, (∃ u ∈ new, u.off = s.hw.offset ∧ 0 < u.size) →
      ¬(new ++ s.tags).Pairwise Apart := by
    rintro new ⟨u, hu, off, pos⟩ apart
    have between := (List.pairwise_append.mp apart).2.2 u hu t (top ▸ List.mem_cons_self ..)
    unfold Apart at between
    omega
  rw [tags]
  cases call with
  | allocTag name size align =>
    obtain ⟨_, pos, _⟩ := proper
    exact newInside _ (newTags_offset standard pos)
  | allocItem name size align itemname owner =>
    obtain ⟨_, _, big, _⟩ := proper
    have := standard.itemsize
    exact newInside _ (newTags_offset standard (by omega))
  | growTag offset size => exact allocates.elim
  | store offset val => exact allocates.elim

/-- After a run from a section that records its tags, the section is well formed exactly when
the run has not allocated after a tag has grown. -/
theorem HwInv.run (standard : H.Standard) (run : Run (HwStep H) s calls s')
    (inv : HwInv H s.hw s.tags grown) :
    WellFormed H s' ↔ (grown = true → ∀ call ∈ calls, ¬call.Allocates) ∧
      calls.Pairwise fun earlier later => earlier.Grows → ¬later.Allocates := by
  induction run generalizing grown with
  | nil =>
    exact ⟨fun _ => ⟨fun _ _ mem => (List.not_mem_nil mem).elim, .nil⟩,
      fun _ => inv.wellFormed standard⟩
  | cons step rest ih =>
    rename_i s s' s'' call calls
    rw [List.pairwise_cons]
    by_cases bad : call.Allocates ∧ grown = true
    · obtain ⟨allocates, rfl⟩ := bad
      have overlap : ¬s''.tags.Pairwise Apart :=
        rest.invariant (I := fun s => ¬s.tags.Pairwise Apart)
          (fun overlap step => overlap_step step overlap)
          (inv.overlap standard allocates step)
      exact ⟨fun wf => (overlap wf.apart).elim,
        fun careful => (careful.1 rfl call (List.mem_cons_self ..) allocates).elim⟩
    · have careful : call.Allocates → grown = false := fun allocates =>
        Bool.eq_false_iff.mpr fun isGrown => bad ⟨allocates, isGrown⟩
      obtain ⟨grown', inv', changes⟩ := inv.step standard step careful
      rw [ih inv', changes]
      constructor
      · rintro ⟨later, pairwise⟩
        refine ⟨fun isGrown c mem => ?_, fun c mem grows => later (Or.inr grows) c mem, pairwise⟩
        rcases List.mem_cons.mp mem with rfl | mem
        · intro allocates
          rw [careful allocates] at isGrown
          cases isGrown
        · exact later (Or.inl isGrown) c mem
      · rintro ⟨now, after, pairwise⟩
        refine ⟨fun grows c mem => ?_, pairwise⟩
        rcases grows with isGrown | grows
        · exact now isGrown c (List.mem_cons_of_mem _ mem)
        · exact after c mem grows

/-- The section as `init_syspage_memory` leaves it to `hwi_default`. -/
theorem init_inv {base maxSize hdrSize calloutEntry callinEntry armCpuEntry : Nat}
    {patchData : List CoInfo} {mem : Mem} (fits : Syspage.InitFits base maxSize hdrSize)
    (standard : H.Standard)
    (init : Run SyspageStep (initSections base maxSize hdrSize patchData mem)
      (initCalls calloutEntry callinEntry H.sizeofPrefix armCpuEntry) lsp) :
    HwInv H ⟨lsp, 0, 0⟩ [] false := by
  have good := @Syspage.initSections_good _ _ _ patchData mem fits
  have bytes : lsp.bytes .hwinfo = List.replicate 8 0 := by
    have empty : (initSections base maxSize hdrSize patchData mem).bytes .hwinfo = [] := rfl
    rw [Syspage.bytes_run init good, standard.sizeofPrefix]
    simp [initCalls, SyspageCall.next, empty, show ROUND 4 8 = 8 by decide]
  have len : lsp.size .hwinfo = 8 := by
    rw [← Syspage.bytes_length, bytes, List.length_replicate]
  have blank : ∀ i, lsp.win .hwinfo i = 0 := by
    intro i
    unfold Syspage.win
    rw [bytes, List.getD_eq_getElem?_getD, List.getElem?_getD_replicate_default_eq]
  refine ⟨Syspage.good_run init good, ⟨trivial, ?_, ?_, ?_, fun i _ => blank i, ?_⟩,
    fun h => (h rfl).elim, fun _ => rfl, fun h => by cases h⟩
  · exact fun t mem => (List.not_mem_nil mem).elim
  · exact fun t mem => (List.not_mem_nil mem).elim
  · exact fun p mem => (List.not_mem_nil mem).elim
  · change 0 + 4 ≤ lsp.size .hwinfo
    omega

/-- After any run of calls from `init_syspage_memory` on, the hwinfo section is well formed
exactly when no tag or item was allocated after a tag had grown. -/
theorem wellFormed_iff {base maxSize hdrSize calloutEntry callinEntry armCpuEntry : Nat}
    {patchData : List CoInfo} {mem : Mem} (fits : Syspage.InitFits base maxSize hdrSize)
    (standard : H.Standard)
    (init : Run SyspageStep (initSections base maxSize hdrSize patchData mem)
      (initCalls calloutEntry callinEntry H.sizeofPrefix armCpuEntry) lsp)
    (run : Run (HwStep H) ⟨⟨lsp, 0, 0⟩, []⟩ calls s) :
    WellFormed H s ↔ calls.Pairwise fun earlier later => earlier.Grows → ¬later.Allocates := by
  have iff := (init_inv fits standard init).run standard run
  rw [iff]
  exact ⟨fun h => h.2, fun h => ⟨fun h => (Bool.false_ne_true h).elim, h⟩⟩

/-- The layout of `sys/hwinfo.h`. -/
def hwinfoHeader : HwHeader where
  prefixSize := 0
  prefixName := 2
  itemItemsize := 4
  itemItemname := 6
  itemOwner := 8
  itemKids := 10
  sizeofPrefix := 4
  sizeofItem := 12
  padName := [112, 97, 100]
  sizeofPad := 4
  padAlign := 4
  nullOff := 0xffff
  off2tag base off := base + off

theorem hwinfoHeader_standard : hwinfoHeader.Standard := by
  constructor <;> first | decide | exact fun _ _ => rfl

/-- The state a call leads to, or the same state if it fails. -/
def HwState.next (H : HwHeader) (s : HwState) (call : HwCall) : HwState :=
  ⟨(call.exec H s.hw).toOption.getD s.hw, call.allocated H s⟩

theorem HwState.step_next (proper : call.Proper H s)
    (works : (call.exec H s.hw).toOption.isSome) : HwStep H s call (s.next H call) := by
  refine ⟨proper, ?_, rfl⟩
  unfold HwState.next
  cases exec : call.exec H s.hw with
  | error e => simp [exec, Except.toOption] at works
  | ok hw => rfl

/-- The small page at the end of `init_syspage_memory`, before `hwi_default`. -/
def smallHwinfo : HwState where
  hw := ⟨(initCalls 8 8 4 8).foldl (fun lsp call => (call.exec lsp).toOption.getD lsp)
    Syspage.smallPage, 0, 0⟩
  tags := []

theorem smallHwinfo_init :
    Run SyspageStep Syspage.smallPage (initCalls 8 8 4 8) smallHwinfo.hw.lsp := by
  have calls : Run OrderlyStep Syspage.smallPage (initCalls 8 8 4 8) smallHwinfo.hw.lsp :=
    .cons ⟨(⟨rfl, by decide⟩ : _ ∧ _), rfl⟩ <| .cons ⟨(⟨rfl, by decide⟩ : _ ∧ _), rfl⟩ <|
    .cons ⟨(⟨by decide, by decide⟩ : _ ∧ _), rfl⟩ <|
    .cons ⟨(⟨by decide, by decide⟩ : _ ∧ _), rfl⟩ <|
    .cons ⟨(⟨by decide, by decide⟩ : _ ∧ _), rfl⟩ <| .cons ⟨(⟨rfl, by decide⟩ : _ ∧ _), rfl⟩ .nil
  exact (Syspage.orderly_run calls (Syspage.initSections_good Syspage.smallPage_fits)
    (Syspage.initSections_fenced Syspage.smallPage_fits)).1

/-- An item, a padded tag and a `hwi_grow_tag` on the small page. -/
def smallGrown : HwState :=
  ((smallHwinfo.next hwinfoHeader (.allocItem [104, 119] 12 4 [104, 119] 0xffff)).next
    hwinfoHeader (.allocTag [105] 8 8)).next hwinfoHeader (.growTag 16 4)

theorem smallGrown_run : Run (HwStep hwinfoHeader) smallHwinfo
    [.allocItem [104, 119] 12 4 [104, 119] 0xffff, .allocTag [105] 8 8, .growTag 16 4]
    smallGrown := by
  refine .cons (HwState.step_next ?_ (by decide +kernel)) <|
    .cons (HwState.step_next ?_ (by decide +kernel)) <|
    .single (HwState.step_next ?_ (by decide +kernel))
  · exact ⟨by decide, by decide, by decide, by decide, by decide, Or.inl rfl, Or.inl rfl⟩
  · exact ⟨by decide, by decide, by decide, by decide, Or.inr rfl, by decide +kernel⟩
  · exact ⟨by decide, ⟨16, 8, false⟩, [⟨12, 4, false⟩, ⟨0, 12, true⟩], by decide +kernel, rfl⟩

theorem wellFormed_iff_small : WellFormed hwinfoHeader smallGrown :=
  (wellFormed_iff Syspage.smallPage_fits hwinfoHeader_standard smallHwinfo_init
    smallGrown_run).mpr (by simp [HwCall.Allocates, HwCall.Grows])

/-- A tag allocated after a tag has grown: it stands at 24, inside the tag from 16 to 28, and a
walk does not visit it. -/
theorem hwinfo_overlap : ∃ s, Run (HwStep hwinfoHeader) smallHwinfo
      [.allocItem [104, 119] 12 4 [104, 119] 0xffff, .allocTag [105] 8 8, .growTag 16 4,
        .allocTag [105] 4 4] s ∧
    s.tags = [⟨24, 4, false⟩, ⟨16, 12, false⟩, ⟨12, 4, false⟩, ⟨0, 12, true⟩] ∧
    hwiWalk hwinfoHeader s.hw.win s.hw.len s.hw.len 0 = some ([0, 12, 16], 28) ∧
    ¬WellFormed hwinfoHeader s := by
  have walk : hwiWalk hwinfoHeader
      (smallGrown.next hwinfoHeader (.allocTag [105] 4 4)).hw.win
      (smallGrown.next hwinfoHeader (.allocTag [105] 4 4)).hw.len
      (smallGrown.next hwinfoHeader (.allocTag [105] 4 4)).hw.len 0 = some ([0, 12, 16], 28) := by
    decide +kernel
  have tags : (smallGrown.next hwinfoHeader (.allocTag [105] 4 4)).tags =
      [⟨24, 4, false⟩, ⟨16, 12, false⟩, ⟨12, 4, false⟩, ⟨0, 12, true⟩] := by
    decide +kernel
  refine ⟨_, smallGrown_run.append (.single (HwState.step_next ?_ (by decide +kernel))), tags,
    walk, fun wf => ?_⟩
  · exact ⟨by decide, by decide, by decide, by decide, Or.inl rfl, by decide +kernel⟩
  · obtain ⟨stop, visits⟩ := wf.walk
    rw [walk, tags] at visits
    cases visits

end Mx6xBsp.Startup
