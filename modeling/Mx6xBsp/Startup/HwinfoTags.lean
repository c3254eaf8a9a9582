import Mathlib.Data.List.Pairwise
import Mx6xBsp.Startup.Hwinfo

/-!
# Tags recorded in the hwinfo section

The tags of the section as a list, the most recent one first, and what it means
that the bytes of the section record them: each tag begins where the one before
it ends, its prefix holds its size, each item's `itemsize` counts the tags of
the item, and everything behind the last tag is zero. A walk of such a section
visits exactly the recorded tags (`Recorded.walk`). The section is seen through
a window: its bytes by offset, zero beyond its length.
-/

namespace Mx6xBsp.Startup

open Words

/-- The facts of `sys/hwinfo.h` that the functions rely on. -/
structure HwHeader.Standard (H : HwHeader) : Prop where
  sizeofPrefix : H.sizeofPrefix = 4
  prefixSize : H.prefixSize + 2 ≤ 4
  prefixName : H.prefixName + 2 ≤ 4
  prefixApart : H.prefixSize + 2 ≤ H.prefixName ∨ H.prefixName + 2 ≤ H.prefixSize
  itemsize : 4 ≤ H.itemItemsize ∧ H.itemItemsize + 2 ≤ H.sizeofItem
  itemname : 4 ≤ H.itemItemname ∧ H.itemItemname + 2 ≤ H.sizeofItem
  owner : 4 ≤ H.itemOwner ∧ H.itemOwner + 2 ≤ H.sizeofItem
  kids : 4 ≤ H.itemKids ∧ H.itemKids + 2 ≤ H.sizeofItem
  itemnameApart : H.itemItemname + 2 ≤ H.itemItemsize ∨ H.itemItemsize + 2 ≤ H.itemItemname
  ownerApart : H.itemOwner + 2 ≤ H.itemItemsize ∨ H.itemItemsize + 2 ≤ H.itemOwner
  kidsApart : H.itemKids + 2 ≤ H.itemItemsize ∨ H.itemItemsize + 2 ≤ H.itemKids
  padName : H.padName.length < 65536
  sizeofPad : H.sizeofPad = 4
  padAlign : H.padAlign = 4
  off2tag : ∀ base off, H.off2tag base off = base + off

/-- A tag: where it stands, its size in bytes, and whether it is an item. -/
structure HwTag where
  off : Nat
  size : Nat
  item : Bool
deriving DecidableEq

namespace HwTag

/-- No byte belongs to both tags. -/
def Apart (t u : HwTag) : Prop := t.off + t.size ≤ u.off ∨ u.off + u.size ≤ t.off

/-- Where the most recent tag ends. -/
def spanEnd : List HwTag → Nat
  | [] => 0
  | t :: _ => t.off + t.size

/-- Each tag begins where the one before it ends. -/
def Chained : List HwTag → Prop
  | [] => True
  | t :: ts => t.off = spanEnd ts ∧ 0 < t.size ∧ t.size % 4 = 0 ∧ Chained ts

/-- The offset of the most recent item. -/
def newestItem : List HwTag → Option Nat
  | [] => none
  | t :: ts => if t.item then some t.off else newestItem ts

/-- Each item with the total size of its tags; `acc` is the size of the tags already passed
that belong to the next item met. -/
def itemSums : Nat → List HwTag → List (Nat × Nat)
  | _, [] => []
  | acc, t :: ts =>
    if t.item then (t.off, acc + t.size) :: itemSums 0 ts else itemSums (acc + t.size) ts

variable {t u : HwTag} {ts tags : List HwTag} {acc : Nat}

instance : Std.Symm Apart := ⟨fun _ _ => Or.symm⟩

theorem Chained.spanEnd_mod (chained : Chained tags) : spanEnd tags % 4 = 0 := by
  induction tags with
  | nil => rfl
  | cons t ts ih =>
    obtain ⟨start, _, mod, rest⟩ := chained
    have := ih rest
    simp only [spanEnd]
    omega

theorem Chained.length_le (chained : Chained tags) : 4 * tags.length ≤ spanEnd tags := by
  induction tags with
  | nil => exact Nat.zero_le _
  | cons t ts ih =>
    obtain ⟨start, pos, mod, rest⟩ := chained
    have := ih rest
    simp only [spanEnd, List.length_cons]
    omega

theorem Chained.mem (chained : Chained tags) (mem : t ∈ tags) :
    0 < t.size ∧ t.size % 4 = 0 ∧ t.off % 4 = 0 ∧ t.off + t.size ≤ spanEnd tags := by
  induction tags with
  | nil => cases mem
  | cons first ts ih =>
    obtain ⟨start, pos, mod, rest⟩ := chained
    have aligned := rest.spanEnd_mod
    rcases List.mem_cons.mp mem with rfl | old
    · exact ⟨pos, mod, by omega, le_rfl⟩
    · have := ih rest old
      simp only [spanEnd]
      omega

theorem Chained.pairwise (chained : Chained tags) : tags.Pairwise Apart := by
  induction tags with
  | nil => exact .nil
  | cons t ts ih =>
    obtain ⟨start, _, _, rest⟩ := chained
    refine List.pairwise_cons.mpr ⟨fun u mem => Or.inr ?_, ih rest⟩
    have := rest.mem mem
    omega

theorem Chained.apart (chained : Chained tags) (ht : t ∈ tags) (hu : u ∈ tags) :
    t = u ∨ t.Apart u := by
  by_cases same : t = u
  · exact Or.inl same
  · exact Or.inr (chained.pairwise.forall ht hu same)

theorem itemSums_mem {o s : Nat} (mem : (o, s) ∈ itemSums acc tags) :
    ∃ t ∈ tags, t.item ∧ t.off = o := by
  induction tags generalizing acc with
  | nil => cases mem
  | cons t ts ih =>
    unfold itemSums at mem
    split at mem
    · rename_i item
      rcases List.mem_cons.mp mem with same | old
      · cases same
        exact ⟨t, List.mem_cons_self .., item, rfl⟩
      · obtain ⟨u, hu, rest⟩ := ih old
        exact ⟨u, List.mem_cons_of_mem _ hu, rest⟩
    · obtain ⟨u, hu, rest⟩ := ih mem
      exact ⟨u, List.mem_cons_of_mem _ hu, rest⟩

theorem itemSums_newest {o : Nat} (chained : Chained tags) (newest : newestItem tags = some o) :
    ∃ s rest, s % 4 = 0 ∧ s ≤ spanEnd tags ∧ (∀ acc, itemSums acc tags = (o, acc + s) :: rest) ∧
      ∀ p ∈ rest, ∃ t ∈ tags, t.item ∧ t.off = p.1 ∧ t.off + t.size ≤ o := by
  induction tags with
  | nil => cases newest
  | cons t ts ih =>
    obtain ⟨start, _, mod, restChained⟩ := chained
    unfold newestItem at newest
    split at newest
    · rename_i item
      cases newest
      refine ⟨t.size, itemSums 0 ts, mod, Nat.le_add_left .., fun acc => by
        rw [itemSums, if_pos item], ?_⟩
      rintro ⟨o, s⟩ hp
      obtain ⟨u, hu, itemU, offU⟩ := itemSums_mem hp
      have := restChained.mem hu
      exact ⟨u, List.mem_cons_of_mem _ hu, itemU, offU, by omega⟩
    · rename_i other
      obtain ⟨s, rest, smod, bound, sums, before⟩ := ih restChained newest
      refine ⟨t.size + s, rest, by omega, ?_, fun acc => ?_, fun p hp => ?_⟩
      · simp only [spanEnd]
        omega
      · rw [itemSums, if_neg other, sums]
        simp only [Nat.add_assoc]
      · obtain ⟨u, hu, spec⟩ := before p hp
        exact ⟨u, List.mem_cons_of_mem _ hu, spec⟩

theorem newestItem_mem {o : Nat} (newest : newestItem tags = some o) :
    ∃ t ∈ tags, t.item ∧ t.off = o := by
  induction tags with
  | nil => cases newest
  | cons t ts ih =>
    unfold newestItem at newest
    split at newest
    · rename_i item
      cases newest
      exact ⟨t, List.mem_cons_self .., item, rfl⟩
    · obtain ⟨u, hu, spec⟩ := ih newest
      exact ⟨u, List.mem_cons_of_mem _ hu, spec⟩

end HwTag

open HwTag

variable {H : HwHeader} {win : Bytes} {len : Nat} {t : HwTag} {ts tags : List HwTag}

/-- The bytes of the section record the tags. -/
structure Recorded (H : HwHeader) (win : Bytes) (len : Nat) (tags : List HwTag) : Prop where
  chained : Chained tags
  itemFits : ∀ t ∈ tags, t.item → H.sizeofItem ≤ t.size
  sizes : ∀ t ∈ tags, word16 win (t.off + H.prefixSize) = t.size / 4
  sums : ∀ p ∈ itemSums 0 tags, word16 win (p.1 + H.itemItemsize) = p.2 / 4
  blank : ∀ i, spanEnd tags ≤ i → win i = 0
  room : spanEnd tags + 4 ≤ len

/-- Byte `i` belongs to a tag, but not to its prefix nor to the `itemsize` of an item. -/
def BodyByte (H : HwHeader) (tags : List HwTag) (i : Nat) : Prop :=
  ∃ t ∈ tags, t.off + 4 ≤ i ∧ i < t.off + t.size ∧
    (t.item → i < t.off + H.itemItemsize ∨ t.off + H.itemItemsize + 2 ≤ i)

theorem Recorded.body {win' : Bytes} (rec : Recorded H win len tags) (standard : H.Standard)
    (same : ∀ i, ¬BodyByte H tags i → win' i = win i) : Recorded H win' len tags := by
  have keep : ∀ a, ¬BodyByte H tags a → ¬BodyByte H tags (a + 1) →
      word16 win' a = word16 win a := fun a low high => word16_congr (same _ low) (same _ high)
  have inPrefix : ∀ t ∈ tags, ∀ i, t.off ≤ i → i < t.off + 4 → ¬BodyByte H tags i := by
    rintro t ht i low high ⟨u, hu, lowU, highU, _⟩
    have spec := rec.chained.mem ht
    rcases rec.chained.apart ht hu with rfl | apart
    · omega
    · unfold HwTag.Apart at apart
      omega
  have inItemsize : ∀ t ∈ tags, t.item → ∀ i, t.off + H.itemItemsize ≤ i →
      i < t.off + H.itemItemsize + 2 → ¬BodyByte H tags i := by
    rintro t ht item i low high ⟨u, hu, lowU, highU, notItemsize⟩
    have fits := rec.itemFits t ht item
    have := standard.itemsize
    rcases rec.chained.apart ht hu with rfl | apart
    · have := notItemsize item
      omega
    · unfold HwTag.Apart at apart
      omega
  refine ⟨rec.chained, rec.itemFits, fun t ht => ?_, ?_, fun i hi => ?_, rec.room⟩
  · have := standard.prefixSize
    rw [keep _ (inPrefix t ht _ (by omega) (by omega)) (inPrefix t ht _ (by omega) (by omega))]
    exact rec.sizes t ht
  · rintro ⟨o, s⟩ hp
    obtain ⟨t, ht, item, rfl⟩ := itemSums_mem hp
    rw [keep _ (inItemsize t ht item _ (by omega) (by omega))
      (inItemsize t ht item _ (by omega) (by omega))]
    exact rec.sums _ hp
  · rw [same i]
    · exact rec.blank i hi
    · rintro ⟨u, hu, _, high, _⟩
      have := rec.chained.mem hu
      omega

/-- Where an item's `itemsize` stands: inside the item, behind its prefix. -/
theorem Recorded.itemsize_in (rec : Recorded H win len tags) (standard : H.Standard)
    (mem : t ∈ tags) (item : t.item) :
    t.off + 4 ≤ t.off + H.itemItemsize ∧ t.off + H.itemItemsize + 2 ≤ t.off + t.size := by
  have := rec.itemFits t mem item
  have := standard.itemsize
  omega

/-- The `itemsize` of an item is apart from the size in the prefix of any tag. -/
theorem Recorded.itemsize_apart {u : HwTag} (rec : Recorded H win len tags)
    (standard : H.Standard) (ht : t ∈ tags) (item : t.item) (hu : u ∈ tags) :
    t.off + H.itemItemsize + 2 ≤ u.off + H.prefixSize ∨
      u.off + H.prefixSize + 2 ≤ t.off + H.itemItemsize := by
  have inside := rec.itemsize_in standard ht item
  have inPrefix := standard.prefixSize
  have atU := rec.chained.mem hu
  rcases rec.chained.apart ht hu with rfl | apart
  · omega
  · unfold HwTag.Apart at apart
    omega

/-- The section after `hwi_alloc_tag` has placed a tag, or the header of an item, of `size`
bytes. -/
theorem Recorded.place {size nameOff lastItem len' : Nat} {item : Bool}
    (rec : Recorded H win len tags) (standard : H.Standard) (pos : 0 < size)
    (mod : size % 4 = 0) (grown : len + size ≤ len') (fits : len' < 65536)
    (header : (item = true ∧ lastItem = spanEnd tags ∧ H.sizeofItem ≤ size) ∨
      (item = false ∧ newestItem tags = some lastItem)) :
    Recorded H
      (put16 (put16 (put16 win (lastItem + H.itemItemsize)
        (word16 win (lastItem + H.itemItemsize) + size / 4))
        (spanEnd tags + H.prefixSize) (size / 4)) (spanEnd tags + H.prefixName) nameOff)
      len' (⟨spanEnd tags, size, item⟩ :: tags) := by
  have room := rec.room
  have hsize := standard.prefixSize
  have hname := standard.prefixName
  have hapart := standard.prefixApart
  have hitemsize := standard.itemsize
  have within : ∀ t ∈ tags, t.item → t.off + H.itemItemsize + 2 ≤ spanEnd tags := by
    intro t ht itemT
    have := rec.chained.mem ht
    have := rec.itemsize_in standard ht itemT
    omega
  -- the `itemsize` that is written belongs to the new tag or to a recorded item
  have written : (item = true ∧ lastItem = spanEnd tags) ∨
      ∃ u ∈ tags, u.item ∧ u.off = lastItem := by
    rcases header with ⟨isItem, last, _⟩ | ⟨_, newest⟩
    · exact Or.inl ⟨isItem, last⟩
    · exact Or.inr (newestItem_mem newest)
  refine ⟨⟨rfl, pos, mod, rec.chained⟩, ?_, ?_, ?_, ?_, ?_⟩
  · intro t ht itemT
    rcases List.mem_cons.mp ht with rfl | old
    · rcases header with ⟨_, _, big⟩ | ⟨notItem, _⟩
      · exact big
      · rw [notItem] at itemT
        cases itemT
    · exact rec.itemFits t old itemT
  · intro t ht
    rcases List.mem_cons.mp ht with rfl | old
    · rw [word16_put16_apart (by dsimp only; omega), word16_put16]
      dsimp only
      omega
    · have atT := rec.chained.mem old
      have apart : lastItem + H.itemItemsize + 2 ≤ t.off + H.prefixSize ∨
          t.off + H.prefixSize + 2 ≤ lastItem + H.itemItemsize := by
        rcases written with ⟨_, rfl⟩ | ⟨u, hu, itemU, rfl⟩
        · omega
        · exact rec.itemsize_apart standard hu itemU old
      rw [word16_put16_apart (by omega), word16_put16_apart (by omega),
        word16_put16_apart apart]
      exact rec.sizes t old
  · rcases header with ⟨rfl, rfl, big⟩ | ⟨rfl, newest⟩
    · rintro p hp
      rw [itemSums, if_pos rfl] at hp
      rcases List.mem_cons.mp hp with rfl | old
      · have zero : word16 win (spanEnd tags + H.itemItemsize) = 0 := by
          unfold word16
          rw [rec.blank _ (by omega), rec.blank _ (by omega)]
          rfl
        dsimp only
        rw [word16_put16_apart (by omega), word16_put16_apart (by omega), word16_put16, zero]
        omega
      · obtain ⟨o, s⟩ := p
        obtain ⟨t, ht, itemT, rfl⟩ := itemSums_mem old
        have := within t ht itemT
        rw [word16_put16_apart (by dsimp only; omega), word16_put16_apart (by dsimp only; omega),
          word16_put16_apart (by dsimp only; omega)]
        exact rec.sums _ old
    · obtain ⟨s, rest, smod, bound, sums, before⟩ := itemSums_newest rec.chained newest
      obtain ⟨u, hu, itemU, offU⟩ := newestItem_mem newest
      have inU := within u hu itemU
      intro p hp
      rw [itemSums, if_neg Bool.false_ne_true, sums] at hp
      rcases List.mem_cons.mp hp with rfl | old
      · have was := rec.sums (lastItem, 0 + s) (by rw [sums]; exact List.mem_cons_self ..)
        dsimp only at was ⊢
        rw [word16_put16_apart (by omega), word16_put16_apart (by omega), word16_put16, was]
        omega
      · obtain ⟨t, ht, itemT, offT, beforeLast⟩ := before p old
        have inT := within t ht itemT
        have := rec.itemsize_in standard ht itemT
        rw [word16_put16_apart (by omega), word16_put16_apart (by omega),
          word16_put16_apart (by omega)]
        exact rec.sums p (by rw [sums]; exact List.mem_cons_of_mem _ old)
  · intro i hi
    change spanEnd tags + size ≤ i at hi
    have below : lastItem + H.itemItemsize + 2 ≤ spanEnd tags + size := by
      rcases header with ⟨_, rfl, big⟩ | ⟨_, newest⟩
      · omega
      · obtain ⟨u, hu, itemU, rfl⟩ := newestItem_mem newest
        have := within u hu itemU
        omega
    rw [put16_of_ne (by omega) (by omega), put16_of_ne (by omega) (by omega),
      put16_of_ne (by omega) (by omega)]
    exact rec.blank i (by omega)
  · change spanEnd tags + size + 4 ≤ len'
    omega

/-- The section after `hwi_grow_tag` has added `size` bytes to the most recent tag. -/
theorem Recorded.grow {size lastItem len' : Nat} (rec : Recorded H win len (t :: ts))
    (standard : H.Standard) (newest : newestItem (t :: ts) = some lastItem)
    (grown : len + size ≤ len') (fits : len' < 65536) :
    Recorded H
      (put16 (put16 win (lastItem + H.itemItemsize)
        (word16 win (lastItem + H.itemItemsize) + size / 4))
        (t.off + H.prefixSize) (word16 win (t.off + H.prefixSize) + size / 4))
      len' ({ t with size := t.size + 4 * (size / 4) } :: ts) := by
  obtain ⟨start, pos, mod, rest⟩ := rec.chained
  have room : t.off + t.size + 4 ≤ len := rec.room
  have hsize := standard.prefixSize
  have hitemsize := standard.itemsize
  have here : t ∈ t :: ts := List.mem_cons_self ..
  have old : ∀ u ∈ ts, u ∈ t :: ts := fun u hu => List.mem_cons_of_mem _ hu
  obtain ⟨u, hu, itemU, rfl⟩ := newestItem_mem newest
  have inU := rec.itemsize_in standard hu itemU
  refine ⟨⟨start, by dsimp only; omega, by dsimp only; omega, rest⟩, ?_, ?_, ?_, ?_, ?_⟩
  · intro v hv itemV
    rcases List.mem_cons.mp hv with rfl | hv
    · have := rec.itemFits t here itemV
      dsimp only
      omega
    · exact rec.itemFits v (old v hv) itemV
  · intro v hv
    rcases List.mem_cons.mp hv with rfl | hv
    · have was := rec.sizes t here
      dsimp only
      rw [word16_put16, was]
      omega
    · have := rest.mem hv
      rw [word16_put16_apart (by omega),
        word16_put16_apart (rec.itemsize_apart standard hu itemU (old v hv))]
      exact rec.sizes v (old v hv)
  · obtain ⟨s, others, smod, bound, sums, before⟩ := itemSums_newest rec.chained newest
    have grownSums : itemSums 0 ({ t with size := t.size + 4 * (size / 4) } :: ts) =
        (u.off, s + 4 * (size / 4)) :: others := by
      have was := sums 0
      unfold newestItem at newest
      unfold itemSums at was ⊢
      split at newest
      · rename_i item
        rw [if_pos item] at was
        rw [if_pos item]
        injection was with head tail
        injection head with off total
        rw [off, tail, show s = t.size by omega, Nat.zero_add]
      · rename_i other
        rw [if_neg other] at was
        rw [if_neg other]
        obtain ⟨s', rest', _, _, sums', _⟩ := itemSums_newest rest newest
        rw [sums'] at was ⊢
        injection was with head tail
        injection head with _ total
        rw [tail]
        dsimp only
        rw [show 0 + (t.size + 4 * (size / 4)) + s' = s + 4 * (size / 4) by omega]
    intro p hp
    rw [grownSums] at hp
    rcases List.mem_cons.mp hp with rfl | hp
    · have was := rec.sums (u.off, 0 + s) (by rw [sums]; exact List.mem_cons_self ..)
      have apart := rec.itemsize_apart standard hu itemU here
      have top : spanEnd (t :: ts) = t.off + t.size := rfl
      dsimp only at was ⊢
      rw [word16_put16_apart (by omega), word16_put16, was]
      omega
    · obtain ⟨v, hv, itemV, offV, beforeU⟩ := before p hp
      have inV := rec.itemsize_in standard hv itemV
      have apart := rec.itemsize_apart standard hv itemV here
      rw [word16_put16_apart (by omega), word16_put16_apart (by omega)]
      exact rec.sums p (by rw [sums]; exact List.mem_cons_of_mem _ hp)
  · intro i hi
    change t.off + (t.size + 4 * (size / 4)) ≤ i at hi
    have inside := rec.chained.mem hu
    have top : spanEnd (t :: ts) = t.off + t.size := rfl
    rw [put16_of_ne (by omega) (by omega), put16_of_ne (by omega) (by omega)]
    exact rec.blank i (by omega)
  · change t.off + (t.size + 4 * (size / 4)) + 4 ≤ len'
    omega

/-! ## The walk -/

/-- A walk with fuel for the tags and `fuel` more goes past them. -/
theorem walk_past (standard : H.Standard) (chained : Chained tags)
    (sizes : ∀ t ∈ tags, word16 win (t.off + H.prefixSize) = t.size / 4)
    (inside : spanEnd tags ≤ len) (fuel : Nat) :
    hwiWalk H win len (tags.length + fuel) 0 =
      (hwiWalk H win len fuel (spanEnd tags)).map
        fun (visited, stop) => (tags.reverse.map HwTag.off ++ visited, stop) := by
  induction tags generalizing fuel with
  | nil => simp [spanEnd]
  | cons t ts ih =>
    obtain ⟨start, pos, mod, rest⟩ := chained
    have header := standard.sizeofPrefix
    have size := sizes t (List.mem_cons_self ..)
    have top : spanEnd (t :: ts) = t.off + t.size := rfl
    have step : hwiWalk H win len (fuel + 1) t.off =
        (hwiWalk H win len fuel (t.off + t.size)).map
          fun (visited, stop) => (t.off :: visited, stop) := by
      rw [hwiWalk, if_pos (by omega)]
      dsimp only
      rw [size, if_neg (by omega), show 4 * (t.size / 4) = t.size by omega]
    have past := ih rest (fun u hu => sizes u (List.mem_cons_of_mem _ hu)) (by omega) (fuel + 1)
    rw [← start, step, Option.map_map] at past
    rw [List.length_cons, Nat.add_assoc, Nat.add_comm 1 fuel, past, top]
    congr 1
    funext ⟨visited, stop⟩
    simp

/-- A walk visits the recorded tags in the order of their allocation and ends behind them. -/
theorem Recorded.walk (rec : Recorded H win len tags) (standard : H.Standard) :
    hwiWalk H win len len 0 = some (tags.reverse.map HwTag.off, spanEnd tags) := by
  have room := rec.room
  have count := rec.chained.length_le
  have header := standard.sizeofPrefix
  obtain ⟨more, fuel⟩ : ∃ more, tags.length + (more + 1) = len :=
    ⟨len - tags.length - 1, by omega⟩
  have zero : word16 win (spanEnd tags + H.prefixSize) = 0 := by
    unfold word16
    rw [rec.blank _ (by omega), rec.blank _ (by omega)]
    rfl
  have last : hwiWalk H win len (more + 1) (spanEnd tags) = some ([], spanEnd tags) := by
    rw [hwiWalk, if_pos (by omega)]
    dsimp only
    rw [zero, if_pos rfl]
  have past := @walk_past _ _ len _ standard rec.chained rec.sizes (by omega) (more + 1)
  rw [fuel, last] at past
  simpa using past

end Mx6xBsp.Startup
