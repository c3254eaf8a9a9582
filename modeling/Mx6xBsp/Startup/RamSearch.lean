import Mathlib.Order.CompletePartialOrder
import Mx6xBsp.Startup.RamList

/-!
# What a search of the free list returns

`fix_size` narrows a candidate until it misses one avoided range, so a candidate
that comes out of the inner loop misses every range in front of the terminator
of the avoid list. An address that a search returns therefore starts a block
inside one free entry and outside all of these ranges (`Fits`), provided that
the rounding of the candidate's start did not wrap.
-/

namespace Mx6xBsp.Startup

open Spans

/-- The ranges in front of the terminator. -/
def heeded (avoid : List AvoidEntry) : List AvoidEntry := avoid.takeWhile fun a => a.stop ≠ 0

/-- The addresses of the heeded ranges. -/
def avoidSet (avoid : List AvoidEntry) : Set Nat :=
  {x | ∃ a ∈ heeded avoid, a.start ≤ x ∧ x < a.stop}

/-- `[addr, addr + size)` is free and avoids every heeded range. -/
structure Fits (ram : List RamEntry) (avoid : List AvoidEntry) (addr size : Nat) : Prop where
  entry : ∃ r ∈ live ram, r.addr ≤ addr ∧ addr + size ≤ r.addr + r.size
  avoids : ∀ a ∈ heeded avoid, addr + size ≤ a.start ∨ a.stop ≤ addr

theorem Fits.subset_freeSet {ram : List RamEntry} {avoid : List AvoidEntry} {addr size : Nat}
    (fits : Fits ram avoid addr size) : Set.Ico addr (addr + size) ⊆ freeSet ram := by
  obtain ⟨r, mem, low, high⟩ := fits.entry
  rintro x ⟨above, below⟩
  exact ⟨r.span, List.mem_map_of_mem mem, low.trans above, below.trans_le high⟩

theorem Fits.disjoint_avoidSet {ram : List RamEntry} {avoid : List AvoidEntry} {addr size : Nat}
    (fits : Fits ram avoid addr size) :
    Disjoint (Set.Ico addr (addr + size)) (avoidSet avoid) := by
  refine Set.disjoint_left.mpr ?_
  rintro x ⟨above, below⟩ ⟨a, mem, low, high⟩
  have := fits.avoids a mem
  omega

theorem Fits.mono {ram : List RamEntry} {avoid : List AvoidEntry} {addr size size' : Nat}
    (fits : Fits ram avoid addr size') (le : size ≤ size') : Fits ram avoid addr size := by
  obtain ⟨⟨r, mem, low, high⟩, avoids⟩ := fits
  refine ⟨⟨r, mem, low, by omega⟩, fun a inside => ?_⟩
  have := avoids a inside
  omega

/-! ## Narrowing a candidate -/

theorem fixSize_bounds {s e as ae s' e' : Nat} (fixed : fixSize s e as ae = some (s', e')) :
    s ≤ s' ∧ e' ≤ e ∧ (e' ≤ as ∨ ae ≤ s') := by
  unfold fixSize at fixed
  split_ifs at fixed <;> simp only [Option.some.injEq, Prod.mk.injEq] at fixed <;> omega

theorem heeded_cons {a : AvoidEntry} {rest : List AvoidEntry} (nonzero : a.stop ≠ 0) :
    heeded (a :: rest) = a :: heeded rest := by
  simp [heeded, nonzero]

theorem heeded_terminator {a : AvoidEntry} {rest : List AvoidEntry} (zero : a.stop = 0) :
    heeded (a :: rest) = [] := by
  simp [heeded, zero]

theorem fixAvoided_bounds {avoid : List AvoidEntry} {s e s' e' : Nat}
    (fixed : fixAvoided avoid s e = some (s', e')) :
    s ≤ s' ∧ e' ≤ e ∧ ∀ a ∈ heeded avoid, e' ≤ a.start ∨ a.stop ≤ s' := by
  induction avoid generalizing s e with
  | nil =>
    simp only [fixAvoided, Option.some.injEq, Prod.mk.injEq] at fixed
    exact ⟨fixed.1.le, fixed.2.ge, by simp [heeded]⟩
  | cons a rest ih =>
    rw [fixAvoided] at fixed
    by_cases zero : a.stop = 0
    · rw [if_pos zero] at fixed
      simp only [Option.some.injEq, Prod.mk.injEq] at fixed
      rw [heeded_terminator zero]
      exact ⟨fixed.1.le, fixed.2.ge, by simp⟩
    rw [if_neg zero] at fixed
    cases narrowed : fixSize s e a.start a.stop with
    | none =>
      rw [narrowed] at fixed
      cases fixed
    | some piece =>
      obtain ⟨s₁, e₁⟩ := piece
      rw [narrowed] at fixed
      obtain ⟨low, high, miss⟩ := fixSize_bounds narrowed
      obtain ⟨low', high', miss'⟩ := ih fixed
      refine ⟨low.trans low', high'.trans high, ?_⟩
      rw [heeded_cons zero]
      refine List.forall_mem_cons.mpr ⟨?_, miss'⟩
      omega

theorem Fits.of_candidate {ram : List RamEntry} {avoid : List AvoidEntry} {r : RamEntry}
    {s e addr size : Nat} (mem : r ∈ live ram)
    (fixed : fixAvoided avoid r.addr (r.addr + r.size) = some (s, e)) (low : s ≤ addr)
    (high : addr + size ≤ e) : Fits ram avoid addr size := by
  obtain ⟨left, right, miss⟩ := fixAvoided_bounds fixed
  refine ⟨⟨r, mem, left.trans low, high.trans right⟩, fun a inside => ?_⟩
  have := miss a inside
  omega

theorem live_cons {r : RamEntry} {rest : List RamEntry} (nonempty : r.size ≠ 0) :
    live (r :: rest) = r :: live rest := by
  simp [live, nonempty]

theorem Fits.cons {r : RamEntry} {rest : List RamEntry} {avoid : List AvoidEntry}
    {addr size : Nat} (nonempty : r.size ≠ 0) (fits : Fits rest avoid addr size) :
    Fits (r :: rest) avoid addr size := by
  obtain ⟨q, mem, inside⟩ := fits.entry
  exact ⟨⟨q, live_cons nonempty ▸ List.mem_cons_of_mem _ mem, inside⟩, fits.avoids⟩

/-! ## `find_ram_in_range` -/

/-- The 32-bit computations on one candidate do not wrap. -/
def AlignNoWrap (s align colour mask : Nat) : Prop :=
  s + paddrSub align 1 < PADDR_SPACE ∧
    (ROUND s align &&& mask = colour ∨ mask = 0 ∨
      ((paddrSub mask 1 ||| mask) + 1 < PADDR_SPACE ∧
        ROUND s align + ((paddrSub mask 1 ||| mask) + 1) < PADDR_SPACE))

instance {s align colour mask : Nat} : Decidable (AlignNoWrap s align colour mask) :=
  inferInstanceAs (Decidable (_ ∧ _))

theorem le_alignColour {s align colour mask : Nat} (fits : AlignNoWrap s align colour mask)
    (width : mask < PADDR_SPACE) : s ≤ alignColour s align colour mask := by
  obtain ⟨rounds, colours⟩ := fits
  refine (le_ROUND rounds).trans ?_
  unfold alignColour
  simp only
  by_cases hit : ROUND s align &&& mask = colour
  · rw [if_neg (by simpa using hit)]
  rw [if_pos hit]
  refine le_trans ?_ Nat.left_le_or
  have rounded : ROUND s align < PADDR_SPACE := (TRUNC_le _ _).trans_lt (paddr_lt _)
  rcases colours with same | rfl | ⟨small, sum⟩
  · exact absurd same hit
  · have cleared := (and_paddrNot_bounds (m := 0)
      (paddr_lt (ROUND s align + paddr ((paddrSub 0 1 ||| 0) + 1))) (by decide)).2
    have incr : paddr ((paddrSub 0 1 ||| 0) + 1) = 0 := by decide
    rw [incr, Nat.add_zero, Nat.add_zero, paddr_of_lt rounded] at cleared
    rwa [incr, Nat.add_zero, paddr_of_lt rounded]
  · have above : mask ≤ paddrSub mask 1 ||| mask := Nat.right_le_or
    rw [paddr_of_lt small, paddr_of_lt sum]
    have cleared := (and_paddrNot_bounds (m := mask) sum width).2
    omega

theorem placeInRange_bounds {rangeStart rangeEnd size align colour mask s e addr : Nat}
    (placed : placeInRange rangeStart rangeEnd size align colour mask s e = some addr) :
    alignColour s align colour mask ≤ addr ∧ addr + size ≤ e ∧
      (rangeEnd ≠ 0 → addr + size ≤ rangeEnd) := by
  unfold placeInRange at placed
  simp only at placed
  split_ifs at placed <;> simp only [Option.some.injEq] at placed <;> omega

section FindRam

variable (avoid : List AvoidEntry) (rangeStart rangeEnd size align colour mask : Nat)

/-- No 32-bit computation of `find_ram_in_range` wraps, up to the entry in which
it finds its block. -/
def SearchNoWrap : List RamEntry → Prop
  | [] => True
  | r :: rest =>
    r.size = 0 ∨
      match fixAvoided avoid r.addr (r.addr + r.size) with
      | none => SearchNoWrap rest
      | some (s, e) =>
        AlignNoWrap s align colour mask ∧
          (placeInRange rangeStart rangeEnd size align colour mask s e = none →
            SearchNoWrap rest)

/-- Where the candidate starts, past the avoided ranges, that takes the block. -/
def candidateStart : List RamEntry → Option Nat
  | [] => none
  | r :: rest =>
    if r.size = 0 then none
    else match fixAvoided avoid r.addr (r.addr + r.size) with
      | none => candidateStart rest
      | some (s, e) =>
        match placeInRange rangeStart rangeEnd size align colour mask s e with
        | none => candidateStart rest
        | some _ => some s

variable {avoid rangeStart rangeEnd size align colour mask}

theorem findRamInRange_cases {ram : List RamEntry} {addr : Nat}
    (search : findRamInRange avoid rangeStart rangeEnd size align colour mask ram = addr)
    (found : addr ≠ NULL_PADDR) :
    ∃ r ∈ live ram, ∃ s e, fixAvoided avoid r.addr (r.addr + r.size) = some (s, e) ∧
      placeInRange rangeStart rangeEnd size align colour mask s e = some addr ∧
      candidateStart avoid rangeStart rangeEnd size align colour mask ram = some s ∧
      (SearchNoWrap avoid rangeStart rangeEnd size align colour mask ram →
        AlignNoWrap s align colour mask) := by
  induction ram with
  | nil => exact absurd search.symm found
  | cons r rest ih =>
    simp only [findRamInRange] at search
    by_cases empty : r.size = 0
    · rw [if_pos empty] at search
      exact absurd search.symm found
    rw [if_neg empty] at search
    rw [live_cons empty, candidateStart, if_neg empty]
    cases narrowed : fixAvoided avoid r.addr (r.addr + r.size) with
    | none =>
      rw [narrowed] at search
      obtain ⟨q, mem, s, e, fixed, placed, start, aligned⟩ := ih search
      refine ⟨q, List.mem_cons_of_mem _ mem, s, e, fixed, placed, start, fun calm => ?_⟩
      exact aligned (by simpa [SearchNoWrap, empty, narrowed] using calm)
    | some piece =>
      obtain ⟨s, e⟩ := piece
      rw [narrowed] at search
      simp only at search ⊢
      cases placed : placeInRange rangeStart rangeEnd size align colour mask s e with
      | none =>
        rw [placed] at search
        obtain ⟨q, mem, s', e', fixed, placed', start, aligned⟩ := ih search
        refine ⟨q, List.mem_cons_of_mem _ mem, s', e', fixed, placed', start, fun calm => ?_⟩
        simp only [SearchNoWrap, empty, narrowed, placed, false_or, forall_const] at calm
        exact aligned calm.2
      | some here =>
        rw [placed] at search
        obtain rfl : here = addr := search
        refine ⟨r, List.mem_cons_self, s, e, narrowed, placed, rfl, fun calm => ?_⟩
        simp only [SearchNoWrap, empty, narrowed, false_or] at calm
        exact calm.1

theorem findRamInRange_fits {ram : List RamEntry} {addr : Nat}
    (calm : SearchNoWrap avoid rangeStart rangeEnd size align colour mask ram)
    (width : mask < PADDR_SPACE)
    (search : findRamInRange avoid rangeStart rangeEnd size align colour mask ram = addr)
    (found : addr ≠ NULL_PADDR) : Fits ram avoid addr size := by
  obtain ⟨r, mem, s, e, fixed, placed, -, aligned⟩ := findRamInRange_cases search found
  obtain ⟨low, high, _⟩ := placeInRange_bounds placed
  exact Fits.of_candidate mem fixed ((le_alignColour (aligned calm) width).trans low) high

/-- A range that ends below `2 ^ 32` keeps the end of the block below it too. -/
theorem findRamInRange_le {ram : List RamEntry} {addr : Nat}
    (search : findRamInRange avoid rangeStart rangeEnd size align colour mask ram = addr)
    (found : addr ≠ NULL_PADDR) (limited : rangeEnd ≠ 0) : addr + size ≤ rangeEnd := by
  obtain ⟨_, _, _, _, _, placed, _⟩ := findRamInRange_cases search found
  exact (placeInRange_bounds placed).2.2 limited

end FindRam

/-- No 32-bit computation of `find_ram` wraps. -/
def RamState.SearchNoWrap (st : RamState) (size align colour mask : Nat) : Prop :=
  Startup.SearchNoWrap st.avoidList 0 MAX_PADDR32 size align colour mask st.ramList

theorem findRam_fits {st : RamState} {size align colour mask : Nat}
    (calm : st.SearchNoWrap size align colour mask) (width : mask < PADDR_SPACE)
    (found : findRam st size align colour mask ≠ NULL_PADDR) :
    Fits st.ramList st.avoidList (findRam st size align colour mask) size :=
  findRamInRange_fits calm width rfl found

theorem findRam_lt {st : RamState} {size align colour mask : Nat}
    (found : findRam st size align colour mask ≠ NULL_PADDR) :
    findRam st size align colour mask + size < PADDR_SPACE :=
  (findRamInRange_le rfl found (by decide)).trans_lt (by decide)

/-! ## `find_top_ram_aligned` -/

theorem topOf_bounds {s e size align chk : Nat} (top : topOf s e size align = some chk) :
    s ≤ chk ∧ chk + size ≤ e := by
  unfold topOf at top
  simp only at top
  have truncated := (TRUNC_le (e - size) align).trans (Nat.mod_le _ _)
  have reduced : paddr (e - size) ≤ e - size := Nat.mod_le _ _
  split_ifs at top <;> simp only [Option.some.injEq] at top <;> omega

theorem findTopLoop_fits {avoid : List AvoidEntry} {size align top : Nat}
    {ram : List RamEntry} :
    findTopLoop avoid size align ram top = top ∨
      Fits ram avoid (findTopLoop avoid size align ram top) size := by
  induction ram generalizing top with
  | nil => exact Or.inl rfl
  | cons r rest ih =>
    by_cases empty : r.size = 0
    · simp [findTopLoop, empty]
    have later : ∀ top, findTopLoop avoid size align rest top = top ∨
        Fits (r :: rest) avoid (findTopLoop avoid size align rest top) size :=
      fun top => ih.imp_right (Fits.cons empty)
    rw [findTopLoop, if_neg empty]
    cases narrowed : fixAvoided avoid r.addr (r.addr + r.size) with
    | none => exact later top
    | some piece =>
      obtain ⟨s, e⟩ := piece
      simp only
      cases placed : topOf s e size align with
      | none => exact later top
      | some chk =>
        obtain ⟨low, high⟩ := topOf_bounds placed
        have here : Fits (r :: rest) avoid chk size :=
          Fits.of_candidate (live_cons empty ▸ List.mem_cons_self) narrowed low high
        simp only
        split_ifs with higher
        · rcases later chk with same | fits
          · exact Or.inr (same.symm ▸ here)
          · exact Or.inr fits
        · exact later top

/-- The block at the top of memory fits with the size `find_top_ram_aligned` rounds to. -/
theorem findTopRamAligned_fits {ram : List RamEntry} {avoid : List AvoidEntry}
    {size align pagesize : Nat}
    (found : findTopRamAligned ram avoid size align pagesize ≠ NULL_PADDR) :
    Fits ram avoid (findTopRamAligned ram avoid size align pagesize) (ROUND size pagesize) := by
  unfold findTopRamAligned at found ⊢
  simp only at found ⊢
  split_ifs at found ⊢ with none_found
  · exact absurd rfl found
  · exact findTopLoop_fits.resolve_left none_found

end Mx6xBsp.Startup
