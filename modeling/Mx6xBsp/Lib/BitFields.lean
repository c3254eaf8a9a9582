import Mathlib.Logic.Basic

/-!
# Fields of a register

A register is a row of bits, and a field is read from a range of them. In a
`Layout` each field shows exactly the bits of its range, so two registers agree
on a field exactly where they agree on its bits. Registers that differ in one
field only agree on another one exactly where the two ranges share no bit that
differs (`Layout.others_iff`).
-/

namespace BitFields

/-- `size` bits from `start` on. -/
structure Range where
  start : Nat
  size : Nat

instance : Membership Nat Range := ⟨fun r i => r.start ≤ i ∧ i < r.start + r.size⟩

instance (i : Nat) (r : Range) : Decidable (i ∈ r) := inferInstanceAs (Decidable (_ ∧ _))

def Range.Apart (r q : Range) : Prop := r.start + r.size ≤ q.start ∨ q.start + q.size ≤ r.start

instance (r q : Range) : Decidable (r.Apart q) := inferInstanceAs (Decidable (_ ∨ _))

theorem Range.Apart.not_mem {r q : Range} {i : Nat} (apart : r.Apart q) (left : i ∈ r) : i ∉ q := by
  intro right
  obtain ⟨_, below⟩ := left
  obtain ⟨_, below'⟩ := right
  rcases apart with before | after
  · omega
  · omega

/-- The two rows agree on the range. -/
def Agree (r : Range) (x y : Nat → Bool) : Prop := ∀ i, i ∈ r → x i = y i

/-- The two rows agree on all but the range. -/
def OnlyIn (r : Range) (x y : Nat → Bool) : Prop := ∀ i, i ∉ r → x i = y i

/-- Registers `ρ` with their bits, and fields `φ` with values in `υ`. -/
structure Layout (ρ φ υ : Type) where
  bits : ρ → Nat → Bool
  range : φ → Range
  get : ρ → φ → υ
  exact_ : ∀ x y f, get x f = get y f ↔ Agree (range f) (bits x) (bits y)

variable {ρ φ υ : Type} {x y : ρ} {f : φ}

/-- Registers that differ in one field only show the same other fields exactly where they agree on
the bits these share with it. -/
theorem Layout.others_iff (l : Layout ρ φ υ) (only : OnlyIn (l.range f) (l.bits x) (l.bits y)) :
    (∀ g, g ≠ f → l.get x g = l.get y g) ↔
      ∀ g, g ≠ f → ∀ i, i ∈ l.range f → i ∈ l.range g → l.bits x i = l.bits y i := by
  constructor
  · intro same g other i _ shared
    exact (l.exact_ x y g).mp (same g other) i shared
  · intro shared g other
    apply (l.exact_ x y g).mpr
    intro i inside
    by_cases within : i ∈ l.range f
    · exact shared g other i within inside
    · exact only i within

theorem Layout.others_of_apart (l : Layout ρ φ υ)
    (only : OnlyIn (l.range f) (l.bits x) (l.bits y))
    (apart : ∀ g, g ≠ f → (l.range f).Apart (l.range g)) :
    ∀ g, g ≠ f → l.get x g = l.get y g :=
  (l.others_iff only).mpr fun g other _ within inside =>
    absurd inside ((apart g other).not_mem within)

/-- A field that shares bits with one other field changes alone exactly where these agree. -/
theorem Layout.others_iff_shared (l : Layout ρ φ υ) (g : φ) (shared : Range)
    (only : OnlyIn (l.range f) (l.bits x) (l.bits y)) (other : g ≠ f)
    (meets : ∀ i, i ∈ shared ↔ i ∈ l.range f ∧ i ∈ l.range g)
    (apart : ∀ h, h ≠ f → h ≠ g → (l.range f).Apart (l.range h)) :
    (∀ h, h ≠ f → l.get x h = l.get y h) ↔ Agree shared (l.bits x) (l.bits y) := by
  rw [l.others_iff only]
  constructor
  · intro same i inside
    obtain ⟨left, right⟩ := (meets i).mp inside
    exact same g other i left right
  · intro agree h otherThanF i left right
    by_cases isG : h = g
    · subst isG
      exact agree i ((meets i).mpr ⟨left, right⟩)
    · exact absurd right ((apart h otherThanF isG).not_mem left)

end BitFields
