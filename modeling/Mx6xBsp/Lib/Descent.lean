import Mathlib.Tactic.Ring
import Mathlib.Tactic.TypeStar

/-!
# Steps that go down to a floor

A system whose state has a setting, a level and a rate. It descends along a run when
every step that is not at the floor goes to a lower level, or keeps the level and
lowers the rate, and no step raises the rate. As the rate starts at some bound and
never rises, the floor is reached after finitely many steps
(`Descending.reaches_floor`).
-/

namespace Descent

structure Setting where
  level : Nat
  rate : Nat
  deriving DecidableEq

/-- A lower level, or the same level and a lower rate. -/
def Setting.Slower (a b : Setting) : Prop := a.level < b.level ∨ a.level = b.level ∧ a.rate < b.rate

instance (a b : Setting) : Decidable (a.Slower b) := by
  unfold Setting.Slower
  infer_instance

structure System (σ ε : Type*) where
  next : σ → ε → σ
  setting : σ → Setting
  AtFloor : σ → Prop

variable {σ ε : Type*}

/-- The state after a sequence of steps. -/
def System.after (m : System σ ε) (s : σ) (es : List ε) : σ := es.foldl m.next s

/-- One step goes down, unless it is at the floor, and does not raise the rate. -/
def System.StepsDown (m : System σ ε) (s : σ) (e : ε) : Prop :=
  (¬m.AtFloor s → (m.setting (m.next s e)).Slower (m.setting s)) ∧
    (m.setting (m.next s e)).rate ≤ (m.setting s).rate

/-- Every step of a sequence has a property, each in the state it is taken in. -/
def System.Each (m : System σ ε) (P : σ → ε → Prop) : σ → List ε → Prop
  | _, [] => True
  | s, e :: es => P s e ∧ m.Each P (m.next s e) es

instance decidableEach (m : System σ ε) (P : σ → ε → Prop) [∀ s e, Decidable (P s e)] :
    ∀ s es, Decidable (m.Each P s es)
  | _, [] => .isTrue trivial
  | s, e :: es =>
    have := decidableEach m P (m.next s e) es
    inferInstanceAs (Decidable (P s e ∧ m.Each P (m.next s e) es))

/-- How far down it is when the rates do not go above `top`. -/
def Setting.height (a : Setting) (top : Nat) : Nat := a.level * (top + 1) + a.rate

theorem Setting.Slower.height_lt {a b : Setting} (slower : a.Slower b) {top : Nat}
    (bound : a.rate ≤ top) : a.height top < b.height top := by
  unfold Setting.height
  rcases slower with lower | ⟨same, slower⟩
  · have level : (a.level + 1) * (top + 1) ≤ b.level * (top + 1) :=
      Nat.mul_le_mul_right _ lower
    rw [Nat.add_mul, Nat.one_mul] at level
    omega
  · rw [same]
    omega

/-- What has to be shown of single steps: `Inv` is kept by the steps that fit, these go down, and
the floor is not left. -/
structure Descending (m : System σ ε) (Inv : σ → Prop) (Fits : σ → ε → Prop) : Prop where
  inv : ∀ {s e}, Inv s → Fits s e → Inv (m.next s e)
  down : ∀ {s e}, Inv s → Fits s e → m.StepsDown s e
  floor : ∀ {s e}, Inv s → Fits s e → m.AtFloor s → m.AtFloor (m.next s e)

variable {m : System σ ε} {Inv : σ → Prop} {Fits : σ → ε → Prop} {s : σ} {es : List ε}

theorem Descending.each (descending : Descending m Inv Fits) (start : Inv s)
    (fits : m.Each Fits s es) : m.Each m.StepsDown s es := by
  induction es generalizing s with
  | nil => trivial
  | cons e es ih =>
    exact ⟨descending.down start fits.1, ih (descending.inv start fits.1) fits.2⟩

theorem Descending.stays (descending : Descending m Inv Fits) (start : Inv s)
    (fits : m.Each Fits s es) (floor : m.AtFloor s) : m.AtFloor (m.after s es) := by
  induction es generalizing s with
  | nil => exact floor
  | cons e es ih =>
    exact ih (descending.inv start fits.1) fits.2 (descending.floor start fits.1 floor)

/-- A run whose steps fit is at the floor once it has more steps than it can go down. -/
theorem Descending.reaches_floor (descending : Descending m Inv Fits) (start : Inv s)
    (fits : m.Each Fits s es) {top : Nat} (bound : (m.setting s).rate ≤ top)
    (long : (m.setting s).height top < es.length) : m.AtFloor (m.after s es) := by
  induction es generalizing s with
  | nil => exact absurd long (Nat.not_lt_zero _)
  | cons e es ih =>
    rcases Classical.em (m.AtFloor s) with floor | above
    · exact descending.stays start fits floor
    · obtain ⟨slower, lower⟩ := descending.down start fits.1
      have bound' := Nat.le_trans lower bound
      have height := (slower above).height_lt bound'
      exact ih (descending.inv start fits.1) fits.2 bound'
        (by rw [List.length_cons] at long; omega)

end Descent
