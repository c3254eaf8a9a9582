import Mathlib.Data.List.Basic
import Mathlib.Tactic.TypeStar

/-!
# Computations that leave a trace

A computation on a state that has no meaning for some states (`StateT σ Option α`)
does things one after the other: `E trace s t` says that `trace` leads from `s` to
`t`. `Does E m Q` says that every run of `m` follows some trace, and that `Q` holds
of this trace and of the value of the run. There is one rule for each way to put
computations together.
-/

namespace Traces

universe u

variable {σ α β : Type u} {ε : Type*} {E : List ε → σ → σ → Prop}

/-- Nothing leads from a state to itself, and traces can be appended. -/
structure Tracing (E : List ε → σ → σ → Prop) : Prop where
  nil (s : σ) : E [] s s
  append {xs ys : List ε} {s t u : σ} : E xs s t → E ys t u → E (xs ++ ys) s u

def Does (E : List ε → σ → σ → Prop) (m : StateT σ Option α) (Q : List ε → α → Prop) : Prop :=
  ∀ ⦃s a t⦄, m s = some (a, t) → ∃ trace, E trace s t ∧ Q trace a

theorem bind_eq_some {m : StateT σ Option α} {f : α → StateT σ Option β} {s u : σ} {b : β} :
    (m >>= f) s = some (b, u) ↔ ∃ a t, m s = some (a, t) ∧ f a t = some (b, u) := by
  refine Option.bind_eq_some_iff.trans ⟨?_, ?_⟩
  · rintro ⟨⟨a, t⟩, first, second⟩
    exact ⟨a, t, first, second⟩
  · rintro ⟨a, t, first, second⟩
    exact ⟨(a, t), first, second⟩

theorem pure_eq_some {s t : σ} {a b : α} :
    (pure a : StateT σ Option α) s = some (b, t) ↔ a = b ∧ s = t := by
  refine Option.some_inj.trans ⟨?_, ?_⟩
  · intro same
    cases same
    exact ⟨rfl, rfl⟩
  · rintro ⟨rfl, rfl⟩
    rfl

variable {Q R : List ε → α → Prop} {S : List ε → β → Prop} {m n : StateT σ Option α}

theorem Does.mono (does : Does E m Q) (weaker : ∀ xs a, Q xs a → R xs a) : Does E m R := by
  intro s a t run
  obtain ⟨trace, leads, holds⟩ := does run
  exact ⟨trace, leads, weaker _ _ holds⟩

theorem Does.pure (tracing : Tracing E) {a : α} (holds : Q [] a) : Does E (Pure.pure a) Q := by
  intro s b t run
  obtain ⟨rfl, rfl⟩ := pure_eq_some.mp run
  exact ⟨[], tracing.nil s, holds⟩

theorem Does.bind (tracing : Tracing E) {f : α → StateT σ Option β} (first : Does E m Q)
    (second : ∀ xs a, Q xs a → Does E (f a) fun ys b => S (xs ++ ys) b) :
    Does E (m >>= f) S := by
  intro s b u run
  obtain ⟨a, t, start, rest⟩ := bind_eq_some.mp run
  obtain ⟨xs, before, holds⟩ := first start
  obtain ⟨ys, after, ends⟩ := second xs a holds rest
  exact ⟨xs ++ ys, tracing.append before after, ends⟩

theorem Does.last (tracing : Tracing E) {xs : List ε} {b : β} (holds : S xs b) :
    Does E (Pure.pure b) fun ys b => S (xs ++ ys) b :=
  Does.pure tracing (by rwa [List.append_nil])

theorem Does.ite {p : Prop} [Decidable p] (yes : p → Does E m Q) (no : ¬ p → Does E n Q) :
    Does E (if p then m else n) Q := by
  split
  · exact yes ‹_›
  · exact no ‹_›

theorem Does.get (tracing : Tracing E) {S : List ε → σ → Prop} (holds : ∀ s, S [] s) :
    Does E (MonadState.get : StateT σ Option σ) S := by
  intro s a t run
  cases run
  exact ⟨[], tracing.nil s, holds s⟩

theorem Does.get_bind (tracing : Tracing E) {f : σ → StateT σ Option β}
    (rest : ∀ s, Does E (f s) S) : Does E (MonadState.get >>= f) S := by
  refine Does.bind tracing (Does.get tracing (S := fun xs _ => xs = []) fun _ => rfl)
    fun _ s none => ?_
  rw [none]
  exact rest s

end Traces
