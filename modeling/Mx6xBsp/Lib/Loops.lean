import Mathlib.Data.List.Perm.Subperm
import Mathlib.Tactic.TypeStar

/-!
# Loops that may not end

A pass of a loop leaves it with a result or goes on with another state. `run` makes at most a
given number of passes, and a loop `Ends` with a result if some number of passes is enough.
A loop ends if a measure falls from pass to pass (`exists_ends`), and it does not if some
property of the state never lets it go (`not_ends`). One that ends and has finitely many states
to end from makes no more passes than these (`Ends.run_length`).
-/

namespace Loops

inductive Pass (σ ρ : Type*)
  | leave (r : ρ)
  | next (s : σ)

variable {σ ρ : Type*} (pass : σ → Pass σ ρ)

def run : Nat → σ → Option ρ
  | 0, _ => none
  | fuel + 1, s =>
    match pass s with
    | .leave r => some r
    | .next t => run fuel t

def Ends (s : σ) (r : ρ) : Prop := ∃ fuel, run pass fuel s = some r

variable {pass} {s t : σ} {r r' : ρ} {I : σ → Prop}

theorem run_mono {fuel fuel' : Nat} (more : fuel ≤ fuel') (done : run pass fuel s = some r) :
    run pass fuel' s = some r := by
  induction fuel generalizing s fuel' with
  | zero => cases done
  | succ fuel ih =>
    obtain ⟨fuel', rfl⟩ : ∃ k, fuel' = k + 1 := ⟨fuel' - 1, by omega⟩
    unfold run at done ⊢
    split at done
    · exact done
    · exact ih (by omega) done

theorem Ends.unique (one : Ends pass s r) (other : Ends pass s r') : r = r' := by
  obtain ⟨fuel, done⟩ := one
  obtain ⟨fuel', done'⟩ := other
  have first := run_mono (Nat.le_max_left fuel fuel') done
  have second := run_mono (Nat.le_max_right fuel fuel') done'
  exact Option.some.inj (first.symm.trans second)

theorem ends_leave (here : pass s = .leave r) : Ends pass s r := by
  refine ⟨1, ?_⟩
  unfold run
  rw [here]

theorem ends_next (here : pass s = .next t) : Ends pass s r ↔ Ends pass t r := by
  constructor
  · rintro ⟨fuel, done⟩
    cases fuel with
    | zero => cases done
    | succ fuel =>
      unfold run at done
      rw [here] at done
      exact ⟨fuel, done⟩
  · rintro ⟨fuel, done⟩
    refine ⟨fuel + 1, ?_⟩
    unfold run
    rw [here]
    exact done

theorem Ends.leaves (ends : Ends pass s r) (start : I s)
    (keeps : ∀ {s t}, I s → pass s = .next t → I t) : ∃ t, I t ∧ pass t = .leave r := by
  obtain ⟨fuel, done⟩ := ends
  induction fuel generalizing s with
  | zero => cases done
  | succ fuel ih =>
    unfold run at done
    cases here : pass s with
    | leave r' =>
      rw [here] at done
      exact ⟨s, start, here.trans (congrArg _ (Option.some.inj done))⟩
    | next t =>
      rw [here] at done
      exact ih (keeps start here) done

theorem exists_ends (μ : σ → Nat) (start : I s)
    (falls : ∀ {s t}, I s → pass s = .next t → I t ∧ μ t < μ s) : ∃ r, Ends pass s r := by
  generalize height : μ s = n
  induction n using Nat.strongRecOn generalizing s with
  | _ n ih =>
    cases here : pass s with
    | leave r => exact ⟨r, ends_leave here⟩
    | next t =>
      obtain ⟨keeps, lower⟩ := falls start here
      obtain ⟨r, ends⟩ := ih (μ t) (by omega) keeps rfl
      exact ⟨r, (ends_next here).mpr ends⟩

theorem exists_ends_leave (μ : σ → Nat) (start : I s)
    (falls : ∀ {s t}, I s → pass s = .next t → I t ∧ μ t < μ s) :
    ∃ r t, Ends pass s r ∧ I t ∧ pass t = .leave r := by
  obtain ⟨r, ends⟩ := exists_ends μ start falls
  obtain ⟨t, inv, left⟩ := ends.leaves start fun inv here => (falls inv here).1
  exact ⟨r, t, ends, inv, left⟩

theorem not_ends (start : I s) (stuck : ∀ {s}, I s → ∃ t, pass s = .next t ∧ I t) :
    ¬∃ r, Ends pass s r := by
  rintro ⟨r, ends⟩
  have keeps : ∀ {s t}, I s → pass s = .next t → I t := by
    intro s t inv here
    obtain ⟨u, there, inv'⟩ := stuck inv
    cases here.symm.trans there
    exact inv'
  obtain ⟨t, inv, left⟩ := ends.leaves start keeps
  obtain ⟨u, there, _⟩ := stuck inv
  cases left.symm.trans there

theorem exists_visited {n : Nat} (done : run pass (n + 1) s = some r)
    (late : run pass n s = none) :
    ∃ l : List σ, l.length = n + 1 ∧ l.Nodup ∧ ∀ t ∈ l, run pass (n + 1) t = some r := by
  induction n generalizing s with
  | zero => exact ⟨[s], rfl, List.pairwise_singleton _ s, fun t mem =>
    List.mem_singleton.mp mem ▸ done⟩
  | succ n ih =>
    unfold run at done late
    cases here : pass s with
    | leave r' =>
      rw [here] at late
      cases late
    | next t =>
      rw [here] at done late
      obtain ⟨l, length, nodup, visited⟩ := ih done late
      have fresh : s ∉ l := by
        intro mem
        have again := visited s mem
        unfold run at again
        rw [here] at again
        cases again.symm.trans late
      refine ⟨s :: l, congrArg (· + 1) length, List.nodup_cons.mpr ⟨fresh, nodup⟩, ?_⟩
      intro u mem
      rcases List.mem_cons.mp mem with rfl | mem
      · unfold run
        rw [here]
        exact done
      · exact run_mono (Nat.le_succ _) (visited u mem)

/-- A loop that can end from finitely many states only makes no more passes than these. -/
theorem Ends.run_length {states : List σ} (inside : ∀ {s r}, Ends pass s r → s ∈ states)
    (ends : Ends pass s r) : run pass states.length s = some r := by
  obtain ⟨fuel, done⟩ := ends
  induction fuel with
  | zero => cases done
  | succ fuel ih =>
    cases late : run pass fuel s with
    | some r' =>
      have same := (run_mono (Nat.le_succ _) late).symm.trans done
      exact ih (late.trans same)
    | none =>
      obtain ⟨l, length, nodup, visited⟩ := exists_visited done late
      have within : l ⊆ states := fun t mem => inside ⟨_, visited t mem⟩
      have bound := (List.subperm_of_subset nodup within).length_le
      exact run_mono (by omega) done

theorem not_acc_of_stuck {α : Type*} {r : α → α → Prop} {J : α → Prop} {a : α} (start : J a)
    (stuck : ∀ {a}, J a → ∃ b, r b a ∧ J b) : ¬Acc r a := by
  intro acc
  induction acc with
  | intro a _ ih =>
    obtain ⟨b, rel, inv⟩ := stuck start
    exact ih b rel inv

end Loops
