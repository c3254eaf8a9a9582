import Mathlib.Data.List.Induction
import Mathlib.Tactic.TypeStar

/-!
# Runs of a labelled transition system

`Run step s ops t`: the labels `ops`, taken in order, lead from `s` to `t`.
An invariant kept by every step holds along every run (`Run.invariant`), and a
step that follows an abstract update makes the whole run follow the fold of the
updates (`Run.simulates`). `along_iff` and `Run.along_iff` tell when all is right
at every moment of a fold and of a run, `along_last_iff` when it is so with one more
step at the end. `Except.bind_eq_ok` is the inversion used to take
apart a step function that may fail.
-/

namespace Runs

inductive Run {σ ω : Type*} (step : σ → ω → σ → Prop) : σ → List ω → σ → Prop
  | nil {s : σ} : Run step s [] s
  | cons {s t u : σ} {op : ω} {ops : List ω} :
    step s op t → Run step t ops u → Run step s (op :: ops) u

variable {σ ω τ : Type*} {step : σ → ω → σ → Prop} {s t u : σ} {op : ω} {ops more : List ω}

theorem Run.single (h : step s op t) : Run step s [op] t := .cons h .nil

theorem Run.append (left : Run step s ops t) (right : Run step t more u) :
    Run step s (ops ++ more) u := by
  induction left with
  | nil => exact right
  | cons first _ ih => exact .cons first (ih right)

theorem Run.invariant {I : σ → Prop} (keeps : ∀ {s op t}, I s → step s op t → I t)
    (run : Run step s ops t) (start : I s) : I t := by
  induction run with
  | nil => exact start
  | cons first _ ih => exact ih (keeps start first)

/-- If every step from a related pair follows the abstract update `next`, a run
ends related to the fold of the updates. -/
theorem Run.simulates {R : σ → τ → Prop} {next : τ → ω → τ}
    (keeps : ∀ {s op t a}, R s a → step s op t → R t (next a op))
    (run : Run step s ops t) {a : τ} (start : R s a) : R t (ops.foldl next a) := by
  induction run generalizing a with
  | nil => exact start
  | cons first _ ih => exact ih (keeps start first)

theorem Run.mono {step' : σ → ω → σ → Prop} (sub : ∀ {s op t}, step s op t → step' s op t)
    (run : Run step s ops t) : Run step' s ops t := by
  induction run with
  | nil => exact .nil
  | cons first _ ih => exact .cons (sub first) ih

/-- The end of a run of a step function that has no meaning everywhere, with a check before each
step. -/
def evalRun (next : σ → ω → Option σ) (check : σ → ω → Bool) : σ → List ω → Option σ
  | s, [] => some s
  | s, op :: ops =>
    if check s op then (next s op).bind fun t => evalRun next check t ops else none

theorem Run.of_eval {next : σ → ω → Option σ} {check : σ → ω → Bool} {C : σ → ω → Prop}
    (checked : ∀ {s op}, check s op = true → C s op) (ends : evalRun next check s ops = some t) :
    Run (fun s op t => next s op = some t ∧ C s op) s ops t := by
  induction ops generalizing s with
  | nil =>
    cases ends
    exact .nil
  | cons op ops ih =>
    obtain ⟨ok, ends⟩ := Option.ite_none_right_eq_some.mp ends
    obtain ⟨u, first, ends⟩ := Option.bind_eq_some_iff.mp ends
    exact .cons ⟨first, checked ok⟩ (ih ends)

theorem foldl_getD_concat {next : σ → ω → Option σ}
    (works : (next (ops.foldl (fun s op => (next s op).getD s) s) op).isSome = true) :
    next (ops.foldl (fun s op => (next s op).getD s) s) op =
      some ((ops ++ [op]).foldl (fun s op => (next s op).getD s) s) := by
  obtain ⟨t, call⟩ := Option.isSome_iff_exists.mp works
  rw [List.foldl_append, List.foldl_cons, List.foldl_nil, call]
  rfl

/-- The states on the way of a fold. If the condition `C` on a step from a good state tells exactly
whether the step is fine (`F`) and its end is good (`G`), then all is good and fine along the way
exactly when all steps meet the condition. -/
theorem along_iff_of_mem {next : σ → ω → σ} {G : σ → Prop} {F C : σ → ω → Prop}
    (exact_ : ∀ {s op}, op ∈ ops → G s → (G (next s op) ∧ F s op ↔ C s op)) (start : G s) :
    ((∀ pre, pre <+: ops → G (pre.foldl next s)) ∧
        ∀ pre op, pre ++ [op] <+: ops → F (pre.foldl next s) op) ↔
      ∀ pre op, pre ++ [op] <+: ops → C (pre.foldl next s) op := by
  have member : ∀ {pre op}, pre ++ [op] <+: ops → op ∈ ops := fun below =>
    below.subset (List.mem_append_right _ (List.mem_singleton_self _))
  constructor
  · rintro ⟨good, fine⟩ pre op below
    refine (exact_ (member below) (good pre ((List.prefix_append _ _).trans below))).mp
      ⟨?_, fine pre op below⟩
    have after := good _ below
    rwa [List.foldl_append] at after
  · intro conditions
    have good : ∀ pre, pre <+: ops → G (pre.foldl next s) := by
      intro pre
      induction pre using List.reverseRecOn with
      | nil => exact fun _ => start
      | append_singleton pre op ih =>
        intro below
        rw [List.foldl_append]
        exact ((exact_ (member below) (ih ((List.prefix_append _ _).trans below))).mpr
          (conditions pre op below)).1
    exact ⟨good, fun pre op below =>
      ((exact_ (member below) (good pre ((List.prefix_append _ _).trans below))).mpr
        (conditions pre op below)).2⟩

theorem along_iff {next : σ → ω → σ} {G : σ → Prop} {F C : σ → ω → Prop}
    (exact_ : ∀ {s op}, G s → (G (next s op) ∧ F s op ↔ C s op)) (start : G s) :
    ((∀ pre, pre <+: ops → G (pre.foldl next s)) ∧
        ∀ pre op, pre ++ [op] <+: ops → F (pre.foldl next s) op) ↔
      ∀ pre op, pre ++ [op] <+: ops → C (pre.foldl next s) op :=
  along_iff_of_mem (fun _ => exact_) start

/-- If a step that meets the condition keeps the invariant `I`, which makes a state good, and any
other step leads to a state that is not good, then all is good along the way exactly when all steps
meet the condition. -/
theorem along_iff_of_invariant {next : σ → ω → σ} {I G : σ → Prop} {C : σ → ω → Prop}
    (good : ∀ {s}, I s → G s) (keeps : ∀ {s op}, I s → C s op → I (next s op))
    (breaks : ∀ {s op}, I s → ¬C s op → ¬G (next s op)) (start : I s) :
    (∀ pre, pre <+: ops → G (pre.foldl next s)) ↔
      ∀ pre op, pre ++ [op] <+: ops → C (pre.foldl next s) op := by
  have before : ∀ {pre op}, pre ++ [op] <+: ops → pre <+: ops := (List.prefix_append _ _).trans
  constructor
  · intro all
    have meets : ∀ {pre op}, I (pre.foldl next s) → pre ++ [op] <+: ops →
        C (pre.foldl next s) op := by
      intro pre op inv below
      by_contra not
      have after := all _ below
      rw [List.foldl_append] at after
      exact breaks inv not after
    have inv : ∀ pre, pre <+: ops → I (pre.foldl next s) := by
      intro pre
      induction pre using List.reverseRecOn with
      | nil => exact fun _ => start
      | append_singleton pre op ih =>
        intro below
        rw [List.foldl_append]
        exact keeps (ih (before below)) (meets (ih (before below)) below)
    exact fun pre op below => meets (inv pre (before below)) below
  · intro conditions pre
    have inv : ∀ pre, pre <+: ops → I (pre.foldl next s) := by
      intro pre
      induction pre using List.reverseRecOn with
      | nil => exact fun _ => start
      | append_singleton pre op ih =>
        intro below
        rw [List.foldl_append]
        exact keeps (ih (before below)) (conditions pre op below)
    exact fun below => good (inv pre below)

/-- A condition on all steps of a fold holds if it holds of the first step and of all later ones. -/
theorem along_cons {next : σ → ω → σ} {C : σ → ω → Prop} (first : C s op)
    (rest : ∀ pre op', pre ++ [op'] <+: ops → C (pre.foldl next (next s op)) op') :
    ∀ pre op', pre ++ [op'] <+: op :: ops → C (pre.foldl next s) op' := by
  intro pre op' below
  cases pre with
  | nil =>
    obtain ⟨same, _⟩ := List.cons_prefix_cons.mp below
    rw [same]
    exact first
  | cons p pre =>
    obtain ⟨same, below⟩ := List.cons_prefix_cons.mp below
    rw [same]
    exact rest pre op' below

theorem along_nil {next : σ → ω → σ} {C : σ → ω → Prop} :
    ∀ pre op', pre ++ [op'] <+: [] → C (pre.foldl next s) op' := by
  intro pre op' below
  exact absurd (List.prefix_nil.mp below)
    (List.append_ne_nil_of_right_ne_nil _ (List.cons_ne_nil _ _))

theorem along_of_cons {next : σ → ω → σ} {C : σ → ω → Prop}
    (all : ∀ pre op', pre ++ [op'] <+: op :: ops → C (pre.foldl next s) op') :
    C s op ∧ ∀ pre op', pre ++ [op'] <+: ops → C (pre.foldl next (next s op)) op' :=
  ⟨all [] op (List.prefix_append [op] ops), fun pre op' below =>
    all (op :: pre) op' (List.cons_prefix_cons.mpr ⟨rfl, below⟩)⟩

section Last

variable {next : σ → ω → σ} {I G : σ → Prop} {F C : σ → ω → Prop} {last : ω}

/-- If a state that is not good stays so, unless a step is not fine, and `last` is fine only from
good states, then a run with `last` at the end is not fine if it starts from a state that is not
good. -/
theorem along_last_bad (keeps : ∀ {s op}, I s → I (next s op))
    (stays : ∀ {s op}, I s → ¬G s → F s op → ¬G (next s op)) (ends : ∀ {s}, I s → F s last → G s)
    (started : I s) (bad : ¬G s) :
    ¬∀ pre op, pre ++ [op] <+: ops ++ [last] → F (pre.foldl next s) op := by
  intro fine
  induction ops generalizing s with
  | nil => exact bad (ends started (along_of_cons fine).1)
  | cons op ops ih =>
    obtain ⟨first, rest⟩ := along_of_cons fine
    exact ih (keeps started) (stays started bad first) rest

/-- Then, if `last` is fine from all good states, a run with it at the end is fine exactly when all
steps before it meet the condition. -/
theorem along_last_iff (keeps : ∀ {s op}, I s → I (next s op))
    (exact_ : ∀ {s op}, I s → G s → (G (next s op) ∧ F s op ↔ C s op))
    (stays : ∀ {s op}, I s → ¬G s → F s op → ¬G (next s op)) (ends : ∀ {s}, I s → (F s last ↔ G s))
    (started : I s) (start : G s) :
    (∀ pre op, pre ++ [op] <+: ops ++ [last] → F (pre.foldl next s) op) ↔
      ∀ pre op, pre ++ [op] <+: ops → C (pre.foldl next s) op := by
  induction ops generalizing s with
  | nil => exact ⟨fun _ => along_nil, fun _ => along_cons ((ends started).mpr start) along_nil⟩
  | cons op ops ih =>
    constructor
    · intro fine
      obtain ⟨first, rest⟩ := along_of_cons fine
      have rest' : ∀ pre op', pre ++ [op'] <+: ops ++ [last] →
          F (pre.foldl next (next s op)) op' := rest
      have good : G (next s op) := by
        by_contra bad
        exact absurd rest'
          (along_last_bad keeps stays (fun inv => (ends inv).mp) (keeps started) bad)
      exact along_cons ((exact_ started start).mp ⟨good, first⟩)
        ((ih (keeps started) good).mp rest')
    · intro conditions
      obtain ⟨first, rest⟩ := along_of_cons conditions
      obtain ⟨good, fine⟩ := (exact_ started start).mpr first
      exact along_cons fine ((ih (keeps started) good).mpr rest)

end Last

theorem Run.snoc_inv (run : Run step s (ops ++ [op]) u) : ∃ t, Run step s ops t ∧ step t op u := by
  induction ops generalizing s with
  | nil =>
    cases run with
    | cons first rest =>
      cases rest
      exact ⟨s, .nil, first⟩
  | cons _ ops ih =>
    cases run with
    | cons first rest =>
      obtain ⟨t, before, last⟩ := ih rest
      exact ⟨t, .cons first before, last⟩

/-- The states on the way of the runs with the labels `ops`, where `I` holds of itself. If the
condition `C` on a step from a good state tells exactly whether its end is good, then all is good on
the way exactly when all steps meet the condition. -/
theorem Run.along_iff {I G : σ → Prop} {C : σ → ω → Prop}
    (keeps : ∀ {s op t}, I s → step s op t → I t)
    (exact_ : ∀ {s op t}, I s → G s → step s op t → (G t ↔ C s op)) (started : I s) (start : G s) :
    (∀ pre t, pre <+: ops → Run step s pre t → G t) ↔
      ∀ pre op t u, pre ++ [op] <+: ops → Run step s pre t → step t op u → C t op := by
  constructor
  · intro good pre op t u below before last
    have below' := (List.prefix_append pre [op]).trans below
    exact (exact_ (before.invariant keeps started) (good pre t below' before) last).mp
      (good _ u below (before.append (.single last)))
  · intro conditions pre
    induction pre using List.reverseRecOn with
    | nil =>
      intro t _ run
      cases run
      exact start
    | append_singleton pre op ih =>
      intro u below run
      obtain ⟨t, before, last⟩ := run.snoc_inv
      have below' := (List.prefix_append pre [op]).trans below
      exact (exact_ (before.invariant keeps started) (ih t below' before) last).mpr
        (conditions pre op t u below before last)

end Runs

@[simp] theorem Except.ok_bind {ε : Type*} {α β : Type _} (a : α) (f : α → Except ε β) :
    ((Except.ok a : Except ε α) >>= f) = f a := rfl

theorem Except.bind_eq_ok {ε : Type*} {α β : Type _} {x : Except ε α} {f : α → Except ε β}
    {b : β} : (x >>= f) = .ok b ↔ ∃ a, x = .ok a ∧ f a = .ok b := by
  cases x with
  | error e =>
    constructor
    · intro h
      cases h
    · rintro ⟨_, h, _⟩
      cases h
  | ok a =>
    constructor
    · exact fun h => ⟨a, rfl, h⟩
    · rintro ⟨_, ha, h⟩
      cases ha
      exact h

theorem Except.bind_eq_error {ε : Type*} {α β : Type _} {x : Except ε α} {f : α → Except ε β}
    {e : ε} : (x >>= f) = .error e ↔ x = .error e ∨ ∃ a, x = .ok a ∧ f a = .error e := by
  cases x with
  | error e' => simp [bind, Except.bind]
  | ok a => simp [bind, Except.bind]

theorem Except.exists_of_map {ε : Type*} {α β : Type _} {x : Except ε α} {f : α → β} {b : β}
    (mapped : x.map f = .ok b) : ∃ a, x = .ok a ∧ f a = b := by
  cases x with
  | error e => cases mapped
  | ok a =>
    cases mapped
    exact ⟨a, rfl, rfl⟩
