import Mathlib.Tactic.TypeStar

/-!
# Bracketed programs

The program of a thread asks for one thing after another and goes on by the answers
(`Prog`). Some requests enter a region and some leave it (`Region`). A program is
bracketed when on every path it enters and leaves in turn and ends outside
(`Region.Bracketed`): whether it is inside is then the same on every path
(`Region.inside`), and the number of threads inside changes with the requests that
enter or leave alone (`Region.count_enter`, `Region.count_leave`, `Region.count_same`).
-/

namespace Brackets

inductive Prog (α β : Type*)
  | ret (answer : β)
  | ask (request : α) (go : β → Prog α β)

variable {α β : Type*}

def Prog.bind : Prog α β → (β → Prog α β) → Prog α β
  | .ret answer, f => f answer
  | .ask request go, f => .ask request fun answer => (go answer).bind f

/-- Every request on every path. -/
def Prog.All (P : α → Prop) : Prog α β → Prop
  | .ret _ => True
  | .ask request go => P request ∧ ∀ answer, (go answer).All P

theorem Prog.All.bind {P : α → Prop} {p : Prog α β} {f : β → Prog α β} (all : p.All P)
    (more : ∀ answer, (f answer).All P) : (p.bind f).All P := by
  induction p with
  | ret answer => exact more answer
  | ask request go ih => exact ⟨all.1, fun answer => ih answer (all.2 answer)⟩

theorem Prog.All.mono {P Q : α → Prop} {p : Prog α β} (all : p.All P) (sub : ∀ a, P a → Q a) :
    p.All Q := by
  induction p with
  | ret answer => trivial
  | ask request go ih => exact ⟨sub request all.1, fun answer => ih answer (all.2 answer)⟩

/-- What a request is to a region; bracketed programs do not make one that is `never`. -/
inductive Mark
  | enter | leave | other | never
  deriving DecidableEq

/-- A region, and the answer to a request that is granted. -/
structure Region (α β : Type*) where
  mark : α → Mark
  ok : β

variable {r : Region α β}

/-- Inside: where all is granted, the next request to the region leaves it. -/
def Region.inside (r : Region α β) : Prog α β → Bool
  | .ret _ => false
  | .ask request go =>
    match r.mark request with
    | .leave => true
    | .other => r.inside (go r.ok)
    | _ => false

/-- Entering leads inside if it is granted, leaving leads outside, and nothing else does either. -/
def Region.Bracketed (r : Region α β) : Prog α β → Prop
  | .ret _ => True
  | .ask request go =>
    (∀ answer, r.Bracketed (go answer)) ∧
      match r.mark request with
      | .enter => r.inside (go r.ok) = true ∧ ∀ answer, answer ≠ r.ok → r.inside (go answer) = false
      | .leave => ∀ answer, r.inside (go answer) = false
      | .other => ∀ answer, r.inside (go answer) = r.inside (go r.ok)
      | .never => False

/-- Requests that are nothing to the region. -/
abbrev Region.Quiet (r : Region α β) : Prog α β → Prop :=
  Prog.All fun request => r.mark request = .other

section Programs

variable {p : Prog α β} {f : β → Prog α β} {request : α} {go : β → Prog α β}

theorem Region.inside_other (mark : r.mark request = .other) :
    r.inside (.ask request go) = r.inside (go r.ok) := by
  rw [Region.inside, mark]

theorem Region.inside_enter (mark : r.mark request = .enter) :
    r.inside (.ask request go) = false := by
  rw [Region.inside, mark]

theorem Region.inside_leave (mark : r.mark request = .leave) :
    r.inside (.ask request go) = true := by
  rw [Region.inside, mark]

/-- After requests that are nothing to the region it is where the rest of the program is. -/
theorem Region.Quiet.bind {inside : Bool} (quiet : r.Quiet p)
    (rest : ∀ answer, r.Bracketed (f answer) ∧ r.inside (f answer) = inside) :
    r.Bracketed (p.bind f) ∧ r.inside (p.bind f) = inside := by
  induction p with
  | ret answer => exact rest answer
  | ask request go ih =>
    have next (answer : β) := ih answer (quiet.2 answer)
    refine ⟨⟨fun answer => (next answer).1, ?_⟩, (inside_other quiet.1).trans (next r.ok).2⟩
    rw [quiet.1]
    exact fun answer => (next answer).2.trans (next r.ok).2.symm

theorem Region.Bracketed.bind (bracketed : r.Bracketed p)
    (rest : ∀ answer, r.Bracketed (f answer) ∧ r.inside (f answer) = false) :
    r.Bracketed (p.bind f) ∧ r.inside (p.bind f) = r.inside p := by
  induction p with
  | ret answer => exact rest answer
  | ask request go ih =>
    obtain ⟨after, marked⟩ := bracketed
    have next (answer : β) := ih answer (after answer)
    refine ⟨⟨fun answer => (next answer).1, ?_⟩, ?_⟩
    · cases mark : r.mark request with
      | enter =>
        rw [mark] at marked
        exact ⟨(next r.ok).2.trans marked.1,
          fun answer refused => (next answer).2.trans (marked.2 answer refused)⟩
      | leave =>
        rw [mark] at marked
        exact fun answer => (next answer).2.trans (marked answer)
      | other =>
        rw [mark] at marked
        exact fun answer => (next answer).2.trans ((marked answer).trans (next r.ok).2.symm)
      | never =>
        rw [mark] at marked
        exact marked.elim
    · rw [Prog.bind, Region.inside, Region.inside]
      cases r.mark request with
      | other => exact (next r.ok).2
      | enter => rfl
      | leave => rfl
      | never => rfl

end Programs

/-! ## Threads -/

section Threads

variable {threads : List (Prog α β)} {i : Nat} {p q : Prog α β}

/-- The number of threads inside. -/
def Region.count (r : Region α β) (threads : List (Prog α β)) : Nat := threads.countP r.inside

theorem Region.count_set (here : threads[i]? = some p) (q : Prog α β) :
    r.count (threads.set i q) + (r.inside p).toNat = r.count threads + (r.inside q).toNat := by
  obtain ⟨within, here⟩ := List.getElem?_eq_some_iff.mp here
  have least : (r.inside p).toNat ≤ r.count threads := by
    cases inside : r.inside p with
    | false => exact Nat.zero_le _
    | true =>
      exact List.countP_pos_iff.mpr ⟨p, here ▸ List.getElem_mem within, inside⟩
  unfold Region.count at least ⊢
  rw [List.countP_set within, here]
  cases inside : r.inside p <;> cases r.inside q
  all_goals
    rw [inside] at least
    simp only [Bool.toNat_true, Bool.toNat_false, if_true, Bool.false_eq_true, if_false] at least ⊢
    omega

theorem Region.count_same (here : threads[i]? = some p) (same : r.inside q = r.inside p) :
    r.count (threads.set i q) = r.count threads := by
  have set := r.count_set here q
  rw [same] at set
  exact Nat.add_right_cancel set

theorem Region.count_enter (here : threads[i]? = some p) (outside : r.inside p = false)
    (entered : r.inside q = true) : r.count (threads.set i q) = r.count threads + 1 := by
  have set := r.count_set here q
  rw [outside, entered] at set
  exact set

theorem Region.count_leave (here : threads[i]? = some p) (inside : r.inside p = true)
    (left : r.inside q = false) : r.count (threads.set i q) + 1 = r.count threads := by
  have set := r.count_set here q
  rw [inside, left] at set
  exact set

theorem Region.count_le : r.count threads ≤ threads.length := List.countP_le_length

end Threads

end Brackets
