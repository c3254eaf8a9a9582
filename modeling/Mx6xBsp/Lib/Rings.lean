import Mathlib.Logic.Function.Basic
import Mathlib.Data.Nat.ModEq
import Mathlib.Data.List.Basic

/-!
# Queues in a ring of slots

`Ring N c slot blank q`: the `N` slots, read from `c` on and around the end,
hold the elements of the queue `q` and then blanks. Taking the first element,
appending one and changing one in place are the operations of the queue.
-/

namespace Rings

variable {α : Type*} {N c i j : Nat} {slot : Nat → α} {blank x y : α} {q : List α}

/-- The slot at distance `k` from `c`. -/
def place (N c k : Nat) : Nat := (c + k) % N

theorem place_lt (pos : 0 < N) : place N c i < N := Nat.mod_lt _ pos

theorem place_zero (start : c < N) : place N c 0 = c := Nat.mod_eq_of_lt start

theorem place_next : place N (place N c 1) i = place N c (i + 1) := by
  unfold place
  rw [Nat.mod_add_mod, Nat.add_assoc, Nat.add_comm 1 i]

theorem next_place : (place N c i + 1) % N = place N c (i + 1) := by
  unfold place
  rw [Nat.mod_add_mod, Nat.add_assoc]

theorem place_full (start : c < N) : place N c N = c := by
  unfold place
  rw [Nat.add_mod_right, Nat.mod_eq_of_lt start]

theorem place_inj (hi : i < N) (hj : j < N) (same : place N c i = place N c j) : i = j :=
  Nat.ModEq.eq_of_lt_of_lt (Nat.ModEq.add_left_cancel' c same) hi hj

theorem exists_place (hi : i < N) (start : c < N) : ∃ k < N, place N c k = i := by
  refine ⟨(i + (N - c)) % N, Nat.mod_lt _ (by omega), ?_⟩
  unfold place
  rw [Nat.add_mod_mod, show c + (i + (N - c)) = i + N by omega, Nat.add_mod_right,
    Nat.mod_eq_of_lt hi]

theorem modify_append (f : α → α) (q r : List α) :
    (q ++ r).modify (q.length + i) f = q ++ r.modify i f := by
  induction q with
  | nil => simp
  | cons x q ih =>
    rw [List.cons_append, List.length_cons, Nat.add_right_comm, List.modify_succ_cons, ih,
      List.cons_append]

/-- The slots from `c` on hold `q`, and the others are blank. -/
structure Ring (N c : Nat) (slot : Nat → α) (blank : α) (q : List α) : Prop where
  start : c < N
  room : q.length ≤ N
  used : ∀ k (h : k < q.length), slot (place N c k) = q[k]
  rest : ∀ k, q.length ≤ k → k < N → slot (place N c k) = blank

namespace Ring

theorem empty (start : c < N) (blanks : ∀ i < N, slot i = blank) : Ring N c slot blank [] :=
  ⟨start, Nat.zero_le _, fun _ h => absurd h (Nat.not_lt_zero _),
    fun _ _ _ => blanks _ (place_lt (by omega))⟩

theorem head (ring : Ring N c slot blank (x :: q)) : slot c = x := by
  have first := ring.used 0 (Nat.zero_lt_succ _)
  rwa [place_zero ring.start] at first

theorem update_of_ne {k : Nat} (hi : i < N) (hk : k < N) (other : k ≠ i) :
    Function.update slot (place N c i) x (place N c k) = slot (place N c k) :=
  Function.update_of_ne (fun same => other (place_inj hk hi same)) _ _

theorem congr {slot' : Nat → α} (ring : Ring N c slot blank q) (same : ∀ i < N, slot' i = slot i) :
    Ring N c slot' blank q := by
  have pos : 0 < N := Nat.zero_lt_of_lt ring.start
  refine ⟨ring.start, ring.room, fun k h => ?_, fun k low high => ?_⟩
  · rw [same _ (place_lt pos)]
    exact ring.used k h
  · rw [same _ (place_lt pos)]
    exact ring.rest k low high

theorem pop (ring : Ring N c slot blank (x :: q)) :
    Ring N (place N c 1) (Function.update slot c blank) blank q := by
  have start := ring.start
  have room := ring.room
  rw [List.length_cons] at room
  have others : ∀ k, 0 < k → k < N →
      Function.update slot c blank (place N c k) = slot (place N c k) := by
    intro k pos high
    refine Function.update_of_ne (fun same => ?_) _ _
    have := place_inj high (by omega) (same.trans (place_zero start).symm)
    omega
  refine ⟨place_lt (by omega), by omega, fun k h => ?_, fun k low high => ?_⟩
  · rw [place_next, others (k + 1) (by omega) (by omega)]
    exact ring.used (k + 1) (Nat.succ_lt_succ h)
  · rw [place_next]
    by_cases last : k + 1 = N
    · rw [last, place_full start, Function.update_self]
    · rw [others (k + 1) (by omega) (by omega)]
      exact ring.rest (k + 1) (by rw [List.length_cons]; omega) (by omega)

theorem push (ring : Ring N c slot blank q) (free : q.length < N) :
    Ring N c (Function.update slot (place N c q.length) x) blank (q ++ [x]) := by
  refine ⟨ring.start, by rw [List.length_append, List.length_singleton]; omega,
    fun k h => ?_, fun k low high => ?_⟩
  · rw [List.length_append, List.length_singleton] at h
    by_cases last : k = q.length
    · subst last
      rw [Function.update_self, List.getElem_append_right le_rfl]
      simp
    · rw [update_of_ne free (by omega) last, List.getElem_append_left (by omega)]
      exact ring.used k (by omega)
  · rw [List.length_append, List.length_singleton] at low
    rw [update_of_ne free high (by omega)]
    exact ring.rest k (by omega) high

theorem set (ring : Ring N c slot blank q) (within : i < q.length) :
    Ring N c (Function.update slot (place N c i) x) blank (q.set i x) := by
  have room := ring.room
  refine ⟨ring.start, by rwa [List.length_set], fun k h => ?_, fun k low high => ?_⟩
  · rw [List.length_set] at h
    by_cases same : k = i
    · subst same
      rw [Function.update_self, List.getElem_set_self]
    · rw [update_of_ne (by omega) (by omega) same, List.getElem_set_of_ne (Ne.symm same)]
      exact ring.used k h
  · rw [List.length_set] at low
    rw [update_of_ne (by omega) high (by omega)]
    exact ring.rest k low high

theorem modify (ring : Ring N c slot blank q) (f : α → α) (within : i < q.length) :
    Ring N c (Function.update slot (place N c i) (f (slot (place N c i)))) blank
      (q.modify i f) := by
  have same : q.modify i f = q.set i (f q[i]) := by
    refine List.ext_getElem (by simp) fun j h h' => ?_
    rw [List.getElem_modify, List.getElem_set]
    split
    · rename_i here
      subst here
      rfl
    · rfl
  rw [same, ring.used i within]
  exact ring.set within

theorem cases (ring : Ring N c slot blank q) (hi : i < N) :
    (∃ k, ∃ h : k < q.length, i = place N c k ∧ slot i = q[k]) ∨ slot i = blank := by
  obtain ⟨k, hk, rfl⟩ := exists_place hi ring.start
  by_cases h : k < q.length
  · exact Or.inl ⟨k, h, rfl, ring.used k h⟩
  · exact Or.inr (ring.rest k (by omega) hk)

end Ring

end Rings
