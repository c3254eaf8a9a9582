import Mathlib.Order.Interval.Set.Basic
import Mathlib.Order.MinMax
import Mathlib.Data.Set.Lattice

/-!
# Lists of half-open spans

A finite union of half-open intervals over a linear order, kept as a list.
`Separated` is the canonical form: nonempty spans, in order, with a gap before
each next span. `coalesce` merges touching neighbours of a list that ascends by
its lower ends; its result is `Separated` and denotes the same set. Inserting one
span by its lower end (`insertLo`) and coalescing is set union.
-/

namespace Spans

/-- The half-open interval `[lo, hi)`. -/
structure Span (α : Type*) where
  lo : α
  hi : α
deriving DecidableEq

variable {α : Type*} [LinearOrder α]

def Span.toSet (s : Span α) : Set α := Set.Ico s.lo s.hi

@[simp] theorem Span.mem_toSet {s : Span α} {x : α} : x ∈ s.toSet ↔ s.lo ≤ x ∧ x < s.hi :=
  Iff.rfl

/-- The union of the spans of a list. -/
def denote (l : List (Span α)) : Set α := {x | ∃ s ∈ l, x ∈ s.toSet}

@[simp] theorem mem_denote {l : List (Span α)} {x : α} :
    x ∈ denote l ↔ ∃ s ∈ l, s.lo ≤ x ∧ x < s.hi := Iff.rfl

@[simp] theorem denote_nil : denote ([] : List (Span α)) = ∅ := by
  ext x
  simp

@[simp] theorem denote_cons (s : Span α) (l : List (Span α)) :
    denote (s :: l) = s.toSet ∪ denote l := by
  ext x
  simp

@[simp] theorem denote_append (l m : List (Span α)) :
    denote (l ++ m) = denote l ∪ denote m := by
  ext x
  simp [or_and_right, exists_or]

/-- Nonempty spans in order, each followed by a gap. -/
structure Separated (l : List (Span α)) : Prop where
  nonempty : ∀ s ∈ l, s.lo < s.hi
  gaps : l.Pairwise fun s t => s.hi < t.lo

theorem Separated.nil : Separated ([] : List (Span α)) :=
  ⟨fun _ mem => absurd mem List.not_mem_nil, List.Pairwise.nil⟩

theorem Separated.cons {s : Span α} {l : List (Span α)} (nonempty : s.lo < s.hi)
    (gap : ∀ t ∈ l, s.hi < t.lo) (rest : Separated l) : Separated (s :: l) :=
  ⟨List.forall_mem_cons.mpr ⟨nonempty, rest.nonempty⟩, List.pairwise_cons.mpr ⟨gap, rest.gaps⟩⟩

theorem Separated.head {s : Span α} {l : List (Span α)} (sep : Separated (s :: l)) :
    s.lo < s.hi := sep.nonempty s List.mem_cons_self

theorem Separated.head_gap {s : Span α} {l : List (Span α)} (sep : Separated (s :: l)) :
    ∀ t ∈ l, s.hi < t.lo := (List.pairwise_cons.mp sep.gaps).1

theorem Separated.tail {s : Span α} {l : List (Span α)} (sep : Separated (s :: l)) :
    Separated l :=
  ⟨(List.forall_mem_cons.mp sep.nonempty).2, (List.pairwise_cons.mp sep.gaps).2⟩

theorem Separated.append {l m : List (Span α)} (left : Separated l) (right : Separated m)
    (gap : ∀ s ∈ l, ∀ t ∈ m, s.hi < t.lo) : Separated (l ++ m) := by
  refine ⟨fun s mem => ?_, List.pairwise_append.mpr ⟨left.gaps, right.gaps, gap⟩⟩
  rcases List.mem_append.mp mem with mem | mem
  · exact left.nonempty s mem
  · exact right.nonempty s mem

theorem Separated.of_append_right {l m : List (Span α)} (sep : Separated (l ++ m)) :
    Separated m :=
  ⟨fun s mem => sep.nonempty s (List.mem_append_right l mem),
    (List.pairwise_append.mp sep.gaps).2.1⟩

theorem Separated.of_append_left {l m : List (Span α)} (sep : Separated (l ++ m)) :
    Separated l :=
  ⟨fun s mem => sep.nonempty s (List.mem_append_left m mem),
    (List.pairwise_append.mp sep.gaps).1⟩

theorem Separated.gap_append {l m : List (Span α)} (sep : Separated (l ++ m)) :
    ∀ s ∈ l, ∀ t ∈ m, s.hi < t.lo :=
  (List.pairwise_append.mp sep.gaps).2.2

theorem Separated.of_sublist {l m : List (Span α)} (sep : Separated m)
    (sub : l.Sublist m) : Separated l :=
  ⟨fun s mem => sep.nonempty s (sub.subset mem), sep.gaps.sublist sub⟩

theorem Separated.remove {l m : List (Span α)} {s : Span α} (sep : Separated (l ++ s :: m)) :
    Separated (l ++ m) :=
  sep.of_sublist ((List.Sublist.refl l).append (List.sublist_cons_self s m))

theorem Separated.replace {l m : List (Span α)} {s t : Span α} (sep : Separated (l ++ s :: m))
    (nonempty : t.lo < t.hi) (low : s.lo ≤ t.lo) (high : t.hi ≤ s.hi) :
    Separated (l ++ t :: m) := by
  refine Separated.append sep.of_append_left ?_ (fun u memU v memV => ?_)
  · exact Separated.cons nonempty
      (fun u mem => high.trans_lt (sep.of_append_right.head_gap u mem)) sep.of_append_right.tail
  · rcases List.mem_cons.mp memV with rfl | memV
    · exact (sep.gap_append u memU s List.mem_cons_self).trans_le low
    · exact sep.gap_append u memU v (List.mem_cons_of_mem _ memV)

theorem Separated.split {l m : List (Span α)} {s t u : Span α} (sep : Separated (l ++ s :: m))
    (first : t.lo < t.hi) (gap : t.hi < u.lo) (second : u.lo < u.hi) (low : s.lo ≤ t.lo)
    (high : u.hi ≤ s.hi) : Separated (l ++ t :: u :: m) := by
  have right := sep.of_append_right
  refine Separated.append sep.of_append_left ?_ (fun v memV w memW => ?_)
  · refine Separated.cons first (fun v mem => ?_)
      (Separated.cons second (fun v mem => high.trans_lt (right.head_gap v mem)) right.tail)
    rcases List.mem_cons.mp mem with rfl | mem
    · exact gap
    · exact ((gap.trans second).trans_le high).trans (right.head_gap v mem)
  · have before := sep.gap_append v memV
    rcases List.mem_cons.mp memW with rfl | memW
    · exact (before s List.mem_cons_self).trans_le low
    · rcases List.mem_cons.mp memW with rfl | memW
      · exact ((before s List.mem_cons_self).trans_le low).trans (first.trans gap)
      · exact before w (List.mem_cons_of_mem _ memW)

/-! ## The canonical form is unique -/

theorem Separated.head_lo_le {s : Span α} {l : List (Span α)} (sep : Separated (s :: l)) {x : α}
    (mem : x ∈ denote (s :: l)) : s.lo ≤ x := by
  obtain ⟨t, memT, above, _⟩ := mem
  rcases List.mem_cons.mp memT with rfl | memT
  · exact above
  · exact (sep.head.trans (sep.head_gap t memT)).le.trans above

theorem Separated.head_hi_not_mem {s : Span α} {l : List (Span α)} (sep : Separated (s :: l)) :
    s.hi ∉ denote (s :: l) := by
  rintro ⟨t, memT, above, below⟩
  rcases List.mem_cons.mp memT with rfl | memT
  · exact lt_irrefl _ below
  · exact lt_irrefl _ ((sep.head_gap t memT).trans_le above)

theorem Separated.head_lo_mem {s : Span α} {l : List (Span α)} (sep : Separated (s :: l)) :
    s.lo ∈ denote (s :: l) := ⟨s, List.mem_cons_self, le_rfl, sep.head⟩

theorem Separated.mem_tail_iff {s : Span α} {l : List (Span α)} (sep : Separated (s :: l)) {x : α} :
    x ∈ denote l ↔ x ∈ denote (s :: l) ∧ s.hi ≤ x := by
  constructor
  · rintro ⟨t, memT, above, below⟩
    exact ⟨⟨t, List.mem_cons_of_mem _ memT, above, below⟩,
      (sep.head_gap t memT).le.trans above⟩
  · rintro ⟨⟨t, memT, above, below⟩, past⟩
    rcases List.mem_cons.mp memT with rfl | memT
    · exact absurd (below.trans_le past) (lt_irrefl _)
    · exact ⟨t, memT, above, below⟩

theorem Separated.eq_of_denote_eq {l m : List (Span α)} (sepL : Separated l) (sepM : Separated m)
    (same : denote l = denote m) : l = m := by
  induction l generalizing m with
  | nil =>
    cases m with
    | nil => rfl
    | cons t m =>
      have mem := sepM.head_lo_mem
      rw [← same, denote_nil] at mem
      exact absurd mem (Set.notMem_empty _)
  | cons s l ih =>
    cases m with
    | nil =>
      have mem := sepL.head_lo_mem
      rw [same, denote_nil] at mem
      exact absurd mem (Set.notMem_empty _)
    | cons t m =>
      have lows : s.lo = t.lo :=
        le_antisymm (sepL.head_lo_le (same ▸ sepM.head_lo_mem))
          (sepM.head_lo_le (same ▸ sepL.head_lo_mem))
      have highs : s.hi = t.hi := by
        rcases lt_trichotomy s.hi t.hi with less | equal | greater
        · have mem : s.hi ∈ denote (t :: m) :=
            ⟨t, List.mem_cons_self, lows ▸ sepL.head.le, less⟩
          exact absurd (same ▸ mem) sepL.head_hi_not_mem
        · exact equal
        · have mem : t.hi ∈ denote (s :: l) :=
            ⟨s, List.mem_cons_self, lows ▸ sepM.head.le, greater⟩
          exact absurd (same ▸ mem) sepM.head_hi_not_mem
      have tails : denote l = denote m := by
        ext x
        rw [sepL.mem_tail_iff, sepM.mem_tail_iff, same, highs]
      have heads : s = t := by
        cases s
        cases t
        congr
      rw [heads, ih sepL.tail sepM.tail tails]

/-! ## Coalescing -/

/-- Ascending lower ends, overlaps allowed. -/
def Ascending (l : List (Span α)) : Prop := l.Pairwise fun s t => s.lo ≤ t.lo

theorem Separated.ascending {l : List (Span α)} (sep : Separated l) : Ascending l := by
  refine List.Pairwise.imp_of_mem (fun {s t} memS _ gap => ?_) sep.gaps
  exact ((sep.nonempty s memS).trans gap).le

/-- Merge the following spans into `cur` as long as they touch it. -/
def coalesceFrom (cur : Span α) : List (Span α) → List (Span α)
  | [] => [cur]
  | s :: l =>
    if s.lo ≤ cur.hi then coalesceFrom ⟨cur.lo, max cur.hi s.hi⟩ l
    else cur :: coalesceFrom s l

def coalesce : List (Span α) → List (Span α)
  | [] => []
  | s :: l => coalesceFrom s l

theorem denote_coalesceFrom {cur : Span α} {l : List (Span α)}
    (order : ∀ s ∈ l, cur.lo ≤ s.lo) (asc : Ascending l) :
    denote (coalesceFrom cur l) = cur.toSet ∪ denote l := by
  induction l generalizing cur with
  | nil => simp [coalesceFrom]
  | cons s l ih =>
    obtain ⟨first, later⟩ := List.pairwise_cons.mp asc
    obtain ⟨lower, lowers⟩ := List.forall_mem_cons.mp order
    unfold coalesceFrom
    split
    next touch =>
      rw [@ih ⟨cur.lo, max cur.hi s.hi⟩ lowers later, denote_cons, ← Set.union_assoc]
      congr 1
      ext x
      simp only [Span.mem_toSet, Set.mem_union, lt_max_iff]
      constructor
      · rintro ⟨above, below | below⟩
        · exact Or.inl ⟨above, below⟩
        · rcases lt_or_ge x cur.hi with inside | outside
          · exact Or.inl ⟨above, inside⟩
          · exact Or.inr ⟨touch.trans outside, below⟩
      · rintro (⟨above, below⟩ | ⟨above, below⟩)
        · exact ⟨above, Or.inl below⟩
        · exact ⟨lower.trans above, Or.inr below⟩
    next _ => rw [denote_cons, denote_cons, ih first later]

theorem exists_lo_of_mem_coalesceFrom {cur s : Span α} {l : List (Span α)}
    (mem : s ∈ coalesceFrom cur l) : ∃ t ∈ cur :: l, t.lo = s.lo := by
  induction l generalizing cur with
  | nil => exact ⟨s, mem, rfl⟩
  | cons n l ih =>
    unfold coalesceFrom at mem
    split at mem
    · obtain ⟨t, memT, same⟩ := ih mem
      rcases List.mem_cons.mp memT with rfl | memT
      · exact ⟨cur, List.mem_cons_self, same⟩
      · exact ⟨t, List.mem_cons_of_mem _ (List.mem_cons_of_mem _ memT), same⟩
    · rcases List.mem_cons.mp mem with rfl | mem
      · exact ⟨s, List.mem_cons_self, rfl⟩
      · obtain ⟨t, memT, same⟩ := ih mem
        exact ⟨t, List.mem_cons_of_mem _ memT, same⟩

theorem separated_coalesceFrom {cur : Span α} {l : List (Span α)} (nonempty : cur.lo < cur.hi)
    (nonempties : ∀ s ∈ l, s.lo < s.hi) (order : ∀ s ∈ l, cur.lo ≤ s.lo) (asc : Ascending l) :
    Separated (coalesceFrom cur l) := by
  induction l generalizing cur with
  | nil => exact Separated.cons nonempty (by simp) Separated.nil
  | cons s l ih =>
    obtain ⟨first, later⟩ := List.pairwise_cons.mp asc
    obtain ⟨lower, lowers⟩ := List.forall_mem_cons.mp order
    obtain ⟨here, there⟩ := List.forall_mem_cons.mp nonempties
    unfold coalesceFrom
    split
    next _ => exact ih (nonempty.trans_le (le_max_left _ _)) there lowers later
    next apart =>
      refine Separated.cons nonempty (fun t mem => ?_) (ih here there first later)
      obtain ⟨u, memU, same⟩ := exists_lo_of_mem_coalesceFrom mem
      rw [← same]
      rcases List.mem_cons.mp memU with rfl | memU
      · exact not_le.mp apart
      · exact (not_le.mp apart).trans_le (first u memU)

/-! ## Insertion by the lower end -/

/-- Insert after every span that starts at or below the new one. -/
def insertLo (n : Span α) : List (Span α) → List (Span α)
  | [] => [n]
  | s :: l => if s.lo ≤ n.lo then s :: insertLo n l else n :: s :: l

theorem mem_insertLo {n s : Span α} {l : List (Span α)} :
    s ∈ insertLo n l ↔ s = n ∨ s ∈ l := by
  induction l with
  | nil => simp [insertLo]
  | cons t l ih =>
    unfold insertLo
    split
    · rw [List.mem_cons, ih, List.mem_cons]
      tauto
    · simp

theorem ascending_insertLo {n : Span α} {l : List (Span α)} (asc : Ascending l) :
    Ascending (insertLo n l) := by
  induction l with
  | nil => exact List.pairwise_singleton _ n
  | cons s l ih =>
    obtain ⟨first, later⟩ := List.pairwise_cons.mp asc
    unfold insertLo
    split
    next below =>
      refine List.pairwise_cons.mpr ⟨fun t mem => ?_, ih later⟩
      rcases mem_insertLo.mp mem with rfl | mem
      · exact below
      · exact first t mem
    next above =>
      refine List.pairwise_cons.mpr ⟨fun t mem => ?_, asc⟩
      rcases List.mem_cons.mp mem with rfl | mem
      · exact (not_le.mp above).le
      · exact (not_le.mp above).le.trans (first t mem)

theorem denote_insertLo (n : Span α) (l : List (Span α)) :
    denote (insertLo n l) = denote l ∪ n.toSet := by
  ext x
  simp only [mem_denote, mem_insertLo, Set.mem_union, Span.mem_toSet]
  constructor
  · rintro ⟨s, rfl | mem, inside⟩
    · exact Or.inr inside
    · exact Or.inl ⟨s, mem, inside⟩
  · rintro (⟨s, mem, inside⟩ | inside)
    · exact ⟨s, Or.inr mem, inside⟩
    · exact ⟨n, Or.inl rfl, inside⟩

theorem denote_coalesce {l : List (Span α)} (asc : Ascending l) :
    denote (coalesce l) = denote l := by
  cases l with
  | nil => rfl
  | cons s l =>
    obtain ⟨first, later⟩ := List.pairwise_cons.mp asc
    rw [coalesce, denote_coalesceFrom first later, denote_cons]

theorem separated_coalesce {l : List (Span α)} (nonempties : ∀ s ∈ l, s.lo < s.hi)
    (asc : Ascending l) : Separated (coalesce l) := by
  cases l with
  | nil => exact Separated.nil
  | cons s l =>
    obtain ⟨first, later⟩ := List.pairwise_cons.mp asc
    obtain ⟨here, there⟩ := List.forall_mem_cons.mp nonempties
    exact separated_coalesceFrom here there first later

theorem denote_coalesce_insertLo {n : Span α} {l : List (Span α)} (sep : Separated l) :
    denote (coalesce (insertLo n l)) = denote l ∪ n.toSet := by
  rw [denote_coalesce (ascending_insertLo sep.ascending), denote_insertLo]

theorem separated_coalesce_insertLo {n : Span α} {l : List (Span α)} (sep : Separated l)
    (nonempty : n.lo < n.hi) : Separated (coalesce (insertLo n l)) := by
  refine separated_coalesce (fun s mem => ?_) (ascending_insertLo sep.ascending)
  rcases mem_insertLo.mp mem with rfl | mem
  · exact nonempty
  · exact sep.nonempty s mem

end Spans
