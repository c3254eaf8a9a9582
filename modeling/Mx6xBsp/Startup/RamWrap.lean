import Mathlib.Order.CompletePartialOrder
import Mx6xBsp.Startup.RamList

/-!
# Blocks that reach `2 ^ 32`

`end` is 0 for such a block. The first loop of `alloc_ram` then changes the
entry that contains the start of the block and the entry at address 0, and
passes over all others. `allocLoop_wrap` has the blocks that are removed all
the same; `allocLoop_wrap_removes_iff` says that these are the only ones.
A block that goes on past `2 ^ 32` is never removed (`allocLoop_past_keeps`).
-/

namespace Mx6xBsp.Startup

open Spans

section WrappedBlock

variable {addr fuel : Nat} {pre rest : List RamEntry} {r t : RamEntry}

theorem allocLoop_wrap_pass {todo : List RamEntry}
    (apart : ∀ r ∈ todo, r.size ≠ 0 ∧ r.addr ≠ 0 ∧ (addr < r.addr ∨ r.addr + r.size ≤ addr)) :
    allocLoop addr 0 (todo.length + fuel) (pre ++ (todo ++ rest)) pre.length =
      allocLoop addr 0 fuel ((pre ++ todo) ++ rest) (pre ++ todo).length := by
  induction todo generalizing pre with
  | nil => simp
  | cons r todo ih =>
    obtain ⟨⟨nonempty, nonzero, away⟩, later⟩ := List.forall_mem_cons.mp apart
    have outside : ¬ ((addr ≤ r.addr ∧ 0 > r.addr) ∨ (addr ≥ r.addr ∧ addr < r.addr + r.size) ∨
        (0 ≥ r.addr ∧ 0 < r.addr + r.size)) := by omega
    have here : (pre ++ (r :: todo ++ rest))[pre.length]? = some r := by simp
    have next := @ih (pre ++ [r]) later
    have count : (r :: todo).length + fuel = todo.length + fuel + 1 := by
      rw [List.length_cons]
      omega
    rw [count]
    simp only [allocLoop, here, if_neg nonempty, if_neg outside]
    simpa using next

/-- The block begins inside the entry that ends at `2 ^ 32`. -/
theorem allocLoop_wrap_tail (low : r.addr < addr) (high : addr < r.addr + r.size)
    (ends : r.addr + r.size = PADDR_SPACE) :
    allocLoop addr 0 (fuel + 1) (pre ++ r :: rest) pre.length =
      allocLoop addr 0 fuel (pre ++ ⟨r.addr, addr - r.addr⟩ :: rest) (pre.length + 1) := by
  have nonempty : r.size ≠ 0 := by omega
  have overlap : (addr ≤ r.addr ∧ 0 > r.addr) ∨ (addr ≥ r.addr ∧ addr < r.addr + r.size) ∨
      (0 ≥ r.addr ∧ 0 < r.addr + r.size) := by omega
  have here : (pre ++ r :: rest)[pre.length]? = some r := by simp
  have lower : (if addr < r.addr then addr else r.addr) = r.addr := if_neg (by omega)
  have head : ¬ addr = r.addr := by omega
  have none_back : paddr (r.addr + r.size) = 0 := by
    rw [ends]
    decide
  simp only [allocLoop, here, if_neg nonempty, if_pos overlap]
  simp [lower, head, none_back, addMem]

theorem allocLoop_wrap_zero (pos : 0 < addr) (fits : addr < PADDR_SPACE) :
    allocLoop addr 0 (fuel + 1) (⟨0, addr⟩ :: rest) 0 =
      (addMem (⟨0, addr⟩ :: rest) 0 addr >>= fun ram => allocLoop addr 0 fuel ram 1) := by
  have head : ¬ addr = 0 := by omega
  have back : paddr addr = addr := paddr_of_lt fits
  have start : paddr 0 = 0 := by decide
  simp [allocLoop, head, back, start, pos]

/-- The block begins inside the free memory that reaches `2 ^ 32`. -/
theorem allocLoop_wrap_inside {es : List RamEntry} (term : t.size = 0)
    (sep : Separated (es.map RamEntry.span ++ [r.span])) (low : r.addr < addr)
    (high : addr < r.addr + r.size) (ends : r.addr + r.size = PADDR_SPACE)
    (zero : ∀ q ∈ es, q.addr = 0 → addr ≤ q.size) (enough : es.length + 2 ≤ fuel) :
    allocLoop addr 0 fuel (es ++ [r, t]) 0 = .ok (es ++ [⟨r.addr, addr - r.addr⟩, t]) := by
  obtain ⟨more, rfl⟩ := Nat.exists_eq_add_of_le enough
  have apart : ∀ q ∈ es, q.size ≠ 0 ∧ q.addr ≠ 0 ∧ (addr < q.addr ∨ q.addr + q.size ≤ addr) := by
    intro q mem
    have gap := sep.gap_append q.span (List.mem_map_of_mem mem) r.span (List.mem_singleton_self _)
    have nonempty := sep.of_append_left.nonempty q.span (List.mem_map_of_mem mem)
    have unaligned := zero q mem
    simp only [RamEntry.span] at gap nonempty
    omega
  have passed := @allocLoop_wrap_pass _ (more + 2) [] [r, t] _ apart
  have count : es.length + 2 + more = es.length + (more + 2) := by omega
  rw [count]
  refine passed.trans ?_
  rw [List.nil_append, allocLoop_wrap_tail low high ends]
  have last := @allocLoop_terminator addr 0 more (es ++ [⟨r.addr, addr - r.addr⟩]) [] _ term
  simpa using last

theorem allocLoop_wrap_outside {ram es : List RamEntry} (table : RamTable ram es) (pos : 0 < addr)
    (fits : addr < PADDR_SPACE) (outside : addr ∉ denote (es.map RamEntry.span))
    (zero : ∀ r ∈ es, r.addr = 0 → addr ≤ r.size) (enough : es.length + 2 ≤ fuel) :
    TableOutcome (allocLoop addr 0 fuel ram 0) (denote (es.map RamEntry.span)) es.length := by
  have away : ∀ q ∈ es, addr < q.addr ∨ q.addr + q.size ≤ addr := by
    intro q mem
    by_contra touching
    exact outside (mem_denote_entries.mpr ⟨q, mem, by omega⟩)
  have sizes := size_ne_zero_of_separated table.separated
  have separated := table.separated
  obtain ⟨t, term, rfl⟩ := table.slots
  by_cases first : ∃ rest, es = ⟨0, addr⟩ :: rest
  · obtain ⟨rest, rfl⟩ := first
    obtain ⟨more, rfl⟩ := Nat.exists_eq_add_of_le enough
    have apart : ∀ q ∈ rest, q.size ≠ 0 ∧ q.addr ≠ 0 ∧
        (addr < q.addr ∨ q.addr + q.size ≤ addr) := by
      intro q mem
      have gap := separated.head_gap q.span (List.mem_map_of_mem mem)
      simp only [RamEntry.span] at gap
      exact ⟨sizes q (List.mem_cons_of_mem _ mem), by omega, by omega⟩
    have count : (⟨0, addr⟩ :: rest : List RamEntry).length + 2 + more =
        rest.length + (more + 2) + 1 := by
      rw [List.length_cons]
      omega
    rw [count, List.cons_append, allocLoop_wrap_zero pos fits]
    rcases addMem_table table pos (by omega : 0 + addr ≤ PADDR_SPACE) with
      ⟨ram, es', added, table', free⟩ | ⟨crash, full⟩
    · have unchanged : es' = ⟨0, addr⟩ :: rest := by
        refine RamEntry.span_injective.list_map
          (table'.separated.eq_of_denote_eq separated (free.trans ?_))
        rw [List.map_cons, denote_cons]
        refine Set.union_eq_left.mpr (subset_trans ?_ Set.subset_union_left)
        exact subset_rfl
      subst unchanged
      obtain ⟨t', term', rfl⟩ := table'.slots
      have passed := @allocLoop_wrap_pass _ (more + 2) [⟨0, addr⟩] [t'] _ apart
      have last := @allocLoop_terminator addr 0 (more + 1) (⟨0, addr⟩ :: rest) [] _ term'
      rw [List.cons_append] at added
      rw [added, Except.ok_bind]
      refine Or.inl ⟨_, _, passed.trans ?_, table', ?_⟩
      · simpa using last
      · rfl
    · rw [List.cons_append] at crash
      rw [crash]
      exact Or.inr ⟨rfl, full⟩
  · have apart : ∀ q ∈ es, q.size ≠ 0 ∧ q.addr ≠ 0 ∧
        (addr < q.addr ∨ q.addr + q.size ≤ addr) := by
      refine fun q mem => ⟨sizes q mem, fun low => first ?_, away q mem⟩
      have least := zero q mem low
      have beside := away q mem
      obtain ⟨head, tail, rfl⟩ := List.exists_cons_of_ne_nil (List.ne_nil_of_mem mem)
      rcases List.mem_cons.mp mem with rfl | behind
      · refine ⟨tail, ?_⟩
        congr 1
        cases q
        simp only [RamEntry.mk.injEq] at *
        omega
      · have gap := separated.head_gap q.span (List.mem_map_of_mem behind)
        simp only [RamEntry.span] at gap
        omega
    obtain ⟨more, rfl⟩ := Nat.exists_eq_add_of_le enough
    have passed := @allocLoop_wrap_pass _ (more + 2) [] [t] _ apart
    have last := @allocLoop_terminator addr 0 (more + 1) es [] _ term
    have count : es.length + 2 + more = es.length + (more + 2) := by omega
    rw [count]
    exact Or.inl ⟨_, es, passed.trans (by simpa using last), table, rfl⟩

/-- A block that begins inside the free entry that reaches `2 ^ 32`, or outside
every entry, is removed as any other, if the memory from address 0 on is not
free or free up to the block. -/
theorem allocLoop_wrap {ram es : List RamEntry} (table : RamTable ram es) (pos : 0 < addr)
    (fits : addr < PADDR_SPACE)
    (inside : ∀ r ∈ es, r.addr ≤ addr → addr < r.addr + r.size →
      r.addr < addr ∧ r.addr + r.size = PADDR_SPACE)
    (zero : ∀ r ∈ es, r.addr = 0 → addr ≤ r.size) :
    TableOutcome (allocLoop addr 0 (2 * ram.length + 2) ram 0)
      (denote (es.map RamEntry.span) \
        {x | addr ∈ denote (es.map RamEntry.span) ∧ addr ≤ x}) es.length := by
  by_cases free : addr ∈ denote (es.map RamEntry.span)
  · obtain ⟨r, mem, low, high⟩ := mem_denote_entries.mp free
    obtain ⟨low, ends⟩ := inside r mem low high
    have separated := table.separated
    have bounded := table.bounded
    obtain ⟨t, term, rfl⟩ := table.slots
    obtain ⟨es, tail, rfl⟩ := List.append_of_mem mem
    -- the entry that reaches the end of the address space is the last one
    have last : tail = [] := by
      refine List.eq_nil_iff_forall_not_mem.mpr fun q behind => ?_
      rw [List.map_append, List.map_cons] at separated
      have gap := separated.of_append_right.head_gap q.span (List.mem_map_of_mem behind)
      have below := bounded q (by simp [behind])
      simp only [RamEntry.span] at gap
      omega
    subst last
    rw [List.map_append, List.map_singleton] at separated
    have cut := @allocLoop_wrap_inside _ (2 * (es ++ [r] ++ [t]).length + 2) _ _ _ term separated
        low high ends (fun q mem => zero q (List.mem_append_left _ mem)) (by simp; omega)
    have slots : es ++ [r] ++ [t] = es ++ [r, t] := by simp
    rw [slots] at cut ⊢
    have kept : denote (es.map RamEntry.span) \ {x | addr ≤ x} = denote (es.map RamEntry.span) := by
      refine (Set.disjoint_left.mpr ?_ : Disjoint _ _).sdiff_eq_left
      rintro x ⟨s, mem, _, below⟩ above
      have gap := separated.gap_append s mem r.span (List.mem_singleton_self _)
      simp only [RamEntry.span, Set.mem_ofPred_eq] at gap above
      omega
    refine Or.inl ⟨_, es ++ [⟨r.addr, addr - r.addr⟩], cut, ⟨⟨t, term, by simp⟩, ?_, ?_⟩, ?_⟩
    · have := separated.replace (t := (⟨r.addr, addr⟩ : Span Nat)) low le_rfl high.le
      simpa [RamEntry.span, Nat.add_sub_cancel' low.le] using this
    · intro q mem
      rcases List.mem_append.mp mem with mem | mem
      · exact bounded q (List.mem_append_left _ mem)
      · rw [List.mem_singleton.mp mem]
        simp only
        omega
    · simp only [free, true_and]
      rw [List.map_append, List.map_append, denote_append, denote_append, Set.union_sdiff_distrib,
        kept]
      congr 1
      ext x
      simp only [List.map_singleton, denote_cons, denote_nil, Set.union_empty, RamEntry.span,
        Span.mem_toSet, Set.mem_sdiff, Set.mem_ofPred_eq]
      omega
  · have same : denote (es.map RamEntry.span) \
        {x | addr ∈ denote (es.map RamEntry.span) ∧ addr ≤ x} = denote (es.map RamEntry.span) := by
      simp [free]
    rw [same]
    exact allocLoop_wrap_outside table pos fits free zero (by have := table.length; omega)

/-! ## Which blocks are removed -/

/-- A block from `addr` to `2 ^ 32` is taken out of `free`: nothing of it is free, or it lies in
free memory that goes on below it, and address 0 is free only with all memory. -/
def RemovedToTop (free : Set Nat) (addr : Nat) : Prop :=
  Disjoint free (Set.Ico addr PADDR_SPACE) ∨
    (Set.Ico (addr - 1) PADDR_SPACE ⊆ free ∧ (0 ∈ free → Set.Ico 0 PADDR_SPACE ⊆ free))

theorem allocLoop_idle {ram ram' : List RamEntry} {stop i : Nat}
    (idle : ∀ r ∈ ram.drop i, ¬ ((addr ≤ r.addr ∧ stop > r.addr) ∨
      (addr ≥ r.addr ∧ addr < r.addr + r.size) ∨ (stop ≥ r.addr ∧ stop < r.addr + r.size)))
    (call : allocLoop addr stop fuel ram i = .ok ram') : ram' = ram := by
  induction fuel generalizing i with
  | zero => cases call
  | succ fuel ih =>
    rw [allocLoop] at call
    rcases Nat.lt_or_ge i ram.length with within | past
    · have here : ram[i] ∈ ram.drop i := by
        rw [List.drop_eq_getElem_cons within]
        exact List.mem_cons_self
      have later : ∀ r ∈ ram.drop (i + 1), r ∈ ram.drop i := by
        rw [List.drop_eq_getElem_cons within]
        exact fun r mem => List.mem_cons_of_mem _ mem
      simp only [List.getElem?_eq_getElem within, if_neg (idle _ here)] at call
      split at call
      · cases call
        rfl
      · exact ih (fun r mem => idle r (later r mem)) call
    · rw [List.getElem?_eq_none past] at call
      cases call
      rfl

/-- `add_mem` on entries that may still overlap. -/
theorem addMem_ascending {es ram : List RamEntry} {start size : Nat} (sizes : ∀ r ∈ es, r.size ≠ 0)
    (asc : Ascending (es.map RamEntry.span)) (term : t.size = 0) (pos : 0 < size)
    (call : addMem (es ++ [t]) start size = .ok ram) :
    ∃ es', ram = es' ++ [t] ∧ Separated (es'.map RamEntry.span) ∧
      denote (es'.map RamEntry.span) =
        denote (es.map RamEntry.span) ∪ Set.Ico start (start + size) := by
  obtain ⟨mid, inserted, spans, sizes'⟩ :=
    insertEntry_slots sizes term (by omega : size ≠ 0)
  rw [addMem, if_pos pos, inserted] at call
  split_ifs at call with full
  have ascending := ascending_insertLo (n := ⟨start, start + size⟩) asc
  rw [← spans] at ascending
  have nonempties : ∀ s ∈ mid.map RamEntry.span, s.lo < s.hi := by
    intro s mem
    obtain ⟨r, memR, rfl⟩ := List.mem_map.mp mem
    have := sizes' r memR
    simp only [RamEntry.span]
    omega
  cases mid with
  | nil =>
    have mem : (⟨start, start + size⟩ : Span Nat) ∈
        insertLo ⟨start, start + size⟩ (es.map RamEntry.span) := mem_insertLo.mpr (Or.inl rfl)
    rw [← spans] at mem
    exact absurd mem List.not_mem_nil
  | cons p mid =>
    obtain ⟨es', merged, coalesced⟩ :=
      mergeEntries_slots (p := p) (List.forall_mem_cons.mp sizes').2 term
    simp only [List.cons_append, merged, Except.ok.injEq] at call
    have result : es'.map RamEntry.span = coalesce ((p :: mid).map RamEntry.span) := coalesced
    refine ⟨es', call.symm, ?_, ?_⟩
    · rw [result]
      exact separated_coalesce nonempties ascending
    · rw [result, denote_coalesce ascending, spans, denote_insertLo]
      rfl

/-- If everything below `n` is free, all entries but the first lie above `n`. -/
theorem lt_of_mem_drop_one {es : List RamEntry} {n : Nat} (sep : Separated (es.map RamEntry.span))
    (low : Set.Ico 0 n ⊆ denote (es.map RamEntry.span)) (pos : 0 < n) :
    ∀ r ∈ es.drop 1, n < r.addr := by
  intro r mem
  cases es with
  | nil => exact absurd mem List.not_mem_nil
  | cons first rest =>
    rw [List.map_cons] at sep low
    have begins : first.addr ≤ 0 := sep.head_lo_le (low ⟨le_rfl, pos⟩)
    have reaches : n ≤ first.addr + first.size := by
      by_contra short
      exact sep.head_hi_not_mem (low ⟨Nat.zero_le _, not_le.mp short⟩)
    exact reaches.trans_lt (sep.head_gap r.span (List.mem_map_of_mem mem))

theorem freeSet_append {es : List RamEntry} (term : t.size = 0)
    (sizes : ∀ r ∈ es, r.size ≠ 0) : freeSet (es ++ [t]) = denote (es.map RamEntry.span) := by
  rw [freeSet, live_append sizes term]

/-- A separated list of entries below `2 ^ 32` and a terminator are a table. -/
theorem RamTable.of_separated {es : List RamEntry} (term : t.size = 0)
    (sep : Separated (es.map RamEntry.span))
    (below : denote (es.map RamEntry.span) ⊆ Set.Iio PADDR_SPACE) : RamTable (es ++ [t]) es := by
  refine ⟨⟨t, term, rfl⟩, sep, fun r mem => ?_⟩
  have nonempty := size_ne_zero_of_separated sep r mem
  have last : r.addr + r.size - 1 < PADDR_SPACE :=
    below (mem_denote_entries.mpr ⟨r, mem, by omega, by omega⟩)
  omega

theorem RamTable.freeSet_lt {ram es : List RamEntry} (table : RamTable ram es) :
    Startup.freeSet ram ⊆ Set.Iio PADDR_SPACE := by
  rw [table.freeSet]
  intro x mem
  obtain ⟨r, memR, _, high⟩ := mem_denote_entries.mp mem
  exact high.trans_le (table.bounded r memR)

/-! A block whose `end` has wrapped to an address `w` below its start. -/

/-- An entry that the block begins in, or that contains `w`, comes back through `add_mem`. -/
theorem allocLoop_past_back {w : Nat} (past : w < addr) (low : r.addr < addr)
    (touched : addr < r.addr + r.size ∨ r.addr ≤ w ∧ w < r.addr + r.size)
    (fits : addr < PADDR_SPACE) (short : r.addr + r.size - w < PADDR_SPACE) :
    allocLoop addr w (fuel + 1) (pre ++ r :: rest) pre.length =
      (addMem (pre ++ ⟨r.addr, addr - r.addr⟩ :: rest) w (r.addr + r.size - w) >>=
        fun ram => allocLoop addr w fuel ram (pre.length + 1)) := by
  have nonempty : r.size ≠ 0 := by omega
  have overlap : (addr ≤ r.addr ∧ w > r.addr) ∨ (addr ≥ r.addr ∧ addr < r.addr + r.size) ∨
      (w ≥ r.addr ∧ w < r.addr + r.size) := by omega
  have upper : (if w > r.addr + r.size then w else r.addr + r.size) = r.addr + r.size :=
    if_neg (by omega)
  have lower : (if addr < r.addr then addr else r.addr) = r.addr := if_neg (by omega)
  have head : ¬ addr = r.addr := by omega
  have partly : ¬ r.addr + r.size = w := by omega
  have back : paddr (r.addr + r.size - w) = r.addr + r.size - w := paddr_of_lt short
  have start : paddr w = w := paddr_of_lt (past.trans fits)
  simp [allocLoop, nonempty, overlap, upper, lower, head, partly, back, start]

theorem sizes_replaced {q : RamEntry} (sep : Separated ((pre ++ r :: rest).map RamEntry.span))
    (nonempty : q.size ≠ 0) : ∀ u ∈ pre ++ q :: rest, u.size ≠ 0 := by
  have sizes := size_ne_zero_of_separated sep
  intro u mem
  rcases List.mem_append.mp mem with mem | mem
  · exact sizes u (List.mem_append_left _ mem)
  · rcases List.mem_cons.mp mem with rfl | mem
    · exact nonempty
    · exact sizes u (List.mem_append_right _ (List.mem_cons_of_mem _ mem))

/-- What `add_mem` leaves of such a list. -/
theorem addMem_shortened {ram : List RamEntry} {w size : Nat} (term : t.size = 0)
    (sep : Separated ((pre ++ r :: rest).map RamEntry.span)) (low : r.addr < addr)
    (pos : 0 < size)
    (call : addMem (pre ++ ⟨r.addr, addr - r.addr⟩ :: (rest ++ [t])) w size = .ok ram) :
    ∃ es, ram = es ++ [t] ∧ Separated (es.map RamEntry.span) ∧
      denote (es.map RamEntry.span) =
        denote ((pre ++ ⟨r.addr, addr - r.addr⟩ :: rest).map RamEntry.span) ∪
          Set.Ico w (w + size) := by
  have asc : Ascending ((pre ++ (⟨r.addr, addr - r.addr⟩ : RamEntry) :: rest).map
      RamEntry.span) := by
    have ascending := sep.ascending
    simp only [Ascending, List.map_append, List.map_cons, List.pairwise_append, List.pairwise_cons,
      List.mem_cons, forall_eq_or_imp, RamEntry.span] at ascending ⊢
    exact ascending
  have slots : pre ++ (⟨r.addr, addr - r.addr⟩ : RamEntry) :: (rest ++ [t]) =
      (pre ++ ⟨r.addr, addr - r.addr⟩ :: rest) ++ [t] := by simp
  rw [slots] at call
  exact addMem_ascending (sizes_replaced sep (by simp only; omega)) asc term pos call

theorem mem_replaced {q : RamEntry} {x : Nat}
    (same : q.addr ≤ x ∧ x < q.addr + q.size ↔ r.addr ≤ x ∧ x < r.addr + r.size) :
    x ∈ denote ((pre ++ q :: rest).map RamEntry.span) ↔
      x ∈ denote ((pre ++ r :: rest).map RamEntry.span) := by
  simp only [List.map_append, List.map_cons, denote_append, denote_cons, Set.mem_union,
    RamEntry.span, Span.mem_toSet, same]

theorem mem_shortened {w x : Nat} (past : w < addr) (low : r.addr < addr)
    (inside : w < r.addr + r.size) (above : addr ≤ x) :
    x ∈ denote ((pre ++ ⟨r.addr, addr - r.addr⟩ :: rest).map RamEntry.span) ∪
        Set.Ico w (w + (r.addr + r.size - w)) ↔
      x ∈ denote ((pre ++ r :: rest).map RamEntry.span) := by
  have gone : ¬ (r.addr ≤ x ∧ x < r.addr + (addr - r.addr)) := by omega
  have back : w ≤ x ∧ x < w + (r.addr + r.size - w) ↔ r.addr ≤ x ∧ x < r.addr + r.size := by omega
  simp only [List.map_append, List.map_cons, denote_append, denote_cons, Set.mem_union,
    RamEntry.span, Span.mem_toSet, Set.mem_Ico, gone, back, false_or]
  rw [or_assoc, or_comm (b := r.addr ≤ x ∧ x < r.addr + r.size)]

/-- The entry that begins where the block does ends up as one from `w` on. -/
theorem allocLoop_past_head {ram : List RamEntry} {w : Nat} (past : w < addr)
    (sep : Separated ((pre ++ r :: rest).map RamEntry.span)) (term : t.size = 0)
    (head : r.addr = addr)
    (call : allocLoop addr w (fuel + 1) (pre ++ r :: (rest ++ [t])) pre.length = .ok ram) :
    ram = (pre ++ ⟨w, r.addr + r.size - w⟩ :: rest) ++ [t] := by
  subst head
  have nonempty : r.size ≠ 0 := size_ne_zero_of_separated sep r (by simp)
  have overlap : (r.addr ≤ r.addr ∧ w > r.addr) ∨ (r.addr ≥ r.addr ∧ r.addr < r.addr + r.size) ∨
      (w ≥ r.addr ∧ w < r.addr + r.size) := by omega
  have upper : (if w > r.addr + r.size then w else r.addr + r.size) = r.addr + r.size :=
    if_neg (by omega)
  have partly : ¬ w = r.addr + r.size := by omega
  have step : allocLoop r.addr w (fuel + 1) (pre ++ r :: (rest ++ [t])) pre.length =
      allocLoop r.addr w fuel (pre ++ ⟨w, r.addr + r.size - w⟩ :: (rest ++ [t]))
        (pre.length + 1) := by
    have inside : 0 < r.size ∨ r.addr ≤ w ∧ w < r.addr + r.size := by omega
    simp [allocLoop, nonempty, inside, upper, partly]
  rw [step] at call
  refine (allocLoop_idle (fun q mem => ?_) call).trans (by simp)
  have later : q ∈ rest ++ [t] := by simpa using mem
  rcases List.mem_append.mp later with behind | last
  · rw [List.map_append, List.map_cons] at sep
    have gap := sep.of_append_right.head_gap q.span (List.mem_map_of_mem behind)
    simp only [RamEntry.span] at gap
    omega
  · rw [List.mem_singleton.mp last]
    omega

/-- A block that goes on past `2 ^ 32` takes nothing from its start on out of the free list. -/
theorem allocLoop_past_keeps {es ram : List RamEntry} {w i : Nat} (past : w < addr) (pos : 0 < w)
    (fits : addr < PADDR_SPACE) (term : t.size = 0) (sep : Separated (es.map RamEntry.span))
    (bounded : ∀ r ∈ es, r.addr + r.size ≤ PADDR_SPACE)
    (call : allocLoop addr w fuel (es ++ [t]) i = .ok ram) :
    (∀ x, addr ≤ x → (x ∈ freeSet ram ↔ x ∈ denote (es.map RamEntry.span))) ∧
      (addr ∉ denote (es.map RamEntry.span) → ∃ es', RamTable ram es') := by
  induction fuel generalizing es i with
  | zero => cases call
  | succ fuel ih =>
    have sizes := size_ne_zero_of_separated sep
    have idle : allocLoop addr w (fuel + 1) (es ++ [t]) i = .ok (es ++ [t]) →
        (∀ x, addr ≤ x → (x ∈ freeSet ram ↔ x ∈ denote (es.map RamEntry.span))) ∧
          (addr ∉ denote (es.map RamEntry.span) → ∃ es', RamTable ram es') := by
      intro done
      rw [done] at call
      cases call
      rw [freeSet_append term sizes]
      exact ⟨fun x _ => Iff.rfl, fun _ => ⟨es, ⟨t, term, rfl⟩, sep, bounded⟩⟩
    rcases Nat.lt_or_ge i es.length with within | behind
    swap
    · refine idle ?_
      rcases behind.lt_or_eq with past | rfl
      · rw [allocLoop, List.getElem?_eq_none (by
          rw [List.length_append, List.length_singleton]
          omega)]
      · exact allocLoop_terminator term
    obtain ⟨pre, r, rest, rfl, rfl⟩ : ∃ pre r rest, es = pre ++ r :: rest ∧ pre.length = i :=
      ⟨es.take i, es[i], es.drop (i + 1), by simp, by simp; omega⟩
    have slots : pre ++ r :: rest ++ [t] = pre ++ r :: (rest ++ [t]) := by simp
    rw [slots] at call
    have nonempty : r.size ≠ 0 := sizes r (by simp)
    have below := bounded r (by simp)
    by_cases touched : r.addr ≤ addr ∧ addr < r.addr + r.size ∨
        r.addr ≤ w ∧ w < r.addr + r.size
    swap
    · have step : allocLoop addr w (fuel + 1) (pre ++ r :: (rest ++ [t])) pre.length =
          allocLoop addr w fuel (pre ++ r :: (rest ++ [t])) (pre.length + 1) := by
        have outside : ¬ ((addr ≤ r.addr ∧ w > r.addr) ∨
            (addr ≥ r.addr ∧ addr < r.addr + r.size) ∨
            (w ≥ r.addr ∧ w < r.addr + r.size)) := by omega
        simp [allocLoop, nonempty, outside]
      rw [step, ← slots] at call
      exact ih sep bounded call
    rcases Nat.lt_or_ge r.addr addr with low | head
    · rw [allocLoop_past_back past low (by omega) fits (by omega)] at call
      obtain ⟨mid, added, call⟩ := Except.bind_eq_ok.mp call
      obtain ⟨es', rfl, sep', free⟩ := addMem_shortened term sep low (by omega) added
      have same : ∀ x, addr ≤ x → (x ∈ denote (es'.map RamEntry.span) ↔
          x ∈ denote ((pre ++ r :: rest).map RamEntry.span)) := by
        intro x above
        rw [free]
        exact mem_shortened past low (by omega) above
      have bounded' : ∀ q ∈ es', q.addr + q.size ≤ PADDR_SPACE := by
        refine (RamTable.of_separated term sep' fun x mem => ?_).bounded
        rcases Nat.lt_or_ge x addr with small | above
        · exact small.trans fits
        · obtain ⟨q, memQ, _, high⟩ := mem_denote_entries.mp ((same x above).mp mem)
          exact high.trans_le (bounded q memQ)
      obtain ⟨keeps, table⟩ := ih sep' bounded' call
      exact ⟨fun x above => (keeps x above).trans (same x above),
        fun none => table fun mem => none ((same addr le_rfl).mp mem)⟩
    · have result := allocLoop_past_head past sep term (by omega) call
      have free : addr ∈ denote ((pre ++ r :: rest).map RamEntry.span) :=
        mem_denote_entries.mpr ⟨r, by simp, by omega, by omega⟩
      refine ⟨fun x above => ?_, fun none => absurd free none⟩
      rw [result, freeSet_append term (sizes_replaced sep (by simp only; omega))]
      exact mem_replaced (by simp only; omega)


/-! A block that ends at `2 ^ 32`: the same with 0 for `w`, but an entry that reaches `2 ^ 32` too
does not come back. -/

theorem allocLoop_wrap_kept {ram : List RamEntry} (term : t.size = 0)
    (sep : Separated ((pre ++ r :: rest).map RamEntry.span)) (low : r.addr < addr)
    (touched : addr < r.addr + r.size ∨ r.addr = 0) (short : r.addr + r.size < PADDR_SPACE)
    (fits : addr < PADDR_SPACE)
    (call : allocLoop addr 0 (fuel + 1) (pre ++ r :: (rest ++ [t])) pre.length = .ok ram) :
    ∃ es, ram = es ++ [t] ∧ Separated (es.map RamEntry.span) ∧
      denote (es.map RamEntry.span) =
        denote ((pre ++ ⟨r.addr, addr - r.addr⟩ :: rest).map RamEntry.span) ∪
          Set.Ico 0 (r.addr + r.size) := by
  have nonempty : r.size ≠ 0 := size_ne_zero_of_separated sep r (by simp)
  rw [allocLoop_past_back (by omega) low (by omega) fits (by omega)] at call
  obtain ⟨mid, added, call⟩ := Except.bind_eq_ok.mp call
  obtain ⟨es, rfl, separated, free⟩ := addMem_shortened term sep low (by omega) added
  rw [Nat.zero_add, Nat.sub_zero] at free
  have below : Set.Ico 0 addr ⊆ denote (es.map RamEntry.span) := by
    rw [free]
    rintro x ⟨_, high⟩
    rcases touched with inside | zero
    · exact Or.inr ⟨Nat.zero_le _, high.trans inside⟩
    · exact Or.inl (mem_denote_entries.mpr
        ⟨⟨r.addr, addr - r.addr⟩, by simp, by simp [zero], by simpa [zero] using high⟩)
  refine ⟨es, allocLoop_idle (fun q mem => ?_) call, separated, free⟩
  rw [Nat.add_comm, ← List.drop_drop] at mem
  have later := List.mem_of_mem_drop mem
  cases es with
  | nil => exact absurd later List.not_mem_nil
  | cons first es =>
    rcases List.mem_append.mp (show q ∈ es ++ [t] from later) with behind | last
    · have above := lt_of_mem_drop_one separated below (by omega) q behind
      omega
    · rw [List.mem_singleton.mp last]
      omega

/-- The loop reaches the first entry that the block begins in or that begins at address 0. -/
theorem allocLoop_wrap_reach {es : List RamEntry}
    (sep : Separated ((pre ++ r :: es).map RamEntry.span)) (low : r.addr ≤ addr)
    (zero : ∀ q ∈ pre ++ r :: es, q.addr = 0 → addr ≤ q.size) :
    allocLoop addr 0 (pre.length + fuel) (pre ++ r :: (es ++ [t])) 0 =
      allocLoop addr 0 fuel (pre ++ r :: (es ++ [t])) pre.length := by
  have passed := @allocLoop_wrap_pass addr fuel [] (r :: (es ++ [t])) pre (fun q mem => ?_)
  · simpa using passed
  · have inside : q ∈ pre ++ r :: es := List.mem_append_left _ mem
    have nonempty := size_ne_zero_of_separated sep q inside
    have unaligned := zero q inside
    rw [List.map_append, List.map_cons] at sep
    have gap := sep.gap_append q.span (List.mem_map_of_mem mem) r.span List.mem_cons_self
    simp only [RamEntry.span] at gap
    exact ⟨nonempty, by omega, Or.inr (by omega)⟩

theorem allocLoop_wrap_fill {ram : List RamEntry} (term : t.size = 0)
    (sep : Separated ((r :: rest).map RamEntry.span)) (zero : r.addr = 0) (short : r.size < addr)
    (fits : addr < PADDR_SPACE)
    (call : allocLoop addr 0 (fuel + 1) (r :: (rest ++ [t])) 0 = .ok ram) :
    ∃ es, ram = es ++ [t] ∧ Separated (es.map RamEntry.span) ∧
      denote (es.map RamEntry.span) = denote ((r :: rest).map RamEntry.span) ∪ Set.Ico 0 addr := by
  have nonempty := size_ne_zero_of_separated sep r List.mem_cons_self
  obtain ⟨es, rfl, separated, free⟩ := @allocLoop_wrap_kept _ _ [] _ _ _ _ term sep (by omega)
      (Or.inr zero) (by omega) fits call
  refine ⟨es, rfl, separated, free.trans ?_⟩
  ext x
  simp only [List.nil_append, List.map_cons, denote_cons, RamEntry.span, Span.mem_toSet,
    Set.mem_union, Set.mem_Ico]
  constructor
  · rintro ((mem | mem) | mem)
    · exact Or.inr (by omega)
    · exact Or.inl (Or.inr mem)
    · exact Or.inl (Or.inl (by omega))
  · rintro ((mem | mem) | mem)
    · exact Or.inr (by omega)
    · exact Or.inl (Or.inr mem)
    · exact Or.inl (Or.inl (by omega))

/-- Free memory from address 0 on that ends below the block: what is free at the top stays. -/
theorem allocLoop_wrap_below {ram ram' es : List RamEntry} (table : RamTable ram es)
    (fits : addr < PADDR_SPACE) (below : ∃ r ∈ es, r.addr = 0 ∧ r.size < addr)
    (call : allocLoop addr 0 (2 * ram.length + 2) ram 0 = .ok ram') :
    (∃ es', RamTable ram' es') ∧ freeSet ram' = freeSet ram ∪ Set.Ico 0 addr ∧
      (RemovedToTop (freeSet ram) addr ↔ Disjoint (freeSet ram) (Set.Ico addr PADDR_SPACE)) := by
  obtain ⟨r, mem, zero, short⟩ := below
  have separated := table.separated
  have free := table.freeSet
  have inside := table.freeSet_lt
  obtain ⟨t, term, rfl⟩ := table.slots
  -- nothing is sorted before the entry at address 0
  obtain ⟨rest, rfl⟩ : ∃ rest, es = r :: rest := by
    obtain ⟨first, rest, rfl⟩ := List.exists_cons_of_ne_nil (List.ne_nil_of_mem mem)
    rcases List.mem_cons.mp mem with rfl | behind
    · exact ⟨rest, rfl⟩
    · have gap := separated.head_gap r.span (List.mem_map_of_mem behind)
      simp only [RamEntry.span] at gap
      omega
  obtain ⟨es', rfl, separated', free'⟩ := allocLoop_wrap_fill
    term separated zero short fits call
  rw [← free] at free'
  have total := freeSet_append term (size_ne_zero_of_separated separated')
  refine ⟨⟨es', RamTable.of_separated term separated' ?_⟩, total.trans free', ?_, Or.inl⟩
  · rw [free']
    rintro x (mem | ⟨_, high⟩)
    · exact inside mem
    · exact high.trans fits
  · rintro (none | ⟨top, all⟩)
    · exact none
    · have start : 0 ∈ freeSet (r :: rest ++ [t]) := by
        rw [free]
        have := size_ne_zero_of_separated separated r List.mem_cons_self
        exact mem_denote_entries.mpr ⟨r, List.mem_cons_self, by omega, by omega⟩
      have gap : r.addr + r.size ∈ freeSet (r :: rest ++ [t]) :=
        all start ⟨Nat.zero_le _, by omega⟩
      rw [free] at gap
      exact absurd gap separated.head_hi_not_mem

/-- A block that begins in an entry and is not its end up to `2 ^ 32` stays free. -/
theorem allocLoop_wrap_stays {ram ram' es : List RamEntry} {r : RamEntry} (table : RamTable ram es)
    (pos : 0 < addr) (zero : ∀ q ∈ es, q.addr = 0 → addr ≤ q.size) (mem : r ∈ es)
    (low : r.addr ≤ addr) (high : addr < r.addr + r.size)
    (other : r.addr = addr ∨ r.addr + r.size < PADDR_SPACE)
    (call : allocLoop addr 0 (2 * ram.length + 2) ram 0 = .ok ram') : addr ∈ freeSet ram' := by
  have separated := table.separated
  have bounded := table.bounded r mem
  obtain ⟨t, term, rfl⟩ := table.slots
  obtain ⟨pre, rest, rfl⟩ := List.append_of_mem mem
  obtain ⟨fuel, count⟩ : ∃ fuel, 2 * (pre ++ r :: rest ++ [t]).length + 2 =
      pre.length + (fuel + 1) := by
    refine ⟨2 * (pre ++ r :: rest ++ [t]).length + 1 - pre.length, ?_⟩
    simp only [List.length_append, List.length_cons, List.length_nil]
    omega
  have slots : pre ++ r :: rest ++ [t] = pre ++ r :: (rest ++ [t]) := by simp
  rw [count, slots, allocLoop_wrap_reach separated low zero] at call
  rcases Nat.lt_or_ge r.addr addr with inside | head
  · obtain ⟨es', rfl, separated', free⟩ := allocLoop_wrap_kept term separated inside (Or.inl high)
      (by omega) (by omega) call
    rw [freeSet_append term (size_ne_zero_of_separated separated'), free]
    exact Or.inr ⟨Nat.zero_le _, high⟩
  · have result := allocLoop_past_head pos separated term (by omega) call
    rw [result, freeSet_append term (sizes_replaced separated (by simp only; omega))]
    exact mem_denote_entries.mpr
      ⟨⟨0, r.addr + r.size - 0⟩, by simp, Nat.zero_le _, by simpa using high⟩

/-- A block up to `2 ^ 32` is removed exactly if `RemovedToTop`. -/
theorem allocLoop_wrap_removes_iff {ram ram' es : List RamEntry} (table : RamTable ram es)
    (pos : 0 < addr) (fits : addr < PADDR_SPACE)
    (call : allocLoop addr 0 (2 * ram.length + 2) ram 0 = .ok ram') :
    (RemovedToTop (freeSet ram) addr → ∃ es', RamTable ram' es') ∧
      (Disjoint (freeSet ram') (Set.Ico addr PADDR_SPACE) ↔ RemovedToTop (freeSet ram) addr) := by
  by_cases below : ∃ r ∈ es, r.addr = 0 ∧ r.size < addr
  · obtain ⟨table', free', removed⟩ := allocLoop_wrap_below table fits below call
    refine ⟨fun _ => table', ?_⟩
    rw [removed, free', Set.disjoint_union_left]
    refine and_iff_left (Set.disjoint_left.mpr ?_)
    rintro x ⟨_, high⟩ ⟨low, _⟩
    omega
  have zero : ∀ q ∈ es, q.addr = 0 → addr ≤ q.size := fun q mem start =>
    not_lt.mp fun short => below ⟨q, mem, start, short⟩
  have separated := table.separated
  by_cases inside : ∀ r ∈ es, r.addr ≤ addr → addr < r.addr + r.size →
      r.addr < addr ∧ r.addr + r.size = PADDR_SPACE
  · obtain ⟨ram₁, es', call', table', free'⟩ | ⟨crash, _⟩ :=
      allocLoop_wrap table pos fits inside zero
    swap
    · rw [crash] at call
      cases call
    rw [call] at call'
    cases call'
    refine ⟨fun _ => ⟨es', table'⟩, ?_⟩
    rw [table'.freeSet, free', ← table.freeSet]
    by_cases free : addr ∈ freeSet ram
    · refine iff_of_true (Set.disjoint_left.mpr fun x kept at_top => ?_) (Or.inr ⟨?_, ?_⟩)
      · exact kept.2 ⟨free, at_top.1⟩
      all_goals
        rw [table.freeSet] at free ⊢
        obtain ⟨r, mem, low, high⟩ := mem_denote_entries.mp free
        obtain ⟨low, ends⟩ := inside r mem low high
      · rintro x ⟨above, small⟩
        exact mem_denote_entries.mpr ⟨r, mem, by omega, by omega⟩
      · intro start x within
        obtain ⟨q, memQ, lowQ, _⟩ := mem_denote_entries.mp start
        have reach := zero q memQ (by omega)
        rcases entries_apart separated memQ mem with rfl | before | behind
        · exact mem_denote_entries.mpr ⟨q, mem, lowQ.trans (Nat.zero_le _), ends ▸ within.2⟩
        · omega
        · omega
    · have kept : freeSet ram \ {x | addr ∈ freeSet ram ∧ addr ≤ x} = freeSet ram := by
        simp [free]
      rw [kept]
      refine ⟨Or.inl, ?_⟩
      rintro (apart | ⟨top, _⟩)
      · exact apart
      · exact absurd (top ⟨Nat.sub_le _ _, fits⟩) free
  · push Not at inside
    obtain ⟨r, mem, low, high, other⟩ := inside
    have bounded := table.bounded r mem
    have stays := allocLoop_wrap_stays table pos zero mem low high (by omega) call
    have kept : ¬ Disjoint (freeSet ram') (Set.Ico addr PADDR_SPACE) := fun apart =>
      Set.disjoint_left.mp apart stays ⟨le_rfl, fits⟩
    have free : addr ∈ freeSet ram := by
      rw [table.freeSet]
      exact mem_denote_entries.mpr ⟨r, mem, low, high⟩
    have never : ¬ RemovedToTop (freeSet ram) addr := by
      rintro (apart | ⟨top, _⟩)
      · exact Set.disjoint_left.mp apart free ⟨le_rfl, fits⟩
      · rw [table.freeSet] at top
        rcases low.lt_or_eq with strict | head
        · -- the first address behind the entry
          have gap := top (show r.addr + r.size ∈ Set.Ico (addr - 1) PADDR_SPACE from
            ⟨by omega, lt_of_le_of_ne bounded (other strict)⟩)
          obtain ⟨q, memQ, _, _⟩ := mem_denote_entries.mp gap
          rcases entries_apart separated memQ mem with rfl | _ | _ <;> omega
        · -- the last address before it
          have gap := top (show addr - 1 ∈ Set.Ico (addr - 1) PADDR_SPACE from
            ⟨le_rfl, by omega⟩)
          obtain ⟨q, memQ, _, _⟩ := mem_denote_entries.mp gap
          rcases entries_apart separated memQ mem with rfl | _ | _ <;> omega
    exact ⟨fun removed => absurd removed never, iff_of_false kept never⟩
end WrappedBlock

end Mx6xBsp.Startup
