import Mx6xBsp.Lib.Spans
import Mx6xBsp.Startup.Ram

/-!
# The free list as a set of addresses

`add_mem` and the first loop of `alloc_ram` edit `ram_list` in place. Read as
spans, an addition is an insertion followed by one coalescing pass, and a
removal is a cut, so on a table in canonical form (`RamTable`) they are set
union and set difference. The canonical form of a set is unique, which settles
the split of an entry: `add_mem` puts the tail back wherever it belongs.
-/

namespace Mx6xBsp.Startup

open Spans

def RamEntry.span (r : RamEntry) : Span Nat := ⟨r.addr, r.addr + r.size⟩

/-- The entries before the terminator. -/
def live (ram : List RamEntry) : List RamEntry := ram.takeWhile fun r => r.size ≠ 0

/-- The addresses a table denotes. -/
def freeSet (ram : List RamEntry) : Set Nat := denote ((live ram).map RamEntry.span)

/-- `ram` is the entries `es` and a terminator; the entries are nonempty, sorted,
strictly separated and inside the address space. -/
structure RamTable (ram es : List RamEntry) : Prop where
  slots : ∃ t : RamEntry, t.size = 0 ∧ ram = es ++ [t]
  separated : Separated (es.map RamEntry.span)
  bounded : ∀ r ∈ es, r.addr + r.size ≤ PADDR_SPACE

/-- A call on a table of `n` entries leaves a canonical table that denotes `free`,
unless it finds the table full. -/
def TableOutcome (out : Except Crash (List RamEntry)) (free : Set Nat) (n : Nat) : Prop :=
  (∃ ram es, out = .ok ram ∧ RamTable ram es ∧ denote (es.map RamEntry.span) = free) ∨
    (out = .error .ramEntryArrayOverflow ∧ 191 ≤ n)

theorem RamEntry.span_injective : Function.Injective RamEntry.span := by
  rintro ⟨a, m⟩ ⟨b, n⟩ same
  simp only [RamEntry.span, Span.mk.injEq] at same
  obtain ⟨rfl, sizes⟩ := same
  rw [Nat.add_left_cancel sizes]

theorem mem_denote_entries {es : List RamEntry} {x : Nat} :
    x ∈ denote (es.map RamEntry.span) ↔ ∃ r ∈ es, r.addr ≤ x ∧ x < r.addr + r.size := by
  simp only [mem_denote, List.mem_map, exists_exists_and_eq_and]
  rfl

theorem entries_apart {es : List RamEntry} (sep : Separated (es.map RamEntry.span))
    {q r : RamEntry} (memQ : q ∈ es) (memR : r ∈ es) :
    q = r ∨ q.addr + q.size < r.addr ∨ r.addr + r.size < q.addr := by
  obtain ⟨pre, post, rfl⟩ := List.append_of_mem memR
  rw [List.map_append, List.map_cons] at sep
  rcases List.mem_append.mp memQ with before | behind
  · exact Or.inr (Or.inl (sep.gap_append _ (List.mem_map_of_mem before) _ List.mem_cons_self))
  · rcases List.mem_cons.mp behind with same | behind
    · exact Or.inl same
    · exact Or.inr (Or.inr (sep.of_append_right.head_gap _ (List.mem_map_of_mem behind)))

theorem size_ne_zero_of_separated {es : List RamEntry}
    (sep : Separated (es.map RamEntry.span)) : ∀ r ∈ es, r.size ≠ 0 := by
  intro r mem
  have nonempty := sep.nonempty r.span (List.mem_map_of_mem mem)
  simp only [RamEntry.span] at nonempty
  omega

theorem live_append {es : List RamEntry} {t : RamEntry} (sizes : ∀ r ∈ es, r.size ≠ 0)
    (term : t.size = 0) : live (es ++ [t]) = es := by
  unfold live
  rw [List.takeWhile_append_of_pos (fun r mem => by simpa using sizes r mem)]
  simp [term]

theorem RamTable.live {ram es : List RamEntry} (table : RamTable ram es) :
    live ram = es := by
  obtain ⟨t, term, rfl⟩ := table.slots
  exact live_append (size_ne_zero_of_separated table.separated) term

theorem RamTable.freeSet {ram es : List RamEntry} (table : RamTable ram es) :
    freeSet ram = denote (es.map RamEntry.span) := by
  rw [Startup.freeSet, table.live]

theorem RamTable.length {ram es : List RamEntry} (table : RamTable ram es) :
    ram.length = es.length + 1 := by
  obtain ⟨t, _, rfl⟩ := table.slots
  simp

/-! ## `add_mem` -/

theorem insertEntry_slots {start size : Nat} {es : List RamEntry} {t : RamEntry}
    (sizes : ∀ r ∈ es, r.size ≠ 0) (term : t.size = 0) (pos : size ≠ 0) :
    ∃ es' : List RamEntry, insertEntry start size (es ++ [t]) = es' ++ [t] ∧
      es'.map RamEntry.span = insertLo ⟨start, start + size⟩ (es.map RamEntry.span) ∧
      ∀ r ∈ es', r.size ≠ 0 := by
  induction es with
  | nil =>
    refine ⟨[⟨start, size⟩], ?_, rfl, by simpa using pos⟩
    simp [insertEntry, term]
  | cons r es ih =>
    obtain ⟨here, there⟩ := List.forall_mem_cons.mp sizes
    by_cases below : r.addr ≤ start
    · obtain ⟨es', slots, spans, sizes'⟩ := ih there
      refine ⟨r :: es', ?_, ?_, List.forall_mem_cons.mpr ⟨here, sizes'⟩⟩
      · rw [List.cons_append, insertEntry, if_pos ⟨here, below⟩, slots, List.cons_append]
      · rw [List.map_cons, List.map_cons, spans, insertLo, if_pos (by exact below)]
    · refine ⟨⟨start, size⟩ :: r :: es, ?_, ?_, List.forall_mem_cons.mpr ⟨pos, sizes⟩⟩
      · rw [List.cons_append, insertEntry, if_neg (fun h => below h.2)]
        rfl
      · rw [List.map_cons, List.map_cons, insertLo, if_neg (by exact below)]
        rfl

theorem mergeEntries_touch {p r : RamEntry} {rest : List RamEntry} (nonempty : r.size ≠ 0)
    (touch : r.addr ≤ p.addr + p.size) :
    mergeEntries p (r :: rest) =
      mergeEntries ⟨p.addr, max (p.addr + p.size) (r.addr + r.size) - p.addr⟩ rest := by
  have stops : (if r.addr + r.size > p.addr + p.size then r.addr + r.size
      else p.addr + p.size) = max (p.addr + p.size) (r.addr + r.size) := by
    split <;> omega
  simp only [mergeEntries, if_neg nonempty, if_pos touch, stops]

theorem mergeEntries_apart {p r : RamEntry} {rest : List RamEntry} (nonempty : r.size ≠ 0)
    (apart : ¬ r.addr ≤ p.addr + p.size) :
    mergeEntries p (r :: rest) = p :: mergeEntries r rest := by
  simp only [mergeEntries, if_neg nonempty, if_neg apart]

theorem mergeEntries_slots {p : RamEntry} {es : List RamEntry} {t : RamEntry}
    (sizes : ∀ r ∈ es, r.size ≠ 0) (term : t.size = 0) :
    ∃ es' : List RamEntry, mergeEntries p (es ++ [t]) = es' ++ [t] ∧
      es'.map RamEntry.span = coalesceFrom p.span (es.map RamEntry.span) := by
  induction es generalizing p with
  | nil =>
    refine ⟨[p], ?_, rfl⟩
    simp [mergeEntries, term]
  | cons r es ih =>
    obtain ⟨here, there⟩ := List.forall_mem_cons.mp sizes
    rw [List.cons_append, List.map_cons, coalesceFrom]
    by_cases touch : r.addr ≤ p.addr + p.size
    · rw [mergeEntries_touch here touch, if_pos (show r.span.lo ≤ p.span.hi from touch)]
      obtain ⟨es', slots, spans⟩ :=
        ih (p := ⟨p.addr, max (p.addr + p.size) (r.addr + r.size) - p.addr⟩) there
      refine ⟨es', slots, spans.trans ?_⟩
      congr 1
      simp only [RamEntry.span, Span.mk.injEq, true_and]
      omega
    · rw [mergeEntries_apart here touch, if_neg (show ¬ r.span.lo ≤ p.span.hi from touch)]
      obtain ⟨es', slots, spans⟩ := ih (p := r) there
      refine ⟨p :: es', ?_, ?_⟩
      · rw [slots, List.cons_append]
      · rw [List.map_cons, spans]

theorem hi_le_of_mem_insertLo_coalesce {n : Span Nat} {l : List (Span Nat)} {bound : Nat}
    (sep : Separated l) (nonempty : n.lo < n.hi) (new : n.hi ≤ bound)
    (old : ∀ s ∈ l, s.hi ≤ bound) : ∀ s ∈ coalesce (insertLo n l), s.hi ≤ bound := by
  intro s mem
  have canonical := separated_coalesce_insertLo sep nonempty
  have inside : s.hi - 1 ∈ denote (coalesce (insertLo n l)) := by
    have := canonical.nonempty s mem
    exact ⟨s, mem, by omega, by omega⟩
  rw [denote_coalesce_insertLo sep] at inside
  rcases inside with ⟨t, memT, _, below⟩ | ⟨_, below⟩
  · have := old t memT
    omega
  · omega

/-- `add_mem` is set union. -/
theorem addMem_table {ram es : List RamEntry} {start size : Nat} (table : RamTable ram es)
    (pos : 0 < size) (fits : start + size ≤ PADDR_SPACE) :
    TableOutcome (addMem ram start size)
      (denote (es.map RamEntry.span) ∪ Set.Ico start (start + size)) es.length := by
  rw [addMem, if_pos pos, table.length]
  by_cases full : 191 ≤ es.length
  · right
    rw [if_pos (by simp only [MAX_RAM_LIST_SIZE]; omega)]
    exact ⟨rfl, full⟩
  · left
    rw [if_neg (by simp only [MAX_RAM_LIST_SIZE]; omega)]
    obtain ⟨t, term, rfl⟩ := table.slots
    obtain ⟨mid, inserted, spans, sizes⟩ :=
      insertEntry_slots (size_ne_zero_of_separated table.separated) term
        (by omega : size ≠ 0)
    rw [inserted]
    have canonical := separated_coalesce_insertLo (n := ⟨start, start + size⟩) table.separated
      (show start < start + size by omega)
    have below := hi_le_of_mem_insertLo_coalesce (n := ⟨start, start + size⟩) table.separated
      (show start < start + size by omega) fits
      (by
        intro s mem
        obtain ⟨r, memR, rfl⟩ := List.mem_map.mp mem
        exact table.bounded r memR)
    cases mid with
    | nil =>
      have mem : (⟨start, start + size⟩ : Span Nat) ∈
          insertLo ⟨start, start + size⟩ (es.map RamEntry.span) :=
        mem_insertLo.mpr (Or.inl rfl)
      rw [← spans] at mem
      exact absurd mem List.not_mem_nil
    | cons p mid =>
      obtain ⟨_, later⟩ := List.forall_mem_cons.mp sizes
      obtain ⟨es', merged, coalesced⟩ := mergeEntries_slots (p := p) later term
      have result : es'.map RamEntry.span =
          coalesce (insertLo ⟨start, start + size⟩ (es.map RamEntry.span)) := by
        rw [← spans, coalesced, List.map_cons, coalesce]
      refine ⟨es' ++ [t], es', ?_, ⟨⟨t, term, rfl⟩, result ▸ canonical, fun r mem => ?_⟩, ?_⟩
      · rw [List.cons_append]
        simp only [merged]
      · exact below r.span (result ▸ List.mem_map_of_mem mem)
      · rw [result, denote_coalesce_insertLo table.separated]
        rfl

/-! ## The first loop of `alloc_ram`

One lemma for each shape an entry `r` can have against `[addr, stop)`. The loop
stands at `r`, behind the entries `pre` it has passed. -/

section AllocLoop

variable {addr stop fuel : Nat} {pre rest : List RamEntry} {r t : RamEntry}

theorem allocLoop_terminator (term : r.size = 0) :
    allocLoop addr stop (fuel + 1) (pre ++ r :: rest) pre.length = .ok (pre ++ r :: rest) := by
  simp [allocLoop, term]

theorem allocLoop_apart (nonempty : r.size ≠ 0) (ordered : addr ≤ stop)
    (apart : stop < r.addr ∨ r.addr + r.size ≤ addr) :
    allocLoop addr stop (fuel + 1) (pre ++ r :: rest) pre.length =
      allocLoop addr stop fuel ((pre ++ [r]) ++ rest) (pre ++ [r]).length := by
  have outside : ¬ ((addr ≤ r.addr ∧ stop > r.addr) ∨
      (addr ≥ r.addr ∧ addr < r.addr + r.size) ∨
      (stop ≥ r.addr ∧ stop < r.addr + r.size)) := by omega
  simp [allocLoop, nonempty, outside]

theorem allocLoop_cover (nonempty : r.size ≠ 0) (low : addr ≤ r.addr)
    (high : r.addr + r.size ≤ stop) :
    allocLoop addr stop (fuel + 1) (pre ++ r :: rest) pre.length =
      allocLoop addr stop fuel (pre ++ rest) pre.length := by
  have overlap : (addr ≤ r.addr ∧ stop > r.addr) ∨
      (addr ≥ r.addr ∧ addr < r.addr + r.size) ∨
      (stop ≥ r.addr ∧ stop < r.addr + r.size) := by omega
  have lower : (if addr < r.addr then addr else r.addr) = addr := by split <;> omega
  have upper : (if stop > r.addr + r.size then stop else r.addr + r.size) = stop := by
    split <;> omega
  simp [allocLoop, nonempty, overlap, lower, upper, List.eraseIdx_append_of_length_le]

theorem allocLoop_head (low : addr ≤ r.addr) (inside : r.addr ≤ stop)
    (short : stop < r.addr + r.size) :
    allocLoop addr stop (fuel + 1) (pre ++ r :: rest) pre.length =
      allocLoop addr stop fuel ((pre ++ [(⟨stop, r.addr + r.size - stop⟩ : RamEntry)]) ++ rest)
        (pre ++ [(⟨stop, r.addr + r.size - stop⟩ : RamEntry)]).length := by
  have nonempty : r.size ≠ 0 := by omega
  have overlap : (addr ≤ r.addr ∧ stop > r.addr) ∨
      (addr ≥ r.addr ∧ addr < r.addr + r.size) ∨
      (stop ≥ r.addr ∧ stop < r.addr + r.size) := by omega
  have lower : (if addr < r.addr then addr else r.addr) = addr := by split <;> omega
  have upper : (if stop > r.addr + r.size then stop else r.addr + r.size) =
      r.addr + r.size := if_neg (by omega)
  have whole : ¬ stop = r.addr + r.size := by omega
  simp [allocLoop, nonempty, overlap, lower, upper, whole]

theorem allocLoop_tail (low : r.addr < addr) (inside : addr < r.addr + r.size)
    (long : r.addr + r.size ≤ stop) :
    allocLoop addr stop (fuel + 1) (pre ++ r :: rest) pre.length =
      allocLoop addr stop fuel ((pre ++ [(⟨r.addr, addr - r.addr⟩ : RamEntry)]) ++ rest)
        (pre ++ [(⟨r.addr, addr - r.addr⟩ : RamEntry)]).length := by
  have nonempty : r.size ≠ 0 := by omega
  have overlap : (addr ≤ r.addr ∧ stop > r.addr) ∨
      (addr ≥ r.addr ∧ addr < r.addr + r.size) ∨
      (stop ≥ r.addr ∧ stop < r.addr + r.size) := by omega
  have lower : (if addr < r.addr then addr else r.addr) = r.addr := if_neg (by omega)
  have upper : (if stop > r.addr + r.size then stop else r.addr + r.size) = stop := by
    split <;> omega
  have head : ¬ addr = r.addr := by omega
  simp [allocLoop, nonempty, overlap, lower, upper, head]

/-- The block leaves both ends of the entry; the tail goes back through `add_mem`. -/
theorem allocLoop_split (low : r.addr < addr) (ordered : addr ≤ stop)
    (short : stop < r.addr + r.size) (bounded : r.addr + r.size ≤ PADDR_SPACE) :
    allocLoop addr stop (fuel + 1) (pre ++ r :: rest) pre.length =
      (addMem (pre ++ ⟨r.addr, addr - r.addr⟩ :: rest) stop (r.addr + r.size - stop) >>=
        fun ram => allocLoop addr stop fuel ram (pre.length + 1)) := by
  have nonempty : r.size ≠ 0 := by omega
  have overlap : (addr ≤ r.addr ∧ stop > r.addr) ∨
      (addr ≥ r.addr ∧ addr < r.addr + r.size) ∨
      (stop ≥ r.addr ∧ stop < r.addr + r.size) := by omega
  have lower : (if addr < r.addr then addr else r.addr) = r.addr := if_neg (by omega)
  have upper : (if stop > r.addr + r.size then stop else r.addr + r.size) =
      r.addr + r.size := if_neg (by omega)
  have head : ¬ addr = r.addr := by omega
  have tail : ¬ r.addr + r.size = stop := by omega
  have start : paddr stop = stop := paddr_of_lt (by omega)
  have size : paddr (r.addr + r.size - stop) = r.addr + r.size - stop := paddr_of_lt (by omega)
  simp [allocLoop, nonempty, overlap, lower, upper, head, tail, start, size]

theorem allocLoop_above {todo : List RamEntry} (term : t.size = 0) (ordered : addr ≤ stop)
    (above : ∀ r ∈ todo, r.size ≠ 0 ∧ stop ≤ r.addr) (enough : todo.length < fuel) :
    allocLoop addr stop fuel (pre ++ (todo ++ [t])) pre.length =
      .ok (pre ++ (todo ++ [t])) := by
  induction todo generalizing pre fuel with
  | nil =>
    obtain ⟨fuel, rfl⟩ := Nat.exists_eq_succ_of_ne_zero (by omega : fuel ≠ 0)
    exact allocLoop_terminator term
  | cons r todo ih =>
    obtain ⟨fuel, rfl⟩ := Nat.exists_eq_succ_of_ne_zero (by omega : fuel ≠ 0)
    obtain ⟨⟨nonempty, low⟩, later⟩ := List.forall_mem_cons.mp above
    have enough' : todo.length < fuel := by
      simpa using enough
    have rest := @ih _ (pre ++ [r]) later enough'
    rw [List.cons_append]
    rcases Nat.lt_or_ge stop r.addr with apart | touch
    · rw [allocLoop_apart nonempty ordered (Or.inl apart), rest]
      simp
    · have same : (⟨stop, r.addr + r.size - stop⟩ : RamEntry) = r := by
        cases r
        simp only [RamEntry.mk.injEq] at *
        omega
      rw [allocLoop_head (by omega) touch (by omega), same, rest]
      simp

theorem denote_step {r' : RamEntry} {block : Set Nat}
    (piece : r'.span.toSet = r.span.toSet \ block) :
    denote ((pre ++ [r']).map RamEntry.span) ∪ (denote (rest.map RamEntry.span) \ block) =
      denote (pre.map RamEntry.span) ∪ (denote ((r :: rest).map RamEntry.span) \ block) := by
  simp only [List.map_append, List.map_cons, List.map_nil, denote_append, denote_cons, denote_nil,
    Set.union_empty, piece, Set.union_sdiff_distrib, Set.union_assoc]

/-- The entry splits: `add_mem` puts the tail behind the head, or joins the two
again when the block is empty, and the loop changes nothing more. -/
theorem allocLoop_split_table {todo : List RamEntry} (term : t.size = 0)
    (head : r.addr < addr) (ordered : addr ≤ stop) (tail : stop < r.addr + r.size)
    (sep : Separated (pre.map RamEntry.span ++ r.span :: todo.map RamEntry.span))
    (bounded : ∀ q ∈ pre ++ r :: todo, q.addr + q.size ≤ PADDR_SPACE)
    (enough : todo.length + 1 < fuel) :
    TableOutcome (allocLoop addr stop (fuel + 1) (pre ++ r :: (todo ++ [t])) pre.length)
      (denote (pre.map RamEntry.span) ∪
        (denote ((r :: todo).map RamEntry.span) \ Set.Ico addr stop))
      (pre ++ r :: todo).length := by
  have bound : r.addr + r.size ≤ PADDR_SPACE :=
    bounded r (List.mem_append_right _ List.mem_cons_self)
  have above : ∀ q ∈ todo, q.size ≠ 0 ∧ stop ≤ q.addr := by
    intro q mem
    have gap := sep.of_append_right.head_gap q.span (List.mem_map_of_mem mem)
    have size := sep.of_append_right.tail.nonempty q.span (List.mem_map_of_mem mem)
    simp only [RamEntry.span] at gap size
    omega
  have headTable : RamTable (pre ++ ⟨r.addr, addr - r.addr⟩ :: (todo ++ [t]))
      (pre ++ ⟨r.addr, addr - r.addr⟩ :: todo) := by
    refine ⟨⟨t, term, by simp⟩, ?_, fun q mem => ?_⟩
    · have := sep.replace (t := (⟨r.addr, addr⟩ : Span Nat)) head le_rfl (by
        simp only [RamEntry.span]
        omega)
      simpa [RamEntry.span, Nat.add_sub_cancel' head.le] using this
    · rcases List.mem_append.mp mem with mem | mem
      · exact bounded q (List.mem_append_left _ mem)
      · rcases List.mem_cons.mp mem with rfl | mem
        · simp only
          omega
        · exact bounded q (List.mem_append_right _ (List.mem_cons_of_mem _ mem))
  have untouched : denote (todo.map RamEntry.span) \ Set.Ico addr stop =
      denote (todo.map RamEntry.span) := by
    refine (Set.disjoint_left.mpr ?_ : Disjoint _ _).sdiff_eq_left
    rintro x ⟨s, mem, low, _⟩ ⟨_, high⟩
    obtain ⟨q, memQ, rfl⟩ := List.mem_map.mp mem
    exact absurd (high.trans_le (above q memQ).2) (Nat.not_lt.mpr low)
  have goal : denote ((pre ++ ⟨r.addr, addr - r.addr⟩ :: todo).map RamEntry.span) ∪
        Set.Ico stop (stop + (r.addr + r.size - stop)) =
      denote (pre.map RamEntry.span) ∪
        (denote ((r :: todo).map RamEntry.span) \ Set.Ico addr stop) := by
    rw [List.map_cons (l := todo), denote_cons, Set.union_sdiff_distrib, untouched]
    ext x
    simp only [List.map_append, List.map_cons, denote_append, denote_cons, Set.mem_union,
      Set.mem_sdiff, RamEntry.span, Span.mem_toSet, Set.mem_Ico]
    by_cases inPre : x ∈ denote (pre.map RamEntry.span)
    · simp [inPre]
    by_cases inTodo : x ∈ denote (todo.map RamEntry.span)
    · simp [inTodo]
    simp only [inPre, inTodo, false_or, or_false]
    omega
  rw [allocLoop_split head ordered tail bound]
  rcases @addMem_table _ _ stop (r.addr + r.size - stop) headTable (by omega)
    (by omega) with
    ⟨ram, es, added, table, free⟩ | ⟨crash, full⟩
  swap
  · refine Or.inr ⟨?_, by simpa using full⟩
    rw [crash]
    rfl
  rw [goal] at free
  obtain ⟨t', term', rfl⟩ := table.slots
  rw [added]
  simp only [bind, Except.bind]
  -- the list `add_mem` leaves is the canonical list of the set it leaves
  have settle : ∀ (p : RamEntry) (later : List RamEntry),
      Separated ((pre ++ p :: later).map RamEntry.span) →
      denote ((pre ++ p :: later).map RamEntry.span) =
        denote (pre.map RamEntry.span) ∪
          (denote ((r :: todo).map RamEntry.span) \ Set.Ico addr stop) →
      (∀ q ∈ later, q.size ≠ 0 ∧ stop ≤ q.addr) → later.length < fuel →
      TableOutcome (allocLoop addr stop fuel (es ++ [t']) (pre.length + 1))
        (denote (pre.map RamEntry.span) ∪
          (denote ((r :: todo).map RamEntry.span) \ Set.Ico addr stop))
        (pre ++ r :: todo).length := by
    intro p later canonical meaning high short
    have same : es = pre ++ p :: later :=
      RamEntry.span_injective.list_map
        (table.separated.eq_of_denote_eq canonical (free.trans meaning.symm))
    have rest := @allocLoop_above _ _ _ (pre ++ [p]) _ _ term' ordered high short
    subst same
    refine Or.inl ⟨_, _, ?_, table, free⟩
    simpa using rest
  rcases Nat.lt_or_eq_of_le ordered with block | empty
  · refine settle ⟨r.addr, addr - r.addr⟩ (⟨stop, r.addr + r.size - stop⟩ :: todo) ?_ ?_
      (List.forall_mem_cons.mpr ⟨⟨by simp only; omega, le_rfl⟩, above⟩) (by simpa using enough)
    · have := sep.split (t := (⟨r.addr, addr⟩ : Span Nat))
        (u := (⟨stop, r.addr + r.size⟩ : Span Nat)) head block tail le_rfl le_rfl
      simpa [RamEntry.span, Nat.add_sub_cancel' head.le, Nat.add_sub_cancel' tail.le] using this
    · rw [← goal]
      ext x
      simp only [List.map_append, List.map_cons, denote_append, denote_cons, Set.mem_union,
        RamEntry.span, Span.mem_toSet, Set.mem_Ico]
      tauto
  · subst empty
    refine settle r todo (by simpa using sep) ?_ above (by omega)
    rw [Set.Ico_self, Set.sdiff_empty, List.map_append, denote_append]

/-- From entry `pre.length` on, the loop removes `[addr, stop)` from the
entries. -/
theorem allocLoop_slots {todo : List RamEntry} (term : t.size = 0) (ordered : addr ≤ stop)
    (sep : Separated ((pre ++ todo).map RamEntry.span))
    (bounded : ∀ r ∈ pre ++ todo, r.addr + r.size ≤ PADDR_SPACE)
    (enough : todo.length + 2 ≤ fuel) :
    TableOutcome (allocLoop addr stop fuel (pre ++ (todo ++ [t])) pre.length)
      (denote (pre.map RamEntry.span) ∪ (denote (todo.map RamEntry.span) \ Set.Ico addr stop))
      (pre ++ todo).length := by
  induction todo generalizing pre fuel with
  | nil =>
    left
    obtain ⟨fuel, rfl⟩ := Nat.exists_eq_succ_of_ne_zero (by omega : fuel ≠ 0)
    rw [List.append_nil] at sep bounded
    exact ⟨_, pre, allocLoop_terminator term, ⟨⟨t, term, rfl⟩, sep, bounded⟩, by simp⟩
  | cons r todo ih =>
    obtain ⟨fuel, rfl⟩ := Nat.exists_eq_succ_of_ne_zero (by omega : fuel ≠ 0)
    have enough' : todo.length + 2 ≤ fuel := by
      simpa using enough
    have nonempty : r.size ≠ 0 :=
      size_ne_zero_of_separated sep r (List.mem_append_right _ List.mem_cons_self)
    have sep' : Separated (pre.map RamEntry.span ++ r.span :: todo.map RamEntry.span) := by
      simpa using sep
    -- what is left of `r` is `r'`, and the loop goes on behind it
    have keep : ∀ r' : RamEntry, r'.size ≠ 0 → r.addr ≤ r'.addr →
        r'.addr + r'.size ≤ r.addr + r.size →
        r'.span.toSet = r.span.toSet \ Set.Ico addr stop →
        allocLoop addr stop (fuel + 1) (pre ++ r :: (todo ++ [t])) pre.length =
          allocLoop addr stop fuel ((pre ++ [r']) ++ (todo ++ [t])) (pre ++ [r']).length →
        TableOutcome (allocLoop addr stop (fuel + 1) (pre ++ ((r :: todo) ++ [t])) pre.length)
          (denote (pre.map RamEntry.span) ∪
            (denote ((r :: todo).map RamEntry.span) \ Set.Ico addr stop))
          (pre ++ r :: todo).length := by
      intro r' size low high piece step
      have sepNext : Separated ((pre ++ [r'] ++ todo).map RamEntry.span) := by
        have := sep'.replace (t := r'.span) (by simp only [RamEntry.span]; omega) low high
        simpa using this
      have boundedNext : ∀ q ∈ pre ++ [r'] ++ todo, q.addr + q.size ≤ PADDR_SPACE := by
        intro q mem
        simp only [List.append_assoc, List.mem_append, List.mem_cons, List.not_mem_nil,
          or_false] at mem
        rcases mem with mem | rfl | mem
        · exact bounded q (List.mem_append_left _ mem)
        · exact high.trans (bounded r (List.mem_append_right _ List.mem_cons_self))
        · exact bounded q (List.mem_append_right _ (List.mem_cons_of_mem _ mem))
      have next := ih sepNext boundedNext enough'
      rw [denote_step piece] at next
      rw [List.cons_append, step]
      simpa using next
    rcases Nat.lt_or_ge stop r.addr with above | reach
    · refine keep r nonempty le_rfl le_rfl ?_
        (allocLoop_apart nonempty ordered (Or.inl above))
      ext x
      simp only [RamEntry.span, Span.mem_toSet, Set.mem_sdiff, Set.mem_Ico]
      omega
    rcases Nat.lt_or_ge addr (r.addr + r.size) with before | below
    swap
    · refine keep r nonempty le_rfl le_rfl ?_
        (allocLoop_apart nonempty ordered (Or.inr below))
      ext x
      simp only [RamEntry.span, Span.mem_toSet, Set.mem_sdiff, Set.mem_Ico]
      omega
    rcases Nat.lt_or_ge r.addr addr with head | head <;>
      rcases Nat.lt_or_ge stop (r.addr + r.size) with tail | tail
    · exact allocLoop_split_table term head ordered tail sep' bounded (by omega)
    · refine keep ⟨r.addr, addr - r.addr⟩ (by simp only; omega) le_rfl (by simp only; omega) ?_
        (allocLoop_tail head before tail)
      ext x
      simp only [RamEntry.span, Span.mem_toSet, Set.mem_sdiff, Set.mem_Ico]
      omega
    · refine keep ⟨stop, r.addr + r.size - stop⟩ (by simp only; omega) reach
        (by simp only; omega) ?_ (allocLoop_head head reach tail)
      ext x
      simp only [RamEntry.span, Span.mem_toSet, Set.mem_sdiff, Set.mem_Ico]
      omega
    · have sepNext : Separated ((pre ++ todo).map RamEntry.span) := by
        simpa using sep'.remove
      have next := ih sepNext (fun q mem => bounded q (by
        rcases List.mem_append.mp mem with mem | mem
        · exact List.mem_append_left _ mem
        · exact List.mem_append_right _ (List.mem_cons_of_mem _ mem))) enough'
      have gone : r.span.toSet \ Set.Ico addr stop = ∅ := by
        refine Set.eq_empty_iff_forall_notMem.mpr fun x => ?_
        simp only [RamEntry.span, Span.mem_toSet, Set.mem_sdiff, Set.mem_Ico]
        omega
      rw [List.cons_append, allocLoop_cover nonempty head tail, List.map_cons, denote_cons,
        Set.union_sdiff_distrib, gone, Set.empty_union]
      rcases next with done | ⟨crash, full⟩
      · exact Or.inl done
      · refine Or.inr ⟨crash, full.trans ?_⟩
        simp

end AllocLoop

/-- The first loop of `alloc_ram` is set difference. -/
theorem allocLoop_table {ram es : List RamEntry} {addr stop : Nat} (table : RamTable ram es)
    (ordered : addr ≤ stop) :
    TableOutcome (allocLoop addr stop (2 * ram.length + 2) ram 0)
      (denote (es.map RamEntry.span) \ Set.Ico addr stop) es.length := by
  have separated := table.separated
  have bounded := table.bounded
  have length := table.length
  obtain ⟨t, term, rfl⟩ := table.slots
  have loop := @allocLoop_slots _ _ (2 * (es ++ [t]).length + 2) [] t _ term ordered
      (by simpa using separated) (by simpa using bounded) (by omega)
  simpa using loop

end Mx6xBsp.Startup
