import Mx6xBsp.Startup.AsTable
import Mx6xBsp.Startup.RamCalls
import Mx6xBsp.Startup.RamWrap

/-!
# The published memory agrees with the free list

`add_sysram` publishes the free list as `sysram` entries of the address space,
and from then on `alloc_ram` edits both. The second loop of `alloc_ram` is set
difference on the published addresses (`sysramLoop_spec`): each entry it stops
at is trimmed, split or fatal, and what it leaves or appends behind is never
stopped at again. So both pictures of memory stay the same set (`Agree`), as
long as no block runs over the end of the address space.
-/

namespace Mx6xBsp.Startup

open Spans Runs

/-- Owners are entries of the table, and none of them is called `name`. -/
def Unowned (name : String) (es : List AsinfoEntry) : Prop :=
  ∀ e ∈ es, ∀ o, e.owner = some o → ∃ own, es[o]? = some own ∧ own.name ≠ name

theorem Unowned.append {name : String} {es new : List AsinfoEntry} (unowned : Unowned name es)
    (owners : ∀ e ∈ new, ∀ o, e.owner = some o → ∃ own, es[o]? = some own ∧ own.name ≠ name) :
    Unowned name (es ++ new) := by
  intro e mem o owned
  have found : ∃ own, es[o]? = some own ∧ own.name ≠ name := by
    rcases List.mem_append.mp mem with mem | mem
    · exact unowned e mem o owned
    · exact owners e mem o owned
  obtain ⟨own, at_o, other⟩ := found
  refine ⟨own, ?_, other⟩
  rw [List.getElem?_append_left (List.getElem?_eq_some_iff.mp at_o).1, at_o]

theorem Unowned.replace {name : String} {done post : List AsinfoEntry} {e e' : AsinfoEntry}
    (unowned : Unowned name (done ++ e :: post)) (sameName : e'.name = e.name)
    (sameOwner : e'.owner = e.owner) : Unowned name (done ++ e' :: post) := by
  have lookup : ∀ (o : Nat) (own : AsinfoEntry), (done ++ e :: post)[o]? = some own →
      own.name ≠ name → ∃ own', (done ++ e' :: post)[o]? = some own' ∧ own'.name ≠ name := by
    intro o own at_o other
    rcases Nat.lt_trichotomy o done.length with before | rfl | behind
    · rw [List.getElem?_append_left before] at at_o ⊢
      exact ⟨own, at_o, other⟩
    · rw [List.getElem?_append_right le_rfl, Nat.sub_self] at at_o ⊢
      cases at_o
      exact ⟨e', rfl, sameName ▸ other⟩
    · obtain ⟨k, rfl⟩ := Nat.exists_eq_add_of_lt behind
      rw [List.getElem?_append_right (by omega),
        show done.length + k + 1 - done.length = k + 1 by omega] at at_o ⊢
      exact ⟨own, at_o, other⟩
  intro f mem o owned
  have old : ∃ own, (done ++ e :: post)[o]? = some own ∧ own.name ≠ name := by
    rcases List.mem_append.mp mem with mem | mem
    · exact unowned f (List.mem_append_left _ mem) o owned
    · rcases List.mem_cons.mp mem with rfl | mem
      · exact unowned e (List.mem_append_right _ List.mem_cons_self) o (sameOwner ▸ owned)
      · exact unowned f (List.mem_append_right _ (List.mem_cons_of_mem _ mem)) o owned
  obtain ⟨own, at_o, other⟩ := old
  exact lookup o own at_o other

theorem matchName_unowned {name : String} {es : List AsinfoEntry} (unowned : Unowned name es)
    {fuel : Nat} {e : AsinfoEntry} (mem : e ∈ es) :
    matchName es name fuel e = decide (e.name = name) := by
  induction fuel generalizing e with
  | zero =>
    unfold matchName
    by_cases same : e.name = name
    · simp [same]
    · cases owner : e.owner <;> simp [same]
  | succ fuel ih =>
    unfold matchName
    by_cases same : e.name = name
    · simp [same]
    · cases owner : e.owner with
      | none => simp [same]
      | some o =>
        obtain ⟨own, at_o, other⟩ := unowned e mem o owner
        simp only [same, if_false, at_o, ih (List.mem_of_getElem? at_o), other]

/-! ## Attributes do not matter to a search -/

theorem matchName_bare {base : List AsinfoEntry} {name : String} {fuel : Nat} {e : AsinfoEntry} :
    matchName (base.map AsinfoEntry.bare) name fuel e.bare = matchName base name fuel e := by
  have sameOwner : ∀ e : AsinfoEntry, e.bare.owner = e.owner := fun _ => rfl
  have sameName : ∀ e : AsinfoEntry, e.bare.name = e.name := fun _ => rfl
  induction fuel generalizing e with
  | zero =>
    unfold matchName
    rw [sameName, sameOwner]
    cases e.owner <;> rfl
  | succ fuel ih =>
    unfold matchName
    rw [sameName, sameOwner]
    cases e.owner with
    | none => rfl
    | some o =>
      simp only [List.getElem?_map]
      cases base[o]? with
      | none => rfl
      | some own =>
        simp only [Option.map_some]
        rw [ih]

theorem asScan_map {hit : AsinfoEntry → Bool} {f : AsinfoEntry → AsinfoEntry}
    {todo : List AsinfoEntry} {i : Nat} :
    asScan hit (todo.map f) i = asScan (fun e => hit (f e)) todo i := by
  induction todo generalizing i with
  | nil => rfl
  | cons e todo ih => simp only [List.map_cons, asScan, ih]

theorem asHit_bare {base : List AsinfoEntry} {start stop : Nat} {container : String}
    {e : AsinfoEntry} :
    asHit (base.map AsinfoEntry.bare) start stop container e.bare =
      asHit base start stop container e := by
  rw [asHit, asHit, matchName_bare, List.length_map]
  rfl

theorem asFindContaining_bare {base : List AsinfoEntry} {off : Option Nat} {start stop : Nat}
    {container : String} :
    asFindContaining (base.map AsinfoEntry.bare) off start stop container =
      asFindContaining base off start stop container := by
  rw [asFindContaining, asFindContaining, ← List.map_drop, asScan_map]
  congr 1
  funext e
  exact asHit_bare

/-! ## The second loop of `alloc_ram` -/

section SysramLoop

variable {addr last : Nat}

/-- What is left of a `sysram` entry: the entry itself, cut, and perhaps one more
entry behind the table. -/
structure Trimmed (addr last : Nat) (e e' : AsinfoEntry) (new : List AsinfoEntry) : Prop where
  name : e'.name = e.name
  owner : e'.owner = e.owner
  valid : e'.Valid
  whole : ¬ (addr ≤ e.start ∧ e.stop ≤ last)
  named : ∀ n ∈ new, n.name = e.name ∧ n.owner = e.owner ∧ n.Valid ∧ addr ≤ n.start
  weight : new.length ≤ if e.start < addr then 1 else 0
  pieces : ∀ x, (x ∈ e'.toSet ∨ ∃ n ∈ new, x ∈ n.toSet) ↔ x ∈ e.toSet ∧ ¬ (addr ≤ x ∧ x ≤ last)

theorem sysramTrim_spec {as as' : Asinfo} {pre post : List AsinfoEntry} {ent : AsinfoEntry}
    (split : as.entries.map AsinfoEntry.bare = pre ++ ent.bare :: post)
    (named : ent.name = "sysram") (valid : ent.Valid) (small : addr < PADDR_SPACE)
    (block : addr ≤ last + 1) (reach : last < PADDR_SPACE ∨ paddr last = PADDR_SPACE - 1)
    (hit : containsEnd ent addr (paddr last) = true)
    (call : sysramTrim addr last as pre.length ent = .ok as') :
    ∃ e' new, as'.entries.map AsinfoEntry.bare = pre ++ e' :: post ++ new ∧
      Trimmed addr last ent.bare e' new := by
  have atOff : ∀ f : AsinfoEntry, (as.entries.set pre.length f).map AsinfoEntry.bare =
      pre ++ f.bare :: post := by
    intro f
    rw [List.map_set, split, List.set_append_right _ _ le_rfl, Nat.sub_self, List.set_cons_zero]
  obtain ⟨nonempty, bounded⟩ := valid
  have near : last < PADDR_SPACE → paddr last = last := paddr_of_lt
  have lower : (if addr < ent.start then addr else ent.start) = min addr ent.start := by
    split <;> omega
  have upper : (if last > ent.stop then last else ent.stop) = max last ent.stop := by
    split <;> omega
  simp only [containsEnd, Bool.or_eq_true, Bool.and_eq_true, decide_eq_true_eq] at hit
  simp only [sysramTrim, lower, upper] at call
  by_cases whole : addr ≤ ent.start ∧ ent.stop ≤ last
  · rw [if_pos (by omega)] at call
    cases call
  rw [if_neg (by omega)] at call
  by_cases head : addr ≤ ent.start
  · -- the block takes the start of the entry
    rw [if_pos (by omega)] at call
    cases call
    refine ⟨AsinfoEntry.bare { ent with start := last + 1 }, [], ?_, rfl, rfl, ?_, whole,
      by simp, by simp, fun x => ?_⟩
    · rw [atOff, List.append_nil]
    · simp only [AsinfoEntry.Valid, AsinfoEntry.bare]
      omega
    · simp only [AsinfoEntry.toSet, AsinfoEntry.bare, Set.mem_Icc, List.not_mem_nil, false_and,
        exists_false, or_false]
      omega
  rw [if_neg (by omega)] at call
  by_cases ends : ent.stop ≤ last
  · -- the block takes the end of the entry
    rw [if_neg (by omega)] at call
    cases call
    refine ⟨AsinfoEntry.bare { ent with stop := addr - 1 }, [], ?_, rfl, rfl, ?_, whole,
      by simp, by simp, fun x => ?_⟩
    · rw [atOff, List.append_nil]
    · simp only [AsinfoEntry.Valid, AsinfoEntry.bare]
      omega
    · simp only [AsinfoEntry.toSet, AsinfoEntry.bare, Set.mem_Icc, List.not_mem_nil, false_and,
        exists_false, or_false]
      omega
  · -- the block leaves both ends, and the upper one becomes a new entry
    rw [if_pos (by omega), max_eq_right (by omega), paddr_of_lt bounded,
      paddr_of_lt (by omega : last + 1 < PADDR_SPACE)] at call
    obtain ⟨⟨as₁, off⟩, added, call⟩ := Except.bind_eq_ok.mp call
    cases call
    refine ⟨AsinfoEntry.bare { ent with stop := addr - 1 },
      [⟨last + 1, ent.stop, ent.owner, "sysram", AS_ATTR_NONE⟩], ?_, rfl, rfl, ?_, whole,
      ?_, ?_, fun x => ?_⟩
    · rw [(asAdd_spec rfl added).1, atOff]
    · simp only [AsinfoEntry.Valid, AsinfoEntry.bare]
      omega
    · simp only [List.mem_singleton, forall_eq, AsinfoEntry.bare, AsinfoEntry.Valid, named,
        true_and]
      omega
    · have below : ent.bare.start < addr := Nat.lt_of_not_le head
      rw [List.length_singleton, if_pos below]
    · simp only [AsinfoEntry.toSet, AsinfoEntry.bare, Set.mem_Icc, List.mem_singleton,
        exists_eq_left]
      omega

theorem asAdd_error {as : Asinfo} {start stop : Nat} {attr : AsAttr} {name : String}
    {owner : Option Nat} {crash : Crash} (flat : attr.overlayIo = false)
    (call : asAdd as start stop attr name owner = .error crash) : crash = .syspageMemory := by
  unfold asAdd asAppend at call
  cases room : as.room with
  | zero =>
    simp only [room] at call
    cases call
    rfl
  | succ n =>
    simp only [room, flat] at call
    cases call

theorem sysramTrim_error {as : Asinfo} {off : Nat} {ent : AsinfoEntry} {crash : Crash}
    (call : sysramTrim addr last as off ent = .error crash) : crash ≠ .diverges := by
  unfold sysramTrim at call
  simp only at call
  by_cases whole : addr = (if addr < ent.start then addr else ent.start) ∧
      last = if last > ent.stop then last else ent.stop
  · rw [if_pos whole] at call
    cases call
    decide
  rw [if_neg whole] at call
  by_cases head : addr = if addr < ent.start then addr else ent.start
  · rw [if_pos head] at call
    cases call
  rw [if_neg head] at call
  by_cases ends : (if last > ent.stop then last else ent.stop) ≠ last
  · rw [if_pos ends] at call
    rcases Except.bind_eq_error.mp call with failed | ⟨_, _, call⟩
    · rw [asAdd_error rfl failed]
      decide
    · cases call
  · rw [if_neg ends] at call
    cases call

/-- How often the loop can still stop at the entries: an entry that begins below
the block may leave one that does not. -/
def visits (addr : Nat) (todo : List AsinfoEntry) : Nat :=
  (todo.map fun e => if e.start < addr then 2 else 1).sum

theorem visits_append {es fs : List AsinfoEntry} :
    visits addr (es ++ fs) = visits addr es + visits addr fs := by
  simp [visits]

theorem visits_le {es : List AsinfoEntry} : visits addr es ≤ 2 * es.length := by
  induction es with
  | nil => simp [visits]
  | cons e es ih =>
    simp only [visits, List.map_cons, List.sum_cons, List.length_cons] at ih ⊢
    split_ifs <;> omega

theorem visits_of_ge {es : List AsinfoEntry} (above : ∀ e ∈ es, addr ≤ e.start) :
    visits addr es = es.length := by
  induction es with
  | nil => rfl
  | cons e es ih =>
    obtain ⟨here, later⟩ := List.forall_mem_cons.mp above
    have := ih later
    simp only [visits, List.map_cons, List.sum_cons, List.length_cons] at this ⊢
    rw [if_neg (by omega), this]
    omega

theorem asHit_sysram {base : List AsinfoEntry} (unowned : Unowned "sysram" base)
    {e : AsinfoEntry} (mem : e ∈ base) {start stop : Nat} :
    asHit base start stop "sysram" e =
      (decide (e.name = "sysram") && containsEnd e start stop) := by
  rw [asHit, matchName_unowned unowned mem]

theorem namedSet_clear {es : List AsinfoEntry}
    (clear : ∀ e ∈ es, e.name = "sysram" → ∀ x ∈ e.toSet, ¬ (addr ≤ x ∧ x ≤ last)) :
    namedSet "sysram" es \ Set.Icc addr last = namedSet "sysram" es := by
  refine (Set.disjoint_left.mpr ?_ : Disjoint _ _).sdiff_eq_left
  rintro x ⟨e, mem, named, inside⟩
  exact clear e mem named x inside

theorem namedSet_trimmed {done mid post new : List AsinfoEntry} {e e' : AsinfoEntry}
    (cut : Trimmed addr last e e' new) (named : e.name = "sysram")
    (clear : ∀ p ∈ mid, p.name = "sysram" → ∀ x ∈ p.toSet, ¬ (addr ≤ x ∧ x ≤ last)) :
    namedSet "sysram" (done ++ mid ++ [e']) ∪
        (namedSet "sysram" (post ++ new) \ Set.Icc addr last) =
      namedSet "sysram" done ∪ (namedSet "sysram" (mid ++ e :: post) \ Set.Icc addr last) := by
  have newNamed : ∀ n ∈ new, n.name = "sysram" := fun n mem => (cut.named n mem).1.trans named
  rw [namedSet_append, namedSet_append, namedSet_append, namedSet_append,
    namedSet_cons (cut.name.trans named), namedSet_cons named]
  ext x
  have kept : x ∈ namedSet "sysram" mid → ¬ (addr ≤ x ∧ x ≤ last) := by
    rintro ⟨p, mem, isSysram, inside⟩
    exact clear p mem isSysram x inside
  have piece := cut.pieces x
  rw [← mem_namedSet newNamed] at piece
  have isNil : x ∉ namedSet "sysram" [] := by simp [namedSet]
  simp only [Set.mem_union, Set.mem_sdiff, Set.mem_Icc, isNil, or_false]
  by_cases block : addr ≤ x ∧ x ≤ last
  · have notMid : x ∉ namedSet "sysram" mid := fun inside => kept inside block
    have notPiece : ¬ (x ∈ e'.toSet ∨ x ∈ namedSet "sysram" new) := fun h => (piece.mp h).2 block
    simp only [block, notMid, (not_or.mp notPiece).1, not_true, and_false, or_false, and_self]
  · simp only [block, not_false_eq_true, and_true] at piece ⊢
    rw [← piece]
    simp only [or_assoc, or_left_comm, or_comm]

/-- What the loop leaves of the entries `todo` it has not passed. -/
structure LoopResult (addr last : Nat) (done todo out : List AsinfoEntry) : Prop where
  set : namedSet "sysram" out =
    namedSet "sysram" done ∪ (namedSet "sysram" todo \ Set.Icc addr last)
  unowned : Unowned "sysram" out
  valid : ∀ e ∈ out, e.Valid
  whole : ∀ e ∈ todo, e.name = "sysram" → ¬ (addr ≤ e.start ∧ e.stop ≤ last)

theorem sysramLoop_spec {as : Asinfo} {done todo : List AsinfoEntry} {fuel : Nat}
    {off : Option Nat} (small : addr < PADDR_SPACE) (block : addr ≤ last + 1)
    (reach : last < PADDR_SPACE ∨ paddr last = PADDR_SPACE - 1)
    (split : as.entries.map AsinfoEntry.bare = done ++ todo) (next : offNext off = done.length)
    (unowned : Unowned "sysram" (done ++ todo)) (valid : ∀ e ∈ done ++ todo, e.Valid)
    (enough : visits addr todo < fuel) :
    (∃ as', sysramLoop addr last fuel as off = .ok as' ∧
      LoopResult addr last done todo (as'.entries.map AsinfoEntry.bare)) ∨
    ∃ crash, sysramLoop addr last fuel as off = .error crash ∧ crash ≠ .diverges := by
  induction fuel generalizing as done todo off with
  | zero => omega
  | succ fuel ih =>
    have missed : ∀ p ∈ done ++ todo,
        asHit (done ++ todo) addr (paddr last) "sysram" p = false → p.name = "sysram" →
        (∀ x ∈ p.toSet, ¬ (addr ≤ x ∧ x ≤ last)) ∧ ¬ (addr ≤ p.start ∧ p.stop ≤ last) := by
      intro p mem miss named
      obtain ⟨_, low⟩ := valid p mem
      have near : last < PADDR_SPACE → paddr last = last := paddr_of_lt
      rw [asHit_sysram unowned mem] at miss
      simp only [containsEnd, named, decide_true, Bool.true_and, Bool.or_eq_false_iff,
        Bool.and_eq_false_iff, decide_eq_false_iff_not] at miss
      refine ⟨fun x inside => ?_, ?_⟩
      · simp only [AsinfoEntry.toSet, Set.mem_Icc] at inside
        omega
      · omega
    rw [sysramLoop, ← asFindContaining_bare, split]
    rcases @asFindContaining_cases _ _ todo _ addr (paddr last) "sysram" rfl next with
      ⟨mid, e, post, rfl, miss, hit, search⟩ | ⟨miss, search⟩
    · have here : (as.entries.map AsinfoEntry.bare)[done.length + mid.length]? = some e := by
        rw [split]
        simp
      rw [List.getElem?_map] at here
      obtain ⟨ent, at_off, rfl⟩ := Option.map_eq_some_iff.mp here
      simp only [search, at_off]
      cases trim : sysramTrim addr last as (done.length + mid.length) ent with
      | error crash => exact Or.inr ⟨crash, rfl, sysramTrim_error trim⟩
      | ok as₁ =>
        have memEnt : ent.bare ∈ done ++ (mid ++ ent.bare :: post) := by simp
        rw [asHit_sysram unowned memEnt, Bool.and_eq_true_iff, decide_eq_true_eq] at hit
        obtain ⟨named, contains⟩ := hit
        have regroup : done ++ (mid ++ ent.bare :: post) =
            (done ++ mid) ++ ent.bare :: post := by simp
        rw [regroup] at split unowned valid
        rw [← List.length_append] at trim
        obtain ⟨e', new, layout, cut⟩ := sysramTrim_spec split named
          (valid ent.bare (by simp)) small block reach contains trim
        have unowned' : Unowned "sysram" ((done ++ mid) ++ e' :: post) :=
          unowned.replace cut.name cut.owner
        have named' : ∀ n ∈ new, n.name = "sysram" := fun n mem =>
          (cut.named n mem).1.trans named
        have unowned'' : Unowned "sysram" (((done ++ mid) ++ e' :: post) ++ new) := by
          refine unowned'.append fun n mem o owned => ?_
          refine unowned' e' (by simp) o ?_
          rw [cut.owner, ← (cut.named n mem).2.1, owned]
        have valid' : ∀ f ∈ ((done ++ mid) ++ e' :: post) ++ new, f.Valid := by
          intro f mem
          rcases List.mem_append.mp mem with mem | mem
          · rcases List.mem_append.mp mem with mem | mem
            · exact valid f (List.mem_append_left _ mem)
            · rcases List.mem_cons.mp mem with rfl | mem
              · exact cut.valid
              · exact valid f (List.mem_append_right _ (List.mem_cons_of_mem _ mem))
          · exact (cut.named f mem).2.2.1
        have fewer : visits addr (post ++ new) < fuel := by
          have count : visits addr new = new.length :=
            visits_of_ge fun n mem => (cut.named n mem).2.2.2
          have weight := cut.weight
          rw [visits_append, count]
          simp only [visits, List.map_append, List.map_cons, List.sum_append,
            List.sum_cons] at enough ⊢
          split_ifs at enough weight <;> omega
        have regroup' : ((done ++ mid) ++ e' :: post) ++ new =
            (done ++ mid ++ [e']) ++ (post ++ new) := by simp
        rw [regroup'] at layout unowned'' valid'
        have next' : offNext (some (done.length + mid.length)) =
            (done ++ mid ++ [e']).length := by
          simp [offNext]
          omega
        rcases ih layout next' unowned'' valid' fewer with ⟨out, loop, result⟩ | crashed
        · refine Or.inl ⟨out, loop, ?_, result.unowned, result.valid, ?_⟩
          · exact result.set.trans (namedSet_trimmed cut named fun p mem isSysram =>
              (missed p (by simp [mem]) (miss p mem) isSysram).1)
          · intro f mem isSysram
            rcases List.mem_append.mp mem with mem | mem
            · exact (missed f (by simp [mem]) (miss f mem) isSysram).2
            · rcases List.mem_cons.mp mem with rfl | mem
              · exact cut.whole
              · exact result.whole f (List.mem_append_left _ mem) isSysram
        · exact Or.inr crashed
    · left
      refine ⟨as, by rw [search], ?_, split ▸ unowned, split ▸ valid, fun e mem named => ?_⟩
      · rw [split, namedSet_append, namedSet_clear fun p mem isSysram =>
          (missed p (List.mem_append_right _ mem) (miss p mem) isSysram).1]
      · exact (missed e (List.mem_append_right _ mem) (miss e mem) named).2

end SysramLoop

/-! ## `alloc_ram` on both pictures -/

/-- The block ends below `2 ^ 32`; or it ends there, begins outside the free
memory or inside its topmost range, which reaches `2 ^ 32` too, and the free
memory from address 0 on, if any, reaches up to the block. -/
def BlockFits (free : Set Nat) (addr size : Nat) : Prop :=
  addr + size < PADDR_SPACE ∨
    (addr + size = PADDR_SPACE ∧ 0 < addr ∧ 0 < size ∧
      (addr ∈ free → addr - 1 ∈ free ∧ Set.Ico addr PADDR_SPACE ⊆ free) ∧
      (0 ∈ free → Set.Ico 0 addr ⊆ free))

/-- What leaves the free list. -/
def takenSet (free : Set Nat) (addr size : Nat) : Set Nat :=
  {x | addr ≤ x ∧ x < addr + size ∧ (addr + size = PADDR_SPACE → addr ∈ free)}

theorem entry_of_Ico_subset {es : List RamEntry} {r : RamEntry} {a b : Nat}
    (sep : Separated (es.map RamEntry.span)) (mem : r ∈ es) (low : r.addr ≤ a)
    (high : a < r.addr + r.size) (all : Set.Ico a b ⊆ denote (es.map RamEntry.span)) :
    b ≤ r.addr + r.size := by
  by_contra beyond
  obtain ⟨q, memQ, lowQ, highQ⟩ := mem_denote_entries.mp
    (all (show r.addr + r.size ∈ Set.Ico a b from ⟨by omega, by omega⟩))
  rcases entries_apart sep memQ mem with rfl | apart
  · omega
  · omega

theorem allocLoop_fits {ram es : List RamEntry} {addr size : Nat} (table : RamTable ram es)
    (fits : BlockFits (freeSet ram) addr size) :
    TableOutcome (allocLoop addr (paddr (addr + size)) (2 * ram.length + 2) ram 0)
      (freeSet ram \ takenSet (freeSet ram) addr size) es.length := by
  rcases fits with fits | ⟨ends, pos, nonempty, inside, zero⟩
  · have taken : takenSet (freeSet ram) addr size = Set.Ico addr (addr + size) := by
      ext x
      simp only [takenSet, Set.mem_ofPred_eq, Set.mem_Ico]
      omega
    rw [paddr_of_lt fits, taken, table.freeSet]
    exact allocLoop_table table (by omega)
  · rw [table.freeSet] at inside zero ⊢
    have stop : paddr (addr + size) = 0 := by
      rw [ends]
      decide
    have taken :
        denote (es.map RamEntry.span) \ takenSet (denote (es.map RamEntry.span)) addr size =
        denote (es.map RamEntry.span) \
          {x | addr ∈ denote (es.map RamEntry.span) ∧ addr ≤ x} := by
      ext x
      simp only [takenSet, Set.mem_sdiff, Set.mem_ofPred_eq, ends, true_implies]
      refine and_congr_right fun free => not_congr ?_
      obtain ⟨r, mem, _, high⟩ := mem_denote_entries.mp free
      have bounded := table.bounded r mem
      constructor
      · rintro ⟨low, _, start⟩
        exact ⟨start, low⟩
      · rintro ⟨start, low⟩
        exact ⟨low, by omega, start⟩
    rw [stop, taken]
    refine allocLoop_wrap table pos (by omega) (fun r mem low high => ?_) fun r mem zeroed => ?_
    · obtain ⟨below, above⟩ := inside (mem_denote_entries.mpr ⟨r, mem, low, high⟩)
      have reach := entry_of_Ico_subset table.separated mem low high above
      have bounded := table.bounded r mem
      obtain ⟨q, memQ, lowQ, highQ⟩ := mem_denote_entries.mp below
      rcases entries_apart table.separated memQ mem with rfl | apart
      · omega
      · omega
    · have size := size_ne_zero_of_separated table.separated r mem
      have reach := entry_of_Ico_subset table.separated mem zeroed.le (by omega)
        (zero (mem_denote_entries.mpr ⟨r, mem, zeroed.le, by omega⟩))
      omega

/-- The 64-bit `end` after `--end`. -/
def lastOf (addr size : Nat) : Nat := (paddr (addr + size) + (2 ^ 64 - 1)) % 2 ^ 64

theorem lastOf_cases {addr size : Nat} (bound : addr + size ≤ PADDR_SPACE) :
    (lastOf addr size + 1 = addr + size ∧ addr + size < PADDR_SPACE) ∨
      (lastOf addr size = 2 ^ 64 - 1 ∧ (addr + size = 0 ∨ addr + size = PADDR_SPACE)) := by
  unfold lastOf
  rcases Nat.eq_zero_or_pos (addr + size) with none | pos
  · right
    rw [none]
    decide
  rcases Nat.lt_or_eq_of_le bound with fits | ends
  · left
    have space : PADDR_SPACE < 2 ^ 64 := by decide
    have shift : addr + size + (2 ^ 64 - 1) = addr + size - 1 + 2 ^ 64 := by omega
    rw [paddr_of_lt fits, shift, Nat.add_mod_right, Nat.mod_eq_of_lt (by omega)]
    omega
  · right
    rw [ends]
    decide

theorem takeRam_cases {st : RamState} {es : List RamEntry} {addr size : Nat}
    (table : RamTable st.ramList es) (fits : BlockFits (freeSet st.ramList) addr size) :
    (∃ ram, (∃ es', RamTable ram es') ∧
      freeSet ram = freeSet st.ramList \ takenSet (freeSet st.ramList) addr size ∧
      takeRam st addr size =
        (if st.sysramAdded then sysramLoop addr (lastOf addr size)
          (2 * st.asinfo.entries.length + 2) st.asinfo none else .ok st.asinfo) >>=
            fun asinfo => .ok { st with ramList := ram, asinfo := asinfo }) ∨
    takeRam st addr size = .error .ramEntryArrayOverflow := by
  rcases allocLoop_fits table fits with ⟨ram, es', loop, table', free⟩ | ⟨crash, _⟩
  · refine Or.inl ⟨ram, ⟨es', table'⟩, table'.freeSet.trans free, ?_⟩
    rw [takeRam, loop, Except.ok_bind]
    simp only
    split_ifs <;> rfl
  · right
    rw [takeRam, crash]
    rfl

/-- The published memory is the free memory. -/
structure Agree (st : RamState) : Prop where
  table : ∃ es, RamTable st.ramList es
  published : st.sysramAdded = true
  same : namedSet "sysram" (st.asinfo.entries.map AsinfoEntry.bare) = freeSet st.ramList
  unowned : Unowned "sysram" (st.asinfo.entries.map AsinfoEntry.bare)
  valid : ∀ e ∈ st.asinfo.entries.map AsinfoEntry.bare, e.Valid

theorem takeRam_agree {st : RamState} {addr size : Nat} (agree : Agree st)
    (fits : BlockFits (freeSet st.ramList) addr size) :
    (∃ ram asinfo, takeRam st addr size = .ok { st with ramList := ram, asinfo := asinfo } ∧
      Agree { st with ramList := ram, asinfo := asinfo } ∧
      freeSet ram = freeSet st.ramList \ Set.Ico addr (addr + size)) ∨
    ∃ crash, takeRam st addr size = .error crash ∧ crash ≠ .diverges := by
  obtain ⟨es, table⟩ := agree.table
  obtain ⟨ram, table', free, taken⟩ | overflow := takeRam_cases table fits
  swap
  · exact Or.inr ⟨_, overflow, by decide⟩
  have enough : visits addr (st.asinfo.entries.map AsinfoEntry.bare) <
      2 * st.asinfo.entries.length + 2 := by
    have := @visits_le addr (st.asinfo.entries.map AsinfoEntry.bare)
    rw [List.length_map] at this
    omega
  have small : addr < PADDR_SPACE ∧ addr + size ≤ PADDR_SPACE := by
    rcases fits with fits | fits <;> omega
  have wide : paddr (2 ^ 64 - 1) = PADDR_SPACE - 1 := by decide
  have space : PADDR_SPACE < 2 ^ 64 - 1 := by decide
  have last := lastOf_cases small.2
  have reach : lastOf addr size < PADDR_SPACE ∨ paddr (lastOf addr size) = PADDR_SPACE - 1 := by
    rcases last with ⟨_, _⟩ | ⟨all, _⟩
    · omega
    · exact Or.inr (all ▸ wide)
  have loop := @sysramLoop_spec _ _ _ [] _ _ none small.1 (by omega) reach rfl rfl agree.unowned
      agree.valid enough
  rw [if_pos agree.published] at taken
  rcases loop with ⟨asinfo, done, result⟩ | ⟨crash, failed, ends⟩
  swap
  · exact Or.inr ⟨crash, by rw [taken, failed]; rfl, ends⟩
  rw [done, Except.ok_bind] at taken
  have same := agree.same
  -- a free address above a block that takes nothing would have its entry inside the block
  have free' : freeSet ram = freeSet st.ramList \ Set.Ico addr (addr + size) := by
    rw [free]
    ext x
    simp only [takenSet, Set.mem_sdiff, Set.mem_ofPred_eq, Set.mem_Ico]
    refine and_congr_right fun inFree => not_congr ⟨fun h => ⟨h.1, h.2.1⟩, fun h => ⟨h.1, h.2, ?_⟩⟩
    intro ends
    rw [← same] at inFree ⊢
    obtain ⟨e, mem, named, low, high⟩ := inFree
    have whole := result.whole e mem named
    have valid := agree.valid e mem
    refine ⟨e, mem, named, ?_, h.1.trans high⟩
    unfold AsinfoEntry.Valid at valid
    omega
  refine Or.inl ⟨ram, asinfo, taken, ⟨table', agree.published, ?_, result.unowned, result.valid⟩,
    free'⟩
  have nothing : namedSet "sysram" [] = ∅ := by simp [namedSet]
  rw [result.set, nothing, Set.empty_union]
  refine Eq.trans ?_ free'.symm
  rw [same]
  ext x
  simp only [Set.mem_sdiff, Set.mem_Icc, Set.mem_Ico]
  refine and_congr_right fun inFree => not_congr ?_
  rw [← same] at inFree
  obtain ⟨e, mem, named, low, high⟩ := inFree
  have whole := result.whole e mem named
  have valid := agree.valid e mem
  unfold AsinfoEntry.Valid at valid
  omega

end Mx6xBsp.Startup
