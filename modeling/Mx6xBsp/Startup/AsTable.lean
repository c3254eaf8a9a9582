import Mathlib.Order.Interval.Set.Basic
import Mathlib.Tactic.SplitIfs
import Mx6xBsp.Startup.Asinfo

/-!
# What the address-space functions add

`as_find_containing` walks the table once, entry by entry, so its callers are
loops over the entries behind an offset. `as_add_containing` adds entries that
cover whatever the containers cover of the range, and stay inside the range as
long as no piece that ends at `0xffffffff` cuts a shorter one (`CutsCleanly`):
there `piece_end + 1` wraps.
-/

namespace Mx6xBsp.Startup

/-- The entry without its attributes. -/
def AsinfoEntry.bare (e : AsinfoEntry) : AsinfoEntry := { e with attr := AS_ATTR_NONE }

def AsinfoEntry.toSet (e : AsinfoEntry) : Set Nat := Set.Icc e.start e.stop

/-- The entry is a nonempty range of the address space. -/
def AsinfoEntry.Valid (e : AsinfoEntry) : Prop := e.start ≤ e.stop ∧ e.stop < PADDR_SPACE

/-- The addresses of the entries called `name`. -/
def namedSet (name : String) (es : List AsinfoEntry) : Set Nat :=
  {x | ∃ e ∈ es, e.name = name ∧ x ∈ e.toSet}

theorem namedSet_append {name : String} {es fs : List AsinfoEntry} :
    namedSet name (es ++ fs) = namedSet name es ∪ namedSet name fs := by
  ext x
  simp only [namedSet, List.mem_append, Set.mem_ofPred_eq, Set.mem_union]
  constructor
  · rintro ⟨e, mem | mem, inside⟩
    · exact Or.inl ⟨e, mem, inside⟩
    · exact Or.inr ⟨e, mem, inside⟩
  · rintro (⟨e, mem, inside⟩ | ⟨e, mem, inside⟩)
    · exact ⟨e, Or.inl mem, inside⟩
    · exact ⟨e, Or.inr mem, inside⟩

theorem namedSet_cons {name : String} {e : AsinfoEntry} {es : List AsinfoEntry}
    (same : e.name = name) : namedSet name (e :: es) = e.toSet ∪ namedSet name es := by
  ext x
  simp [namedSet, same]

theorem mem_namedSet {name : String} {es : List AsinfoEntry} (named : ∀ e ∈ es, e.name = name)
    {x : Nat} : x ∈ namedSet name es ↔ ∃ e ∈ es, x ∈ e.toSet := by
  constructor
  · rintro ⟨e, mem, -, inside⟩
    exact ⟨e, mem, inside⟩
  · rintro ⟨e, mem, inside⟩
    exact ⟨e, mem, named e mem, inside⟩

theorem namedSet_bare {name : String} {es : List AsinfoEntry} :
    namedSet name (es.map AsinfoEntry.bare) = namedSet name es := by
  ext x
  simp only [namedSet, List.mem_map, Set.mem_ofPred_eq]
  constructor
  · rintro ⟨_, ⟨e, mem, rfl⟩, inside⟩
    exact ⟨e, mem, inside⟩
  · rintro ⟨e, mem, inside⟩
    exact ⟨e.bare, ⟨e, mem, rfl⟩, inside⟩

/-! ## Searching -/

theorem asScan_cases (hit : AsinfoEntry → Bool) (todo : List AsinfoEntry) (i : Nat) :
    (∃ mid e post, todo = mid ++ e :: post ∧ (∀ p ∈ mid, hit p = false) ∧ hit e = true ∧
      asScan hit todo i = some (i + mid.length)) ∨
    ((∀ e ∈ todo, hit e = false) ∧ asScan hit todo i = none) := by
  induction todo generalizing i with
  | nil => exact Or.inr ⟨by simp, rfl⟩
  | cons e todo ih =>
    cases here : hit e with
    | true => exact Or.inl ⟨[], e, todo, rfl, by simp, here, by simp [asScan, here]⟩
    | false =>
      rcases ih (i + 1) with ⟨mid, f, post, rfl, miss, found, scan⟩ | ⟨miss, scan⟩
      · refine Or.inl ⟨e :: mid, f, post, rfl, List.forall_mem_cons.mpr ⟨here, miss⟩, found, ?_⟩
        rw [asScan, here, List.length_cons]
        simp only [Bool.false_eq_true, if_false]
        rw [scan]
        congr 1
        omega
      · refine Or.inr ⟨List.forall_mem_cons.mpr ⟨here, miss⟩, ?_⟩
        simpa [asScan, here] using scan

/-- A search behind the entries `done` finds the first hit of the rest. -/
theorem asFindContaining_cases {base done todo : List AsinfoEntry} {off : Option Nat}
    (start stop : Nat) (container : String) (split : base = done ++ todo)
    (next : offNext off = done.length) :
    (∃ mid e post, todo = mid ++ e :: post ∧
      (∀ p ∈ mid, asHit base start stop container p = false) ∧
      asHit base start stop container e = true ∧
      asFindContaining base off start stop container = some (done.length + mid.length)) ∨
    ((∀ e ∈ todo, asHit base start stop container e = false) ∧
      asFindContaining base off start stop container = none) := by
  rw [asFindContaining, next, split, List.drop_left]
  exact asScan_cases _ _ _

theorem matchName_of_name {base : List AsinfoEntry} {name : String} {fuel : Nat}
    {e : AsinfoEntry} (same : e.name = name) : matchName base name fuel e = true := by
  unfold matchName
  rw [if_pos same]

theorem containsEnd_of_mem {e : AsinfoEntry} {start stop x : Nat} (inside : x ∈ e.toSet)
    (low : start ≤ x) (high : x ≤ stop) : containsEnd e start stop = true := by
  obtain ⟨above, below⟩ := inside
  simp only [containsEnd, Bool.or_eq_true, Bool.and_eq_true, decide_eq_true_eq]
  omega

theorem overlap_of_containsEnd {e : AsinfoEntry} {start stop : Nat}
    (hit : containsEnd e start stop = true) (ordered : start ≤ stop) (nonempty : e.start ≤ e.stop) :
    start ≤ e.stop ∧ e.start ≤ stop := by
  simp only [containsEnd, Bool.or_eq_true, Bool.and_eq_true, decide_eq_true_eq] at hit
  omega

theorem asHit_containsEnd {base : List AsinfoEntry} {start stop : Nat} {container : String}
    {e : AsinfoEntry} (hit : asHit base start stop container e = true) :
    containsEnd e start stop = true :=
  (Bool.and_eq_true_iff.mp hit).2

theorem asHit_of_name {base : List AsinfoEntry} {start stop x : Nat} {container : String}
    {e : AsinfoEntry} (same : e.name = container) (inside : x ∈ e.toSet) (low : start ≤ x)
    (high : x ≤ stop) : asHit base start stop container e = true :=
  Bool.and_eq_true_iff.mpr ⟨matchName_of_name same, containsEnd_of_mem inside low high⟩

/-! ## Pieces -/

def AsRange.toSet (r : AsRange) : Set Nat := Set.Icc r.start r.stop

def rangeSet (list : List AsRange) : Set Nat := {x | ∃ r ∈ list, x ∈ r.toSet}

theorem rangeSet_nil : rangeSet [] = ∅ := by
  simp [rangeSet]

theorem rangeSet_cons {r : AsRange} {list : List AsRange} :
    rangeSet (r :: list) = r.toSet ∪ rangeSet list := by
  ext x
  simp [rangeSet]

/-- The piece does not cut a range that ends below `2 ^ 32` off at its own end `2 ^ 32 - 1`. -/
def CutsCleanly (pieceStart pieceStop : Nat) : List AsRange → Prop
  | [] => True
  | curr :: next =>
    if curr.start ≤ pieceStart ∧ curr.stop ≥ pieceStart then
      pieceStop + 1 < PADDR_SPACE ∨ curr.stop = pieceStop
    else CutsCleanly pieceStart pieceStop next

section AddPiece

variable {pieceStart pieceStop owner : Nat} {list : List AsRange}

theorem subset_addPiece :
    rangeSet list ∪ Set.Icc pieceStart pieceStop ⊆
      rangeSet (addPiece pieceStart pieceStop owner list) := by
  induction list with
  | nil =>
    rw [addPiece, rangeSet_cons, rangeSet_nil, Set.empty_union, Set.union_empty]
    exact subset_rfl
  | cons curr next ih =>
    have wrap : paddr (pieceStop + 1) ≤ pieceStop + 1 := Nat.mod_le _ _
    rw [addPiece]
    split_ifs with hit same head tail
    all_goals
      intro x inside
      have later := @ih x
      simp only [rangeSet_cons, AsRange.toSet, Set.mem_union, Set.mem_Icc] at inside later ⊢
      grind

theorem addPiece_subset (nonempty : pieceStart ≤ pieceStop)
    (clean : CutsCleanly pieceStart pieceStop list) :
    rangeSet (addPiece pieceStart pieceStop owner list) ⊆
      rangeSet list ∪ Set.Icc pieceStart pieceStop := by
  induction list with
  | nil =>
    rw [addPiece, rangeSet_cons, rangeSet_nil, Set.empty_union, Set.union_empty]
    exact subset_rfl
  | cons curr next ih =>
    rw [CutsCleanly] at clean
    have wrap : pieceStop + 1 < PADDR_SPACE → paddr (pieceStop + 1) = pieceStop + 1 := paddr_of_lt
    rw [addPiece]
    split_ifs at clean ⊢ with hit same head tail
    all_goals
      intro x inside
      simp only [rangeSet_cons, AsRange.toSet, Set.mem_union, Set.mem_Icc] at inside ⊢
    · grind
    · grind
    · grind
    · grind
    · have later := @ih clean x
      simp only [Set.mem_union, Set.mem_Icc] at later
      grind

theorem addPiece_stop_le {bound : Nat} (old : ∀ r ∈ list, r.stop ≤ bound)
    (new : pieceStop ≤ bound) : ∀ r ∈ addPiece pieceStart pieceStop owner list, r.stop ≤ bound := by
  induction list with
  | nil => simpa [addPiece] using new
  | cons curr next ih =>
    obtain ⟨here, later⟩ := List.forall_mem_cons.mp old
    rw [addPiece]
    split_ifs with hit same head tail
    · exact List.forall_mem_cons.mpr ⟨here, later⟩
    · exact List.forall_mem_cons.mpr ⟨new, List.forall_mem_cons.mpr ⟨here, later⟩⟩
    · refine List.forall_mem_cons.mpr ⟨?_, List.forall_mem_cons.mpr ⟨new,
        List.forall_mem_cons.mpr ⟨here, later⟩⟩⟩
      simp only
      omega
    · refine List.forall_mem_cons.mpr ⟨?_, List.forall_mem_cons.mpr ⟨new, later⟩⟩
      simp only
      omega
    · exact List.forall_mem_cons.mpr ⟨here, ih later⟩

theorem addPiece_owner {r : AsRange} (mem : r ∈ addPiece pieceStart pieceStop owner list) :
    r.owner = owner ∨ ∃ q ∈ list, q.owner = r.owner := by
  induction list with
  | nil =>
    rw [addPiece, List.mem_singleton] at mem
    exact Or.inl (by rw [mem])
  | cons curr next ih =>
    have kept : r.owner = curr.owner ∨ r ∈ next → ∃ q ∈ curr :: next, q.owner = r.owner := by
      rintro (same | mem)
      · exact ⟨curr, List.mem_cons_self, same.symm⟩
      · exact ⟨r, List.mem_cons_of_mem _ mem, rfl⟩
    rw [addPiece] at mem
    split_ifs at mem with hit same head tail
    all_goals simp only [List.mem_cons] at mem
    · rcases mem with rfl | mem
      · exact Or.inl rfl
      · exact Or.inr (kept (Or.inr mem))
    · rcases mem with rfl | rfl | mem
      · exact Or.inl rfl
      · exact Or.inr (kept (Or.inl rfl))
      · exact Or.inr (kept (Or.inr mem))
    · rcases mem with rfl | rfl | rfl | mem
      · exact Or.inr (kept (Or.inl rfl))
      · exact Or.inl rfl
      · exact Or.inr (kept (Or.inl rfl))
      · exact Or.inr (kept (Or.inr mem))
    · rcases mem with rfl | rfl | mem
      · exact Or.inr (kept (Or.inl rfl))
      · exact Or.inl rfl
      · exact Or.inr (kept (Or.inr mem))
    · rcases mem with rfl | mem
      · exact Or.inr (kept (Or.inl rfl))
      · exact (ih mem).imp_right fun ⟨q, memQ, same⟩ => ⟨q, List.mem_cons_of_mem _ memQ, same⟩

end AddPiece

section CollectPieces

variable (base : List AsinfoEntry) (start stop : Nat) (container : String)

/-- Every piece cuts cleanly while `as_add_containing` collects. -/
def CollectsCleanly : Nat → Option Nat → List AsRange → Prop
  | 0, _, _ => True
  | fuel + 1, owner, list =>
    match asFindContaining base owner start stop container with
    | none => True
    | some o =>
      match base[o]? with
      | none => True
      | some as =>
        CutsCleanly (max start as.start) (min stop as.stop) list ∧
          CollectsCleanly fuel (some o)
            (addPiece (max start as.start) (min stop as.stop) o list)

/-- The entry is one of the containers. -/
def IsContainer (o : Nat) : Prop :=
  ∃ e, base[o]? = some e ∧ asHit base start stop container e = true

variable {base start stop container}

/-- The loop behind the entries `done`: the pieces cover what the containers
cover, belong to containers, and stay inside the range if they cut cleanly. -/
theorem collectPieces_spec {done todo : List AsinfoEntry} {fuel : Nat} {owner : Option Nat}
    {list : List AsRange} (split : base = done ++ todo) (next : offNext owner = done.length)
    (enough : todo.length < fuel) :
    let result := collectPieces base start stop container fuel owner list
    (rangeSet list ⊆ rangeSet result ∧
      ∀ e ∈ todo, asHit base start stop container e = true →
        Set.Icc (max start e.start) (min stop e.stop) ⊆ rangeSet result) ∧
    (∀ r ∈ result, (∃ q ∈ list, q.owner = r.owner) ∨
      IsContainer base start stop container r.owner) ∧
    ((∀ r ∈ list, r.stop ≤ stop) → ∀ r ∈ result, r.stop ≤ stop) ∧
    (start ≤ stop → (∀ e ∈ base, e.start ≤ e.stop) →
      CollectsCleanly base start stop container fuel owner list →
      rangeSet result ⊆ rangeSet list ∪ Set.Icc start stop) := by
  induction fuel generalizing done todo owner list with
  | zero => omega
  | succ fuel ih =>
    rcases asFindContaining_cases start stop container split next with
      ⟨mid, e, post, rfl, miss, hit, search⟩ | ⟨miss, search⟩
    · have here : base[done.length + mid.length]? = some e := by
        rw [split]
        simp
      have split' : base = (done ++ mid ++ [e]) ++ post := by
        rw [split]
        simp
      have later := @ih (done ++ mid ++ [e]) post (some (done.length + mid.length))
        (addPiece (max start e.start) (min stop e.stop) (done.length + mid.length) list)
        split' (by simp [offNext]; omega) (by simp at enough; omega)
      simp only [collectPieces, search, here]
      obtain ⟨⟨grows, covers⟩, owned, ends, inside⟩ := later
      have added := (subset_addPiece
        ).trans grows
      refine ⟨⟨Set.subset_union_left.trans added, fun f mem found => ?_⟩, fun r mem => ?_,
        fun below => ends (addPiece_stop_le below (min_le_left _ _)),
        fun ordered nonempty clean => ?_⟩
      · rcases List.mem_append.mp mem with mem | mem
        · rw [miss f mem] at found
          cases found
        · rcases List.mem_cons.mp mem with rfl | mem
          · exact Set.subset_union_right.trans added
          · exact covers f mem found
      · rcases owned r mem with ⟨q, memQ, same⟩ | contained
        · rcases addPiece_owner memQ with new | ⟨p, memP, old⟩
          · exact Or.inr ⟨e, by rw [← same, new]; exact here, hit⟩
          · exact Or.inl ⟨p, memP, old.trans same⟩
        · exact Or.inr contained
      · simp only [CollectsCleanly, search, here] at clean
        obtain ⟨cut, clean⟩ := clean
        have contained : e ∈ base := by
          rw [split']
          simp
        have overlap := overlap_of_containsEnd (asHit_containsEnd hit) ordered
          (nonempty e contained)
        have piece : max start e.start ≤ min stop e.stop := by
          have := nonempty e contained
          omega
        have grown := @addPiece_subset _ _ (done.length + mid.length) _ piece cut
        refine (inside ordered nonempty clean).trans (Set.union_subset ?_ Set.subset_union_right)
        refine grown.trans (Set.union_subset_union_right _ fun x mem => ?_)
        simp only [Set.mem_Icc] at mem ⊢
        omega
    · simp only [collectPieces, search]
      refine ⟨⟨subset_rfl, fun e mem found => ?_⟩, fun r mem => Or.inl ⟨r, mem, rfl⟩, id,
        fun _ _ _ => Set.subset_union_left⟩
      rw [miss e mem] at found
      cases found

end CollectPieces

/-! ## Adding entries -/

/-- The entry a range becomes, attributes aside. -/
def AsRange.entry (name : String) (r : AsRange) : AsinfoEntry :=
  ⟨r.start, r.stop, some r.owner, name, AS_ATTR_NONE⟩

theorem map_modify_same {β : Type} {g : AsinfoEntry → β} {es : List AsinfoEntry} {i : Nat}
    {f : AsinfoEntry → AsinfoEntry} (same : ∀ e, g (f e) = g e) :
    (es.modify i f).map g = es.map g := by
  refine List.ext_getElem? fun j => ?_
  rw [List.getElem?_map, List.getElem?_map, List.getElem?_modify]
  cases es[j]? with
  | none => rfl
  | some e =>
    split_ifs
    · exact congrArg some (same e)
    · rfl

/-- `as_add` appends one entry and returns where it is; only the kids of others are marked. -/
theorem asAdd_map {β : Type} {g : AsinfoEntry → β}
    (kids : ∀ e, g { e with attr := { e.attr with kids := true } } = g e) {as as' : Asinfo}
    {start stop off : Nat} {attr : AsAttr} {name : String} {owner : Option Nat}
    (flat : attr.overlayIo = false)
    (call : asAdd as start stop attr name owner = .ok (as', off)) :
    as'.entries.map g =
        as.entries.map g ++ [g ⟨start, stop, owner, name, { attr with overlayIo := false }⟩] ∧
      off = as.entries.length := by
  obtain ⟨⟨as₁, off₁⟩, append, call⟩ := Except.bind_eq_ok.mp call
  simp only [flat, Bool.false_eq_true, if_false] at call
  cases call
  unfold asAppend at append
  split at append
  · cases append
  · cases append
    refine ⟨?_, rfl⟩
    rw [List.map_append]
    congr 1
    cases owner with
    | none => rfl
    | some o => exact map_modify_same kids

theorem asAdd_spec {as as' : Asinfo} {start stop off : Nat} {attr : AsAttr} {name : String}
    {owner : Option Nat} (flat : attr.overlayIo = false)
    (call : asAdd as start stop attr name owner = .ok (as', off)) :
    as'.entries.map AsinfoEntry.bare =
        as.entries.map AsinfoEntry.bare ++ [⟨start, stop, owner, name, AS_ATTR_NONE⟩] ∧
      off = as.entries.length :=
  asAdd_map (fun _ => rfl) flat call

theorem addPieces_bare {attr : AsAttr} {name : String} {list : List AsRange} {as as' : Asinfo}
    {offs offs' : Option (Nat × Nat)} (flat : attr.overlayIo = false)
    (call : addPieces attr name list as offs = .ok (as', offs')) :
    as'.entries.map AsinfoEntry.bare = as.entries.map AsinfoEntry.bare ++
      (list.filter fun r => r.start ≤ r.stop).map (AsRange.entry name) := by
  induction list generalizing as offs with
  | nil =>
    cases call
    simp
  | cons r list ih =>
    rw [addPieces] at call
    split_ifs at call with nonempty
    · obtain ⟨⟨as₁, off⟩, added, call⟩ := Except.bind_eq_ok.mp call
      rw [ih call, (asAdd_spec flat added).1, List.filter_cons_of_pos (by simpa using nonempty),
        List.map_cons, List.append_assoc]
      rfl
    · rw [ih call, List.filter_cons_of_neg (by simpa using nonempty)]

/-- `as_add_containing` without `AS_OVERLAY_IO` appends an entry for every
nonempty piece and changes nothing else but attributes. -/
theorem asAddContaining_bare {as as' : Asinfo} {start stop : Nat} {attr : AsAttr}
    {name container : String} {first : Option Nat} (flat : attr.overlayIo = false)
    (call : asAddContaining as start stop attr name container = .ok (as', first)) :
    as'.entries.map AsinfoEntry.bare = as.entries.map AsinfoEntry.bare ++
      ((collectPieces as.entries start stop container (as.entries.length + 1) none []).filter
        fun r => r.start ≤ r.stop).map (AsRange.entry name) := by
  obtain ⟨⟨as₁, offs⟩, added, call⟩ := Except.bind_eq_ok.mp call
  rw [← addPieces_bare rfl added]
  cases offs with
  | none =>
    cases call
    rfl
  | some ends =>
    obtain ⟨startOff, off⟩ := ends
    simp only [flat, Bool.false_eq_true, if_false] at call
    cases call
    exact map_modify_same fun e => rfl

/-- `as_add_containing`, read as sets. -/
theorem asAddContaining_covers {as as' : Asinfo} {start stop : Nat} {attr : AsAttr}
    {name container : String} {first : Option Nat} (flat : attr.overlayIo = false)
    (call : asAddContaining as start stop attr name container = .ok (as', first)) :
    ∃ new, as'.entries.map AsinfoEntry.bare = as.entries.map AsinfoEntry.bare ++ new ∧
      (∀ e ∈ new, e.name = name ∧ e.start ≤ e.stop ∧ e.stop ≤ stop ∧
        ∃ o, e.owner = some o ∧ IsContainer as.entries start stop container o) ∧
      Set.Icc start stop ∩ namedSet container as.entries ⊆ namedSet name new ∧
      (start ≤ stop → (∀ e ∈ as.entries, e.start ≤ e.stop) →
        CollectsCleanly as.entries start stop container (as.entries.length + 1) none [] →
        namedSet name new ⊆ Set.Icc start stop) := by
  refine ⟨_, asAddContaining_bare flat call, ?_⟩
  obtain ⟨⟨-, covers⟩, owned, ends, inside⟩ := @collectPieces_spec _ _ _ _ [] _ _ none _ rfl rfl
      (Nat.lt_succ_self _)
  rw [rangeSet_nil, Set.empty_union] at inside
  refine ⟨fun e mem => ?_, ?_, fun ordered nonempty clean => ?_⟩
  · obtain ⟨r, memR, rfl⟩ := List.mem_map.mp mem
    obtain ⟨memR, nonempty⟩ := List.mem_filter.mp memR
    refine ⟨rfl, of_decide_eq_true nonempty, ends (by simp) r memR, r.owner, rfl, ?_⟩
    exact (owned r memR).resolve_left (by simp)
  · rintro x ⟨⟨low, high⟩, e, mem, same, within⟩
    obtain ⟨r, memR, inR⟩ := covers e mem (asHit_of_name same within low high)
      (show x ∈ Set.Icc _ _ from ⟨max_le low within.1, le_min high within.2⟩)
    refine ⟨r.entry name, List.mem_map_of_mem (List.mem_filter.mpr ⟨memR, ?_⟩), rfl, inR⟩
    simpa using inR.1.trans inR.2
  · rintro x ⟨e, mem, -, within⟩
    obtain ⟨r, memR, rfl⟩ := List.mem_map.mp mem
    exact inside ordered nonempty clean ⟨r, (List.mem_filter.mp memR).1, within⟩

end Mx6xBsp.Startup
