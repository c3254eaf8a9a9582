import Mx6xBsp.Ipl.DirLookup

/-!
# Where a chain ends

The clusters that the directory walk and the file copy visit (`Visits`). The copy
counts bytes and never comes to the end of a chain; the walk stops at a value that
`end_of_file` knows, which are two of the eight that a chain may end with.
-/

namespace Mx6xBsp.Ipl

variable {vol : Volume} {s t u : Fat}

/-- From `s` to `t` these clusters are read, each from its first sector on, those `asked` for are
looked up in order, and nothing else is read or looked up. -/
def Visits (vol : Volume) (clusters asked : List UInt32) (s t : Fat) : Prop :=
  ∃ ops, t.trace = s.trace ++ ops ∧ ops.flatMap FatOp.asked = asked ∧
    (∀ c ∈ clusters, vol.info.cluster2fsector c ∈ ops.flatMap FatOp.sectors) ∧
    ∀ sector ∈ ops.flatMap FatOp.sectors, ∃ c ∈ clusters, sector ∈ vol.info.sectors c

theorem Visits.refl : Visits vol [] [] s s :=
  ⟨[], (List.append_nil _).symm, rfl, fun _ mem => (by cases mem), fun _ mem => (by cases mem)⟩

theorem Visits.trans {clusters clusters' asked asked' : List UInt32}
    (first : Visits vol clusters asked s t) (second : Visits vol clusters' asked' t u) :
    Visits vol (clusters ++ clusters') (asked ++ asked') s u := by
  obtain ⟨ops, before_, asks, starts, within⟩ := first
  obtain ⟨ops', after, asks', starts', within'⟩ := second
  refine ⟨ops ++ ops', ?_, ?_, fun c mem => ?_, fun sector mem => ?_⟩
  · rw [after, before_, List.append_assoc]
  · rw [List.flatMap_append, asks, asks']
  · rw [List.flatMap_append]
    rcases List.mem_append.mp mem with mem | mem
    · exact List.mem_append_left _ (starts c mem)
    · exact List.mem_append_right _ (starts' c mem)
  · rw [List.flatMap_append] at mem
    rcases List.mem_append.mp mem with mem | mem
    · obtain ⟨c, inside, sector_⟩ := within sector mem
      exact ⟨c, List.mem_append_left _ inside, sector_⟩
    · obtain ⟨c, inside, sector_⟩ := within' sector mem
      exact ⟨c, List.mem_append_right _ inside, sector_⟩

/-! ## The file copy -/

theorem first_sector {c : UInt32} (some_ : 0 < vol.info.clusterSize.toNat) :
    vol.info.cluster2fsector c ∈ vol.info.sectors c :=
  List.mem_map.mpr ⟨0, List.mem_range.mpr some_, UInt32.add_zero _⟩

theorem Loaded.visits {clusters asked : List UInt32} {buf : Nat}
    (some_ : 0 < vol.info.clusterSize.toNat)
    (loaded : Loaded vol clusters asked buf (s.next vol .start) t) :
    Visits vol clusters asked s t := by
  obtain ⟨ops, trace, asks, reads⟩ := loaded.trace
  refine ⟨.start :: ops, ?_, ?_, fun c mem => ?_, fun sector mem => ?_⟩
  · rw [trace]
    exact List.append_cons _ _ _ ▸ rfl
  · exact asks
  · change _ ∈ ops.flatMap FatOp.sectors
    rw [reads]
    exact List.mem_flatMap.mpr ⟨c, mem, first_sector some_⟩
  · have mem : sector ∈ ops.flatMap FatOp.sectors := mem
    rw [reads] at mem
    exact List.mem_flatMap.mp mem

/-! ## The directory walk -/

theorem visits_cluster {c : UInt32} {k : Nat} {asked : List UInt32}
    (few : k ≤ vol.info.clusterSize.toNat)
    (some_ : 0 < k) (trace : t.trace = s.trace ++ ((List.range k).map fun i =>
      .readDir (vol.info.cluster2fsector c + UInt32.ofNat i)) ++ asked.map .getFatEntry) :
    Visits vol [c] asked s t := by
  let reads : List FatOp := (List.range k).map fun i =>
    .readDir (vol.info.cluster2fsector c + UInt32.ofNat i)
  have none : ∀ sector, sector ∉ (asked.map FatOp.getFatEntry).flatMap FatOp.sectors := by
    intro sector mem
    obtain ⟨op, inside, mem⟩ := List.mem_flatMap.mp mem
    obtain ⟨d, -, rfl⟩ := List.mem_map.mp inside
    cases mem
  have sectors : ∀ sector, sector ∈ reads.flatMap FatOp.sectors ↔
      ∃ i < k, vol.info.cluster2fsector c + UInt32.ofNat i = sector := by
    intro sector
    rw [List.flatMap_map, List.mem_flatMap]
    constructor
    · rintro ⟨i, below, mem⟩
      exact ⟨i, List.mem_range.mp below, (List.mem_singleton.mp mem).symm⟩
    · rintro ⟨i, below, rfl⟩
      exact ⟨i, List.mem_range.mpr below, List.mem_singleton_self _⟩
  refine ⟨reads ++ asked.map .getFatEntry, ?_, ?_, ?_, fun sector mem => ?_⟩
  · rw [trace, List.append_assoc]
  · have unasked : reads.flatMap FatOp.asked = [] := by
      rw [List.flatMap_map]
      exact List.flatMap_eq_nil_iff.mpr fun i _ => rfl
    rw [List.flatMap_append, unasked, List.flatMap_map]
    exact List.flatMap_singleton' asked
  · refine List.forall_mem_singleton.mpr ?_
    rw [List.flatMap_append]
    exact List.mem_append_left _ ((sectors _).mpr ⟨0, some_, UInt32.add_zero _⟩)
  · rw [List.flatMap_append] at mem
    rcases List.mem_append.mp mem with mem | mem
    · obtain ⟨i, below, rfl⟩ := (sectors sector).mp mem
      exact ⟨c, List.mem_singleton_self c,
        List.mem_map.mpr ⟨i, List.mem_range.mpr (below.trans_le few), rfl⟩⟩
    · exact absurd mem (none sector)

variable {name : List UInt8}

theorem walk_through (name : List UInt8) {pre : List UInt32} {c d : UInt32}
    (works : ∀ n, vol.fault n = none)
    (type : vol.info.fatType = .fat32) (some_ : 0 < vol.info.clusterSize.toNat)
    (untagged : s.cacheValid = false) (linked : vol.Linked (pre ++ [d]))
    (start : (pre ++ [d]).head? = some c)
    (inside : ∀ e ∈ pre, vol.info.endOfFile e = false)
    (nothing : ∀ e ∈ pre, vol.taken name (vol.clusterSlots e) = none) :
    ∃ t, t.cacheValid = false ∧ Visits vol pre pre s t ∧
      ∀ fuel, lookFat32 vol name (fuel + pre.length) c s = lookFat32 vol name fuel d t := by
  induction pre generalizing c s with
  | nil =>
    cases start
    exact ⟨s, untagged, .refl, fun _ => rfl⟩
  | cons e pre ih =>
    cases start
    obtain ⟨t, k, untagged', few, more, trace, call⟩ := lookFat32_cluster name works
      type untagged (inside e List.mem_cons_self)
    have here := nothing e List.mem_cons_self
    rw [here] at trace call
    obtain ⟨next, nonempty⟩ : ∃ next, (pre ++ [d]).head? = some next := by
      cases pre with
      | nil => exact ⟨d, rfl⟩
      | cons f pre => exact ⟨f, rfl⟩
    obtain ⟨tail, split⟩ := List.head?_eq_some_iff.mp nonempty
    have linked_ : vol.Linked (e :: next :: tail) := by
      rw [← split]
      exact linked
    obtain ⟨entry, linked'⟩ := List.isChain_cons_cons.mp linked_
    obtain ⟨u, untagged'', visits, rest⟩ := ih (c := next) untagged' (split ▸ linked') nonempty
      (fun f mem => inside f (List.mem_cons_of_mem _ mem))
      fun f mem => nothing f (List.mem_cons_of_mem _ mem)
    have first : Visits vol [e] [e] s t := visits_cluster few (more some_) trace
    refine ⟨u, untagged'', first.trans visits, fun fuel => ?_⟩
    rw [List.length_cons, ← Nat.add_assoc, call, entry]
    exact rest fuel

theorem lookFat32_trace {fuel left : Nat} {c : UInt32} {found : Option Slot}
    (works : ∀ n, vol.fault n = none) (type : vol.info.fatType = .fat32)
    (untagged : s.cacheValid = false)
    (call : lookFat32 vol name fuel c s = some (left, t, found)) :
    ∃ ops, t.trace = s.trace ++ ops ∧
      (vol.info.endOfFile c = false → found = none → c ∈ ops.flatMap FatOp.asked) := by
  induction fuel generalizing c s with
  | zero => cases call
  | succ fuel ih =>
    cases ended : vol.info.endOfFile c with
    | true =>
      rw [lookFat32, if_pos ended] at call
      cases call
      exact ⟨[], (List.append_nil _).symm, fun inside => by cases inside⟩
    | false =>
      obtain ⟨u, k, untagged', -, -, trace, step⟩ := lookFat32_cluster name works type
        untagged ended
      rw [step fuel] at call
      cases here : vol.taken name (vol.clusterSlots c) with
      | some slot =>
        rw [here] at call trace
        cases call
        refine ⟨_, trace.trans (List.append_assoc _ _ _), fun _ none => by cases none⟩
      | none =>
        rw [here] at call trace
        obtain ⟨ops, more, -⟩ := ih untagged' call
        refine ⟨_, by rw [more, trace, List.append_assoc, List.append_assoc], fun _ _ => ?_⟩
        rw [List.flatMap_append, List.flatMap_append]
        exact List.mem_append_right _ (List.mem_append_left _ (List.mem_singleton_self c))

/-- The walk visits the clusters of the chain in order, up to the one in which it finds an entry, or
all of them, and then stops. -/
def WalkStops (vol : Volume) (name : List UInt8) (chain : List UInt32) (s : Fat) : Prop :=
  ∃ fuel left t found visited, lookNamedFile vol name fuel s = some (left, t, found) ∧
    visited <+: chain ∧ (found = none → visited = chain) ∧
    Visits vol visited (if found.isSome then visited.dropLast else visited) s t

/-- The code takes an entry from one of the clusters. -/
def TakenIn (vol : Volume) (name : List UInt8) (chain : List UInt32) : Prop :=
  ∃ c ∈ chain, (vol.taken name (vol.clusterSlots c)).isSome = true

/-- The chain ends with one of the values that `end_of_file` knows of FAT32. -/
def KnownEnd (vol : Volume) (chain : List UInt32) : Prop :=
  ∀ c ∈ chain.getLast?, vol.fatEntry c = 0x0ffffff8 ∨ vol.fatEntry c = 0x0fffffff

instance (chain : List UInt32) : Decidable (KnownEnd vol chain) :=
  Option.decidableForallMem chain.getLast?

theorem walk_chain {c : UInt32} {rest : List UInt32} (works : ∀ n, vol.fault n = none)
    (type : vol.info.fatType = .fat32) (some_ : 0 < vol.info.clusterSize.toNat)
    (untagged : s.cacheValid = false) (chain : vol.Chain (c :: rest))
    (nothing : ¬TakenIn vol name (c :: rest)) :
    ∃ last t, (c :: rest).getLast? = some last ∧ t.cacheValid = false ∧
      Visits vol (c :: rest) (c :: rest) s t ∧
      ∀ fuel, lookFat32 vol name (fuel + (c :: rest).length) c s =
        lookFat32 vol name fuel (vol.fatEntry last) t := by
  let last := (c :: rest).getLast (List.cons_ne_nil _ _)
  have linked : vol.Linked ((c :: rest) ++ [vol.fatEntry last]) := by
    refine List.isChain_append.mpr ⟨chain.linked, List.isChain_singleton _, ?_⟩
    intro x mem y mem'
    rw [List.getLast?_eq_getLast_of_ne_nil (List.cons_ne_nil _ _)] at mem
    cases mem
    cases mem'
    rfl
  obtain ⟨t, untagged', visits, call⟩ := walk_through name works type some_ untagged
    linked rfl chain.inside fun e mem => by
      cases here : vol.taken name (vol.clusterSlots e) with
      | none => rfl
      | some slot => exact absurd ⟨e, mem, by rw [here]; rfl⟩ nothing
  exact ⟨last, t, List.getLast?_eq_getLast_of_ne_nil _, untagged', visits, call⟩

theorem endOfFile_iff (type : vol.info.fatType = .fat32) {e : UInt32} :
    vol.info.endOfFile e = true ↔ e = 0x0ffffff8 ∨ e = 0x0fffffff := by
  unfold FsInfo.endOfFile
  rw [type]
  simp

theorem walkStops_of_taken {c : UInt32} {rest : List UInt32} (works : ∀ n, vol.fault n = none)
    (type : vol.info.fatType = .fat32) (some_ : 0 < vol.info.clusterSize.toNat)
    (untagged : s.cacheValid = false) (chain : vol.Chain (c :: rest))
    (root : vol.info.rootDirStart = c) (taken : TakenIn vol name (c :: rest)) :
    WalkStops vol name (c :: rest) s := by
  obtain ⟨d, mem, found⟩ := taken
  let test : UInt32 → Bool := fun e => (vol.taken name (vol.clusterSlots e)).isSome
  obtain ⟨e, first⟩ := Option.isSome_iff_exists.mp
    (List.find?_isSome (p := test).mpr ⟨d, mem, found⟩)
  obtain ⟨here, pre, post, split, nothing⟩ := List.find?_eq_some_iff_append.mp first
  obtain ⟨slot, here⟩ := Option.isSome_iff_exists.mp here
  have whole : c :: rest = pre ++ [e] ++ post := by rw [split, List.append_assoc]; rfl
  have linked : vol.Linked (pre ++ [e]) := by
    have linked := chain.linked
    rw [whole] at linked
    exact (List.isChain_append.mp linked).1
  have start : (pre ++ [e]).head? = some c := by
    cases pre with
    | nil => exact congrArg some (List.cons.inj split).1.symm
    | cons f pre => exact congrArg some (List.cons.inj split).1.symm
  have inside : ∀ f ∈ pre ++ [e], vol.info.endOfFile f = false := fun f mem =>
    chain.inside f (whole ▸ List.mem_append_left _ mem)
  obtain ⟨t, untagged', visits, call⟩ := walk_through name works type some_ untagged
    linked start (fun f mem => inside f (List.mem_append_left _ mem)) fun f mem => by
      simpa [test] using nothing f mem
  obtain ⟨u, k, -, few, more, trace, step⟩ := lookFat32_cluster name works type
    untagged' (inside e (List.mem_append_right _ (List.mem_singleton_self e)))
  rw [here] at trace step
  have last : Visits vol [e] [] t u := visits_cluster few (more some_) trace
  refine ⟨1 + pre.length, 0, u, some slot, pre ++ [e], ?_, ⟨post, whole.symm⟩,
    fun none => (by cases none), ?_⟩
  · rw [lookNamedFile_chained type, root, call]
    exact step 0
  · have visits := visits.trans last
    rw [List.append_nil] at visits
    rw [if_pos (by rfl), List.dropLast_concat]
    exact visits

theorem walkStops_iff {c : UInt32} {rest : List UInt32} (works : ∀ n, vol.fault n = none)
    (type : vol.info.fatType = .fat32) (some_ : 0 < vol.info.clusterSize.toNat)
    (untagged : s.cacheValid = false) (chain : vol.Chain (c :: rest))
    (root : vol.info.rootDirStart = c) :
    WalkStops vol name (c :: rest) s ↔
      TakenIn vol name (c :: rest) ∨ KnownEnd vol (c :: rest) := by
  by_cases taken : TakenIn vol name (c :: rest)
  · exact ⟨fun _ => Or.inl taken, fun _ =>
      walkStops_of_taken works type some_ untagged chain root taken⟩
  · rw [or_iff_right taken]
    obtain ⟨last, t, last_, untagged', visits, call⟩ :=
      walk_chain works type some_ untagged chain taken
    have known : KnownEnd vol (c :: rest) ↔ vol.info.endOfFile (vol.fatEntry last) = true := by
      rw [endOfFile_iff type]
      unfold KnownEnd
      rw [last_]
      simp
    rw [known]
    constructor
    · rintro ⟨fuel, left, u, found, visited, ends, prefix_, all, ⟨ops, trace, asks, -⟩⟩
      by_contra unknown
      have unknown := Bool.eq_false_iff.mpr unknown
      -- the walk goes on behind the chain
      obtain ⟨ops', trace', asks', -⟩ := visits
      rw [lookNamedFile_chained type, root] at ends
      have longer : lookFat32 vol name (fuel + (c :: rest).length) c s = _ := lookFat32_more ends
      have later := (call fuel).symm.trans longer
      obtain ⟨more, trace'', asked⟩ := lookFat32_trace works type untagged' later
      rw [trace, trace', List.append_assoc] at trace''
      have split := List.append_cancel_left trace''
      rw [split, List.flatMap_append, asks'] at asks
      have few := prefix_.length_le
      have lengths := congrArg List.length asks
      rw [List.length_append] at lengths
      cases found with
      | none =>
        have mem := asked unknown rfl
        rw [if_neg (by decide), all rfl] at lengths
        have positive := List.length_pos_of_mem mem
        omega
      | some slot =>
        rw [if_pos (by rfl), List.length_dropLast] at lengths
        have nonempty : 0 < (c :: rest).length := Nat.succ_pos _
        omega
    · intro ended
      refine ⟨1 + (c :: rest).length, 0, t, none, c :: rest, ?_, List.prefix_rfl, fun _ => rfl,
        visits⟩
      rw [lookNamedFile_chained type, root, call]
      exact if_pos ended

theorem copyVisits_iff {cluster size : UInt32} {rest : List UInt32} {buf k : Nat}
    (works : ∀ n, vol.fault n = none) (power : vol.info.clusterSize.toNat = 2 ^ k)
    (chain : vol.Chain (cluster :: rest))
    (enough : size.toNat ⌈/⌉ vol.info.cbytes ≤ (cluster :: rest).length) :
    (∀ s, ∃ fuel t, fatCopyFile vol fuel cluster size buf s = some (t, true) ∧
        Visits vol (vol.info.clusters size (cluster :: rest))
          (vol.info.clusters size (cluster :: rest)).dropLast s t) ↔
      SizeFits vol.info size (cluster :: rest) := by
  constructor
  · intro copies
    by_contra long
    obtain ⟨fuel, t, call, ops, trace, -, starts, -⟩ := copies (.boot (fun _ => 0) fun _ => 0)
    obtain ⟨big, rfl⟩ := fatCopyFile_too_long works power chain.linked enough long call
    obtain rfl : [FatOp.start] = ops := trace
    have some_ : 0 < size.toNat ⌈/⌉ vol.info.cbytes := by
      refine Nat.pos_of_ne_zero fun none => ?_
      have := (ceilDiv_le_iff_le_mul (cbytes_pos power)).mp none.le
      omega
    obtain ⟨n, count⟩ := Nat.exists_eq_add_of_le some_
    rw [FsInfo.clusters, count, Nat.add_comm, List.take_succ_cons] at starts
    cases starts cluster List.mem_cons_self
  · intro fits s
    obtain ⟨t, call, loaded⟩ := fatCopyFile_loads buf works power chain.linked enough fits s
    exact ⟨_, t, call, loaded.visits (power ▸ Nat.two_pow_pos k)⟩

/-- The walk over the root directory stops behind its chain exactly when it finds something in it or
the chain ends with a value that `end_of_file` knows; the copy of a file stays within its chain
exactly when the size of the file fits. -/
theorem chain_ends_iff (vol : Volume) (cluster : UInt32) (rest : List UInt32) (k : Nat)
    (works : ∀ n, vol.fault n = none) (power : vol.info.clusterSize.toNat = 2 ^ k)
    (chain : vol.Chain (cluster :: rest)) :
    (vol.info.fatType = .fat32 → vol.info.rootDirStart = cluster →
        ∀ name s, s.cacheValid = false →
          (WalkStops vol name (cluster :: rest) s ↔
            TakenIn vol name (cluster :: rest) ∨ KnownEnd vol (cluster :: rest))) ∧
      ∀ size buf, size.toNat ⌈/⌉ vol.info.cbytes ≤ (cluster :: rest).length →
        ((∀ s, ∃ fuel t, fatCopyFile vol fuel cluster size buf s = some (t, true) ∧
            Visits vol (vol.info.clusters size (cluster :: rest))
              (vol.info.clusters size (cluster :: rest)).dropLast s t) ↔
          SizeFits vol.info size (cluster :: rest)) :=
  ⟨fun type root _ _ untagged =>
      walkStops_iff works type (power ▸ Nat.two_pow_pos k) untagged chain root,
    fun _ _ enough => copyVisits_iff works power chain enough⟩

/-- The walk over the directory of the example volume, for a name it does not have -/
theorem chain_ends_known : WalkStops twoClusters [0x42] [2, 3] (.boot blank blank) :=
  ((chain_ends_iff twoClusters 2 [3] 0 (fun _ => rfl) rfl
    ⟨List.isChain_cons_cons.mpr ⟨by decide, List.isChain_singleton _⟩,
      List.forall_mem_cons.mpr ⟨by decide, List.forall_mem_singleton.mpr (by decide)⟩,
      forall_mem_some.mpr (by decide)⟩).1 rfl rfl [0x42] (.boot blank blank) rfl).mpr
    (Or.inr (by decide))

/-- FAT32 with a root directory of one empty cluster, whose chain ends with `0x0ffffff9` -/
def otherEnd : Volume where
  info := ⟨0, .fat32, 0, 1, 1, 2, 2, FsInfo.reservedWord_one, FsInfo.clusterByte_one⟩
  block b i := if b = 1 then longs [0x0ffffff8, 0x0fffffff, 0x0ffffff9] i else 0
  fault _ := none

/-- The end value is taken for a cluster. -/
theorem chain_ends_other : otherEnd.Chain [2] ∧ ¬TakenIn otherEnd [0x41] [2] ∧
    ¬WalkStops otherEnd [0x41] [2] (.boot blank blank) := by
  have chain : otherEnd.Chain [2] := ⟨List.isChain_singleton _,
    List.forall_mem_singleton.mpr (by decide), forall_mem_some.mpr (by decide)⟩
  have empty : ¬TakenIn otherEnd [0x41] [2] := by
    rintro ⟨c, mem, found⟩
    obtain rfl := List.mem_singleton.mp mem
    revert found
    decide
  refine ⟨chain, empty, fun stops => ?_⟩
  rcases (walkStops_iff (fun _ => rfl) rfl (by decide) rfl chain rfl).mp stops with taken | known
  · exact empty taken
  · revert known
    decide

end Mx6xBsp.Ipl
