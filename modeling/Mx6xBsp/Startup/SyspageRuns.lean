import Mathlib.Order.CompletePartialOrder
import Mx6xBsp.Lib.Runs
import Mx6xBsp.Startup.SyspageSections

/-!
# Runs of section calls

The layout and the byte strings of the sections along any run of calls. The
calls must place sections as `fixed_size` supposes: a section that was set stays
as it is while others are still to be set (`Placeable`, `Fenced`). A set after
a grow of a set section puts the new section into the middle of the old one
(`syspage_overlap`).
-/

namespace Mx6xBsp.Startup

open Runs Finset

/-! ## Calls -/

namespace SyspageCall

open Syspage

/-- What the callers promise: a section is set where `Placeable` says, a request does not wrap
when it is rounded (one that does not fit the page's 16-bit limit crashes), the page moves to
memory of its own, and a store stays in its section. -/
def Proper (lsp : Syspage) : SyspageCall → Prop
  | .set sect size => lsp.Placeable sect ∧ size < 2 ^ 31
  | .grow _ add => add < 2 ^ 31
  | .reloc base maxSize => lsp.Relocatable base maxSize
  | .store sect off _ => off < lsp.size sect
  | .register .. => True

/-- What the boot code does: it sets sections that are empty and grows sections behind the
fixed area, so never one that it has set. -/
def Orderly (lsp : Syspage) : SyspageCall → Prop
  | .set sect size => lsp.size sect = 0 ∧ size < 2 ^ 31
  | .grow sect add => lsp.fixedEnd ≤ lsp.p sect ∧ add < 2 ^ 31
  | .reloc base maxSize => lsp.Relocatable base maxSize
  | .store sect off _ => off < lsp.size sect
  | .register .. => True

/-- What a call does to the byte strings of the sections. -/
def next (page : LocalSection → List UInt8) : SyspageCall → LocalSection → List UInt8
  | .set sect size => Function.update page sect (page sect ++ List.replicate (ROUND size 8) 0)
  | .grow sect add => Function.update page sect (page sect ++ List.replicate (ROUND add 8) 0)
  | .reloc .. => page
  | .store sect off val => Function.update page sect ((page sect).set off val)
  | .register .. => page

/-- `set_syspage_section`, `grow_syspage_section` or `reloc_syspage_memory`. -/
def OnLayout : SyspageCall → Prop
  | .set .. | .grow .. | .reloc .. => True
  | .store .. | .register .. => False

end SyspageCall

/-- A call its callers may make, and that does not crash. -/
def SyspageStep (lsp : Syspage) (call : SyspageCall) (lsp' : Syspage) : Prop :=
  call.Proper lsp ∧ call.exec lsp = .ok lsp'

def OrderlyStep (lsp : Syspage) (call : SyspageCall) (lsp' : Syspage) : Prop :=
  call.Orderly lsp ∧ call.exec lsp = .ok lsp'

namespace Syspage

variable {lsp lsp' : Syspage} {call : SyspageCall}

theorem Good.step (good : lsp.Good) (step : SyspageStep lsp call lsp') :
    lsp'.Good ∧ lsp'.bytes = call.next lsp.bytes ∧ (call.OnLayout → lsp.OwnersKept lsp') := by
  obtain ⟨proper, exec⟩ := step
  cases call with
  | set sect size =>
    obtain ⟨placeable, fits⟩ := proper
    obtain ⟨⟨grownPage, q⟩, grow, ⟨⟩⟩ := Except.bind_eq_ok.mp exec
    obtain ⟨small, grown⟩ := setSyspageSection_grown good placeable fits grow
    have laid := placeable.laid (n := ROUND size 8) good
    have fixed : grownPage.fixedSize = lsp.fixedSize + ROUND size 8 :=
      grown.fixedSize.trans (paddr_of_lt (by have := good.fixedLe; omega))
    refine ⟨⟨grown.laid laid, ?_, ?_⟩, ?_, fun _ =>
      placeable.ownersKept.trans (grown.ownersKept laid)⟩
    · have := good.fixedPos
      change 0 < grownPage.fixedSize
      omega
    · have := good.fixedLe
      change grownPage.fixedSize ≤ grownPage.totalSize
      have total : grownPage.totalSize = lsp.totalSize + ROUND size 8 := grown.total
      omega
    · rw [grown.bytes laid, placeable.bytes]
      rfl
  | grow sect add =>
    obtain ⟨⟨_, q⟩, grow, ⟨⟩⟩ := Except.bind_eq_ok.mp exec
    have grown := growSyspageSection_grown good.toLaid (le_of_lt proper) grow
    refine ⟨⟨grown.laid good.toLaid, ?_, ?_⟩, grown.bytes good.toLaid,
      fun _ => grown.ownersKept good.toLaid⟩
    · exact grown.fixedSize ▸ good.fixedPos
    · have := good.fixedLe
      rw [grown.fixedSize, grown.total]
      omega
  | reloc base maxSize =>
    cases exec
    exact ⟨⟨reloc_laid good.toLaid proper, good.fixedPos, good.fixedLe⟩,
      reloc_bytes good.toLaid proper, fun _ => reloc_ownersKept good.toLaid proper⟩
  | store sect off val =>
    cases exec
    exact ⟨⟨⟨good.apart, good.headerFirst, good.headerPos, good.inside, good.total,
      good.addressable, good.growable, good.maxSize_lt, good.totalSize_lt⟩, good.fixedPos,
      good.fixedLe⟩,
      store_bytes good.toLaid proper, False.elim⟩
  | register sect off data patcher =>
    cases exec
    exact ⟨⟨⟨good.apart, good.headerFirst, good.headerPos, good.inside, good.total,
      good.addressable, good.growable, good.maxSize_lt, good.totalSize_lt⟩, good.fixedPos,
      good.fixedLe⟩, rfl, False.elim⟩

/-- `init_syspage_memory` is given a buffer that holds the header and can grow to its limit. -/
structure InitFits (base maxSize hdrSize : Nat) : Prop where
  header : 0 < hdrSize
  header16 : ROUND hdrSize 8 < 65536
  room : base + ROUND hdrSize 8 < PADDR_SPACE
  limit : base + maxSize % 65536 < PADDR_SPACE
  hdrSize_lt : hdrSize < 65536

variable {base maxSize hdrSize : Nat} {patchData : List CoInfo} {mem : Mem}

theorem initSections_good (fits : InitFits base maxSize hdrSize) :
    (initSections base maxSize hdrSize patchData mem).Good := by
  obtain ⟨pos, header16, room, limit, small⟩ := fits
  have rounded := ROUND_eight (x := hdrSize) (by unfold PADDR_SPACE; omega)
  have first : paddr (base + ROUND hdrSize 8) = base + ROUND hdrSize 8 := paddr_of_lt room
  have total : ROUND hdrSize 8 % 65536 = ROUND hdrSize 8 := Nat.mod_eq_of_lt header16
  refine ⟨⟨?_, ?_, ?_, ?_, ?_, ?_, limit, Nat.mod_lt _ (by decide), Nat.mod_lt _ (by decide)⟩,
    ?_, ?_⟩
  · intro s t distinct
    simp only [stop, initSections, first]
    split <;> split <;> simp_all
  · intro s hs
    simp only [stop, initSections, first, if_neg hs]
    exact le_rfl
  · simp only [initSections, if_pos]
    omega
  · intro s
    simp only [stop, initSections, first, total]
    split <;> simp
  · simp [initSections, total]
  · simpa [initSections, total] using room
  · simp only [initSections]
    omega
  · simp [initSections, total]

/-! ## The fixed area -/

/-- The end of the fixed area is a boundary between sections. -/
def Fenced (lsp : Syspage) : Prop := ∀ s, lsp.fixedEnd ≤ lsp.p s ∨ lsp.stop s ≤ lsp.fixedEnd

theorem Fenced.placeable {sect : LocalSection} (fenced : lsp.Fenced)
    (empty : lsp.size sect = 0) : lsp.Placeable sect := ⟨empty, fun t _ => fenced t⟩

theorem Fenced.grown {sect : LocalSection} {n : Nat} (fenced : lsp.Fenced) (laid : lsp.Laid)
    (behind : lsp.fixedEnd ≤ lsp.p sect) (grown : Grown lsp sect n lsp') : lsp'.Fenced := by
  intro s
  have same : lsp'.fixedEnd = lsp.fixedEnd := by
    unfold fixedEnd
    rw [grown.header laid, grown.fixedSize]
  rw [same]
  by_cases hs : s = sect
  · subst hs
    exact Or.inl (grown.p_sect ▸ behind)
  · have := fenced s
    have := grown.other_cases laid hs
    have : lsp.p sect ≤ lsp.stop sect := Nat.le_add_right _ _
    omega

theorem Fenced.set {sect : LocalSection} {n : Nat} (fenced : lsp.Fenced) (good : lsp.Good)
    (placeable : lsp.Placeable sect) (fits : lsp.totalSize + n < PADDR_SPACE)
    (grown : Grown (lsp.place sect n) sect n lsp') : lsp'.Fenced := by
  have laid := placeable.laid (n := n) good
  have ends : (lsp.place sect n).stop sect = lsp.fixedEnd := by
    have : (lsp.place sect n).size sect = 0 := placeable.empty
    rw [stop, this, place_p_sect good, Nat.add_zero]
  have moved : lsp'.fixedEnd = lsp.fixedEnd + n := by
    have header : lsp'.p .syspage = lsp.p .syspage :=
      (grown.header laid).trans (place_p_other (Ne.symm (placeable.other good)))
    have fixed : lsp'.fixedSize = lsp.fixedSize + n :=
      grown.fixedSize.trans (paddr_of_lt (by have := good.fixedLe; omega))
    unfold fixedEnd
    omega
  intro s
  rw [moved]
  by_cases hs : s = sect
  · subst hs
    exact Or.inr (by rw [grown.stop_sect, ends])
  · have was := fenced s
    have cases := grown.other_cases laid hs
    rw [ends, place_p_other hs, place_stop_other hs] at cases
    omega

theorem Fenced.reloc {base maxSize : Nat} (fenced : lsp.Fenced) (good : lsp.Good)
    (place : lsp.Relocatable base maxSize) : (relocSyspageMemory lsp base maxSize).Fenced := by
  intro s
  have := fenced s
  have := good.header_le s
  have header : (relocSyspageMemory lsp base maxSize).fixedEnd = base + lsp.fixedSize := by
    unfold fixedEnd
    rw [reloc_p good.toLaid place, Nat.sub_self]
    rfl
  rw [header, reloc_p good.toLaid place, reloc_stop good.toLaid place]
  unfold fixedEnd at *
  omega

theorem Fenced.step (fenced : lsp.Fenced) (good : lsp.Good) (orderly : call.Orderly lsp)
    (exec : call.exec lsp = .ok lsp') : SyspageStep lsp call lsp' ∧ lsp'.Fenced := by
  cases call with
  | set sect size =>
    obtain ⟨empty, fits⟩ := orderly
    have placeable := fenced.placeable empty
    refine ⟨⟨⟨placeable, fits⟩, exec⟩, ?_⟩
    obtain ⟨⟨page, q⟩, set, ⟨⟩⟩ := Except.bind_eq_ok.mp exec
    obtain ⟨small, grown⟩ := setSyspageSection_grown good placeable fits set
    exact fenced.set good placeable small grown
  | grow sect add =>
    obtain ⟨behind, fits⟩ := orderly
    refine ⟨⟨fits, exec⟩, ?_⟩
    obtain ⟨⟨page, q⟩, grow, ⟨⟩⟩ := Except.bind_eq_ok.mp exec
    exact fenced.grown good.toLaid behind
      (growSyspageSection_grown good.toLaid (le_of_lt fits) grow)
  | reloc base maxSize =>
    refine ⟨⟨orderly, exec⟩, ?_⟩
    cases exec
    exact fenced.reloc good orderly
  | store sect off val =>
    refine ⟨⟨orderly, exec⟩, ?_⟩
    cases exec
    exact fenced
  | register sect off data patcher =>
    refine ⟨⟨trivial, exec⟩, ?_⟩
    cases exec
    exact fenced

theorem orderly_run {calls : List SyspageCall}
    (run : Run OrderlyStep lsp calls lsp') (good : lsp.Good) (fenced : lsp.Fenced) :
    Run SyspageStep lsp calls lsp' ∧ lsp'.Fenced := by
  induction run with
  | nil => exact ⟨.nil, fenced⟩
  | cons first _ ih =>
    obtain ⟨step, fenced'⟩ := fenced.step good first.1 first.2
    obtain ⟨run, ends⟩ := ih (good.step step).1 fenced'
    exact ⟨.cons step run, ends⟩

theorem initSections_fenced (fits : InitFits base maxSize hdrSize) :
    (initSections base maxSize hdrSize patchData mem).Fenced := by
  have first : paddr (base + ROUND hdrSize 8) = base + ROUND hdrSize 8 := paddr_of_lt fits.room
  intro s
  simp only [fixedEnd, stop, initSections, first, if_pos]
  split
  · exact Or.inr le_rfl
  · exact Or.inl le_rfl

/-! ## One growth, and stores -/

theorem Good.setMem {mem : Mem} (good : lsp.Good) : ({ lsp with mem := mem } : Syspage).Good :=
  ⟨⟨good.apart, good.headerFirst, good.headerPos, good.inside, good.total, good.addressable,
    good.growable, good.maxSize_lt, good.totalSize_lt⟩, good.fixedPos, good.fixedLe⟩

theorem grow_bytes {sect : LocalSection} {add q : Nat} (good : lsp.Good) (small : add < 2 ^ 31)
    (grow : growSyspageSection lsp sect add = .ok (lsp', q)) :
    lsp'.Good ∧ lsp'.bytes = Function.update lsp.bytes sect
      (lsp.bytes sect ++ List.replicate (ROUND add 8) 0) ∧ q = lsp'.p sect := by
  have exec : (SyspageCall.grow sect add).exec lsp = .ok lsp' := by
    simp only [SyspageCall.exec, grow, Except.ok_bind]
    rfl
  obtain ⟨good', bytes, _⟩ := @Syspage.Good.step _ _ (.grow sect add) good ⟨small, exec⟩
  refine ⟨good', bytes, ?_⟩
  unfold growSyspageSection at grow
  split at grow
  · dsimp only at grow
    split at grow
    · cases grow
    · cases grow
      rfl
  · cases grow
    rfl

/-! ## Sections along a run -/

/-- The bytes of the page that belong to a section. -/
def extent (lsp : Syspage) (sect : LocalSection) : Set Nat := Set.Ico (lsp.p sect) (lsp.stop sect)

theorem Laid.disjoint {s t : LocalSection} (laid : lsp.Laid) (distinct : s ≠ t) :
    Disjoint (lsp.extent s) (lsp.extent t) := by
  rw [Set.disjoint_left]
  intro a hs ht
  have := laid.apart s t distinct
  simp only [extent, Set.mem_Ico] at hs ht
  omega

theorem good_run {calls : List SyspageCall} (run : Run SyspageStep lsp calls lsp')
    (good : lsp.Good) : lsp'.Good :=
  run.invariant (I := Good) (fun good step => (good.step step).1) good

theorem bytes_run {calls : List SyspageCall} (run : Run SyspageStep lsp calls lsp')
    (good : lsp.Good) : lsp'.bytes = calls.foldl SyspageCall.next lsp.bytes :=
  (run.simulates (R := fun lsp page => lsp.Good ∧ lsp.bytes = page)
    (by
      rintro lsp call lsp' page ⟨good, rfl⟩ step
      have := good.step step
      exact ⟨this.1, this.2.1⟩)
    ⟨good, rfl⟩).2

theorem next_append {page : LocalSection → List UInt8} (layout : call.OnLayout)
    (s : LocalSection) : ∃ n, call.next page s = page s ++ List.replicate n 0 := by
  have grows : ∀ sect n, ∃ m, Function.update page sect (page sect ++ List.replicate n 0) s =
      page s ++ List.replicate m 0 := by
    intro sect n
    by_cases hs : s = sect
    · subst hs
      exact ⟨n, Function.update_self ..⟩
    · exact ⟨0, by rw [Function.update_of_ne hs, List.replicate_zero, List.append_nil]⟩
  cases call with
  | set sect size => exact grows sect _
  | grow sect add => exact grows sect _
  | reloc base maxSize => exact ⟨0, by simp [SyspageCall.next]⟩
  | store sect off val => exact layout.elim
  | register sect off data patcher => exact layout.elim

theorem foldl_next_append {calls : List SyspageCall} (layout : ∀ call ∈ calls, call.OnLayout)
    (page : LocalSection → List UInt8) (s : LocalSection) :
    ∃ n, calls.foldl SyspageCall.next page s = page s ++ List.replicate n 0 := by
  induction calls generalizing page with
  | nil => exact ⟨0, by simp⟩
  | cons call calls ih =>
    obtain ⟨m, first⟩ := next_append (layout call (List.mem_cons_self ..)) s
    obtain ⟨n, rest⟩ := ih (fun c hc => layout c (List.mem_cons_of_mem _ hc)) (call.next page)
    refine ⟨m + n, ?_⟩
    rw [List.foldl_cons, rest, first, List.append_assoc, List.replicate_append_replicate]

theorem ownersKept_run {calls : List SyspageCall} (run : Run SyspageStep lsp calls lsp')
    (layout : ∀ call ∈ calls, call.OnLayout) (good : lsp.Good) : lsp.OwnersKept lsp' := by
  induction run with
  | nil => exact OwnersKept.refl _
  | cons first _ ih =>
    obtain ⟨good', _, kept⟩ := good.step first
    exact (kept (layout _ (List.mem_cons_self ..))).trans
      (ih (fun c hc => layout c (List.mem_cons_of_mem _ hc)) good')

/-- In every run of proper calls from `init_syspage_memory` the sections are apart and make up
the page; from any state of such a run on, the layout calls keep each byte that a section holds
at its offset, append zeros, and keep each patch owner at its slot. -/
theorem syspage_run {before after : List SyspageCall} (fits : InitFits base maxSize hdrSize)
    (built : Run SyspageStep (initSections base maxSize hdrSize patchData mem) before lsp)
    (calls : Run SyspageStep lsp after lsp') (layout : ∀ call ∈ after, call.OnLayout) :
    Pairwise (fun s t => Disjoint (lsp'.extent s) (lsp'.extent t)) ∧
      (∀ s, lsp'.extent s ⊆
        Set.Ico (lsp'.p .syspage) (lsp'.p .syspage + lsp'.totalSize)) ∧
      lsp'.totalSize = lsp'.size .syspage + ∑ s ∈ univ.erase .syspage, lsp'.size s ∧
      (∀ s, ∃ n, lsp'.bytes s = lsp.bytes s ++ List.replicate n 0) ∧
      lsp.OwnersKept lsp' := by
  have good := good_run built (initSections_good fits)
  have good' := good_run calls good
  refine ⟨fun s t distinct => good'.disjoint distinct, fun s => ?_, ?_, fun s => ?_,
    ownersKept_run calls layout good⟩
  · exact Set.Ico_subset_Ico (good'.header_le s) (good'.inside s)
  · rw [good'.total, Finset.add_sum_erase univ lsp'.size (mem_univ _)]
  · rw [bytes_run calls good]
    exact foldl_next_append layout _ s

/-- The page at `0x10000` with a header of 112 bytes. -/
def smallPage : Syspage := initSections 0x10000 0x400 112 [] fun _ => 0

theorem smallPage_fits : InitFits 0x10000 0x400 112 :=
  ⟨by decide, by decide, by decide, by decide, by decide⟩

theorem syspage_run_small : ∃ lsp lsp' : Syspage,
    (∀ s, ∃ n, lsp'.bytes s = lsp.bytes s ++ List.replicate n 0) ∧
      lsp'.bytes .strings = [65, 0, 0, 0, 0, 0, 0, 0] ∧ lsp'.p .strings = 0x20000 + 128 := by
  have before : Run OrderlyStep smallPage [.set .callout 8, .grow .strings 5,
      .store .strings 0 65, .register .callout 0 1 true] _ :=
    .cons ⟨(⟨rfl, by decide⟩ : _ ∧ _), rfl⟩ <| .cons ⟨(⟨by decide, by decide⟩ : _ ∧ _), rfl⟩ <|
    .cons ⟨(by decide : _ < _), rfl⟩ <| .cons ⟨trivial, rfl⟩ .nil
  obtain ⟨built, fenced⟩ := orderly_run before (initSections_good smallPage_fits)
    (initSections_fenced smallPage_fits)
  have good := good_run built (initSections_good smallPage_fits)
  obtain ⟨calls, _⟩ := @orderly_run _ _ [.grow .typedStrings 4,
      .reloc 0x20000 0x8000, .set .qtime 8]
    (.cons ⟨by exact ⟨by decide, by decide⟩, by rfl⟩ <|
    .cons ⟨by exact ⟨by decide, by decide, by decide⟩, by rfl⟩ <|
    .cons ⟨by exact ⟨rfl, by decide⟩, by rfl⟩ .nil) good fenced
  have run := syspage_run smallPage_fits built calls (by simp [SyspageCall.OnLayout])
  exact ⟨_, _, run.2.2.2.1, by decide, rfl⟩

/-- A section set after an earlier one has grown lands in the middle of the earlier one. -/
theorem syspage_overlap : ∃ lsp lsp' : Syspage,
    Run (fun lsp call lsp' => SyspageCall.exec lsp call = .ok lsp') smallPage
      [.set .qtime 8, .grow .qtime 8, .store .qtime 8 1] lsp ∧
    SyspageCall.exec lsp (.set .pminfo 8) = .ok lsp' ∧
    (lsp.bytes .qtime)[8]? = some 1 ∧ (lsp'.bytes .qtime)[8]? = some 0 ∧
    ¬Disjoint (lsp'.extent .qtime) (lsp'.extent .pminfo) := by
  refine ⟨_, _, .cons rfl <| .cons rfl <| .cons rfl .nil, rfl, by decide, by decide, ?_⟩
  rw [Set.not_disjoint_iff]
  exact ⟨0x10000 + 120, ⟨by decide, by decide⟩, ⟨by decide, by decide⟩⟩

end Syspage

end Mx6xBsp.Startup
