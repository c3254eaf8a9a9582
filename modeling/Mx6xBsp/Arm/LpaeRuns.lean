import Mx6xBsp.Arm.LpaeTables
import Mx6xBsp.Lib.Mappings
import Mx6xBsp.Lib.Runs

/-!
# Runs of mappings with LPAE

The loop of `arm_lpae_map` that fills an L3 table goes on to the next multiple of 16 MB, so a
range must have no other border of 2 MB in it (`fillPds_spec`). Of the tables of the kernel
all processors must have one for a slot or none; `arm_lpae_map_cpu` keeps to its processor as
long as no other one shares the table. `lpae_map_run` follows a run of the calls in the view
of an address space per processor.
-/

namespace Mx6xBsp.Arm.Lpae

open Startup Runs Masks Mappings

variable {m : Mmu} {window : Option Nat} {t t' : Tables}

/-! ## The walk -/

theorem vaddrToPaddr_eq {cpu page base off : Nat} (inv : Inv m window t) (known : cpu < m.numCpu)
    (low : page < 2 ^ 20) (out : some (page / 512) ≠ window)
    (mapped : m.translate t cpu page = some base) (inside : off < PAGESIZE) :
    (m.vaddrToPaddr t cpu (page * PAGESIZE + off)).toNat = base * PAGESIZE + off := by
  unfold PAGESIZE at inside ⊢
  have slot : (page * 4096 + off) / 2 ^ 21 = page / 512 := by omega
  have index : (page * 4096 + off) / PAGESIZE % 512 = page % 512 := by
    unfold PAGESIZE
    omega
  unfold Mmu.vaddrToPaddr
  dsimp only
  rw [l2_eq, slot, index]
  unfold Mmu.translate at mapped
  dsimp only at mapped
  have addr (d : Desc) : (d &&& ARM_LPAE_DESC_ADDR_MASK).toNat = pageOf d * 4096 := by
    rw [toNat_and_addr, pageOf_eq]
  split at mapped
  · rename_i block
    cases mapped
    rw [if_pos (kind_eq_one.mpr block), toNat_mask_add (k := 21) rfl (by decide), addr]
    omega
  · rename_i noBlock
    rw [if_neg fun block => noBlock (kind_eq_one.mp block)]
    split at mapped
    · rename_i table
      obtain ⟨small', -⟩ := inv.tables cpu known _ (by omega) out _ ⟨table, rfl⟩
      split at mapped
      · cases mapped
        rw [ptrOf_eq small', BitVec.toNat_add, @toNat_and_low _ _ 12 PGMASK rfl,
          BitVec.toNat_ofNat, addr]
        have bound := pageOf_eq (d := t.mem (pageOf (t.mem (m.l2Entry cpu (page / 512))) * 512 +
          page % 512))
        omega
      · cases mapped
    · cases mapped

/-! ## Parts of a mapping -/

/-- The virtual pages of the processors, but for those in the window -/
def Mmu.Scope (m : Mmu) (window : Option Nat) (cpu page : Nat) : Prop :=
  cpu < m.numCpu ∧ page < 2 ^ 20 ∧ some (page / 512) ≠ window

/-- All processors have an L3 table for the slot, or none has and nothing is mapped there. -/
def Mmu.Uniform (m : Mmu) (t : Tables) (slot : Nat) : Prop :=
  (∀ c < m.numCpu, ∃ p, m.HasTable t c slot p) ∨ ∀ c < m.numCpu, m.Absent t c slot

/-- The page of the memory for page `page` of a mapping of `pa` from page `first` on -/
def target (first : Nat) (pa : Desc) (page : Nat) : Nat := (pageOf pa + (page - first)) % 2 ^ 28

/-- A part of a mapping of the pages of `range` -/
structure MapsTo (m : Mmu) (window : Option Nat) (range : Nat → Prop) (value : Nat → Nat)
    (done : Nat → Nat → Prop) (t t' : Tables) : Prop where
  inv : Inv m window t'
  uniform : ∀ slot < 2048, m.Uniform t slot → m.Uniform t' slot
  next : t'.nextAddr = t.nextAddr
  part : Part (m.Scope window) range value done (m.translate t) (m.translate t')

namespace MapsTo

variable {range : Nat → Prop} {value : Nat → Nat} {done more : Nat → Nat → Prop} {u : Tables}
  {cpu slot ptbl off vaddr : Nat} {flags : BitVec 32}

theorem refl (inv : Inv m window t) : MapsTo m window range value (fun _ _ => False) t t :=
  ⟨inv, fun _ _ h => h, rfl, .same fun _ _ _ => rfl⟩

theorem trans (left : MapsTo m window range value done t t')
    (right : MapsTo m window range value more t' u) :
    MapsTo m window range value (fun c page => done c page ∨ more c page) t u :=
  ⟨right.inv, fun slot low h => right.uniform slot low (left.uniform slot low h),
    right.next.trans left.next, left.part.trans right.part⟩

theorem mono (part : MapsTo m window range value done t t')
    (less : ∀ c < m.numCpu, ∀ page, range page → more c page → done c page) :
    MapsTo m window range value more t t' :=
  ⟨part.inv, part.uniform, part.next,
    part.part.mono fun c page here into => less c here.1 page into⟩

theorem store {d : Desc} (inv : Inv m window t) (known : cpu < m.numCpu) (low : slot < 2048)
    (out : some slot ≠ window) (table : m.HasTable t cpu slot ptbl) (inside : off < 512)
    (is : small d = some (value (512 * slot + off))) (here : range (512 * slot + off)) :
    MapsTo m window range value
      (fun c page => m.HasTable t c slot ptbl ∧ page = 512 * slot + off) t
      (t.store (ptbl * 512 + off) d) := by
  have same {c s : Nat} (hc : c < m.numCpu) (hs : s < 2048) :=
    store_l2 inv known low out table inside d hc hs
  refine ⟨store_inv inv known low out table inside d, fun s hs uniform => ?_, rfl,
    .single here fun c page scope => ?_⟩
  · rcases uniform with every | nothing
    · refine .inl fun c hc => ?_
      obtain ⟨q, has⟩ := every c hc
      exact ⟨q, (hasTable_congr (same hc hs)).mpr has⟩
    · refine .inr fun c hc => ?_
      unfold Mmu.Absent
      rw [same hc hs]
      exact nothing c hc
  · rw [translate_store inv known low out table inside d scope.1 scope.2.1 scope.2.2, is]

theorem attach {t₁ : Tables} (inv : Inv m window t) (alloc : t.callocRam = some (ptbl, t₁))
    (set : SetL2 m (fun _ => True) slot (m.tableEntry (addrOf ptbl) flags) t₁ t')
    (low : slot < 2048) (absent : ∀ c < m.numCpu, m.Absent t c slot) :
    MapsTo m window range value (fun _ _ => False) t t' ∧
      ∀ c < m.numCpu, m.HasTable t' c slot ptbl := by
  obtain ⟨inv', has, same, kept, next⟩ := inv.attach alloc set low fun c hc _ => absent c hc
  have tables : ∀ c < m.numCpu, m.HasTable t' c slot ptbl := fun c hc => has c hc trivial
  refine ⟨⟨inv', fun s hs uniform => ?_, next,
    .same fun c page scope => kept c scope.1 page scope.2.1 scope.2.2⟩, tables⟩
  by_cases here : s = slot
  · exact .inl fun c hc => ⟨ptbl, here ▸ tables c hc⟩
  · have unchanged (c : Nat) (hc : c < m.numCpu) := same c hc s hs fun both => here both.2
    rcases uniform with every | nothing
    · refine .inl fun c hc => ?_
      obtain ⟨q, table⟩ := every c hc
      exact ⟨q, (hasTable_congr (unchanged c hc)).mpr table⟩
    · refine .inr fun c hc => ?_
      unfold Mmu.Absent
      rw [unchanged c hc]
      exact nothing c hc

end MapsTo

/-! ## `arm_lpae_map` -/

theorem small_tableEntry (paddr : Desc) (flags : BitVec 32) :
    small (m.tableEntry paddr flags) = some (pageOf paddr) := by
  unfold small
  rw [if_pos (kind_tableEntry paddr flags), pageOf_tableEntry]

theorem pageOf_add (pa : Desc) :
    pageOf (pa + BitVec.ofNat 64 PAGESIZE) = (pageOf pa + 1) % 2 ^ 28 := by
  have value : (pa + BitVec.ofNat 64 PAGESIZE).toNat = (pa.toNat + 4096) % 2 ^ 64 := by
    rw [BitVec.toNat_add, BitVec.toNat_ofNat]
    rfl
  rw [pageOf_eq, pageOf_eq, value]
  omega

theorem target_succ {first page : Nat} {pa : Desc} (after : first ≤ page) :
    target first pa (page + 1) = (target first pa page + 1) % 2 ^ 28 := by
  unfold target
  omega

variable {first last : Nat} {pa₀ : Desc} {flags : BitVec 32}

/-- The `for` loop, from page `512 * slot + s` on, as long as it stays in the L3 table -/
theorem fillPds_spec {cpu slot p i s n left : Nat} {pa pa' : Desc} (inv : Inv m window t)
    (known : cpu < m.numCpu) (low : slot < 2048) (out : some slot ≠ window)
    (table : m.HasTable t cpu slot p) (inSlot : s + min n (4096 - i) ≤ 512)
    (is : pageOf pa = target first pa₀ (512 * slot + s)) (after : first ≤ 512 * slot + s)
    (high : 512 * slot + s + n = last)
    (call : m.fillPds flags n i (p * 512 + s) pa t = (left, pa', t')) :
    left = n - min n (4096 - i) ∧
      pageOf pa' = target first pa₀ (512 * slot + s + min n (4096 - i)) ∧
      MapsTo m window (fun page => first ≤ page ∧ page < last) (target first pa₀)
        (fun c page => m.HasTable t c slot p ∧ 512 * slot + s ≤ page ∧
          page < 512 * slot + s + min n (4096 - i)) t t' := by
  induction n generalizing i s pa t with
  | zero =>
    cases call
    refine ⟨by omega, ?_, (MapsTo.refl inv).mono fun c _ page _ which => by omega⟩
    rw [Nat.zero_min, Nat.add_zero]
    exact is
  | succ n ih =>
    unfold Mmu.fillPds at call
    split at call
    · rename_i within
      have within : i < 4096 := within
      have inside : s < 512 := by omega
      rw [Nat.add_assoc] at call
      have stored : MapsTo m window (fun page => first ≤ page ∧ page < last) (target first pa₀) _
          t (t.store (p * 512 + s) (m.tableEntry pa flags)) :=
        .store inv known low out table inside
          ((small_tableEntry pa flags).trans (congrArg some is)) ⟨after, by omega⟩
      have same {c : Nat} (hc : c < m.numCpu) {q : Nat} :
          m.HasTable (t.store (p * 512 + s) (m.tableEntry pa flags)) c slot q ↔
            m.HasTable t c slot q :=
        hasTable_congr (store_l2 inv known low out table inside _ hc low)
      obtain ⟨count, isEnd, rest⟩ := ih (i := i + 1) (s := s + 1) stored.inv
        ((same known).mpr table) (by omega)
        (by rw [pageOf_add, is, ← target_succ after]; rfl) (by omega) (by omega) call
      refine ⟨by omega, ?_, (stored.trans rest).mono fun c hc page _ which => ?_⟩
      · rw [isEnd]
        congr 1
        omega
      · obtain ⟨shared, below, above⟩ := which
        by_cases first_ : page = 512 * slot + s
        · exact .inl ⟨shared, first_⟩
        · exact .inr ⟨(same hc).mpr shared, by omega, by omega⟩
    · rename_i full
      have full : ¬i < 4096 := full
      cases call
      refine ⟨by omega, ?_, (MapsTo.refl inv).mono fun c _ page _ which => by omega⟩
      rw [show min (n + 1) (4096 - i) = 0 by omega, Nat.add_zero]
      exact is

/-- What the two branches of `arm_lpae_map` have in common: the entry of an address is that of a
processor, and a new table gets to all of them. -/
structure Branch (m : Mmu) (cpu first last : Nat) (l2pd : Nat → Nat)
    (attach : Nat → Nat → Tables → Tables) : Prop where
  known : cpu < m.numCpu
  entry : ∀ va, first ≤ va / PAGESIZE → va / PAGESIZE < last →
    l2pd va = m.l2Entry cpu (va / 2 ^ 21)
  attached : ∀ p va t, first ≤ va / PAGESIZE → va / PAGESIZE < last →
    SetL2 m (fun _ => True) (va / 2 ^ 21) (m.tableEntry (addrOf p) m.bits.PTE_RW) t (attach p va t)

variable {cpu : Nat} {l2pd : Nat → Nat} {attach : Nat → Nat → Tables → Tables}

/-- The L3 table for `va`, which is new where all processors lack one -/
theorem Branch.tableFor {va : Nat} {t₁ : Tables} (branch : Branch m cpu first last l2pd attach)
    (range : Nat → Prop) (value : Nat → Nat) (inv : Inv m window t)
    (low : first ≤ va / PAGESIZE) (high : va / PAGESIZE < last) (fits : last ≤ 2 ^ 20)
    (uniform : m.Uniform t (va / 2 ^ 21))
    (found : (if t.mem (l2pd va) &&& ARM_LPAE_DESC_VT_MASK = 0 then
        t.callocRam.map fun (new, t) => attach new va t
      else some t) = some t₁) :
    ∃ p, m.HasTable t₁ cpu (va / 2 ^ 21) p ∧
      MapsTo m window range value (fun _ _ => False) t t₁ := by
  have slot : va / 2 ^ 21 < 2048 := by
    unfold PAGESIZE at high
    omega
  rw [branch.entry va low high] at found
  rcases uniform with every | nothing
  · obtain ⟨p, table⟩ := every cpu branch.known
    have present : ¬t.mem (m.l2Entry cpu (va / 2 ^ 21)) &&& ARM_LPAE_DESC_VT_MASK = 0 := by
      rw [kind_eq_zero, table.1]
      decide
    rw [if_neg present] at found
    cases found
    exact ⟨p, table, MapsTo.refl inv⟩
  · rw [if_pos (kind_eq_zero.mpr (nothing cpu branch.known))] at found
    obtain ⟨⟨p, u⟩, alloc, rfl⟩ := Option.map_eq_some_iff.mp found
    obtain ⟨part, tables⟩ :=
      MapsTo.attach inv alloc (branch.attached p va u low high) slot nothing
    exact ⟨p, tables cpu branch.known, part⟩

/-- The `while` loop from `page` on, where the fill loop leaves no table: the range has no border of
an L3 table in it but those of 16 MB. -/
theorem Branch.mapPages_spec {fuel n page va : Nat} {pa : Desc}
    (branch : Branch m cpu first last l2pd attach) (inv : Inv m window t) (enough : n ≤ fuel)
    (is : pageOf pa = target first pa₀ page) (low : first ≤ page) (high : page + n = last)
    (fits : last ≤ 2 ^ 20) (at_ : 0 < n → va / PAGESIZE = page)
    (out : ∀ page, first ≤ page → page < last → some (page / 512) ≠ window)
    (uniform : ∀ page, first ≤ page → page < last → m.Uniform t (page / 512))
    (borders : ∀ page, first < page → page < last → page % 512 = 0 → page % 4096 = 0)
    (call : m.mapPages l2pd attach flags fuel n va pa t = some t') :
    MapsTo m window (fun page => first ≤ page ∧ page < last) (target first pa₀)
      (fun c page' => m.l2Entry c (page' / 512) = m.l2Entry cpu (page' / 512) ∧ page ≤ page')
      t t' := by
  induction fuel generalizing n page va pa t with
  | zero =>
    obtain rfl : n = 0 := by omega
    cases call
    exact (MapsTo.refl inv).mono fun c _ page' here which => by omega
  | succ fuel ih =>
    cases n with
    | zero =>
      cases call
      exact (MapsTo.refl inv).mono fun c _ page' here which => by omega
    | succ n =>
      have at_ := at_ (Nat.succ_pos n)
      have slot : va / 2 ^ 21 = page / 512 := by
        rw [← at_]
        unfold PAGESIZE
        omega
      have place : 512 * (page / 512) + page % 512 = page := Nat.div_add_mod page 512
      have count : page % 512 + min (n + 1) (4096 - page % 4096) ≤ 512 := by
        by_contra beyond
        have border := borders (512 * (page / 512) + 512) (by omega) (by omega) (by omega)
        omega
      unfold Mmu.mapPages at call
      dsimp only at call
      split at call
      · cases call
      · rename_i t₁ found
        obtain ⟨p, table, new⟩ := branch.tableFor (fun page => first ≤ page ∧ page < last)
          (target first pa₀) inv (by omega) (by omega) fits
          (slot ▸ uniform page low (by omega)) found
        rw [slot] at table
        have outside := out page low (by omega)
        obtain ⟨small', -⟩ := new.inv.tables cpu branch.known _ (by omega) outside p table
        have pd : ptrOf (t₁.mem (l2pd va)) = p := by
          rw [branch.entry va (by omega) (by omega), slot, ptrOf_eq (table.2 ▸ small'), table.2]
        obtain ⟨left, pa', t₂, fill⟩ : ∃ left pa' t₂,
            m.fillPds flags (n + 1) (page % 4096) (p * 512 + page % 512) pa t₁ =
              (left, pa', t₂) := ⟨_, _, _, rfl⟩
        rw [pd, at_, show ARM_LPAE_L3_SIZE = 4096 from rfl, fill] at call
        have ends : 512 * (page / 512) + page % 512 + (n + 1) = last := by omega
        obtain ⟨less, is', filled⟩ := fillPds_spec new.inv branch.known (by omega) outside table
          count (by rw [place, is]) (by omega) ends fill
        rw [place] at is' filled
        have both := new.trans filled
        have rest := ih both.inv (by omega) is' (by omega) (by omega) ?_ ?_ call
        · refine (both.trans rest).mono fun c hc page' here which => ?_
          obtain ⟨same, after⟩ := which
          by_cases now : page' < page + min (n + 1) (4096 - page % 4096)
          · have group : page' / 512 = page / 512 := by omega
            have shared : m.HasTable t₁ c (page / 512) p := by
              unfold Mmu.HasTable
              rw [← group, same, group]
              exact table
            exact .inl (.inr ⟨shared, after, now⟩)
          · exact .inr ⟨same, Nat.le_of_not_lt now⟩
        · intro more
          unfold PAGESIZE at at_ ⊢
          omega
        · exact fun page' below above =>
            both.uniform _ (by omega) (uniform page' below above)

theorem mapL3Cpu_eq (p vaddr : Nat) (t : Tables) :
    m.mapL3Cpu cpu p vaddr t =
      t.store (m.l2Entry cpu (vaddr / 2 ^ 21)) (m.tableEntry (addrOf p) m.bits.PTE_RW) := by
  unfold Mmu.mapL3Cpu
  rw [l2_eq]

theorem SetL2.all {slot : Nat} {d : Desc}
    (set : SetL2 m (· ∈ List.range m.numCpu) slot d t t') : SetL2 m (fun _ => True) slot d t t' :=
  ⟨fun c hc _ => set.here c hc (List.mem_range.mpr hc),
    fun c hc s hs other => set.away c hc s hs fun both => other ⟨trivial, both.2⟩,
    set.mem, set.ram, set.given, set.next, set.stores⟩

theorem setL2_all {vaddr : Nat} (kern : ¬ARM_LPAE_USER_SPACE vaddr) (low : vaddr < 2 ^ 32)
    (d : Desc) (t : Tables) :
    SetL2 m (fun _ => True) (vaddr / 2 ^ 21) d t
      ((List.range m.numCpu).foldl (fun t c => t.store (m.l2Entry c (vaddr / 2 ^ 21)) d) t) := by
  unfold ARM_LPAE_USER_SPACE at kern
  exact (setL2_kern (by omega) (by omega) (fun c hc => List.mem_range.mp hc) t).all

theorem userBranch (some_ : 0 < m.numCpu) (user : last ≤ 786432) :
    Branch m 0 first last m.userL2
      (fun new va t => t.store (m.userL2 va) (m.tableEntry (addrOf new) m.bits.PTE_RW)) := by
  have inside : ∀ va, va / PAGESIZE < last → ARM_LPAE_USER_SPACE va := by
    intro va high
    unfold PAGESIZE at high
    unfold ARM_LPAE_USER_SPACE
    omega
  exact ⟨some_, fun va _ high => userL2_eq (inside va high) 0,
    fun p va t _ high => setL2_user (inside va high) some_ t⟩

theorem kernBranch (known : cpu < m.numCpu) (kern : 786432 ≤ first) (fits : last ≤ 2 ^ 20) :
    Branch m cpu first last (m.kernL2 cpu) m.mapPtbl := by
  have inside : ∀ va, first ≤ va / PAGESIZE → ¬ARM_LPAE_USER_SPACE va := by
    intro va low
    unfold PAGESIZE at low
    unfold ARM_LPAE_USER_SPACE
    omega
  refine ⟨known, fun va low _ => kernL2_eq (inside va low) cpu, fun p va t low high => ?_⟩
  unfold PAGESIZE at high
  unfold Mmu.mapPtbl
  simp only [mapL3Cpu_eq]
  exact setL2_all (inside va low) (by omega) _ t

theorem mapAll_spec {cpus : List Nat} {n va : Nat} {pa : Desc} (inv : Inv m window t)
    (known : ∀ c ∈ cpus, c < m.numCpu) (kern : 786432 ≤ first)
    (is : pageOf pa = target first pa₀ first) (high : first + n = last)
    (fits : last ≤ 2 ^ 20) (at_ : va / PAGESIZE = first)
    (out : ∀ page, first ≤ page → page < last → some (page / 512) ≠ window)
    (uniform : ∀ page, first ≤ page → page < last → m.Uniform t (page / 512))
    (borders : ∀ page, first < page → page < last → page % 512 = 0 → page % 4096 = 0)
    (call : cpus.foldlM (fun t cpu => m.mapPages (m.kernL2 cpu) m.mapPtbl flags n n va pa t) t =
      some t') :
    MapsTo m window (fun page => first ≤ page ∧ page < last) (target first pa₀)
      (fun c _ => c ∈ cpus) t t' := by
  induction cpus generalizing t with
  | nil =>
    cases call
    exact (MapsTo.refl inv).mono fun c _ page _ which => by cases which
  | cons cpu cpus ih =>
    rw [List.foldlM_cons] at call
    obtain ⟨t₁, one, rest⟩ := Option.bind_eq_some_iff.mp call
    have part := (kernBranch (known cpu List.mem_cons_self) kern fits).mapPages_spec inv le_rfl
      is le_rfl high fits (fun _ => at_) out uniform borders one
    have others := ih part.inv (fun c hc => known c (List.mem_cons_of_mem _ hc))
      (fun page below above => part.uniform _ (by omega) (uniform page below above)) rest
    refine (part.trans others).mono fun c _ page here which => ?_
    rcases List.mem_cons.mp which with rfl | later
    · exact .inl ⟨rfl, here.1⟩
    · exact .inr later

/-! ## Address spaces -/

/-- What is mapped on each processor, and where `arm_lpae_map` assigns addresses -/
structure View where
  map : Nat → Nat → Option Nat
  next : Nat

inductive MapOp
  | map (vaddr : Nat) (paddr : Desc) (size : Nat) (flags : BitVec 32)
  | mapCpu (cpu vaddr : Nat) (paddr : Desc) (flags : BitVec 32)
  | bmap (vaddr : Nat) (paddr : Desc) (flags : BitVec 32)
  deriving DecidableEq

/-- The pages that `size` bytes from `paddr` on are in -/
def pageCount (paddr : Desc) (size : Nat) : Nat :=
  (size + paddr.toNat % PAGESIZE + (PAGESIZE - 1)) / PAGESIZE

/-- The first page of a mapping; `next` is the next address to assign. -/
def firstPage (next vaddr : Nat) : Nat :=
  (if vaddr = 2 ^ 32 - 1 then next else vaddr) / PAGESIZE

/-- The latest mapping of a page counts. -/
def View.apply (v : View) : MapOp → View
  | .map vaddr paddr size _ =>
    let first := firstPage v.next vaddr
    let count := pageCount paddr size
    { map := fun cpu page =>
        if first ≤ page ∧ page < first + count then some (target first paddr page)
        else v.map cpu page
      next := if vaddr = 2 ^ 32 - 1 then (v.next + count * PAGESIZE) % 2 ^ 32 else v.next }
  | .mapCpu cpu vaddr paddr _ =>
    { v with map := fun c page =>
        if c = cpu ∧ page = vaddr / PAGESIZE then some (pageOf paddr) else v.map c page }
  | .bmap vaddr paddr _ =>
    { v with map := fun cpu page =>
        if page / 512 = vaddr / 2 ^ 21 then some (pageOf paddr / 512 * 512 + page % 512)
        else v.map cpu page }

/-- The pages an operation maps -/
def MapOp.covers (next : Nat) : MapOp → Nat → Prop
  | .map vaddr paddr size _, page =>
    firstPage next vaddr ≤ page ∧ page < firstPage next vaddr + pageCount paddr size
  | .mapCpu _ vaddr _ _, page => page = vaddr / PAGESIZE
  | .bmap vaddr _ _, page => page / 512 = vaddr / 2 ^ 21

/-- The call -/
def MapOp.exec (m : Mmu) (t : Tables) : MapOp → Option Tables
  | .map vaddr paddr size flags => (m.map vaddr paddr size flags t).map Prod.fst
  | .mapCpu cpu vaddr paddr flags =>
    if cpu < m.numCpu ∧ vaddr < 2 ^ 32 then m.mapCpu cpu vaddr paddr flags t else none
  | .bmap vaddr paddr flags =>
    if vaddr < 2 ^ 32 then some (m.bmap vaddr paddr flags t) else none

/-- No page is mapped by itself in a slot with a block. -/
def Plain (m : Mmu) (t : Tables) : MapOp → Prop
  | .bmap _ _ _ => True
  | op => ∀ page, op.covers t.nextAddr page → ∀ cpu < m.numCpu,
      kind (t.mem (m.l2Entry cpu (page / 512))) ≠ 1

def MapStep (m : Mmu) (t : Tables) (op : MapOp) (t' : Tables) : Prop :=
  Plain m t op ∧ op.exec m t = some t'

/-- A range of the user or of the kernel is mapped that has no border of 2 MB in it but those of
16 MB, on all processors where all of them have an L3 table for a slot or none has; a page of the
kernel is mapped on a processor where no other shares its L3 table; the slot through which a
processor sees its L2 table is left alone; and a block has the address of a page. -/
def Harmless (m : Mmu) (window : Option Nat) (t : Tables) : MapOp → Prop
  | .map vaddr paddr size flags =>
    let first := firstPage t.nextAddr vaddr
    let last := first + pageCount paddr size
    size + paddr.toNat % PAGESIZE + (PAGESIZE - 1) < 2 ^ 32 ∧ last ≤ 2 ^ 20 ∧
    (first < 786432 → last ≤ 786432) ∧
    (∀ page, first < page → page < last → page % 512 = 0 → page % 4096 = 0) ∧
    ∀ page, (MapOp.map vaddr paddr size flags).covers t.nextAddr page →
      some (page / 512) ≠ window ∧
      ((∀ c < m.numCpu, ∃ p, m.HasTable t c (page / 512) p) ∨
        ∀ c < m.numCpu, ∀ p, ¬m.HasTable t c (page / 512) p)
  | .mapCpu cpu vaddr _ _ =>
    ¬ARM_LPAE_USER_SPACE vaddr ∧ some (vaddr / 2 ^ 21) ≠ window ∧
    ∀ p, m.HasTable t cpu (vaddr / 2 ^ 21) p →
      ∀ c < m.numCpu, c ≠ cpu → ¬m.HasTable t c (vaddr / 2 ^ 21) p
  | .bmap _ paddr _ => paddr.toNat % PAGESIZE = 0

/-- The tables show the address spaces, the window aside. -/
structure Shows (m : Mmu) (window : Option Nat) (t : Tables) (v : View) : Prop where
  inv : Inv m window t
  next : t.nextAddr = v.next
  pages : ∀ cpu < m.numCpu, ∀ page < 2 ^ 20, some (page / 512) ≠ window →
    m.translate t cpu page = v.map cpu page

variable {v : View}

theorem pageOf_lt {d : Desc} : pageOf d < 2 ^ 28 := by
  rw [pageOf_eq]
  omega

theorem pageOf_aligned (paddr : Desc) : pageOf (paddr &&& ~~~PGMASK) = pageOf paddr := by
  rw [pageOf_eq, pageOf_eq, toNat_andNot_low (k := 12) rfl]
  omega

theorem mapSize_eq {paddr : Desc} {size : Nat}
    (fits : size + paddr.toNat % PAGESIZE + (PAGESIZE - 1) < 2 ^ 32) :
    mapSize paddr size = pageCount paddr size * PAGESIZE := by
  unfold mapSize pageCount
  rw [toNat_and_low (k := 12) rfl]
  unfold PAGESIZE at fits ⊢
  rw [show (2 : Nat) ^ 12 = 4096 from rfl, Nat.mod_eq_of_lt (by omega)]

/-- The tables once an address is assigned, if one is asked for -/
def Tables.assign (t : Tables) (vaddr count : Nat) : Tables :=
  { t with nextAddr :=
      if vaddr = 2 ^ 32 - 1 then (t.nextAddr + count * PAGESIZE) % 2 ^ 32 else t.nextAddr }

theorem map_spec {vaddr size addr : Nat} {paddr : Desc} (virt : m.virt = true)
    (some_ : 0 < m.numCpu) (inv : Inv m window t)
    (harmless : Harmless m window t (.map vaddr paddr size flags))
    (plain : Plain m t (.map vaddr paddr size flags))
    (call : m.map vaddr paddr size flags t = some (t', addr)) :
    MapsTo m window ((MapOp.map vaddr paddr size flags).covers t.nextAddr)
      (target (firstPage t.nextAddr vaddr) paddr) (fun c _ => c < m.numCpu)
      (t.assign vaddr (pageCount paddr size)) t' := by
  obtain ⟨small', fits, oneSpace, borders, slots⟩ := harmless
  have count : mapSize paddr size / PAGESIZE = pageCount paddr size := by
    rw [mapSize_eq small']
    exact Nat.mul_div_cancel _ (by decide)
  unfold Mmu.map at call
  rw [virt] at call
  dsimp only at call
  obtain ⟨u, all, same⟩ := Option.map_eq_some_iff.mp call
  cases same
  have start : (if vaddr = 2 ^ 32 - 1 then
      { t with nextAddr := (t.nextAddr + mapSize paddr size) % 2 ^ 32 } else t) =
        t.assign vaddr (pageCount paddr size) := by
    rw [mapSize_eq small']
    unfold Tables.assign
    split
    · rfl
    · rfl
  rw [count, start] at all
  have is : pageOf (paddr &&& ~~~PGMASK) =
      target (firstPage t.nextAddr vaddr) paddr (firstPage t.nextAddr vaddr) := by
    rw [pageOf_aligned, target, Nat.sub_self, Nat.add_zero, Nat.mod_eq_of_lt pageOf_lt]
  have inv' : Inv m window (t.assign vaddr (pageCount paddr size)) :=
    inv.congr (fun _ _ _ _ => rfl) rfl rfl fun i stored => .inl stored
  have out : ∀ page, firstPage t.nextAddr vaddr ≤ page →
      page < firstPage t.nextAddr vaddr + pageCount paddr size → some (page / 512) ≠ window :=
    fun page below above => (slots page ⟨below, above⟩).1
  have uniform : ∀ page, firstPage t.nextAddr vaddr ≤ page →
      page < firstPage t.nextAddr vaddr + pageCount paddr size →
      m.Uniform (t.assign vaddr (pageCount paddr size)) (page / 512) := by
    intro page below above
    rcases (slots page ⟨below, above⟩).2 with every | none_
    · exact .inl every
    · exact .inr fun c hc => (inv.table_or_absent hc (by omega)
        (plain page ⟨below, above⟩ c hc)).resolve_left fun ⟨p, table⟩ => none_ c hc p table
  by_cases user : ARM_LPAE_USER_SPACE (t.mapAddr vaddr)
  · rw [if_pos user] at all
    have lowUser : firstPage t.nextAddr vaddr < 786432 := by
      have bound : t.mapAddr vaddr < 3 * 2 ^ 30 := user
      show t.mapAddr vaddr / PAGESIZE < 786432
      unfold PAGESIZE
      omega
    have last := oneSpace lowUser
    have part := (userBranch some_ last).mapPages_spec inv' le_rfl is le_rfl rfl fits
      (fun _ => rfl) out uniform borders all
    refine part.mono fun c _ page here _ => ⟨?_, here.1⟩
    have above := here.2
    exact (l2Entry_inj (by omega) (by omega)).mpr ⟨rfl, .inl (by omega)⟩
  · rw [if_neg user] at all
    have kern : 786432 ≤ firstPage t.nextAddr vaddr := by
      unfold ARM_LPAE_USER_SPACE at user
      show 786432 ≤ t.mapAddr vaddr / PAGESIZE
      unfold PAGESIZE
      omega
    have part := mapAll_spec inv' (fun c hc => List.mem_range.mp hc) kern is rfl fits rfl out
      uniform borders all
    exact part.mono fun c hc _ _ _ => List.mem_range.mpr hc

theorem Shows.map {vaddr size : Nat} {paddr : Desc} (virt : m.virt = true)
    (some_ : 0 < m.numCpu) (shows : Shows m window t v)
    (step : MapStep m t (.map vaddr paddr size flags) t')
    (harmless : Harmless m window t (.map vaddr paddr size flags)) :
    Shows m window t' (v.apply (.map vaddr paddr size flags)) := by
  obtain ⟨plain, exec⟩ := step
  obtain ⟨⟨u, addr⟩, call, rfl⟩ := Option.map_eq_some_iff.mp exec
  have mapped := map_spec virt some_ shows.inv harmless plain call
  refine ⟨mapped.inv, ?_, fun c hc page hp out => ?_⟩
  · rw [mapped.next, Tables.assign, shows.next]
    rfl
  · change _ = if firstPage v.next vaddr ≤ page ∧
      page < firstPage v.next vaddr + pageCount paddr size then _ else _
    rw [← shows.next]
    split
    · rename_i here
      exact mapped.part.mapped c page ⟨hc, hp, out⟩ here hc
    · rename_i away
      exact (mapped.part.outside c page ⟨hc, hp, out⟩ away).trans (shows.pages c hc page hp out)

theorem tableFor_cpu {vaddr : Nat} {paddr : Desc} (inv : Inv m window t)
    (known : cpu < m.numCpu) (low : vaddr < 2 ^ 32)
    (plain : kind (t.mem (m.l2Entry cpu (vaddr / 2 ^ 21))) ≠ 1)
    (harmless : Harmless m window t (.mapCpu cpu vaddr paddr flags))
    (call : m.mapCpu cpu vaddr paddr flags t = some t') :
    ∃ p t₁, Inv m window t₁ ∧ m.HasTable t₁ cpu (vaddr / 2 ^ 21) p ∧
      (∀ c < m.numCpu, c ≠ cpu → ¬m.HasTable t₁ c (vaddr / 2 ^ 21) p) ∧
      (∀ c < m.numCpu, ∀ page < 2 ^ 20, some (page / 512) ≠ window →
        m.translate t₁ c page = m.translate t c page) ∧
      t₁.nextAddr = t.nextAddr ∧
      t' = t₁.store (p * 512 + vaddr / PAGESIZE % 512) (m.tableEntry paddr flags) := by
  obtain ⟨kern, out, alone⟩ := harmless
  have slot : vaddr / 2 ^ 21 < 2048 := by omega
  have high : 1536 ≤ vaddr / 2 ^ 21 := by
    unfold ARM_LPAE_USER_SPACE at kern
    omega
  unfold Mmu.mapCpu at call
  dsimp only at call
  rw [kernL2_eq kern, if_neg fun block => plain (kind_eq_one.mp block)] at call
  obtain ⟨t₁, found, rfl⟩ := Option.map_eq_some_iff.mp call
  rcases inv.table_or_absent known slot plain with ⟨p, table⟩ | absent
  · have present : ¬t.mem (m.l2Entry cpu (vaddr / 2 ^ 21)) &&& ARM_LPAE_DESC_VALID = 0 := by
      rw [valid_eq_zero, table.1]
      decide
    rw [if_neg present] at found
    cases found
    obtain ⟨small', -⟩ := inv.tables cpu known _ slot out p table
    refine ⟨p, t, inv, table, alone p table, fun _ _ _ _ _ => rfl, rfl, ?_⟩
    rw [ptrOf_eq (table.2 ▸ small'), table.2]
  · have missing : t.mem (m.l2Entry cpu (vaddr / 2 ^ 21)) &&& ARM_LPAE_DESC_VALID = 0 := by
      rw [valid_eq_zero, show kind _ = 0 from absent]
    rw [if_pos missing] at found
    obtain ⟨⟨p, u⟩, alloc, rfl⟩ := Option.map_eq_some_iff.mp found
    have one : ∀ c ∈ [cpu], c < m.numCpu := fun c hc => by rwa [List.mem_singleton.mp hc]
    have set := setL2_kern (d := m.tableEntry (addrOf p) m.bits.PTE_RW) high slot one u
    obtain ⟨inv', has, same, kept, next⟩ := inv.attach alloc set slot
      fun c _ which => by rwa [List.mem_singleton.mp which]
    have table := has cpu known List.mem_cons_self
    obtain ⟨small', -⟩ := inv'.tables cpu known _ slot out p table
    dsimp only
    rw [mapL3Cpu_eq]
    refine ⟨p, _, inv', table, fun c hc other table' => ?_, kept, next, ?_⟩
    · have old := (hasTable_congr (same c hc _ slot fun both =>
        other (List.mem_singleton.mp both.1))).mp table'
      obtain ⟨rest, ram, -⟩ := callocRam_eq alloc
      exact (inv.tables c hc _ slot out p old).2.2.1 (ram ▸ List.mem_cons_self)
    · have pd : ptrOf ((u.store (m.l2Entry cpu (vaddr / 2 ^ 21))
          (m.tableEntry (addrOf p) m.bits.PTE_RW)).mem (m.l2Entry cpu (vaddr / 2 ^ 21))) = p :=
        (ptrOf_eq (lt_of_eq_of_lt table.2 small')).trans table.2
      rw [pd]
      rfl

theorem Shows.mapCpu {vaddr : Nat} {paddr : Desc} (shows : Shows m window t v)
    (step : MapStep m t (.mapCpu cpu vaddr paddr flags) t')
    (harmless : Harmless m window t (.mapCpu cpu vaddr paddr flags)) :
    Shows m window t' (v.apply (.mapCpu cpu vaddr paddr flags)) := by
  obtain ⟨plain, exec⟩ := step
  obtain ⟨⟨known, low⟩, call⟩ := Option.ite_none_right_eq_some.mp exec
  have group : vaddr / PAGESIZE / 512 = vaddr / 2 ^ 21 := by
    unfold PAGESIZE
    omega
  have slot : vaddr / 2 ^ 21 < 2048 := by omega
  have place : 512 * (vaddr / 2 ^ 21) + vaddr / PAGESIZE % 512 = vaddr / PAGESIZE := by
    rw [← group]
    exact Nat.div_add_mod _ _
  obtain ⟨p, t₁, inv₁, table, alone, same, next, rfl⟩ := tableFor_cpu shows.inv known low
    (group ▸ plain _ rfl cpu known) harmless call
  have inside : vaddr / PAGESIZE % 512 < 512 := Nat.mod_lt _ (by decide)
  refine ⟨store_inv inv₁ known slot harmless.2.1 table inside _, next.trans shows.next,
    fun c hc page hp out => ?_⟩
  rw [translate_store inv₁ known slot harmless.2.1 table inside _ hc hp out, small_tableEntry,
    place, same c hc page hp out, shows.pages c hc page hp out]
  show _ = if c = cpu ∧ page = vaddr / PAGESIZE then _ else _
  refine if_congr ⟨fun both => ?_, fun both => ⟨both.2, both.1 ▸ table⟩⟩ rfl rfl
  by_cases here : c = cpu
  · exact ⟨here, both.1⟩
  · exact absurd both.2 (alone c hc here)

theorem Shows.bmap {vaddr : Nat} {paddr : Desc} (some_ : 0 < m.numCpu)
    (shows : Shows m window t v) (step : MapStep m t (.bmap vaddr paddr flags) t')
    (harmless : Harmless m window t (.bmap vaddr paddr flags)) :
    Shows m window t' (v.apply (.bmap vaddr paddr flags)) := by
  obtain ⟨low, call⟩ := Option.ite_none_right_eq_some.mp step.2
  obtain ⟨address, type⟩ : pageOf (m.setProt paddr flags ||| ARM_LPAE_DESC_VALID) = pageOf paddr ∧
      kind (m.setProt paddr flags ||| ARM_LPAE_DESC_VALID) = 1 := block_entry harmless
  have set : SetL2 m (fun _ => True) (vaddr / 2 ^ 21)
      (m.setProt paddr flags ||| ARM_LPAE_DESC_VALID) t t' := by
    rw [← Option.some.inj call]
    unfold Mmu.bmap
    dsimp only
    split
    · rename_i user
      exact setL2_user user some_ t
    · rename_i kern
      simp only [kernL2_eq kern]
      exact setL2_all kern low _ t
  obtain ⟨inv, effect⟩ := shows.inv.block set (by omega) type
  refine ⟨inv, set.next.trans shows.next, fun c hc page hp out => ?_⟩
  rw [effect c hc page hp out, address, shows.pages c hc page hp out]
  rfl

theorem Shows.step {op : MapOp} (virt : m.virt = true) (some_ : 0 < m.numCpu)
    (shows : Shows m window t v) (step : MapStep m t op t') (harmless : Harmless m window t op) :
    Shows m window t' (v.apply op) := by
  cases op with
  | map vaddr paddr size flags => exact shows.map virt some_ step harmless
  | mapCpu cpu vaddr paddr flags => exact shows.mapCpu step harmless
  | bmap vaddr paddr flags => exact shows.bmap some_ step harmless

/-- After every run of harmless calls a page translates on each processor to what the latest call
for it there has mapped, pages that no call has covered translate as before, and every store went
to an L2 table or into an L3 table that `calloc_ram` gave. -/
theorem lpae_map_run (m : Mmu) (window : Option Nat) (t₀ t : Tables) (ops : List MapOp)
    (virt : m.virt = true) (some_ : 0 < m.numCpu) (inv : Inv m window t₀)
    (run : Run (fun t op t' => MapStep m t op t' ∧ Harmless m window t op) t₀ ops t) :
    (∀ cpu < m.numCpu, ∀ page < 2 ^ 20, some (page / 512) ≠ window →
      m.translate t cpu page =
          (ops.foldl View.apply ⟨m.translate t₀, t₀.nextAddr⟩).map cpu page ∧
        ∀ base ∈ (ops.foldl View.apply ⟨m.translate t₀, t₀.nextAddr⟩).map cpu page,
          ∀ off < PAGESIZE, (m.vaddrToPaddr t cpu (page * PAGESIZE + off)).toNat =
            base * PAGESIZE + off) ∧
      ∀ i ∈ t.stores, m.InL2 (i / 512) ∨ i / 512 ∈ t.given := by
  have shows := run.simulates (R := Shows m window)
    (fun {s op t a} before both => before.step virt some_ both.1 both.2)
    (a := ⟨m.translate t₀, t₀.nextAddr⟩) ⟨inv, rfl, fun _ _ _ _ _ => rfl⟩
  refine ⟨fun cpu hcpu page hp out => ?_, shows.inv.stores⟩
  have same := shows.pages cpu hcpu page hp out
  exact ⟨same, fun base mapped off inside =>
    vaddrToPaddr_eq shows.inv hcpu hp out (same.trans mapped) inside⟩

/-! ## Two processors -/

def smp : Mmu where
  numCpu := 2
  virt := true
  bits := ⟨0x400, 0x4, 0x8, 0x0, 0xc, 0x300, 0x200, 0x0, 0x80, 0x40, 0xc0, 0x800, 0x40000000000000,
    0x20000000000000, 0x2, 0x4, List.forall_iff_forall_mem.mp (by decide)⟩
  l2 := 1

/-- Empty tables, and three pages for L3 tables -/
def empty : Tables := ⟨fun _ => 0, 0xfc000000, [8, 9, 10], [], []⟩

theorem empty_inv : Inv smp none empty := blank_inv (fun _ _ => rfl) (by decide) (by decide)

/-- The tables after some calls -/
def after (ops : List MapOp) : Tables :=
  ops.foldl (fun t op => (op.exec smp t).getD t) empty

theorem after_concat {pre : List MapOp} {op : MapOp}
    (works : (op.exec smp (after pre)).isSome = true) :
    op.exec smp (after pre) = some (after (pre ++ [op])) :=
  @foldl_getD_concat _ _ _ op pre (fun t op => MapOp.exec smp t op) works

theorem step_after {pre : List MapOp} {op : MapOp} {pages : List Nat}
    (covered : ∀ page, op.covers (after pre).nextAddr page → page ∈ pages)
    (plain : ∀ page ∈ pages, ∀ cpu < smp.numCpu,
      kind ((after pre).mem (smp.l2Entry cpu (page / 512))) ≠ 1)
    (works : (op.exec smp (after pre)).isSome = true) :
    MapStep smp (after pre) op (after (pre ++ [op])) := by
  refine ⟨?_, after_concat works⟩
  cases op with
  | map vaddr paddr size flags => exact fun page here => plain page (covered page here)
  | mapCpu cpu vaddr paddr flags => exact fun page here => plain page (covered page here)
  | bmap vaddr paddr flags => trivial

/-- Two pages of the user, a page of the kernel on the second processor, and a block -/
theorem lpae_map_run_small : ∃ t,
    Run (fun t op t' => MapStep smp t op t' ∧ Harmless smp none t op) empty
      [.map 0x1000 0x200000 0x2000 6, .mapCpu 1 0xd0000000 0x300000 4, .bmap 0x400000 0x600000 4]
      t ∧
    smp.translate t 0 2 = some 0x201 ∧ smp.translate t 1 0xd0000 = some 0x300 ∧
    (smp.vaddrToPaddr t 1 0x2010).toNat = 0x201 * PAGESIZE + 0x10 := by
  have run : Run (fun t op t' => MapStep smp t op t' ∧ Harmless smp none t op) empty
      [.map 0x1000 0x200000 0x2000 6, .mapCpu 1 0xd0000000 0x300000 4, .bmap 0x400000 0x600000 4]
      (after [.map 0x1000 0x200000 0x2000 6, .mapCpu 1 0xd0000000 0x300000 4,
        .bmap 0x400000 0x600000 4]) := by
    have absent : kind ((after [.map 0x1000 0x200000 0x2000 6]).mem
        (smp.l2Entry 1 (0xd0000000 / 2 ^ 21))) = 0 := by decide +kernel
    refine .cons ⟨@step_after [] _ [1, 2] (fun page here => ?_) (by decide +kernel)
        (by decide +kernel), by decide, by decide, by decide, fun page after_ before => ?_,
        fun page _ => ⟨nofun, .inr fun c _ p table =>
          absurd (show kind 0 = 3 from table.1) (by decide)⟩⟩ <|
      .cons ⟨@step_after [.map 0x1000 0x200000 0x2000 6] _ [0xd0000]
        (fun page here => List.mem_singleton.mpr here) (by decide +kernel) (by decide +kernel),
        by decide, nofun, fun p table => absurd (absent.symm.trans table.1) (by decide)⟩ <|
      .single ⟨⟨trivial, after_concat (by decide +kernel)⟩, rfl⟩
    · have inside : 1 ≤ page ∧ page < 1 + 2 := here
      rw [List.mem_cons, List.mem_singleton]
      omega
    · have above : 1 < page := after_
      have below : page < 1 + 2 := before
      omega
  have shows := (lpae_map_run smp none empty _ _ rfl (by decide) empty_inv run).1
  exact ⟨_, run, (shows 0 (by decide) 2 (by decide) nofun).1.trans (by decide +kernel),
    (shows 1 (by decide) 0xd0000 (by decide) nofun).1.trans (by decide +kernel),
    (shows 1 (by decide) 2 (by decide) nofun).2 0x201 (by decide +kernel) 0x10 (by decide)⟩

/-- A range over a border of 2 MB is stored behind the L3 table and is not mapped there. An L3 table
that one processor has for itself is lost when a page next to it is mapped on all, and a page that
is mapped on one processor is mapped on all that share the L3 table. -/
theorem lpae_map_broken :
    (∃ t, Run (MapStep smp) empty [.map 0x1ff000 0x200000 0x2000 6] t ∧
      4608 ∈ t.stores ∧ ¬smp.InL2 (4608 / 512) ∧ 4608 / 512 ∉ t.given ∧
      smp.translate t 0 512 = none ∧
      (([.map 0x1ff000 0x200000 0x2000 6] : List MapOp).foldl
        View.apply ⟨smp.translate empty, empty.nextAddr⟩).map 0 512 = some 0x201) ∧
    (∃ t, Run (MapStep smp) empty
        [.mapCpu 0 0xd0000000 0x100000 4, .map 0xd0001000 0x200000 0x1000 4] t ∧
      smp.translate t 0 0xd0000 = none ∧
      (([.mapCpu 0 0xd0000000 0x100000 4, .map 0xd0001000 0x200000 0x1000 4] : List MapOp).foldl
        View.apply ⟨smp.translate empty, empty.nextAddr⟩).map 0 0xd0000 = some 0x100) ∧
    ∃ t, Run (MapStep smp) empty
        [.map 0xd0000000 0x200000 0x1000 4, .mapCpu 0 0xd0000000 0x100000 4] t ∧
      smp.translate t 1 0xd0000 = some 0x100 ∧
      (([.map 0xd0000000 0x200000 0x1000 4, .mapCpu 0 0xd0000000 0x100000 4] : List MapOp).foldl
        View.apply ⟨smp.translate empty, empty.nextAddr⟩).map 1 0xd0000 = some 0x200 := by
  refine ⟨⟨_, .single (@step_after [] _ [511, 512] (fun page here => ?_) (by decide +kernel)
      (by decide +kernel)), by decide +kernel, by decide, by decide +kernel, by decide +kernel,
      by decide +kernel⟩,
    ⟨_, .cons (@step_after [] _ [0xd0000] (fun page here => List.mem_singleton.mpr here)
        (by decide +kernel) (by decide +kernel)) <|
      .single (@step_after [.mapCpu 0 0xd0000000 0x100000 4] _ [0xd0001] (fun page here => ?_)
        (by decide +kernel) (by decide +kernel)), by decide +kernel, by decide +kernel⟩,
    ⟨_, .cons (@step_after [] _ [0xd0000] (fun page here => ?_) (by decide +kernel)
        (by decide +kernel)) <|
      .single (@step_after [.map 0xd0000000 0x200000 0x1000 4] _ [0xd0000]
        (fun page here => List.mem_singleton.mpr here) (by decide +kernel) (by decide +kernel)),
      by decide +kernel, by decide +kernel⟩⟩
  · have inside : 511 ≤ page ∧ page < 511 + 2 := here
    rw [List.mem_cons, List.mem_singleton]
    omega
  · have inside : 0xd0001 ≤ page ∧ page < 0xd0001 + 1 := here
    exact List.mem_singleton.mpr (by omega)
  · have inside : 0xd0000 ≤ page ∧ page < 0xd0000 + 1 := here
    exact List.mem_singleton.mpr (by omega)

end Mx6xBsp.Arm.Lpae
