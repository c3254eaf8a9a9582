import Mx6xBsp.Arm.ArmTables
import Mx6xBsp.Lib.Runs

/-!
# Runs of mappings

A call of `arm_32_map` goes through the processors and, on each, through the
groups of its range (`mapPages_spec`). As long as all processors have a page
table for a group or none has, it maps the range on all of them and touches
nothing else; `arm_32_map_cpu` keeps to its processor as long as no other one
shares the page table. `arm_map_run` follows a run of both in the view of an
address space per processor.
-/

namespace Mx6xBsp.Arm

open Startup Runs Masks

variable {m : Mmu} {window : Option Nat} {t t' : Tables}

/-- All processors have a page table for the group, or none has and nothing is mapped there. -/
def Mmu.Uniform (m : Mmu) (t : Tables) (g : Nat) : Prop :=
  (∀ c < m.numCpu, ∃ p, t.HasTable c g p) ∨ ∀ c < m.numCpu, t.Absent c g

/-- The page of the memory for page `page` of a mapping of `pa` from page `first` on. -/
def target (first : Nat) (pa : Word) (page : Nat) : Nat := (pageOf pa + (page - first)) % 2 ^ 20

/-- A part of a mapping of the pages of `range`: it has mapped what `done` tells, and a page of the
range that it has not mapped on a processor is as before. -/
structure MapsTo (m : Mmu) (window : Option Nat) (range : Nat → Prop) (value : Nat → Nat)
    (done : Nat → Nat → Prop) (t t' : Tables) : Prop where
  inv : TablesInv m window t'
  uniform : ∀ g < 1024, m.Uniform t g → m.Uniform t' g
  next : t'.nextAddr = t.nextAddr
  outside : ∀ c < m.numCpu, ∀ page < 2 ^ 20, some (page / 1024) ≠ window → ¬range page →
    t'.translate c page = t.translate c page
  inside : ∀ c < m.numCpu, ∀ page < 2 ^ 20, some (page / 1024) ≠ window → range page →
    t'.translate c page = t.translate c page ∨ t'.translate c page = some (value page)
  mapped : ∀ c < m.numCpu, ∀ page < 2 ^ 20, some (page / 1024) ≠ window → range page →
    done c page → t'.translate c page = some (value page)

namespace MapsTo

variable {range : Nat → Prop} {value : Nat → Nat} {done more : Nat → Nat → Prop} {u : Tables}

theorem refl (inv : TablesInv m window t) : MapsTo m window range value (fun _ _ => False) t t :=
  ⟨inv, fun _ _ h => h, rfl, fun _ _ _ _ _ _ => rfl, fun _ _ _ _ _ _ => Or.inl rfl,
    fun _ _ _ _ _ _ h => h.elim⟩

theorem trans (left : MapsTo m window range value done t t')
    (right : MapsTo m window range value more t' u) :
    MapsTo m window range value (fun c page => done c page ∨ more c page) t u := by
  refine ⟨right.inv, fun g hg h => right.uniform g hg (left.uniform g hg h),
    right.next.trans left.next, fun c hc page hp out away => ?_, fun c hc page hp out here => ?_,
    fun c hc page hp out here which => ?_⟩
  · rw [right.outside c hc page hp out away, left.outside c hc page hp out away]
  · rcases right.inside c hc page hp out here with same | new
    · rw [same]
      exact left.inside c hc page hp out here
    · exact Or.inr new
  · rcases which with old | new
    · rcases right.inside c hc page hp out here with same | new
      · rw [same]
        exact left.mapped c hc page hp out here old
      · exact new
    · exact right.mapped c hc page hp out here new

theorem mono (part : MapsTo m window range value done t t')
    (less : ∀ c page, range page → more c page → done c page) :
    MapsTo m window range value more t t' :=
  ⟨part.inv, part.uniform, part.next, part.outside, part.inside,
    fun c hc page hp out here which => part.mapped c hc page hp out here (less c page here which)⟩

theorem store {cpu g p slot : Nat} {entry : Word} (inv : TablesInv m window t)
    (hcpu : cpu < m.numCpu) (hg : g < 1024) (table : t.HasTable cpu g p) (within : slot < 1024)
    (present : kind entry ≠ 0) (is : pageOf entry = value (1024 * g + slot))
    (here : range (1024 * g + slot)) :
    MapsTo m window range value (fun c page => c = cpu ∧ page = 1024 * g + slot) t
      (t.store p slot entry) := by
  have stored : small entry = some (value (1024 * g + slot)) := by
    rw [small, if_neg present, is]
  have effect : ∀ c < m.numCpu, ∀ page < 2 ^ 20, (t.store p slot entry).translate c page =
      if page = 1024 * g + slot ∧ t.HasTable c g p then small entry else t.translate c page :=
    fun c hc page hp => translate_store inv hcpu hg table within hc hp
  refine ⟨inv.congr rfl rfl, fun g _ h => h, rfl, fun c hc page hp _ away => ?_,
    fun c hc page hp _ _ => ?_, fun c hc page hp _ _ which => ?_⟩
  · rw [effect c hc page hp, if_neg]
    rintro ⟨rfl, _⟩
    exact away here
  · rw [effect c hc page hp]
    split
    · rename_i both
      rw [stored, both.1]
      exact Or.inr rfl
    · exact Or.inl rfl
  · obtain ⟨rfl, rfl⟩ := which
    rw [effect c hc _ hp, if_pos ⟨rfl, table⟩, stored]

theorem attach {p va : Nat} {t₁ : Tables} (inv : TablesInv m window t)
    (alloc : t.callocRam = some (p, t₁)) (absent : ∀ c < m.numCpu, t.Absent c (va / 2 ^ 22)) :
    MapsTo m window range value (fun _ _ => False) t (m.mapPtbl p va t₁) ∧
      ∀ c < m.numCpu, (m.mapPtbl p va t₁).HasTable c (va / 2 ^ 22) p := by
  have all : ∀ c, c ∈ List.range m.numCpu ↔ c < m.numCpu := fun c => List.mem_range
  obtain ⟨inv', has, none, same, next⟩ := inv.attach
    alloc (fun c hc => (all c).mp hc) fun c hc => absent c ((all c).mp hc)
  have tables : ∀ c < m.numCpu, (m.mapPtbl p va t₁).HasTable c (va / 2 ^ 22) p := fun c hc =>
    (has ..).mpr (by rw [if_pos ⟨(all c).mpr hc, rfl⟩])
  refine ⟨⟨inv', fun g hg uniform => ?_, next, fun c hc page hp out _ => same c hc page hp out,
    fun c hc page hp out _ => Or.inl (same c hc page hp out), fun _ _ _ _ _ _ h => h.elim⟩, tables⟩
  by_cases here : g = va / 2 ^ 22
  · exact Or.inl fun c hc => ⟨p, here ▸ tables c hc⟩
  · rcases uniform with every | nothing
    · refine Or.inl fun c hc => ?_
      obtain ⟨q, table⟩ := every c hc
      exact ⟨q, (has ..).mpr (by rwa [if_neg fun both => here both.2])⟩
    · exact Or.inr fun c hc => (none ..).mpr ⟨fun both => here both.2, nothing c hc⟩

end MapsTo

/-! ## `arm_32_map` -/

theorem pageOf_add {pa : Word} (present : kind pa ≠ 0) :
    kind (pa + BitVec.ofNat 32 PAGESIZE) ≠ 0 ∧
      pageOf (pa + BitVec.ofNat 32 PAGESIZE) = (pageOf pa + 1) % 2 ^ 20 := by
  have value : (pa + BitVec.ofNat 32 PAGESIZE).toNat = (pa.toNat + 4096) % 2 ^ 32 := by
    rw [BitVec.toNat_add, BitVec.toNat_ofNat]
    rfl
  have bound := pa.isLt
  rw [pageOf_eq, pageOf_eq, kind, value]
  unfold kind at present
  constructor <;> omega

theorem target_succ {first page : Nat} {pa : Word} (after : first ≤ page) :
    target first pa (page + 1) = (target first pa page + 1) % 2 ^ 20 := by
  unfold target
  omega

variable {first last : Nat} {pa₀ : Word}

/-- The `for` loop, from page `1024 * g + i` on. -/
theorem fillPtes_spec {cpu g p i n left : Nat} {pa pa' : Word} (inv : TablesInv m window t)
    (hcpu : cpu < m.numCpu) (hg : g < 1024) (table : t.HasTable cpu g p) (hi : i ≤ 1024)
    (present : kind pa ≠ 0) (is : pageOf pa = target first pa₀ (1024 * g + i))
    (low : first ≤ 1024 * g + i) (high : 1024 * g + i + n = last)
    (call : fillPtes p n i pa t = (left, pa', t')) :
    left = n - min n (1024 - i) ∧ kind pa' ≠ 0 ∧
      pageOf pa' = target first pa₀ (1024 * g + i + min n (1024 - i)) ∧
      MapsTo m window (fun page => first ≤ page ∧ page < last) (target first pa₀)
        (fun c page => c = cpu ∧ 1024 * g + i ≤ page ∧ page < 1024 * g + i + min n (1024 - i))
        t t' := by
  induction n generalizing i pa t with
  | zero =>
    cases call
    exact ⟨by omega, present, by simpa using is,
      (MapsTo.refl inv).mono fun c page _ which => by omega⟩
  | succ n ih =>
    unfold fillPtes at call
    split at call
    · rename_i within
      have within : i < 1024 := within
      obtain ⟨present', is'⟩ := pageOf_add present
      have stored := @MapsTo.store _ _ _ (fun page => first ≤ page ∧ page < last) _ _ _ _ _ _ inv
          hcpu hg table within present is ⟨low, by omega⟩
      obtain ⟨count, presentEnd, isEnd, rest⟩ := ih (i := i + 1) stored.inv table (by omega)
        present' (by rw [is', is, ← target_succ low]; rfl) (by omega) (by omega) call
      refine ⟨by omega, presentEnd, ?_, (stored.trans rest).mono fun c page _ which => ?_⟩
      · rw [isEnd]
        congr 1
        omega
      · obtain ⟨rfl, below, above⟩ := which
        omega
    · rename_i out
      have full : i = 1024 := by
        unfold ARM_L2_SIZE at out
        omega
      cases call
      exact ⟨by omega, present, by simpa [full] using is,
        (MapsTo.refl inv).mono fun c page _ which => by omega⟩

/-- The page table for `va`, which is new where all processors lack one. -/
theorem tableFor {cpu p va : Nat} {t₁ : Tables} (range : Nat → Prop) (value : Nat → Nat)
    (inv : TablesInv m window t) (hcpu : cpu < m.numCpu) (uniform : m.Uniform t (va / 2 ^ 22))
    (found : (if t.l1 cpu (va / 2 ^ 20 / 4 * 4) &&& ARM_PTP_VALID = 0 then
        t.callocRam.map fun (page, t) => (page, m.mapPtbl page va t)
      else some (pageOf (t.l1 cpu (va / 2 ^ 20 / 4 * 4)), t)) = some (p, t₁)) :
    t₁.HasTable cpu (va / 2 ^ 22) p ∧ MapsTo m window range value (fun _ _ => False) t t₁ := by
  have index : va / 2 ^ 20 / 4 * 4 = 4 * (va / 2 ^ 22) + 0 := by omega
  rw [index] at found
  rcases uniform with every | nothing
  · obtain ⟨q, table⟩ := every cpu hcpu
    obtain ⟨at_, type⟩ := table 0 (by decide)
    have present : ¬t.l1 cpu (4 * (va / 2 ^ 22) + 0) &&& ARM_PTP_VALID = 0 := by
      rw [kind_eq_zero, type]
      decide
    rw [if_neg present, at_] at found
    cases found
    exact ⟨table, MapsTo.refl inv⟩
  · rw [if_pos (kind_eq_zero.mpr (nothing cpu hcpu 0 (by decide)))] at found
    obtain ⟨⟨q, u⟩, alloc, same⟩ := Option.map_eq_some_iff.mp found
    cases same
    obtain ⟨part, tables⟩ := MapsTo.attach inv alloc nothing
    exact ⟨tables cpu hcpu, part⟩

/-- The `while` loop for a processor, from `page` on. -/
theorem mapPages_spec {cpu fuel n page va : Nat} {pa : Word} (inv : TablesInv m window t)
    (hcpu : cpu < m.numCpu) (enough : n ≤ fuel) (present : kind pa ≠ 0)
    (is : pageOf pa = target first pa₀ page) (low : first ≤ page) (high : page + n = last)
    (fits : last ≤ 2 ^ 20) (at_ : va / PAGESIZE = page)
    (uniform : ∀ page, first ≤ page → page < last → m.Uniform t (page / 1024))
    (call : m.mapPages cpu fuel n va pa t = some t') :
    MapsTo m window (fun page => first ≤ page ∧ page < last) (target first pa₀)
      (fun c page' => c = cpu ∧ page ≤ page') t t' := by
  induction fuel generalizing n page va pa t with
  | zero =>
    obtain rfl : n = 0 := by omega
    cases call
    exact (MapsTo.refl inv).mono fun c page' here which => by omega
  | succ fuel ih =>
    cases n with
    | zero =>
      cases call
      exact (MapsTo.refl inv).mono fun c page' here which => by omega
    | succ n =>
      have group : va / 2 ^ 22 = page / 1024 := by
        rw [← at_]
        unfold PAGESIZE
        omega
      have slot : va / PAGESIZE % ARM_L2_SIZE = page % 1024 := by
        rw [at_]
        rfl
      have place : 1024 * (page / 1024) + page % 1024 = page := Nat.div_add_mod page 1024
      unfold Mmu.mapPages at call
      dsimp only at call
      split at call
      · cases call
      · rename_i p t₁ found
        obtain ⟨table, new⟩ := tableFor (fun page => first ≤ page ∧ page < last)
          (target first pa₀) inv hcpu (group ▸ uniform page low (by omega)) found
        rw [group] at table
        rw [slot] at call
        obtain ⟨left, pa', t₂, fill⟩ : ∃ left pa' t₂,
            fillPtes p (n + 1) (page % 1024) pa t₁ = (left, pa', t₂) := ⟨_, _, _, rfl⟩
        rw [fill] at call
        obtain ⟨count, present', is', filled⟩ := @fillPtes_spec _ _ _ _ _ last _ _ _ _ _ _ _ _ _
            new.inv hcpu (by omega) table (by omega) present (by rw [place, is]) (by omega)
            (by omega) fill
        rw [place] at is' filled
        have both := new.trans filled
        have rest := ih both.inv (by omega) present' is' (by omega) (by omega) ?_ ?_ call
        · refine (both.trans rest).mono fun c page' here which => ?_
          omega
        · unfold PAGESIZE at at_ ⊢
          omega
        · exact fun page' below above =>
            both.uniform _ (by omega) (uniform page' below above)

theorem mapAll_spec {cpus : List Nat} {n va : Nat} {pa : Word} (inv : TablesInv m window t)
    (known : ∀ c ∈ cpus, c < m.numCpu) (present : kind pa ≠ 0)
    (is : pageOf pa = target first pa₀ first) (high : first + n = last)
    (fits : last ≤ 2 ^ 20) (at_ : va / PAGESIZE = first)
    (uniform : ∀ page, first ≤ page → page < last → m.Uniform t (page / 1024))
    (call : cpus.foldlM (fun t cpu => m.mapPages cpu n n va pa t) t = some t') :
    MapsTo m window (fun page => first ≤ page ∧ page < last) (target first pa₀)
      (fun c _ => c ∈ cpus) t t' := by
  induction cpus generalizing t with
  | nil =>
    cases call
    exact (MapsTo.refl inv).mono fun c page _ which => by cases which
  | cons cpu cpus ih =>
    rw [List.foldlM_cons] at call
    obtain ⟨t₁, one, rest⟩ := Option.bind_eq_some_iff.mp call
    have part := mapPages_spec inv (known cpu List.mem_cons_self) le_rfl present is le_rfl high
      fits at_ uniform one
    have others := ih part.inv (fun c hc => known c (List.mem_cons_of_mem _ hc))
      (fun page below above => part.uniform _ (by omega) (uniform page below above)) rest
    refine (part.trans others).mono fun c page here which => ?_
    rcases List.mem_cons.mp which with rfl | later
    · exact Or.inl ⟨rfl, here.1⟩
    · exact Or.inr later

/-! ## Address spaces -/

/-- What is mapped on each processor, and where `arm_32_map` assigns addresses. -/
structure View where
  map : Nat → Nat → Option Nat
  next : Nat

inductive MapOp
  | map (vaddr : Nat) (paddr : Word) (size : Nat) (flags : Word)
  | mapCpu (cpu vaddr : Nat) (paddr flags : Word)

/-- The pages that `size` bytes from `paddr` on are in. -/
def pageCount (paddr : Word) (size : Nat) : Nat :=
  (size + paddr.toNat % PAGESIZE + (PAGESIZE - 1)) / PAGESIZE

/-- The first page of a mapping; `next` is where the next address to assign is. -/
def firstPage (next vaddr : Nat) : Nat :=
  (if vaddr = 2 ^ 32 - 1 then next else vaddr) / PAGESIZE

/-- The latest mapping of a page counts. -/
def View.apply (v : View) : MapOp → View
  | .map vaddr paddr size _ =>
    let first := firstPage v.next vaddr
    let count := pageCount paddr size
    { map := fun cpu page =>
        if first ≤ page ∧ page < first + count then some (target first paddr page)
        else v.map cpu page
      next := if vaddr = 2 ^ 32 - 1 then v.next + count * PAGESIZE else v.next }
  | .mapCpu cpu vaddr paddr _ =>
    { v with map := fun c page =>
        if c = cpu ∧ page = vaddr / PAGESIZE then some (pageOf paddr) else v.map c page }

/-- The pages an operation maps. -/
def MapOp.covers (next : Nat) : MapOp → Nat → Prop
  | .map vaddr paddr size _, page =>
    firstPage next vaddr ≤ page ∧ page < firstPage next vaddr + pageCount paddr size
  | .mapCpu _ vaddr _ _, page => page = vaddr / PAGESIZE

/-- The call. -/
def MapOp.exec (m : Mmu) (t : Tables) : MapOp → Option Tables
  | .map vaddr paddr size flags => (m.arm32Map vaddr paddr size flags t).map Prod.fst
  | .mapCpu cpu vaddr paddr flags =>
    if cpu < m.numCpu ∧ vaddr < 2 ^ 32 then m.arm32MapCpu cpu vaddr paddr flags t else none

/-- A call that maps no page in a group with a section. -/
def MapStep (m : Mmu) (t : Tables) (op : MapOp) (t' : Tables) : Prop :=
  (∀ page, op.covers t.nextAddr page → ∀ cpu < m.numCpu, ∀ i < 4,
    kind (t.l1 cpu (4 * (page / 1024) + i)) ≠ 2) ∧ op.exec m t = some t'

/-- A range within the address space is mapped on all processors where all of them have a page
table for a group or none has, and a page is mapped on one processor where no other shares its
page table. -/
def Harmless (m : Mmu) (t : Tables) : MapOp → Prop
  | .map vaddr paddr size flags =>
    size + paddr.toNat % PAGESIZE + (PAGESIZE - 1) < 2 ^ 32 ∧
    firstPage t.nextAddr vaddr + pageCount paddr size ≤ 2 ^ 20 ∧
    ∀ page, (MapOp.map vaddr paddr size flags).covers t.nextAddr page →
      (∀ c < m.numCpu, ∃ p, t.HasTable c (page / 1024) p) ∨
        ∀ c < m.numCpu, ∀ p, ¬t.HasTable c (page / 1024) p
  | .mapCpu cpu vaddr _ _ => ∀ p, t.HasTable cpu (vaddr / PAGESIZE / 1024) p →
      ∀ c < m.numCpu, c ≠ cpu → ¬t.HasTable c (vaddr / PAGESIZE / 1024) p

/-- The tables show the address spaces, the window to the "page directory" aside. -/
structure Shows (m : Mmu) (window : Option Nat) (t : Tables) (v : View) : Prop where
  inv : TablesInv m window t
  next : t.nextAddr = v.next
  pages : ∀ cpu < m.numCpu, ∀ page < 2 ^ 20, some (page / 1024) ≠ window →
    t.translate cpu page = v.map cpu page

variable {v : View}

theorem TablesInv.table_or_absent {cpu g : Nat} (inv : TablesInv m window t)
    (hcpu : cpu < m.numCpu) (hg : g < 1024)
    (plain : ∀ i < 4, kind (t.l1 cpu (4 * g + i)) ≠ 2) :
    (∃ p, t.HasTable cpu g p) ∨ t.Absent cpu g := by
  rcases inv.groups cpu hcpu g hg with table | other
  · exact Or.inl table
  · exact Or.inr fun i hi => (other i hi).resolve_right (plain i hi)

theorem mapSize_eq {paddr : Word} {size : Nat}
    (fits : size + paddr.toNat % PAGESIZE + (PAGESIZE - 1) < 2 ^ 32) :
    mapSize paddr size = pageCount paddr size * PAGESIZE := by
  unfold mapSize ROUNDPG pageCount
  rw [toNat_and_low (k := 12) rfl]
  unfold PAGESIZE at fits ⊢
  rw [show (2 : Nat) ^ 12 = 4096 from rfl,
    Nat.mod_eq_of_lt (show size + paddr.toNat % 4096 < 2 ^ 32 by omega),
    Nat.mod_eq_of_lt (by omega)]

theorem pageOf_lt {w : Word} : pageOf w < 2 ^ 20 := by
  have bound := w.isLt
  rw [pageOf_eq]
  omega

/-- The tables once an address is assigned, if one is asked for. -/
def Tables.assign (t : Tables) (vaddr count : Nat) : Tables :=
  { t with nextAddr :=
      if vaddr = 2 ^ 32 - 1 then t.nextAddr + count * PAGESIZE else t.nextAddr }

theorem arm32Map_spec {vaddr size addr : Nat} {paddr flags : Word} (virt : m.virt = true)
    (inv : TablesInv m window t)
    (small : size + paddr.toNat % PAGESIZE + (PAGESIZE - 1) < 2 ^ 32)
    (fits : firstPage t.nextAddr vaddr + pageCount paddr size ≤ 2 ^ 20)
    (uniform : ∀ page, (MapOp.map vaddr paddr size flags).covers t.nextAddr page →
      m.Uniform t (page / 1024))
    (call : m.arm32Map vaddr paddr size flags t = some (t', addr)) :
    MapsTo m window ((MapOp.map vaddr paddr size flags).covers t.nextAddr)
      (target (firstPage t.nextAddr vaddr) paddr) (fun c _ => c < m.numCpu)
      (t.assign vaddr (pageCount paddr size)) t' := by
  have count : mapSize paddr size / PAGESIZE = pageCount paddr size := by
    rw [mapSize_eq small]
    exact Nat.mul_div_cancel _ (by decide)
  unfold Mmu.arm32Map at call
  rw [virt] at call
  dsimp only at call
  obtain ⟨u, all, same⟩ := Option.map_eq_some_iff.mp call
  cases same
  have start : (if vaddr = 2 ^ 32 - 1 then { t with nextAddr := t.nextAddr + mapSize paddr size }
      else t) = t.assign vaddr (pageCount paddr size) := by
    rw [mapSize_eq small]
    unfold Tables.assign
    split <;> rfl
  rw [count, start] at all
  have is : pageOf (m.setProt (paddr &&& ~~~PGMASK) flags) = pageOf paddr := by
    rw [Mmu.pageOf_setProt, pageOf_andNot (by decide)]
  have inv : TablesInv m window (t.assign vaddr (pageCount paddr size)) := inv.congr rfl rfl
  refine (mapAll_spec inv (fun c hc => List.mem_range.mp hc)
    (Mmu.kind_setProt (paddr &&& ~~~PGMASK) flags)
    (by rw [is, target, Nat.sub_self, Nat.add_zero, Nat.mod_eq_of_lt pageOf_lt]) rfl fits rfl
    (fun page below above => uniform page ⟨below, above⟩) all).mono
    fun c page _ hc => List.mem_range.mpr hc

theorem Shows.map {vaddr size : Nat} {paddr flags : Word} (virt : m.virt = true)
    (shows : Shows m window t v) (step : MapStep m t (.map vaddr paddr size flags) t')
    (harmless : Harmless m t (.map vaddr paddr size flags)) :
    Shows m window t' (v.apply (.map vaddr paddr size flags)) := by
  obtain ⟨plain, exec⟩ := step
  obtain ⟨⟨u, addr⟩, call, rfl⟩ := Option.map_eq_some_iff.mp exec
  obtain ⟨small, fits, sharing⟩ := harmless
  have inv := shows.inv
  have mapped := arm32Map_spec virt inv small fits (fun page here => ?_) call
  · refine ⟨mapped.inv, ?_, fun c hc page hp out => ?_⟩
    · rw [mapped.next, Tables.assign, shows.next]
      rfl
    · change _ = if firstPage v.next vaddr ≤ page ∧
        page < firstPage v.next vaddr + pageCount paddr size then _ else _
      rw [← shows.next]
      split
      · rename_i here
        exact mapped.mapped c hc page hp out here hc
      · rename_i away
        exact (mapped.outside c hc page hp out away).trans (shows.pages c hc page hp out)
  · have group : page / 1024 < 1024 := by
      have above := here.2
      omega
    rcases sharing page here with every | none
    · exact Or.inl every
    · exact Or.inr fun c hc =>
        (inv.table_or_absent hc group (plain page here c hc)).resolve_left
          fun ⟨p, table⟩ => none c hc p table

theorem Shows.mapCpu {cpu vaddr : Nat} {paddr flags : Word} (shows : Shows m window t v)
    (step : MapStep m t (.mapCpu cpu vaddr paddr flags) t')
    (harmless : Harmless m t (.mapCpu cpu vaddr paddr flags)) :
    Shows m window t' (v.apply (.mapCpu cpu vaddr paddr flags)) := by
  obtain ⟨plain, exec⟩ := step
  obtain ⟨⟨hcpu, inside⟩, call⟩ := Option.ite_none_right_eq_some.mp exec
  have inv := shows.inv
  have group : vaddr / PAGESIZE / 1024 = vaddr / 2 ^ 22 := by
    unfold PAGESIZE
    omega
  have hg : vaddr / 2 ^ 22 < 1024 := by omega
  have index : vaddr / 2 ^ 20 / 4 * 4 = 4 * (vaddr / 2 ^ 22) + 0 := by omega
  have place : 1024 * (vaddr / 2 ^ 22) + vaddr / PAGESIZE % 1024 = vaddr / PAGESIZE := by
    rw [← group]
    exact Nat.div_add_mod _ _
  have stored : small (m.setProt paddr flags) = some (pageOf paddr) := by
    rw [small, if_neg (Mmu.kind_setProt paddr flags), Mmu.pageOf_setProt]
  -- the table of the processor, which no other one has
  obtain ⟨p, t₁, inv₁, table, alone, same, next, final⟩ : ∃ p t₁, TablesInv m window t₁ ∧
      t₁.HasTable cpu (vaddr / 2 ^ 22) p ∧
      (∀ c < m.numCpu, c ≠ cpu → ¬t₁.HasTable c (vaddr / 2 ^ 22) p) ∧
      (∀ c < m.numCpu, ∀ page < 2 ^ 20, some (page / 1024) ≠ window →
        t₁.translate c page = t.translate c page) ∧
      t₁.nextAddr = t.nextAddr ∧
      t' = t₁.store p (vaddr / PAGESIZE % ARM_L2_SIZE) (m.setProt paddr flags) := by
    unfold Mmu.arm32MapCpu at call
    dsimp only at call
    obtain ⟨⟨p, t₁⟩, found, rfl⟩ := Option.map_eq_some_iff.mp call
    refine ⟨p, t₁, ?_⟩
    rw [index] at found
    rcases inv.table_or_absent hcpu hg (fun i hi => group ▸ plain _ rfl cpu hcpu i hi) with
      ⟨q, table⟩ | absent
    · obtain ⟨at_, type⟩ := table 0 (by decide)
      have present : ¬t.l1 cpu (4 * (vaddr / 2 ^ 22) + 0) &&& ARM_PTP_VALID = 0 := by
        rw [kind_eq_zero, type]
        decide
      rw [if_neg present, at_] at found
      cases found
      exact ⟨inv, table, fun c hc other => group ▸ harmless _ (group ▸ table) c hc other,
        fun _ _ _ _ _ => rfl, rfl, rfl⟩
    · rw [if_pos (kind_eq_zero.mpr (absent 0 (by decide)))] at found
      obtain ⟨⟨q, u⟩, alloc, same⟩ := Option.map_eq_some_iff.mp found
      cases same
      obtain ⟨inv', has, _, kept, next⟩ := inv.attach alloc
        (fun c hc => by rwa [List.mem_singleton.mp hc])
        (fun c hc => by rwa [List.mem_singleton.mp hc])
      refine ⟨inv', (has ..).mpr (by simp), fun c hc other table => ?_, kept, next, rfl⟩
      have table := (has ..).mp table
      rw [if_neg (by simp [other])] at table
      exact (inv.fresh q (callocRam_mem alloc)).2.2 c hc _ hg table
  subst final
  refine ⟨inv₁.congr rfl rfl, next.trans shows.next, fun c hc page hp out => ?_⟩
  have slot : vaddr / PAGESIZE % ARM_L2_SIZE < 1024 := Nat.mod_lt _ (by decide)
  rw [translate_store inv₁ hcpu hg table slot hc hp, stored]
  change _ = if c = cpu ∧ page = vaddr / PAGESIZE then _ else _
  rw [show ARM_L2_SIZE = 1024 from rfl, place, same c hc page hp out, shows.pages c hc page hp out]
  refine if_congr ⟨fun both => ?_, fun both => ⟨both.2, both.1 ▸ table⟩⟩ rfl rfl
  by_cases here : c = cpu
  · exact ⟨here, both.1⟩
  · exact absurd both.2 (alone c hc here)

theorem Shows.step {op : MapOp} (virt : m.virt = true) (shows : Shows m window t v)
    (step : MapStep m t op t') (harmless : Harmless m t op) : Shows m window t' (v.apply op) := by
  cases op with
  | map vaddr paddr size flags => exact shows.map virt step harmless
  | mapCpu cpu vaddr paddr flags => exact shows.mapCpu step harmless

/-- After every run of harmless calls a page translates to what the latest call for it on the
processor has mapped, and the pages that no call has covered translate as before. -/
theorem arm_map_run (m : Mmu) (window : Option Nat) (t₀ t : Tables) (ops : List MapOp)
    (virt : m.virt = true) (inv : TablesInv m window t₀)
    (run : Run (fun t op t' => MapStep m t op t' ∧ Harmless m t op) t₀ ops t) :
    ∀ cpu < m.numCpu, ∀ page < 2 ^ 20, some (page / 1024) ≠ window →
      t.translate cpu page = (ops.foldl View.apply ⟨t₀.translate, t₀.nextAddr⟩).map cpu page ∧
      ∀ base ∈ (ops.foldl View.apply ⟨t₀.translate, t₀.nextAddr⟩).map cpu page,
        ∀ off < PAGESIZE, (t.vaddrToPaddr cpu (page * PAGESIZE + off)).toNat =
          base * PAGESIZE + off := by
  have shows := run.simulates (R := Shows m window)
    (fun {s op t a} before both => before.step virt both.1 both.2)
    (a := ⟨t₀.translate, t₀.nextAddr⟩) ⟨inv, rfl, fun _ _ _ _ _ => rfl⟩
  intro cpu hcpu page hp out
  have same := shows.pages cpu hcpu page hp out
  exact ⟨same, fun base mapped off inside => Tables.vaddrToPaddr_eq (same.trans mapped) inside⟩

/-! ## The tables of `init_mmu_32` -/

/-- The calls of `init_mmu_32` behind `arm_pdmap`, and those after it -/
inductive InitOp
  | scmap (vaddr : Nat) (paddr flags : Word)
  | map (op : MapOp)

/-- A section is put in a group without a page table. -/
def InitStep (m : Mmu) (t : Tables) : InitOp → Tables → Prop
  | .scmap vaddr paddr flags, t' => t' = m.armScmap vaddr paddr flags t ∧
    paddr.toNat % 2 ^ 20 = 0 ∧ ∀ cpu < m.numCpu, ∀ p, ¬t.HasTable cpu (vaddr / 2 ^ 22) p
  | .map op, t' => MapStep m t op t' ∧ Harmless m t op

theorem TablesInv.init {op : InitOp} (virt : m.virt = true) (inv : TablesInv m window t)
    (step : InitStep m t op t') : TablesInv m window t' := by
  cases op with
  | scmap vaddr paddr flags =>
    obtain ⟨rfl, aligned, plain⟩ := step
    exact inv.scmap aligned plain
  | map op =>
    have shows : Shows m window t ⟨t.translate, t.nextAddr⟩ := ⟨inv, rfl, fun _ _ _ _ _ => rfl⟩
    exact (shows.step virt step.1 step.2).inv

/-- The attributes of an ARMv7 with several processors. -/
def smp : Mmu where
  numCpu := 2
  virt := true
  v6 := true
  bits := ⟨0x30, 0x20, 0x30, 0x0c, 0x1c0, 0x1c0, 0x001, 0x010, 0x400, 0x800, by decide⟩
  pte := ⟨0xe6e, 0xe7e, 0x65e, 0x45e, 0x1cc, 0x001, 0x18402, 0x10402, 0x0100c,
    by simp, by decide, by decide, by simp⟩
  pteAttr := 0
  l2Table := fun cpu => 2 + cpu

/-- Empty tables, and three pages for page tables. -/
def empty : Tables := ⟨fun _ _ => 0, fun _ _ => 0, 0xfc000000, [8, 9, 10]⟩

theorem empty_inv : TablesInv smp none empty := blank_inv (by decide) (by decide)

/-- The tables after some calls. -/
def after (ops : List MapOp) : Tables :=
  ops.foldl (fun t op => (op.exec smp t).getD t) empty

theorem after_concat {pre : List MapOp} {op : MapOp}
    (works : (op.exec smp (after pre)).isSome = true) :
    op.exec smp (after pre) = some (after (pre ++ [op])) :=
  @foldl_getD_concat _ _ _ op pre (fun t op => MapOp.exec smp t op) works

theorem step_after {pre : List MapOp} {op : MapOp} {pages : List Nat}
    (covered : ∀ page, op.covers (after pre).nextAddr page → page ∈ pages)
    (plain : ∀ page ∈ pages, ∀ cpu < smp.numCpu, ∀ i < 4,
      kind ((after pre).l1 cpu (4 * (page / 1024) + i)) ≠ 2)
    (works : (op.exec smp (after pre)).isSome = true) :
    MapStep smp (after pre) op (after (pre ++ [op])) :=
  ⟨fun page here => plain page (covered page here), after_concat works⟩

/-- The page tables of both groups are for all processors. -/
theorem arm_map_run_small : ∃ t, Run (fun t op t' => MapStep smp t op t' ∧ Harmless smp t op) empty
      [.map 0x1000 0x200000 0x2000 0x2c, .mapCpu 1 0x400000 0x300000 0x2c] t ∧
    t.translate 0 2 = some 0x201 ∧ t.translate 1 0x400 = some 0x300 ∧
    (t.vaddrToPaddr 1 0x2010).toNat = 0x201 * PAGESIZE + 0x10 := by
  have run : Run (fun t op t' => MapStep smp t op t' ∧ Harmless smp t op) empty
      [.map 0x1000 0x200000 0x2000 0x2c, .mapCpu 1 0x400000 0x300000 0x2c]
      (after [.map 0x1000 0x200000 0x2000 0x2c, .mapCpu 1 0x400000 0x300000 0x2c]) := by
    refine .cons ⟨@step_after [] _ [1, 2] (fun page here => ?_) (by decide +kernel)
        (by decide +kernel), by decide, by decide, fun page _ => ?_⟩ <|
      .single ⟨step_after
        (fun page here => List.mem_singleton.mpr here) (by decide +kernel) (by decide +kernel),
        fun p table => ?_⟩
    · have first : firstPage (after []).nextAddr 0x1000 = 1 := rfl
      have count : pageCount 0x200000 0x2000 = 2 := rfl
      have inside : _ ≤ page ∧ page < _ + _ := here
      rw [first, count] at inside
      rw [List.mem_cons, List.mem_singleton]
      omega
    · exact Or.inr fun c _ p table => by cases (table 0 (by decide)).2
    · have none : kind ((after [.map 0x1000 0x200000 0x2000 0x2c]).l1 1 4) = 0 := by
        decide +kernel
      have present := (table 0 (by decide)).2
      exact absurd (none.symm.trans present) (by decide)
  have shows := arm_map_run smp none empty _ _ rfl empty_inv run
  exact ⟨_, run, (shows 0 (by decide) 2 (by decide) nofun).1.trans (by decide +kernel),
    (shows 1 (by decide) 0x400 (by decide) nofun).1.trans (by decide +kernel),
    (shows 1 (by decide) 2 (by decide) nofun).2 0x201 (by decide +kernel) 0x10 (by decide)⟩

/-- A page table that one processor has for itself is lost when a page next to it is mapped on all,
and a page that is mapped on one processor is mapped on all that share the page table. -/
theorem arm_map_broken :
    (∃ t, Run (MapStep smp) empty
        [.mapCpu 0 0 0x100000 0x2c, .map 0x1000 0x200000 0x1000 0x2c] t ∧
      t.translate 0 0 = none ∧
      (([.mapCpu 0 0 0x100000 0x2c, .map 0x1000 0x200000 0x1000 0x2c] : List MapOp).foldl
        View.apply ⟨empty.translate, empty.nextAddr⟩).map 0 0 = some 0x100) ∧
    ∃ t, Run (MapStep smp) empty
        [.map 0 0x200000 0x1000 0x2c, .mapCpu 0 0 0x100000 0x2c] t ∧
      t.translate 1 0 = some 0x100 ∧
      (([.map 0 0x200000 0x1000 0x2c, .mapCpu 0 0 0x100000 0x2c] : List MapOp).foldl
        View.apply ⟨empty.translate, empty.nextAddr⟩).map 1 0 = some 0x200 := by
  have zero : ∀ pre page, (MapOp.mapCpu 0 0 0x100000 0x2c).covers (after pre).nextAddr page →
      page ∈ [0] := fun pre page here => List.mem_singleton.mpr here
  constructor
  · refine ⟨_, .cons (step_after (zero []) (by decide +kernel) (by decide +kernel)) <|
      .single (@step_after [.mapCpu 0 0 0x100000 0x2c] _ [1] (fun page here => ?_)
          (by decide +kernel) (by decide +kernel)), by decide +kernel, by decide +kernel⟩
    have first : firstPage (after [.mapCpu 0 0 0x100000 0x2c]).nextAddr 0x1000 = 1 := rfl
    have count : pageCount 0x200000 0x1000 = 1 := rfl
    have inside : _ ≤ page ∧ page < _ + _ := here
    rw [first, count] at inside
    exact List.mem_singleton.mpr (by omega)
  · refine ⟨_, .cons (@step_after [] _ [0] (fun page here => ?_) (by decide +kernel)
        (by decide +kernel)) <|
      .single (step_after (zero _) (by decide +kernel)
        (by decide +kernel)), by decide +kernel, by decide +kernel⟩
    have first : firstPage (after []).nextAddr 0 = 0 := rfl
    have count : pageCount 0x200000 0x1000 = 1 := rfl
    have inside : _ ≤ page ∧ page < _ + _ := here
    rw [first, count] at inside
    exact List.mem_singleton.mpr (by omega)

end Mx6xBsp.Arm
