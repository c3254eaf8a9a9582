import Mathlib.Data.List.TakeWhile
import Mx6xBsp.Startup.HwinfoRuns
import Mx6xBsp.Startup.SectionText

/-!
# The string pool over a run

`strings` holds the pool's texts one after another and ends with an empty one.
A text keeps its offset for good, but the empty string has no place of its own:
`add_string` answers it with the offset of the end, which the next new text
takes. `stringPool_run_iff` says that this is the only way an offset is lost.
-/

namespace Mx6xBsp.Startup

open Runs CStrings

variable {lsp lsp' : Syspage} {es names : List (List UInt8)} {name : List UInt8} {off : Nat}

/-- The texts of a pool, each with its terminator. -/
def pool (es : List (List UInt8)) : List UInt8 := es.flatMap fun s => s ++ [0]

/-- Where `add_string` finds `name` in the pool, or would put it. -/
def poolOffset (es : List (List UInt8)) (name : List UInt8) : Nat :=
  (pool (es.takeWhile fun s => s ≠ name)).length

/-- The pool after `name` was asked for. -/
def poolNext (es : List (List UInt8)) (name : List UInt8) : List (List UInt8) :=
  if name = [] ∨ name ∈ es then es else es ++ [name]

/-- The strings section holds the texts `es` and then zeros. -/
structure PoolHolds (lsp : Syspage) (es : List (List UInt8)) : Prop where
  good : lsp.Good
  texts : ∀ s ∈ es, s ≠ [] ∧ NulFree s
  bytes : ∃ z, 0 < z ∧ lsp.bytes .strings = pool es ++ List.replicate z 0

@[simp] theorem pool_nil : pool [] = [] := rfl

@[simp] theorem pool_cons (s : List UInt8) : pool (s :: es) = s ++ 0 :: pool es := by
  simp [pool]

theorem pool_append (fs : List (List UInt8)) : pool (es ++ fs) = pool es ++ pool fs := by
  simp [pool]

theorem length_le_pool : es.length ≤ (pool es).length := by
  induction es with
  | nil => exact le_rfl
  | cons s es ih =>
    rw [pool_cons, List.length_append, List.length_cons, List.length_cons]
    omega

theorem poolOffset_cons {s : List UInt8} (other : s ≠ name) :
    poolOffset (s :: es) name = s.length + 1 + poolOffset es name := by
  unfold poolOffset
  rw [List.takeWhile_cons_of_pos (by simpa using other), pool_cons, List.length_append,
    List.length_cons]
  omega

theorem takeWhile_nulFree {rest : List UInt8} (free : NulFree name) :
    (name ++ 0 :: rest).takeWhile (· ≠ 0) = name := by
  rw [List.takeWhile_append_of_pos (by simpa [NulFree] using free)]
  simp

/-- The search of `add_string` in a pool. -/
theorem findString_pool {fuel i z : Nat} (texts : ∀ s ∈ es, s ≠ [] ∧ NulFree s) (ends : 0 < z)
    (enough : es.length < fuel) :
    findString name fuel (pool es ++ List.replicate z 0) i =
      some (i + poolOffset es name, decide (name ∈ es)) := by
  induction es generalizing fuel i with
  | nil =>
    obtain ⟨fuel, rfl⟩ := Nat.exists_eq_succ_of_ne_zero (by omega : fuel ≠ 0)
    obtain ⟨z, rfl⟩ := Nat.exists_eq_succ_of_ne_zero (by omega : z ≠ 0)
    simp [findString, List.replicate_succ, poolOffset]
  | cons s es ih =>
    obtain ⟨fuel, rfl⟩ := Nat.exists_eq_succ_of_ne_zero (by omega : fuel ≠ 0)
    obtain ⟨⟨nonempty, free⟩, later⟩ := List.forall_mem_cons.mp texts
    have here : (pool (s :: es) ++ List.replicate z 0).takeWhile (· ≠ 0) = s := by
      rw [pool_cons, List.append_assoc, List.cons_append]
      exact takeWhile_nulFree free
    have longer : ¬ s.length = (pool (s :: es) ++ List.replicate z 0).length := by
      rw [pool_cons, List.length_append, List.length_append, List.length_cons]
      omega
    rw [findString]
    simp only [here, if_neg longer, if_neg nonempty]
    by_cases same : s = name
    · simp [same, poolOffset]
    · have rest : (pool (s :: es) ++ List.replicate z 0).drop (s.length + 1) =
          pool es ++ List.replicate z 0 := by
        rw [pool_cons, List.append_assoc, List.cons_append, List.drop_append]
        simp
      rw [if_neg same, rest, ih later (by simpa using enough)]
      rw [poolOffset_cons same, ← Nat.add_assoc, ← Nat.add_assoc]
      simp [Ne.symm same]

theorem poolOffset_new (new : name ∉ es) : poolOffset es name = (pool es).length := by
  rw [poolOffset, List.takeWhile_eq_self_iff.mpr]
  intro s mem
  simpa using fun same : s = name => new (same ▸ mem)

/-- One call of `add_string` on a pool. -/
theorem PoolHolds.add (holds : PoolHolds lsp es) (free : NulFree name)
    (short : name.length + 2 < 2 ^ 31) (add : addString lsp name = .ok (lsp', off)) :
    off = poolOffset es name ∧ PoolHolds lsp' (poolNext es name) := by
  obtain ⟨z, ends, bytes⟩ := holds.bytes
  have size : lsp.size .strings = (pool es).length + z := by
    rw [← Syspage.bytes_length, bytes, List.length_append, List.length_replicate]
  have search := @findString_pool _ name (lsp.size .strings + 1) 0 _ holds.texts ends (by
      have := @length_le_pool es
      omega)
  rw [Nat.zero_add] at search
  rw [addString, bytes, search] at add
  by_cases mem : name ∈ es
  · simp only [mem, decide_true] at add
    cases add
    rw [poolNext, if_pos (Or.inr mem)]
    exact ⟨rfl, holds⟩
  simp only [mem, decide_false, poolOffset_new mem] at add
  obtain ⟨⟨grown, p⟩, grow, done⟩ := Except.bind_eq_ok.mp add
  cases done
  have spare : lsp.size .strings - (pool es).length = z := by omega
  rw [spare] at grow
  obtain ⟨good, _, rfl, z', fits, grownBytes⟩ := Syspage.room holds.good bytes rfl short grow
  have written := @Syspage.write_bytes _ _ (name ++ [0]) _ _ grownBytes (by simp; omega)
  rw [List.length_append, List.length_singleton] at written
  refine ⟨(poolOffset_new mem).symm, good.setMem, ?_, ?_⟩
  · intro s listed
    unfold poolNext at listed
    split at listed
    · exact holds.texts s listed
    · rename_i nonempty
      rcases List.mem_append.mp listed with old | added
      · exact holds.texts s old
      · rw [List.mem_singleton.mp added]
        exact ⟨fun empty => nonempty (Or.inl empty), free⟩
  · by_cases empty : name = []
    · refine ⟨z', by omega, written.trans ?_⟩
      rw [poolNext, if_pos (Or.inl empty), empty, List.nil_append, List.append_assoc]
      congr 1
      have split : z' = 1 + (z' - 1) := by omega
      conv_rhs => rw [split]
      exact List.replicate_append_replicate (n := 1) (a := (0 : UInt8))
    · refine ⟨z' - (name.length + 1), by omega, written.trans ?_⟩
      rw [poolNext, if_neg (by tauto), pool_append]
      simp [pool]

/-! ## Offsets -/

theorem poolOffset_append (fs : List (List UInt8)) (mem : name ∈ es) :
    poolOffset (es ++ fs) name = poolOffset es name := by
  unfold poolOffset
  congr 2
  rw [List.takeWhile_append, if_neg]
  intro whole
  have all := List.takeWhile_eq_self_iff.mp
    ((List.takeWhile_prefix _).eq_of_length whole)
  simpa using all name mem

theorem poolOffset_next : poolOffset (poolNext es name) name = poolOffset es name := by
  unfold poolNext
  split
  · rfl
  · rename_i new
    have absent : name ∉ es := fun mem => new (Or.inr mem)
    have others : ∀ s ∈ es, decide (s ≠ name) = true := by
      intro s mem
      simpa using fun same : s = name => absent (same ▸ mem)
    rw [poolOffset_new absent, poolOffset, List.takeWhile_append_of_pos others]
    simp

theorem pool_split (mem : name ∈ es) : ∃ front rest,
    pool es = front ++ (name ++ [0]) ++ rest ∧ front.length = poolOffset es name := by
  induction es with
  | nil => cases mem
  | cons s es ih =>
    by_cases same : s = name
    · exact ⟨[], pool es, by simp [same], by simp [poolOffset, same]⟩
    · obtain ⟨front, rest, split, length⟩ := ih (List.mem_of_ne_of_mem (Ne.symm same) mem)
      refine ⟨s ++ 0 :: front, rest, by simp [split], ?_⟩
      rw [poolOffset_cons same, ← length, List.length_append, List.length_cons]
      omega

/-- The string at an offset of the strings section. -/
def Resolves (lsp : Syspage) (off : Nat) (name : List UInt8) : Prop :=
  off + name.length + 1 ≤ lsp.size .strings ∧
    readString lsp.mem PADDR_SPACE (lsp.p .strings + off) = some name

theorem resolves_of_bytes {front rest : List UInt8} (good : lsp.Good) (free : NulFree name)
    (bytes : lsp.bytes .strings = front ++ (name ++ [0]) ++ rest) :
    Resolves lsp front.length name := by
  obtain ⟨size, holds⟩ := Syspage.bytes_eq_iff.mp bytes
  have text := (holds_append.mp (holds_append.mp holds).1).2
  have inside := good.inside .strings
  have addressable := good.addressable
  unfold Syspage.stop at inside
  simp only [List.length_append, List.length_singleton] at size
  exact ⟨by omega, readString_of_holds text free (by omega)⟩

/-- Every text of the pool, and the empty string, is where `add_string` finds it. -/
theorem PoolHolds.resolves (holds : PoolHolds lsp es) (listed : name = [] ∨ name ∈ es) :
    Resolves lsp (poolOffset es name) name := by
  obtain ⟨z, ends, bytes⟩ := holds.bytes
  rcases listed with rfl | mem
  · have new : [] ∉ es := fun mem => (holds.texts [] mem).1 rfl
    obtain ⟨z, rfl⟩ := Nat.exists_eq_succ_of_ne_zero (by omega : z ≠ 0)
    rw [poolOffset_new new]
    refine @resolves_of_bytes _ _ _ (List.replicate z 0) holds.good (List.forall_mem_nil _) ?_
    rw [bytes, List.replicate_succ, List.append_assoc]
    rfl
  · obtain ⟨front, rest, split, length⟩ := pool_split mem
    rw [← length]
    refine @resolves_of_bytes _ _ _ (rest ++ List.replicate z 0) holds.good (holds.texts name mem).2
        ?_
    rw [bytes, split, List.append_assoc]

/-! ## Runs -/

/-- Asking for a string, answered with its offset, and the calls of other code on the page. -/
inductive PoolCall
  | add (name : List UInt8) (off : Nat)
  | page (call : SyspageCall)

namespace PoolCall

/-- `add_string` is given a C string; other code does not store into the strings. -/
def step (lsp : Syspage) : PoolCall → Syspage → Prop
  | .add name off, lsp' =>
    NulFree name ∧ name.length + 2 < 2 ^ 31 ∧ addString lsp name = .ok (lsp', off)
  | .page call, lsp' =>
    (∀ off val, call ≠ .store .strings off val) ∧ SyspageStep lsp call lsp'

/-- The string asked for. -/
def asked : PoolCall → Option (List UInt8)
  | .add name _ => some name
  | .page _ => none

/-- The pool after a call. -/
def next (es : List (List UInt8)) : PoolCall → List (List UInt8)
  | .add name _ => poolNext es name
  | .page _ => es

end PoolCall

/-- No text enters the pool after the empty string was asked for; `es` is the pool before. -/
def EmptyLast (es names : List (List UInt8)) : Prop :=
  ∀ before after, names = before ++ [] :: after → ∀ s ∈ after, s = [] ∨ s ∈ es ∨ s ∈ before

/-- Every offset returned resolves to the string it was returned for. -/
def OffsetsResolve (calls : List PoolCall) (lsp : Syspage) : Prop :=
  ∀ name off, .add name off ∈ calls → Resolves lsp off name

/-- Equal strings have equal offsets. -/
def OffsetsAgree (calls : List PoolCall) : Prop :=
  ∀ name off off', .add name off ∈ calls → .add name off' ∈ calls → off = off'

variable {calls : List PoolCall}

theorem PoolHolds.page {call : SyspageCall} (holds : PoolHolds lsp es)
    (elsewhere : ∀ off val, call ≠ .store .strings off val) (step : SyspageStep lsp call lsp') :
    PoolHolds lsp' es := by
  obtain ⟨z, ends, pool⟩ := holds.bytes
  obtain ⟨good, n, appended⟩ := holds.good.elsewhere elsewhere step
  refine ⟨good, holds.texts, z + n, by omega, ?_⟩
  rw [appended, pool, List.append_assoc, List.replicate_append_replicate]

theorem PoolHolds.step {call : PoolCall} (holds : PoolHolds lsp es)
    (step : call.step lsp lsp') : PoolHolds lsp' (call.next es) := by
  cases call with
  | add name off => exact (holds.add step.1 step.2.1 step.2.2).2
  | page call => exact holds.page step.1 step.2

theorem PoolHolds.run (holds : PoolHolds lsp es) (run : Run PoolCall.step lsp calls lsp') :
    PoolHolds lsp' (calls.foldl PoolCall.next es) :=
  @Run.simulates _ _ _ _ _ _ _ PoolHolds PoolCall.next PoolHolds.step run _ holds

theorem prefix_poolNext : es <+: poolNext es name := by
  unfold poolNext
  split
  · exact List.prefix_rfl
  · exact List.prefix_append _ _

theorem prefix_pool : es <+: calls.foldl PoolCall.next es := by
  induction calls generalizing es with
  | nil => exact List.prefix_rfl
  | cons call calls ih =>
    refine List.IsPrefix.trans ?_ ih
    cases call with
    | add name off => exact prefix_poolNext
    | page call => exact List.prefix_rfl

theorem mem_poolNext : name = [] ∨ name ∈ poolNext es name := by
  unfold poolNext
  split
  · assumption
  · exact Or.inr (List.mem_append_right _ (List.mem_singleton_self _))

theorem asked_mem_pool (mem : name ∈ calls.filterMap PoolCall.asked) :
    name = [] ∨ name ∈ calls.foldl PoolCall.next es := by
  induction calls generalizing es with
  | nil => cases mem
  | cons call calls ih =>
    cases call with
    | page call => exact ih mem
    | add first off =>
      rcases List.mem_cons.mp mem with rfl | later
      · refine Or.imp_right (fun mem => ?_) (@mem_poolNext es _)
        exact (@prefix_pool _ calls).subset mem
      · exact ih later

theorem pool_unchanged
    (known : ∀ s ∈ calls.filterMap PoolCall.asked, s = [] ∨ s ∈ es) :
    calls.foldl PoolCall.next es = es := by
  induction calls with
  | nil => rfl
  | cons call calls ih =>
    cases call with
    | page call => exact ih known
    | add name off =>
      obtain ⟨here, later⟩ := List.forall_mem_cons.mp known
      have same : PoolCall.next es (.add name off) = es := if_pos here
      rw [List.foldl_cons, same]
      exact ih later

theorem emptyLast_nil : EmptyLast es [] := by
  intro before after split
  simp at split

theorem emptyLast_cons : EmptyLast es (name :: names) ↔
    (name = [] → ∀ s ∈ names, s = [] ∨ s ∈ es) ∧ EmptyLast (poolNext es name) names := by
  constructor
  · intro last
    refine ⟨?_, ?_⟩
    · rintro rfl s mem
      simpa using last [] names rfl s mem
    · rintro before after rfl s mem
      rcases last (name :: before) after rfl s mem with empty | old | asked
      · exact Or.inl empty
      · exact Or.inr (Or.inl (prefix_poolNext.subset old))
      · rcases List.mem_cons.mp asked with rfl | asked
        · exact mem_poolNext.imp_right Or.inl
        · exact Or.inr (Or.inr asked)
  · rintro ⟨first, last⟩ before after split s mem
    cases before with
    | nil =>
      obtain ⟨rfl, rfl⟩ := List.cons.inj split
      exact (first rfl s mem).imp_right Or.inl
    | cons head before =>
      obtain ⟨rfl, rfl⟩ := List.cons.inj split
      rcases last before after rfl s mem with empty | old | asked
      · exact Or.inl empty
      · unfold poolNext at old
        split at old
        · exact Or.inr (Or.inl old)
        · rcases List.mem_append.mp old with old | added
          · exact Or.inr (Or.inl old)
          · exact Or.inr (Or.inr (List.mem_cons.mpr (Or.inl (List.mem_singleton.mp added))))
      · exact Or.inr (Or.inr (List.mem_cons_of_mem _ asked))

/-- The place of a text does not change any more once it was asked for, unless it is empty and
another one is added. -/
theorem poolOffset_final (later : name = [] →
      ∀ s ∈ calls.filterMap PoolCall.asked, s = [] ∨ s ∈ es) :
    poolOffset (calls.foldl PoolCall.next (poolNext es name)) name = poolOffset es name := by
  rcases @mem_poolNext _ name with rfl | mem
  · have same : poolNext es [] = es := if_pos (Or.inl rfl)
    rw [same, pool_unchanged (later rfl)]
  · obtain ⟨fs, extended⟩ := prefix_pool
    rw [← extended, poolOffset_append fs mem, poolOffset_next]

/-- While no text follows an empty string, every answer is the place in the final pool. -/
theorem answers_final (holds : PoolHolds lsp es) (run : Run PoolCall.step lsp calls lsp')
    (last : EmptyLast es (calls.filterMap PoolCall.asked)) {name : List UInt8} {off : Nat}
    (mem : .add name off ∈ calls) : off = poolOffset (calls.foldl PoolCall.next es) name := by
  induction run generalizing es with
  | nil => cases mem
  | @cons s mid t call calls first _ ih =>
    cases call with
    | page call =>
      rcases List.mem_cons.mp mem with same | later
      · cases same
      · exact ih (holds.step first) last later
    | add asked answer =>
      obtain ⟨first', rest⟩ := emptyLast_cons.mp last
      rcases List.mem_cons.mp mem with same | later
      · cases same
        obtain ⟨rfl, _⟩ := holds.add first.1 first.2.1 first.2.2
        exact (poolOffset_final first').symm
      · exact ih (holds.step first) rest later

theorem emptyLast_of_resolves (holds : PoolHolds lsp es) (run : Run PoolCall.step lsp calls lsp')
    (resolve : OffsetsResolve calls lsp') : EmptyLast es (calls.filterMap PoolCall.asked) := by
  induction run generalizing es with
  | nil => exact emptyLast_nil
  | @cons s mid t call calls first rest ih =>
    have tail := ih (holds.step first) fun name off mem =>
      resolve name off (List.mem_cons_of_mem _ mem)
    cases call with
    | page call => exact tail
    | add name off =>
      refine emptyLast_cons.mpr ⟨?_, tail⟩
      rintro rfl later asked
      obtain ⟨rfl, next⟩ := holds.add first.1 first.2.1 first.2.2
      have final := next.run rest
      have stays : poolNext es [] = es := if_pos (Or.inl rfl)
      rw [stays] at final
      obtain ⟨fs, extended⟩ := prefix_pool
      cases fs with
      | nil =>
        rw [List.append_nil] at extended
        have known := @asked_mem_pool es _ _ asked
        rwa [← extended] at known
      | cons text fs =>
        exfalso
        have new : [] ∉ es := fun mem => (holds.texts [] mem).1 rfl
        have texts := final.texts text (by rw [← extended]; simp)
        obtain ⟨z, _, bytes⟩ := final.bytes
        have there : Resolves t (pool es).length text := by
          refine @resolves_of_bytes _ _ _ (pool fs ++ List.replicate z 0) final.good texts.2
              ?_
          rw [bytes, ← extended, pool_append, pool_cons]
          simp
        have here := resolve [] _ (List.mem_cons_self ..)
        rw [poolOffset_new new] at here
        exact texts.1 (Option.some.inj (there.2.symm.trans here.2))

/-- The section `init_syspage_memory` has left is the empty pool. -/
theorem init_pool {base maxSize hdrSize calloutEntry callinEntry hwiPrefix armCpuEntry : Nat}
    {patchData : List CoInfo} {mem : Mem} (fits : Syspage.InitFits base maxSize hdrSize)
    (init : Run SyspageStep (initSections base maxSize hdrSize patchData mem)
      (initCalls calloutEntry callinEntry hwiPrefix armCpuEntry) lsp) : PoolHolds lsp [] := by
  have good := @Syspage.initSections_good _ _ _ patchData mem fits
  have empty : (initSections base maxSize hdrSize patchData mem).bytes .strings = [] := rfl
  refine ⟨Syspage.good_run init good, fun s mem => (List.not_mem_nil mem).elim, 8, by decide, ?_⟩
  rw [Syspage.bytes_run init good]
  simp [initCalls, SyspageCall.next, empty, show ROUND 1 8 = 8 by decide]

/-- After any run of calls from `init_syspage_memory` on, every offset `add_string` has returned
resolves to its string, with equal offsets for equal strings, exactly when no new text was added
after the empty string was asked for. -/
theorem stringPool_run_iff
    {base maxSize hdrSize calloutEntry callinEntry hwiPrefix armCpuEntry : Nat}
    {patchData : List CoInfo} {mem : Mem} (fits : Syspage.InitFits base maxSize hdrSize)
    (init : Run SyspageStep (initSections base maxSize hdrSize patchData mem)
      (initCalls calloutEntry callinEntry hwiPrefix armCpuEntry) lsp)
    (run : Run PoolCall.step lsp calls lsp') :
    OffsetsResolve calls lsp' ∧ OffsetsAgree calls ↔
      EmptyLast [] (calls.filterMap PoolCall.asked) := by
  have holds := init_pool fits init
  refine ⟨fun correct => emptyLast_of_resolves holds run correct.1, fun last => ⟨?_, ?_⟩⟩
  · intro name off mem
    rw [answers_final holds run last mem]
    refine (holds.run run).resolves (asked_mem_pool ?_)
    exact List.mem_filterMap.mpr ⟨_, mem, rfl⟩
  · intro name off off' first second
    rw [answers_final holds run last first, answers_final holds run last second]

/-- `name` asked for, with the answer the code gives. -/
def poolAdd (lsp : Syspage) (name : List UInt8) : Syspage × Nat :=
  (addString lsp name).toOption.getD (lsp, 0)

theorem poolAdd_step (free : NulFree name) (short : name.length + 2 < 2 ^ 31)
    (works : ((addString lsp name).map Prod.snd) = .ok off) :
    PoolCall.step lsp (.add name off) (poolAdd lsp name).1 := by
  obtain ⟨⟨lsp', off'⟩, add, rfl⟩ := Except.exists_of_map works
  refine ⟨free, short, ?_⟩
  unfold poolAdd
  rw [add]
  rfl

/-- "hw", "w", "hw" and the empty string on the small page. -/
theorem stringPool_run_small : ∃ lsp',
    Run PoolCall.step smallHwinfo.hw.lsp
      [.add [104, 119] 0, .add [119] 3, .add [104, 119] 0, .add [] 5] lsp' ∧
    Resolves lsp' 3 [119] ∧ Resolves lsp' 5 [] := by
  have run : Run PoolCall.step smallHwinfo.hw.lsp
      [.add [104, 119] 0, .add [119] 3, .add [104, 119] 0, .add [] 5] _ :=
    .cons (poolAdd_step (by decide +kernel) (by decide +kernel) (by decide +kernel)) <|
    .cons (poolAdd_step (by decide +kernel) (by decide +kernel) (by decide +kernel)) <|
    .cons (poolAdd_step (by decide +kernel) (by decide +kernel) (by decide +kernel)) <|
    .single (poolAdd_step (by decide +kernel) (by decide +kernel) (by decide +kernel))
  have correct := (stringPool_run_iff Syspage.smallPage_fits smallHwinfo_init run).mpr (by
    simp [PoolCall.asked, emptyLast_cons, emptyLast_nil])
  exact ⟨_, run, correct.1 _ _ (by simp), correct.1 _ _ (by simp)⟩

/-- The empty string gets offset 0, and "a" takes it. -/
theorem stringPool_empty_lost : ∃ lsp',
    Run PoolCall.step smallHwinfo.hw.lsp [.add [] 0, .add [97] 0, .add [] 2] lsp' ∧
    Resolves lsp' 0 [97] ∧ ¬Resolves lsp' 0 [] := by
  let last := (poolAdd (poolAdd (poolAdd smallHwinfo.hw.lsp []).1 [97]).1 []).1
  have run : Run PoolCall.step smallHwinfo.hw.lsp [.add [] 0, .add [97] 0, .add [] 2] last :=
    .cons (poolAdd_step (by decide +kernel) (by decide +kernel) (by decide +kernel)) <|
    .cons (poolAdd_step (by decide +kernel) (by decide +kernel) (by decide +kernel)) <|
    .single (poolAdd_step (by decide +kernel) (by decide +kernel) (by decide +kernel))
  have text : Holds last.mem (last.p .strings + 0) ([97] ++ [0]) :=
    holds_cons.mpr ⟨by decide +kernel, holds_cons.mpr ⟨by decide +kernel, holds_nil⟩⟩
  have there : Resolves last 0 [97] :=
    ⟨by decide +kernel, readString_of_holds text (by decide +kernel) (by decide +kernel)⟩
  refine ⟨last, run, there, fun here => ?_⟩
  cases there.2.symm.trans here.2

end Mx6xBsp.Startup
