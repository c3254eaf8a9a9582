import Mathlib.Algebra.Group.Int.Defs
import Mathlib.Algebra.Group.Nat.Defs
import Mx6xBsp.Lib.CStrings

/-!
# Adjusting the command line of a bootstrap program

`bootstrap_cmdline.c`: the arguments and the environment of a program stand in one block, packed
one after the other, and are edited in place. The result decodes to the lists with the change
that is asked for exactly as long as the counts and the size still fit their fields, and something
is asked for (`adjust_iff`).
-/

namespace Mx6xBsp.Startup.BootArgs

open CStrings Words

/-- Memory by the distance from a `struct bootargs_entry`: `size_lo`, `size_hi`, `argc` and `envc`
are at 0 to 3, `shdr_addr` is at 4, and what comes before the block has negative distances. -/
abbrev Block := Int → UInt8

/-- `offsetof(struct bootargs_entry, args)` -/
def ARGS : Nat := 8

/-- `bap->size_lo + (bap->size_hi << 8)` -/
def Block.size (m : Block) : Nat := (m 0).toNat + 256 * (m 1).toNat

/-- The memory from the block on. -/
def Block.bytes (m : Block) : Bytes := fun i => m i

/-- The string at `p`; the bound stands for the end of memory. -/
def Block.str (m : Block) (p : Nat) : Option (List UInt8) := readString m.bytes (2 ^ 32) p

def memmove (m : Block) (dst src : Int) (n : Nat) : Block :=
  fun a => if dst ≤ a ∧ a < dst + n then m (src + (a - dst)) else m a

def memcpy (m : Block) (dst : Nat) (data : List UInt8) : Block :=
  fun a => if dst ≤ a then (data[(a - dst).toNat]?).getD (m a) else m a

/-! ## The source -/

/-- The first loop of `do_adjust`: past `start` strings. -/
def skipStrings (m : Block) : Nat → Nat → Option Nat
  | 0, p => some p
  | start + 1, p => do
      let s ← m.str p
      skipStrings m start (p + (s.length + 1))

/-- The second loop of `do_adjust`: `p` at the first of `num` strings that is `old`, with
`sub_len`, or behind them. -/
def findString (m : Block) (old : Option (List UInt8)) : Nat → Nat → Option (Nat × Option Nat)
  | 0, p => some (p, none)
  | num + 1, p => do
      let s ← m.str p
      if old = some s then some (p, some (s.length + 1))
      else findString m old num (p + (s.length + 1))

/-- `*countp` after `do_operation`; a `char` of this target is unsigned. -/
def countAfter (old new : Option (List UInt8)) (count : UInt8) : UInt8 :=
  match new with
  | none => count - 1
  | some _ => if old = none then count + 1 else count

/-- The text from `do_operation` on. -/
def doOperation (m : Block) (old new : Option (List UInt8)) (countp : Int) (p subLen : Nat) :
    Block :=
  let add := packed new.toList
  let m : Block := Function.update m countp (countAfter old new (m countp))
  let totalLen : Int := m.size
  let diff : Int := add.length - subLen
  let src := p - diff
  let m := memmove m p src ((totalLen - src) % 2 ^ 32).toNat
  let m := memcpy m p add
  let totalLen := ((totalLen + diff) % 2 ^ 32).toNat
  Function.update (Function.update m 0 (UInt8.ofNat totalLen)) 1 (UInt8.ofNat (totalLen / 256))

def doAdjust (m : Block) (old new : Option (List UInt8)) (start : Nat) (countp : Int) :
    Option (Block × Bool) := do
  let num := (m countp).toNat
  let p ← skipStrings m start ARGS
  let (p, found) ← findString m old num p
  match found with
  | some subLen => some (doOperation m old new countp p subLen, true)
  | none =>
    if old = none then some (doOperation m old new countp p 0, true)
    else some (m, false)

def bootstrapArgAdjust (m : Block) (old new : Option (List UInt8)) : Option (Block × Bool) :=
  doAdjust m old new 0 2

def bootstrapEnvAdjust (m : Block) (old new : Option (List UInt8)) : Option (Block × Bool) :=
  doAdjust m old new (m 2).toNat 3

/-! ## What it is for -/

/-- The block holds these arguments and environment strings, and `rest` behind them up to its
size. -/
structure Decodes (m : Block) (args env : List (List UInt8)) (rest : List UInt8) : Prop where
  argc : (m 2).toNat = args.length
  envc : (m 3).toNat = env.length
  free : ∀ s ∈ args ++ env, NulFree s
  strings : Holds m.bytes ARGS (packed (args ++ env) ++ rest)
  size : m.size = ARGS + (packed (args ++ env) ++ rest).length

/-- The first `old` replaced. -/
def replaceFirst (old : List UInt8) (new : List (List UInt8)) :
    List (List UInt8) → List (List UInt8)
  | [] => []
  | s :: ss => if s = old then new ++ ss else s :: replaceFirst old new ss

/-- The change asked for: without `old` to append `new`, otherwise to replace or delete the first
`old`. -/
def change (old new : Option (List UInt8)) (ss : List (List UInt8)) : List (List UInt8) :=
  match old with
  | none => ss ++ new.toList
  | some old => replaceFirst old new.toList ss

/-- Which of the two lists is adjusted. -/
inductive Part
  | arg
  | env

def Part.adjust : Part → Block → Option (List UInt8) → Option (List UInt8) → Option (Block × Bool)
  | .arg => bootstrapArgAdjust
  | .env => bootstrapEnvAdjust

/-- The arguments and the environment after a change of the part. -/
def Part.lists (part : Part) (f : List (List UInt8) → List (List UInt8))
    (args env : List (List UInt8)) : List (List UInt8) × List (List UInt8) :=
  match part with
  | .arg => (f args, env)
  | .env => (args, f env)

/-- The counts and the size of the block fit their fields. -/
def FitsFields (args env : List (List UInt8)) (rest : List UInt8) : Prop :=
  args.length < 256 ∧ env.length < 256 ∧ ARGS + (packed (args ++ env) ++ rest).length < 65536

variable {m m' : Block} {old new : Option (List UInt8)} {args env pre ss post : List (List UInt8)}
  {rest tail : List UInt8} {s : List UInt8} {p : Nat}

theorem str_of_holds (holds : Holds m.bytes p (s ++ [0])) (free : NulFree s)
    (small : s.length < 2 ^ 32) : m.str p = some s :=
  readString_of_holds holds free small

theorem packed_head (holds : Holds m.bytes p (packed (s :: ss) ++ tail))
    (free : ∀ t ∈ s :: ss, NulFree t) (small : (packed (s :: ss)).length < 2 ^ 32) :
    m.str p = some s ∧ Holds m.bytes (p + (s.length + 1)) (packed ss ++ tail) := by
  simp only [packed_cons, List.append_assoc, List.length_append] at holds small
  rw [← List.append_assoc] at holds
  obtain ⟨first, others⟩ := holds_append.mp holds
  rw [List.length_append, List.length_singleton] at others
  exact ⟨str_of_holds first (free s List.mem_cons_self) (by omega), others⟩

theorem length_packed_cons : (packed (s :: ss)).length = s.length + 1 + (packed ss).length := by
  simp only [packed_cons, List.length_append, List.length_singleton]

theorem skipStrings_eq (holds : Holds m.bytes p (packed ss ++ tail)) (free : ∀ s ∈ ss, NulFree s)
    (small : (packed ss).length < 2 ^ 32) :
    skipStrings m ss.length p = some (p + (packed ss).length) := by
  induction ss generalizing p with
  | nil => rfl
  | cons s ss ih =>
    obtain ⟨first, others⟩ := packed_head holds free small
    rw [length_packed_cons] at small ⊢
    have later := ih others (fun t mem => free t (List.mem_cons_of_mem _ mem)) (by omega)
    rw [List.length_cons, skipStrings, first, Option.bind_eq_bind, Option.bind_some, later,
      Nat.add_assoc]

theorem findString_missed (holds : Holds m.bytes p (packed ss ++ tail))
    (free : ∀ s ∈ ss, NulFree s) (small : (packed ss).length < 2 ^ 32)
    (other : ∀ s ∈ ss, old ≠ some s) :
    findString m old ss.length p = some (p + (packed ss).length, none) := by
  induction ss generalizing p with
  | nil => rfl
  | cons s ss ih =>
    obtain ⟨first, others⟩ := packed_head holds free small
    rw [length_packed_cons] at small ⊢
    have later := ih others (fun t mem => free t (List.mem_cons_of_mem _ mem)) (by omega)
      fun t mem => other t (List.mem_cons_of_mem _ mem)
    rw [List.length_cons, findString, first, Option.bind_eq_bind, Option.bind_some,
      if_neg (other s List.mem_cons_self), later, Nat.add_assoc]

theorem findString_found (holds : Holds m.bytes p (packed (pre ++ s :: post) ++ tail))
    (free : ∀ t ∈ pre ++ s :: post, NulFree t)
    (small : (packed (pre ++ s :: post)).length < 2 ^ 32) (fresh : s ∉ pre) :
    findString m (some s) (pre ++ s :: post).length p =
      some (p + (packed pre).length, some (s.length + 1)) := by
  induction pre generalizing p with
  | nil =>
    obtain ⟨first, -⟩ := packed_head holds free small
    rw [List.nil_append, List.length_cons, findString, first, Option.bind_eq_bind,
      Option.bind_some, if_pos rfl]
    rfl
  | cons t pre ih =>
    obtain ⟨first, others⟩ := packed_head holds free small
    rw [List.cons_append, length_packed_cons] at small
    have later := ih others (fun u mem => free u (List.mem_cons_of_mem _ mem)) (by omega)
      fun mem => fresh (List.mem_cons_of_mem _ mem)
    rw [List.cons_append, List.length_cons, findString, first, Option.bind_eq_bind,
      Option.bind_some, if_neg, later, length_packed_cons, Nat.add_assoc]
    intro same
    cases same
    exact fresh List.mem_cons_self

/-! ## The operation -/

section Operation

variable {del : List (List UInt8)} {countp : Int}

/-- The tail slides by the difference of the lengths, and the new string fills the gap. -/
theorem doOperation_spec (holds : Holds m.bytes ARGS (packed pre ++ packed del ++ tail))
    (total : m.size = ARGS + (packed pre ++ packed del ++ tail).length)
    (count : countp = 2 ∨ countp = 3)
    (fits : ARGS + (packed pre ++ packed new.toList ++ tail).length < 65536) :
    let m' := doOperation m old new countp (ARGS + (packed pre).length) (packed del).length
    Holds m'.bytes ARGS (packed pre ++ packed new.toList ++ tail) ∧
      m'.size = ARGS + (packed pre ++ packed new.toList ++ tail).length ∧
      ∀ i, 2 ≤ i → i < 8 → m' i = if i = countp then countAfter old new (m countp) else m i := by
  intro m'
  simp only [List.length_append] at total fits
  have size : Block.size (Function.update m countp (countAfter old new (m countp))) = m.size := by
    unfold Block.size
    rw [Function.update_of_ne (by omega), Function.update_of_ne (by omega)]
  have moved : (((m.size : Int) - ((ARGS + (packed pre).length : Nat) -
      ((packed new.toList).length - (packed del).length : Int))) % 2 ^ 32).toNat =
      (packed new.toList).length + tail.length := by
    unfold ARGS at *
    omega
  have low : ∀ i : Int, 2 ≤ i → i < (ARGS + (packed pre).length : Nat) →
      m' i = if i = countp then countAfter old new (m countp) else m i := by
    intro i above below
    unfold m' doOperation
    rw [Function.update_of_ne (by omega), Function.update_of_ne (by omega)]
    unfold memcpy memmove
    rw [if_neg (by omega), if_neg (by omega), Function.update_apply]
  have mid : Holds (Block.bytes m') (ARGS + (packed pre).length) (packed new.toList) := by
    intro i within
    unfold Block.bytes m' doOperation
    rw [Function.update_of_ne (by unfold ARGS; omega),
      Function.update_of_ne (by unfold ARGS; omega)]
    unfold memcpy
    have index : (((ARGS + (packed pre).length + i : Nat) : Int) -
        (ARGS + (packed pre).length : Nat)).toNat = i := by omega
    rw [if_pos (by omega), index, List.getElem?_eq_getElem within]
    rfl
  have behind := (holds_append.mp holds).2
  have high : Holds (Block.bytes m')
      (ARGS + (packed pre).length + (packed new.toList).length) tail := by
    intro j within
    have old := behind j within
    unfold Block.bytes at old ⊢
    unfold m' doOperation
    rw [Function.update_of_ne (by unfold ARGS; omega),
      Function.update_of_ne (by unfold ARGS; omega)]
    unfold memcpy memmove
    rw [if_pos (by omega), List.getElem?_eq_none (by omega), Option.getD_none, size, moved,
      if_pos (by omega), Function.update_of_ne (by unfold ARGS; omega), ← old]
    congr 1
    rw [List.length_append]
    omega
  refine ⟨?_, ?_, fun i above below => low i above (by unfold ARGS; omega)⟩
  · rw [holds_append, holds_append, List.length_append, ← Nat.add_assoc]
    refine ⟨⟨?_, mid⟩, high⟩
    refine (holds_append.mp (holds_append.mp holds).1).1.congr fun i within => ?_
    unfold Block.bytes
    rw [low _ (by unfold ARGS; omega) (by omega), if_neg (by unfold ARGS; omega)]
  · have after : (((m.size : Int) + ((packed new.toList).length - (packed del).length : Int)) %
        2 ^ 32).toNat =
        ARGS + ((packed pre).length + (packed new.toList).length + tail.length) := by
      unfold ARGS at *
      omega
    have words : m'.size = Block.size (Function.update (Function.update m 0
        (UInt8.ofNat (ARGS + ((packed pre).length + (packed new.toList).length + tail.length)))) 1
        (UInt8.ofNat ((ARGS + ((packed pre).length + (packed new.toList).length + tail.length)) /
          256))) := by
      rw [← after, ← size]
      unfold m' doOperation Block.size
      simp only [Function.update_apply]
      rfl
    rw [words, List.length_append, List.length_append]
    unfold Block.size
    simp only [Function.update_apply]
    simp
    omega

end Operation

/-! ## The request -/

section Request

variable {skipped list : List (List UInt8)} {countp : Int}

theorem replaceFirst_missed (absent : s ∉ ss) : replaceFirst s args ss = ss := by
  induction ss with
  | nil => rfl
  | cons t ss ih =>
    have other : t ≠ s := fun same => absent (same ▸ List.mem_cons_self)
    rw [replaceFirst, if_neg other, ih fun mem => absent (List.mem_cons_of_mem _ mem)]

theorem replaceFirst_found (fresh : s ∉ pre) :
    replaceFirst s args (pre ++ s :: post) = pre ++ args ++ post := by
  induction pre with
  | nil => exact if_pos rfl
  | cons t pre ih =>
    have other : t ≠ s := fun same => fresh (same ▸ List.mem_cons_self)
    rw [List.cons_append, replaceFirst, if_neg other, ih fun mem =>
      fresh (List.mem_cons_of_mem _ mem)]
    rfl

/-- What `do_adjust` does with one of the two lists. -/
theorem doAdjust_cases (old new : Option (List UInt8))
    (holds : Holds m.bytes ARGS (packed (skipped ++ list) ++ tail))
    (free : ∀ s ∈ skipped ++ list, NulFree s)
    (small : (packed (skipped ++ list)).length < 2 ^ 32) (count : (m countp).toNat = list.length) :
    (change old new list = list ∧ doAdjust m old new skipped.length countp = some (m, false) ∧
      old.isSome) ∨
    ∃ pre del post, list = pre ++ del ++ post ∧ change old new list = pre ++ new.toList ++ post ∧
      del.length = old.toList.length ∧
      doAdjust m old new skipped.length countp = some (doOperation m old new countp
        (ARGS + (packed (skipped ++ pre)).length) (packed del).length, true) := by
  have holds' := holds
  rw [packed_append, List.append_assoc] at holds'
  rw [packed_append, List.length_append] at small
  obtain ⟨first, second⟩ := List.forall_mem_append.mp free
  have begin_ := skipStrings_eq holds' first (by omega)
  have there := (holds_append.mp holds').2
  unfold doAdjust
  rw [begin_, count]
  simp only [Option.bind_eq_bind, Option.bind_some]
  cases old with
  | none =>
    rw [findString_missed there second (by omega) fun s _ same => by cases same]
    refine Or.inr ⟨list, [], [], by simp, by simp [change], rfl, ?_⟩
    rw [packed_append, List.length_append, ← Nat.add_assoc]
    rfl
  | some s =>
    rcases Classical.em (s ∈ list) with mem | absent
    · obtain ⟨pre, post, rfl, fresh⟩ := List.eq_append_cons_of_mem mem
      rw [findString_found there second (by omega) fresh]
      refine Or.inr ⟨pre, [s], post, by simp, replaceFirst_found fresh, rfl, ?_⟩
      rw [packed_append, List.length_append, ← Nat.add_assoc]
      simp
    · rw [findString_missed there second (by omega) fun t mem same => by
        cases same
        exact absent mem]
      exact Or.inl ⟨replaceFirst_missed absent, rfl, rfl⟩

theorem Decodes.fits (decodes : Decodes m args env rest) : FitsFields args env rest := by
  obtain ⟨argc, envc, -, -, size⟩ := decodes
  have lo := (m 0).toNat_lt
  have hi := (m 1).toNat_lt
  have a := (m 2).toNat_lt
  have e := (m 3).toNat_lt
  unfold Block.size at size
  unfold FitsFields
  omega

/-- The count after an operation that takes `del` out and puts `new` in. -/
theorem countAfter_toNat {count : UInt8} {pre post del : List (List UInt8)}
    (before : count.toNat = (pre ++ del ++ post).length) (taken : del.length = old.toList.length)
    (fits : (pre ++ new.toList ++ post).length < 256) :
    (countAfter old new count).toNat = (pre ++ new.toList ++ post).length ↔
      old.isSome ∨ new.isSome := by
  have bound := count.toNat_lt
  simp only [List.length_append] at before fits ⊢
  unfold countAfter
  cases new with
  | none =>
    cases old with
    | none =>
      simp only [Option.toList_none, List.length_nil] at taken ⊢
      rw [UInt8.toNat_sub]
      simp
      omega
    | some o =>
      simp only [Option.toList_some, List.length_singleton, Option.toList_none,
        List.length_nil] at taken ⊢
      rw [UInt8.toNat_sub]
      simp
      omega
  | some n =>
    cases old with
    | none =>
      simp only [Option.toList_none, List.length_nil, Option.toList_some,
        List.length_singleton] at taken fits ⊢
      rw [if_pos trivial, UInt8.toNat_add]
      simp
      omega
    | some o =>
      simp only [Option.toList_some, List.length_singleton] at taken fits ⊢
      simp
      omega

/-- If the results fit, they stand in the block, and the count is right if something is asked
for. -/
theorem doAdjust_spec {after : List (List UInt8)} (old new : Option (List UInt8))
    (holds : Holds m.bytes ARGS (packed (skipped ++ list ++ after) ++ rest))
    (total : m.size = ARGS + (packed (skipped ++ list ++ after) ++ rest).length)
    (free : ∀ s ∈ skipped ++ list, NulFree s) (countp : Int) (which : countp = 2 ∨ countp = 3)
    (count : (m countp).toNat = list.length) (fewer : (change old new list).length < 256)
    (fits : ARGS + (packed (skipped ++ change old new list ++ after) ++ rest).length < 65536) :
    ∃ m' changed, doAdjust m old new skipped.length countp = some (m', changed) ∧
      ((m' countp).toNat = (change old new list).length ↔ old.isSome ∨ new.isSome) ∧
      (∀ i, 2 ≤ i → i < 8 → i ≠ countp → m' i = m i) ∧
      Holds m'.bytes ARGS (packed (skipped ++ change old new list ++ after) ++ rest) ∧
      m'.size = ARGS + (packed (skipped ++ change old new list ++ after) ++ rest).length := by
  have small : (packed (skipped ++ list)).length < 2 ^ 32 := by
    have lo := (m 0).toNat_lt
    have hi := (m 1).toNat_lt
    unfold Block.size at total
    rw [packed_append, List.append_assoc, List.length_append] at total
    omega
  have holds' := holds
  rw [packed_append, List.append_assoc] at holds'
  rcases doAdjust_cases old new holds' free small count with
    ⟨same, call, request⟩ | ⟨pre, del, post, rfl, changed, taken, call⟩
  · rw [same]
    exact ⟨m, false, call, ⟨fun _ => Or.inl request, fun _ => count⟩, fun _ _ _ _ => rfl, holds,
      total⟩
  · rw [changed] at fewer fits ⊢
    have arrange : ∀ ss, packed (skipped ++ (pre ++ ss ++ post) ++ after) ++ rest =
        packed (skipped ++ pre) ++ packed ss ++ (packed post ++ packed after ++ rest) := by
      intro ss
      simp only [packed_append, List.append_assoc]
    rw [arrange] at holds total fits ⊢
    obtain ⟨placed, size, frame⟩ := doOperation_spec holds total which fits
    refine ⟨_, true, call, ?_, fun i above below other => ?_, placed, size⟩
    · rw [frame countp (by omega) (by omega), if_pos rfl]
      exact countAfter_toNat count taken fewer
    · rw [frame i above below, if_neg other]

theorem nulFree_change (free : ∀ s ∈ ss, NulFree s) (free' : ∀ s ∈ new, NulFree s) :
    ∀ s ∈ change old new ss, NulFree s := by
  unfold change
  cases old with
  | none =>
    intro s mem
    rcases List.mem_append.mp mem with mem | mem
    · exact free s mem
    · exact free' s (Option.mem_toList.mp mem)
  | some o =>
    induction ss with
    | nil => intro s mem; cases mem
    | cons t ss ih =>
      obtain ⟨here, later⟩ := List.forall_mem_cons.mp free
      intro s mem
      simp only [replaceFirst] at mem
      split at mem
      · rcases List.mem_append.mp mem with mem | mem
        · exact free' s (Option.mem_toList.mp mem)
        · exact later s mem
      · rcases List.mem_cons.mp mem with rfl | mem
        · exact here
        · exact ih later s mem

end Request

/-- The block decodes to the lists with the change that is asked for, with the address of the
startup header kept, exactly if something is asked for and the results fit their fields. -/
theorem adjust_iff (part : Part) (m : Block) (args env : List (List UInt8)) (rest : List UInt8)
    (old new : Option (List UInt8)) (decodes : Decodes m args env rest)
    (free : ∀ s ∈ new, NulFree s) :
    (∃ m' changed, part.adjust m old new = some (m', changed) ∧
        Decodes m' (part.lists (change old new) args env).1
          (part.lists (change old new) args env).2 rest ∧
        ∀ i, 4 ≤ i → i < 8 → m' i = m i) ↔
      (old.isSome ∨ new.isSome) ∧ FitsFields (part.lists (change old new) args env).1
        (part.lists (change old new) args env).2 rest := by
  obtain ⟨argc, envc, texts, strings, size⟩ := decodes
  obtain ⟨left, right⟩ := List.forall_mem_append.mp texts
  cases part with
  | arg =>
    simp only [Part.lists, Part.adjust, bootstrapArgAdjust]
    have spec := @doAdjust_spec m rest [] args env old new strings size left 2 (Or.inl rfl) argc
    constructor
    · rintro ⟨m', changed, call, decodes', -⟩
      have fits := decodes'.fits
      obtain ⟨m'', changed', call', count, -⟩ := spec fits.1 fits.2.2
      cases call.symm.trans call'
      exact ⟨count.mp decodes'.argc, fits⟩
    · rintro ⟨request, fits⟩
      obtain ⟨m', changed, call, count, frame, strings', size'⟩ := spec fits.1 fits.2.2
      refine ⟨m', changed, call, ⟨count.mpr request, ?_, ?_, strings', size'⟩,
        fun i above below => frame i (by omega) below (by omega)⟩
      · rw [frame 3 (by decide) (by decide) (by decide)]
        exact envc
      · exact List.forall_mem_append.mpr ⟨nulFree_change left free, right⟩
  | env =>
    simp only [Part.lists, Part.adjust, bootstrapEnvAdjust]
    rw [← List.append_nil (args ++ env)] at strings size
    have spec := @doAdjust_spec m rest args env [] old new strings size texts 3 (Or.inr rfl) envc
    rw [argc]
    simp only [List.append_nil] at spec
    constructor
    · rintro ⟨m', changed, call, decodes', -⟩
      have fits := decodes'.fits
      obtain ⟨m'', changed', call', count, -⟩ := spec fits.2.1 fits.2.2
      cases call.symm.trans call'
      exact ⟨count.mp decodes'.envc, fits⟩
    · rintro ⟨request, fits⟩
      obtain ⟨m', changed, call, count, frame, strings', size'⟩ := spec fits.2.1 fits.2.2
      refine ⟨m', changed, call, ⟨?_, count.mpr request, ?_, strings', size'⟩,
        fun i above below => frame i (by omega) below (by omega)⟩
      · rw [frame 2 (by decide) (by decide) (by decide)]
        exact argc
      · exact List.forall_mem_append.mpr ⟨left, nulFree_change right free⟩

/-- A block with the given bytes. -/
def blockOf (bytes : List UInt8) : Block := fun a => if a < 0 then 0 else bytes.getD a.toNat 0

/-- The argument `b` behind the argument `a`, before the environment string `c`. -/
theorem adjust_append :
    (∃ m' changed, Part.arg.adjust (blockOf [12, 0, 1, 1, 0, 0, 0, 0, 97, 0, 99, 0]) none
        (some [98]) = some (m', changed) ∧ Decodes m' [[97], [98]] [[99]] [] ∧
        ∀ i, 4 ≤ i → i < 8 → m' i = blockOf [12, 0, 1, 1, 0, 0, 0, 0, 97, 0, 99, 0] i) ↔
      True ∧ FitsFields [[97], [98]] [[99]] [] :=
  (adjust_iff .arg (blockOf [12, 0, 1, 1, 0, 0, 0, 0, 97, 0, 99, 0]) [[97]] [[99]] [] none
    (some [98]) ⟨rfl, rfl, by decide, by decide, by decide⟩ (by decide)).trans
    (and_congr_left' (by simp))

/-- The block of 255 empty arguments. -/
def fullBlock : Block := fun a => if a = 0 then 7 else if a = 1 then 1 else if a = 2 then 255 else 0

theorem packed_empty (n : Nat) : packed (List.replicate n []) = List.replicate n 0 := by
  induction n with
  | zero => rfl
  | succ n ih =>
    rw [List.replicate_succ, packed_cons, ih]
    rfl

theorem fullBlock_decodes : Decodes fullBlock (List.replicate 255 []) [] [] := by
  refine ⟨?_, rfl, fun s mem => ?_, fun i within => ?_, ?_⟩
  · rw [List.length_replicate]
    rfl
  · rw [List.append_nil] at mem
    rw [List.eq_of_mem_replicate mem]
    exact List.forall_mem_nil _
  · simp only [List.append_nil, packed_empty, List.getElem_replicate]
    unfold fullBlock Block.bytes ARGS
    simp only
    rw [if_neg (by omega), if_neg (by omega), if_neg (by omega)]
  · rw [List.append_nil, List.append_nil, packed_empty, List.length_replicate]
    rfl

/-- An argument behind 255 empty ones: the count wraps to 0. -/
theorem adjust_overflows : Decodes fullBlock (List.replicate 255 []) [] [] ∧
    ¬∃ m' changed, Part.arg.adjust fullBlock none (some [97]) = some (m', changed) ∧
      Decodes m' (List.replicate 255 [] ++ [[97]]) [] [] := by
  refine ⟨fullBlock_decodes, ?_⟩
  rintro ⟨m', changed, -, decodes⟩
  have argc := decodes.argc
  have bound := (m' 2).toNat_lt
  rw [List.length_append, List.length_replicate, List.length_singleton] at argc
  omega

end Mx6xBsp.Startup.BootArgs
