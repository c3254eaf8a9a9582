import Mathlib.Data.BitVec
import Mx6xBsp.Lib.Masks
import Mx6xBsp.Lib.Runs

/-!
# Unit locks of the SRAM driver

The callouts of `mtd-flash/sram` share a bitmap `SRAM_LOCK` with a bit for each unit. Each
of them finds the word and the bit by itself. `sram_locks` tells for which sequences of
callouts all of them stay inside the words that were allocated, and exactly the units that
are locked are refused.
-/

namespace Mx6xBsp.Flash.SramLock

open Masks Runs

abbrev Word := BitVec 32
abbrev Byte := BitVec 8

/-- The socket: its unit size is a power of two. The page callout gives the size that is left in the
window, or fails. -/
structure Socket where
  arraySize : Word
  unitSize : Word
  page : Word → Word → Option Word
  pow2 : ∃ k, unitSize.toNat = 2 ^ k

def Socket.usize (k : Socket) : Word := if k.unitSize ≠ 0 then k.unitSize else 65536

/-- `SRAM_LOCK` and the memory -/
structure Sram where
  lock : Option (List Word)
  mem : Nat → Byte

inductive Reply
  | eok
  | enomem
  /-- `errno` after the page callout -/
  | errno
  | erofs
  | eio
  | size (n : Nat)
  deriving DecidableEq

variable (k : Socket)

/-- The words that are allocated -/
def Socket.words : Nat := (k.arraySize / k.usize / 32).toNat + 1

def bitOf (phys : Word) : Word := phys % 32

/-- The index of the word: it should have been divided by 32. -/
def indexOf (phys : Word) : Word := phys - bitOf phys

def maskOf (phys : Word) : Word := 1 <<< (bitOf phys).toNat

/-- Round offset to beginning of flash unit -/
def Socket.round (offset : Word) : Word := offset &&& ~~~(k.usize - 1)

/-! ## The callouts -/

/-- `f3s_sram_v2lock` and `f3s_sram_v2unlock`, which are the same up to the bit. There is no result
where an access is outside the words. -/
def v2change (locks alloc : Bool) (offset : Word) (s : Sram) : Option (Reply × Sram) :=
  let allocated :=
    match s.lock with
    | some words => some words
    | none => if alloc then some (List.replicate k.words 0) else none
  match allocated with
  | none => some (.enomem, s)
  | some words =>
    let s := { s with lock := some words }
    let offset := k.round offset
    match k.page offset k.usize with
    | none => some (.errno, s)
    | some usize =>
      let phys := offset / usize
      match words[(indexOf phys).toNat]? with
      | none => none
      | some w =>
        if decide (w &&& maskOf phys ≠ 0) = locks then some (.eok, s)
        else
          let w := if locks then w ||| maskOf phys else w &&& ~~~maskOf phys
          some (.eok, { s with lock := some (words.set (indexOf phys).toNat w) })

def f3sSramV2lock : Bool → Word → Sram → Option (Reply × Sram) := v2change k true

def f3sSramV2unlock : Bool → Word → Sram → Option (Reply × Sram) := v2change k false

def f3sSramV2unlockall (s : Sram) : Option (Reply × Sram) :=
  match s.lock with
  | none => some (.eok, s)
  | some words =>
    if k.words ≤ words.length then
      some (.eok, { s with lock := some (List.replicate k.words 0 ++ words.drop k.words) })
    else none

/-- The bit of a unit, if there is a bitmap -/
def refused (phys : Word) (s : Sram) : Option Bool :=
  match s.lock with
  | none => some false
  | some words => words[(indexOf phys).toNat]?.map fun w => decide (w &&& maskOf phys ≠ 0)

def f3sSramV2islock (offset : Word) (s : Sram) : Option (Reply × Sram) :=
  (refused (k.round offset / k.usize) s).map fun locked => (if locked then .erofs else .eok, s)

/-- `flashcpy` for one byte -/
def flashcpy (dst src : Byte) : Byte := if ~~~dst &&& src ≠ 0 then dst &&& src else src

/-- `f3s_sram_v2write`; `verify` is the flag, or whether `NDEBUG` is not defined. -/
def f3sSramV2write (verify : Bool) (offset : Word) (data : List Byte) (s : Sram) :
    Option (Reply × Sram) :=
  (refused (offset / k.usize) s).map fun locked =>
    if locked then (.erofs, s)
    else
      match k.page offset (BitVec.ofNat 32 data.length) with
      | none => (.errno, s)
      | some size =>
        let data := data.take size.toNat
        let mem := fun i =>
          if h : offset.toNat ≤ i ∧ i - offset.toNat < data.length then
            flashcpy (s.mem i) (data.get ⟨i - offset.toNat, h.2⟩)
          else s.mem i
        let same := decide (((List.range data.length).map fun i => mem (offset.toNat + i)) = data)
        (if verify && !same then .eio else .size data.length, { s with mem })

def f3sSramV2erase (offset : Word) (s : Sram) : Option (Reply × Sram) :=
  let offset := k.round offset
  (refused (offset / k.usize) s).map fun locked =>
    if locked then (.erofs, s)
    else
      match k.page offset k.usize with
      | none => (.errno, s)
      | some _ =>
        (.eok, { s with mem := fun i =>
          if offset.toNat ≤ i ∧ i < offset.toNat + k.usize.toNat then 0xFF else s.mem i })

/-! ## Sequences of callouts -/

/-- A callout; `alloc` tells whether `calloc` finds memory. -/
inductive Op
  | lock (alloc : Bool) (offset : Word)
  | unlock (alloc : Bool) (offset : Word)
  | unlockall
  | islock (offset : Word)
  | write (verify : Bool) (offset : Word) (data : List Byte)
  | erase (offset : Word)

def Op.call : Op → Sram → Option (Reply × Sram)
  | .lock alloc offset => f3sSramV2lock k alloc offset
  | .unlock alloc offset => f3sSramV2unlock k alloc offset
  | .unlockall => f3sSramV2unlockall k
  | .islock offset => f3sSramV2islock k offset
  | .write verify offset data => f3sSramV2write k verify offset data
  | .erase offset => f3sSramV2erase k offset

/-- The unit of an offset -/
def Socket.unit (offset : Word) : Nat := offset.toNat / k.usize.toNat

/-- The state with the units that were locked, and not unlocked since, as the replies tell -/
structure Seen extends Sram where
  locked : Nat → Bool

def start (mem : Nat → Byte) : Seen := ⟨⟨none, mem⟩, fun _ => false⟩

/-- What a callout with the reply `EOK` does to the units -/
def Op.locks (op : Op) (reply : Reply) (locked : Nat → Bool) : Nat → Bool :=
  match op, reply with
  | .lock _ offset, .eok => Function.update locked (k.unit offset) true
  | .unlock _ offset, .eok => Function.update locked (k.unit offset) false
  | .unlockall, _ => fun _ => false
  | _, _ => locked

def Seen.next (s : Seen) (op : Op) : Seen :=
  match op.call k s.toSram with
  | some (reply, t) => ⟨t, op.locks k reply s.locked⟩
  | none => s

/-- The units that a callout asks for or changes the data of -/
def Op.units : Op → List Nat
  | .islock offset => [k.unit offset]
  | .erase offset => [k.unit offset]
  | .write _ offset data =>
    k.unit offset :: (List.range data.length).map fun i => (offset.toNat + i) / k.usize.toNat
  | _ => []

/-- The callout stays inside the words, is refused exactly if one of its units is locked, and then
changes nothing. -/
def Fine (s : Seen) (op : Op) : Prop :=
  ∃ reply t, op.call k s.toSram = some (reply, t) ∧
    (reply = .erofs ↔ ∃ u ∈ op.units k, s.locked u = true) ∧ (reply = .erofs → t = s.toSram)

/-- The words reach to the index that is computed for a unit. -/
def Socket.Reaches (u : Nat) : Prop := u / 32 * 32 < k.words

instance (u : Nat) : Decidable (k.Reaches u) := inferInstanceAs (Decidable (_ < _))

/-- The page callout does not shorten a unit. -/
def Socket.Whole (offset : Word) : Prop :=
  k.page (k.round offset) k.usize = none ∨ k.page (k.round offset) k.usize = some k.usize

/-- The condition: the unit is one the words reach, as soon as there are any. To lock or unlock it
takes a whole one, and a write does not run into a locked one. -/
def Kept (s : Seen) : Op → Prop
  | .lock _ offset => k.Reaches (k.unit offset) ∧ k.Whole offset
  | .unlock _ offset => k.Reaches (k.unit offset) ∧ k.Whole offset
  | .unlockall => True
  | .islock offset => s.lock = none ∨ k.Reaches (k.unit offset)
  | .erase offset => s.lock = none ∨ k.Reaches (k.unit offset)
  | .write _ offset data =>
    (s.lock = none ∨ k.Reaches (k.unit offset)) ∧
      (s.locked (k.unit offset) = true ∨
        ∀ i < data.length, s.locked ((offset.toNat + i) / k.usize.toNat) = false)

/-! ## Words and bits -/

variable {k}

theorem Socket.usize_pow2 : ∃ n, k.usize.toNat = 2 ^ n := by
  unfold Socket.usize
  split
  case isTrue => exact k.pow2
  case isFalse => exact ⟨16, rfl⟩

theorem Socket.usize_pos : 0 < k.usize.toNat := by
  obtain ⟨n, pow2⟩ := k.usize_pow2
  exact pow2 ▸ Nat.two_pow_pos n

theorem Socket.toNat_round (offset : Word) :
    (k.round offset).toNat = k.unit offset * k.usize.toNat := by
  obtain ⟨n, pow2⟩ := k.usize_pow2
  have low : (k.usize - 1).toNat = 2 ^ n - 1 := by
    have pos := k.usize_pos
    have below := k.usize.isLt
    rw [BitVec.toNat_sub, ← pow2]
    show (2 ^ 32 - 1 + k.usize.toNat) % 2 ^ 32 = _
    omega
  rw [Socket.round, toNat_andNot_low low, Socket.unit, pow2]

theorem Socket.toNat_round_div (offset : Word) :
    (k.round offset / k.usize).toNat = k.unit offset := by
  rw [BitVec.toNat_udiv, k.toNat_round, Nat.mul_div_cancel _ k.usize_pos]

theorem Socket.toNat_div (offset : Word) : (offset / k.usize).toNat = k.unit offset :=
  BitVec.toNat_udiv

theorem toNat_bitOf (phys : Word) : (bitOf phys).toNat = phys.toNat % 32 := BitVec.toNat_umod

theorem toNat_indexOf (phys : Word) : (indexOf phys).toNat = phys.toNat / 32 * 32 := by
  have below := phys.isLt
  have bit := toNat_bitOf phys
  rw [indexOf, BitVec.toNat_sub, bit]
  omega

/-- The bit of a unit in its word -/
def held (w phys : Word) : Bool := w.getLsbD (phys.toNat % 32)

theorem maskOf_eq (phys : Word) : maskOf phys = BitVec.twoPow 32 (phys.toNat % 32) := by
  rw [maskOf, toNat_bitOf, BitVec.twoPow_eq]
  rfl

theorem decide_and_maskOf (w phys : Word) : decide (w &&& maskOf phys ≠ 0) = held w phys := by
  have low : phys.toNat % 32 < 32 := Nat.mod_lt _ (by decide)
  rw [maskOf_eq, BitVec.and_twoPow, held]
  rcases w.getLsbD (phys.toNat % 32) with _ | _
  · rfl
  · refine decide_eq_true fun zero => ?_
    have bit := congrArg (BitVec.getLsbD · (phys.toNat % 32)) zero
    rw [if_pos rfl, BitVec.getLsbD_twoPow, decide_eq_true low, decide_eq_true rfl] at bit
    exact Bool.noConfusion (bit.trans BitVec.getLsbD_zero)

theorem held_change (locks : Bool) (w phys other : Word) :
    held (if locks then w ||| maskOf phys else w &&& ~~~maskOf phys) other =
      if phys.toNat % 32 = other.toNat % 32 then locks else held w other := by
  have low : other.toNat % 32 < 32 := Nat.mod_lt _ (by decide)
  have low' : phys.toNat % 32 < 32 := Nat.mod_lt _ (by decide)
  rcases eq_or_ne (phys.toNat % 32) (other.toNat % 32) with same | apart
  · rw [if_pos same]
    cases locks with
    | true =>
      rw [if_pos rfl, held, maskOf_eq, same, BitVec.getLsbD_or, BitVec.getLsbD_twoPow,
        decide_eq_true low, decide_eq_true rfl, Bool.and_self, Bool.or_true]
    | false =>
      rw [if_neg Bool.false_ne_true, held, maskOf_eq, same, BitVec.getLsbD_and,
        BitVec.getLsbD_not, BitVec.getLsbD_twoPow, decide_eq_true low, decide_eq_true rfl,
        Bool.and_self, Bool.not_true, Bool.and_false, Bool.and_false]
  · rw [if_neg apart]
    cases locks with
    | true =>
      rw [if_pos rfl, held, held, maskOf_eq, BitVec.getLsbD_or, BitVec.getLsbD_twoPow,
        decide_eq_false apart, Bool.and_false, Bool.or_false]
    | false =>
      rw [if_neg Bool.false_ne_true, held, held, maskOf_eq, BitVec.getLsbD_and,
        BitVec.getLsbD_not, BitVec.getLsbD_twoPow, decide_eq_false apart, decide_eq_true low,
        Bool.and_false, Bool.not_false, Bool.and_self, Bool.and_true]

theorem held_set {locks : Bool} {words : List Word} {phys other old w : Word}
    (found : words[(indexOf phys).toNat]? = some old)
    (known : (words.set (indexOf phys).toNat
      (if locks then old ||| maskOf phys else old &&& ~~~maskOf phys))[(indexOf other).toNat]? =
        some w) :
    (phys.toNat = other.toNat → held w other = locks) ∧
      (phys.toNat ≠ other.toNat →
        ∃ w₀, words[(indexOf other).toNat]? = some w₀ ∧ held w other = held w₀ other) := by
  rw [toNat_indexOf, toNat_indexOf] at known
  rw [toNat_indexOf] at found ⊢
  rcases eq_or_ne (phys.toNat / 32 * 32) (other.toNat / 32 * 32) with same | apart
  · have inside := (List.getElem?_eq_some_iff.mp found).1
    rw [← same, List.getElem?_set_self inside] at known
    obtain rfl := Option.some.inj known
    rw [held_change]
    refine ⟨fun equal => if_pos (by rw [equal]), fun ne => ⟨old, same ▸ found, if_neg ?_⟩⟩
    omega
  · rw [List.getElem?_set_ne apart] at known
    exact ⟨fun equal => absurd (by rw [equal]) apart, fun _ => ⟨w, known, rfl⟩⟩

/-! ## The bitmap and the units -/

/-- The bits that can be reached are those of the units that are locked. -/
def Inv (k : Socket) (s : Seen) : Prop :=
  match s.lock with
  | none => ∀ u, s.locked u = false
  | some words => words.length = k.words ∧
    ∀ phys w, words[(indexOf phys).toNat]? = some w → held w phys = s.locked phys.toNat

theorem Inv.start (mem : Nat → Byte) : Inv k (start mem) := fun _ => rfl

variable {s : Seen} {offset : Word}

theorem Inv.answers (inv : Inv k s) (phys : Word) (reach : s.lock = none ∨ k.Reaches phys.toNat) :
    refused phys s.toSram = some (s.locked phys.toNat) := by
  unfold Inv at inv
  unfold refused
  rcases allocated : s.lock with _ | words
  · rw [allocated] at inv
    exact congrArg some (inv _).symm
  · rw [allocated] at inv reach
    obtain ⟨length, bits⟩ := inv
    have inside : (indexOf phys).toNat < words.length := by
      rw [toNat_indexOf, length]
      exact reach.resolve_left nofun
    have found := List.getElem?_eq_getElem inside
    show (words[(indexOf phys).toNat]?).map _ = _
    rw [found, Option.map_some, decide_and_maskOf, bits phys _ found]

theorem Inv.change (inv : Inv k s) (locks : Bool) {alloc : Bool} (reach : k.Reaches (k.unit offset))
    (whole : k.Whole offset) :
    ∃ reply t, v2change k locks alloc offset s.toSram = some (reply, t) ∧ reply ≠ .erofs ∧
      Inv k ⟨t, if reply = .eok then Function.update s.locked (k.unit offset) locks
        else s.locked⟩ := by
  -- the words that were there, or those that are allocated
  have words : (∃ words, (match s.lock with
        | some words => some words
        | none => if alloc then some (List.replicate k.words 0) else none) = some words ∧
        Inv k { s with lock := some words }) ∨
      (match s.lock with
        | some words => some words
        | none => if alloc then some (List.replicate k.words 0) else none) = none := by
    unfold Inv at inv
    rcases allocated : s.lock with _ | words
    · cases alloc with
      | false => exact .inr rfl
      | true =>
        rw [allocated] at inv
        refine .inl ⟨List.replicate k.words 0, rfl, List.length_replicate, fun phys w found => ?_⟩
        rw [List.getElem?_replicate, Option.ite_none_right_eq_some] at found
        obtain ⟨_, same⟩ := found
        obtain rfl := Option.some.inj same
        exact BitVec.getLsbD_zero.trans (inv _).symm
    · rw [allocated] at inv
      exact .inl ⟨words, rfl, inv⟩
  unfold v2change
  rcases words with ⟨words, allocated, inv'⟩ | failed
  · simp only [allocated]
    rcases whole with null | whole
    · rw [null]
      exact ⟨.errno, _, rfl, nofun, by rwa [if_neg nofun]⟩
    · rw [whole]
      obtain ⟨length, bits⟩ := inv'
      have unit := k.toNat_round_div offset
      have inside : (indexOf (k.round offset / k.usize)).toNat < words.length := by
        rw [toNat_indexOf, unit, length]
        exact reach
      have found := List.getElem?_eq_getElem inside
      have here := bits _ _ found
      rw [unit] at here
      simp only [found, decide_and_maskOf, here]
      split
      case isTrue already =>
        refine ⟨.eok, _, rfl, nofun, length, fun phys w known => ?_⟩
        rw [if_pos rfl, ← already, Function.update_eq_self]
        exact bits phys w known
      case isFalse =>
        refine ⟨.eok, _, rfl, nofun, (List.length_set ..).trans length, fun phys w known => ?_⟩
        obtain ⟨own, rest⟩ := held_set found known
        rw [unit] at own rest
        rw [if_pos rfl]
        show held w phys = Function.update s.locked (k.unit offset) locks phys.toNat
        rcases eq_or_ne (k.unit offset) phys.toNat with same | apart
        · rw [own same, ← same, Function.update_self]
        · obtain ⟨w₀, before, equal⟩ := rest apart
          rw [equal, Function.update_of_ne apart.symm]
          exact bits phys w₀ before
  · simp only [failed]
    exact ⟨.enomem, _, rfl, nofun, by rwa [if_neg nofun]⟩

/-- `v2unlockall` clears all of the words. -/
theorem Inv.unlockall (inv : Inv k s) :
    ∃ t, f3sSramV2unlockall k s.toSram = some (.eok, t) ∧ Inv k ⟨t, fun _ => false⟩ := by
  unfold Inv at inv
  unfold f3sSramV2unlockall
  rcases allocated : s.lock with _ | words
  · refine ⟨s.toSram, rfl, ?_⟩
    unfold Inv
    rw [allocated]
    exact fun _ => rfl
  · rw [allocated] at inv
    obtain ⟨length, _⟩ := inv
    simp only [if_pos (Nat.le_of_eq length.symm)]
    have cleared : List.replicate k.words (0 : Word) ++ words.drop k.words =
        List.replicate k.words 0 := by
      rw [← length, List.drop_length, List.append_nil]
    refine ⟨_, rfl, ?_⟩
    rw [cleared]
    refine ⟨List.length_replicate, fun phys w found => ?_⟩
    rw [List.getElem?_replicate, Option.ite_none_right_eq_some] at found
    obtain ⟨_, same⟩ := found
    obtain rfl := Option.some.inj same
    exact BitVec.getLsbD_zero

theorem Inv.of_lock {t : Sram} (inv : Inv k s) (same : t.lock = s.lock) : Inv k ⟨t, s.locked⟩ := by
  unfold Inv at inv ⊢
  rwa [show (⟨t, s.locked⟩ : Seen).lock = s.lock from same]

theorem Inv.asked (inv : Inv k s) (reach : s.lock = none ∨ k.Reaches (k.unit offset)) :
    refused (k.round offset / k.usize) s.toSram = some (s.locked (k.unit offset)) := by
  have unit := k.toNat_round_div offset
  have answer := inv.answers (k.round offset / k.usize) (by rwa [unit])
  rwa [unit] at answer

/-- A callout that is refused exactly when its first unit is locked, and changes no lock -/
theorem Inv.unit_step (inv : Inv k s) {op : Op} {reply : Reply} {t : Sram} {u : Nat}
    (first : u ∈ op.units k)
    (rest : s.locked u = true ∨ ∀ v ∈ op.units k, s.locked v = false)
    (called : op.call k s.toSram = some (if s.locked u then (.erofs, s.toSram) else (reply, t)))
    (open_ : reply ≠ .erofs) (lock : t.lock = s.lock)
    (silent : ∀ reply, op.locks k reply s.locked = s.locked) :
    Fine k s op ∧ Inv k (s.next k op) := by
  unfold Seen.next
  rcases locked : s.locked u with _ | _
  · rw [locked, if_neg Bool.false_ne_true] at called
    have unlocked := rest.resolve_left (by rw [locked]; exact Bool.false_ne_true)
    refine ⟨⟨reply, t, called, iff_of_false open_ ?_, fun refused => absurd refused open_⟩, ?_⟩
    · rintro ⟨v, mem, held⟩
      rw [unlocked v mem] at held
      cases held
    · rw [called]
      show Inv k ⟨t, op.locks k reply s.locked⟩
      rw [silent]
      exact inv.of_lock lock
  · rw [locked, if_pos rfl] at called
    refine ⟨⟨.erofs, s.toSram, called, iff_of_true rfl ⟨u, first, locked⟩, fun _ => rfl⟩, ?_⟩
    rw [called]
    show Inv k ⟨s.toSram, op.locks k .erofs s.locked⟩
    rw [silent]
    exact inv

theorem locked_or_all (s : Seen) (u : Nat) :
    s.locked u = true ∨ ∀ v ∈ [u], s.locked v = false := by
  rcases locked : s.locked u with _ | _
  · exact .inr fun v mem => List.mem_singleton.mp mem ▸ locked
  · exact .inl rfl

/-- A callout that keeps the condition is fine, and the bitmap still tells the units after it. -/
theorem Inv.step (inv : Inv k s) {op : Op} (kept : Kept k s op) :
    Fine k s op ∧ Inv k (s.next k op) := by
  have nobody {P : Nat → Prop} : ¬∃ u ∈ ([] : List Nat), P u := fun ⟨_, mem, _⟩ => by cases mem
  cases op with
  | lock alloc offset =>
    obtain ⟨reply, t, called, open_, inv'⟩ := inv.change true kept.1 kept.2
    refine ⟨⟨reply, t, called, iff_of_false open_ nobody, fun refused => absurd refused open_⟩, ?_⟩
    rw [Seen.next, show Op.call k (.lock alloc offset) s.toSram = _ from called]
    cases reply <;> exact inv'
  | unlock alloc offset =>
    obtain ⟨reply, t, called, open_, inv'⟩ := inv.change false kept.1 kept.2
    refine ⟨⟨reply, t, called, iff_of_false open_ nobody, fun refused => absurd refused open_⟩, ?_⟩
    rw [Seen.next, show Op.call k (.unlock alloc offset) s.toSram = _ from called]
    cases reply <;> exact inv'
  | unlockall =>
    obtain ⟨t, called, inv'⟩ := inv.unlockall
    refine ⟨⟨.eok, t, called, iff_of_false nofun nobody, nofun⟩, ?_⟩
    rw [Seen.next, show Op.call k .unlockall s.toSram = _ from called]
    exact inv'
  | islock offset =>
    have called : Op.call k (.islock offset) s.toSram =
        some (if s.locked (k.unit offset) then (.erofs, s.toSram) else (.eok, s.toSram)) := by
      show (refused _ _).map _ = _
      rw [inv.asked kept]
      rcases s.locked (k.unit offset) with _ | _ <;> rfl
    exact inv.unit_step (List.mem_singleton_self _) (locked_or_all s _) called nofun rfl
      fun _ => rfl
  | erase offset =>
    have called : ∃ reply t, Op.call k (.erase offset) s.toSram =
          some (if s.locked (k.unit offset) then (.erofs, s.toSram) else (reply, t)) ∧
        reply ≠ .erofs ∧ t.lock = s.lock := by
      show ∃ reply t, (refused _ _).map _ = _ ∧ _
      rw [inv.asked kept, Option.map_some]
      rcases k.page (k.round offset) k.usize with _ | _
      · exact ⟨.errno, s.toSram, rfl, nofun, rfl⟩
      · exact ⟨.eok, _, rfl, nofun, rfl⟩
    obtain ⟨reply, t, called, open_, lock⟩ := called
    exact inv.unit_step (List.mem_singleton_self _) (locked_or_all s _) called open_ lock
      fun _ => rfl
  | write verify offset data =>
    have asked := inv.answers (offset / k.usize) (by rw [k.toNat_div]; exact kept.1)
    rw [k.toNat_div] at asked
    have called : ∃ reply t, Op.call k (.write verify offset data) s.toSram =
          some (if s.locked (k.unit offset) then (.erofs, s.toSram) else (reply, t)) ∧
        reply ≠ .erofs ∧ t.lock = s.lock := by
      show ∃ reply t, (refused _ _).map _ = _ ∧ _
      rw [asked, Option.map_some]
      rcases k.page offset (BitVec.ofNat 32 data.length) with _ | size
      · exact ⟨.errno, s.toSram, rfl, nofun, rfl⟩
      · refine ⟨_, _, rfl, ?_, rfl⟩
        split <;> exact nofun
    obtain ⟨reply, t, called, open_, lock⟩ := called
    refine inv.unit_step List.mem_cons_self ?_ called open_ lock fun _ => rfl
    rcases locked : s.locked (k.unit offset) with _ | _
    · refine .inr fun v mem => ?_
      rcases List.mem_cons.mp mem with rfl | mem
      · exact locked
      · obtain ⟨i, below, rfl⟩ := List.mem_map.mp mem
        have free := kept.2.resolve_left (by rw [locked]; exact Bool.false_ne_true)
        exact free i (List.mem_range.mp below)
    · exact .inl rfl

/-- All callouts of a sequence stay inside the bitmap and refuse exactly the units that are locked,
if each unit is one that the words reach, the units to be locked or unlocked are whole, and no write
runs into a locked unit. -/
theorem sram_locks (k : Socket) (mem : Nat → Byte) (ops : List Op)
    (kept : ∀ pre op, pre ++ [op] <+: ops → Kept k (pre.foldl (Seen.next k) (start mem)) op) :
    ∀ pre op, pre ++ [op] <+: ops → Fine k (pre.foldl (Seen.next k) (start mem)) op := by
  have run : ∀ pre, pre <+: ops → Inv k (pre.foldl (Seen.next k) (start mem)) := by
    intro pre
    induction pre using List.reverseRecOn with
    | nil => exact fun _ => Inv.start mem
    | append_singleton pre op before =>
      intro below
      rw [List.foldl_append]
      exact ((before ((List.prefix_append _ _).trans below)).step (kept pre op below)).2
  exact fun pre op below =>
    ((run pre ((List.prefix_append _ _).trans below)).step (kept pre op below)).1

/-- An array of 96 kB with units of 64 kB, and one of 4 MB -/
def small : Socket := ⟨0x18000, 0x10000,
  fun offset size => some (if 0x18000 - offset < size then 0x18000 - offset else size), 16, rfl⟩

def large : Socket := ⟨0x400000, 0x10000, fun _ size => some size, 16, rfl⟩

/-- A unit is locked, and a write to it refused, until it is unlocked. -/
theorem sram_locks_small :
    (∀ pre op, pre ++ [op] <+: [Op.lock true 0x10100, .write true 0x1FFFF [0], .unlock true 0x10000,
      .erase 0x18000] → Kept large (pre.foldl (Seen.next large) (start fun _ => 0xFF)) op) ∧
    ∀ pre op, pre ++ [op] <+: [Op.lock true 0x10100, .write true 0x1FFFF [0], .unlock true 0x10000,
      .erase 0x18000] → Fine large (pre.foldl (Seen.next large) (start fun _ => 0xFF)) op := by
  have kept : ∀ pre op, pre ++ [op] <+: [Op.lock true 0x10100, .write true 0x1FFFF [0],
      .unlock true 0x10000, .erase 0x18000] →
        Kept large (pre.foldl (Seen.next large) (start fun _ => 0xFF)) op := by
    refine along_cons ?_ (along_cons ?_ (along_cons ?_ (along_cons ?_ along_nil)))
    · exact ⟨by decide, .inr rfl⟩
    · exact ⟨.inr (by decide), .inl (by decide)⟩
    · exact ⟨by decide, .inr rfl⟩
    · exact .inr (by decide)
  exact ⟨kept, sram_locks large _ _ kept⟩

/-- The word of unit 40 is looked for at index 32, where there are three words. A lock of the last
unit, which the window cuts, sets the bit of another one. And a write that begins in an unlocked
unit goes on into a locked one. -/
theorem sram_locks_broken :
    (f3sSramV2lock large true 0x280000 (start fun _ => 0xFF).toSram = none ∧
      ¬Fine large (start fun _ => 0xFF) (.lock true 0x280000)) ∧
    (((start fun _ => 0xFF).next small (.lock true 0x10000)).locked 1 = true ∧
      ¬Fine small ((start fun _ => 0xFF).next small (.lock true 0x10000)) (.islock 0x10000)) ∧
    ¬Fine large ((start fun _ => 0xFF).next large (.lock true 0x10000))
      (.write true 0xFFFF [0, 0]) := by
  have outside : f3sSramV2lock large true 0x280000 (start fun _ => 0xFF).toSram = none := by
    rfl
  refine ⟨⟨outside, fun fine => ?_⟩, ⟨by decide, fun fine => ?_⟩, fun fine => ?_⟩
  · obtain ⟨_, _, called, _⟩ := fine
    cases outside.symm.trans called
  · obtain ⟨reply, _, called, refused, _⟩ := fine
    obtain rfl := (Prod.mk.inj (Option.some.inj called)).1
    exact absurd (refused.mpr ⟨1, by decide, by decide⟩) (by decide)
  · obtain ⟨reply, _, called, refused, _⟩ := fine
    obtain rfl := (Prod.mk.inj (Option.some.inj called)).1
    exact absurd (refused.mpr ⟨1, by decide, by decide⟩) (by decide)

end Mx6xBsp.Flash.SramLock
