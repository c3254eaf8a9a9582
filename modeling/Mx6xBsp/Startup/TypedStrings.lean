import Mathlib.Data.List.TakeWhile
import Mx6xBsp.Startup.HwinfoRuns
import Mx6xBsp.Startup.SectionText

/-!
# Typed strings over a run

`typed_strings` holds a type word and a padded text for each type. The offset
`del_typed_string` slides from does not count the type word, so the last word of
the deleted entry stays behind as a type (`delTypedString_bytes`). The list
survives a delete only where that word is zero and nothing follows it
(`delTypedString_exact`), and `typedStrings_run` is about the runs in which every
delete is of that kind.
-/

namespace Mx6xBsp.Startup

open Words Runs CStrings

/-! ## Entries -/

/-- A type with its text, as `add_typed_string` is given them. -/
structure TypedString where
  type : Nat
  text : List UInt8
  named : type ≠ CS_NONE
  type_lt : type < PADDR_SPACE
  free : NulFree text
  short : text.length + 12 < 2 ^ 31

/-- The bytes of a word. -/
def wordBytes (v : Nat) : List UInt8 :=
  [UInt8.ofNat v, UInt8.ofNat (v / 256), UInt8.ofNat (v / 65536), UInt8.ofNat (v / 16777216)]

namespace TypedString

/-- The length of the text with its terminator and the padding to a word. -/
def room (s : TypedString) : Nat := (s.text.length + 4) / 4 * 4

def bytes (s : TypedString) : List UInt8 :=
  wordBytes s.type ++ s.text ++ List.replicate (s.room - s.text.length) 0

end TypedString

def typedBytes (es : List TypedString) : List UInt8 := es.flatMap TypedString.bytes

variable {mem : Mem} {es front rest : List TypedString} {s : TypedString} {type v a : Nat}

theorem ROUND_four {x : Nat} (fits : x + 3 < PADDR_SPACE) : ROUND x 4 = (x + 3) / 4 * 4 := by
  have rounded := ROUND_two_pow (x := x) (k := 2) (by decide) fits
  rw [show 4 = 2 ^ 2 by rfl, rounded]
  omega

theorem length_wordBytes : (wordBytes v).length = 4 := rfl

theorem TypedString.length_lt_room : s.text.length < s.room := by
  unfold TypedString.room
  omega

theorem TypedString.length_bytes : s.bytes.length = 4 + s.room := by
  have := s.length_lt_room
  simp only [TypedString.bytes, List.length_append, length_wordBytes, List.length_replicate]
  omega

@[simp] theorem typedBytes_nil : typedBytes [] = [] := rfl

@[simp] theorem typedBytes_cons : typedBytes (s :: es) = s.bytes ++ typedBytes es := rfl

theorem typedBytes_append : typedBytes (front ++ rest) = typedBytes front ++ typedBytes rest :=
  List.flatMap_append

theorem typedBytes_aligned : (typedBytes es).length % 4 = 0 := by
  induction es with
  | nil => rfl
  | cons s es ih =>
    rw [typedBytes_cons, List.length_append, s.length_bytes]
    unfold TypedString.room
    omega

theorem length_le_typedBytes : es.length ≤ (typedBytes es).length := by
  induction es with
  | nil => exact le_rfl
  | cons s es ih =>
    rw [typedBytes_cons, List.length_append, s.length_bytes, List.length_cons]
    omega

theorem word32_of_holds (small : v < PADDR_SPACE) (holds : Holds mem a (wordBytes v)) :
    word32 mem a = v := by
  obtain ⟨h0, h1, h2, h3, _⟩ : mem a = _ ∧ mem (a + 1) = _ ∧ mem (a + 1 + 1) = _ ∧
      mem (a + 1 + 1 + 1) = _ ∧ Holds mem (a + 1 + 1 + 1 + 1) [] := by
    simpa only [wordBytes, holds_cons] using holds
  unfold PADDR_SPACE at small
  simp only [word32, word16, h0, h1, h2, h3, UInt8.toNat_ofNat']
  omega

theorem put32_eq_write : put32 mem a v = mem.write a (wordBytes v) := by
  funext b
  by_cases inside : a ≤ b ∧ b < a + 4
  · obtain ⟨d, rfl⟩ := Nat.exists_eq_add_of_le inside.1
    rw [Mem.write, length_wordBytes, if_pos inside, Nat.add_sub_cancel_left]
    rcases (by omega : d = 0 ∨ d = 1 ∨ d = 2 ∨ d = 3) with rfl | rfl | rfl | rfl
    · rw [put32, put16_of_ne (by omega) (by omega)]
      exact put16_low
    · rw [put32, put16_of_ne (by omega) (by omega)]
      exact put16_high
    · exact put16_low
    · refine put16_high.trans ?_
      rw [Nat.div_div_eq_div_mul]
      rfl
  · rw [put32_of_ne (by omega), Mem.write, length_wordBytes, if_neg inside]

/-! ## Searching -/

/-- The place of the first entry of a type, or the end of the list. -/
def typedOffset (es : List TypedString) (type : Nat) : Nat :=
  (typedBytes (es.takeWhile fun s => s.type ≠ type)).length

/-- What `find_typed_string` answers: for `_CS_NONE` the end of the list. -/
def typedFound (es : List TypedString) (type : Nat) : Option Nat :=
  if type = CS_NONE ∨ type ∈ es.map TypedString.type then some (typedOffset es type) else none

theorem typedOffset_cons_of_ne (other : s.type ≠ type) :
    typedOffset (s :: es) type = s.bytes.length + typedOffset es type := by
  unfold typedOffset
  rw [List.takeWhile_cons_of_pos (by simpa using other), typedBytes_cons, List.length_append]

theorem typedOffset_cons_self : typedOffset (s :: es) s.type = 0 := by
  simp [typedOffset]

theorem cString_of_holds {text : List UInt8} (holds : Holds mem a (text ++ [0]))
    (free : NulFree text) (short : text.length < PADDR_SPACE) : cString mem a = .ok text := by
  rw [cString, readString_of_holds holds free short]

theorem TypedString.of_holds (holds : Holds mem a s.bytes) :
    word32 mem a = s.type ∧ cString mem (a + 4) = .ok s.text := by
  have := s.length_lt_room
  have := s.short
  obtain ⟨pad, padded⟩ := Nat.exists_eq_add_one_of_ne_zero
    (by omega : s.room - s.text.length ≠ 0)
  rw [TypedString.bytes, padded, List.append_assoc, holds_append, length_wordBytes,
    List.replicate_succ, ← List.singleton_append, ← List.append_assoc, holds_append] at holds
  exact ⟨word32_of_holds s.type_lt holds.1, cString_of_holds holds.2.1 s.free
    (by unfold PADDR_SPACE; omega)⟩

theorem zeros_eq {z : Nat} (ends : 4 ≤ z) :
    List.replicate z (0 : UInt8) = wordBytes CS_NONE ++ List.replicate (z - 4) 0 := by
  obtain ⟨more, rfl⟩ := Nat.exists_eq_add_of_le ends
  rw [Nat.add_sub_cancel_left]
  exact (List.replicate_append_replicate (n := 4)).symm

theorem TypedString.ROUND_next {i : Nat} (aligned : i % 4 = 0)
    (fits : i + s.bytes.length + 3 < PADDR_SPACE) :
    ROUND (i + 4 + s.text.length + 1) 4 = i + s.bytes.length := by
  rw [s.length_bytes] at fits ⊢
  unfold TypedString.room at fits ⊢
  rw [ROUND_four (by omega)]
  omega

theorem findTypedLoop_eq {p i z fuel : Nat}
    (holds : Holds mem (p + i) (typedBytes es ++ List.replicate z 0)) (ends : 4 ≤ z)
    (aligned : i % 4 = 0) (fits : i + (typedBytes es).length + 4 < PADDR_SPACE)
    (enough : es.length < fuel) :
    findTypedLoop mem p type fuel i = .ok ((typedFound es type).map (i + ·)) := by
  induction es generalizing i fuel with
  | nil =>
    obtain ⟨fuel, rfl⟩ := Nat.exists_eq_succ_of_ne_zero (by omega : fuel ≠ 0)
    rw [typedBytes_nil, List.nil_append, zeros_eq ends, holds_append] at holds
    have zero : word32 mem (p + i) = CS_NONE := word32_of_holds (by decide) holds.1
    rw [findTypedLoop]
    simp only [zero]
    by_cases none : type = CS_NONE
    · simp [typedFound, typedOffset, none]
    · simp [typedFound, none, Ne.symm none]
  | cons s es ih =>
    obtain ⟨fuel, rfl⟩ := Nat.exists_eq_succ_of_ne_zero (by omega : fuel ≠ 0)
    rw [typedBytes_cons, List.append_assoc, holds_append, Nat.add_assoc] at holds
    rw [typedBytes_cons, List.length_append] at fits
    obtain ⟨word, text⟩ := TypedString.of_holds holds.1
    rw [findTypedLoop]
    simp only [word]
    by_cases same : s.type = type
    · subst same
      simp [typedFound, typedOffset_cons_self]
    · have next : (i + s.bytes.length) % 4 = 0 := by
        rw [s.length_bytes]
        unfold TypedString.room
        omega
      rw [if_neg same, if_neg s.named, ← Nat.add_assoc, text, Except.ok_bind,
        TypedString.ROUND_next aligned (by omega),
        ih holds.2 next (by omega) (by simpa using enough)]
      have found : typedFound (s :: es) type = (typedFound es type).map (s.bytes.length + ·) := by
        unfold typedFound
        rw [typedOffset_cons_of_ne same]
        by_cases here : type = CS_NONE ∨ type ∈ es.map TypedString.type
        · rw [if_pos here, if_pos (by simpa [Ne.symm same] using here)]
          rfl
        · rw [if_neg here, if_neg (by simpa [Ne.symm same] using here)]
          rfl
      rw [found]
      cases typedFound es type with
      | none => rfl
      | some off => simp [Nat.add_assoc]

/-! ## The section -/

/-- The section holds the entries, one for each type, and at least the terminator behind. -/
structure TypedHolds (lsp : Syspage) (es : List TypedString) : Prop where
  good : lsp.Good
  distinct : (es.map TypedString.type).Nodup
  bytes : ∃ z, 4 ≤ z ∧ lsp.bytes .typedStrings = typedBytes es ++ List.replicate z 0

variable {lsp lsp' : Syspage}

theorem Syspage.Good.typed_room {z : Nat} (good : lsp.Good)
    (bytes : lsp.bytes .typedStrings = typedBytes es ++ List.replicate z 0) :
    lsp.p .typedStrings + (typedBytes es).length + z < PADDR_SPACE := by
  have inside := good.inside .typedStrings
  have addressable := good.addressable
  have size := (Syspage.bytes_eq_iff.mp bytes).1
  rw [List.length_append, List.length_replicate] at size
  unfold Syspage.stop at inside
  omega

theorem findTypedString_eq {z : Nat} (good : lsp.Good)
    (bytes : lsp.bytes .typedStrings = typedBytes es ++ List.replicate z 0) (ends : 4 ≤ z) :
    findTypedString lsp type = .ok (typedFound es type) := by
  have room := good.typed_room bytes
  have few := @length_le_typedBytes es
  rw [findTypedString, findTypedLoop_eq (z := z)
    (by rw [Nat.add_zero]; exact (Syspage.bytes_eq_iff.mp bytes).2) ends rfl (by omega) (by omega)]
  simp

/-- The last word of an entry. -/
def TypedString.lastWord (s : TypedString) : List UInt8 := s.bytes.drop s.room

theorem TypedString.length_lastWord : s.lastWord.length = 4 := by
  rw [TypedString.lastWord, List.length_drop, s.length_bytes]
  omega

/-- The slide of `del_typed_string`: what stands from the last word of the entry on moves to the
entry's place, and zeros follow. -/
theorem slideTyped_holds {p i z : Nat}
    (holds : Holds mem (p + i) (s.bytes ++ typedBytes rest ++ List.replicate z 0)) :
    Holds (slideTyped mem p i (i + s.room) (i + s.bytes.length + (typedBytes rest).length)) (p + i)
      (s.lastWord ++ typedBytes rest ++ List.replicate (s.room + z) 0) := by
  have whole : s.bytes = s.bytes.take s.room ++ s.lastWord := (List.take_append_drop ..).symm
  have kept : (s.bytes.take s.room).length = s.room := by
    rw [List.length_take, s.length_bytes]
    omega
  have word := s.length_lastWord
  have entry := s.length_bytes
  rw [whole, List.append_assoc, List.append_assoc, holds_append, ← List.append_assoc,
    holds_append, kept, List.length_append] at holds
  obtain ⟨_, moved, zeros⟩ := holds
  have len : i + s.bytes.length + (typedBytes rest).length - (i + s.room) =
      4 + (typedBytes rest).length := by omega
  have gap : i + s.room + (4 + (typedBytes rest).length) -
      (i + (4 + (typedBytes rest).length)) = s.room := by omega
  have length : (s.lastWord ++ typedBytes rest).length = 4 + (typedBytes rest).length := by
    rw [List.length_append, word]
  simp only [slideTyped, len, gap]
  rw [← List.replicate_append_replicate, ← List.append_assoc, holds_append, holds_append]
  refine ⟨⟨?_, ?_⟩, ?_⟩
  · refine Syspage.holds_zero_apart (Syspage.holds_move (by rwa [← Nat.add_assoc]) length)
      (Or.inl ?_)
    omega
  · rw [length, Nat.add_assoc p i]
    exact Syspage.holds_zero
  · rw [List.length_append, length, List.length_replicate]
    have place : p + i + (4 + (typedBytes rest).length + s.room) =
        p + i + s.room + (s.lastWord.length + (typedBytes rest).length) := by
      omega
    rw [place]
    refine Syspage.holds_zero_apart (Syspage.holds_move_apart zeros (Or.inr ?_)) (Or.inr ?_)
    · omega
    · omega

theorem typedFound_split (first : s.type ∉ front.map TypedString.type) :
    typedFound (front ++ s :: rest) s.type = some (typedBytes front).length := by
  have others : ∀ t ∈ front, decide (t.type ≠ s.type) = true := by
    intro t mem
    simpa using fun same : t.type = s.type => first (List.mem_map.mpr ⟨t, mem, same⟩)
  rw [typedFound, if_pos (Or.inr (by simp)), typedOffset, List.takeWhile_append_of_pos others]
  simp

/-- Searching `_CS_NONE` finds the end. -/
theorem typedFound_none : typedFound es CS_NONE = some (typedBytes es).length := by
  have others : ∀ t ∈ es, decide (t.type ≠ CS_NONE) = true := by
    intro t _
    simpa using t.named
  rw [typedFound, if_pos (Or.inl rfl), typedOffset, List.takeWhile_eq_self_iff.mpr others]

/-- What `del_typed_string` leaves of a list with an entry of the type. -/
theorem delTypedString_bytes {z : Nat} {gone : Bool} (good : lsp.Good)
    (bytes : lsp.bytes .typedStrings = typedBytes (front ++ s :: rest) ++ List.replicate z 0)
    (ends : 4 ≤ z) (first : s.type ∉ front.map TypedString.type)
    (del : delTypedString lsp s.type = .ok (lsp', gone)) :
    lsp'.Good ∧ lsp'.bytes .typedStrings =
      typedBytes front ++ (s.lastWord ++ typedBytes rest) ++ List.replicate (s.room + z) 0 := by
  have room := good.typed_room bytes
  obtain ⟨size, holds⟩ := Syspage.bytes_eq_iff.mp bytes
  rw [typedBytes_append, typedBytes_cons, List.append_assoc, holds_append] at holds
  obtain ⟨inFront, behind⟩ := holds
  have entry := (TypedString.of_holds (holds_append.mp (holds_append.mp behind).1).1).2
  have lengths : (typedBytes (front ++ s :: rest)).length =
      (typedBytes front).length + s.bytes.length + (typedBytes rest).length := by
    rw [typedBytes_append, typedBytes_cons, List.length_append, List.length_append]
    omega
  have aligned := @typedBytes_aligned front
  have next : ROUND ((typedBytes front).length + s.text.length + 1) 4 =
      (typedBytes front).length + s.room := by
    have := s.length_bytes
    unfold TypedString.room at this ⊢
    rw [ROUND_four (by omega)]
    omega
  unfold delTypedString at del
  rw [findTypedString_eq good bytes ends, typedFound_split first, Except.ok_bind] at del
  simp only [Nat.add_assoc] at entry
  simp only [entry, Except.ok_bind, findTypedString_eq good bytes ends, typedFound_none, next,
    lengths, Option.getD_some] at del
  cases del
  have entryLength := s.length_bytes
  have word := s.length_lastWord
  refine ⟨good.setMem, Syspage.bytes_eq_iff.mpr ⟨?_, ?_⟩⟩
  · rw [List.length_append, lengths, List.length_replicate] at size
    simp only [List.length_append, List.length_replicate]
    exact size.trans (by omega)
  · rw [List.append_assoc, holds_append]
    refine ⟨?_, slideTyped_holds behind⟩
    refine Syspage.holds_zero_apart (Syspage.holds_move_apart inFront (Or.inl le_rfl)) (Or.inl ?_)
    change lsp.p .typedStrings + (typedBytes front).length ≤
      lsp.p .typedStrings + ((typedBytes front).length + _)
    omega

/-! ## Where a delete is right -/

theorem wordBytes_inj {w : Nat} (hv : v < PADDR_SPACE) (hw : w < PADDR_SPACE)
    (same : wordBytes v = wordBytes w) : v = w := by
  have first : Holds (Mem.write (fun _ => 0) 0 (wordBytes v)) 0 (wordBytes v) :=
    Syspage.holds_write
  have second : Holds (Mem.write (fun _ => 0) 0 (wordBytes v)) 0 (wordBytes w) := by
    rw [← same]
    exact Syspage.holds_write
  exact (word32_of_holds hv first).symm.trans (word32_of_holds hw second)

/-- The last word of an entry is zero exactly when the text fills whole words, so that its
terminator is in a word of its own. -/
theorem TypedString.lastWord_zero_iff :
    (∀ c ∈ s.lastWord, c = 0) ↔ s.text.length % 4 = 0 := by
  have := s.length_lt_room
  constructor
  · intro zero
    by_contra broken
    have inside : s.room - 4 < s.text.length := by
      unfold TypedString.room
      omega
    have four : 4 ≤ s.room := by
      unfold TypedString.room
      omega
    have here : s.text[s.room - 4] ∈ s.lastWord := by
      have length := s.length_lastWord
      have entry : s.lastWord[0] = s.text[s.room - 4] := by
        simp only [TypedString.lastWord, TypedString.bytes, List.getElem_drop]
        rw [List.getElem_append_left (by simp [length_wordBytes]; omega),
          List.getElem_append_right (by simp [length_wordBytes]; omega)]
        rfl
      rw [← entry]
      exact List.getElem_mem _
    exact s.free _ (List.getElem_mem inside) (zero _ here)
  · intro whole c mem
    have room : s.room = (wordBytes s.type ++ s.text).length := by
      rw [List.length_append, length_wordBytes]
      unfold TypedString.room
      omega
    rw [TypedString.lastWord, TypedString.bytes, room, List.drop_left] at mem
    exact List.eq_of_mem_replicate mem

/-- Deleting the entry leaves the list of the others exactly when it is the last one and its text
fills whole words. -/
theorem delTypedString_exact {gone : Bool} (holds : TypedHolds lsp (front ++ s :: rest))
    (del : delTypedString lsp s.type = .ok (lsp', gone)) :
    TypedHolds lsp' (front ++ rest) ↔ rest = [] ∧ s.text.length % 4 = 0 := by
  obtain ⟨z, ends, bytes⟩ := holds.bytes
  have distinct := holds.distinct
  rw [List.map_append, List.map_cons, List.nodup_middle] at distinct
  obtain ⟨fresh, distinct⟩ := List.nodup_cons.mp distinct
  have first : s.type ∉ front.map TypedString.type :=
    fun mem => fresh (List.mem_append_left _ mem)
  obtain ⟨good, left⟩ := delTypedString_bytes holds.good bytes ends first del
  constructor
  · intro holds'
    obtain ⟨z', ends', bytes'⟩ := holds'.bytes
    rw [left, typedBytes_append, List.append_assoc, List.append_assoc, List.append_assoc,
      List.append_cancel_left_eq] at bytes'
    have zero : ∀ c ∈ s.lastWord, c = 0 := by
      have counted := congrArg (List.countP (· ≠ 0)) bytes'
      have none : ∀ n, (List.replicate n (0 : UInt8)).countP (· ≠ 0) = 0 := by
        intro n
        simp [List.countP_replicate]
      rw [List.countP_append, List.countP_append, List.countP_append, none, none] at counted
      have empty : s.lastWord.countP (· ≠ 0) = 0 := by omega
      simpa using List.countP_eq_zero.mp empty
    refine ⟨?_, TypedString.lastWord_zero_iff.mp zero⟩
    cases rest with
    | nil => rfl
    | cons t rest =>
      exfalso
      have word : wordBytes t.type = s.lastWord := by
        have heads := congrArg (List.take 4) bytes'
        rw [List.take_left' s.length_lastWord, typedBytes_cons, TypedString.bytes] at heads
        simp only [List.append_assoc] at heads
        rw [List.take_left' length_wordBytes] at heads
        exact heads.symm
      have zeros : wordBytes t.type = wordBytes CS_NONE := by
        rw [word]
        exact List.eq_replicate_iff.mpr ⟨s.length_lastWord, zero⟩
      exact t.named (wordBytes_inj t.type_lt (by decide) zeros)
  · rintro ⟨rfl, whole⟩
    have zero : s.lastWord = List.replicate 4 0 :=
      List.eq_replicate_iff.mpr ⟨s.length_lastWord, TypedString.lastWord_zero_iff.mpr whole⟩
    refine ⟨good, by rwa [List.map_append], 4 + (s.room + z), by omega, ?_⟩
    rw [left, zero, typedBytes_nil, List.append_nil, List.append_nil, List.append_assoc,
      List.replicate_append_replicate]

/-- A type that is not listed, or that of the last entry with a text that fills whole words. -/
def Deletable (es : List TypedString) (type : Nat) : Prop :=
  type ∉ es.map TypedString.type ∨
    ∃ front s, es = front ++ [s] ∧ s.type = type ∧ s.text.length % 4 = 0

/-- The other entries. -/
def without (es : List TypedString) (type : Nat) : List TypedString :=
  es.filter fun s => s.type ≠ type

theorem without_absent (absent : type ∉ es.map TypedString.type) : without es type = es := by
  refine List.filter_eq_self.mpr fun s mem => ?_
  simpa using fun same : s.type = type => absent (List.mem_map.mpr ⟨s, mem, same⟩)

theorem not_mem_without : type ∉ (without es type).map TypedString.type := by
  intro mem
  obtain ⟨s, listed, same⟩ := List.mem_map.mp mem
  have other := (List.mem_filter.mp listed).2
  simp [same] at other

theorem TypedHolds.del {gone : Bool} (holds : TypedHolds lsp es) (named : type ≠ CS_NONE)
    (deletable : Deletable es type) (del : delTypedString lsp type = .ok (lsp', gone)) :
    TypedHolds lsp' (without es type) := by
  rcases deletable with absent | ⟨front, s, rfl, rfl, whole⟩
  · obtain ⟨z, ends, bytes⟩ := holds.bytes
    have missing : typedFound es type = none := if_neg (by simp [named, absent])
    rw [delTypedString, findTypedString_eq holds.good bytes ends, missing] at del
    cases del
    rw [without_absent absent]
    exact holds
  · have distinct := holds.distinct
    rw [List.map_append, List.map_singleton] at distinct
    have fresh : s.type ∉ front.map TypedString.type := by
      intro mem
      exact (List.nodup_append.mp distinct).2.2 _ mem _ (List.mem_singleton_self _) rfl
    have left := (delTypedString_exact holds del).mpr ⟨rfl, whole⟩
    have others : without (front ++ [s]) s.type = front := by
      unfold without
      rw [List.filter_append]
      change without front s.type ++ _ = _
      rw [without_absent fresh]
      simp
    rwa [others, ← List.append_nil front]

theorem delTypedString_p {gone : Bool} (del : delTypedString lsp type = .ok (lsp', gone)) :
    lsp'.p = lsp.p := by
  obtain ⟨found, _, del⟩ := Except.bind_eq_ok.mp del
  cases found with
  | none =>
    cases del
    rfl
  | some i =>
    obtain ⟨str, _, del⟩ := Except.bind_eq_ok.mp del
    obtain ⟨stop, _, del⟩ := Except.bind_eq_ok.mp del
    cases del
    rfl

theorem Syspage.Good.append_typed {z : Nat} (good : lsp.Good)
    (bytes : lsp.bytes .typedStrings = typedBytes es ++ List.replicate z 0)
    (fits : s.room + 8 ≤ z) (distinct : ((es ++ [s]).map TypedString.type).Nodup) :
    TypedHolds
      (({ lsp with mem := put32 lsp.mem (lsp.p .typedStrings + (typedBytes es).length) s.type } :
          Syspage).write
        (lsp.p .typedStrings + ((typedBytes es).length + 4)) (s.text ++ [0])) (es ++ [s]) := by
  have := s.length_lt_room
  have word := @Syspage.write_bytes _ _ (wordBytes s.type) _ _ bytes (by
    rw [length_wordBytes]
    omega)
  have text := @Syspage.write_bytes _ _ (s.text ++ [0]) _ _ word (by
    rw [length_wordBytes, List.length_append, List.length_singleton]
    omega)
  rw [List.length_append, length_wordBytes] at text
  rw [put32_eq_write]
  refine ⟨good.setMem, distinct, z - 4 - s.room, by omega, ?_⟩
  refine text.trans ?_
  have zeros : ([0] : List UInt8) ++ List.replicate (z - 4 - (s.text ++ [(0 : UInt8)]).length) 0 =
      List.replicate (s.room - s.text.length) 0 ++ List.replicate (z - 4 - s.room) 0 := by
    rw [List.length_append, List.length_singleton, List.replicate_append_replicate]
    refine (List.replicate_append_replicate (n := 1)).trans ?_
    congr 1
    omega
  rw [typedBytes_append, typedBytes_cons, typedBytes_nil, List.append_nil, TypedString.bytes]
  simp only [List.append_assoc] at zeros ⊢
  rw [zeros]

/-- The append of `add_typed_string` behind a list without the type. -/
theorem TypedHolds.add {i : Nat} (holds : TypedHolds lsp es) (deletable : Deletable es s.type)
    (add : addTypedString lsp s.type s.text = .ok (lsp', i)) :
    TypedHolds lsp' (without es s.type ++ [s]) := by
  obtain ⟨⟨slid, gone⟩, del, add⟩ := Except.bind_eq_ok.mp add
  have kept := holds.del s.named deletable del
  have place := congrFun (delTypedString_p del) .typedStrings
  have fresh := @not_mem_without es s.type
  generalize without es s.type = es at kept fresh ⊢
  obtain ⟨z, ends, bytes⟩ := kept.bytes
  have fits := kept.good.typed_room bytes
  have size := (Syspage.bytes_eq_iff.mp bytes).1
  rw [List.length_append, List.length_replicate] at size
  have short := s.short
  have len : ROUND (s.text.length + 1) 4 = s.room := by
    rw [ROUND_four (by unfold PADDR_SPACE; omega)]
    rfl
  have spare : paddrSub (slid.size .typedStrings) (typedBytes es).length = z := by
    unfold paddrSub paddr
    unfold PADDR_SPACE at *
    omega
  simp only [findTypedString_eq kept.good bytes ends, typedFound_none, Except.ok_bind,
    Option.getD_some, len, spare] at add
  obtain ⟨⟨grown, p⟩, grow, done⟩ := Except.bind_eq_ok.mp add
  cases done
  have small : s.room + 2 * 4 < 2 ^ 31 := by
    unfold TypedString.room
    omega
  obtain ⟨good, stays, _, z', enough, grownBytes⟩ :=
    Syspage.room kept.good bytes place.symm small grow
  simp only [← place, ← stays]
  refine good.append_typed grownBytes enough ?_
  rw [List.map_append, List.map_singleton, List.nodup_append]
  refine ⟨kept.distinct, List.nodup_singleton _, ?_⟩
  rintro t listed u mem rfl
  exact fresh (List.mem_singleton.mp mem ▸ listed)

/-! ## Runs -/

/-- The calls on typed strings, and the calls of other code on the page. -/
inductive TypedCall
  | add (s : TypedString)
  | del (type : Nat)
  | page (call : SyspageCall)

namespace TypedCall

/-- `_CS_NONE` is not a type but the end of the list; other code does not store into the
section. -/
def step (lsp : Syspage) : TypedCall → Syspage → Prop
  | .add s, lsp' => ∃ i, addTypedString lsp s.type s.text = .ok (lsp', i)
  | .del type, lsp' => type ≠ CS_NONE ∧ ∃ gone, delTypedString lsp type = .ok (lsp', gone)
  | .page call, lsp' =>
    (∀ off val, call ≠ .store .typedStrings off val) ∧ SyspageStep lsp call lsp'

/-- The entries after a call: those of other types are kept, in their order. -/
def next (es : List TypedString) : TypedCall → List TypedString
  | .add s => without es s.type ++ [s]
  | .del type => without es type
  | .page _ => es

/-- The type whose entry a call deletes. -/
def deletes : TypedCall → Option Nat
  | .add s => some s.type
  | .del type => some type
  | .page _ => none

/-- The text of the latest add of a type with no delete behind it. -/
def latest (type : Nat) (text : Option (List UInt8)) : TypedCall → Option (List UInt8)
  | .add s => if s.type = type then some s.text else text
  | .del gone => if gone = type then none else text
  | .page _ => text

end TypedCall

/-- Every delete in the calls finds nothing or what it can take out. -/
def DeletesRight (es : List TypedString) (calls : List TypedCall) : Prop :=
  ∀ before call after, calls = before ++ call :: after →
    ∀ type ∈ call.deletes, Deletable (before.foldl TypedCall.next es) type

/-- Looking up a type. -/
def typedText (lsp : Syspage) (type : Nat) : Except Crash (Option (List UInt8)) := do
  match ← findTypedString lsp type with
  | none => return none
  | some i => return some (← cString lsp.mem (lsp.p .typedStrings + (i + 4)))

variable {calls : List TypedCall}

theorem deletesRight_nil : DeletesRight es [] := by
  intro before call after split
  simp at split

theorem deletesRight_cons {call : TypedCall} : DeletesRight es (call :: calls) ↔
    (∀ type ∈ call.deletes, Deletable es type) ∧ DeletesRight (call.next es) calls := by
  constructor
  · intro right
    refine ⟨right [] call calls rfl, fun before c after split => ?_⟩
    exact right (call :: before) c after (by rw [split]; rfl)
  · rintro ⟨first, right⟩ before c after split
    cases before with
    | nil =>
      obtain ⟨rfl, rfl⟩ := List.cons.inj split
      exact first
    | cons head before =>
      obtain ⟨rfl, rfl⟩ := List.cons.inj split
      exact right before c after rfl

theorem TypedHolds.page {call : SyspageCall} (holds : TypedHolds lsp es)
    (elsewhere : ∀ off val, call ≠ .store .typedStrings off val)
    (step : SyspageStep lsp call lsp') : TypedHolds lsp' es := by
  obtain ⟨z, ends, bytes⟩ := holds.bytes
  obtain ⟨good, n, appended⟩ := holds.good.elsewhere elsewhere step
  refine ⟨good, holds.distinct, z + n, by omega, ?_⟩
  rw [appended, bytes, List.append_assoc, List.replicate_append_replicate]

theorem TypedHolds.step {call : TypedCall} (holds : TypedHolds lsp es)
    (deletable : ∀ type ∈ call.deletes, Deletable es type) (step : call.step lsp lsp') :
    TypedHolds lsp' (call.next es) := by
  cases call with
  | add s =>
    obtain ⟨i, add⟩ := step
    exact holds.add (deletable _ rfl) add
  | del type =>
    obtain ⟨named, gone, del⟩ := step
    exact holds.del named (deletable _ rfl) del
  | page call => exact holds.page step.1 step.2

theorem TypedHolds.run (holds : TypedHolds lsp es) (run : Run TypedCall.step lsp calls lsp')
    (right : DeletesRight es calls) : TypedHolds lsp' (calls.foldl TypedCall.next es) := by
  induction run generalizing es with
  | nil => exact holds
  | cons first _ ih =>
    obtain ⟨here, later⟩ := deletesRight_cons.mp right
    exact ih (holds.step here first) later

/-- The text an entry list has for a type. -/
def textOf (es : List TypedString) (type : Nat) : Option (List UInt8) :=
  (es.find? fun s => s.type = type).map TypedString.text

theorem textOf_without {gone : Nat} :
    textOf (without es gone) type = if gone = type then none else textOf es type := by
  unfold textOf without
  rw [List.find?_filter]
  split
  · rename_i same
    rw [List.find?_eq_none.mpr]
    · rfl
    · intro s _
      simp [same]
  · rename_i other
    congr 2
    funext s
    by_cases here : s.type = type
    · simp [here, Ne.symm other]
    · simp [here]

theorem textOf_next {call : TypedCall} :
    textOf (call.next es) type = call.latest type (textOf es type) := by
  cases call with
  | add s =>
    have others := @textOf_without es type s.type
    unfold textOf at others
    simp only [TypedCall.next, TypedCall.latest, textOf, List.find?_append]
    by_cases same : s.type = type
    · rw [if_pos same] at others
      rw [Option.map_eq_none_iff.mp others, if_pos same]
      simp [same]
    · rw [if_neg same] at others
      rw [if_neg same, List.find?_singleton, if_neg (by simpa using same), Option.or_none]
      exact others
  | del gone => exact textOf_without
  | page call => rfl

theorem textOf_foldl :
    textOf (calls.foldl TypedCall.next es) type =
      calls.foldl (TypedCall.latest type) (textOf es type) := by
  induction calls generalizing es with
  | nil => rfl
  | cons call calls ih => rw [List.foldl_cons, List.foldl_cons, ih, textOf_next]

theorem TypedHolds.typedText_eq (holds : TypedHolds lsp es) (named : type ≠ CS_NONE) :
    typedText lsp type = .ok (textOf es type) := by
  obtain ⟨z, ends, bytes⟩ := holds.bytes
  rw [typedText, findTypedString_eq holds.good bytes ends, Except.ok_bind]
  by_cases listed : type ∈ es.map TypedString.type
  · obtain ⟨s, mem, rfl⟩ := List.mem_map.mp listed
    obtain ⟨front, rest, rfl⟩ := List.append_of_mem mem
    have distinct := holds.distinct
    rw [List.map_append, List.map_cons, List.nodup_middle] at distinct
    have first : s.type ∉ front.map TypedString.type :=
      fun mem => (List.nodup_cons.mp distinct).1 (List.mem_append_left _ mem)
    have stands := (Syspage.bytes_eq_iff.mp bytes).2
    rw [typedBytes_append, typedBytes_cons, List.append_assoc, holds_append] at stands
    have text := (TypedString.of_holds (holds_append.mp (holds_append.mp stands.2).1).1).2
    rw [Nat.add_assoc] at text
    have found : textOf (front ++ s :: rest) s.type = some s.text := by
      have before : front.find? (fun t => decide (t.type = s.type)) = none := by
        refine List.find?_eq_none.mpr fun t mem => ?_
        simpa using fun same : t.type = s.type => first (List.mem_map.mpr ⟨t, mem, same⟩)
      rw [textOf, List.find?_append, before, List.find?_cons_of_pos (by simp)]
      rfl
    rw [typedFound_split first, found]
    simp only [text, Except.ok_bind]
    rfl
  · have missing : textOf es type = none := by
      rw [textOf, List.find?_eq_none.mpr]
      · rfl
      · intro t mem
        simpa using fun same : t.type = type => listed (List.mem_map.mpr ⟨t, mem, same⟩)
    rw [missing, typedFound, if_neg (by simp [named, listed])]
    rfl

/-- The section `init_syspage_memory` has left is the empty list. -/
theorem init_typed {base maxSize hdrSize calloutEntry callinEntry hwiPrefix armCpuEntry : Nat}
    {patchData : List CoInfo} {mem : Mem} (fits : Syspage.InitFits base maxSize hdrSize)
    (init : Run SyspageStep (initSections base maxSize hdrSize patchData mem)
      (initCalls calloutEntry callinEntry hwiPrefix armCpuEntry) lsp) : TypedHolds lsp [] := by
  have good := @Syspage.initSections_good _ _ _ patchData mem fits
  have empty : (initSections base maxSize hdrSize patchData mem).bytes .typedStrings = [] := rfl
  refine ⟨Syspage.good_run init good, List.nodup_nil, 8, by decide, ?_⟩
  rw [Syspage.bytes_run init good]
  simp [initCalls, SyspageCall.next, empty, show ROUND 4 8 = 8 by decide]

/-- In every run of calls from `init_syspage_memory` on whose deletes are all right, the section
holds the live entries byte for byte, and looking up a type yields the latest text. -/
theorem typedStrings_run
    {base maxSize hdrSize calloutEntry callinEntry hwiPrefix armCpuEntry : Nat}
    {patchData : List CoInfo} {mem : Mem} (fits : Syspage.InitFits base maxSize hdrSize)
    (init : Run SyspageStep (initSections base maxSize hdrSize patchData mem)
      (initCalls calloutEntry callinEntry hwiPrefix armCpuEntry) lsp)
    (run : Run TypedCall.step lsp calls lsp') (right : DeletesRight [] calls) :
    TypedHolds lsp' (calls.foldl TypedCall.next []) ∧
      ∀ type, type ≠ CS_NONE →
        typedText lsp' type = .ok (calls.foldl (TypedCall.latest type) none) := by
  have holds := (init_typed fits init).run run right
  refine ⟨holds, fun type named => ?_⟩
  rw [holds.typedText_eq named, textOf_foldl]
  rfl

def typedAdded (lsp : Syspage) (s : TypedString) : Syspage :=
  ((addTypedString lsp s.type s.text).map Prod.fst).toOption.getD lsp

def typedDeleted (lsp : Syspage) (type : Nat) : Syspage :=
  ((delTypedString lsp type).map Prod.fst).toOption.getD lsp

theorem typedAdded_step {i : Nat}
    (works : (addTypedString lsp s.type s.text).map Prod.snd = .ok i) :
    TypedCall.step lsp (.add s) (typedAdded lsp s) := by
  obtain ⟨⟨lsp', i⟩, add, rfl⟩ := Except.exists_of_map works
  refine ⟨i, ?_⟩
  rw [add, typedAdded, add]
  rfl

theorem typedDeleted_step {gone : Bool} (named : type ≠ CS_NONE)
    (works : (delTypedString lsp type).map Prod.snd = .ok gone) :
    TypedCall.step lsp (.del type) (typedDeleted lsp type) := by
  obtain ⟨⟨lsp', gone⟩, del, rfl⟩ := Except.exists_of_map works
  refine ⟨named, gone, ?_⟩
  rw [del, typedDeleted, del]
  rfl

/-- A typed string given by numbers. -/
def typedString (type : Nat) (text : List UInt8) (named : type ≠ CS_NONE ∧ type < PADDR_SPACE)
    (written : NulFree text ∧ text.length + 12 < 2 ^ 31) : TypedString :=
  ⟨type, text, named.1, named.2, written.1, written.2⟩

/-- "abcd" replaced by "b" on the small page. -/
theorem typedStrings_run_small : ∃ lsp',
    Run TypedCall.step smallHwinfo.hw.lsp
      [.add (typedString 1 [97, 98, 99, 100] (by decide +kernel) (by decide +kernel)),
        .add (typedString 1 [98] (by decide +kernel) (by decide +kernel))] lsp' ∧
    typedText lsp' 1 = .ok (some [98]) := by
  have run : Run TypedCall.step smallHwinfo.hw.lsp
      [.add (typedString 1 [97, 98, 99, 100] (by decide +kernel) (by decide +kernel)),
        .add (typedString 1 [98] (by decide +kernel) (by decide +kernel))] _ :=
    .cons (typedAdded_step (i := 0) (by decide +kernel)) <|
    .single (typedAdded_step (i := 0) (by decide +kernel))
  have correct := typedStrings_run Syspage.smallPage_fits smallHwinfo_init run (by
    refine deletesRight_cons.mpr ⟨?_, deletesRight_cons.mpr ⟨?_, deletesRight_nil⟩⟩
    · exact fun type _ => Or.inl (List.not_mem_nil)
    · rintro type ⟨⟩
      exact Or.inr ⟨[], _, rfl, rfl, rfl⟩)
  exact ⟨_, run, correct.2 1 (by decide)⟩

/-- After the delete of type 1 with text "a" its last word stands before the entry of type 2,
which a lookup does not find any more. -/
theorem typedStrings_lost : ∃ lsp',
    Run TypedCall.step smallHwinfo.hw.lsp
      [.add (typedString 1 [97] (by decide +kernel) (by decide +kernel)),
        .add (typedString 2 [98] (by decide +kernel) (by decide +kernel)), .del 1] lsp' ∧
    [TypedCall.add (typedString 1 [97] (by decide +kernel) (by decide +kernel)),
        .add (typedString 2 [98] (by decide +kernel) (by decide +kernel)), .del 1].foldl
      (TypedCall.latest 2) none = some [98] ∧
    typedText lsp' 2 = .ok none := by
  refine ⟨_, .cons (typedAdded_step (i := 0) (by decide +kernel)) <|
    .cons (typedAdded_step (i := 8) (by decide +kernel)) <|
    .single (@typedDeleted_step _ _ true (by decide) (by decide +kernel)), rfl, ?_⟩
  decide +kernel

end Mx6xBsp.Startup
