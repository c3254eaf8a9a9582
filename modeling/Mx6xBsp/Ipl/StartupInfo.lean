import Mx6xBsp.Ipl.ImageScan

/-!
# The info structures of the startup header

`image_add_info` of the IPL puts a structure behind those in the header, and `find_startup_info` of
the startup program looks for one by its type. `imageAddInfo_found_iff` tells when what the one has
added the other finds, and when the list still ends; `findStartupInfo_ordered` that a search finds
every structure of a type. A header is known by the bytes from `ram_addr` on, with places counted
from there.
-/

namespace Mx6xBsp.Ipl.StartupInfo

open Words ImageScan

/-- `offsetof(struct startup_header, info)` -/
def INFO : Nat := 64

def infoType (hdr : Bytes) (p : Nat) : Nat := word16 hdr p
def infoSize (hdr : Bytes) (p : Nat) : Nat := word16 hdr (p + 2)

/-- `while (sih->size)` -/
def freeSlot (hdr : Bytes) : Nat → Nat → Option Nat
  | 0, _ => none
  | fuel + 1, sih =>
    if infoSize hdr sih ≠ 0 then freeSlot hdr fuel (sih + infoSize hdr sih) else some sih

def imageAddInfo (fuel : Nat) (hdr info : Bytes) : Option (Bytes × Bool) :=
  (freeSlot hdr fuel INFO).map fun sih =>
    if sih + infoSize info 0 > sizeofHeader then (hdr, false)
    else (fun k => if sih ≤ k ∧ k < sih + infoSize info 0 then info (k - sih) else hdr k, true)

/-- The loop of `find_startup_info`, with the null pointer as `some none` -/
def findLoop (hdr : Bytes) (type : Nat) : Nat → Nat → Option (Option Nat)
  | 0, _ => none
  | fuel + 1, p =>
    if infoSize hdr p = 0 then some none
    else if infoType hdr p = type then some (some p)
    else findLoop hdr type fuel (p + infoSize hdr p)

def findStartupInfo (fuel : Nat) (hdr : Bytes) (start : Option Nat) (type : Nat) :
    Option (Option Nat) :=
  match start with
  | none => findLoop hdr type fuel INFO
  | some p => findLoop hdr type fuel (p + infoSize hdr p)

/-! ## The list in a header -/

/-- An info structure, with what follows its `struct startup_info_hdr` -/
structure Info where
  type : Nat
  body : List UInt8

def Info.size (i : Info) : Nat := 4 + i.body.length

structure Holds (hdr : Bytes) (p : Nat) (i : Info) : Prop where
  type : infoType hdr p = i.type
  size : infoSize hdr p = i.size
  body : ∀ k < i.body.length, i.body[k]? = some (hdr (p + 4 + k))

/-- The place behind some structures -/
def behind (p : Nat) (infos : List Info) : Nat := infos.foldl (fun p i => p + i.size) p

def Listed (hdr : Bytes) : Nat → List Info → Prop
  | _, [] => True
  | p, i :: infos => Holds hdr p i ∧ Listed hdr (p + i.size) infos

/-- The list of a header: the structures, and the size of zero behind them -/
structure Chain (hdr : Bytes) (infos : List Info) : Prop where
  listed : Listed hdr INFO infos
  ended : infoSize hdr (behind INFO infos) = 0

/-- The first of some structures that has a type -/
def firstOf (type p : Nat) : List Info → Option Nat
  | [] => none
  | i :: infos => if i.type = type then some p else firstOf type (p + i.size) infos

variable {hdr hdr' info : Bytes} {infos pre post : List Info} {i : Info} {p type : Nat}

theorem Info.size_ne_zero (i : Info) : i.size ≠ 0 := by
  unfold Info.size
  omega

theorem behind_append : behind p (pre ++ post) = behind (behind p pre) post := List.foldl_append

theorem le_behind : p ≤ behind p infos := by
  induction infos generalizing p with
  | nil => exact Nat.le_refl p
  | cons i infos ih => exact (Nat.le_add_right p i.size).trans ih

theorem listed_append :
    Listed hdr p (pre ++ post) ↔ Listed hdr p pre ∧ Listed hdr (behind p pre) post := by
  induction pre generalizing p with
  | nil => exact (true_and _).symm.to_iff
  | cons j pre ih =>
    rw [List.cons_append, Listed, ih, Listed, and_assoc]
    rfl

theorem Listed.congr (listed : Listed hdr p infos)
    (same : ∀ k < behind p infos, hdr' k = hdr k) : Listed hdr' p infos := by
  induction infos generalizing p with
  | nil => trivial
  | cons i infos ih =>
    have inside : p + i.size ≤ behind p (i :: infos) := le_behind
    have size : i.size = 4 + i.body.length := rfl
    refine ⟨⟨?_, ?_, fun k within => ?_⟩, ih listed.2 same⟩
    · exact (word16_congr (same _ (by omega)) (same _ (by omega))).trans listed.1.type
    · exact (word16_congr (same _ (by omega)) (same _ (by omega))).trans listed.1.size
    · rw [same _ (by omega)]
      exact listed.1.body k within

theorem freeSlot_eq (listed : Listed hdr p infos) (ended : infoSize hdr (behind p infos) = 0) :
    freeSlot hdr (infos.length + 1) p = some (behind p infos) := by
  induction infos generalizing p with
  | nil => exact if_neg (not_not.mpr ended)
  | cons i infos ih =>
    rw [List.length_cons, freeSlot, listed.1.size, if_pos i.size_ne_zero]
    exact ih listed.2 ended

theorem findLoop_eq (type : Nat) (listed : Listed hdr p infos) (ended : infoSize hdr (behind p infos) = 0) :
    findLoop hdr type (infos.length + 1) p = some (firstOf type p infos) := by
  induction infos generalizing p with
  | nil => exact if_pos ended
  | cons i infos ih =>
    rw [List.length_cons, findLoop, listed.1.size, if_neg i.size_ne_zero, listed.1.type, firstOf]
    split
    · rfl
    · exact ih listed.2 ended

/-- A search that begins anew, and one that goes on behind any structure of the list, finds the
first structure of the type that comes then. -/
theorem findStartupInfo_ordered (hdr : Bytes) (infos : List Info) (chain : Chain hdr infos)
    (type : Nat) :
    (∃ fuel, findStartupInfo fuel hdr none type = some (firstOf type INFO infos)) ∧
      ∀ pre i post, infos = pre ++ i :: post →
        ∃ fuel, findStartupInfo fuel hdr (some (behind INFO pre)) type =
          some (firstOf type (behind INFO (pre ++ [i])) post) := by
  refine ⟨⟨infos.length + 1, findLoop_eq type chain.listed chain.ended⟩, ?_⟩
  rintro pre i post rfl
  have listed := (listed_append.mp chain.listed).2
  have ended := chain.ended
  rw [behind_append] at ended
  have found := findLoop_eq type listed.2 ended
  rw [← listed.1.size] at found
  refine ⟨post.length + 1, found.trans ?_⟩
  rw [listed.1.size, behind_append]
  rfl

/-- A `struct startup_info_time` of 8 bytes -/
def timeInfo : Bytes := fun k => [3, 0, 8, 0, 1, 2, 3, 4].getD k 0

/-- A header with this and no other info structure -/
def timeHeader : Bytes := fun k => if k < INFO then 0 else timeInfo (k - INFO)

theorem findStartupInfo_time : ∃ fuel, findStartupInfo fuel timeHeader none 3 = some (some 64) :=
  (findStartupInfo_ordered timeHeader [⟨3, [1, 2, 3, 4]⟩]
    ⟨⟨⟨rfl, rfl, by decide⟩, trivial⟩, rfl⟩ 3).1

theorem findLoop_here (listed : Listed hdr p pre) (here : Holds hdr (behind p pre) i)
    (new : ∀ j ∈ pre, j.type ≠ i.type) :
    findLoop hdr i.type (pre.length + 1) p = some (some (behind p pre)) := by
  induction pre generalizing p with
  | nil =>
    have some_ : infoSize hdr p ≠ 0 := here.size ▸ i.size_ne_zero
    rw [List.length_nil, findLoop, if_neg some_]
    exact if_pos here.type
  | cons j pre ih =>
    have other := new j List.mem_cons_self
    rw [List.length_cons, findLoop, listed.1.size, if_neg j.size_ne_zero, listed.1.type, if_neg other]
    exact ih listed.2 here fun j mem => new j (List.mem_cons_of_mem _ mem)

/-- What `image_add_info` copies into the header -/
theorem holds_copied (holds : Holds info 0 i)
    (copied : ∀ k < i.size, hdr' (p + k) = info k) : Holds hdr' p i := by
  have size : i.size = 4 + i.body.length := rfl
  refine ⟨?_, ?_, fun k within => ?_⟩
  · rw [← holds.type, infoType, infoType, word16, word16, copied 1 (by omega),
      ← copied 0 (by omega)]
    rfl
  · rw [← holds.size, infoSize, infoSize, word16, word16, copied 2 (by omega), Nat.add_assoc,
      copied 3 (by omega)]
  · rw [Nat.add_assoc, copied _ (by omega)]
    simpa using holds.body k within

/-- A structure is added exactly if it fits behind the others, which stay as they are; it is then
the first of its type that the startup program finds. The list still ends exactly if there are
zeros behind it, be it that it is the last the header has room for. -/
theorem imageAddInfo_found_iff (hdr info : Bytes) (infos : List Info) (chain : Chain hdr infos)
    (i : Info) (holds : Holds info 0 i) (new : ∀ j ∈ infos, j.type ≠ i.type) :
    ∃ fuel hdr' added, imageAddInfo fuel hdr info = some (hdr', added) ∧
      (added = true ↔ behind INFO infos + i.size ≤ sizeofHeader) ∧
      (∀ k, k < behind INFO infos ∨ behind INFO infos + i.size ≤ k → hdr' k = hdr k) ∧
      (added = true → Holds hdr' (behind INFO infos) i ∧
        (∃ fuel, findStartupInfo fuel hdr' none i.type = some (some (behind INFO infos))) ∧
        (Chain hdr' (infos ++ [i]) ↔ infoSize hdr (behind INFO infos + i.size) = 0)) ∧
      (added = false → hdr' = hdr) := by
  refine ⟨infos.length + 1, ?_⟩
  rw [imageAddInfo, freeSlot_eq chain.listed chain.ended, Option.map_some, holds.size]
  generalize place : behind INFO infos = p
  split
  · rename_i full
    exact ⟨hdr, false, rfl, by simpa using full, fun _ _ => rfl, fun added => (by cases added),
      fun _ => rfl⟩
  · rename_i room
    generalize copy : (fun k => if p ≤ k ∧ k < p + i.size then info (k - p) else hdr k) = hdr'
    have outside (k : Nat) (out : k < p ∨ p + i.size ≤ k) : hdr' k = hdr k := by
      rw [← copy]
      exact if_neg (by omega)
    have copied (k : Nat) (within : k < i.size) : hdr' (p + k) = info k := by
      rw [← copy]
      dsimp only
      rw [if_pos (by omega), Nat.add_sub_cancel_left]
    have kept : Listed hdr' INFO infos :=
      chain.listed.congr fun k before => outside k (.inl (place ▸ before))
    have here : Holds hdr' p i := holds_copied holds copied
    have listed : Listed hdr' INFO (infos ++ [i]) :=
      listed_append.mpr ⟨kept, place ▸ ⟨here, trivial⟩⟩
    have last : behind INFO (infos ++ [i]) = p + i.size := by
      rw [behind_append, place]
      rfl
    have beyond : infoSize hdr' (p + i.size) = infoSize hdr (p + i.size) :=
      word16_congr (outside _ (.inr (by omega))) (outside _ (.inr (by omega)))
    refine ⟨hdr', true, rfl, by simpa using room, outside, fun _ => ⟨here, ?_, ?_⟩, fun added => ?_⟩
    · have found := findLoop_here kept (place ▸ here) new
      rw [place] at found
      exact ⟨infos.length + 1, found⟩
    · constructor
      · intro chain'
        rw [← beyond, ← last]
        exact chain'.ended
      · intro zeros
        refine ⟨listed, ?_⟩
        rw [last, beyond]
        exact zeros
    · cases added

theorem imageAddInfo_time : ∃ fuel hdr', imageAddInfo fuel (fun _ => 0) timeInfo = some (hdr', true) ∧
    Holds hdr' 64 ⟨3, [1, 2, 3, 4]⟩ := by
  obtain ⟨fuel, hdr', added, done, fits, _, here, _⟩ := imageAddInfo_found_iff (fun _ => 0) timeInfo
    [] ⟨trivial, rfl⟩ ⟨3, [1, 2, 3, 4]⟩ ⟨rfl, rfl, by decide⟩ nofun
  have room : added = true := fits.mpr (by decide)
  exact ⟨fuel, hdr', room ▸ done, (here room).1⟩
end Mx6xBsp.Ipl.StartupInfo
