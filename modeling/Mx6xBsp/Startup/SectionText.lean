import Mathlib.Data.List.GetD
import Mx6xBsp.Startup.Strings
import Mx6xBsp.Startup.SyspageRuns

/-!
# Sections that end with zeros

The two string sections are read up to a terminator and written behind it, so
what matters of them is the bytes in use and that zeros follow. Growth, stores
into the zeros and the calls of other code are stated for that shape.
-/

namespace Mx6xBsp.Startup

open CStrings

namespace Syspage

variable {lsp lsp' : Syspage} {sect : LocalSection} {data more front : List UInt8} {z : Nat}

theorem bytes_eq_iff : lsp.bytes sect = data ↔
    lsp.size sect = data.length ∧ Holds lsp.mem (lsp.p sect) data := by
  constructor
  · rintro rfl
    exact ⟨bytes_length.symm, fun i within => (bytes_getElem within).symm⟩
  · rintro ⟨size, holds⟩
    refine List.ext_getElem (bytes_length.trans size) fun i h h' => ?_
    rw [bytes_getElem]
    exact holds i h'

theorem holds_write {mem : Mem} {addr : Nat} {data : List UInt8} :
    Holds (mem.write addr data) addr data := by
  intro i within
  rw [Mem.write, if_pos (by omega), Nat.add_sub_cancel_left, List.getD_eq_getElem _ _ within]

theorem holds_apart {mem : Mem} {addr dst : Nat} {data more : List UInt8}
    (holds : Holds mem addr data)
    (apart : addr + data.length ≤ dst ∨ dst + more.length ≤ addr) :
    Holds (mem.write dst more) addr data :=
  holds.congr fun i within => if_neg (by omega)

theorem holds_move {mem : Mem} {dst src len : Nat} {data : List UInt8} (holds : Holds mem src data)
    (length : data.length = len) : Holds (mem.move dst src len) dst data := by
  intro i within
  rw [Mem.move, if_pos (by omega), Nat.add_sub_cancel_left]
  exact holds i within

theorem holds_move_apart {mem : Mem} {addr dst src len : Nat} {data : List UInt8}
    (holds : Holds mem addr data) (apart : addr + data.length ≤ dst ∨ dst + len ≤ addr) :
    Holds (mem.move dst src len) addr data :=
  holds.congr fun i within => if_neg (by omega)

theorem holds_zero {mem : Mem} {addr n : Nat} :
    Holds (mem.zero addr n) addr (List.replicate n 0) := by
  intro i within
  rw [List.length_replicate] at within
  rw [List.getElem_replicate]
  exact if_pos (by omega)

theorem holds_zero_apart {mem : Mem} {addr dst n : Nat} {data : List UInt8}
    (holds : Holds mem addr data) (apart : addr + data.length ≤ dst ∨ dst + n ≤ addr) :
    Holds (mem.zero dst n) addr data :=
  holds.congr fun i within => if_neg (by omega)

theorem write_bytes
    (bytes : lsp.bytes sect = front ++ List.replicate z 0) (room : data.length ≤ z) :
    (lsp.write (lsp.p sect + front.length) data).bytes sect =
      front ++ data ++ List.replicate (z - data.length) 0 := by
  have split : List.replicate z (0 : UInt8) =
      List.replicate data.length 0 ++ List.replicate (z - data.length) 0 := by
    rw [List.replicate_append_replicate]
    congr 1
    omega
  rw [split, ← List.append_assoc] at bytes
  obtain ⟨size, holds⟩ := Syspage.bytes_eq_iff.mp bytes
  obtain ⟨before, behind⟩ := holds_append.mp holds
  obtain ⟨inFront, _⟩ := holds_append.mp before
  rw [List.length_append, List.length_replicate] at behind
  have same : (front ++ List.replicate data.length (0 : UInt8)).length =
      (front ++ data).length := by simp
  refine Syspage.bytes_eq_iff.mpr ⟨?_, holds_append.mpr ⟨holds_append.mpr ⟨?_, ?_⟩, ?_⟩⟩
  · rw [List.length_append, ← same, ← List.length_append]
    exact size
  · exact holds_apart inFront (Or.inl le_rfl)
  · exact holds_write
  · rw [List.length_append]
    exact holds_apart behind (Or.inr (Nat.add_assoc .. ▸ le_rfl))

/-- Room for `need` more bytes: the section as it is, or grown. -/
theorem room {grown : Syspage} {p q need : Nat} (good : lsp.Good)
    (bytes : lsp.bytes sect = front ++ List.replicate z 0) (here : q = lsp.p sect)
    (small : need < 2 ^ 31)
    (grow : (if z < need then growSyspageSection lsp sect (need - z) else .ok (lsp, q)) =
      .ok (grown, p)) :
    grown.Good ∧ grown.p sect = lsp.p sect ∧ p = grown.p sect ∧ ∃ z', need ≤ z' ∧
      grown.bytes sect = front ++ List.replicate z' 0 := by
  split at grow
  · obtain ⟨good', grownBytes, place⟩ := grow_bytes good (by omega) grow
    have stays := (growSyspageSection_grown good.toLaid (by omega) grow).p_sect
    have rounded := le_ROUND (x := need - z) (a := 8) (by
      rw [show paddrSub 8 1 = 7 by decide]
      unfold PADDR_SPACE
      omega)
    refine ⟨good', stays, place, z + ROUND (need - z) 8, by omega, ?_⟩
    rw [grownBytes, Function.update_self, bytes, List.append_assoc,
      List.replicate_append_replicate]
  · cases grow
    exact ⟨good, rfl, here, z, by omega, bytes⟩

theorem Good.elsewhere {call : SyspageCall} (good : lsp.Good)
    (elsewhere : ∀ off val, call ≠ .store sect off val) (step : SyspageStep lsp call lsp') :
    lsp'.Good ∧ ∃ n, lsp'.bytes sect = lsp.bytes sect ++ List.replicate n 0 := by
  obtain ⟨good', bytes, _⟩ := good.step step
  refine ⟨good', ?_⟩
  rw [bytes]
  cases call with
  | store s off val =>
    have other : sect ≠ s := by
      rintro rfl
      exact elsewhere off val rfl
    exact ⟨0, by simp [SyspageCall.next, Function.update_of_ne other]⟩
  | register s off data patcher => exact ⟨0, by simp [SyspageCall.next]⟩
  | set s size => exact @next_append (.set s size) _ trivial _
  | grow s add => exact @next_append (.grow s add) _ trivial _
  | reloc base maxSize => exact @next_append (.reloc base maxSize) _ trivial _

end Syspage

end Mx6xBsp.Startup
