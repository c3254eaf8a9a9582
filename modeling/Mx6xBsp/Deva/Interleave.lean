import Mathlib.Algebra.Order.Ring.Nat
import Mx6xBsp.Deva.Combine

/-!
# Interleaving over the pins

What `mxesai_playback_reconstitute` makes of the frames of a buffer. Its index is a number
of 16 bits, so it stops at the first frame that starts from the word 32768 on
(`reconstitute_eq`), and with a frame of more than 32767 words it never comes to the end of
one (`reconstitute_none`).
-/

namespace Mx6xBsp.Deva.Playback

/-! ## The default map -/

section Map

variable {nslots pins : Nat}

/-- The slots of one pin, the first `n` of them -/
theorem mapPin_eq (pin n : Nat) (pos : 0 < pins) (map : Nat → Nat) (frameOffset : Nat) :
    (List.range n).foldl
        (fun (map, frameOffset) slot =>
          (Function.update map (slot * pins + pin) frameOffset, frameOffset + 1))
        (map, frameOffset) =
      (fun x => if pin ≤ x ∧ (x - pin) % pins = 0 ∧ (x - pin) / pins < n then
        frameOffset + (x - pin) / pins else map x, frameOffset + n) := by
  induction n with
  | zero =>
    refine Prod.ext (funext fun x => ?_) rfl
    exact (if_neg fun h => Nat.not_lt_zero _ h.2.2).symm
  | succ n ih =>
    rw [List.range_succ, List.foldl_append, ih, List.foldl_cons, List.foldl_nil]
    refine Prod.ext (funext fun x => ?_) rfl
    dsimp only
    by_cases own : x = n * pins + pin
    · rw [own, Function.update_self, Nat.add_sub_cancel, Nat.mul_div_cancel _ pos,
        if_pos ⟨Nat.le_add_left _ _, Nat.mul_mod_left _ _, Nat.lt_succ_self _⟩]
    · rw [Function.update_of_ne own]
      refine if_congr (and_congr_right fun le => and_congr_right fun whole => ?_) rfl rfl
      refine ⟨Nat.lt_succ_of_lt, fun below => ?_⟩
      refine Nat.lt_of_le_of_ne (Nat.le_of_lt_succ below) fun same => own ?_
      have parts := Nat.div_add_mod (x - pin) pins
      rw [whole, same, Nat.mul_comm, Nat.add_zero] at parts
      omega

theorem setReconstituteMap_pins (pos : 0 < pins) {count : Nat} (le : count ≤ pins) :
    ((List.range count).foldl
      (fun state pin =>
        (List.range nslots).foldl
          (fun (map, frameOffset) slot =>
            (Function.update map (slot * pins + pin) frameOffset, frameOffset + 1)) state)
      ((fun _ => 0 : Nat → Nat), 0)).2 = count * nslots ∧
    ∀ slot < nslots, ∀ pin < count,
      ((List.range count).foldl
        (fun state pin =>
          (List.range nslots).foldl
            (fun (map, frameOffset) slot =>
              (Function.update map (slot * pins + pin) frameOffset, frameOffset + 1)) state)
        ((fun _ => 0 : Nat → Nat), 0)).1 (slot * pins + pin) = pin * nslots + slot := by
  induction count with
  | zero => exact ⟨(Nat.zero_mul _).symm, fun _ _ _ below => absurd below (Nat.not_lt_zero _)⟩
  | succ count ih =>
    obtain ⟨offset, entries⟩ := ih (Nat.le_of_succ_le le)
    rw [List.range_succ, List.foldl_append, List.foldl_cons, List.foldl_nil]
    rw [mapPin_eq count nslots pos]
    refine ⟨by rw [offset, Nat.succ_mul], fun slot slotLt pin pinLt => ?_⟩
    rcases Nat.lt_succ_iff_lt_or_eq.mp pinLt with earlier | last
    · have apart : ¬(count ≤ slot * pins + pin ∧ (slot * pins + pin - count) % pins = 0 ∧
          (slot * pins + pin - count) / pins < nslots) := by
        rintro ⟨above, whole, -⟩
        have parts := Nat.div_add_mod (slot * pins + pin - count) pins
        rw [whole, Nat.add_zero] at parts
        have rest : (slot * pins + pin) % pins = pin := by
          rw [Nat.mul_add_mod_self_right, Nat.mod_eq_of_lt (by omega)]
        have rest' : (slot * pins + pin) % pins = count := by
          have sum : slot * pins + pin =
              pins * ((slot * pins + pin - count) / pins) + count := by omega
          rw [sum, Nat.mul_add_mod, Nat.mod_eq_of_lt (by omega)]
        omega
      dsimp only
      rw [if_neg apart]
      exact entries slot slotLt pin earlier
    · dsimp only
      rw [last, Nat.add_sub_cancel, Nat.mul_div_cancel _ pos, if_pos
        ⟨Nat.le_add_left _ _, Nat.mul_mod_left _ _, slotLt⟩, offset]

theorem setReconstituteMap_eq {slot pin : Nat} (slotLt : slot < nslots) (pinLt : pin < pins) :
    (setReconstituteMap nslots pins).1 (slot * pins + pin) = pin * nslots + slot :=
  (setReconstituteMap_pins (Nat.zero_lt_of_lt pinLt) (Nat.le_refl _)).2 slot slotLt pin pinLt

end Map

/-! ## One frame -/

theorem int16_of_le {n : Int} (nonneg : 0 ≤ n) (le : n ≤ 32767) : int16 n = n := by
  unfold int16
  exact Int.bmod_eq_of_le (by omega) (by omega)

theorem int16_of_gt {n : Int} (gt : 32767 < n) (lt : n < 65536) : int16 n = n - 65536 := by
  exact (Int.add_neg_bmod_self n 65536).symm.trans (Int.bmod_eq_of_le (by omega) (by omega))

section Frame

variable {ptr buffer : Dma} {chmap : Nat → Nat} {frameSize i fuel c : Nat}

/-- The words of the frame that are already in the buffer stay there, the others come by the map. -/
theorem gather_eq (small : frameSize ≤ 32767) (le : c ≤ frameSize) (enough : frameSize < fuel + c) :
    ∃ gathered, gather ptr chmap frameSize i fuel c buffer = some gathered ∧
      ∀ j < frameSize, gathered j = if c ≤ j then ptr (i + chmap j) else buffer j := by
  induction fuel generalizing c buffer with
  | zero => omega
  | succ fuel ih =>
    unfold gather
    rcases Nat.lt_or_eq_of_le le with inside | last
    · rw [if_pos (Int.ofNat_lt.mpr inside), if_neg (by omega)]
      have next : int16 ((c : Int) + 1) = ((c + 1 : Nat) : Int) :=
        int16_of_le (by omega) (by omega)
      rw [next, Int.toNat_natCast]
      obtain ⟨gathered, found, words⟩ := @ih
        (Function.update buffer c (ptr (i + chmap c))) (c + 1) inside (by omega)
      refine ⟨gathered, found, fun j below => ?_⟩
      rw [words j below]
      rcases Nat.lt_trichotomy c j with later | same | earlier
      · rw [if_pos (Nat.succ_le_of_lt later), if_pos (Nat.le_of_lt later)]
      · rw [← same, if_neg (Nat.not_succ_le_self c), Function.update_self, if_pos (Nat.le_refl c)]
      · rw [if_neg (by omega), Function.update_of_ne (Nat.ne_of_lt earlier), if_neg (by omega)]
    · refine ⟨buffer, if_neg (by omega), fun j below => ?_⟩
      rw [if_neg (by omega)]

theorem gather_none (large : 32767 < frameSize) (le : c ≤ 32767) :
    gather ptr chmap frameSize i fuel c buffer = none := by
  induction fuel generalizing c buffer with
  | zero => rfl
  | succ fuel ih =>
    unfold gather
    rw [if_pos (by omega), if_neg (by omega)]
    rcases Nat.lt_or_eq_of_le le with inside | last
    · have next : int16 ((c : Int) + 1) = ((c + 1 : Nat) : Int) :=
        int16_of_le (by omega) (by omega)
      rw [next]
      exact ih inside
    · rw [last, int16_of_gt (by omega) (by omega)]
      cases fuel with
      | zero => rfl
      | succ fuel =>
        unfold gather
        rw [if_pos (by omega), if_pos (by omega)]

end Frame

/-! ## The frames of a buffer -/

/-- The first `count` frames with their words by the map -/
def interleaved (chmap : Nat → Nat) (frameSize count : Nat) (ptr : Dma) : Dma :=
  fun x => if x < count * frameSize then ptr (x / frameSize * frameSize + chmap (x % frameSize))
    else ptr x

section Loop

variable {mx : Mx} {ptr : Dma} {frames count : Nat}

/-- The index after the last frame, or the first one that is too large, ends the loop. -/
theorem index_ends {n words : Nat} (small : words < 2 ^ 30) (lt : n < 65536)
    (last : n = words ∨ 32767 < n) : ¬int16 n % 2 ^ 32 < words := by
  by_cases le : n ≤ 32767
  · rw [int16_of_le (by omega) (by omega)]
    omega
  · rw [int16_of_gt (by omega) (by omega)]
    omega

theorem interleaved_succ (chmap : Nat → Nat) {frameSize : Nat} {buffer : Dma}
    (words : ∀ j < frameSize, buffer j = ptr (count * frameSize + chmap j)) :
    memcpy (interleaved chmap frameSize count ptr) (count * frameSize) buffer frameSize =
      interleaved chmap frameSize (count + 1) ptr := by
  funext x
  unfold memcpy interleaved
  rw [Nat.succ_mul]
  by_cases before : x < count * frameSize
  · rw [if_neg (by omega), if_pos before, if_pos (by omega)]
  · by_cases inside : x < count * frameSize + frameSize
    · have part : x / frameSize = count :=
        Nat.div_eq_of_lt_le (Nat.not_lt.mp before) (by rw [Nat.succ_mul]; exact inside)
      have rest : x % frameSize = x - count * frameSize := by
        have parts := Nat.div_add_mod x frameSize
        rw [part, Nat.mul_comm] at parts
        omega
      rw [if_pos ⟨Nat.not_lt.mp before, inside⟩, if_pos inside, words _ (by omega), part, rest]
    · rw [if_neg (by omega), if_neg before, if_neg inside]

theorem reconstituteLoop_eq (pos : 0 < mx.nslots * mx.numSdoPins)
    (small : mx.nslots * mx.numSdoPins ≤ 32767)
    (fits : frames * (mx.nslots * mx.numSdoPins) < 2 ^ 30)
    (le : count ≤ frames) (starts : ∀ k < count, k * (mx.nslots * mx.numSdoPins) ≤ 32767)
    (last : count = frames ∨ 32767 < count * (mx.nslots * mx.numSdoPins)) :
    ∀ {fuel k : Nat}, k ≤ count → count < fuel + k →
      mx.reconstituteLoop (SAMPLE_SIZE * (frames * (mx.nslots * mx.numSdoPins))) fuel
        (int16 ((k * (mx.nslots * mx.numSdoPins) : Nat) : Int))
        (interleaved mx.sdoChmap (mx.nslots * mx.numSdoPins) k ptr) =
        some (interleaved mx.sdoChmap (mx.nslots * mx.numSdoPins) count ptr) := by
  have half : ((SAMPLE_SIZE * (frames * (mx.nslots * mx.numSdoPins)) : Nat) : Int) / SAMPLE_SIZE =
      ((frames * (mx.nslots * mx.numSdoPins) : Nat) : Int) := by
    unfold SAMPLE_SIZE
    omega
  intro fuel
  induction fuel with
  | zero =>
    intro k below enough
    omega
  | succ fuel ih =>
    intro k below enough
    unfold Mx.reconstituteLoop
    rw [half]
    rcases Nat.lt_or_eq_of_le below with inside | ended
    · have room : k * (mx.nslots * mx.numSdoPins) < frames * (mx.nslots * mx.numSdoPins) :=
        Nat.mul_lt_mul_of_pos_right (Nat.lt_of_lt_of_le inside le) pos
      have start := starts k inside
      have index : int16 ((k * (mx.nslots * mx.numSdoPins) : Nat) : Int) =
          ((k * (mx.nslots * mx.numSdoPins) : Nat) : Int) := int16_of_le (by omega) (by omega)
      rw [index, if_pos (by omega), Int.toNat_natCast]
      obtain ⟨gathered, found, words⟩ : ∃ gathered,
          gather (interleaved mx.sdoChmap (mx.nslots * mx.numSdoPins) k ptr) mx.sdoChmap
            (mx.nslots * mx.numSdoPins) (k * (mx.nslots * mx.numSdoPins)) (2 ^ 16)
            ((0 : Nat) : Int) (fun _ => 0) = some gathered ∧
          ∀ j < mx.nslots * mx.numSdoPins, gathered j = if 0 ≤ j then
            interleaved mx.sdoChmap (mx.nslots * mx.numSdoPins) k ptr
              (k * (mx.nslots * mx.numSdoPins) + mx.sdoChmap j) else 0 :=
        gather_eq small (Nat.zero_le _) (by omega)
      have next : ((k * (mx.nslots * mx.numSdoPins) : Nat) : Int) +
          ((mx.nslots * mx.numSdoPins : Nat) : Int) =
          (((k + 1) * (mx.nslots * mx.numSdoPins) : Nat) : Int) := by
        rw [Nat.succ_mul]
        rfl
      have words' : ∀ j < mx.nslots * mx.numSdoPins,
          gathered j = ptr (k * (mx.nslots * mx.numSdoPins) + mx.sdoChmap j) := by
        intro j inFrame
        rw [words j inFrame, if_pos (Nat.zero_le j)]
        exact if_neg (by omega)
      rw [Int.ofNat_zero] at found
      simp only [found, Option.bind_eq_bind, Option.bind_some, next,
        interleaved_succ mx.sdoChmap words']
      exact ih inside (by omega)
    · have small' : count * (mx.nslots * mx.numSdoPins) < 65536 := by
        cases count with
        | zero => omega
        | succ c =>
          have start := starts c (Nat.lt_succ_self c)
          rw [Nat.succ_mul]
          omega
      rw [ended]
      exact if_neg (index_ends fits small' (last.imp_left fun all => by rw [all]))

/-- The number of frames that start before the word 32768 -/
def reached (frames frameSize : Nat) : Nat := min frames (32767 / frameSize + 1)

theorem reconstitute_eq (pos : 0 < mx.nslots * mx.numSdoPins)
    (small : mx.nslots * mx.numSdoPins ≤ 32767)
    (fits : frames * (mx.nslots * mx.numSdoPins) < 2 ^ 30) (ptr : Dma) :
    mx.reconstitute ptr (SAMPLE_SIZE * (frames * (mx.nslots * mx.numSdoPins))) =
      some (interleaved mx.sdoChmap (mx.nslots * mx.numSdoPins)
        (reached frames (mx.nslots * mx.numSdoPins)) ptr) := by
  have le : reached frames (mx.nslots * mx.numSdoPins) ≤ frames := Nat.min_le_left _ _
  have starts : ∀ k < reached frames (mx.nslots * mx.numSdoPins),
      k * (mx.nslots * mx.numSdoPins) ≤ 32767 := by
    intro k below
    have quot := Nat.lt_succ_iff.mp (Nat.lt_of_lt_of_le below (Nat.min_le_right _ _))
    exact (Nat.le_div_iff_mul_le pos).mp quot
  have last : reached frames (mx.nslots * mx.numSdoPins) = frames ∨
      32767 < reached frames (mx.nslots * mx.numSdoPins) * (mx.nslots * mx.numSdoPins) := by
    rcases Nat.le_total frames (32767 / (mx.nslots * mx.numSdoPins) + 1) with all | some
    · exact .inl (Nat.min_eq_left all)
    · refine .inr ?_
      unfold reached
      rw [Nat.min_eq_right some]
      exact Nat.lt_mul_of_div_lt (Nat.lt_succ_self _) pos
  have enough : frames ≤ SAMPLE_SIZE * (frames * (mx.nslots * mx.numSdoPins)) := by
    have room := Nat.le_mul_of_pos_right frames pos
    unfold SAMPLE_SIZE
    omega
  have started : interleaved mx.sdoChmap (mx.nslots * mx.numSdoPins) 0 ptr = ptr :=
    funext fun x => if_neg (by omega)
  have run : mx.reconstituteLoop (SAMPLE_SIZE * (frames * (mx.nslots * mx.numSdoPins)))
      (SAMPLE_SIZE * (frames * (mx.nslots * mx.numSdoPins)) + 1)
      (int16 ((0 * (mx.nslots * mx.numSdoPins) : Nat) : Int))
      (interleaved mx.sdoChmap (mx.nslots * mx.numSdoPins) 0 ptr) = _ :=
    reconstituteLoop_eq pos small fits le starts last (Nat.zero_le _) (by omega)
  rw [started, Nat.zero_mul] at run
  exact run

theorem reconstitute_none (large : 32767 < mx.nslots * mx.numSdoPins) (some : 0 < frames)
    (fits : frames * (mx.nslots * mx.numSdoPins) < 2 ^ 30) (ptr : Dma) :
    mx.reconstitute ptr (SAMPLE_SIZE * (frames * (mx.nslots * mx.numSdoPins))) = none := by
  have room : 0 < frames * (mx.nslots * mx.numSdoPins) := Nat.mul_pos some (by omega)
  unfold Mx.reconstitute Mx.reconstituteLoop
  rw [if_pos (by unfold SAMPLE_SIZE; omega)]
  have stuck : gather ptr mx.sdoChmap (mx.nslots * mx.numSdoPins) (0 : Int).toNat (2 ^ 16)
      ((0 : Nat) : Int) (fun _ => 0) = none := gather_none large (Nat.zero_le _)
  rw [Int.ofNat_zero] at stuck
  simp only [stuck, Option.bind_eq_bind, Option.bind_none]

end Loop

end Mx6xBsp.Deva.Playback
