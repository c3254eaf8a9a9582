import Mathlib.Algebra.BigOperators.Group.Finset.Basic
import Mathlib.Algebra.Order.BigOperators.Group.Finset
import Mx6xBsp.Flash.Words
import Mx6xBsp.Lib.Loops

/-!
# Polling interleaved AMD devices

`amd_poll` reads the status of all devices in pairs until `DQ6` toggles on none of them, and
then `DQ7` until it shows the data. It reports an error when every device that toggles shows
`DQ5`, or when every such device shows `DQ1`. `poll_iff` has the timelines on which that is
right: the devices that fail must have one of the two bits in common.
-/

namespace Mx6xBsp.Flash

open Loops

/-! ## The devices -/

/-- The member of the union `intunion_t` that is as wide as the bus -/
def Flashcfg.member (cfg : Flashcfg) (value : BitVec 64) : BitVec 64 :=
  (value.setWidth (8 * cfg.busWidth)).setWidth 64

theorem Flashcfg.dq_member {cfg : Flashcfg} {n i : Nat} (bit : n < 8) (inside : i < cfg.chipInter)
    {value : BitVec 64} : cfg.dq n (cfg.member value) i = cfg.dq n value i := by
  have place := Flashcfg.dq_lt bit inside
  have width := cfg.deviceWidth_pos
  have lane : cfg.deviceWidth * (i + 1) ≤ cfg.busWidth := Nat.mul_le_mul_left _ inside
  have within : 8 * cfg.deviceWidth * i + n < 8 * cfg.busWidth := by
    rw [Nat.mul_succ] at lane
    rw [Nat.mul_assoc]
    omega
  unfold dq member
  rw [BitVec.getLsbD_setWidth, BitVec.getLsbD_setWidth, decide_eq_true place,
    decide_eq_true within, Bool.true_and, Bool.true_and]

namespace Poll

/-- A device ends its operation done, or failed with `DQ5` and `DQ1` as they are. -/
inductive Ending
  | done
  | failed (q5 q1 : Bool)
  deriving DecidableEq

/-- What the reads show while `value` is programmed. For some reads a device is `busy`: `DQ6`
toggles, `DQ7` is inverted and no error shows. When it is done, `DQ6` stands still and `DQ7`
shows the data, and when it has failed it goes on toggling. -/
structure Timeline (cfg : Flashcfg) (value : BitVec 64) (dq1 : Bool) where
  word : Nat → BitVec 64
  busy : Nat → Nat
  ending : Nat → Ending
  toggles : ∀ i < cfg.chipInter, ∀ k, k + 1 < busy i ∨ ending i ≠ .done →
    cfg.dq 6 (word k) i ≠ cfg.dq 6 (word (k + 1)) i
  inverted : ∀ i < cfg.chipInter, ∀ k, k < busy i ∨ ending i ≠ .done →
    cfg.dq 7 (word k) i ≠ cfg.dq 7 value i
  waits : ∀ i < cfg.chipInter, ∀ k < busy i,
    cfg.dq 5 (word k) i = false ∧ (dq1 = true → cfg.dq 1 (word k) i = false)
  shows : ∀ i < cfg.chipInter, ending i = .done → ∀ k, busy i ≤ k →
    cfg.dq 6 (word k) i = cfg.dq 6 (word (k + 1)) i ∧ cfg.dq 7 (word k) i = cfg.dq 7 value i
  fails : ∀ i < cfg.chipInter, ∀ q5 q1, ending i = .failed q5 q1 →
    (q5 = true ∨ dq1 = true ∧ q1 = true) ∧
      ∀ k, busy i ≤ k → cfg.dq 5 (word k) i = q5 ∧ cfg.dq 1 (word k) i = q1

/-! ## `amd_poll` -/

/-- The poll count, which may be unlimited -/
inductive Count
  | unlimited
  | limited (loops : BitVec 32)

/-- `--loops`, or nothing when the count is used up -/
def Count.next : Count → Option Count
  | .unlimited => some .unlimited
  | .limited loops => if loops - 1 = 0 then none else some (.limited (loops - 1))

/-- The two loops -/
inductive Phase
  | dq6
  | dq7
  deriving DecidableEq

/-- The loop that runs, the reads so far and the count -/
structure Polling where
  phase : Phase
  reads : Nat
  loops : Count

/-- What `amd_poll` returns, and the reads it took -/
abbrev Returned := Int × Nat

section Callout

variable {cfg : Flashcfg} {value : BitVec 64} {dq1 : Bool} (line : Timeline cfg value dq1)

/-- The second pair of reads, after one in which all of the devices that toggle show an error -/
def pollAgain (mask : BitVec 64) (reads : Nat) (loops : Count) : Pass Polling Returned :=
  if (line.word reads ^^^ line.word (reads + 1)) &&& mask ≠ 0 then .leave (-1, reads + 2)
  else .next ⟨.dq6, reads + 2, loops⟩

/-- A pass of the `DQ6` loop -/
def dq6Pass (reads : Nat) (loops : Count) : Pass Polling Returned :=
  let status0 := line.word reads
  let status1 := line.word (reads + 1)
  let toggle := (status0 ^^^ status1) &&& cfg.mask 6
  if toggle = 0 then .next ⟨.dq7, reads + 2, loops⟩
  else if (status0 &&& (toggle >>> 1)) <<< 1 = toggle then
    pollAgain line ((status0 &&& (toggle >>> 1)) <<< 1) (reads + 2) loops
  else if dq1 = true ∧ (status0 &&& (toggle >>> 5)) <<< 5 = toggle then
    pollAgain line ((status0 &&& (toggle >>> 5)) <<< 5) (reads + 2) loops
  else .next ⟨.dq6, reads + 2, loops⟩

/-- The second read, after one in which a device that is not done shows an error -/
def peek (reads : Nat) (loops : Count) : Pass Polling Returned :=
  if (line.word reads &&& cfg.mask 7) ^^^ (cfg.member value &&& cfg.mask 7) ≠ 0 then
    .leave (-1, reads + 1)
  else .next ⟨.dq7, reads + 1, loops⟩

/-- A pass of the `DQ7` loop -/
def dq7Pass (reads : Nat) (loops : Count) : Pass Polling Returned :=
  let status := line.word reads
  let check := (status ^^^ (cfg.member value &&& cfg.mask 7)) &&& cfg.mask 7
  if check = 0 then .leave (0, reads + 1)
  else if status &&& (check >>> 2) = check >>> 2 then peek line (reads + 1) loops
  else if dq1 = true ∧ status &&& (check >>> 6) ≠ 0 then peek line (reads + 1) loops
  else .next ⟨.dq7, reads + 1, loops⟩

/-- A pass of `amd_poll`, which returns with an error when the count is used up -/
def pass (st : Polling) : Pass Polling Returned :=
  match st.loops.next, st.phase with
  | none, _ => .leave (-1, st.reads)
  | some loops, .dq6 => dq6Pass line st.reads loops
  | some loops, .dq7 => dq7Pass line st.reads loops

/-- `amd_poll` with the count `loops` returns. -/
def Returns (loops : Count) (returned : Returned) : Prop :=
  Ends (pass line) ⟨.dq6, 0, loops⟩ returned

end Callout

/-! ## What is to hold -/

section Spec

variable {cfg : Flashcfg} {value : BitVec 64} {dq1 : Bool} (line : Timeline cfg value dq1)

def Timeline.Done : Prop := ∀ i < cfg.chipInter, line.ending i = .done

/-- Some device has failed before the read `k`. -/
def Timeline.FailedBefore (k : Nat) : Prop :=
  ∃ i < cfg.chipInter, line.ending i ≠ .done ∧ line.busy i < k

/-- With an unlimited count `amd_poll` returns 0 exactly when all devices end done, and -1 exactly
when one fails, and then not before that one has failed. -/
structure Right : Prop where
  done : (∃ k, Returns line .unlimited (0, k)) ↔ line.Done
  failed : (∃ k, Returns line .unlimited (-1, k)) ↔ ∃ i < cfg.chipInter, line.ending i ≠ .done
  errs : ∀ k, Returns line .unlimited (-1, k) → line.FailedBefore k

/-- The devices that fail all show `DQ5`, or they all show `DQ1`, which counts only with `dq1`. -/
def Timeline.Alike : Prop :=
  (∀ i < cfg.chipInter, ∀ q5 q1, line.ending i = .failed q5 q1 → q5 = true) ∨
    dq1 = true ∧ ∀ i < cfg.chipInter, ∀ q5 q1, line.ending i = .failed q5 q1 → q1 = true

end Spec

/-! ## Status bits of a pair of reads -/

section Pairs

variable {cfg : Flashcfg}

theorem dq_toggle {n i : Nat} (bit : n < 8) (inside : i < cfg.chipInter)
    (first second : BitVec 64) :
    cfg.dq n ((first ^^^ second) &&& cfg.mask n) i = true ↔
      cfg.dq n first i ≠ cfg.dq n second i := by
  have lane := Flashcfg.dq_mask bit inside
  unfold Flashcfg.dq at lane ⊢
  rw [BitVec.getLsbD_and, BitVec.getLsbD_xor, lane, Bool.and_true]
  exact bne_iff_ne

/-- The test whether a status bit below `DQ6` is set on all devices that toggle -/
theorem shifted_eq_iff {d : Nat} (small : d ≤ 6) (status first second : BitVec 64) :
    let toggle := (first ^^^ second) &&& cfg.mask 6
    (status &&& (toggle >>> d)) <<< d = toggle ↔
      ∀ i < cfg.chipInter, cfg.dq 6 first i ≠ cfg.dq 6 second i →
        cfg.dq (6 - d) status i = true := by
  intro toggle
  have moved : ∀ j, d ≤ j → j < 64 → ((status &&& (toggle >>> d)) <<< d).getLsbD j =
      (status.getLsbD (j - d) && toggle.getLsbD j) := by
    intro j above inside
    rw [BitVec.getLsbD_shiftLeft, BitVec.getLsbD_and, BitVec.getLsbD_ushiftRight,
      decide_eq_true inside, decide_eq_false (Nat.not_lt.mpr above), Nat.add_sub_cancel' above]
    rfl
  constructor
  · intro same i inside differs
    have place := @Flashcfg.dq_lt cfg 6 _ (by decide) inside
    have set := (dq_toggle (by decide) inside first second).mpr differs
    have bit := moved (8 * cfg.deviceWidth * i + 6) (by omega) place
    rw [same, show toggle.getLsbD _ = true from set, Bool.and_true] at bit
    unfold Flashcfg.dq
    rw [← Nat.add_sub_assoc small]
    exact bit.symm
  · intro shows
    refine BitVec.eq_of_getLsbD_eq fun j inside => ?_
    cases set : toggle.getLsbD j with
    | false =>
      rcases Nat.lt_or_ge j d with below | above
      · rw [BitVec.getLsbD_shiftLeft, decide_eq_true below, Bool.not_true, Bool.and_false,
          Bool.false_and]
      · rw [moved j above inside, set, Bool.and_false]
    | true =>
      have lane : (cfg.mask 6).getLsbD j = true := by
        have both := set
        rw [BitVec.getLsbD_and, Bool.and_eq_true] at both
        exact both.2
      obtain ⟨i, device, rfl⟩ := (Flashcfg.mask_bit (by decide)).mp lane
      have shown := shows i device ((dq_toggle (by decide) device first second).mp set)
      rw [moved _ (by omega) inside, set, Bool.and_true, Nat.add_sub_assoc small]
      exact shown

end Pairs

/-! ## What a pass does -/

section Passes

variable {cfg : Flashcfg} {value : BitVec 64} {dq1 : Bool} {line : Timeline cfg value dq1}

/-- No device toggles between the reads `k` and `k + 1`. -/
def Timeline.Still (line : Timeline cfg value dq1) (k : Nat) : Prop :=
  ∀ i < cfg.chipInter, cfg.dq 6 (line.word k) i = cfg.dq 6 (line.word (k + 1)) i

/-- All devices that toggle between the reads `k` and `k + 1` show the bit `n` in the first. -/
def Timeline.Erring (line : Timeline cfg value dq1) (n k : Nat) : Prop :=
  ∀ i < cfg.chipInter, cfg.dq 6 (line.word k) i ≠ cfg.dq 6 (line.word (k + 1)) i →
    cfg.dq n (line.word k) i = true

theorem Timeline.done_of_still {k : Nat} (still : line.Still k) :
    line.Done ∧ ∀ i < cfg.chipInter, line.busy i ≤ k + 1 := by
  constructor
  · intro i inside
    by_contra failed
    exact line.toggles i inside k (.inr failed) (still i inside)
  · intro i inside
    by_contra late
    exact line.toggles i inside k (.inl (Nat.lt_of_not_le late)) (still i inside)

theorem Timeline.still_of_done {k : Nat} (done : line.Done)
    (past : ∀ i < cfg.chipInter, line.busy i ≤ k) : line.Still k :=
  fun i inside => (line.shows i inside (done i inside) k (past i inside)).1

theorem Timeline.exists_failed {n k : Nat} (moves : ¬line.Still k) (erring : line.Erring n k)
    (shown : ∀ i < cfg.chipInter, k < line.busy i → cfg.dq n (line.word k) i = false) :
    ∃ i < cfg.chipInter, cfg.dq 6 (line.word k) i ≠ cfg.dq 6 (line.word (k + 1)) i ∧
      line.ending i ≠ .done ∧ line.busy i ≤ k := by
  obtain ⟨i, inside, differs⟩ := not_forall₂.mp moves
  have late : line.busy i ≤ k := by
    by_contra early
    have clear := shown i inside (Nat.lt_of_not_le early)
    exact absurd (clear.symm.trans (erring i inside differs)) Bool.false_ne_true
  refine ⟨i, inside, differs, fun done => ?_, late⟩
  exact differs (line.shows i inside done k late).1

theorem erring_iff {k d : Nat} (small : d ≤ 6) :
    (line.word k &&& (((line.word k ^^^ line.word (k + 1)) &&& cfg.mask 6) >>> d)) <<< d =
        (line.word k ^^^ line.word (k + 1)) &&& cfg.mask 6 ↔
      line.Erring (6 - d) k := shifted_eq_iff small _ _ _

theorem still_iff {k : Nat} :
    (line.word k ^^^ line.word (k + 1)) &&& cfg.mask 6 = 0 ↔ line.Still k :=
  Flashcfg.toggle_eq_zero (by decide)

/-- Some device errs, in one of the two ways that count. -/
def Timeline.Errs (line : Timeline cfg value dq1) (k : Nat) : Prop :=
  line.Erring 5 k ∨ dq1 = true ∧ line.Erring 1 k

theorem Timeline.Errs.failed {k : Nat} (errs : line.Errs k) (moves : ¬line.Still k) :
    line.FailedBefore (k + 4) := by
  have found : ∃ i < cfg.chipInter, cfg.dq 6 (line.word k) i ≠ cfg.dq 6 (line.word (k + 1)) i ∧
      line.ending i ≠ .done ∧ line.busy i ≤ k := by
    rcases errs with five | ⟨counts, one⟩
    · exact line.exists_failed moves five fun i inside early => (line.waits i inside k early).1
    · exact line.exists_failed moves one fun i inside early =>
        (line.waits i inside k early).2 counts
  obtain ⟨i, inside, _, failed, late⟩ := found
  exact ⟨i, inside, failed, by omega⟩

theorem pollAgain_leaves {k d : Nat} {loops : Count} (small : d ≤ 6) (moves : ¬line.Still k)
    (erring : line.Erring (6 - d) k)
    (shown : ∀ i < cfg.chipInter, k < line.busy i → cfg.dq (6 - d) (line.word k) i = false) :
    let toggle := (line.word k ^^^ line.word (k + 1)) &&& cfg.mask 6
    pollAgain line ((line.word k &&& (toggle >>> d)) <<< d) (k + 2) loops =
      .leave (-1, k + 4) := by
  intro toggle
  rw [(shifted_eq_iff small (line.word k) _ _).mpr erring]
  obtain ⟨i, inside, differs, failed, _⟩ := line.exists_failed moves erring shown
  have first := (dq_toggle (by decide) inside _ _).mpr differs
  have second := (dq_toggle (by decide) inside _ _).mpr
    (line.toggles i inside (k + 2) (.inr failed))
  unfold pollAgain
  refine if_pos fun none => ?_
  have bit := congrArg (fun word => cfg.dq 6 word i) none
  unfold Flashcfg.dq at bit first second
  rw [BitVec.getLsbD_and, Bool.and_eq_true] at second
  rw [BitVec.getLsbD_and, first, second.1] at bit
  cases bit.trans BitVec.getLsbD_zero

theorem dq6Pass_still {k : Nat} {loops : Count} (still : line.Still k) :
    dq6Pass line k loops = .next ⟨.dq7, k + 2, loops⟩ := by
  unfold dq6Pass
  exact if_pos (still_iff.mpr still)

theorem dq6Pass_errs {k : Nat} {loops : Count} (moves : ¬line.Still k) (errs : line.Errs k) :
    dq6Pass line k loops = .leave (-1, k + 4) := by
  unfold dq6Pass
  dsimp only
  rw [if_neg (still_iff.not.mpr moves)]
  by_cases five : line.Erring 5 k
  · rw [if_pos ((erring_iff (by decide)).mpr five)]
    exact pollAgain_leaves (by decide) moves five fun i inside early =>
      (line.waits i inside k early).1
  · obtain ⟨counts, one⟩ := errs.resolve_left five
    rw [if_neg ((erring_iff (by decide)).not.mpr five),
      if_pos ⟨counts, (erring_iff (by decide)).mpr one⟩]
    exact pollAgain_leaves (by decide) moves one fun i inside early =>
      (line.waits i inside k early).2 counts

theorem dq6Pass_waits {k : Nat} {loops : Count} (moves : ¬line.Still k) (waits : ¬line.Errs k) :
    dq6Pass line k loops = .next ⟨.dq6, k + 2, loops⟩ := by
  obtain ⟨five, one⟩ := not_or.mp waits
  unfold dq6Pass
  dsimp only
  rw [if_neg (still_iff.not.mpr moves), if_neg ((erring_iff (by decide)).not.mpr five),
    if_neg ((and_congr_right' (erring_iff (by decide))).not.mpr one)]

/-- With all devices done the `DQ7` loop ends with its first read. -/
theorem dq7Pass_done {k : Nat} {loops : Count} (done : line.Done)
    (past : ∀ i < cfg.chipInter, line.busy i ≤ k) : dq7Pass line k loops = .leave (0, k + 1) := by
  unfold dq7Pass
  refine if_pos ((Flashcfg.toggle_eq_zero (by decide)).mpr fun i inside => ?_)
  have shown := (line.shows i inside (done i inside) k (past i inside)).2
  have lane := @Flashcfg.dq_mask cfg 7 _ (by decide) inside
  rw [shown, ← Flashcfg.dq_member (by decide) inside]
  unfold Flashcfg.dq at lane ⊢
  rw [BitVec.getLsbD_and, lane, Bool.and_true]

/-! ## Runs -/

/-- In the `DQ7` loop all devices are done. -/
structure Started (line : Timeline cfg value dq1) (st : Polling) : Prop where
  unlimited : st.loops = .unlimited
  past : st.phase = .dq7 → line.Done ∧ ∀ i < cfg.chipInter, line.busy i ≤ st.reads

theorem pass_dq6 {k : Nat} : pass line ⟨.dq6, k, .unlimited⟩ = dq6Pass line k .unlimited := rfl

theorem Started.cases {st : Polling} (started : Started line st) :
    (∃ k, st = ⟨.dq6, k, .unlimited⟩) ∨ ∃ k, st = ⟨.dq7, k, .unlimited⟩ ∧ line.Done ∧
      pass line st = .leave (0, k + 1) := by
  obtain ⟨phase, reads, loops⟩ := st
  obtain rfl : loops = .unlimited := started.unlimited
  cases phase with
  | dq6 => exact .inl ⟨reads, rfl⟩
  | dq7 =>
    obtain ⟨done, past⟩ := started.past rfl
    exact .inr ⟨reads, rfl, done, dq7Pass_done done past⟩

theorem Started.next {st st' : Polling} (started : Started line st)
    (here : pass line st = .next st') : Started line st' := by
  rcases started.cases with ⟨k, rfl⟩ | ⟨_, rfl, _, leaves⟩
  · rw [pass_dq6] at here
    by_cases still : line.Still k
    · rw [dq6Pass_still still] at here
      cases here
      have ⟨done, past⟩ := line.done_of_still still
      exact ⟨rfl, fun _ => ⟨done, fun i inside => Nat.le_succ_of_le (past i inside)⟩⟩
    · by_cases errs : line.Errs k
      · rw [dq6Pass_errs still errs] at here
        cases here
      · rw [dq6Pass_waits still errs] at here
        cases here
        exact ⟨rfl, fun same => by cases same⟩
  · cases leaves.symm.trans here

theorem Started.leave {st : Polling} {returned : Returned} (started : Started line st)
    (here : pass line st = .leave returned) :
    returned.1 = 0 ∧ line.Done ∨ returned.1 = -1 ∧ line.FailedBefore returned.2 := by
  rcases started.cases with ⟨k, rfl⟩ | ⟨_, rfl, done, leaves⟩
  · rw [pass_dq6] at here
    by_cases still : line.Still k
    · rw [dq6Pass_still still] at here
      cases here
    · by_cases errs : line.Errs k
      · rw [dq6Pass_errs still errs] at here
        cases here
        exact .inr ⟨rfl, errs.failed still⟩
      · rw [dq6Pass_waits still errs] at here
        cases here
  · cases leaves.symm.trans here
    exact .inl ⟨rfl, done⟩

theorem started : Started line ⟨.dq6, 0, .unlimited⟩ := ⟨rfl, fun same => by cases same⟩

/-- What `amd_poll` returns is never wrong. -/
theorem Returns.sound {returned : Returned} (returns : Returns line .unlimited returned) :
    returned.1 = 0 ∧ line.Done ∨ returned.1 = -1 ∧ line.FailedBefore returned.2 := by
  obtain ⟨st, started, leaves⟩ := returns.leaves started Started.next
  exact started.leave leaves

theorem Returns.done {k : Nat} (zero : Returns line .unlimited (0, k)) : line.Done := by
  rcases zero.sound with ⟨_, done⟩ | ⟨error, _⟩
  · exact done
  · cases error

theorem Returns.failed {k : Nat} (error : Returns line .unlimited (-1, k)) :
    line.FailedBefore k := by
  rcases error.sound with ⟨zero, _⟩ | ⟨_, failed⟩
  · cases zero
  · exact failed

theorem exists_past (line : Timeline cfg value dq1) :
    ∃ bound, ∀ i < cfg.chipInter, line.busy i ≤ bound := by
  refine ⟨∑ i ∈ Finset.range cfg.chipInter, line.busy i, fun i inside => ?_⟩
  exact Finset.single_le_sum (f := line.busy) (fun _ _ => Nat.zero_le _)
    (Finset.mem_range.mpr inside)

theorem Timeline.Alike.errs {k : Nat} (alike : line.Alike)
    (past : ∀ i < cfg.chipInter, line.busy i ≤ k) : line.Errs k := by
  have failed : ∀ i < cfg.chipInter, cfg.dq 6 (line.word k) i ≠ cfg.dq 6 (line.word (k + 1)) i →
      ∃ q5 q1, line.ending i = .failed q5 q1 := by
    intro i inside differs
    cases ending : line.ending i with
    | done => exact absurd (line.shows i inside ending k (past i inside)).1 differs
    | failed q5 q1 => exact ⟨q5, q1, rfl⟩
  rcases alike with five | ⟨counts, one⟩
  · refine .inl fun i inside differs => ?_
    obtain ⟨q5, q1, ending⟩ := failed i inside differs
    rw [((line.fails i inside q5 q1 ending).2 k (past i inside)).1]
    exact five i inside q5 q1 ending
  · refine .inr ⟨counts, fun i inside differs => ?_⟩
    obtain ⟨q5, q1, ending⟩ := failed i inside differs
    rw [((line.fails i inside q5 q1 ending).2 k (past i inside)).2]
    exact one i inside q5 q1 ending

/-- and `amd_poll` returns. -/
theorem exists_returns (alike : line.Alike) : ∃ returned, Returns line .unlimited returned := by
  obtain ⟨bound, past⟩ := exists_past line
  have falls : ∀ {st st' : Polling}, Started line st → pass line st = .next st' →
      Started line st' ∧
        (if st'.phase = .dq6 then bound + 1 - st'.reads + 1 else 0) <
          if st.phase = .dq6 then bound + 1 - st.reads + 1 else 0 := by
    intro st st' started here
    refine ⟨started.next here, ?_⟩
    rcases started.cases with ⟨k, rfl⟩ | ⟨_, rfl, _, leaves⟩
    · rw [pass_dq6] at here
      by_cases still : line.Still k
      · rw [dq6Pass_still still] at here
        cases here
        exact Nat.succ_pos _
      · by_cases errs : line.Errs k
        · rw [dq6Pass_errs still errs] at here
          cases here
        · rw [dq6Pass_waits still errs] at here
          cases here
          have early : k < bound := by
            by_contra late
            exact errs (alike.errs fun i inside => (past i inside).trans (Nat.le_of_not_lt late))
          rw [if_pos rfl, if_pos rfl]
          dsimp only
          omega
    · cases leaves.symm.trans here
  exact exists_ends _ started falls

theorem not_returns (unlike : ¬line.Alike) : ¬∃ returned, Returns line .unlimited returned := by
  obtain ⟨five, one⟩ := not_or.mp unlike
  have never : ∀ k, ¬line.Still k ∧ ¬line.Errs k := by
    intro k
    obtain ⟨i, inside, unset⟩ := not_forall₂.mp five
    obtain ⟨q5, unset⟩ := not_forall.mp unset
    obtain ⟨q1, unset⟩ := not_forall.mp unset
    obtain ⟨ending, without⟩ := Classical.not_imp.mp unset
    have failed : line.ending i ≠ .done := by
      rw [ending]
      exact Ending.noConfusion
    have moves := line.toggles i inside k (.inr failed)
    refine ⟨fun still => moves (still i inside), fun errs => ?_⟩
    rcases errs with five | ⟨counts, one'⟩
    · have shown := five i inside moves
      rcases Nat.lt_or_ge k (line.busy i) with early | late
      · exact Bool.false_ne_true ((line.waits i inside k early).1.symm.trans shown)
      · exact without (((line.fails i inside q5 q1 ending).2 k late).1.symm.trans shown)
    · obtain ⟨j, inside', unset'⟩ := not_forall₂.mp (not_and.mp one counts)
      obtain ⟨q5', unset'⟩ := not_forall.mp unset'
      obtain ⟨q1', unset'⟩ := not_forall.mp unset'
      obtain ⟨ending', without'⟩ := Classical.not_imp.mp unset'
      have failed' : line.ending j ≠ .done := by
        rw [ending']
        exact Ending.noConfusion
      have shown := one' j inside' (line.toggles j inside' k (.inr failed'))
      rcases Nat.lt_or_ge k (line.busy j) with early | late
      · exact Bool.false_ne_true (((line.waits j inside' k early).2 counts).symm.trans shown)
      · exact without' (((line.fails j inside' q5' q1' ending').2 k late).2.symm.trans shown)
  refine @not_ends _ _ _ _ (fun st => ∃ k, st = ⟨.dq6, k, .unlimited⟩) ⟨0, rfl⟩ fun at_ => ?_
  obtain ⟨k, rfl⟩ := at_
  obtain ⟨moves, waits⟩ := never k
  exact ⟨_, dq6Pass_waits moves waits, k + 2, rfl⟩

end Passes

/-! ## A count that runs out -/

section Limited

variable {cfg : Flashcfg} {value : BitVec 64} {dq1 : Bool}

/-- `amd_poll` with the count for the timeout of the chip, or `UINT32_MAX` -/
def amdPoll (line : Timeline cfg value dq1) (loops : BitVec 32) : Int :=
  match run (pass line) (2 ^ 32) ⟨.dq6, 0, .limited loops⟩ with
  | some returned => returned.1
  | none => -1

/-- All devices end done while the count lasts. -/
def Timeline.InTime (line : Timeline cfg value dq1) (loops : BitVec 32) : Prop :=
  line.Done ∧ ∀ i < cfg.chipInter, line.busy i + 6 ≤ 2 * loops.toNat

variable {line : Timeline cfg value dq1} {loops : BitVec 32}

theorem next_limited (some_ : 2 ≤ loops.toNat) :
    (Count.limited loops).next = some (.limited (loops - 1)) ∧
      (loops - 1).toNat = loops.toNat - 1 := by
  have less : (loops - 1).toNat = loops.toNat - 1 := by
    rw [BitVec.toNat_sub_of_le]
    · rfl
    · rw [BitVec.le_def]
      exact Nat.le_of_succ_le some_
  refine ⟨if_neg fun zero => ?_, less⟩
  rw [zero] at less
  have none : loops.toNat - 1 = 0 := less.symm
  omega

theorem run_dq7 {k fuel : Nat} (done : line.Done) (past : ∀ i < cfg.chipInter, line.busy i ≤ k)
    (some_ : 2 ≤ loops.toNat) :
    run (pass line) (fuel + 1) ⟨.dq7, k, .limited loops⟩ = some (0, k + 1) := by
  have here : pass line ⟨.dq7, k, .limited loops⟩ = .leave (0, k + 1) := by
    unfold pass
    rw [(next_limited some_).1]
    exact dq7Pass_done done past
  unfold run
  rw [here]

theorem run_in_time {n k : Nat} (done : line.Done)
    (past : ∀ i < cfg.chipInter, line.busy i ≤ k + 2 * n) (enough : n + 3 ≤ loops.toNat) :
    ∃ reads, run (pass line) (n + 2) ⟨.dq6, k, .limited loops⟩ = some (0, reads) := by
  induction n generalizing k loops with
  | zero =>
    obtain ⟨goes, less⟩ := next_limited (by omega : 2 ≤ loops.toNat)
    have here : pass line ⟨.dq6, k, .limited loops⟩ =
        .next ⟨.dq7, k + 2, .limited (loops - 1)⟩ := by
      unfold pass
      rw [goes]
      exact dq6Pass_still (line.still_of_done done past)
    refine ⟨k + 2 + 1, ?_⟩
    unfold run
    rw [here]
    exact run_dq7 done (fun i inside => Nat.le_add_right_of_le (past i inside)) (by omega)
  | succ n ih =>
    obtain ⟨goes, less⟩ := next_limited (by omega : 2 ≤ loops.toNat)
    by_cases still : line.Still k
    · have here : pass line ⟨.dq6, k, .limited loops⟩ =
          .next ⟨.dq7, k + 2, .limited (loops - 1)⟩ := by
        unfold pass
        rw [goes]
        exact dq6Pass_still still
      have ended := (line.done_of_still still).2
      refine ⟨k + 2 + 1, ?_⟩
      unfold run
      rw [here]
      exact run_dq7 done (fun i inside => Nat.le_succ_of_le (ended i inside)) (by omega)
    · have waits : ¬line.Errs k := by
        intro errs
        obtain ⟨i, inside, failed, _⟩ := errs.failed still
        exact failed (done i inside)
      have here : pass line ⟨.dq6, k, .limited loops⟩ =
          .next ⟨.dq6, k + 2, .limited (loops - 1)⟩ := by
        unfold pass
        rw [goes]
        exact dq6Pass_waits still waits
      have later : ∀ i < cfg.chipInter, line.busy i ≤ k + 2 + 2 * n := by
        intro i inside
        have bound := past i inside
        omega
      obtain ⟨reads, ends⟩ := ih later (by omega : n + 3 ≤ (loops - 1).toNat)
      refine ⟨reads, ?_⟩
      unfold run
      rw [here]
      exact ends

theorem amdPoll_in_time (intime : line.InTime loops) : amdPoll line loops = 0 := by
  obtain ⟨done, past⟩ := intime
  have room := past 0 Flashcfg.chipInter_pos
  have small := loops.isLt
  obtain ⟨reads, ends⟩ := @run_in_time _ _ _ line loops (loops.toNat - 3) 0 done
    (fun i inside => by have bound := past i inside; omega) (by omega)
  unfold amdPoll
  rw [run_mono (by omega : loops.toNat - 3 + 2 ≤ 2 ^ 32) ends]

end Limited

/-! ## When the polling is right -/

section Right

variable {cfg : Flashcfg} {value : BitVec 64} {dq1 : Bool} {line : Timeline cfg value dq1}

theorem Timeline.Alike.right (alike : line.Alike) : Right line := by
  obtain ⟨⟨status, k⟩, returns⟩ := exists_returns alike
  constructor
  · constructor
    · intro zero
      obtain ⟨k, zero⟩ := zero
      exact zero.done
    · intro done
      rcases returns.sound with ⟨rfl, _⟩ | ⟨_, i, inside, failed, _⟩
      · exact ⟨k, returns⟩
      · exact absurd (done i inside) failed
  · constructor
    · intro error
      obtain ⟨k, error⟩ := error
      obtain ⟨i, inside, failed, _⟩ := error.failed
      exact ⟨i, inside, failed⟩
    · intro found
      obtain ⟨i, inside, failed⟩ := found
      rcases returns.sound with ⟨_, done⟩ | ⟨rfl, _⟩
      · exact absurd (done i inside) failed
      · exact ⟨k, returns⟩
  · intro k error
    exact error.failed

/-- `amd_poll` is right exactly if the devices that fail all show `DQ5`, or all show `DQ1` where it
counts. -/
theorem poll_iff (line : Timeline cfg value dq1) : Right line ↔ line.Alike := by
  constructor
  · intro right
    by_contra unlike
    have failed : ∃ i < cfg.chipInter, line.ending i ≠ .done := by
      by_contra none
      refine unlike (.inl fun i inside q5 q1 ending => absurd ⟨i, inside, ?_⟩ none)
      rw [ending]
      exact Ending.noConfusion
    obtain ⟨k, error⟩ := right.failed.mpr failed
    exact not_returns unlike ⟨_, error⟩
  · exact Timeline.Alike.right

end Right

/-! ## A time-out and an aborted write buffer -/

/-- Two interleaved devices -/
def twoDevices : Flashcfg := ⟨1, 2, 0x0101, pair_supported⟩

/-- The first device shows `DQ5` from the first read, and the second one `DQ1`. -/
def mixedWord (k : Nat) : BitVec 64 := if k % 2 = 0 then 0x82a0 else 0xc2e0

theorem mixedWord_cases (k : Nat) :
    mixedWord k = 0x82a0 ∧ mixedWord (k + 1) = 0xc2e0 ∨
      mixedWord k = 0xc2e0 ∧ mixedWord (k + 1) = 0x82a0 := by
  unfold mixedWord
  rcases Nat.mod_two_eq_zero_or_one k with even | odd
  · have next : (k + 1) % 2 ≠ 0 := by omega
    exact .inl ⟨if_pos even, if_neg next⟩
  · have next : (k + 1) % 2 = 0 := by omega
    have here : k % 2 ≠ 0 := by omega
    exact .inr ⟨if_neg here, if_pos next⟩

def mixed : Timeline twoDevices 0 true where
  word := mixedWord
  busy _ := 0
  ending i := .failed (i = 0) (i ≠ 0)
  toggles i inside k _ := by
    have both : ∀ i < 2, twoDevices.dq 6 0x82a0 i ≠ twoDevices.dq 6 0xc2e0 i := by decide
    rcases mixedWord_cases k with ⟨here, next⟩ | ⟨here, next⟩
    · rw [here, next]
      exact both i inside
    · rw [here, next]
      exact (both i inside).symm
  inverted i inside k _ := by
    have both : ∀ i < 2, twoDevices.dq 7 0x82a0 i ≠ twoDevices.dq 7 0 i ∧
        twoDevices.dq 7 0xc2e0 i ≠ twoDevices.dq 7 0 i := by decide
    rcases mixedWord_cases k with ⟨here, _⟩ | ⟨here, _⟩
    · rw [here]
      exact (both i inside).1
    · rw [here]
      exact (both i inside).2
  waits i inside k early := absurd early (Nat.not_lt_zero k)
  shows i inside done := by cases done
  fails i inside q5 q1 ending := by
    cases ending
    have counts : ∀ i < 2, decide (i = 0) = true ∨ true = true ∧ decide (i ≠ 0) = true := by decide
    have even : ∀ i < 2, twoDevices.dq 5 0x82a0 i = decide (i = 0) ∧
        twoDevices.dq 1 0x82a0 i = decide (i ≠ 0) := by decide
    have odd : ∀ i < 2, twoDevices.dq 5 0xc2e0 i = decide (i = 0) ∧
        twoDevices.dq 1 0xc2e0 i = decide (i ≠ 0) := by decide
    refine ⟨counts i inside, fun k _ => ?_⟩
    rcases mixedWord_cases k with ⟨here, _⟩ | ⟨here, _⟩
    · rw [here]
      exact even i inside
    · rw [here]
      exact odd i inside

/-- Both devices fail, and with an unlimited count `amd_poll` does not return. -/
theorem poll_broken : (∀ i < twoDevices.chipInter, mixed.ending i ≠ .done) ∧
    (¬∃ returned, Returns mixed .unlimited returned) ∧ ¬Right mixed := by
  have unlike : ¬mixed.Alike := by
    intro alike
    rcases alike with five | ⟨_, one⟩
    · cases five 1 (by decide) _ _ rfl
    · cases one 0 (by decide) _ _ rfl
  have failed : ∀ i < twoDevices.chipInter, mixed.ending i ≠ .done := fun _ _ => Ending.noConfusion
  have never := not_returns unlike
  refine ⟨failed, never, fun right => ?_⟩
  obtain ⟨k, error⟩ := right.failed.mpr ⟨0, by decide, failed 0 (by decide)⟩
  exact never ⟨_, error⟩

end Poll

end Mx6xBsp.Flash
