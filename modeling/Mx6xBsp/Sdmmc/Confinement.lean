import Mathlib.Algebra.Order.Ring.Nat
import Mathlib.Tactic.Ring
import Mx6xBsp.Sdmmc.Partitions

/-!
# Requests that stay in their partition

What each request touches, and when this is inside the partition. WRITE SAME does
not look where the partition ends. The others do, but the base `slba` is added to the
block address without a look at the carry, so a large address comes out before the
partition; the end of a write protect request is not rounded up to whole groups; and
an erase group below 512 bytes is divided by as it is.
-/

namespace Mx6xBsp.Sdmmc

open Plans

/-! ## The card -/

section Card

variable {c : Card}

theorem Card.run_append (s : CardState) (cmds more : List CardCmd) :
    c.run s (cmds ++ more) = c.run (c.run s cmds) more := List.foldl_append

theorem Card.exec_touched (s : CardState) (cmd : CardCmd) :
    s.touched ⊆ (c.exec s cmd).touched := by
  cases cmd with
  | switchPartition config => exact List.Subset.refl _
  | switchUserWp => exact List.Subset.refl _
  | switchBootWp mode => exact List.subset_append_left _ _
  | tagStart arg => exact List.Subset.refl _
  | tagEnd arg => exact List.Subset.refl _
  | erase flgs => exact List.subset_append_left _ _
  | setWriteProt arg => exact List.subset_append_left _ _
  | clrWriteProt arg => exact List.subset_append_left _ _
  | sendWriteProt arg => exact List.Subset.refl _
  | sendStatus => exact List.Subset.refl _

theorem Card.run_touched (s : CardState) (cmds : List CardCmd) :
    s.touched ⊆ (c.run s cmds).touched := by
  induction cmds generalizing s with
  | nil => exact List.Subset.refl _
  | cons cmd cmds ih => exact List.Subset.trans (c.exec_touched s cmd) (ih _)

theorem Card.run_take_touched (s : CardState) (cmds : List CardCmd) (k : Nat) :
    (c.run s (cmds.take k)).touched ⊆ (c.run s cmds).touched := by
  have later := c.run_touched (c.run s (cmds.take k)) (cmds.drop k)
  rw [← Card.run_append, List.take_append_drop] at later
  exact later

end Card

/-- Every block of the extent is one of the partition. -/
def Lun.Holds {c : Card} (p : Lun c) (e : Extent) : Prop :=
  ∀ b, e.lo ≤ b → b < e.hi → e.part = p.config % 8 ∧ p.slba ≤ b ∧ b < p.slba + p.nlba

section Confined

variable {c : Card} {p : Lun c}

/-- A plan that does not crash and, if no command fails, touches nothing outside. -/
def Lun.Keeps (p : Lun c) (plan : CardPlan) : Prop :=
  plan.result ≠ none ∧ ∀ e ∈ (c.run p.card plan.cmds).touched, p.Holds e

theorem Request.confined_iff (req : Request) : req.Confined p ↔ p.Keeps (req.plan p) := by
  apply Plan.safe_iff
  intro cmds k inside e touched
  exact inside e (c.run_take_touched p.card cmds k touched)

theorem Lun.keeps_reject (e : EraseError) : p.Keeps (.reject e) := ⟨nofun, nofun⟩

theorem Lun.keeps_guarded {capable : Bool} {plan : CardPlan} {e : EraseError} {fits : Prop}
    (keeps : p.Keeps plan ↔ fits) :
    p.Keeps (if capable then plan else .reject e) ↔ (capable = true → fits) := by
  cases capable with
  | true => exact keeps.trans ⟨fun fits _ => fits, fun fits => fits rfl⟩
  | false => exact iff_of_true (p.keeps_reject e) nofun

theorem Lun.not_keeps_crash : ¬p.Keeps .crash := fun keeps => keeps.1 rfl

theorem Lun.holds_iff {e : Extent} (nonempty : e.lo < e.hi) :
    p.Holds e ↔ e.part = p.config % 8 ∧ p.slba ≤ e.lo ∧ e.hi ≤ p.slba + p.nlba := by
  constructor
  · intro holds
    have low := holds e.lo (Nat.le_refl _) nonempty
    have high := holds (e.hi - 1) (by omega) (by omega)
    exact ⟨low.1, low.2.1, by omega⟩
  · intro ⟨part, low, high⟩ b above below
    exact ⟨part, by omega, by omega⟩

end Confined

/-! ## Erasing -/

section Erase

variable {c : Card}

/-- `mmc_erase_timeout` is called, and divides by zero. -/
def Card.Divides (c : Card) : Prop := c.kind ≠ .sd ∧ c.egs = 0

theorem Card.divides_iff_of_trim (trim : c.trim = true) : c.Divides ↔ c.egs = 0 := by
  unfold Card.trim at trim
  constructor
  · exact And.right
  · intro zero
    refine ⟨fun sd => ?_, zero⟩
    rw [sd] at trim
    cases trim

/-- What an erase of a range touches. -/
def Card.eraseExtents (c : Card) (config : Nat) (flgs : EraseArg) (lba nlba : Nat) : List Extent :=
  if nlba % 2 ^ 32 = 0 then []
  else c.erased flgs
    ⟨config, c.block (addrOf c lba), c.block (addrOf c (endLba lba (int32 nlba))), []⟩

theorem int32_eq_zero {n : Nat} : int32 n = 0 ↔ n % 2 ^ 32 = 0 := by
  unfold int32
  split <;> omega

/-- After `mmc_set_partition` the partition is selected. -/
theorem mmcSetPartition_andThen (pactive config : Nat) (q : CardPlan) :
    ((mmcSetPartition pactive config).andThen q).result = q.result ∧
      ∀ s : CardState, s.pactive = pactive →
        c.run s ((mmcSetPartition pactive config).andThen q).cmds =
          c.run { s with pactive := config } q.cmds := by
  unfold mmcSetPartition
  split
  · next same =>
    refine ⟨rfl, fun s active => ?_⟩
    rw [← same, ← active]
    rfl
  · exact ⟨rfl, fun s _ => rfl⟩

variable {pactive config : Nat} {flgs : EraseArg} {lba nlba : Nat}

theorem sdioErase_crashes (count : nlba % 2 ^ 32 ≠ 0) (divides : c.Divides) :
    (sdioErase c pactive config flgs lba (int32 nlba)).result = none := by
  obtain ⟨mmc, zero⟩ := divides
  have some_ := mt int32_eq_zero.mp count
  unfold sdioErase
  cases kind : c.kind with
  | sd => exact absurd kind mmc
  | mmc trim secure discard =>
    dsimp only
    unfold mmcErase mmcEraseTimeout
    rw [(mmcSetPartition_andThen (c := c) pactive config _).1, if_neg some_, if_pos zero]
    rfl

/-- An erase that does not crash touches the tagged blocks, and leaves the partition selected. -/
theorem sdioErase_runs (flgs : EraseArg) (lba : Nat) (fine : nlba % 2 ^ 32 = 0 ∨ ¬c.Divides)
    (single : c.kind = .sd → pactive = config) :
    (sdioErase c pactive config flgs lba (int32 nlba)).result = some (.ok ()) ∧
      ∀ s : CardState, s.pactive = pactive →
        (c.run s (sdioErase c pactive config flgs lba (int32 nlba)).cmds).pactive = config ∧
        (c.run s (sdioErase c pactive config flgs lba (int32 nlba)).cmds).touched =
          s.touched ++ c.eraseExtents config flgs lba nlba := by
  unfold sdioErase Card.eraseExtents
  cases kind : c.kind with
  | sd =>
    dsimp only
    unfold sdErase
    have same := single kind
    rcases Decidable.em (nlba % 2 ^ 32 = 0) with zero | count
    · rw [if_pos (int32_eq_zero.mpr zero), if_pos zero]
      exact ⟨rfl, fun s active => ⟨active.trans same, (List.append_nil _).symm⟩⟩
    · rw [if_neg (mt int32_eq_zero.mp count), if_neg count]
      refine ⟨rfl, fun s active => ⟨active.trans same, ?_⟩⟩
      rw [← active.trans same]
      rfl
  | mmc trim secure discard =>
    dsimp only
    unfold mmcErase
    obtain ⟨result, run⟩ := mmcSetPartition_andThen (c := c) pactive config
      (if int32 nlba = 0 then .done
      else
        (Plan.send (.tagStart (addrOf c lba))).andThen
          ((mmcEraseTimeout c).andThen
            ((Plan.send (.tagEnd (addrOf c (endLba lba (int32 nlba))))).andThen
              ((Plan.send (.erase flgs)).andThen (.send .sendStatus)))))
    rw [result]
    rcases Decidable.em (nlba % 2 ^ 32 = 0) with zero | count
    · rw [if_pos (int32_eq_zero.mpr zero), if_pos zero]
      rw [if_pos (int32_eq_zero.mpr zero)] at run
      refine ⟨rfl, fun s active => ?_⟩
      rw [run s active]
      exact ⟨rfl, (List.append_nil _).symm⟩
    · have groups : c.egs ≠ 0 := by
        rcases fine with zero | noDivision
        · exact absurd zero count
        · exact fun zero => noDivision ⟨by rw [kind]; nofun, zero⟩
      have timeout : mmcEraseTimeout c = .done := if_neg groups
      rw [if_neg (mt int32_eq_zero.mp count), if_neg count, timeout]
      rw [if_neg (mt int32_eq_zero.mp count), timeout] at run
      refine ⟨rfl, fun s active => ?_⟩
      rw [run s active]
      exact ⟨rfl, rfl⟩

variable {p : Lun c}

theorem Lun.keeps_erase :
    p.Keeps (p.erase flgs lba nlba) ↔ (nlba % 2 ^ 32 ≠ 0 → ¬c.Divides) ∧
      ∀ e ∈ c.eraseExtents p.config flgs lba nlba, p.Holds e := by
  unfold Lun.erase
  constructor
  · intro ⟨result, inside⟩
    have noDivision (count : nlba % 2 ^ 32 ≠ 0) : ¬c.Divides :=
      fun divides => result (sdioErase_crashes count divides)
    obtain ⟨_, run⟩ := sdioErase_runs flgs lba (Decidable.or_iff_not_imp_left.mpr noDivision)
      p.single
    rw [(run p.card rfl).2] at inside
    exact ⟨noDivision, inside⟩
  · intro ⟨noDivision, inside⟩
    obtain ⟨result, run⟩ := sdioErase_runs flgs lba
      (Decidable.or_iff_not_imp_left.mpr noDivision) p.single
    refine ⟨by rw [result]; nofun, ?_⟩
    rw [(run p.card rfl).2]
    exact inside

end Erase

/-! ## Ranges -/

section Ranges

variable {c : Card} {p : Lun c}

/-- The address does not wrap when `slba` is added to it, or the count does. -/
def Lun.Starts (p : Lun c) (w lba nlba : Nat) : Prop :=
  (p.slba + lba) % 2 ^ w ≤ lastLba w ((p.slba + lba) % 2 ^ w) nlba → p.slba + lba < 2 ^ w

theorem Lun.pend_eq (ready : p.unitReady = true) : p.pend + 1 = p.slba + p.nlba := by
  have some_ : p.nlba ≠ 0 := by
    unfold Lun.unitReady at ready
    simp only [Bool.and_eq_true, bne_iff_ne, ne_eq] at ready
    exact ready.2
  have fits := p.fits
  unfold Lun.pend
  omega

theorem block_addrOf (ready : p.unitReady = true) {lba : Nat} (within : lba ≤ p.pend) :
    c.block (addrOf c lba) = lba := by
  have pend := Lun.pend_eq ready
  have fits := p.fits
  unfold Card.block addrOf
  cases hc : c.hc with
  | true =>
    simp only [if_true]
    exact Nat.mod_eq_of_lt (by omega)
  | false =>
    simp only [Bool.false_eq_true, if_false]
    have bytes : lba * c.blksz < (p.slba + p.nlba) * c.blksz :=
      Nat.mul_lt_mul_of_pos_right (by omega) c.blksz_pos
    have address := p.addressable hc
    rw [Nat.mod_eq_of_lt (by omega)]
    exact Nat.mul_div_cancel lba c.blksz_pos

theorem addrOf_endLba (lba nlba : Nat) :
    addrOf c (endLba lba (int32 nlba)) = addrOf c (lba + nlba + (2 ^ 32 - 1)) := by
  have low : endLba lba (int32 nlba) % 2 ^ 32 = (lba + nlba + (2 ^ 32 - 1)) % 2 ^ 32 := by
    unfold endLba int32
    split <;> omega
  unfold addrOf
  split
  · exact low
  · rw [Nat.mul_mod, low, ← Nat.mul_mod]

theorem addrOf_mod (lba : Nat) : addrOf c (lba % 2 ^ 32) = addrOf c lba := by
  unfold addrOf
  split
  · exact Nat.mod_mod lba _
  · rw [Nat.mul_mod, Nat.mod_mod, ← Nat.mul_mod]

theorem block_endLba (ready : p.unitReady = true) {w lba nlba : Nat} (wide : w = 32 ∨ w = 64)
    (passes : p.Passes w lba nlba) :
    c.block (addrOf c (endLba lba (int32 nlba))) = lastLba w lba nlba := by
  have pend := Lun.pend_eq ready
  have fits := p.fits
  obtain ⟨_, last⟩ := passes
  have low : (lba + nlba + (2 ^ 32 - 1)) % 2 ^ 32 = lastLba w lba nlba := by
    have small : lastLba w lba nlba < 2 ^ 32 := by omega
    unfold lastLba at small ⊢
    rcases wide with rfl | rfl <;> omega
  rw [addrOf_endLba, ← addrOf_mod, low]
  exact block_addrOf ready last

theorem last_group {g e : Nat} (dvd : g ∣ e + 1) : (e / g + 1) * g = e + 1 := by
  rw [← Nat.succ_div_of_dvd dvd]
  exact Nat.div_mul_cancel dvd

theorem range_holds (ready : p.unitReady = true) {w lba nlba : Nat} (flgs : EraseArg)
    (wide : w = 32 ∨ w = 64) (address : lba < 2 ^ w) (count : nlba < 2 ^ w)
    (passes : p.Passes w ((p.slba + lba) % 2 ^ w) nlba)
    (aligned : flgs.grouped = true → c.egs ∣ (p.slba + lba) % 2 ^ w ∧ c.egs ∣ nlba) :
    (∀ e ∈ c.eraseExtents p.config flgs ((p.slba + lba) % 2 ^ w) nlba, p.Holds e) ↔
      (nlba % 2 ^ 32 ≠ 0 → p.Starts w lba nlba) := by
  have pend := Lun.pend_eq ready
  have fits := p.fits
  have last := passes.2
  have wraps : p.slba ≤ (p.slba + lba) % 2 ^ w ↔ p.slba + lba < 2 ^ w := by
    rcases wide with rfl | rfl <;> omega
  have ends (some_ : nlba % 2 ^ 32 ≠ 0)
      (inOrder : (p.slba + lba) % 2 ^ w ≤ lastLba w ((p.slba + lba) % 2 ^ w) nlba) :
      lastLba w ((p.slba + lba) % 2 ^ w) nlba + 1 = (p.slba + lba) % 2 ^ w + nlba := by
    unfold lastLba at inOrder ⊢
    rcases wide with rfl | rfl <;> omega
  unfold Card.eraseExtents Lun.Starts
  rcases Decidable.em (nlba % 2 ^ 32 = 0) with zero | some_
  · rw [if_pos zero]
    exact iff_of_true nofun fun some_ => absurd zero some_
  · rw [if_neg some_]
    unfold Card.erased
    rw [block_addrOf ready passes.1, block_endLba ready wide passes]
    dsimp only
    generalize (p.slba + lba) % 2 ^ w = first at *
    generalize lastLba w first nlba = end_ at *
    rcases Nat.lt_or_ge end_ first with backwards | inOrder
    · rw [if_pos backwards]
      exact iff_of_true nofun fun _ inOrder => absurd inOrder (by omega)
    · rw [if_neg (by omega)]
      have extent : (if flgs.grouped = true then
            [(⟨p.config % 8, first / c.egs * c.egs, (end_ / c.egs + 1) * c.egs⟩ : Extent)]
          else [⟨p.config % 8, first, end_ + 1⟩]) = [⟨p.config % 8, first, end_ + 1⟩] := by
        split
        · next grouped =>
          obtain ⟨start, length⟩ := aligned grouped
          have stop : c.egs ∣ end_ + 1 := (ends some_ inOrder).symm ▸ Nat.dvd_add start length
          rw [Nat.div_mul_cancel start, last_group stop]
        · rfl
      rw [extent, List.forall_mem_singleton, Lun.holds_iff (by dsimp only; omega)]
      dsimp only
      constructor
      · intro ⟨_, low, _⟩ _ _
        exact wraps.mp low
      · intro starts
        exact ⟨rfl, wraps.mpr (starts some_ inOrder), by omega⟩

end Ranges

/-! ## Write protection -/

section Protect

variable {c : Card} {p : Lun c}

theorem Card.run_protect {cmd : Nat → CardCmd}
    (exec : ∀ s a, c.exec s (cmd a) = { s with touched := s.touched ++ [c.wpGroup a s] })
    (addrs : List Nat) (s : CardState) :
    (c.run s (addrs.map cmd)).touched = s.touched ++ addrs.map (c.wpGroup · s) := by
  induction addrs generalizing s with
  | nil => exact (List.append_nil _).symm
  | cons a addrs ih =>
    change (c.run (c.exec s (cmd a)) (addrs.map cmd)).touched = _
    rw [exec, ih, List.append_assoc]
    rfl

/-- The groups the loop protects, from an aligned block of the partition on, are inside when the
last of them ends inside. -/
theorem wpAddrs_hold (ready : p.unitReady = true) {s : CardState} (selected : s.pactive = p.config)
    (some_ : 0 < c.wpGrpSize) {fuel lba nlba : Nat} (aligned : c.wpGrpSize ∣ lba)
    (within : lba ≤ p.pend) (enough : nlba ≤ fuel) (count : nlba ≠ 0) :
    (∀ a ∈ wpAddrs c c.wpGrpSize fuel lba nlba, p.Holds (c.wpGroup a s)) ↔
      p.slba ≤ lba ∧ lba + (nlba + c.wpGrpSize - 1) / c.wpGrpSize * c.wpGrpSize ≤
        p.slba + p.nlba := by
  have pend := Lun.pend_eq ready
  have fits := p.fits
  -- the group of an aligned block whose address is the block's
  have group {b : Nat} (aligned : c.wpGrpSize ∣ b) (address : c.block (addrOf c b) = b) :
      p.Holds (c.wpGroup (addrOf c b) s) ↔
        p.slba ≤ b ∧ b + c.wpGrpSize ≤ p.slba + p.nlba := by
    have extent : c.wpGroup (addrOf c b) s = ⟨p.config % 8, b, b + c.wpGrpSize⟩ := by
      unfold Card.wpGroup
      rw [address, Nat.div_mul_cancel aligned, selected]
    rw [extent, Lun.holds_iff (by dsimp only; omega)]
    exact ⟨And.right, fun inside => ⟨rfl, inside⟩⟩
  induction fuel generalizing lba nlba with
  | zero => omega
  | succ fuel ih =>
    unfold wpAddrs
    rw [if_neg count, List.forall_mem_cons, group aligned (block_addrOf ready within)]
    rcases Nat.lt_or_ge c.wpGrpSize nlba with more | last
    · have left : nlba - min nlba c.wpGrpSize = nlba - c.wpGrpSize := by omega
      have turn : (nlba + c.wpGrpSize - 1) / c.wpGrpSize * c.wpGrpSize =
          (nlba - c.wpGrpSize + c.wpGrpSize - 1) / c.wpGrpSize * c.wpGrpSize +
            c.wpGrpSize := by
        have split : nlba + c.wpGrpSize - 1 =
            nlba - c.wpGrpSize + c.wpGrpSize - 1 + c.wpGrpSize := by omega
        rw [split, Nat.add_div_right _ some_, Nat.succ_mul]
      rw [left, turn]
      rcases Nat.lt_or_ge p.pend (lba + c.wpGrpSize) with beyond | inside
      · -- the next address is outside, or comes out at zero
        have positive : c.wpGrpSize ≤
            (nlba - c.wpGrpSize + c.wpGrpSize - 1) / c.wpGrpSize * c.wpGrpSize := by
          apply Nat.le_mul_of_pos_left
          exact Nat.div_pos (by omega) some_
        refine iff_of_false (fun both => ?_) (by omega)
        obtain ⟨⟨low, high⟩, rest⟩ := both
        obtain ⟨fuel, rfl⟩ : ∃ n, fuel = n + 1 := ⟨fuel - 1, by omega⟩
        unfold wpAddrs at rest
        rw [if_neg (by omega)] at rest
        have next := rest _ List.mem_cons_self
        have edge : lba + c.wpGrpSize = p.slba + p.nlba := by omega
        have bounded := p.nlba_lt
        rcases Nat.lt_or_ge (lba + c.wpGrpSize) (2 ^ 32) with small | wrap
        · have address : c.block (addrOf c (lba + c.wpGrpSize)) = lba + c.wpGrpSize := by
            unfold Card.block addrOf
            cases hc : c.hc with
            | true => exact Nat.mod_eq_of_lt small
            | false =>
              have address := p.addressable hc
              simp only [Bool.false_eq_true, if_false]
              rw [edge, Nat.mod_eq_of_lt (by omega)]
              exact Nat.mul_div_cancel _ c.blksz_pos
          rw [Nat.mod_eq_of_lt small,
            group (Nat.dvd_add aligned (Nat.dvd_refl _)) address] at next
          omega
        · have zero : (lba + c.wpGrpSize) % 2 ^ 32 = 0 := by omega
          have address : c.block (addrOf c 0) = 0 := by
            unfold Card.block addrOf
            split <;> simp
          rw [zero, group (Nat.dvd_zero _) address] at next
          omega
      · have enough' : nlba - c.wpGrpSize ≤ fuel := by omega
        have count' : nlba - c.wpGrpSize ≠ 0 := by omega
        have rest := ih (Nat.dvd_add aligned (Nat.dvd_refl _)) inside enough' count'
        rw [Nat.mod_eq_of_lt (by omega)]
        apply (and_congr_right' rest).trans
        omega
    · have left : nlba - min nlba c.wpGrpSize = 0 := by omega
      have one : (nlba + c.wpGrpSize - 1) / c.wpGrpSize = 1 := by
        apply Nat.div_eq_of_lt_le <;> omega
      have none_ (lba : Nat) : wpAddrs c c.wpGrpSize fuel lba 0 = [] := by
        cases fuel with
        | zero => rfl
        | succ fuel => rfl
      rw [left, none_, one, Nat.one_mul]
      exact ⟨And.left, fun inside => ⟨inside, nofun⟩⟩

/-- The groups from a block on, as many as `nlba` blocks need, are inside. -/
def Lun.GroupsFit (p : Lun c) (lba nlba : Nat) : Prop :=
  nlba ≠ 0 → p.slba ≤ lba ∧
    lba + (nlba + c.wpGrpSize - 1) / c.wpGrpSize * c.wpGrpSize ≤ p.slba + p.nlba

theorem keeps_loop (ready : p.unitReady = true) (cmd : Nat → CardCmd)
    (exec : ∀ s a, c.exec s (cmd a) = { s with touched := s.touched ++ [c.wpGroup a s] })
    (some_ : c.wpGrpSize ≠ 0) {lba : Nat} (nlba : Nat) (aligned : lba % c.wpGrpSize = 0)
    (within : lba ≤ p.pend) {s : CardState} (selected : s.pactive = p.config) :
    (∀ e ∈ (c.run s ((wpAddrs c c.wpGrpSize nlba lba nlba).map cmd)).touched, p.Holds e) ↔
      (∀ e ∈ s.touched, p.Holds e) ∧ p.GroupsFit lba nlba := by
  unfold Lun.GroupsFit
  rw [Card.run_protect exec, List.forall_mem_append, List.forall_mem_map]
  apply and_congr_right'
  rcases eq_or_ne nlba 0 with rfl | count
  · exact iff_of_true nofun nofun
  · rw [wpAddrs_hold ready selected (Nat.pos_of_ne_zero some_) (Nat.dvd_of_mod_eq_zero aligned)
      within (Nat.le_refl _) count]
    exact ⟨fun inside _ => inside, fun inside => inside count⟩

theorem bootArea_holds (boot : p.config % 8 = 1 ∨ p.config % 8 = 2) (mode : Nat) :
    (∀ e ∈ c.bootArea mode, p.Holds e) ↔ ¬mode % 2 = 1 := by
  have some_ := p.boot boot
  unfold Card.bootArea
  constructor
  · intro inside set
    rw [if_pos set] at inside
    have first := (inside _ List.mem_cons_self 0 (Nat.le_refl _) some_).1
    have second := (inside _ (List.mem_cons_of_mem _ List.mem_cons_self) 0 (Nat.le_refl _) some_).1
    dsimp only at first second
    omega
  · intro clear
    rw [if_neg clear]
    exact nofun

theorem wpSwitch_user {config : Nat} (user : config % 8 = 0) (mode : Nat) :
    wpSwitch config mode = .send .switchUserWp := by
  unfold wpSwitch
  rw [user]
  rfl

theorem wpSwitch_boot {config : Nat} (boot : config % 8 = 1 ∨ config % 8 = 2) (mode : Nat) :
    wpSwitch config mode = .send (.switchBootWp mode) := by
  unfold wpSwitch
  rcases boot with first | second
  · rw [first]
    rfl
  · rw [second]
    rfl

theorem wpSwitch_other {config : Nat} (other : 2 < config % 8) (mode : Nat) :
    wpSwitch config mode = .reject .EINVAL := by
  unfold wpSwitch
  obtain ⟨n, number⟩ : ∃ n, config % 8 = n + 3 := ⟨config % 8 - 3, by omega⟩
  rw [number]
  rfl

theorem keeps_set (ready : p.unitReady = true) (some_ : c.wpGrpSize ≠ 0) {mode lba nlba : Nat}
    (aligned : lba % c.wpGrpSize = 0) (within : lba ≤ p.pend) (plan : CardPlan)
    (same : plan = (wpSwitch p.config mode).andThen
      (.sendAll ((wpAddrs c c.wpGrpSize nlba lba nlba).map .setWriteProt))) :
    (plan.result ≠ none ∧
        ∀ e ∈ (c.run { p.card with pactive := p.config } plan.cmds).touched, p.Holds e) ↔
      (p.config % 8 ≤ 2 →
        ¬(p.config % 8 ≠ 0 ∧ mode % 2 = 1) ∧ p.GroupsFit lba nlba) := by
  have loop {s : CardState} (selected : s.pactive = p.config) :=
    keeps_loop ready .setWriteProt (fun _ _ => rfl) some_ nlba aligned within selected
  rcases Nat.lt_or_ge 2 (p.config % 8) with other | low
  · rw [same, wpSwitch_other other]
    exact iff_of_true ⟨nofun, nofun⟩ fun low => absurd other (by omega)
  · rcases Nat.eq_zero_or_pos (p.config % 8) with user | boot
    · have inside := loop (s := { p.card with pactive := p.config }) rfl
      rw [same, wpSwitch_user user]
      constructor
      · intro ⟨_, keeps⟩ _
        exact ⟨fun boot => boot.1 user, (inside.mp keeps).2⟩
      · intro fits
        exact ⟨nofun, inside.mpr ⟨nofun, (fits low).2⟩⟩
    · have boot : p.config % 8 = 1 ∨ p.config % 8 = 2 := by omega
      have inside := loop (s := ⟨p.config, 0, 0, c.bootArea mode⟩) rfl
      rw [bootArea_holds boot] at inside
      rw [same, wpSwitch_boot boot]
      constructor
      · intro ⟨_, keeps⟩ _
        obtain ⟨clear, groups⟩ := inside.mp keeps
        exact ⟨fun set => clear set.2, groups⟩
      · intro fits
        obtain ⟨clear, groups⟩ := fits low
        exact ⟨nofun, inside.mpr ⟨fun set => clear ⟨by omega, set⟩, groups⟩⟩

theorem keeps_clr (ready : p.unitReady = true) (some_ : c.wpGrpSize ≠ 0) {lba nlba : Nat}
    (aligned : lba % c.wpGrpSize = 0) (within : lba ≤ p.pend) :
    (∀ e ∈ (c.run { p.card with pactive := p.config }
        ((wpAddrs c c.wpGrpSize nlba lba nlba).map .clrWriteProt)).touched, p.Holds e) ↔
      p.GroupsFit lba nlba := by
  rw [keeps_loop ready .clrWriteProt (fun _ _ => rfl) some_ nlba aligned within rfl]
  exact ⟨And.right, fun groups => ⟨nofun, groups⟩⟩

/-- When setting or clearing the protection stays inside. The power-on protection is never for one
boot partition only, and the other hardware partitions cannot be protected. -/
def Lun.OpFits (p : Lun c) (mode lba nlba : Nat) : WpAction → Prop
  | .set => p.config % 8 ≤ 2 → ¬(p.config % 8 ≠ 0 ∧ mode % 2 = 1) ∧ p.GroupsFit lba nlba
  | .clr => p.GroupsFit lba nlba
  | _ => True

theorem writeProtect_keeps (ready : p.unitReady = true) {op : WpAction} {mode lba nlba : Nat}
    (within : lba ≤ p.pend) : p.Keeps (sdmmcWriteProtect p op mode lba nlba) ↔
      (c.wpGrpSize ≠ 0 → lba % c.wpGrpSize = 0 → p.OpFits mode lba nlba op) := by
  unfold sdmmcWriteProtect
  split
  · next zero => exact iff_of_true (p.keeps_reject _) fun some_ => absurd zero some_
  · next some_ =>
    split
    · next unaligned =>
      exact iff_of_true (p.keeps_reject _) fun _ aligned => absurd aligned unaligned
    · next aligned =>
      have aligned := Decidable.of_not_not aligned
      unfold Lun.Keeps
      rw [(mmcSetPartition_andThen (c := c) p.pactive p.config _).1,
        (mmcSetPartition_andThen p.pactive p.config _).2 p.card rfl]
      have given {fits : Prop} : fits ↔ (c.wpGrpSize ≠ 0 → lba % c.wpGrpSize = 0 → fits) :=
        ⟨fun fits _ _ => fits, fun fits => fits some_ aligned⟩
      cases op with
      | prot => exact iff_of_true ⟨nofun, nofun⟩ fun _ _ => trivial
      | protType => exact iff_of_true ⟨nofun, nofun⟩ fun _ _ => trivial
      | set => exact (keeps_set ready some_ aligned within _ rfl).trans given
      | clr =>
        refine Iff.trans ?_ given
        rw [Lun.OpFits, ← keeps_clr ready some_ aligned within]
        exact ⟨And.right, fun keeps => ⟨nofun, keeps⟩⟩

end Protect

/-! ## All requests -/

section Requests

variable {c : Card} (p : Lun c)

/-- An erase of a range that passes, and one that is for whole groups only. -/
def Lun.EraseFits (w lba nlba : Nat) : Prop :=
  nlba % 2 ^ 32 ≠ 0 → ¬c.Divides ∧ p.Starts w lba nlba

def Lun.AlignedFits (w lba nlba : Nat) : Prop :=
  c.egs ≠ 0 ∧ ((p.slba + lba) % 2 ^ w % c.egs = 0 → nlba % c.egs = 0 →
    nlba % 2 ^ 32 ≠ 0 → p.Starts w lba nlba)

/-- WRITE SAME: the first and the last block, as far as their addresses have room in a command, are
in the partition, or in the wrong order. -/
def Lun.SameFits (lba nlba : Nat) : Prop :=
  nlba ≠ 0 → c.egs ≠ 0 ∧
    (c.block (addrOf c (p.slba + lba + nlba - 1)) < c.block (addrOf c (p.slba + lba)) ∨
      p.slba ≤ c.block (addrOf c (p.slba + lba)) ∧
        c.block (addrOf c (p.slba + lba + nlba - 1)) < p.slba + p.nlba)

/-- Each range up to the first that is rejected. -/
def Lun.DsmFits : List (Nat × Nat) → Prop
  | [] => True
  | (lba, nlba) :: ranges => p.Passes 64 ((p.slba + lba) % 2 ^ 64) nlba →
      p.EraseFits 64 lba nlba ∧ Lun.DsmFits ranges

/-- The capability an erase action needs, as the driver looks at it. -/
def EraseAction.allowed (c : Card) : EraseAction → Bool
  | .normal => true
  | .secure => c.secure
  | .trim => c.trim
  | .secureTrim => c.secure && c.trim
  | .securePurge => c.secure && c.trim
  | .discard => c.trim

/-- Two of the erase actions are for whole groups. -/
def Lun.ActionFits (lba nlba : Nat) : EraseAction → Prop
  | .normal => p.AlignedFits 64 lba nlba
  | .secure => p.AlignedFits 64 lba nlba
  | _ => p.EraseFits 64 lba nlba

/-- When a request to a partition that is ready stays inside. -/
def Request.Fits : Request → Prop
  | .writeSame lba nlba unmap => c.trim = true → unmap = true → p.SameFits lba nlba
  | .erase12 lba nlba =>
    p.Passes 32 ((p.slba + lba) % 2 ^ 32) nlba → p.AlignedFits 32 lba nlba
  | .wpDevctl (some op) mode lba nlba =>
    p.Passes 32 ((p.slba + lba) % 2 ^ 32) (max 1 nlba % 2 ^ 32) → c.kind ≠ .sd →
      c.wpGrpSize ≠ 0 → (p.slba + lba) % 2 ^ 32 % c.wpGrpSize = 0 →
        p.OpFits mode ((p.slba + lba) % 2 ^ 32) (max 1 nlba % 2 ^ 32) op
  | .wpDevctl none _ _ _ => True
  | .eraseDevctl (some action) lba nlba =>
    p.Passes 64 ((p.slba + lba) % 2 ^ 64) nlba → action.allowed c = true →
      p.ActionFits lba nlba action
  | .eraseDevctl none _ _ => True
  | .dsmDevctl (some .trim) ranges => c.trim = true → p.DsmFits ranges
  | .dsmDevctl (some .discard) ranges => c.discard = true → p.DsmFits ranges
  | .dsmDevctl none _ => True

variable {p} (ready : p.unitReady = true)

include ready in
theorem keeps_range {w lba nlba : Nat} {flgs : EraseArg} (ungrouped : flgs.grouped = false)
    (wide : w = 32 ∨ w = 64) (address : lba < 2 ^ w) (count : nlba < 2 ^ w)
    (passes : p.Passes w ((p.slba + lba) % 2 ^ w) nlba) :
    p.Keeps (p.erase flgs ((p.slba + lba) % 2 ^ w) nlba) ↔ p.EraseFits w lba nlba := by
  rw [Lun.keeps_erase, range_holds ready flgs wide address count passes
    (fun grouped => absurd grouped (by rw [ungrouped]; decide))]
  exact forall_and.symm

include ready in
theorem keeps_aligned {w lba nlba : Nat} (flgs : EraseArg) (wide : w = 32 ∨ w = 64)
    (address : lba < 2 ^ w) (count : nlba < 2 ^ w)
    (passes : p.Passes w ((p.slba + lba) % 2 ^ w) nlba) :
    p.Keeps (p.eraseAligned flgs ((p.slba + lba) % 2 ^ w) nlba) ↔ p.AlignedFits w lba nlba := by
  unfold Lun.eraseAligned Lun.AlignedFits
  split
  · next zero => exact iff_of_false p.not_keeps_crash fun fits => fits.1 zero
  · next some_ =>
    split
    · next aligned =>
      rw [Lun.keeps_erase, range_holds ready flgs wide address count passes fun _ =>
        ⟨Nat.dvd_of_mod_eq_zero aligned.1, Nat.dvd_of_mod_eq_zero aligned.2⟩]
      exact ⟨fun keeps => ⟨some_, fun _ _ => keeps.2⟩,
        fun fits => ⟨fun _ divides => some_ divides.2, fits.2 aligned.1 aligned.2⟩⟩
    · next unaligned =>
      exact iff_of_true (p.keeps_reject _)
        ⟨some_, fun start length => absurd ⟨start, length⟩ unaligned⟩

include ready in
/-- Range after range, up to the first that is rejected. -/
theorem keeps_dsm {dtype : EraseArg} (ungrouped : dtype.grouped = false)
    {ranges : List (Nat × Nat)} (wellFormed : ∀ r ∈ ranges, r.1 < 2 ^ 64 ∧ r.2 < 2 ^ 32)
    {pactive : Nat} (single : c.kind = .sd → pactive = p.config) {s : CardState}
    (selected : s.pactive = pactive) :
    ((sdmmcDsm p dtype pactive ranges).result ≠ none ∧
        ∀ e ∈ (c.run s (sdmmcDsm p dtype pactive ranges).cmds).touched, p.Holds e) ↔
      (∀ e ∈ s.touched, p.Holds e) ∧ p.DsmFits ranges := by
  induction ranges generalizing pactive s with
  | nil => exact ⟨fun keeps => ⟨keeps.2, trivial⟩, fun inside => ⟨nofun, inside.1⟩⟩
  | cons r ranges ih =>
    obtain ⟨lba, nlba⟩ := r
    obtain ⟨address, count⟩ := wellFormed _ List.mem_cons_self
    have rest {s : CardState} (after : s.pactive = p.config) :=
      ih (fun r mem => wellFormed r (List.mem_cons_of_mem _ mem)) (fun _ => rfl) after
    unfold sdmmcDsm Lun.DsmFits
    dsimp only at address count ⊢
    split
    · next fails =>
      exact ⟨fun keeps => ⟨keeps.2, fun passes => absurd passes fails⟩,
        fun inside => ⟨nofun, inside.1⟩⟩
    · next passes =>
      have passes := Decidable.of_not_not passes
      have range := range_holds ready dtype (.inr rfl) address (by omega) passes
        (fun grouped => absurd grouped (by rw [ungrouped]; decide))
      rcases Classical.em (nlba % 2 ^ 32 ≠ 0 ∧ c.Divides) with ⟨some_, divides⟩ | fine
      · have crashes :
            (sdioErase c pactive p.config dtype ((p.slba + lba) % 2 ^ 64) (int32 nlba)).result =
              none := sdioErase_crashes some_ divides
        unfold Plan.andThen
        rw [crashes]
        exact iff_of_false (fun keeps => keeps.1 crashes)
          fun inside => ((inside.2 passes).1 some_).1 divides
      · have noDivision : nlba % 2 ^ 32 = 0 ∨ ¬c.Divides := by
          rw [Decidable.or_iff_not_imp_left]
          exact fun some_ divides => fine ⟨some_, divides⟩
        obtain ⟨ok, run⟩ := sdioErase_runs dtype ((p.slba + lba) % 2 ^ 64) noDivision
          single
        obtain ⟨after, touched⟩ := run s selected
        rw [Plan.andThen_of_ok ok]
        dsimp only
        rw [Card.run_append, rest after, touched, List.forall_mem_append, range]
        constructor
        · intro ⟨⟨before, starts⟩, fits⟩
          exact ⟨before, fun _ => ⟨fun some_ => ⟨fun divides => fine ⟨some_, divides⟩,
            starts some_⟩, fits⟩⟩
        · intro ⟨before, fits⟩
          obtain ⟨first, fits⟩ := fits passes
          exact ⟨⟨before, fun some_ => (first some_).2⟩, fits⟩

theorem keeps_same (trim : c.trim = true) {lba nlba : Nat} (count : nlba < 2 ^ 32) :
    p.Keeps (p.erase .trim ((lba + p.slba) % 2 ^ 64) nlba) ↔ p.SameFits lba nlba := by
  have small : nlba % 2 ^ 32 = nlba := Nat.mod_eq_of_lt count
  have first : addrOf c ((lba + p.slba) % 2 ^ 64) = addrOf c (p.slba + lba) := by
    rw [← addrOf_mod, Nat.mod_mod_of_dvd _ (by decide), addrOf_mod, Nat.add_comm]
  have last (some_ : nlba ≠ 0) :
      addrOf c (endLba ((lba + p.slba) % 2 ^ 64) (int32 nlba)) =
        addrOf c (p.slba + lba + nlba - 1) := by
    have low : ((lba + p.slba) % 2 ^ 64 + nlba + (2 ^ 32 - 1)) % 2 ^ 32 =
        (p.slba + lba + nlba - 1) % 2 ^ 32 := by omega
    rw [addrOf_endLba, ← addrOf_mod, low, addrOf_mod]
  rw [Lun.keeps_erase, c.divides_iff_of_trim trim, small, Lun.SameFits]
  unfold Card.eraseExtents
  rw [small]
  rcases Decidable.em (nlba = 0) with zero | some_
  · rw [if_pos zero]
    exact iff_of_true ⟨fun some_ => absurd zero some_, nofun⟩ fun some_ => absurd zero some_
  · rw [if_neg some_, first, last some_]
    unfold Card.erased
    dsimp only
    generalize c.block (addrOf c (p.slba + lba)) = start
    generalize c.block (addrOf c (p.slba + lba + nlba - 1)) = stop
    rcases Nat.lt_or_ge stop start with backwards | inOrder
    · rw [if_pos backwards]
      exact ⟨fun keeps _ => ⟨keeps.1 some_, .inl backwards⟩,
        fun fits => ⟨fun _ => (fits some_).1, nofun⟩⟩
    · rw [if_neg (by omega), if_neg (by decide), List.forall_mem_singleton,
        Lun.holds_iff (by dsimp only; omega)]
      dsimp only
      constructor
      · intro ⟨groups, _, low, high⟩ _
        exact ⟨groups some_, .inr ⟨low, by omega⟩⟩
      · intro fits
        obtain ⟨groups, backwards | ⟨low, high⟩⟩ := fits some_
        · omega
        · exact ⟨fun _ => groups, rfl, low, by omega⟩

end Requests

/-- An eMMC with erase groups of one block and write protect groups of four. -/
def smallCard : Card where
  kind := .mmc true true true
  hc := true
  blksz := 512
  eraseSize := 512
  wpSize := 2048
  bootBlocks := 8
  blksz_pos := by decide

/-- The blocks from 8 up to 16 of the user area. -/
def smallLun : Lun smallCard where
  config := 0
  slba := 8
  nlba := 8
  present := true
  pactive := 0
  nlba_lt := by decide
  fits := by decide
  addressable := nofun
  single := nofun
  boot := by decide

end Mx6xBsp.Sdmmc
