import Mx6xBsp.Sdmmc.Command

/-!
# Each command ends once

While a command that times out is neither completed already nor in the hands of the
thread of the controller (`Hc.Fits`), every issue of a command ends once, and a
completion is of the command that is issued.
-/

namespace Mx6xBsp.Sdmmc.Command

open Runs

def Issuer.hasFailed : Issuer → Bool
  | .failed _ _ _ => true
  | _ => false

/-- The issuing thread fails only with a command that is not completed and that no event works on,
and no event takes the active command up between the failure and its end. -/
def Hc.Fits (s : Hc) : Action → Prop
  | .cmd (some _) => s.intr.held = none ∧
      ∀ issue ∈ s.issuer.current, (s.cmd issue.1).status = CS_CMD_INPROG
  | .wake true => s.intr.held = none ∧
      ∀ issue ∈ s.issuer.current, (s.cmd issue.1).status = CS_CMD_INPROG
  | .pick => s.active = none ∨ s.issuer.hasFailed = false
  | _ => True

/-- A command under way, and one that was completed before the issuing thread knows -/
structure Hc.Pending (s : Hc) (c n : Nat) : Prop where
  active : s.active = some c
  status : (s.cmd c).status = CS_CMD_INPROG
  outcomes : s.outcomes n = 0
  held : s.intr.held = none ∨ s.issuer.hasFailed = false ∧ s.intr.held = some (c, n)

structure Hc.Completed (s : Hc) (c n : Nat) : Prop where
  active : s.active = none
  status : (s.cmd c).status ≠ CS_CMD_INPROG
  outcomes : s.outcomes n = 1
  held : s.intr.held = none
  waits : s.issuer.hasFailed = false

structure Hc.Inv (s : Hc) : Prop where
  quiet : s.issuer.current = none → s.active = none ∧ s.intr.held = none
  current : ∀ c n, s.issuer.current = some (c, n) →
    n + 1 = s.serial ∧ s.ready c = false ∧ (s.Pending c n ∨ s.Completed c n)
  issue : ∀ c, s.issuer = .issue c → (s.cmd c).status = CS_CMD_INPROG ∧ s.ready c = false
  ready : ∀ c, s.ready c = true → (s.cmd c).status = CS_CMD_INPROG
  before : ∀ n < s.serial, s.issuer.current.map Prod.snd ≠ some n → s.outcomes n = 1
  after : ∀ n, s.serial ≤ n → s.outcomes n = 0
  ends : ∀ c n cs, s.intr = .complete c n cs → cs ≠ CS_CMD_INPROG

section Steps

variable {s t : Hc} {c n : Nat}

theorem Hc.Inv.of_start (start : s.Start) : s.Inv where
  quiet _ := ⟨start.active, by rw [start.intr]; rfl⟩
  current c n here := by
    rw [start.issuer] at here
    cases here
  issue c here := by
    rw [start.issuer] at here
    cases here
  ready c here := by
    rw [start.ready c] at here
    cases here
  before n within := by
    rw [start.serial] at within
    exact absurd within (Nat.not_lt_zero n)
  after n _ := start.outcomes n
  ends c n cs here := by
    rw [start.intr] at here
    cases here

theorem Hc.Inv.client (inv : s.Inv) (idle : s.issuer = .idle) (active : t.active = s.active)
    (intr : t.intr = s.intr) (serial : t.serial = s.serial) (outcomes : t.outcomes = s.outcomes)
    (current : t.issuer.current = none)
    (issue : ∀ c, t.issuer = .issue c → (t.cmd c).status = CS_CMD_INPROG ∧ t.ready c = false)
    (ready : ∀ c, t.ready c = true → (t.cmd c).status = CS_CMD_INPROG) : t.Inv where
  quiet _ := by
    rw [active, intr]
    exact inv.quiet (by rw [idle]; rfl)
  current c n here := by
    rw [current] at here
    cases here
  issue := issue
  ready := ready
  before n within other := by
    rw [outcomes]
    exact inv.before n (serial ▸ within) (by rw [idle]; nofun)
  after n above := by
    rw [outcomes]
    exact inv.after n (serial ▸ above)
  ends c n cs here := inv.ends c n cs (intr.symm.trans here)

theorem Hc.setCmd_self {cmd : Cmd} : (s.setCmd c cmd).cmd c = cmd := Function.update_self ..

theorem Hc.Inv.prepare (inv : s.Inv) {cmd : Cmd} (status : cmd.status = CS_CMD_INPROG) (c' : Nat)
    (here : ((s.setCmd c cmd).setReady c true).ready c' = true) :
    (((s.setCmd c cmd).setReady c true).cmd c').status = CS_CMD_INPROG := by
  rcases eq_or_ne c' c with rfl | other
  · exact (congrArg Cmd.status (Function.update_self ..)).trans status
  · have old : s.ready c' = true := (Function.update_of_ne other _ _).symm.trans here
    exact (congrArg Cmd.status (Function.update_of_ne other _ _)).trans (inv.ready c' old)

theorem Hc.Inv.alloc (inv : s.Inv) (idle : s.issuer = .idle) : s.alloc.Inv := by
  have none (u : Hc) (same : u.issuer = s.issuer) (c : Nat) : u.issuer ≠ .issue c := by
    rw [same, idle]
    nofun
  unfold Hc.alloc
  split
  · refine inv.client idle rfl rfl rfl rfl (congrArg Issuer.current idle)
      (fun c here => absurd here (none _ rfl c)) (fun c => inv.prepare rfl c)
  · refine inv.client idle rfl rfl rfl rfl (congrArg Issuer.current idle)
      (fun c here => absurd here (none _ rfl c)) (fun c => inv.prepare rfl c)

theorem Hc.Inv.send (inv : s.Inv) (idle : s.issuer = .idle) :
    ((s.setStatus c CS_CMD_INPROG).setReady c true).Inv := by
  refine inv.client idle rfl rfl rfl rfl (congrArg Issuer.current idle) (fun c' here => ?_)
    (fun c' => inv.prepare rfl c')
  cases idle.symm.trans here

theorem Hc.Inv.setCmd (inv : s.Inv) {cmd : Cmd} (same : cmd.status = (s.cmd c).status) :
    (s.setCmd c cmd).Inv := by
  have status (c' : Nat) : ((s.setCmd c cmd).cmd c').status = (s.cmd c').status := by
    rcases eq_or_ne c' c with rfl | other
    · exact (congrArg Cmd.status Hc.setCmd_self).trans same
    · exact congrArg Cmd.status (Function.update_of_ne other _ _)
  refine ⟨inv.quiet, fun c' n here => ?_, fun c' here => ?_, fun c' here => ?_, inv.before,
    inv.after, inv.ends⟩
  · obtain ⟨serial, ready, state⟩ := inv.current c' n here
    refine ⟨serial, ready, state.imp (fun pending => ?_) fun completed => ?_⟩
    · exact ⟨pending.active, (status c').trans pending.status, pending.outcomes, pending.held⟩
    · exact ⟨completed.active, fun inprog => completed.status ((status c').symm.trans inprog),
        completed.outcomes, completed.held, completed.waits⟩
  · obtain ⟨inprog, ready⟩ := inv.issue c' here
    exact ⟨(status c').trans inprog, ready⟩
  · exact (status c').trans (inv.ready c' here)

theorem Hc.Inv.issued (inv : s.Inv) (idle : s.issuer = .idle) (ready : s.ready c = true) :
    Hc.Inv { s.setReady c false with issuer := .issue c } := by
  refine inv.client idle rfl rfl rfl rfl rfl (fun c' here => ?_) (fun c' here => ?_)
  · cases here
    exact ⟨inv.ready c ready, Function.update_self ..⟩
  · rcases eq_or_ne c' c with rfl | other
    · cases (Function.update_self ..).symm.trans here
    · exact inv.ready c' ((Function.update_of_ne other _ _).symm.trans here)

theorem Hc.Inv.activate (inv : s.Inv) (here : s.issuer = .issue c) :
    Hc.Inv { s with active := some c, issuer := .cmd c s.serial, serial := s.serial + 1 } := by
  obtain ⟨status, ready⟩ := inv.issue c here
  obtain ⟨_, held⟩ := inv.quiet (by rw [here]; rfl)
  refine ⟨nofun, fun c' n' current => ?_, nofun, inv.ready, fun n' within other => ?_,
    fun n' above => inv.after n' (Nat.le_of_succ_le above), inv.ends⟩
  · cases current
    exact ⟨rfl, ready, .inl ⟨rfl, status, inv.after _ (Nat.le_refl _), .inl held⟩⟩
  · have apart : n' ≠ s.serial := fun same => other (congrArg some same.symm)
    have within : n' < s.serial := Nat.lt_of_le_of_ne (Nat.le_of_lt_succ within) apart
    exact inv.before n' within (by rw [here]; nofun)

theorem Hc.Inv.goes (inv : s.Inv) {issuer : Issuer} (here : s.issuer.current = some (c, n))
    (current : issuer.current = some (c, n)) (fails : issuer.hasFailed = false) :
    Hc.Inv { s with issuer := issuer } := by
  obtain ⟨serial, ready, state⟩ := inv.current c n here
  refine ⟨fun none => ?_, fun c' n' same => ?_, fun c' issue => ?_, inv.ready,
    fun n' within other => ?_, inv.after, inv.ends⟩
  · cases current.symm.trans none
  · cases current.symm.trans same
    refine ⟨serial, ready, ?_⟩
    rcases state with pending | completed
    · refine .inl ⟨pending.active, pending.status, pending.outcomes, ?_⟩
      exact pending.held.imp_right fun held => ⟨fails, held.2⟩
    · exact .inr ⟨completed.active, completed.status, completed.outcomes, completed.held, fails⟩
  · dsimp only at issue
    rw [issue] at current
    cases current
  · dsimp only at other
    rw [current] at other
    exact inv.before n' within (here ▸ other)

theorem Hc.Inv.fails (inv : s.Inv) (here : s.issuer.current = some (c, n)) (status : Nat)
    (held : s.intr.held = none) (inprog : (s.cmd c).status = CS_CMD_INPROG) :
    Hc.Inv { s with issuer := .failed c n status } := by
  obtain ⟨serial, ready, state⟩ := inv.current c n here
  refine ⟨nofun, fun c' n' same => ?_, nofun, inv.ready, fun n' within other => ?_, inv.after,
    inv.ends⟩
  · cases same
    refine ⟨serial, ready, ?_⟩
    rcases state with pending | completed
    · exact .inl ⟨pending.active, pending.status, pending.outcomes, .inl held⟩
    · exact absurd inprog completed.status
  · exact inv.before n' within (here ▸ other)

theorem Hc.Inv.returns (inv : s.Inv) (here : s.issuer.current = some (c, n))
    (status : (s.cmd c).status ≠ CS_CMD_INPROG) : Hc.Inv { s with issuer := .idle } := by
  obtain ⟨serial, ready, state⟩ := inv.current c n here
  have completed := state.resolve_left fun pending => status pending.status
  refine ⟨fun _ => ⟨completed.active, completed.held⟩, nofun, nofun, inv.ready,
    fun n' within _ => ?_, inv.after, inv.ends⟩
  rcases eq_or_ne n' n with rfl | other
  · exact completed.outcomes
  · refine inv.before n' within ?_
    rw [here]
    exact fun same => other (Option.some.inj same).symm

theorem Hc.finish_status {status c' : Nat} (other : c' ≠ c) :
    ((s.finish c n status).cmd c').status = (s.cmd c').status :=
  congrArg Cmd.status (Function.update_of_ne other _ _)

theorem Hc.finish_ready (inv : s.Inv) (ready : s.ready c = false) (status : Nat) (c' : Nat)
    (here : (s.finish c n status).ready c' = true) :
    ((s.finish c n status).cmd c').status = CS_CMD_INPROG := by
  have other : c' ≠ c := by
    rintro rfl
    cases ready.symm.trans here
  exact (finish_status other).trans (inv.ready c' here)

theorem Hc.Inv.finish_after (inv : s.Inv) (serial : n + 1 = s.serial) (status n' : Nat)
    (above : s.serial ≤ n') : (s.finish c n status).outcomes n' = 0 := by
  have other : n' ≠ n := by omega
  exact (Function.update_of_ne other _ _).trans (inv.after n' above)

theorem Hc.Inv.giveUp (inv : s.Inv) {status : Nat} (here : s.issuer = .failed c n status) :
    Hc.Inv { s.finish c n status with issuer := .idle } := by
  have current : s.issuer.current = some (c, n) := by
    rw [here]
    rfl
  obtain ⟨serial, ready, state⟩ := inv.current c n current
  have failed : s.issuer.hasFailed = true := by
    rw [here]
    rfl
  have pending := state.resolve_right fun completed =>
    absurd (failed.symm.trans completed.waits) nofun
  have held := pending.held.resolve_right fun held => absurd (failed.symm.trans held.1) nofun
  refine ⟨fun _ => ⟨rfl, held⟩, nofun, nofun, Hc.finish_ready (n := n) inv ready status,
    fun n' within _ => ?_, inv.finish_after (c := c) serial status, inv.ends⟩
  rcases eq_or_ne n' n with rfl | other
  · exact (Function.update_self ..).trans (congrArg (· + 1) pending.outcomes)
  · refine (Function.update_of_ne other _ _).trans (inv.before n' within ?_)
    rw [current]
    exact fun same => other (Option.some.inj same).symm

/-! ## The thread of the controller -/

theorem Hc.Inv.away (inv : s.Inv) {intr : Intr} (held : intr.held = none) :
    Hc.Inv { s with intr := intr } := by
  refine ⟨fun none => ⟨(inv.quiet none).1, held⟩, fun c n here => ?_, inv.issue, inv.ready,
    inv.before, inv.after, fun c n cs here => ?_⟩
  · obtain ⟨serial, ready, state⟩ := inv.current c n here
    refine ⟨serial, ready, state.imp (fun pending => ?_) fun completed => ?_⟩
    · exact ⟨pending.active, pending.status, pending.outcomes, .inl held⟩
    · exact ⟨completed.active, completed.status, completed.outcomes, held, completed.waits⟩
  · dsimp only at here
    rw [here] at held
    cases held

theorem Hc.Inv.holds (inv : s.Inv) {intr : Intr} (held : intr.held = some (c, n))
    (here : s.issuer.current = some (c, n)) (active : s.active = some c)
    (waits : s.issuer.hasFailed = false)
    (ends : ∀ c n cs, intr = .complete c n cs → cs ≠ CS_CMD_INPROG) :
    Hc.Inv { s with intr := intr } := by
  refine ⟨fun none => ?_, fun c' n' same => ?_, inv.issue, inv.ready, inv.before, inv.after, ends⟩
  · cases here.symm.trans none
  · cases here.symm.trans same
    obtain ⟨serial, ready, state⟩ := inv.current c n here
    have pending := state.resolve_right fun completed =>
      absurd (active.symm.trans completed.active) nofun
    exact ⟨serial, ready, .inl ⟨active, pending.status, pending.outcomes, .inr ⟨waits, held⟩⟩⟩

theorem Hc.Inv.held (inv : s.Inv) (held : s.intr.held = some (c, n)) :
    s.issuer.current = some (c, n) ∧ s.Pending c n ∧ s.issuer.hasFailed = false := by
  cases here : s.issuer.current with
  | none => cases held.symm.trans (inv.quiet here).2
  | some issue =>
    obtain ⟨c', n'⟩ := issue
    obtain ⟨_, _, state⟩ := inv.current c' n' here
    rcases state with pending | completed
    · rcases pending.held with none | ⟨waits, same⟩
      · cases held.symm.trans none
      · cases held.symm.trans same
        exact ⟨rfl, pending, waits⟩
    · cases held.symm.trans completed.held

theorem Hc.Inv.pick (inv : s.Inv) (sts : BitVec 32)
    (fits : s.active = none ∨ s.issuer.hasFailed = false) :
    Hc.Inv { s with
      intr := match s.active with
        | some c => .picked sts c (s.serial - 1)
        | none => .idle } := by
  cases active : s.active with
  | none =>
    have next : Hc.Inv { s with intr := .idle } := inv.away rfl
    rw [active] at next
    exact next
  | some c =>
    have waits := fits.resolve_left (by rw [active]; nofun)
    cases here : s.issuer.current with
    | none => cases active.symm.trans (inv.quiet here).1
    | some issue =>
      obtain ⟨c', n⟩ := issue
      obtain ⟨serial, _, state⟩ := inv.current c' n here
      have pending := state.resolve_right fun completed =>
        absurd (active.symm.trans completed.active) nofun
      cases active.symm.trans pending.active
      have number : s.serial - 1 = n := by omega
      dsimp only
      rw [number]
      have next : Hc.Inv { s with intr := .picked sts c n } :=
        inv.holds rfl here active waits nofun
      rw [active] at next
      exact next

theorem examine_status (cmd : Cmd) (sts : BitVec 32) (event : Event) :
    (examine cmd sts event).2.status = cmd.status := by
  unfold examine
  split
  · rfl
  · dsimp only
    split
    · split
      · rfl
      · rfl
    · split
      · rfl
      · rfl

theorem Hc.Inv.examine (inv : s.Inv) {sts : BitVec 32} (here : s.intr = .picked sts c n)
    (event : Event) :
    Hc.Inv { s.setCmd c (examine (s.cmd c) sts event).2 with
      intr := if (examine (s.cmd c) sts event).1 ≠ CS_CMD_INPROG then
        .complete c n (examine (s.cmd c) sts event).1 else .idle } := by
  have next := inv.setCmd (examine_status (s.cmd c) sts event)
  obtain ⟨current, pending, waits⟩ := inv.held (c := c) (n := n) (by rw [here]; rfl)
  split
  · next ends =>
    apply next.holds rfl current pending.active waits
    intro c' n' cs same
    cases same
    exact ends
  · exact next.away rfl

theorem Hc.Inv.complete (inv : s.Inv) {cs : Nat} (here : s.intr = .complete c n cs) :
    Hc.Inv { s.finish c n cs with intr := .idle } := by
  have ends := inv.ends c n cs here
  obtain ⟨current, pending, waits⟩ := inv.held (c := c) (n := n) (by rw [here]; rfl)
  obtain ⟨serial, ready, _⟩ := inv.current c n current
  refine ⟨fun _ => ⟨rfl, rfl⟩, fun c' n' same => ?_, fun c' issue => ?_,
    Hc.finish_ready (n := n) inv ready cs, fun n' within other => ?_,
    inv.finish_after (c := c) serial cs, nofun⟩
  · cases current.symm.trans same
    refine ⟨serial, ready, .inr ⟨rfl, ?_, ?_, rfl, waits⟩⟩
    · exact fun inprog => ends ((congrArg Cmd.status (Function.update_self ..)).symm.trans inprog)
    · exact (Function.update_self ..).trans (congrArg (· + 1) pending.outcomes)
  · have issue : s.issuer = .issue c' := issue
    rw [issue] at current
    cases current
  · have apart : n' ≠ n := by
      rintro rfl
      refine other ?_
      change s.issuer.current.map Prod.snd = some n'
      rw [current]
      rfl
    exact (Function.update_of_ne apart _ _).trans (inv.before n' within other)

/-! ## Runs -/

theorem Hc.Inv.issuerStep (inv : s.Inv) {action : Action} (ran : s.issuerStep action = some t)
    (fits : s.Fits action) : t.Inv := by
  have under {issue : Nat × Nat} (here : s.issuer.current = some issue) :
      issue ∈ s.issuer.current := here
  unfold Hc.issuerStep at ran
  split at ran
  case h_1 idle =>
    cases ran
    exact inv.alloc idle
  case h_2 idle =>
    cases ran
    refine inv.client idle rfl rfl rfl rfl (congrArg Issuer.current idle) (fun c here => ?_)
      inv.ready
    cases idle.symm.trans here
  case h_3 idle =>
    cases ran
    exact inv.setCmd rfl
  case h_4 idle =>
    cases ran
    exact inv.send idle
  case h_5 idle =>
    obtain ⟨ready, issued⟩ := Option.ite_none_right_eq_some.mp ran
    cases issued
    exact inv.issued idle ready
  case h_6 here =>
    cases ran
    exact inv.activate here
  case h_7 c n here =>
    cases ran
    exact inv.goes (c := c) (n := n) (by rw [here]; rfl) rfl rfl
  case h_8 c n status here =>
    cases ran
    have current : s.issuer.current = some (c, n) := by
      rw [here]
      rfl
    exact inv.fails current status fits.1 (fits.2 (c, n) (under current))
  case h_9 c n here =>
    cases ran
    have current : s.issuer.current = some (c, n) := by
      rw [here]
      rfl
    split
    · exact inv.goes current rfl rfl
    · next status =>
      exact inv.returns current status
  case h_10 c n timedOut here =>
    cases ran
    have current : s.issuer.current = some (c, n) := by
      rw [here]
      rfl
    cases timedOut with
    | true => exact inv.fails current ETIMEDOUT fits.1 (fits.2 (c, n) (under current))
    | false => exact inv.goes current rfl rfl
  case h_11 c n status here =>
    cases ran
    exact inv.giveUp here
  case h_12 => cases ran

theorem Hc.Inv.intrStep (inv : s.Inv) {action : Action} (ran : s.intrStep action = some t)
    (fits : s.Fits action) : t.Inv := by
  unfold Hc.intrStep at ran
  split at ran
  case h_1 sts here =>
    cases ran
    exact inv.away rfl
  case h_2 sts here =>
    cases ran
    exact inv.pick sts fits
  case h_3 sts c n event here =>
    cases ran
    exact inv.examine here event
  case h_4 c n cs here =>
    cases ran
    exact inv.complete here
  case h_5 => cases ran

theorem Hc.Inv.step (inv : s.Inv) {action : Action} (ran : s.step action = some t)
    (fits : s.Fits action) : t.Inv := by
  unfold Hc.step at ran
  cases action with
  | event sts => exact inv.intrStep ran fits
  | pick => exact inv.intrStep ran fits
  | examine event => exact inv.intrStep ran fits
  | complete => exact inv.intrStep ran fits
  | _ => exact inv.issuerStep ran fits

theorem Hc.Inv.once (inv : s.Inv) : s.Once := by
  intro n within
  refine ⟨?_, inv.before n within⟩
  cases here : s.issuer.current with
  | none => exact Nat.le_of_eq (inv.before n within (by rw [here]; nofun))
  | some issue =>
    obtain ⟨c, n'⟩ := issue
    rcases eq_or_ne n' n with rfl | other
    · rcases (inv.current c n' here).2.2 with pending | completed
      · exact Nat.le_of_lt (pending.outcomes ▸ Nat.zero_lt_one)
      · exact Nat.le_of_eq completed.outcomes
    · refine Nat.le_of_eq (inv.before n within ?_)
      rw [here]
      exact fun same => other (Option.some.inj same)

theorem Issuer.waits_of_current {issuer : Issuer} {issue : Nat × Nat}
    (here : issuer.current = some issue) (waits : issuer.hasFailed = false) :
    issuer.waits = some issue := by
  cases issuer with
  | failed c n status => cases waits
  | _ => exact here

theorem Hc.alloc_active : s.alloc.active = s.active := by
  unfold Hc.alloc
  split
  · rfl
  · rfl

theorem Hc.Inv.issuer_cleared (inv : s.Inv) {action : Action} (ran : s.issuerStep action = some t)
    (active : s.active = some c) (cleared : t.active ≠ some c) :
    action = .giveUp ∧ ∃ n status, s.issuer = .failed c n status := by
  unfold Hc.issuerStep at ran
  split at ran
  case h_1 idle =>
    cases ran
    exact absurd (Hc.alloc_active.trans active) cleared
  case h_5 idle =>
    obtain ⟨ready, issued⟩ := Option.ite_none_right_eq_some.mp ran
    cases issued
    exact absurd active cleared
  case h_6 here =>
    cases active.symm.trans (inv.quiet (by rw [here]; rfl)).1
  case h_11 c' n status here =>
    have current : s.issuer.current = some (c', n) := by
      rw [here]
      rfl
    rcases (inv.current c' n current).2.2 with pending | completed
    · cases active.symm.trans pending.active
      exact ⟨rfl, n, status, here⟩
    · cases active.symm.trans completed.active
  case h_12 => cases ran
  all_goals
    cases ran
    exact absurd active cleared

theorem Hc.Inv.intr_cleared (inv : s.Inv) {action : Action} (ran : s.intrStep action = some t)
    (active : s.active = some c) (cleared : t.active ≠ some c) :
    action = .complete ∧ ∃ n cs, s.intr = .complete c n cs := by
  unfold Hc.intrStep at ran
  split at ran
  case h_4 c' n cs here =>
    obtain ⟨_, pending, _⟩ := inv.held (c := c') (n := n) (by rw [here]; rfl)
    cases active.symm.trans pending.active
    exact ⟨rfl, n, cs, here⟩
  case h_5 => cases ran
  all_goals
    cases ran
    exact absurd active cleared

theorem Hc.Inv.cleared (inv : s.Inv) {action : Action} (ran : s.step action = some t)
    (active : s.active = some c) (cleared : t.active ≠ some c) :
    (action = .complete ∧ ∃ n cs, s.intr = .complete c n cs) ∨
      (action = .giveUp ∧ ∃ n status, s.issuer = .failed c n status) := by
  unfold Hc.step at ran
  cases action with
  | event sts => exact .inl (inv.intr_cleared ran active cleared)
  | pick => exact .inl (inv.intr_cleared ran active cleared)
  | examine event => exact .inl (inv.intr_cleared ran active cleared)
  | complete => exact .inl (inv.intr_cleared ran active cleared)
  | _ => exact .inr (inv.issuer_cleared ran active cleared)

end Steps

/-- While no command fails that is completed already or that an event works on, every issue ends
once, completions are of the command that is issued, and the active command is cleared as its issue
ends. -/
theorem completion_run {s t : Hc} {actions : List Action} (start : s.Start)
    (run : Run (fun s action t => s.step action = some t ∧ s.Fits action) s actions t) :
    t.Once ∧ ∀ action u, t.step action = some u → t.Completes action u := by
  have inv : t.Inv := Run.invariant (fun inv step => inv.step step.1 step.2) run (.of_start start)
  refine ⟨inv.once, fun action u ran => ⟨fun c n cs _ here => ?_, fun c => inv.cleared ran⟩⟩
  obtain ⟨current, pending, waits⟩ := inv.held (c := c) (n := n) (by rw [here]; rfl)
  exact ⟨Issuer.waits_of_current current waits, pending.active⟩

instance (s : Hc) : ∀ action, Decidable (s.Fits action)
  | .cmd (some _) => inferInstanceAs (Decidable (s.intr.held = none ∧
      ∀ issue ∈ s.issuer.current, (s.cmd issue.1).status = CS_CMD_INPROG))
  | .wake true => inferInstanceAs (Decidable (s.intr.held = none ∧
      ∀ issue ∈ s.issuer.current, (s.cmd issue.1).status = CS_CMD_INPROG))
  | .pick => inferInstanceAs (Decidable (s.active = none ∨ s.issuer.hasFailed = false))
  | .cmd none | .wake false | .alloc | .free _ | .setup _ _ _ | .send _ | .issue _ | .activate
  | .test | .giveUp | .event _ | .examine _ | .complete => .isTrue trivial

/-- A controller before its first command -/
def unused : Hc where
  active := none
  cmd := fun _ => .zero
  clist := []
  next := 0
  ready := fun _ => false
  issuer := .idle
  intr := .idle
  serial := 0
  outcomes := fun _ => 0

theorem unused_start : unused.Start := ⟨rfl, rfl, rfl, rfl, fun _ => rfl, fun _ => rfl⟩

/-- The end of a command, without a response -/
def silent : Event := ⟨fun _ => 0, false, true, true⟩

/-- A command that is completed, and that times out when it is sent again -/
def twoIssues : List Action :=
  [.alloc, .issue 0, .activate, .cmd none, .test, .event IMX6_SDHCX_INTR_CC, .pick, .examine silent,
    .complete, .wake false, .test, .send 0, .issue 0, .activate, .cmd none, .test, .wake true,
    .giveUp]

def afterTwoIssues : Hc :=
  (evalRun Hc.step (fun s action => decide (s.Fits action)) unused twoIssues).getD unused

theorem completion_run_small :
    afterTwoIssues.Once ∧ afterTwoIssues.serial = 2 ∧ afterTwoIssues.clist = [] := by
  have run : Run (fun s action t => s.step action = some t ∧ s.Fits action) unused twoIssues
      afterTwoIssues := Run.of_eval of_decide_eq_true rfl
  exact ⟨(completion_run unused_start run).1, rfl, rfl⟩

/-- An event reads the active command, which times out, is freed and is issued anew before the event
completes it. -/
theorem completion_broken :
    ¬∀ s t : Hc, s.Start → ∀ actions : List Action,
      Run (fun s action t => s.step action = some t) s actions t →
        t.Once ∧ ∀ action u, t.step action = some u → t.Completes action u := by
  intro claim
  let actions : List Action :=
    [.alloc, .issue 0, .activate, .cmd none, .test, .event IMX6_SDHCX_INTR_CC, .pick, .wake true,
      .giveUp, .free 0, .alloc, .issue 0, .activate, .examine silent]
  let late := (evalRun Hc.step (fun _ _ => true) unused actions).getD unused
  have run : Run (fun s action t => s.step action = some t ∧ true = true) unused actions late :=
    Run.of_eval id rfl
  have completes := (claim unused late unused_start actions
    (run.mono fun step => step.1)).2 .complete _ rfl
  exact absurd (completes.issued 0 0 CS_CMD_CMP rfl rfl).1 (by decide)

end Mx6xBsp.Sdmmc.Command
