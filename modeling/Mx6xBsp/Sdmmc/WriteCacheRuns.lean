import Mx6xBsp.Lib.Runs
import Mx6xBsp.Sdmmc.WriteCache

/-!
# What is lost with the write cache

Every exchange with the card is followed along the answers it reads: the cache is
lost with the first answer for which the command layer resets the card
(`Exchange`). A request marks the user partition only by `sdmmc_reset`, and this
depends on the last of its closing answers (`next_after`). So what was lost stays
unmarked exactly when the card is reset within a request that does not end with
`sdmmc_reset`.
-/

namespace Mx6xBsp.Sdmmc.WriteCache

open Traces
open Runs
open Command (CS_CMD_CMP CS_CMD_INPROG ETIMEDOUT has)

variable {c : Conf}

/-! ## Exchanges -/

/-- The answers `used` were read, and the card was reset for those that make the command layer do
so. -/
structure Exchange (c : Conf) (used : List Answer) (d t : Dev) : Prop where
  script : d.script = used ++ t.script
  closing : t.closing = d.closing
  lost : t.lost = (d.lost || (d.cached && used.any (·.resets c)))
  cached : t.cached = (d.cached && !used.any (·.resets c))

theorem Exchange.refl {d t : Dev} (script : d.script = t.script) (closing : t.closing = d.closing)
    (lost : t.lost = d.lost) (cached : t.cached = d.cached) : Exchange c [] d t where
  script := script
  closing := closing
  lost := by rw [lost, List.any_nil, Bool.and_false, Bool.or_false]
  cached := by rw [cached, List.any_nil, Bool.not_false, Bool.and_true]

theorem tracing : Tracing (Exchange c) where
  nil _ := .refl rfl rfl rfl rfl
  append := by
    intro xs ys s t u first second
    refine ⟨?_, second.closing.trans first.closing, ?_, ?_⟩
    · rw [first.script, second.script, List.append_assoc]
    · rw [second.lost, first.lost, first.cached, List.any_append]
      cases s.lost <;> cases s.cached <;> cases xs.any (·.resets c) <;> rfl
    · rw [second.cached, first.cached, List.any_append, Bool.not_or, Bool.and_assoc]

theorem does_modify {f : Dev → Dev} {Q : List Answer → PUnit → Prop}
    (script : ∀ d, (f d).script = d.script) (closing : ∀ d, (f d).closing = d.closing)
    (lost : ∀ d, (f d).lost = d.lost) (cached : ∀ d, (f d).cached = d.cached)
    (holds : Q [] ⟨⟩) : Does (Exchange c) (modify f : Lower PUnit) Q := by
  intro d a t run
  cases run
  exact ⟨[], .refl (script d).symm (closing d) (lost d) (cached d), holds⟩

theorem does_modify_bind {β : Type} {f : Dev → Dev} {g : PUnit → Lower β}
    {S : List Answer → β → Prop}
    (script : ∀ d, (f d).script = d.script) (closing : ∀ d, (f d).closing = d.closing)
    (lost : ∀ d, (f d).lost = d.lost) (cached : ∀ d, (f d).cached = d.cached)
    (rest : Does (Exchange c) (g ⟨⟩) S) : Does (Exchange c) (modify f >>= g) S := by
  refine Does.bind tracing (Q := fun used _ => used = []) ?_ fun _ _ none => ?_
  · exact does_modify script closing lost cached rfl
  · rw [none]
    exact rest

theorem does_reply {β : Type} {f : Reply → Lower β} {S : List Answer → β → Prop}
    (kept : ∀ r, r.lost = false → Does (Exchange c) (f r) fun ys b => S (.reply r :: ys) b)
    (lost : ∀ r, r.lost = true → ∃ b, f r = (sdioReset >>= fun _ => pure b) ∧ S [.reply r] b) :
    Does (Exchange c) (reply >>= f) S := by
  intro d b u run
  obtain ⟨r, t, read, rest⟩ := bind_eq_some.mp run
  unfold reply at read
  split at read
  case h_2 => cases read
  case h_1 r' more script =>
    cases read
    cases isLost : r.lost with
    | false =>
      obtain ⟨ys, after, holds⟩ := kept r isLost rest
      refine ⟨.reply r :: ys, ?_, holds⟩
      have before : Exchange c [.reply r] d { d with script := more } := by
        refine ⟨script, rfl, ?_, ?_⟩
        · change d.lost = (d.lost || (d.cached && (r.lost || false)))
          rw [isLost, Bool.or_false, Bool.and_false, Bool.or_false]
        · change d.cached = (d.cached && !(r.lost || false))
          rw [isLost, Bool.or_false, Bool.not_false, Bool.and_true]
      exact tracing.append before after
    | true =>
      obtain ⟨b', same, holds⟩ := lost r isLost
      rw [same] at rest
      cases rest
      refine ⟨[.reply r], ⟨script, rfl, ?_, ?_⟩, holds⟩
      · change (d.lost || d.cached) = (d.lost || (d.cached && (r.lost || false)))
        rw [isLost, Bool.or_false, Bool.and_true]
      · change false = (d.cached && !(r.lost || false))
        rw [isLost, Bool.or_false, Bool.not_true, Bool.and_false]

/-! ## How an exchange ends -/

/-- The last answer is not good by the card status. -/
def Fails (status : BitVec 32 → Bool) (used : List Answer) : Prop :=
  ∃ pre a, used = pre ++ [a] ∧ a.good status = false

/-- The last answer is good by the card status. -/
def Succeeds (status : BitVec 32 → Bool) (used : List Answer) : Prop :=
  ∃ pre a, used = pre ++ [a] ∧ a.good status = true

def anyStatus : BitVec 32 → Bool := fun _ => true

theorem Fails.append {status : BitVec 32 → Bool} {used : List Answer} (xs : List Answer)
    (fails : Fails status used) : Fails status (xs ++ used) := by
  obtain ⟨pre, a, rfl, bad⟩ := fails
  exact ⟨xs ++ pre, a, (List.append_assoc ..).symm, bad⟩

theorem Succeeds.append {status : BitVec 32 → Bool} {used : List Answer} (xs : List Answer)
    (succeeds : Succeeds status used) : Succeeds status (xs ++ used) := by
  obtain ⟨pre, a, rfl, fine⟩ := succeeds
  exact ⟨xs ++ pre, a, (List.append_assoc ..).symm, fine⟩

theorem Answer.good_mono {status other : BitVec 32 → Bool} {a : Answer}
    (weaker : ∀ rsp, status rsp = true → other rsp = true) (good : a.good status = true) :
    a.good other = true := by
  cases a with
  | pm w => cases good
  | reply r =>
    obtain ⟨done, fine⟩ := Bool.and_eq_true_iff.mp good
    exact Bool.and_eq_true_iff.mpr ⟨done, weaker _ fine⟩

theorem Fails.mono {status other : BitVec 32 → Bool} {used : List Answer}
    (stronger : ∀ rsp, other rsp = true → status rsp = true) (fails : Fails status used) :
    Fails other used := by
  obtain ⟨pre, a, rfl, bad⟩ := fails
  refine ⟨pre, a, rfl, Bool.eq_false_iff.mpr fun good => ?_⟩
  rw [Answer.good_mono stronger good] at bad
  cases bad

/-- A command that ends with `EOK` has the response of the last reply, and otherwise the last answer
was not good. -/
structure Sent.Ends (used : List Answer) (sent : Sent) : Prop where
  eok : sent.status = EOK → Succeeds (· == sent.rsp) used
  error : sent.status ≠ EOK → Fails anyStatus used

theorem Sent.Ends.append {used : List Answer} {sent : Sent} (xs : List Answer)
    (ends : sent.Ends used) : sent.Ends (xs ++ used) :=
  ⟨fun eok => (ends.eok eok).append xs, fun error => (ends.error error).append xs⟩

theorem eok_of_done {r : Reply} (issued : r.issue = EOK) (complete : r.status = CS_CMD_CMP) :
    r.done = true := by
  unfold Reply.done
  rw [issued, complete]
  rfl

theorem not_done_of_status {r : Reply} (incomplete : r.status ≠ CS_CMD_CMP) : r.done = false := by
  unfold Reply.done
  rw [beq_false_of_ne incomplete, Bool.and_false]

theorem not_done_of_issue {r : Reply} (failed : r.issue ≠ EOK) : r.done = false := by
  unfold Reply.done
  rw [beq_false_of_ne failed, Bool.false_and]

theorem Sent.ends_of_error {r : Reply} {sent : Sent} (undone : r.done = false)
    (error : sent.status ≠ EOK) : sent.Ends [.reply r] where
  eok eok := absurd eok error
  error _ := ⟨[], .reply r, rfl, Bool.and_eq_false_imp.mpr fun done => by
    rw [undone] at done
    cases done⟩

section Loop

variable {first : Lower Nat}
  (before : Does (Exchange c) first fun used status => status ≠ EOK → Fails anyStatus used)

include before

theorem sendTurn_ends {rsp : BitVec 32} {again : Reply → Lower Sent}
    (later : ∀ r, r.lost = false → r.done = false →
      Does (Exchange c) (again r) fun used sent => sent.Ends (.reply r :: used)) :
    Does (Exchange c) (sendTurn first rsp again) fun used sent => sent.Ends used := by
  refine Does.bind tracing before fun xs status failed => ?_
  refine Does.ite (fun bad => ?_) fun fine => ?_
  · exact Does.last tracing ⟨fun eok => absurd eok bad, fun _ => failed bad⟩
  refine Does.mono (does_reply ?_ ?_) fun _ _ ends => Sent.Ends.append xs ends
  · intro r kept
    refine Does.ite (fun bad => ?_) fun issued => ?_
    · refine Does.ite (fun present => ?_) fun _ => ?_
      · unfold Reply.lost at kept
        rw [present, Bool.and_true, bne_eq_false_iff_eq] at kept
        exact absurd kept bad
      · exact Does.pure tracing (Sent.ends_of_error (not_done_of_issue bad) bad)
    refine Does.ite (fun complete => ?_) fun incomplete => ?_
    · refine Does.pure tracing ⟨fun _ => ⟨[], .reply r, rfl, ?_⟩, fun error => absurd rfl error⟩
      exact Bool.and_eq_true_iff.mpr
        ⟨eok_of_done (not_not.mp issued) complete, beq_self_eq_true _⟩
    have undone := not_done_of_status incomplete
    refine Does.ite (fun _ => ?_) fun _ => Does.ite (fun _ => ?_) fun _ => later r kept undone
    · exact Does.pure tracing (Sent.ends_of_error undone (by decide : ENXIO ≠ EOK))
    · exact Does.pure tracing (Sent.ends_of_error undone (by decide : EIO ≠ EOK))
  · intro r lost
    obtain ⟨bad, present⟩ := Bool.and_eq_true_iff.mp lost
    have bad := bne_iff_ne.mp bad
    refine ⟨⟨r.issue, r.issue, r.rsp⟩, ?_, Sent.ends_of_error (not_done_of_issue bad) bad⟩
    rw [if_pos bad, if_pos present]

theorem sendLoop_ends (retries : Nat) (rsp : BitVec 32) :
    Does (Exchange c) (sendLoop first retries rsp) fun used sent => sent.Ends used := by
  induction retries generalizing rsp with
  | zero =>
    refine sendTurn_ends before fun r _ undone => ?_
    exact Does.pure tracing (Sent.ends_of_error undone (by decide : EIO ≠ EOK))
  | succ retries ih =>
    refine sendTurn_ends before fun r _ _ => ?_
    exact Does.mono (ih r.rsp) fun _ _ ends => Sent.Ends.append [.reply r] ends

end Loop

theorem skip_ends : Does (Exchange c) skip fun used status => status ≠ EOK → Fails anyStatus used :=
  Does.pure tracing fun error => absurd rfl error

/-! ## Waking the card and putting it to sleep -/

/-- A status is `EOK` exactly when the last answer is good by the card status. -/
structure Reports (status : BitVec 32 → Bool) (used : List Answer) (result : Nat) : Prop where
  eok : result = EOK → Succeeds status used
  error : result ≠ EOK → Fails status used

theorem Reports.append {status : BitVec 32 → Bool} {used : List Answer} {result : Nat}
    (xs : List Answer) (reports : Reports status used result) :
    Reports status (xs ++ used) result :=
  ⟨fun eok => (reports.eok eok).append xs, fun error => (reports.error error).append xs⟩

theorem Sent.Ends.reports {used : List Answer} {sent : Sent} (ends : sent.Ends used) :
    Reports anyStatus used sent.status where
  eok eok := by
    obtain ⟨pre, a, same, good⟩ := ends.eok eok
    exact ⟨pre, a, same, Answer.good_mono (fun _ _ => rfl) good⟩
  error := ends.error

theorem selectCard_reports : Does (Exchange c) selectCard (Reports anyStatus) := by
  refine Does.bind tracing (sendLoop_ends skip_ends _ _) fun xs sent ends => ?_
  have last := Does.last (E := Exchange c) tracing ends.reports
  refine Does.ite (fun _ => ?_) fun _ => last
  exact does_modify_bind (fun _ => rfl) (fun _ => rfl) (fun _ => rfl) (fun _ => rfl) last

theorem mmcSleepAwake_reports : Does (Exchange c) mmcSleepAwake (Reports anyStatus) := by
  refine Does.bind tracing (sendLoop_ends skip_ends _ _) fun xs sent ends => ?_
  exact Does.last tracing ends.reports

theorem reports_andThen {m n : Lower Nat} (first : Does (Exchange c) m (Reports anyStatus))
    (second : Does (Exchange c) n (Reports anyStatus)) :
    Does (Exchange c) (m >>= fun status => if status = EOK then n else pure status)
      (Reports anyStatus) := by
  refine Does.bind tracing first fun xs status reports => ?_
  refine Does.ite (fun _ => ?_) fun error => Does.last tracing reports
  exact Does.mono second fun _ _ later => later.append xs

theorem awake_reports : Does (Exchange c) awake (Reports anyStatus) :=
  reports_andThen mmcSleepAwake_reports selectCard_reports

theorem fallAsleep_reports : Does (Exchange c) fallAsleep (Reports anyStatus) :=
  reports_andThen selectCard_reports mmcSleepAwake_reports

theorem onScript_eq_some {α : Type} {answers : List Answer} {m : Lower α} {d u : Dev} {a : α} :
    onScript answers m d = some (a, u) ↔
      ∃ t, m { d with script := answers } = some (a, t) ∧ t.script = [] ∧
        u = { t with script := d.script } := by
  refine Option.bind_eq_some_iff.trans ⟨?_, ?_⟩
  · rintro ⟨⟨a', t⟩, run, rest⟩
    obtain ⟨empty, same⟩ := Option.ite_none_right_eq_some.mp rest
    cases same
    exact ⟨t, run, List.isEmpty_iff.mp empty, rfl⟩
  · rintro ⟨t, run, empty, rfl⟩
    exact ⟨(a, t), run, if_pos (List.isEmpty_iff.mpr empty)⟩

theorem Does.onScript {α : Type} {answers : List Answer} {m : Lower α}
    {Q : List Answer → α → Prop} (does : Does (Exchange c) m Q) {d u : Dev} {a : α}
    (run : onScript answers m d = some (a, u)) :
    Q answers a ∧ u.script = d.script ∧ u.closing = d.closing ∧
      u.lost = (d.lost || (d.cached && answers.any (·.resets c))) ∧
      u.cached = (d.cached && !answers.any (·.resets c)) := by
  obtain ⟨t, inner, empty, rfl⟩ := onScript_eq_some.mp run
  obtain ⟨used, leads, holds⟩ := does inner
  have all : answers = used := by
    have script := leads.script
    rw [empty, List.append_nil] at script
    exact script
  rw [all]
  exact ⟨holds, rfl, leads.closing, leads.lost, leads.cached⟩

theorem getLast?_of_reports {replies : List Reply} {result : Nat}
    (reports : Reports anyStatus (replies.map .reply) result) :
    (replies.getLast?.any Reply.done) = (result == EOK) := by
  have last : ∀ {pre : List Answer} {a : Answer}, replies.map .reply = pre ++ [a] →
      replies.getLast?.any Reply.done = a.good anyStatus := by
    intro pre a same
    have mapped : (replies.map Answer.reply).getLast? = some a := by
      rw [same, List.getLast?_append, List.getLast?_singleton, Option.some_or]
    rw [List.getLast?_map] at mapped
    obtain ⟨r, found, rfl⟩ := Option.map_eq_some_iff.mp mapped
    rw [found]
    exact (Bool.and_true _).symm
  cases Nat.decEq result EOK with
  | isTrue eok =>
    obtain ⟨pre, a, same, good⟩ := reports.eok eok
    rw [last same, good, eok]
    rfl
  | isFalse error =>
    obtain ⟨pre, a, same, bad⟩ := reports.error error
    rw [last same, bad, beq_false_of_ne error]

/-- The card was reset if waking it or putting it to sleep failed. -/
structure Changed (c : Conf) (w : Change) (d t : Dev) : Prop where
  script : t.script = d.script
  closing : t.closing = d.closing
  lost : t.lost = (d.lost || (d.cached && w.fails c))
  cached : t.cached = (d.cached && !w.fails c)

theorem does_change {β : Type} {f : Change → Lower β} {S : List Answer → β → Prop}
    (each : ∀ {w d b t}, f w d = some (b, t) → Changed c w d t ∧ S [.pm w] b) :
    Does (Exchange c) (change >>= f) S := by
  intro d b t run
  obtain ⟨w, u, read, rest⟩ := bind_eq_some.mp run
  unfold change at read
  split at read
  case h_2 => cases read
  case h_1 w' more script =>
    cases read
    obtain ⟨changed, holds⟩ := each rest
    refine ⟨[.pm w], ⟨?_, changed.closing, ?_, ?_⟩, holds⟩
    · rw [script, changed.script]
      rfl
    · rw [changed.lost, List.any_cons, List.any_nil, Bool.or_false]
      rfl
    · rw [changed.cached, List.any_cons, List.any_nil, Bool.or_false]
      rfl

theorem Changed.reset {w : Change} {d u : Dev} (fails : w.fails c = true)
    (script : u.script = d.script) (closing : u.closing = d.closing)
    (all : (u.lost || u.cached) = (d.lost || d.cached)) : Changed c w d u.reset where
  script := script
  closing := closing
  lost := by
    rw [fails, Bool.and_true]
    exact all
  cached := by
    rw [fails, Bool.not_true, Bool.and_false]
    rfl

theorem Changed.of_fine {w : Change} {d : Dev} (fine : w.fails c = false) : Changed c w d d where
  script := rfl
  closing := rfl
  lost := by rw [fine, Bool.and_false, Bool.or_false]
  cached := by rw [fine, Bool.not_false, Bool.and_true]

theorem changed {m : Lower Nat} (reports : Does (Exchange c) m (Reports anyStatus)) {w : Change}
    (command : c.sleep = true) {d u : Dev} {result : Nat}
    (run : onScript (w.replies.map .reply) m d = some (result, u)) :
    if result = EOK then Changed c w d u else Changed c w d u.reset := by
  obtain ⟨ends, script, closing, lost, cached⟩ := Does.onScript reports run
  have known : w.fails c = (w.replies.any Reply.lost || !(result == EOK)) := by
    rw [Change.fails, if_pos command, getLast?_of_reports ends]
  have same : (w.replies.map Answer.reply).any (·.resets c) = w.replies.any Reply.lost :=
    List.any_map
  rw [same] at lost cached
  split
  next eok =>
    have fails : w.fails c = w.replies.any Reply.lost := by
      rw [known, eok, beq_self_eq_true, Bool.not_true, Bool.or_false]
    exact ⟨script, closing, fails ▸ lost, fails ▸ cached⟩
  next error =>
    have fails : w.fails c = true := by
      rw [known, beq_false_of_ne error, Bool.not_false, Bool.or_true]
    refine Changed.reset fails script closing ?_
    rw [lost, cached]
    cases d.lost <;> cases d.cached <;> cases w.replies.any Reply.lost <;> rfl

theorem pwrActive_fails : Does (Exchange c) (pwrActive c)
    fun used status => status ≠ EOK → Fails anyStatus used := by
  refine Does.get_bind tracing fun d => ?_
  refine Does.ite (fun _ => Does.pure tracing fun error => absurd rfl error) fun _ => ?_
  refine does_modify_bind (fun _ => rfl) (fun _ => rfl) (fun _ => rfl) (fun _ => rfl) ?_
  refine Does.ite (fun _ => ?_) fun _ => Does.pure tracing fun error => absurd rfl error
  refine does_change fun {w d b t} run => ?_
  refine ⟨?_, fun _ => ⟨[], .pm w, rfl, rfl⟩⟩
  split at run
  next command =>
    obtain ⟨result, u, inner, rest⟩ := bind_eq_some.mp run
    have ends := changed awake_reports command inner
    split at rest
    next error =>
      rw [if_neg error] at ends
      cases rest
      exact ends
    next eok =>
      rw [if_pos (not_not.mp eok)] at ends
      cases rest
      exact ends
  next command =>
    have fails : w.fails c = w.present := if_neg command
    split at run
    next present =>
      cases run
      exact Changed.reset (fails.trans present) rfl rfl rfl
    next absent =>
      cases run
      exact Changed.of_fine (fails.trans (Bool.eq_false_iff.mpr absent))

theorem pwrSleep_does : Does (Exchange c) (pwrSleep c) fun _ _ => True := by
  refine Does.get_bind tracing fun d => ?_
  refine Does.ite (fun _ => Does.pure tracing trivial) fun _ => ?_
  refine Does.ite (fun able => ?_) fun _ => ?_
  · refine does_change fun {w d b t} run => ⟨?_, trivial⟩
    obtain ⟨result, u, inner, rest⟩ := bind_eq_some.mp run
    have ends := changed fallAsleep_reports able.2 inner
    split at rest
    next error =>
      rw [if_neg error] at ends
      cases rest
      exact ⟨ends.script, ends.closing, ends.lost, ends.cached⟩
    next eok =>
      rw [if_pos (not_not.mp eok)] at ends
      cases rest
      exact ⟨ends.script, ends.closing, ends.lost, ends.cached⟩
  · refine does_modify_bind (fun _ => rfl) (fun _ => rfl) (fun _ => rfl) (fun _ => rfl) ?_
    exact Does.pure tracing trivial

theorem pwrIdle_does : Does (Exchange c) (pwrIdle c) fun _ _ => True := by
  refine Does.get_bind tracing fun d => ?_
  refine Does.ite (fun _ => ?_) fun _ => Does.pure tracing trivial
  refine does_modify_bind (fun _ => rfl) (fun _ => rfl) (fun _ => rfl) (fun _ => rfl) ?_
  exact Does.pure tracing trivial

/-! ## Commands -/

theorem sendCmd_ends {first : Lower Nat}
    (before : Does (Exchange c) first fun used status => status ≠ EOK → Fails anyStatus used)
    (retries : Nat) :
    Does (Exchange c) (sendCmd c first retries) fun used sent => sent.Ends used := by
  refine Does.bind tracing pwrActive_fails fun xs status failed => ?_
  refine Does.ite (fun bad => ?_) fun _ => ?_
  · exact Does.last tracing ⟨fun eok => absurd eok bad, fun _ => failed bad⟩
  · exact Does.mono (sendLoop_ends before retries 0) fun _ _ ends => Sent.Ends.append xs ends

theorem status_reports (retries : Nat) :
    Does (Exchange c) (sendCmd c skip retries >>= fun sent => pure sent.status)
      (Reports anyStatus) := by
  refine Does.bind tracing (sendCmd_ends skip_ends retries) fun xs sent ends => ?_
  exact Does.last tracing ends.reports

theorem setBlockCount_fails : Does (Exchange c) (setBlockCount c)
    fun used status => status ≠ EOK → Fails anyStatus used :=
  Does.mono (status_reports 0) fun _ _ reports => reports.error

theorem stopTransmission_reports : Does (Exchange c) (stopTransmission c) (Reports anyStatus) :=
  status_reports 0

/-- How `_sdio_send_status` ends -/
structure Heard (used : List Answer) (result : Nat × BitVec 32) : Prop where
  eok : result.1 = EOK → Succeeds (· == result.2) used
  error : result.1 ≠ EOK → Fails anyStatus used

theorem sendStatus_heard : Does (Exchange c) (sendStatus c) Heard := by
  refine Does.bind tracing (sendCmd_ends skip_ends _) fun xs sent ends => ?_
  refine Does.last tracing ?_
  split
  next eok => exact ⟨fun _ => ends.eok eok, fun error => absurd rfl error⟩
  next error => exact ⟨fun eok => absurd eok error, fun _ => ends.error error⟩

theorem Heard.fails {used : List Answer} {result : Nat × BitVec 32} (heard : Heard used result)
    {status : BitVec 32 → Bool} (bad : result.1 ≠ EOK ∨ status result.2 = false) :
    Fails status used := by
  rcases Decidable.em (result.1 = EOK) with eok | error
  · obtain ⟨pre, a, rfl, good⟩ := heard.eok eok
    refine ⟨pre, a, rfl, Bool.eq_false_iff.mpr fun passes => ?_⟩
    have unfit := bad.resolve_left (not_not.mpr eok)
    cases a with
    | pm w => cases good
    | reply r =>
      have same := beq_iff_eq.mp (Bool.and_eq_true_iff.mp good).2
      rw [← same, (Bool.and_eq_true_iff.mp passes).2] at unfit
      cases unfit
  · exact (heard.error error).mono fun _ _ => rfl

theorem Heard.succeeds {used : List Answer} {result : Nat × BitVec 32} (heard : Heard used result)
    {status : BitVec 32 → Bool} (eok : result.1 = EOK) (fine : status result.2 = true) :
    Succeeds status used := by
  obtain ⟨pre, a, rfl, good⟩ := heard.eok eok
  refine ⟨pre, a, rfl, Answer.good_mono (fun rsp same => ?_) good⟩
  rw [beq_iff_eq.mp same]
  exact fine

/-- The card status that `_sdio_wait_card_status` waits for -/
def passes (mask val : BitVec 32) (rsp : BitVec 32) : Bool :=
  !Command.has rsp CDS_ERROR_MSK && rsp &&& mask == val

theorem waitLoop_reports (mask val : BitVec 32) (msec : Nat) (rsp : BitVec 32) :
    Does (Exchange c) (waitLoop c mask val msec rsp) fun used result =>
      (used = [] ∧ msec = 0 ∧ result.1 ≠ EOK) ∨ Reports (passes mask val) used result.1 := by
  induction msec generalizing rsp with
  | zero => exact Does.pure tracing (.inl ⟨rfl, rfl, (by decide : Command.ETIMEDOUT ≠ EOK)⟩)
  | succ msec ih =>
    refine Does.bind tracing sendStatus_heard fun xs result heard => ?_
    refine Does.ite (fun error => ?_) fun eok => ?_
    · refine Does.pure tracing (.inr ⟨fun eok => absurd eok error, fun _ => ?_⟩)
      rw [List.append_nil]
      exact heard.fails (.inl error)
    have eok := not_not.mp eok
    refine Does.ite (fun bits => ?_) fun clear => ?_
    · refine Does.pure tracing (.inr ⟨nofun, fun _ => ?_⟩)
      rw [List.append_nil]
      refine heard.fails (.inr ?_)
      unfold passes
      rw [bits, Bool.not_true, Bool.false_and]
    have clear := Bool.eq_false_iff.mpr clear
    refine Does.ite (fun there => ?_) fun away => ?_
    · refine Does.pure tracing (.inr ⟨fun _ => ?_, fun error => absurd rfl error⟩)
      rw [List.append_nil]
      refine heard.succeeds eok ?_
      unfold passes
      rw [clear, Bool.not_false, Bool.true_and, beq_iff_eq]
      exact there
    · have fails : Fails (passes mask val) xs := by
        refine heard.fails (.inr ?_)
        unfold passes
        rw [beq_false_of_ne away, Bool.and_false]
      refine Does.mono (ih result.2) fun ys later ends => .inr ?_
      rcases ends with ⟨rfl, _, error⟩ | reports
      · refine ⟨fun eok => absurd eok error, fun _ => ?_⟩
        rw [List.append_nil]
        exact fails
      · exact reports.append xs

theorem waitCardStatus_reports (mask val : BitVec 32) (msec : Nat) :
    Does (Exchange c) (waitCardStatus c mask val msec) fun used result =>
      Reports (passes mask val) used result.1 := by
  refine Does.mono (waitLoop_reports mask val (max msec 1) 0) fun _ _ ends => ?_
  exact ends.resolve_left fun ⟨_, zero, _⟩ => absurd zero (by omega)

/-- The status after which nothing is done to a card: `sdio_hpi` waits for it. -/
def free : BitVec 32 → Bool :=
  passes (CDS_READY_FOR_DATA ||| CDS_CUR_STATE_MSK) (CDS_READY_FOR_DATA ||| CDS_CUR_STATE_TRAN)

theorem mmcSwitch_does (timeout : Nat) :
    Does (Exchange c) (mmcSwitch c timeout) fun _ _ => True := by
  refine Does.bind tracing (sendCmd_ends skip_ends _) fun _ sent _ => ?_
  refine Does.ite (fun _ => ?_) fun _ => Does.pure tracing trivial
  refine Does.bind tracing (waitCardStatus_reports _ _ _) fun _ result _ => ?_
  exact Does.pure tracing trivial

theorem mmcSetPartition_does (partition : Nat) :
    Does (Exchange c) (mmcSetPartition c partition) fun _ _ => True := by
  refine Does.get_bind tracing fun d => ?_
  refine Does.ite (fun _ => Does.pure tracing trivial) fun _ => ?_
  refine Does.bind tracing (mmcSwitch_does _) fun _ status _ => ?_
  refine Does.ite (fun _ => ?_) fun _ => Does.pure tracing trivial
  refine does_modify_bind (fun _ => rfl) (fun _ => rfl) (fun _ => rfl) (fun _ => rfl) ?_
  exact Does.pure tracing trivial

theorem mmcCacheFlush_does (timeout : Nat) :
    Does (Exchange c) (mmcCacheFlush c timeout) fun _ _ => True := by
  refine Does.get_bind tracing fun d => ?_
  exact Does.ite (fun _ => mmcSwitch_does timeout) fun _ => Does.pure tracing trivial

theorem sdioHpi_reports (timeout : Nat) : Does (Exchange c) (sdioHpi c timeout) (Reports free) := by
  refine Does.bind tracing (waitCardStatus_reports _ _ _) fun xs first reports => ?_
  refine Does.ite (fun _ => ?_) fun _ => ?_
  · have stopped : Does (Exchange c)
        (if c.hpiCmd12 then stopTransmission c else
          sendStatus c >>= fun result => pure result.1)
        fun used status => status ≠ EOK → Fails anyStatus used := by
      refine Does.ite (fun _ => ?_) fun _ => ?_
      · exact Does.mono stopTransmission_reports fun _ _ reports => reports.error
      · refine Does.bind tracing sendStatus_heard fun ys result heard => ?_
        refine Does.pure tracing fun error => ?_
        rw [List.append_nil]
        exact heard.error error
    refine Does.bind tracing stopped fun ys status failed => ?_
    refine Does.ite (fun _ => ?_) fun error => ?_
    · refine Does.bind tracing (waitCardStatus_reports _ _ _) fun zs last reports => ?_
      refine Does.pure tracing ?_
      rw [List.append_nil]
      exact (reports.append ys).append xs
    · refine Does.pure tracing ⟨fun eok => absurd eok error, fun _ => ?_⟩
      rw [List.append_nil]
      exact ((failed error).mono fun _ _ => rfl).append xs
  · exact Does.last tracing reports

theorem transferFailed_does (cmd : Sent) :
    Does (Exchange c) (transferFailed c cmd) fun _ _ => True := by
  refine Does.bind tracing sendStatus_heard fun _ result _ => ?_
  refine Does.ite (fun _ => ?_) fun _ => Does.pure tracing trivial
  exact Does.bind tracing stopTransmission_reports fun _ _ _ => Does.pure tracing trivial

theorem transferDone_does (write stop : Bool) (timeout : Nat) (cmd : Sent) :
    Does (Exchange c) (transferDone c write stop timeout cmd) fun _ _ => True := by
  have stopped : Does (Exchange c) (if stop then stopTransmission c else pure EOK)
      fun _ _ => True := by
    refine Does.ite (fun _ => ?_) fun _ => Does.pure tracing trivial
    exact Does.mono stopTransmission_reports fun _ _ _ => trivial
  refine Does.bind tracing stopped fun _ status _ => ?_
  refine Does.ite (fun _ => Does.pure tracing trivial) fun _ => ?_
  refine Does.ite (fun _ => ?_) fun _ => Does.pure tracing trivial
  refine Does.bind tracing (waitCardStatus_reports _ _ _) fun _ result _ => ?_
  refine Does.ite (fun _ => ?_) fun _ => Does.pure tracing trivial
  exact Does.bind tracing stopTransmission_reports fun _ _ _ => Does.pure tracing trivial

/-! ## Requests -/

/-- What a request does: it reads an answer, reads the closing answers, or marks the user
partition after a reset. -/
inductive Event
  | answer (a : Answer)
  | closed (answers : List Answer)
  | mark

/-- What counts for the cache: whether it is on or was lost, `SDMMC_EFLAG_CACHE` and the
partitions. -/
structure Mem where
  lost : Bool
  cached : Bool
  flag : Bool
  partitions : List Partition

def Hba.mem (h : Hba) : Mem := ⟨h.dev.lost, h.dev.cached, h.cacheFlag, h.partitions⟩

/-- The card is reset if one of the answers makes the command layer do so. -/
def Mem.heard (c : Conf) (answers : List Answer) (m : Mem) : Mem :=
  { m with
    lost := m.lost || (m.cached && answers.any (·.resets c))
    cached := m.cached && !answers.any (·.resets c) }

/-- `sdmmc_reset` -/
def Mem.mark (c : Conf) (m : Mem) : Mem :=
  let m := { m with lost := m.lost || m.cached, cached := false }
  if c.cache && m.flag then
    { m with
      flag := false
      partitions := setPartitionAttr MMC_PART_USER SDMMC_PFLAG_WP m.partitions }
  else m

def Mem.after (c : Conf) (m : Mem) : Event → Mem
  | .answer a => m.heard c [a]
  | .closed answers => m.heard c answers
  | .mark => m.mark c

/-- The answers of a list of events, and the closing ones -/
def answersOf : List Event → List Answer
  | [] => []
  | .answer a :: events => a :: answersOf events
  | _ :: events => answersOf events

def closedOf : List Event → List Answer
  | [] => []
  | .closed answers :: events => answers ++ closedOf events
  | _ :: events => closedOf events

theorem answersOf_append (xs ys : List Event) :
    answersOf (xs ++ ys) = answersOf xs ++ answersOf ys := by
  induction xs with
  | nil => rfl
  | cons event xs ih =>
    cases event with
    | answer a => exact congrArg (a :: ·) ih
    | closed answers => exact ih
    | mark => exact ih

theorem closedOf_append (xs ys : List Event) :
    closedOf (xs ++ ys) = closedOf xs ++ closedOf ys := by
  induction xs with
  | nil => rfl
  | cons event xs ih =>
    cases event with
    | answer a => exact ih
    | closed answers => exact (congrArg (answers ++ ·) ih).trans (List.append_assoc ..).symm
    | mark => exact ih

/-- The events lead from one state of the driver to the other. -/
structure Progress (c : Conf) (events : List Event) (h t : Hba) : Prop where
  script : h.dev.script = answersOf events ++ t.dev.script
  closing : h.dev.closing = closedOf events ++ t.dev.closing
  mem : t.mem = events.foldl (Mem.after c) h.mem
  silent : t.silent = h.silent

theorem progress : Tracing (Progress c) where
  nil _ := ⟨rfl, rfl, rfl, rfl⟩
  append := by
    intro xs ys s t u first second
    refine ⟨?_, ?_, ?_, second.silent.trans first.silent⟩
    · rw [first.script, second.script, answersOf_append, List.append_assoc]
    · rw [first.closing, second.closing, closedOf_append, List.append_assoc]
    · rw [second.mem, first.mem, List.foldl_append]

theorem Mem.heard_append (xs ys : List Answer) (m : Mem) :
    (m.heard c xs).heard c ys = m.heard c (xs ++ ys) := by
  unfold Mem.heard
  rw [List.any_append]
  cases m.lost <;> cases m.cached <;> cases xs.any (·.resets c) <;> rfl

theorem Mem.heard_nil (m : Mem) : m.heard c [] = m := by
  unfold Mem.heard
  rw [List.any_nil, Bool.and_false, Bool.or_false, Bool.not_false, Bool.and_true]

theorem foldl_answers (answers : List Answer) (m : Mem) :
    (answers.map Event.answer).foldl (Mem.after c) m = m.heard c answers := by
  induction answers generalizing m with
  | nil => exact m.heard_nil.symm
  | cons a answers ih =>
    rw [List.map_cons, List.foldl_cons, ih]
    exact Mem.heard_append [a] answers m

theorem answersOf_map (answers : List Answer) : answersOf (answers.map .answer) = answers := by
  induction answers with
  | nil => rfl
  | cons a answers ih => exact congrArg (a :: ·) ih

theorem closedOf_map (answers : List Answer) : closedOf (answers.map .answer) = [] := by
  induction answers with
  | nil => rfl
  | cons a answers ih => exact ih

theorem sdio_eq_some {α : Type} {m : Lower α} {h t : Hba} {a : α} :
    sdio m h = some (a, t) ↔ ∃ d, m h.dev = some (a, d) ∧ t = { h with dev := d } := by
  refine Option.map_eq_some_iff.trans ⟨?_, ?_⟩
  · rintro ⟨⟨a', d⟩, run, same⟩
    cases same
    exact ⟨d, run, rfl⟩
  · rintro ⟨d, run, rfl⟩
    exact ⟨(a, d), run, rfl⟩

theorem sdio_does {α : Type} {m : Lower α} {Q : List Answer → α → Prop}
    (does : Does (Exchange c) m Q) :
    Does (Progress c) (sdio m) fun events a => ∃ used, events = used.map .answer ∧ Q used a := by
  intro h a t run
  obtain ⟨d, inner, rfl⟩ := sdio_eq_some.mp run
  obtain ⟨used, leads, holds⟩ := does inner
  refine ⟨used.map .answer, ⟨?_, ?_, ?_, rfl⟩, used, rfl, holds⟩
  · rw [answersOf_map]
    exact leads.script
  · rw [closedOf_map]
    exact leads.closing.symm
  · rw [foldl_answers]
    unfold Mem.heard Hba.mem
    rw [leads.lost, leads.cached]

theorem closing_does {α : Type} {m : Lower α} {Q : List Answer → α → Prop}
    (does : Does (Exchange c) m Q) :
    Does (Progress c) (sdio (closing m)) fun events a =>
      ∃ used, events = [.closed used] ∧ Q used a := by
  intro h a t run
  obtain ⟨d, inner, rfl⟩ := sdio_eq_some.mp run
  obtain ⟨holds, script, closed, lost, cached⟩ := Does.onScript does inner
  refine ⟨[.closed h.dev.closing], ⟨script.symm, ?_, ?_, rfl⟩, h.dev.closing, rfl, holds⟩
  · change h.dev.closing = (h.dev.closing ++ []) ++ d.closing
    rw [closed, List.append_nil, List.append_nil]
  · change Hba.mem { h with dev := d } = h.mem.heard c h.dev.closing
    unfold Mem.heard Hba.mem
    rw [lost, cached]

theorem keeps {β : Type} (f : Hba → β) {p : Prop} [Decidable p] {h t : Hba} (same : f t = f h) :
    f (if p then t else h) = f h := by
  split
  · exact same
  · rfl

theorem upper_modify {f : Hba → Hba} {Q : List Event → PUnit → Prop}
    (dev : ∀ h, (f h).dev = h.dev) (mem : ∀ h, (f h).mem = h.mem)
    (silent : ∀ h, (f h).silent = h.silent) (holds : Q [] ⟨⟩) :
    Does (Progress c) (modify f : Upper PUnit) Q := by
  intro h a t run
  cases run
  refine ⟨[], ⟨?_, ?_, mem h, silent h⟩, holds⟩
  · rw [dev]
    rfl
  · rw [dev]
    rfl

theorem sdmmcReset_does :
    Does (Progress c) (sdmmcReset c) fun events _ => events = [.mark] := by
  intro h a t run
  cases run
  refine ⟨[.mark], ⟨?_, ?_, ?_, ?_⟩, rfl⟩
  · unfold Hba.reset
    dsimp only
    split
    · rfl
    · rfl
  · unfold Hba.reset
    dsimp only
    split
    · rfl
    · rfl
  · change (h.reset c).mem = h.mem.mark c
    unfold Hba.reset Mem.mark
    dsimp only [Hba.mem]
    split
    · rfl
    · rfl
  · unfold Hba.reset
    dsimp only
    split
    · rfl
    · rfl

/-- How the events of a request can end: without closing answers, or with closing answers and a
mark exactly when the last of these fails. -/
inductive Ending (status : BitVec 32 → Bool) : List Event → Prop
  | quiet (answers : List Answer) : Ending status (answers.map .answer)
  | passed (answers closed : List Answer) (succeeds : Succeeds status closed) :
      Ending status (answers.map .answer ++ [.closed closed])
  | marked (answers closed : List Answer) (fails : Fails status closed) :
      Ending status (answers.map .answer ++ [.closed closed, .mark])

variable {status : BitVec 32 → Bool}

theorem Ending.nil : Ending status [] := .quiet []

theorem Ending.after {events : List Event} (answers : List Answer) (ending : Ending status events) :
    Ending status (answers.map .answer ++ events) := by
  cases ending with
  | quiet more =>
    rw [← List.map_append]
    exact .quiet _
  | passed more closed succeeds =>
    rw [← List.append_assoc, ← List.map_append]
    exact .passed _ _ succeeds
  | marked more closed fails =>
    rw [← List.append_assoc, ← List.map_append]
    exact .marked _ _ fails

theorem ends_after {α β : Type} {m : Upper α} {f : α → Upper β}
    {Q : List Answer → α → Prop}
    (first : Does (Progress c) m fun events a => ∃ used, events = used.map .answer ∧ Q used a)
    (rest : ∀ a, Does (Progress c) (f a) fun events _ => Ending status events) :
    Does (Progress c) (m >>= f) fun events _ => Ending status events := by
  refine Does.bind progress first fun events a before => ?_
  obtain ⟨used, rfl, _⟩ := before
  exact Does.mono (rest a) fun _ _ ending => ending.after used

theorem ends_modify {β : Type} {f : Hba → Hba} {g : PUnit → Upper β}
    (dev : ∀ h, (f h).dev = h.dev) (mem : ∀ h, (f h).mem = h.mem)
    (silent : ∀ h, (f h).silent = h.silent)
    (rest : Does (Progress c) (g ⟨⟩) fun events _ => Ending status events) :
    Does (Progress c) (modify f >>= g) fun events _ => Ending status events := by
  refine Does.bind progress (upper_modify (Q := fun events _ => events = []) dev mem silent rfl)
    fun events a none => ?_
  rw [none]
  exact rest

theorem ends_pure {α : Type} (a : α) :
    Does (Progress c) (pure a : Upper α) fun events _ => Ending status events :=
  Does.pure progress .nil

theorem ends_then {α β : Type} {m : Upper α} {g : α → Upper β}
    (first : Does (Progress c) m fun events _ => Ending status events)
    (rest : ∀ a, Does (Progress c) (g a) fun events _ => events = []) :
    Does (Progress c) (m >>= g) fun events _ => Ending status events := by
  refine Does.bind progress first fun events a ending => ?_
  refine Does.mono (rest a) fun more _ none => ?_
  rw [none, List.append_nil]
  exact ending

/-- The closing answers decide on `sdmmc_reset`. -/
theorem resetIf_ends {α : Type} {m : Lower α} {Q : List Answer → α → Prop}
    (does : Does (Exchange c) m Q) {bad : α → Bool}
    (fails : ∀ {used a}, Q used a → bad a = true → Fails status used)
    (succeeds : ∀ {used a}, Q used a → bad a = false → Succeeds status used) :
    Does (Progress c) (resetIf c m bad) fun events _ => Ending status events := by
  refine Does.bind progress (closing_does does) fun events a before => ?_
  obtain ⟨used, rfl, holds⟩ := before
  refine Does.ite (fun worse => ?_) fun fine => ?_
  · refine Does.mono sdmmcReset_does fun events _ marked => ?_
    rw [marked]
    exact .marked [] used (fails holds worse)
  · exact Does.pure progress (.passed [] used (succeeds holds (Bool.eq_false_iff.mpr fine)))

/-! ### Background operations -/

theorem interrupt_ends (timeout : Nat) :
    Does (Progress c) (interrupt c timeout) fun events _ => Ending free events := by
  refine resetIf_ends (sdioHpi_reports timeout) ?_ ?_
  · exact fun reports bad => reports.error (bne_iff_ne.mp bad)
  · exact fun reports fine => reports.eok (bne_eq_false_iff_eq.mp fine)

theorem bkopsPoll_does (ecsd : BitVec 8) : Does (Progress c) (bkopsPoll c ecsd)
    fun events _ => ∃ used : List Answer, events = used.map .answer ∧ True := by
  have framed {f : Hba → Hba} (dev : ∀ h, (f h).dev = h.dev) (mem : ∀ h, (f h).mem = h.mem)
      (silent : ∀ h, (f h).silent = h.silent) :
      Does (Progress c) (modify f : Upper PUnit) fun events _ => events = [] :=
    upper_modify dev mem silent rfl
  refine Does.bind progress (framed ?_ ?_ ?_) fun events _ none => ?_
  · exact fun _ => keeps Hba.dev rfl
  · exact fun _ => keeps Hba.mem rfl
  · exact fun _ => keeps Hba.silent rfl
  rw [none]
  refine Does.bind progress (sdio_does (Does.mono (status_reports 0) fun _ _ _ => trivial))
    fun events status read => ?_
  obtain ⟨used, rfl, _⟩ := read
  refine Does.mono (framed ?_ ?_ ?_) fun events _ none => ⟨used, ?_, trivial⟩
  · exact fun _ => keeps Hba.dev rfl
  · exact fun _ => keeps Hba.mem rfl
  · exact fun _ => keeps Hba.silent rfl
  rw [none, List.append_nil]
  rfl

theorem bkopsStart_ends (tick : Bool) :
    Does (Progress c) (bkopsStart c tick) fun events _ => Ending free events := by
  refine ends_after (sdio_does (mmcSwitch_does _)) fun switched => ?_
  refine Does.ite (fun _ => ?_) fun _ => ?_
  · exact Does.ite (fun _ => interrupt_ends 0) fun _ => ends_pure _
  · exact upper_modify (fun _ => rfl) (fun _ => rfl) (fun _ => rfl) .nil

theorem sdmmcBkops_ends (tick : Bool) (ecsd : BitVec 8) :
    Does (Progress c) (sdmmcBkops c tick ecsd) fun events _ => Ending free events := by
  refine Does.get_bind progress fun h => ?_
  refine Does.ite (fun _ => ends_pure _) fun _ => ?_
  refine Does.ite (fun _ => ?_) fun _ => ?_
  · refine Does.ite (fun _ => ends_pure _) fun _ => ?_
    refine ends_then (interrupt_ends 500) fun _ => ?_
    exact upper_modify (fun _ => rfl) (fun _ => rfl) (fun _ => rfl) rfl
  · refine ends_after (Q := fun _ _ => True) ?_ fun _ => ?_
    · refine Does.ite (fun _ => bkopsPoll_does ecsd) fun _ => ?_
      exact Does.pure progress ⟨[], rfl, trivial⟩
    · refine Does.get_bind progress fun h => ?_
      exact Does.ite (fun _ => bkopsStart_ends tick) fun _ => ends_pure _

/-! ### Transfers -/

theorem rwEnd_ends (result : Nat) :
    Does (Progress c) (rwEnd c result) fun events _ => Ending ready events := by
  refine Does.ite (fun _ => ?_) fun _ => ends_pure _
  refine ends_then (resetIf_ends sendStatus_heard ?_ ?_) fun _ => ?_
  · intro used result heard bad
    refine heard.fails ?_
    rcases Bool.or_eq_true_iff.mp bad with error | away
    · exact .inl (bne_iff_ne.mp error)
    · exact .inr (Bool.not_inj away)
  · intro used result heard fine
    obtain ⟨eok, there⟩ := Bool.or_eq_false_iff.mp fine
    exact heard.succeeds (bne_eq_false_iff_eq.mp eok) (Bool.not_inj there)
  · refine Does.bind progress (Q := fun events _ => events = []) ?_ fun events _ none => ?_
    · exact upper_modify (fun _ => rfl) (fun _ => rfl) (fun _ => rfl) rfl
    · exact Does.pure progress (by rw [none]; rfl)

theorem firstCommand_ends (sbc : Bool) : Does (Exchange c)
    (if sbc then setBlockCount c else skip)
    fun used status => status ≠ EOK → Fails anyStatus used :=
  Does.ite (fun _ => setBlockCount_fails) fun _ => skip_ends

theorem sdmmcRw_ends (write : Bool) (dlen timeout : Nat) :
    Does (Progress c) (sdmmcRw c write dlen timeout) fun events _ => Ending ready events := by
  refine ends_after (sdio_does (sendCmd_ends (firstCommand_ends _) 0)) fun cmd => ?_
  refine Does.ite (fun _ => ends_pure _) fun _ => ?_
  have rest : Does (Exchange c) (if cmd.status ≠ EOK then transferFailed c cmd
      else transferDone c write (decide (c.sectorSize < dlen) &&
        !(decide (c.sectorSize < dlen) && !c.acmd12 && c.cmd23) && !c.acmd12)
        (timeout * 1000 % 2 ^ 32) cmd) fun _ _ => True :=
    Does.ite (fun _ => transferFailed_does cmd) fun _ => transferDone_does _ _ _ cmd
  refine ends_after (sdio_does rest) fun result => ?_
  refine ends_modify ?_ ?_ ?_ (rwEnd_ends _)
  · exact fun _ => keeps Hba.dev rfl
  · exact fun _ => keeps Hba.mem rfl
  · exact fun _ => keeps Hba.silent rfl

theorem transfer_ends (write : Bool) (part : Partition) (dlen timeout : Nat) :
    Does (Progress c) (transfer c write part dlen timeout) fun events _ => Ending ready events := by
  refine ends_after (sdio_does (mmcSetPartition_does _)) fun status => ?_
  refine Does.ite (fun _ => ends_pure _) fun _ => ?_
  exact ends_then (sdmmcRw_ends write dlen timeout) fun _ => Does.pure progress rfl

/-! ## Requests -/

/-- What the last closing answer of a request is judged by -/
def Request.judge : Request → BitVec 32 → Bool
  | .bkops _ _ => free
  | _ => ready

/-- The request ends in `sdmmc_reset`. -/
def Input.closes (inp : Input) : Bool :=
  inp.closing.getLast?.any fun a => !a.good inp.request.judge

/-- A write request is accepted after a loss, with the user partition not marked. -/
def Input.silent (h : Hba) (inp : Input) : Bool :=
  match inp.request with
  | .write lun _ _ => h.accepts (h.part lun) && h.dev.lost && !h.marked
  | _ => false

theorem getLast?_of_succeeds {used : List Answer} (succeeds : Succeeds status used) :
    (used.getLast?.any fun a => !a.good status) = false := by
  obtain ⟨pre, a, rfl, good⟩ := succeeds
  rw [List.getLast?_append, List.getLast?_singleton, Option.some_or, Option.any_some, good]
  rfl

theorem getLast?_of_fails {used : List Answer} (fails : Fails status used) :
    (used.getLast?.any fun a => !a.good status) = true := by
  obtain ⟨pre, a, rfl, bad⟩ := fails
  rw [List.getLast?_append, List.getLast?_singleton, Option.some_or, Option.any_some, bad]
  rfl

theorem answersOf_then (answers : List Answer) (events : List Event) :
    answersOf (answers.map .answer ++ events) = answers ++ answersOf events := by
  rw [answersOf_append, answersOf_map]

theorem closedOf_then (answers : List Answer) (events : List Event) :
    closedOf (answers.map .answer ++ events) = closedOf events := by
  rw [closedOf_append, closedOf_map, List.nil_append]

theorem Ending.mem {events : List Event} (ending : Ending status events) (m : Mem) :
    events.foldl (Mem.after c) m =
      let heard := m.heard c (answersOf events ++ closedOf events)
      if (closedOf events).getLast?.any fun a => !a.good status then heard.mark c else heard := by
  cases ending with
  | quiet answers =>
    rw [answersOf_map, closedOf_map, List.append_nil, foldl_answers]
    rfl
  | passed answers closed succeeds =>
    have answered : answersOf (answers.map .answer ++ [.closed closed]) = answers :=
      (answersOf_then ..).trans (List.append_nil _)
    have all : closedOf (answers.map .answer ++ [.closed closed]) = closed :=
      (closedOf_then ..).trans (List.append_nil _)
    rw [answered, all, List.foldl_append, foldl_answers, getLast?_of_succeeds succeeds]
    exact Mem.heard_append answers closed m
  | marked answers closed fails =>
    have answered : answersOf (answers.map .answer ++ [.closed closed, .mark]) = answers :=
      (answersOf_then ..).trans (List.append_nil _)
    have all : closedOf (answers.map .answer ++ [.closed closed, .mark]) = closed :=
      (closedOf_then ..).trans (List.append_nil _)
    rw [answered, all, List.foldl_append, foldl_answers, getLast?_of_fails fails]
    exact congrArg (Mem.mark c) (Mem.heard_append answers closed m)

theorem sdmmcRead_ends (part : Partition) (dlen timeout : Nat) :
    Does (Progress c) (sdmmcRead c part dlen timeout) fun events _ => Ending ready events := by
  refine Does.get_bind progress fun h => ?_
  exact Does.ite (fun _ => transfer_ends false part dlen timeout) fun _ => ends_pure _

theorem sdmmcSync_ends (part : Partition) :
    Does (Progress c) (sdmmcSync c part) fun events _ => Ending ready events := by
  refine Does.get_bind progress fun h => ?_
  refine Does.ite (fun _ => ?_) fun _ => ends_pure _
  exact ends_after (sdio_does (mmcCacheFlush_does _)) fun _ => ends_pure _

theorem quiet_ends {m : Lower Unit} (does : Does (Exchange c) m fun _ _ => True) :
    Does (Progress c) (sdio m) fun events _ => Ending ready events := by
  refine Does.mono (sdio_does does) fun events _ read => ?_
  obtain ⟨used, rfl, _⟩ := read
  exact .quiet used

theorem exec_ends {h : Hba} {request : Request} (noWrite : ∀ lun dlen timeout,
    request ≠ .write lun dlen timeout) :
    Does (Progress c) (exec c h request) fun events _ => Ending request.judge events := by
  cases request with
  | read lun dlen timeout => exact sdmmcRead_ends _ dlen timeout
  | write lun dlen timeout => exact absurd rfl (noWrite lun dlen timeout)
  | sync lun => exact sdmmcSync_ends _
  | bkops tick ecsd => exact sdmmcBkops_ends tick ecsd
  | idle =>
    refine quiet_ends (Does.bind tracing pwrIdle_does fun _ _ _ => ?_)
    exact Does.pure tracing trivial
  | sleep =>
    refine quiet_ends (Does.bind tracing pwrSleep_does fun _ _ _ => ?_)
    exact Does.pure tracing trivial

theorem next_eq_some {h t : Hba} {inp : Input} :
    next c h inp = some t ↔ exec c h inp.request
        { h with dev := { h.dev with script := inp.script, closing := inp.closing } } =
        some ((), t) ∧ t.dev.script = [] ∧ t.dev.closing = [] := by
  refine Option.bind_eq_some_iff.trans ⟨?_, ?_⟩
  · rintro ⟨⟨a, t'⟩, run, rest⟩
    obtain ⟨empty, same⟩ := Option.ite_none_right_eq_some.mp rest
    cases same
    obtain ⟨script, closing⟩ := Bool.and_eq_true_iff.mp empty
    exact ⟨run, List.isEmpty_iff.mp script, List.isEmpty_iff.mp closing⟩
  · rintro ⟨run, script, closing⟩
    refine ⟨((), t), run, if_pos ?_⟩
    rw [script, closing]
    rfl

/-- The cache after a request -/
def Input.after (c : Conf) (inp : Input) (m : Mem) : Mem :=
  let heard := m.heard c (inp.script ++ inp.closing)
  if inp.closes then heard.mark c else heard

theorem Progress.after {events : List Event} {h t : Hba} {inp : Input}
    (leads : Progress c events h t) (ending : Ending inp.request.judge events)
    (script : h.dev.script = inp.script) (closing : h.dev.closing = inp.closing)
    (allRead : t.dev.script = []) (allClosed : t.dev.closing = []) :
    t.mem = inp.after c h.mem := by
  have answers : answersOf events = inp.script := by
    rw [← script, leads.script, allRead, List.append_nil]
  have closed : closedOf events = inp.closing := by
    rw [← closing, leads.closing, allClosed, List.append_nil]
  rw [leads.mem, ending.mem, answers, closed]
  rfl

theorem next_after {h t : Hba} {inp : Input} (ran : next c h inp = some t) :
    t.mem = inp.after c h.mem ∧ t.silent = (h.silent || inp.silent h) := by
  obtain ⟨run, allRead, allClosed⟩ := next_eq_some.mp ran
  have rest (noWrite : ∀ lun dlen timeout, inp.request ≠ .write lun dlen timeout) :
      t.mem = inp.after c h.mem ∧ t.silent = h.silent := by
    obtain ⟨events, leads, ending⟩ := exec_ends noWrite run
    exact ⟨leads.after ending rfl rfl allRead allClosed, leads.silent⟩
  rcases inp with ⟨request, script, closing⟩
  cases request with
  | write lun dlen timeout =>
    obtain ⟨h', u, got, run⟩ := bind_eq_some.mp run
    cases got
    split at run
    case isTrue accepted =>
      obtain ⟨_, u, stored, run⟩ := bind_eq_some.mp run
      cases stored
      obtain ⟨events, leads, ending⟩ := transfer_ends true (h.part lun) dlen timeout run
      refine ⟨leads.after ending rfl rfl allRead allClosed, leads.silent.trans ?_⟩
      change (h.silent || (h.dev.lost && !h.marked)) =
        (h.silent || (h.accepts (h.part lun) && h.dev.lost && !h.marked))
      rw [show h.accepts (h.part lun) = true from accepted, Bool.true_and]
    case isFalse refused =>
      cases run
      have refused : h.accepts (h.part lun) = false := Bool.eq_false_iff.mpr refused
      refine ⟨(progress.nil _).after .nil rfl rfl allRead allClosed, ?_⟩
      change h.silent = (h.silent || (h.accepts (h.part lun) && h.dev.lost && !h.marked))
      rw [refused, Bool.false_and, Bool.false_and, Bool.or_false]
  | read | sync | bkops | idle | sleep =>
    obtain ⟨mem, silent⟩ := rest (by intros; exact nofun)
    exact ⟨mem, silent.trans (Bool.or_false _).symm⟩

/-! ## What stays unmarked -/

/-- The cache was lost at most with the user partition marked. -/
def Mem.marked (m : Mem) : Bool :=
  m.partitions.all fun part => part.kind != MMC_PART_USER || has part.pflags SDMMC_PFLAG_WP

/-- As long as the user partition is not marked, a cache that is on or was lost is one that
`sdmmc_reset` looks after. -/
def Mem.Sane (c : Conf) (m : Mem) : Prop :=
  m.marked = false → m.cached = true ∨ m.lost = true → c.cache = true ∧ m.flag = true

/-- The card was not reset with its cache on, or the user partition is marked, and no write was
accepted in between. -/
def Hba.Told (h : Hba) : Prop :=
  (h.dev.lost = true → h.marked = true) ∧ h.silent = false

/-- One of the answers makes the command layer reset the card. -/
def Input.resets (c : Conf) (inp : Input) : Bool := (inp.script ++ inp.closing).any (·.resets c)

/-- The request keeps what it may lose from being silent: there is nothing in the cache, the user
partition is marked, the command layer does not reset the card, or the request ends in
`sdmmc_reset`. -/
def Input.Kept (c : Conf) (h : Hba) (inp : Input) : Prop :=
  h.dev.cached = false ∨ h.marked = true ∨ inp.resets c = false ∨ inp.closes = true

/-- The requests one after the other -/
def Step (c : Conf) (h : Hba) (inp : Input) (t : Hba) : Prop := next c h inp = some t

/-- A card whose cache was just enabled -/
structure Start (c : Conf) (h : Hba) : Prop where
  conf : c.cache = true
  flag : h.cacheFlag = true
  cached : h.dev.cached = true
  lost : h.dev.lost = false
  silent : h.silent = false

theorem all_marked (parts : List Partition) :
    (setPartitionAttr MMC_PART_USER SDMMC_PFLAG_WP parts).all
      (fun part => part.kind != MMC_PART_USER || has part.pflags SDMMC_PFLAG_WP) = true := by
  refine List.all_eq_true.mpr fun part mem => ?_
  obtain ⟨old, _, rfl⟩ := List.mem_map.mp mem
  split
  · exact Bool.or_eq_true_iff.mpr (.inr (Command.has_or (by decide) old.pflags))
  · exact Bool.or_eq_true_iff.mpr (.inl (bne_iff_ne.mpr ‹_›))

section After

variable (inp : Input) (m : Mem)

theorem lost_after :
    (inp.after c m).lost = (m.lost || (m.cached && (inp.resets c || inp.closes))) := by
  unfold Input.after Mem.mark Mem.heard Input.resets
  cases inp.closes with
  | false => rw [Bool.or_false]; rfl
  | true =>
    rw [Bool.or_true, Bool.and_true]
    dsimp only
    rw [if_pos rfl]
    split
    · dsimp only
      cases m.lost <;> cases m.cached <;> cases (inp.script ++ inp.closing).any (·.resets c) <;>
        rfl
    · cases m.lost <;> cases m.cached <;> cases (inp.script ++ inp.closing).any (·.resets c) <;>
        rfl

theorem cached_after :
    (inp.after c m).cached = (m.cached && !(inp.resets c || inp.closes)) := by
  unfold Input.after Mem.mark Mem.heard Input.resets
  cases inp.closes with
  | false => rw [Bool.or_false]; rfl
  | true =>
    rw [Bool.or_true, Bool.not_true, Bool.and_false]
    dsimp only
    rw [if_pos rfl]
    split
    · rfl
    · rfl

theorem flag_after : (inp.after c m).flag = (m.flag && !(inp.closes && c.cache)) := by
  unfold Input.after Mem.mark Mem.heard
  cases inp.closes with
  | false => exact (Bool.and_true _).symm
  | true =>
    dsimp only
    rw [if_pos rfl, Bool.true_and]
    cases c.cache <;> cases m.flag <;> rfl

theorem marked_after :
    (inp.after c m).marked = (m.marked || (inp.closes && (c.cache && m.flag))) := by
  unfold Input.after Mem.mark Mem.heard
  cases inp.closes with
  | false => exact (Bool.or_false _).symm
  | true =>
    dsimp only
    rw [if_pos rfl, Bool.true_and]
    split
    case isTrue on =>
      rw [on, Bool.or_true]
      exact all_marked m.partitions
    case isFalse off =>
      rw [Bool.eq_false_iff.mpr off, Bool.or_false]
      rfl

end After

theorem Mem.Sane.after {m : Mem} (sane : m.Sane c) (inp : Input) : (inp.after c m).Sane c := by
  intro unmarked on
  rw [marked_after, Bool.or_eq_false_iff] at unmarked
  obtain ⟨unmarked, unclosed⟩ := unmarked
  have before : m.cached = true ∨ m.lost = true := by
    rw [cached_after, lost_after, Bool.and_eq_true_iff, Bool.or_eq_true_iff,
      Bool.and_eq_true_iff] at on
    rcases on with ⟨cached, _⟩ | lost | ⟨cached, _⟩
    · exact .inl cached
    · exact .inr lost
    · exact .inl cached
  obtain ⟨conf, flag⟩ := sane unmarked before
  rw [conf, flag, Bool.and_true, Bool.and_true] at unclosed
  rw [flag_after, unclosed, flag]
  exact ⟨conf, rfl⟩

theorem told_after {m : Mem} (sane : m.Sane c) (told : m.lost = true → m.marked = true)
    (inp : Input) :
    ((inp.after c m).lost = true → (inp.after c m).marked = true) ↔
      m.cached = false ∨ m.marked = true ∨ inp.resets c = false ∨ inp.closes = true := by
  rw [lost_after, marked_after]
  cases marked : m.marked with
  | true => exact ⟨fun _ => .inr (.inl rfl), fun _ _ => rfl⟩
  | false =>
    have kept : m.lost = false := by
      refine Bool.eq_false_iff.mpr fun lost => ?_
      rw [told lost] at marked
      cases marked
    cases cached : m.cached with
    | false =>
      rw [kept]
      exact ⟨fun _ => .inl rfl, fun _ lost => nomatch lost⟩
    | true =>
      obtain ⟨conf, flag⟩ := sane marked (.inl cached)
      rw [kept, conf, flag]
      cases inp.closes with
      | true => exact ⟨fun _ => .inr (.inr (.inr rfl)), fun _ _ => rfl⟩
      | false =>
        cases inp.resets c with
        | true =>
          refine ⟨fun marks => (nomatch marks rfl), fun kept => ?_⟩
          rcases kept with h | h | h | h
          all_goals cases h
        | false => exact ⟨fun _ => .inr (.inr (.inl rfl)), fun _ lost => nomatch lost⟩

theorem Hba.Told.silent {h : Hba} (told : h.Told) (inp : Input) : inp.silent h = false := by
  rcases inp with ⟨request, script, closing⟩
  cases request with
  | write lun dlen timeout =>
    cases lost : h.dev.lost with
    | false =>
      change (h.accepts (h.part lun) && h.dev.lost && !h.marked) = false
      rw [lost, Bool.and_false, Bool.false_and]
    | true =>
      change (h.accepts (h.part lun) && h.dev.lost && !h.marked) = false
      rw [told.1 lost, Bool.not_true, Bool.and_false]
  | read | sync | bkops | idle | sleep => rfl

theorem told_next {h t : Hba} {inp : Input} (sane : h.mem.Sane c) (told : h.Told)
    (ran : Step c h inp t) : t.Told ↔ inp.Kept c h := by
  obtain ⟨mem, silent⟩ := next_after ran
  rw [told.silent inp, told.2] at silent
  have marks := told_after sane told.1 inp
  rw [← mem] at marks
  exact ⟨fun fine => marks.mp fine.1, fun kept => ⟨marks.mpr kept, silent⟩⟩

theorem sane_next {h t : Hba} {inp : Input} (sane : h.mem.Sane c) (ran : Step c h inp t) :
    t.mem.Sane c := by
  rw [(next_after ran).1]
  exact sane.after inp

/-- A loss of the cache stays told of, and no write is accepted silently, exactly when all requests
keep it from being silent. -/
theorem lost_cache_told_iff {h : Hba} {requests : List Input} (start : Start c h) :
    (∀ pre t, pre <+: requests → Run (Step c) h pre t → t.Told) ↔
      ∀ pre inp t u, pre ++ [inp] <+: requests → Run (Step c) h pre t → Step c t inp u →
        inp.Kept c t :=
  Run.along_iff sane_next told_next (fun _ _ => ⟨start.conf, start.flag⟩)
    ⟨fun lost => (nomatch start.lost.symm.trans lost), start.silent⟩

/-! ### Small runs -/

/-- A controller without power management and a card with a cache -/
def plainConf : Conf where
  pm := false
  hostSleep := false
  acmd12 := true
  acmd23 := true
  cache := true
  sleep := false
  cmd23 := true
  hpiCmd12 := true
  sectorSize := 512
  switchTime := 1
  interruptTime := 1

/-- Its card, with a user partition and the cache just enabled -/
def plainHba : Hba where
  present := true
  cacheFlag := true
  bkopsFlag := false
  locked := false
  bkopsStatus := 0
  bkopsTicks := 0
  partitions := [⟨MMC_PART_USER, 0, 1000⟩]
  dev := ⟨0, true, false, .active, true, false, [], []⟩
  silent := false

theorem plain_start : Start plainConf plainHba := ⟨rfl, rfl, rfl, rfl, rfl⟩

/-- A command that is complete, with the card ready in the transfer state -/
def completed : Answer :=
  .reply ⟨EOK, CS_CMD_CMP, CDS_READY_FOR_DATA ||| CDS_CUR_STATE_TRAN, true⟩

/-- A command that the controller gives up -/
def timedOut : Answer := .reply ⟨ETIMEDOUT, CS_CMD_INPROG, 0, true⟩

/-- A write whose command times out, and what the card says at its end -/
def lostWrite (atEnd : Answer) : Input := ⟨.write 0 512 0, [timedOut, completed], [atEnd]⟩

def goodWrite : Input := ⟨.write 0 512 0, [completed, completed], []⟩

/-- The card is not ready at the end. -/
def notReady : Answer := .reply ⟨EOK, CS_CMD_CMP, 0, true⟩

/-- What becomes of the card by some requests -/
def plainRun (requests : List Input) : Hba :=
  (evalRun (next plainConf) (fun _ _ => true) plainHba requests).getD plainHba

theorem plain_run {requests : List Input}
    (ends : (evalRun (next plainConf) (fun _ _ => true) plainHba requests).isSome = true) :
    Run (Step plainConf) plainHba requests (plainRun requests) := by
  obtain ⟨t, same⟩ := Option.isSome_iff_exists.mp ends
  have run : Run (fun h inp t => next plainConf h inp = some t ∧ true = true) plainHba requests t :=
    Run.of_eval id same
  unfold plainRun
  rw [same]
  exact run.mono And.left

theorem lost_cache_told_small :
    (plainRun [goodWrite, lostWrite notReady]).Told ∧
      (plainRun [goodWrite, lostWrite notReady]).dev.lost = true := by
  have kept : ∀ inp ∈ [goodWrite, lostWrite notReady], ∀ t, inp.Kept plainConf t := by
    intro inp mem t
    rcases List.mem_pair.mp mem with rfl | rfl
    · exact .inr (.inr (.inl (by decide +kernel)))
    · exact .inr (.inr (.inr (by decide +kernel)))
  refine ⟨(lost_cache_told_iff plain_start).mpr ?_ _ _ (List.prefix_refl _)
    (plain_run (by decide +kernel)), by decide +kernel⟩
  intro pre inp t u below _ _
  exact kept inp (below.subset (List.mem_append_right pre (List.mem_singleton_self inp))) t

/-- The card is reset by the command layer, is ready again, and the next write is accepted. -/
theorem lost_cache_silent :
    ¬∀ (c : Conf) (h t : Hba), Start c h → ∀ requests : List Input,
      Run (Step c) h requests t → t.Told := by
  intro claim
  have told := claim plainConf plainHba _ plain_start [goodWrite, lostWrite completed, goodWrite]
    (plain_run (by decide +kernel))
  exact absurd told.2 (by decide +kernel)

end Mx6xBsp.Sdmmc.WriteCache
