import Mathlib.Algebra.Group.Nat.Defs
import Mx6xBsp.Sdmmc.CardUsage

/-!
# The removal of a card waits for its operations

Every operation gives back the count it took, on every path (`Call.sound`). While no
operation begins on a device that `sdio_detach` is about to free (`Sdio.Fits`), the
count of a device is the number of operations in flight on it, none begins once its
removal is pending, and neither the notification of its removal nor its freeing comes
before the last of them is over.
-/

namespace Mx6xBsp.Sdmmc.Usage

open Brackets Runs

/-! ## Programs -/

/-- A step that neither counts nor frees. -/
def Request.Private : Request → Prop
  | .card _ => True
  | .isMmc => True
  | .hpiCmd12 => True
  | _ => False

def Request.Frees (r : Request) : Prop := ∃ d, r = .unlink d ∨ r = .free d

/-- A device is freed only after its count was found to be zero. -/
def Guarded : Program → Prop
  | .ret _ => True
  | .ask request go =>
    ∀ answer, Guarded (go answer) ∧ ∀ d, frees d (go answer) = true →
      request = .unlink d ∨ request = .usage d ∧ answer = 0

structure Sound (p : Program) : Prop where
  bracketed : ∀ d, (region d).Bracketed p
  guarded : Guarded p

section Programs

variable {p work : Program} {d device : Nat}

theorem mark_private {request : Request} (own : request.Private) :
    (region d).mark request = .other := by
  cases request with
  | card call => rfl
  | isMmc => rfl
  | hpiCmd12 => rfl
  | _ => exact own.elim

theorem Request.Private.keeps {request : Request} (own : request.Private) : ¬request.Frees := by
  rintro ⟨d, free⟩
  rcases free with rfl | rfl
  · exact own
  · exact own

theorem synchronize_keeps {io : Bool} {ncmds : Int} :
    ¬(Request.synchronize device io ncmds).Frees := by
  rintro ⟨d, free⟩
  rcases free with free | free
  · cases free
  · cases free

theorem mark_begin : (region d).mark (.synchronize d true 1) = .enter := by
  unfold region
  dsimp only
  rw [if_neg (by decide), if_neg (fun other => other rfl), if_pos rfl]

theorem mark_end : (region d).mark (.synchronize d true (-1)) = .leave := by
  unfold region
  dsimp only
  rw [if_neg (by decide), if_neg (fun other => other rfl), if_neg (by decide), if_pos rfl]

theorem mark_else {ncmds : Int} (other : device ≠ d) :
    (region d).mark (.synchronize device true ncmds) = .other := by
  unfold region
  dsimp only
  rw [if_neg (by decide), if_pos other]

theorem mark_never {io : Bool} {ncmds : Int} (other : ¬(io = true ∧ (ncmds = 1 ∨ ncmds = -1))) :
    (region d).mark (.synchronize d io ncmds) = .never := by
  unfold region
  dsimp only
  cases io with
  | false => rfl
  | true =>
    rw [if_neg (by decide), if_neg (fun other => other rfl),
      if_neg fun one => other ⟨rfl, .inl one⟩, if_neg fun minus => other ⟨rfl, .inr minus⟩]

theorem frees_of_all (all : p.All fun request => ¬request.Frees) : frees d p = false := by
  cases p with
  | ret answer => rfl
  | ask request go =>
    cases request with
    | unlink device => exact absurd ⟨device, .inl rfl⟩ all.1
    | free device => exact absurd ⟨device, .inr rfl⟩ all.1
    | _ => rfl

theorem guarded_of_all (all : p.All fun request => ¬request.Frees) : Guarded p := by
  induction p with
  | ret answer => trivial
  | ask request go ih =>
    intro answer
    have next := all.2 answer
    exact ⟨ih answer next, fun d free => absurd (free.symm.trans (frees_of_all next)) nofun⟩

/-- An operation counts and gives back what it counted, and frees nothing. -/
structure Operation (p : Program) : Prop where
  bracketed : ∀ d, (region d).Bracketed p
  outside : ∀ d, (region d).inside p = false
  keeps : p.All fun request => ¬request.Frees

theorem Operation.sound (operation : Operation p) : Sound p :=
  ⟨operation.bracketed, guarded_of_all operation.keeps⟩

theorem synchronized_operation (own : work.All Request.Private) :
    Operation (synchronized device work) := by
  have ended (d : Nat) (status : Int) : (region d).Bracketed
      (.ask (.synchronize device true (-1)) fun _ => .ret status) ∧
      (region d).inside (.ask (.synchronize device true (-1)) fun _ => .ret status) =
        decide (device = d) := by
    rcases eq_or_ne device d with rfl | other
    · refine ⟨⟨fun _ => trivial, ?_⟩, (Region.inside_leave mark_end).trans (by simp)⟩
      rw [mark_end]
      exact fun _ => rfl
    · refine ⟨⟨fun _ => trivial, ?_⟩, (Region.inside_other (mark_else other)).trans ?_⟩
      · rw [mark_else other]
        exact fun _ => rfl
      · exact (decide_eq_false other).symm
  have within (d : Nat) := Region.Quiet.bind (own.mono fun _ => mark_private (d := d)) (ended d)
  refine ⟨fun d => ?_, fun d => ?_, ?_⟩
  · refine ⟨fun status => ?_, ?_⟩
    · dsimp only
      split
      · trivial
      · exact (within d).1
    · rcases eq_or_ne device d with rfl | other
      · rw [mark_begin]
        refine ⟨(within device).2.trans (decide_eq_true rfl), fun status refused => ?_⟩
        have refused : status ≠ EOK := refused
        exact congrArg (region device).inside (if_pos refused)
      · rw [mark_else other]
        intro status
        have granted : (region d).ok = EOK := rfl
        have out := (within d).2.trans (decide_eq_false other)
        rw [granted]
        dsimp only
        rw [if_neg (not_not_intro rfl), out]
        split
        · rfl
        · exact out
  · rcases eq_or_ne device d with rfl | other
    · exact Region.inside_enter mark_begin
    · exact (Region.inside_other (mark_else other)).trans
        ((within d).2.trans (decide_eq_false other))
  · refine ⟨synchronize_keeps, fun status => ?_⟩
    dsimp only
    split
    · trivial
    · exact (own.mono fun _ => Request.Private.keeps).bind
        fun status => ⟨synchronize_keeps, fun _ => trivial⟩

theorem Operation.bind {f : Int → Program} (operation : Operation p)
    (rest : ∀ answer, Operation (f answer)) : Operation (p.bind f) := by
  have both (d : Nat) := Region.Bracketed.bind (operation.bracketed d)
    fun answer => ⟨(rest answer).bracketed d, (rest answer).outside d⟩
  exact ⟨fun d => (both d).1, fun d => (both d).2.trans (operation.outside d),
    operation.keeps.bind fun answer => (rest answer).keeps⟩

theorem Operation.ret (status : Int) : Operation (.ret status) :=
  ⟨fun _ => trivial, fun _ => rfl, trivial⟩

theorem Operation.ask {request : Request} {go : Int → Program} (own : request.Private)
    (rest : ∀ answer, Operation (go answer)) : Operation (.ask request go) := by
  refine ⟨fun d => ⟨fun answer => (rest answer).bracketed d, ?_⟩, fun d => ?_,
    own.keeps, fun answer => (rest answer).keeps⟩
  · rw [mark_private own]
    exact fun answer => ((rest answer).outside d).trans ((rest _).outside d).symm
  · exact (Region.inside_other (mark_private own)).trans ((rest _).outside d)

theorem call_private (c : CardCall) : (call c).All Request.Private := ⟨trivial, fun _ => trivial⟩

theorem ret_private (status : Int) : (Prog.ret status : Program).All Request.Private := trivial

theorem choice_private {p q : Program} (left : p.All Request.Private)
    (right : q.All Request.Private) :
    (Prog.ask .isMmc fun mmc => if mmc ≠ 0 then p else q).All Request.Private := by
  refine ⟨trivial, fun mmc => ?_⟩
  dsimp only
  split
  · exact left
  · exact right

theorem hpi_operation : Operation (sdioHpi device) := by
  have operation (c : CardCall) : Operation (synchronized device (call c)) :=
    synchronized_operation (call_private c)
  refine (operation .waitCardStatus).bind fun status => ?_
  split
  · refine Operation.ask trivial fun cmd12 => ?_
    have stopped : Operation
        (if cmd12 ≠ 0 then sdioStopTransmission device else sdioSendStatus device) := by
      split
      · exact operation .stopTransmission
      · exact operation .sendStatus
    refine stopped.bind fun status => ?_
    split
    · exact operation .waitCardStatus
    · exact .ret status
  · exact .ret status

/-- `sdio_detach` and `sdio_attach` count nothing. -/
theorem detach_sound :
    Sound (sdioDetach device) ∧ ∀ d, (region d).inside (sdioDetach device) = false ∧
    frees d (sdioDetach device) = false := by
  have free (d : Nat) (answer : Int) : (region d).inside
      (if answer ≠ 0 then Prog.ret EBUSY
        else .ask (.unlink device) fun _ => .ask (.free device) fun _ => .ret EOK) = false := by
    split
    · rfl
    · rfl
  refine ⟨⟨fun d => ⟨fun answer => ?_, fun answer => (free d answer).trans (free d _).symm⟩,
    fun answer => ?_⟩, fun d => ⟨(Region.inside_other rfl).trans (free d _), rfl⟩⟩
  · dsimp only
    split
    · trivial
    · exact ⟨fun _ => ⟨fun _ => trivial, fun _ => rfl⟩, fun _ => rfl⟩
  · dsimp only
    split
    · exact ⟨trivial, nofun⟩
    · next zero =>
      refine ⟨fun _ => ⟨fun _ => ⟨trivial, nofun⟩, fun d free => ?_⟩, fun d free => ?_⟩
      · exact .inl (congrArg Request.unlink (beq_iff_eq.mp free))
      · exact .inr ⟨congrArg Request.usage (beq_iff_eq.mp free), not_not.mp zero⟩

theorem attach_operation {path : Nat} {generation : Option Nat} :
    Sound (sdioAttach path generation) ∧
      ∀ d, (region d).inside (sdioAttach path generation) = false ∧
        frees d (sdioAttach path generation) = false :=
  ⟨⟨fun _ => ⟨fun _ => trivial, fun _ => rfl⟩, fun _ => ⟨trivial, nofun⟩⟩, fun _ => ⟨rfl, rfl⟩⟩

theorem Operation.start (operation : Operation p) :
    Sound p ∧ ∀ d, (region d).inside p = false ∧ frees d p = false :=
  ⟨operation.sound, fun d => ⟨operation.outside d, frees_of_all operation.keeps⟩⟩

theorem Call.sound (c : Call) : Sound c.program ∧
    ∀ d, (region d).inside c.program = false ∧ frees d c.program = false := by
  cases c with
  | detach device => exact detach_sound
  | attach path generation => exact attach_operation
  | hpi device => exact hpi_operation.start
  | setPartition device =>
    exact (synchronized_operation (choice_private (call_private _) (ret_private _))).start
  | cache device =>
    exact (synchronized_operation (choice_private (call_private _) (ret_private _))).start
  | erase device =>
    exact (synchronized_operation
      (choice_private (call_private _) (call_private _))).start
  | lockUnlock device =>
    exact (synchronized_operation (choice_private (ret_private _) (call_private _))).start
  | busError device =>
    exact (synchronized_operation ((call_private _).bind fun _ => ret_private _)).start
  | reset device =>
    exact (synchronized_operation ((call_private _).bind fun _ => ret_private _)).start
  | idle device => exact (synchronized_operation (ret_private _)).start
  | _ => exact (synchronized_operation (call_private _)).start

end Programs

/-! ## One step -/

/-- The device on which a program begins an operation next -/
def begins : Program → Option Nat
  | .ask (.synchronize d io ncmds) _ => if io && decide (0 ≤ ncmds) then some d else none
  | _ => none

/-- No operation begins on a device that `sdio_detach` found unused and is about to free, unless it
is refused because the removal is pending or the media changed. -/
def Sdio.Fits (s : Sdio) : Action → Prop
  | .step i _ => ∀ d ∈ s.threads[i]?.bind begins, ∀ device ∈ s.device d,
      s.threads.any (frees d) = true →
        device.rmvPending = true ∨ (s.hc device.hc).dev.mediaChange = true
  | _ => True

instance (s : Sdio) : ∀ action, Decidable (s.Fits action)
  | .step _ _ => by
      unfold Sdio.Fits
      infer_instance
  | .call _ _ => .isTrue trivial
  | .mediaChange _ => .isTrue trivial
  | .cd _ _ _ => .isTrue trivial

/-- The device whose removal `sdio_cd` is handling -/
def Cd.handled : Cd → Option Nat
  | .wait _ d => some d
  | .removal _ d => some d
  | _ => none

/-- What holds in every state of a run whose steps fit. -/
structure Sdio.Inv (s : Sdio) : Prop where
  sound : ∀ p ∈ s.threads, Sound p
  few : s.threads.length < 2 ^ 32
  counted : ∀ d device, s.device d = some device → device.usage = BitVec.ofNat 32 (s.inFlight d)
  gone : ∀ d, s.device d = none → s.inFlight d = 0
  unused : ∀ p ∈ s.threads, ∀ d, frees d p = true → s.inFlight d = 0
  removal : ∀ h cd d, (s.hc h).cd = .removal cd d → s.inFlight d = 0
  pending : ∀ h d, (s.hc h).cd.handled = some d →
    d < s.next ∧ ∀ device, s.device d = some device → device.rmvPending = true
  fresh : ∀ d, s.next ≤ d → s.device d = none

section Steps

variable {s t u : Sdio} {i : Nat} {request : Request} {go : Int → Program} {answer : Int} {d : Nat}
  {p q : Program}

theorem Sdio.Inv.of_start (start : s.Start) (few : s.threads.length < 2 ^ 32) : s.Inv := by
  have outside (d : Nat) : s.inFlight d = 0 := by
    refine List.countP_eq_zero.mpr fun p mem => ?_
    obtain ⟨status, rfl⟩ := start.threads p mem
    exact Bool.false_ne_true
  refine ⟨fun p mem => ?_, few, fun d device there => ?_, fun d _ => outside d,
    fun p mem d free => outside d, fun h cd d here => outside d, fun h d here => ?_,
    fun d _ => start.device d⟩
  · obtain ⟨status, rfl⟩ := start.threads p mem
    exact ⟨fun _ => trivial, trivial⟩
  · cases (start.device d).symm.trans there
  · rw [start.cd h] at here
    cases here

theorem Sdio.Inv.small (inv : s.Inv) : s.inFlight d < 2 ^ 32 :=
  Nat.lt_of_le_of_lt Region.count_le inv.few

theorem Sdio.Inv.toNat (inv : s.Inv) {device : SdioDevice} (there : s.device d = some device) :
    device.usage.toNat = s.inFlight d := by
  rw [inv.counted d device there, BitVec.toNat_ofNat, Nat.mod_eq_of_lt inv.small]

/-- What a step of a thread does to the numbers of operations in flight, by its mark. -/
theorem Sound.count_other (sound : Sound (.ask request go))
    (here : s.threads[i]? = some (.ask request go))
    (other : (region d).mark request = .other) :
    (region d).count (s.threads.set i (go answer)) = s.inFlight d := by
  have same := (sound.bracketed d).2
  rw [other] at same
  exact Region.count_same here ((same answer).trans (Region.inside_other other).symm)

theorem Sound.count_leave (sound : Sound (.ask request go))
    (here : s.threads[i]? = some (.ask request go)) (leave : (region d).mark request = .leave)
    (answer : Int) :
    (region d).count (s.threads.set i (go answer)) + 1 = s.inFlight d := by
  have left := (sound.bracketed d).2
  rw [leave] at left
  exact Region.count_leave here (Region.inside_leave leave) (left answer)

theorem Sound.count_enter (sound : Sound (.ask request go))
    (here : s.threads[i]? = some (.ask request go)) (enter : (region d).mark request = .enter) :
    (region d).count (s.threads.set i (go EOK)) = s.inFlight d + 1 := by
  have entered := (sound.bracketed d).2
  rw [enter] at entered
  exact Region.count_enter here (Region.inside_enter enter) entered.1

theorem Sound.count_refused (sound : Sound (.ask request go))
    (here : s.threads[i]? = some (.ask request go)) (enter : (region d).mark request = .enter)
    (refused : answer ≠ EOK) :
    (region d).count (s.threads.set i (go answer)) = s.inFlight d := by
  have entered := (sound.bracketed d).2
  rw [enter] at entered
  exact Region.count_same here ((entered.2 answer refused).trans (Region.inside_enter enter).symm)

theorem Sound.begins_or_ends {io : Bool} {ncmds : Int}
    (sound : Sound (.ask (.synchronize d io ncmds) go)) :
    io = true ∧ (ncmds = 1 ∨ ncmds = -1) := by
  apply Classical.byContradiction
  intro other
  have marked := (sound.bracketed d).2
  rw [mark_never other] at marked
  exact marked

theorem Sdio.Inv.next (inv : s.Inv) (here : s.threads[i]? = some (.ask request go))
    (answer : Int) :
    Sound (go answer) ∧ ∀ d, frees d (go answer) = true →
      request = .unlink d ∧ s.inFlight d = 0 ∨ request = .usage d ∧ answer = 0 := by
  have mem := List.mem_of_getElem? here
  have sound := inv.sound _ mem
  have next := sound.guarded answer
  refine ⟨⟨fun d => (sound.bracketed d).1 answer, next.1⟩, fun d free => ?_⟩
  rcases next.2 d free with rfl | usage
  · exact .inl ⟨rfl, inv.unused _ mem d (beq_self_eq_true d)⟩
  · exact .inr usage

/-- A step that changes no number of operations in flight. It may free a device without any, and
attach one. -/
theorem Sdio.Inv.keep (inv : s.Inv) (threads : t.threads = s.threads.set i q) (sound : Sound q)
    (counts : ∀ d, t.inFlight d = s.inFlight d)
    (unused : ∀ d, frees d q = true → s.inFlight d = 0) (hc : t.hc = s.hc)
    (devices : ∀ d device, t.device d = some device →
      s.device d = some device ∨ d = s.next ∧ device.usage = 0)
    (lost : ∀ d, t.device d = none → s.inFlight d = 0) (next : s.next ≤ t.next)
    (fresh : ∀ d, t.next ≤ d → t.device d = none) : t.Inv := by
  refine ⟨fun p mem => ?_, ?_, fun d device there => ?_,
    fun d none => (counts d).trans (lost d none),
    fun p mem d free => ?_, fun h cd d here => ?_, fun h d here => ?_, fresh⟩
  · rw [threads] at mem
    rcases List.mem_or_eq_of_mem_set mem with old | rfl
    · exact inv.sound p old
    · exact sound
  · rw [threads, List.length_set]
    exact inv.few
  · rw [counts d]
    rcases devices d device there with old | ⟨rfl, zero⟩
    · exact inv.counted d device old
    · rw [zero, inv.gone _ (inv.fresh _ (Nat.le_refl _))]
      rfl
  · rw [threads] at mem
    rw [counts d]
    rcases List.mem_or_eq_of_mem_set mem with old | rfl
    · exact inv.unused p old d free
    · exact unused d free
  · rw [hc] at here
    exact (counts d).trans (inv.removal h cd d here)
  · rw [hc] at here
    obtain ⟨within, pending⟩ := inv.pending h d here
    refine ⟨Nat.lt_of_lt_of_le within next, fun device there => ?_⟩
    rcases devices d device there with old | ⟨rfl, _⟩
    · exact pending device old
    · exact absurd within (Nat.lt_irrefl _)

/-- `_sdio_synchronize` that counts: the device is not about to be freed, and the notification of
its removal is not due. -/
theorem Sdio.Inv.counts (inv : s.Inv) {device next : SdioDevice} {ncmds : Int}
    (here : s.threads[i]? = some (.ask (.synchronize d true ncmds) go))
    (there : s.device d = some device)
    (usage : next.usage = BitVec.ofNat 32 ((region d).count (s.threads.set i (go answer))))
    (flag : next.rmvPending = device.rmvPending)
    (unused : ∀ p ∈ s.threads, frees d p = false)
    (waits : ∀ h cd, (s.hc h).cd ≠ .removal cd d) :
    Sdio.Inv { s.setDevice d (some next) with threads := s.threads.set i (go answer) } := by
  have sound := inv.sound _ (List.mem_of_getElem? here)
  have same {d' : Nat} (other : d' ≠ d) :
      (region d').count (s.threads.set i (go answer)) = s.inFlight d' :=
    sound.count_other here (mark_else other.symm)
  have device_ne {d' : Nat} (other : d' ≠ d) :
      (s.setDevice d (some next)).device d' = s.device d' := Function.update_of_ne other _ _
  have device_eq : (s.setDevice d (some next)).device d = some next := Function.update_self ..
  obtain ⟨after, frees_after⟩ := inv.next here answer
  refine ⟨fun p mem => ?_, Nat.lt_of_le_of_lt (Nat.le_of_eq List.length_set) inv.few,
    fun d' device' there' => ?_, fun d' none => ?_, fun p mem d' free => ?_,
    fun h cd d' phase => ?_, fun h d' phase => ?_, fun d' above => ?_⟩
  · rcases List.mem_or_eq_of_mem_set mem with old | rfl
    · exact inv.sound p old
    · exact after
  · rcases eq_or_ne d' d with rfl | other
    · cases device_eq.symm.trans there'
      exact usage
    · have counted := inv.counted d' device' ((device_ne other).symm.trans there')
      exact counted.trans (congrArg (BitVec.ofNat 32) (same other).symm)
  · rcases eq_or_ne d' d with rfl | other
    · cases device_eq.symm.trans none
    · exact (same other).trans (inv.gone d' ((device_ne other).symm.trans none))
  · rcases List.mem_or_eq_of_mem_set mem with old | rfl
    · have other : d' ≠ d := by
        rintro rfl
        exact absurd ((unused p old).symm.trans free) nofun
      exact (same other).trans (inv.unused p old d' free)
    · rcases frees_after d' free with ⟨unlink, _⟩ | ⟨usage, _⟩
      · cases unlink
      · cases usage
  · have other : d' ≠ d := by
      rintro rfl
      exact waits h cd phase
    exact (same other).trans (inv.removal h cd d' phase)
  · obtain ⟨within, pending⟩ := inv.pending h d' phase
    refine ⟨within, fun device' there' => ?_⟩
    rcases eq_or_ne d' d with rfl | other
    · cases device_eq.symm.trans there'
      exact flag.trans (pending device there)
    · exact pending device' ((device_ne other).symm.trans there')
  · have other : d' ≠ d := by
      rintro rfl
      cases (inv.fresh d' above).symm.trans there
    exact (device_ne other).trans (inv.fresh d' above)

theorem Sdio.Inv.begin (inv : s.Inv) {device : SdioDevice}
    (here : s.threads[i]? = some (.ask (.synchronize d true 1) go))
    (there : s.device d = some device)
    (pending : device.rmvPending = false) (unused : ∀ p ∈ s.threads, frees d p = false) :
    Sdio.Inv { s.setDevice d (some { device with usage := device.usage + BitVec.ofInt 32 1 }) with
      threads := s.threads.set i (go EOK) } := by
  have sound := inv.sound _ (List.mem_of_getElem? here)
  apply inv.counts here there
  · rw [sound.count_enter here mark_begin, BitVec.ofNat_add, ← inv.counted d device there]
    rfl
  · rfl
  · exact unused
  · intro h cd phase
    have now := (inv.pending h d (by rw [phase]; rfl)).2 device there
    exact absurd (pending.symm.trans now) nofun

theorem Sdio.Inv.end (inv : s.Inv) {device : SdioDevice}
    (here : s.threads[i]? = some (.ask (.synchronize d true (-1)) go))
    (there : s.device d = some device) :
    Sdio.Inv {
      s.setDevice d (some { device with usage := device.usage + BitVec.ofInt 32 (-1) }) with
      threads := s.threads.set i (go EOK) } := by
  have sound := inv.sound _ (List.mem_of_getElem? here)
  have left := sound.count_leave here mark_end EOK
  have busy : s.inFlight d ≠ 0 := fun zero => Nat.succ_ne_zero _ (left.trans zero)
  apply inv.counts here there
  · change device.usage + BitVec.ofInt 32 (-1) = _
    rw [inv.counted d device there, ← left, BitVec.ofNat_add, BitVec.add_assoc]
    exact BitVec.add_zero _
  · rfl
  · intro p mem
    cases free : frees d p with
    | false => rfl
    | true => exact absurd (inv.unused p mem d free) busy
  · exact fun h cd phase => busy (inv.removal h cd d phase)

theorem Sdio.Inv.other (inv : s.Inv) (here : s.threads[i]? = some (.ask request go))
    (other : ∀ d, (region d).mark request = .other)
    (tested : ∀ d, request = .usage d → answer = 0 → s.inFlight d = 0) {dlist : List Nat} :
    Sdio.Inv { s with dlist := dlist, threads := s.threads.set i (go answer) } := by
  have sound := inv.sound _ (List.mem_of_getElem? here)
  obtain ⟨after, frees_after⟩ := inv.next here answer
  refine inv.keep rfl after (fun d => sound.count_other here (other d)) (fun d free => ?_) rfl
    (fun d device there => .inl there) (fun d none => inv.gone d none) (Nat.le_refl _) inv.fresh
  rcases frees_after d free with ⟨_, zero⟩ | ⟨usage, zero⟩
  · exact zero
  · exact tested d usage zero

theorem Sdio.setDevice_self {device : SdioDevice} (there : s.device d = some device) :
    s.setDevice d (some device) = s := by
  unfold Sdio.setDevice
  rw [← there, Function.update_eq_self]

theorem run_synchronize {io : Bool} {ncmds result : Int} {device : SdioDevice}
    (there : s.device d = some device) :
    (Request.synchronize d io ncmds).run s result =
      some ((sdioSynchronize (s.hc device.hc).dev device io ncmds).1,
        s.setDevice d (some (sdioSynchronize (s.hc device.hc).dev device io ncmds).2)) := by
  unfold Request.run
  dsimp only
  rw [there]

theorem run_gone {io : Bool} {ncmds result : Int} (gone : s.device d = none) :
    (Request.synchronize d io ncmds).run s result = none := by
  unfold Request.run
  dsimp only
  rw [gone]

/-- `sdio_attach` leaves all as it is, or adds a device without operations. -/
theorem Sdio.attach_cases (s : Sdio) (path : Nat) (generation : Option Nat) (memory : Bool) :
    (s.attach path generation memory).2 = s ∨ ∃ device : SdioDevice, device.usage = 0 ∧
      (s.attach path generation memory).2 =
        { s.setDevice s.next (some device) with
          next := s.next + 1, dlist := s.dlist ++ [s.next] } := by
  unfold Sdio.attach
  dsimp only
  split
  · split
    · exact .inr ⟨_, rfl, rfl⟩
    · exact .inl rfl
  · exact .inl rfl

theorem Sdio.Inv.synchronize (inv : s.Inv) {io : Bool} {ncmds result : Int}
    (here : s.threads[i]? = some (.ask (.synchronize d io ncmds) go))
    (fits : s.Fits (.step i result))
    (ran : (Request.synchronize d io ncmds).run s result = some (answer, u)) :
    Sdio.Inv { u with threads := u.threads.set i (go answer) } := by
  have sound := inv.sound _ (List.mem_of_getElem? here)
  obtain ⟨rfl, way⟩ := sound.begins_or_ends
  cases there : s.device d with
  | none => cases (run_gone there).symm.trans ran
  | some device =>
    rw [run_synchronize there] at ran
    rcases way with rfl | rfl
    · cases refused : device.rmvPending || (s.hc device.hc).dev.mediaChange with
      | true =>
        have status :
            sdioSynchronize (s.hc device.hc).dev device true 1 = ( ENXIO, device) := by
          unfold sdioSynchronize
          rw [refused]
          rfl
        rw [status] at ran
        cases ran
        have after := inv.next here ENXIO
        rw [Sdio.setDevice_self there]
        refine inv.keep rfl after.1 (fun d' => ?_) (fun d' free => ?_) rfl
          (fun d' device there => .inl there) (fun d' none => inv.gone d' none) (Nat.le_refl _)
          inv.fresh
        · rcases eq_or_ne d d' with rfl | other
          · exact sound.count_refused here mark_begin (by decide : ENXIO ≠ EOK)
          · exact sound.count_other here (mark_else other)
        · rcases after.2 d' free with ⟨unlink, _⟩ | ⟨usage, _⟩
          · cases unlink
          · cases usage
      | false =>
        have status : sdioSynchronize (s.hc device.hc).dev device true 1 =
            (EOK, { device with usage := device.usage + BitVec.ofInt 32 1 }) := by
          unfold sdioSynchronize
          rw [refused]
          rfl
        rw [status] at ran
        cases ran
        obtain ⟨pending, unchanged⟩ := Bool.or_eq_false_iff.mp refused
        refine inv.begin here there pending fun p mem => ?_
        cases free : frees d p with
        | false => rfl
        | true =>
          have next : d ∈ s.threads[i]?.bind begins := by
            rw [here]
            rfl
          have any : s.threads.any (frees d) = true := List.any_eq_true.mpr ⟨p, mem, free⟩
          rcases fits d next device there any with now | changed
          · exact absurd (pending.symm.trans now) nofun
          · exact absurd (unchanged.symm.trans changed) nofun
    · have status : sdioSynchronize (s.hc device.hc).dev device true (-1) =
          (EOK, { device with usage := device.usage + BitVec.ofInt 32 (-1) }) := rfl
      rw [status] at ran
      cases ran
      exact inv.end here there

theorem Sdio.Inv.run (inv : s.Inv) {result : Int}
    (here : s.threads[i]? = some (.ask request go)) (fits : s.Fits (.step i result))
    (ran : request.run s result = some (answer, u)) :
    Sdio.Inv { u with threads := u.threads.set i (go answer) } := by
  cases request with
  | synchronize d io ncmds => exact inv.synchronize here fits ran
  | card call =>
    cases ran
    exact inv.other here (fun _ => rfl) nofun
  | isMmc =>
    cases ran
    exact inv.other here (fun _ => rfl) nofun
  | hpiCmd12 =>
    cases ran
    exact inv.other here (fun _ => rfl) nofun
  | usage d =>
    obtain ⟨device, there, read⟩ := Option.map_eq_some_iff.mp ran
    cases read
    refine inv.other here (fun _ => rfl) fun d' same zero => ?_
    cases same
    exact (inv.toNat there).symm.trans (Int.ofNat_eq_zero.mp zero)
  | unlink d =>
    rcases Option.ite_none_right_eq_some.mp ran with ⟨_, removed⟩
    cases removed
    exact inv.other here (fun _ => rfl) nofun
  | free d =>
    obtain ⟨device, there, freed⟩ := Option.map_eq_some_iff.mp ran
    cases freed
    have mem := List.mem_of_getElem? here
    have unused := inv.unused _ mem d (beq_self_eq_true d)
    have after := inv.next here EOK
    refine inv.keep rfl after.1 (fun d' => (inv.sound _ mem).count_other here rfl)
      (fun d' free => ?_) rfl (fun d' device there' => ?_) (fun d' none => ?_) (Nat.le_refl _)
      fun d' above => ?_
    · rcases after.2 d' free with ⟨unlink, _⟩ | ⟨usage, _⟩
      · cases unlink
      · cases usage
    · rcases eq_or_ne d' d with rfl | other
      · cases (Function.update_self ..).symm.trans there'
      · exact .inl ((Function.update_of_ne other _ _).symm.trans there')
    · rcases eq_or_ne d' d with rfl | other
      · exact unused
      · exact inv.gone d' ((Function.update_of_ne other _ _).symm.trans none)
    · rcases eq_or_ne d' d with rfl | other
      · exact Function.update_self ..
      · exact (Function.update_of_ne other _ _).trans (inv.fresh d' above)
  | attach path generation =>
    obtain ⟨rfl, rfl⟩ := Prod.ext_iff.mp (Option.some.inj ran)
    have mem := List.mem_of_getElem? here
    have after := inv.next here
      (s.attach path generation (result == EOK)).1
    have unused (d : Nat)
        (free : frees d (go (s.attach path generation (result == EOK)).1) = true) :
        s.inFlight d = 0 := by
      rcases after.2 d free with ⟨unlink, _⟩ | ⟨usage, _⟩
      · cases unlink
      · cases usage
    rcases s.attach_cases path generation (result == EOK) with same | ⟨device, zero, added⟩
    · rw [same]
      exact inv.keep rfl after.1 (fun d => (inv.sound _ mem).count_other here rfl) unused rfl
        (fun d device there => .inl there) (fun d none => inv.gone d none) (Nat.le_refl _)
        inv.fresh
    · rw [added]
      refine inv.keep rfl after.1 (fun d => (inv.sound _ mem).count_other here rfl) unused rfl
        (fun d device' there => ?_) (fun d none => ?_) (Nat.le_succ _) fun d above => ?_
      · rcases eq_or_ne d s.next with rfl | other
        · cases (Function.update_self ..).symm.trans there
          exact .inr ⟨rfl, zero⟩
        · exact .inl ((Function.update_of_ne other _ _).symm.trans there)
      · rcases eq_or_ne d s.next with rfl | other
        · cases (Function.update_self ..).symm.trans none
        · exact inv.gone d ((Function.update_of_ne other _ _).symm.trans none)
      · have other : d ≠ s.next := Nat.ne_of_gt above
        exact (Function.update_of_ne other _ _).trans (inv.fresh d (Nat.le_of_lt above))

/-! ## The handling of media changes -/

/-- A step outside the threads: it may make removals pending, and go on with one that is, to the
notification only for a device without operations. -/
theorem Sdio.Inv.outside (inv : s.Inv) (threads : t.threads = s.threads) (next : t.next = s.next)
    (devices : ∀ d device, t.device d = some device → ∃ old, s.device d = some old ∧
      device.usage = old.usage ∧ (old.rmvPending = true → device.rmvPending = true))
    (lost : ∀ d, t.device d = none ↔ s.device d = none)
    (due : ∀ h cd d, (t.hc h).cd = .removal cd d →
      (s.hc h).cd = .removal cd d ∨ s.inFlight d = 0)
    (handled : ∀ h d, (t.hc h).cd.handled = some d → (s.hc h).cd.handled = some d ∨
      ∃ device, s.device d = some device ∧ device.rmvPending = true) : t.Inv := by
  have same (d : Nat) : t.inFlight d = s.inFlight d := congrArg (region d).count threads
  refine ⟨threads ▸ inv.sound, threads ▸ inv.few, fun d device there => ?_,
    fun d none => (same d).trans (inv.gone d ((lost d).mp none)),
    fun p mem d free => (same d).trans (inv.unused p (threads ▸ mem) d free),
    fun h cd d phase => ?_, fun h d phase => ?_,
    fun d above => (lost d).mpr (inv.fresh d (next ▸ above))⟩
  · obtain ⟨old, there, usage, _⟩ := devices d device there
    rw [same d, usage]
    exact inv.counted d old there
  · rw [same d]
    rcases due h cd d phase with before | now
    · exact inv.removal h cd d before
    · exact now
  · rw [next]
    rcases handled h d phase with before | ⟨device, there, pending⟩
    · obtain ⟨within, pending⟩ := inv.pending h d before
      refine ⟨within, fun device there => ?_⟩
      obtain ⟨old, there, _, keeps⟩ := devices d device there
      exact keeps (pending old there)
    · have within : d < s.next := by
        rcases Nat.lt_or_ge d s.next with below | above
        · exact below
        · cases (inv.fresh d above).symm.trans there
      refine ⟨within, fun device' there' => ?_⟩
      obtain ⟨old, there', _, keeps⟩ := devices d device' there'
      cases there.symm.trans there'
      exact keeps pending

theorem Sdio.setHc_self {h : Nat} {f : SdioHc → SdioHc} : (s.setHc h f).hc h = f (s.hc h) :=
  Function.update_self ..

theorem Sdio.setHc_ne {h h' : Nat} {f : SdioHc → SdioHc} (other : h' ≠ h) :
    (s.setHc h f).hc h' = s.hc h' := Function.update_of_ne other _ _

theorem Sdio.Inv.setHc (inv : s.Inv) {h : Nat} {f : SdioHc → SdioHc}
    (quiet : (f (s.hc h)).cd.handled = none ∨ (f (s.hc h)).cd = (s.hc h).cd) :
    (s.setHc h f).Inv := by
  refine inv.outside rfl rfl (fun d device there => ⟨device, there, rfl, id⟩) (fun d => Iff.rfl)
    (fun h' cd d phase => .inl ?_) fun h' d phase => .inl ?_
  · rcases eq_or_ne h' h with rfl | other
    · rw [Sdio.setHc_self] at phase
      rcases quiet with none | same
      · rw [phase] at none
        cases none
      · exact same.symm.trans phase
    · rw [Sdio.setHc_ne other] at phase
      exact phase
  · rcases eq_or_ne h' h with rfl | other
    · rw [Sdio.setHc_self] at phase
      rcases quiet with none | same
      · cases none.symm.trans phase
      · rw [same] at phase
        exact phase
    · rw [Sdio.setHc_ne other] at phase
      exact phase

/-- `sdio_cd` goes on with a removal that is pending, to the notification when the count is zero. -/
theorem Sdio.Inv.handle (inv : s.Inv) {h : Nat} {f : SdioHc → SdioHc} {device : SdioDevice}
    (there : s.device d = some device) (pending : device.rmvPending = true)
    (phase : (f (s.hc h)).cd.handled = some d)
    (zero : ∀ cd, (f (s.hc h)).cd = .removal cd d → device.usage = 0) : (s.setHc h f).Inv := by
  have unused (none : device.usage = 0) : s.inFlight d = 0 := by
    rw [← inv.toNat there, none]
    rfl
  refine inv.outside rfl rfl (fun d device there => ⟨device, there, rfl, id⟩) (fun d => Iff.rfl)
    (fun h' cd' d' phase' => ?_) fun h' d' phase' => ?_
  · rcases eq_or_ne h' h with rfl | other
    · rw [Sdio.setHc_self] at phase'
      rw [phase'] at phase
      cases phase
      exact .inr (unused (zero cd' phase'))
    · rw [Sdio.setHc_ne other] at phase'
      exact .inl phase'
  · rcases eq_or_ne h' h with rfl | other
    · rw [Sdio.setHc_self] at phase'
      cases phase.symm.trans phase'
      exact .inr ⟨device, there, pending⟩
    · rw [Sdio.setHc_ne other] at phase'
      exact .inl phase'

theorem Sdio.Inv.pend (inv : s.Inv) {device : SdioDevice} (there : s.device d = some device) :
    (s.setDevice d (some { device with rmvPending := true })).Inv := by
  have device_eq : (s.setDevice d (some { device with rmvPending := true })).device d =
      some { device with rmvPending := true } := Function.update_self ..
  have device_ne {d' : Nat} (other : d' ≠ d) :
      (s.setDevice d (some { device with rmvPending := true })).device d' = s.device d' :=
    Function.update_of_ne other _ _
  refine inv.outside rfl rfl (fun d' next there' => ?_) (fun d' => ?_)
    (fun h cd d' phase => .inl phase) fun h d' phase => .inl phase
  · rcases eq_or_ne d' d with rfl | other
    · cases device_eq.symm.trans there'
      exact ⟨device, there, rfl, fun _ => rfl⟩
    · exact ⟨next, (device_ne other).symm.trans there', rfl, id⟩
  · rcases eq_or_ne d' d with rfl | other
    · rw [device_eq, there]
      exact iff_of_false nofun nofun
    · rw [device_ne other]

theorem Sdio.Inv.cd (inv : s.Inv) {h : Nat} {cd : CdState} {ident : Bool}
    (ran : sdioCd s h cd ident = some t) : t.Inv := by
  unfold sdioCd at ran
  dsimp only at ran
  cases phase : (s.hc h).cd with
  | lookup cd' =>
    rw [phase] at ran
    dsimp only at ran
    cases found : s.lookup h with
    | none =>
      rw [found] at ran
      cases ran
      exact inv.setHc (.inl rfl)
    | some d =>
      rw [found] at ran
      obtain ⟨device, there, rfl⟩ := Option.map_eq_some_iff.mp ran
      have now := inv.pend there
      split
      · exact now.handle (Function.update_self ..) rfl rfl nofun
      · next zero =>
        exact now.handle (Function.update_self ..) rfl rfl fun _ _ => not_not.mp zero
  | wait cd' d =>
    rw [phase] at ran
    obtain ⟨device, there, rfl⟩ := Option.map_eq_some_iff.mp ran
    split
    · exact inv
    · next zero =>
      have pending := (inv.pending h d (by rw [phase]; rfl)).2 device there
      exact inv.handle there pending rfl fun _ _ => not_not.mp zero
  | changed cd' =>
    rw [phase] at ran
    cases ran
    refine inv.setHc (.inl ?_)
    dsimp only
    split
    · rfl
    · rfl
  | present cd' =>
    rw [phase] at ran
    cases ran
    refine inv.setHc (.inl ?_)
    dsimp only
    split
    · rfl
    · rfl
  | insert cd' =>
    rw [phase] at ran
    cases ran
    refine inv.setHc (.inl ?_)
    dsimp only
    split
    · rfl
    · rfl
  | _ =>
    rw [phase] at ran
    cases ran
    exact inv.setHc (.inl rfl)

/-! ## Runs -/

theorem Sdio.Inv.step {action : Action} (inv : s.Inv) (ran : s.step action = some t)
    (fits : s.Fits action) : t.Inv := by
  unfold Sdio.step at ran
  cases action with
  | call i c =>
    dsimp only at ran
    split at ran
    · next status here =>
      cases ran
      obtain ⟨sound, out⟩ := c.sound
      exact inv.keep rfl sound (fun d => Region.count_same here (out d).1)
        (fun d free => absurd ((out d).2.symm.trans free) nofun) rfl
        (fun d device there => .inl there) (fun d none => inv.gone d none) (Nat.le_refl _)
        inv.fresh
    · cases ran
  | step i result =>
    dsimp only at ran
    split at ran
    · next request go here =>
      obtain ⟨⟨answer, u⟩, did, rfl⟩ := Option.map_eq_some_iff.mp ran
      exact inv.run here fits did
    · cases ran
  | mediaChange h =>
    cases ran
    exact inv.setHc (.inr rfl)
  | cd h cd ident => exact inv.cd ran

theorem run_threads {result : Int} (ran : request.run s result = some (answer, u)) :
    u.threads = s.threads := by
  cases request with
  | synchronize d io ncmds =>
    cases there : s.device d with
    | none => cases (run_gone there).symm.trans ran
    | some device =>
      cases (run_synchronize there).symm.trans ran
      rfl
  | usage d =>
    obtain ⟨device, _, read⟩ := Option.map_eq_some_iff.mp ran
    cases read
    rfl
  | unlink d =>
    obtain ⟨_, removed⟩ := Option.ite_none_right_eq_some.mp ran
    cases removed
    rfl
  | free d =>
    obtain ⟨device, _, freed⟩ := Option.map_eq_some_iff.mp ran
    cases freed
    rfl
  | attach path generation =>
    obtain ⟨_, rfl⟩ := Prod.ext_iff.mp (Option.some.inj ran)
    rcases s.attach_cases path generation (result == EOK) with same | ⟨device, _, added⟩
    · rw [same]
    · rw [added]
      rfl
  | _ =>
    cases ran
    rfl

/-- A device is gone only after `free`. -/
theorem run_lost {result : Int} {device : SdioDevice}
    (ran : request.run s result = some (answer, u)) (there : s.device d = some device)
    (lost : u.device d = none) : request = .free d := by
  cases request with
  | synchronize d' io ncmds =>
    cases there' : s.device d' with
    | none => cases (run_gone there').symm.trans ran
    | some device' =>
      cases (run_synchronize there').symm.trans ran
      rcases eq_or_ne d d' with rfl | other
      · cases (Function.update_self ..).symm.trans lost
      · cases there.symm.trans ((Function.update_of_ne other _ _).symm.trans lost)
  | usage d' =>
    obtain ⟨device', _, read⟩ := Option.map_eq_some_iff.mp ran
    cases read
    cases there.symm.trans lost
  | unlink d' =>
    obtain ⟨_, removed⟩ := Option.ite_none_right_eq_some.mp ran
    cases removed
    cases there.symm.trans lost
  | free d' =>
    obtain ⟨device', _, freed⟩ := Option.map_eq_some_iff.mp ran
    cases freed
    rcases eq_or_ne d d' with rfl | other
    · rfl
    · cases there.symm.trans ((Function.update_of_ne other _ _).symm.trans lost)
  | attach path generation =>
    obtain ⟨_, rfl⟩ := Prod.ext_iff.mp (Option.some.inj ran)
    rcases s.attach_cases path generation (result == EOK) with same | ⟨device', _, added⟩
    · rw [same] at lost
      cases there.symm.trans lost
    · rw [added] at lost
      rcases eq_or_ne d s.next with rfl | other
      · cases (Function.update_self ..).symm.trans lost
      · cases there.symm.trans ((Function.update_of_ne other _ _).symm.trans lost)
  | _ =>
    cases ran
    cases there.symm.trans lost

/-- `sdio_cd` leaves the threads, and frees nothing. -/
theorem sdioCd_keeps {h : Nat} {cd : CdState} {ident : Bool} (ran : sdioCd s h cd ident = some t) :
    t.threads = s.threads ∧ ∀ d, t.device d = none → s.device d = none := by
  unfold sdioCd at ran
  dsimp only at ran
  split at ran
  case h_5 cd' phase =>
    split at ran
    · cases ran
      exact ⟨rfl, fun d lost => lost⟩
    · next d' found =>
      obtain ⟨device, there, rfl⟩ := Option.map_eq_some_iff.mp ran
      refine ⟨rfl, fun d lost => ?_⟩
      rcases eq_or_ne d d' with rfl | other
      · cases (Function.update_self ..).symm.trans lost
      · exact (Function.update_of_ne other _ _).symm.trans lost
  case h_6 cd' d' phase =>
    obtain ⟨device, there, rfl⟩ := Option.map_eq_some_iff.mp ran
    split
    · exact ⟨rfl, fun d lost => lost⟩
    · exact ⟨rfl, fun d lost => lost⟩
  all_goals
    cases ran
    exact ⟨rfl, fun d lost => lost⟩

theorem Sdio.Inv.begins {action : Action} (inv : s.Inv) (ran : s.step action = some t)
    (more : s.inFlight d < t.inFlight d) :
    ∃ device, s.device d = some device ∧ device.rmvPending = false := by
  unfold Sdio.step at ran
  cases action with
  | call i c =>
    dsimp only at ran
    split at ran
    · next status here =>
      cases ran
      have same := Region.count_same here ((c.sound.2 d).1)
      exact absurd more (Nat.not_lt_of_le (Nat.le_of_eq same))
    · cases ran
  | step i result =>
    dsimp only at ran
    split at ran
    · next request go here =>
      obtain ⟨⟨answer, u⟩, did, rfl⟩ := Option.map_eq_some_iff.mp ran
      have sound := inv.sound _ (List.mem_of_getElem? here)
      have more : s.inFlight d < (region d).count (u.threads.set i (go answer)) := more
      rw [run_threads did] at more
      have other (quiet : (region d).mark request = .other) : False :=
        absurd more (Nat.not_lt_of_le (Nat.le_of_eq (sound.count_other here quiet)))
      cases request with
      | synchronize d' io ncmds =>
        obtain ⟨rfl, way⟩ := sound.begins_or_ends
        rcases eq_or_ne d' d with rfl | apart
        · cases there : s.device d' with
          | none => cases (run_gone there).symm.trans did
          | some device =>
            refine ⟨device, rfl, ?_⟩
            cases (run_synchronize there).symm.trans did
            rcases way with rfl | rfl
            · cases pending : device.rmvPending with
              | false => rfl
              | true =>
                have refused : (sdioSynchronize (s.hc device.hc).dev device true 1).1 ≠
                    EOK := by
                  unfold sdioSynchronize
                  rw [pending]
                  exact (by decide : ENXIO ≠ EOK)
                have same := sound.count_refused here mark_begin refused
                exact absurd more (Nat.not_lt_of_le (Nat.le_of_eq same))
            · have left := sound.count_leave here mark_end
                (sdioSynchronize (s.hc device.hc).dev device true (-1)).1
              exact absurd more (Nat.not_lt_of_le (left ▸ Nat.le_succ _))
        · exact (other (mark_else apart)).elim
      | _ => exact (other rfl).elim
    · cases ran
  | mediaChange h =>
    cases ran
    exact absurd more (Nat.lt_irrefl _)
  | cd h cd ident =>
    have same : t.inFlight d = s.inFlight d :=
      congrArg (region d).count (sdioCd_keeps ran).1
    exact absurd more (Nat.not_lt_of_le (Nat.le_of_eq same))

theorem Sdio.Inv.freed {action : Action} {device : SdioDevice} (inv : s.Inv)
    (ran : s.step action = some t) (there : s.device d = some device) (lost : t.device d = none) :
    s.inFlight d = 0 := by
  unfold Sdio.step at ran
  cases action with
  | call i c =>
    dsimp only at ran
    split at ran
    · cases ran
      cases there.symm.trans lost
    · cases ran
  | step i result =>
    dsimp only at ran
    split at ran
    · next request go here =>
      obtain ⟨⟨answer, u⟩, did, rfl⟩ := Option.map_eq_some_iff.mp ran
      cases run_lost did there lost
      exact inv.unused _ (List.mem_of_getElem? here) d (beq_self_eq_true d)
    · cases ran
  | mediaChange h =>
    cases ran
    cases there.symm.trans lost
  | cd h cd ident => cases there.symm.trans ((sdioCd_keeps ran).2 d lost)

end Steps

/-- A host with a card, and two threads. -/
def inserted : Sdio where
  hlist := [0]
  hc := fun _ => ⟨0, 0, ⟨false, true, false, false⟩, .idle⟩
  device := fun _ => none
  next := 0
  dlist := []
  threads := [.ret EOK, .ret EOK]

theorem inserted_start : inserted.Start :=
  ⟨fun _ => rfl, rfl, fun _ mem => ⟨EOK, List.eq_of_mem_replicate (n := 2) mem⟩, fun _ => rfl⟩

/-- A command under way as the card is taken out: the notification of the removal waits for it. -/
def takenOut : List Action :=
  [.call 0 (.attach 0 none), .step 0 EOK, .call 0 (.sendCmd 0), .step 0 EOK] ++
    List.replicate 6 (.cd 0 ⟨false, false⟩ false) ++ [.step 0 EOK, .step 0 EOK] ++
      [.cd 0 ⟨false, false⟩ false]

def afterTakenOut : Sdio :=
  (evalRun Sdio.step (fun s action => decide (s.Fits action)) inserted takenOut).getD inserted

end Mx6xBsp.Sdmmc.Usage
