import Mathlib.Data.List.Basic
import Mathlib.Logic.Function.Basic
import Mx6xBsp.Lib.Runs

/-!
# Commands to the SDMA engine

Channel 0 carries the commands of all processes: `sdmacmd_ctx_load` and
`sdmaram_script_load` of `cmd.c` with the handler and the event calls of `irq.c`. The
descriptor, the interrupt bit and the engine are shared, the channel mask, the event and
the pulse channel belong to each process. A call is cut into the parts between which the
engine and the handlers may act. `genuine_iff` tells in which runs every call is ended by
its own command.
-/

namespace Mx6xBsp.Dma.Commands

open Runs

def SDMA_CMDSTAT_DONE_MASK : BitVec 32 := 0x10000
def SDMA_CMDSTAT_WRAP_MASK : BitVec 32 := 0x20000
def SDMA_CMDSTAT_INT_MASK : BitVec 32 := 0x80000
def SDMA_CMDSTAT_EXT_MASK : BitVec 32 := 0x800000
def SDMA_CMDSTAT_CMD_POS : Nat := 24
def SDMA_CMD_C0_SET_PM : BitVec 32 := 0x4 <<< SDMA_CMDSTAT_CMD_POS
def SDMA_CMD_C0_SETCTX (n : BitVec 32) : BitVec 32 := ((n <<< 3) ||| 7) <<< SDMA_CMDSTAT_CMD_POS
def SDMA_CTX_WSIZE : BitVec 32 := 32

/-- `sdma_bd_t` -/
structure Bd where
  cmdAndStatus : BitVec 32
  bufPaddr : BitVec 32
  extBufPaddr : BitVec 32

/-- The two calls. `scriptPaddr` is what `mem_offset64` tells of the copy of the script, nothing
where the copy cannot be mapped. -/
inductive Cmd
  | ctxLoad (chNum ctxPaddr : BitVec 32)
  | scriptLoad (size addr : BitVec 32) (scriptPaddr : Option (BitVec 64))

/-- What a call makes of the descriptor, nothing where it returns before the mutex. -/
def Cmd.write : Cmd → Bd → Option Bd
  | .ctxLoad chNum ctxPaddr, bd =>
    some { bd with
      cmdAndStatus := 0 ||| SDMA_CMD_C0_SETCTX chNum ||| SDMA_CMDSTAT_WRAP_MASK |||
        SDMA_CMDSTAT_DONE_MASK ||| SDMA_CMDSTAT_INT_MASK ||| SDMA_CTX_WSIZE
      bufPaddr := ctxPaddr }
  | .scriptLoad size addr scriptPaddr, _ =>
    scriptPaddr.map fun paddr =>
      { cmdAndStatus := 0 ||| SDMA_CMD_C0_SET_PM ||| SDMA_CMDSTAT_WRAP_MASK |||
          SDMA_CMDSTAT_DONE_MASK ||| SDMA_CMDSTAT_INT_MASK ||| SDMA_CMDSTAT_EXT_MASK ||| size / 2
        bufPaddr := paddr.setWidth 32
        extBufPaddr := addr }

/-- The engine and the processes. A command is named by the number of its call: `engine` has the
one whose descriptor it owns, `intr` the one that set the interrupt bit, a queue those of its
pulses. -/
structure Sys where
  channelMask : Nat → Bool
  eventArray : Nat → Bool
  queue : Nat → List Nat
  intr : Option Nat
  engine : Option Nat
  bd : Bd
  calls : Nat
  completed : List (Nat × Bd)

inductive Event
  | complete
  | irq (p : Nat)

namespace Sys

/-- The engine finishes its command and gives the descriptor back. -/
def complete (s : Sys) : Sys :=
  match s.engine with
  | none => s
  | some n =>
    { s with
      engine := none
      intr := s.intr.or (some n)
      completed := (n, s.bd) :: s.completed }

/-- `irq_handler` of the process `p`. Channel 0 is the first of its channels. -/
def irqHandler (s : Sys) (p : Nat) : Sys :=
  match s.intr with
  | none => s
  | some n =>
    if s.channelMask p then
      { s with
        intr := none
        queue := if s.eventArray p then Function.update s.queue p (s.queue p ++ [n]) else s.queue }
    else s

def event (s : Sys) : Event → Sys
  | .complete => s.complete
  | .irq p => s.irqHandler p

def events (s : Sys) (es : List Event) : Sys := es.foldl event s

/-- `atomic_set` of the channel mask, the first half of `sdmairq_event_add`. -/
def setMask (s : Sys) (p : Nat) : Sys :=
  { s with channelMask := Function.update s.channelMask p true }

def setEvent (s : Sys) (p : Nat) : Sys :=
  { s with eventArray := Function.update s.eventArray p true }

def irqEventRemove (s : Sys) (p : Nat) : Sys :=
  { s with
    channelMask := Function.update s.channelMask p false
    eventArray := Function.update s.eventArray p false }

/-- The descriptor is written and the channel started. -/
def start (s : Sys) (bd : Bd) : Sys :=
  { s with bd, engine := some s.calls, calls := s.calls + 1 }

/-- `MsgReceivePulse` takes the first pulse, or times out. -/
def receive (s : Sys) (p : Nat) : Sys :=
  { s with queue := Function.update s.queue p (s.queue p).tail }

end Sys

/-- A call by the process `p`: what happens between the two stores of `sdmairq_event_add`, from the
start of the channel until the receive ends, and from there until `sdmairq_event_remove`. -/
structure Call where
  p : Nat
  cmd : Cmd
  early : List Event
  before : List Event
  after : List Event

namespace Call

variable (c : Call) (s : Sys)

/-- The state in which the descriptor is written -/
def armed : Sys := ((s.setMask c.p).events c.early).setEvent c.p

/-- The state in which the receive ends -/
def waited (bd : Bd) : Sys := ((c.armed s).start bd).events c.before

/-- The command that sent the pulse which ends the call, nothing where it times out. -/
def pulse (bd : Bd) : Option Nat := ((c.waited s bd).queue c.p).head?

def finish (bd : Bd) : Sys :=
  (((c.waited s bd).receive c.p).events c.after).irqEventRemove c.p

/-- What a call returns, and the state it leaves. -/
def run : Int × Sys :=
  match c.cmd.write (c.armed s).bd with
  | none => (-1, s)
  | some bd => (if (c.pulse s bd).isSome then 0 else -1, c.finish s bd)

/-- What is right of a call that starts its command: the engine does not own the descriptor when it
is written, the call returns 0 only with its command completed, and the pulse is the command's
own. -/
structure Started (bd : Bd) : Prop where
  free : (c.armed s).engine = none
  done : (c.run s).1 = 0 → (s.calls, bd) ∈ (c.waited s bd).completed
  own : ∀ n, c.pulse s bd = some n → n = s.calls

def Genuine : Prop := ∀ bd, c.cmd.write (c.armed s).bd = some bd → c.Started s bd

/-- The command completes and its interrupt is taken before the receive ends. -/
def Kept : Prop :=
  (∀ bd, c.cmd.write bd = none) ∨ [.complete, .irq c.p].Sublist c.before

end Call

/-- What happens one after the other, with the mutex held by one call at a time -/
inductive Op
  | call (c : Call)
  | idle (e : Event)

def Op.Kept : Op → Prop
  | .call c => c.Kept
  | .idle _ => True

namespace Sys

def step (s : Sys) : Op → Sys
  | .call c => (c.run s).2
  | .idle e => s.event e

/-- After `sdmacmd_cmdch_create` has set up the channel -/
def boot : Sys where
  channelMask _ := false
  eventArray _ := false
  queue _ := []
  intr := none
  engine := none
  bd := ⟨0, 0, 0⟩
  calls := 0
  completed := []

/-! ## Between the calls -/

/-- All commands are those of earlier calls. -/
structure Tagged (s : Sys) : Prop where
  engine : ∀ n, s.engine = some n → n < s.calls
  intr : ∀ n, s.intr = some n → n < s.calls
  queue : ∀ p, ∀ n ∈ s.queue p, n < s.calls

/-- What holds between two calls -/
structure Parked (s : Sys) : Prop extends s.Tagged where
  masks : ∀ p, s.channelMask p = false

/-- Nothing of an earlier command is left. -/
structure Clean (s : Sys) : Prop where
  engine : s.engine = none
  intr : s.intr = none
  queue : ∀ p, s.queue p = []

theorem boot_parked : boot.Parked := ⟨⟨nofun, nofun, nofun⟩, fun _ => rfl⟩

theorem boot_clean : boot.Clean := ⟨rfl, rfl, fun _ => rfl⟩

theorem complete_tagged {s : Sys} (tagged : s.Tagged) : s.complete.Tagged := by
  unfold complete
  cases owner : s.engine with
  | none => exact tagged
  | some n =>
    refine ⟨nofun, fun m sets => ?_, tagged.queue⟩
    rcases Option.or_eq_some_iff.mp sets with earlier | ⟨_, own⟩
    · exact tagged.intr m earlier
    · cases own
      exact tagged.engine n owner

theorem irqHandler_tagged {s : Sys} (tagged : s.Tagged) (p : Nat) : (s.irqHandler p).Tagged := by
  unfold irqHandler
  cases setter : s.intr with
  | none => exact tagged
  | some n =>
    dsimp only
    split
    · refine ⟨tagged.engine, nofun, fun q m queued => ?_⟩
      have sent := tagged.intr n setter
      dsimp only at queued
      split at queued
      · by_cases same : q = p
        · rw [same, Function.update_self] at queued
          rcases List.mem_append.mp queued with earlier | last
          · exact tagged.queue p m earlier
          · rw [List.mem_singleton.mp last]
            exact sent
        · rw [Function.update_of_ne same] at queued
          exact tagged.queue q m queued
      · exact tagged.queue q m queued
    · exact tagged

theorem event_keeps (s : Sys) (e : Event) :
    (s.event e).channelMask = s.channelMask ∧ (s.event e).calls = s.calls ∧
      (s.event e).bd = s.bd := by
  cases e with
  | complete =>
    show s.complete.channelMask = _ ∧ s.complete.calls = _ ∧ s.complete.bd = _
    unfold complete
    split
    · exact ⟨rfl, rfl, rfl⟩
    · exact ⟨rfl, rfl, rfl⟩
  | irq p =>
    show (s.irqHandler p).channelMask = _ ∧ (s.irqHandler p).calls = _ ∧ (s.irqHandler p).bd = _
    unfold irqHandler
    split
    · exact ⟨rfl, rfl, rfl⟩
    · split
      · exact ⟨rfl, rfl, rfl⟩
      · exact ⟨rfl, rfl, rfl⟩

theorem event_tagged {s : Sys} (tagged : s.Tagged) (e : Event) : (s.event e).Tagged := by
  cases e with
  | complete => exact complete_tagged tagged
  | irq p => exact irqHandler_tagged tagged p

theorem events_tagged {es : List Event} {s : Sys} (tagged : s.Tagged) : (s.events es).Tagged := by
  induction es generalizing s with
  | nil => exact tagged
  | cons e es ih => exact ih (event_tagged tagged e)

theorem events_keeps (es : List Event) (s : Sys) :
    (s.events es).channelMask = s.channelMask ∧ (s.events es).calls = s.calls ∧
      (s.events es).bd = s.bd := by
  induction es generalizing s with
  | nil => exact ⟨rfl, rfl, rfl⟩
  | cons e es ih =>
    obtain ⟨masks, calls, bd⟩ := event_keeps s e
    obtain ⟨masks', calls', bd'⟩ := ih (s.event e)
    exact ⟨masks'.trans masks, calls'.trans calls, bd'.trans bd⟩

theorem start_tagged {s : Sys} (tagged : s.Tagged) (bd : Bd) : (s.start bd).Tagged := by
  refine ⟨fun n owner => ?_, fun n sets => Nat.lt_succ_of_lt (tagged.intr n sets),
    fun p n queued => Nat.lt_succ_of_lt (tagged.queue p n queued)⟩
  cases owner
  exact Nat.lt_succ_self _

theorem receive_tagged {s : Sys} (tagged : s.Tagged) (p : Nat) : (s.receive p).Tagged := by
  refine ⟨tagged.engine, tagged.intr, fun q n queued => ?_⟩
  have queued' : n ∈ Function.update s.queue p (s.queue p).tail q := queued
  by_cases same : q = p
  · rw [same, Function.update_self] at queued'
    exact tagged.queue p n (List.mem_of_mem_tail queued')
  · rw [Function.update_of_ne same] at queued'
    exact tagged.queue q n queued'

theorem setMask_tagged {s : Sys} (tagged : s.Tagged) (p : Nat) : (s.setMask p).Tagged :=
  ⟨tagged.engine, tagged.intr, tagged.queue⟩

theorem setEvent_tagged {s : Sys} (tagged : s.Tagged) (p : Nat) : (s.setEvent p).Tagged :=
  ⟨tagged.engine, tagged.intr, tagged.queue⟩

end Sys

namespace Call

variable {c : Call} {s : Sys}

theorem armed_tagged (tagged : s.Tagged) : (c.armed s).Tagged :=
  Sys.setEvent_tagged (Sys.events_tagged (Sys.setMask_tagged tagged c.p)) c.p

theorem waited_tagged (tagged : s.Tagged) (bd : Bd) : (c.waited s bd).Tagged :=
  Sys.events_tagged (Sys.start_tagged (armed_tagged tagged) bd)

theorem finish_masks (c : Call) (s : Sys) (bd : Bd) :
    (c.finish s bd).channelMask =
      Function.update (Function.update s.channelMask c.p true) c.p false := by
  have after := (Sys.events_keeps c.after ((c.waited s bd).receive c.p)).1
  have before := (Sys.events_keeps c.before ((c.armed s).start bd)).1
  have early := (Sys.events_keeps c.early (s.setMask c.p)).1
  exact congrArg (Function.update · c.p false) (after.trans (before.trans early))

theorem finish_parked (parked : s.Parked) (bd : Bd) : (c.finish s bd).Parked := by
  have tagged : (((c.waited s bd).receive c.p).events c.after).Tagged :=
    Sys.events_tagged (Sys.receive_tagged (waited_tagged parked.toTagged bd) c.p)
  refine ⟨⟨tagged.engine, tagged.intr, tagged.queue⟩, fun p => ?_⟩
  rw [finish_masks, Function.update_idem]
  by_cases same : p = c.p
  · rw [same, Function.update_self]
  · rw [Function.update_of_ne same]
    exact parked.masks p

theorem run_parked (parked : s.Parked) : (c.run s).2.Parked := by
  unfold run
  split
  · exact parked
  · exact finish_parked parked _

end Call

namespace Sys

variable {s : Sys}

theorem step_parked (parked : s.Parked) (op : Op) : (s.step op).Parked := by
  cases op with
  | call c => exact Call.run_parked parked
  | idle e =>
    refine ⟨event_tagged parked.toTagged e, fun p => ?_⟩
    show (s.event e).channelMask p = false
    rw [(event_keeps s e).1]
    exact parked.masks p

/-! ## A call from a clean state -/

theorem complete_none (engine : s.engine = none) : s.complete = s := by
  unfold complete
  rw [engine]

theorem irqHandler_none (intr : s.intr = none) (p : Nat) : s.irqHandler p = s := by
  unfold irqHandler
  rw [intr]

theorem irqHandler_masked {p : Nat} (masked : s.channelMask p = false) : s.irqHandler p = s := by
  unfold irqHandler
  rw [masked]
  cases s.intr with
  | none => rfl
  | some n => rfl

theorem event_quiet (engine : s.engine = none) (intr : s.intr = none) (e : Event) :
    s.event e = s := by
  cases e with
  | complete => exact complete_none engine
  | irq p => exact irqHandler_none intr p

theorem events_quiet (engine : s.engine = none) (intr : s.intr = none) (es : List Event) :
    s.events es = s := by
  induction es with
  | nil => rfl
  | cons e es ih =>
    show (s.event e).events es = s
    rw [event_quiet engine intr e]
    exact ih

end Sys

/-- How far the completion of a command has come: the engine has it, its interrupt is pending, its
pulse is on the channel. -/
inductive Stage
  | owned
  | pending
  | pulsed
deriving DecidableEq

namespace Stage

variable {p : Nat} {es : List Event}

def next (p : Nat) : Stage → Event → Stage
  | owned, .complete => pending
  | pending, .irq q => if q = p then pulsed else pending
  | stage, _ => stage

theorem pulsed_stays : es.foldl (next p) pulsed = pulsed := by
  induction es with
  | nil => rfl
  | cons e es ih => exact ih

theorem pending_iff : es.foldl (next p) pending = pulsed ↔ .irq p ∈ es := by
  induction es with
  | nil => exact ⟨nofun, nofun⟩
  | cons e es ih =>
    rw [List.foldl_cons, List.mem_cons]
    cases e with
    | complete => exact ih.trans (or_iff_right nofun).symm
    | irq q =>
      by_cases own : q = p
      · rw [own, next, if_pos rfl]
        exact iff_of_true pulsed_stays (.inl rfl)
      · rw [next, if_neg own]
        exact ih.trans (or_iff_right fun same => own (Event.irq.inj same).symm).symm

/-- The pulse comes exactly if the command completes and the interrupt is taken after that. -/
theorem owned_iff : es.foldl (next p) owned = pulsed ↔ [.complete, .irq p].Sublist es := by
  induction es with
  | nil => exact ⟨nofun, nofun⟩
  | cons e es ih =>
    rw [List.foldl_cons, List.cons_sublist_cons']
    cases e with
    | complete =>
      refine pending_iff.trans ⟨fun taken => .inr ⟨rfl, List.singleton_sublist.mpr taken⟩,
        fun kept => ?_⟩
      rcases kept with later | ⟨_, taken⟩
      · exact later.subset (List.mem_cons_of_mem _ List.mem_cons_self)
      · exact List.singleton_sublist.mp taken
    | irq q => exact ih.trans (or_iff_left nofun).symm

end Stage

namespace Sys

variable {s : Sys} {p : Nat} {bd : Bd} {stage : Stage} {es : List Event}

/-- The states of a call started from `s` -/
def after (s : Sys) (p : Nat) (bd : Bd) : Stage → Sys
  | .owned => ((s.setMask p).setEvent p).start bd
  | .pending => (((s.setMask p).setEvent p).start bd).complete
  | .pulsed => (((s.setMask p).setEvent p).start bd).complete.irqHandler p

theorem after_pending (clean : s.Clean) :
    s.after p bd .pending =
      { s.after p bd .owned with
        engine := none, intr := some s.calls, completed := (s.calls, bd) :: s.completed } := by
  simp only [after, complete, start, setEvent, setMask, clean.intr, Option.none_or]

theorem after_pulsed (clean : s.Clean) :
    s.after p bd .pulsed =
      { s.after p bd .owned with
        engine := none, queue := Function.update s.queue p [s.calls],
        completed := (s.calls, bd) :: s.completed } := by
  have pending : s.after p bd .pending = _ := after_pending clean
  show irqHandler (s.after p bd .pending) p = _
  rw [pending]
  unfold irqHandler after start setEvent setMask
  simp only [Function.update_self, if_true, clean.queue p, List.nil_append, clean.intr]

theorem event_after (clean : s.Clean) (masks : ∀ q, s.channelMask q = false) (e : Event) :
    (s.after p bd stage).event e = s.after p bd (stage.next p e) := by
  cases stage with
  | owned =>
    cases e with
    | complete => rfl
    | irq q => exact irqHandler_none (s := s.after p bd .owned) clean.intr q
  | pending =>
    have pending : s.after p bd .pending = _ := after_pending clean
    cases e with
    | complete => exact complete_none (congrArg engine pending)
    | irq q =>
      by_cases own : q = p
      · rw [own, Stage.next, if_pos rfl]
        rfl
      · rw [Stage.next, if_neg own]
        refine irqHandler_masked ?_
        rw [pending]
        exact (Function.update_of_ne own _ _).trans (masks q)
  | pulsed =>
    have pulsed : s.after p bd .pulsed = _ := after_pulsed clean
    refine event_quiet ?_ ?_ e
    · rw [pulsed]
    · rw [pulsed]
      exact clean.intr

theorem events_after (clean : s.Clean) (masks : ∀ q, s.channelMask q = false) :
    (s.after p bd stage).events es = s.after p bd (es.foldl (Stage.next p) stage) := by
  induction es generalizing stage with
  | nil => rfl
  | cons e es ih =>
    show ((s.after p bd stage).event e).events es = _
    rw [event_after clean masks e]
    exact ih

theorem after_queue (clean : s.Clean) :
    (s.after p bd stage).queue p = if stage = .pulsed then [s.calls] else [] := by
  cases stage with
  | owned => exact clean.queue p
  | pending =>
    rw [after_pending clean]
    exact clean.queue p
  | pulsed =>
    rw [after_pulsed clean]
    exact Function.update_self _ _ _

theorem after_unclean (clean : s.Clean) : ¬((s.after p bd stage).irqEventRemove p).Clean := by
  intro left
  cases stage with
  | owned => exact absurd left.engine (Option.some_ne_none _)
  | pending =>
    rw [after_pending clean] at left
    exact absurd left.intr (Option.some_ne_none _)
  | pulsed =>
    have queue : (s.after p bd .pulsed).queue p = [] := left.queue p
    rw [after_queue clean, if_pos rfl] at queue
    exact absurd queue (List.cons_ne_nil _ _)

end Sys

namespace Call

variable {c : Call} {s : Sys} {bd : Bd}

theorem armed_clean (clean : s.Clean) : c.armed s = (s.setMask c.p).setEvent c.p := by
  unfold armed
  rw [Sys.events_quiet (s := s.setMask c.p) clean.engine clean.intr]

theorem waited_clean (clean : s.Clean) (masks : ∀ q, s.channelMask q = false) :
    c.waited s bd = s.after c.p bd (c.before.foldl (Stage.next c.p) .owned) := by
  unfold waited
  rw [armed_clean clean]
  have events : (s.after c.p bd .owned).events c.before = _ := Sys.events_after clean masks
  exact events

theorem genuine_of_clean (clean : s.Clean) (parked : s.Parked) : c.Genuine s := by
  intro bd wrote
  have waited : c.waited s bd = _ := waited_clean clean parked.masks
  have queue : (c.waited s bd).queue c.p = _ :=
    (congrArg (Sys.queue · c.p) waited).trans (Sys.after_queue clean)
  refine ⟨?_, fun returned => ?_, fun n pulse => ?_⟩
  · rw [armed_clean clean]
    exact clean.engine
  · unfold run at returned
    rw [wrote] at returned
    dsimp only at returned
    unfold Call.pulse at returned
    rw [queue] at returned
    by_cases pulsed : c.before.foldl (Stage.next c.p) .owned = .pulsed
    · rw [waited, pulsed, Sys.after_pulsed clean]
      exact List.mem_cons_self
    · rw [if_neg pulsed] at returned
      exact absurd returned (by decide)
  · unfold Call.pulse at pulse
    rw [queue] at pulse
    split at pulse
    · exact (Option.some.inj pulse).symm
    · exact absurd pulse nofun

theorem finish_clean_iff (clean : s.Clean) (masks : ∀ q, s.channelMask q = false) :
    (c.finish s bd).Clean ↔ [.complete, .irq c.p].Sublist c.before := by
  have waited : c.waited s bd = _ := waited_clean clean masks
  rw [← Stage.owned_iff]
  unfold finish
  rw [waited]
  by_cases pulsed : c.before.foldl (Stage.next c.p) .owned = .pulsed
  · rw [pulsed]
    refine iff_of_true ?_ rfl
    have engine : ((s.after c.p bd .pulsed).receive c.p).engine = none := by
      rw [Sys.after_pulsed clean]
      rfl
    have intr : ((s.after c.p bd .pulsed).receive c.p).intr = none := by
      rw [Sys.after_pulsed clean]
      exact clean.intr
    rw [Sys.events_quiet engine intr]
    refine ⟨engine, intr, fun q => ?_⟩
    show Function.update (s.after c.p bd .pulsed).queue c.p _ q = []
    rw [Sys.after_queue clean, if_pos rfl]
    by_cases own : q = c.p
    · rw [own, Function.update_self]
      rfl
    · rw [Function.update_of_ne own, Sys.after_pulsed clean]
      exact (Function.update_of_ne own _ _).trans (clean.queue q)
  · refine iff_of_false ?_ pulsed
    have nothing : (s.after c.p bd (c.before.foldl (Stage.next c.p) .owned)).receive c.p =
        s.after c.p bd (c.before.foldl (Stage.next c.p) .owned) := by
      unfold Sys.receive
      rw [Sys.after_queue clean, if_neg pulsed]
      have empty : (s.after c.p bd (c.before.foldl (Stage.next c.p) .owned)).queue c.p = _ :=
        Sys.after_queue clean
      rw [if_neg pulsed] at empty
      rw [List.tail_nil, ← empty, Function.update_eq_self]
    rw [nothing, Sys.events_after clean masks]
    exact Sys.after_unclean clean

end Call

theorem Cmd.write_none {cmd : Cmd} {bd : Bd} (nothing : cmd.write bd = none) (bd' : Bd) :
    cmd.write bd' = none := by
  cases cmd with
  | ctxLoad => exact absurd nothing (Option.some_ne_none _)
  | scriptLoad => exact nothing

namespace Call

variable {c : Call} {s : Sys}

theorem run_clean_iff (clean : s.Clean) (parked : s.Parked) : (c.run s).2.Clean ↔ c.Kept := by
  unfold run Kept
  cases wrote : c.cmd.write (c.armed s).bd with
  | none => exact iff_of_true clean (.inl (Cmd.write_none wrote))
  | some bd =>
    refine (finish_clean_iff clean parked.masks).trans (or_iff_right fun never => ?_).symm
    rw [never] at wrote
    cases wrote

/-- A call of a context load, with `before` in the time of its wait -/
def probe (p : Nat) (before : List Event) : Call := ⟨p, .ctxLoad 0 0, [], before, []⟩

theorem probe_started {p : Nat} {before : List Event} (genuine : (probe p before).Genuine s) :
    ∃ bd, (probe p before).Started s bd :=
  ⟨_, genuine _ rfl⟩

theorem clean_of_genuine (tagged : s.Tagged) (genuine : ∀ c : Call, c.Genuine s) : s.Clean := by
  have engine : s.engine = none := by
    obtain ⟨_, started⟩ := probe_started (genuine (probe 0 []))
    exact started.free
  have queue : ∀ p, s.queue p = [] := by
    intro p
    obtain ⟨_, started⟩ := probe_started (genuine (probe p []))
    cases queued : s.queue p with
    | nil => rfl
    | cons n rest =>
      have earlier := tagged.queue p n (queued ▸ List.mem_cons_self)
      have own : n = s.calls := started.own n (congrArg List.head? queued)
      exact absurd own (Nat.ne_of_lt earlier)
  refine ⟨engine, ?_, queue⟩
  obtain ⟨bd, started⟩ := probe_started (genuine (probe 0 [.irq 0]))
  cases setter : s.intr with
  | none => rfl
  | some n =>
    have pulse : (probe 0 [.irq 0]).pulse s bd = some n := by
      show ((Sys.irqHandler (((s.setMask 0).setEvent 0).start bd) 0).queue 0).head? = some n
      simp only [Sys.irqHandler, Sys.start, Sys.setEvent, Sys.setMask, setter,
        Function.update_self, if_true, queue 0, List.nil_append, List.head?_cons]
    exact absurd (started.own n pulse) (Nat.ne_of_lt (tagged.intr n setter))

end Call

/-! ## Runs -/

namespace Sys

def run (s : Sys) (ops : List Op) : Sys := ops.foldl step s

theorem run_parked {ops : List Op} {s : Sys} (parked : s.Parked) : (s.run ops).Parked := by
  induction ops generalizing s with
  | nil => exact parked
  | cons op ops ih => exact ih (step_parked parked op)

theorem step_clean_iff {s : Sys} (clean : s.Clean) (parked : s.Parked) (op : Op) :
    (s.step op).Clean ↔ op.Kept := by
  cases op with
  | call c => exact Call.run_clean_iff clean parked
  | idle e =>
    refine iff_of_true ?_ trivial
    show (s.event e).Clean
    rw [event_quiet clean.engine clean.intr e]
    exact clean

/-- At every moment of a run every call is genuine, exactly if no call of the run gave up before
its command was complete and its interrupt taken. -/
theorem genuine_iff (ops : List Op) :
    (∀ pre, pre <+: ops → ∀ c : Call, c.Genuine (boot.run pre)) ↔ ∀ op ∈ ops, op.Kept := by
  have always {pre : List Op} : (boot.run pre).Parked := run_parked boot_parked
  have moments (pre : List Op) :
      (∀ c : Call, c.Genuine (boot.run pre)) ↔ (boot.run pre).Parked ∧ (boot.run pre).Clean :=
    ⟨fun genuine => ⟨always, Call.clean_of_genuine always.toTagged genuine⟩,
      fun left _ => Call.genuine_of_clean left.2 left.1⟩
  have runs : ((∀ pre, pre <+: ops → (boot.run pre).Parked ∧ (boot.run pre).Clean) ∧
      ∀ pre op, pre ++ [op] <+: ops → True) ↔ ∀ pre op, pre ++ [op] <+: ops → op.Kept :=
    along_iff (G := fun s : Sys => s.Parked ∧ s.Clean) (F := fun _ _ => True)
    (fun {s op} left => ⟨fun right => (step_clean_iff left.2 left.1 op).mp right.1.2,
      fun kept => ⟨⟨step_parked left.1 op, (step_clean_iff left.2 left.1 op).mpr kept⟩, trivial⟩⟩)
    ⟨boot_parked, boot_clean⟩
  constructor
  · intro genuine op inside
    obtain ⟨pre, rest, shape⟩ := List.append_of_mem inside
    refine runs.mp ⟨fun pre below => (moments pre).mp (genuine pre below), fun _ _ _ => trivial⟩
      pre op ⟨rest, ?_⟩
    rw [shape, List.append_assoc, List.singleton_append]
  · intro kept pre below
    refine (moments pre).mpr ((runs.mpr fun pre op below => ?_).1 pre below)
    exact kept op (below.subset (List.mem_append_right _ List.mem_cons_self))

/-- A load times out, and the pulse of its late completion ends the next one. -/
theorem genuine_broken :
    let late : Call := ⟨0, .ctxLoad 3 0x1000, [], [], [.complete, .irq 0]⟩
    let next : Call := ⟨0, .ctxLoad 4 0x2000, [], [], []⟩
    let s := boot.run [.call late]
    (late.run boot).1 = -1 ∧ (next.run s).1 = 0 ∧ (next.run s).2.engine = some s.calls ∧
      ¬next.Genuine s := by
  intro late next s
  refine ⟨by decide, by decide, by decide, fun genuine => ?_⟩
  obtain ⟨bd, started⟩ : ∃ bd, next.Started s bd := ⟨_, genuine _ rfl⟩
  exact absurd (started.own 0 rfl) (by decide)

end Sys

end Mx6xBsp.Dma.Commands
