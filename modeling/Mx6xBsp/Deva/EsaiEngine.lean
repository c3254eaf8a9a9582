import Mathlib.Data.List.Nodup
import Mathlib.Data.List.Perm.Subperm
import Mx6xBsp.Deva.EsaiRates

/-!
# The engine of the ESAI controller

A trigger starts the DMA channel of its direction for the first stream and aborts it
for the last one, which it takes from the number of active streams before the call
(`num_active_playback_interfaces`, `num_active_capture_interfaces`). `engine_iff` tells
exactly which sequences of triggers keep the channels started as long as a stream is
active.
-/

namespace Mx6xBsp.Deva

open Runs

/-! ## Triggers -/

inductive Trigger
  | go (chn : Channel) (i : Nat) (dma : Mx.Dma)
  | stop (chn : Channel) (i : Nat) (dma : Mx.Dma)

/-- The context, and the DMA channels that are started -/
structure Engine where
  mx : Mx
  started : Channel → Bool

namespace Engine

variable (e : Engine)

/-- The triggers with the call of `xfer_start`, which starts the channel unless it fails, or of
`xfer_abort`, which has turned the events of the channel off before it can fail -/
def exec : Trigger → Nat × Engine
  | .go chn i dma =>
    let (rtn, mx) := e.mx.triggerGo chn i dma
    (rtn, ⟨mx, if e.mx.numActive chn = 0 ∧ dma.error = none then
      Function.update e.started chn true else e.started⟩)
  | .stop chn i dma =>
    let (rtn, mx) := e.mx.triggerStop chn i dma
    (rtn, ⟨mx, if e.mx.numActive chn = 1 then
      Function.update e.started chn false else e.started⟩)

def next (trigger : Trigger) : Engine := (e.exec trigger).2

/-! ## What should hold -/

/-- A stream of the channel is active. -/
def Busy (chn : Channel) : Prop :=
  ∃ i < e.mx.numAif chn, (e.mx.strm chn i).active = true

/-- The DMA channels are started exactly as long as there are active streams. -/
def Tight : Prop := ∀ chn, e.started chn = true ↔ e.Busy chn

/-- The trigger aborts the DMA while another stream stays active. -/
def Silences : Trigger → Prop
  | .go _ _ _ => False
  | .stop chn i _ => e.mx.numActive chn = 1 ∧
      ∃ j < e.mx.numAif chn, j ≠ i ∧ (e.mx.strm chn j).active = true

/-- A start that returns an error leaves the set of active streams as it was. -/
def Undone : Trigger → Prop
  | .go chn i dma => (e.exec (.go chn i dma)).1 ≠ EOK → ∀ c j,
      ((e.next (.go chn i dma)).mx.strm c j).active = (e.mx.strm c j).active
  | .stop _ _ _ => True

/-- The FIFO was not filled in time: the error is returned, but the stream and the controller keep
running. -/
def KeepsRunning : Trigger → Prop
  | .go chn i dma => (e.exec (.go chn i dma)).1 = ETIME ∧ chn = .playback ∧ dma.filled = false ∧
      ((e.next (.go chn i dma)).mx.strm chn i).active = true ∧
      (e.next (.go chn i dma)).started chn = true
  | .stop _ _ _ => False

/-- What a trigger should do -/
def Fine (trigger : Trigger) : Prop :=
  ¬e.Silences trigger ∧ (e.Undone trigger ∨ e.KeepsRunning trigger)

/-- The DMA of the first stream can be started, and a stop that finds one active stream is for that
stream. -/
def Regular : Trigger → Prop
  | .go chn _ dma => e.mx.numActive chn = 0 → dma.error = none
  | .stop chn i _ => e.mx.numActive chn = 1 → (e.mx.strm chn i).active = true

end Engine

/-- The trigger is for a stream that is acquired. -/
def Mx.Serves (mx : Mx) : Trigger → Prop
  | .go chn i _ => i < mx.numAif chn ∧ (mx.strm chn i).pcmSubchn.isSome = true
  | .stop chn i _ => i < mx.numAif chn ∧ (mx.strm chn i).pcmSubchn.isSome = true

/-! ## Counting -/

namespace Mx

variable {mx : Mx} {chn : Channel} {i j : Nat}

theorem two_le_numActive (below : i < mx.numAif chn) (below' : j < mx.numAif chn) (apart : j ≠ i)
    (active : (mx.strm chn i).active = true) (active' : (mx.strm chn j).active = true) :
    2 ≤ mx.numActive chn := by
  unfold numActive
  rw [List.countP_eq_length_filter]
  have inside : [i, j] ⊆ (List.range (mx.numAif chn)).filter fun i => (mx.strm chn i).active := by
    intro k member
    rcases List.mem_cons.mp member with rfl | member
    · exact List.mem_filter.mpr ⟨List.mem_range.mpr below, active⟩
    · rw [List.mem_singleton.mp member]
      exact List.mem_filter.mpr ⟨List.mem_range.mpr below', active'⟩
  have distinct : [i, j].Nodup := List.nodup_cons.mpr
    ⟨fun member => apart (List.mem_singleton.mp member).symm, List.nodup_singleton j⟩
  exact (distinct.subperm inside).length_le

theorem exists_active (some_ : 0 < mx.numActive chn) :
    ∃ j < mx.numAif chn, (mx.strm chn j).active = true := by
  obtain ⟨j, member, active⟩ := List.countP_pos_iff.mp some_
  exact ⟨j, List.mem_range.mp member, active⟩

theorem numActive_le_one
    (others : ∀ j < mx.numAif chn, j ≠ i → (mx.strm chn j).active = false) :
    mx.numActive chn ≤ 1 := by
  have once : (List.range (mx.numAif chn)).count i ≤ 1 :=
    List.nodup_iff_count_le_one.mp List.nodup_range i
  refine Nat.le_trans (List.countP_mono_left fun j member active => ?_) once
  by_contra apart
  have idle := others j (List.mem_range.mp member) fun same => apart (beq_iff_eq.mpr same)
  exact Bool.false_ne_true (idle.symm.trans active)

/-- With one active stream, that is `i` or another one. -/
theorem active_iff_alone (below : i < mx.numAif chn) (one : mx.numActive chn = 1) :
    (mx.strm chn i).active = true ↔
      ¬∃ j < mx.numAif chn, j ≠ i ∧ (mx.strm chn j).active = true := by
  constructor
  · rintro active ⟨j, below', apart, active'⟩
    have two := two_le_numActive below below' apart active active'
    omega
  · intro alone
    obtain ⟨j, below', active⟩ : ∃ j < mx.numAif chn, (mx.strm chn j).active = true :=
      exists_active (by omega)
    by_cases same : j = i
    · rwa [same] at active
    · exact absurd ⟨j, below', same, active⟩ alone

end Mx

/-! ## One trigger -/

namespace Engine

variable {e : Engine} {chn : Channel} {i : Nat} {dma : Mx.Dma}

theorem numActive_pos_iff : 0 < e.mx.numActive chn ↔ e.Busy chn := by
  constructor
  · exact Mx.exists_active
  · rintro ⟨i, below, active⟩
    exact List.countP_pos_iff.mpr ⟨i, List.mem_range.mpr below, active⟩

theorem busy_apart {c : Channel} (strm : Strm) (apart : c ≠ chn) {started : Channel → Bool} :
    Busy ⟨e.mx.setStrm chn i strm, started⟩ c ↔ e.Busy c := by
  refine exists_congr fun j => and_congr_right fun _ => ?_
  show ((e.mx.setStrm chn i strm).strm c j).active = true ↔ _
  rw [Mx.setStrm_apart strm fun both => apart both.1]

theorem busy_go (below : i < e.mx.numAif chn) : (e.next (.go chn i dma)).Busy chn :=
  ⟨i, below, congrArg Strm.active (Mx.setStrm_same _)⟩

theorem busy_stop : (e.next (.stop chn i dma)).Busy chn ↔
    ∃ j < e.mx.numAif chn, j ≠ i ∧ (e.mx.strm chn j).active = true := by
  refine exists_congr fun j => and_congr_right fun _ => ?_
  show ((e.mx.setStrm chn i { e.mx.strm chn i with active := false }).strm chn j).active = true ↔ _
  by_cases same : j = i
  · rw [same, Mx.setStrm_same]
    exact ⟨fun on => absurd on Bool.false_ne_true, fun apart => absurd rfl apart.1⟩
  · rw [Mx.setStrm_apart _ fun both => same both.2]
    exact (and_iff_right same).symm

theorem tight_next_iff {t : Trigger} (tight : e.Tight)
    (apart : ∀ c ≠ chn, ((e.next t).started c = e.started c) ∧ ((e.next t).Busy c ↔ e.Busy c)) :
    (e.next t).Tight ↔ ((e.next t).started chn = true ↔ (e.next t).Busy chn) := by
  refine ⟨fun all => all chn, fun own c => ?_⟩
  by_cases same : c = chn
  · rw [same]
    exact own
  · obtain ⟨started, busy⟩ := apart c same
    rw [started, busy]
    exact tight c

theorem go_apart (c : Channel) (apart : c ≠ chn) :
    (e.next (.go chn i dma)).started c = e.started c ∧
      ((e.next (.go chn i dma)).Busy c ↔ e.Busy c) := by
  refine ⟨?_, busy_apart _ apart⟩
  show (if e.mx.numActive chn = 0 ∧ dma.error = none then
    Function.update e.started chn true else e.started) c = _
  split
  · exact Function.update_of_ne apart _ _
  · rfl

theorem stop_apart (c : Channel) (apart : c ≠ chn) :
    (e.next (.stop chn i dma)).started c = e.started c ∧
      ((e.next (.stop chn i dma)).Busy c ↔ e.Busy c) := by
  refine ⟨?_, busy_apart _ apart⟩
  show (if e.mx.numActive chn = 1 then
    Function.update e.started chn false else e.started) c = _
  split
  · exact Function.update_of_ne apart _ _
  · rfl

theorem go_started (tight : e.Tight) : (e.next (.go chn i dma)).started chn = true ↔
    (e.mx.numActive chn = 0 → dma.error = none) := by
  show (if e.mx.numActive chn = 0 ∧ dma.error = none then
    Function.update e.started chn true else e.started) chn = true ↔ _
  have before := (tight chn).trans numActive_pos_iff.symm
  by_cases starts : e.mx.numActive chn = 0 ∧ dma.error = none
  · rw [if_pos starts, Function.update_self]
    exact iff_of_true rfl fun _ => starts.2
  · rw [if_neg starts, before]
    exact ⟨fun some_ none => absurd none (Nat.ne_of_gt some_), fun regular =>
      Nat.pos_of_ne_zero fun none => starts ⟨none, regular none⟩⟩

theorem go_fine (tight : e.Tight) (regular : e.Regular (.go chn i dma)) :
    e.Fine (.go chn i dma) := by
  refine ⟨id, ?_⟩
  have rtn : (e.exec (.go chn i dma)).1 = if e.mx.numActive chn = 0 then
      if chn = .playback ∧ dma.filled = false then ETIME else dma.error.getD EOK else EOK := rfl
  by_cases first : e.mx.numActive chn = 0
  · by_cases late : chn = .playback ∧ dma.filled = false
    · rw [if_pos first, if_pos late] at rtn
      exact .inr ⟨rtn, late.1, late.2, congrArg Strm.active (Mx.setStrm_same _),
        (go_started tight).mpr regular⟩
    · rw [if_pos first, if_neg late, regular first] at rtn
      exact .inl fun failed => absurd rtn failed
  · rw [if_neg first] at rtn
    exact .inl fun failed => absurd rtn failed

theorem go_iff (tight : e.Tight) (below : i < e.mx.numAif chn) :
    (e.next (.go chn i dma)).Tight ∧ e.Fine (.go chn i dma) ↔ e.Regular (.go chn i dma) := by
  rw [tight_next_iff tight go_apart, go_started tight]
  have busy : (e.next (.go chn i dma)).Busy chn := busy_go below
  exact ⟨fun both => both.1.mpr busy, fun regular => ⟨iff_of_true regular busy,
    go_fine tight regular⟩⟩

theorem stop_iff (tight : e.Tight) (below : i < e.mx.numAif chn) :
    (e.next (.stop chn i dma)).Tight ∧ e.Fine (.stop chn i dma) ↔
      e.Regular (.stop chn i dma) := by
  have fine : e.Fine (.stop chn i dma) ↔ ¬e.Silences (.stop chn i dma) :=
    and_iff_left (.inl trivial)
  have started : (e.next (.stop chn i dma)).started chn =
      if e.mx.numActive chn = 1 then false else e.started chn := by
    show (if e.mx.numActive chn = 1 then
      Function.update e.started chn false else e.started) chn = _
    split
    · exact Function.update_self chn false e.started
    · rfl
  have before := (tight chn).trans numActive_pos_iff.symm
  rw [tight_next_iff tight stop_apart, fine, busy_stop, started]
  by_cases one : e.mx.numActive chn = 1
  · have alone := Mx.active_iff_alone below one
    rw [if_pos one]
    constructor
    · intro both _
      exact alone.mpr fun other => both.2 ⟨one, other⟩
    · intro regular
      have none := alone.mp (regular one)
      exact ⟨iff_of_false Bool.false_ne_true none, fun silences => none silences.2⟩
  · rw [if_neg one, before]
    refine iff_of_true ⟨⟨fun some_ => ?_, ?_⟩, fun silences => one silences.1⟩
      fun counted => absurd counted one
    · by_contra alone
      have few : e.mx.numActive chn ≤ 1 := Mx.numActive_le_one fun j below' apart =>
        Bool.eq_false_iff.mpr fun active => alone ⟨j, below', apart, active⟩
      omega
    · rintro ⟨j, below', -, active⟩
      exact numActive_pos_iff.mpr ⟨j, below', active⟩

theorem next_numAif (e : Engine) (t : Trigger) : (e.next t).mx.numAif = e.mx.numAif := by
  cases t with
  | go chn i dma => rfl
  | stop chn i dma => rfl

end Engine

/-! ## Runs -/

/-- The controller before the first trigger -/
def Mx.off (mx : Mx) : Engine := ⟨mx, fun _ => false⟩

/-- The channels are started as long as streams are active, no stream is silenced, and a start that
returns an error is undone or keeps running, exactly if all triggers are regular. -/
theorem engine_iff {mx : Mx} {triggers : List Trigger} (idle : ∀ chn, mx.Idle chn)
    (acquired : ∀ t ∈ triggers, mx.Serves t) :
    ((∀ pre, pre <+: triggers → (pre.foldl Engine.next mx.off).Tight) ∧
        ∀ pre t, pre ++ [t] <+: triggers → (pre.foldl Engine.next mx.off).Fine t) ↔
      ∀ pre t, pre ++ [t] <+: triggers → (pre.foldl Engine.next mx.off).Regular t := by
  have numAif : ∀ pre : List Trigger, (pre.foldl Engine.next mx.off).mx.numAif = mx.numAif := by
    intro pre
    induction pre using List.reverseRecOn with
    | nil => rfl
    | append_singleton pre t ih =>
      rw [List.foldl_append]
      exact (Engine.next_numAif _ t).trans ih
  have along : ((∀ pre, pre <+: triggers → (pre.foldl Engine.next mx.off).Tight ∧
        (pre.foldl Engine.next mx.off).mx.numAif = mx.numAif) ∧
      ∀ pre t, pre ++ [t] <+: triggers → (pre.foldl Engine.next mx.off).Fine t) ↔
        ∀ pre t, pre ++ [t] <+: triggers → (pre.foldl Engine.next mx.off).Regular t :=
    along_iff_of_mem (G := fun e : Engine => e.Tight ∧ e.mx.numAif = mx.numAif) ?_
      ⟨fun chn => iff_of_false Bool.false_ne_true fun busy => ?_, rfl⟩
  · refine Iff.trans (and_congr_left fun _ => ?_) along
    exact ⟨fun tight pre below => ⟨tight pre below, numAif pre⟩,
      fun both pre below => (both pre below).1⟩
  · rintro e t member ⟨tight, same⟩
    rw [Engine.next_numAif, and_iff_left same]
    have served := acquired t member
    cases t with
    | go chn i dma => exact Engine.go_iff tight (same ▸ served.1)
    | stop chn i dma => exact Engine.stop_iff tight (same ▸ served.1)
  · obtain ⟨i, below, active⟩ := busy
    exact Bool.false_ne_true ((idle chn i below).symm.trans active)

/-- Two streams of each direction, that are acquired -/
def twoStreams : Mx where
  clkMode := ESAI_CLK_SLAVE
  sampleRateMin := 48000
  sampleRateMax := 48000
  sampleRate := 48000
  numAif _ := 2
  strm _ i := ⟨false, some i, some 48000⟩

/-- A start, and a stop of the same stream -/
def startStop : List Trigger := [.go .capture 0 ⟨none, true⟩, .stop .capture 0 ⟨none, true⟩]

theorem engine_small :
    (((∀ pre, pre <+: startStop → (pre.foldl Engine.next twoStreams.off).Tight) ∧
        ∀ pre t, pre ++ [t] <+: startStop → (pre.foldl Engine.next twoStreams.off).Fine t) ↔
      ∀ pre t, pre ++ [t] <+: startStop → (pre.foldl Engine.next twoStreams.off).Regular t) ∧
    ∀ pre t, pre ++ [t] <+: startStop → (pre.foldl Engine.next twoStreams.off).Regular t := by
  refine ⟨engine_iff (fun _ _ _ => rfl) fun t member => ?_, ?_⟩
  · rcases List.mem_cons.mp member with rfl | member
    · exact ⟨Nat.zero_lt_two, rfl⟩
    · rw [List.mem_singleton.mp member]
      exact ⟨Nat.zero_lt_two, rfl⟩
  · exact along_cons (fun _ => rfl) (along_cons (fun _ => rfl) along_nil)

/-- A start of a playback stream whose FIFO is not filled in time returns an error and leaves the
stream active. -/
theorem engine_broken :
    ¬∀ (mx : Mx) (triggers : List Trigger), (∀ chn, mx.Idle chn) → (∀ t ∈ triggers, mx.Serves t) →
      ((∀ pre, pre <+: triggers → (pre.foldl Engine.next mx.off).Tight) ∧
        ∀ pre t, pre ++ [t] <+: triggers → ¬(pre.foldl Engine.next mx.off).Silences t ∧
          (pre.foldl Engine.next mx.off).Undone t) := by
  intro all
  have served : ∀ t ∈ [Trigger.go .playback 0 ⟨none, false⟩], twoStreams.Serves t := by
    intro t member
    rw [List.mem_singleton.mp member]
    exact ⟨Nat.zero_lt_two, rfl⟩
  have undone := ((all twoStreams [.go .playback 0 ⟨none, false⟩] (fun _ _ _ => rfl) served).2 [] _
    (List.prefix_refl _)).2
  exact absurd (undone (by decide) .playback 0) (by decide)

end Mx6xBsp.Deva
