import Mx6xBsp.Deva.Esai
import Mx6xBsp.Lib.Runs

/-!
# The rate lock of the ESAI controller

An acquisition that needs another rate is refused only for an active stream of the
other channel. So the rate changes under an active stream of the same channel, and a
stream that was acquired before the change is started with a rate that is no longer
its own. `rate_locked_iff` tells exactly which calls do neither.
-/

namespace Mx6xBsp.Deva

open Runs

/-! ## Counting active streams -/

namespace Mx

variable {mx : Mx} {chn : Channel} {isChannel : Nat → Bool} {rate : Int} {subchn i : Nat}
  {buf : Option Nat} {dma : Dma}

/-- No stream of the channel is active. -/
def Idle (mx : Mx) (chn : Channel) : Prop :=
  ∀ i, i < mx.numAif chn → (mx.strm chn i).active = false

theorem numActive_eq_zero : mx.numActive chn = 0 ↔ mx.Idle chn := by
  refine List.countP_eq_zero.trans ⟨fun none i below => ?_, fun idle i mem => ?_⟩
  · exact Bool.eq_false_iff.mpr (none i (List.mem_range.mpr below))
  · exact Bool.eq_false_iff.mp (idle i (List.mem_range.mp mem))

theorem setStrm_same (strm : Strm) : (mx.setStrm chn i strm).strm chn i = strm :=
  if_pos ⟨rfl, rfl⟩

theorem setStrm_apart {c : Channel} {j : Nat} (strm : Strm) (apart : ¬(c = chn ∧ j = i)) :
    (mx.setStrm chn i strm).strm c j = mx.strm c j := if_neg apart

theorem other_ne : ∀ chn : Channel, chn.other ≠ chn
  | .playback => nofun
  | .capture => nofun

theorem eq_or_other (chn c : Channel) : c = chn ∨ c = chn.other := by
  cases chn with
  | playback => cases c with
    | playback => exact .inl rfl
    | capture => exact .inr rfl
  | capture => cases c with
    | playback => exact .inr rfl
    | capture => exact .inl rfl

theorem setStrm_numActive (strm : Strm) :
    (mx.setStrm chn i strm).numActive chn.other = mx.numActive chn.other := by
  refine List.countP_congr fun j _ => ?_
  rw [setStrm_apart strm fun both => other_ne chn both.1]

/-! ## What an acquisition leaves -/

/-- The acquisition of the stream `i` sets the clock to its rate. -/
structure Changes (mx : Mx) (chn : Channel) (isChannel : Nat → Bool) (rate : Int) (i : Nat) :
    Prop where
  found : (List.range (mx.numAif chn)).find? isChannel = some i
  free : (mx.strm chn i).pcmSubchn = none
  switches : mx.switches = true
  needed : rate ≠ mx.sampleRate
  others : mx.Idle chn.other

/-- After an acquisition: the rate, and the activity and configuration of the streams. -/
structure Aquired (mx : Mx) (chn : Channel) (i : Nat) (t : Mx) : Prop where
  numAif : t.numAif = mx.numAif
  idle : (t.strm chn i).active = false
  apart : ∀ c j, ¬(c = chn ∧ j = i) → t.strm c j = mx.strm c j

theorem aquire_missed (missed : (List.range (mx.numAif chn)).find? isChannel = none) :
    mx.aquire chn isChannel rate subchn buf = (EAGAIN, mx) := by
  unfold aquire
  rw [missed]

theorem aquire_used (found : (List.range (mx.numAif chn)).find? isChannel = some i)
    (used : (mx.strm chn i).pcmSubchn.isSome = true) :
    mx.aquire chn isChannel rate subchn buf = (EAGAIN, mx) := by
  unfold aquire
  rw [found]
  exact if_pos used

theorem lockRate_cases (mx : Mx) (chn : Channel) (rate : Int) :
    (mx.lockRate chn rate = none ∨ mx.lockRate chn rate = some mx) ∧
        ¬(mx.switches = true ∧ rate ≠ mx.sampleRate ∧ mx.Idle chn.other) ∨
      mx.lockRate chn rate = some (mx.setClockRate rate) ∧
        mx.switches = true ∧ rate ≠ mx.sampleRate ∧ mx.Idle chn.other := by
  unfold lockRate
  split
  case isFalse stays =>
    exact .inl ⟨.inr rfl, fun changes => stays ⟨changes.1, changes.2.1⟩⟩
  case isTrue needed =>
    split
    case isTrue busy =>
      refine .inl ⟨.inl rfl, fun changes => ?_⟩
      exact absurd (numActive_eq_zero.mpr changes.2.2) (Nat.ne_of_gt busy)
    case isFalse idle =>
      exact .inr ⟨rfl, needed.1, needed.2, numActive_eq_zero.mp (Nat.eq_zero_of_not_pos idle)⟩

theorem aquireBuf_rate : (mx.aquireBuf chn i rate subchn buf).2.sampleRate = mx.sampleRate := by
  cases buf with
  | some errno => rfl
  | none => rfl

theorem Aquired.aquireBuf {u : Mx} (acquired : Aquired mx chn i u) :
    Aquired mx chn i (u.aquireBuf chn i rate subchn buf).2 := by
  cases buf with
  | some errno => exact acquired
  | none =>
    refine ⟨acquired.numAif, ?_, fun c j apart => ?_⟩
    · exact (congrArg Strm.active (setStrm_same _)).trans acquired.idle
    · exact (setStrm_apart _ apart).trans (acquired.apart c j apart)

theorem aquired_start :
    Aquired mx chn i (mx.setStrm chn i { mx.strm chn i with active := false }) where
  numAif := rfl
  idle := congrArg Strm.active (setStrm_same _)
  apart _ _ apart := setStrm_apart _ apart

theorem aquire_free (found : (List.range (mx.numAif chn)).find? isChannel = some i)
    (free : (mx.strm chn i).pcmSubchn = none) :
    Aquired mx chn i (mx.aquire chn isChannel rate subchn buf).2 ∧
      ((mx.aquire chn isChannel rate subchn buf).2.sampleRate = mx.sampleRate ∧
          ¬mx.Changes chn isChannel rate i ∨
        (mx.aquire chn isChannel rate subchn buf).2.sampleRate = rate ∧
          mx.Changes chn isChannel rate i) := by
  have unused : ¬(mx.strm chn i).pcmSubchn.isSome = true := by
    rw [free]
    exact nofun
  have idle : (mx.setStrm chn i { mx.strm chn i with active := false }).Idle chn.other ↔
      mx.Idle chn.other := by
    rw [← numActive_eq_zero, setStrm_numActive, numActive_eq_zero]
  unfold aquire
  rw [found]
  dsimp only
  rw [if_neg unused]
  rcases lockRate_cases (mx.setStrm chn i { mx.strm chn i with active := false }) chn rate with
    ⟨refused | kept, stays⟩ | ⟨changed, switches, needed, others⟩
  · rw [refused]
    refine ⟨aquired_start, .inl ⟨rfl, fun changes => stays ?_⟩⟩
    exact ⟨changes.switches, changes.needed, idle.mpr changes.others⟩
  · rw [kept]
    refine ⟨aquired_start.aquireBuf, .inl ⟨aquireBuf_rate, fun changes => stays ?_⟩⟩
    exact ⟨changes.switches, changes.needed, idle.mpr changes.others⟩
  · rw [changed]
    refine ⟨Aquired.aquireBuf ⟨rfl, aquired_start.idle, aquired_start.apart⟩, .inr ⟨?_, ?_⟩⟩
    · exact aquireBuf_rate
    · exact ⟨found, free, switches, needed, idle.mp others⟩

/-! ## The rate lock -/

/-- Every active stream that is configured has the rate of the controller. -/
def Tuned (mx : Mx) : Prop :=
  ∀ chn i, i < mx.numAif chn → (mx.strm chn i).active = true →
    ∀ rate, (mx.strm chn i).pcmConfig = some rate → rate = mx.sampleRate

/-- The rate is changed only with no stream active. -/
def Locked (mx : Mx) (op : Op) : Prop :=
  (mx.next op).sampleRate ≠ mx.sampleRate → ∀ chn, (mx.next op).Idle chn

/-- A call keeps the streams at the rate of the controller: an acquisition does not change the rate
under another stream of its channel, and a stream is not started after its rate has gone. -/
def Kept (mx : Mx) : Op → Prop
  | .aquire chn isChannel rate _ _ =>
    ∀ i, mx.Changes chn isChannel rate i →
      ∀ j, j < mx.numAif chn → j ≠ i → (mx.strm chn j).active = false
  | .go chn i _ =>
    i < mx.numAif chn → ∀ rate, (mx.strm chn i).pcmConfig = some rate → rate = mx.sampleRate
  | .stop _ _ _ | .release _ _ => True

theorem Aquired.idle_iff {t : Mx} (acquired : Aquired mx chn i t) (c : Channel) :
    t.Idle c ↔ ∀ j, j < mx.numAif c → ¬(c = chn ∧ j = i) → (mx.strm c j).active = false := by
  unfold Idle
  rw [acquired.numAif]
  refine forall₂_congr fun j _ => ⟨fun idle apart => ?_, fun idle => ?_⟩
  · exact (congrArg Strm.active (acquired.apart c j apart)).symm.trans idle
  · by_cases same : c = chn ∧ j = i
    · obtain ⟨rfl, rfl⟩ := same
      exact acquired.idle
    · exact (congrArg Strm.active (acquired.apart c j same)).trans (idle same)

theorem Aquired.tuned {t : Mx} (acquired : Aquired mx chn i t) (tuned : mx.Tuned)
    (stays : t.sampleRate = mx.sampleRate) : t.Tuned := by
  intro c j below active rate' config
  by_cases same : c = chn ∧ j = i
  · obtain ⟨rfl, rfl⟩ := same
    exact absurd active (Bool.eq_false_iff.mp acquired.idle)
  · rw [acquired.apart c j same] at active config
    rw [acquired.numAif] at below
    exact (tuned c j below active rate' config).trans stays.symm

theorem tuned_of_idle (idle : ∀ c, mx.Idle c) : mx.Tuned := by
  intro c j below active
  rw [idle c j below] at active
  cases active

theorem aquire_kept_iff (tuned : mx.Tuned) :
    (mx.next (.aquire chn isChannel rate subchn buf)).Tuned ∧
        mx.Locked (.aquire chn isChannel rate subchn buf) ↔
      mx.Kept (.aquire chn isChannel rate subchn buf) := by
  have refused (same : mx.aquire chn isChannel rate subchn buf = (EAGAIN, mx))
      (never : ∀ i, ¬mx.Changes chn isChannel rate i) :
      (mx.next (.aquire chn isChannel rate subchn buf)).Tuned ∧
          mx.Locked (.aquire chn isChannel rate subchn buf) ↔
        mx.Kept (.aquire chn isChannel rate subchn buf) := by
    have next : mx.next (.aquire chn isChannel rate subchn buf) = mx := congrArg Prod.snd same
    unfold Locked
    rw [next]
    exact iff_of_true ⟨tuned, fun changed => absurd rfl changed⟩
      fun i changes => absurd changes (never i)
  cases found : (List.range (mx.numAif chn)).find? isChannel with
  | none =>
    exact refused (aquire_missed found) fun i changes => nomatch found.symm.trans changes.found
  | some i =>
    have only {k : Nat} (changes : mx.Changes chn isChannel rate k) : k = i :=
      Option.some_inj.mp (changes.found.symm.trans found)
    cases free : (mx.strm chn i).pcmSubchn with
    | some used =>
      refine refused (aquire_used found (by rw [free]; rfl)) fun k changes => ?_
      rw [only changes] at changes
      exact nomatch free.symm.trans changes.free
    | none =>
      obtain ⟨acquired, ⟨stays, never⟩ | ⟨changed, changes⟩⟩ :=
        aquire_free found free
      · refine iff_of_true ⟨acquired.tuned tuned stays, fun moved => absurd stays moved⟩ ?_
        intro k changes
        rw [only changes] at changes
        exact absurd changes never
      · have moved : (mx.next (.aquire chn isChannel rate subchn buf)).sampleRate ≠
            mx.sampleRate := fun same => changes.needed (changed.symm.trans same)
        constructor
        · rintro ⟨_, locked⟩ k others j below apart
          rw [only others] at apart
          exact (acquired.idle_iff chn).mp (locked moved chn) j below
            fun same => apart same.2
        · intro kept
          have idle : ∀ c, (mx.next (.aquire chn isChannel rate subchn buf)).Idle c := by
            intro c
            refine (acquired.idle_iff c).mpr fun j below apart => ?_
            rcases eq_or_other chn c with rfl | rfl
            · exact kept i changes j below fun same => apart ⟨rfl, same⟩
            · exact changes.others j below
          exact ⟨tuned_of_idle idle, fun _ => idle⟩

theorem locked_of_rate {op : Op} (stays : (mx.next op).sampleRate = mx.sampleRate) :
    mx.Locked op := fun moved => absurd stays moved

theorem setStrm_tuned (tuned : mx.Tuned) {strm : Strm}
    (here : i < mx.numAif chn → strm.active = true → ∀ rate, strm.pcmConfig = some rate →
      rate = mx.sampleRate) : (mx.setStrm chn i strm).Tuned := by
  intro c j below active
  by_cases same : c = chn ∧ j = i
  · obtain ⟨rfl, rfl⟩ := same
    rw [setStrm_same] at active ⊢
    exact here below active
  · rw [setStrm_apart _ same] at active ⊢
    exact tuned c j below active

theorem triggerGo_kept_iff (tuned : mx.Tuned) :
    (mx.next (.go chn i dma)).Tuned ∧ mx.Locked (.go chn i dma) ↔ mx.Kept (.go chn i dma) := by
  constructor
  · rintro ⟨after, _⟩ below rate config
    refine after chn i below ?_ rate ?_
    · exact congrArg Strm.active (setStrm_same _)
    · exact (congrArg Strm.pcmConfig (setStrm_same _)).trans config
  · intro kept
    exact ⟨setStrm_tuned tuned fun below _ => kept below, locked_of_rate rfl⟩

theorem kept_iff (tuned : mx.Tuned) (op : Op) :
    (mx.next op).Tuned ∧ mx.Locked op ↔ mx.Kept op := by
  cases op with
  | aquire chn isChannel rate subchn buf => exact aquire_kept_iff tuned
  | go chn i dma => exact triggerGo_kept_iff tuned
  | stop chn i dma =>
    refine iff_of_true ⟨setStrm_tuned tuned fun _ active => ?_, locked_of_rate rfl⟩ trivial
    cases active
  | release chn i =>
    refine iff_of_true ⟨setStrm_tuned tuned fun _ _ _ config => ?_, locked_of_rate rfl⟩ trivial
    cases config

end Mx

/-- From a controller without active streams, every active stream has the rate of the controller at
every moment, and the rate never changes under an active stream, exactly when every call keeps
this. -/
theorem rate_locked_iff {mx : Mx} (idle : ∀ chn, mx.Idle chn) (ops : List Op) :
    ((∀ pre, pre <+: ops → (pre.foldl Mx.next mx).Tuned) ∧
        ∀ pre op, pre ++ [op] <+: ops → (pre.foldl Mx.next mx).Locked op) ↔
      ∀ pre op, pre ++ [op] <+: ops → (pre.foldl Mx.next mx).Kept op :=
  along_iff (fun tuned => Mx.kept_iff tuned _) (Mx.tuned_of_idle idle)

/-- Two playback interfaces and one for capture, with two rates to choose from -/
def threeStreams : Mx where
  clkMode := ESAI_CLK_MASTER
  sampleRateMin := 44100
  sampleRateMax := 48000
  sampleRate := 48000
  numAif
    | .playback => 2
    | .capture => 1
  strm _ _ := ⟨false, none, none⟩

theorem threeStreams_idle (chn : Channel) : threeStreams.Idle chn := fun _ _ => rfl

/-- Acquires the interface `i` and starts its stream. -/
def play (i : Nat) (rate : Int) : List Op :=
  [.aquire .playback (· == i) rate i none, .go .playback i ⟨none, true⟩]

theorem rate_locked_small :
    ((play 0 44100).foldl Mx.next threeStreams).Tuned ∧
      ((play 0 44100).foldl Mx.next threeStreams).sampleRate = 44100 := by
  refine ⟨((rate_locked_iff threeStreams_idle (play 0 44100)).mpr ?_).1 _ (List.prefix_refl _), rfl⟩
  refine along_cons (fun i changes j below apart => ?_) (along_cons ?_ along_nil)
  · rfl
  · intro _ rate config
    exact (Option.some_inj.mp config).symm

/-- The second stream changes the rate while the first one plays. -/
theorem rate_locked_broken :
    ¬∀ (mx : Mx), (∀ chn, mx.Idle chn) → ∀ ops : List Op,
      (∀ pre, pre <+: ops → (pre.foldl Mx.next mx).Tuned) ∧
        ∀ pre op, pre ++ [op] <+: ops → (pre.foldl Mx.next mx).Locked op := by
  intro claim
  have locked := (claim threeStreams threeStreams_idle (play 0 48000 ++ play 1 44100)).2
    (play 0 48000) _ ⟨[.go .playback 1 ⟨none, true⟩], rfl⟩ (by decide)
  exact absurd (locked .playback 0 (by decide)) (by decide)

end Mx6xBsp.Deva
