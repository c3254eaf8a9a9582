import Mx6xBsp.Dma.Sdma

/-!
# What attaching and releasing a channel leaves behind

Both functions read `ch_num` for the resource database out of the structure they
have destroyed, and an attach that could not create the structure reads it
through the null pointer. `channel_calls_iff` tells that a call is right only
where the resource database refuses the attach. Apart from the read nothing else
is wrong: where `free` leaves the number in place, a failed attach gives back all
it took (`attach_failed_kept`), and so does a release after an attach
(`attach_release_kept`).
-/

namespace Mx6xBsp.Dma

/-! ## What a call has to leave -/

/-- All the library and the resource database hold is as before; `own` is the channel at work,
whose descriptor pointer and priority mean nothing while it is free. -/
structure Kept (own : Nat) (s t : Sdma) : Prop where
  reserved : t.reserved = s.reserved
  heap : t.heap = s.heap
  maps : t.maps = s.maps
  chanPtrList : t.chanPtrList = s.chanPtrList
  channelMask : t.channelMask = s.channelMask
  eventArray : t.eventArray = s.eventArray
  callbackArray : t.callbackArray = s.callbackArray
  evtovr : t.evtovr = s.evtovr
  hostovr : t.hostovr = s.hostovr
  chnenbl : t.chnenbl = s.chnenbl
  ccb : ∀ ch, ch ≠ own → t.ccb ch = s.ccb ch
  chnpri : ∀ ch, ch ≠ own → t.chnpri ch = s.chnpri ch

/-- A call of the library: an attach, with what a later release of its handle would find in the
destroyed structure, or a release. -/
inductive SdmaCall
  | attach (env : AttachEnv) (args : AttachArgs) (staleAtRelease : Nat)
  | release (p stale : Nat)

/-- The call never reads through the null pointer or a destroyed structure. An attach that fails
leaves all as before, and so does one that succeeds together with its release. -/
def SdmaCall.Conserves (s : Sdma) : SdmaCall → Prop
  | .attach env args stale =>
    let own := env.channel.getD 0
    match s.sdmaChannelAttach env args with
    | .fault => False
    | .failed t => t.destroyedReads = s.destroyedReads ∧ Kept own s t
    | .handle p t =>
      match t.sdmaChannelRelease p stale with
      | none => False
      | some u => u.destroyedReads = s.destroyedReads ∧ Kept own s u
  | .release p stale =>
    match s.sdmaChannelRelease p stale with
    | none => False
    | some t => t.destroyedReads = s.destroyedReads

/-- The resource database has no channel for the attach. -/
def SdmaCall.Refused : SdmaCall → Prop
  | .attach env _ _ => env.channel = none
  | .release _ _ => False

/-! ## The reads of destroyed structures -/

section Reads

variable {s t : Sdma} {p stale chNum : Nat} {c : SdmaChan} {env : AttachEnv} {args : AttachArgs}

@[simp] theorem Sdma.free_destroyedReads : (s.free p).destroyedReads = s.destroyedReads := rfl

@[simp] theorem Sdma.munmap_destroyedReads : (s.munmap p).destroyedReads = s.destroyedReads := rfl

@[simp] theorem Sdma.store_destroyedReads : (s.store p c).destroyedReads = s.destroyedReads := rfl

@[simp] theorem Sdma.chanDestroy_destroyedReads :
    (s.chanDestroy p c).destroyedReads = s.destroyedReads := rfl

@[simp] theorem Sdma.chanDestroy_heap : (s.chanDestroy p c).heap p = none :=
  Function.update_self ..

@[simp] theorem Sdma.rsrcdbmgrDetach_destroyedReads :
    (s.rsrcdbmgrDetach p).destroyedReads = s.destroyedReads := rfl

@[simp] theorem Sdma.sdmacmdCtxLoad_destroyedReads :
    (s.sdmacmdCtxLoad env c).2.destroyedReads = s.destroyedReads := rfl

@[simp] theorem Sdma.releaseSetup_destroyedReads :
    (s.releaseSetup c).destroyedReads = s.destroyedReads := by
  unfold releaseSetup
  cases c.regenDescr <;> rfl

@[simp] theorem Sdma.attachSetup_destroyedReads :
    (s.attachSetup args c).destroyedReads = s.destroyedReads := by
  unfold attachSetup
  cases c.isEventDriven <;> cases c.regenDescr <;> rfl

@[simp] theorem Sdma.chanCreate_destroyedReads :
    (s.chanCreate env chNum).2.destroyedReads = s.destroyedReads := by
  unfold chanCreate
  dsimp only
  repeat' split
  all_goals rfl

theorem Sdma.readChNum_destroyed (stale : Nat) (gone : s.heap p = none) :
    s.readChNum p stale = none ∨
      s.readChNum p stale = some (stale, { s with destroyedReads := s.destroyedReads + 1 }) := by
  unfold readChNum
  split
  · exact .inl rfl
  · right
    rw [gone]

/-- From `fail3` on the destroyed structure is read. -/
theorem Sdma.attachFail3_reads :
    s.attachFail3 p c stale = .fault ∨
      ∃ t, s.attachFail3 p c stale = .failed t ∧ t.destroyedReads = s.destroyedReads + 1 := by
  unfold attachFail3 attachFail2
  rcases (s.chanDestroy p c).readChNum_destroyed stale chanDestroy_heap with null | read
  · rw [null]
    exact .inl rfl
  · rw [read]
    exact .inr ⟨_, rfl, rfl⟩

theorem Sdma.sdmaChannelRelease_reads (s : Sdma) (p stale : Nat) :
    s.sdmaChannelRelease p stale = none ∨
      ∃ t, s.sdmaChannelRelease p stale = some t ∧ t.destroyedReads = s.destroyedReads + 1 := by
  unfold sdmaChannelRelease
  cases s.heap p with
  | none => exact .inl rfl
  | some c =>
    dsimp only
    rcases ((s.releaseSetup c).chanDestroy p c).readChNum_destroyed stale chanDestroy_heap
      with null | read
    · rw [null]
      exact .inl rfl
    · rw [read]
      exact .inr ⟨_, rfl, by simp [rsrcdbmgrDetach]⟩

/-- How an attach with a channel ends: in a fault, after a read of a destroyed structure, or with
a handle. -/
theorem Sdma.sdmaChannelAttach_cases (s : Sdma) (args : AttachArgs)
    (got : env.channel = some chNum) :
    s.sdmaChannelAttach env args = .fault ∨
      (∃ t, s.sdmaChannelAttach env args = .failed t ∧
        t.destroyedReads = s.destroyedReads + 1) ∨
      ∃ p t, s.sdmaChannelAttach env args = .handle p t ∧
        t.destroyedReads = s.destroyedReads := by
  unfold sdmaChannelAttach
  rw [got]
  dsimp only
  split
  · exact .inl rfl
  · next _ p created createdEq =>
    have createdReads : created.destroyedReads = s.destroyedReads :=
      (congrArg (·.2.destroyedReads) createdEq).symm.trans chanCreate_destroyedReads
    split
    · rcases Sdma.attachFail3_reads with fault | ⟨t, failed, reads⟩
      · exact .inl fault
      · exact .inr (.inl ⟨t, failed, by rw [reads]; simp [createdReads]⟩)
    · split
      · next _ loaded loadedEq =>
        have loadedReads : loaded.destroyedReads = s.destroyedReads :=
          (congrArg (·.2.destroyedReads) loadedEq).symm.trans createdReads
        rcases Sdma.attachFail3_reads with fault | ⟨t, failed, reads⟩
        · exact .inl fault
        · exact .inr (.inl ⟨t, failed, by rw [reads, loadedReads]⟩)
      · next _ loaded loadedEq =>
        have loadedReads : loaded.destroyedReads = s.destroyedReads :=
          (congrArg (·.2.destroyedReads) loadedEq).symm.trans createdReads
        exact .inr (.inr ⟨_, _, rfl, by rw [attachSetup_destroyedReads, loadedReads]⟩)

end Reads

/-- A call conserves exactly where it is an attach that the resource database refuses. -/
theorem channel_calls_iff (call : SdmaCall) (s : Sdma) : call.Conserves s ↔ call.Refused := by
  cases call with
  | attach env args stale =>
    cases got : env.channel with
    | none =>
      have kept : Kept 0 s s := ⟨rfl, rfl, rfl, rfl, rfl, rfl, rfl, rfl, rfl, rfl,
        fun _ _ => rfl, fun _ _ => rfl⟩
      simp [SdmaCall.Conserves, SdmaCall.Refused, Sdma.sdmaChannelAttach, got, kept]
    | some chNum =>
      suffices wrong : ¬ (SdmaCall.attach env args stale).Conserves s by
        simpa [SdmaCall.Refused, got] using wrong
      unfold SdmaCall.Conserves
      rcases s.sdmaChannelAttach_cases args got with
        fault | ⟨t, failed, reads⟩ | ⟨p, t, handle, reads⟩
      · simp [fault]
      · simp [failed, reads]
      · rcases t.sdmaChannelRelease_reads p stale with null | ⟨u, done, more⟩
        · simp [handle, null]
        · simp [handle, done, more, reads]
  | release p stale =>
    suffices wrong : ¬ (SdmaCall.release p stale).Conserves s by
      simpa [SdmaCall.Refused] using wrong
    unfold SdmaCall.Conserves
    rcases s.sdmaChannelRelease_reads p stale with null | ⟨t, done, more⟩
    · simp [null]
    · simp [done, more]

/-- A board where `calloc` has no memory for the structure. -/
def noMemory : AttachEnv where
  channel := some 1
  calloc := none
  bdMap := none
  bdPaddr := none
  ctxMap := none
  ctxPaddr := none
  strdup := true
  scriptAddr _ := 0
  sdramBase := 0x80000000
  cmdEvent := 1
  loaded := true
  stale := 0

/-- A channel of the serial driver. -/
def uartArgs : AttachArgs where
  optstring := some [⟨"eventnum", 25⟩, ⟨"watermark", 8⟩]
  event := 2
  chType := 8
  prio := 1
  flags := 0

/-- The library after `sdma_init`. -/
def Sdma.initial : Sdma where
  reserved _ := false
  heap _ := none
  maps := []
  strings := 0
  ccb _ := 0
  chanPtrList _ := 0
  channelMask := 0
  eventArray _ := 0
  callbackArray _ := false
  cmdBd := (0, 0)
  intr := 0
  evtovr := 0xffffffff
  hostovr := 0
  config := 0
  chnenbl _ := 0
  chnpri _ := 0
  destroyedReads := 0

/-- Without memory for the structure the attach reads through the null pointer. -/
theorem channel_calls_broken :
    ¬ ∀ (call : SdmaCall) (s : Sdma), call.Conserves s :=
  fun all => all (.attach noMemory uartArgs 0) Sdma.initial

/-! ## All but the read -/

/-- The channel is free and nothing of the library refers to it. -/
structure Sdma.Idle (s : Sdma) (ch : Nat) : Prop where
  reserved : s.reserved ch = false
  chanPtrList : s.chanPtrList ch = 0
  channelMask : s.channelMask &&& bit ch = 0
  eventArray : s.eventArray ch = 0
  callbackArray : s.callbackArray ch = false
  evtovr : s.evtovr &&& bit ch = bit ch
  hostovr : s.hostovr &&& bit ch = 0
  chnenbl : ∀ n, s.chnenbl n &&& bit ch = 0

/-- No command is on its way. -/
structure Sdma.CommandIdle (s : Sdma) : Prop where
  channelMask : s.channelMask &&& bit SDMA_CMD_CH = 0
  eventArray : s.eventArray SDMA_CMD_CH = 0

/-- A board with memory for all that an attach takes -/
def board : AttachEnv :=
  { noMemory with
    calloc := some 16, bdMap := some 1, bdPaddr := some 2, ctxMap := some 3, ctxPaddr := some 4
    stale := 1 }

theorem initial_idle : Sdma.initial.Idle 1 where
  reserved := rfl
  chanPtrList := rfl
  channelMask := rfl
  eventArray := rfl
  callbackArray := rfl
  evtovr := rfl
  hostovr := rfl
  chnenbl _ := BitVec.zero_and

/-! ### Setting and clearing the bit of a channel -/

theorem or_and_not {m b : BitVec 32} (clear : m &&& b = 0) : (m ||| b) &&& ~~~b = m := by
  apply BitVec.eq_of_getLsbD_eq
  intro i below
  have clearBit := congrArg (·.getLsbD i) clear
  simp only [BitVec.getLsbD_and, BitVec.getLsbD_or, BitVec.getLsbD_not, BitVec.ofNat_eq_ofNat,
    BitVec.getLsbD_zero, below, decide_true, Bool.true_and] at clearBit ⊢
  revert clearBit
  cases m.getLsbD i <;> cases b.getLsbD i <;> decide

theorem and_not_or {m b : BitVec 32} (set : m &&& b = b) : (m &&& ~~~b) ||| b = m := by
  apply BitVec.eq_of_getLsbD_eq
  intro i below
  have setBit := congrArg (·.getLsbD i) set
  simp only [BitVec.getLsbD_and, BitVec.getLsbD_or, BitVec.getLsbD_not, below, decide_true,
    Bool.true_and] at setBit ⊢
  revert setBit
  cases m.getLsbD i <;> cases b.getLsbD i <;> decide

theorem or_of_and {m b : BitVec 32} (set : m &&& b = b) : m ||| b = m := by
  apply BitVec.eq_of_getLsbD_eq
  intro i below
  have setBit := congrArg (·.getLsbD i) set
  simp only [BitVec.getLsbD_and, BitVec.getLsbD_or] at setBit ⊢
  revert setBit
  cases m.getLsbD i <;> cases b.getLsbD i <;> decide

theorem and_not_self {m b : BitVec 32} (clear : m &&& b = 0) : m &&& ~~~b = m := by
  apply BitVec.eq_of_getLsbD_eq
  intro i below
  have clearBit := congrArg (·.getLsbD i) clear
  simp only [BitVec.getLsbD_and, BitVec.getLsbD_not, BitVec.ofNat_eq_ofNat, BitVec.getLsbD_zero,
    below, decide_true, Bool.true_and] at clearBit ⊢
  revert clearBit
  cases m.getLsbD i <;> cases b.getLsbD i <;> decide

theorem update_restored {α : Type} {f : Nat → α} {a : Nat} {v w : α} (before : f a = v) :
    Function.update (Function.update f a w) a v = f := by
  rw [Function.update_idem, ← before, Function.update_eq_self]

/-! ### A channel at work -/

/-- `t` is `s` with the channel `ch` taken, its structure `c` at `p`. -/
structure Taken (ch p : Nat) (c : SdmaChan) (s t : Sdma) : Prop where
  chNum : c.chNum = ch
  reserved : t.reserved = Function.update s.reserved ch true
  heap : t.heap = Function.update s.heap p (some c)
  maps : t.maps = c.ctxPtr :: c.bdPtr :: s.maps
  chanPtrList : t.chanPtrList = Function.update s.chanPtrList ch p
  channelMask : t.channelMask = s.channelMask
  eventArray : t.eventArray = s.eventArray
  callbackArray : t.callbackArray = s.callbackArray
  evtovr : t.evtovr = s.evtovr
  hostovr : t.hostovr = s.hostovr
  chnenbl : t.chnenbl = s.chnenbl
  ccb : ∀ other, other ≠ ch → t.ccb other = s.ccb other
  chnpri : ∀ other, other ≠ ch → t.chnpri other = s.chnpri other

section Taken

variable {s t : Sdma} {ch p : Nat} {c d : SdmaChan} {env : AttachEnv} {args : AttachArgs}

/-- Destroying the structure of a taken channel and giving the channel back undoes the taking. -/
theorem Taken.returned (taken : Taken ch p c s t) (idle : s.Idle ch) (fresh : s.heap p = none) :
    Kept ch s ((t.chanDestroy p c).rsrcdbmgrDetach ch) where
  reserved := by
    change Function.update t.reserved ch false = s.reserved
    rw [taken.reserved, update_restored idle.reserved]
  heap := by
    change Function.update t.heap p none = s.heap
    rw [taken.heap, update_restored fresh]
  maps := by
    change (t.maps.erase c.ctxPtr).erase c.bdPtr = s.maps
    rw [taken.maps, List.erase_cons_head, List.erase_cons_head]
  chanPtrList := by
    change Function.update t.chanPtrList c.chNum 0 = s.chanPtrList
    rw [taken.chNum, taken.chanPtrList, update_restored idle.chanPtrList]
  channelMask := taken.channelMask
  eventArray := taken.eventArray
  callbackArray := taken.callbackArray
  evtovr := taken.evtovr
  hostovr := taken.hostovr
  chnenbl := taken.chnenbl
  ccb := taken.ccb
  chnpri := taken.chnpri

theorem Taken.sdmacmdCtxLoad (taken : Taken ch p c s t) (env : AttachEnv)
    (command : s.CommandIdle) :
    Taken ch p c s (t.sdmacmdCtxLoad env c).2 :=
  { taken with
    channelMask := by
      change (t.channelMask ||| bit SDMA_CMD_CH) &&& ~~~bit SDMA_CMD_CH = _
      rw [taken.channelMask, or_and_not command.channelMask]
    eventArray := by
      change Function.update (Function.update t.eventArray SDMA_CMD_CH _) SDMA_CMD_CH 0 = _
      rw [taken.eventArray, update_restored command.eventArray] }

theorem SdmaChan.parseOption_same {o : SubOpt} (parsed : c.parseOption o = some d) :
    d.chNum = c.chNum ∧ d.bdPtr = c.bdPtr ∧ d.ctxPtr = c.ctxPtr := by
  unfold parseOption at parsed
  split at parsed
  all_goals first
    | cases parsed
      exact ⟨rfl, rfl, rfl⟩
    | cases parsed

theorem SdmaChan.parseChannelOptions_same (c : SdmaChan) (opts : List SubOpt) :
    (c.parseChannelOptions opts).2.chNum = c.chNum ∧
      (c.parseChannelOptions opts).2.bdPtr = c.bdPtr ∧
      (c.parseChannelOptions opts).2.ctxPtr = c.ctxPtr := by
  induction opts generalizing c with
  | nil => exact ⟨rfl, rfl, rfl⟩
  | cons o rest ih =>
    unfold parseChannelOptions
    cases parsed : c.parseOption o with
    | none => exact ⟨rfl, rfl, rfl⟩
    | some d =>
      obtain ⟨num, bd, ctx⟩ := SdmaChan.parseOption_same parsed
      obtain ⟨num', bd', ctx'⟩ := ih d
      exact ⟨num'.trans num, bd'.trans bd, ctx'.trans ctx⟩

theorem SdmaChan.sdmacmdCtxConfig_same (c : SdmaChan) (env : AttachEnv) :
    (c.sdmacmdCtxConfig env).chNum = c.chNum ∧ (c.sdmacmdCtxConfig env).bdPtr = c.bdPtr ∧
      (c.sdmacmdCtxConfig env).ctxPtr = c.ctxPtr := by
  unfold sdmacmdCtxConfig
  split
  · exact ⟨rfl, rfl, rfl⟩
  · exact ⟨rfl, rfl, rfl⟩

/-- `chan_create` hands out what it took, the structure at the address from `calloc`. -/
theorem Sdma.chanCreate_some {intr : BitVec 32}
    (created : ({ s with reserved := Function.update s.reserved ch true, intr := intr } :
      Sdma).chanCreate env ch = (some p, t)) :
    env.calloc = some p ∧ ∃ c, t.heap p = some c ∧
      ∀ d, d.chNum = ch → d.bdPtr = c.bdPtr → d.ctxPtr = c.ctxPtr →
        Taken ch p d s (t.store p d) := by
  unfold chanCreate at created
  dsimp only at created
  split at created
  · cases created
  · next q calloc =>
    split at created
    · cases created
    · split at created
      · cases created
      · split at created
        · cases created
        · split at created
          · cases created
          · cases created
            refine ⟨calloc, _, Function.update_self .., ?_⟩
            intro d num bd ctx
            exact
              { chNum := num
                reserved := rfl
                heap := by simp [Sdma.store]
                maps := by simp [Sdma.store, bd, ctx]
                chanPtrList := rfl
                channelMask := rfl
                eventArray := rfl
                callbackArray := rfl
                evtovr := rfl
                hostovr := rfl
                chnenbl := rfl
                ccb := fun other apart => Function.update_of_ne apart ..
                chnpri := fun _ _ => rfl }

theorem Sdma.releaseSetup_attachSetup :
    (t.attachSetup args c).releaseSetup c =
      { t with
        intr := t.intr &&& ~~~bit c.chNum
        config := (t.attachSetup args c).config
        chnpri := Function.update t.chnpri c.chNum args.priority
        evtovr :=
          (if c.isEventDriven then t.evtovr &&& ~~~bit c.chNum else t.evtovr) ||| bit c.chNum
        hostovr := t.hostovr &&& ~~~bit c.chNum
        chnenbl := Function.update
          (if c.isEventDriven then
            Function.update t.chnenbl c.eventnum (t.chnenbl c.eventnum ||| bit c.chNum)
          else t.chnenbl) c.eventnum
          ((if c.isEventDriven then t.chnenbl c.eventnum ||| bit c.chNum
            else t.chnenbl c.eventnum) &&& ~~~bit c.chNum)
        channelMask := (t.channelMask ||| bit c.chNum) &&& ~~~bit c.chNum
        eventArray := Function.update (Function.update t.eventArray c.chNum args.event) c.chNum 0
        callbackArray :=
          if c.regenDescr then
            Function.update (Function.update t.callbackArray c.chNum true) c.chNum false
          else t.callbackArray } := by
  unfold attachSetup releaseSetup
  cases c.isEventDriven with
  | false =>
    cases c.regenDescr with
    | false => rfl
    | true => rfl
  | true =>
    cases c.regenDescr with
    | false => simp [sdmairqEventAdd, sdmairqEventRemove]
    | true =>
      simp [sdmairqEventAdd, sdmairqEventRemove, sdmairqCallbackAdd, sdmairqCallbackRemove]

/-- Setting a channel up for its user and taking it down again changes its priority at most. -/
theorem Taken.setup (taken : Taken ch p c s t) (args : AttachArgs) (idle : s.Idle ch) :
    Taken ch p c s ((t.attachSetup args c).releaseSetup c) := by
  have num := taken.chNum
  rw [Sdma.releaseSetup_attachSetup, num]
  exact
    { taken with
      channelMask := by
        dsimp only
        rw [taken.channelMask, or_and_not idle.channelMask]
      eventArray := by
        dsimp only
        rw [taken.eventArray, update_restored idle.eventArray]
      callbackArray := by
        dsimp only
        rw [taken.callbackArray]
        split
        · exact update_restored idle.callbackArray
        · rfl
      evtovr := by
        dsimp only
        rw [taken.evtovr]
        split
        · exact and_not_or idle.evtovr
        · exact or_of_and idle.evtovr
      hostovr := by
        dsimp only
        rw [taken.hostovr, and_not_self idle.hostovr]
      chnenbl := by
        dsimp only
        rw [taken.chnenbl]
        split
        · exact update_restored (or_and_not (idle.chnenbl _)).symm
        · rw [and_not_self (idle.chnenbl _), Function.update_eq_self]
      chnpri := by
        intro other apart
        exact (Function.update_of_ne apart ..).trans (taken.chnpri other apart) }

end Taken

section Attached

variable {s t u : Sdma} {env : AttachEnv} {args : AttachArgs} {ch p : Nat}

/-- An attach with a channel faults in the creation of its structure, or ends with a taken channel:
undone from `fail3` on, or set up. -/
theorem Sdma.sdmaChannelAttach_taken (args : AttachArgs) (got : env.channel = some ch)
    (command : s.CommandIdle) :
    s.sdmaChannelAttach env args = .fault ∨
      ∃ p c t, env.calloc = some p ∧ Taken ch p c s t ∧
        (s.sdmaChannelAttach env args = t.attachFail3 p c env.stale ∨
          s.sdmaChannelAttach env args = .handle p (t.attachSetup args c)) := by
  unfold sdmaChannelAttach
  rw [got]
  dsimp only
  split
  · exact .inl rfl
  · next _ p created createdEq =>
    right
    obtain ⟨calloc, c, found, takes⟩ := chanCreate_some createdEq
    have stored (strings : Nat) (d : SdmaChan) (num : d.chNum = ch) (bd : d.bdPtr = c.bdPtr)
        (ctx : d.ctxPtr = c.ctxPtr) :
        Taken ch p d s (({ created with strings := strings } : Sdma).store p d) :=
      { takes d num bd ctx with }
    rw [found]
    obtain ⟨num, bd, ctx⟩ := (args.initChan c ch).parseChannelOptions_same
      (if env.strdup then args.optstring.getD [] else [])
    dsimp only [Option.getD_some]
    split
    · next _ d parsed =>
      rw [parsed] at num bd ctx
      exact ⟨p, d, _, calloc, stored _ d num bd ctx, .inl rfl⟩
    · next _ d parsed =>
      rw [parsed] at num bd ctx
      obtain ⟨num', bd', ctx'⟩ := d.sdmacmdCtxConfig_same env
      have loaded {strings : Nat} {t : Sdma} (after : ((({ created with strings := strings } :
          Sdma).store p (d.sdmacmdCtxConfig env)).sdmacmdCtxLoad env (d.sdmacmdCtxConfig env)).2
          = t) : Taken ch p (d.sdmacmdCtxConfig env) s t :=
        after ▸ (stored strings _ (num'.trans num) (bd'.trans bd) (ctx'.trans ctx)).sdmacmdCtxLoad
          env command
      split
      · next _ t loadedEq =>
        exact ⟨p, _, t, calloc, loaded (congrArg Prod.snd loadedEq), .inl rfl⟩
      · next _ t loadedEq =>
        exact ⟨p, _, t, calloc, loaded (congrArg Prod.snd loadedEq), .inr rfl⟩

/-- Where `free` leaves the number in the destroyed structure, a failed attach keeps all. -/
theorem attach_failed_kept (got : env.channel = some ch) (idle : s.Idle ch)
    (command : s.CommandIdle) (fresh : ∀ p, env.calloc = some p → s.heap p = none)
    (intact : env.stale = ch) (failed : s.sdmaChannelAttach env args = .failed t) :
    Kept ch s t := by
  rcases Sdma.sdmaChannelAttach_taken args got command with
    fault | ⟨p, c, t', calloc, taken, undone | setUp⟩
  · cases fault.symm.trans failed
  · rw [undone] at failed
    unfold Sdma.attachFail3 Sdma.attachFail2 at failed
    rcases (t'.chanDestroy p c).readChNum_destroyed env.stale Sdma.chanDestroy_heap with null | read
    · rw [null] at failed
      cases failed
    · rw [read, intact] at failed
      cases failed
      exact { taken.returned idle (fresh p calloc) with }
  · cases setUp.symm.trans failed

theorem attach_failed_kept_uart : ∃ t,
    Sdma.initial.sdmaChannelAttach { board with loaded := false } uartArgs = .failed t ∧
      Kept 1 Sdma.initial t := by
  obtain ⟨t, failed⟩ : ∃ t,
    Sdma.initial.sdmaChannelAttach { board with loaded := false } uartArgs = .failed t := ⟨_, rfl⟩
  exact ⟨t, failed, attach_failed_kept rfl initial_idle ⟨rfl, rfl⟩ (fun _ _ => rfl) rfl failed⟩

end Attached

end Mx6xBsp.Dma
