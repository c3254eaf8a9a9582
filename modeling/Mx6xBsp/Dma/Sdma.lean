import Mathlib.Algebra.Group.Nat.Defs
import Mathlib.Data.List.Basic
import Mathlib.Logic.Function.Basic

/-!
# Channels of the SDMA library

`sdma_channel_attach` and `sdma_channel_release` of `api.c` with what they use of
`irq.c` and `cmd.c`. The memory of the channel structures is `heap`; an address
without a structure has none yet or one that was freed. What `free` leaves in a
destroyed structure is given from outside, and each read of one is counted.
-/

namespace Mx6xBsp.Dma

def SDMA_CMD_CH : Nat := 0
def SDMA_CH_PRIO_LO : Int := 1
def SDMA_CH_PRIO_HI : Int := 7
def SDMA_CHTYPE_AP_2_AP : Nat := 0
def SDMA_CTX_WSIZE : Nat := 32
def DMA_ATTACH_PRIORITY_HIGHEST : BitVec 32 := 0x8
def CONFIG_CSM_MSK : BitVec 32 := 0x3
def CONFIG_CSM_STATIC : BitVec 32 := 0x0
def CONFIG_CSM_DYNAMIC : BitVec 32 := 0x3

/-- `1 << n` -/
def bit (n : Nat) : BitVec 32 := 1#32 <<< n

/-- The part of `sdma_ch_ctx_t` that `sdmacmd_ctx_config` fills in. -/
structure SdmaChCtx where
  pc : Nat
  gReg0 : BitVec 32
  gReg1 : BitVec 32
  gReg6 : Nat
  gReg7 : Nat

/-- `sdma_chan_t` with the image behind `ctx_ptr`. -/
structure SdmaChan where
  chNum : Nat
  chType : Nat
  attachFlags : BitVec 32
  watermark : Nat
  fifoPaddr : Nat
  eventnum : Nat
  isEventDriven : Bool
  regenDescr : Bool
  contDescrLoop : Bool
  bdPtr : Nat
  ctxPtr : Nat
  ctxPaddr : Nat
  ctx : SdmaChCtx

/-- What `calloc` returns. -/
def SdmaChan.zero : SdmaChan :=
  ⟨0, 0, 0, 0, 0, 0, false, false, false, 0, 0, 0, ⟨0, 0, 0, 0, 0⟩⟩

/-- The library in one process: the resource database, the memory, the statics of `api.c` and
`irq.c`, the command descriptor (its channel and `buf_paddr`) and the registers. -/
structure Sdma where
  /-- Channels handed out by the resource database. -/
  reserved : Nat → Bool
  heap : Nat → Option SdmaChan
  maps : List Nat
  /-- Copies of option strings that nothing frees. -/
  strings : Nat
  ccb : Nat → Nat
  chanPtrList : Nat → Nat
  channelMask : BitVec 32
  eventArray : Nat → Nat
  callbackArray : Nat → Bool
  cmdBd : Nat × Nat
  intr : BitVec 32
  evtovr : BitVec 32
  hostovr : BitVec 32
  config : BitVec 32
  chnenbl : Nat → BitVec 32
  chnpri : Nat → Int
  /-- Reads of a structure after `free`. -/
  destroyedReads : Nat

namespace Sdma

variable (s : Sdma)

def free (p : Nat) : Sdma := { s with heap := Function.update s.heap p none }

def munmap (addr : Nat) : Sdma := { s with maps := s.maps.erase addr }

def store (p : Nat) (c : SdmaChan) : Sdma := { s with heap := Function.update s.heap p (some c) }

/-- `chan_ptr->ch_num`, with what `free` left of it in a destroyed structure; `none` for the null
pointer. -/
def readChNum (p stale : Nat) : Option (Nat × Sdma) :=
  if p = 0 then none
  else match s.heap p with
    | some c => some (c.chNum, s)
    | none => some (stale, { s with destroyedReads := s.destroyedReads + 1 })

/-- `rsrcdbmgr_detach` for the one channel. -/
def rsrcdbmgrDetach (chNum : Nat) : Sdma :=
  { s with reserved := Function.update s.reserved chNum false }

/-! ## `irq.c` -/

def sdmairqEventAdd (channel event : Nat) : Sdma :=
  { s with
    channelMask := s.channelMask ||| bit channel
    eventArray := Function.update s.eventArray channel event }

def sdmairqEventRemove (channel : Nat) : Sdma :=
  { s with
    channelMask := s.channelMask &&& ~~~bit channel
    eventArray := Function.update s.eventArray channel 0 }

def sdmairqCallbackAdd (channel : Nat) : Sdma :=
  { s with callbackArray := Function.update s.callbackArray channel true }

def sdmairqCallbackRemove (channel : Nat) : Sdma :=
  { s with callbackArray := Function.update s.callbackArray channel false }

end Sdma

/-! ## Creating and destroying a channel -/

/-- The answers of the kernel and of the library functions to one attach. `channel` is the channel
of the resource database, `loaded` tells that the command channel answered in time, and `stale` is
what `free` leaves at `ch_num`. -/
structure AttachEnv where
  channel : Option Nat
  calloc : Option Nat
  bdMap : Option Nat
  bdPaddr : Option Nat
  ctxMap : Option Nat
  ctxPaddr : Option Nat
  strdup : Bool
  scriptAddr : Nat → Nat
  sdramBase : Nat
  cmdEvent : Nat
  loaded : Bool
  stale : Nat

/-- `chan_create`; the null pointer is `none`. -/
def Sdma.chanCreate (s : Sdma) (env : AttachEnv) (chNum : Nat) : Option Nat × Sdma :=
  match env.calloc with
  | none => (none, s)
  | some p =>
    let s := s.store p .zero
    match env.bdMap with
    | none => (none, s.free p)
    | some bd =>
      let s := { s.store p { SdmaChan.zero with bdPtr := bd } with maps := bd :: s.maps }
      match env.bdPaddr with
      | none => (none, (s.munmap bd).free p)
      | some paddr =>
        let s := { s with ccb := Function.update s.ccb chNum (paddr % 2 ^ 32) }
        match env.ctxMap with
        | none => (none, (s.munmap bd).free p)
        | some ctx =>
          let s := { s.store p { SdmaChan.zero with bdPtr := bd, ctxPtr := ctx } with
            maps := ctx :: s.maps }
          match env.ctxPaddr with
          | none => (none, ((s.munmap ctx).munmap bd).free p)
          | some paddr =>
            (some p,
              { s.store p
                  { SdmaChan.zero with bdPtr := bd, ctxPtr := ctx, ctxPaddr := paddr % 2 ^ 32 } with
                chanPtrList := Function.update s.chanPtrList chNum p })

/-- `chan_destroy` of a structure that is there. -/
def Sdma.chanDestroy (s : Sdma) (p : Nat) (c : SdmaChan) : Sdma :=
  ((({ s with chanPtrList := Function.update s.chanPtrList c.chNum 0 }).munmap c.ctxPtr).munmap
    c.bdPtr).free p

/-- A suboption as `getsubopt` cuts it, its value read by `strtoul`. -/
structure SubOpt where
  name : String
  value : Nat

/-- One turn of the loop of `parse_channel_options`. -/
def SdmaChan.parseOption (c : SdmaChan) (o : SubOpt) : Option SdmaChan :=
  match o.name with
  | "eventnum" => some { c with eventnum := o.value, isEventDriven := true }
  | "watermark" => some { c with watermark := o.value }
  | "fifopaddr" => some { c with fifoPaddr := o.value }
  | "regen" => some { c with regenDescr := true }
  | "contloop" => some { c with contDescrLoop := true }
  | _ => none

/-- The loop; with it the structure as far as it got. -/
def SdmaChan.parseChannelOptions (c : SdmaChan) : List SubOpt → Bool × SdmaChan
  | [] => (true, c)
  | o :: rest =>
    match c.parseOption o with
    | none => (false, c)
    | some c => c.parseChannelOptions rest

/-! ## The command channel -/

def SdmaChan.sdmacmdCtxConfig (c : SdmaChan) (env : AttachEnv) : SdmaChan :=
  if c.chType = SDMA_CHTYPE_AP_2_AP then
    { c with
      ctx := { c.ctx with pc := env.scriptAddr SDMA_CHTYPE_AP_2_AP, gReg7 := env.sdramBase } }
  else
    { c with
      ctx :=
        { pc := env.scriptAddr c.chType
          gReg0 := if c.eventnum ≥ 32 then bit (c.eventnum - 32) else 0
          gReg1 := if c.eventnum ≥ 32 then 0 else bit c.eventnum
          gReg6 := c.fifoPaddr
          gReg7 := c.watermark } }

/-- `sdmacmd_ctx_load`, which borrows the event of the command channel. -/
def Sdma.sdmacmdCtxLoad (s : Sdma) (env : AttachEnv) (c : SdmaChan) : Bool × Sdma :=
  let s := s.sdmairqEventAdd SDMA_CMD_CH env.cmdEvent
  let s := { s with cmdBd := (c.chNum, c.ctxPaddr) }
  (env.loaded, s.sdmairqEventRemove SDMA_CMD_CH)

/-! ## Attach and release -/

/-- The arguments of `sdma_channel_attach`; `chType` is `*channel`. -/
structure AttachArgs where
  optstring : Option (List SubOpt)
  event : Nat
  chType : Nat
  prio : Int
  flags : BitVec 32

/-- How `sdma_channel_attach` ends: a read through the null pointer, the null handle, or a
handle. -/
inductive Attached
  | fault
  | failed (s : Sdma)
  | handle (p : Nat) (s : Sdma)

/-- `prio` within the limits. -/
def AttachArgs.priority (args : AttachArgs) : Int :=
  if args.flags &&& DMA_ATTACH_PRIORITY_HIGHEST ≠ 0 ∨ args.prio > SDMA_CH_PRIO_HI then
    SDMA_CH_PRIO_HI
  else if args.prio < SDMA_CH_PRIO_LO then SDMA_CH_PRIO_LO
  else args.prio

/-- The structure after `chan_create` and the three assignments. -/
def AttachArgs.initChan (args : AttachArgs) (c : SdmaChan) (chNum : Nat) : SdmaChan :=
  { c with chNum := chNum, attachFlags := args.flags, chType := args.chType }

/-- From `fail2` on: the channel to give back is read from the structure. -/
def Sdma.attachFail2 (s : Sdma) (p stale : Nat) : Attached :=
  match s.readChNum p stale with
  | none => .fault
  | some (chNum, s) => .failed (s.rsrcdbmgrDetach chNum)

/-- `fail3` -/
def Sdma.attachFail3 (s : Sdma) (p : Nat) (c : SdmaChan) (stale : Nat) : Attached :=
  (s.chanDestroy p c).attachFail2 p stale

/-- The registers and the handlers of a channel whose context is loaded. -/
def Sdma.attachSetup (s : Sdma) (args : AttachArgs) (c : SdmaChan) : Sdma :=
  let s := { s with
    config := if s.config &&& CONFIG_CSM_MSK = CONFIG_CSM_STATIC then
        (s.config &&& ~~~CONFIG_CSM_MSK) ||| CONFIG_CSM_DYNAMIC else s.config
    chnpri := Function.update s.chnpri c.chNum args.priority }
  let s := if c.isEventDriven then
      { s with
        evtovr := s.evtovr &&& ~~~bit c.chNum
        chnenbl := Function.update s.chnenbl c.eventnum (s.chnenbl c.eventnum ||| bit c.chNum) }
    else s
  let s := s.sdmairqEventAdd c.chNum args.event
  if c.regenDescr then s.sdmairqCallbackAdd c.chNum else s

def Sdma.sdmaChannelAttach (s : Sdma) (env : AttachEnv) (args : AttachArgs) : Attached :=
  match env.channel with
  | none => .failed s
  | some chNum =>
    let s := { s with
      reserved := Function.update s.reserved chNum true
      intr := s.intr &&& ~~~bit chNum }
    match s.chanCreate env chNum with
    | (none, s) => s.attachFail2 0 env.stale
    | (some p, s) =>
      let c := args.initChan ((s.heap p).getD .zero) chNum
      let s := { s with strings := s.strings + if args.optstring.isSome ∧ env.strdup then 1 else 0 }
      match c.parseChannelOptions (if env.strdup then args.optstring.getD [] else []) with
      | (false, c) => (s.store p c).attachFail3 p c env.stale
      | (true, c) =>
        let c := c.sdmacmdCtxConfig env
        match (s.store p c).sdmacmdCtxLoad env c with
        | (false, s) => s.attachFail3 p c env.stale
        | (true, s) => .handle p (s.attachSetup args c)

/-- What `sdma_channel_release` does before it destroys the structure. -/
def Sdma.releaseSetup (s : Sdma) (c : SdmaChan) : Sdma :=
  let s := { s with
    intr := s.intr &&& ~~~bit c.chNum
    evtovr := s.evtovr ||| bit c.chNum
    hostovr := s.hostovr &&& ~~~bit c.chNum
    chnenbl := Function.update s.chnenbl c.eventnum (s.chnenbl c.eventnum &&& ~~~bit c.chNum) }
  let s := if c.regenDescr then s.sdmairqCallbackRemove c.chNum else s
  s.sdmairqEventRemove c.chNum

/-- `sdma_channel_release`; `none` for a handle without a structure behind it. -/
def Sdma.sdmaChannelRelease (s : Sdma) (p stale : Nat) : Option Sdma :=
  match s.heap p with
  | none => none
  | some c =>
    match ((s.releaseSetup c).chanDestroy p c).readChNum p stale with
    | none => none
    | some (chNum, s) => some (s.rsrcdbmgrDetach chNum)

end Mx6xBsp.Dma
