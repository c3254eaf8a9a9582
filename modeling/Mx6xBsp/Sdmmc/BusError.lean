import Mathlib.Logic.Function.Basic
import Mx6xBsp.Lib.Descent

/-!
# Bus errors of the SD/MMC driver

After a few bus errors `sd_bus_error` or `mmc_bus_error` takes something away from
what the card can do, and initialises the bus anew. What the commands to the card
come to is in `SdEnv` and `MmcEnv`.
-/

namespace Mx6xBsp.Sdmmc

open Descent

def DTR_MAX_SDR104 : Nat := 208000000
def DTR_MAX_SDR50 : Nat := 100000000
def DTR_MAX_DDR50 : Nat := 50000000
def DTR_MAX_SDR25 : Nat := 50000000
def DTR_MAX_SDR12 : Nat := 25000000
def DTR_MAX_HS52 : Nat := 52000000
def DTR_MAX_HS26 : Nat := 26000000
def DTR_MIN_LS : Nat := 100000
def DTR_HS_DEC : Nat := 5000000
def DTR_LS_DEC : Nat := 50000

inductive Timing
  | ls | hs | ddr50 | sdr12 | sdr25 | sdr50 | sdr104 | hs200 | hs400
  deriving DecidableEq

/-- The modes in the order in which they are given up. -/
def Timing.level : Timing → Nat
  | .ls => 0
  | .hs => 1
  | .sdr12 => 2
  | .sdr25 => 3
  | .sdr50 => 4
  | .ddr50 => 5
  | .sdr104 => 6
  | .hs200 => 7
  | .hs400 => 8

/-- The host controller, as far as it sets the clock. -/
structure Hc where
  clkMin : Nat
  clkMax : Nat
  clkInit : Nat
  clk : Nat
  timing : Timing

def sdioClock (hc : Hc) (clk : Nat) : Hc :=
  if clk < hc.clkMin then hc else { hc with clk := min clk hc.clkMax }

def sdioTiming (hc : Hc) (timing : Timing) : Hc := { hc with timing := timing }

/-- `a - b` in 32 bits -/
def sub32 (a b : Nat) : Nat := if b ≤ a then a - b else a + 2 ^ 32 - b

/-! ## SD -/

inductive UhsMode
  | sdr12 | sdr25 | sdr50 | sdr104 | ddr50
  deriving DecidableEq

def UhsMode.timing : UhsMode → Timing
  | .sdr12 => .sdr12
  | .sdr25 => .sdr25
  | .sdr50 => .sdr50
  | .sdr104 => .sdr104
  | .ddr50 => .ddr50

def UhsMode.dtr : UhsMode → Nat
  | .sdr12 => DTR_MAX_SDR12
  | .sdr25 => DTR_MAX_SDR25
  | .sdr50 => DTR_MAX_SDR50
  | .sdr104 => DTR_MAX_SDR104
  | .ddr50 => DTR_MAX_DDR50

/-- An SD card and its host. `hostUhs` is `HC_CAP_UHS(hc->caps)`, `bw4` that both have a bus of four
bits, `volt18` that the signal voltage is 1.8 V; `capHs` is `DEV_CAP_HS`, and `uhs` and `hs` are the
flags `DEV_FLAG_UHS` and `DEV_FLAG_HS`. -/
structure SdBus where
  hc : Hc
  hostUhs : UhsMode → Bool
  bw4 : Bool
  volt18 : Bool
  busMode : UhsMode → Bool
  capHs : Bool
  dtrMaxHs : Nat
  dtrMax : Nat
  uhs : Bool
  hs : Bool

/-- Whether the commands that set the bus width, a UHS mode and high speed are carried out, and
whether a card is identified again after a reset. -/
structure SdEnv where
  width : Bool
  uhs : Bool
  hs : Bool
  reset : Bool

def sdSelectBusMode (hostUhs busMode : UhsMode → Bool) : UhsMode :=
  if hostUhs .sdr104 && busMode .sdr104 then .sdr104
  else if hostUhs .ddr50 && busMode .ddr50 then .ddr50
  else if hostUhs .sdr50 && busMode .sdr50 then .sdr50
  else if hostUhs .sdr25 && busMode .sdr25 then .sdr25
  else .sdr12

/-- `sd_init_uhs`; a tuning failure is only logged. -/
def sdInitUhs (env : SdEnv) (s : SdBus) : Option SdBus :=
  if s.bw4 && env.width && env.uhs then
    let mode := sdSelectBusMode s.hostUhs s.busMode
    some
      { s with
        hc := sdioClock (sdioTiming s.hc mode.timing) mode.dtr
        uhs := true }
  else none

def sdInitBus (env : SdEnv) (s : SdBus) : SdBus :=
  if s.volt18 then
    match sdInitUhs env s with
    | some s => s
    | none => { s with hostUhs := fun mode => mode == .ddr50 && s.hostUhs .ddr50 }
  else if s.capHs && !env.hs then s
  else
    let dtr := if s.capHs then s.dtrMaxHs else s.dtrMax
    let timing := if s.capHs then .hs else .ls
    let s := { s with hs := s.capHs || s.hs }
    if s.bw4 && !env.width then s
    else { s with hc := sdioClock (sdioTiming s.hc timing) dtr }

/-- `_sdio_reset` of a card that reports no UHS mode: it comes back at 3.3 V. -/
def sdReset (env : SdEnv) (s : SdBus) : SdBus :=
  let s := { s with hc := sdioTiming (sdioClock s.hc s.hc.clkInit) .ls, volt18 := false }
  if env.reset then sdInitBus env s else s

def noMode (busMode : UhsMode → Bool) : Bool :=
  !busMode .sdr12 && !busMode .sdr25 && !busMode .sdr50 && !busMode .sdr104 && !busMode .ddr50

def sdBusError (env : SdEnv) (s : SdBus) : SdBus :=
  if s.uhs then
    let s' := { s with
      uhs := false
      busMode := Function.update s.busMode (sdSelectBusMode s.hostUhs s.busMode) false }
    if noMode s'.busMode then sdReset env s' else sdInitBus env s'
  else if s.hs then
    if s.dtrMaxHs = DTR_MAX_HS26 then sdInitBus env { s with hs := false, capHs := false }
    else
      sdInitBus env
        { s with hs := false, dtrMaxHs := max DTR_MAX_HS26 (sub32 s.dtrMaxHs DTR_HS_DEC) }
  else sdInitBus env { s with dtrMax := max DTR_MIN_LS (sub32 s.dtrMax DTR_LS_DEC) }

/-! ## MMC -/

/-- An MMC and its host. `width` is the bus width of the host, `cap` and `flag` are the capabilities
and flags of the card for `hs400`, `hs200`, `hs` and `ddr50`. -/
structure MmcModes where
  hs400 : Bool
  hs200 : Bool
  hs : Bool
  ddr50 : Bool
  deriving DecidableEq

structure MmcBus where
  hc : Hc
  width : Nat
  cap : MmcModes
  flag : MmcModes
  dtrMaxHs : Nat
  dtrMax : Nat

/-- How far the switch to HS200 gets: before the clock is set, up to the tuning, or through. -/
inductive Hs200Result
  | switch | tune | ok
  deriving DecidableEq

/-- The switch to HS400: it fails in its HS200 part, with the clock lowered for the switch or at the
last timing, or gets through. -/
inductive Hs400Result
  | hs200 (result : Hs200Result)
  | lowered
  | timing
  | ok
  deriving DecidableEq

structure MmcEnv where
  hs400 : Hs400Result
  hs200 : Hs200Result
  hs : Bool
  ddr50 : Bool

/-- `_mmc_init_hs200` -/
def mmcInitHs200Bus (result : Hs200Result) (s : MmcBus) : MmcBus :=
  match result with
  | .switch => s
  | .tune => { s with hc := sdioClock (sdioTiming s.hc .hs200) s.dtrMaxHs }
  | .ok => { s with hc := sdioClock (sdioTiming s.hc .hs200) s.dtrMaxHs }

def mmcInitHs200 (env : MmcEnv) (s : MmcBus) : MmcBus :=
  let s := mmcInitHs200Bus env.hs200 s
  { s with flag := { s.flag with hs200 := s.flag.hs200 || env.hs200 == .ok } }

/-- The clock lowered for the switch from HS200 to HS400. -/
def mmcLowered (s : MmcBus) : Hc :=
  sdioClock (sdioTiming (mmcInitHs200Bus .ok s).hc .ls) s.dtrMax

def mmcInitHs400 (env : MmcEnv) (s : MmcBus) : MmcBus :=
  match env.hs400 with
  | .hs200 result => mmcInitHs200Bus result s
  | .lowered => { s with hc := mmcLowered s }
  | .timing => { s with hc := sdioClock (mmcLowered s) s.dtrMaxHs }
  | .ok =>
    { s with
      hc := sdioTiming (sdioClock (mmcLowered s) s.dtrMaxHs) .hs400
      flag := { s.flag with hs400 := true } }

def mmcInitHs (env : MmcEnv) (s : MmcBus) : MmcBus :=
  let s := { s with dtrMaxHs := min s.dtrMaxHs DTR_MAX_HS52 }
  if env.hs then
    { s with
      hc := sdioClock (sdioTiming s.hc .hs) s.dtrMaxHs
      flag := { s.flag with hs := true } }
  else s

def mmcInitDdr (env : MmcEnv) (s : MmcBus) : MmcBus :=
  if env.ddr50 then
    { s with hc := sdioTiming s.hc .ddr50, flag := { s.flag with ddr50 := true } }
  else s

/-! `mmc_init_bus`, one `if` after the other. -/

def mmcTry400 (env : MmcEnv) (s : MmcBus) : MmcBus :=
  if s.cap.hs400 && decide (DTR_MAX_HS52 < s.dtrMaxHs) && decide (8 ≤ s.width) then
    mmcInitHs400 env s
  else s

def mmcTry200 (env : MmcEnv) (s : MmcBus) : MmcBus :=
  if !s.flag.hs400 && s.cap.hs200 && decide (DTR_MAX_HS52 < s.dtrMaxHs) &&
      decide (4 ≤ s.width) then
    mmcInitHs200 env s
  else s

def mmcTryHs (env : MmcEnv) (s : MmcBus) : MmcBus :=
  if !(s.flag.hs200 || s.flag.hs400) && s.cap.hs then mmcInitHs env s else s

/-- The bus width without DDR changes neither mode nor clock. -/
def mmcTryDdr (env : MmcEnv) (s : MmcBus) : MmcBus :=
  if s.flag.hs && decide (4 ≤ s.width) && s.cap.ddr50 then mmcInitDdr env s else s

def mmcLegacy (s : MmcBus) : MmcBus :=
  if !(s.flag.hs400 || s.flag.hs200 || s.flag.hs) then
    { s with hc := sdioClock (sdioTiming s.hc .ls) s.dtrMax }
  else s

def mmcInitBus (env : MmcEnv) (s : MmcBus) : MmcBus :=
  mmcLegacy (mmcTryDdr env (mmcTryHs env (mmcTry200 env (mmcTry400 env s))))

def mmcBusError (env : MmcEnv) (s : MmcBus) : MmcBus :=
  if s.flag.hs400 then
    mmcInitBus env
      { s with cap := { s.cap with hs400 := false }, flag := { s.flag with hs400 := false } }
  else if s.flag.hs200 then
    mmcInitBus env
      { s with
        cap := { s.cap with hs200 := false }
        flag := { s.flag with hs200 := false }
        dtrMaxHs := DTR_MAX_HS52 }
  else if s.flag.ddr50 then
    mmcInitBus env
      { s with cap := { s.cap with ddr50 := false }, flag := { s.flag with ddr50 := false } }
  else if s.flag.hs then
    if s.dtrMaxHs = DTR_MAX_HS26 then
      mmcInitBus env { s with flag := { s.flag with hs := false } }
    else
      mmcInitBus env
        { s with
          flag := { s.flag with hs := false }
          dtrMaxHs := max DTR_MAX_HS26 (sub32 s.dtrMaxHs DTR_HS_DEC) }
  else mmcInitBus env { s with dtrMax := max DTR_MIN_LS (sub32 s.dtrMax DTR_LS_DEC) }

/-! ## Both -/

inductive Bus
  | sd (s : SdBus)
  | mmc (s : MmcBus)

structure BusEnv where
  sd : SdEnv
  mmc : MmcEnv

/-- `_sdio_bus_error`, once there were errors enough -/
def sdioBusError (s : Bus) (env : BusEnv) : Bus :=
  match s with
  | .sd s => .sd (sdBusError env.sd s)
  | .mmc s => .mmc (mmcBusError env.mmc s)

def Bus.hc : Bus → Hc
  | .sd s => s.hc
  | .mmc s => s.hc

/-- At the legacy clock, with nothing below that the card or the host takes. -/
def SdBus.AtFloor (s : SdBus) : Prop :=
  s.uhs = false ∧ s.hs = false ∧ s.hc.timing = .ls ∧
    (s.dtrMax = DTR_MIN_LS ∨ s.dtrMax < s.hc.clkMin + DTR_LS_DEC)

def MmcBus.AtFloor (s : MmcBus) : Prop :=
  s.flag = ⟨false, false, false, false⟩ ∧ s.hc.timing = .ls ∧
    (s.dtrMax = DTR_MIN_LS ∨ s.dtrMax < s.hc.clkMin + DTR_LS_DEC)

/-- The bus, its mode and clock as the setting. -/
def busSystem : System Bus BusEnv where
  next := sdioBusError
  setting s := ⟨s.hc.timing.level, s.hc.clk⟩
  AtFloor
    | .sd s => s.AtFloor
    | .mmc s => s.AtFloor

end Mx6xBsp.Sdmmc
