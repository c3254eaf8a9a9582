import Mathlib.Data.List.Basic
import Mathlib.Tactic.TypeStar

/-!
# Commands sent until one fails

A program that sends commands to a device one after the other, and gives up at the
first that fails, is a `Plan`: the commands it sends if none fails, and how it ends
then. What the device has carried out when a command fails is a prefix
(`Plan.carried`), so a property that prefixes inherit holds however the run goes
when it holds of the whole plan (`Plan.safe_iff`).
-/

namespace Plans

/-- The commands of a run in which none fails, and its result: `none` is a crash. -/
structure Plan (κ ε : Type*) where
  cmds : List κ
  result : Option (Except ε Unit)

variable {κ ε σ : Type*}

namespace Plan

def done : Plan κ ε := ⟨[], some (.ok ())⟩

def reject (e : ε) : Plan κ ε := ⟨[], some (.error e)⟩

def crash : Plan κ ε := ⟨[], none⟩

def send (c : κ) : Plan κ ε := ⟨[c], some (.ok ())⟩

/-- What follows is not reached after an error or a crash. -/
def andThen (p q : Plan κ ε) : Plan κ ε :=
  match p.result with
  | some (.ok _) => ⟨p.cmds ++ q.cmds, q.result⟩
  | _ => p

/-- One command for each element of a list. -/
def sendAll (cs : List κ) : Plan κ ε := ⟨cs, some (.ok ())⟩

/-- What the device has carried out when the command with the number `fails` fails. -/
def carried (p : Plan κ ε) (fails : Option Nat) : List κ :=
  match fails with
  | none => p.cmds
  | some k => p.cmds.take k

/-- The run gets to the crash. -/
def Crashes (p : Plan κ ε) (fails : Option Nat) : Prop :=
  p.result = none ∧ ∀ k, fails = some k → p.cmds.length ≤ k

/-- However the run goes, it does not crash, and `P` holds of what the device has carried out. -/
def Safe (P : List κ → Prop) (p : Plan κ ε) : Prop :=
  ∀ fails, ¬p.Crashes fails ∧ P (p.carried fails)

theorem safe_iff {P : List κ → Prop} {p : Plan κ ε}
    (shorter : ∀ cmds k, P cmds → P (cmds.take k)) :
    p.Safe P ↔ p.result ≠ none ∧ P p.cmds := by
  constructor
  · intro safe
    obtain ⟨noCrash, holds⟩ := safe none
    exact ⟨fun crash => noCrash ⟨crash, nofun⟩, holds⟩
  · intro ⟨result, holds⟩ fails
    refine ⟨fun crashes => result crashes.1, ?_⟩
    cases fails with
    | none => exact holds
    | some k => exact shorter p.cmds k holds

@[simp] theorem done_andThen (q : Plan κ ε) : done.andThen q = q := rfl

@[simp] theorem reject_andThen (e : ε) (q : Plan κ ε) : (reject e).andThen q = reject e := rfl

@[simp] theorem crash_andThen (q : Plan κ ε) : crash.andThen q = crash := rfl

@[simp] theorem send_andThen (c : κ) (q : Plan κ ε) :
    (send c).andThen q = ⟨c :: q.cmds, q.result⟩ := rfl

theorem andThen_of_ok {p : Plan κ ε} (ok : p.result = some (.ok ())) (q : Plan κ ε) :
    p.andThen q = ⟨p.cmds ++ q.cmds, q.result⟩ := by
  unfold andThen
  rw [ok]

end Plan

end Plans
