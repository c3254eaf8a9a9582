import Mathlib.Data.Option.Basic
import Mathlib.Logic.Function.Basic

/-!
# Handing buffers to an engine and back

An engine fills buffers that its owner lends it; the owner delivers what came in
before it lends a buffer again. A log of lendings, fillings and deliveries is
`Accepted` if every filling is delivered as it is, once, before its buffer is
lent or filled again, and nothing else is delivered.
-/

namespace Handover

/-- What happens to the buffers `ι`: one is lent to the engine, filled with data by it, or what it
holds is delivered. -/
inductive Act (ι δ : Type)
  | lent (i : ι)
  | filled (i : ι) (d : δ)
  | delivered (i : ι) (d : δ)

variable {ι δ : Type} [DecidableEq ι] [DecidableEq δ]

/-- The data each buffer holds that are not delivered yet. -/
abbrev Held (ι δ : Type) := ι → Option δ

/-- One act; `none` if it breaks the order. -/
def Held.act (h : Held ι δ) : Act ι δ → Option (Held ι δ)
  | .lent i => if (h i).isNone then some h else none
  | .filled i d => if (h i).isNone then some (Function.update h i (some d)) else none
  | .delivered i d => if h i = some d then some (Function.update h i none) else none

/-- What is held after a log, the latest act first. -/
def held : List (Act ι δ) → Option (Held ι δ)
  | [] => some fun _ => none
  | a :: log => (held log).bind (·.act a)

def Accepted (log : List (Act ι δ)) : Prop := (held log).isSome

instance (log : List (Act ι δ)) : Decidable (Accepted log) :=
  inferInstanceAs (Decidable ((held log).isSome = true))

variable {log : List (Act ι δ)} {h : Held ι δ} {i : ι} {d : δ}

theorem Accepted.of_held (after : held log = some h) : Accepted log := by
  unfold Accepted
  rw [after]
  rfl

theorem held_lent (after : held log = some h) (free : h i = none) :
    held (.lent i :: log) = some h := by
  unfold held
  rw [after]
  exact if_pos (by rw [free]; rfl)

theorem held_filled (after : held log = some h) (free : h i = none) :
    held (.filled i d :: log) = some (Function.update h i (some d)) := by
  unfold held
  rw [after]
  exact if_pos (by rw [free]; rfl)

theorem held_delivered (after : held log = some h) (full : h i = some d) :
    held (.delivered i d :: log) = some (Function.update h i none) := by
  unfold held
  rw [after]
  exact if_pos full

end Handover
