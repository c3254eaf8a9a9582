import Mathlib.Tactic.TypeStar

/-!
# Parts of a mapping

A loop that maps a range, for one owner after the other and item by item, goes through
states in which the range is mapped in part. `Part scope range value done f f'`: from `f`
to `f'` the items that `done` tells have got their value, and the other ones have kept what
they had or have got it too. Parts follow each other (`Part.trans`).
-/

namespace Mappings

variable {κ α β : Type*}

structure Part (scope : κ → α → Prop) (range : α → Prop) (value : α → β) (done : κ → α → Prop)
    (f f' : κ → α → Option β) : Prop where
  outside : ∀ c x, scope c x → ¬range x → f' c x = f c x
  inside : ∀ c x, scope c x → range x → f' c x = f c x ∨ f' c x = some (value x)
  mapped : ∀ c x, scope c x → range x → done c x → f' c x = some (value x)

namespace Part

variable {scope done more : κ → α → Prop} {range : α → Prop} {value : α → β}
  {f g h : κ → α → Option β}

theorem same (unchanged : ∀ c x, scope c x → g c x = f c x) :
    Part scope range value (fun _ _ => False) f g :=
  ⟨fun c x here _ => unchanged c x here, fun c x here _ => .inl (unchanged c x here),
    fun _ _ _ _ => False.elim⟩

theorem trans (left : Part scope range value done f g) (right : Part scope range value more g h) :
    Part scope range value (fun c x => done c x ∨ more c x) f h := by
  refine ⟨fun c x here away => ?_, fun c x here into => ?_, fun c x here into which => ?_⟩
  · exact (right.outside c x here away).trans (left.outside c x here away)
  · rcases right.inside c x here into with kept | new
    · rw [kept]
      exact left.inside c x here into
    · exact .inr new
  · rcases which with old | new
    · rcases right.inside c x here into with kept | new
      · exact kept.trans (left.mapped c x here into old)
      · exact new
    · exact right.mapped c x here into new

theorem mono (part : Part scope range value done f g)
    (less : ∀ c x, scope c x → range x → more c x → done c x) :
    Part scope range value more f g :=
  ⟨part.outside, part.inside, fun c x here into which =>
    part.mapped c x here into (less c x here into which)⟩

/-- One item is mapped, for the owners that `shared` tells. -/
theorem single [DecidableEq α] {y : α} {shared : κ → Prop} [DecidablePred shared] (into : range y)
    (effect : ∀ c x, scope c x →
      g c x = if x = y ∧ shared c then some (value y) else f c x) :
    Part scope range value (fun c x => shared c ∧ x = y) f g := by
  refine ⟨fun c x here away => ?_, fun c x here _ => ?_, fun c x here _ which => ?_⟩
  · rw [effect c x here, if_neg]
    exact fun both => away (both.1 ▸ into)
  · rw [effect c x here]
    split
    · rename_i both
      exact .inr (congrArg (some ∘ value) both.1.symm)
    · exact .inl rfl
  · rw [effect c x here, if_pos ⟨which.2, which.1⟩, which.2]

end Part

end Mappings
