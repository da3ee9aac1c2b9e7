import Mathlib.Data.List.Basic

/-!
# Lib.Latest — a place for the latest value

One side puts values into it, each over the one before; the other side takes the value out unless it has had it.

* `Handed`: **what is taken out was put in, in that order and each once, and the last one is never missed**.
-/

namespace PeerCall.Lib

variable {α : Type*}

/-- `made` has been put in, `taken` has been taken out, `latest` is there, and it is new if `dirty`. -/
structure Handed (made taken : List α) (latest : α) (dirty : Bool) : Prop where
  order : taken.Sublist made
  last : dirty = false → taken.getLast? = made.getLast?
  fresh : dirty = true → ∃ m, made = m ++ [latest] ∧ taken.Sublist m

namespace Handed

variable {made taken : List α} {latest : α} {dirty : Bool}

/-- Nothing has been put in. -/
theorem start (latest : α) : Handed [] [] latest false :=
  ⟨.refl [], fun _ => rfl, fun h => by cases h⟩

theorem put (h : Handed made taken latest dirty) (a : α) : Handed (made ++ [a]) taken a true :=
  ⟨h.order.trans (List.sublist_append_left made [a]), fun hd => (by cases hd), fun _ => ⟨made, rfl, h.order⟩⟩

theorem take (h : Handed made taken latest true) : Handed made (taken ++ [latest]) latest false := by
  obtain ⟨m, rfl, hm⟩ := h.fresh rfl
  refine ⟨hm.append (.refl [latest]), fun _ => ?_, fun hd => (by cases hd)⟩
  simp

end Handed

end PeerCall.Lib
