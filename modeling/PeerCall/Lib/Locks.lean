import Mathlib

/-!
# Lib.Locks — a table of locks and the threads that hold them

`owner t` is the thread that the lock `t` records, `held a` the lock of the table that the thread `a` holds by the
place where it is.  A thread holds at most one lock of a table; threads that use several locks have several tables.
-/

namespace PeerCall.Lib

variable {κ ι : Type*}

/-- The locks record the threads that hold them. -/
def Agree (owner : κ → Option ι) (held : ι → Option κ) : Prop := ∀ t a, owner t = some a ↔ held a = some t

namespace Agree

variable {owner : κ → Option ι} {held : ι → Option κ}

theorem unlocked : Agree (fun _ : κ => (none : Option ι)) (fun _ : ι => none) := fun t a => by simp

/-- Two holders of a lock are one. -/
theorem unique (h : Agree owner held) {t : κ} {a b : ι} (ha : held a = some t) (hb : held b = some t) : a = b := by
  rw [← h] at ha hb
  exact Option.some.inj (ha.symm.trans hb)

/-- Nobody holds a free lock. -/
theorem ne_of_free (h : Agree owner held) {t : κ} (ht : owner t = none) (a : ι) : held a ≠ some t := by
  rw [Ne, ← h, ht]
  simp

variable [DecidableEq κ] [DecidableEq ι]

/-- A thread that holds none takes a free lock. -/
theorem acquire (h : Agree owner held) {t : κ} {n : ι} (ht : owner t = none) (hn : held n = none) :
    Agree (Function.update owner t (some n)) (Function.update held n (some t)) := by
  intro t' a
  by_cases hta : t' = t
  · by_cases han : a = n
    · simp [hta, han]
    · have hne := h.ne_of_free ht a
      have han' : ¬ n = a := fun e => han e.symm
      simp [hta, han, han', hne]
  · by_cases han : a = n
    · have hne : owner t' ≠ some n := by
        rw [Ne, h, hn]
        simp
      have hta' : ¬ t = t' := fun e => hta e.symm
      simp [hta, hta', han, hne]
    · simp [hta, han, h t' a]

/-- The holder gives its lock back. -/
theorem release (h : Agree owner held) {t : κ} {n : ι} (hn : held n = some t) :
    Agree (Function.update owner t none) (Function.update held n none) := by
  intro t' a
  by_cases hta : t' = t
  · by_cases han : a = n
    · simp [hta, han]
    · have hne : held a ≠ some t := fun e => han (h.unique e hn)
      simp [hta, han, hne]
  · by_cases han : a = n
    · have hne : owner t' ≠ some n := by
        rw [Ne, h, hn]
        exact fun e => hta (Option.some.inj e).symm
      simp [hta, han, hne]
    · simp [hta, han, h t' a]

omit [DecidableEq κ] in
/-- A thread goes on and holds what it held. -/
theorem keep (h : Agree owner held) {n : ι} {o : Option κ} (hn : o = held n) :
    Agree owner (Function.update held n o) := by
  rw [hn, Function.update_eq_self]
  exact h

end Agree

end PeerCall.Lib
