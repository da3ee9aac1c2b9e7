import PeerCall.Lib.Runs

/-!
# Lib.Simulation — a system that behaves like a simpler one

Both systems are step functions with a condition on their steps, as in `Lib.Runs`.  A relation between their states
simulates if every step of the first one is matched by steps of the second one, possibly none.

* `Simulates.run`: **every run has a run of the simpler system that matches it.**
* `Simulates.invariant`: what the simpler system keeps holds of the matching state.
-/

namespace PeerCall.Lib

variable {σ ι α κ : Type*}

/-- Steps that meet `ok` are matched by steps that meet `ok'`. -/
def Simulates (step : σ → ι → σ) (ok : σ → ι → Prop) (step' : α → κ → α) (ok' : α → κ → Prop)
    (R : σ → α → Prop) : Prop :=
  ∀ s a i, R s a → ok s i → ∃ js, Meets step' ok' a js ∧ R (step s i) (run step' a js)

namespace Simulates

variable {step : σ → ι → σ} {ok : σ → ι → Prop} {step' : α → κ → α} {ok' : α → κ → Prop} {R : σ → α → Prop}

/-- **Every run has a run of the simpler system that matches it.** -/
theorem run (h : Simulates step ok step' ok' R) {s : σ} {a : α} (hR : R s a) {l : List ι} (hl : Meets step ok s l) :
    ∃ js, Meets step' ok' a js ∧ R (Lib.run step s l) (Lib.run step' a js) := by
  induction l generalizing s a with
  | nil => exact ⟨[], trivial, hR⟩
  | cons i l ih =>
    obtain ⟨js, hjs, hR'⟩ := h s a i hR hl.1
    obtain ⟨js', hjs', hR''⟩ := ih hR' hl.2
    refine ⟨js ++ js', meets_append.mpr ⟨hjs, hjs'⟩, ?_⟩
    rw [run_append]
    exact hR''

/-- What the simpler system keeps holds of the matching state. -/
theorem invariant (h : Simulates step ok step' ok' R) {P : α → Prop} (hP : ∀ a j, P a → ok' a j → P (step' a j))
    {s : σ} {a : α} (hR : R s a) (ha : P a) {l : List ι} (hl : Meets step ok s l) :
    ∃ a', R (Lib.run step s l) a' ∧ P a' := by
  obtain ⟨js, hjs, hR'⟩ := h.run hR hl
  exact ⟨_, hR', run_invariant hP ha hjs⟩

end Simulates

end PeerCall.Lib
