import Mathlib

/-!
# Lib.Runs — runs of a deterministic step function, and conditions on their steps

A system is a step function `step : σ → ι → σ`: a step that is not enabled leaves the state alone, so
that every list of labels is a run and a statement over all lists is a statement over all
interleavings.  `Meets ok s l` says that every step of the run `l` from `s` satisfies the condition
`ok` in the state it is taken in.  The rules below turn one-step facts into facts about runs.
-/

namespace PeerCall.Lib

variable {σ ι : Type*}

/-- The state reached from `s` by the steps `l`. -/
def run (step : σ → ι → σ) (s : σ) (l : List ι) : σ := l.foldl step s

/-- Every step of the run `l` from `s` meets the condition `ok` in the state it is taken in. -/
def Meets (step : σ → ι → σ) (ok : σ → ι → Prop) : σ → List ι → Prop
  | _, [] => True
  | s, i :: l => ok s i ∧ Meets step ok (step s i) l

section Rules

variable {step : σ → ι → σ} {ok : σ → ι → Prop}

@[simp] theorem run_nil (s : σ) : run step s [] = s := rfl

@[simp] theorem run_cons (s : σ) (i : ι) (l : List ι) :
    run step s (i :: l) = run step (step s i) l := rfl

theorem run_append (s : σ) (l l' : List ι) :
    run step s (l ++ l') = run step (run step s l) l' := by
  simp [run, List.foldl_append]

theorem run_concat (s : σ) (l : List ι) (i : ι) :
    run step s (l ++ [i]) = step (run step s l) i := by
  simp [run_append]

@[simp] theorem meets_nil (s : σ) : Meets step ok s [] := trivial

@[simp] theorem meets_cons {s : σ} {i : ι} {l : List ι} :
    Meets step ok s (i :: l) ↔ ok s i ∧ Meets step ok (step s i) l := Iff.rfl

theorem meets_append {s : σ} {l l' : List ι} :
    Meets step ok s (l ++ l') ↔ Meets step ok s l ∧ Meets step ok (run step s l) l' := by
  induction l generalizing s with
  | nil => simp
  | cons i l ih => simp [ih, and_assoc]

theorem meets_and {ok' : σ → ι → Prop} {s : σ} {l : List ι} :
    Meets step (fun s i => ok s i ∧ ok' s i) s l ↔ Meets step ok s l ∧ Meets step ok' s l := by
  induction l generalizing s with
  | nil => simp
  | cons i l ih => simp only [meets_cons, ih, and_and_and_comm]

/-- A condition that does not look at the state. -/
theorem meets_of_forall {ok : ι → Prop} (s : σ) {l : List ι} (h : ∀ i ∈ l, ok i) :
    Meets step (fun _ => ok) s l := by
  induction l generalizing s with
  | nil => trivial
  | cons i l ih => exact ⟨h i List.mem_cons_self, ih _ fun j hj => h j (List.mem_cons_of_mem _ hj)⟩

instance decidableMeets [∀ s i, Decidable (ok s i)] :
    ∀ (s : σ) (l : List ι), Decidable (Meets step ok s l)
  | _, [] => inferInstanceAs (Decidable True)
  | s, i :: l =>
    have := decidableMeets (step s i) l
    inferInstanceAs (Decidable (ok s i ∧ Meets step ok (step s i) l))

/-- **Invariant rule**: what holds at the start and is kept by every step that meets the condition
holds at the end of every run whose steps meet it. -/
theorem run_invariant {P : σ → Prop} (hstep : ∀ s i, P s → ok s i → P (step s i)) {s : σ}
    (h0 : P s) {l : List ι} (hl : Meets step ok s l) : P (run step s l) := by
  induction l generalizing s with
  | nil => exact h0
  | cons i l ih => exact ih (hstep s i h0 hl.1) hl.2

/-- The invariant rule for an unconditional system. -/
theorem run_invariant' {P : σ → Prop} (hstep : ∀ s i, P s → P (step s i)) {s : σ} (h0 : P s) (l : List ι) :
    P (run step s l) := by
  induction l generalizing s with
  | nil => exact h0
  | cons i l ih => exact ih (hstep s i h0)

/-- **Variant rule**: where some step keeps `P` and makes `v` smaller as long as `Q` does not hold, some run gets
to `Q`. -/
theorem run_variant {P Q : σ → Prop} (v : σ → ℕ)
    (h : ∀ s, P s → ¬ Q s → ∃ i, P (step s i) ∧ v (step s i) < v s) {s : σ} (h0 : P s) :
    ∃ l, Q (run step s l) := by
  induction hn : v s using Nat.strong_induction_on generalizing s with
  | _ n ih =>
    by_cases hQ : Q s
    · exact ⟨[], hQ⟩
    · obtain ⟨i, hi, hlt⟩ := h s h0 hQ
      obtain ⟨l, hl⟩ := ih _ (hn ▸ hlt) hi rfl
      exact ⟨i :: l, hl⟩

/-- **Exact condition rule**: where a step keeps `P` exactly when it meets the condition, `P` holds all along
a run exactly when every step of it meets the condition.  The auxiliary invariant `I` only has to be kept by
the steps that meet it. -/
theorem always_iff_meets {I P : σ → Prop} (hI : ∀ s i, I s → P s → ok s i → I (step s i))
    (hP : ∀ s i, I s → P s → (P (step s i) ↔ ok s i)) {s : σ} (h0 : I s) (h0' : P s) {l : List ι} :
    (∀ l', l' <+: l → P (run step s l')) ↔ Meets step ok s l := by
  induction l generalizing s with
  | nil =>
    refine ⟨fun _ => trivial, fun _ l' hl' => ?_⟩
    rw [List.prefix_nil.mp hl']
    exact h0'
  | cons i l ih =>
    constructor
    · intro h
      have hi : P (step s i) := h [i] ⟨l, rfl⟩
      have hok : ok s i := (hP s i h0 h0').mp hi
      refine ⟨hok, (ih (hI s i h0 h0' hok) hi).mp fun l' hl' => ?_⟩
      exact h (i :: l') (List.cons_prefix_cons.mpr ⟨rfl, hl'⟩)
    · rintro ⟨hok, hl⟩ l' hl'
      have hi : P (step s i) := (hP s i h0 h0').mpr hok
      cases l' with
      | nil => exact h0'
      | cons j l' =>
        obtain ⟨rfl, hl''⟩ := List.cons_prefix_cons.mp hl'
        exact (ih (hI s j h0 h0' hok) hi).mpr hl l' hl''

/-- **History rule**: a property of (past, state) pairs that every step keeps holds after every run,
the past being the labels executed so far. -/
theorem run_history {P : List ι → σ → Prop} {s : σ} (h0 : P [] s)
    (hstep : ∀ l i, P l (run step s l) → P (l ++ [i]) (step (run step s l) i)) (l : List ι) :
    P l (run step s l) := by
  induction l using List.reverseRecOn with
  | nil => exact h0
  | append_singleton l i ih =>
    rw [run_concat]
    exact hstep l i ih

end Rules

end PeerCall.Lib
