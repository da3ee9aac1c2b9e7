import PeerCall.Call.Watchdog

/-!
# Call.WatchdogWaits — a callback of `IceDisconnectWatchdog` that waits for `mutex_`

`DisarmLocked` joins the watchdog thread with `mutex_` held, unless it is called on that thread.  A callback that calls
`Arm` or `Disarm` waits for `mutex_` until it has it, and its thread does not end as long as it waits.

* `call_returns_iff`: **a call that holds `mutex_` can return exactly if it does not join a thread that waits for it**.
* `always_returns_iff`: **when no call is ever stuck so**.
-/

namespace PeerCall.Watchdog

open PeerCall.Lib

/-- The watchdog, and the callbacks that have called it and wait for `mutex_`. -/
structure Contention where
  watchdog : IceDisconnectWatchdog := {}
  waits : ℕ → Bool := fun _ => false

/-- A step of the watchdog and its threads, or the callback of the thread `k` calls `Arm` or `Disarm`. -/
inductive Turn
  | go (i : Step)
  | ask (k : ℕ)
  deriving DecidableEq, Repr

namespace Contention

/-- The callback of the thread `k` calls the watchdog, unless it does so already. -/
def Asks (x : Contention) (k : ℕ) : Prop := (x.watchdog.thread k).phase = .running ∧ ¬ x.watchdog.calling k

instance (x : Contention) (k : ℕ) : Decidable (x.Asks k) := inferInstanceAs (Decidable (_ ∧ _))

/-- A callback has to wait before it locks, and cannot return while it waits. -/
def turn (x : Contention) : Turn → Contention
  | .ask k => if x.Asks k then { x with waits := Function.update x.waits k true } else x
  | .go (.lock (.callback k) call) =>
    if x.waits k ∧ x.watchdog.mutex = none then
      { watchdog := x.watchdog.step (.lock (.callback k) call), waits := Function.update x.waits k false }
    else x
  | .go (.finish k) => if x.waits k then x else { x with watchdog := x.watchdog.step (.finish k) }
  | .go i => { x with watchdog := x.watchdog.step i }

/-- The call has not got past its join. -/
def early : Progress → Bool
  | .entered | .numbered | .stopping _ => true
  | _ => false

/-- The call that holds `mutex_` is on its way to join the watchdog thread, or at it, and that one waits for
`mutex_`. -/
def Stuck (x : Contention) : Prop :=
  ∃ h ∈ x.watchdog.mutex, early h.progress = true ∧ ∃ k ∈ x.watchdog.watchdogThread, x.waits k = true ∧
    h.caller ≠ .callback k

instance (x : Contention) : Decidable x.Stuck := inferInstanceAs (Decidable (∃ h ∈ _, _ ∧ ∃ k ∈ _, _ ∧ _))

/-- The caller takes `mutex_`. -/
def Takes (x : Contention) : Caller → Prop
  | .outside _ => x.watchdog.mutex = none
  | .callback k => x.waits k = true ∧ x.watchdog.mutex = none

instance (x : Contention) : ∀ caller, Decidable (x.Takes caller)
  | .outside _ => inferInstanceAs (Decidable (_ = none))
  | .callback _ => inferInstanceAs (Decidable (_ ∧ _))

/-- Nobody else takes `mutex_` while the callback of the watchdog thread waits for it; and that callback does not call
while another call has yet to join its thread. -/
def Apart (x : Contention) : Turn → Prop
  | .ask k => x.Asks k → x.watchdog.watchdogThread = some k → ∀ h ∈ x.watchdog.mutex, early h.progress = true →
      h.caller = .callback k
  | .go (.lock caller _) => x.Takes caller → ∀ k ∈ x.watchdog.watchdogThread, x.waits k = true → caller = .callback k
  | _ => True

/-! ### Callbacks that wait -/

/-- A callback that waits is running, and only an `Arm` gets as far as a thread of its own. -/
structure Sound (x : Contention) : Prop where
  inv : x.watchdog.Inv
  waits : ∀ k, x.waits k = true → (x.watchdog.thread k).phase = .running
  arms : ∀ h ∈ x.watchdog.mutex, ∀ g, h.progress = .generation g → h.call ≠ .disarm

variable {s : IceDisconnectWatchdog} {x : Contention}

theorem phase_setPhase {j k : ℕ} (phase : Phase) (hne : k ≠ j) :
    ((s.setPhase j phase).thread k).phase = (s.thread k).phase :=
  congrArg WatchdogThread.phase (Function.update_of_ne hne _ _)

/-- A thread that has been started is not touched by a call but for its stop token. -/
theorem phase_proceed (h : s.Inv) (g : Holder) {k : ℕ} (hk : (s.thread k).phase = .running) :
    ((s.proceed g).thread k).phase = .running := by
  unfold IceDisconnectWatchdog.proceed
  cases g.progress with
  | entered | created _ | leaving => exact hk
  | numbered =>
    dsimp only
    split
    · exact hk
    · rename_i j _
      exact (IceDisconnectWatchdog.field_update (t := { s.thread j with stopRequested := true })
        WatchdogThread.phase rfl k).trans hk
  | stopping _ =>
    dsimp only
    split_ifs <;> exact hk
  | disarmed =>
    dsimp only
    split <;> exact hk
  | generation _ =>
    dsimp only
    split
    · exact hk
    · have hne : k ≠ s.arms := by
        rintro rfl
        rw [h.born s.arms le_rfl] at hk
        cases hk
      exact (congrArg WatchdogThread.phase (Function.update_of_ne hne _ _)).trans hk

/-- Only the end of a callback ends it. -/
theorem phase_step (h : s.Inv) {i : Step} {k : ℕ} (hi : i ≠ .finish k) (hk : (s.thread k).phase = .running) :
    ((s.step i).thread k).phase = .running := by
  cases i with
  | lock caller call =>
    simp only [IceDisconnectWatchdog.step]
    split_ifs <;> exact hk
  | proceed =>
    simp only [IceDisconnectWatchdog.step]
    split
    · exact hk
    · exact phase_proceed h _ hk
  | finish j =>
    have hne : k ≠ j := fun he => hi (by rw [he])
    simp only [IceDisconnectWatchdog.step]
    split_ifs
    · exact (phase_setPhase _ hne).trans hk
    · exact hk
  | start j =>
    simp only [IceDisconnectWatchdog.step]
    split_ifs with hp
    · have hne : k ≠ j := by
        rintro rfl
        rw [hp] at hk
        cases hk
      exact (congrArg WatchdogThread.phase (Function.update_of_ne hne _ _)).trans hk
    · have hne : k ≠ j := by
        rintro rfl
        rw [hp] at hk
        cases hk
      exact (phase_setPhase _ hne).trans hk
    · exact hk
  | wake j | checkStop j | checkGeneration j =>
    simp only [IceDisconnectWatchdog.step]
    split
    · rename_i hp
      have hne : k ≠ j := by
        rintro rfl
        rw [hp] at hk
        cases hk
      exact (phase_setPhase _ hne).trans hk
    · exact hk

theorem arms_step (h : ∀ g ∈ s.mutex, ∀ n, g.progress = .generation n → g.call ≠ .disarm) (i : Step) :
    ∀ g ∈ (s.step i).mutex, ∀ n, g.progress = .generation n → g.call ≠ .disarm := by
  cases i with
  | lock caller call =>
    simp only [IceDisconnectWatchdog.step]
    split_ifs
    · rintro g hg n hn
      obtain rfl := Option.some.inj hg
      cases hn
    · exact h
  | proceed =>
    simp only [IceDisconnectWatchdog.step]
    split
    · exact h
    · rename_i g hg
      unfold IceDisconnectWatchdog.proceed
      rintro g' hg' n hn
      cases hp : g.progress with
      | disarmed =>
        simp only [hp] at hg'
        split at hg'
        · obtain rfl := Option.some.inj hg'
          cases hn
        · rename_i b hcall
          obtain rfl := Option.some.inj hg'
          intro hd
          exact absurd (hcall.symm.trans hd) (by simp)
      | generation m =>
        simp only [hp] at hg'
        split at hg'
        · exact h g' hg' n hn
        · obtain rfl := Option.some.inj hg'
          cases hn
      | numbered =>
        simp only [hp] at hg'
        split at hg' <;> obtain rfl := Option.some.inj hg' <;> cases hn
      | stopping k =>
        simp only [hp] at hg'
        split_ifs at hg'
        · obtain rfl := Option.some.inj hg'
          cases hn
        · exact h g' hg' n hn
      | entered | created k =>
        simp only [hp] at hg'
        obtain rfl := Option.some.inj hg'
        cases hn
      | leaving =>
        simp only [hp] at hg'
        cases hg'
  | wake k | checkStop k | checkGeneration k | finish k =>
    simp only [IceDisconnectWatchdog.step]
    split_ifs <;> exact h
  | start k =>
    simp only [IceDisconnectWatchdog.step]
    split_ifs <;> exact h

/-- The watchdog goes on, and nobody begins or ceases to wait. -/
theorem Sound.go (h : Sound x) {i : Step} (hi : ∀ k, i = .finish k → x.waits k = false) :
    Sound { x with watchdog := x.watchdog.step i } := by
  refine ⟨IceDisconnectWatchdog.inv_step _ i h.inv, fun k hk => phase_step h.inv (fun he => ?_) (h.waits k hk),
    arms_step h.arms i⟩
  have hfalse := hi k he
  rw [show x.waits k = true from hk] at hfalse
  cases hfalse

theorem sound_turn (x : Contention) (t : Turn) (h : Sound x) : Sound (x.turn t) := by
  cases t with
  | ask k =>
    simp only [turn]
    split_ifs with hk
    · refine ⟨h.inv, fun j hj => ?_, h.arms⟩
      by_cases hne : j = k
      · rw [hne]
        exact hk.1
      · exact h.waits j ((Function.update_of_ne hne _ _).symm.trans hj)
    · exact h
  | go i =>
    cases i with
    | lock caller call =>
      cases caller with
      | outside n => exact h.go fun k he => by cases he
      | callback k =>
        simp only [turn]
        split_ifs with hk
        · have hgo := h.go (i := .lock (.callback k) call) fun k he => by cases he
          refine ⟨hgo.inv, fun j hj => hgo.waits j ?_, hgo.arms⟩
          by_cases hne : j = k
          · rw [hne] at hj
            cases (Function.update_self k false x.waits).symm.trans hj
          · exact (Function.update_of_ne hne _ _).symm.trans hj
        · exact h
    | finish k =>
      simp only [turn]
      split_ifs with hk
      · exact h
      · refine h.go fun j he => ?_
        cases he
        simpa using hk
    | proceed | wake k | checkStop k | checkGeneration k | start k => exact h.go fun j he => by cases he

theorem sound_run (l : List Turn) : Sound (run turn {} l) := by
  refine run_invariant' (P := Sound) sound_turn ⟨IceDisconnectWatchdog.inv_empty, fun k hk => ?_, fun h hh => ?_⟩ l
  · cases hk
  · cases hh

/-! ### When a call is stuck -/

/-- A call that has not got past its join had not before, and for the same thread. -/
theorem early_proceed {g g' : Holder} (hg : (s.proceed g).mutex = some g') (hm : s.mutex = some g)
    (he : early g'.progress = true) :
    early g.progress = true ∧ g'.caller = g.caller ∧ g'.number = g.number ∧
      (s.proceed g).watchdogThread = s.watchdogThread := by
  unfold IceDisconnectWatchdog.proceed at hg ⊢
  cases hp : g.progress with
  | entered =>
    simp only [hp] at hg ⊢
    obtain rfl := Option.some.inj hg
    exact ⟨rfl, rfl, rfl, trivial⟩
  | numbered =>
    simp only [hp] at hg ⊢
    split at hg
    · obtain rfl := Option.some.inj hg
      cases he
    · obtain rfl := Option.some.inj hg
      exact ⟨rfl, rfl, rfl, rfl⟩
  | stopping k =>
    simp only [hp] at hg ⊢
    split_ifs at hg ⊢
    · obtain rfl := Option.some.inj hg
      cases he
    · obtain rfl := Option.some.inj (hm.symm.trans hg)
      exact ⟨rfl, rfl, rfl, rfl⟩
  | disarmed =>
    simp only [hp] at hg
    split at hg <;> obtain rfl := Option.some.inj hg <;> cases he
  | generation n =>
    simp only [hp] at hg
    split at hg
    · obtain rfl := Option.some.inj (hm.symm.trans hg)
      rw [hp] at he
      cases he
    · obtain rfl := Option.some.inj hg
      cases he
  | created k =>
    simp only [hp] at hg
    obtain rfl := Option.some.inj hg
    cases he
  | leaving =>
    simp only [hp] at hg
    cases hg

/-- The steps of the threads. -/
def threadStep : Step → Bool
  | .lock _ _ | .proceed => false
  | _ => true

/-- A thread touches neither the call nor the thread object. -/
theorem thread_step {i : Step} (hi : threadStep i = true) :
    (s.step i).mutex = s.mutex ∧ (s.step i).watchdogThread = s.watchdogThread := by
  cases i with
  | lock caller call => cases hi
  | proceed => cases hi
  | wake j | checkStop j | checkGeneration j | finish j =>
    simp only [IceDisconnectWatchdog.step]
    split <;> exact ⟨rfl, rfl⟩
  | start j =>
    simp only [IceDisconnectWatchdog.step]
    split_ifs <;> exact ⟨rfl, rfl⟩

/-- A step of the watchdog that is not a call's beginning gets no call stuck. -/
theorem stuck_go {i : Step} (hi : ∀ caller call, i ≠ .lock caller call)
    (h : Stuck { x with watchdog := x.watchdog.step i }) : Stuck x := by
  obtain ⟨g, hg, he, k, hk, hw, hc⟩ := h
  by_cases hthread : threadStep i = true
  · obtain ⟨hmutex, hsame⟩ := thread_step (s := x.watchdog) hthread
    exact ⟨g, hmutex ▸ hg, he, k, hsame ▸ hk, hw, hc⟩
  cases i with
  | lock caller call => exact absurd rfl (hi caller call)
  | proceed =>
    simp only [IceDisconnectWatchdog.step] at hg hk
    cases hm : x.watchdog.mutex with
    | none =>
      simp only [hm] at hg
      cases hg
    | some g₀ =>
      simp only [hm] at hg hk
      obtain ⟨he₀, hcaller, -, hthread⟩ := early_proceed hg hm he
      exact ⟨g₀, hm, he₀, k, hthread ▸ hk, hw, hcaller ▸ hc⟩
  | _ => exact absurd rfl hthread

/-- **The exact condition on a step.** -/
theorem stuck_turn (h : Sound x) (hx : ¬ Stuck x) (t : Turn) : ¬ Stuck (x.turn t) ↔ Apart x t := by
  cases t with
  | ask k =>
    simp only [turn, Apart]
    split_ifs with hk
    · constructor
      · intro hfree _ hthread g hg he
        by_contra hc
        exact hfree ⟨g, hg, he, k, hthread, Function.update_self k true x.waits, hc⟩
      · rintro hapart ⟨g, hg, he, j, hj, hw, hc⟩
        by_cases hne : j = k
        · obtain rfl := hne
          exact hc (hapart hk hj g hg he)
        · exact hx ⟨g, hg, he, j, hj, (Function.update_of_ne hne _ _).symm.trans hw, hc⟩
    · exact ⟨fun _ hn => absurd hn hk, fun _ => hx⟩
  | go i =>
    cases i with
    | lock caller call =>
      cases caller with
      | outside n =>
        simp only [turn, Apart, Takes, IceDisconnectWatchdog.step]
        by_cases hm : x.watchdog.mutex = none
        · rw [if_pos ⟨hm, trivial⟩]
          constructor
          · intro hfree _ k hk hw
            exact absurd ⟨_, rfl, rfl, k, hk, hw, by simp⟩ hfree
          · rintro hapart ⟨g, -, -, k, hk, hw, -⟩
            cases hapart hm k hk hw
        · rw [if_neg fun hn => hm hn.1]
          exact ⟨fun _ hn => absurd hn hm, fun _ => hx⟩
      | callback k =>
        simp only [turn, Apart, Takes]
        split_ifs with hk
        · have hmay : x.watchdog.mutex = none ∧ x.watchdog.mayCall (.callback k) := ⟨hk.2, h.waits k hk.1⟩
          simp only [IceDisconnectWatchdog.step, if_pos hmay]
          constructor
          · intro hfree _ j hj hw
            by_contra hc
            have hne : j ≠ k := fun he => hc (by rw [he])
            exact hfree ⟨_, rfl, rfl, j, hj, (Function.update_of_ne hne _ _).trans hw, hc⟩
          · rintro hapart ⟨g, hg, -, j, hj, hw, hc⟩
            obtain rfl := Option.some.inj hg
            have hne : j ≠ k := fun he => hc (by rw [he])
            exact hc (hapart hk j hj ((Function.update_of_ne hne _ _).symm.trans hw))
        · exact ⟨fun _ hn => absurd hn hk, fun _ => hx⟩
    | finish k =>
      simp only [turn, Apart, iff_true]
      split_ifs
      · exact hx
      · exact fun hs => hx (stuck_go (fun _ _ he => by cases he) hs)
    | proceed | wake k | checkStop k | checkGeneration k | start k =>
      simp only [Apart, iff_true]
      exact fun hs => hx (stuck_go (fun _ _ he => by cases he) hs)

/-- **No call is ever stuck, exactly**: in no state of a run is a call stuck at its join if and only if, all along the
run, nobody but the callback of the watchdog thread takes `mutex_` while that callback waits for it, and that callback
does not call while the call of another caller has yet to join its thread. -/
theorem always_returns_iff (l : List Turn) :
    (∀ l', l' <+: l → ¬ Stuck (run turn {} l')) ↔ Meets turn Apart {} l := by
  refine always_iff_meets (I := Sound) (P := fun x => ¬ Stuck x) (fun x t h _ _ => sound_turn x t h)
    (fun x t h hx => stuck_turn h hx t) (sound_run []) ?_
  rintro ⟨g, hg, -⟩
  cases hg

/-! ### When a call returns -/

/-- A step of its own of the thread `k`, unless it is finished. -/
def next (k : ℕ) : Phase → Step
  | .waiting => .wake k
  | .stopCheck => .checkStop k
  | .generationCheck => .checkGeneration k
  | .passed => .start k
  | .running | .finished => .finish k

/-- How many steps of its own a thread takes yet, at most. -/
def phaseLeft : Phase → ℕ
  | .waiting => 5
  | .stopCheck => 4
  | .generationCheck => 3
  | .passed => 2
  | .running => 1
  | .finished => 0

/-- How many statements a call has yet to do. -/
def callLeft : Progress → ℕ
  | .entered => 6
  | .numbered => 5
  | .stopping _ => 4
  | .disarmed => 3
  | .generation _ => 2
  | .created _ => 1
  | .leaving => 0

/-- What there is to do before the call that holds `mutex_` has returned, by the thread that it joins as well. -/
def left (x : Contention) : ℕ :=
  match x.watchdog.mutex with
  | none => 0
  | some h =>
    match h.progress with
    | .stopping k => 6 * callLeft h.progress + phaseLeft (x.watchdog.thread k).phase + 1
    | p => 6 * callLeft p + 1

theorem phaseLeft_le (p : Phase) : phaseLeft p ≤ 5 := by
  cases p <;> decide

theorem left_bounds {h : Holder} (hm : x.watchdog.mutex = some h) :
    6 * callLeft h.progress < x.left ∧ x.left ≤ 6 * callLeft h.progress + 6 := by
  unfold left
  simp only [hm]
  split
  · rename_i k hp
    rw [hp]
    have hle := phaseLeft_le (x.watchdog.thread k).phase
    omega
  · omega

theorem left_stopping {h : Holder} {k : ℕ} (hm : x.watchdog.mutex = some h) (hp : h.progress = .stopping k) :
    x.left = 25 + phaseLeft (x.watchdog.thread k).phase := by
  unfold left
  simp only [hm, hp, callLeft]
  omega

/-- A thread that is not in a call gets on. -/
theorem phaseLeft_next {k : ℕ} (hne : (s.thread k).phase ≠ .finished) (hcalling : ¬ s.calling k) :
    phaseLeft ((s.step (next k (s.thread k).phase)).thread k).phase < phaseLeft (s.thread k).phase := by
  have hself : ∀ phase, ((s.setPhase k phase).thread k).phase = phase := fun phase =>
    congrArg WatchdogThread.phase (Function.update_self k _ s.thread)
  cases hp : (s.thread k).phase with
  | finished => exact absurd hp hne
  | waiting =>
    simp only [next, IceDisconnectWatchdog.step, if_pos hp, hself]
    decide
  | stopCheck =>
    simp only [next, IceDisconnectWatchdog.step, if_pos hp, hself]
    split <;> decide
  | generationCheck =>
    simp only [next, IceDisconnectWatchdog.step, if_pos hp, hself]
    split <;> decide
  | running =>
    simp only [next, IceDisconnectWatchdog.step, if_pos (And.intro hp hcalling), hself]
    decide
  | passed =>
    simp only [next, IceDisconnectWatchdog.step, if_pos hp]
    split
    · simp only [Function.update_self]
      decide
    · simp only [hself]
      decide

/-- A call that does not wait for a thread gets on. -/
theorem callLeft_proceed {h : Holder} (hne : h.progress ≠ .leaving)
    (hover : ∀ k, h.progress = .stopping k → h.caller = .callback k ∨ (s.thread k).phase = .finished)
    (harms : ∀ g, h.progress = .generation g → h.call ≠ .disarm) :
    ∃ p, (s.proceed h).mutex = some { h with progress := p } ∧ callLeft p < callLeft h.progress := by
  unfold IceDisconnectWatchdog.proceed
  cases hp : h.progress with
  | entered => exact ⟨.numbered, rfl, by decide⟩
  | numbered =>
    cases hw : s.watchdogThread with
    | none => exact ⟨.disarmed, rfl, by decide⟩
    | some k => exact ⟨.stopping k, rfl, by simp [callLeft]⟩
  | stopping k =>
    simp only [if_pos (hover k hp)]
    exact ⟨.disarmed, rfl, by simp [callLeft]⟩
  | disarmed =>
    cases hcall : h.call with
    | disarm => exact ⟨.leaving, rfl, by decide⟩
    | arm b => exact ⟨.generation (s.generation + 1), rfl, by simp [callLeft]⟩
  | generation g =>
    cases hcall : h.call with
    | disarm => exact absurd hcall (harms g hp)
    | arm b => exact ⟨.created s.arms, rfl, by simp [callLeft]⟩
  | created k => exact ⟨.leaving, rfl, by simp [callLeft]⟩
  | leaving => exact absurd hp hne

/-- The call `n` has returned, or holds `mutex_`. -/
def Within (x : Contention) (n : ℕ) : Prop :=
  n ∈ x.watchdog.returned ∨ ∃ h ∈ x.watchdog.mutex, h.number = n

/-- A step of the watchdog, on which a call cannot get stuck. -/
def quiet : Step → Bool
  | .lock _ _ => false
  | _ => true

theorem apart_quiet {i : Step} (hi : quiet i = true) : Apart x (.go i) := by
  cases i with
  | lock caller call => cases hi
  | proceed | wake k | checkStop k | checkGeneration k | start k | finish k => trivial

/-- **Some step gets a call closer to its end** that is not stuck: one of its own, or one of the thread it joins. -/
theorem closer (h : Sound x) (hx : ¬ Stuck x) {g : Holder} (hm : x.watchdog.mutex = some g) :
    ∃ i, quiet i = true ∧ Within (x.turn (.go i)) g.number ∧ (x.turn (.go i)).left < x.left := by
  by_cases hleaving : g.progress = .leaving
  · have hgo : x.watchdog.step .proceed =
        { x.watchdog with mutex := none, returned := g.number :: x.watchdog.returned } := by
      simp only [IceDisconnectWatchdog.step, hm, IceDisconnectWatchdog.proceed, hleaving]
    refine ⟨.proceed, rfl, .inl ?_, ?_⟩
    · show g.number ∈ (x.watchdog.step .proceed).returned
      rw [hgo]
      exact List.mem_cons_self
    · have hzero : (x.turn (.go .proceed)).left = 0 := by
        simp only [turn, hgo, left]
      rw [hzero]
      exact lt_of_le_of_lt (Nat.zero_le _) (left_bounds hm).1
  by_cases hover : ∀ k, g.progress = .stopping k → g.caller = .callback k ∨ (x.watchdog.thread k).phase = .finished
  · obtain ⟨p, hp, hlt⟩ := callLeft_proceed hleaving hover (h.arms g hm)
    have hgo : (x.turn (.go .proceed)).watchdog.mutex = some { g with progress := p } := by
      simp only [turn, IceDisconnectWatchdog.step, hm, hp]
    refine ⟨.proceed, rfl, .inr ⟨_, hgo, rfl⟩, ?_⟩
    have hle : (x.turn (.go .proceed)).left ≤ 6 * callLeft p + 6 := (left_bounds hgo).2
    have hlow := (left_bounds hm).1
    omega
  · -- the call waits for its thread, and that one does not wait for the mutex
    push Not at hover
    obtain ⟨k, hp, hcaller, hphase⟩ := hover
    have hthread : x.watchdog.watchdogThread = some k := by
      have hok := h.inv.holder g hm
      rwa [IceDisconnectWatchdog.HolderOk, hp] at hok
    have hfree : x.waits k = false := by
      by_contra hw
      exact hx ⟨g, hm, by rw [hp]; rfl, k, hthread, by simpa using hw, hcaller⟩
    have hcalling : ¬ x.watchdog.calling k := by
      rintro ⟨g', hg', hk⟩
      obtain rfl := Option.some.inj (hm.symm.trans hg')
      exact hcaller hk
    set i := next k (x.watchdog.thread k).phase with hi
    have hquiet : quiet i = true ∧ threadStep i = true ∧
        x.turn (.go i) = { x with watchdog := x.watchdog.step i } := by
      rw [hi]
      cases (x.watchdog.thread k).phase <;> simp [next, quiet, threadStep, turn, hfree]
    have hsame : (x.turn (.go i)).watchdog.mutex = some g := by
      rw [hquiet.2.2]
      exact (thread_step hquiet.2.1).1.trans hm
    refine ⟨i, hquiet.1, .inr ⟨g, hsame, rfl⟩, ?_⟩
    rw [left_stopping hsame hp, left_stopping hm hp, hquiet.2.2]
    exact Nat.add_lt_add_left (phaseLeft_next hphase hcalling) 25

/-- The call `n` holds `mutex_` and is stuck. -/
def StuckIn (x : Contention) (n : ℕ) : Prop := Stuck x ∧ ∃ h ∈ x.watchdog.mutex, h.number = n

/-- Nothing has happened to the call and to its thread, and the callback waits as before. -/
theorem StuckIn.frame {n : ℕ} (hs : StuckIn x n) {y : Contention} (hmutex : y.watchdog.mutex = x.watchdog.mutex)
    (hthread : y.watchdog.watchdogThread = x.watchdog.watchdogThread)
    (hwaits : ∀ k, x.waits k = true → y.waits k = true) : StuckIn y n := by
  obtain ⟨⟨g, hg, he, k, hk, hw, hc⟩, hnumber⟩ := hs
  exact ⟨⟨g, hmutex ▸ hg, he, k, hthread ▸ hk, hwaits k hw, hc⟩, hmutex ▸ hnumber⟩

/-- **A call that is stuck stays so.** -/
theorem stuckIn_turn {n : ℕ} (h : Sound x) (hs : StuckIn x n) (t : Turn) : StuckIn (x.turn t) n := by
  obtain ⟨g, hm, hnumber⟩ := hs.2
  have hlocked : x.watchdog.mutex ≠ none := by
    rw [show x.watchdog.mutex = some g from hm]
    simp
  cases t with
  | ask k =>
    simp only [turn]
    split_ifs
    · refine hs.frame rfl rfl fun j hj => ?_
      by_cases hne : j = k
      · rw [hne]
        exact Function.update_self k true x.waits
      · exact (Function.update_of_ne hne _ _).trans hj
    · exact hs
  | go i =>
    cases i with
    | lock caller call =>
      cases caller with
      | outside m =>
        have hsame : x.watchdog.step (.lock (.outside m) call) = x.watchdog := if_neg fun hn => hlocked hn.1
        exact hs.frame (congrArg (·.mutex) hsame) (congrArg (·.watchdogThread) hsame) fun _ => id
      | callback k =>
        simp only [turn]
        rw [if_neg fun hn => hlocked hn.2]
        exact hs
    | finish k =>
      simp only [turn]
      split_ifs
      · exact hs
      · obtain ⟨hmutex, hthread⟩ := thread_step (s := x.watchdog) (i := .finish k) rfl
        exact hs.frame hmutex hthread fun _ => id
    | proceed =>
      obtain ⟨⟨g', hm', he, k, hk, hw, hc⟩, -⟩ := hs
      obtain rfl := Option.some.inj (hm.symm.trans hm')
      have hgo : x.watchdog.step .proceed = x.watchdog.proceed g := by
        simp only [IceDisconnectWatchdog.step, show x.watchdog.mutex = some g from hm]
      have hrunning := h.waits k hw
      have hok := h.inv.holder g hm
      have hkeep : ∃ p, (x.watchdog.proceed g).mutex = some { g with progress := p } ∧ early p = true ∧
          (x.watchdog.proceed g).watchdogThread = some k := by
        unfold IceDisconnectWatchdog.proceed
        cases hp : g.progress with
        | entered => exact ⟨.numbered, rfl, rfl, hk⟩
        | numbered =>
          simp only [show x.watchdog.watchdogThread = some k from hk]
          exact ⟨.stopping k, rfl, rfl, trivial⟩
        | stopping j =>
          have hj : j = k := by
            rw [IceDisconnectWatchdog.HolderOk, hp] at hok
            exact Option.some.inj (hok.symm.trans hk)
          have hstay : ¬ (g.caller = .callback j ∨ (x.watchdog.thread j).phase = .finished) := by
            rw [hj, hrunning]
            simpa using hc
          simp only [if_neg hstay]
          exact ⟨.stopping j, hp ▸ hm, rfl, hk⟩
        | disarmed | generation _ | created _ | leaving =>
          rw [hp] at he
          cases he
      obtain ⟨p, hp, hearly, hthread⟩ := hkeep
      rw [← hgo] at hp hthread
      exact ⟨⟨_, hp, hearly, k, hthread, hw, hc⟩, _, hp, hnumber⟩
    | wake k | checkStop k | checkGeneration k | start k =>
      exact hs.frame (thread_step (by rfl)).1 (thread_step (by rfl)).2 fun _ => id

/-- **A call returns exactly if it is not stuck**: the call that holds `mutex_` has returned in some continuation of
the run if and only if it is not on its way to join a watchdog thread whose callback waits for `mutex_`. -/
theorem call_returns_iff (l : List Turn) {g : Holder} (hg : (run turn {} l).watchdog.mutex = some g) :
    (∃ l', g.number ∈ (run turn {} (l ++ l')).watchdog.returned) ↔ ¬ Stuck (run turn {} l) := by
  simp only [run_append]
  set x := run turn {} l with hx
  have h : Sound x := sound_run l
  constructor
  · rintro ⟨l', hreturned⟩ hstuck
    obtain ⟨hsound, -, g', hg', hnumber⟩ := run_invariant' (P := fun y => Sound y ∧ StuckIn y g.number)
      (fun y t hy => ⟨sound_turn y t hy.1, stuckIn_turn hy.1 hy.2 t⟩) ⟨h, hstuck, g, hg, rfl⟩ l'
    have hlt : g.number < g'.number := (hsound.inv.number g' hg').2 g.number hreturned
    exact hlt.ne hnumber.symm
  · intro hfree
    refine run_variant (P := fun y => Sound y ∧ ¬ Stuck y ∧ Within y g.number)
      (Q := fun y => g.number ∈ y.watchdog.returned) left (fun y hy hn => ?_) ⟨h, hfree, .inr ⟨g, hg, rfl⟩⟩
    obtain ⟨hsound, hfree, hreturned | ⟨g', hg', hnumber⟩⟩ := hy
    · exact absurd hreturned hn
    · obtain ⟨i, hi, hwithin, hlt⟩ := closer hsound hfree hg'
      exact ⟨.go i, ⟨sound_turn y _ hsound, (stuck_turn hsound hfree _).mpr (apart_quiet hi), hnumber ▸ hwithin⟩, hlt⟩

/-- A callback starts, and another thread takes `mutex_` to disarm the watchdog. -/
def disarming : List Turn :=
  (Step.lock (.outside 0) (.arm true) :: List.replicate 7 Step.proceed ++
    [Step.wake 0, .checkStop 0, .checkGeneration 0, .start 0, .lock (.outside 1) .disarm]).map Turn.go

/-- As long as the callback does not call, the other thread can have its way. -/
theorem disarming_returns : ∃ l, 1 ∈ (run turn {} (disarming ++ l)).watchdog.returned :=
  (call_returns_iff disarming (g := { number := 1, caller := .outside 1, call := .disarm }) (by decide)).mpr (by decide)

/-- If it calls before the other thread has done its join, the two wait for each other. -/
example : Stuck (run turn {} (disarming ++ [.ask 0, .go .proceed, .go .proceed])) := by decide

end Contention

end PeerCall.Watchdog
