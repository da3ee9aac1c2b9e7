import PeerCall.Lib.Runs

/-!
# Call.Watchdog — the threads of `IceDisconnectWatchdog`

`Arm` and `Disarm` are called from any thread, the callback of an earlier `Arm` included, and take `mutex_`; what they
do under it goes statement by statement, and so do the threads that they start.  A thread may leave its wait at any
time: the deadline has passed, or it was asked to stop.

* `callback_once_in_time`: **a callback starts at most once, and not after a later call has returned**.
-/

namespace PeerCall.Watchdog

open PeerCall.Lib

/-- Where a watchdog thread is: in its loop, before each of the two checks, past them, in the callback, at its end. -/
inductive Phase
  | waiting | stopCheck | generationCheck | passed | running | finished
  deriving DecidableEq, Repr

/-- The thread of one `Arm`; `armed` is the number of that call. -/
structure WatchdogThread where
  armed : ℕ := 0
  generation : UInt64 := 0
  onTimeout : Bool := false
  stopRequested : Bool := false
  phase : Phase := .finished
  starts : ℕ := 0
  deriving DecidableEq, Repr

/-- Who calls: a thread from outside, or the callback on the watchdog thread `k`. -/
inductive Caller
  | outside (n : ℕ)
  | callback (k : ℕ)
  deriving DecidableEq, Repr

/-- `Arm`, whose callback may be empty, or `Disarm`. -/
inductive Call
  | arm (onTimeout : Bool)
  | disarm
  deriving DecidableEq, Repr

/-- How far the call has come that holds `mutex_`: at `++generation_` of `DisarmLocked`, at `joinable`, at `detach` or
`join`, past `DisarmLocked`, with a generation, with a thread that is still to be assigned, before it returns. -/
inductive Progress
  | entered
  | numbered
  | stopping (k : ℕ)
  | disarmed
  | generation (g : UInt64)
  | created (k : ℕ)
  | leaving
  deriving DecidableEq, Repr

/-- The call that holds `mutex_`; calls are numbered in the order in which they take it. -/
structure Holder where
  number : ℕ
  caller : Caller
  call : Call
  progress : Progress := .entered
  deriving DecidableEq, Repr

/-- `IceDisconnectWatchdog`; `thread k` is the thread of the `k`-th `Arm`. -/
structure IceDisconnectWatchdog where
  mutex : Option Holder := none
  watchdogThread : Option ℕ := none
  generation : UInt64 := 0
  thread : ℕ → WatchdogThread := fun _ => {}
  arms : ℕ := 0
  calls : ℕ := 0
  returned : List ℕ := []

inductive Step
  | lock (caller : Caller) (call : Call)
  | proceed
  | wake (k : ℕ)
  | checkStop (k : ℕ)
  | checkGeneration (k : ℕ)
  | start (k : ℕ)
  | finish (k : ℕ)
  deriving DecidableEq, Repr

namespace IceDisconnectWatchdog

/-- The callback of the thread `k` is in a call that holds the mutex. -/
def calling (s : IceDisconnectWatchdog) (k : ℕ) : Prop := ∃ h ∈ s.mutex, h.caller = .callback k

instance (s : IceDisconnectWatchdog) (k : ℕ) : Decidable (s.calling k) :=
  match hm : s.mutex with
  | none => isFalse (by simp [calling, hm])
  | some h => decidable_of_iff (h.caller = .callback k) (by simp [calling, hm])

def setPhase (s : IceDisconnectWatchdog) (k : ℕ) (phase : Phase) : IceDisconnectWatchdog :=
  { s with thread := Function.update s.thread k { s.thread k with phase := phase } }

/-- A caller is outside, or in its callback. -/
def mayCall (s : IceDisconnectWatchdog) : Caller → Prop
  | .outside _ => True
  | .callback k => (s.thread k).phase = .running

instance (s : IceDisconnectWatchdog) : ∀ c, Decidable (s.mayCall c)
  | .outside _ => inferInstanceAs (Decidable True)
  | .callback k => inferInstanceAs (Decidable ((s.thread k).phase = .running))

/-- The next statement of the call that holds the mutex; a `join` waits. -/
def proceed (s : IceDisconnectWatchdog) (h : Holder) : IceDisconnectWatchdog :=
  let at_ (s : IceDisconnectWatchdog) (progress : Progress) : IceDisconnectWatchdog :=
    { s with mutex := some { h with progress := progress } }
  match h.progress with
  | .entered => at_ { s with generation := s.generation + 1 } .numbered
  | .numbered =>
    match s.watchdogThread with
    | none => at_ s .disarmed
    | some k =>
      at_ { s with thread := Function.update s.thread k { s.thread k with stopRequested := true } } (.stopping k)
  | .stopping k =>
    if h.caller = .callback k ∨ (s.thread k).phase = .finished then at_ { s with watchdogThread := none } .disarmed
    else s
  | .disarmed =>
    match h.call with
    | .disarm => at_ s .leaving
    | .arm _ => at_ { s with generation := s.generation + 1 } (.generation (s.generation + 1))
  | .generation g =>
    match h.call with
    | .disarm => s
    | .arm onTimeout =>
      at_ { s with
        thread := Function.update s.thread s.arms
          { armed := h.number, generation := g, onTimeout := onTimeout, phase := .waiting }
        arms := s.arms + 1 } (.created s.arms)
  | .created k => at_ { s with watchdogThread := some k } .leaving
  | .leaving => { s with mutex := none, returned := h.number :: s.returned }

def step (s : IceDisconnectWatchdog) : Step → IceDisconnectWatchdog
  | .lock caller call =>
    if s.mutex = none ∧ s.mayCall caller then
      { s with mutex := some { number := s.calls, caller := caller, call := call }, calls := s.calls + 1 }
    else s
  | .proceed =>
    match s.mutex with
    | none => s
    | some h => s.proceed h
  | .wake k => if (s.thread k).phase = .waiting then s.setPhase k .stopCheck else s
  | .checkStop k =>
    if (s.thread k).phase = .stopCheck then
      s.setPhase k (if (s.thread k).stopRequested then .finished else .generationCheck)
    else s
  | .checkGeneration k =>
    if (s.thread k).phase = .generationCheck then
      s.setPhase k (if s.generation ≠ (s.thread k).generation then .finished else .passed)
    else s
  | .start k =>
    if (s.thread k).phase = .passed then
      if (s.thread k).onTimeout then
        let running := { s.thread k with phase := .running, starts := (s.thread k).starts + 1 }
        { s with thread := Function.update s.thread k running }
      else s.setPhase k .finished
    else s
  | .finish k => if (s.thread k).phase = .running ∧ ¬ s.calling k then s.setPhase k .finished else s

end IceDisconnectWatchdog

/-! ### The invariant -/

namespace IceDisconnectWatchdog

variable {s : IceDisconnectWatchdog}

/-- One thread is changed, which keeps a field. -/
theorem field_update {α : Type} (f : WatchdogThread → α) {k : ℕ} {t : WatchdogThread} (ht : f t = f (s.thread k))
    (j : ℕ) : f (Function.update s.thread k t j) = f (s.thread j) := by
  by_cases hj : j = k
  · rw [hj, Function.update_self, ht]
  · rw [Function.update_of_ne hj]

theorem starts_setPhase (j : ℕ) (phase : Phase) (k : ℕ) :
    ((s.setPhase j phase).thread k).starts = (s.thread k).starts :=
  field_update (t := { s.thread j with phase := phase }) WatchdogThread.starts rfl k

end IceDisconnectWatchdog

/-- The thread may still start its callback. -/
def Phase.May : Phase → Prop
  | .running | .finished => False
  | _ => True

namespace IceDisconnectWatchdog

/-- How far the call has come, and what it has done by then to the thread that was there before. -/
def HolderOk (s : IceDisconnectWatchdog) (h : Holder) : Prop :=
  match h.progress with
  | .entered | .numbered => True
  | .stopping k => s.watchdogThread = some k
  | .disarmed | .generation _ => s.watchdogThread = none
  | .created k => s.watchdogThread = none ∧ k < s.arms ∧ (s.thread k).armed = h.number
  | .leaving => ∀ k ∈ s.watchdogThread, (s.thread k).armed = h.number

/-- A thread that may still start its callback is the one that the next call stops. -/
structure Inv (s : IceDisconnectWatchdog) : Prop where
  once : ∀ k, (s.thread k).starts ≤ 1 ∧ ((s.thread k).phase.May → (s.thread k).starts = 0)
  known : ∀ k, (s.thread k).phase.May →
    s.watchdogThread = some k ∨ ∃ h ∈ s.mutex, h.progress = .created k
  inTime : ∀ k, (s.thread k).phase.May → ∀ n ∈ s.returned, n ≤ (s.thread k).armed
  born : ∀ k, s.arms ≤ k → s.thread k = {}
  joinable : ∀ k ∈ s.watchdogThread, k < s.arms
  caller : ∀ h ∈ s.mutex, ∀ k, h.caller = .callback k → (s.thread k).phase = .running
  number : ∀ h ∈ s.mutex, h.number < s.calls ∧ ∀ n ∈ s.returned, n < h.number
  returned : ∀ n ∈ s.returned, n < s.calls
  holder : ∀ h ∈ s.mutex, s.HolderOk h

variable {s : IceDisconnectWatchdog}

theorem Inv.lt_arms (h : Inv s) {k : ℕ} (hk : (s.thread k).phase ≠ .finished) : k < s.arms := by
  by_contra hge
  rw [h.born k (by omega)] at hk
  exact hk rfl

/-- **A step of one thread.** -/
theorem Inv.update (h : Inv s) {k : ℕ} {t : WatchdogThread} (hk : k < s.arms) (harmed : t.armed = (s.thread k).armed)
    (hmay : t.phase.May → (s.thread k).phase.May) (hstarts : t.starts ≤ 1 ∧ (t.phase.May → t.starts = 0))
    (hcalling : s.calling k → t.phase = .running) : Inv { s with thread := Function.update s.thread k t } := by
  have hsame : ∀ j, (Function.update s.thread k t j).armed = (s.thread j).armed :=
    field_update WatchdogThread.armed harmed
  have hmays : ∀ j, (Function.update s.thread k t j).phase.May → (s.thread j).phase.May := by
    intro j hj
    by_cases hjk : j = k
    · rw [hjk, Function.update_self] at hj
      exact hjk ▸ hmay hj
    · rwa [Function.update_of_ne hjk] at hj
  refine ⟨fun j => ?_, fun j hj => h.known j (hmays j hj), fun j hj n hn => ?_, fun j hj => ?_, h.joinable, ?_,
    h.number, h.returned, fun g hg => ?_⟩
  · show (Function.update s.thread k t j).starts ≤ 1 ∧ ((Function.update s.thread k t j).phase.May →
      (Function.update s.thread k t j).starts = 0)
    by_cases hjk : j = k
    · rw [hjk, Function.update_self]
      exact hstarts
    · rw [Function.update_of_ne hjk]
      exact h.once j
  · show n ≤ (Function.update s.thread k t j).armed
    rw [hsame]
    exact h.inTime j (hmays j hj) n hn
  · have hjk : j ≠ k := by
      rintro rfl
      exact absurd hk (not_lt.mpr hj)
    exact (Function.update_of_ne hjk _ _).trans (h.born j hj)
  · intro g hg j hj
    show (Function.update s.thread k t j).phase = _
    by_cases hjk : j = k
    · rw [hjk, Function.update_self]
      exact hcalling ⟨g, hg, hjk ▸ hj⟩
    · rw [Function.update_of_ne hjk]
      exact h.caller g hg j hj
  · have hok := h.holder g hg
    unfold HolderOk at hok ⊢
    simp only [hsame]
    exact hok

/-- The thread `k` goes on to another phase. -/
theorem Inv.setPhase (h : Inv s) {k : ℕ} {phase : Phase} (hne : (s.thread k).phase ≠ .finished)
    (hmay : phase.May → (s.thread k).phase.May) (hcalling : ¬ s.calling k) : Inv (s.setPhase k phase) :=
  h.update (h.lt_arms hne) rfl hmay ⟨(h.once k).1, fun hp => (h.once k).2 (hmay hp)⟩ fun hc => absurd hc hcalling

/-- A thread that is not in its callback does not call. -/
theorem Inv.not_calling (h : Inv s) {k : ℕ} (hne : (s.thread k).phase ≠ .running) : ¬ s.calling k := by
  rintro ⟨g, hg, hk⟩
  exact hne (h.caller g hg k hk)

theorem Inv.start (h : Inv s) (k : ℕ) : Inv (step s (.start k)) := by
  simp only [step]
  split_ifs with hp ht
  · have hzero := (h.once k).2 (by rw [hp]; trivial)
    refine h.update (h.lt_arms (by simp [hp])) rfl False.elim ⟨?_, False.elim⟩ fun _ => rfl
    show (s.thread k).starts + 1 ≤ 1
    omega
  · exact h.setPhase (by simp [hp]) False.elim (h.not_calling (by simp [hp]))
  · exact h

/-- Unless the call that holds the mutex has just made a thread, only the thread that the next call stops may start
its callback. -/
theorem Inv.watched (h : Inv s) {g : Holder} (hg : s.mutex = some g)
    (hknown : ∀ k, g.progress = .created k → s.watchdogThread = some k) {k : ℕ} (hk : (s.thread k).phase.May) :
    s.watchdogThread = some k := by
  rcases h.known k hk with hw | ⟨g', hg', hp⟩
  · exact hw
  · obtain rfl := Option.some.inj (hg.symm.trans hg')
    exact hknown k hp

/-- The call goes on, and stays what it is; what is left to show is about the threads. -/
theorem Inv.goOn (h : Inv s) {g : Holder} (hg : s.mutex = some g) {y : IceDisconnectWatchdog} {p : Progress}
    (hy : y.mutex = some { g with progress := p }) (hcalls : y.calls = s.calls) (hreturned : y.returned = s.returned)
    (hrunning : ∀ k, (s.thread k).phase = .running → (y.thread k).phase = .running)
    (honce : ∀ k, (y.thread k).starts ≤ 1 ∧ ((y.thread k).phase.May → (y.thread k).starts = 0))
    (hknown : ∀ k, (y.thread k).phase.May → y.watchdogThread = some k ∨ p = .created k)
    (hinTime : ∀ k, (y.thread k).phase.May → ∀ n ∈ s.returned, n ≤ (y.thread k).armed)
    (hborn : ∀ k, y.arms ≤ k → y.thread k = {}) (hjoinable : ∀ k ∈ y.watchdogThread, k < y.arms)
    (hok : y.HolderOk { g with progress := p }) : Inv y where
  once := honce
  known k hk := (hknown k hk).imp_right fun hp => ⟨_, hy, hp⟩
  inTime k hk n hn := hinTime k hk n (hreturned ▸ hn)
  born := hborn
  joinable := hjoinable
  caller g' hg' k hk := by
    obtain rfl := Option.some.inj (hy.symm.trans hg')
    exact hrunning k (h.caller g hg k hk)
  number g' hg' := by
    obtain rfl := Option.some.inj (hy.symm.trans hg')
    rw [hcalls, hreturned]
    exact h.number g hg
  returned n hn := by
    rw [hcalls]
    exact h.returned n (hreturned ▸ hn)
  holder g' hg' := by
    obtain rfl := Option.some.inj (hy.symm.trans hg')
    exact hok

/-- **A step of the call** that changes nothing but its progress. -/
theorem Inv.advance (h : Inv s) {g : Holder} (hg : s.mutex = some g) {p : Progress}
    (hok : s.HolderOk { g with progress := p })
    (hknown : ∀ k, g.progress = .created k → s.watchdogThread = some k) :
    Inv { s with mutex := some { g with progress := p } } :=
  h.goOn hg rfl rfl rfl (fun _ => id) h.once (fun _ hk => .inl (h.watched hg hknown hk)) h.inTime h.born h.joinable hok

/-- The generation is only looked at by the threads. -/
theorem Inv.generation (h : Inv s) (g : UInt64) : Inv { s with generation := g } :=
  ⟨h.once, h.known, h.inTime, h.born, h.joinable, h.caller, h.number, h.returned, h.holder⟩

/-- The thread that was there before is detached or joined: it does not start its callback any more. -/
theorem Inv.disarm (h : Inv s) {g : Holder} (hg : s.mutex = some g) {k : ℕ} (hp : g.progress = .stopping k)
    (hover : ¬ (s.thread k).phase.May) :
    Inv { s with watchdogThread := none, mutex := some { g with progress := .disarmed } } := by
  have hok : s.watchdogThread = some k := by
    have hok := h.holder g hg
    rwa [HolderOk, hp] at hok
  have hnone : ∀ j, ¬ (s.thread j).phase.May := by
    intro j hj
    have hw := h.watched hg (by simp [hp]) hj
    rw [hok] at hw
    exact hover (Option.some.inj hw ▸ hj)
  refine h.goOn hg rfl rfl rfl (fun _ => id) h.once (fun j hj => absurd hj (hnone j)) h.inTime h.born ?_ rfl
  intro j hj
  cases hj

/-- A new thread is made by the call that holds the mutex. -/
theorem Inv.create (h : Inv s) {g : Holder} (hg : s.mutex = some g) {c : UInt64} (hp : g.progress = .generation c)
    (onTimeout : Bool) :
    Inv { s with
      thread := Function.update s.thread s.arms
        { armed := g.number, generation := c, onTimeout := onTimeout, phase := .waiting }
      arms := s.arms + 1
      mutex := some { g with progress := .created s.arms } } := by
  have hok : s.watchdogThread = none := by
    have hok := h.holder g hg
    rwa [HolderOk, hp] at hok
  have hnone : ∀ j, ¬ (s.thread j).phase.May := by
    intro j hj
    have hw := h.watched hg (by simp [hp]) hj
    rw [hok] at hw
    cases hw
  set t : WatchdogThread := { armed := g.number, generation := c, onTimeout := onTimeout, phase := .waiting } with ht
  -- only the new thread may start its callback
  have honly : ∀ j, (Function.update s.thread s.arms t j).phase.May → j = s.arms := by
    intro j hj
    by_contra hne
    rw [Function.update_of_ne hne] at hj
    exact hnone j hj
  refine h.goOn hg rfl rfl rfl (fun j hrunning => ?_) (fun j => ?_) (fun j hj => .inr ?_) (fun j hj n hn => ?_)
    (fun j hj => ?_) (fun j hj => ?_) ?_
  · have hne : j ≠ s.arms := (h.lt_arms (by simp [hrunning])).ne
    exact (congrArg WatchdogThread.phase (Function.update_of_ne hne _ _)).trans hrunning
  · show (Function.update s.thread s.arms t j).starts ≤ 1 ∧ ((Function.update s.thread s.arms t j).phase.May →
      (Function.update s.thread s.arms t j).starts = 0)
    by_cases hj : j = s.arms
    · rw [hj, Function.update_self]
      exact ⟨Nat.zero_le 1, fun _ => rfl⟩
    · rw [Function.update_of_ne hj]
      exact h.once j
  · rw [honly j hj]
  · show n ≤ (Function.update s.thread s.arms t j).armed
    rw [honly j hj, Function.update_self]
    exact ((h.number g hg).2 n hn).le
  · have hne : j ≠ s.arms := by
      have hlt : s.arms + 1 ≤ j := hj
      omega
    exact (Function.update_of_ne hne _ _).trans (h.born j (le_trans (Nat.le_succ _) hj))
  · exact (h.joinable j hj).trans (Nat.lt_succ_self _)
  · exact ⟨hok, Nat.lt_succ_self _, congrArg WatchdogThread.armed (Function.update_self s.arms t s.thread)⟩

/-- The new thread is assigned. -/
theorem Inv.assign (h : Inv s) {g : Holder} (hg : s.mutex = some g) {k : ℕ} (hp : g.progress = .created k) :
    Inv { s with watchdogThread := some k, mutex := some { g with progress := .leaving } } := by
  obtain ⟨hok, hk, harmed⟩ : s.watchdogThread = none ∧ k < s.arms ∧ (s.thread k).armed = g.number := by
    have hok := h.holder g hg
    rwa [HolderOk, hp] at hok
  refine h.goOn hg rfl rfl rfl (fun _ => id) h.once (fun j hj => .inl ?_) h.inTime h.born ?_ ?_
  · rcases h.known j hj with hw | ⟨g', hg', hp'⟩
    · rw [hok] at hw
      cases hw
    · obtain rfl := Option.some.inj (hg.symm.trans hg')
      rw [hp] at hp'
      exact congrArg some (Progress.created.inj hp')
  · rintro j hj
    obtain rfl := Option.some.inj hj
    exact hk
  · show ∀ j ∈ some k, (s.thread j).armed = g.number
    rintro j hj
    obtain rfl := Option.some.inj hj
    exact harmed

/-- **The call returns**: a thread that may still start its callback is its own. -/
theorem Inv.leave (h : Inv s) {g : Holder} (hg : s.mutex = some g) (hp : g.progress = .leaving) :
    Inv { s with mutex := none, returned := g.number :: s.returned } := by
  have hok : ∀ k ∈ s.watchdogThread, (s.thread k).armed = g.number := by
    have hok := h.holder g hg
    rwa [HolderOk, hp] at hok
  have hknown : ∀ j, (s.thread j).phase.May → s.watchdogThread = some j :=
    fun j hj => h.watched hg (by simp [hp]) hj
  refine ⟨h.once, fun j hj => .inl (hknown j hj), fun j hj n hn => ?_, h.born, h.joinable, by simp, by simp, ?_,
    by simp⟩
  · rcases List.mem_cons.mp hn with rfl | hn
    · exact (hok j (hknown j hj)).ge
    · exact h.inTime j hj n hn
  · intro n hn
    rcases List.mem_cons.mp hn with rfl | hn
    · exact (h.number g hg).1
    · exact h.returned n hn

/-- **One statement of a call.** -/
theorem Inv.proceed (h : Inv s) {g : Holder} (hg : s.mutex = some g) : Inv (s.proceed g) := by
  have hok := h.holder g hg
  unfold IceDisconnectWatchdog.proceed
  cases hp : g.progress with
  | entered => exact (h.generation (s.generation + 1)).advance (p := .numbered) hg trivial (by simp [hp])
  | numbered =>
    dsimp only
    split
    · rename_i hw
      exact h.advance (p := .disarmed) hg hw (by simp [hp])
    · rename_i k hw
      have hk := h.joinable k hw
      have hstop := h.update (t := { s.thread k with stopRequested := true }) hk rfl id (h.once k) fun hc => by
        obtain ⟨g', hg', hk'⟩ := hc
        exact h.caller g' hg' k hk'
      exact hstop.advance (p := .stopping k) hg hw (by simp [hp])
  | stopping k =>
    dsimp only
    split_ifs with hover
    · refine h.disarm hg hp fun hmay => ?_
      rcases hover with hcaller | hfinished
      · rw [h.caller g hg k hcaller] at hmay
        exact hmay
      · rw [hfinished] at hmay
        exact hmay
    · exact h
  | disarmed =>
    have hnone : s.watchdogThread = none := by rwa [HolderOk, hp] at hok
    dsimp only
    split
    · have hleaving : s.HolderOk { g with progress := .leaving } := by simp [HolderOk, hnone]
      exact h.advance (p := .leaving) hg hleaving (by simp [hp])
    · exact (h.generation (s.generation + 1)).advance (p := .generation _) hg hnone (by simp [hp])
  | generation c =>
    dsimp only
    split
    · exact h
    · exact h.create hg hp _
  | created k => exact h.assign hg hp
  | leaving => exact h.leave hg hp

theorem inv_step (s : IceDisconnectWatchdog) (i : Step) (h : Inv s) : Inv (step s i) := by
  cases i with
  | lock caller call =>
    simp only [step]
    split_ifs with hlock
    · refine ⟨h.once, fun k hk => .inl ?_, h.inTime, h.born, h.joinable, ?_, ?_, ?_, ?_⟩
      · rcases h.known k hk with hw | ⟨g, hg, -⟩
        · exact hw
        · rw [hlock.1] at hg
          cases hg
      · rintro g hg k hk
        obtain rfl := Option.some.inj hg
        have hcaller : caller = .callback k := hk
        subst hcaller
        exact hlock.2
      · rintro g hg
        obtain rfl := Option.some.inj hg
        exact ⟨Nat.lt_succ_self _, h.returned⟩
      · exact fun n hn => (h.returned n hn).trans (Nat.lt_succ_self _)
      · rintro g hg
        obtain rfl := Option.some.inj hg
        trivial
    · exact h
  | proceed =>
    simp only [step]
    cases hg : s.mutex with
    | none => exact h
    | some g => exact h.proceed hg
  | wake k =>
    simp only [step]
    split_ifs with hp
    · exact h.setPhase (by simp [hp]) (fun _ => by rw [hp]; trivial) (h.not_calling (by simp [hp]))
    · exact h
  | checkStop k =>
    simp only [step]
    split_ifs with hp hstop
    · exact h.setPhase (by simp [hp]) (fun _ => by rw [hp]; trivial) (h.not_calling (by simp [hp]))
    · exact h.setPhase (by simp [hp]) (fun _ => by rw [hp]; trivial) (h.not_calling (by simp [hp]))
    · exact h
  | checkGeneration k =>
    simp only [step]
    split_ifs with hp hgen
    · exact h.setPhase (by simp [hp]) (fun _ => by rw [hp]; trivial) (h.not_calling (by simp [hp]))
    · exact h.setPhase (by simp [hp]) (fun _ => by rw [hp]; trivial) (h.not_calling (by simp [hp]))
    · exact h
  | start k => exact h.start k
  | finish k =>
    simp only [step]
    split_ifs with hp
    · exact h.setPhase (by simp [hp.1]) False.elim hp.2
    · exact h

end IceDisconnectWatchdog

/-! ### One thread for each `Arm` -/

/-- The call has not made its thread yet. -/
def Progress.Early : Progress → Prop
  | .created _ | .leaving => False
  | _ => True

namespace IceDisconnectWatchdog

/-- Later threads are of later calls. -/
structure Distinct (s : IceDisconnectWatchdog) : Prop where
  increasing : ∀ j k, j < k → k < s.arms → (s.thread j).armed < (s.thread k).armed
  armed : ∀ k < s.arms, (s.thread k).armed < s.calls
  early : ∀ g ∈ s.mutex, g.progress.Early → ∀ k < s.arms, (s.thread k).armed < g.number

variable {s s' : IceDisconnectWatchdog}

/-- No thread is made, and no call takes the mutex. -/
theorem Distinct.frame (h : Distinct s) (harms : s'.arms = s.arms) (hcalls : s'.calls = s.calls)
    (harmed : ∀ k, (s'.thread k).armed = (s.thread k).armed)
    (hearly : ∀ g' ∈ s'.mutex, g'.progress.Early → ∃ g ∈ s.mutex, g.progress.Early ∧ g'.number = g.number) :
    Distinct s' := by
  refine ⟨fun j k hjk hk => ?_, fun k hk => ?_, fun g' hg' hp' k hk => ?_⟩
  · rw [harmed, harmed]
    exact h.increasing j k hjk (harms ▸ hk)
  · rw [harmed, hcalls]
    exact h.armed k (harms ▸ hk)
  · obtain ⟨g, hg, hp, hnumber⟩ := hearly g' hg' hp'
    rw [harmed, hnumber]
    exact h.early g hg hp k (harms ▸ hk)

theorem Distinct.setPhase (h : Distinct s) (k : ℕ) (phase : Phase) : Distinct (s.setPhase k phase) :=
  h.frame rfl rfl (field_update _ rfl) fun g hg hp => ⟨g, hg, hp, rfl⟩

theorem Distinct.create (h : Distinct s) {g : Holder} (hg : s.mutex = some g) (hp : g.progress.Early)
    (hnumber : g.number < s.calls) {t : WatchdogThread} (ht : t.armed = g.number) :
    Distinct { s with
      thread := Function.update s.thread s.arms t, arms := s.arms + 1
      mutex := some { g with progress := .created s.arms } } := by
  have hold : ∀ j < s.arms, (Function.update s.thread s.arms t j).armed = (s.thread j).armed :=
    fun j hj => congrArg WatchdogThread.armed (Function.update_of_ne hj.ne _ _)
  have hnew : (Function.update s.thread s.arms t s.arms).armed = g.number := by rw [Function.update_self, ht]
  refine ⟨fun j k hjk hk => ?_, fun k hk => ?_, ?_⟩
  · show (Function.update s.thread s.arms t j).armed < (Function.update s.thread s.arms t k).armed
    rcases Nat.lt_succ_iff_lt_or_eq.mp hk with hk | rfl
    · rw [hold j (hjk.trans hk), hold k hk]
      exact h.increasing j k hjk hk
    · rw [hold j hjk, hnew]
      exact h.early g hg hp j hjk
  · show (Function.update s.thread s.arms t k).armed < s.calls
    rcases Nat.lt_succ_iff_lt_or_eq.mp hk with hk | rfl
    · rw [hold k hk]
      exact h.armed k hk
    · rw [hnew]
      exact hnumber
  · rintro g' hg' hearly
    obtain rfl := Option.some.inj hg'
    exact False.elim hearly

theorem Distinct.proceed (h : Distinct s) (hi : Inv s) {g : Holder} (hg : s.mutex = some g) :
    Distinct (s.proceed g) := by
  -- the call goes on, and keeps its number
  have hgo : ∀ p : Progress, (p.Early → g.progress.Early) → ∀ g' ∈ some { g with progress := p }, g'.progress.Early →
      ∃ g ∈ s.mutex, g.progress.Early ∧ g'.number = g.number := by
    rintro p hp g' hg' hearly
    obtain rfl := Option.some.inj hg'
    exact ⟨g, hg, hp hearly, rfl⟩
  unfold IceDisconnectWatchdog.proceed
  cases hp : g.progress with
  | entered => exact h.frame rfl rfl (fun _ => rfl) (hgo .numbered fun _ => by rw [hp]; trivial)
  | numbered =>
    dsimp only
    split
    · exact h.frame rfl rfl (fun _ => rfl) (hgo .disarmed fun _ => by rw [hp]; trivial)
    · rename_i k _
      exact h.frame rfl rfl (field_update _ rfl) (hgo (.stopping k) fun _ => by rw [hp]; trivial)
  | stopping k =>
    dsimp only
    split_ifs
    · exact h.frame rfl rfl (fun _ => rfl) (hgo .disarmed fun _ => by rw [hp]; trivial)
    · exact h
  | disarmed =>
    dsimp only
    split
    · exact h.frame rfl rfl (fun _ => rfl) (hgo .leaving False.elim)
    · exact h.frame rfl rfl (fun _ => rfl) (hgo (.generation (s.generation + 1)) fun _ => by rw [hp]; trivial)
  | generation c =>
    dsimp only
    split
    · exact h
    · exact h.create hg (by rw [hp]; trivial) (hi.number g hg).1 rfl
  | created k => exact h.frame rfl rfl (fun _ => rfl) (hgo .leaving False.elim)
  | leaving => exact h.frame rfl rfl (fun _ => rfl) (by simp)

theorem distinct_step (s : IceDisconnectWatchdog) (i : Step) (h : Inv s ∧ Distinct s) :
    Inv (step s i) ∧ Distinct (step s i) := by
  refine ⟨inv_step s i h.1, ?_⟩
  have hd := h.2
  cases i with
  | lock caller call =>
    simp only [step]
    split_ifs
    · refine ⟨hd.increasing, fun k hk => (hd.armed k hk).trans (Nat.lt_succ_self _), ?_⟩
      rintro g hg -
      obtain rfl := Option.some.inj hg
      exact hd.armed
    · exact hd
  | proceed =>
    simp only [step]
    cases hg : s.mutex with
    | none => exact hd
    | some g => exact hd.proceed h.1 hg
  | start k =>
    simp only [step]
    split_ifs
    · exact hd.frame rfl rfl (field_update _ rfl) fun g hg hp => ⟨g, hg, hp, rfl⟩
    · exact hd.setPhase k _
    · exact hd
  | wake k | checkStop k | checkGeneration k | finish k =>
    simp only [step]
    split_ifs
    all_goals first | exact hd | exact hd.setPhase k _

theorem inv_empty : Inv {} := by
  have hmay : ∀ k, ¬ (({} : IceDisconnectWatchdog).thread k).phase.May := fun _ => id
  exact ⟨fun _ => ⟨Nat.zero_le 1, fun _ => rfl⟩, fun k hk => absurd hk (hmay k), fun k hk => absurd hk (hmay k),
    fun _ _ => rfl, by simp, by simp, by simp, by simp, by simp⟩

theorem inv_run (l : List Step) : Inv (run step {} l) ∧ Distinct (run step {} l) :=
  run_invariant' (P := fun s => Inv s ∧ Distinct s) distinct_step ⟨inv_empty, by simp, by simp, by simp⟩ l

/-- A call starts no callback. -/
theorem starts_proceed (h : Inv s) (g : Holder) (k : ℕ) :
    ((s.proceed g).thread k).starts = (s.thread k).starts := by
  unfold IceDisconnectWatchdog.proceed
  cases g.progress with
  | entered | created _ | leaving => rfl
  | numbered =>
    dsimp only
    split
    · rfl
    · rename_i j _
      exact field_update (t := { s.thread j with stopRequested := true }) WatchdogThread.starts rfl k
  | stopping _ =>
    dsimp only
    split_ifs <;> rfl
  | disarmed =>
    dsimp only
    split <;> rfl
  | generation _ =>
    dsimp only
    split
    · rfl
    · refine field_update WatchdogThread.starts ?_ k
      rw [h.born s.arms le_rfl]

/-- **Only the start step starts a callback**, and its thread was past both checks. -/
theorem may_of_starts (h : Inv s) {i : Step} {k : ℕ} (hne : ((step s i).thread k).starts ≠ (s.thread k).starts) :
    (s.thread k).phase.May := by
  by_contra hmay
  refine hne ?_
  cases i with
  | lock caller call =>
    simp only [step]
    split_ifs <;> rfl
  | proceed =>
    simp only [step]
    split
    · rfl
    · exact starts_proceed h _ k
  | start j =>
    simp only [step]
    split_ifs with hp
    · have hne : k ≠ j := by
        rintro rfl
        exact hmay (by rw [hp]; trivial)
      exact congrArg WatchdogThread.starts (Function.update_of_ne hne _ _)
    · exact starts_setPhase j .finished k
    · rfl
  | wake j | checkStop j | checkGeneration j | finish j =>
    simp only [step]
    split_ifs
    all_goals first | rfl | exact starts_setPhase j _ k

/-- **A callback starts at most once, and never late**: each `Arm` has one thread, which starts its callback once at
most; and where it does, no call has returned that took the mutex after that `Arm`. -/
theorem callback_once_in_time (l : List Step) :
    (∀ j k, j < (run step {} l).arms → k < (run step {} l).arms →
      ((run step {} l).thread j).armed = ((run step {} l).thread k).armed → j = k) ∧
    (∀ k, ((run step {} l).thread k).starts ≤ 1) ∧
    ∀ i k, ((run step {} (l ++ [i])).thread k).starts ≠ ((run step {} l).thread k).starts →
      ∀ n ∈ (run step {} l).returned, n ≤ ((run step {} l).thread k).armed := by
  obtain ⟨hinv, hd⟩ := inv_run l
  refine ⟨fun j k hj hk heq => ?_, fun k => (hinv.once k).1, fun i k hne => ?_⟩
  · rcases lt_trichotomy j k with hlt | hjk | hlt
    · exact absurd heq (hd.increasing j k hlt hk).ne
    · exact hjk
    · exact absurd heq.symm (hd.increasing k j hlt hj).ne
  · rw [run_concat] at hne
    exact hinv.inTime k (may_of_starts hinv hne)

/-- A watchdog is armed and expires, and its callback arms the next one. -/
def rearmed : List Step :=
  .lock (.outside 0) (.arm true) :: List.replicate 7 Step.proceed ++
    [Step.wake 0, .checkStop 0, .checkGeneration 0, .start 0, .lock (.callback 0) (.arm true)] ++
    List.replicate 8 Step.proceed ++ [Step.wake 1, .checkStop 1, .checkGeneration 1]

/-- The second callback starts after both calls have returned. -/
example :
    let s := run step {} rearmed
    let s' := run step {} (rearmed ++ [.start 1])
    (s.returned, (s.thread 1).armed, (s.thread 1).starts, (s'.thread 1).starts) = ([1, 0], 1, 0, 1) := by
  decide

end IceDisconnectWatchdog

end PeerCall.Watchdog
