import PeerCall.Call.IoThread

/-!
# Call.Recovery — hanging up after ICE has recovered

The watchdog is disarmed when ICE recovers, but a task that its thread has already posted, or is about to
post, cannot be called back: it hangs up any connected call.  `inFlight` are those tasks; as long as ICE does
not recover while there is one, a hang-up finds ICE unstable ever since the watchdog was armed.
-/

namespace PeerCall

open PeerCall.Lib

namespace IoThread

/-! ### The watchdog's tasks that cannot be called back -/

def queuedTimeouts (q : List Queued) : List ℕ :=
  q.filterMap fun q => if q.task = .watchdogTimeout then some q.mark else none

def dueTimeouts (t : Option WatchdogThread) : List ℕ := (t.filter fun t => t.due).toList.map fun t => t.mark

/-- For each timeout that is queued or about to be, the number of ICE events before the one it is about. -/
def inFlight (x : IoThread) : List ℕ := queuedTimeouts x.queue ++ dueTimeouts x.watchdog.thread

@[simp] theorem queuedTimeouts_append (q q' : List Queued) :
    queuedTimeouts (q ++ q') = queuedTimeouts q ++ queuedTimeouts q' :=
  List.filterMap_append

@[simp] theorem queuedTimeouts_input (i : Input) (call connection mark : ℕ) :
    queuedTimeouts [⟨.input i, call, connection, mark⟩] = [] := rfl

@[simp] theorem queuedTimeouts_timeout (call connection mark : ℕ) :
    queuedTimeouts [⟨.watchdogTimeout, call, connection, mark⟩] = [mark] := rfl

@[simp] theorem dueTimeouts_none : dueTimeouts none = [] := rfl

theorem dueTimeouts_some (t : WatchdogThread) : dueTimeouts (some t) = if t.due then [t.mark] else [] := by
  cases h : t.due <;> simp [dueTimeouts, Option.filter, h]

theorem inFlight_enqueue_input (x : IoThread) (i : Input) (mark : ℕ) :
    (x.enqueue (.input i) mark).inFlight = x.inFlight := by
  simp [inFlight, enqueue]

theorem inFlight_post_input (x : IoThread) (i : Input) (mark : ℕ) :
    (x.postToCallControl (.input i) mark).inFlight = x.inFlight := by
  unfold postToCallControl
  split_ifs
  · rfl
  · exact inFlight_enqueue_input x i mark

/-- A thread that is past its check posts its task, whether or not it is waited for. -/
theorem inFlight_timeout (x : IoThread) {t : WatchdogThread} (ht : x.watchdog.thread = some t) (hd : t.due = true)
    (generation : ℕ) (hs : x.client.shutdownStarted = false) :
    (postToCallControl { x with watchdog := { generation := generation } } .watchdogTimeout t.mark).inFlight =
      x.inFlight := by
  simp [inFlight, postToCallControl, enqueue, hs, ht, dueTimeouts_some, hd]

theorem inFlight_timeout_subset (x : IoThread) {t : WatchdogThread} (ht : x.watchdog.thread = some t)
    (hd : t.due = true) (generation : ℕ) :
    (postToCallControl { x with watchdog := { generation := generation } } .watchdogTimeout t.mark).inFlight ⊆
      x.inFlight := by
  by_cases hs : x.client.shutdownStarted = true
  · simp [inFlight, postToCallControl, hs]
  · rw [inFlight_timeout x ht hd generation (eq_false_of_ne_true hs)]
    exact List.Subset.refl _

/-- `Disarm` calls back no task that is in flight. -/
theorem inFlight_disarm (x : IoThread) (hs : x.client.shutdownStarted = false) :
    x.disarm.inFlight = x.inFlight := by
  unfold disarm
  cases ht : x.watchdog.thread with
  | none => simp [inFlight, ht]
  | some t =>
    by_cases hd : t.due = true
    · simp only [hd, if_true]
      exact inFlight_timeout x ht hd _ hs
    · simp [inFlight, ht, dueTimeouts_some, hd]

theorem inFlight_disarm_subset (x : IoThread) : x.disarm.inFlight ⊆ x.inFlight := by
  unfold disarm
  cases ht : x.watchdog.thread with
  | none => simp [inFlight, ht]
  | some t =>
    by_cases hd : t.due = true
    · simp only [hd, if_true]
      exact inFlight_timeout_subset x ht hd _
    · simp [inFlight, ht, dueTimeouts_some, hd]

theorem disarm_thread (x : IoThread) : x.disarm.watchdog.thread = none := by
  unfold disarm postToCallControl
  cases x.watchdog.thread with
  | none => rfl
  | some t => dsimp only; split_ifs <;> rfl

theorem inFlight_arm (x : IoThread) (mark : ℕ) : (x.arm mark).inFlight = x.disarm.inFlight := by
  simp [inFlight, arm, disarm_thread, dueTimeouts_some]

theorem inFlight_react_subset (x : IoThread) (t : Task) : (x.react t).inFlight ⊆ x.inFlight := by
  unfold react
  dsimp only
  split_ifs
  · exact inFlight_disarm_subset (x.observe t)
  · rw [inFlight_arm]
    exact inFlight_disarm_subset (x.observe t)
  · exact List.Subset.refl _

theorem inFlight_react (x : IoThread) (t : Task) (hs : (x.react t).client.shutdownStarted = false) :
    (x.react t).inFlight = x.inFlight := by
  rw [(sameClient_react x t).client] at hs
  unfold react
  dsimp only
  split_ifs
  · exact inFlight_disarm (x.observe t) hs
  · rw [inFlight_arm]
    exact inFlight_disarm (x.observe t) hs
  · rfl

/-! ### What a timeout is about -/

/-- ICE has been unstable since event number `m`. -/
def UnstableSince (ice : List IceState) (m : ℕ) : Prop := m < ice.length ∧ ∀ s ∈ ice.drop m, s.Unstable

theorem UnstableSince.concat {ice : List IceState} {m : ℕ} (h : UnstableSince ice m) {s : IceState}
    (hs : s.Unstable) : UnstableSince (ice ++ [s]) m := by
  refine ⟨by simpa using Nat.lt_succ_of_lt h.1, ?_⟩
  rw [List.drop_append_of_le_length h.1.le]
  intro s' hs'
  rcases List.mem_append.mp hs' with hs' | hs'
  · exact h.2 s' hs'
  · rw [List.mem_singleton.mp hs']
    exact hs

theorem unstableSince_length (ice : List IceState) {s : IceState} (hs : s.Unstable) :
    UnstableSince (ice ++ [s]) ice.length := by
  refine ⟨by simp, ?_⟩
  rw [List.drop_left]
  intro s' hs'
  rw [List.mem_singleton.mp hs']
  exact hs

theorem UnstableSince.last {ice : List IceState} {m : ℕ} (h : UnstableSince ice m) : LastUnstable ice := by
  have hne : ice ≠ [] := by
    rintro rfl
    exact absurd h.1 (by simp)
  have hdrop : ice.drop m ≠ [] := by simpa using h.1
  refine ⟨ice.getLast hne, List.getLast?_eq_some_getLast hne, h.2 _ ?_⟩
  rw [← List.getLast_drop hdrop]
  exact List.getLast_mem hdrop

/-- A stable ICE event ends what went before. -/
theorem not_unstableSince_concat {ice : List IceState} {m : ℕ} (hm : m < ice.length) {s : IceState}
    (hs : ¬ s.Unstable) : ¬ UnstableSince (ice ++ [s]) m := by
  intro h
  refine hs (h.2 s ?_)
  rw [List.drop_append_of_le_length hm.le]
  exact List.mem_append_right _ (List.mem_singleton_self s)

/-- The thread sleeps only while the watchdog is armed, since ICE has become unstable; and every timeout in
flight is about an event that has been executed. -/
structure Sleeps (x : IoThread) : Prop where
  watched : Watched x.client x.ice
  thread : ∀ t ∈ x.watchdog.thread, x.client.watchdogArmed = true ∧ UnstableSince x.ice t.mark
  marks : ∀ m ∈ x.inFlight, m < x.ice.length

theorem sleeps_init : Sleeps {} := by
  refine ⟨⟨Coordinator.sound_init, by decide⟩, (by simp), fun m hm => absurd hm List.not_mem_nil⟩

/-- ICE events are only added, and only an unstable one leaves the watchdog armed. -/
theorem ice_exec {c : Coordinator} (ice : List IceState) (h : c.Sound) (t : Task) :
    iceAfter c ice t = ice ∧ (∀ s, t = .input (.iceState s) → c.shutdownStarted = true) ∨
      ∃ s, t = .input (.iceState s) ∧ c.shutdownStarted = false ∧ iceAfter c ice t = ice ++ [s] ∧
        ((t.exec c).1.watchdogArmed = true ↔ (t.exec c).1.manager.callState = .connected ∧ s.Unstable) := by
  by_cases hice : ∃ s, t = .input (.iceState s)
  · obtain ⟨s, rfl⟩ := hice
    by_cases hs : c.shutdownStarted = true
    · exact Or.inl ⟨by simp [iceAfter, hs], fun _ _ => hs⟩
    · have hs' := eq_false_of_ne_true hs
      exact Or.inr ⟨s, rfl, hs', by simp [iceAfter, hs'], watched_iceState h hs' s⟩
  · refine Or.inl ⟨?_, fun s hs => absurd ⟨s, hs⟩ hice⟩
    unfold iceAfter
    split
    · rename_i s
      exact absurd ⟨s, rfl⟩ hice
    · rfl

/-- The thread after a task: the one there was, if the watchdog is still armed, or the one just started. -/
theorem react_thread (x : IoThread) (t : Task) {th : WatchdogThread} (h : th ∈ (x.react t).watchdog.thread) :
    (x.react t).client.watchdogArmed = true ∧
      (t.Arms ∧ th.mark = x.ice.length ∨ ¬ t.Arms ∧ th ∈ x.watchdog.thread) := by
  rw [(sameClient_react x t).client]
  unfold react at h
  dsimp only at h
  by_cases ha : (x.observe t).client.watchdogArmed = false
  · rw [if_pos ha, disarm_thread] at h
    cases h
  · rw [if_neg ha] at h
    refine ⟨eq_true_of_ne_false ha, ?_⟩
    by_cases harms : t.Arms
    · rw [if_pos harms] at h
      cases h
      exact Or.inl ⟨harms, rfl⟩
    · rw [if_neg harms] at h
      exact Or.inr ⟨harms, h⟩

theorem sleeps_react {x : IoThread} (h : Sleeps x) (t : Task) : Sleeps (x.react t) := by
  have hw := watched_react h.watched t
  have hice := (sameClient_react x t).ice
  have hcl := (sameClient_react x t).client
  have hcases := ice_exec x.ice h.watched.sound t
  refine ⟨hw, fun th hth => ?_, fun m hm => ?_⟩
  · obtain ⟨ha, hor⟩ := x.react_thread t hth
    have ha' : (t.exec x.client).1.watchdogArmed = true := by
      rw [hcl] at ha
      exact ha
    refine ⟨ha, ?_⟩
    rw [hice]
    show UnstableSince (iceAfter x.client x.ice t) th.mark
    rcases hcases with ⟨he, hoff⟩ | ⟨s, rfl, -, he, hiff⟩
    · rw [he]
      rcases hor with ⟨harms, -⟩ | ⟨-, hold⟩
      · -- nothing is armed once the coordinator has been shut down
        exfalso
        unfold Task.Arms at harms
        split at harms
        · rename_i s
          have hs := hoff s rfl
          have hs' : (x.client.step (.iceState s)).shutdownStarted = true :=
            (x.client.step_shutdownStarted (i := .iceState s) (by simp)).trans hs
          have := ((Coordinator.sound_step x.client (.iceState s) h.watched.sound).silent hs').2.2.1
          exact absurd (this.symm.trans ha') (by simp)
        · exact harms
      · exact (h.thread th hold).2
    · rw [he]
      rcases hor with ⟨harms, hmark⟩ | ⟨-, hold⟩
      · rw [hmark]
        exact unstableSince_length x.ice harms
      · exact (h.thread th hold).2.concat (hiff.mp ha').2
  · have hlt := h.marks m (inFlight_react_subset x t hm)
    rw [hice]
    show m < (iceAfter x.client x.ice t).length
    rcases hcases with ⟨he, -⟩ | ⟨s, -, -, he, -⟩
    · rwa [he]
    · rw [he, List.length_append]
      omega

/-- What is in flight after a quiet move was so already or has just become due. -/
theorem Quiet.flight {x x' : IoThread} {m : Move} (h : Quiet x m x') :
    (∀ t ∈ x'.watchdog.thread, ∃ t₀ ∈ x.watchdog.thread, t₀.mark = t.mark) ∧
      ∀ k ∈ x'.inFlight, k ∈ x.inFlight ∨ ∃ t ∈ x.watchdog.thread, t.mark = k := by
  cases h with
  | idle => exact ⟨fun t ht => ⟨t, ht, rfl⟩, fun _ hk => Or.inl hk⟩
  | posted i =>
    refine ⟨fun t ht => ⟨t, ?_, rfl⟩, fun k hk => Or.inl ?_⟩
    · unfold postToCallControl at ht
      split_ifs at ht
      · exact ht
      · exact ht
    · rwa [inFlight_post_input] at hk
  | read i =>
    refine ⟨fun t ht => ⟨t, ht, rfl⟩, fun k hk => Or.inl ?_⟩
    rwa [inFlight_enqueue_input] at hk
  | woken t ht =>
    refine ⟨fun t' ht' => ⟨t, ht, ?_⟩, fun k hk => ?_⟩
    · cases ht'
      rfl
    · simp only [inFlight, dueTimeouts_some, if_true, List.mem_append, List.mem_singleton] at hk
      rcases hk with hk | rfl
      · exact Or.inl (by simp [inFlight, hk])
      · exact Or.inr ⟨t, ht, rfl⟩
  | expired t ht hd =>
    refine ⟨fun t' ht' => ?_, fun k hk => Or.inl ?_⟩
    · unfold postToCallControl at ht'
      split_ifs at ht' <;> cases ht'
    · exact inFlight_timeout_subset x ht hd _ hk

theorem Sleeps.quiet {x x' : IoThread} {m : Move} (h : Sleeps x) (hq : Quiet x m x') : Sleeps x' := by
  have hsame := hq.sameClient
  obtain ⟨hthread, hflight⟩ := hq.flight
  refine ⟨?_, fun t ht => ?_, fun k hk => ?_⟩
  · rw [hsame.client, hsame.ice]
    exact h.watched
  · obtain ⟨t₀, ht₀, hmark⟩ := hthread t ht
    rw [hsame.client, hsame.ice, ← hmark]
    exact h.thread t₀ ht₀
  · rw [hsame.ice]
    rcases hflight k hk with hk | ⟨t, ht, rfl⟩
    · exact h.marks k hk
    · exact (h.thread t ht).2.1

/-- A task that is executed is not in the queue any more. -/
theorem inFlight_tail {x : IoThread} {q : Queued} {rest : List Queued} (hq : x.queue = q :: rest) :
    inFlight { x with queue := rest } ⊆ x.inFlight := by
  intro m hm
  simp only [inFlight, hq, queuedTimeouts, List.filterMap_cons, List.mem_append] at hm ⊢
  split_ifs <;> simp only [List.mem_cons] <;> tauto

theorem sleeps_step (x : IoThread) (m : Move) (h : Sleeps x) : Sleeps (x.step m) := by
  rcases x.step_cases m with hquiet | ⟨-, q, rest, hq, he⟩ | ⟨i, -, -, he⟩
  · exact h.quiet hquiet
  · rw [he]
    have hrest : Sleeps { x with queue := rest } :=
      ⟨h.watched, h.thread, fun k hk => h.marks k (inFlight_tail hq hk)⟩
    exact sleeps_react hrest q.task
  · rw [he]
    exact sleeps_react h (.input i)

/-! ### Recovery in time -/

/-- Executing the task is a recovery: it is an ICE event other than `Failed`, `Disconnected` and `Closed`, and
the call is connected after it. -/
def Recovering (c : Coordinator) : Task → Prop
  | .input (.iceState s) =>
    ¬ s.Unstable ∧ c.shutdownStarted = false ∧
      (c.manager.callState = .connected ∨ c.manager.callState = .connecting ∧ (s = .connected ∨ s = .completed))
  | _ => False

instance (c : Coordinator) (t : Task) : Decidable (Recovering c t) := by
  cases t with
  | input i => cases i <;> (unfold Recovering; infer_instance)
  | watchdogTimeout => unfold Recovering; infer_instance

/-- ICE does not recover while a timeout is in flight. -/
def InTime (x : IoThread) : Move → Prop
  | .execute => ∀ q ∈ x.queue.head?, Recovering x.client q.task → x.inFlight = []
  | _ => True

instance (x : IoThread) (m : Move) : Decidable (x.InTime m) := by
  unfold InTime; split <;> infer_instance

/-- While a call is connected, the timeouts in flight are about an instability that still lasts. -/
def Timely (x : IoThread) : Prop :=
  x.client.shutdownStarted = false → x.client.manager.callState = .connected →
    ∀ m ∈ x.inFlight, UnstableSince x.ice m

theorem Timely.quiet {x x' : IoThread} {m : Move} (hs : Sleeps x) (h : Timely x) (hq : Quiet x m x') :
    Timely x' := by
  intro hon hcon k hk
  rw [hq.sameClient.client] at hon hcon
  rw [hq.sameClient.ice]
  rcases hq.flight.2 k hk with hk | ⟨t, ht, rfl⟩
  · exact h hon hcon k hk
  · exact (hs.thread t ht).2

theorem Quiet.inTime {x x' : IoThread} {m : Move} (h : Quiet x m x') : x.InTime m := by
  cases h with
  | idle hm => cases m <;> first | trivial | simp [InTime, hm rfl]
  | _ => trivial

/-- A call that is connected after a task was so before it, or it has been connected by ICE. -/
theorem connected_exec {c : Coordinator} {t : Task} (h : (t.exec c).1.manager.callState = .connected)
    (hs : (t.exec c).1.shutdownStarted = false) :
    c.shutdownStarted = false ∧
      (c.manager.callState = .connected ∨ c.manager.callState = .connecting ∧
        ∃ s, t = .input (.iceState s) ∧ (s = .connected ∨ s = .completed)) := by
  rcases t.exec_cases c with ⟨rfl, -, he, -⟩ | ⟨i, ht, he, -⟩
  · rw [he] at h hs
    exact ⟨hs, Or.inl h⟩
  · rw [he] at h hs
    refine ⟨(Coordinator.step_alive hs).1, ?_⟩
    by_cases hc : c.manager.callState = .connected
    · exact Or.inl hc
    · obtain ⟨hcon, s, rfl, hst⟩ := Coordinator.connected_by_ice hc h
      rcases ht with rfl | ⟨-, hi, -⟩
      · exact Or.inr ⟨hcon, s, rfl, hst⟩
      · cases hi

theorem connected_of_recovering {c : Coordinator} {s : IceState} (h : Recovering c (.input (.iceState s))) :
    (c.step (.iceState s)).manager.callState = .connected := by
  obtain ⟨hst, hs, hc⟩ := h
  simp only [Coordinator.step, Coordinator.exec, Coordinator.onIceConnectionStateChanged, Coordinator.post_eq hs]
  by_cases hs' : s = .connected ∨ s = .completed
  · rw [if_pos hs']
    unfold Coordinator.perform
    rw [CallManager.perform_established]
    split_ifs with hcon
    · rw [Coordinator.managed_manager]
      exact hc.resolve_right fun hc => hcon hc.1
    · rw [Coordinator.managed_manager]
  · have hst' : ¬ (s = .failed ∨ s = .disconnected ∨ s = .closed) := hst
    rw [if_neg hs', if_neg hst']
    exact hc.resolve_right fun hc => hs' hc.2

/-- **A task keeps the timeouts timely** exactly when it is not a recovery with one of them in flight. -/
theorem timely_react {x : IoThread} (hs : Sleeps x) (h : Timely x) (t : Task) :
    Timely (x.react t) ↔ (Recovering x.client t → x.inFlight = []) := by
  have hice : (x.react t).ice = iceAfter x.client x.ice t := (sameClient_react x t).ice
  have hcl : (x.react t).client = (t.exec x.client).1 := (sameClient_react x t).client
  constructor
  · intro htimely hrec
    by_contra hne
    obtain ⟨m, hm⟩ := List.exists_mem_of_ne_nil _ hne
    unfold Recovering at hrec
    split at hrec
    · rename_i s
      have hon : (x.react (.input (.iceState s))).client.shutdownStarted = false := by
        rw [hcl]
        exact (x.client.step_shutdownStarted (i := .iceState s) (by simp)).trans hrec.2.1
      have hcon : (x.react (.input (.iceState s))).client.manager.callState = .connected := by
        rw [hcl]
        exact connected_of_recovering hrec
      have hstill := htimely hon hcon m (by rwa [inFlight_react x _ hon])
      rw [hice, iceAfter, if_neg (by simp [hrec.2.1])] at hstill
      exact not_unstableSince_concat (hs.marks m hm) hrec.1 hstill
    · exact hrec
  · intro hok hon hcon m hm
    have hm' := inFlight_react_subset x t hm
    rw [hcl] at hon hcon
    obtain ⟨hon', hor⟩ := connected_exec hcon hon
    rw [hice]
    rcases ice_exec x.ice hs.watched.sound t with ⟨he, hoff⟩ | ⟨s, rfl, -, he, -⟩
    · rw [he]
      rcases hor with hcon' | ⟨-, s, rfl, -⟩
      · exact h hon' hcon' m hm'
      · exact absurd (hoff s rfl) (by simp [hon'])
    · rw [he]
      by_cases hun : s.Unstable
      · rcases hor with hcon' | ⟨-, s', hs', hst⟩
        · exact (h hon' hcon' m hm').concat hun
        · cases hs'
          rcases hst with rfl | rfl <;> exact absurd hun (by decide)
      · have hempty : x.inFlight = [] := by
          refine hok ⟨hun, hon', ?_⟩
          rcases hor with hcon' | ⟨hcon', s', hs', hst⟩
          · exact Or.inl hcon'
          · cases hs'
            exact Or.inr ⟨hcon', hst⟩
        rw [hempty] at hm'
        cases hm'

/-- A task other than a timeout leaves what is in flight as it is. -/
theorem inFlight_tail_eq {x : IoThread} {q : Queued} {rest : List Queued} (hq : x.queue = q :: rest)
    (ht : q.task ≠ .watchdogTimeout) : inFlight { x with queue := rest } = x.inFlight := by
  simp [inFlight, hq, queuedTimeouts, ht]

theorem timely_step (x : IoThread) (m : Move) (hs : Sleeps x) (h : Timely x) :
    Timely (x.step m) ↔ x.InTime m := by
  rcases x.step_cases m with hquiet | ⟨rfl, q, rest, hq, he⟩ | ⟨i, rfl, hi, he⟩
  · refine ⟨fun _ => hquiet.inTime, fun _ => h.quiet hs hquiet⟩
  · have hrest : Sleeps { x with queue := rest } :=
      ⟨hs.watched, hs.thread, fun k hk => hs.marks k (inFlight_tail hq hk)⟩
    have htimely : Timely { x with queue := rest } := fun hon hcon k hk => h hon hcon k (inFlight_tail hq hk)
    rw [he, timely_react hrest htimely]
    simp only [InTime, hq, List.head?_cons, Option.mem_def, Option.some.injEq, forall_eq']
    have heq : Recovering x.client q.task → inFlight { x with queue := rest } = x.inFlight := by
      intro hrec
      refine inFlight_tail_eq hq fun ht => ?_
      rw [ht] at hrec
      exact hrec
    exact ⟨fun hok hrec => (heq hrec).symm.trans (hok hrec), fun hok hrec => (heq hrec).trans (hok hrec)⟩
  · rw [he, timely_react hs h]
    refine ⟨fun _ => trivial, fun _ hrec => ?_⟩
    cases i <;> simp [Input.route] at hi <;> exact hrec.elim

/-- **Timely timeouts**: all along a run the timeouts in flight are about an instability that still lasts, exactly
when ICE never recovers while there is one. -/
theorem timely_iff (l : List Move) : (∀ l', l' <+: l → Timely (run step {} l')) ↔ Meets step InTime {} l :=
  always_iff_meets (fun _ _ h _ _ => sleeps_step _ _ h) timely_step sleeps_init (by intro _ hc; cases hc)

/-- The next task is a timeout of the watchdog, and hangs up. -/
def HangsUp (x : IoThread) (q : Queued) : Prop :=
  q ∈ x.queue.head? ∧ q.task = .watchdogTimeout ∧ x.client.shutdownStarted = false ∧
    x.client.manager.callState = .connected

instance (x : IoThread) (q : Queued) : Decidable (x.HangsUp q) := by unfold HangsUp; infer_instance

/-- ICE has not recovered since the watchdog was armed. -/
def NotRecovered (x : IoThread) (q : Queued) : Prop :=
  (∀ s ∈ x.ice.drop q.mark, s ≠ .connected ∧ s ≠ .completed) ∧ LastUnstable x.ice

instance (x : IoThread) (q : Queued) : Decidable (x.NotRecovered q) := by unfold NotRecovered; infer_instance

/-- **No hang-up after a recovery**, in the runs in which ICE does not recover while a timeout is in flight:
a timeout that hangs up finds no `Connected` or `Completed` among the ICE events executed since its watchdog
was armed, and the last of them unstable. -/
theorem no_hangup_after_recovery (l : List Move) (hl : Meets step InTime {} l) {q : Queued}
    (hq : (run step {} l).HangsUp q) : (run step {} l).NotRecovered q := by
  have htimely := (timely_iff l).mpr hl l (List.prefix_refl l)
  generalize run step {} l = x at hq htimely ⊢
  obtain ⟨hhead, htask, hon, hcon⟩ := hq
  have hmem : q.mark ∈ x.inFlight := by
    refine List.mem_append_left _ (List.mem_filterMap.mpr ⟨q, List.mem_of_mem_head? hhead, ?_⟩)
    rw [if_pos htask]
  have hun := htimely hon hcon q.mark hmem
  refine ⟨fun s hs => ?_, hun.last⟩
  have hs' := hun.2 s hs
  constructor <;> rintro rfl <;> exact absurd hs' (by decide)

/-- A call of bob's is connected, and ICE becomes unstable. -/
def unstableCall : List Move :=
  [.read (.receive "bob" (.call (.callRequest "7-1"))), .execute, .post .acceptCall, .execute,
    .post (.iceState .connected), .execute, .post (.iceState .disconnected), .execute]

/-- It stays so for as long as the watchdog waits. -/
def failingCall : List Move := unstableCall ++ [.wake, .expire]

/-- ICE recovers at the last moment: the event is queued before the timeout. -/
def recoveringCall : List Move := unstableCall ++ [.post (.iceState .connected), .wake, .expire, .execute]

/-- Then the timeout hangs up, and rightly so. -/
theorem failing_call_is_hung_up :
    (run step {} failingCall).HangsUp ⟨.watchdogTimeout, 1, 1, 1⟩ ∧
      (run step {} failingCall).NotRecovered ⟨.watchdogTimeout, 1, 1, 1⟩ := by
  have h : (run step {} failingCall).HangsUp ⟨.watchdogTimeout, 1, 1, 1⟩ := by decide
  exact ⟨h, no_hangup_after_recovery failingCall (by decide) h⟩

/-- **Not in general**: ICE has recovered behind the queued timeout's back, and the call is hung up. -/
theorem hangup_after_recovery :
    ¬ ∀ (l : List Move) (q : Queued), (run step {} l).HangsUp q → (run step {} l).NotRecovered q := by
  intro h
  have hn := h recoveringCall ⟨.watchdogTimeout, 1, 1, 1⟩ (by decide)
  exact absurd hn (by decide)

end IoThread

end PeerCall
