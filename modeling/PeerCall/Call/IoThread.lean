import PeerCall.Call.Lifetime

/-!
# Call.IoThread — the queue of the io thread and the thread of the disconnect watchdog

Control tasks and received messages are executed one after the other on the signaling client's io thread, in
the order they were queued.  The watchdog's thread sleeps, checks that it has not been stopped, and then posts
a task like any other.  A task carries nothing that says which call it is about; the model writes down beside
it what is needed to tell: the number of the call, of the peer connection, and of the ICE event that armed the
watchdog.
-/

namespace PeerCall

open PeerCall.Lib

/-- How an input comes about: a task of `PostToCallControl`, a message read by the signaling client, a
call on the coordinator from somewhere else, or the watchdog, which has steps of its own here. -/
inductive Route
  | posted | read | direct | watchdog
  deriving DecidableEq, Repr

def Input.route : Input → Route
  | .startCall _ _ _ => .posted
  | .acceptCall => .posted
  | .rejectCall _ => .posted
  | .endCall => .posted
  | .iceState _ => .posted
  | .receive _ _ => .read
  | .userOffline _ => .read
  | .watchdogExpiry => .watchdog
  | .timerExpiry => .direct
  | .offerCreated _ => .direct
  | .answerCreated _ => .direct
  | .iceCandidateGenerated _ _ _ => .direct
  | .engineError _ => .direct
  | .setUIObserver _ => .direct
  | .engineAnswers _ _ => .direct
  | .shutdown => .direct

namespace Coordinator

/-- The task posted by the callback that `StartIceDisconnectWatchdog` arms. -/
def watchdogTimeout (c : Coordinator) : Coordinator × List PortCall :=
  c.post fun c =>
    if c.manager.callState ≠ .connected then (c, [])
    else
      andThen (c, c.ui [.onLogMessage "ICE state stayed Disconnected/Failed too long. Ending call." "warning"])
        fun c => c.perform .endCall

/-- With nothing in between, the expiry is that task. -/
theorem onWatchdogExpired_eq (c : Coordinator) :
    c.onWatchdogExpired = if c.watchdogArmed then watchdogTimeout { c with watchdogArmed := false } else (c, []) :=
  rfl

end Coordinator

/-- What the io thread executes. -/
inductive Task
  | input (i : Input)
  | watchdogTimeout
  deriving DecidableEq, Repr

namespace Task

def exec (c : Coordinator) : Task → Coordinator × List PortCall
  | .input i => c.exec i
  | .watchdogTimeout => c.watchdogTimeout

/-- The task calls `StartIceDisconnectWatchdog` if the call is connected. -/
def Arms : Task → Prop
  | .input (.iceState s) => s.Unstable
  | _ => False

instance (t : Task) : Decidable t.Arms := by
  unfold Arms; split <;> infer_instance

def isMessage : Task → Bool
  | .input i => decide (i.route = .read)
  | .watchdogTimeout => false

end Task

/-- A queued task.  What stands beside the task is not known to the code: how many calls there had been when it
was queued, for which of them the last peer connection had been created, and how many ICE events had been
executed before the one that armed the watchdog that posted it. -/
structure Queued where
  task : Task
  call : ℕ
  connection : ℕ
  mark : ℕ := 0
  deriving DecidableEq, Repr

/-- The thread of `IceDisconnectWatchdog::Arm`, until it has called back; `due`: it has found its generation
current and has yet to call back. -/
structure WatchdogThread where
  generation : ℕ
  mark : ℕ
  due : Bool := false
  deriving DecidableEq, Repr

/-- `IceDisconnectWatchdog`. -/
structure Watchdog where
  generation : ℕ := 0
  thread : Option WatchdogThread := none
  deriving DecidableEq, Repr

/-- The coordinator behind its io thread.  `calls`, `connection` and `ice` are observations: the number of calls
begun, the call the last peer connection was created for, and the ICE events executed. -/
structure IoThread where
  client : Coordinator := .init
  queue : List Queued := []
  watchdog : Watchdog := {}
  calls : ℕ := 0
  connection : ℕ := 0
  ice : List IceState := []
  deriving DecidableEq, Repr

namespace IoThread

def enqueue (x : IoThread) (t : Task) (mark : ℕ) : IoThread :=
  { x with queue := x.queue ++ [{ task := t, call := x.calls, connection := x.connection, mark := mark }] }

/-- `PostToCallControl`, from another thread. -/
def postToCallControl (x : IoThread) (t : Task) (mark : ℕ) : IoThread :=
  if x.client.shutdownStarted then x else x.enqueue t mark

/-- `DisarmLocked`: a thread that is past its check is waited for, and posts its task meanwhile. -/
def disarm (x : IoThread) : IoThread :=
  let x' := { x with watchdog := { generation := x.watchdog.generation + 1 } }
  match x.watchdog.thread with
  | none => x'
  | some t => if t.due then x'.postToCallControl .watchdogTimeout t.mark else x'

/-- `Arm`. -/
def arm (x : IoThread) (mark : ℕ) : IoThread :=
  let x := x.disarm
  let generation := x.watchdog.generation + 1
  { x with watchdog := { generation := generation, thread := some { generation := generation, mark := mark } } }

/-- What is written down about an ICE event that is executed. -/
def iceAfter (c : Coordinator) (ice : List IceState) : Task → List IceState
  | .input (.iceState s) => if c.shutdownStarted then ice else ice ++ [s]
  | _ => ice

/-- The coordinator executes a task, and what is to be observed about it is written down. -/
def observe (x : IoThread) (t : Task) : IoThread :=
  let r := t.exec x.client
  let calls := if x.client.manager.callState = .idle ∧ r.1.manager.callState ≠ .idle then x.calls + 1 else x.calls
  { x with
      client := r.1
      calls := calls
      connection := if creations r.2 = 0 then x.connection else calls
      ice := iceAfter x.client x.ice t }

/-- A task and what it does to the watchdog: a task that leaves it disarmed has stopped it or found it
stopped, and only one that arms it starts a thread. -/
def react (x : IoThread) (t : Task) : IoThread :=
  let x' := x.observe t
  if x'.client.watchdogArmed = false then x'.disarm
  else if t.Arms then x'.arm x.ice.length
  else x'

end IoThread

/-- What can happen next. -/
inductive Move
  | post (i : Input)
  | read (i : Input)
  | execute
  | wake
  | expire
  | direct (i : Input)
  deriving DecidableEq, Repr

namespace IoThread

/-- A message is read only when none is queued: `StartRead` is called again after the dispatch. -/
def step (x : IoThread) : Move → IoThread
  | .post i => if i.route = .posted then x.postToCallControl (.input i) 0 else x
  | .read i => if i.route = .read ∧ x.queue.all (fun q => !q.task.isMessage) then x.enqueue (.input i) 0 else x
  | .execute =>
    match x.queue with
    | [] => x
    | q :: rest => { x with queue := rest }.react q.task
  | .wake =>
    match x.watchdog.thread with
    | none => x
    | some t =>
      if t.generation = x.watchdog.generation then
        { x with watchdog := { x.watchdog with thread := some { t with due := true } } }
      else x
  | .expire =>
    match x.watchdog.thread with
    | none => x
    | some t =>
      if t.due then
        { x with watchdog := { x.watchdog with thread := none } }.postToCallControl .watchdogTimeout t.mark
      else x
  | .direct i => if i.route = .direct then x.react (.input i) else x

end IoThread

/-! ### One task -/

theorem Input.op_eq_established {i : Input} (h : i.op = some .notifyPeerConnectionEstablished) :
    ∃ s, i = .iceState s := by
  cases i with
  | iceState s => exact ⟨s, rfl⟩
  | receive sender m => cases m <;> simp [Input.op] at h
  | _ => simp [Input.op] at h

namespace Coordinator

/-- The watchdog's task hangs up a connected call, and does nothing otherwise. -/
theorem watchdogTimeout_fst (c : Coordinator) :
    c.watchdogTimeout.1 = if c.manager.callState = .connected then c.step .endCall else c := by
  unfold watchdogTimeout step exec post
  by_cases hs : c.shutdownStarted = true
  · simp [hs]
  · by_cases hc : c.manager.callState = .connected
    · simp [hs, hc, andThen]
    · simp [hs, hc]

theorem creations_watchdogTimeout (c : Coordinator) :
    creations c.watchdogTimeout.2 = if c.manager.callState = .connected then creations (c.exec .endCall).2 else 0 := by
  unfold watchdogTimeout exec post
  by_cases hs : c.shutdownStarted = true
  · simp [hs]
  · by_cases hc : c.manager.callState = .connected
    · simp [hs, hc]
    · simp [hs, hc]

/-- **Only ICE connects a call**, and only one that is connecting. -/
theorem connected_by_ice {c : Coordinator} {i : Input} (hc : c.manager.callState ≠ .connected)
    (hc' : (c.step i).manager.callState = .connected) :
    c.manager.callState = .connecting ∧ ∃ s, i = .iceState s ∧ (s = .connected ∨ s = .completed) := by
  have hturn := c.exec_turn i
  have hstate : (c.exec i).1.manager.session.state = .connected := hc'
  generalize hm : (c.exec i).1.manager = m at hturn hstate
  generalize signals (c.exec i).2 = sent at hturn
  cases hturn with
  | nothing => exact absurd hstate hc
  | media _ => exact absurd hstate hc
  | closing => exact absurd hstate hc
  | expiry =>
    have hst : c.manager.expire.1.callState = .connected := hstate
    rcases c.manager.expire_callState with he | he
    · exact absurd (he.symm.trans hst) hc
    · simp [he] at hst
  | operation hop hs =>
    rename_i op
    have ht := c.manager.perform_transition op
    generalize (c.manager.perform op).1.session = y at ht hstate
    cases ht with
    | stay => exact absurd hstate hc
    | clear => simp at hstate
    | initiate => simp at hstate
    | receive => simp at hstate
    | accept => simp at hstate
    | accepted => simp at hstate
    | establish hcon =>
      obtain ⟨s, rfl⟩ := Input.op_eq_established hop
      refine ⟨hcon, s, rfl, ?_⟩
      by_contra hst
      -- any other ICE state leaves the manager alone
      have hkeep : (c.exec (.iceState s)).1.manager = c.manager := by
        simp only [exec, onIceConnectionStateChanged, post_eq hs, if_neg hst]
        split_ifs <;> rfl
      have hcs : (c.step (.iceState s)).manager.callState = c.manager.callState :=
        congrArg CallManager.callState hkeep
      rw [hcs] at hc'
      exact hc hc'

end Coordinator

namespace Task

open Coordinator

/-- **A task is an input**: its own, or the watchdog's task that of a hang-up if the call is connected. -/
theorem exec_cases (c : Coordinator) (t : Task) :
    (t = .watchdogTimeout ∧ c.manager.callState ≠ .connected ∧ (t.exec c).1 = c ∧ creations (t.exec c).2 = 0) ∨
    ∃ i, (t = .input i ∨ t = .watchdogTimeout ∧ i = .endCall ∧ c.manager.callState = .connected) ∧
      (t.exec c).1 = c.step i ∧ creations (t.exec c).2 = creations (c.exec i).2 := by
  cases t with
  | input i => exact Or.inr ⟨i, Or.inl rfl, rfl, rfl⟩
  | watchdogTimeout =>
    rw [show Task.watchdogTimeout.exec c = c.watchdogTimeout from rfl, watchdogTimeout_fst,
      creations_watchdogTimeout]
    by_cases hc : c.manager.callState = .connected
    · rw [if_pos hc, if_pos hc]
      exact Or.inr ⟨.endCall, Or.inr ⟨rfl, rfl, hc⟩, rfl, rfl⟩
    · rw [if_neg hc, if_neg hc]
      exact Or.inl ⟨rfl, hc, rfl, rfl⟩

theorem sound_exec {c : Coordinator} (h : Sound c) (t : Task) : Sound (t.exec c).1 := by
  rcases exec_cases c t with ⟨-, -, he, -⟩ | ⟨i, -, he, -⟩
  · rw [he]
    exact h
  · rw [he]
    exact sound_step c i h

end Task

namespace IoThread

/-! ### What a step leaves alone -/

/-- Nothing but the queue and the watchdog has changed. -/
structure SameClient (x x' : IoThread) : Prop where
  client : x'.client = x.client
  calls : x'.calls = x.calls
  connection : x'.connection = x.connection
  ice : x'.ice = x.ice

theorem sameClient_post (x : IoThread) (t : Task) (mark : ℕ) : SameClient x (x.postToCallControl t mark) := by
  unfold postToCallControl
  split_ifs <;> exact ⟨rfl, rfl, rfl, rfl⟩

theorem sameClient_disarm (x : IoThread) : SameClient x x.disarm := by
  unfold disarm
  cases x.watchdog.thread with
  | none => exact ⟨rfl, rfl, rfl, rfl⟩
  | some t =>
    dsimp only
    split_ifs
    · have h :=
        sameClient_post { x with watchdog := { generation := x.watchdog.generation + 1 } } .watchdogTimeout t.mark
      exact ⟨h.client, h.calls, h.connection, h.ice⟩
    · exact ⟨rfl, rfl, rfl, rfl⟩

theorem sameClient_react (x : IoThread) (t : Task) : SameClient (x.observe t) (x.react t) := by
  unfold react
  dsimp only
  split_ifs
  · exact sameClient_disarm _
  · have h := sameClient_disarm (x.observe t)
    exact ⟨h.client, h.calls, h.connection, h.ice⟩
  · exact ⟨rfl, rfl, rfl, rfl⟩

/-- Everything a move can do that does not execute a task. -/
inductive Quiet (x : IoThread) : Move → IoThread → Prop
  | idle {m : Move} (hm : m = .execute → x.queue = []) : Quiet x m x
  | posted (i : Input) (hi : i.route = .posted) : Quiet x (.post i) (x.postToCallControl (.input i) 0)
  | read (i : Input) (hi : i.route = .read) : Quiet x (.read i) (x.enqueue (.input i) 0)
  | woken (t : WatchdogThread) (ht : x.watchdog.thread = some t) :
    Quiet x .wake { x with watchdog := { x.watchdog with thread := some { t with due := true } } }
  | expired (t : WatchdogThread) (ht : x.watchdog.thread = some t) (hd : t.due = true) :
    Quiet x .expire
      ({ x with watchdog := { x.watchdog with thread := none } }.postToCallControl .watchdogTimeout t.mark)

/-- **A move** either executes a task, the next one or one of its own, or is quiet. -/
theorem step_cases (x : IoThread) (m : Move) :
    Quiet x m (x.step m) ∨
    (m = .execute ∧ ∃ q rest, x.queue = q :: rest ∧ x.step m = { x with queue := rest }.react q.task) ∨
    ∃ i, m = .direct i ∧ i.route = .direct ∧ x.step m = x.react (.input i) := by
  cases m with
  | post i =>
    refine Or.inl ?_
    simp only [step]
    split_ifs with hi
    · exact .posted i hi
    · exact .idle (by simp)
  | read i =>
    refine Or.inl ?_
    simp only [step]
    split_ifs with hi
    · exact .read i hi.1
    · exact .idle (by simp)
  | execute =>
    cases hq : x.queue with
    | nil =>
      refine Or.inl ?_
      simp only [step, hq]
      exact .idle fun _ => hq
    | cons q rest => exact Or.inr (Or.inl ⟨rfl, q, rest, rfl, by simp only [step, hq]⟩)
  | wake =>
    refine Or.inl ?_
    simp only [step]
    cases ht : x.watchdog.thread with
    | none => exact .idle (by simp)
    | some t =>
      dsimp only
      split_ifs
      · exact .woken t ht
      · exact .idle (by simp)
  | expire =>
    refine Or.inl ?_
    simp only [step]
    cases ht : x.watchdog.thread with
    | none => exact .idle (by simp)
    | some t =>
      dsimp only
      split_ifs with hd
      · exact .expired t ht hd
      · exact .idle (by simp)
  | direct i =>
    by_cases hi : i.route = .direct
    · exact Or.inr (Or.inr ⟨i, rfl, hi, if_pos hi⟩)
    · refine Or.inl ?_
      simp only [step, if_neg hi]
      exact .idle (by simp)

/-- The coordinator does not notice a quiet move. -/
theorem Quiet.sameClient {x x' : IoThread} {m : Move} (h : Quiet x m x') : SameClient x x' := by
  cases h with
  | idle => exact ⟨rfl, rfl, rfl, rfl⟩
  | posted i => exact sameClient_post _ _ _
  | read i => exact ⟨rfl, rfl, rfl, rfl⟩
  | woken t => exact ⟨rfl, rfl, rfl, rfl⟩
  | expired t =>
    have h := sameClient_post { x with watchdog := { x.watchdog with thread := none } } .watchdogTimeout t.mark
    exact ⟨h.client, h.calls, h.connection, h.ice⟩

/-! ### When the watchdog is armed -/

/-- The last ICE event that was executed is one the watchdog is for. -/
def LastUnstable (ice : List IceState) : Prop := ∃ s ∈ ice.getLast?, s.Unstable

instance (ice : List IceState) : Decidable (LastUnstable ice) :=
  decidable_of_iff (ice.getLast?.any fun s => decide s.Unstable) (by simp [LastUnstable, Option.any_eq_true])

@[simp] theorem lastUnstable_concat (ice : List IceState) (s : IceState) :
    LastUnstable (ice ++ [s]) ↔ s.Unstable := by
  simp [LastUnstable]

/-- The watchdog is armed exactly while the call is connected and ICE unstable. -/
structure Watched (c : Coordinator) (ice : List IceState) : Prop where
  sound : c.Sound
  armed_iff : c.shutdownStarted = false →
    (c.watchdogArmed = true ↔ c.manager.callState = .connected ∧ LastUnstable ice)

/-- The states a course leads to, as far as the watchdog goes. -/
theorem Course.armed_iff {ok : Bool} {x y : Standing} {n : ℕ} (h : Course ok x n y) (P : Prop)
    (hsame : x.armed = true ↔ x.session.state = .connected ∧ P)
    (hest : x.session.state = .connecting → y.session.state = .connected → ¬ P) :
    y.armed = true ↔ y.session.state = .connected ∧ P := by
  cases h with
  | same => exact hsame
  | begin z hx hz => rcases hz with hz | hz <;> simp [hz]
  | setUp hx => simp
  | establish hx =>
    have hd : x.armed ≠ true := fun ha => by simp [hx] at hsame; simp [hsame] at ha
    simpa [hd] using hest hx rfl
  | finish closes hx hc => simp

/-- An ICE event, executed before `Shutdown`. -/
theorem watched_iceState {c : Coordinator} (h : c.Sound) (hs : c.shutdownStarted = false) (s : IceState) :
    (c.step (.iceState s)).watchdogArmed = true ↔
      (c.step (.iceState s)).manager.callState = .connected ∧ s.Unstable := by
  obtain ⟨p, -, hc⟩ := Coordinator.exec_course hs (h.observer hs) h.nested.live (i := .iceState s) (by simp)
  refine Course.armed_iff hc s.Unstable ?_ fun hcon hcon' => ?_
  · simp only [Coordinator.armedAt, decide_eq_true_eq]
    exact and_comm
  · have hne : c.manager.callState ≠ .connected := by
      rw [show c.manager.callState = .connecting from hcon]
      simp
    obtain ⟨-, s', hs', hst⟩ := Coordinator.connected_by_ice hne hcon'
    cases hs'
    rcases hst with rfl | rfl <;> decide

/-- The watchdog's expiry, taken as one step. -/
theorem watched_watchdogExpiry {c : Coordinator} {ice : List IceState} (h : Watched c ice)
    (hs : c.shutdownStarted = false) :
    (c.step .watchdogExpiry).watchdogArmed = true ↔
      (c.step .watchdogExpiry).manager.callState = .connected ∧ LastUnstable ice := by
  by_cases ha : c.watchdogArmed = true
  · have hcon := ((h.armed_iff hs).mp ha).1
    have hstep : c.step .watchdogExpiry = Coordinator.step { c with watchdogArmed := false } .endCall := by
      show (c.onWatchdogExpired).1 = _
      rw [c.onWatchdogExpired_eq, if_pos ha, Coordinator.watchdogTimeout_fst, if_pos hcon]
    have hidle : (c.step .watchdogExpiry).manager.callState = .idle := by
      rw [hstep]
      simp only [Coordinator.step, Coordinator.exec]
      rw [Coordinator.post_eq (c := { c with watchdogArmed := false }) hs]
      exact Coordinator.endCall_callState (c := { c with watchdogArmed := false }) h.sound.coherent
    obtain ⟨p, -, hc⟩ :=
      Coordinator.exec_course hs (h.sound.observer hs) h.sound.nested.live (i := .watchdogExpiry) (by simp)
    have hoff := Course.armed_iff hc False (by simp [Coordinator.armedAt]) fun _ _ => id
    have harmed : ¬ (c.step .watchdogExpiry).watchdogArmed = true := fun ha' => (hoff.mp ha').2
    simp [harmed, hidle]
  · have hstep : c.step .watchdogExpiry = c := by
      show (c.onWatchdogExpired).1 = c
      rw [c.onWatchdogExpired_eq, if_neg ha]
    rw [hstep]
    exact h.armed_iff hs

/-- Any other input. -/
theorem watched_input {c : Coordinator} {ice : List IceState} (h : Watched c ice) {i : Input}
    (hs' : (c.step i).shutdownStarted = false) (hice : ∀ s, i ≠ .iceState s) :
    (c.step i).watchdogArmed = true ↔ (c.step i).manager.callState = .connected ∧ LastUnstable ice := by
  obtain ⟨hs, hi⟩ := Coordinator.step_alive hs'
  by_cases hw : i = .watchdogExpiry
  · subst hw
    exact watched_watchdogExpiry h hs
  · have ha : c.armedAt i = c.watchdogArmed := by
      cases i <;> first | rfl | exact absurd rfl (hice _) | exact absurd rfl hw
    obtain ⟨p, -, hc⟩ := Coordinator.exec_course hs (h.sound.observer hs) h.sound.nested.live hi
    rw [ha] at hc
    refine Course.armed_iff hc (LastUnstable ice) (h.armed_iff hs) fun hcon hcon' => ?_
    have hne : c.manager.callState ≠ .connected := by
      rw [show c.manager.callState = .connecting from hcon]
      simp
    obtain ⟨-, s', hs', -⟩ := Coordinator.connected_by_ice hne hcon'
    exact absurd hs' (hice s')

theorem watched_exec {c : Coordinator} {ice : List IceState} (h : Watched c ice) (t : Task) :
    Watched (t.exec c).1 (iceAfter c ice t) := by
  refine ⟨Task.sound_exec h.sound t, fun hs' => ?_⟩
  rcases t.exec_cases c with ⟨rfl, -, he, -⟩ | ⟨i, rfl | ⟨rfl, rfl, -⟩, he, -⟩
  · rw [he] at hs' ⊢
    exact h.armed_iff hs'
  · rw [he] at hs' ⊢
    by_cases hice : ∃ s, i = .iceState s
    · obtain ⟨s, rfl⟩ := hice
      have hs := (Coordinator.step_alive hs').1
      simp only [iceAfter, hs, Bool.false_eq_true, if_false, lastUnstable_concat]
      exact watched_iceState h.sound hs s
    · have hnot : ∀ s, i ≠ .iceState s := fun s hi => hice ⟨s, hi⟩
      have hkeep : iceAfter c ice (.input i) = ice := by
        cases i <;> first | rfl | exact absurd rfl (hnot _)
      rw [hkeep]
      exact watched_input h hs' hnot
  · rw [he] at hs' ⊢
    exact watched_input h hs' (by simp)

theorem watched_react {x : IoThread} (h : Watched x.client x.ice) (t : Task) :
    Watched (x.react t).client (x.react t).ice := by
  rw [(sameClient_react x t).client, (sameClient_react x t).ice]
  exact watched_exec h t

theorem watched_step (x : IoThread) (m : Move) (h : Watched x.client x.ice) :
    Watched (x.step m).client (x.step m).ice := by
  rcases x.step_cases m with hquiet | ⟨-, q, rest, -, he⟩ | ⟨i, -, -, he⟩
  · rw [hquiet.sameClient.client, hquiet.sameClient.ice]
    exact h
  · rw [he]
    exact watched_react (x := { x with queue := rest }) h q.task
  · rw [he]
    exact watched_react h (.input i)

theorem watched_run (l : List Move) : Watched (run step {} l).client (run step {} l).ice :=
  run_invariant' watched_step ⟨Coordinator.sound_init, by decide⟩ l

/-- A coordinator that has been shut down stays so. -/
theorem shutdown_step (x : IoThread) (m : Move) (hs : x.client.shutdownStarted = true) :
    (x.step m).client.shutdownStarted = true := by
  have hexec : ∀ t : Task, (t.exec x.client).1.shutdownStarted = true := by
    intro t
    by_contra hn
    rcases t.exec_cases x.client with ⟨-, -, he, -⟩ | ⟨i, -, he, -⟩
    · rw [he] at hn
      exact hn hs
    · rw [he] at hn
      simp [(Coordinator.step_alive (eq_false_of_ne_true hn)).1] at hs
  rcases x.step_cases m with hquiet | ⟨-, q, rest, -, he⟩ | ⟨i, -, -, he⟩
  · rw [hquiet.sameClient.client]
    exact hs
  · rw [he, (sameClient_react _ _).client]
    exact hexec q.task
  · rw [he, (sameClient_react _ _).client]
    exact hexec (.input i)

/-- **The watchdog is armed exactly when it is needed**: after any moves, before `Shutdown`, it is armed if and
only if the call is connected and the last ICE event that was executed is `Failed`, `Disconnected` or
`Closed`; and from `Shutdown` on it is not armed, whatever is executed. -/
theorem armed_iff_needed (l : List Move) :
    let x := run step {} l
    (x.client.shutdownStarted = false →
      (x.client.watchdogArmed = true ↔ x.client.manager.callState = .connected ∧ LastUnstable x.ice)) ∧
    (x.client.shutdownStarted = true → ∀ l', (run step x l').client.watchdogArmed = false) := by
  intro x
  refine ⟨(watched_run l).armed_iff, fun hs l' => ?_⟩
  have hs' : (run step x l').client.shutdownStarted = true := run_invariant' shutdown_step hs l'
  have hw : Watched (run step x l').client (run step x l').ice := by
    rw [← run_append]
    exact watched_run (l ++ l')
  exact (hw.sound.silent hs').2.2.1

end IoThread

end PeerCall
