import PeerCall.Call.IoThread
import PeerCall.Call.Mirror

/-!
# Call.Dialog — the dialog for an incoming call, and the answer given in it

`SdlApp` shows a dialog for the caller that `OnIncomingCall` has left in its state.  A button of the dialog posts
`AcceptCall` or `RejectCall` to the io thread, and takes the caller out of the state in a section of its own; the io
thread runs meanwhile, and has its queue to work through before it comes to the answer.  An answer carries nothing that
says which call it is for.

* `exec_does`: an input in service is at most one operation of the manager, between calls that nobody sees.
* `dialog_shows_ringing`: **the dialog is for the call that rings and has not been answered**, as long as the UI
  observer stays attached and no call begins to ring while an answer is still on its way or a button is between its
  two sections.
-/

namespace PeerCall.Dialog

open PeerCall.Lib Mirror

/-- The buttons of the dialog. -/
inductive Answer
  | accept | reject
  deriving DecidableEq, Repr

/-- What a button calls on the controller. -/
def Answer.input : Answer → Input
  | .accept => .acceptCall
  | .reject => .rejectCall "rejected"

/-- The input answers the call that rings when it is executed. -/
def answers : Input → Bool
  | .acceptCall | .rejectCall _ => true
  | _ => false

def answersTask : Task → Bool
  | .input i => answers i
  | .watchdogTimeout => false

/-- The user interface before the io thread; `clicked`: a button has posted its task and has yet to take the caller
out of the state. -/
structure Desk where
  io : IoThread := {}
  ui : UiSnapshot := {}
  clicked : Bool := false
  deriving DecidableEq, Repr

/-- A move of the io thread and its surroundings, or one of the two sections of a button. -/
inductive Step
  | io (m : Move)
  | click (a : Answer)
  | close
  deriving DecidableEq, Repr

/-- The calls that a move makes on the ports. -/
def calls (x : IoThread) : Move → List PortCall
  | .execute =>
    match x.queue with
    | [] => []
    | q :: _ => (q.task.exec x.client).2
  | .direct i => if i.route = .direct then (x.client.exec i).2 else []
  | _ => []

/-- The move posts an answer. -/
def answersMove : Move → Bool
  | .post i => answers i
  | _ => false

namespace Desk

/-- Only the buttons answer. -/
def step (x : Desk) : Step → Desk
  | .io m => if answersMove m then x else { x with io := x.io.step m, ui := watch.play x.ui (calls x.io m) }
  | .click a => if x.clicked then x else { x with io := x.io.step (.post a.input), clicked := true }
  | .close => if x.clicked then { x with ui := { x.ui with incomingCallerId := none }, clicked := false } else x

/-- The manager behind the coordinator. -/
def manager (x : Desk) : CallManager := x.io.client.manager

/-- An answer is in the queue. -/
def answering (x : Desk) : Bool := x.io.queue.any fun q => answersTask q.task

/-- The UI observer stays attached, and `Shutdown` is not called. -/
def Attended : Step → Prop
  | .io (.direct i) => Client.Attended (.input i)
  | _ => True

instance (s : Step) : Decidable (Attended s) := by unfold Attended; split <;> infer_instance

/-- The UI observer stays attached, and a call begins to ring only when no answer is on its way and no button is
between its two sections. -/
def Prompt (x : Desk) (s : Step) : Prop :=
  Attended s ∧ (x.manager.callState ≠ .receiving → (x.step s).manager.callState = .receiving →
      x.clicked = false ∧ x.answering = false)

instance (x : Desk) (s : Step) : Decidable (x.Prompt s) := inferInstanceAs (Decidable (_ ∧ _))

end Desk

/-! ### One input is at most one operation -/

/-- What an input in service does: calls that nobody sees, with at most one operation of the manager after them. -/
inductive Does (c : Coordinator) (i : Input) : Coordinator × List PortCall → Prop
  | quiet {c' : Coordinator} {ps : List PortCall} (hc : c.Same c') (hp : ∀ p ∈ ps, p.Quiet) (hi : answers i = false) :
    Does c i (c', ps)
  | operation {c' : Coordinator} {ps : List PortCall} (hc : c.Same c') (hp : ∀ p ∈ ps, p.Quiet) {op : Op}
    (hi : i.op = some op) : Does c i ((c'.perform op).1, ps ++ (c'.perform op).2)
  | expiry (hi : i = .timerExpiry) : Does c i (c.managed c.manager.expire)

theorem quiet_nil : ∀ p ∈ ([] : List PortCall), p.Quiet := fun _ hp => by cases hp

theorem same_refl (c : Coordinator) : c.Same c := ⟨rfl, rfl, rfl, rfl, rfl, rfl⟩

theorem quiet_ui {c : Coordinator} {cs : List UICall} (h : ∀ u ∈ cs, (PortCall.ui u).Quiet) :
    ∀ p ∈ c.ui cs, p.Quiet := by
  intro p hp
  unfold Coordinator.ui at hp
  split_ifs at hp
  · obtain ⟨u, hu, rfl⟩ := List.mem_map.mp hp
    exact h u hu
  · cases hp

theorem does_perform {c c' : Coordinator} {i : Input} (hc : c.Same c') {op : Op} (hi : i.op = some op) :
    Does c i (c'.perform op) := .operation hc quiet_nil hi

section Exec

variable {c : Coordinator} {i : Input} (hs : c.shutdownStarted = false)

include hs

theorem post_serving (task : Coordinator → Coordinator × List PortCall) : c.post task = task c :=
  if_neg (by simp [hs])

/-- A task that is one operation. -/
theorem does_post {op : Op} (hi : i.op = some op) : Does c i (c.post (·.perform op)) := by
  rw [post_serving hs]
  exact does_perform (same_refl c) hi

theorem does_sendMedia (hi : answers i = false) (m : String → SignalMessage) : Does c i (c.sendMedia m) := by
  unfold Coordinator.sendMedia
  rw [if_neg (by simp [hs])]
  exact .quiet (same_refl c) (by simp [PortCall.Quiet]) hi

theorem does_receive (sender : String) (m : SignalMessage) (hi : i = .receive sender m) :
    Does c i (c.receive sender m) := by
  subst hi
  unfold Coordinator.receive
  rw [if_neg (by simp [hs])]
  match m with
  | .call m => exact does_perform (same_refl c) rfl
  | .offer sdp =>
    dsimp only [Coordinator.processOffer]
    split_ifs
    · exact .quiet (same_refl c) (quiet_ui (by simp [PortCall.Quiet])) rfl
    · exact .quiet ⟨rfl, rfl, rfl, rfl, rfl, rfl⟩ (quiet_ui (by simp [PortCall.Quiet])) rfl
    · exact .quiet ⟨rfl, rfl, rfl, rfl, rfl, rfl⟩ (by simp [PortCall.Quiet]) rfl
    · exact .quiet (same_refl c) (quiet_ui (by simp [PortCall.Quiet])) rfl
  | .answer sdp =>
    dsimp only [Coordinator.processAnswer]
    split_ifs
    · exact .quiet (same_refl c) (quiet_ui (by simp [PortCall.Quiet])) rfl
    · exact .quiet (same_refl c) (by simp) rfl
    · exact .quiet (same_refl c) (by simp [PortCall.Quiet]) rfl
  | .iceCandidate candidate =>
    dsimp only [Coordinator.processIceCandidate]
    split_ifs
    · exact .quiet (same_refl c) (quiet_ui (by simp [PortCall.Quiet])) rfl
    · exact .quiet (same_refl c) (by simp) rfl
    · exact .quiet (same_refl c) (quiet_ui (by simp [PortCall.Quiet])) rfl
    · exact .quiet (same_refl c) (by simp [PortCall.Quiet]) rfl

/-- **An input in service is at most one operation.** -/
theorem exec_does (hi : i.Serves) : Does c i (c.exec i) := by
  cases i with
  | startCall peerId tick connected => exact does_post hs rfl
  | acceptCall => exact does_post hs rfl
  | rejectCall reason => exact does_post hs rfl
  | endCall => exact does_post hs rfl
  | timerExpiry => exact .expiry rfl
  | watchdogExpiry =>
    have hc : c.Same { c with watchdogArmed := false } := ⟨rfl, rfl, rfl, rfl, rfl, rfl⟩
    simp only [Coordinator.exec, Coordinator.onWatchdogExpired]
    split_ifs
    · rw [post_serving (by exact hs)]
      split_ifs
      · exact .quiet hc (by simp) rfl
      · exact .operation (i := .watchdogExpiry) hc (quiet_ui (by simp [PortCall.Quiet])) rfl
    · exact .quiet (same_refl c) (by simp) rfl
  | iceState state =>
    have hc : c.Same c.stopIceDisconnectWatchdog := ⟨rfl, rfl, rfl, rfl, rfl, rfl⟩
    simp only [Coordinator.exec, Coordinator.onIceConnectionStateChanged]
    rw [post_serving hs]
    split_ifs
    · exact does_perform (i := .iceState state) hc rfl
    · exact .quiet ⟨rfl, rfl, rfl, rfl, rfl, rfl⟩ (quiet_ui (by simp [PortCall.Quiet])) rfl
    · exact .quiet ⟨rfl, rfl, rfl, rfl, rfl, rfl⟩ (by simp) rfl
  | offerCreated sdp =>
    simp only [Coordinator.exec, Coordinator.onOfferCreated]
    exact does_sendMedia hs rfl _
  | answerCreated sdp =>
    simp only [Coordinator.exec, Coordinator.onAnswerCreated]
    exact does_sendMedia hs rfl _
  | iceCandidateGenerated mid index candidate =>
    simp only [Coordinator.exec, Coordinator.onIceCandidateGenerated]
    exact does_sendMedia hs rfl _
  | engineError error =>
    simp only [Coordinator.exec, Coordinator.onError]
    rw [if_neg (by simp [hs])]
    exact .quiet (same_refl c) (quiet_ui (by simp [PortCall.Quiet])) rfl
  | receive sender m => exact does_receive hs sender m rfl
  | userOffline clientId =>
    simp only [Coordinator.exec, Coordinator.onUserOffline]
    split_ifs
    · exact .quiet (same_refl c) (by simp) rfl
    · exact .quiet (same_refl c) (quiet_ui (by simp [PortCall.Quiet])) rfl
    · exact does_perform (same_refl c) rfl
  | setUIObserver attached => exact hi.elim
  | engineAnswers a b => exact hi.elim
  | shutdown => exact hi.elim

end Exec

/-! ### What the dialog is told -/

/-- What an operation of the manager comes to for the dialog. -/
inductive Heard (m m' : CallManager) (op : Op) (u u' : UiSnapshot) : Prop
  | ended (hm : m'.callState = .idle) (hu : u'.incomingCallerId = none)
  | rang (hm : m.callState ≠ .receiving) (hm' : m'.callState = .receiving)
    (hu : u'.incomingCallerId = some m'.currentPeer)
  | taken (hop : op = .acceptCall) (hm' : m'.callState ≠ .receiving) (hu : u'.incomingCallerId = u.incomingCallerId)
  | same (hm : m'.callState = .receiving ↔ m.callState = .receiving) (hp : m'.currentPeer = m.currentPeer ∨
    m'.callState ≠ .receiving) (hu : u'.incomingCallerId = u.incomingCallerId)

theorem incoming_changed (u : UiSnapshot) {state : CallState} (h : state ≠ .idle) (peer : String) :
    (u.onCallStateChanged state peer).incomingCallerId = u.incomingCallerId := by
  unfold UiSnapshot.onCallStateChanged
  rw [if_neg h]

/-- **Every operation of the manager**, as the dialog hears of it. -/
theorem heard_performed {m m' : CallManager} {op : Op} {es : List Event} (h : CallManager.Performed m op m' es)
    (ho : m.observer = some 0) (u : UiSnapshot) : Heard m m' op u (es.foldl UiSnapshot.hear u) := by
  cases h with
  | ignored op h => exact .same Iff.rfl (.inl rfl) rfl
  | setSignalTransport t => exact .same Iff.rfl (.inl rfl) rfl
  | registerObserver o => exact .same Iff.rfl (.inl rfl) rfl
  | initiated t target tick ht hs =>
    rw [ho]
    exact .same (by simp [hs]) (.inr (by simp)) (incoming_changed u (by simp : CallState.calling ≠ .idle) target)
  | cancelled hs =>
    rw [ho, List.foldl_append, hear_sendToPeer]
    exact .ended rfl rfl
  | accepted t ht hs =>
    rw [ho]
    exact .taken rfl (by simp) (incoming_changed u (by simp : CallState.connecting ≠ .idle) _)
  | rejected reason hs =>
    rw [ho, List.foldl_append, hear_sendToPeer]
    exact .ended rfl rfl
  | ended hs he =>
    rw [ho, List.foldl_append, List.foldl_append, hear_sendToPeer]
    exact .ended rfl rfl
  | established hs =>
    rw [ho]
    exact .same (by simp [hs]) (.inr (by simp)) (incoming_changed u (by simp : CallState.connected ≠ .idle) _)
  | timedOut hs =>
    rw [ho]
    exact .ended rfl rfl
  | rang sender c hc hs =>
    rw [ho]
    exact .rang (by simp [hs]) rfl rfl
  | busy t sender c hc hs ht => exact .same Iff.rfl (.inl rfl) rfl
  | answered reason hs hc =>
    rw [ho]
    exact .same (by simp [hs]) (.inr (by simp)) (incoming_changed u (by simp : CallState.connecting ≠ .idle) _)
  | refused o reason hs hc ho' =>
    rw [ho]
    exact .ended rfl rfl
  | refusedUnheard reason hs hc hn =>
    rw [ho] at hn
    cases hn
  | cancelledByPeer reason hs hc =>
    rw [ho]
    exact .ended rfl rfl
  | endedByPeer reason hs he hc =>
    rw [ho]
    exact .ended rfl rfl

/-- The end of the request timer. -/
theorem heard_expire {m : CallManager} (ho : m.observer = some 0) (u : UiSnapshot) :
    Heard m m.expire.1 .onCallRequestTimeout u (m.expire.2.foldl UiSnapshot.hear u) := by
  rw [CallManager.expire_eq]
  split_ifs
  · rw [ho]
    exact .ended rfl rfl
  · exact .same Iff.rfl (.inl rfl) rfl

theorem performed_signalTransport {m m' : CallManager} {op : Op} {es : List Event}
    (h : CallManager.Performed m op m' es) (hop : ∀ t, op ≠ .setSignalTransport t) :
    m'.signalTransport = m.signalTransport := by
  cases h with
  | setSignalTransport t => exact absurd rfl (hop t)
  | _ => rfl

/-- After an answer nobody rings. -/
theorem performed_answer {m m' : CallManager} {op : Op} {es : List Event} (h : CallManager.Performed m op m' es)
    (ht : m.signalTransport = some 0) {i : Input} (hi : i.op = some op) (ha : answers i = true) :
    m'.callState ≠ .receiving := by
  cases i with
  | acceptCall =>
    obtain rfl : Op.acceptCall = op := Option.some.inj hi
    cases h with
    | ignored op h => exact fun hs => h ⟨hs, by simp [ht]⟩
    | accepted t ht hs => simp
  | rejectCall reason =>
    obtain rfl : Op.rejectCall reason = op := Option.some.inj hi
    cases h with
    | ignored op h => exact h
    | rejected reason hs => exact fun h => CallState.noConfusion h
  | _ => simp [answers] at ha

/-- What an input comes to for the dialog. -/
structure Told (c : Coordinator) (i : Input) (u : UiSnapshot) (r : Coordinator × List PortCall) : Prop where
  faithful : Faithful r.1 (watch.play u r.2)
  signalTransport : r.1.manager.signalTransport = some 0
  heard : ∃ op, Heard c.manager r.1.manager op u (watch.play u r.2) ∧ (op = .acceptCall → answers i = true)
  answered : answers i = true → r.1.manager.callState ≠ .receiving

/-- Nobody hears of the calls before the operation. -/
theorem told_managed {c c' : Coordinator} {i : Input} {u : UiSnapshot} (h : Faithful c u) (hc : c.Same c')
    {ps : List PortCall} (hp : ∀ p ∈ ps, p.Quiet) {r : CallManager × List Event} (ho : r.1.observer = some 0)
    (hm : Mirrors r.1 (r.2.foldl UiSnapshot.hear u)) (ht : r.1.signalTransport = some 0) {op : Op}
    (hheard : Heard c.manager r.1 op u (r.2.foldl UiSnapshot.hear u)) (hop : op = .acceptCall → answers i = true)
    (ha : answers i = true → r.1.callState ≠ .receiving) :
    Told c i u ((c'.managed r).1, ps ++ (c'.managed r).2) := by
  have h' : Faithful c' u := watch.rel_same c c' u hc h
  have hmanager : (c'.managed r).1.manager = r.1 := Coordinator.managed_manager c' r.1 r.2
  have hplay : watch.play u (ps ++ (c'.managed r).2) = r.2.foldl UiSnapshot.hear u := by
    rw [Watch.play_append, watch.play_quiet hp]
    exact (see_onEvents r.2 (c := { c' with manager := r.1 }) h'.attached u).2
  have hleads : Faithful (c'.managed r).1 (watch.play u (c'.managed r).2) := leads_managed h' ho hm
  refine ⟨?_, by rw [hmanager]; exact ht, ⟨op, ?_, hop⟩, by rw [hmanager]; exact ha⟩
  · show Faithful _ (watch.play u (ps ++ _))
    rw [Watch.play_append, watch.play_quiet hp]
    exact hleads
  · show Heard _ _ _ _ (watch.play u (ps ++ _))
    rw [hplay, hmanager]
    exact hheard

theorem told_of_does {c : Coordinator} {i : Input} {u : UiSnapshot} {r : Coordinator × List PortCall}
    (hd : Does c i r) (h : Faithful c u) (ht : c.manager.signalTransport = some 0) : Told c i u r := by
  cases hd with
  | quiet hc hp hi =>
    refine ⟨?_, by rw [hc.manager]; exact ht, ⟨.endCall, ?_, by simp⟩, fun ha => absurd ha (by simp [hi])⟩
    · show Faithful _ (watch.play u _)
      rw [watch.play_quiet hp]
      exact watch.rel_same _ _ u hc h
    · show Heard _ _ _ _ (watch.play u _)
      rw [watch.play_quiet hp, hc.manager]
      exact .same Iff.rfl (.inl rfl) rfl
  | @operation c' ps hc hp op hi =>
    have hperf := CallManager.performed c'.manager op
    rw [hc.manager] at hperf
    have hports := i.op_ne_ports
    have hr : ∀ o, op ≠ .registerObserver o := fun o e => hports.2 o (e ▸ hi)
    have hs : ∀ t, op ≠ .setSignalTransport t := fun t e => hports.1 t (e ▸ hi)
    obtain ⟨ho, hm⟩ := mirrors_performed hperf h.observer hr h.mirrors
    have htransport := (performed_signalTransport hperf hs).trans ht
    unfold Coordinator.perform
    rw [hc.manager]
    refine told_managed h hc hp ho hm htransport (heard_performed hperf h.observer u) (fun e => ?_)
      (performed_answer hperf ht hi)
    have hi' : i = .acceptCall := Input.op_eq_acceptCall (by rw [hi, e])
    rw [hi']
    rfl
  | expiry hi =>
    obtain ⟨ho, hm⟩ := mirrors_expire h.observer h.mirrors
    have htransport : c.manager.expire.1.signalTransport = some 0 := by
      rw [CallManager.expire_eq]
      split_ifs <;> exact ht
    have hnone : answers i = true → c.manager.expire.1.callState ≠ .receiving := by
      rw [hi]
      exact fun ha => absurd ha (by simp [answers])
    exact told_managed h (same_refl c) quiet_nil ho hm htransport (heard_expire h.observer u) (by simp) hnone

/-- A task of the io thread. -/
theorem task_told {c : Coordinator} {u : UiSnapshot} (t : Task) (hserves : ∀ i, t = .input i → i.Serves)
    (h : Faithful c u) (ht : c.manager.signalTransport = some 0) :
    ∃ i, answers i = answersTask t ∧ Told c i u (t.exec c) := by
  cases t with
  | input i => exact ⟨i, rfl, told_of_does (exec_does h.serving (hserves i rfl)) h ht⟩
  | watchdogTimeout =>
    refine ⟨.endCall, rfl, told_of_does ?_ h ht⟩
    simp only [Task.exec, Coordinator.watchdogTimeout]
    rw [post_serving h.serving]
    split_ifs
    · exact .quiet (same_refl c) (by simp) rfl
    · exact .operation (i := .endCall) (same_refl c) (quiet_ui (by simp [PortCall.Quiet])) rfl

/-! ### The desk -/

/-- What every state of a prompt run satisfies. -/
structure Inv (x : Desk) : Prop where
  faithful : Faithful x.io.client x.ui
  signalTransport : x.manager.signalTransport = some 0
  serves : ∀ q ∈ x.io.queue, ∀ i, q.task = .input i → i.Serves
  shown : x.clicked = false → ∀ caller, x.ui.incomingCallerId = some caller ↔
    x.manager.callState = .receiving ∧ x.manager.currentPeer = caller ∧ x.answering = false
  clicked : x.clicked = true → x.manager.callState = .receiving → x.answering = true

/-- The watchdog's tasks are all that the io thread queues by itself. -/
theorem post_queue (x : IoThread) (t : Task) (mark : ℕ) :
    (x.postToCallControl t mark).queue = x.queue ∨
      ∃ q : Queued, q.task = t ∧ (x.postToCallControl t mark).queue = x.queue ++ [q] := by
  unfold IoThread.postToCallControl
  split_ifs
  · exact .inl rfl
  · exact .inr ⟨_, rfl, rfl⟩

/-- The queue has grown by tasks of the watchdog. -/
def Grown (l l' : List Queued) : Prop := ∃ ws, l' = l ++ ws ∧ ∀ q ∈ ws, q.task = .watchdogTimeout

theorem grown_refl (l : List Queued) : Grown l l := ⟨[], by simp, by simp⟩

theorem grown_post (x : IoThread) (mark : ℕ) : Grown x.queue (x.postToCallControl .watchdogTimeout mark).queue := by
  rcases post_queue x .watchdogTimeout mark with h | ⟨q, hq, h⟩
  · rw [h]
    exact grown_refl _
  · exact ⟨[q], h, by simpa using hq⟩

theorem grown_disarm (x : IoThread) : Grown x.queue x.disarm.queue := by
  unfold IoThread.disarm
  split
  · exact grown_refl _
  · dsimp only
    split_ifs
    · exact grown_post { x with watchdog := { generation := x.watchdog.generation + 1 } } _
    · exact grown_refl _

theorem grown_react (x : IoThread) (t : Task) : Grown x.queue (x.react t).queue := by
  unfold IoThread.react
  dsimp only
  split_ifs
  · exact grown_disarm (x.observe t)
  · exact grown_disarm (x.observe t)
  · exact grown_refl _

theorem grown_any {l l' : List Queued} (h : Grown l l') :
    (l'.any fun q => answersTask q.task) = l.any fun q => answersTask q.task := by
  obtain ⟨ws, rfl, hws⟩ := h
  have hnone : (ws.any fun q => answersTask q.task) = false := by
    rw [List.any_eq_false]
    intro q hq
    rw [hws q hq]
    simp [answersTask]
  rw [List.any_append, hnone, Bool.or_false]

theorem grown_serves {l l' : List Queued} (h : Grown l l') (hl : ∀ q ∈ l, ∀ i, q.task = .input i → i.Serves) :
    ∀ q ∈ l', ∀ i, q.task = .input i → i.Serves := by
  obtain ⟨ws, rfl, hws⟩ := h
  intro q hq i hi
  rcases List.mem_append.mp hq with hq | hq
  · exact hl q hq i hi
  · rw [hws q hq] at hi
    cases hi

/-- **A task is executed**, and `l` is what it leaves in the queue. -/
theorem Inv.task {x y : Desk} (h : Inv x) {t : Task} {l : List Queued} (hclient : y.io.client = (t.exec x.io.client).1)
    (hui : y.ui = watch.play x.ui (t.exec x.io.client).2) (hclicked : y.clicked = x.clicked)
    (hqueue : Grown l y.io.queue)
    (htold : ∃ i, answers i = answersTask t ∧ Told x.io.client i x.ui (t.exec x.io.client))
    (hl : ∀ q ∈ l, ∀ i, q.task = .input i → i.Serves)
    (hans : x.answering = (answersTask t || l.any fun q => answersTask q.task))
    (hprompt : x.manager.callState ≠ .receiving → y.manager.callState = .receiving →
      x.clicked = false ∧ x.answering = false) : Inv y := by
  obtain ⟨i, hi, hfaithful, htransport, ⟨op, hheard, hop⟩, hanswered⟩ := htold
  rw [← hui, ← hclient] at hfaithful hheard
  rw [← hclient] at htransport hanswered
  have hrest : y.answering = l.any fun q => answersTask q.task := grown_any hqueue
  have hkept : answersTask t = false → y.answering = x.answering := fun hf => by rw [hrest, hans, hf, Bool.false_or]
  refine ⟨hfaithful, htransport, grown_serves hqueue hl, fun hc caller => ?_, fun hc hrec => ?_⟩
  · rw [hclicked] at hc
    have hshown := h.shown hc
    cases ha : answersTask t with
    | true =>
      -- an answer leaves nobody ringing, and the dialog was closed before
      have hstill : y.manager.callState ≠ .receiving := hanswered (hi.trans ha)
      have hclosed : x.ui.incomingCallerId = none := by
        rw [Option.eq_none_iff_forall_ne_some]
        intro caller he
        have hnone := ((hshown caller).mp he).2.2
        simp [hans, ha] at hnone
      have hnone : y.ui.incomingCallerId = none := by
        cases hheard with
        | ended hm hu => exact hu
        | rang hm hm' hu => exact absurd hm' hstill
        | taken hop hm' hu => exact hu.trans hclosed
        | same hm hp hu => exact hu.trans hclosed
      simp [hnone, hstill]
    | false =>
      rw [hkept ha]
      cases hheard with
      | ended hm hu =>
        have hidle : y.manager.callState ≠ .receiving := by
          show y.io.client.manager.callState ≠ .receiving
          simp [hm]
        simp [hu, hidle]
      | rang hm hm' hu =>
        obtain ⟨-, hnone⟩ := hprompt hm hm'
        have hrec : y.manager.callState = .receiving := hm'
        rw [hu, hnone]
        exact ⟨fun he => ⟨hrec, Option.some.inj he, rfl⟩, fun hh => congrArg some hh.2.1⟩
      | taken hacc hm' hu => exact absurd (hop hacc) (by simp [hi, ha])
      | same hm hp hu =>
        rw [hu, hshown caller]
        have hrec : y.manager.callState = .receiving ↔ x.manager.callState = .receiving := hm
        rw [hrec]
        refine and_congr_right fun hx => ?_
        have hpeer : y.manager.currentPeer = x.manager.currentPeer := hp.resolve_right fun hn => hn (hm.mpr hx)
        rw [hpeer]
  · rw [hclicked] at hc
    cases ha : answersTask t with
    | true => exact absurd hrec (hanswered (hi.trans ha))
    | false =>
      rw [hkept ha]
      by_cases hx : x.manager.callState = .receiving
      · exact h.clicked hc hx
      · exact absurd hc (by simp [(hprompt hx hrec).1])

/-- Nothing is executed: the queue changes by what is no answer. -/
theorem Inv.quiet {x y : Desk} (h : Inv x) (hclient : y.io.client = x.io.client) (hui : y.ui = x.ui)
    (hclicked : y.clicked = x.clicked) (hserves : ∀ q ∈ y.io.queue, ∀ i, q.task = .input i → i.Serves)
    (hans : y.answering = x.answering) : Inv y := by
  have hm : y.manager = x.manager := congrArg Coordinator.manager hclient
  refine ⟨?_, by rw [hm]; exact h.signalTransport, hserves, ?_, ?_⟩
  · rw [hclient, hui]
    exact h.faithful
  · rw [hclicked, hui, hm, hans]
    exact h.shown
  · rw [hclicked, hm, hans]
    exact h.clicked

theorem serves_of_route {i : Input} (h : i.route = .posted ∨ i.route = .read) : i.Serves := by
  cases i <;> first | trivial | simp [Input.route] at h

/-- What is put into the queue from outside. -/
theorem Inv.queued {x y : Desk} (h : Inv x) (hclient : y.io.client = x.io.client) (hui : y.ui = x.ui)
    (hclicked : y.clicked = x.clicked) {q : Queued} (hqueue : y.io.queue = x.io.queue ++ [q])
    (hserves : ∀ i, q.task = .input i → i.Serves) (hq : answersTask q.task = false) : Inv y := by
  refine h.quiet hclient hui hclicked (fun q' hq' i hi => ?_) ?_
  · rw [hqueue] at hq'
    rcases List.mem_append.mp hq' with hq' | hq'
    · exact h.serves q' hq' i hi
    · obtain rfl : q' = q := by simpa using hq'
      exact hserves i hi
  · unfold Desk.answering
    rw [hqueue, List.any_append]
    simp [hq]

/-- An input from somewhere else, while the UI observer stays attached. -/
theorem direct_told {c : Coordinator} {u : UiSnapshot} {i : Input} (hi : Client.Attended (.input i))
    (h : Faithful c u) (ht : c.manager.signalTransport = some 0) : Told c i u (c.exec i) := by
  by_cases hserves : i.Serves
  · exact told_of_does (exec_does h.serving hserves) h ht
  · have hsame : Heard c.manager c.manager .endCall u u := .same Iff.rfl (.inl rfl) rfl
    cases i with
    | engineAnswers a b =>
      exact ⟨⟨h.attached, h.serving, h.observer, h.mirrors⟩, ht, ⟨.endCall, hsame, by simp⟩, by simp [answers]⟩
    | setUIObserver attached =>
      exact ⟨⟨hi, h.serving, h.observer, h.mirrors⟩, ht, ⟨.endCall, hsame, by simp⟩, by simp [answers]⟩
    | shutdown => exact hi.elim
    | _ => exact absurd trivial hserves

/-- The first section of a button: from now on an answer is on its way. -/
theorem inv_click {x : Desk} (h : Inv x) (a : Answer) (hc : x.clicked = false) : Inv (x.step (.click a)) := by
  have hserving : x.io.client.shutdownStarted = false := h.faithful.serving
  have hposted : a.input.route = .posted := by cases a <;> rfl
  have hstep : x.io.step (.post a.input) = x.io.enqueue (.input a.input) 0 := by
    simp [IoThread.step, hposted, IoThread.postToCallControl, hserving]
  have hx : x.step (.click a) = { x with io := x.io.enqueue (.input a.input) 0, clicked := true } := by
    simp [Desk.step, hc, hstep]
  have hans : (x.step (.click a)).answering = true := by
    rw [hx]
    show (x.io.queue ++ [_]).any _ = true
    rw [List.any_append]
    cases a <;> simp [answersTask, answers, Answer.input]
  refine ⟨by rw [hx]; exact h.faithful, by rw [hx]; exact h.signalTransport, ?_, ?_, fun _ _ => hans⟩
  · rw [hx]
    intro q hq i hi
    rcases List.mem_append.mp hq with hq | hq
    · exact h.serves q hq i hi
    · obtain rfl : q = ⟨.input a.input, x.io.calls, x.io.connection, 0⟩ := by simpa using hq
      cases hi
      exact serves_of_route (.inl hposted)
  · rw [hx]
    exact fun hf => absurd hf (by simp)

/-- The second one: whoever still rings has been answered. -/
theorem inv_close {x : Desk} (h : Inv x) (hc : x.clicked = true) : Inv (x.step .close) := by
  have hx : x.step .close = { x with ui := { x.ui with incomingCallerId := none }, clicked := false } := by
    simp [Desk.step, hc]
  rw [hx]
  refine ⟨?_, h.signalTransport, h.serves, fun _ caller => ?_, fun hf => absurd hf (by simp)⟩
  · have hf := h.faithful
    exact ⟨hf.attached, hf.serving, hf.observer, hf.mirrors.callState, hf.mirrors.currentPeerId, fun _ => rfl⟩
  · refine ⟨fun he => absurd he (by simp), fun ⟨hrec, _, hnone⟩ => ?_⟩
    have hans : x.answering = true := h.clicked hc hrec
    exact absurd (hans.symm.trans hnone) (by simp)

/-- What a move of the io thread makes of the desk, unless it is one that only the buttons make. -/
def Desk.move (x : Desk) (m : Move) : Desk := { x with io := x.io.step m, ui := watch.play x.ui (calls x.io m) }

theorem inv_post {x : Desk} (h : Inv x) {i : Input} (hi : answers i = false) : Inv (x.move (.post i)) := by
  by_cases hroute : i.route = .posted
  · have hstep : x.io.step (.post i) = x.io.enqueue (.input i) 0 := by
      simp [IoThread.step, hroute, IoThread.postToCallControl, h.faithful.serving]
    refine h.queued ?_ rfl rfl (q := ⟨.input i, x.io.calls, x.io.connection, 0⟩) ?_ ?_ hi
    · show (x.io.step (.post i)).client = _
      rw [hstep]
      rfl
    · show (x.io.step (.post i)).queue = _
      rw [hstep]
      rfl
    · rintro j hj
      cases hj
      exact serves_of_route (.inl hroute)
  · have hstep : x.io.step (.post i) = x.io := if_neg hroute
    unfold Desk.move
    rw [hstep]
    exact h

theorem inv_read {x : Desk} (h : Inv x) (i : Input) : Inv (x.move (.read i)) := by
  by_cases hi : i.route = .read ∧ x.io.queue.all (fun q => !q.task.isMessage)
  · have hstep : x.io.step (.read i) = x.io.enqueue (.input i) 0 := if_pos hi
    refine h.queued ?_ rfl rfl (q := ⟨.input i, x.io.calls, x.io.connection, 0⟩) ?_ ?_ ?_
    · show (x.io.step (.read i)).client = _
      rw [hstep]
      rfl
    · show (x.io.step (.read i)).queue = _
      rw [hstep]
      rfl
    · rintro j hj
      cases hj
      exact serves_of_route (.inr hi.1)
    · -- a message is no answer
      have hread := hi.1
      cases i <;> first | rfl | simp [Input.route] at hread
  · have hstep : x.io.step (.read i) = x.io := if_neg hi
    unfold Desk.move
    rw [hstep]
    exact h

/-- The io thread executes the first task of its queue. -/
theorem inv_execute {x : Desk} (h : Inv x) (hprompt : x.manager.callState ≠ .receiving →
    (x.move .execute).manager.callState = .receiving → x.clicked = false ∧ x.answering = false) :
    Inv (x.move .execute) := by
  unfold Desk.move at hprompt ⊢
  cases hq : x.io.queue with
  | nil =>
    have hstep : x.io.step .execute = x.io := by simp [IoThread.step, hq]
    rw [hstep]
    simp only [calls, hq]
    exact h
  | cons q rest =>
    have hserves := h.serves
    rw [hq] at hserves
    have hstep : x.io.step .execute = { x.io with queue := rest }.react q.task := by simp [IoThread.step, hq]
    rw [hstep] at hprompt ⊢
    refine h.task (t := q.task) (l := rest) ?_ ?_ rfl (grown_react { x.io with queue := rest } q.task)
      (task_told q.task (hserves q List.mem_cons_self) h.faithful h.signalTransport)
      (fun q' hq' => hserves q' (List.mem_cons_of_mem q hq')) ?_ hprompt
    · exact (IoThread.sameClient_react { x.io with queue := rest } q.task).client
    · simp only [calls, hq]
    · simp [Desk.answering, hq]

theorem inv_wake {x : Desk} (h : Inv x) : Inv (x.move .wake) := by
  have hquiet : (x.io.step .wake).client = x.io.client ∧ (x.io.step .wake).queue = x.io.queue := by
    simp only [IoThread.step]
    split
    · exact ⟨rfl, rfl⟩
    · split_ifs <;> exact ⟨rfl, rfl⟩
  refine h.quiet hquiet.1 rfl rfl ?_ ?_
  · show ∀ q ∈ (x.io.step .wake).queue, _
    rw [hquiet.2]
    exact h.serves
  · unfold Desk.answering Desk.move
    rw [hquiet.2]

theorem inv_expire {x : Desk} (h : Inv x) : Inv (x.move .expire) := by
  have hgrown : Grown x.io.queue (x.io.step .expire).queue := by
    simp only [IoThread.step]
    split
    · exact grown_refl _
    · split_ifs
      · exact grown_post { x.io with watchdog := { x.io.watchdog with thread := none } } _
      · exact grown_refl _
  have hclient : (x.io.step .expire).client = x.io.client := by
    rcases x.io.step_cases .expire with hquiet | ⟨he, -⟩ | ⟨i, he, -⟩
    · exact hquiet.sameClient.client
    · cases he
    · cases he
  exact h.quiet hclient rfl rfl (grown_serves hgrown h.serves) (grown_any hgrown)

/-- Something else than the io thread works on the client. -/
theorem inv_direct {x : Desk} (h : Inv x) {i : Input} (hattended : Client.Attended (.input i))
    (hprompt : x.manager.callState ≠ .receiving → (x.move (.direct i)).manager.callState = .receiving →
      x.clicked = false ∧ x.answering = false) : Inv (x.move (.direct i)) := by
  unfold Desk.move at hprompt ⊢
  by_cases hi : i.route = .direct
  · rw [show x.io.step (.direct i) = x.io.react (.input i) from if_pos hi] at hprompt ⊢
    refine h.task (t := .input i) (l := x.io.queue) ?_ ?_ rfl (grown_react x.io (.input i))
      ⟨i, rfl, direct_told hattended h.faithful h.signalTransport⟩ h.serves ?_ hprompt
    · exact (IoThread.sameClient_react x.io (.input i)).client
    · simp only [calls, if_pos hi]
      rfl
    · have hnone : answersTask (.input i) = false := by cases i <;> first | rfl | simp [Input.route] at hi
      rw [hnone, Bool.false_or]
      rfl
  · rw [show x.io.step (.direct i) = x.io from if_neg hi]
    simp only [calls, if_neg hi]
    exact h

theorem inv_step (x : Desk) (s : Step) (h : Inv x) (hok : x.Prompt s) : Inv (x.step s) := by
  obtain ⟨hattended, hprompt⟩ := hok
  cases s with
  | click a =>
    by_cases hc : x.clicked = true
    · simpa [Desk.step, hc] using h
    · exact inv_click h a (by simpa using hc)
  | close =>
    by_cases hc : x.clicked = true
    · exact inv_close h hc
    · simpa [Desk.step, hc] using h
  | io m =>
    by_cases hm : answersMove m = true
    · simpa [Desk.step, hm] using h
    have hx : x.step (.io m) = x.move m := if_neg hm
    rw [hx] at hprompt ⊢
    cases m with
    | post i => exact inv_post h (eq_false_of_ne_true hm)
    | read i => exact inv_read h i
    | execute => exact inv_execute h hprompt
    | wake => exact inv_wake h
    | expire => exact inv_expire h
    | direct i => exact inv_direct h hattended hprompt

theorem inv_init : Inv {} :=
  ⟨Client.faithful_init, rfl, by simp, fun _ caller => by simp [Desk.manager, Coordinator.init], by simp⟩

/-- **The dialog is for the call that rings and has not been answered.**  In every run in which the UI observer stays
attached and no call begins to ring while an answer is on its way or a button is between its sections: outside of a
button's sections, the dialog names a caller exactly when the manager is receiving a call of that caller and no answer
to it is in the queue; and the user interface has the manager's call. -/
theorem dialog_shows_ringing (l : List Step) (hl : Meets Desk.step Desk.Prompt {} l) :
    let x := run Desk.step {} l
    Mirrors x.manager x.ui ∧ (x.clicked = false → ∀ caller, x.ui.incomingCallerId = some caller ↔
      x.manager.callState = .receiving ∧ x.manager.currentPeer = caller ∧ x.answering = false) := by
  intro x
  have h : Inv x := run_invariant (P := Inv) inv_step inv_init hl
  exact ⟨h.faithful.mirrors, h.shown⟩

/-- Bob calls. -/
def bobCalls : List Step := [.io (.read (.receive "bob" (.call (.callRequest "b1")))), .io .execute]

/-- The dialog names bob until he is answered. -/
theorem bob_rings :
    (run Desk.step {} bobCalls).ui.incomingCallerId = some "bob" ∧
      (run Desk.step {} (bobCalls ++ [.click .accept, .close])).ui.incomingCallerId = none := by
  have hring := (dialog_shows_ringing bobCalls (by decide)).2 rfl "bob"
  have hanswered := (dialog_shows_ringing (bobCalls ++ [.click .accept, .close]) (by decide)).2 rfl
  refine ⟨hring.mpr (by decide), ?_⟩
  rw [Option.eq_none_iff_forall_ne_some]
  intro caller he
  exact absurd ((hanswered caller).mp he).2.2 (by decide)

/-- Bob has given up and carol's call is next in the queue when the button is clicked: her call is accepted, with the
dialog for it still open. -/
example :
    let x := run Desk.step {} (bobCalls ++ [.io (.read (.receive "bob" (.call (.callCancel "b1" "cancelled")))),
      .io .execute, .io (.read (.receive "carol" (.call (.callRequest "c1")))), .click .accept, .close, .io .execute,
      .io .execute])
    x.ui.incomingCallerId = some "carol" ∧ x.manager.callState = .connecting := by
  decide

end PeerCall.Dialog
