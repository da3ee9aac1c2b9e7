import PeerCall.Call.Views
import PeerCall.Lib.Runs

/-!
# Call.Mirror — the user interface's copy of the call

`SdlApp` enables its buttons from its own copy of the call, which it writes when the coordinator forwards a
notification of the manager.  The manager notifies before it has written a rejection and after everything
else, and never tells of `ending`.  **`ui_mirrors_manager`**: after every input the copy is what the manager
has.
-/

namespace PeerCall.Mirror

open PeerCall.Lib CallManager

/-- What `SdlApp::UiSnapshot` keeps of the call. -/
structure UiSnapshot where
  callState : CallState := .idle
  currentPeerId : String := ""
  incomingCallerId : Option String := none
  deriving DecidableEq, Repr

namespace UiSnapshot

/-- `SdlApp::OnCallStateChanged`. -/
def onCallStateChanged (u : UiSnapshot) (state : CallState) (peerId : String) : UiSnapshot :=
  let u := { u with callState := state, currentPeerId := peerId }
  if state = .idle then { u with incomingCallerId := none } else u

/-- `SdlApp::OnIncomingCall`. -/
def onIncomingCall (u : UiSnapshot) (callerId : String) : UiSnapshot :=
  { u with incomingCallerId := some callerId }

/-- The calls of the coordinator that reach the copy. -/
def see (u : UiSnapshot) : PortCall → UiSnapshot
  | .ui (.onCallStateChanged state peerId) => u.onCallStateChanged state peerId
  | .ui (.onIncomingCall callerId) => u.onIncomingCall callerId
  | _ => u

/-- The calls of the manager that reach the copy. -/
def hear (u : UiSnapshot) : Event → UiSnapshot
  | .notify _ (.onCallStateChanged state peerId) => u.onCallStateChanged state peerId
  | .notify _ (.onIncomingCall callerId) => u.onIncomingCall callerId
  | _ => u

end UiSnapshot

/-- **The copy is what the manager has**, and nobody rings while the manager is idle. -/
structure Mirrors (m : CallManager) (u : UiSnapshot) : Prop where
  callState : u.callState = m.callState
  currentPeerId : u.currentPeerId = m.currentPeer
  incomingCallerId : m.callState = .idle → u.incomingCallerId = none

/-- The coordinator is initialized, not shut down, and has a UI; and the copy is what its manager has. -/
structure Faithful (c : Coordinator) (u : UiSnapshot) : Prop where
  attached : c.uiObserver = true
  serving : c.shutdownStarted = false
  observer : c.manager.observer = some 0
  mirrors : Mirrors c.manager u

/-- The copy follows the coordinator's calls. -/
def watch : Watch UiSnapshot where
  see := UiSnapshot.see
  Rel := Faithful
  see_quiet u p hp := by
    rcases p with e | ⟨dest, m⟩ | c
    · rfl
    · rfl
    · cases c <;> first | rfl | exact hp.elim
  rel_same c c' u hc h :=
    ⟨hc.uiObserver.trans h.attached, hc.shutdownStarted.trans h.serving, hc.manager ▸ h.observer,
      hc.manager ▸ h.mirrors⟩
  serving _ _ h := h.serving

/-! ### The coordinator forwards what the manager tells -/

theorem see_stopMedia (c : Coordinator) (u : UiSnapshot) : watch.play u c.stopMedia.2 = u := by
  unfold Coordinator.stopMedia Coordinator.closePeerConnection Coordinator.ui Watch.play
  dsimp only [andThen]
  split_ifs <;> rfl

theorem see_onNeedCreatePeerConnection (c : Coordinator) (u : UiSnapshot) (peerId : String) (isCaller : Bool) :
    watch.play u (c.onNeedCreatePeerConnection peerId isCaller).2 = u := by
  unfold Coordinator.onNeedCreatePeerConnection Coordinator.ui Watch.play
  dsimp only [andThen]
  split_ifs <;> rfl

/-- The coordinator keeps its UI observer. -/
theorem onEvent_uiObserver (c : Coordinator) (e : Event) : (c.onEvent e).1.uiObserver = c.uiObserver := by
  cases e with
  | send t dest m => rfl
  | notify o cb =>
    cases cb with
    | onCallStateChanged state peerId =>
      simp only [Coordinator.onEvent, Coordinator.onCallback, Coordinator.onCallStateChanged]
      split_ifs <;> rfl
    | onNeedCreatePeerConnection peerId isCaller =>
      simp only [Coordinator.onEvent, Coordinator.onCallback, Coordinator.onNeedCreatePeerConnection]
      split_ifs <;> rfl
    | _ => rfl

theorem see_ui {c : Coordinator} (hc : c.uiObserver = true) (u : UiSnapshot) (call : UICall) :
    watch.play u (c.ui [call]) = u.see (.ui call) := by
  unfold Coordinator.ui
  rw [if_pos hc]
  rfl

theorem onCallStateChanged_calls (c : Coordinator) (state : CallState) (peerId : String) :
    (c.onCallStateChanged state peerId).2 = c.ui [.onCallStateChanged state peerId] := by
  unfold Coordinator.onCallStateChanged
  dsimp only
  split_ifs <;> rfl

/-- **One call of the manager reaches the copy.** -/
theorem see_onEvent {c : Coordinator} (hc : c.uiObserver = true) (u : UiSnapshot) (e : Event) :
    watch.play u (c.onEvent e).2 = u.hear e := by
  cases e with
  | send t dest m => rfl
  | notify o cb =>
    cases cb with
    | onCallStateChanged state peerId =>
      show watch.play u (c.onCallStateChanged state peerId).2 = _
      rw [onCallStateChanged_calls, see_ui hc]
      rfl
    | onIncomingCall callerId => exact see_ui hc u (.onIncomingCall callerId)
    | onCallAccepted peerId => rfl
    | onCallRejected peerId reason => exact see_stopMedia c u
    | onCallCancelled peerId reason => exact see_stopMedia c u
    | onCallEnded peerId reason => exact Watch.play_ui _ (by simp [PortCall.Quiet])
    | onCallTimeout => exact see_stopMedia c u
    | onNeedCreatePeerConnection peerId isCaller => exact see_onNeedCreatePeerConnection c u peerId isCaller
    | onNeedClosePeerConnection => exact see_stopMedia _ u

theorem see_onEvents (es : List Event) : ∀ {c : Coordinator} (_ : c.uiObserver = true) (u : UiSnapshot),
    (c.onEvents es).1.uiObserver = true ∧ watch.play u (c.onEvents es).2 = es.foldl UiSnapshot.hear u := by
  induction es with
  | nil => exact fun hc u => ⟨hc, rfl⟩
  | cons e es ih =>
    intro c hc u
    obtain ⟨h1, h2⟩ := ih ((onEvent_uiObserver c e).trans hc) (u.hear e)
    refine ⟨h1, ?_⟩
    show watch.play u ((c.onEvent e).2 ++ _) = _
    rw [Watch.play_append, see_onEvent hc, h2]
    rfl

/-! ### What each operation leaves -/

@[simp] theorem hear_sendToPeer (u : UiSnapshot) (t : Option ℕ) (peer : String) (m : CallMessage) :
    (sendToPeer t peer m).foldl UiSnapshot.hear u = u := by
  unfold sendToPeer
  cases t with
  | none => rfl
  | some t =>
    dsimp only
    split_ifs <;> rfl

/-- A call that is over. -/
theorem mirrors_cleared (m : CallManager) (u : UiSnapshot) :
    Mirrors m.cleared (u.onCallStateChanged .idle "") :=
  ⟨rfl, rfl, fun _ => rfl⟩

/-- A call that goes on. -/
theorem mirrors_changed {m : CallManager} (u : UiSnapshot) {state : CallState} {peer : String}
    (hs : m.callState = state) (hp : m.currentPeer = peer) (hidle : state ≠ .idle) :
    Mirrors m (u.onCallStateChanged state peer) := by
  unfold UiSnapshot.onCallStateChanged
  rw [if_neg hidle]
  exact ⟨hs.symm, hp.symm, fun h => absurd (hs.symm.trans h) hidle⟩

/-- **Every operation of the manager**: what it tells brings the copy to what it leaves. -/
theorem mirrors_performed {m m' : CallManager} {op : Op} {es : List Event} (h : Performed m op m' es)
    (ho : m.observer = some 0) (hr : ∀ o, op ≠ .registerObserver o) {u : UiSnapshot} (hu : Mirrors m u) :
    m'.observer = some 0 ∧ Mirrors m' (es.foldl UiSnapshot.hear u) := by
  cases h with
  | ignored op h => exact ⟨ho, hu⟩
  | setSignalTransport t => exact ⟨ho, hu.callState, hu.currentPeerId, hu.incomingCallerId⟩
  | registerObserver o => exact absurd rfl (hr o)
  | initiated t target tick ht hs =>
    rw [ho]
    exact ⟨rfl, mirrors_changed u rfl rfl (by simp)⟩
  | cancelled hs =>
    rw [ho, List.foldl_append, hear_sendToPeer]
    exact ⟨ho, mirrors_cleared m u⟩
  | accepted t ht hs =>
    rw [ho]
    exact ⟨rfl, mirrors_changed u rfl rfl (by simp)⟩
  | rejected reason hs =>
    rw [ho, List.foldl_append, hear_sendToPeer]
    exact ⟨ho, mirrors_cleared m u⟩
  | ended hs he =>
    rw [ho, List.foldl_append, List.foldl_append, hear_sendToPeer]
    exact ⟨ho, mirrors_cleared m u⟩
  | established hs =>
    rw [ho]
    exact ⟨rfl, mirrors_changed u rfl rfl (by simp)⟩
  | timedOut hs =>
    rw [ho]
    exact ⟨ho, mirrors_cleared m u⟩
  | rang sender c hc hs =>
    rw [ho]
    refine ⟨rfl, ?_⟩
    obtain ⟨h1, h2, -⟩ := mirrors_changed (m := { m with currentPeer := sender, callState := .receiving }) u rfl
      rfl (by simp)
    exact ⟨h1, h2, fun h => CallState.noConfusion h⟩
  | busy t sender c hc hs ht => exact ⟨ho, hu⟩
  | answered reason hs hc =>
    rw [ho]
    exact ⟨ho, mirrors_changed u rfl rfl (by simp)⟩
  | refused o reason hs hc ho' =>
    rw [ho]
    exact ⟨ho, mirrors_cleared m.stopCallRequestTimerLocked (u.onCallStateChanged .idle m.currentPeer)⟩
  | refusedUnheard reason hs hc hn =>
    rw [ho] at hn
    cases hn
  | cancelledByPeer reason hs hc =>
    rw [ho]
    exact ⟨ho, mirrors_cleared m u⟩
  | endedByPeer reason hs he hc =>
    rw [ho]
    exact ⟨ho, mirrors_cleared m u⟩

/-- The end of the request timer. -/
theorem mirrors_expire {m : CallManager} (ho : m.observer = some 0) {u : UiSnapshot} (hu : Mirrors m u) :
    m.expire.1.observer = some 0 ∧ Mirrors m.expire.1 (m.expire.2.foldl UiSnapshot.hear u) := by
  rw [CallManager.expire_eq]
  split_ifs
  · rw [ho]
    exact ⟨ho, mirrors_cleared m.timerWoken u⟩
  · exact ⟨ho, hu.callState, hu.currentPeerId, hu.incomingCallerId⟩

/-! ### Runs -/

/-- The calls of an operation reach the copy. -/
theorem leads_managed {c : Coordinator} {u : UiSnapshot} (h : Faithful c u) {r : CallManager × List Event}
    (ho : r.1.observer = some 0) (hm : Mirrors r.1 (r.2.foldl UiSnapshot.hear u)) :
    watch.Leads u (c.managed r) := by
  obtain ⟨hui, hplay⟩ := see_onEvents r.2 (c := { c with manager := r.1 }) h.attached u
  have hkept := Coordinator.onEvents_handled r.2 { c with manager := r.1 }
  refine Watch.leads_of_play hplay ⟨hui, hkept.shutdownStarted.trans h.serving, ?_, ?_⟩
  · show ({ c with manager := r.1 }.onEvents r.2).1.manager.observer = _
    rw [hkept.manager]
    exact ho
  · show Mirrors ({ c with manager := r.1 }.onEvents r.2).1.manager _
    rw [hkept.manager]
    exact hm

theorem leads_perform (c : Coordinator) (u : UiSnapshot) (i : Input) (op : Op) (h : Faithful c u)
    (hi : i.op = some op) : watch.Leads u (c.perform op) := by
  have hr : ∀ o, op ≠ .registerObserver o := fun o e => i.op_ne_ports.2 o (e ▸ hi)
  obtain ⟨ho, hm⟩ := mirrors_performed (performed c.manager op) h.observer hr h.mirrors
  exact leads_managed h ho hm

theorem leads_expire (c : Coordinator) (u : UiSnapshot) (h : Faithful c u) :
    watch.Leads u (c.managed c.manager.expire) := by
  obtain ⟨ho, hm⟩ := mirrors_expire h.observer h.mirrors
  exact leads_managed h ho hm

/-- The coordinator and the user interface. -/
structure Client where
  coordinator : Coordinator := .init
  ui : UiSnapshot := {}
  deriving DecidableEq, Repr

/-- An input of the coordinator, or a button of the dialog for an incoming call that closes it. -/
inductive Activity
  | input (i : Input)
  | closeDialog
  deriving DecidableEq, Repr

namespace Client

def step (x : Client) : Activity → Client
  | .input i => { coordinator := x.coordinator.step i, ui := watch.play x.ui (x.coordinator.exec i).2 }
  | .closeDialog => { x with ui := { x.ui with incomingCallerId := none } }

/-- The UI observer stays attached, and `Shutdown` is not called. -/
def Attended : Activity → Prop
  | .input .shutdown => False
  | .input (.setUIObserver attached) => attached = true
  | _ => True

instance (a : Activity) : Decidable (Attended a) := by unfold Attended; split <;> infer_instance

theorem step_faithful {x : Client} (h : Faithful x.coordinator x.ui) {a : Activity} (ha : Attended a) :
    Faithful (x.step a).coordinator (x.step a).ui := by
  cases a with
  | closeDialog =>
    exact ⟨h.attached, h.serving, h.observer, h.mirrors.callState, h.mirrors.currentPeerId, fun _ => rfl⟩
  | input i =>
    by_cases hi : i.Serves
    · exact Watch.leads_exec (w := watch) leads_perform leads_expire h hi
    · cases i with
      | engineAnswers a b => exact ⟨h.attached, h.serving, h.observer, h.mirrors⟩
      | setUIObserver attached => exact ⟨ha, h.serving, h.observer, h.mirrors⟩
      | shutdown => exact ha.elim
      | _ => exact absurd trivial hi

theorem faithful_init : Faithful .init {} := ⟨rfl, rfl, rfl, rfl, rfl, fun _ => rfl⟩

/-- **The user interface mirrors the call** after every sequence of inputs. -/
theorem ui_mirrors_manager {l : List Activity} (h : ∀ a ∈ l, Attended a) :
    Mirrors (run step {} l).coordinator.manager (run step {} l).ui := by
  have hm : Meets step (fun _ => Attended) {} l := meets_of_forall _ h
  have hr : Faithful (run step {} l).coordinator (run step {} l).ui :=
    run_invariant (P := fun x => Faithful x.coordinator x.ui) (fun x a hx ha => step_faithful hx ha)
      faithful_init hm
  exact hr.mirrors

/-- A call to bob that he rejects, and a call from him that is taken. -/
def twoCalls : List Activity :=
  [.input (.startCall "bob" 17 true), .input (.receive "bob" (.call (.callResponse "11-1" false "busy"))),
    .input (.receive "bob" (.call (.callRequest "b1"))), .input .acceptCall, .closeDialog]

theorem two_calls_mirrored :
    Mirrors (run step {} twoCalls).coordinator.manager (run step {} twoCalls).ui ∧
      (run step {} twoCalls).ui = { callState := .connecting, currentPeerId := "bob" } :=
  ⟨ui_mirrors_manager (by decide), by decide⟩

end Client

end PeerCall.Mirror
