import PeerCall.Signal.Message

/-!
# Call.Coordinator — `CallCoordinator` with its `CallManager`, run one input at a time

The coordinator observes the call manager, the signaling client and the WebRTC engine and drives the
engine, the user interface and the disconnect watchdog.  A function here takes the coordinator to the
coordinator after it and the list of calls it has made on its ports, in order.  The manager's callbacks
do not call back into the manager, so an operation of the manager is run to completion and its calls are
handled in the order they are made.
-/

namespace PeerCall

/-- `PeerConnectionInterface::IceConnectionState`. -/
inductive IceState
  | new | checking | connected | completed | failed | disconnected | closed
  deriving DecidableEq, Repr

/-- `IceStateToString`. -/
def IceState.toText : IceState → String
  | .new => "New"
  | .checking => "Checking"
  | .connected => "Connected"
  | .completed => "Completed"
  | .failed => "Failed"
  | .disconnected => "Disconnected"
  | .closed => "Closed"

/-- The calls on `IWebRTCEnginePort`. -/
inductive EngineCall
  | createPeerConnection
  | closePeerConnection
  | addTracks
  | createOffer
  | setRemoteOffer (sdp : String)
  | setRemoteAnswer (sdp : String)
  | addIceCandidate (sdpMid : String) (sdpMlineIndex : ℤ) (candidate : String)
  | shutdown
  deriving DecidableEq, Repr

/-- The calls on `ICallUIObserver`. -/
inductive UICall
  | onStopLocalRenderer
  | onStopRemoteRenderer
  | onLogMessage (message level : String)
  | onShowError (title message : String)
  | onCallStateChanged (state : CallState) (peerId : String)
  | onIncomingCall (callerId : String)
  deriving DecidableEq, Repr

inductive PortCall
  | engine (c : EngineCall)
  | signal (dest : String) (m : SignalMessage)
  | ui (c : UICall)
  deriving DecidableEq, Repr

/-- What the coordinator sees of `WebRTCEngine`: whether a peer connection is live, and what was asked of
it (an offer, or an answer to a remote offer).  `creates` and `addsTracks` are what `CreatePeerConnection`
and `AddTracks` would answer next. -/
structure Engine where
  live : Bool := false
  offering : Bool := false
  answering : Bool := false
  creates : Bool := true
  addsTracks : Bool := true
  deriving DecidableEq, Repr

/-- `CallCoordinator`, with the objects behind its ports.  The identity `0` stands for the coordinator
itself as the manager's observer, and for its signaling client as the manager's transport. -/
structure Coordinator where
  manager : CallManager
  currentPeerId : String := ""
  isCaller : Bool := false
  shutdownStarted : Bool := false
  uiObserver : Bool := true
  watchdogArmed : Bool := false
  engine : Engine := {}
  deriving DecidableEq, Repr

/-- A coordinator that has been constructed and initialized. -/
def Coordinator.init : Coordinator where
  manager := { signalTransport := some 0, observer := some 0 }

/-- The result of one activity, followed by another. -/
def andThen (r : Coordinator × List PortCall) (f : Coordinator → Coordinator × List PortCall) :
    Coordinator × List PortCall :=
  let r' := f r.1
  (r'.1, r.2 ++ r'.2)

namespace Coordinator

/-- Calls guarded by `if (ui_observer_)`. -/
def ui (c : Coordinator) (cs : List UICall) : List PortCall := if c.uiObserver then cs.map .ui else []

/-! ### The engine port -/

/-- `ClosePeerConnection`. -/
def closePeerConnection (c : Coordinator) : Coordinator × List PortCall :=
  ({ c with engine := { c.engine with live := false, offering := false, answering := false } },
    [.engine .closePeerConnection])

/-- `CreateOffer`. -/
def createOffer (c : Coordinator) : Coordinator × List PortCall :=
  ({ c with engine := { c.engine with offering := c.engine.live } }, [.engine .createOffer])

/-! ### The callbacks of the call manager -/

/-- `StopIceDisconnectWatchdog`. -/
def stopIceDisconnectWatchdog (c : Coordinator) : Coordinator := { c with watchdogArmed := false }

/-- `OnCallStateChanged`. -/
def onCallStateChanged (c : Coordinator) (state : CallState) (peerId : String) :
    Coordinator × List PortCall :=
  let c := if state = .idle then { c with currentPeerId := "" } else c
  let c := if state ≠ .connected then c.stopIceDisconnectWatchdog else c
  (c, c.ui [.onCallStateChanged state peerId])

/-- `OnCallRejected`, `OnCallCancelled` and `OnCallTimeout` all do this. -/
def stopMedia (c : Coordinator) : Coordinator × List PortCall :=
  andThen (c, c.ui [.onStopLocalRenderer, .onStopRemoteRenderer]) closePeerConnection

/-- `OnNeedCreatePeerConnection`; the peer is recorded even when no peer connection can be made. -/
def onNeedCreatePeerConnection (c : Coordinator) (peerId : String) (isCaller : Bool) :
    Coordinator × List PortCall :=
  let c := { c.stopIceDisconnectWatchdog with currentPeerId := peerId, isCaller := isCaller }
  if c.engine.live then (c, [])
  else if ¬ c.engine.creates then
    (c, .engine .createPeerConnection :: c.ui [.onShowError "Error" "Failed to create peer connection"])
  else
    let c := { c with engine := { c.engine with live := true, offering := false, answering := false } }
    let calls := [PortCall.engine .createPeerConnection, .engine .addTracks]
    if ¬ c.engine.addsTracks then
      andThen (c, calls ++ c.ui [.onShowError "Error" "Failed to attach local media tracks"])
        closePeerConnection
    else if isCaller then andThen (c, calls) createOffer
    else (c, calls)

/-- The callbacks of `CallManagerObserver`. -/
def onCallback (c : Coordinator) : Callback → Coordinator × List PortCall
  | .onCallStateChanged state peerId => c.onCallStateChanged state peerId
  | .onIncomingCall callerId => (c, c.ui [.onIncomingCall callerId])
  | .onCallAccepted _ => (c, [])
  | .onCallRejected _ _ => c.stopMedia
  | .onCallCancelled _ _ => c.stopMedia
  | .onCallEnded peerId reason =>
    (c, c.ui [.onLogMessage ("Call ended with " ++ peerId ++ ": " ++ reason) "info"])
  | .onCallTimeout => c.stopMedia
  | .onNeedCreatePeerConnection peerId isCaller => c.onNeedCreatePeerConnection peerId isCaller
  | .onNeedClosePeerConnection => c.stopIceDisconnectWatchdog.stopMedia

/-- One call made by the manager. -/
def onEvent (c : Coordinator) : Event → Coordinator × List PortCall
  | .notify _ cb => c.onCallback cb
  | .send _ dest m => (c, [.signal dest (.call m)])

/-- The calls made by the manager, in order. -/
def onEvents (c : Coordinator) : List Event → Coordinator × List PortCall
  | [] => (c, [])
  | e :: es => andThen (c.onEvent e) fun c => c.onEvents es

/-- The manager has performed something with the result `r`. -/
def managed (c : Coordinator) (r : CallManager × List Event) : Coordinator × List PortCall :=
  { c with manager := r.1 }.onEvents r.2

/-- An operation of the manager. -/
def perform (c : Coordinator) (op : Op) : Coordinator × List PortCall := c.managed (c.manager.perform op)

/-- A task of `PostToCallControl`. -/
def post (c : Coordinator) (task : Coordinator → Coordinator × List PortCall) :
    Coordinator × List PortCall :=
  if c.shutdownStarted then (c, []) else task c

/-! ### Media messages -/

/-- `ProcessOffer`. -/
def processOffer (c : Coordinator) (sender : String) (sdp : SessionDescriptionPayload) :
    Coordinator × List PortCall :=
  if ¬ c.engine.live then
    (c, c.ui [.onLogMessage "Received offer before peer connection was created" "error"])
  else if sdp.callId = "" ∨ sdp.callId ≠ c.manager.currentCallId then
    (c, c.ui [.onLogMessage "Ignored stale offer for previous call" "warning"])
  else
    let c := { c with currentPeerId := sender, isCaller := false }
    if sdp.sdp = "" then (c, c.ui [.onLogMessage "Offer payload did not contain SDP text" "error"])
    else
      ({ c with engine := { c.engine with answering := true } }, [.engine (.setRemoteOffer sdp.sdp)])

/-- `ProcessAnswer`. -/
def processAnswer (c : Coordinator) (sender : String) (sdp : SessionDescriptionPayload) :
    Coordinator × List PortCall :=
  if sender ≠ c.currentPeerId ∨ sdp.sdp = "" ∨ sdp.callId = "" ∨ sdp.callId ≠ c.manager.currentCallId then
    (c, if sender = c.currentPeerId ∧ sdp.callId ≠ "" ∧ sdp.callId ≠ c.manager.currentCallId then
        c.ui [.onLogMessage "Ignored stale answer for previous call" "warning"]
      else [])
  else (c, [.engine (.setRemoteAnswer sdp.sdp)])

/-- `ProcessIceCandidate`. -/
def processIceCandidate (c : Coordinator) (sender : String) (candidate : IceCandidatePayload) :
    Coordinator × List PortCall :=
  if sender ≠ c.currentPeerId ∨ candidate.callId = "" ∨ candidate.callId ≠ c.manager.currentCallId then
    (c, if sender = c.currentPeerId ∧ candidate.callId ≠ "" ∧
          candidate.callId ≠ c.manager.currentCallId then
        c.ui [.onLogMessage "Ignored stale ICE candidate for previous call" "warning"]
      else [])
  else if candidate.sdpMid = "" ∨ candidate.sdpMlineIndex < 0 ∨ candidate.candidate = "" then
    (c, c.ui [.onLogMessage "Discarded malformed ICE candidate" "error"])
  else (c, [.engine (.addIceCandidate candidate.sdpMid candidate.sdpMlineIndex candidate.candidate)])

/-- A message dispatched by the signaling client, which has no observer after `Shutdown`. -/
def receive (c : Coordinator) (sender : String) (m : SignalMessage) : Coordinator × List PortCall :=
  if c.shutdownStarted then (c, [])
  else
    match m with
    | .call m => c.perform (.handle sender m)
    | .offer sdp => c.processOffer sender sdp
    | .answer sdp => c.processAnswer sender sdp
    | .iceCandidate candidate => c.processIceCandidate sender candidate

/-! ### Everything else that happens to a coordinator -/

/-- `OnUserOffline`. -/
def onUserOffline (c : Coordinator) (clientId : String) : Coordinator × List PortCall :=
  if c.shutdownStarted ∨ clientId ≠ c.currentPeerId then (c, [])
  else if c.manager.callState = .connected then
    (c, c.ui [.onLogMessage
      "Peer went offline on signaling server, but media session is kept alive." "warning"])
  else c.perform .endCall

/-- `OnIceConnectionStateChanged`. -/
def onIceConnectionStateChanged (c : Coordinator) (state : IceState) : Coordinator × List PortCall :=
  c.post fun c =>
    if state = .connected ∨ state = .completed then
      c.stopIceDisconnectWatchdog.perform .notifyPeerConnectionEstablished
    else if state = .failed ∨ state = .disconnected ∨ state = .closed then
      ({ c with watchdogArmed := decide (c.manager.callState = .connected) },
        c.ui [.onLogMessage ("ICE connection state changed to " ++ state.toText) "warning"])
    else (c.stopIceDisconnectWatchdog, [])

/-- The watchdog has waited long enough. -/
def onWatchdogExpired (c : Coordinator) : Coordinator × List PortCall :=
  if c.watchdogArmed then
    post { c with watchdogArmed := false } fun c =>
      if c.manager.callState ≠ .connected then (c, [])
      else
        andThen (c, c.ui [.onLogMessage "ICE state stayed Disconnected/Failed too long. Ending call." "warning"])
          fun c => c.perform .endCall
  else (c, [])

/-- `OnOfferCreated`, `OnAnswerCreated` and `OnIceCandidateGenerated` send to the coordinator's own notion
of the peer, with the manager's call id; the engine has no observer after `Shutdown`. -/
def sendMedia (c : Coordinator) (m : String → SignalMessage) : Coordinator × List PortCall :=
  if c.shutdownStarted then (c, []) else (c, [.signal c.currentPeerId (m c.manager.currentCallId)])

def onOfferCreated (c : Coordinator) (sdp : String) : Coordinator × List PortCall :=
  c.sendMedia fun callId => .offer { callId := callId, type := "offer", sdp := sdp }

def onAnswerCreated (c : Coordinator) (sdp : String) : Coordinator × List PortCall :=
  c.sendMedia fun callId => .answer { callId := callId, type := "answer", sdp := sdp }

def onIceCandidateGenerated (c : Coordinator) (sdpMid : String) (sdpMlineIndex : ℤ) (candidate : String) :
    Coordinator × List PortCall :=
  c.sendMedia fun callId =>
    .iceCandidate { callId := callId, sdpMid := sdpMid, sdpMlineIndex := sdpMlineIndex, candidate := candidate }

/-- `OnError`. -/
def onError (c : Coordinator) (error : String) : Coordinator × List PortCall :=
  (c, if c.shutdownStarted then [] else c.ui [.onShowError "WebRTC Error" error])

/-- `Shutdown`. -/
def shutdown (c : Coordinator) : Coordinator × List PortCall :=
  if c.shutdownStarted then (c, [])
  else
    let c := c.stopIceDisconnectWatchdog
    ({ c with
        shutdownStarted := true, uiObserver := false, currentPeerId := ""
        manager := (c.manager.registerObserver none).1
        engine := { c.engine with live := false, offering := false, answering := false } },
      [.engine .shutdown])

end Coordinator

/-- What can happen to a coordinator.  `tick` and `connected` are what the clock and the signaling client
show; `engineAnswers` sets what the engine will answer next. -/
inductive Input
  | startCall (peerId : String) (tick : ℕ) (connected : Bool)
  | acceptCall
  | rejectCall (reason : String)
  | endCall
  | timerExpiry
  | watchdogExpiry
  | iceState (state : IceState)
  | offerCreated (sdp : String)
  | answerCreated (sdp : String)
  | iceCandidateGenerated (sdpMid : String) (sdpMlineIndex : ℤ) (candidate : String)
  | engineError (error : String)
  | receive (sender : String) (m : SignalMessage)
  | userOffline (clientId : String)
  | setUIObserver (attached : Bool)
  | engineAnswers (creates addsTracks : Bool)
  | shutdown
  deriving DecidableEq, Repr

namespace Coordinator

def exec (c : Coordinator) : Input → Coordinator × List PortCall
  | .startCall peerId tick connected => c.post (·.perform (.initiateCall peerId tick connected))
  | .acceptCall => c.post (·.perform .acceptCall)
  | .rejectCall reason => c.post (·.perform (.rejectCall reason))
  | .endCall => c.post (·.perform .endCall)
  | .timerExpiry => c.managed c.manager.expire
  | .watchdogExpiry => c.onWatchdogExpired
  | .iceState state => c.onIceConnectionStateChanged state
  | .offerCreated sdp => c.onOfferCreated sdp
  | .answerCreated sdp => c.onAnswerCreated sdp
  | .iceCandidateGenerated mid index candidate => c.onIceCandidateGenerated mid index candidate
  | .engineError error => c.onError error
  | .receive sender m => c.receive sender m
  | .userOffline clientId => c.onUserOffline clientId
  | .setUIObserver attached => ({ c with uiObserver := attached }, [])
  | .engineAnswers creates addsTracks =>
    ({ c with engine := { c.engine with creates := creates, addsTracks := addsTracks } }, [])
  | .shutdown => c.shutdown

def step (c : Coordinator) (i : Input) : Coordinator := (c.exec i).1

/-! ### What the manager's calls do to the peer and to the peer connection -/

/-- `current_peer_id_` after one call of the manager. -/
def peerAfter (peer : String) : Event → String
  | .notify _ (.onCallStateChanged .idle _) => ""
  | .notify _ (.onNeedCreatePeerConnection p _) => p
  | _ => peer

/-- Whether a peer connection is live after one call of the manager; `ok`: one can be made. -/
def liveAfter (ok live : Bool) : Event → Bool
  | .notify _ (.onNeedCreatePeerConnection _ _) => live || ok
  | .notify _ (.onCallRejected _ _) => false
  | .notify _ (.onCallCancelled _ _) => false
  | .notify _ .onCallTimeout => false
  | .notify _ .onNeedClosePeerConnection => false
  | _ => live

/-- The next peer connection that is asked for will be made. -/
def able (c : Coordinator) : Bool := c.engine.creates && c.engine.addsTracks

/-- What is left of the coordinator by some calls of the manager: its peer and whether it is live. -/
structure Handled (c c' : Coordinator) (peer : String) (live : Bool) : Prop where
  manager : c'.manager = c.manager
  shutdownStarted : c'.shutdownStarted = c.shutdownStarted
  able : c'.able = c.able
  peer : c'.currentPeerId = peer
  live : c'.engine.live = live

theorem stopMedia_handled (c : Coordinator) : Handled c c.stopMedia.1 c.currentPeerId false :=
  ⟨rfl, rfl, rfl, rfl, rfl⟩

theorem onCallStateChanged_handled (c : Coordinator) (o : ℕ) (state : CallState) (peerId : String) :
    Handled c (c.onCallStateChanged state peerId).1
      (peerAfter c.currentPeerId (.notify o (.onCallStateChanged state peerId))) c.engine.live := by
  cases state <;> exact ⟨rfl, rfl, rfl, rfl, rfl⟩

theorem onNeedCreatePeerConnection_handled (c : Coordinator) (peerId : String) (isCaller : Bool) :
    Handled c (c.onNeedCreatePeerConnection peerId isCaller).1 peerId (c.engine.live || c.able) := by
  unfold onNeedCreatePeerConnection able
  cases hl : c.engine.live <;> cases hc : c.engine.creates <;> cases ha : c.engine.addsTracks <;>
    cases isCaller <;>
    simp [stopIceDisconnectWatchdog, andThen, closePeerConnection, createOffer, hl, hc, ha] <;>
    exact ⟨rfl, rfl, by simp [able, hc, ha], rfl, by simp [hl]⟩

theorem onEvent_handled (c : Coordinator) (e : Event) :
    Handled c (c.onEvent e).1 (peerAfter c.currentPeerId e) (liveAfter c.able c.engine.live e) := by
  cases e with
  | send t dest m => exact ⟨rfl, rfl, rfl, rfl, rfl⟩
  | notify o cb =>
    cases cb with
    | onCallStateChanged state peerId =>
      have := onCallStateChanged_handled c o state peerId
      cases state <;> exact this
    | onNeedCreatePeerConnection peerId isCaller => exact onNeedCreatePeerConnection_handled c peerId isCaller
    | onCallRejected => exact stopMedia_handled c
    | onCallCancelled => exact stopMedia_handled c
    | onCallTimeout => exact stopMedia_handled c
    | onNeedClosePeerConnection => exact ⟨rfl, rfl, rfl, rfl, rfl⟩
    | onIncomingCall => exact ⟨rfl, rfl, rfl, rfl, rfl⟩
    | onCallAccepted => exact ⟨rfl, rfl, rfl, rfl, rfl⟩
    | onCallEnded => exact ⟨rfl, rfl, rfl, rfl, rfl⟩

theorem onEvents_handled (es : List Event) :
    ∀ c : Coordinator, Handled c (c.onEvents es).1 (es.foldl peerAfter c.currentPeerId)
      (es.foldl (liveAfter c.able) c.engine.live) := by
  induction es with
  | nil => exact fun c => ⟨rfl, rfl, rfl, rfl, rfl⟩
  | cons e es ih =>
    intro c
    have h := onEvent_handled c e
    have h' := ih (c.onEvent e).1
    rw [h.peer, h.live, h.able] at h'
    exact ⟨h'.manager.trans h.manager, h'.shutdownStarted.trans h.shutdownStarted, h'.able.trans h.able,
      h'.peer, h'.live⟩

@[simp] theorem managed_manager (c : Coordinator) (m : CallManager) (es : List Event) :
    (c.managed (m, es)).1.manager = m :=
  (onEvents_handled es { c with manager := m }).manager

end Coordinator

/-! ### What an input amounts to -/

/-- The messages among some calls, with their addressees. -/
def signals (calls : List PortCall) : List (String × SignalMessage) :=
  calls.filterMap fun
    | .signal dest m => some (dest, m)
    | _ => none

@[simp] theorem signals_nil : signals [] = [] := rfl

@[simp] theorem signals_append (xs ys : List PortCall) : signals (xs ++ ys) = signals xs ++ signals ys :=
  List.filterMap_append

@[simp] theorem signals_cons_engine (e : EngineCall) (xs : List PortCall) :
    signals (.engine e :: xs) = signals xs := rfl

@[simp] theorem signals_signal (dest : String) (m : SignalMessage) : signals [.signal dest m] = [(dest, m)] := rfl

theorem mem_signals {calls : List PortCall} {dest : String} {m : SignalMessage}
    (h : .signal dest m ∈ calls) : (dest, m) ∈ signals calls :=
  List.mem_filterMap.mpr ⟨_, h, rfl⟩

/-- The messages of the manager, as the signaling client sends them. -/
def callSignals (es : List Event) : List (String × SignalMessage) :=
  (outgoing es).map fun x => (x.1, .call x.2)

/-- The operation of the manager that an input may lead to. -/
def Input.op : Input → Option Op
  | .startCall peerId tick connected => some (.initiateCall peerId tick connected)
  | .acceptCall => some .acceptCall
  | .rejectCall reason => some (.rejectCall reason)
  | .endCall => some .endCall
  | .watchdogExpiry => some .endCall
  | .userOffline _ => some .endCall
  | .iceState _ => some .notifyPeerConnectionEstablished
  | .receive sender (.call m) => some (.handle sender m)
  | _ => none

/-- The pointers of the manager are not set by inputs. -/
theorem Input.op_ne_ports (i : Input) :
    (∀ t, i.op ≠ some (.setSignalTransport t)) ∧ ∀ o, i.op ≠ some (.registerObserver o) := by
  cases i with
  | receive sender msg => cases msg <;> simp [Input.op]
  | _ => simp [Input.op]

theorem Input.op_eq_acceptCall {i : Input} (h : i.op = some .acceptCall) : i = .acceptCall := by
  cases i with
  | acceptCall => rfl
  | receive sender m => cases m <;> simp [Input.op] at h
  | _ => simp [Input.op] at h

theorem Input.op_eq_handle {i : Input} {sender : String} {msg : CallMessage} (h : i.op = some (.handle sender msg)) :
    i = .receive sender (.call msg) := by
  cases i with
  | receive sender' m =>
    cases m with
    | call msg' => simpa [Input.op] using h
    | _ => simp [Input.op] at h
  | _ => simp [Input.op] at h

/-- The media message that an input sends, up to its call id. -/
def Input.media : Input → Option (String → SignalMessage)
  | .offerCreated sdp => some fun callId => .offer { callId := callId, type := "offer", sdp := sdp }
  | .answerCreated sdp => some fun callId => .answer { callId := callId, type := "answer", sdp := sdp }
  | .iceCandidateGenerated mid index candidate => some fun callId =>
    .iceCandidate { callId := callId, sdpMid := mid, sdpMlineIndex := index, candidate := candidate }
  | _ => none

/-- What an input can do to the manager, and what is sent. -/
inductive Turn (c : Coordinator) : Input → CallManager → List (String × SignalMessage) → Prop
  | nothing (i : Input) : Turn c i c.manager []
  | operation {i : Input} {op : Op} (h : i.op = some op) (hs : c.shutdownStarted = false) :
    Turn c i (c.manager.perform op).1 (callSignals (c.manager.perform op).2)
  | expiry : Turn c .timerExpiry c.manager.expire.1 []
  | media {i : Input} {m : String → SignalMessage} (h : i.media = some m) :
    Turn c i c.manager [(c.currentPeerId, m c.manager.currentCallId)]
  | closing : Turn c .shutdown (c.manager.registerObserver none).1 []

/-- Only the manager, the peer and whether `Shutdown` has run matter. -/
theorem Turn.of_same {c c' : Coordinator} {i : Input} {m : CallManager} {sent : List (String × SignalMessage)}
    (h : Turn c i m sent) (hm : c.manager = c'.manager) (hp : c.currentPeerId = c'.currentPeerId)
    (hs : c.shutdownStarted = c'.shutdownStarted) : Turn c' i m sent := by
  cases h with
  | nothing => rw [hm]; exact .nothing i
  | operation hop ho => rw [hm]; exact .operation hop (hs ▸ ho)
  | expiry => rw [hm]; exact .expiry
  | media hi => rw [hm, hp]; exact .media hi
  | closing => rw [hm]; exact .closing

namespace Coordinator

@[simp] theorem signals_ui (c : Coordinator) (cs : List UICall) : signals (c.ui cs) = [] := by
  unfold ui
  split_ifs
  · simp [signals, List.filterMap_map]
  · rfl

@[simp] theorem signals_andThen (r : Coordinator × List PortCall) (f : Coordinator → Coordinator × List PortCall) :
    signals (andThen r f).2 = signals r.2 ++ signals (f r.1).2 :=
  signals_append _ _

@[simp] theorem signals_closePeerConnection (c : Coordinator) : signals c.closePeerConnection.2 = [] := rfl

@[simp] theorem signals_stopMedia (c : Coordinator) : signals c.stopMedia.2 = [] := by simp [stopMedia]

theorem signals_onNeedCreatePeerConnection (c : Coordinator) (peerId : String) (isCaller : Bool) :
    signals (c.onNeedCreatePeerConnection peerId isCaller).2 = [] := by
  unfold onNeedCreatePeerConnection
  dsimp only
  split_ifs <;> simp [createOffer]

theorem signals_onEvent (c : Coordinator) (e : Event) : signals (c.onEvent e).2 = callSignals [e] := by
  cases e with
  | send t dest m => rfl
  | notify o cb =>
    cases cb with
    | onCallStateChanged state peerId => exact signals_ui _ _
    | onNeedCreatePeerConnection peerId isCaller => exact signals_onNeedCreatePeerConnection c peerId isCaller
    | onCallRejected => exact signals_stopMedia c
    | onCallCancelled => exact signals_stopMedia c
    | onCallTimeout => exact signals_stopMedia c
    | onNeedClosePeerConnection => exact signals_stopMedia _
    | onIncomingCall => exact signals_ui c _
    | onCallAccepted => rfl
    | onCallEnded => exact signals_ui c _

@[simp] theorem signals_managed (c : Coordinator) (m : CallManager) (es : List Event) :
    signals (c.managed (m, es)).2 = callSignals es := by
  unfold managed
  generalize ({ c with manager := m } : Coordinator) = c
  induction es generalizing c with
  | nil => rfl
  | cons e es ih => simp [onEvents, signals_onEvent, ih, callSignals, outgoing, ← List.map_append,
      ← List.filterMap_append]

/-- The manager after the task, and what the task sends. -/
theorem post_turn {c : Coordinator} {i : Input} {task : Coordinator → Coordinator × List PortCall}
    (h : c.shutdownStarted = false → Turn c i (task c).1.manager (signals (task c).2)) :
    Turn c i (c.post task).1.manager (signals (c.post task).2) := by
  unfold post
  split_ifs with hs
  · exact .nothing i
  · exact h (by simpa using hs)

theorem perform_turn {c : Coordinator} {i : Input} {op : Op} (h : i.op = some op) (hs : c.shutdownStarted = false) :
    Turn c i (c.perform op).1.manager (signals (c.perform op).2) := by
  unfold perform
  rw [managed_manager, signals_managed]
  exact .operation h hs

theorem sendMedia_turn {c : Coordinator} {i : Input} {m : String → SignalMessage} (h : i.media = some m) :
    Turn c i (c.sendMedia m).1.manager (signals (c.sendMedia m).2) := by
  unfold sendMedia
  split_ifs
  · exact .nothing i
  · exact .media h

theorem receive_turn (c : Coordinator) (sender : String) (m : SignalMessage) :
    Turn c (.receive sender m) (c.receive sender m).1.manager (signals (c.receive sender m).2) := by
  unfold receive
  split_ifs with hs
  · exact .nothing _
  · match m with
    | .call m => exact perform_turn rfl (by simpa using hs)
    | .offer sdp =>
      dsimp only [processOffer]
      split_ifs <;> simp only [signals_ui, signals_cons_engine, signals_nil] <;> exact .nothing _
    | .answer sdp =>
      dsimp only [processAnswer]
      split_ifs <;> simp only [signals_ui, signals_cons_engine, signals_nil] <;> exact .nothing _
    | .iceCandidate candidate =>
      dsimp only [processIceCandidate]
      split_ifs <;> simp only [signals_ui, signals_cons_engine, signals_nil] <;> exact .nothing _

/-- **Every input**: nothing, one operation of the manager, one media message, the request timer, or the
end of the coordinator. -/
theorem exec_turn (c : Coordinator) (i : Input) : Turn c i (c.exec i).1.manager (signals (c.exec i).2) := by
  cases i with
  | startCall peerId tick connected => exact post_turn fun hs => perform_turn rfl hs
  | acceptCall => exact post_turn fun hs => perform_turn rfl hs
  | rejectCall reason => exact post_turn fun hs => perform_turn rfl hs
  | endCall => exact post_turn fun hs => perform_turn rfl hs
  | timerExpiry =>
    have h : signals (c.managed c.manager.expire).2 = [] := by
      rw [signals_managed c c.manager.expire.1, callSignals, CallManager.outgoing_expire, List.map_nil]
    show Turn c _ (c.managed c.manager.expire).1.manager (signals (c.managed c.manager.expire).2)
    rw [h, managed_manager c c.manager.expire.1]
    exact .expiry
  | watchdogExpiry =>
    simp only [exec, onWatchdogExpired]
    split_ifs
    · refine Turn.of_same (c := { c with watchdogArmed := false }) (post_turn fun hs => ?_) rfl rfl rfl
      split_ifs
      · exact .nothing _
      · simp only [signals_andThen, signals_ui, List.nil_append]
        exact perform_turn (c := { c with watchdogArmed := false }) rfl hs
    · exact .nothing _
  | iceState state =>
    refine post_turn fun hs => ?_
    split_ifs
    · exact (perform_turn (c := c.stopIceDisconnectWatchdog) rfl hs).of_same rfl rfl rfl
    · rw [signals_ui]; exact .nothing _
    · exact .nothing _
  | offerCreated sdp => exact sendMedia_turn rfl
  | answerCreated sdp => exact sendMedia_turn rfl
  | iceCandidateGenerated mid index candidate => exact sendMedia_turn rfl
  | engineError error =>
    simp only [exec, onError]
    split_ifs
    · exact .nothing _
    · rw [signals_ui]; exact .nothing _
  | receive sender m => exact receive_turn c sender m
  | userOffline clientId =>
    simp only [exec, onUserOffline]
    split_ifs with hg
    · exact .nothing _
    · rw [signals_ui]; exact .nothing _
    · exact perform_turn rfl (by simpa using fun hs => hg (Or.inl hs))
  | setUIObserver attached => exact .nothing _
  | engineAnswers creates addsTracks => exact .nothing _
  | shutdown =>
    simp only [exec, shutdown]
    split_ifs
    · exact .nothing _
    · exact .closing

end Coordinator

end PeerCall
