import Mathlib

/-!
# Call.Manager — `CallManager`, one critical section at a time

Every public operation of `CallManager` has the same shape: a first section under `mutex_` that checks
the guard, writes the call fields and copies what it needs, and then, with the mutex released, a fixed
list of things to do.  A first section is modelled by a function `CallManager → CallManager × List Action`
whose list is that remainder (empty when the guard fails); an `Action` is either one call on the
observer or the transport, or one further section (`SetCallState`, `CleanupCall`, `GetCurrentCallId`),
or the start of the request timer.

`perform` runs an operation without interruption; `Call.Threads` interleaves the same lists.
-/

namespace PeerCall

/-- `CallState`. -/
inductive CallState
  | idle | calling | receiving | connecting | connected | ending
  deriving DecidableEq, Repr

/-- What `CallSignalingTransport` sends; the addressee is kept beside it. -/
inductive CallMessage
  | callRequest (callId : String)
  | callResponse (callId : String) (accepted : Bool) (reason : String)
  | callCancel (callId reason : String)
  | callEnd (callId reason : String)
  deriving DecidableEq, Repr

def CallMessage.callId : CallMessage → String
  | .callRequest c => c
  | .callResponse c _ _ => c
  | .callCancel c _ => c
  | .callEnd c _ => c

/-- The methods of `CallManagerObserver`. -/
inductive Callback
  | onCallStateChanged (state : CallState) (peerId : String)
  | onIncomingCall (callerId : String)
  | onCallAccepted (peerId : String)
  | onCallRejected (peerId reason : String)
  | onCallCancelled (peerId reason : String)
  | onCallEnded (peerId reason : String)
  | onCallTimeout
  | onNeedCreatePeerConnection (peerId : String) (isCaller : Bool)
  | onNeedClosePeerConnection
  deriving DecidableEq, Repr

/-- A call made with the mutex released, on the object the operation copied under the mutex. -/
inductive Event
  | notify (observer : ℕ) (c : Callback)
  | send (transport : ℕ) (dest : String) (m : CallMessage)
  deriving DecidableEq, Repr

/-- `CallManager`.  The two pointers are the identity of the object they point to (`none` is null);
`timer` is the generation held by the running timer thread, and `callCounter` the static counter of
`GenerateCallId`, which belongs to the client's process (2^64 calls are not reached). -/
structure CallManager where
  signalTransport : Option ℕ := none
  observer : Option ℕ := none
  callState : CallState := .idle
  currentPeer : String := ""
  currentCallId : String := ""
  isCaller : Bool := false
  timerGeneration : ℕ := 0
  timer : Option ℕ := none
  callCounter : ℕ := 1
  deriving DecidableEq, Repr

/-- `GenerateCallId`: `std::hex` stays set on the stream, so the counter is printed in hexadecimal too. -/
def generateCallId (tick counter : ℕ) : String :=
  String.ofList (Nat.toDigits 16 tick ++ '-' :: Nat.toDigits 16 counter)

/-- What remains to be done after the first section of an operation. -/
inductive Action
  | call (e : Event)
  | sendCallCancel (transport : ℕ) (dest : String)
  | setCallState (state : CallState)
  | cleanupCall
  | startCallRequestTimer
  deriving DecidableEq, Repr

/-- The calls `cs` on the copied observer pointer, if it is not null. -/
def notify (observer : Option ℕ) (cs : List Callback) : List Event :=
  match observer with
  | none => []
  | some o => cs.map (Event.notify o)

/-- A send guarded by `signal_transport && !current_peer.empty()`. -/
def sendToPeer (transport : Option ℕ) (peer : String) (m : CallMessage) : List Event :=
  match transport with
  | none => []
  | some t => if peer = "" then [] else [.send t peer m]

namespace CallManager

/-! ### The sections every operation shares -/

/-- `SetCallState`: the new state, and the notification sent after the section. -/
def setCallState (m : CallManager) (state : CallState) : CallManager × List Event :=
  if m.callState = state then (m, [])
  else ({ m with callState := state }, notify m.observer [.onCallStateChanged state m.currentPeer])

/-- `StopCallRequestTimerLocked`. -/
def stopCallRequestTimerLocked (m : CallManager) : CallManager :=
  { m with timerGeneration := m.timerGeneration + 1 }

/-- The fields `CleanupCall` leaves behind. -/
def cleared (m : CallManager) : CallManager :=
  { m.stopCallRequestTimerLocked with
    callState := .idle, currentPeer := "", currentCallId := "", isCaller := false }

/-- `CleanupCall`: the reset is unconditional, the notification is not. -/
def cleanupCall (m : CallManager) : CallManager × List Event :=
  (m.cleared, if m.callState = .idle then [] else notify m.observer [.onCallStateChanged .idle ""])

/-- `StartCallRequestTimer`, once the previous timer thread has been stopped and joined. -/
def startCallRequestTimer (m : CallManager) : CallManager :=
  { m with timerGeneration := m.timerGeneration + 1, timer := some (m.timerGeneration + 1) }

end CallManager

/-- One action: the manager after it, and the calls made once its section is left. -/
def Action.exec : Action → CallManager → CallManager × List Event
  | .call e, m => (m, [e])
  | .sendCallCancel t peer, m => (m, [.send t peer (.callCancel m.currentCallId "cancelled")])
  | .setCallState s, m => m.setCallState s
  | .cleanupCall, m => m.cleanupCall
  | .startCallRequestTimer, m => (m.startCallRequestTimer, [])

namespace CallManager

/-! ### The operations: first section and remainder -/

def setSignalTransport (m : CallManager) (transport : Option ℕ) : CallManager × List Action :=
  ({ m with signalTransport := transport }, [])

def registerObserver (m : CallManager) (observer : Option ℕ) : CallManager × List Action :=
  ({ m with observer := observer }, [])

/-- `InitiateCall`; `connected` is what `IsConnected()` answers and `tick` what the clock shows.  It
returns true exactly when it gets past the guard.  The state is still `idle` after this section. -/
def initiateCall (m : CallManager) (target : String) (tick : ℕ) (connected : Bool) :
    CallManager × List Action :=
  match m.signalTransport with
  | none => (m, [])
  | some t =>
    if connected = false ∨ m.callState ≠ .idle then (m, [])
    else
      let callId := generateCallId tick m.callCounter
      ({ m with
          currentPeer := target, currentCallId := callId, isCaller := true,
          callCounter := m.callCounter + 1 },
        [.setCallState .calling, .call (.send t target (.callRequest callId)), .startCallRequestTimer])

/-- `CancelCall`; the call id is read again, in a section of its own, when the message is built. -/
def cancelCall (m : CallManager) : CallManager × List Action :=
  if m.callState ≠ .calling then (m, [])
  else
    match m.signalTransport with
    | none => (m, [.cleanupCall])
    | some t =>
      (m, if m.currentPeer = "" then [.cleanupCall]
        else [.sendCallCancel t m.currentPeer, .cleanupCall])

/-- `AcceptCall`. -/
def acceptCall (m : CallManager) : CallManager × List Action :=
  if m.callState ≠ .receiving then (m, [])
  else
    match m.signalTransport with
    | none => (m, [])
    | some t =>
      (m, .call (.send t m.currentPeer (.callResponse m.currentCallId true "")) ::
        .setCallState .connecting ::
        (notify m.observer [.onNeedCreatePeerConnection m.currentPeer false]).map .call)

/-- `RejectCall`. -/
def rejectCall (m : CallManager) (reason : String) : CallManager × List Action :=
  if m.callState ≠ .receiving then (m, [])
  else
    (m, (sendToPeer m.signalTransport m.currentPeer
        (.callResponse m.currentCallId false (if reason = "" then "rejected" else reason))).map .call ++
      [.cleanupCall])

/-- `EndCall`: the only teardown that claims the call, by moving it to `ending` under the mutex. -/
def endCall (m : CallManager) : CallManager × List Action :=
  if m.callState = .idle ∨ m.callState = .ending then (m, [])
  else
    ({ m with callState := .ending },
      (sendToPeer m.signalTransport m.currentPeer (.callEnd m.currentCallId "hangup") ++
        notify m.observer [.onNeedClosePeerConnection, .onCallEnded m.currentPeer "hangup"]).map .call ++
      [.cleanupCall])

/-- `NotifyPeerConnectionEstablished`. -/
def notifyPeerConnectionEstablished (m : CallManager) : CallManager × List Action :=
  if m.callState ≠ .connecting then (m, [])
  else
    ({ m with callState := .connected },
      (notify m.observer [.onCallStateChanged .connected m.currentPeer,
        .onCallAccepted m.currentPeer]).map .call)

/-- `HandleCallRequest`. -/
def handleCallRequest (m : CallManager) (sender callId : String) : CallManager × List Action :=
  if callId = "" then (m, [])
  else if m.callState ≠ .idle then
    (m, match m.signalTransport with
      | none => []
      | some t => [.call (.send t sender (.callResponse callId false "busy"))])
  else
    ({ m with
        currentPeer := sender, currentCallId := callId, isCaller := false, callState := .receiving },
      (notify m.observer [.onCallStateChanged .receiving sender, .onIncomingCall sender]).map .call)

/-- `HandleCallResponse`.  Without an observer a rejection stops the timer and does nothing more. -/
def handleCallResponse (m : CallManager) (sender callId : String) (accepted : Bool) (reason : String) :
    CallManager × List Action :=
  if m.callState ≠ .calling ∨ m.currentPeer ≠ sender ∨ m.currentCallId ≠ callId ∨ callId = "" then
    (m, [])
  else
    let m' := m.stopCallRequestTimerLocked
    (if accepted then { m' with callState := .connecting } else m',
      match m.observer with
      | none => []
      | some o =>
        if accepted then
          [.call (.notify o (.onCallStateChanged .connecting sender)),
            .call (.notify o (.onCallAccepted sender)),
            .call (.notify o (.onNeedCreatePeerConnection sender true))]
        else
          [.call (.notify o (.onCallStateChanged .idle sender)),
            .call (.notify o (.onCallRejected sender reason)), .cleanupCall])

/-- `HandleCallCancel`. -/
def handleCallCancel (m : CallManager) (sender callId reason : String) : CallManager × List Action :=
  if m.callState ≠ .receiving ∨ m.currentPeer ≠ sender ∨ m.currentCallId ≠ callId ∨ callId = "" then
    (m, [])
  else (m, (notify m.observer [.onCallCancelled sender reason]).map .call ++ [.cleanupCall])

/-- `HandleCallEnd`: unlike `EndCall` it only reads the state. -/
def handleCallEnd (m : CallManager) (sender callId reason : String) : CallManager × List Action :=
  if m.currentPeer ≠ sender ∨ m.currentCallId ≠ callId ∨ m.callState = .idle ∨
      m.callState = .ending ∨ callId = "" then
    (m, [])
  else
    (m, (notify m.observer [.onCallEnded sender reason, .onNeedClosePeerConnection]).map .call ++
      [.cleanupCall])

/-- `OnCallRequestTimeout`: nothing is sent to the peer. -/
def onCallRequestTimeout (m : CallManager) : CallManager × List Action :=
  if m.callState ≠ .calling then (m, [])
  else (m, (notify m.observer [.onCallTimeout]).map .call ++ [.cleanupCall])

/-- The timer thread has left its sleep. -/
def timerWoken (m : CallManager) : CallManager := { m with timer := none }

/-- The end of the timer thread's sleep: it enters `OnCallRequestTimeout` only if its generation is still
the current one. -/
def timerExpiry (m : CallManager) : CallManager × Bool :=
  (m.timerWoken, m.timer = some m.timerGeneration)

/-- The handler a received call message is dispatched to. -/
def handle (m : CallManager) (sender : String) : CallMessage → CallManager × List Action
  | .callRequest c => m.handleCallRequest sender c
  | .callResponse c accepted reason => m.handleCallResponse sender c accepted reason
  | .callCancel c reason => m.handleCallCancel sender c reason
  | .callEnd c reason => m.handleCallEnd sender c reason

end CallManager

/-- The operations of `CallManager`, with their arguments. -/
inductive Op
  | setSignalTransport (transport : Option ℕ)
  | registerObserver (observer : Option ℕ)
  | initiateCall (target : String) (tick : ℕ) (connected : Bool)
  | cancelCall
  | acceptCall
  | rejectCall (reason : String)
  | endCall
  | notifyPeerConnectionEstablished
  | handle (sender : String) (m : CallMessage)
  | onCallRequestTimeout
  deriving DecidableEq, Repr

/-- The first section of an operation. -/
def Op.enter : Op → CallManager → CallManager × List Action
  | .setSignalTransport t, m => m.setSignalTransport t
  | .registerObserver o, m => m.registerObserver o
  | .initiateCall target tick connected, m => m.initiateCall target tick connected
  | .cancelCall, m => m.cancelCall
  | .acceptCall, m => m.acceptCall
  | .rejectCall reason, m => m.rejectCall reason
  | .endCall, m => m.endCall
  | .notifyPeerConnectionEstablished, m => m.notifyPeerConnectionEstablished
  | .handle sender msg, m => m.handle sender msg
  | .onCallRequestTimeout, m => m.onCallRequestTimeout

/-! ### Operations run to completion -/

/-- The actions `as` one after the other, with the calls they make in order. -/
def runActions : CallManager → List Action → CallManager × List Event
  | m, [] => (m, [])
  | m, a :: as =>
    let r := a.exec m
    let r' := runActions r.1 as
    (r'.1, r.2 ++ r'.2)

/-- An operation run without interruption. -/
def CallManager.perform (m : CallManager) (op : Op) : CallManager × List Event :=
  let r := op.enter m
  runActions r.1 r.2

/-- The expiry of the request timer, run without interruption. -/
def CallManager.expire (m : CallManager) : CallManager × List Event :=
  let r := m.timerExpiry
  if r.2 then r.1.perform .onCallRequestTimeout else (r.1, [])

/-! ### What each operation does, run to completion -/

/-- The messages among some calls, with their addressees. -/
def outgoing (es : List Event) : List (String × CallMessage) :=
  es.filterMap fun
    | .notify _ _ => none
    | .send _ dest msg => some (dest, msg)

@[simp] theorem outgoing_nil : outgoing [] = [] := rfl

@[simp] theorem outgoing_append (es es' : List Event) :
    outgoing (es ++ es') = outgoing es ++ outgoing es' := List.filterMap_append

@[simp] theorem outgoing_send (t : ℕ) (dest : String) (msg : CallMessage) :
    outgoing [.send t dest msg] = [(dest, msg)] := rfl

@[simp] theorem outgoing_notify (o : Option ℕ) (cs : List Callback) : outgoing (notify o cs) = [] := by
  cases o with
  | none => rfl
  | some o => simp [notify, outgoing, List.filterMap_map]

theorem runActions_append (m : CallManager) (as bs : List Action) :
    runActions m (as ++ bs) =
      ((runActions (runActions m as).1 bs).1, (runActions m as).2 ++ (runActions (runActions m as).1 bs).2) := by
  induction as generalizing m with
  | nil => rfl
  | cons a as ih => simp [runActions, ih]

@[simp] theorem runActions_calls (m : CallManager) (es : List Event) :
    runActions m (es.map .call) = (m, es) := by
  induction es with
  | nil => rfl
  | cons e es ih => simp [runActions, Action.exec, ih]

namespace CallManager

@[simp] theorem runActions_cleanup (m : CallManager) : runActions m [.cleanupCall] = m.cleanupCall := by
  simp [runActions, Action.exec]

theorem perform_initiateCall (m : CallManager) (target : String) (tick : ℕ) (connected : Bool) :
    m.perform (.initiateCall target tick connected) =
      match m.signalTransport with
      | none => (m, [])
      | some t =>
        if connected = false ∨ m.callState ≠ .idle then (m, [])
        else
          ({ m with
              callState := .calling, currentPeer := target,
              currentCallId := generateCallId tick m.callCounter, isCaller := true,
              callCounter := m.callCounter + 1, timerGeneration := m.timerGeneration + 1,
              timer := some (m.timerGeneration + 1) },
            notify m.observer [.onCallStateChanged .calling target] ++
              [.send t target (.callRequest (generateCallId tick m.callCounter))]) := by
  cases ht : m.signalTransport with
  | none => simp [perform, Op.enter, initiateCall, runActions, ht]
  | some t =>
    by_cases hg : connected = false ∨ m.callState ≠ .idle
    · simp [perform, Op.enter, initiateCall, runActions, ht, hg]
    · simp only [perform, Op.enter, initiateCall, ht, if_neg hg]
      have hs : m.callState = .idle := by
        by_contra h
        exact hg (Or.inr h)
      simp [runActions, Action.exec, setCallState, startCallRequestTimer, hs]

theorem perform_cancelCall (m : CallManager) :
    m.perform .cancelCall =
      if m.callState ≠ .calling then (m, [])
      else
        (m.cleared,
          sendToPeer m.signalTransport m.currentPeer (.callCancel m.currentCallId "cancelled") ++
            notify m.observer [.onCallStateChanged .idle ""]) := by
  by_cases hg : m.callState = .calling
  · simp only [perform, Op.enter, cancelCall, hg]
    cases m.signalTransport with
    | none => simp [cleanupCall, sendToPeer, hg]
    | some t =>
      by_cases hp : m.currentPeer = "" <;>
        simp [hp, sendToPeer, runActions, Action.exec, cleanupCall, hg]
  · simp [perform, Op.enter, cancelCall, runActions, hg]

theorem perform_acceptCall (m : CallManager) :
    m.perform .acceptCall =
      if m.callState ≠ .receiving then (m, [])
      else
        match m.signalTransport with
        | none => (m, [])
        | some t =>
          ({ m with callState := .connecting },
            .send t m.currentPeer (.callResponse m.currentCallId true "") ::
              notify m.observer [.onCallStateChanged .connecting m.currentPeer,
                .onNeedCreatePeerConnection m.currentPeer false]) := by
  by_cases hg : m.callState = .receiving
  · simp only [perform, Op.enter, acceptCall, hg]
    cases ht : m.signalTransport with
    | none => simp [runActions]
    | some t =>
      cases ho : m.observer <;> simp [runActions, Action.exec, setCallState, notify, hg, ho, ht]
  · simp [perform, Op.enter, acceptCall, runActions, hg]

theorem perform_rejectCall (m : CallManager) (reason : String) :
    m.perform (.rejectCall reason) =
      if m.callState ≠ .receiving then (m, [])
      else
        (m.cleared,
          sendToPeer m.signalTransport m.currentPeer
              (.callResponse m.currentCallId false (if reason = "" then "rejected" else reason)) ++
            notify m.observer [.onCallStateChanged .idle ""]) := by
  by_cases hg : m.callState = .receiving
  · simp [perform, Op.enter, rejectCall, runActions_append, cleanupCall, hg]
  · simp [perform, Op.enter, rejectCall, runActions, hg]

theorem perform_endCall (m : CallManager) :
    m.perform .endCall =
      if m.callState = .idle ∨ m.callState = .ending then (m, [])
      else
        (m.cleared,
          sendToPeer m.signalTransport m.currentPeer (.callEnd m.currentCallId "hangup") ++
            notify m.observer [.onNeedClosePeerConnection, .onCallEnded m.currentPeer "hangup"] ++
            notify m.observer [.onCallStateChanged .idle ""]) := by
  by_cases hg : m.callState = .idle ∨ m.callState = .ending
  · simp [perform, Op.enter, endCall, runActions, hg]
  · simp only [perform, Op.enter, endCall, if_neg hg]
    rw [runActions_append, runActions_calls, runActions_cleanup]
    simp [cleanupCall, cleared, stopCallRequestTimerLocked]

theorem perform_established (m : CallManager) :
    m.perform .notifyPeerConnectionEstablished =
      if m.callState ≠ .connecting then (m, [])
      else
        ({ m with callState := .connected },
          notify m.observer [.onCallStateChanged .connected m.currentPeer,
            .onCallAccepted m.currentPeer]) := by
  by_cases hg : m.callState = .connecting
  · simp [perform, Op.enter, notifyPeerConnectionEstablished, hg]
  · simp [perform, Op.enter, notifyPeerConnectionEstablished, runActions, hg]

theorem perform_callRequest (m : CallManager) (sender c : String) :
    m.perform (.handle sender (.callRequest c)) =
      if c = "" then (m, [])
      else if m.callState ≠ .idle then
        (m, match m.signalTransport with
          | none => []
          | some t => [.send t sender (.callResponse c false "busy")])
      else
        ({ m with currentPeer := sender, currentCallId := c, isCaller := false, callState := .receiving },
          notify m.observer [.onCallStateChanged .receiving sender, .onIncomingCall sender]) := by
  by_cases hc : c = ""
  · simp [perform, Op.enter, handle, handleCallRequest, runActions, hc]
  · by_cases hg : m.callState = .idle
    · simp [perform, Op.enter, handle, handleCallRequest, hc, hg]
    · cases ht : m.signalTransport <;>
        simp [perform, Op.enter, handle, handleCallRequest, runActions, Action.exec, hc, hg, ht]

theorem perform_callResponse (m : CallManager) (sender c reason : String) (accepted : Bool) :
    m.perform (.handle sender (.callResponse c accepted reason)) =
      if m.callState ≠ .calling ∨ m.currentPeer ≠ sender ∨ m.currentCallId ≠ c ∨ c = "" then (m, [])
      else if accepted then
        ({ m.stopCallRequestTimerLocked with callState := .connecting },
          notify m.observer [.onCallStateChanged .connecting sender, .onCallAccepted sender,
            .onNeedCreatePeerConnection sender true])
      else
        match m.observer with
        | none => (m.stopCallRequestTimerLocked, [])
        | some _ =>
          (m.stopCallRequestTimerLocked.cleared,
            notify m.observer [.onCallStateChanged .idle sender, .onCallRejected sender reason,
              .onCallStateChanged .idle ""]) := by
  by_cases hg : m.callState ≠ .calling ∨ m.currentPeer ≠ sender ∨ m.currentCallId ≠ c ∨ c = ""
  · simp [perform, Op.enter, handle, handleCallResponse, runActions, hg]
  · have hs : m.callState = .calling := by
      by_contra h
      exact hg (Or.inl h)
    simp only [perform, Op.enter, handle, handleCallResponse, if_neg hg]
    cases ho : m.observer <;> cases accepted <;>
      simp [runActions, Action.exec, cleanupCall, stopCallRequestTimerLocked, notify, hs, ho]

theorem perform_callCancel (m : CallManager) (sender c reason : String) :
    m.perform (.handle sender (.callCancel c reason)) =
      if m.callState ≠ .receiving ∨ m.currentPeer ≠ sender ∨ m.currentCallId ≠ c ∨ c = "" then (m, [])
      else
        (m.cleared, notify m.observer [.onCallCancelled sender reason] ++
          notify m.observer [.onCallStateChanged .idle ""]) := by
  by_cases hg : m.callState ≠ .receiving ∨ m.currentPeer ≠ sender ∨ m.currentCallId ≠ c ∨ c = ""
  · simp [perform, Op.enter, handle, handleCallCancel, runActions, hg]
  · have hs : m.callState = .receiving := by
      by_contra h
      exact hg (Or.inl h)
    simp only [perform, Op.enter, handle, handleCallCancel, if_neg hg]
    rw [runActions_append, runActions_calls, runActions_cleanup]
    simp [cleanupCall, hs]

theorem perform_callEnd (m : CallManager) (sender c reason : String) :
    m.perform (.handle sender (.callEnd c reason)) =
      if m.currentPeer ≠ sender ∨ m.currentCallId ≠ c ∨ m.callState = .idle ∨ m.callState = .ending ∨
          c = "" then (m, [])
      else
        (m.cleared, notify m.observer [.onCallEnded sender reason, .onNeedClosePeerConnection] ++
          notify m.observer [.onCallStateChanged .idle ""]) := by
  by_cases hg : m.currentPeer ≠ sender ∨ m.currentCallId ≠ c ∨ m.callState = .idle ∨
      m.callState = .ending ∨ c = ""
  · simp [perform, Op.enter, handle, handleCallEnd, runActions, hg]
  · have hs : m.callState ≠ .idle := fun h => hg (by simp [h])
    simp only [perform, Op.enter, handle, handleCallEnd, if_neg hg]
    rw [runActions_append, runActions_calls, runActions_cleanup]
    simp [cleanupCall, hs]

theorem perform_onCallRequestTimeout (m : CallManager) :
    m.perform .onCallRequestTimeout =
      if m.callState ≠ .calling then (m, [])
      else
        (m.cleared, notify m.observer [.onCallTimeout] ++
          notify m.observer [.onCallStateChanged .idle ""]) := by
  by_cases hg : m.callState = .calling
  · simp [perform, Op.enter, onCallRequestTimeout, runActions_append, cleanupCall, hg]
  · simp [perform, Op.enter, onCallRequestTimeout, runActions, hg]

theorem expire_eq (m : CallManager) :
    m.expire =
      if m.timer = some m.timerGeneration ∧ m.callState = .calling then
        (m.timerWoken.cleared, notify m.observer [.onCallTimeout] ++
          notify m.observer [.onCallStateChanged .idle ""])
      else (m.timerWoken, []) := by
  by_cases ht : m.timer = some m.timerGeneration <;> by_cases hc : m.callState = .calling <;>
    simp [expire, timerExpiry, perform_onCallRequestTimeout, timerWoken, ht, hc]

/-- The guard of an operation. -/
def Applies (m : CallManager) : Op → Prop
  | .setSignalTransport _ => True
  | .registerObserver _ => True
  | .initiateCall _ _ connected => m.signalTransport ≠ none ∧ connected = true ∧ m.callState = .idle
  | .cancelCall => m.callState = .calling
  | .acceptCall => m.callState = .receiving ∧ m.signalTransport ≠ none
  | .rejectCall _ => m.callState = .receiving
  | .endCall => m.callState ≠ .idle ∧ m.callState ≠ .ending
  | .notifyPeerConnectionEstablished => m.callState = .connecting
  | .onCallRequestTimeout => m.callState = .calling
  | .handle _ (.callRequest c) => c ≠ "" ∧ m.callState = .idle
  | .handle sender (.callResponse c _ _) =>
    m.callState = .calling ∧ m.currentPeer = sender ∧ m.currentCallId = c ∧ c ≠ ""
  | .handle sender (.callCancel c _) =>
    m.callState = .receiving ∧ m.currentPeer = sender ∧ m.currentCallId = c ∧ c ≠ ""
  | .handle sender (.callEnd c _) =>
    m.currentPeer = sender ∧ m.currentCallId = c ∧ m.callState ≠ .idle ∧ m.callState ≠ .ending ∧ c ≠ ""

/-- **Everything an operation, run to completion, can do**: the manager after it, and the calls it makes. -/
inductive Performed (m : CallManager) : Op → CallManager → List Event → Prop
  | ignored (op : Op) (h : ¬ m.Applies op) : Performed m op m []
  | setSignalTransport (t : Option ℕ) : Performed m (.setSignalTransport t) { m with signalTransport := t } []
  | registerObserver (o : Option ℕ) : Performed m (.registerObserver o) { m with observer := o } []
  | initiated (t : ℕ) (target : String) (tick : ℕ) (ht : m.signalTransport = some t) (hs : m.callState = .idle) :
    Performed m (.initiateCall target tick true)
      { m with
        callState := .calling, currentPeer := target,
        currentCallId := generateCallId tick m.callCounter, isCaller := true,
        callCounter := m.callCounter + 1, timerGeneration := m.timerGeneration + 1,
        timer := some (m.timerGeneration + 1) }
      (notify m.observer [.onCallStateChanged .calling target] ++
        [.send t target (.callRequest (generateCallId tick m.callCounter))])
  | cancelled (hs : m.callState = .calling) :
    Performed m .cancelCall m.cleared
      (sendToPeer m.signalTransport m.currentPeer (.callCancel m.currentCallId "cancelled") ++
        notify m.observer [.onCallStateChanged .idle ""])
  | accepted (t : ℕ) (ht : m.signalTransport = some t) (hs : m.callState = .receiving) :
    Performed m .acceptCall { m with callState := .connecting }
      (.send t m.currentPeer (.callResponse m.currentCallId true "") ::
        notify m.observer [.onCallStateChanged .connecting m.currentPeer,
          .onNeedCreatePeerConnection m.currentPeer false])
  | rejected (reason : String) (hs : m.callState = .receiving) :
    Performed m (.rejectCall reason) m.cleared
      (sendToPeer m.signalTransport m.currentPeer
          (.callResponse m.currentCallId false (if reason = "" then "rejected" else reason)) ++
        notify m.observer [.onCallStateChanged .idle ""])
  | ended (hs : m.callState ≠ .idle) (he : m.callState ≠ .ending) :
    Performed m .endCall m.cleared
      (sendToPeer m.signalTransport m.currentPeer (.callEnd m.currentCallId "hangup") ++
        notify m.observer [.onNeedClosePeerConnection, .onCallEnded m.currentPeer "hangup"] ++
        notify m.observer [.onCallStateChanged .idle ""])
  | established (hs : m.callState = .connecting) :
    Performed m .notifyPeerConnectionEstablished { m with callState := .connected }
      (notify m.observer [.onCallStateChanged .connected m.currentPeer, .onCallAccepted m.currentPeer])
  | timedOut (hs : m.callState = .calling) :
    Performed m .onCallRequestTimeout m.cleared
      (notify m.observer [.onCallTimeout] ++ notify m.observer [.onCallStateChanged .idle ""])
  | rang (sender c : String) (hc : c ≠ "") (hs : m.callState = .idle) :
    Performed m (.handle sender (.callRequest c))
      { m with currentPeer := sender, currentCallId := c, isCaller := false, callState := .receiving }
      (notify m.observer [.onCallStateChanged .receiving sender, .onIncomingCall sender])
  | busy (t : ℕ) (sender c : String) (hc : c ≠ "") (hs : m.callState ≠ .idle) (ht : m.signalTransport = some t) :
    Performed m (.handle sender (.callRequest c)) m [.send t sender (.callResponse c false "busy")]
  | answered (reason : String) (hs : m.callState = .calling) (hc : m.currentCallId ≠ "") :
    Performed m (.handle m.currentPeer (.callResponse m.currentCallId true reason))
      { m.stopCallRequestTimerLocked with callState := .connecting }
      (notify m.observer [.onCallStateChanged .connecting m.currentPeer, .onCallAccepted m.currentPeer,
        .onNeedCreatePeerConnection m.currentPeer true])
  | refused (o : ℕ) (reason : String) (hs : m.callState = .calling) (hc : m.currentCallId ≠ "")
    (ho : m.observer = some o) :
    Performed m (.handle m.currentPeer (.callResponse m.currentCallId false reason))
      m.stopCallRequestTimerLocked.cleared
      (notify m.observer [.onCallStateChanged .idle m.currentPeer, .onCallRejected m.currentPeer reason,
        .onCallStateChanged .idle ""])
  | refusedUnheard (reason : String) (hs : m.callState = .calling) (hc : m.currentCallId ≠ "")
    (ho : m.observer = none) :
    Performed m (.handle m.currentPeer (.callResponse m.currentCallId false reason))
      m.stopCallRequestTimerLocked []
  | cancelledByPeer (reason : String) (hs : m.callState = .receiving) (hc : m.currentCallId ≠ "") :
    Performed m (.handle m.currentPeer (.callCancel m.currentCallId reason)) m.cleared
      (notify m.observer [.onCallCancelled m.currentPeer reason] ++ notify m.observer [.onCallStateChanged .idle ""])
  | endedByPeer (reason : String) (hs : m.callState ≠ .idle) (he : m.callState ≠ .ending)
    (hc : m.currentCallId ≠ "") :
    Performed m (.handle m.currentPeer (.callEnd m.currentCallId reason)) m.cleared
      (notify m.observer [.onCallEnded m.currentPeer reason, .onNeedClosePeerConnection] ++
        notify m.observer [.onCallStateChanged .idle ""])

theorem performed_of_eq {m : CallManager} {op : Op} {r : CallManager × List Event} (he : m.perform op = r)
    (h : Performed m op r.1 r.2) : Performed m op (m.perform op).1 (m.perform op).2 := by
  rw [he]
  exact h

theorem performed_handle (m : CallManager) (sender : String) (msg : CallMessage) :
    Performed m (.handle sender msg) (m.perform (.handle sender msg)).1 (m.perform (.handle sender msg)).2 := by
  cases msg with
  | callRequest c =>
    refine performed_of_eq (perform_callRequest ..) ?_
    by_cases hc : c = ""
    · rw [if_pos hc]
      exact .ignored _ fun h => h.1 hc
    · by_cases hs : m.callState = .idle
      · rw [if_neg hc, if_neg (not_not.mpr hs)]
        exact .rang sender c hc hs
      · rw [if_neg hc, if_pos hs]
        cases ht : m.signalTransport with
        | none => exact .ignored _ fun h => hs h.2
        | some t => exact .busy t sender c hc hs ht
  | callResponse c accepted reason =>
    refine performed_of_eq (perform_callResponse ..) ?_
    by_cases hg : m.callState ≠ .calling ∨ m.currentPeer ≠ sender ∨ m.currentCallId ≠ c ∨ c = ""
    · rw [if_pos hg]
      exact .ignored _ fun h => by simp [h.1, h.2.1, h.2.2.1, h.2.2.2] at hg
    · rw [if_neg hg]
      simp only [not_or, not_not] at hg
      obtain ⟨hs, rfl, rfl, hc⟩ := hg
      cases accepted with
      | true => exact .answered reason hs hc
      | false =>
        rw [if_neg Bool.false_ne_true]
        cases ho : m.observer with
        | none => exact .refusedUnheard reason hs hc ho
        | some o =>
          have h := Performed.refused o reason hs hc ho
          rw [ho] at h
          exact h
  | callCancel c reason =>
    refine performed_of_eq (perform_callCancel ..) ?_
    by_cases hg : m.callState ≠ .receiving ∨ m.currentPeer ≠ sender ∨ m.currentCallId ≠ c ∨ c = ""
    · rw [if_pos hg]
      exact .ignored _ fun h => by simp [h.1, h.2.1, h.2.2.1, h.2.2.2] at hg
    · rw [if_neg hg]
      simp only [not_or, not_not] at hg
      obtain ⟨hs, rfl, rfl, hc⟩ := hg
      exact .cancelledByPeer reason hs hc
  | callEnd c reason =>
    refine performed_of_eq (perform_callEnd ..) ?_
    by_cases hg : m.currentPeer ≠ sender ∨ m.currentCallId ≠ c ∨ m.callState = .idle ∨
        m.callState = .ending ∨ c = ""
    · rw [if_pos hg]
      exact .ignored _ fun h => by simp [h.1, h.2.1, h.2.2.1, h.2.2.2.1, h.2.2.2.2] at hg
    · rw [if_neg hg]
      simp only [not_or] at hg
      obtain ⟨hp, hid, hs, he, hc⟩ := hg
      obtain rfl := not_not.mp hp
      obtain rfl := not_not.mp hid
      exact .endedByPeer reason hs he hc

/-- **What an operation does**, by its guard. -/
theorem performed (m : CallManager) (op : Op) : Performed m op (m.perform op).1 (m.perform op).2 := by
  cases op with
  | setSignalTransport t => exact .setSignalTransport t
  | registerObserver o => exact .registerObserver o
  | initiateCall target tick connected =>
    refine performed_of_eq (perform_initiateCall ..) ?_
    cases ht : m.signalTransport with
    | none => exact .ignored _ fun h => h.1 ht
    | some t =>
      by_cases hg : connected = false ∨ m.callState ≠ .idle
      · simp only [if_pos hg]
        exact .ignored _ fun h => by simp [h.2.1, h.2.2] at hg
      · simp only [if_neg hg]
        simp only [not_or, not_not, Bool.not_eq_false] at hg
        obtain ⟨rfl, hs⟩ := hg
        have h := Performed.initiated t target tick ht hs
        rw [ht] at h
        exact h
  | cancelCall =>
    refine performed_of_eq (perform_cancelCall m) ?_
    by_cases hs : m.callState = .calling
    · rw [if_neg (not_not.mpr hs)]
      exact .cancelled hs
    · rw [if_pos hs]
      exact .ignored _ hs
  | acceptCall =>
    refine performed_of_eq (perform_acceptCall m) ?_
    by_cases hs : m.callState = .receiving
    · rw [if_neg (not_not.mpr hs)]
      cases ht : m.signalTransport with
      | none => exact .ignored _ fun h => h.2 ht
      | some t =>
        have h := Performed.accepted t ht hs
        rw [ht] at h
        exact h
    · rw [if_pos hs]
      exact .ignored _ fun h => hs h.1
  | rejectCall reason =>
    refine performed_of_eq (perform_rejectCall m reason) ?_
    by_cases hs : m.callState = .receiving
    · rw [if_neg (not_not.mpr hs)]
      exact .rejected reason hs
    · rw [if_pos hs]
      exact .ignored _ hs
  | endCall =>
    refine performed_of_eq (perform_endCall m) ?_
    by_cases hg : m.callState = .idle ∨ m.callState = .ending
    · rw [if_pos hg]
      exact .ignored _ fun h => hg.elim h.1 h.2
    · rw [if_neg hg]
      exact .ended (fun hs => hg (Or.inl hs)) fun he => hg (Or.inr he)
  | notifyPeerConnectionEstablished =>
    refine performed_of_eq (perform_established m) ?_
    by_cases hs : m.callState = .connecting
    · rw [if_neg (not_not.mpr hs)]
      exact .established hs
    · rw [if_pos hs]
      exact .ignored _ hs
  | onCallRequestTimeout =>
    refine performed_of_eq (perform_onCallRequestTimeout m) ?_
    by_cases hs : m.callState = .calling
    · rw [if_neg (not_not.mpr hs)]
      exact .timedOut hs
    · rw [if_pos hs]
      exact .ignored _ hs
  | handle sender msg => exact performed_handle m sender msg

end CallManager

/-! ### The call an operation leaves the manager in -/

/-- The four fields that make up the current call. -/
structure Session where
  state : CallState
  peer : String
  callId : String
  isCaller : Bool
  deriving DecidableEq, Repr

def CallManager.session (m : CallManager) : Session :=
  ⟨m.callState, m.currentPeer, m.currentCallId, m.isCaller⟩

/-- Everything an operation, run to completion, can do to the current call. -/
inductive Transition (m : CallManager) : Op → Session → Prop
  | stay (op : Op) : Transition m op m.session
  | clear (op : Op) (h : m.callState ≠ .idle) : Transition m op ⟨.idle, "", "", false⟩
  | initiate (target : String) (tick : ℕ) (h : m.callState = .idle) (ht : m.signalTransport ≠ none) :
    Transition m (.initiateCall target tick true)
      ⟨.calling, target, generateCallId tick m.callCounter, true⟩
  | receive (sender c : String) (hc : c ≠ "") (h : m.callState = .idle) :
    Transition m (.handle sender (.callRequest c)) ⟨.receiving, sender, c, false⟩
  | accept (h : m.callState = .receiving) (ht : m.signalTransport ≠ none) :
    Transition m .acceptCall ⟨.connecting, m.currentPeer, m.currentCallId, m.isCaller⟩
  | accepted (reason : String) (h : m.callState = .calling) :
    Transition m (.handle m.currentPeer (.callResponse m.currentCallId true reason))
      ⟨.connecting, m.currentPeer, m.currentCallId, m.isCaller⟩
  | establish (h : m.callState = .connecting) :
    Transition m .notifyPeerConnectionEstablished
      ⟨.connected, m.currentPeer, m.currentCallId, m.isCaller⟩

theorem CallManager.perform_transition (m : CallManager) (op : Op) :
    Transition m op (m.perform op).1.session := by
  have h := m.performed op
  generalize (m.perform op).1 = m' at h ⊢
  generalize (m.perform op).2 = es at h
  cases h with
  | ignored => exact .stay _
  | setSignalTransport t => exact .stay _
  | registerObserver o => exact .stay _
  | initiated t target tick ht hs => exact .initiate target tick hs (by simp [ht])
  | cancelled hs => exact .clear _ (by simp [hs])
  | accepted t ht hs => exact .accept hs (by simp [ht])
  | rejected reason hs => exact .clear _ (by simp [hs])
  | ended hs => exact .clear _ hs
  | established hs => exact .establish hs
  | timedOut hs => exact .clear _ (by simp [hs])
  | rang sender c hc hs => exact .receive sender c hc hs
  | busy => exact .stay _
  | answered reason hs => exact .accepted reason hs
  | refused o reason hs => exact .clear _ (by simp [hs])
  | refusedUnheard => exact .stay _
  | cancelledByPeer reason hs => exact .clear _ (by simp [hs])
  | endedByPeer reason hs => exact .clear _ hs

/-- A timer expiry keeps the call or ends it. -/
theorem CallManager.expire_session (m : CallManager) :
    m.expire.1.session = m.session ∨ m.callState = .calling ∧ m.expire.1.session = ⟨.idle, "", "", false⟩ := by
  rw [expire_eq]
  split_ifs with h
  · exact Or.inr ⟨h.2, rfl⟩
  · exact Or.inl rfl

/-! ### What an operation sends -/

/-- Everything an operation, run to completion, can send. -/
inductive Sends (m : CallManager) : Op → String → CallMessage → Prop
  | request (target : String) (tick : ℕ) (h : m.callState = .idle) (ht : m.signalTransport ≠ none) :
    Sends m (.initiateCall target tick true) target (.callRequest (generateCallId tick m.callCounter))
  | cancel (h : m.callState = .calling) :
    Sends m .cancelCall m.currentPeer (.callCancel m.currentCallId "cancelled")
  | accept (h : m.callState = .receiving) (ht : m.signalTransport ≠ none) :
    Sends m .acceptCall m.currentPeer (.callResponse m.currentCallId true "")
  | reject (reason reason' : String) (h : m.callState = .receiving) :
    Sends m (.rejectCall reason) m.currentPeer (.callResponse m.currentCallId false reason')
  | hangup (h : m.callState ≠ .idle) :
    Sends m .endCall m.currentPeer (.callEnd m.currentCallId "hangup")
  | busy (sender c : String) (h : m.callState ≠ .idle) :
    Sends m (.handle sender (.callRequest c)) sender (.callResponse c false "busy")

theorem mem_outgoing_sendToPeer {t : Option ℕ} {peer dest : String} {msg msg' : CallMessage}
    (h : (dest, msg) ∈ outgoing (sendToPeer t peer msg')) : dest = peer ∧ msg = msg' := by
  unfold sendToPeer at h
  cases t with
  | none => simp at h
  | some t =>
    by_cases hp : peer = ""
    · simp [hp] at h
    · simpa [hp] using h

theorem CallManager.perform_sends {m : CallManager} {op : Op} {dest : String} {msg : CallMessage}
    (h : (dest, msg) ∈ outgoing (m.perform op).2) : Sends m op dest msg := by
  have hp := m.performed op
  generalize (m.perform op).1 = m' at hp
  generalize (m.perform op).2 = es at h hp
  cases hp with
  | initiated t target tick ht hs =>
    obtain ⟨rfl, rfl⟩ : dest = target ∧ msg = .callRequest (generateCallId tick m.callCounter) := by simpa using h
    exact .request dest tick hs (by simp [ht])
  | cancelled hs =>
    obtain ⟨rfl, rfl⟩ := mem_outgoing_sendToPeer (by simpa using h)
    exact .cancel hs
  | accepted t ht hs =>
    rw [← List.singleton_append, outgoing_append, outgoing_notify, outgoing_send] at h
    obtain ⟨rfl, rfl⟩ : dest = m.currentPeer ∧ msg = .callResponse m.currentCallId true "" := by simpa using h
    exact .accept hs (by simp [ht])
  | rejected reason hs =>
    rw [outgoing_append, outgoing_notify, List.append_nil] at h
    obtain ⟨rfl, rfl⟩ := mem_outgoing_sendToPeer h
    exact .reject _ _ hs
  | ended hs =>
    obtain ⟨rfl, rfl⟩ := mem_outgoing_sendToPeer (by simpa using h)
    exact .hangup hs
  | busy t sender c hc hs =>
    obtain ⟨rfl, rfl⟩ : dest = sender ∧ msg = .callResponse c false "busy" := by simpa using h
    exact .busy dest c hs
  | _ => simp at h

/-- A timer expiry sends nothing. -/
@[simp] theorem CallManager.outgoing_expire (m : CallManager) : outgoing m.expire.2 = [] := by
  rw [expire_eq]
  split_ifs <;> simp

/-! ### Generated call ids -/

theorem digitChar_inj : ∀ d d' : Fin 16, Nat.digitChar d = Nat.digitChar d' → d = d' := by decide

theorem toDigits_sixteen_no_dash (n : ℕ) : '-' ∉ Nat.toDigits 16 n := by
  induction n using Nat.strongRecOn with
  | ind n ih =>
    rw [Nat.toDigits_eq_if (by decide)]
    split_ifs with h
    · simp
    · simpa using ih (n / 16) (by omega)

theorem toDigits_sixteen_inj {a b : ℕ} (h : Nat.toDigits 16 a = Nat.toDigits 16 b) : a = b := by
  induction a using Nat.strongRecOn generalizing b with
  | ind a ih =>
    rw [Nat.toDigits_eq_if (by decide), Nat.toDigits_eq_if (n := b) (by decide)] at h
    split_ifs at h with ha hb hb
    · have := digitChar_inj ⟨a, ha⟩ ⟨b, hb⟩ (by simpa using h)
      simpa using this
    · exact absurd (List.append_eq_singleton_iff.mp h.symm) (by simp [Nat.toDigits_ne_nil])
    · exact absurd (List.append_eq_singleton_iff.mp h) (by simp [Nat.toDigits_ne_nil])
    · obtain ⟨hq, hr⟩ := List.append_inj' h rfl
      have hr' := digitChar_inj ⟨a % 16, Nat.mod_lt _ (by decide)⟩ ⟨b % 16, Nat.mod_lt _ (by decide)⟩
        (by simpa using hr)
      have hdiv := ih (a / 16) (by omega) hq
      have hmod : a % 16 = b % 16 := by simpa using hr'
      omega

theorem generateCallId_ne_empty (tick counter : ℕ) : generateCallId tick counter ≠ "" := by
  intro h
  have := congrArg String.toList h
  simp [generateCallId] at this

/-- Ids generated at different counter values differ, whatever the clock shows. -/
theorem generateCallId_inj {t t' k k' : ℕ} (h : generateCallId t k = generateCallId t' k') : k = k' := by
  have hl := String.ofList_injective h
  -- the digits hold no dash, so the first dash of both lists is the separator
  have hsplit : ∀ (x x' y y' : List Char), '-' ∉ x → '-' ∉ x' → x ++ '-' :: y = x' ++ '-' :: y' →
      y = y' := by
    intro x
    induction x with
    | nil =>
      intro x' y y' _ hx' he
      cases x' with
      | nil => simpa using he
      | cons c x' => simp at he; simp [← he.1] at hx'
    | cons d x ihx =>
      intro x' y y' hx hx' he
      cases x' with
      | nil => simp at he; simp [he.1] at hx
      | cons c x' =>
        simp only [List.cons_append, List.cons.injEq] at he
        exact ihx x' y y' (fun hm => hx (by simp [hm])) (fun hm => hx' (by simp [hm])) he.2
  exact toDigits_sixteen_inj (hsplit _ _ _ _ (toDigits_sixteen_no_dash t) (toDigits_sixteen_no_dash t') hl)

end PeerCall
