import PeerCall.Call.Coordinator
import PeerCall.Call.Session

/-!
# Call.Course — what one input can do to the call, its peer connection and its watchdog

The coordinator opens and closes the peer connection, copies the peer and stops the watchdog in the
callbacks of its manager, several of which follow each other when a call begins, moves on or is over.
`Course` says once what all the callbacks of one activity come to, and `exec_course` that an input is at most
one such activity; the invariants of a coordinator are case analyses over them.
-/

namespace PeerCall

open PeerCall.Lib

/-- The call is connecting or connected. -/
def CallManager.Up (m : CallManager) : Prop := m.callState = .connecting ∨ m.callState = .connected

instance (m : CallManager) : Decidable m.Up := by unfold CallManager.Up; infer_instance

/-- The watchdog is armed for these. -/
def IceState.Unstable (s : IceState) : Prop := s = .failed ∨ s = .disconnected ∨ s = .closed

instance (s : IceState) : Decidable s.Unstable := by unfold IceState.Unstable; infer_instance

/-! ### The watchdog and the creations, through the manager's callbacks -/

/-- Whether the watchdog is armed after one call of the manager. -/
def armedAfter (armed : Bool) : Event → Bool
  | .notify _ (.onCallStateChanged state _) => armed && decide (state = .connected)
  | .notify _ (.onNeedCreatePeerConnection _ _) => false
  | .notify _ .onNeedClosePeerConnection => false
  | _ => armed

/-- The callback that asks for a peer connection. -/
def Event.asksForConnection : Event → Bool
  | .notify _ (.onNeedCreatePeerConnection _ _) => true
  | _ => false

/-- How often a peer connection is asked for. -/
def requests (es : List Event) : ℕ := es.countP Event.asksForConnection

/-- How often the engine is told to create one. -/
def creations (calls : List PortCall) : ℕ := calls.count (.engine .createPeerConnection)

@[simp] theorem requests_nil : requests [] = 0 := rfl

@[simp] theorem requests_cons (e : Event) (es : List Event) :
    requests (e :: es) = requests es + e.asksForConnection.toNat := by
  cases h : e.asksForConnection <;> simp [requests, h]

@[simp] theorem requests_append (es es' : List Event) : requests (es ++ es') = requests es + requests es' :=
  List.countP_append

@[simp] theorem requests_sendToPeer (t : Option ℕ) (dest : String) (msg : CallMessage) :
    requests (sendToPeer t dest msg) = 0 := by
  unfold sendToPeer
  cases t with
  | none => rfl
  | some t => by_cases hd : dest = "" <;> simp [hd, Event.asksForConnection]

@[simp] theorem creations_nil : creations [] = 0 := rfl

@[simp] theorem creations_append (xs ys : List PortCall) : creations (xs ++ ys) = creations xs + creations ys :=
  List.count_append

@[simp] theorem creations_engine (e : EngineCall) (xs : List PortCall) :
    creations (.engine e :: xs) = creations xs + (decide (e = .createPeerConnection)).toNat := by
  by_cases he : e = .createPeerConnection
  · simp [creations, he]
  · simp [creations, he]

@[simp] theorem creations_signal (dest : String) (m : SignalMessage) : creations [.signal dest m] = 0 := rfl

namespace Coordinator

@[simp] theorem creations_ui (c : Coordinator) (cs : List UICall) : creations (c.ui cs) = 0 := by
  unfold ui
  split_ifs
  · simp [creations, List.count_eq_zero]
  · rfl

@[simp] theorem creations_andThen (r : Coordinator × List PortCall)
    (f : Coordinator → Coordinator × List PortCall) :
    creations (andThen r f).2 = creations r.2 + creations (f r.1).2 :=
  creations_append _ _

theorem creations_onNeedCreatePeerConnection (c : Coordinator) (peerId : String) (isCaller : Bool) :
    creations (c.onNeedCreatePeerConnection peerId isCaller).2 = (!c.engine.live).toNat := by
  unfold onNeedCreatePeerConnection
  dsimp only [stopIceDisconnectWatchdog]
  by_cases hl : c.engine.live = true
  · rw [if_pos hl, hl]
    rfl
  · rw [if_neg hl, eq_false_of_ne_true hl]
    split_ifs <;> simp [createOffer, closePeerConnection]

theorem creations_onEvent (c : Coordinator) (e : Event) :
    creations (c.onEvent e).2 = (e.asksForConnection && !c.engine.live).toNat := by
  cases e with
  | send t dest m => rfl
  | notify o cb =>
    cases cb with
    | onNeedCreatePeerConnection peerId isCaller => exact creations_onNeedCreatePeerConnection c peerId isCaller
    | _ => simp [onEvent, onCallback, onCallStateChanged, stopMedia, closePeerConnection,
        stopIceDisconnectWatchdog, Event.asksForConnection]

theorem liveAfter_false {e : Event} (h : e.asksForConnection = false) (ok : Bool) : liveAfter ok false e = false := by
  cases e with
  | send t dest m => rfl
  | notify o cb => cases cb <;> first | rfl | simp [Event.asksForConnection] at h

/-- Nobody asks, nothing is created; and the first request finds no peer connection if there was none. -/
theorem creations_onEvents {es : List Event} :
    ∀ {c : Coordinator}, requests es = 0 ∨ requests es = 1 ∧ c.engine.live = false →
      creations (c.onEvents es).2 = requests es := by
  induction es with
  | nil => exact fun _ => rfl
  | cons e es ih =>
    intro c h
    rw [onEvents, creations_andThen, creations_onEvent]
    cases ha : e.asksForConnection with
    | true =>
      rw [requests_cons, ha] at h ⊢
      obtain ⟨h1, hl⟩ : requests es = 0 ∧ c.engine.live = false := by
        rcases h with h | ⟨h, hl⟩
        · simp at h
        · exact ⟨by simpa using h, hl⟩
      rw [ih (Or.inl h1), hl, h1]
      rfl
    | false =>
      rw [requests_cons, ha] at h ⊢
      have hrest : requests es = 0 ∨ requests es = 1 ∧ (c.onEvent e).1.engine.live = false := by
        rcases h with h | ⟨h, hl⟩
        · exact Or.inl (by simpa using h)
        · refine Or.inr ⟨by simpa using h, ?_⟩
          rw [(onEvent_handled c e).live, hl]
          exact liveAfter_false ha _
      rw [ih hrest]
      simp

theorem onNeedCreatePeerConnection_armed (c : Coordinator) (peerId : String) (isCaller : Bool) :
    (c.onNeedCreatePeerConnection peerId isCaller).1.watchdogArmed = false := by
  unfold onNeedCreatePeerConnection
  dsimp only
  split_ifs <;> rfl

theorem onEvent_armed (c : Coordinator) (e : Event) :
    (c.onEvent e).1.watchdogArmed = armedAfter c.watchdogArmed e := by
  cases e with
  | send t dest m => rfl
  | notify o cb =>
    cases cb with
    | onCallStateChanged state peerId =>
      cases state <;> simp [onEvent, onCallback, onCallStateChanged, stopIceDisconnectWatchdog, armedAfter]
    | onNeedCreatePeerConnection peerId isCaller => exact onNeedCreatePeerConnection_armed c peerId isCaller
    | _ => rfl

theorem onEvents_armed (es : List Event) :
    ∀ c : Coordinator, (c.onEvents es).1.watchdogArmed = es.foldl armedAfter c.watchdogArmed := by
  induction es with
  | nil => exact fun _ => rfl
  | cons e es ih =>
    intro c
    show ((c.onEvent e).1.onEvents es).1.watchdogArmed = _
    rw [ih, onEvent_armed, List.foldl_cons]

end Coordinator

/-! ### One activity of the manager -/

/-- The part of a coordinator that belongs to the current call. -/
structure Standing where
  session : Session
  peer : String
  live : Bool
  armed : Bool
  deriving DecidableEq, Repr

def Standing.Up (x : Standing) : Prop := x.session.state = .connecting ∨ x.session.state = .connected

namespace Coordinator

def standing (c : Coordinator) : Standing :=
  ⟨c.manager.session, c.currentPeerId, c.engine.live, c.watchdogArmed⟩

theorem managed_standing (c : Coordinator) (m : CallManager) (es : List Event) :
    (c.managed (m, es)).1.standing =
      ⟨m.session, es.foldl peerAfter c.currentPeerId, es.foldl (liveAfter c.able) c.engine.live,
        es.foldl armedAfter c.watchdogArmed⟩ := by
  have h := onEvents_handled es { c with manager := m }
  have ha := onEvents_armed es { c with manager := m }
  unfold standing managed
  rw [h.manager, h.peer, h.live, ha]
  rfl

end Coordinator

/-- **Everything one activity of the manager can come to**, in a coordinator that hears it; `ok`: a peer
connection can be made, `n`: how often one is asked for. -/
inductive Course (ok : Bool) (x : Standing) : ℕ → Standing → Prop
  | same : Course ok x 0 x
  | begin (y : Session) (hx : x.session.state = .idle) (hy : y.state = .calling ∨ y.state = .receiving) :
      Course ok x 0 ⟨y, x.peer, x.live, false⟩
  | setUp (hx : x.session.state = .calling ∨ x.session.state = .receiving) :
      Course ok x 1 ⟨{ x.session with state := .connecting }, x.session.peer, x.live || ok, false⟩
  | establish (hx : x.session.state = .connecting) :
      Course ok x 0 ⟨{ x.session with state := .connected }, x.peer, x.live, x.armed⟩
  | finish (closes : Bool) (hx : x.session.state ≠ .idle)
      (hc : closes = false → x.session.state = .calling ∨ x.session.state = .receiving) :
      Course ok x 0 ⟨⟨.idle, "", "", false⟩, "", x.live && !closes, false⟩

/-- A peer connection is live only while the call is up, and there is a peer only then. -/
structure Standing.Nested (x : Standing) : Prop where
  live : x.live = true → x.Up
  blank : ¬ x.Up → x.peer = ""

/-- **Every course keeps the peer connection within the call.** -/
theorem Course.nested {ok : Bool} {x y : Standing} {n : ℕ} (h : Course ok x n y) (hx : x.Nested) : y.Nested := by
  cases h with
  | same => exact hx
  | begin z hi hz =>
    have hdown : ¬ x.Up := by
      rintro (h | h) <;> simp [hi] at h
    exact ⟨fun hl => absurd (hx.live hl) hdown, fun _ => hx.blank hdown⟩
  | setUp h => exact ⟨fun _ => Or.inl rfl, fun hd => absurd (Or.inl rfl) hd⟩
  | establish h => exact ⟨fun _ => Or.inr rfl, fun hd => absurd (Or.inr rfl) hd⟩
  | finish closes hi hc =>
    refine ⟨fun hl => ?_, fun _ => rfl⟩
    obtain ⟨hl, hcl⟩ : x.live = true ∧ closes = false := by simpa using hl
    -- what does not close ends a call that is not up
    rcases hx.live hl with hs | hs <;> rcases hc hcl with hs' | hs' <;> simp [hs] at hs'

namespace Coordinator

@[simp] theorem foldl_liveAfter_sendToPeer (ok live : Bool) (t : Option ℕ) (dest : String) (msg : CallMessage) :
    (sendToPeer t dest msg).foldl (liveAfter ok) live = live := by
  unfold sendToPeer
  cases t with
  | none => rfl
  | some t => by_cases hd : dest = "" <;> simp [hd, liveAfter]

/-- The calls `es` of the manager, handled. -/
theorem course_managed {c : Coordinator} {m : CallManager} {es : List Event} {n : ℕ} {x : Standing}
    (h : Course c.able c.standing n x) (hn : requests es = n) (hs : m.session = x.session)
    (hp : es.foldl peerAfter c.currentPeerId = x.peer)
    (hl : es.foldl (liveAfter c.able) c.engine.live = x.live)
    (ha : es.foldl armedAfter c.watchdogArmed = x.armed) :
    Course c.able c.standing (requests es) (c.managed (m, es)).1.standing := by
  rw [managed_standing, hn, hs, hp, hl, ha]
  exact h

/-- The manager has been left with the call over, after the calls `es` and the news that it is idle. -/
theorem course_finish {c : Coordinator} (m : CallManager) (es : List Event) (closes : Bool)
    (hx : c.manager.callState ≠ .idle)
    (hc : closes = false → c.manager.callState = .calling ∨ c.manager.callState = .receiving)
    (hl : es.foldl (liveAfter c.able) c.engine.live = (c.engine.live && !closes)) (hn : requests es = 0) :
    Course c.able c.standing (requests (es ++ notify (some 0) [.onCallStateChanged .idle ""]))
      (c.managed (m.cleared, es ++ notify (some 0) [.onCallStateChanged .idle ""])).1.standing := by
  refine course_managed (.finish closes hx hc) ?_ rfl ?_ ?_ ?_
  · rw [requests_append, hn]
    rfl
  · rw [List.foldl_append]
    rfl
  · rw [List.foldl_append, hl]
    rfl
  · simp [notify, armedAfter]

section Perform

variable {c : Coordinator} (ho : c.manager.observer = some 0)

include ho

/-- **One operation of the manager.** -/
theorem perform_course (op : Op) :
    Course c.able c.standing (requests (c.manager.perform op).2) (c.perform op).1.standing := by
  have h := c.manager.performed op
  show Course _ _ _ (c.managed ((c.manager.perform op).1, (c.manager.perform op).2)).1.standing
  generalize (c.manager.perform op).1 = m' at h ⊢
  generalize (c.manager.perform op).2 = es at h ⊢
  cases h with
  | ignored => exact .same
  | setSignalTransport t => exact .same
  | registerObserver o => exact .same
  | busy => exact .same
  | initiated t target tick ht hs =>
    rw [ho]
    refine course_managed (.begin _ hs (Or.inl rfl)) rfl rfl rfl rfl ?_
    simp [notify, armedAfter]
  | rang sender id hid hs =>
    rw [ho]
    refine course_managed (.begin _ hs (Or.inr rfl)) rfl rfl rfl rfl ?_
    simp [notify, armedAfter]
  | accepted t ht hs =>
    rw [ho]
    exact course_managed (.setUp (Or.inr hs)) rfl rfl rfl rfl rfl
  | answered reason hs =>
    rw [ho]
    exact course_managed (.setUp (Or.inl hs)) rfl rfl rfl rfl rfl
  | established hs =>
    rw [ho]
    refine course_managed (.establish hs) rfl rfl rfl rfl ?_
    simp [notify, armedAfter, standing]
  | cancelled hs =>
    rw [ho]
    exact course_finish _ _ false (by simp [hs]) (fun _ => Or.inl hs) (by simp) (by simp)
  | rejected reason hs =>
    rw [ho]
    exact course_finish _ _ false (by simp [hs]) (fun _ => Or.inr hs) (by simp) (by simp)
  | ended hs =>
    rw [ho]
    refine course_finish _ _ true hs (by simp) ?_ ?_
    · simp [notify, liveAfter]
    · simp [notify, Event.asksForConnection]
  | timedOut hs =>
    rw [ho]
    exact course_finish _ _ true (by simp [hs]) (by simp) (by simp [notify, liveAfter]) rfl
  | refused o reason hs =>
    rw [ho]
    refine course_finish c.manager.stopCallRequestTimerLocked
      (notify (some 0) [.onCallStateChanged .idle c.manager.currentPeer,
        .onCallRejected c.manager.currentPeer reason]) true (by simp [hs]) (by simp) ?_ rfl
    simp [notify, liveAfter]
  | refusedUnheard reason hs hc hno => exact absurd (hno.symm.trans ho) (by simp)
  | cancelledByPeer reason hs =>
    rw [ho]
    exact course_finish _ _ true (by simp [hs]) (by simp) (by simp [notify, liveAfter]) rfl
  | endedByPeer reason hs =>
    rw [ho]
    exact course_finish _ _ true hs (by simp) (by simp [notify, liveAfter]) rfl

/-- **The end of the request timer.** -/
theorem expire_course :
    Course c.able c.standing (requests c.manager.expire.2) (c.managed c.manager.expire).1.standing := by
  rw [CallManager.expire_eq]
  by_cases hg : c.manager.timer = some c.manager.timerGeneration ∧ c.manager.callState = .calling
  · rw [if_pos hg, ho]
    exact course_finish _ _ true (by simp [hg.2]) (by simp) (by simp [notify, liveAfter]) rfl
  · rw [if_neg hg]
    exact .same

end Perform

end Coordinator

/-! ### One input -/

namespace CallManager

theorem expire_callState (m : CallManager) : m.expire.1.callState = m.callState ∨ m.expire.1.callState = .idle := by
  rcases m.expire_session with h | ⟨-, h⟩
  · exact Or.inl (congrArg Session.state h)
  · exact Or.inr (congrArg Session.state h)

/-- The two pointers of the manager are what they were. -/
def SamePorts (m m' : CallManager) : Prop :=
  m'.signalTransport = m.signalTransport ∧ m'.observer = m.observer

theorem samePorts_expire (m : CallManager) : m.SamePorts m.expire.1 := by
  rw [CallManager.expire_eq]
  split_ifs <;> exact ⟨rfl, rfl⟩

/-- An operation that an input leads to leaves the pointers alone, and the counter of the call ids never goes
back. -/
theorem samePorts_perform (m : CallManager) {i : Input} {op : Op} (h : i.op = some op) :
    m.SamePorts (m.perform op).1 ∧ m.callCounter ≤ (m.perform op).1.callCounter := by
  have hp := m.performed op
  generalize (m.perform op).1 = m' at hp ⊢
  generalize (m.perform op).2 = es at hp
  cases hp with
  | setSignalTransport t => exact absurd h (i.op_ne_ports.1 t)
  | registerObserver o => exact absurd h (i.op_ne_ports.2 o)
  | initiated => exact ⟨⟨rfl, rfl⟩, Nat.le_succ _⟩
  | _ => exact ⟨⟨rfl, rfl⟩, le_rfl⟩

end CallManager

namespace Coordinator

/-- What holds of every coordinator that inputs lead to, whatever they are. -/
structure Sound (c : Coordinator) : Prop where
  transport : c.manager.signalTransport = some 0
  observer : c.shutdownStarted = false → c.manager.observer = some 0
  silent : c.shutdownStarted = true →
    c.manager.observer = none ∧ c.engine.live = false ∧ c.watchdogArmed = false ∧ c.currentPeerId = ""
  nested : c.standing.Nested
  coherent : c.manager.session.Coherent

theorem sound_init : Sound init := by
  refine ⟨rfl, fun _ => rfl, (by rintro ⟨⟩), ⟨(by rintro ⟨⟩), fun _ => rfl⟩, Session.coherent_blank⟩

/-- Whether the watchdog is armed before the manager hears of the input. -/
def armedAt (c : Coordinator) : Input → Bool
  | .iceState s => decide (s.Unstable ∧ c.manager.callState = .connected)
  | .watchdogExpiry => false
  | _ => c.watchdogArmed

/-- No request for a peer connection finds one, if none is live outside a call. -/
theorem creations_perform {c : Coordinator} (ho : c.manager.observer = some 0)
    (hl : c.engine.live = true → c.manager.Up) (op : Op) :
    creations (c.perform op).2 = requests (c.manager.perform op).2 := by
  refine creations_onEvents ?_
  have hc := perform_course ho op
  generalize requests (c.manager.perform op).2 = n at hc ⊢
  generalize (c.perform op).1.standing = y at hc
  cases hc with
  | setUp hx =>
    refine Or.inr ⟨rfl, ?_⟩
    by_contra hlive
    have hup : c.standing.Up := hl (eq_true_of_ne_false hlive)
    rcases hx with hx | hx <;> simp [Standing.Up, hx] at hup
  | _ => exact Or.inl rfl

theorem perform_creates {c : Coordinator} (ho : c.manager.observer = some 0)
    (hl : c.engine.live = true → c.manager.Up) (op : Op) :
    Course c.able c.standing (creations (c.perform op).2) (c.perform op).1.standing := by
  rw [creations_perform ho hl op]
  exact perform_course ho op

theorem post_eq {c : Coordinator} (hs : c.shutdownStarted = false)
    (task : Coordinator → Coordinator × List PortCall) : c.post task = task c := by
  simp [post, hs]

theorem sendMedia_fst (c : Coordinator) (m : String → SignalMessage) : (c.sendMedia m).1 = c := by
  unfold sendMedia
  split_ifs <;> rfl

@[simp] theorem creations_sendMedia (c : Coordinator) (m : String → SignalMessage) :
    creations (c.sendMedia m).2 = 0 := by
  unfold sendMedia
  split_ifs <;> rfl

/-- The peer as the manager's activity finds it: an offer for the live call has put its sender there. -/
def Peered (c : Coordinator) (i : Input) (p : String) : Prop :=
  p = c.currentPeerId ∨
    ∃ sdp, i = .receive p (.offer sdp) ∧ c.engine.live = true ∧ sdp.callId ≠ "" ∧
      sdp.callId = c.manager.currentCallId

/-- A received media message. -/
theorem receive_media_course {c : Coordinator} (hs : c.shutdownStarted = false) (sender : String)
    {m : SignalMessage} (hm : ∀ msg, m ≠ .call msg) :
    ∃ p, c.Peered (.receive sender m) p ∧
      Course c.able { c.standing with peer := p } (creations (c.receive sender m).2)
        (c.receive sender m).1.standing := by
  have hsame : Course c.able { c.standing with peer := c.currentPeerId } 0 c.standing := .same
  simp only [receive, hs, Bool.false_eq_true, if_false]
  cases m with
  | call msg => exact absurd rfl (hm msg)
  | offer sdp =>
    simp only [processOffer]
    by_cases hl : c.engine.live = true
    · rw [if_neg (not_not.mpr hl)]
      by_cases hid : sdp.callId = "" ∨ sdp.callId ≠ c.manager.currentCallId
      · rw [if_pos hid, creations_ui]
        exact ⟨c.currentPeerId, Or.inl rfl, hsame⟩
      · rw [if_neg hid]
        simp only [not_or, not_not] at hid
        refine ⟨sender, Or.inr ⟨sdp, rfl, hl, hid.1, hid.2⟩, ?_⟩
        split_ifs
        · rw [creations_ui]
          exact .same
        · exact .same
    · rw [if_pos hl, creations_ui]
      exact ⟨c.currentPeerId, Or.inl rfl, hsame⟩
  | answer sdp =>
    refine ⟨c.currentPeerId, Or.inl rfl, ?_⟩
    simp only [processAnswer]
    split_ifs <;> simp only [creations_ui, creations_nil] <;> exact hsame
  | iceCandidate candidate =>
    refine ⟨c.currentPeerId, Or.inl rfl, ?_⟩
    simp only [processIceCandidate]
    split_ifs <;> simp only [creations_ui, creations_nil] <;> exact hsame

/-- **One input**: the watchdog may be armed or stopped, an offer may change the peer, and then there is one
activity of the manager at most. -/
theorem exec_course {c : Coordinator} (hs : c.shutdownStarted = false) (ho : c.manager.observer = some 0)
    (hlive : c.engine.live = true → c.manager.Up) {i : Input} (hi : i ≠ .shutdown) :
    ∃ p, c.Peered i p ∧
      Course c.able { c.standing with peer := p, armed := c.armedAt i } (creations (c.exec i).2)
        (c.step i).standing := by
  -- the inputs that leave the peer alone
  suffices hmost : (∀ sender m, i = .receive sender m → ∃ msg, m = .call msg) →
      Course c.able { c.standing with armed := c.armedAt i } (creations (c.exec i).2) (c.step i).standing by
    by_cases hm : ∀ sender m, i = .receive sender m → ∃ msg, m = .call msg
    · exact ⟨c.currentPeerId, Or.inl rfl, hmost hm⟩
    · push Not at hm
      obtain ⟨sender, m, rfl, hm⟩ := hm
      exact receive_media_course hs sender hm
  intro hm
  cases i with
  | shutdown => exact absurd rfl hi
  | startCall peerId tick connected =>
    simp only [step, exec, post_eq hs]
    exact perform_creates ho hlive _
  | acceptCall =>
    simp only [step, exec, post_eq hs]
    exact perform_creates ho hlive _
  | rejectCall reason =>
    simp only [step, exec, post_eq hs]
    exact perform_creates ho hlive _
  | endCall =>
    simp only [step, exec, post_eq hs]
    exact perform_creates ho hlive _
  | timerExpiry =>
    have hc := expire_course ho
    have hn : requests c.manager.expire.2 = 0 := by
      rw [CallManager.expire_eq, ho]
      split_ifs <;> rfl
    have hcalls : creations (c.managed c.manager.expire).2 = requests c.manager.expire.2 :=
      creations_onEvents (Or.inl hn)
    simp only [step, exec, hcalls]
    exact hc
  | watchdogExpiry =>
    simp only [step, exec, onWatchdogExpired, armedAt]
    by_cases ha : c.watchdogArmed = true
    · rw [if_pos ha, post_eq (c := { c with watchdogArmed := false }) hs]
      split_ifs
      · exact .same
      · rw [creations_andThen, creations_ui, Nat.zero_add]
        exact perform_creates (c := { c with watchdogArmed := false }) ho hlive .endCall
    · rw [if_neg ha]
      rw [show ({ c.standing with armed := false } : Standing) = c.standing by
        simp [standing, eq_false_of_ne_true ha]]
      exact .same
  | iceState s =>
    simp only [step, exec, onIceConnectionStateChanged, post_eq hs, armedAt]
    by_cases hst : s = .connected ∨ s = .completed
    · have hun : ¬ s.Unstable := by rcases hst with rfl | rfl <;> decide
      rw [if_pos hst, decide_eq_false fun hu => hun hu.1]
      exact perform_creates (c := { c with watchdogArmed := false }) ho hlive .notifyPeerConnectionEstablished
    · rw [if_neg hst]
      by_cases hun : s = .failed ∨ s = .disconnected ∨ s = .closed
      · rw [if_pos hun, creations_ui]
        simp only [IceState.Unstable, hun, true_and]
        exact .same
      · rw [if_neg hun, decide_eq_false fun hu => hun hu.1]
        exact .same
  | offerCreated sdp =>
    simp only [step, exec, onOfferCreated, sendMedia_fst, creations_sendMedia]
    exact .same
  | answerCreated sdp =>
    simp only [step, exec, onAnswerCreated, sendMedia_fst, creations_sendMedia]
    exact .same
  | iceCandidateGenerated mid index candidate =>
    simp only [step, exec, onIceCandidateGenerated, sendMedia_fst, creations_sendMedia]
    exact .same
  | engineError error =>
    simp only [step, exec, onError, hs, Bool.false_eq_true, if_false, creations_ui]
    exact .same
  | receive sender m =>
    obtain ⟨msg, rfl⟩ := hm sender m rfl
    simp only [step, exec, receive, hs, Bool.false_eq_true, if_false]
    exact perform_creates ho hlive _
  | userOffline clientId =>
    simp only [step, exec, onUserOffline]
    split_ifs
    · exact .same
    · rw [creations_ui]
      exact .same
    · exact perform_creates ho hlive _
  | setUIObserver attached => exact .same
  | engineAnswers creates addsTracks => exact .same

/-- What is left of a coordinator by an input that comes after `Shutdown`. -/
structure Silenced (c : Coordinator) (i : Input) : Prop where
  shutdownStarted : (c.step i).shutdownStarted = true
  live : (c.step i).engine.live = c.engine.live
  peer : (c.step i).currentPeerId = c.currentPeerId
  armed : c.watchdogArmed = false → (c.step i).watchdogArmed = false
  creations : creations (c.exec i).2 = 0
  manager : (c.step i).manager = c.manager ∨ (c.step i).manager = c.manager.expire.1

/-- After `Shutdown` the request timer may still end a call, and nothing else happens. -/
theorem silent_step {c : Coordinator} (hs : c.shutdownStarted = true) (ho : c.manager.observer = none) (i : Input) :
    Silenced c i := by
  cases i with
  | timerExpiry =>
    have hcalls : c.managed c.manager.expire = ({ c with manager := c.manager.expire.1 }, []) := by
      rw [CallManager.expire_eq, ho]
      split_ifs <;> rfl
    constructor <;> simp [step, exec, hcalls, hs]
  | watchdogExpiry =>
    by_cases ha : c.watchdogArmed = true
    · constructor <;> simp [step, exec, onWatchdogExpired, post, hs, ha]
    · constructor <;> simp [step, exec, onWatchdogExpired, hs, ha]
  | engineAnswers creates addsTracks => exact ⟨hs, rfl, rfl, id, rfl, Or.inl rfl⟩
  | setUIObserver attached => exact ⟨hs, rfl, rfl, id, rfl, Or.inl rfl⟩
  | _ =>
    constructor <;> simp [step, exec, post, hs, onIceConnectionStateChanged, onOfferCreated, onAnswerCreated,
      onIceCandidateGenerated, sendMedia, onError, receive, onUserOffline, shutdown]

theorem shutdown_sound {c : Coordinator} (h : Sound c) (hs : c.shutdownStarted = false) : Sound (c.step .shutdown) := by
  simp only [step, exec, shutdown, hs, Bool.false_eq_true, if_false]
  exact ⟨h.transport, (by simp), fun _ => ⟨rfl, rfl, rfl, rfl⟩, ⟨(by rintro ⟨⟩), fun _ => rfl⟩, h.coherent⟩

/-- What an input leaves alone, unless it is about just that. -/
structure SameSettings (c c' : Coordinator) : Prop where
  shutdownStarted : c'.shutdownStarted = c.shutdownStarted
  able : c'.able = c.able

theorem SameSettings.of_rearmed {c c' : Coordinator} {a : Bool} (h : SameSettings { c with watchdogArmed := a } c') :
    SameSettings c c' :=
  ⟨h.shutdownStarted, h.able⟩

theorem sameSettings_managed (c : Coordinator) (r : CallManager × List Event) :
    SameSettings c (c.managed r).1 :=
  have h := onEvents_handled r.2 { c with manager := r.1 }
  ⟨h.shutdownStarted, h.able⟩

theorem sameSettings_perform (c : Coordinator) (op : Op) : SameSettings c (c.perform op).1 :=
  sameSettings_managed c _

theorem sameSettings_post {c : Coordinator} {task : Coordinator → Coordinator × List PortCall}
    (h : SameSettings c (task c).1) : SameSettings c (c.post task).1 := by
  unfold post
  split_ifs
  · exact ⟨rfl, rfl⟩
  · exact h

theorem step_settings (c : Coordinator) {i : Input} (hi : i ≠ .shutdown)
    (ha : ∀ creates addsTracks, i ≠ .engineAnswers creates addsTracks) : SameSettings c (c.step i) := by
  have hrefl : SameSettings c c := ⟨rfl, rfl⟩
  cases i with
  | shutdown => exact absurd rfl hi
  | startCall => exact sameSettings_post (sameSettings_perform c _)
  | acceptCall => exact sameSettings_post (sameSettings_perform c _)
  | rejectCall => exact sameSettings_post (sameSettings_perform c _)
  | endCall => exact sameSettings_post (sameSettings_perform c _)
  | timerExpiry => exact sameSettings_managed c _
  | watchdogExpiry =>
    simp only [step, exec, onWatchdogExpired]
    split_ifs
    · refine SameSettings.of_rearmed (a := false) (sameSettings_post ?_)
      split_ifs
      · exact ⟨rfl, rfl⟩
      · exact sameSettings_perform { c with watchdogArmed := false } .endCall
    · exact hrefl
  | iceState s =>
    refine sameSettings_post ?_
    split_ifs
    · exact SameSettings.of_rearmed (a := false) (sameSettings_perform c.stopIceDisconnectWatchdog _)
    · exact ⟨rfl, rfl⟩
    · exact ⟨rfl, rfl⟩
  | offerCreated =>
    simp only [step, exec, onOfferCreated, sendMedia_fst]
    exact hrefl
  | answerCreated =>
    simp only [step, exec, onAnswerCreated, sendMedia_fst]
    exact hrefl
  | iceCandidateGenerated =>
    simp only [step, exec, onIceCandidateGenerated, sendMedia_fst]
    exact hrefl
  | engineError => exact hrefl
  | receive sender m =>
    simp only [step, exec, receive]
    by_cases hs : c.shutdownStarted = true
    · rw [if_pos hs]
      exact hrefl
    · rw [if_neg hs]
      cases m with
      | call msg => exact sameSettings_perform c _
      | offer sdp => simp only [processOffer]; split_ifs <;> exact ⟨rfl, rfl⟩
      | answer sdp => simp only [processAnswer]; split_ifs <;> exact hrefl
      | iceCandidate candidate => simp only [processIceCandidate]; split_ifs <;> exact hrefl
  | userOffline =>
    simp only [step, exec, onUserOffline]
    split_ifs
    · exact hrefl
    · exact hrefl
    · exact sameSettings_perform c _
  | setUIObserver => exact ⟨rfl, rfl⟩
  | engineAnswers creates addsTracks => exact absurd rfl (ha creates addsTracks)

/-- Only `Shutdown` shuts a coordinator down. -/
theorem step_shutdownStarted (c : Coordinator) {i : Input} (hi : i ≠ .shutdown) :
    (c.step i).shutdownStarted = c.shutdownStarted := by
  by_cases ha : ∃ creates addsTracks, i = .engineAnswers creates addsTracks
  · obtain ⟨creates, addsTracks, rfl⟩ := ha
    rfl
  · exact (c.step_settings hi fun creates addsTracks h => ha ⟨creates, addsTracks, h⟩).shutdownStarted

/-- The manager after an input: an activity of its own, with the ports it had. -/
theorem step_manager (c : Coordinator) {i : Input} (hi : i ≠ .shutdown) :
    c.manager.SamePorts (c.step i).manager ∧
      (c.manager.session.Coherent → (c.step i).manager.session.Coherent) := by
  have hrefl : c.manager.SamePorts c.manager := ⟨rfl, rfl⟩
  have ht := c.exec_turn i
  unfold step
  generalize (c.exec i).1.manager = m at ht ⊢
  generalize signals (c.exec i).2 = sent at ht
  cases ht with
  | nothing => exact ⟨hrefl, id⟩
  | operation hop _ =>
    exact ⟨(c.manager.samePorts_perform hop).1, fun h => (CallManager.coherent_perform h _).1⟩
  | expiry =>
    exact ⟨c.manager.samePorts_expire, fun h => (CallManager.coherent_next h .timerExpiry).1⟩
  | media _ => exact ⟨hrefl, id⟩
  | closing => exact absurd rfl hi

theorem sound_silenced {c : Coordinator} (h : Sound c) (hs : c.shutdownStarted = true) (i : Input) :
    Sound (c.step i) := by
  obtain ⟨ho, hl, ha, hp⟩ := h.silent hs
  have hsil := silent_step hs ho i
  have hl' := hsil.live.trans hl
  have hp' := hsil.peer.trans hp
  have hports : c.manager.SamePorts (c.step i).manager ∧ (c.step i).manager.session.Coherent := by
    rcases hsil.manager with hm | hm
    · rw [hm]
      exact ⟨⟨rfl, rfl⟩, h.coherent⟩
    · rw [hm]
      exact ⟨c.manager.samePorts_expire, (CallManager.coherent_next h.coherent .timerExpiry).1⟩
  refine ⟨hports.1.1.trans h.transport, fun hs' => absurd hsil.shutdownStarted (by simp [hs']),
    fun _ => ⟨hports.1.2.trans ho, hl', hsil.armed ha, hp'⟩, ⟨fun hlive => ?_, fun _ => hp'⟩, hports.2⟩
  exact absurd (hl'.symm.trans hlive) (by simp)

/-- A step that does not leave the coordinator shut down. -/
theorem step_alive {c : Coordinator} {i : Input} (hs : (c.step i).shutdownStarted = false) :
    c.shutdownStarted = false ∧ i ≠ .shutdown := by
  have hi : i ≠ .shutdown := by
    rintro rfl
    simp only [step, exec, shutdown] at hs
    split_ifs at hs with h
    · simp [h] at hs
  exact ⟨(c.step_shutdownStarted hi).symm.trans hs, hi⟩

/-- **Soundness is kept by every input.** -/
theorem sound_step (c : Coordinator) (i : Input) (h : Sound c) : Sound (c.step i) := by
  by_cases hs : c.shutdownStarted = true
  · exact sound_silenced h hs i
  · have hs' : c.shutdownStarted = false := eq_false_of_ne_true hs
    by_cases hi : i = .shutdown
    · exact hi ▸ shutdown_sound h hs'
    · obtain ⟨⟨ht, ho⟩, hcoh⟩ := c.step_manager hi
      have hsd := c.step_shutdownStarted hi
      obtain ⟨p, hp, hcourse⟩ := exec_course hs' (h.observer hs') h.nested.live hi
      refine ⟨ht.trans h.transport, fun _ => ho.trans (h.observer hs'),
        fun hs'' => absurd (hsd.symm.trans hs'') (by simp [hs']), hcourse.nested ⟨h.nested.live, fun hd => ?_⟩,
        hcoh h.coherent⟩
      rcases hp with rfl | ⟨sdp, -, hl, -⟩
      · exact h.nested.blank hd
      · exact absurd (h.nested.live hl) hd

/-- A step that leaves the coordinator shut down creates nothing and takes no call up. -/
theorem step_silenced {c : Coordinator} (h : Sound c) {i : Input} (hs : (c.step i).shutdownStarted = true) :
    creations (c.exec i).2 = 0 ∧
      ((c.step i).manager.session = c.manager.session ∨ (c.step i).manager.callState = .idle) := by
  by_cases hs' : c.shutdownStarted = true
  · have hsil := silent_step hs' (h.silent hs').1 i
    refine ⟨hsil.creations, ?_⟩
    rcases hsil.manager with hm | hm
    · exact Or.inl (by rw [hm])
    · rw [hm]
      exact c.manager.expire_session.imp_right fun he => congrArg Session.state he.2
  · have hi : i = .shutdown := by
      by_contra hi
      exact hs' ((c.step_shutdownStarted hi).symm.trans hs)
    subst hi
    simp only [step, exec, shutdown, if_neg hs']
    exact ⟨rfl, Or.inl rfl⟩

/-- **Soundness**: every coordinator reached by inputs is sound. -/
theorem sound_run (l : List Input) : Sound (run step init l) := run_invariant' sound_step sound_init l

end Coordinator

end PeerCall
