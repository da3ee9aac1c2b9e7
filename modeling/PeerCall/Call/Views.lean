import PeerCall.Call.Coordinator

/-!
# Call.Views — what is made of the calls of the coordinator

A `Watch` follows the calls that the coordinator makes on its ports and keeps a view of its own, related to
the coordinator.  **`leads_exec`**: a relation that the manager's operations keep is kept by every input, as
long as the coordinator is in service.
-/

namespace PeerCall

/-- The calls that change neither the media nor what the user interface shows of a call. -/
def PortCall.Quiet : PortCall → Prop
  | .engine .createOffer => True
  | .engine (.setRemoteOffer _) => True
  | .engine (.setRemoteAnswer _) => True
  | .engine (.addIceCandidate _ _ _) => True
  | .signal _ _ => True
  | .ui (.onLogMessage _ _) => True
  | .ui (.onShowError _ _) => True
  | _ => False

/-- The inputs that do not end the service: the coordinator is not shut down and keeps its UI observer.
What the engine will answer is not an input here. -/
def Input.Serves : Input → Prop
  | .shutdown => False
  | .setUIObserver _ => False
  | .engineAnswers _ _ => False
  | _ => True

/-- The two agree but for the peer, the role, the watchdog and what was asked of the engine. -/
structure Coordinator.Same (c c' : Coordinator) : Prop where
  manager : c'.manager = c.manager
  shutdownStarted : c'.shutdownStarted = c.shutdownStarted
  uiObserver : c'.uiObserver = c.uiObserver
  live : c'.engine.live = c.engine.live
  creates : c'.engine.creates = c.engine.creates
  addsTracks : c'.engine.addsTracks = c.engine.addsTracks

/-- A view of the calls, and its relation to the coordinator. -/
structure Watch (V : Type*) where
  see : V → PortCall → V
  Rel : Coordinator → V → Prop
  see_quiet : ∀ v p, p.Quiet → see v p = v
  rel_same : ∀ c c' v, c.Same c' → Rel c v → Rel c' v
  serving : ∀ c v, Rel c v → c.shutdownStarted = false

namespace Watch

variable {V : Type*} (w : Watch V) {c : Coordinator} {v : V}

/-- The view after some calls, in order. -/
def play (v : V) (calls : List PortCall) : V := calls.foldl w.see v

/-- The view that comes out of an activity goes with the coordinator that comes out of it. -/
def Leads (v : V) (r : Coordinator × List PortCall) : Prop := w.Rel r.1 (w.play v r.2)

theorem play_cons (v : V) (p : PortCall) (ps : List PortCall) : w.play v (p :: ps) = w.play (w.see v p) ps := rfl

theorem play_append (v : V) (xs ys : List PortCall) : w.play v (xs ++ ys) = w.play (w.play v xs) ys :=
  List.foldl_append

theorem play_quiet {calls : List PortCall} (h : ∀ p ∈ calls, p.Quiet) : w.play v calls = v := by
  unfold play
  induction calls with
  | nil => rfl
  | cons p ps ih =>
    rw [List.foldl_cons, w.see_quiet v p (h p List.mem_cons_self)]
    exact ih fun q hq => h q (List.mem_cons_of_mem _ hq)

/-- Messages and errors for the user. -/
theorem play_ui {cs : List UICall} (h : ∀ u ∈ cs, (PortCall.ui u).Quiet) : w.play v (c.ui cs) = v := by
  refine w.play_quiet fun p hp => ?_
  unfold Coordinator.ui at hp
  split_ifs at hp
  · obtain ⟨u, hu, rfl⟩ := List.mem_map.mp hp
    exact h u hu
  · cases hp

variable {w}

theorem leads_of_play {r : Coordinator × List PortCall} {v' : V} (hv : w.play v r.2 = v') (h : w.Rel r.1 v') :
    w.Leads v r := by
  unfold Leads
  rw [hv]
  exact h

theorem leads_nothing (h : w.Rel c v) : w.Leads v (c, []) := h

/-- Nothing that the view depends on. -/
theorem leads_quiet {c' : Coordinator} {calls : List PortCall} (h : w.Rel c v) (hc : c.Same c')
    (hq : ∀ p ∈ calls, p.Quiet) : w.Leads v (c', calls) :=
  leads_of_play (w.play_quiet hq) (w.rel_same c c' v hc h)

theorem leads_ui {c' : Coordinator} {cs : List UICall} (h : w.Rel c v) (hc : c.Same c')
    (hq : ∀ u ∈ cs, (PortCall.ui u).Quiet) : w.Leads v (c', c'.ui cs) :=
  leads_of_play (w.play_ui hq) (w.rel_same c c' v hc h)

theorem leads_andThen {r : Coordinator × List PortCall} {f : Coordinator → Coordinator × List PortCall}
    (h : w.Leads v r) (hf : ∀ v', w.Rel r.1 v' → w.Leads v' (f r.1)) : w.Leads v (andThen r f) := by
  have h' := hf _ h
  unfold Leads at h' ⊢
  rw [andThen, play_append]
  exact h'

theorem leads_post (h : w.Rel c v) {task : Coordinator → Coordinator × List PortCall} (ht : w.Leads v (task c)) :
    w.Leads v (c.post task) := by
  unfold Coordinator.post
  rw [if_neg (by simp [w.serving c v h])]
  exact ht

theorem leads_sendMedia (h : w.Rel c v) (m : String → SignalMessage) : w.Leads v (c.sendMedia m) := by
  unfold Coordinator.sendMedia
  rw [if_neg (by simp [w.serving c v h])]
  exact leads_quiet h ⟨rfl, rfl, rfl, rfl, rfl, rfl⟩ (by simp [PortCall.Quiet])

/-- The calls that the manager makes, one by one. -/
theorem leads_onEvents (hevent : ∀ c v e, w.Rel c v → w.Leads v (c.onEvent e)) (es : List Event) :
    ∀ {c : Coordinator} {v : V}, w.Rel c v → w.Leads v (c.onEvents es) := by
  induction es with
  | nil => exact fun h => h
  | cons e es ih => exact fun h => leads_andThen (hevent _ _ e h) fun _ hv => ih hv

section Operations

variable (hop : ∀ c v (i : Input) (op : Op), w.Rel c v → i.op = some op → w.Leads v (c.perform op))
  (hexpire : ∀ c v, w.Rel c v → w.Leads v (c.managed c.manager.expire))

include hop

/-- A message from the signaling client. -/
theorem leads_receive (h : w.Rel c v) (sender : String) (m : SignalMessage) : w.Leads v (c.receive sender m) := by
  unfold Coordinator.receive
  rw [if_neg (by simp [w.serving c v h])]
  match m with
  | .call m => exact hop c v (.receive sender (.call m)) _ h rfl
  | .offer sdp =>
    dsimp only [Coordinator.processOffer]
    split_ifs
    · exact leads_ui h ⟨rfl, rfl, rfl, rfl, rfl, rfl⟩ (by simp [PortCall.Quiet])
    · exact leads_ui h ⟨rfl, rfl, rfl, rfl, rfl, rfl⟩ (by simp [PortCall.Quiet])
    · exact leads_quiet h ⟨rfl, rfl, rfl, rfl, rfl, rfl⟩ (by simp [PortCall.Quiet])
    · exact leads_ui h ⟨rfl, rfl, rfl, rfl, rfl, rfl⟩ (by simp [PortCall.Quiet])
  | .answer sdp =>
    dsimp only [Coordinator.processAnswer]
    split_ifs
    · exact leads_ui h ⟨rfl, rfl, rfl, rfl, rfl, rfl⟩ (by simp [PortCall.Quiet])
    · exact leads_nothing h
    · exact leads_quiet h ⟨rfl, rfl, rfl, rfl, rfl, rfl⟩ (by simp [PortCall.Quiet])
  | .iceCandidate candidate =>
    dsimp only [Coordinator.processIceCandidate]
    split_ifs
    · exact leads_ui h ⟨rfl, rfl, rfl, rfl, rfl, rfl⟩ (by simp [PortCall.Quiet])
    · exact leads_nothing h
    · exact leads_ui h ⟨rfl, rfl, rfl, rfl, rfl, rfl⟩ (by simp [PortCall.Quiet])
    · exact leads_quiet h ⟨rfl, rfl, rfl, rfl, rfl, rfl⟩ (by simp [PortCall.Quiet])

include hexpire

/-- **Every input in service** keeps a relation that the operations of the manager and the end of the request
timer keep. -/
theorem leads_exec (h : w.Rel c v) {i : Input} (hi : i.Serves) : w.Leads v (c.exec i) := by
  cases i with
  | startCall peerId tick connected =>
    exact leads_post h (hop c v (.startCall peerId tick connected) _ h rfl)
  | acceptCall => exact leads_post h (hop c v .acceptCall _ h rfl)
  | rejectCall reason => exact leads_post h (hop c v (.rejectCall reason) _ h rfl)
  | endCall => exact leads_post h (hop c v .endCall _ h rfl)
  | timerExpiry => exact hexpire c v h
  | watchdogExpiry =>
    simp only [Coordinator.exec, Coordinator.onWatchdogExpired]
    have h' : w.Rel { c with watchdogArmed := false } v := w.rel_same c _ v ⟨rfl, rfl, rfl, rfl, rfl, rfl⟩ h
    split_ifs
    · refine leads_post h' ?_
      split_ifs
      · exact leads_nothing h'
      · refine leads_andThen (leads_ui h' ⟨rfl, rfl, rfl, rfl, rfl, rfl⟩ (by simp [PortCall.Quiet])) ?_
        exact fun v' hv' => hop _ v' .endCall _ hv' rfl
    · exact leads_nothing h
  | iceState state =>
    refine leads_post h ?_
    have h' : w.Rel c.stopIceDisconnectWatchdog v := w.rel_same c _ v ⟨rfl, rfl, rfl, rfl, rfl, rfl⟩ h
    split_ifs
    · exact hop _ v (.iceState state) _ h' rfl
    · refine leads_of_play (w.play_ui (by simp [PortCall.Quiet])) ?_
      exact w.rel_same c _ v ⟨rfl, rfl, rfl, rfl, rfl, rfl⟩ h
    · exact leads_nothing h'
  | offerCreated sdp => exact leads_sendMedia h _
  | answerCreated sdp => exact leads_sendMedia h _
  | iceCandidateGenerated mid index candidate => exact leads_sendMedia h _
  | engineError error =>
    simp only [Coordinator.exec, Coordinator.onError]
    split_ifs
    · exact leads_nothing h
    · exact leads_ui h ⟨rfl, rfl, rfl, rfl, rfl, rfl⟩ (by simp [PortCall.Quiet])
  | receive sender m => exact leads_receive hop h sender m
  | userOffline clientId =>
    simp only [Coordinator.exec, Coordinator.onUserOffline]
    split_ifs
    · exact leads_nothing h
    · exact leads_ui h ⟨rfl, rfl, rfl, rfl, rfl, rfl⟩ (by simp [PortCall.Quiet])
    · exact hop c v (.userOffline clientId) _ h rfl
  | setUIObserver attached => exact hi.elim
  | engineAnswers a b => exact hi.elim
  | shutdown => exact hi.elim

end Operations

end Watch

end PeerCall
