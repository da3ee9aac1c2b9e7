import PeerCall.Lib.Runs

/-!
# Engine.Connection — the peer connection of `WebRTCEngine`, its callbacks and its ICE candidates

The WebRTC library calls back at any later time.  Each callback holds a weak pointer to the guard that was
current when it was made, and does nothing once that guard is gone.  Peer connections, guards and candidates
are numbered in the order they are made; the engine's steps are atomic.
-/

namespace PeerCall.WebRTC

open PeerCall.Lib

/-- A callback that has been handed to the WebRTC library. -/
inductive Kind
  | observer
  | createDescription (isOffer : Bool)
  | setRemoteDescription (isOffer : Bool)
  | setLocalDescription (isOffer : Bool)
  | stats
  deriving DecidableEq, Repr

/-- `connection`: the peer connection that it belongs to; `guard`: the guard it holds weakly. -/
structure Delivery where
  kind : Kind
  connection : ℕ
  guard : Option ℕ
  deriving DecidableEq, Repr

structure PeerConnection where
  number : ℕ
  remoteDescription : Bool := false
  deriving DecidableEq, Repr

/-- The candidate number `index` of all, given for the peer connection `connection`. -/
structure Candidate where
  connection : ℕ
  index : ℕ
  deriving DecidableEq, Repr

/-- One call of `AddIceCandidate` on a peer connection, with its answer; `described`: it had a remote
description then. -/
structure Offer where
  candidate : Candidate
  receiver : ℕ
  described : Bool
  accepted : Bool
  deriving DecidableEq, Repr

/-- A handler that has run, and the peer connection that was live then. -/
structure Handled where
  delivery : Delivery
  live : Option ℕ
  deriving DecidableEq, Repr

/-- `WebRTCEngine`, as far as its peer connection goes.  `deliveries` are the callbacks that the library may
still make, any number of times; the last fields keep what has happened. -/
structure WebRTCEngine where
  peerConnection : Option PeerConnection := none
  callbackGuard : Option ℕ := none
  pendingIceCandidates : List Candidate := []
  shutdownStarted : Bool := false
  deliveries : List Delivery := []
  connections : ℕ := 0
  guards : ℕ := 0
  given : List Candidate := []
  offers : List Offer := []
  handled : List Handled := []
  crashed : Bool := false

namespace WebRTCEngine

/-! ### The callback guard -/

/-- `GetPeerConnectionCallbackGuard` of the callback, `expired()`. -/
def Expired (x : WebRTCEngine) (d : Delivery) : Prop := d.guard = none ∨ x.callbackGuard ≠ d.guard

instance (x : WebRTCEngine) (d : Delivery) : Decidable (x.Expired d) := by unfold Expired; infer_instance

/-- `RenewPeerConnectionCallbackGuard`. -/
def renewGuard (x : WebRTCEngine) : WebRTCEngine :=
  { x with callbackGuard := some x.guards, guards := x.guards + 1 }

/-- `ResetPeerConnectionCallbackGuard`. -/
def resetGuard (x : WebRTCEngine) : WebRTCEngine := { x with callbackGuard := none }

/-- A callback for a peer connection, with the guard as it is now. -/
def arm (x : WebRTCEngine) (kind : Kind) (connection : ℕ) : WebRTCEngine :=
  { x with deliveries := x.deliveries ++ [{ kind := kind, connection := connection, guard := x.callbackGuard }] }

/-! ### Creating and closing -/

/-- `CreatePeerConnection`; `ok`: the factory makes one. -/
def createPeerConnection (x : WebRTCEngine) (ok : Bool) : WebRTCEngine :=
  let x := { x.renewGuard.arm .observer x.connections with connections := x.connections + 1 }
  if ok then { x with peerConnection := some { number := x.connections - 1 } } else x.resetGuard

/-- `ClosePeerConnection`. -/
def closePeerConnection (x : WebRTCEngine) : WebRTCEngine :=
  { x.resetGuard with peerConnection := none, pendingIceCandidates := [] }

/-- `Shutdown`. -/
def shutdown (x : WebRTCEngine) : WebRTCEngine :=
  if x.shutdownStarted then x else { x.closePeerConnection with shutdownStarted := true }

/-! ### Requests -/

/-- `CreateOffer` and `CreateAnswer`. -/
def createDescription (x : WebRTCEngine) (isOffer : Bool) : WebRTCEngine :=
  match x.peerConnection with
  | none => x
  | some pc => x.arm (.createDescription isOffer) pc.number

/-- `SetRemoteDescription`; `parses`: the text is a description. -/
def setRemoteDescription (x : WebRTCEngine) (isOffer parses : Bool) : WebRTCEngine :=
  match x.peerConnection with
  | none => x
  | some pc => if parses then x.arm (.setRemoteDescription isOffer) pc.number else x

/-- `CollectStats`. -/
def collectStats (x : WebRTCEngine) : WebRTCEngine :=
  match x.peerConnection with
  | none => x
  | some pc => x.arm .stats pc.number

/-! ### ICE candidates -/

/-- The candidate that is given next. -/
def newCandidate (x : WebRTCEngine) (pc : PeerConnection) : Candidate :=
  { connection := pc.number, index := x.given.length }

/-- `AddIceCandidate`; `parses`: the text is a candidate, `accepts`: the peer connection takes it. -/
def addIceCandidate (x : WebRTCEngine) (parses accepts : Bool) : WebRTCEngine :=
  match x.peerConnection with
  | none => x
  | some pc =>
    if parses then
      let candidate := x.newCandidate pc
      let x := { x with given := x.given ++ [candidate] }
      if pc.remoteDescription then
        let offer : Offer :=
          { candidate := candidate, receiver := pc.number, described := pc.remoteDescription, accepted := accepts }
        let x := { x with offers := x.offers ++ [offer] }
        if accepts then x else { x with pendingIceCandidates := x.pendingIceCandidates ++ [candidate] }
      else { x with pendingIceCandidates := x.pendingIceCandidates ++ [candidate] }
    else x

/-- The loop of `ProcessPendingIceCandidates`, for the answers of the peer connection: what is offered and
what remains. -/
def drain (pc : PeerConnection) : List Candidate → List Bool → List Offer × List Candidate
  | [], _ => ([], [])
  | k :: ks, answers =>
    let accepted := answers.headD false
    let rest := drain pc ks answers.tail
    ({ candidate := k, receiver := pc.number, described := pc.remoteDescription, accepted := accepted } :: rest.1,
      if accepted then rest.2 else k :: rest.2)

/-- `ProcessPendingIceCandidates`. -/
def processPendingIceCandidates (x : WebRTCEngine) (answers : List Bool) : WebRTCEngine :=
  match x.peerConnection with
  | none => x
  | some pc =>
    if pc.remoteDescription then
      let result := drain pc x.pendingIceCandidates answers
      { x with offers := x.offers ++ result.1, pendingIceCandidates := result.2 }
    else x

/-! ### Callbacks -/

/-- `OnSessionDescriptionSuccess`, which uses `peer_connection_` unchecked. -/
def onSessionDescriptionSuccess (x : WebRTCEngine) (isOffer : Bool) : WebRTCEngine :=
  match x.peerConnection with
  | none => { x with crashed := true }
  | some pc => x.arm (.setLocalDescription isOffer) pc.number

/-- What the callback does with its result: `ok` for success, `addsTracks` and `answers` for what `AddTracks`
and the peer connection answer. -/
def handle (x : WebRTCEngine) (kind : Kind) (ok addsTracks : Bool) (answers : List Bool) : WebRTCEngine :=
  match kind with
  | .observer => x
  | .createDescription isOffer => if ok then x.onSessionDescriptionSuccess isOffer else x
  | .setRemoteDescription isOffer =>
    if ok then
      let x := x.processPendingIceCandidates answers
      if isOffer && addsTracks then x.createDescription false else x
    else x
  | .setLocalDescription _ => if ok then x.processPendingIceCandidates answers else x
  | .stats => x

/-- A handler runs. -/
def record (x : WebRTCEngine) (d : Delivery) : WebRTCEngine :=
  { x with handled := x.handled ++ [{ delivery := d, live := x.peerConnection.map PeerConnection.number }] }

/-- The library makes a callback. -/
def deliver (x : WebRTCEngine) (d : Delivery) (ok addsTracks : Bool) (answers : List Bool) : WebRTCEngine :=
  if x.Expired d then x else (x.record d).handle d.kind ok addsTracks answers

/-- The peer connection has a remote description from now on. -/
def describe (x : WebRTCEngine) : WebRTCEngine :=
  { x with peerConnection := x.peerConnection.map fun pc => { pc with remoteDescription := true } }

inductive Step
  | createPeerConnection (ok : Bool)
  | closePeerConnection
  | shutdown
  | createDescription (isOffer : Bool)
  | setRemoteDescription (isOffer parses : Bool)
  | collectStats
  | addIceCandidate (parses accepts : Bool)
  | processPendingIceCandidates (answers : List Bool)
  | describe
  | deliver (n : ℕ) (ok addsTracks : Bool) (answers : List Bool)
  deriving DecidableEq, Repr

def step (x : WebRTCEngine) : Step → WebRTCEngine
  | .createPeerConnection ok => x.createPeerConnection ok
  | .closePeerConnection => x.closePeerConnection
  | .shutdown => x.shutdown
  | .createDescription isOffer => x.createDescription isOffer
  | .setRemoteDescription isOffer parses => x.setRemoteDescription isOffer parses
  | .collectStats => x.collectStats
  | .addIceCandidate parses accepts => x.addIceCandidate parses accepts
  | .processPendingIceCandidates answers => x.processPendingIceCandidates answers
  | .describe => x.describe
  | .deliver n ok addsTracks answers =>
    match x.deliveries[n]? with
    | none => x
    | some d => x.deliver d ok addsTracks answers

/-! ### No callback from a closed peer connection -/

/-- A guard that is not gone belongs to the live peer connection, and so do the callbacks that hold it. -/
structure Guarded (x : WebRTCEngine) : Prop where
  live : ∀ g, x.callbackGuard = some g → ∃ pc, x.peerConnection = some pc ∧
    ∀ d ∈ x.deliveries, d.guard = some g → d.connection = pc.number
  known : ∀ g, x.callbackGuard = some g → g < x.guards
  fresh : ∀ d ∈ x.deliveries, ∀ g, d.guard = some g → g < x.guards
  handled : ∀ r ∈ x.handled, r.live = some r.delivery.connection
  crashed : x.crashed = false

/-- A change of the candidates only. -/
theorem Guarded.congr {x y : WebRTCEngine} (h : Guarded x) (hguard : y.callbackGuard = x.callbackGuard)
    (hpc : y.peerConnection = x.peerConnection) (hd : y.deliveries = x.deliveries) (hg : y.guards = x.guards)
    (hr : y.handled = x.handled) (hc : y.crashed = x.crashed) : Guarded y := by
  refine ⟨fun g hguard' => ?_, fun g hguard' => ?_, ?_, ?_, hc.trans h.crashed⟩
  · rw [hpc, hd]
    exact h.live g (hguard ▸ hguard')
  · rw [hg]
    exact h.known g (hguard ▸ hguard')
  · rw [hd, hg]
    exact h.fresh
  · rw [hr]
    exact h.handled

/-- A callback that is made for the live peer connection. -/
theorem guarded_arm {x : WebRTCEngine} (h : Guarded x) (kind : Kind) {pc : PeerConnection}
    (hpc : x.peerConnection = some pc) : Guarded (x.arm kind pc.number) := by
  refine ⟨fun g hg => ?_, h.known, fun d hd g hg => ?_, h.handled, h.crashed⟩
  · obtain ⟨pc', hpc', hall⟩ := h.live g hg
    refine ⟨pc', hpc', fun d hd hdg => ?_⟩
    rcases List.mem_append.mp hd with hd | hd
    · exact hall d hd hdg
    · rw [List.mem_singleton.mp hd]
      exact congrArg PeerConnection.number (Option.some.inj (hpc.symm.trans hpc'))
  · rcases List.mem_append.mp hd with hd | hd
    · exact h.fresh d hd g hg
    · rw [List.mem_singleton.mp hd] at hg
      exact h.known g hg

theorem guarded_reset {x : WebRTCEngine} (h : Guarded x) {y : WebRTCEngine} (hguard : y.callbackGuard = none)
    (hd : ∀ d ∈ y.deliveries, ∀ g, d.guard = some g → g < y.guards) (hr : y.handled = x.handled)
    (hc : y.crashed = x.crashed) : Guarded y :=
  ⟨fun g hg => absurd hg (by rw [hguard]; simp), fun g hg => absurd hg (by rw [hguard]; simp), hd,
    by rw [hr]; exact h.handled, hc.trans h.crashed⟩

theorem guarded_create {x : WebRTCEngine} (h : Guarded x) (ok : Bool) : Guarded (x.createPeerConnection ok) := by
  have hfresh : ∀ d ∈ (x.renewGuard.arm .observer x.connections).deliveries, ∀ g, d.guard = some g →
      g < x.guards + 1 := by
    intro d hd g hg
    rcases List.mem_append.mp hd with hd | hd
    · exact (h.fresh d hd g hg).trans (Nat.lt_succ_self _)
    · rw [List.mem_singleton.mp hd] at hg
      rw [← Option.some.inj hg]
      exact Nat.lt_succ_self _
  unfold createPeerConnection
  cases ok with
  | false => exact guarded_reset h rfl hfresh rfl rfl
  | true =>
    refine ⟨fun g hg => ⟨_, rfl, fun d hd hdg => ?_⟩, fun g hg => ?_, hfresh, h.handled, h.crashed⟩
    · -- no older callback holds the new guard
      obtain rfl : x.guards = g := Option.some.inj hg
      rcases List.mem_append.mp hd with hd | hd
      · exact absurd (h.fresh d hd _ hdg) (lt_irrefl _)
      · rw [List.mem_singleton.mp hd]
        rfl
    · rw [← Option.some.inj hg]
      exact Nat.lt_succ_self _

theorem guarded_close {x : WebRTCEngine} (h : Guarded x) : Guarded x.closePeerConnection :=
  guarded_reset h rfl h.fresh rfl rfl

theorem guarded_createDescription {x : WebRTCEngine} (h : Guarded x) (isOffer : Bool) :
    Guarded (x.createDescription isOffer) := by
  unfold createDescription
  cases hpc : x.peerConnection with
  | none => exact h
  | some pc => exact guarded_arm h _ hpc

theorem guarded_process {x : WebRTCEngine} (h : Guarded x) (answers : List Bool) :
    Guarded (x.processPendingIceCandidates answers) := by
  unfold processPendingIceCandidates
  cases hpc : x.peerConnection with
  | none => exact h
  | some pc =>
    dsimp only
    split_ifs
    · exact h.congr rfl hpc.symm rfl rfl rfl rfl
    · exact h

theorem guarded_addIceCandidate {x : WebRTCEngine} (h : Guarded x) (parses accepts : Bool) :
    Guarded (x.addIceCandidate parses accepts) := by
  unfold addIceCandidate
  cases hpc : x.peerConnection with
  | none => exact h
  | some pc =>
    dsimp only
    split_ifs
    · exact h.congr rfl hpc.symm rfl rfl rfl rfl
    · exact h.congr rfl hpc.symm rfl rfl rfl rfl
    · exact h.congr rfl hpc.symm rfl rfl rfl rfl
    · exact h

/-- A handler runs while a peer connection is live. -/
theorem guarded_handle {x : WebRTCEngine} (h : Guarded x) {pc : PeerConnection} (hpc : x.peerConnection = some pc)
    (kind : Kind) (ok addsTracks : Bool) (answers : List Bool) : Guarded (x.handle kind ok addsTracks answers) := by
  cases kind with
  | observer => exact h
  | stats => exact h
  | createDescription isOffer =>
    cases ok with
    | false => exact h
    | true =>
      simp only [handle, onSessionDescriptionSuccess, hpc]
      exact guarded_arm h _ hpc
  | setRemoteDescription isOffer =>
    cases ok with
    | false => exact h
    | true =>
      have hp := guarded_process h answers
      simp only [handle, if_true]
      split_ifs
      · exact guarded_createDescription hp false
      · exact hp
  | setLocalDescription isOffer =>
    cases ok with
    | false => exact h
    | true => exact guarded_process h answers

theorem guarded_deliver {x : WebRTCEngine} (h : Guarded x) {d : Delivery} (hd : d ∈ x.deliveries)
    (ok addsTracks : Bool) (answers : List Bool) : Guarded (x.deliver d ok addsTracks answers) := by
  unfold deliver
  by_cases hexp : x.Expired d
  · rw [if_pos hexp]
    exact h
  · rw [if_neg hexp]
    simp only [Expired, not_or, not_not] at hexp
    obtain ⟨g, hg⟩ := Option.ne_none_iff_exists'.mp hexp.1
    obtain ⟨pc, hpc, hall⟩ := h.live g (hexp.2.trans hg)
    have hrecord : Guarded (x.record d) := by
      refine ⟨h.live, h.known, h.fresh, fun r hr => ?_, h.crashed⟩
      rcases List.mem_append.mp hr with hr | hr
      · exact h.handled r hr
      · rw [List.mem_singleton.mp hr]
        simp [hpc, hall d hd hg]
    exact guarded_handle hrecord hpc _ _ _ _

theorem guarded_step (x : WebRTCEngine) (i : Step) (h : Guarded x) : Guarded (x.step i) := by
  cases i with
  | createPeerConnection ok => exact guarded_create h ok
  | closePeerConnection => exact guarded_close h
  | shutdown =>
    simp only [step, shutdown]
    split_ifs
    · exact h
    · exact (guarded_close h).congr rfl rfl rfl rfl rfl rfl
  | createDescription isOffer => exact guarded_createDescription h isOffer
  | setRemoteDescription isOffer parses =>
    simp only [step, setRemoteDescription]
    cases hpc : x.peerConnection with
    | none => exact h
    | some pc =>
      dsimp only
      split_ifs
      · exact guarded_arm h _ hpc
      · exact h
  | collectStats =>
    simp only [step, collectStats]
    cases hpc : x.peerConnection with
    | none => exact h
    | some pc => exact guarded_arm h _ hpc
  | addIceCandidate parses accepts => exact guarded_addIceCandidate h parses accepts
  | processPendingIceCandidates answers => exact guarded_process h answers
  | describe =>
    refine ⟨fun g hg => ?_, h.known, h.fresh, h.handled, h.crashed⟩
    obtain ⟨pc, hpc, hall⟩ := h.live g hg
    exact ⟨{ pc with remoteDescription := true }, by simp [step, describe, hpc], hall⟩
  | deliver n ok addsTracks answers =>
    simp only [step]
    cases hn : x.deliveries[n]? with
    | none => exact h
    | some d => exact guarded_deliver h (List.mem_of_getElem? hn) ok addsTracks answers

/-- **No callback from a closed peer connection**, in any run, however late the callbacks come: a handler only
runs for a callback of the peer connection that is live then, and none meets a null peer connection. -/
theorem no_callback_after_close (l : List Step) :
    (∀ r ∈ (run step {} l).handled, r.live = some r.delivery.connection) ∧ (run step {} l).crashed = false := by
  have h : Guarded (run step {} l) := by
    refine run_invariant' guarded_step ?_ l
    exact ⟨by simp, by simp, by simp, by simp, rfl⟩
  exact ⟨h.handled, h.crashed⟩

-- The callbacks of a first peer connection come when a second one is live; those of the second one are handled.
example :
    let x := run step {} [.createPeerConnection true, .createDescription true, .setRemoteDescription true true,
      .closePeerConnection, .createPeerConnection true, .collectStats, .deliver 1 true true [],
      .deliver 2 true true [], .deliver 0 true true [], .deliver 4 true true []]
    x.handled = [⟨⟨.stats, 1, some 1⟩, some 1⟩] := by
  decide

end WebRTCEngine

end PeerCall.WebRTC
