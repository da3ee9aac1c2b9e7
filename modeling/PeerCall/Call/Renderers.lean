import PeerCall.Call.Views
import PeerCall.Engine.Media

/-!
# Call.Renderers — the tracks on the screen and the tracks of the engine

The engine tells the coordinator of its video tracks, the coordinator starts the renderers of the user
interface and stops them before it closes the peer connection.  `View` is the engine's media with the track
that each renderer was last started on; it plays the calls that an operation of the coordinator makes.
**`renderers_show_tracks`**: as long as no operation attaches a video track and then fails for the audio
track, and none of the tracks that an applied offer adds is refused, the renderers show the engine's tracks.
-/

namespace PeerCall

open PeerCall.Lib WebRTC

/-! ### What `AddTracks` amounts to -/

namespace WebRTC

/-- `AddTracks` answers true, for a live peer connection. -/
def Scene.attaches (sc : Scene) (config : LocalVideoSourceConfig) : Bool :=
  (sc.hasVideoSender && sc.hasAudioSender) ||
    ((sc.hasVideoSender || (decide config.kind.IsImplemented && sc.creates && sc.takesVideo)) &&
      (sc.hasAudioSender || sc.takesAudio))

/-- A new video track is made and taken. -/
def Scene.Publishes (sc : Scene) : Prop := sc.hasVideoSender = false ∧ sc.creates = true ∧ sc.takesVideo = true

instance (sc : Scene) : Decidable sc.Publishes := inferInstanceAs (Decidable (_ ∧ _))

/-- A new video track is made, recorded, and not taken. -/
def Scene.Refuses (sc : Scene) : Prop := sc.hasVideoSender = false ∧ sc.creates = true ∧ sc.takesVideo = false

instance (sc : Scene) : Decidable sc.Refuses := inferInstanceAs (Decidable (_ ∧ _))

/-- An audio track is needed and is not taken. -/
def Scene.Mutes (sc : Scene) : Prop := sc.hasAudioSender = false ∧ sc.takesAudio = false

instance (sc : Scene) : Decidable sc.Mutes := inferInstanceAs (Decidable (_ ∧ _))

/-- What a call does to the local track, and what it tells: the track is kept, or published, or recorded
only. -/
inductive Added (sc : Scene) (track : Option ℕ) : Option ℕ → List MediaCall → Bool → Prop
  | kept (es : List String) (b : Bool) : Added sc track track (es.map .onError) b
  | published (t : ℕ) (es : List String) (b : Bool) (h : sc.Publishes) (hb : b = false → sc.Mutes) :
    Added sc track (some t) (.onLocalVideoTrackAdded t :: es.map .onError) b
  | refused (t : ℕ) (es : List String) (h : sc.Refuses) : Added sc track (some t) (es.map .onError) false

/-- The audio track is refused after a success. -/
theorem Added.mute {sc : Scene} {track track' : Option ℕ} {calls : List MediaCall} (e : String)
    (h : Added sc track track' calls true) (hm : sc.Mutes) :
    Added sc track track' (calls ++ [.onError e]) false := by
  cases h with
  | kept es =>
    rw [← List.map_singleton, ← List.map_append]
    exact .kept (es ++ [e]) false
  | published t es b hp hb =>
    rw [List.cons_append, ← List.map_singleton, ← List.map_append]
    exact .published t (es ++ [e]) false hp fun _ => hm

namespace Media

variable (x : Media) (sc : Scene)

theorem addVideoTrack_added (h : sc.hasVideoSender = false) :
    Added sc x.localVideoTrack (x.addVideoTrack sc).1.localVideoTrack (x.addVideoTrack sc).2.1
      (x.addVideoTrack sc).2.2 := by
  unfold addVideoTrack
  rcases hc : x.createSourceForConfig x.config sc with error | y
  · exact .kept [_] false
  · have hcreates : sc.creates = true := by
      unfold createSourceForConfig at hc
      split_ifs at hc with hi hcr
      all_goals exact hcr
    dsimp only
    split_ifs with ht
    · exact .published _ [] true ⟨h, hcreates, ht⟩ fun hb => Bool.noConfusion hb
    · exact .refused _ [_] ⟨h, hcreates, by simpa using ht⟩

/-- **The local track after `AddTracks`.** -/
theorem addTracks_added :
    Added sc x.localVideoTrack (x.addTracks sc).1.localVideoTrack (x.addTracks sc).2.1 (x.addTracks sc).2.2 := by
  unfold addTracks
  by_cases hp : ¬ x.peerConnection = true
  · rw [if_pos hp]
    exact .kept [] false
  rw [if_neg hp]
  by_cases hb : sc.hasVideoSender = true ∧ sc.hasAudioSender = true
  · rw [if_pos hb]
    exact .kept [] true
  rw [if_neg hb]
  dsimp only
  set y := ((x.startUps sc.early).configureAudioInputForSource x.config).startUps sc.switched with hy
  have hyl : y.localVideoTrack = x.localVideoTrack := by simp [hy, configureAudioInputForSource]
  rw [← hyl]
  -- what the video part has done when it is the audio track's turn
  obtain ⟨r, hr⟩ : ∃ r, r = (if sc.hasVideoSender = true then (y, [], true) else y.addVideoTrack sc) := ⟨_, rfl⟩
  have hadded : Added sc y.localVideoTrack r.1.localVideoTrack r.2.1 r.2.2 := by
    rw [hr]
    split_ifs with hv
    · exact .kept [] true
    · exact addVideoTrack_added y sc (by simpa using hv)
  rw [← hr]
  split_ifs with ha
  · rw [ha.1] at hadded
    unfold addAudioTrack
    split_ifs with ht
    · simpa using hadded
    · exact hadded.mute _ ⟨by simpa using ha.2, by simpa using ht⟩
  · exact hadded

theorem addVideoTrack_result :
    (x.addVideoTrack sc).2.2 = (decide x.config.kind.IsImplemented && sc.creates && sc.takesVideo) := by
  unfold addVideoTrack createSourceForConfig
  by_cases hi : x.config.kind.IsImplemented
  · cases hc : sc.creates
    · simp [hi]
    · cases ht : sc.takesVideo <;> simp [hi]
  · simp [hi]

/-- **The result of `AddTracks`.** -/
theorem addTracks_result : (x.addTracks sc).2.2 = (x.peerConnection && sc.attaches x.config) := by
  unfold addTracks Scene.attaches
  cases hp : x.peerConnection
  · simp
  rw [if_neg (by simp)]
  dsimp only
  set y := ((x.startUps sc.early).configureAudioInputForSource x.config).startUps sc.switched with hy
  have hvideo := addVideoTrack_result y sc
  have hyc : y.config = x.config := by simp [hy, configureAudioInputForSource]
  rw [hyc] at hvideo
  cases hv : sc.hasVideoSender <;> cases ha : sc.hasAudioSender
  · simp only [addAudioTrack]
    cases hr : (y.addVideoTrack sc).2.2 <;> rw [hr] at hvideo <;> cases ht : sc.takesAudio <;>
      simp [hr, ← hvideo]
  · simp [hvideo]
  · simp only [addAudioTrack]
    cases ht : sc.takesAudio <;> simp
  · simp

/-- The fields that `AddTracks` leaves alone. -/
def Kept (x y : Media) : Prop :=
  y.config = x.config ∧ y.peerConnection = x.peerConnection ∧ y.remoteVideoTrack = x.remoteVideoTrack

theorem addVideoTrack_kept : Kept x (x.addVideoTrack sc).1 := by
  unfold addVideoTrack createSourceForConfig
  split_ifs <;> simp [Kept]

theorem addTracks_kept : Kept x (x.addTracks sc).1 := by
  unfold addTracks
  by_cases hp : ¬ x.peerConnection = true
  · rw [if_pos hp]
    exact ⟨rfl, rfl, rfl⟩
  rw [if_neg hp]
  dsimp only
  set y := ((x.startUps sc.early).configureAudioInputForSource x.config).startUps sc.switched with hy
  have hxy : Kept x y := by simp [Kept, hy, configureAudioInputForSource]
  obtain ⟨h1, h2, h3⟩ := addVideoTrack_kept y sc
  unfold addAudioTrack
  split_ifs
  all_goals first
    | exact ⟨rfl, rfl, rfl⟩
    | exact hxy
    | exact ⟨h1.trans hxy.1, h2.trans hxy.2.1, h3.trans hxy.2.2⟩

end Media

end WebRTC

namespace Renderers

/-! ### The renderers -/

/-- The engine's media, and the tracks that `SdlApp`'s renderers were last started on. -/
structure View where
  media : Media := {}
  localRenderer : Option ℕ := none
  remoteRenderer : Option ℕ := none
  deriving DecidableEq, Repr

namespace View

/-- `OnLocalVideoTrackAdded`, `OnRemoteVideoTrackAdded` and `OnRemoteVideoTrackRemoved` of the coordinator;
`ui`: it has a UI observer. -/
def onMediaCall (ui : Bool) (v : View) : MediaCall → View
  | .onLocalVideoTrackAdded track => if ui then { v with localRenderer := some track } else v
  | .onRemoteVideoTrackAdded track => if ui then { v with remoteRenderer := some track } else v
  | .onRemoteVideoTrackRemoved => if ui then { v with remoteRenderer := none } else v
  | .onError _ => v

/-- The engine has done something with its media and told its observer. -/
def become (ui : Bool) (v : View) (m : Media) (calls : List MediaCall) : View :=
  calls.foldl (onMediaCall ui) { v with media := m }

/-- A call that the coordinator makes; `makes` and `sc` are what the libraries answer. -/
def onPortCall (ui makes : Bool) (sc : Scene) (v : View) : PortCall → View
  | .engine .createPeerConnection => { v with media := v.media.createPeerConnection makes }
  | .engine .addTracks => v.become ui (v.media.addTracks sc).1 (v.media.addTracks sc).2.1
  | .engine .closePeerConnection => { v with media := v.media.closePeerConnection }
  | .engine .shutdown => { v with media := v.media.closePeerConnection }
  | .ui .onStopLocalRenderer => { v with localRenderer := none }
  | .ui .onStopRemoteRenderer => { v with remoteRenderer := none }
  | _ => v

/-- The calls of one operation, in order. -/
def play (ui makes : Bool) (sc : Scene) (v : View) (calls : List PortCall) : View :=
  calls.foldl (onPortCall ui makes sc) v

/-- **The renderers show the engine's tracks**, and nothing without a peer connection. -/
structure Shows (v : View) : Prop where
  localRenderer : v.localRenderer = v.media.localVideoTrack
  remoteRenderer : v.remoteRenderer = v.media.remoteVideoTrack
  stopped : v.media.peerConnection = false → v.localRenderer = none ∧ v.remoteRenderer = none

instance (v : View) : Decidable v.Shows :=
  decidable_of_iff
    (v.localRenderer = v.media.localVideoTrack ∧ v.remoteRenderer = v.media.remoteVideoTrack ∧
      (v.media.peerConnection = false → v.localRenderer = none ∧ v.remoteRenderer = none))
    ⟨fun h => ⟨h.1, h.2.1, h.2.2⟩, fun h => ⟨h.localRenderer, h.remoteRenderer, h.stopped⟩⟩

/-! ### What the engine tells -/

section Become

variable (ui : Bool) (v : View) (m : Media)

/-- Errors do not reach the renderers. -/
@[simp] theorem become_errors (es : List String) : v.become ui m (es.map .onError) = { v with media := m } := by
  unfold become
  induction es with
  | nil => rfl
  | cons e es ih => exact ih

theorem become_published (t : ℕ) (es : List String) :
    v.become true m (.onLocalVideoTrackAdded t :: es.map .onError) =
      { v with media := m, localRenderer := some t } :=
  become_errors true { v with localRenderer := some t } m es

/-- The renderers do not depend on what else the media are. -/
theorem become_media (calls : List MediaCall) (m' : Media) :
    ({ v.become ui m calls with media := m' } : View) = v.become ui m' calls := by
  unfold become
  induction calls generalizing v with
  | nil => rfl
  | cons call calls ih =>
    have h : ∀ n : Media, onMediaCall ui { v with media := n } call = { onMediaCall ui v call with media := n } := by
      intro n
      cases call <;> cases ui <;> rfl
    rw [List.foldl_cons, List.foldl_cons, h m, h m']
    exact ih (onMediaCall ui v call)

theorem become_append (calls calls' : List MediaCall) (m' : Media) :
    v.become ui m' (calls ++ calls') = (v.become ui m calls).become ui m' calls' := by
  unfold become
  rw [List.foldl_append]
  congr 1
  exact (become_media ui v m calls m').symm

end Become

/-- **`AddTracks` and the renderers**: unless a track is refused, the local renderer shows the local track
afterwards; without success, unless the audio track is refused, it has not been started. -/
theorem become_addTracks {v : View} {sc : Scene} {m : Media} {calls : List MediaCall} {b : Bool} {track : Option ℕ}
    (h : Added sc track m.localVideoTrack calls b) :
    (v.become true m calls).media = m ∧ (v.become true m calls).remoteRenderer = v.remoteRenderer ∧
      (b = false → ¬ (sc.Publishes ∧ sc.Mutes) → (v.become true m calls).localRenderer = v.localRenderer) ∧
      (v.localRenderer = track → b = true ∨ ¬ sc.Refuses →
        (v.become true m calls).localRenderer = m.localVideoTrack) := by
  generalize ht : m.localVideoTrack = track' at h
  cases h with
  | kept es b =>
    rw [become_errors]
    exact ⟨rfl, rfl, fun _ _ => rfl, fun h _ => h⟩
  | published t es b hp hb =>
    rw [become_published]
    exact ⟨rfl, rfl, fun hf hs => absurd ⟨hp, hb hf⟩ hs, fun _ _ => rfl⟩
  | refused t es hr =>
    rw [become_errors]
    exact ⟨rfl, rfl, fun _ _ => rfl, fun _ h => absurd hr (h.resolve_left Bool.false_ne_true)⟩

end View

/-- `CallCoordinator` over `WebRTCEngine`, with the renderers of the user interface. -/
structure Screen where
  coordinator : Coordinator := .init
  view : View := {}
  deriving DecidableEq, Repr

/-- What happens: an input of the coordinator with the answers that the engine gets from its libraries, a
callback of the peer connection, the end of `SetRemoteDescription`, a new source for the local video, or the
start of a decode thread. -/
inductive Activity
  | input (i : Input) (makes : Bool) (sc : Scene)
  | track (t : Option Track)
  | removeTrack (t : Option Track)
  | remoteDescription (isOffer ok : Bool) (receivers : List (Option Track)) (sc : Scene)
  | iceConnection (state : IceState) (receivers : List (Option Track))
  | setLocalVideoSource (config : LocalVideoSourceConfig) (sc : Scene)
  | startUp (s : ℕ)
  deriving DecidableEq, Repr

namespace Screen

/-- The engine will answer so. -/
def answers (c : Coordinator) (makes attaches : Bool) : Coordinator :=
  { c with engine := { c.engine with creates := makes, addsTracks := attaches } }

/-- An input of the coordinator. -/
def exec (x : Screen) (i : Input) (makes : Bool) (sc : Scene) : Screen :=
  let r := (answers x.coordinator makes (sc.attaches x.view.media.config)).exec i
  { coordinator := r.1, view := x.view.play x.coordinator.uiObserver makes sc r.2 }

/-- Something that the engine does by itself; its callbacks are guarded by the peer connection. -/
def engine (x : Screen) (r : Media × List MediaCall) : Screen :=
  { x with view := x.view.become x.coordinator.uiObserver r.1 r.2 }

def callback (x : Screen) (f : Media → Media × List MediaCall) : Screen :=
  if x.view.media.peerConnection then x.engine (f x.view.media) else x

/-- `OnIceConnectionChange`, as far as the engine goes. -/
def iceConnectionChange (x : Screen) (state : IceState) (receivers : List (Option Track)) : Screen :=
  x.callback fun m =>
    if state = .connected ∨ state = .completed then m.publishRemoteTracks receivers else (m, [])

def step (x : Screen) : Activity → Screen
  | .input i makes sc => x.exec i makes sc
  | .track t => x.callback (·.onPeerConnectionTrack t)
  | .removeTrack t => x.callback (·.onPeerConnectionRemoveTrack t)
  | .remoteDescription isOffer ok receivers sc =>
    x.callback (·.onSetRemoteDescription isOffer ok receivers sc)
  | .iceConnection state receivers =>
    let y := x.iceConnectionChange state receivers
    if x.view.media.peerConnection then y.exec (.iceState state) true {} else y
  | .setLocalVideoSource config sc =>
    let r := x.view.media.setLocalVideoSource config sc
    x.engine (r.1, r.2.1)
  | .startUp s => x.engine (x.view.media.startUp s, [])

/-- A UI stays attached and `Shutdown` is not called; where the tracks are attached to a new peer connection,
the audio track is not refused after the video track has been shown, and where an offer has been applied, no
new video track is refused. -/
def Smooth : Activity → Prop
  | .input .shutdown _ _ => False
  | .input (.setUIObserver attached) _ _ => attached = true
  | .input _ _ sc => ¬ (sc.Publishes ∧ sc.Mutes)
  | .remoteDescription _ _ _ sc => ¬ sc.Refuses
  | _ => True

instance (a : Activity) : Decidable (Smooth a) := by unfold Smooth; split <;> infer_instance

end Screen

/-! ### One operation of the coordinator -/

/-- The coordinator has a UI and knows the engine: what it will answer, and whether a peer connection is
live; and the renderers show the engine's tracks. -/
structure Tuned (makes : Bool) (sc : Scene) (c : Coordinator) (v : View) : Prop where
  attached : c.uiObserver = true
  serving : c.shutdownStarted = false
  creates : c.engine.creates = makes
  addsTracks : c.engine.addsTracks = sc.attaches v.media.config
  live : c.engine.live = v.media.peerConnection
  shows : v.Shows

section Operation

/-- The renderers and the engine's media, as the coordinator's calls change them. -/
def watch (makes : Bool) (sc : Scene) : Watch View where
  see := View.onPortCall true makes sc
  Rel := Tuned makes sc
  see_quiet v p hp := by
    rcases p with e | ⟨dest, m⟩ | u
    · cases e <;> first | rfl | exact hp.elim
    · rfl
    · cases u <;> first | rfl | exact hp.elim
  rel_same c c' v hc h :=
    ⟨hc.uiObserver.trans h.attached, hc.shutdownStarted.trans h.serving, hc.creates.trans h.creates,
      hc.addsTracks.trans h.addsTracks, hc.live.trans h.live, h.shows⟩
  serving _ _ h := h.serving

variable {makes : Bool} {sc : Scene} {v : View}

/-- The renderers are stopped, then the peer connection is closed. -/
theorem leads_stopMedia {c : Coordinator} (h : Tuned makes sc c v) : (watch makes sc).Leads v c.stopMedia := by
  unfold Watch.Leads Coordinator.stopMedia Coordinator.closePeerConnection Coordinator.ui
  rw [if_pos h.attached]
  have hconfig : v.media.closePeerConnection.config = v.media.config := by
    simp [Media.closePeerConnection, Media.stopSource_eq]
  exact ⟨h.attached, h.serving, h.creates, h.addsTracks.trans (congrArg sc.attaches hconfig.symm), rfl,
    ⟨rfl, rfl, fun _ => ⟨rfl, rfl⟩⟩⟩

/-- The tracks are attached to a new peer connection: with success they are shown, and without success the
renderers have not been started. -/
theorem attach_spec (h : v.Shows) (hpc : v.media.peerConnection = false) (hs : ¬ (sc.Publishes ∧ sc.Mutes)) :
    ∃ w : View, (watch true sc).play v [.engine .createPeerConnection, .engine .addTracks] = w ∧
      w.media.config = v.media.config ∧ w.media.peerConnection = true ∧ w.remoteRenderer = w.media.remoteVideoTrack ∧
      (sc.attaches v.media.config = true → w.localRenderer = w.media.localVideoTrack) ∧
      (sc.attaches v.media.config = false → w.localRenderer = none ∧ w.remoteRenderer = none) := by
  obtain ⟨hl, hr⟩ := h.stopped hpc
  set m := v.media.createPeerConnection true with hm
  have hresult : (m.addTracks sc).2.2 = sc.attaches v.media.config := by
    rw [Media.addTracks_result]
    rfl
  obtain ⟨hconfig, hp, hremote⟩ := Media.addTracks_kept m sc
  obtain ⟨h1, h2, h3, h4⟩ := View.become_addTracks (v := { v with media := m }) (Media.addTracks_added m sc)
  rw [hresult] at h3 h4
  refine ⟨_, rfl, ?_, ?_, ?_, fun hb => ?_, fun hb => ⟨?_, ?_⟩⟩
  · exact (congrArg Media.config h1).trans hconfig
  · exact (congrArg Media.peerConnection h1).trans hp
  · exact (h2.trans h.remoteRenderer).trans ((congrArg Media.remoteVideoTrack h1).trans hremote).symm
  · exact (h4 h.localRenderer (Or.inl hb)).trans (congrArg Media.localVideoTrack h1).symm
  · exact (h3 hb hs).trans hl
  · exact h2.trans hr

/-- **A peer connection is asked for.** -/
theorem leads_onNeedCreatePeerConnection {c : Coordinator} (h : Tuned makes sc c v)
    (hs : ¬ (sc.Publishes ∧ sc.Mutes)) (peerId : String) (isCaller : Bool) :
    (watch makes sc).Leads v (c.onNeedCreatePeerConnection peerId isCaller) := by
  unfold Coordinator.onNeedCreatePeerConnection
  dsimp only [Coordinator.stopIceDisconnectWatchdog]
  by_cases hlive : c.engine.live = true
  · rw [if_pos hlive]
    exact Watch.leads_quiet h ⟨rfl, rfl, rfl, rfl, rfl, rfl⟩ (by simp)
  rw [if_neg hlive]
  have hpc : v.media.peerConnection = false := by
    rw [← h.live]
    simpa using hlive
  by_cases hmakes : c.engine.creates = true
  swap
  · -- no peer connection is made, and the engine is as it was
    rw [if_pos hmakes]
    have hm : makes = false := by
      rw [← h.creates]
      simpa using hmakes
    have hv : (watch makes sc).see v (.engine .createPeerConnection) = v := by
      rw [hm]
      simp only [watch, View.onPortCall, Media.createPeerConnection, ← hpc]
    have hplay : (watch makes sc).play v (.engine .createPeerConnection ::
        c.ui [.onShowError "Error" "Failed to create peer connection"]) = v := by
      rw [Watch.play_cons, hv]
      exact Watch.play_ui _ (by simp [PortCall.Quiet])
    exact Watch.leads_of_play hplay ⟨h.attached, h.serving, h.creates, h.addsTracks, h.live, h.shows⟩
  rw [if_neg (not_not.mpr hmakes)]
  have hm : makes = true := h.creates.symm.trans hmakes
  subst hm
  obtain ⟨w, hw, hconfig, hwp, hremote, hok, hfail⟩ := attach_spec h.shows hpc hs
  by_cases hadds : c.engine.addsTracks = true
  · -- the tracks are attached, and the caller makes an offer
    rw [if_neg (not_not.mpr hadds)]
    have hshows : w.Shows := ⟨hok (h.addsTracks.symm.trans hadds), hremote, fun hf => by simp [hwp] at hf⟩
    have htracks : c.engine.addsTracks = sc.attaches w.media.config :=
      h.addsTracks.trans (congrArg sc.attaches hconfig.symm)
    have htuned : ∀ c' : Coordinator, c'.uiObserver = c.uiObserver → c'.shutdownStarted = c.shutdownStarted →
        c'.engine.creates = c.engine.creates → c'.engine.addsTracks = c.engine.addsTracks →
        c'.engine.live = true → Tuned true sc c' w := by
      intro c' h1 h2 h3 h4 h5
      exact ⟨h1.trans h.attached, h2.trans h.serving, h3.trans h.creates, h4.trans htracks, h5.trans hwp.symm,
        hshows⟩
    cases isCaller
    · exact Watch.leads_of_play hw (htuned _ rfl rfl rfl rfl rfl)
    · refine Watch.leads_andThen (Watch.leads_of_play hw (htuned _ rfl rfl rfl rfl rfl)) fun v' hv' => ?_
      exact Watch.leads_quiet hv' ⟨rfl, rfl, rfl, rfl, rfl, rfl⟩ (by simp [PortCall.Quiet])
  · -- they are not, and the peer connection is closed without a renderer having been started
    rw [if_pos hadds]
    obtain ⟨hl, hr⟩ := hfail (h.addsTracks.symm.trans (by simpa using hadds))
    have hclosed : w.media.closePeerConnection.config = v.media.config := by
      rw [← hconfig]
      simp [Media.closePeerConnection, Media.stopSource_eq]
    have hplay : (watch true sc).play v ([.engine .createPeerConnection, .engine .addTracks] ++
        c.ui [.onShowError "Error" "Failed to attach local media tracks"] ++ [.engine .closePeerConnection]) =
        { w with media := w.media.closePeerConnection } := by
      rw [Watch.play_append, Watch.play_append, hw, Watch.play_ui _ (by simp [PortCall.Quiet])]
      rfl
    refine Watch.leads_of_play hplay ⟨h.attached, h.serving, h.creates, ?_, rfl, ?_⟩
    · exact h.addsTracks.trans (congrArg sc.attaches hclosed.symm)
    · exact ⟨hl, hr, fun _ => ⟨hl, hr⟩⟩

/-- One call of the manager. -/
theorem leads_onEvent (hs : ¬ (sc.Publishes ∧ sc.Mutes)) (c : Coordinator) (v : View) (e : Event)
    (h : (watch makes sc).Rel c v) : (watch makes sc).Leads v (c.onEvent e) := by
  cases e with
  | send t dest m => exact Watch.leads_quiet h ⟨rfl, rfl, rfl, rfl, rfl, rfl⟩ (by simp [PortCall.Quiet])
  | notify o cb =>
    cases cb with
    | onCallStateChanged state peerId =>
      have hsame : c.Same (c.onCallStateChanged state peerId).1 := by
        unfold Coordinator.onCallStateChanged
        dsimp only
        constructor <;> split_ifs <;> rfl
      have hplay : (watch makes sc).play v (c.onCallStateChanged state peerId).2 = v := by
        unfold Coordinator.onCallStateChanged Coordinator.ui Watch.play
        dsimp only
        split_ifs <;> rfl
      exact Watch.leads_of_play hplay ((watch makes sc).rel_same c _ v hsame h)
    | onIncomingCall callerId =>
      have hplay : (watch makes sc).play v (c.onEvent (.notify o (.onIncomingCall callerId))).2 = v := by
        unfold Watch.play Coordinator.onEvent Coordinator.onCallback Coordinator.ui
        dsimp only
        split_ifs <;> rfl
      exact Watch.leads_of_play hplay h
    | onCallAccepted peerId => exact Watch.leads_nothing h
    | onCallRejected peerId reason => exact leads_stopMedia h
    | onCallCancelled peerId reason => exact leads_stopMedia h
    | onCallEnded peerId reason =>
      exact Watch.leads_ui h ⟨rfl, rfl, rfl, rfl, rfl, rfl⟩ (by simp [PortCall.Quiet])
    | onCallTimeout => exact leads_stopMedia h
    | onNeedCreatePeerConnection peerId isCaller => exact leads_onNeedCreatePeerConnection h hs peerId isCaller
    | onNeedClosePeerConnection =>
      exact leads_stopMedia ⟨h.attached, h.serving, h.creates, h.addsTracks, h.live, h.shows⟩

/-- The calls of one operation of the manager. -/
theorem leads_managed (hs : ¬ (sc.Publishes ∧ sc.Mutes)) (c : Coordinator) (v : View)
    (r : CallManager × List Event) (h : (watch makes sc).Rel c v) : (watch makes sc).Leads v (c.managed r) := by
  unfold Coordinator.managed
  have h' : (watch makes sc).Rel { c with manager := r.1 } v :=
    ⟨h.attached, h.serving, h.creates, h.addsTracks, h.live, h.shows⟩
  exact Watch.leads_onEvents (leads_onEvent hs) r.2 h'

end Operation

/-! ### Runs -/

namespace Screen

/-- A UI is attached, `Shutdown` has not been called, the coordinator knows whether a peer connection is
live, and the renderers show the engine's tracks. -/
structure InService (x : Screen) : Prop where
  attached : x.coordinator.uiObserver = true
  serving : x.coordinator.shutdownStarted = false
  live : x.coordinator.engine.live = x.view.media.peerConnection
  shows : x.view.Shows

theorem exec_inService {x : Screen} (h : InService x) {i : Input} {makes : Bool} {sc : Scene}
    (hs : Smooth (.input i makes sc)) : InService (x.exec i makes sc) := by
  have ht : Tuned makes sc (answers x.coordinator makes (sc.attaches x.view.media.config)) x.view :=
    ⟨h.attached, h.serving, rfl, rfl, h.live, h.shows⟩
  by_cases hi : i.Serves
  · -- what the inputs of the coordinator share
    have hm : ¬ (sc.Publishes ∧ sc.Mutes) := by
      cases i <;> first | exact hs | exact hi.elim
    have hl : (watch makes sc).Leads x.view _ :=
      Watch.leads_exec (w := watch makes sc) (fun c v _ _ hc _ => leads_managed hm c v _ hc)
        (fun c v hc => leads_managed hm c v _ hc) ht hi
    unfold exec
    rw [h.attached]
    exact ⟨hl.attached, hl.serving, hl.live, hl.shows⟩
  · cases i with
    | engineAnswers a b => exact ⟨h.attached, h.serving, h.live, h.shows⟩
    | setUIObserver attached => exact ⟨hs, h.serving, h.live, h.shows⟩
    | shutdown => exact hs.elim
    | _ => exact absurd trivial hi

end Screen

namespace View

variable {v : View}

/-- What the engine has done keeps the peer connection, and the renderers show the tracks after it. -/
def Told (v : View) (r : Media × List MediaCall) : Prop :=
  r.1.peerConnection = v.media.peerConnection ∧ (v.become true r.1 r.2).Shows

/-- Nothing has been done to the tracks. -/
theorem told_same (h : v.Shows) {m : Media} (hp : m.peerConnection = v.media.peerConnection)
    (hl : m.localVideoTrack = v.media.localVideoTrack) (hr : m.remoteVideoTrack = v.media.remoteVideoTrack) :
    v.Told (m, []) :=
  ⟨hp, h.localRenderer.trans hl.symm, h.remoteRenderer.trans hr.symm, fun hf => h.stopped (hp.symm.trans hf)⟩

theorem told_nothing (h : v.Shows) : v.Told (v.media, []) := told_same h rfl rfl rfl

/-- A remote track is published. -/
theorem told_publishRemoteVideoTrack (h : v.Shows) (hp : v.media.peerConnection = true) (track : ℕ) :
    v.Told (v.media.publishRemoteVideoTrack track) := by
  unfold Media.publishRemoteVideoTrack
  split_ifs
  · exact told_nothing h
  · exact ⟨rfl, h.localRenderer, rfl, fun hf => absurd (hp.symm.trans hf) (by simp)⟩

/-- The remote track is gone. -/
theorem told_removed (h : v.Shows) :
    v.Told ({ v.media with remoteVideoTrack := none }, [.onRemoteVideoTrackRemoved]) :=
  ⟨rfl, h.localRenderer, rfl, fun hf => ⟨(h.stopped hf).1, rfl⟩⟩

theorem told_publishRemoteTracks (h : v.Shows) (hp : v.media.peerConnection = true)
    (receivers : List (Option Track)) : v.Told (v.media.publishRemoteTracks receivers) := by
  unfold Media.publishRemoteTracks
  rw [if_neg (not_not.mpr hp)]
  rcases Media.firstVideo receivers with _ | track
  · dsimp only
    split_ifs
    · exact told_nothing h
    · exact told_removed h
  · exact told_publishRemoteVideoTrack h hp track

theorem told_onPeerConnectionTrack (h : v.Shows) (hp : v.media.peerConnection = true) (t : Option Track) :
    v.Told (v.media.onPeerConnectionTrack t) := by
  rcases t with _ | ⟨kind, n⟩
  · exact told_nothing h
  · cases kind
    · exact told_nothing h
    · exact told_publishRemoteVideoTrack h hp n

theorem told_onPeerConnectionRemoveTrack (h : v.Shows) (t : Option Track) :
    v.Told (v.media.onPeerConnectionRemoveTrack t) := by
  rcases t with _ | ⟨kind, n⟩
  · exact told_nothing h
  · cases kind
    · exact told_nothing h
    · exact told_removed h

theorem become_media_eq (v : View) (m : Media) (calls : List MediaCall) : (v.become true m calls).media = m :=
  (congrArg View.media (become_media true v m calls m)).symm

/-- The tracks that are missing are added to a live peer connection, and none is refused. -/
theorem told_addTracks (h : v.Shows) (hp : v.media.peerConnection = true) {sc : Scene} (hs : ¬ sc.Refuses) :
    v.Told ((v.media.addTracks sc).1, (v.media.addTracks sc).2.1) := by
  obtain ⟨-, hpc, hremote⟩ := Media.addTracks_kept v.media sc
  obtain ⟨h1, h2, -, h4⟩ := become_addTracks (v := v) (Media.addTracks_added v.media sc)
  refine ⟨hpc, ?_, ?_, fun hf => ?_⟩
  · exact (h4 h.localRenderer (Or.inr hs)).trans (congrArg Media.localVideoTrack h1).symm
  · exact (h2.trans h.remoteRenderer).trans (hremote.symm.trans (congrArg Media.remoteVideoTrack h1).symm)
  · rw [h1, hpc, hp] at hf
    exact Bool.noConfusion hf

/-- **A description has been applied.** -/
theorem told_onSetRemoteDescription (h : v.Shows) (hp : v.media.peerConnection = true) (isOffer ok : Bool)
    (receivers : List (Option Track)) {sc : Scene} (hs : ¬ sc.Refuses) :
    v.Told (v.media.onSetRemoteDescription isOffer ok receivers sc) := by
  unfold Media.onSetRemoteDescription
  by_cases hok : ok = true
  swap
  · rw [if_pos hok]
    exact told_nothing h
  rw [if_neg (not_not.mpr hok)]
  obtain ⟨hpc, hshows⟩ := told_publishRemoteTracks h hp receivers
  by_cases ho : isOffer = true
  · -- the tracks are added where the receivers' track has been published
    rw [if_pos ho]
    have hm := become_media_eq v (v.media.publishRemoteTracks receivers).1 (v.media.publishRemoteTracks receivers).2
    have hp' := (congrArg Media.peerConnection hm).trans (hpc.trans hp)
    obtain ⟨hpc', hshows'⟩ := told_addTracks hshows hp' hs
    rw [hm] at hpc' hshows'
    refine ⟨hpc'.trans hpc, ?_⟩
    rw [become_append true v (v.media.publishRemoteTracks receivers).1]
    exact hshows'
  · rw [if_neg ho]
    exact ⟨hpc, hshows⟩

/-- **The local video comes from another source.** -/
theorem told_setLocalVideoSource (h : v.Shows) (config : LocalVideoSourceConfig) (sc : Scene) :
    v.Told ((v.media.setLocalVideoSource config sc).1, (v.media.setLocalVideoSource config sc).2.1) := by
  unfold Media.setLocalVideoSource
  rcases Media.validateConfig config sc with error | u
  · exact told_nothing h
  dsimp only
  by_cases hn : ¬ v.media.peerConnection = true ∨ v.media.videoSender = none
  · rw [if_pos hn]
    exact told_same h rfl rfl rfl
  rw [if_neg hn]
  obtain ⟨hp, -⟩ := not_or.mp hn
  rcases hc : (v.media.startUps sc.early).createSourceForConfig config sc with error | y
  · exact told_same h (by simp) (by simp) (by simp)
  obtain ⟨hyp, hyl, hyr⟩ : y.peerConnection = v.media.peerConnection ∧
      y.localVideoTrack = v.media.localVideoTrack ∧ y.remoteVideoTrack = v.media.remoteVideoTrack := by
    unfold Media.createSourceForConfig at hc
    split_ifs at hc
    all_goals
      obtain rfl := Except.ok.inj hc
      simp
  dsimp only
  split_ifs
  · -- the new track is taken and shown
    refine ⟨?_, ?_, ?_, fun hf => ?_⟩
    · simpa [Media.adoptSource, Media.stopSource_eq, Media.configureAudioInputForSource] using hyp
    · simp [become, onMediaCall, Media.adoptSource, Media.stopSource_eq, Media.configureAudioInputForSource]
    · simpa [become, onMediaCall, Media.adoptSource, Media.stopSource_eq, Media.configureAudioInputForSource, hyr]
        using h.remoteRenderer
    · refine absurd ?_ hp
      simpa [become, onMediaCall, Media.adoptSource, Media.stopSource_eq, Media.configureAudioInputForSource, hyp]
        using hf
  · simp only [Media.stopSource_eq]
    exact told_same h (by simpa using hyp) (by simpa using hyl) (by simpa using hyr)

/-- A decode thread starts. -/
theorem told_startUp (h : v.Shows) (s : ℕ) : v.Told (v.media.startUp s, []) :=
  told_same h (Media.startUps_peerConnection v.media [s]) (Media.startUps_localVideoTrack v.media [s])
    (Media.startUps_remoteVideoTrack v.media [s])

end View

namespace Screen

/-- Something that the engine does by itself. -/
theorem engine_inService {x : Screen} (h : InService x) {r : Media × List MediaCall} (hr : x.view.Told r) :
    InService (x.engine r) := by
  obtain ⟨hp, hshows⟩ := hr
  have hm := congrArg Media.peerConnection (View.become_media_eq x.view r.1 r.2)
  unfold engine
  rw [h.attached]
  exact ⟨h.attached, h.serving, h.live.trans (hp.symm.trans hm.symm), hshows⟩

theorem callback_inService {x : Screen} (h : InService x) {f : Media → Media × List MediaCall}
    (hf : x.view.media.peerConnection = true → x.view.Told (f x.view.media)) : InService (x.callback f) := by
  unfold callback
  split_ifs with hp
  · exact engine_inService h (hf hp)
  · exact h

theorem step_inService {x : Screen} (h : InService x) {a : Activity} (hs : Smooth a) : InService (x.step a) := by
  cases a with
  | input i makes sc => exact exec_inService h hs
  | track t =>
    exact callback_inService (f := (·.onPeerConnectionTrack t)) h fun hp =>
      View.told_onPeerConnectionTrack h.shows hp t
  | removeTrack t =>
    exact callback_inService (f := (·.onPeerConnectionRemoveTrack t)) h fun _ =>
      View.told_onPeerConnectionRemoveTrack h.shows t
  | remoteDescription isOffer ok receivers sc =>
    exact callback_inService (f := (·.onSetRemoteDescription isOffer ok receivers sc)) h fun hp =>
      View.told_onSetRemoteDescription h.shows hp isOffer ok receivers hs
  | iceConnection state receivers =>
    have hy : InService (x.iceConnectionChange state receivers) := by
      refine callback_inService h fun hp => ?_
      split_ifs
      · exact View.told_publishRemoteTracks h.shows hp receivers
      · exact View.told_nothing h.shows
    simp only [step]
    split_ifs
    · exact exec_inService hy (by simp [Smooth, Scene.Mutes])
    · exact hy
  | setLocalVideoSource config sc => exact engine_inService h (View.told_setLocalVideoSource h.shows config sc)
  | startUp s => exact engine_inService h (View.told_startUp h.shows s)

theorem inService_init : InService {} := ⟨rfl, rfl, rfl, rfl, rfl, fun _ => ⟨rfl, rfl⟩⟩

/-- **The renderers show exactly the engine's tracks** after every smooth run. -/
theorem renderers_show_tracks {l : List Activity} (h : ∀ a ∈ l, Smooth a) : (run step {} l).view.Shows := by
  have hm : Meets step (fun _ => Smooth) {} l := meets_of_forall _ h
  have hr : InService (run step {} l) :=
    run_invariant (P := InService) (fun x a hx ha => step_inService hx ha) inService_init hm
  exact hr.shows

/-- Bob calls, the call is accepted, and his offer is applied. -/
def bobCalls : List Activity :=
  [.input (.receive "bob" (.call (.callRequest "b1"))) true {}, .input .acceptCall true {},
    .input (.receive "bob" (.offer { callId := "b1", type := "offer", sdp := "v=0" })) true {},
    .remoteDescription true true [none, some { kind := .audio, number := 4 }, some { kind := .video, number := 7 }]
      { hasVideoSender := true, hasAudioSender := true }]

theorem bob_is_shown :
    (run step {} bobCalls).view.Shows ∧ (run step {} bobCalls).view.localRenderer = some 1 ∧
      (run step {} bobCalls).view.remoteRenderer = some 7 :=
  ⟨renderers_show_tracks (by decide), by decide, by decide⟩

/-- Bob calls, and the audio track is refused when the call is accepted. -/
def mutedAnswer : List Activity :=
  [.input (.receive "bob" (.call (.callRequest "b1"))) true {}, .input .acceptCall true { takesAudio := false }]

/-- After his offer the video track has to be made again, and is refused. -/
def secondTrack : List Activity :=
  bobCalls ++ [.remoteDescription true true [] { hasAudioSender := true, takesVideo := false }]

/-- **A stale track on the screen**: a peer connection is closed with the local renderer running, and a
track is recorded that the local renderer does not show. -/
theorem stale_local_renderer :
    (¬ (run step {} mutedAnswer).view.Shows ∧ (run step {} mutedAnswer).view.media.peerConnection = false ∧
      (run step {} mutedAnswer).view.localRenderer = some 1) ∧
      ¬ (run step {} secondTrack).view.Shows := by
  decide

end Screen

end Renderers

end PeerCall
