import PeerCall.Lib.Runs

/-!
# Engine.Media — the local and remote media of `WebRTCEngine`

Sources and tracks are numbered in the order they are made.  A file source has a decode thread whose
start-up step switches the audio input to synthetic PCM; it runs at any time before the source's `Stop`
returns.  What the libraries show and answer during a call comes with it as a `Scene`, and so do the
start-up steps that fall between the statements of the call.  The calls themselves are made one at a time.
-/

namespace PeerCall.WebRTC

inductive LocalVideoSourceKind
  | camera | file | screen | window
  deriving DecidableEq, Repr

namespace LocalVideoSourceKind

/-- `LocalVideoSourceKindToString`. -/
def toText : LocalVideoSourceKind → String
  | .camera => "Camera"
  | .file => "File"
  | .screen => "Screen"
  | .window => "Window"

/-- `IsImplementedLocalVideoSourceKind`. -/
def IsImplemented (k : LocalVideoSourceKind) : Prop := k = .camera ∨ k = .file

instance (k : LocalVideoSourceKind) : Decidable k.IsImplemented := inferInstanceAs (Decidable (_ ∨ _))

end LocalVideoSourceKind

structure LocalVideoSourceConfig where
  kind : LocalVideoSourceKind := .camera
  filePath : String := ""
  deriving DecidableEq, Repr

/-- `SwitchableAudioInput::CaptureMode`. -/
inductive CaptureMode
  | microphone | synthetic
  deriving DecidableEq, Repr

inductive MediaKind
  | audio | video
  deriving DecidableEq, Repr

/-- The track of a receiver. -/
structure Track where
  kind : MediaKind
  number : ℕ
  deriving DecidableEq, Repr

/-- The calls on `WebRTCEngineObserver` that are about media. -/
inductive MediaCall
  | onLocalVideoTrackAdded (track : ℕ)
  | onRemoteVideoTrackAdded (track : ℕ)
  | onRemoteVideoTrackRemoved
  | onError (error : String)
  deriving DecidableEq, Repr

/-- What the libraries show and answer during one call, and the decode threads that run their start-up step
in it: before a source is made (`early`), after it is made (`made`), after the audio input is switched
(`switched`). -/
structure Scene where
  hasVideoSender : Bool := false
  hasAudioSender : Bool := false
  probes : Bool := true
  creates : Bool := true
  takesVideo : Bool := true
  takesAudio : Bool := true
  error : String := ""
  early : List ℕ := []
  made : List ℕ := []
  switched : List ℕ := []
  deriving DecidableEq, Repr

/-- `WebRTCEngine` with its `LocalMediaPipeline` and its `SwitchableAudioInput`.  `videoSender` is the track
of `video_sender_`; `starting` are the sources whose decode thread is still to run its start-up step. -/
structure Media where
  peerConnection : Bool := false
  config : LocalVideoSourceConfig := {}
  active : Bool := false
  videoSource : Option ℕ := none
  localVideoTrack : Option ℕ := none
  remoteVideoTrack : Option ℕ := none
  videoSender : Option ℕ := none
  audioSender : Bool := false
  mode : CaptureMode := .microphone
  starting : List ℕ := []
  next : ℕ := 0
  deriving DecidableEq, Repr

namespace Media

/-! ### The audio input and the decode threads -/

/-- The start-up step of `DecodeLoop`, `UseSyntheticPcm`, by the thread of the source `s`. -/
def startUp (x : Media) (s : ℕ) : Media :=
  if s ∈ x.starting then { x with mode := .synthetic, starting := x.starting.filter (· ≠ s) } else x

def startUps (x : Media) (ss : List ℕ) : Media := ss.foldl startUp x

/-- `Stop` of a source: it joins the decode thread, which has then run its start-up step. -/
def stopSource (x : Media) : Option ℕ → Media
  | none => x
  | some s => x.startUp s

/-- A start-up step switches to synthetic PCM and leaves fewer threads to start. -/
theorem startUp_cases (x : Media) (s : ℕ) :
    (x.startUp s).starting = x.starting.filter (· ≠ s) ∧
      ((x.startUp s).mode = x.mode ∨ (x.startUp s).mode = .synthetic ∧ x.starting ≠ []) := by
  unfold startUp
  by_cases h : s ∈ x.starting
  · rw [if_pos h]
    exact ⟨rfl, Or.inr ⟨rfl, List.ne_nil_of_mem h⟩⟩
  · rw [if_neg h]
    refine ⟨(List.filter_eq_self.mpr fun t ht => ?_).symm, Or.inl rfl⟩
    have hts : t ≠ s := fun e => h (e ▸ ht)
    simpa using hts

/-- **Start-up steps touch nothing but the mode and the threads.** -/
theorem startUps_eq (ss : List ℕ) :
    ∀ x : Media, ∃ m st, x.startUps ss = { x with mode := m, starting := st } := by
  induction ss with
  | nil => exact fun x => ⟨x.mode, x.starting, rfl⟩
  | cons s ss ih =>
    intro x
    obtain ⟨m, st, h⟩ := ih (x.startUp s)
    refine ⟨m, st, h.trans ?_⟩
    unfold startUp
    split_ifs <;> rfl

section Fields

variable (x : Media) (ss : List ℕ)

@[simp] theorem startUps_peerConnection : (x.startUps ss).peerConnection = x.peerConnection := by
  obtain ⟨m, st, h⟩ := startUps_eq ss x
  rw [h]

@[simp] theorem startUps_config : (x.startUps ss).config = x.config := by
  obtain ⟨m, st, h⟩ := startUps_eq ss x
  rw [h]

@[simp] theorem startUps_videoSource : (x.startUps ss).videoSource = x.videoSource := by
  obtain ⟨m, st, h⟩ := startUps_eq ss x
  rw [h]

@[simp] theorem startUps_localVideoTrack : (x.startUps ss).localVideoTrack = x.localVideoTrack := by
  obtain ⟨m, st, h⟩ := startUps_eq ss x
  rw [h]

@[simp] theorem startUps_remoteVideoTrack : (x.startUps ss).remoteVideoTrack = x.remoteVideoTrack := by
  obtain ⟨m, st, h⟩ := startUps_eq ss x
  rw [h]

@[simp] theorem startUps_videoSender : (x.startUps ss).videoSender = x.videoSender := by
  obtain ⟨m, st, h⟩ := startUps_eq ss x
  rw [h]

@[simp] theorem startUps_next : (x.startUps ss).next = x.next := by
  obtain ⟨m, st, h⟩ := startUps_eq ss x
  rw [h]

end Fields

/-- `Stop` of a source is a start-up step at most. -/
theorem stopSource_eq (x : Media) (s : Option ℕ) : x.stopSource s = x.startUps s.toList := by
  cases s <;> rfl

/-- The threads that are left to start. -/
theorem startUps_starting (ss : List ℕ) :
    ∀ x : Media, (x.startUps ss).starting = x.starting.filter (· ∉ ss) := by
  induction ss with
  | nil => simp [startUps]
  | cons s ss ih =>
    intro x
    show ((x.startUp s).startUps ss).starting = _
    rw [ih, (startUp_cases x s).1, List.filter_filter]
    simp [Bool.and_comm]

/-- Nothing happens once every thread has started. -/
theorem startUps_of_nil {x : Media} (h : x.starting = []) (ss : List ℕ) : x.startUps ss = x := by
  induction ss with
  | nil => rfl
  | cons s ss ih =>
    have hs : x.startUp s = x := by simp [startUp, h]
    show (x.startUp s).startUps ss = x
    rw [hs, ih]

/-- Where only the synthetic mode has threads to start, start-up steps keep the mode. -/
theorem startUps_mode {x : Media} (h : x.starting ≠ [] → x.mode = .synthetic) (ss : List ℕ) :
    (x.startUps ss).mode = x.mode ∧ ((x.startUps ss).starting ≠ [] → (x.startUps ss).mode = .synthetic) := by
  induction ss generalizing x with
  | nil => exact ⟨rfl, h⟩
  | cons s ss ih =>
    obtain ⟨hstarting, hmode⟩ := startUp_cases x s
    have hm : (x.startUp s).mode = x.mode := by
      rcases hmode with hm | ⟨hm, hne⟩
      · exact hm
      · rw [hm, h hne]
    have hne : (x.startUp s).starting ≠ [] → x.starting ≠ [] := by
      intro hne e
      rw [hstarting, e] at hne
      exact hne rfl
    obtain ⟨h1, h2⟩ := ih fun hs => hm.trans (h (hne hs))
    exact ⟨h1.trans hm, h2⟩

/-- `ConfigureAudioInputForSource`. -/
def configureAudioInputForSource (x : Media) (config : LocalVideoSourceConfig) : Media :=
  { x with mode := if config.kind = .file then .synthetic else .microphone }

/-! ### Sources -/

/-- `ValidateConfig`, with the error that it gives. -/
def validateConfig (config : LocalVideoSourceConfig) (sc : Scene) : Except String Unit :=
  if ¬ config.kind.IsImplemented then .error (config.kind.toText ++ " source is not implemented yet.")
  else if config.kind ≠ .file then .ok ()
  else if config.filePath = "" then .error "A file path is required for file video source."
  else if sc.probes then .ok ()
  else .error sc.error

/-- `CreateSourceForConfig`: the new source is the number `next`, and the decode thread of a file source has
been started. -/
def createSourceForConfig (x : Media) (config : LocalVideoSourceConfig) (sc : Scene) : Except String Media :=
  if ¬ config.kind.IsImplemented then .error (config.kind.toText ++ " source is not implemented yet.")
  else if sc.creates then
    .ok { x with next := x.next + 1, starting := if config.kind = .file then x.starting ++ [x.next] else x.starting }
  else .error sc.error

/-! ### The calls of the coordinator -/

/-- `CreatePeerConnection`; `ok`: the factory makes one. -/
def createPeerConnection (x : Media) (ok : Bool) : Media := { x with peerConnection := ok }

/-- The part of `AddTracks` for a missing video sender; the new track is recorded before the peer connection
is asked to take it. -/
def addVideoTrack (x : Media) (sc : Scene) : Media × List MediaCall × Bool :=
  match x.createSourceForConfig x.config sc with
  | .error error =>
    ({ x with videoSource := none },
      [.onError (if error = "" then "Failed to create local video source" else error)], false)
  | .ok y =>
    let y := { y with videoSource := some x.next }.startUps sc.made
    let track := y.next
    let y := { y with localVideoTrack := some track, next := track + 1 }
    if sc.takesVideo then
      ({ y with videoSender := some track, active := true }, [.onLocalVideoTrackAdded track], true)
    else (y, [.onError "Failed to add video track"], false)

/-- The part of `AddTracks` for a missing audio sender. -/
def addAudioTrack (x : Media) (sc : Scene) : Media × List MediaCall × Bool :=
  if sc.takesAudio then ({ x with audioSender := true }, [], true)
  else (x, [.onError "Failed to add audio track"], false)

/-- `AddTracks`, with its result. -/
def addTracks (x : Media) (sc : Scene) : Media × List MediaCall × Bool :=
  if ¬ x.peerConnection then (x, [], false)
  else if sc.hasVideoSender ∧ sc.hasAudioSender then (x, [], true)
  else
    let x := ((x.startUps sc.early).configureAudioInputForSource x.config).startUps sc.switched
    let r := if sc.hasVideoSender then (x, [], true) else x.addVideoTrack sc
    if r.2.2 ∧ ¬ sc.hasAudioSender then
      let r' := r.1.addAudioTrack sc
      (r'.1, r.2.1 ++ r'.2.1, r'.2.2)
    else r

/-- The part of `SetLocalVideoSource` after the sender has taken the new track. -/
def adoptSource (x : Media) (config : LocalVideoSourceConfig) (source track : ℕ) (sc : Scene) : Media :=
  let x := ({ x with videoSender := some track }.configureAudioInputForSource config).startUps sc.switched
  let y := { x with videoSource := some source, localVideoTrack := some track, config := config, active := true }
  y.stopSource x.videoSource

/-- `SetLocalVideoSource`, with its result and its error message. -/
def setLocalVideoSource (x : Media) (config : LocalVideoSourceConfig) (sc : Scene) :
    Media × List MediaCall × Except String Unit :=
  match validateConfig config sc with
  | .error error => (x, [], .error error)
  | .ok _ =>
    if ¬ x.peerConnection ∨ x.videoSender = none then ({ x with config := config, active := false }, [], .ok ())
    else
      let x := x.startUps sc.early
      match x.createSourceForConfig config sc with
      | .error error =>
        (x, [], .error (if error = "" then "Failed to create the requested local video source." else error))
      | .ok y =>
        let source := x.next
        let track := y.next
        let y := { y with next := track + 1 }.startUps sc.made
        if sc.takesVideo then
          (y.adoptSource config source track sc, [.onLocalVideoTrackAdded track], .ok ())
        else (y.stopSource (some source), [], .error "Failed to replace the local video track.")

/-- `ClosePeerConnection`. -/
def closePeerConnection (x : Media) : Media :=
  { x.stopSource x.videoSource with
    peerConnection := false, localVideoTrack := none, remoteVideoTrack := none, videoSender := none
    audioSender := false, videoSource := none, active := false }

/-! ### The callbacks of the peer connection -/

/-- `PublishRemoteVideoTrack`. -/
def publishRemoteVideoTrack (x : Media) (track : ℕ) : Media × List MediaCall :=
  if x.remoteVideoTrack = some track then (x, [])
  else ({ x with remoteVideoTrack := some track }, [.onRemoteVideoTrackAdded track])

/-- The loop of `PublishRemoteTracks`; a missing receiver and a receiver without a track are passed over. -/
def firstVideo : List (Option Track) → Option ℕ
  | [] => none
  | some { kind := .video, number := n } :: _ => some n
  | _ :: receivers => firstVideo receivers

/-- `PublishRemoteTracks`, for the receivers of the peer connection. -/
def publishRemoteTracks (x : Media) (receivers : List (Option Track)) : Media × List MediaCall :=
  if ¬ x.peerConnection then (x, [])
  else
    match firstVideo receivers with
    | some track => x.publishRemoteVideoTrack track
    | none =>
      if x.remoteVideoTrack = none then (x, [])
      else ({ x with remoteVideoTrack := none }, [.onRemoteVideoTrackRemoved])

/-- `OnPeerConnectionTrack` and `OnPeerConnectionAddTrack`, as far as video goes. -/
def onPeerConnectionTrack (x : Media) : Option Track → Media × List MediaCall
  | some { kind := .video, number := n } => x.publishRemoteVideoTrack n
  | _ => (x, [])

/-- `OnPeerConnectionRemoveTrack`. -/
def onPeerConnectionRemoveTrack (x : Media) : Option Track → Media × List MediaCall
  | some { kind := .video, number := _ } => ({ x with remoteVideoTrack := none }, [.onRemoteVideoTrackRemoved])
  | _ => (x, [])

/-- `SetRemoteDescription` has completed; the answer that may be created is not media. -/
def onSetRemoteDescription (x : Media) (isOffer ok : Bool) (receivers : List (Option Track)) (sc : Scene) :
    Media × List MediaCall :=
  if ¬ ok then (x, [.onError ("SetRemoteDescription failed: " ++ sc.error)])
  else
    let r := x.publishRemoteTracks receivers
    if isOffer then
      let r' := r.1.addTracks sc
      (r'.1, r.2 ++ r'.2.1)
    else r

end Media

end PeerCall.WebRTC
