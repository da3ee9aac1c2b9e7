import PeerCall.Engine.Media

/-!
# Engine.Capture — the capture mode of the audio input and the configured video source

`AddTracks` and `SetLocalVideoSource` switch the audio input for the source that is configured, and the
decode thread of a file source switches it again when it gets to run.  **`capture_follows_source`**: as long
as no decode thread is still to start when the audio input is switched to the microphone, and no file source
is refused by a sender while the microphone is in use, a video sender goes with the mode of the configured
source, and a refused change changes nothing.  `microphone_lost` has runs that miss either.
-/

namespace PeerCall.WebRTC.Capture

open PeerCall.Lib Media

/-- What happens to the media.  The only caller of `CreatePeerConnection` asks `HasPeerConnection` first. -/
inductive Activity
  | createPeerConnection (ok : Bool)
  | addTracks (sc : Scene)
  | setLocalVideoSource (config : LocalVideoSourceConfig) (sc : Scene)
  | startUp (s : ℕ)
  | closePeerConnection
  deriving DecidableEq, Repr

def step (x : Media) : Activity → Media
  | .createPeerConnection ok => if x.peerConnection then x else x.createPeerConnection ok
  | .addTracks sc => (x.addTracks sc).1
  | .setLocalVideoSource config sc => (x.setLocalVideoSource config sc).1
  | .startUp s => x.startUp s
  | .closePeerConnection => x.closePeerConnection

/-! ### What is claimed of the mode -/

/-- With a video sender and no decode thread still to start, the mode is that of the configured source. -/
def Follows (x : Media) : Prop :=
  x.videoSender ≠ none → x.starting = [] → (x.mode = .synthetic ↔ x.config.kind = .file)

instance (x : Media) : Decidable (Follows x) := inferInstanceAs (Decidable (_ → _))

/-- The configuration, the source, the local track, the sender's track and the mode are as they were. -/
def Untouched (x y : Media) : Prop :=
  y.config = x.config ∧ y.videoSource = x.videoSource ∧ y.localVideoTrack = x.localVideoTrack ∧
    y.videoSender = x.videoSender ∧ y.mode = x.mode

instance (x y : Media) : Decidable (Untouched x y) := inferInstanceAs (Decidable (_ ∧ _))

/-- The activities that keep the mode with the source.  When the audio input is switched to the microphone,
no decode thread is still to start; when a file source is refused, the audio input is synthetic already. -/
def Orderly (x : Media) : Activity → Prop
  | .addTracks sc =>
    x.peerConnection = true → ¬ (sc.hasVideoSender = true ∧ sc.hasAudioSender = true) → x.config.kind ≠ .file →
      (x.startUps sc.early).starting = []
  | .setLocalVideoSource config sc =>
    (validateConfig config sc).isOk = true → x.videoSender ≠ none → sc.creates = true →
      if config.kind = .file then sc.takesVideo = true ∨ x.mode = .synthetic
      else sc.takesVideo = true → ((x.startUps sc.early).startUps sc.made).starting = []
  | _ => True

instance decidableOrderly (x : Media) : ∀ a, Decidable (Orderly x a)
  | .createPeerConnection _ => inferInstanceAs (Decidable True)
  | .addTracks _ => inferInstanceAs (Decidable (_ → _))
  | .setLocalVideoSource _ _ => inferInstanceAs (Decidable (_ → _))
  | .startUp _ => inferInstanceAs (Decidable True)
  | .closePeerConnection => inferInstanceAs (Decidable True)

/-! ### The invariant -/

/-- Only the synthetic mode has threads to start, a video sender goes with the mode of its source, and there
is no sender without a peer connection. -/
structure Settled (x : Media) : Prop where
  starting : x.starting ≠ [] → x.mode = .synthetic
  attached : x.videoSender ≠ none → (x.mode = .synthetic ↔ x.config.kind = .file)
  connected : x.videoSender ≠ none → x.peerConnection = true

/-- Threads that start. -/
theorem settled_startUps {x : Media} (h : Settled x) (ss : List ℕ) : Settled (x.startUps ss) := by
  obtain ⟨hmode, hstarting⟩ := startUps_mode h.starting ss
  refine ⟨hstarting, fun hv => ?_, fun hv => ?_⟩
  · rw [hmode, startUps_config]
    exact h.attached (by simpa using hv)
  · rw [startUps_peerConnection]
    exact h.connected (by simpa using hv)

theorem settled_startUp {x : Media} (h : Settled x) (s : ℕ) : Settled (x.startUp s) := settled_startUps h [s]

/-! ### Closing -/

theorem settled_closePeerConnection {x : Media} (h : Settled x) : Settled x.closePeerConnection := by
  have hs : Settled (x.stopSource x.videoSource) := by
    rw [stopSource_eq]
    exact settled_startUps h _
  exact ⟨hs.starting, fun hv => absurd rfl hv, fun hv => absurd rfl hv⟩

/-! ### Attaching the tracks -/

/-- The mode suits a source of the kind of `config`: synthetic for a file, and the microphone, with no
threads left to start, for anything else. -/
def Suits (x : Media) (config : LocalVideoSourceConfig) : Prop :=
  if config.kind = .file then x.mode = .synthetic else x.mode = .microphone ∧ x.starting = []

theorem Suits.mode {x : Media} {config : LocalVideoSourceConfig} (h : Suits x config) :
    x.mode = .synthetic ↔ config.kind = .file := by
  unfold Suits at h
  by_cases hk : config.kind = .file
  · rw [if_pos hk] at h
    exact ⟨fun _ => hk, fun _ => h⟩
  · rw [if_neg hk] at h
    refine ⟨fun hm => ?_, fun hf => absurd hf hk⟩
    rw [h.1] at hm
    cases hm

theorem Suits.threads {x : Media} {config : LocalVideoSourceConfig} (h : Suits x config) :
    x.starting ≠ [] → x.mode = .synthetic := by
  unfold Suits at h
  intro hne
  by_cases hk : config.kind = .file
  · rwa [if_pos hk] at h
  · rw [if_neg hk] at h
    exact absurd h.2 hne

theorem suits_startUps {x : Media} {config : LocalVideoSourceConfig} (h : Suits x config) (ss : List ℕ) :
    Suits (x.startUps ss) config := by
  obtain ⟨hmode, -⟩ := startUps_mode h.threads ss
  unfold Suits at h ⊢
  by_cases hk : config.kind = .file
  · rw [if_pos hk] at h ⊢
    exact hmode.trans h
  · rw [if_neg hk] at h ⊢
    rw [startUps_of_nil h.2]
    exact h

/-- Switching the audio input, with nothing left to start if it is switched to the microphone. -/
theorem suits_configure {x : Media} {config : LocalVideoSourceConfig}
    (h : config.kind ≠ .file → x.starting = []) : Suits (x.configureAudioInputForSource config) config := by
  unfold Suits configureAudioInputForSource
  by_cases hk : config.kind = .file
  · simp [hk]
  · simp [hk, h hk]

/-- A source of the right kind may be made. -/
theorem suits_create {x y : Media} {config : LocalVideoSourceConfig} {sc : Scene} (h : Suits x config)
    (hy : x.createSourceForConfig config sc = .ok y) : Suits y config := by
  unfold createSourceForConfig at hy
  split_ifs at hy with hi hc hk
  · obtain rfl := Except.ok.inj hy
    unfold Suits at h ⊢
    simp only [hk, if_true] at h ⊢
    exact h
  · obtain rfl := Except.ok.inj hy
    unfold Suits at h ⊢
    simp only [hk, if_false] at h ⊢
    exact h

/-- What a call leaves when the mode suits the configuration it leaves. -/
theorem Suits.settled {x : Media} (h : Suits x x.config) (hp : x.peerConnection = true) : Settled x :=
  ⟨h.threads, fun _ => h.mode, fun _ => hp⟩

/-- A source is made without a change to the configuration, the tracks or the peer connection. -/
theorem create_same {x y : Media} {config : LocalVideoSourceConfig} {sc : Scene}
    (hy : x.createSourceForConfig config sc = .ok y) :
    y.config = x.config ∧ y.peerConnection = x.peerConnection ∧ y.videoSource = x.videoSource ∧
      y.localVideoTrack = x.localVideoTrack ∧ y.videoSender = x.videoSender ∧ y.mode = x.mode := by
  unfold createSourceForConfig at hy
  split_ifs at hy
  all_goals
    obtain rfl := Except.ok.inj hy
    exact ⟨rfl, rfl, rfl, rfl, rfl, rfl⟩

theorem addVideoTrack_suits {x : Media} (h : Suits x x.config) (sc : Scene) :
    Suits (x.addVideoTrack sc).1 (x.addVideoTrack sc).1.config ∧
      (x.addVideoTrack sc).1.peerConnection = x.peerConnection := by
  unfold addVideoTrack
  rcases hc : x.createSourceForConfig x.config sc with error | y
  · exact ⟨h, rfl⟩
  · obtain ⟨hconfig, hpc, -⟩ := create_same hc
    have hy : Suits y y.config := by
      rw [hconfig]
      exact suits_create h hc
    have hs : Suits ({ y with videoSource := some x.next }.startUps sc.made) y.config :=
      suits_startUps (x := { y with videoSource := some x.next }) hy sc.made
    dsimp only
    split_ifs
    · refine ⟨?_, ?_⟩
      · simp only [startUps_config]
        exact hs
      · simpa using hpc
    · refine ⟨?_, ?_⟩
      · simp only [startUps_config]
        exact hs
      · simpa using hpc

theorem settled_addAudioTrack {x : Media} (h : Suits x x.config) (hp : x.peerConnection = true) (sc : Scene) :
    Settled (x.addAudioTrack sc).1 := by
  unfold addAudioTrack
  split_ifs
  · exact Suits.settled (x := { x with audioSender := true }) h hp
  · exact h.settled hp

theorem settled_addTracks {x : Media} {sc : Scene} (h : Settled x) (ho : Orderly x (.addTracks sc)) :
    Settled (x.addTracks sc).1 := by
  unfold addTracks
  by_cases hp : x.peerConnection = true
  swap
  · rw [if_pos hp]
    exact h
  rw [if_neg (not_not.mpr hp)]
  by_cases hb : sc.hasVideoSender = true ∧ sc.hasAudioSender = true
  · rw [if_pos hb]
    exact h
  rw [if_neg hb]
  dsimp only
  set y := ((x.startUps sc.early).configureAudioInputForSource x.config).startUps sc.switched with hy
  have hsuits : Suits y y.config := by
    have hc : y.config = x.config := by simp [hy, configureAudioInputForSource]
    rw [hc]
    exact suits_startUps (suits_configure (ho hp hb)) sc.switched
  have hyp : y.peerConnection = true := by simpa [hy, configureAudioInputForSource] using hp
  -- the video part keeps the mode with the configuration, and the audio part touches neither
  obtain ⟨r, hr⟩ : ∃ r, r = (if sc.hasVideoSender = true then (y, [], true) else y.addVideoTrack sc) := ⟨_, rfl⟩
  have hkept : Suits r.1 r.1.config ∧ r.1.peerConnection = true := by
    rw [hr]
    split_ifs
    · exact ⟨hsuits, hyp⟩
    · obtain ⟨h1, h2⟩ := addVideoTrack_suits hsuits sc
      exact ⟨h1, h2.trans hyp⟩
  rw [← hr]
  split_ifs
  · exact settled_addAudioTrack hkept.1 hkept.2 sc
  · exact hkept.1.settled hkept.2

/-! ### Replacing the source -/

/-- A source is made, a file source only in the synthetic mode. -/
theorem settled_create {x y : Media} {config : LocalVideoSourceConfig} {sc : Scene} (h : Settled x)
    (hy : x.createSourceForConfig config sc = .ok y) (hm : config.kind = .file → x.mode = .synthetic) :
    Settled y := by
  unfold createSourceForConfig at hy
  split_ifs at hy with hi hc hk
  · obtain rfl := Except.ok.inj hy
    exact ⟨fun _ => hm hk, h.attached, h.connected⟩
  · obtain rfl := Except.ok.inj hy
    exact ⟨h.starting, h.attached, h.connected⟩

/-- A source of another kind than a file starts no thread. -/
theorem create_starting {x y : Media} {config : LocalVideoSourceConfig} {sc : Scene}
    (hy : x.createSourceForConfig config sc = .ok y) (hk : config.kind ≠ .file) : y.starting = x.starting := by
  unfold createSourceForConfig at hy
  split_ifs at hy
  obtain rfl := Except.ok.inj hy
  rfl

/-- Nothing is touched by threads that start. -/
theorem untouched_startUps {x : Media} (h : Settled x) (ss : List ℕ) : Untouched x (x.startUps ss) := by
  refine ⟨?_, ?_, ?_, ?_, (startUps_mode h.starting ss).1⟩ <;> simp

theorem Untouched.trans {x y z : Media} (h : Untouched x y) (h' : Untouched y z) : Untouched x z := by
  obtain ⟨h1, h2, h3, h4, h5⟩ := h
  obtain ⟨h1', h2', h3', h4', h5'⟩ := h'
  exact ⟨h1'.trans h1, h2'.trans h2, h3'.trans h3, h4'.trans h4, h5'.trans h5⟩

/-- The new source is taken, with nothing left to start if it is not a file. -/
theorem settled_adoptSource {x : Media} {config : LocalVideoSourceConfig} (source track : ℕ) (sc : Scene)
    (hp : x.peerConnection = true) (hnil : config.kind ≠ .file → x.starting = []) :
    Settled (x.adoptSource config source track sc) := by
  unfold adoptSource
  dsimp only
  set y := ({ x with videoSender := some track }.configureAudioInputForSource config).startUps sc.switched with hy
  have hsuits : Suits y config :=
    suits_startUps (suits_configure (x := { x with videoSender := some track }) hnil) sc.switched
  have hpc : y.peerConnection = true := by simpa [hy, configureAudioInputForSource] using hp
  rw [stopSource_eq]
  refine settled_startUps ?_ _
  exact ⟨hsuits.threads, fun _ => hsuits.mode, fun _ => hpc⟩

/-- **One change of the source**: the mode still goes with the source, and a refusal touches nothing. -/
theorem setLocalVideoSource_settled {x : Media} {config : LocalVideoSourceConfig} {sc : Scene} (h : Settled x)
    (ho : Orderly x (.setLocalVideoSource config sc)) :
    Settled (x.setLocalVideoSource config sc).1 ∧
      ((x.setLocalVideoSource config sc).2.2.isOk = false → Untouched x (x.setLocalVideoSource config sc).1) := by
  unfold setLocalVideoSource
  rcases hv : validateConfig config sc with error | u
  · exact ⟨h, fun _ => ⟨rfl, rfl, rfl, rfl, rfl⟩⟩
  dsimp only
  by_cases hn : ¬ x.peerConnection = true ∨ x.videoSender = none
  · -- without a sender only the configuration is kept for later
    rw [if_pos hn]
    have hnone : x.videoSender = none := by
      by_contra hs
      exact hn.elim (fun hp => hp (h.connected hs)) hs
    exact ⟨⟨h.starting, fun hs => absurd hnone hs, fun hs => absurd hnone hs⟩, fun he => Bool.noConfusion he⟩
  rw [if_neg hn]
  obtain ⟨hp, hs⟩ := not_or.mp hn
  have hearly := settled_startUps h sc.early
  rcases hc : (x.startUps sc.early).createSourceForConfig config sc with error | y
  · exact ⟨hearly, fun _ => untouched_startUps h sc.early⟩
  dsimp only
  have hcreates : sc.creates = true := by
    unfold createSourceForConfig at hc
    split_ifs at hc with hi hcr
    all_goals exact hcr
  have ho' := ho (by rw [hv]; rfl) hs hcreates
  obtain ⟨hconfig, hpc, hsource, htrack, hsender, hmode⟩ := create_same hc
  split_ifs with ht
  · -- the sender has taken the track, and the audio input is switched
    refine ⟨settled_adoptSource _ _ sc ?_ fun hk => ?_, fun he => (Bool.noConfusion he)⟩
    · rw [startUps_peerConnection]
      show y.peerConnection = true
      rw [hpc, startUps_peerConnection]
      exact not_not.mp hp
    · rw [if_neg hk] at ho'
      have hnil := ho' ht
      rw [startUps_starting] at hnil
      rw [startUps_starting]
      show y.starting.filter _ = []
      rw [create_starting hc hk]
      exact hnil
  · -- the sender has refused the track, and the new source is stopped
    have hm : config.kind = .file → (x.startUps sc.early).mode = .synthetic := by
      intro hk
      rw [if_pos hk] at ho'
      exact (startUps_mode h.starting sc.early).1.trans (ho'.resolve_left ht)
    have hy := settled_create hearly hc hm
    have hy' : Settled { y with next := y.next + 1 } := ⟨hy.starting, hy.attached, hy.connected⟩
    have hmade := settled_startUps hy' sc.made
    rw [stopSource_eq]
    refine ⟨settled_startUps hmade _, fun _ => ?_⟩
    have hxy : Untouched (x.startUps sc.early) { y with next := y.next + 1 } :=
      ⟨hconfig, hsource, htrack, hsender, hmode⟩
    exact (((untouched_startUps h sc.early).trans hxy).trans (untouched_startUps hy' sc.made)).trans
      (untouched_startUps hmade _)

/-! ### Runs -/

theorem settled_step {x : Media} {a : Activity} (h : Settled x) (ho : Orderly x a) : Settled (step x a) := by
  cases a with
  | createPeerConnection ok =>
    simp only [step]
    by_cases hp : x.peerConnection = true
    · rw [if_pos hp]
      exact h
    · rw [if_neg hp]
      -- without a peer connection there has been no sender
      refine ⟨h.starting, h.attached, fun hv => absurd (h.connected hv) hp⟩
  | addTracks sc => exact settled_addTracks h ho
  | setLocalVideoSource config sc => exact (setLocalVideoSource_settled h ho).1
  | startUp s => exact settled_startUp h s
  | closePeerConnection => exact settled_closePeerConnection h

theorem settled_init : Settled {} := ⟨fun h => absurd rfl h, fun h => absurd rfl h, fun h => absurd rfl h⟩

/-- **The capture mode follows the configured source** in every orderly run, and a change of the source that
is refused leaves the configuration, the source, the tracks and the mode as they were. -/
theorem capture_follows_source {l : List Activity} (h : Meets step Orderly {} l) :
    Follows (run step {} l) ∧
      ∀ config sc, Orderly (run step {} l) (.setLocalVideoSource config sc) →
        ((run step {} l).setLocalVideoSource config sc).2.2.isOk = false →
        Untouched (run step {} l) ((run step {} l).setLocalVideoSource config sc).1 := by
  have hs : Settled (run step {} l) := run_invariant (fun x a hx ha => settled_step hx ha) settled_init h
  refine ⟨fun hv _ => hs.attached hv, fun config sc ho => (setLocalVideoSource_settled hs ho).2⟩

def toFile : LocalVideoSourceConfig := { kind := .file, filePath := "clip.mp4" }

/-- The camera, a file whose decode thread starts at once, a file that the sender refuses, the camera again. -/
def changes : List Activity :=
  [.createPeerConnection true, .addTracks {}, .setLocalVideoSource toFile { made := [2] },
    .setLocalVideoSource toFile { takesVideo := false }, .setLocalVideoSource {} {}]

theorem changes_follow :
    (Follows (run step {} changes) ∧
      ∀ config sc, Orderly (run step {} changes) (.setLocalVideoSource config sc) →
        ((run step {} changes).setLocalVideoSource config sc).2.2.isOk = false →
        Untouched (run step {} changes) ((run step {} changes).setLocalVideoSource config sc).1) ∧
      (run step {} changes).videoSender ≠ none :=
  ⟨capture_follows_source (by decide), by decide⟩

/-- A call with the camera. -/
def onCamera : List Activity := [.createPeerConnection true, .addTracks {}]

/-- The file source is replaced by the camera before its decode thread has started. -/
def lateStart : List Activity := onCamera ++ [.setLocalVideoSource toFile {}, .setLocalVideoSource {} {}]

/-- **Two ways to a dead microphone**: a file that the sender refuses has switched the audio input by the
time it is stopped, and a file that is replaced by the camera before its thread starts switches it last. -/
theorem microphone_lost :
    (((run step {} onCamera).setLocalVideoSource toFile { takesVideo := false }).2.2.isOk = false ∧
      ¬ Untouched (run step {} onCamera)
        ((run step {} onCamera).setLocalVideoSource toFile { takesVideo := false }).1 ∧
      ¬ Follows (run step {} (onCamera ++ [.setLocalVideoSource toFile { takesVideo := false }]))) ∧
      ¬ Follows (run step {} lateStart) := by
  decide

end PeerCall.WebRTC.Capture
