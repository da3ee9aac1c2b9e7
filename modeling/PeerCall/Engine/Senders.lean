import PeerCall.Engine.Media

/-!
# Engine.Senders — `AddTracks` over the senders of the peer connection

A remote description makes senders that carry no track, and `AddTrack` takes one of them or makes a new one.  What
`Media` takes as two flags is read from the senders here.

* `addTracks_media`: what happens to the media is what `Media` says;
* `addTracks_attaches_once`: **each kind is attached once**, however often `AddTracks` is called.
-/

namespace PeerCall.WebRTC

/-- An element of `GetSenders`. -/
inductive Sender
  | null
  | trackless
  | carrying (kind : MediaKind)
  deriving DecidableEq, Repr

/-- What the peer connection does with a new track. -/
inductive Placement
  | refused
  | reused (sender : ℕ)
  | appended
  deriving DecidableEq, Repr

/-- `HasLocalSenderTrack`. -/
def hasLocalSenderTrack (kind : MediaKind) : List Sender → Bool
  | [] => false
  | .carrying k :: senders => if k = kind then true else hasLocalSenderTrack kind senders
  | _ :: senders => hasLocalSenderTrack kind senders

/-- The senders after `AddTrack`; only a sender without a track is reused. -/
def addTrack (kind : MediaKind) (senders : List Sender) : Placement → List Sender
  | .refused => senders
  | .reused i =>
    if senders[i]? = some .trackless then senders.set i (.carrying kind) else senders ++ [.carrying kind]
  | .appended => senders ++ [.carrying kind]

/-- `WebRTCEngine` with the senders of its peer connection; `audioSources` counts the audio sources made. -/
structure Engine where
  media : Media := {}
  senders : List Sender := []
  audioSources : ℕ := 0
  deriving DecidableEq, Repr

namespace Engine

/-- The part of `AddTracks` for a missing video sender: without a source, `AddTrack` is not reached. -/
def addVideoTrack (x : Engine) (sc : Scene) (p : Placement) : Engine × List MediaCall × Bool :=
  let r := x.media.addVideoTrack { sc with takesVideo := p ≠ .refused }
  ({ x with media := r.1, senders := if r.2.2 then addTrack .video x.senders p else x.senders }, r.2)

/-- The part of `AddTracks` for a missing audio sender. -/
def addAudioTrack (x : Engine) (sc : Scene) (p : Placement) : Engine × List MediaCall × Bool :=
  let r := x.media.addAudioTrack { sc with takesAudio := p ≠ .refused }
  ({ media := r.1, senders := addTrack .audio x.senders p, audioSources := x.audioSources + 1 }, r.2)

/-- `AddTracks`, with its result. -/
def addTracks (x : Engine) (sc : Scene) (video audio : Placement) : Engine × List MediaCall × Bool :=
  if ¬ x.media.peerConnection then (x, [], false)
  else
    let hasVideoSender := hasLocalSenderTrack .video x.senders
    let hasAudioSender := hasLocalSenderTrack .audio x.senders
    if hasVideoSender ∧ hasAudioSender then (x, [], true)
    else
      let x := { x with
        media := ((x.media.startUps sc.early).configureAudioInputForSource x.media.config).startUps sc.switched }
      let r := if hasVideoSender then (x, [], true) else x.addVideoTrack sc video
      if r.2.2 ∧ ¬ hasAudioSender then
        let r' := r.1.addAudioTrack sc audio
        (r'.1, r.2.1 ++ r'.2.1, r'.2.2)
      else r

end Engine

/-- The scene of a call, read from the senders. -/
def Engine.scene (x : Engine) (sc : Scene) (video audio : Placement) : Scene :=
  { sc with
    hasVideoSender := hasLocalSenderTrack .video x.senders, hasAudioSender := hasLocalSenderTrack .audio x.senders
    takesVideo := video ≠ .refused, takesAudio := audio ≠ .refused }

/-- **What `AddTracks` does to the media is what `Media` says**, in the scene that the senders make. -/
theorem Engine.addTracks_media (x : Engine) (sc : Scene) (video audio : Placement) :
    ((x.addTracks sc video audio).1.media, (x.addTracks sc video audio).2) =
      x.media.addTracks (x.scene sc video audio) := by
  -- the two calls look at the same parts of the scene
  have hvideo : ∀ y : Media, y.addVideoTrack { sc with takesVideo := video ≠ .refused } =
      y.addVideoTrack (x.scene sc video audio) := fun _ => rfl
  have haudio : ∀ y : Media, y.addAudioTrack { sc with takesAudio := audio ≠ .refused } =
      y.addAudioTrack (x.scene sc video audio) := fun _ => rfl
  have hv : (x.scene sc video audio).hasVideoSender = hasLocalSenderTrack .video x.senders := rfl
  have ha : (x.scene sc video audio).hasAudioSender = hasLocalSenderTrack .audio x.senders := rfl
  unfold addTracks Media.addTracks
  by_cases hlive : x.media.peerConnection = true
  · rw [if_neg (not_not.mpr hlive), if_neg (not_not.mpr hlive), hv, ha]
    simp only [addVideoTrack, addAudioTrack, hvideo, haudio, show (x.scene sc video audio).early = sc.early from rfl,
      show (x.scene sc video audio).switched = sc.switched from rfl]
    generalize ((x.media.startUps sc.early).configureAudioInputForSource x.media.config).startUps sc.switched = y
    generalize x.scene sc video audio = scene
    cases hasLocalSenderTrack .video x.senders <;> cases hasLocalSenderTrack .audio x.senders
    · cases hr : (y.addVideoTrack scene).2.2 <;> simp [hr]
    · simp
    · simp
    · simp
  · rw [if_pos hlive, if_pos hlive]

/-! ### The senders that carry a kind -/

/-- The number of senders that carry a kind. -/
def carriers (kind : MediaKind) (senders : List Sender) : ℕ := senders.count (.carrying kind)

section Carriers

theorem hasLocalSenderTrack_iff {kind : MediaKind} {senders : List Sender} :
    hasLocalSenderTrack kind senders = true ↔ carriers kind senders ≠ 0 := by
  unfold carriers
  rw [Ne, List.count_eq_zero, not_not]
  induction senders with
  | nil => simp [hasLocalSenderTrack]
  | cons s senders ih =>
    cases s with
    | null => simpa [hasLocalSenderTrack] using ih
    | trackless => simpa [hasLocalSenderTrack] using ih
    | carrying k =>
      by_cases h : k = kind
      · simp [hasLocalSenderTrack, h]
      · have hne : kind ≠ k := fun e => h e.symm
        simpa [hasLocalSenderTrack, h, hne] using ih

theorem carriers_append (kind kind' : MediaKind) (senders : List Sender) :
    carriers kind' (senders ++ [.carrying kind]) = carriers kind' senders + if kind' = kind then 1 else 0 := by
  unfold carriers
  rw [List.count_append]
  by_cases h : kind' = kind
  · rw [h, if_pos rfl, List.count_singleton_self]
  · have hzero : [Sender.carrying kind].count (.carrying kind') = 0 :=
      List.count_eq_zero.mpr fun hmem => h (Sender.carrying.inj (List.mem_singleton.mp hmem))
    rw [if_neg h, hzero]

/-- **One more sender carries the new track**, and the other tracks stay. -/
theorem carriers_addTrack (kind : MediaKind) {p : Placement} (hp : p ≠ .refused) (senders : List Sender)
    (kind' : MediaKind) :
    carriers kind' (addTrack kind senders p) = carriers kind' senders + if kind' = kind then 1 else 0 := by
  cases p with
  | refused => exact absurd rfl hp
  | appended => exact carriers_append kind kind' senders
  | reused i =>
    show carriers kind' (if senders[i]? = some .trackless then senders.set i (.carrying kind)
      else senders ++ [.carrying kind]) = _
    by_cases h : senders[i]? = some .trackless
    · obtain ⟨hi, htrackless⟩ := List.getElem?_eq_some_iff.mp h
      rw [if_pos h]
      unfold carriers
      rw [List.count_set hi, htrackless]
      by_cases hkind : kind' = kind
      · simp [hkind]
      · have hne : ¬ kind = kind' := fun e => hkind e.symm
        simp [hkind, hne]
    · rw [if_neg h]
      exact carriers_append kind kind' senders

end Carriers

/-! ### One call -/

namespace Media

variable {x : Media} {sc : Scene}

theorem createSourceForConfig_ok {config : LocalVideoSourceConfig} {y : Media}
    (h : x.createSourceForConfig config sc = .ok y) :
    y.next = x.next + 1 ∧ y.peerConnection = x.peerConnection := by
  unfold createSourceForConfig at h
  split_ifs at h <;> (obtain rfl := Except.ok.inj h; exact ⟨rfl, rfl⟩)

theorem addVideoTrack_peerConnection (x : Media) (sc : Scene) :
    (x.addVideoTrack sc).1.peerConnection = x.peerConnection := by
  unfold addVideoTrack
  cases hc : x.createSourceForConfig x.config sc with
  | error e => rfl
  | ok y =>
    have hy := (createSourceForConfig_ok hc).2
    dsimp only
    split_ifs <;> simpa using hy

/-- Where `AddTracks` gets past the video, a source and a track have been made, and the track was taken. -/
theorem addVideoTrack_true (h : (x.addVideoTrack sc).2.2 = true) :
    sc.takesVideo = true ∧ (x.addVideoTrack sc).1.next = x.next + 2 ∧
      (x.addVideoTrack sc).2.1 = [.onLocalVideoTrackAdded (x.next + 1)] := by
  unfold addVideoTrack at h ⊢
  cases hc : x.createSourceForConfig x.config sc with
  | error e => simp [hc] at h
  | ok y =>
    have hy := (createSourceForConfig_ok hc).1
    simp only [hc] at h ⊢
    by_cases htakes : sc.takesVideo = true
    · rw [if_pos htakes]
      exact ⟨htakes, by simp [hy], by simp [hy]⟩
    · rw [if_neg htakes] at h
      exact absurd h (by simp)

end Media

namespace Engine

/-- What an `AddTracks` that succeeds has added: what was missing, and nothing else. -/
structure AddsMissing (x x' : Engine) (calls : List MediaCall) : Prop where
  carriers : ∀ kind, carriers kind x'.senders =
    if WebRTC.carriers kind x.senders = 0 then 1 else WebRTC.carriers kind x.senders
  videoCalls : calls = if WebRTC.carriers .video x.senders = 0 then [.onLocalVideoTrackAdded (x.media.next + 1)] else []
  videoSources : x'.media.next = if WebRTC.carriers .video x.senders = 0 then x.media.next + 2 else x.media.next
  videoKept : WebRTC.carriers .video x.senders ≠ 0 → x'.media.videoSource = x.media.videoSource ∧
    x'.media.localVideoTrack = x.media.localVideoTrack ∧ x'.media.videoSender = x.media.videoSender
  audioSources : x'.audioSources =
    if WebRTC.carriers .audio x.senders = 0 then x.audioSources + 1 else x.audioSources

variable (x : Engine) (sc : Scene) (p : Placement)

theorem addVideoTrack_true (h : (x.addVideoTrack sc p).2.2 = true) :
    p ≠ .refused ∧ (x.addVideoTrack sc p).1.senders = addTrack .video x.senders p ∧
      (x.addVideoTrack sc p).1.media.next = x.media.next + 2 ∧
      (x.addVideoTrack sc p).2.1 = [.onLocalVideoTrackAdded (x.media.next + 1)] := by
  have hr : (x.media.addVideoTrack { sc with takesVideo := p ≠ .refused }).2.2 = true := h
  obtain ⟨htakes, hnext, hcalls⟩ := Media.addVideoTrack_true hr
  exact ⟨by simpa using htakes, if_pos hr, hnext, hcalls⟩

theorem addVideoTrack_false (h : (x.addVideoTrack sc p).2.2 = false) :
    (x.addVideoTrack sc p).1.senders = x.senders := by
  have hr : (x.media.addVideoTrack { sc with takesVideo := p ≠ .refused }).2.2 = false := h
  exact if_neg (Bool.eq_false_iff.mp hr)

/-- Where `AddTracks` gets past the audio, nothing has happened to the video. -/
theorem addAudioTrack_true (h : (x.addAudioTrack sc p).2.2 = true) :
    p ≠ .refused ∧ (x.addAudioTrack sc p).1.senders = addTrack .audio x.senders p ∧
      (x.addAudioTrack sc p).2.1 = [] ∧ (x.addAudioTrack sc p).1.audioSources = x.audioSources + 1 ∧
      (x.addAudioTrack sc p).1.media = { x.media with audioSender := true } := by
  unfold addAudioTrack Media.addAudioTrack at h ⊢
  by_cases hp : p = .refused
  · simp [hp] at h
  · simp [hp]

theorem addAudioTrack_false (h : (x.addAudioTrack sc p).2.2 = false) :
    (x.addAudioTrack sc p).1.senders = x.senders := by
  cases p with
  | refused => rfl
  | reused i => exact absurd h (by simp [addAudioTrack, Media.addAudioTrack])
  | appended => exact absurd h (by simp [addAudioTrack, Media.addAudioTrack])

theorem has_iff (kind : MediaKind) (senders : List Sender) :
    hasLocalSenderTrack kind senders = !decide (WebRTC.carriers kind senders = 0) := by
  rw [Bool.eq_iff_iff, hasLocalSenderTrack_iff]
  simp

/-- The audio input has been set up, and nothing else has changed. -/
structure Prepared (x y : Engine) : Prop where
  senders : y.senders = x.senders
  audioSources : y.audioSources = x.audioSources
  peerConnection : y.media.peerConnection = x.media.peerConnection
  next : y.media.next = x.media.next
  videoSource : y.media.videoSource = x.media.videoSource
  localVideoTrack : y.media.localVideoTrack = x.media.localVideoTrack
  videoSender : y.media.videoSender = x.media.videoSender

theorem prepared :
    Prepared x { x with
      media := ((x.media.startUps sc.early).configureAudioInputForSource x.media.config).startUps sc.switched } := by
  obtain ⟨m, st, h⟩ := Media.startUps_eq sc.early x.media
  obtain ⟨m', st', h'⟩ := Media.startUps_eq sc.switched
    (Media.configureAudioInputForSource { x.media with mode := m, starting := st } x.media.config)
  rw [h, h']
  exact ⟨rfl, rfl, rfl, rfl, rfl, rfl, rfl⟩

/-- `AddTracks` of a live peer connection, case by case. -/
theorem addTracks_live (h : x.media.peerConnection = true) (video audio : Placement) :
    ∃ y, Prepared x y ∧ x.addTracks sc video audio =
      if WebRTC.carriers .video x.senders ≠ 0 then
        if WebRTC.carriers .audio x.senders ≠ 0 then (x, [], true)
        else ((y.addAudioTrack sc audio).1, [] ++ (y.addAudioTrack sc audio).2.1, (y.addAudioTrack sc audio).2.2)
      else if (y.addVideoTrack sc video).2.2 = true ∧ WebRTC.carriers .audio x.senders = 0 then
        (((y.addVideoTrack sc video).1.addAudioTrack sc audio).1,
          (y.addVideoTrack sc video).2.1 ++ ((y.addVideoTrack sc video).1.addAudioTrack sc audio).2.1,
          ((y.addVideoTrack sc video).1.addAudioTrack sc audio).2.2)
      else y.addVideoTrack sc video := by
  refine ⟨_, prepared x sc, ?_⟩
  unfold addTracks
  rw [if_neg (not_not.mpr h)]
  simp only [has_iff]
  generalize ({ x with media := ((x.media.startUps sc.early).configureAudioInputForSource
    x.media.config).startUps sc.switched } : Engine) = y
  by_cases hv : WebRTC.carriers .video x.senders = 0 <;> by_cases ha : WebRTC.carriers .audio x.senders = 0 <;>
    simp [hv, ha]

/-- **An `AddTracks` that succeeds adds what is missing.** -/
theorem addTracks_true {video audio : Placement} (h : (x.addTracks sc video audio).2.2 = true) :
    AddsMissing x (x.addTracks sc video audio).1 (x.addTracks sc video audio).2.1 ∧
      (x.addTracks sc video audio).1.media.peerConnection = true := by
  have hlive : x.media.peerConnection = true := by
    by_contra hlive
    rw [addTracks, if_pos hlive] at h
    exact absurd h (by simp)
  obtain ⟨y, hy, heq⟩ := addTracks_live x sc hlive video audio
  rw [heq] at h ⊢
  by_cases hv : WebRTC.carriers .video x.senders = 0
  · rw [if_neg (not_not.mpr hv)] at h ⊢
    by_cases ha : (y.addVideoTrack sc video).2.2 = true ∧ WebRTC.carriers .audio x.senders = 0
    · -- both are missing
      rw [if_pos ha] at h ⊢
      obtain ⟨hvideo, hvs, hvn, hvc⟩ := addVideoTrack_true y sc video ha.1
      obtain ⟨haudio, has, hac, haa, ham⟩ := addAudioTrack_true _ sc audio h
      refine ⟨⟨fun kind => ?_, ?_, ?_, fun hne => absurd hv hne, ?_⟩, ?_⟩
      · rw [has, hvs, carriers_addTrack .audio haudio, carriers_addTrack .video hvideo, hy.senders]
        cases kind
        · simp [ha.2]
        · simp [hv]
      · rw [hvc, hac, hy.next, if_pos hv, List.append_nil]
      · rw [ham, if_pos hv, ← hy.next]
        exact hvn
      · rw [haa, if_pos ha.2, ← hy.audioSources]
        rfl
      · rw [ham]
        exact (Media.addVideoTrack_peerConnection _ _).trans (hy.peerConnection.trans hlive)
    · rw [if_neg ha] at h ⊢
      have haudio : WebRTC.carriers .audio x.senders ≠ 0 := fun e => ha ⟨h, e⟩
      obtain ⟨hvideo, hvs, hvn, hvc⟩ := addVideoTrack_true y sc video h
      refine ⟨⟨fun kind => ?_, ?_, ?_, fun hne => absurd hv hne, ?_⟩, ?_⟩
      · rw [hvs, carriers_addTrack .video hvideo, hy.senders]
        cases kind
        · simp [haudio]
        · simp [hv]
      · rw [hvc, hy.next, if_pos hv]
      · rw [hvn, hy.next, if_pos hv]
      · rw [if_neg haudio, ← hy.audioSources]
        rfl
      · exact (Media.addVideoTrack_peerConnection _ _).trans (hy.peerConnection.trans hlive)
  · rw [if_pos hv] at h ⊢
    by_cases ha : WebRTC.carriers .audio x.senders = 0
    · rw [if_neg (not_not.mpr ha)] at h ⊢
      obtain ⟨haudio, has, hac, haa, ham⟩ := addAudioTrack_true y sc audio h
      refine ⟨⟨fun kind => ?_, ?_, ?_, fun _ => ?_, ?_⟩, ?_⟩
      · rw [has, carriers_addTrack .audio haudio, hy.senders]
        cases kind
        · simp [ha]
        · simp [hv]
      · rw [hac, if_neg hv, List.append_nil]
      · rw [ham, if_neg hv]
        exact hy.next
      · rw [ham]
        exact ⟨hy.videoSource, hy.localVideoTrack, hy.videoSender⟩
      · rw [haa, if_pos ha, hy.audioSources]
      · rw [ham]
        exact hy.peerConnection.trans hlive
    · rw [if_pos ha]
      refine ⟨⟨fun kind => ?_, (if_neg hv).symm, (if_neg hv).symm, fun _ => ⟨rfl, rfl, rfl⟩, (if_neg ha).symm⟩,
        hlive⟩
      cases kind
      · exact (if_neg ha).symm
      · exact (if_neg hv).symm

/-- **An `AddTracks` that fails leaves every kind as it was, or attached once.** -/
theorem addTracks_false {video audio : Placement} (h : (x.addTracks sc video audio).2.2 = false) (kind : MediaKind) :
    WebRTC.carriers kind (x.addTracks sc video audio).1.senders = WebRTC.carriers kind x.senders ∨
      WebRTC.carriers kind x.senders = 0 ∧ WebRTC.carriers kind (x.addTracks sc video audio).1.senders = 1 := by
  by_cases hlive : x.media.peerConnection = true
  · obtain ⟨y, hy, heq⟩ := addTracks_live x sc hlive video audio
    rw [heq] at h ⊢
    by_cases hv : WebRTC.carriers .video x.senders = 0
    · rw [if_neg (not_not.mpr hv)] at h ⊢
      by_cases ha : (y.addVideoTrack sc video).2.2 = true ∧ WebRTC.carriers .audio x.senders = 0
      · rw [if_pos ha] at h ⊢
        obtain ⟨hvideo, hvs, -, -⟩ := addVideoTrack_true y sc video ha.1
        rw [addAudioTrack_false _ sc audio h, hvs, carriers_addTrack .video hvideo, hy.senders]
        cases kind
        · simp
        · simp [hv]
      · rw [if_neg ha] at h ⊢
        rw [addVideoTrack_false y sc video h, hy.senders]
        exact .inl rfl
    · rw [if_pos hv] at h ⊢
      by_cases ha : WebRTC.carriers .audio x.senders = 0
      · rw [if_neg (not_not.mpr ha)] at h ⊢
        rw [addAudioTrack_false y sc audio h, hy.senders]
        exact .inl rfl
      · rw [if_pos ha] at h
        exact absurd h (by simp)
  · rw [addTracks, if_pos hlive]
    exact .inl rfl

/-- Where both kinds are attached, nothing happens. -/
theorem addTracks_attached (h : x.media.peerConnection = true)
    (hattached : ∀ kind, hasLocalSenderTrack kind x.senders = true) (video audio : Placement) :
    x.addTracks sc video audio = (x, [], true) := by
  unfold addTracks
  rw [if_neg (not_not.mpr h)]
  dsimp only
  rw [if_pos ⟨hattached .video, hattached .audio⟩]

end Engine

/-- **`AddTracks` attaches each kind exactly once.**  Where it succeeds, both kinds are attached, what was missing once
and what was there as before, and the next call changes nothing; where it fails, a retry that succeeds adds only what
is still missing. -/
theorem addTracks_attaches_once (x : Engine) (sc : Scene) (video audio : Placement) :
    ((x.addTracks sc video audio).2.2 = true →
      (∀ kind, hasLocalSenderTrack kind (x.addTracks sc video audio).1.senders = true) ∧
      (∀ kind, carriers kind (x.addTracks sc video audio).1.senders =
        if carriers kind x.senders = 0 then 1 else carriers kind x.senders) ∧
      ∀ sc' video' audio', (x.addTracks sc video audio).1.addTracks sc' video' audio' =
        ((x.addTracks sc video audio).1, [], true)) ∧
    ((x.addTracks sc video audio).2.2 = false →
      ∀ sc' video' audio', ((x.addTracks sc video audio).1.addTracks sc' video' audio').2.2 = true →
        Engine.AddsMissing (x.addTracks sc video audio).1
            ((x.addTracks sc video audio).1.addTracks sc' video' audio').1
            ((x.addTracks sc video audio).1.addTracks sc' video' audio').2.1 ∧
          ∀ kind, carriers kind ((x.addTracks sc video audio).1.addTracks sc' video' audio').1.senders =
            if carriers kind x.senders = 0 then 1 else carriers kind x.senders) := by
  constructor
  · intro h
    obtain ⟨hadds, hlive⟩ := Engine.addTracks_true x sc h
    have hattached : ∀ kind, hasLocalSenderTrack kind (x.addTracks sc video audio).1.senders = true := by
      intro kind
      rw [hasLocalSenderTrack_iff, hadds.carriers kind]
      split_ifs <;> omega
    exact ⟨hattached, hadds.carriers, fun sc' video' audio' => Engine.addTracks_attached _ sc' hlive hattached _ _⟩
  · intro h sc' video' audio' h'
    obtain ⟨hadds, -⟩ := Engine.addTracks_true _ sc' h'
    refine ⟨hadds, fun kind => ?_⟩
    rw [hadds.carriers kind]
    rcases Engine.addTracks_false x sc h kind with heq | ⟨hzero, hone⟩
    · rw [heq]
    · rw [hone, hzero]
      rfl

/-- The remote description has made two senders; the audio is refused at first. -/
example :
    let x : Engine := { media := { peerConnection := true }, senders := [.trackless, .null, .trackless] }
    let r := x.addTracks {} (.reused 0) .refused
    let r' := r.1.addTracks {} .appended (.reused 2)
    r.2 = ([.onLocalVideoTrackAdded 1, .onError "Failed to add audio track"], false) ∧ r'.2 = ([], true) ∧
      r'.1.senders = [.carrying .video, .null, .carrying .audio] := by
  decide

end PeerCall.WebRTC
