import PeerCall.Engine.Media

/-!
# Engine.FileSource — the decode loop of `FfmpegFileSource`

What the libraries answer comes with each read; times and timestamps are in microseconds.  `Stop` ends the run at the
next look at `running_`: after any read, or between two frames of a packet.  Pictures and samples are left out.

* `passes_played`: **within a pass the frames keep their distances, and every pass starts at zero**;
* `calls_on_open_contexts_iff`: **when libavcodec is only called with contexts that are open**.
-/

namespace PeerCall.WebRTC

open PeerCall.Lib

/-! ### Opening a codec -/

structure CodecContext where
  kind : MediaKind
  stream : ℤ
  isOpen : Bool
  deriving DecidableEq, Repr

/-- What the libraries answer while a codec is opened: the index of `av_find_best_stream`, and the results of
`avcodec_parameters_to_context` and `avcodec_open2`. -/
structure Codec where
  bestStream : ℤ
  hasDecoder : Bool := true
  allocates : Bool := true
  copied : ℤ := 0
  opened : ℤ := 0
  deriving DecidableEq, Repr

/-- The result of `OpenCodecContext` and what its output parameters point to. -/
structure Opening where
  ok : Bool
  streamIndex : ℤ
  codecContext : Option CodecContext := none
  errorMessage : String := ""
  deriving DecidableEq, Repr

/-- `OpenCodecContext`; the text of a library error is given. -/
def openCodecContext (ffmpegErrorToString : ℤ → String) (kind : MediaKind) (codec : Codec) : Opening :=
  let streamIndex := codec.bestStream
  if streamIndex < 0 then
    if kind = .audio then { ok := false, streamIndex }
    else
      { ok := false, streamIndex
        errorMessage := "Failed to locate a decodable video stream: " ++ ffmpegErrorToString streamIndex }
  else if ¬ codec.hasDecoder then
    { ok := false, streamIndex, errorMessage := "Failed to find a decoder for the media stream." }
  else if ¬ codec.allocates then
    { ok := false, streamIndex, errorMessage := "Failed to allocate an FFmpeg codec context." }
  else
    let context : CodecContext := { kind, stream := streamIndex, isOpen := false }
    if codec.copied < 0 then
      { ok := false, streamIndex
        errorMessage := "Failed to copy codec parameters: " ++ ffmpegErrorToString codec.copied }
    else if codec.opened < 0 then
      { ok := false, streamIndex, errorMessage := "Failed to open codec: " ++ ffmpegErrorToString codec.opened }
    else { ok := true, streamIndex, codecContext := some { context with isOpen := true } }

/-! ### The loop -/

/-- A decoded video frame; `scales`: a scaling context is there.  `now` is the clock when it is received. -/
structure Frame where
  bestEffortTimestamp : Option ℤ
  pts : Option ℤ := none
  now : ℤ := 0
  scales : Bool := true
  deriving DecidableEq, Repr

/-- `FramePtsUs`; `rescale` is `av_rescale_q` from the time base of the stream. -/
def framePtsUs (rescale : ℤ → ℤ) (frame : Frame) : ℤ :=
  match frame.bestEffortTimestamp <|> frame.pts with
  | none => 0
  | some pts => rescale pts

/-- An answer of `avcodec_receive_frame`: a frame, or none for now, at the end or by an error. -/
inductive Answer
  | frame (f : Frame)
  | other
  deriving DecidableEq, Repr

/-- One round of the loop: what `av_read_frame` gives, whether the packet is taken, and what is received then; the
answers end early where `Stop` is called. -/
inductive Read
  | eof (now : ℤ)
  | error
  | packet (streamIndex : ℤ) (sent : Bool) (answers : List Answer)
  deriving DecidableEq, Repr

inductive AvFunction
  | sendPacket | receiveFrame | flushBuffers
  deriving DecidableEq, Repr

/-- A call of libavcodec, with the stream that the packet is from or that the frame is taken for. -/
structure AvCall where
  function : AvFunction
  context : Option CodecContext
  stream : Option ℤ := none
  deriving DecidableEq, Repr

/-- A frame that has been timed, and whether it was handed to the broadcaster. -/
structure Timed where
  ptsUs : ℤ
  now : ℤ
  timestampUs : ℤ
  targetTime : ℤ
  delivered : Bool
  deriving DecidableEq, Repr

/-- `playback_start` and `first_video_pts_us`. -/
structure Clock where
  playbackStart : ℤ := 0
  firstVideoPtsUs : ℤ := -1
  deriving DecidableEq, Repr

/-- A frame starts the clock where none has. -/
def Clock.start (c : Clock) (ptsUs now : ℤ) : Clock :=
  if c.firstVideoPtsUs < 0 then { playbackStart := now, firstVideoPtsUs := ptsUs } else c

/-- `relative_pts_us`. -/
def Clock.relativePtsUs (c : Clock) (ptsUs : ℤ) : ℤ := max 0 (ptsUs - c.firstVideoPtsUs)

/-- `active_codec_context` and `active_stream`. -/
structure Active where
  context : Option CodecContext
  stream : Option ℤ
  isVideo : Bool

/-- The locals of `DecodeLoop`; `pass` are the frames since the last rewind, `passes` those of the passes before. -/
structure DecodeLoop where
  running : Bool := false
  videoStreamIndex : ℤ := -1
  audioStreamIndex : ℤ := -1
  videoCodecContext : Option CodecContext := none
  audioCodecContext : Option CodecContext := none
  videoStream : Option ℤ := none
  audioStream : Option ℤ := none
  clock : Clock := {}
  calls : List AvCall := []
  passes : List (List Timed) := []
  pass : List Timed := []
  deriving DecidableEq, Repr

/-- What the libraries answer before the loop. -/
structure Startup where
  hasFrame : Bool := true
  hasPacket : Bool := true
  openInput : ℤ := 0
  findStreamInfo : ℤ := 0
  video : Codec
  audio : Codec
  now : ℤ := 0
  ffmpegErrorToString : ℤ → String := fun _ => ""

namespace DecodeLoop

/-- `DecodeLoop` up to the loop, which is not reached where it goes to `cleanup`. -/
def begin (x : Startup) : DecodeLoop :=
  let s : DecodeLoop := { clock := { playbackStart := x.now } }
  if ¬ x.hasFrame ∨ ¬ x.hasPacket ∨ x.openInput < 0 ∨ x.findStreamInfo < 0 then s
  else
    let video := openCodecContext x.ffmpegErrorToString .video x.video
    if ¬ video.ok then { s with videoStreamIndex := video.streamIndex }
    else
      let audio := openCodecContext x.ffmpegErrorToString .audio x.audio
      { s with
        running := true
        videoStreamIndex := video.streamIndex, videoCodecContext := video.codecContext
        audioStreamIndex := audio.streamIndex, audioCodecContext := audio.codecContext
        videoStream := some video.streamIndex
        audioStream := if 0 ≤ audio.streamIndex then some audio.streamIndex else none }

/-- The decoder of a packet. -/
def select (s : DecodeLoop) (streamIndex : ℤ) : Option Active :=
  if streamIndex = s.videoStreamIndex then some ⟨s.videoCodecContext, s.videoStream, true⟩
  else if 0 ≤ s.audioStreamIndex ∧ streamIndex = s.audioStreamIndex then
    some ⟨s.audioCodecContext, s.audioStream, false⟩
  else none

def call (s : DecodeLoop) (c : AvCall) : DecodeLoop := { s with calls := s.calls ++ [c] }

/-- The part of the loop for a video frame. -/
def showFrame (rescale : ℤ → ℤ) (s : DecodeLoop) (frame : Frame) : DecodeLoop :=
  let framePtsUs := framePtsUs rescale frame
  let clock := s.clock.start framePtsUs frame.now
  let relativePtsUs := clock.relativePtsUs framePtsUs
  { s with
    clock := clock
    pass := s.pass ++
      [⟨framePtsUs, frame.now, relativePtsUs, clock.playbackStart + relativePtsUs, frame.scales⟩] }

/-- The inner loop. -/
def receiveFrames (rescale : ℤ → ℤ) (active : Active) (s : DecodeLoop) : List Answer → DecodeLoop
  | [] => { s with running := false }
  | .other :: _ => s.call ⟨.receiveFrame, active.context, active.stream⟩
  | .frame f :: answers =>
    let s := s.call ⟨.receiveFrame, active.context, active.stream⟩
    receiveFrames rescale active (if active.isVideo then s.showFrame rescale f else s) answers

/-- One round of the loop. -/
def round (rescale : ℤ → ℤ) (s : DecodeLoop) : Read → DecodeLoop
  | .eof now =>
    let s := s.call ⟨.flushBuffers, s.videoCodecContext, none⟩
    let s := if s.audioCodecContext.isSome then s.call ⟨.flushBuffers, s.audioCodecContext, none⟩ else s
    { s with clock := { playbackStart := now, firstVideoPtsUs := -1 }, passes := s.passes ++ [s.pass], pass := [] }
  | .error => { s with running := false }
  | .packet streamIndex sent answers =>
    match s.select streamIndex with
    | none => s
    | some active =>
      let s := s.call ⟨.sendPacket, active.context, some streamIndex⟩
      if sent then s.receiveFrames rescale active answers else s

def step (rescale : ℤ → ℤ) (s : DecodeLoop) (r : Read) : DecodeLoop := if s.running then s.round rescale r else s

/-- The passes, the present one last. -/
def allPasses (s : DecodeLoop) : List (List Timed) := s.passes ++ [s.pass]

end DecodeLoop

/-! ### The timing of a pass -/

/-- The frames have been timed one after the other, from the clock `c`. -/
def Clock.Times (c : Clock) : List Timed → Prop
  | [] => True
  | t :: ts =>
    t.timestampUs = (c.start t.ptsUs t.now).relativePtsUs t.ptsUs ∧
      t.targetTime = (c.start t.ptsUs t.now).playbackStart + t.timestampUs ∧ (c.start t.ptsUs t.now).Times ts

/-- The clock after the frames. -/
def Clock.after (c : Clock) (ts : List Timed) : Clock := ts.foldl (fun c t => c.start t.ptsUs t.now) c

theorem Clock.Times.concat {t : Timed} {ts : List Timed} {c : Clock} (h : c.Times ts) (ht : (c.after ts).Times [t]) :
    c.Times (ts ++ [t]) := by
  induction ts generalizing c with
  | nil => exact ht
  | cons t' ts ih =>
    obtain ⟨hstamp, htarget, hrest⟩ := h
    exact ⟨hstamp, htarget, ih hrest ht⟩

/-- What is asked of a pass. -/
structure Played (p : List Timed) : Prop where
  distances : ∀ f ∈ p.head?, 0 ≤ f.ptsUs → ∀ t ∈ p,
    t.timestampUs = t.ptsUs - f.ptsUs ∧ t.targetTime = f.now + (t.ptsUs - f.ptsUs)
  monotone : p.Pairwise fun t t' => t.timestampUs ≤ t'.timestampUs
  zero : ∀ f ∈ p.head?, f.timestampUs = 0

section Pass

variable {c : Clock} {ts : List Timed}

/-- Once the clock has started, it stays. -/
theorem Clock.Times.started (h : c.Times ts) (hc : 0 ≤ c.firstVideoPtsUs) :
    ∀ t ∈ ts, t.timestampUs = c.relativePtsUs t.ptsUs ∧ t.targetTime = c.playbackStart + t.timestampUs := by
  induction ts with
  | nil => simp
  | cons t ts ih =>
    have hstart : c.start t.ptsUs t.now = c := if_neg (by omega)
    rw [Times, hstart] at h
    intro t' ht'
    rcases List.mem_cons.mp ht' with rfl | ht'
    · exact ⟨h.1, h.2.1⟩
    · exact ih h.2.2 t' ht'

theorem Clock.Times.nonneg (h : c.Times ts) : ∀ t ∈ ts, 0 ≤ t.timestampUs := by
  induction ts generalizing c with
  | nil => simp
  | cons t ts ih =>
    intro t' ht'
    rcases List.mem_cons.mp ht' with rfl | ht'
    · rw [h.1]
      exact le_max_left _ _
    · exact ih h.2.2 t' ht'

/-- The frame that starts the clock. -/
theorem Clock.Times.first {t : Timed} (h : c.Times (t :: ts)) (hc : c.firstVideoPtsUs < 0) :
    t.timestampUs = 0 ∧ t.targetTime = t.now ∧ (⟨t.now, t.ptsUs⟩ : Clock).Times ts := by
  have hstart : c.start t.ptsUs t.now = ⟨t.now, t.ptsUs⟩ := if_pos hc
  rw [Times, hstart] at h
  have hzero : t.timestampUs = 0 := by
    rw [h.1, relativePtsUs, sub_self, max_self]
  exact ⟨hzero, by rw [h.2.1, hzero, add_zero], h.2.2⟩

theorem Clock.Times.monotone (h : c.Times ts) (hts : ts.Pairwise fun t t' => t.ptsUs ≤ t'.ptsUs) :
    ts.Pairwise fun t t' => t.timestampUs ≤ t'.timestampUs := by
  induction ts generalizing c with
  | nil => exact .nil
  | cons t ts ih =>
    obtain ⟨hle, hts'⟩ := List.pairwise_cons.mp hts
    refine List.pairwise_cons.mpr ⟨fun t' ht' => ?_, ih h.2.2 hts'⟩
    by_cases hc : c.firstVideoPtsUs < 0
    · -- the frame starts the clock, and is shown at once
      rw [(h.first hc).1]
      exact h.2.2.nonneg t' ht'
    · have hstarted := h.started (by omega)
      rw [(hstarted t (by simp)).1, (hstarted t' (by simp [ht'])).1]
      exact max_le_max le_rfl (sub_le_sub_right (hle t' ht') _)

/-- **A pass** whose frames come in the order of their presentation. -/
theorem Clock.Times.played (h : c.Times ts) (hc : c.firstVideoPtsUs < 0)
    (hts : ts.Pairwise fun t t' => t.ptsUs ≤ t'.ptsUs) : Played ts := by
  refine ⟨fun f hf hpts t ht => ?_, h.monotone hts, fun f hf => ?_⟩
  · obtain ⟨rest, rfl⟩ := List.head?_eq_some_iff.mp hf
    obtain ⟨hzero, htarget, htimes⟩ := h.first hc
    rcases List.mem_cons.mp ht with rfl | ht
    · rw [hzero, htarget, sub_self, add_zero]
      exact ⟨rfl, rfl⟩
    · have hle := (List.pairwise_cons.mp hts).1 t ht
      obtain ⟨hstamp, htarget'⟩ := htimes.started hpts t ht
      have hdistance : t.timestampUs = t.ptsUs - f.ptsUs := hstamp.trans (max_eq_right (sub_nonneg.mpr hle))
      exact ⟨hdistance, by rw [htarget', hdistance]⟩
  · obtain ⟨rest, rfl⟩ := List.head?_eq_some_iff.mp hf
    exact (h.first hc).1

end Pass

/-! ### Passes -/

namespace DecodeLoop

variable {rescale : ℤ → ℤ} {s : DecodeLoop}

/-- Each pass has been timed from a clock that had not started, and the present one up to the present clock. -/
structure Timing (s : DecodeLoop) : Prop where
  past : ∀ p ∈ s.passes, ∃ c : Clock, c.firstVideoPtsUs < 0 ∧ c.Times p
  present : ∃ c : Clock, c.firstVideoPtsUs < 0 ∧ c.Times s.pass ∧ s.clock = c.after s.pass

theorem Timing.showFrame (h : Timing s) (frame : Frame) : Timing (s.showFrame rescale frame) := by
  obtain ⟨hpast, c, hc, htimes, hclock⟩ := h
  refine ⟨hpast, c, hc, htimes.concat ?_, ?_⟩
  · rw [← hclock]
    exact ⟨rfl, rfl, trivial⟩
  · simp [DecodeLoop.showFrame, Clock.after, hclock]

theorem Timing.receiveFrames (active : Active) (answers : List Answer) :
    ∀ {s : DecodeLoop}, Timing s → Timing (s.receiveFrames rescale active answers) := by
  induction answers with
  | nil => exact fun h => ⟨h.past, h.present⟩
  | cons answer answers ih =>
    intro s h
    have hcall : Timing (s.call ⟨.receiveFrame, active.context, active.stream⟩) := ⟨h.past, h.present⟩
    cases answer with
    | other => exact hcall
    | frame f =>
      refine ih ?_
      split_ifs
      · exact hcall.showFrame f
      · exact hcall

/-- **One round**: a rewind ends the pass, and the next one starts with a clock that has not. -/
theorem timing_step (s : DecodeLoop) (r : Read) (h : Timing s) : Timing (s.step rescale r) := by
  unfold step
  by_cases hr : s.running = true
  · rw [if_pos hr]
    cases r with
    | eof now =>
      have hlog : ∀ s' : DecodeLoop, s'.passes = s.passes → s'.pass = s.pass →
          Timing { s' with clock := ⟨now, -1⟩, passes := s'.passes ++ [s'.pass], pass := [] } := by
        intro s' hpasses hpass
        obtain ⟨c, hc, htimes, -⟩ := h.present
        refine ⟨fun p hp => ?_, ⟨now, -1⟩, neg_one_lt_zero, trivial, rfl⟩
        rcases List.mem_append.mp hp with hp | hp
        · exact h.past p (hpasses ▸ hp)
        · rw [List.mem_singleton.mp hp, hpass]
          exact ⟨c, hc, htimes⟩
      simp only [round]
      split_ifs
      · exact hlog _ rfl rfl
      · exact hlog _ rfl rfl
    | error => exact ⟨h.past, h.present⟩
    | packet streamIndex sent answers =>
      simp only [round]
      split
      · exact h
      · rename_i active _
        have hcall : Timing (s.call ⟨.sendPacket, active.context, some streamIndex⟩) := ⟨h.past, h.present⟩
        split_ifs
        · exact hcall.receiveFrames active answers
        · exact hcall
  · rw [if_neg hr]
    exact h

theorem timing_begin (x : Startup) : Timing (begin x) := by
  have hnew : ∀ s : DecodeLoop, s.passes = [] → s.pass = [] → s.clock.firstVideoPtsUs = -1 → Timing s := by
    intro s hpasses hpass hclock
    refine ⟨by simp [hpasses], s.clock, by omega, by simp [hpass, Clock.Times], by simp [hpass, Clock.after]⟩
  unfold begin
  dsimp only
  split_ifs <;> exact hnew _ rfl rfl rfl

/-- **The frames of a pass keep their distances**, if they come in the order of their presentation: they are stamped
and shown as long after the first as their presentation is, where that of the first is not negative; no frame of the
pass has an earlier timestamp than one before it; and the first has the timestamp zero, so that the timestamps start
again at a rewind. -/
theorem passes_played (x : Startup) (rescale : ℤ → ℤ) (reads : List Read) :
    ∀ p ∈ (run (step rescale) (begin x) reads).allPasses, p.Pairwise (fun t t' => t.ptsUs ≤ t'.ptsUs) → Played p := by
  have htiming : Timing (run (step rescale) (begin x) reads) :=
    run_invariant' (P := Timing) timing_step (timing_begin x) reads
  intro p hp hts
  rcases List.mem_append.mp hp with hp | hp
  · obtain ⟨c, hc, htimes⟩ := htiming.past p hp
    exact htimes.played hc hts
  · obtain ⟨c, hc, htimes, -⟩ := htiming.present
    obtain rfl := List.mem_singleton.mp hp
    exact htimes.played hc hts

/-- The video is stream 0, and there is no audio. -/
def silent : Startup := { video := { bestStream := 0 }, audio := { bestStream := -1 } }

/-- Two frames, 40 ms apart, before and after a rewind. -/
def twice : List Read :=
  [.packet 0 true [.frame { bestEffortTimestamp := some 0, now := 100 }, .other],
    .packet 0 true [.frame { bestEffortTimestamp := some 40000, now := 200 }, .other], .eof 300,
    .packet 0 true [.frame { bestEffortTimestamp := some 0, now := 400 }, .other]]

theorem second_frame_on_time :
    let p : List Timed := [⟨0, 100, 0, 100, true⟩, ⟨40000, 200, 40000, 40100, true⟩]
    p ∈ (run (step id) (begin silent) twice).allPasses ∧ Played p := by
  intro p
  have hp : p ∈ (run (step id) (begin silent) twice).allPasses := by decide
  exact ⟨hp, passes_played silent id twice p hp (by decide)⟩

/-- **Not over the whole run**: the timestamps start again at a rewind. -/
theorem timestamps_start_again :
    ¬ ∀ (x : Startup) (rescale : ℤ → ℤ) (reads : List Read),
      (∀ p ∈ (run (step rescale) (begin x) reads).allPasses, p.Pairwise fun t t' => t.ptsUs ≤ t'.ptsUs) →
        (∀ p ∈ (run (step rescale) (begin x) reads).allPasses, ∀ f ∈ p.head?, ∀ t ∈ p,
          t.timestampUs = t.ptsUs - f.ptsUs) ∧
        ((run (step rescale) (begin x) reads).allPasses.flatten.filter Timed.delivered).Pairwise
          fun t t' => t.timestampUs ≤ t'.timestampUs := by
  intro h
  exact absurd (h silent id twice (by decide)).2 (by decide)

/-! ### The contexts that are called -/

/-- The call is on a context that has been opened, for the stream that is used with it. -/
def OnOpenContext (c : AvCall) : Prop :=
  ∃ context, c.context = some context ∧ context.isOpen = true ∧ ∀ i ∈ c.stream, i = context.stream

/-- The packet is not from an audio stream that was found and has no open decoder. -/
def Decodable (s : DecodeLoop) : Read → Prop
  | .packet streamIndex _ _ => s.running = true → streamIndex ≠ s.videoStreamIndex →
      0 ≤ s.audioStreamIndex ∧ streamIndex = s.audioStreamIndex → s.audioCodecContext ≠ none
  | _ => True

instance (s : DecodeLoop) : ∀ r : Read, Decidable (Decodable s r)
  | .packet _ _ _ => inferInstanceAs (Decidable (_ → _ → _ ∧ _ → _))
  | .eof _ | .error => inferInstanceAs (Decidable True)

/-- What `OpenCodecContext` publishes: an open context exactly when it succeeds, but the stream in any case. -/
theorem openCodecContext_eq (ffmpegErrorToString : ℤ → String) (kind : MediaKind) (codec : Codec) :
    (openCodecContext ffmpegErrorToString kind codec).codecContext =
      if (openCodecContext ffmpegErrorToString kind codec).ok then
        some ⟨kind, (openCodecContext ffmpegErrorToString kind codec).streamIndex, true⟩
      else none := by
  unfold openCodecContext
  dsimp only
  split_ifs <;> first | rfl | contradiction

/-- While the loop runs, the video context is open, and so is the audio context if there is one. -/
structure Opened (s : DecodeLoop) : Prop where
  video : s.running = true → s.videoCodecContext = some ⟨.video, s.videoStreamIndex, true⟩
  videoStream : s.running = true → s.videoStream = some s.videoStreamIndex
  audio : ∀ c ∈ s.audioCodecContext, c = ⟨.audio, s.audioStreamIndex, true⟩
  audioStream : ∀ i ∈ s.audioStream, i = s.audioStreamIndex

theorem opened_begin (x : Startup) : Opened (begin x) := by
  have hv := openCodecContext_eq x.ffmpegErrorToString .video x.video
  have ha := openCodecContext_eq x.ffmpegErrorToString .audio x.audio
  unfold begin
  dsimp only
  by_cases hfail : ¬ x.hasFrame ∨ ¬ x.hasPacket ∨ x.openInput < 0 ∨ x.findStreamInfo < 0
  · rw [if_pos hfail]
    exact ⟨by simp, by simp, by simp, by simp⟩
  rw [if_neg hfail]
  by_cases hok : (openCodecContext x.ffmpegErrorToString .video x.video).ok = true
  · rw [if_neg (not_not.mpr hok)]
    refine ⟨fun _ => hv.trans (if_pos hok), fun _ => rfl, fun c hc => ?_, fun i hi => ?_⟩
    · have hcontext : (openCodecContext x.ffmpegErrorToString .audio x.audio).codecContext = some c := hc
      rw [ha] at hcontext
      split_ifs at hcontext
      exact (Option.some.inj hcontext).symm
    · rw [Option.mem_def] at hi
      split_ifs at hi
      exact (Option.some.inj hi).symm
  · rw [if_pos hok]
    exact ⟨by simp, by simp, by simp, by simp⟩

/-- The contexts and the streams are those of `s`; the loop has not been resumed, and the calls of `s` are followed by
`calls`. -/
structure Goes (s s' : DecodeLoop) (calls : List AvCall) : Prop where
  running : s'.running = true → s.running = true
  videoStreamIndex : s'.videoStreamIndex = s.videoStreamIndex
  audioStreamIndex : s'.audioStreamIndex = s.audioStreamIndex
  videoCodecContext : s'.videoCodecContext = s.videoCodecContext
  audioCodecContext : s'.audioCodecContext = s.audioCodecContext
  videoStream : s'.videoStream = s.videoStream
  audioStream : s'.audioStream = s.audioStream
  calls : s'.calls = s.calls ++ calls

theorem Goes.opened {s s' : DecodeLoop} {calls : List AvCall} (h : Goes s s' calls) (ho : Opened s) : Opened s' := by
  obtain ⟨hr, hvi, hai, hvc, hac, hvs, has, -⟩ := h
  refine ⟨fun hrun => ?_, fun hrun => ?_, ?_, ?_⟩
  · rw [hvc, hvi]
    exact ho.video (hr hrun)
  · rw [hvs, hvi]
    exact ho.videoStream (hr hrun)
  · rw [hac, hai]
    exact ho.audio
  · rw [has, hai]
    exact ho.audioStream

theorem Goes.trans {s s' s'' : DecodeLoop} {cs cs' : List AvCall} (h : Goes s s' cs) (h' : Goes s' s'' cs') :
    Goes s s'' (cs ++ cs') := by
  obtain ⟨hr, hvi, hai, hvc, hac, hvs, has, hcalls⟩ := h
  obtain ⟨hr', hvi', hai', hvc', hac', hvs', has', hcalls'⟩ := h'
  exact ⟨fun h => hr (hr' h), hvi'.trans hvi, hai'.trans hai, hvc'.trans hvc, hac'.trans hac, hvs'.trans hvs,
    has'.trans has, by rw [hcalls', hcalls, List.append_assoc]⟩

theorem goes_call (s : DecodeLoop) (c : AvCall) : Goes s (s.call c) [c] :=
  ⟨id, rfl, rfl, rfl, rfl, rfl, rfl, rfl⟩

/-- The inner loop only asks for frames of the packet's stream. -/
theorem goes_receiveFrames (active : Active) (answers : List Answer) :
    ∀ s : DecodeLoop, ∃ n, Goes s (s.receiveFrames rescale active answers)
      (List.replicate n ⟨.receiveFrame, active.context, active.stream⟩) := by
  induction answers with
  | nil => exact fun s => ⟨0, by simp [receiveFrames], rfl, rfl, rfl, rfl, rfl, rfl, by simp [receiveFrames]⟩
  | cons answer answers ih =>
    intro s
    have hcall := goes_call s ⟨.receiveFrame, active.context, active.stream⟩
    cases answer with
    | other => exact ⟨1, hcall⟩
    | frame f =>
      have hshow : ∀ s' : DecodeLoop, Goes s' (if active.isVideo then s'.showFrame rescale f else s') [] := by
        intro s'
        split_ifs
        · exact ⟨id, rfl, rfl, rfl, rfl, rfl, rfl, by simp [showFrame]⟩
        · exact ⟨id, rfl, rfl, rfl, rfl, rfl, rfl, by simp⟩
      obtain ⟨n, hn⟩ := ih (if active.isVideo then
        (s.call ⟨.receiveFrame, active.context, active.stream⟩).showFrame rescale f
          else s.call ⟨.receiveFrame, active.context, active.stream⟩)
      refine ⟨n + 1, ?_⟩
      have hall := (hcall.trans (hshow _)).trans hn
      rw [List.replicate_succ]
      exact hall

/-- The calls for a packet that is decoded by `active`. -/
theorem goes_packet {s : DecodeLoop} {i : ℤ} {active : Active} (h : s.select i = some active) (sent : Bool)
    (answers : List Answer) : ∃ n, Goes s (s.round rescale (.packet i sent answers))
      (⟨.sendPacket, active.context, some i⟩ :: List.replicate n ⟨.receiveFrame, active.context, active.stream⟩) := by
  have hsend := goes_call s ⟨.sendPacket, active.context, some i⟩
  simp only [round, h]
  split_ifs
  · obtain ⟨n, hn⟩ := goes_receiveFrames active answers (s.call ⟨.sendPacket, active.context, some i⟩)
    exact ⟨n, hsend.trans hn⟩
  · exact ⟨0, hsend⟩

/-- They are all on one context, which has to be open and the one of both streams. -/
theorem onOpenContext_packet {i : ℤ} {active : Active} {context : CodecContext} (n : ℕ)
    (hc : active.context = some context) (hopen : context.isOpen = true) (hi : i = context.stream)
    (hs : ∀ j ∈ active.stream, j = context.stream) :
    ∀ c ∈ (⟨.sendPacket, active.context, some i⟩ : AvCall) ::
      List.replicate n ⟨.receiveFrame, active.context, active.stream⟩, OnOpenContext c := by
  intro c hmem
  rcases List.mem_cons.mp hmem with rfl | hmem
  · refine ⟨context, hc, hopen, fun j hj => ?_⟩
    rw [← Option.some.inj hj]
    exact hi
  · rw [(List.mem_replicate.mp hmem).2]
    exact ⟨context, hc, hopen, hs⟩

/-- **One round** is on open contexts exactly when what it reads can be decoded. -/
theorem goes_round (hr : s.running = true) (ho : Opened s) (r : Read) :
    ∃ calls, Goes s (s.round rescale r) calls ∧ ((∀ c ∈ calls, OnOpenContext c) ↔ Decodable s r) := by
  cases r with
  | eof now =>
    have hvideo : OnOpenContext ⟨.flushBuffers, s.videoCodecContext, none⟩ :=
      ⟨_, ho.video hr, rfl, by simp⟩
    have hflush := goes_call s ⟨.flushBuffers, s.videoCodecContext, none⟩
    have hreset : ∀ s' : DecodeLoop, Goes s' { s' with
        clock := ⟨now, -1⟩, passes := s'.passes ++ [s'.pass], pass := [] } [] :=
      fun s' => ⟨id, rfl, rfl, rfl, rfl, rfl, rfl, by simp⟩
    cases hac : s.audioCodecContext with
    | none =>
      refine ⟨[⟨.flushBuffers, s.videoCodecContext, none⟩], ?_, iff_of_true (by simpa using hvideo) trivial⟩
      have hround := hflush.trans (hreset _)
      simpa [round, call, hac] using hround
    | some c =>
      have haudio : OnOpenContext ⟨.flushBuffers, s.audioCodecContext, none⟩ := by
        obtain rfl := ho.audio c hac
        exact ⟨_, hac, rfl, by simp⟩
      refine ⟨[⟨.flushBuffers, s.videoCodecContext, none⟩, ⟨.flushBuffers, s.audioCodecContext, none⟩], ?_,
        iff_of_true (by simpa using ⟨hvideo, haudio⟩) trivial⟩
      have hround := (hflush.trans (goes_call _ ⟨.flushBuffers, s.audioCodecContext, none⟩)).trans (hreset _)
      simpa [round, call, hac] using hround
  | error => exact ⟨[], ⟨by simp [round], rfl, rfl, rfl, rfl, rfl, rfl, by simp [round]⟩, by simp [Decodable]⟩
  | packet i sent answers =>
    by_cases hv : i = s.videoStreamIndex
    · have hselect : s.select i = some ⟨s.videoCodecContext, s.videoStream, true⟩ := if_pos hv
      obtain ⟨n, hn⟩ := goes_packet hselect sent answers
      refine ⟨_, hn, iff_of_true ?_ fun _ hne => absurd hv hne⟩
      refine onOpenContext_packet n (ho.video hr) rfl hv fun j hj => ?_
      rw [ho.videoStream hr] at hj
      exact (Option.some.inj hj).symm
    · by_cases ha : 0 ≤ s.audioStreamIndex ∧ i = s.audioStreamIndex
      · have hselect : s.select i = some ⟨s.audioCodecContext, s.audioStream, false⟩ := by
          rw [select, if_neg hv, if_pos ha]
        obtain ⟨n, hn⟩ := goes_packet hselect sent answers
        refine ⟨_, hn, ?_⟩
        cases hac : s.audioCodecContext with
        | none =>
          -- the audio decoder is missing
          refine iff_of_false (fun hall => ?_) fun hd => hd hr hv ha hac
          obtain ⟨context, hnone, -⟩ := hall _ List.mem_cons_self
          cases hnone
        | some c =>
          obtain rfl := ho.audio c hac
          refine iff_of_true ?_ fun _ _ _ hnone => by simp [hac] at hnone
          let context : CodecContext := ⟨.audio, s.audioStreamIndex, true⟩
          exact @onOpenContext_packet i ⟨some context, s.audioStream, false⟩ context n rfl rfl ha.2 ho.audioStream
      · have hselect : s.select i = none := by rw [select, if_neg hv, if_neg ha]
        refine ⟨[], ?_, iff_of_true (by simp) fun _ _ h => absurd h ha⟩
        simp only [round, hselect]
        exact ⟨id, rfl, rfl, rfl, rfl, rfl, rfl, by simp⟩

/-- **A run from any state with open contexts.** -/
theorem calls_run (reads : List Read) : ∀ {s : DecodeLoop}, Opened s →
    ((∀ c ∈ (run (step rescale) s reads).calls, OnOpenContext c) ↔
      (∀ c ∈ s.calls, OnOpenContext c) ∧ Meets (step rescale) Decodable s reads) := by
  induction reads with
  | nil => intro s _; simp
  | cons r reads ih =>
    intro s ho
    rw [run_cons, meets_cons]
    by_cases hr : s.running = true
    · have hstep : step rescale s r = s.round rescale r := if_pos hr
      obtain ⟨calls, hgoes, hcalls⟩ : ∃ calls, Goes s (s.round rescale r) calls ∧ _ := goes_round hr ho r
      rw [hstep, ih (hgoes.opened ho), hgoes.calls, ← hcalls]
      simp only [List.mem_append, or_imp, forall_and, and_assoc]
    · -- the loop has ended
      have hstep : step rescale s r = s := if_neg hr
      have hd : Decodable s r := by
        cases r with
        | packet i sent answers => exact fun h => absurd h hr
        | eof now => trivial
        | error => trivial
      rw [hstep, ih ho]
      simp [hd]

/-- **libavcodec is called on open contexts only, each for its own stream, exactly when** no packet is read from an
audio stream that was found but whose decoder could not be opened. -/
theorem calls_on_open_contexts_iff (x : Startup) (rescale : ℤ → ℤ) (reads : List Read) :
    (∀ c ∈ (run (step rescale) (begin x) reads).calls, OnOpenContext c) ↔
      Meets (step rescale) Decodable (begin x) reads := by
  have hnone : (begin x).calls = [] := by
    unfold begin
    dsimp only
    split_ifs <;> rfl
  rw [calls_run reads (opened_begin x), hnone]
  simp

/-- **Not in general**: stream 1 has a codec that there is no decoder for, and its first packet is sent to a null
context. -/
theorem packet_to_null_context :
    ¬ ∀ (x : Startup) (rescale : ℤ → ℤ) (reads : List Read),
      ∀ c ∈ (run (step rescale) (begin x) reads).calls, OnOpenContext c := by
  intro h
  have hcall : (⟨.sendPacket, none, some 1⟩ : AvCall) ∈ (run (step id)
      (begin { video := { bestStream := 0 }, audio := { bestStream := 1, hasDecoder := false } })
      [.packet 1 true [.other]]).calls := by decide
  obtain ⟨context, hnone, -⟩ := h _ _ _ _ hcall
  cases hnone

end DecodeLoop

end PeerCall.WebRTC
