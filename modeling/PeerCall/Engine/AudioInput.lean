import PeerCall.Engine.Media
import PeerCall.Lib.Pipe

/-!
# Engine.AudioInput — the synthetic half of `SwitchableAudioInput`

The decode thread pushes samples, the synthetic thread takes a chunk of ten milliseconds at a time, and either
may find too much or too little in the buffer.  The calls on the live input are left out.  Each critical section
is a step; `StopSyntheticThread` is one together with its join.

* `synthetic_audio`: **bounded, aligned, and in order**, for any mix of calls and rates.
-/

namespace PeerCall.WebRTC

open PeerCall.Lib

def kDefaultSyntheticSampleRateHz : UInt32 := 48000

def kDefaultSyntheticChannels : UInt64 := 2

def kMaxBufferedSyntheticMs : UInt64 := 4000

/-- `SwitchableAudioInput`; `audioBuffer`: one is attached. -/
structure SwitchableAudioInput where
  mode : CaptureMode := .microphone
  audioBuffer : Bool := false
  recordingRequested : Bool := false
  syntheticThreadRunning : Bool := false
  syntheticSampleRateHz : UInt32 := kDefaultSyntheticSampleRateHz
  syntheticChannels : UInt64 := kDefaultSyntheticChannels
  syntheticSamples : List Int16 := []
  deriving DecidableEq, Repr

/-- What `SetRecordingSampleRate`, `SetRecordingChannels` and `SetRecordedBuffer` are called with for one chunk. -/
structure Recorded where
  sampleRateHz : UInt32
  channels : UInt64
  samples : List Int16
  deriving DecidableEq, Repr

/-- The array behind the pointer that `PushSyntheticAudio` is given, of that many frames; no array is larger than
the address space. -/
structure Pcm (channels : UInt64) where
  samples : List Int16
  frames : UInt64
  sized : samples.length = frames.toNat * channels.toNat
  fits : samples.length < 2 ^ 64

namespace SwitchableAudioInput

/-- `StartSyntheticThreadLocked`. -/
def startSyntheticThreadLocked (x : SwitchableAudioInput) : SwitchableAudioInput :=
  if x.syntheticThreadRunning then x else { x with syntheticThreadRunning := true }

/-- `StopSyntheticThread`. -/
def stopSyntheticThread (x : SwitchableAudioInput) : SwitchableAudioInput := { x with syntheticThreadRunning := false }

/-- `UseMicrophone`. -/
def useMicrophone (x : SwitchableAudioInput) : SwitchableAudioInput :=
  if x.mode = .microphone then x
  else { x with mode := .microphone, syntheticSamples := [] }.stopSyntheticThread

/-- `UseSyntheticPcm`. -/
def useSyntheticPcm (x : SwitchableAudioInput) (sampleRateHz : UInt32) (channels : UInt64) : SwitchableAudioInput :=
  let x := { x with
    mode := .synthetic
    syntheticSampleRateHz := if sampleRateHz = 0 then kDefaultSyntheticSampleRateHz else sampleRateHz
    syntheticChannels := if channels = 0 then kDefaultSyntheticChannels else channels }
  if x.recordingRequested then x.startSyntheticThreadLocked else x

/-- `ClearSyntheticAudio`. -/
def clearSyntheticAudio (x : SwitchableAudioInput) : SwitchableAudioInput := { x with syntheticSamples := [] }

/-- The channels of a frame. -/
def channels (x : SwitchableAudioInput) : UInt64 := max 1 x.syntheticChannels

/-- `max_samples`. -/
def maxSamples (x : SwitchableAudioInput) : UInt64 :=
  (x.syntheticSampleRateHz.toUInt64 * x.channels * kMaxBufferedSyntheticMs) / 1000

/-- The samples that stay in the buffer when the oldest go. -/
def trim (maxSamples : ℕ) : List Int16 → List Int16
  | [] => []
  | s :: rest => if maxSamples < (s :: rest).length then trim maxSamples rest else s :: rest

/-- `PushSyntheticAudio`; `none` is a null pointer. -/
def pushSyntheticAudio (x : SwitchableAudioInput) (samples : Option (List Int16)) (frames : UInt64) :
    SwitchableAudioInput :=
  match samples with
  | none => x
  | some samples =>
    if frames = 0 then x
    else
      let totalSamples := frames * x.channels
      { x with
        syntheticSamples := trim x.maxSamples.toNat (x.syntheticSamples ++ samples.take totalSamples.toNat) }

/-- `StartRecording`. -/
def startRecording (x : SwitchableAudioInput) : SwitchableAudioInput :=
  let x := { x with recordingRequested := true }
  if x.mode = .synthetic then x.startSyntheticThreadLocked else x

/-- `StopRecording`. -/
def stopRecording (x : SwitchableAudioInput) : SwitchableAudioInput :=
  let x := { x with recordingRequested := false }
  if x.mode = .synthetic then x.stopSyntheticThread else x

/-- `Terminate`. -/
def terminate (x : SwitchableAudioInput) : SwitchableAudioInput :=
  { { x with recordingRequested := false }.stopSyntheticThread with syntheticSamples := [] }

/-- `SetSampleRate`. -/
def setSampleRate (x : SwitchableAudioInput) (sampleRate : UInt32) : SwitchableAudioInput :=
  if x.mode = .synthetic then { x with syntheticSampleRateHz := sampleRate } else x

/-- `samples_per_chunk`. -/
def samplesPerChunk (x : SwitchableAudioInput) : UInt64 := (x.syntheticSampleRateHz / 100).toUInt64 * x.channels

/-- The chunk of one iteration of `SyntheticLoop`, and the samples left behind. -/
def chunk (x : SwitchableAudioInput) : List Int16 × List Int16 :=
  let availableSamples := min x.samplesPerChunk.toNat x.syntheticSamples.length
  (x.syntheticSamples.take availableSamples ++ List.replicate (x.samplesPerChunk.toNat - availableSamples) 0,
    x.syntheticSamples.drop availableSamples)

/-- One iteration of `SyntheticLoop`, with what it hands to the audio buffer. -/
def syntheticLoop (x : SwitchableAudioInput) : SwitchableAudioInput × Option Recorded :=
  if x.syntheticThreadRunning then
    ({ x with syntheticSamples := x.chunk.2 },
      if x.audioBuffer then some ⟨x.syntheticSampleRateHz, x.channels, x.chunk.1⟩ else none)
  else (x, none)

end SwitchableAudioInput

/-! ### Recording -/

/-- What has been delivered, and where its samples are among those that were ever pushed. -/
structure Chunk where
  recorded : Recorded
  segment : Segment
  deriving DecidableEq, Repr

/-- The input, all samples that were pushed, and all chunks that were delivered. -/
structure Recording where
  input : SwitchableAudioInput := {}
  pushed : List Int16 := []
  chunks : List Chunk := []
  deriving DecidableEq, Repr

namespace Recording

/-- The calls on an input of `c` channels. -/
inductive Step (c : UInt64)
  | useMicrophone
  | useSyntheticPcm (sampleRateHz : UInt32)
  | clearSyntheticAudio
  | pushSyntheticAudio (pcm : Option (Pcm c))
  | attachAudioBuffer (audioBuffer : Bool)
  | startRecording
  | stopRecording
  | terminate
  | setSampleRate (sampleRate : UInt32)
  | syntheticLoop

variable {c : UInt64}

/-- An iteration of `SyntheticLoop`. -/
def iterate (x : Recording) : Recording :=
  { x with
    input := x.input.syntheticLoop.1
    chunks := x.chunks ++ x.input.syntheticLoop.2.toList.map fun r =>
      ⟨r, x.pushed.length - x.input.syntheticSamples.length,
        x.input.syntheticSamples.length - x.input.chunk.2.length⟩ }

def step (x : Recording) : Step c → Recording
  | .useMicrophone => { x with input := x.input.useMicrophone }
  | .useSyntheticPcm sampleRateHz => { x with input := x.input.useSyntheticPcm sampleRateHz c }
  | .clearSyntheticAudio => { x with input := x.input.clearSyntheticAudio }
  | .pushSyntheticAudio none => { x with input := x.input.pushSyntheticAudio none 0 }
  | .pushSyntheticAudio (some pcm) =>
    { x with
      input := x.input.pushSyntheticAudio (some pcm.samples) pcm.frames
      pushed := x.pushed ++ pcm.samples }
  | .attachAudioBuffer audioBuffer => { x with input := { x.input with audioBuffer := audioBuffer } }
  | .startRecording => { x with input := x.input.startRecording }
  | .stopRecording => { x with input := x.input.stopRecording }
  | .terminate => { x with input := x.input.terminate }
  | .setSampleRate sampleRate => { x with input := x.input.setSampleRate sampleRate }
  | .syntheticLoop => x.iterate

/-- An input of `c` channels on which nothing has been called. -/
def start (c : UInt64) : Recording := { input := { syntheticChannels := c } }

/-! ### What each call does to the buffer -/

end Recording

namespace SwitchableAudioInput

variable (x : SwitchableAudioInput)

@[simp] theorem startSyntheticThreadLocked_samples :
    x.startSyntheticThreadLocked.syntheticSamples = x.syntheticSamples := by
  unfold startSyntheticThreadLocked
  split_ifs <;> rfl

@[simp] theorem startSyntheticThreadLocked_channels :
    x.startSyntheticThreadLocked.syntheticChannels = x.syntheticChannels := by
  unfold startSyntheticThreadLocked
  split_ifs <;> rfl

/-- What is trimmed is the front. -/
theorem trim_eq (maxSamples : ℕ) (xs : List Int16) : trim maxSamples xs = xs.drop (xs.length - maxSamples) := by
  induction xs with
  | nil => rw [trim, List.drop_nil]
  | cons s rest ih =>
    unfold trim
    split_ifs with h
    · rw [ih, show (s :: rest).length - maxSamples = rest.length - maxSamples + 1 by simp at h ⊢; omega]
      rfl
    · rw [Nat.sub_eq_zero_of_le (Nat.le_of_not_lt h)]
      rfl

/-- The chunk is the front of the buffer, filled up with zeros. -/
theorem chunk_eq : x.chunk = (x.syntheticSamples.take x.samplesPerChunk.toNat ++
    List.replicate (x.samplesPerChunk.toNat - x.syntheticSamples.length) 0,
    x.syntheticSamples.drop x.samplesPerChunk.toNat) := by
  unfold chunk
  dsimp only
  rcases Nat.le_total x.samplesPerChunk.toNat x.syntheticSamples.length with h | h
  · rw [Nat.min_eq_left h, Nat.sub_self, Nat.sub_eq_zero_of_le h]
  · rw [Nat.min_eq_right h, List.take_length, List.drop_length, List.take_of_length_le h,
      List.drop_eq_nil_of_le h]

theorem length_chunk : x.chunk.1.length = x.samplesPerChunk.toNat := by
  rw [chunk_eq, List.length_append, List.length_take, List.length_replicate]
  omega

/-- A call leaves the samples and the channels alone. -/
def Keeps (x y : SwitchableAudioInput) : Prop :=
  y.syntheticSamples = x.syntheticSamples ∧ y.syntheticChannels = x.syntheticChannels

/-- A call empties the buffer and leaves the channels alone. -/
def Empties (x y : SwitchableAudioInput) : Prop :=
  y.syntheticSamples = [] ∧ y.syntheticChannels = x.syntheticChannels

theorem useMicrophone_cases : x.Keeps x.useMicrophone ∨ x.Empties x.useMicrophone := by
  unfold useMicrophone
  split_ifs
  · exact .inl ⟨rfl, rfl⟩
  · exact .inr ⟨rfl, rfl⟩

theorem startRecording_keeps : x.Keeps x.startRecording := by
  unfold startRecording
  dsimp only
  split_ifs
  · exact ⟨by simp, by simp⟩
  · exact ⟨rfl, rfl⟩

theorem stopRecording_keeps : x.Keeps x.stopRecording := by
  unfold stopRecording
  dsimp only
  split_ifs <;> exact ⟨rfl, rfl⟩

theorem setSampleRate_keeps (sampleRate : UInt32) : x.Keeps (x.setSampleRate sampleRate) := by
  unfold setSampleRate
  split_ifs <;> exact ⟨rfl, rfl⟩

/-- The channels are those that it is called with, or the default. -/
theorem useSyntheticPcm_eq (sampleRateHz : UInt32) (channels : UInt64) :
    (x.useSyntheticPcm sampleRateHz channels).syntheticSamples = x.syntheticSamples ∧
      (x.useSyntheticPcm sampleRateHz channels).syntheticChannels =
        if channels = 0 then kDefaultSyntheticChannels else channels := by
  unfold useSyntheticPcm
  dsimp only
  split_ifs <;> exact ⟨by simp, by simp⟩

section Channels

variable {x} {c : UInt64}

theorem product_fits {r c : ℕ} (hr : r < 2 ^ 32) (hfit : 2 ^ 32 * c * 4000 < 2 ^ 64) : r * c * 4000 < 2 ^ 64 :=
  (Nat.mul_le_mul_right _ (Nat.mul_le_mul_right _ hr.le)).trans_lt hfit

/-- No channel count that fits makes the product wrap around. -/
theorem maxSamples_toNat (hx : x.channels = c) (hfit : 2 ^ 32 * c.toNat * 4000 < 2 ^ 64) :
    x.maxSamples.toNat = 4 * x.syntheticSampleRateHz.toNat * c.toNat := by
  have hlt := product_fits x.syntheticSampleRateHz.toNat_lt hfit
  have hrates : (x.syntheticSampleRateHz.toUInt64 * c).toNat = x.syntheticSampleRateHz.toNat * c.toNat := by
    rw [UInt64.toNat_mul, UInt32.toNat_toUInt64]
    exact Nat.mod_eq_of_lt ((Nat.le_mul_of_pos_right _ (by decide)).trans_lt hlt)
  have hproduct : (x.syntheticSampleRateHz.toUInt64 * c * kMaxBufferedSyntheticMs).toNat =
      x.syntheticSampleRateHz.toNat * c.toNat * 4000 := by
    rw [UInt64.toNat_mul, hrates]
    exact Nat.mod_eq_of_lt hlt
  have hdiv : ∀ n : ℕ, n * 4000 / 1000 = 4 * n := fun n => by omega
  rw [maxSamples, hx, UInt64.toNat_div, hproduct, Nat.mul_assoc 4]
  exact hdiv _

theorem samplesPerChunk_toNat (hx : x.channels = c) (hfit : 2 ^ 32 * c.toNat * 4000 < 2 ^ 64) :
    x.samplesPerChunk.toNat = x.syntheticSampleRateHz.toNat / 100 * c.toNat := by
  have hlt := product_fits ((Nat.div_le_self _ 100).trans_lt x.syntheticSampleRateHz.toNat_lt) hfit
  unfold samplesPerChunk
  rw [hx, UInt64.toNat_mul, UInt32.toNat_toUInt64, UInt32.toNat_div]
  exact Nat.mod_eq_of_lt ((Nat.le_mul_of_pos_right _ (by decide)).trans_lt hlt)

end Channels

end SwitchableAudioInput

/-! ### The buffer as a pipe -/

theorem Pcm.aligned {c : UInt64} (pcm : Pcm c) : c.toNat ∣ pcm.samples.length :=
  ⟨pcm.frames.toNat, by rw [pcm.sized, Nat.mul_comm]⟩

/-- As many samples as the chunk's rate asks for: the run of pushed samples, and zeros behind them. -/
structure Chunk.Filled (k : Chunk) (c : UInt64) (pushed : List Int16) : Prop where
  length : k.recorded.samples.length = k.recorded.sampleRateHz.toNat / 100 * c.toNat
  samples : ∃ n, k.recorded.samples = k.segment.of pushed ++ List.replicate n 0

namespace Recording

variable {c : UInt64} {x : Recording} {p : Pipe Int16}

/-- The buffer is what is left in a pipe that everything pushed has entered and the chunks were delivered from;
it holds whole frames. -/
structure Sound (c : UInt64) (x : Recording) (p : Pipe Int16) : Prop where
  channels : x.input.syntheticChannels = c
  aligned : c.toNat ∣ x.input.syntheticSamples.length
  contents : p.contents = x.input.syntheticSamples
  entered : p.entered = x.pushed
  delivered : p.delivered = x.chunks.map Chunk.segment
  filled : ∀ k ∈ x.chunks, k.Filled c x.pushed

theorem sound_start (c : UInt64) : Sound c (start c) .empty :=
  ⟨rfl, Nat.dvd_zero _, rfl, rfl, rfl, by simp [start]⟩

theorem Sound.channels_eq (h : Sound c x p) (hc : 1 ≤ c) : x.input.channels = c := by
  rw [SwitchableAudioInput.channels, h.channels]
  exact if_pos hc

theorem Sound.keeps (h : Sound c x p) {y : SwitchableAudioInput} (hy : x.input.Keeps y) :
    Sound c { x with input := y } p :=
  ⟨hy.2.trans h.channels, by rw [hy.1]; exact h.aligned, h.contents.trans hy.1.symm, h.entered, h.delivered,
    h.filled⟩

theorem Sound.empties (h : Sound c x p) {y : SwitchableAudioInput} (hy : x.input.Empties y) :
    Sound c { x with input := y } (p.lose p.contents.length) := by
  refine ⟨hy.2.trans h.channels, by rw [hy.1]; exact Nat.dvd_zero _, ?_, h.entered, h.delivered, h.filled⟩
  rw [Pipe.contents_lose, List.drop_length]
  exact hy.1.symm

/-- **A push**: whole frames go in at the back, and whole frames are lost at the front. -/
theorem Sound.push (h : Sound c x p) (hc : 1 ≤ c) (hfit : 2 ^ 32 * c.toNat * 4000 < 2 ^ 64) (pcm : Pcm c) :
    (step x (.pushSyntheticAudio (some pcm))).input.syntheticSamples =
        if pcm.frames = 0 then x.input.syntheticSamples
        else (x.input.syntheticSamples ++ pcm.samples).drop
          ((x.input.syntheticSamples ++ pcm.samples).length - 4 * x.input.syntheticSampleRateHz.toNat * c.toNat) := by
  have hall : pcm.samples.take (pcm.frames * c).toNat = pcm.samples := by
    refine List.take_of_length_le (le_of_eq ?_)
    rw [UInt64.toNat_mul, ← pcm.sized]
    exact (Nat.mod_eq_of_lt pcm.fits).symm
  show (x.input.pushSyntheticAudio (some pcm.samples) pcm.frames).syntheticSamples = _
  unfold SwitchableAudioInput.pushSyntheticAudio
  dsimp only
  split_ifs with hframes
  · rfl
  · dsimp only
    rw [h.channels_eq hc, hall, SwitchableAudioInput.trim_eq,
      SwitchableAudioInput.maxSamples_toNat (h.channels_eq hc) hfit]

theorem sound_push (h : Sound c x p) (hc : 1 ≤ c) (hfit : 2 ^ 32 * c.toNat * 4000 < 2 ^ 64) (pcm : Pcm c) :
    ∃ p', Sound c (step x (.pushSyntheticAudio (some pcm))) p' := by
  have hpush := h.push hc hfit pcm
  have hchannels : (step x (.pushSyntheticAudio (some pcm))).input.syntheticChannels = c := by
    show (x.input.pushSyntheticAudio (some pcm.samples) pcm.frames).syntheticChannels = _
    unfold SwitchableAudioInput.pushSyntheticAudio
    dsimp only
    split_ifs <;> exact h.channels
  have hfilled : ∀ k ∈ x.chunks, k.Filled c (x.pushed ++ pcm.samples) := by
    intro k hk
    obtain ⟨hlength, n, hsamples⟩ := h.filled k hk
    refine ⟨hlength, n, ?_⟩
    have hof := p.of_put (g := k.segment) (by rw [h.delivered]; exact List.mem_map_of_mem hk) pcm.samples
    rw [Pipe.entered_put, h.entered] at hof
    rw [hof]
    exact hsamples
  by_cases hframes : pcm.frames = 0
  · -- nothing is pushed
    have hnil : pcm.samples = [] := List.eq_nil_of_length_eq_zero (by rw [pcm.sized, hframes]; exact Nat.zero_mul _)
    rw [if_pos hframes] at hpush
    refine ⟨p, hchannels, by rw [hpush]; exact h.aligned, h.contents.trans hpush.symm, ?_, h.delivered, hfilled⟩
    show p.entered = x.pushed ++ pcm.samples
    rw [hnil, List.append_nil]
    exact h.entered
  · rw [if_neg hframes] at hpush
    have hlength : c.toNat ∣ (x.input.syntheticSamples ++ pcm.samples).length := by
      rw [List.length_append]
      exact Nat.dvd_add h.aligned pcm.aligned
    refine ⟨(p.put pcm.samples).lose ((x.input.syntheticSamples ++ pcm.samples).length -
      4 * x.input.syntheticSampleRateHz.toNat * c.toNat), hchannels, ?_, ?_, ?_, h.delivered, hfilled⟩
    · rw [hpush, List.length_drop]
      exact Nat.dvd_sub hlength (Nat.dvd_sub hlength (Nat.dvd_mul_left _ _))
    · rw [hpush, Pipe.contents_lose, Pipe.contents_put, h.contents]
    · rw [Pipe.entered_lose, Pipe.entered_put, h.entered]
      rfl

/-- **An iteration**: a chunk of whole frames leaves at the front. -/
theorem sound_iterate (h : Sound c x p) (hc : 1 ≤ c) (hfit : 2 ^ 32 * c.toNat * 4000 < 2 ^ 64) :
    ∃ p', Sound c x.iterate p' := by
  have hn := SwitchableAudioInput.samplesPerChunk_toNat (h.channels_eq hc) hfit
  have hchunk := x.input.chunk_eq
  have haligned : c.toNat ∣ x.input.chunk.2.length := by
    rw [hchunk, List.length_drop, hn]
    exact Nat.dvd_sub h.aligned (Nat.dvd_mul_left _ _)
  unfold iterate SwitchableAudioInput.syntheticLoop
  by_cases hrunning : x.input.syntheticThreadRunning = true
  swap
  · rw [if_neg hrunning]
    refine ⟨p, h.channels, h.aligned, h.contents, h.entered, ?_, ?_⟩
    · simpa using h.delivered
    · simpa using h.filled
  rw [if_pos hrunning]
  by_cases hbuffer : x.input.audioBuffer = true
  · rw [if_pos hbuffer]
    have hsegment : p.next x.input.samplesPerChunk.toNat = ⟨x.pushed.length - x.input.syntheticSamples.length,
        x.input.syntheticSamples.length - x.input.chunk.2.length⟩ := by
      have hle := p.left_le
      rw [Pipe.next, hchunk, ← h.contents, ← h.entered, Pipe.contents]
      simp only [List.length_drop, Segment.mk.injEq]
      omega
    refine ⟨p.deliver x.input.samplesPerChunk.toNat, h.channels, haligned, ?_, h.entered, ?_, ?_⟩
    · rw [Pipe.contents_deliver, h.contents, hchunk]
    · show p.delivered ++ [_] = _
      rw [h.delivered, hsegment]
      simp
    · intro k hk
      rcases List.mem_append.mp hk with hk | hk
      · exact h.filled k hk
      · obtain rfl := List.mem_singleton.mp hk
        refine ⟨x.input.length_chunk.trans hn, x.input.samplesPerChunk.toNat - x.input.syntheticSamples.length, ?_⟩
        dsimp only
        rw [← hsegment, ← h.entered, Pipe.next_of, h.contents, hchunk]
  · -- without an audio buffer the chunk is lost
    rw [if_neg hbuffer]
    refine ⟨p.lose x.input.samplesPerChunk.toNat, h.channels, haligned, ?_, h.entered, ?_, ?_⟩
    · rw [Pipe.contents_lose, h.contents, hchunk]
    · show p.delivered = _
      simpa using h.delivered
    · simpa using h.filled

theorem sound_step (h : Sound c x p) (hc : 1 ≤ c) (hfit : 2 ^ 32 * c.toNat * 4000 < 2 ^ 64) (i : Step c) :
    ∃ p', Sound c (step x i) p' := by
  cases i with
  | useMicrophone =>
    rcases x.input.useMicrophone_cases with hy | hy
    · exact ⟨_, h.keeps hy⟩
    · exact ⟨_, h.empties hy⟩
  | useSyntheticPcm sampleRateHz =>
    obtain ⟨hsamples, hchannels⟩ := x.input.useSyntheticPcm_eq sampleRateHz c
    have hne : c ≠ 0 := by
      rintro rfl
      exact absurd hc (by decide)
    rw [if_neg hne] at hchannels
    exact ⟨_, h.keeps ⟨hsamples, hchannels.trans h.channels.symm⟩⟩
  | clearSyntheticAudio => exact ⟨_, h.empties ⟨rfl, rfl⟩⟩
  | pushSyntheticAudio pcm =>
    cases pcm with
    | none => exact ⟨_, h.keeps ⟨rfl, rfl⟩⟩
    | some pcm => exact sound_push h hc hfit pcm
  | attachAudioBuffer audioBuffer => exact ⟨_, h.keeps ⟨rfl, rfl⟩⟩
  | startRecording => exact ⟨_, h.keeps x.input.startRecording_keeps⟩
  | stopRecording => exact ⟨_, h.keeps x.input.stopRecording_keeps⟩
  | terminate => exact ⟨_, h.empties ⟨rfl, rfl⟩⟩
  | setSampleRate sampleRate => exact ⟨_, h.keeps (x.input.setSampleRate_keeps sampleRate)⟩
  | syntheticLoop => exact sound_iterate h hc hfit

theorem sound_run (hc : 1 ≤ c) (hfit : 2 ^ 32 * c.toNat * 4000 < 2 ^ 64) (l : List (Step c)) :
    ∃ p, Sound c (run step (start c) l) p :=
  run_invariant' (P := fun x => ∃ p, Sound c x p) (fun _ i h => h.elim fun _ h => sound_step h hc hfit i)
    ⟨_, sound_start c⟩ l

/-- What is required of the buffer and of the chunks. -/
structure Orderly (c : UInt64) (x : Recording) : Prop where
  bounded : ∀ pcm : Pcm c, pcm.frames ≠ 0 →
    (step x (.pushSyntheticAudio (some pcm))).input.syntheticSamples.length ≤
      4 * x.input.syntheticSampleRateHz.toNat * c.toNat
  aligned : c.toNat ∣ x.input.syntheticSamples.length
  suffix : x.input.syntheticSamples <:+ x.pushed
  filled : ∀ k ∈ x.chunks, k.Filled c x.pushed
  inOrder : Segment.InOrder (x.chunks.map Chunk.segment)
  once : ((x.chunks.map Chunk.segment).flatMap fun g => g.of x.pushed).Sublist x.pushed
  front : x.input.chunk.1 = x.input.syntheticSamples.take (x.input.syntheticSampleRateHz.toNat / 100 * c.toNat) ++
      List.replicate (x.input.syntheticSampleRateHz.toNat / 100 * c.toNat - x.input.syntheticSamples.length) 0 ∧
    x.input.chunk.2 = x.input.syntheticSamples.drop (x.input.syntheticSampleRateHz.toNat / 100 * c.toNat)

/-- **The buffer is bounded, aligned and a suffix of what was pushed**, and every chunk is the next samples and
zeros, each sample at most once and in order. -/
theorem synthetic_audio {c : UInt64} (hc : 1 ≤ c) (hfit : 2 ^ 32 * c.toNat * 4000 < 2 ^ 64) (l : List (Step c)) :
    Orderly c (run step (start c) l) := by
  obtain ⟨p, h⟩ := sound_run hc hfit l
  have hn := SwitchableAudioInput.samplesPerChunk_toNat (h.channels_eq hc) hfit
  refine ⟨fun pcm hframes => ?_, h.aligned, ?_, h.filled, ?_, ?_, ?_⟩
  · rw [h.push hc hfit pcm, if_neg hframes, List.length_drop]
    omega
  · rw [← h.contents, ← h.entered]
    exact p.contents_suffix
  · rw [← h.delivered]
    exact p.inOrder
  · rw [← h.delivered, ← h.entered]
    exact p.delivered_sublist
  · rw [← hn, SwitchableAudioInput.chunk_eq]
    exact ⟨rfl, rfl⟩

/-- One frame is pushed, and delivered at a rate at which a chunk is two frames. -/
def oneFrame : Pcm 2 where
  samples := [7, 8]
  frames := 1
  sized := by decide
  fits := by decide

def shortChunk : List (Step 2) :=
  [.useSyntheticPcm 200, .attachAudioBuffer true, .startRecording, .pushSyntheticAudio (some oneFrame), .syntheticLoop]

theorem short_chunk_is_filled : Orderly 2 (run step (start 2) shortChunk) :=
  synthetic_audio (by decide) (by decide) shortChunk

example : (run step (start 2) shortChunk).chunks = [⟨⟨200, 2, [7, 8, 0, 0]⟩, ⟨0, 2⟩⟩] := by decide

end Recording

end PeerCall.WebRTC
