import PeerCall.Lib.Latest
import PeerCall.Engine.VideoRenderer

/-!
# Engine.Screen — from `OnFrame` to the texture

The renderer keeps one frame.  The UI thread takes it with `ConsumeLatestFrame`, in a round of its own, and copies it
row by row into a texture of that size, as far as Direct3D lets it.  The threads are those of `VideoRenderer`.

* `frames_in_order`: **the UI gets the frames in the order in which they were made, each once, and the last one**.
* `texture_shows_latest`: **the texture holds one whole frame**, and if Direct3D does not fail, the last one.
* `stopped_shows_nothing`: **after `Stop` there is no picture**, whatever was on its way, until a track is set.
-/

namespace PeerCall.WebRTC

open PeerCall.Lib

/-- How the calls of Direct3D come out; `device`: there is a device with its context. -/
structure Direct3D where
  device : Bool := true
  createTexture2D : Bool := true
  createShaderResourceView : Bool := true
  map : Bool := true
  deriving DecidableEq, Repr

/-- `SdlApp::VideoTexture`; `texture`: a texture has been created, with the picture that has been copied into it. -/
structure VideoTexture where
  width : ℤ := 0
  height : ℤ := 0
  texture : Option (Option (List UInt8)) := none
  deriving DecidableEq, Repr

namespace VideoTexture

/-- The bytes that are copied, row by row. -/
def rows (frame : RenderedFrame) : List UInt8 :=
  let stride := (frame.width * 4).toNat
  (List.range frame.height.toNat).flatMap fun row => (frame.pixels.drop (row * stride)).take stride

/-- `UpdateVideoTexture`, with the frame that it has taken. -/
def update (t : VideoTexture) (d : Direct3D) (frame : RenderedFrame) : VideoTexture :=
  if d.device = false then t
  else if frame.width ≤ 0 ∨ frame.height ≤ 0 ∨ frame.pixels = [] then {}
  else
    let fill (t : VideoTexture) : VideoTexture := if d.map then { t with texture := some (some (rows frame)) } else t
    if t.texture = none ∨ t.width ≠ frame.width ∨ t.height ≠ frame.height then
      if d.createTexture2D ∧ d.createShaderResourceView then
        fill { width := frame.width, height := frame.height, texture := some none }
      else {}
    else fill t

end VideoTexture

/-- The renderer and the UI thread that polls it; `made`: all frames that the renderer has had; `shown`: how many of
the answers of `ConsumeLatestFrame` have been dealt with. -/
structure Screen where
  renderer : VideoRenderer := {}
  made : List RenderedFrame := []
  shown : ℕ := 0
  texture : VideoTexture := {}

namespace Screen

/-- A thread of the renderer goes on, or the UI thread deals with the next answer. -/
inductive Step
  | renderer (i : RendererStep)
  | update (d : Direct3D)
  deriving DecidableEq, Repr

def step (s : Screen) : Step → Screen
  | .renderer i =>
    let x := s.renderer.step i
    { s with
      renderer := x
      made := if x.nextFrameId = s.renderer.nextFrameId then s.made else s.made ++ [x.latestFrame] }
  | .update d =>
    match s.renderer.consumed[s.shown]? with
    | none => s
    | some answer =>
      { s with shown := s.shown + 1, texture := answer.elim s.texture (s.texture.update d) }

/-- The frames that the UI has got. -/
def taken (x : VideoRenderer) : List RenderedFrame := x.consumed.reduceOption

end Screen

/-! ### What a step does to the frame -/

namespace VideoRenderer

/-- The frame, the flag and the counter are those of `x`. -/
structure SameFrame (x y : VideoRenderer) : Prop where
  latestFrame : y.latestFrame = x.latestFrame
  frameDirty : y.frameDirty = x.frameDirty
  nextFrameId : y.nextFrameId = x.nextFrameId
  consumed : y.consumed = x.consumed

/-- **Everything a step can do to the frame**: nothing, put another one over it, or take it. -/
inductive Moves (x : VideoRenderer) : VideoRenderer → Prop
  | same {y : VideoRenderer} (h : SameFrame x y) : Moves x y
  | put {y : VideoRenderer} (frame : RenderedFrame)
    (source : frame = {} ∨ ∃ n track, x.place n = .rendering track frame)
    (latestFrame : y.latestFrame = { frame with frameId := x.nextFrameId }) (frameDirty : y.frameDirty = true)
    (nextFrameId : y.nextFrameId = x.nextFrameId + 1) (consumed : y.consumed = x.consumed) : Moves x y
  | take {y : VideoRenderer} (hdirty : x.frameDirty = true) (latestFrame : y.latestFrame = x.latestFrame)
    (frameDirty : y.frameDirty = false) (nextFrameId : y.nextFrameId = x.nextFrameId)
    (consumed : y.consumed = x.consumed ++ [some x.latestFrame]) : Moves x y
  | miss {y : VideoRenderer} (hclean : x.frameDirty = false) (latestFrame : y.latestFrame = x.latestFrame)
    (frameDirty : y.frameDirty = false) (nextFrameId : y.nextFrameId = x.nextFrameId)
    (consumed : y.consumed = x.consumed ++ [none]) : Moves x y

theorem moves_finishCall {x y : VideoRenderer} (hxy : SameFrame x y) (n : ℕ) (c : RendererCall) :
    Moves x (y.finishCall n c) := by
  obtain ⟨hl, hd, hi, hc⟩ := hxy
  cases c with
  | setVideoTrack track => cases track <;> exact .same ⟨hl, hd, hi, hc⟩
  | stop =>
    refine .put {} (.inl rfl) ?_ rfl (congrArg (· + 1) hi) hc
    simp [finishCall, goTo, blank, hi]
  | clear =>
    refine .put {} (.inl rfl) ?_ rfl (congrArg (· + 1) hi) hc
    simp [finishCall, goTo, blank, hi]
  | consumeLatestFrame =>
    simp only [finishCall]
    split_ifs with hdirty
    · exact .take (hd.symm.trans hdirty) hl rfl hi (by simp [goTo, hc, hl])
    · rw [Bool.not_eq_true] at hdirty
      exact .miss (hd.symm.trans hdirty) hl hdirty hi (by simp [goTo, hc])

theorem moves_startCall {x y : VideoRenderer} (hxy : SameFrame x y) (n : ℕ) (c : RendererCall) :
    Moves x (y.startCall n c) := by
  unfold startCall
  split
  · exact moves_finishCall hxy n c
  · split_ifs
    · exact .same ⟨hxy.latestFrame, hxy.frameDirty, hxy.nextFrameId, hxy.consumed⟩
    · exact moves_finishCall hxy n c

theorem moves_step (x : VideoRenderer) (i : RendererStep) : Moves x (x.step i) := by
  cases i with
  | call n c =>
    simp only [step]
    split_ifs <;> exact .same ⟨rfl, rfl, rfl, rfl⟩
  | frame n track picture =>
    simp only [step]
    split_ifs <;> exact .same ⟨rfl, rfl, rfl, rfl⟩
  | go n =>
    simp only [step, go]
    split
    case h_2 c hp =>
      split_ifs
      · exact moves_startCall (x := x) (y := { x with mutex := some n }) ⟨rfl, rfl, rfl, rfl⟩ n c
      · exact .same ⟨rfl, rfl, rfl, rfl⟩
    case h_4 c track hp =>
      exact moves_finishCall (x := x) (y := { x with sinkLock := Function.update x.sinkLock track none })
        ⟨rfl, rfl, rfl, rfl⟩ n c
    case h_10 track frame hp =>
      split_ifs
      · exact .put frame (.inr ⟨n, track, hp⟩) rfl rfl rfl rfl
      · exact .same ⟨rfl, rfl, rfl, rfl⟩
    all_goals first
      | exact .same ⟨rfl, rfl, rfl, rfl⟩
      | split_ifs <;> exact .same ⟨rfl, rfl, rfl, rfl⟩

end VideoRenderer

/-! ### The frames on their way -/

/-- The frame that the thread carries to `OnFrame`. -/
def Place.frame : Place → Option RenderedFrame
  | .broadcasting _ frame | .delivering _ frame | .rendering _ frame => some frame
  | _ => none

namespace VideoRenderer

/-- A thread goes on with the frame that it had, or with none. -/
theorem goTo_frame {x y : VideoRenderer} {n m : ℕ} {p : Place} {frame : RenderedFrame} (hy : y.place = x.place)
    (hp : ∀ f, p.frame = some f → (x.place n).frame = some f) (h : ((y.goTo n p).place m).frame = some frame) :
    (x.place m).frame = some frame := by
  simp only [goTo, hy, Function.update_apply] at h
  split_ifs at h with he
  · rw [he]
    exact hp frame h
  · exact h

theorem finishCall_frame {x y : VideoRenderer} {n m : ℕ} {c : RendererCall} {frame : RenderedFrame}
    (hy : y.place = x.place) (h : ((y.finishCall n c).place m).frame = some frame) :
    (x.place m).frame = some frame := by
  cases c with
  | setVideoTrack track => cases track <;> exact goTo_frame hy (by simp [Place.frame]) h
  | stop => exact goTo_frame hy (by simp [Place.frame]) h
  | clear => exact goTo_frame hy (by simp [Place.frame]) h
  | consumeLatestFrame =>
    simp only [finishCall] at h
    split_ifs at h <;> exact goTo_frame hy (by simp [Place.frame]) h

/-- A frame on its way has been delivered by this step, or was on its way before. -/
theorem step_frame {x : VideoRenderer} {i : RendererStep} {m : ℕ} {frame : RenderedFrame}
    (h : ((x.step i).place m).frame = some frame) :
    (∃ n track, i = .frame n track frame) ∨ (x.place m).frame = some frame := by
  cases i with
  | call n c =>
    simp only [step] at h
    split_ifs at h
    · exact .inr (goTo_frame rfl (by simp [Place.frame]) h)
    · exact .inr h
  | frame n track picture =>
    simp only [step] at h
    split_ifs at h
    · simp only [goTo, Function.update_apply] at h
      split_ifs at h
      · obtain rfl : picture = frame := Option.some.inj h
        exact .inl ⟨n, track, rfl⟩
      · exact .inr h
    · exact .inr h
  | go n =>
    refine .inr ?_
    simp only [step, go] at h
    split at h
    case h_1 => exact h
    case h_2 c hp =>
      split_ifs at h
      · unfold startCall at h
        split at h
        · exact finishCall_frame (by rfl) h
        · split_ifs at h
          · exact goTo_frame rfl (by simp [Place.frame]) h
          · exact finishCall_frame (by rfl) h
      · exact h
    case h_4 c track hp => exact finishCall_frame (by rfl) h
    case h_6 track hp => exact goTo_frame rfl (by simp [Place.frame]) h
    case h_7 hp => exact goTo_frame rfl (by simp [Place.frame]) h
    case h_9 track frame hp => split_ifs at h <;> exact goTo_frame rfl (by simp [Place.frame, hp]) h
    case h_11 track hp => exact goTo_frame rfl (by simp [Place.frame]) h
    case h_12 track hp => exact goTo_frame rfl (by simp [Place.frame]) h
    all_goals
      -- the thread waits for a lock, or takes it
      rename_i hp
      split_ifs at h
      · exact goTo_frame rfl (by simp [Place.frame, hp]) h
      · exact h

end VideoRenderer

namespace Screen

/-! ### The order of the frames -/

/-- What the UI has got is what was made, and the frames are numbered as they were made. -/
structure Sound (s : Screen) : Prop where
  handed : Handed s.made (taken s.renderer) s.renderer.latestFrame s.renderer.frameDirty
  numbered : ∀ k frame, s.made[k]? = some frame → frame.frameId = UInt64.ofNat (k + 1)
  next : s.renderer.nextFrameId = UInt64.ofNat (s.made.length + 1)

theorem succ_ne (k : UInt64) : k + 1 ≠ k := by
  intro h
  have hn := congrArg UInt64.toNat h
  have hlt := k.toNat_lt
  simp only [UInt64.toNat_add, UInt64.reduceToNat] at hn
  omega

theorem taken_concat {x y : VideoRenderer} {answer : Option RenderedFrame}
    (h : y.consumed = x.consumed ++ [answer]) : taken y = taken x ++ answer.toList := by
  cases answer <;> simp [taken, h, List.reduceOption]

/-- A step of the renderer. -/
theorem Sound.renderer {s : Screen} (h : Sound s) (i : RendererStep) : Sound (s.step (.renderer i)) := by
  simp only [step]
  cases s.renderer.moves_step i with
  | same hsame =>
    have htaken : taken (s.renderer.step i) = taken s.renderer := by simp only [taken, hsame.consumed]
    rw [if_pos hsame.nextFrameId]
    refine ⟨?_, h.numbered, hsame.nextFrameId.trans h.next⟩
    simp only [htaken, hsame.latestFrame, hsame.frameDirty]
    exact h.handed
  | put frame source latestFrame frameDirty nextFrameId consumed =>
    have htaken : taken (s.renderer.step i) = taken s.renderer := by simp only [taken, consumed]
    rw [if_neg (by rw [nextFrameId]; exact succ_ne _)]
    refine ⟨?_, fun k f hk => ?_, ?_⟩
    · simp only [htaken, frameDirty]
      exact h.handed.put _
    · simp only [List.getElem?_append, List.getElem?_singleton] at hk
      split_ifs at hk with hlt heq
      · exact h.numbered k f hk
      · obtain rfl := Option.some.inj hk
        have hk : k = s.made.length := by omega
        rw [latestFrame, hk]
        exact h.next
    · simp only [nextFrameId, h.next, List.length_append, List.length_singleton]
      apply UInt64.toNat_inj.mp
      simp
  | take hdirty latestFrame frameDirty nextFrameId consumed =>
    rw [if_pos nextFrameId]
    refine ⟨?_, h.numbered, nextFrameId.trans h.next⟩
    have hhanded := h.handed
    rw [hdirty] at hhanded
    simp only [taken_concat consumed, latestFrame, frameDirty]
    exact hhanded.take
  | miss hclean latestFrame frameDirty nextFrameId consumed =>
    rw [if_pos nextFrameId]
    refine ⟨?_, h.numbered, nextFrameId.trans h.next⟩
    simp only [taken_concat consumed, latestFrame, frameDirty, Option.toList_none, List.append_nil]
    rw [← hclean]
    exact h.handed

theorem sound_step (s : Screen) (i : Step) (h : Sound s) : Sound (s.step i) := by
  cases i with
  | renderer i => exact h.renderer i
  | update d =>
    simp only [step]
    split
    · exact h
    · exact ⟨h.handed, h.numbered, h.next⟩

theorem sound_init : Sound {} := ⟨.start _, fun k frame hk => by simp at hk, rfl⟩

/-- **The UI gets the frames in the order in which they were made, each at most once, and never an old one for the
last**: whatever the threads of the renderer do, the frames that `ConsumeLatestFrame` has returned are some of those
that were made, in their order; if there is nothing new, the last one that it has returned is the last that was made,
else that is the one it returns next.  The frames are numbered as they were made. -/
theorem frames_in_order (l : List Step) :
    let s := run step {} l
    (taken s.renderer).Sublist s.made ∧
      (s.renderer.frameDirty = false → (taken s.renderer).getLast? = s.made.getLast?) ∧
      (s.renderer.frameDirty = true → s.made.getLast? = some s.renderer.latestFrame) ∧
      ∀ k frame, s.made[k]? = some frame → frame.frameId = UInt64.ofNat (k + 1) := by
  intro s
  have h : Sound s := run_invariant' (P := Sound) sound_step sound_init l
  refine ⟨h.handed.order, h.handed.last, fun hdirty => ?_, h.numbered⟩
  obtain ⟨m, hm, -⟩ := h.handed.fresh hdirty
  rw [hm, List.getLast?_concat]

/-! ### The picture in the texture -/

end Screen

/-- A frame as `OnFrame` makes it: four bytes for a pixel. -/
def RenderedFrame.Sized (frame : RenderedFrame) : Prop :=
  0 ≤ frame.width ∧ 0 ≤ frame.height ∧ frame.pixels.length = (frame.width * frame.height * 4).toNat

instance (frame : RenderedFrame) : Decidable frame.Sized := inferInstanceAs (Decidable (_ ∧ _))

namespace VideoTexture

/-- The texture for a frame, the picture and all; there is none for an empty frame. -/
def of : Option RenderedFrame → VideoTexture
  | none => {}
  | some frame =>
    if frame.pixels = [] then {}
    else { width := frame.width, height := frame.height, texture := some (some frame.pixels) }

theorem flatMap_rows (stride n : ℕ) (px : List UInt8) :
    (List.range n).flatMap (fun row => (px.drop (row * stride)).take stride) = px.take (n * stride) := by
  induction n with
  | zero => simp
  | succ n ih =>
    rw [List.range_succ, List.flatMap_append, ih, Nat.succ_mul, List.take_add]
    simp

/-- The rows are the picture. -/
theorem rows_eq {frame : RenderedFrame} (h : frame.Sized) : rows frame = frame.pixels := by
  obtain ⟨hw, hh, hlen⟩ := h
  have hsize : frame.height.toNat * (frame.width * 4).toNat = frame.pixels.length := by
    rw [hlen, ← Int.toNat_mul hh (by omega)]
    congr 1
    ring
  simp only [rows, flatMap_rows, hsize, List.take_length]

/-- An empty frame is one with no picture. -/
theorem empty_iff {frame : RenderedFrame} (h : frame.Sized) :
    frame.width ≤ 0 ∨ frame.height ≤ 0 ∨ frame.pixels = [] ↔ frame.pixels = [] := by
  obtain ⟨hw, hh, hlen⟩ := h
  refine ⟨?_, fun he => .inr (.inr he)⟩
  rintro (hz | hz | he)
  · obtain hz : frame.width = 0 := le_antisymm hz hw
    rw [hz] at hlen
    exact List.length_eq_zero_iff.mp (by simpa using hlen)
  · obtain hz : frame.height = 0 := le_antisymm hz hh
    rw [hz] at hlen
    exact List.length_eq_zero_iff.mp (by simpa using hlen)
  · exact he

/-- Direct3D does not fail. -/
theorem update_works (t : VideoTexture) {frame : RenderedFrame} (h : frame.Sized) :
    t.update {} frame = of (some frame) := by
  simp only [update, of, empty_iff h, rows_eq h, Bool.true_eq_false, if_false, and_self, if_true]
  split_ifs with hempty hnew
  · rfl
  · rfl
  · simp only [not_or, not_not] at hnew
    simp [hnew.2.1, hnew.2.2]

/-- Whatever comes of Direct3D's calls: the picture is the one of the frame, or the one that was there. -/
theorem update_picture (t : VideoTexture) (d : Direct3D) {frame : RenderedFrame} (h : frame.Sized) {px : List UInt8}
    (hpx : (t.update d frame).texture = some (some px)) :
    (px = frame.pixels ∧ (t.update d frame).width = frame.width ∧ (t.update d frame).height = frame.height) ∨
      t.update d frame = t := by
  simp only [update, rows_eq h] at hpx ⊢
  split_ifs at hpx ⊢ with hdevice hempty hnew
  · exact .inr rfl
  · exact .inl ⟨(Option.some.inj (Option.some.inj hpx)).symm, rfl, rfl⟩
  · cases hpx
  · simp only [not_or, not_not] at hnew
    exact .inl ⟨(Option.some.inj (Option.some.inj hpx)).symm, hnew.2.1, hnew.2.2⟩
  · exact .inr rfl

end VideoTexture

namespace Screen

/-- A frame is delivered as `OnFrame` makes it. -/
def Step.Sized : Step → Prop
  | .renderer (.frame _ _ picture) => picture.Sized
  | _ => True

instance (i : Step) : Decidable i.Sized := by unfold Step.Sized; split <;> infer_instance

/-- Direct3D does not fail. -/
def Step.Works : Step → Prop
  | .update d => d = {}
  | _ => True

instance (i : Step) : Decidable i.Works := by unfold Step.Works; split <;> infer_instance

/-- What is in the texture, and what comes next; `lucky`: Direct3D has not failed. -/
structure Showing (lucky : Prop) (s : Screen) : Prop where
  sound : Sound s
  carried : ∀ n frame, (s.renderer.place n).frame = some frame → frame.Sized
  sized : ∀ frame ∈ s.made, frame.Sized
  whole : ∀ px, s.texture.texture = some (some px) →
    ∃ frame ∈ s.made, px = frame.pixels ∧ s.texture.width = frame.width ∧ s.texture.height = frame.height
  behind : s.shown ≤ s.renderer.consumed.length
  latest : lucky → s.texture = .of (s.renderer.consumed.take s.shown).reduceOption.getLast?

theorem Showing.renderer {lucky : Prop} {s : Screen} (h : Showing lucky s) {i : RendererStep}
    (hi : (Step.renderer i).Sized) : Showing lucky (s.step (.renderer i)) := by
  have hmoves := s.renderer.moves_step i
  -- the list of answers only grows
  have hgrows : ∃ more, (s.renderer.step i).consumed = s.renderer.consumed ++ more := by
    cases hmoves with
    | same hsame => exact ⟨[], by simp [hsame.consumed]⟩
    | put frame source latestFrame frameDirty nextFrameId consumed => exact ⟨[], by simp [consumed]⟩
    | take hdirty latestFrame frameDirty nextFrameId consumed => exact ⟨_, consumed⟩
    | miss hclean latestFrame frameDirty nextFrameId consumed => exact ⟨_, consumed⟩
  have hmade : ∀ frame ∈ (s.step (.renderer i)).made, frame ∈ s.made ∨ frame.Sized := by
    intro frame hframe
    simp only [step] at hframe
    cases hmoves with
    | same hsame =>
      rw [if_pos hsame.nextFrameId] at hframe
      exact .inl hframe
    | put picture source latestFrame frameDirty nextFrameId consumed =>
      rw [if_neg (by rw [nextFrameId]; exact succ_ne _), List.mem_append, List.mem_singleton] at hframe
      refine hframe.imp_right fun he => ?_
      rw [he, latestFrame]
      rcases source with rfl | ⟨n, track, hn⟩
      · simp [RenderedFrame.Sized]
      · exact h.carried n picture (by rw [hn]; rfl)
    | take hdirty latestFrame frameDirty nextFrameId consumed =>
      rw [if_pos nextFrameId] at hframe
      exact .inl hframe
    | miss hclean latestFrame frameDirty nextFrameId consumed =>
      rw [if_pos nextFrameId] at hframe
      exact .inl hframe
  have hkept : ∀ frame ∈ s.made, frame ∈ (s.step (.renderer i)).made := by
    intro frame hframe
    simp only [step]
    split_ifs
    · exact hframe
    · exact List.mem_append_left _ hframe
  obtain ⟨more, hmore⟩ := hgrows
  refine ⟨h.sound.renderer i, fun n frame hn => ?_, fun frame hframe => ?_, fun px hpx => ?_, ?_, fun hl => ?_⟩
  · rcases VideoRenderer.step_frame hn with ⟨m, track, rfl⟩ | hn
    · exact hi
    · exact h.carried n frame hn
  · exact (hmade frame hframe).elim (h.sized frame) id
  · obtain ⟨frame, hframe, hshows⟩ := h.whole px hpx
    exact ⟨frame, hkept frame hframe, hshows⟩
  · simp only [step, hmore, List.length_append]
    exact h.behind.trans (Nat.le_add_right _ _)
  · simp only [step, hmore, List.take_append_of_le_length h.behind]
    exact h.latest hl

theorem Showing.update {lucky : Prop} {s : Screen} (h : Showing lucky s) {d : Direct3D} (hd : lucky → d = {}) :
    Showing lucky (s.step (.update d)) := by
  simp only [step]
  split
  · exact h
  · rename_i answer hanswer
    have hlt : s.shown < s.renderer.consumed.length := (List.getElem?_eq_some_iff.mp hanswer).1
    have htake : (s.renderer.consumed.take (s.shown + 1)).reduceOption =
        (s.renderer.consumed.take s.shown).reduceOption ++ answer.toList := by
      rw [List.take_add_one, hanswer]
      cases answer <;> simp [List.reduceOption]
    cases answer with
    | none =>
      refine ⟨⟨h.sound.handed, h.sound.numbered, h.sound.next⟩, h.carried, h.sized, h.whole, hlt, fun hl => ?_⟩
      simp only [htake, Option.elim_none, Option.toList_none, List.append_nil]
      exact h.latest hl
    | some frame =>
      have hmade : frame ∈ s.made := by
        refine h.sound.handed.order.subset ?_
        simp only [taken, List.reduceOption_mem_iff]
        exact List.mem_of_getElem? hanswer
      have hsized := h.sized frame hmade
      refine ⟨⟨h.sound.handed, h.sound.numbered, h.sound.next⟩, h.carried, h.sized, fun px hpx => ?_, hlt, fun hl => ?_⟩
      · rcases VideoTexture.update_picture s.texture d hsized hpx with ⟨hp, hw, hh⟩ | hsame
        · exact ⟨frame, hmade, hp, hw, hh⟩
        · simp only [Option.elim_some, hsame] at hpx ⊢
          exact h.whole px hpx
      · obtain rfl := hd hl
        simp only [htake, Option.elim_some, Option.toList_some, List.getLast?_concat]
        exact VideoTexture.update_works s.texture hsized

theorem showing_step {lucky : Prop} (s : Screen) (i : Step) (h : Showing lucky s)
    (hi : i.Sized ∧ (lucky → i.Works)) : Showing lucky (s.step i) := by
  cases i with
  | renderer i => exact h.renderer hi.1
  | update d => exact h.update hi.2

theorem showing_init (lucky : Prop) : Showing lucky {} := by
  refine ⟨sound_init, fun n frame hn => ?_, fun frame hframe => ?_, fun px hpx => ?_, le_rfl, fun _ => rfl⟩
  · cases hn
  · cases hframe
  · cases hpx

theorem showing_run {l : List Step} (hl : ∀ i ∈ l, i.Sized) : Showing (∀ i ∈ l, i.Works) (run step {} l) :=
  have hok : Meets step (fun _ i => i.Sized ∧ ((∀ i ∈ l, i.Works) → i.Works)) {} l :=
    meets_of_forall _ fun i hi => ⟨hl i hi, fun hworks => hworks i hi⟩
  run_invariant showing_step (showing_init _) hok

/-- The UI has dealt with all that it has got, and there is nothing new. -/
def UpToDate (s : Screen) : Prop := s.shown = s.renderer.consumed.length ∧ s.renderer.frameDirty = false

instance (s : Screen) : Decidable s.UpToDate := inferInstanceAs (Decidable (_ ∧ _))

theorem Showing.texture_eq {lucky : Prop} {s : Screen} (h : Showing lucky s) (hl : lucky) (hs : s.UpToDate) :
    s.texture = .of s.made.getLast? := by
  rw [h.latest hl, hs.1, List.take_length]
  exact congrArg _ (h.sound.handed.last hs.2)

/-- **The texture holds one whole frame, and if Direct3D does not fail, the last one.**  Whatever the threads do and
whatever comes of the calls of Direct3D, the picture in the texture is that of one frame that was made, and the texture
has its size; and if none of them fails, it is the last frame that was made, whenever the UI is up to date. -/
theorem texture_shows_latest (l : List Step) (hl : ∀ i ∈ l, i.Sized) :
    let s := run step {} l
    (∀ px, s.texture.texture = some (some px) →
      ∃ frame ∈ s.made, px = frame.pixels ∧ s.texture.width = frame.width ∧ s.texture.height = frame.height) ∧
    ((∀ i ∈ l, i.Works) → s.UpToDate → s.texture = .of s.made.getLast?) :=
  ⟨(showing_run hl).whole, fun hworks hs => (showing_run hl).texture_eq hworks hs⟩

/-- A frame of two pixels is delivered while the UI polls. -/
def oneFrame : List Step :=
  [.renderer (.call 0 (.setVideoTrack (some 7))), .renderer (.go 0), .renderer (.go 0), .renderer (.go 0),
    .renderer (.go 0), .renderer (.frame 1 7 ⟨2, 1, [1, 2, 3, 4, 5, 6, 7, 8], 0⟩), .renderer (.go 1), .renderer (.go 1),
    .renderer (.go 1), .renderer (.go 1), .renderer (.go 1)]

/-- The UI thread polls. -/
def poll : List Step :=
  [.renderer (.call 2 .consumeLatestFrame), .renderer (.go 2), .renderer (.go 2), .update {}]

theorem oneFrame_shown : (run step {} (oneFrame ++ poll)).texture = ⟨2, 1, some (some [1, 2, 3, 4, 5, 6, 7, 8])⟩ := by
  rw [(texture_shows_latest (oneFrame ++ poll) (by decide)).2 (by decide) (by decide)]
  decide

/-! ### After `Stop` -/

/-- The thread `n` is about to do the last of what `Stop` does under the lock. -/
def Stopping (x : VideoRenderer) (n : ℕ) : Prop :=
  (x.place n = .entering .stop ∧ x.mutex = none ∧ x.renderedTrack = none) ∨ ∃ track, x.place n = .unsunk .stop track

/-- The last frame is an empty one. -/
def Dark (s : Screen) : Prop := s.renderer.Inv ∧ ∃ k, s.made.getLast? = some { frameId := k }

theorem inv_step (s : Screen) (i : Step) (h : s.renderer.Inv) : (s.step i).renderer.Inv := by
  cases i with
  | renderer i => exact h.step i
  | update d =>
    simp only [step]
    split <;> exact h

theorem dark_stop {s : Screen} {n : ℕ} (h : s.renderer.Inv) (hstop : Stopping s.renderer n) :
    Dark (s.step (.renderer (.go n))) := by
  refine ⟨inv_step s _ h, s.renderer.nextFrameId, ?_⟩
  have hblank : (s.renderer.step (.go n)).latestFrame = { frameId := s.renderer.nextFrameId } ∧
      (s.renderer.step (.go n)).nextFrameId = s.renderer.nextFrameId + 1 := by
    rcases hstop with ⟨hn, hm, hr⟩ | ⟨track, hn⟩
    · simp [VideoRenderer.step, VideoRenderer.go, hn, hm, VideoRenderer.startCall, hr, VideoRenderer.finishCall,
        VideoRenderer.blank, VideoRenderer.goTo]
    · simp [VideoRenderer.step, VideoRenderer.go, hn, VideoRenderer.finishCall, VideoRenderer.blank,
        VideoRenderer.goTo]
  simp only [step]
  rw [if_neg (by rw [hblank.2]; exact succ_ne _), List.getLast?_concat, hblank.1]

/-- A frame that gets as far as `OnFrame` is one of the track that the renderer has. -/
theorem dark_step (s : Screen) (i : Step) (h : Dark s) (hr : s.renderer.renderedTrack = none) : Dark (s.step i) := by
  refine ⟨inv_step s i h.1, ?_⟩
  cases i with
  | renderer i =>
    simp only [step]
    cases s.renderer.moves_step i with
    | same hsame =>
      rw [if_pos hsame.nextFrameId]
      exact h.2
    | put frame source latestFrame frameDirty nextFrameId consumed =>
      rw [if_neg (by rw [nextFrameId]; exact succ_ne _), List.getLast?_concat, latestFrame]
      rcases source with rfl | ⟨n, track, hn⟩
      · exact ⟨_, rfl⟩
      · have hplace := h.1.places n
        rw [hn] at hplace
        have htrack := h.1.attached track hplace
        rw [hr] at htrack
        cases htrack
    | take hdirty latestFrame frameDirty nextFrameId consumed =>
      rw [if_pos nextFrameId]
      exact h.2
    | miss hclean latestFrame frameDirty nextFrameId consumed =>
      rw [if_pos nextFrameId]
      exact h.2
  | update d =>
    simp only [step]
    split <;> exact h.2

/-- **After `Stop` there is no picture.**  Once `Stop` has done its part under the lock, and as long as no track is
set, the last frame that was made is an empty one, whatever frames were being delivered; if Direct3D does not fail,
there is nothing in the texture whenever the UI is up to date. -/
theorem stopped_shows_nothing (l l' : List Step) (n : ℕ) (hl : ∀ i ∈ l ++ .renderer (.go n) :: l', i.Sized)
    (hstop : Stopping (run step {} l).renderer n)
    (htrack : Meets step (fun s _ => s.renderer.renderedTrack = none) ((run step {} l).step (.renderer (.go n))) l') :
    let s := run step {} (l ++ .renderer (.go n) :: l')
    (∃ k, s.made.getLast? = some { frameId := k }) ∧
      ((∀ i ∈ l ++ .renderer (.go n) :: l', i.Works) → s.UpToDate → s.texture = {}) := by
  intro s
  have hinv : (run step {} l).renderer.Inv :=
    run_invariant' (P := fun s : Screen => s.renderer.Inv) inv_step VideoRenderer.inv_init l
  have hdark : Dark s := by
    have hs : s = run step ((run step {} l).step (.renderer (.go n))) l' := by
      simp only [s, run_append, run_cons]
    rw [hs]
    exact run_invariant (P := Dark) dark_step (dark_stop hinv hstop) htrack
  obtain ⟨k, hk⟩ := hdark.2
  refine ⟨⟨k, hk⟩, fun hworks hup => ?_⟩
  rw [(showing_run hl).texture_eq hworks hup, hk]
  rfl

/-- The renderer is stopped while it shows a frame, and another one is being delivered. -/
theorem oneFrame_stopped :
    (run step {} (oneFrame ++ poll ++ [.renderer (.frame 1 7 ⟨1, 1, [1, 2, 3, 4], 0⟩), .renderer (.call 0 .stop),
      .renderer (.go 0), .renderer (.go 0)] ++ .renderer (.go 0) :: ([.renderer (.go 0), .renderer (.go 1),
      .renderer (.go 1), .renderer (.go 1)] ++ poll))).texture = {} :=
  (stopped_shows_nothing _ _ 0 (by decide) (.inr ⟨7, by decide⟩) (by decide)).2 (by decide) (by decide)

end Screen

end PeerCall.WebRTC
