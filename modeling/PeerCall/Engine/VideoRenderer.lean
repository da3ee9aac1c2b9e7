import PeerCall.Lib.Locks
import PeerCall.Lib.Runs

/-!
# Engine.VideoRenderer — the two locks of `VideoRenderer`

The renderer calls into its track while it holds `mutex_`; the broadcaster of a track calls into the renderer while it
holds the lock of its sinks.  `VideoBroadcaster` takes that lock to deliver a frame, to remove a sink and to add one.
Any number of threads call the renderer and deliver frames, statement by statement; a frame comes as the picture that
`OnFrame` makes of it before it locks.

* `deadlock_free_iff`: **when no two threads ever wait for each other's lock**.
-/

namespace PeerCall.WebRTC

open PeerCall.Lib

/-- `VideoRenderer::Frame`. -/
structure RenderedFrame where
  width : ℤ := 0
  height : ℤ := 0
  pixels : List UInt8 := []
  frameId : UInt64 := 0
  deriving DecidableEq, Repr

inductive RendererCall
  | setVideoTrack (track : Option ℕ)
  | stop
  | clear
  | consumeLatestFrame
  deriving DecidableEq, Repr

/-- The call takes the renderer off the track that it has. -/
def RendererCall.removes : RendererCall → Bool
  | .setVideoTrack _ | .stop => true
  | _ => false

/-- Where a thread is: before it locks `mutex_`; in `RemoveSink`, before and after it locks the sinks; in
`AddOrUpdateSink`, likewise; before it unlocks `mutex_`; before the broadcaster locks its sinks, at the sink, in
`OnFrame` before and after it locks `mutex_`, and before the broadcaster unlocks its sinks. -/
inductive Place
  | idle
  | entering (c : RendererCall)
  | unsinking (c : RendererCall) (track : ℕ)
  | unsunk (c : RendererCall) (track : ℕ)
  | sinking (track : ℕ)
  | sunk (track : ℕ)
  | leaving
  | broadcasting (track : ℕ) (frame : RenderedFrame)
  | delivering (track : ℕ) (frame : RenderedFrame)
  | rendering (track : ℕ) (frame : RenderedFrame)
  | stored (track : ℕ)
  | delivered (track : ℕ)
  deriving DecidableEq, Repr

/-- `VideoRenderer` with the broadcasters of the tracks; `sinks t`: the renderer is a sink of the track `t`. -/
structure VideoRenderer where
  mutex : Option ℕ := none
  latestFrame : RenderedFrame := {}
  frameDirty : Bool := false
  nextFrameId : UInt64 := 1
  renderedTrack : Option ℕ := none
  consumed : List (Option RenderedFrame) := []
  sinkLock : ℕ → Option ℕ := fun _ => none
  sinks : ℕ → Bool := fun _ => false
  place : ℕ → Place := fun _ => .idle

/-- A thread that does nothing makes a call or delivers a frame of a track; or a thread goes on. -/
inductive RendererStep
  | call (n : ℕ) (c : RendererCall)
  | frame (n : ℕ) (track : ℕ) (picture : RenderedFrame)
  | go (n : ℕ)
  deriving DecidableEq, Repr

namespace VideoRenderer

def goTo (x : VideoRenderer) (n : ℕ) (p : Place) : VideoRenderer := { x with place := Function.update x.place n p }

/-- An empty frame is shown. -/
def blank (x : VideoRenderer) : VideoRenderer :=
  { x with
    latestFrame := { frameId := x.nextFrameId }, nextFrameId := x.nextFrameId + 1, frameDirty := true }

/-- What `OnFrame` does under the lock. -/
def store (x : VideoRenderer) (frame : RenderedFrame) : VideoRenderer :=
  { x with
    latestFrame := { frame with frameId := x.nextFrameId }, nextFrameId := x.nextFrameId + 1, frameDirty := true }

/-- What a call does once the renderer is no sink of the track that it had. -/
def finishCall (x : VideoRenderer) (n : ℕ) : RendererCall → VideoRenderer
  | .setVideoTrack none => { x with renderedTrack := none }.goTo n .leaving
  | .setVideoTrack (some track) => { x with renderedTrack := some track }.goTo n (.sinking track)
  | .stop => { x with renderedTrack := none }.blank.goTo n .leaving
  | .clear => x.blank.goTo n .leaving
  | .consumeLatestFrame =>
    if x.frameDirty then { x with frameDirty := false, consumed := x.consumed ++ [some x.latestFrame] }.goTo n .leaving
    else { x with consumed := x.consumed ++ [none] }.goTo n .leaving

/-- A call has locked `mutex_`. -/
def startCall (x : VideoRenderer) (n : ℕ) (c : RendererCall) : VideoRenderer :=
  match x.renderedTrack with
  | none => x.finishCall n c
  | some track => if c.removes then x.goTo n (.unsinking c track) else x.finishCall n c

/-- The thread `n` goes on, where it does not have to wait for a lock. -/
def go (x : VideoRenderer) (n : ℕ) : VideoRenderer :=
  match x.place n with
  | .idle => x
  | .entering c => if x.mutex = none then { x with mutex := some n }.startCall n c else x
  | .unsinking c track =>
    if x.sinkLock track = none then
      { x with
        sinkLock := Function.update x.sinkLock track (some n)
        sinks := Function.update x.sinks track false }.goTo n (.unsunk c track)
    else x
  | .unsunk c track => { x with sinkLock := Function.update x.sinkLock track none }.finishCall n c
  | .sinking track =>
    if x.sinkLock track = none then
      { x with
        sinkLock := Function.update x.sinkLock track (some n)
        sinks := Function.update x.sinks track true }.goTo n (.sunk track)
    else x
  | .sunk track => { x with sinkLock := Function.update x.sinkLock track none }.goTo n .leaving
  | .leaving => { x with mutex := none }.goTo n .idle
  | .broadcasting track frame =>
    if x.sinkLock track = none then
      { x with sinkLock := Function.update x.sinkLock track (some n) }.goTo n (.delivering track frame)
    else x
  | .delivering track frame =>
    if x.sinks track then x.goTo n (.rendering track frame) else x.goTo n (.delivered track)
  | .rendering track frame =>
    if x.mutex = none then ({ x with mutex := some n }.store frame).goTo n (.stored track) else x
  | .stored track => { x with mutex := none }.goTo n (.delivered track)
  | .delivered track => { x with sinkLock := Function.update x.sinkLock track none }.goTo n .idle

def step (x : VideoRenderer) : RendererStep → VideoRenderer
  | .call n c => if x.place n = .idle then x.goTo n (.entering c) else x
  | .frame n track picture => if x.place n = .idle then x.goTo n (.broadcasting track picture) else x
  | .go n => x.go n

end VideoRenderer

/-- The track whose sinks the thread has yet to lock while it holds `mutex_`. -/
def Place.awaits : Place → Option ℕ
  | .unsinking _ track | .sinking track => some track
  | _ => none

/-- A call is about to take the renderer off the track. -/
def Place.removesFrom (track : ℕ) : Place → Bool
  | .unsinking _ t => t = track
  | _ => false

/-- The thread has yet to lock `mutex_` while it holds the lock of the track's sinks. -/
def Place.rendersOn (track : ℕ) : Place → Bool
  | .rendering t _ => t = track
  | _ => false

namespace VideoRenderer

/-- A thread holds `mutex_` and waits for the lock of the sinks of a track; another one holds that and waits for
`mutex_`. -/
def Deadlock (x : VideoRenderer) : Prop :=
  ∃ a b track, x.mutex = some a ∧ (x.place a).awaits = some track ∧ x.sinkLock track = some b ∧
    (x.place b).rendersOn track = true

/-- No call that removes the renderer from its track locks `mutex_` while a frame of that track is in `OnFrame` and
waits for it; no frame is taken to `OnFrame` while a call that holds `mutex_` is about to remove the renderer from
the track. -/
def Apart (x : VideoRenderer) : RendererStep → Prop
  | .go n =>
    match x.place n with
    | .entering c => x.mutex = none → c.removes = true → ∀ track ∈ x.renderedTrack, ∀ b ∈ x.sinkLock track,
        (x.place b).rendersOn track = false
    | .delivering track _ => x.sinks track = true → ∀ a ∈ x.mutex, (x.place a).removesFrom track = false
    | _ => True
  | _ => True


end VideoRenderer

/-! ### Which locks the threads hold -/

/-- The thread holds `mutex_`. -/
def Place.holdsMutex : Place → Option Unit
  | .unsinking _ _ | .unsunk _ _ | .sinking _ | .sunk _ | .leaving | .stored _ => some ()
  | _ => none

/-- The track whose sinks the thread holds. -/
def Place.holdsSinks : Place → Option ℕ
  | .unsunk _ track | .sunk track | .delivering track _ | .rendering track _ | .stored track | .delivered track =>
    some track
  | _ => none

theorem Place.exists_of_removesFrom {track : ℕ} {p : Place} (h : p.removesFrom track = true) :
    ∃ c, p = .unsinking c track := by
  cases p with
  | unsinking c t =>
    refine ⟨c, ?_⟩
    rw [of_decide_eq_true h]
  | _ => cases h

theorem Place.exists_of_rendersOn {track : ℕ} {p : Place} (h : p.rendersOn track = true) :
    ∃ frame, p = .rendering track frame := by
  cases p with
  | rendering t frame =>
    refine ⟨frame, ?_⟩
    rw [of_decide_eq_true h]
  | _ => cases h

namespace VideoRenderer

variable {x y : VideoRenderer} {n : ℕ} {p : Place}

/-- What holds where a thread is: a call that has yet to remove the renderer has its track; once it has, or before it
adds it, the renderer is no sink at all; a frame is in `OnFrame` for a track that has the renderer as a sink. -/
def PlaceOk (x : VideoRenderer) : Place → Prop
  | .unsinking _ track => x.renderedTrack = some track
  | .unsunk _ _ => ∀ t, x.sinks t = false
  | .sinking track => x.renderedTrack = some track ∧ ∀ t, x.sinks t = false
  | .rendering track _ => x.sinks track = true
  | _ => True

/-- The invariant of every run. -/
structure Inv (x : VideoRenderer) : Prop where
  mutex : Agree (fun _ : Unit => x.mutex) (Place.holdsMutex ∘ x.place)
  sinkLock : Agree x.sinkLock (Place.holdsSinks ∘ x.place)
  attached : ∀ t, x.sinks t = true → x.renderedTrack = some t
  places : ∀ n, x.PlaceOk (x.place n)

theorem inv_init : Inv {} where
  mutex := Agree.unlocked
  sinkLock := Agree.unlocked
  attached t h := by cases h
  places n := trivial

namespace Inv

theorem mutex_eq (h : x.Inv) (hn : (x.place n).holdsMutex = some ()) : x.mutex = some n :=
  (h.mutex () n).mpr hn

theorem sinkLock_eq (h : x.Inv) {t : ℕ} (hn : (x.place n).holdsSinks = some t) : x.sinkLock t = some n :=
  (h.sinkLock t n).mpr hn

end Inv

/-! ### The invariant -/

theorem placeOk_congr (hr : y.renderedTrack = x.renderedTrack) (hs : y.sinks = x.sinks) (h : x.PlaceOk p) :
    y.PlaceOk p := by
  unfold PlaceOk
  rw [hr, hs]
  exact h

/-- Only the holder of `mutex_` knows anything of the track. -/
theorem placeOk_of_rendering (hm : p.holdsMutex ≠ some ())
    (hs : ∀ track frame, p = .rendering track frame → y.sinks track = true) : y.PlaceOk p := by
  cases p with
  | rendering track frame => exact hs track frame rfl
  | unsinking c track => exact absurd rfl hm
  | unsunk c track => exact absurd rfl hm
  | sinking track => exact absurd rfl hm
  | _ => trivial

/-- A step that leaves the track and the sinks alone. -/
theorem Inv.move (h : x.Inv) (hy : y.place = Function.update x.place n p)
    (hr : y.renderedTrack = x.renderedTrack) (hs : y.sinks = x.sinks)
    (hm : Agree (fun _ : Unit => y.mutex) (Function.update (Place.holdsMutex ∘ x.place) n p.holdsMutex))
    (hk : Agree y.sinkLock (Function.update (Place.holdsSinks ∘ x.place) n p.holdsSinks)) (hp : x.PlaceOk p) :
    y.Inv where
  mutex := by
    rw [hy, Function.comp_update]
    exact hm
  sinkLock := by
    rw [hy, Function.comp_update]
    exact hk
  attached t ht := by
    rw [hr]
    rw [hs] at ht
    exact h.attached t ht
  places a := by
    rw [hy]
    by_cases ha : a = n
    · rw [ha, Function.update_self]
      exact placeOk_congr hr hs hp
    · rw [Function.update_of_ne ha]
      exact placeOk_congr hr hs (h.places a)

/-- The thread `n` has `mutex_` and the sinks of the track `k`, if any; nothing is known of the place where it is. -/
structure Entered (x : VideoRenderer) (n : ℕ) (k : Option ℕ) : Prop where
  mutex : Agree (fun _ : Unit => x.mutex) (Function.update (Place.holdsMutex ∘ x.place) n (some ()))
  sinkLock : Agree x.sinkLock (Function.update (Place.holdsSinks ∘ x.place) n k)
  attached : ∀ t, x.sinks t = true → x.renderedTrack = some t
  rendering : ∀ a, a ≠ n → ∀ track frame, x.place a = .rendering track frame → x.sinks track = true

theorem Entered.goTo {k : Option ℕ} (h : x.Entered n k) (hm : p.holdsMutex = some ()) (hk : p.holdsSinks = k)
    (hp : x.PlaceOk p) : (x.goTo n p).Inv where
  mutex := by
    rw [VideoRenderer.goTo, Function.comp_update, hm]
    exact h.mutex
  sinkLock := by
    rw [VideoRenderer.goTo, Function.comp_update, hk]
    exact h.sinkLock
  attached := h.attached
  places a := by
    show x.PlaceOk (Function.update x.place n p a)
    by_cases ha : a = n
    · rw [ha, Function.update_self]
      exact hp
    · rw [Function.update_of_ne ha]
      refine placeOk_of_rendering (fun e => ha ?_) (h.rendering a ha)
      have hheld : Function.update (Place.holdsMutex ∘ x.place) n (some ()) a = some () := by
        rw [Function.update_of_ne ha]
        exact e
      refine h.mutex.unique hheld ?_
      rw [Function.update_self]

/-- A renderer without a track is a sink of none. -/
theorem Entered.sinks_eq_false {k : Option ℕ} (h : x.Entered n k) (hx : x.renderedTrack = none) (t : ℕ) :
    x.sinks t = false := by
  by_contra ht
  have hsome := h.attached t (Bool.eq_true_of_not_eq_false ht)
  rw [hx] at hsome
  cases hsome

/-- A call that removes the renderer from its track has done so. -/
theorem Entered.finishCall (h : x.Entered n none) {c : RendererCall}
    (hc : c.removes = true → ∀ t, x.sinks t = false) : (x.finishCall n c).Inv := by
  have hnone : ∀ o, c.removes = true → ∀ t, x.sinks t = true → o = some t := by
    intro o hr t ht
    rw [hc hr t] at ht
    cases ht
  cases c with
  | setVideoTrack track =>
    cases track with
    | none =>
      have h' : Entered { x with renderedTrack := none } n none := ⟨h.mutex, h.sinkLock, hnone none rfl, h.rendering⟩
      exact h'.goTo rfl rfl trivial
    | some track =>
      have h' : Entered { x with renderedTrack := some track } n none :=
        ⟨h.mutex, h.sinkLock, hnone (some track) rfl, h.rendering⟩
      exact h'.goTo rfl rfl ⟨rfl, hc rfl⟩
  | stop =>
    have h' : Entered { x with renderedTrack := none }.blank n none :=
      ⟨h.mutex, h.sinkLock, hnone none rfl, h.rendering⟩
    exact h'.goTo rfl rfl trivial
  | clear =>
    have h' : Entered x.blank n none := ⟨h.mutex, h.sinkLock, h.attached, h.rendering⟩
    exact h'.goTo rfl rfl trivial
  | consumeLatestFrame =>
    rw [VideoRenderer.finishCall]
    split
    · have h' : Entered { x with frameDirty := false, consumed := x.consumed ++ [some x.latestFrame] } n none :=
        ⟨h.mutex, h.sinkLock, h.attached, h.rendering⟩
      exact h'.goTo rfl rfl trivial
    · have h' : Entered { x with consumed := x.consumed ++ [none] } n none :=
        ⟨h.mutex, h.sinkLock, h.attached, h.rendering⟩
      exact h'.goTo rfl rfl trivial

theorem Entered.startCall (h : x.Entered n none) (c : RendererCall) : (x.startCall n c).Inv := by
  rw [VideoRenderer.startCall]
  split
  · rename_i hx
    exact h.finishCall fun _ t => h.sinks_eq_false hx t
  · rename_i track hx
    by_cases hc : c.removes = true
    · rw [if_pos hc]
      exact h.goTo rfl rfl hx
    · rw [if_neg hc]
      exact h.finishCall fun e => absurd e hc

/-- The table of `mutex_` alone. -/
theorem mutex_update (o o' : Option ℕ) :
    Function.update (fun _ : Unit => o) () o' = fun _ => o' :=
  Function.update_eq_const_of_subsingleton () o' _

namespace Inv

variable (h : x.Inv)
include h

theorem takeMutex (hm : x.mutex = none) (hn : (x.place n).holdsMutex = none) :
    Agree (fun _ : Unit => some n) (Function.update (Place.holdsMutex ∘ x.place) n (some ())) := by
  rw [← mutex_update x.mutex]
  exact h.mutex.acquire hm hn

theorem giveMutex (hn : (x.place n).holdsMutex = some ()) :
    Agree (fun _ : Unit => none) (Function.update (Place.holdsMutex ∘ x.place) n none) := by
  rw [← mutex_update x.mutex]
  exact h.mutex.release hn

theorem takeSinks {t : ℕ} (ht : x.sinkLock t = none) (hn : (x.place n).holdsSinks = none) :
    Agree (Function.update x.sinkLock t (some n)) (Function.update (Place.holdsSinks ∘ x.place) n (some t)) :=
  h.sinkLock.acquire ht hn

theorem giveSinks {t : ℕ} (hn : (x.place n).holdsSinks = some t) :
    Agree (Function.update x.sinkLock t none) (Function.update (Place.holdsSinks ∘ x.place) n none) :=
  h.sinkLock.release hn

theorem rendering (a track : ℕ) (frame : RenderedFrame) (ha : x.place a = .rendering track frame) :
    x.sinks track = true := by
  have hp := h.places a
  rw [ha] at hp
  exact hp

theorem enter {c : RendererCall} (hn : x.place n = .entering c) (hm : x.mutex = none) :
    Entered { x with mutex := some n } n none where
  mutex := h.takeMutex hm (by rw [hn]; rfl)
  sinkLock := h.sinkLock.keep (by rw [Function.comp_apply, hn]; rfl)
  attached := h.attached
  rendering a _ := h.rendering a

theorem keepMutex (hp : p.holdsMutex = (x.place n).holdsMutex) :
    Agree (fun _ : Unit => x.mutex) (Function.update (Place.holdsMutex ∘ x.place) n p.holdsMutex) :=
  h.mutex.keep hp

theorem keepSinks (hp : p.holdsSinks = (x.place n).holdsSinks) :
    Agree x.sinkLock (Function.update (Place.holdsSinks ∘ x.place) n p.holdsSinks) :=
  h.sinkLock.keep hp

/-- The thread that has `mutex_` unlocks the sinks. -/
theorem unlockSinks {t : ℕ} (hm : (x.place n).holdsMutex = some ()) (hk : (x.place n).holdsSinks = some t) :
    Entered { x with sinkLock := Function.update x.sinkLock t none } n none where
  mutex := h.mutex.keep hm.symm
  sinkLock := h.giveSinks hk
  attached := h.attached
  rendering a _ := h.rendering a

/-- `RemoveSink` of the track that the renderer has. -/
theorem removeSink {c : RendererCall} {t : ℕ} (hn : x.place n = .unsinking c t) (hfree : x.sinkLock t = none) :
    ({ x with
        sinkLock := Function.update x.sinkLock t (some n)
        sinks := Function.update x.sinks t false }.goTo n (.unsunk c t)).Inv := by
  have htrack : x.renderedTrack = some t := by
    have hp := h.places n
    rw [hn] at hp
    exact hp
  have hkept : ∀ t', Function.update x.sinks t false t' = true → t' ≠ t ∧ x.sinks t' = true := by
    intro t' ht'
    by_cases e : t' = t
    · rw [e, Function.update_self] at ht'
      cases ht'
    · rw [Function.update_of_ne e] at ht'
      exact ⟨e, ht'⟩
  have hnone : ∀ t', Function.update x.sinks t false t' = false := by
    intro t'
    by_contra e
    obtain ⟨hne, ht'⟩ := hkept t' (Bool.eq_true_of_not_eq_false e)
    have hsome := h.attached t' ht'
    rw [htrack] at hsome
    exact hne (Option.some.inj hsome).symm
  have h' : Entered
      { x with
        sinkLock := Function.update x.sinkLock t (some n)
        sinks := Function.update x.sinks t false } n (some t) :=
    { mutex := h.mutex.keep (by rw [Function.comp_apply, hn]; rfl)
      sinkLock := h.takeSinks hfree (by rw [hn]; rfl)
      attached := fun t' ht' => h.attached t' (hkept t' ht').2
      rendering := fun a _ track frame ha => by
        have hne : track ≠ t := by
          intro e
          refine h.sinkLock.ne_of_free hfree a ?_
          rw [Function.comp_apply, ha, e]
          rfl
        show Function.update x.sinks t false track = true
        rw [Function.update_of_ne hne]
        exact h.rendering a track frame ha }
  exact h'.goTo rfl rfl hnone

/-- `AddOrUpdateSink` on the track that the renderer now has. -/
theorem addSink {t : ℕ} (hn : x.place n = .sinking t) (hfree : x.sinkLock t = none) :
    ({ x with
        sinkLock := Function.update x.sinkLock t (some n)
        sinks := Function.update x.sinks t true }.goTo n (.sunk t)).Inv := by
  obtain ⟨htrack, hnone⟩ : x.renderedTrack = some t ∧ ∀ t', x.sinks t' = false := by
    have hp := h.places n
    rw [hn] at hp
    exact hp
  have h' : Entered
      { x with
        sinkLock := Function.update x.sinkLock t (some n)
        sinks := Function.update x.sinks t true } n (some t) :=
    { mutex := h.mutex.keep (by rw [Function.comp_apply, hn]; rfl)
      sinkLock := h.takeSinks hfree (by rw [hn]; rfl)
      attached := fun t' ht' => by
        have e : t' = t := by
          by_contra e
          have hs : Function.update x.sinks t true t' = true := ht'
          rw [Function.update_of_ne e, hnone] at hs
          cases hs
        rw [e]
        exact htrack
      rendering := fun a _ track frame ha => by
        have hs := h.rendering a track frame ha
        rw [hnone] at hs
        cases hs }
  exact h'.goTo rfl rfl trivial

end Inv

/-- Each place of a thread, once. -/
theorem Inv.go (h : x.Inv) (n : ℕ) : (x.go n).Inv := by
  have hp := h.places n
  cases hn : x.place n with
  | idle =>
    simp only [VideoRenderer.go, hn]
    exact h
  | entering c =>
    simp only [VideoRenderer.go, hn]
    split
    · rename_i hfree
      exact (h.enter hn hfree).startCall c
    · exact h
  | unsinking c track =>
    simp only [VideoRenderer.go, hn]
    split
    · rename_i hfree
      exact h.removeSink hn hfree
    · exact h
  | unsunk c track =>
    rw [hn] at hp
    simp only [VideoRenderer.go, hn]
    exact (h.unlockSinks (by rw [hn]; rfl) (by rw [hn]; rfl)).finishCall fun _ => hp
  | sinking track =>
    simp only [VideoRenderer.go, hn]
    split
    · rename_i hfree
      exact h.addSink hn hfree
    · exact h
  | sunk track =>
    simp only [VideoRenderer.go, hn]
    exact (h.unlockSinks (by rw [hn]; rfl) (by rw [hn]; rfl)).goTo rfl rfl trivial
  | leaving =>
    simp only [VideoRenderer.go, hn]
    exact h.move rfl rfl rfl (h.giveMutex (by rw [hn]; rfl)) (h.keepSinks (by rw [hn]; rfl)) trivial
  | broadcasting track frame =>
    simp only [VideoRenderer.go, hn]
    split
    · rename_i hfree
      exact h.move rfl rfl rfl (h.keepMutex (by rw [hn]; rfl)) (h.takeSinks hfree (by rw [hn]; rfl)) trivial
    · exact h
  | delivering track frame =>
    simp only [VideoRenderer.go, hn]
    split
    · rename_i hsink
      exact h.move rfl rfl rfl (h.keepMutex (by rw [hn]; rfl)) (h.keepSinks (by rw [hn]; rfl)) hsink
    · exact h.move rfl rfl rfl (h.keepMutex (by rw [hn]; rfl)) (h.keepSinks (by rw [hn]; rfl)) trivial
  | rendering track frame =>
    simp only [VideoRenderer.go, hn]
    split
    · rename_i hfree
      exact h.move rfl rfl rfl (h.takeMutex hfree (by rw [hn]; rfl)) (h.keepSinks (by rw [hn]; rfl)) trivial
    · exact h
  | stored track =>
    simp only [VideoRenderer.go, hn]
    exact h.move rfl rfl rfl (h.giveMutex (by rw [hn]; rfl)) (h.keepSinks (by rw [hn]; rfl)) trivial
  | delivered track =>
    simp only [VideoRenderer.go, hn]
    exact h.move rfl rfl rfl (h.keepMutex (by rw [hn]; rfl)) (h.giveSinks (by rw [hn]; rfl)) trivial

theorem Inv.step (h : x.Inv) (i : RendererStep) : (x.step i).Inv := by
  cases i with
  | call n c =>
    rw [VideoRenderer.step]
    split
    · rename_i hn
      exact h.move rfl rfl rfl (h.keepMutex (by rw [hn]; rfl)) (h.keepSinks (by rw [hn]; rfl)) trivial
    · exact h
  | frame n track picture =>
    rw [VideoRenderer.step]
    split
    · rename_i hn
      exact h.move rfl rfl rfl (h.keepMutex (by rw [hn]; rfl)) (h.keepSinks (by rw [hn]; rfl)) trivial
    · exact h
  | go n => exact h.go n

/-! ### Two threads that face each other -/

/-- A call is about to remove the renderer from a track whose frame is in `OnFrame` and waits. -/
def Facing (x : VideoRenderer) : Prop :=
  ∃ a b track, (x.place a).removesFrom track = true ∧ (x.place b).rendersOn track = true

/-- The only deadlock is that of a removal: a call that adds the renderer has it in no sinks. -/
theorem deadlock_iff_facing (h : x.Inv) : x.Deadlock ↔ x.Facing := by
  constructor
  · rintro ⟨a, b, track, -, hwait, -, hb⟩
    refine ⟨a, b, track, ?_, hb⟩
    have hp := h.places a
    cases ha : x.place a with
    | unsinking c t =>
      rw [ha] at hwait
      exact decide_eq_true (Option.some.inj hwait)
    | sinking t =>
      obtain ⟨frame, hframe⟩ := Place.exists_of_rendersOn hb
      have hs := h.rendering b track frame hframe
      rw [ha] at hp
      rw [hp.2] at hs
      cases hs
    | _ =>
      rw [ha] at hwait
      cases hwait
  · rintro ⟨a, b, track, ha, hb⟩
    obtain ⟨c, hc⟩ := Place.exists_of_removesFrom ha
    obtain ⟨frame, hframe⟩ := Place.exists_of_rendersOn hb
    refine ⟨a, b, track, h.mutex_eq ?_, ?_, h.sinkLock_eq ?_, hb⟩
    · rw [hc]
      rfl
    · rw [hc]
      rfl
    · rw [hframe]
      rfl

theorem not_both {t t' : ℕ} (hr : p.removesFrom t = true) (ho : p.rendersOn t' = true) : False := by
  obtain ⟨c, rfl⟩ := Place.exists_of_removesFrom hr
  cases ho

/-- A thread that goes to `p` faces one that was there before. -/
theorem facing_iff (hy : y.place = Function.update x.place n p) (hx : ¬ x.Facing) :
    y.Facing ↔ ∃ track, (p.removesFrom track = true ∧ ∃ b, b ≠ n ∧ (x.place b).rendersOn track = true) ∨
      (p.rendersOn track = true ∧ ∃ a, a ≠ n ∧ (x.place a).removesFrom track = true) := by
  constructor
  · rintro ⟨a, b, track, ha, hb⟩
    rw [hy] at ha hb
    refine ⟨track, ?_⟩
    by_cases han : a = n
    · rw [han, Function.update_self] at ha
      have hbn : b ≠ n := by
        rintro rfl
        rw [Function.update_self] at hb
        exact not_both ha hb
      rw [Function.update_of_ne hbn] at hb
      exact Or.inl ⟨ha, b, hbn, hb⟩
    · rw [Function.update_of_ne han] at ha
      by_cases hbn : b = n
      · rw [hbn, Function.update_self] at hb
        exact Or.inr ⟨hb, a, han, ha⟩
      · rw [Function.update_of_ne hbn] at hb
        exact absurd ⟨a, b, track, ha, hb⟩ hx
  · rintro ⟨track, ⟨hp, b, hbn, hb⟩ | ⟨hp, a, han, ha⟩⟩
    · refine ⟨n, b, track, ?_, ?_⟩
      · rw [hy, Function.update_self]
        exact hp
      · rw [hy, Function.update_of_ne hbn]
        exact hb
    · refine ⟨a, n, track, ?_, ?_⟩
      · rw [hy, Function.update_of_ne han]
        exact ha
      · rw [hy, Function.update_self]
        exact hp

/-- The place is neither of the two. -/
def Quiet (p : Place) : Prop := ∀ track, p.removesFrom track = false ∧ p.rendersOn track = false

theorem not_facing_of_quiet (hx : ¬ x.Facing) (hp : Quiet p) (hy : y.place = Function.update x.place n p) :
    ¬ y.Facing := by
  rw [facing_iff hy hx]
  rintro ⟨track, ⟨h, -⟩ | ⟨h, -⟩⟩
  · rw [(hp track).1] at h
    cases h
  · rw [(hp track).2] at h
    cases h

/-- What a call does at its end leads to no removal. -/
theorem finishCall_quiet (x : VideoRenderer) (n : ℕ) (c : RendererCall) :
    ∃ p, Quiet p ∧ (x.finishCall n c).place = Function.update x.place n p := by
  cases c with
  | setVideoTrack track =>
    cases track with
    | none => exact ⟨.leaving, fun t => ⟨rfl, rfl⟩, rfl⟩
    | some track => exact ⟨.sinking track, fun t => ⟨rfl, rfl⟩, rfl⟩
  | stop => exact ⟨.leaving, fun t => ⟨rfl, rfl⟩, rfl⟩
  | clear => exact ⟨.leaving, fun t => ⟨rfl, rfl⟩, rfl⟩
  | consumeLatestFrame =>
    refine ⟨.leaving, fun t => ⟨rfl, rfl⟩, ?_⟩
    rw [VideoRenderer.finishCall]
    split <;> rfl

theorem finishCall_not_facing (hx : ¬ x.Facing) (n : ℕ) (c : RendererCall) : ¬ (x.finishCall n c).Facing := by
  obtain ⟨p, hq, hp⟩ := finishCall_quiet x n c
  exact not_facing_of_quiet hx hq hp

/-- A call that locks `mutex_`. -/
theorem enter_facing_iff (h : x.Inv) (hx : ¬ x.Facing) {c : RendererCall} (hn : x.place n = .entering c)
    (hfree : x.mutex = none) :
    ¬ ({ x with mutex := some n }.startCall n c).Facing ↔ Apart x (.go n) := by
  have hfinish := finishCall_not_facing (x := { x with mutex := some n }) hx n c
  simp only [Apart, hn]
  rw [VideoRenderer.startCall]
  split
  · rename_i htrack
    refine ⟨fun _ _ _ track ht => ?_, fun _ => hfinish⟩
    rw [show x.renderedTrack = none from htrack] at ht
    cases ht
  · rename_i track htrack
    by_cases hc : c.removes = true
    · rw [if_pos hc, facing_iff (x := x) rfl hx]
      constructor
      · intro hnone _ _ t ht b hb
        by_contra hr
        rw [show x.renderedTrack = some track from htrack] at ht
        obtain rfl : track = t := Option.some.inj ht
        refine hnone ⟨track, Or.inl ⟨decide_eq_true rfl, b, ?_, Bool.eq_true_of_not_eq_false hr⟩⟩
        rintro rfl
        rw [hn] at hr
        exact hr rfl
      · rintro hnone ⟨t, ⟨ht, b, -, hb⟩ | ⟨ht, -⟩⟩
        · have e : track = t := of_decide_eq_true ht
          obtain ⟨frame, hframe⟩ := Place.exists_of_rendersOn hb
          have hlock : x.sinkLock t = some b := h.sinkLock_eq (by rw [hframe]; rfl)
          rw [hnone hfree hc t (e ▸ htrack) b hlock] at hb
          cases hb
        · cases ht
    · rw [if_neg hc]
      exact ⟨fun _ _ e => absurd e hc, fun _ => hfinish⟩

/-- A frame that the broadcaster delivers. -/
theorem deliver_facing_iff (h : x.Inv) (hx : ¬ x.Facing) {track : ℕ} {frame : RenderedFrame}
    (hn : x.place n = .delivering track frame) (hsink : x.sinks track = true) :
    ¬ (x.goTo n (.rendering track frame)).Facing ↔ Apart x (.go n) := by
  simp only [Apart, hn]
  rw [facing_iff (x := x) rfl hx]
  constructor
  · intro hnone _ a ha
    by_contra hr
    refine hnone ⟨track, Or.inr ⟨decide_eq_true rfl, a, ?_, Bool.eq_true_of_not_eq_false hr⟩⟩
    rintro rfl
    rw [hn] at hr
    exact hr rfl
  · rintro hnone ⟨t, ⟨ht, -⟩ | ⟨ht, a, -, ha⟩⟩
    · cases ht
    · have e : track = t := of_decide_eq_true ht
      obtain ⟨c, hc⟩ := Place.exists_of_removesFrom ha
      have hmutex : x.mutex = some a := h.mutex_eq (by rw [hc]; rfl)
      rw [← e, hnone hsink a hmutex] at ha
      cases ha

theorem go_facing_iff (h : x.Inv) (hx : ¬ x.Facing) (n : ℕ) : ¬ (x.go n).Facing ↔ Apart x (.go n) := by
  cases hn : x.place n with
  | entering c =>
    rw [VideoRenderer.go, hn]
    dsimp only
    split
    · rename_i hfree
      exact enter_facing_iff h hx hn hfree
    · rename_i hheld
      simp only [Apart, hn]
      exact iff_of_true hx fun hfree => absurd hfree hheld
  | delivering track frame =>
    rw [VideoRenderer.go, hn]
    dsimp only
    split
    · rename_i hsink
      exact deliver_facing_iff h hx hn hsink
    · rename_i hsink
      simp only [Apart, hn]
      exact iff_of_true (not_facing_of_quiet hx (fun t => ⟨rfl, rfl⟩) rfl) fun e => absurd e hsink
  | unsunk c track =>
    rw [VideoRenderer.go, hn, Apart, hn]
    refine iff_of_true ?_ trivial
    apply finishCall_not_facing
    exact hx
  | idle =>
    rw [VideoRenderer.go, hn, Apart, hn]
    exact iff_of_true hx trivial
  | sunk track | leaving | stored track | delivered track =>
    rw [VideoRenderer.go, hn, Apart, hn]
    exact iff_of_true (not_facing_of_quiet hx (fun t => ⟨rfl, rfl⟩) rfl) trivial
  | unsinking c track | sinking track | broadcasting track frame | rendering track frame =>
    rw [VideoRenderer.go, hn, Apart, hn]
    refine iff_of_true ?_ trivial
    dsimp only
    split
    · exact not_facing_of_quiet hx (fun t => ⟨rfl, rfl⟩) rfl
    · exact hx

/-- **The exact condition on a step.** -/
theorem step_facing_iff (h : x.Inv) (hx : ¬ x.Facing) (i : RendererStep) : ¬ (x.step i).Facing ↔ Apart x i := by
  cases i with
  | call n c =>
    refine iff_of_true ?_ trivial
    rw [VideoRenderer.step]
    split
    · exact not_facing_of_quiet hx (fun t => ⟨rfl, rfl⟩) rfl
    · exact hx
  | frame n track picture =>
    refine iff_of_true ?_ trivial
    rw [VideoRenderer.step]
    split
    · exact not_facing_of_quiet hx (fun t => ⟨rfl, rfl⟩) rfl
    · exact hx
  | go n => exact go_facing_iff h hx n

/-- **No deadlock, exactly**: in no state of a run does one thread hold `mutex_` and wait for the lock of the sinks
while another holds that and waits for `mutex_`, exactly when every step of the run keeps the two apart. -/
theorem deadlock_free_iff (l : List RendererStep) :
    (∀ l', l' <+: l → ¬ (run step {} l').Deadlock) ↔ Meets step Apart {} l := by
  refine always_iff_meets (I := Inv) (P := fun x => ¬ x.Deadlock) (fun x i h _ _ => h.step i) ?_ inv_init ?_
  · intro x i h hx
    rw [deadlock_iff_facing h] at hx
    rw [deadlock_iff_facing (h.step i)]
    exact step_facing_iff h hx i
  · rintro ⟨a, b, track, hm, -⟩
    cases hm

/-- `Stop` while a frame of the track is in `OnFrame`. -/
theorem stop_waits_for_frame :
    ¬ ∀ l : List RendererStep, ¬ (run step {} l).Deadlock := by
  intro h
  let attach : List RendererStep := [.call 0 (.setVideoTrack (some 7)), .go 0, .go 0, .go 0, .go 0]
  let frame : List RendererStep := [.frame 1 7 { width := 1, height := 1, pixels := [0, 0, 0, 255] }, .go 1, .go 1]
  let stop : List RendererStep := [.call 0 .stop, .go 0]
  refine h (attach ++ frame ++ stop) ⟨0, 1, 7, ?_⟩
  decide

end VideoRenderer

end PeerCall.WebRTC
