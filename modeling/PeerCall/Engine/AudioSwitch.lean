import PeerCall.Engine.AudioInput

/-!
# Engine.AudioSwitch — who records in `SwitchableAudioInput`

The audio device module starts and stops the recording, the engine and the decode thread switch between the microphone
and the synthetic samples, each from a thread of its own.  Their calls are interleaved section by section; the
synthetic thread looks at its flag once in each round.  The samples are in `AudioInput`, and so is what is done to them.

* `synthetic_thread_safe`: **the synthetic thread is started, stopped and joined once**, as long as no two calls are
  in `StopSyntheticThread` at the same time.
* `one_source_records`: **between calls that do not overlap, the source that is chosen records, and only that one**.
* `calls_are_whole`: then they are what they are in `AudioInput`, sections of their own.
-/

namespace PeerCall.AudioSwitch

open PeerCall.Lib PeerCall.WebRTC

/-- What a call goes on with after `StopSyntheticThread`. -/
inductive Rest
  | startLive (start : Bool)
  | nothing
  | terminate
  deriving DecidableEq, Repr

/-- Where a caller stands: the next statement that it comes to.  `stop`, `joinable`, `join` and `release` are those of
`StopSyntheticThread`. -/
inductive Place
  | idle
  | stop (r : Rest)
  | joinable (r : Rest)
  | join (r : Rest)
  | release (r : Rest)
  | startLive
  | stopLive (start : Bool)
  | startSynthetic
  | stopRecording
  | terminate
  deriving DecidableEq, Repr

/-- The caller is in `StopSyntheticThread`. -/
def Place.stops : Place → Bool
  | .stop _ | .joinable _ | .join _ | .release _ => true
  | _ => false

/-- It has asked the synthetic thread to stop, and not taken that back. -/
def Place.asks : Place → Bool
  | .joinable _ | .join _ | .release _ => true
  | _ => false

/-- What follows `StopSyntheticThread`. -/
def Rest.place : Rest → Place
  | .startLive true => .startLive
  | .startLive false => .idle
  | .nothing => .idle
  | .terminate => .terminate

inductive Call
  | useMicrophone
  | useSyntheticPcm (sampleRateHz : UInt32) (channels : UInt64)
  | startRecording
  | stopRecording
  | terminate
  deriving DecidableEq, Repr

/-- `SwitchableAudioInput` and those who call it.  `thread`: the thread that `synthetic_thread_` can be joined with;
`alive`: the threads that are still in `SyntheticLoop`; `live`: the live input records; `crashed`: `std::terminate` has
been called. -/
structure Switch where
  mode : CaptureMode := .microphone
  recordingRequested : Bool := false
  syntheticThreadRunning : Bool := false
  stopSyntheticThread : Bool := false
  thread : Option ℕ := none
  started : ℕ := 0
  alive : List ℕ := []
  live : Bool := false
  place : ℕ → Place := fun _ => .idle
  crashed : Bool := false

inductive Step
  | call (g : ℕ) (c : Call) (ok : Bool)
  | go (g : ℕ) (ok : Bool)
  | loop (k : ℕ)
  deriving DecidableEq, Repr

/-- Whether the microphone starts, where the step starts it. -/
def Step.ok : Step → Bool
  | .call _ _ ok | .go _ ok => ok
  | .loop _ => true

namespace Switch

def goTo (s : Switch) (g : ℕ) (p : Place) : Switch := { s with place := Function.update s.place g p }

/-- `StartSyntheticThreadLocked`; a thread object that can still be joined must not be written over. -/
def startSyntheticThreadLocked (s : Switch) : Switch :=
  if s.syntheticThreadRunning then s
  else
    { s with
      stopSyntheticThread := false, syntheticThreadRunning := true
      thread := some s.started, started := s.started + 1, alive := s.alive ++ [s.started]
      crashed := s.thread.isSome }

/-- `live_input_->StartRecording()`, which may fail. -/
def startLive (s : Switch) (ok : Bool) : Switch := { s with live := s.live || ok }

/-- `live_input_->StopRecording()` and `live_input_->Terminate()`. -/
def stopLive (s : Switch) : Switch := { s with live := false }

/-- The first section of a call. -/
def begin (s : Switch) (g : ℕ) (ok : Bool) : Call → Switch
  | .useMicrophone =>
    if s.mode = .microphone then s
    else { s with mode := .microphone }.goTo g (.stop (.startLive s.recordingRequested))
  | .useSyntheticPcm _ _ => { s with mode := .synthetic }.goTo g (.stopLive s.recordingRequested)
  | .startRecording =>
    let s : Switch := { s with recordingRequested := true }
    if s.mode = CaptureMode.synthetic then s.startSyntheticThreadLocked else s.startLive ok
  | .stopRecording =>
    { s with recordingRequested := false }.goTo g
      (if s.mode = CaptureMode.synthetic then .stop .nothing else .stopRecording)
  | .terminate => { s with recordingRequested := false }.goTo g (.stop .terminate)

/-- The next statement of a caller; joining waits for the thread. -/
def advance (s : Switch) (g : ℕ) (ok : Bool) : Place → Switch
  | .idle => s
  | .stop r =>
    if s.syntheticThreadRunning = false ∧ s.thread = none then s.goTo g r.place
    else { s with stopSyntheticThread := true }.goTo g (.joinable r)
  | .joinable r => s.goTo g (if s.thread.isSome then .join r else .release r)
  | .join r =>
    match s.thread with
    | none => { s with crashed := true }
    | some k => if k ∈ s.alive then s else { s with thread := none }.goTo g (.release r)
  | .release r => { s with syntheticThreadRunning := false, stopSyntheticThread := false }.goTo g r.place
  | .startLive => (s.startLive ok).goTo g .idle
  | .stopLive start => s.stopLive.goTo g (if start then .startSynthetic else .idle)
  | .startSynthetic => s.startSyntheticThreadLocked.goTo g .idle
  | .stopRecording => s.stopLive.goTo g .idle
  | .terminate => s.stopLive.goTo g .idle

/-- One step; nothing happens after `std::terminate`. -/
def step (s : Switch) (i : Step) : Switch :=
  if s.crashed then s
  else
    match i with
    | .call g c ok => if s.place g = .idle then s.begin g ok c else s
    | .go g ok => s.advance g ok (s.place g)
    | .loop k => if s.stopSyntheticThread then { s with alive := s.alive.filter (· ≠ k) } else s

/-- Nobody comes into `StopSyntheticThread` while somebody else is there. -/
def Apart (s : Switch) (i : Step) : Prop :=
  ∀ g g', ((s.step i).place g).stops = true → ((s.step i).place g').stops = true → g = g'

/-- A call begins when every other one has returned. -/
def Serial (s : Switch) : Step → Prop
  | .call _ _ _ => ∀ g, s.place g = .idle
  | _ => True

/-! ### The thread object -/

/-- What holds as long as `StopSyntheticThread` is called by one caller at a time: the object can be joined exactly
while its thread counts as running, but for the caller that has joined it and has yet to say so. -/
structure Joined (s : Switch) : Prop where
  crashed : s.crashed = false
  alone : ∀ g g', (s.place g).stops = true → (s.place g').stops = true → g = g'
  alive : ∀ k ∈ s.alive, s.thread = some k
  nodup : s.alive.Nodup
  loops : s.stopSyntheticThread = false → ∀ k, s.thread = some k → k ∈ s.alive
  runs : s.thread ≠ none → s.syntheticThreadRunning = true
  held : s.syntheticThreadRunning = true → s.thread ≠ none ∨ ∃ g r, s.place g = .release r
  asked : s.stopSyntheticThread = true → ∃ g, (s.place g).asks = true
  asks : ∀ g, (s.place g).asks = true → s.syntheticThreadRunning = true ∧ s.stopSyntheticThread = true
  joins : ∀ g r, s.place g = .joinable r ∨ s.place g = .join r → s.thread ≠ none
  joined : ∀ g r, s.place g = .release r → s.thread = none

theorem stops_of_asks {p : Place} (h : p.asks = true) : p.stops = true := by
  cases p <;> first | rfl | simp [Place.asks] at h

theorem goTo_place (s : Switch) (g g' : ℕ) (p : Place) :
    (s.goTo g p).place g' = if g' = g then p else s.place g' := Function.update_apply s.place g p g'

theorem Joined.others {s : Switch} (h : Joined s) {g : ℕ} (hg : (s.place g).stops = true) :
    ∀ g' ≠ g, (s.place g').stops = false := by
  intro g' hne
  by_contra hn
  exact hne (h.alone g' g (by simpa using hn) hg)

/-- The step of a caller that is the only one in `StopSyntheticThread`, or that leaves it. -/
theorem joined_solo {s : Switch} {g : ℕ} {p : Place} (hothers : ∀ g' ≠ g, (s.place g').stops = false)
    (hcrashed : s.crashed = false) (halive : ∀ k ∈ s.alive, s.thread = some k) (hnodup : s.alive.Nodup)
    (hloops : s.stopSyntheticThread = false → ∀ k, s.thread = some k → k ∈ s.alive)
    (hruns : s.thread ≠ none → s.syntheticThreadRunning = true)
    (hheld : s.syntheticThreadRunning = true → s.thread ≠ none ∨ ∃ r, p = .release r)
    (hasked : s.stopSyntheticThread = true → p.asks = true)
    (hasks : p.asks = true → s.syntheticThreadRunning = true ∧ s.stopSyntheticThread = true)
    (hjoins : ∀ r, p = .joinable r ∨ p = .join r → s.thread ≠ none) (hjoined : ∀ r, p = .release r → s.thread = none) :
    Joined (s.goTo g p) := by
  have hg : (s.goTo g p).place g = p := by rw [goTo_place, if_pos rfl]
  have hself : ∀ g', ((s.goTo g p).place g').stops = true → g' = g := by
    intro g' hs
    by_contra hne
    rw [goTo_place, if_neg hne, hothers g' hne] at hs
    cases hs
  refine ⟨hcrashed, fun g₁ g₂ h₁ h₂ => (hself g₁ h₁).trans (hself g₂ h₂).symm, halive, hnodup, hloops, hruns,
    fun hr => ?_, fun ha => ⟨g, hg.symm ▸ hasked ha⟩, fun g' ha => ?_, fun g' r hp => ?_, fun g' r hp => ?_⟩
  · rcases hheld hr with ht | ⟨r, hp⟩
    · exact .inl ht
    · exact .inr ⟨g, r, hg.trans hp⟩
  · obtain rfl := hself g' (stops_of_asks ha)
    exact hasks (hg ▸ ha)
  · obtain rfl := hself g' (by rcases hp with hp | hp <;> rw [hp] <;> rfl)
    exact hjoins r (hg ▸ hp)
  · obtain rfl := hself g' (by rw [hp]; rfl)
    exact hjoined r (hg ▸ hp)

/-- The step of a caller outside `StopSyntheticThread`. -/
theorem Joined.outside {s s' : Switch} (h : Joined s) {g : ℕ} {p : Place} (hg : (s.place g).stops = false)
    (hp : p.stops = false) (hplace : s'.place = (s.goTo g p).place) (hcrashed : s'.crashed = s.crashed)
    (halive : s'.alive = s.alive) (hthread : s'.thread = s.thread)
    (hrunning : s'.syntheticThreadRunning = s.syntheticThreadRunning)
    (hstop : s'.stopSyntheticThread = s.stopSyntheticThread) : Joined s' := by
  have hsame : ∀ g', (s'.place g').stops = true → g' ≠ g ∧ s'.place g' = s.place g' := by
    intro g' hs
    rw [hplace, goTo_place] at hs ⊢
    split_ifs at hs ⊢ with he
    · rw [hp] at hs
      cases hs
    · exact ⟨he, rfl⟩
  have hkept : ∀ g', (s.place g').stops = true → s'.place g' = s.place g' := by
    intro g' hs
    have hne : g' ≠ g := fun he => by
      rw [he, hg] at hs
      cases hs
    rw [hplace, goTo_place, if_neg hne]
  refine ⟨hcrashed.trans h.crashed, fun g₁ g₂ h₁ h₂ => ?_, ?_, halive ▸ h.nodup, ?_, ?_, ?_, ?_, ?_, ?_, ?_⟩
  · exact h.alone g₁ g₂ ((hsame g₁ h₁).2 ▸ h₁) ((hsame g₂ h₂).2 ▸ h₂)
  · rw [halive, hthread]
    exact h.alive
  · rw [hstop, hthread, halive]
    exact h.loops
  · rw [hthread, hrunning]
    exact h.runs
  · rw [hrunning, hthread]
    intro hr
    rcases h.held hr with ht | ⟨g', r, hrel⟩
    · exact .inl ht
    · exact .inr ⟨g', r, (hkept g' (by rw [hrel]; rfl)).trans hrel⟩
  · rw [hstop]
    intro ha
    obtain ⟨g', hasks⟩ := h.asked ha
    exact ⟨g', (hkept g' (stops_of_asks hasks)).symm ▸ hasks⟩
  · rw [hrunning, hstop]
    intro g' ha
    exact h.asks g' ((hsame g' (stops_of_asks ha)).2 ▸ ha)
  · rw [hthread]
    intro g' r hr
    have hs := (hsame g' (by rcases hr with hr | hr <;> rw [hr] <;> rfl)).2
    exact h.joins g' r (by rwa [← hs])
  · rw [hthread]
    intro g' r hr
    have hs := (hsame g' (by rw [hr]; rfl)).2
    exact h.joined g' r (hs.symm.trans hr)

/-- A caller comes into `StopSyntheticThread`, where nobody else is. -/
theorem Joined.enter {s s' : Switch} (h : Joined s) {g : ℕ} (hg : (s.place g).stops = false) (r : Rest)
    (hothers : ∀ g' ≠ g, (s.place g').stops = false) (hplace : s'.place = s.place) (hcrashed : s'.crashed = s.crashed)
    (halive : s'.alive = s.alive) (hthread : s'.thread = s.thread)
    (hrunning : s'.syntheticThreadRunning = s.syntheticThreadRunning)
    (hstop : s'.stopSyntheticThread = s.stopSyntheticThread) : Joined (s'.goTo g (.stop r)) := by
  have hnobody : ∀ g', (s.place g').stops = false := fun g' => by
    by_cases he : g' = g
    · rw [he, hg]
    · exact hothers g' he
  have hquiet : s'.stopSyntheticThread = true → False := fun ha => by
    obtain ⟨g', hasks⟩ := h.asked (hstop ▸ ha)
    have hs := stops_of_asks hasks
    rw [hnobody g'] at hs
    cases hs
  refine joined_solo ?_ (hcrashed.trans h.crashed) ?_ (halive ▸ h.nodup) ?_ ?_ ?_ (fun ha => (hquiet ha).elim) ?_ ?_ ?_
  · rw [hplace]
    exact hothers
  · rw [halive, hthread]
    exact h.alive
  · rw [hstop, hthread, halive]
    exact h.loops
  · rw [hthread, hrunning]
    exact h.runs
  · rw [hthread, hrunning]
    intro hr
    refine .inl ((h.held hr).resolve_right ?_)
    rintro ⟨g', r', hrel⟩
    have hs := hnobody g'
    rw [hrel] at hs
    cases hs
  · intro ha
    cases ha
  · rintro r' (he | he) <;> cases he
  · intro r' he
    cases he

theorem start_place (s : Switch) : s.startSyntheticThreadLocked.place = s.place := by
  unfold startSyntheticThreadLocked
  split_ifs <;> rfl

theorem Joined.live {s : Switch} (h : Joined s) (ok : Bool) : Joined (s.startLive ok) :=
  ⟨h.crashed, h.alone, h.alive, h.nodup, h.loops, h.runs, h.held, h.asked, h.asks, h.joins, h.joined⟩

/-- `StartSyntheticThreadLocked` writes over a thread object that cannot be joined. -/
theorem Joined.start {s : Switch} (h : Joined s) : Joined s.startSyntheticThreadLocked := by
  unfold startSyntheticThreadLocked
  split_ifs with hr
  · exact h
  have hnone : s.thread = none := by
    by_contra hn
    exact hr (h.runs hn)
  have hempty : s.alive = [] := by
    rw [List.eq_nil_iff_forall_not_mem]
    intro k hk
    have hsome := h.alive k hk
    rw [hnone] at hsome
    cases hsome
  have hnobody : ∀ g, (s.place g).asks = false := fun g => by
    by_contra hn
    exact hr (h.asks g (by simpa using hn)).1
  refine ⟨by simp [hnone], h.alone, ?_, ?_, ?_, fun _ => rfl, fun _ => .inl (by simp), fun ha => by simp at ha,
    fun g ha => ?_, fun g r _ => by simp, fun g r he => ?_⟩
  · intro k hk
    rw [hempty] at hk
    obtain rfl : k = s.started := by simpa using hk
    rfl
  · simp [hempty]
  · intro _ k hk
    obtain rfl : s.started = k := Option.some.inj hk
    exact List.mem_append_right _ List.mem_cons_self
  · rw [hnobody g] at ha
    cases ha
  · have hn := hnobody g
    rw [he] at hn
    cases hn

theorem rest_place_stops (r : Rest) : r.place.stops = false := by
  cases r with
  | startLive start => cases start <;> rfl
  | nothing => rfl
  | terminate => rfl

theorem asks_of_stops {p : Place} (h : p.stops = false) : p.asks = false := by
  cases p <;> first | rfl | simp [Place.stops] at h

/-- The statements of `StopSyntheticThread`. -/
theorem Joined.advance {s : Switch} (h : Joined s) {g : ℕ} (ok : Bool) (hg : (s.place g).stops = true) :
    Joined (s.advance g ok (s.place g)) := by
  have hothers := h.others hg
  have hmine : ∀ g' r, s.place g' = .release r → g' = g := fun g' r he => h.alone g' g (by rw [he]; rfl) hg
  cases hp : s.place g with
  | stop r =>
    have hquiet : s.stopSyntheticThread = true → False := fun ha => by
      obtain ⟨g', hasks⟩ := h.asked ha
      obtain rfl := h.alone g' g (stops_of_asks hasks) hg
      rw [hp] at hasks
      cases hasks
    have hheld : s.syntheticThreadRunning = true → s.thread ≠ none := fun hr => by
      refine (h.held hr).resolve_right ?_
      rintro ⟨g', r', hrel⟩
      obtain rfl := hmine g' r' hrel
      rw [hp] at hrel
      cases hrel
    unfold Switch.advance
    dsimp only
    split_ifs with hstopped
    · -- nothing to stop
      have hleft := rest_place_stops r
      refine joined_solo hothers h.crashed h.alive h.nodup h.loops h.runs (fun hr => .inl (hheld hr))
        (fun ha => (hquiet ha).elim) (fun ha => ?_) ?_ ?_
      · rw [asks_of_stops hleft] at ha
        cases ha
      · rintro r' (he | he) <;> rw [he] at hleft <;> cases hleft
      · intro r' he
        rw [he] at hleft
        cases hleft
    · have hsome : s.thread ≠ none := fun hn => hstopped ⟨by
        by_contra hr
        exact hheld (by simpa using hr) hn, hn⟩
      exact joined_solo (s := { s with stopSyntheticThread := true }) hothers h.crashed h.alive h.nodup
        (fun hf => by cases hf) h.runs (fun hr => .inl (hheld hr)) (fun _ => rfl) (fun _ => ⟨h.runs hsome, rfl⟩)
        (fun _ _ => hsome) (fun r' he => by cases he)
  | joinable r =>
    have hsome : s.thread ≠ none := h.joins g r (.inl hp)
    have hasks := h.asks g (by rw [hp]; rfl)
    unfold Switch.advance
    dsimp only
    rw [if_pos (Option.isSome_iff_ne_none.mpr hsome)]
    exact joined_solo hothers h.crashed h.alive h.nodup h.loops h.runs (fun _ => .inl hsome) (fun _ => rfl)
      (fun _ => hasks) (fun _ _ => hsome) (fun r' he => by cases he)
  | join r =>
    have hasks := h.asks g (by rw [hp]; rfl)
    unfold Switch.advance
    dsimp only
    split
    · rename_i hnone
      exact absurd hnone (h.joins g r (.inr hp))
    · rename_i k hk
      split_ifs with halive
      · exact h
      · -- the thread has ended
        have hempty : ∀ k' ∈ s.alive, (none : Option ℕ) = some k' := fun k' hk' => by
          obtain rfl : k = k' := Option.some.inj (hk.symm.trans (h.alive k' hk'))
          exact absurd hk' halive
        exact joined_solo (s := { s with thread := none }) hothers h.crashed hempty h.nodup
          (fun _ k' hk' => by cases hk') (fun hn => absurd rfl hn) (fun _ => .inr ⟨r, rfl⟩) (fun _ => rfl)
          (fun _ => hasks) (fun r' he => by rcases he with he | he <;> cases he) (fun _ _ => rfl)
  | release r =>
    have hnone : s.thread = none := h.joined g r hp
    have hleft := rest_place_stops r
    refine joined_solo (s := { s with syntheticThreadRunning := false, stopSyntheticThread := false }) hothers
      h.crashed h.alive h.nodup (fun _ k hk => by rw [show s.thread = some k from hk] at hnone; cases hnone)
      (fun hn => absurd hnone hn) (fun hr => by cases hr) (fun ha => by cases ha)
      (fun ha => ?_) ?_ ?_
    · rw [asks_of_stops hleft] at ha
      cases ha
    · rintro r' (he | he) <;> rw [he] at hleft <;> cases hleft
    · intro r' he
      rw [he] at hleft
      cases hleft
  | _ => rw [hp] at hg; cases hg

theorem joined_step (s : Switch) (i : Step) (h : Joined s) (hok : Apart s i) : Joined (s.step i) := by
  unfold Apart at hok
  unfold step at hok ⊢
  have hrun : ¬s.crashed = true := by simp [h.crashed]
  simp only [if_neg hrun] at hok ⊢
  cases i with
  | loop k =>
    dsimp only at hok ⊢
    split_ifs with ha
    · refine ⟨h.crashed, h.alone, fun k' hk' => h.alive k' (List.mem_of_mem_filter hk'), h.nodup.filter _,
        fun hf => absurd ha (Bool.eq_false_iff.mp hf), h.runs, h.held, h.asked, h.asks, h.joins, h.joined⟩
    · exact h
  | call g c ok =>
    dsimp only at hok ⊢
    split_ifs at hok ⊢ with hidle
    · have hout : (s.place g).stops = false := by rw [hidle]; rfl
      -- whoever is in `StopSyntheticThread` is there alone
      have hothers : ∀ {s' : Switch} {r : Rest}, s'.place = s.place →
          (∀ g₁ g₂, ((s'.goTo g (.stop r)).place g₁).stops = true → ((s'.goTo g (.stop r)).place g₂).stops = true →
            g₁ = g₂) → ∀ g' ≠ g, (s.place g').stops = false := by
        intro s' r hplace hone g' hne
        by_contra hn
        refine hne (hone g' g ?_ ?_)
        · rw [goTo_place, if_neg hne, hplace]
          simpa using hn
        · rw [goTo_place, if_pos rfl]
          rfl
      cases c with
      | useMicrophone =>
        simp only [begin] at hok ⊢
        split_ifs at hok ⊢
        · exact h
        · exact h.enter hout _ (hothers rfl hok) rfl rfl rfl rfl rfl rfl
      | useSyntheticPcm sampleRateHz channels => exact h.outside hout rfl rfl rfl rfl rfl rfl rfl
      | startRecording =>
        have hset : Joined { s with recordingRequested := true } :=
          ⟨h.crashed, h.alone, h.alive, h.nodup, h.loops, h.runs, h.held, h.asked, h.asks, h.joins, h.joined⟩
        simp only [begin]
        split_ifs
        · exact hset.start
        · exact hset.live ok
      | stopRecording =>
        simp only [begin] at hok ⊢
        split_ifs at hok ⊢
        · exact h.enter hout _ (hothers rfl hok) rfl rfl rfl rfl rfl rfl
        · exact h.outside hout rfl rfl rfl rfl rfl rfl rfl
      | terminate => exact h.enter hout _ (hothers rfl hok) rfl rfl rfl rfl rfl rfl
    · exact h
  | go g ok =>
    by_cases hg : (s.place g).stops = true
    · exact h.advance ok hg
    · replace hg : (s.place g).stops = false := by simpa using hg
      dsimp only
      cases hp : s.place g with
      | idle => exact h
      | stopLive start =>
        refine h.outside (p := if start then .startSynthetic else .idle) hg ?_ rfl rfl rfl rfl rfl rfl
        cases start <;> rfl
      | startSynthetic =>
        refine h.start.outside (g := g) (p := .idle) ?_ rfl rfl rfl rfl rfl rfl rfl
        rw [start_place]
        exact hg
      | startLive | stopRecording | terminate => exact h.outside (p := .idle) hg rfl rfl rfl rfl rfl rfl rfl
      | _ => rw [hp] at hg; cases hg

theorem joined_init : Joined {} := by
  refine ⟨rfl, ?_, ?_, .nil, ?_, ?_, ?_, ?_, ?_, ?_, ?_⟩ <;> simp [Place.stops, Place.asks]

theorem Joined.unasked {s : Switch} (h : Joined s) (hnobody : ∀ g, (s.place g).stops = false) :
    s.stopSyntheticThread = false := by
  by_contra hn
  obtain ⟨g, ha⟩ := h.asked (by simpa using hn)
  rw [asks_of_stops (hnobody g)] at ha
  cases ha

/-- When nobody stops the thread, it is in its loop as long as it counts as running. -/
theorem Joined.loops_iff {s : Switch} (h : Joined s) (hnobody : ∀ g, (s.place g).stops = false) :
    s.syntheticThreadRunning = true ↔ s.alive ≠ [] := by
  constructor
  · intro hr
    rcases h.held hr with ht | ⟨g, r, hrel⟩
    · obtain ⟨k, hk⟩ := Option.ne_none_iff_exists'.mp ht
      exact List.ne_nil_of_mem (h.loops (h.unasked hnobody) k hk)
    · have hs := hnobody g
      rw [hrel] at hs
      cases hs
  · intro hn
    obtain ⟨k, hk⟩ := List.exists_mem_of_ne_nil _ hn
    refine h.runs ?_
    rw [h.alive k hk]
    simp

/-- **The synthetic thread is started, stopped and joined once.**  In every run in which no two calls are in
`StopSyntheticThread` at the same time, no thread object is joined twice or written over while it can be joined, and no
two threads are in the loop; whenever nobody is stopping it, the thread is in its loop if and only if it counts as
running, and has not been asked to stop. -/
theorem synthetic_thread_safe (l : List Step) (hl : Meets step Apart {} l) :
    let s := run step {} l
    s.crashed = false ∧ s.alive.length ≤ 1 ∧
      ((∀ g, (s.place g).stops = false) →
        (s.syntheticThreadRunning = true ↔ s.alive ≠ []) ∧ s.stopSyntheticThread = false) := by
  intro s
  have h : Joined s := run_invariant (P := Joined) joined_step joined_init hl
  refine ⟨h.crashed, ?_, fun hnobody => ?_⟩
  · cases hs : s.alive with
    | nil => simp
    | cons k ks =>
      -- every thread in the loop is the one that can be joined
      have hsame : ∀ k' ∈ s.alive, k' = k := fun k' hk' =>
        Option.some.inj ((h.alive k' hk').symm.trans (h.alive k (hs ▸ List.mem_cons_self)))
      have hnodup := h.nodup
      rw [hs, List.nodup_cons] at hnodup
      have hks : ks = [] := by
        rw [List.eq_nil_iff_forall_not_mem]
        intro k' hk'
        obtain rfl := hsame k' (hs ▸ List.mem_cons_of_mem k hk')
        exact hnodup.1 hk'
      simp [hks]
  · exact ⟨h.loops_iff hnobody, h.unasked hnobody⟩

/-- Recording is asked for while the synthetic samples are being chosen, and stopped again. -/
def startedMidway : List Step :=
  [.call 0 (.useSyntheticPcm 48000 2) true, .call 1 .startRecording true, .go 0 true, .call 0 .stopRecording true,
    .go 0 true, .go 0 true, .loop 0, .go 0 true, .go 0 true]

theorem startedMidway_apart : Meets step Apart {} startedMidway := by
  simp [startedMidway, Apart, step, begin, advance, goTo, startSyntheticThreadLocked, stopLive, Rest.place,
    Function.update_apply, apply_ite Place.stops]
  simp [Place.stops]

theorem startedMidway_safe :
    (run step {} startedMidway).crashed = false ∧ (run step {} startedMidway).alive.length ≤ 1 :=
  ⟨(synthetic_thread_safe _ startedMidway_apart).1, (synthetic_thread_safe _ startedMidway_apart).2.1⟩

/-- Two calls to `StopSyntheticThread`, both in the middle: one of them joins a thread that is joined already, and the
process ends. -/
example :
    (run step {} [.call 0 (.useSyntheticPcm 48000 2) true, .go 0 true, .call 0 .startRecording true,
      .call 1 .stopRecording true, .call 2 .useMicrophone true, .go 1 true, .go 1 true, .go 2 true, .go 2 true, .loop 0,
      .go 1 true, .go 2 true]).crashed = true := by
  decide

/-! ### The source that is chosen -/

/-- What the caller has seen to when it has stopped the synthetic thread. -/
def Rest.Fits (s : Switch) : Rest → Prop
  | .startLive start => s.mode = .microphone ∧ start = s.recordingRequested ∧ s.live = false
  | .nothing => s.mode = .synthetic ∧ s.recordingRequested = false ∧ s.live = false
  | .terminate => s.recordingRequested = false

/-- What holds where a caller stands, when nobody else is about; `lucky`: the microphone has not failed to start. -/
def Fits (s : Switch) (lucky : Prop) : Place → Prop
  | .idle =>
    (s.syntheticThreadRunning = true ↔ s.mode = .synthetic ∧ s.recordingRequested = true) ∧
      (s.live = true → s.mode = .microphone ∧ s.recordingRequested = true) ∧
      (lucky → s.mode = .microphone → s.recordingRequested = true → s.live = true)
  | .stop r | .joinable r | .join r | .release r => Rest.Fits s r
  | .startLive => s.mode = .microphone ∧ s.recordingRequested = true ∧ s.syntheticThreadRunning = false ∧ s.live = false
  | .stopLive start =>
    s.mode = .synthetic ∧ start = s.recordingRequested ∧
      (s.syntheticThreadRunning = true → s.recordingRequested = true)
  | .startSynthetic => s.mode = .synthetic ∧ s.recordingRequested = true ∧ s.live = false
  | .stopRecording => s.mode = .microphone ∧ s.recordingRequested = false ∧ s.syntheticThreadRunning = false
  | .terminate => s.recordingRequested = false ∧ s.syntheticThreadRunning = false

@[simp] theorem goTo_self (s : Switch) (g : ℕ) (p : Place) : (s.goTo g p).place g = p := by
  rw [goTo_place, if_pos rfl]

theorem goTo_other (s : Switch) {g g' : ℕ} (p : Place) (hne : g' ≠ g) : (s.goTo g p).place g' = s.place g' := by
  rw [goTo_place, if_neg hne]

/-- A call moves nobody but the caller. -/
theorem begin_other (s : Switch) {g g' : ℕ} (ok : Bool) (c : Call) (hne : g' ≠ g) :
    (s.begin g ok c).place g' = s.place g' := by
  cases c <;> simp only [begin]
  case useMicrophone =>
    split_ifs
    · rfl
    · exact goTo_other _ _ hne
  case startRecording =>
    split_ifs
    · rw [start_place]
    · rfl
  all_goals exact goTo_other _ _ hne

theorem advance_other (s : Switch) {g g' : ℕ} (ok : Bool) (p : Place) (hne : g' ≠ g) :
    (s.advance g ok p).place g' = s.place g' := by
  cases p <;> simp only [Switch.advance]
  case stop r => split_ifs <;> exact goTo_other _ _ hne
  case join r =>
    split
    · rfl
    · split_ifs
      · rfl
      · exact goTo_other _ _ hne
  case startSynthetic => rw [goTo_other _ _ hne, start_place]
  all_goals exact goTo_other _ _ hne

theorem fits_rest {s : Switch} {lucky : Prop} {r : Rest} (hfits : Rest.Fits s r)
    (hstopped : s.syntheticThreadRunning = false) : s.Fits lucky r.place := by
  cases r with
  | startLive start =>
    obtain ⟨hmode, hstart, hlive⟩ := hfits
    cases start
    · simp [Rest.place, Fits, hmode, hlive, hstopped, ← hstart]
    · exact ⟨hmode, hstart.symm, hstopped, hlive⟩
  | nothing =>
    obtain ⟨hmode, hreq, hlive⟩ := hfits
    simp [Rest.place, Fits, hmode, hreq, hlive, hstopped]
  | terminate => exact ⟨hfits, hstopped⟩

@[simp] theorem fits_goTo (s : Switch) (lucky : Prop) (g : ℕ) (p q : Place) :
    (s.goTo g p).Fits lucky q ↔ s.Fits lucky q := by
  cases q <;> rfl

/-- The thread records after `StartSyntheticThreadLocked`, and nothing else is different. -/
theorem start_fields (s : Switch) :
    s.startSyntheticThreadLocked.syntheticThreadRunning = true ∧ s.startSyntheticThreadLocked.mode = s.mode ∧
      s.startSyntheticThreadLocked.recordingRequested = s.recordingRequested ∧
      s.startSyntheticThreadLocked.live = s.live := by
  unfold startSyntheticThreadLocked
  split_ifs with hr
  · exact ⟨hr, rfl, rfl, rfl⟩
  · exact ⟨rfl, rfl, rfl, rfl⟩

theorem fits_start {s : Switch} {lucky : Prop} (hmode : s.mode = .synthetic) (hreq : s.recordingRequested = true)
    (hlive : s.live = false) : s.startSyntheticThreadLocked.Fits lucky .idle := by
  obtain ⟨hr, hm, hq, hl⟩ := s.start_fields
  simp [Fits, hr, hm, hq, hl, hmode, hreq, hlive]

/-- The first section of a call, when nobody else is about. -/
theorem fits_begin {s : Switch} {lucky : Prop} {g : ℕ} {ok : Bool} (hfits : s.Fits lucky .idle)
    (hg : s.place g = .idle) (hok : lucky → ok = true) (c : Call) :
    (s.begin g ok c).Fits lucky ((s.begin g ok c).place g) := by
  obtain ⟨hruns, hlive, hlucky⟩ := hfits
  have hsilent : s.mode = .synthetic → s.live = false := fun hm => by
    by_contra hn
    have hmic := (hlive (by simpa using hn)).1
    rw [hm] at hmic
    cases hmic
  have hmode : s.mode ≠ .microphone → s.mode = .synthetic := by
    cases s.mode <;> simp
  cases c with
  | useMicrophone =>
    simp only [begin]
    split_ifs with hm
    · rw [hg]
      exact ⟨hruns, hlive, hlucky⟩
    · rw [goTo_self, fits_goTo]
      exact ⟨rfl, rfl, hsilent (hmode hm)⟩
  | useSyntheticPcm sampleRateHz channels =>
    simp only [begin]
    rw [goTo_self, fits_goTo]
    exact ⟨rfl, rfl, fun hr => (hruns.mp hr).2⟩
  | startRecording =>
    simp only [begin]
    split_ifs with hm
    · rw [start_place]
      simp only [hg]
      exact fits_start hm rfl (hsilent hm)
    · simp only [startLive, hg]
      refine ⟨⟨fun hr => absurd (hruns.mp hr).1 hm, fun hr => absurd hr.1 hm⟩, fun _ => ⟨?_, rfl⟩, fun hl _ _ => ?_⟩
      · cases hs : s.mode with
        | microphone => rfl
        | synthetic => exact absurd hs hm
      · simp [hok hl]
  | stopRecording =>
    simp only [begin]
    rw [goTo_self, fits_goTo]
    split_ifs with hm
    · exact ⟨hm, rfl, hsilent hm⟩
    · refine ⟨?_, rfl, ?_⟩
      · cases hs : s.mode with
        | microphone => rfl
        | synthetic => exact absurd hs hm
      · by_contra hr
        exact hm (hruns.mp (by simpa using hr)).1
  | terminate =>
    simp only [begin]
    rw [goTo_self, fits_goTo]
    exact rfl

/-- The next statement of a call, when nobody else is about. -/
theorem fits_advance {s : Switch} {lucky : Prop} {g : ℕ} {ok : Bool} (hfits : s.Fits lucky (s.place g))
    (hok : lucky → ok = true) :
    (s.advance g ok (s.place g)).Fits lucky ((s.advance g ok (s.place g)).place g) := by
  cases hp : s.place g with
  | idle =>
    rw [hp] at hfits
    simpa only [Switch.advance, hp] using hfits
  | stop r =>
    rw [hp] at hfits
    simp only [Switch.advance]
    split_ifs with hstopped
    · rw [goTo_self, fits_goTo]
      exact fits_rest hfits hstopped.1
    · rw [goTo_self, fits_goTo]
      exact hfits
  | joinable r =>
    rw [hp] at hfits
    simp only [Switch.advance]
    rw [goTo_self, fits_goTo]
    split_ifs <;> exact hfits
  | join r =>
    rw [hp] at hfits
    simp only [Switch.advance]
    split
    · simp only [hp]
      exact hfits
    · split_ifs
      · simpa only [hp] using hfits
      · rw [goTo_self, fits_goTo]
        exact hfits
  | release r =>
    rw [hp] at hfits
    simp only [Switch.advance]
    rw [goTo_self, fits_goTo]
    exact fits_rest hfits rfl
  | startLive =>
    rw [hp] at hfits
    obtain ⟨hmode, hreq, hrunning, hlive⟩ := hfits
    simp only [Switch.advance]
    rw [goTo_self, fits_goTo]
    refine ⟨by simp [startLive, hrunning, hmode], fun _ => ⟨hmode, hreq⟩, fun hl _ _ => ?_⟩
    simp [startLive, hok hl]
  | stopLive start =>
    rw [hp] at hfits
    obtain ⟨hmode, hstart, hrunning⟩ := hfits
    simp only [Switch.advance]
    rw [goTo_self, fits_goTo]
    cases start with
    | true => exact ⟨hmode, hstart.symm, rfl⟩
    | false =>
      have hstopped : s.syntheticThreadRunning ≠ true := fun hr => by
        rw [hrunning hr] at hstart
        cases hstart
      simp [Fits, stopLive, hmode, ← hstart, hstopped]
  | startSynthetic =>
    rw [hp] at hfits
    obtain ⟨hmode, hreq, hlive⟩ := hfits
    simp only [Switch.advance]
    rw [goTo_self, fits_goTo]
    exact fits_start hmode hreq hlive
  | stopRecording =>
    rw [hp] at hfits
    obtain ⟨hmode, hreq, hrunning⟩ := hfits
    simp only [Switch.advance]
    rw [goTo_self, fits_goTo]
    simp [Fits, stopLive, hmode, hreq, hrunning]
  | terminate =>
    rw [hp] at hfits
    obtain ⟨hreq, hrunning⟩ := hfits
    simp only [Switch.advance]
    rw [goTo_self, fits_goTo]
    simp [Fits, stopLive, hreq, hrunning]

/-- What holds as long as calls do not overlap. -/
structure Serialized (s : Switch) (lucky : Prop) : Prop where
  joined : Joined s
  solo : ∃ g, (∀ g' ≠ g, s.place g' = .idle) ∧ s.Fits lucky (s.place g)

theorem Serialized.idle {s : Switch} {lucky : Prop} (h : Serialized s lucky) (hidle : ∀ g, s.place g = .idle) :
    s.Fits lucky .idle := by
  obtain ⟨g, -, hfits⟩ := h.solo
  rwa [hidle g] at hfits

theorem serialized_step {lucky : Prop} (s : Switch) (i : Step) (h : Serialized s lucky)
    (hok : Serial s i ∧ (lucky → i.ok = true)) : Serialized (s.step i) lucky := by
  have hsolo : ∃ g, (∀ g' ≠ g, (s.step i).place g' = .idle) ∧ (s.step i).Fits lucky ((s.step i).place g) := by
    obtain ⟨g, hothers, hfits⟩ := h.solo
    have hrun : ¬s.crashed = true := by simp [h.joined.crashed]
    unfold step
    rw [if_neg hrun]
    cases i with
    | loop k =>
      refine ⟨g, ?_⟩
      dsimp only
      split_ifs
      · refine ⟨hothers, ?_⟩
        dsimp only
        cases hp : s.place g <;> rw [hp] at hfits <;> exact hfits
      · exact ⟨hothers, hfits⟩
    | call g₁ c ok =>
      -- whoever calls is alone
      have hidle : ∀ g, s.place g = .idle := hok.1
      refine ⟨g₁, ?_⟩
      dsimp only
      rw [if_pos (hidle g₁)]
      exact ⟨fun g' hne => (begin_other s ok c hne).trans (hidle g'), fits_begin (h.idle hidle) (hidle g₁) hok.2 c⟩
    | go g₁ ok =>
      refine ⟨g, ?_⟩
      by_cases hg : g₁ = g
      · rw [hg]
        exact ⟨fun g' hne => (advance_other s ok _ hne).trans (hothers g' hne), fits_advance hfits hok.2⟩
      · dsimp only
        rw [hothers g₁ hg]
        exact ⟨hothers, hfits⟩
  refine ⟨joined_step s i h.joined fun g₁ g₂ h₁ h₂ => ?_, hsolo⟩
  obtain ⟨g, hothers, -⟩ := hsolo
  have hself : ∀ g', ((s.step i).place g').stops = true → g' = g := fun g' hs => by
    by_contra hne
    rw [hothers g' hne] at hs
    cases hs
  exact (hself g₁ h₁).trans (hself g₂ h₂).symm

theorem serialized_init (lucky : Prop) : Serialized {} lucky :=
  ⟨joined_init, 0, fun _ _ => rfl, by simp [Fits]⟩

theorem Serialized.nobody {s : Switch} (hidle : ∀ g, s.place g = .idle) : ∀ g, (s.place g).stops = false := by
  intro g
  rw [hidle g]
  rfl

/-- **The source that is chosen records, and only that one.**  In every run whose calls do not overlap, nothing
crashes, and whenever no call is under way: the synthetic thread is in its loop if and only if the synthetic samples
are chosen and recording has been asked for; the microphone records only if it is chosen and recording has been asked
for, and then it does so, if it has never failed to start. -/
theorem one_source_records (l : List Step) (hl : Meets step Serial {} l) :
    let s := run step {} l
    s.crashed = false ∧ ((∀ g, s.place g = .idle) →
      (s.alive ≠ [] ↔ s.mode = .synthetic ∧ s.recordingRequested = true) ∧
      (s.live = true → s.mode = .microphone ∧ s.recordingRequested = true) ∧
      ((∀ i ∈ l, i.ok = true) → s.mode = .microphone → s.recordingRequested = true → s.live = true)) := by
  intro s
  have hok : Meets step (fun s i => Serial s i ∧ ((∀ i ∈ l, i.ok = true) → i.ok = true)) {} l :=
    meets_and.mpr ⟨hl, meets_of_forall _ fun i hi hlucky => hlucky i hi⟩
  have h : Serialized s (∀ i ∈ l, i.ok = true) :=
    run_invariant (P := fun s => Serialized s (∀ i ∈ l, i.ok = true)) serialized_step (serialized_init _) hok
  refine ⟨h.joined.crashed, fun hidle => ?_⟩
  obtain ⟨hruns, hlive, hlucky⟩ := h.idle hidle
  exact ⟨(h.joined.loops_iff (Serialized.nobody hidle)).symm.trans hruns, hlive, hlucky⟩

/-- The microphone records until the synthetic samples are chosen, and these until recording is stopped. -/
def switched : List Step :=
  [.call 0 .startRecording true, .call 0 (.useSyntheticPcm 48000 2) true, .go 0 true, .go 0 true,
    .call 1 .stopRecording true, .go 1 true, .go 1 true, .loop 0, .go 1 true, .go 1 true]

theorem switched_serial : Meets step Serial {} switched := by
  simp [switched, Serial, step, begin, advance, goTo, startLive, startSyntheticThreadLocked, stopLive, Rest.place]

theorem switched_idle (g : ℕ) : (run step {} switched).place g = .idle := by
  simp [switched, step, begin, advance, goTo, startLive, startSyntheticThreadLocked, stopLive, Rest.place]

theorem switched_stops : (run step {} switched).alive = [] ∧ (run step {} switched).live = false := by
  obtain ⟨hsynthetic, hlive, -⟩ := (one_source_records switched switched_serial).2 switched_idle
  have hreq : (run step {} switched).recordingRequested = false := by decide
  constructor
  · by_contra hn
    rw [(hsynthetic.mp hn).2] at hreq
    cases hreq
  · by_contra hn
    rw [(hlive (by simpa using hn)).2] at hreq
    cases hreq

/-! ### Calls that are one section -/

/-- The calls of a run, in the order in which they are made. -/
def calls (l : List Step) : List Call :=
  l.filterMap fun
    | .call _ c _ => some c
    | _ => none

/-- A call on the input whose sections are whole calls. -/
def whole (x : SwitchableAudioInput) : Call → SwitchableAudioInput
  | .useMicrophone => x.useMicrophone
  | .useSyntheticPcm sampleRateHz channels => x.useSyntheticPcm sampleRateHz channels
  | .startRecording => x.startRecording
  | .stopRecording => x.stopRecording
  | .terminate => x.terminate

/-- The input whose sections are whole calls has had the same calls. -/
structure Agrees (s : Switch) (x : SwitchableAudioInput) : Prop where
  mode : x.mode = s.mode
  requested : x.recordingRequested = s.recordingRequested
  runs : x.syntheticThreadRunning = true ↔ x.mode = .synthetic ∧ x.recordingRequested = true

theorem started_fields (x : SwitchableAudioInput) :
    x.startSyntheticThreadLocked.syntheticThreadRunning = true ∧ x.startSyntheticThreadLocked.mode = x.mode ∧
      x.startSyntheticThreadLocked.recordingRequested = x.recordingRequested := by
  unfold SwitchableAudioInput.startSyntheticThreadLocked
  split_ifs with hr
  · exact ⟨hr, rfl, rfl⟩
  · exact ⟨rfl, rfl, rfl⟩

/-- The thread is started on an input that has been asked for it. -/
theorem agrees_started {s : Switch} {x : SwitchableAudioInput} (hm : x.mode = s.mode)
    (hq : x.recordingRequested = s.recordingRequested) (hsyn : x.mode = .synthetic)
    (hreq : x.recordingRequested = true) : Agrees s x.startSyntheticThreadLocked := by
  obtain ⟨hr, hmode, hreq'⟩ := started_fields x
  exact ⟨hmode.trans hm, hreq'.trans hq, ⟨fun _ => ⟨hmode.trans hsyn, hreq'.trans hreq⟩, fun _ => hr⟩⟩

/-- A call sets what is asked for in its first section. -/
theorem Agrees.begin {s : Switch} {x : SwitchableAudioInput} (h : Agrees s x) (g : ℕ) (ok : Bool) (c : Call) :
    Agrees (s.begin g ok c) (whole x c) := by
  have hm := h.mode
  cases c with
  | useMicrophone =>
    simp only [Switch.begin, whole, SwitchableAudioInput.useMicrophone, hm]
    split_ifs with hmic
    · exact h
    · exact ⟨rfl, h.requested, by simp [SwitchableAudioInput.stopSyntheticThread]⟩
  | useSyntheticPcm sampleRateHz channels =>
    simp only [Switch.begin, whole, SwitchableAudioInput.useSyntheticPcm]
    by_cases hreq : x.recordingRequested = true
    · rw [if_pos hreq]
      exact agrees_started rfl h.requested rfl hreq
    · rw [if_neg hreq]
      exact ⟨rfl, h.requested, ⟨fun hr => absurd (h.runs.mp hr).2 hreq, fun hr => absurd hr.2 hreq⟩⟩
  | startRecording =>
    simp only [Switch.begin, whole, SwitchableAudioInput.startRecording, hm]
    split_ifs with hsyn
    · obtain ⟨-, hmode, hreq, -⟩ := start_fields { s with recordingRequested := true }
      exact agrees_started hmode.symm hreq.symm hsyn rfl
    · refine ⟨rfl, rfl, ⟨fun hr => absurd (hm.symm.trans (h.runs.mp hr).1) hsyn, fun hr => absurd hr.1 hsyn⟩⟩
  | stopRecording =>
    simp only [Switch.begin, whole, SwitchableAudioInput.stopRecording, hm]
    split_ifs with hsyn
    · exact ⟨rfl, rfl, by simp [SwitchableAudioInput.stopSyntheticThread]⟩
    · exact ⟨rfl, rfl, ⟨fun hr => absurd (hm.symm.trans (h.runs.mp hr).1) hsyn, fun hr => by simp at hr⟩⟩
  | terminate =>
    exact ⟨hm, rfl, by simp [whole, SwitchableAudioInput.terminate, SwitchableAudioInput.stopSyntheticThread]⟩

/-- The other sections do not touch it. -/
theorem Agrees.advance {s : Switch} {x : SwitchableAudioInput} (h : Agrees s x) (g : ℕ) (ok : Bool) (p : Place) :
    Agrees (s.advance g ok p) x := by
  cases p with
  | idle => exact h
  | stop r =>
    simp only [Switch.advance]
    split_ifs <;> exact ⟨h.mode, h.requested, h.runs⟩
  | join r =>
    simp only [Switch.advance]
    split
    · exact ⟨h.mode, h.requested, h.runs⟩
    · split_ifs <;> exact ⟨h.mode, h.requested, h.runs⟩
  | startSynthetic =>
    obtain ⟨-, hmode, hreq, -⟩ := s.start_fields
    exact ⟨h.mode.trans hmode.symm, h.requested.trans hreq.symm, h.runs⟩
  | _ => exact ⟨h.mode, h.requested, h.runs⟩

theorem agrees_run {s : Switch} {x : SwitchableAudioInput} (hs : Serialized s False) (h : Agrees s x) {l : List Step}
    (hl : Meets step Serial s l) :
    Serialized (run step s l) False ∧ Agrees (run step s l) ((calls l).foldl whole x) := by
  induction l generalizing s x with
  | nil => exact ⟨hs, h⟩
  | cons i l ih =>
    have hs' := serialized_step s i hs ⟨hl.1, fun hf => hf.elim⟩
    have hrun : ¬s.crashed = true := by simp [hs.joined.crashed]
    cases i with
    | call g c ok =>
      have hstep : s.step (.call g c ok) = s.begin g ok c := by
        simp only [Switch.step, if_neg hrun]
        exact if_pos (hl.1 g)
      exact ih hs' (by rw [hstep]; exact h.begin g ok c) hl.2
    | go g ok =>
      have hstep : s.step (.go g ok) = s.advance g ok (s.place g) := by
        simp only [Switch.step, if_neg hrun]
      exact ih hs' (by rw [hstep]; exact h.advance g ok _) hl.2
    | loop k =>
      have hagrees : Agrees (s.step (.loop k)) x := by
        simp only [Switch.step, if_neg hrun]
        split_ifs <;> exact ⟨h.mode, h.requested, h.runs⟩
      exact ih hs' hagrees hl.2

/-- **Calls that do not overlap are whole.**  Whenever no call is under way, the source that is chosen, whether
recording has been asked for, and whether the synthetic thread is in its loop are what they are for the input on which
the same calls have been made one after another, each in a section of its own. -/
theorem calls_are_whole (l : List Step) (hl : Meets step Serial {} l) (hidle : ∀ g, (run step {} l).place g = .idle) :
    let s := run step {} l
    let x := (calls l).foldl whole {}
    s.mode = x.mode ∧ s.recordingRequested = x.recordingRequested ∧
      (s.alive ≠ [] ↔ x.syntheticThreadRunning = true) := by
  intro s x
  obtain ⟨hs, h⟩ := agrees_run (x := {}) (serialized_init False) ⟨rfl, rfl, by simp⟩ hl
  refine ⟨h.mode.symm, h.requested.symm, (hs.joined.loops_iff (Serialized.nobody hidle)).symm.trans ?_⟩
  rw [h.runs, h.mode, h.requested]
  exact (hs.idle hidle).1

theorem switched_whole :
    (run step {} switched).alive ≠ [] ↔ ((calls switched).foldl whole {}).syntheticThreadRunning = true :=
  (calls_are_whole switched switched_serial switched_idle).2.2

end Switch

end PeerCall.AudioSwitch
