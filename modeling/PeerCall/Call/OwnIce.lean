import PeerCall.Call.IoThread

/-!
# Call.OwnIce — a call is connected by its own ICE events

An ICE event says nothing about the call it belongs to, and one that is queued when its call ends is executed
later all the same.  What keeps it away from the next call is the order of the queue: whatever lets a call
start to connect has been queued after the call began, so that nothing older is left behind it.
-/

namespace PeerCall

open PeerCall.Lib

/-! ### What a task does to the call -/

namespace Coordinator

/-- The counter of the call ids never goes back. -/
theorem callCounter_le_step (c : Coordinator) (i : Input) :
    c.manager.callCounter ≤ (c.step i).manager.callCounter := by
  have hturn := c.exec_turn i
  unfold step
  generalize (c.exec i).1.manager = m at hturn ⊢
  generalize signals (c.exec i).2 = sent at hturn
  cases hturn with
  | nothing => exact le_rfl
  | media _ => exact le_rfl
  | closing => exact le_rfl
  | operation hop _ => exact (c.manager.samePorts_perform hop).2
  | expiry =>
    rw [CallManager.expire_eq]
    split_ifs <;> exact le_rfl

/-- A call that is being placed has the id just generated. -/
theorem generated_of_calling {c : Coordinator} {i : Input} (hc : c.manager.callState = .idle)
    (hc' : (c.step i).manager.callState = .calling) :
    ∃ tick, (c.step i).manager.currentCallId = generateCallId tick c.manager.callCounter := by
  have hturn := c.exec_turn i
  have hstate : (c.exec i).1.manager.session.state = .calling := hc'
  show ∃ tick, (c.exec i).1.manager.session.callId = _
  generalize (c.exec i).1.manager = m at hturn hstate ⊢
  generalize signals (c.exec i).2 = sent at hturn
  have hne : c.manager.session.state ≠ .calling := by
    rw [show c.manager.session.state = .idle from hc]
    simp
  cases hturn with
  | nothing => exact absurd hstate hne
  | media _ => exact absurd hstate hne
  | closing => exact absurd hstate hne
  | expiry =>
    rcases c.manager.expire_session with he | ⟨-, he⟩
    · rw [he] at hstate
      exact absurd hstate hne
    · rw [he] at hstate
      cases hstate
  | operation hop hs =>
    rename_i op
    have ht := c.manager.perform_transition op
    generalize (c.manager.perform op).1.session = y at ht hstate ⊢
    cases ht with
    | stay => exact absurd hstate hne
    | initiate target tick => exact ⟨tick, rfl⟩
    | _ => cases hstate

end Coordinator

/-- What a task can do to the call and its peer connection; `n`: how many are created. -/
inductive Outcome (t : Task) (c c' : Coordinator) : ℕ → Prop
  | same (hs : c'.manager.session = c.manager.session) (hl : c'.engine.live = true → c.engine.live = true) :
    Outcome t c c' 0
  | begin (hc : c.manager.callState = .idle) (hc' : c'.manager.callState = .calling ∨ c'.manager.callState = .receiving)
      (hl : c'.engine.live = false)
      (hid : c'.manager.callState = .calling →
        ∃ tick, c'.manager.currentCallId = generateCallId tick c.manager.callCounter) :
    Outcome t c c' 0
  | setUp {i : Input} (ht : t = .input i) (hi : c.SetsUp i) (hc : c.manager.callState ≠ .idle)
      (hc' : c'.manager.callState = .connecting) : Outcome t c c' 1
  | establish (hc : c.manager.callState = .connecting) (hc' : c'.manager.callState = .connected)
      (hl : c'.engine.live = true → c.engine.live = true) : Outcome t c c' 0
  | finish (hc' : c'.manager.callState = .idle) (hl : c'.engine.live = false) : Outcome t c c' 0

theorem outcome_step {c : Coordinator} (h : c.Sound) {t : Task} {i : Input} (ht : t = .input i ∨ i = .endCall) :
    Outcome t c (c.step i) (creations (c.exec i).2) := by
  have hsound := Coordinator.sound_step c i h
  by_cases hs : (c.step i).shutdownStarted = true
  · have hdead := (hsound.silent hs).2.1
    obtain ⟨hn, he⟩ := Coordinator.step_silenced h hs
    rw [hn]
    rcases he with he | he
    · exact .same he fun hl => absurd (hdead.symm.trans hl) (by simp)
    · exact .finish he hdead
  · obtain ⟨hs', hi⟩ := Coordinator.step_alive (eq_false_of_ne_true hs)
    obtain ⟨p, -, hc⟩ := Coordinator.exec_course hs' (h.observer hs') h.nested.live hi
    have hdown : ¬ (c.step i).standing.Up → (c.step i).engine.live = false := fun hd => by
      by_contra hl
      exact hd (hsound.nested.live (eq_true_of_ne_false hl))
    generalize hn : creations (c.exec i).2 = n at hc ⊢
    generalize hy : (c.step i).standing = y at hc hdown
    have hses : (c.step i).manager.session = y.session := congrArg Standing.session hy
    have hst : (c.step i).manager.callState = y.session.state := congrArg Session.state hses
    have hlive : (c.step i).engine.live = y.live := congrArg Standing.live hy
    cases hc with
    | same => exact .same hses fun hl => hlive.symm.trans hl
    | begin z hidle hz =>
      refine .begin hidle (by rw [hst]; exact hz) (hdown ?_) (Coordinator.generated_of_calling hidle)
      rintro (hu | hu) <;> rcases hz with hz | hz <;> simp [hz] at hu
    | setUp hx =>
      have hup : (c.step i).manager.Up := Or.inl hst
      have hd : ¬ c.manager.Up := by
        rintro (hu | hu) <;> rcases hx with hx | hx <;>
          simp [show c.manager.callState = _ from hx] at hu
      have hset := (Coordinator.up_iff_setsUp h hs' hd i).mp hup
      rcases ht with ht | rfl
      · refine .setUp ht hset ?_ hst
        rcases hx with hx | hx <;> simp [show c.manager.callState = _ from hx]
      · exact hset.elim
    | establish hx => exact .establish hx hst fun hl => hlive.symm.trans hl
    | finish closes hx hcl =>
      refine .finish hst (hdown ?_)
      rintro (hu | hu) <;> simp at hu

/-- **One task.** -/
theorem outcome {c : Coordinator} (h : c.Sound) (t : Task) :
    Outcome t c (t.exec c).1 (creations (t.exec c).2) := by
  rcases t.exec_cases c with ⟨-, -, he, hn⟩ | ⟨i, ht, he, hn⟩
  · rw [he, hn]
    exact .same rfl id
  · rw [he, hn]
    exact outcome_step h (ht.imp_right fun ht => ht.2.1)

theorem callCounter_le_exec (c : Coordinator) (t : Task) :
    c.manager.callCounter ≤ (t.exec c).1.manager.callCounter := by
  rcases t.exec_cases c with ⟨-, -, he, -⟩ | ⟨i, -, he, -⟩
  · rw [he]
  · rw [he]
    exact c.callCounter_le_step i

namespace IoThread

/-! ### Runs in order -/

/-- What the environment keeps to: ICE events come from a live peer connection, a call-response names a call id
only after it was generated, and an `AcceptCall` that takes effect was posted after the incoming call was
reported, that is once it had begun. -/
def Orderly (x : IoThread) : Move → Prop
  | .post (.iceState _) => x.client.engine.live = true
  | .read (.receive _ (.call (.callResponse callId _ _))) =>
    ∀ tick counter, x.client.manager.callCounter ≤ counter → callId ≠ generateCallId tick counter
  | .execute =>
    ∀ q ∈ x.queue.head?, q.task = .input .acceptCall → x.client.manager.callState = .receiving → q.call = x.calls
  | _ => True

/-- The task is a call-response with this id. -/
def Answers (t : Task) (callId : String) : Prop :=
  ∃ sender accepted reason, t = .input (.receive sender (.call (.callResponse callId accepted reason)))

/-- The queue is in the order of the calls, and there is nothing older than a call that is up.  A queued
response names no id still to be generated, so that one which names the call being placed is not older. -/
structure Fresh (x : IoThread) : Prop where
  sound : x.client.Sound
  sorted : x.queue.Pairwise fun q q' => q.call ≤ q'.call
  bounded : ∀ q ∈ x.queue, q.call ≤ x.calls
  current : x.client.manager.Up → ∀ q ∈ x.queue, q.call = x.calls
  owned : x.client.engine.live = true → x.connection = x.calls
  emitted : ∀ q ∈ x.queue, ∀ s, q.task = .input (.iceState s) → q.connection = q.call
  generated : ∀ q ∈ x.queue, ∀ callId, Answers q.task callId →
    ∀ tick counter, x.client.manager.callCounter ≤ counter → callId ≠ generateCallId tick counter
  placed : x.client.manager.callState = .calling → ∀ q ∈ x.queue,
    Answers q.task x.client.manager.currentCallId → q.call = x.calls

theorem fresh_init : Fresh {} := by
  refine ⟨Coordinator.sound_init, .nil, (by simp), (by simp), fun h => absurd h (by decide), (by simp), (by simp),
    (by simp)⟩

/-- A task that is queued belongs to the current call. -/
theorem Fresh.enqueue {x : IoThread} (h : Fresh x) (t : Task) (mark : ℕ)
    (hice : ∀ s, t = .input (.iceState s) → x.client.engine.live = true)
    (hans : ∀ callId, Answers t callId →
      ∀ tick counter, x.client.manager.callCounter ≤ counter → callId ≠ generateCallId tick counter) :
    Fresh (x.enqueue t mark) := by
  have hmem : ∀ q ∈ (x.enqueue t mark).queue, q ∈ x.queue ∨ q = ⟨t, x.calls, x.connection, mark⟩ := by
    intro q hq
    simpa [IoThread.enqueue] using hq
  refine ⟨h.sound, ?_, fun q hq => ?_, fun hup q hq => ?_, h.owned, fun q hq s hs => ?_,
    fun q hq callId ha => ?_, fun hc q hq ha => ?_⟩
  · refine List.pairwise_append.mpr ⟨h.sorted, List.pairwise_singleton _ _, fun q hq q' hq' => ?_⟩
    rw [List.mem_singleton.mp hq']
    exact h.bounded q hq
  · rcases hmem q hq with hq | rfl
    · exact h.bounded q hq
    · exact le_rfl
  · rcases hmem q hq with hq | rfl
    · exact h.current hup q hq
    · rfl
  · rcases hmem q hq with hq | rfl
    · exact h.emitted q hq s hs
    · exact h.owned (hice s hs)
  · rcases hmem q hq with hq | rfl
    · exact h.generated q hq callId ha
    · exact hans callId ha
  · rcases hmem q hq with hq | rfl
    · exact h.placed hc q hq ha
    · rfl

theorem Fresh.rewatched {x : IoThread} (h : Fresh x) (w : Watchdog) : Fresh { x with watchdog := w } :=
  ⟨h.sound, h.sorted, h.bounded, h.current, h.owned, h.emitted, h.generated, h.placed⟩

/-- A timeout of the watchdog says nothing about ICE or a call id. -/
theorem Fresh.timeout {x : IoThread} (h : Fresh x) (mark : ℕ) : Fresh (x.postToCallControl .watchdogTimeout mark) := by
  unfold postToCallControl
  split_ifs
  · exact h
  · refine h.enqueue _ mark (by simp) ?_
    rintro callId ⟨sender, accepted, reason, ht⟩
    cases ht

theorem Fresh.disarm {x : IoThread} (h : Fresh x) : Fresh x.disarm := by
  unfold IoThread.disarm
  cases x.watchdog.thread with
  | none => exact h.rewatched _
  | some t =>
    dsimp only
    split_ifs
    · exact (h.rewatched _).timeout t.mark
    · exact h.rewatched _

theorem not_idle_of_up {m : CallManager} (h : m.Up) : m.callState ≠ .idle := by
  rcases h with h | h <;> rw [h] <;> simp

/-- A task is executed.  If it takes a call up then nothing older may be queued. -/
theorem Fresh.observe {x : IoThread} (h : Fresh x) (t : Task)
    (hset : ∀ i, t = .input i → x.client.SetsUp i → ∀ q ∈ x.queue, q.call = x.calls) : Fresh (x.observe t) := by
  have hsound := Task.sound_exec h.sound t
  have hcounter := callCounter_le_exec x.client t
  have hgen : ∀ q ∈ x.queue, ∀ callId, Answers q.task callId → ∀ tick counter,
      (t.exec x.client).1.manager.callCounter ≤ counter → callId ≠ generateCallId tick counter :=
    fun q hq callId ha tick counter hle => h.generated q hq callId ha tick counter (hcounter.trans hle)
  have ho := outcome h.sound t
  have hstate : ∀ {c c' : Coordinator}, c'.manager.session = c.manager.session →
      c'.manager.callState = c.manager.callState := congrArg Session.state
  -- the number of calls changes only when one begins
  have hcalls : (x.observe t).calls = if x.client.manager.callState = .idle ∧
      (t.exec x.client).1.manager.callState ≠ .idle then x.calls + 1 else x.calls := rfl
  have hconn : (x.observe t).connection =
      if creations (t.exec x.client).2 = 0 then x.connection else (x.observe t).calls := rfl
  have hclient : (x.observe t).client = (t.exec x.client).1 := rfl
  have hqueue : (x.observe t).queue = x.queue := rfl
  generalize x.observe t = y at hcalls hconn hclient hqueue ⊢
  generalize (t.exec x.client).1 = c' at *
  generalize creations (t.exec x.client).2 = n at *
  have hkeep : c'.manager.callState = .idle ∨ x.client.manager.callState ≠ .idle → y.calls = x.calls := by
    intro hor
    rw [hcalls, if_neg]
    rintro ⟨hi, hi'⟩
    exact hor.elim hi' fun hne => hne hi
  have hbound : x.calls ≤ y.calls := by
    rw [hcalls]
    split_ifs <;> omega
  refine ⟨hclient ▸ hsound, hqueue ▸ h.sorted, fun q hq => (h.bounded q (hqueue ▸ hq)).trans hbound, ?_, ?_,
    fun q hq => h.emitted q (hqueue ▸ hq), fun q hq => hclient ▸ hgen q (hqueue ▸ hq), ?_⟩
  · rw [hclient, hqueue]
    intro hup q hq
    cases ho with
    | same hs _ =>
      have hup' : x.client.manager.Up := by
        rw [CallManager.Up, hstate hs] at hup
        exact hup
      rw [hkeep (Or.inr (not_idle_of_up hup'))]
      exact h.current hup' q hq
    | begin _ hc' _ _ => rcases hup with hu | hu <;> rcases hc' with hc' | hc' <;> simp [hc'] at hu
    | setUp ht hi hc _ =>
      rw [hkeep (Or.inr hc)]
      exact hset _ ht hi q hq
    | establish hc _ _ =>
      rw [hkeep (Or.inr (not_idle_of_up (Or.inl hc)))]
      exact h.current (Or.inl hc) q hq
    | finish hc' _ => rcases hup with hu | hu <;> simp [hc'] at hu
  · rw [hclient]
    intro hl
    have hkept : x.client.engine.live = true → n = 0 → y.connection = y.calls := by
      intro hlive hn
      rw [hconn, if_pos hn, hkeep (Or.inr (not_idle_of_up (h.sound.nested.live hlive)))]
      exact h.owned hlive
    cases ho with
    | same _ hlive => exact hkept (hlive hl) rfl
    | begin _ _ hdead _ => exact absurd (hdead.symm.trans hl) (by simp)
    | setUp _ _ _ _ => exact hconn
    | establish _ _ hlive => exact hkept (hlive hl) rfl
    | finish _ hdead => exact absurd (hdead.symm.trans hl) (by simp)
  · rw [hclient, hqueue]
    intro hc q hq ha
    cases ho with
    | same hs _ =>
      have hc₀ : x.client.manager.callState = .calling := (hstate hs).symm.trans hc
      have hid : c'.manager.currentCallId = x.client.manager.currentCallId := congrArg Session.callId hs
      rw [hkeep (Or.inr (by rw [hc₀]; simp))]
      exact h.placed hc₀ q hq (hid ▸ ha)
    | begin _ _ _ hid =>
      -- the id has been generated just now
      obtain ⟨tick, hid⟩ := hid hc
      exact absurd hid (h.generated q hq _ ha tick _ le_rfl)
    | setUp _ _ _ hc' => exact absurd (hc'.symm.trans hc) (by simp)
    | establish _ hc' _ => exact absurd (hc'.symm.trans hc) (by simp)
    | finish hc' _ => exact absurd (hc'.symm.trans hc) (by simp)

theorem Fresh.react {x : IoThread} (h : Fresh x) (t : Task)
    (hset : ∀ i, t = .input i → x.client.SetsUp i → ∀ q ∈ x.queue, q.call = x.calls) : Fresh (x.react t) := by
  have ho := h.observe t hset
  unfold IoThread.react
  dsimp only
  split_ifs
  · exact ho.disarm
  · exact ho.disarm.rewatched _
  · exact ho

/-- The head of the queue is taken off. -/
theorem Fresh.tail {x : IoThread} (h : Fresh x) {q : Queued} {rest : List Queued} (hq : x.queue = q :: rest) :
    Fresh { x with queue := rest } := by
  have hmem : ∀ q' ∈ rest, q' ∈ x.queue := fun q' hq' => hq ▸ List.mem_cons_of_mem q hq'
  exact ⟨h.sound, (List.pairwise_cons.mp (hq ▸ h.sorted)).2, fun q' hq' => h.bounded q' (hmem q' hq'),
    fun hup q' hq' => h.current hup q' (hmem q' hq'), h.owned, fun q' hq' => h.emitted q' (hmem q' hq'),
    fun q' hq' => h.generated q' (hmem q' hq'), fun hc q' hq' => h.placed hc q' (hmem q' hq')⟩

/-- **What takes a call up is not older than the call**, and so is all that is queued behind it. -/
theorem Fresh.behind {x : IoThread} (h : Fresh x) (hok : x.Orderly .execute) {q : Queued} {rest : List Queued}
    (hq : x.queue = q :: rest) {i : Input} (hi : q.task = .input i) (hset : x.client.SetsUp i) :
    ∀ q' ∈ rest, q'.call = x.calls := by
  have hhead : q.call = x.calls := by
    unfold Coordinator.SetsUp at hset
    split at hset
    · exact hok q (by simp [hq]) hi hset
    · obtain ⟨hc, -, rfl, -⟩ := hset
      exact h.placed hc q (by simp [hq]) ⟨_, _, _, hi⟩
    · exact hset.elim
  intro q' hq'
  have hle := (List.pairwise_cons.mp (hq ▸ h.sorted)).1 q' hq'
  have hbound := h.bounded q' (hq ▸ List.mem_cons_of_mem q hq')
  omega

theorem Fresh.quiet {x x' : IoThread} {m : Move} (h : Fresh x) (hq : Quiet x m x') (hok : x.Orderly m) :
    Fresh x' := by
  cases hq with
  | idle => exact h
  | posted i hroute =>
    unfold postToCallControl
    split_ifs
    · exact h
    · refine h.enqueue _ 0 (fun s hs => ?_) fun callId ha => ?_
      · cases hs
        exact hok
      · obtain ⟨sender, accepted, reason, ht⟩ := ha
        cases ht
        cases hroute
  | read i hroute =>
    refine h.enqueue _ 0 (fun s hs => ?_) fun callId ha => ?_
    · cases hs
      cases hroute
    · obtain ⟨sender, accepted, reason, ht⟩ := ha
      cases ht
      exact hok
  | woken t => exact h.rewatched _
  | expired t => exact (h.rewatched _).timeout t.mark

theorem fresh_step (x : IoThread) (m : Move) (h : Fresh x) (hok : x.Orderly m) : Fresh (x.step m) := by
  rcases x.step_cases m with hquiet | ⟨rfl, q, rest, hq, he⟩ | ⟨i, rfl, hi, he⟩
  · exact h.quiet hquiet hok
  · rw [he]
    exact (h.tail hq).react q.task fun i hi hset => h.behind hok hq hi hset
  · rw [he]
    refine h.react _ fun i' hi' hset => ?_
    cases hi'
    -- no input of the coordinator's own takes a call up
    cases i <;> first | exact hset.elim | cases hi

/-- **Connected by its own ICE.**  In every orderly run, of any number of calls, the manager moves from
`Connecting` to `Connected` only while it executes a `Connected` or `Completed` event that was posted by the
peer connection created for the call that is current. -/
theorem connected_by_own_ice (l : List Move) (hl : Meets step Orderly {} l) (m : Move)
    (hc : (run step {} l).client.manager.callState = .connecting)
    (hc' : ((run step {} l).step m).client.manager.callState = .connected) :
    m = .execute ∧ ∃ q ∈ (run step {} l).queue.head?,
      (∃ s, q.task = .input (.iceState s) ∧ (s = .connected ∨ s = .completed)) ∧
      q.connection = (run step {} l).calls := by
  have h : Fresh (run step {} l) := run_invariant fresh_step fresh_init hl
  generalize run step {} l = x at h hc hc' ⊢
  have hne : x.client.manager.callState ≠ .connected := by
    rw [hc]
    simp
  rcases x.step_cases m with hquiet | ⟨rfl, q, rest, hq, he⟩ | ⟨i, rfl, hi, he⟩
  · rw [hquiet.sameClient.client] at hc'
    exact absurd hc' hne
  · rw [he, (sameClient_react _ _).client] at hc'
    have hexec : (q.task.exec x.client).1.manager.callState = .connected := hc'
    obtain ⟨s, ht, hs⟩ : ∃ s, q.task = .input (.iceState s) ∧ (s = .connected ∨ s = .completed) := by
      rcases q.task.exec_cases x.client with ⟨-, -, hx, -⟩ | ⟨i, ht, hx, -⟩
      · rw [hx] at hexec
        exact absurd hexec hne
      · rw [hx] at hexec
        obtain ⟨-, s, rfl, hs⟩ := Coordinator.connected_by_ice hne hexec
        exact ⟨s, ht.resolve_right (fun ht => absurd ht.2.1 (by simp)), hs⟩
    have hmem : q ∈ x.queue := by simp [hq]
    refine ⟨rfl, q, by simp [hq], ⟨s, ht, hs⟩, ?_⟩
    rw [h.emitted q hmem s ht]
    exact h.current (Or.inl hc) q hmem
  · rw [he, (sameClient_react _ _).client] at hc'
    obtain ⟨-, s, rfl, -⟩ := Coordinator.connected_by_ice hne hc'
    cases hi

/-- A first call is accepted by bob, but it is ended before an ICE event of it that is queued is executed; then
bob calls, and the second call has got as far as connecting. -/
def secondCall : List Move :=
  [.post (.startCall "bob" 7 true), .execute, .read (.receive "bob" (.call (.callResponse "7-1" true ""))), .execute,
    .post .endCall, .post (.iceState .connected), .execute, .read (.receive "bob" (.call (.callRequest "9-1"))),
    .execute, .execute, .post .acceptCall, .execute, .post (.iceState .connected)]

/-- The second call is connected by the event of its own peer connection. -/
theorem second_call_connected_by_own_ice :
    (run step {} secondCall).client.manager.callState = .connecting ∧
      (run step {} (secondCall ++ [.execute])).client.manager.callState = .connected ∧
      ∃ q ∈ (run step {} secondCall).queue.head?, q.connection = 2 := by
  have hc : (run step {} secondCall).client.manager.callState = .connecting := by decide
  have hc' : ((run step {} secondCall).step .execute).client.manager.callState = .connected := by decide
  have hl : Meets step Orderly {} secondCall := by
    refine ⟨trivial, ?_, ?_, ?_, trivial, rfl, ?_, trivial, ?_, ?_, trivial, ?_, rfl, trivial⟩
    case refine_2 =>
      -- the response names the id that has been generated for the call
      intro tick counter hle he
      have hid : generateCallId 7 1 = "7-1" := by decide
      obtain rfl := generateCallId_inj (hid.trans he)
      exact absurd hle (by decide)
    all_goals
      unfold Orderly
      decide
  obtain ⟨-, q, hq, -, hconn⟩ := connected_by_own_ice secondCall hl .execute hc hc'
  refine ⟨hc, by rw [run_concat]; exact hc', q, hq, hconn.trans (by decide)⟩

end IoThread

end PeerCall
