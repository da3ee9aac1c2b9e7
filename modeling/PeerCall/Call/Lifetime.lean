import PeerCall.Call.Course

/-!
# Call.Lifetime — the peer connection within its call, and the peer going offline

A peer connection is made when a call is accepted and closed in the callbacks that end the call.  The first
part follows it through any inputs: there is never one outside its call, so that each accepted call asks for
one of its own.  The second part is about the converse, a call that is up with no peer connection.  The last
one is about `user-offline`, which is decided on the coordinator's own copy of the peer.
-/

namespace PeerCall

open PeerCall.Lib

/-! ### The call a peer connection was made for -/

/-- A coordinator, and the call that was current when the engine was last told to create a peer connection. -/
structure Tracked where
  client : Coordinator
  madeFor : String := ""
  deriving DecidableEq, Repr

namespace Tracked

def step (x : Tracked) (i : Input) : Tracked :=
  { client := x.client.step i
    madeFor := if creations (x.client.exec i).2 = 0 then x.madeFor else (x.client.step i).manager.currentCallId }

/-- A live peer connection was made for the current call. -/
structure Inv (x : Tracked) : Prop where
  sound : x.client.Sound
  own : x.client.engine.live = true → x.client.manager.currentCallId = x.madeFor

theorem inv_step (x : Tracked) (i : Input) (h : x.Inv) : (x.step i).Inv := by
  refine ⟨Coordinator.sound_step x.client i h.sound, fun hl => ?_⟩
  have hl' : (x.client.step i).standing.live = true := hl
  show (x.client.step i).standing.session.callId =
    if creations (x.client.exec i).2 = 0 then x.madeFor else (x.client.step i).standing.session.callId
  by_cases hs : (x.client.step i).shutdownStarted = true
  · -- after `Shutdown` nothing is live
    have hdead := ((Coordinator.sound_step x.client i h.sound).silent hs).2.1
    exact absurd (hdead.symm.trans hl') (by simp)
  · obtain ⟨hs', hi⟩ := Coordinator.step_alive (eq_false_of_ne_true hs)
    obtain ⟨p, -, hc⟩ := Coordinator.exec_course hs' (h.sound.observer hs') h.sound.nested.live hi
    generalize creations (x.client.exec i).2 = n at hc ⊢
    generalize (x.client.step i).standing = y at hc hl' ⊢
    have hup : x.client.standing.live = true → x.client.standing.Up := h.sound.nested.live
    cases hc with
    | same => exact h.own hl'
    | begin z hidle hz => rcases hup hl' with hu | hu <;> simp [hu] at hidle
    | setUp hx => rfl
    | establish hx => exact h.own hl'
    | finish closes hx hcl =>
      obtain ⟨hlive, rfl⟩ : x.client.standing.live = true ∧ closes = false := by simpa using hl'
      rcases hup hlive with hu | hu <;> rcases hcl rfl with hd | hd <;> simp [hu] at hd

theorem inv_run (l : List Input) : (run step ⟨.init, ""⟩ l).Inv :=
  run_invariant' inv_step ⟨Coordinator.sound_init, fun h => absurd h (by decide)⟩ l

end Tracked

namespace Coordinator

/-- A step that takes the call up finds no peer connection and asks for exactly one. -/
theorem fresh_of_up {c : Coordinator} (h : Sound c) {i : Input} (hd : ¬ c.manager.Up) (hup : (c.step i).manager.Up) :
    c.engine.live = false ∧ creations (c.exec i).2 = 1 := by
  have hl : c.engine.live = false := by
    by_contra hl
    exact hd (h.nested.live (eq_true_of_ne_false hl))
  refine ⟨hl, ?_⟩
  by_cases hs : (c.step i).shutdownStarted = true
  · rcases (step_silenced h hs).2 with he | he
    · have hup' : (c.step i).manager.session.state = .connecting ∨
          (c.step i).manager.session.state = .connected := hup
      rw [he] at hup'
      exact absurd hup' hd
    · simp [CallManager.Up, he] at hup
  · obtain ⟨hs', hi⟩ := step_alive (eq_false_of_ne_true hs)
    obtain ⟨p, -, hc⟩ := exec_course hs' (h.observer hs') h.nested.live hi
    have hup' : (c.step i).standing.Up := hup
    have hd' : ¬ c.standing.Up := hd
    generalize creations (c.exec i).2 = n at hc ⊢
    generalize (c.step i).standing = y at hc hup'
    cases hc with
    | same => exact absurd hup' hd'
    | begin z hidle hz => rcases hup' with hu | hu <;> rcases hz with hz | hz <;> simp [hz] at hu
    | setUp hx => rfl
    | establish hx => exact absurd (Or.inl hx) hd'
    | finish closes hx hcl => rcases hup' with hu | hu <;> simp at hu

end Coordinator

/-- **The peer connection's life is within its call**: after any inputs, a live peer connection belongs to a
call that is up and was made for that call; a step that takes a call up finds none and asks the engine for
exactly one; and no request of the manager for a peer connection finds one there already. -/
theorem Tracked.connection_within_call (l : List Input) :
    let x := run step ⟨.init, ""⟩ l
    (x.client.engine.live = true → x.client.manager.Up ∧ x.client.manager.currentCallId = x.madeFor) ∧
    (∀ i, ¬ x.client.manager.Up → (x.client.step i).manager.Up →
      x.client.engine.live = false ∧ creations (x.client.exec i).2 = 1) ∧
    ∀ op, x.client.shutdownStarted = false →
      creations (x.client.perform op).2 = requests (x.client.manager.perform op).2 := by
  intro x
  have h : x.Inv := inv_run l
  refine ⟨fun hl => ⟨h.sound.nested.live hl, h.own hl⟩, fun i => Coordinator.fresh_of_up h.sound, ?_⟩
  exact fun op hs => Coordinator.creations_perform (h.sound.observer hs) h.sound.nested.live op

/-! ### A call that is up without a peer connection -/

namespace Coordinator

/-- The input takes a call up. -/
def SetsUp (c : Coordinator) : Input → Prop
  | .acceptCall => c.manager.callState = .receiving
  | .receive sender (.call (.callResponse callId true _)) =>
    c.manager.callState = .calling ∧ c.manager.currentPeer = sender ∧ c.manager.currentCallId = callId ∧
      callId ≠ ""
  | _ => False

instance (c : Coordinator) (i : Input) : Decidable (c.SetsUp i) := by
  unfold SetsUp; split <;> infer_instance

/-- An input that takes a call up finds the engine able to create the peer connection and to add its tracks. -/
def SetupSucceeds (c : Coordinator) (i : Input) : Prop :=
  c.shutdownStarted = false → c.SetsUp i → c.engine.creates = true ∧ c.engine.addsTracks = true

instance (c : Coordinator) (i : Input) : Decidable (c.SetupSucceeds i) := by
  unfold SetupSucceeds; infer_instance

/-- A call that is up has a live peer connection. -/
def Equipped (c : Coordinator) : Prop :=
  c.shutdownStarted = false → c.manager.Up → c.engine.live = true

instance (c : Coordinator) : Decidable c.Equipped := by unfold Equipped; infer_instance

/-- What an operation of the manager has to be to take a call up. -/
theorem setsUp_of_operation {c : Coordinator} (h : Sound c) {i : Input} {op : Op} (hop : i.op = some op)
    (hd : ¬ c.manager.Up) (hup : (c.manager.perform op).1.Up) : c.SetsUp i := by
  have ht := c.manager.perform_transition op
  have hstate : (c.manager.perform op).1.session.state = .connecting ∨
      (c.manager.perform op).1.session.state = .connected := hup
  generalize (c.manager.perform op).1.session = y at ht hstate
  cases ht with
  | stay => exact absurd hstate hd
  | clear => simp at hstate
  | initiate => simp at hstate
  | receive => simp at hstate
  | accept hs =>
    rw [Input.op_eq_acceptCall hop]
    exact hs
  | accepted reason hs =>
    have hne : c.manager.currentCallId ≠ "" := by
      intro he
      have hidle : c.manager.callState = .idle := h.coherent.idle_iff.mpr he
      simp [hs] at hidle
    rw [Input.op_eq_handle hop]
    exact ⟨hs, rfl, rfl, hne⟩
  | establish hs => exact absurd (Or.inl hs) hd

/-- While no call is up, exactly these inputs take one up. -/
theorem up_iff_setsUp {c : Coordinator} (h : Sound c) (hs : c.shutdownStarted = false) (hd : ¬ c.manager.Up)
    (i : Input) : (c.step i).manager.Up ↔ c.SetsUp i := by
  constructor
  · intro hup
    have ht := c.exec_turn i
    have hup' : (c.exec i).1.manager.Up := hup
    generalize (c.exec i).1.manager = m at ht hup'
    generalize signals (c.exec i).2 = sent at ht
    cases ht with
    | nothing => exact absurd hup' hd
    | operation hop _ => exact setsUp_of_operation h hop hd hup'
    | media _ => exact absurd hup' hd
    | closing => exact absurd hup' hd
    | expiry =>
      have hup'' : c.manager.expire.1.session.state = .connecting ∨
          c.manager.expire.1.session.state = .connected := hup'
      rcases c.manager.expire_session with he | ⟨-, he⟩
      · rw [he] at hup''
        exact absurd hup'' hd
      · rw [he] at hup''
        simp at hup''
  · intro hset
    cases i with
    | acceptCall =>
      have hr : c.manager.callState = .receiving := hset
      refine Or.inl ?_
      simp only [step, exec, post_eq hs, perform, CallManager.perform_acceptCall, hr, h.transport]
      simp
    | receive sender m =>
      obtain ⟨callId, reason, rfl⟩ : ∃ callId reason, m = .call (.callResponse callId true reason) := by
        unfold SetsUp at hset
        split at hset <;> simp_all
      obtain ⟨hc, hp, hid, hne⟩ := hset
      refine Or.inl ?_
      simp only [step, exec, receive, hs, perform, CallManager.perform_callResponse, hc, hp, hid, hne]
      simp
    | _ => exact absurd hset (by simp [SetsUp])

/-- A call that is up is not taken up. -/
theorem not_setsUp_of_up {c : Coordinator} (h : c.manager.Up) (i : Input) : ¬ c.SetsUp i := by
  unfold SetsUp
  split
  · intro hr
    rcases h with h | h <;> simp [hr] at h
  · rintro ⟨hr, -⟩
    rcases h with h | h <;> simp [hr] at h
  · exact id

/-- **One input**: it keeps every call that is up equipped exactly when it does not set one up in vain. -/
theorem equipped_step (c : Coordinator) (i : Input) (h : Sound c) (he : c.Equipped) :
    (c.step i).Equipped ↔ c.SetupSucceeds i := by
  by_cases hs : (c.step i).shutdownStarted = true
  · refine ⟨fun _ hs' hset => ?_, fun _ hs' => absurd hs (by simp [hs'])⟩
    -- only `Shutdown` itself leads here from a coordinator that is not shut down
    by_cases hi : i = .shutdown
    · rw [hi] at hset
      exact hset.elim
    · exact absurd ((c.step_shutdownStarted hi).symm.trans hs) (by simp [hs'])
  obtain ⟨hs', hi⟩ := step_alive (eq_false_of_ne_true hs)
  obtain ⟨p, -, hc⟩ := exec_course hs' (h.observer hs') h.nested.live hi
  have hequipped : (c.step i).Equipped ↔ ((c.step i).standing.Up → (c.step i).standing.live = true) :=
    ⟨fun hq => hq (eq_false_of_ne_true hs), fun hq _ => hq⟩
  rw [hequipped]
  generalize creations (c.exec i).2 = n at hc
  by_cases hup : c.standing.Up
  · have hlive : c.standing.live = true := he hs' hup
    refine ⟨fun _ _ hset => absurd hset (not_setsUp_of_up hup i), fun _ hu => ?_⟩
    generalize (c.step i).standing = y at hc hu ⊢
    cases hc with
    | same => exact hlive
    | begin z hidle hz => rcases hup with hx | hx <;> simp [hx] at hidle
    | setUp hx => simp [hlive]
    | establish hx => exact hlive
    | finish closes hx hcl => rcases hu with hu | hu <;> simp at hu
  · have hset : (c.step i).standing.Up ↔ c.SetsUp i := up_iff_setsUp h hs' hup i
    unfold SetupSucceeds
    rw [← hset]
    have hdead : c.standing.live = false := by
      by_contra hl
      exact hup (h.nested.live (eq_true_of_ne_false hl))
    generalize (c.step i).standing = y at hc hset ⊢
    cases hc with
    | same => exact ⟨fun _ _ hu => absurd hu hup, fun _ hu => absurd hu hup⟩
    | begin z hidle hz =>
      have hd : ¬ Standing.Up ⟨z, p, c.standing.live, false⟩ := by
        rintro (hu | hu) <;> rcases hz with hz | hz <;> simp [hz] at hu
      exact ⟨fun _ _ hu => absurd hu hd, fun _ hu => absurd hu hd⟩
    | setUp hx =>
      simp only [hdead, Bool.false_or, able, Bool.and_eq_true]
      exact ⟨fun hok _ => hok, fun hok => hok hs'⟩
    | establish hx => exact absurd (Or.inl hx) hup
    | finish closes hx hcl =>
      have hd : ¬ Standing.Up ⟨⟨.idle, "", "", false⟩, "", c.standing.live && !closes, false⟩ := by
        rintro (hu | hu) <;> simp at hu
      exact ⟨fun _ _ hu => absurd hu hd, fun _ hu => absurd hu hd⟩

/-- **A call does not outlive a failed setup** in the runs in which no setup fails, and in no others: every call
that is up has a live peer connection all along a run exactly when each input that takes a call up finds the
engine able to make one. -/
theorem equipped_iff (l : List Input) :
    (∀ l', l' <+: l → (run step init l').Equipped) ↔ Meets step SetupSucceeds init l :=
  always_iff_meets (fun _ _ h _ _ => sound_step _ _ h) equipped_step sound_init (by decide)

/-- **Not in general**: the engine fails, and the call goes on without a peer connection. -/
theorem failed_setup_leaves_call : ¬ ∀ l : List Input, (run step init l).Equipped := by
  intro h
  have he := h [.engineAnswers false true, .receive "bob" (.call (.callRequest "7-1")), .acceptCall]
  exact absurd he (by decide)

/-! ### A peer that goes offline -/

/-- The call is being set up. -/
def SettingUp (c : Coordinator) : Prop :=
  c.manager.callState = .calling ∨ c.manager.callState = .receiving ∨ c.manager.callState = .connecting

/-- What the policy asks of a `user-offline` for `q`: it ends the call with `q` while it is being set up, and
changes nothing once the call is connected or if `q` is not the manager's peer. -/
structure OfflinePolicy (c : Coordinator) (q : String) : Prop where
  ends : q = c.manager.currentPeer → c.SettingUp → (c.step (.userOffline q)).manager.callState = .idle
  keeps : q = c.manager.currentPeer → c.manager.callState = .connected → c.step (.userOffline q) = c
  ignores : q ≠ c.manager.currentPeer → c.step (.userOffline q) = c

/-- The coordinator's own copy of the peer is as good as the manager's for `q`: the copy is empty until the
call is connecting, and is not looked at after `Shutdown`. -/
def Recognizes (c : Coordinator) (q : String) : Prop :=
  (c.manager.callState = .calling ∨ c.manager.callState = .receiving →
    (q = c.manager.currentPeer ↔ c.shutdownStarted = false ∧ q = "")) ∧
  (c.manager.callState = .connecting →
    (q = c.manager.currentPeer ↔ c.shutdownStarted = false ∧ q = c.currentPeerId))

instance (c : Coordinator) (q : String) : Decidable (c.Recognizes q) := by
  unfold Recognizes; infer_instance

/-- Somebody else goes offline, as far as the coordinator can tell. -/
theorem userOffline_other {c : Coordinator} {q : String} (h : c.shutdownStarted = true ∨ q ≠ c.currentPeerId) :
    c.step (.userOffline q) = c := by
  simp only [step, exec, onUserOffline, if_pos h]

/-- The peer goes offline, as far as the coordinator can tell. -/
theorem userOffline_peer {c : Coordinator} {q : String} (hs : c.shutdownStarted = false) (hq : q = c.currentPeerId) :
    c.step (.userOffline q) = if c.manager.callState = .connected then c else (c.perform .endCall).1 := by
  simp only [step, exec, onUserOffline, hs, hq]
  by_cases hc : c.manager.callState = .connected
  · simp [hc]
  · simp [hc]

theorem endCall_callState {c : Coordinator} (h : c.manager.session.Coherent) :
    (c.perform .endCall).1.manager.callState = .idle := by
  unfold perform
  rw [CallManager.perform_endCall]
  have hsettled : c.manager.callState ≠ .ending := h.settled
  by_cases hi : c.manager.callState = .idle
  · rw [if_pos (Or.inl hi), managed_manager]
    exact hi
  · rw [if_neg (by simp [hi, hsettled]), managed_manager]
    rfl

theorem endCall_idle {c : Coordinator} (h : c.manager.callState = .idle) : (c.perform .endCall).1 = c := by
  unfold perform
  rw [CallManager.perform_endCall, if_pos (Or.inl h)]
  rfl

theorem recognizes_iff {c : Coordinator} (h : Sound c) (q : String) :
    c.Recognizes q ↔
      (c.SettingUp → (q = c.manager.currentPeer ↔ c.shutdownStarted = false ∧ q = c.currentPeerId)) := by
  have hblank : c.manager.callState = .calling ∨ c.manager.callState = .receiving → c.currentPeerId = "" := by
    intro hs
    refine h.nested.blank ?_
    have hst : c.standing.session.state = c.manager.callState := rfl
    rintro (hu | hu) <;> rcases hs with hs | hs <;> simp [hst, hs] at hu
  constructor
  · rintro ⟨hearly, hlate⟩ (hs | hs | hs)
    · rw [hblank (Or.inl hs)]
      exact hearly (Or.inl hs)
    · rw [hblank (Or.inr hs)]
      exact hearly (Or.inr hs)
    · exact hlate hs
  · intro hr
    refine ⟨fun hs => ?_, fun hs => hr (Or.inr (Or.inr hs))⟩
    rw [← hblank hs]
    exact hr (hs.elim Or.inl fun hs => Or.inr (Or.inl hs))

/-- **The user-offline policy** is followed in exactly those reached states, and for those clients, for which
the coordinator's copy of the peer is right. -/
theorem offline_policy_iff (l : List Input) (q : String) :
    (run step init l).OfflinePolicy q ↔ (run step init l).Recognizes q := by
  have h := sound_run l
  generalize run step init l = c at h ⊢
  rw [recognizes_iff h]
  by_cases hact : c.shutdownStarted = false ∧ q = c.currentPeerId
  · simp only [hact.1, hact.2, and_self, iff_true]
    have hstep := userOffline_peer hact.1 rfl
    have hended := endCall_callState (c := c) h.coherent
    constructor
    · intro hp hset
      by_contra hq
      -- the call of somebody else has been ended
      have hkept := hp.ignores hq
      have hnot : c.manager.callState ≠ .connected := by rcases hset with hs | hs | hs <;> simp [hs]
      rw [hstep, if_neg hnot] at hkept
      rw [hkept] at hended
      rcases hset with hs | hs | hs <;> simp [hs] at hended
    · intro hr
      refine ⟨fun _ hset => ?_, fun _ hc => by rw [hstep, if_pos hc], fun hq => ?_⟩
      · have hnot : c.manager.callState ≠ .connected := by rcases hset with hs | hs | hs <;> simp [hs]
        rw [hstep, if_neg hnot]
        exact hended
      · rw [hstep]
        split_ifs with hc
        · rfl
        · refine endCall_idle ?_
          have hset : ¬ c.SettingUp := fun hset => hq (hr hset)
          have hsettled : c.manager.callState ≠ .ending := h.coherent.settled
          cases hst : c.manager.callState <;> simp [SettingUp, hst] at hset hc hsettled ⊢
  · have hsame : c.step (.userOffline q) = c := by
      refine userOffline_other ?_
      by_cases hs : c.shutdownStarted = true
      · exact Or.inl hs
      · exact Or.inr fun hq => hact ⟨eq_false_of_ne_true hs, hq⟩
    simp only [hact, iff_false]
    constructor
    · intro hp hset hq
      have hidle := hp.ends hq hset
      rw [hsame] at hidle
      rcases hset with hs | hs | hs <;> simp [hs] at hidle
    · intro hr
      exact ⟨fun hq hset => absurd hq (hr hset), fun _ _ => hsame, fun _ => hsame⟩

/-- **Not in general**: the peer that is being called goes offline, and the call goes on. -/
theorem offline_callee_not_recognized : ¬ ∀ (l : List Input) (q : String), (run step init l).OfflinePolicy q := by
  intro h
  have he := (h [.startCall "bob" 7 true] "bob").ends (by decide) (Or.inl (by decide))
  exact absurd he (by decide)

end Coordinator

end PeerCall
