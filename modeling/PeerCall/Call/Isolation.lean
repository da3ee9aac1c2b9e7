import PeerCall.Call.Course

/-!
# Call.Isolation — media messages reach the engine only from the current peer

The coordinator keeps its own copy of the peer, `current_peer_id_`, written when a peer connection is asked
for and cleared when the call is over.  `Inv` relates it to the manager: while a call is connecting or
connected the copy is the manager's peer, otherwise it is empty.
-/

namespace PeerCall

open PeerCall.Lib

/-! ### The two notions of the current peer -/

namespace Coordinator

/-- While a call is up the coordinator's peer is the manager's, otherwise it is empty; and a peer connection
is live only while a call is up.  `assured`: the engine never fails to make one, so that one is live
whenever a call is up. -/
structure Inv (assured : Bool) (c : Coordinator) : Prop where
  transport : c.manager.signalTransport = some 0
  observer : c.shutdownStarted = false → c.manager.observer = some 0
  silent : c.shutdownStarted = true → c.manager.observer = none
  peer : c.shutdownStarted = false → c.manager.Up → c.currentPeerId = c.manager.currentPeer
  blank : c.shutdownStarted = true ∨ ¬ c.manager.Up → c.currentPeerId = ""
  live : c.engine.live = true → c.shutdownStarted = false ∧ c.manager.Up
  able : assured = true → c.able = true
  ready : assured = true → c.shutdownStarted = false → c.manager.Up → c.engine.live = true

theorem inv_init (assured : Bool) : Inv assured init := by
  constructor <;> simp [init, able, CallManager.Up]

variable {assured : Bool}

end Coordinator

/-! ### Media messages -/

/-- The call id an offer, an answer or a candidate carries. -/
def SignalMessage.mediaCallId : SignalMessage → Option String
  | .call _ => none
  | .offer sdp => some sdp.callId
  | .answer sdp => some sdp.callId
  | .iceCandidate candidate => some candidate.callId

theorem mediaCallId_of_media {i : Input} {m : String → SignalMessage} (h : i.media = some m) (callId : String) :
    (m callId).mediaCallId = some callId := by
  cases i <;> simp only [Input.media, Option.some.injEq, reduceCtorEq] at h <;> (subst h; rfl)

namespace Coordinator

/-- The message is about the current call and comes from the current peer. -/
def Legitimate (c : Coordinator) (sender callId : String) : Prop :=
  c.manager.currentCallId ≠ "" ∧ callId = c.manager.currentCallId ∧ sender = c.manager.currentPeer

instance (c : Coordinator) (sender callId : String) : Decidable (c.Legitimate sender callId) := by
  unfold Legitimate; infer_instance

/-- What media-session isolation asks of one message: the engine is called only for a legitimate one, and
any other one changes neither the engine nor the coordinator's notion of the peer and of its role. -/
structure Isolates (c : Coordinator) (sender : String) (m : SignalMessage) (callId : String) : Prop where
  engine : ∀ e, .engine e ∈ (c.receive sender m).2 → c.Legitimate sender callId
  unchanged : ¬ c.Legitimate sender callId →
    (c.receive sender m).1.engine = c.engine ∧ (c.receive sender m).1.currentPeerId = c.currentPeerId ∧
      (c.receive sender m).1.isCaller = c.isCaller

/-- `ProcessOffer` does not look at the sender, so nobody but the peer may send an offer that carries the id
of a call with a live peer connection. -/
def OfferOk (c : Coordinator) (sender : String) (sdp : SessionDescriptionPayload) : Prop :=
  c.shutdownStarted = false → c.engine.live = true → sdp.callId ≠ "" →
    sdp.callId = c.manager.currentCallId → sender = c.manager.currentPeer

/-- Before a call is up the coordinator's peer is empty, so nobody may send a complete answer or candidate
with an empty `from` and the id of a call that is being set up (with a peer that has a name). -/
def SenderOk (c : Coordinator) (sender callId : String) (complete : Prop) : Prop :=
  c.shutdownStarted = false → ¬ c.manager.Up → callId ≠ "" → callId = c.manager.currentCallId →
    complete → sender = "" → c.manager.currentPeer = ""

/-- The messages that keep the media session isolated. -/
def Isolated (c : Coordinator) : Input → Prop
  | .receive sender (.offer sdp) => c.OfferOk sender sdp
  | .receive sender (.answer sdp) => c.SenderOk sender sdp.callId (sdp.sdp ≠ "")
  | .receive sender (.iceCandidate candidate) =>
    c.SenderOk sender candidate.callId
      (candidate.sdpMid ≠ "" ∧ 0 ≤ candidate.sdpMlineIndex ∧ candidate.candidate ≠ "")
  | _ => True

instance (c : Coordinator) (i : Input) : Decidable (c.Isolated i) := by
  unfold Isolated OfferOk SenderOk; split <;> infer_instance

section Media

variable {c : Coordinator} {sender : String}

theorem engine_not_mem_ui (c : Coordinator) (cs : List UICall) (e : EngineCall) :
    PortCall.engine e ∉ c.ui cs := by
  unfold ui
  split_ifs <;> simp

/-- A received media message changes the coordinator only if it is an offer for the live call. -/
theorem processOffer_eq (c : Coordinator) (sender : String) (sdp : SessionDescriptionPayload) :
    (¬ (c.engine.live = true ∧ sdp.callId ≠ "" ∧ sdp.callId = c.manager.currentCallId) ∧
        (c.processOffer sender sdp).1 = c ∧ ∀ e, .engine e ∉ (c.processOffer sender sdp).2) ∨
      c.engine.live = true ∧ sdp.callId ≠ "" ∧ sdp.callId = c.manager.currentCallId ∧
        (c.processOffer sender sdp).1.manager = c.manager ∧
        (c.processOffer sender sdp).1.shutdownStarted = c.shutdownStarted ∧
        (c.processOffer sender sdp).1.engine.live = c.engine.live ∧
        (c.processOffer sender sdp).1.able = c.able ∧
        (c.processOffer sender sdp).1.currentPeerId = sender := by
  unfold processOffer
  by_cases hl : c.engine.live = true
  · rw [if_neg (not_not.mpr hl)]
    by_cases hid : sdp.callId = "" ∨ sdp.callId ≠ c.manager.currentCallId
    · rw [if_pos hid]
      exact Or.inl ⟨by tauto, rfl, engine_not_mem_ui c _⟩
    · rw [if_neg hid]
      simp only [not_or, not_not] at hid
      refine Or.inr ⟨hl, hid.1, hid.2, ?_⟩
      split_ifs <;> exact ⟨rfl, rfl, rfl, rfl, rfl⟩
  · rw [if_pos hl]
    exact Or.inl ⟨by tauto, rfl, engine_not_mem_ui c _⟩

/-- `ProcessAnswer` and `ProcessIceCandidate` change nothing, and call the engine only with the sender and
the id they know. -/
theorem processAnswer_eq (c : Coordinator) (sender : String) (sdp : SessionDescriptionPayload) :
    (c.processAnswer sender sdp).1 = c ∧
      ((∃ e, .engine e ∈ (c.processAnswer sender sdp).2) ↔
        sender = c.currentPeerId ∧ sdp.sdp ≠ "" ∧ sdp.callId ≠ "" ∧ sdp.callId = c.manager.currentCallId) := by
  unfold processAnswer
  split_ifs with hg hw
  · exact ⟨rfl, by simp [engine_not_mem_ui]; tauto⟩
  · exact ⟨rfl, by simp; tauto⟩
  · exact ⟨rfl, by simp; tauto⟩

theorem processIceCandidate_eq (c : Coordinator) (sender : String) (candidate : IceCandidatePayload) :
    (c.processIceCandidate sender candidate).1 = c ∧
      ((∃ e, .engine e ∈ (c.processIceCandidate sender candidate).2) ↔
        sender = c.currentPeerId ∧ candidate.callId ≠ "" ∧ candidate.callId = c.manager.currentCallId ∧
          candidate.sdpMid ≠ "" ∧ 0 ≤ candidate.sdpMlineIndex ∧ candidate.candidate ≠ "") := by
  unfold processIceCandidate
  split_ifs with hg hw hm
  · exact ⟨rfl, by simp [engine_not_mem_ui]; tauto⟩
  · exact ⟨rfl, by simp; tauto⟩
  · refine ⟨rfl, fun ⟨e, he⟩ => absurd he (engine_not_mem_ui c _ e), ?_⟩
    rintro ⟨-, -, -, hmid, hindex, hcand⟩
    rcases hm with hm | hm | hm
    · exact absurd hm hmid
    · omega
    · exact absurd hm hcand
  · simp only [not_or, not_not, Int.not_lt] at hg hm
    exact ⟨rfl, fun _ => ⟨hg.1, hg.2.1, hg.2.2, hm.1, hm.2.1, hm.2.2⟩, fun _ => ⟨_, List.mem_singleton_self _⟩⟩

/-- A message whose handler only looks at the coordinator's notion of the peer. -/
theorem isolates_iff_senderOk (h : Inv assured c) (hs : c.shutdownStarted = false) {m : SignalMessage}
    {callId : String} {complete : Prop} (hsame : (c.receive sender m).1 = c)
    (hengine : (∃ e, .engine e ∈ (c.receive sender m).2) ↔
      sender = c.currentPeerId ∧ callId ≠ "" ∧ callId = c.manager.currentCallId ∧ complete) :
    c.Isolates sender m callId ↔ c.SenderOk sender callId complete := by
  constructor
  · intro hi _ hdown hne hid hcomplete hempty
    obtain ⟨e, he⟩ := hengine.mpr ⟨by rw [hempty, h.blank (Or.inr hdown)], hne, hid, hcomplete⟩
    exact (hi.engine e he).2.2.symm.trans hempty
  · intro hok
    refine ⟨fun e he => ?_, fun _ => by rw [hsame]; exact ⟨rfl, rfl, rfl⟩⟩
    obtain ⟨hp, hne, hid, hcomplete⟩ := hengine.mp ⟨e, he⟩
    refine ⟨hid ▸ hne, hid, ?_⟩
    by_cases hup : c.manager.Up
    · rw [hp, h.peer hs hup]
    · have hblank := h.blank (Or.inr hup)
      rw [hp, hblank]
      exact (hok hs hup hne hid hcomplete (hp.trans hblank)).symm

/-- **One message**: it is handled in isolation exactly when it meets the condition. -/
theorem isolates_iff (h : Inv assured c) {m : SignalMessage} {callId : String} (hm : m.mediaCallId = some callId) :
    c.Isolates sender m callId ↔ c.Isolated (.receive sender m) := by
  by_cases hs : c.shutdownStarted = true
  · -- after `Shutdown` nothing is dispatched
    have hnone : c.receive sender m = (c, []) := by simp [receive, hs]
    refine ⟨fun _ => ?_, fun _ => ⟨by simp [hnone], by simp [hnone]⟩⟩
    unfold Isolated
    split <;> first | trivial | (intro hs'; simp [hs] at hs')
  · have hs' : c.shutdownStarted = false := by simpa using hs
    cases m with
    | offer sdp =>
      obtain rfl : sdp.callId = callId := Option.some.inj hm
      have hrec : c.receive sender (.offer sdp) = c.processOffer sender sdp := by simp [receive, hs']
      rcases processOffer_eq c sender sdp with
        ⟨hno, hsame, hnone⟩ | ⟨hlive, hne, hid, -, -, -, -, hpeer⟩
      · refine ⟨fun _ _ hlive hne hid => absurd ⟨hlive, hne, hid⟩ hno, fun _ => ⟨fun e he => ?_, fun _ => ?_⟩⟩
        · exact absurd (hrec ▸ he) (hnone e)
        · rw [hrec, hsame]
          exact ⟨rfl, rfl, rfl⟩
      · refine ⟨fun hi _ _ _ _ => ?_, fun hok => ?_⟩
        · -- an offer from anybody else would have replaced the peer
          by_contra hother
          have hkept := (hi.unchanged fun hl => hother hl.2.2).2.1
          rw [hrec, hpeer, h.peer hs' (h.live hlive).2] at hkept
          exact hother hkept
        · have hl : c.Legitimate sender sdp.callId := ⟨hid ▸ hne, hid, hok hs' hlive hne hid⟩
          exact ⟨fun _ _ => hl, fun hnl => absurd hl hnl⟩
    | answer sdp =>
      obtain rfl : sdp.callId = callId := Option.some.inj hm
      have hrec : c.receive sender (.answer sdp) = c.processAnswer sender sdp := by simp [receive, hs']
      obtain ⟨hsame, hengine⟩ := processAnswer_eq c sender sdp
      refine isolates_iff_senderOk h hs' (by rw [hrec, hsame]) (by rw [hrec, hengine]; tauto)
    | iceCandidate candidate =>
      obtain rfl : candidate.callId = callId := Option.some.inj hm
      have hrec : c.receive sender (.iceCandidate candidate) = c.processIceCandidate sender candidate := by
        simp [receive, hs']
      obtain ⟨hsame, hengine⟩ := processIceCandidate_eq c sender candidate
      exact isolates_iff_senderOk h hs' (by rw [hrec, hsame]) (by rw [hrec, hengine])
    | _ => simp [SignalMessage.mediaCallId] at hm

end Media

/-- The answers of the engine that `assured` allows. -/
def Assures (assured : Bool) : Input → Prop
  | .engineAnswers creates addsTracks => assured = true → creates = true ∧ addsTracks = true
  | _ => True

/-- The part of the invariant that the manager's activities are about. -/
structure Matched (assured : Bool) (x : Standing) : Prop where
  peer : x.Up → x.peer = x.session.peer
  blank : ¬ x.Up → x.peer = ""
  live : x.live = true → x.Up
  ready : assured = true → x.Up → x.live = true

theorem Inv.matched (h : Inv assured c) (hs : c.shutdownStarted = false) : Matched assured c.standing :=
  ⟨h.peer hs, fun hd => h.blank (Or.inr hd), fun hl => (h.live hl).2, fun hb => h.ready hb hs⟩

/-- **Every course keeps the two peers matched.** -/
theorem Matched.course {ok : Bool} {x y : Standing} {n : ℕ} (hx : Matched assured x) (h : Course ok x n y)
    (hok : assured = true → ok = true) : Matched assured y := by
  have hn : y.Nested := h.nested ⟨hx.live, hx.blank⟩
  cases h with
  | same => exact hx
  | begin z hi hz =>
    have hd : ¬ Standing.Up ⟨z, x.peer, x.live, false⟩ := by
      rintro (hu | hu) <;> rcases hz with hz | hz <;> simp [hz] at hu
    exact ⟨fun hu => absurd hu hd, hn.blank, hn.live, fun _ hu => absurd hu hd⟩
  | setUp hs => exact ⟨fun _ => rfl, hn.blank, hn.live, fun hb _ => by simp [hok hb]⟩
  | establish hs => exact ⟨fun _ => hx.peer (Or.inl hs), hn.blank, hn.live, fun hb _ => hx.ready hb (Or.inl hs)⟩
  | finish closes hs hc =>
    have hd : ¬ Standing.Up ⟨⟨.idle, "", "", false⟩, "", x.live && !closes, false⟩ := by
      rintro (hu | hu) <;> simp at hu
    exact ⟨fun hu => absurd hu hd, hn.blank, hn.live, fun _ hu => absurd hu hd⟩

theorem able_step {c : Coordinator} (h : assured = true → c.able = true) {i : Input} (ha : Assures assured i)
    (hb : assured = true) : (c.step i).able = true := by
  by_cases hans : ∃ creates addsTracks, i = .engineAnswers creates addsTracks
  · obtain ⟨creates, addsTracks, rfl⟩ := hans
    simp [step, exec, able, ha hb]
  · by_cases hi : i = .shutdown
    · rw [← h hb, hi]
      simp only [step, exec, shutdown]
      split_ifs <;> rfl
    · exact (c.step_settings hi fun creates addsTracks he => hans ⟨creates, addsTracks, he⟩).able.trans (h hb)

/-- The peer that an isolated input puts in place is the manager's. -/
theorem matched_peered {c : Coordinator} {i : Input} (h : Inv assured c) (hs : c.shutdownStarted = false)
    (hok : c.Isolated i) {p : String} (hp : c.Peered i p) (armed : Bool) :
    Matched assured { c.standing with peer := p, armed := armed } := by
  have hm := h.matched hs
  rcases hp with rfl | ⟨sdp, rfl, hl, hne, hid⟩
  · exact ⟨hm.peer, hm.blank, hm.live, hm.ready⟩
  · exact ⟨fun _ => hok hs hl hne hid, fun hd => absurd (hm.live hl) hd, hm.live, hm.ready⟩

theorem inv_step {c : Coordinator} {i : Input} (h : Inv assured c) (hok : c.Isolated i) (ha : Assures assured i) :
    Inv assured (c.step i) := by
  have hable := able_step h.able ha
  by_cases hs : c.shutdownStarted = true
  · have hsil := silent_step hs (h.silent hs) i
    have hoff : ¬ (c.step i).shutdownStarted = false := by simp [hsil.shutdownStarted]
    have hports : c.manager.SamePorts (c.step i).manager := by
      rcases hsil.manager with hm | hm
      · rw [hm]
        exact ⟨rfl, rfl⟩
      · rw [hm]
        exact c.manager.samePorts_expire
    refine ⟨hports.1.trans h.transport, fun hs' => absurd hs' hoff, fun _ => hports.2.trans (h.silent hs),
      fun hs' => absurd hs' hoff, fun _ => hsil.peer.trans (h.blank (Or.inl hs)), fun hl => ?_, hable,
      fun _ hs' => absurd hs' hoff⟩
    exact absurd (h.live (hsil.live.symm.trans hl)).1 (by simp [hs])
  · have hs' : c.shutdownStarted = false := eq_false_of_ne_true hs
    by_cases hi : i = .shutdown
    · subst hi
      simp only [step, exec, shutdown, if_neg hs] at hable ⊢
      exact ⟨h.transport, (by simp), fun _ => rfl, (by simp), fun _ => rfl, (by simp), hable, (by simp)⟩
    · obtain ⟨ht, ho⟩ := (c.step_manager hi).1
      have hon := (c.step_shutdownStarted hi).trans hs'
      obtain ⟨p, hp, hcourse⟩ := exec_course hs' (h.observer hs') (fun hl => (h.live hl).2) hi
      have hm : Matched assured (c.step i).standing :=
        (matched_peered h hs' hok hp _).course hcourse h.able
      refine ⟨ht.trans h.transport, fun _ => ho.trans (h.observer hs'), fun hoff => ?_, fun _ => hm.peer,
        fun hor => hm.blank (hor.resolve_left (by simp [hon])), fun hl => ⟨hon, hm.live hl⟩, hable,
        fun hb _ => hm.ready hb⟩
      exact absurd (hon.symm.trans hoff) (by simp)

/-! ### What the coordinator sends -/

/-- Whatever media message is sent, it goes to the coordinator's peer and carries the manager's call id. -/
theorem media_sent {c : Coordinator} {i : Input} {dest callId : String} {m : SignalMessage}
    (h : .signal dest m ∈ (c.exec i).2) (hm : m.mediaCallId = some callId) :
    dest = c.currentPeerId ∧ callId = c.manager.currentCallId := by
  have hmem := mem_signals h
  have hturn := c.exec_turn i
  generalize signals (c.exec i).2 = sent at hmem hturn
  generalize (c.exec i).1.manager = after at hturn
  cases hturn with
  | nothing => simp at hmem
  | expiry => simp at hmem
  | closing => simp at hmem
  | operation hop hs =>
    obtain ⟨x, -, hx⟩ := List.mem_map.mp hmem
    obtain rfl : SignalMessage.call x.2 = m := congrArg Prod.snd hx
    simp [SignalMessage.mediaCallId] at hm
  | media hi =>
    obtain ⟨rfl, rfl⟩ := Prod.mk.injEq .. ▸ List.mem_singleton.mp hmem
    exact ⟨rfl, Option.some.inj (hm.symm.trans (mediaCallId_of_media hi _))⟩

/-! ### Media-session isolation -/

/-- **Media-session isolation.**  In every state reached by inputs that all meet the condition: a media
message is handled in isolation if and only if it meets the condition too, and every media message sent
while a peer connection is live goes to the manager's peer with the manager's call id. -/
theorem media_session_isolated (l : List Input) (hl : Meets step Isolated init l) :
    (∀ sender m callId, m.mediaCallId = some callId →
      ((run step init l).Isolates sender m callId ↔ (run step init l).Isolated (.receive sender m))) ∧
    (∀ i dest m callId, (run step init l).engine.live = true → .signal dest m ∈ ((run step init l).exec i).2 →
      m.mediaCallId = some callId →
        dest = (run step init l).manager.currentPeer ∧ callId = (run step init l).manager.currentCallId) := by
  have hinv : Inv false (run step init l) :=
    run_invariant (fun c i h hok => inv_step h hok (by cases i <;> simp [Assures])) (inv_init false) hl
  refine ⟨fun sender m callId hm => isolates_iff hinv hm, fun i dest m callId hlive hsent hm => ?_⟩
  obtain ⟨hdest, hid⟩ := media_sent hsent hm
  obtain ⟨hs, hup⟩ := hinv.live hlive
  exact ⟨hdest.trans (hinv.peer hs hup), hid⟩

/-- A call of bob's, accepted. -/
def acceptedCall : List Input := [.receive "bob" (.call (.callRequest "7-1")), .acceptCall]

/-- An offer of the peer reaches the engine, one of a third client with another id does not. -/
theorem isolated_accepted_call :
    let c := run step init acceptedCall
    c.Isolates "bob" (.offer { callId := "7-1", type := "offer", sdp := "v=0" }) "7-1" ∧
      c.Isolates "carol" (.offer { callId := "7-2", type := "offer", sdp := "v=0" }) "7-2" ∧
      c.manager.currentPeer = "bob" := by
  have h := (media_session_isolated acceptedCall (by decide)).1
  exact ⟨(h "bob" _ "7-1" rfl).mpr (by decide), (h "carol" _ "7-2" rfl).mpr (by decide), by decide⟩

/-- **Not in general**: an offer of a third client that knows the call id reaches the engine and takes the
peer's place. -/
theorem third_client_hijacks :
    ¬ ∀ (l : List Input) (sender : String) (m : SignalMessage) (callId : String),
        m.mediaCallId = some callId → (run step init l).Isolates sender m callId := by
  intro h
  have hi := (h acceptedCall "carol" (.offer { callId := "7-1", type := "offer", sdp := "v=0" }) "7-1" rfl).engine
    (.setRemoteOffer "v=0") (by decide)
  exact absurd hi (by decide)

end Coordinator

end PeerCall
