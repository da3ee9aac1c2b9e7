import PeerCall.Lib.Runs
import PeerCall.Call.Manager

/-!
# Call.Consent — any number of clients over an unreliable relay

Every client runs a `CallManager`.  The network keeps every message ever sent: a delivery picks any of
them, any number of times and in any order, so messages may be delayed, reordered, duplicated or never
delivered; it hands a message only to its addressee and with the true sender.

The proof records for each message and each call where it came from: `Provenance l s` ties what clients
and network hold after the run `l` to steps of `l`.
-/

namespace PeerCall.Consent

open PeerCall.Lib

/-- A message together with who sent it to whom. -/
structure Envelope where
  sender : String
  dest : String
  msg : CallMessage
  deriving DecidableEq, Repr

structure State where
  manager : String → CallManager
  sent : List Envelope

inductive Step
  | act (u : String) (op : Op)
  | timerExpiry (u : String)
  | deliver (e : Envelope)

/-- The operations a client calls itself: messages arrive through `deliver` only, and
`OnCallRequestTimeout` is entered by the timer thread only. -/
def isLocal : Op → Bool
  | .handle _ _ => false
  | .onCallRequestTimeout => false
  | _ => true

def init : State where
  manager _ := {}
  sent := []

/-- Client `u` has performed something with the result `r`. -/
def State.act (s : State) (u : String) (r : CallManager × List Event) : State where
  manager := Function.update s.manager u r.1
  sent := s.sent ++ (outgoing r.2).map fun x => ⟨u, x.1, x.2⟩

def step (s : State) : Step → State
  | .act u op => if isLocal op then s.act u ((s.manager u).perform op) else s
  | .timerExpiry u => s.act u (s.manager u).expire
  | .deliver e => if e ∈ s.sent then s.act e.dest ((s.manager e.dest).perform (.handle e.sender e.msg)) else s

/-- In the run `l`, client `a` got through an `InitiateCall(b)` that generated the id `c`. -/
def Initiated (l : List Step) (a b c : String) : Prop :=
  ∃ l₁ l₂ tick, l = l₁ ++ .act a (.initiateCall b tick true) :: l₂ ∧
    let m := (run step init l₁).manager a
    m.callState = .idle ∧ m.signalTransport ≠ none ∧ c = generateCallId tick m.callCounter

/-- In the run `l`, client `b` executed `AcceptCall` while it was ringing for the call `c` of `a`. -/
def Accepted (l : List Step) (b a c : String) : Prop :=
  ∃ l₁ l₂, l = l₁ ++ .act b .acceptCall :: l₂ ∧
    let m := (run step init l₁).manager b
    m.callState = .receiving ∧ m.signalTransport ≠ none ∧ m.currentPeer = a ∧ m.currentCallId = c

theorem Initiated.concat {l : List Step} {a b c : String} (h : Initiated l a b c) (i : Step) :
    Initiated (l ++ [i]) a b c := by
  obtain ⟨l₁, l₂, tick, rfl, hm⟩ := h
  exact ⟨l₁, l₂ ++ [i], tick, by simp, hm⟩

theorem Accepted.concat {l : List Step} {b a c : String} (h : Accepted l b a c) (i : Step) :
    Accepted (l ++ [i]) b a c := by
  obtain ⟨l₁, l₂, rfl, hm⟩ := h
  exact ⟨l₁, l₂ ++ [i], by simp, hm⟩

/-! ### Where calls and messages come from -/

/-- What the call `x` of the client `u` presupposes of the run `l`. -/
structure Grounded (l : List Step) (u : String) (x : Session) : Prop where
  calling : x.state = .calling → x.isCaller = true
  receiving : x.state = .receiving → x.isCaller = false
  caller : x.state ≠ .idle → x.isCaller = true → Initiated l u x.peer x.callId
  up : x.state = .connecting ∨ x.state = .connected → x.isCaller = true → Accepted l x.peer u x.callId
  callee : x.state ≠ .idle → x.isCaller = false → Initiated l x.peer u x.callId

/-- What a message in the network presupposes of the run `l`. -/
def Backed (l : List Step) (e : Envelope) : Prop :=
  match e.msg with
  | .callRequest c => Initiated l e.sender e.dest c
  | .callResponse c true _ => Accepted l e.sender e.dest c
  | _ => True

structure Provenance (l : List Step) (s : State) : Prop where
  grounded : ∀ u, Grounded l u (s.manager u).session
  backed : ∀ e ∈ s.sent, Backed l e

theorem Grounded.concat {l : List Step} {u : String} {x : Session} (h : Grounded l u x) (i : Step) :
    Grounded (l ++ [i]) u x :=
  ⟨h.calling, h.receiving, fun h1 h2 => (h.caller h1 h2).concat i, fun h1 h2 => (h.up h1 h2).concat i,
    fun h1 h2 => (h.callee h1 h2).concat i⟩

theorem Backed.concat {l : List Step} {e : Envelope} (h : Backed l e) (i : Step) :
    Backed (l ++ [i]) e := by
  obtain ⟨sender, dest, msg⟩ := e
  match msg with
  | .callRequest c => exact Initiated.concat h i
  | .callResponse c true _ => exact Accepted.concat h i
  | .callResponse _ false _ => trivial
  | .callCancel _ _ => trivial
  | .callEnd _ _ => trivial

theorem grounded_idle (l : List Step) (u : String) : Grounded l u ⟨.idle, "", "", false⟩ := by
  constructor <;> simp

/-- If the acting client's new call and new messages are accounted for, so is everything. -/
theorem Provenance.act {l : List Step} {i : Step} {s : State} (h : Provenance l s) {u : String}
    {r : CallManager × List Event} (hm : Grounded (l ++ [i]) u r.1.session)
    (hs : ∀ dest msg, (dest, msg) ∈ outgoing r.2 → Backed (l ++ [i]) ⟨u, dest, msg⟩) :
    Provenance (l ++ [i]) (s.act u r) where
  grounded v := by
    by_cases hv : v = u
    · subst hv
      simpa [State.act] using hm
    · simpa [State.act, hv] using (h.grounded v).concat i
  backed e he := by
    rcases List.mem_append.mp he with he | he
    · exact (h.backed e he).concat i
    · obtain ⟨⟨dest, msg⟩, hmem, rfl⟩ := List.mem_map.mp he
      exact hs dest msg hmem

theorem Provenance.concat {l : List Step} {s : State} (h : Provenance l s) (i : Step) :
    Provenance (l ++ [i]) s :=
  ⟨fun u => (h.grounded u).concat i, fun e he => (h.backed e he).concat i⟩

/-- Taking an accepted call further keeps what it presupposes, once the acceptance is accounted for. -/
theorem Grounded.advance {l : List Step} {u : String} {x : Session} (h : Grounded l u x)
    (hx : x.state ≠ .idle) {st : CallState} (hst : st = .connecting ∨ st = .connected)
    (hup : x.isCaller = true → Accepted l x.peer u x.callId) :
    Grounded l u ⟨st, x.peer, x.callId, x.isCaller⟩ := by
  refine ⟨?_, ?_, fun _ => h.caller hx, fun _ => hup, fun _ => h.callee hx⟩ <;>
    rcases hst with rfl | rfl <;> simp

/-- The call an operation leaves behind is accounted for, if the message it handles is. -/
theorem grounded_perform {l : List Step} {i : Step} {u : String} {m : CallManager} {op : Op}
    (hm : m = (run step init l).manager u) (h : Grounded l u m.session)
    (hlocal : isLocal op = true → i = .act u op)
    (hhandle : ∀ sender msg, op = .handle sender msg → Backed l ⟨sender, u, msg⟩) :
    Grounded (l ++ [i]) u (m.perform op).1.session := by
  generalize hx : (m.perform op).1.session = x
  have ht := m.perform_transition op
  rw [hx] at ht
  cases ht with
  | stay => exact h.concat i
  | clear => exact grounded_idle _ u
  | initiate target tick hs ht =>
    -- this very step is the initiation
    have hinit : Initiated (l ++ [i]) u target (generateCallId tick m.callCounter) := by
      refine ⟨l, [], tick, by rw [hlocal rfl], ?_⟩
      subst hm
      exact ⟨hs, ht, rfl⟩
    exact ⟨by simp, by simp, fun _ _ => hinit, by simp, by simp⟩
  | receive sender c hc hs =>
    have hreq : Initiated l sender u c := hhandle _ _ rfl
    exact ⟨by simp, by simp, by simp, by simp, fun _ _ => hreq.concat i⟩
  | accept hs ht =>
    have hcallee : m.isCaller = false := h.receiving hs
    exact (h.concat i).advance (x := m.session) (by simp [CallManager.session, hs]) (Or.inl rfl)
      (by simp [CallManager.session, hcallee])
  | accepted reason hs =>
    have hacc : Accepted l m.currentPeer u m.currentCallId := hhandle _ _ rfl
    exact (h.concat i).advance (x := m.session) (by simp [CallManager.session, hs]) (Or.inl rfl)
      (fun _ => hacc.concat i)
  | establish hs =>
    exact (h.concat i).advance (x := m.session) (by simp [CallManager.session, hs]) (Or.inr rfl)
      (fun hr => (h.up (Or.inl hs) hr).concat i)

/-- Requests and acceptances an operation sends are accounted for by the operation itself. -/
theorem backed_perform {l : List Step} {i : Step} {u : String} {m : CallManager} {op : Op}
    (hm : m = (run step init l).manager u) (hlocal : isLocal op = true → i = .act u op)
    {dest : String} {msg : CallMessage} (hmsg : (dest, msg) ∈ outgoing (m.perform op).2) :
    Backed (l ++ [i]) ⟨u, dest, msg⟩ := by
  cases CallManager.perform_sends hmsg with
  | request target tick hs ht =>
    refine ⟨l, [], tick, by rw [hlocal rfl], ?_⟩
    subst hm
    exact ⟨hs, ht, rfl⟩
  | accept hs ht =>
    refine ⟨l, [], by rw [hlocal rfl], ?_⟩
    subst hm
    exact ⟨hs, ht, rfl, rfl⟩
  | cancel => trivial
  | reject => trivial
  | hangup => trivial
  | busy => trivial

/-- **Every step keeps the account.** -/
theorem provenance_step (l : List Step) (i : Step) (h : Provenance l (run step init l)) :
    Provenance (l ++ [i]) (step (run step init l) i) := by
  cases i with
  | act u op =>
    simp only [step]
    split_ifs with hop
    · refine h.act (grounded_perform rfl (h.grounded u) (fun _ => rfl) ?_)
        (fun dest msg hmsg => backed_perform rfl (fun _ => rfl) hmsg)
      intro sender msg hh
      simp [hh, isLocal] at hop
    · exact h.concat _
  | timerExpiry u =>
    refine h.act ?_ (by simp)
    rcases ((run step init l).manager u).expire_session with hx | ⟨-, hx⟩
    · rw [hx]; exact (h.grounded u).concat _
    · rw [hx]; exact grounded_idle _ u
  | deliver e =>
    simp only [step]
    split_ifs with he
    · refine h.act (grounded_perform rfl (h.grounded e.dest) (by simp [isLocal]) ?_)
        (fun dest msg hmsg => backed_perform rfl (by simp [isLocal]) hmsg)
      rintro sender msg hh
      cases hh
      exact h.backed e he
    · exact h.concat _

theorem provenance_run (l : List Step) : Provenance l (run step init l) :=
  run_history (P := Provenance) ⟨fun u => grounded_idle _ u, by simp [init]⟩ provenance_step l

/-! ### No call without consent -/

/-- **No call without consent.**  A caller that is connecting or connected generated the id itself, in an
`InitiateCall` to that peer, and the peer has accepted that very call; a callee that is connecting or
connected was called by its peer with that id. -/
theorem no_call_without_consent (l : List Step) (u : String) :
    let m := (run step init l).manager u
    m.callState = .connecting ∨ m.callState = .connected →
      (m.isCaller = true →
        Initiated l u m.currentPeer m.currentCallId ∧ Accepted l m.currentPeer u m.currentCallId) ∧
      (m.isCaller = false → Initiated l m.currentPeer u m.currentCallId) := by
  intro m hup
  have h := (provenance_run l).grounded u
  have hact : m.callState ≠ .idle := by
    rcases hup with h | h <;> simp [h]
  exact ⟨fun hr => ⟨h.caller hact hr, h.up hup hr⟩, fun hr => h.callee hact hr⟩

/-- A call brought up over a network that delivered the request twice. -/
theorem consent_alice_bob :
    let l : List Step := [.act "alice" (.setSignalTransport (some 0)), .act "bob" (.setSignalTransport (some 1)),
      .act "alice" (.initiateCall "bob" 7 true), .deliver ⟨"alice", "bob", .callRequest "7-1"⟩,
      .deliver ⟨"alice", "bob", .callRequest "7-1"⟩, .act "bob" .acceptCall,
      .deliver ⟨"bob", "alice", .callResponse "7-1" true ""⟩]
    let m := (run step init l).manager "alice"
    m.session = ⟨.connecting, "bob", "7-1", true⟩ ∧
      Initiated l "alice" m.currentPeer m.currentCallId ∧ Accepted l m.currentPeer "alice" m.currentCallId := by
  intro l m
  have hm : m.session = ⟨.connecting, "bob", "7-1", true⟩ := by decide
  exact ⟨hm, (no_call_without_consent l "alice" (Or.inl (congrArg Session.state hm))).1
    (congrArg Session.isCaller hm)⟩

end PeerCall.Consent
