import PeerCall.Call.Pair
import PeerCall.Call.Isolation

/-!
# Call.Negotiation — two coordinators over FIFO channels

Two clients, each a `CallCoordinator` with its `CallManager` and its engine, executed one input at a time.
A message on its way is tagged with the call it was sent for, which is named by its two ends and its id.

The proof looks at one call at a time, from its caller's side.  `Stage` lists the joint situations of the
call: the caller's phase, what is on its way to the callee, the callee's phase and what is on its way back.
The point is the order of things: the callee sends nothing before the acceptance, and the caller sends
nothing before the acceptance has arrived, so that media only ever meets a client that is up or has left.
-/

namespace PeerCall.Negotiation

open PeerCall.Lib
open PeerCall.Pair (Party)

/-- A call, named by its two ends and its id. -/
structure CallKey where
  caller : String
  callee : String
  callId : String
  deriving DecidableEq, Repr

/-- The call a client is in. -/
def key (self : String) (x : Session) : CallKey :=
  if x.isCaller then ⟨self, x.peer, x.callId⟩ else ⟨x.peer, self, x.callId⟩

/-- A message on its way, with the call it was sent for. -/
structure Parcel where
  msg : SignalMessage
  call : CallKey
  deriving DecidableEq, Repr

/-- Both clients, and the messages each party has sent to the other one, oldest first. -/
structure State where
  client : Party → Coordinator
  channel : Party → List Parcel

inductive Step
  | act (p : Party) (i : Input)
  | deliver (p : Party)
  deriving DecidableEq, Repr

def init : State where
  client _ := .init
  channel _ := []

/-- What the relay carries to the other party; messages to anybody else leave the system. -/
def posted (other : String) (call : CallKey) (sent : List (String × SignalMessage)) : List Parcel :=
  sent.filterMap fun x => if x.1 = other then some ⟨x.2, call⟩ else none

section System

variable (uid : Party → String)

/-- `p` has done something with the result `r`. -/
def State.act (s : State) (p : Party) (r : Coordinator × List PortCall) : State where
  client := Function.update s.client p r.1
  channel := Function.update s.channel p
    (s.channel p ++ posted (uid p.other) (key (uid p) r.1.manager.session) (signals r.2))

/-- A client that has been shut down is disconnected and gets nothing any more. -/
def step (s : State) : Step → State
  | .act p i => s.act uid p ((s.client p).exec i)
  | .deliver p =>
    match s.channel p.other with
    | [] => s
    | x :: rest =>
      if (s.client p).shutdownStarted then s
      else
        State.act uid { s with channel := Function.update s.channel p.other rest } p
          ((s.client p).exec (.receive (uid p.other) x.msg))

end System

/-- Messages come from the channels only, the engine never fails to make a peer connection, and what it
emits is complete.  When it emits is left open: nothing depends on it. -/
def Enabled : Step → Prop
  | .act _ (.receive _ _) => False
  | .act _ (.engineAnswers _ _) => False
  | .act _ (.offerCreated sdp) => sdp ≠ ""
  | .act _ (.answerCreated sdp) => sdp ≠ ""
  | .act _ (.iceCandidateGenerated mid index candidate) => mid ≠ "" ∧ 0 ≤ index ∧ candidate ≠ ""
  | _ => True

instance : DecidablePred Enabled := fun i => by unfold Enabled; split <;> infer_instance

/-- The call on the engine that a media message is for. -/
def engineCall : SignalMessage → Option EngineCall
  | .call _ => none
  | .offer sdp => some (.setRemoteOffer sdp.sdp)
  | .answer sdp => some (.setRemoteAnswer sdp.sdp)
  | .iceCandidate x => some (.addIceCandidate x.sdpMid x.sdpMlineIndex x.candidate)

/-! ### One call at a time -/

/-- Where a client is in a call. -/
inductive Phase
  | absent | waiting | up
  deriving DecidableEq, Repr

def phase (self : String) (x : Session) (k : CallKey) : Phase :=
  if x.state = .idle ∨ key self x ≠ k then .absent
  else if x.state = .connecting ∨ x.state = .connected then .up
  else .waiting

/-- What matters of a message: the request and the acceptance open a direction, media follows. -/
inductive Item
  | opening | media
  deriving DecidableEq, Repr

def item : SignalMessage → Option Item
  | .call (.callRequest _) => some .opening
  | .call (.callResponse _ true _) => some .opening
  | .call _ => none
  | .offer _ => some .media
  | .answer _ => some .media
  | .iceCandidate _ => some .media

/-- What matters of a message for the call `k`. -/
def itemOf (k : CallKey) (x : Parcel) : Option Item := if x.call = k then item x.msg else none

def items (k : CallKey) (l : List Parcel) : List Item := l.filterMap (itemOf k)

/-- The joint situations of one call: caller, messages out, callee, messages back.  `new`: its id has not
been generated yet. -/
inductive Stage (new : Prop) : Phase → List Item → Phase → List Item → Prop
  | early {x} (h : x ≠ .up) (hn : new → x = .absent) : Stage new x [] .absent []
  | asked {x} (hn : ¬ new) (h : x ≠ .up) : Stage new x [.opening] .absent []
  | ringing {x} (hn : ¬ new) (h : x ≠ .up) : Stage new x [] .waiting []
  | answered {x y back} (hn : ¬ new) (hx : x ≠ .up) (hy : y ≠ .waiting) (hb : ∀ i ∈ back, i = .media) :
    Stage new x [] y (.opening :: back)
  | settled {x y out back} (hn : ¬ new) (hx : x ≠ .waiting) (hy : y ≠ .waiting) (ho : ∀ i ∈ out, i = .media)
    (hb : ∀ i ∈ back, i = .media) : Stage new x out y back

namespace Stage

variable {new new' : Prop} {x y : Phase} {out back : List Item}

theorem mono (h : Stage new x out y back) (hn : new' → new) : Stage new' x out y back := by
  cases h with
  | early h hx => exact .early h (fun h' => hx (hn h'))
  | asked h hx => exact .asked (fun h' => h (hn h')) hx
  | ringing h hx => exact .ringing (fun h' => h (hn h')) hx
  | answered h hx hy hb => exact .answered (fun h' => h (hn h')) hx hy hb
  | settled h hx hy ho hb => exact .settled (fun h' => h (hn h')) hx hy ho hb

theorem callerLeaves (h : Stage new x out y back) : Stage new .absent out y back := by
  cases h with
  | early h hx => exact .early (by simp) (fun _ => rfl)
  | asked h hx => exact .asked h (by simp)
  | ringing h hx => exact .ringing h (by simp)
  | answered h hx hy hb => exact .answered h (by simp) hy hb
  | settled h hx hy ho hb => exact .settled h (by simp) hy ho hb

theorem calleeLeaves (h : Stage new x out y back) : Stage new x out .absent back := by
  cases h with
  | early h hx => exact .early h hx
  | asked h hx => exact .asked h hx
  | ringing h hx => exact .early hx (fun hn => absurd hn h)
  | answered h hx hy hb => exact .answered h hx (by simp) hb
  | settled h hx hy ho hb => exact .settled h hx (by simp) ho hb

/-- Nothing is known of a call whose id has not been generated. -/
theorem asks (h : Stage new x out y back) (hn : new) (hn' : ¬ new') :
    Stage new' .waiting (out ++ [.opening]) y back := by
  cases h with
  | early h hx => exact .asked hn' (by simp)
  | asked h hx => exact absurd hn h
  | ringing h hx => exact absurd hn h
  | answered h hx hy hb => exact absurd hn h
  | settled h hx hy ho hb => exact absurd hn h

theorem callerSends (h : Stage new .up out y back) : Stage new .up (out ++ [.media]) y back := by
  cases h with
  | early h hx => exact absurd rfl h
  | asked h hx => exact absurd rfl hx
  | ringing h hx => exact absurd rfl hx
  | answered h hx hy hb => exact absurd rfl hx
  | settled h hx hy ho hb =>
    exact .settled h hx hy (fun i hi => (List.mem_append.mp hi).elim (ho i) List.mem_singleton.mp) hb

theorem calleeSends (h : Stage new x out .up back) : Stage new x out .up (back ++ [.media]) := by
  have hadd : ∀ {l : List Item}, (∀ i ∈ l, i = .media) → ∀ i ∈ l ++ [Item.media], i = .media :=
    fun hl i hi => (List.mem_append.mp hi).elim (hl i) List.mem_singleton.mp
  cases h with
  | answered h hx hy hb => exact .answered h hx hy (hadd hb)
  | settled h hx hy ho hb => exact .settled h hx hy ho (hadd hb)

theorem accepts (h : Stage new x out .waiting back) : Stage new x out .up (back ++ [.opening]) := by
  cases h with
  | ringing h hx => exact .answered h hx (by simp) (by simp)
  | answered h hx hy hb => exact absurd rfl hy
  | settled h hx hy ho hb => exact absurd rfl hy

theorem rings (h : Stage new x (.opening :: out) y back) : Stage new x out .waiting back := by
  cases h with
  | asked h hx => exact .ringing h hx
  | settled h hx hy ho hb => simp at ho

theorem refused (h : Stage new x (.opening :: out) y back) : Stage new x out y back := by
  cases h with
  | asked h hx => exact .early hx (fun hn => absurd hn h)
  | settled h hx hy ho hb => simp at ho

theorem connects (h : Stage new x out y (.opening :: back)) : Stage new .up out y back := by
  cases h with
  | answered h hx hy hb => exact .settled h (by simp) hy (by simp) hb
  | settled h hx hy ho hb => simp at hb

theorem ignored (h : Stage new x out y (.opening :: back)) (hx : x ≠ .waiting) : Stage new x out y back := by
  cases h with
  | answered h _ hy hb => exact .settled h hx hy (by simp) hb
  | settled h hx hy ho hb => simp at hb

/-- Media on its way to the callee meets it up, or gone. -/
theorem calleeTakes (h : Stage new x (.media :: out) y back) : y ≠ .waiting ∧ Stage new x out y back := by
  cases h with
  | settled h hx hy ho hb => exact ⟨hy, .settled h hx hy (fun i hi => ho i (List.mem_cons_of_mem _ hi)) hb⟩

/-- Media on its way to the caller meets it up, or gone. -/
theorem callerTakes (h : Stage new x out y (.media :: back)) : x ≠ .waiting ∧ Stage new x out y back := by
  cases h with
  | settled h hx hy ho hb => exact ⟨hx, .settled h hx hy ho fun i hi => hb i (List.mem_cons_of_mem _ hi)⟩

end Stage

/-! ### What a client does by itself, and what it makes of a message -/

def ended : Session := ⟨.idle, "", "", false⟩

/-- Offers, answers and candidates that the other side will not find malformed. -/
def Complete : SignalMessage → Prop
  | .call _ => True
  | .offer sdp => sdp.sdp ≠ ""
  | .answer sdp => sdp.sdp ≠ ""
  | .iceCandidate x => x.sdpMid ≠ "" ∧ 0 ≤ x.sdpMlineIndex ∧ x.candidate ≠ ""

/-- Neither a request, nor an acceptance, nor media. -/
def Quiet (sent : List (String × SignalMessage)) : Prop := ∀ x ∈ sent, item x.2 = none

/-- Everything an input other than a received message can do: the session and the id counter after it, and
what is sent. -/
inductive Acts (c : Coordinator) : Session → ℕ → List (String × SignalMessage) → Prop
  | stay : Acts c c.manager.session c.manager.callCounter []
  | clear {sent} (h : Quiet sent) : Acts c ended c.manager.callCounter sent
  | initiate (target : String) (tick : ℕ) (h : c.manager.callState = .idle) :
    Acts c ⟨.calling, target, generateCallId tick c.manager.callCounter, true⟩ (c.manager.callCounter + 1)
      [(target, .call (.callRequest (generateCallId tick c.manager.callCounter)))]
  | accept (h : c.manager.callState = .receiving) :
    Acts c { c.manager.session with state := .connecting } c.manager.callCounter
      [(c.manager.currentPeer, .call (.callResponse c.manager.currentCallId true ""))]
  | establish (h : c.manager.callState = .connecting) :
    Acts c { c.manager.session with state := .connected } c.manager.callCounter []
  | media {m : SignalMessage} (hm : m.mediaCallId = some c.manager.currentCallId) (hc : Complete m) :
    Acts c c.manager.session c.manager.callCounter [(c.currentPeerId, m)]

/-- Everything a message can do. -/
inductive Takes (m : CallManager) (sender : String) :
    SignalMessage → Session → List (String × SignalMessage) → Prop
  | ring {id} (hid : id ≠ "") (h : m.callState = .idle) :
    Takes m sender (.call (.callRequest id)) ⟨.receiving, sender, id, false⟩ []
  | refuse {id sent} (h : Quiet sent) : Takes m sender (.call (.callRequest id)) m.session sent
  | accepted {id reason} (h : m.callState = .calling) (hp : m.currentPeer = sender) (hid : m.currentCallId = id) :
    Takes m sender (.call (.callResponse id true reason)) { m.session with state := .connecting } []
  | ignored {id reason}
    (h : ¬ (m.callState = .calling ∧ m.currentPeer = sender ∧ m.currentCallId = id ∧ id ≠ "")) :
    Takes m sender (.call (.callResponse id true reason)) m.session []
  | stay {msg} (h : item msg = none) : Takes m sender msg m.session []
  | clear {msg} (h : item msg = none) : Takes m sender msg ended []
  | media {msg callId} (h : msg.mediaCallId = some callId) : Takes m sender msg m.session []

theorem quiet_sendToPeer {t : Option ℕ} {peer : String} {msg : CallMessage} (h : item (.call msg) = none) :
    Quiet (callSignals (sendToPeer t peer msg)) := by
  intro x hx
  obtain ⟨y, hy, rfl⟩ := List.mem_map.mp hx
  rw [(mem_outgoing_sendToPeer hy).2]
  exact h

section Outcomes

variable {c : Coordinator}

@[simp] theorem callSignals_nil : callSignals [] = [] := rfl

@[simp] theorem callSignals_notify (o : Option ℕ) (cs : List Callback) : callSignals (notify o cs) = [] := by
  simp [callSignals]

@[simp] theorem callSignals_append (es es' : List Event) :
    callSignals (es ++ es') = callSignals es ++ callSignals es' := by simp [callSignals]

@[simp] theorem callSignals_send (t : ℕ) (dest : String) (msg : CallMessage) (es : List Event) :
    callSignals (.send t dest msg :: es) = (dest, .call msg) :: callSignals es := rfl

theorem perform_acts {i : Input} {op : Op} (hop : i.op = some op)
    (hi : ∀ sender m, i ≠ .receive sender m) :
    Acts c (c.manager.perform op).1.session (c.manager.perform op).1.callCounter
      (callSignals (c.manager.perform op).2) := by
  have hp := c.manager.performed op
  -- a message would have been received
  have hmsg : ∀ sender msg, op ≠ .handle sender msg := fun sender msg ho =>
    hi sender (.call msg) (Input.op_eq_handle (hop.trans (congrArg some ho)))
  generalize (c.manager.perform op).1 = m' at hp ⊢
  generalize (c.manager.perform op).2 = es at hp ⊢
  cases hp with
  | ignored => exact .stay
  | setSignalTransport t => exact absurd hop (i.op_ne_ports.1 t)
  | registerObserver o => exact absurd hop (i.op_ne_ports.2 o)
  | initiated t target tick ht hs =>
    simp only [callSignals_append, callSignals_notify]
    exact .initiate target tick hs
  | cancelled hs =>
    simp only [callSignals_append, callSignals_notify, List.append_nil]
    exact .clear (quiet_sendToPeer rfl)
  | accepted t ht hs =>
    simp only [callSignals_send, callSignals_notify]
    exact .accept hs
  | rejected reason hs =>
    simp only [callSignals_append, callSignals_notify, List.append_nil]
    exact .clear (quiet_sendToPeer rfl)
  | ended hs =>
    simp only [callSignals_append, callSignals_notify, List.append_nil]
    exact .clear (quiet_sendToPeer rfl)
  | established hs =>
    rw [callSignals_notify]
    exact .establish hs
  | timedOut hs =>
    rw [callSignals_append, callSignals_notify, callSignals_notify]
    exact .clear (by simp [Quiet])
  | _ => exact absurd rfl (hmsg _ _)

/-- **What a client does by itself.** -/
theorem exec_acts {p : Party} {i : Input} (hi : Enabled (.act p i)) :
    Acts c (c.exec i).1.manager.session (c.exec i).1.manager.callCounter (signals (c.exec i).2) := by
  have hturn := c.exec_turn i
  generalize signals (c.exec i).2 = sent at hturn
  generalize (c.exec i).1.manager = after at hturn
  cases hturn with
  | nothing => exact .stay
  | operation hop hs => exact perform_acts hop (fun sender m hr => by subst hr; exact hi)
  | expiry =>
    rw [CallManager.expire_eq]
    split_ifs
    · exact .clear (by simp [Quiet])
    · exact .stay
  | media hm =>
    refine .media (mediaCallId_of_media hm _) ?_
    cases i <;> simp only [Input.media, Option.some.injEq, reduceCtorEq] at hm <;> (subst hm; exact hi)
  | closing => exact .stay

theorem handle_takes (ho : c.manager.observer = some 0) (sender : String) (msg : CallMessage) :
    Takes c.manager sender (.call msg) (c.manager.perform (.handle sender msg)).1.session
        (callSignals (c.manager.perform (.handle sender msg)).2) ∧
      (c.manager.perform (.handle sender msg)).1.callCounter = c.manager.callCounter := by
  have hp := c.manager.performed (.handle sender msg)
  generalize (c.manager.perform (.handle sender msg)).1 = m' at hp ⊢
  generalize (c.manager.perform (.handle sender msg)).2 = es at hp ⊢
  cases hp with
  | ignored _ hno =>
    refine ⟨?_, rfl⟩
    cases msg with
    | callRequest id => exact .refuse (by simp [Quiet])
    | callResponse id accepted reason =>
      cases accepted with
      | true => exact .ignored hno
      | false => exact .stay rfl
    | callCancel id reason => exact .stay rfl
    | callEnd id reason => exact .stay rfl
  | rang _ id hid hs =>
    rw [callSignals_notify]
    exact ⟨.ring hid hs, rfl⟩
  | busy t _ id => exact ⟨.refuse (by simp [Quiet, item]), rfl⟩
  | answered reason hs =>
    rw [callSignals_notify]
    exact ⟨.accepted hs rfl rfl, rfl⟩
  | refused o reason =>
    rw [callSignals_notify]
    exact ⟨.clear rfl, rfl⟩
  | refusedUnheard reason hs hid hno => exact absurd (hno.symm.trans ho) (by simp)
  | cancelledByPeer reason =>
    rw [callSignals_append, callSignals_notify, callSignals_notify]
    exact ⟨.clear rfl, rfl⟩
  | endedByPeer reason =>
    rw [callSignals_append, callSignals_notify, callSignals_notify]
    exact ⟨.clear rfl, rfl⟩

/-- Received media neither concerns the manager nor makes the client send anything. -/
theorem media_turn {sender callId : String} {msg : SignalMessage} {m : CallManager}
    {sent : List (String × SignalMessage)} (h : Turn c (.receive sender msg) m sent)
    (hm : msg.mediaCallId = some callId) : m = c.manager ∧ sent = [] := by
  cases h with
  | nothing => exact ⟨rfl, rfl⟩
  | operation hop hs =>
    cases msg with
    | call msg => simp [SignalMessage.mediaCallId] at hm
    | _ => simp [Input.op] at hop
  | media hi => simp [Input.media] at hi

/-- **What a client makes of a message.** -/
theorem receive_takes (hs : c.shutdownStarted = false) (ho : c.manager.observer = some 0) (sender : String)
    (msg : SignalMessage) :
    Takes c.manager sender msg (c.receive sender msg).1.manager.session (signals (c.receive sender msg).2) ∧
      (c.receive sender msg).1.manager.callCounter = c.manager.callCounter := by
  match msg with
  | .call msg =>
    have hr : c.receive sender (.call msg) = c.perform (.handle sender msg) := by simp [Coordinator.receive, hs]
    rw [hr, Coordinator.perform, Coordinator.managed_manager c (c.manager.perform _).1,
      Coordinator.signals_managed c (c.manager.perform _).1]
    exact handle_takes ho sender msg
  | .offer sdp =>
    obtain ⟨hm, hsent⟩ := media_turn (c.receive_turn sender (.offer sdp)) rfl
    rw [hm, hsent]
    exact ⟨.media rfl, rfl⟩
  | .answer sdp =>
    obtain ⟨hm, hsent⟩ := media_turn (c.receive_turn sender (.answer sdp)) rfl
    rw [hm, hsent]
    exact ⟨.media rfl, rfl⟩
  | .iceCandidate x =>
    obtain ⟨hm, hsent⟩ := media_turn (c.receive_turn sender (.iceCandidate x)) rfl
    rw [hm, hsent]
    exact ⟨.media rfl, rfl⟩

end Outcomes

/-! ### The stage of a call, step by step -/

/-- What holds of the session of a client that hears of the other one only. -/
structure Sound (other : String) (x : Session) : Prop where
  caller : x.state = .calling → x.isCaller = true
  callee : x.state = .receiving → x.isCaller = false
  active : x.state ≠ .ending
  peer : x.state = .receiving ∨ x.state = .connecting ∨ x.state = .connected → x.peer = other
  named : x.state ≠ .idle → x.callId ≠ ""

/-- The id has not been generated: the counter has not reached it. -/
def New (n : ℕ) (id : String) : Prop := ∃ tick k, n ≤ k ∧ id = generateCallId tick k

theorem not_new_generated (tick n : ℕ) : ¬ New (n + 1) (generateCallId tick n) := by
  rintro ⟨tick', k, hk, heq⟩
  have := generateCallId_inj heq
  omega

@[simp] theorem items_append (k : CallKey) (l l' : List Parcel) : items k (l ++ l') = items k l ++ items k l' :=
  List.filterMap_append

theorem items_cons (k : CallKey) (x : Parcel) (l : List Parcel) :
    items k (x :: l) = (itemOf k x).toList ++ items k l := by
  cases h : itemOf k x <;> simp [items, h]

@[simp] theorem phase_ended (self : String) (k : CallKey) : phase self ended k = .absent := by simp [phase, ended]

theorem key_caller {self : String} {x : Session} (h : x.isCaller = true) : key self x = ⟨self, x.peer, x.callId⟩ := by
  simp [key, h]

theorem key_callee {self : String} {x : Session} (h : x.isCaller = false) : key self x = ⟨x.peer, self, x.callId⟩ := by
  simp [key, h]

theorem phase_other {self : String} {x : Session} {k : CallKey} (h : key self x ≠ k) :
    phase self x k = .absent := by
  simp [phase, h]

theorem phase_idle {self : String} {x : Session} (h : x.state = .idle) (k : CallKey) :
    phase self x k = .absent := by
  simp [phase, h]

theorem phase_up {self : String} {x : Session} {k : CallKey} (hk : key self x = k)
    (h : x.state = .connecting ∨ x.state = .connected) : phase self x k = .up := by
  rcases h with h | h <;> simp [phase, h, hk]

theorem phase_waiting {self : String} {x : Session} {k : CallKey} (hk : key self x = k)
    (h : x.state = .calling ∨ x.state = .receiving) : phase self x k = .waiting := by
  rcases h with h | h <;> simp [phase, h, hk]

/-- A client that waits in a call is ringing, or has asked. -/
theorem phase_eq_waiting {self other : String} {x : Session} {k : CallKey} (hs : Sound other x)
    (h : phase self x k = .waiting) : key self x = k ∧ (x.state = .calling ∨ x.state = .receiving) := by
  unfold phase at h
  split_ifs at h with hi hup
  simp only [not_or, not_not] at hi hup
  have hactive := hs.active
  refine ⟨hi.2, ?_⟩
  cases hst : x.state <;> simp_all

section Stages

variable {self other : String}

@[simp] theorem items_posted_nil (k call : CallKey) : items k (posted other call []) = [] := rfl

theorem items_posted_quiet {sent : List (String × SignalMessage)} (h : Quiet sent) (k call : CallKey) :
    items k (posted other call sent) = [] := by
  refine List.filterMap_eq_nil_iff.mpr fun x hx => ?_
  obtain ⟨y, hy, hyx⟩ := List.mem_filterMap.mp hx
  split_ifs at hyx
  obtain rfl := Option.some.inj hyx
  simp [itemOf, h y hy]

theorem items_posted_other {k call : CallKey} (h : call ≠ k) (sent : List (String × SignalMessage)) :
    items k (posted other call sent) = [] := by
  refine List.filterMap_eq_nil_iff.mpr fun x hx => ?_
  obtain ⟨y, -, hyx⟩ := List.mem_filterMap.mp hx
  split_ifs at hyx
  obtain rfl := Option.some.inj hyx
  simp [itemOf, h]

theorem items_posted_one (k : CallKey) (dest : String) (m : SignalMessage) :
    items k (posted other k [(dest, m)]) = if dest = other then (item m).toList else [] := by
  by_cases hd : dest = other
  · cases hm : item m <;> simp [posted, items, itemOf, hd, hm]
  · simp [posted, items, hd]

/-- The coordinator addresses its media to somebody only while the call is up. -/
theorem up_of_peer {c : Coordinator} (h : c.Inv true) (hp : c.currentPeerId ≠ "") : c.manager.Up := by
  by_contra hd
  exact hp (h.blank (Or.inr hd))

theorem item_of_media {m : SignalMessage} {callId : String} (h : m.mediaCallId = some callId) :
    item m = some .media := by
  cases m <;> simp [SignalMessage.mediaCallId, item] at h ⊢

section

variable (hne : self ≠ other) (hnamed : other ≠ "")

include hne hnamed

/-- The client does something by itself, seen from the calls it has made. -/
theorem Acts.caller {c : Coordinator} {x : Session} {n : ℕ} {sent : List (String × SignalMessage)}
    (h : Acts c x n sent) (hinv : c.Inv true) (hs : Sound (other) c.manager.session) {id : String}
    {k : CallKey} (hk : k = ⟨self, other, id⟩) {out back : List Item} {y : Phase}
    (hst : Stage (New c.manager.callCounter id) (phase self c.manager.session k) out y back) :
    Stage (New n id) (phase self x k) (out ++ items k (posted other (key self x) sent)) y back := by
  cases h with
  | stay => simpa using hst
  | clear hq =>
    rw [items_posted_quiet hq, List.append_nil, phase_ended]
    exact hst.callerLeaves
  | initiate target tick hi =>
    rw [phase_idle hi] at hst
    have hmono : New (c.manager.callCounter + 1) id → New c.manager.callCounter id :=
      fun ⟨t, j, hj, he⟩ => ⟨t, j, by omega, he⟩
    set id' := generateCallId tick c.manager.callCounter with hid'
    by_cases heq : key self ⟨.calling, target, id', true⟩ = k
    · obtain ⟨rfl, rfl⟩ : target = other ∧ id' = id := by simpa [key, hk] using heq
      rw [phase_waiting heq (Or.inl rfl), heq, items_posted_one, if_pos rfl]
      exact hst.asks ⟨tick, _, le_refl _, rfl⟩ (not_new_generated tick _)
    · rw [phase_other heq, items_posted_other heq, List.append_nil]
      exact hst.mono hmono
  | accept hr =>
    -- whoever accepts is not the caller
    have hkey : key self c.manager.session ≠ k := by
      intro he
      have hc : c.manager.session.isCaller = false := hs.callee hr
      simp only [key, hc, hk] at he
      exact hne (congrArg CallKey.callee he)
    rw [phase_other hkey] at hst
    rw [phase_other (x := { c.manager.session with state := .connecting }) hkey,
      items_posted_other (show key self { c.manager.session with state := .connecting } ≠ k from hkey),
      List.append_nil]
    exact hst
  | establish hr =>
    rw [items_posted_nil, List.append_nil]
    by_cases hkey : key self c.manager.session = k
    · rw [phase_up hkey (Or.inl hr)] at hst
      rwa [phase_up (x := { c.manager.session with state := .connected }) hkey (Or.inr rfl)]
    · rw [phase_other hkey] at hst
      rwa [phase_other (x := { c.manager.session with state := .connected }) hkey]
  | @media m hm hc =>
    by_cases hkey : key self c.manager.session = k
    · rw [hkey, items_posted_one]
      split_ifs with hd
      · have hup := up_of_peer hinv (hd ▸ hnamed)
        rw [phase_up hkey hup] at hst ⊢
        rw [item_of_media hm]
        exact hst.callerSends
      · simpa using hst
    · rw [items_posted_other hkey, List.append_nil]
      exact hst

/-- The same, seen from the calls it has got. -/
theorem Acts.callee {c : Coordinator} {x : Session} {n : ℕ} {sent : List (String × SignalMessage)}
    (h : Acts c x n sent) (hinv : c.Inv true) {id : String} {k : CallKey} (hk : k = ⟨other, self, id⟩)
    {new : Prop} {out back : List Item} {y : Phase}
    (hst : Stage new y out (phase self c.manager.session k) back) :
    Stage new y out (phase self x k) (back ++ items k (posted other (key self x) sent)) := by
  cases h with
  | stay => simpa using hst
  | clear hq =>
    rw [items_posted_quiet hq, List.append_nil, phase_ended]
    exact hst.calleeLeaves
  | initiate target tick hi =>
    rw [phase_idle hi] at hst
    have hkey : key self ⟨.calling, target, generateCallId tick c.manager.callCounter, true⟩ ≠ k := by
      intro he
      simp only [key, hk] at he
      exact hne (congrArg CallKey.caller he)
    rw [phase_other hkey, items_posted_other hkey, List.append_nil]
    exact hst
  | accept hr =>
    by_cases hkey : key self c.manager.session = k
    · have hpeer : c.manager.currentPeer = other := by
        simp only [key, hk] at hkey
        split_ifs at hkey
        · exact absurd (congrArg CallKey.caller hkey) hne
        · exact congrArg CallKey.caller hkey
      rw [phase_waiting hkey (Or.inr hr)] at hst
      rw [phase_up (x := { c.manager.session with state := .connecting }) hkey (Or.inl rfl),
        show key self { c.manager.session with state := .connecting } = k from hkey, items_posted_one,
        if_pos hpeer]
      exact hst.accepts
    · rw [phase_other hkey] at hst
      rw [phase_other (x := { c.manager.session with state := .connecting }) hkey,
        items_posted_other (show key self { c.manager.session with state := .connecting } ≠ k from hkey),
        List.append_nil]
      exact hst
  | establish hr =>
    rw [items_posted_nil, List.append_nil]
    by_cases hkey : key self c.manager.session = k
    · rw [phase_up hkey (Or.inl hr)] at hst
      rwa [phase_up (x := { c.manager.session with state := .connected }) hkey (Or.inr rfl)]
    · rw [phase_other hkey] at hst
      rwa [phase_other (x := { c.manager.session with state := .connected }) hkey]
  | @media m hm hc =>
    by_cases hkey : key self c.manager.session = k
    · rw [hkey, items_posted_one]
      split_ifs with hd
      · have hup := up_of_peer hinv (hd ▸ hnamed)
        rw [phase_up hkey hup] at hst ⊢
        rw [item_of_media hm]
        exact hst.calleeSends
      · simpa using hst
    · rw [items_posted_other hkey, List.append_nil]
      exact hst

end

/-- What is known of a message that `self` has sent to `other`. -/
def Well (self other : String) (x : Parcel) : Prop :=
  match x.msg with
  | .call (.callRequest id) => x.call = ⟨self, other, id⟩
  | .call (.callResponse id true _) => x.call = ⟨other, self, id⟩
  | .call _ => True
  | m => Complete m ∧ m.mediaCallId = some x.call.callId ∧ x.call.callId ≠ "" ∧
      (x.call = ⟨self, other, x.call.callId⟩ ∨ x.call = ⟨other, self, x.call.callId⟩)

section

variable {m : CallManager} {msg : SignalMessage} {call : CallKey} {x : Session}
  {sent : List (String × SignalMessage)} (hne : self ≠ other) (h : Takes m other msg x sent)
  (hw : Well other self ⟨msg, call⟩) (hs : Sound other m.session)

include hne h hw hs

/-- The client gets a message, seen from the calls it has made. -/
theorem Takes.caller {id : String} {k : CallKey} (hk : k = ⟨self, other, id⟩) {new : Prop} {out back : List Item}
    {y : Phase} (hst : Stage new (phase self m.session k) out y ((itemOf k ⟨msg, call⟩).toList ++ back)) :
    Stage new (phase self x k) (out ++ items k (posted other (key self x) sent)) y back := by
  cases h with
  | @ring id' hid hi =>
    obtain rfl : call = ⟨other, self, id'⟩ := hw
    have hkey : (⟨other, self, id'⟩ : CallKey) ≠ k := by
      rw [hk]
      exact fun he => hne (congrArg CallKey.caller he).symm
    rw [phase_idle hi, itemOf, if_neg hkey] at hst
    rw [phase_other (show key self ⟨.receiving, other, id', false⟩ ≠ k from hkey)]
    simpa using hst
  | @refuse id' _ hq =>
    obtain rfl : call = ⟨other, self, id'⟩ := hw
    rw [itemOf, if_neg (by rw [hk]; exact fun he => hne (congrArg CallKey.caller he).symm)] at hst
    simpa [items_posted_quiet hq] using hst
  | @accepted id' reason hc hp hid =>
    obtain rfl : call = ⟨self, other, id'⟩ := hw
    have hkey : key self m.session = ⟨self, other, id'⟩ := by
      rw [key_caller (hs.caller hc), ← hp, ← hid]
      rfl
    rw [items_posted_nil, List.append_nil]
    by_cases heq : (⟨self, other, id'⟩ : CallKey) = k
    · rw [itemOf, if_pos heq] at hst
      rw [phase_up (x := { m.session with state := .connecting }) (hkey.trans heq) (Or.inl rfl)]
      exact hst.connects
    · rw [itemOf, if_neg heq, phase_other (hkey ▸ heq)] at hst
      rwa [phase_other (x := { m.session with state := .connecting }) (hkey ▸ heq)]
  | @ignored id' reason hg =>
    obtain rfl : call = ⟨self, other, id'⟩ := hw
    rw [items_posted_nil, List.append_nil]
    by_cases heq : (⟨self, other, id'⟩ : CallKey) = k
    · rw [itemOf, if_pos heq] at hst
      refine hst.ignored fun hwait => hg ?_
      obtain ⟨hkey, hc | hr⟩ := phase_eq_waiting hs hwait
      · rw [key_caller (hs.caller hc), ← heq] at hkey
        obtain ⟨-, hp, rfl⟩ := CallKey.mk.inj hkey
        exact ⟨hc, hp, rfl, hs.named (by rw [hc]; simp)⟩
      · rw [key_callee (hs.callee hr), ← heq] at hkey
        exact absurd (congrArg CallKey.callee hkey) hne
    · rw [itemOf, if_neg heq] at hst
      exact hst
  | stay hi =>
    rw [itemOf, hi, ite_self] at hst
    simpa using hst
  | clear hi =>
    rw [itemOf, hi, ite_self] at hst
    simpa using hst.callerLeaves
  | media hm =>
    rw [items_posted_nil, List.append_nil]
    rw [itemOf, item_of_media hm] at hst
    split_ifs at hst
    · exact hst.callerTakes.2
    · exact hst

/-- The same, seen from the calls it has got. -/
theorem Takes.callee {id : String} {k : CallKey} (hk : k = ⟨other, self, id⟩) {new : Prop} {out back : List Item}
    {y : Phase} (hst : Stage new y ((itemOf k ⟨msg, call⟩).toList ++ out) (phase self m.session k) back) :
    Stage new y out (phase self x k) (back ++ items k (posted other (key self x) sent)) := by
  cases h with
  | @ring id' hid hi =>
    obtain rfl : call = ⟨other, self, id'⟩ := hw
    rw [items_posted_nil, List.append_nil]
    by_cases heq : (⟨other, self, id'⟩ : CallKey) = k
    · rw [itemOf, if_pos heq] at hst
      rw [phase_waiting (show key self ⟨.receiving, other, id', false⟩ = k from heq) (Or.inr rfl)]
      exact hst.rings
    · rw [itemOf, if_neg heq, phase_idle hi] at hst
      rwa [phase_other (show key self ⟨.receiving, other, id', false⟩ ≠ k from heq)]
  | @refuse id' _ hq =>
    rw [items_posted_quiet hq, List.append_nil]
    rw [itemOf] at hst
    split_ifs at hst
    · exact hst.refused
    · exact hst
  | @accepted id' reason hc hp hid =>
    obtain rfl : call = ⟨self, other, id'⟩ := hw
    have hother : (⟨self, other, id'⟩ : CallKey) ≠ k := by
      rw [hk]
      exact fun he => hne (congrArg CallKey.caller he)
    have hkey : key self m.session ≠ k := by
      rw [key_caller (hs.caller hc), hk]
      exact fun he => hne (congrArg CallKey.caller he)
    rw [itemOf, if_neg hother, phase_other hkey] at hst
    rw [phase_other (x := { m.session with state := .connecting }) hkey]
    simpa using hst
  | @ignored id' reason hg =>
    obtain rfl : call = ⟨self, other, id'⟩ := hw
    rw [itemOf, if_neg (by rw [hk]; exact fun he => hne (congrArg CallKey.caller he))] at hst
    simpa using hst
  | stay hi =>
    rw [itemOf, hi, ite_self] at hst
    simpa using hst
  | clear hi =>
    rw [itemOf, hi, ite_self] at hst
    simpa using hst.calleeLeaves
  | media hm =>
    rw [items_posted_nil, List.append_nil]
    rw [itemOf, item_of_media hm] at hst
    split_ifs at hst
    · exact hst.calleeTakes.2
    · exact hst

end

/-! ### What the clients keep -/

theorem mem_posted {call : CallKey} {sent : List (String × SignalMessage)} {x : Parcel}
    (h : x ∈ posted other call sent) : (other, x.msg) ∈ sent ∧ x.call = call := by
  obtain ⟨y, hy, hyx⟩ := List.mem_filterMap.mp h
  split_ifs at hyx with hd
  obtain rfl := Option.some.inj hyx
  exact ⟨hd ▸ hy, rfl⟩

theorem well_of_item_none {x : Parcel} (h : item x.msg = none) : Well self other x := by
  obtain ⟨msg, call⟩ := x
  match msg, h with
  | .call (.callResponse _ false _), _ => trivial
  | .call (.callCancel _ _), _ => trivial
  | .call (.callEnd _ _), _ => trivial

theorem well_of_media {msg : SignalMessage} {call : CallKey} (hm : msg.mediaCallId = some call.callId)
    (hc : Complete msg) (hid : call.callId ≠ "")
    (hk : call = ⟨self, other, call.callId⟩ ∨ call = ⟨other, self, call.callId⟩) : Well self other ⟨msg, call⟩ := by
  match msg with
  | .call _ => simp [SignalMessage.mediaCallId] at hm
  | .offer _ => exact ⟨hc, hm, hid, hk⟩
  | .answer _ => exact ⟨hc, hm, hid, hk⟩
  | .iceCandidate _ => exact ⟨hc, hm, hid, hk⟩

theorem sound_ended : Sound other ended := by constructor <;> simp [ended]

theorem Acts.sound {c : Coordinator} {x : Session} {n : ℕ} {sent : List (String × SignalMessage)}
    (h : Acts c x n sent) (hs : Sound other c.manager.session) : Sound other x := by
  cases h with
  | stay => exact hs
  | clear hq => exact sound_ended
  | initiate target tick hi => constructor <;> simp [generateCallId_ne_empty]
  | accept hr =>
    have hnamed := hs.named (by rw [show c.manager.session.state = _ from hr]; simp)
    exact ⟨by simp, by simp, by simp, fun _ => hs.peer (Or.inl hr), fun _ => hnamed⟩
  | establish hr =>
    have hnamed := hs.named (by rw [show c.manager.session.state = _ from hr]; simp)
    exact ⟨by simp, by simp, by simp, fun _ => hs.peer (Or.inr (Or.inl hr)), fun _ => hnamed⟩
  | media hm hc => exact hs

theorem Takes.sound {m : CallManager} {msg : SignalMessage} {x : Session} {sent : List (String × SignalMessage)}
    (h : Takes m other msg x sent) (hs : Sound other m.session) : Sound other x := by
  cases h with
  | ring hid hi => constructor <;> simp [hid]
  | refuse hq => exact hs
  | accepted hc hp hid =>
    have hnamed := hs.named (by rw [show m.session.state = _ from hc]; simp)
    exact ⟨by simp, by simp, by simp, fun _ => hp, fun _ => hnamed⟩
  | ignored hg => exact hs
  | stay hi => exact hs
  | clear hi => exact sound_ended
  | media hm => exact hs

theorem Acts.well {c : Coordinator} {x : Session} {n : ℕ} {sent : List (String × SignalMessage)}
    (h : Acts c x n sent) (hnamed : other ≠ "") (hinv : c.Inv true) (hs : Sound other c.manager.session) :
    ∀ y ∈ posted other (key self x) sent, Well self other y := by
  rintro ⟨msg, call⟩ hy
  obtain ⟨hsent, rfl⟩ := mem_posted hy
  cases h with
  | stay => simp at hsent
  | clear hq => exact well_of_item_none (hq _ hsent)
  | initiate target tick hi =>
    obtain ⟨rfl, rfl⟩ := Prod.mk.inj (List.mem_singleton.mp hsent)
    rfl
  | accept hr =>
    obtain ⟨rfl, rfl⟩ := Prod.mk.inj (List.mem_singleton.mp hsent)
    exact key_callee (hs.callee hr)
  | establish hr => simp at hsent
  | media hm hc =>
    obtain ⟨hpeer, rfl⟩ := Prod.mk.inj (List.mem_singleton.mp hsent)
    have hup : c.manager.Up := up_of_peer hinv (hpeer ▸ hnamed)
    have hother : c.manager.session.peer = other := hs.peer (Or.inr hup)
    have hid : c.manager.session.callId ≠ "" := hs.named (by rcases hup with h | h <;> simp [CallManager.session, h])
    cases hcaller : c.manager.session.isCaller with
    | true =>
      rw [key_caller hcaller]
      exact well_of_media hm hc hid (Or.inl (by rw [hother]))
    | false =>
      rw [key_callee hcaller]
      exact well_of_media hm hc hid (Or.inr (by rw [hother]))

theorem Takes.well {m : CallManager} {sender : String} {msg : SignalMessage} {x : Session}
    {sent : List (String × SignalMessage)} (h : Takes m sender msg x sent) :
    ∀ y ∈ posted other (key self x) sent, Well self other y := by
  intro y hy
  have hsent := (mem_posted hy).1
  cases h with
  | refuse hq => exact well_of_item_none (hq _ hsent)
  | _ => simp at hsent

end Stages

/-! ### The invariant -/

/-- The stage of the call that `p` has made with the id `id`. -/
def StageOf (uid : Party → String) (s : State) (p : Party) (id : String) : Prop :=
  Stage (New (s.client p).manager.callCounter id)
    (phase (uid p) (s.client p).manager.session ⟨uid p, uid p.other, id⟩)
    (items ⟨uid p, uid p.other, id⟩ (s.channel p))
    (phase (uid p.other) (s.client p.other).manager.session ⟨uid p, uid p.other, id⟩)
    (items ⟨uid p, uid p.other, id⟩ (s.channel p.other))

structure Inv (uid : Party → String) (s : State) : Prop where
  client : ∀ p, (s.client p).Inv true
  sound : ∀ p, Sound (uid p.other) (s.client p).manager.session
  well : ∀ p, ∀ x ∈ s.channel p, Well (uid p) (uid p.other) x
  stage : ∀ p id, StageOf uid s p id

section Invariant

variable {uid : Party → String} {s : State}

theorem inv_init : Inv uid init where
  client p := Coordinator.inv_init true
  sound p := sound_ended
  well p := by simp [init]
  stage p id := .early (by simp [init, phase, Coordinator.init, CallManager.session])
    (fun _ => by simp [init, phase, Coordinator.init, CallManager.session])

/-- One client has done something, after it has taken what is missing in `rest`. -/
theorem inv_act (h : Inv uid s) {p : Party} {r : Coordinator × List PortCall} (rest : List Parcel)
    (hclient : r.1.Inv true) (hsound : Sound (uid p.other) r.1.manager.session)
    (hrest : ∀ x ∈ rest, x ∈ s.channel p.other)
    (hposted : ∀ x ∈ posted (uid p.other) (key (uid p) r.1.manager.session) (signals r.2),
      Well (uid p) (uid p.other) x)
    (hcaller : ∀ id, Stage (New r.1.manager.callCounter id)
      (phase (uid p) r.1.manager.session ⟨uid p, uid p.other, id⟩)
      (items ⟨uid p, uid p.other, id⟩ (s.channel p) ++ items ⟨uid p, uid p.other, id⟩
        (posted (uid p.other) (key (uid p) r.1.manager.session) (signals r.2)))
      (phase (uid p.other) (s.client p.other).manager.session ⟨uid p, uid p.other, id⟩)
      (items ⟨uid p, uid p.other, id⟩ rest))
    (hcallee : ∀ id, Stage (New (s.client p.other).manager.callCounter id)
      (phase (uid p.other) (s.client p.other).manager.session ⟨uid p.other, uid p, id⟩)
      (items ⟨uid p.other, uid p, id⟩ rest)
      (phase (uid p) r.1.manager.session ⟨uid p.other, uid p, id⟩)
      (items ⟨uid p.other, uid p, id⟩ (s.channel p) ++ items ⟨uid p.other, uid p, id⟩
        (posted (uid p.other) (key (uid p) r.1.manager.session) (signals r.2)))) :
    Inv uid (State.act uid { s with channel := Function.update s.channel p.other rest } p r) where
  client q := by
    rcases Party.eq_or_eq_other p q with rfl | rfl
    · simpa [State.act] using hclient
    · simpa [State.act] using h.client _
  sound q := by
    rcases Party.eq_or_eq_other p q with rfl | rfl
    · simpa [State.act] using hsound
    · simpa [State.act] using h.sound p.other
  well q := by
    rcases Party.eq_or_eq_other p q with rfl | rfl
    · intro x hx
      simp [State.act, (Party.other_ne _).symm] at hx
      exact hx.elim (h.well _ x) (hposted x)
    · intro x hx
      simp [State.act] at hx
      exact h.well _ x (hrest x hx)
  stage q id := by
    rcases Party.eq_or_eq_other p q with rfl | rfl
    · simpa [StageOf, State.act, (Party.other_ne _).symm] using hcaller id
    · simpa [StageOf, State.act, (Party.other_ne _).symm] using hcallee id

/-- Only media of the peer reaches a client that is up. -/
theorem isolated_receive (h : Inv uid s) {p : Party} (hnamed : uid p.other ≠ "") (msg : SignalMessage) :
    (s.client p).Isolated (.receive (uid p.other) msg) := by
  match msg with
  | .call _ => trivial
  | .offer sdp =>
    intro _ hlive _ _
    exact ((h.sound p).peer (Or.inr ((h.client p).live hlive).2)).symm
  | .answer sdp => exact fun _ _ _ _ _ he => absurd he hnamed
  | .iceCandidate x => exact fun _ _ _ _ _ he => absurd he hnamed

variable (hne : ∀ p, uid p ≠ uid p.other) (hnamed : ∀ p, uid p ≠ "")

include hne hnamed

theorem inv_exec (h : Inv uid s) {p : Party} {i : Input} (hi : Enabled (.act p i)) :
    Inv uid (s.act uid p ((s.client p).exec i)) := by
  have hc := h.client p
  have hacts := exec_acts (c := s.client p) hi
  have hclient : ((s.client p).exec i).1.Inv true := by
    refine Coordinator.inv_step hc ?_ ?_
    · cases i with
      | receive sender m => exact absurd hi (by simp [Enabled])
      | _ => trivial
    · cases i with
      | engineAnswers creates addsTracks => exact absurd hi (by simp [Enabled])
      | _ => trivial
  have hact := inv_act h (p := p) (r := (s.client p).exec i) (s.channel p.other) hclient
    (hacts.sound (h.sound p)) (fun x hx => hx) (hacts.well (hnamed _) hc (h.sound p))
    (fun id => hacts.caller (hne p) (hnamed _) hc (h.sound p) rfl (h.stage p id))
    (fun id => hacts.callee (hne p) (hnamed _) hc rfl (by simpa [StageOf] using h.stage p.other id))
  rwa [Function.update_eq_self] at hact

theorem inv_deliver (h : Inv uid s) (p : Party) : Inv uid (step uid s (.deliver p)) := by
  unfold step
  dsimp only
  split
  · exact h
  · rename_i x rest hhead
    split_ifs with hoff
    · exact h
    · have hon : (s.client p).shutdownStarted = false := by simpa using hoff
      have hc := h.client p
      obtain ⟨htakes, hcounter⟩ := receive_takes hon (hc.observer hon) (uid p.other) x.msg
      have hwell : Well (uid p.other) (uid p) x := by
        simpa using h.well p.other x (by simp [hhead])
      refine inv_act h rest (Coordinator.inv_step hc (isolated_receive h (hnamed _) _) trivial)
        (htakes.sound (h.sound p)) (fun y hy => by simp [hhead, hy]) htakes.well (fun id => ?_) (fun id => ?_)
      · have hst := h.stage p id
        rw [StageOf, hhead, items_cons] at hst
        rw [show ((s.client p).exec (.receive (uid p.other) x.msg)).1.manager.callCounter = _ from hcounter]
        exact htakes.caller (hne p) hwell (h.sound p) rfl hst
      · have hst := h.stage p.other id
        rw [StageOf, hhead, items_cons, Party.other_other] at hst
        exact htakes.callee (hne p) hwell (h.sound p) rfl hst

theorem inv_step (h : Inv uid s) {i : Step} (hi : Enabled i) : Inv uid (step uid s i) := by
  cases i with
  | act p i => exact inv_exec hne hnamed h hi
  | deliver p => exact inv_deliver hne hnamed h p

end Invariant

/-! ### No negotiation message is discarded -/

/-- A client that is up hands complete media of its peer about its call to the engine. -/
theorem receive_up {c : Coordinator} (h : c.Inv true) (hs : c.shutdownStarted = false) (hup : c.manager.Up)
    {msg : SignalMessage} {e : EngineCall} (he : engineCall msg = some e) (hc : Complete msg)
    (hid : msg.mediaCallId = some c.manager.currentCallId) (hne : c.manager.currentCallId ≠ "") :
    (c.receive c.manager.currentPeer msg).2 = [.engine e] := by
  have hlive := h.ready rfl hs hup
  have hpeer := h.peer hs hup
  match msg with
  | .offer sdp =>
    obtain rfl : .setRemoteOffer sdp.sdp = e := Option.some.inj he
    have hid' : sdp.callId = c.manager.currentCallId := Option.some.inj hid
    have hsdp : sdp.sdp ≠ "" := hc
    simp [Coordinator.receive, Coordinator.processOffer, hs, hlive, hid', hne, hsdp]
  | .answer sdp =>
    obtain rfl : .setRemoteAnswer sdp.sdp = e := Option.some.inj he
    have hid' : sdp.callId = c.manager.currentCallId := Option.some.inj hid
    have hsdp : sdp.sdp ≠ "" := hc
    simp [Coordinator.receive, Coordinator.processAnswer, hs, hpeer, hid', hne, hsdp]
  | .iceCandidate x =>
    obtain rfl : .addIceCandidate x.sdpMid x.sdpMlineIndex x.candidate = e := Option.some.inj he
    have hid' : x.callId = c.manager.currentCallId := Option.some.inj hid
    obtain ⟨hmid, hindex, hcand⟩ := hc
    simp [Coordinator.receive, Coordinator.processIceCandidate, hs, hpeer, hid', hne, hmid, hcand,
      Int.not_lt.mpr hindex]

section

variable {uid : Party → String} {s : State}

/-- Media that is about the call the client is in finds the call up. -/
theorem up_of_media (h : Inv uid s) {p : Party} {x : Parcel} {rest : List Parcel}
    (hhead : s.channel p.other = x :: rest) (hitem : item x.msg = some .media)
    (hk : x.call = ⟨uid p, uid p.other, x.call.callId⟩ ∨ x.call = ⟨uid p.other, uid p, x.call.callId⟩)
    (hin : (s.client p).manager.callState ≠ .idle)
    (hcall : key (uid p) (s.client p).manager.session = x.call) : (s.client p).manager.Up := by
  have hhere : (itemOf x.call x).toList = [.media] := by simp [itemOf, hitem]
  have hphase : phase (uid p) (s.client p).manager.session x.call ≠ .waiting := by
    rcases hk with hk | hk
    · -- the client is the caller
      have hst := h.stage p x.call.callId
      rw [StageOf, ← hk, hhead, items_cons, hhere] at hst
      exact hst.callerTakes.1
    · have hst := h.stage p.other x.call.callId
      rw [StageOf, Party.other_other, ← hk, hhead, items_cons, hhere] at hst
      exact hst.calleeTakes.1
  by_contra hdown
  refine hphase ?_
  have hstate : ¬ ((s.client p).manager.session.state = .idle ∨
      key (uid p) (s.client p).manager.session ≠ x.call) := not_or.mpr ⟨hin, not_not.mpr hcall⟩
  rw [phase, if_neg hstate]
  exact if_neg hdown

/-- The peer of a client whose call has the two parties as its ends. -/
theorem peer_of_key {self other : String} {x : Session} {k : CallKey} (hne : self ≠ other)
    (hk : k = ⟨self, other, k.callId⟩ ∨ k = ⟨other, self, k.callId⟩) (h : key self x = k) :
    x.peer = other ∧ x.callId = k.callId := by
  cases hc : x.isCaller with
  | true =>
    rw [key_caller hc] at h
    subst h
    simp only [CallKey.mk.injEq, and_true] at hk ⊢
    exact hk.elim And.right fun he => absurd he.1 hne
  | false =>
    rw [key_callee hc] at h
    subst h
    simp only [CallKey.mk.injEq, and_true] at hk ⊢
    exact hk.elim (fun he => absurd he.2 hne) id

end

/-- **No legitimate negotiation message is discarded.**  In every state reached by whatever the two clients,
their engines and the channels do: when an offer, an answer or a candidate is next to be delivered to a
client that is still in the call it was sent for, delivering it takes it from the channel and makes exactly
one call of the client's ports, the engine call it is for. -/
theorem negotiation_delivered (uid : Party → String) (hne : uid .a ≠ uid .b) (hnamed : ∀ p, uid p ≠ "")
    (l : List Step) (hl : ∀ i ∈ l, Enabled i) (p : Party) (x : Parcel) (rest : List Parcel) (e : EngineCall)
    (hhead : (run (step uid) init l).channel p.other = x :: rest) (he : engineCall x.msg = some e)
    (hon : ((run (step uid) init l).client p).shutdownStarted = false)
    (hin : ((run (step uid) init l).client p).manager.callState ≠ .idle)
    (hcall : key (uid p) ((run (step uid) init l).client p).manager.session = x.call) :
    (((run (step uid) init l).client p).exec (.receive (uid p.other) x.msg)).2 = [.engine e] ∧
      (step uid (run (step uid) init l) (.deliver p)).channel p.other = rest := by
  have hne' : ∀ p, uid p ≠ uid p.other := fun p => by
    cases p
    · exact hne
    · exact hne.symm
  have hinv : Inv uid (run (step uid) init l) :=
    run_invariant (P := Inv uid) (fun _ _ h hi => inv_step hne' hnamed h hi) inv_init (meets_of_forall init hl)
  generalize run (step uid) init l = s at *
  have hwell : Well (uid p.other) (uid p) x := by simpa using hinv.well p.other x (by simp [hhead])
  have hmedia : Complete x.msg ∧ x.msg.mediaCallId = some x.call.callId ∧ x.call.callId ≠ "" ∧
      (x.call = ⟨uid p.other, uid p, x.call.callId⟩ ∨ x.call = ⟨uid p, uid p.other, x.call.callId⟩) := by
    obtain ⟨msg, call⟩ := x
    cases msg with
    | call m => simp [engineCall] at he
    | _ => exact hwell
  obtain ⟨hcomplete, hid, hnonempty, hk⟩ := hmedia
  have hup := up_of_media hinv hhead (item_of_media hid) hk.symm hin hcall
  obtain ⟨hpeer, hcallId⟩ := peer_of_key (hne' p) hk.symm hcall
  constructor
  · rw [← hpeer]
    rw [← hcallId] at hid hnonempty
    exact receive_up (hinv.client p) hon hup he hcomplete hid hnonempty
  · simp [step, hhead, hon, State.act]

/-- Alice calls bob, who accepts; alice gets the acceptance and her engine makes an offer. -/
def offered : List Step :=
  [.act .a (.startCall "bob" 7 true), .deliver .b, .act .b .acceptCall, .deliver .a,
    .act .a (.offerCreated "v=0")]

def aliceBob : Party → String
  | .a => "alice"
  | .b => "bob"

/-- Bob's engine gets alice's offer. -/
theorem offer_reaches_bob :
    (((run (step aliceBob) init offered).client .b).exec
      (.receive "alice" (.offer { callId := "7-1", type := "offer", sdp := "v=0" }))).2 =
        [.engine (.setRemoteOffer "v=0")] :=
  (negotiation_delivered aliceBob (by decide) (fun p => by cases p <;> decide) offered (by decide) .b
    ⟨.offer { callId := "7-1", type := "offer", sdp := "v=0" }, ⟨"alice", "bob", "7-1"⟩⟩ []
    (.setRemoteOffer "v=0") (by decide) rfl (by decide) (by decide) (by decide)).1

end PeerCall.Negotiation
