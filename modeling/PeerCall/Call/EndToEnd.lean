import PeerCall.Lib.Simulation
import PeerCall.Call.Pair
import PeerCall.Signal.Outgoing
import PeerCall.Server.Delivery

/-!
# Call.EndToEnd — the channels of `Pair`, made of the queues that are really there

`Pair` joins two call managers by a FIFO channel in each direction.  Here a message is built as text and posted to the
client's io thread, waits in its queue, is written to the socket, read by the server's `readPump`, relayed to the send
channel of the other connection, written by its `writePump`, read by the other client and dispatched.  The sockets
lose nothing while they are open.

* `relay_implements_fifo`: **as long as both clients stay connected and their send channels take what comes, the
  whole is a FIFO channel**: every run is a run of `Pair`.
* `agreement_end_to_end`: the two managers agree whenever no call message is anywhere on its way, in the runs whose
  operations keep out of the gaps of the protocol (`Pair.Orderly`).
-/

namespace PeerCall.EndToEnd

open PeerCall.Lib PeerCall.Pair PeerCall.Signal PeerCall.Delivery

/-- The two clients: their uids, the numbers of their connections at the server and of their transports. -/
structure Setup where
  lib : Codec.Library
  uid : Party → String
  conn : Party → ℕ
  transport : Party → ℕ
  named : ∀ p, uid p ≠ ""
  distinct : ∀ p, uid p ≠ uid p.other

/-- `got`: how many of the messages written to the party's connection it has received. -/
structure World where
  manager : Party → CallManager
  outbox : Party → Outbox
  hub : Hub
  got : Party → ℕ

/-- The text of a queued message. -/
def text : Outgoing → String
  | .register clientId => Codec.buildRegisterMessage clientId
  | .listClients clientId => Codec.buildListClientsMessage clientId
  | .message t => t

/-- A call of the dispatcher that goes on to the call manager, which is left to it. -/
def callMessage : Codec.ObserverCall → Option (String × CallMessage)
  | .onCallRequest sender callId => some (sender, .callRequest callId)
  | .onCallResponse sender callId accepted reason => some (sender, .callResponse callId accepted reason)
  | .onCallCancel sender callId reason => some (sender, .callCancel callId reason)
  | .onCallEnd sender callId reason => some (sender, .callEnd callId reason)
  | _ => none

/-- What a text tells a client's call manager. -/
def callOf (lib : Codec.Library) (t : String) : Option (String × CallMessage) :=
  match Codec.dispatchSignalingMessage lib t.toUTF8 true with
  | .ok (_, calls) => calls.head?.bind callMessage
  | .error _ => none

/-- The operation of the manager that a step of `Pair` stands for. -/
def operation : Pair.Step → Option (Party × (CallManager → CallManager × List Event))
  | .initiateCall p target tick => some (p, fun m => m.perform (.initiateCall target tick true))
  | .cancelCall p => some (p, fun m => m.perform .cancelCall)
  | .acceptCall p => some (p, fun m => m.perform .acceptCall)
  | .rejectCall p reason => some (p, fun m => m.perform (.rejectCall reason))
  | .endCall p => some (p, fun m => m.perform .endCall)
  | .notifyPeerConnectionEstablished p => some (p, fun m => m.perform .notifyPeerConnectionEstablished)
  | .timerExpiry p => some (p, CallManager.expire)
  | .deliver _ => none

/-- An operation of a manager at the time `now`; a step of the connection logic of a client; a step of the server
other than reading from one of the two; the server reads the next message of a client; a client handles its
completed read. -/
inductive Step
  | act (i : Pair.Step) (now : ℤ)
  | client (p : Party) (i : Signal.Step)
  | hub (i : Delivery.Step)
  | transmit (p : Party)
  | receive (p : Party) (n : ℕ) (now : ℤ)

/-- All that a client has queued on its transport or is about to. -/
def said (x : Outbox) : List Outgoing := x.queued ++ x.client.posted

namespace Setup

variable (S : Setup)

/-- The messages are handed to `QueueJsonMessage` one after the other. -/
def queueAll (t : ℕ) (x : Outbox) (ms : List Outgoing) : Outbox := ms.foldl (fun x m => x.step t (.queue m)) x

/-- What a manager sends, as text. -/
def built (now : ℤ) (p : Party) (es : List Event) : List Outgoing :=
  (outgoing es).map fun x => .message (Relay.build now (S.uid p) x.1 (.call x.2))

/-- The manager of `p` has performed something with the result `r`. -/
def perform (w : World) (p : Party) (now : ℤ) (r : CallManager × List Event) : World :=
  { w with
    manager := Function.update w.manager p r.1
    outbox := Function.update w.outbox p (queueAll (S.transport p) (w.outbox p) (S.built now p r.2)) }

/-- The client `p` goes on with its transport. -/
def proceed (w : World) (p : Party) (i : Signal.Step) : World :=
  { w with outbox := Function.update w.outbox p ((w.outbox p).step (S.transport p) i) }

/-- The step runs the handler of a read of the client that has succeeded. -/
def Dispatches (w : World) (p : Party) (i : Signal.Step) : Prop :=
  i.handled (w.outbox p).client = some ⟨S.transport p, .read, .ok⟩

instance (w : World) (p : Party) (i : Signal.Step) : Decidable (S.Dispatches w p i) :=
  inferInstanceAs (Decidable (_ = _))

/-- The step reads from the connection of one of the two. -/
def Reads : Delivery.Step → Prop
  | .read c _ => c = S.conn .a ∨ c = S.conn .b
  | _ => False

instance : ∀ i, Decidable (S.Reads i)
  | .read _ _ => inferInstanceAs (Decidable (_ ∨ _))
  | .registry _ | .readError _ | .call _ _ _ | .lookup _ _ | .check _ | .push _ | .receive _ | .write _ _ | .ping _ _
  | .close _ | .shut _ => inferInstanceAs (Decidable False)

/-- What the dispatcher makes of a message: the manager handles it, and the list of clients is asked for after the
message of the registration.  A text that makes the dispatcher raise ends the io thread. -/
def dispatch (w : World) (p : Party) (n : ℕ) (now : ℤ) (e : Mail) : World :=
  match Codec.dispatchSignalingMessage S.lib e.text.toUTF8 true with
  | .error _ => w
  | .ok (outcome, calls) =>
    let r := match calls.head?.bind callMessage with
      | some (sender, m) => (w.manager p).perform (.handle sender m)
      | none => (w.manager p, [])
    S.proceed (S.perform { w with got := Function.update w.got p (w.got p + 1) } p now r) p
      (.handler n outcome.requestClientList)

def step (w : World) : Step → World
  | .act i now =>
    match operation i with
    | none => w
    | some (p, f) => S.perform w p now (f (w.manager p))
  | .client p i => if S.Dispatches w p i then w else S.proceed w p i
  | .hub i => if S.Reads i then w else { w with hub := w.hub.step i }
  | .transmit p =>
    match (w.outbox p).succeeded[(w.hub.conn (S.conn p)).read.length]? with
    | none => w
    | some m => { w with hub := w.hub.step (.read (S.conn p) (text m)) }
  | .receive p n now =>
    match (w.hub.conn (S.conn p)).written[w.got p]? with
    | none => w
    | some e => if S.Dispatches w p (.handler n false) then S.dispatch w p n now e else w

/-! ### One channel in each direction -/

/-- What a text tells the other manager about `p`. -/
def heard (p : Party) (t : String) : Option CallMessage :=
  (callOf S.lib t).bind fun x => if x.1 = S.uid p then some x.2 else none

/-- What becomes of a text of `p` for the other client. -/
def passed (p : Party) (message : String) : Option CallMessage :=
  match Relay.readPump (S.uid p) message with
  | .relay dest t => if dest = S.uid p.other then S.heard p t else none
  | _ => none

/-- The messages of `p` that the server has not read. -/
def unread (w : World) (p : Party) : List String :=
  ((said (w.outbox p)).map text).drop (w.hub.conn (S.conn p)).read.length

/-- What the server has of `p` for the other client that this has not received. -/
def relayed (w : World) (p : Party) : List Mail :=
  (w.hub.conn (S.conn p.other)).accepted.drop (w.got p.other) ++ w.hub.underway (S.conn p) (S.conn p.other)

/-- The call messages on the way from `p` to the other client, oldest first. -/
def channel (w : World) (p : Party) : List CallMessage :=
  (S.relayed w p).filterMap (fun e => S.heard p e.text) ++ (S.unread w p).filterMap (S.passed p)

/-- The world as a state of `Pair`. -/
def view (w : World) : Pair.State := ⟨w.manager, S.channel w⟩

end Setup

/-! ### What a client queues -/

section Outbox

variable {t : ℕ} {x : Outbox}

theorem posted_startRead (s : Client) : s.startRead.posted = s.posted := by
  unfold Client.startRead
  split <;> rfl

theorem posted_writeNextMessage (s : Client) : s.writeNextMessage.posted = s.posted := by
  unfold Client.writeNextMessage
  split
  · rfl
  · split_ifs <;> rfl

theorem posted_enqueue (s : Client) (m : Outgoing) : (s.enqueue m).posted = s.posted := by
  unfold Client.enqueue
  split
  · rfl
  · dsimp only
    split_ifs
    · exact posted_writeNextMessage _
    · rfl

theorem posted_attemptReconnect (s : Client) : s.attemptReconnect.posted = s.posted := by
  unfold Client.attemptReconnect
  split_ifs
  · rfl
  · dsimp only
    split <;> rfl

theorem posted_connectOnIoThread (s : Client) : s.connectOnIoThread.posted = s.posted := by
  have hclose : s.closeTransport.posted = s.posted := by
    unfold Client.closeTransport
    split <;> rfl
  unfold Client.connectOnIoThread
  dsimp only
  split
  · exact hclose
  · exact hclose

/-- A message that `SignalClient` queues on its own account. -/
def OwnMessage (m : Outgoing) : Prop := ∃ clientId, m = .register clientId ∨ m = .listClients clientId

/-- A handler posts at most a message of the client's own. -/
theorem posted_handle (s : Client) (o : Operation) (r : Bool) :
    ∃ extra, (s.handle o r).posted = s.posted ++ extra ∧ ∀ m ∈ extra, OwnMessage m := by
  have hnone : ∀ {s' : Client}, s'.posted = s.posted →
      ∃ extra, s'.posted = s.posted ++ extra ∧ ∀ m ∈ extra, OwnMessage m :=
    fun h => ⟨[], by rw [h, List.append_nil], by simp⟩
  obtain ⟨t, kind, status⟩ := o
  cases status with
  | pending => exact hnone rfl
  | ok =>
    cases kind with
    | resolve | connect =>
      refine hnone ?_
      simp only [Client.handle, Client.onSuccess, Client.startOnWebsocket]
      split <;> rfl
    | handshake => exact ⟨[.register s.clientId], posted_startRead _, by simp [OwnMessage]⟩
    | read =>
      cases r with
      | false => exact hnone (posted_startRead _)
      | true => exact ⟨[.listClients s.clientId], posted_startRead _, by simp [OwnMessage]⟩
    | write => exact hnone (posted_writeNextMessage _)
    | timer => exact hnone (posted_connectOnIoThread _)
  | error =>
    cases kind with
    | timer => exact hnone rfl
    | read | write | resolve | connect | handshake => exact hnone (posted_attemptReconnect _)

theorem step_queued {i : Signal.Step} (hi : i ≠ .runPosted) : (x.step t i).queued = x.queued := by
  unfold Outbox.step
  dsimp only
  rw [if_neg hi, List.append_nil]

theorem step_succeeded (i : Signal.Step) : x.succeeded <+: (x.step t i).succeeded := List.prefix_append _ _

/-- A message is handed to `QueueJsonMessage`. -/
theorem said_queue (hx : Outbox.Inv t x) (m : Outgoing) :
    Outbox.Inv t (x.step t (.queue m)) ∧ said (x.step t (.queue m)) = said x ++ [m] := by
  refine ⟨Outbox.inv_step x _ hx ⟨rfl, rfl⟩, ?_⟩
  have hposted : (x.step t (.queue m)).client.posted = x.client.posted ++ [m] := by
    show (Signal.step x.client (.queue m)).posted = _
    rw [step_live hx.crashed]
    rfl
  rw [said, step_queued (by simp), hposted, said, List.append_assoc]

/-- **What a client says only grows**: any step within the life of the transport puts what is posted on the queue, or
posts messages of the client's own. -/
theorem said_step (hx : Outbox.Inv t x) {i : Signal.Step} (hi : Outbox.Within t x i) (hq : ∀ m, i ≠ .queue m) :
    ∃ extra, said (x.step t i) = said x ++ extra ∧ ∀ m ∈ extra, OwnMessage m := by
  have hclient : (x.step t i).client = x.client.take i := step_live hx.crashed i
  cases i with
  | connect url clientId => exact absurd hi.1 (by simp [Step.closes])
  | disconnect => exact absurd hi.1 (by simp [Step.closes])
  | queue m => exact absurd rfl (hq m)
  | runPosted =>
    refine ⟨[], ?_, by simp⟩
    cases hp : x.client.posted with
    | nil =>
      have hsame : Signal.step x.client .runPosted = x.client := by
        rw [step_live hx.crashed]
        simp only [Client.take, hp]
      rw [said, said, show (x.step t .runPosted).queued = x.queued ++
        (Signal.step x.client .runPosted).writeQueue.drop x.client.writeQueue.length from rfl, hclient,
        ← step_live hx.crashed, hsame]
      simp
    | cons m rest =>
      have hstep : Signal.step x.client .runPosted = { x.client with posted := rest }.enqueue m := by
        rw [step_live hx.crashed]
        simp only [Client.take, hp]
      have hqueue : (Signal.step x.client .runPosted).writeQueue = x.client.writeQueue ++ [m] := by
        rw [hstep]
        exact (enqueue_eq (s := { x.client with posted := rest }) hx.transport m).2.2.1
      have hposted : (Signal.step x.client .runPosted).posted = rest := by
        rw [hstep]
        exact posted_enqueue _ m
      rw [said, said, show (x.step t .runPosted).queued = x.queued ++
        (Signal.step x.client .runPosted).writeQueue.drop x.client.writeQueue.length from rfl, hqueue, List.drop_left,
        show (x.step t .runPosted).client.posted = _ from hposted, hp]
      simp
  | finish n status =>
    refine ⟨[], ?_, by simp⟩
    rw [said, step_queued (by simp), hclient, List.append_nil]
    rfl
  | handler n r =>
    rw [said, step_queued (by simp)]
    rcases step_handler_cases hx.crashed n r with hsame | ⟨o, -, -, hstep⟩
    · refine ⟨[], ?_, by simp⟩
      rw [show (x.step t (.handler n r)).client = x.client from hsame, List.append_nil]
      rfl
    · obtain ⟨extra, hextra, hown⟩ := posted_handle (x.client.without n) o r
      refine ⟨extra, ?_, hown⟩
      rw [show (x.step t (.handler n r)).client = _ from hstep, hextra, said, List.append_assoc]
      rfl

end Outbox

/-! ### What the server makes of it -/

section Texts

open Codec Relay

/-- A message without a target is read as such. -/
theorem unmarshal_untargeted (type sender : String) {payload : Json} (h : payload = .null ∨ ∃ ms, payload = .obj ms) :
    ∃ raw, unmarshal (dump (buildMessageEnvelope type sender "" payload)).toList = some ⟨type, sender, "", raw⟩ := by
  have h1 : foldName "from" = "from" := by decide
  have h2 : foldName "payload" = "payload" := by decide
  have h3 : foldName "type" = "type" := by decide
  rcases h with rfl | ⟨ms, rfl⟩
  · have henvelope : buildMessageEnvelope type sender "" .null = .obj [("from", .str sender), ("type", .str type)] := by
      simp [buildMessageEnvelope, jsonObject, insertMember, keyLess]
    rw [henvelope, dump, String.toList_ofList, unmarshal, Json.parseMembers_print Json.escapes_shortEscape
      (Json.holdable_of_holds (fun _ _ => rfl) _)]
    simp [Json.printed, setField, stringField, h1, h3]
  · have henvelope : buildMessageEnvelope type sender "" (.obj ms) =
        .obj [("from", .str sender), ("payload", .obj ms), ("type", .str type)] := by
      simp [buildMessageEnvelope, jsonObject, insertMember, keyLess]
    rw [henvelope, dump, String.toList_ofList, unmarshal, Json.parseMembers_print Json.escapes_shortEscape
      (Json.holdable_of_holds (fun _ _ => rfl) _)]
    simp [Json.printed, setField, stringField, h1, h2, h3]

/-- A message without a target is not relayed. -/
theorem readPump_untargeted (uid type sender : String) {payload : Json} (h : payload = .null ∨ ∃ ms, payload = .obj ms)
    (dest t : String) : readPump uid (dump (buildMessageEnvelope type sender "" payload)) ≠ .relay dest t := by
  obtain ⟨raw, hraw⟩ := unmarshal_untargeted type sender h
  rw [readPump, hraw]
  dsimp only
  rw [if_pos (show ("" : String) = "" from rfl), ite_self]
  split_ifs <;> simp

theorem readPump_own (uid : String) {m : Outgoing} (h : OwnMessage m) (dest t : String) :
    readPump uid (text m) ≠ .relay dest t := by
  obtain ⟨clientId, rfl | rfl⟩ := h
  · exact readPump_untargeted uid "register" clientId (.inl rfl) dest t
  · exact readPump_untargeted uid "list-clients" clientId (.inl rfl) dest t

/-- A call message that has been built is relayed to its target, if it has one, and tells that who sent it. -/
theorem relayed_call (lib : Library) {now : ℤ} (hnow : now.natAbs < 2 ^ 63) (uid dest : String) (m : CallMessage) :
    (∀ d t, readPump uid (build now uid dest (.call m)) = .relay d t → d = dest ∧ callOf lib t = some (uid, m)) ∧
      (dest ≠ "" → ∃ t, readPump uid (build now uid dest (.call m)) = .relay dest t) := by
  by_cases hdest : dest = ""
  · subst hdest
    refine ⟨fun d t h => absurd h ?_, fun h => absurd rfl h⟩
    rw [build_eq]
    exact readPump_untargeted uid _ uid (.inr ⟨_, rfl⟩) d t
  · have hfits : Fits (.call m) := by
      unfold Fits
      trivial
    obtain ⟨t, hrelay, hparse⟩ := relayed_message lib hnow uid uid hdest hfits
    refine ⟨fun d t' h => ?_, fun _ => ⟨t, hrelay⟩⟩
    obtain ⟨rfl, rfl⟩ := Reaction.relay.inj (hrelay.symm.trans h)
    refine ⟨rfl, ?_⟩
    have hcall : (dispatchParsed ⟨true, some (received uid (.call m)), some ""⟩ true).2.head?.bind callMessage =
        some (uid, m) := by
      cases m <;> rfl
    unfold callOf dispatchSignalingMessage
    rw [hparse]
    exact hcall

end Texts

namespace Setup

variable (S : Setup)

/-- If the text is relayed and is about a call, it names its sender. -/
def Proper (p : Party) (message : String) : Prop :=
  ∀ dest t, Relay.readPump (S.uid p) message = .relay dest t → ∀ x, callOf S.lib t = some x → x.1 = S.uid p

variable {S}

theorem passed_own (p : Party) {m : Outgoing} (h : OwnMessage m) : S.passed p (text m) = none := by
  unfold passed
  cases hr : Relay.readPump (S.uid p) (text m) with
  | relay dest t => exact absurd hr (readPump_own _ h dest t)
  | ignore | sendClientList => rfl

theorem proper_own (p : Party) {m : Outgoing} (h : OwnMessage m) : S.Proper p (text m) :=
  fun dest t hr => absurd hr (readPump_own _ h dest t)

section Built

variable {now : ℤ} (hnow : now.natAbs < 2 ^ 63) (p : Party) (es : List Event)

include hnow

theorem proper_built : ∀ m ∈ S.built now p es, S.Proper p (text m) := by
  intro m hm dest t hr x hx
  obtain ⟨y, -, rfl⟩ := List.mem_map.mp hm
  rw [((relayed_call S.lib hnow (S.uid p) y.1 y.2).1 dest t hr).2] at hx
  rw [← Option.some.inj hx]

/-- What a manager sends is heard by the other one. -/
theorem passed_built : (S.built now p es).filterMap (fun m => S.passed p (text m)) = carried S.uid p es := by
  unfold built carried
  rw [List.filterMap_map]
  refine List.filterMap_congr fun y _ => ?_
  obtain ⟨hcall, hrelay⟩ := relayed_call S.lib hnow (S.uid p) y.1 y.2
  show S.passed p (Relay.build now (S.uid p) y.1 (.call y.2)) = _
  unfold passed
  cases hr : Relay.readPump (S.uid p) (Relay.build now (S.uid p) y.1 (.call y.2)) with
  | relay dest t =>
    obtain ⟨rfl, hx⟩ := hcall dest t hr
    simp [heard, hx]
  | ignore | sendClientList =>
    -- a message that is not relayed has no target
    have hne : y.1 ≠ S.uid p.other := by
      intro heq
      obtain ⟨t, ht⟩ := hrelay (heq ▸ S.named p.other)
      rw [hr] at ht
      exact absurd ht (by simp)
    rw [if_neg hne]

end Built

/-! ### What holds in every run -/

variable (S)

/-- A text that is not relayed, or not about a call. -/
def Unrelated (p : Party) (message : String) : Prop :=
  match Relay.readPump (S.uid p) message with
  | .relay _ t => callOf S.lib t = none
  | _ => True

instance (p : Party) (message : String) : Decidable (S.Unrelated p message) := by
  unfold Unrelated
  split <;> infer_instance

/-- The connection to whose channel the step adds a message. -/
def pushed (h : Hub) : Delivery.Step → Option (ℕ × Mail)
  | .push g =>
    match h.place g with
    | .passed target e => some (target, e)
    | _ => none
  | _ => none

/-- What comes to one of the two from anybody but the other one is not about a call. -/
def Undisturbed (h : Hub) (i : Delivery.Step) : Prop :=
  ∀ p, ∀ x ∈ pushed h i, x.1 = S.conn p → x.2.number (S.conn p.other) = none → callOf S.lib x.2.text = none

instance (h : Hub) (i : Delivery.Step) : Decidable (S.Undisturbed h i) :=
  inferInstanceAs (Decidable (∀ p, ∀ x ∈ pushed h i, x.1 = S.conn p → x.2.number (S.conn p.other) = none →
    callOf S.lib x.2.text = none))

/-- The steps within the life of both transports, by a clock that fits its 64 bits; what the two relay to each
other finds the other connection; and nobody disturbs them. -/
def Fine (w : World) : Step → Prop
  | .act _ now => now.natAbs < 2 ^ 63
  | .client p i => Outbox.Within (S.transport p) (w.outbox p) i ∧ ∀ m, i = .queue m → S.Unrelated p (text m)
  | .hub i => (∀ p, Hub.Through (S.conn p) (S.conn p.other) w.hub i) ∧ S.Undisturbed w.hub i
  | .transmit _ => True
  | .receive _ _ now => now.natAbs < 2 ^ 63

/-- The operations of the managers meet a condition on the steps of `Pair`. -/
def Acts (ok : Pair.State → Pair.Step → Prop) (w : World) : Step → Prop
  | .act i _ => ok (S.view w) i
  | _ => True

instance (w : World) : ∀ i, Decidable (S.Fine w i)
  | .act _ _ => inferInstanceAs (Decidable (_ < _))
  | .client p i =>
    have : Decidable (∀ m, i = .queue m → S.Unrelated p (text m)) :=
      match i with
      | .queue m => decidable_of_iff (S.Unrelated p (text m)) (by simp)
      | .connect _ _ | .disconnect | .runPosted | .finish _ _ | .handler _ _ => isTrue (by simp)
    inferInstanceAs (Decidable (_ ∧ _))
  | .hub i => inferInstanceAs (Decidable (_ ∧ S.Undisturbed w.hub i))
  | .transmit _ => inferInstanceAs (Decidable True)
  | .receive _ _ _ => inferInstanceAs (Decidable (_ < _))

instance (ok : Pair.State → Pair.Step → Prop) [∀ s i, Decidable (ok s i)] (w : World) : ∀ i, Decidable (S.Acts ok w i)
  | .act i _ => inferInstanceAs (Decidable (ok (S.view w) i))
  | .client _ _ | .hub _ | .transmit _ | .receive _ _ _ => inferInstanceAs (Decidable True)

structure Sound (w : World) : Prop where
  outbox : ∀ p, Outbox.Inv (S.transport p) (w.outbox p)
  hub : w.hub.Inv
  queued : ∀ c, (w.hub.conn c).Queued
  conns : ∀ p, S.conn p < w.hub.registry.conns
  uid : ∀ p, w.hub.uid (S.conn p) = S.uid p
  read : ∀ p, (w.hub.conn (S.conn p)).read <+: (w.outbox p).succeeded.map text
  got : ∀ p, w.got p ≤ (w.hub.conn (S.conn p)).written.length
  proper : ∀ p, ∀ m ∈ said (w.outbox p), S.Proper p (text m)
  pure : ∀ p, ∀ e ∈ (w.hub.conn (S.conn p)).accepted.drop (w.got p), ∀ x, callOf S.lib e.text = some x →
    x.1 = S.uid p.other

variable {S}

theorem Unrelated.proper {p : Party} {message : String} (h : S.Unrelated p message) : S.Proper p message := by
  intro dest t hr x hx
  rw [Unrelated, hr] at h
  exact absurd (hx.symm.trans h) (by simp)

theorem Unrelated.passed {p : Party} {message : String} (h : S.Unrelated p message) : S.passed p message = none := by
  unfold Unrelated at h
  unfold Setup.passed
  cases hr : Relay.readPump (S.uid p) message with
  | relay dest t =>
    rw [hr] at h
    have hnone : S.heard p t = none := by
      unfold heard
      rw [show callOf S.lib t = none from h]
      rfl
    simp only [hnone, ite_self]
  | ignore | sendClientList => rfl

section Sound

variable {w : World}

/-- What the server has read is the beginning of what the client has said. -/
theorem Sound.read_said (h : S.Sound w) (p : Party) :
    (w.hub.conn (S.conn p)).read <+: (said (w.outbox p)).map text := by
  refine (h.read p).trans ?_
  rw [said, (h.outbox p).queued, List.append_assoc, List.map_append]
  exact List.prefix_append _ _

/-- What has been received was taken in. -/
theorem Sound.got_accepted (h : S.Sound w) (p : Party) : w.got p ≤ (w.hub.conn (S.conn p)).accepted.length := by
  rw [(h.queued _).accepted, List.length_append, List.length_append]
  have := h.got p
  omega

/-- **A client says something more.** -/
theorem Sound.says (h : S.Sound w) {p : Party} {x : Outbox} {extra : List Outgoing} (M : Party → CallManager)
    (hx : Outbox.Inv (S.transport p) x) (hsaid : said x = said (w.outbox p) ++ extra)
    (hsucceeded : (w.outbox p).succeeded <+: x.succeeded) (hproper : ∀ m ∈ extra, S.Proper p (text m)) :
    S.Sound { w with manager := M, outbox := Function.update w.outbox p x } ∧
      ∀ q, S.channel { w with manager := M, outbox := Function.update w.outbox p x } q =
        S.channel w q ++ if q = p then extra.filterMap (fun m => S.passed p (text m)) else [] := by
  refine ⟨⟨fun q => ?_, h.hub, h.queued, h.conns, h.uid, fun q => ?_, h.got, fun q m hm => ?_, h.pure⟩, fun q => ?_⟩
  · by_cases hq : q = p
    · subst hq
      simpa using hx
    · simpa [hq] using h.outbox q
  · by_cases hq : q = p
    · subst hq
      simpa using (h.read q).trans (hsucceeded.map text)
    · simpa [hq] using h.read q
  · by_cases hq : q = p
    · subst hq
      have hm' : m ∈ said x := by simpa using hm
      rw [hsaid] at hm'
      rcases List.mem_append.mp hm' with hm' | hm'
      · exact h.proper q m hm'
      · exact hproper m hm'
    · exact h.proper q m (by simpa [hq] using hm)
  · have hunread : S.unread { w with manager := M, outbox := Function.update w.outbox p x } q =
        S.unread w q ++ if q = p then extra.map text else [] := by
      unfold unread
      by_cases hq : q = p
      · subst hq
        rw [if_pos rfl]
        simp only [Function.update_self, hsaid, List.map_append]
        exact List.drop_append_of_le_length (h.read_said q).length_le
      · simp [hq]
    unfold channel
    rw [hunread, List.filterMap_append, ← List.append_assoc]
    by_cases hq : q = p
    · subst hq
      rw [if_pos rfl, if_pos rfl, List.filterMap_map]
      rfl
    · rw [if_neg hq, if_neg hq, List.filterMap_nil]
      rfl

/-- What `a` sends to `b` for what it has read, as the other manager hears it. -/
theorem sends_heard (h : S.Sound w) (p : Party) (l : List String) (k : ℕ) :
    ((l.zipIdx.drop k).filterMap (w.hub.sends (S.conn p) (S.conn p.other))).filterMap (fun e => S.heard p e.text) =
      (l.drop k).filterMap (S.passed p) := by
  have hsends : ∀ x : String × ℕ, (w.hub.sends (S.conn p) (S.conn p.other) x).bind (fun e => S.heard p e.text) =
      S.passed p x.1 := by
    intro x
    unfold Hub.sends passed
    rw [h.uid p, h.uid p.other]
    cases Relay.readPump (S.uid p) x.1 with
    | relay dest t =>
      dsimp only
      split_ifs <;> rfl
    | ignore | sendClientList => rfl
  calc ((l.zipIdx.drop k).filterMap (w.hub.sends (S.conn p) (S.conn p.other))).filterMap (fun e => S.heard p e.text)
      = (l.zipIdx.drop k).filterMap (fun x => S.passed p x.1) := by
        rw [List.filterMap_filterMap]
        exact List.filterMap_congr fun x _ => hsends x
    _ = ((l.zipIdx.drop k).map Prod.fst).filterMap (S.passed p) := by
        rw [List.filterMap_map]
        rfl
    _ = (l.drop k).filterMap (S.passed p) := by
        rw [List.map_drop, List.zipIdx_map_fst]

/-- **A step of the server**: what it has for the other client grows by what it has read. -/
theorem relayed_step (h : S.Sound w) {i : Delivery.Step} (p : Party)
    (hi : Hub.Through (S.conn p) (S.conn p.other) w.hub i) (hundisturbed : S.Undisturbed w.hub i) :
    (S.relayed { w with hub := w.hub.step i } p).filterMap (fun e => S.heard p e.text) =
      (S.relayed w p).filterMap (fun e => S.heard p e.text) ++
        (((w.hub.step i).conn (S.conn p)).read.drop (w.hub.conn (S.conn p)).read.length).filterMap (S.passed p) := by
  obtain ⟨new, hnew, hfrom⟩ := w.hub.accepted_step i (S.conn p.other)
  -- of what is taken in, only what the client relays is about a call
  have hown : new.filterMap (fun e => S.heard p e.text) =
      (new.filter fun e => (e.number (S.conn p)).isSome).filterMap fun e => S.heard p e.text := by
    rw [List.filterMap_filter]
    refine List.filterMap_congr fun e he => ?_
    split_ifs with hsome
    · rfl
    · obtain ⟨g, hg, hplace⟩ := hfrom e he
      have hnone : e.number (S.conn p.other.other) = none := by simpa using hsome
      have hcall := hundisturbed p.other (S.conn p.other, e) (by simp [pushed, hg, hplace]) rfl hnone
      unfold heard
      rw [hcall]
      rfl
  have hflow := (Hub.complete_step (.refl h.hub (h.conns p) (h.conns p.other)) hi).flow
  rw [Hub.taken, hnew, List.filter_append, Hub.taken, List.append_assoc, List.append_assoc,
    List.append_cancel_left_eq] at hflow
  have hheard := congrArg (List.filterMap fun e => S.heard p e.text) hflow
  rw [List.filterMap_append, List.filterMap_append, sends_heard h, ← hown] at hheard
  unfold relayed
  dsimp only
  rw [hnew, List.drop_append_of_le_length (h.got_accepted p.other), List.filterMap_append, List.filterMap_append,
    List.filterMap_append, List.append_assoc, List.append_assoc, hheard]

/-- **The invariant, through a step of the server.** -/
theorem Sound.hubStep (h : S.Sound w) {i : Delivery.Step}
    (hi : ∀ p, Hub.Through (S.conn p) (S.conn p.other) w.hub i) (hundisturbed : S.Undisturbed w.hub i)
    (hread : ∀ p, ((w.hub.step i).conn (S.conn p)).read <+: (w.outbox p).succeeded.map text) :
    S.Sound { w with hub := w.hub.step i } := by
  have hcomplete := fun p => Hub.complete_step (.refl h.hub (h.conns p) (h.conns p.other)) (hi p)
  have hinv : (w.hub.step i).Inv := (hcomplete .a).inv
  have huid : ∀ p, (w.hub.step i).uid (S.conn p) = S.uid p := fun p => (hcomplete p).uid.1.trans (h.uid p)
  refine ⟨h.outbox, hinv, Hub.queued_step w.hub i h.queued, fun p => (hcomplete p).conns.1, huid, hread,
    fun p => (h.got p).trans (w.hub.written_step i (S.conn p)).length_le, h.proper, fun p e he x hx => ?_⟩
  obtain ⟨new, hnew, hfrom⟩ := w.hub.accepted_step i (S.conn p)
  dsimp only at he
  rw [hnew, List.drop_append_of_le_length (h.got_accepted p)] at he
  rcases List.mem_append.mp he with hold | hlast
  · exact h.pure p e hold x hx
  · cases hn : e.number (S.conn p.other) with
    | none =>
      obtain ⟨g, hg, hplace⟩ := hfrom e hlast
      rw [hundisturbed p (S.conn p, e) (by simp [pushed, hg, hplace]) rfl hn] at hx
      exact absurd hx (by simp)
    | some n =>
      -- it was relayed for the other client, out of something that this has said
      have hmem : e ∈ ((w.hub.step i).conn (S.conn p)).accepted := by
        rw [hnew]
        exact List.mem_append_right _ hlast
      obtain ⟨m, hm, hr⟩ := (hinv.taken _ e hmem _ n (number_eq_some.mp hn)).relays
      have hsaid : m ∈ (said (w.outbox p.other)).map text := by
        refine List.mem_of_mem_take (i := ((w.outbox p.other).succeeded.map text).length) ?_
        have hpre : (w.outbox p.other).succeeded.map text <+: (said (w.outbox p.other)).map text := by
          rw [said, (h.outbox p.other).queued, List.append_assoc, List.map_append]
          exact List.prefix_append _ _
        rw [← List.prefix_iff_eq_take.mp hpre]
        exact (hread p.other).subset (List.mem_of_getElem? hm)
      obtain ⟨m', hm', rfl⟩ := List.mem_map.mp hsaid
      rw [huid p.other] at hr
      exact h.proper p.other m' hm' _ _ hr x hx

/-! ### The steps of the world -/

theorem said_queueAll {t : ℕ} {x : Outbox} (hx : Outbox.Inv t x) (ms : List Outgoing) :
    Outbox.Inv t (queueAll t x ms) ∧ said (queueAll t x ms) = said x ++ ms ∧
      x.succeeded <+: (queueAll t x ms).succeeded ∧ (queueAll t x ms).client.operations = x.client.operations := by
  induction ms generalizing x with
  | nil => exact ⟨hx, by simp [queueAll], List.prefix_rfl, rfl⟩
  | cons m ms ih =>
    obtain ⟨hinv, hsaid⟩ := said_queue hx m
    obtain ⟨hinv', hsaid', hsucceeded, hoperations⟩ := ih hinv
    have hsame : (x.step t (.queue m)).client.operations = x.client.operations := by
      show (Signal.step x.client (.queue m)).operations = _
      rw [step_live hx.crashed]
      rfl
    refine ⟨hinv', ?_, (step_succeeded _).trans hsucceeded, hoperations.trans hsame⟩
    rw [show queueAll t x (m :: ms) = queueAll t (x.step t (.queue m)) ms from rfl, hsaid', hsaid]
    simp

/-- **An operation of a manager**: what it sends enters its channel. -/
theorem view_perform (h : S.Sound w) (p : Party) {now : ℤ} (hnow : now.natAbs < 2 ^ 63)
    (r : CallManager × List Event) :
    S.Sound (S.perform w p now r) ∧ S.view (S.perform w p now r) = (S.view w).act S.uid p r := by
  obtain ⟨hinv, hsaid, hsucceeded, -⟩ := said_queueAll (h.outbox p) (S.built now p r.2)
  obtain ⟨hsound, hchannel⟩ := h.says (Function.update w.manager p r.1) hinv hsaid hsucceeded (proper_built hnow p r.2)
  refine ⟨hsound, ?_⟩
  have hfun : S.channel (S.perform w p now r) =
      Function.update (S.channel w) p (S.channel w p ++ carried S.uid p r.2) := by
    funext q
    refine (hchannel q).trans ?_
    by_cases hq : q = p
    · subst hq
      rw [if_pos rfl, passed_built hnow, Function.update_self]
    · rw [if_neg hq, List.append_nil, Function.update_of_ne hq]
  unfold view
  rw [hfun]
  rfl

/-- **A step of the connection logic of a client** says nothing about a call. -/
theorem view_proceed (h : S.Sound w) (p : Party) {i : Signal.Step} (hi : Outbox.Within (S.transport p) (w.outbox p) i)
    (hq : ∀ m, i = .queue m → S.Unrelated p (text m)) :
    S.Sound (S.proceed w p i) ∧ S.view (S.proceed w p i) = S.view w := by
  have hinv := Outbox.inv_step _ i (h.outbox p) hi
  -- what is said is the client's own or not about a call
  obtain ⟨extra, hsaid, hextra⟩ : ∃ extra, said ((w.outbox p).step (S.transport p) i) = said (w.outbox p) ++ extra ∧
      ∀ m ∈ extra, S.Proper p (text m) ∧ S.passed p (text m) = none := by
    by_cases hqueue : ∃ m, i = .queue m
    · obtain ⟨m, rfl⟩ := hqueue
      have hm := hq m rfl
      exact ⟨[m], (said_queue (h.outbox p) m).2, by simpa using ⟨hm.proper, hm.passed⟩⟩
    · obtain ⟨extra, hsaid, hown⟩ := said_step (h.outbox p) hi fun m hm => hqueue ⟨m, hm⟩
      exact ⟨extra, hsaid, fun m hm => ⟨proper_own p (hown m hm), passed_own p (hown m hm)⟩⟩
  obtain ⟨hsound, hchannel⟩ := h.says w.manager hinv hsaid (step_succeeded i) fun m hm => (hextra m hm).1
  refine ⟨hsound, ?_⟩
  have hnone : extra.filterMap (fun m => S.passed p (text m)) = [] :=
    List.filterMap_eq_nil_iff.mpr fun m hm => (hextra m hm).2
  have hfun : S.channel (S.proceed w p i) = S.channel w := by
    funext q
    refine (hchannel q).trans ?_
    rw [hnone, ite_self, List.append_nil]
  unfold view
  rw [hfun]
  rfl

/-- **A step of the server** that does not read from the two moves their messages on. -/
theorem view_hub (h : S.Sound w) {i : Delivery.Step} (hi : S.Fine w (.hub i)) (hreads : ¬ S.Reads i) :
    S.Sound { w with hub := w.hub.step i } ∧ S.view { w with hub := w.hub.step i } = S.view w := by
  have hread : ∀ p, ((w.hub.step i).conn (S.conn p)).read = (w.hub.conn (S.conn p)).read := by
    intro p
    refine w.hub.read_step fun m hm => hreads ?_
    rw [hm]
    cases p with
    | a => exact .inl rfl
    | b => exact .inr rfl
  refine ⟨h.hubStep hi.1 hi.2 fun p => by rw [hread]; exact h.read p, ?_⟩
  have hfun : S.channel { w with hub := w.hub.step i } = S.channel w := by
    funext p
    have hrelayed := relayed_step h p (hi.1 p) hi.2
    rw [hread, List.drop_length, List.filterMap_nil, List.append_nil] at hrelayed
    unfold channel
    rw [hrelayed, unread]
    dsimp only
    rw [hread]
    rfl
  unfold view
  rw [hfun]

/-- What is read from one of the two connections is not read from the other one. -/
theorem read_other (h : S.Sound w) {p q : Party} (hq : q ≠ p) (m : String) :
    ((w.hub.step (.read (S.conn p) m)).conn (S.conn q)).read = (w.hub.conn (S.conn q)).read := by
  refine w.hub.read_step fun m' hm' => hq ?_
  have hconn : S.conn p = S.conn q := (Delivery.Step.read.inj hm').1
  by_contra hne
  rcases p.eq_or_eq_other q with rfl | rfl
  · exact hq rfl
  · exact S.distinct p (by rw [← h.uid p, ← h.uid p.other, hconn])

/-- The message that the server reads next is the first one of the client's that it has not read. -/
theorem next_unread (h : S.Sound w) {p : Party} {m : Outgoing}
    (hm : (w.outbox p).succeeded[(w.hub.conn (S.conn p)).read.length]? = some m) {l : List Outgoing}
    (hl : (w.outbox p).succeeded <+: l) :
    (w.hub.conn (S.conn p)).read ++ [text m] <+: l.map text ∧
      (l.map text).drop (w.hub.conn (S.conn p)).read.length =
        text m :: (l.map text).drop ((w.hub.conn (S.conn p)).read ++ [text m]).length := by
  have hget : (l.map text)[(w.hub.conn (S.conn p)).read.length]? = some (text m) := by
    obtain ⟨rest, rfl⟩ := hl
    rw [List.map_append, List.getElem?_append_left]
    · rw [List.getElem?_map, hm]
      rfl
    · rw [List.length_map]
      exact (List.getElem?_eq_some_iff.mp hm).1
  obtain ⟨hlt, hval⟩ := List.getElem?_eq_some_iff.mp hget
  have hpre : (w.hub.conn (S.conn p)).read <+: l.map text := (h.read p).trans (hl.map text)
  constructor
  · rw [List.prefix_iff_eq_take, List.length_append, List.length_singleton, List.take_add_one, hget,
      ← List.prefix_iff_eq_take.mp hpre]
    rfl
  · rw [List.drop_eq_getElem_cons hlt, hval, List.length_append]
    rfl

/-- **The server reads the next message of a client.** -/
theorem view_transmit (h : S.Sound w) (p : Party) :
    S.Sound (S.step w (.transmit p)) ∧ S.view (S.step w (.transmit p)) = S.view w := by
  simp only [step]
  split
  · exact ⟨h, rfl⟩
  rename_i m hm
  have hthrough : ∀ q, Hub.Through (S.conn q) (S.conn q.other) w.hub (.read (S.conn p) (text m)) := by
    intro q
    unfold Hub.Through
    cases w.hub.place (.readPump (S.conn q)) <;> trivial
  have hundisturbed : S.Undisturbed w.hub (.read (S.conn p) (text m)) := fun q x hx => absurd hx (by simp [pushed])
  by_cases hr : w.hub.Reads (S.conn p)
  · have hlast : ((w.hub.step (.read (S.conn p) (text m))).conn (S.conn p)).read =
        (w.hub.conn (S.conn p)).read ++ [text m] := by
      simp only [Hub.step]
      rw [if_pos hr, Hub.goTo_conn, Hub.setConn_self]
    have hread : ∀ q, ((w.hub.step (.read (S.conn p) (text m))).conn (S.conn q)).read <+:
        (w.outbox q).succeeded.map text := by
      intro q
      by_cases hq : q = p
      · rw [hq, hlast]
        exact (next_unread h hm List.prefix_rfl).1
      · rw [read_other h hq]
        exact h.read q
    refine ⟨h.hubStep hthrough hundisturbed hread, ?_⟩
    have hfun : S.channel { w with hub := w.hub.step (.read (S.conn p) (text m)) } = S.channel w := by
      funext q
      have hrelayed := relayed_step h q (hthrough q) hundisturbed
      unfold channel
      rw [hrelayed]
      unfold unread
      dsimp only
      by_cases hq : q = p
      · subst hq
        have hpre : (w.outbox q).succeeded <+: said (w.outbox q) := by
          rw [said, (h.outbox q).queued, List.append_assoc]
          exact List.prefix_append _ _
        rw [hlast, (next_unread h hm hpre).2, List.drop_left, List.append_assoc, ← List.filterMap_append]
        rfl
      · rw [read_other h hq, List.drop_length, List.filterMap_nil, List.append_nil]
    unfold view
    rw [hfun]
  · have hsame : w.hub.step (.read (S.conn p) (text m)) = w.hub := by
      simp only [Hub.step]
      rw [if_neg hr]
    rw [hsame]
    exact ⟨h, rfl⟩

/-- The client `p` takes the message `e` off its connection. -/
theorem view_got (h : S.Sound w) (p : Party) {e : Mail} (he : (w.hub.conn (S.conn p)).written[w.got p]? = some e) :
    S.Sound { w with got := Function.update w.got p (w.got p + 1) } ∧
    S.channel w = Function.update (S.channel { w with got := Function.update w.got p (w.got p + 1) }) p.other
      ((S.heard p.other e.text).toList ++ S.channel { w with got := Function.update w.got p (w.got p + 1) } p.other) ∧
    ∀ x, callOf S.lib e.text = some x → x.1 = S.uid p.other := by
  obtain ⟨hlt, hval⟩ := List.getElem?_eq_some_iff.mp he
  have hdrop : (w.hub.conn (S.conn p)).accepted.drop (w.got p) =
      e :: (w.hub.conn (S.conn p)).accepted.drop (w.got p + 1) := by
    have hpre : (w.hub.conn (S.conn p)).written <+: (w.hub.conn (S.conn p)).accepted := by
      rw [(h.queued _).accepted, List.append_assoc]
      exact List.prefix_append _ _
    have hlt' := hlt.trans_le hpre.length_le
    rw [List.drop_eq_getElem_cons hlt', ← hpre.getElem hlt, hval]
  refine ⟨⟨h.outbox, h.hub, h.queued, h.conns, h.uid, h.read, fun q => ?_, h.proper, fun q e' he' => ?_⟩, ?_,
    h.pure p e (by rw [hdrop]; exact List.mem_cons_self)⟩
  · by_cases hq : q = p
    · subst hq
      simpa using hlt
    · simpa [hq] using h.got q
  · by_cases hq : q = p
    · subst hq
      refine h.pure q e' ?_
      rw [hdrop]
      exact List.mem_cons_of_mem _ (by simpa using he')
    · exact h.pure q e' (by simpa [hq] using he')
  · funext q
    by_cases hq : q = p.other
    · subst hq
      rw [Function.update_self]
      unfold channel relayed
      simp only [Party.other_other, Function.update_self]
      rw [hdrop, List.cons_append, List.filterMap_cons]
      cases S.heard p.other e.text <;> rfl
    · have hqp : q.other ≠ p := by
        rintro rfl
        exact hq (Party.other_other q).symm
      rw [Function.update_of_ne hq]
      unfold channel relayed unread
      simp only [Function.update_of_ne hqp]

/-- **A client handles a message**: the next one on its channel is delivered, if it is about a call. -/
theorem view_receive (h : S.Sound w) (p : Party) (n : ℕ) {now : ℤ} (hnow : now.natAbs < 2 ^ 63) :
    S.Sound (S.step w (.receive p n now)) ∧
      (S.view (S.step w (.receive p n now)) = S.view w ∨
        S.view (S.step w (.receive p n now)) = Pair.step S.uid (S.view w) (.deliver p)) := by
  simp only [step]
  split
  · exact ⟨h, .inl rfl⟩
  rename_i e he
  split_ifs with hread
  swap
  · exact ⟨h, .inl rfl⟩
  cases hd : Codec.dispatchSignalingMessage S.lib e.text.toUTF8 true with
  | error _ =>
    rw [show S.dispatch w p n now e = w by simp only [dispatch, hd]]
    exact ⟨h, .inl rfl⟩
  | ok result =>
    obtain ⟨outcome, calls⟩ := result
    obtain ⟨hgot, hchannel, hsender⟩ := view_got h p he
    set w₁ : World := { w with got := Function.update w.got p (w.got p + 1) } with hw₁
    have hcall : callOf S.lib e.text = calls.head?.bind callMessage := by
      unfold callOf
      rw [hd]
    -- the rest of the handler says nothing about a call
    have hrest : ∀ r : CallManager × List Event, S.Sound (S.proceed (S.perform w₁ p now r) p
          (.handler n outcome.requestClientList)) ∧
        S.view (S.proceed (S.perform w₁ p now r) p (.handler n outcome.requestClientList)) =
          (S.view w₁).act S.uid p r := by
      intro r
      obtain ⟨hsound, hview⟩ := view_perform hgot p hnow r
      have hoperations := (said_queueAll (h.outbox p) (S.built now p r.2)).2.2.2
      have hhandled :
          (Signal.Step.handler n outcome.requestClientList).handled ((S.perform w₁ p now r).outbox p).client =
            some ⟨S.transport p, .read, .ok⟩ := by
        have hread' :
            (Signal.Step.handler n false).handled (w.outbox p).client = some ⟨S.transport p, .read, .ok⟩ := hread
        simp only [perform, Function.update_self, Step.handled] at hread' ⊢
        rw [hoperations]
        exact hread'
      obtain ⟨hsound', hview'⟩ := view_proceed hsound p (i := .handler n outcome.requestClientList)
        ⟨by simp [Step.closes, hhandled], by simp [Step.foreign, hhandled]⟩ fun m hm => absurd hm (by simp)
      exact ⟨hsound', hview'.trans hview⟩
    simp only [dispatch, hd, ← hcall, ← hw₁]
    cases hx : callOf S.lib e.text with
    | none =>
      obtain ⟨hsound, hview⟩ := hrest ((w.manager p), [])
      refine ⟨hsound, .inl (hview.trans ?_)⟩
      have hnone : S.heard p.other e.text = none := by
        unfold heard
        rw [hx]
        rfl
      rw [hnone, Option.toList_none, List.nil_append, Function.update_eq_self] at hchannel
      unfold view
      rw [hchannel]
      simp [State.act, carried, hw₁]
    | some x =>
      obtain ⟨sender, m⟩ := x
      obtain rfl : sender = S.uid p.other := hsender _ hx
      obtain ⟨hsound, hview⟩ := hrest ((w.manager p).perform (.handle (S.uid p.other) m))
      refine ⟨hsound, .inr (hview.trans ?_)⟩
      have hsome : S.heard p.other e.text = some m := by
        unfold heard
        rw [hx]
        exact if_pos rfl
      rw [hsome, Option.toList_some, List.singleton_append] at hchannel
      have hhead : (S.view w).channel p.other = m :: S.channel w₁ p.other := by
        show S.channel w p.other = _
        rw [hchannel, Function.update_self]
      have hview₁ : S.view w₁ = { S.view w with
          channel := Function.update (S.view w).channel p.other (S.channel w₁ p.other) } := by
        unfold view
        simp only [Pair.State.mk.injEq]
        exact ⟨rfl, by rw [hchannel, Function.update_idem, Function.update_eq_self]⟩
      simp only [Pair.step, hhead]
      rw [hview₁]
      rfl

/-- What a step of `Pair` other than a delivery does. -/
theorem operation_step (uid : Party → String) (s : Pair.State) {i : Pair.Step} {p : Party}
    {f : CallManager → CallManager × List Event} (h : operation i = some (p, f)) :
    Pair.step uid s i = s.act uid p (f (s.manager p)) := by
  cases i <;> simp only [operation, Option.some.injEq, Prod.mk.injEq, reduceCtorEq] at h <;>
    obtain ⟨rfl, rfl⟩ := h <;> rfl

/-- **Every step is a step of `Pair`, or moves messages on.**  A condition on the operations carries over. -/
theorem simulates {ok : Pair.State → Pair.Step → Prop} (hok : ∀ s p, ok s (.deliver p)) :
    Simulates S.step (fun w i => S.Fine w i ∧ S.Acts ok w i) (Pair.step S.uid) ok fun w s =>
      S.Sound w ∧ S.view w = s := by
  rintro w s i ⟨h, rfl⟩ ⟨hi, hacts⟩
  have hnone : ∀ {w'}, S.Sound w' ∧ S.view w' = S.view w → ∃ js, Meets (Pair.step S.uid) ok (S.view w) js ∧
      S.Sound w' ∧ S.view w' = run (Pair.step S.uid) (S.view w) js := fun hw' => ⟨[], trivial, hw'⟩
  cases i with
  | act i now =>
    cases ho : operation i with
    | none =>
      simp only [step, ho]
      exact hnone ⟨h, rfl⟩
    | some y =>
      obtain ⟨p, f⟩ := y
      obtain ⟨hsound, hview⟩ := view_perform h p hi (f (w.manager p))
      simp only [step, ho]
      exact ⟨[i], ⟨hacts, trivial⟩, hsound, hview.trans (operation_step S.uid (S.view w) ho).symm⟩
  | client p i =>
    simp only [step]
    split_ifs
    · exact hnone ⟨h, rfl⟩
    · exact hnone (view_proceed h p hi.1 hi.2)
  | hub i =>
    simp only [step]
    split_ifs with hreads
    · exact hnone ⟨h, rfl⟩
    · exact hnone (view_hub h hi hreads)
  | transmit p => exact hnone (view_transmit h p)
  | receive p n now =>
    obtain ⟨hsound, hsame | hdeliver⟩ := view_receive h p n hi
    · exact hnone ⟨hsound, hsame⟩
    · exact ⟨[.deliver p], ⟨hok _ p, trivial⟩, hsound, hdeliver⟩

end Sound

/-! ### The channels of `Pair` -/

/-- The outbox of a transport that has just been made. -/
theorem opened_inv {before : List Signal.Step} {i : Signal.Step}
    (hmade : (run Signal.step {} (before ++ [i])).transports = (run Signal.step {} before).transports + 1) :
    Outbox.Inv (run Signal.step {} before).transports (.opened (run Signal.step {} (before ++ [i]))) := by
  rw [run_concat] at hmade ⊢
  obtain ⟨hc, s', hc', ht', hnumbered, hstep⟩ := made_cases hmade
  obtain ⟨htransport, hqueue, hcrashed, hwrites⟩ := connectOnIoThread_eq s' (run Signal.step {} before).transports
  rw [(hnumbered (numbered_run before)).writes_eq ht'.le] at hwrites
  rw [hstep]
  exact ⟨hcrashed.trans (hc'.trans hc), by rw [← ht']; exact htransport, by simp [Outbox.opened, hqueue],
    .idle rfl hwrites hqueue⟩

variable (S)

/-- Both managers are new; each client has just made a transport, with nothing left over that is about a call; both
are connected to the server, which has not heard of them yet. -/
structure Fresh (w : World) : Prop where
  manager : w.manager = Pair.init.manager
  outbox : ∀ p, ∃ before i,
    (run Signal.step {} (before ++ [i])).transports = (run Signal.step {} before).transports + 1 ∧
      S.transport p = (run Signal.step {} before).transports ∧ w.outbox p = .opened (run Signal.step {} (before ++ [i]))
  posted : ∀ p, ∀ m ∈ (w.outbox p).client.posted, S.Unrelated p (text m)
  hub : ∃ l, w.hub = run Hub.step {} l
  conns : ∀ p, S.conn p < w.hub.registry.conns
  uid : ∀ p, w.hub.uid (S.conn p) = S.uid p
  conn : ∀ p, w.hub.conn (S.conn p) = {}
  place : ∀ p, w.hub.place (.readPump (S.conn p)) = .idle
  got : ∀ p, w.got p = 0

variable {S}

theorem Fresh.sound {w : World} (h : S.Fresh w) : S.Sound w ∧ S.view w = Pair.init := by
  have houtbox : ∀ p, Outbox.Inv (S.transport p) (w.outbox p) ∧ (w.outbox p).queued = [] ∧
      (w.outbox p).succeeded = [] := by
    intro p
    obtain ⟨before, i, hmade, ht, hopened⟩ := h.outbox p
    rw [ht, hopened]
    exact ⟨opened_inv hmade, rfl, rfl⟩
  obtain ⟨l, hl⟩ := h.hub
  have hsaid : ∀ p, said (w.outbox p) = (w.outbox p).client.posted := by
    intro p
    rw [said, (houtbox p).2.1, List.nil_append]
  constructor
  · refine ⟨fun p => (houtbox p).1, by rw [hl]; exact Hub.inv_run l, by rw [hl]; exact Hub.queued_run l, h.conns, h.uid,
      fun p => ?_, fun p => ?_, fun p m hm => ?_, fun p e he => ?_⟩
    · rw [h.conn p]
      exact List.nil_prefix
    · rw [h.got p]
      exact Nat.zero_le _
    · rw [hsaid] at hm
      exact (h.posted p m hm).proper
    · rw [h.conn p] at he
      exact absurd he (by simp)
  · have hchannel : S.channel w = fun _ => [] := by
      funext p
      have hnone : ((w.outbox p).client.posted.map text).filterMap (S.passed p) = [] := by
        rw [List.filterMap_map]
        exact List.filterMap_eq_nil_iff.mpr fun m hm => (h.posted p m hm).passed
      unfold channel relayed unread Hub.underway
      rw [h.conn p, h.conn p.other, h.place p, hsaid]
      simpa [Place.message] using hnone
    unfold view
    rw [h.manager, hchannel]
    rfl

/-- **The queues between the two clients are a FIFO channel in each direction**: in every run in which both stay
connected, what they relay to each other finds the other one and nobody else calls them, the managers and what is on
its way between them are those of a run of `Pair`. -/
theorem relay_implements_fifo (S : Setup) {w : World} (hw : S.Fresh w) {l : List Step} (hl : Meets S.step S.Fine w l) :
    ∃ js, S.view (run S.step w l) = run (Pair.step S.uid) Pair.init js := by
  have hsim : Simulates S.step S.Fine (Pair.step S.uid) (fun _ _ => True) fun w s => S.Sound w ∧ S.view w = s := by
    intro w s i hR hi
    have hacts : S.Acts (fun _ _ => True) w i := by cases i <;> trivial
    exact simulates (fun _ _ => trivial) w s i hR ⟨hi, hacts⟩
  obtain ⟨js, -, -, hview⟩ := hsim.run (a := Pair.init) hw.sound hl
  exact ⟨js, hview⟩

/-- **Agreement, end to end**, in every such run whose operations are orderly in the sense of `Pair`: the two managers
agree whenever no call message is in a client's queue, on a socket or in the server. -/
theorem agreement_end_to_end (S : Setup) {w : World} (hw : S.Fresh w) {l : List Step}
    (hl : Meets S.step S.Fine w l) (horderly : Meets S.step (S.Acts Orderly) w l)
    (hquiet : ∀ p, S.channel (run S.step w l) p = []) : Agreement S.uid (S.view (run S.step w l)) := by
  obtain ⟨s, ⟨-, rfl⟩, hinv⟩ := (simulates fun _ _ => trivial).invariant (a := Pair.init) (Pair.inv_step S.named)
    hw.sound Pair.inv_init (meets_and.mpr ⟨hl, horderly⟩)
  exact agreement_of_quiet hinv hquiet

/-- Alice and bob, the first two connections of the server. -/
def aliceAndBob : Setup where
  lib := Relay.plainLibrary
  uid := names
  conn := fun | .a => 0 | .b => 1
  transport _ := 0
  named p := by cases p <;> decide
  distinct p := by cases p <;> decide

/-- Both have just connected. -/
def connected : World where
  manager := Pair.init.manager
  outbox p := .opened (Signal.step {} (.connect "ws://localhost:8081/ws/webrtc" (names p)))
  hub := run Hub.step {} bothConnected
  got _ := 0

theorem fresh_connected : aliceAndBob.Fresh connected where
  manager := rfl
  outbox p := ⟨[], .connect "ws://localhost:8081/ws/webrtc" (names p), by cases p <;> decide, rfl, rfl⟩
  posted p m hm := by
    have hnone : (connected.outbox p).client.posted = [] := by cases p <;> decide
    rw [hnone] at hm
    exact absurd hm (by simp)
  hub := ⟨bothConnected, rfl⟩
  conns p := by cases p <;> decide
  uid p := by cases p <;> decide
  conn p := by cases p <;> decide
  place p := by cases p <;> decide
  got p := rfl

/-- The client connects, shakes hands and waits for messages. -/
def goesOnline (p : Party) : List Step :=
  [.client p (.finish 0 .ok), .client p (.handler 0 false), .client p (.finish 0 .ok), .client p (.handler 0 false),
    .client p (.finish 0 .ok), .client p (.handler 0 false)]

/-- The client writes its registration and one message after it, and the server reads both. -/
def speaks (p : Party) : List Step :=
  [.client p .runPosted, .client p .runPosted, .client p (.finish 1 .ok), .client p (.handler 1 false),
    .client p (.finish 1 .ok), .client p (.handler 1 false), .transmit p, .transmit p]

/-- The server passes on to the other client what it has read from `p`, and that handles it. -/
def isHeard (p : Party) : List Step :=
  [.hub (.lookup (.readPump (aliceAndBob.conn p)) []), .hub (.check (.readPump (aliceAndBob.conn p))),
    .hub (.push (.readPump (aliceAndBob.conn p))), .hub (.receive (aliceAndBob.conn p.other)),
    .hub (.write (aliceAndBob.conn p.other) true), .client p.other (.finish 0 .ok), .receive p.other 0 0]

/-- Alice calls bob, whose client rings. -/
def aliceCalls : List Step :=
  goesOnline .a ++ goesOnline .b ++ [.act (.initiateCall .a "bob" 7) 0] ++ speaks .a ++ isHeard .a

theorem alice_calls_bob :
    (∃ js, aliceAndBob.view (run aliceAndBob.step connected aliceCalls) = run (Pair.step names) Pair.init js) ∧
      ((run aliceAndBob.step connected aliceCalls).manager .b).callState = .receiving := by
  obtain ⟨hl, hrings⟩ : Meets aliceAndBob.step aliceAndBob.Fine connected aliceCalls ∧
      ((run aliceAndBob.step connected aliceCalls).manager .b).callState = .receiving := by
    decide +kernel
  exact ⟨relay_implements_fifo aliceAndBob fresh_connected hl, hrings⟩

/-- Bob accepts, and alice hears of it. -/
def bobAccepts : List Step := aliceCalls ++ [.act (.acceptCall .b) 0] ++ speaks .b ++ isHeard .b

theorem bob_accepts_alice :
    let w := run aliceAndBob.step connected bobAccepts
    Agreement names (aliceAndBob.view w) ∧ ∀ p, (w.manager p).callState = .connecting ∧
      (w.manager p).currentPeer = names p.other ∧ (w.manager p).currentCallId = "7-1" := by
  obtain ⟨hl, horderly, hquiet, hmanagers⟩ : Meets aliceAndBob.step aliceAndBob.Fine connected bobAccepts ∧
      Meets aliceAndBob.step (aliceAndBob.Acts Orderly) connected bobAccepts ∧
      (∀ p, aliceAndBob.channel (run aliceAndBob.step connected bobAccepts) p = []) ∧
      ∀ p, ((run aliceAndBob.step connected bobAccepts).manager p).callState = .connecting ∧
        ((run aliceAndBob.step connected bobAccepts).manager p).currentPeer = names p.other ∧
        ((run aliceAndBob.step connected bobAccepts).manager p).currentCallId = "7-1" := by
    decide +kernel
  exact ⟨agreement_end_to_end aliceAndBob fresh_connected hl horderly hquiet, hmanagers⟩

end Setup

end PeerCall.EndToEnd
