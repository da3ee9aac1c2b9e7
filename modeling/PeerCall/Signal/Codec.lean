import PeerCall.Lib.Json
import PeerCall.Signal.Message

/-!
# Signal.Codec — `signaling_codec` and `signal_message_dispatcher`

`nlohmann::json` is modelled as far as the codec uses it: the reader and the printer are instances of
`Lib.Json`, an object keeps the last member of each key, `value` and `get` raise when a member has another
type than the one asked for.  An exception leaves the parser as `Except.error`.
-/

namespace PeerCall.Codec

open PeerCall.Lib

/-! ### `nlohmann::json` -/

/-- What is taken from outside: the text of the exception that `json::parse` raises, what
`static_cast<int>` makes of the `double` nearest to `mantissa * 10 ^ exponent`, and what `get<int>()` makes
of a flag, if it takes one. -/
structure Library where
  what : ByteArray → String
  castInt : ℤ → ℤ → ℤ
  flagInt : Bool → Option ℤ

/-- An exception other than the one of `json::parse`. -/
inductive Raised
  | typeError
  deriving DecidableEq, Repr

/-- The least number that is rounded up beyond the greatest `double`. -/
@[irreducible] def overflow : ℕ := 2 ^ 1024 - 2 ^ 970

/-- The number does not overflow a `double`. -/
def finite (mantissa exponent : ℤ) : Bool :=
  if 0 ≤ exponent then mantissa.natAbs * 10 ^ exponent.toNat < overflow
  else mantissa.natAbs < overflow * 10 ^ (-exponent).toNat

theorem finite_int {n : ℤ} (h : n.natAbs < 2 ^ 64) : finite n 0 = true := by
  have hle : 2 ^ 64 ≤ overflow := by decide +kernel
  have hlt : n.natAbs < overflow := Nat.lt_of_lt_of_le h hle
  simp [finite, hlt]

def dialect : Json.Dialect where
  lone := none
  holds := finite
  nulEnds := true

theorem holdable_int {n : ℤ} (h : n.natAbs < 2 ^ 64) : Json.Holdable dialect (.int n) := by
  rw [Json.Holdable]
  exact finite_int h

/-- The characters of a text that is read from bytes: nothing after a NUL byte has to be well-formed. -/
def decode (bytes : ByteArray) : Option (List Char) :=
  match String.fromUTF8? bytes with
  | some s => some s.toList
  | none => (String.fromUTF8? ⟨(bytes.data.toList.takeWhile (· ≠ 0)).toArray⟩).map String.toList

/-- A byte order mark in front is skipped. -/
def skipBom : List Char → List Char
  | '\ufeff' :: cs => cs
  | cs => cs

/-- `json::parse`; `none`: it raises. -/
def jsonParse (bytes : ByteArray) : Option Json := (decode bytes).bind fun cs => Json.parse dialect (skipBom cs)

theorem jsonParse_toUTF8 (s : String) : jsonParse s.toUTF8 = Json.parse dialect (skipBom s.toList) := by
  have h : String.fromUTF8? s.toUTF8 = some s := dif_pos s.isValidUTF8
  rw [jsonParse, decode, h]
  rfl

/-- The member of an object; the last one of several with the same key. -/
def find (j : Json) (key : String) : Option Json :=
  match j with
  | .obj ms => (ms.reverse.find? fun m => m.1 = key).map Prod.snd
  | _ => none

def asString : Json → Option String
  | .str s => some s
  | _ => none

def asBool : Json → Option Bool
  | .bool b => some b
  | _ => none

/-- An integer of 64 bits is cut to 32; any other number is a `double`. -/
def asInt (lib : Library) : Json → Option ℤ
  | .int n => some (if -2 ^ 63 ≤ n ∧ n < 2 ^ 64 then n.bmod (2 ^ 32) else lib.castInt n 0)
  | .float m e => some (lib.castInt m e)
  | .bool b => lib.flagInt b
  | _ => none

/-- `get<T>()`. -/
def get {α : Type} (as : Json → Option α) (j : Json) : Except Raised α :=
  match as j with
  | some a => .ok a
  | none => .error .typeError

/-- `value(key, default)`. -/
def value {α : Type} (as : Json → Option α) (j : Json) (key : String) (default : α) : Except Raised α :=
  match j with
  | .obj ms =>
    match find (.obj ms) key with
    | none => .ok default
    | some v => get as v
  | _ => .error .typeError

/-- `dump()`, with its default arguments. -/
def dump (j : Json) : String := String.ofList (Json.print Json.shortEscape j)

/-- The order of the keys of a `std::map`: by the bytes, which is the one by the code points. -/
def keyLess (a b : String) : Bool := List.lex a.toList b.toList fun c d => decide (c.toNat < d.toNat)

/-- A member put into a `std::map`, which is sorted by its keys. -/
def insertMember (key : String) (v : Json) : List (String × Json) → List (String × Json)
  | [] => [(key, v)]
  | m :: ms =>
    if keyLess key m.1 then (key, v) :: m :: ms
    else if key = m.1 then (key, v) :: ms
    else m :: insertMember key v ms

/-- An object given by its members. -/
def jsonObject (ms : List (String × Json)) : List (String × Json) :=
  ms.foldl (fun acc m => insertMember m.1 m.2 acc) []

/-! ### The parser -/

inductive SignalingMessageType
  | registered | clientList | userOffline | callRequest | callResponse | callCancel | callEnd | offer | answer
  | iceCandidate | unknown
  deriving DecidableEq, Repr

structure ClientInfo where
  id : String := ""
  deriving DecidableEq, Repr

structure IceServerConfig where
  urls : List String := []
  username : String := ""
  credential : String := ""
  deriving DecidableEq, Repr

structure ParsedSignalingMessage where
  type : SignalingMessageType := .unknown
  sender : String := ""
  iceServers : List IceServerConfig := []
  clients : List ClientInfo := []
  offlineClientId : String := ""
  callId : String := ""
  accepted : Bool := false
  reason : String := ""
  sessionDescription : SessionDescriptionPayload := {}
  iceCandidate : IceCandidatePayload := {}
  deriving DecidableEq, Repr

/-- `payload.value("callId", payload.value("call_id", ""))`. -/
def parseCallId (payload : Json) : Except Raised String := do
  let fallback ← value asString payload "call_id" ""
  value asString payload "callId" fallback

/-- `ParseSessionDescription`. -/
def parseSessionDescription (payload : Json) (fallbackType : String) :
    Except Raised SessionDescriptionPayload := do
  let callId ← parseCallId payload
  match find payload "sdp" with
  | some (.obj ms) =>
    let type ← value asString (.obj ms) "type" fallbackType
    let sdp ← value asString (.obj ms) "sdp" ""
    return { callId := callId, type := type, sdp := sdp }
  | some (.str s) =>
    let type ← value asString payload "type" fallbackType
    return { callId := callId, type := type, sdp := s }
  | _ =>
    let type ← value asString payload "type" fallbackType
    let sdp ← value asString payload "sdp" ""
    return { callId := callId, type := type, sdp := sdp }

/-- The object a candidate is read from. -/
def candidatePayload (payload : Json) : Json :=
  match find payload "candidate" with
  | some (.obj ms) => .obj ms
  | _ => payload

/-- The member a candidate's index is read from, under the first of its three names that is there. -/
def mlineIndex (candidate : Json) : Option Json :=
  find candidate "sdpMLineIndex" <|> find candidate "sdpMlineIndex" <|> find candidate "sdp_mline_index"

/-- The first of two names under which the media id is there and not empty. -/
def parseSdpMid (candidate : Json) : Except Raised String := do
  let sdpMid ← value asString candidate "sdpMid" ""
  if sdpMid = "" then value asString candidate "sdp_mid" "" else return sdpMid

def parseMlineIndex (lib : Library) (candidate : Json) : Except Raised ℤ :=
  match mlineIndex candidate with
  | none => return -1
  | some v => get (asInt lib) v

/-- `ParseIceCandidate`. -/
def parseIceCandidate (lib : Library) (payload : Json) : Except Raised IceCandidatePayload := do
  let callId ← parseCallId payload
  let sdpMid ← parseSdpMid (candidatePayload payload)
  let index ← parseMlineIndex lib (candidatePayload payload)
  let candidate ← value asString (candidatePayload payload) "candidate" ""
  return { callId := callId, sdpMid := sdpMid, sdpMlineIndex := index, candidate := candidate }

/-- The strings of an array, or a single string. -/
def parseUrls : Option Json → List String
  | some (.arr xs) => xs.filterMap fun
    | .str s => some s
    | _ => none
  | some (.str s) => [s]
  | _ => []

/-- One element of `iceServers`; what is not an object is skipped. -/
def parseIceServer : Json → Except Raised (Option IceServerConfig)
  | .obj ms => do
    let username ← value asString (.obj ms) "username" ""
    let credential ← value asString (.obj ms) "credential" ""
    return some { urls := parseUrls (find (.obj ms) "urls"), username := username, credential := credential }
  | _ => return none

/-- What a function of the elements of an array, that may raise, keeps of them. -/
def collect {α : Type} (f : Json → Except Raised (Option α)) : List Json → Except Raised (List α)
  | [] => return []
  | x :: xs => do
    let y ← f x
    let ys ← collect f xs
    return y.toList ++ ys

/-- `ParseIceServers`. -/
def parseIceServers (payload : Json) : Except Raised (List IceServerConfig) :=
  match find payload "iceServers" with
  | some (.arr xs) => collect parseIceServer xs
  | _ => return []

def parseClientId : Json → Except Raised String
  | .obj ms => value asString (.obj ms) "id" ""
  | .str s => return s
  | _ => return ""

/-- One element of `clients`; what has no id is skipped. -/
def parseClient (x : Json) : Except Raised (Option ClientInfo) := do
  let id ← parseClientId x
  return if id = "" then none else some { id := id }

/-- `ParseClientList`. -/
def parseClientList (payload : Json) : Except Raised (List ClientInfo) :=
  match find payload "clients" with
  | some (.arr xs) => collect parseClient xs
  | _ => return []

/-- `ParseMessageType`. -/
def parseMessageType (type : String) : SignalingMessageType :=
  if type = "registered" then .registered
  else if type = "client-list" then .clientList
  else if type = "user-offline" then .userOffline
  else if type = "call-request" then .callRequest
  else if type = "call-response" then .callResponse
  else if type = "call-cancel" then .callCancel
  else if type = "call-end" then .callEnd
  else if type = "offer" then .offer
  else if type = "answer" then .answer
  else if type = "ice-candidate" then .iceCandidate
  else .unknown

/-- The `payload` of an envelope, if it is an object. -/
def payloadOf (envelope : Json) : Json :=
  match find envelope "payload" with
  | some (.obj ms) => .obj ms
  | _ => .obj []

/-- The fields that a message of the type has. -/
def parseFields (lib : Library) (base : ParsedSignalingMessage) (payload : Json) :
    Except Raised ParsedSignalingMessage :=
  match base.type with
  | .registered => return { base with iceServers := ← parseIceServers payload }
  | .clientList => return { base with clients := ← parseClientList payload }
  | .userOffline => return { base with offlineClientId := ← value asString payload "clientId" "" }
  | .callRequest => return { base with callId := ← parseCallId payload }
  | .callResponse => do
    let callId ← parseCallId payload
    let accepted ← value asBool payload "accepted" false
    let reason ← value asString payload "reason" ""
    return { base with callId := callId, accepted := accepted, reason := reason }
  | .callCancel | .callEnd => do
    let callId ← parseCallId payload
    let reason ← value asString payload "reason" ""
    return { base with callId := callId, reason := reason }
  | .offer => return { base with sessionDescription := ← parseSessionDescription payload "offer" }
  | .answer => return { base with sessionDescription := ← parseSessionDescription payload "answer" }
  | .iceCandidate => return { base with iceCandidate := ← parseIceCandidate lib payload }
  | .unknown => return base

/-- The envelope, once it is known to be an object. -/
def parseEnvelope (lib : Library) (envelope : Json) : Except Raised ParsedSignalingMessage := do
  let type ← value asString envelope "type" ""
  let sender ← value asString envelope "from" ""
  parseFields lib { type := parseMessageType type, sender := sender } (payloadOf envelope)

/-- What `ParseSignalingMessage` returns, and what its two output parameters point to afterwards; a null
pointer is `none`. -/
structure ParseResult where
  success : Bool
  parsed : Option ParsedSignalingMessage
  errorMessage : Option String
  deriving DecidableEq, Repr

/-- `ParseSignalingMessage`. -/
def parseSignalingMessage (lib : Library) (message : ByteArray) (parsed : Option ParsedSignalingMessage)
    (errorMessage : Option String) : Except Raised ParseResult :=
  match parsed with
  | none =>
    return ⟨false, none, errorMessage.map fun _ => "ParsedSignalingMessage output parameter is null."⟩
  | some before =>
    match jsonParse message with
    | none =>
      return ⟨false, some before,
        errorMessage.map fun _ => "Invalid JSON from signaling server: " ++ lib.what message⟩
    | some (.obj ms) => do
      let result ← parseEnvelope lib (.obj ms)
      return ⟨true, some result, errorMessage.map fun _ => ""⟩
    | some _ => return ⟨true, some {}, errorMessage.map fun _ => ""⟩

/-! ### The dispatcher -/

/-- The calls on `SignalClientObserver` that a message leads to. -/
inductive ObserverCall
  | onIceServersReceived (iceServers : List IceServerConfig)
  | onClientListUpdate (clients : List ClientInfo)
  | onUserOffline (clientId : String)
  | onCallRequest (sender callId : String)
  | onCallResponse (sender callId : String) (accepted : Bool) (reason : String)
  | onCallCancel (sender callId reason : String)
  | onCallEnd (sender callId reason : String)
  | onOffer (sender : String) (sdp : SessionDescriptionPayload)
  | onAnswer (sender : String) (sdp : SessionDescriptionPayload)
  | onIceCandidate (sender : String) (candidate : IceCandidatePayload)
  deriving DecidableEq, Repr

structure SignalMessageDispatchOutcome where
  success : Bool := true
  error : String := ""
  hasIceServers : Bool := false
  requestClientList : Bool := false
  iceServers : List IceServerConfig := []
  deriving DecidableEq, Repr

/-- The call that a message of each type leads to. -/
def observerCall (p : ParsedSignalingMessage) : List ObserverCall :=
  match p.type with
  | .registered => [.onIceServersReceived p.iceServers]
  | .clientList => [.onClientListUpdate p.clients]
  | .userOffline => [.onUserOffline p.offlineClientId]
  | .callRequest => [.onCallRequest p.sender p.callId]
  | .callResponse => [.onCallResponse p.sender p.callId p.accepted p.reason]
  | .callCancel => [.onCallCancel p.sender p.callId p.reason]
  | .callEnd => [.onCallEnd p.sender p.callId p.reason]
  | .offer => [.onOffer p.sender p.sessionDescription]
  | .answer => [.onAnswer p.sender p.sessionDescription]
  | .iceCandidate => [.onIceCandidate p.sender p.iceCandidate]
  | .unknown => []

/-- What the dispatcher makes of what the parser has returned. -/
def dispatchParsed (r : ParseResult) (observer : Bool) : SignalMessageDispatchOutcome × List ObserverCall :=
  let error := r.errorMessage.getD ""
  let parsed := r.parsed.getD {}
  if r.success = false then
    ({ success := false, error := if error = "" then "Failed to parse signaling message." else error }, [])
  else
    (if parsed.type = .registered then
        { hasIceServers := true, iceServers := parsed.iceServers, requestClientList := true }
      else {},
      if observer then observerCall parsed else [])

/-- `DispatchSignalingMessage`: the outcome and the calls on the observer, if there is one. -/
def dispatchSignalingMessage (lib : Library) (message : ByteArray) (observer : Bool) :
    Except Raised (SignalMessageDispatchOutcome × List ObserverCall) := do
  let r ← parseSignalingMessage lib message (some {}) (some "")
  return dispatchParsed r observer

/-! ### The messages a client builds -/

/-- `BuildMessageEnvelope`. -/
def buildMessageEnvelope (type sender dest : String) (payload : Json) : Json :=
  let message := jsonObject [("type", .str type), ("from", .str sender)]
  let message := if dest = "" then message else insertMember "to" (.str dest) message
  let message := match payload with
    | .null => message
    | _ => insertMember "payload" payload message
  .obj message

/-- A payload with a reason, which is left out when it is empty. -/
def withReason (reason : String) (payload : List (String × Json)) : Json :=
  .obj (if reason = "" then payload else insertMember "reason" (.str reason) payload)

def buildRegisterMessage (sender : String) : String := dump (buildMessageEnvelope "register" sender "" .null)

def buildListClientsMessage (sender : String) : String := dump (buildMessageEnvelope "list-clients" sender "" .null)

/-- `BuildCallRequestMessage`; `now` is the system clock in milliseconds. -/
def buildCallRequestMessage (now : ℤ) (sender dest callId : String) : String :=
  dump (buildMessageEnvelope "call-request" sender dest
    (.obj (jsonObject [("callId", .str callId), ("timestamp", .int now)])))

def buildCallResponseMessage (sender dest callId : String) (accepted : Bool) (reason : String) : String :=
  dump (buildMessageEnvelope "call-response" sender dest
    (withReason reason (jsonObject [("callId", .str callId), ("accepted", .bool accepted)])))

def buildCallCancelMessage (sender dest callId reason : String) : String :=
  dump (buildMessageEnvelope "call-cancel" sender dest (withReason reason (jsonObject [("callId", .str callId)])))

def buildCallEndMessage (sender dest callId reason : String) : String :=
  dump (buildMessageEnvelope "call-end" sender dest (withReason reason (jsonObject [("callId", .str callId)])))

/-- The payload of an offer or an answer. -/
def descriptionPayload (sdp : SessionDescriptionPayload) : Json :=
  .obj (jsonObject [("callId", .str sdp.callId),
    ("sdp", .obj (jsonObject [("type", .str sdp.type), ("sdp", .str sdp.sdp)]))])

def buildOfferMessage (sender dest : String) (sdp : SessionDescriptionPayload) : String :=
  dump (buildMessageEnvelope "offer" sender dest (descriptionPayload sdp))

def buildAnswerMessage (sender dest : String) (sdp : SessionDescriptionPayload) : String :=
  dump (buildMessageEnvelope "answer" sender dest (descriptionPayload sdp))

def buildIceCandidateMessage (sender dest : String) (candidate : IceCandidatePayload) : String :=
  dump (buildMessageEnvelope "ice-candidate" sender dest
    (.obj (jsonObject [("callId", .str candidate.callId),
      ("candidate", .obj (jsonObject [("sdpMid", .str candidate.sdpMid),
        ("sdpMLineIndex", .int candidate.sdpMlineIndex), ("candidate", .str candidate.candidate)]))])))

end PeerCall.Codec
