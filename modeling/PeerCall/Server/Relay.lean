import PeerCall.Server.Registry
import PeerCall.Signal.Codec

/-!
# Server.Relay — what the signaling server does to a message between two clients

The server reads a message into `WebRTCMessage`, overwrites its sender and marshals it again.  Go's
`encoding/json` is modelled as far as the server uses it: the payload is a `json.RawMessage`, so that its
text is kept as it came and only compacted when it is written; strings are written with `<`, `>`, `&` and
the two line separators escaped; empty fields marked `omitempty` are left out.

The results follow every message that a client can build through the server to the parser of the other
client, and the server's own messages to the parser.
-/

namespace PeerCall.Relay

open PeerCall.Lib PeerCall.Codec

/-! ### `encoding/json` -/

/-- A lone surrogate is replaced, numbers are not looked at. -/
def goDialect : Json.Dialect where
  lone := some '\ufffd'
  holds _ _ := true
  nulEnds := false

/-- The characters that are escaped for the sake of HTML and JavaScript. -/
def isHtml (c : Char) : Bool := c = '<' || c = '>' || c = '&' || c = '\u2028' || c = '\u2029'

def goEscape (c : Char) : List Char := if isHtml c then Json.unicodeEscape c.toNat else Json.shortEscape c

/-- One character of a raw text. -/
def compactChar (c : Char) : List Char := if isHtml c then Json.unicodeEscape c.toNat else [c]

/-- `compact`: blanks outside of strings go; the flag says whether the text stands inside a string. -/
def compact : Bool → List Char → List Char
  | _, [] => []
  | true, '\\' :: c :: cs => '\\' :: (compactChar c ++ compact true cs)
  | true, '"' :: cs => '"' :: compact false cs
  | true, c :: cs => compactChar c ++ compact true cs
  | false, '"' :: cs => '"' :: compact true cs
  | false, c :: cs => if Json.isWs c then compact false cs else compactChar c ++ compact false cs

/-- `json.Marshal` of a value. -/
def goMarshal (j : Json) : List Char := Json.print goEscape j

/-- An object written field by field. -/
def structText : List (String × List Char) → List Char
  | [] => ['{', '}']
  | (k, t) :: fs =>
    '{' :: (Json.memberText goEscape k t ++ fs.flatMap (fun f => ',' :: Json.memberText goEscape f.1 f.2) ++ ['}'])

/-! ### The messages of the server -/

/-- `WebRTCMessage`; an absent payload is the empty text. -/
structure WebRTCMessage where
  type : String := ""
  sender : String := ""
  dest : String := ""
  payload : List Char := []
  deriving DecidableEq, Repr

/-- A string field marked `omitempty`. -/
def omitEmpty (key s : String) : List (String × List Char) :=
  if s = "" then [] else [(key, Json.quote goEscape s)]

/-- `json.Marshal` of a message. -/
def WebRTCMessage.marshal (m : WebRTCMessage) : List Char :=
  structText (("type", Json.quote goEscape m.type) :: (omitEmpty "from" m.sender ++ omitEmpty "to" m.dest ++
    if m.payload = [] then [] else [("payload", compact false m.payload)]))

/-- A string field takes a string, and keeps what it has for `null`; anything else is an error. -/
def stringField (v : Json) (set : String → WebRTCMessage) (m : WebRTCMessage) : Option WebRTCMessage :=
  match v with
  | .str s => some (set s)
  | .null => some m
  | _ => none

/-- `foldName`, as far as the names of the fields go: they have no letter that folds outside of ASCII. -/
def foldName (key : String) : String := String.ofList (key.toList.map Char.toLower)

/-- One member of the object that is read; names are matched without regard to case. -/
def setField (m : WebRTCMessage) (x : Json.Member) : Option WebRTCMessage :=
  let name := foldName x.key
  if name = "type" then stringField x.value (fun s => { m with type := s }) m
  else if name = "from" then stringField x.value (fun s => { m with sender := s }) m
  else if name = "to" then stringField x.value (fun s => { m with dest := s }) m
  else if name = "payload" then some { m with payload := x.raw }
  else some m

/-- `json.Unmarshal` into a message (nesting deeper than Go allows aside). -/
def unmarshal (text : List Char) : Option WebRTCMessage :=
  match Json.parseMembers goDialect text with
  | some ms => ms.foldlM setField {}
  | none =>
    match Json.parse goDialect text with
    | some .null => some {}
    | _ => none

/-- What `readPump` does with one message. -/
inductive Reaction
  | ignore
  | sendClientList
  | relay (dest : String) (text : String)
  deriving DecidableEq, Repr

/-- The types that are relayed. -/
def relayedTypes : List String :=
  ["offer", "answer", "ice-candidate", "conflict-resolution", "call-request", "call-response", "call-cancel",
    "call-end"]

/-- The body of the loop of `readPump`, and `relayMessage` to a client that is there. -/
def readPump (uid : String) (message : String) : Reaction :=
  match unmarshal message.toList with
  | none => .ignore
  | some msg =>
    let msg := { msg with sender := uid }
    if msg.type = "register" then .ignore
    else if msg.type = "list-clients" then .sendClientList
    else if msg.type ∈ relayedTypes then
      if msg.dest = "" then .ignore else .relay msg.dest (String.ofList msg.marshal)
    else .ignore

/-- `IceServer`. -/
structure IceServer where
  urls : List String
  username : String := ""
  credential : String := ""
  deriving DecidableEq, Repr

/-- A string member marked `omitempty`. -/
def omitEmptyMember (key s : String) : List (String × Json) := if s = "" then [] else [(key, .str s)]

def IceServer.toJson (x : IceServer) : Json :=
  .obj (("urls", .arr (x.urls.map .str)) :: (omitEmptyMember "username" x.username ++
    omitEmptyMember "credential" x.credential))

/-- `getIceServers`. -/
def getIceServers : List IceServer :=
  [{ urls := ["stun:stun.l.google.com:19302"] },
    { urls := ["stun:stun1.l.google.com:19302"] },
    { urls := ["turn:openrelay.metered.ca:80"], username := "openrelayproject", credential := "openrelayproject" },
    { urls := ["turn:openrelay.metered.ca:443"], username := "openrelayproject", credential := "openrelayproject" },
    { urls := ["turn:openrelay.metered.ca:443?transport=tcp"], username := "openrelayproject",
      credential := "openrelayproject" }]

/-- `handleWebRTCConnection` refuses a connection without a uid. -/
def Named : Registry.Step → Prop
  | .handleConnection uid => uid ≠ ""
  | _ => True

instance : ∀ i : Registry.Step, Decidable (Named i)
  | .handleConnection uid => inferInstanceAs (Decidable (uid ≠ ""))
  | .register _ | .removeClient _ | .fire _ | .confirmOffline _ => inferInstanceAs (Decidable True)

/-- An order in which the keys of the map `clients` are ranged over. -/
structure Ranges (clients : String → Option ℕ) (uids : List String) : Prop where
  nodup : uids.Nodup
  mem_iff : ∀ uid, uid ∈ uids ↔ clients uid ≠ none

/-- A message of the server's own with a payload. -/
def serverMessage (type sender : String) (payload : Json) : String :=
  String.ofList (WebRTCMessage.marshal { type := type, sender := sender, payload := goMarshal payload })

/-- The message of `sendRegisteredMessage`. -/
def registeredMessage (uid : String) : String :=
  serverMessage "registered" uid (.obj [("iceServers", .arr (getIceServers.map IceServer.toJson))])

/-- The message of `sendClientList` and `broadcastClientList`, for the keys of `clients` in the order in which
they are ranged over; without any, the slice is nil and is written as `null`. -/
def clientListMessage (uids : List String) : String :=
  serverMessage "client-list" "" (.obj [("clients",
    if uids = [] then .null else .arr (uids.map fun uid => .obj [("id", .str uid)]))])

/-- The message of `notifyUserOffline`. -/
def userOfflineMessage (uid : String) : String :=
  serverMessage "user-offline" "server" (.obj [("clientId", .str uid)])

/-! ### Texts of the server -/

theorem escapes_goEscape {d : Json.Dialect} : Json.Escapes d goEscape := by
  intro c rest
  unfold goEscape
  split_ifs with h
  · refine Json.stringChar_unicodeEscape c ?_ rest
    simp only [isHtml, Bool.or_eq_true, decide_eq_true_eq] at h
    rcases h with (((rfl | rfl) | rfl) | rfl) | rfl <;> decide
  · exact Json.escapes_shortEscape c rest

/-! ### Compaction keeps the value -/

/-- Inside a string. -/
theorem compact_inside {c : Char} (hq : c ≠ '"') (hb : c ≠ '\\') (rest : List Char) :
    compact true (c :: rest) = compactChar c ++ compact true rest := by
  rw [compact]
  · exact fun _ _ h => absurd h hb
  · exact hq

theorem compact_unicodeEscape (n : ℕ) (rest : List Char) :
    compact true (Json.unicodeEscape n ++ rest) = Json.unicodeEscape n ++ compact true rest := by
  have hdigit : ∀ m rest, compact true (Json.hexDigit m :: rest) = Json.hexDigit m :: compact true rest := by
    intro m rest
    have h : ∀ k : Fin 16, Nat.digitChar k ≠ '"' ∧ Nat.digitChar k ≠ '\\' ∧ isHtml (Nat.digitChar k) = false := by
      decide
    obtain ⟨hq, hb, hh⟩ := h ⟨m % 16, Nat.mod_lt _ (by decide)⟩
    rw [Json.hexDigit, compact_inside hq hb, compactChar, hh]
    rfl
  simp only [Json.unicodeEscape, List.cons_append, List.nil_append, compact, hdigit]
  rfl

/-- A spelling that compaction turns into the server's own. -/
def Compacts (esc : Char → List Char) : Prop :=
  ∀ c rest, compact true (esc c ++ rest) = goEscape c ++ compact true rest

theorem compacts_shortEscape : Compacts Json.shortEscape := by
  intro c rest
  unfold goEscape
  by_cases hh : isHtml c = true
  · -- what is escaped for HTML only is left alone by the client
    have hshort : Json.shortEscape c = [c] ∧ c ≠ '"' ∧ c ≠ '\\' := by
      simp only [isHtml, Bool.or_eq_true, decide_eq_true_eq] at hh
      rcases hh with (((rfl | rfl) | rfl) | rfl) | rfl <;> decide
    rw [if_pos hh, hshort.1, List.singleton_append, compact_inside hshort.2.1 hshort.2.2, compactChar, if_pos hh]
  · rw [if_neg hh]
    unfold Json.shortEscape
    split_ifs with h1 h2 h3 h4 h5 h6 h7 h8
    · rfl
    · rfl
    · rfl
    · rfl
    · rfl
    · rfl
    · rfl
    · exact compact_unicodeEscape _ rest
    · rw [List.singleton_append, compact_inside h1 h2, compactChar, if_neg hh]

theorem compacts_goEscape : Compacts goEscape := by
  intro c rest
  by_cases hh : isHtml c = true
  · rw [goEscape, if_pos hh]
    exact compact_unicodeEscape _ rest
  · have h := compacts_shortEscape c rest
    rw [goEscape, if_neg hh] at h ⊢
    exact h

/-- What stands outside of strings. -/
def Plain (c : Char) : Prop := c ≠ '"' ∧ Json.isWs c = false ∧ isHtml c = false

instance (c : Char) : Decidable (Plain c) := by unfold Plain; infer_instance

theorem compact_cons {c : Char} (h : Plain c) (rest : List Char) :
    compact false (c :: rest) = c :: compact false rest := by
  obtain ⟨hq, hws, hh⟩ := h
  rw [compact]
  · rw [hws, compactChar, hh]
    rfl
  · exact hq

theorem compact_plain (cs : List Char) (h : (cs.all fun c => Plain c) = true) (rest : List Char) :
    compact false (cs ++ rest) = cs ++ compact false rest := by
  induction cs with
  | nil => rfl
  | cons c cs ih =>
    rw [List.all_cons, Bool.and_eq_true, decide_eq_true_iff] at h
    rw [List.cons_append, compact_cons h.1, ih h.2]
    rfl

theorem plain_of_isDigit {c : Char} (h : c.isDigit = true) : Plain c := by
  have hne : ∀ c' : Char, c'.isDigit = false → c ≠ c' := fun c' hc' => Json.ne_of_isDigit h hc'
  refine ⟨hne _ (by decide), Json.isWs_of_number (.inl h), ?_⟩
  simp only [isHtml, Bool.or_eq_false_iff, decide_eq_false_iff_not]
  exact ⟨⟨⟨⟨hne _ (by decide), hne _ (by decide)⟩, hne _ (by decide)⟩, hne _ (by decide)⟩, hne _ (by decide)⟩

theorem plain_intText (n : ℤ) : ((Json.intText n).all fun c => Plain c) = true := by
  refine List.all_eq_true.mpr fun c hc => decide_eq_true ?_
  unfold Json.intText at hc
  split_ifs at hc
  · rcases List.mem_cons.mp hc with rfl | hc
    · decide
    · exact plain_of_isDigit (Json.isDigit_of_mem hc)
  · exact plain_of_isDigit (Json.isDigit_of_mem hc)

section Compaction

variable {esc : Char → List Char}

theorem compact_quote (h : Compacts esc) (s : String) (rest : List Char) :
    compact false (Json.quote esc s ++ rest) = Json.quote goEscape s ++ compact false rest := by
  have hclosing : ∀ cs : List Char, compact true (Json.closing esc cs ++ rest) =
      Json.closing goEscape cs ++ compact false rest := by
    intro cs
    induction cs with
    | nil => rfl
    | cons c cs ih =>
      have hsplit : ∀ e : Char → List Char, Json.closing e (c :: cs) = e c ++ Json.closing e cs := by
        intro e
        simp [Json.closing]
      rw [hsplit, hsplit, List.append_assoc, h, ih, List.append_assoc]
  exact congrArg (List.cons '"') (hclosing s.toList)

theorem compact_memberText (h : Compacts esc) (key : String) {cs cs' rest rest' : List Char}
    (hcs : compact false (cs ++ rest) = cs' ++ rest') :
    compact false (Json.memberText esc key cs ++ rest) = Json.memberText goEscape key cs' ++ rest' := by
  rw [Json.memberText, List.append_assoc, compact_quote h, List.cons_append, compact_cons (by decide), hcs,
    Json.memberText, List.append_assoc]
  rfl

mutual

/-- Compaction turns a client's text of a value into the server's. -/
theorem compact_print (h : Compacts esc) : ∀ (j : Json) (rest : List Char),
    compact false (Json.print esc j ++ rest) = Json.print goEscape j ++ compact false rest
  | .null, rest => compact_plain ['n', 'u', 'l', 'l'] (by decide) rest
  | .bool true, rest => compact_plain ['t', 'r', 'u', 'e'] (by decide) rest
  | .bool false, rest => compact_plain ['f', 'a', 'l', 's', 'e'] (by decide) rest
  | .int n, rest => compact_plain _ (plain_intText n) rest
  | .float m e, rest => by
    refine compact_plain _ ?_ rest
    rw [Json.print, Json.floatText, List.all_append, List.all_cons, plain_intText m, plain_intText e]
    decide
  | .str s, rest => compact_quote h s rest
  | .arr [], rest => compact_plain ['[', ']'] (by decide) rest
  | .arr (x :: xs), rest => by
    simp only [Json.print, List.cons_append, List.append_assoc]
    rw [compact_cons (by decide), compact_print h x, compact_printElements h xs]
  | .obj [], rest => compact_plain ['\x7b', '\x7d'] (by decide) rest
  | .obj ((k, v) :: ms), rest => by
    have hv := compact_print h v (Json.printMembers esc ms ++ rest)
    rw [compact_printMembers h ms] at hv
    simp only [Json.print, List.cons_append, List.append_assoc]
    rw [compact_cons (by decide), compact_memberText h k hv]

theorem compact_printElements (h : Compacts esc) : ∀ (xs : List Json) (rest : List Char),
    compact false (Json.printElements esc xs ++ rest) = Json.printElements goEscape xs ++ compact false rest
  | [], rest => compact_plain [']'] (by decide) rest
  | x :: xs, rest => by
    simp only [Json.printElements, List.cons_append, List.append_assoc]
    rw [compact_cons (by decide), compact_print h x, compact_printElements h xs]

theorem compact_printMembers (h : Compacts esc) : ∀ (ms : List (String × Json)) (rest : List Char),
    compact false (Json.printMembers esc ms ++ rest) = Json.printMembers goEscape ms ++ compact false rest
  | [], rest => compact_plain ['\x7d'] (by decide) rest
  | (k, v) :: ms, rest => by
    have hv := compact_print h v (Json.printMembers esc ms ++ rest)
    rw [compact_printMembers h ms] at hv
    simp only [Json.printMembers, List.cons_append, List.append_assoc]
    rw [compact_cons (by decide), compact_memberText h k hv]

end

end Compaction

/-! ### From client to server -/

/-- The members of a message of the server, as values. -/
def messageMembers (type sender dest : String) (payload : Json) : List (String × Json) :=
  ("type", .str type) :: (omitEmptyMember "from" sender ++ omitEmptyMember "to" dest ++ [("payload", payload)])

theorem printMembers_eq (esc : Char → List Char) (ms : List (String × Json)) :
    Json.printMembers esc ms = ms.flatMap (fun m => ',' :: Json.memberText esc m.1 (Json.print esc m.2)) ++ ['}'] := by
  induction ms with
  | nil => rfl
  | cons m ms ih =>
    obtain ⟨k, v⟩ := m
    simp [Json.printMembers, ih]

theorem structText_print (ms : List (String × Json)) :
    structText (ms.map fun m => (m.1, Json.print goEscape m.2)) = Json.print goEscape (.obj ms) := by
  cases ms with
  | nil => rfl
  | cons m ms =>
    obtain ⟨k, v⟩ := m
    simp [structText, Json.print, printMembers_eq, List.flatMap_map]

theorem omitEmpty_eq (key s : String) :
    omitEmpty key s = (omitEmptyMember key s).map fun m => (m.1, Json.print goEscape m.2) := by
  unfold omitEmpty omitEmptyMember
  split_ifs <;> rfl

theorem print_ne_nil {esc : Char → List Char} (h : Json.Escapes goDialect esc) (j : Json) : Json.print esc j ≠ [] := by
  obtain ⟨c, cs, heq, -⟩ := (Json.reads_print h j (Json.holdable_of_holds (fun _ _ => rfl) j)).start
  rw [heq]
  simp

/-- A message whose payload is the text of a value is written as that value. -/
theorem marshal_print {esc : Char → List Char} (h : Compacts esc) (hesc : Json.Escapes goDialect esc)
    (type sender dest : String) (payload : Json) :
    WebRTCMessage.marshal ⟨type, sender, dest, Json.print esc payload⟩ =
      Json.print goEscape (.obj (messageMembers type sender dest payload)) := by
  have hcompact : compact false (Json.print esc payload) = Json.print goEscape payload := by
    simpa [compact] using compact_print h payload []
  rw [← structText_print, WebRTCMessage.marshal]
  simp only [if_neg (print_ne_nil hesc payload), hcompact, omitEmpty_eq]
  simp [messageMembers, Json.print]

/-- The envelope of a relayed message: its members are sorted. -/
theorem buildMessageEnvelope_eq {dest : String} (h : dest ≠ "") (type sender : String) (ms : List (String × Json)) :
    buildMessageEnvelope type sender dest (.obj ms) =
      .obj [("from", .str sender), ("payload", .obj ms), ("to", .str dest), ("type", .str type)] := by
  simp [buildMessageEnvelope, jsonObject, insertMember, keyLess, h]

/-- The server reads what a client has built. -/
theorem unmarshal_dump {dest : String} (h : dest ≠ "") (type sender : String) (ms : List (String × Json)) :
    unmarshal (dump (buildMessageEnvelope type sender dest (.obj ms))).toList =
      some ⟨type, sender, dest, Json.print Json.shortEscape (.obj ms)⟩ := by
  rw [buildMessageEnvelope_eq h, dump, String.toList_ofList, unmarshal, Json.parseMembers_print Json.escapes_shortEscape
    (Json.holdable_of_holds (fun _ _ => rfl) _)]
  have h1 : foldName "from" = "from" := by decide
  have h2 : foldName "payload" = "payload" := by decide
  have h3 : foldName "to" = "to" := by decide
  have h4 : foldName "type" = "type" := by decide
  simp [Json.printed, setField, stringField, h1, h2, h3, h4]

/-- The server relays what a client has built, with its own notion of the sender. -/
theorem readPump_dump {dest type : String} (h : dest ≠ "") (htype : type ∈ relayedTypes) (uid sender : String)
    (ms : List (String × Json)) :
    readPump uid (dump (buildMessageEnvelope type sender dest (.obj ms))) =
      .relay dest (String.ofList (Json.print goEscape (.obj (messageMembers type uid dest (.obj ms))))) := by
  have hregister : type ≠ "register" := by
    rintro rfl
    exact absurd htype (by decide)
  have hlist : type ≠ "list-clients" := by
    rintro rfl
    exact absurd htype (by decide)
  rw [readPump, unmarshal_dump h]
  simp only [if_neg hregister, if_neg hlist, if_pos htype, if_neg h]
  rw [marshal_print compacts_shortEscape Json.escapes_shortEscape]

/-! ### From server to client -/

/-- The client reads the server's text of a message. -/
theorem jsonParse_print {ms : List (String × Json)} (h : Json.Holdable dialect (.obj ms)) :
    jsonParse (String.ofList (Json.print goEscape (.obj ms))).toUTF8 = some (.obj ms) := by
  have hbom : skipBom (Json.print goEscape (.obj ms)) = Json.print goEscape (.obj ms) := by
    cases ms with
    | nil => rfl
    | cons m ms => rfl
  rw [jsonParse_toUTF8, String.toList_ofList, hbom]
  exact (Json.reads_print escapes_goEscape _ h).parse_eq

theorem holdable_messageMembers {ms : List (String × Json)} (h : Json.Holdable dialect (.obj ms))
    (type sender dest : String) : Json.Holdable dialect (.obj (messageMembers type sender dest (.obj ms))) := by
  unfold messageMembers omitEmptyMember
  split_ifs <;> simp [Json.Holdable, Json.HoldableMembers] at h ⊢ <;> exact h

/-- The client's view of the members of a message. -/
theorem parseEnvelope_messageMembers (lib : Library) (type sender dest : String) (ms : List (String × Json)) :
    parseEnvelope lib (.obj (messageMembers type sender dest (.obj ms))) =
      parseFields lib { type := parseMessageType type, sender := sender } (.obj ms) := by
  unfold messageMembers omitEmptyMember
  split_ifs with hs hd hd <;>
    simp [parseEnvelope, value, find, Codec.get, asString, payloadOf, bind, Except.bind, hs]

/-- A message written by the server is parsed to what its payload holds. -/
theorem parse_serverText {lib : Library} {type sender dest : String} {ms : List (String × Json)}
    (h : Json.Holdable dialect (.obj ms)) {result : ParsedSignalingMessage}
    (hfields : parseFields lib { type := parseMessageType type, sender := sender } (.obj ms) = .ok result)
    (before : ParsedSignalingMessage) (error : String) :
    parseSignalingMessage lib
        (String.ofList (Json.print goEscape (.obj (messageMembers type sender dest (.obj ms))))).toUTF8
        (some before) (some error) = .ok ⟨true, some result, some ""⟩ := by
  rw [parseSignalingMessage, jsonParse_print (holdable_messageMembers h type sender dest)]
  simp [parseEnvelope_messageMembers, hfields, bind, Except.bind, pure, Except.pure]

/-! ### Message by message -/

/-- The message that a client builds, at the time `now`. -/
def build (now : ℤ) (sender dest : String) : SignalMessage → String
  | .call (.callRequest callId) => buildCallRequestMessage now sender dest callId
  | .call (.callResponse callId accepted reason) => buildCallResponseMessage sender dest callId accepted reason
  | .call (.callCancel callId reason) => buildCallCancelMessage sender dest callId reason
  | .call (.callEnd callId reason) => buildCallEndMessage sender dest callId reason
  | .offer sdp => buildOfferMessage sender dest sdp
  | .answer sdp => buildAnswerMessage sender dest sdp
  | .iceCandidate candidate => buildIceCandidateMessage sender dest candidate

/-- The message as the other client should see it. -/
def received (uid : String) : SignalMessage → ParsedSignalingMessage
  | .call (.callRequest callId) => { type := .callRequest, sender := uid, callId := callId }
  | .call (.callResponse callId accepted reason) =>
    { type := .callResponse, sender := uid, callId := callId, accepted := accepted, reason := reason }
  | .call (.callCancel callId reason) => { type := .callCancel, sender := uid, callId := callId, reason := reason }
  | .call (.callEnd callId reason) => { type := .callEnd, sender := uid, callId := callId, reason := reason }
  | .offer sdp => { type := .offer, sender := uid, sessionDescription := sdp }
  | .answer sdp => { type := .answer, sender := uid, sessionDescription := sdp }
  | .iceCandidate candidate => { type := .iceCandidate, sender := uid, iceCandidate := candidate }

/-- The index of a candidate is an `int`. -/
def Fits : SignalMessage → Prop
  | .iceCandidate candidate => -2 ^ 31 ≤ candidate.sdpMlineIndex ∧ candidate.sdpMlineIndex < 2 ^ 31
  | _ => True

/-- The type of a message and the members of its payload. -/
structure Envelope where
  type : String
  payload : List (String × Json)

def reasonMember (reason : String) : List (String × Json) := omitEmptyMember "reason" reason

def envelope (now : ℤ) : SignalMessage → Envelope
  | .call (.callRequest callId) => ⟨"call-request", [("callId", .str callId), ("timestamp", .int now)]⟩
  | .call (.callResponse callId accepted reason) =>
    ⟨"call-response", ("accepted", .bool accepted) :: ("callId", .str callId) :: reasonMember reason⟩
  | .call (.callCancel callId reason) => ⟨"call-cancel", ("callId", .str callId) :: reasonMember reason⟩
  | .call (.callEnd callId reason) => ⟨"call-end", ("callId", .str callId) :: reasonMember reason⟩
  | .offer sdp =>
    ⟨"offer", [("callId", .str sdp.callId), ("sdp", .obj [("sdp", .str sdp.sdp), ("type", .str sdp.type)])]⟩
  | .answer sdp =>
    ⟨"answer", [("callId", .str sdp.callId), ("sdp", .obj [("sdp", .str sdp.sdp), ("type", .str sdp.type)])]⟩
  | .iceCandidate x =>
    ⟨"ice-candidate", [("callId", .str x.callId), ("candidate", .obj [("candidate", .str x.candidate),
      ("sdpMLineIndex", .int x.sdpMlineIndex), ("sdpMid", .str x.sdpMid)])]⟩

theorem build_eq (now : ℤ) (sender dest : String) (m : SignalMessage) :
    build now sender dest m =
      dump (buildMessageEnvelope (envelope now m).type sender dest (.obj (envelope now m).payload)) := by
  match m with
  | .call (.callRequest callId) =>
    simp [build, buildCallRequestMessage, jsonObject, insertMember, keyLess, envelope]
  | .call (.callResponse callId accepted reason) =>
    by_cases h : reason = "" <;>
      simp [build, buildCallResponseMessage, withReason, jsonObject, insertMember, keyLess, envelope, reasonMember,
        omitEmptyMember, h]
  | .call (.callCancel callId reason) =>
    by_cases h : reason = "" <;>
      simp [build, buildCallCancelMessage, withReason, jsonObject, insertMember, keyLess, envelope, reasonMember,
        omitEmptyMember, h]
  | .call (.callEnd callId reason) =>
    by_cases h : reason = "" <;>
      simp [build, buildCallEndMessage, withReason, jsonObject, insertMember, keyLess, envelope, reasonMember,
        omitEmptyMember, h]
  | .offer sdp =>
    simp [build, buildOfferMessage, descriptionPayload, jsonObject, insertMember, keyLess, envelope]
  | .answer sdp =>
    simp [build, buildAnswerMessage, descriptionPayload, jsonObject, insertMember, keyLess, envelope]
  | .iceCandidate candidate =>
    simp [build, buildIceCandidateMessage, jsonObject, insertMember, keyLess, envelope]

theorem envelope_relayed (now : ℤ) (m : SignalMessage) : (envelope now m).type ∈ relayedTypes := by
  match m with
  | .call (.callRequest _) => simp [envelope, relayedTypes]
  | .call (.callResponse _ _ _) => simp [envelope, relayedTypes]
  | .call (.callCancel _ _) => simp [envelope, relayedTypes]
  | .call (.callEnd _ _) => simp [envelope, relayedTypes]
  | .offer _ => simp [envelope, relayedTypes]
  | .answer _ => simp [envelope, relayedTypes]
  | .iceCandidate _ => simp [envelope, relayedTypes]

theorem holdable_reasonMember (reason : String) : Json.HoldableMembers dialect (reasonMember reason) := by
  unfold reasonMember omitEmptyMember
  split_ifs <;> simp [Json.HoldableMembers, Json.Holdable]

theorem holdable_envelope {now : ℤ} (hnow : now.natAbs < 2 ^ 63) {m : SignalMessage} (hm : Fits m) :
    Json.Holdable dialect (.obj (envelope now m).payload) := by
  match m with
  | .call (.callRequest _) => exact ⟨trivial, holdable_int (by omega), trivial⟩
  | .call (.callResponse _ _ reason) => exact ⟨trivial, trivial, holdable_reasonMember reason⟩
  | .call (.callCancel _ reason) => exact ⟨trivial, holdable_reasonMember reason⟩
  | .call (.callEnd _ reason) => exact ⟨trivial, holdable_reasonMember reason⟩
  | .offer _ => exact ⟨trivial, ⟨trivial, trivial, trivial⟩, trivial⟩
  | .answer _ => exact ⟨trivial, ⟨trivial, trivial, trivial⟩, trivial⟩
  | .iceCandidate x =>
    have hindex : x.sdpMlineIndex.natAbs < 2 ^ 64 := by
      have hm' : -2 ^ 31 ≤ x.sdpMlineIndex ∧ x.sdpMlineIndex < 2 ^ 31 := hm
      omega
    exact ⟨trivial, ⟨trivial, holdable_int hindex, trivial, trivial⟩, trivial⟩

theorem asInt_fits (lib : Library) {n : ℤ} (h : -2 ^ 31 ≤ n ∧ n < 2 ^ 31) : asInt lib (.int n) = some n := by
  have hbmod : n.bmod (2 ^ 32) = n := Int.bmod_eq_of_le (by omega) (by omega)
  rw [asInt, if_pos (by omega), hbmod]

/-- The client reads from the payload what the other one has put there. -/
theorem parseFields_envelope (lib : Library) (now : ℤ) (uid : String) {m : SignalMessage} (hm : Fits m) :
    parseFields lib { type := parseMessageType (envelope now m).type, sender := uid } (.obj (envelope now m).payload) =
      .ok (received uid m) := by
  match m with
  | .call (.callRequest callId) => rfl
  | .call (.callResponse callId accepted reason) =>
    by_cases h : reason = ""
    · subst h; rfl
    · simp only [envelope, reasonMember, omitEmptyMember, if_neg h]
      rfl
  | .call (.callCancel callId reason) =>
    by_cases h : reason = ""
    · subst h; rfl
    · simp only [envelope, reasonMember, omitEmptyMember, if_neg h]
      rfl
  | .call (.callEnd callId reason) =>
    by_cases h : reason = ""
    · subst h; rfl
    · simp only [envelope, reasonMember, omitEmptyMember, if_neg h]
      rfl
  | .offer sdp => rfl
  | .answer sdp => rfl
  | .iceCandidate x =>
    set members : List (String × Json) := [("candidate", .str x.candidate), ("sdpMLineIndex", .int x.sdpMlineIndex),
      ("sdpMid", .str x.sdpMid)] with hmembers
    have hindex : parseMlineIndex lib (.obj members) = .ok x.sdpMlineIndex := by
      have hget : Codec.get (asInt lib) (.int x.sdpMlineIndex) = .ok x.sdpMlineIndex := by
        rw [Codec.get, asInt_fits lib hm]
      exact hget
    have hmid : parseSdpMid (.obj members) = .ok x.sdpMid := by
      by_cases h : x.sdpMid = ""
      · rw [hmembers, h]
        rfl
      · exact if_neg h
    show (parseIceCandidate lib (.obj [("callId", .str x.callId), ("candidate", .obj members)]) >>= _) = _
    have hcandidate :
        parseIceCandidate lib (.obj [("callId", .str x.callId), ("candidate", .obj members)]) = .ok x := by
      unfold parseIceCandidate
      rw [show candidatePayload (.obj [("callId", .str x.callId), ("candidate", .obj members)]) = .obj members from rfl,
        hmid, hindex]
      rfl
    rw [hcandidate]
    rfl

/-- **One relayed message**: the server passes it on, and the other client reads it as it was built. -/
theorem relayed_message (lib : Library) {now : ℤ} (hnow : now.natAbs < 2 ^ 63) (uid sender : String) {dest : String}
    (hdest : dest ≠ "") {m : SignalMessage} (hm : Fits m) :
    ∃ text, readPump uid (build now sender dest m) = .relay dest text ∧
      ∀ before error, parseSignalingMessage lib text.toUTF8 (some before) (some error) =
        .ok ⟨true, some (received uid m), some ""⟩ := by
  rw [build_eq]
  exact ⟨_, readPump_dump hdest (envelope_relayed now m) uid sender _,
    parse_serverText (holdable_envelope hnow hm) (parseFields_envelope lib now uid hm)⟩

/-! ### The messages of the server's own -/

theorem serverMessage_eq (type sender : String) (payload : Json) :
    serverMessage type sender payload =
      String.ofList (Json.print goEscape (.obj (messageMembers type sender "" payload))) := by
  rw [serverMessage, goMarshal, marshal_print compacts_goEscape escapes_goEscape]

/-- A message of the server's own is parsed to what its payload holds. -/
theorem parse_serverMessage {lib : Library} {type sender : String} {ms : List (String × Json)}
    (h : Json.Holdable dialect (.obj ms)) {result : ParsedSignalingMessage}
    (hfields : parseFields lib { type := parseMessageType type, sender := sender } (.obj ms) = .ok result)
    (before : ParsedSignalingMessage) (error : String) :
    parseSignalingMessage lib (serverMessage type sender (.obj ms)).toUTF8 (some before) (some error) =
      .ok ⟨true, some result, some ""⟩ := by
  rw [serverMessage_eq]
  exact parse_serverText h hfields before error

/-- The configuration that a client makes of an ICE server. -/
def IceServer.config (x : IceServer) : IceServerConfig := ⟨x.urls, x.username, x.credential⟩

theorem holdableAll_map {α : Type} {d : Json.Dialect} {f : α → Json} {xs : List α}
    (h : ∀ x ∈ xs, Json.Holdable d (f x)) : Json.HoldableAll d (xs.map f) := by
  induction xs with
  | nil => trivial
  | cons x xs ih => exact ⟨h x List.mem_cons_self, ih fun y hy => h y (List.mem_cons_of_mem _ hy)⟩

theorem collect_map {α β : Type} {f : Json → Except Raised (Option β)} {g : α → Json} {k : α → β} {xs : List α}
    (h : ∀ x ∈ xs, f (g x) = .ok (some (k x))) : collect f (xs.map g) = .ok (xs.map k) := by
  induction xs with
  | nil => rfl
  | cons x xs ih =>
    have hx := h x List.mem_cons_self
    have hxs := ih fun y hy => h y (List.mem_cons_of_mem _ hy)
    simp [collect, hx, hxs, bind, Except.bind, pure, Except.pure]

theorem parseUrls_map (urls : List String) : parseUrls (some (.arr (urls.map .str))) = urls := by
  simp [parseUrls, List.filterMap_map]

theorem parseIceServer_toJson (x : IceServer) : parseIceServer x.toJson = .ok (some x.config) := by
  obtain ⟨urls, username, credential⟩ := x
  have hurls := parseUrls_map urls
  by_cases hu : username = "" <;> by_cases hc : credential = "" <;>
    simp [IceServer.toJson, IceServer.config, omitEmptyMember, parseIceServer, value, find, Codec.get, asString, hurls,
      hu, hc, bind, Except.bind, pure, Except.pure]

theorem holdable_toJson (d : Json.Dialect) (x : IceServer) : Json.Holdable d x.toJson := by
  obtain ⟨urls, username, credential⟩ := x
  have hurls : Json.HoldableAll d (urls.map .str) := holdableAll_map fun _ _ => by simp [Json.Holdable]
  by_cases hu : username = "" <;> by_cases hc : credential = "" <;>
    simp [IceServer.toJson, omitEmptyMember, Json.Holdable, Json.HoldableMembers, hurls, hu, hc]

theorem registered_decodes (lib : Library) (uid : String) (before : ParsedSignalingMessage) (error : String) :
    parseSignalingMessage lib (registeredMessage uid).toUTF8 (some before) (some error) =
      .ok ⟨true, some { type := .registered, sender := uid, iceServers := getIceServers.map IceServer.config },
        some ""⟩ := by
  refine parse_serverMessage ?_ ?_ before error
  · exact ⟨holdableAll_map fun x _ => holdable_toJson dialect x, trivial⟩
  · have hcollect : collect parseIceServer (getIceServers.map IceServer.toJson) =
        .ok (getIceServers.map IceServer.config) :=
      collect_map fun x _ => parseIceServer_toJson x
    have hservers : parseIceServers (.obj [("iceServers", .arr (getIceServers.map IceServer.toJson))]) =
        .ok (getIceServers.map IceServer.config) := hcollect
    show (parseIceServers _ >>= _) = _
    rw [hservers]
    rfl

/-- No connection of the registry is without a uid. -/
def AllNamed (s : Registry.Server) : Prop :=
  (∀ c < s.conns, (s.conn c).uid ≠ "") ∧ ∀ uid, s.clients uid ≠ none → uid ≠ ""

/-- An update of one connection that keeps its uid. -/
theorem update_uid (f : ℕ → Registry.Client) {c : ℕ} {k : Registry.Client} (hk : k.uid = (f c).uid) (c' : ℕ) :
    (Function.update f c k c').uid = (f c').uid := by
  by_cases h : c' = c
  · rw [h, Function.update_self, hk]
  · rw [Function.update_of_ne h]

theorem update_conn_named {f : ℕ → Registry.Client} {n : ℕ} (h : ∀ c < n, (f c).uid ≠ "") {c : ℕ}
    {k : Registry.Client} (hk : k.uid = (f c).uid) : ∀ c' < n, (Function.update f c k c').uid ≠ "" := by
  intro c' hc'
  rw [update_uid f hk]
  exact h c' hc'

/-- A key that is put into the map is named if the uid is; one that is taken out leaves the others. -/
theorem update_named {clients : String → Option ℕ} (h : ∀ uid, clients uid ≠ none → uid ≠ "") {u : String}
    {c : Option ℕ} (hu : c ≠ none → u ≠ "") : ∀ uid, Function.update clients u c uid ≠ none → uid ≠ "" := by
  intro uid huid
  by_cases heq : uid = u
  · subst heq
    rw [Function.update_self] at huid
    exact hu huid
  · rw [Function.update_of_ne heq] at huid
    exact h uid huid

theorem allNamed_handleConnection {s : Registry.Server} (h : AllNamed s) {uid : String} (huid : uid ≠ "") :
    AllNamed (s.handleConnection uid) := by
  obtain ⟨hconn, hclients⟩ := h
  -- the new connection has the uid, and an old one keeps its own
  have hnew : ∀ (f : ℕ → Registry.Client) (k : Registry.Client), (∀ c, (f c).uid = (s.conn c).uid) → k.uid = uid →
      ∀ c < s.conns + 1, (Function.update f s.conns k c).uid ≠ "" := by
    intro f k hf hk c hc
    by_cases heq : c = s.conns
    · rw [heq, Function.update_self, hk]
      exact huid
    · rw [Function.update_of_ne heq, hf c]
      exact hconn c (by omega)
  unfold Registry.Server.handleConnection
  cases hc : s.clients uid with
  | none => exact ⟨hnew s.conn _ (fun _ => rfl) rfl, update_named hclients fun _ => huid⟩
  | some existing =>
    exact ⟨hnew _ _ (update_uid s.conn (k := { s.conn existing with closed := true }) rfl) rfl,
      update_named hclients fun h => absurd rfl h⟩

theorem allNamed_step (s : Registry.Server) (i : Registry.Step) (h : AllNamed s) (hi : Named i) :
    AllNamed (Registry.step s i) := by
  cases i with
  | handleConnection uid => exact allNamed_handleConnection h hi
  | register c =>
    simp only [Registry.step, Registry.Server.register]
    split_ifs with hc
    · exact ⟨update_conn_named h.1 rfl, update_named h.2 fun _ => h.1 c hc.1⟩
    · exact h
  | removeClient c =>
    simp only [Registry.step, Registry.Server.removeClient]
    split_ifs
    · exact ⟨update_conn_named h.1 rfl, update_named h.2 fun hne => absurd rfl hne⟩
    · exact ⟨update_conn_named h.1 rfl, h.2⟩
    · exact h
  | fire j =>
    simp only [Registry.step, Registry.Server.fire]
    split_ifs <;> exact h
  | confirmOffline j =>
    simp only [Registry.step, Registry.Server.confirmOffline]
    split_ifs <;> exact h

theorem allNamed_run {steps : List Registry.Step} (h : ∀ i ∈ steps, Named i) :
    AllNamed (run Registry.step {} steps) := by
  refine run_invariant allNamed_step ?_ (meets_of_forall _ h)
  exact ⟨fun c hc => absurd hc (Nat.not_lt_zero c), fun _ hne => absurd rfl hne⟩

theorem clientList_decodes (lib : Library) {uids : List String} (h : ∀ uid ∈ uids, uid ≠ "")
    (before : ParsedSignalingMessage) (error : String) :
    parseSignalingMessage lib (clientListMessage uids).toUTF8 (some before) (some error) =
      .ok ⟨true, some { type := .clientList, clients := uids.map ClientInfo.mk }, some ""⟩ := by
  by_cases hnil : uids = []
  · subst hnil
    have hold : Json.Holdable dialect (.obj [("clients", .null)]) := ⟨trivial, trivial⟩
    exact parse_serverMessage hold rfl before error
  · rw [clientListMessage, if_neg hnil]
    refine parse_serverMessage ?_ ?_ before error
    · exact ⟨holdableAll_map fun _ _ => ⟨trivial, trivial⟩, trivial⟩
    · have hclients : parseClientList (.obj [("clients", .arr (uids.map fun uid => .obj [("id", .str uid)]))]) =
          .ok (uids.map ClientInfo.mk) :=
        collect_map fun uid huid => congrArg Except.ok (if_neg (h uid huid))
      show (parseClientList _ >>= _) = _
      rw [hclients]
      rfl

theorem userOffline_decodes (lib : Library) (uid : String) (before : ParsedSignalingMessage) (error : String) :
    parseSignalingMessage lib (userOfflineMessage uid).toUTF8 (some before) (some error) =
      .ok ⟨true, some { type := .userOffline, sender := "server", offlineClientId := uid }, some ""⟩ := by
  have hold : Json.Holdable dialect (.obj [("clientId", .str uid)]) := ⟨trivial, trivial⟩
  exact parse_serverMessage hold rfl before error

/-- **Encode, relay, decode is the identity.**  A message that one client builds for another reaches it as it
was built, with the sender's uid; and the server's own messages are read as its ICE servers, as the
registered uids and as the uid that went offline. -/
theorem encode_relay_decode (lib : Library) :
    (∀ (now : ℤ) (uid sender dest : String) (m : SignalMessage), now.natAbs < 2 ^ 63 → dest ≠ "" → Fits m →
      ∃ text, readPump uid (build now sender dest m) = .relay dest text ∧
        ∀ before error, parseSignalingMessage lib text.toUTF8 (some before) (some error) =
          .ok ⟨true, some (received uid m), some ""⟩) ∧
    (∀ uid before error, parseSignalingMessage lib (registeredMessage uid).toUTF8 (some before) (some error) =
      .ok ⟨true, some { type := .registered, sender := uid, iceServers := getIceServers.map IceServer.config },
        some ""⟩) ∧
    (∀ steps : List Registry.Step, (∀ i ∈ steps, Named i) → ∀ uids : List String,
      Ranges (run Registry.step {} steps).clients uids → ∀ before error,
      parseSignalingMessage lib (clientListMessage uids).toUTF8 (some before) (some error) =
        .ok ⟨true, some { type := .clientList, clients := uids.map ClientInfo.mk }, some ""⟩) ∧
    (∀ uid before error, parseSignalingMessage lib (userOfflineMessage uid).toUTF8 (some before) (some error) =
      .ok ⟨true, some { type := .userOffline, sender := "server", offlineClientId := uid }, some ""⟩) :=
  ⟨fun _ uid sender _ _ hnow hdest hm => relayed_message lib hnow uid sender hdest hm,
    registered_decodes lib,
    fun _ hsteps _ hranges => clientList_decodes lib fun uid huid =>
      (allNamed_run hsteps).2 uid ((hranges.mem_iff uid).mp huid),
    userOffline_decodes lib⟩

/-- A library that explains nothing and takes no flag for a number. -/
def plainLibrary : Library := ⟨fun _ => "", fun _ _ => 0, fun _ => none⟩

/-- A candidate of alice's, with characters that both sides escape. -/
def aliceCandidate : SignalMessage :=
  .iceCandidate { callId := "7-1", sdpMid := "0", sdpMlineIndex := -1, candidate := "a\n<\"\u2028" }

/-- Two clients are registered, in this order. -/
theorem ranges_alice_bob :
    Ranges (run Registry.step {} [.handleConnection "alice", .handleConnection "bob"]).clients ["alice", "bob"] := by
  refine ⟨by decide, fun uid => ?_⟩
  by_cases hb : uid = "bob"
  · subst hb
    decide
  · by_cases ha : uid = "alice"
    · subst ha
      decide
    · simp [run, Registry.step, Registry.Server.handleConnection, Registry.Server.stopJob, ha, hb]

theorem alice_candidate_survives :
    (∃ text, readPump "alice" (build 1700000000000 "alice" "bob" aliceCandidate) = .relay "bob" text ∧
      ∀ before error, parseSignalingMessage plainLibrary text.toUTF8 (some before) (some error) =
        .ok ⟨true, some (received "alice" aliceCandidate), some ""⟩) ∧
    parseSignalingMessage plainLibrary (clientListMessage ["alice", "bob"]).toUTF8 (some {}) (some "") =
      .ok ⟨true, some { type := .clientList, clients := [⟨"alice"⟩, ⟨"bob"⟩] }, some ""⟩ := by
  obtain ⟨hrelay, -, hclients, -⟩ := encode_relay_decode plainLibrary
  exact ⟨hrelay _ _ _ _ _ (by decide) (by decide) (by unfold Fits aliceCandidate; decide),
    hclients [.handleConnection "alice", .handleConnection "bob"] (by decide) _ ranges_alice_bob {} ""⟩

end PeerCall.Relay
