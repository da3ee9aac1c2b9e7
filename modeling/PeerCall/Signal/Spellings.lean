import PeerCall.Server.Relay

/-!
# Signal.Spellings — the spellings of a payload that the parser takes

Other clients name the call `call_id`, write the text of a description or of a candidate without an object around it,
or use another name for the media id or the index.

* `spellings_decode_alike`: **every spelling is decoded to what a client would have built**.
-/

namespace PeerCall.Codec

open PeerCall.Lib

/-- The member is there, as a string. -/
def Says (j : Json) (key s : String) : Prop := find j key = some (.str s)

/-- One of two names is used for a string. -/
def SaysEither (j : Json) (key key' s : String) : Prop :=
  (Says j key s ∧ find j key' = none) ∨ (find j key = none ∧ Says j key' s)

/-- An offer or an answer: the description is an object, or its text and its type stand in the payload. -/
def SpellsDescription (payload : Json) (sdp : SessionDescriptionPayload) : Prop :=
  SaysEither payload "callId" "call_id" sdp.callId ∧
    ((∃ ms, find payload "sdp" = some (.obj ms) ∧ Says (.obj ms) "type" sdp.type ∧ Says (.obj ms) "sdp" sdp.sdp) ∨
      (Says payload "sdp" sdp.sdp ∧ Says payload "type" sdp.type))

/-- One of three names is used for the index. -/
def SpellsIndex (candidate : Json) (index : ℤ) : Prop :=
  find candidate "sdpMLineIndex" = some (.int index) ∨
    (find candidate "sdpMLineIndex" = none ∧
      (find candidate "sdpMlineIndex" = some (.int index) ∨
        (find candidate "sdpMlineIndex" = none ∧ find candidate "sdp_mline_index" = some (.int index))))

/-- The members of a candidate, wherever they stand. -/
structure SpellsMembers (candidate : Json) (x : IceCandidatePayload) : Prop where
  sdpMid : SaysEither candidate "sdpMid" "sdp_mid" x.sdpMid
  index : SpellsIndex candidate x.sdpMlineIndex
  text : Says candidate "candidate" x.candidate

/-- An ICE candidate: its members stand in an object or in the payload. -/
def SpellsCandidate (payload : Json) (x : IceCandidatePayload) : Prop :=
  SaysEither payload "callId" "call_id" x.callId ∧
    ((∃ ms, find payload "candidate" = some (.obj ms) ∧ SpellsMembers (.obj ms) x) ∨ SpellsMembers payload x)

/-- The text of a message of the type, from the sender. -/
def Carries (text : ByteArray) (type sender : String) (payload : List (String × Json)) : Prop :=
  ∃ ms, jsonParse text = some (.obj ms) ∧ Says (.obj ms) "type" type ∧ Says (.obj ms) "from" sender ∧
    find (.obj ms) "payload" = some (.obj payload)

/-- The four payloads that have just the members of a description. -/
def descriptionForms (sdp : SessionDescriptionPayload) : List (List (String × Json)) :=
  ["callId", "call_id"].flatMap fun id =>
    [[(id, .str sdp.callId), ("sdp", .obj [("type", .str sdp.type), ("sdp", .str sdp.sdp)])],
      [(id, .str sdp.callId), ("type", .str sdp.type), ("sdp", .str sdp.sdp)]]

/-- The six ways to write the members of a candidate. -/
def candidateMembers (x : IceCandidatePayload) : List (List (String × Json)) :=
  ["sdpMid", "sdp_mid"].flatMap fun mid =>
    ["sdpMLineIndex", "sdpMlineIndex", "sdp_mline_index"].map fun index =>
      [(mid, .str x.sdpMid), (index, .int x.sdpMlineIndex), ("candidate", .str x.candidate)]

/-- The twenty-four payloads that have just the members of a candidate. -/
def candidateForms (x : IceCandidatePayload) : List (List (String × Json)) :=
  ["callId", "call_id"].flatMap fun id =>
    (candidateMembers x).flatMap fun ms => [[(id, .str x.callId), ("candidate", .obj ms)], (id, .str x.callId) :: ms]

theorem descriptionForms_spelled {sdp : SessionDescriptionPayload} {ms : List (String × Json)}
    (h : ms ∈ descriptionForms sdp) : SpellsDescription (.obj ms) sdp := by
  simp only [descriptionForms, List.flatMap_cons, List.flatMap_nil, List.append_nil, List.cons_append, List.nil_append,
    List.mem_cons, List.not_mem_nil, or_false] at h
  rcases h with rfl | rfl | rfl | rfl
  · exact ⟨.inl ⟨rfl, rfl⟩, .inl ⟨_, rfl, rfl, rfl⟩⟩
  · exact ⟨.inl ⟨rfl, rfl⟩, .inr ⟨rfl, rfl⟩⟩
  · exact ⟨.inr ⟨rfl, rfl⟩, .inl ⟨_, rfl, rfl, rfl⟩⟩
  · exact ⟨.inr ⟨rfl, rfl⟩, .inr ⟨rfl, rfl⟩⟩

theorem find_cons_of_ne {key key' : String} (h : key ≠ key') (v : Json) (ms : List (String × Json)) :
    find (.obj ((key, v) :: ms)) key' = find (.obj ms) key' := by
  simp [find, List.find?_append, h]

/-- The members are found behind a call id as well. -/
theorem SpellsMembers.cons {ms : List (String × Json)} {x : IceCandidatePayload} (h : SpellsMembers (.obj ms) x)
    {id : String} (hid : id ∈ ["callId", "call_id"]) (v : Json) : SpellsMembers (.obj ((id, v) :: ms)) x := by
  have hkeys : ∀ id ∈ ["callId", "call_id"], ∀ key ∈ ["sdpMid", "sdp_mid", "sdpMLineIndex", "sdpMlineIndex",
      "sdp_mline_index", "candidate"], id ≠ key := by
    decide
  have hfind : ∀ key ∈ ["sdpMid", "sdp_mid", "sdpMLineIndex", "sdpMlineIndex", "sdp_mline_index", "candidate"],
      find (.obj ((id, v) :: ms)) key = find (.obj ms) key :=
    fun key hkey => find_cons_of_ne (hkeys id hid key hkey) v ms
  obtain ⟨hmid, hindex, htext⟩ := h
  refine ⟨?_, ?_, ?_⟩
  · unfold SaysEither Says
    rw [hfind _ (by simp), hfind _ (by simp)]
    exact hmid
  · unfold SpellsIndex
    rw [hfind _ (by simp), hfind _ (by simp), hfind _ (by simp)]
    exact hindex
  · unfold Says
    rw [hfind _ (by simp)]
    exact htext

theorem candidateMembers_spelled {x : IceCandidatePayload} {ms : List (String × Json)} (h : ms ∈ candidateMembers x) :
    SpellsMembers (.obj ms) x ∧ ∀ key ∈ ["callId", "call_id"], find (.obj ms) key = none := by
  simp only [candidateMembers, List.flatMap_cons, List.flatMap_nil, List.append_nil, List.map_cons, List.map_nil,
    List.cons_append, List.nil_append, List.mem_cons, List.not_mem_nil, or_false] at h
  refine ⟨⟨?_, ?_, ?_⟩, ?_⟩
  · rcases h with rfl | rfl | rfl | rfl | rfl | rfl
    · exact .inl ⟨rfl, rfl⟩
    · exact .inl ⟨rfl, rfl⟩
    · exact .inl ⟨rfl, rfl⟩
    · exact .inr ⟨rfl, rfl⟩
    · exact .inr ⟨rfl, rfl⟩
    · exact .inr ⟨rfl, rfl⟩
  · rcases h with rfl | rfl | rfl | rfl | rfl | rfl
    · exact .inl rfl
    · exact .inr ⟨rfl, .inl rfl⟩
    · exact .inr ⟨rfl, .inr ⟨rfl, rfl⟩⟩
    · exact .inl rfl
    · exact .inr ⟨rfl, .inl rfl⟩
    · exact .inr ⟨rfl, .inr ⟨rfl, rfl⟩⟩
  · rcases h with rfl | rfl | rfl | rfl | rfl | rfl <;> rfl
  · rcases h with rfl | rfl | rfl | rfl | rfl | rfl <;> simp [find]

theorem candidateForms_spelled {x : IceCandidatePayload} {ms : List (String × Json)} (h : ms ∈ candidateForms x) :
    SpellsCandidate (.obj ms) x := by
  simp only [candidateForms, List.mem_flatMap] at h
  obtain ⟨id, hid, ms', hms', hform⟩ := h
  obtain ⟨hmembers, hnone⟩ := candidateMembers_spelled hms'
  have hcallId : ∀ rest, (∀ key ∈ ["callId", "call_id"], find (.obj rest) key = none) →
      SaysEither (.obj ((id, .str x.callId) :: rest)) "callId" "call_id" x.callId := by
    intro rest hrest
    have hhead : ∀ key ∈ ["callId", "call_id"], Says (.obj ((key, .str x.callId) :: rest)) key x.callId := by
      intro key hkey
      have hnone := hrest key hkey
      simp only [find, Option.map_eq_none_iff] at hnone
      simp [Says, find, List.find?_append, hnone]
    rcases List.mem_cons.mp hid with rfl | hid
    · exact .inl ⟨hhead _ (by simp), (find_cons_of_ne (by decide) _ _).trans (hrest _ (by simp))⟩
    · rw [List.mem_singleton.mp hid]
      exact .inr ⟨(find_cons_of_ne (by decide) _ _).trans (hrest _ (by simp)), hhead _ (by simp)⟩
  rcases List.mem_cons.mp hform with rfl | hform
  · have hfind : find (.obj [(id, .str x.callId), ("candidate", .obj ms')]) "candidate" = some (.obj ms') := rfl
    exact ⟨hcallId _ (by simp [find]), .inl ⟨ms', hfind, hmembers⟩⟩
  · rw [List.mem_singleton.mp hform]
    exact ⟨hcallId ms' hnone, .inr (hmembers.cons hid _)⟩

/-! ### The payload -/

section Payload

variable {ms : List (String × Json)}

theorem value_of_member {key s : String} (h : Says (.obj ms) key s) (default : String) :
    value asString (.obj ms) key default = .ok s := by
  have hfind : find (.obj ms) key = some (.str s) := h
  simp only [value, hfind]
  rfl

theorem value_of_none {key : String} (h : find (.obj ms) key = none) (default : String) :
    value asString (.obj ms) key default = .ok default := by
  simp only [value, h]

theorem parseCallId_spelled {callId : String} (h : SaysEither (.obj ms) "callId" "call_id" callId) :
    parseCallId (.obj ms) = .ok callId := by
  unfold parseCallId
  rcases h with ⟨hid, hnone⟩ | ⟨hnone, hid⟩
  · rw [value_of_none hnone]
    exact value_of_member hid ""
  · rw [value_of_member hid]
    exact value_of_none hnone callId

/-- **A description, however it is spelled.** -/
theorem parseSessionDescription_spelled {sdp : SessionDescriptionPayload} (h : SpellsDescription (.obj ms) sdp)
    (fallbackType : String) : parseSessionDescription (.obj ms) fallbackType = .ok sdp := by
  obtain ⟨hid, hsdp⟩ := h
  unfold parseSessionDescription
  rw [parseCallId_spelled hid]
  rcases hsdp with ⟨ms', hobj, htype, htext⟩ | ⟨htext, htype⟩
  · simp only [hobj, value_of_member htype, value_of_member htext]
    rfl
  · have hstr : find (.obj ms) "sdp" = some (.str sdp.sdp) := htext
    simp only [hstr, value_of_member htype]
    rfl

theorem parseSdpMid_spelled {mid : String} (h : SaysEither (.obj ms) "sdpMid" "sdp_mid" mid) (hmid : mid ≠ "") :
    parseSdpMid (.obj ms) = .ok mid := by
  unfold parseSdpMid
  rcases h with ⟨hname, -⟩ | ⟨hnone, hname⟩
  · rw [value_of_member hname]
    exact if_neg hmid
  · rw [value_of_none hnone]
    exact value_of_member hname ""

theorem mlineIndex_spelled {j : Json} {index : ℤ} (h : SpellsIndex j index) : mlineIndex j = some (.int index) := by
  unfold mlineIndex
  rcases h with h | ⟨hnone, h | ⟨hnone', h⟩⟩
  · rw [h]
    rfl
  · rw [hnone, h]
    rfl
  · rw [hnone, hnone', h]
    rfl

theorem candidatePayload_spelled {j : Json} {x : IceCandidatePayload} (h : SpellsMembers j x) :
    candidatePayload j = j := by
  have htext : find j "candidate" = some (.str x.candidate) := h.text
  unfold candidatePayload
  rw [htext]

/-- **A candidate, however it is spelled.** -/
theorem parseIceCandidate_spelled (lib : Library) {x : IceCandidatePayload} (h : SpellsCandidate (.obj ms) x)
    (hmid : x.sdpMid ≠ "") (hindex : -2 ^ 31 ≤ x.sdpMlineIndex ∧ x.sdpMlineIndex < 2 ^ 31) :
    parseIceCandidate lib (.obj ms) = .ok x := by
  obtain ⟨hid, hmembers⟩ := h
  -- the object that the members are read from
  obtain ⟨ms', hpayload, hspelled⟩ : ∃ ms', candidatePayload (.obj ms) = .obj ms' ∧ SpellsMembers (.obj ms') x := by
    rcases hmembers with ⟨ms', hobj, hspelled⟩ | hspelled
    · exact ⟨ms', by rw [candidatePayload, hobj], hspelled⟩
    · exact ⟨ms, candidatePayload_spelled hspelled, hspelled⟩
  have hread : parseMlineIndex lib (.obj ms') = .ok x.sdpMlineIndex := by
    unfold parseMlineIndex Codec.get
    rw [mlineIndex_spelled hspelled.index]
    dsimp only
    rw [Relay.asInt_fits lib hindex]
  unfold parseIceCandidate
  rw [parseCallId_spelled hid, hpayload, parseSdpMid_spelled hspelled.sdpMid hmid, hread, value_of_member hspelled.text]
  rfl

end Payload

/-! ### The message -/

section Message

variable {lib : Library} {text : ByteArray} {type sender : String} {payload : List (String × Json)}

theorem parse_carries (h : Carries text type sender payload) {result : ParsedSignalingMessage}
    (hfields : parseFields lib { type := parseMessageType type, sender := sender } (.obj payload) = .ok result)
    (before : ParsedSignalingMessage) (error : Option String) :
    parseSignalingMessage lib text (some before) error = .ok ⟨true, some result, error.map fun _ => ""⟩ := by
  obtain ⟨ms, hparse, htype, hsender, hpayload⟩ := h
  have henvelope : parseEnvelope lib (.obj ms) = .ok result := by
    unfold parseEnvelope payloadOf
    rw [value_of_member htype, value_of_member hsender, hpayload]
    exact hfields
  simp only [parseSignalingMessage, hparse, henvelope]
  rfl

/-- The members of what a client builds. -/
theorem buildMessageEnvelope_members (type sender dest : String) (payload : List (String × Json)) :
    ∃ ms, buildMessageEnvelope type sender dest (.obj payload) = .obj ms ∧ Says (.obj ms) "type" type ∧
      Says (.obj ms) "from" sender ∧ find (.obj ms) "payload" = some (.obj payload) ∧
        (Json.Holdable dialect (.obj payload) → Json.Holdable dialect (.obj ms)) := by
  by_cases hdest : dest = ""
  · refine ⟨[("from", .str sender), ("payload", .obj payload), ("type", .str type)], ?_, rfl, rfl, rfl, fun h => ?_⟩
    · simp [buildMessageEnvelope, jsonObject, insertMember, keyLess, hdest]
    · exact ⟨trivial, h, trivial, trivial⟩
  · refine ⟨_, Relay.buildMessageEnvelope_eq hdest type sender payload, rfl, rfl, rfl, fun h => ?_⟩
    exact ⟨trivial, h, trivial, trivial, trivial⟩

theorem carries_dump (type sender dest : String) {payload : List (String × Json)}
    (h : Json.Holdable dialect (.obj payload)) :
    Carries (dump (buildMessageEnvelope type sender dest (.obj payload))).toUTF8 type sender payload := by
  obtain ⟨ms, heq, htype, hsender, hpayload, hholdable⟩ := buildMessageEnvelope_members type sender dest payload
  refine ⟨ms, ?_, htype, hsender, hpayload⟩
  have hbom : skipBom (Json.print Json.shortEscape (.obj ms)) = Json.print Json.shortEscape (.obj ms) := by
    cases ms with
    | nil => rfl
    | cons m ms => rfl
  rw [heq, dump, jsonParse_toUTF8, String.toList_ofList, hbom]
  exact (Json.reads_print Json.escapes_shortEscape _ (hholdable h)).parse_eq

/-- The payload that a client builds for a description. -/
def builtDescription (sdp : SessionDescriptionPayload) : List (String × Json) :=
  [("callId", .str sdp.callId), ("sdp", .obj [("sdp", .str sdp.sdp), ("type", .str sdp.type)])]

theorem descriptionPayload_eq (sdp : SessionDescriptionPayload) :
    descriptionPayload sdp = .obj (builtDescription sdp) := by
  simp [descriptionPayload, jsonObject, insertMember, keyLess, builtDescription]

theorem builtDescription_spelled (sdp : SessionDescriptionPayload) :
    SpellsDescription (.obj (builtDescription sdp)) sdp :=
  ⟨.inl ⟨rfl, rfl⟩, .inl ⟨_, rfl, rfl, rfl⟩⟩

theorem builtDescription_holdable (sdp : SessionDescriptionPayload) :
    Json.Holdable dialect (.obj (builtDescription sdp)) :=
  ⟨trivial, ⟨trivial, trivial, trivial⟩, trivial⟩

/-- The payload that a client builds for a candidate. -/
def builtCandidate (x : IceCandidatePayload) : List (String × Json) :=
  [("callId", .str x.callId), ("candidate", .obj [("candidate", .str x.candidate),
    ("sdpMLineIndex", .int x.sdpMlineIndex), ("sdpMid", .str x.sdpMid)])]

theorem buildIceCandidateMessage_eq (sender dest : String) (x : IceCandidatePayload) :
    buildIceCandidateMessage sender dest x =
      dump (buildMessageEnvelope "ice-candidate" sender dest (.obj (builtCandidate x))) := by
  simp [buildIceCandidateMessage, jsonObject, insertMember, keyLess, builtCandidate]

theorem builtCandidate_spelled (x : IceCandidatePayload) : SpellsCandidate (.obj (builtCandidate x)) x :=
  ⟨.inl ⟨rfl, rfl⟩, .inl ⟨_, rfl, .inl ⟨rfl, rfl⟩, .inl rfl, rfl⟩⟩

theorem builtCandidate_holdable {x : IceCandidatePayload}
    (hindex : -2 ^ 31 ≤ x.sdpMlineIndex ∧ x.sdpMlineIndex < 2 ^ 31) :
    Json.Holdable dialect (.obj (builtCandidate x)) :=
  ⟨trivial, ⟨trivial, holdable_int (by omega), trivial, trivial⟩, trivial⟩

theorem parseFields_offer (lib : Library) (sender : String) {sdp : SessionDescriptionPayload}
    (h : SpellsDescription (.obj payload) sdp) :
    parseFields lib { type := parseMessageType "offer", sender := sender } (.obj payload) =
      .ok { type := .offer, sender := sender, sessionDescription := sdp } := by
  show (parseSessionDescription (.obj payload) "offer" >>= _) = _
  rw [parseSessionDescription_spelled h]
  rfl

theorem parseFields_answer (lib : Library) (sender : String) {sdp : SessionDescriptionPayload}
    (h : SpellsDescription (.obj payload) sdp) :
    parseFields lib { type := parseMessageType "answer", sender := sender } (.obj payload) =
      .ok { type := .answer, sender := sender, sessionDescription := sdp } := by
  show (parseSessionDescription (.obj payload) "answer" >>= _) = _
  rw [parseSessionDescription_spelled h]
  rfl

theorem parseFields_iceCandidate (lib : Library) (sender : String) {x : IceCandidatePayload}
    (h : SpellsCandidate (.obj payload) x) (hmid : x.sdpMid ≠ "")
    (hindex : -2 ^ 31 ≤ x.sdpMlineIndex ∧ x.sdpMlineIndex < 2 ^ 31) :
    parseFields lib { type := parseMessageType "ice-candidate", sender := sender } (.obj payload) =
      .ok { type := .iceCandidate, sender := sender, iceCandidate := x } := by
  show (parseIceCandidate lib (.obj payload) >>= _) = _
  rw [parseIceCandidate_spelled lib h hmid hindex]
  rfl

end Message

/-- **All spellings are decoded alike**: a message whose payload spells a description or a candidate in one of the
accepted ways is parsed to that description or candidate, and so is the message that a client builds for it. -/
theorem spellings_decode_alike (lib : Library) (text : ByteArray) (sender dest : String)
    (payload : List (String × Json)) (before : ParsedSignalingMessage) (error : Option String) :
    (∀ sdp, Carries text "offer" sender payload → SpellsDescription (.obj payload) sdp →
      parseSignalingMessage lib text (some before) error =
          .ok ⟨true, some { type := .offer, sender := sender, sessionDescription := sdp }, error.map fun _ => ""⟩ ∧
        parseSignalingMessage lib (buildOfferMessage sender dest sdp).toUTF8 (some before) error =
          parseSignalingMessage lib text (some before) error) ∧
    (∀ sdp, Carries text "answer" sender payload → SpellsDescription (.obj payload) sdp →
      parseSignalingMessage lib text (some before) error =
          .ok ⟨true, some { type := .answer, sender := sender, sessionDescription := sdp }, error.map fun _ => ""⟩ ∧
        parseSignalingMessage lib (buildAnswerMessage sender dest sdp).toUTF8 (some before) error =
          parseSignalingMessage lib text (some before) error) ∧
    ∀ x, Carries text "ice-candidate" sender payload → SpellsCandidate (.obj payload) x → x.sdpMid ≠ "" →
      -2 ^ 31 ≤ x.sdpMlineIndex ∧ x.sdpMlineIndex < 2 ^ 31 →
      parseSignalingMessage lib text (some before) error =
          .ok ⟨true, some { type := .iceCandidate, sender := sender, iceCandidate := x }, error.map fun _ => ""⟩ ∧
        parseSignalingMessage lib (buildIceCandidateMessage sender dest x).toUTF8 (some before) error =
          parseSignalingMessage lib text (some before) error := by
  refine ⟨fun sdp hcarries hspelled => ?_, fun sdp hcarries hspelled => ?_, fun x hcarries hspelled hmid hindex => ?_⟩
  · have hread := parse_carries hcarries (parseFields_offer lib sender hspelled) before error
    refine ⟨hread, ?_⟩
    rw [hread, buildOfferMessage, descriptionPayload_eq]
    exact parse_carries (carries_dump _ _ _ (builtDescription_holdable sdp))
      (parseFields_offer lib sender (builtDescription_spelled sdp)) before error
  · have hread := parse_carries hcarries (parseFields_answer lib sender hspelled) before error
    refine ⟨hread, ?_⟩
    rw [hread, buildAnswerMessage, descriptionPayload_eq]
    exact parse_carries (carries_dump _ _ _ (builtDescription_holdable sdp))
      (parseFields_answer lib sender (builtDescription_spelled sdp)) before error
  · have hread := parse_carries hcarries (parseFields_iceCandidate lib sender hspelled hmid hindex) before error
    refine ⟨hread, ?_⟩
    rw [hread, buildIceCandidateMessage_eq]
    exact parse_carries (carries_dump _ _ _ (builtCandidate_holdable hindex))
      (parseFields_iceCandidate lib sender (builtCandidate_spelled x) hmid hindex) before error

/-- A candidate and a description without an object around them, under the other names. -/
theorem flat_spellings_decode :
    let x : IceCandidatePayload := ⟨"7-1", "audio", 1, "candidate:1"⟩
    let candidate : List (String × Json) := [("call_id", .str "7-1"), ("sdp_mid", .str "audio"),
      ("sdp_mline_index", .int 1), ("candidate", .str "candidate:1")]
    let sdp : SessionDescriptionPayload := { callId := "7-1", type := "offer", sdp := "v=0" }
    let description : List (String × Json) := [("call_id", .str "7-1"), ("type", .str "offer"), ("sdp", .str "v=0")]
    (candidate ∈ candidateForms x ∧
      parseSignalingMessage Relay.plainLibrary
          (dump (buildMessageEnvelope "ice-candidate" "alice" "" (.obj candidate))).toUTF8 (some {}) none =
        .ok ⟨true, some { type := .iceCandidate, sender := "alice", iceCandidate := x }, none⟩) ∧
    description ∈ descriptionForms sdp ∧
      parseSignalingMessage Relay.plainLibrary
          (dump (buildMessageEnvelope "offer" "alice" "" (.obj description))).toUTF8 (some {}) none =
        .ok ⟨true, some { type := .offer, sender := "alice", sessionDescription := sdp }, none⟩ := by
  intro x candidate sdp description
  have hx : candidate ∈ candidateForms x := by simp [candidate, x, candidateForms, candidateMembers]
  have hsdp : description ∈ descriptionForms sdp := by simp [description, sdp, descriptionForms]
  have hcandidate : Json.Holdable dialect (.obj candidate) :=
    ⟨trivial, trivial, holdable_int (by decide), trivial, trivial⟩
  have hdescription : Json.Holdable dialect (.obj description) := ⟨trivial, trivial, trivial, trivial⟩
  refine ⟨⟨hx, ?_⟩, hsdp, ?_⟩
  · exact ((spellings_decode_alike Relay.plainLibrary _ "alice" "bob" candidate {} none).2.2 x
      (carries_dump _ _ _ hcandidate) (candidateForms_spelled hx) (by decide) (by decide)).1
  · exact ((spellings_decode_alike Relay.plainLibrary _ "alice" "bob" description {} none).1 sdp
      (carries_dump _ _ _ hdescription) (descriptionForms_spelled hsdp)).1

end PeerCall.Codec
