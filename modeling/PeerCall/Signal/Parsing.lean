import PeerCall.Signal.Codec

/-!
# Signal.Parsing — when a received message is parsed without an exception

Only `json::parse` is inside the `try` block of `ParseSignalingMessage`; every field is read outside of it.
`WellTyped` lists, for each message type, which members have to be strings, flags or numbers; a message that
is JSON is handled exactly when it is well typed.
-/

namespace PeerCall.Codec

open PeerCall.Lib

/-! ### Field by field -/

/-- The computation returns. -/
def Returns {α : Type} (x : Except Raised α) : Prop := ∃ a, x = .ok a

section

variable {α β : Type}

@[simp] theorem returns_ok (a : α) : Returns (.ok a : Except Raised α) := ⟨a, rfl⟩

@[simp] theorem returns_pure (a : α) : Returns (pure a : Except Raised α) := ⟨a, rfl⟩

@[simp] theorem not_returns_error (e : Raised) : ¬ Returns (.error e : Except Raised α) := fun ⟨_, h⟩ => by cases h

theorem returns_bind {x : Except Raised α} {f : α → Except Raised β} :
    Returns (x >>= f) ↔ ∃ a, x = .ok a ∧ Returns (f a) := by
  cases x with
  | error e => exact ⟨fun ⟨_, h⟩ => (by cases h), fun ⟨_, h, _⟩ => (by cases h)⟩
  | ok a => exact ⟨fun h => ⟨a, rfl, h⟩, fun ⟨_, h, h'⟩ => by cases h; exact h'⟩

/-- What follows does not depend on the value. -/
theorem returns_bind_of {x : Except Raised α} {f : α → Except Raised β} {p : Prop} (h : ∀ a, Returns (f a) ↔ p) :
    Returns (x >>= f) ↔ Returns x ∧ p := by
  rw [returns_bind]
  constructor
  · rintro ⟨a, ha, hf⟩
    exact ⟨⟨a, ha⟩, (h a).mp hf⟩
  · rintro ⟨⟨a, ha⟩, hp⟩
    exact ⟨a, ha, (h a).mpr hp⟩

theorem returns_map {x : Except Raised α} {f : α → β} : Returns (x >>= fun a => pure (f a)) ↔ Returns x := by
  rw [returns_bind_of (p := True) fun a => by simp]
  simp

end

/-- The member is missing, or it has the type that is asked for. -/
def Field {α : Type} (as : Json → Option α) (j : Json) (key : String) : Prop :=
  ∀ v ∈ find j key, (as v).isSome

instance {α : Type} (as : Json → Option α) (j : Json) (key : String) : Decidable (Field as j key) := by
  unfold Field; infer_instance

theorem returns_get {α : Type} (as : Json → Option α) (j : Json) : Returns (get as j) ↔ (as j).isSome := by
  unfold get
  cases as j <;> simp

theorem value_obj {α : Type} (as : Json → Option α) (ms : List (String × Json)) (key : String) (default : α) :
    value as (.obj ms) key default =
      match find (.obj ms) key with
      | none => .ok default
      | some v => get as v := rfl

theorem returns_value {α : Type} (as : Json → Option α) (ms : List (String × Json)) (key : String) (default : α) :
    Returns (value as (.obj ms) key default) ↔ Field as (.obj ms) key := by
  rw [value_obj]
  unfold Field
  cases find (.obj ms) key with
  | none => simp
  | some v => simp [returns_get]

/-- A string member with its default. -/
def textOf (j : Json) (key : String) : String := ((find j key).bind asString).getD ""

theorem value_asString_eq {ms : List (String × Json)} {key s : String}
    (h : value asString (.obj ms) key "" = .ok s) : s = textOf (.obj ms) key := by
  rw [value_obj] at h
  unfold textOf
  cases hf : find (.obj ms) key with
  | none =>
    rw [hf] at h
    cases h
    rfl
  | some v =>
    rw [hf] at h
    cases v with
    | str t =>
      cases h
      rfl
    | _ => cases h

/-! ### The members each message type reads -/

def CallIdOk (payload : Json) : Prop := Field asString payload "call_id" ∧ Field asString payload "callId"

def DescriptionOk (payload : Json) : Prop :=
  CallIdOk payload ∧
    match find payload "sdp" with
    | some (.obj ms) => Field asString (.obj ms) "type" ∧ Field asString (.obj ms) "sdp"
    | some (.str _) => Field asString payload "type"
    | some _ => False
    | none => Field asString payload "type"

/-- The index, under the first of its names that is there, is a number, or a flag that the library takes for
one. -/
def IndexOk (lib : Library) (candidate : Json) : Prop :=
  match mlineIndex candidate with
  | none => True
  | some (.int _) => True
  | some (.float _ _) => True
  | some (.bool b) => (lib.flagInt b).isSome
  | some _ => False

def CandidateOk (lib : Library) (payload : Json) : Prop :=
  CallIdOk payload ∧ Field asString (candidatePayload payload) "sdpMid" ∧
    (textOf (candidatePayload payload) "sdpMid" = "" → Field asString (candidatePayload payload) "sdp_mid") ∧
    IndexOk lib (candidatePayload payload) ∧ Field asString (candidatePayload payload) "candidate"

/-- What is asked of the elements of an array member that are objects. -/
def ElementsOk (ok : Json → Prop) (payload : Json) (key : String) : Prop :=
  ∀ xs ms, find payload key = some (.arr xs) → .obj ms ∈ xs → ok (.obj ms)

def PayloadOk (lib : Library) (type : SignalingMessageType) (payload : Json) : Prop :=
  match type with
  | .registered =>
    ElementsOk (fun x => Field asString x "username" ∧ Field asString x "credential") payload "iceServers"
  | .clientList => ElementsOk (fun x => Field asString x "id") payload "clients"
  | .userOffline => Field asString payload "clientId"
  | .callRequest => CallIdOk payload
  | .callResponse => CallIdOk payload ∧ Field asBool payload "accepted" ∧ Field asString payload "reason"
  | .callCancel | .callEnd => CallIdOk payload ∧ Field asString payload "reason"
  | .offer | .answer => DescriptionOk payload
  | .iceCandidate => CandidateOk lib payload
  | .unknown => True

/-- The members that the parser reads have the types it expects.  What is not an object has no members. -/
def WellTyped (lib : Library) : Json → Prop
  | .obj ms =>
    Field asString (.obj ms) "type" ∧ Field asString (.obj ms) "from" ∧
      PayloadOk lib (parseMessageType (textOf (.obj ms) "type")) (payloadOf (.obj ms))
  | _ => True

section

variable {ms : List (String × Json)}

theorem returns_parseCallId : Returns (parseCallId (.obj ms)) ↔ CallIdOk (.obj ms) := by
  unfold parseCallId CallIdOk
  rw [returns_bind_of fun _ => returns_value _ _ _ _, returns_value]

theorem returns_parseSessionDescription (fallbackType : String) :
    Returns (parseSessionDescription (.obj ms) fallbackType) ↔ DescriptionOk (.obj ms) := by
  refine (returns_bind_of fun callId => ?_).trans (and_congr returns_parseCallId Iff.rfl)
  -- a description with its type and its text read from two members of `j`
  have htwo : ∀ ms', Returns (do
      let type ← value asString (.obj ms') "type" fallbackType
      let sdp ← value asString (.obj ms') "sdp" ""
      return ({ callId := callId, type := type, sdp := sdp } : SessionDescriptionPayload)) ↔
        Field asString (.obj ms') "type" ∧ Field asString (.obj ms') "sdp" := by
    intro ms'
    rw [returns_bind_of fun _ => returns_map.trans (returns_value _ _ _ _), returns_value]
  cases hf : find (.obj ms) "sdp" with
  | none =>
    refine (htwo ms).trans (and_iff_left ?_)
    simp [Field, hf]
  | some v =>
    cases v with
    | obj ms' => exact htwo ms'
    | str s => exact returns_map.trans (returns_value _ _ _ _)
    | _ =>
      refine (htwo ms).trans ⟨fun h => ?_, False.elim⟩
      have := h.2 _ hf
      simp [asString] at this

theorem candidatePayload_obj (ms : List (String × Json)) : ∃ ms', candidatePayload (.obj ms) = .obj ms' := by
  unfold candidatePayload
  split
  · exact ⟨_, rfl⟩
  · exact ⟨_, rfl⟩

theorem returns_parseSdpMid : Returns (parseSdpMid (.obj ms)) ↔ Field asString (.obj ms) "sdpMid" ∧
    (textOf (.obj ms) "sdpMid" = "" → Field asString (.obj ms) "sdp_mid") := by
  unfold parseSdpMid
  rw [returns_bind]
  constructor
  · rintro ⟨mid, hmid, h⟩
    refine ⟨(returns_value _ _ _ _).mp ⟨mid, hmid⟩, fun hempty => ?_⟩
    rw [if_pos ((value_asString_eq hmid).trans hempty)] at h
    exact (returns_value _ _ _ _).mp h
  · rintro ⟨hfield, h⟩
    obtain ⟨mid, hmid⟩ := (returns_value asString ms "sdpMid" "").mpr hfield
    refine ⟨mid, hmid, ?_⟩
    split_ifs with hempty
    · exact (returns_value _ _ _ _).mpr (h ((value_asString_eq hmid).symm.trans hempty))
    · exact returns_pure mid

theorem returns_parseMlineIndex (lib : Library) (candidate : Json) :
    Returns (parseMlineIndex lib candidate) ↔ IndexOk lib candidate := by
  unfold parseMlineIndex IndexOk
  cases mlineIndex candidate with
  | none => simp
  | some v =>
    simp only [returns_get]
    cases v <;> simp [asInt]

theorem returns_parseIceCandidate (lib : Library) :
    Returns (parseIceCandidate lib (.obj ms)) ↔ CandidateOk lib (.obj ms) := by
  obtain ⟨ms', hms'⟩ := candidatePayload_obj ms
  unfold parseIceCandidate CandidateOk
  rw [hms', returns_bind_of fun _ => returns_bind_of fun _ => returns_bind_of fun _ =>
    returns_map.trans (returns_value _ _ _ _), returns_parseCallId, returns_parseSdpMid, returns_parseMlineIndex]
  simp only [and_assoc]

/-- An array is read when each of its elements is. -/
theorem returns_collect {α : Type} {f : Json → Except Raised (Option α)} {xs : List Json} :
    Returns (collect f xs) ↔ ∀ x ∈ xs, Returns (f x) := by
  induction xs with
  | nil => simp [collect]
  | cons x xs ih =>
    rw [collect, returns_bind_of fun _ => returns_map.trans ih]
    simp

/-- An array member, of which only the objects matter. -/
theorem elements_ok {α : Type} {f : Json → Except Raised (Option α)} {ok : Json → Prop} {payload : Json} {key : String}
    (hobj : ∀ ms, Returns (f (.obj ms)) ↔ ok (.obj ms)) (hother : ∀ x, (∀ ms, x ≠ .obj ms) → Returns (f x)) :
    Returns (match find payload key with
      | some (.arr xs) => collect f xs
      | _ => return []) ↔ ElementsOk ok payload key := by
  unfold ElementsOk
  split
  · rename_i xs hf
    rw [returns_collect]
    constructor
    · intro h xs' ms hf' hmem
      obtain rfl : xs = xs' := by simpa using hf.symm.trans hf'
      exact (hobj ms).mp (h _ hmem)
    · intro h x hx
      by_cases hx' : ∃ ms, x = .obj ms
      · obtain ⟨ms, rfl⟩ := hx'
        exact (hobj ms).mpr (h xs ms hf hx)
      · exact hother x fun ms hms => hx' ⟨ms, hms⟩
  · rename_i hno
    exact ⟨fun _ xs _ hf _ => absurd hf (hno xs), fun _ => returns_pure _⟩

theorem returns_parseIceServers : Returns (parseIceServers (.obj ms)) ↔
    ElementsOk (fun x => Field asString x "username" ∧ Field asString x "credential") (.obj ms) "iceServers" := by
  refine elements_ok (fun ms' => ?_) fun x hx => ?_
  · rw [parseIceServer, returns_bind_of fun _ => returns_map.trans (returns_value _ _ _ _), returns_value]
  · cases x with
    | obj ms' => exact absurd rfl (hx ms')
    | _ => exact returns_pure none

theorem returns_parseClientList :
    Returns (parseClientList (.obj ms)) ↔ ElementsOk (fun x => Field asString x "id") (.obj ms) "clients" := by
  refine elements_ok (fun ms' => ?_) fun x hx => ?_
  · exact returns_map.trans (returns_value _ _ _ _)
  · refine returns_map.mpr ?_
    cases x with
    | obj ms' => exact absurd rfl (hx ms')
    | _ => exact returns_pure _

theorem returns_parseFields (lib : Library) (base : ParsedSignalingMessage) :
    Returns (parseFields lib base (.obj ms)) ↔ PayloadOk lib base.type (.obj ms) := by
  unfold parseFields PayloadOk
  cases base.type with
  | registered => exact returns_map.trans returns_parseIceServers
  | clientList => exact returns_map.trans returns_parseClientList
  | userOffline => exact returns_map.trans (returns_value _ _ _ _)
  | callRequest => exact returns_map.trans returns_parseCallId
  | callResponse =>
    refine (returns_bind_of fun _ => returns_bind_of fun _ => returns_map.trans (returns_value _ _ _ _)).trans ?_
    rw [returns_parseCallId, returns_value]
  | callCancel =>
    exact (returns_bind_of fun _ => returns_map.trans (returns_value _ _ _ _)).trans
      (and_congr returns_parseCallId Iff.rfl)
  | callEnd =>
    exact (returns_bind_of fun _ => returns_map.trans (returns_value _ _ _ _)).trans
      (and_congr returns_parseCallId Iff.rfl)
  | offer => exact returns_map.trans (returns_parseSessionDescription _)
  | answer => exact returns_map.trans (returns_parseSessionDescription _)
  | iceCandidate => exact returns_map.trans (returns_parseIceCandidate lib)
  | unknown => simp

theorem payloadOf_obj (envelope : Json) : ∃ ms, payloadOf envelope = .obj ms := by
  unfold payloadOf
  split
  · exact ⟨_, rfl⟩
  · exact ⟨_, rfl⟩

theorem returns_parseEnvelope (lib : Library) : Returns (parseEnvelope lib (.obj ms)) ↔ WellTyped lib (.obj ms) := by
  obtain ⟨ms', hms'⟩ := payloadOf_obj (.obj ms)
  have htail : ∀ type, Returns (do
      let sender ← value asString (.obj ms) "from" ""
      parseFields lib { type := parseMessageType type, sender := sender } (payloadOf (.obj ms))) ↔
        Field asString (.obj ms) "from" ∧ PayloadOk lib (parseMessageType type) (payloadOf (.obj ms)) := by
    intro type
    rw [hms']
    exact (returns_bind_of fun sender =>
      returns_parseFields lib { type := parseMessageType type, sender := sender }).trans
        (and_congr (returns_value _ _ _ _) Iff.rfl)
  refine returns_bind.trans ⟨?_, ?_⟩
  · rintro ⟨type, htype, h⟩
    rw [value_asString_eq htype] at h
    exact ⟨(returns_value _ _ _ _).mp ⟨type, htype⟩, (htail _).mp h⟩
  · rintro ⟨hfield, h⟩
    obtain ⟨type, htype⟩ := (returns_value asString ms "type" "").mpr hfield
    refine ⟨type, htype, ?_⟩
    rw [value_asString_eq htype]
    exact (htail _).mpr h

end

/-! ### Whole messages -/

/-- What is promised of a received message: `ParseSignalingMessage` returns, either a parsed message or an
error text that is not empty, and then `*parsed` is as before; and `DispatchSignalingMessage` returns, with
no callback made when it reports a failure. -/
structure Handled (lib : Library) (message : ByteArray) : Prop where
  parse : ∀ before error, ∃ r, parseSignalingMessage lib message (some before) (some error) = .ok r ∧
    (r.success = true ∧ r.parsed.isSome ∨
      r.success = false ∧ r.parsed = some before ∧ ∃ e, r.errorMessage = some e ∧ e ≠ "")
  dispatch : ∀ observer, ∃ r, dispatchSignalingMessage lib message observer = .ok r ∧
    (r.1.success = false → r.2 = [])

/-- The parser does what the envelope allows. -/
theorem returns_parseSignalingMessage (lib : Library) (message : ByteArray) (before : ParsedSignalingMessage)
    (error : Option String) : Returns (parseSignalingMessage lib message (some before) error) ↔
      ∀ j, jsonParse message = some j → WellTyped lib j := by
  unfold parseSignalingMessage
  cases hj : jsonParse message with
  | none => simp
  | some j =>
    cases j with
    | obj ms =>
      simp only [Option.some.injEq, forall_eq']
      exact returns_map.trans (returns_parseEnvelope lib)
    | _ => simp [WellTyped]

theorem parseSignalingMessage_result {lib : Library} {message : ByteArray} {before : ParsedSignalingMessage}
    {error : String} {r : ParseResult} (h : parseSignalingMessage lib message (some before) (some error) = .ok r) :
    r.success = true ∧ r.parsed.isSome ∨
      r.success = false ∧ r.parsed = some before ∧ ∃ e, r.errorMessage = some e ∧ e ≠ "" := by
  unfold parseSignalingMessage at h
  cases hj : jsonParse message with
  | none =>
    simp only [hj] at h
    cases h
    refine Or.inr ⟨rfl, rfl, _, rfl, ?_⟩
    simp [String.append_eq_empty_iff]
  | some j =>
    simp only [hj] at h
    cases j with
    | obj ms =>
      cases hp : parseEnvelope lib (.obj ms) with
      | error e => simp [hp, bind, Except.bind] at h
      | ok result =>
        simp only [hp] at h
        cases h
        exact Or.inl ⟨rfl, rfl⟩
    | _ =>
      cases h
      exact Or.inl ⟨rfl, rfl⟩

/-- **When a message is handled**: it is not JSON, or the members its type reads have the right types. -/
theorem handled_iff_wellTyped (lib : Library) (message : ByteArray) :
    Handled lib message ↔ ∀ j, jsonParse message = some j → WellTyped lib j := by
  constructor
  · intro h
    obtain ⟨r, hr, -⟩ := h.parse {} ""
    exact (returns_parseSignalingMessage lib message {} (some "")).mp ⟨r, hr⟩
  · intro h
    constructor
    case parse =>
      intro before error
      obtain ⟨r, hr⟩ := (returns_parseSignalingMessage lib message before (some error)).mpr h
      exact ⟨r, hr, parseSignalingMessage_result hr⟩
    case dispatch =>
      intro observer
      obtain ⟨r, hr⟩ := (returns_parseSignalingMessage lib message {} (some "")).mpr h
      refine ⟨dispatchParsed r observer,
        by simp [dispatchSignalingMessage, hr, bind, Except.bind, pure, Except.pure], ?_⟩
      unfold dispatchParsed
      dsimp only
      split_ifs <;> simp

/-- A message whose type is the number 1. -/
def numericType : String := "\x7b\"type\":1\x7d"

/-- **Not every message is handled**: the parser raises on a member of the wrong type. -/
theorem numeric_type_raises : ¬ ∀ (lib : Library) (message : ByteArray), Handled lib message := by
  intro h
  obtain ⟨r, hr, -⟩ := (h ⟨fun _ => "", fun _ _ => 0, fun _ => none⟩ numericType.toUTF8).parse {} ""
  have hparse : jsonParse numericType.toUTF8 = some (.obj [("type", .int 1)]) := by
    rw [jsonParse_toUTF8,
      show skipBom numericType.toList = Json.print Json.shortEscape (.obj [("type", .int 1)]) by decide]
    have hold : Json.Holdable dialect (.obj [("type", .int 1)]) := ⟨holdable_int (by decide), trivial⟩
    exact (Json.reads_print Json.escapes_shortEscape _ hold).parse_eq
  unfold parseSignalingMessage at hr
  rw [hparse] at hr
  cases hr

end PeerCall.Codec
