import PeerCall.Server.Lenient
import PeerCall.Lib.Runs

/-!
# Server.Authenticity — what one client can make another one read

`Relay` follows the messages of well-behaved clients.  Here a message is any sequence of bytes and a uid is any
Go string, which need not be UTF-8 either: `?uid=%FF` names one.

* `setField_view`, `unmarshal_view`, `readPump_view`: read as characters, this is the server of `Relay`.
* `relay_authentic`: **every message that is passed on names its sender**, exactly as long as the senders' uids
  are UTF-8; what does not parse, has no target or an unknown type changes nothing.
-/

namespace PeerCall.Authenticity

open PeerCall.Lib Utf8 Lenient

/-! ### Messages -/

/-- A Go string. -/
abbrev GoString := List UInt8

/-- The bytes of a text. -/
def lit (s : String) : GoString := encode s.toList

/-- A Go string as `json.Marshal` writes it. -/
def coerced (s : GoString) : String := String.ofList (Utf8.read s)

/-- `WebRTCMessage`; an absent payload is empty. -/
structure WebRTCMessage where
  type : GoString := []
  sender : GoString := []
  dest : GoString := []
  payload : List Rune := []
  deriving DecidableEq, Repr

/-- A string field takes a string, and keeps what it has for `null`; anything else is an error. -/
def stringField (v : Json) (set : GoString → WebRTCMessage) (m : WebRTCMessage) : Option WebRTCMessage :=
  match v with
  | .str s => some (set (lit s))
  | .null => some m
  | _ => none

/-- One member of the object that is read; names are matched without regard to case. -/
def setField (m : WebRTCMessage) (x : Member) : Option WebRTCMessage :=
  let name := Relay.foldName x.key
  if name = "type" then stringField x.value (fun s => { m with type := s }) m
  else if name = "from" then stringField x.value (fun s => { m with sender := s }) m
  else if name = "to" then stringField x.value (fun s => { m with dest := s }) m
  else if name = "payload" then some { m with payload := x.raw }
  else some m

/-- How deeply Go lets arrays and objects be nested. -/
def maxNestingDepth : ℕ := 10000

/-- Arrays and objects are nested no deeper than `room`. -/
def withinDepth : Scan → ℕ → List Char → Bool
  | _, _, [] => true
  | s, room, c :: cs =>
    if s = .outside ∧ (c = '[' ∨ c = '{') then room ≠ 0 && withinDepth (s.next c) (room - 1) cs
    else if s = .outside ∧ (c = ']' ∨ c = '}') then withinDepth (s.next c) (room + 1) cs
    else withinDepth (s.next c) room cs

/-- `json.Unmarshal` into a message. -/
def unmarshal (message : GoString) : Option WebRTCMessage :=
  if withinDepth .outside maxNestingDepth (Utf8.read message) then
    match parseMembers (runes message) with
    | some ms => ms.foldlM setField {}
    | none =>
      match Json.parse Relay.goDialect (Utf8.read message) with
      | some .null => some {}
      | _ => none
  else none

/-- A string field marked `omitempty`. -/
def omitEmpty (key : String) (s : GoString) : List (String × List Rune) :=
  if s = [] then [] else [(key, text (Json.quote Relay.goEscape (coerced s)))]

def memberText (key : String) (rs : List Rune) : List Rune :=
  text (Json.quote Relay.goEscape key) ++ .char ':' :: rs

/-- An object written field by field. -/
def structText : List (String × List Rune) → List Rune
  | [] => text ['{', '}']
  | (k, t) :: fs =>
    .char '{' :: (memberText k t ++ fs.flatMap (fun f => .char ',' :: memberText f.1 f.2) ++ [.char '}'])

def WebRTCMessage.written (m : WebRTCMessage) : List Rune :=
  structText (("type", text (Json.quote Relay.goEscape (coerced m.type))) ::
    (omitEmpty "from" m.sender ++ omitEmpty "to" m.dest ++
      if m.payload = [] then [] else [("payload", compactRunes .outside m.payload)]))

/-- `json.Marshal` of a message. -/
def WebRTCMessage.marshal (m : WebRTCMessage) : GoString := joined m.written

/-- What `readPump` does with one message. -/
inductive Reaction
  | ignore
  | sendClientList
  | relay (dest text : GoString)
  deriving DecidableEq, Repr

/-- The types that are relayed. -/
def relayedTypes : List GoString := Relay.relayedTypes.map lit

/-- The body of the loop of `readPump`, and `relayMessage` to a client that is there. -/
def readPump (uid message : GoString) : Reaction :=
  match unmarshal message with
  | none => .ignore
  | some msg =>
    let msg := { msg with sender := uid }
    if msg.type = lit "register" then .ignore
    else if msg.type = lit "list-clients" then .sendClientList
    else if msg.type ∈ relayedTypes then
      if msg.dest = [] then .ignore else .relay msg.dest msg.marshal
    else .ignore

/-- The message of `sendClientList`, for the keys of `clients` in the order in which they are ranged over. -/
def clientListMessage (uids : List GoString) : GoString := lit (Relay.clientListMessage (uids.map coerced))

/-! ### The server -/

/-- A message in the queue of the connection `receiver`, and the message on the connection `sender` that it was
put there for. -/
structure Entry where
  sender : ℕ
  message : GoString
  receiver : ℕ
  text : GoString
  deriving DecidableEq, Repr

/-- Connections are numbered as they come; `enqueued` has the messages in the order in which they were put into
the queues. -/
structure Hub where
  conns : ℕ := 0
  uid : ℕ → GoString := fun _ => []
  clients : GoString → Option ℕ := fun _ => none
  enqueued : List Entry := []

/-- `order` is the order in which the map is ranged over; `sent` says whether `trySend` has room. -/
inductive Step
  | handleConnection (uid : GoString)
  | removeClient (c : ℕ)
  | receive (c : ℕ) (message : GoString) (order : List GoString) (sent : Bool)
  deriving DecidableEq, Repr

namespace Hub

/-- The keys of `clients`. -/
def keys (x : Hub) : List GoString :=
  ((List.range x.conns).filter fun c => x.clients (x.uid c) = some c).map x.uid

/-- `trySend`. -/
def trySend (x : Hub) (e : Entry) (sent : Bool) : Hub :=
  if sent then { x with enqueued := x.enqueued ++ [e] } else x

def receive (x : Hub) (c : ℕ) (message : GoString) (order : List GoString) (sent : Bool) : Hub :=
  match readPump (x.uid c) message with
  | .ignore => x
  | .sendClientList =>
    x.trySend ⟨c, message, c, clientListMessage (if order.Perm x.keys then order else x.keys)⟩ sent
  | .relay dest text =>
    match x.clients dest with
    | none => x
    | some c' => x.trySend ⟨c, message, c', text⟩ sent

/-- `handleWebRTCConnection` refuses a connection without a uid. -/
def step (x : Hub) : Step → Hub
  | .handleConnection uid =>
    if uid = [] then x
    else
      { x with
        conns := x.conns + 1
        uid := Function.update x.uid x.conns uid
        clients := Function.update x.clients uid (some x.conns) }
  | .removeClient c =>
    if x.clients (x.uid c) = some c then { x with clients := Function.update x.clients (x.uid c) none } else x
  | .receive c message order sent => if c < x.conns then x.receive c message order sent else x

end Hub

/-! ### As characters -/

@[simp] theorem coerced_lit (s : String) : coerced (lit s) = s := by
  rw [coerced, lit, read_encode, String.ofList_toList]

theorem lit_injective : Function.Injective lit := Function.LeftInverse.injective coerced_lit

theorem lit_coerced_iff {s : GoString} : lit (coerced s) = s ↔ Valid s := by
  rw [lit, coerced, String.toList_ofList]
  rfl

theorem coerced_eq_empty {s : GoString} : coerced s = "" ↔ s = [] := by
  constructor
  · intro h
    have hread : Utf8.read s = [] := by
      rw [coerced, ← String.toList_inj, String.toList_ofList] at h
      exact h
    have hruns : runes s = [] := List.map_eq_nil_iff.mp hread
    rw [← joined_runes s, hruns]
    rfl
  · rintro rfl
    rfl

/-- The message that the characters of a message make. -/
def WebRTCMessage.view (m : WebRTCMessage) : Relay.WebRTCMessage :=
  ⟨coerced m.type, coerced m.sender, coerced m.dest, m.payload.map Rune.read⟩

theorem setField_view (m : WebRTCMessage) (x : Member) :
    (setField m x).map WebRTCMessage.view = Relay.setField m.view x.view := by
  have hstring : ∀ (set : GoString → WebRTCMessage) (set' : String → Relay.WebRTCMessage),
      (∀ s, (set (lit s)).view = set' s) →
      (stringField x.value set m).map WebRTCMessage.view = Relay.stringField x.value set' m.view := by
    intro set set' hset
    unfold stringField Relay.stringField
    cases x.value with
    | str s => exact congrArg some (hset s)
    | null => rfl
    | bool _ | int _ | float _ _ | arr _ | obj _ => rfl
  unfold setField Relay.setField
  dsimp only [Member.view]
  split_ifs
  · exact hstring _ _ fun s => by simp [WebRTCMessage.view]
  · exact hstring _ _ fun s => by simp [WebRTCMessage.view]
  · exact hstring _ _ fun s => by simp [WebRTCMessage.view]
  · rfl
  · rfl

theorem setFields_view (ms : List Member) (m : WebRTCMessage) :
    (ms.foldlM setField m).map WebRTCMessage.view = (ms.map Member.view).foldlM Relay.setField m.view := by
  induction ms generalizing m with
  | nil => rfl
  | cons x ms ih =>
    rw [List.foldlM_cons, List.map_cons, List.foldlM_cons, ← setField_view]
    cases setField m x with
    | none => rfl
    | some m' => exact ih m'

/-- What is read of the bytes is read of the characters. -/
theorem unmarshal_view {message : GoString} (h : withinDepth .outside maxNestingDepth (Utf8.read message) = true) :
    (unmarshal message).map WebRTCMessage.view = Relay.unmarshal (Utf8.read message) := by
  unfold unmarshal Relay.unmarshal
  rw [if_pos h]
  have hmembers := parseMembers_read (runes message)
  have hread : (runes message).map Rune.read = Utf8.read message := rfl
  rw [hread] at hmembers
  rw [← hmembers]
  cases parseMembers (runes message) with
  | some ms => exact setFields_view ms {}
  | none =>
    dsimp only [Option.map_none]
    cases Json.parse Relay.goDialect (Utf8.read message) with
    | none => rfl
    | some j => cases j <;> rfl

theorem structText_read (fs : List (String × List Rune)) :
    (structText fs).map Rune.read = Relay.structText (fs.map fun f => (f.1, f.2.map Rune.read)) := by
  have hmember : ∀ (k : String) (t : List Rune),
      (memberText k t).map Rune.read = Json.memberText Relay.goEscape k (t.map Rune.read) := by
    intro k t
    rw [memberText, List.map_append, read_text]
    rfl
  cases fs with
  | nil => rfl
  | cons f fs =>
    simp only [structText, Relay.structText, List.map_cons, List.map_append, List.map_flatMap, List.flatMap_map,
      hmember, Rune.read, List.map_nil]

theorem omitEmpty_read (key : String) (s : GoString) :
    (omitEmpty key s).map (fun f => (f.1, f.2.map Rune.read)) = Relay.omitEmpty key (coerced s) := by
  unfold omitEmpty Relay.omitEmpty
  by_cases h : s = []
  · rw [if_pos h, if_pos (coerced_eq_empty.mpr h)]
    rfl
  · rw [if_neg h, if_neg (coerced_eq_empty.not.mpr h), List.map_singleton, read_text]

/-- What is written is read as the message of the characters. -/
theorem written_read (m : WebRTCMessage) : m.written.map Rune.read = m.view.marshal := by
  have hpayload : (if m.payload = [] then [] else [("payload", compactRunes .outside m.payload)]).map
      (fun f => (f.1, f.2.map Rune.read)) =
      if m.view.payload = [] then [] else [("payload", Relay.compact false m.view.payload)] := by
    have hnil : m.view.payload = [] ↔ m.payload = [] := List.map_eq_nil_iff
    by_cases h : m.payload = []
    · rw [if_pos h, if_pos (hnil.mpr h)]
      rfl
    · rw [if_neg h, if_neg (hnil.not.mpr h), List.map_singleton, compactRunes_read, (relay_compact _).1]
      rfl
  rw [WebRTCMessage.written, structText_read, Relay.WebRTCMessage.marshal, List.map_cons, List.map_append,
    List.map_append, omitEmpty_read, omitEmpty_read, hpayload, read_text]
  rfl

/-! ### What has been read -/

/-- The value of the payload of a message: of the last member of that name. -/
def payloadOf (message : GoString) : Option Json :=
  match Json.parse Relay.goDialect (Utf8.read message) with
  | some (.obj ms) => ((ms.filter fun m => Relay.foldName m.1 = "payload").getLast?).map (·.2)
  | _ => none

/-- Runes that anything may follow that starts with a character. -/
def Clean (rs : List Rune) : Prop := ∀ c tail, Divided (.char c :: tail) → Divided (rs ++ .char c :: tail)

/-- A payload that is written as the value. -/
inductive Carries : List Rune → Option Json → Prop
  | nothing : Carries [] none
  | value {raw : List Rune} {j : Json} : raw ≠ [] →
    Json.Reads Relay.goDialect ((compactRunes .outside raw).map Rune.read) j → Clean (compactRunes .outside raw) →
    Carries raw (some j)

theorem valid_lit (s : String) : Valid (lit s) := valid_encode s.toList

theorem valid_nil : Valid [] := rfl

/-- What a member does to the fields. -/
theorem setField_fields {m m' : WebRTCMessage} {x : Member} (h : setField m x = some m') :
    (Valid m.type → Valid m'.type) ∧ (Valid m.dest → Valid m'.dest) ∧
      m'.payload = if Relay.foldName x.key = "payload" then x.raw else m.payload := by
  have hstring : ∀ {set : GoString → WebRTCMessage}, stringField x.value set m = some m' →
      m' = m ∨ ∃ s, m' = set (lit s) := by
    intro set h
    unfold stringField at h
    split at h
    · exact .inr ⟨_, (Option.some.inj h).symm⟩
    · exact .inl (Option.some.inj h).symm
    · simp at h
  unfold setField at h
  dsimp only at h
  split_ifs at h with htype hsender hdest hpayload
  · have hne : Relay.foldName x.key ≠ "payload" := by rw [htype]; decide
    rw [if_neg hne]
    rcases hstring h with rfl | ⟨s, rfl⟩
    · exact ⟨id, id, rfl⟩
    · exact ⟨fun _ => valid_lit s, id, rfl⟩
  · have hne : Relay.foldName x.key ≠ "payload" := by rw [hsender]; decide
    rw [if_neg hne]
    rcases hstring h with rfl | ⟨s, rfl⟩ <;> exact ⟨id, id, rfl⟩
  · have hne : Relay.foldName x.key ≠ "payload" := by rw [hdest]; decide
    rw [if_neg hne]
    rcases hstring h with rfl | ⟨s, rfl⟩
    · exact ⟨id, id, rfl⟩
    · exact ⟨id, fun _ => valid_lit s, rfl⟩
  · obtain rfl := Option.some.inj h
    exact ⟨id, id, (if_pos hpayload).symm⟩
  · obtain rfl := Option.some.inj h
    exact ⟨id, id, (if_neg hpayload).symm⟩

/-- The members that are payloads. -/
def payloads (ms : List Member) : List Member := ms.filter fun x => Relay.foldName x.key = "payload"

theorem setFields {ms : List Member} {m m' : WebRTCMessage} (h : ms.foldlM setField m = some m') :
    (Valid m.type → Valid m'.type) ∧ (Valid m.dest → Valid m'.dest) ∧
      m'.payload = ((payloads ms).getLast?.map Member.raw).getD m.payload := by
  induction ms generalizing m with
  | nil =>
    obtain rfl := Option.some.inj h
    exact ⟨id, id, rfl⟩
  | cons x ms ih =>
    obtain ⟨m₁, h₁, h⟩ := Option.bind_eq_some_iff.mp (by simpa [List.foldlM_cons] using h)
    obtain ⟨htype₁, hdest₁, hpayload₁⟩ := setField_fields h₁
    obtain ⟨htype, hdest, hpayload⟩ := ih h
    refine ⟨htype ∘ htype₁, hdest ∘ hdest₁, ?_⟩
    rw [hpayload, hpayload₁, payloads, payloads]
    by_cases hx : Relay.foldName x.key = "payload"
    · rw [if_pos hx, List.filter_cons_of_pos (by simpa using hx), List.getLast?_cons]
      cases (List.filter _ ms).getLast? <;> rfl
    · rw [if_neg hx, List.filter_cons_of_neg (by simpa using hx)]

/-- **What is read of a message**: its type and its target are texts, and its payload is that of the message. -/
theorem unmarshal_fields {message : GoString} {msg : WebRTCMessage} (h : unmarshal message = some msg) :
    Valid msg.type ∧ Valid msg.dest ∧ Carries msg.payload (payloadOf message) := by
  unfold unmarshal at h
  split_ifs at h
  split at h
  · rename_i ms hms
    obtain ⟨htype, hdest, hpayload⟩ := setFields h
    refine ⟨htype valid_nil, hdest valid_nil, ?_⟩
    have hparse : Json.parseMembers Relay.goDialect (Utf8.read message) = some (ms.map Member.view) := by
      have hread := parseMembers_read (runes message)
      rw [hms] at hread
      exact hread.symm
    have hlast : payloadOf message = (payloads ms).getLast?.map Member.value := by
      unfold payloadOf
      rw [(Json.parseMembers_text hparse).1]
      dsimp only
      rw [List.map_map, List.filter_map, List.getLast?_map, Option.map_map]
      rfl
    rw [hpayload, hlast]
    cases hx : (payloads ms).getLast? with
    | none => exact .nothing
    | some x =>
      have hmem : x ∈ ms := (List.mem_filter.mp (List.mem_of_getLast? hx)).1
      have hclosing : Divided [.char '}'] := divided_nil
      obtain ⟨hreads, hne, -⟩ := written_member hms hmem hclosing
      exact .value hne hreads fun c tail htail => (written_member hms hmem htail).2.2
  · split at h
    · rename_i hnull
      obtain rfl := Option.some.inj h
      refine ⟨valid_nil, valid_nil, ?_⟩
      unfold payloadOf
      rw [hnull]
      exact .nothing
    · simp at h

/-! ### What is written -/

section Written

-- a division of what is written is never computed: `divided_char` says all that is needed
seal Utf8.Divided

theorem clean_text (cs : List Char) : Clean (text cs) := fun _ _ htail => divided_map_char cs htail

theorem Clean.member {rs : List Rune} (h : Clean rs) (key : String) : Clean (memberText key rs) := by
  intro c tail htail
  have hcolon : Divided (.char ':' :: (rs ++ .char c :: tail)) := divided_char.mpr (h c tail htail)
  rw [memberText, List.append_assoc]
  exact divided_map_char _ hcolon

theorem divided_structText {fs : List (String × List Rune)} (h : ∀ f ∈ fs, Clean f.2) : Divided (structText fs) := by
  have hfields : ∀ fs : List (String × List Rune), (∀ f ∈ fs, Clean f.2) →
      ∃ c tail, fs.flatMap (fun f => .char ',' :: memberText f.1 f.2) ++ [.char '}'] = .char c :: tail ∧
        Divided (.char c :: tail) := by
    intro fs
    induction fs with
    | nil => exact fun _ => ⟨'}', [], rfl, divided_char.mpr divided_nil⟩
    | cons f fs ih =>
      intro h
      obtain ⟨c, tail, heq, hdivided⟩ := ih fun x hx => h x (List.mem_cons_of_mem _ hx)
      refine ⟨',', memberText f.1 f.2 ++ .char c :: tail, ?_, ?_⟩
      · rw [← heq, List.flatMap_cons, List.cons_append, List.cons_append, List.append_assoc]
      · exact divided_char.mpr ((h f List.mem_cons_self).member f.1 c tail hdivided)
  cases fs with
  | nil => exact divided_char.mpr (divided_char.mpr divided_nil)
  | cons f fs =>
    obtain ⟨c, tail, heq, hdivided⟩ := hfields fs fun x hx => h x (List.mem_cons_of_mem _ hx)
    rw [structText, List.append_assoc, heq]
    exact divided_char.mpr ((h f List.mem_cons_self).member f.1 c tail hdivided)

theorem divided_written {m : WebRTCMessage} {j : Option Json} (h : Carries m.payload j) : Divided m.written := by
  have homit : ∀ (key : String) (s : GoString), ∀ f ∈ omitEmpty key s, Clean f.2 := by
    intro key s f hf
    unfold omitEmpty at hf
    split_ifs at hf
    · simp at hf
    · rw [List.mem_singleton.mp hf]
      exact clean_text _
  refine divided_structText fun f hf => ?_
  rcases List.mem_cons.mp hf with rfl | hf
  · exact clean_text _
  · rcases List.mem_append.mp hf with hf | hf
    · exact (List.mem_append.mp hf).elim (homit _ _ f) (homit _ _ f)
    · generalize m.payload = payload at h hf
      cases h with
      | nothing => simp at hf
      | value hne _ hclean =>
        rw [if_neg hne] at hf
        rw [List.mem_singleton.mp hf]
        exact hclean

/-- The bytes of a message are read as the message of its characters. -/
theorem read_marshal {m : WebRTCMessage} {j : Option Json} (h : Carries m.payload j) :
    Utf8.read m.marshal = m.view.marshal := by
  rw [Utf8.read, WebRTCMessage.marshal, runes_joined (divided_written h), written_read]

end Written

/-- An object that has been written field by field is read. -/
theorem parse_structText (m : Json.Member) (ms : List Json.Member)
    (h : ∀ x ∈ m :: ms, Json.Reads Relay.goDialect x.raw x.value) :
    Json.parse Relay.goDialect (Relay.structText ((m :: ms).map fun x => (x.key, x.raw))) =
      some (.obj ((m :: ms).map fun x => (x.key, x.value))) := by
  have hmembers : ∀ (m : Json.Member) (ms : List Json.Member),
      (∀ x ∈ m :: ms, Json.Reads Relay.goDialect x.raw x.value) →
      Json.ReadsMembers Relay.goDialect (Json.memberText Relay.goEscape m.key m.raw ++
        ((ms.map fun x => (x.key, x.raw)).flatMap (fun f => ',' :: Json.memberText Relay.goEscape f.1 f.2) ++ ['}']))
        (m :: ms) := by
    intro m ms
    induction ms generalizing m with
    | nil => exact fun h => Json.readsMembers_one Relay.escapes_goEscape (h m List.mem_cons_self)
    | cons m' ms ih =>
      intro h
      have hrest := ih m' fun x hx => h x (List.mem_cons_of_mem _ hx)
      have hcons : Json.ReadsMembers Relay.goDialect (Json.memberText Relay.goEscape m.key m.raw ++ ',' :: _)
          (m :: m' :: ms) := Json.readsMembers_cons Relay.escapes_goEscape (h m List.mem_cons_self) hrest
      simpa using hcons
  have hreads := Json.reads_obj (hmembers m ms h)
  simpa [Relay.structText] using hreads.parse_eq

/-- The members of a message that is passed on. -/
def relayedMembers (type sender dest : String) (payload : Option Json) : List (String × Json) :=
  ("type", .str type) :: ("from", .str sender) :: ("to", .str dest) :: (payload.toList.map fun j => ("payload", j))

/-- A string field, as it is read. -/
def stringMember (key s : String) : Json.Member := ⟨key, Json.quote Relay.goEscape s, .str s⟩

theorem parse_marshal {m : WebRTCMessage} {j : Option Json} (h : Carries m.payload j) (hsender : m.sender ≠ [])
    (hdest : m.dest ≠ []) :
    Json.parse Relay.goDialect (Utf8.read m.marshal) =
      some (.obj (relayedMembers (coerced m.type) (coerced m.sender) (coerced m.dest) j)) := by
  have hstring : ∀ key s : String, Json.Reads Relay.goDialect (stringMember key s).raw (stringMember key s).value :=
    fun _ s => Json.reads_str Relay.escapes_goEscape s
  have homit : ∀ {s : GoString} (key : String), s ≠ [] →
      Relay.omitEmpty key (coerced s) = [(key, Json.quote Relay.goEscape (coerced s))] :=
    fun key hs => if_neg (coerced_eq_empty.not.mpr hs)
  rw [read_marshal h]
  unfold Relay.WebRTCMessage.marshal WebRTCMessage.view
  dsimp only
  rw [homit "from" hsender, homit "to" hdest]
  generalize m.payload = payload at h
  cases h with
  | nothing =>
    exact parse_structText (stringMember "type" (coerced m.type))
      [stringMember "from" (coerced m.sender), stringMember "to" (coerced m.dest)] (by simp [hstring])
  | @value raw j hne hreads hclean =>
    rw [if_neg (List.map_eq_nil_iff.not.mpr hne), (relay_compact _).1, ← compactRunes_read]
    exact parse_structText (stringMember "type" (coerced m.type))
      [stringMember "from" (coerced m.sender), stringMember "to" (coerced m.dest), ⟨"payload", _, j⟩]
      (by simp [hstring, hreads])

/-! ### What the server makes of a message -/

theorem mem_relayedTypes {s : String} : lit s ∈ relayedTypes ↔ s ∈ Relay.relayedTypes :=
  List.mem_map_of_injective lit_injective

/-- Whom a message is to be passed on to. -/
def target (message : GoString) : Option GoString :=
  match unmarshal message with
  | none => none
  | some msg => if msg.type ∈ relayedTypes ∧ msg.dest ≠ [] then some msg.dest else none

/-- A message that does not parse, lacks a target or has a type that the server does nothing about. -/
def Pointless (message : GoString) : Prop :=
  unmarshal message = none ∨ ∃ msg, unmarshal message = some msg ∧
    (msg.type ∈ relayedTypes ∧ msg.dest = [] ∨ msg.type ∉ relayedTypes ∧ msg.type ≠ lit "list-clients")

theorem readPump_relayed (uid : GoString) {message : GoString} {msg : WebRTCMessage}
    (h : unmarshal message = some msg) (htype : msg.type ∈ relayedTypes) :
    readPump uid message =
      if msg.dest = [] then .ignore else .relay msg.dest { msg with sender := uid }.marshal := by
  have hregister : msg.type ≠ lit "register" := by
    intro heq
    rw [heq, mem_relayedTypes] at htype
    exact absurd htype (by decide)
  have hlist : msg.type ≠ lit "list-clients" := by
    intro heq
    rw [heq, mem_relayedTypes] at htype
    exact absurd htype (by decide)
  rw [readPump, h]
  dsimp only
  rw [if_neg hregister, if_neg hlist, if_pos htype]

theorem readPump_pointless (uid : GoString) {message : GoString} (h : Pointless message) :
    readPump uid message = .ignore := by
  rcases h with h | ⟨msg, h, ⟨htype, hdest⟩ | ⟨htype, hlist⟩⟩
  · rw [readPump, h]
  · rw [readPump_relayed uid h htype, if_pos hdest]
  · rw [readPump, h]
    dsimp only
    rw [if_neg hlist, if_neg htype, ite_self]

/-- **What is passed on**: a message of the same type and payload, with the sender's uid as it is written. -/
theorem readPump_relay {uid message dest text : GoString} (huid : uid ≠ [])
    (h : readPump uid message = .relay dest text) :
    target message = some dest ∧ Valid dest ∧ ∃ type ∈ Relay.relayedTypes,
      Json.parse Relay.goDialect (Utf8.read text) =
        some (.obj (relayedMembers type (coerced uid) (coerced dest) (payloadOf message))) := by
  cases hmsg : unmarshal message with
  | none =>
    rw [readPump, hmsg] at h
    exact absurd h (by simp)
  | some msg =>
    by_cases htype : msg.type ∈ relayedTypes
    · rw [readPump_relayed uid hmsg htype] at h
      split_ifs at h with hdest
      obtain ⟨rfl, rfl⟩ := Reaction.relay.inj h
      obtain ⟨-, hvalid, hcarries⟩ := unmarshal_fields hmsg
      obtain ⟨type, hmem, heq⟩ := List.mem_map.mp htype
      have htarget : target message = some msg.dest := by
        rw [target, hmsg]
        exact if_pos ⟨htype, hdest⟩
      refine ⟨htarget, hvalid, type, hmem, ?_⟩
      have hparse := parse_marshal (m := { msg with sender := uid }) hcarries huid hdest
      dsimp only at hparse
      rw [hparse, ← heq, coerced_lit]
    · rw [readPump, hmsg] at h
      dsimp only at h
      rw [if_neg htype] at h
      split_ifs at h

theorem readPump_of_target (uid : GoString) {message dest : GoString} (h : target message = some dest) :
    ∃ text, readPump uid message = .relay dest text := by
  unfold target at h
  split at h
  · simp at h
  · rename_i msg hmsg
    split_ifs at h with hcond
    obtain rfl := Option.some.inj h
    exact ⟨_, (readPump_relayed uid hmsg hcond.1).trans (if_neg hcond.2)⟩

def Reaction.view : Reaction → Relay.Reaction
  | .ignore => .ignore
  | .sendClientList => .sendClientList
  | .relay dest text => .relay (coerced dest) (coerced text)

/-- **Read as characters, this is the server of `Relay`**. -/
theorem readPump_view (uid : GoString) {message : GoString}
    (h : withinDepth .outside maxNestingDepth (Utf8.read message) = true) :
    (readPump uid message).view = Relay.readPump (coerced uid) (coerced message) := by
  have hread : (coerced message).toList = Utf8.read message := String.toList_ofList
  have hunmarshal := unmarshal_view h
  rw [readPump, Relay.readPump, hread, ← hunmarshal]
  cases hmsg : unmarshal message with
  | none => rfl
  | some msg =>
    obtain ⟨htype, -, hcarries⟩ := unmarshal_fields hmsg
    have hiff : ∀ s : String, msg.type = lit s ↔ coerced msg.type = s := by
      intro s
      rw [← lit_injective.eq_iff, lit_coerced_iff.mpr htype]
    have hmem : msg.type ∈ relayedTypes ↔ coerced msg.type ∈ Relay.relayedTypes := by
      rw [← mem_relayedTypes, lit_coerced_iff.mpr htype]
    dsimp only [Option.map_some, WebRTCMessage.view]
    by_cases hregister : msg.type = lit "register"
    · rw [if_pos hregister, if_pos ((hiff _).mp hregister)]
      rfl
    · rw [if_neg hregister, if_neg ((hiff _).not.mp hregister)]
      by_cases hlist : msg.type = lit "list-clients"
      · rw [if_pos hlist, if_pos ((hiff _).mp hlist)]
        rfl
      · rw [if_neg hlist, if_neg ((hiff _).not.mp hlist)]
        by_cases hrelayed : msg.type ∈ relayedTypes
        · rw [if_pos hrelayed, if_pos (hmem.mp hrelayed)]
          by_cases hdest : msg.dest = []
          · rw [if_pos hdest, if_pos (coerced_eq_empty.mpr hdest)]
            rfl
          · rw [if_neg hdest, if_neg (coerced_eq_empty.not.mpr hdest)]
            have hmarshal := congrArg String.ofList (read_marshal (m := { msg with sender := uid }) hcarries)
            exact congrArg (Relay.Reaction.relay (coerced msg.dest)) hmarshal
        · rw [if_neg hrelayed, if_neg (hmem.not.mp hrelayed)]
          rfl

/-! ### Who is named -/

namespace Hub

/-- What is claimed of a message in a queue: it names its sender and its receiver and carries the payload that
the sender sent, or it is a client list that the sender asked for. -/
inductive Authentic (x : Hub) (e : Entry) : Prop
  | relayed (type sender dest : String) : type ∈ Relay.relayedTypes → lit sender = x.uid e.sender →
    lit dest = x.uid e.receiver →
    Json.parse Relay.goDialect (Utf8.read e.text) =
      some (.obj (relayedMembers type sender dest (payloadOf e.message))) → Authentic x e
  | clientList (uids : List GoString) : e.receiver = e.sender → e.text = clientListMessage uids →
    (∀ uid ∈ uids, ∃ c < x.conns, x.uid c = uid) → Authentic x e

/-- Where a message is passed on, the uid of its sender is UTF-8. -/
def Utf8Sender (x : Hub) : Step → Prop
  | .receive c message _ sent =>
    c < x.conns → sent = true → ∀ dest ∈ target message, x.clients dest ≠ none → Valid (x.uid c)
  | _ => True

instance (x : Hub) : ∀ i : Step, Decidable (x.Utf8Sender i)
  | .receive c message _ sent =>
    inferInstanceAs (Decidable (c < x.conns → sent = true → ∀ dest ∈ target message, x.clients dest ≠ none →
      Valid (x.uid c)))
  | .handleConnection _ | .removeClient _ => inferInstanceAs (Decidable True)

/-- The map has connections under their own uids, no uid is empty, and all are numbered. -/
structure Sound (x : Hub) : Prop where
  entry : ∀ uid c, x.clients uid = some c → c < x.conns ∧ x.uid c = uid
  named : ∀ c < x.conns, x.uid c ≠ []
  known : ∀ e ∈ x.enqueued, e.sender < x.conns ∧ e.receiver < x.conns

theorem sound_init : Sound {} := ⟨by simp, by simp, by simp⟩

theorem trySend_enqueued (x : Hub) (e : Entry) (sent : Bool) :
    (x.trySend e sent).enqueued = x.enqueued ++ if sent then [e] else [] := by
  cases sent <;> simp [trySend]

theorem sound_trySend {x : Hub} (h : Sound x) {e : Entry} (he : e.sender < x.conns ∧ e.receiver < x.conns)
    (sent : Bool) : Sound (x.trySend e sent) := by
  cases sent with
  | false => exact h
  | true =>
    refine ⟨h.entry, h.named, fun e' he' => ?_⟩
    rcases List.mem_append.mp he' with he' | he'
    · exact h.known e' he'
    · rw [List.mem_singleton.mp he']
      exact he

theorem sound_handleConnection {x : Hub} (h : Sound x) (uid : GoString) :
    Sound (x.step (.handleConnection uid)) := by
  simp only [step]
  split_ifs with huid
  · exact h
  · refine ⟨fun u c hc => ?_, fun c hc => ?_, fun e he => ?_⟩
    · dsimp only at hc ⊢
      by_cases hu : u = uid
      · subst hu
        rw [Function.update_self] at hc
        obtain rfl := Option.some.inj hc
        exact ⟨Nat.lt_succ_self _, Function.update_self ..⟩
      · rw [Function.update_of_ne hu] at hc
        obtain ⟨hlt, huid'⟩ := h.entry u c hc
        exact ⟨by omega, by rw [Function.update_of_ne (by omega), huid']⟩
    · dsimp only at hc ⊢
      by_cases heq : c = x.conns
      · rw [heq, Function.update_self]
        exact huid
      · rw [Function.update_of_ne heq]
        exact h.named c (by omega)
    · have hknown := h.known e he
      dsimp only
      omega

theorem sound_step {x : Hub} (h : Sound x) (i : Step) : Sound (x.step i) := by
  cases i with
  | handleConnection uid => exact sound_handleConnection h uid
  | removeClient c =>
    simp only [step]
    split_ifs with hc
    · refine ⟨fun u c' hc' => ?_, h.named, h.known⟩
      dsimp only at hc' ⊢
      by_cases hu : u = x.uid c
      · rw [hu, Function.update_self] at hc'
        exact absurd hc' (by simp)
      · rw [Function.update_of_ne hu] at hc'
        exact h.entry u c' hc'
    · exact h
  | receive c message order sent =>
    simp only [step]
    split_ifs with hc
    · unfold receive
      split
      · exact h
      · exact sound_trySend h ⟨hc, hc⟩ sent
      · split
        · exact h
        · rename_i c' hc'
          exact sound_trySend h ⟨hc, (h.entry _ _ hc').1⟩ sent
    · exact h

theorem sound_run (l : List Step) : Sound (run step {} l) :=
  run_invariant' (P := Sound) (fun _ i h => sound_step h i) sound_init l

/-- What is claimed of an entry depends on the uids of connections that there are already. -/
theorem Authentic.grow {x y : Hub} {e : Entry} (h : x.Authentic e) (hconns : x.conns ≤ y.conns)
    (huid : ∀ c < x.conns, y.uid c = x.uid c) (he : e.sender < x.conns ∧ e.receiver < x.conns) : y.Authentic e := by
  cases h with
  | relayed type sender dest htype hsender hdest hparse =>
    exact .relayed type sender dest htype (by rw [huid _ he.1, hsender]) (by rw [huid _ he.2, hdest]) hparse
  | clientList uids hself htext huids =>
    refine .clientList uids hself htext fun uid hmem => ?_
    obtain ⟨c, hc, heq⟩ := huids uid hmem
    exact ⟨c, by omega, by rw [huid c hc, heq]⟩

theorem parse_clientListMessage (uids : List GoString) : ∃ ms : List (String × Json),
    Json.parse Relay.goDialect (Utf8.read (clientListMessage uids)) =
      some (.obj (("type", .str "client-list") :: ms)) := by
  rw [clientListMessage, lit, read_encode, Relay.clientListMessage, Relay.serverMessage_eq, String.toList_ofList]
  exact ⟨_, (Json.reads_print Relay.escapes_goEscape _ (Json.holdable_of_holds (fun _ _ => rfl) _)).parse_eq⟩

/-- **A message that is passed on is authentic** exactly when the sender's uid is UTF-8. -/
theorem authentic_relay_iff {x : Hub} (h : Sound x) {c c' : ℕ} {message dest text : GoString} (hc : c < x.conns)
    (hrelay : readPump (x.uid c) message = .relay dest text) (hdest : x.clients dest = some c') :
    x.Authentic ⟨c, message, c', text⟩ ↔ Valid (x.uid c) := by
  obtain ⟨-, hvalid, type, htype, hparse⟩ := readPump_relay (h.named c hc) hrelay
  constructor
  · intro hauth
    cases hauth with
    | relayed type' sender dest' _ hsender _ hparse' =>
      rw [hparse] at hparse'
      have heq := Json.obj.inj (Option.some.inj hparse')
      simp only [relayedMembers, List.cons.injEq, Prod.mk.injEq, Json.str.injEq, true_and] at heq
      obtain ⟨-, rfl, -⟩ := heq
      exact lit_coerced_iff.mp hsender
    | clientList uids _ htext _ =>
      obtain ⟨ms, hlist⟩ := parse_clientListMessage uids
      dsimp only at htext
      rw [htext, hlist] at hparse
      have heq := Json.obj.inj (Option.some.inj hparse)
      simp only [relayedMembers, List.cons.injEq, Prod.mk.injEq, Json.str.injEq, true_and] at heq
      rw [← heq.1] at htype
      exact absurd htype (by decide)
  · intro hutf8
    refine .relayed type (coerced (x.uid c)) (coerced dest) htype (lit_coerced_iff.mpr hutf8) ?_ hparse
    rw [lit_coerced_iff.mpr hvalid]
    exact (h.entry dest c' hdest).2.symm

theorem authentic_clientList {x : Hub} {e : Entry} {uids : List GoString} (hself : e.receiver = e.sender)
    (htext : e.text = clientListMessage uids) (h : uids.Perm x.keys) : x.Authentic e := by
  refine .clientList uids hself htext fun uid hmem => ?_
  obtain ⟨c, hc, heq⟩ := List.mem_map.mp (h.mem_iff.mp hmem)
  exact ⟨c, List.mem_range.mp (List.mem_filter.mp hc).1, heq⟩

/-- Nothing but authentic messages. -/
def AllAuthentic (x : Hub) : Prop := ∀ e ∈ x.enqueued, x.Authentic e

theorem allAuthentic_trySend {x : Hub} (h : x.AllAuthentic) {e : Entry} {sent : Bool} :
    (x.trySend e sent).AllAuthentic ↔ (sent = true → x.Authentic e) := by
  have hsame : ∀ e', (x.trySend e sent).Authentic e' ↔ x.Authentic e' := by
    intro e'
    cases sent with
    | false => exact Iff.rfl
    | true =>
      constructor
      · rintro (⟨type, sender, dest, htype, hsender, hdest, hparse⟩ | ⟨uids, hself, htext, huids⟩)
        · exact .relayed type sender dest htype hsender hdest hparse
        · exact .clientList uids hself htext huids
      · rintro (⟨type, sender, dest, htype, hsender, hdest, hparse⟩ | ⟨uids, hself, htext, huids⟩)
        · exact .relayed type sender dest htype hsender hdest hparse
        · exact .clientList uids hself htext huids
  unfold AllAuthentic
  simp only [hsame, trySend_enqueued, List.forall_mem_append]
  have hold : ∀ e' ∈ x.enqueued, x.Authentic e' := h
  cases sent with
  | false => simpa using hold
  | true => simpa using fun _ => hold

theorem allAuthentic_receive {x : Hub} (hs : Sound x) (h : x.AllAuthentic) {c : ℕ} (hc : c < x.conns)
    (message : GoString) (order : List GoString) (sent : Bool) :
    (x.receive c message order sent).AllAuthentic ↔
      (sent = true → ∀ dest ∈ target message, x.clients dest ≠ none → Valid (x.uid c)) := by
  unfold receive
  cases hreaction : readPump (x.uid c) message with
  | ignore =>
    refine iff_of_true h fun _ dest hdest => ?_
    obtain ⟨text, hrelay⟩ := readPump_of_target (x.uid c) hdest
    rw [hreaction] at hrelay
    exact absurd hrelay (by simp)
  | sendClientList =>
    have horder : (if order.Perm x.keys then order else x.keys).Perm x.keys := by
      split_ifs with hperm
      · exact hperm
      · exact .refl _
    refine iff_of_true ?_ fun _ dest hdest => ?_
    · exact (allAuthentic_trySend h).mpr fun _ => authentic_clientList rfl (by dsimp only) horder
    · obtain ⟨text, hrelay⟩ := readPump_of_target (x.uid c) hdest
      rw [hreaction] at hrelay
      exact absurd hrelay (by simp)
  | relay dest text =>
    have htarget : target message = some dest := (readPump_relay (hs.named c hc) hreaction).1
    dsimp only
    cases hdest : x.clients dest with
    | none =>
      refine iff_of_true h fun _ dest' hdest' hne => ?_
      rw [htarget] at hdest'
      obtain rfl := Option.some.inj hdest'
      exact absurd hdest hne
    | some c' =>
      rw [allAuthentic_trySend h, authentic_relay_iff hs hc hreaction hdest]
      refine imp_congr_right fun _ => ⟨fun hvalid _ _ _ => hvalid, fun hall => ?_⟩
      exact hall dest htarget (by rw [hdest]; simp)

/-- One step keeps the messages authentic exactly when its sender's uid is UTF-8. -/
theorem allAuthentic_step {x : Hub} (hs : Sound x) (h : x.AllAuthentic) (i : Step) :
    (x.step i).AllAuthentic ↔ x.Utf8Sender i := by
  cases i with
  | handleConnection uid =>
    simp only [step]
    split_ifs with huid
    · exact iff_of_true h trivial
    · refine iff_of_true (fun e he => ?_) trivial
      refine (h e he).grow (Nat.le_succ _) (fun c hc => ?_) (hs.known e he)
      exact Function.update_of_ne (by omega) ..
  | removeClient c =>
    simp only [step]
    split_ifs with hc
    · exact iff_of_true (fun e he => (h e he).grow le_rfl (fun _ _ => rfl) (hs.known e he)) trivial
    · exact iff_of_true h trivial
  | receive c message order sent =>
    simp only [step, Utf8Sender]
    split_ifs with hc
    · rw [allAuthentic_receive hs h hc]
      exact ⟨fun hvalid _ => hvalid, fun hvalid => hvalid hc⟩
    · exact iff_of_true h fun hc' => absurd hc' hc

/-- **Relay authenticity.**  All along a run, every message in a queue is authentic, if and only if wherever a
message is passed on the uid of its sender is UTF-8; and a message that does not parse, lacks a target or has
another type changes nothing. -/
theorem relay_authentic (l : List Step) :
    ((∀ past, past <+: l → (run step {} past).AllAuthentic) ↔ Meets step Utf8Sender {} l) ∧
      ∀ c message order sent, Pointless message →
        (run step {} l).step (.receive c message order sent) = run step {} l := by
  constructor
  · exact always_iff_meets (I := Sound) (fun x i h _ _ => sound_step h i) (fun x i hs h => allAuthentic_step hs h i)
      sound_init (by simp [AllAuthentic])
  · intro c message order sent h
    simp only [step, receive]
    rw [readPump_pointless _ h, ite_self]

/-- Alice asks for the list and calls bob, under another name and with two payloads. -/
def otherName : List Step :=
  [.handleConnection (lit "bob"), .handleConnection (lit "alice"),
    .receive 1 (lit "\x7b\"type\":\"list-clients\"\x7d") [] true,
    .receive 1
      (lit "\x7b\"From\":\"bob\",\"type\":\"call-request\",\"to\":\"bob\",\"payload\":1,\"Payload\":[2 ]\x7d") [] true]

theorem alice_is_named :
    (run step {} otherName).AllAuthentic ∧ (run step {} otherName).enqueued.map Entry.text =
      [clientListMessage [lit "bob", lit "alice"],
        lit "\x7b\"type\":\"call-request\",\"from\":\"alice\",\"to\":\"bob\",\"payload\":[2]\x7d"] :=
  ⟨(relay_authentic otherName).1.mpr (by decide +kernel) otherName (List.prefix_refl _), by decide +kernel⟩

/-- A call to bob. -/
def callBob : GoString := lit "\x7b\"type\":\"call-request\",\"to\":\"bob\"\x7d"

/-- Bob is called on a connection whose uid is a byte that is no UTF-8, while there is another one whose uid is
what that byte is written as. -/
def masked : List Step :=
  [.handleConnection (lit "bob"), .handleConnection (lit "\ufffd"), .handleConnection [0xFF],
    .receive 2 callBob [] true]

/-- **A sender behind another one's uid**: bob is called by the one and told of the other. -/
theorem masked_sender :
    (run step {} masked).uid 1 = lit "\ufffd" ∧ (run step {} masked).uid 2 = [0xFF] ∧
      (run step {} masked).enqueued =
        [⟨2, callBob, 0, lit "\x7b\"type\":\"call-request\",\"from\":\"\ufffd\",\"to\":\"bob\"\x7d"⟩] ∧
      ¬ (run step {} masked).AllAuthentic := by
  have henqueued : (run step {} masked).enqueued =
      [⟨2, callBob, 0, lit "\x7b\"type\":\"call-request\",\"from\":\"\ufffd\",\"to\":\"bob\"\x7d"⟩] := by
    decide +kernel
  refine ⟨by decide +kernel, by decide +kernel, henqueued, fun hall => ?_⟩
  have hauth := hall _ (henqueued ▸ List.mem_singleton_self _)
  have hrelay : readPump ((run step {} masked).uid 2) callBob =
      .relay (lit "bob") (lit "\x7b\"type\":\"call-request\",\"from\":\"\ufffd\",\"to\":\"bob\"\x7d") := by
    decide +kernel
  have hvalid := (authentic_relay_iff (sound_run masked) (by decide +kernel) hrelay (by decide +kernel)).mp hauth
  exact absurd hvalid (by decide +kernel)

end Hub

end PeerCall.Authenticity
