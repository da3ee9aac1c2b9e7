import PeerCall.Server.Lists

/-!
# Server.Delivery — the send channels of the signaling server

A connection has a `readPump`, a `writePump` and a channel of 256 messages between them and the rest of the
server.  Any goroutine may call `trySend` at any time; a call is two steps, since the flag `closed` is read
before the channel is tried.  The registry is the one of `Registry`, section by section.

* `relayed_in_order`: **what one connection relays to another arrives in order, each message once**, in every
  interleaving.
* `relayed_complete`: as long as the receiver stays registered and its channel takes what comes, nothing is missing.
* `closed_silent`: a closed connection takes in and writes nothing any more, up to the calls that had read its flag.
-/

namespace PeerCall.Delivery

open PeerCall.Lib PeerCall.Relay

/-- `make(chan []byte, 256)`. -/
def sendCapacity : ℕ := 256

/-- A message for a send channel.  `origin`: the connection whose `readPump` relays it, and the number of the
message that it has read. -/
structure Mail where
  text : String
  origin : Option (ℕ × ℕ) := none
  deriving DecidableEq, Repr

/-- Where `writePump` stands; a message that could not be written is lost. -/
inductive Writer
  | waiting
  | writing (e : Mail)
  | ended (lost : Option Mail)
  deriving DecidableEq, Repr

/-- The message that the pump has taken out of the channel and not written. -/
def Writer.held : Writer → List Mail
  | .waiting => []
  | .writing e => [e]
  | .ended lost => lost.toList

/-- `WebRTCClient`, apart from what the registry knows.  `shut`: `conn.Close()` has run.  Nothing reads `read`, the
messages that have come in, `accepted`, what has entered the channel, and `written`. -/
structure Conn where
  send : List Mail := []
  writer : Writer := .waiting
  closed : Bool := false
  shut : Bool := false
  read : List String := []
  accepted : List Mail := []
  written : List Mail := []
  deriving DecidableEq, Repr

/-- The `readPump` of a connection, or any other goroutine. -/
inductive Goroutine
  | readPump (c : ℕ)
  | other (k : ℕ)
  deriving DecidableEq, Repr

/-- Where a goroutine stands: in `ReadMessage` or elsewhere; before the locked section of `relayMessage` or of
`sendClientList`; in `trySend`, before the flag is read and after it was found to be 0; behind its loop. -/
inductive Place
  | idle
  | relayMessage (dest : String) (e : Mail)
  | sendClientList (c : ℕ)
  | trySend (target : ℕ) (e : Mail)
  | passed (target : ℕ) (e : Mail)
  | ended
  deriving DecidableEq, Repr

structure Hub where
  registry : Registry.Server := {}
  conn : ℕ → Conn := fun _ => {}
  place : Goroutine → Place := fun _ => .idle

/-- `order`: the order in which `sendClientList` ranges over the map; `ok`: the write succeeds. -/
inductive Step
  | registry (i : Registry.Step)
  | read (c : ℕ) (message : String)
  | readError (c : ℕ)
  | call (k target : ℕ) (text : String)
  | lookup (g : Goroutine) (order : List String)
  | check (g : Goroutine)
  | push (g : Goroutine)
  | receive (c : ℕ)
  | write (c : ℕ) (ok : Bool)
  | ping (c : ℕ) (ok : Bool)
  | close (c : ℕ)
  | shut (c : ℕ)
  deriving DecidableEq, Repr

namespace Hub

def uid (h : Hub) (c : ℕ) : String := (h.registry.conn c).uid

def goTo (h : Hub) (g : Goroutine) (p : Place) : Hub := { h with place := Function.update h.place g p }

def setConn (h : Hub) (c : ℕ) (x : Conn) : Hub := { h with conn := Function.update h.conn c x }

section Update

variable (h : Hub) (g : Goroutine) (p : Place) (c : ℕ) (x : Conn)

@[simp] theorem goTo_self : (h.goTo g p).place g = p := Function.update_self ..

theorem goTo_of_ne {g' : Goroutine} (hg : g' ≠ g) : (h.goTo g p).place g' = h.place g' := Function.update_of_ne hg ..

@[simp] theorem goTo_conn : (h.goTo g p).conn = h.conn := rfl

@[simp] theorem goTo_registry : (h.goTo g p).registry = h.registry := rfl

@[simp] theorem setConn_self : (h.setConn c x).conn c = x := Function.update_self ..

theorem setConn_of_ne {c' : ℕ} (hc : c' ≠ c) : (h.setConn c x).conn c' = h.conn c' := Function.update_of_ne hc ..

@[simp] theorem setConn_place : (h.setConn c x).place = h.place := rfl

@[simp] theorem setConn_registry : (h.setConn c x).registry = h.registry := rfl

end Update

/-- The body of the loop of `readPump`. -/
def afterRead (h : Hub) (c : ℕ) (message : String) : Place :=
  match readPump (h.uid c) message with
  | .ignore => .idle
  | .sendClientList => .sendClientList c
  | .relay dest text => .relayMessage dest ⟨text, some (c, (h.conn c).read.length)⟩

/-- The section of `relayMessage` or `sendClientList` under the lock. -/
def afterLookup (h : Hub) (order : List String) : Place → Place
  | .relayMessage dest e =>
    match h.registry.clients dest with
    | none => .idle
    | some target => .trySend target e
  | .sendClientList c =>
    .trySend c ⟨clientListMessage (if order.Perm h.registry.keys then order else h.registry.keys), none⟩
  | p => p

/-- `atomic.LoadUint32(&c.closed)`. -/
def afterCheck (h : Hub) : Place → Place
  | .trySend target e => if (h.conn target).closed then .idle else .passed target e
  | p => p

/-- The `select` of `trySend`. -/
def afterPush (h : Hub) (g : Goroutine) : Place → Hub
  | .passed target e =>
    let x := h.conn target
    if x.send.length < sendCapacity then
      (h.setConn target { x with send := x.send ++ [e], accepted := x.accepted ++ [e] }).goTo g .idle
    else h.goTo g .idle
  | _ => h

end Hub

/-- `writePump` takes a message out of the channel. -/
def Conn.receive (x : Conn) : Conn :=
  match x.writer, x.send with
  | .waiting, e :: rest => { x with send := rest, writer := .writing e }
  | _, _ => x

/-- `WriteMessage` of a message; it fails on a connection that is shut. -/
def Conn.write (x : Conn) (ok : Bool) : Conn :=
  match x.writer with
  | .writing e =>
    if ok && !x.shut then { x with writer := .waiting, written := x.written ++ [e] }
    else { x with writer := .ended (some e) }
  | _ => x

/-- `WriteMessage` of a ping. -/
def Conn.ping (x : Conn) (ok : Bool) : Conn :=
  match x.writer with
  | .waiting => if ok && !x.shut then x else { x with writer := .ended none }
  | _ => x

def Writer.isEnded : Writer → Bool
  | .ended _ => true
  | _ => false

namespace Hub

/-- `close()` is called for a connection that was replaced or removed, and when its `writePump` ends. -/
def Closes (h : Hub) (c : ℕ) : Prop := (h.registry.conn c).closed ∨ (h.conn c).writer.isEnded

instance (h : Hub) (c : ℕ) : Decidable (h.Closes c) := inferInstanceAs (Decidable (_ ∨ _))

/-- `removeClient` runs when the loop of the connection's `readPump` has ended. -/
def Allows (h : Hub) : Registry.Step → Prop
  | .removeClient c => h.place (.readPump c) = .ended
  | _ => True

instance (h : Hub) : ∀ i, Decidable (h.Allows i)
  | .removeClient _ => inferInstanceAs (Decidable (_ = _))
  | .handleConnection _ | .register _ | .fire _ | .confirmOffline _ => inferInstanceAs (Decidable True)

/-- The `readPump` of the connection waits for a message. -/
def Reads (h : Hub) (c : ℕ) : Prop :=
  c < h.registry.conns ∧ (h.registry.conn c).registered ∧ h.place (.readPump c) = .idle

instance (h : Hub) (c : ℕ) : Decidable (h.Reads c) := inferInstanceAs (Decidable (_ ∧ _ ∧ _))

def step (h : Hub) : Step → Hub
  | .registry i => if h.Allows i then { h with registry := Registry.step h.registry i } else h
  | .read c message =>
    if h.Reads c then
      (h.setConn c { h.conn c with read := (h.conn c).read ++ [message] }).goTo (.readPump c) (h.afterRead c message)
    else h
  | .readError c => if h.Reads c then h.goTo (.readPump c) .ended else h
  | .call k target text =>
    if h.place (.other k) = .idle ∧ target < h.registry.conns then h.goTo (.other k) (.trySend target ⟨text, none⟩)
    else h
  | .lookup g order => h.goTo g (h.afterLookup order (h.place g))
  | .check g => h.goTo g (h.afterCheck (h.place g))
  | .push g => h.afterPush g (h.place g)
  | .receive c => h.setConn c (h.conn c).receive
  | .write c ok => h.setConn c ((h.conn c).write ok)
  | .ping c ok => h.setConn c ((h.conn c).ping ok)
  | .close c => if h.Closes c then h.setConn c { h.conn c with closed := true } else h
  | .shut c => if (h.conn c).closed then h.setConn c { h.conn c with shut := true } else h

end Hub

/-! ### What is on its way -/

/-- The number of the message, if it is relayed for `a`. -/
def Mail.number (a : ℕ) (e : Mail) : Option ℕ := (e.origin.filter fun o => o.1 = a).map Prod.snd

theorem number_eq_some {a n : ℕ} {e : Mail} : e.number a = some n ↔ e.origin = some (a, n) := by
  unfold Mail.number
  rcases e.origin with - | ⟨c, m⟩
  · simp
  · by_cases h : c = a <;> simp [h, Option.filter]

/-- The message of `a` that is for `b`, which has that uid. -/
def Place.message (a b : ℕ) (uid : String) (p : Place) : List Mail :=
  (match p with
    | .relayMessage dest e => if dest = uid then [e] else []
    | .trySend target e | .passed target e => if target = b then [e] else []
    | _ => []).filter fun e => (e.number a).isSome

/-- The connection that the goroutine is about to send to. -/
def Place.target : Place → Option ℕ
  | .sendClientList c => some c
  | .trySend target _ | .passed target _ => some target
  | _ => none

namespace Hub

/-- The message in the hands of a goroutine, and the uid it is meant for. -/
def carries (h : Hub) : Place → Option (Mail × String)
  | .relayMessage dest e => some (e, dest)
  | .trySend target e | .passed target e => some (e, h.uid target)
  | _ => none

/-- The numbers of the messages of `a` that `b` has taken in. -/
def numbers (h : Hub) (a b : ℕ) : List ℕ := (h.conn b).accepted.filterMap (Mail.number a)

/-- The text is what becomes of the message number `n` of `a`, for the uid `dest`. -/
def Relays (h : Hub) (a n : ℕ) (dest text : String) : Prop :=
  ∃ m, (h.conn a).read[n]? = some m ∧ readPump (h.uid a) m = .relay dest text

theorem mem_numbers {h : Hub} {a b n : ℕ} :
    n ∈ h.numbers a b ↔ ∃ e ∈ (h.conn b).accepted, e.origin = some (a, n) := by
  unfold numbers
  rw [List.mem_filterMap]
  exact ⟨fun ⟨e, he, hn⟩ => ⟨e, he, number_eq_some.mp hn⟩, fun ⟨e, he, hn⟩ => ⟨e, he, number_eq_some.mpr hn⟩⟩

/-- The only message of `a` in anybody's hands is the last one it has read, and what has been taken in came before
it. -/
structure Held (h : Hub) (g : Goroutine) (e : Mail) (dest : String) (a n : ℕ) : Prop where
  owner : g = .readPump a
  conn : a < h.registry.conns
  last : n + 1 = (h.conn a).read.length
  before : ∀ b, ∀ n' ∈ h.numbers a b, n' < n
  relays : h.Relays a n dest e.text

/-- What a connection has taken in. -/
structure Taken (h : Hub) (b : ℕ) (e : Mail) (a n : ℕ) : Prop where
  conn : a < h.registry.conns
  receiver : b < h.registry.conns
  relays : h.Relays a n (h.uid b) e.text

structure Inv (h : Hub) : Prop where
  sound : Registry.Sound h.registry
  target : ∀ g t, (h.place g).target = some t → t < h.registry.conns
  held : ∀ g e dest a n, h.carries (h.place g) = some (e, dest) → e.origin = some (a, n) → h.Held g e dest a n
  taken : ∀ b, ∀ e ∈ (h.conn b).accepted, ∀ a n, e.origin = some (a, n) → h.Taken b e a n
  sorted : ∀ a b, (h.numbers a b).Pairwise (· < ·)

theorem inv_init : Inv {} where
  sound := ⟨fun uid c hc => absurd hc (by simp), fun c hc => absurd hc (Nat.not_lt_zero c)⟩
  target g t ht := absurd ht (by simp [Place.target])
  held g e dest a n he := absurd he (by simp [carries])
  taken b e he := absurd he (by simp)
  sorted a b := by simp [numbers]

/-! ### Steps that take nothing in -/

/-- Nothing is read or taken in; a goroutine gets nothing new into its hands but messages of the server's own. -/
structure Frame (h h' : Hub) : Prop where
  read : ∀ c, (h'.conn c).read = (h.conn c).read
  accepted : ∀ c, (h'.conn c).accepted = (h.conn c).accepted
  conns : h.registry.conns ≤ h'.registry.conns
  uid : ∀ c < h.registry.conns, h'.uid c = h.uid c
  sound : Registry.Sound h'.registry
  target : ∀ g t, (h'.place g).target = some t → t < h'.registry.conns
  carries : ∀ g e dest, h'.carries (h'.place g) = some (e, dest) →
    e.origin = none ∨ h.carries (h.place g) = some (e, dest)

section Frame

variable {h h' : Hub}

theorem Frame.numbers (hf : Frame h h') (a b : ℕ) : h'.numbers a b = h.numbers a b := by
  unfold Hub.numbers
  rw [hf.accepted]

theorem Frame.relays (hf : Frame h h') {a n : ℕ} (ha : a < h.registry.conns) {dest text : String}
    (hr : h.Relays a n dest text) : h'.Relays a n dest text := by
  obtain ⟨m, hm, hrelay⟩ := hr
  exact ⟨m, by rw [hf.read]; exact hm, by rw [hf.uid a ha]; exact hrelay⟩

theorem Frame.inv (hf : Frame h h') (hi : Inv h) : Inv h' where
  sound := hf.sound
  target := hf.target
  held g e dest a n he ho := by
    rcases hf.carries g e dest he with hnone | hsame
    · rw [ho] at hnone
      exact absurd hnone (by simp)
    · obtain ⟨howner, hconn, hlast, hbefore, hrelays⟩ := hi.held g e dest a n hsame ho
      refine ⟨howner, hconn.trans_le hf.conns, by rw [hf.read]; exact hlast, fun b n' hn' => ?_,
        hf.relays hconn hrelays⟩
      rw [hf.numbers] at hn'
      exact hbefore b n' hn'
  taken b e he a n ho := by
    rw [hf.accepted] at he
    obtain ⟨hconn, hreceiver, hrelays⟩ := hi.taken b e he a n ho
    refine ⟨hconn.trans_le hf.conns, hreceiver.trans_le hf.conns, ?_⟩
    rw [hf.uid b hreceiver]
    exact hf.relays hconn hrelays
  sorted a b := by
    rw [hf.numbers]
    exact hi.sorted a b

/-- A goroutine goes on with what it has in its hands, with a message of the server's own, or with nothing. -/
theorem frame_goTo (hi : Inv h) {g : Goroutine} {p : Place}
    (htarget : ∀ t, p.target = some t → t < h.registry.conns)
    (hcarries : ∀ e dest, h.carries p = some (e, dest) →
      e.origin = none ∨ h.carries (h.place g) = some (e, dest)) : Frame h (h.goTo g p) := by
  refine ⟨fun _ => rfl, fun _ => rfl, le_rfl, fun _ _ => rfl, hi.sound, fun g' t ht => ?_, fun g' e dest he => ?_⟩
  · by_cases hg : g' = g
    · rw [hg, goTo_self] at ht
      exact htarget t ht
    · rw [goTo_of_ne h g p hg] at ht
      exact hi.target g' t ht
  · by_cases hg : g' = g
    · rw [hg, goTo_self] at he
      rw [hg]
      exact hcarries e dest he
    · rw [goTo_of_ne h g p hg] at he
      exact .inr he

/-- A change of a connection that is not about what it has read and taken in. -/
theorem frame_setConn (hi : Inv h) {c : ℕ} {x : Conn} (hread : x.read = (h.conn c).read)
    (haccepted : x.accepted = (h.conn c).accepted) : Frame h (h.setConn c x) := by
  have hconn : ∀ c', ((h.setConn c x).conn c').read = (h.conn c').read ∧
      ((h.setConn c x).conn c').accepted = (h.conn c').accepted := by
    intro c'
    by_cases hc : c' = c
    · rw [hc, setConn_self]
      exact ⟨hread, haccepted⟩
    · rw [setConn_of_ne h c x hc]
      exact ⟨rfl, rfl⟩
  exact ⟨fun c' => (hconn c').1, fun c' => (hconn c').2, le_rfl, fun _ _ => rfl, hi.sound, hi.target,
    fun _ _ _ he => .inr he⟩

/-- A section of the registry. -/
theorem frame_registry (hi : Inv h) (i : Registry.Step) :
    Frame h { h with registry := Registry.step h.registry i } := by
  have hkept := fun c (hc : c < h.registry.conns) => Registry.conn_kept h.registry i hc
  have hconns : h.registry.conns ≤ (Registry.step h.registry i).conns := by
    rcases Nat.eq_zero_or_pos h.registry.conns with hz | hpos
    · omega
    · have := (hkept (h.registry.conns - 1) (by omega)).1
      omega
  refine ⟨fun _ => rfl, fun _ => rfl, hconns, fun c hc => (hkept c hc).2, Registry.sound_step _ _ hi.sound,
    fun g t ht => (hi.target g t ht).trans_le hconns, fun g e dest he => .inr ?_⟩
  have htarget := hi.target g
  revert he htarget
  dsimp only
  cases h.place g with
  | relayMessage d x => exact fun he _ => he
  | trySend t x | passed t x =>
    intro he htarget
    have huid : ((Registry.step h.registry i).conn t).uid = h.uid t := (hkept t (htarget t rfl)).2
    simpa only [carries, Hub.uid, huid] using he
  | idle | sendClientList c | ended => exact fun he _ => absurd he (by simp [carries])

/-- A goroutine leaves what it has in its hands. -/
theorem frame_drop (hi : Inv h) (g : Goroutine) {p : Place} (hp : p = .idle ∨ p = .ended) : Frame h (h.goTo g p) := by
  refine frame_goTo hi (fun t ht => ?_) fun e dest he => ?_
  · rcases hp with rfl | rfl <;> exact absurd ht (by simp [Place.target])
  · rcases hp with rfl | rfl <;> exact absurd he (by simp [carries])

/-- The message that is relayed is for the connection that the map has for its uid. -/
theorem frame_lookup (hi : Inv h) (g : Goroutine) (order : List String) :
    Frame h (h.goTo g (h.afterLookup order (h.place g))) := by
  cases hp : h.place g with
  | relayMessage d x =>
    cases hd : h.registry.clients d with
    | none =>
      simp only [afterLookup, hd]
      exact frame_drop hi g (.inl rfl)
    | some t =>
      simp only [afterLookup, hd]
      obtain ⟨ht, huid, -⟩ := hi.sound.entry d t hd
      refine frame_goTo hi (fun t' ht' => ?_) fun e dest he => .inr ?_
      · obtain rfl : t = t' := Option.some.inj ht'
        exact ht
      · rw [hp]
        have hsame : h.uid t = d := huid
        rw [carries, hsame] at he
        exact he
  | sendClientList c =>
    refine frame_goTo hi (fun t ht => hi.target g t (by rw [hp]; exact ht)) fun e dest he => .inl ?_
    obtain ⟨rfl, -⟩ := Prod.mk.inj (Option.some.inj he)
    rfl
  | idle | trySend _ _ | passed _ _ | ended =>
    exact frame_goTo hi (fun t ht => hi.target g t (by rw [hp]; exact ht)) fun e dest he => .inr (by rw [hp]; exact he)

theorem frame_check (hi : Inv h) (g : Goroutine) : Frame h (h.goTo g (h.afterCheck (h.place g))) := by
  cases hp : h.place g with
  | trySend t x =>
    simp only [afterCheck]
    split_ifs
    · exact frame_drop hi g (.inl rfl)
    · exact frame_goTo hi (fun t' ht' => hi.target g t' (by rw [hp]; exact ht'))
        fun e dest he => .inr (by rw [hp]; exact he)
  | idle | relayMessage _ _ | sendClientList _ | passed _ _ | ended =>
    exact frame_goTo hi (fun t' ht' => hi.target g t' (by rw [hp]; exact ht'))
      fun e dest he => .inr (by rw [hp]; exact he)

end Frame

/-- What the write pump does leaves alone what has been read and taken in. -/
theorem receive_kept (x : Conn) : x.receive.read = x.read ∧ x.receive.accepted = x.accepted := by
  unfold Conn.receive
  split <;> exact ⟨rfl, rfl⟩

theorem write_kept (x : Conn) (ok : Bool) : (x.write ok).read = x.read ∧ (x.write ok).accepted = x.accepted := by
  unfold Conn.write
  split
  · split_ifs <;> exact ⟨rfl, rfl⟩
  · exact ⟨rfl, rfl⟩

theorem ping_kept (x : Conn) (ok : Bool) : (x.ping ok).read = x.read ∧ (x.ping ok).accepted = x.accepted := by
  unfold Conn.ping
  split
  · split_ifs <;> exact ⟨rfl, rfl⟩
  · exact ⟨rfl, rfl⟩

/-! ### A message is read, a message is taken in -/

section Flow

variable {h : Hub}

theorem afterRead_target {c t : ℕ} {m : String} (ht : (h.afterRead c m).target = some t) : t = c := by
  unfold afterRead at ht
  split at ht
  · exact absurd ht (by simp [Place.target])
  · exact (Option.some.inj ht).symm
  · exact absurd ht (by simp [Place.target])

theorem afterRead_carries {c : ℕ} {m : String} {e : Mail} {dest : String}
    (he : h.carries (h.afterRead c m) = some (e, dest)) :
    e.origin = some (c, (h.conn c).read.length) ∧ readPump (h.uid c) m = .relay dest e.text := by
  unfold afterRead at he
  split at he
  · exact absurd he (by simp [carries])
  · exact absurd he (by simp [carries])
  · rename_i hr
    obtain ⟨rfl, rfl⟩ := Prod.mk.inj (Option.some.inj he)
    exact ⟨rfl, hr⟩

/-- **A message is read**: it is the last one, and all that has been taken in came before it. -/
theorem inv_read (hi : Inv h) {c : ℕ} (hc : h.Reads c) (m : String) :
    Inv ((h.setConn c { h.conn c with read := (h.conn c).read ++ [m] }).goTo (.readPump c) (h.afterRead c m)) := by
  set h' := (h.setConn c { h.conn c with read := (h.conn c).read ++ [m] }).goTo (.readPump c) (h.afterRead c m) with hh'
  have haccepted : ∀ b, (h'.conn b).accepted = (h.conn b).accepted := by
    intro b
    by_cases hb : b = c
    · rw [hb, hh', goTo_conn, setConn_self]
    · rw [hh', goTo_conn, setConn_of_ne h c _ hb]
  have hread : ∀ b, b ≠ c → (h'.conn b).read = (h.conn b).read := by
    intro b hb
    rw [hh', goTo_conn, setConn_of_ne h c _ hb]
  have hreadc : (h'.conn c).read = (h.conn c).read ++ [m] := by rw [hh', goTo_conn, setConn_self]
  have hnumbers : ∀ a b, h'.numbers a b = h.numbers a b := by
    intro a b
    unfold numbers
    rw [haccepted]
  have hrelays : ∀ {a n : ℕ} {dest text : String}, h.Relays a n dest text → h'.Relays a n dest text := by
    rintro a n dest text ⟨m', hm', hr⟩
    refine ⟨m', ?_, hr⟩
    by_cases ha : a = c
    · subst ha
      rw [hreadc, List.getElem?_append_left (List.getElem?_eq_some_iff.mp hm').1]
      exact hm'
    · rw [hread a ha]
      exact hm'
  refine ⟨hi.sound, fun g t ht => ?_, fun g e dest a n he ho => ?_, fun b e he a n ho => ?_, fun a b => ?_⟩
  · by_cases hg : g = .readPump c
    · rw [hg, hh', goTo_self] at ht
      rw [afterRead_target ht]
      exact hc.1
    · rw [hh', goTo_of_ne _ _ _ hg] at ht
      exact hi.target g t ht
  · by_cases hg : g = .readPump c
    · rw [hg, hh', goTo_self] at he
      obtain ⟨horigin, hrelay⟩ := afterRead_carries (h := h) he
      obtain ⟨rfl, rfl⟩ : c = a ∧ (h.conn c).read.length = n := by simpa using horigin.symm.trans ho
      refine ⟨hg, hc.1, by rw [hreadc]; simp, fun b n' hn' => ?_, ⟨m, by rw [hreadc]; simp, hrelay⟩⟩
      rw [hnumbers] at hn'
      obtain ⟨e', he', ho'⟩ := mem_numbers.mp hn'
      obtain ⟨m', hm', -⟩ := (hi.taken b e' he' _ n' ho').relays
      exact (List.getElem?_eq_some_iff.mp hm').1
    · rw [hh', goTo_of_ne _ _ _ hg] at he
      obtain ⟨howner, hconn, hlast, hbefore, hr⟩ := hi.held g e dest a n he ho
      have ha : a ≠ c := by
        rintro rfl
        exact hg howner
      refine ⟨howner, hconn, by rw [hread a ha]; exact hlast, fun b n' hn' => ?_, hrelays hr⟩
      rw [hnumbers] at hn'
      exact hbefore b n' hn'
  · rw [haccepted] at he
    obtain ⟨hconn, hreceiver, hr⟩ := hi.taken b e he a n ho
    exact ⟨hconn, hreceiver, hrelays hr⟩
  · rw [hnumbers]
    exact hi.sorted a b

/-- **A message is taken in**: it is newer than all of its sender's that have been taken in before. -/
theorem inv_push (hi : Inv h) {g : Goroutine} {t : ℕ} {e : Mail} (hg : h.place g = .passed t e) :
    Inv ((h.setConn t { h.conn t with send := (h.conn t).send ++ [e], accepted := (h.conn t).accepted ++ [e] }).goTo g
      .idle) := by
  set h' := (h.setConn t { h.conn t with
    send := (h.conn t).send ++ [e], accepted := (h.conn t).accepted ++ [e] }).goTo g .idle with hh'
  have hread : ∀ b, (h'.conn b).read = (h.conn b).read := by
    intro b
    by_cases hb : b = t
    · rw [hb, hh', goTo_conn, setConn_self]
    · rw [hh', goTo_conn, setConn_of_ne h t _ hb]
  have haccepted : ∀ b, b ≠ t → (h'.conn b).accepted = (h.conn b).accepted := by
    intro b hb
    rw [hh', goTo_conn, setConn_of_ne h t _ hb]
  have hacceptedt : (h'.conn t).accepted = (h.conn t).accepted ++ [e] := by rw [hh', goTo_conn, setConn_self]
  have hcarries : h.carries (h.place g) = some (e, h.uid t) := by rw [hg]; rfl
  have ht : t < h.registry.conns := hi.target g t (by rw [hg]; rfl)
  have hrelays : ∀ {a n : ℕ} {dest text : String}, h.Relays a n dest text → h'.Relays a n dest text := by
    rintro a n dest text ⟨m, hm, hr⟩
    exact ⟨m, by rw [hread]; exact hm, hr⟩
  have hnumbers : ∀ a b, ∀ n ∈ h'.numbers a b, n ∈ h.numbers a b ∨ b = t ∧ e.origin = some (a, n) := by
    intro a b n hn
    obtain ⟨e', he', ho⟩ := mem_numbers.mp hn
    by_cases hb : b = t
    · rw [hb, hacceptedt] at he'
      rcases List.mem_append.mp he' with he' | he'
      · exact .inl (mem_numbers.mpr ⟨e', hb ▸ he', ho⟩)
      · rw [List.mem_singleton.mp he'] at ho
        exact .inr ⟨hb, ho⟩
    · rw [haccepted b hb] at he'
      exact .inl (mem_numbers.mpr ⟨e', he', ho⟩)
  refine ⟨hi.sound, fun g' t' ht' => ?_, fun g' e' dest a n he ho => ?_, fun b e' he a n ho => ?_, fun a b => ?_⟩
  · by_cases hg' : g' = g
    · rw [hg', hh', goTo_self] at ht'
      exact absurd ht' (by simp [Place.target])
    · rw [hh', goTo_of_ne _ _ _ hg'] at ht'
      exact hi.target g' t' ht'
  · by_cases hg' : g' = g
    · rw [hg', hh', goTo_self] at he
      exact absurd he (by simp [carries])
    · rw [hh', goTo_of_ne _ _ _ hg'] at he
      obtain ⟨howner, hconn, hlast, hbefore, hr⟩ := hi.held g' e' dest a n he ho
      refine ⟨howner, hconn, by rw [hread]; exact hlast, fun b n' hn' => ?_, hrelays hr⟩
      rcases hnumbers a b n' hn' with hold | ⟨-, ho'⟩
      · exact hbefore b n' hold
      · -- a message of the same sender in other hands
        exact absurd (howner.trans (hi.held g e _ a n' hcarries ho').owner.symm) hg'
  · by_cases hb : b = t
    · subst hb
      rw [hacceptedt] at he
      rcases List.mem_append.mp he with he | he
      · obtain ⟨hconn, hreceiver, hr⟩ := hi.taken b e' he a n ho
        exact ⟨hconn, hreceiver, hrelays hr⟩
      · rw [List.mem_singleton.mp he] at ho ⊢
        have hheld := hi.held g e _ a n hcarries ho
        exact ⟨hheld.conn, ht, hrelays hheld.relays⟩
    · rw [haccepted b hb] at he
      obtain ⟨hconn, hreceiver, hr⟩ := hi.taken b e' he a n ho
      exact ⟨hconn, hreceiver, hrelays hr⟩
  · by_cases hb : b = t
    · subst hb
      unfold numbers
      rw [hacceptedt, List.filterMap_append]
      refine List.pairwise_append.mpr ⟨hi.sorted a b, ?_, fun n hn n' hn' => ?_⟩
      · cases hn : e.number a <;> simp [hn]
      · have ho : e.number a = some n' := by simpa using hn'
        exact (hi.held g e _ a n' hcarries (number_eq_some.mp ho)).before b n hn
    · unfold numbers
      rw [haccepted b hb]
      exact hi.sorted a b

/-- **Every step keeps the order.** -/
theorem inv_step (h : Hub) (i : Step) (hi : Inv h) : Inv (h.step i) := by
  cases i with
  | registry i =>
    simp only [step]
    split_ifs
    · exact (frame_registry hi i).inv hi
    · exact hi
  | read c m =>
    simp only [step]
    split_ifs with hc
    · exact inv_read hi hc m
    · exact hi
  | readError c =>
    simp only [step]
    split_ifs
    · exact (frame_drop hi _ (.inr rfl)).inv hi
    · exact hi
  | call k t text =>
    simp only [step]
    split_ifs with hk
    · refine (frame_goTo hi (fun t' ht' => ?_) fun e dest he => .inl ?_).inv hi
      · obtain rfl : t = t' := Option.some.inj ht'
        exact hk.2
      · obtain ⟨rfl, -⟩ := Prod.mk.inj (Option.some.inj he)
        rfl
    · exact hi
  | lookup g order => exact (frame_lookup hi g order).inv hi
  | check g => exact (frame_check hi g).inv hi
  | push g =>
    simp only [step]
    cases hp : h.place g with
    | passed t e =>
      simp only [afterPush]
      split_ifs
      · exact inv_push hi hp
      · exact (frame_drop hi g (.inl rfl)).inv hi
    | idle | relayMessage _ _ | sendClientList _ | trySend _ _ | ended => exact hi
  | receive c => exact (frame_setConn hi (receive_kept _).1 (receive_kept _).2).inv hi
  | write c ok => exact (frame_setConn hi (write_kept _ ok).1 (write_kept _ ok).2).inv hi
  | ping c ok => exact (frame_setConn hi (ping_kept _ ok).1 (ping_kept _ ok).2).inv hi
  | close c =>
    simp only [step]
    split_ifs
    · exact (frame_setConn hi (x := { h.conn c with closed := true }) rfl rfl).inv hi
    · exact hi
  | shut c =>
    simp only [step]
    split_ifs
    · exact (frame_setConn hi (x := { h.conn c with shut := true }) rfl rfl).inv hi
    · exact hi

theorem inv_run (l : List Step) : Inv (run step {} l) := run_invariant' (P := Inv) inv_step inv_init l

end Flow

/-! ### One connection -/

/-- What a step can do to a connection. -/
inductive Change (h : Hub) (c : ℕ) : Step → Conn → Prop
  | same (i : Step) : Change h c i (h.conn c)
  | read (m : String) : Change h c (.read c m) { h.conn c with read := (h.conn c).read ++ [m] }
  | push (g : Goroutine) (e : Mail) : h.place g = .passed c e → (h.conn c).send.length < sendCapacity →
    Change h c (.push g)
      { h.conn c with send := (h.conn c).send ++ [e], accepted := (h.conn c).accepted ++ [e] }
  | receive : Change h c (.receive c) (h.conn c).receive
  | write (ok : Bool) : Change h c (.write c ok) ((h.conn c).write ok)
  | ping (ok : Bool) : Change h c (.ping c ok) ((h.conn c).ping ok)
  | close : Change h c (.close c) { h.conn c with closed := true }
  | shut : (h.conn c).closed → Change h c (.shut c) { h.conn c with shut := true }

theorem change_setConn {h : Hub} {c c' : ℕ} {i : Step} {x : Conn} (hx : c' = c → Change h c i x) :
    Change h c i ((h.setConn c' x).conn c) := by
  by_cases hc : c' = c
  · subst hc
    rw [setConn_self]
    exact hx rfl
  · rw [setConn_of_ne h c' x (Ne.symm hc)]
    exact .same i

theorem change_step (h : Hub) (i : Step) (c : ℕ) : Change h c i ((h.step i).conn c) := by
  cases i with
  | registry i =>
    simp only [step]
    split_ifs <;> exact .same _
  | read c' m =>
    simp only [step]
    split_ifs
    · rw [goTo_conn]
      refine change_setConn fun hc => ?_
      subst hc
      exact .read m
    · exact .same _
  | readError c' =>
    simp only [step]
    split_ifs <;> exact .same _
  | call k t text =>
    simp only [step]
    split_ifs <;> exact .same _
  | lookup g order => exact .same _
  | check g => exact .same _
  | push g =>
    simp only [step]
    cases hp : h.place g with
    | passed t e =>
      simp only [afterPush]
      split_ifs with hroom
      · rw [goTo_conn]
        refine change_setConn fun hc => ?_
        subst hc
        exact .push g e hp hroom
      · exact .same _
    | idle | relayMessage _ _ | sendClientList _ | trySend _ _ | ended => exact .same _
  | receive c' => exact change_setConn fun hc => by subst hc; exact .receive
  | write c' ok => exact change_setConn fun hc => by subst hc; exact .write ok
  | ping c' ok => exact change_setConn fun hc => by subst hc; exact .ping ok
  | close c' =>
    simp only [step]
    split_ifs
    · exact change_setConn fun hc => by subst hc; exact .close
    · exact .same _
  | shut c' =>
    simp only [step]
    split_ifs with hclosed
    · exact change_setConn fun hc => by subst hc; exact .shut hclosed
    · exact .same _

end Hub

/-- A step lets at most one message into the channel, out of the hands of a goroutine. -/
theorem Hub.accepted_step (h : Hub) (i : Step) (c : ℕ) :
    ∃ new, ((h.step i).conn c).accepted = (h.conn c).accepted ++ new ∧
    ∀ e ∈ new, ∃ g, i = .push g ∧ h.place g = .passed c e := by
  have hchange := h.change_step i c
  have hsame : ∀ {l : List Mail}, l = (h.conn c).accepted → ∃ new, l = (h.conn c).accepted ++ new ∧
      ∀ e ∈ new, ∃ g, i = .push g ∧ h.place g = .passed c e := fun hl => ⟨[], by simp [hl], by simp⟩
  generalize (h.step i).conn c = x at hchange ⊢
  cases hchange with
  | same => exact hsame rfl
  | read m => exact hsame rfl
  | push g e hp _ => exact ⟨[e], rfl, fun e' he' => ⟨g, rfl, by rw [List.mem_singleton.mp he']; exact hp⟩⟩
  | receive => exact hsame (receive_kept _).2
  | write ok => exact hsame (write_kept _ ok).2
  | ping ok => exact hsame (ping_kept _ ok).2
  | close => exact hsame rfl
  | shut _ => exact hsame rfl

/-- What has been written stays written. -/
theorem Hub.written_step (h : Hub) (i : Step) (c : ℕ) : (h.conn c).written <+: ((h.step i).conn c).written := by
  have hchange := h.change_step i c
  generalize (h.step i).conn c = x at hchange ⊢
  cases hchange with
  | same | read _ | push _ _ _ _ | close | shut _ => exact List.prefix_rfl
  | receive =>
    unfold Conn.receive
    split <;> exact List.prefix_rfl
  | write ok =>
    unfold Conn.write
    split
    · split_ifs
      · exact List.prefix_append _ _
      · exact List.prefix_rfl
    · exact List.prefix_rfl
  | ping ok =>
    unfold Conn.ping
    split
    · split_ifs <;> exact List.prefix_rfl
    · exact List.prefix_rfl

/-- Only a step that reads from the connection changes what has been read. -/
theorem Hub.read_step (h : Hub) {i : Step} {c : ℕ} (hi : ∀ m, i ≠ .read c m) :
    ((h.step i).conn c).read = (h.conn c).read := by
  have hchange := h.change_step i c
  generalize (h.step i).conn c = x at hchange ⊢
  cases hchange with
  | same | push _ _ _ _ | close | shut _ => rfl
  | read m => exact absurd rfl (hi m)
  | receive => exact (receive_kept _).1
  | write ok => exact (write_kept _ ok).1
  | ping ok => exact (ping_kept _ ok).1

/-- What has entered the channel has been written, is in the hands of the pump or is still there. -/
structure Conn.Queued (x : Conn) : Prop where
  accepted : x.accepted = x.written ++ x.writer.held ++ x.send
  room : x.send.length ≤ sendCapacity

section Queued

variable {x : Conn}

theorem Conn.Queued.receive (hx : x.Queued) : x.receive.Queued := by
  unfold Conn.receive
  split
  · rename_i e rest hw hs
    obtain ⟨haccepted, hroom⟩ := hx
    rw [hw, hs] at haccepted
    rw [hs] at hroom
    refine ⟨by simpa [Writer.held] using haccepted, ?_⟩
    rw [List.length_cons] at hroom
    show rest.length ≤ _
    omega
  · exact hx

theorem Conn.Queued.write (hx : x.Queued) (ok : Bool) : (x.write ok).Queued := by
  unfold Conn.write
  split
  · rename_i e hw
    obtain ⟨haccepted, hroom⟩ := hx
    rw [hw] at haccepted
    split_ifs
    · exact ⟨by simpa [Writer.held] using haccepted, hroom⟩
    · exact ⟨haccepted, hroom⟩
  · exact hx

theorem Conn.Queued.ping (hx : x.Queued) (ok : Bool) : (x.ping ok).Queued := by
  unfold Conn.ping
  split
  · rename_i hw
    obtain ⟨haccepted, hroom⟩ := hx
    rw [hw] at haccepted
    split_ifs
    · exact ⟨by rw [hw]; exact haccepted, hroom⟩
    · exact ⟨haccepted, hroom⟩
  · exact hx

end Queued

namespace Hub

theorem queued_step (h : Hub) (i : Step) (hq : ∀ c, (h.conn c).Queued) : ∀ c, ((h.step i).conn c).Queued := by
  intro c
  have hx := hq c
  have hchange := change_step h i c
  generalize (h.step i).conn c = x at hchange ⊢
  cases hchange with
  | same => exact hx
  | read m => exact ⟨hx.accepted, hx.room⟩
  | push g e _ hroom =>
    refine ⟨?_, by rw [List.length_append]; exact hroom⟩
    show _ ++ [e] = _
    rw [hx.accepted]
    simp
  | receive => exact hx.receive
  | write ok => exact hx.write ok
  | ping ok => exact hx.ping ok
  | close => exact ⟨hx.accepted, hx.room⟩
  | shut _ => exact ⟨hx.accepted, hx.room⟩

theorem queued_run (l : List Step) (c : ℕ) : ((run step {} l).conn c).Queued :=
  run_invariant' (P := fun h : Hub => ∀ c, (h.conn c).Queued) queued_step (fun _ => ⟨rfl, Nat.zero_le _⟩) l c

/-- **What one connection relays to another arrives in order, each message once**: the messages of `a` among those
that `b` has taken in have increasing numbers; each is what the server makes of that message, for the uid of `b`; and
what has been written to `b` is what it took in first. -/
theorem relayed_in_order (l : List Step) (a b : ℕ) :
    ((run step {} l).numbers a b).Pairwise (· < ·) ∧
    (∀ e ∈ ((run step {} l).conn b).accepted, ∀ n, e.origin = some (a, n) →
      (run step {} l).Relays a n ((run step {} l).uid b) e.text) ∧
    ((run step {} l).conn b).written <+: ((run step {} l).conn b).accepted ∧
    ((run step {} l).conn b).send.length ≤ sendCapacity := by
  have hi := inv_run l
  have hq := queued_run l b
  refine ⟨hi.sorted a b, fun e he n ho => (hi.taken b e he a n ho).relays, ?_, hq.room⟩
  rw [hq.accepted, List.append_assoc]
  exact List.prefix_append _ _

/-! ### After `close` -/

section Passed

variable {h : Hub} {i : Step} {g : Goroutine} {c : ℕ} {e : Mail}

/-- A goroutine that goes to a place is past the flag only if it was, or if the flag is 0. -/
theorem passed_goTo {g' : Goroutine} {p : Place} (hi : i ≠ .push g)
    (hq : p = .passed c e → h.place g' = .passed c e ∨ (h.conn c).closed = false)
    (hp : (h.goTo g' p).place g = .passed c e) :
    h.place g = .passed c e ∧ i ≠ .push g ∨ (h.conn c).closed = false := by
  by_cases hg : g = g'
  · rw [hg, goTo_self] at hp
    rw [hg]
    exact (hq hp).imp_left fun hp => ⟨hp, hg ▸ hi⟩
  · rw [goTo_of_ne h g' p hg] at hp
    exact .inl ⟨hp, hi⟩

/-- A lookup leads to no `passed`. -/
theorem passed_lookup {order : List String} {p : Place} (hp : h.afterLookup order p = .passed c e) :
    p = .passed c e := by
  cases p with
  | relayMessage d x =>
    simp only [afterLookup] at hp
    split at hp <;> exact absurd hp (by simp)
  | sendClientList _ => exact absurd hp (by simp [afterLookup])
  | passed _ _ | idle | trySend _ _ | ended => exact hp

theorem passed_check {p : Place} (hp : h.afterCheck p = .passed c e) :
    p = .passed c e ∨ (h.conn c).closed = false := by
  cases p with
  | trySend t x =>
    simp only [afterCheck] at hp
    split_ifs at hp with hclosed
    obtain ⟨rfl, -⟩ := Place.passed.inj hp
    exact .inr (by simpa using hclosed)
  | passed _ _ | idle | relayMessage _ _ | sendClientList _ | ended => exact .inl hp

/-- Whoever is past the flag after a `push` was so before, and did not make it. -/
theorem passed_push {g' : Goroutine} (hp : (h.step (.push g')).place g = .passed c e) :
    h.place g = .passed c e ∧ g ≠ g' := by
  simp only [step] at hp
  by_cases hg : g = g'
  · subst hg
    cases hpl : h.place g with
    | passed t x =>
      rw [hpl] at hp
      simp only [afterPush] at hp
      split_ifs at hp <;> exact absurd hp (by simp)
    | idle | relayMessage _ _ | sendClientList _ | trySend _ _ | ended =>
      rw [hpl] at hp
      exact absurd (hpl.symm.trans hp) (by simp)
  · refine ⟨?_, hg⟩
    cases hpl : h.place g' with
    | passed t x =>
      rw [hpl] at hp
      simp only [afterPush] at hp
      split_ifs at hp
      · rw [goTo_of_ne _ _ _ hg] at hp
        exact hp
      · rw [goTo_of_ne _ _ _ hg] at hp
        exact hp
    | idle | relayMessage _ _ | sendClientList _ | trySend _ _ | ended =>
      rw [hpl] at hp
      exact hp

/-- A goroutine gets past the flag only while it is 0. -/
theorem passed_step (hp : (h.step i).place g = .passed c e) :
    h.place g = .passed c e ∧ i ≠ .push g ∨ (h.conn c).closed = false := by
  cases i with
  | registry i =>
    simp only [step] at hp
    split_ifs at hp <;> exact .inl ⟨hp, by simp⟩
  | read c' m =>
    simp only [step] at hp
    split_ifs at hp
    · refine passed_goTo (by simp) (fun he => ?_) hp
      unfold afterRead at he
      split at he <;> exact absurd he (by simp)
    · exact .inl ⟨hp, by simp⟩
  | readError c' =>
    simp only [step] at hp
    split_ifs at hp
    · exact passed_goTo (by simp) (fun he => absurd he (by simp)) hp
    · exact .inl ⟨hp, by simp⟩
  | call k t text =>
    simp only [step] at hp
    split_ifs at hp
    · exact passed_goTo (by simp) (fun he => absurd he (by simp)) hp
    · exact .inl ⟨hp, by simp⟩
  | lookup g' order => exact passed_goTo (by simp) (fun he => .inl (passed_lookup he)) hp
  | check g' => exact passed_goTo (by simp) passed_check hp
  | push g' =>
    obtain ⟨hbefore, hg⟩ := passed_push hp
    exact .inl ⟨hbefore, fun he => hg (Step.push.inj he).symm⟩
  | receive c' => exact .inl ⟨hp, by simp⟩
  | write c' ok => exact .inl ⟨hp, by simp⟩
  | ping c' ok => exact .inl ⟨hp, by simp⟩
  | close c' =>
    simp only [step] at hp
    split_ifs at hp <;> exact .inl ⟨hp, by simp⟩
  | shut c' =>
    simp only [step] at hp
    split_ifs at hp <;> exact .inl ⟨hp, by simp⟩

end Passed

/-- The message of a goroutine that has found the connection open. -/
def late (h : Hub) (c : ℕ) (g : Goroutine) : Option Mail :=
  match h.place g with
  | .passed target e => if target = c then some e else none
  | _ => none

theorem late_eq_some {h : Hub} {c : ℕ} {g : Goroutine} {e : Mail} :
    h.late c g = some e ↔ h.place g = .passed c e := by
  unfold late
  cases h.place g with
  | passed t x =>
    by_cases ht : t = c
    · simp [ht]
    · simp [ht]
  | idle | relayMessage _ _ | sendClientList _ | trySend _ _ | ended => simp

/-- What has happened to `c` since it was closed in the state `h`; `gs` are the goroutines that came late. -/
structure After (h : Hub) (c : ℕ) (h' : Hub) (gs : List Goroutine) : Prop where
  closed : (h'.conn c).closed
  nodup : gs.Nodup
  late : ∀ g ∈ gs, (h.late c g).isSome
  accepted : (h'.conn c).accepted = (h.conn c).accepted ++ gs.filterMap (h.late c)
  waiting : ∀ g e, h'.place g = .passed c e → h.place g = .passed c e ∧ g ∉ gs
  written : (h.conn c).shut → (h'.conn c).shut ∧ (h'.conn c).written = (h.conn c).written

theorem after_step {h h' : Hub} {c : ℕ} {gs : List Goroutine} (ha : After h c h' gs) (i : Step) :
    ∃ gs', After h c (h'.step i) gs' := by
  have hwaiting : ∀ g e, (h'.step i).place g = .passed c e → (h.place g = .passed c e ∧ g ∉ gs) ∧ i ≠ .push g := by
    intro g e hp
    rcases passed_step hp with ⟨hold, hne⟩ | hopen
    · exact ⟨ha.waiting g e hold, hne⟩
    · rw [ha.closed] at hopen
      exact absurd hopen (by simp)
  have hpush : ∀ g e, h'.place g = .passed c e → i = .push g → (gs ++ [g]).Nodup ∧
      (gs ++ [g]).filterMap (h.late c) = gs.filterMap (h.late c) ++ [e] ∧ (h.late c g).isSome := by
    intro g e hp hi
    obtain ⟨hplace, hnew⟩ := ha.waiting g e hp
    have hlate : h.late c g = some e := late_eq_some.mpr hplace
    exact ⟨List.nodup_append.mpr ⟨ha.nodup, List.nodup_singleton g, fun x hx y hy hxy =>
      hnew (by rw [← List.mem_singleton.mp hy, ← hxy]; exact hx)⟩, by simp [List.filterMap_append, hlate],
      by simp [hlate]⟩
  have hchange := change_step h' i c
  -- no change but a late message
  have hsame : ∀ x : Conn, (h'.step i).conn c = x → x.closed = true → x.accepted = (h'.conn c).accepted →
      ((h'.conn c).shut → x.shut ∧ x.written = (h'.conn c).written) → ∃ gs', After h c (h'.step i) gs' := by
    intro x hx hclosed haccepted hwritten
    refine ⟨gs, by rw [hx]; exact hclosed, ha.nodup, ha.late, by rw [hx, haccepted, ha.accepted],
      fun g e hp => (hwaiting g e hp).1, fun hshut => ?_⟩
    obtain ⟨hshut', hw⟩ := ha.written hshut
    obtain ⟨hshut'', hw'⟩ := hwritten hshut'
    rw [hx]
    exact ⟨hshut'', hw'.trans hw⟩
  generalize hx : (h'.step i).conn c = x at hchange
  cases hchange with
  | same => exact hsame _ hx ha.closed rfl fun hshut => ⟨hshut, rfl⟩
  | read m => exact hsame _ hx ha.closed rfl fun hshut => ⟨hshut, rfl⟩
  | push g e hp _ =>
    obtain ⟨hnodup, hfilter, hlate⟩ := hpush g e hp rfl
    refine ⟨gs ++ [g], by rw [hx]; exact ha.closed, hnodup, fun g' hg' => ?_, ?_, fun g' e' hp' => ?_, fun hshut => ?_⟩
    · rcases List.mem_append.mp hg' with hg' | hg'
      · exact ha.late g' hg'
      · rw [List.mem_singleton.mp hg']
        exact hlate
    · rw [hx, hfilter, ← List.append_assoc, ← ha.accepted]
    · obtain ⟨⟨hplace, hnew⟩, hne⟩ := hwaiting g' e' hp'
      refine ⟨hplace, fun hmem => ?_⟩
      rcases List.mem_append.mp hmem with hmem | hmem
      · exact hnew hmem
      · exact hne (by rw [List.mem_singleton.mp hmem])
    · rw [hx]
      exact ha.written hshut
  | receive =>
    refine hsame _ hx ?_ (receive_kept _).2 fun hshut => ?_
    · unfold Conn.receive
      split <;> exact ha.closed
    · unfold Conn.receive
      split <;> exact ⟨hshut, rfl⟩
  | write ok =>
    refine hsame _ hx ?_ (write_kept _ ok).2 fun hshut => ?_
    · unfold Conn.write
      split
      · split_ifs <;> exact ha.closed
      · exact ha.closed
    · unfold Conn.write
      split
      · rw [if_neg (by simp [hshut])]
        exact ⟨hshut, rfl⟩
      · exact ⟨hshut, rfl⟩
  | ping ok =>
    refine hsame _ hx ?_ (ping_kept _ ok).2 fun hshut => ?_
    · unfold Conn.ping
      split
      · split_ifs <;> exact ha.closed
      · exact ha.closed
    · unfold Conn.ping
      split
      · split_ifs <;> exact ⟨hshut, rfl⟩
      · exact ⟨hshut, rfl⟩
  | close => exact hsame _ hx rfl rfl fun hshut => ⟨hshut, rfl⟩
  | shut _ => exact hsame _ hx ha.closed rfl fun _ => ⟨rfl, rfl⟩

/-- **A closed connection takes in nothing but what came late**: the messages of goroutines that had found it open
before, one each; and from `conn.Close()` on nothing is written to it. -/
theorem closed_silent (h : Hub) (c : ℕ) (hclosed : (h.conn c).closed) (l : List Step) :
    ((run step h l).conn c).closed ∧
    (∃ gs : List Goroutine, gs.Nodup ∧ (∀ g ∈ gs, (h.late c g).isSome) ∧
      ((run step h l).conn c).accepted = (h.conn c).accepted ++ gs.filterMap (h.late c)) ∧
    ((h.conn c).shut → ((run step h l).conn c).written = (h.conn c).written) := by
  have hstart : ∃ gs, After h c h gs :=
    ⟨[], hclosed, List.nodup_nil, by simp, by simp, fun _ _ hp => ⟨hp, by simp⟩, fun hshut => ⟨hshut, rfl⟩⟩
  obtain ⟨gs, ha⟩ := run_invariant' (P := fun h' => ∃ gs, After h c h' gs)
    (fun h' i ⟨_, ha⟩ => after_step ha i) hstart l
  exact ⟨ha.closed, ⟨gs, ha.nodup, ha.late, ha.accepted⟩, fun hshut => (ha.written hshut).2⟩

/-! ### Nothing is missing -/

/-- What is to be relayed to `b` for a message that `a` has read, with its number. -/
def sends (h : Hub) (a b : ℕ) (x : String × ℕ) : Option Mail :=
  match readPump (h.uid a) x.1 with
  | .relay dest text => if dest = h.uid b then some ⟨text, some (a, x.2)⟩ else none
  | _ => none

/-- What has been relayed from `a` to `b`. -/
def taken (h : Hub) (a b : ℕ) : List Mail := (h.conn b).accepted.filter fun e => (e.number a).isSome

/-- The message that `a` is relaying to `b`. -/
def underway (h : Hub) (a b : ℕ) : List Mail := (h.place (.readPump a)).message a b (h.uid b)

/-- The messages of `a` find `b`: it is registered when they look for it, open when they try it, and its channel has
room. -/
def Through (a b : ℕ) (h : Hub) (i : Step) : Prop :=
  match i, h.place (.readPump a) with
  | .lookup g _, .relayMessage dest _ => g = .readPump a → dest = h.uid b → h.registry.clients dest = some b
  | .check g, .trySend target _ => g = .readPump a → target = b → (h.conn b).closed = false
  | .push g, .passed target _ => g = .readPump a → target = b → (h.conn b).send.length < sendCapacity
  | _, _ => True

instance (a b : ℕ) (h : Hub) (i : Step) : Decidable (Through a b h i) := by
  unfold Through
  split <;> infer_instance

/-- What `a` has read since the state `h₀` has been taken in by `b` or is on its way. -/
structure Complete (h₀ : Hub) (a b : ℕ) (h : Hub) : Prop where
  inv : Inv h
  conns : a < h.registry.conns ∧ b < h.registry.conns
  uid : h.uid a = h₀.uid a ∧ h.uid b = h₀.uid b
  read : (h₀.conn a).read.length ≤ (h.conn a).read.length
  flow : h.taken a b ++ h.underway a b = h₀.taken a b ++ h₀.underway a b ++
    ((h.conn a).read.zipIdx.drop (h₀.conn a).read.length).filterMap (h₀.sends a b)

section Complete

variable {h₀ h h' : Hub} {a b : ℕ}

theorem Complete.refl (hi : Inv h) (ha : a < h.registry.conns) (hb : b < h.registry.conns) : Complete h a b h := by
  refine ⟨hi, ⟨ha, hb⟩, ⟨rfl, rfl⟩, le_rfl, ?_⟩
  rw [List.drop_eq_nil_of_le (by rw [List.length_zipIdx]), List.filterMap_nil, List.append_nil]

/-- A step that is not about the way from `a` to `b`. -/
theorem Complete.frame (hc : Complete h₀ a b h) (hi : Inv h') (hconns : h.registry.conns ≤ h'.registry.conns)
    (huid : ∀ c < h.registry.conns, h'.uid c = h.uid c) (hread : (h'.conn a).read = (h.conn a).read)
    (htaken : h'.taken a b ++ h'.underway a b = h.taken a b ++ h.underway a b) : Complete h₀ a b h' := by
  obtain ⟨ha, hb⟩ := hc.conns
  refine ⟨hi, ⟨ha.trans_le hconns, hb.trans_le hconns⟩, ?_, by rw [hread]; exact hc.read, ?_⟩
  · rw [huid a ha, huid b hb]
    exact hc.uid
  · rw [htaken, hread]
    exact hc.flow

theorem taken_of_accepted (haccepted : (h'.conn b).accepted = (h.conn b).accepted) : h'.taken a b = h.taken a b := by
  unfold taken
  rw [haccepted]

theorem underway_of_place (hb : h'.uid b = h.uid b) (hplace : h'.place (.readPump a) = h.place (.readPump a)) :
    h'.underway a b = h.underway a b := by
  unfold underway
  rw [hplace, hb]

theorem underway_goTo (p : Place) : (h.goTo (.readPump a) p).underway a b = p.message a b (h.uid b) := by
  unfold underway
  rw [goTo_self]
  rfl

/-- Another goroutine has done something to a connection. -/
theorem underway_other {g : Goroutine} (hg : g ≠ .readPump a) (c : ℕ) (x : Conn) (p : Place) :
    ((h.setConn c x).goTo g p).underway a b = h.underway a b :=
  underway_of_place rfl (goTo_of_ne _ g p (Ne.symm hg))

/-- The goroutine of `a` goes from one place to another without anything for `b` getting lost. -/
theorem Complete.goTo (hc : Complete h₀ a b h) {g : Goroutine} {p : Place} (hf : Frame h (h.goTo g p))
    (hp : g = .readPump a → p.message a b (h.uid b) = (h.place g).message a b (h.uid b)) :
    Complete h₀ a b (h.goTo g p) := by
  refine hc.frame (hf.inv hc.inv) le_rfl (fun _ _ => rfl) rfl ?_
  have hunderway : (h.goTo g p).underway a b = h.underway a b := by
    by_cases hg : g = .readPump a
    · subst hg
      rw [underway_goTo, hp rfl]
      rfl
    · exact underway_of_place rfl (goTo_of_ne h g p (Ne.symm hg))
  rw [hunderway]
  rfl

theorem Complete.setConn (hc : Complete h₀ a b h) {c : ℕ} {x : Conn} (hread : x.read = (h.conn c).read)
    (haccepted : x.accepted = (h.conn c).accepted) : Complete h₀ a b (h.setConn c x) := by
  have hf := frame_setConn hc.inv hread haccepted
  have hunderway : (h.setConn c x).underway a b = h.underway a b := underway_of_place rfl rfl
  refine hc.frame (hf.inv hc.inv) le_rfl (fun _ _ => rfl) (hf.read a) ?_
  rw [taken_of_accepted (h := h) (hf.accepted b), hunderway]

/-- The next message of `a`. -/
theorem Complete.readNext (hc : Complete h₀ a b h) (hr : h.Reads a) (m : String) :
    Complete h₀ a b ((h.setConn a { h.conn a with read := (h.conn a).read ++ [m] }).goTo (.readPump a)
      (h.afterRead a m)) := by
  have hinv := inv_read hc.inv hr m
  set h' := (h.setConn a { h.conn a with read := (h.conn a).read ++ [m] }).goTo (.readPump a) (h.afterRead a m) with hh'
  have hreada : (h'.conn a).read = (h.conn a).read ++ [m] := by rw [hh', goTo_conn, setConn_self]
  have haccepted : (h'.conn b).accepted = (h.conn b).accepted := by
    by_cases hb : b = a
    · rw [hb, hh', goTo_conn, setConn_self]
    · rw [hh', goTo_conn, setConn_of_ne h a _ hb]
  have hidle : h.underway a b = [] := by
    unfold underway
    rw [hr.2.2]
    rfl
  have hnew : h'.underway a b = (h₀.sends a b (m, (h.conn a).read.length)).toList := by
    obtain ⟨hua, hub⟩ := hc.uid
    rw [hh', underway_goTo, show (h.setConn a _).uid b = h.uid b from rfl, hub]
    unfold afterRead sends
    rw [hua]
    dsimp only
    cases readPump (h₀.uid a) m with
    | ignore => rfl
    | sendClientList => rfl
    | relay dest text =>
      dsimp only
      split_ifs with hdest
      · simp [Place.message, hdest, Mail.number]
      · simp [Place.message, hdest]
  refine ⟨hinv, hc.conns, hc.uid, ?_, ?_⟩
  · rw [hreada, List.length_append]
    exact hc.read.trans (Nat.le_add_right _ _)
  · have hflow := hc.flow
    rw [hidle, List.append_nil] at hflow
    have hlast : [(m, (h.conn a).read.length)].filterMap (h₀.sends a b) =
        (h₀.sends a b (m, (h.conn a).read.length)).toList := by
      cases hs : h₀.sends a b (m, (h.conn a).read.length) <;> simp [hs]
    rw [taken_of_accepted (h := h) haccepted, hnew, hflow, hreada, List.zipIdx_append,
      List.drop_append_of_le_length (by rw [List.length_zipIdx]; exact hc.read), List.filterMap_append,
      List.append_assoc]
    simp [hlast]

theorem Complete.registry (hc : Complete h₀ a b h) (i : Registry.Step) : Complete h₀ a b (h.step (.registry i)) := by
  simp only [step]
  split_ifs
  · have hf := frame_registry hc.inv i
    refine hc.frame (hf.inv hc.inv) hf.conns hf.uid rfl ?_
    rw [underway_of_place (h := h) (hf.uid b hc.conns.2) rfl]
    rfl
  · exact hc

theorem Complete.read_step (hc : Complete h₀ a b h) (c : ℕ) (m : String) :
    Complete h₀ a b (h.step (.read c m)) := by
  simp only [step]
  split_ifs with hr
  · by_cases hca : c = a
    · subst hca
      exact hc.readNext hr m
    · refine hc.frame (inv_read hc.inv hr m) le_rfl (fun _ _ => rfl) ?_ ?_
      · rw [goTo_conn, setConn_of_ne h c _ (Ne.symm hca)]
      · rw [taken_of_accepted (h := h), underway_other (by simpa using hca)]
        · rw [goTo_conn]
          by_cases hb : b = c
          · rw [hb, setConn_self]
          · rw [setConn_of_ne h c _ hb]
  · exact hc

theorem Complete.call (hc : Complete h₀ a b h) (k t : ℕ) (text : String) :
    Complete h₀ a b (h.step (.call k t text)) := by
  simp only [step]
  split_ifs with hk
  · refine hc.goTo (frame_goTo hc.inv (fun t' ht' => ?_) fun e dest he => .inl ?_) fun hg => absurd hg (by simp)
    · obtain rfl : t = t' := Option.some.inj ht'
      exact hk.2
    · obtain ⟨rfl, -⟩ := Prod.mk.inj (Option.some.inj he)
      rfl
  · exact hc

/-- A message that is looked up goes to `b` if and only if it is meant for it. -/
theorem Complete.lookup (hc : Complete h₀ a b h) {g : Goroutine} {order : List String}
    (hi : Through a b h (.lookup g order)) : Complete h₀ a b (h.step (.lookup g order)) := by
  refine hc.goTo (frame_lookup hc.inv g order) fun hg => ?_
  subst hg
  cases hp : h.place (.readPump a) with
  | relayMessage d x =>
    simp only [Through, hp] at hi
    cases hd : h.registry.clients d with
    | none =>
      have hne : d ≠ h.uid b := by
        intro heq
        rw [hi trivial heq] at hd
        exact absurd hd (by simp)
      simp only [afterLookup, hd, Place.message, if_neg hne]
    | some t =>
      have huid : h.uid t = d := (hc.inv.sound.entry d t hd).2.1
      have hiff : t = b ↔ d = h.uid b := by
        constructor
        · rintro rfl
          exact huid.symm
        · intro heq
          exact Option.some.inj (hd.symm.trans (hi trivial heq))
      simp only [afterLookup, hd, Place.message, hiff]
  | sendClientList c =>
    simp only [afterLookup, Place.message]
    split_ifs <;> simp [Mail.number]
  | idle | trySend _ _ | passed _ _ | ended => rfl

/-- A message for `b` finds it open. -/
theorem Complete.check (hc : Complete h₀ a b h) {g : Goroutine} (hi : Through a b h (.check g)) :
    Complete h₀ a b (h.step (.check g)) := by
  refine hc.goTo (frame_check hc.inv g) fun hg => ?_
  subst hg
  cases hp : h.place (.readPump a) with
  | trySend t x =>
    simp only [Through, hp] at hi
    by_cases ht : t = b
    · simp only [afterCheck, ht, hi trivial ht]
      rfl
    · simp only [afterCheck]
      split_ifs
      · simp only [Place.message, if_neg ht]
      · rfl
  | idle | relayMessage _ _ | sendClientList _ | passed _ _ | ended => rfl

/-- A message goes from the hands of `g` into the channel of `t`. -/
theorem Complete.taken_in (hc : Complete h₀ a b h) {g : Goroutine} {t : ℕ} {e : Mail} (hp : h.place g = .passed t e) :
    Complete h₀ a b ((h.setConn t { h.conn t with
      send := (h.conn t).send ++ [e], accepted := (h.conn t).accepted ++ [e] }).goTo g .idle) := by
  refine hc.frame (inv_push hc.inv hp) le_rfl (fun _ _ => rfl) ?_ ?_
  · rw [goTo_conn]
    by_cases hat : a = t
    · rw [hat, setConn_self]
    · rw [setConn_of_ne h t _ hat]
  · have htaken : Hub.taken ((h.setConn t { h.conn t with
        send := (h.conn t).send ++ [e], accepted := (h.conn t).accepted ++ [e] }).goTo g .idle) a b =
        h.taken a b ++ if t = b then [e].filter fun e => (e.number a).isSome else [] := by
      unfold taken
      rw [goTo_conn]
      by_cases ht : t = b
      · rw [if_pos ht, ht, setConn_self, List.filter_append]
      · rw [if_neg ht, setConn_of_ne h t _ (Ne.symm ht), List.append_nil]
    rw [htaken, List.append_assoc]
    congr 1
    by_cases hg : g = .readPump a
    · subst hg
      rw [underway_goTo, underway, hp]
      simp only [Place.message]
      split_ifs <;> simp
    · have hnone : e.number a = none := by
        by_contra hsome
        obtain ⟨n, hn⟩ := Option.ne_none_iff_exists'.mp hsome
        exact hg (hc.inv.held g e _ a n (by rw [hp]; rfl) (number_eq_some.mp hn)).owner
      rw [underway_other hg]
      simp [hnone]

/-- A message for `b` finds room. -/
theorem Complete.push (hc : Complete h₀ a b h) {g : Goroutine} (hi : Through a b h (.push g)) :
    Complete h₀ a b (h.step (.push g)) := by
  simp only [step]
  cases hp : h.place g with
  | passed t e =>
    simp only [afterPush]
    split_ifs with hroom
    · exact hc.taken_in hp
    · refine hc.goTo (frame_drop hc.inv g (.inl rfl)) fun hg => ?_
      subst hg
      simp only [Through, hp] at hi
      have ht : t ≠ b := by
        intro ht
        exact hroom (by rw [ht]; exact hi trivial ht)
      simp only [hp, Place.message, if_neg ht]
  | idle | relayMessage _ _ | sendClientList _ | trySend _ _ | ended => exact hc

theorem complete_step (hc : Complete h₀ a b h) {i : Step} (hi : Through a b h i) : Complete h₀ a b (h.step i) := by
  cases i with
  | registry i => exact hc.registry i
  | read c m => exact hc.read_step c m
  | readError c =>
    simp only [step]
    split_ifs with hr
    · refine hc.goTo (frame_drop hc.inv _ (.inr rfl)) fun hg => ?_
      rw [hr.2.2]
      rfl
    · exact hc
  | call k t text => exact hc.call k t text
  | lookup g order => exact hc.lookup hi
  | check g => exact hc.check hi
  | push g => exact hc.push hi
  | receive c => exact hc.setConn (receive_kept _).1 (receive_kept _).2
  | write c ok => exact hc.setConn (write_kept _ ok).1 (write_kept _ ok).2
  | ping c ok => exact hc.setConn (ping_kept _ ok).1 (ping_kept _ ok).2
  | close c =>
    simp only [step]
    split_ifs
    · exact hc.setConn (x := { h.conn c with closed := true }) rfl rfl
    · exact hc
  | shut c =>
    simp only [step]
    split_ifs
    · exact hc.setConn (x := { h.conn c with shut := true }) rfl rfl
    · exact hc

end Complete

/-- **As long as the messages of `a` find `b`, nothing is missing**: what `b` has taken in from `a`, with the message
in the hands of its `readPump`, is what it was and what the server makes of all that `a` has sent for the uid of `b`
since, in order. -/
theorem relayed_complete (l₀ l : List Step) (a b : ℕ) (ha : a < (run step {} l₀).registry.conns)
    (hb : b < (run step {} l₀).registry.conns) (hl : Meets step (Through a b) (run step {} l₀) l) :
    (run step (run step {} l₀) l).taken a b ++ (run step (run step {} l₀) l).underway a b =
      (run step {} l₀).taken a b ++ (run step {} l₀).underway a b ++
        ((((run step (run step {} l₀) l).conn a).read.zipIdx.drop ((run step {} l₀).conn a).read.length).filterMap
          ((run step {} l₀).sends a b)) :=
  (run_invariant (P := Complete (run step {} l₀) a b) (fun _ _ hc hi => complete_step hc hi)
    (.refl (inv_run l₀) ha hb) hl).flow

end Hub

/-- Alice and bob are connected. -/
def bothConnected : List Step := [.registry (.handleConnection "alice"), .registry (.handleConnection "bob")]

/-- Alice ends a call with bob, which is passed on, and cancels another one. -/
def aliceSpeaks : List Step :=
  [.read 0 "\x7b\"type\":\"call-end\",\"to\":\"bob\"\x7d", .lookup (.readPump 0) [], .check (.readPump 0),
    .push (.readPump 0), .read 0 "\x7b\"type\":\"call-cancel\",\"to\":\"bob\"\x7d"]

theorem bob_hears_alice :
    let h₀ := run Hub.step {} bothConnected
    let h := run Hub.step h₀ aliceSpeaks
    h.taken 0 1 ++ h.underway 0 1 = h₀.taken 0 1 ++ h₀.underway 0 1 ++
      ((h.conn 0).read.zipIdx.drop (h₀.conn 0).read.length).filterMap (h₀.sends 0 1) ∧
    (h.taken 0 1).length = 1 ∧ (h.underway 0 1).length = 1 := by
  have hl : Meets Hub.step (Hub.Through 0 1) (run Hub.step {} bothConnected) aliceSpeaks := by decide +kernel
  exact ⟨Hub.relayed_complete bothConnected aliceSpeaks 0 1 (by decide +kernel) (by decide +kernel) hl,
    by decide +kernel, by decide +kernel⟩

/-- Alice logs in again while a message for her first connection has passed its flag; then that is closed. -/
def replaced : List Step :=
  [.registry (.handleConnection "alice"), .call 0 0 "late", .check (.other 0), .registry (.handleConnection "alice"),
    .close 0]

theorem late_message :
    let h := run Hub.step {} replaced
    (∃ gs : List Goroutine, gs.Nodup ∧ (∀ g ∈ gs, (h.late 0 g).isSome) ∧
      ((run Hub.step h [.push (.other 0), .push (.other 0)]).conn 0).accepted =
        (h.conn 0).accepted ++ gs.filterMap (h.late 0)) ∧
    ((run Hub.step h [.push (.other 0), .push (.other 0)]).conn 0).accepted = [⟨"late", none⟩] := by
  intro h
  exact ⟨(Hub.closed_silent h 0 (by decide +kernel) [.push (.other 0), .push (.other 0)]).2.1, by decide +kernel⟩

end PeerCall.Delivery
