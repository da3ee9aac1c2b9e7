import PeerCall.Signal.Client
import PeerCall.Lib.Query

/-!
# Signal.Identity — the id that the client asks for and the uid that the server takes

`ConnectOnIoThread` puts the client id behind the target of the URL as it is, and the server unescapes it.
Both work on bytes: a character of a string stands for the byte with its number here.
**`uid_eq_clientId_iff`**: the server takes the client id exactly when the id has none of the characters that
are special in a query and the URL has no uid of its own, or the first uid of the URL is the id.
-/

namespace PeerCall.Signal

open PeerCall.Lib

/-- The target of the handshake in `ConnectOnIoThread`. -/
def handshakeTarget (target clientId : String) : String :=
  target ++ (if '?' ∈ target.toList then "&uid=" else "?uid=") ++ clientId

/-- `r.URL.RawQuery` of a request for the target. -/
def rawQuery (target : String) : List Char := (Query.cut '?' target.toList).2

/-- The uid under which `handleWebRTCConnection` registers the connection; without one it refuses. -/
def handleWebRTCConnection (target : String) : Option String :=
  let uid := String.ofList (Query.get (rawQuery target) "uid".toList)
  if uid = "" then none else some uid

/-- The id comes through: the URL has no uid and the id has no character that is special in a query, or the
first uid of the URL is the id. -/
def ComesThrough (target clientId : String) : Prop :=
  match Query.first (rawQuery target) "uid".toList with
  | some uid => uid = clientId.toList
  | none => ∀ c ∈ ['&', ';', '%', '+'], c ∉ clientId.toList

/-! ### What the server reads -/

theorem uid_plain : Query.Plain "uid".toList := by decide

/-- The query of the handshake: what the URL has of one, and the setting of the uid after it. -/
theorem first_handshakeTarget (target clientId : String) :
    Query.first (rawQuery (handshakeTarget target clientId)) "uid".toList =
      (Query.first (rawQuery target) "uid".toList).or
        (Query.first ("uid".toList ++ '=' :: clientId.toList) "uid".toList) := by
  unfold handshakeTarget rawQuery
  simp only [String.toList_append]
  by_cases hq : '?' ∈ target.toList
  · obtain ⟨path, query, htarget, hpath⟩ := List.eq_append_cons_of_mem hq
    rw [if_pos hq, htarget, Query.cut_append '?' hpath]
    have hsplit : path ++ '?' :: query ++ "&uid=".toList ++ clientId.toList =
        path ++ '?' :: (query ++ '&' :: ("uid".toList ++ '=' :: clientId.toList)) := by
      simp
    rw [hsplit, Query.cut_append '?' hpath, Query.first_append]
  · rw [if_neg hq]
    have hsplit : target.toList ++ "?uid=".toList ++ clientId.toList =
        target.toList ++ '?' :: ("uid".toList ++ '=' :: clientId.toList) := by
      simp
    have hnone : (Query.cut '?' target.toList).2 = [] := by
      have htrue : ∀ c ∈ target.toList, decide (c ≠ '?') = true := fun c hc => by
        simpa using fun h : c = '?' => hq (h ▸ hc)
      unfold Query.cut
      rw [List.dropWhile_eq_nil_iff.mpr htrue]
      rfl
    rw [hsplit, Query.cut_append '?' hq, hnone]
    simp

/-- The server takes the id exactly when it is the first uid of the query. -/
theorem handleWebRTCConnection_eq_iff {target clientId : String} (hne : clientId ≠ "") :
    handleWebRTCConnection target = some clientId ↔
      Query.first (rawQuery target) "uid".toList = some clientId.toList := by
  unfold handleWebRTCConnection Query.get
  dsimp only
  rcases Query.first (rawQuery target) "uid".toList with _ | uid
  · simp
  · rw [Option.getD_some]
    have hiff : String.ofList uid = clientId ↔ uid = clientId.toList := by
      rw [← String.toList_inj, String.toList_ofList]
    by_cases huid : String.ofList uid = ""
    · rw [if_pos huid]
      have hnot : uid ≠ clientId.toList := fun h => hne ((hiff.mpr h).symm.trans huid)
      simp [hnot]
    · rw [if_neg huid]
      simp [hiff]

/-- **The two agree on the identity** exactly when the id comes through. -/
theorem uid_eq_clientId_iff {url clientId : String} {p : ParsedUrl} (_ : parseUrl url = .ok p)
    (hne : clientId ≠ "") :
    handleWebRTCConnection (handshakeTarget p.target clientId) = some clientId ↔
      ComesThrough p.target clientId := by
  rw [handleWebRTCConnection_eq_iff hne, first_handshakeTarget]
  unfold ComesThrough
  rcases Query.first (rawQuery p.target) "uid".toList with _ | uid
  · rw [Option.none_or, Query.first_keyed_iff uid_plain]
    simp
  · simp

theorem alice_is_alice : handleWebRTCConnection (handshakeTarget "/ws/webrtc?room=1" "alice") = some "alice" :=
  (@uid_eq_clientId_iff "ws://localhost:8080/ws/webrtc?room=1" "alice" ⟨"localhost", "8080", "/ws/webrtc?room=1"⟩
    (by decide +kernel) (by decide)).mpr <| by
    have hfirst : Query.first (rawQuery "/ws/webrtc?room=1") "uid".toList = none := by decide +kernel
    unfold ComesThrough
    have hid : "alice".toList = ['a', 'l', 'i', 'c', 'e'] := rfl
    rw [hfirst, hid]
    simp

/-- **Two identities**: the client calls itself `a+b`, the server calls it `a b`; and a URL that names a uid
of its own decides for every id. -/
theorem two_identities :
    parseUrl "ws://localhost:8080/ws/webrtc" = .ok ⟨"localhost", "8080", "/ws/webrtc"⟩ ∧
      handleWebRTCConnection (handshakeTarget "/ws/webrtc" "a+b") = some "a b" ∧
      handleWebRTCConnection (handshakeTarget "/ws/webrtc?uid=bob" "alice") = some "bob" := by
  decide +kernel

end PeerCall.Signal
