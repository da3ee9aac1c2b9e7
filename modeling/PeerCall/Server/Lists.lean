import PeerCall.Server.Farewell
import PeerCall.Server.Relay

/-!
# Server.Lists — who sees which client list last

`broadcastClientList` and `sendClientList` read the keys of the map in one section under `mutex` and send
them in another.  The model keeps the calls that are under way, one entry for each goroutine, and the
lists that each connection has been sent.  A list is stamped with the number of changes of the map at the
time it was read, so that two lists can be compared.  A connection may be closed while it is still in the map,
since its `writePump` may end before its `readPump` does; then nothing is sent to it any more.
-/

namespace PeerCall.Registry

open PeerCall.Lib

/-- The keys of `clients`, in the order of their connections. -/
def Server.keys (s : Server) : List String :=
  ((List.range s.conns).filter fun c => s.clients (s.conn c).uid = some c).map fun c => (s.conn c).uid

/-- The connection is the one in the map. -/
def Server.Current (s : Server) (c : ℕ) : Prop := c < s.conns ∧ s.clients (s.conn c).uid = some c

instance (s : Server) (c : ℕ) : Decidable (s.Current c) := by unfold Server.Current; infer_instance

/-- The uids of a client list; `stamp` counts the changes of the map before it was read. -/
structure ClientList where
  uids : List String
  stamp : ℕ
  deriving DecidableEq, Repr

/-- Where a call stands: `sendRegisteredMessage` before its `trySend`, `sendClientList` and
`broadcastClientList` before each of their two sections.  `more` says that `sendRegisteredMessage` has made the
call and goes on to `broadcastClientList`. -/
inductive Call
  | sendRegisteredMessage (c : ℕ)
  | sendClientList (c : ℕ) (more : Bool)
  | sendTaken (c : ℕ) (list : ClientList) (more : Bool)
  | broadcastClientList
  | broadcastTaken (list : ClientList)
  deriving DecidableEq, Repr

/-- The server with its calls and with the lists in the send queue of each connection.  `shut`: the
connection's `close()` has run. -/
structure Lists where
  server : Server := {}
  calls : List Call := []
  lists : ℕ → List ClientList := fun _ => []
  shut : ℕ → Bool := fun _ => false
  changes : ℕ := 0

/-- The calls that a section of the registry starts. -/
def started (s : Server) : Step → List Call
  | .handleConnection uid => if s.clients uid = none then [.sendRegisteredMessage s.conns] else []
  | .register c => if c < s.conns ∧ (s.conn c).registered = false then [.sendRegisteredMessage c] else []
  | .removeClient c => if s.Removes c then [.broadcastClientList] else []
  | .fire _ => []
  | .confirmOffline _ => []

/-- The section changes the map. -/
def Alters (s : Server) : Step → Prop
  | .handleConnection _ => True
  | i => started s i ≠ []

instance (s : Server) : ∀ i : Step, Decidable (Alters s i)
  | .handleConnection _ => inferInstanceAs (Decidable True)
  | .register c => inferInstanceAs (Decidable (started s (.register c) ≠ []))
  | .removeClient c => inferInstanceAs (Decidable (started s (.removeClient c) ≠ []))
  | .fire j => inferInstanceAs (Decidable (started s (.fire j) ≠ []))
  | .confirmOffline j => inferInstanceAs (Decidable (started s (.confirmOffline j) ≠ []))

/-- The list that a call sends to the connection `c` in its next section, if that is registered. -/
def Call.sends (c : ℕ) : Call → Option ClientList
  | .sendTaken c' list _ => if c = c' then some list else none
  | .broadcastTaken list => some list
  | _ => none

/-- The next section of a call sends something to the connection `c`, if that is registered. -/
def Call.serves (c : ℕ) : Call → Bool
  | .sendRegisteredMessage c' => c = c'
  | .sendTaken c' _ _ => c = c'
  | .broadcastTaken _ => true
  | _ => false

/-! ### The registry in any order of its sections -/

/-- What every entry of the map is about: a connection of that uid that has been registered and not been told to
close. -/
structure Sound (s : Server) : Prop where
  entry : ∀ uid c, s.clients uid = some c →
    c < s.conns ∧ (s.conn c).uid = uid ∧ (s.conn c).registered ∧ (s.conn c).closed = false
  fresh : ∀ c < s.conns, (s.conn c).registered = false → (s.conn c).closed = false

/-- No section forgets a connection or renames it. -/
theorem conn_kept (s : Server) (i : Step) {c : ℕ} (hc : c < s.conns) :
    c < (step s i).conns ∧ ((step s i).conn c).uid = (s.conn c).uid := by
  -- an update of one connection that keeps the uid
  have hupdate : ∀ (k : ℕ) (f : Client), f.uid = (s.conn k).uid →
      ((Function.update s.conn k f) c).uid = (s.conn c).uid := by
    intro k f hu
    by_cases hk : c = k
    · subst hk
      simpa using hu
    · simp [hk]
  cases i with
  | handleConnection u =>
    simp only [step, Server.handleConnection]
    cases s.clients u with
    | none => exact ⟨hc.trans (Nat.lt_succ_self _), by simp [hc.ne]⟩
    | some e =>
      have huid := hupdate e { s.conn e with closed := true } rfl
      exact ⟨hc.trans (Nat.lt_succ_self _), by simpa [hc.ne] using huid⟩
  | register k =>
    simp only [step, Server.register]
    split_ifs
    · exact ⟨hc, hupdate k _ rfl⟩
    · exact ⟨hc, rfl⟩
  | removeClient k =>
    simp only [step, Server.removeClient]
    split_ifs
    · exact ⟨hc, hupdate k _ rfl⟩
    · exact ⟨hc, hupdate k _ rfl⟩
    · exact ⟨hc, rfl⟩
  | fire j =>
    simp only [step, Server.fire]
    split_ifs <;> exact ⟨hc, rfl⟩
  | confirmOffline j =>
    simp only [step, Server.confirmOffline]
    split_ifs <;> exact ⟨hc, rfl⟩

theorem sound_handleConnection {s : Server} (h : Sound s) (u : String) : Sound (s.handleConnection u) := by
  simp only [Server.handleConnection]
  cases he : s.clients u with
  | none =>
    refine ⟨fun v c hc => ?_, fun c hc hr => ?_⟩
    · by_cases hv : v = u
      · obtain rfl : s.conns = c := by simpa [hv] using hc
        simp [hv]
      · obtain ⟨hlt, huid, hreg, hcl⟩ := h.entry v c (by simpa [hv] using hc)
        exact ⟨hlt.trans (Nat.lt_succ_self _), by simpa [hlt.ne] using ⟨huid, hreg, hcl⟩⟩
    · by_cases hn : c = s.conns
      · simp [hn]
      · have hlt : c < s.conns := by simp only at hc; omega
        simpa [hn] using h.fresh c hlt (by simpa [hn] using hr)
  | some e =>
    obtain ⟨-, heu, hereg, -⟩ := h.entry u e he
    refine ⟨fun v c hc => ?_, fun c hc hr => ?_⟩
    · by_cases hv : v = u
      · simp [hv] at hc
      · obtain ⟨hlt, huid, hreg, hcl⟩ := h.entry v c (by simpa [hv] using hc)
        have hce : c ≠ e := by
          rintro rfl
          exact hv (huid.symm.trans heu)
        exact ⟨hlt.trans (Nat.lt_succ_self _), by simpa [hlt.ne, hce] using ⟨huid, hreg, hcl⟩⟩
    · by_cases hn : c = s.conns
      · simp [hn]
      · have hlt : c < s.conns := by simp only at hc; omega
        have hce : c ≠ e := by
          rintro rfl
          simp [hn, hereg] at hr
        simpa [hn, hce] using h.fresh c hlt (by simpa [hn, hce] using hr)

theorem sound_register {s : Server} (h : Sound s) (k : ℕ) : Sound (s.register k) := by
  simp only [Server.register]
  split_ifs with hk
  · refine ⟨fun v c hc => ?_, fun c hc hr => ?_⟩
    · by_cases hv : v = (s.conn k).uid
      · obtain rfl : k = c := by simpa [hv] using hc
        simp [hv, hk.1, h.fresh k hk.1 hk.2]
      · obtain ⟨hlt, huid, hreg, hcl⟩ := h.entry v c (by simpa [hv] using hc)
        have hck : c ≠ k := by
          rintro rfl
          exact hv huid.symm
        simpa [hck] using ⟨hlt, huid, hreg, hcl⟩
    · have hck : c ≠ k := by
        rintro rfl
        simp at hr
      simpa [hck] using h.fresh c hc (by simpa [hck] using hr)
  · exact h

theorem sound_removeClient {s : Server} (h : Sound s) (k : ℕ) : Sound (s.removeClient k) := by
  have hclosed : ∀ v c, s.clients v = some c → c ≠ k → c < s.conns ∧
      ((Function.update s.conn k { s.conn k with closed := true }) c).uid = v ∧
      ((Function.update s.conn k { s.conn k with closed := true }) c).registered ∧
      ((Function.update s.conn k { s.conn k with closed := true }) c).closed = false := by
    intro v c hc hck
    simpa [hck] using h.entry v c hc
  have hfresh : (s.conn k).registered → ∀ c < s.conns,
      ((Function.update s.conn k { s.conn k with closed := true }) c).registered = false →
      ((Function.update s.conn k { s.conn k with closed := true }) c).closed = false := by
    intro hreg c hc hr
    have hck : c ≠ k := by
      rintro rfl
      simp [hreg] at hr
    simpa [hck] using h.fresh c hc (by simpa [hck] using hr)
  simp only [Server.removeClient]
  split_ifs with hk hcur
  · refine ⟨fun v c hc => ?_, hfresh hk.2⟩
    by_cases hv : v = (s.conn k).uid
    · simp [hv] at hc
    · have hc' : s.clients v = some c := by simpa [hv] using hc
      refine hclosed v c hc' ?_
      rintro rfl
      exact hv (h.entry v c hc').2.1.symm
  · refine ⟨fun v c hc => hclosed v c hc ?_, hfresh hk.2⟩
    rintro rfl
    exact hcur (by rw [(h.entry v c hc).2.1]; exact hc)
  · exact h

theorem sound_step (s : Server) (i : Step) (h : Sound s) : Sound (step s i) := by
  cases i with
  | handleConnection u => exact sound_handleConnection h u
  | register k => exact sound_register h k
  | removeClient k => exact sound_removeClient h k
  | fire j =>
    simp only [step, Server.fire]
    split_ifs
    · exact ⟨h.entry, h.fresh⟩
    · exact h
  | confirmOffline j =>
    simp only [step, Server.confirmOffline]
    split_ifs
    · exact ⟨h.entry, h.fresh⟩
    · exact ⟨h.entry, h.fresh⟩
    · exact ⟨h.entry, h.fresh⟩
    · exact h

/-- The keys are an order in which the map can be ranged over. -/
theorem ranges_keys {s : Server} (h : Sound s) : Relay.Ranges s.clients s.keys := by
  have hmem : ∀ c, c ∈ (List.range s.conns).filter (fun c => s.clients (s.conn c).uid = some c) ↔
      c < s.conns ∧ s.clients (s.conn c).uid = some c := by
    intro c
    simp
  refine ⟨?_, fun uid => ?_⟩
  · refine List.Nodup.map_on (fun c hc c' hc' heq => ?_) (List.nodup_range.filter _)
    have h1 := ((hmem c).mp hc).2
    have h2 := ((hmem c').mp hc').2
    rw [heq] at h1
    exact Option.some.inj (h1.symm.trans h2)
  · unfold Server.keys
    rw [List.mem_map]
    constructor
    · rintro ⟨c, hc, rfl⟩
      rw [((hmem c).mp hc).2]
      simp
    · intro hin
      obtain ⟨c, hc⟩ := Option.ne_none_iff_exists'.mp hin
      obtain ⟨hlt, huid, -⟩ := h.entry uid c hc
      exact ⟨c, (hmem c).mpr ⟨hlt, by rw [huid, hc]⟩, huid⟩

theorem ranges_perm {clients : String → Option ℕ} {l l' : List String} (h : Relay.Ranges clients l)
    (hp : l'.Perm l) : Relay.Ranges clients l' :=
  ⟨hp.nodup_iff.mpr h.nodup, fun uid => (hp.mem_iff).trans (h.mem_iff uid)⟩

/-- A section that does not change the map: whoever is between the sections of `HandleConnection` stays there. -/
theorem not_alters {s : Server} {i : Step} (h : ¬ Alters s i) :
    (step s i).clients = s.clients ∧ (step s i).conns = s.conns ∧
      ∀ c, (s.conn c).registered = false → ((step s i).conn c).registered = false := by
  cases i with
  | handleConnection u => exact absurd trivial h
  | register k =>
    have hk : ¬ (k < s.conns ∧ (s.conn k).registered = false) := by
      intro hk
      exact h (by simp [Alters, started, hk])
    simp [step, Server.register, if_neg hk]
  | removeClient k =>
    have hk : ¬ s.Removes k := by
      intro hk
      exact h (by simp [Alters, started, hk])
    refine ⟨(removeClient_of_not s hk).1, (removeClient_kept s k).2.1, fun c hr => ?_⟩
    simp only [step, Server.removeClient]
    have hupdate : ((Function.update s.conn k { s.conn k with closed := true }) c).registered = false := by
      by_cases hck : c = k
      · subst hck
        simpa using hr
      · simpa [hck] using hr
    split_ifs
    · exact hupdate
    · exact hupdate
    · exact hr
  | fire j =>
    simp only [step, Server.fire]
    split_ifs <;> simp
  | confirmOffline j =>
    simp only [step, Server.confirmOffline]
    split_ifs <;> simp

namespace Lists

/-- A section of the registry, a `list-clients` of a connection, a `close()`, and the next section of the call
number `n`; where that reads the map, `order` is the order in which it is ranged over. -/
inductive Step
  | server (i : Registry.Step)
  | listClients (c : ℕ)
  | close (c : ℕ)
  | proceed (n : ℕ) (order : List String)
  deriving DecidableEq, Repr

/-- The call number `n` becomes `rest`. -/
def becomes (calls : List Call) (n : ℕ) (rest : List Call) : List Call := calls.take n ++ rest ++ calls.drop (n + 1)

/-- The list that is read now. -/
def taken (x : Lists) (order : List String) : ClientList :=
  { uids := if order.Perm x.server.keys then order else x.server.keys, stamp := x.changes }

/-- `trySend` of a list to the connections of a set. -/
def sent (x : Lists) (targets : ℕ → Bool) (list : ClientList) : ℕ → List ClientList :=
  fun c => if targets c && !x.shut c then x.lists c ++ [list] else x.lists c

/-- The next section of a call. -/
def proceed (x : Lists) (n : ℕ) (order : List String) : Call → Lists
  | .sendRegisteredMessage c =>
    { x with calls := becomes x.calls n (if x.shut c then [] else [.sendClientList c true]) }
  | .sendClientList c more => { x with calls := becomes x.calls n [.sendTaken c (x.taken order) more] }
  | .sendTaken c list more =>
    { x with
      calls := becomes x.calls n (if more then [.broadcastClientList] else [])
      lists := x.sent (fun c' => c' = c) list }
  | .broadcastClientList => { x with calls := becomes x.calls n [.broadcastTaken (x.taken order)] }
  | .broadcastTaken list =>
    { x with
      calls := becomes x.calls n []
      lists := x.sent (fun c => x.server.Current c) list }

def step (x : Lists) : Step → Lists
  | .server i =>
    { x with
      server := Registry.step x.server i
      calls := x.calls ++ started x.server i
      changes := if Alters x.server i then x.changes + 1 else x.changes }
  | .listClients c => if c < x.server.conns then { x with calls := x.calls ++ [.sendClientList c false] } else x
  -- a connection that has been replaced or removed is closed, and so is one whose own `writePump` has ended
  | .close c =>
    if c < x.server.conns ∧ (x.server.conn c).registered then
      { x with shut := Function.update x.shut c true }
    else x
  | .proceed n order =>
    match x.calls[n]? with
    | none => x
    | some call => x.proceed n order call

/-- The stamp of the last list that a connection has been sent. -/
def newest (x : Lists) (c : ℕ) : ℕ := ((x.lists c).getLast?.map ClientList.stamp).getD 0

/-- A step that sends a registered connection nothing in vain and no old list: when something is sent to it, it
has not been closed, and it has not been sent a newer list. -/
def InOrder (x : Lists) : Step → Prop
  | .proceed n _ =>
    ∀ call ∈ x.calls[n]?, ∀ c < x.server.conns, x.server.Current c →
      (call.serves c → x.shut c = false) ∧ ∀ list ∈ call.sends c, x.newest c ≤ list.stamp
  | _ => True

instance (x : Lists) : ∀ i : Step, Decidable (x.InOrder i)
  | .proceed n _ => inferInstanceAs (Decidable (∀ call ∈ x.calls[n]?, ∀ c < x.server.conns, x.server.Current c →
      (call.serves c → x.shut c = false) ∧ ∀ list ∈ call.sends c, x.newest c ≤ list.stamp))
  | .server _ | .listClients _ | .close _ => inferInstanceAs (Decidable True)

/-- No goroutine is in any of the calls, and no `HandleConnection` is between its sections. -/
def Quiescent (x : Lists) : Prop := x.calls = [] ∧ ∀ c < x.server.conns, (x.server.conn c).registered

instance (x : Lists) : Decidable x.Quiescent := by unfold Quiescent; infer_instance

/-- The last list that each registered connection has been sent names exactly the keys of the map. -/
def Converged (x : Lists) : Prop :=
  ∀ uid c, x.server.clients uid = some c →
    ∃ list, (x.lists c).getLast? = some list ∧ Relay.Ranges x.server.clients list.uids

/-! ### The newest list is on its way -/

/-- The call is going to send a list of the map as it is now to every registered connection. -/
def Fresh (x : Lists) : Call → Prop
  | .sendRegisteredMessage c => x.server.Current c
  | .sendClientList _ more => more
  | .sendTaken _ _ more => more
  | .broadcastClientList => True
  | .broadcastTaken list => list.stamp = x.changes

/-- Somebody is going to. -/
def Promised (x : Lists) : Prop :=
  (∃ c < x.server.conns, (x.server.conn c).registered = false) ∨ ∃ call ∈ x.calls, x.Fresh call

/-- The lists that a call holds. -/
def holds : Call → Option ClientList
  | .sendTaken _ list _ => some list
  | .broadcastTaken list => some list
  | _ => none

/-- A list was read at some time, and names the keys of the map if that has not changed since. -/
def Valid (x : Lists) (list : ClientList) : Prop :=
  list.stamp ≤ x.changes ∧ (list.stamp = x.changes → Relay.Ranges x.server.clients list.uids)

/-- The connection has been sent a list of the map as it is now. -/
def UpToDate (x : Lists) (c : ℕ) : Prop := ∃ list, (x.lists c).getLast? = some list ∧ list.stamp = x.changes

structure Inv (x : Lists) : Prop where
  sound : Sound x.server
  held : ∀ call ∈ x.calls, ∀ list ∈ holds call, x.Valid list
  sent : ∀ c, ∀ list ∈ x.lists c, x.Valid list
  news : x.Promised ∨ ∀ uid c, x.server.clients uid = some c → x.UpToDate c

theorem mem_becomes {calls rest : List Call} {n : ℕ} {call old : Call} (hn : calls[n]? = some old) :
    (call ∈ becomes calls n rest → call ∈ calls ∨ call ∈ rest) ∧
      (call ∈ calls → call = old ∨ call ∈ becomes calls n rest) ∧ (call ∈ rest → call ∈ becomes calls n rest) := by
  obtain ⟨hlt, rfl⟩ := List.getElem?_eq_some_iff.mp hn
  have hsplit : calls = calls.take n ++ calls[n] :: calls.drop (n + 1) := by simp
  refine ⟨fun h => ?_, fun h => ?_, fun h => ?_⟩
  · simp only [becomes, List.mem_append] at h
    rcases h with (h | h) | h
    · exact .inl (List.mem_of_mem_take h)
    · exact .inr h
    · exact .inl (List.mem_of_mem_drop h)
  · rw [hsplit] at h
    simp only [List.mem_append, List.mem_cons] at h
    simp only [becomes, List.mem_append]
    tauto
  · simp only [becomes, List.mem_append]
    exact .inl (.inr h)

theorem promised_of_alters {x : Lists} {i : Registry.Step} (h : Alters x.server i) :
    (x.step (.server i)).Promised := by
  have hcall : ∀ call ∈ started x.server i, (x.step (.server i)).Fresh call → (x.step (.server i)).Promised :=
    fun call hcall hfresh => .inr ⟨call, List.mem_append_right _ hcall, hfresh⟩
  cases i with
  | handleConnection u =>
    cases hc : x.server.clients u with
    | none =>
      refine hcall (.sendRegisteredMessage x.server.conns) (by simp [started, hc]) ?_
      simp [Fresh, Server.Current, Lists.step, Registry.step, Server.handleConnection, hc]
    | some e =>
      refine .inl ⟨x.server.conns, ?_⟩
      simp [Lists.step, Registry.step, Server.handleConnection, hc]
  | register k =>
    have hk : k < x.server.conns ∧ (x.server.conn k).registered = false := by
      by_contra hk
      exact h (by simp only [started, if_neg hk])
    refine hcall (.sendRegisteredMessage k) (by simp [started, hk]) ?_
    simp [Fresh, Server.Current, Lists.step, Registry.step, Server.register, hk]
  | removeClient k =>
    have hk : x.server.Removes k := by
      by_contra hk
      exact h (by simp only [started, if_neg hk])
    exact hcall .broadcastClientList (by simp [started, hk]) trivial
  | fire j => exact absurd rfl h
  | confirmOffline j => exact absurd rfl h

/-- The calls that start have not read the map yet. -/
theorem holds_started {s : Server} {i : Registry.Step} {call : Call} (h : call ∈ started s i) : holds call = none := by
  cases i with
  | handleConnection u =>
    simp only [started] at h
    split_ifs at h <;> simp at h
    simp [h, holds]
  | register k =>
    simp only [started] at h
    split_ifs at h <;> simp at h
    simp [h, holds]
  | removeClient k =>
    simp only [started] at h
    split_ifs at h <;> simp at h
    simp [h, holds]
  | fire j => simp [started] at h
  | confirmOffline j => simp [started] at h

theorem inv_server {x : Lists} (h : Inv x) (i : Registry.Step) : Inv (x.step (.server i)) := by
  have hsound := sound_step x.server i h.sound
  by_cases hal : Alters x.server i
  · -- every list is out of date, and a new one is on its way
    have hch : (x.step (.server i)).changes = x.changes + 1 := if_pos hal
    have hvalid : ∀ list, x.Valid list → (x.step (.server i)).Valid list := by
      intro list hl
      exact ⟨by rw [hch]; exact hl.1.trans (Nat.le_succ _), fun heq => absurd hl.1 (by rw [heq, hch]; omega)⟩
    refine ⟨hsound, fun call hcall list hl => ?_, fun c list hl => hvalid list (h.sent c list hl),
      .inl (promised_of_alters hal)⟩
    rcases List.mem_append.mp hcall with hcall | hcall
    · exact hvalid list (h.held call hcall list hl)
    · rw [holds_started hcall] at hl
      simp at hl
  · obtain ⟨hclients, hconns, hunreg⟩ := not_alters hal
    have hch : (x.step (.server i)).changes = x.changes := if_neg hal
    have hvalid : ∀ list, x.Valid list → (x.step (.server i)).Valid list := by
      intro list hl
      rw [Valid, hch]
      exact ⟨hl.1, fun heq => hclients ▸ hl.2 heq⟩
    refine ⟨hsound, fun call hcall list hl => ?_, fun c list hl => hvalid list (h.sent c list hl), ?_⟩
    · rcases List.mem_append.mp hcall with hcall | hcall
      · exact hvalid list (h.held call hcall list hl)
      · rw [holds_started hcall] at hl
        simp at hl
    · refine h.news.imp (fun hprom => ?_) fun hup uid c hc => ?_
      · rcases hprom with ⟨c, hc, hr⟩ | ⟨call, hcall, hfresh⟩
        · exact .inl ⟨c, hconns ▸ hc, hunreg c hr⟩
        · refine .inr ⟨call, List.mem_append_left _ hcall, ?_⟩
          cases call with
          | sendRegisteredMessage c =>
            obtain ⟨hlt, hcur⟩ := hfresh
            obtain ⟨hlt', huid⟩ := conn_kept x.server i hlt
            refine ⟨hlt', ?_⟩
            show (Registry.step x.server i).clients ((Registry.step x.server i).conn c).uid = some c
            rw [huid, hclients, hcur]
          | broadcastTaken list => exact Eq.trans hfresh hch.symm
          | sendClientList c more => exact hfresh
          | sendTaken c list more => exact hfresh
          | broadcastClientList => trivial
      · obtain ⟨list, hlast, hst⟩ := hup uid c (by rw [← hclients]; exact hc)
        exact ⟨list, hlast, hst.trans hch.symm⟩

section Proceed

variable {x : Lists} {n : ℕ} {old : Call} {rest : List Call}

/-- A call goes on to something that keeps its promise, without sending anything. -/
theorem inv_becomes (h : Inv x) (hn : x.calls[n]? = some old)
    (hrest : ∀ call ∈ rest, ∀ list ∈ holds call, x.Valid list)
    (hfresh : x.Fresh old → ∃ call ∈ rest, x.Fresh call) : Inv { x with calls := becomes x.calls n rest } := by
  refine ⟨h.sound, fun call hcall list hl => ?_, h.sent, h.news.imp (fun hprom => ?_) id⟩
  · rcases (mem_becomes hn).1 hcall with hcall | hcall
    · exact h.held call hcall list hl
    · exact hrest call hcall list hl
  · rcases hprom with hunreg | ⟨call, hcall, hf⟩
    · exact .inl hunreg
    · rcases (mem_becomes hn).2.1 hcall with rfl | hcall'
      · obtain ⟨call', hcall', hf'⟩ := hfresh hf
        exact .inr ⟨call', (mem_becomes hn).2.2 hcall', hf'⟩
      · exact .inr ⟨call, hcall', hf⟩

theorem mem_sent {targets : ℕ → Bool} {list l : ClientList} {c : ℕ} (h : l ∈ x.sent targets list c) :
    l ∈ x.lists c ∨ l = list := by
  unfold sent at h
  split_ifs at h
  · simpa using h
  · exact .inl h

/-- A connection that is up to date stays so when the lists that it is sent are in order. -/
theorem upToDate_sent {targets : ℕ → Bool} {list : ClientList} (hl : x.Valid list) {c : ℕ}
    (horder : targets c → x.shut c = false ∧ x.newest c ≤ list.stamp)
    (hup : x.UpToDate c ∨ list.stamp = x.changes ∧ targets c) :
    ∃ l, (x.sent targets list c).getLast? = some l ∧ l.stamp = x.changes := by
  unfold sent
  by_cases htarget : targets c
  · obtain ⟨hopen, hnewest⟩ := horder htarget
    refine ⟨list, by simp [htarget, hopen], ?_⟩
    rcases hup with ⟨l, hlast, hst⟩ | ⟨hst, -⟩
    · -- the list is at least as new as the last one, which is as new as can be
      have hnew : x.newest c = x.changes := by simp [newest, hlast, hst]
      have := hl.1
      omega
    · exact hst
  · rcases hup with ⟨l, hlast, hst⟩ | ⟨-, ht⟩
    · exact ⟨l, by simp [htarget, hlast], hst⟩
    · exact absurd ht htarget

/-- A call sends a list, in order. -/
theorem inv_sent (h : Inv x) (hn : x.calls[n]? = some old) {targets : ℕ → Bool} {list : ClientList}
    (hl : x.Valid list) (hrest : ∀ call ∈ rest, holds call = none)
    (horder : ∀ uid c, x.server.clients uid = some c → targets c → x.shut c = false ∧ x.newest c ≤ list.stamp)
    (hfresh : x.Fresh old → (∃ call ∈ rest, x.Fresh call) ∨
      ∀ uid c, x.server.clients uid = some c → list.stamp = x.changes ∧ targets c) :
    Inv { x with calls := becomes x.calls n rest, lists := x.sent targets list } := by
  have hall : (∀ uid c, x.server.clients uid = some c → x.UpToDate c ∨ list.stamp = x.changes ∧ targets c) →
      ∀ uid c, x.server.clients uid = some c → UpToDate { x with
        calls := becomes x.calls n rest, lists := x.sent targets list } c :=
    fun hup uid c hc => upToDate_sent hl (horder uid c hc) (hup uid c hc)
  refine ⟨h.sound, fun call hcall l hl' => ?_, fun c l hl' => ?_, ?_⟩
  · rcases (mem_becomes hn).1 hcall with hcall | hcall
    · exact h.held call hcall l hl'
    · rw [hrest call hcall] at hl'
      simp at hl'
  · rcases mem_sent hl' with hl' | rfl
    · exact h.sent c l hl'
    · exact hl
  · rcases h.news with hprom | hup
    · rcases hprom with hunreg | ⟨call, hcall, hf⟩
      · exact .inl (.inl hunreg)
      · rcases (mem_becomes hn).2.1 hcall with rfl | hcall'
        · rcases hfresh hf with ⟨call', hcall', hf'⟩ | hsent
          · exact .inl (.inr ⟨call', (mem_becomes hn).2.2 hcall', hf'⟩)
          · exact .inr (hall fun uid c hc => .inr (hsent uid c hc))
        · exact .inl (.inr ⟨call, hcall', hf⟩)
    · exact .inr (hall fun uid c hc => .inl (hup uid c hc))

/-- A list that is read now names the keys of the map. -/
theorem valid_taken (h : Inv x) (order : List String) : x.Valid (x.taken order) := by
  refine ⟨le_rfl, fun _ => ?_⟩
  have hkeys := ranges_keys h.sound
  unfold taken
  dsimp only
  split_ifs with hp
  · exact ranges_perm hkeys hp
  · exact hkeys

theorem inv_proceed (h : Inv x) (order : List String) (hn : x.calls[n]? = some old)
    (hok : x.InOrder (.proceed n order)) : Inv (x.proceed n order old) := by
  have hvalid : ∀ list ∈ holds old, x.Valid list := h.held old (List.mem_of_getElem? hn)
  have horder : ∀ uid c, x.server.clients uid = some c →
      (old.serves c → x.shut c = false) ∧ ∀ list ∈ old.sends c, x.newest c ≤ list.stamp := by
    intro uid c hc
    obtain ⟨hlt, huid, -⟩ := h.sound.entry uid c hc
    exact hok old hn c hlt ⟨hlt, by rw [huid, hc]⟩
  cases old with
  | sendRegisteredMessage c =>
    refine inv_becomes h hn (fun call hcall => ?_) fun hf => ?_
    · split_ifs at hcall
      · simp at hcall
      · simp [List.mem_singleton.mp hcall, holds]
    · have hopen : x.shut c = false := (horder _ c hf.2).1 (by simp [Call.serves])
      rw [if_neg (by simp [hopen])]
      exact ⟨_, List.mem_singleton_self _, rfl⟩
  | sendClientList c more =>
    refine inv_becomes h hn (fun call hcall list hl => ?_) fun hf => ⟨_, List.mem_singleton_self _, hf⟩
    obtain rfl := List.mem_singleton.mp hcall
    obtain rfl := Option.some.inj hl
    exact valid_taken h order
  | sendTaken c list more =>
    refine inv_sent h hn (hvalid list rfl) (fun call hcall => ?_) (fun uid c' hc ht => ?_) fun hf => .inl ?_
    · split_ifs at hcall
      · simp [List.mem_singleton.mp hcall, holds]
      · simp at hcall
    · obtain rfl : c' = c := by simpa using ht
      obtain ⟨hopen, hnewest⟩ := horder uid c' hc
      exact ⟨hopen (by simp [Call.serves]), hnewest list (by simp [Call.sends])⟩
    · rw [if_pos (show more = true from hf)]
      exact ⟨_, List.mem_singleton_self _, trivial⟩
  | broadcastClientList =>
    refine inv_becomes h hn (fun call hcall list hl => ?_) fun _ => ⟨_, List.mem_singleton_self _, rfl⟩
    obtain rfl := List.mem_singleton.mp hcall
    obtain rfl := Option.some.inj hl
    exact valid_taken h order
  | broadcastTaken list =>
    refine inv_sent h hn (hvalid list rfl) (by simp) (fun uid c hc _ => ?_)
      fun hf => .inr fun uid c hc => ⟨hf, ?_⟩
    · obtain ⟨hopen, hnewest⟩ := horder uid c hc
      exact ⟨hopen rfl, hnewest list rfl⟩
    · obtain ⟨hlt, huid, -⟩ := h.sound.entry uid c hc
      exact decide_eq_true ⟨hlt, by rw [huid, hc]⟩

end Proceed

theorem inv_step (x : Lists) (i : Step) (h : Inv x) (hok : x.InOrder i) : Inv (x.step i) := by
  cases i with
  | server i => exact inv_server h i
  | listClients c =>
    simp only [step]
    split_ifs
    · refine ⟨h.sound, fun call hcall list hl => ?_, h.sent, h.news.imp (fun hprom => ?_) id⟩
      · rcases List.mem_append.mp hcall with hcall | hcall
        · exact h.held call hcall list hl
        · rw [List.mem_singleton.mp hcall] at hl
          simp [holds] at hl
      · exact hprom.imp id fun ⟨call, hcall, hf⟩ => ⟨call, List.mem_append_left _ hcall, hf⟩
    · exact h
  | close c =>
    simp only [step]
    split_ifs
    · exact ⟨h.sound, h.held, h.sent, h.news⟩
    · exact h
  | proceed n order =>
    simp only [step]
    cases hn : x.calls[n]? with
    | none => exact h
    | some call => exact inv_proceed h order hn hok

theorem inv_init : Inv {} :=
  ⟨⟨by simp, by simp⟩, by simp, by simp, .inr (by simp)⟩

/-- **Client lists converge**, in every run in which what is sent to a registered connection finds it open and no
list is older than the one it has: whenever no call is under way, the last list that each registered connection has
been sent names exactly the uids in the map, each once. -/
theorem lists_converge (l : List Step) (hl : Meets step InOrder {} l) (hq : Quiescent (run step {} l)) :
    Converged (run step {} l) := by
  have hinv : Inv (run step {} l) := run_invariant inv_step inv_init hl
  generalize run step {} l = x at hinv hq
  obtain ⟨hcalls, hreg⟩ := hq
  intro uid c hc
  rcases hinv.news with (⟨c', hlt, hr⟩ | ⟨call, hcall, -⟩) | hup
  · rw [hreg c' hlt] at hr
    exact absurd hr (by decide)
  · rw [hcalls] at hcall
    exact absurd hcall List.not_mem_nil
  · obtain ⟨list, hlast, hst⟩ := hup uid c hc
    exact ⟨list, hlast, (hinv.sent c list (List.mem_of_getLast? hlast)).2 hst⟩

/-- Alice asks for the list, and Bob leaves. -/
def bobLeaves : List Step :=
  [.server (.handleConnection "alice"), .server (.handleConnection "bob")] ++ List.replicate 10 (Step.proceed 0 []) ++
    [Step.listClients 0, .proceed 0 [], .proceed 0 [], .server (.removeClient 1), .proceed 0 [], .proceed 0 []]

theorem alice_is_up_to_date : Converged (run step {} bobLeaves) :=
  lists_converge bobLeaves (by decide) (by decide)

/-- Alice asks for the list just before Bob leaves, and is sent what she asked for after what the others are
sent. -/
def overtaken : List Step :=
  [.server (.handleConnection "alice"), .server (.handleConnection "bob")] ++ List.replicate 10 (Step.proceed 0 []) ++
    [Step.listClients 0, .proceed 0 [], .server (.removeClient 1), .proceed 1 [], .proceed 1 [], .proceed 0 []]

/-- **Not in general.** -/
theorem old_list_stays :
    ¬ ∀ l : List Step, Quiescent (run step {} l) → Converged (run step {} l) := by
  intro h
  obtain ⟨list, hlast, hranges⟩ := h overtaken (by decide) "alice" 0 (by decide)
  have hlist : ((run step {} overtaken).lists 0).getLast? = some { uids := ["alice", "bob"], stamp := 2 } := by
    decide
  obtain rfl : _ = list := Option.some.inj (hlist.symm.trans hlast)
  exact (hranges.mem_iff "bob").mp (by decide) (by decide)

/-- Nor when a registered connection is closed: nobody is told of Bob, whose `writePump` fails before his first
message, until his `readPump` ends too. -/
example :
    let x := run step {} ([.server (.handleConnection "alice")] ++ List.replicate 5 (Step.proceed 0 []) ++
      [.server (.handleConnection "bob"), .close 1, .proceed 0 []])
    Quiescent x ∧ x.server.clients "bob" = some 1 ∧
      (x.lists 0).getLast? = some { uids := ["alice"], stamp := 1 } := by
  decide

end Lists

end PeerCall.Registry
