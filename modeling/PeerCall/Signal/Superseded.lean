import PeerCall.Signal.Client

/-!
# Signal.Superseded — late completions of a transport that is no longer current

A handler does not know whose operation it completes.  `Harmless` lists the completions of a superseded
transport that change nothing that matters; `Quiet` asks it of every handler that runs for one, and of a
handshake that succeeds that no reconnect wait has been armed before it.  Under that condition nothing
dereferences a null websocket, a disconnected client stays disconnected, and an established connection only
goes down by an error of its own.
-/

namespace PeerCall.Signal

open PeerCall.Lib

/-- `AttemptReconnect` returns at once. -/
def Client.GivesUp (s : Client) : Prop :=
  s.manualDisconnect = true ∨ s.reconnectAttempts ≥ kMaxReconnectAttempts

instance (s : Client) : Decidable s.GivesUp := by unfold Client.GivesUp; infer_instance

/-- The completions of a superseded transport that do no harm: an aborted wait, a finished write, a
finished read when there is no transport to read from, and the aborted operations of a client that does
not reconnect (and is not connected, for those whose handler reports a disconnection). -/
def Harmless (s : Client) (o : Operation) : Prop :=
  match o.status, o.kind with
  | .pending, _ => True
  | .ok, .write => True
  | .ok, .read => s.transport = none
  | .ok, _ => False
  | .error, .timer => True
  | .error, .read => s.isConnected = false ∧ s.GivesUp
  | .error, .write => s.isConnected = false ∧ s.GivesUp
  | .error, _ => s.GivesUp

instance (s : Client) (o : Operation) : Decidable (Harmless s o) := by
  unfold Harmless; split <;> infer_instance

/-- A reconnect wait of the transport `t` is outstanding, and has not been aborted. -/
def Client.Armed (s : Client) (t : ℕ) : Prop :=
  ∃ o ∈ s.operations, o.transport = t ∧ o.kind = .timer ∧ o.status ≠ .error

instance (s : Client) (t : ℕ) : Decidable (s.Armed t) := by unfold Client.Armed; infer_instance

/-- A handler that runs for a superseded transport finds the client in a state where it does no harm; and a
handshake succeeds before a write that was too early has armed the reconnect timer. -/
def Quiet (s : Client) : Step → Prop
  | .handler n _ =>
    match s.operations[n]? with
    | none => True
    | some o =>
      (s.transport ≠ some o.transport → Harmless s o) ∧
        (o.kind = .handshake ∧ o.status = .ok → ¬ s.Armed o.transport)
  | _ => True

instance (s : Client) (i : Step) : Decidable (Quiet s i) := by
  unfold Quiet; split <;> try infer_instance
  split <;> infer_instance

/-- The operations other than writes. -/
def Client.others (s : Client) : List Operation := s.operations.filter fun o => o.kind ≠ .write

/-- `s'` differs from `s` in the outgoing messages at most: no crash, the same flags, the same transport,
and no operation but a write has been started. -/
structure Unaffected (s s' : Client) : Prop where
  crashed : s'.crashed = s.crashed
  isConnected : s'.isConnected = s.isConnected
  manualDisconnect : s'.manualDisconnect = s.manualDisconnect
  reconnectAttempts : s'.reconnectAttempts = s.reconnectAttempts
  transport : s'.transport = s.transport
  transports : s'.transports = s.transports
  launched : s'.launched = s.launched
  others : s'.others = s.others

theorem Unaffected.refl (s : Client) : Unaffected s s := ⟨rfl, rfl, rfl, rfl, rfl, rfl, rfl, rfl⟩

theorem Unaffected.trans {s t u : Client} (h : Unaffected s t) (h' : Unaffected t u) : Unaffected s u :=
  ⟨h'.crashed.trans h.crashed, h'.isConnected.trans h.isConnected,
    h'.manualDisconnect.trans h.manualDisconnect, h'.reconnectAttempts.trans h.reconnectAttempts,
    h'.transport.trans h.transport, h'.transports.trans h.transports, h'.launched.trans h.launched,
    h'.others.trans h.others⟩

theorem attemptReconnect_of_givesUp {s : Client} (h : s.GivesUp) : s.attemptReconnect = s := if_pos h

theorem unaffected_writeNextMessage (s : Client) : Unaffected s s.writeNextMessage := by
  unfold Client.writeNextMessage
  cases ht : s.transport with
  | none => exact .refl s
  | some t =>
    dsimp only
    split_ifs
    · exact .refl s
    · refine ⟨rfl, rfl, rfl, rfl, rfl, rfl, by simp [Client.start], ?_⟩
      simp [Client.others, Client.start]

theorem unaffected_enqueue (s : Client) (m : Outgoing) : Unaffected s (s.enqueue m) := by
  unfold Client.enqueue
  split
  · exact .refl s
  · dsimp only
    split_ifs
    · exact Unaffected.trans (t := { s with writeQueue := s.writeQueue ++ [m] })
        ⟨rfl, rfl, rfl, rfl, rfl, rfl, rfl, rfl⟩ (unaffected_writeNextMessage _)
    · exact ⟨rfl, rfl, rfl, rfl, rfl, rfl, rfl, rfl⟩

theorem startRead_none {s : Client} (h : s.transport = none) : s.startRead = s := by
  simp [Client.startRead, h]

/-- A harmless completion changes nothing that matters. -/
theorem unaffected_handle {s : Client} {o : Operation} (h : Harmless s o) (r : Bool) :
    Unaffected s (s.handle o r) := by
  obtain ⟨t, kind, status⟩ := o
  cases status with
  | pending => exact .refl s
  | ok =>
    cases kind with
    | write =>
      exact Unaffected.trans (t := { s with writeQueue := s.writeQueue.tail })
        ⟨rfl, rfl, rfl, rfl, rfl, rfl, rfl, rfl⟩ (unaffected_writeNextMessage _)
    | read =>
      have ht : s.transport = none := h
      cases r with
      | false =>
        rw [show s.handle ⟨t, .read, .ok⟩ false = s.startRead from rfl, startRead_none ht]
        exact .refl s
      | true =>
        rw [show s.handle ⟨t, .read, .ok⟩ true = (s.queueJsonMessage (.listClients s.clientId)).startRead from rfl,
          startRead_none (by exact ht)]
        exact ⟨rfl, rfl, rfl, rfl, rfl, rfl, rfl, rfl⟩
    | resolve => exact absurd h id
    | connect => exact absurd h id
    | handshake => exact absurd h id
    | timer => exact absurd h id
  | error =>
    cases kind with
    | timer => exact .refl s
    | read =>
      obtain ⟨hc, hg⟩ : s.isConnected = false ∧ s.GivesUp := h
      simp only [Client.handle, Client.onError]
      rw [attemptReconnect_of_givesUp (by exact hg)]
      exact ⟨rfl, by simp [Client.reportDisconnected, hc], rfl, rfl, rfl, rfl, rfl, rfl⟩
    | write =>
      obtain ⟨hc, hg⟩ : s.isConnected = false ∧ s.GivesUp := h
      simp only [Client.handle, Client.onError]
      rw [attemptReconnect_of_givesUp (by exact hg)]
      exact ⟨rfl, by simp [Client.reportDisconnected, hc], rfl, rfl, rfl, rfl, rfl, rfl⟩
    | resolve | connect | handshake =>
      have hg : s.GivesUp := h
      simp only [Client.handle, Client.onError]
      rw [attemptReconnect_of_givesUp (by exact hg)]
      exact ⟨rfl, rfl, rfl, rfl, rfl, rfl, rfl, rfl⟩

/-! ### The operations on a transport -/

theorem mem_cancel {s : Client} {t : ℕ} {p : Kind → Bool} {o : Operation}
    (h : o ∈ (s.cancel t p).operations) :
    ∃ o' ∈ s.operations, o'.transport = o.transport ∧ o'.kind = o.kind := by
  obtain ⟨o', ho', rfl⟩ := List.mem_map.mp h
  refine ⟨o', ho', ?_⟩
  split_ifs <;> exact ⟨rfl, rfl⟩

theorem closeTransport_transport (s : Client) : s.closeTransport.transport = none := by
  unfold Client.closeTransport
  split
  · assumption
  · rfl

theorem closeTransport_flags (s : Client) :
    s.closeTransport.manualDisconnect = s.manualDisconnect ∧ s.closeTransport.launched = s.launched ∧
      s.closeTransport.transports = s.transports := by
  unfold Client.closeTransport
  split <;> exact ⟨rfl, rfl, rfl⟩

/-- The client with the operation `n` taken off the list, as its handler finds it. -/
def Client.without (s : Client) (n : ℕ) : Client := { s with operations := s.operations.eraseIdx n }

theorem step_handler {s : Client} (hc : s.crashed = false) {n : ℕ} {o : Operation}
    (ho : s.operations[n]? = some o) (hp : o.status ≠ .pending) (r : Bool) :
    step s (.handler n r) = (s.without n).handle o r := by
  simp [step_live hc, Client.take, ho, hp, Client.without]

/-- A handler step does nothing, or runs the handler of an operation that has completed. -/
theorem step_handler_cases {s : Client} (hc : s.crashed = false) (n : ℕ) (r : Bool) :
    step s (.handler n r) = s ∨
      ∃ o, s.operations[n]? = some o ∧ o.status ≠ .pending ∧
        step s (.handler n r) = (s.without n).handle o r := by
  cases ho : s.operations[n]? with
  | none => exact Or.inl (by simp [step_live hc, Client.take, ho])
  | some o =>
    by_cases hp : o.status = .pending
    · exact Or.inl (by simp [step_live hc, Client.take, ho, hp])
    · exact Or.inr ⟨o, rfl, hp, step_handler hc ho hp r⟩

/-- Operations are on transports that have been made. -/
structure Numbered (s : Client) : Prop where
  operations : ∀ o ∈ s.operations, o.transport < s.transports
  transport : ∀ t, s.transport = some t → t < s.transports

section Numbered

variable {s : Client}

theorem Numbered.start (h : Numbered s) {t : ℕ} (ht : t < s.transports) (kind : Kind) : Numbered (s.start t kind) := by
  refine ⟨fun o ho => ?_, h.transport⟩
  rcases List.mem_append.mp ho with ho | ho
  · exact h.operations o ho
  · rw [List.mem_singleton.mp ho]
    exact ht

theorem Numbered.cancel (h : Numbered s) (t : ℕ) (p : Kind → Bool) : Numbered (s.cancel t p) := by
  refine ⟨fun o ho => ?_, h.transport⟩
  obtain ⟨o', ho', ht, -⟩ := mem_cancel ho
  exact ht ▸ h.operations o' ho'

theorem Numbered.closeTransport (h : Numbered s) : Numbered s.closeTransport := by
  unfold Client.closeTransport
  split
  · exact ⟨h.operations, h.transport⟩
  · rename_i t _
    exact ⟨(h.cancel t fun _ => true).operations, fun t ht => absurd ht (by simp)⟩

theorem Numbered.recreateTransport (h : Numbered s) : Numbered s.recreateTransport := by
  refine ⟨fun o ho => (h.operations o ho).trans (Nat.lt_succ_self _), fun t ht => ?_⟩
  obtain rfl : s.transports = t := Option.some.inj ht
  exact Nat.lt_succ_self _

theorem Numbered.connectOnIoThread (h : Numbered s) : Numbered s.connectOnIoThread := by
  have hnew := h.closeTransport.recreateTransport
  unfold Client.connectOnIoThread
  dsimp only
  split
  · exact hnew
  · refine hnew.start ?_ _
    rw [← (closeTransport_flags s).2.2]
    exact Nat.lt_succ_self _

theorem Numbered.startRead (h : Numbered s) : Numbered s.startRead := by
  unfold Client.startRead
  split
  · exact h
  · exact h.start (h.transport _ ‹_›) _

theorem Numbered.startOnWebsocket (h : Numbered s) (kind : Kind) : Numbered (s.startOnWebsocket kind) := by
  unfold Client.startOnWebsocket
  split
  · exact ⟨h.operations, h.transport⟩
  · exact h.start (h.transport _ ‹_›) _

theorem Numbered.writeNextMessage (h : Numbered s) : Numbered s.writeNextMessage := by
  unfold Client.writeNextMessage
  split
  · exact h
  · split_ifs
    · exact h
    · exact h.start (h.transport _ ‹_›) _

theorem Numbered.enqueue (h : Numbered s) (m : Outgoing) : Numbered (s.enqueue m) := by
  have hqueue : Numbered { s with writeQueue := s.writeQueue ++ [m] } := ⟨h.operations, h.transport⟩
  unfold Client.enqueue
  split
  · exact h
  · dsimp only
    split_ifs
    · exact hqueue.writeNextMessage
    · exact hqueue

theorem Numbered.attemptReconnect (h : Numbered s) : Numbered s.attemptReconnect := by
  have hattempt : Numbered { s with reconnectAttempts := s.reconnectAttempts + 1 } := ⟨h.operations, h.transport⟩
  unfold Client.attemptReconnect
  split_ifs
  · exact h
  · dsimp only
    split
    · exact hattempt
    · exact (hattempt.cancel _ _).start (h.transport _ ‹_›) _

theorem Numbered.handle (h : Numbered s) (o : Operation) (r : Bool) : Numbered (s.handle o r) := by
  obtain ⟨t, kind, status⟩ := o
  have hdown : Numbered s.reportDisconnected := ⟨h.operations, h.transport⟩
  cases status with
  | pending => exact h
  | ok =>
    cases kind with
    | resolve => exact h.startOnWebsocket .connect
    | connect => exact h.startOnWebsocket .handshake
    | handshake =>
      have hqueue : Numbered ({ s with isConnected := true, reconnectAttempts := 0 }.queueJsonMessage
          (.register s.clientId)) := ⟨h.operations, h.transport⟩
      exact hqueue.startRead
    | read =>
      have hqueue : Numbered (if r then s.queueJsonMessage (.listClients s.clientId) else s) := by
        split_ifs
        · exact ⟨h.operations, h.transport⟩
        · exact h
      exact hqueue.startRead
    | write =>
      have htail : Numbered { s with writeQueue := s.writeQueue.tail } := ⟨h.operations, h.transport⟩
      exact htail.writeNextMessage
    | timer => exact h.connectOnIoThread
  | error =>
    cases kind with
    | timer => exact h
    | read | write => exact hdown.attemptReconnect
    | resolve | connect | handshake => exact h.attemptReconnect

theorem numbered_step (s : Client) (i : Step) (h : Numbered s) : Numbered (step s i) := by
  unfold step
  split_ifs with hc
  · exact h
  cases i with
  | connect url clientId => exact Numbered.connectOnIoThread ⟨h.operations, h.transport⟩
  | disconnect =>
    have hclose := Numbered.closeTransport (s := { s with manualDisconnect := true, reconnectAttempts := 0 })
      ⟨h.operations, h.transport⟩
    exact ⟨hclose.operations, hclose.transport⟩
  | queue m => exact ⟨h.operations, h.transport⟩
  | runPosted =>
    simp only [Client.take]
    split
    · exact h
    · rename_i m rest _
      exact Numbered.enqueue (s := { s with posted := rest }) ⟨h.operations, h.transport⟩ m
  | finish n status =>
    refine ⟨fun o ho => ?_, h.transport⟩
    obtain ⟨j, hj⟩ := List.getElem?_of_mem ho
    simp only [Client.take, List.getElem?_modify] at hj
    obtain ⟨o', ho', heq⟩ := Option.map_eq_some_iff.mp hj
    have hsame : o'.transport = o.transport := by
      subst heq
      split_ifs <;> rfl
    exact hsame ▸ h.operations o' (List.mem_of_getElem? ho')
  | handler n r =>
    simp only [Client.take]
    split
    · exact h
    · split_ifs
      · exact h
      · exact Numbered.handle (s := s.without n)
          ⟨fun o ho => h.operations o (List.mem_of_mem_eraseIdx ho), h.transport⟩ _ r

end Numbered

/-! ### Operations that follow on one another -/

/-- Cancelling leaves an operation outstanding. -/
theorem keys_cancel (s : Client) (t : ℕ) (p : Kind → Bool) :
    (s.cancel t p).operations.map (fun o => (o.transport, o.kind)) =
      s.operations.map fun o => (o.transport, o.kind) := by
  unfold Client.cancel
  dsimp only
  rw [List.map_map]
  refine List.map_congr_left fun o _ => ?_
  dsimp only [Function.comp]
  split_ifs <;> rfl

/-- Completing an operation leaves it outstanding until its handler runs. -/
theorem keys_finish {s : Client} (hc : s.crashed = false) (n : ℕ) (status : Status) :
    (step s (.finish n status)).operations.map (fun o => (o.transport, o.kind)) =
      s.operations.map fun o => (o.transport, o.kind) := by
  rw [step_live hc]
  unfold Client.take
  refine List.ext_getElem? fun k => ?_
  rw [List.getElem?_map, List.getElem?_map, List.getElem?_modify]
  cases s.operations[k]? with
  | none => rfl
  | some o =>
    refine congrArg some ?_
    dsimp only
    split_ifs <;> rfl

/-- Resolve, connect, handshake and the reads follow on one another. -/
def Kind.leads : Kind → Bool
  | .resolve | .connect | .handshake | .read => true
  | .write | .timer => false

/-- How many of these are outstanding on the transport `t`. -/
def Client.leading (s : Client) (t : ℕ) : ℕ :=
  (s.operations.map fun o => (o.transport, o.kind)).countP fun p => p.1 = t ∧ p.2.leads = true

/-- A read is outstanding on the transport `t`. -/
def Client.Reads (s : Client) (t : ℕ) : Prop := ∃ o ∈ s.operations, o.transport = t ∧ o.kind = .read

instance (s : Client) (t : ℕ) : Decidable (s.Reads t) := by unfold Client.Reads; infer_instance

section Leading

variable {s : Client} {t t' n : ℕ} {kind : Kind} {o : Operation}

theorem leading_start (s : Client) (t t' : ℕ) (kind : Kind) :
    (s.start t' kind).leading t = s.leading t + if t' = t ∧ kind.leads = true then 1 else 0 := by
  unfold Client.leading Client.start
  simp only [List.map_append, List.countP_append, List.map_singleton, List.countP_singleton, decide_eq_true_eq]

theorem leading_cancel (s : Client) (t t' : ℕ) (p : Kind → Bool) : (s.cancel t' p).leading t = s.leading t := by
  unfold Client.leading
  rw [keys_cancel]

theorem leading_closeTransport (s : Client) (t : ℕ) : s.closeTransport.leading t = s.leading t := by
  unfold Client.closeTransport
  split
  · rfl
  · exact leading_cancel s t _ fun _ => true

theorem leading_finish (hc : s.crashed = false) (n : ℕ) (status : Status) (t : ℕ) :
    (step s (.finish n status)).leading t = s.leading t := by
  unfold Client.leading
  rw [keys_finish hc]

/-- The handler finds its operation gone. -/
theorem leading_without (ho : s.operations[n]? = some o) (t : ℕ) :
    (s.without n).leading t + (if o.transport = t ∧ o.kind.leads = true then 1 else 0) = s.leading t := by
  obtain ⟨hn, rfl⟩ := List.getElem?_eq_some_iff.mp ho
  have hperm := (List.getElem_cons_eraseIdx_perm hn).map fun o => (o.transport, o.kind)
  have hcount := hperm.countP_eq fun p => decide (p.1 = t ∧ p.2.leads = true)
  rw [List.map_cons, List.countP_cons] at hcount
  unfold Client.leading Client.without
  rw [← hcount]
  simp

theorem Client.Reads.leading_pos (h : s.Reads t) : 0 < s.leading t := by
  obtain ⟨o, ho, rfl, hk⟩ := h
  exact List.countP_pos_iff.mpr ⟨_, List.mem_map_of_mem ho, by simp [hk, Kind.leads]⟩

/-- Another kind of operation is started. -/
theorem reads_start (hk : kind ≠ .read) (h : (s.start t' kind).Reads t) : s.Reads t := by
  obtain ⟨o, ho, ht, hread⟩ := h
  rcases List.mem_append.mp ho with ho | ho
  · exact ⟨o, ho, ht, hread⟩
  · rw [List.mem_singleton.mp ho] at hread
    exact absurd hread hk

theorem armed_start (hk : kind ≠ .timer) (h : (s.start t' kind).Armed t) : s.Armed t := by
  obtain ⟨o, ho, ht, htimer, hs⟩ := h
  rcases List.mem_append.mp ho with ho | ho
  · exact ⟨o, ho, ht, htimer, hs⟩
  · rw [List.mem_singleton.mp ho] at htimer
    exact absurd htimer hk

theorem reads_cancel {p : Kind → Bool} (h : (s.cancel t' p).Reads t) : s.Reads t := by
  obtain ⟨o, ho, ht, hk⟩ := h
  obtain ⟨o', ho', ht', hk'⟩ := mem_cancel ho
  exact ⟨o', ho', ht'.trans ht, hk'.trans hk⟩

theorem reads_without (h : (s.without n).Reads t) : s.Reads t := by
  obtain ⟨o, ho, ht, hk⟩ := h
  exact ⟨o, List.mem_of_mem_eraseIdx ho, ht, hk⟩

theorem armed_without (h : (s.without n).Armed t) : s.Armed t := by
  obtain ⟨o, ho, ht, hk⟩ := h
  exact ⟨o, List.mem_of_mem_eraseIdx ho, ht, hk⟩

end Leading

/-! ### What holds in every state of a quiet run -/

/-- The connection of the transport `t` is up: the client is connected, and reads from it. -/
def Established (s : Client) (t : ℕ) : Prop := s.isConnected = true ∧ s.transport = some t ∧ s.Reads t

instance (s : Client) (t : ℕ) : Decidable (Established s t) := inferInstanceAs (Decidable (_ ∧ _ ∧ _))

/-- Nothing has crashed; on each transport one of the operations that follow on one another is outstanding at
most; and no reconnect wait is armed for a connection that is up. -/
structure Inv (s : Client) : Prop where
  crashed : s.crashed = false
  numbered : Numbered s
  single : ∀ t, s.leading t ≤ 1
  settled : ∀ t, Established s t → ¬ s.Armed t

variable {s s' : Client}

/-- Nothing leads on that did not before, no connection has come up, and no wait has been armed. -/
theorem Inv.mono (h : Inv s) (hc : s'.crashed = false) (hn : Numbered s') (hl : ∀ t, s'.leading t ≤ s.leading t)
    (he : ∀ t, Established s' t → Established s t) (ha : ∀ t, Established s' t → s'.Armed t → s.Armed t) : Inv s' :=
  ⟨hc, hn, fun t => (hl t).trans (h.single t), fun t hest harmed => h.settled t (he t hest) (ha t hest harmed)⟩

/-! ### Handlers -/

section Handlers

variable {t n : ℕ} {o : Operation}

theorem Inv.without (h : Inv s) (n : ℕ) : Inv (s.without n) := by
  refine h.mono h.crashed ⟨fun o ho => h.numbered.operations o (List.mem_of_mem_eraseIdx ho), h.numbered.transport⟩
    (fun t => ?_) (fun t he => ⟨he.1, he.2.1, reads_without he.2.2⟩) fun t _ ha => armed_without ha
  exact ((List.eraseIdx_sublist s.operations n).map _).countP_le

/-- On the transport of an operation that leads on nothing is read beside it. -/
theorem Inv.not_reads_without (h : Inv s) (ho : s.operations[n]? = some o) (hk : o.kind.leads = true) :
    ¬ (s.without n).Reads o.transport := by
  intro hreads
  have hcount := leading_without ho o.transport
  have hsingle := h.single o.transport
  have hpos := hreads.leading_pos
  rw [if_pos ⟨rfl, hk⟩] at hcount
  omega

/-- Another operation is not the read. -/
theorem reads_without_of_ne (ho : s.operations[n]? = some o) (hne : ¬ (o.transport = t ∧ o.kind = .read))
    (h : s.Reads t) : (s.without n).Reads t := by
  obtain ⟨o', ho', ht, hk⟩ := h
  refine ⟨o', List.mem_eraseIdx_iff_getElem?.mpr ?_, ht, hk⟩
  obtain ⟨j, hj⟩ := List.getElem?_of_mem ho'
  refine ⟨j, ?_, hj⟩
  rintro rfl
  obtain rfl := Option.some.inj (hj.symm.trans ho)
  exact hne ⟨ht, hk⟩

/-- Of the operations that lead on, a connection that is up has its read only. -/
theorem Inv.reading (h : Inv s) (he : Established s t) (ho : s.operations[n]? = some o) (hto : o.transport = t)
    (hk : o.kind.leads = true) : o.kind = .read := by
  by_contra hne
  exact h.not_reads_without ho hk (hto ▸ reads_without_of_ne ho (fun hread => hne hread.2) he.2.2)

theorem Unaffected.leading (h : Unaffected s s') (t : ℕ) : s'.leading t = s.leading t := by
  have hothers : ∀ s : Client, s.leading t =
      (s.others.map fun o => (o.transport, o.kind)).countP fun p => p.1 = t ∧ p.2.leads = true := by
    intro s
    unfold Client.leading Client.others
    rw [List.countP_map, List.countP_map, List.countP_filter]
    refine List.countP_congr fun o _ => ?_
    cases hk : o.kind <;> simp [hk, Kind.leads]
  rw [hothers, hothers, h.others]

theorem Unaffected.reads (h : Unaffected s s') : s'.Reads t ↔ s.Reads t := by
  have hothers : ∀ s : Client, s.Reads t ↔ ∃ o ∈ s.others, o.transport = t ∧ o.kind = .read := by
    intro s
    unfold Client.Reads Client.others
    refine ⟨fun ⟨o, ho, ht, hk⟩ => ⟨o, List.mem_filter.mpr ⟨ho, by simp [hk]⟩, ht, hk⟩,
      fun ⟨o, ho, ht, hk⟩ => ⟨o, List.mem_of_mem_filter ho, ht, hk⟩⟩
  rw [hothers, hothers, h.others]

theorem Unaffected.armed (h : Unaffected s s') : s'.Armed t ↔ s.Armed t := by
  have hothers : ∀ s : Client, s.Armed t ↔
      ∃ o ∈ s.others, o.transport = t ∧ o.kind = .timer ∧ o.status ≠ .error := by
    intro s
    unfold Client.Armed Client.others
    refine ⟨fun ⟨o, ho, ht, hk⟩ => ⟨o, List.mem_filter.mpr ⟨ho, by simp [hk.1]⟩, ht, hk⟩,
      fun ⟨o, ho, ht, hk⟩ => ⟨o, List.mem_of_mem_filter ho, ht, hk⟩⟩
  rw [hothers, hothers, h.others]

theorem Unaffected.established (h : Unaffected s s') : Established s' t ↔ Established s t := by
  unfold Established
  rw [h.isConnected, h.transport, h.reads]

theorem Inv.unaffected (h : Inv s) (hu : Unaffected s s') (hn : Numbered s') : Inv s' :=
  h.mono (hu.crashed.trans h.crashed) hn (fun t => (hu.leading t).le) (fun _ => hu.established.mp)
    fun _ _ => hu.armed.mp

/-- The next operation is started before the first read. -/
theorem Inv.lead (h : Inv s) (ho : s.operations[n]? = some o) (hown : s.transport = some o.transport)
    (hk : o.kind.leads = true) {kind : Kind} (hlead : kind.leads = true) (hne : kind ≠ .read) :
    Inv ((s.without n).start o.transport kind) := by
  refine ⟨h.crashed, (h.without n).numbered.start (h.numbered.transport _ hown) kind, fun t => ?_, ?_⟩
  · have hcount := leading_without ho t
    have hsingle := h.single t
    rw [leading_start]
    simp only [hk, hlead, and_true] at hcount ⊢
    omega
  · rintro t ⟨-, ht, hreads⟩
    obtain rfl : t = o.transport := Option.some.inj ((show s.transport = some t from ht).symm.trans hown)
    exact absurd (reads_start hne hreads) (h.not_reads_without ho hk)

/-- The next read is started. -/
theorem Inv.read (h : Inv s) (ho : s.operations[n]? = some o) (hown : s.transport = some o.transport)
    (hk : o.kind.leads = true) (hops : s'.operations = (s.without n).operations) (hc : s'.crashed = s.crashed)
    (ht : s'.transport = s.transport) (hn : s'.transports = s.transports)
    (harmed : s'.isConnected = true → ¬ s.Armed o.transport) : Inv s'.startRead := by
  have hwithout := (h.without n).numbered
  have hnumbered : Numbered s' :=
    ⟨fun o ho => hn ▸ hwithout.operations o (hops ▸ ho), fun t' ht' => hn ▸ h.numbered.transport t' (ht ▸ ht')⟩
  have hstart : s'.startRead = s'.start o.transport .read := by
    unfold Client.startRead
    rw [ht, hown]
  refine ⟨hstart ▸ hc.trans h.crashed, hnumbered.startRead, fun t => ?_, ?_⟩
  · have hcount := leading_without ho t
    have hsingle := h.single t
    have hsame : s'.leading t = (s.without n).leading t := by
      unfold Client.leading
      rw [hops]
    rw [hstart, leading_start, hsame]
    simp only [hk, show Kind.read.leads = true from rfl, and_true] at hcount ⊢
    omega
  · rw [hstart]
    rintro t ⟨hconnected, htransport, -⟩ ha
    obtain rfl : t = o.transport := Option.some.inj (htransport.symm.trans (ht.trans hown))
    refine harmed hconnected (armed_without (n := n) ?_)
    obtain ⟨o', ho', htimer⟩ := armed_start (by decide) ha
    exact ⟨o', hops ▸ ho', htimer⟩

/-- A new transport is made. -/
theorem Inv.connectOnIoThread (h : Inv s) : Inv s.connectOnIoThread := by
  have hcrashed : s.closeTransport.crashed = false := by
    unfold Client.closeTransport
    split <;> exact h.crashed
  have hfresh : ∀ t, s.transports ≤ t → s.leading t = 0 := by
    intro t ht
    refine List.countP_eq_zero.mpr fun p hp => ?_
    obtain ⟨o, ho, rfl⟩ := List.mem_map.mp hp
    have hlt := h.numbered.operations o ho
    simp only [decide_eq_true_eq, not_and]
    omega
  have hnew : Inv s.closeTransport.recreateTransport := by
    refine ⟨hcrashed, h.numbered.closeTransport.recreateTransport, fun t => ?_, ?_⟩
    · exact (leading_closeTransport s t).le.trans (h.single t)
    · rintro t ⟨-, ht, hreads⟩
      obtain rfl : s.closeTransport.transports = t := Option.some.inj ht
      have hpos := hreads.leading_pos
      rw [show s.closeTransport.recreateTransport.leading _ = s.closeTransport.leading _ from rfl,
        leading_closeTransport, hfresh _ (closeTransport_flags s).2.2.ge] at hpos
      omega
  unfold Client.connectOnIoThread
  dsimp only
  split
  · exact hnew
  · refine ⟨hnew.crashed, ?_, fun t => ?_, ?_⟩
    · refine hnew.numbered.start ?_ _
      rw [← (closeTransport_flags s).2.2]
      exact Nat.lt_succ_self _
    · rw [leading_start]
      by_cases ht : s.transports = t
      · have hzero : s.closeTransport.recreateTransport.leading t = 0 :=
          (leading_closeTransport s t).trans (hfresh t ht.le)
        rw [hzero]
        split_ifs <;> omega
      · rw [if_neg fun hn => ht hn.1]
        exact hnew.single t
    · rintro t ⟨hconnected, ht, hreads⟩ ha
      exact hnew.settled t ⟨hconnected, ht, reads_start (by decide) hreads⟩ (armed_start (by decide) ha)

/-- `AttemptReconnect` starts a wait at most. -/
theorem attemptReconnect_eq (s : Client) : s.attemptReconnect.crashed = s.crashed ∧
    s.attemptReconnect.isConnected = s.isConnected ∧ s.attemptReconnect.transport = s.transport ∧
      (∀ t, s.attemptReconnect.leading t = s.leading t) ∧ ∀ t, s.attemptReconnect.Reads t → s.Reads t := by
  unfold Client.attemptReconnect
  split_ifs
  · exact ⟨rfl, rfl, rfl, fun _ => rfl, fun _ => id⟩
  · dsimp only
    split
    · exact ⟨rfl, rfl, rfl, fun _ => rfl, fun _ => id⟩
    · refine ⟨rfl, rfl, rfl, fun t => ?_, fun t h => ?_⟩
      · rw [leading_start, leading_cancel, if_neg (by simp [Kind.leads]), Nat.add_zero]
        rfl
      · obtain ⟨o, ho, ht, hk⟩ := reads_cancel (reads_start (by decide) h)
        exact ⟨o, ho, ht, hk⟩

/-- An error takes the connection down, or finds none that is up. -/
theorem Inv.attemptReconnect (h : Inv s) (hdown : ∀ t, ¬ Established s t) : Inv s.attemptReconnect := by
  obtain ⟨hc, hconnected, ht, hl, hr⟩ := attemptReconnect_eq s
  refine ⟨hc.trans h.crashed, h.numbered.attemptReconnect, fun t => (hl t).le.trans (h.single t), fun t he => ?_⟩
  exact absurd ⟨hconnected ▸ he.1, ht ▸ he.2.1, hr t he.2.2⟩ (hdown t)

/-- **The handler of an operation** of the current transport, or a harmless one. -/
theorem Inv.handle (h : Inv s) (ho : s.operations[n]? = some o) (r : Bool)
    (hown : s.transport = some o.transport ∨ Harmless s o)
    (hopen : o.kind = .handshake ∧ o.status = .ok → ¬ s.Armed o.transport) : Inv ((s.without n).handle o r) := by
  have hnumbered := (h.without n).numbered.handle o r
  by_cases hharm : Harmless s o
  · exact (h.without n).unaffected (unaffected_handle (s := s.without n) hharm r) hnumbered
  replace hown := hown.resolve_right hharm
  have hup : ∀ t, Established (s.without n) t → t = o.transport := fun t he =>
    Option.some.inj (he.2.1.symm.trans hown)
  obtain ⟨t, kind, status⟩ := o
  cases status with
  | pending => exact absurd trivial hharm
  | ok =>
    cases kind with
    | resolve | connect =>
      have hwithout : (s.without n).transport = some t := hown
      simp only [Client.handle, Client.onSuccess, Client.startOnWebsocket, hwithout]
      exact h.lead ho hown rfl rfl (by decide)
    | handshake => exact h.read ho hown rfl rfl rfl rfl rfl fun _ => hopen ⟨rfl, rfl⟩
    | read =>
      have hread : s.isConnected = true → ¬ s.Armed t := fun hc =>
        h.settled t ⟨hc, hown, _, List.mem_of_getElem? ho, rfl, rfl⟩
      cases r with
      | false =>
        have hnext : Inv (s.without n).startRead := h.read ho hown rfl rfl rfl rfl rfl hread
        exact hnext
      | true =>
        have hnext : Inv ((s.without n).queueJsonMessage (.listClients s.clientId)).startRead :=
          h.read ho hown rfl rfl rfl rfl rfl hread
        exact hnext
    | write => exact absurd trivial hharm
    | timer => exact (h.without n).connectOnIoThread
  | error =>
    cases kind with
    | timer => exact absurd trivial hharm
    | read | write =>
      have hdown : Inv (s.without n).reportDisconnected :=
        (h.without n).mono h.crashed ⟨(h.without n).numbered.operations, h.numbered.transport⟩ (fun _ => le_rfl)
          (fun t he => absurd he.1 (by simp [Client.reportDisconnected])) fun _ _ => id
      exact hdown.attemptReconnect fun t he => absurd he.1 (by simp [Client.reportDisconnected])
    | resolve | connect | handshake =>
      refine (h.without n).attemptReconnect fun t' he => ?_
      obtain rfl := hup t' he
      exact h.not_reads_without ho rfl he.2.2

end Handlers

theorem Inv.closeTransport (h : Inv s) : Inv s.closeTransport := by
  refine h.mono ?_ h.numbered.closeTransport (fun t => (leading_closeTransport s t).le) (fun t he => ?_) fun t he => ?_
  · unfold Client.closeTransport
    split <;> exact h.crashed
  · exact absurd he.2.1 (by simp [closeTransport_transport])
  · exact absurd he.2.1 (by simp [closeTransport_transport])

theorem Inv.enqueue (h : Inv s) (m : Outgoing) : Inv (s.enqueue m) :=
  h.unaffected (unaffected_enqueue s m) (h.numbered.enqueue m)

/-- What the step of a quiet handler finds. -/
theorem Quiet.own_or_harmless {n : ℕ} {r : Bool} (h : Quiet s (.handler n r)) {o : Operation}
    (ho : s.operations[n]? = some o) : s.transport = some o.transport ∨ Harmless s o := by
  simp only [Quiet, ho] at h
  by_cases ht : s.transport = some o.transport
  · exact Or.inl ht
  · exact Or.inr (h.1 ht)

theorem Quiet.opens {n : ℕ} {r : Bool} (h : Quiet s (.handler n r)) {o : Operation} (ho : s.operations[n]? = some o) :
    o.kind = .handshake ∧ o.status = .ok → ¬ s.Armed o.transport := by
  simp only [Quiet, ho] at h
  exact h.2

theorem inv_step (s : Client) (i : Step) (h : Inv s) (hok : Quiet s i) : Inv (step s i) := by
  have hnumbered := numbered_step s i h.numbered
  cases i with
  | connect url clientId =>
    rw [step_live h.crashed]
    refine Inv.connectOnIoThread (s := { s with
      serverUrl := url, clientId := clientId, manualDisconnect := false, reconnectAttempts := 0 }) ?_
    exact ⟨h.crashed, ⟨h.numbered.operations, h.numbered.transport⟩, h.single, h.settled⟩
  | disconnect =>
    rw [step_live h.crashed]
    have hclose := Inv.closeTransport (s := { s with manualDisconnect := true, reconnectAttempts := 0 })
      ⟨h.crashed, ⟨h.numbered.operations, h.numbered.transport⟩, h.single, h.settled⟩
    exact hclose.mono hclose.crashed ⟨hclose.numbered.operations, hclose.numbered.transport⟩ (fun _ => le_rfl)
      (fun t he => absurd he.1 (by simp [Client.take, Client.reportDisconnected])) fun _ _ => id
  | queue m =>
    rw [step_live h.crashed]
    exact ⟨h.crashed, ⟨h.numbered.operations, h.numbered.transport⟩, h.single, h.settled⟩
  | runPosted =>
    rw [step_live h.crashed]
    simp only [Client.take]
    split
    · exact h
    · rename_i m rest _
      refine Inv.enqueue (s := { s with posted := rest }) ?_ m
      exact ⟨h.crashed, ⟨h.numbered.operations, h.numbered.transport⟩, h.single, h.settled⟩
  | finish n status =>
    have hmem : ∀ o ∈ (step s (.finish n status)).operations, ∃ o' ∈ s.operations,
        o'.transport = o.transport ∧ o'.kind = o.kind ∧ (o.status ≠ .error → o'.status ≠ .error) := by
      rw [step_live h.crashed]
      intro o ho
      obtain ⟨j, hj⟩ := List.getElem?_of_mem ho
      simp only [Client.take, List.getElem?_modify] at hj
      obtain ⟨o', ho', rfl⟩ := Option.map_eq_some_iff.mp hj
      refine ⟨o', List.mem_of_getElem? ho', ?_⟩
      split_ifs with _ hp
      · exact ⟨rfl, rfl, fun _ => by simp [hp]⟩
      · exact ⟨rfl, rfl, id⟩
      · exact ⟨rfl, rfl, id⟩
    have hsame : (step s (.finish n status)).isConnected = s.isConnected ∧
        (step s (.finish n status)).transport = s.transport ∧
        (step s (.finish n status)).crashed = s.crashed := by
      rw [step_live h.crashed]
      exact ⟨rfl, rfl, rfl⟩
    refine h.mono (hsame.2.2.trans h.crashed) hnumbered (fun t => (leading_finish h.crashed n status t).le)
      (fun t he => ?_) fun t _ ha => ?_
    · obtain ⟨hconnected, ht, o, ho, hto, hk⟩ := he
      obtain ⟨o', ho', hto', hk', -⟩ := hmem o ho
      exact ⟨hsame.1 ▸ hconnected, hsame.2.1 ▸ ht, o', ho', hto'.trans hto, hk'.trans hk⟩
    · obtain ⟨o, ho, hto, hk, hs⟩ := ha
      obtain ⟨o', ho', hto', hk', hs'⟩ := hmem o ho
      exact ⟨o', ho', hto'.trans hto, hk'.trans hk, hs' hs⟩
  | handler n r =>
    rcases step_handler_cases h.crashed n r with heq | ⟨o, ho, -, heq⟩
    · rwa [heq]
    · rw [heq]
      exact h.handle ho r (hok.own_or_harmless ho) (hok.opens ho)

/-! ### After `Disconnect` -/

def Step.isConnect : Step → Bool
  | .connect _ _ => true
  | _ => false

/-- Disconnected by the user, with nothing under way. -/
structure Down (s : Client) : Prop where
  manual : s.manualDisconnect = true
  transport : s.transport = none
  isConnected : s.isConnected = false

theorem disconnect_down {s : Client} (h : Inv s) : Down (step s .disconnect) ∧
    (step s .disconnect).launched = s.launched ∧ (step s .disconnect).transports = s.transports := by
  rw [step_live h.crashed]
  have hflags := closeTransport_flags { s with manualDisconnect := true, reconnectAttempts := 0 }
  exact ⟨⟨hflags.1, closeTransport_transport _, rfl⟩, hflags.2⟩

/-- Nothing but `Connect` wakes a disconnected client up. -/
theorem down_step {s : Client} {i : Step} (hinv : Inv s) (hok : Quiet s i) (h : Down s)
    (hi : i.isConnect = false) :
    Down (step s i) ∧ (step s i).launched = s.launched ∧ (step s i).transports = s.transports := by
  have hkeep : ∀ {s' : Client}, Unaffected s s' → Down s' ∧ s'.launched = s.launched ∧
      s'.transports = s.transports := fun hu =>
    ⟨⟨hu.manualDisconnect.trans h.manual, hu.transport.trans h.transport, hu.isConnected.trans h.isConnected⟩,
      hu.launched, hu.transports⟩
  cases i with
  | connect url clientId => simp [Step.isConnect] at hi
  | disconnect => exact disconnect_down hinv
  | queue m =>
    rw [step_live hinv.crashed]
    exact ⟨⟨h.manual, h.transport, h.isConnected⟩, rfl, rfl⟩
  | runPosted =>
    rw [step_live hinv.crashed]
    simp only [Client.take]
    split
    · exact ⟨h, rfl, rfl⟩
    · rename_i m rest _
      exact hkeep (Unaffected.trans (t := { s with posted := rest }) ⟨rfl, rfl, rfl, rfl, rfl, rfl, rfl, rfl⟩
        (unaffected_enqueue _ m))
  | finish n status =>
    rw [step_live hinv.crashed]
    exact ⟨⟨h.manual, h.transport, h.isConnected⟩, rfl, rfl⟩
  | handler n r =>
    rcases step_handler_cases hinv.crashed n r with heq | ⟨o, ho, -, heq⟩
    · rw [heq]
      exact ⟨h, rfl, rfl⟩
    · have hharm : Harmless (s.without n) o := by
        refine (hok.own_or_harmless ho).resolve_left ?_
        simp [h.transport]
      have hu := unaffected_handle hharm r
      rw [heq]
      exact ⟨⟨hu.manualDisconnect.trans h.manual, hu.transport.trans h.transport,
        hu.isConnected.trans h.isConnected⟩, hu.launched, hu.transports⟩

/-! ### An established connection -/

/-- The operation `o` is a read or a write of the transport `t` that has failed. -/
def OwnError (t : ℕ) (o : Operation) : Prop :=
  o.transport = t ∧ o.status = .error ∧ (o.kind = .read ∨ o.kind = .write)

theorem established_startRead {t : ℕ} (hc : s.isConnected = true) (ht : s.transport = some t) :
    Established s.startRead t := by
  have hstart : s.startRead = s.start t .read := by
    unfold Client.startRead
    rw [ht]
  rw [hstart]
  exact ⟨hc, ht, ⟨t, .read, .pending⟩, List.mem_append_right _ (List.mem_singleton_self _), rfl, rfl⟩

/-- The handler of an operation of the connection that is up. -/
theorem established_handle {t n : ℕ} {o : Operation} (hinv : Inv s) (h : Established s t)
    (ho : s.operations[n]? = some o) (hp : o.status ≠ .pending) (hto : o.transport = t) (r : Bool)
    (hgone : ¬ Established ((s.without n).handle o r) t) : OwnError t o := by
  obtain ⟨t', kind, status⟩ := o
  obtain rfl : t' = t := hto
  have hread : ∀ {k : Kind}, k = kind → k.leads = true → k = .read := fun hk hlead =>
    hk.trans (hinv.reading h ho rfl (hk ▸ hlead))
  cases status with
  | pending => exact absurd rfl hp
  | ok =>
    refine absurd ?_ hgone
    cases kind with
    | resolve => exact absurd (hread rfl rfl) (by decide)
    | connect => exact absurd (hread rfl rfl) (by decide)
    | handshake => exact absurd (hread rfl rfl) (by decide)
    | read => cases r <;> exact established_startRead h.1 h.2.1
    | write =>
      refine (unaffected_handle (s := s.without n) (o := ⟨t', .write, .ok⟩) trivial r).established.mpr ?_
      exact ⟨h.1, h.2.1, reads_without_of_ne ho (by simp) h.2.2⟩
    | timer => exact absurd ⟨_, List.mem_of_getElem? ho, rfl, rfl, by simp⟩ (hinv.settled t' h)
  | error =>
    cases kind with
    | read => exact ⟨rfl, rfl, Or.inl rfl⟩
    | write => exact ⟨rfl, rfl, Or.inr rfl⟩
    | timer => exact absurd ⟨h.1, h.2.1, reads_without_of_ne ho (by simp) h.2.2⟩ hgone
    | resolve => exact absurd (hread rfl rfl) (by decide)
    | connect => exact absurd (hread rfl rfl) (by decide)
    | handshake => exact absurd (hread rfl rfl) (by decide)

/-- What takes an established connection down in one step. -/
theorem established_step {i : Step} {t : ℕ} (hinv : Inv s) (hok : Quiet s i) (h : Established s t)
    (hgone : ¬ Established (step s i) t) :
    i.isConnect ∨ i = .disconnect ∨ ∃ n r o, i = .handler n r ∧ s.operations[n]? = some o ∧ OwnError t o := by
  cases i with
  | connect url clientId => exact Or.inl rfl
  | disconnect => exact Or.inr (Or.inl rfl)
  | queue m =>
    rw [step_live hinv.crashed] at hgone
    exact absurd h hgone
  | runPosted =>
    rw [step_live hinv.crashed] at hgone
    refine absurd ?_ hgone
    simp only [Client.take]
    split
    · exact h
    · exact (unaffected_enqueue { s with posted := _ } _).established.mpr h
  | finish n status =>
    refine absurd ?_ hgone
    have hkeys := keys_finish hinv.crashed n status
    obtain ⟨o, ho, hto, hk⟩ := h.2.2
    have hmem : (t, Kind.read) ∈ s.operations.map fun o => (o.transport, o.kind) :=
      List.mem_map.mpr ⟨o, ho, by rw [hto, hk]⟩
    rw [← hkeys] at hmem
    obtain ⟨o', ho', heq⟩ := List.mem_map.mp hmem
    refine ⟨?_, ?_, o', ho', (Prod.mk.inj heq).1, (Prod.mk.inj heq).2⟩
    · rw [step_live hinv.crashed]
      exact h.1
    · rw [step_live hinv.crashed]
      exact h.2.1
  | handler n r =>
    rcases step_handler_cases hinv.crashed n r with heq | ⟨o, ho, hp, heq⟩
    · rw [heq] at hgone
      exact absurd h hgone
    · rw [heq] at hgone
      by_cases hto : o.transport = t
      · exact Or.inr (Or.inr ⟨n, r, o, rfl, ho, established_handle hinv h ho hp hto r hgone⟩)
      · have hharm : Harmless s o := (hok.own_or_harmless ho).resolve_left fun hown =>
          hto (Option.some.inj (hown.symm.trans h.2.1))
        refine absurd ((unaffected_handle (s := s.without n) hharm r).established.mpr ?_) hgone
        exact ⟨h.1, h.2.1, reads_without_of_ne ho (fun hread => hto hread.1) h.2.2⟩

/-! ### Superseded completions are inert -/

/-- The rest of a run, from the state that `Disconnect` leaves behind. -/
theorem down_run {s : Client} (hs : Inv s) (hd : Down s) {l : List Step} (hm : Meets step Quiet s l)
    (hno : ∀ i ∈ l, i.isConnect = false) : Down (run step s l) ∧ (run step s l).launched = s.launched := by
  induction l generalizing s with
  | nil => exact ⟨hd, rfl⟩
  | cons i l ih =>
    obtain ⟨hd', hla, -⟩ := down_step hs hm.1 hd (hno i List.mem_cons_self)
    obtain ⟨hd'', hla'⟩ := ih (inv_step s i hs hm.1) hd' hm.2 fun j hj => hno j (List.mem_cons_of_mem i hj)
    exact ⟨hd'', hla'.trans hla⟩

/-- **Completions of a superseded transport are inert.**  In every run in which the handlers that run for a
superseded transport find the client in a harmless state, and no reconnect wait of its own transport is
outstanding when a handshake succeeds: no null websocket is dereferenced; a superseded handler changes nothing
but the outgoing messages; from `Disconnect` to the next `Connect` the client is not connected and starts no
connection; and an established connection goes down only by `Connect`, by `Disconnect` or by a read or a write
of its own that fails. -/
theorem superseded_completions_inert (l : List Step) (hl : Meets step Quiet {} l) :
    (run step {} l).crashed = false ∧
    (∀ l₁ n r o, l = l₁ ++ [.handler n r] → (run step {} l₁).operations[n]? = some o → o.status ≠ .pending →
      (run step {} l₁).transport ≠ some o.transport →
        Unaffected ((run step {} l₁).without n) (run step {} l)) ∧
    (∀ l₁ l₂, l = l₁ ++ .disconnect :: l₂ → (∀ i ∈ l₂, i.isConnect = false) →
      (run step {} l).isConnected = false ∧ (run step {} l).transport = none ∧
        (run step {} l).launched = (run step {} l₁).launched) ∧
    (∀ l₁ i t, l = l₁ ++ [i] → Established (run step {} l₁) t → ¬ Established (run step {} l) t →
      i.isConnect ∨ i = .disconnect ∨
        ∃ n r o, i = .handler n r ∧ (run step {} l₁).operations[n]? = some o ∧
          OwnError t o) := by
  have hinit : Inv {} := ⟨rfl, ⟨by simp, by simp⟩, fun _ => Nat.zero_le 1, fun _ h => absurd h.1 (by decide)⟩
  have hinv : ∀ {l'}, Meets step Quiet {} l' → Inv (run step {} l') := fun hl' =>
    run_invariant inv_step hinit hl'
  refine ⟨(hinv hl).crashed, ?_, ?_, ?_⟩
  · rintro l₁ n r o rfl ho hp ht
    obtain ⟨hl₁, hok, -⟩ := meets_append.mp hl
    have hharm := (hok.own_or_harmless ho).resolve_left ht
    rw [run_concat, step_handler (hinv hl₁).crashed ho hp r]
    exact unaffected_handle (s := (run step {} l₁).without n) hharm r
  · rintro l₁ l₂ rfl hno
    obtain ⟨hl₁, -, hl₂⟩ := meets_append.mp hl
    have hstart := disconnect_down (hinv hl₁)
    obtain ⟨hdown, hla⟩ := down_run (inv_step _ .disconnect (hinv hl₁) trivial) hstart.1 hl₂ hno
    rw [run_append, run_cons]
    exact ⟨hdown.isConnected, hdown.transport, hla.trans hstart.2.1⟩
  · rintro l₁ i t rfl hest hgone
    obtain ⟨hl₁, hok, -⟩ := meets_append.mp hl
    rw [run_concat] at hgone
    exact established_step (hinv hl₁) hok hest hgone

/-- A connection brought up to its first read. -/
def broughtUp : List Step :=
  [.connect "ws://localhost:8081/ws/webrtc" "alice", .finish 0 .ok, .handler 0 false, .finish 0 .ok,
    .handler 0 false, .finish 0 .ok, .handler 0 false]

/-- After a plain `Disconnect` the aborted read does no harm. -/
theorem disconnect_stays_down :
    let l := broughtUp ++ .disconnect :: [.handler 0 false, .runPosted]
    Established (run step {} broughtUp) 0 ∧ (run step {} l).isConnected = false ∧
      (run step {} l).launched = (run step {} broughtUp).launched := by
  intro l
  have h := (superseded_completions_inert l (by decide)).2.2.1 broughtUp _ rfl (by decide)
  exact ⟨by decide, h.1, h.2.2⟩

/-- **Not in general**: after a second `Connect` the aborted read of the first transport counts a reconnect
attempt and arms the timer of the second one. -/
theorem late_abort_disturbs :
    ¬ ∀ (l : List Step) (n : ℕ) (r : Bool) (o : Operation), (run step {} l).operations[n]? = some o →
        o.status ≠ .pending → (run step {} l).transport ≠ some o.transport →
          Unaffected ((run step {} l).without n) (run step {} (l ++ [.handler n r])) := by
  intro h
  have hu := h (broughtUp ++ [Step.connect "ws://localhost:8081/ws/webrtc" "alice"]) 0 false ⟨0, .read, .error⟩
    (by decide) (by decide) (by decide)
  exact absurd hu.reconnectAttempts (by decide)

/-- A resolve that had completed when `Disconnect` ran finds no websocket. -/
example : (run step {} [.connect "ws://localhost:8081/ws/webrtc" "alice", .finish 0 .ok, .disconnect,
    .handler 0 false]).crashed = true := by
  decide

/-- A message that is sent too early cannot be written, which arms the timer; it expires while the handshake
succeeds, and takes the connection down. -/
example :
    let l : List Step := [.connect "ws://localhost:8081/ws/webrtc" "alice", .queue (.message ""), .runPosted,
      .finish 1 .error, .handler 1 false, .finish 0 .ok, .handler 0 false, .finish 1 .ok, .handler 1 false,
      .finish 1 .ok, .finish 0 .ok, .handler 1 false]
    Established (run step {} l) 0 ∧ ¬ Established (run step {} (l ++ [.handler 0 false])) 0 := by
  decide

end PeerCall.Signal
