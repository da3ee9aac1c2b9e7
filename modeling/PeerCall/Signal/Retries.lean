import PeerCall.Signal.Outgoing

/-!
# Signal.Retries — how the client keeps trying, and what it says about it

A `Watch` counts along a run of the client how often it was told to connect, how often the number of its attempts was
set back to 0 (by `Connect`, by `Disconnect`, by a handshake), for how long `AttemptReconnect` has waited since, and
what the observer was told.  As in `Client`, a call of `Connect` or of `Disconnect` is one step: the flags it sets on
the caller's thread and its task on the io thread.

* `retries_bounded`: **at most five transports for each time the attempts were set back**, after waits of
  1, 2, 4, 8 and 10 seconds.
* `never_stalls`: **a client that is not disconnected has something under way**, until it gives up.
* `notices_follow`: what the observer was told last is what `IsConnected` returns.
-/

namespace PeerCall.Signal

open PeerCall.Lib

/-- `std::min(1000 * (1 << (reconnect_attempts_ - 1)), 10000)`, after the increment. -/
def delayMs (attempts : ℕ) : ℕ := min (1000 * 2 ^ (attempts - 1)) 10000

/-- What an error is about: the URL, or an operation that has failed with an error code. -/
inductive Failure
  | url (error : String)
  | operation (kind : Kind)
  deriving DecidableEq, Repr

/-- The calls on the observer about the connection; the errors of the dispatcher are not among them. -/
inductive Notice
  | onConnected (clientId : String)
  | onDisconnected
  | onConnectionError (error : Failure)
  deriving DecidableEq, Repr

/-- `ConnectOnIoThread` reports a URL that it cannot use. -/
def urlNotices (url : String) : List Notice :=
  match parseUrl url with
  | .error e => [.onConnectionError (.url e)]
  | .ok _ => []

/-- `ReportDisconnected(true)`. -/
def Client.disconnectNotices (s : Client) : List Notice := if s.isConnected then [.onDisconnected] else []

/-- What a step tells the observer. -/
def notices (s : Client) (i : Step) : List Notice :=
  match i, i.handled s with
  | .connect url _, _ => urlNotices url
  | .disconnect, _ => s.disconnectNotices
  | _, some ⟨_, .handshake, .ok⟩ => [.onConnected s.clientId]
  | _, some ⟨_, .timer, .ok⟩ => urlNotices s.serverUrl
  | _, some ⟨_, .timer, .error⟩ => []
  | _, some ⟨_, .read, .error⟩ => .onConnectionError (.operation .read) :: s.disconnectNotices
  | _, some ⟨_, .write, .error⟩ => .onConnectionError (.operation .write) :: s.disconnectNotices
  | _, some ⟨_, kind, .error⟩ => [.onConnectionError (.operation kind)]
  | _, _ => []

/-- The step sets `reconnect_attempts_` to 0. -/
def Resets (s : Client) (i : Step) : Bool :=
  match i, i.handled s with
  | .connect _ _, _ | .disconnect, _ => true
  | _, some ⟨_, .handshake, .ok⟩ => true
  | _, _ => false

/-- The wait that `AttemptReconnect` starts in the step. -/
def armed (s : Client) (i : Step) : List ℕ :=
  match i.handled s with
  | some ⟨_, kind, .error⟩ =>
    if kind = .timer ∨ s.GivesUp ∨ s.transport = none then [] else [delayMs (s.reconnectAttempts + 1)]
  | _ => []

structure Watch where
  client : Client := {}
  connects : ℕ := 0
  resets : ℕ := 0
  delays : List ℕ := []
  notices : List Notice := []
  deriving DecidableEq, Repr

/-- One step of the client, watched. -/
def Watch.step (x : Watch) (i : Step) : Watch :=
  if x.client.crashed then x
  else
    { client := Signal.step x.client i
      connects := x.connects + if i.isConnect then 1 else 0
      resets := x.resets + if Resets x.client i then 1 else 0
      delays := if Resets x.client i then [] else x.delays ++ armed x.client i
      notices := x.notices ++ Signal.notices x.client i }

/-! ### What a step does to the counters -/

/-- The reconnect timers that may still call `ConnectOnIoThread`. -/
def Client.timers (s : Client) : ℕ := s.operations.countP fun o => o.kind = .timer ∧ o.status ≠ .error

theorem countP_modify_le {α : Type*} {p : α → Bool} {f : α → α} (h : ∀ a, p (f a) → p a) (l : List α)
    (n : ℕ) : (l.modify n f).countP p ≤ l.countP p := by
  induction l generalizing n with
  | nil => simp
  | cons a l ih =>
    cases n with
    | zero =>
      rw [List.modify_zero_cons, List.countP_cons, List.countP_cons]
      have ha := h a
      split_ifs <;> grind
    | succ n =>
      rw [List.modify_succ_cons, List.countP_cons, List.countP_cons]
      exact Nat.add_le_add_right (ih n) _

section Timers

variable (s : Client)

theorem timers_start (t : ℕ) (kind : Kind) :
    (s.start t kind).timers = s.timers + if kind = .timer then 1 else 0 := by
  unfold Client.timers Client.start
  rw [List.countP_append, List.countP_singleton]
  simp

/-- Cancelling turns no operation into a timer that goes off. -/
theorem timers_cancel (t : ℕ) (p : Kind → Bool) : (s.cancel t p).timers ≤ s.timers := by
  unfold Client.timers Client.cancel
  dsimp only
  rw [List.countP_map]
  refine List.countP_mono_left fun o _ h => ?_
  dsimp only [Function.comp] at h
  split_ifs at h with hc
  · simp at h
  · exact h

theorem timers_closeTransport : s.closeTransport.timers ≤ s.timers := by
  unfold Client.closeTransport
  split
  · exact le_rfl
  · rename_i t _
    exact timers_cancel s t fun _ => true

theorem timers_connectOnIoThread : s.connectOnIoThread.timers ≤ s.timers := by
  have hclose : s.closeTransport.recreateTransport.timers ≤ s.timers := timers_closeTransport s
  unfold Client.connectOnIoThread
  dsimp only
  split
  · exact hclose
  · rw [timers_start]
    exact hclose

theorem timers_startRead : s.startRead.timers = s.timers := by
  unfold Client.startRead
  split
  · rfl
  · rw [timers_start]
    rfl

theorem timers_startOnWebsocket {kind : Kind} (h : kind ≠ .timer) :
    (s.startOnWebsocket kind).timers = s.timers := by
  unfold Client.startOnWebsocket
  split
  · rfl
  · rw [timers_start, if_neg h, Nat.add_zero]

theorem timers_writeNextMessage : s.writeNextMessage.timers = s.timers := by
  unfold Client.writeNextMessage
  split
  · rfl
  · split_ifs
    · rfl
    · rw [timers_start]
      rfl

theorem timers_enqueue (m : Outgoing) : (s.enqueue m).timers = s.timers := by
  unfold Client.enqueue
  split
  · rfl
  · dsimp only
    split_ifs
    · exact timers_writeNextMessage _
    · rfl

theorem timers_attemptReconnect :
    s.attemptReconnect.timers + s.reconnectAttempts ≤ s.timers + s.attemptReconnect.reconnectAttempts := by
  unfold Client.attemptReconnect
  split_ifs
  · exact le_rfl
  · dsimp only
    split
    · show s.timers + _ ≤ s.timers + (s.reconnectAttempts + 1)
      omega
    · rename_i t _
      have hcancel := timers_cancel { s with reconnectAttempts := s.reconnectAttempts + 1 } t (· = .timer)
      rw [timers_start, if_pos rfl]
      show _ + 1 + _ ≤ s.timers + (s.reconnectAttempts + 1)
      change _ ≤ s.timers at hcancel
      omega

theorem timers_without {n : ℕ} {o : Operation} (ho : s.operations[n]? = some o) :
    (s.without n).timers + (if o.kind = .timer ∧ o.status ≠ .error then 1 else 0) = s.timers := by
  obtain ⟨hn, rfl⟩ := List.getElem?_eq_some_iff.mp ho
  have hcount := (List.getElem_cons_eraseIdx_perm hn).countP_eq fun o =>
    decide (o.kind = .timer ∧ o.status ≠ .error)
  rw [List.countP_cons] at hcount
  unfold Client.timers Client.without
  rw [← hcount]
  simp

end Timers

/-! ### Which transport there is -/

/-- The fields that only `Connect`, `Disconnect`, a reconnect timer and `RecreateTransport` write. -/
structure SameTransport (s s' : Client) : Prop where
  transport : s'.transport = s.transport
  transports : s'.transports = s.transports
  manualDisconnect : s'.manualDisconnect = s.manualDisconnect
  serverUrl : s'.serverUrl = s.serverUrl

/-- The handler finds its operation gone, and nothing else. -/
theorem SameTransport.of_without {s s' : Client} {n : ℕ} (h : SameTransport (s.without n) s') :
    SameTransport s s' :=
  ⟨h.transport, h.transports, h.manualDisconnect, h.serverUrl⟩

theorem SameTransport.refl (s : Client) : SameTransport s s := ⟨rfl, rfl, rfl, rfl⟩

theorem sameTransport_startRead (s : Client) : SameTransport s s.startRead := by
  unfold Client.startRead
  split <;> exact ⟨rfl, rfl, rfl, rfl⟩

theorem sameTransport_startOnWebsocket (s : Client) (kind : Kind) : SameTransport s (s.startOnWebsocket kind) := by
  unfold Client.startOnWebsocket
  split <;> exact ⟨rfl, rfl, rfl, rfl⟩

theorem sameTransport_writeNextMessage (s : Client) : SameTransport s s.writeNextMessage := by
  unfold Client.writeNextMessage
  split
  · exact .refl s
  · split_ifs <;> exact ⟨rfl, rfl, rfl, rfl⟩

theorem sameTransport_attemptReconnect (s : Client) : SameTransport s s.attemptReconnect := by
  unfold Client.attemptReconnect
  split_ifs
  · exact .refl s
  · dsimp only
    split <;> exact ⟨rfl, rfl, rfl, rfl⟩

/-- `s'` has the transport of `s`, no more timers and as many attempts. -/
structure Frame (s s' : Client) : Prop extends SameTransport s s' where
  timers : s'.timers ≤ s.timers
  reconnectAttempts : s'.reconnectAttempts = s.reconnectAttempts
  nothing : s.transport = none → s.operations = [] → s'.operations = []

theorem frame_enqueue (s : Client) (m : Outgoing) : Frame s (s.enqueue m) := by
  have htimers := timers_enqueue s m
  have hu := unaffected_enqueue s m
  refine ⟨⟨hu.transport, hu.transports, hu.manualDisconnect, ?_⟩, htimers.le, hu.reconnectAttempts, ?_⟩
  · unfold Client.enqueue
    split
    · rfl
    · dsimp only
      split_ifs
      · exact (sameTransport_writeNextMessage _).serverUrl
      · rfl
  · intro ht ho
    simpa [Client.enqueue, ht] using ho

theorem frame_finish (s : Client) (n : ℕ) (status : Status) : Frame s (s.take (.finish n status)) := by
  refine ⟨⟨rfl, rfl, rfl, rfl⟩, ?_, rfl, fun _ ho => ?_⟩
  · refine countP_modify_le (fun o h => ?_) s.operations n
    split_ifs at h with hp
    · simp_all
    · exact h
  · show s.operations.modify n _ = []
    rw [ho]
    exact List.modify_nil ..

/-! ### The budget of a run -/

/-- What every state of a watched run satisfies: a transport is paid for by `Connect` or by one of the five
attempts that a reset allows, and the attempts made are the waits begun. -/
structure Budget (x : Watch) : Prop where
  few : x.client.reconnectAttempts ≤ kMaxReconnectAttempts
  waits : x.delays = (List.range x.client.reconnectAttempts).map fun k => delayMs (k + 1)
  idle : x.client.transport = none → x.client.manualDisconnect = true ∨ x.client.operations = []
  fresh : x.resets = 0 → x.client.operations = [] ∧ x.client.transport = none ∧ x.client.transports = 0
  spent : 0 < x.resets → x.client.transports + x.client.timers + kMaxReconnectAttempts ≤
    x.connects + kMaxReconnectAttempts * x.resets + x.client.reconnectAttempts

theorem watch_step {x : Watch} (hc : x.client.crashed = false) (i : Step) :
    x.step i =
      { client := step x.client i
        connects := x.connects + if i.isConnect then 1 else 0
        resets := x.resets + if Resets x.client i then 1 else 0
        delays := if Resets x.client i then [] else x.delays ++ armed x.client i
        notices := x.notices ++ Signal.notices x.client i } := by
  unfold Watch.step
  rw [hc]
  rfl

section Budgets

variable {x : Watch} {i : Step} (hc : x.client.crashed = false)

include hc

theorem Budget.frame (h : Budget x) (hn : i.isConnect = false) (hr : Resets x.client i = false)
    (ha : armed x.client i = []) (hs : Frame x.client (step x.client i)) : Budget (x.step i) := by
  rw [watch_step hc, hn, hr, ha]
  exact {
    few := hs.reconnectAttempts ▸ h.few
    waits := by simpa [hs.reconnectAttempts] using h.waits
    idle := fun ht => by
      have ht' : x.client.transport = none := hs.transport ▸ ht
      rcases h.idle ht' with hm | ho
      · exact Or.inl (hs.manualDisconnect.trans hm)
      · exact Or.inr (hs.nothing ht' ho)
    fresh := fun hr => by
      obtain ⟨ho, ht, hn⟩ := h.fresh hr
      exact ⟨hs.nothing ht ho, hs.transport.trans ht, hs.transports.trans hn⟩
    spent := fun hr => by
      have hspent := h.spent hr
      have htransports := hs.transports
      have htimers := hs.timers
      have hattempts := hs.reconnectAttempts
      simp only [Bool.false_eq_true, if_false, Nat.add_zero] at hr ⊢
      omega }

/-- A reset pays for five attempts, `Connect` for the transport that it makes. -/
theorem Budget.reset (h : Budget x) (hr : Resets x.client i = true)
    (hzero : (step x.client i).reconnectAttempts = 0)
    (hidle : (step x.client i).transport = none →
      (step x.client i).manualDisconnect = true ∨ (step x.client i).operations = [])
    (hcost : (step x.client i).transports + (step x.client i).timers ≤
      x.client.transports + x.client.timers + if i.isConnect then 1 else 0) : Budget (x.step i) := by
  have hpaid : (step x.client i).transports + (step x.client i).timers + kMaxReconnectAttempts ≤
      x.connects + (if i.isConnect then 1 else 0) + kMaxReconnectAttempts * (x.resets + 1) := by
    rcases Nat.eq_zero_or_pos x.resets with h0 | hpos
    · obtain ⟨ho, -, hn⟩ := h.fresh h0
      have htimers : x.client.timers = 0 := by simp [Client.timers, ho]
      rw [hn, htimers] at hcost
      rw [h0]
      omega
    · have hspent := h.spent hpos
      have hfew := h.few
      rw [Nat.mul_succ]
      omega
  rw [watch_step hc, hr]
  exact {
    few := by simp [hzero]
    waits := by simp [hzero]
    idle := hidle
    fresh := fun h0 => absurd h0 (by simp)
    spent := fun _ => hzero.symm ▸ hpaid }

/-- A wait is over, and a transport is made. -/
theorem Budget.pay (h : Budget x) (hn : i.isConnect = false) (hr : Resets x.client i = false)
    (ha : armed x.client i = []) (hpos : 0 < x.resets) (htransport : (step x.client i).transport ≠ none)
    (hattempts : (step x.client i).reconnectAttempts = x.client.reconnectAttempts)
    (hcost : (step x.client i).transports + (step x.client i).timers ≤ x.client.transports + x.client.timers) :
    Budget (x.step i) := by
  have hspent := h.spent hpos
  rw [watch_step hc, hn, hr, ha]
  exact {
    few := hattempts.trans_le h.few
    waits := by simpa [hattempts] using h.waits
    idle := fun ht => absurd ht htransport
    fresh := fun h0 => absurd h0 hpos.ne'
    spent := fun _ => by
      simp only [Bool.false_eq_true, if_false, Nat.add_zero]
      omega }

/-- An attempt is made: the timer of the current transport waits for the next delay. -/
theorem Budget.retry (h : Budget x) (hn : i.isConnect = false) (hr : Resets x.client i = false)
    (hlow : x.client.reconnectAttempts < kMaxReconnectAttempts) (hpos : 0 < x.resets)
    (ha : armed x.client i = [delayMs (x.client.reconnectAttempts + 1)])
    (hnext : (step x.client i).reconnectAttempts = x.client.reconnectAttempts + 1)
    (hsame : SameTransport x.client (step x.client i)) (htransport : x.client.transport ≠ none)
    (htimers : (step x.client i).timers ≤ x.client.timers + 1) : Budget (x.step i) := by
  have hspent := h.spent hpos
  have htransports := hsame.transports
  rw [watch_step hc, hn, hr, ha]
  exact {
    few := hnext.trans_le hlow
    waits := by simp [hnext, List.range_succ, h.waits]
    idle := fun ht => absurd (hsame.transport ▸ ht) htransport
    fresh := fun h0 => absurd h0 (by simpa using hpos.ne')
    spent := fun _ => by
      simp only [Bool.false_eq_true, if_false, Nat.add_zero]
      omega }

end Budgets

/-! ### Every step keeps the budget -/

/-- A handler step runs the handler of an operation that has completed, or does nothing. -/
theorem handles_cases {s : Client} (hc : s.crashed = false) (n : ℕ) (r : Bool) :
    (Step.handler n r).handled s = none ∧ step s (.handler n r) = s ∨
      ∃ o, (Step.handler n r).handled s = some o ∧ s.operations[n]? = some o ∧ o.status ≠ .pending ∧
        step s (.handler n r) = (s.without n).handle o r := by
  cases ho : s.operations[n]? with
  | none => exact Or.inl ⟨by simp [Step.handled, ho], by simp [step_live hc, Client.take, ho]⟩
  | some o =>
    by_cases hp : o.status = .pending
    · exact Or.inl ⟨by simp [Step.handled, ho, hp], by simp [step_live hc, Client.take, ho, hp]⟩
    · exact Or.inr ⟨o, by simp [Step.handled, ho, hp], rfl, hp, step_handler hc ho hp r⟩

theorem connectOnIoThread_transport (s : Client) :
    s.connectOnIoThread.transport = some s.transports ∧ s.connectOnIoThread.transports = s.transports + 1 := by
  have hn : s.closeTransport.transports = s.transports := (closeTransport_flags s).2.2
  unfold Client.connectOnIoThread
  dsimp only
  split
  · exact ⟨congrArg some hn, congrArg (· + 1) hn⟩
  · exact ⟨congrArg some hn, congrArg (· + 1) hn⟩

theorem connectOnIoThread_settings (s : Client) :
    s.connectOnIoThread.manualDisconnect = s.manualDisconnect ∧
      s.connectOnIoThread.reconnectAttempts = s.reconnectAttempts ∧
      s.connectOnIoThread.serverUrl = s.serverUrl := by
  have hclose : s.closeTransport.manualDisconnect = s.manualDisconnect ∧
      s.closeTransport.reconnectAttempts = s.reconnectAttempts ∧ s.closeTransport.serverUrl = s.serverUrl := by
    unfold Client.closeTransport
    split <;> exact ⟨rfl, rfl, rfl⟩
  unfold Client.connectOnIoThread
  dsimp only
  split <;> exact hclose

/-- An error makes an attempt, unless the client gives up. -/
theorem attemptReconnect_attempts (s : Client) :
    s.attemptReconnect.reconnectAttempts = if s.GivesUp then s.reconnectAttempts else s.reconnectAttempts + 1 := by
  by_cases hg : s.GivesUp
  · rw [if_pos hg, attemptReconnect_of_givesUp hg]
  · rw [if_neg hg]
    unfold Client.attemptReconnect
    rw [if_neg (by exact hg)]
    dsimp only
    split <;> rfl

/-- A success other than a handshake or a wait keeps the transport and the attempts. -/
theorem handle_ok_settings (s : Client) {kind : Kind} (hk : kind ≠ .handshake) (hk' : kind ≠ .timer) (r : Bool) :
    SameTransport s (s.onSuccess r kind) ∧ (s.onSuccess r kind).timers = s.timers ∧
      (s.onSuccess r kind).reconnectAttempts = s.reconnectAttempts := by
  cases kind with
  | handshake => exact absurd rfl hk
  | timer => exact absurd rfl hk'
  | resolve =>
    refine ⟨sameTransport_startOnWebsocket s _, timers_startOnWebsocket s (by decide), ?_⟩
    simp only [Client.onSuccess, Client.startOnWebsocket]
    split <;> rfl
  | connect =>
    refine ⟨sameTransport_startOnWebsocket s _, timers_startOnWebsocket s (by decide), ?_⟩
    simp only [Client.onSuccess, Client.startOnWebsocket]
    split <;> rfl
  | read =>
    have hsame := sameTransport_startRead (if r then s.queueJsonMessage (.listClients s.clientId) else s)
    have htimers := timers_startRead (if r then s.queueJsonMessage (.listClients s.clientId) else s)
    have hr : ∀ s' : Client, s'.startRead.reconnectAttempts = s'.reconnectAttempts := fun s' => by
      unfold Client.startRead
      split <;> rfl
    cases r with
    | false => exact ⟨hsame, htimers, hr s⟩
    | true =>
      exact ⟨⟨hsame.transport, hsame.transports, hsame.manualDisconnect, hsame.serverUrl⟩, htimers, hr _⟩
  | write =>
    have hsame := sameTransport_writeNextMessage { s with writeQueue := s.writeQueue.tail }
    have hu := unaffected_writeNextMessage { s with writeQueue := s.writeQueue.tail }
    exact ⟨⟨hsame.transport, hsame.transports, hsame.manualDisconnect, hsame.serverUrl⟩,
      timers_writeNextMessage _, hu.reconnectAttempts⟩

theorem handle_handshake_settings (s : Client) (r : Bool) :
    SameTransport s (s.onSuccess r .handshake) ∧ (s.onSuccess r .handshake).timers = s.timers ∧
      (s.onSuccess r .handshake).reconnectAttempts = 0 := by
  let s' := { s with isConnected := true, reconnectAttempts := 0 }.queueJsonMessage (.register s.clientId)
  have hsame : SameTransport s' s'.startRead := sameTransport_startRead s'
  refine ⟨⟨hsame.transport, hsame.transports, hsame.manualDisconnect, hsame.serverUrl⟩,
    timers_startRead s', ?_⟩
  show s'.startRead.reconnectAttempts = 0
  unfold Client.startRead
  split <;> rfl

/-- An error other than a wait's comes down to `AttemptReconnect`. -/
theorem handle_error_settings (s : Client) {kind : Kind} (hk : kind ≠ .timer) :
    SameTransport s (s.onError kind) ∧
      (s.onError kind).timers + s.reconnectAttempts ≤ s.timers + (s.onError kind).reconnectAttempts ∧
      (s.onError kind).reconnectAttempts =
        if s.GivesUp then s.reconnectAttempts else s.reconnectAttempts + 1 := by
  have hbase : ∀ s' : Client, SameTransport s s' → s'.timers = s.timers →
      s'.reconnectAttempts = s.reconnectAttempts → SameTransport s s'.attemptReconnect ∧
        s'.attemptReconnect.timers + s.reconnectAttempts ≤ s.timers + s'.attemptReconnect.reconnectAttempts ∧
        s'.attemptReconnect.reconnectAttempts =
          if s.GivesUp then s.reconnectAttempts else s.reconnectAttempts + 1 := by
    intro s' hs ht ha
    have hsame := sameTransport_attemptReconnect s'
    have hg : s'.GivesUp ↔ s.GivesUp := by simp only [Client.GivesUp, hs.manualDisconnect, ha]
    refine ⟨⟨hsame.transport.trans hs.transport, hsame.transports.trans hs.transports,
      hsame.manualDisconnect.trans hs.manualDisconnect, hsame.serverUrl.trans hs.serverUrl⟩, ?_, ?_⟩
    · have htimers := timers_attemptReconnect s'
      rwa [ht, ha] at htimers
    · rw [attemptReconnect_attempts, ha]
      simp only [hg]
  cases kind with
  | timer => exact absurd rfl hk
  | read | write => exact hbase s.reportDisconnected ⟨rfl, rfl, rfl, rfl⟩ rfl rfl
  | resolve | connect | handshake => exact hbase s ⟨rfl, rfl, rfl, rfl⟩ rfl rfl

theorem budget_handler {x : Watch} (hc : x.client.crashed = false) (h : Budget x) (n : ℕ) (r : Bool) :
    Budget (x.step (.handler n r)) := by
  rcases handles_cases hc n r with ⟨hh, hstay⟩ | ⟨o, hh, ho, hp, hstep⟩
  · refine h.frame hc rfl (by simp [Resets, hh]) (by simp [armed, hh]) ?_
    rw [hstay]
    exact ⟨.refl _, le_rfl, rfl, fun _ h0 => h0⟩
  · have hops : x.client.operations ≠ [] := fun h0 => by simp [h0] at ho
    have hpos : 0 < x.resets := Nat.pos_of_ne_zero fun h0 => hops (h.fresh h0).1
    have hidle : x.client.transport = none → x.client.manualDisconnect = true := fun ht =>
      (h.idle ht).resolve_right hops
    have hwithout := timers_without x.client ho
    obtain ⟨t, kind, status⟩ := o
    cases status with
    | pending => exact absurd rfl hp
    | ok =>
      by_cases hshake : kind = .handshake
      · subst hshake
        obtain ⟨hsame, htimers, hzero⟩ := handle_handshake_settings (x.client.without n) r
        refine h.reset hc (by simp [Resets, hh]) ?_ ?_ ?_ <;> rw [hstep]
        · exact hzero
        · exact fun ht => Or.inl (hsame.manualDisconnect.trans (hidle (hsame.transport.symm.trans ht)))
        · have htransports := hsame.transports
          show ((x.client.without n).onSuccess r .handshake).transports +
            ((x.client.without n).onSuccess r .handshake).timers ≤ _
          rw [htransports, htimers]
          show x.client.transports + _ ≤ _
          omega
      by_cases htimer : kind = .timer
      · subst htimer
        -- the wait that is over pays for the transport
        have htimers := timers_connectOnIoThread (x.client.without n)
        obtain ⟨htransport, htransports⟩ := connectOnIoThread_transport (x.client.without n)
        obtain ⟨-, hattempts, -⟩ := connectOnIoThread_settings (x.client.without n)
        have hspent := h.spent hpos
        have hnext : step x.client (.handler n r) = (x.client.without n).connectOnIoThread := hstep
        have hbound : (x.client.without n).connectOnIoThread.transports +
            (x.client.without n).connectOnIoThread.timers ≤ x.client.transports + x.client.timers := by
          rw [htransports]
          show x.client.transports + 1 + _ ≤ _
          simp only [ne_eq, reduceCtorEq, not_false_eq_true, and_self, if_true] at hwithout
          omega
        exact h.pay hc rfl (by simp [Resets, hh]) (by simp [armed, hh]) hpos (by rw [hnext, htransport]; simp)
          (by rw [hnext]; exact hattempts) (by rwa [hnext])
      obtain ⟨hsame, htimers, hattempts⟩ := handle_ok_settings (x.client.without n) hshake htimer r
      refine h.frame hc rfl (by cases kind <;> simp_all [Resets]) (by simp [armed, hh]) ?_
      rw [hstep]
      refine ⟨hsame.of_without, ?_, hattempts, fun _ h0 => absurd h0 hops⟩
      exact htimers.le.trans (by omega)
    | error =>
      by_cases htimer : kind = .timer
      · subst htimer
        refine h.frame hc rfl (by simp [Resets, hh]) (by simp [armed, hh]) ?_
        rw [hstep]
        exact ⟨⟨rfl, rfl, rfl, rfl⟩, Nat.le_of_add_right_le hwithout.le, rfl, fun _ h0 => absurd h0 hops⟩
      obtain ⟨hsame, htimers, hattempts⟩ := handle_error_settings (x.client.without n) htimer
      have hnoreset : Resets x.client (.handler n r) = false := by cases kind <;> simp_all [Resets]
      have hnext : step x.client (.handler n r) = (x.client.without n).onError kind := hstep
      have hsame' : SameTransport x.client (step x.client (.handler n r)) := hnext ▸ hsame.of_without
      rw [← hnext] at htimers hattempts
      have hbefore : (x.client.without n).timers ≤ x.client.timers := Nat.le_of_add_right_le hwithout.le
      by_cases hg : x.client.GivesUp
      · rw [if_pos (by exact hg)] at hattempts
        refine h.frame hc rfl hnoreset (by simp [armed, hh, hg]) ?_
        exact ⟨hsame', by omega, hattempts, fun _ h0 => absurd h0 hops⟩
      · rw [if_neg (by exact hg)] at hattempts
        obtain ⟨hmanual, hlow⟩ := not_or.mp hg
        have htransport : x.client.transport ≠ none := fun ht => hmanual (hidle ht)
        refine h.retry hc rfl hnoreset (not_le.mp hlow) hpos ?_ hattempts hsame' htransport ?_
        · simp [armed, hh, htimer, hg, htransport]
        · rw [hattempts] at htimers
          change _ + x.client.reconnectAttempts ≤ _ + (x.client.reconnectAttempts + 1) at htimers
          omega

theorem budget_step (x : Watch) (i : Step) (h : Budget x) : Budget (x.step i) := by
  by_cases hc : x.client.crashed = true
  · rw [Watch.step, if_pos hc]
    exact h
  replace hc : x.client.crashed = false := by simpa using hc
  cases i with
  | connect url clientId =>
    let s : Client := { x.client with
      serverUrl := url, clientId := clientId, manualDisconnect := false, reconnectAttempts := 0 }
    obtain ⟨htransport, htransports⟩ := connectOnIoThread_transport s
    refine h.reset hc rfl ?_ ?_ ?_ <;> rw [step_live hc]
    · exact (connectOnIoThread_settings s).2.1
    · exact fun ht => absurd (htransport.symm.trans ht) (by simp)
    · have htimers : s.connectOnIoThread.timers ≤ x.client.timers := timers_connectOnIoThread s
      show s.connectOnIoThread.transports + s.connectOnIoThread.timers ≤ _
      rw [htransports]
      show x.client.transports + 1 + _ ≤ x.client.transports + _ + 1
      omega
  | disconnect =>
    let s : Client := { x.client with manualDisconnect := true, reconnectAttempts := 0 }
    obtain ⟨hmanual, -, htransports⟩ := closeTransport_flags s
    refine h.reset hc rfl ?_ ?_ ?_ <;> rw [step_live hc]
    · show s.closeTransport.reconnectAttempts = 0
      unfold Client.closeTransport
      split <;> rfl
    · exact fun _ => Or.inl hmanual
    · have htimers : s.closeTransport.timers ≤ x.client.timers := timers_closeTransport s
      show s.closeTransport.transports + s.closeTransport.timers ≤ _
      rw [htransports]
      exact Nat.add_le_add_left htimers _
  | queue m =>
    refine h.frame hc rfl rfl rfl ?_
    rw [step_live hc]
    exact ⟨⟨rfl, rfl, rfl, rfl⟩, le_rfl, rfl, fun _ h0 => h0⟩
  | runPosted =>
    refine h.frame hc rfl rfl rfl ?_
    rw [step_live hc]
    simp only [Client.take]
    split
    · exact ⟨.refl _, le_rfl, rfl, fun _ h0 => h0⟩
    · rename_i m rest _
      have hframe := frame_enqueue { x.client with posted := rest } m
      exact ⟨⟨hframe.transport, hframe.transports, hframe.manualDisconnect, hframe.serverUrl⟩, hframe.timers,
        hframe.reconnectAttempts, hframe.nothing⟩
  | finish n status =>
    refine h.frame hc rfl rfl rfl ?_
    rw [step_live hc]
    exact frame_finish x.client n status
  | handler n r => exact budget_handler hc h n r

theorem budget_run (l : List Step) : Budget (run Watch.step {} l) :=
  run_invariant' budget_step ⟨Nat.zero_le _, rfl, fun _ => Or.inr rfl, fun _ => ⟨rfl, rfl, rfl⟩,
    fun h => absurd h (by simp)⟩ l

theorem watch_step_client (x : Watch) (i : Step) : (x.step i).client = step x.client i := by
  by_cases hc : x.client.crashed = true
  · rw [Watch.step, if_pos hc, Signal.step, if_pos hc]
  · rw [watch_step (by simpa using hc)]

/-- Watching changes nothing. -/
theorem watch_client (l : List Step) : (run Watch.step {} l).client = run step {} l := by
  induction l using List.reverseRecOn with
  | nil => rfl
  | append_singleton l i ih => rw [run_concat, run_concat, watch_step_client, ih]

/-- **Retries are bounded, and back off.**  In every run, whatever the operations come to and whichever transport they
belonged to: the client makes at most one transport for each `Connect` and five for each time its attempts were set
back to 0; and since the last time it has waited for as many delays as it has made attempts, which begin
1, 2, 4, 8 and 10 seconds and are no more than these five. -/
theorem retries_bounded (l : List Step) :
    let s := run step {} l
    let x := run Watch.step {} l
    s.transports ≤ x.connects + 5 * x.resets ∧
      x.delays.length = s.reconnectAttempts ∧ x.delays <+: [1000, 2000, 4000, 8000, 10000] := by
  intro s x
  have h : Budget x := budget_run l
  have hs : s = x.client := (watch_client l).symm
  clear_value s
  subst hs
  have hlow : x.client.reconnectAttempts ≤ 5 := h.few
  refine ⟨?_, by rw [h.waits]; simp, ?_⟩
  · rcases Nat.eq_zero_or_pos x.resets with h0 | hpos
    · rw [(h.fresh h0).2.2]
      exact Nat.zero_le _
    · have hspent := h.spent hpos
      simp only [kMaxReconnectAttempts] at hspent
      omega
  · have hall : (List.range 5).map (fun k => delayMs (k + 1)) = [1000, 2000, 4000, 8000, 10000] := by decide
    have hrange : List.range x.client.reconnectAttempts = (List.range 5).take x.client.reconnectAttempts := by
      rw [List.take_range, min_eq_left hlow]
    rw [h.waits, ← hall, hrange]
    exact (List.take_prefix _ _).map _

/-- Five refused connections in a row: the sixth transport is the last. -/
example :
    let refused : List Step := [.finish 0 .error, .handler 0 false, .finish 0 .ok, .handler 0 false]
    let x := run Watch.step {} (.connect "ws://localhost:8081" "alice" ::
      (List.replicate 5 refused).flatten ++ [.finish 0 .error, .handler 0 false])
    x.client.transports = 6 ∧ x.delays = [1000, 2000, 4000, 8000, 10000] ∧ x.client.operations = [] := by
  decide +kernel

/-! ### Something is under way -/

/-- The completion of `o` leads to a connection, or to the next attempt: everything but a write and an aborted
wait. -/
def Operation.Leads (o : Operation) : Prop := o.kind ≠ .write ∧ (o.kind = .timer → o.status ≠ .error)

instance (o : Operation) : Decidable o.Leads := by unfold Operation.Leads; infer_instance

/-- Such an operation of the current transport is outstanding. -/
def Client.UnderWay (s : Client) : Prop := ∃ o ∈ s.operations, s.transport = some o.transport ∧ o.Leads

/-- All that a client which is to be connected and has stopped may have stopped for. -/
def Client.Stopped (s : Client) : Prop :=
  s.reconnectAttempts ≥ kMaxReconnectAttempts ∨ ∃ e, parseUrl s.serverUrl = .error e

/-- A wait fails only where it is cancelled. -/
def Waits (s : Client) : Step → Prop
  | .finish n .error => s.operations[n]?.map Operation.kind ≠ some .timer
  | _ => True

instance (s : Client) (i : Step) : Decidable (Waits s i) := by unfold Waits; split <;> infer_instance

/-- A client is disconnected by the user, has never been connected, or goes on until it stops. -/
inductive Going (s : Client) : Prop
  | manual (h : s.manualDisconnect = true)
  | unused (h : s.operations = []) (ht : s.transport = none) (hn : s.transports = 0)
  | underWay (t : ℕ) (ht : s.transport = some t) (h : s.UnderWay)
  | stopped (t : ℕ) (ht : s.transport = some t) (h : s.Stopped)

theorem Client.UnderWay.start {s : Client} {t : ℕ} (ht : s.transport = some t) {kind : Kind}
    (hk : kind ≠ .write) : (s.start t kind).UnderWay :=
  ⟨⟨t, kind, .pending⟩, List.mem_append_right _ (by simp), ht, hk, fun _ => by simp⟩

theorem Client.UnderWay.writeNextMessage {s : Client} (h : s.UnderWay) : s.writeNextMessage.UnderWay := by
  obtain ⟨o, ho, ht, hl⟩ := h
  unfold Client.writeNextMessage
  rw [ht]
  dsimp only
  split_ifs
  · exact ⟨o, ho, ht, hl⟩
  · exact ⟨o, List.mem_append_left _ ho, ht, hl⟩

theorem Client.UnderWay.enqueue {s : Client} (h : s.UnderWay) (m : Outgoing) : (s.enqueue m).UnderWay := by
  have hqueue : ({ s with writeQueue := s.writeQueue ++ [m] } : Client).UnderWay := h
  unfold Client.enqueue
  split
  · exact h
  · dsimp only
    split_ifs
    · exact hqueue.writeNextMessage
    · exact hqueue

theorem Client.UnderWay.startRead {s : Client} {t : ℕ} (ht : s.transport = some t) : s.startRead.UnderWay := by
  unfold Client.startRead
  rw [ht]
  exact Client.UnderWay.start ht (by simp)

/-- Only the handlers of a write and of an aborted wait leave what is under way to the other operations. -/
theorem Client.UnderWay.without {s : Client} (h : s.UnderWay) {n : ℕ} {o : Operation} (ho : s.operations[n]? = some o)
    (hl : ¬ o.Leads) : (s.without n).UnderWay := by
  obtain ⟨o', ho', ht', hl'⟩ := h
  refine ⟨o', List.mem_eraseIdx_iff_getElem?.mpr ?_, ht', hl'⟩
  obtain ⟨j, hj⟩ := List.getElem?_of_mem ho'
  refine ⟨j, ?_, hj⟩
  rintro rfl
  exact hl (Option.some.inj (hj.symm.trans ho) ▸ hl')

theorem going_connectOnIoThread (s : Client) : Going s.connectOnIoThread := by
  have htransport := (connectOnIoThread_transport s).1
  cases hp : parseUrl s.serverUrl with
  | error e =>
    refine .stopped s.transports htransport (Or.inr ⟨e, ?_⟩)
    rwa [(connectOnIoThread_settings s).2.2]
  | ok url =>
    refine .underWay s.transports htransport ?_
    have hclose : s.closeTransport.recreateTransport.transport = some s.transports :=
      congrArg some (closeTransport_flags s).2.2
    unfold Client.connectOnIoThread
    rw [hp]
    exact Client.UnderWay.start hclose (by decide : Kind.resolve ≠ .write)

theorem going_attemptReconnect {s : Client} {t : ℕ} (ht : s.transport = some t) : Going s.attemptReconnect := by
  by_cases hg : s.GivesUp
  · rw [attemptReconnect_of_givesUp hg]
    rcases hg with hm | ha
    · exact .manual hm
    · exact .stopped t ht (Or.inl ha)
  · refine .underWay t ((sameTransport_attemptReconnect s).transport.trans ht) ?_
    unfold Client.attemptReconnect
    rw [if_neg (by exact hg)]
    dsimp only
    split
    · rename_i hnone
      simp [ht] at hnone
    · rename_i t' ht'
      have hcancel :
          ({ s with reconnectAttempts := s.reconnectAttempts + 1 }.cancel t' (· = Kind.timer)).transport = some t' :=
        ht'
      exact Client.UnderWay.start hcancel (by decide : Kind.timer ≠ .write)

/-- Only `Connect` and `Disconnect` write the flag. -/
theorem handle_manualDisconnect (s : Client) (o : Operation) (r : Bool) :
    (s.handle o r).manualDisconnect = s.manualDisconnect := by
  obtain ⟨t, kind, status⟩ := o
  cases status with
  | pending => rfl
  | ok =>
    by_cases hshake : kind = .handshake
    · subst hshake
      exact (handle_handshake_settings s r).1.manualDisconnect
    by_cases htimer : kind = .timer
    · subst htimer
      exact (connectOnIoThread_settings s).1
    exact (handle_ok_settings s hshake htimer r).1.manualDisconnect
  | error =>
    by_cases htimer : kind = .timer
    · subst htimer
      rfl
    exact (handle_error_settings s htimer).1.manualDisconnect

/-- The handler of a completed operation leads on, or leaves what is under way alone. -/
theorem going_handler {s : Client} {n : ℕ} {o : Operation} (ho : s.operations[n]? = some o)
    (hp : o.status ≠ .pending) (r : Bool) (h : Going s) : Going ((s.without n).handle o r) := by
  have hkeep : ∀ {s'}, SameTransport s s' → s'.reconnectAttempts = s.reconnectAttempts → ¬ o.Leads →
      ((s.without n).UnderWay → s'.UnderWay) → Going s' := by
    intro s' hs ha hl hu
    cases h with
    | manual hm => exact .manual (hs.manualDisconnect.trans hm)
    | unused h0 _ _ => simp [h0] at ho
    | underWay t ht h => exact .underWay t (hs.transport.trans ht) (hu (h.without ho hl))
    | stopped t ht h =>
      refine .stopped t (hs.transport.trans ht) ?_
      rw [Client.Stopped, ha, hs.serverUrl]
      exact h
  by_cases hm : s.manualDisconnect = true
  · exact .manual ((handle_manualDisconnect (s.without n) o r).trans hm)
  obtain ⟨t, ht⟩ : ∃ t, s.transport = some t := by
    cases h with
    | manual h => exact absurd h hm
    | unused h0 _ _ => simp [h0] at ho
    | underWay t ht _ | stopped t ht _ => exact ⟨t, ht⟩
  have ht' : (s.without n).transport = some t := ht
  obtain ⟨t₀, kind, status⟩ := o
  cases status with
  | pending => exact absurd rfl hp
  | ok =>
    cases kind with
    | resolve | connect =>
      refine .underWay t ((sameTransport_startOnWebsocket (s.without n) _).transport.trans ht') ?_
      simp only [Client.handle, Client.onSuccess, Client.startOnWebsocket, ht']
      refine Client.UnderWay.start ht' ?_
      decide
    | handshake =>
      exact .underWay t ((handle_handshake_settings (s.without n) r).1.transport.trans ht')
        (Client.UnderWay.startRead ht')
    | read =>
      obtain ⟨hsame, -, -⟩ := handle_ok_settings (s.without n) (by decide : Kind.read ≠ .handshake) (by decide) r
      refine .underWay t (hsame.transport.trans ht') ?_
      cases r <;> exact Client.UnderWay.startRead ht'
    | write =>
      obtain ⟨hsame, -, ha⟩ := handle_ok_settings (s.without n) (by decide : Kind.write ≠ .handshake) (by decide) r
      refine hkeep hsame.of_without ha (fun hl => hl.1 rfl) fun hu => ?_
      exact Client.UnderWay.writeNextMessage (s := { s.without n with writeQueue := s.writeQueue.tail }) hu
    | timer => exact going_connectOnIoThread (s.without n)
  | error =>
    cases kind with
    | timer => exact hkeep ⟨rfl, rfl, rfl, rfl⟩ rfl (fun hl => hl.2 rfl rfl) id
    | read | write =>
      exact going_attemptReconnect (s := (s.without n).reportDisconnected) ht'
    | resolve | connect | handshake => exact going_attemptReconnect (s := s.without n) ht'

theorem going_step (s : Client) (i : Step) (h : Going s) (hok : Waits s i) : Going (step s i) := by
  by_cases hc : s.crashed = true
  · rw [Signal.step, if_pos hc]
    exact h
  replace hc : s.crashed = false := by simpa using hc
  -- what has no part in the connection keeps it going
  have hframe : ∀ {s'}, Frame s s' → (s.UnderWay → s'.UnderWay) → Going s' := by
    intro s' hs hu
    cases h with
    | manual hm => exact .manual (hs.manualDisconnect.trans hm)
    | unused h0 ht hn => exact .unused (hs.nothing ht h0) (hs.transport.trans ht) (hs.transports.trans hn)
    | underWay t ht h => exact .underWay t (hs.transport.trans ht) (hu h)
    | stopped t ht h =>
      refine .stopped t (hs.transport.trans ht) ?_
      rw [Client.Stopped, hs.reconnectAttempts, hs.serverUrl]
      exact h
  cases i with
  | connect url clientId =>
    rw [step_live hc]
    exact going_connectOnIoThread _
  | disconnect =>
    rw [step_live hc]
    exact .manual (closeTransport_flags { s with manualDisconnect := true, reconnectAttempts := 0 }).1
  | queue m =>
    rw [step_live hc]
    exact hframe ⟨⟨rfl, rfl, rfl, rfl⟩, le_rfl, rfl, fun _ h0 => h0⟩ id
  | runPosted =>
    rw [step_live hc]
    simp only [Client.take]
    split
    · exact h
    · rename_i m rest _
      have hf := frame_enqueue { s with posted := rest } m
      exact hframe ⟨⟨hf.transport, hf.transports, hf.manualDisconnect, hf.serverUrl⟩, hf.timers,
        hf.reconnectAttempts, hf.nothing⟩ fun hu => Client.UnderWay.enqueue (s := { s with posted := rest }) hu m
  | finish n status =>
    rw [step_live hc]
    refine hframe (frame_finish s n status) ?_
    rintro ⟨o, ho, ht, hl⟩
    obtain ⟨j, hj⟩ := List.getElem?_of_mem ho
    let f : Operation → Operation := fun o => if o.status = .pending then { o with status := status } else o
    have hmem : (if n = j then f o else o) ∈ s.operations.modify n f := by
      refine List.mem_of_getElem? (i := j) ?_
      rw [List.getElem?_modify, hj]
      split_ifs <;> rfl
    have hkind : (f o).kind = o.kind ∧ (f o).transport = o.transport := by
      show (ite _ _ _ : Operation).kind = _ ∧ (ite _ _ _ : Operation).transport = _
      split_ifs <;> exact ⟨rfl, rfl⟩
    refine ⟨if n = j then f o else o, hmem, ?_, ?_⟩
    · split_ifs
      · exact ht.trans (congrArg some hkind.2.symm)
      · exact ht
    · split_ifs with hn
      · subst hn
        refine ⟨hkind.1 ▸ hl.1, fun hk hs => ?_⟩
        rw [hkind.1] at hk
        by_cases hpending : o.status = .pending
        · have hstatus : status = .error := by simpa [f, hpending] using hs
          subst hstatus
          exact hok (by rw [hj, Option.map_some, hk])
        · have hsame : f o = o := if_neg hpending
          exact hl.2 hk (hsame ▸ hs)
      · exact hl
  | handler n r =>
    rcases handles_cases hc n r with ⟨-, hstay⟩ | ⟨o, -, ho, hp, hstep⟩
    · rwa [hstay]
    · rw [hstep]
      exact going_handler ho hp r h

/-- **The client never stalls.**  In every run in which no wait fails unless it is cancelled, whatever else succeeds or
fails and however late a handler runs: a client that was told to connect and not to disconnect since has an operation
of its current transport outstanding whose completion brings it on, or has used up its five attempts, or has a URL
that `ParseUrl` refuses. -/
theorem never_stalls (l : List Step) (hl : Meets step Waits {} l) :
    let s := run step {} l
    s.manualDisconnect = false → 0 < s.transports → s.UnderWay ∨ s.Stopped := by
  intro s hm hn
  have hgoing : Going s := run_invariant (P := Going) going_step (.unused rfl rfl rfl) hl
  cases hgoing with
  | manual h => simp [hm] at h
  | unused _ _ h0 => exact absurd h0 hn.ne'
  | underWay t _ h => exact Or.inl h
  | stopped t _ h => exact Or.inr h

/-- The host cannot be resolved: the wait for the next attempt is under way. -/
theorem unresolved_waits :
    (run step {} [.connect "ws://localhost:8081" "alice", .finish 0 .error, .handler 0 false]).UnderWay := by
  have h := never_stalls [.connect "ws://localhost:8081" "alice", .finish 0 .error, .handler 0 false]
    (by decide) (by decide) (by decide)
  refine h.resolve_right ?_
  rintro (hattempts | ⟨e, hurl⟩)
  · exact absurd hattempts (by decide)
  · have hparsed : parseUrl "ws://localhost:8081" = .ok ⟨"localhost", "8081", "/"⟩ := by decide +kernel
    cases hparsed.symm.trans hurl

/-! ### What the observer knows -/

/-- What a notice says about the connection. -/
def Notice.connected : Notice → Option Bool
  | .onConnected _ => some true
  | .onDisconnected => some false
  | .onConnectionError _ => none

/-- What the observer has been told about the connection, one after the other; before the first notice it is down. -/
def told (l : List Notice) : List Bool := false :: l.filterMap Notice.connected

theorem told_ne_nil (l : List Notice) : told l ≠ [] := List.cons_ne_nil _ _

/-- A step tells nothing and changes nothing, or tells what it changes `is_connected_` to. -/
inductive Tells (s s' : Client) (l : List Notice) : Prop
  | nothing (h : l.filterMap Notice.connected = []) (hs : s'.isConnected = s.isConnected)
  | up (h : l.filterMap Notice.connected = [true]) (hs : s'.isConnected = true)
  | down (h : l.filterMap Notice.connected = [false]) (hs : s.isConnected = true) (hs' : s'.isConnected = false)

theorem tells_urlNotices {s s' : Client} (h : s'.isConnected = s.isConnected) (url : String) :
    Tells s s' (urlNotices url) := by
  refine .nothing ?_ h
  unfold urlNotices
  split <;> rfl

/-- `ReportDisconnected(true)`, after what the observer was told about the error. -/
theorem tells_disconnectNotices {s s' : Client} (h : s'.isConnected = false) (l : List Notice)
    (hl : l.filterMap Notice.connected = []) : Tells s s' (l ++ s.disconnectNotices) := by
  cases hs : s.isConnected with
  | true => exact .down (by simp [Client.disconnectNotices, hs, hl, Notice.connected]) hs h
  | false => exact .nothing (by simp [Client.disconnectNotices, hs, hl]) (h.trans hs.symm)

section IsConnected

variable (s : Client)

theorem isConnected_startRead : s.startRead.isConnected = s.isConnected := by
  unfold Client.startRead
  split <;> rfl

theorem isConnected_startOnWebsocket (kind : Kind) : (s.startOnWebsocket kind).isConnected = s.isConnected := by
  unfold Client.startOnWebsocket
  split <;> rfl

theorem isConnected_attemptReconnect : s.attemptReconnect.isConnected = s.isConnected := by
  unfold Client.attemptReconnect
  split_ifs
  · rfl
  · dsimp only
    split <;> rfl

theorem isConnected_connectOnIoThread : s.connectOnIoThread.isConnected = s.isConnected := by
  have hclose : s.closeTransport.isConnected = s.isConnected := by
    unfold Client.closeTransport
    split <;> rfl
  unfold Client.connectOnIoThread
  dsimp only
  split <;> exact hclose

end IsConnected

theorem tells_handler {s : Client} (hc : s.crashed = false) (n : ℕ) (r : Bool) :
    Tells s (step s (.handler n r)) (notices s (.handler n r)) := by
  rcases handles_cases hc n r with ⟨hh, hstay⟩ | ⟨o, hh, ho, hp, hstep⟩
  · rw [hstay]
    exact .nothing (by simp [notices, hh]) rfl
  rw [hstep]
  obtain ⟨t, kind, status⟩ := o
  cases status with
  | pending => exact absurd rfl hp
  | ok =>
    cases kind with
    | resolve | connect =>
      exact .nothing (by simp [notices, hh]) (isConnected_startOnWebsocket (s.without n) _)
    | handshake => exact .up (by simp [notices, hh, Notice.connected]) (isConnected_startRead _)
    | read =>
      refine .nothing (by simp [notices, hh]) ((isConnected_startRead _).trans ?_)
      cases r <;> rfl
    | write =>
      have hu := unaffected_writeNextMessage { s.without n with writeQueue := s.writeQueue.tail }
      exact .nothing (by simp [notices, hh]) hu.isConnected
    | timer =>
      have hn : notices s (.handler n r) = urlNotices s.serverUrl := by simp [notices, hh]
      rw [hn]
      refine tells_urlNotices ?_ s.serverUrl
      exact isConnected_connectOnIoThread (s.without n)
  | error =>
    cases kind with
    | timer => exact .nothing (by simp [notices, hh]) rfl
    | read | write =>
      have hdown := isConnected_attemptReconnect (s.without n).reportDisconnected
      simp only [notices, hh]
      exact tells_disconnectNotices hdown [_] rfl
    | resolve | connect | handshake =>
      refine .nothing (by simp [notices, hh, Notice.connected]) ?_
      exact isConnected_attemptReconnect (s.without n)

theorem tells_step {s : Client} (hc : s.crashed = false) (i : Step) : Tells s (step s i) (notices s i) := by
  cases i with
  | connect url clientId =>
    rw [step_live hc]
    refine tells_urlNotices ?_ url
    exact isConnected_connectOnIoThread { s with
      serverUrl := url, clientId := clientId, manualDisconnect := false, reconnectAttempts := 0 }
  | disconnect =>
    rw [step_live hc]
    exact tells_disconnectNotices rfl [] rfl
  | queue m =>
    rw [step_live hc]
    exact .nothing rfl rfl
  | runPosted =>
    rw [step_live hc]
    refine .nothing rfl ?_
    simp only [Client.take]
    split
    · rfl
    · exact (unaffected_enqueue _ _).isConnected
  | finish n status =>
    rw [step_live hc]
    exact .nothing rfl rfl
  | handler n r => exact tells_handler hc n r

/-- The observer was never told twice in a row that the connection is down, and knows the flag. -/
structure Told (x : Watch) : Prop where
  chain : (told x.notices).IsChain fun a b => a = true ∨ b = true
  last : (told x.notices).getLast (told_ne_nil _) = x.client.isConnected

theorem told_append (l l' : List Notice) : told (l ++ l') = told l ++ l'.filterMap Notice.connected := by
  simp [told]

theorem told_step (x : Watch) (i : Step) (h : Told x) : Told (x.step i) := by
  by_cases hc : x.client.crashed = true
  · rw [Watch.step, if_pos hc]
    exact h
  replace hc : x.client.crashed = false := by simpa using hc
  rw [watch_step hc]
  -- one more notice `b`
  have hone : ∀ b, (notices x.client i).filterMap Notice.connected = [b] → (step x.client i).isConnected = b →
      (x.client.isConnected = true ∨ b = true) →
        (told (x.notices ++ notices x.client i)).IsChain (fun a b => a = true ∨ b = true) ∧
          (told (x.notices ++ notices x.client i)).getLast (told_ne_nil _) = (step x.client i).isConnected := by
    intro b hb hs hab
    simp only [told_append, hb]
    refine ⟨h.chain.append (List.isChain_singleton b) fun a ha b' hb' => ?_, by simp [hs]⟩
    rw [List.getLast?_eq_some_getLast (told_ne_nil _), h.last] at ha
    obtain rfl : x.client.isConnected = a := by simpa using ha
    obtain rfl : b = b' := by simpa using hb'
    exact hab
  cases tells_step hc i with
  | nothing hnone hs =>
    refine ⟨?_, ?_⟩
    all_goals simp only [told_append, hnone, List.append_nil]
    · exact h.chain
    · exact h.last.trans hs.symm
  | up hb hs => exact ⟨(hone true hb hs (Or.inr rfl)).1, (hone true hb hs (Or.inr rfl)).2⟩
  | down hb hs hs' => exact ⟨(hone false hb hs' (Or.inl hs)).1, (hone false hb hs' (Or.inl hs)).2⟩

/-- **The notices follow the connection.**  In every run, however late a handler runs and whichever transport it was
started on: the last that the observer was told about the connection is what `IsConnected` returns, and it is never
told of a disconnection that was not preceded by a connection told since the one before. -/
theorem notices_follow (l : List Step) :
    let x := run Watch.step {} l
    (told x.notices).getLast (told_ne_nil _) = (run step {} l).isConnected ∧
      ∀ before after, x.notices.filterMap Notice.connected = before ++ false :: after →
        before.getLast? = some true := by
  intro x
  have h : Told x := run_invariant' told_step ⟨List.isChain_singleton _, rfl⟩ l
  refine ⟨h.last.trans (congrArg Client.isConnected (watch_client l)), fun before after heq => ?_⟩
  have hchain := h.chain
  unfold told at hchain
  rw [heq] at hchain
  rcases List.eq_nil_or_concat before with rfl | ⟨before', b, rfl⟩
  · simp at hchain
  · rw [List.concat_append, List.isChain_cons_append_cons_cons] at hchain
    obtain rfl : b = true := hchain.2.1.resolve_right (by simp)
    simp

end PeerCall.Signal
