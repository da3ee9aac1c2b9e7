import PeerCall.Signal.Superseded

/-!
# Signal.Outgoing — the queue of outgoing messages on one transport

`QueueJsonMessage` starts a write when its message is the only one, a completed write starts the next one.  An
`Outbox` watches the client from the step that makes a transport on: which messages are put on the queue,
what is in the buffer of the write under way, which writes succeed.

* `outgoing_fifo`: **one write at a time, of the front element, in the order of the queue**, until the transport is
  closed.
-/

namespace PeerCall.Signal

open PeerCall.Lib

/-- The client, and what has become of the messages since its transport was made; `writing` is the front element
of the queue when the last write was started. -/
structure Outbox where
  client : Client
  queued : List Outgoing := []
  writing : Option Outgoing := none
  succeeded : List Outgoing := []
  failed : Bool := false
  deriving DecidableEq, Repr

/-- The writes on the transport `t` that are outstanding. -/
def Client.writes (s : Client) (t : ℕ) : ℕ :=
  (s.operations.map fun o => (o.transport, o.kind)).count (t, .write)

/-- The operation that a step runs the handler of. -/
def Step.handled (s : Client) : Step → Option Operation
  | .handler n _ => s.operations[n]?.filter fun o => o.status ≠ .pending
  | _ => none

/-- `CloseTransport` is called in the step: by `Connect`, `Disconnect` or the reconnect timer. -/
def Step.closes (s : Client) : Step → Bool
  | .connect _ _ | .disconnect => true
  | i => (i.handled s).any fun o => o.kind = .timer && o.status = .ok

/-- A write on another transport than `t` has succeeded, and its handler runs in the step. -/
def Step.foreign (s : Client) (t : ℕ) (i : Step) : Bool :=
  (i.handled s).any fun o => o.kind = .write && o.status = .ok && o.transport ≠ t

namespace Outbox

/-- One step of the client, watched on the transport `t`. -/
def step (t : ℕ) (x : Outbox) (i : Step) : Outbox :=
  let client := Signal.step x.client i
  let finished := (i.handled x.client).any fun o => o.transport = t && o.kind = .write
  let outstanding := x.client.writes t - if finished then 1 else 0
  { client := client
    queued := x.queued ++ if i = .runPosted then client.writeQueue.drop x.client.writeQueue.length else []
    writing :=
      if outstanding < client.writes t then client.writeQueue.head? else if finished then none else x.writing
    succeeded := x.succeeded ++ if i.handled x.client = some ⟨t, .write, .ok⟩ then x.writing.toList else []
    failed := x.failed || decide (i.handled x.client = some ⟨t, .write, .error⟩) }

/-- The transport is not closed, and the writes that succeed are writes on it. -/
def Within (t : ℕ) (x : Outbox) (i : Step) : Prop := i.closes x.client = false ∧ i.foreign x.client t = false

instance (t : ℕ) (x : Outbox) (i : Step) : Decidable (Within t x i) := inferInstanceAs (Decidable (_ ∧ _))

/-- What is required of the queue. -/
structure Faithful (t : ℕ) (x : Outbox) : Prop where
  atMostOne : x.client.writes t ≤ 1
  onFront : 0 < x.client.writes t → x.writing ≠ none ∧ x.client.writeQueue.head? = x.writing
  written : x.succeeded <+: x.queued
  progress : x.failed = false → (x.client.writeQueue ≠ [] ↔ 0 < x.client.writes t)

end Outbox

/-! ### The writes that are outstanding -/

section Writes

variable (s : Client) (t : ℕ)

theorem writes_start (t' : ℕ) (kind : Kind) :
    (s.start t' kind).writes t = s.writes t + if t' = t ∧ kind = .write then 1 else 0 := by
  unfold Client.writes Client.start
  rw [List.map_append, List.count_append, List.map_singleton, List.count_singleton]
  simp

theorem writes_cancel (t' : ℕ) (p : Kind → Bool) : (s.cancel t' p).writes t = s.writes t := by
  unfold Client.writes
  rw [keys_cancel]

/-- Completing an operation leaves it outstanding until its handler runs. -/
theorem writes_finish {s : Client} (hc : s.crashed = false) (n : ℕ) (status : Status) :
    (step s (.finish n status)).writes t = s.writes t := by
  unfold Client.writes
  rw [keys_finish hc]

theorem writes_without {s : Client} {n : ℕ} {o : Operation} (ho : s.operations[n]? = some o) :
    (s.without n).writes t + (if o.transport = t ∧ o.kind = .write then 1 else 0) = s.writes t := by
  obtain ⟨hn, rfl⟩ := List.getElem?_eq_some_iff.mp ho
  have hperm := (List.getElem_cons_eraseIdx_perm hn).map fun o => (o.transport, o.kind)
  have hcount := hperm.count_eq (t, Kind.write)
  rw [List.map_cons, List.count_cons] at hcount
  unfold Client.writes Client.without
  rw [← hcount]
  simp [Prod.ext_iff]

end Writes

/-- Nothing changes for the queue and for the writes on `t`. -/
structure Aside (t : ℕ) (s s' : Client) : Prop where
  crashed : s'.crashed = s.crashed
  transport : s'.transport = s.transport
  writeQueue : s'.writeQueue = s.writeQueue
  writes : s'.writes t = s.writes t

section Aside

variable {t : ℕ} {s s' s'' : Client}

theorem Aside.refl (t : ℕ) (s : Client) : Aside t s s := ⟨rfl, rfl, rfl, rfl⟩

theorem Aside.trans (h : Aside t s s') (h' : Aside t s' s'') : Aside t s s'' :=
  ⟨h'.crashed.trans h.crashed, h'.transport.trans h.transport, h'.writeQueue.trans h.writeQueue,
    h'.writes.trans h.writes⟩

theorem aside_start (s : Client) (t' : ℕ) {kind : Kind} (hk : kind ≠ .write) : Aside t s (s.start t' kind) :=
  ⟨rfl, rfl, rfl, by rw [writes_start, if_neg fun h => hk h.2, Nat.add_zero]⟩

theorem aside_startRead (s : Client) : Aside t s s.startRead := by
  unfold Client.startRead
  split
  · exact .refl t s
  · exact aside_start s _ (by simp)

theorem aside_startOnWebsocket (h : s.transport = some t) {kind : Kind} (hk : kind ≠ .write) :
    Aside t s (s.startOnWebsocket kind) := by
  unfold Client.startOnWebsocket
  rw [h]
  exact aside_start s t hk

theorem aside_attemptReconnect (s : Client) : Aside t s s.attemptReconnect := by
  unfold Client.attemptReconnect
  split_ifs
  · exact .refl t s
  · dsimp only
    split
    · exact ⟨rfl, rfl, rfl, rfl⟩
    · rename_i t' _
      have hcancel : Aside t s (({ s with reconnectAttempts := s.reconnectAttempts + 1 } : Client).cancel t'
          (· = .timer)) := ⟨rfl, rfl, rfl, writes_cancel _ t t' _⟩
      exact hcancel.trans (aside_start _ _ (by simp))

/-- A handler that neither closes the transport nor completes a write successfully. -/
theorem aside_handle (h : s.transport = some t) {o : Operation} (r : Bool)
    (ho : o.status = .ok → o.kind ≠ .timer ∧ o.kind ≠ .write) : Aside t s (s.handle o r) := by
  obtain ⟨t', kind, status⟩ := o
  cases status with
  | pending => exact .refl t s
  | ok =>
    obtain ⟨htimer, hwrite⟩ := ho rfl
    cases kind with
    | resolve | connect => exact aside_startOnWebsocket h (by simp)
    | handshake =>
      have hqueue : Aside t s ({ s with isConnected := true, reconnectAttempts := 0 }.queueJsonMessage
          (.register s.clientId)) := ⟨rfl, rfl, rfl, rfl⟩
      exact hqueue.trans (aside_startRead _)
    | read =>
      have hqueue : Aside t s (if r then s.queueJsonMessage (.listClients s.clientId) else s) := by
        split_ifs
        · exact ⟨rfl, rfl, rfl, rfl⟩
        · exact .refl t s
      exact hqueue.trans (aside_startRead _)
    | write => exact absurd rfl hwrite
    | timer => exact absurd rfl htimer
  | error =>
    cases kind with
    | timer => exact .refl t s
    | read | write =>
      have hdown : Aside t s s.reportDisconnected := ⟨rfl, rfl, rfl, rfl⟩
      exact hdown.trans (aside_attemptReconnect _)
    | resolve | connect | handshake => exact aside_attemptReconnect _

/-- The front element is written, if there is one. -/
theorem writeNextMessage_eq (h : s.transport = some t) :
    s.writeNextMessage.crashed = s.crashed ∧ s.writeNextMessage.transport = some t ∧
      s.writeNextMessage.writeQueue = s.writeQueue ∧
      s.writeNextMessage.writes t = s.writes t + if s.writeQueue = [] then 0 else 1 := by
  unfold Client.writeNextMessage
  rw [h]
  dsimp only
  split_ifs
  · exact ⟨rfl, h, rfl, rfl⟩
  · exact ⟨rfl, h, rfl, by rw [writes_start, if_pos ⟨rfl, rfl⟩]⟩

/-- A message is put on the queue, and a write is started when it is the only one. -/
theorem enqueue_eq (h : s.transport = some t) (m : Outgoing) :
    (s.enqueue m).crashed = s.crashed ∧ (s.enqueue m).transport = some t ∧
      (s.enqueue m).writeQueue = s.writeQueue ++ [m] ∧
      (s.enqueue m).writes t = s.writes t + if s.writeQueue = [] then 1 else 0 := by
  have hnext := writeNextMessage_eq (s := { s with writeQueue := s.writeQueue ++ [m] }) h
  unfold Client.enqueue
  split
  · rename_i hnone
    exact absurd (hnone.symm.trans h) (by simp)
  dsimp only at hnext ⊢
  by_cases hq : s.writeQueue = []
  · rw [if_pos (by simp [hq]), if_pos hq]
    rw [if_neg (by simp)] at hnext
    exact hnext
  · have hlength : ¬ (s.writeQueue ++ [m]).length = 1 := by
      have hpos := List.length_pos_iff.mpr hq
      simp only [List.length_append, List.length_singleton]
      omega
    rw [if_neg hlength, if_neg hq]
    exact ⟨rfl, h, rfl, rfl⟩

end Aside

/-! ### The invariant -/

namespace Outbox

/-- Nothing to write; a write of the front element; or a write has failed, and the queue is stuck. -/
inductive Phase (t : ℕ) (x : Outbox) : Prop
  | idle : x.failed = false → x.client.writes t = 0 → x.client.writeQueue = [] → Phase t x
  | busy (m : Outgoing) (rest : List Outgoing) : x.failed = false → x.client.writes t = 1 →
    x.client.writeQueue = m :: rest → x.writing = some m → Phase t x
  | stuck : x.failed = true → x.client.writes t = 0 → x.client.writeQueue ≠ [] → Phase t x

structure Inv (t : ℕ) (x : Outbox) : Prop where
  crashed : x.client.crashed = false
  transport : x.client.transport = some t
  queued : x.queued = x.succeeded ++ x.client.writeQueue
  phase : Phase t x

variable {t : ℕ} {x : Outbox}

theorem Inv.faithful (h : Inv t x) : Faithful t x := by
  obtain ⟨-, -, hqueued, hphase⟩ := h
  have hwritten : x.succeeded <+: x.queued := ⟨_, hqueued.symm⟩
  cases hphase with
  | idle hf hw hq =>
    refine ⟨by omega, fun hpos => absurd hpos (by omega), hwritten, fun _ => ?_⟩
    simp [hw, hq]
  | busy m rest hf hw hq hm =>
    refine ⟨by omega, fun _ => ⟨by simp [hm], by rw [hq, hm]; rfl⟩, hwritten, fun _ => ?_⟩
    simp [hw, hq]
  | stuck hf hw hq =>
    refine ⟨by omega, fun hpos => absurd hpos (by omega), hwritten, fun hf' => ?_⟩
    rw [hf] at hf'
    exact absurd hf' (by simp)

/-- A step that is not about the queue. -/
theorem inv_of_aside (h : Inv t x) {i : Step} (ha : Aside t x.client (Signal.step x.client i)) (hi : i ≠ .runPosted)
    (hown : ∀ o, i.handled x.client = some o → ¬ (o.transport = t ∧ o.kind = .write)) : Inv t (x.step t i) := by
  have hfinished : ((i.handled x.client).any fun o => o.transport = t && o.kind = .write) = false := by
    cases ho : i.handled x.client with
    | none => rfl
    | some o => simpa using hown o ho
  have hne : ∀ status, i.handled x.client ≠ some ⟨t, .write, status⟩ := fun status he => hown _ he ⟨rfl, rfl⟩
  have hstep : x.step t i = { x with client := Signal.step x.client i } := by
    unfold step
    dsimp only
    rw [hfinished, ha.writes, if_neg hi, if_neg (hne .ok)]
    simp [hne .error]
  rw [hstep]
  refine ⟨ha.crashed.trans h.crashed, ha.transport.trans h.transport, by rw [ha.writeQueue]; exact h.queued, ?_⟩
  cases h.phase with
  | idle hf hw hq => exact .idle hf (ha.writes.trans hw) (ha.writeQueue.trans hq)
  | busy m rest hf hw hq hm => exact .busy m rest hf (ha.writes.trans hw) (ha.writeQueue.trans hq) hm
  | stuck hf hw hq => exact .stuck hf (ha.writes.trans hw) (by rw [ha.writeQueue]; exact hq)

/-- **A queue task.** -/
theorem inv_runPosted (h : Inv t x) : Inv t (x.step t .runPosted) := by
  have hlive := step_live h.crashed .runPosted
  cases hp : x.client.posted with
  | nil =>
    have hsame : Signal.step x.client .runPosted = x.client := by
      rw [hlive]
      unfold Client.take
      simp only [hp]
    have hstep : x.step t .runPosted = x := by
      unfold step
      dsimp only
      rw [hsame]
      simp [Step.handled]
    rw [hstep]
    exact h
  | cons m rest =>
    have hstep : Signal.step x.client .runPosted = { x.client with posted := rest }.enqueue m := by
      rw [hlive]
      unfold Client.take
      simp only [hp]
    obtain ⟨hcrashed, htransport, hqueue, hwrites⟩ :=
      enqueue_eq (s := { x.client with posted := rest }) h.transport m
    rw [← hstep] at hcrashed htransport hqueue hwrites
    change (Signal.step x.client .runPosted).writes t = x.client.writes t + _ at hwrites
    change _ = x.client.writeQueue ++ [m] at hqueue
    have hnew : (x.step t .runPosted).queued = x.queued ++ [m] := by
      unfold step
      dsimp only
      rw [if_pos rfl, hqueue, List.drop_left]
    refine ⟨hcrashed.trans h.crashed, htransport, ?_, ?_⟩
    · show _ = _ ++ (Signal.step x.client .runPosted).writeQueue
      rw [hnew, hqueue, h.queued]
      simp [step, Step.handled]
    · cases h.phase with
      | idle hf hw hq =>
        -- the only message: its write is started
        have hw' : (Signal.step x.client .runPosted).writes t = 1 := by rw [hwrites, hw, if_pos hq]
        refine .busy m [] (by simp [step, Step.handled, hf]) hw' ?_ ?_
        · show (Signal.step x.client .runPosted).writeQueue = _
          rw [hqueue, hq]
          rfl
        · simp [step, Step.handled, hw, hw', hqueue, hq]
      | busy m' rest' hf hw hq hm =>
        have hw' : (Signal.step x.client .runPosted).writes t = 1 := by rw [hwrites, hw, if_neg (by simp [hq])]
        refine .busy m' (rest' ++ [m]) (by simp [step, Step.handled, hf]) hw' ?_ ?_
        · show (Signal.step x.client .runPosted).writeQueue = _
          rw [hqueue, hq]
          rfl
        · simp [step, Step.handled, hw, hw', hm]
      | stuck hf hw hq =>
        have hw' : (Signal.step x.client .runPosted).writes t = 0 := by rw [hwrites, hw, if_neg hq]
        refine .stuck (by simp [step, Step.handled, hf]) hw' ?_
        show (Signal.step x.client .runPosted).writeQueue ≠ []
        rw [hqueue]
        simp

/-- A write of the front element is the only one when its handler runs. -/
theorem Inv.busy (h : Inv t x) {n : ℕ} {status : Status}
    (ho : x.client.operations[n]? = some ⟨t, .write, status⟩) :
    ∃ m rest, x.failed = false ∧ x.client.writes t = 1 ∧ (x.client.without n).writes t = 0 ∧
      x.client.writeQueue = m :: rest ∧ x.writing = some m := by
  have hwithout := writes_without t ho
  rw [if_pos ⟨rfl, rfl⟩] at hwithout
  cases h.phase with
  | idle hf hw hq => omega
  | busy m rest hf hw hq hm => exact ⟨m, rest, hf, hw, by omega, hq, hm⟩
  | stuck hf hw hq => omega

/-- **A write has succeeded**: its message leaves the queue, and the next write is started if there is one. -/
theorem inv_succeeded (h : Inv t x) {n : ℕ} (r : Bool) (ho : x.client.operations[n]? = some ⟨t, .write, .ok⟩) :
    Inv t (x.step t (.handler n r)) := by
  obtain ⟨m, rest, hf, hw, hwithout, hq, hm⟩ := h.busy ho
  have hhandled : (Step.handler n r).handled x.client = some ⟨t, .write, .ok⟩ := by simp [Step.handled, ho]
  have hstep : Signal.step x.client (.handler n r) =
      { x.client.without n with writeQueue := x.client.writeQueue.tail }.writeNextMessage :=
    step_handler h.crashed ho (by simp) r
  obtain ⟨hcrashed, htransport, hqueue, hwrites⟩ :=
    writeNextMessage_eq (s := { x.client.without n with writeQueue := x.client.writeQueue.tail }) h.transport
  rw [← hstep] at hcrashed htransport hqueue hwrites
  change _ = (x.client.without n).writes t + (if x.client.writeQueue.tail = [] then 0 else 1) at hwrites
  change _ = x.client.writeQueue.tail at hqueue
  rw [hq, List.tail_cons] at hqueue hwrites
  refine ⟨hcrashed.trans h.crashed, htransport, ?_, ?_⟩
  · show (x.step t (.handler n r)).queued = _ ++ (Signal.step x.client (.handler n r)).writeQueue
    rw [hqueue]
    simp [step, hhandled, hm, h.queued, hq]
  · cases rest with
    | nil =>
      refine .idle (by simp [step, hhandled, hf]) ?_ hqueue
      show (Signal.step x.client (.handler n r)).writes t = 0
      rw [hwrites, hwithout, if_pos rfl]
    | cons m' rest =>
      have hw' : (Signal.step x.client (.handler n r)).writes t = 1 := by
        rw [hwrites, hwithout, if_neg (by simp)]
      refine .busy m' rest (by simp [step, hhandled, hf]) hw' hqueue ?_
      simp [step, hhandled, hw, hw', hqueue]

/-- **A write has failed**: nothing is written any more on this transport. -/
theorem inv_failed (h : Inv t x) {n : ℕ} (r : Bool) (ho : x.client.operations[n]? = some ⟨t, .write, .error⟩) :
    Inv t (x.step t (.handler n r)) := by
  obtain ⟨m, rest, hf, hw, hwithout, hq, hm⟩ := h.busy ho
  have hhandled : (Step.handler n r).handled x.client = some ⟨t, .write, .error⟩ := by simp [Step.handled, ho]
  have hstep : Signal.step x.client (.handler n r) = (x.client.without n).handle ⟨t, .write, .error⟩ r :=
    step_handler h.crashed ho (by simp) r
  have haside := aside_handle (t := t) (s := x.client.without n) h.transport (o := ⟨t, .write, .error⟩) r (by simp)
  rw [← hstep] at haside
  refine ⟨haside.crashed.trans h.crashed, haside.transport.trans h.transport, ?_, ?_⟩
  · show (x.step t (.handler n r)).queued = _ ++ (Signal.step x.client (.handler n r)).writeQueue
    rw [haside.writeQueue]
    show _ = _ ++ x.client.writeQueue
    simp [step, hhandled, h.queued]
  · refine .stuck (by simp [step, hhandled]) (haside.writes.trans hwithout) ?_
    show (Signal.step x.client (.handler n r)).writeQueue ≠ []
    rw [haside.writeQueue]
    show x.client.writeQueue ≠ []
    simp [hq]

theorem step_unhandled {s : Client} (hc : s.crashed = false) {n : ℕ} {r : Bool}
    (h : (Step.handler n r).handled s = none) : Signal.step s (.handler n r) = s := by
  rw [step_live hc]
  unfold Client.take
  cases ho : s.operations[n]? with
  | none => simp [ho]
  | some o =>
    have hp : o.status = .pending := by simpa [Step.handled, ho, Option.filter_eq_none_iff] using h
    simp [ho, hp]

theorem inv_step (x : Outbox) (i : Step) (h : Inv t x) (hi : Within t x i) : Inv t (x.step t i) := by
  cases i with
  | connect url clientId => exact absurd hi.1 (by simp [Step.closes])
  | disconnect => exact absurd hi.1 (by simp [Step.closes])
  | queue m =>
    refine inv_of_aside h ?_ (by simp) (by simp [Step.handled])
    rw [step_live h.crashed]
    exact ⟨rfl, rfl, rfl, rfl⟩
  | runPosted => exact inv_runPosted h
  | finish n status =>
    refine inv_of_aside h ?_ (by simp) (by simp [Step.handled])
    have hwrites := writes_finish t h.crashed n status
    rw [step_live h.crashed] at hwrites ⊢
    exact ⟨rfl, rfl, rfl, hwrites⟩
  | handler n r =>
    cases hhandled : (Step.handler n r).handled x.client with
    | none =>
      refine inv_of_aside h ?_ (by simp) (by simp [hhandled])
      rw [step_unhandled h.crashed hhandled]
      exact .refl t _
    | some o =>
      obtain ⟨ho, hp⟩ : x.client.operations[n]? = some o ∧ o.status ≠ .pending := by
        simpa [Step.handled, Option.filter_eq_some_iff] using hhandled
      obtain ⟨hcloses, hforeign⟩ := hi
      by_cases hown : o.transport = t ∧ o.kind = .write
      · obtain ⟨t', kind, status⟩ := o
        obtain ⟨rfl, rfl⟩ : t' = t ∧ kind = .write := hown
        cases status with
        | pending => exact absurd rfl hp
        | ok => exact inv_succeeded h r ho
        | error => exact inv_failed h r ho
      · -- another operation: its handler neither closes the transport nor touches the queue
        refine inv_of_aside h ?_ (by simp) fun o' ho' => ?_
        · have hwithout : Aside t x.client (x.client.without n) := by
            have hcount := writes_without t ho
            rw [if_neg hown, Nat.add_zero] at hcount
            exact ⟨rfl, rfl, rfl, hcount⟩
          rw [step_handler h.crashed ho hp]
          refine hwithout.trans
            (aside_handle (s := x.client.without n) h.transport r fun hok => ⟨fun hk => ?_, fun hk => ?_⟩)
          · simp [Step.closes, hhandled, hok, hk] at hcloses
          · have ht : o.transport = t := by simpa [Step.foreign, hhandled, hok, hk] using hforeign
            exact hown ⟨ht, hk⟩
        · rw [hhandled] at ho'
          obtain rfl := Option.some.inj ho'
          exact hown

end Outbox

/-! ### The transport is made -/

section Numbered

variable {s : Client}

/-- Nothing of the kind is outstanding on a transport that is still to be made. -/
theorem Numbered.writes_eq (h : Numbered s) {t : ℕ} (ht : s.transports ≤ t) : s.writes t = 0 := by
  refine List.count_eq_zero.mpr fun hmem => ?_
  obtain ⟨o, ho, heq⟩ := List.mem_map.mp hmem
  have hlt := h.operations o ho
  rw [(Prod.mk.inj heq).1] at hlt
  omega

end Numbered

section Transports

variable (s : Client)

theorem transports_startRead : s.startRead.transports = s.transports := by
  unfold Client.startRead
  split <;> rfl

theorem transports_startOnWebsocket (kind : Kind) : (s.startOnWebsocket kind).transports = s.transports := by
  unfold Client.startOnWebsocket
  split <;> rfl

theorem transports_attemptReconnect : s.attemptReconnect.transports = s.transports := by
  unfold Client.attemptReconnect
  split_ifs
  · rfl
  · dsimp only
    split <;> rfl

/-- Only the reconnect timer makes a transport among the handlers. -/
theorem transports_handle {o : Operation} (ho : o.status = .ok → o.kind ≠ .timer) (r : Bool) :
    (s.handle o r).transports = s.transports := by
  obtain ⟨t, kind, status⟩ := o
  cases status with
  | pending => rfl
  | ok =>
    cases kind with
    | resolve => exact transports_startOnWebsocket s .connect
    | connect => exact transports_startOnWebsocket s .handshake
    | handshake => exact transports_startRead _
    | read =>
      refine (transports_startRead _).trans ?_
      split_ifs <;> rfl
    | write => exact (unaffected_writeNextMessage _).transports
    | timer => exact absurd rfl (ho rfl)
  | error =>
    cases kind with
    | timer => rfl
    | read | write | resolve | connect | handshake => exact transports_attemptReconnect _

theorem closeTransport_writes (t : ℕ) : s.closeTransport.writes t = s.writes t := by
  unfold Client.closeTransport
  split
  · rfl
  · rename_i t' _
    exact writes_cancel s t t' fun _ => true

/-- What `ConnectOnIoThread` leaves behind: a transport with an empty queue, and no write that was not there. -/
theorem connectOnIoThread_eq (t : ℕ) :
    s.connectOnIoThread.transport = some s.transports ∧ s.connectOnIoThread.writeQueue = [] ∧
      s.connectOnIoThread.crashed = s.crashed ∧ s.connectOnIoThread.writes t = s.writes t := by
  have hflags := closeTransport_flags s
  have hcrashed : s.closeTransport.crashed = s.crashed := by
    unfold Client.closeTransport
    split <;> rfl
  have hwrites : s.closeTransport.recreateTransport.writes t = s.writes t := closeTransport_writes s t
  unfold Client.connectOnIoThread
  dsimp only
  split
  · exact ⟨by rw [Client.recreateTransport, hflags.2.2], rfl, hcrashed, hwrites⟩
  · refine ⟨by rw [Client.start, Client.recreateTransport, hflags.2.2], rfl, hcrashed, ?_⟩
    rw [writes_start, if_neg (by simp), Nat.add_zero, hwrites]

end Transports

/-- Where the next transport is made, `ConnectOnIoThread` has run. -/
theorem made_cases {s : Client} {i : Step} (h : (step s i).transports = s.transports + 1) :
    s.crashed = false ∧ ∃ s', s'.crashed = s.crashed ∧ s'.transports = s.transports ∧
      (Numbered s → Numbered s') ∧ step s i = s'.connectOnIoThread := by
  have hc : s.crashed = false := by
    by_contra hc
    rw [step, if_pos (by simpa using hc)] at h
    omega
  refine ⟨hc, ?_⟩
  rw [step_live hc] at h ⊢
  cases i with
  | connect url clientId =>
    exact ⟨{ s with serverUrl := url, clientId := clientId, manualDisconnect := false, reconnectAttempts := 0 },
      rfl, rfl, fun hs => ⟨hs.operations, hs.transport⟩, rfl⟩
  | disconnect =>
    have hflags := closeTransport_flags { s with manualDisconnect := true, reconnectAttempts := 0 }
    have hsame : (s.take .disconnect).transports = s.transports := hflags.2.2
    omega
  | queue m => exact absurd h (by simp [Client.take, Client.queueJsonMessage])
  | runPosted =>
    have hsame : (s.take .runPosted).transports = s.transports := by
      simp only [Client.take]
      split
      · rfl
      · exact (unaffected_enqueue _ _).transports
    omega
  | finish n status => exact absurd h (by simp [Client.take])
  | handler n r =>
    simp only [Client.take] at h ⊢
    split at h
    · omega
    · rename_i o ho
      split_ifs at h with hp
      · omega
      · by_cases htimer : o.status = .ok ∧ o.kind = .timer
        · obtain ⟨t, kind, status⟩ := o
          obtain ⟨rfl, rfl⟩ : status = .ok ∧ kind = .timer := htimer
          refine ⟨s.without n, rfl, rfl, fun hs => ?_, ?_⟩
          · exact ⟨fun o ho => hs.operations o (List.mem_of_mem_eraseIdx ho), hs.transport⟩
          · simp only [if_neg hp]
            rfl
        · have hsame := transports_handle (s.without n) (o := o) (fun hok hk => htimer ⟨hok, hk⟩) r
          have : (s.without n).transports = s.transports := rfl
          simp only [Client.without] at hsame this
          omega

theorem numbered_run (l : List Step) : Numbered (run step {} l) :=
  run_invariant' (P := Numbered) numbered_step ⟨by simp, by simp⟩ l

/-- The outbox of a client whose transport has just been made. -/
def Outbox.opened (s : Client) : Outbox := { client := s }

/-- **The outgoing queue is a faithful FIFO on one transport**: from the step `i` that makes it until it is closed,
at most one write is outstanding, on the front element; what has been written is what was queued first; and unless
a write has failed, one is outstanding as long as there is something to write. -/
theorem outgoing_fifo {before : List Step} {i : Step}
    (hmade : (run step {} (before ++ [i])).transports = (run step {} before).transports + 1) {l : List Step}
    (hl : Meets (Outbox.step (run step {} before).transports) (Outbox.Within (run step {} before).transports)
      (.opened (run step {} (before ++ [i]))) l) :
    Outbox.Faithful (run step {} before).transports
      (run (Outbox.step (run step {} before).transports) (.opened (run step {} (before ++ [i]))) l) := by
  set s := run step {} before with hs
  rw [run_concat, ← hs] at hmade hl ⊢
  obtain ⟨hc, s', hc', ht', hnumbered, hstep⟩ := made_cases hmade
  obtain ⟨htransport, hqueue, hcrashed, hwrites⟩ := connectOnIoThread_eq s' s.transports
  rw [(hnumbered (numbered_run before)).writes_eq ht'.le] at hwrites
  have hopened : Outbox.Inv s.transports (.opened (step s i)) := by
    rw [hstep]
    exact ⟨hcrashed.trans (hc'.trans hc), by rw [← ht']; exact htransport, by simp [Outbox.opened, hqueue],
      .idle rfl hwrites hqueue⟩
  exact (run_invariant (P := Outbox.Inv s.transports) Outbox.inv_step hopened hl).faithful

/-- The handshake succeeds, a list of clients is asked for, and the first of the two messages is written. -/
def greeting : List Step :=
  [.finish 0 .ok, .handler 0 false, .finish 0 .ok, .handler 0 false, .finish 0 .ok, .handler 0 false,
    .queue (.listClients "alice"), .runPosted, .runPosted, .finish 1 .ok, .handler 1 false]

theorem greeting_in_order :
    let connect : Step := .connect "ws://localhost:8081/ws/webrtc" "alice"
    let x := run (Outbox.step 0) (.opened (step {} connect)) greeting
    Outbox.Faithful 0 x ∧ x.succeeded = [.register "alice"] ∧ x.writing = some (.listClients "alice") := by
  intro connect x
  exact ⟨@outgoing_fifo [] connect (by decide) greeting (by decide), by decide, by decide⟩

/-- A failed write stays in front, and nothing is written any more. -/
example :
    let x := run (Outbox.step 0) (.opened (step {} (.connect "ws://localhost:8081/ws/webrtc" "alice")))
      (greeting ++ [.finish 1 .error, .handler 1 false, .queue (.listClients "alice"), .runPosted])
    x.client.writes 0 = 0 ∧ x.client.writeQueue.length = 2 := by
  decide

end PeerCall.Signal
