import PeerCall.Lib.Runs
import PeerCall.Call.Manager

/-!
# Call.Threads — the sections of `CallManager` interleaved

Any number of threads run operations of one `CallManager` at the same time.  A step is one section under
`mutex_`, or one call on the observer or the transport made with the mutex released; between two steps of
a thread any other thread may move.  The request timer is a thread of its own: its expiry checks the
generation, and only in a later step does it lock the mutex in `OnCallRequestTimeout`.

The state carries two records that no step reads: what each operation's first section saw, and the number
of the call period (from leaving `idle` to the return to `idle`) it saw it in.

* `run_calls`, `run_alone`, `spawn_alone`: **an operation that no other thread interrupts is `perform`**, which
  ties the interleaved sections to the atomic operations of the other modules.
* `enter_entry`, `enter_remainder`, `advance_cases`: all that a first section and a later step can do.
-/

namespace PeerCall.Threads

open PeerCall.Lib

/-- An operation under way: what its first section saw, and what is left to do. -/
structure Thread where
  op : Op
  entry : CallManager
  period : ℕ
  todo : List Action
  deriving DecidableEq, Repr

/-- `timerChecked`: the timer thread has passed its generation check and is about to enter
`OnCallRequestTimeout`.  `log` holds the calls made, each with the period its operation saw. -/
structure State where
  manager : CallManager := {}
  threads : List Thread := []
  timerChecked : Bool := false
  period : ℕ := 0
  log : List (ℕ × Event) := []
  deriving DecidableEq, Repr

inductive Step
  | enter (op : Op)
  | timerExpiry
  | timerEnter
  | advance (i : ℕ)
  deriving DecidableEq, Repr

/-- A section has left the manager as `m`. -/
def State.leave (s : State) (m : CallManager) : State :=
  { s with
    manager := m
    period := if s.manager.callState = .idle ∧ m.callState ≠ .idle then s.period + 1 else s.period }

/-- A thread runs the first section of `op`. -/
def State.spawn (s : State) (op : Op) : State :=
  let r := op.enter s.manager
  { s.leave r.1 with threads := s.threads ++ [⟨op, s.manager, s.period, r.2⟩] }

/-- The timer thread has passed its check and has not returned yet: `StartCallRequestTimer` waits in
`join()`. -/
def State.timerBusy (s : State) : Bool :=
  s.timerChecked || s.threads.any fun t => t.op = .onCallRequestTimeout ∧ t.todo ≠ []

/-- What thread `i` does next. -/
def State.next (s : State) (i : ℕ) : Option Action := s.threads[i]?.bind fun t => t.todo.head?

/-- Thread `i` has come back from the head of its list, with `as` to do before the rest. -/
def State.resume (s : State) (i : ℕ) (t : Thread) (as : List Action) : State :=
  { s with threads := s.threads.set i { t with todo := as ++ t.todo.tail } }

/-- Thread `i`, which is `t`, takes its next action `a`: a call is made, a section is run and leaves its
calls to be made. -/
def State.take (s : State) (i : ℕ) (t : Thread) (a : Action) : State :=
  match a with
  | .call e => { s.resume i t [] with log := s.log ++ [(t.period, e)] }
  | a =>
    if a = .startCallRequestTimer ∧ s.timerBusy then s
    else
      let r := a.exec s.manager
      (s.resume i t (r.2.map .call)).leave r.1

def State.advance (s : State) (i : ℕ) : State :=
  match s.threads[i]? with
  | none => s
  | some t =>
    match t.todo with
    | [] => s
    | a :: _ => s.take i t a

/-- `OnCallRequestTimeout` is private: only the timer thread enters it. -/
def step (s : State) : Step → State
  | .enter op => if op = .onCallRequestTimeout then s else s.spawn op
  | .timerExpiry =>
    { s with
      manager := s.manager.timerWoken
      timerChecked := s.timerChecked || s.manager.timerExpiry.2 }
  | .timerEnter =>
    if s.timerChecked then { s with timerChecked := false }.spawn .onCallRequestTimeout else s
  | .advance i => s.advance i

/-- The operation has passed its guard and has not reached `CleanupCall` yet. -/
def Thread.tearingDown (t : Thread) : Bool := Action.cleanupCall ∈ t.todo

/-! ### What the sections do -/

/-- Everything a first section can do to the state, the peer and the id of the current call. -/
inductive Entry (m : CallManager) : Op → CallState → String → String → Prop
  | same (op : Op) : Entry m op m.callState m.currentPeer m.currentCallId
  | fresh (target : String) (tick : ℕ) (ht : m.signalTransport ≠ none) (h : m.callState = .idle) :
    Entry m (.initiateCall target tick true) .idle target (generateCallId tick m.callCounter)
  | ring (sender c : String) (hc : c ≠ "") (h : m.callState = .idle) :
    Entry m (.handle sender (.callRequest c)) .receiving sender c
  | claim (h : m.callState ≠ .idle) (h' : m.callState ≠ .ending) :
    Entry m .endCall .ending m.currentPeer m.currentCallId
  | establish (h : m.callState = .connecting) :
    Entry m .notifyPeerConnectionEstablished .connected m.currentPeer m.currentCallId
  | accepted (reason : String) (h : m.callState = .calling) (hc : m.currentCallId ≠ "") :
    Entry m (.handle m.currentPeer (.callResponse m.currentCallId true reason)) .connecting m.currentPeer
      m.currentCallId

theorem enter_entry (m : CallManager) (op : Op) :
    Entry m op (op.enter m).1.callState (op.enter m).1.currentPeer (op.enter m).1.currentCallId := by
  cases op with
  | setSignalTransport t => exact .same _
  | registerObserver o => exact .same _
  | initiateCall target tick connected =>
    simp only [Op.enter, CallManager.initiateCall]
    cases ht : m.signalTransport with
    | none => exact .same _
    | some t =>
      by_cases hg : connected = false ∨ m.callState ≠ .idle
      · simp only [if_pos hg]; exact .same _
      · simp only [if_neg hg]
        simp only [not_or, not_not, Bool.not_eq_false] at hg
        obtain ⟨rfl, hs⟩ := hg
        rw [hs]; exact .fresh target tick (by simp [ht]) hs
  | cancelCall =>
    simp only [Op.enter, CallManager.cancelCall]
    by_cases hg : m.callState ≠ .calling
    · rw [if_pos hg]; exact .same _
    · rw [if_neg hg]
      cases m.signalTransport <;> exact .same _
  | acceptCall =>
    simp only [Op.enter, CallManager.acceptCall]
    split_ifs
    · exact .same _
    · cases m.signalTransport <;> exact .same _
  | rejectCall reason =>
    simp only [Op.enter, CallManager.rejectCall]
    by_cases hg : m.callState ≠ .receiving
    · rw [if_pos hg]; exact .same _
    · rw [if_neg hg]; exact .same _
  | endCall =>
    simp only [Op.enter, CallManager.endCall]
    split_ifs with hg
    · exact .same _
    · exact .claim (fun h => hg (Or.inl h)) (fun h => hg (Or.inr h))
  | notifyPeerConnectionEstablished =>
    simp only [Op.enter, CallManager.notifyPeerConnectionEstablished]
    split_ifs with hg
    · exact .same _
    · exact .establish (not_not.mp hg)
  | handle sender msg =>
    cases msg with
    | callRequest c =>
      simp only [Op.enter, CallManager.handle, CallManager.handleCallRequest]
      split_ifs with hc hg
      · exact .same _
      · exact .same _
      · exact .ring sender c hc (not_not.mp hg)
    | callResponse c accepted reason =>
      simp only [Op.enter, CallManager.handle, CallManager.handleCallResponse]
      by_cases hg : m.callState ≠ .calling ∨ m.currentPeer ≠ sender ∨ m.currentCallId ≠ c ∨ c = ""
      · rw [if_pos hg]; exact .same _
      · rw [if_neg hg]
        simp only [not_or, not_not] at hg
        obtain ⟨hs, rfl, rfl, hc⟩ := hg
        cases accepted with
        | true => exact .accepted reason hs hc
        | false => exact .same _
    | callCancel c reason =>
      simp only [Op.enter, CallManager.handle, CallManager.handleCallCancel]
      split_ifs <;> exact .same _
    | callEnd c reason =>
      simp only [Op.enter, CallManager.handle, CallManager.handleCallEnd]
      split_ifs <;> exact .same _
  | onCallRequestTimeout =>
    simp only [Op.enter, CallManager.onCallRequestTimeout]
    split_ifs <;> exact .same _

/-- The teardowns that presuppose that the manager is calling. -/
def abandons : Op → Bool
  | .onCallRequestTimeout => true
  | .handle _ (.callResponse _ false _) => true
  | _ => false

/-- The operations that deliver the end of a call. -/
def closes : Op → Bool
  | .endCall => true
  | .handle _ (.callEnd _ _) => true
  | _ => false

/-- The end of a call as it is seen outside: the two callbacks and the message. -/
inductive Closing
  | onNeedClosePeerConnection | onCallEnded | callEnd
  deriving DecidableEq, Repr

def Closing.matches : Closing → Event → Bool
  | .onNeedClosePeerConnection, .notify _ .onNeedClosePeerConnection => true
  | .onCallEnded, .notify _ (.onCallEnded _ _) => true
  | .callEnd, .send _ _ (.callEnd _ _) => true
  | _, _ => false

/-- How often `k` is still to be made by the actions `as`. -/
def pending (k : Closing) (as : List Action) : ℕ :=
  as.countP fun
    | .call e => k.matches e
    | _ => false

/-- Everything the remainder of an operation can hold, as far as teardowns and closings go. -/
structure Remainder (m : CallManager) (op : Op) (as : List Action) : Prop where
  active : .cleanupCall ∈ as → m.callState ≠ .idle
  calling : .cleanupCall ∈ as → abandons op → m.callState = .calling
  closing : ∀ k, pending k as ≤ 1
  closer : ∀ k, 0 < pending k as →
    closes op ∧ m.callState ≠ .idle ∧ m.callState ≠ .ending ∧ .cleanupCall ∈ as ∧
      (op ≠ .endCall → k ≠ .callEnd ∧ m.observer ≠ none) ∧ (k ≠ .callEnd → m.observer ≠ none)

@[simp] theorem pending_append (k : Closing) (as bs : List Action) :
    pending k (as ++ bs) = pending k as + pending k bs := List.countP_append

@[simp] theorem pending_cleanupCall (k : Closing) : pending k [.cleanupCall] = 0 := rfl

theorem pending_calls (k : Closing) (es : List Event) :
    pending k (es.map .call) = es.countP k.matches := by
  simp only [pending, List.countP_map]
  rfl

@[simp] theorem cleanup_mem_calls (es : List Event) : Action.cleanupCall ∉ es.map Action.call := by
  simp

theorem closing_sendToPeer (k : Closing) (t : Option ℕ) (peer c reason : String) :
    (sendToPeer t peer (.callEnd c reason)).countP k.matches ≤ if k = .callEnd then 1 else 0 := by
  cases t with
  | none => simp [sendToPeer]
  | some t => by_cases hp : peer = "" <;> cases k <;> simp [sendToPeer, hp, Closing.matches]

/-- Both closers tell the observer twice, in opposite orders. -/
theorem closing_notify (k : Closing) (o : Option ℕ) (peer reason : String) {cs : List Callback}
    (hcs : cs.Perm [.onNeedClosePeerConnection, .onCallEnded peer reason]) :
    (notify o cs).countP k.matches = if k ≠ .callEnd ∧ o ≠ none then 1 else 0 := by
  cases o with
  | none => simp [notify]
  | some o =>
    rw [notify, (hcs.map _).countP_eq]
    cases k <;> rfl

/-- A remainder without closings, whose teardown (if any) is justified. -/
theorem Remainder.quiet {m : CallManager} {op : Op} {as : List Action} (hp : ∀ k, pending k as = 0)
    (ha : .cleanupCall ∈ as → m.callState ≠ .idle ∧ (abandons op → m.callState = .calling)) :
    Remainder m op as :=
  ⟨fun h => (ha h).1, fun h => (ha h).2, fun k => by simp [hp k], fun k h => by simp [hp k] at h⟩

theorem Remainder.nil (m : CallManager) (op : Op) : Remainder m op [] :=
  .quiet (fun _ => rfl) (by simp)

/-- `EndCall` sends, notifies and clears; the call is closed where it has an observer. -/
theorem endCall_remainder (m : CallManager) : Remainder m .endCall (Op.endCall.enter m).2 := by
  simp only [Op.enter, CallManager.endCall]
  by_cases hg : m.callState = .idle ∨ m.callState = .ending
  · rw [if_pos hg]; exact .nil m _
  · rw [if_neg hg]
    have hi : m.callState ≠ .idle := fun h => hg (Or.inl h)
    have he : m.callState ≠ .ending := fun h => hg (Or.inr h)
    have hp : ∀ k, pending k ((sendToPeer m.signalTransport m.currentPeer (.callEnd m.currentCallId "hangup") ++
        notify m.observer [.onNeedClosePeerConnection, .onCallEnded m.currentPeer "hangup"]).map .call ++
        [.cleanupCall]) ≤ if k = .callEnd ∨ m.observer ≠ none then 1 else 0 := by
      intro k
      have hsend := closing_sendToPeer k m.signalTransport m.currentPeer m.currentCallId "hangup"
      rw [pending_append, pending_calls, pending_cleanupCall, List.countP_append,
        closing_notify k m.observer m.currentPeer "hangup" (List.Perm.refl _)]
      by_cases hk : k = .callEnd
      · simpa [hk] using hsend
      · rw [if_neg hk] at hsend
        rw [Nat.le_zero.mp hsend]
        simp [hk]
    refine ⟨fun _ => hi, by simp [abandons], fun k => (hp k).trans (by split_ifs <;> simp),
      fun k hk => ⟨rfl, hi, he, by simp, by simp, fun hc ho => ?_⟩⟩
    have := hk.trans_le (hp k)
    simp [hc, ho] at this

/-- `HandleCallEnd` notifies and clears. -/
theorem handleCallEnd_remainder (m : CallManager) (sender c reason : String) :
    Remainder m (.handle sender (.callEnd c reason)) ((Op.handle sender (.callEnd c reason)).enter m).2 := by
  simp only [Op.enter, CallManager.handle, CallManager.handleCallEnd]
  split_ifs with hg
  · exact .nil m _
  · have hi : m.callState ≠ .idle := fun h => hg (by simp [h])
    have he : m.callState ≠ .ending := fun h => hg (by simp [h])
    have hp : ∀ k, pending k ((notify m.observer [.onCallEnded sender reason,
        .onNeedClosePeerConnection]).map .call ++ [.cleanupCall]) =
        if k ≠ .callEnd ∧ m.observer ≠ none then 1 else 0 := by
      intro k
      rw [pending_append, pending_calls, pending_cleanupCall,
        closing_notify k m.observer sender reason (List.Perm.swap _ _ _), Nat.add_zero]
    refine ⟨fun _ => hi, by simp [abandons], fun k => ?_, fun k hk => ?_⟩
    · rw [hp]
      split_ifs <;> simp
    · rw [hp] at hk
      split_ifs at hk with hk'
      · exact ⟨rfl, hi, he, by simp, fun _ => hk', fun _ => hk'.2⟩
      · simp at hk

/-! The other operations close nothing, so that only their teardowns are of interest. -/

theorem initiateCall_remainder (m : CallManager) (target : String) (tick : ℕ) (connected : Bool) :
    Remainder m (.initiateCall target tick connected) (m.initiateCall target tick connected).2 := by
  unfold CallManager.initiateCall
  cases m.signalTransport with
  | none => exact .nil m _
  | some t =>
    by_cases hg : connected = false ∨ m.callState ≠ .idle
    · simp only [if_pos hg]; exact .nil m _
    · simp only [if_neg hg]
      exact .quiet (fun k => by cases k <;> rfl) (by simp)

theorem cancelCall_remainder (m : CallManager) : Remainder m .cancelCall m.cancelCall.2 := by
  unfold CallManager.cancelCall
  by_cases hg : m.callState ≠ .calling
  · rw [if_pos hg]; exact .nil m _
  · rw [if_neg hg]
    have hs : m.callState = .calling := not_not.mp hg
    cases m.signalTransport with
    | none => exact .quiet (fun k => rfl) (by simp [hs])
    | some t =>
      refine .quiet (fun k => ?_) (by simp [hs])
      by_cases hp : m.currentPeer = "" <;> simp [hp, pending]

theorem acceptCall_remainder (m : CallManager) : Remainder m .acceptCall m.acceptCall.2 := by
  unfold CallManager.acceptCall
  by_cases hg : m.callState ≠ .receiving
  · rw [if_pos hg]; exact .nil m _
  · rw [if_neg hg]
    cases m.signalTransport with
    | none => exact .nil m _
    | some t =>
      cases m.observer with
      | none => exact .quiet (fun k => by cases k <;> rfl) (by simp [notify])
      | some o => exact .quiet (fun k => by cases k <;> rfl) (by simp [notify])

theorem rejectCall_remainder (m : CallManager) (reason : String) :
    Remainder m (.rejectCall reason) (m.rejectCall reason).2 := by
  unfold CallManager.rejectCall
  by_cases hg : m.callState ≠ .receiving
  · rw [if_pos hg]; exact .nil m _
  · rw [if_neg hg]
    refine .quiet (fun k => ?_) (by simp [not_not.mp hg, abandons])
    rw [pending_append, pending_calls, pending_cleanupCall]
    cases m.signalTransport with
    | none => rfl
    | some t =>
      by_cases hp : m.currentPeer = "" <;> cases k <;> simp [sendToPeer, hp, Closing.matches]

theorem established_remainder (m : CallManager) :
    Remainder m .notifyPeerConnectionEstablished m.notifyPeerConnectionEstablished.2 := by
  unfold CallManager.notifyPeerConnectionEstablished
  split_ifs
  · exact .nil m _
  · refine .quiet (fun k => ?_) (by simp)
    rw [pending_calls]
    cases m.observer <;> cases k <;> rfl

theorem handleCallRequest_remainder (m : CallManager) (sender c : String) :
    Remainder m (.handle sender (.callRequest c)) (m.handleCallRequest sender c).2 := by
  unfold CallManager.handleCallRequest
  split_ifs
  · exact .nil m _
  · cases m.signalTransport with
    | none => exact .nil m _
    | some t => exact .quiet (fun k => by cases k <;> rfl) (by simp)
  · refine .quiet (fun k => ?_) (by simp)
    rw [pending_calls]
    cases m.observer <;> cases k <;> rfl

theorem handleCallResponse_remainder (m : CallManager) (sender c reason : String) (accepted : Bool) :
    Remainder m (.handle sender (.callResponse c accepted reason))
      (m.handleCallResponse sender c accepted reason).2 := by
  unfold CallManager.handleCallResponse
  by_cases hg : m.callState ≠ .calling ∨ m.currentPeer ≠ sender ∨ m.currentCallId ≠ c ∨ c = ""
  · rw [if_pos hg]; exact .nil m _
  · rw [if_neg hg]
    have hs : m.callState = .calling := by
      simp only [not_or, not_not] at hg
      exact hg.1
    cases m.observer with
    | none => exact .nil m _
    | some o => cases accepted <;> exact .quiet (fun k => by cases k <;> rfl) (by simp [hs])

theorem handleCallCancel_remainder (m : CallManager) (sender c reason : String) :
    Remainder m (.handle sender (.callCancel c reason)) (m.handleCallCancel sender c reason).2 := by
  unfold CallManager.handleCallCancel
  by_cases hg : m.callState ≠ .receiving ∨ m.currentPeer ≠ sender ∨ m.currentCallId ≠ c ∨ c = ""
  · rw [if_pos hg]; exact .nil m _
  · rw [if_neg hg]
    have hs : m.callState = .receiving := by
      simp only [not_or, not_not] at hg
      exact hg.1
    refine .quiet (fun k => ?_) (by simp [hs, abandons])
    rw [pending_append, pending_calls, pending_cleanupCall]
    cases m.observer <;> cases k <;> rfl

theorem timeout_remainder (m : CallManager) : Remainder m .onCallRequestTimeout m.onCallRequestTimeout.2 := by
  unfold CallManager.onCallRequestTimeout
  by_cases hg : m.callState ≠ .calling
  · rw [if_pos hg]; exact .nil m _
  · rw [if_neg hg]
    refine .quiet (fun k => ?_) (by simp [not_not.mp hg])
    rw [pending_append, pending_calls, pending_cleanupCall]
    cases m.observer <;> cases k <;> rfl

theorem enter_remainder (m : CallManager) (op : Op) : Remainder m op (op.enter m).2 := by
  cases op with
  | setSignalTransport t => exact .nil m _
  | registerObserver o => exact .nil m _
  | initiateCall target tick connected => exact initiateCall_remainder m target tick connected
  | cancelCall => exact cancelCall_remainder m
  | acceptCall => exact acceptCall_remainder m
  | rejectCall reason => exact rejectCall_remainder m reason
  | endCall => exact endCall_remainder m
  | notifyPeerConnectionEstablished => exact established_remainder m
  | handle sender msg =>
    cases msg with
    | callRequest c => exact handleCallRequest_remainder m sender c
    | callResponse c accepted reason => exact handleCallResponse_remainder m sender c reason accepted
    | callCancel c reason => exact handleCallCancel_remainder m sender c reason
    | callEnd c reason => exact handleCallEnd_remainder m sender c reason
  | onCallRequestTimeout => exact timeout_remainder m

/-! ### One step of the system -/

@[simp] theorem leave_manager (s : State) (m : CallManager) : (s.leave m).manager = m := rfl

@[simp] theorem leave_threads (s : State) (m : CallManager) : (s.leave m).threads = s.threads := rfl

@[simp] theorem leave_log (s : State) (m : CallManager) : (s.leave m).log = s.log := rfl

@[simp] theorem resume_manager (s : State) (i : ℕ) (t : Thread) (as : List Action) :
    (s.resume i t as).manager = s.manager := rfl

@[simp] theorem spawn_manager (s : State) (op : Op) : (s.spawn op).manager = (op.enter s.manager).1 := rfl

@[simp] theorem spawn_threads (s : State) (op : Op) :
    (s.spawn op).threads = s.threads ++ [⟨op, s.manager, s.period, (op.enter s.manager).2⟩] := rfl

/-- Everything the next action of a thread can do: a call is made, the call is cleaned up, `SetCallState`
takes effect, or the state, the peer and the id of the call stay as they are; what comes in front of the
rest of the list are calls, none of which closes a call. -/
inductive Advance (s : State) (i : ℕ) (t : Thread) : State → Prop
  | made (e : Event) (rest : List Action) (ht : t.todo = .call e :: rest) :
    Advance s i t { s.resume i t [] with log := s.log ++ [(t.period, e)] }
  | section (a : Action) (rest : List Action) (es : List Event) (m : CallManager) (ht : t.todo = a :: rest)
    (hes : ∀ k, es.countP (Closing.matches k) = 0) (hna : ∀ e, a ≠ .call e)
    (hm : a = .cleanupCall ∧ m = s.manager.cleared ∨
      (∃ st, a = .setCallState st ∧ m = { s.manager with callState := st }) ∨
      a ≠ .cleanupCall ∧ m.callState = s.manager.callState ∧ m.currentPeer = s.manager.currentPeer ∧
        m.currentCallId = s.manager.currentCallId) :
    Advance s i t ((s.resume i t (es.map .call)).leave m)

theorem closing_state_changed (k : Closing) (o : Option ℕ) (st : CallState) (peer : String) :
    (notify o [.onCallStateChanged st peer]).countP k.matches = 0 := by
  cases o <;> cases k <;> rfl

theorem take_section {s : State} {i : ℕ} {t : Thread} {a : Action} (hna : ∀ e, a ≠ .call e)
    (hgo : ¬ (a = .startCallRequestTimer ∧ s.timerBusy = true)) :
    s.take i t a = (s.resume i t ((a.exec s.manager).2.map .call)).leave (a.exec s.manager).1 := by
  unfold State.take
  split
  · exact absurd rfl (hna _)
  · rw [if_neg hgo]

theorem advance_cases (s : State) (i : ℕ) :
    s.advance i = s ∨ ∃ t, s.threads[i]? = some t ∧ Advance s i t (s.advance i) := by
  unfold State.advance
  cases ht : s.threads[i]? with
  | none => exact Or.inl rfl
  | some t =>
    dsimp only
    cases htodo : t.todo with
    | nil => exact Or.inl rfl
    | cons a rest =>
      cases a with
      | call e => exact Or.inr ⟨t, rfl, .made e rest htodo⟩
      | sendCallCancel tr peer =>
        refine Or.inr ⟨t, rfl, ?_⟩
        dsimp only
        rw [take_section (by simp) (by simp)]
        refine .section _ rest _ _ htodo (fun k => by cases k <;> rfl) (by simp) (Or.inr (Or.inr ?_))
        exact ⟨by simp, rfl, rfl, rfl⟩
      | setCallState st =>
        refine Or.inr ⟨t, rfl, ?_⟩
        dsimp only
        rw [take_section (by simp) (by simp)]
        by_cases hst : s.manager.callState = st
        · refine .section _ rest _ _ htodo ?_ (by simp) (Or.inr (Or.inr ?_)) <;>
            simp [Action.exec, CallManager.setCallState, hst]
        · refine .section _ rest _ _ htodo ?_ (by simp) (Or.inr (Or.inl ⟨st, rfl, ?_⟩))
          · intro k
            simpa [Action.exec, CallManager.setCallState, hst] using closing_state_changed k _ st _
          · simp [Action.exec, CallManager.setCallState, hst]
      | cleanupCall =>
        refine Or.inr ⟨t, rfl, ?_⟩
        dsimp only
        rw [take_section (by simp) (by simp)]
        refine .section _ rest _ _ htodo (fun k => ?_) (by simp) (Or.inl ⟨rfl, rfl⟩)
        simp only [Action.exec, CallManager.cleanupCall]
        split_ifs
        · rfl
        · exact closing_state_changed k _ _ _
      | startCallRequestTimer =>
        by_cases hb : s.timerBusy
        · exact Or.inl (by simp [State.take, hb])
        · refine Or.inr ⟨t, rfl, ?_⟩
          dsimp only
          rw [take_section (by simp) (by simp [hb])]
          exact .section _ rest _ _ htodo (fun k => rfl) (by simp) (Or.inr (Or.inr ⟨by simp, rfl, rfl, rfl⟩))

theorem mem_resume {s : State} {i : ℕ} {t t' : Thread} {as : List Action}
    (h : t' ∈ (s.resume i t as).threads) : t' ∈ s.threads ∨ t' = { t with todo := as ++ t.todo.tail } :=
  List.mem_or_eq_of_mem_set h

/-! ### A thread left alone performs its operation -/

/-- The timer thread is asleep or has returned. -/
def State.TimerQuiet (s : State) : Prop :=
  s.timerChecked = false ∧ ∀ t ∈ s.threads, t.op = .onCallRequestTimeout → t.todo = []

theorem State.TimerQuiet.not_busy {s : State} (h : s.TimerQuiet) : s.timerBusy = false := by
  simp only [State.timerBusy, h.1, Bool.false_or, List.any_eq_false, decide_eq_true_eq, not_and, not_not]
  exact h.2

/-- Thread `i` with nothing but `as` left, after the calls `es` of the thread have been made. -/
def State.after (s : State) (i : ℕ) (t : Thread) (as : List Action) (es : List Event) : State :=
  { s with threads := s.threads.set i { t with todo := as }, log := s.log ++ es.map (Prod.mk t.period) }

theorem run_calls (i : ℕ) (as : List Action) (es : List Event) :
    ∀ (s : State) (t : Thread), s.threads[i]? = some t → t.todo = es.map .call ++ as →
      run step s (List.replicate es.length (.advance i)) = s.after i t as es := by
  induction es with
  | nil =>
    intro s t ht htodo
    obtain ⟨hi, hget⟩ := List.getElem?_eq_some_iff.mp ht
    have : ({ t with todo := as } : Thread) = s.threads[i] := by
      rw [hget]
      simp only [List.map_nil, List.nil_append] at htodo
      rw [← htodo]
    simp [State.after, this]
  | cons e es ih =>
    intro s t ht htodo
    have hlt := (List.getElem?_eq_some_iff.mp ht).1
    have hstep : step s (.advance i) = s.after i t (es.map .call ++ as) [e] := by
      simp [step, State.advance, ht, htodo, State.take, State.resume, State.after]
    rw [List.length_cons, List.replicate_succ, run_cons, hstep,
      ih _ { t with todo := es.map .call ++ as } (by simp [State.after, hlt]) rfl]
    simp [State.after]

/-- Left alone, a thread does to the manager what its actions do in a row, and makes their calls. -/
theorem run_alone (i : ℕ) (as : List Action) :
    ∀ (s : State) (t : Thread), s.threads[i]? = some t → t.todo = as →
      (.startCallRequestTimer ∈ as → t.op ≠ .onCallRequestTimeout ∧ s.TimerQuiet) →
      ∃ n, let s' := run step s (List.replicate n (.advance i))
        s'.manager = (runActions s.manager as).1 ∧
        s'.log = s.log ++ (runActions s.manager as).2.map (Prod.mk t.period) := by
  induction as with
  | nil => exact fun s t ht htodo _ => ⟨0, by simp [runActions]⟩
  | cons a as ih =>
    intro s t ht htodo htimer
    have hlt := (List.getElem?_eq_some_iff.mp ht).1
    -- the action and the calls it leaves, as one block of steps
    have hblock : ∃ n s₁, run step s (List.replicate n (.advance i)) = s₁ ∧
        s₁.manager = (a.exec s.manager).1 ∧ s₁.log = s.log ++ (a.exec s.manager).2.map (Prod.mk t.period) ∧
        s₁.threads = s.threads.set i { t with todo := as } ∧ s₁.timerChecked = s.timerChecked := by
      by_cases hcall : ∃ e, a = .call e
      · obtain ⟨e, rfl⟩ := hcall
        refine ⟨1, _, rfl, ?_⟩
        simp [step, State.advance, ht, htodo, State.take, State.resume, Action.exec]
      · have hstep : step s (.advance i) =
            (s.resume i t ((a.exec s.manager).2.map .call)).leave (a.exec s.manager).1 := by
          have hgo : ¬ (a = .startCallRequestTimer ∧ s.timerBusy = true) := by
            rintro ⟨rfl, hb⟩
            simp [(htimer (by simp)).2.not_busy] at hb
          simp only [step, State.advance, ht, htodo]
          exact take_section (fun e he => hcall ⟨e, he⟩) hgo
        have hcalls := run_calls i as (a.exec s.manager).2 (step s (.advance i))
          { t with todo := (a.exec s.manager).2.map .call ++ as } (by simp [hstep, State.resume, htodo, hlt]) rfl
        refine ⟨(a.exec s.manager).2.length + 1, _, rfl, ?_⟩
        rw [List.replicate_succ, run_cons, hcalls, hstep]
        simp [State.after, State.leave, State.resume]
    obtain ⟨n, s₁, hrun, hm, hlog, hth, hchk⟩ := hblock
    obtain ⟨n', hm', hlog'⟩ := ih s₁ { t with todo := as } (by simp [hth, hlt]) rfl (by
      intro hs
      obtain ⟨hop, hq⟩ := htimer (by simp [hs])
      refine ⟨hop, hchk.trans hq.1, fun t' ht' hop' => ?_⟩
      rw [hth] at ht'
      rcases List.mem_or_eq_of_mem_set ht' with ht' | rfl
      · exact hq.2 t' ht' hop'
      · exact absurd hop' hop)
    refine ⟨n + n', ?_⟩
    rw [List.replicate_add, run_append, hrun]
    exact ⟨hm'.trans (by simp [runActions, hm]), hlog'.trans (by simp [runActions, hm, hlog])⟩

/-- **An operation that no other thread interrupts is `perform`**: this is where the step-by-step system
and the atomic operations of the other modules meet. -/
theorem spawn_alone (s : State) (op : Op) (hq : s.TimerQuiet) :
    ∃ n, let s' := run step (s.spawn op) (List.replicate n (.advance s.threads.length))
      s'.manager = (s.manager.perform op).1 ∧
      s'.log = s.log ++ (s.manager.perform op).2.map (Prod.mk s.period) := by
  refine run_alone s.threads.length _ (s.spawn op) ⟨op, s.manager, s.period, (op.enter s.manager).2⟩
    (by simp) rfl ?_
  intro hs
  have hop : op ≠ .onCallRequestTimeout := by
    rintro rfl
    simp only [Op.enter, CallManager.onCallRequestTimeout] at hs
    split_ifs at hs <;> simp at hs
  refine ⟨hop, hq.1, fun t ht hop' => ?_⟩
  rcases List.mem_append.mp ht with ht | ht
  · exact hq.2 t ht hop'
  · obtain rfl : t = ⟨op, s.manager, s.period, (op.enter s.manager).2⟩ := by simpa using ht
    exact absurd hop' hop

end PeerCall.Threads
