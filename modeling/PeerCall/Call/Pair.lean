import PeerCall.Lib.Runs
import PeerCall.Call.Manager

/-!
# Call.Pair — two call managers over a FIFO relay

Two clients with distinct uids, each with a transport and an observer registered, joined by one FIFO
channel in each direction; the relay stamps `from` with the sender's uid.  Every operation and every
delivery is one step.

The agreement proof looks at one call id at a time.  `Link a out b back` lists the joint situations of
one call: the caller's phase, the messages about it on the way to the callee, the callee's phase and
the messages on the way back.  Each kind of step moves a link to a link (`Link.*`), a step about one id
leaves the links of all other ids alone (`inv_of_link`), and a link with nothing in flight is either
closed on both sides or open on both sides (`Link.quiet`).
-/

namespace PeerCall.Pair

open PeerCall.Lib

inductive Party
  | a | b
  deriving DecidableEq, Repr

instance : Fintype Party := ⟨{.a, .b}, fun p => by cases p <;> simp⟩

def Party.other : Party → Party
  | .a => .b
  | .b => .a

@[simp] theorem Party.other_other (p : Party) : p.other.other = p := by cases p <;> rfl

@[simp] theorem Party.other_ne (p : Party) : p.other ≠ p := by cases p <;> decide

theorem Party.eq_or_eq_other (p q : Party) : q = p ∨ q = p.other := by
  cases p <;> cases q <;> simp [Party.other]

/-- The kind of a message about a call. -/
inductive Kind
  | request | accept | reject | cancel | stop
  deriving DecidableEq, Repr

def kind : CallMessage → Kind
  | .callRequest _ => .request
  | .callResponse _ true _ => .accept
  | .callResponse _ false _ => .reject
  | .callCancel _ _ => .cancel
  | .callEnd _ _ => .stop

/-- Both managers, and the messages each party has sent to the other one, oldest first. -/
structure State where
  manager : Party → CallManager
  channel : Party → List CallMessage

inductive Step
  | initiateCall (p : Party) (target : String) (tick : ℕ)
  | cancelCall (p : Party)
  | acceptCall (p : Party)
  | rejectCall (p : Party) (reason : String)
  | endCall (p : Party)
  | notifyPeerConnectionEstablished (p : Party)
  | timerExpiry (p : Party)
  | deliver (p : Party)

def init : State where
  manager _ := { signalTransport := some 0, observer := some 0 }
  channel _ := []

section System

variable (uid : Party → String)

/-- What the relay carries from `p` to the other party; messages to anybody else leave the system. -/
def carried (p : Party) (es : List Event) : List CallMessage :=
  (outgoing es).filterMap fun x => if x.1 = uid p.other then some x.2 else none

/-- `p` has performed something with the result `r`. -/
def State.act (s : State) (p : Party) (r : CallManager × List Event) : State where
  manager := Function.update s.manager p r.1
  channel := Function.update s.channel p (s.channel p ++ carried uid p r.2)

def step (s : State) : Step → State
  | .initiateCall p target tick => s.act uid p ((s.manager p).perform (.initiateCall target tick true))
  | .cancelCall p => s.act uid p ((s.manager p).perform .cancelCall)
  | .acceptCall p => s.act uid p ((s.manager p).perform .acceptCall)
  | .rejectCall p reason => s.act uid p ((s.manager p).perform (.rejectCall reason))
  | .endCall p => s.act uid p ((s.manager p).perform .endCall)
  | .notifyPeerConnectionEstablished p =>
    s.act uid p ((s.manager p).perform .notifyPeerConnectionEstablished)
  | .timerExpiry p => s.act uid p (s.manager p).expire
  | .deliver p =>
    match s.channel p.other with
    | [] => s
    | msg :: rest =>
      State.act uid { s with channel := Function.update s.channel p.other rest } p
        ((s.manager p).perform (.handle (uid p.other) msg))

/-- Whoever is ringing or in a call has the other party as its peer, and the other party is in the same
call with it. -/
def Agreement (s : State) : Prop :=
  ∀ p, (s.manager p).callState ∈ [CallState.receiving, .connecting, .connected] →
    (s.manager p).currentPeer = uid p.other ∧
    (s.manager p.other).callState ≠ .idle ∧
    (s.manager p.other).currentPeer = uid p ∧
    (s.manager p.other).currentCallId = (s.manager p).currentCallId

instance (s : State) : Decidable (Agreement uid s) := by
  unfold Agreement; infer_instance

/-- The steps that do not run into the gaps of the protocol.  A request timeout is not announced to the
callee, so it must not hit a request the callee has or is about to get; a cancellation is ignored by a
callee that has accepted, so it must not cross an acceptance; and the generated id must not be in use. -/
def Orderly (s : State) : Step → Prop
  | .initiateCall p _ tick =>
    (s.manager p).callState = .idle →
      (s.manager p.other).currentCallId ≠ generateCallId tick (s.manager p).callCounter ∧
      ∀ q, ∀ msg ∈ s.channel q, msg.callId ≠ generateCallId tick (s.manager p).callCounter
  | .cancelCall p =>
    (s.manager p).callState = .calling →
      (s.manager p.other).currentCallId = (s.manager p).currentCallId →
        (s.manager p.other).callState ∉ [CallState.connecting, .connected]
  | .timerExpiry p =>
    (s.manager p).callState = .calling →
      CallMessage.callRequest (s.manager p).currentCallId ∉ s.channel p ∧
      ((s.manager p.other).currentCallId = (s.manager p).currentCallId →
        (s.manager p.other).callState = .idle)
  | .acceptCall p =>
    (s.manager p).callState = .receiving →
      ∀ msg ∈ s.channel p.other, msg.callId = (s.manager p).currentCallId → kind msg ≠ .cancel
  | _ => True

instance (s : State) (i : Step) : Decidable (Orderly s i) := by
  cases i <;> (unfold Orderly; infer_instance)

end System

/-! ### One call at a time -/

/-- The kinds of the messages about `c`, in order. -/
def kinds (c : String) (l : List CallMessage) : List Kind :=
  (l.filter fun msg => msg.callId = c).map kind

/-- The state of a manager in the call `c` with `peer`, as caller or as callee; `none` when it is not in
that call in that role. -/
def phase (m : CallManager) (caller : Bool) (peer c : String) : Option CallState :=
  if m.callState ≠ .idle ∧ m.isCaller = caller ∧ m.currentPeer = peer ∧ m.currentCallId = c then
    some m.callState
  else none

/-- The phases of an accepted call. -/
def Up (x : CallState) : Prop := x = .connecting ∨ x = .connected

/-- The joint situations of one call: caller, messages out, callee, messages back. -/
inductive Link : Option CallState → List Kind → Option CallState → List Kind → Prop
  | asked : Link (some .calling) [.request] none []
  | withdrawn {k} (h : k = Kind.cancel ∨ k = .stop) : Link none [.request, k] none []
  | ringing : Link (some .calling) [] (some .receiving) []
  | orphaned {k} (h : k = Kind.cancel ∨ k = .stop) : Link none [k] (some .receiving) []
  | accepted {y} (h : Up y) : Link (some .calling) [] (some y) [.accept]
  | up {x y} (hx : Up x) (hy : Up y) : Link (some x) [] (some y) []
  | callerLeft {y back} (h : Up y) (hb : back = [] ∨ back = [.accept]) : Link none [.stop] (some y) back
  | calleeLeft {x} (h : Up x) : Link (some x) [] none [.stop]
  | refused {back} (h : back = [.reject] ∨ back = [.stop] ∨ back = [.accept, .stop]) :
    Link (some .calling) [] none back
  | ended {out back} (ho : out = [] ∨ out = [.cancel] ∨ out = [.stop])
    (hb : back = [] ∨ back = [.reject] ∨ back = [.stop] ∨ back = [.accept] ∨ back = [.accept, .stop]) :
    Link none out none back

namespace Link

variable {a b : Option CallState} {out back : List Kind} {x : CallState}

/-- With nothing in flight, either both are out of the call or both are in it. -/
theorem quiet (h : Link a [] b []) : a = none ∧ b = none ∨ a.isSome ∧ b.isSome := by
  cases h <;> simp_all

theorem callerStops (h : Link (some x) out b back) : Link none (out ++ [.stop]) b back := by
  cases h with
  | asked => exact .withdrawn (Or.inr rfl)
  | ringing => exact .orphaned (Or.inr rfl)
  | accepted hy => exact .callerLeft hy (Or.inr rfl)
  | up hx hy => exact .callerLeft hy (Or.inl rfl)
  | calleeLeft hx => exact .ended (by simp) (by simp)
  | refused hb => exact .ended (by simp) (by tauto)

theorem callerCancels (h : Link (some .calling) out b back) (hb : ∀ y, b = some y → ¬ Up y) :
    Link none (out ++ [.cancel]) b back := by
  cases h with
  | asked => exact .withdrawn (Or.inl rfl)
  | ringing => exact .orphaned (Or.inl rfl)
  | accepted hy => exact absurd hy (hb _ rfl)
  | up hx hy => exact absurd hy (hb _ rfl)
  | calleeLeft hx => exact .ended (by simp) (by simp)
  | refused hb => exact .ended (by simp) (by tauto)

/-- A timeout is silent: it is harmless only when the callee neither has the call nor will get it. -/
theorem callerTimesOut (h : Link (some .calling) out b back) (hout : Kind.request ∉ out)
    (hb : b = none) : Link none out b back := by
  cases h with
  | asked => simp at hout
  | ringing => simp at hb
  | accepted hy => simp at hb
  | up hx hy => simp at hb
  | calleeLeft hx => exact .ended (by simp) (by simp)
  | refused hb => exact .ended (by simp) (by tauto)

theorem callerUp (h : Link (some .connecting) out b back) : Link (some .connected) out b back := by
  cases h with
  | up hx hy => exact .up (Or.inr rfl) hy
  | calleeLeft hx => exact .calleeLeft (Or.inr rfl)

theorem calleeUp (h : Link a out (some .connecting) back) : Link a out (some .connected) back := by
  cases h with
  | accepted hy => exact .accepted (Or.inr rfl)
  | up hx hy => exact .up hx (Or.inr rfl)
  | callerLeft hy hb => exact .callerLeft (Or.inr rfl) hb

theorem calleeAccepts (h : Link a out (some .receiving) back) (hc : Kind.cancel ∉ out) :
    Link a out (some .connecting) (back ++ [.accept]) := by
  cases h with
  | ringing => exact .accepted (Or.inl rfl)
  | orphaned hk =>
    rcases hk with rfl | rfl
    · simp at hc
    · exact .callerLeft (Or.inl rfl) (Or.inr rfl)
  | accepted hy => simp [Up] at hy
  | up hx hy => simp [Up] at hy
  | callerLeft hy hb => simp [Up] at hy

theorem calleeRejects (h : Link a out (some .receiving) back) :
    Link a out none (back ++ [.reject]) := by
  cases h with
  | ringing => exact .refused (by simp)
  | orphaned hk => exact .ended (by tauto) (by simp)
  | accepted hy => simp [Up] at hy
  | up hx hy => simp [Up] at hy
  | callerLeft hy hb => simp [Up] at hy

theorem calleeStops (h : Link a out (some x) back) : Link a out none (back ++ [.stop]) := by
  cases h with
  | ringing => exact .refused (by simp)
  | orphaned hk => exact .ended (by tauto) (by simp)
  | accepted hy => exact .refused (by simp)
  | up hx hy => exact .calleeLeft hx
  | callerLeft hy hb => rcases hb with rfl | rfl <;> exact .ended (by simp) (by simp)

theorem requestRings (h : Link a (.request :: out) b back) : Link a out (some .receiving) back := by
  cases h with
  | asked => exact .ringing
  | withdrawn hk => exact .orphaned hk
  | orphaned hk => simp at hk
  | ended ho hb => simp at ho

theorem requestBusy (h : Link a (.request :: out) b back) : Link a out b (back ++ [.reject]) := by
  cases h with
  | asked => exact .refused (by simp)
  | withdrawn hk => exact .ended (by tauto) (by simp)
  | orphaned hk => simp at hk
  | ended ho hb => simp at ho

/-- A cancellation always finds a callee that still rings or is not in the call. -/
theorem cancelEnds (h : Link a (.cancel :: out) b back) :
    (b = some .receiving ∨ b = none) ∧ Link a out none back := by
  cases h with
  | orphaned hk => exact ⟨Or.inl rfl, .ended (by simp) (by simp)⟩
  | ended ho hb => exact ⟨Or.inr rfl, .ended (by simp_all) hb⟩

theorem stopEnds (h : Link a (.stop :: out) b back) : Link a out none back := by
  cases h with
  | orphaned hk => exact .ended (by simp) (by simp)
  | callerLeft hy hb => exact .ended (by simp) (by tauto)
  | ended ho hb => exact .ended (by simp_all) hb

theorem acceptConnects (h : Link (some x) out b (.accept :: back)) :
    x = .calling ∧ Link (some .connecting) out b back := by
  cases h with
  | accepted hy => exact ⟨rfl, .up (Or.inl rfl) hy⟩
  | refused hb =>
    obtain rfl : back = [.stop] := by simpa using hb
    exact ⟨rfl, .calleeLeft (Or.inl rfl)⟩

theorem acceptIgnored (h : Link none out b (.accept :: back)) : Link none out b back := by
  cases h with
  | callerLeft hy hb => exact .callerLeft hy (by simp_all)
  | ended ho hb => exact .ended ho (by simp_all; tauto)

theorem rejectEnds (h : Link a out b (.reject :: back)) :
    (a = some .calling ∨ a = none) ∧ Link none out b back := by
  cases h with
  | callerLeft hy hb => simp at hb
  | refused hb =>
    obtain rfl : back = [] := by simpa using hb
    exact ⟨Or.inl rfl, .ended (by simp) (by simp)⟩
  | ended ho hb => exact ⟨Or.inr rfl, .ended ho (by simp_all)⟩

theorem backStopEnds (h : Link a out b (.stop :: back)) : Link none out b back := by
  cases h with
  | callerLeft hy hb => simp at hb
  | calleeLeft hx => exact .ended (by simp) (by simp)
  | refused hb =>
    obtain rfl : back = [] := by simpa using hb
    exact .ended (by simp) (by simp)
  | ended ho hb => exact .ended ho (by simp_all)

/-- What travels to the callee. -/
theorem out_kind {k : Kind} (h : Link a (k :: out) b back) : k ≠ .accept ∧ k ≠ .reject := by
  cases h <;> simp_all <;> aesop

/-- What travels to the caller. -/
theorem back_kind {k : Kind} (h : Link a out b (k :: back)) : k ≠ .request ∧ k ≠ .cancel := by
  cases h <;> simp_all <;> aesop

end Link

/-! ### The invariant -/

section Invariant

variable (uid : Party → String)

/-- What every manager of the pair satisfies between operations. -/
structure Local (p : Party) (m : CallManager) : Prop where
  transport : m.signalTransport = some 0
  observer : m.observer = some 0
  settled : m.callState ≠ .ending
  named : m.callState ≠ .idle → m.currentCallId ≠ ""
  caller : m.callState = .calling → m.isCaller = true
  callee : m.callState = .receiving → m.isCaller = false
  peer : m.callState ∈ [CallState.receiving, .connecting, .connected] → m.currentPeer = uid p.other

/-- The call `c`, seen with `p` as its caller. -/
structure Linked (s : State) (p : Party) (c : String) : Prop where
  link : Link (phase (s.manager p) true (uid p.other) c) (kinds c (s.channel p))
    (phase (s.manager p.other) false (uid p) c) (kinds c (s.channel p.other))
  notCallee : phase (s.manager p) false (uid p.other) c = none
  notCaller : phase (s.manager p.other) true (uid p) c = none

structure Inv (s : State) : Prop where
  loc : ∀ p, Local uid p (s.manager p)
  ids : ∀ p, ∀ msg ∈ s.channel p, msg.callId ≠ ""
  linked : ∀ c, ∃ p, Linked uid s p c

/-- The state after `p` has taken the messages before `rest` off its incoming channel, become `m` and
sent `sent` to the other party. -/
def State.move (s : State) (p : Party) (rest : List CallMessage) (m : CallManager)
    (sent : List CallMessage) : State where
  manager := Function.update s.manager p m
  channel q := if q = p then s.channel p ++ sent else rest

variable {uid}

section Move

variable {s : State} {p : Party} {rest sent : List CallMessage} {m : CallManager}

@[simp] theorem move_manager_self : (s.move p rest m sent).manager p = m := by simp [State.move]

@[simp] theorem move_manager_other : (s.move p rest m sent).manager p.other = s.manager p.other := by
  simp [State.move]

@[simp] theorem move_channel_self : (s.move p rest m sent).channel p = s.channel p ++ sent := by
  simp [State.move]

@[simp] theorem move_channel_other : (s.move p rest m sent).channel p.other = rest := by
  simp [State.move]

end Move

@[simp] theorem kinds_append (c : String) (l l' : List CallMessage) :
    kinds c (l ++ l') = kinds c l ++ kinds c l' := by
  simp [kinds]

theorem kinds_eq_nil {c : String} {l : List CallMessage} (h : ∀ x ∈ l, x.callId ≠ c) : kinds c l = [] := by
  simpa [kinds, List.filter_eq_nil_iff] using h

theorem kinds_head {msg : CallMessage} {c : String} {l rest : List CallMessage} (hl : l = msg :: rest)
    (h : msg.callId = c) : kinds c l = kind msg :: kinds c rest := by
  simp [kinds, h, hl]

theorem kinds_cons_ne {msg : CallMessage} {c : String} (h : msg.callId ≠ c) (l : List CallMessage) :
    kinds c (msg :: l) = kinds c l := by
  simp [kinds, h]

theorem mem_of_mem_kinds {c : String} {l : List CallMessage} {k : Kind} (h : k ∈ kinds c l) :
    ∃ msg ∈ l, msg.callId = c ∧ kind msg = k := by
  obtain ⟨msg, hmem, hkind⟩ := List.mem_map.mp h
  obtain ⟨hmem, hc⟩ := List.mem_filter.mp hmem
  exact ⟨msg, hmem, by simpa using hc, hkind⟩

theorem request_mem_of_kinds {c : String} {l : List CallMessage} (h : Kind.request ∈ kinds c l) :
    .callRequest c ∈ l := by
  obtain ⟨msg, hmem, hc, hkind⟩ := mem_of_mem_kinds h
  match msg with
  | .callRequest _ => exact hc ▸ hmem
  | .callResponse _ true _ | .callResponse _ false _ | .callCancel _ _ | .callEnd _ _ =>
    simp [kind] at hkind

theorem phase_of_ne {m : CallManager} {c0 c : String} (hm : m.callState = .idle ∨ m.currentCallId = c0)
    (hc : c ≠ c0) (r : Bool) (peer : String) : phase m r peer c = none := by
  rcases hm with h | h
  · simp [phase, h]
  · simp [phase, h, Ne.symm hc]

theorem phase_idle {m : CallManager} (h : m.callState = .idle) (r : Bool) (peer c : String) :
    phase m r peer c = none := by
  simp [phase, h]

theorem phase_self {m : CallManager} (h : m.callState ≠ .idle) :
    phase m m.isCaller m.currentPeer m.currentCallId = some m.callState := by
  simp [phase, h]

/-- A move that shows nothing of the call `c` keeps its link. -/
theorem Linked.frame {s : State} {p q : Party} {rest sent : List CallMessage} {m : CallManager}
    {c : String} (hq : Linked uid s q c)
    (hphase : ∀ r, phase m r (uid p.other) c = phase (s.manager p) r (uid p.other) c)
    (hsent : kinds c sent = []) (hrest : kinds c rest = kinds c (s.channel p.other)) :
    Linked uid (s.move p rest m sent) q c := by
  rcases p.eq_or_eq_other q with rfl | rfl
  · exact ⟨by simpa [hphase, hsent, hrest] using hq.link, by simpa [hphase] using hq.notCallee,
      by simpa using hq.notCaller⟩
  · have hlink := hq.link
    have hnot := hq.notCallee
    have hnot' := hq.notCaller
    simp only [Party.other_other] at hlink hnot hnot'
    refine ⟨?_, ?_, ?_⟩ <;> simp only [Party.other_other, move_manager_self, move_manager_other,
      move_channel_self, move_channel_other, hphase, kinds_append, hsent, hrest, List.append_nil]
    · exact hlink
    · exact hnot
    · exact hnot'

/-- **Frame**: a move about the call `c0` keeps the links of all other calls, so only the link of `c0`
is left to show. -/
theorem inv_of_link {s : State} (h : Inv uid s) {p : Party} {rest sent : List CallMessage}
    {m : CallManager} (c0 : String) (hloc : Local uid p m)
    (hm : (∀ r c, phase m r (uid p.other) c = phase (s.manager p) r (uid p.other) c) ∨
      ((s.manager p).callState = .idle ∨ (s.manager p).currentCallId = c0) ∧
        (m.callState = .idle ∨ m.currentCallId = c0))
    (hs : ∀ x ∈ sent, x.callId = c0 ∧ c0 ≠ "")
    (hr : rest = s.channel p.other ∨ ∃ msg, s.channel p.other = msg :: rest ∧ msg.callId = c0)
    (hl : ∃ q, Linked uid (s.move p rest m sent) q c0) : Inv uid (s.move p rest m sent) := by
  refine ⟨fun q => ?_, fun q => ?_, fun c => ?_⟩
  · rcases p.eq_or_eq_other q with rfl | rfl
    · simpa using hloc
    · simpa using h.loc p.other
  · rcases p.eq_or_eq_other q with rfl | rfl
    · intro msg hmsg
      rw [move_channel_self] at hmsg
      rcases List.mem_append.mp hmsg with hmsg | hmsg
      · exact h.ids q msg hmsg
      · exact (hs msg hmsg).1 ▸ (hs msg hmsg).2
    · intro msg hmsg
      rw [move_channel_other] at hmsg
      rcases hr with rfl | ⟨msg', hmsg', -⟩
      · exact h.ids p.other msg hmsg
      · exact h.ids p.other msg (hmsg' ▸ List.mem_cons_of_mem _ hmsg)
  · by_cases hc : c = c0
    · exact hc ▸ hl
    have hphase : ∀ r, phase m r (uid p.other) c = phase (s.manager p) r (uid p.other) c := by
      rcases hm with hm | ⟨h1, h2⟩
      · exact fun r => hm r c
      · intro r
        rw [phase_of_ne h1 hc, phase_of_ne h2 hc]
    have hsent : kinds c sent = [] := kinds_eq_nil fun x hx hx' => hc (hx'.symm.trans (hs x hx).1)
    have hrest : kinds c rest = kinds c (s.channel p.other) := by
      rcases hr with rfl | ⟨msg, hmsg, hid⟩
      · rfl
      · rw [hmsg, kinds_cons_ne (fun hx => hc (hx.symm.trans hid))]
    obtain ⟨q, hq⟩ := h.linked c
    exact ⟨q, hq.frame hphase hsent hrest⟩

/-- The caller of a call is the party it is linked from. -/
theorem Inv.linked_of_caller {s : State} (h : Inv uid s) {p : Party} {c : String} {x : CallState}
    (hx : phase (s.manager p) true (uid p.other) c = some x) : Linked uid s p c := by
  obtain ⟨q, hq⟩ := h.linked c
  rcases p.eq_or_eq_other q with rfl | rfl
  · exact hq
  · have := hq.notCaller
    simp only [Party.other_other] at this
    simp [this] at hx

theorem Inv.linked_of_callee {s : State} (h : Inv uid s) {p : Party} {c : String} {x : CallState}
    (hx : phase (s.manager p) false (uid p.other) c = some x) : Linked uid s p.other c := by
  obtain ⟨q, hq⟩ := h.linked c
  rcases p.eq_or_eq_other q with rfl | rfl
  · simp [hq.notCallee] at hx
  · exact hq

/-- A move of the caller is a move of its link. -/
theorem Linked.callerMoves {s : State} {p : Party} {rest sent : List CallMessage} {m : CallManager}
    {c : String} (hq : Linked uid s p c)
    (hl : Link (phase m true (uid p.other) c) (kinds c (s.channel p) ++ kinds c sent)
      (phase (s.manager p.other) false (uid p) c) (kinds c rest))
    (hn : phase m false (uid p.other) c = none) : Linked uid (s.move p rest m sent) p c :=
  ⟨by simpa using hl, by simpa using hn, by simpa using hq.notCaller⟩

/-- A move of the callee is a move of the link of its peer. -/
theorem Linked.calleeMoves {s : State} {p : Party} {rest sent : List CallMessage} {m : CallManager}
    {c : String} (hq : Linked uid s p.other c)
    (hl : Link (phase (s.manager p.other) true (uid p) c) (kinds c rest)
      (phase m false (uid p.other) c) (kinds c (s.channel p) ++ kinds c sent))
    (hn : phase m true (uid p.other) c = none) : Linked uid (s.move p rest m sent) p.other c := by
  have hnot := hq.notCallee
  simp only [Party.other_other] at hnot
  refine ⟨?_, ?_, ?_⟩ <;> simp only [Party.other_other, move_manager_self, move_manager_other,
    move_channel_self, move_channel_other, kinds_append]
  · exact hl
  · exact hnot
  · exact hn

/-! ### The steps -/

theorem carried_append (p : Party) (es es' : List Event) :
    carried uid p (es ++ es') = carried uid p es ++ carried uid p es' := by
  simp [carried]

@[simp] theorem carried_notify (p : Party) (o : Option ℕ) (cs : List Callback) :
    carried uid p (notify o cs) = [] := by
  simp [carried]

theorem carried_send (p : Party) (t : ℕ) (dest : String) (msg : CallMessage) :
    carried uid p [.send t dest msg] = if dest = uid p.other then [msg] else [] := by
  by_cases h : dest = uid p.other <;> simp [carried, h]

theorem carried_sendToPeer (huid : ∀ q, uid q ≠ "") (p : Party) (t : ℕ) (peer : String)
    (msg : CallMessage) :
    carried uid p (sendToPeer (some t) peer msg) = if peer = uid p.other then [msg] else [] := by
  by_cases h : peer = ""
  · simp [sendToPeer, h, carried, (huid p.other).symm]
  · simp only [sendToPeer, if_neg h]
    exact carried_send p t peer msg

theorem act_eq_move (s : State) (p : Party) (r : CallManager × List Event) :
    s.act uid p r = s.move p (s.channel p.other) r.1 (carried uid p r.2) := by
  have : (s.act uid p r).channel = (s.move p (s.channel p.other) r.1 (carried uid p r.2)).channel := by
    funext q
    rcases p.eq_or_eq_other q with rfl | rfl
    · simp [State.act]
    · simp [State.act]
  rw [State.act, State.move] at *
  simpa using this

theorem deliver_eq_move {s : State} {p : Party} {msg : CallMessage} {rest : List CallMessage}
    (h : s.channel p.other = msg :: rest) :
    step uid s (.deliver p) = s.move p rest ((s.manager p).perform (.handle (uid p.other) msg)).1
      (carried uid p ((s.manager p).perform (.handle (uid p.other) msg)).2) := by
  simp only [step, h]
  rw [act_eq_move]
  simp only [State.move, State.mk.injEq, true_and]
  funext q
  rcases p.eq_or_eq_other q with rfl | rfl
  · simp [Function.update_of_ne (Party.other_ne q).symm]
  · simp

theorem move_self (s : State) (p : Party) : s.move p (s.channel p.other) (s.manager p) [] = s := by
  simp only [State.move, Function.update_eq_self, List.append_nil]
  congr 1
  funext q
  rcases p.eq_or_eq_other q with rfl | rfl <;> simp

theorem local_cleared {p : Party} {m : CallManager} (h : Local uid p m) : Local uid p m.cleared where
  transport := h.transport
  observer := h.observer
  settled := by simp [CallManager.cleared]
  named := by simp [CallManager.cleared]
  caller := by simp [CallManager.cleared]
  callee := by simp [CallManager.cleared]
  peer := by simp [CallManager.cleared]

theorem phase_of_peer_ne {m : CallManager} {peer : String} (h : m.currentPeer ≠ peer) (r : Bool)
    (c : String) : phase m r peer c = none := by
  simp [phase, h]

/-- **Leaving a call**: what is left to show is the move of its link, in the role `p` has in it; a call
with somebody outside the pair is not linked at all. -/
theorem inv_leave {s : State} (h : Inv uid s) {p : Party} (hact : (s.manager p).callState ≠ .idle)
    {m : CallManager} (hloc : Local uid p m) (hidle : m.callState = .idle) {rest sent : List CallMessage}
    (hs : ∀ x ∈ sent, x.callId = (s.manager p).currentCallId)
    (hr : rest = s.channel p.other ∨
      ∃ msg, s.channel p.other = msg :: rest ∧ msg.callId = (s.manager p).currentCallId)
    (hcaller : (s.manager p).isCaller = true → (s.manager p).currentPeer = uid p.other →
      Link (some (s.manager p).callState) (kinds (s.manager p).currentCallId (s.channel p))
        (phase (s.manager p.other) false (uid p) (s.manager p).currentCallId)
        (kinds (s.manager p).currentCallId (s.channel p.other)) →
      Link none (kinds (s.manager p).currentCallId (s.channel p) ++
          kinds (s.manager p).currentCallId sent)
        (phase (s.manager p.other) false (uid p) (s.manager p).currentCallId)
        (kinds (s.manager p).currentCallId rest))
    (hcallee : (s.manager p).isCaller = false → (s.manager p).currentPeer = uid p.other →
      Link (phase (s.manager p.other) true (uid p) (s.manager p).currentCallId)
        (kinds (s.manager p).currentCallId (s.channel p.other)) (some (s.manager p).callState)
        (kinds (s.manager p).currentCallId (s.channel p)) →
      Link (phase (s.manager p.other) true (uid p) (s.manager p).currentCallId)
        (kinds (s.manager p).currentCallId rest) none
        (kinds (s.manager p).currentCallId (s.channel p) ++ kinds (s.manager p).currentCallId sent))
    (hthird : (s.manager p).currentPeer ≠ uid p.other → sent = [] ∧ rest = s.channel p.other) :
    Inv uid (s.move p rest m sent) := by
  refine inv_of_link h (s.manager p).currentCallId hloc
    (Or.inr ⟨Or.inr rfl, Or.inl hidle⟩) (fun x hx => ⟨hs x hx, (h.loc p).named hact⟩) hr ?_
  by_cases hp : (s.manager p).currentPeer = uid p.other
  · have hself := phase_self hact
    rw [hp] at hself
    cases hrole : (s.manager p).isCaller with
    | true =>
      rw [hrole] at hself
      have hq := h.linked_of_caller hself
      have hlink := hq.link
      rw [hself] at hlink
      refine ⟨p, hq.callerMoves ?_ (phase_idle hidle _ _ _)⟩
      rw [phase_idle hidle]
      exact hcaller hrole hp hlink
    | false =>
      rw [hrole] at hself
      have hq := h.linked_of_callee hself
      have hlink := hq.link
      rw [Party.other_other, hself] at hlink
      refine ⟨p.other, hq.calleeMoves ?_ (phase_idle hidle _ _ _)⟩
      rw [phase_idle hidle]
      exact hcallee hrole hp hlink
  · obtain ⟨rfl, rfl⟩ := hthird hp
    obtain ⟨q, hq⟩ := h.linked (s.manager p).currentCallId
    refine ⟨q, hq.frame (fun r => ?_) rfl rfl⟩
    rw [phase_idle hidle, phase_of_peer_ne hp]

theorem phase_eq_some {m : CallManager} {r : Bool} {peer c : String} {x : CallState} :
    phase m r peer c = some x ↔ m.callState ≠ .idle ∧ m.isCaller = r ∧ m.currentPeer = peer ∧
      m.currentCallId = c ∧ m.callState = x := by
  unfold phase
  split_ifs with h
  · simp [h]
  · simp only [false_iff]
    tauto

variable {s : State} (p : Party)

theorem inv_cancelCall (huid : ∀ q, uid q ≠ "") (h : Inv uid s) (hok : Orderly s (.cancelCall p)) :
    Inv uid (step uid s (.cancelCall p)) := by
  simp only [step]
  rw [act_eq_move, CallManager.perform_cancelCall]
  by_cases hg : (s.manager p).callState = .calling
  · rw [if_neg (by simpa using hg), (h.loc p).transport, carried_append, carried_sendToPeer huid,
      carried_notify, List.append_nil]
    refine inv_leave h (by simp [hg]) (local_cleared (h.loc p)) rfl ?_ (Or.inl rfl) ?_ ?_ ?_
    · split_ifs <;> simp [CallMessage.callId]
    · intro _ hp hl
      rw [if_pos hp]
      rw [hg] at hl
      have := hl.callerCancels fun y hy => by
        obtain ⟨-, -, -, hid, rfl⟩ := phase_eq_some.mp hy
        simpa [Up] using hok hg hid
      simpa [kinds, CallMessage.callId, kind] using this
    · intro hrole
      simp [(h.loc p).caller hg] at hrole
    · intro hp
      simp [hp]
  · rw [if_pos (by simpa using hg)]
    simpa [carried] using (move_self s p).symm ▸ h

theorem local_timerWoken {p : Party} {m : CallManager} (h : Local uid p m) :
    Local uid p m.timerWoken := by
  obtain ⟨h1, h2, h3, h4, h5, h6, h7⟩ := h
  exact ⟨h1, h2, h3, h4, h5, h6, h7⟩

theorem inv_timerExpiry (h : Inv uid s) (hok : Orderly s (.timerExpiry p)) :
    Inv uid (step uid s (.timerExpiry p)) := by
  simp only [step]
  rw [act_eq_move, CallManager.expire_eq]
  have hloc := local_timerWoken (h.loc p)
  split_ifs with hf
  · obtain ⟨-, hg⟩ := hf
    obtain ⟨hreq, hid⟩ := hok hg
    rw [carried_append, carried_notify, carried_notify, List.append_nil]
    refine inv_leave h (by simp [hg]) (local_cleared hloc) rfl (by simp) (Or.inl rfl) ?_ ?_ ?_
    · intro _ hp hl
      rw [hg] at hl
      have hnone : phase (s.manager p.other) false (uid p) (s.manager p).currentCallId = none := by
        by_contra hne
        obtain ⟨y, hy⟩ := Option.ne_none_iff_exists'.mp hne
        obtain ⟨hni, -, -, hc, -⟩ := phase_eq_some.mp hy
        exact hni (hid hc)
      have hk : Kind.request ∉ kinds (s.manager p).currentCallId (s.channel p) :=
        fun hk => hreq (request_mem_of_kinds hk)
      simpa [kinds] using hl.callerTimesOut hk hnone
    · intro hrole
      simp [(h.loc p).caller hg] at hrole
    · intro _
      simp
  · -- the end of the timer thread alone is invisible
    refine inv_of_link h "" hloc (Or.inl fun _ _ => rfl) (by simp [carried]) (Or.inl rfl) ?_
    obtain ⟨q, hq⟩ := h.linked ""
    exact ⟨q, hq.frame (fun _ => rfl) rfl rfl⟩

theorem inv_rejectCall (huid : ∀ q, uid q ≠ "") (h : Inv uid s) (reason : String) :
    Inv uid (step uid s (.rejectCall p reason)) := by
  simp only [step]
  rw [act_eq_move, CallManager.perform_rejectCall]
  by_cases hg : (s.manager p).callState = .receiving
  · rw [if_neg (by simpa using hg), (h.loc p).transport, carried_append, carried_sendToPeer huid,
      carried_notify, List.append_nil]
    refine inv_leave h (by simp [hg]) (local_cleared (h.loc p)) rfl ?_ (Or.inl rfl) ?_ ?_ ?_
    · split_ifs <;> simp [CallMessage.callId]
    · intro hrole
      simp [(h.loc p).callee hg] at hrole
    · intro _ hp hl
      rw [if_pos hp]
      rw [hg] at hl
      simpa [kinds, CallMessage.callId, kind] using hl.calleeRejects
    · intro hp
      simp [hp]
  · rw [if_pos (by simpa using hg)]
    simpa [carried] using (move_self s p).symm ▸ h

theorem inv_endCall (huid : ∀ q, uid q ≠ "") (h : Inv uid s) : Inv uid (step uid s (.endCall p)) := by
  simp only [step]
  rw [act_eq_move, CallManager.perform_endCall]
  by_cases hg : (s.manager p).callState = .idle ∨ (s.manager p).callState = .ending
  · rw [if_pos hg]
    simpa [carried] using (move_self s p).symm ▸ h
  · rw [if_neg hg, (h.loc p).transport, List.append_assoc, carried_append, carried_sendToPeer huid,
      carried_append, carried_notify, carried_notify, List.append_nil, List.append_nil]
    refine inv_leave h (fun hi => hg (Or.inl hi)) (local_cleared (h.loc p)) rfl ?_ (Or.inl rfl) ?_ ?_ ?_
    · split_ifs <;> simp [CallMessage.callId]
    · intro _ hp hl
      rw [if_pos hp]
      simpa [kinds, CallMessage.callId, kind] using hl.callerStops
    · intro _ hp hl
      rw [if_pos hp]
      simpa [kinds, CallMessage.callId, kind] using hl.calleeStops
    · intro hp
      simp [hp]

theorem inv_acceptCall (h : Inv uid s) (hok : Orderly s (.acceptCall p)) :
    Inv uid (step uid s (.acceptCall p)) := by
  simp only [step]
  rw [act_eq_move, CallManager.perform_acceptCall]
  by_cases hg : (s.manager p).callState = .receiving
  · have hloc := h.loc p
    have hp : (s.manager p).currentPeer = uid p.other := hloc.peer (by simp [hg])
    have hrole := hloc.callee hg
    rw [if_neg (by simpa using hg), hloc.transport]
    simp only [hp]
    rw [← List.singleton_append, carried_append, carried_send, carried_notify, List.append_nil, if_pos rfl]
    refine inv_of_link h (s.manager p).currentCallId ?_ (Or.inr ⟨Or.inr rfl, Or.inr rfl⟩)
      (by simpa [CallMessage.callId] using hloc.named (by simp [hg])) (Or.inl rfl) ?_
    · exact ⟨rfl, hloc.observer, by simp, fun _ => hloc.named (by simp [hg]), by simp, by simp,
        fun _ => rfl⟩
    · have hself := phase_self (m := s.manager p) (by simp [hg])
      rw [hp, hrole, hg] at hself
      have hq := h.linked_of_callee hself
      have hlink := hq.link
      rw [Party.other_other, hself] at hlink
      have hc : Kind.cancel ∉ kinds (s.manager p).currentCallId (s.channel p.other) := by
        intro hk
        obtain ⟨msg, hmem, hc, hkind⟩ := mem_of_mem_kinds hk
        exact hok hg msg hmem hc hkind
      refine ⟨p.other, hq.calleeMoves ?_ ?_⟩
      · simpa [phase, hp, hrole, kinds, CallMessage.callId, kind] using hlink.calleeAccepts hc
      · simp [phase, hrole]
  · rw [if_pos (by simpa using hg)]
    simpa [carried] using (move_self s p).symm ▸ h

theorem inv_established (h : Inv uid s) :
    Inv uid (step uid s (.notifyPeerConnectionEstablished p)) := by
  simp only [step]
  rw [act_eq_move, CallManager.perform_established]
  by_cases hg : (s.manager p).callState = .connecting
  · have hloc := h.loc p
    have hp : (s.manager p).currentPeer = uid p.other := hloc.peer (by simp [hg])
    rw [if_neg (by simpa using hg), carried_notify]
    refine inv_of_link h (s.manager p).currentCallId ?_ (Or.inr ⟨Or.inr rfl, Or.inr rfl⟩)
      (by simp) (Or.inl rfl) ?_
    · exact ⟨hloc.transport, hloc.observer, by simp, fun _ => hloc.named (by simp [hg]), by simp,
        by simp, fun _ => hp⟩
    · have hself := phase_self (m := s.manager p) (by simp [hg])
      rw [hp, hg] at hself
      cases hrole : (s.manager p).isCaller with
      | true =>
        rw [hrole] at hself
        have hq := h.linked_of_caller hself
        have hlink := hq.link
        rw [hself] at hlink
        refine ⟨p, hq.callerMoves ?_ ?_⟩
        · simpa [phase, hp, hrole, kinds] using hlink.callerUp
        · simp [phase]
      | false =>
        rw [hrole] at hself
        have hq := h.linked_of_callee hself
        have hlink := hq.link
        rw [Party.other_other, hself] at hlink
        refine ⟨p.other, hq.calleeMoves ?_ ?_⟩
        · simpa [phase, hp, hrole, kinds] using hlink.calleeUp
        · simp [phase]
  · rw [if_pos (by simpa using hg)]
    simpa [carried] using (move_self s p).symm ▸ h

theorem inv_initiateCall (h : Inv uid s) (target : String) (tick : ℕ)
    (hok : Orderly s (.initiateCall p target tick)) :
    Inv uid (step uid s (.initiateCall p target tick)) := by
  simp only [step]
  rw [act_eq_move, CallManager.perform_initiateCall, (h.loc p).transport]
  have hloc := h.loc p
  by_cases hg : (s.manager p).callState = .idle
  · obtain ⟨hother, hch⟩ := hok hg
    have hne := generateCallId_ne_empty tick (s.manager p).callCounter
    simp only [hg, ne_eq, not_true_eq_false, or_false, Bool.true_eq_false, if_false]
    rw [carried_append, carried_notify, carried_send, List.nil_append]
    refine inv_of_link h (generateCallId tick (s.manager p).callCounter) ?_
      (Or.inr ⟨Or.inl hg, Or.inr rfl⟩) ?_ (Or.inl rfl) ?_
    · exact ⟨rfl, hloc.observer, by simp, fun _ => hne, fun _ => rfl, by simp, by simp⟩
    · intro x hx
      split_ifs at hx
      · exact ⟨by simp_all [CallMessage.callId], hne⟩
      · simp at hx
    · have hout := kinds_eq_nil (hch p)
      have hback := kinds_eq_nil (hch p.other)
      have hq : ∀ r peer,
          phase (s.manager p.other) r peer (generateCallId tick (s.manager p).callCounter) = none := by
        intro r peer
        simp [phase, hother]
      refine ⟨p, ?_, ?_, ?_⟩
      · rw [move_manager_self, move_manager_other, move_channel_self, move_channel_other, hq,
          kinds_append, hout, hback]
        by_cases ht : target = uid p.other
        · simpa [phase, ht, kinds, CallMessage.callId, kind] using Link.asked
        · simpa [phase, ht, kinds] using Link.ended (Or.inl rfl) (Or.inl rfl)
      · simp [phase]
      · rw [move_manager_other, hq]
  · simp only [hg, ne_eq, not_false_eq_true, or_true, if_true]
    simpa [carried] using (move_self s p).symm ▸ h

section Deliver

variable {p} {msg : CallMessage} {rest : List CallMessage}

/-- A message that the receiver ignores may go if the link allows it to go unanswered. -/
theorem inv_ignore (h : Inv uid s) (hch : s.channel p.other = msg :: rest)
    (hcaller : ∀ {out b back}, Link (phase (s.manager p) true (uid p.other) msg.callId) out b
        (kind msg :: back) →
      Link (phase (s.manager p) true (uid p.other) msg.callId) out b back)
    (hcallee : ∀ {a out back}, Link a (kind msg :: out)
        (phase (s.manager p) false (uid p.other) msg.callId) back →
      Link a out (phase (s.manager p) false (uid p.other) msg.callId) back) :
    Inv uid (s.move p rest (s.manager p) []) := by
  refine inv_of_link h msg.callId (h.loc p) (Or.inl fun _ _ => rfl) (by simp)
    (Or.inr ⟨msg, hch, rfl⟩) ?_
  obtain ⟨q, hq⟩ := h.linked msg.callId
  have hlink := hq.link
  rcases p.eq_or_eq_other q with rfl | rfl
  · rw [kinds_head hch rfl] at hlink
    refine ⟨q, hq.callerMoves ?_ hq.notCallee⟩
    simpa [kinds] using hcaller hlink
  · have hnot := hq.notCaller
    rw [Party.other_other, kinds_head hch rfl] at hlink
    rw [Party.other_other] at hnot
    refine ⟨p.other, hq.calleeMoves ?_ hnot⟩
    simpa [kinds] using hcallee hlink

/-- Requests and cancellations travel towards the callee only. -/
theorem Inv.linked_of_out (h : Inv uid s) (hch : s.channel p.other = msg :: rest)
    (hk : kind msg = .request ∨ kind msg = .cancel) : Linked uid s p.other msg.callId := by
  obtain ⟨q, hq⟩ := h.linked msg.callId
  rcases p.eq_or_eq_other q with rfl | rfl
  · have hlink := hq.link
    rw [kinds_head hch rfl] at hlink
    have := hlink.back_kind
    tauto
  · exact hq

theorem inv_deliver_callRequest (h : Inv uid s) {c : String}
    (hch : s.channel p.other = .callRequest c :: rest) : Inv uid (step uid s (.deliver p)) := by
  rw [deliver_eq_move hch, CallManager.perform_callRequest]
  have hloc := h.loc p
  have hne : c ≠ "" := h.ids p.other (.callRequest c) (by simp [hch])
  have hq : Linked uid s p.other c := h.linked_of_out hch (Or.inl rfl)
  have hlink := hq.link
  have hnot := hq.notCaller
  rw [Party.other_other] at hnot
  rw [Party.other_other, kinds_head (c := c) hch rfl] at hlink
  rw [if_neg hne]
  by_cases hg : (s.manager p).callState = .idle
  · rw [if_neg (by simpa using hg), carried_notify]
    refine inv_of_link h c ?_ (Or.inr ⟨Or.inl hg, Or.inr rfl⟩) (by simp)
      (Or.inr ⟨_, hch, rfl⟩) ⟨p.other, hq.calleeMoves ?_ ?_⟩
    · exact ⟨hloc.transport, hloc.observer, by simp, fun _ => hne, by simp, fun _ => rfl, fun _ => rfl⟩
    · simpa [phase, kinds] using hlink.requestRings
    · simp [phase]
  · rw [if_pos (by simpa using hg), hloc.transport]
    simp only
    rw [carried_send, if_pos rfl]
    refine inv_of_link h c hloc (Or.inl fun _ _ => rfl) (by simpa [CallMessage.callId] using hne)
      (Or.inr ⟨_, hch, rfl⟩) ⟨p.other, hq.calleeMoves ?_ hnot⟩
    simpa [kinds, CallMessage.callId, kind] using hlink.requestBusy

theorem inv_deliver_callResponse (h : Inv uid s) {c reason : String} {accepted : Bool}
    (hch : s.channel p.other = .callResponse c accepted reason :: rest) :
    Inv uid (step uid s (.deliver p)) := by
  rw [deliver_eq_move hch, CallManager.perform_callResponse]
  have hloc := h.loc p
  have hne : c ≠ "" := h.ids p.other (.callResponse c accepted reason) (by simp [hch])
  by_cases hg : (s.manager p).callState ≠ .calling ∨ (s.manager p).currentPeer ≠ uid p.other ∨
      (s.manager p).currentCallId ≠ c ∨ c = ""
  · -- the response comes too late
    rw [if_pos hg]
    have hphase : phase (s.manager p) true (uid p.other) c ≠ some .calling := by
      intro hx
      obtain ⟨-, -, h1, h2, h3⟩ := phase_eq_some.mp hx
      simp [h1, h2, h3, hne] at hg
    have hgo : Inv uid (s.move p rest (s.manager p) []) := by
      refine inv_ignore h hch (fun {out b back} hl => ?_) (fun {a out back} hl => ?_)
      · change Link (phase (s.manager p) true (uid p.other) c) _ _ _ at hl
        change Link (phase (s.manager p) true (uid p.other) c) _ _ _
        cases accepted with
        | true =>
          cases hx : phase (s.manager p) true (uid p.other) c with
          | none => rw [hx] at hl; exact hl.acceptIgnored
          | some x => rw [hx] at hl hphase; exact absurd (congrArg some hl.acceptConnects.1) hphase
        | false =>
          obtain ⟨hx | hx, hl'⟩ := hl.rejectEnds
          · exact absurd hx hphase
          · rw [hx]; exact hl'
      · cases accepted with
        | true => exact absurd rfl hl.out_kind.1
        | false => exact absurd rfl hl.out_kind.2
    simpa [carried] using hgo
  · rw [if_neg hg]
    simp only [not_or, not_not] at hg
    obtain ⟨hst, hp, rfl, -⟩ := hg
    have hrole := hloc.caller hst
    cases accepted with
    | true =>
      rw [if_pos rfl, carried_notify]
      have hself := phase_self (m := s.manager p) (by simp [hst])
      rw [hp, hrole, hst] at hself
      have hq := h.linked_of_caller hself
      have hlink := hq.link
      rw [hself, kinds_head (c := (s.manager p).currentCallId) hch rfl] at hlink
      refine inv_of_link h (s.manager p).currentCallId ?_ (Or.inr ⟨Or.inr rfl, Or.inr rfl⟩) (by simp)
        (Or.inr ⟨_, hch, rfl⟩) ⟨p, hq.callerMoves ?_ ?_⟩
      · exact ⟨hloc.transport, hloc.observer, by simp, fun _ => hne, by simp, by simp, fun _ => hp⟩
      · simpa [phase, CallManager.stopCallRequestTimerLocked, hp, hrole, kinds]
          using hlink.acceptConnects.2
      · simp [phase, CallManager.stopCallRequestTimerLocked, hrole]
    | false =>
      simp only [Bool.false_eq_true, if_false, hloc.observer, carried_notify]
      have hloc' : Local uid p (s.manager p).stopCallRequestTimerLocked := by
        obtain ⟨h1, h2, h3, h4, h5, h6, h7⟩ := hloc
        exact ⟨h1, h2, h3, h4, h5, h6, h7⟩
      refine inv_leave h (by simp [hst]) (local_cleared hloc') rfl (by simp) (Or.inr ⟨_, hch, rfl⟩)
        ?_ ?_ ?_
      · intro _ _ hl
        rw [kinds_head (c := (s.manager p).currentCallId) hch rfl] at hl
        simpa [kinds] using hl.rejectEnds.2
      · intro hr
        simp [hrole] at hr
      · intro hp'
        exact absurd hp hp'

theorem inv_deliver_callCancel (h : Inv uid s) {c reason : String}
    (hch : s.channel p.other = .callCancel c reason :: rest) : Inv uid (step uid s (.deliver p)) := by
  rw [deliver_eq_move hch, CallManager.perform_callCancel]
  have hloc := h.loc p
  have hne : c ≠ "" := h.ids p.other (.callCancel c reason) (by simp [hch])
  by_cases hg : (s.manager p).callState ≠ .receiving ∨ (s.manager p).currentPeer ≠ uid p.other ∨
      (s.manager p).currentCallId ≠ c ∨ c = ""
  · rw [if_pos hg]
    have hphase : phase (s.manager p) false (uid p.other) c ≠ some .receiving := by
      intro hx
      obtain ⟨-, -, h1, h2, h3⟩ := phase_eq_some.mp hx
      simp [h1, h2, h3, hne] at hg
    have hgo : Inv uid (s.move p rest (s.manager p) []) := by
      refine inv_ignore h hch (fun {out b back} hl => absurd rfl hl.back_kind.2)
        (fun {a out back} hl => ?_)
      change Link _ _ (phase (s.manager p) false (uid p.other) c) _ at hl
      change Link _ _ (phase (s.manager p) false (uid p.other) c) _
      obtain ⟨hx | hx, hl'⟩ := hl.cancelEnds
      · exact absurd hx hphase
      · rw [hx]; exact hl'
    simpa [carried] using hgo
  · rw [if_neg hg]
    simp only [not_or, not_not] at hg
    obtain ⟨hst, hp, rfl, -⟩ := hg
    rw [carried_append, carried_notify, carried_notify, List.append_nil]
    refine inv_leave h (by simp [hst]) (local_cleared hloc) rfl (by simp) (Or.inr ⟨_, hch, rfl⟩)
      ?_ ?_ ?_
    · intro hr
      simp [hloc.callee hst] at hr
    · intro _ _ hl
      rw [kinds_head (c := (s.manager p).currentCallId) hch rfl] at hl
      simpa [kinds] using hl.cancelEnds.2
    · intro hp'
      exact absurd hp hp'

theorem inv_deliver_callEnd (h : Inv uid s) {c reason : String}
    (hch : s.channel p.other = .callEnd c reason :: rest) : Inv uid (step uid s (.deliver p)) := by
  rw [deliver_eq_move hch, CallManager.perform_callEnd]
  have hloc := h.loc p
  have hne : c ≠ "" := h.ids p.other (.callEnd c reason) (by simp [hch])
  by_cases hg : (s.manager p).currentPeer ≠ uid p.other ∨ (s.manager p).currentCallId ≠ c ∨
      (s.manager p).callState = .idle ∨ (s.manager p).callState = .ending ∨ c = ""
  · rw [if_pos hg]
    have hphase : ∀ r, phase (s.manager p) r (uid p.other) c = none := by
      intro r
      by_contra hx
      obtain ⟨y, hy⟩ := Option.ne_none_iff_exists'.mp hx
      obtain ⟨h1, -, h2, h3, -⟩ := phase_eq_some.mp hy
      simp [h1, h2, h3, hne, hloc.settled] at hg
    have hgo : Inv uid (s.move p rest (s.manager p) []) := by
      refine inv_ignore h hch (fun {out b back} hl => ?_) (fun {a out back} hl => ?_)
      · change Link _ _ _ _ at hl
        simp only [CallMessage.callId, hphase] at hl ⊢
        exact hl.backStopEnds
      · simp only [CallMessage.callId, hphase] at hl ⊢
        exact hl.stopEnds
    simpa [carried] using hgo
  · rw [if_neg hg]
    simp only [not_or, not_not] at hg
    obtain ⟨hp, rfl, hact, -, -⟩ := hg
    rw [carried_append, carried_notify, carried_notify, List.append_nil]
    refine inv_leave h hact (local_cleared hloc) rfl (by simp) (Or.inr ⟨_, hch, rfl⟩) ?_ ?_ ?_
    · intro _ _ hl
      rw [kinds_head (c := (s.manager p).currentCallId) hch rfl] at hl
      simpa [kinds] using hl.backStopEnds
    · intro _ _ hl
      rw [kinds_head (c := (s.manager p).currentCallId) hch rfl] at hl
      simpa [kinds] using hl.stopEnds
    · intro hp'
      exact absurd hp hp'

end Deliver

theorem inv_init : Inv uid init := by
  refine ⟨fun p => ?_, by simp [init], fun c => ⟨.a, ?_, by simp [phase, init], by simp [phase, init]⟩⟩
  · constructor <;> simp [init]
  · simpa [phase, init, kinds] using Link.ended (Or.inl rfl) (Or.inl rfl)

/-- **Every step that meets the condition moves links to links.** -/
theorem inv_step (huid : ∀ q, uid q ≠ "") (s : State) (i : Step) (h : Inv uid s) (hok : Orderly s i) :
    Inv uid (step uid s i) := by
  cases i with
  | initiateCall p target tick => exact inv_initiateCall p h target tick hok
  | cancelCall p => exact inv_cancelCall p huid h hok
  | acceptCall p => exact inv_acceptCall p h hok
  | rejectCall p reason => exact inv_rejectCall p huid h reason
  | endCall p => exact inv_endCall p huid h
  | notifyPeerConnectionEstablished p => exact inv_established p h
  | timerExpiry p => exact inv_timerExpiry p h hok
  | deliver p =>
    cases hch : s.channel p.other with
    | nil => simpa [step, hch] using h
    | cons msg rest =>
      match msg with
      | .callRequest _ => exact inv_deliver_callRequest h hch
      | .callResponse _ _ _ => exact inv_deliver_callResponse h hch
      | .callCancel _ _ => exact inv_deliver_callCancel h hch
      | .callEnd _ _ => exact inv_deliver_callEnd h hch

/-- With both channels empty the two ends of every link are in the same situation. -/
theorem agreement_of_quiet (h : Inv uid s) (hquiet : ∀ p, s.channel p = []) : Agreement uid s := by
  intro p hin
  have hact : (s.manager p).callState ≠ .idle := by
    intro hi
    simp [hi] at hin
  have hp := (h.loc p).peer hin
  have hself := phase_self hact
  rw [hp] at hself
  have hother : ∃ r y, phase (s.manager p.other) r (uid p) (s.manager p).currentCallId = some y := by
    cases hrole : (s.manager p).isCaller with
    | true =>
      rw [hrole] at hself
      have hlink := (h.linked_of_caller hself).link
      simp only [hquiet, hself, kinds, List.filter_nil, List.map_nil] at hlink
      rcases hlink.quiet with ⟨ha, -⟩ | ⟨-, hb⟩
      · simp at ha
      · exact ⟨false, Option.isSome_iff_exists.mp hb⟩
    | false =>
      rw [hrole] at hself
      have hlink := (h.linked_of_callee hself).link
      simp only [Party.other_other, hquiet, hself, kinds, List.filter_nil, List.map_nil] at hlink
      rcases hlink.quiet with ⟨-, hb⟩ | ⟨ha, -⟩
      · simp at hb
      · exact ⟨true, Option.isSome_iff_exists.mp ha⟩
  obtain ⟨r, y, hy⟩ := hother
  obtain ⟨h1, -, h2, h3, -⟩ := phase_eq_some.mp hy
  exact ⟨hp, h1, h2, h3⟩

end Invariant

/-! ### Agreement at quiescence -/

/-- **Agreement.**  In every run in which no request timeout hits a request the callee has or will get,
no cancellation crosses an acceptance and no generated id is in use, the two managers agree whenever
nothing is in flight. -/
theorem agreement_at_quiescence (uid : Party → String) (huid : ∀ p, uid p ≠ "") (l : List Step)
    (hl : Meets (step uid) Orderly init l) (hquiet : ∀ p, (run (step uid) init l).channel p = []) :
    Agreement uid (run (step uid) init l) :=
  agreement_of_quiet (run_invariant (inv_step huid) inv_init hl) hquiet

/-- The uids of the integration test. -/
def names : Party → String
  | .a => "alice"
  | .b => "bob"

/-- A call that both sides have brought up. -/
theorem agreement_connected :
    let l : List Step := [.initiateCall .a "bob" 7, .deliver .b, .acceptCall .b, .deliver .a,
      .notifyPeerConnectionEstablished .a, .notifyPeerConnectionEstablished .b]
    ((run (step names) init l).manager .b).callState = .connected ∧
      Agreement names (run (step names) init l) :=
  ⟨by decide, agreement_at_quiescence names (by decide) _ (by decide) (by decide)⟩

/-- **No agreement in general**: after a request timeout the callee rings for a caller that is idle. -/
theorem timeout_disagrees :
    ¬ ∀ l : List Step, (∀ p, (run (step names) init l).channel p = []) →
        Agreement names (run (step names) init l) := by
  intro h
  exact absurd (h [.initiateCall .a "bob" 7, .deliver .b, .timerExpiry .a] (by decide)) (by decide)

/-- The second gap: a cancellation that crosses an acceptance. -/
example :
    let s := run (step names) init [.initiateCall .a "bob" 7, .deliver .b, .acceptCall .b, .cancelCall .a,
      .deliver .a, .deliver .b]
    (∀ p, s.channel p = []) ∧ ¬ Agreement names s := by
  decide

/-- The third gap: two clients that generate the same id at the same tick. -/
example :
    let s := run (step names) init [.initiateCall .a "bob" 7, .initiateCall .b "alice" 7, .endCall .a,
      .deliver .b, .deliver .b, .deliver .a, .deliver .a]
    (∀ p, s.channel p = []) ∧ ¬ Agreement names s := by
  decide

end PeerCall.Pair
