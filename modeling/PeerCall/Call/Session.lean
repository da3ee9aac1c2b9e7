import PeerCall.Lib.Runs
import PeerCall.Call.Manager

/-!
# Call.Session — runs of complete operations: the current call and its request timer

An activity of the manager is one of its operations, or the end of the request timer's sleep, run to
completion.  The first part is about the four call fields, which fit together after every activity and change
along the edges of the state diagram only.  The second part is about the timer, which is kept by counting
generations: it runs exactly while a call is being placed, unless a rejection is not heard by anybody.
-/

namespace PeerCall

open PeerCall.Lib

/-- What happens to a call manager. -/
inductive Activity
  | op (op : Op)
  | timerExpiry
  deriving DecidableEq, Repr

/-! ### The current call -/

namespace Session

/-- The call fields fit together. -/
structure Coherent (x : Session) : Prop where
  settled : x.state ≠ .ending
  idle_iff : x.state = .idle ↔ x.callId = ""
  blank : x.state = .idle → x.peer = "" ∧ x.isCaller = false
  calling : x.state = .calling → x.isCaller = true
  receiving : x.state = .receiving → x.isCaller = false

/-- The edges of the state diagram. -/
inductive Edge : CallState → CallState → Prop
  | stay (s : CallState) : Edge s s
  | initiate : Edge .idle .calling
  | ring : Edge .idle .receiving
  | accepted : Edge .calling .connecting
  | accept : Edge .receiving .connecting
  | establish : Edge .connecting .connected
  | finish (s : CallState) : Edge s .idle

/-- One activity takes the call `x` to `y`: along an edge, and within a call nothing but the state changes. -/
structure Leads (x y : Session) : Prop where
  edge : Edge x.state y.state
  kept : x.state ≠ .idle → y.state ≠ .idle → y.peer = x.peer ∧ y.callId = x.callId ∧ y.isCaller = x.isCaller

theorem coherent_blank : Coherent ⟨.idle, "", "", false⟩ := by
  constructor <;> simp

theorem leads_blank (x : Session) : Leads x ⟨.idle, "", "", false⟩ :=
  ⟨.finish x.state, fun _ h => absurd rfl h⟩

theorem leads_self (x : Session) : Leads x x := ⟨.stay x.state, fun _ _ => ⟨rfl, rfl, rfl⟩⟩

/-- A new state of the same call. -/
theorem Coherent.move {x : Session} (h : x.Coherent) {s : CallState} (hx : x.state ≠ .idle)
    (hs : s = .connecting ∨ s = .connected) : Coherent ⟨s, x.peer, x.callId, x.isCaller⟩ := by
  have hid : x.callId ≠ "" := fun he => hx (h.idle_iff.mpr he)
  rcases hs with rfl | rfl
  · constructor <;> simp [hid]
  · constructor <;> simp [hid]

end Session

namespace CallManager

/-- An activity, run to completion. -/
def react (m : CallManager) : Activity → CallManager × List Event
  | .op op => m.perform op
  | .timerExpiry => m.expire

def next (m : CallManager) (a : Activity) : CallManager := (m.react a).1

/-- **One operation**: from a coherent call to a coherent call, along an edge. -/
theorem coherent_perform {m : CallManager} (h : m.session.Coherent) (op : Op) :
    (m.perform op).1.session.Coherent ∧ m.session.Leads (m.perform op).1.session := by
  have hstate : m.session.state = m.callState := rfl
  have ht := m.perform_transition op
  generalize (m.perform op).1.session = y at ht ⊢
  cases ht with
  | stay => exact ⟨h, Session.leads_self _⟩
  | clear => exact ⟨Session.coherent_blank, Session.leads_blank _⟩
  | initiate target tick hs =>
    refine ⟨?_, ?_, fun hne => absurd hs hne⟩
    · constructor <;> simp [generateCallId_ne_empty]
    · rw [hstate, hs]
      exact .initiate
  | receive sender c hc hs =>
    refine ⟨?_, ?_, fun hne => absurd hs hne⟩
    · constructor <;> simp [hc]
    · rw [hstate, hs]
      exact .ring
  | accept hs =>
    have hne : m.session.state ≠ .idle := by simp [hstate, hs]
    refine ⟨h.move hne (Or.inl rfl), ?_, fun _ _ => ⟨rfl, rfl, rfl⟩⟩
    rw [hstate, hs]
    exact .accept
  | accepted reason hs =>
    have hne : m.session.state ≠ .idle := by simp [hstate, hs]
    refine ⟨h.move hne (Or.inl rfl), ?_, fun _ _ => ⟨rfl, rfl, rfl⟩⟩
    rw [hstate, hs]
    exact .accepted
  | establish hs =>
    have hne : m.session.state ≠ .idle := by simp [hstate, hs]
    refine ⟨h.move hne (Or.inr rfl), ?_, fun _ _ => ⟨rfl, rfl, rfl⟩⟩
    rw [hstate, hs]
    exact .establish

/-- **One activity**. -/
theorem coherent_next {m : CallManager} (h : m.session.Coherent) (a : Activity) :
    (m.next a).session.Coherent ∧ m.session.Leads (m.next a).session := by
  cases a with
  | op op => exact coherent_perform h op
  | timerExpiry =>
    show m.expire.1.session.Coherent ∧ m.session.Leads m.expire.1.session
    rcases m.expire_session with hs | ⟨-, hs⟩
    · rw [hs]
      exact ⟨h, Session.leads_self _⟩
    · rw [hs]
      exact ⟨Session.coherent_blank, Session.leads_blank _⟩

theorem coherent_run (l : List Activity) : (run next {} l).session.Coherent := by
  have h0 : ({} : CallManager).session.Coherent := Session.coherent_blank
  exact run_invariant' (P := fun m : CallManager => m.session.Coherent) (fun _ a h => (coherent_next h a).1) h0 l

/-- **The call session**: after every run of complete activities, with any arguments and any observer and
transport, the call fields fit together, and the next activity goes along an edge of the diagram. -/
theorem session_coherent (l : List Activity) :
    (run next {} l).session.Coherent ∧ ∀ a, (run next {} l).session.Leads ((run next {} l).next a).session :=
  ⟨coherent_run l, fun a => (coherent_next (coherent_run l) a).2⟩

/-! ### The request timer -/

/-- The timer that was last started is the current one, and has not expired. -/
def TimerLive (m : CallManager) : Prop := m.timer = some m.timerGeneration

instance (m : CallManager) : Decidable m.TimerLive := by unfold TimerLive; infer_instance

/-- A call is being placed exactly while the timer is live. -/
def InStep (m : CallManager) : Prop := m.callState = .calling ↔ m.TimerLive

instance (m : CallManager) : Decidable m.InStep := by unfold InStep; infer_instance

/-- A rejection of the call that is being placed finds an observer. -/
def RejectionHeard (m : CallManager) : Activity → Prop
  | .op (.handle sender (.callResponse c false _)) =>
    m.callState = .calling → m.currentPeer = sender → m.currentCallId = c → c ≠ "" → m.observer ≠ none
  | _ => True

instance (m : CallManager) (a : Activity) : Decidable (m.RejectionHeard a) := by
  unfold RejectionHeard; split <;> infer_instance

/-- No timer is ahead of the counter. -/
def Bounded (m : CallManager) : Prop := ∀ g ∈ m.timer, g ≤ m.timerGeneration

/-- Everything an activity can do to the timer. -/
inductive Clock (m : CallManager) (a : Activity) (m' : CallManager) : Prop
  | keep (hok : m.RejectionHeard a) (hs : m'.callState = .calling ↔ m.callState = .calling)
      (hg : m'.timerGeneration = m.timerGeneration) (ht : m'.timer = m.timer)
  | start (hok : m.RejectionHeard a) (hs : m'.callState = .calling)
      (ht : m'.timer = some m'.timerGeneration)
  | stop (hok : m.RejectionHeard a) (hs : m'.callState ≠ .calling)
      (hg : m.timerGeneration < m'.timerGeneration) (ht : m'.timer = m.timer ∨ m'.timer = none)
  | wake (hok : m.RejectionHeard a) (hs : m'.callState = m.callState) (ht : m'.timer = none)
      (hno : ¬ (m.TimerLive ∧ m.callState = .calling))
  | deaf (hok : ¬ m.RejectionHeard a) (hs : m'.callState = .calling)
      (hg : m.timerGeneration < m'.timerGeneration) (ht : m'.timer = m.timer)

theorem Clock.refl {m : CallManager} {a : Activity} (hok : m.RejectionHeard a) : Clock m a m :=
  .keep hok Iff.rfl rfl rfl

/-- A cleanup stops the timer. -/
theorem Clock.cleared {m m₀ : CallManager} {a : Activity} (hok : m.RejectionHeard a)
    (hg : m.timerGeneration ≤ m₀.timerGeneration) (ht : m₀.timer = m.timer ∨ m₀.timer = none) :
    Clock m a m₀.cleared :=
  .stop hok (by simp [CallManager.cleared]) (Nat.lt_succ_of_le hg) ht

/-- An activity that is not a rejection of the call that is being placed. -/
theorem rejectionHeard_of_not_applies {m : CallManager} {op : Op} (h : ¬ m.Applies op) : m.RejectionHeard (.op op) := by
  unfold RejectionHeard
  split
  · intro hs hp hid hne
    simp_all [Applies]
  · trivial

/-- **One activity**, as far as the timer goes. -/
theorem clock_next (m : CallManager) (a : Activity) : Clock m a (m.next a) := by
  cases a with
  | timerExpiry =>
    show Clock m _ m.expire.1
    rw [expire_eq]
    split_ifs with h
    · exact .cleared trivial le_rfl (Or.inr rfl)
    · exact .wake trivial rfl rfl h
  | op op =>
    show Clock m _ (m.perform op).1
    have h := m.performed op
    generalize (m.perform op).1 = m' at h ⊢
    generalize (m.perform op).2 = es at h
    have hlt : m.timerGeneration < m.stopCallRequestTimerLocked.timerGeneration := Nat.lt_succ_self _
    cases h with
    | ignored _ h => exact .refl (rejectionHeard_of_not_applies h)
    | setSignalTransport t => exact .keep trivial Iff.rfl rfl rfl
    | registerObserver o => exact .keep trivial Iff.rfl rfl rfl
    | initiated => exact .start trivial rfl rfl
    | cancelled => exact .cleared trivial le_rfl (Or.inl rfl)
    | accepted t ht hs => exact .keep trivial (by simp [hs]) rfl rfl
    | rejected => exact .cleared trivial le_rfl (Or.inl rfl)
    | ended => exact .cleared trivial le_rfl (Or.inl rfl)
    | established hs => exact .keep trivial (by simp [hs]) rfl rfl
    | timedOut => exact .cleared trivial le_rfl (Or.inl rfl)
    | rang sender c hc hs => exact .keep trivial (by simp [hs]) rfl rfl
    | busy => exact .refl trivial
    | answered reason => exact .stop trivial (by simp) hlt (Or.inl rfl)
    | refused o reason hs hc ho => exact .cleared (fun _ _ _ _ => by simp [ho]) hlt.le (Or.inl rfl)
    | refusedUnheard reason hs hc ho => exact .deaf (fun hok => hok hs rfl rfl hc ho) hs hlt rfl
    | cancelledByPeer => exact .cleared trivial le_rfl (Or.inl rfl)
    | endedByPeer => exact .cleared trivial le_rfl (Or.inl rfl)

theorem bounded_next (m : CallManager) (a : Activity) (h : m.Bounded) : (m.next a).Bounded := by
  intro g hg
  cases m.clock_next a with
  | keep _ _ hgen ht =>
    rw [ht] at hg
    rw [hgen]
    exact h g hg
  | start _ _ ht =>
    rw [ht] at hg
    exact (Option.some.inj hg).ge
  | stop _ _ hgen ht =>
    rcases ht with ht | ht
    · rw [ht] at hg
      exact (h g hg).trans hgen.le
    · rw [ht] at hg
      cases hg
  | wake _ _ ht _ =>
    rw [ht] at hg
    cases hg
  | deaf _ _ hgen ht =>
    rw [ht] at hg
    exact (h g hg).trans hgen.le

/-- A generation that has been left behind is not live any more. -/
theorem not_live_of_lt {m m' : CallManager} (h : m.Bounded) (hg : m.timerGeneration < m'.timerGeneration)
    (ht : m'.timer = m.timer ∨ m'.timer = none) : ¬ m'.TimerLive := by
  intro hlive
  unfold TimerLive at hlive
  rcases ht with ht | ht
  · have hle := h m'.timerGeneration (by rw [← ht, hlive]; rfl)
    omega
  · rw [ht] at hlive
    cases hlive

/-- **One activity**: the state and the timer stay in step exactly when no rejection goes unheard. -/
theorem inStep_next (m : CallManager) (a : Activity) (hb : m.Bounded) (h : m.InStep) :
    (m.next a).InStep ↔ m.RejectionHeard a := by
  cases m.clock_next a with
  | keep hok hs hg ht =>
    refine ⟨fun _ => hok, fun _ => ?_⟩
    have hlive : (m.next a).TimerLive ↔ m.TimerLive := by rw [TimerLive, TimerLive, hg, ht]
    exact (hs.trans h).trans hlive.symm
  | start hok hs ht => exact ⟨fun _ => hok, fun _ => ⟨fun _ => ht, fun _ => hs⟩⟩
  | stop hok hs hg ht =>
    have hdead := not_live_of_lt hb hg ht
    exact ⟨fun _ => hok, fun _ => ⟨fun hc => absurd hc hs, fun hl => absurd hl hdead⟩⟩
  | wake hok hs ht hno =>
    have hcall : m.callState ≠ .calling := fun hc => hno ⟨h.mp hc, hc⟩
    have hdead : ¬ (m.next a).TimerLive := by
      intro hl
      unfold TimerLive at hl
      rw [ht] at hl
      cases hl
    exact ⟨fun _ => hok, fun _ => ⟨fun hc => absurd (hs ▸ hc) hcall, fun hl => absurd hl hdead⟩⟩
  | deaf hok hs hg ht =>
    have hdead := not_live_of_lt hb hg (Or.inl ht)
    exact ⟨fun hin => absurd (hin.mp hs) hdead, fun hok' => absurd hok' hok⟩

/-- **Calling exactly while the timer is live**: in the runs in which every rejection is heard, and in no
others. -/
theorem timer_in_step_iff (l : List Activity) :
    (∀ l', l' <+: l → (run next {} l').InStep) ↔ Meets next RejectionHeard {} l := by
  refine always_iff_meets (fun _ _ h _ _ => bounded_next _ _ h) inStep_next ?_ ?_
  · intro g hg
    cases hg
  · decide

/-- **Not in general**: a rejection stops the timer even if nobody hears it, and the call is still being
placed. -/
theorem unheard_rejection_stops_timer : ¬ ∀ l : List Activity, (run next {} l).InStep := by
  intro h
  have hin := h [.op (.setSignalTransport (some 0)), .op (.initiateCall "bob" 7 true),
    .op (.handle "bob" (.callResponse "7-1" false ""))]
  exact absurd hin (by decide)

end CallManager

end PeerCall
