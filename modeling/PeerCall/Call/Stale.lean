import PeerCall.Call.Session

/-!
# Call.Stale — call control that is out of date or out of place is a no-op

Two runs of the manager are compared: one with messages inserted that do not belong to the current call or
to the current state, and one without them.  Such a message leaves the manager as it is, so the second run
follows the first one; only an inserted call request is answered, by one `busy`.
-/

namespace PeerCall

open PeerCall.Lib

namespace CallManager

/-- The message is not for the current call, or its kind does not apply in the current state. -/
def Stale (m : CallManager) (sender : String) : CallMessage → Prop
  | .callRequest c => m.callState ≠ .idle ∨ c = ""
  | .callResponse c _ _ => m.callState ≠ .calling ∨ (sender, c) ≠ (m.currentPeer, m.currentCallId)
  | .callCancel c _ => m.callState ≠ .receiving ∨ (sender, c) ≠ (m.currentPeer, m.currentCallId)
  | .callEnd c _ => m.callState = .idle ∨ (sender, c) ≠ (m.currentPeer, m.currentCallId)

instance (m : CallManager) (sender : String) : ∀ msg : CallMessage, Decidable (m.Stale sender msg)
  | .callRequest c => inferInstanceAs (Decidable (m.callState ≠ .idle ∨ c = ""))
  | .callResponse c _ _ =>
    inferInstanceAs (Decidable (m.callState ≠ .calling ∨ (sender, c) ≠ (m.currentPeer, m.currentCallId)))
  | .callCancel c _ =>
    inferInstanceAs (Decidable (m.callState ≠ .receiving ∨ (sender, c) ≠ (m.currentPeer, m.currentCallId)))
  | .callEnd c _ =>
    inferInstanceAs (Decidable (m.callState = .idle ∨ (sender, c) ≠ (m.currentPeer, m.currentCallId)))

/-- What a manager that is busy answers. -/
def busyReply (m : CallManager) (sender : String) : CallMessage → List Event
  | .callRequest c =>
    if c = "" then []
    else
      match m.signalTransport with
      | none => []
      | some t => [.send t sender (.callResponse c false "busy")]
  | _ => []

theorem busyReply_callRequest (m : CallManager) (sender c : String) :
    m.busyReply sender (.callRequest c) =
      if c = "" then []
      else
        match m.signalTransport with
        | none => []
        | some t => [.send t sender (.callResponse c false "busy")] := rfl

/-- The guard of every handler that looks at the call. -/
theorem not_both {m : CallManager} {sender c : String} (h : (sender, c) ≠ (m.currentPeer, m.currentCallId)) :
    m.currentPeer ≠ sender ∨ m.currentCallId ≠ c := by
  by_cases hp : m.currentPeer = sender
  · refine Or.inr fun hc => h ?_
    rw [hp, hc]
  · exact Or.inl hp

/-- **One stale message**: the manager stays as it is, and at most a `busy` is sent. -/
theorem perform_stale {m : CallManager} {sender : String} {msg : CallMessage} (h : m.Stale sender msg) :
    m.perform (.handle sender msg) = (m, m.busyReply sender msg) := by
  cases msg with
  | callRequest c =>
    rw [perform_callRequest, busyReply_callRequest]
    by_cases hc : c = ""
    · rw [if_pos hc, if_pos hc]
    · have hs : m.callState ≠ .idle := h.resolve_right hc
      cases ht : m.signalTransport <;> simp [hc, hs]
  | callResponse c accepted reason =>
    refine (perform_callResponse ..).trans (if_pos ?_)
    rcases h with h | h
    · exact Or.inl h
    · rcases not_both h with h | h
      · exact Or.inr (Or.inl h)
      · exact Or.inr (Or.inr (Or.inl h))
  | callCancel c reason =>
    refine (perform_callCancel ..).trans (if_pos ?_)
    rcases h with h | h
    · exact Or.inl h
    · rcases not_both h with h | h
      · exact Or.inr (Or.inl h)
      · exact Or.inr (Or.inr (Or.inl h))
  | callEnd c reason =>
    refine (perform_callEnd ..).trans (if_pos ?_)
    rcases h with h | h
    · exact Or.inr (Or.inr (Or.inl h))
    · rcases not_both h with h | h
      · exact Or.inl h
      · exact Or.inr (Or.inl h)

end CallManager

/-! ### Runs with insertions -/

/-- An entry of a run: the manager's own activity, or a message that somebody inserted. -/
inductive Entry
  | own (a : Activity)
  | inserted (sender : String) (msg : CallMessage)
  deriving DecidableEq, Repr

namespace Entry

def activity : Entry → Activity
  | .own a => a
  | .inserted sender msg => .op (.handle sender msg)

/-- The run without the insertions. -/
def owned : List Entry → List Activity
  | [] => []
  | .own a :: l => a :: owned l
  | .inserted _ _ :: l => owned l

end Entry

namespace CallManager

/-- The manager after an entry. -/
def enter (m : CallManager) (e : Entry) : CallManager := m.next e.activity

/-- What is inserted is stale when it arrives. -/
def StaleIfInserted (m : CallManager) : Entry → Prop
  | .own _ => True
  | .inserted sender msg => m.Stale sender msg

instance (m : CallManager) (e : Entry) : Decidable (m.StaleIfInserted e) := by
  unfold StaleIfInserted; split <;> infer_instance

/-- All calls of a run, on the observer and on the transport, in order. -/
def calls (m : CallManager) : List Activity → List Event
  | [] => []
  | a :: l => (m.react a).2 ++ (m.next a).calls l

/-- The calls of a run with insertions that its own activities make. -/
def ownCalls (m : CallManager) : List Entry → List Event
  | [] => []
  | .own a :: l => (m.react a).2 ++ (m.next a).ownCalls l
  | .inserted sender msg :: l => (m.enter (.inserted sender msg)).ownCalls l

theorem enter_stale {m : CallManager} {sender : String} {msg : CallMessage} (h : m.Stale sender msg) :
    m.enter (.inserted sender msg) = m := congrArg Prod.fst (perform_stale h)

/-- The runs stay together. -/
theorem run_owned (m : CallManager) (l : List Entry) (h : Meets enter StaleIfInserted m l) :
    run enter m l = run next m (Entry.owned l) ∧ m.ownCalls l = m.calls (Entry.owned l) := by
  induction l generalizing m with
  | nil => exact ⟨rfl, rfl⟩
  | cons e l ih =>
    obtain ⟨hstale, hl⟩ := h
    obtain ⟨hrun, hcalls⟩ := ih _ hl
    cases e with
    | own a =>
      refine ⟨hrun, ?_⟩
      show (m.react a).2 ++ (m.next a).ownCalls l = (m.react a).2 ++ (m.next a).calls (Entry.owned l)
      exact congrArg _ hcalls
    | inserted sender msg =>
      have hsame : m.enter (.inserted sender msg) = m := enter_stale hstale
      rw [hsame] at hrun hcalls
      refine ⟨?_, ?_⟩
      · rw [run_cons, hsame]
        exact hrun
      · show (m.enter (.inserted sender msg)).ownCalls l = m.calls (Entry.owned l)
        rw [hsame]
        exact hcalls

/-- **Stale call control is a no-op**: with or without the insertions, a run ends in the same manager (its
timer included) and its own activities make the same calls in the same order; and an insertion makes no call
but the `busy` to the sender of a call request that has an id. -/
theorem stale_noop (m : CallManager) (l : List Entry) (h : Meets enter StaleIfInserted m l) :
    run enter m l = run next m (Entry.owned l) ∧ m.ownCalls l = m.calls (Entry.owned l) ∧
      ∀ l₁ l₂ sender msg, l = l₁ ++ .inserted sender msg :: l₂ →
        ((run enter m l₁).react (.op (.handle sender msg))).2 = (run enter m l₁).busyReply sender msg := by
  obtain ⟨hrun, hcalls⟩ := run_owned m l h
  refine ⟨hrun, hcalls, ?_⟩
  rintro l₁ l₂ sender msg rfl
  have hstale : (run enter m l₁).Stale sender msg := (meets_append.mp h).2.1
  exact congrArg Prod.snd (perform_stale hstale)

/-- A second caller, a late answer and a cancel without a call, around a call that is placed and ends. -/
theorem stale_around_call :
    let l : List Entry := [.own (.op (.setSignalTransport (some 0))), .inserted "carol" (.callCancel "3-1" "cancelled"),
      .own (.op (.initiateCall "bob" 7 true)), .inserted "carol" (.callRequest "5-1"),
      .inserted "bob" (.callResponse "6-0" true ""), .own (.op .cancelCall)]
    run enter {} l = run next {} (Entry.owned l) ∧ ownCalls {} l = calls {} (Entry.owned l) := by
  have h := stale_noop {} [.own (.op (.setSignalTransport (some 0))),
    .inserted "carol" (.callCancel "3-1" "cancelled"), .own (.op (.initiateCall "bob" 7 true)),
    .inserted "carol" (.callRequest "5-1"), .inserted "bob" (.callResponse "6-0" true ""), .own (.op .cancelCall)]
    (by decide)
  exact ⟨h.1, h.2.1⟩

end CallManager

end PeerCall
