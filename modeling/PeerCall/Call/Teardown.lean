import PeerCall.Call.Threads

/-!
# Call.Teardown — a teardown clears only its own call

Seven operations end a call by `CleanupCall`: they check under the mutex, make their calls without it and
then reset the manager under it again, without looking.  `Owned` is what the reset relies on; it is kept
by every step that leaves the windows between the two sections alone.
-/

namespace PeerCall.Threads

open PeerCall.Lib

/-- The call that the teardown `t` is about is still the current one; or no call is, and none has been
stored. -/
def OwnCall (m : CallManager) (t : Thread) : Prop :=
  m.callState = .idle ∧ m.currentPeer = "" ∧ m.currentCallId = "" ∨
    m.currentCallId = t.entry.currentCallId ∧ (abandons t.op → m.callState = .calling)

instance (m : CallManager) (t : Thread) : Decidable (OwnCall m t) := by
  unfold OwnCall; infer_instance

/-- The steps that leave the windows of the teardowns alone: while a teardown is on its way to
`CleanupCall`, no section stores the peer and the id of a new call or takes the manager out of `idle`; and
none takes it from `calling` to a later state while a timeout or a rejection is. -/
def Undisturbed (s : State) : Step → Prop
  | .enter (.initiateCall _ _ connected) =>
    s.manager.signalTransport ≠ none → connected → s.manager.callState = .idle →
      ∀ t ∈ s.threads, ¬ t.tearingDown
  | .enter (.handle _ (.callRequest c)) =>
    s.manager.callState = .idle → c ≠ "" → ∀ t ∈ s.threads, ¬ t.tearingDown
  | .enter (.handle sender (.callResponse c true _)) =>
    s.manager.callState = .calling → s.manager.currentPeer = sender → s.manager.currentCallId = c → c ≠ "" →
      ∀ t ∈ s.threads, abandons t.op → ¬ t.tearingDown
  | .enter .endCall =>
    s.manager.callState = .calling → ∀ t ∈ s.threads, abandons t.op → ¬ t.tearingDown
  | .advance i =>
    match s.next i with
    | some (.setCallState st) =>
      (s.manager.callState = .idle → ∀ t ∈ s.threads, ¬ t.tearingDown) ∧
      (s.manager.callState = .calling → st ≠ .calling → ∀ t ∈ s.threads, abandons t.op → ¬ t.tearingDown)
    | _ => True
  | _ => True

instance (s : State) : ∀ i : Step, Decidable (Undisturbed s i)
  | .enter op => by
    cases op with
    | handle sender msg =>
      cases msg with
      | callResponse c accepted reason => cases accepted <;> (unfold Undisturbed; infer_instance)
      | _ => unfold Undisturbed; infer_instance
    | _ => unfold Undisturbed; infer_instance
  | .advance i => by
    unfold Undisturbed
    dsimp only
    generalize s.next i = action
    rcases action with _ | action
    · infer_instance
    · cases action <;> infer_instance
  | .timerExpiry | .timerEnter => inferInstanceAs (Decidable True)

/-- Every teardown under way is still about its own call. -/
def Owned (s : State) : Prop := ∀ t ∈ s.threads, t.tearingDown → OwnCall s.manager t

theorem OwnCall.of_same {m m' : CallManager} {t : Thread} (h : OwnCall m t)
    (hs : m'.callState = m.callState) (hp : m'.currentPeer = m.currentPeer)
    (hc : m'.currentCallId = m.currentCallId) : OwnCall m' t := by
  unfold OwnCall at h ⊢
  rwa [hs, hp, hc]

/-- A change to another state of the same call, from `calling` only if no abandoning teardown looks on. -/
theorem OwnCall.of_move {m m' : CallManager} {t : Thread} (h : OwnCall m t) (hi : m.callState ≠ .idle)
    (hc : m'.currentCallId = m.currentCallId)
    (hs : m.callState = .calling → abandons t.op → m'.callState = .calling) : OwnCall m' t := by
  rcases h with ⟨h, -, -⟩ | ⟨hid, hcall⟩
  · exact absurd h hi
  · exact Or.inr ⟨hc.trans hid, fun ha => hs (hcall ha) ha⟩

theorem owned_spawn {s : State} (h : Owned s) (op : Op) (hok : Undisturbed s (.enter op)) :
    Owned (s.spawn op) := by
  intro t ht htear
  rw [spawn_manager]
  have hent := enter_entry s.manager op
  rcases List.mem_append.mp ht with hold | hnew
  · have hown := h t hold htear
    generalize hst : (op.enter s.manager).1.callState = st at hent
    generalize hp : (op.enter s.manager).1.currentPeer = peer at hent
    generalize hid : (op.enter s.manager).1.currentCallId = c at hent
    cases hent with
    | same => exact hown.of_same hst hp hid
    | fresh target tick htr hs => exact absurd htear (hok htr rfl hs t hold)
    | ring sender c hc hs => exact absurd htear (hok hs hc t hold)
    | claim hi he =>
      exact hown.of_move hi hid (fun hcall ha => absurd htear (hok hcall t hold ha))
    | establish hs =>
      exact hown.of_move (by simp [hs]) hid (fun hcall => by simp [hs] at hcall)
    | accepted reason hs hc =>
      exact hown.of_move (by simp [hs]) hid (fun hcall ha => absurd htear (hok hcall rfl rfl hc t hold ha))
  · obtain rfl : t = ⟨op, s.manager, s.period, (op.enter s.manager).2⟩ := by simpa using hnew
    have hrem := enter_remainder s.manager op
    have hmem : Action.cleanupCall ∈ (op.enter s.manager).2 := by simpa [Thread.tearingDown] using htear
    have hact := hrem.active hmem
    generalize hst : (op.enter s.manager).1.callState = st at hent
    generalize (op.enter s.manager).1.currentPeer = peer at hent
    generalize hid : (op.enter s.manager).1.currentCallId = c at hent
    cases hent with
    | same => exact Or.inr ⟨hid, fun ha => hst.trans (hrem.calling hmem ha)⟩
    | fresh target tick htr hs => exact absurd hs hact
    | ring sender c hc hs => exact absurd hs hact
    | claim hi he => exact Or.inr ⟨hid, by simp [abandons]⟩
    | establish hs => exact Or.inr ⟨hid, by simp [abandons]⟩
    | accepted reason hs hc => exact Or.inr ⟨hid, by simp [abandons]⟩

theorem owned_advance {s : State} (h : Owned s) (i : ℕ) (hok : Undisturbed s (.advance i)) :
    Owned (s.advance i) := by
  rcases advance_cases s i with heq | ⟨t₀, hi, hadv⟩
  · rwa [heq]
  · -- a thread that is tearing down afterwards was tearing down before
    have hmem : ∀ {t : Thread} {as : List Action}, Action.cleanupCall ∉ as →
        t ∈ (s.resume i t₀ as).threads → t.tearingDown →
        ∃ t' ∈ s.threads, t'.tearingDown ∧ t'.op = t.op ∧ t'.entry = t.entry := by
      intro t as has ht htear
      rcases mem_resume ht with ht | rfl
      · exact ⟨t, ht, htear, rfl, rfl⟩
      · refine ⟨t₀, List.mem_of_getElem? hi, ?_, rfl, rfl⟩
        have : Action.cleanupCall ∈ as ++ t₀.todo.tail := by simpa [Thread.tearingDown] using htear
        rcases List.mem_append.mp this with hm | hm
        · exact absurd hm has
        · simpa [Thread.tearingDown] using List.mem_of_mem_tail hm
    generalize s.advance i = s' at hadv
    cases hadv with
    | made e rest htodo =>
      intro t ht htear
      obtain ⟨t', ht', htear', hop, hentry⟩ := hmem (by simp) ht htear
      simpa [OwnCall, hop, hentry] using h t' ht' htear'
    | «section» a rest es m htodo hes hna hm =>
      intro t ht htear
      obtain ⟨t', ht', htear', hop, hentry⟩ := hmem (by simp) ht htear
      have hown : OwnCall s.manager t := by
        simpa [OwnCall, hop, hentry] using h t' ht' htear'
      rw [leave_manager]
      rcases hm with ⟨-, rfl⟩ | ⟨st, rfl, rfl⟩ | ⟨-, hs, hp, hc⟩
      · exact Or.inl ⟨rfl, rfl, rfl⟩
      · have hnext : s.next i = some (.setCallState st) := by simp [State.next, hi, htodo]
        simp only [Undisturbed, hnext] at hok
        by_cases hidle : s.manager.callState = .idle
        · exact absurd htear' (hok.1 hidle t' ht')
        · refine hown.of_move hidle rfl (fun hcall ha => ?_)
          by_contra hne
          exact hok.2 hcall hne t' ht' (by rwa [hop]) htear'
      · exact hown.of_same hs hp hc

theorem owned_step (s : State) (i : Step) (h : Owned s) (hok : Undisturbed s i) : Owned (step s i) := by
  cases i with
  | enter op =>
    simp only [step]
    split_ifs
    · exact h
    · exact owned_spawn h op hok
  | timerExpiry => exact fun t ht htear => (h t ht htear).of_same rfl rfl rfl
  | timerEnter =>
    simp only [step]
    split_ifs
    · exact owned_spawn (s := { s with timerChecked := false }) h _ trivial
    · exact h
  | advance i => exact owned_advance h i hok

/-- **A teardown clears only its own call.**  In every run that leaves the windows of the teardowns alone,
a thread that is about to run `CleanupCall` finds the call its first section saw, still `calling` if it is
a timeout or a rejection, or finds the manager idle already, with nothing stored. -/
theorem cleanup_clears_own_call (l : List Step) (hl : Meets step Undisturbed {} l) (i : ℕ) (t : Thread)
    (ht : (run step {} l).threads[i]? = some t) (hnext : (run step {} l).next i = some .cleanupCall) :
    OwnCall (run step {} l).manager t := by
  have howned : Owned (run step {} l) := run_invariant owned_step (by simp [Owned]) hl
  refine howned t (List.mem_of_getElem? ht) ?_
  have : t.todo.head? = some .cleanupCall := by simpa [State.next, ht] using hnext
  simpa [Thread.tearingDown] using List.mem_of_mem_head? this

/-- The request timer fires on a call that is still unanswered. -/
def unanswered : List Step :=
  [.enter (.setSignalTransport (some 0)), .enter (.registerObserver (some 0)),
    .enter (.initiateCall "bob" 7 true), .advance 2, .advance 2, .advance 2, .advance 2, .timerExpiry,
    .timerEnter]

theorem timeout_clears_unanswered :
    (run step {} (unanswered ++ [.advance 3])).manager.callState = .calling ∧
      ∀ t, (run step {} (unanswered ++ [.advance 3])).threads[3]? = some t →
        OwnCall (run step {} (unanswered ++ [.advance 3])).manager t :=
  ⟨by decide, fun t ht => cleanup_clears_own_call _ (by decide) 3 t ht (by decide)⟩

/-- **Not in general**: the acceptance arrives between the timeout's guard and its `CleanupCall`. -/
theorem timeout_clears_accepted :
    ¬ ∀ (l : List Step) (i : ℕ) (t : Thread), (run step {} l).threads[i]? = some t →
        (run step {} l).next i = some .cleanupCall → OwnCall (run step {} l).manager t := by
  intro h
  have hbad : ¬ ∀ t ∈ (run step {} (unanswered ++ [.enter (.handle "bob" (.callResponse "7-1" true "")),
      .advance 3])).threads[3]?, OwnCall (run step {} (unanswered ++
        [.enter (.handle "bob" (.callResponse "7-1" true "")), .advance 3])).manager t := by decide
  exact hbad fun t ht => h _ 3 t ht (by decide)

/-- The other gap: the call was cancelled in the meantime, and a new one is stored while still `idle`. -/
example :
    let s := run step {} (unanswered ++ [.advance 3, .enter .cancelCall, .advance 4, .advance 4, .advance 4,
      .enter (.initiateCall "carol" 8 true)])
    s.next 3 = some .cleanupCall ∧ s.manager.callState = .idle ∧ s.manager.currentPeer = "carol" ∧
      ¬ ∀ t ∈ s.threads[3]?, OwnCall s.manager t := by
  decide

end PeerCall.Threads
