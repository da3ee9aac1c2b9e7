import PeerCall.Call.Threads

/-!
# Call.Closing — one close per call

`EndCall` claims the call by moving it to `ending` under the mutex; `HandleCallEnd` only reads the state.
A call is one period of the manager outside `idle`, and a delivery belongs to the period that the first
section of its operation saw.  `Counts` says that what has been delivered and what is still pending never
add up to more than one, `Claimed` that a call whose end has begun cannot be ended again unnoticed.
-/

namespace PeerCall.Threads

open PeerCall.Lib

/-- How often `k` has been made for the call of period `n`. -/
def made (k : Closing) (n : ℕ) (log : List (ℕ × Event)) : ℕ :=
  log.countP fun x => x.1 = n ∧ k.matches x.2

theorem made_concat (k : Closing) (n p : ℕ) (log : List (ℕ × Event)) (e : Event) :
    made k n (log ++ [(p, e)]) = made k n log + if p = n ∧ k.matches e then 1 else 0 := by
  simp [made]

/-- A `HandleCallEnd` of the call of period `n` on its way to `CleanupCall`, with an observer to tell. -/
def Thread.closing (t : Thread) (n : ℕ) : Bool :=
  t.period = n ∧ t.op ≠ .endCall ∧ closes t.op ∧ t.tearingDown ∧ t.entry.observer ≠ none

/-- The steps that do not end a call twice: neither `EndCall` nor `HandleCallEnd` passes its guard, with
an observer registered, while a `HandleCallEnd` of the same call is on its way to `CleanupCall`, and no
late `SetCallState` takes the manager back out of `ending`. -/
def ClaimedOnce (s : State) : Step → Prop
  | .enter .endCall =>
    s.manager.callState ≠ .idle → s.manager.callState ≠ .ending → s.manager.observer ≠ none →
      ∀ t ∈ s.threads, ¬ t.closing s.period
  | .enter (.handle sender (.callEnd c _)) =>
    s.manager.currentPeer = sender → s.manager.currentCallId = c → c ≠ "" →
      s.manager.callState ≠ .idle → s.manager.callState ≠ .ending → s.manager.observer ≠ none →
        ∀ t ∈ s.threads, ¬ t.closing s.period
  | .advance i =>
    match s.next i with
    | some (.setCallState _) => s.manager.callState ≠ .ending
    | _ => True
  | _ => True

instance (s : State) (i : Step) : Decidable (ClaimedOnce s i) := by
  unfold ClaimedOnce; split <;> try infer_instance
  split <;> infer_instance

/-! ### Counting -/

structure Counts (s : State) : Prop where
  thread_period : ∀ t ∈ s.threads, t.period ≤ s.period
  log_period : ∀ x ∈ s.log, x.1 ≤ s.period
  single : ∀ t ∈ s.threads, ∀ k, pending k t.todo ≤ 1
  apart : ∀ {i j : ℕ} {t t' : Thread}, s.threads[i]? = some t → s.threads[j]? = some t' → i ≠ j → t.period = t'.period →
    ∀ k, 0 < pending k t.todo → pending k t'.todo = 0
  made_le : ∀ k n, made k n s.log ≤ 1
  fresh : ∀ t ∈ s.threads, ∀ k, 0 < pending k t.todo → made k t.period s.log = 0

/-- The threads of `s'` are those of `s`, with no more closings pending. -/
def Shrunk (s s' : State) : Prop :=
  ∀ (j : ℕ) (t' : Thread), s'.threads[j]? = some t' →
    ∃ t : Thread, s.threads[j]? = some t ∧ t'.period = t.period ∧ ∀ k, pending k t'.todo ≤ pending k t.todo

theorem Shrunk.mem {s s' : State} (h : Shrunk s s') {t' : Thread} (ht' : t' ∈ s'.threads) :
    ∃ t ∈ s.threads, t'.period = t.period ∧ ∀ k, pending k t'.todo ≤ pending k t.todo := by
  obtain ⟨j, hj⟩ := List.getElem?_of_mem ht'
  obtain ⟨t, ht, hper, hpend⟩ := h j t' hj
  exact ⟨t, List.mem_of_getElem? ht, hper, hpend⟩

theorem Counts.shrink {s s' : State} (h : Counts s) (hs : Shrunk s s') (hlog : s'.log = s.log)
    (hper : s.period ≤ s'.period) : Counts s' where
  thread_period t ht := by
    obtain ⟨t₀, ht₀, hp, -⟩ := hs.mem ht
    exact hp ▸ (h.thread_period t₀ ht₀).trans hper
  log_period x hx := (h.log_period x (hlog ▸ hx)).trans hper
  single t ht k := by
    obtain ⟨t₀, ht₀, -, hp⟩ := hs.mem ht
    exact (hp k).trans (h.single t₀ ht₀ k)
  apart := by
    intro i j t t' hi hj hij hpp k hk
    obtain ⟨t₀, ht₀, hp₀, hpend₀⟩ := hs i t hi
    obtain ⟨t₁, ht₁, hp₁, hpend₁⟩ := hs j t' hj
    have := h.apart ht₀ ht₁ hij (by omega) k (hk.trans_le (hpend₀ k))
    have := hpend₁ k
    omega
  made_le k n := hlog ▸ h.made_le k n
  fresh t ht k hk := by
    obtain ⟨t₀, ht₀, hp, hpend⟩ := hs.mem ht
    rw [hlog, hp]
    exact h.fresh t₀ ht₀ k (hk.trans_le (hpend k))

theorem leave_period_le (s : State) (m : CallManager) : s.period ≤ (s.leave m).period := by
  simp only [State.leave]
  split_ifs <;> omega

theorem shrunk_refl (s : State) : Shrunk s s := fun _ t ht => ⟨t, ht, rfl, fun _ => le_refl _⟩

theorem Counts.leave {s : State} (h : Counts s) (m : CallManager) : Counts (s.leave m) :=
  h.shrink (shrunk_refl s) rfl (leave_period_le s m)

theorem pending_cons_call (k : Closing) (e : Event) (as : List Action) :
    pending k (.call e :: as) = (if k.matches e then 1 else 0) + pending k as := by
  simp [pending, List.countP_cons, Nat.add_comm]

theorem pending_tail_le (k : Closing) (as : List Action) : pending k as.tail ≤ pending k as :=
  (List.tail_sublist as).countP_le

theorem getElem?_resume {s : State} {i j : ℕ} {t t' : Thread} {as : List Action}
    (h : (s.resume i t as).threads[j]? = some t') :
    i = j ∧ t' = { t with todo := as ++ t.todo.tail } ∨ i ≠ j ∧ s.threads[j]? = some t' := by
  simp only [State.resume, List.getElem?_set] at h
  split_ifs at h with hij
  · exact Or.inl ⟨hij, (Option.some.inj h).symm⟩
  · exact Or.inr ⟨hij, h⟩

theorem shrunk_resume {s : State} {i : ℕ} {t : Thread} {l : List Action} (hi : s.threads[i]? = some t)
    (hl : ∀ k, pending k l = 0) : Shrunk s (s.resume i t l) := by
  intro j t' hj
  rcases getElem?_resume hj with ⟨rfl, rfl⟩ | ⟨-, hj⟩
  · exact ⟨t, hi, rfl, fun k => by simpa [hl k] using pending_tail_le k t.todo⟩
  · exact ⟨t', hj, rfl, fun _ => le_refl _⟩

/-- A call is made: what was pending is delivered. -/
theorem Counts.deliver {s : State} (h : Counts s) {i : ℕ} {t : Thread} {e : Event} {rest : List Action}
    (hi : s.threads[i]? = some t) (ht : t.todo = .call e :: rest) :
    Counts { s.resume i t [] with log := s.log ++ [(t.period, e)] } := by
  have hmem := List.mem_of_getElem? hi
  have hc := h.shrink (shrunk_resume (l := []) hi (fun _ => rfl)) rfl (le_refl _)
  have hpend : ∀ k, pending k t.todo = (if k.matches e then 1 else 0) + pending k rest := by
    intro k
    rw [ht, pending_cons_call]
  refine ⟨hc.thread_period, fun x hx => ?_, hc.single, hc.apart, fun k n => ?_, fun t' ht' k hk => ?_⟩
  · rcases List.mem_append.mp hx with hx | hx
    · exact h.log_period x hx
    · obtain rfl : x = (t.period, e) := by simpa using hx
      exact h.thread_period t hmem
  · rw [made_concat]
    split_ifs with hn
    · obtain ⟨rfl, hk⟩ := hn
      rw [h.fresh t hmem k (by rw [hpend, if_pos hk]; omega)]
    · exact h.made_le k n
  · have hnone : made k t'.period s.log = 0 := hc.fresh t' ht' k hk
    rw [made_concat, hnone]
    -- a thread of the same period with the same closing pending would have been a second one
    rw [if_neg]
    rintro ⟨hper, hke⟩
    obtain ⟨j, hj⟩ := List.getElem?_of_mem ht'
    rcases getElem?_resume hj with ⟨rfl, rfl⟩ | ⟨hij, hj⟩
    · have := h.single t hmem k
      rw [hpend, if_pos hke] at this
      simp only [ht, List.nil_append, List.tail_cons] at hk
      omega
    · have := h.apart hi hj hij hper k (by rw [hpend, if_pos hke]; omega)
      omega

/-- The end of the current call has begun: a closing of it was delivered or is pending. -/
def Begun (k : Closing) (s : State) : Prop :=
  0 < made k s.period s.log ∨ ∃ t ∈ s.threads, t.period = s.period ∧ 0 < pending k t.todo

/-- A first section adds its closings only to a call whose end has not begun. -/
theorem Counts.spawn {s : State} (h : Counts s) (op : Op)
    (hnew : ∀ k, 0 < pending k (op.enter s.manager).2 → ¬ Begun k s) : Counts (s.spawn op) := by
  have hle := leave_period_le s (op.enter s.manager).1
  have hrem := enter_remainder s.manager op
  refine ⟨fun t ht => ?_, fun x hx => (h.log_period x hx).trans hle, fun t ht k => ?_, ?_, h.made_le,
    fun t ht k hk => ?_⟩
  · rcases List.mem_append.mp ht with ht | ht
    · exact (h.thread_period t ht).trans hle
    · obtain rfl : t = ⟨op, s.manager, s.period, (op.enter s.manager).2⟩ := by simpa using ht
      exact hle
  · rcases List.mem_append.mp ht with ht | ht
    · exact h.single t ht k
    · obtain rfl : t = ⟨op, s.manager, s.period, (op.enter s.manager).2⟩ := by simpa using ht
      exact hrem.closing k
  · intro i j t t' hi hj hij hper k hk
    rw [spawn_threads, List.getElem?_append] at hi hj
    split_ifs at hi hj with hli hlj hlj
    · exact h.apart hi hj hij hper k hk
    · -- the new thread is `t'`
      obtain rfl : t' = ⟨op, s.manager, s.period, (op.enter s.manager).2⟩ := by
        simpa using List.mem_of_getElem? hj
      by_contra hk'
      exact hnew k (Nat.pos_of_ne_zero hk') (Or.inr ⟨t, List.mem_of_getElem? hi, hper, hk⟩)
    · obtain rfl : t = ⟨op, s.manager, s.period, (op.enter s.manager).2⟩ := by
        simpa using List.mem_of_getElem? hi
      by_contra hk'
      exact hnew k hk (Or.inr ⟨t', List.mem_of_getElem? hj, hper.symm, Nat.pos_of_ne_zero hk'⟩)
    · obtain ⟨hi', -⟩ := List.getElem?_eq_some_iff.mp hi
      obtain ⟨hj', -⟩ := List.getElem?_eq_some_iff.mp hj
      simp only [List.length_singleton] at hi' hj'
      omega
  · rcases List.mem_append.mp ht with ht | ht
    · exact h.fresh t ht k hk
    · obtain rfl : t = ⟨op, s.manager, s.period, (op.enter s.manager).2⟩ := by simpa using ht
      by_contra hm
      exact hnew k hk (Or.inl (Nat.pos_of_ne_zero hm))

/-! ### Claiming -/

/-- A call whose end has begun is `ending`, or some `HandleCallEnd` is still on its way to `CleanupCall`. -/
def Claimed (s : State) : Prop :=
  s.manager.callState ≠ .idle → s.manager.callState ≠ .ending → ∀ k, Begun k s →
    k ≠ .callEnd ∧ ∃ t ∈ s.threads, t.closing s.period

/-- A section that does not take the manager out of `ending` keeps the claim: a new period has no past. -/
theorem Claimed.leave {s : State} (hc : Counts s) (h : Claimed s) {m : CallManager}
    (hm : s.manager.callState = .ending → m.callState = .idle ∨ m.callState = .ending) :
    Claimed (s.leave m) := by
  intro hi he k hb
  rw [leave_manager] at hi he
  by_cases hidle : s.manager.callState = .idle
  · exfalso
    have hper : (s.leave m).period = s.period + 1 := by simp [State.leave, hidle, hi]
    rcases hb with hb | ⟨t, ht, htp, -⟩
    · obtain ⟨x, hx, hp⟩ := List.countP_pos_iff.mp hb
      have := hc.log_period x hx
      simp only [hper, decide_eq_true_eq] at hp
      omega
    · have := hc.thread_period t ht
      omega
  · have hper : (s.leave m).period = s.period := by simp [State.leave, hidle]
    have hend : s.manager.callState ≠ .ending := fun hs => (hm hs).elim hi he
    simp only [Begun, hper, leave_log, leave_threads] at hb ⊢
    exact h hidle hend k hb

theorem endCall_ending {m : CallManager} (h : Action.cleanupCall ∈ (Op.endCall.enter m).2) :
    (Op.endCall.enter m).1.callState = .ending := by
  simp only [Op.enter, CallManager.endCall] at h ⊢
  split_ifs at h ⊢
  · simp at h
  · rfl

theorem handleCallEnd_guard {m : CallManager} {sender c reason : String}
    (h : Action.cleanupCall ∈ (Op.enter (.handle sender (.callEnd c reason)) m).2) :
    m.currentPeer = sender ∧ m.currentCallId = c ∧ c ≠ "" := by
  simp only [Op.enter, CallManager.handle, CallManager.handleCallEnd] at h
  split_ifs at h with hg
  · simp at h
  · simp only [not_or, not_not] at hg
    exact ⟨hg.1, hg.2.1, hg.2.2.2.2⟩

/-- A first section that has a closing to make finds a call whose end has not begun. -/
theorem not_begun_of_pending {s : State} (h : Claimed s) (op : Op) (hok : ClaimedOnce s (.enter op))
    {k : Closing} (hk : 0 < pending k (op.enter s.manager).2) : ¬ Begun k s := by
  obtain ⟨hcl, hi, he, hmem, -, hobs⟩ := (enter_remainder s.manager op).closer k hk
  intro hb
  obtain ⟨hne, t, ht, hwin⟩ := h hi he k hb
  match op with
  | .endCall => exact hok hi he (hobs hne) t ht hwin
  | .handle sender (.callEnd c reason) =>
    obtain ⟨hp, hid, hc⟩ := handleCallEnd_guard hmem
    exact hok hp hid hc hi he (hobs hne) t ht hwin

theorem claimed_spawn {s : State} (hc : Counts s) (h : Claimed s) (op : Op) : Claimed (s.spawn op) := by
  have hrem := enter_remainder s.manager op
  have hmove : s.manager.callState = .ending →
      (op.enter s.manager).1.callState = .idle ∨ (op.enter s.manager).1.callState = .ending := by
    intro hs
    have hent := enter_entry s.manager op
    generalize (op.enter s.manager).1.callState = st at hent
    generalize (op.enter s.manager).1.currentPeer = peer at hent
    generalize (op.enter s.manager).1.currentCallId = c at hent
    cases hent <;> simp_all
  intro hi he k hb
  rcases hb with hb | ⟨t, ht, htp, hk⟩
  · obtain ⟨hne, t, ht, hwin⟩ := h.leave hc hmove hi he k (Or.inl hb)
    exact ⟨hne, t, List.mem_append_left _ ht, hwin⟩
  · rcases List.mem_append.mp ht with ht | ht
    · obtain ⟨hne, t, ht, hwin⟩ := h.leave hc hmove hi he k (Or.inr ⟨t, ht, htp, hk⟩)
      exact ⟨hne, t, List.mem_append_left _ ht, hwin⟩
    · -- the closing is the new thread's own
      obtain rfl : t = ⟨op, s.manager, s.period, (op.enter s.manager).2⟩ := by simpa using ht
      obtain ⟨hcl, -, -, hmem, hother, -⟩ := hrem.closer k hk
      have hop : op ≠ .endCall := by
        rintro rfl
        exact he (endCall_ending hmem)
      obtain ⟨hne, hobs⟩ := hother hop
      refine ⟨hne, _, List.mem_append_right _ ht, ?_⟩
      simpa [Thread.closing, Thread.tearingDown, hop, hcl, hmem, hobs] using htp

/-- The window of a `HandleCallEnd` stays open while its thread does anything but `CleanupCall`. -/
theorem closing_resume {s : State} {i n : ℕ} {t₀ t : Thread} {a : Action} {rest as : List Action}
    (hi : s.threads[i]? = some t₀) (htodo : t₀.todo = a :: rest) (ha : a ≠ .cleanupCall)
    (ht : t ∈ s.threads) (hwin : t.closing n) : ∃ t' ∈ (s.resume i t₀ as).threads, t'.closing n := by
  obtain ⟨j, hj⟩ := List.getElem?_of_mem ht
  by_cases hij : i = j
  · subst hij
    obtain rfl : t₀ = t := Option.some.inj (hi.symm.trans hj)
    have hlt := (List.getElem?_eq_some_iff.mp hi).1
    refine ⟨{ t₀ with todo := as ++ t₀.todo.tail }, List.mem_of_getElem? (i := i) (by simp [State.resume, hlt]), ?_⟩
    simp only [Thread.closing, Thread.tearingDown, htodo, List.mem_cons, ha.symm, false_or, decide_eq_true_eq,
      List.tail_cons, List.mem_append] at hwin ⊢
    exact ⟨hwin.1, hwin.2.1, hwin.2.2.1, Or.inr hwin.2.2.2.1, hwin.2.2.2.2⟩
  · refine ⟨t, List.mem_of_getElem? (i := j) ?_, hwin⟩
    simpa [State.resume, List.getElem?_set, hij] using hj

theorem claimed_advance {s : State} (hc : Counts s) (h : Claimed s) (i : ℕ)
    (hok : ClaimedOnce s (.advance i)) : Claimed (s.advance i) := by
  rcases advance_cases s i with heq | ⟨t₀, hget, hadv⟩
  · rwa [heq]
  · have hmem₀ := List.mem_of_getElem? hget
    generalize s.advance i = s' at hadv
    cases hadv with
    | made e rest htodo =>
      intro hi he k hb
      -- what is delivered now was pending before
      have hb' : Begun k s := by
        rcases hb with hb | ⟨t, ht, htp, hk⟩
        · rw [made_concat] at hb
          split_ifs at hb with hp
          · refine Or.inr ⟨t₀, hmem₀, hp.1, ?_⟩
            rw [htodo, pending_cons_call, if_pos hp.2]
            omega
          · exact Or.inl hb
        · obtain ⟨t', ht', hper, hpend⟩ := (shrunk_resume (l := []) hget (fun _ => rfl)).mem ht
          exact Or.inr ⟨t', ht', hper ▸ htp, hk.trans_le (hpend k)⟩
      obtain ⟨hne, t, ht, hwin⟩ := h hi he k hb'
      exact ⟨hne, closing_resume hget htodo (by simp) ht hwin⟩
    | «section» a rest es m htodo hes hna hm =>
      rcases hm with ⟨rfl, rfl⟩ | hm
      · exact fun hi => absurd rfl hi
      · -- the window of no `HandleCallEnd` is closed, so the claim survives the return to the list
        have ha : a ≠ .cleanupCall := by
          rcases hm with ⟨st, rfl, -⟩ | ⟨ha, -⟩
          · simp
          · exact ha
        have hes' : ∀ k, pending k (es.map .call) = 0 := fun k => (pending_calls k es).trans (hes k)
        have hcs := hc.shrink (shrunk_resume hget hes') rfl (le_refl _)
        have hcl : Claimed (s.resume i t₀ (es.map .call)) := by
          intro hi he k hb
          have hb' : Begun k s := by
            refine hb.imp id ?_
            rintro ⟨t, ht, htp, hk⟩
            obtain ⟨t', ht', hper, hpend⟩ := (shrunk_resume hget hes').mem ht
            exact ⟨t', ht', hper ▸ htp, hk.trans_le (hpend k)⟩
          obtain ⟨hne, t, ht, hwin⟩ := h hi he k hb'
          exact ⟨hne, closing_resume hget htodo ha ht hwin⟩
        refine hcl.leave hcs fun hend => ?_
        rcases hm with ⟨st, rfl, -⟩ | ⟨-, hs, -⟩
        · have hnext : s.next i = some (.setCallState st) := by simp [State.next, hget, htodo]
          simp only [ClaimedOnce, hnext] at hok
          exact absurd hend hok
        · exact Or.inr (hs.trans hend)

/-! ### One close per call -/

theorem once_step (s : State) (i : Step) (h : Counts s ∧ Claimed s) (hok : ClaimedOnce s i) :
    Counts (step s i) ∧ Claimed (step s i) := by
  obtain ⟨hc, hcl⟩ := h
  cases i with
  | enter op =>
    simp only [step]
    split_ifs
    · exact ⟨hc, hcl⟩
    · exact ⟨hc.spawn op fun k hk => not_begun_of_pending hcl op hok hk, claimed_spawn hc hcl op⟩
  | timerExpiry => exact ⟨hc.shrink (shrunk_refl s) rfl (le_refl _), hcl⟩
  | timerEnter =>
    simp only [step]
    split_ifs
    · have hc' : Counts { s with timerChecked := false } := hc.shrink (shrunk_refl s) rfl (le_refl _)
      exact ⟨hc'.spawn _ fun k hk => not_begun_of_pending
          (s := { s with timerChecked := false }) hcl .onCallRequestTimeout trivial hk,
        claimed_spawn hc' hcl _⟩
    · exact ⟨hc, hcl⟩
  | advance i =>
    refine ⟨?_, claimed_advance hc hcl i hok⟩
    simp only [step]
    rcases advance_cases s i with heq | ⟨t₀, hget, hadv⟩
    · rwa [heq]
    · generalize s.advance i = s' at hadv
      cases hadv with
      | made e rest htodo => exact hc.deliver hget htodo
      | «section» a rest es m htodo hes hna hm =>
        exact (hc.shrink (shrunk_resume hget fun k => (pending_calls k es).trans (hes k)) rfl
          (le_refl _)).leave m

/-- **One close per call.**  In every run whose steps do not end a call twice, each closing callback is
delivered at most once and at most one call-end message is sent for each call. -/
theorem single_close_per_call (l : List Step) (hl : Meets step ClaimedOnce {} l) (k : Closing) (n : ℕ) :
    made k n (run step {} l).log ≤ 1 := by
  have hinit : Counts {} ∧ Claimed {} := by
    refine ⟨⟨by simp, by simp, by simp, by simp, by simp [made], by simp⟩, ?_⟩
    intro hi
    simp at hi
  exact (run_invariant once_step hinit hl).1.made_le k n

/-- The call of the race test, connected. -/
def connectedCall : List Step :=
  [.enter (.setSignalTransport (some 0)), .enter (.registerObserver (some 0)),
    .enter (.initiateCall "bob" 7 true), .advance 2, .advance 2, .advance 2, .advance 2,
    .enter (.handle "bob" (.callResponse "7-1" true "")), .enter .notifyPeerConnectionEstablished]

/-- The two ends one after the other: the second one finds the call claimed. -/
theorem local_end_then_remote_end :
    let l := connectedCall ++ [.enter .endCall, .enter (.handle "bob" (.callEnd "7-1" "remote-hangup")),
      .advance 5, .advance 5, .advance 5]
    made .onCallEnded 1 (run step {} l).log = 1 ∧ ∀ k n, made k n (run step {} l).log ≤ 1 :=
  ⟨by decide, fun k n => single_close_per_call _ (by decide) k n⟩

/-- **Not in general**: the schedule of the race test in which the remote end passes its guard first. -/
theorem concurrent_ends_close_twice :
    ¬ ∀ (l : List Step) (k : Closing) (n : ℕ), made k n (run step {} l).log ≤ 1 := by
  intro h
  have := h (connectedCall ++ [.enter (.handle "bob" (.callEnd "7-1" "remote-hangup")), .enter .endCall,
    .advance 5, .advance 5, .advance 6, .advance 6]) .onNeedClosePeerConnection 1
  exact absurd this (by decide)

end PeerCall.Threads
