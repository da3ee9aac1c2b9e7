import PeerCall.Engine.Connection

/-!
# Engine.Candidates — what becomes of an ICE candidate

Every candidate given for a peer connection is offered to it until it is accepted, and waits in
`pending_ice_candidates_` in between.  The peer connection may refuse any offer, and may get its remote
description at any time.
-/

namespace PeerCall.WebRTC

open PeerCall.Lib

/-- How often a candidate has been accepted. -/
def accepted (k : Candidate) (offers : List Offer) : ℕ := offers.countP fun o => o.candidate = k && o.accepted

namespace WebRTCEngine

/-- `CreatePeerConnection` asserts that there is no peer connection yet; its only caller asks
`HasPeerConnection` first. -/
def Asserts (x : WebRTCEngine) : Step → Prop
  | .createPeerConnection _ => x.peerConnection = none
  | _ => True

instance (x : WebRTCEngine) : ∀ i : Step, Decidable (x.Asserts i)
  | .createPeerConnection _ => inferInstanceAs (Decidable (x.peerConnection = none))
  | .closePeerConnection | .shutdown | .createDescription _ | .setRemoteDescription _ _ | .collectStats
  | .addIceCandidate _ _ | .processPendingIceCandidates _ | .describe | .deliver _ _ _ _ =>
    inferInstanceAs (Decidable True)

/-- What holds of the candidates at any time. -/
structure Accounted (x : WebRTCEngine) : Prop where
  once : ∀ pc, x.peerConnection = some pc → ∀ k ∈ x.given, k.connection = pc.number →
    accepted k x.offers = 1 ∧ k ∉ x.pendingIceCandidates ∨
      accepted k x.offers = 0 ∧ x.pendingIceCandidates.count k = 1
  order : x.pendingIceCandidates.Pairwise fun j k => j.index < k.index
  described : ∀ o ∈ x.offers, o.described
  own : ∀ o ∈ x.offers, o.candidate.connection = o.receiver
  idle : x.peerConnection = none → x.pendingIceCandidates = []

/-- What the above rests on: who is pending has been given for the live peer connection, which is the last
one made. -/
structure Tidy (x : WebRTCEngine) : Prop where
  accounted : Accounted x
  pending : ∀ pc, x.peerConnection = some pc → ∀ k ∈ x.pendingIceCandidates, k ∈ x.given ∧ k.connection = pc.number
  given : ∀ k ∈ x.given, k.index < x.given.length ∧ k.connection < x.connections
  offers : ∀ o ∈ x.offers, o.candidate ∈ x.given
  live : ∀ pc, x.peerConnection = some pc → pc.number < x.connections

/-! ### The loop of `ProcessPendingIceCandidates` -/

@[simp] theorem accepted_append (k : Candidate) (os os' : List Offer) :
    accepted k (os ++ os') = accepted k os + accepted k os' := List.countP_append

/-- What remains keeps its order. -/
theorem drain_sublist (pc : PeerConnection) (ks : List Candidate) (answers : List Bool) :
    (drain pc ks answers).2.Sublist ks := by
  induction ks generalizing answers with
  | nil => exact List.Sublist.refl _
  | cons k ks ih =>
    simp only [drain]
    split_ifs
    · exact (ih answers.tail).cons k
    · exact (ih answers.tail).cons_cons k

/-- Every offer is about a pending candidate, to the peer connection as it is. -/
theorem mem_drain {pc : PeerConnection} {ks : List Candidate} {answers : List Bool} {o : Offer}
    (h : o ∈ (drain pc ks answers).1) :
    o.candidate ∈ ks ∧ o.receiver = pc.number ∧ o.described = pc.remoteDescription := by
  induction ks generalizing answers with
  | nil => simp [drain] at h
  | cons k ks ih =>
    simp only [drain, List.mem_cons] at h
    rcases h with rfl | h
    · exact ⟨List.mem_cons_self, rfl, rfl⟩
    · obtain ⟨hmem, hrest⟩ := ih h
      exact ⟨List.mem_cons_of_mem _ hmem, hrest⟩

/-- No candidate is lost or duplicated by the loop. -/
theorem drain_count (pc : PeerConnection) (ks : List Candidate) (answers : List Bool) (k : Candidate) :
    accepted k (drain pc ks answers).1 + (drain pc ks answers).2.count k = ks.count k := by
  induction ks generalizing answers with
  | nil => rfl
  | cons j ks ih =>
    have h := ih answers.tail
    simp only [drain, accepted, List.countP_cons, List.count_cons] at h ⊢
    by_cases hjk : j = k
    · cases answers.headD false <;> simp [hjk] <;> omega
    · cases answers.headD false <;> simp [hjk] <;> omega

/-! ### One step -/

section Step

variable {x : WebRTCEngine}

/-- A step that leaves the peer connection and the candidates alone. -/
theorem Tidy.congr {y : WebRTCEngine} (h : Tidy x) (hpc : y.peerConnection = x.peerConnection)
    (hconns : y.connections = x.connections) (hpending : y.pendingIceCandidates = x.pendingIceCandidates)
    (hgiven : y.given = x.given) (hoffers : y.offers = x.offers) : Tidy y := by
  obtain ⟨⟨honce, horder, hdesc, hown, hidle⟩, hpend, hg, ho, hlive⟩ := h
  refine ⟨⟨?_, ?_, ?_, ?_, ?_⟩, ?_, ?_, ?_, ?_⟩ <;> simp only [hpc, hconns, hpending, hgiven, hoffers] <;> assumption

/-- Without a peer connection, and with one that is made now, nothing is pending. -/
theorem tidy_of_none {y : WebRTCEngine} (h : Tidy x) (hpending : y.pendingIceCandidates = [])
    (hpc : ∀ pc, y.peerConnection = some pc → pc.number = x.connections) (hconns : x.connections ≤ y.connections)
    (hmade : y.peerConnection ≠ none → x.connections < y.connections)
    (hgiven : y.given = x.given) (hoffers : y.offers = x.offers) : Tidy y := by
  refine ⟨⟨fun pc hy k hk hkc => ?_, ?_, ?_, ?_, fun _ => hpending⟩, ?_, fun k hk => ?_, ?_, fun pc hy => ?_⟩
  · -- no candidate has been given for a peer connection before it was made
    rw [hgiven] at hk
    rw [hpc pc hy] at hkc
    exact absurd hkc (h.given k hk).2.ne
  · rw [hpending]
    exact List.Pairwise.nil
  · rw [hoffers]
    exact h.accounted.described
  · rw [hoffers]
    exact h.accounted.own
  · rw [hpending]
    exact fun _ _ _ hk => absurd hk List.not_mem_nil
  · rw [hgiven] at hk ⊢
    exact ⟨(h.given k hk).1, (h.given k hk).2.trans_le hconns⟩
  · rw [hoffers, hgiven]
    exact h.offers
  · rw [hpc pc hy]
    exact hmade (by rw [hy]; simp)

theorem tidy_create (h : Tidy x) (hnone : x.peerConnection = none) (ok : Bool) : Tidy (x.createPeerConnection ok) := by
  have hpending := h.accounted.idle hnone
  unfold createPeerConnection
  cases ok with
  | false =>
    refine tidy_of_none h hpending (fun pc hpc => ?_) (Nat.le_succ _) (fun _ => Nat.lt_succ_self _) rfl rfl
    exact absurd (hnone.symm.trans hpc) (by simp)
  | true =>
    refine tidy_of_none h hpending (fun pc hpc => ?_) (Nat.le_succ _) (fun _ => Nat.lt_succ_self _) rfl rfl
    rw [← Option.some.inj hpc]
    rfl

theorem tidy_close (h : Tidy x) : Tidy x.closePeerConnection :=
  tidy_of_none h rfl (fun _ hpc => absurd hpc (by simp [closePeerConnection])) le_rfl (fun hne => absurd rfl hne) rfl
    rfl

theorem tidy_arm (h : Tidy x) (kind : Kind) (connection : ℕ) : Tidy (x.arm kind connection) :=
  h.congr rfl rfl rfl rfl rfl

theorem tidy_createDescription (h : Tidy x) (isOffer : Bool) : Tidy (x.createDescription isOffer) := by
  unfold createDescription
  cases x.peerConnection with
  | none => exact h
  | some pc => exact tidy_arm h _ _

theorem process_of_not (h : ∀ pc, x.peerConnection = some pc → pc.remoteDescription = false) (answers : List Bool) :
    x.processPendingIceCandidates answers = x := by
  unfold processPendingIceCandidates
  cases hpc : x.peerConnection with
  | none => rfl
  | some pc => simp [h pc hpc]

theorem process_of {pc : PeerConnection} (hpc : x.peerConnection = some pc) (hdesc : pc.remoteDescription = true)
    (answers : List Bool) :
    x.processPendingIceCandidates answers =
      { x with
        offers := x.offers ++ (drain pc x.pendingIceCandidates answers).1
        pendingIceCandidates := (drain pc x.pendingIceCandidates answers).2 } := by
  simp [processPendingIceCandidates, hpc, hdesc]

/-- The pending candidates are offered, and each of them is accepted or stays where it is. -/
theorem tidy_process (h : Tidy x) (answers : List Bool) : Tidy (x.processPendingIceCandidates answers) := by
  by_cases hready : ∃ pc, x.peerConnection = some pc ∧ pc.remoteDescription = true
  · obtain ⟨pc, hpc, hdesc⟩ := hready
    have hsub := drain_sublist pc x.pendingIceCandidates answers
    rw [process_of hpc hdesc]
    refine ⟨⟨fun pc' hpc' k hk hkc => ?_, h.accounted.order.sublist hsub, fun o ho => ?_, fun o ho => ?_,
      fun hnone => ?_⟩, fun pc' hpc' k hk => h.pending pc' hpc' k (hsub.subset hk), h.given, fun o ho => ?_, h.live⟩
    · have hcount := drain_count pc x.pendingIceCandidates answers k
      simp only [accepted_append]
      rcases h.accounted.once pc' hpc' k hk hkc with ⟨hacc, hnot⟩ | ⟨hacc, hone⟩
      · rw [List.count_eq_zero_of_not_mem hnot] at hcount
        exact .inl ⟨by omega, List.count_eq_zero.mp (by omega)⟩
      · rw [hone] at hcount
        by_cases hin : (drain pc x.pendingIceCandidates answers).2.count k = 0
        · exact .inl ⟨by omega, List.count_eq_zero.mp hin⟩
        · exact .inr ⟨by omega, by omega⟩
    · rcases List.mem_append.mp ho with ho | ho
      · exact h.accounted.described o ho
      · rw [(mem_drain ho).2.2, hdesc]
    · rcases List.mem_append.mp ho with ho | ho
      · exact h.accounted.own o ho
      · obtain ⟨hmem, hrec, -⟩ := mem_drain ho
        rw [hrec, (h.pending pc hpc _ hmem).2]
    · exact absurd (hpc.symm.trans hnone) (by simp)
    · rcases List.mem_append.mp ho with ho | ho
      · exact h.offers o ho
      · exact (h.pending pc hpc _ (mem_drain ho).1).1
  · rw [process_of_not (fun pc hpc => by simpa using fun hdesc => hready ⟨pc, hpc, hdesc⟩)]
    exact h

/-- A new candidate has neither been offered nor is it pending. -/
theorem newCandidate_fresh (h : Tidy x) (pc : PeerConnection) (hpc : x.peerConnection = some pc) :
    x.newCandidate pc ∉ x.given ∧ accepted (x.newCandidate pc) x.offers = 0 ∧
      x.newCandidate pc ∉ x.pendingIceCandidates := by
  have hnew : x.newCandidate pc ∉ x.given := fun hmem => absurd (h.given _ hmem).1 (lt_irrefl _)
  refine ⟨hnew, List.countP_eq_zero.mpr fun o ho hacc => ?_, fun hmem => hnew (h.pending pc hpc _ hmem).1⟩
  simp only [Bool.and_eq_true, decide_eq_true_eq] at hacc
  exact hnew (hacc.1 ▸ h.offers o ho)

/-- A candidate is given, and is accepted at once or put behind the pending ones. -/
theorem tidy_given (h : Tidy x) {pc : PeerConnection} (hpc : x.peerConnection = some pc) {os : List Offer}
    {ks : List Candidate} (hos : ∀ o ∈ os, o.candidate = x.newCandidate pc ∧ o.receiver = pc.number ∧ o.described)
    (hks : accepted (x.newCandidate pc) os = 1 ∧ ks = [] ∨
      accepted (x.newCandidate pc) os = 0 ∧ ks = [x.newCandidate pc]) :
    Tidy { x with
      given := x.given ++ [x.newCandidate pc]
      offers := x.offers ++ os
      pendingIceCandidates := x.pendingIceCandidates ++ ks } := by
  obtain ⟨hnew, hzero, hnot⟩ := newCandidate_fresh h pc hpc
  have hkmem : ∀ k ∈ ks, k = x.newCandidate pc := by
    rcases hks with ⟨-, rfl⟩ | ⟨-, rfl⟩
    · simp
    · simp
  refine ⟨⟨fun pc' hpc' k hk hkc => ?_, ?_, fun o ho => ?_, fun o ho => ?_, fun hnone => ?_⟩,
    fun pc' hpc' k hk => ?_, fun k hk => ?_, fun o ho => ?_, h.live⟩
  · simp only [accepted_append, List.count_append]
    rcases List.mem_append.mp hk with hk | hk
    · -- the candidates given before
      have hne : k ≠ x.newCandidate pc := fun he => hnew (he ▸ hk)
      have hacc : accepted k os = 0 := List.countP_eq_zero.mpr fun o ho hacc => by
        simp only [Bool.and_eq_true, decide_eq_true_eq] at hacc
        exact hne (hacc.1.symm.trans (hos o ho).1)
      have hcount : ks.count k = 0 := List.count_eq_zero.mpr fun hmem => hne (hkmem k hmem)
      rw [hacc, hcount]
      refine (h.accounted.once pc' hpc' k hk hkc).imp (fun hin => ⟨hin.1, ?_⟩) id
      rw [List.mem_append]
      exact fun hmem => hmem.elim hin.2 fun hmem => hne (hkmem k hmem)
    · rw [List.mem_singleton.mp hk, hzero, List.count_eq_zero_of_not_mem hnot]
      rcases hks with ⟨hacc, rfl⟩ | ⟨hacc, rfl⟩
      · exact .inl ⟨by omega, by simpa using hnot⟩
      · exact .inr ⟨by omega, by simp⟩
  · refine List.pairwise_append.mpr ⟨h.accounted.order, ?_, fun j hj k hk => ?_⟩
    · rcases hks with ⟨-, rfl⟩ | ⟨-, rfl⟩
      · exact List.Pairwise.nil
      · exact List.pairwise_singleton _ _
    · rw [hkmem k hk]
      exact (h.given j (h.pending pc hpc j hj).1).1
  · exact (List.mem_append.mp ho).elim (h.accounted.described o) fun ho => (hos o ho).2.2
  · refine (List.mem_append.mp ho).elim (h.accounted.own o) fun ho => ?_
    obtain ⟨hcand, hrec, -⟩ := hos o ho
    rw [hcand, hrec]
    rfl
  · exact absurd (hpc.symm.trans hnone) (by simp)
  · rcases List.mem_append.mp hk with hk | hk
    · obtain ⟨hmem, hconn⟩ := h.pending pc' hpc' k hk
      exact ⟨List.mem_append_left _ hmem, hconn⟩
    · obtain rfl : pc = pc' := Option.some.inj (hpc.symm.trans hpc')
      rw [hkmem k hk]
      exact ⟨List.mem_append_right _ (List.mem_singleton_self _), rfl⟩
  · rw [List.length_append, List.length_singleton]
    rcases List.mem_append.mp hk with hk | hk
    · exact ⟨(h.given k hk).1.trans (Nat.lt_succ_self _), (h.given k hk).2⟩
    · rw [List.mem_singleton.mp hk]
      exact ⟨Nat.lt_succ_self _, h.live pc hpc⟩
  · rcases List.mem_append.mp ho with ho | ho
    · exact List.mem_append_left _ (h.offers o ho)
    · rw [(hos o ho).1]
      exact List.mem_append_right _ (List.mem_singleton_self _)

theorem tidy_addIceCandidate (h : Tidy x) (parses accepts : Bool) : Tidy (x.addIceCandidate parses accepts) := by
  cases hpc : x.peerConnection with
  | none =>
    simp only [addIceCandidate, hpc]
    exact h
  | some pc =>
    cases parses with
    | false =>
      simp only [addIceCandidate, hpc]
      exact h
    | true =>
      set k := x.newCandidate pc with hk
      cases hdesc : pc.remoteDescription with
      | false =>
        have hqueued := @tidy_given x h pc hpc [] [k] (by simp) (.inr ⟨rfl, rfl⟩)
        simpa [addIceCandidate, hpc, hdesc, ← hk] using hqueued
      | true =>
        set o : Offer := { candidate := k, receiver := pc.number, described := true, accepted := accepts } with ho
        have hos : ∀ o' ∈ [o], o'.candidate = k ∧ o'.receiver = pc.number ∧ o'.described := by simp [ho]
        cases accepts with
        | false =>
          have hrefused := tidy_given h hpc hos (.inr ⟨by simp [accepted, ho], rfl⟩)
          simpa [addIceCandidate, hpc, hdesc, ← hk, ← ho] using hrefused
        | true =>
          have haccepted := tidy_given h hpc hos (.inl ⟨by simp [accepted, ho, hk], rfl⟩)
          simpa [addIceCandidate, hpc, hdesc, ← hk, ← ho] using haccepted

theorem tidy_handle (h : Tidy x) (kind : Kind) (ok addsTracks : Bool) (answers : List Bool) :
    Tidy (x.handle kind ok addsTracks answers) := by
  cases kind with
  | observer => exact h
  | stats => exact h
  | createDescription isOffer =>
    simp only [handle]
    split_ifs
    · unfold onSessionDescriptionSuccess
      cases hpc : x.peerConnection with
      | none => exact h.congr hpc.symm rfl rfl rfl rfl
      | some pc => exact tidy_arm h _ _
    · exact h
  | setRemoteDescription isOffer =>
    have hp := tidy_process h answers
    simp only [handle]
    split_ifs
    · exact tidy_createDescription hp false
    · exact hp
    · exact h
  | setLocalDescription isOffer =>
    simp only [handle]
    split_ifs
    · exact tidy_process h answers
    · exact h

/-- A remote description does not change what has been accepted or is pending. -/
theorem tidy_describe (h : Tidy x) : Tidy x.describe := by
  have hpc : ∀ pc, x.describe.peerConnection = some pc →
      ∃ pc', x.peerConnection = some pc' ∧ pc'.number = pc.number := by
    intro pc hpc
    obtain ⟨pc', hpc', rfl⟩ := Option.map_eq_some_iff.mp hpc
    exact ⟨pc', hpc', rfl⟩
  refine ⟨⟨fun pc hx k hk hkc => ?_, h.accounted.order, h.accounted.described, h.accounted.own, fun hnone => ?_⟩,
    fun pc hx k hk => ?_, h.given, h.offers, fun pc hx => ?_⟩
  · obtain ⟨pc', hpc', hnum⟩ := hpc pc hx
    exact h.accounted.once pc' hpc' k hk (hkc.trans hnum.symm)
  · exact h.accounted.idle (Option.map_eq_none_iff.mp hnone)
  · obtain ⟨pc', hpc', hnum⟩ := hpc pc hx
    obtain ⟨hmem, hconn⟩ := h.pending pc' hpc' k hk
    exact ⟨hmem, hconn.trans hnum⟩
  · obtain ⟨pc', hpc', hnum⟩ := hpc pc hx
    rw [← hnum]
    exact h.live pc' hpc'

end Step

theorem tidy_step (x : WebRTCEngine) (i : Step) (h : Tidy x) (hok : x.Asserts i) : Tidy (x.step i) := by
  cases i with
  | createPeerConnection ok => exact tidy_create h hok ok
  | closePeerConnection => exact tidy_close h
  | shutdown =>
    simp only [step, shutdown]
    split_ifs
    · exact h
    · exact (tidy_close h).congr rfl rfl rfl rfl rfl
  | createDescription isOffer => exact tidy_createDescription h isOffer
  | setRemoteDescription isOffer parses =>
    simp only [step, setRemoteDescription]
    cases x.peerConnection with
    | none => exact h
    | some pc =>
      dsimp only
      split_ifs
      · exact tidy_arm h _ _
      · exact h
  | collectStats =>
    simp only [step, collectStats]
    cases x.peerConnection with
    | none => exact h
    | some pc => exact tidy_arm h _ _
  | addIceCandidate parses accepts => exact tidy_addIceCandidate h parses accepts
  | processPendingIceCandidates answers => exact tidy_process h answers
  | describe => exact tidy_describe h
  | deliver n ok addsTracks answers =>
    simp only [step]
    cases x.deliveries[n]? with
    | none => exact h
    | some d =>
      have hrecord : Tidy (x.record d) := h.congr rfl rfl rfl rfl rfl
      simp only [deliver]
      split_ifs
      · exact h
      · exact tidy_handle hrecord d.kind ok addsTracks answers

/-- Two early candidates, of which one is refused at first, and a second peer connection. -/
def earlyCandidates : List Step :=
  [.createPeerConnection true, .addIceCandidate true true, .addIceCandidate true true, .describe,
    .processPendingIceCandidates [false, true], .addIceCandidate true false, .processPendingIceCandidates [true, false],
    .closePeerConnection, .createPeerConnection true, .addIceCandidate true true]

end WebRTCEngine

end PeerCall.WebRTC
