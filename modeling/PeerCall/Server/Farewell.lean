import PeerCall.Server.Offline

/-!
# Server.Farewell — everybody who leaves is reported, once

The registry again, with a login in one piece, and with a log of what happened to each uid: when it was
registered, when its registered connection was removed, and when it was reported offline.  Who is not in
the map any more has either been reported since, or a job of its current generation is still to run.
-/

namespace PeerCall.Registry

open PeerCall.Lib

/-- The whole of `HandleConnection`. -/
def Server.connect (s : Server) (uid : String) : Server := (s.handleConnection uid).register s.conns

/-- A job that may still run. -/
def OfflineJob.Outstanding (j : OfflineJob) : Prop := j.status = .scheduled ∨ j.status = .fired

instance (j : OfflineJob) : Decidable j.Outstanding := by unfold OfflineJob.Outstanding; infer_instance

/-- What the log tells of a uid; `offline` is the `user-offline` that goes to everybody else. -/
inductive Event
  | registered (uid : String)
  | disconnected (uid : String)
  | offline (uid : String)
  deriving DecidableEq, Repr

/-- The registry and its log, the latest event first. -/
structure Farewell where
  server : Server := {}
  log : List Event := []

/-- `removeClient` finds the connection in the map. -/
def Server.Removes (s : Server) (c : ℕ) : Prop :=
  c < s.conns ∧ (s.conn c).registered ∧ s.clients (s.conn c).uid = some c

instance (s : Server) (c : ℕ) : Decidable (s.Removes c) := by unfold Server.Removes; infer_instance

namespace Farewell

inductive Step
  | connect (uid : String)
  | disconnect (c : ℕ)
  | fire (j : ℕ)
  | confirmOffline (j : ℕ)
  deriving DecidableEq, Repr

def step (x : Farewell) : Step → Farewell
  | .connect uid => { server := x.server.connect uid, log := .registered uid :: x.log }
  | .disconnect c =>
    { server := x.server.removeClient c
      log := if x.server.Removes c then .disconnected (x.server.conn c).uid :: x.log else x.log }
  | .fire j => { x with server := x.server.fire j }
  | .confirmOffline j =>
    { server := x.server.confirmOffline j
      log := (decided x.server (.confirmOffline j)).map (fun notice => .offline notice.uid) ++ x.log }

/-- How often the uid has been reported since its registered connection was last removed. -/
def reports (uid : String) (log : List Event) : ℕ :=
  (log.takeWhile fun e => e ≠ .disconnected uid).count (.offline uid)

/-- A login that does not wrap the generation counter of its uid around to zero. -/
def NoWrap (x : Farewell) : Step → Prop
  | .connect uid => x.server.generation uid + 1 < 2 ^ 64
  | _ => True

instance (x : Farewell) : ∀ i : Step, Decidable (x.NoWrap i)
  | .connect uid => inferInstanceAs (Decidable (x.server.generation uid + 1 < 2 ^ 64))
  | .disconnect _ | .fire _ | .confirmOffline _ => inferInstanceAs (Decidable True)

/-! ### The log -/

@[simp] theorem reports_registered (u v : String) (log : List Event) :
    reports u (.registered v :: log) = reports u log := by
  simp [reports]

@[simp] theorem reports_disconnected (u v : String) (log : List Event) :
    reports u (.disconnected v :: log) = if v = u then 0 else reports u log := by
  by_cases h : v = u <;> simp [reports, h]

@[simp] theorem reports_offline (u v : String) (log : List Event) :
    reports u (.offline v :: log) = reports u log + if v = u then 1 else 0 := by
  by_cases h : v = u <;> simp [reports, h]

end Farewell

/-! ### What a login, a removal and a confirmation do -/

section Sections

variable (s : Server) (u : String)

theorem connect_clients : (s.connect u).clients = Function.update s.clients u (some s.conns) := by
  unfold Server.connect Server.handleConnection Server.register
  cases hc : s.clients u <;> simp

theorem connect_generations :
    (s.connect u).clientGenerations = Function.update s.clientGenerations u (some ((s.generation u + 1) % 2 ^ 64)) := by
  unfold Server.connect Server.handleConnection Server.register
  cases hc : s.clients u <;> simp

theorem connect_pending : (s.connect u).pendingOfflineJobs = Function.update s.pendingOfflineJobs u none := by
  unfold Server.connect Server.handleConnection Server.register
  cases hc : s.clients u <;> simp

theorem connect_conns : (s.connect u).conns = s.conns + 1 := by
  unfold Server.connect Server.handleConnection Server.register
  cases hc : s.clients u <;> simp

theorem connect_jobs : (s.connect u).jobs = s.jobs ∧ (s.connect u).job = (s.stopJob u).job := by
  unfold Server.connect Server.handleConnection Server.register
  cases hc : s.clients u <;> simp [stopJob_jobs]

/-- The new connection has the uid and the new generation. -/
theorem connect_conn_self :
    ((s.connect u).conn s.conns).uid = u ∧
      ((s.connect u).conn s.conns).generation = (s.generation u + 1) % 2 ^ 64 ∧
      ((s.connect u).conn s.conns).registered := by
  unfold Server.connect Server.handleConnection Server.register
  cases hc : s.clients u <;> simp

/-- An older one keeps what it has. -/
theorem connect_conn {c : ℕ} (hc : c < s.conns) :
    ((s.connect u).conn c).uid = (s.conn c).uid ∧
      ((s.connect u).conn c).generation = (s.conn c).generation ∧
      ((s.connect u).conn c).registered = (s.conn c).registered := by
  unfold Server.connect Server.handleConnection Server.register
  cases he : s.clients u with
  | none => simp [hc.ne]
  | some e =>
    by_cases hce : c = e
    · subst hce
      simp [hc.ne]
    · simp [hc.ne, hce]

/-- `Stop` only stops the pending job of the uid. -/
theorem stopJob_other {j : ℕ} (h : s.pendingOfflineJobs u ≠ some j) : (s.stopJob u).job j = s.job j := by
  unfold Server.stopJob
  cases hp : s.pendingOfflineJobs u with
  | none => rfl
  | some k =>
    have hjk : j ≠ k := by
      rintro rfl
      exact h hp
    exact Function.update_of_ne hjk _ _

/-- `Stop` does not touch uids and generations. -/
theorem stopJob_generation (j : ℕ) :
    ((s.stopJob u).job j).uid = (s.job j).uid ∧ ((s.stopJob u).job j).generation = (s.job j).generation := by
  have hstop : ∀ k : OfflineJob, k.stop.uid = k.uid ∧ k.stop.generation = k.generation := by
    intro k
    unfold OfflineJob.stop
    split_ifs <;> exact ⟨rfl, rfl⟩
  unfold Server.stopJob
  cases s.pendingOfflineJobs u with
  | none => exact ⟨rfl, rfl⟩
  | some k =>
    by_cases hjk : j = k
    · subst hjk
      simpa using hstop (s.job j)
    · simp [hjk]

variable {c : ℕ}

/-- What every `removeClient` leaves alone. -/
theorem removeClient_kept (s : Server) (c : ℕ) :
    (s.removeClient c).clientGenerations = s.clientGenerations ∧ (s.removeClient c).conns = s.conns ∧
      ∀ c', ((s.removeClient c).conn c').uid = (s.conn c').uid ∧
        ((s.removeClient c).conn c').generation = (s.conn c').generation := by
  have hconn : ∀ c', ((Function.update s.conn c { s.conn c with closed := true }) c').uid = (s.conn c').uid ∧
      ((Function.update s.conn c { s.conn c with closed := true }) c').generation = (s.conn c').generation := by
    intro c'
    by_cases hcc : c' = c
    · subst hcc
      simp
    · simp [hcc]
  unfold Server.removeClient
  dsimp only
  split_ifs
  · exact ⟨rfl, rfl, hconn⟩
  · exact ⟨rfl, rfl, hconn⟩
  · exact ⟨rfl, rfl, fun _ => ⟨rfl, rfl⟩⟩

theorem removeClient_of (h : s.Removes c) :
    (s.removeClient c).clients = Function.update s.clients (s.conn c).uid none ∧
      (s.removeClient c).pendingOfflineJobs = Function.update s.pendingOfflineJobs (s.conn c).uid (some s.jobs) ∧
      (s.removeClient c).jobs = s.jobs + 1 ∧
      (s.removeClient c).job = Function.update (s.stopJob (s.conn c).uid).job s.jobs
        { uid := (s.conn c).uid, generation := (s.conn c).generation } := by
  unfold Server.removeClient
  dsimp only
  rw [if_pos ⟨h.1, h.2.1⟩, if_pos (by exact h.2.2)]
  exact ⟨rfl, rfl, rfl, rfl⟩

theorem removeClient_of_not (h : ¬ s.Removes c) :
    (s.removeClient c).clients = s.clients ∧
      (s.removeClient c).pendingOfflineJobs = s.pendingOfflineJobs ∧
      (s.removeClient c).jobs = s.jobs ∧ (s.removeClient c).job = s.job := by
  unfold Server.removeClient
  dsimp only
  split_ifs with hc hcur
  · exact absurd ⟨hc.1, hc.2, hcur⟩ h
  · exact ⟨rfl, rfl, rfl, rfl⟩
  · exact ⟨rfl, rfl, rfl, rfl⟩

theorem confirmOffline_of_decides {j : ℕ} (h : s.Decides j) :
    (s.confirmOffline j).clientGenerations = Function.update s.clientGenerations (s.job j).uid none ∧
      (s.confirmOffline j).pendingOfflineJobs = Function.update s.pendingOfflineJobs (s.job j).uid none ∧
      ((s.confirmOffline j).clients = s.clients ∧ (s.confirmOffline j).conns = s.conns ∧
        (s.confirmOffline j).conn = s.conn) ∧
      (s.confirmOffline j).jobs = s.jobs ∧
      (s.confirmOffline j).job = Function.update s.job j { s.job j with status := .done } := by
  obtain ⟨hj, hst, hg, hc⟩ := h
  simp [Server.confirmOffline, hj, hst, hg, hc]

end Sections

/-! ### Who is away is reported, or will be -/

/-- A job is still to run for the generation of the uid. -/
def Owes (s : Server) (uid : String) : Prop :=
  ∃ j < s.jobs, (s.job j).Outstanding ∧ (s.job j).uid = uid ∧ s.clientGenerations uid = some (s.job j).generation

/-- A change that leaves the generation and the jobs of the uid alone. -/
theorem Owes.frame {s s' : Server} {uid : String} (h : Owes s uid) (hjobs : s.jobs ≤ s'.jobs)
    (hgen : s'.clientGenerations uid = s.clientGenerations uid)
    (hjob : ∀ j < s.jobs, (s.job j).uid = uid → (s.job j).Outstanding → s.clientGenerations uid =
      some (s.job j).generation → (s'.job j).Outstanding ∧ (s'.job j).uid = uid ∧
        (s'.job j).generation = (s.job j).generation) : Owes s' uid := by
  obtain ⟨j, hj, hout, huid, hg⟩ := h
  obtain ⟨hout', huid', hg'⟩ := hjob j hj huid hout hg
  exact ⟨j, hj.trans_le hjobs, hout', huid', by rw [hgen, hg, hg']⟩

namespace Farewell

/-- What holds of a uid at any time. -/
structure Inv (x : Farewell) (uid : String) : Prop where
  current : ∀ c, x.server.clients uid = some c → c < x.server.conns ∧ (x.server.conn c).uid = uid ∧
    x.server.clientGenerations uid = some (x.server.conn c).generation
  counted : x.server.clientGenerations uid ≠ some 0
  pending : ∀ j, x.server.pendingOfflineJobs uid = some j → j < x.server.jobs ∧ (x.server.job j).uid = uid
  away : x.server.clients uid = none → .registered uid ∈ x.log →
    x.server.clientGenerations uid = none ∧ reports uid x.log = 1 ∨
      Owes x.server uid ∧ reports uid x.log = 0

/-- No job is about the generation zero, which is what the map answers for a uid it does not know. -/
def JobsCounted (x : Farewell) : Prop := ∀ j < x.server.jobs, (x.server.job j).generation ≠ 0

theorem inv_connect {x : Farewell} (h : ∀ uid, x.Inv uid) {u : String} (hwrap : x.NoWrap (.connect u))
    (v : String) : (x.step (.connect u)).Inv v := by
  have hgen : (x.server.generation u + 1) % 2 ^ 64 = x.server.generation u + 1 := Nat.mod_eq_of_lt hwrap
  obtain ⟨hjobs, hjob⟩ := connect_jobs x.server u
  have hkept := stopJob_generation x.server u
  constructor
  case current =>
    intro c hc
    simp only [step, connect_clients, connect_conns, connect_generations] at hc ⊢
    by_cases hv : v = u
    · subst hv
      obtain rfl : x.server.conns = c := by simpa using hc
      obtain ⟨huid, hg, -⟩ := connect_conn_self x.server v
      exact ⟨by omega, huid, by rw [Function.update_self, hg]⟩
    · rw [Function.update_of_ne hv] at hc ⊢
      obtain ⟨hlt, huid, hg⟩ := (h v).current c hc
      obtain ⟨huid', hg', -⟩ := connect_conn x.server u hlt
      exact ⟨by omega, huid'.trans huid, by rw [hg, hg']⟩
  case counted =>
    simp only [step, connect_generations]
    by_cases hv : v = u
    · rw [hv, Function.update_self, hgen]
      simp
    · rw [Function.update_of_ne hv]
      exact (h v).counted
  case pending =>
    intro j hj
    simp only [step, connect_pending] at hj ⊢
    by_cases hv : v = u
    · simp [hv] at hj
    · rw [Function.update_of_ne hv] at hj
      rw [hjob, hjobs, (hkept j).1]
      exact (h v).pending j hj
  case away =>
    intro hc hlog
    simp only [step, connect_clients, connect_generations, reports_registered] at hc hlog ⊢
    by_cases hv : v = u
    · simp [hv] at hc
    · rw [Function.update_of_ne hv] at hc ⊢
      have hlog' : Event.registered v ∈ x.log := by simpa [hv] using hlog
      refine ((h v).away hc hlog').imp id fun howes => ⟨?_, howes.2⟩
      refine howes.1.frame hjobs.ge (by rw [connect_generations, Function.update_of_ne hv]) fun j _ huid hout _ => ?_
      have hother : x.server.pendingOfflineJobs u ≠ some j := fun hp => hv (huid ▸ ((h u).pending j hp).2)
      rw [hjob, stopJob_other _ _ hother]
      exact ⟨hout, huid, rfl⟩

/-- The removal of the connection that is in the map makes a job for its generation. -/
theorem inv_disconnect {x : Farewell} (h : ∀ uid, x.Inv uid) (c : ℕ) (v : String) :
    (x.step (.disconnect c)).Inv v := by
  obtain ⟨hgens, hconns, hconn⟩ := removeClient_kept x.server c
  have hcurrent : ∀ c', x.server.clients v = some c' →
      c' < (x.server.removeClient c).conns ∧ ((x.server.removeClient c).conn c').uid = v ∧
        (x.server.removeClient c).clientGenerations v = some ((x.server.removeClient c).conn c').generation := by
    intro c' hc'
    obtain ⟨hlt, huid, hg⟩ := (h v).current c' hc'
    exact ⟨by omega, (hconn c').1.trans huid, by rw [hgens, hg, (hconn c').2]⟩
  have hcounted : (x.server.removeClient c).clientGenerations v ≠ some 0 := by
    rw [hgens]
    exact (h v).counted
  by_cases hrem : x.server.Removes c
  · obtain ⟨hclients, hpending, hjobs, hjob⟩ := removeClient_of _ hrem
    obtain ⟨-, -, hg⟩ := (h _).current c hrem.2.2
    by_cases hv : v = (x.server.conn c).uid
    · refine ⟨fun c' hc' => ?_, hcounted, fun j hj => ?_, fun _ _ => .inr ⟨⟨x.server.jobs, ?_, ?_⟩, ?_⟩⟩
      · simp [step, hclients, hv] at hc'
      · obtain rfl : x.server.jobs = j := by simpa [step, hpending, hv] using hj
        simp [step, hjob, hjobs, hv]
      · simp [step, hjobs]
      · simp [step, hjob, hgens, OfflineJob.Outstanding, hv, hg]
      · simp [step, if_pos hrem, hv]
    · have hother : ∀ j < x.server.jobs, (x.server.job j).uid = v →
          (x.server.removeClient c).job j = x.server.job j := by
        intro j hj huid
        rw [hjob, Function.update_of_ne hj.ne, stopJob_other]
        exact fun hp => hv (huid ▸ ((h _).pending j hp).2)
      refine ⟨fun c' hc' => ?_, hcounted, fun j hj => ?_, fun hnone hlog => ?_⟩
      · exact hcurrent c' (by simpa [step, hclients, hv] using hc')
      · obtain ⟨hlt, huid⟩ := (h v).pending j (by simpa [step, hpending, hv] using hj)
        refine ⟨?_, ?_⟩
        · simp only [step, hjobs]
          omega
        · simp only [step, hother j hlt huid, huid]
      · have hlog' : Event.registered v ∈ x.log := by simpa [step, if_pos hrem] using hlog
        have hrep : reports v (x.step (.disconnect c)).log = reports v x.log := by
          simp [step, if_pos hrem, Ne.symm hv]
        rw [hrep]
        refine ((h v).away (by simpa [step, hclients, hv] using hnone) hlog').imp (fun hdone => ?_) fun howes => ?_
        · simpa only [step, hgens] using hdone
        · refine ⟨howes.1.frame (by simp only [step, hjobs]; omega) (by simp only [step, hgens]) ?_, howes.2⟩
          intro j hj huid hout _
          simp [step, hother j hj huid, hout, huid]
  · obtain ⟨hclients, hpending, hjobs, hjob⟩ := removeClient_of_not _ hrem
    refine ⟨fun c' hc' => ?_, hcounted, fun j hj => ?_, fun hnone hlog => ?_⟩
    · exact hcurrent c' (by simpa [step, hclients] using hc')
    · simpa [step, hpending, hjobs, hjob] using (h v).pending j (by simpa [step, hpending] using hj)
    · simp only [step, if_neg hrem, hclients, hgens] at hnone hlog ⊢
      refine ((h v).away hnone hlog).imp id fun howes => ⟨?_, howes.2⟩
      exact howes.1.frame hjobs.ge (by rw [hgens]) fun j _ huid hout _ => by
        rw [hjob]
        exact ⟨hout, huid, rfl⟩

/-- A change of one job that keeps its uid and generation. -/
theorem inv_of_job {x : Farewell} {v : String} (h : x.Inv v) {j : ℕ} {k : OfflineJob}
    (huid : k.uid = (x.server.job j).uid)
    (hgen : k.generation = (x.server.job j).generation)
    (hout : (x.server.job j).uid = v → x.server.clientGenerations v = some (x.server.job j).generation →
      x.server.clients v = none → (x.server.job j).Outstanding → k.Outstanding) :
    Inv { x with server := { x.server with job := Function.update x.server.job j k } } v := by
  have hkept : ∀ i, ((Function.update x.server.job j k) i).uid = (x.server.job i).uid ∧
      ((Function.update x.server.job j k) i).generation = (x.server.job i).generation := by
    intro i
    by_cases hi : i = j
    · subst hi
      simp [huid, hgen]
    · simp [hi]
  refine ⟨h.current, h.counted, fun i hi => ?_, fun hnone hlog => ?_⟩
  · obtain ⟨hlt, hu⟩ := h.pending i hi
    exact ⟨hlt, (hkept i).1.trans hu⟩
  · refine (h.away hnone hlog).imp id fun howes => ⟨?_, howes.2⟩
    refine howes.1.frame le_rfl rfl fun i _ hu ho hg => ⟨?_, (hkept i).1.trans hu, (hkept i).2⟩
    by_cases hi : i = j
    · subst hi
      simpa using hout hu hg hnone ho
    · simpa [hi] using ho

theorem inv_fire {x : Farewell} {v : String} (h : x.Inv v) (j : ℕ) : (x.step (.fire j)).Inv v := by
  simp only [step, Server.fire]
  split_ifs with hj
  · exact inv_of_job h rfl rfl fun _ _ _ _ => .inr rfl
  · exact h

/-- A job that is stale, that finds its uid in the map or that is about another uid is not what is owed. -/
theorem inv_done {x : Farewell} {v : String} (h : x.Inv v) (j : ℕ)
    (hskip : x.server.generation (x.server.job j).uid ≠ (x.server.job j).generation ∨
      x.server.clients (x.server.job j).uid ≠ none ∨ v ≠ (x.server.job j).uid) :
    Inv { x with server := { x.server with
      job := Function.update x.server.job j { x.server.job j with status := .done } } } v := by
  refine inv_of_job h rfl rfl fun huid hg hnone _ => ?_
  rcases hskip with hne | hin | hv
  · exact absurd (by simp [Server.generation, huid, hg]) hne
  · exact absurd (huid ▸ hnone) hin
  · exact absurd huid.symm hv

/-- A job that decides settles what is owed to its uid. -/
theorem inv_decides {x : Farewell} {v : String} (h : x.Inv v) (hjobs : x.JobsCounted) {j : ℕ}
    (hdec : x.server.Decides j) : (x.step (.confirmOffline j)).Inv v := by
  obtain ⟨hgens, hpending, hserver, hjobs', hjob⟩ := confirmOffline_of_decides _ hdec
  have hlog : (x.step (.confirmOffline j)).log = .offline (x.server.job j).uid :: x.log := by
    simp [step, decided, hdec]
  obtain ⟨hj, -, hg, hc⟩ := hdec
  by_cases hv : v = (x.server.job j).uid
  · refine ⟨fun c hcur => ?_, ?_, fun i hi => ?_, fun _ hever => .inl ⟨?_, ?_⟩⟩
    · simp [step, hserver.1, hv, hc] at hcur
    · simp [step, hgens, hv]
    · simp [step, hpending, hv] at hi
    · simp [step, hgens, hv]
    · have hsome : x.server.clientGenerations v ≠ none := by
        intro hnone
        refine hjobs j hj ?_
        rw [← hg, Server.generation, ← hv, hnone]
        rfl
      have hever' : Event.registered v ∈ x.log := by simpa [hlog] using hever
      rcases h.away (by rw [hv, hc]) hever' with hdone | howes
      · exact absurd hdone.1 hsome
      · rw [hlog, reports_offline, if_pos hv.symm, howes.2]
  · have hd := inv_done h j (.inr (.inr hv))
    refine ⟨fun c hcur => ?_, ?_, fun i hi => ?_, fun hnone hever => ?_⟩
    · have hcur' : x.server.clients v = some c := by simpa [step, hserver.1] using hcur
      simpa [step, hserver.2.1, hserver.2.2, hgens, hv] using h.current c hcur'
    · simpa [step, hgens, hv] using h.counted
    · simpa [step, hjobs', hjob] using hd.pending i (by simpa [step, hpending, hv] using hi)
    · have haway := hd.away (by simpa [step, hserver.1] using hnone) (by simpa [hlog] using hever)
      rw [hlog, reports_offline, if_neg (Ne.symm hv), Nat.add_zero]
      refine haway.imp (fun hdone => by simpa [step, hgens, hv] using hdone) fun howes => ⟨?_, howes.2⟩
      refine howes.1.frame hjobs'.ge (by simp [step, hgens, hv]) fun i _ hi ho _ => ?_
      rw [step, hjob]
      exact ⟨ho, hi, rfl⟩

/-- A job that runs either finds that it is not its turn, or settles what is owed. -/
theorem inv_confirmOffline {x : Farewell} {v : String} (h : x.Inv v) (hjobs : x.JobsCounted) (j : ℕ) :
    (x.step (.confirmOffline j)).Inv v := by
  by_cases hdec : x.server.Decides j
  · exact inv_decides h hjobs hdec
  · have hlog : decided x.server (.confirmOffline j) = [] := by
      simp only [decided, if_neg hdec]
    by_cases hj : j < x.server.jobs ∧ (x.server.job j).status = .fired
    · by_cases hg : x.server.generation (x.server.job j).uid = (x.server.job j).generation
      · have hc : x.server.clients (x.server.job j).uid ≠ none := fun hc => hdec ⟨hj.1, hj.2, hg, hc⟩
        have hd := inv_done h j (.inr (.inl hc))
        have hdropped : Inv { x with server := { x.server with
            job := Function.update x.server.job j { x.server.job j with status := .done }
            pendingOfflineJobs :=
              Function.update x.server.pendingOfflineJobs (x.server.job j).uid none } } v := by
          refine ⟨hd.current, hd.counted, fun i hi => ?_, hd.away⟩
          by_cases hv : v = (x.server.job j).uid
          · simp [hv] at hi
          · exact hd.pending i (by simpa [hv] using hi)
        simpa [step, Server.confirmOffline, hj, hg, hc, hlog] using hdropped
      · simpa [step, Server.confirmOffline, hj, hg, hlog] using inv_done h j (.inl hg)
    · simpa [step, Server.confirmOffline, hj, hlog] using h

theorem update_generation (s : Server) (k : ℕ) (status : JobStatus) (j : ℕ) :
    ((Function.update s.job k { s.job k with status := status }) j).generation = (s.job j).generation := by
  by_cases hjk : j = k
  · rw [hjk, Function.update_self]
  · rw [Function.update_of_ne hjk]

theorem fire_generation (s : Server) (k j : ℕ) :
    ((s.fire k).job j).generation = (s.job j).generation ∧ (s.fire k).jobs = s.jobs := by
  unfold Server.fire
  split_ifs
  · exact ⟨update_generation s k _ j, rfl⟩
  · exact ⟨rfl, rfl⟩

theorem confirmOffline_generation (s : Server) (k j : ℕ) :
    ((s.confirmOffline k).job j).generation = (s.job j).generation ∧ (s.confirmOffline k).jobs = s.jobs := by
  unfold Server.confirmOffline
  dsimp only
  split_ifs
  · exact ⟨update_generation s k _ j, rfl⟩
  · exact ⟨update_generation s k _ j, rfl⟩
  · exact ⟨update_generation s k _ j, rfl⟩
  · exact ⟨rfl, rfl⟩

theorem jobsCounted_step {x : Farewell} (h : ∀ uid, x.Inv uid) (hjobs : x.JobsCounted) (i : Step) :
    (x.step i).JobsCounted := by
  intro j hj
  cases i with
  | connect u =>
    obtain ⟨hlen, hjob⟩ := connect_jobs x.server u
    rw [step, hlen] at hj
    rw [step, hjob, (stopJob_generation _ _ j).2]
    exact hjobs j hj
  | disconnect c =>
    by_cases hrem : x.server.Removes c
    · obtain ⟨-, -, hlen, hjob⟩ := removeClient_of _ hrem
      rw [step, hlen] at hj
      rw [step, hjob]
      by_cases hnew : j = x.server.jobs
      · -- the generation of a registered connection is the one on record
        rw [hnew, Function.update_self]
        intro hzero
        exact (h _).counted ((((h _).current c hrem.2.2).2.2).trans (by simpa using hzero))
      · rw [Function.update_of_ne hnew, (stopJob_generation _ _ j).2]
        exact hjobs j (by omega)
    · obtain ⟨-, -, hlen, hjob⟩ := removeClient_of_not _ hrem
      rw [step, hlen] at hj
      rw [step, hjob]
      exact hjobs j hj
  | fire k =>
    obtain ⟨hgen, hlen⟩ := fire_generation x.server k j
    rw [step, hlen] at hj
    rw [step, hgen]
    exact hjobs j hj
  | confirmOffline k =>
    obtain ⟨hgen, hlen⟩ := confirmOffline_generation x.server k j
    rw [step, hlen] at hj
    rw [step, hgen]
    exact hjobs j hj

theorem inv_step (x : Farewell) (i : Step) (h : (∀ uid, x.Inv uid) ∧ x.JobsCounted) (hok : x.NoWrap i) :
    (∀ uid, (x.step i).Inv uid) ∧ (x.step i).JobsCounted := by
  refine ⟨fun v => ?_, jobsCounted_step h.1 h.2 i⟩
  cases i with
  | connect u => exact inv_connect h.1 hok v
  | disconnect c => exact inv_disconnect h.1 c v
  | fire j => exact inv_fire (h.1 v) j
  | confirmOffline j => exact inv_confirmOffline (h.1 v) h.2 j

theorem inv_init : (∀ uid, Inv {} uid) ∧ JobsCounted {} :=
  ⟨fun _ => ⟨by simp, by simp, by simp, by simp⟩, by simp [JobsCounted]⟩

/-- **No lost offline**, in every run in which no login wraps the generation counter of its uid around: once
no job of a uid is outstanding, the uid is in the map, or it has been reported exactly once since its
registered connection was last removed. -/
theorem reported_once (l : List Step) (hl : Meets step NoWrap {} l) (uid : String)
    (hquiet : ∀ j < (run step {} l).server.jobs, ((run step {} l).server.job j).uid = uid →
      ¬ ((run step {} l).server.job j).Outstanding)
    (hever : .registered uid ∈ (run step {} l).log) :
    (run step {} l).server.clients uid ≠ none ∨ reports uid (run step {} l).log = 1 := by
  have hinv := (run_invariant inv_step inv_init hl).1 uid
  by_cases hc : (run step {} l).server.clients uid = none
  · rcases hinv.away hc hever with hdone | ⟨⟨j, hj, hout, huid, -⟩, -⟩
    · exact .inr hdone.2
    · exact absurd hout (hquiet j hj huid)
  · exact .inl hc

/-- Alice comes back while a job about her is already running, and leaves again. -/
def flapping : List Step :=
  [.connect "bob", .connect "alice", .disconnect 1, .fire 0, .connect "alice", .disconnect 2, .confirmOffline 0,
    .fire 1, .confirmOffline 1]

theorem alice_reported_once :
    (run step {} flapping).server.clients "alice" ≠ none ∨ reports "alice" (run step {} flapping).log = 1 :=
  reported_once flapping (by decide) "alice" (by decide) (by decide)

/-! ### A counter that wraps around -/

/-- The uid's connection is number `n`, the latest of all, with the generation `g`. -/
structure Online (x : Farewell) (u : String) (n g : ℕ) : Prop where
  client : x.server.clients u = some n
  generation : x.server.clientGenerations u = some g
  conns : x.server.conns = n + 1
  conn : (x.server.conn n).uid = u ∧ (x.server.conn n).generation = g ∧ (x.server.conn n).registered
  pending : x.server.pendingOfflineJobs u = none

theorem online_connect (x : Farewell) (u : String) :
    Online (x.step (.connect u)) u x.server.conns ((x.server.generation u + 1) % 2 ^ 64) where
  client := by simp [step, connect_clients]
  generation := by simp [step, connect_generations]
  conns := connect_conns x.server u
  conn := connect_conn_self x.server u
  pending := by simp [step, connect_pending]

/-- `n + 1` logins in a row. -/
theorem online_logins (u : String) (n : ℕ) :
    let x := run step {} (List.replicate (n + 1) (.connect u))
    Online x u n ((n + 1) % 2 ^ 64) ∧ x.server.jobs = 0 := by
  induction n with
  | zero => exact ⟨online_connect {} u, (connect_jobs {} u).1⟩
  | succ n ih =>
    obtain ⟨hon, hjobs⟩ := ih
    rw [List.replicate_succ', run_concat]
    refine ⟨?_, (connect_jobs _ u).1.trans hjobs⟩
    have hnext := online_connect (run step {} (List.replicate (n + 1) (.connect u))) u
    rw [hon.conns, Server.generation, hon.generation, Option.getD_some, Nat.mod_add_mod] at hnext
    exact hnext

/-- What the removal of that connection does. -/
theorem Online.disconnect {x : Farewell} {u : String} {n g : ℕ} (h : Online x u n g) :
    let y := x.step (.disconnect n)
    y.server.clients u = none ∧ y.server.clientGenerations u = some g ∧ y.server.conns = n + 1 ∧
      y.server.jobs = x.server.jobs + 1 ∧ y.server.pendingOfflineJobs u = some x.server.jobs ∧
      y.server.job = Function.update x.server.job x.server.jobs { uid := u, generation := g } ∧
      y.log = .disconnected u :: x.log := by
  obtain ⟨huid, hg, hreg⟩ := h.conn
  have hrem : x.server.Removes n := ⟨by rw [h.conns]; omega, hreg, by rw [huid, h.client]⟩
  obtain ⟨hclients, hpending, hjobs, hjob⟩ := removeClient_of _ hrem
  obtain ⟨hgens, hconns, -⟩ := removeClient_kept x.server n
  have hstop : (x.server.stopJob u).job = x.server.job := by
    rw [Server.stopJob, h.pending]
  rw [huid, hstop, hg] at hjob
  simp [step, hclients, hpending, hjobs, hjob, hgens, hconns, h.generation, h.conns, if_pos hrem, huid]

/-- A connection with the generation zero leaves, and comes back and leaves again while its job is late. -/
theorem zero_reported_twice {x : Farewell} {u : String} {n : ℕ} (h : Online x u n 0) (hjobs : x.server.jobs = 0) :
    let y := run step x [.disconnect n, .fire 0, .connect u, .disconnect (n + 1), .fire 1, .confirmOffline 1,
      .confirmOffline 0]
    y.server.clients u = none ∧ y.server.jobs = 2 ∧ (y.server.job 0).status = .done ∧
      (y.server.job 1).status = .done ∧ .registered u ∈ y.log ∧ reports u y.log = 2 := by
  obtain ⟨-, hg, hconns, hjobs₁, hpend, hjob₁, -⟩ := h.disconnect
  set x₁ := x.step (.disconnect n) with hx₁
  rw [hjobs] at hjobs₁ hjob₁ hpend
  set x₂ := x₁.step (.fire 0) with hx₂
  have hfire : x₂.server.job 0 = { uid := u, generation := 0, status := .fired } ∧ x₂.server.jobs = 1 ∧
      x₂.server.clientGenerations u = some 0 ∧ x₂.server.conns = n + 1 ∧
      x₂.server.pendingOfflineJobs u = some 0 := by
    simp [hx₂, step, Server.fire, hjobs₁, hjob₁, hg, hconns, hpend]
  obtain ⟨hfired, hjobs₂, hg₂, hconns₂, hpend₂⟩ := hfire
  have hon := online_connect x₂ u
  rw [hconns₂, Server.generation, hg₂, Option.getD_some] at hon
  set x₃ := x₂.step (.connect u) with hx₃
  obtain ⟨hlen, hjob⟩ := connect_jobs x₂.server u
  -- the job has fired, so that `Stop` comes too late for it
  have hlate : x₃.server.job 0 = { uid := u, generation := 0, status := .fired } := by
    rw [hx₃, step, hjob]
    simp [Server.stopJob, hpend₂, hfired, OfflineJob.stop]
  obtain ⟨hc, hg₄, -, hjobs₄, -, hjob₄, hlog₄⟩ := hon.disconnect
  set x₄ := x₃.step (.disconnect (n + 1)) with hx₄
  rw [show x₃.server.jobs = 1 from hlen.trans hjobs₂] at hjobs₄ hjob₄
  have hlog₃ : x₃.log = .registered u :: x₂.log := rfl
  simp only [run_cons, run_nil, ← hx₁, ← hx₂, ← hx₃, ← hx₄]
  simp [step, Server.fire, Server.confirmOffline, Server.generation, decided, Server.Decides, hjobs₄, hjob₄, hlate,
    hc, hg₄, hlog₄, hlog₃]

/-- **Not in general**: after `2 ^ 64` logins in a row Alice has the generation zero, so that the job of that
connection still finds its own generation when Alice has been reported and forgotten. -/
theorem reported_twice :
    ¬ ∀ (l : List Step) (uid : String),
      (∀ j < (run step {} l).server.jobs, ((run step {} l).server.job j).uid = uid →
        ¬ ((run step {} l).server.job j).Outstanding) → .registered uid ∈ (run step {} l).log →
      (run step {} l).server.clients uid ≠ none ∨ reports uid (run step {} l).log = 1 := by
  intro h
  obtain ⟨n, hn⟩ : ∃ n : ℕ, n + 1 = 2 ^ 64 := ⟨2 ^ 64 - 1, by omega⟩
  have hzero : (n + 1) % 2 ^ 64 = 0 := by rw [hn, Nat.mod_self]
  obtain ⟨hon, hjobs⟩ := online_logins "alice" n
  rw [hzero] at hon
  obtain ⟨hc, hlen, h0, h1, hlog, hrep⟩ := zero_reported_twice hon hjobs
  rw [← run_append] at hc hlen h0 h1 hlog hrep
  generalize List.replicate (n + 1) (Step.connect "alice") ++ _ = l at hc hlen h0 h1 hlog hrep
  have hquiet : ∀ j < (run step {} l).server.jobs, ((run step {} l).server.job j).uid = "alice" →
      ¬ ((run step {} l).server.job j).Outstanding := by
    intro j hj _
    rw [hlen] at hj
    obtain rfl | rfl : j = 0 ∨ j = 1 := by omega
    · simp [OfflineJob.Outstanding, h0]
    · simp [OfflineJob.Outstanding, h1]
  rcases h l "alice" hquiet hlog with hin | hone
  · exact hin hc
  · rw [hrep] at hone
    exact absurd hone (by decide)

end Farewell

end PeerCall.Registry
