import PeerCall.Server.Registry

/-!
# Server.Offline — telling the others that somebody has gone offline

`confirmOffline` decides under `mutex` that a uid is offline, and `notifyUserOffline` tells the others in a
section of its own.  The model keeps the notices that have been decided on and not yet sent, and counts the
registrations of each uid, so that a notice can be compared with what has happened since the disconnect that
it is about.

* `decides_iff`: the notices are decided on by exactly those calls of `confirmOffline` that forget the uid's
  generations in `Registry`;
* `truth_iff_inTime`, `no_false_offline`: **nobody who has come back is reported**, as long as only pending jobs
  decide and no uid is registered while a notice about it is waiting.
-/

namespace PeerCall.Registry

open PeerCall.Lib

/-- `confirmOffline` gets past its two checks. -/
def Server.Decides (s : Server) (j : ℕ) : Prop :=
  j < s.jobs ∧ (s.job j).status = .fired ∧ s.generation (s.job j).uid = (s.job j).generation ∧
    s.clients (s.job j).uid = none

instance (s : Server) (j : ℕ) : Decidable (s.Decides j) := by unfold Server.Decides; infer_instance

/-- Those are the calls that forget the generations of the uid and go on to `notifyUserOffline`. -/
theorem decides_iff (s : Server) (j : ℕ) :
    s.Decides j ↔ (s.confirmOffline j).epoch (s.job j).uid = s.epoch (s.job j).uid + 1 := by
  unfold Server.Decides Server.confirmOffline
  dsimp only
  by_cases hj : j < s.jobs ∧ (s.job j).status = .fired
  · by_cases hg : s.generation (s.job j).uid = (s.job j).generation
    · by_cases hc : s.clients (s.job j).uid = none <;> simp [hj, hg, hc]
    · simp [hj, hg]
  · rw [if_neg hj]
    exact iff_of_false (fun h => hj ⟨h.1, h.2.1⟩) (by simp)

/-- A `notifyUserOffline` that `confirmOffline` is about to call, for the job that it runs for. -/
structure Notice where
  uid : String
  job : ℕ
  deriving DecidableEq, Repr

/-- The server with the notices that have been decided on and those in the send queue of each connection.
`registrations` counts how often a connection of the uid has been put into the map; `since` is that number at
the disconnect a job was made for. -/
structure Presence where
  server : Server := {}
  waiting : List Notice := []
  queue : ℕ → List Notice := fun _ => []
  registrations : String → ℕ := fun _ => 0
  since : ℕ → ℕ := fun _ => 0

/-- The uid of the connection that a section puts into the map. -/
def registers (s : Server) : Step → Option String
  | .handleConnection uid => if s.clients uid = none then some uid else none
  | .register c => if c < s.conns ∧ (s.conn c).registered = false then some (s.conn c).uid else none
  | _ => none

/-- The notice that a section decides on. -/
def decided (s : Server) : Step → List Notice
  | .confirmOffline j => if s.Decides j then [{ uid := (s.job j).uid, job := j }] else []
  | _ => []

namespace Presence

/-- A section of the registry, or one of `notifyUserOffline` for the waiting notice number `n`; `trySend` fails
for the connections of `refusing`, whose queue is full or closed. -/
inductive Step
  | server (i : Registry.Step)
  | notify (n : ℕ) (refusing : List ℕ)
  deriving DecidableEq, Repr

/-- What `notifyUserOffline` puts into the send queue of the connection `c`. -/
def puts (x : Presence) (n : ℕ) (refusing : List ℕ) (c : ℕ) : List Notice :=
  match x.waiting[n]? with
  | none => []
  | some notice =>
    let clientUID := (x.server.conn c).uid
    if x.server.clients clientUID = some c ∧ clientUID ≠ notice.uid ∧ c ∉ refusing then [notice] else []

def step (x : Presence) : Step → Presence
  | .server i =>
    let s := Registry.step x.server i
    { x with
      server := s
      waiting := x.waiting ++ decided x.server i
      registrations :=
        match registers x.server i with
        | none => x.registrations
        | some uid => Function.update x.registrations uid (x.registrations uid + 1)
      since :=
        if s.jobs = x.server.jobs then x.since
        else Function.update x.since x.server.jobs (x.registrations (s.job x.server.jobs).uid) }
  | .notify n refusing =>
    { x with waiting := x.waiting.eraseIdx n, queue := fun c => x.queue c ++ x.puts n refusing c }

/-- No connection of the uid has been registered since the disconnect that the notice is about. -/
def Truthful (x : Presence) (notice : Notice) : Prop := x.registrations notice.uid = x.since notice.job

instance (x : Presence) (notice : Notice) : Decidable (x.Truthful notice) := by unfold Truthful; infer_instance

/-- What keeps the notices truthful: a job that decides is still the pending one of its uid, and no
connection of a uid is registered while a notice about it is waiting. -/
def InTime (x : Presence) : Step → Prop
  | .server i =>
    (∀ notice ∈ decided x.server i, x.server.pendingOfflineJobs notice.uid = some notice.job) ∧
      ∀ uid ∈ registers x.server i, ∀ notice ∈ x.waiting, notice.uid ≠ uid
  | .notify _ _ => True

instance (x : Presence) (i : Step) : Decidable (x.InTime i) := by
  unfold InTime; split <;> infer_instance

end Presence

/-! ### What a section does to the map and to the jobs -/

theorem stop_kept (j : OfflineJob) : j.stop.uid = j.uid ∧ (j.stop.status ≠ .done → j.status ≠ .done) := by
  unfold OfflineJob.stop
  split_ifs with h
  · exact ⟨rfl, fun _ => by rw [h]; decide⟩
  · exact ⟨rfl, id⟩

/-- What `Stop` leaves of the jobs. -/
theorem stopJob_job (s : Server) (uid : String) (j : ℕ) :
    ((s.stopJob uid).job j).uid = (s.job j).uid ∧
      (((s.stopJob uid).job j).status ≠ .done → (s.job j).status ≠ .done) := by
  unfold Server.stopJob
  cases s.pendingOfflineJobs uid with
  | none => exact ⟨rfl, id⟩
  | some k =>
    by_cases hk : j = k
    · subst hk
      simpa using stop_kept (s.job j)
    · simp [hk]

/-- A job keeps its uid, and is not run again. -/
theorem step_job (s : Server) (i : Step) {j : ℕ} (hj : j < s.jobs) :
    ((step s i).job j).uid = (s.job j).uid ∧
      (((step s i).job j).status ≠ .done → (s.job j).status ≠ .done) := by
  cases i with
  | handleConnection u =>
    have h := stopJob_job s u j
    simp only [step, Server.handleConnection]
    cases s.clients u <;> exact h
  | register c =>
    simp only [step, Server.register]
    split_ifs <;> exact ⟨rfl, id⟩
  | removeClient c =>
    have h := stopJob_job s (s.conn c).uid j
    simp only [step, Server.removeClient]
    split_ifs
    · simpa [hj.ne] using h
    · exact ⟨rfl, id⟩
    · exact ⟨rfl, id⟩
  | fire k =>
    simp only [step, Server.fire]
    split_ifs with hk
    · by_cases hjk : j = k
      · subst hjk
        exact ⟨by simp, fun _ => by rw [hk.2]; decide⟩
      · simp [hjk]
    · exact ⟨rfl, id⟩
  | confirmOffline k =>
    have hk : ((Function.update s.job k { s.job k with status := .done }) j).uid = (s.job j).uid ∧
        (((Function.update s.job k { s.job k with status := .done }) j).status ≠ .done →
          (s.job j).status ≠ .done) := by
      by_cases hk : j = k
      · subst hk
        simp
      · simp [hk]
    simp only [step, Server.confirmOffline]
    split_ifs <;> first | exact hk | exact ⟨rfl, id⟩

theorem stopJob_jobs (s : Server) (uid : String) : (s.stopJob uid).jobs = s.jobs := by
  unfold Server.stopJob; split <;> rfl

/-- **Everything a section can do to the map of connections and to the pending jobs.** -/
inductive Change (s : Server) (i : Step) (s' : Server) : Prop
  | keep (hr : registers s i = none) (hc : s'.clients = s.clients)
      (hp : s'.pendingOfflineJobs = s.pendingOfflineJobs) (hj : s'.jobs = s.jobs)
  | enter (u : String) (c : ℕ) (hr : registers s i = some u)
      (hc : s'.clients = Function.update s.clients u (some c))
      (hp : ∀ v, v ≠ u → s'.pendingOfflineJobs v = s.pendingOfflineJobs v) (hj : s'.jobs = s.jobs)
  | replace (u : String) (hr : registers s i = none) (hin : s.clients u ≠ none)
      (hc : s'.clients = Function.update s.clients u none)
      (hp : s'.pendingOfflineJobs = Function.update s.pendingOfflineJobs u none) (hj : s'.jobs = s.jobs)
  | remove (u : String) (hr : registers s i = none) (hin : s.clients u ≠ none)
      (hc : s'.clients = Function.update s.clients u none)
      (hp : s'.pendingOfflineJobs = Function.update s.pendingOfflineJobs u (some s.jobs))
      (hj : s'.jobs = s.jobs + 1) (hu : (s'.job s.jobs).uid = u)
  | drop (k : ℕ) (hr : registers s i = none)
      (hk : s.clients (s.job k).uid ≠ none ∨ i = .confirmOffline k ∧ s.Decides k)
      (hc : s'.clients = s.clients)
      (hp : s'.pendingOfflineJobs = Function.update s.pendingOfflineJobs (s.job k).uid none)
      (hj : s'.jobs = s.jobs) (hd : (s'.job k).status = .done)

theorem change_step (s : Server) (i : Step) : Change s i (step s i) := by
  cases i with
  | handleConnection u =>
    simp only [step, Server.handleConnection]
    cases hc : s.clients u with
    | none =>
      exact .enter u s.conns (by simp [registers, hc]) rfl (fun v hv => Function.update_of_ne hv _ _)
        (stopJob_jobs s u)
    | some e => exact .replace u (by simp [registers, hc]) (by simp [hc]) rfl rfl (stopJob_jobs s u)
  | register c =>
    by_cases hc : c < s.conns ∧ (s.conn c).registered = false
    · simp only [step, Server.register, if_pos hc]
      exact .enter (s.conn c).uid c (by simp [registers, hc]) rfl (fun _ _ => rfl) rfl
    · simp only [step, Server.register, if_neg hc]
      exact .keep (by simp only [registers, if_neg hc]) rfl rfl rfl
  | removeClient c =>
    simp only [step, Server.removeClient]
    split_ifs with hc hin
    · exact .remove (s.conn c).uid rfl (by simp [hin]) rfl rfl rfl (by simp)
    · exact .keep rfl rfl rfl rfl
    · exact .keep rfl rfl rfl rfl
  | fire j =>
    simp only [step, Server.fire]
    split_ifs
    · exact .keep rfl rfl rfl rfl
    · exact .keep rfl rfl rfl rfl
  | confirmOffline j =>
    simp only [step, Server.confirmOffline]
    split_ifs with hj hg hc
    · exact .keep rfl rfl rfl rfl
    · exact .drop j rfl (.inl hc) rfl rfl rfl (by simp)
    · exact .drop j rfl (.inr ⟨rfl, hj.1, hj.2, not_not.mp hg, not_not.mp hc⟩) rfl rfl rfl (by simp)
    · exact .keep rfl rfl rfl rfl

namespace Presence

/-! ### Jobs and registrations -/

/-- The uid of the job `j` has been registered since the disconnect that the job is about. -/
def Missed (x : Presence) (j : ℕ) : Prop := x.since j < x.registrations (x.server.job j).uid

/-- Somebody is in the map for the uid of the job `j`, or the job is not the pending one of its uid. -/
def Overtaken (x : Presence) (j : ℕ) : Prop :=
  x.server.clients (x.server.job j).uid ≠ none ∨ x.server.pendingOfflineJobs (x.server.job j).uid ≠ some j

/-- A job that has not run can tell from the two maps whether its uid has been registered again. -/
structure Counted (x : Presence) : Prop where
  missed : ∀ j < x.server.jobs, (x.server.job j).status ≠ .done → (x.Missed j ↔ x.Overtaken j)
  le : ∀ j < x.server.jobs, x.since j ≤ x.registrations (x.server.job j).uid
  waiting : ∀ notice ∈ x.waiting, notice.job < x.server.jobs

theorem counted_init : Counted {} where
  missed := by simp
  le := by simp
  waiting := by simp

/-- Only `confirmOffline` decides on a notice. -/
theorem mem_decided {s : Server} {i : Registry.Step} {notice : Notice} :
    notice ∈ decided s i ↔
      i = .confirmOffline notice.job ∧ s.Decides notice.job ∧ notice.uid = (s.job notice.job).uid := by
  cases i with
  | confirmOffline j =>
    simp only [decided, Registry.Step.confirmOffline.injEq]
    split_ifs with hd
    · rw [List.mem_singleton]
      constructor
      · rintro rfl
        exact ⟨rfl, hd, rfl⟩
      · rintro ⟨rfl, -, hu⟩
        rw [← hu]
    · refine iff_of_false List.not_mem_nil ?_
      rintro ⟨rfl, hd', -⟩
      exact hd hd'
  | handleConnection u => simp [decided]
  | register c => simp [decided]
  | removeClient c => simp [decided]
  | fire j => simp [decided]

@[simp] theorem step_server (x : Presence) (i : Registry.Step) :
    (x.step (.server i)).server = Registry.step x.server i := rfl

/-- The number of registrations of a job that exists already stays. -/
theorem since_server (x : Presence) (i : Registry.Step) {j : ℕ} (hj : j < x.server.jobs) :
    (x.step (.server i)).since j = x.since j := by
  simp only [step]
  split_ifs
  · rfl
  · rw [Function.update_of_ne hj.ne]

theorem registrations_server (x : Presence) (i : Registry.Step) (u : String) :
    (x.step (.server i)).registrations u =
      if registers x.server i = some u then x.registrations u + 1 else x.registrations u := by
  simp only [step]
  cases registers x.server i with
  | none => simp
  | some v =>
    by_cases hv : v = u
    · subst hv
      simp
    · simp [hv, Ne.symm hv]

theorem missed_server (x : Presence) (i : Registry.Step) {j : ℕ} (hj : j < x.server.jobs) :
    (x.step (.server i)).Missed j ↔
      x.since j < (x.step (.server i)).registrations (x.server.job j).uid := by
  unfold Missed
  rw [x.since_server i hj, step_server, (step_job x.server i hj).1]

theorem overtaken_server (x : Presence) (i : Registry.Step) {j : ℕ} (hj : j < x.server.jobs) :
    (x.step (.server i)).Overtaken j ↔ (Registry.step x.server i).clients (x.server.job j).uid ≠ none ∨
      (Registry.step x.server i).pendingOfflineJobs (x.server.job j).uid ≠ some j := by
  unfold Overtaken
  rw [step_server, (step_job x.server i hj).1]

/-- The jobs that a section finds there: either nothing changes for their uid, or it has been registered
again and the section leaves a trace of that in the maps. -/
theorem missed_older {x : Presence} {i : Registry.Step} (h : Counted x) (hok : InTime x (.server i)) {j : ℕ}
    (hj : j < x.server.jobs) (hst : ((Registry.step x.server i).job j).status ≠ .done) :
    (x.step (.server i)).Missed j ↔ (x.step (.server i)).Overtaken j := by
  have hold : x.Missed j ↔ x.Overtaken j := h.missed j hj ((step_job x.server i hj).2 hst)
  rw [missed_server x i hj, overtaken_server x i hj, x.registrations_server i]
  have hin : ∀ u, x.server.clients u ≠ none → (x.server.job j).uid = u → x.Missed j :=
    fun u hu hju => hold.mpr (.inl (by rw [hju]; exact hu))
  cases change_step x.server i with
  | keep hr hc hp =>
    rw [hr, hc, hp, if_neg (by simp)]
    exact hold
  | enter u c hr hc hp =>
    by_cases hju : (x.server.job j).uid = u
    · rw [hr, if_pos (by rw [hju])]
      have hle := h.le j hj
      exact iff_of_true (by omega) (.inl (by simp [hc, hju]))
    · rw [hr, hc, hp _ hju, if_neg (by simpa using Ne.symm hju), Function.update_of_ne hju]
      exact hold
  | replace u hr hu hc hp =>
    rw [hr, hc, hp, if_neg (by simp)]
    by_cases hju : (x.server.job j).uid = u
    · exact iff_of_true (hin u hu hju) (.inr (by simp [hju]))
    · rw [Function.update_of_ne hju, Function.update_of_ne hju]
      exact hold
  | remove u hr hu hc hp =>
    rw [hr, hc, hp, if_neg (by simp)]
    by_cases hju : (x.server.job j).uid = u
    · exact iff_of_true (hin u hu hju) (.inr (by simpa [hju] using hj.ne'))
    · rw [Function.update_of_ne hju, Function.update_of_ne hju]
      exact hold
  | drop k hr hk hc hp hjobs hd =>
    rw [hr, hc, hp, if_neg (by simp)]
    have hjk : j ≠ k := by
      rintro rfl
      exact hst hd
    by_cases hju : (x.server.job j).uid = (x.server.job k).uid
    · refine iff_of_true ?_ (.inr (by simp [hju]))
      rcases hk with hk | ⟨hi, hk⟩
      · exact hin _ hk hju
      · -- the job that decides is the pending one, so that this one is not
        have hpend := hok.1 ⟨(x.server.job k).uid, k⟩ (mem_decided.mpr ⟨hi, hk, rfl⟩)
        refine hold.mpr (.inr ?_)
        rw [hju, hpend]
        simpa using hjk.symm
    · rw [Function.update_of_ne hju]
      exact hold

theorem le_older {x : Presence} {i : Registry.Step} (h : Counted x) {j : ℕ} (hj : j < x.server.jobs) :
    (x.step (.server i)).since j ≤ (x.step (.server i)).registrations ((Registry.step x.server i).job j).uid := by
  have hle := h.le j hj
  rw [x.since_server i hj, (step_job x.server i hj).1, x.registrations_server i]
  split_ifs <;> omega

/-- A job that a section makes is the pending one of a uid that nobody is in the map for. -/
theorem newer_job {x : Presence} {i : Registry.Step} {j : ℕ} (hj : j < (Registry.step x.server i).jobs)
    (hnew : ¬ j < x.server.jobs) :
    (x.step (.server i)).since j = (x.step (.server i)).registrations ((Registry.step x.server i).job j).uid ∧
      ¬ (x.step (.server i)).Overtaken j := by
  cases change_step x.server i with
  | remove u hr hu hc hp hjobs huid =>
    obtain rfl : j = x.server.jobs := by omega
    refine ⟨?_, ?_⟩
    · rw [x.registrations_server i, if_neg (by simp [hr])]
      simp [step, hjobs]
    · simp [Overtaken, huid, hc, hp]
  | keep _ _ _ hjobs => omega
  | enter _ _ _ _ _ hjobs => omega
  | replace _ _ _ _ _ hjobs => omega
  | drop _ _ _ _ _ hjobs => omega

theorem counted_step (x : Presence) (i : Step) (h : Counted x) (hok : InTime x i) : Counted (x.step i) := by
  cases i with
  | notify n refusing =>
    exact ⟨h.missed, h.le, fun notice hn => h.waiting notice (List.mem_of_mem_eraseIdx hn)⟩
  | server i =>
    refine ⟨fun j hj hst => ?_, fun j hj => ?_, fun notice hn => ?_⟩
    · by_cases hold : j < x.server.jobs
      · exact missed_older h hok hold hst
      · obtain ⟨heq, hno⟩ := newer_job hj hold
        exact iff_of_false (fun hm => absurd heq (Nat.ne_of_lt hm)) hno
    · by_cases hold : j < x.server.jobs
      · exact le_older h hold
      · exact (newer_job hj hold).1.le
    · have hjobs : x.server.jobs ≤ (Registry.step x.server i).jobs := by
        cases change_step x.server i <;> omega
      rcases List.mem_append.mp hn with hn | hn
      · exact (h.waiting notice hn).trans_le hjobs
      · obtain ⟨-, hd, -⟩ := mem_decided.mp hn
        exact hd.1.trans_le hjobs

/-! ### The notices of a run -/

/-- Every notice that waits is truthful. -/
def Truth (x : Presence) : Prop := ∀ notice ∈ x.waiting, x.Truthful notice

/-- A notice that waits stays truthful until its uid is registered. -/
theorem truthful_server {x : Presence} {i : Registry.Step} {notice : Notice} (hj : notice.job < x.server.jobs)
    (ht : x.Truthful notice) : (x.step (.server i)).Truthful notice ↔ registers x.server i ≠ some notice.uid := by
  unfold Truthful at ht ⊢
  rw [x.since_server i hj, x.registrations_server i, ← ht]
  by_cases hr : registers x.server i = some notice.uid
  · simp [hr]
  · simp [hr]

/-- A notice that is decided on is truthful when its job is still the pending one. -/
theorem truthful_decided {x : Presence} (h : Counted x) {i : Registry.Step} {notice : Notice}
    (hn : notice ∈ decided x.server i) :
    (x.step (.server i)).Truthful notice ↔ x.server.pendingOfflineJobs notice.uid = some notice.job := by
  obtain ⟨rfl, ⟨hj, hst, -, hc⟩, hu⟩ := mem_decided.mp hn
  have hmissed : x.Missed notice.job ↔ x.Overtaken notice.job := h.missed _ hj (by rw [hst]; decide)
  have hle := h.le _ hj
  unfold Truthful
  rw [x.since_server _ hj, x.registrations_server _, if_neg (by simp [registers]), hu]
  unfold Missed Overtaken at hmissed
  constructor
  · intro heq
    by_contra hpend
    have := hmissed.mpr (.inr hpend)
    omega
  · intro hpend
    have := mt hmissed.mp (by simp [hc, hpend])
    omega

theorem truth_step (x : Presence) (i : Step) (h : Counted x) (ht : Truth x) : Truth (x.step i) ↔ InTime x i := by
  cases i with
  | notify n refusing =>
    exact iff_of_true (fun notice hn => ht notice (List.mem_of_mem_eraseIdx hn)) trivial
  | server i =>
    constructor
    · intro hall
      refine ⟨fun notice hn => ?_, fun uid hr notice hn hu => ?_⟩
      · exact (truthful_decided h hn).mp (hall notice (List.mem_append_right _ hn))
      · refine (truthful_server (h.waiting notice hn) (ht notice hn)).mp (hall notice (List.mem_append_left _ hn)) ?_
        rw [hu]
        exact hr
    · rintro ⟨hdec, hreg⟩ notice hn
      rcases List.mem_append.mp hn with hn | hn
      · exact (truthful_server (h.waiting notice hn) (ht notice hn)).mpr fun hr => hreg _ hr notice hn rfl
      · exact (truthful_decided h hn).mpr (hdec notice hn)

/-- **The notices of a run are truthful all along it exactly when every step is in time.** -/
theorem truth_iff_inTime (l : List Step) :
    (∀ l', l' <+: l → Truth (run step {} l')) ↔ Meets step InTime {} l :=
  always_iff_meets (fun x i h _ => counted_step x i h) truth_step counted_init (by simp [Truth])

/-- What a section puts into a send queue is a waiting notice. -/
theorem mem_waiting_of_puts {x : Presence} {i : Step} {c : ℕ} {notice : Notice}
    (h : (x.step i).queue c = x.queue c ++ [notice]) : notice ∈ x.waiting := by
  cases i with
  | server i =>
    have hlen := congrArg List.length h
    simp [step] at hlen
  | notify n refusing =>
    have hputs : x.puts n refusing c = [notice] := List.append_cancel_left h
    unfold puts at hputs
    cases hn : x.waiting[n]? with
    | none => simp [hn] at hputs
    | some notice' =>
      simp only [hn] at hputs
      split_ifs at hputs
      rw [← List.singleton_inj.mp hputs]
      exact List.mem_of_getElem? hn

/-- **No false offline**, in every run whose steps are in time: when `notifyUserOffline` puts a message into
a send queue, no connection of the uid has been registered since the disconnect that it is about. -/
theorem no_false_offline (l : List Step) (hl : Meets step InTime {} l) (i : Step) (c : ℕ) (notice : Notice)
    (h : (step (run step {} l) i).queue c = (run step {} l).queue c ++ [notice]) :
    (run step {} l).Truthful notice :=
  (truth_iff_inTime l).mpr hl l (List.prefix_refl l) notice (mem_waiting_of_puts h)

/-- Bob is told that Alice has gone offline. -/
def wentOffline : List Step :=
  [.server (.handleConnection "bob"), .server (.handleConnection "alice"), .server (.removeClient 1),
    .server (.fire 0), .server (.confirmOffline 0)]

theorem bob_is_told : (run step {} wentOffline).Truthful { uid := "alice", job := 0 } :=
  no_false_offline wentOffline (by decide) (.notify 0 []) 0 { uid := "alice", job := 0 } (by decide)

/-- Alice reconnects between the decision and the sending, and Bob is told all the same. -/
theorem told_after_reconnect :
    let x := run step {} (wentOffline ++ [.server (.handleConnection "alice")])
    (x.step (.notify 0 [])).queue 0 = x.queue 0 ++ [{ uid := "alice", job := 0 }] ∧
      x.registrations "alice" = 2 ∧ ¬ x.Truthful { uid := "alice", job := 0 } ∧
      x.server.clients "alice" = some 2 := by
  decide

-- A job that comes late finds its own generation again once the generations have been forgotten.
example :
    let x := run step {} (wentOffline.take 4 ++ [.server (.handleConnection "alice"), .server (.removeClient 2),
      .server (.fire 1), .server (.confirmOffline 1), .server (.handleConnection "alice"),
      .server (.removeClient 3)])
    x.server.Decides 0 ∧ x.server.pendingOfflineJobs "alice" = some 2 ∧ x.since 0 = 1 ∧
      x.registrations "alice" = 3 := by
  decide

end Presence

end PeerCall.Registry
