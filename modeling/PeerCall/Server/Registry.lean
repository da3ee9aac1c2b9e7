import PeerCall.Lib.Runs

/-!
# Server.Registry — the connection registry of the signaling server

`HandleConnection`, `removeClient` and `confirmOffline` of `WebRTCSignalingServer`, one section under
`mutex` at a time.  On a duplicate login `HandleConnection` is two sections: the first one assigns the
generation and takes the old connection out of the map, the second one puts the new connection in.

A uid's sections touch nothing of another uid, so the proof looks at one uid at a time: `slot s uid` is
all the server knows about it, and each section acts on that slot alone.
-/

namespace PeerCall.Registry

open PeerCall.Lib

/-- `WebRTCClient`, as far as the registry goes.  `registered`: the object has been put into the map;
`closed`: its `close()` has been scheduled.  `epoch` counts how often the generations of the uid had been
forgotten when this one was assigned. -/
structure Client where
  uid : String := ""
  generation : ℕ := 0
  epoch : ℕ := 0
  registered : Bool := false
  closed : Bool := false
  deriving DecidableEq, Repr

/-- What the runtime knows of a `time.AfterFunc`: a fired job waits for the mutex, and `Stop` comes too
late for it. -/
inductive JobStatus
  | scheduled | stopped | fired | done
  deriving DecidableEq, Repr

structure OfflineJob where
  uid : String := ""
  generation : ℕ := 0
  status : JobStatus := .scheduled
  deriving DecidableEq, Repr

/-- `Timer.Stop`. -/
def OfflineJob.stop (j : OfflineJob) : OfflineJob :=
  if j.status = .scheduled then { j with status := .stopped } else j

/-- `WebRTCSignalingServer`, with the objects its maps point to: connections and jobs are numbered in the
order they are made. -/
structure Server where
  clients : String → Option ℕ := fun _ => none
  clientGenerations : String → Option ℕ := fun _ => none
  pendingOfflineJobs : String → Option ℕ := fun _ => none
  conn : ℕ → Client := fun _ => {}
  conns : ℕ := 0
  job : ℕ → OfflineJob := fun _ => {}
  jobs : ℕ := 0
  epoch : String → ℕ := fun _ => 0

/-- The value of a map of generations at a missing key is zero. -/
def Server.generation (s : Server) (uid : String) : ℕ := (s.clientGenerations uid).getD 0

/-- `pendingOfflineJobs[uid].Stop()`, if there is one. -/
def Server.stopJob (s : Server) (uid : String) : Server :=
  match s.pendingOfflineJobs uid with
  | none => s
  | some j => { s with job := Function.update s.job j (s.job j).stop }

/-- `HandleConnection` up to its first `Unlock`.  Without an earlier connection this is all of it. -/
def Server.handleConnection (s : Server) (uid : String) : Server :=
  let generation := (s.generation uid + 1) % 2 ^ 64
  let client : Client := { uid := uid, generation := generation, epoch := s.epoch uid }
  let s' : Server :=
    { s.stopJob uid with
      pendingOfflineJobs := Function.update s.pendingOfflineJobs uid none
      clientGenerations := Function.update s.clientGenerations uid (some generation)
      conns := s.conns + 1 }
  match s.clients uid with
  | some existing =>
    { s' with
      clients := Function.update s.clients uid none
      conn := Function.update (Function.update s.conn existing { s.conn existing with closed := true })
        s.conns client }
  | none =>
    { s' with
      clients := Function.update s.clients uid (some s.conns)
      conn := Function.update s.conn s.conns { client with registered := true } }

/-- The second section of a `HandleConnection` that closed an earlier connection. -/
def Server.register (s : Server) (c : ℕ) : Server :=
  if c < s.conns ∧ (s.conn c).registered = false then
    { s with
      clients := Function.update s.clients (s.conn c).uid (some c)
      conn := Function.update s.conn c { s.conn c with registered := true } }
  else s

/-- `removeClient`, called when the read loop of a connection ends; it closes the connection in any case. -/
def Server.removeClient (s : Server) (c : ℕ) : Server :=
  let client := s.conn c
  if c < s.conns ∧ client.registered then
    let s' : Server := { s with conn := Function.update s.conn c { client with closed := true } }
    if s.clients client.uid = some c then
      { s' with
        clients := Function.update s.clients client.uid none
        job := Function.update (s.stopJob client.uid).job s.jobs
          { uid := client.uid, generation := client.generation }
        pendingOfflineJobs := Function.update s.pendingOfflineJobs client.uid (some s.jobs)
        jobs := s.jobs + 1 }
    else s'
  else s

/-- The grace period of a job ends. -/
def Server.fire (s : Server) (j : ℕ) : Server :=
  if j < s.jobs ∧ (s.job j).status = .scheduled then
    { s with job := Function.update s.job j { s.job j with status := .fired } }
  else s

/-- `confirmOffline`, run by a job that has fired. -/
def Server.confirmOffline (s : Server) (j : ℕ) : Server :=
  let uid := (s.job j).uid
  if j < s.jobs ∧ (s.job j).status = .fired then
    let s' : Server := { s with job := Function.update s.job j { s.job j with status := .done } }
    if s.generation uid ≠ (s.job j).generation then s'
    else if s.clients uid ≠ none then
      { s' with pendingOfflineJobs := Function.update s.pendingOfflineJobs uid none }
    else
      { s' with
        pendingOfflineJobs := Function.update s.pendingOfflineJobs uid none
        clientGenerations := Function.update s.clientGenerations uid none
        epoch := Function.update s.epoch uid (s.epoch uid + 1) }
  else s

inductive Step
  | handleConnection (uid : String)
  | register (c : ℕ)
  | removeClient (c : ℕ)
  | fire (j : ℕ)
  | confirmOffline (j : ℕ)
  deriving DecidableEq, Repr

def step (s : Server) : Step → Server
  | .handleConnection uid => s.handleConnection uid
  | .register c => s.register c
  | .removeClient c => s.removeClient c
  | .fire j => s.fire j
  | .confirmOffline j => s.confirmOffline j

/-- No `HandleConnection` of `uid` is between its sections. -/
def Settled (s : Server) (uid : String) : Prop :=
  ∀ c < s.conns, (s.conn c).uid = uid → (s.conn c).registered

instance (s : Server) (uid : String) : Decidable (Settled s uid) := by
  unfold Settled; infer_instance

/-- The steps that leave a `HandleConnection` between its sections alone: no second login of the uid, and
no offline confirmation that takes the generation just assigned for its own.  The counter of the uid must
not wrap around either. -/
def Exclusive (s : Server) : Step → Prop
  | .handleConnection uid => Settled s uid ∧ s.generation uid + 1 < 2 ^ 64
  | .confirmOffline j =>
    j < s.jobs → (s.job j).status = .fired → s.generation (s.job j).uid = (s.job j).generation →
      Settled s (s.job j).uid
  | _ => True

instance (s : Server) (i : Step) : Decidable (Exclusive s i) := by
  cases i <;> (unfold Exclusive; infer_instance)

/-! ### One uid at a time -/

/-- All that the server knows about one uid. -/
@[ext] structure Slot where
  client : Option ℕ
  generation : Option ℕ
  job : Option ℕ
  epoch : ℕ
  conn : ℕ → Option Client

def slot (s : Server) (uid : String) : Slot where
  client := s.clients uid
  generation := s.clientGenerations uid
  job := s.pendingOfflineJobs uid
  epoch := s.epoch uid
  conn c := if c < s.conns ∧ (s.conn c).uid = uid then some (s.conn c) else none

namespace Slot

/-- The first section of `HandleConnection`, for the connection number `c`. -/
def connect (x : Slot) (uid : String) (c : ℕ) : Slot :=
  let generation := (x.generation.getD 0 + 1) % 2 ^ 64
  let client : Client := { uid := uid, generation := generation, epoch := x.epoch }
  match x.client with
  | some existing =>
    { x with
      client := none, generation := some generation, job := none
      conn := Function.update (Function.update x.conn existing
        ((x.conn existing).map fun k => { k with closed := true })) c (some client) }
  | none =>
    { x with
      client := some c, generation := some generation, job := none
      conn := Function.update x.conn c (some { client with registered := true }) }

/-- The second section. -/
def register (x : Slot) (c : ℕ) : Slot :=
  { x with
    client := some c
    conn := Function.update x.conn c ((x.conn c).map fun k => { k with registered := true }) }

/-- `removeClient`, with the number of the job it would make. -/
def remove (x : Slot) (c j : ℕ) : Slot :=
  let conn := Function.update x.conn c ((x.conn c).map fun k => { k with closed := true })
  if x.client = some c then { x with client := none, job := some j, conn := conn } else { x with conn := conn }

/-- `confirmOffline`. -/
def confirm (x : Slot) (generation : ℕ) : Slot :=
  if x.generation.getD 0 ≠ generation then x
  else if x.client ≠ none then { x with job := none }
  else { x with job := none, generation := none, epoch := x.epoch + 1 }

end Slot

section View

variable {s : Server} {u v : String}

theorem slot_conn {c : ℕ} {k : Client} :
    (slot s u).conn c = some k ↔ c < s.conns ∧ (s.conn c).uid = u ∧ s.conn c = k := by
  simp only [slot, Option.ite_none_right_eq_some, Option.some.injEq, and_assoc]

@[simp] theorem stopJob_epoch : (s.stopJob u).epoch = s.epoch := by
  unfold Server.stopJob; split <;> rfl

/-- The entry of the map is one of the uid's own connections. -/
def Owns (s : Server) (uid : String) : Prop :=
  ∀ c, s.clients uid = some c → c < s.conns ∧ (s.conn c).uid = uid

theorem slot_handleConnection (h : Owns s u) :
    slot (s.handleConnection u) u = (slot s u).connect u s.conns := by
  unfold Server.handleConnection Slot.connect
  cases hc : s.clients u with
  | none =>
    simp only [slot, hc, Server.generation, stopJob_epoch]
    ext1 <;> try simp
    funext c
    by_cases hcn : c = s.conns
    · simp [hcn]
    · have hle : c ≤ s.conns ↔ c < s.conns := by omega
      simp [hcn, hle]
  | some e =>
    obtain ⟨he, heu⟩ := h e hc
    simp only [slot, hc, Server.generation, stopJob_epoch]
    ext1 <;> try simp
    funext c
    by_cases hcn : c = s.conns
    · simp [hcn]
    · have hle : c ≤ s.conns ↔ c < s.conns := by omega
      by_cases hce : c = e
      · simp [hce, he, heu, he.ne, he.le]
      · simp [hcn, hle, hce]

theorem slot_handleConnection_ne (h : Owns s u) (hv : v ≠ u) :
    slot (s.handleConnection u) v = slot s v := by
  unfold Server.handleConnection
  cases hc : s.clients u with
  | none =>
    simp only [slot, stopJob_epoch]
    ext1 <;> try simp [hv]
    funext c
    by_cases hcn : c = s.conns
    · simp [hcn, hv.symm]
    · have hle : c ≤ s.conns ↔ c < s.conns := by omega
      simp [hcn, hle]
  | some e =>
    obtain ⟨he, heu⟩ := h e hc
    simp only [slot, stopJob_epoch]
    ext1 <;> try simp [hv]
    funext c
    by_cases hcn : c = s.conns
    · simp [hcn, hv.symm]
    · have hle : c ≤ s.conns ↔ c < s.conns := by omega
      by_cases hce : c = e
      · simp [hce, heu, hv.symm, he.ne]
      · simp [hcn, hle, hce]

/-- A change to one connection that keeps its uid is seen by that uid only. -/
theorem slot_update_conn {c : ℕ} {k : Client} (hc : c < s.conns) (hk : k.uid = (s.conn c).uid) :
    (slot { s with conn := Function.update s.conn c k } v).conn =
      if v = (s.conn c).uid then Function.update (slot s v).conn c (some k) else (slot s v).conn := by
  funext c'
  by_cases hcc : c' = c
  · subst hcc
    by_cases hv : v = (s.conn c').uid
    · simp [slot, hv, hk, hc]
    · simp [slot, hv, hk, Ne.symm hv]
  · split_ifs <;> simp [slot, hcc]

theorem slot_conn_self {c : ℕ} (hc : c < s.conns) : (slot s (s.conn c).uid).conn c = some (s.conn c) :=
  slot_conn.mpr ⟨hc, rfl, rfl⟩

theorem slot_register {c : ℕ} (hc : c < s.conns) (hr : (s.conn c).registered = false) :
    slot (s.register c) v = if v = (s.conn c).uid then (slot s v).register c else slot s v := by
  have hconn := slot_update_conn (v := v) hc (k := { s.conn c with registered := true }) rfl
  rw [Server.register, if_pos ⟨hc, hr⟩]
  by_cases hv : v = (s.conn c).uid
  · subst hv
    rw [if_pos rfl] at hconn ⊢
    refine Slot.ext (by simp [slot, Slot.register]) rfl rfl rfl ?_
    simp only [Slot.register, slot_conn_self hc, Option.map_some]
    exact hconn
  · rw [if_neg hv] at hconn ⊢
    exact Slot.ext (by simp [slot, hv]) rfl rfl rfl hconn

theorem slot_removeClient {c : ℕ} (hc : c < s.conns) (hr : (s.conn c).registered = true) :
    slot (s.removeClient c) v = if v = (s.conn c).uid then (slot s v).remove c s.jobs else slot s v := by
  have hconn := slot_update_conn (v := v) hc (k := { s.conn c with closed := true }) rfl
  unfold Server.removeClient
  dsimp only
  rw [if_pos ⟨hc, hr⟩]
  by_cases hv : v = (s.conn c).uid
  · subst hv
    rw [if_pos rfl] at hconn ⊢
    simp only [Slot.remove, slot_conn_self hc, Option.map_some]
    by_cases hcur : s.clients (s.conn c).uid = some c
    · rw [if_pos hcur, if_pos (by exact hcur)]
      exact Slot.ext (by simp [slot]) rfl (by simp [slot]) rfl hconn
    · rw [if_neg hcur, if_neg (by exact hcur)]
      exact Slot.ext rfl rfl rfl rfl hconn
  · rw [if_neg hv] at hconn ⊢
    split_ifs
    · exact Slot.ext (by simp [slot, hv]) rfl (by simp [slot, hv]) rfl hconn
    · exact Slot.ext rfl rfl rfl rfl hconn

theorem slot_fire (j : ℕ) : slot (s.fire j) v = slot s v := by
  unfold Server.fire
  split_ifs <;> rfl

theorem slot_confirmOffline (j : ℕ) :
    slot (s.confirmOffline j) v = slot s v ∨
      j < s.jobs ∧ (s.job j).status = .fired ∧ v = (s.job j).uid ∧
        slot (s.confirmOffline j) v = (slot s v).confirm (s.job j).generation := by
  unfold Server.confirmOffline
  by_cases hj : j < s.jobs ∧ (s.job j).status = .fired
  · simp only [if_pos hj]
    by_cases hv : v = (s.job j).uid
    · refine Or.inr ⟨hj.1, hj.2, hv, ?_⟩
      subst hv
      rw [show ∀ g, (slot s (s.job j).uid).confirm g =
        if s.generation (s.job j).uid ≠ g then slot s (s.job j).uid
        else if s.clients (s.job j).uid ≠ none then { slot s (s.job j).uid with job := none }
        else { slot s (s.job j).uid with job := none, generation := none, epoch := s.epoch (s.job j).uid + 1 }
        from fun _ => rfl]
      split_ifs
      · rfl
      · exact Slot.ext rfl rfl (by simp [slot]) rfl rfl
      · exact Slot.ext rfl (by simp [slot]) (by simp [slot]) (by simp [slot]) rfl
    · refine Or.inl ?_
      split_ifs
      · rfl
      · ext1 <;> simp [slot, hv]
      · ext1 <;> simp [slot, hv]
  · simp [if_neg hj]

end View

/-! ### The invariant of a slot -/

/-- What holds of a uid at any time: the connection in the map, or the one between its sections, is the
latest one and has the current generation, and everything older has been told to close. -/
structure Slot.Inv (x : Slot) : Prop where
  known : ∀ c, x.client = some c → ∃ k, x.conn c = some k ∧ k.registered
  latest : ∀ c k, x.conn c = some k → x.client = some c ∨ k.registered = false →
    x.generation = some k.generation ∧ k.epoch = x.epoch ∧ ∀ c' k', x.conn c' = some k' → c' ≤ c
  vacant : ∀ c k, x.conn c = some k → k.registered = false → x.client = none ∧ x.job = none
  superseded : ∀ c k, x.conn c = some k → k.registered → x.client ≠ some c → k.closed
  offline : x.job ≠ none → x.client = none
  order : ∀ c k c' k', x.conn c = some k → x.conn c' = some k' → c' < c → k'.epoch = k.epoch →
    k'.generation < k.generation
  bound : ∀ c k, x.conn c = some k → k.epoch ≤ x.epoch ∧
    (k.epoch = x.epoch → ∃ g, x.generation = some g ∧ k.generation ≤ g)

namespace Slot

variable {x : Slot}

/-- Every connection of the uid has been through both its sections. -/
def Settled (x : Slot) : Prop := ∀ c k, x.conn c = some k → k.registered

/-- One connection changes its `registered` or `closed`. -/
theorem update_conn {c c' : ℕ} {f : Client → Client} {k' : Client} :
    Function.update x.conn c ((x.conn c).map f) c' = some k' ↔
      ∃ k, x.conn c' = some k ∧ k' = if c' = c then f k else k := by
  by_cases h : c' = c
  · subst h
    simp [eq_comm]
  · simp [h, eq_comm]

/-- A slot with a new connection `k`, in the map or between its sections, whose older connections have
all been told to close. -/
theorem inv_of_new (h : Inv x) {c : ℕ} (hfresh : ∀ c' k', x.conn c' = some k' → c' < c) {y : Slot} {k : Client}
    (hk : y.conn c = some k) (hkg : k.generation = x.generation.getD 0 + 1) (hke : k.epoch = x.epoch)
    (hold : ∀ c' k', y.conn c' = some k' → c' = c ∧ k' = k ∨
      ∃ k₀, x.conn c' = some k₀ ∧ k'.generation = k₀.generation ∧ k'.epoch = k₀.epoch ∧ k'.registered ∧ k'.closed)
    (hcl : y.client = if k.registered then some c else none) (hgen : y.generation = some k.generation)
    (hjob : y.job = none) (hepoch : y.epoch = x.epoch) : Inv y := by
  have hlt : ∀ c' k', x.conn c' = some k' → k'.epoch = x.epoch → k'.generation < k.generation := by
    intro c' k' hk' he
    obtain ⟨g, hg, hle⟩ := (h.bound c' k' hk').2 he
    rw [hkg, hg, Option.getD_some]
    omega
  have hmax : ∀ c' k', y.conn c' = some k' → c' ≤ c := by
    intro c' k' hk'
    rcases hold c' k' hk' with ⟨rfl, -⟩ | ⟨k₀, hk₀, -⟩
    · exact le_refl _
    · exact (hfresh c' k₀ hk₀).le
  constructor
  case known =>
    intro c' hc'
    rw [hcl] at hc'
    split_ifs at hc' with hr
    obtain rfl := Option.some.inj hc'
    exact ⟨k, hk, hr⟩
  case latest =>
    intro c' k' hk' hor
    rcases hold c' k' hk' with ⟨rfl, rfl⟩ | ⟨k₀, hk₀, -, -, hr, -⟩
    · exact ⟨hgen, hke.trans hepoch.symm, hmax⟩
    · rcases hor with hc' | hr'
      · rw [hcl] at hc'
        split_ifs at hc'
        obtain rfl := Option.some.inj hc'
        exact absurd (hfresh c k₀ hk₀) (lt_irrefl c)
      · simp [hr] at hr'
  case vacant =>
    intro c' k' hk' hr
    rcases hold c' k' hk' with ⟨rfl, rfl⟩ | ⟨k₀, hk₀, -, -, hr', -⟩
    · exact ⟨by simp [hcl, hr], hjob⟩
    · simp [hr] at hr'
  case superseded =>
    intro c' k' hk' hr hne
    rcases hold c' k' hk' with ⟨rfl, rfl⟩ | ⟨k₀, hk₀, -, -, -, hclosed⟩
    · exact absurd (by simp [hcl, hr]) hne
    · exact hclosed
  case offline => exact fun hj => absurd hjob hj
  case order =>
    intro a ka b kb ha hb hba he
    rcases hold a ka ha with ⟨rfl, rfl⟩ | ⟨ka₀, hka₀, hga, hea, -⟩
    · rcases hold b kb hb with ⟨rfl, -⟩ | ⟨kb₀, hkb₀, hgb, heb, -⟩
      · exact absurd hba (lt_irrefl _)
      · rw [hgb]
        exact hlt b kb₀ hkb₀ (by rw [← heb, he, hke])
    · rcases hold b kb hb with ⟨rfl, -⟩ | ⟨kb₀, hkb₀, hgb, heb, -⟩
      · exact absurd (hba.trans (hfresh a ka₀ hka₀)) (lt_irrefl _)
      · rw [hga, hgb]
        exact h.order a ka₀ b kb₀ hka₀ hkb₀ hba (by rw [← hea, ← heb, he])
  case bound =>
    intro c' k' hk'
    rw [hepoch]
    rcases hold c' k' hk' with ⟨rfl, rfl⟩ | ⟨k₀, hk₀, hg, he, -⟩
    · exact ⟨hke.le, fun _ => ⟨_, hgen, le_refl _⟩⟩
    · rw [he, hg]
      exact ⟨(h.bound c' k₀ hk₀).1, fun hee => ⟨_, hgen, (hlt c' k₀ hk₀ hee).le⟩⟩

theorem inv_connect (h : Inv x) (uid : String) {c : ℕ} (hfresh : ∀ c' k', x.conn c' = some k' → c' < c)
    (hset : x.Settled) (hwrap : x.generation.getD 0 + 1 < 2 ^ 64) : Inv (x.connect uid c) := by
  have hgen : (x.generation.getD 0 + 1) % 2 ^ 64 = x.generation.getD 0 + 1 := Nat.mod_eq_of_lt hwrap
  unfold connect
  cases hcl : x.client with
  | none =>
    refine inv_of_new h hfresh (c := c) (by simp; rfl) hgen rfl (fun c' k' hk' => ?_) rfl rfl rfl rfl
    by_cases hc : c' = c
    · subst hc
      exact Or.inl ⟨rfl, by simpa [eq_comm] using hk'⟩
    · have hk : x.conn c' = some k' := by simpa [hc] using hk'
      have hr := hset c' k' hk
      exact Or.inr ⟨k', hk, rfl, rfl, hr, h.superseded c' k' hk hr (by simp [hcl])⟩
  | some e =>
    refine inv_of_new h hfresh (c := c) (by simp; rfl) hgen rfl (fun c' k' hk' => ?_) rfl rfl rfl rfl
    by_cases hc : c' = c
    · subst hc
      exact Or.inl ⟨rfl, by simpa [eq_comm] using hk'⟩
    · simp only [Function.update_of_ne hc] at hk'
      obtain ⟨k, hk, rfl⟩ := update_conn.mp hk'
      have hr := hset c' k hk
      refine Or.inr ⟨k, hk, ?_⟩
      by_cases hce : c' = e
      · simp [hce, hr]
      · simpa [hce, hr] using h.superseded c' k hk hr (by simp [hcl, Ne.symm hce])

/-- Setting `registered` or `closed` of one connection leaves generations and epochs alone. -/
theorem order_of_update (h : Inv x) {y : Slot} {c : ℕ} {f : Client → Client}
    (hconn : y.conn = Function.update x.conn c ((x.conn c).map f))
    (hf : ∀ k, (f k).generation = k.generation ∧ (f k).epoch = k.epoch) :
    ∀ a ka b kb, y.conn a = some ka → y.conn b = some kb → b < a → kb.epoch = ka.epoch →
      kb.generation < ka.generation := by
  have hsame : ∀ c' k', y.conn c' = some k' →
      ∃ k, x.conn c' = some k ∧ k'.generation = k.generation ∧ k'.epoch = k.epoch := by
    intro c' k' hk'
    rw [hconn] at hk'
    obtain ⟨k, hk, rfl⟩ := update_conn.mp hk'
    refine ⟨k, hk, ?_⟩
    split_ifs
    · exact hf k
    · exact ⟨rfl, rfl⟩
  intro a ka b kb ha hb hba he
  obtain ⟨ka₀, hka₀, hga, hea⟩ := hsame a ka ha
  obtain ⟨kb₀, hkb₀, hgb, heb⟩ := hsame b kb hb
  rw [hga, hgb]
  exact h.order a ka₀ b kb₀ hka₀ hkb₀ hba (by rw [← hea, ← heb, he])

theorem inv_register (h : Inv x) {c : ℕ} {k : Client} (hk : x.conn c = some k)
    (hr : k.registered = false) : Inv (x.register c) := by
  obtain ⟨hgen, hepoch, hmax⟩ := h.latest c k hk (Or.inr hr)
  obtain ⟨hvac, hjob⟩ := h.vacant c k hk hr
  -- the connection that registers is the only one between its sections
  have hother : ∀ {c' k'}, x.conn c' = some k' → c' ≠ c → k'.registered := by
    intro c' k' hk' hne
    by_contra hr'
    have hle := (h.latest c' k' hk' (Or.inr (by simpa using hr'))).2.2 c k hk
    exact hne (le_antisymm (hmax c' k' hk') hle)
  unfold register
  constructor
  case known =>
    rintro c' hc'
    obtain rfl := Option.some.inj hc'
    exact ⟨_, update_conn.mpr ⟨k, hk, rfl⟩, by simp⟩
  case latest =>
    intro c' k' hk' hor
    obtain ⟨k₀, hk₀, rfl⟩ := update_conn.mp hk'
    by_cases hc : c' = c
    · subst hc
      obtain rfl : k₀ = k := Option.some.inj (hk₀.symm.trans hk)
      refine ⟨by simpa using hgen, by simpa using hepoch, fun c'' k'' hk'' => ?_⟩
      obtain ⟨k₁, hk₁, -⟩ := update_conn.mp hk''
      exact hmax c'' k₁ hk₁
    · rcases hor with hc' | hr'
      · exact absurd (Option.some.inj hc').symm hc
      · simp [hc, hother hk₀ hc] at hr'
  case vacant =>
    intro c' k' hk' hr'
    obtain ⟨k₀, hk₀, rfl⟩ := update_conn.mp hk'
    by_cases hc : c' = c
    · simp [hc] at hr'
    · simp [hc, hother hk₀ hc] at hr'
  case superseded =>
    intro c' k' hk' hr' hne
    obtain ⟨k₀, hk₀, rfl⟩ := update_conn.mp hk'
    have hc : c' ≠ c := fun hc => hne (by rw [hc])
    simpa [hc] using h.superseded c' k₀ hk₀ (hother hk₀ hc) (by simp [hvac])
  case offline => exact fun hj => absurd hjob hj
  case order => exact order_of_update h rfl (fun k => ⟨rfl, rfl⟩)
  case bound =>
    intro c' k' hk'
    obtain ⟨k₀, hk₀, rfl⟩ := update_conn.mp hk'
    by_cases hc : c' = c <;> simpa [hc] using h.bound c' k₀ hk₀

/-- The connections of the slot, with `c` told to close. -/
def closing (x : Slot) (c : ℕ) : ℕ → Option Client :=
  Function.update x.conn c ((x.conn c).map fun k => { k with closed := true })

theorem closing_some {c c' : ℕ} {k' : Client} (hk' : x.closing c c' = some k') :
    ∃ k, x.conn c' = some k ∧ k'.registered = k.registered ∧ k'.generation = k.generation ∧
      k'.epoch = k.epoch ∧ (c' = c → k'.closed) ∧ (c' ≠ c → k' = k) := by
  obtain ⟨k, hk, rfl⟩ := update_conn.mp hk'
  refine ⟨k, hk, ?_⟩
  by_cases hc : c' = c <;> simp [hc]

theorem closing_bound (h : Inv x) (c : ℕ) : ∀ c' k', x.closing c c' = some k' →
    k'.epoch ≤ x.epoch ∧ (k'.epoch = x.epoch → ∃ g, x.generation = some g ∧ k'.generation ≤ g) := by
  intro c' k' hk'
  obtain ⟨k, hk, -, hg, he, -⟩ := closing_some hk'
  rw [he, hg]
  exact h.bound c' k hk

/-- The connection in the map is removed.  Then none is between its sections. -/
theorem inv_remove_current (h : Inv x) {c : ℕ} (hcur : x.client = some c) (j : ℕ) :
    Inv { x with client := none, job := some j, conn := x.closing c } := by
  have hall : ∀ {c' : ℕ} {k : Client}, x.conn c' = some k → k.registered = true := by
    intro c' k hk
    by_contra hr'
    have := (h.vacant c' k hk (by simpa using hr')).1
    simp [hcur] at this
  constructor
  case known => exact fun c' hc' => absurd hc' (by simp)
  case latest =>
    intro c' k' hk' hor
    obtain ⟨k, hk, hr, -⟩ := closing_some hk'
    rw [hr, hall hk] at hor
    simp at hor
  case vacant =>
    intro c' k' hk' hr'
    obtain ⟨k, hk, hr, -⟩ := closing_some hk'
    rw [hr, hall hk] at hr'
    simp at hr'
  case superseded =>
    intro c' k' hk' hr' _
    obtain ⟨k, hk, -, -, -, hclosed, hsame⟩ := closing_some hk'
    by_cases hc : c' = c
    · exact hclosed hc
    · rw [hsame hc]
      exact h.superseded c' k hk (hall hk) (by simp [hcur, Ne.symm hc])
  case offline => exact fun _ => rfl
  case order => exact order_of_update h rfl (fun k => ⟨rfl, rfl⟩)
  case bound => exact closing_bound h c

/-- A registered connection that is not in the map is closed. -/
theorem inv_remove_other (h : Inv x) {c : ℕ} {k : Client} (hk : x.conn c = some k) (hr : k.registered)
    (hcur : x.client ≠ some c) : Inv { x with conn := x.closing c } := by
  -- the connection that is closed has been through both its sections
  have hunreg : ∀ {c' : ℕ} {k₀ : Client}, x.conn c' = some k₀ → k₀.registered = false → c' ≠ c := by
    rintro c' k₀ hk₀ hr' rfl
    obtain rfl : k₀ = k := Option.some.inj (hk₀.symm.trans hk)
    simp [hr] at hr'
  constructor
  case known =>
    intro c' hc'
    obtain ⟨k₀, hk₀, hr₀⟩ := h.known c' hc'
    refine ⟨_, update_conn.mpr ⟨k₀, hk₀, rfl⟩, ?_⟩
    split_ifs <;> exact hr₀
  case latest =>
    intro c' k' hk' hor
    obtain ⟨k₀, hk₀, hr₀, -, -, -, hsame⟩ := closing_some hk'
    rw [hr₀] at hor
    have hc : c' ≠ c := hor.elim (fun hc' hcc => hcur (hcc ▸ hc')) (hunreg hk₀)
    obtain ⟨hgen, hepoch, hmax⟩ := h.latest c' k₀ hk₀ hor
    rw [hsame hc]
    refine ⟨hgen, hepoch, fun c'' k'' hk'' => ?_⟩
    obtain ⟨k₁, hk₁, -⟩ := closing_some hk''
    exact hmax c'' k₁ hk₁
  case vacant =>
    intro c' k' hk' hr'
    obtain ⟨k₀, hk₀, hr₀, -⟩ := closing_some hk'
    rw [hr₀] at hr'
    exact h.vacant c' k₀ hk₀ hr'
  case superseded =>
    intro c' k' hk' hr' hne
    obtain ⟨k₀, hk₀, hr₀, -, -, hclosed, hsame⟩ := closing_some hk'
    rw [hr₀] at hr'
    by_cases hc : c' = c
    · exact hclosed hc
    · rw [hsame hc]
      exact h.superseded c' k₀ hk₀ hr' hne
  case offline => exact h.offline
  case order => exact order_of_update h rfl (fun k => ⟨rfl, rfl⟩)
  case bound => exact closing_bound h c

theorem inv_remove (h : Inv x) {c : ℕ} {k : Client} (hk : x.conn c = some k) (hr : k.registered)
    (j : ℕ) : Inv (x.remove c j) := by
  unfold remove
  by_cases hcur : x.client = some c
  · simp only [if_pos hcur]
    exact inv_remove_current h hcur j
  · simp only [if_neg hcur]
    exact inv_remove_other h hk hr hcur

theorem inv_confirm (h : Inv x) (g : ℕ) (hset : x.generation.getD 0 = g → x.Settled) :
    Inv (x.confirm g) := by
  unfold confirm
  by_cases hg : x.generation.getD 0 = g
  · rw [if_neg (not_not.mpr hg)]
    by_cases hc : x.client = none
    · rw [if_neg (not_not.mpr hc)]
      -- nobody is in the map or between the sections: the uid is forgotten
      have hall : ∀ c k, x.conn c = some k → ¬ (x.client = some c ∨ k.registered = false) := by
        intro c k hk hor
        rcases hor with hcur | hr
        · simp [hc] at hcur
        · simp [hset hg c k hk] at hr
      refine ⟨h.known, fun c k hk hor => absurd hor (hall c k hk),
        fun c k hk hr => absurd (Or.inr hr) (hall c k hk), h.superseded, by simp, h.order, fun c k hk => ?_⟩
      have := (h.bound c k hk).1
      exact ⟨by dsimp only; omega, fun he => by dsimp only at he; omega⟩
    · rw [if_pos hc]
      exact ⟨h.known, h.latest, fun c k hk hr => ⟨(h.vacant c k hk hr).1, rfl⟩, h.superseded, by simp,
        h.order, h.bound⟩
  · rw [if_pos hg]
    exact h

end Slot

/-! ### The server -/

/-- Every uid's slot is in order. -/
def Inv (s : Server) : Prop := ∀ uid, (slot s uid).Inv

theorem Inv.owns {s : Server} (h : Inv s) (uid : String) : Owns s uid := by
  intro c hc
  obtain ⟨k, hk, -⟩ := (h uid).known c hc
  obtain ⟨hlt, huid, -⟩ := slot_conn.mp hk
  exact ⟨hlt, huid⟩

theorem settled_slot {s : Server} {uid : String} (h : Settled s uid) : (slot s uid).Settled := by
  intro c k hk
  obtain ⟨hlt, huid, rfl⟩ := slot_conn.mp hk
  exact h c hlt huid

theorem inv_step (s : Server) (i : Step) (h : Inv s) (hok : Exclusive s i) : Inv (step s i) := by
  intro v
  cases i with
  | handleConnection u =>
    simp only [step]
    by_cases hv : v = u
    · subst hv
      rw [slot_handleConnection (h.owns v)]
      refine Slot.inv_connect (h v) v ?_ (settled_slot hok.1) hok.2
      exact fun c k hk => (slot_conn.mp hk).1
    · rw [slot_handleConnection_ne (h.owns u) hv]
      exact h v
  | register c =>
    simp only [step]
    by_cases hc : c < s.conns ∧ (s.conn c).registered = false
    · rw [slot_register hc.1 hc.2]
      split_ifs with hv
      · subst hv
        exact Slot.inv_register (h _) (slot_conn_self hc.1) hc.2
      · exact h v
    · rw [Server.register, if_neg hc]
      exact h v
  | removeClient c =>
    simp only [step]
    by_cases hc : c < s.conns ∧ (s.conn c).registered = true
    · rw [slot_removeClient hc.1 hc.2]
      split_ifs with hv
      · subst hv
        exact Slot.inv_remove (h _) (slot_conn_self hc.1) hc.2 _
      · exact h v
    · unfold Server.removeClient
      dsimp only
      rw [if_neg hc]
      exact h v
  | fire j =>
    simp only [step, slot_fire]
    exact h v
  | confirmOffline j =>
    simp only [step]
    rcases slot_confirmOffline (s := s) (v := v) j with heq | ⟨hj, hst, rfl, heq⟩
    · rw [heq]
      exact h v
    · rw [heq]
      exact Slot.inv_confirm (h _) _ fun hg => settled_slot (hok hj hst hg)

theorem inv_init : Inv {} := by
  intro uid
  have hnone : ∀ c, (slot {} uid).conn c = none := by simp [slot]
  exact ⟨by simp [slot], by simp [hnone], by simp [hnone], by simp [hnone], by simp [slot], by simp [hnone],
    by simp [hnone]⟩

/-- What the registry is for.  The connection in the map is the last one to log in, with the highest
generation since the uid's generations were last forgotten, which is the one on record; every other one
that was registered has been told to close; removing one connection does not touch another; and an
offline notification is only pending for a uid without a connection. -/
structure LatestWins (s : Server) (uid : String) : Prop where
  current : ∀ c, s.clients uid = some c → (s.conn c).uid = uid ∧
    s.clientGenerations uid = some (s.conn c).generation ∧
    ∀ c' < s.conns, (s.conn c').uid = uid → c' ≠ c →
      c' < c ∧ ((s.conn c').epoch = s.epoch uid → (s.conn c').generation < (s.conn c).generation)
  superseded : ∀ c < s.conns, (s.conn c).uid = uid → (s.conn c).registered → s.clients uid ≠ some c →
    (s.conn c).closed
  removal : ∀ c, s.clients uid ≠ some c → (s.removeClient c).clients uid = s.clients uid
  offline : s.pendingOfflineJobs uid ≠ none → s.clients uid = none

theorem removeClient_other {s : Server} {uid : String} {c : ℕ} (h : s.clients uid ≠ some c) :
    (s.removeClient c).clients uid = s.clients uid := by
  unfold Server.removeClient
  dsimp only
  split_ifs with hc hcur
  · have hne : uid ≠ (s.conn c).uid := by
      rintro rfl
      exact h hcur
    simp [hne]
  · rfl
  · rfl

/-- **Latest connection wins.**  In every run in which no login and no matching offline confirmation of a
uid falls between the two sections of another login of it. -/
theorem latest_connection_wins (l : List Step) (hl : Meets step Exclusive {} l) (uid : String) :
    LatestWins (run step {} l) uid := by
  have hinv : Inv (run step {} l) := run_invariant inv_step inv_init hl
  generalize run step {} l = s at hinv
  have h := hinv uid
  refine ⟨fun c hc => ?_, fun c hlt hu hr hne => ?_, fun c => removeClient_other, h.offline⟩
  · obtain ⟨hlt, hu⟩ := hinv.owns uid c hc
    have hk : (slot s uid).conn c = some (s.conn c) := slot_conn.mpr ⟨hlt, hu, rfl⟩
    obtain ⟨hgen, hepoch, hmax⟩ := h.latest c _ hk (Or.inl hc)
    refine ⟨hu, hgen, fun c' hlt' hu' hne => ?_⟩
    have hk' : (slot s uid).conn c' = some (s.conn c') := slot_conn.mpr ⟨hlt', hu', rfl⟩
    have hcc : c' < c := lt_of_le_of_ne (hmax c' _ hk') hne
    exact ⟨hcc, fun he => h.order c _ c' _ hk hk' hcc (he.trans hepoch.symm)⟩
  · exact h.superseded c _ (slot_conn.mpr ⟨hlt, hu, rfl⟩) hr hne

/-- A duplicate login, a disconnection and a return after the grace period. -/
theorem duplicate_login_wins :
    let l : List Step := [.handleConnection "alice", .handleConnection "alice", .removeClient 0, .register 1,
      .removeClient 1, .fire 0, .confirmOffline 0, .handleConnection "alice"]
    (run step {} l).clients "alice" = some 2 ∧ LatestWins (run step {} l) "alice" :=
  ⟨by decide, latest_connection_wins _ (by decide) "alice"⟩

/-- The connection in the map has the highest of all generations the uid's connections were ever given. -/
def HighestEver (s : Server) (uid : String) : Prop :=
  ∀ c, s.clients uid = some c → ∀ c' < s.conns, (s.conn c').uid = uid →
    (s.conn c').generation ≤ (s.conn c).generation

/-- **Not the highest generation ever assigned**: after a confirmed absence the numbering starts again, and
a third login that registers at once is overwritten by the second one. -/
theorem highest_generation_loses :
    let restarted : List Step := [.handleConnection "alice", .handleConnection "alice", .register 1,
      .removeClient 1, .fire 0, .confirmOffline 0, .handleConnection "alice"]
    let overlapping : List Step := [.handleConnection "alice", .handleConnection "alice",
      .handleConnection "alice", .register 1]
    (Meets step Exclusive {} restarted ∧ Settled (run step {} restarted) "alice" ∧
      ¬ HighestEver (run step {} restarted) "alice") ∧
    (Settled (run step {} overlapping) "alice" ∧ ¬ HighestEver (run step {} overlapping) "alice") := by
  refine ⟨⟨by decide, by decide, fun hhigh => ?_⟩, by decide, fun hhigh => ?_⟩
  · have hle := hhigh 2 (by decide) 1 (by decide) (by decide)
    exact absurd hle (by decide)
  · have hle := hhigh 1 (by decide) 2 (by decide) (by decide)
    exact absurd hle (by decide)

/-- The other gap of the two sections: an offline confirmation that waited for the mutex while the generations of the
uid were forgotten and counted up again. -/
example :
    let s := run step {} [.handleConnection "alice", .handleConnection "alice", .register 1, .removeClient 1,
      .fire 0, .handleConnection "alice", .removeClient 2, .fire 1, .confirmOffline 1,
      .handleConnection "alice", .handleConnection "alice", .confirmOffline 0, .register 4]
    s.clients "alice" = some 4 ∧ s.clientGenerations "alice" = none := by
  decide

end PeerCall.Registry
