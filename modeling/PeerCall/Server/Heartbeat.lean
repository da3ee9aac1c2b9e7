import PeerCall.Lib.Runs

/-!
# Server.Heartbeat — the two pumps of a connection against the clock

`readPump` lets a read take sixty seconds, and only a pong gives it sixty more.  `writePump` writes what is sent and, at
each tick of fifty-four seconds, a ping; a write may take ten seconds.  The first of them that ends closes the
connection, `readPump` takes the client off the map.  A step `wait` lets one unit of time pass; a second has any number
of them.  What is due is done within `lag`.

* `responsive_kept`: **a peer whose pong is read in time is not dropped**: less than six seconds after the tick.
* `silent_removed`: **without a pong a client is registered for sixty seconds**, whatever else it sends.
* `pumps_end`: **both pumps end**, at the next tick at the latest after the connection has been closed.
-/

namespace PeerCall.Heartbeat

open PeerCall.Lib

/-- Where `readPump` is: in `ReadMessage`, or past its loop since a time. -/
inductive Reader
  | starting
  | reading
  | removing (since : ℕ)
  | ended
  deriving DecidableEq, Repr

/-- Where `writePump` is: at its `select`, in `WriteMessage`, or past its loop. -/
inductive Writer
  | starting
  | selecting (since : ℕ)
  | writing (since deadline : ℕ)
  | closing (since : ℕ)
  | ended
  deriving DecidableEq, Repr

/-- A connection with its pumps, from when it is registered on; `tick`: the tick that waits in the ticker's channel;
`registered`: the client is in the map; `closed`: when `conn.Close()` was called; `heard`: when the read deadline was
set; `owed`: the first tick since which no pong has been read. -/
structure Pumps where
  now : ℕ := 0
  reader : Reader := .starting
  readDeadline : ℕ := 0
  writer : Writer := .starting
  nextTick : ℕ := 0
  tick : Option ℕ := none
  registered : Bool := true
  closed : Option ℕ := none
  heard : ℕ := 0
  owed : Option ℕ := none
  deriving DecidableEq, Repr

/-- `replaced`, `closeOld`: another login of the uid takes the client off the map, and closes it in a goroutine of its
own. -/
inductive Step
  | wait
  | startReader | pong | message | timeout | readError | remove
  | startWriter | tick | ping | send | written | writeError | close
  | replaced | closeOld
  deriving DecidableEq, Repr

/-- Something else than the clock ends the connection. -/
def Step.fails : Step → Bool
  | .readError | .writeError | .replaced => true
  | _ => false

section Clock

variable (second : ℕ)

def readWait : ℕ := 60 * second

def pingPeriod : ℕ := 54 * second

def writeWait : ℕ := 10 * second

namespace Pumps

/-- `close`, by whoever comes first. -/
def shut (x : Pumps) : Pumps := { x with closed := x.closed.or (some x.now) }

/-- A frame of the peer can be read. -/
def Reads (x : Pumps) : Prop := x.reader = .reading ∧ x.closed = none ∧ x.now < x.readDeadline

instance (x : Pumps) : Decidable x.Reads := inferInstanceAs (Decidable (_ ∧ _))

def step (x : Pumps) : Step → Pumps
  | .wait => { x with now := x.now + 1 }
  | .startReader =>
    if x.reader = .starting then { x with reader := .reading, readDeadline := x.now + readWait second, heard := x.now }
    else x
  | .pong => if x.Reads then { x with readDeadline := x.now + readWait second, heard := x.now, owed := none } else x
  | .message => x
  | .timeout => if x.reader = .reading ∧ x.readDeadline ≤ x.now then { x with reader := .removing x.now } else x
  | .readError => if x.reader = .reading then { x with reader := .removing x.now } else x
  | .remove =>
    match x.reader with
    | .removing _ => { x with registered := false, reader := .ended }.shut
    | _ => x
  | .startWriter =>
    if x.writer = .starting then { x with writer := .selecting x.now, nextTick := x.now + pingPeriod second } else x
  | .tick =>
    match x.writer with
    | .selecting _ | .writing _ _ =>
      if x.nextTick ≤ x.now then
        { x with
          tick := x.tick.or (some x.now), nextTick := x.nextTick + pingPeriod second
          owed := x.owed.or (some x.now) }
      else x
    | _ => x
  | .ping =>
    match x.writer with
    | .selecting _ =>
      if x.tick.isSome then { x with tick := none, writer := .writing x.now (x.now + writeWait second) } else x
    | _ => x
  | .send =>
    match x.writer with
    | .selecting _ => { x with writer := .writing x.now (x.now + writeWait second) }
    | _ => x
  | .written =>
    match x.writer with
    | .writing _ deadline => if x.closed = none ∧ x.now < deadline then { x with writer := .selecting x.now } else x
    | _ => x
  | .writeError =>
    match x.writer with
    | .writing _ _ => { x with writer := .closing x.now }
    | _ => x
  | .close =>
    match x.writer with
    | .closing _ => { x with writer := .ended }.shut
    | _ => x
  | .replaced => { x with registered := false }
  | .closeOld => if x.registered then x else x.shut

/-! ### What is due -/

/-- Since when the reader can go on. -/
def readerDue (x : Pumps) : Option ℕ :=
  match x.reader with
  | .starting => some 0
  | .reading => some (x.closed.elim x.readDeadline (min x.readDeadline))
  | .removing since => some since
  | .ended => none

/-- Since when the writer can go on. -/
def writerDue (x : Pumps) : Option ℕ :=
  match x.writer with
  | .starting => some 0
  | .selecting since => x.tick.map (max since)
  | .writing since deadline => some (x.closed.elim deadline fun c => min deadline (max since c))
  | .closing since => some since
  | .ended => none

/-- Since when the ticker can go on. -/
def tickerDue (x : Pumps) : Option ℕ :=
  match x.writer with
  | .selecting _ | .writing _ _ => some x.nextTick
  | _ => none

/-- Time passes only as long as neither of the pumps nor the ticker is late by `lag`. -/
def Scheduled (lag : ℕ) (x : Pumps) : Step → Prop
  | .wait =>
    (∀ t ∈ x.readerDue, x.now < t + lag) ∧ (∀ t ∈ x.writerDue, x.now < t + lag) ∧ ∀ t ∈ x.tickerDue, x.now < t + lag
  | _ => True

instance (lag : ℕ) (x : Pumps) (i : Step) : Decidable (x.Scheduled lag i) := by
  unfold Scheduled; split <;> infer_instance

/-- A pong is read within `reply` of the tick. -/
def Prompt (reply : ℕ) (x : Pumps) : Step → Prop
  | .wait => ∀ t ∈ x.owed, x.now + 1 < t + reply
  | _ => True

instance (reply : ℕ) (x : Pumps) (i : Step) : Decidable (x.Prompt reply i) := by
  unfold Prompt; split <;> infer_instance

/-! ### Time and the pumps -/

/-- Where the reader is, it has not been for longer than it may. -/
def ReaderOk (lag : ℕ) (x : Pumps) : Prop :=
  match x.reader with
  | .starting => x.now ≤ lag
  | .reading =>
    x.readDeadline = x.heard + readWait second ∧ x.now ≤ x.readDeadline + lag ∧
      ∀ c, x.closed = some c → x.now ≤ c + lag
  | .removing t =>
    x.readDeadline = x.heard + readWait second ∧ t ≤ x.now ∧ x.now ≤ t + lag ∧ t ≤ x.readDeadline + lag ∧
      ∀ c, x.closed = some c → t ≤ c + lag
  | .ended => x.registered = false

/-- Where the writer is, it has not been for longer than it may; nor has the ticker been late. -/
def WriterOk (lag : ℕ) (x : Pumps) : Prop :=
  match x.writer with
  | .starting => x.now ≤ lag ∧ x.tick = none
  | .selecting t =>
    t ≤ x.now ∧ x.now ≤ x.nextTick + lag ∧ x.nextTick ≤ x.now + pingPeriod second ∧
      (∀ s, x.tick = some s → s ≤ x.now ∧ x.now ≤ max t s + lag) ∧
      ∀ c, x.closed = some c → t ≤ c + lag ∧ (x.tick = none → x.nextTick ≤ c + pingPeriod second + lag) ∧
        ∀ s, x.tick = some s → s ≤ c + pingPeriod second + 2 * lag
  | .writing t _ =>
    t ≤ x.now ∧ x.now ≤ x.nextTick + lag ∧ x.nextTick ≤ x.now + pingPeriod second ∧
      (∀ s, x.tick = some s → s ≤ x.now) ∧
      ∀ c, x.closed = some c → t ≤ c + pingPeriod second + 3 * lag ∧ x.now ≤ max c t + lag
  | .closing t =>
    t ≤ x.now ∧ x.now ≤ t + lag ∧ ∀ c, x.closed = some c → t ≤ c + pingPeriod second + 4 * lag
  | .ended => True

/-- What holds as long as time is scheduled. -/
structure Timely (lag : ℕ) (x : Pumps) : Prop where
  reader : ReaderOk second lag x
  writer : WriterOk second lag x
  closed : ∀ c, x.closed = some c → c ≤ x.now

variable {second} {lag : ℕ} {x : Pumps}

/-- What is marked with the time is marked with the first time. -/
theorem or_now {o : Option ℕ} {n c : ℕ} (h : o.or (some n) = some c) : o = some c ∨ (o = none ∧ c = n) := by
  cases o with
  | none => exact .inr ⟨rfl, (Option.some.inj h).symm⟩
  | some b => exact .inl h

theorem ReaderOk.shut (h : ReaderOk second lag x) : ReaderOk second lag x.shut := by
  unfold ReaderOk at h ⊢
  simp only [show x.shut.reader = x.reader from rfl]
  split at h
  · exact h
  · refine ⟨h.1, h.2.1, fun c hc => ?_⟩
    rcases or_now hc with hc | ⟨-, rfl⟩
    · exact h.2.2 c hc
    · exact Nat.le_add_right _ _
  · refine ⟨h.1, h.2.1, h.2.2.1, h.2.2.2.1, fun c hc => ?_⟩
    rcases or_now hc with hc | ⟨-, rfl⟩
    · exact h.2.2.2.2 c hc
    · exact h.2.1.trans (Nat.le_add_right _ _)
  · exact h

theorem WriterOk.shut (h : WriterOk second lag x) : WriterOk second lag x.shut := by
  unfold WriterOk at h ⊢
  simp only [show x.shut.writer = x.writer from rfl]
  split at h
  · exact h
  · obtain ⟨hsince, hlate, hnext, htick, hclosed⟩ := h
    refine ⟨hsince, hlate, hnext, htick, fun c hc => ?_⟩
    rcases or_now hc with hc | ⟨-, rfl⟩
    · exact hclosed c hc
    · refine ⟨by omega, fun _ => ?_, fun s hs => ?_⟩
      · change x.nextTick ≤ _
        omega
      · have := (htick s hs).1
        omega
  · obtain ⟨hsince, hlate, hnext, htick, hclosed⟩ := h
    refine ⟨hsince, hlate, hnext, htick, fun c hc => ?_⟩
    rcases or_now hc with hc | ⟨-, rfl⟩
    · exact hclosed c hc
    · exact ⟨by omega, by change x.now ≤ _; omega⟩
  · obtain ⟨hsince, hlate, hclosed⟩ := h
    refine ⟨hsince, hlate, fun c hc => ?_⟩
    rcases or_now hc with hc | ⟨-, rfl⟩
    · exact hclosed c hc
    · omega
  · trivial

theorem Timely.shut (h : Timely second lag x) : Timely second lag x.shut := by
  refine ⟨h.reader.shut, h.writer.shut, fun c hc => ?_⟩
  rcases or_now hc with hc | ⟨-, rfl⟩
  · exact h.closed c hc
  · exact le_rfl

theorem ReaderOk.wait (h : ReaderOk second lag x)
    (hdue : ∀ t, x.readerDue = some t → x.now < t + lag) : ReaderOk second lag (x.step second .wait) := by
  unfold readerDue at hdue
  unfold ReaderOk at h ⊢
  simp only [step]
  split at h
  · have := hdue 0 (by simp [*])
    omega
  · refine ⟨h.1, ?_, fun c hc => ?_⟩
    · cases hc : x.closed with
      | none =>
        have := hdue x.readDeadline (by simp [*])
        omega
      | some c =>
        have := hdue (min x.readDeadline c) (by simp [*])
        omega
    · have := hdue (min x.readDeadline c) (by simp [*])
      omega
  · rename_i t hr
    have := hdue t (by simp [hr])
    exact ⟨h.1, by omega, by omega, h.2.2.2⟩
  · exact h

theorem WriterOk.wait (h : WriterOk second lag x) (hdue : ∀ t, x.writerDue = some t → x.now < t + lag)
    (hticker : ∀ t, x.tickerDue = some t → x.now < t + lag) : WriterOk second lag (x.step second .wait) := by
  unfold writerDue at hdue
  unfold tickerDue at hticker
  unfold WriterOk at h ⊢
  simp only [step]
  split at h
  · rename_i hw
    have := hdue 0 (by simp [hw])
    exact ⟨by omega, h.2⟩
  · rename_i t hw
    obtain ⟨hsince, hlate, hnext, htick, hclosed⟩ := h
    have := hticker x.nextTick (by simp [hw])
    refine ⟨by omega, by omega, by omega, fun s hs => ?_, hclosed⟩
    have := hdue (max t s) (by simp [hw, hs])
    have := (htick s hs).1
    omega
  · rename_i t d hw
    obtain ⟨hsince, hlate, hnext, htick, hclosed⟩ := h
    have := hticker x.nextTick (by simp [hw])
    refine ⟨by omega, by omega, by omega, fun s hs => ?_, fun c hc => ⟨(hclosed c hc).1, ?_⟩⟩
    · have := htick s hs
      omega
    · have := hdue (min d (max t c)) (by simp [hw, hc])
      omega
  · rename_i t hw
    have := hdue t (by simp [hw])
    exact ⟨by omega, by omega, h.2.2⟩
  · trivial

/-- The reader leaves its loop. -/
theorem Timely.removing (h : Timely second lag x) (hr : x.reader = .reading) :
    Timely second lag { x with reader := .removing x.now } := by
  have hok := h.reader
  rw [ReaderOk, hr] at hok
  exact ⟨⟨hok.1, le_rfl, Nat.le_add_right _ _, hok.2.1, hok.2.2⟩, h.writer, h.closed⟩

theorem Timely.startReader (h : Timely second lag x) : Timely second lag (x.step second .startReader) := by
  simp only [step]
  split_ifs with hs
  · have hok := h.reader
    rw [ReaderOk, hs] at hok
    have hlag : x.now ≤ lag := hok
    refine ⟨⟨rfl, ?_, fun c _ => ?_⟩, h.writer, h.closed⟩
    · show x.now ≤ x.now + readWait second + lag
      omega
    · show x.now ≤ c + lag
      omega
  · exact h

theorem Timely.pong (h : Timely second lag x) : Timely second lag (x.step second .pong) := by
  simp only [step]
  split_ifs with hs
  · obtain ⟨hreading, hopen, -⟩ := hs
    refine ⟨?_, h.writer, h.closed⟩
    unfold ReaderOk
    simp only [hreading, hopen]
    exact ⟨trivial, by omega, fun c hc => by cases hc⟩
  · exact h

theorem Timely.startWriter (h : Timely second lag x) : Timely second lag (x.step second .startWriter) := by
  simp only [step]
  split_ifs with hs
  · have hok := h.writer
    rw [WriterOk, hs] at hok
    obtain ⟨hlag, hnone⟩ := hok
    have hticks : ∀ s, x.tick = some s → False := fun s hs => by
      rw [hs] at hnone
      cases hnone
    refine ⟨h.reader, ⟨le_rfl, ?_, le_rfl, fun s hs => (hticks s hs).elim, fun c hc => ⟨?_, fun _ => ?_,
      fun s hs => (hticks s hs).elim⟩⟩, h.closed⟩
    · show x.now ≤ x.now + pingPeriod second + lag
      omega
    · show x.now ≤ c + lag
      omega
    · show x.now + pingPeriod second ≤ c + pingPeriod second + lag
      omega
  · exact h

theorem Timely.tick (h : Timely second lag x) : Timely second lag (x.step second .tick) := by
  have hok := h.writer
  unfold WriterOk at hok
  simp only [step]
  split
  · rename_i t hp
    rw [hp] at hok
    obtain ⟨hsince, hlate, hnext, htick, hclosed⟩ := hok
    split_ifs with hdue
    · refine ⟨h.reader, ?_, h.closed⟩
      unfold WriterOk
      simp only [hp]
      refine ⟨hsince, by omega, by omega, fun s hs => ?_, fun c hc => ⟨(hclosed c hc).1, fun hn => ?_, fun s hs => ?_⟩⟩
      · rcases or_now hs with hs | ⟨-, rfl⟩
        · exact htick s hs
        · omega
      · cases ht : x.tick <;> rw [ht] at hn <;> cases hn
      · rcases or_now hs with hs | ⟨hn, rfl⟩
        · exact (hclosed c hc).2.2 s hs
        · have := (hclosed c hc).2.1 hn
          omega
    · exact h
  · rename_i t d hp
    rw [hp] at hok
    obtain ⟨hsince, hlate, hnext, htick, hclosed⟩ := hok
    split_ifs with hdue
    · refine ⟨h.reader, ?_, h.closed⟩
      unfold WriterOk
      simp only [hp]
      refine ⟨hsince, by omega, by omega, fun s hs => ?_, hclosed⟩
      rcases or_now hs with hs | ⟨-, rfl⟩
      · exact htick s hs
      · exact le_rfl
    · exact h
  · exact h

/-- A closed connection's writer is not at its `select` for long. -/
theorem WriterOk.selects (h : WriterOk second lag x) {t c : ℕ} (hp : x.writer = .selecting t) (hc : x.closed = some c) :
    x.now ≤ c + pingPeriod second + 3 * lag := by
  rw [WriterOk, hp] at h
  obtain ⟨-, hlate, -, htick, hclosed⟩ := h
  obtain ⟨hsince, hnone, hsome⟩ := hclosed c hc
  cases ht : x.tick with
  | none =>
    have := hnone ht
    omega
  | some s =>
    have := (htick s ht).2
    have := hsome s ht
    omega

/-- The writer takes something from its `select`, and leaves `tick` in the ticker's channel. -/
theorem Timely.writing (h : Timely second lag x) {t d : ℕ} (hp : x.writer = .selecting t) {tick : Option ℕ}
    (htick : ∀ s, tick = some s → x.tick = some s) :
    Timely second lag { x with tick := tick, writer := .writing x.now d } := by
  have hok := h.writer
  rw [WriterOk, hp] at hok
  obtain ⟨-, hlate, hnext, hticks, -⟩ := hok
  refine ⟨h.reader, ⟨le_rfl, hlate, hnext, fun s hs => (hticks s (htick s hs)).1, fun c hc => ⟨?_, ?_⟩⟩, h.closed⟩
  · exact h.writer.selects hp hc
  · show x.now ≤ max c x.now + lag
    omega

theorem Timely.written (h : Timely second lag x) : Timely second lag (x.step second .written) := by
  simp only [step]
  split
  · rename_i t d hp
    have hok := h.writer
    rw [WriterOk, hp] at hok
    obtain ⟨-, hlate, hnext, htick, -⟩ := hok
    split_ifs with hopen
    · refine ⟨h.reader, ⟨le_rfl, hlate, hnext, fun s hs => ⟨htick s hs, ?_⟩, fun c hc => ?_⟩, h.closed⟩
      · show x.now ≤ max x.now s + lag
        omega
      · rw [show x.closed = some c from hc] at hopen
        cases hopen.1
    · exact h
  · exact h

theorem Timely.writeError (h : Timely second lag x) : Timely second lag (x.step second .writeError) := by
  simp only [step]
  split
  · rename_i t d hp
    have hok := h.writer
    rw [WriterOk, hp] at hok
    obtain ⟨-, -, -, -, hclosed⟩ := hok
    refine ⟨h.reader, ⟨le_rfl, Nat.le_add_right _ _, fun c hc => ?_⟩, h.closed⟩
    show x.now ≤ _
    have := hclosed c hc
    omega
  · exact h

theorem timely_step (x : Pumps) (i : Step) (h : Timely second lag x) (hi : x.Scheduled lag i) :
    Timely second lag (x.step second i) := by
  cases i with
  | wait =>
    exact ⟨h.reader.wait hi.1, h.writer.wait hi.2.1 hi.2.2, fun c hc => (h.closed c hc).trans (Nat.le_succ _)⟩
  | startReader => exact h.startReader
  | pong => exact h.pong
  | message => exact h
  | timeout =>
    simp only [step]
    split_ifs with hs
    · exact h.removing hs.1
    · exact h
  | readError =>
    simp only [step]
    split_ifs with hs
    · exact h.removing hs
    · exact h
  | remove =>
    simp only [step]
    split
    · have hended : Timely second lag { x with registered := false, reader := .ended } := ⟨rfl, h.writer, h.closed⟩
      exact hended.shut
    · exact h
  | startWriter => exact h.startWriter
  | tick => exact h.tick
  | ping =>
    simp only [step]
    split
    · rename_i t hp
      split_ifs
      · exact h.writing hp fun s hs => by cases hs
      · exact h
    · exact h
  | send =>
    simp only [step]
    split
    · rename_i t hp
      exact h.writing hp fun s hs => hs
    · exact h
  | written => exact h.written
  | writeError => exact h.writeError
  | close =>
    simp only [step]
    split
    · have hended : Timely second lag { x with writer := .ended } := ⟨h.reader, trivial, h.closed⟩
      exact hended.shut
    · exact h
  | replaced =>
    have hr := h.reader
    refine ⟨?_, h.writer, h.closed⟩
    unfold ReaderOk at hr ⊢
    simp only [step]
    split <;> rename_i hp <;> rw [hp] at hr <;> first | exact hr | trivial
  | closeOld =>
    simp only [step]
    split_ifs
    · exact h
    · exact h.shut

theorem timely_run {l : List Step} (hl : Meets (step second) (Scheduled lag) {} l) :
    Timely second lag (run (step second) {} l) := by
  refine run_invariant (P := Timely second lag) timely_step ⟨?_, ?_, fun c hc => ?_⟩ hl
  · exact Nat.zero_le lag
  · exact ⟨Nat.zero_le lag, rfl⟩
  · cases hc

/-- **A client that has not been heard of for sixty seconds is not registered any more**, whatever else it has sent:
in every run, a registered client was heard of (its `readPump` was started, or has read a pong) not longer than sixty
seconds ago, up to the time that `readPump` takes to notice and to take it off the map. -/
theorem silent_removed (l : List Step) (hl : Meets (step second) (Scheduled lag) {} l) :
    let x := run (step second) {} l
    x.registered = true → x.now ≤ x.heard + readWait second + 2 * lag := by
  intro x hregistered
  have h : Timely second lag x := timely_run hl
  have hr := h.reader
  unfold ReaderOk at hr
  split at hr
  · omega
  · omega
  · omega
  · rw [hr] at hregistered
    cases hregistered

/-- A peer that sends messages, and no pong. -/
def chatty : List Step := [.startReader, .startWriter] ++ List.replicate 20 .wait ++ [.message, .wait]

theorem chatty_heard :
    (run (step 1) {} chatty).now ≤ (run (step 1) {} chatty).heard + readWait 1 + 2 * 1 :=
  silent_removed chatty (by decide) (by decide)

/-- **Both pumps end.**  In every run, when the connection has been closed, by whoever it was, `readPump` ends at once
and `writePump` at the next tick at the latest, up to what they take for their steps. -/
theorem pumps_end (l : List Step) (hl : Meets (step second) (Scheduled lag) {} l) {c : ℕ}
    (hc : (run (step second) {} l).closed = some c) :
    let x := run (step second) {} l
    (x.reader = .ended ∨ x.now ≤ c + 2 * lag) ∧ (x.writer = .ended ∨ x.now ≤ c + pingPeriod second + 5 * lag) := by
  intro x
  have h : Timely second lag x := timely_run hl
  have hr := h.reader
  have hw := h.writer
  unfold ReaderOk at hr
  unfold WriterOk at hw
  constructor
  · split at hr
    · exact .inr (by omega)
    · have := hr.2.2 c hc
      exact .inr (by omega)
    · have := hr.2.2.2.2 c hc
      exact .inr (by omega)
    · exact .inl (by assumption)
  · split at hw
    · exact .inr (by omega)
    · rename_i t hp
      have := h.writer.selects hp hc
      exact .inr (by omega)
    · have := hw.2.2.2.2 c hc
      exact .inr (by omega)
    · have := hw.2.2 c hc
      exact .inr (by omega)
    · exact .inl (by assumption)

/-- The peer hangs up before the first tick. -/
def hangsUp : List Step :=
  [.startReader, .startWriter, .wait, .readError, .remove] ++ List.replicate 53 .wait ++ [.tick, .ping]

theorem hangsUp_ends :
    (run (step 1) {} hangsUp).reader = .ended ∨ (run (step 1) {} hangsUp).now ≤ 1 + 2 * 1 :=
  (pumps_end hangsUp (by decide) (c := 1) (by decide)).1

/-! ### A peer that answers -/

/-- Nothing but the clock ends the connection, and a pong is read in time. -/
def Healthy (lag reply : ℕ) (x : Pumps) (i : Step) : Prop :=
  x.Scheduled lag i ∧ x.Prompt reply i ∧ i.fails = false

instance (lag reply : ℕ) (x : Pumps) (i : Step) : Decidable (x.Healthy lag reply i) :=
  inferInstanceAs (Decidable (_ ∧ _))

/-- The writer is in its loop. -/
def Writes (x : Pumps) : Prop := x.tickerDue = some x.nextTick

/-- The deadline is ahead: six seconds after the next tick, or, where a pong is owed, as far away as it takes. -/
structure Ahead (second lag reply : ℕ) (x : Pumps) : Prop where
  timely : Timely second lag x
  registered : x.registered = true
  open_ : x.closed = none
  reads : x.reader = .starting ∨ x.reader = .reading
  writes : (x.writer = .starting ∧ x.owed = none) ∨ Writes x
  ahead : x.reader = .reading → Writes x → x.owed = none → x.nextTick + 6 * second ≤ x.readDeadline + lag
  started : x.reader = .starting → Writes x → x.owed = none ∧ pingPeriod second ≤ x.nextTick
  owed : ∀ t, x.owed = some t → t ≤ x.now ∧ x.now < t + reply ∧ t + reply ≤ x.readDeadline ∧
    x.nextTick ≤ t + pingPeriod second ∧ t + pingPeriod second ≤ x.nextTick + lag

theorem writes_iff : Writes x ↔ (∃ t, x.writer = .selecting t) ∨ ∃ t d, x.writer = .writing t d := by
  unfold Writes tickerDue
  cases x.writer <;> simp

theorem Timely.ticks (h : Timely second lag x) (hw : Writes x) :
    x.now ≤ x.nextTick + lag ∧ x.nextTick ≤ x.now + pingPeriod second := by
  have hok := h.writer
  rcases writes_iff.mp hw with ⟨t, hp⟩ | ⟨t, d, hp⟩
  · rw [WriterOk, hp] at hok
    exact ⟨hok.2.1, hok.2.2.1⟩
  · rw [WriterOk, hp] at hok
    exact ⟨hok.2.1, hok.2.2.1⟩

/-- The writer goes on in its loop. -/
theorem Ahead.loop {reply : ℕ} {y : Pumps} (h : Ahead second lag reply x) (hy : Timely second lag y)
    (hw : Writes x) (hw' : Writes y) (hnow : y.now = x.now) (hreader : y.reader = x.reader)
    (hdeadline : y.readDeadline = x.readDeadline) (hnext : y.nextTick = x.nextTick)
    (hregistered : y.registered = x.registered) (hclosed : y.closed = x.closed)
    (howed : y.owed = x.owed) : Ahead second lag reply y := by
  refine ⟨hy, hregistered.trans h.registered, hclosed.trans h.open_, hreader ▸ h.reads, .inr hw', ?_, ?_, ?_⟩
  · rw [hreader, howed, hnext, hdeadline]
    exact fun hr _ => h.ahead hr hw
  · rw [hreader, howed, hnext]
    exact fun hr _ => h.started hr hw
  · rw [howed, hnow, hdeadline, hnext]
    exact h.owed

theorem ahead_init (reply : ℕ) : Ahead second lag reply {} := by
  refine ⟨timely_run (l := []) trivial, rfl, rfl, .inl rfl, .inl ⟨rfl, rfl⟩, fun hr => (by cases hr), ?_, ?_⟩
  · intro _ hw
    cases hw
  · intro t ht
    cases ht

theorem Ahead.startReader {reply : ℕ} (h : Ahead second lag reply x) :
    Ahead second lag reply (x.step second .startReader) := by
  have htimely := h.timely.startReader
  simp only [step] at htimely ⊢
  split_ifs at htimely ⊢ with hs
  · have hnone : x.owed = none := h.writes.elim And.right fun hw => (h.started hs hw).1
    refine ⟨htimely, h.registered, h.open_, .inr rfl, h.writes, fun _ hw _ => ?_, fun hr => (by cases hr),
      fun t ht => ?_⟩
    · show x.nextTick + 6 * second ≤ x.now + readWait second + lag
      have := (h.timely.ticks hw).2
      unfold pingPeriod at this
      unfold readWait
      omega
    · rw [show x.owed = some t from ht] at hnone
      cases hnone
  · exact h

/-- A pong gives sixty seconds, the next tick is at most fifty-four away. -/
theorem Ahead.pong {reply : ℕ} (h : Ahead second lag reply x) : Ahead second lag reply (x.step second .pong) := by
  have htimely := h.timely.pong
  simp only [step] at htimely ⊢
  split_ifs at htimely ⊢ with hs
  · refine ⟨htimely, h.registered, h.open_, .inr hs.1, ?_, fun _ hw _ => ?_, fun hr _ => ?_, fun t ht => (by cases ht)⟩
    · exact h.writes.imp (fun hw => ⟨hw.1, rfl⟩) id
    · show x.nextTick + 6 * second ≤ x.now + readWait second + lag
      have := (h.timely.ticks hw).2
      unfold pingPeriod at this
      unfold readWait
      omega
    · have hreading := hs.1
      rw [show x.reader = .starting from hr] at hreading
      cases hreading
  · exact h

theorem Ahead.startWriter {reply : ℕ} (h : Ahead second lag reply x) :
    Ahead second lag reply (x.step second .startWriter) := by
  have htimely := h.timely.startWriter
  simp only [step] at htimely ⊢
  split_ifs at htimely ⊢ with hs
  · have hok := h.timely.writer
    rw [WriterOk, hs] at hok
    have hlag := hok.1
    have hnone : x.owed = none := h.writes.elim And.right fun hw => by
      rcases writes_iff.mp hw with ⟨t, hp⟩ | ⟨t, d, hp⟩ <;> rw [hs] at hp <;> cases hp
    refine ⟨htimely, h.registered, h.open_, h.reads, .inr rfl, fun hr _ _ => ?_, fun _ _ => ⟨hnone, ?_⟩, fun t ht => ?_⟩
    · show x.now + pingPeriod second + 6 * second ≤ x.readDeadline + lag
      have hrok := h.timely.reader
      rw [ReaderOk, show x.reader = .reading from hr] at hrok
      have := hrok.1
      unfold readWait at this
      unfold pingPeriod
      omega
    · show pingPeriod second ≤ x.now + pingPeriod second
      omega
    · rw [show x.owed = some t from ht] at hnone
      cases hnone
  · exact h

section Answers

variable {reply : ℕ} (hclock : reply + 2 * lag ≤ 6 * second) (hreply : 0 < reply)

include hclock hreply

/-- A read does not fail by its deadline. -/
theorem Ahead.before (h : Ahead second lag reply x) (hr : x.reader = .reading) : x.now < x.readDeadline := by
  have hok := h.timely.reader
  rw [ReaderOk, hr] at hok
  obtain ⟨hdeadline, -, -⟩ := hok
  unfold readWait at hdeadline
  rcases h.writes with ⟨hstarting, -⟩ | hw
  · have hok := h.timely.writer
    rw [WriterOk, hstarting] at hok
    have := hok.1
    omega
  · cases ho : x.owed with
    | none =>
      have := h.ahead hr hw ho
      have := (h.timely.ticks hw).1
      omega
    | some t =>
      obtain ⟨-, hsoon, hdue, -, -⟩ := h.owed t ho
      omega

/-- A tick finds no pong owed, and the deadline far enough away for the one that is owed now. -/
theorem Ahead.tick (h : Ahead second lag reply x) : Ahead second lag reply (x.step second .tick) := by
  have htimely := h.timely.tick
  by_cases hw : Writes x
  · obtain ⟨hlate, hnext⟩ := h.timely.ticks hw
    have hstep : x.step second .tick = if x.nextTick ≤ x.now then
        { x with
          tick := x.tick.or (some x.now), nextTick := x.nextTick + pingPeriod second
          owed := x.owed.or (some x.now) } else x := by
      rcases writes_iff.mp hw with ⟨t, hp⟩ | ⟨t, d, hp⟩ <;> simp only [step, hp]
    rw [hstep] at htimely ⊢
    split_ifs at htimely ⊢ with hdue
    · unfold pingPeriod at hnext
      have howed : ∀ t, x.owed = some t → False := fun t ht => by
        obtain ⟨-, hsoon, -, -, hlast⟩ := h.owed t ht
        unfold pingPeriod at hlast
        omega
      have hreading : x.reader = .reading := by
        refine h.reads.resolve_left fun hr => ?_
        have hok := h.timely.reader
        rw [ReaderOk, hr] at hok
        have hlag : x.now ≤ lag := hok
        have := (h.started hr hw).2
        unfold pingPeriod at this
        omega
      have hahead := h.ahead hreading hw (Option.eq_none_iff_forall_ne_some.mpr fun t ht => howed t ht)
      refine ⟨htimely, h.registered, h.open_, h.reads, .inr ?_, fun _ _ hn => ?_, fun hr => ?_, fun t ht => ?_⟩
      · rw [writes_iff] at hw ⊢
        exact hw
      · cases ho : x.owed <;> simp [ho] at hn
      · rw [show x.reader = .starting from hr] at hreading
        cases hreading
      · rcases or_now ht with ht | ⟨-, rfl⟩
        · exact (howed t ht).elim
        · show x.now ≤ x.now ∧ x.now < x.now + reply ∧ x.now + reply ≤ x.readDeadline ∧
            x.nextTick + pingPeriod second ≤ x.now + pingPeriod second ∧
            x.now + pingPeriod second ≤ x.nextTick + pingPeriod second + lag
          omega
    · exact h
  · have hstep : x.step second .tick = x := by
      rw [writes_iff, not_or, not_exists, not_exists] at hw
      cases hp : x.writer with
      | selecting t => exact absurd hp (hw.1 t)
      | writing t d => exact absurd ⟨d, hp⟩ (hw.2 t)
      | _ => simp only [step, hp]
    rw [hstep]
    exact h

theorem ahead_step (x : Pumps) (i : Step) (h : Ahead second lag reply x) (hi : x.Healthy lag reply i) :
    Ahead second lag reply (x.step second i) := by
  obtain ⟨hscheduled, hprompt, hfails⟩ := hi
  have htimely := timely_step x i h.timely hscheduled
  cases i with
  | wait =>
    refine ⟨htimely, h.registered, h.open_, h.reads, h.writes, h.ahead, h.started, fun t ht => ?_⟩
    obtain ⟨hpast, -, hrest⟩ := h.owed t ht
    exact ⟨hpast.trans (Nat.le_succ _), hprompt t ht, hrest⟩
  | startReader => exact h.startReader
  | pong => exact h.pong
  | message => exact h
  | timeout =>
    simp only [step]
    split_ifs with hs
    · have := h.before hclock hreply hs.1
      omega
    · exact h
  | remove =>
    simp only [step]
    rcases h.reads with hr | hr <;> rw [hr] <;> exact h
  | startWriter => exact h.startWriter
  | tick => exact h.tick hclock hreply
  | ping =>
    simp only [step] at htimely ⊢
    split at htimely
    · rename_i t hp
      split_ifs at htimely ⊢
      · exact h.loop htimely (writes_iff.mpr (.inl ⟨t, hp⟩)) rfl rfl rfl rfl rfl rfl rfl rfl
      · exact h
    · exact h
  | send =>
    simp only [step] at htimely ⊢
    split at htimely
    · rename_i t hp
      exact h.loop htimely (writes_iff.mpr (.inl ⟨t, hp⟩)) rfl rfl rfl rfl rfl rfl rfl rfl
    · exact h
  | written =>
    simp only [step] at htimely ⊢
    split at htimely
    · rename_i t d hp
      split_ifs at htimely ⊢
      · exact h.loop htimely (writes_iff.mpr (.inr ⟨t, d, hp⟩)) rfl rfl rfl rfl rfl rfl rfl rfl
      · exact h
    · exact h
  | close =>
    simp only [step]
    split
    · rename_i t hp
      rcases h.writes with ⟨hs, -⟩ | hw
      · rw [hp] at hs
        cases hs
      · rcases writes_iff.mp hw with ⟨t, hs⟩ | ⟨t, d, hs⟩ <;> rw [hp] at hs <;> cases hs
    · exact h
  | closeOld =>
    simp only [step, if_pos h.registered]
    exact h
  | readError => cases hfails
  | writeError => cases hfails
  | replaced => cases hfails

/-- **A peer whose pong is read in time is not dropped.**  In every run in which neither side fails and nobody else logs
in as the client: if the pong is read within `reply` of each tick, and that leaves twice `lag` of the six seconds
between the two waits, the client stays registered and connected, and no read fails by its deadline. -/
theorem responsive_kept (l : List Step) (hl : Meets (step second) (Healthy lag reply) {} l) :
    let x := run (step second) {} l
    x.registered = true ∧ x.closed = none ∧ (x.reader = .reading → x.now < x.readDeadline) := by
  intro x
  have h : Ahead second lag reply x :=
    run_invariant (P := Ahead second lag reply) (ahead_step hclock hreply) (ahead_init reply) hl
  exact ⟨h.registered, h.open_, h.before hclock hreply⟩

end Answers

/-- The first ping of a connection, answered after two seconds. -/
def answered : List Step :=
  [.startReader, .startWriter] ++ List.replicate 54 .wait ++ [.tick, .ping, .written, .wait, .wait, .pong, .wait]

theorem answered_kept : (run (step 1) {} answered).registered = true :=
  (responsive_kept (by decide : 4 + 2 * 1 ≤ 6 * 1) (by decide) answered (by decide)).1

/-- **A peer that answers every ping at once is dropped**, when the ping waits for a message that takes seven seconds
to be written. -/
example :
    let l := [.startReader, .startWriter] ++ List.replicate 53 .wait ++ [.send, .wait, .tick] ++
      List.replicate 6 .wait ++ [.written, .ping, .written, .pong, .timeout, .remove]
    Meets (step 1) (Scheduled 1) {} l ∧ (run (step 1) {} l).registered = false := by
  decide

end Pumps

end Clock

end PeerCall.Heartbeat
