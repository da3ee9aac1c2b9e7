import PeerCall.Lib.Runs

/-!
# Call.Rates — the bitrates of `ExtractAndStoreRtcStats`

Where the selected candidate pair gives no bitrate, the coordinator divides what the byte counters have
gained since the last report by the time that has passed.  The last counters are kept in
`last_rate_sample_`, which outlives the call.  Counters and clock are unsigned 64-bit integers.  The bitrates,
doubles in the source, are rationals here: the two differ on denormal numbers, where a positive bitrate becomes
zero when it is divided by 1000, and on NaN, which no comparison accepts.  A report is assumed to hold neither.
-/

namespace PeerCall.Rates

open PeerCall.Lib

/-- `RTCIceCandidatePairStats`. -/
structure CandidatePair where
  nominated : Option Bool := none
  state : Option String := none
  availableOutgoingBitrate : Option ℚ := none
  availableIncomingBitrate : Option ℚ := none
  deriving DecidableEq, Repr

/-- `RTCStatsReport`: the time in microseconds, `bytes_received` of each inbound and `bytes_sent` of each
outbound stream, and the candidate pairs. -/
structure StatsReport where
  timestampUs : ℤ
  bytesReceived : List (Option UInt64) := []
  bytesSent : List (Option UInt64) := []
  candidatePairs : List CandidatePair := []
  deriving DecidableEq, Repr

namespace StatsReport

def timestampMs (r : StatsReport) : UInt64 := UInt64.ofInt (r.timestampUs.tdiv 1000)

/-- The sum of some counters. -/
def total (counters : List (Option UInt64)) : UInt64 := counters.foldl (fun n c => n + c.getD 0) 0

def inboundBytes (r : StatsReport) : UInt64 := total r.bytesReceived

def outboundBytes (r : StatsReport) : UInt64 := total r.bytesSent

def selectedPair (r : StatsReport) : Option CandidatePair :=
  r.candidatePairs.find? fun p => p.nominated.getD false && p.state = some "succeeded"

/-- A bitrate of the selected pair, in kbps. -/
def pairKbps (bps : Option ℚ) : ℚ := if 0 < bps.getD 0 then bps.getD 0 / 1000 else 0

def inboundKbps (r : StatsReport) : ℚ := pairKbps (r.selectedPair.bind CandidatePair.availableIncomingBitrate)

def outboundKbps (r : StatsReport) : ℚ := pairKbps (r.selectedPair.bind CandidatePair.availableOutgoingBitrate)

end StatsReport

/-- `RateSample`. -/
structure RateSample where
  inboundBytes : UInt64 := 0
  outboundBytes : UInt64 := 0
  timestampMs : UInt64 := 0
  valid : Bool := false
  deriving DecidableEq, Repr

/-- The part of `RtcStatsSnapshot` that is about rates. -/
structure RtcStatsSnapshot where
  valid : Bool := false
  timestampMs : UInt64 := 0
  inboundBitrateKbps : ℚ := 0
  outboundBitrateKbps : ℚ := 0
  deriving DecidableEq, Repr

/-- A bitrate that was computed from two counters, with the differences that were used. -/
structure Fallback where
  counter : UInt64
  previous : UInt64
  time : UInt64
  previousTime : UInt64
  delta : UInt64
  deltaMs : UInt64
  deriving DecidableEq, Repr

/-- The coordinator's statistics; `fallbacks` keeps the bitrates that were computed from counters. -/
structure Stats where
  lastRateSample : RateSample := {}
  lastStats : RtcStatsSnapshot := {}
  fallbacks : List Fallback := []

/-- The two differences, as the source takes them. -/
def difference (counter previous time previousTime : UInt64) : Fallback where
  counter := counter
  previous := previous
  time := time
  previousTime := previousTime
  delta := counter - previous
  deltaMs := time - previousTime

/-- The bitrate is computed when there is none, and the difference of the counters is not negative. -/
def Fallback.Used (f : Fallback) (kbps : ℚ) : Prop := kbps ≤ 0 ∧ (0 : ℚ) ≤ f.delta.toNat

instance (f : Fallback) (kbps : ℚ) : Decidable (f.Used kbps) := by unfold Fallback.Used; infer_instance

def Fallback.kbps (f : Fallback) : ℚ := f.delta.toNat * 8 / f.deltaMs.toNat

namespace Stats

/-- The differences to the last sample: those of the inbound and of the outbound bytes. -/
def inbound (x : Stats) (r : StatsReport) : Fallback :=
  difference r.inboundBytes x.lastRateSample.inboundBytes r.timestampMs x.lastRateSample.timestampMs

def outbound (x : Stats) (r : StatsReport) : Fallback :=
  difference r.outboundBytes x.lastRateSample.outboundBytes r.timestampMs x.lastRateSample.timestampMs

/-- There is a sample, and time has passed since it was taken. -/
def Compares (x : Stats) (r : StatsReport) : Prop :=
  x.lastRateSample.valid ∧ 0 < r.timestampMs - x.lastRateSample.timestampMs

instance (x : Stats) (r : StatsReport) : Decidable (x.Compares r) := by unfold Compares; infer_instance

/-- The bitrate of one direction, after the fallback. -/
def rate (x : Stats) (r : StatsReport) (kbps : ℚ) (f : Fallback) : ℚ :=
  if x.Compares r ∧ f.Used kbps then f.kbps else kbps

/-- The fallback of one direction, if it is used. -/
def used (x : Stats) (r : StatsReport) (kbps : ℚ) (f : Fallback) : List Fallback :=
  if x.Compares r ∧ f.Used kbps then [f] else []

/-- `ExtractAndStoreRtcStats`; `none` is the null report. -/
def extractAndStoreRtcStats (x : Stats) : Option StatsReport → Stats
  | none => x
  | some r =>
    { lastRateSample :=
        { inboundBytes := r.inboundBytes, outboundBytes := r.outboundBytes
          timestampMs := r.timestampMs, valid := true }
      lastStats :=
        { valid := true, timestampMs := r.timestampMs
          inboundBitrateKbps := x.rate r r.inboundKbps (x.inbound r)
          outboundBitrateKbps := x.rate r r.outboundKbps (x.outbound r) }
      fallbacks := x.fallbacks ++ (x.used r r.inboundKbps (x.inbound r) ++ x.used r r.outboundKbps (x.outbound r)) }

/-- The differences are those of the integers, so that neither the counter nor the clock has gone back. -/
def Exact (f : Fallback) : Prop :=
  (f.delta.toNat : ℤ) = f.counter.toNat - f.previous.toNat ∧ (f.deltaMs.toNat : ℤ) = f.time.toNat - f.previousTime.toNat

instance (f : Fallback) : Decidable (Exact f) := by unfold Exact; infer_instance

/-- Where a report with another time than the last one gives no bitrate of its own, its counter and its time
are not smaller than the last ones. -/
def Forward (x : Stats) : Option StatsReport → Prop
  | none => True
  | some r => x.lastRateSample.valid → r.timestampMs ≠ x.lastRateSample.timestampMs →
    (r.inboundKbps ≤ 0 →
      x.lastRateSample.inboundBytes ≤ r.inboundBytes ∧ x.lastRateSample.timestampMs ≤ r.timestampMs) ∧
    (r.outboundKbps ≤ 0 →
      x.lastRateSample.outboundBytes ≤ r.outboundBytes ∧ x.lastRateSample.timestampMs ≤ r.timestampMs)

instance (x : Stats) : ∀ r : Option StatsReport, Decidable (x.Forward r)
  | none => inferInstanceAs (Decidable True)
  | some r => inferInstanceAs (Decidable (x.lastRateSample.valid → r.timestampMs ≠ x.lastRateSample.timestampMs →
      (r.inboundKbps ≤ 0 →
        x.lastRateSample.inboundBytes ≤ r.inboundBytes ∧ x.lastRateSample.timestampMs ≤ r.timestampMs) ∧
      (r.outboundKbps ≤ 0 →
        x.lastRateSample.outboundBytes ≤ r.outboundBytes ∧ x.lastRateSample.timestampMs ≤ r.timestampMs)))

/-! ### Wrapped differences -/

theorem toNat_sub_eq_iff (a b : UInt64) : ((a - b).toNat : ℤ) = a.toNat - b.toNat ↔ b ≤ a := by
  rw [UInt64.toNat_sub, UInt64.le_iff_toNat_le]
  have ha := a.toNat_lt
  have hb := b.toNat_lt
  omega

/-- A difference that is not zero. -/
theorem sub_pos_iff (a b : UInt64) : 0 < a - b ↔ a ≠ b := by
  rw [UInt64.lt_iff_toNat_lt, UInt64.toNat_sub, ← UInt64.toNat_inj.ne]
  have ha := a.toNat_lt
  have hb := b.toNat_lt
  simp only [UInt64.toNat_zero]
  omega

theorem exact_difference_iff (counter previous time previousTime : UInt64) :
    Exact (difference counter previous time previousTime) ↔ previous ≤ counter ∧ previousTime ≤ time :=
  and_congr (toNat_sub_eq_iff _ _) (toNat_sub_eq_iff _ _)

/-- The guard against negative differences never holds anything back: they are cast after they have wrapped. -/
theorem used_iff (f : Fallback) (kbps : ℚ) : f.Used kbps ↔ kbps ≤ 0 :=
  and_iff_left (Nat.cast_nonneg _)

theorem compares_iff (x : Stats) (r : StatsReport) :
    x.Compares r ↔ x.lastRateSample.valid ∧ r.timestampMs ≠ x.lastRateSample.timestampMs :=
  and_congr_right fun _ => sub_pos_iff _ _

/-- Every bitrate of the run so far was computed from exact differences. -/
def AllExact (x : Stats) : Prop := ∀ f ∈ x.fallbacks, Exact f

/-- The fallback of one direction is exact, if it is used. -/
theorem used_exact_iff {x : Stats} {r : StatsReport} {kbps : ℚ} {f : Fallback} :
    (∀ f' ∈ x.used r kbps f, Exact f') ↔ (x.Compares r → kbps ≤ 0 → Exact f) := by
  unfold used
  by_cases hused : x.Compares r ∧ f.Used kbps
  · rw [if_pos hused]
    simp [hused.1, (used_iff f kbps).mp hused.2]
  · rw [if_neg hused]
    rw [used_iff] at hused
    simpa using fun hc hk => absurd ⟨hc, hk⟩ hused

theorem allExact_step (x : Stats) (report : Option StatsReport) (h : AllExact x) :
    AllExact (x.extractAndStoreRtcStats report) ↔ x.Forward report := by
  cases report with
  | none => exact iff_of_true h trivial
  | some r =>
    have hnew : AllExact (x.extractAndStoreRtcStats (some r)) ↔
        (∀ f ∈ x.used r r.inboundKbps (x.inbound r), Exact f) ∧
          ∀ f ∈ x.used r r.outboundKbps (x.outbound r), Exact f := by
      unfold AllExact extractAndStoreRtcStats
      simp only [List.mem_append]
      constructor
      · intro hall
        exact ⟨fun f hf => hall f (.inr (.inl hf)), fun f hf => hall f (.inr (.inr hf))⟩
      · rintro ⟨hin, hout⟩ f (hf | hf | hf)
        · exact h f hf
        · exact hin f hf
        · exact hout f hf
    rw [hnew, used_exact_iff, used_exact_iff, inbound, outbound, exact_difference_iff, exact_difference_iff,
      compares_iff]
    unfold Forward
    constructor
    · rintro ⟨hin, hout⟩ hvalid hne
      exact ⟨hin ⟨hvalid, hne⟩, hout ⟨hvalid, hne⟩⟩
    · intro hfwd
      exact ⟨fun hc => (hfwd hc.1 hc.2).1, fun hc => (hfwd hc.1 hc.2).2⟩

/-- **Bitrates without a wrapped subtraction**: all along a run of reports, over any number of calls, the
bitrates that are computed from counters use exact differences if and only if every report goes forward. -/
theorem rates_exact_iff (reports : List (Option StatsReport)) :
    (∀ past, past <+: reports → AllExact (run extractAndStoreRtcStats {} past)) ↔
      Meets extractAndStoreRtcStats Forward {} reports :=
  always_iff_meets (I := fun _ => True) (fun _ _ _ _ _ => trivial) (fun x r _ h => allExact_step x r h) trivial
    (by simp [AllExact])

/-- The last report of one call and the first one of the next, whose counters start again. -/
def nextCall : List (Option StatsReport) :=
  [some { timestampUs := 60000000, bytesReceived := [some 900000, none], bytesSent := [some 800000] },
    none, some { timestampUs := 90000000, bytesReceived := [some 1000], bytesSent := [some 1000] }]

/-- **Not in general**: the counters of a new call start again. -/
theorem restarted_counter_wraps :
    ¬ ∀ reports : List (Option StatsReport), AllExact (run extractAndStoreRtcStats {} reports) := by
  intro h
  have hexact := h nextCall
  revert hexact
  unfold AllExact
  decide

end Stats

end PeerCall.Rates
