import Mathlib.Algebra.Order.Field.Rat

/-!
# Link metrics (`omnimesh-routing/src/metrics.rs`)

The `f64` values are exact rationals.
-/

namespace OmniMesh.Routing

def emaAlpha : ℚ := 1 / 5

structure LinkMetrics where
  latencyMs : ℚ
  bandwidthKbps : ℚ
  lossRate : ℚ
  relayCost : ℚ
  deriving DecidableEq, Repr

namespace LinkMetrics

def default : LinkMetrics := ⟨10, 10000, 0, 0⟩

def cost (self : LinkMetrics) : ℚ :=
  let bwMbps := max (self.bandwidthKbps / 1000) (1 / 10)
  self.latencyMs * (1 + self.lossRate) / bwMbps + self.relayCost

end LinkMetrics

structure LinkMetricTracker where
  latencyEma : ℚ
  bandwidthEma : ℚ
  lossRateEma : ℚ
  relayCost : ℚ
  deriving DecidableEq, Repr

namespace LinkMetricTracker

def new (initial : LinkMetrics) : LinkMetricTracker :=
  ⟨initial.latencyMs, initial.bandwidthKbps, initial.lossRate, initial.relayCost⟩

/-- The moving average that the three `record_*` methods share. -/
def ema (measurement old : ℚ) : ℚ := emaAlpha * measurement + (1 - emaAlpha) * old

def recordLatency (self : LinkMetricTracker) (measurement : ℚ) : LinkMetricTracker :=
  { self with latencyEma := ema measurement self.latencyEma }

def recordBandwidth (self : LinkMetricTracker) (measurement : ℚ) : LinkMetricTracker :=
  { self with bandwidthEma := ema measurement self.bandwidthEma }

/-- The only method that clamps its measurement. -/
def recordLossRate (self : LinkMetricTracker) (measurement : ℚ) : LinkMetricTracker :=
  let clamped := max 0 (min measurement 1)
  { self with lossRateEma := ema clamped self.lossRateEma }

def setRelayCost (self : LinkMetricTracker) (cost : ℚ) : LinkMetricTracker := { self with relayCost := cost }

def metrics (self : LinkMetricTracker) : LinkMetrics :=
  ⟨self.latencyEma, self.bandwidthEma, self.lossRateEma, self.relayCost⟩

def cost (self : LinkMetricTracker) : ℚ := self.metrics.cost

end LinkMetricTracker

/-- A sample for one of the tracker's `record_*` methods. -/
inductive Measurement
  | latency (ms : ℚ)
  | bandwidth (kbps : ℚ)
  | lossRate (rate : ℚ)
  deriving DecidableEq, Repr

def Measurement.value : Measurement → ℚ
  | .latency ms => ms
  | .bandwidth kbps => kbps
  | .lossRate rate => rate

def Measurement.record : Measurement → LinkMetricTracker → LinkMetricTracker
  | .latency ms, tracker => tracker.recordLatency ms
  | .bandwidth kbps, tracker => tracker.recordBandwidth kbps
  | .lossRate rate, tracker => tracker.recordLossRate rate

def LinkMetricTracker.recordAll (self : LinkMetricTracker) (samples : List Measurement) :
    LinkMetricTracker :=
  samples.foldl (fun tracker sample => sample.record tracker) self

/-! ## All calls that change a tracker -/

inductive TrackerCall
  | record (sample : Measurement)
  | setRelayCost (cost : ℚ)
  deriving DecidableEq, Repr

namespace TrackerCall

def apply : TrackerCall → LinkMetricTracker → LinkMetricTracker
  | .record sample, tracker => sample.record tracker
  | .setRelayCost cost, tracker => tracker.setRelayCost cost

def latency : TrackerCall → Option ℚ
  | .record (.latency ms) => some ms
  | _ => none

def bandwidth : TrackerCall → Option ℚ
  | .record (.bandwidth kbps) => some kbps
  | _ => none

/-- The sample that is averaged, which is the clamped one. -/
def lossRate : TrackerCall → Option ℚ
  | .record (.lossRate rate) => some (max 0 (min rate 1))
  | _ => none

def relayCost : TrackerCall → Option ℚ
  | .setRelayCost cost => some cost
  | _ => none

/-- The second call is the same method with a value that is at least as bad. -/
inductive Worse : TrackerCall → TrackerCall → Prop
  | latency {ms ms'} : 0 ≤ ms → ms ≤ ms' → Worse (.record (.latency ms)) (.record (.latency ms'))
  | bandwidth {kbps kbps'} : kbps' ≤ kbps →
      Worse (.record (.bandwidth kbps)) (.record (.bandwidth kbps'))
  | lossRate {rate rate'} : rate ≤ rate' → Worse (.record (.lossRate rate)) (.record (.lossRate rate'))
  | relayCost {cost cost'} : cost ≤ cost' → Worse (.setRelayCost cost) (.setRelayCost cost')

end TrackerCall

def LinkMetricTracker.applyAll (self : LinkMetricTracker) (calls : List TrackerCall) : LinkMetricTracker :=
  calls.foldl (fun tracker call => call.apply tracker) self

/-- A tracker that started with `initial`, after the calls. -/
def LinkMetrics.track (initial : LinkMetrics) (calls : List TrackerCall) : LinkMetricTracker :=
  (LinkMetricTracker.new initial).applyAll calls

/-- Latencies are not negative, loss rates are fractions, and the second metrics are at least as bad. -/
structure LinkMetrics.Worse (m m' : LinkMetrics) : Prop where
  latency_nonneg : 0 ≤ m.latencyMs
  latency : m.latencyMs ≤ m'.latencyMs
  bandwidth : m'.bandwidthKbps ≤ m.bandwidthKbps
  lossRate_nonneg : 0 ≤ m.lossRate
  lossRate : m.lossRate ≤ m'.lossRate
  lossRate_le : m'.lossRate ≤ 1
  relayCost : m.relayCost ≤ m'.relayCost

end OmniMesh.Routing
