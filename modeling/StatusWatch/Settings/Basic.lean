import StatusWatch.Decoding
import StatusWatch.Logging
import StatusWatch.Metrics.Registry

/-!
# Observer settings

- `MetricsSettings`, `LoggingSettings`, `ObserverSettings`: the settings; their default
  values are the instances of `Inhabited`.
- `encode`, `decode`: the wire format; every field has a default.
- `MetricsSettings.registry`: a registry with the configured scope.
- `LoggingSettings.subscriber`: the log settings of a service.
-/

namespace StatusWatch

/-! ## Metrics -/

structure MetricsSettings where
  /-- What the names of all metrics start with. -/
  scope : String
  /-- Repeat every write in the families shared by all kinds. -/
  legacyMetrics : Bool
  /-- Resource label keys that are copied onto the metrics of a kind. -/
  labelProjection : List String
deriving DecidableEq

namespace MetricsSettings

instance : Inhabited MetricsSettings := ⟨Metrics.Registry.defaultScope, false, []⟩

/-- A registry with the configured scope. -/
def registry (s : MetricsSettings) : Metrics.Registry := .new s.scope

def encode (s : MetricsSettings) : Json :=
  .object
    [("label_projection", .array (s.labelProjection.map .string)),
      ("legacy_metrics", .bool s.legacyMetrics),
      ("namespace", .string s.scope)]

def decode : Decoder MetricsSettings :=
  let shape : Decoder.Shape := ⟨"MetricsConfig", 3⟩
  let base : MetricsSettings := default
  Decoder.record shape
    (fun fields => do
      let projection ← Decoder.optional fields "label_projection" (Decoder.list Decoder.string)
      let legacy ← Decoder.optional fields "legacy_metrics" Decoder.bool
      let scope ← Decoder.optional fields "namespace" Decoder.string
      return ⟨scope.getD base.scope, legacy.getD base.legacyMetrics,
        projection.getD base.labelProjection⟩)
    (fun js => do
      let scope ← Decoder.elementOr base.scope 0 js Decoder.string
      let legacy ← Decoder.elementOr base.legacyMetrics 1 js Decoder.bool
      let projection ← Decoder.elementOr base.labelProjection 2 js (Decoder.list Decoder.string)
      return ⟨scope, legacy, projection⟩)

end MetricsSettings

/-! ## Logging -/

structure LoggingSettings where
  level : String
  /-- Write log lines as JSON. -/
  json : Bool
deriving DecidableEq

namespace LoggingSettings

instance : Inhabited LoggingSettings := ⟨LogSettings.defaultLevel, false⟩

/-- The log settings of a service. -/
def subscriber (s : LoggingSettings) (serviceName : String) : LogSettings :=
  let base := (LogSettings.of serviceName).withLevel s.level
  if s.json then base.withJsonFormat else base

def encode (s : LoggingSettings) : Json :=
  .object [("json", .bool s.json), ("level", .string s.level)]

def decode : Decoder LoggingSettings :=
  let shape : Decoder.Shape := ⟨"LoggingConfig", 2⟩
  let base : LoggingSettings := default
  Decoder.record shape
    (fun fields => do
      let json ← Decoder.optional fields "json" Decoder.bool
      let level ← Decoder.optional fields "level" Decoder.string
      return ⟨level.getD base.level, json.getD base.json⟩)
    (fun js => do
      let level ← Decoder.elementOr base.level 0 js Decoder.string
      let json ← Decoder.elementOr base.json 1 js Decoder.bool
      return ⟨level, json⟩)

end LoggingSettings

/-! ## Observers -/

/-- The settings of an observer. -/
structure ObserverSettings where
  /-- Seconds until a resource is observed again. -/
  requeueIntervalSecs : UInt64
  /-- How many resources are observed at a time. -/
  maxConcurrentReconciles : UInt64
  metrics : MetricsSettings
  logging : LoggingSettings
deriving DecidableEq

namespace ObserverSettings

instance : Inhabited ObserverSettings := ⟨10, 10, default, default⟩

def encode (s : ObserverSettings) : Json :=
  .object
    [("logging", s.logging.encode),
      ("max_concurrent_reconciles", .int s.maxConcurrentReconciles.toNat),
      ("metrics", s.metrics.encode),
      ("requeue_interval_secs", .int s.requeueIntervalSecs.toNat)]

def decode : Decoder ObserverSettings :=
  let shape : Decoder.Shape := ⟨"ObserverConfig", 4⟩
  let base : ObserverSettings := default
  Decoder.record shape
    (fun fields => do
      let logging ← Decoder.optional fields "logging" LoggingSettings.decode
      let limit ← Decoder.optional fields "max_concurrent_reconciles" (Decoder.uint64 "usize")
      let metrics ← Decoder.optional fields "metrics" MetricsSettings.decode
      let requeue ← Decoder.optional fields "requeue_interval_secs" (Decoder.uint64 "u64")
      return ⟨requeue.getD base.requeueIntervalSecs, limit.getD base.maxConcurrentReconciles,
        metrics.getD base.metrics, logging.getD base.logging⟩)
    (fun js => do
      let requeue ← Decoder.elementOr base.requeueIntervalSecs 0 js (Decoder.uint64 "u64")
      let limit ← Decoder.elementOr base.maxConcurrentReconciles 1 js (Decoder.uint64 "usize")
      let metrics ← Decoder.elementOr base.metrics 2 js MetricsSettings.decode
      let logging ← Decoder.elementOr base.logging 3 js LoggingSettings.decode
      return ⟨requeue, limit, metrics, logging⟩)

/-- Observe again after the given number of milliseconds, cut to seconds. -/
def withRequeueMillis (s : ObserverSettings) (millis : UInt64) : ObserverSettings :=
  { s with requeueIntervalSecs := millis / 1000 }

def withMaxConcurrent (s : ObserverSettings) (limit : UInt64) : ObserverSettings :=
  { s with maxConcurrentReconciles := limit }

def withScope (s : ObserverSettings) (scope : String) : ObserverSettings :=
  { s with metrics := { s.metrics with scope } }

def withLegacyMetrics (s : ObserverSettings) (enabled : Bool) : ObserverSettings :=
  { s with metrics := { s.metrics with legacyMetrics := enabled } }

def withLabelProjection (s : ObserverSettings) (keys : List String) : ObserverSettings :=
  { s with metrics := { s.metrics with labelProjection := keys } }

end ObserverSettings

end StatusWatch
