import StatusWatch.Condition.Basic
import StatusWatch.Condition.Wire
import StatusWatch.ConditionTypes
import StatusWatch.Decimal.Reader
import StatusWatch.Decimal.Shortest
import StatusWatch.Decoding
import StatusWatch.Event.Basic
import StatusWatch.Event.Broadcast
import StatusWatch.Event.Log
import StatusWatch.Instant.Basic
import StatusWatch.Instant.Date
import StatusWatch.Instant.Rfc3339
import StatusWatch.Json.Basic
import StatusWatch.Json.Printer
import StatusWatch.Json.Reader
import StatusWatch.Logging
import StatusWatch.Metrics.ConditionFamilies
import StatusWatch.Metrics.ConditionMetrics
import StatusWatch.Metrics.Descriptor
import StatusWatch.Metrics.Exposition
import StatusWatch.Metrics.Family
import StatusWatch.Metrics.Histogram
import StatusWatch.Metrics.Projection
import StatusWatch.Metrics.Registry
import StatusWatch.Metrics.SnakeCase
import StatusWatch.ObjectMeta
import StatusWatch.Observer
import StatusWatch.OrderedMap
import StatusWatch.Proofs.Accumulation
import StatusWatch.Proofs.AdHocConditions
import StatusWatch.Proofs.BoundOrder
import StatusWatch.Proofs.CommutingSets
import StatusWatch.Proofs.ConditionSets
import StatusWatch.Proofs.Creation
import StatusWatch.Proofs.DeclarationOrder
import StatusWatch.Proofs.DecodedSchemas
import StatusWatch.Proofs.Deletions
import StatusWatch.Proofs.Dimensions
import StatusWatch.Proofs.EnvironmentSettings
import StatusWatch.Proofs.Episodes
import StatusWatch.Proofs.Family
import StatusWatch.Proofs.Finalizers
import StatusWatch.Proofs.Fleets
import StatusWatch.Proofs.GrowingFamilies
import StatusWatch.Proofs.GuessedSettings
import StatusWatch.Proofs.Handles
import StatusWatch.Proofs.IdentityDeletion
import StatusWatch.Proofs.Interleaving
import StatusWatch.Proofs.Keys
import StatusWatch.Proofs.LabelSets
import StatusWatch.Proofs.Mirrors
import StatusWatch.Proofs.ObservedTimes
import StatusWatch.Proofs.PlainMaps
import StatusWatch.Proofs.Presence
import StatusWatch.Proofs.PresenceLabels
import StatusWatch.Proofs.PresenceRounds
import StatusWatch.Proofs.ProjectedNames
import StatusWatch.Proofs.Reconcile
import StatusWatch.Proofs.Recreation
import StatusWatch.Proofs.Registration
import StatusWatch.Proofs.RepeatedObservation
import StatusWatch.Proofs.ReportedChanges
import StatusWatch.Proofs.ResourceGauges
import StatusWatch.Proofs.RootDerivation
import StatusWatch.Proofs.Roster
import StatusWatch.Proofs.Round
import StatusWatch.Proofs.RoundedNumbers
import StatusWatch.Proofs.SavedDocuments
import StatusWatch.Proofs.SettingTrees
import StatusWatch.Proofs.SharedFamilies
import StatusWatch.Proofs.Shutdown
import StatusWatch.Proofs.SnakeWords
import StatusWatch.Proofs.SortedLists
import StatusWatch.Proofs.Stamps
import StatusWatch.Proofs.Stems
import StatusWatch.Proofs.Tenancy
import StatusWatch.Proofs.TransitionSeries
import StatusWatch.Proofs.Transitions
import StatusWatch.Proofs.WireFormats
import StatusWatch.Proofs.Writes
import StatusWatch.Proofs.WrittenKeys
import StatusWatch.Proofs.WrittenTimes
import StatusWatch.Proofs.WrittenUuids
import StatusWatch.Resource.Basic
import StatusWatch.Resource.ConditionSet
import StatusWatch.Resource.Document
import StatusWatch.Resource.Store
import StatusWatch.ResourceKey
import StatusWatch.Settings.Basic
import StatusWatch.Settings.Environment
import StatusWatch.Settings.Load
import StatusWatch.Settings.Value
import StatusWatch.Snapshot
import StatusWatch.Text.Hidden
import StatusWatch.Text.Quoted
import StatusWatch.Toml.Document
import StatusWatch.Toml.Scalar
import StatusWatch.Toml.Table
import StatusWatch.Toml.Text
import StatusWatch.Uuid
