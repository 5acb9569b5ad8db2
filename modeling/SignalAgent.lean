import SignalAgent.Foundations.GuardedRuns
import SignalAgent.Foundations.RingWindow
import SignalAgent.Index.KnownCache
import SignalAgent.Index.SlidingWindow
import SignalAgent.Demand.DemandPipeline
import SignalAgent.Demand.FailClosed
import SignalAgent.Demand.SplitReads
import SignalAgent.Demand.TrackerCoverage
import SignalAgent.Index.CommitOnAck
import SignalAgent.Index.IndexInvariant
import SignalAgent.Index.IntakeRaces
import SignalAgent.Index.LostAcks
import SignalAgent.Traces.RuleRouter
import SignalAgent.Traces.StampedSpans
import SignalAgent.Backoff.IngestValve
import SignalAgent.Backoff.ProbeOutcome
import SignalAgent.Backoff.ProbeSpacing
import SignalAgent.Control.AckCorrelation
import SignalAgent.Control.ConfigApply
import SignalAgent.Control.ConfigSet
import SignalAgent.Control.ReplyStreams
import SignalAgent.Demand.NameSelectors
import SignalAgent.Index.IdleDeletes
import SignalAgent.Traces.RouteCopies
import SignalAgent.Traces.SenderStamps
import SignalAgent.Demand.AttributeOrder
import SignalAgent.Demand.CacheTransparency
import SignalAgent.Demand.DemandMatcher
import SignalAgent.Demand.ImplicitMatchAll
import SignalAgent.Demand.NameAccounting
import SignalAgent.Demand.SelectorAccounting
import SignalAgent.Foundations.Re2Syntax
import SignalAgent.Foundations.Re2Wrapping
import SignalAgent.Selectors.AnchoredMatchers
import SignalAgent.Selectors.CheckedScanner
import SignalAgent.Telemetry.BatchAccounting
import SignalAgent.Traces.RoutedSelection
import SignalAgent.Control.ConfigWrite
import SignalAgent.Control.TunnelAllowList
import SignalAgent.Control.ValidatorReply
import SignalAgent.Demand.CacheReset
import SignalAgent.Index.BatchSelection
import SignalAgent.Index.DiscoveredBatch
import SignalAgent.Index.MessageSize
import SignalAgent.Index.SendableSeries
import SignalAgent.Telemetry.SelectableNames
import SignalAgent.Control.QuerySlots
import SignalAgent.Control.ConfigCrash
import SignalAgent.Control.ConfigRestart
import SignalAgent.Control.ConfigSources
import SignalAgent.Control.ConfigReads
import SignalAgent.Control.StreamLoops
import SignalAgent.Control.ShutdownWait
import SignalAgent.Control.CommandReplies
import SignalAgent.Control.PlaneReplies
import SignalAgent.Control.AgentWire
import SignalAgent.Index.BatchRegistry
import SignalAgent.Index.QuietTurns
import SignalAgent.Index.UpdatePacing
import SignalAgent.Demand.Heartbeats
import SignalAgent.Demand.AccountingModes
import SignalAgent.Demand.SeriesSelectors
import SignalAgent.Resolve.ResolveOnce
import SignalAgent.Backoff.SuppressionBound
import SignalAgent.Traces.RouterRequests
import SignalAgent.Control.QueryReplies
