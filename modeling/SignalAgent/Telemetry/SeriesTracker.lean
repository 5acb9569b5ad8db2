/- MID: SignalAgent/Telemetry/SeriesTracker
   layer: model
   source: components/metricstracker/processor.go
   digest: The series the metrics tracker derives from each datapoint of a batch. -/

import SignalAgent.Telemetry.SeriesLabels

set_option autoImplicit false
set_option relaxedAutoImplicit false

namespace SignalAgent.Telemetry.SeriesTracker

open Foundations.GoText
open Pdata SeriesLabels

/-- A series as it reaches `AddTimeseries`. -/
structure Series where
  name : GoString
  labels : LabelMap

def processPromSeries (R : GoRuntime) (metricName : GoString) (resAttrs pointAttrs : Attributes)
    (extraLabels : List (GoString × GoString)) : Series :=
  ⟨metricName, buildSeriesLabels R resAttrs pointAttrs extraLabels⟩

/-- A classic histogram: one bucket per bound and the last one, the optional sum, the count. -/
def histogramSeries (P : Platform) (base : GoString) (resAttrs : Attributes)
    (dp : HistogramDataPoint) : List Series :=
  dp.explicitBounds.map (fun bound => processPromSeries P.toGoRuntime (base ++ lit "_bucket")
      resAttrs dp.attributes [(lit "le", P.formatFloat bound)]) ++
    [processPromSeries P.toGoRuntime (base ++ lit "_bucket") resAttrs dp.attributes
      [(lit "le", lit "+Inf")]] ++
    (if dp.hasSum then
      [processPromSeries P.toGoRuntime (base ++ lit "_sum") resAttrs dp.attributes []] else []) ++
    [processPromSeries P.toGoRuntime (base ++ lit "_count") resAttrs dp.attributes []]

def summarySeries (P : Platform) (base : GoString) (resAttrs : Attributes)
    (dp : SummaryDataPoint) : List Series :=
  dp.quantiles.map (fun quantile => processPromSeries P.toGoRuntime base resAttrs dp.attributes
      [(lit "quantile", P.formatFloat quantile)]) ++
    [processPromSeries P.toGoRuntime (base ++ lit "_sum") resAttrs dp.attributes [],
      processPromSeries P.toGoRuntime (base ++ lit "_count") resAttrs dp.attributes []]

/-- The series of one datapoint of a metric of this kind. -/
def pointSeries (P : Platform) (base : GoString) (resAttrs : Attributes) :
    (kind : MetricKind) → kind.Point → List Series
  | .empty, dp => nomatch dp
  | .gauge, dp => [processPromSeries P.toGoRuntime base resAttrs (NumberDataPoint.attributes dp) []]
  | .sum _ _, dp =>
    [processPromSeries P.toGoRuntime base resAttrs (NumberDataPoint.attributes dp) []]
  | .histogram, dp => histogramSeries P base resAttrs dp
  | .exponentialHistogram, dp =>
    [processPromSeries P.toGoRuntime base resAttrs (ExponentialHistogramDataPoint.attributes dp) []]
  | .summary, dp => summarySeries P base resAttrs dp

def processTimeSeriesProm (P : Platform) (resAttrs : Attributes) (m : Metric) : List Series :=
  m.points.flatMap (pointSeries P (baseName P m.toMetricHeader) resAttrs m.kind)

/-- The series of a located datapoint. -/
def seriesOf (P : Platform) (p : Located) : List Series :=
  pointSeries P (baseName P p.header) p.resource p.header.kind p.point

/-- The whole batch is tracked datapoint by datapoint. -/
def processBatch (P : Platform) (md : Metrics) : List Series :=
  md.flatMap (fun rm => rm.scopeMetrics.flatMap (fun sm =>
    sm.metrics.flatMap (processTimeSeriesProm P rm.attributes)))

theorem processBatch_eq (P : Platform) (md : Metrics) :
    processBatch P md = (located md).flatMap (seriesOf P) := by
  simp only [located, ResourceMetrics.located, ScopeMetrics.located, Metric.located, seriesOf,
    List.flatMap_assoc, List.flatMap_map]
  rfl

@[simp] theorem normalizeLabelName_le (R : GoRuntime) :
    normalizeLabelName R (lit "le") = lit "le" := rfl

@[simp] theorem normalizeLabelName_quantile (R : GoRuntime) :
    normalizeLabelName R (lit "quantile") = lit "quantile" := rfl

end SignalAgent.Telemetry.SeriesTracker
