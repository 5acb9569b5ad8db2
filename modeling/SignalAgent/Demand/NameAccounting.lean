/- MID: SignalAgent/Demand/NameAccounting
   layer: results
   source: components/edgecontroller/demand_matcher.go, components/demandfilter/processor.go,
     components/metricstracker/processor.go
   digest: The names a demand list accounts for, against the names the filter lets through. -/

import SignalAgent.Demand.DemandMatcher
import SignalAgent.Demand.TrackerCoverage

set_option autoImplicit false
set_option relaxedAutoImplicit false

namespace SignalAgent.Demand.NameAccounting

open Foundations.GoText
open Telemetry.Pdata Telemetry.SeriesLabels Telemetry.SeriesTracker
open MetricFilter MetricFilterSpec TrackerCoverage DemandMatcher

/-- A metric with data and a name is kept under the demand, and the tracker emits the series. -/
def StoredUnder (P : Platform) (demands : List GoString) (n : GoString) : Prop :=
  ∃ (m : Metric) (resAttrs : Attributes), m.kind ≠ .empty ∧ baseName P m.toMetricHeader ≠ [] ∧
    isMetricDemanded P (demands.filter (fun d => d ≠ [])) m.toMetricHeader = true ∧
      n ∈ trackedNames P resAttrs m

/-- A name a metric of this type could be given by some namer. -/
def AnyName (_ : MetricKind) (base : GoString) : Prop := base ≠ []

/-- A name the namer gives to a metric of this type. -/
def Nameable (P : Platform) (kind : MetricKind) (base : GoString) : Prop :=
  base ≠ [] ∧ ∃ m : MetricHeader, m.kind = kind ∧ baseName P m = base

/-- The two components a summary has besides its quantiles. -/
def summarySuffixes : List GoString := [lit "_sum", lit "_count"]

/-- A metric with a name that can be given has both the series and a demanded name in its
family: the series is demanded itself, a component of a demanded summary, the quantiles of a
summary demanded by a component, or in a summary or a histogram with a demanded component. -/
inductive Reached (named : MetricKind → GoString → Prop) (demands : List GoString) :
    GoString → Prop where
  | itself {n : GoString} {kind : MetricKind} (name : named kind n)
      (bare : kind ≠ .empty ∧ kind ≠ .histogram) (demanded : n ∈ demands) :
      Reached named demands n
  | component {base suffix : GoString} (name : named .summary base)
      (known : suffix ∈ summarySuffixes) (demanded : base ∈ demands) :
      Reached named demands (base ++ suffix)
  | quantiles {n suffix : GoString} (name : named .summary n) (known : suffix ∈ summarySuffixes)
      (demanded : n ++ suffix ∈ demands) : Reached named demands n
  | summary {base suffix suffix' : GoString} (name : named .summary base)
      (known : suffix ∈ summarySuffixes) (known' : suffix' ∈ summarySuffixes)
      (demanded : base ++ suffix' ∈ demands) : Reached named demands (base ++ suffix)
  | histogram {base suffix suffix' : GoString} (name : named .histogram base)
      (known : suffix ∈ familySuffixes) (known' : suffix' ∈ familySuffixes)
      (demanded : base ++ suffix' ∈ demands) : Reached named demands (base ++ suffix)

/-- The bare name comes in through a demanded bucket name only, whatever the namer. -/
def BucketOnly (demands : List GoString) (n : GoString) : Prop :=
  n ≠ [] ∧ n ++ lit "_bucket" ∈ demands ∧ ¬ Reached AnyName demands n

/-- The name is a component of a summary whose own demanded name ends in a family suffix, and
no other demanded name accounts for it. -/
def SuffixedSummary (demands : List GoString) (n : GoString) : Prop :=
  ∃ d ∈ demands, (cutFamilySuffix d).isSome = true ∧
    (∃ suffix ∈ summarySuffixes, n = d ++ suffix) ∧ n ∉ demands ∧
      ∀ suffix ∈ familySuffixes, d ++ suffix ∉ demands ∧ n ++ suffix ∉ demands

/-- The types of metrics have the name and a demanded one in a family, but the namer gives no
metric the name it takes. -/
def Unnamed (P : Platform) (demands : List GoString) (n : GoString) : Prop :=
  Reached AnyName demands n ∧ ¬ SuffixedSummary demands n ∧ ¬ Reached (Nameable P) demands n

/-- The names one demanded name accounts for. -/
def expansion (d : GoString) : List GoString :=
  match cutFamilySuffix d with
  | some (base, _) => d :: base :: familySuffixes.map (base ++ ·)
  | none => d :: summarySuffixes.map (d ++ ·)

theorem mem_expandDemandNames {demands : List GoString} {n : GoString} :
    n ∈ expandDemandNames demands ↔ ∃ d ∈ demands, d ≠ [] ∧ n ∈ expansion d := by
  have one : ∀ set d, n ∈ expandDemandName set d ↔ n ∈ set ∨ d ≠ [] ∧ n ∈ expansion d := by
    intro set d
    unfold expandDemandName expansion
    by_cases empty : d = []
    · simp [empty]
    · rw [if_neg empty]
      cases cutFamilySuffix d with
      | none =>
        simp only [summarySuffixes, Finset.mem_insert, List.map_cons, List.map_nil, List.mem_cons,
          List.not_mem_nil, or_false, ne_eq, empty, not_false_eq_true, true_and]
        tauto
      | some cut =>
        simp only [familySuffixes, Finset.mem_insert, List.map_cons, List.map_nil, List.mem_cons,
          List.not_mem_nil, or_false, ne_eq, empty, not_false_eq_true, true_and]
        tauto
  unfold expandDemandNames
  induction demands using List.reverseRecOn with
  | nil => simp
  | append_singleton demands d ih =>
    rw [List.foldl_append, List.foldl_cons, List.foldl_nil, one]
    refine (or_congr_left ih).trans ?_
    simp [or_and_right, exists_or]

theorem mem_familyNames_of_tracked {P : Platform} {resAttrs : Attributes} {m : Metric}
    {n : GoString} (tracked : n ∈ trackedNames P resAttrs m) :
    n ∈ familyNames m.kind (baseName P m.toMetricHeader) := by
  obtain ⟨series, emitted, rfl⟩ := List.mem_map.mp tracked
  obtain ⟨dp, -, made⟩ := List.mem_flatMap.mp emitted
  exact (covered_of_mem_seriesOf P ⟨resAttrs, [], m.toMetricHeader, dp⟩ series made).name

theorem exists_tracked (P : Platform) (header : MetricHeader) (data : header.kind ≠ .empty)
    {n : GoString} (named : n ∈ familyNames header.kind (baseName P header)) :
    ∃ m : Metric, m.toMetricHeader = header ∧ n ∈ trackedNames P [] m := by
  obtain ⟨name, unit, kind⟩ := header
  cases kind with
  | empty => exact absurd rfl data
  | gauge => exact ⟨⟨⟨name, unit, .gauge⟩, [(⟨[], []⟩ : NumberDataPoint)]⟩, rfl, named⟩
  | sum isMonotonic temporality =>
    exact ⟨⟨⟨name, unit, .sum isMonotonic temporality⟩, [(⟨[], []⟩ : NumberDataPoint)]⟩, rfl, named⟩
  | histogram =>
    exact ⟨⟨⟨name, unit, .histogram⟩, [(⟨[], [], true, []⟩ : HistogramDataPoint)]⟩, rfl, named⟩
  | exponentialHistogram =>
    exact ⟨⟨⟨name, unit, .exponentialHistogram⟩, [(⟨[], []⟩ : ExponentialHistogramDataPoint)]⟩, rfl,
      named⟩
  | summary =>
    exact ⟨⟨⟨name, unit, .summary⟩, [(⟨[], [0], []⟩ : SummaryDataPoint)]⟩, rfl, named⟩

theorem storedUnder_iff {P : Platform} {demands : List GoString} {n : GoString} :
    StoredUnder P demands n ↔ ∃ m : MetricHeader, m.kind ≠ .empty ∧ baseName P m ≠ [] ∧
      n ∈ familyNames m.kind (baseName P m) ∧
        ∃ d ∈ demands, d ≠ [] ∧ d ∈ familyNames m.kind (baseName P m) := by
  constructor
  · rintro ⟨m, resAttrs, data, named, kept, tracked⟩
    obtain ⟨d, family, listed⟩ := (isMetricDemanded_iff data).mp kept
    obtain ⟨demanded, some⟩ := List.mem_filter.mp listed
    exact ⟨m.toMetricHeader, data, named, mem_familyNames_of_tracked tracked, d, demanded,
      of_decide_eq_true some, family⟩
  · rintro ⟨header, data, named, family, d, demanded, some, member⟩
    obtain ⟨m, rfl, tracked⟩ := exists_tracked P header data family
    refine ⟨m, [], data, named, ?_, tracked⟩
    exact (isMetricDemanded_iff data).mpr
      ⟨d, member, List.mem_filter.mpr ⟨demanded, decide_eq_true some⟩⟩

theorem summary_known {suffix : GoString} (known : suffix ∈ summarySuffixes) :
    suffix ∈ familySuffixes := List.mem_cons_of_mem _ known

theorem mem_histogramNames {base n : GoString} :
    n ∈ familyNames .histogram base ↔ ∃ suffix ∈ familySuffixes, n = base ++ suffix := by
  simp [familyNames, familySuffixes]

theorem mem_summaryNames {base n : GoString} :
    n ∈ familyNames .summary base ↔ n = base ∨ ∃ suffix ∈ summarySuffixes, n = base ++ suffix := by
  simp [familyNames, summarySuffixes]

theorem mem_plainNames {kind : MetricKind} (histogram : kind ≠ .histogram)
    (summary : kind ≠ .summary) {base n : GoString} : n ∈ familyNames kind base ↔ n = base := by
  cases kind <;> simp_all [familyNames]

section Reaching

variable {named named' : MetricKind → GoString → Prop} {demands : List GoString} {n : GoString}

theorem Reached.mono (reached : Reached named demands n)
    (more : ∀ kind base, named kind base → named' kind base) : Reached named' demands n := by
  cases reached with
  | itself name bare demanded => exact .itself (more _ _ name) bare demanded
  | component name known demanded => exact .component (more _ _ name) known demanded
  | quantiles name known demanded => exact .quantiles (more _ _ name) known demanded
  | summary name known known' demanded => exact .summary (more _ _ name) known known' demanded
  | histogram name known known' demanded => exact .histogram (more _ _ name) known known' demanded

theorem reached_iff : Reached named demands n ↔ ∃ kind base, kind ≠ .empty ∧ named kind base ∧
    n ∈ familyNames kind base ∧ ∃ d ∈ demands, d ∈ familyNames kind base := by
  constructor
  · intro reached
    cases reached with
    | @itself n kind name bare demanded =>
      by_cases summary : kind = .summary
      · subst summary
        have family : n ∈ familyNames .summary n := mem_summaryNames.mpr (.inl rfl)
        exact ⟨.summary, n, bare.1, name, family, n, demanded, family⟩
      · have family : n ∈ familyNames kind n := (mem_plainNames bare.2 summary).mpr rfl
        exact ⟨kind, n, bare.1, name, family, n, demanded, family⟩
    | component name known demanded =>
      exact ⟨.summary, _, nofun, name, mem_summaryNames.mpr (.inr ⟨_, known, rfl⟩), _, demanded,
        mem_summaryNames.mpr (.inl rfl)⟩
    | quantiles name known demanded =>
      exact ⟨.summary, _, nofun, name, mem_summaryNames.mpr (.inl rfl), _, demanded,
        mem_summaryNames.mpr (.inr ⟨_, known, rfl⟩)⟩
    | summary name known known' demanded =>
      exact ⟨.summary, _, nofun, name, mem_summaryNames.mpr (.inr ⟨_, known, rfl⟩), _, demanded,
        mem_summaryNames.mpr (.inr ⟨_, known', rfl⟩)⟩
    | histogram name known known' demanded =>
      exact ⟨.histogram, _, nofun, name, mem_histogramNames.mpr ⟨_, known, rfl⟩, _, demanded,
        mem_histogramNames.mpr ⟨_, known', rfl⟩⟩
  · rintro ⟨kind, base, data, name, family, d, demanded, member⟩
    by_cases histogram : kind = .histogram
    · subst histogram
      obtain ⟨suffix, known, rfl⟩ := mem_histogramNames.mp family
      obtain ⟨suffix', known', rfl⟩ := mem_histogramNames.mp member
      exact .histogram name known known' demanded
    by_cases summary : kind = .summary
    · subst summary
      rcases mem_summaryNames.mp family with rfl | ⟨suffix, known, rfl⟩
      · rcases mem_summaryNames.mp member with rfl | ⟨suffix, known, rfl⟩
        · exact .itself name ⟨data, histogram⟩ demanded
        · exact .quantiles name known demanded
      · rcases mem_summaryNames.mp member with rfl | ⟨suffix', known', rfl⟩
        · exact .component name known demanded
        · exact .summary name known known' demanded
    · rw [mem_plainNames histogram summary] at family member
      subst family
      subst member
      exact .itself name ⟨data, histogram⟩ demanded

theorem storedUnder_iff_reached {P : Platform} :
    StoredUnder P demands n ↔ Reached (Nameable P) demands n := by
  rw [storedUnder_iff, reached_iff]
  constructor
  · rintro ⟨m, data, named, family, d, demanded, -, member⟩
    exact ⟨m.kind, _, data, ⟨named, m, rfl, rfl⟩, family, d, demanded, member⟩
  · rintro ⟨_, _, data, ⟨named, m, rfl, rfl⟩, family, d, demanded, member⟩
    refine ⟨m, data, named, family, d, demanded, ?_, member⟩
    rintro rfl
    unfold familyNames at member
    split at member <;> simp_all

theorem anyName_of_nameable {P : Platform} (reached : Reached (Nameable P) demands n) :
    Reached AnyName demands n :=
  reached.mono (fun _ _ nameable => nameable.1)

end Reaching

theorem mem_expansion_of_cut {base suffix n : GoString} (named : base ≠ [])
    (known : suffix ∈ familySuffixes) :
    n ∈ expansion (base ++ suffix) ↔
      n = base ∨ ∃ suffix' ∈ familySuffixes, n = base ++ suffix' := by
  have cut : cutFamilySuffix (base ++ suffix) = some (base, suffix) :=
    cutFamilySuffix_eq_some.mpr ⟨known, named, rfl⟩
  simp only [expansion, cut, List.mem_cons, List.mem_map]
  constructor
  · rintro (rfl | rfl | ⟨suffix', known', rfl⟩)
    · exact Or.inr ⟨suffix, known, rfl⟩
    · exact Or.inl rfl
    · exact Or.inr ⟨suffix', known', rfl⟩
  · rintro (rfl | ⟨suffix', known', rfl⟩)
    · exact Or.inr (Or.inl rfl)
    · exact Or.inr (Or.inr ⟨suffix', known', rfl⟩)

theorem mem_expansion_of_uncut {d n : GoString} (uncut : cutFamilySuffix d = none) :
    n ∈ expansion d ↔ n = d ∨ ∃ suffix ∈ summarySuffixes, n = d ++ suffix := by
  simp only [expansion, uncut, List.mem_cons, List.mem_map, eq_comm]

theorem cut_cases (d : GoString) : cutFamilySuffix d = none ∨
    ∃ base suffix, base ≠ [] ∧ suffix ∈ familySuffixes ∧ d = base ++ suffix := by
  cases cut : cutFamilySuffix d with
  | none => exact Or.inl rfl
  | some parts =>
    obtain ⟨known, named, same⟩ := cutFamilySuffix_eq_some.mp cut
    exact Or.inr ⟨parts.1, parts.2, named, known, same⟩

section Expansion

private theorem plain_gauge : MetricKind.gauge ≠ .empty ∧ MetricKind.gauge ≠ .histogram := by
  decide

variable {demands : List GoString} {n : GoString}

private theorem expanded_of_cut {base suffix : GoString} (demanded : base ++ suffix ∈ demands)
    (named : base ≠ []) (known : suffix ∈ familySuffixes)
    (member : n = base ∨ ∃ suffix' ∈ familySuffixes, n = base ++ suffix') :
    n ∈ expandDemandNames demands := by
  rw [mem_expandDemandNames]
  exact ⟨_, demanded, by simp [named], (mem_expansion_of_cut named known).mpr member⟩

private theorem expanded_of_mem (some : n ≠ []) (demanded : n ∈ demands) :
    n ∈ expandDemandNames demands := by
  rw [mem_expandDemandNames]
  refine ⟨n, demanded, some, ?_⟩
  unfold expansion
  split <;> exact List.mem_cons_self

private theorem reached_of_expanded (expanded : n ∈ expandDemandNames demands) :
    Reached AnyName demands n ∨ n ≠ [] ∧ n ++ lit "_bucket" ∈ demands := by
  obtain ⟨d, demanded, some, member⟩ := mem_expandDemandNames.mp expanded
  rcases cut_cases d with uncut | ⟨base, suffix, named, known, rfl⟩
  · rcases (mem_expansion_of_uncut uncut).mp member with rfl | ⟨suffix, known, rfl⟩
    · exact Or.inl (.itself some plain_gauge demanded)
    · exact Or.inl (.component some known demanded)
  · rcases (mem_expansion_of_cut named known).mp member with rfl | ⟨suffix', known', rfl⟩
    · rcases List.mem_cons.mp known with rfl | summary
      · exact Or.inr ⟨named, demanded⟩
      · exact Or.inl (.quantiles named summary demanded)
    · exact Or.inl (.histogram named known' known demanded)

private theorem expanded_of_reached (reached : Reached AnyName demands n) :
    n ∈ expandDemandNames demands ∨ ∃ d ∈ demands, (cutFamilySuffix d).isSome = true ∧
      ∃ suffix ∈ summarySuffixes, n = d ++ suffix := by
  cases reached with
  | itself some _ demanded => exact Or.inl (expanded_of_mem some demanded)
  | @component base suffix named known demanded =>
    cases cut : cutFamilySuffix base with
    | none =>
      left
      rw [mem_expandDemandNames]
      exact ⟨base, demanded, named, (mem_expansion_of_uncut cut).mpr (Or.inr ⟨suffix, known, rfl⟩)⟩
    | some parts =>
      right
      exact ⟨base, demanded, by rw [cut]; rfl, suffix, known, rfl⟩
  | quantiles some known demanded =>
    exact Or.inl (expanded_of_cut demanded some (summary_known known) (Or.inl rfl))
  | summary named known known' demanded =>
    exact Or.inl (expanded_of_cut demanded named (summary_known known')
      (Or.inr ⟨_, summary_known known, rfl⟩))
  | histogram named known known' demanded =>
    exact Or.inl (expanded_of_cut demanded named known' (Or.inr ⟨_, known, rfl⟩))

private theorem ne_nil_of_cut {d : GoString} (cut : (cutFamilySuffix d).isSome = true) :
    d ≠ [] := by
  obtain ⟨parts, isCut⟩ := Option.isSome_iff_exists.mp cut
  obtain ⟨-, base, same⟩ := cutFamilySuffix_eq_some.mp isCut
  rw [same]
  exact List.append_ne_nil_of_left_ne_nil base _

private theorem expanded_component_iff {d suffix : GoString}
    (cut : (cutFamilySuffix d).isSome = true) (known : suffix ∈ summarySuffixes) :
    d ++ suffix ∈ expandDemandNames demands ↔ d ++ suffix ∈ demands ∨
      ∃ suffix' ∈ familySuffixes, d ++ suffix' ∈ demands ∨ d ++ suffix ++ suffix' ∈ demands := by
  have named := ne_nil_of_cut cut
  constructor
  · intro expanded
    obtain ⟨d', demanded, some, member⟩ := mem_expandDemandNames.mp expanded
    rcases cut_cases d' with uncut | ⟨base', suffix', named', known', rfl⟩
    · rcases (mem_expansion_of_uncut uncut).mp member with rfl | ⟨suffix', known', equal⟩
      · exact Or.inl demanded
      · obtain ⟨rfl, -⟩ := append_suffix_inj (summary_known known) (summary_known known') equal
        rw [uncut] at cut
        cases cut
    · rcases (mem_expansion_of_cut named' known').mp member with rfl | ⟨other, knownOther, equal⟩
      · exact Or.inr ⟨suffix', known', Or.inr demanded⟩
      · obtain ⟨rfl, -⟩ := append_suffix_inj (summary_known known) knownOther equal
        exact Or.inr ⟨suffix', known', Or.inl demanded⟩
  · rintro (demanded | ⟨suffix', known', demanded | demanded⟩)
    · exact expanded_of_mem (by simp [named]) demanded
    · exact expanded_of_cut demanded named known' (Or.inr ⟨suffix, summary_known known, rfl⟩)
    · exact expanded_of_cut demanded (by simp [named]) known' (Or.inl rfl)

private theorem overcounted_iff :
    (n ∈ expandDemandNames demands ∧ ¬ Reached AnyName demands n) ↔ BucketOnly demands n := by
  constructor
  · rintro ⟨expanded, unreached⟩
    rcases reached_of_expanded expanded with reached | ⟨some, bucket⟩
    · exact absurd reached unreached
    · exact ⟨some, bucket, unreached⟩
  · rintro ⟨some, bucket, unreached⟩
    have known : lit "_bucket" ∈ familySuffixes := List.mem_cons_self
    exact ⟨expanded_of_cut bucket some known (Or.inl rfl), unreached⟩

/-- The accounting misses a name that is reached exactly when the name is a component of a
summary with a family suffix of its own. -/
private theorem missed_iff :
    (Reached AnyName demands n ∧ n ∉ expandDemandNames demands) ↔ SuffixedSummary demands n := by
  constructor
  · rintro ⟨reached, missed⟩
    rcases expanded_of_reached reached with expanded | ⟨d, demanded, cut, suffix, known, rfl⟩
    · exact absurd expanded missed
    · rw [expanded_component_iff cut known] at missed
      push Not at missed
      exact ⟨d, demanded, cut, ⟨suffix, known, rfl⟩, missed⟩
  · rintro ⟨d, demanded, cut, ⟨suffix, known, rfl⟩, absent, others⟩
    have named := ne_nil_of_cut cut
    refine ⟨.component named known demanded, ?_⟩
    rw [expanded_component_iff cut known]
    push Not
    exact ⟨absent, others⟩

end Expansion

/-- For every namer, demand list and name: the accounting counts the name exactly when the filter
stores it, unless the name comes in through a demanded bucket name only, or is stored by a summary
whose demanded name ends in a family suffix and not accounted for otherwise, or would be stored by
metrics the namer names otherwise. -/
theorem expansion_matches_filter_iff (P : Platform) (demands : List GoString) (n : GoString) :
    (n ∈ expandDemandNames demands ↔ StoredUnder P demands n) ↔
      ¬ BucketOnly demands n ∧
        ¬ (SuffixedSummary demands n ∧ Reached (Nameable P) demands n) ∧ ¬ Unnamed P demands n := by
  have named : Reached (Nameable P) demands n → Reached AnyName demands n := anyName_of_nameable
  rw [storedUnder_iff_reached, Unnamed, ← overcounted_iff, ← missed_iff]
  tauto

private theorem nameable_plain {kind : MetricKind} {base : GoString} (some : AnyName kind base) :
    Nameable plainPlatform kind base :=
  ⟨some, ⟨base, [], kind⟩, rfl, rfl⟩

private theorem storedUnder_plain {demands : List GoString} {n : GoString} :
    StoredUnder plainPlatform demands n ↔ Reached AnyName demands n := by
  rw [storedUnder_iff_reached]
  exact ⟨anyName_of_nameable, fun reached => reached.mono (fun _ _ some => nameable_plain some)⟩

theorem summary_quantiles_are_accounted :
    lit "rpc" ∈ expandDemandNames [lit "rpc_count"] ∧
      StoredUnder plainPlatform [lit "rpc_count"] (lit "rpc") := by
  have counted : lit "rpc" ∈ expandDemandNames [lit "rpc_count"] := by decide +kernel
  refine ⟨counted, ((expansion_matches_filter_iff plainPlatform [lit "rpc_count"]
    (lit "rpc")).mpr ⟨?_, ?_, ?_⟩).mp counted⟩
  · rintro ⟨-, bucket, -⟩
    exact absurd bucket (by decide)
  · rintro ⟨⟨d, demanded, -, ⟨suffix, -, same⟩, -⟩, -⟩
    obtain rfl := List.mem_singleton.mp demanded
    have lengths := congrArg List.length same
    rw [List.length_append] at lengths
    have counted : (lit "rpc_count").length = 9 := by decide
    have short : (lit "rpc").length = 3 := by decide
    omega
  · rintro ⟨reached, -, unnamed⟩
    exact unnamed (reached.mono (fun _ _ some => nameable_plain some))

private theorem demanded_of_short {demands : List GoString} {n : GoString} (short : n.length < 4)
    (reached : Reached AnyName demands n) :
    n ∈ demands ∨ ∃ suffix ∈ summarySuffixes, n ++ suffix ∈ demands := by
  have long : ∀ base suffix : GoString, suffix ∈ familySuffixes → 4 ≤ (base ++ suffix).length := by
    intro base suffix known
    rw [List.length_append]
    exact Nat.le_add_left_of_le (four_le_length suffix known)
  cases reached with
  | itself _ _ demanded => exact .inl demanded
  | quantiles _ known demanded => exact .inr ⟨_, known, demanded⟩
  | component _ known | summary _ known =>
    exact absurd short (Nat.not_lt.mpr (long _ _ (summary_known known)))
  | histogram _ known => exact absurd short (Nat.not_lt.mpr (long _ _ known))

/-- A demanded bucket name also counts the bare name, which no metric stores; a demanded summary
name with a family suffix misses the components of that summary. -/
theorem bucket_counts_too_much_and_summary_too_little :
    (lit "rpc" ∈ expandDemandNames [lit "rpc_bucket"] ∧
      ¬ StoredUnder plainPlatform [lit "rpc_bucket"] (lit "rpc")) ∧
    (lit "rpc_sum_count" ∉ expandDemandNames [lit "rpc_sum"] ∧
      StoredUnder plainPlatform [lit "rpc_sum"] (lit "rpc_sum_count")) := by
  refine ⟨⟨by decide +kernel, ?_⟩, by decide +kernel, ?_⟩
  · rw [storedUnder_plain]
    intro reached
    rcases demanded_of_short (by decide) reached with itself | ⟨suffix, known, demanded⟩
    · exact absurd itself (by decide)
    · revert suffix
      decide
  · rw [storedUnder_plain]
    have parts : lit "rpc_sum_count" = lit "rpc_sum" ++ lit "_count" := by decide
    rw [parts]
    exact .component (show lit "rpc_sum" ≠ [] by decide) (by decide) (List.mem_singleton_self _)

end SignalAgent.Demand.NameAccounting
