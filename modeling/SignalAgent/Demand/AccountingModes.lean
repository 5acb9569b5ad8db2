/- MID: SignalAgent/Demand/AccountingModes
   layer: results
   source: components/edgecontroller/demand_matcher.go, components/edgecontroller/extension.go
   digest: Names and the selectors that quote them account alike but for doubled suffixes. -/

import SignalAgent.Demand.Diagnosis
import SignalAgent.Demand.NameSelectors

set_option autoImplicit false
set_option relaxedAutoImplicit false

namespace SignalAgent.Demand.AccountingModes

open Foundations.GoText Foundations.GoQuote
open Selectors.SelectorMatch
open Telemetry.SeriesLabels
open Index.KnownCache
open CacheReset DemandMatcher NameAccounting SelectorAccounting NameSelectors Diagnosis

/-- One name is the other with a family suffix, and the shorter one ends in such a suffix, too: a
component of a suffixed summary, or a demanded component of a suffixed name. -/
def Doubled (n d : GoString) : Prop :=
  ((∃ suffix ∈ summarySuffixes, n = d ++ suffix) ∧ (cutFamilySuffix d).isSome = true) ∨
    ((∃ suffix ∈ familySuffixes, d = n ++ suffix) ∧ (cutFamilySuffix n).isSome = true)

section Pairs

variable {n d : GoString}

private theorem length_append_suffix (base : GoString) {suffix : GoString}
    (known : suffix ∈ familySuffixes) :
    base.length + 4 ≤ (base ++ suffix).length := by
  rw [List.length_append]
  exact Nat.add_le_add_left (four_le_length suffix known) _

private theorem ne_append_suffix (base : GoString) {suffix : GoString}
    (known : suffix ∈ familySuffixes) : base ≠ base ++ suffix := by
  intro same
  have longer := length_append_suffix base known
  rw [← same] at longer
  omega

private theorem cut_append {base suffix : GoString} (named : base ≠ [])
    (known : suffix ∈ familySuffixes) : (cutFamilySuffix (base ++ suffix)).isSome = true := by
  rw [cutFamilySuffix_eq_some.mpr ⟨known, named, rfl⟩]
  rfl

private theorem mem_variants_of_uncut (uncut : cutFamilySuffix n = none) :
    d ∈ familyNameVariants n ↔ d = n ∨ ∃ suffix ∈ familySuffixes, d = n ++ suffix := by
  unfold familyNameVariants
  rw [uncut]
  simp [familySuffixes]

private theorem agree_of_uncut (some_ : n ≠ []) (asked : d ≠ [])
    (uncut : cutFamilySuffix n = none) :
    d ∈ familyNameVariants n ↔ n ∈ expansion d := by
  rw [mem_variants_of_uncut uncut]
  rcases cut_cases d with bare | ⟨base, suffix, named, known, rfl⟩
  · rw [mem_expansion_of_uncut bare]
    constructor
    · rintro (rfl | ⟨suffix, known, rfl⟩)
      · exact Or.inl rfl
      · rw [cutFamilySuffix_eq_some.mpr ⟨known, some_, rfl⟩] at bare
        cases bare
    · rintro (rfl | ⟨suffix, known, rfl⟩)
      · exact Or.inl rfl
      · rw [cutFamilySuffix_eq_some.mpr ⟨summary_known known, asked, rfl⟩] at uncut
        cases uncut
  · rw [mem_expansion_of_cut named known]
    constructor
    · rintro (rfl | ⟨suffix', known', same⟩)
      · rw [cutFamilySuffix_eq_some.mpr ⟨known, named, rfl⟩] at uncut
        cases uncut
      · exact Or.inl (append_suffix_inj known known' same).1.symm
    · rintro (rfl | ⟨suffix', known', rfl⟩)
      · exact Or.inr ⟨suffix, known, rfl⟩
      · rw [cutFamilySuffix_eq_some.mpr ⟨known', named, rfl⟩] at uncut
        cases uncut

private theorem not_doubled_of_uncut (some_ : n ≠ []) (asked : d ≠ [])
    (uncut : cutFamilySuffix n = none) : ¬Doubled n d := by
  rintro (⟨⟨suffix, known, rfl⟩, -⟩ | ⟨-, cut⟩)
  · have cut := cut_append asked (summary_known known)
    rw [uncut] at cut
    cases cut
  · rw [uncut] at cut
    cases cut

private theorem agree_of_bare {base suffix : GoString} (named : base ≠ [])
    (known : suffix ∈ familySuffixes) (bare : cutFamilySuffix d = none) :
    (d ∈ familyNameVariants (base ++ suffix) ↔ base ++ suffix ∈ expansion d) ∧
      ¬Doubled (base ++ suffix) d := by
  have uncut : ∀ front back, front ≠ [] → back ∈ familySuffixes → d ≠ front ++ back := by
    rintro front back held listed rfl
    have cut := cut_append held listed
    rw [bare] at cut
    cases cut
  rw [mem_variants_of_suffix named known, mem_expansion_of_uncut bare]
  refine ⟨⟨?_, ?_⟩, ?_⟩
  · rintro (⟨suffix', known', same⟩ | ⟨summary, rfl⟩)
    · exact absurd same (uncut base suffix' named known')
    · exact Or.inr ⟨suffix, summary, rfl⟩
  · rintro (same | ⟨suffix', summary, same⟩)
    · exact absurd same.symm (uncut base suffix named known)
    · obtain ⟨rfl, rfl⟩ := append_suffix_inj known (summary_known summary) same
      exact Or.inr ⟨summary, rfl⟩
  · rintro (⟨-, cut⟩ | ⟨⟨suffix', known', same⟩, -⟩)
    · rw [bare] at cut
      cases cut
    · exact uncut _ suffix' (List.append_ne_nil_of_left_ne_nil named _) known' same

private theorem agree_of_components {base suffix base' suffix' : GoString} (named : base ≠ [])
    (known : suffix ∈ familySuffixes) (named' : base' ≠ []) (known' : suffix' ∈ familySuffixes) :
    (base' ++ suffix' ∈ familyNameVariants (base ++ suffix) ↔
      base ++ suffix ∈ expansion (base' ++ suffix')) ↔
        ¬Doubled (base ++ suffix) (base' ++ suffix') := by
  have variant : base' ++ suffix' ∈ familyNameVariants (base ++ suffix) ↔
      base' = base ∨ (suffix ∈ summarySuffixes ∧ base' ++ suffix' = base) := by
    rw [mem_variants_of_suffix named known]
    refine or_congr_left ⟨?_, ?_⟩
    · rintro ⟨s, listed, same⟩
      exact (append_suffix_inj known' listed same).1
    · rintro rfl
      exact ⟨suffix', known', rfl⟩
  have expanded : base ++ suffix ∈ expansion (base' ++ suffix') ↔
      base' = base ∨ base ++ suffix = base' := by
    rw [mem_expansion_of_cut named' known', or_comm]
    refine or_congr_left ⟨?_, ?_⟩
    · rintro ⟨s, listed, same⟩
      exact (append_suffix_inj known listed same).1.symm
    · rintro rfl
      exact ⟨suffix, known, rfl⟩
  have doubled : Doubled (base ++ suffix) (base' ++ suffix') ↔
      (suffix ∈ summarySuffixes ∧ base' ++ suffix' = base) ∨ base ++ suffix = base' := by
    refine or_congr ⟨?_, ?_⟩ ⟨?_, ?_⟩
    · rintro ⟨⟨s, summary, same⟩, -⟩
      obtain ⟨rfl, rfl⟩ := append_suffix_inj known (summary_known summary) same
      exact ⟨summary, rfl⟩
    · rintro ⟨summary, rfl⟩
      exact ⟨⟨suffix, summary, rfl⟩, cut_append named' known'⟩
    · rintro ⟨⟨s, listed, same⟩, -⟩
      exact (append_suffix_inj known' listed same).1.symm
    · rintro rfl
      exact ⟨⟨suffix', known', rfl⟩, cut_append named known⟩
  rw [variant, expanded, doubled]
  by_cases family : base' = base
  · subst family
    have apart := ne_append_suffix base' known
    have apart' := ne_append_suffix base' known'
    simp [apart.symm, apart'.symm]
  · have notBoth : base' ++ suffix' = base → base ++ suffix ≠ base' := by
      rintro rfl same
      have longer := length_append_suffix (base' ++ suffix') known
      have longer' := length_append_suffix base' known'
      rw [same] at longer
      omega
    rw [or_iff_right family, or_iff_right family]
    constructor
    · rintro agree (⟨summary, component⟩ | component)
      · exact notBoth component (agree.mp ⟨summary, component⟩)
      · exact notBoth (agree.mpr component).2 component
    · exact fun neither => iff_of_false (neither ∘ Or.inl) (neither ∘ Or.inr)

theorem variant_iff_expanded_iff (some_ : n ≠ []) (asked : d ≠ []) :
    (d ∈ familyNameVariants n ↔ n ∈ expansion d) ↔ ¬Doubled n d := by
  rcases cut_cases n with uncut | ⟨base, suffix, named, known, rfl⟩
  · exact iff_of_true (agree_of_uncut some_ asked uncut) (not_doubled_of_uncut some_ asked uncut)
  · rcases cut_cases d with bare | ⟨base', suffix', named', known', rfl⟩
    · obtain ⟨agree, single⟩ := agree_of_bare named known bare
      exact iff_of_true agree single
    · exact agree_of_components named known named' known'

end Pairs

/-- A demand by names. -/
def byNames (demands : List GoString) : DemandTimeseriesSnapshot :=
  ⟨demands, [], [], [], [], 0, 0⟩

/-- The same demand by the selectors that quote the names. -/
def bySelectors (isPrint : Nat → Bool) (demands : List GoString) : DemandTimeseriesSnapshot :=
  ⟨[], [], [], demands.map (nameSelector isPrint), [], 0, 0⟩

section Modes

variable {R : GoRuntime} {isPrint : Nat → Bool} {demands : List GoString}

private theorem matchesSeriesName_nameSelector {n d : GoString}
    (unquoted : R.unquote (quote isPrint d) = some d) :
    (parseNameSelector R (nameSelector isPrint d)).matchesSeriesName R n = true ↔
      d ∈ familyNameVariants n := by
  unfold parseNameSelector
  rw [parse_nameSelector unquoted]
  simp [NameSelector.matchesSeriesName, Matcher.matchValue]

private theorem mem_names {known : KnownTimeseriesCache} {n : GoString} :
    n ∈ demandedNameSet R (byNames demands) known ↔ ∃ d ∈ demands, d ≠ [] ∧ n ∈ expansion d :=
  mem_expandDemandNames

private theorem mem_selectors {known : KnownTimeseriesCache} {n : GoString} (some_ : demands ≠ [])
    (unquoted : ∀ d ∈ demands, R.unquote (quote isPrint d) = some d) :
    n ∈ demandedNameSet R (bySelectors isPrint demands) known ↔
      n ∈ metricNameSet known ∧ ∃ d ∈ demands, d ∈ familyNameVariants n := by
  have selecting : (bySelectors isPrint demands).metricSelectors ≠ [] := by
    simpa [bySelectors] using some_
  unfold demandedNameSet
  rw [if_pos selecting, selectorDemandedNames, Finset.mem_filter]
  refine and_congr_right (fun _ => ?_)
  simp only [bySelectors, parseNameSelectors, List.map_map, List.any_map, List.any_eq_true,
    Function.comp_apply]
  refine exists_congr (fun d => and_congr_right (fun listed => ?_))
  exact matchesSeriesName_nameSelector (unquoted d listed)

end Modes

/-- Whatever is known and demanded: a name and the selector that quotes it stand for the same
series names but for doubled suffixes, exactly there they differ; and without such a pair both
ways of demanding report the same number of series. -/
theorem accounting_modes_agree {R : GoRuntime} {isPrint : Nat → Bool} {demands : List GoString}
    (asked : demands ≠ []) (named : ∀ d ∈ demands, d ≠ [])
    (unquoted : ∀ d ∈ demands, R.unquote (quote isPrint d) = some d)
    (known : KnownTimeseriesCache) (nameless : [] ∉ metricNameSet known) :
    (∀ d ∈ demands, ∀ n ∈ metricNameSet known,
      ((StandsFor R (byNames demands) d n ↔
        StandsFor R (bySelectors isPrint demands) (nameSelector isPrint d) n) ↔ ¬Doubled n d)) ∧
      ((∀ d ∈ demands, ∀ n ∈ metricNameSet known, ¬Doubled n d) →
        countDemanded known (demandedNameSet R (byNames demands) known) =
          countDemanded known (demandedNameSet R (bySelectors isPrint demands) known)) := by
  have selecting : (bySelectors isPrint demands).metricSelectors ≠ [] := by
    simpa [bySelectors] using asked
  have some_ : ∀ n ∈ metricNameSet known, n ≠ [] := by
    rintro n listed rfl
    exact nameless listed
  refine ⟨fun d listed n present => ?_, fun single => ?_⟩
  · rw [← variant_iff_expanded_iff (some_ n present) (named d listed)]
    unfold StandsFor
    rw [if_neg (fun wrong => wrong rfl), if_pos selecting,
      matchesSeriesName_nameSelector (unquoted d listed), and_iff_right (named d listed)]
    exact iff_comm
  · rw [countDemanded_eq, countDemanded_eq]
    refine countEntries_congr (fun k e found => ?_)
    have present : e.metricName ∈ metricNameSet known := mem_metricNameSet.mpr ⟨k, e, found, rfl⟩
    rw [decide_eq_decide, mem_names, mem_selectors asked unquoted, and_iff_right present]
    refine exists_congr (fun d => and_congr_right (fun listed => ?_))
    rw [and_iff_right (named d listed)]
    exact ((variant_iff_expanded_iff (some_ _ present) (named d listed)).mpr
      (single d listed _ present)).symm

/-- A summary's component and the component of a summary with a suffixed name. -/
def twoSummaries : KnownTimeseriesCache :=
  updateTimeseries (updateTimeseries ∅ (HashKey.repeated 1) ⟨lit "latency_sum", [], 1⟩ 0)
    (HashKey.repeated 2) ⟨lit "wait_sum_count", [], 1⟩ 0

private theorem twoSummaries_names :
    metricNameSet twoSummaries = {lit "latency_sum", lit "wait_sum_count"} := by
  decide +kernel

theorem suffixed_summary_counts_by_selector :
    countDemanded twoSummaries (demandedNameSet plainPlatform.toGoRuntime
        (byNames [lit "latency"]) twoSummaries) =
      countDemanded twoSummaries (demandedNameSet plainPlatform.toGoRuntime
        (bySelectors (fun _ => true) [lit "latency"]) twoSummaries) ∧
    ¬(StandsFor plainPlatform.toGoRuntime (byNames [lit "wait_sum"]) (lit "wait_sum")
        (lit "wait_sum_count") ↔
      StandsFor plainPlatform.toGoRuntime (bySelectors (fun _ => true) [lit "wait_sum"])
        (nameSelector (fun _ => true) (lit "wait_sum")) (lit "wait_sum_count")) := by
  have nameless : [] ∉ metricNameSet twoSummaries := by
    rw [twoSummaries_names]
    decide
  have unquoted : ∀ name ∈ [lit "latency", lit "wait_sum"],
      plainPlatform.unquote (quote (fun _ => true) name) = some name := by decide +kernel
  have asked : ∀ name ∈ [lit "latency", lit "wait_sum"], ∀ d ∈ [name],
      d ≠ [] ∧ plainPlatform.unquote (quote (fun _ => true) d) = some d := by
    intro name listed d member
    rw [List.mem_singleton.mp member]
    exact ⟨(by decide : ∀ name ∈ [lit "latency", lit "wait_sum"], name ≠ []) name listed,
      unquoted name listed⟩
  have agrees : ∀ name ∈ [lit "latency", lit "wait_sum"], _ := fun name listed =>
    accounting_modes_agree (List.cons_ne_nil name [])
      (fun d member => (asked name listed d member).1)
      (fun d member => (asked name listed d member).2) twoSummaries nameless
  have bare := agrees (lit "latency") List.mem_cons_self
  have suffixed := agrees (lit "wait_sum") (List.mem_cons_of_mem _ List.mem_cons_self)
  refine ⟨bare.2 ?_, fun agree => ?_⟩
  · rw [twoSummaries_names]
    unfold Doubled
    decide
  · refine (suffixed.1 (lit "wait_sum") List.mem_cons_self (lit "wait_sum_count") ?_).mp agree ?_
    · rw [twoSummaries_names]
      decide
    · exact Or.inl ⟨⟨lit "_count", by decide, by decide⟩, by decide⟩

end SignalAgent.Demand.AccountingModes
