/- MID: SignalAgent/Demand/DemandMatcher
   layer: model
   source: components/edgecontroller/demand_matcher.go
   digest: The stored series names a demand list or a selector list accounts for. -/

import SignalAgent.Demand.MetricFilterSpec
import SignalAgent.Telemetry.SeriesTracker

set_option autoImplicit false
set_option relaxedAutoImplicit false

namespace SignalAgent.Demand.DemandMatcher

open Foundations.GoText
open Selectors.SelectorMatch
open Telemetry.Pdata Telemetry.SeriesLabels Telemetry.SeriesTracker
open MetricFilter

/-- A set of names, a `map[string]struct{}` in the source. -/
abbrev NameSet := Finset GoString

def familySuffixes : List GoString := [lit "_bucket", lit "_sum", lit "_count"]

/-- The name ends in the suffix and is longer than it. -/
def endsIn (name suffix : GoString) : Bool :=
  suffix.isSuffixOf name && decide (suffix.length < name.length)

/-- The name without the first family suffix it ends in, and that suffix. -/
def cutFamilySuffix (name : GoString) : Option (GoString × GoString) :=
  (familySuffixes.find? (endsIn name)).map
    (fun suffix => (name.take (name.length - suffix.length), suffix))

/-- What one demanded name adds to the set. -/
def expandDemandName (set : NameSet) (d : GoString) : NameSet :=
  if d = [] then set
  else
    let set := insert d set
    match cutFamilySuffix d with
    | some (base, _) =>
      insert (base ++ lit "_count") (insert (base ++ lit "_sum")
        (insert (base ++ lit "_bucket") (insert base set)))
    | none => insert (d ++ lit "_count") (insert (d ++ lit "_sum") set)

def expandDemandNames (demands : List GoString) : NameSet := demands.foldl expandDemandName ∅

/-- The view of a selector on `__name__` alone. -/
structure NameSelector where
  raw : GoString
  parsed : Bool
  nameMatchers : List Matcher
  deriving DecidableEq

def parseNameSelector (R : GoRuntime) (raw : GoString) : NameSelector :=
  match parse R raw with
  | .ok sel => ⟨raw, true, sel.matchers.filter (fun m => m.name = nameLabel)⟩
  | .error _ => ⟨raw, false, []⟩

def parseNameSelectors (R : GoRuntime) (selectors : List GoString) : List NameSelector :=
  selectors.map (parseNameSelector R)

/-- The names under which a selector would store the series `n`. -/
def familyNameVariants (n : GoString) : List GoString :=
  let (base, suffix) := (cutFamilySuffix n).getD (n, [])
  [n, base ++ lit "_bucket", base ++ lit "_sum", base ++ lit "_count"] ++
    -- A bare name demands a summary of that name, never a classic histogram.
    if suffix ≠ lit "_bucket" ∧ base ≠ n then [base] else []

def NameSelector.matchesSeriesName (R : GoRuntime) (ns : NameSelector) (n : GoString) : Bool :=
  ns.parsed && (familyNameVariants n).any (fun v => ns.nameMatchers.all (fun m => m.matchValue R v))

def selectorDemandedNames (R : GoRuntime) (selectors : List GoString) (knownNames : NameSet) :
    NameSet :=
  knownNames.filter (fun n => (parseNameSelectors R selectors).any (fun ns =>
    ns.matchesSeriesName R n) = true)

/-- The names of the series the tracker emits for a metric. -/
def trackedNames (P : Platform) (resAttrs : Attributes) (m : Metric) : List GoString :=
  (processTimeSeriesProm P resAttrs m).map Series.name

private theorem suffix_ending : ∀ suffix ∈ familySuffixes, ∀ suffix' ∈ familySuffixes,
    suffix.reverse.take 4 = suffix'.reverse.take 4 → suffix = suffix' := by decide

theorem four_le_length : ∀ suffix ∈ familySuffixes, 4 ≤ suffix.length := by decide

theorem append_suffix_inj {base base' suffix suffix' : GoString} (known : suffix ∈ familySuffixes)
    (known' : suffix' ∈ familySuffixes) (same : base ++ suffix = base' ++ suffix') :
    base = base' ∧ suffix = suffix' := by
  have endings := congrArg (fun s => s.reverse.take 4) same
  simp only [List.reverse_append] at endings
  rw [List.take_append_of_le_length (by simpa using four_le_length suffix known),
    List.take_append_of_le_length (by simpa using four_le_length suffix' known')] at endings
  have suffixes := suffix_ending suffix known suffix' known' endings
  subst suffixes
  exact ⟨List.append_cancel_right same, rfl⟩

private theorem endsIn_iff {name suffix : GoString} :
    endsIn name suffix = true ↔ ∃ base, base ≠ [] ∧ name = base ++ suffix := by
  rw [endsIn, Bool.and_eq_true, decide_eq_true_eq, List.isSuffixOf_iff_suffix]
  constructor
  · rintro ⟨⟨base, rfl⟩, longer⟩
    refine ⟨base, ?_, rfl⟩
    rintro rfl
    simp at longer
  · rintro ⟨base, held, rfl⟩
    have long := List.length_pos_of_ne_nil held
    refine ⟨⟨base, rfl⟩, ?_⟩
    rw [List.length_append]
    omega

private theorem take_base (base suffix : GoString) :
    (base ++ suffix).take ((base ++ suffix).length - suffix.length) = base := by
  rw [List.length_append, Nat.add_sub_cancel, List.take_left]

theorem cutFamilySuffix_eq_some {name base suffix : GoString} :
    cutFamilySuffix name = some (base, suffix) ↔
      suffix ∈ familySuffixes ∧ base ≠ [] ∧ name = base ++ suffix := by
  unfold cutFamilySuffix
  rw [Option.map_eq_some_iff]
  constructor
  · rintro ⟨found, first, same⟩
    obtain ⟨front, held, rfl⟩ := endsIn_iff.mp (List.find?_some first)
    rw [take_base] at same
    obtain ⟨rfl, rfl⟩ := Prod.mk.inj same
    exact ⟨List.mem_of_find?_eq_some first, held, rfl⟩
  · rintro ⟨known, held, rfl⟩
    have some : (familySuffixes.find? (endsIn (base ++ suffix))).isSome := by
      rw [List.find?_isSome]
      exact ⟨suffix, known, endsIn_iff.mpr ⟨base, held, rfl⟩⟩
    obtain ⟨found, first⟩ := Option.isSome_iff_exists.mp some
    -- No other family suffix ends the name.
    obtain ⟨front, -, same⟩ := endsIn_iff.mp (List.find?_some first)
    obtain ⟨rfl, rfl⟩ := append_suffix_inj known (List.mem_of_find?_eq_some first) same
    exact ⟨suffix, first, by rw [take_base]⟩

end SignalAgent.Demand.DemandMatcher
