/- MID: SignalAgent/Traces/RuleRouter
   layer: results
   source: components/tracerouter/exporter.go, components/tracerouter/factory.go
   digest: Groups are pushed in map order until one fails; a permanent failure drops the rest. -/

import SignalAgent.Demand.ResourceFilters

set_option autoImplicit false
set_option relaxedAutoImplicit false

namespace SignalAgent.Traces.RuleRouter

open Foundations.GoMaps Foundations.GoText
open Telemetry.Pdata
open Demand.ResourceFilters (filterIDAttr)

/-- The rule stamp; unstamped spans belong to the tenant-wide group. -/
def filterIDOf (rs : ResourceSpans) : GoString :=
  match rs.attributes.get filterIDAttr with
  | some v => v.str
  | none => []

def stripped (rs : ResourceSpans) : ResourceSpans :=
  { rs with attributes := rs.attributes.remove filterIDAttr }

def groupByFilterID (td : Traces) : GoMap GoString Traces :=
  td.foldl (fun out rs =>
    out.insert (filterIDOf rs) ((out.lookup (filterIDOf rs)).getD [] ++ [stripped rs])) ∅

/-- How one push can end. -/
inductive PushOutcome where
  | marshalFailed
  | requestFailed
  | transportFailed
  | status (code : Nat)
  deriving DecidableEq

def PushOutcome.accepted : PushOutcome → Bool
  | .status code => 200 ≤ code && code < 300
  | _ => false

/-- Client errors other than 408 and 429. -/
def PushOutcome.permanent : PushOutcome → Bool
  | .status code => 400 ≤ code && code < 500 && code != 408 && code != 429
  | _ => false

structure PushError where
  rule : GoString
  permanent : Bool
  deriving DecidableEq

def push (filterID : GoString) (outcome : PushOutcome) : Except PushError Unit :=
  match outcome with
  | .status code =>
    if code < 200 || 300 ≤ code then
      if 400 ≤ code && code < 500 && code != 408 && code != 429 then .error ⟨filterID, true⟩
      else .error ⟨filterID, false⟩
    else .ok ()
  | _ => .error ⟨filterID, false⟩

structure PushResult where
  delivered : List (GoString × Traces)
  result : Except PushError Unit

/-- The loop over the groups: the first failing push ends the call. -/
def pushGroups (groups : GoMap GoString Traces) (outcome : GoString → PushOutcome) :
    List GoString → PushResult
  | [] => ⟨[], .ok ()⟩
  | filterID :: rest =>
    match push filterID (outcome filterID) with
    | .error e => ⟨[], .error e⟩
    | .ok _ =>
      let later := pushGroups groups outcome rest
      ⟨(filterID, index groups [] filterID) :: later.delivered, later.result⟩

/-- One call of the exporter on a batch: the iteration order it happens to take and what
the server answers to each group. -/
structure Attempt where
  order : List GoString
  outcome : GoString → PushOutcome

def pushTraces (td : Traces) (attempt : Attempt) : PushResult :=
  pushGroups (groupByFilterID td) attempt.outcome attempt.order

/-- The batch is given up by its last attempt: every earlier one asked for a retry, the
last one failed for good. -/
def GivenUp (td : Traces) (earlier : List Attempt) (last : Attempt) : Prop :=
  (∀ a ∈ earlier, ∃ rule, (pushTraces td a).result = .error ⟨rule, false⟩) ∧
    ∃ rule, (pushTraces td last).result = .error ⟨rule, true⟩

/-- The server accepts the group whenever it is pushed. -/
def Healthy (attempts : List Attempt) (filterID : GoString) : Prop :=
  ∀ a ∈ attempts, (a.outcome filterID).accepted = true

def Delivered (td : Traces) (attempts : List Attempt) (filterID : GoString) : Prop :=
  ∃ a ∈ attempts, ∃ batch, (filterID, batch) ∈ (pushTraces td a).delivered

def Attempt.accepts (a : Attempt) (filterID : GoString) : Bool := (a.outcome filterID).accepted

/-- The first group of the iteration order whose push fails. -/
def Attempt.firstFailure (a : Attempt) : Option GoString := a.order.find? (fun id => !a.accepts id)

/-- The iteration order puts a failing group in front of this one. -/
def Attempt.cutOff (a : Attempt) (filterID : GoString) : Bool :=
  filterID ∈ a.order.dropWhile a.accepts

/-- The first failure of the attempt has this kind of status. -/
def Attempt.failsWith (a : Attempt) (permanent : Bool) : Bool :=
  a.firstFailure.any (fun id => (a.outcome id).permanent == permanent)

theorem mem_groupByFilterID {td : Traces} {filterID : GoString} :
    filterID ∈ groupByFilterID td ↔ ∃ rs ∈ td, filterIDOf rs = filterID := by
  unfold groupByFilterID
  induction td using List.reverseRecOn with
  | nil => simp [Finmap.notMem_empty]
  | append_singleton td rs ih =>
    simp only [List.foldl_append, List.foldl_cons, List.foldl_nil, Finmap.mem_insert, ih,
      List.mem_append, List.mem_singleton, or_and_right, exists_or, exists_eq_left]
    rw [or_comm, eq_comm]

theorem index_groupByFilterID (td : Traces) (filterID : GoString) :
    index (groupByFilterID td) [] filterID =
      (td.filter (fun rs => filterIDOf rs = filterID)).map stripped := by
  unfold groupByFilterID
  induction td using List.reverseRecOn with
  | nil => rfl
  | append_singleton td rs ih =>
    simp only [List.foldl_append, List.foldl_cons, List.foldl_nil, List.filter_append,
      List.map_append, ← ih]
    by_cases here : filterIDOf rs = filterID
    · subst here
      simp [index]
    · simp [index, here, Ne.symm here]

theorem push_ok_iff (filterID : GoString) (outcome : PushOutcome) :
    push filterID outcome = .ok () ↔ outcome.accepted = true := by
  cases outcome with
  | status code =>
    simp only [push, PushOutcome.accepted]
    by_cases outside : code < 200 || 300 ≤ code
    · rw [if_pos outside]
      have : ¬ (200 ≤ code ∧ code < 300) := by
        simp only [Bool.or_eq_true, decide_eq_true_eq] at outside
        omega
      split <;> simp [this]
    · rw [if_neg outside]
      simp only [Bool.or_eq_true, decide_eq_true_eq, not_or, not_lt, not_le] at outside
      simp [outside]
  | marshalFailed => simp [push, PushOutcome.accepted]
  | requestFailed => simp [push, PushOutcome.accepted]
  | transportFailed => simp [push, PushOutcome.accepted]

theorem push_of_refused (filterID : GoString) {outcome : PushOutcome}
    (refused : outcome.accepted = false) :
    push filterID outcome = .error ⟨filterID, outcome.permanent⟩ := by
  cases outcome with
  | status code =>
    have outside : (code < 200 || 300 ≤ code) = true := by
      simp only [PushOutcome.accepted, Bool.and_eq_false_iff, decide_eq_false_iff_not] at refused
      simp only [Bool.or_eq_true, decide_eq_true_eq]
      omega
    simp only [push, outside, if_true, PushOutcome.permanent]
    split
    · rename_i client
      rw [client]
    · rename_i other
      rw [Bool.not_eq_true] at other
      rw [other]
  | marshalFailed => rfl
  | requestFailed => rfl
  | transportFailed => rfl

theorem delivered_pushGroups (groups : GoMap GoString Traces) (outcome : GoString → PushOutcome)
    (order : List GoString) :
    (pushGroups groups outcome order).delivered =
      (order.takeWhile (fun id => (outcome id).accepted)).map
        (fun id => (id, index groups [] id)) := by
  induction order with
  | nil => rfl
  | cons filterID rest ih =>
    rw [pushGroups, List.takeWhile_cons]
    cases accepted : (outcome filterID).accepted with
    | false => simp [push_of_refused filterID accepted]
    | true => simp [(push_ok_iff filterID _).mpr accepted, ih]

theorem result_pushGroups (groups : GoMap GoString Traces) (outcome : GoString → PushOutcome)
    (order : List GoString) :
    (pushGroups groups outcome order).result =
      match order.find? (fun id => !(outcome id).accepted) with
      | some rule => .error ⟨rule, (outcome rule).permanent⟩
      | none => .ok () := by
  induction order with
  | nil => rfl
  | cons filterID rest ih =>
    rw [pushGroups]
    cases accepted : (outcome filterID).accepted with
    | false => simp [push_of_refused filterID accepted, accepted]
    | true => simp [(push_ok_iff filterID _).mpr accepted, accepted, ih]

theorem failed_iff_failsWith (td : Traces) (a : Attempt) (permanent : Bool) :
    (∃ rule, (pushTraces td a).result = .error ⟨rule, permanent⟩) ↔
      a.failsWith permanent = true := by
  simp only [pushTraces, result_pushGroups, Attempt.failsWith, Attempt.firstFailure,
    Attempt.accepts]
  cases a.order.find? (fun id => !(a.outcome id).accepted) with
  | none => simp
  | some rule => simp

theorem delivered_iff_not_cutOff (td : Traces) {a : Attempt} {filterID : GoString}
    (order : IterationOrder (groupByFilterID td) a.order) (member : filterID ∈ groupByFilterID td) :
    (∃ batch, (filterID, batch) ∈ (pushTraces td a).delivered) ↔ a.cutOff filterID = false := by
  have visited : filterID ∈ a.order.takeWhile a.accepts ++ a.order.dropWhile a.accepts := by
    rw [List.takeWhile_append_dropWhile]
    exact (order.2 filterID).mpr member
  have once : (a.order.takeWhile a.accepts ++ a.order.dropWhile a.accepts).Nodup := by
    rw [List.takeWhile_append_dropWhile]
    exact order.1
  have taken : (∃ batch, (filterID, batch) ∈ (pushTraces td a).delivered) ↔
      filterID ∈ a.order.takeWhile a.accepts := by
    show _ ↔ filterID ∈ a.order.takeWhile (fun id => (a.outcome id).accepted)
    rw [pushTraces, delivered_pushGroups]
    simp
  rw [taken, Attempt.cutOff, decide_eq_false_iff_not]
  constructor
  · intro front behind
    exact (List.nodup_append.mp once).2.2 filterID front filterID behind rfl
  · intro notBehind
    exact (List.mem_append.mp visited).resolve_right notBehind

/-- Over any run of retries that ends with the batch given up, every group the server accepts
has been delivered exactly when, for each of them, some attempt visits no failing group first. -/
theorem healthy_groups_delivered_iff_not_cut_off (td : Traces) (earlier : List Attempt)
    (last : Attempt)
    (orders : ∀ a ∈ earlier ++ [last], IterationOrder (groupByFilterID td) a.order) :
    (GivenUp td earlier last → ∀ filterID ∈ groupByFilterID td,
        Healthy (earlier ++ [last]) filterID → Delivered td (earlier ++ [last]) filterID) ↔
      ((∀ a ∈ earlier, a.failsWith false = true) → last.failsWith true = true →
        ∀ filterID ∈ groupByFilterID td, Healthy (earlier ++ [last]) filterID →
          ∃ a ∈ earlier ++ [last], a.cutOff filterID = false) := by
  simp only [GivenUp, failed_iff_failsWith, and_imp]
  refine imp_congr_right (fun _ => imp_congr_right (fun _ => forall_congr' (fun filterID =>
    imp_congr_right (fun member => imp_congr_right (fun _ => exists_congr (fun a =>
      and_congr_right (fun tried => ?_)))))))
  exact delivered_iff_not_cutOff td (orders a tried) member

/-- Two resources stamped for two rules. -/
def twoRules : Traces :=
  [⟨[(filterIDAttr, .string (lit "rule-a"))], [[0]]⟩,
    ⟨[(filterIDAttr, .string (lit "rule-b"))], [[1]]⟩]

def deletedRuleLast : Attempt where
  order := [lit "rule-b", lit "rule-a"]
  outcome := fun id => if id = lit "rule-a" then .status 403 else .status 200

def deletedRuleFirst : Attempt where
  order := [lit "rule-a", lit "rule-b"]
  outcome := fun id => if id = lit "rule-a" then .status 403 else .status 200

private theorem givenUp_single {td : Traces} {a : Attempt} (permanent : a.failsWith true = true) :
    GivenUp td [] a :=
  ⟨by simp, (failed_iff_failsWith td a true).mpr permanent⟩

theorem healthy_rule_delivered_before_deleted_rule :
    (∀ a ∈ [] ++ [deletedRuleLast], IterationOrder (groupByFilterID twoRules) a.order) ∧
      GivenUp twoRules [] deletedRuleLast ∧
      Delivered twoRules ([] ++ [deletedRuleLast]) (lit "rule-b") := by
  have orders : ∀ a ∈ [] ++ [deletedRuleLast],
      IterationOrder (groupByFilterID twoRules) a.order := by
    simp only [List.nil_append, List.mem_singleton, forall_eq]
    decide
  have givenUp : GivenUp twoRules [] deletedRuleLast := givenUp_single (by decide)
  have behind : deletedRuleLast.order.dropWhile deletedRuleLast.accepts = [lit "rule-a"] := by
    decide
  refine ⟨orders, givenUp, (healthy_groups_delivered_iff_not_cut_off twoRules [] deletedRuleLast
    orders).mpr ?_ givenUp (lit "rule-b") (by decide) ?_⟩
  · intro _ _ filterID _ healthy
    refine ⟨deletedRuleLast, by simp, ?_⟩
    have other : filterID ≠ lit "rule-a" := by
      rintro rfl
      exact absurd (healthy deletedRuleLast (by simp)) (by decide)
    simp [Attempt.cutOff, behind, other]
  · simp only [Healthy, List.nil_append, List.mem_singleton, forall_eq]
    decide

/-- A deleted rule answered with 403 takes the spans of a healthy rule with it. -/
theorem deleted_rule_drops_healthy_rule :
    IterationOrder (groupByFilterID twoRules) deletedRuleFirst.order ∧
      GivenUp twoRules [] deletedRuleFirst ∧ lit "rule-b" ∈ groupByFilterID twoRules ∧
      Healthy [deletedRuleFirst] (lit "rule-b") ∧
      ¬ Delivered twoRules [deletedRuleFirst] (lit "rule-b") := by
  have order : IterationOrder (groupByFilterID twoRules) deletedRuleFirst.order := by decide
  have member : lit "rule-b" ∈ groupByFilterID twoRules := by decide
  refine ⟨order, givenUp_single (by decide), member, ?_, ?_⟩
  · simp only [Healthy, List.mem_singleton, forall_eq]
    decide
  · rintro ⟨a, tried, delivered⟩
    obtain rfl := List.mem_singleton.mp tried
    have reached := (delivered_iff_not_cutOff twoRules order member).mp delivered
    exact absurd reached (by decide)

end SignalAgent.Traces.RuleRouter
