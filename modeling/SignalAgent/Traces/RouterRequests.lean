/- MID: SignalAgent/Traces/RouterRequests
   layer: results
   source: components/tracerouter/exporter.go, components/tracerouter/config.go
   digest: Every request names the rule of its spans, and retries repeat whole groups only. -/

import Mathlib.Data.List.Perm.Basic
import Mathlib.Data.List.TakeWhile
import SignalAgent.Foundations.GoHeaders
import SignalAgent.Foundations.GoStrings
import SignalAgent.Traces.RuleRouter

set_option autoImplicit false
set_option relaxedAutoImplicit false

namespace SignalAgent.Traces.RouterRequests

open Foundations.GoHeaders Foundations.GoMaps Foundations.GoStrings Foundations.GoText
open Telemetry.Pdata
open RuleRouter
open Demand.ResourceFilters (filterIDAttr)

/-- `RuleHeader`. -/
def ruleHeader : GoString := lit "X-Lean-Trace-Rule"

structure Config where
  endpoint : GoString
  headers : GoMap GoString GoString

def tracesURL (cfg : Config) : GoString := trimRight cfg.endpoint 0x2F ++ lit "/v1/traces"

structure Request where
  method : GoString
  url : GoString
  header : Header
  body : Traces

/-- The header without the rule; `order` is the order in which `Headers` is visited. -/
def commonHeader (cfg : Config) (order : List GoString) : Header :=
  setAll (setHeader ∅ (lit "Content-Type") (lit "application/x-protobuf")) cfg.headers order

/-- What `push` hands to the client. -/
def newRequest (cfg : Config) (order : List GoString) (filterID : GoString) (td : Traces) :
    Request where
  method := lit "POST"
  url := tracesURL cfg
  header :=
    let h := commonHeader cfg order
    if filterID ≠ [] then setHeader h ruleHeader filterID else h
  body := td

/-- The push got as far as the client. -/
def PushOutcome.sends : PushOutcome → Bool
  | .marshalFailed | .requestFailed => false
  | .transportFailed | .status _ => true

/-- The requests of one call of the exporter, each with the group it is for. Every push has
an order of its own for the configured headers. -/
def requests (cfg : Config) (groups : GoMap GoString Traces) (outcome : GoString → PushOutcome)
    (headerOrder : GoString → List GoString) : List GoString → List (GoString × Request)
  | [] => []
  | filterID :: rest =>
    let request := newRequest cfg (headerOrder filterID) filterID (index groups [] filterID)
    let sent := if PushOutcome.sends (outcome filterID) then [(filterID, request)] else []
    match push filterID (outcome filterID) with
    | .error _ => sent
    | .ok _ => sent ++ requests cfg groups outcome headerOrder rest

/-- The requests of one attempt on a batch. -/
def attemptRequests (cfg : Config) (td : Traces) (headerOrder : GoString → List GoString)
    (attempt : Attempt) : List (GoString × Request) :=
  requests cfg (groupByFilterID td) attempt.outcome headerOrder attempt.order

/-- The resource carries the stamp's attribute at most once. -/
def StampedOnce (rs : ResourceSpans) : Prop :=
  rs.attributes.countP (fun kv => kv.1 == filterIDAttr) ≤ 1

instance (rs : ResourceSpans) : Decidable (StampedOnce rs) := by
  unfold StampedOnce
  infer_instance

/-- The request is for the spans of one rule and says so; spans without a rule go out under the
configured headers alone. -/
structure NamesRule (cfg : Config) (td : Traces) (order : List GoString) (filterID : GoString)
    (r : Request) : Prop where
  post : r.method = lit "POST"
  url : r.url = trimRight cfg.endpoint 0x2F ++ lit "/v1/traces"
  spans : r.body = (td.filter (fun rs => filterIDOf rs = filterID)).map stripped
  unstamped : (∀ rs ∈ td, StampedOnce rs) →
    ∀ rs ∈ r.body, rs.attributes.get filterIDAttr = none
  rule : filterID ≠ [] → r.header.lookup ruleHeader = some filterID
  tenantWide : filterID = [] → r.header = commonHeader cfg order
  others : ∀ name, name ≠ ruleHeader →
    r.header.lookup name = (commonHeader cfg order).lookup name

section

variable {cfg : Config} {td : Traces}

private theorem canonical_ruleHeader : canonicalHeaderKey ruleHeader = ruleHeader := by
  decide +kernel

private theorem namesRule_newRequest (order : List GoString) (filterID : GoString) :
    NamesRule cfg td order filterID
      (newRequest cfg order filterID (index (groupByFilterID td) [] filterID)) where
  post := rfl
  url := rfl
  spans := index_groupByFilterID td filterID
  unstamped := by
    intro once sent member
    rw [newRequest, index_groupByFilterID] at member
    obtain ⟨rs, kept, rfl⟩ := List.mem_map.mp member
    exact (Attributes.get_remove_eq_none_iff rs.attributes filterIDAttr).mpr
      (once rs (List.mem_of_mem_filter kept))
  rule := by
    intro stamped
    simp [newRequest, stamped, lookup_setHeader, canonical_ruleHeader]
  tenantWide := by
    intro unstamped
    simp [newRequest, unstamped]
  others := by
    intro name apart
    by_cases stamped : filterID = []
    · simp [newRequest, stamped]
    · simp [newRequest, stamped, lookup_setHeader, canonical_ruleHeader, apart]

private theorem sends_of_accepted {outcome : PushOutcome} (accepted : outcome.accepted = true) :
    PushOutcome.sends outcome = true := by
  cases outcome <;> first | rfl | cases accepted

/-- The requests are the accepted groups in front of the first failure and, if it reached the
client, the failing one. -/
private theorem requests_eq (groups : GoMap GoString Traces) (outcome : GoString → PushOutcome)
    (headerOrder : GoString → List GoString) (order : List GoString) :
    requests cfg groups outcome headerOrder order =
      (order.takeWhile (fun id => (outcome id).accepted) ++
        ((order.find? (fun id => !(outcome id).accepted)).filter
          (fun id => PushOutcome.sends (outcome id))).toList).map
        (fun id => (id, newRequest cfg (headerOrder id) id (index groups [] id))) := by
  induction order with
  | nil => rfl
  | cons filterID rest ih =>
    rw [requests, List.takeWhile_cons, List.find?_cons]
    cases accepted : (outcome filterID).accepted with
    | false =>
      rw [push_of_refused filterID accepted]
      cases sends : PushOutcome.sends (outcome filterID) <;> simp [Option.filter, sends]
    | true =>
      rw [(push_ok_iff filterID _).mpr accepted, ih, sends_of_accepted accepted]
      simp

private theorem sublist_requests (headerOrder : GoString → List GoString) (a : Attempt) :
    ((attemptRequests cfg td headerOrder a).map Prod.fst).Sublist a.order := by
  have front : ∀ order : List GoString,
      (order.takeWhile (fun id => (a.outcome id).accepted) ++
        ((order.find? (fun id => !(a.outcome id).accepted)).filter
          (fun id => PushOutcome.sends (a.outcome id))).toList).Sublist order := by
    intro order
    induction order with
    | nil => simp
    | cons id rest ih =>
      rw [List.takeWhile_cons, List.find?_cons]
      cases accepted : (a.outcome id).accepted with
      | false => cases sends : PushOutcome.sends (a.outcome id) <;> simp [Option.filter, sends]
      | true => simpa using ih.cons_cons id
  rw [attemptRequests, requests_eq, List.map_map]
  simpa [Function.comp_def] using front a.order

private theorem flatMap_filter_perm {α κ : Type} [DecidableEq κ] (key : α → κ) {order : List κ}
    (once : order.Nodup) :
    ∀ xs : List α, (∀ x ∈ xs, key x ∈ order) →
      (order.flatMap (fun k => xs.filter (fun x => key x = k))).Perm xs := by
  induction order with
  | nil =>
    intro xs covered
    have none : xs = [] := List.eq_nil_iff_forall_not_mem.mpr fun x member => by
      cases covered x member
    rw [none]
    exact .nil
  | cons first rest ih =>
    intro xs covered
    obtain ⟨absent, later⟩ := List.nodup_cons.mp once
    have others : rest.flatMap (fun k => xs.filter (fun x => key x = k)) =
        rest.flatMap (fun k => (xs.filter (fun x => !decide (key x = first))).filter
          (fun x => key x = k)) := by
      refine List.flatMap_congr (fun k listed => ?_)
      rw [List.filter_filter]
      refine List.filter_congr (fun x _ => ?_)
      have apart : k ≠ first := fun same => absent (same ▸ listed)
      by_cases same : key x = k
      · simp [same, apart]
      · simp [same]
    have rest_ := ih later (xs.filter (fun x => !decide (key x = first))) (by
      intro x member
      obtain ⟨listed, apart⟩ := List.mem_filter.mp member
      exact (List.mem_cons.mp (covered x listed)).resolve_left (by simpa using apart))
    rw [List.flatMap_cons, others]
    exact (rest_.append_left _).trans (List.filter_append_perm (fun x => decide (key x = first)) xs)

private theorem delivered_perm {a : Attempt}
    (visits : IterationOrder (groupByFilterID td) a.order)
    (success : (pushTraces td a).result = .ok ()) :
    ((pushTraces td a).delivered.flatMap Prod.snd).Perm (td.map stripped) := by
  have all : a.order.takeWhile (fun id => (a.outcome id).accepted) = a.order := by
    rw [List.takeWhile_eq_self_iff]
    intro id listed
    rw [pushTraces, result_pushGroups] at success
    cases failed : a.order.find? (fun id => !(a.outcome id).accepted) with
    | some rule => simp [failed] at success
    | none => simpa using List.find?_eq_none.mp failed id listed
  have bins : (pushTraces td a).delivered.flatMap Prod.snd =
      (a.order.flatMap (fun id => td.filter (fun rs => filterIDOf rs = id))).map stripped := by
    rw [pushTraces, delivered_pushGroups, all, List.flatMap_map, List.map_flatMap]
    exact List.flatMap_congr (fun id _ => index_groupByFilterID td id)
  rw [bins]
  refine (flatMap_filter_perm filterIDOf visits.1 td (fun rs member => ?_)).map stripped
  exact (visits.2 _).mpr (mem_groupByFilterID.mpr ⟨rs, member, rfl⟩)

private theorem count_delivered {a : Attempt} {filterID : GoString}
    (visits : IterationOrder (groupByFilterID td) a.order)
    (member : filterID ∈ groupByFilterID td) :
    (pushTraces td a).delivered.countP (fun sent => sent.1 = filterID) =
      if a.cutOff filterID then 0 else 1 := by
  have keys : (pushTraces td a).delivered.countP (fun sent => sent.1 = filterID) =
      (a.order.takeWhile (fun id => (a.outcome id).accepted)).count filterID := by
    rw [pushTraces, delivered_pushGroups, List.countP_map, List.count]
    refine List.countP_congr (fun id _ => ?_)
    simp
  have once : (a.order.takeWhile (fun id => (a.outcome id).accepted)).Nodup :=
    visits.1.sublist (List.takeWhile_sublist _)
  have reached := delivered_iff_not_cutOff td visits member
  have listed : (∃ batch, (filterID, batch) ∈ (pushTraces td a).delivered) ↔
      filterID ∈ a.order.takeWhile (fun id => (a.outcome id).accepted) := by
    rw [pushTraces, delivered_pushGroups]
    simp
  rw [keys]
  cases cut : a.cutOff filterID with
  | false => exact List.count_eq_one_of_mem once (listed.mp (reached.mpr cut))
  | true =>
    refine List.count_eq_zero_of_not_mem (fun inside => ?_)
    rw [reached.mp (listed.mpr inside)] at cut
    cases cut

private theorem delivered_prefix (headerOrder : GoString → List GoString) (a : Attempt) :
    (pushTraces td a).delivered <+:
      (attemptRequests cfg td headerOrder a).map (fun sent => (sent.1, sent.2.body)) := by
  rw [pushTraces, delivered_pushGroups, attemptRequests, requests_eq, List.map_map, List.map_append]
  exact List.prefix_append _ _

private theorem commonHeader_order (distinct : Distinct cfg.headers) {order order' : List GoString}
    (visits : IterationOrder cfg.headers order) (visits' : IterationOrder cfg.headers order') :
    commonHeader cfg order = commonHeader cfg order' := by
  refine Finmap.ext_lookup (fun name => ?_)
  rw [commonHeader, commonHeader, lookup_setAll, lookup_setAll,
    lastSet_order distinct visits visits' name]

end

/-- Over every sequence of attempts on a batch, with any order of the groups and any answers: a
request is posted to the one traces URL with exactly the resources stamped for its rule, each with
one stamp removed and so without one if it had no second; it names a non-empty rule in the rule
header whatever is configured, and spans without a rule go out under the configured headers alone;
an attempt makes at most one request for a rule; what is delivered was requested, each rule once by
each attempt that is not cut off in front of it; an attempt without an error delivers every span
once; and the configured headers do not depend on the order of their map unless two of them have one
canonical name. -/
theorem requests_name_their_rule (cfg : Config) (td : Traces)
    (attempts : List (Attempt × (GoString → List GoString)))
    (visits : ∀ a ∈ attempts, IterationOrder (groupByFilterID td) a.1.order) :
    (∀ a ∈ attempts, ∀ id r, (id, r) ∈ attemptRequests cfg td a.2 a.1 →
        id ∈ groupByFilterID td ∧ NamesRule cfg td (a.2 id) id r) ∧
      (∀ a ∈ attempts, ((attemptRequests cfg td a.2 a.1).map Prod.fst).Nodup ∧
        (pushTraces td a.1).delivered <+:
          (attemptRequests cfg td a.2 a.1).map (fun sent => (sent.1, sent.2.body))) ∧
      (∀ id ∈ groupByFilterID td,
        (attempts.flatMap (fun a => (pushTraces td a.1).delivered)).countP
            (fun sent => sent.1 = id) =
          attempts.countP (fun a => !a.1.cutOff id)) ∧
      (∀ a ∈ attempts, (pushTraces td a.1).result = .ok () →
        ((pushTraces td a.1).delivered.flatMap Prod.snd).Perm (td.map stripped)) ∧
      (Distinct cfg.headers → ∀ order order', IterationOrder cfg.headers order →
        IterationOrder cfg.headers order' → commonHeader cfg order = commonHeader cfg order') := by
  refine ⟨?_, ?_, ?_, ?_, ?_⟩
  · intro a tried id r sent
    have listed : id ∈ a.1.order :=
      (sublist_requests a.2 a.1).subset (List.mem_map.mpr ⟨(id, r), sent, rfl⟩)
    refine ⟨((visits a tried).2 id).mp listed, ?_⟩
    rw [attemptRequests, requests_eq] at sent
    obtain ⟨id', -, same⟩ := List.mem_map.mp sent
    obtain ⟨rfl, rfl⟩ := Prod.mk.inj same
    exact namesRule_newRequest _ _
  · intro a tried
    exact ⟨(visits a tried).1.sublist (sublist_requests a.2 a.1), delivered_prefix a.2 a.1⟩
  · intro id member
    clear * - visits member
    induction attempts with
    | nil => rfl
    | cons a rest ih =>
      have here := count_delivered (visits a List.mem_cons_self) member
      have later := ih (fun b tried => visits b (List.mem_cons_of_mem _ tried))
      rw [List.flatMap_cons, List.countP_append, here, later, List.countP_cons]
      cases a.1.cutOff id <;> simp [Nat.add_comm]
  · intro a tried success
    exact delivered_perm (visits a tried) success
  · intro distinct order order' visited visited'
    exact commonHeader_order distinct visited visited'

/-- The configuration tries to name a rule of its own, in another spelling. -/
def meddlingConfig : Config where
  endpoint := lit "https://acme-traces-ingest.leansignal.io/"
  headers := (∅ : GoMap GoString GoString).insert (lit "x-lean-trace-rule") (lit "other")

/-- The second rule answers once with 503 and then with 200. -/
def retriedAttempts : List (Attempt × (GoString → List GoString)) :=
  [(⟨[lit "rule-a", lit "rule-b"],
      fun id => if id = lit "rule-b" then .status 503 else .status 200⟩,
      fun _ => [lit "x-lean-trace-rule"]),
    (⟨[lit "rule-b", lit "rule-a"], fun _ => .status 200⟩, fun _ => [lit "x-lean-trace-rule"])]

theorem retried_rule_keeps_its_header :
    (retriedAttempts.flatMap (fun a => (pushTraces twoRules a.1).delivered)).countP
        (fun sent => sent.1 = lit "rule-a") = 2 ∧
      (retriedAttempts.flatMap (fun a => (pushTraces twoRules a.1).delivered)).countP
        (fun sent => sent.1 = lit "rule-b") = 1 ∧
      ∀ a ∈ retriedAttempts, ∀ id r, (id, r) ∈ attemptRequests meddlingConfig twoRules a.2 a.1 →
        (id ≠ [] → r.header.lookup ruleHeader = some id) ∧
          ∀ rs ∈ r.body, rs.attributes.get filterIDAttr = none := by
  have visits : ∀ a ∈ retriedAttempts, IterationOrder (groupByFilterID twoRules) a.1.order := by
    decide +kernel
  obtain ⟨named, -, counts, -⟩ :=
    requests_name_their_rule meddlingConfig twoRules retriedAttempts visits
  have once : ∀ rs ∈ twoRules, StampedOnce rs := by decide +kernel
  refine ⟨?_, ?_, fun a tried id r sent =>
    ⟨(named a tried id r sent).2.rule, (named a tried id r sent).2.unstamped once⟩⟩
  · rw [counts _ (mem_groupByFilterID.mpr (by decide +kernel))]
    decide +kernel
  · rw [counts _ (mem_groupByFilterID.mpr (by decide +kernel))]
    decide +kernel

end SignalAgent.Traces.RouterRequests
