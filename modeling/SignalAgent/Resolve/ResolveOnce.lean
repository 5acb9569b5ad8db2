/- MID: SignalAgent/Resolve/ResolveOnce
   layer: results
   source: components/resolveprovider/provider.go
   digest: One resolve serves every call of the process, asks at most thrice and keeps its error. -/

import SignalAgent.Resolve.Provider

set_option autoImplicit false
set_option relaxedAutoImplicit false

namespace SignalAgent.Resolve.ResolveOnce

open Foundations.GoQuery Foundations.GoStrings Foundations.GoText
open Foundations.GuardedRuns Foundations.Interleavings
open Provider

abbrev Exchanges := List (GoString × Reply)

/-- The reply gives no URL. -/
def Fails (env : Env) (reply : Reply) : Prop := ∃ e, doResolve env reply = .error e

/-- How the one resolve can end, and what was asked until then. -/
inductive Outcome (env : Env) (asked : Exchanges) : Resolved → Prop where
  | noTenant (unset : tenantSlug env = []) (none_ : asked = []) :
      Outcome env asked (.error tenantMissing)
  | override (set_ : tenantSlug env ≠ []) (given : domainOverride env ≠ []) (none_ : asked = []) :
      Outcome env asked (.ok (deriveEndpoints (tenantSlug env) (domainOverride env)))
  | resolved {before : Exchanges} {region : GoString}
      (last : asked = before ++ [(resolveEndpoint env,
        .decoded 200 (tenantSlug env ++ lit "-api." ++ region) true)])
      (failed : ∀ e ∈ before, Fails env e.2) (some_ : region ≠ []) :
      Outcome env asked (.ok (deriveEndpoints (tenantSlug env) region))
  | unexpected {before : Exchanges} {apiURL e : GoString}
      (last : asked = before ++ [(resolveEndpoint env, .decoded 200 apiURL true)])
      (other : regionOf env apiURL = .error e) : Outcome env asked (.error e)
  | exhausted {e : GoString} (all : asked.length = resolveRetries)
      (failed : ∀ e ∈ asked, Fails env e.2) : Outcome env asked (.error (attemptsFailed env e))
  | cancelled {e : GoString} (some_ : asked ≠ []) (failed : ∀ e ∈ asked, Fails env e.2) :
      Outcome env asked (.error e)

/-- The requests go on only for a tenant without a given domain. -/
def Looking (env : Env) : Prop := tenantSlug env ≠ [] ∧ domainOverride env = []

def OnceOk (env : Env) (asked : Exchanges) : Once → Prop
  | .fresh => asked = []
  | .asking attempt =>
    Looking env ∧ asked.length + 1 = attempt ∧ attempt ≤ resolveRetries ∧
      ∀ e ∈ asked, Fails env e.2
  | .pausing attempt _ =>
    Looking env ∧ asked.length = attempt ∧ 0 < attempt ∧ attempt < resolveRetries ∧
      ∀ e ∈ asked, Fails env e.2
  | .done result => Outcome env asked result

/-- A call that waits has no value of its own; one that returned got its own value, its own error,
or its share of the one result. -/
def CallOk (env : Env) (once : Once) (c : Retrieval) : Prop :=
  match c.call with
  | .waiting key => begin_ env c.uri = .waiting key
  | .returned r => begin_ env c.uri = .returned r ∨
      ∃ key result, begin_ env c.uri = .waiting key ∧ once = .done result ∧ r = pick env result key

structure Shared (env : Env) (w : World) : Prop where
  endpoint : ∀ e ∈ w.asked, e.1 = resolveEndpoint env
  atMost : w.asked.length ≤ resolveRetries
  once : OnceOk env w.asked w.once
  asker : w.once ≠ .fresh → ∃ c ∈ w.calls, ∃ key, begin_ env c.uri = .waiting key
  looking : w.asked ≠ [] → Looking env
  calls : ∀ c ∈ w.calls, CallOk env w.once c

section Replies

variable {env : Env} {reply : Reply} {apiURL region : GoString}

private theorem doResolve_ok (answered : doResolve env reply = .ok apiURL) :
    reply = .decoded 200 apiURL true := by
  cases reply with
  | failed err => cases answered
  | undecodable status err =>
    simp only [doResolve] at answered
    split at answered <;> cases answered
  | decoded status url tenant =>
    simp only [doResolve] at answered
    split at answered
    · cases answered
    · rename_i status_ok
      split at answered
      · cases answered
      · rename_i exists_
        cases answered
        rw [not_or, Bool.not_eq_false] at exists_
        rw [not_not.mp status_ok, exists_.1]

private theorem regionOf_ok (found : regionOf env apiURL = .ok region) :
    apiURL = tenantSlug env ++ lit "-api." ++ region ∧ region ≠ [] := by
  simp only [regionOf] at found
  split at found
  · cases found
  · rename_i fits
    cases found
    obtain ⟨cut, some_⟩ := not_or.mp fits
    refine ⟨?_, some_⟩
    unfold trimPrefix cutPrefix at cut ⊢
    split at cut
    · rename_i starts
      obtain ⟨rest, rfl⟩ := List.isPrefixOf_iff_prefix.mp starts
      rw [if_pos starts, List.drop_left]
      rfl
    · exact absurd rfl cut

end Replies

section Steps

variable {env : Env} {w w' : World}

private theorem CallOk.mono {once once' : Once} {c : Retrieval} (ok : CallOk env once c)
    (kept : ∀ result, once = .done result → once' = .done result) : CallOk env once' c := by
  unfold CallOk at ok ⊢
  split at ok
  · exact ok
  · rcases ok with own | ⟨key, result, waits, done, shared⟩
    · exact Or.inl own
    · exact Or.inr ⟨key, result, waits, kept result done, shared⟩

private theorem onceOk_start (env : Env) : OnceOk env [] (resolveStart env) := by
  unfold resolveStart
  split
  · exact .noTenant ‹_› rfl
  · rename_i set_
    split
    · exact .override set_ ‹_› rfl
    · rename_i unset
      exact ⟨⟨set_, not_not.mp unset⟩, rfl, by decide, nofun⟩

private theorem onceOk_reply {asked : Exchanges} {attempt : Nat} (reply : Reply)
    (ok : OnceOk env asked (.asking attempt)) :
    OnceOk env (asked ++ [(resolveEndpoint env, reply)]) (resolveReply env attempt reply) := by
  obtain ⟨looking, counted, most, failed⟩ := ok
  unfold resolveReply
  cases answered : doResolve env reply with
  | ok apiURL =>
    obtain rfl := doResolve_ok answered
    dsimp only
    cases found : regionOf env apiURL with
    | ok region =>
      obtain ⟨rfl, some_⟩ := regionOf_ok found
      exact .resolved rfl failed some_
    | error e => exact .unexpected rfl found
  | error e =>
    have all : ∀ x ∈ asked ++ [(resolveEndpoint env, reply)], Fails env x.2 := by
      intro x member
      rcases List.mem_append.mp member with old | new
      · exact failed x old
      · rw [List.mem_singleton.mp new]
        exact ⟨e, answered⟩
    have length : (asked ++ [(resolveEndpoint env, reply)]).length = attempt := by
      rw [List.length_append, List.length_singleton]
      exact counted
    dsimp only
    split
    · exact ⟨looking, length, by omega, ‹_›, all⟩
    · exact .exhausted (by omega) all

private theorem shared_step {a : Action} (held : Shared env w)
    (stepped : step env w a = some w') : Shared env w' := by
  cases effect_of_step stepped with
  | retrieve uri =>
    refine { held with asker := ?_, calls := ?_ }
    · intro started
      obtain ⟨c, member, waits⟩ := held.asker started
      exact ⟨c, List.mem_append_left _ member, waits⟩
    · intro c member
      rcases List.mem_append.mp member with old | new
      · exact held.calls c old
      · obtain rfl := List.mem_singleton.mp new
        unfold CallOk
        dsimp only
        split
        · assumption
        · exact Or.inl ‹_›
  | @enter i uri key fresh here =>
    have nothing : w.asked = [] := by simpa [fresh, OnceOk] using held.once
    have member := List.mem_of_getElem? here
    refine { held with once := ?_, asker := ?_, calls := ?_ }
    · rw [nothing]
      exact onceOk_start env
    · exact fun _ => ⟨_, member, key, held.calls _ member⟩
    · exact fun c listed => (held.calls c listed).mono (by simp [fresh])
  | @answer attempt reply asking =>
    have ok := held.once
    rw [asking] at ok
    obtain ⟨looking, counted, most, -⟩ := ok
    refine ⟨?_, ?_, ?_, ?_, fun _ => looking, ?_⟩
    · intro e member
      rcases List.mem_append.mp member with old | new
      · exact held.endpoint e old
      · rw [List.mem_singleton.mp new]
    · rw [List.length_append, List.length_singleton]
      omega
    · exact onceOk_reply reply (asking ▸ held.once)
    · exact fun _ => held.asker (by simp [asking])
    · exact fun c listed => (held.calls c listed).mono (by simp [asking])
  | @pauseOver attempt e pausing =>
    have ok := held.once
    rw [pausing] at ok
    obtain ⟨looking, counted, -, less, failed⟩ := ok
    refine { held with once := ?_, asker := ?_, calls := ?_ }
    · exact ⟨looking, by rw [counted], less, failed⟩
    · exact fun _ => held.asker (by simp [pausing])
    · exact fun c listed => (held.calls c listed).mono (by simp [pausing])
  | @cancelled attempt e err pausing =>
    have ok := held.once
    rw [pausing] at ok
    obtain ⟨-, counted, positive, -, failed⟩ := ok
    refine { held with once := ?_, asker := ?_, calls := ?_ }
    · exact .cancelled (List.ne_nil_of_length_pos (counted.symm ▸ positive)) failed
    · exact fun _ => held.asker (by simp [pausing])
    · exact fun c listed => (held.calls c listed).mono (by simp [pausing])
  | @leave i uri key result done here =>
    have waits : begin_ env uri = .waiting key := held.calls _ (List.mem_of_getElem? here)
    refine { held with asker := ?_, calls := ?_ }
    · exact fun _ => ⟨_, List.mem_of_getElem? (getElem?_set_here here), key, waits⟩
    · exact forall_mem_set held.calls (Or.inr ⟨key, result, waits, done, rfl⟩)

private theorem shared_initial (env : Env) : Shared env World.initial where
  endpoint := nofun
  atMost := by decide
  once := rfl
  asker := fun started => absurd rfl started
  looking := fun some_ => absurd rfl some_
  calls := nofun

end Steps

/-- Over every interleaving of calls, replies and cancellations: the control center is asked at
most three times, always for this tenant and token, only for a call without a value of its own and
only when no domain is given; the resolve ends in one of the ways listed; and every call that has
returned got its own value or error, or its share of the one result, so that equal lookups agree. -/
theorem resolve_is_shared {env : Env} {acts : List Action} {w : World}
    (run : Run (step env) (fun _ _ => True) World.initial acts w) :
    w.asked.length ≤ resolveRetries ∧
      (∀ e ∈ w.asked, e.1 = ccBase env ++ lit "/resolve_tenant?" ++ resolveQuery env) ∧
      parseQuery (resolveQuery env) =
        some [(lit "aat", envOr env envAAT defaultResolveAAT), (lit "tenant", tenantSlug env)] ∧
      (w.asked ≠ [] → Looking env ∧ ∃ c ∈ w.calls, ∃ key, begin_ env c.uri = .waiting key) ∧
      (∀ result, w.once = .done result → Outcome env w.asked result) ∧
      (∀ c ∈ w.calls, ∀ r, c.call = .returned r → begin_ env c.uri = .returned r ∨
        ∃ key result, begin_ env c.uri = .waiting key ∧ w.once = .done result ∧
          r = pick env result key) ∧
      ∀ c ∈ w.calls, ∀ c' ∈ w.calls, ∀ r r', c.uri = c'.uri → c.call = .returned r →
        c'.call = .returned r' → r = r' := by
  have held : Shared env w :=
    run.stateInvariant (Shared env) (shared_initial env)
      (fun before _ stepped => shared_step before stepped)
  have share : ∀ c ∈ w.calls, ∀ r, c.call = .returned r → begin_ env c.uri = .returned r ∨
      ∃ key result, begin_ env c.uri = .waiting key ∧ w.once = .done result ∧
        r = pick env result key := by
    intro c member r returned
    have ok := held.calls c member
    unfold CallOk at ok
    rwa [returned] at ok
  refine ⟨held.atMost, held.endpoint, parseQuery_encode _, ?_, ?_, share, ?_⟩
  · intro some_
    refine ⟨held.looking some_, held.asker (fun fresh => some_ ?_)⟩
    simpa [fresh, OnceOk] using held.once
  · intro result done
    have ok := held.once
    rwa [done] at ok
  · intro c member c' member' r r' same returned returned'
    rcases share c member r returned with own | ⟨key, result, waits, done, rfl⟩
    · rcases share c' member' r' returned' with own' | ⟨key', result', waits', -, -⟩
      · rw [same, own'] at own
        cases own
        rfl
      · rw [same, waits'] at own
        cases own
    · rcases share c' member' r' returned' with own' | ⟨key', result', waits', done', rfl⟩
      · rw [same, own'] at waits
        cases waits
      · rw [same, waits'] at waits
        rw [done'] at done
        cases waits
        cases done
        rfl

/-- A tenant with its gRPC endpoint pinned. -/
def acme : Env where
  getenv name :=
    if name = envTenant then lit " acme\n"
    else if name = lit "LEANSIGNAL_ENDPOINT" then lit "grpc.local:443"
    else []
  isPrint _ := true

def isDone : Once → Bool
  | .done _ => true
  | _ => false

def returnedText (c : Retrieval) : Option GoString :=
  match c.call with
  | .returned (.ok v) => some v
  | _ => none

theorem two_lookups_one_resolve :
    ∃ acts w, Run (step acme) (fun _ _ => True) World.initial acts w ∧
      w.asked.length = 2 ∧ (∃ result, w.once = .done result ∧ Outcome acme w.asked result) ∧
      w.calls.map returnedText = [some (lit "grpc.local:443"), some (lit "https://acme-api.eu.x"),
        some (lit "https://acme-traces-ingest.eu.x")] := by
  let acts : List Action :=
    [.retrieve (lit "leansignal:grpc"), .retrieve (lit "leansignal:api"), .enter 1,
      .answer (.undecodable 503 []), .retrieve (lit "leansignal: tempo"), .pauseOver,
      .answer (.decoded 200 (lit "acme-api.eu.x") true), .leave 2, .leave 1]
  have executed : (exec (step acme) (fun _ _ => true) World.initial acts).any (fun w => decide
      (w.asked.length = 2 ∧ isDone w.once = true ∧
        w.calls.map returnedText = [some (lit "grpc.local:443"),
          some (lit "https://acme-api.eu.x"), some (lit "https://acme-traces-ingest.eu.x")])) =
      true := by
    decide +kernel
  obtain ⟨w, run, checked⟩ := exists_run_of_exec (fun _ _ => true) acts _ (fun _ _ _ => trivial)
    executed
  obtain ⟨asked, done, texts⟩ := of_decide_eq_true checked
  obtain ⟨-, -, -, -, outcome, -⟩ := resolve_is_shared run
  cases settled : w.once with
  | done result => exact ⟨acts, w, run, asked, ⟨result, settled, outcome result settled⟩, texts⟩
  | fresh | asking | pausing =>
    rw [settled] at done
    cases done

end SignalAgent.Resolve.ResolveOnce
