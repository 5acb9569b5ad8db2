/- MID: SignalAgent/Resolve/Provider
   layer: model
   source: components/resolveprovider/provider.go
   digest: Retrieve calls share one resolve, which asks the control center up to three times. -/

import SignalAgent.Foundations.GoQuery
import SignalAgent.Foundations.GoQuote
import SignalAgent.Foundations.GoSort
import SignalAgent.Foundations.GuardedRuns
import SignalAgent.Foundations.Interleavings

set_option autoImplicit false
set_option relaxedAutoImplicit false

namespace SignalAgent.Resolve.Provider

open Foundations.GoQuery Foundations.GoQuote Foundations.GoSort Foundations.GoStrings
open Foundations.GoText

def schemeName : GoString := lit "leansignal"

def defaultCCURL : GoString := lit "https://cc.leansignal.io"

def defaultResolveAAT : GoString := lit "fad77809-e6c4-49b0-a508-0e1e469e6553"

def envTenant : GoString := lit "LEANSIGNAL_TENANT"

def envCCURL : GoString := lit "LEANSIGNAL_CC_URL"

def envAAT : GoString := lit "LEANSIGNAL_RESOLVE_AAT"

def envDomain : GoString := lit "LEANSIGNAL_DOMAIN"

def resolveRetries : Nat := 3

/-- The environment of the process, with the printable runes that quoting in messages asks for. -/
structure Env where
  getenv : GoString → GoString
  isPrint : Nat → Bool

def overrideEnvByKey : List (GoString × GoString) :=
  [(lit "region", envDomain),
    (lit "api", lit "LEANSIGNAL_API_ENDPOINT"),
    (lit "grpc", lit "LEANSIGNAL_ENDPOINT"),
    (lit "dataplane", lit "LEANSIGNAL_DATAPLANE_ENDPOINT"),
    (lit "loki", lit "LEANSIGNAL_LOKI_ENDPOINT"),
    (lit "tempo", lit "LEANSIGNAL_TEMPO_ENDPOINT")]

def envOr (env : Env) (name default_ : GoString) : GoString :=
  let v := trimSpace (env.getenv name)
  if v ≠ [] then v else default_

/-- The explicit value of a key, if the key has a variable and the variable is set. -/
def pinned (env : Env) (key : GoString) : Option GoString :=
  (overrideEnvByKey.lookup key).bind (fun name =>
    let v := trimSpace (env.getenv name)
    if v ≠ [] then some v else none)

abbrev Endpoints := List (GoString × GoString)

def deriveEndpoints (slug region : GoString) : Endpoints :=
  [(lit "region", region),
    (lit "api", lit "https://" ++ slug ++ lit "-api." ++ region),
    (lit "grpc", slug ++ lit "-grpc." ++ region ++ lit ":443"),
    (lit "dataplane", lit "https://" ++ slug ++ lit "-metrics-ingest." ++ region),
    (lit "loki", lit "https://" ++ slug ++ lit "-logs-ingest." ++ region),
    (lit "tempo", lit "https://" ++ slug ++ lit "-traces-ingest." ++ region)]

def tenantSlug (env : Env) : GoString := trimSpace (env.getenv envTenant)

def domainOverride (env : Env) : GoString := trimSpace (env.getenv envDomain)

def ccBase (env : Env) : GoString := trimRight (envOr env envCCURL defaultCCURL) 0x2F

/-- The query, with its keys in order. -/
def resolveQuery (env : Env) : GoString :=
  encode [(lit "aat", envOr env envAAT defaultResolveAAT), (lit "tenant", tenantSlug env)]

def resolveEndpoint (env : Env) : GoString :=
  ccBase env ++ lit "/resolve_tenant?" ++ resolveQuery env

/-- How a request ends: it fails, or is answered with a status and a body that may not decode. -/
inductive Reply where
  | failed (err : GoString)
  | undecodable (status : Nat) (err : GoString)
  | decoded (status : Nat) (apiURL : GoString) (tenant : Bool)
  deriving DecidableEq

def decimal (n : Nat) : GoString := lit (toString n)

def doResolve (env : Env) : Reply → Except GoString GoString
  | .failed err => .error err
  | .undecodable status err =>
    if status ≠ 200 then .error (lit "resolve_tenant HTTP " ++ decimal status)
    else .error (lit "decode resolve_tenant response: " ++ err)
  | .decoded status apiURL tenant =>
    if status ≠ 200 then .error (lit "resolve_tenant HTTP " ++ decimal status)
    else if tenant = false ∨ apiURL = [] then
      .error (lit "tenant " ++ quote env.isPrint (tenantSlug env) ++
        lit " does not exist (resolve_tenant: tenant=" ++
        lit (if tenant then "true" else "false") ++ lit ")")
    else .ok apiURL

/-- The region behind the tenant's own host name. -/
def regionOf (env : Env) (apiURL : GoString) : Except GoString GoString :=
  let slug := tenantSlug env
  let region := trimPrefix apiURL (slug ++ lit "-api.")
  if region = apiURL ∨ region = [] then
    .error (lit "resolve_tenant returned unexpected api_url " ++ quote env.isPrint apiURL ++
      lit " for tenant " ++ quote env.isPrint slug ++ lit " (want <slug>-api.<region>)")
  else .ok region

def tenantMissing : GoString :=
  envTenant ++ lit " must be set (the tenant slug) to use $\x7b" ++ schemeName ++
    lit ":...\x7d config references"

def attemptsFailed (env : Env) (lastErr : GoString) : GoString :=
  lit "resolve tenant " ++ quote env.isPrint (tenantSlug env) ++ lit " via " ++ ccBase env ++
    lit ": " ++ lastErr

abbrev Resolved := Except GoString Endpoints

/-- The `sync.Once` with what `resolve` is at: the attempt under way, or the pause after it. -/
inductive Once where
  | fresh
  | asking (attempt : Nat)
  | pausing (attempt : Nat) (lastErr : GoString)
  | done (result : Resolved)

/-- A `Retrieve` call that is past its override, and one that has returned. -/
inductive Call where
  | waiting (key : GoString)
  | returned (result : Except GoString GoString)

structure Retrieval where
  uri : GoString
  call : Call

structure World where
  once : Once
  asked : List (GoString × Reply)
  calls : List Retrieval

def World.initial : World := ⟨.fresh, [], []⟩

inductive Action where
  | retrieve (uri : GoString)
  | enter (i : Nat)
  | answer (reply : Reply)
  | pauseOver
  | cancelled (err : GoString)
  | leave (i : Nat)
  deriving DecidableEq

def unsupported (env : Env) (uri : GoString) : GoString :=
  quote env.isPrint uri ++ lit " uri is not supported by " ++ quote env.isPrint schemeName ++
    lit " provider"

def uriKey (uri : GoString) : GoString := trimSpace (uri.drop (schemeName.length + 1))

/-- What a call does before it reaches the `Once`. -/
def begin_ (env : Env) (uri : GoString) : Call :=
  if hasPrefix uri (schemeName ++ lit ":") then
    match pinned env (uriKey uri) with
    | some v => .returned (.ok v)
    | none => .waiting (uriKey uri)
  else .returned (.error (unsupported env uri))

def unknownKey (env : Env) (key : GoString) (vals : Endpoints) : GoString :=
  lit "unknown " ++ quote env.isPrint schemeName ++ lit " key " ++ quote env.isPrint key ++
    lit " (valid: " ++ join (sortStrings (vals.map Prod.fst)) (lit ", ") ++ lit ")"

/-- What a call returns once the resolve is over. -/
def pick (env : Env) (result : Resolved) (key : GoString) : Except GoString GoString :=
  match result with
  | .error e => .error e
  | .ok vals =>
    match vals.lookup key with
    | some v => .ok v
    | none => .error (unknownKey env key vals)

/-- `resolve` up to its first request. -/
def resolveStart (env : Env) : Once :=
  if tenantSlug env = [] then .done (.error tenantMissing)
  else if domainOverride env ≠ [] then
    .done (.ok (deriveEndpoints (tenantSlug env) (domainOverride env)))
  else .asking 1

/-- `resolveRegion` after the reply to an attempt. -/
def resolveReply (env : Env) (attempt : Nat) (reply : Reply) : Once :=
  match doResolve env reply with
  | .ok apiURL =>
    match regionOf env apiURL with
    | .ok region => .done (.ok (deriveEndpoints (tenantSlug env) region))
    | .error e => .done (.error e)
  | .error e =>
    if attempt < resolveRetries then .pausing attempt e
    else .done (.error (attemptsFailed env e))

def step (env : Env) (w : World) : Action → Option World
  | .retrieve uri => some { w with calls := w.calls ++ [⟨uri, begin_ env uri⟩] }
  -- The first caller resolves; the others block until it is done.
  | .enter i =>
    match w.once, w.calls[i]? with
    | .fresh, some ⟨_, .waiting _⟩ => some { w with once := resolveStart env }
    | _, _ => none
  | .answer reply =>
    match w.once with
    | .asking attempt =>
      some { w with
        once := resolveReply env attempt reply
        asked := w.asked ++ [(resolveEndpoint env, reply)] }
    | _ => none
  | .pauseOver =>
    match w.once with
    | .pausing attempt _ => some { w with once := .asking (attempt + 1) }
    | _ => none
  | .cancelled err =>
    match w.once with
    | .pausing _ _ => some { w with once := .done (.error err) }
    | _ => none
  | .leave i =>
    match w.once, w.calls[i]? with
    | .done result, some ⟨uri, .waiting key⟩ =>
      some { w with calls := w.calls.set i ⟨uri, .returned (pick env result key)⟩ }
    | _, _ => none

/-- What each step can do. -/
inductive Effect (env : Env) (w : World) : Action → World → Prop
  | retrieve (uri : GoString) :
      Effect env w (.retrieve uri) { w with calls := w.calls ++ [⟨uri, begin_ env uri⟩] }
  | enter {i : Nat} {uri key : GoString} (fresh : w.once = .fresh)
      (here : w.calls[i]? = some ⟨uri, .waiting key⟩) :
      Effect env w (.enter i) { w with once := resolveStart env }
  | answer {attempt : Nat} (reply : Reply) (asking : w.once = .asking attempt) :
      Effect env w (.answer reply) { w with
        once := resolveReply env attempt reply
        asked := w.asked ++ [(resolveEndpoint env, reply)] }
  | pauseOver {attempt : Nat} {e : GoString} (pausing : w.once = .pausing attempt e) :
      Effect env w .pauseOver { w with once := .asking (attempt + 1) }
  | cancelled {attempt : Nat} {e : GoString} (err : GoString)
      (pausing : w.once = .pausing attempt e) :
      Effect env w (.cancelled err) { w with once := .done (.error err) }
  | leave {i : Nat} {uri key : GoString} {result : Resolved} (done : w.once = .done result)
      (here : w.calls[i]? = some ⟨uri, .waiting key⟩) :
      Effect env w (.leave i)
        { w with calls := w.calls.set i ⟨uri, .returned (pick env result key)⟩ }

theorem effect_of_step {env : Env} {w w' : World} {a : Action}
    (stepped : step env w a = some w') : Effect env w a w' := by
  cases a with
  | retrieve uri =>
    cases stepped
    exact .retrieve uri
  | enter i =>
    simp only [step] at stepped
    split at stepped <;> cases stepped
    exact .enter ‹_› ‹_›
  | answer reply =>
    simp only [step] at stepped
    split at stepped <;> cases stepped
    exact .answer reply ‹_›
  | pauseOver =>
    simp only [step] at stepped
    split at stepped <;> cases stepped
    exact .pauseOver ‹_›
  | cancelled err =>
    simp only [step] at stepped
    split at stepped <;> cases stepped
    exact .cancelled err ‹_›
  | leave i =>
    simp only [step] at stepped
    split at stepped <;> cases stepped
    exact .leave ‹_› ‹_›

end SignalAgent.Resolve.Provider
