/-
`main.cpp` whole: the process of `Proxy.lean` with what it shows to the outside.

`Proxy` is the part that decides: limiter, ring, breakers, pool, sessions. Around it the
process has connections it answers by itself -- the 429 of a client over its limit, the scrapes
of the metrics port -- and a log on `stderr`. Here they are put around it, step for step as
`listen`, `metrics_listen` and the coroutines they spawn take them:

* `accept`: an id is generated for every connection, before anything is known of it. A peer
  whose address cannot be had any more is dropped; one over its limit gets a `send_429`; any
  other gets a session, whose lines carry the id.
* `reject`, `scrape`: a `send_429` or a `serve_metrics` is resumed.
* everything else is a step of `Proxy`, with the lines it logs.

Nothing of this acts back: what is left of a run when all of it is taken away is a run of
`Proxy` (`run_proxy`), so what is proved of every run of `Proxy` holds of this process.

The acceptors are IPv4, so a client is the text of an IPv4 address. What goes to `stdout` is
not modelled.
-/
import AegisProxy.Exposition
import AegisProxy.Proxy
import AegisProxy.Responses
import AegisProxy.SessionLog

set_option autoImplicit false

namespace AegisProxy

open Runs

/-! ## Clients and lines -/

/-- The address of a peer. -/
structure Address where
  a : UInt8
  b : UInt8
  c : UInt8
  d : UInt8
  deriving DecidableEq, Repr

/-- `remote.address().to_string()`: dotted decimal. -/
def Address.to_string (x : Address) : Bytes :=
  AegisProxy.to_string x.a.toNat ++ ascii "." ++ AegisProxy.to_string x.b.toNat ++ ascii "."
    ++ AegisProxy.to_string x.c.toNat ++ ascii "." ++ AegisProxy.to_string x.d.toNat

/-- `BackendConfig`. -/
structure BackendConfig where
  host : Bytes
  port : Bytes
  min_pool_size : ℕ
  deriving DecidableEq, Repr

/-- A line on `stderr`: a failed connect of `warm_up`, the two ways a connection ends in
`listen`, or a line of a session's `TraceLogger`. -/
inductive LogLine
  | warm_up_failed (cfg : BackendConfig) (what : Bytes)
  | remote_endpoint_failed (correlation_id : Bytes)
  | rate_limited (correlation_id client : Bytes)
  | trace (correlation_id : Bytes) (e : LogEvent)
  deriving DecidableEq, Repr

/-- The text of a line, without its end. -/
def LogLine.text : LogLine → Bytes
  | .warm_up_failed cfg what =>
    ascii "[pool] warm-up connect failed for " ++ cfg.host ++ ascii ":" ++ cfg.port
      ++ ascii " -> " ++ what
  | .remote_endpoint_failed cid => ascii "cid=" ++ cid ++ ascii " event=remote_endpoint_failed"
  | .rate_limited cid client =>
    ascii "cid=" ++ cid ++ ascii " event=rate_limited client=" ++ client
  | .trace cid e => e.line cid

/-! ## The process -/

/-- The process. `cids` are the ids of the sessions. -/
structure Server where
  proxy : Proxy
  backends : List BackendConfig
  counter_ : ℕ
  cids : List Bytes
  rejected : List Responder
  scrapes : List Responder

namespace Server

/-- What happens next. `what` is the text of the exception a failed connect throws. -/
inductive Input
  | warm_up (error : Option Bytes)
  | accept (remote : Option Address) (now : Time) (now_ms : ℤ)
  | reap (now : Time)
  | session (i : ℕ) (now : Time) (e : Event) (what : Bytes)
  | reject (k : ℕ) (c : Completion)
  | metrics_accept
  | scrape (k : ℕ) (c : Completion)

/-- Whether a connection was accepted. -/
def Input.isAccept : Input → Bool
  | .accept _ _ _ => true
  | _ => false

/-- Whether a connection was accepted whose peer was gone already. -/
def Input.isDropped : Input → Bool
  | .accept none _ _ => true
  | _ => false

/-- What can be seen of it. -/
inductive Output
  | session (i : ℕ) (x : Action)
  | log (line : LogLine)
  | rejected (k : ℕ) (x : Action)
  | scraped (k : ℕ) (x : Action)
  deriving DecidableEq, Repr

/-- `main`, as far as `run`: everything built for the backends, nothing warmed up. -/
def boot (backends : List BackendConfig) (num_vnodes : ℕ)
    (failure_threshold success_threshold cooldown_period : ℤ) (limiter : RateLimiter)
    (max_attempts : ℤ) (clock : Time) : Server where
  proxy := .boot (.new backends.length num_vnodes failure_threshold success_threshold
    cooldown_period fun i => (backends.map BackendConfig.min_pool_size).getD i 0) limiter
    max_attempts clock
  backends := backends
  counter_ := 0
  cids := []
  rejected := []
  scrapes := []

/-- A connection whose peer is known, in `listen`. -/
def acceptFrom (sv : Server) (cid client_key : Bytes) (now : Time) : Server × List Output :=
  let proxy := sv.proxy.accept client_key now
  if (sv.proxy.limiter.allow client_key (Proxy.seconds now)).1 then
    ({ sv with proxy := proxy, cids := sv.cids ++ [cid] },
      [.log (.trace cid (.request_received client_key))])
  else
    ({ sv with
        proxy := proxy
        rejected := sv.rejected ++ [.responding rate_limited_response] },
      [.log (.rate_limited cid client_key)])

/-- One connection in `listen`. -/
def accept (sv : Server) (remote : Option Address) (now : Time) (now_ms : ℤ) :
    Server × List Output :=
  let id := CorrelationId.generate now_ms sv.counter_
  let sv := { sv with counter_ := id.2 }
  match remote with
  | none => (sv, [.log (.remote_endpoint_failed id.1)])
  | some address => sv.acceptFrom id.1 address.to_string now

/-- What `serve_metrics` answers now. -/
def exposition (sv : Server) : Bytes :=
  metrics_response (sv.proxy.shared.metrics.render_prometheus sv.proxy.shared.backend_count)

/-- One step of the process. -/
def step (sv : Server) : Input → Option (Server × List Output)
  | .warm_up error =>
    match sv.proxy.warming with
    | [] => none
    | i :: rest =>
      some ({ sv with proxy := sv.proxy.warm_up i rest error.isNone },
        match error, sv.backends[i]? with
        | some what, some cfg => [.log (.warm_up_failed cfg what)]
        | _, _ => [])
  | .accept remote now now_ms =>
    if now < sv.proxy.clock ∨ sv.proxy.warming ≠ [] then none
    else some (sv.accept remote now now_ms)
  | .reap now =>
    if now < sv.proxy.clock ∨ sv.proxy.warming ≠ [] then none
    else some ({ sv with proxy := sv.proxy.reap now }, [])
  | .session i now e what =>
    match sv.proxy.sessions[i]?, sv.proxy.step (.session i now e) with
    | some s, some (proxy, out) =>
      some ({ sv with proxy := proxy },
        out.map (fun x => .session x.1 x.2)
          ++ ((s.logged sv.proxy.shared now e what).map (.trace (sv.cids.getD i []))).map .log)
    | _, _ => none
  | .reject k c =>
    match sv.rejected[k]? with
    | none => none
    | some r =>
      match r.step [] c with
      | none => none
      | some (r', acts) =>
        some ({ sv with rejected := sv.rejected.set k r' }, acts.map (.rejected k))
  | .metrics_accept =>
    if sv.proxy.warming ≠ [] then none
    else some ({ sv with scrapes := sv.scrapes ++ [.reading] }, [])
  | .scrape k c =>
    match sv.scrapes[k]? with
    | none => none
    | some r =>
      match r.step sv.exposition c with
      | none => none
      | some (r', acts) =>
        some ({ sv with scrapes := sv.scrapes.set k r' }, acts.map (.scraped k))

/-! ## What a step can be -/

/-- One constructor for each kind of step, with everything it does. -/
inductive Step (sv : Server) : Input → Server → List Output → Prop
  | warm_up (i : ℕ) (rest : List ℕ) (error : Option Bytes) (lines : List LogLine)
      (hw : sv.proxy.warming = i :: rest)
      (hlines : lines = [] ∨ ∃ cfg what, cfg ∈ sv.backends ∧ error = some what
        ∧ lines = [.warm_up_failed cfg what]) :
      Step sv (.warm_up error) { sv with proxy := sv.proxy.warm_up i rest error.isNone }
        (lines.map .log)
  | dropped (now : Time) (now_ms : ℤ) (hnow : sv.proxy.clock ≤ now) (hw : sv.proxy.warming = []) :
      Step sv (.accept none now now_ms) { sv with counter_ := MetricsRegistry.fetch_add sv.counter_ }
        [.log (.remote_endpoint_failed (CorrelationId.generate now_ms sv.counter_).1)]
  | admitted (address : Address) (now : Time) (now_ms : ℤ) (hnow : sv.proxy.clock ≤ now)
      (hw : sv.proxy.warming = [])
      (hans : (sv.proxy.limiter.allow address.to_string (Proxy.seconds now)).1 = true) :
      Step sv (.accept (some address) now now_ms)
        { sv with
          proxy := sv.proxy.accept address.to_string now
          counter_ := MetricsRegistry.fetch_add sv.counter_
          cids := sv.cids ++ [(CorrelationId.generate now_ms sv.counter_).1] }
        [.log (.trace (CorrelationId.generate now_ms sv.counter_).1
          (.request_received address.to_string))]
  | refused (address : Address) (now : Time) (now_ms : ℤ) (hnow : sv.proxy.clock ≤ now)
      (hw : sv.proxy.warming = [])
      (hans : (sv.proxy.limiter.allow address.to_string (Proxy.seconds now)).1 = false) :
      Step sv (.accept (some address) now now_ms)
        { sv with
          proxy := sv.proxy.accept address.to_string now
          counter_ := MetricsRegistry.fetch_add sv.counter_
          rejected := sv.rejected ++ [.responding rate_limited_response] }
        [.log (.rate_limited (CorrelationId.generate now_ms sv.counter_).1 address.to_string)]
  | reap (now : Time) (hnow : sv.proxy.clock ≤ now) (hw : sv.proxy.warming = []) :
      Step sv (.reap now) { sv with proxy := sv.proxy.reap now } []
  | session (i : ℕ) (now : Time) (e : Event) (what : Bytes) (s s' : Session) (shared : Shared)
      (acts : List Action) (hnow : sv.proxy.clock ≤ now) (hi : sv.proxy.sessions[i]? = some s)
      (hs : s.step sv.proxy.shared now e = some (shared, s', acts)) :
      Step sv (.session i now e what)
        { sv with
          proxy := { sv.proxy with
            clock := now, shared := shared, sessions := sv.proxy.sessions.set i s' } }
        (acts.map (.session i)
          ++ ((s.logged sv.proxy.shared now e what).map (.trace (sv.cids.getD i []))).map .log)
  | reject (k : ℕ) (c : Completion) (r r' : Responder) (acts : List Action)
      (hk : sv.rejected[k]? = some r) (hr : r.step [] c = some (r', acts)) :
      Step sv (.reject k c) { sv with rejected := sv.rejected.set k r' } (acts.map (.rejected k))
  | metrics_accept (hw : sv.proxy.warming = []) :
      Step sv .metrics_accept { sv with scrapes := sv.scrapes ++ [.reading] } []
  | scrape (k : ℕ) (c : Completion) (r r' : Responder) (acts : List Action)
      (hk : sv.scrapes[k]? = some r) (hr : r.step sv.exposition c = some (r', acts)) :
      Step sv (.scrape k c) { sv with scrapes := sv.scrapes.set k r' } (acts.map (.scraped k))

/-- **Every step is one of these.** -/
theorem step_step {sv sv' : Server} {inp : Input} {out : List Output}
    (h : sv.step inp = some (sv', out)) : Step sv inp sv' out := by
  cases inp with
  | warm_up error =>
      simp only [step] at h
      split at h
      · cases h
      · rename_i i rest hw
        cases h
        cases error with
        | none => exact .warm_up i rest none [] hw (Or.inl rfl)
        | some what =>
            cases hcfg : sv.backends[i]? with
            | none => exact .warm_up i rest (some what) [] hw (Or.inl rfl)
            | some cfg =>
                exact .warm_up i rest (some what) [.warm_up_failed cfg what] hw
                  (Or.inr ⟨cfg, what, List.mem_of_getElem? hcfg, rfl, rfl⟩)
  | accept remote now now_ms =>
      simp only [step] at h
      split at h
      · cases h
      · rename_i hok
        push Not at hok
        cases remote with
        | none =>
            cases h
            exact .dropped now now_ms hok.1 hok.2
        | some address =>
            simp only [accept, acceptFrom] at h
            by_cases hans : (sv.proxy.limiter.allow address.to_string (Proxy.seconds now)).1 = true
            · rw [if_pos hans] at h
              cases h
              exact .admitted address now now_ms hok.1 hok.2 hans
            · rw [if_neg hans] at h
              cases h
              exact .refused address now now_ms hok.1 hok.2 (Bool.eq_false_iff.mpr hans)
  | reap now =>
      simp only [step] at h
      split at h
      · cases h
      · rename_i hok
        push Not at hok
        cases h
        exact .reap now hok.1 hok.2
  | session i now e what =>
      simp only [step] at h
      split at h
      · rename_i s proxy out' hi hp
        cases h
        rcases Proxy.step_cases hp with ⟨_, _, _, hinp, -⟩ | ⟨_, _, hinp, -⟩ | ⟨_, hinp, -⟩
          | ⟨j, now', e', t, shared, s', acts, hinp, hnow, hj, hs, rfl, rfl⟩
        · cases hinp
        · cases hinp
        · cases hinp
        · cases hinp
          rw [hi] at hj
          cases hj
          rw [List.map_map]
          exact .session i now e what s s' shared acts hnow hi hs
      · cases h
  | reject k c =>
      simp only [step] at h
      split at h
      · cases h
      · rename_i r hk
        split at h
        · cases h
        · rename_i r' acts hr
          cases h
          exact .reject k c r r' acts hk hr
  | metrics_accept =>
      simp only [step] at h
      split at h
      · cases h
      · rename_i hw
        cases h
        exact .metrics_accept (by simpa using hw)
  | scrape k c =>
      simp only [step] at h
      split at h
      · cases h
      · rename_i r hk
        split at h
        · cases h
        · rename_i r' acts hr
          cases h
          exact .scrape k c r r' acts hk hr

/-! ## The process without what it shows -/

/-- The step of `Proxy` that a step is, if it is one. -/
def Input.proxy : Input → Option Proxy.Input
  | .warm_up error => some (.warm_up error.isNone)
  | .accept (some address) now _ => some (.accept address.to_string now)
  | .reap now => some (.reap now)
  | .session i now e _ => some (.session i now e)
  | _ => none

/-- What a session did. -/
def Output.action : Output → Option (ℕ × Action)
  | .session i x => some (i, x)
  | _ => none

/-- What the sessions did. -/
def actions (tr : List Output) : List (ℕ × Action) := tr.filterMap Output.action

@[simp] theorem actions_append (tr tr' : List Output) :
    actions (tr ++ tr') = actions tr ++ actions tr' := List.filterMap_append

theorem actions_session (i : ℕ) (acts : List Action) (lines : List LogLine) :
    actions (acts.map (.session i) ++ lines.map .log) = acts.map fun x => (i, x) := by
  simp [actions, List.filterMap_map, Function.comp_def, Output.action]

theorem actions_log (lines : List LogLine) : actions (lines.map .log) = [] := by
  simp [actions, List.filterMap_map, Function.comp_def, Output.action]

/-- A step is a step of `Proxy` or none at all. -/
theorem Step.proxy {sv sv' : Server} {inp : Input} {out : List Output} (h : Step sv inp sv' out) :
    exec Proxy.step sv.proxy inp.proxy.toList = some (sv'.proxy, actions out) := by
  cases h with
  | warm_up i rest error lines hw =>
      rw [actions_log]
      exact exec_singleton (by simp [Proxy.step, hw])
  | dropped => rfl
  | admitted address now now_ms hnow hw =>
      exact exec_singleton (by simp [Proxy.step, hw, hnow, actions, Output.action])
  | refused address now now_ms hnow hw =>
      exact exec_singleton (by simp [Proxy.step, hw, hnow, actions, Output.action])
  | reap now hnow hw => exact exec_singleton (by simp [Proxy.step, hw, hnow, actions])
  | session i now e what s s' shared acts hnow hi hs =>
      have hone : sv.proxy.step (.session i now e)
          = some ({ sv.proxy with
              clock := now, shared := shared, sessions := sv.proxy.sessions.set i s' },
            acts.map fun x => (i, x)) := by
        simp only [Proxy.step, if_neg (not_lt.mpr hnow), hi, hs]
      rw [actions_session]
      exact exec_singleton hone
  | reject k c r r' acts => simp [Input.proxy, actions, Output.action, Function.comp_def]
  | metrics_accept => rfl
  | scrape k c r r' acts => simp [Input.proxy, actions, Output.action, Function.comp_def]

/-- **A run, without what it shows, is a run of `Proxy`.** -/
theorem run_proxy {sv sv' : Server} {ins : List Input} {tr : List Output}
    (h : exec step sv ins = some (sv', tr)) :
    exec Proxy.step sv.proxy (ins.filterMap Input.proxy) = some (sv'.proxy, actions tr) := by
  refine exec_invariant_inputs
    (I := fun ins sv' tr => exec Proxy.step sv.proxy (ins.filterMap Input.proxy)
      = some (sv'.proxy, actions tr)) ?_ rfl h
  intro ins u tr inp u' out _ hu hstep
  rw [List.filterMap_append, actions_append, exec_append_iff]
  refine ⟨u.proxy, actions tr, actions out, hu, ?_, rfl⟩
  have hone := (step_step hstep).proxy
  cases hinp : inp.proxy with
  | none => simpa [hinp] using hone
  | some i => simpa [hinp] using hone

end Server

end AegisProxy
