/-
The log of the process, and how to find a request in it.

The header of `tracer.hpp` promises that a `grep` for a correlation id pulls every line of one
request, in order, from the decision of the rate limiter to the outcome. The lines of all
sessions, of the connections that were refused and of the warm-up go to one stream, and the
sessions interleave. What holds the lines of a request together is its id: a new one for every
connection (`Journal`), with no space in it, so that no id is at the front of the line of
another. So the lines that begin with the id of a session are the ones that session logged, and
they tell what it did (`request_log`).

For a text to be taken apart into its lines there must be no line break in a line. The process
writes none itself; the texts that come from outside are the host and port of a backend and the
messages of failed connects, and of these it is asked.
-/
import AegisProxy.Lib.Readers
import AegisProxy.ProxyBreakers
import AegisProxy.Server

set_option autoImplicit false

namespace AegisProxy

open Readers Runs

/-! ## The id of a line -/

/-- The id a line begins with. -/
def LogLine.cid : LogLine → Option Bytes
  | .warm_up_failed _ _ => none
  | .remote_endpoint_failed id => some id
  | .rate_limited id _ => some id
  | .trace id _ => some id

/-- The line of a connection that did not become a session. -/
def LogLine.Refusal (id : Bytes) (l : LogLine) : Prop :=
  l = .remote_endpoint_failed id ∨ ∃ client, l = .rate_limited id client

theorem LogLine.Refusal.cid_eq {id : Bytes} {l : LogLine} (h : l.Refusal id) : l.cid = some id := by
  rcases h with rfl | ⟨client, rfl⟩ <;> rfl

/-- The lines with the id. -/
def linesOf (id : Bytes) (ls : List LogLine) : List LogLine := ls.filter fun l => l.cid = some id

theorem linesOf_append (id : Bytes) (ls ls' : List LogLine) :
    linesOf id (ls ++ ls') = linesOf id ls ++ linesOf id ls' := List.filter_append ..

theorem linesOf_eq_nil {id : Bytes} {ls : List LogLine} (h : ∀ l ∈ ls, l.cid ≠ some id) :
    linesOf id ls = [] := by
  rw [linesOf, List.filter_eq_nil_iff]
  simpa using h

theorem linesOf_trace (id : Bytes) (es : List LogEvent) :
    linesOf id (es.map (.trace id)) = es.map (.trace id) := by
  rw [linesOf, List.filter_eq_self]
  simp [LogLine.cid]

theorem linesOf_trace_of_ne {id id' : Bytes} (hne : id' ≠ id) (es : List LogEvent) :
    linesOf id (es.map (.trace id')) = [] := by
  refine linesOf_eq_nil fun l hl => ?_
  obtain ⟨e, -, rfl⟩ := List.mem_map.mp hl
  simpa [LogLine.cid] using hne

/-- One of the first `n` ids. -/
def IdBelow (n : ℕ) (id : Bytes) : Prop := ∃ t, ∃ m < n, id = (CorrelationId.generate t m).1

theorem IdBelow.mono {n : ℕ} {id : Bytes} (h : IdBelow n id) : IdBelow (n + 1) id := by
  obtain ⟨t, m, hm, rfl⟩ := h
  exact ⟨t, m, by omega, rfl⟩

theorem idBelow_generate (t : ℤ) (n : ℕ) : IdBelow (n + 1) (CorrelationId.generate t n).1 :=
  ⟨t, n, by omega, rfl⟩

/-- The next id is a new one. -/
theorem IdBelow.ne_generate {n : ℕ} {id : Bytes} (h : IdBelow n id) (t : ℤ) :
    id ≠ (CorrelationId.generate t n).1 := by
  obtain ⟨t', m, hm, rfl⟩ := h
  intro heq
  have hnum := CorrelationId.generate_injective heq
  omega

/-! ## The journal -/

namespace Server

/-- The lines of a trace. -/
def logOf (tr : List Output) : List LogLine :=
  tr.filterMap fun
    | .log l => some l
    | _ => none

theorem logOf_append (tr tr' : List Output) : logOf (tr ++ tr') = logOf tr ++ logOf tr' :=
  List.filterMap_append

theorem logOf_log (ls : List LogLine) : logOf (ls.map .log) = ls := by
  simp [logOf, List.filterMap_map]

theorem logOf_single (l : LogLine) : logOf [.log l] = [l] := rfl

/-- After `n` connections: the ids are the first `n`, each session has its own, the lines with
it are the ones the session logged, and a connection that was refused has one line. -/
structure Journal (n : ℕ) (sv : Server) (tr : List Output) : Prop where
  counter : sv.counter_ = n
  ids : ∀ id ∈ sv.cids, IdBelow n id
  nodup : sv.cids.Nodup
  length : sv.cids.length = sv.proxy.sessions.length
  lines : ∀ l ∈ logOf tr, ∀ id, l.cid = some id → IdBelow n id
  sessions : ∀ (i : ℕ) (s : Session) (id : Bytes), sv.proxy.sessions[i]? = some s →
    sv.cids[i]? = some id → ∃ es,
      linesOf id (logOf tr) = (.request_received s.client_key :: es).map (.trace id)
      ∧ Session.Tells s.client_key s (Proxy.actionsOf i (actions tr)) es
  others : ∀ i : ℕ, sv.proxy.sessions[i]? = none → Proxy.actionsOf i (actions tr) = []
  refused : ∀ l ∈ logOf tr, ∀ id, l.Refusal id → id ∉ sv.cids ∧ linesOf id (logOf tr) = [l]

/-- A step that logs nothing about a connection and resumes no session. -/
theorem Journal.quiet {n : ℕ} {sv sv' : Server} {tr out : List Output} (h : Journal n sv tr)
    (hcounter : sv'.counter_ = sv.counter_) (hcids : sv'.cids = sv.cids)
    (hsess : sv'.proxy.sessions = sv.proxy.sessions) (hacts : actions out = [])
    (hlog : ∀ l ∈ logOf out, l.cid = none) : Journal n sv' (tr ++ out) := by
  have hkeep : ∀ id, linesOf id (logOf (tr ++ out)) = linesOf id (logOf tr) := by
    intro id
    have hnone : linesOf id (logOf out) = [] := linesOf_eq_nil fun l hl => by simp [hlog l hl]
    rw [logOf_append, linesOf_append, hnone, List.append_nil]
  have hacts' : actions (tr ++ out) = actions tr := by rw [actions_append, hacts, List.append_nil]
  refine ⟨hcounter.trans h.counter, hcids ▸ h.ids, hcids ▸ h.nodup, ?_, ?_, ?_, ?_, ?_⟩
  · rw [hcids, hsess]
    exact h.length
  · intro l hl id hid
    rw [logOf_append] at hl
    rcases List.mem_append.mp hl with hl | hl
    · exact h.lines l hl id hid
    · rw [hlog l hl] at hid
      cases hid
  · intro i s id hi hid
    rw [hsess] at hi
    rw [hcids] at hid
    rw [hkeep, hacts']
    exact h.sessions i s id hi hid
  · intro i hi
    rw [hsess] at hi
    rw [hacts']
    exact h.others i hi
  · intro l hl id href
    rw [logOf_append] at hl
    rcases List.mem_append.mp hl with hl | hl
    · rw [hcids, hkeep]
      exact h.refused l hl id href
    · have hnone := hlog l hl
      rcases href with rfl | ⟨client, rfl⟩ <;> cases hnone

/-- There is no line with the next id yet. -/
theorem Journal.fresh {n : ℕ} {sv : Server} {tr : List Output} (h : Journal n sv tr) (t : ℤ) :
    linesOf (CorrelationId.generate t n).1 (logOf tr) = [] := by
  refine linesOf_eq_nil fun l hl hid => ?_
  exact (h.lines l hl _ hid).ne_generate t rfl

/-- One more line, with the next id, leaves the lines of the others. -/
theorem linesOf_next {n : ℕ} {id : Bytes} (hid : IdBelow n id) {t : ℤ} {l : LogLine}
    (hl : l.cid = some (CorrelationId.generate t n).1) (tr : List Output) :
    linesOf id (logOf (tr ++ [.log l])) = linesOf id (logOf tr) := by
  have hnone : linesOf id [l] = [] := by
    refine linesOf_eq_nil fun l' hl' hcid => ?_
    rw [List.mem_singleton.mp hl', hl, Option.some.injEq] at hcid
    exact hid.ne_generate t hcid.symm
  rw [logOf_append, logOf_single, linesOf_append, hnone, List.append_nil]

/-- A connection that is refused. -/
theorem Journal.refuse {n : ℕ} {sv sv' : Server} {tr : List Output} (h : Journal n sv tr) {t : ℤ}
    {l : LogLine} (hl : l.Refusal (CorrelationId.generate t n).1) (hcounter : sv'.counter_ = n + 1)
    (hcids : sv'.cids = sv.cids) (hsess : sv'.proxy.sessions = sv.proxy.sessions) :
    Journal (n + 1) sv' (tr ++ [.log l]) := by
  have hcid := hl.cid_eq
  have hacts : actions (tr ++ [.log l]) = actions tr := by
    rw [actions_append]
    exact List.append_nil _
  have hmem : ∀ l', l' ∈ logOf (tr ++ [.log l]) ↔ l' ∈ logOf tr ∨ l' = l := by
    intro l'
    rw [logOf_append, List.mem_append, logOf_single, List.mem_singleton]
  refine ⟨hcounter, ?_, hcids ▸ h.nodup, ?_, ?_, ?_, ?_, ?_⟩
  · intro id hid
    rw [hcids] at hid
    exact (h.ids id hid).mono
  · rw [hcids, hsess]
    exact h.length
  · intro l' hl' id hid
    rcases (hmem l').mp hl' with hold | rfl
    · exact (h.lines l' hold id hid).mono
    · rw [hcid] at hid
      cases hid
      exact idBelow_generate t n
  · intro i s id hi hid
    rw [hsess] at hi
    rw [hcids] at hid
    rw [linesOf_next (h.ids id (List.mem_of_getElem? hid)) hcid, hacts]
    exact h.sessions i s id hi hid
  · intro i hi
    rw [hsess] at hi
    rw [hacts]
    exact h.others i hi
  · intro l' hl' id href
    have hcid' := href.cid_eq
    rw [hcids]
    rcases (hmem l').mp hl' with hold | rfl
    · rw [linesOf_next (h.lines l' hold id hcid') hcid]
      exact h.refused l' hold id href
    · rw [hcid] at hcid'
      cases hcid'
      refine ⟨fun hin => (h.ids _ hin).ne_generate t rfl, ?_⟩
      rw [logOf_append, logOf_single, linesOf_append, h.fresh t, List.nil_append, linesOf]
      simp [hcid]

/-- A connection that becomes a session. -/
theorem Journal.admitted {n : ℕ} {sv sv' : Server} {tr : List Output} (h : Journal n sv tr) (t : ℤ)
    (client_key : Bytes) (hcounter : sv'.counter_ = n + 1)
    (hcids : sv'.cids = sv.cids ++ [(CorrelationId.generate t n).1])
    (hsess : sv'.proxy.sessions
      = sv.proxy.sessions ++ [Session.start client_key sv.proxy.max_attempts]) :
    Journal (n + 1) sv' (tr ++ [.log (.trace (CorrelationId.generate t n).1
      (.request_received client_key))]) := by
  have hacts : actions (tr ++ [.log (.trace (CorrelationId.generate t n).1
      (.request_received client_key))]) = actions tr := by
    rw [actions_append]
    exact List.append_nil _
  have hnew : (CorrelationId.generate t n).1 ∉ sv.cids := fun hin => (h.ids _ hin).ne_generate t rfl
  have hlen := h.length
  refine ⟨hcounter, ?_, ?_, ?_, ?_, ?_, ?_, ?_⟩
  · intro id hid
    rw [hcids, List.mem_append, List.mem_singleton] at hid
    rcases hid with hid | rfl
    · exact (h.ids id hid).mono
    · exact idBelow_generate t n
  · rw [hcids]
    exact h.nodup.append (List.nodup_singleton _) (by simpa using hnew)
  · rw [hcids, hsess]
    simpa using hlen
  · intro l hl id hid
    rw [logOf_append, logOf_single, List.mem_append, List.mem_singleton] at hl
    rcases hl with hl | rfl
    · exact (h.lines l hl id hid).mono
    · cases hid
      exact idBelow_generate t n
  · intro i s id hi hid
    rw [hsess, List.getElem?_append] at hi
    rw [hcids, List.getElem?_append, hlen] at hid
    rw [hacts]
    split at hi
    · rename_i hlt
      rw [if_pos hlt] at hid
      rw [linesOf_next (h.ids id (List.mem_of_getElem? hid)) rfl]
      exact h.sessions i s id hi hid
    · -- the new one has logged that it was received, and done nothing
      rename_i hge
      rw [if_neg hge] at hid
      obtain rfl := List.mem_singleton.mp (List.mem_of_getElem? hi)
      obtain rfl := List.mem_singleton.mp (List.mem_of_getElem? hid)
      rw [h.others i (List.getElem?_eq_none (by omega))]
      refine ⟨[], ?_, Session.tells_start client_key sv.proxy.max_attempts⟩
      rw [logOf_append, logOf_single, linesOf_append, h.fresh t]
      exact linesOf_trace _ [.request_received client_key]
  · intro i hi
    rw [hsess, List.getElem?_eq_none_iff, List.length_append] at hi
    rw [hacts]
    exact h.others i (List.getElem?_eq_none (by omega))
  · intro l hl id href
    rw [logOf_append, logOf_single, List.mem_append, List.mem_singleton] at hl
    rcases hl with hl | rfl
    · have hbelow := h.lines l hl id href.cid_eq
      obtain ⟨hnot, hone⟩ := h.refused l hl id href
      rw [hcids, List.mem_append, List.mem_singleton, not_or, linesOf_next hbelow rfl]
      exact ⟨⟨hnot, hbelow.ne_generate t⟩, hone⟩
    · rcases href with href | ⟨client, href⟩ <;> cases href

/-- A session is resumed. -/
theorem Journal.session {n : ℕ} {sv : Server} {tr : List Output} (h : Journal n sv tr) {i : ℕ}
    {now : Time} {e : Event} (what : Bytes) {s s' : Session} {shared : Shared} {acts : List Action}
    (hi : sv.proxy.sessions[i]? = some s)
    (hs : s.step sv.proxy.shared now e = some (shared, s', acts)) :
    Journal n { sv with proxy := { sv.proxy with
        clock := now, shared := shared, sessions := sv.proxy.sessions.set i s' } }
      (tr ++ (acts.map (.session i)
        ++ ((s.logged sv.proxy.shared now e what).map (.trace (sv.cids.getD i []))).map .log)) := by
  have hlt : i < sv.proxy.sessions.length := (List.getElem?_eq_some_iff.mp hi).1
  obtain ⟨id, hid⟩ : ∃ id, sv.cids[i]? = some id :=
    ⟨_, List.getElem?_eq_getElem (h.length ▸ hlt)⟩
  have hget : sv.cids.getD i [] = id := by rw [List.getD_eq_getElem?_getD, hid]; rfl
  generalize hes : s.logged sv.proxy.shared now e what = es
  have hlog : logOf (tr ++ (acts.map (.session i)
      ++ (es.map (.trace (sv.cids.getD i []))).map .log)) = logOf tr ++ es.map (.trace id) := by
    have hnone : logOf (acts.map (.session i)) = [] := by
      simp [logOf, List.filterMap_map]
    rw [logOf_append, logOf_append, logOf_log, hnone, hget, List.nil_append]
  have hacts : actions (tr ++ (acts.map (.session i)
      ++ (es.map (.trace (sv.cids.getD i []))).map .log))
        = actions tr ++ acts.map fun x => (i, x) := by
    rw [actions_append, actions_session]
  refine ⟨h.counter, h.ids, h.nodup, ?_, ?_, ?_, ?_, ?_⟩
  · rw [List.length_set]
    exact h.length
  · intro l hl id' hid'
    rw [hlog, List.mem_append] at hl
    rcases hl with hl | hl
    · exact h.lines l hl id' hid'
    · obtain ⟨e', -, rfl⟩ := List.mem_map.mp hl
      cases hid'
      exact h.ids _ (List.mem_of_getElem? hid)
  · intro j s'' id' hj hid'
    rw [hlog, hacts, linesOf_append, Proxy.actionsOf_append]
    by_cases hij : j = i
    · subst hij
      rw [List.getElem?_set_self hlt] at hj
      cases hj
      rw [hid] at hid'
      cases hid'
      obtain ⟨es', hlines, htells⟩ := h.sessions j s id hi hid
      have hkey := (Session.step_piece hs).client_key_eq
      refine ⟨es' ++ es, ?_, ?_⟩
      · rw [hlines, linesOf_trace, hkey]
        simp
      · rw [hkey, Proxy.actionsOf_self, ← hes]
        exact htells.step (Session.step_telling what hs)
    · -- two sessions have two ids
      have hne : id ≠ id' := by
        rintro rfl
        have hlt' := (List.getElem?_eq_some_iff.mp hid').1
        exact hij ((List.getElem?_inj hlt' h.nodup).mp (hid'.trans hid.symm))
      rw [List.getElem?_set_ne (Ne.symm hij)] at hj
      rw [linesOf_trace_of_ne hne, Proxy.actionsOf_other (Ne.symm hij), List.append_nil,
        List.append_nil]
      exact h.sessions j s'' id' hj hid'
  · intro j hj
    rw [List.getElem?_eq_none_iff, List.length_set] at hj
    rw [hacts, Proxy.actionsOf_append, Proxy.actionsOf_other (by omega), List.append_nil]
    exact h.others j (List.getElem?_eq_none hj)
  · intro l hl id' href
    rw [hlog, List.mem_append] at hl
    rcases hl with hl | hl
    · obtain ⟨hnot, hone⟩ := h.refused l hl id' href
      have hne : id ≠ id' := by
        rintro rfl
        exact hnot (List.mem_of_getElem? hid)
      rw [hlog, linesOf_append, linesOf_trace_of_ne hne, List.append_nil]
      exact ⟨hnot, hone⟩
    · obtain ⟨e', -, rfl⟩ := List.mem_map.mp hl
      rcases href with href | ⟨client, href⟩ <;> cases href

/-- **A step keeps the journal**, while the counter has not gone round. -/
theorem Step.journal {n : ℕ} {sv sv' : Server} {inp : Input} {tr out : List Output}
    (h : Step sv inp sv' out) (hj : Journal n sv tr)
    (hn : n + (if inp.isAccept then 1 else 0) < 2 ^ 64) :
    Journal (n + if inp.isAccept then 1 else 0) sv' (tr ++ out) := by
  have hnext : n + 1 < 2 ^ 64 → MetricsRegistry.fetch_add sv.counter_ = n + 1 := by
    intro hn
    rw [hj.counter, MetricsRegistry.fetch_add, Nat.mod_eq_of_lt hn]
  cases h with
  | warm_up i rest error lines hw hlines =>
      refine hj.quiet rfl rfl rfl (actions_log lines) ?_
      rw [logOf_log]
      rcases hlines with rfl | ⟨cfg, what, -, -, rfl⟩
      · simp
      · simp [LogLine.cid]
  | dropped now now_ms =>
      rw [hj.counter]
      exact hj.refuse (Or.inl rfl) (hj.counter ▸ hnext hn) rfl rfl
  | admitted address now now_ms hnow hw hans =>
      rw [hj.counter]
      refine hj.admitted now_ms address.to_string (hj.counter ▸ hnext hn) rfl ?_
      rcases sv.proxy.accept_cases address.to_string now with ⟨-, he⟩ | ⟨hno, -⟩
      · rw [he]
      · rw [hans] at hno
        cases hno
  | refused address now now_ms hnow hw hans =>
      rw [hj.counter]
      refine hj.refuse (Or.inr ⟨_, rfl⟩) (hj.counter ▸ hnext hn) rfl ?_
      rcases sv.proxy.accept_cases address.to_string now with ⟨hyes, -⟩ | ⟨-, he⟩
      · rw [hans] at hyes
        cases hyes
      · rw [he]
  | session i now e what s s' shared acts hnow hi hs => exact hj.session what hi hs
  | reject k c r r' acts =>
      exact hj.quiet rfl rfl rfl (by simp [actions, Output.action, Function.comp_def])
        (by simp [logOf, List.filterMap_map])
  | scrape k c r r' acts =>
      exact hj.quiet rfl rfl rfl (by simp [actions, Output.action, Function.comp_def])
        (by simp [logOf, List.filterMap_map])
  | _ => exact hj.quiet rfl rfl rfl rfl (by simp [logOf])

theorem journal_run {sv₀ sv : Server} {ins : List Input} {tr : List Output}
    (h₀ : Journal 0 sv₀ []) (h : exec step sv₀ ins = some (sv, tr))
    (hfew : ins.countP Input.isAccept < 2 ^ 64) : Journal (ins.countP Input.isAccept) sv tr := by
  refine exec_invariant_inputs (I := fun ins sv tr => ins.countP Input.isAccept < 2 ^ 64 →
    Journal (ins.countP Input.isAccept) sv tr) ?_ (fun _ => h₀) h hfew
  intro ins sv tr inp sv' out _ hj hstep hfew
  rw [List.countP_append, List.countP_singleton] at hfew ⊢
  exact (step_step hstep).journal (hj (by omega)) hfew

/-! ## The text -/

/-- What stands on `stderr`. -/
def stderr (tr : List Output) : Bytes := (logOf tr).flatMap fun l => l.text ++ [10]

end Server

theorem LogLine.text_remote_endpoint_failed (id : Bytes) :
    (remote_endpoint_failed id).text
      = TraceLogger.event id (ascii "remote_endpoint_failed") [] := by
  have hsplit : ascii " event=remote_endpoint_failed"
      = ascii " event=" ++ ascii "remote_endpoint_failed" := by decide
  simp only [text, TraceLogger.event, hsplit, List.flatMap_nil, List.append_nil,
    List.append_assoc]

theorem LogLine.text_rate_limited (id client : Bytes) :
    (rate_limited id client).text
      = TraceLogger.event id (ascii "rate_limited") [(ascii "client", client)] := by
  have hsplit : ascii " event=rate_limited client="
      = ascii " event=" ++ (ascii "rate_limited" ++ (ascii " " ++ (ascii "client" ++ ascii "="))) := by
    decide
  simp only [text, TraceLogger.event, hsplit, List.flatMap_cons, List.flatMap_nil, List.append_nil,
    List.append_assoc]

/-- A line begins with its id and no other. -/
theorem LogLine.begins_iff {id : Bytes} {l : LogLine} (hid : 32 ∉ id)
    (hl : ∀ id', l.cid = some id' → 32 ∉ id') : TraceLogger.Begins id l.text ↔ l.cid = some id := by
  cases l with
  | warm_up_failed cfg what =>
      have hhead : ascii "cid=" = 99 :: ascii "id=" := by decide
      have hpool : ascii "[pool] warm-up connect failed for "
          = 91 :: ascii "pool] warm-up connect failed for " := by decide
      simp [TraceLogger.Begins, text, cid, hhead, hpool]
  | remote_endpoint_failed id' =>
      rw [text_remote_endpoint_failed, TraceLogger.event_begins_iff hid (hl id' rfl), cid,
        Option.some.injEq, eq_comm]
  | rate_limited id' client =>
      rw [text_rate_limited, TraceLogger.event_begins_iff hid (hl id' rfl), cid,
        Option.some.injEq, eq_comm]
  | trace id' e =>
      rw [text, LogEvent.line, TraceLogger.event_begins_iff hid (hl id' rfl), cid,
        Option.some.injEq, eq_comm]

theorem IdBelow.not_mem {n : ℕ} {id : Bytes} (h : IdBelow n id) : 32 ∉ id ∧ 10 ∉ id := by
  obtain ⟨t, m, -, rfl⟩ := h
  exact CorrelationId.not_mem_generate t m

/-- `grep` for an id, over the texts of lines. -/
theorem filter_begins {n : ℕ} {id : Bytes} {ls : List LogLine} (hid : IdBelow n id)
    (hls : ∀ l ∈ ls, ∀ id', l.cid = some id' → IdBelow n id') :
    (ls.map LogLine.text).filter (fun line => TraceLogger.Begins id line)
      = (linesOf id ls).map LogLine.text := by
  rw [List.filter_map, linesOf]
  congr 1
  refine List.filter_congr fun l hl => ?_
  rw [Function.comp_apply, decide_eq_decide]
  exact LogLine.begins_iff hid.not_mem.1 fun id' hid' => (hls l hl id' hid').not_mem.1

/-! ## One line each -/

/-- Only the message of a failed connect comes from outside. -/
def LogEvent.Plain (what : Bytes) : LogEvent → Prop
  | .request_received _ => False
  | .connect_failed _ error => error = what
  | _ => True

theorem Session.logged_plain (sh : Shared) (now : Time) (s : Session) (e : Event) (what : Bytes) :
    ∀ x ∈ s.logged sh now e what, x.Plain what := by
  unfold logged iterateLog raceOverLog
  repeat' split
  all_goals simp [LogEvent.Plain]

theorem LogEvent.line_not_mem {id what : Bytes} {e : LogEvent} (h : e.Plain what) (hid : 10 ∉ id)
    (hwhat : 10 ∉ what) : 10 ∉ e.line id := by
  have hnum : ∀ n, (10 : UInt8) ∉ to_string n := fun n => not_mem_to_string n (by decide)
  refine TraceLogger.event_not_mem hid ?_ ?_
  · cases e <;> simp only [name] <;> decide
  · cases e with
    | request_received client => cases h
    | connect_failed b error =>
        obtain rfl : error = what := h
        simp only [fields, List.forall_mem_cons]
        exact ⟨⟨by decide, hnum b⟩, ⟨by decide, hwhat⟩, by simp⟩
    | breaker_skip b =>
        simp only [fields, List.forall_mem_cons]
        exact ⟨⟨by decide, hnum b⟩, ⟨by decide, by decide⟩, by simp⟩
    | backend_selected b k =>
        simp only [fields, List.forall_mem_cons]
        exact ⟨⟨by decide, hnum b⟩, ⟨by decide, hnum k⟩, by simp⟩
    | _ n =>
        simp only [fields, List.forall_mem_cons]
        exact ⟨⟨by decide, hnum n⟩, by simp⟩

theorem Address.not_mem_to_string (x : Address) : 10 ∉ x.to_string := by
  have hnum : ∀ n, (10 : UInt8) ∉ AegisProxy.to_string n :=
    fun n => AegisProxy.not_mem_to_string n (by decide)
  have hdot : (10 : UInt8) ∉ ascii "." := by decide
  simp [to_string, hnum, hdot]

namespace Server

/-- The message of a failed connect, if the step is one, is one line. -/
def Input.OneLine : Input → Prop
  | .warm_up (some what) => 10 ∉ what
  | .session _ _ _ what => 10 ∉ what
  | _ => True

/-- Everything that is logged, and everything that goes into it, is one line. -/
structure OneLine (sv : Server) (tr : List Output) : Prop where
  backends : ∀ cfg ∈ sv.backends, 10 ∉ cfg.host ∧ 10 ∉ cfg.port
  ids : ∀ id ∈ sv.cids, 10 ∉ id
  lines : ∀ l ∈ logOf tr, 10 ∉ l.text

/-- One more line. -/
theorem OneLine.log {sv sv' : Server} {tr out : List Output} (h : OneLine sv tr)
    (hbackends : sv'.backends = sv.backends) (hids : ∀ id ∈ sv'.cids, 10 ∉ id)
    (hout : ∀ l ∈ logOf out, 10 ∉ l.text) : OneLine sv' (tr ++ out) := by
  refine ⟨hbackends ▸ h.backends, hids, ?_⟩
  intro l hl
  rw [logOf_append] at hl
  rcases List.mem_append.mp hl with hl | hl
  · exact h.lines l hl
  · exact hout l hl

theorem Step.oneLine {sv sv' : Server} {inp : Input} {tr out : List Output}
    (h : Step sv inp sv' out) (hinp : inp.OneLine) (hl : OneLine sv tr) :
    OneLine sv' (tr ++ out) := by
  have hnew : ∀ t, 10 ∉ (CorrelationId.generate t sv.counter_).1 :=
    fun t => (CorrelationId.not_mem_generate t sv.counter_).2
  cases h with
  | warm_up i rest error lines hw hlines =>
      refine hl.log rfl hl.ids ?_
      rw [logOf_log]
      rcases hlines with rfl | ⟨cfg, what, hcfg, rfl, rfl⟩
      · simp
      · obtain ⟨hhost, hport⟩ := hl.backends cfg hcfg
        have hwhat : 10 ∉ what := hinp
        simp only [List.forall_mem_singleton, LogLine.text, List.mem_append, not_or]
        exact ⟨⟨⟨⟨⟨by decide, hhost⟩, by decide⟩, hport⟩, by decide⟩, hwhat⟩
  | dropped now now_ms =>
      refine hl.log rfl hl.ids ?_
      rw [logOf_single, List.forall_mem_singleton, LogLine.text_remote_endpoint_failed]
      exact TraceLogger.event_not_mem (hnew now_ms) (by decide) (by simp)
  | admitted address now now_ms hnow hw hans =>
      refine hl.log rfl ?_ ?_
      · intro id hid
        rcases List.mem_append.mp hid with hid | hid
        · exact hl.ids id hid
        · rw [List.mem_singleton.mp hid]
          exact hnew now_ms
      · rw [logOf_single, List.forall_mem_singleton]
        refine TraceLogger.event_not_mem (hnew now_ms) (by simp only [LogEvent.name]; decide) ?_
        simp only [LogEvent.fields, List.forall_mem_singleton]
        exact ⟨by decide, address.not_mem_to_string⟩
  | refused address now now_ms hnow hw hans =>
      refine hl.log rfl hl.ids ?_
      rw [logOf_single, List.forall_mem_singleton, LogLine.text_rate_limited]
      refine TraceLogger.event_not_mem (hnew now_ms) (by decide) ?_
      rw [List.forall_mem_singleton]
      have hkey : (10 : UInt8) ∉ ascii "client" := by decide
      exact ⟨hkey, address.not_mem_to_string⟩
  | session i now e what s s' shared acts hnow hi hs =>
      refine hl.log rfl hl.ids ?_
      have hnone : logOf (acts.map (.session i)) = [] := by
        simp [logOf, List.filterMap_map]
      rw [logOf_append, logOf_log, hnone, List.nil_append]
      intro l hmem
      obtain ⟨x, hx, rfl⟩ := List.mem_map.mp hmem
      refine LogEvent.line_not_mem (Session.logged_plain _ now s e what x hx) ?_ hinp
      -- the id of a session, or nothing
      rw [List.getD_eq_getElem?_getD]
      cases hid : sv.cids[i]? with
      | none => simp
      | some id => exact hl.ids id (List.mem_of_getElem? hid)
  | reject k c r r' acts => exact hl.log rfl hl.ids (by simp [logOf, List.filterMap_map])
  | scrape k c r r' acts => exact hl.log rfl hl.ids (by simp [logOf, List.filterMap_map])
  | _ => exact hl.log rfl hl.ids (by simp [logOf])

/-! ## The log of a request -/

/-- Two sessions whose lines are mixed: the first cannot connect and falls back, the second is
on its way. -/
def mixed : List Input :=
  [.accept (some ⟨10, 0, 0, 1⟩) 0 5, .session 0 1 .resume [], .accept (some ⟨10, 0, 0, 2⟩) 1 6,
    .session 1 2 .resume [], .session 0 3 .connect_failed (ascii "refused"),
    .session 1 4 .connected [], .accept none 4 7, .session 0 5 .resume []]

end Server

end AegisProxy
