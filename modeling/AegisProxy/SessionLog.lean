/-
What `handle_client` logs.

Every step of a session is logged or is not, and with what is a function of where the session
stands and of what resumes it (`logged`), in the branches of the source. `e.what()`, the text
of the exception a failed connect throws, comes from the network library and is an input.

A log is good for something if it can be trusted, so the results are about a reader that has
nothing else. `advance` is a strict one: it follows the log line by line, and stops at a line
that cannot come next, or whose numbers do not add up with the lines before it. It follows
every log to its end, and knows then where the session stands; and what a log tells of the
backends -- skipped, selected, failed, succeeded -- is what happened, in that order and
nothing else (`log_tells`).
-/
import AegisProxy.SessionEnds
import AegisProxy.Tracer

set_option autoImplicit false

namespace AegisProxy

open Runs

/-! ## The lines -/

/-- The lines of `handle_client`, by the name of the event. -/
inductive LogEvent
  | request_received (client : Bytes)
  | ring_exhausted (attempts : ℕ)
  | breaker_skip (backend : ℕ)
  | connect_failed (backend : ℕ) (error : Bytes)
  | backend_selected (backend attempt : ℕ)
  | replay_failed (backend : ℕ)
  | request_succeeded (backend : ℕ)
  | backend_failed_no_response (backend : ℕ)
  | retry_abandoned_buffer_capped (buffered_bytes : ℕ)
  | fallback_503 (attempts : ℕ)
  deriving DecidableEq, Repr

namespace LogEvent

/-- The `event_name`. -/
def name : LogEvent → Bytes
  | .request_received _ => ascii "request_received"
  | .ring_exhausted _ => ascii "ring_exhausted"
  | .breaker_skip _ => ascii "breaker_skip"
  | .connect_failed _ _ => ascii "connect_failed"
  | .backend_selected _ _ => ascii "backend_selected"
  | .replay_failed _ => ascii "replay_failed"
  | .request_succeeded _ => ascii "request_succeeded"
  | .backend_failed_no_response _ => ascii "backend_failed_no_response"
  | .retry_abandoned_buffer_capped _ => ascii "retry_abandoned_buffer_capped"
  | .fallback_503 _ => ascii "fallback_503"

/-- The `fields`. -/
def fields : LogEvent → List (Bytes × Bytes)
  | .request_received client => [(ascii "client", client)]
  | .ring_exhausted attempts => [(ascii "attempts", to_string attempts)]
  | .breaker_skip b =>
    [(ascii "backend", to_string b), (ascii "reason", ascii "open_or_trial_busy")]
  | .connect_failed b error => [(ascii "backend", to_string b), (ascii "error", error)]
  | .backend_selected b attempt =>
    [(ascii "backend", to_string b), (ascii "attempt", to_string attempt)]
  | .replay_failed b => [(ascii "backend", to_string b)]
  | .request_succeeded b => [(ascii "backend", to_string b)]
  | .backend_failed_no_response b => [(ascii "backend", to_string b)]
  | .retry_abandoned_buffer_capped n => [(ascii "buffered_bytes", to_string n)]
  | .fallback_503 attempts => [(ascii "attempts", to_string attempts)]

/-- `log.event(..)`. -/
def line (correlation_id : Bytes) (e : LogEvent) : Bytes :=
  TraceLogger.event correlation_id e.name e.fields

end LogEvent

namespace Session

/-- What one turn of the loop logs. -/
def iterateLog (sh : Shared) (now : Time) (s : Session) : List LogEvent :=
  if (s.attempts : ℤ) < s.max_attempts then
    match sh.ring.get_backend_excluding s.client_key s.excluded with
    | none => [.ring_exhausted s.attempts, .fallback_503 s.attempts]
    | some b =>
      if sh.backend_count ≤ b then []
      else if ((sh.breakers b).allow_request now).1 = false then [.breaker_skip b]
      else
        match (sh.pool.acquire b).1 with
        -- nothing is logged before the connect has come to something
        | none => []
        | some _ => [.backend_selected b (s.attempts + 1)]
  else [.fallback_503 s.attempts]

/-- What the end of a race logs. The 503 counts the attempt that has just failed. -/
def raceOverLog (s : Session) (a : Attempt) (response_started : Bool) : List LogEvent :=
  if response_started then [.request_succeeded a.backend_index]
  else
    [.backend_failed_no_response a.backend_index]
      ++ if s.req_buf.capped then
          [.retry_abandoned_buffer_capped s.req_buf.data.length, .fallback_503 (s.attempts + 1)]
        else []

/-- What `handle_client`, resumed, logs. -/
def logged (sh : Shared) (now : Time) (s : Session) (e : Event) (what : Bytes) : List LogEvent :=
  match s.point, e with
  | .loop, .resume => iterateLog sh now s
  | .acquiring a, .connected => [.backend_selected a.backend_index (s.attempts + 1)]
  | .acquiring a, .connect_failed => [.connect_failed a.backend_index what]
  | .replaying a _ rest, .io c =>
    match async_write false rest c with
    | some (_, .error _) => [.replay_failed a.backend_index]
    | _ => []
  | .relaying a _ race, .resume => if race.over then raceOverLog s a race.response_started else []
  | _, _ => []

/-- One session with everything around it arbitrary, and its log. -/
def soloLogged (s : Session) (i : Input × Bytes) : Option (Session × List (Action ⊕ LogEvent)) :=
  match s.step i.1.shared i.1.now i.1.event with
  | none => none
  | some (_, s', acts) =>
    some (s', acts.map .inl ++ (s.logged i.1.shared i.1.now i.1.event i.2).map .inr)

/-! ## What a step logs -/

/-- What a step does and what it logs, for each way out of each point. -/
inductive Telling (s : Session) : Session → List Action → List LogEvent → Prop
  | gave_up (hp : s.point = .loop) (log : List LogEvent)
      (hlog : log = [.fallback_503 s.attempts]
        ∨ log = [.ring_exhausted s.attempts, .fallback_503 s.attempts]) :
      Telling s { s with point := .responding unavailable } [.fallback_503] log
  | threw (hp : s.point = .loop) : Telling s { s with point := .threw } [] []
  | skipped (b : ℕ) (now : Time) (hp : s.point = .loop) :
      Telling s (s.retry b) [.breaker ⟨s.attempts, b⟩ (.allow_request now) (some false)]
        [.breaker_skip b]
  | dialing (b : ℕ) (now : Time) (hp : s.point = .loop) :
      Telling s { s with point := .acquiring ⟨s.attempts, b⟩ }
        [.breaker ⟨s.attempts, b⟩ (.allow_request now) (some true), .acquire ⟨s.attempts, b⟩] []
  | pooled (b : ℕ) (now : Time) (socket : ℕ) (hp : s.point = .loop) :
      Telling s { s with point := s.usePoint ⟨s.attempts, b⟩ socket }
        [.breaker ⟨s.attempts, b⟩ (.allow_request now) (some true), .acquire ⟨s.attempts, b⟩,
          .acquired ⟨s.attempts, b⟩ socket] [.backend_selected b (s.attempts + 1)]
  | connected (a : Attempt) (socket : ℕ) (hp : s.point = .acquiring a) :
      Telling s { s with point := s.usePoint a socket } [.acquired a socket]
        [.backend_selected a.backend_index (s.attempts + 1)]
  | connect_failed (a : Attempt) (now : Time) (what : Bytes) (hp : s.point = .acquiring a) :
      Telling s (s.retry a.backend_index)
        [.connect_failed a, .breaker a (.record_failure now) none]
        [.connect_failed a.backend_index what]
  | replay_failed (a : Attempt) (socket : ℕ) (rest out : Bytes) (ec : ErrorCode) (now : Time)
      (hp : s.point = .replaying a socket rest) :
      Telling s (s.retry a.backend_index)
        [.sent (.backend a) out, .write_failed (.backend a) ec,
          .breaker a (.record_failure now) none, .released a socket]
        [.replay_failed a.backend_index]
  | succeeded (a : Attempt) (socket : ℕ) (race : Race) (now : Time)
      (hp : s.point = .relaying a socket race) :
      Telling s { s with point := .finished }
        [.released a socket, .breaker a (.record_success now) none]
        [.request_succeeded a.backend_index]
  | failed (a : Attempt) (socket : ℕ) (race : Race) (now : Time)
      (hp : s.point = .relaying a socket race) :
      Telling s (s.retry a.backend_index)
        [.released a socket, .breaker a (.record_failure now) none]
        [.backend_failed_no_response a.backend_index]
  | failed_capped (a : Attempt) (socket : ℕ) (race : Race) (now : Time) (n : ℕ)
      (hp : s.point = .relaying a socket race) :
      Telling s { s.retry a.backend_index with point := .responding unavailable }
        [.released a socket, .breaker a (.record_failure now) none, .fallback_503]
        [.backend_failed_no_response a.backend_index, .retry_abandoned_buffer_capped n,
          .fallback_503 (s.attempts + 1)]
  | wire (s' : Session) (acts : List Action) (hw : Wire s s' acts) : Telling s s' acts []

theorem iterate_telling (sh : Shared) (now : Time) (s : Session) (hp : s.point = .loop) :
    Telling s (iterate sh now s).2.1 (iterate sh now s).2.2 (iterateLog sh now s) := by
  unfold iterate iterateLog
  by_cases hatt : (s.attempts : ℤ) < s.max_attempts
  · rw [if_pos hatt, if_pos hatt]
    cases hring : sh.ring.get_backend_excluding s.client_key s.excluded with
    | none => exact .gave_up hp _ (Or.inr rfl)
    | some b =>
        dsimp only
        by_cases hb : sh.backend_count ≤ b
        · rw [if_pos hb, if_pos hb]
          exact .threw hp
        · rw [if_neg hb, if_neg hb]
          by_cases hans : ((sh.breakers b).allow_request now).1 = false
          · rw [if_pos hans, if_pos hans, hans]
            exact .skipped b now hp
          · rw [if_neg hans, if_neg hans]
            have htrue : ((sh.breakers b).allow_request now).1 = true := by simpa using hans
            rw [htrue]
            cases hgot : (sh.pool.acquire b).1 with
            | none => exact .dialing b now hp
            | some socket => exact .pooled b now socket hp
  · rw [if_neg hatt, if_neg hatt]
    exact .gave_up hp _ (Or.inl rfl)

theorem raceOver_telling (sh : Shared) (now : Time) (s : Session) (a : Attempt) (socket : ℕ)
    (race : Race) (hp : s.point = .relaying a socket race) :
    Telling s (raceOver sh now s a socket race.response_started).2.1
      (raceOver sh now s a socket race.response_started).2.2
      (raceOverLog s a race.response_started) := by
  unfold raceOver raceOverLog
  cases hst : race.response_started with
  | true => exact .succeeded a socket race now hp
  | false =>
      cases hcap : s.req_buf.capped with
      | true => exact .failed_capped a socket race now _ hp
      | false => exact .failed a socket race now hp

/-- **Every step tells what it does.** -/
theorem step_telling {sh sh' : Shared} {now : Time} {s s' : Session} {e : Event}
    {acts : List Action} (what : Bytes) (h : s.step sh now e = some (sh', s', acts)) :
    Telling s s' acts (s.logged sh now e what) := by
  have hm := step_move h
  unfold step at h
  split at h
  · rename_i hp
    have hturn := iterate_telling sh now s hp
    rw [Option.some.inj h] at hturn
    simpa only [logged, hp] using hturn
  · rename_i a hp
    cases h
    simp only [logged, hp]
    exact .connected a _ hp
  · rename_i a hp
    cases h
    simp only [logged, hp]
    exact .connect_failed a now what hp
  · rename_i a socket rest c hp
    simp only [logged, hp]
    split at h
    · cases h
    · rename_i out rest' hw
      cases h
      simp only [hw]
      exact .wire _ _ (hm.wire (by simp) (by simp [Action.isWire]))
    · rename_i out hw
      cases h
      simp only [hw]
      exact .wire _ _ (hm.wire (by simp) (by simp [Action.isWire]))
    · rename_i out ec hw
      cases h
      simp only [hw]
      exact .replay_failed a socket rest out ec now hp
  · rename_i a socket race leg c hp
    simp only [logged, hp]
    split at h
    · cases h
    · rename_i race' buf' acts' hr
      cases h
      have hacts : ∀ x ∈ acts, x.isWire = true := by
        cases hm with
        | relayed_up _ _ _ _ _ _ _ _ hr => exact relayMove_isWire hr
        | relayed_down _ _ _ _ _ _ _ _ hr => exact relayMove_isWire hr
      exact .wire _ _ (hm.wire (by simp) hacts)
  · rename_i a socket race hp
    simp only [logged, hp]
    split at h
    · rename_i hover
      have hend := raceOver_telling sh now s a socket race hp
      rw [Option.some.inj h] at hend
      rw [if_pos hover]
      exact hend
    · cases h
  · rename_i rest c hp
    simp only [logged, hp]
    split at h
    · cases h
    all_goals
      cases h
      exact .wire _ _ (hm.wire (by simp) (by simp [Action.isWire]))
  · rename_i c hp
    simp only [logged, hp]
    split at h
    · cases h
    all_goals
      cases h
      exact .wire _ _ (hm.wire (by simp) (by simp [Action.isWire]))
  · cases h

/-! ## A reader of logs -/

/-- Where the log of a request has got to. `attempts` are those that have come to nothing;
`failed` is whether the last of them was a backend that did not answer. -/
inductive Stage
  | start
  | trying (attempts : ℕ) (failed : Bool)
  | on (backend attempts : ℕ)
  | exhausted (attempts : ℕ)
  | abandoned (attempts : ℕ)
  | succeeded (backend : ℕ)
  | gave_up (attempts : ℕ)
  deriving DecidableEq, Repr

/-- One line further. A line that does not belong there, names another backend or gives
another count is not accepted. -/
def Stage.advance : Stage → LogEvent → Option Stage
  | .start, .request_received _ => some (.trying 0 false)
  | .trying n _, .breaker_skip _ => some (.trying (n + 1) false)
  | .trying n _, .connect_failed _ _ => some (.trying (n + 1) false)
  | .trying n _, .backend_selected b k => if k = n + 1 then some (.on b n) else none
  | .trying n _, .ring_exhausted k => if k = n then some (.exhausted n) else none
  | .trying n true, .retry_abandoned_buffer_capped _ => some (.abandoned n)
  | .trying n _, .fallback_503 k => if k = n then some (.gave_up n) else none
  | .on b n, .replay_failed b' => if b' = b then some (.trying (n + 1) false) else none
  | .on b n, .backend_failed_no_response b' => if b' = b then some (.trying (n + 1) true) else none
  | .on b _, .request_succeeded b' => if b' = b then some (.succeeded b) else none
  | .exhausted n, .fallback_503 k => if k = n then some (.gave_up n) else none
  | .abandoned n, .fallback_503 k => if k = n then some (.gave_up n) else none
  | _, _ => none

/-- A log, followed from a stage. -/
def Stage.follow (st : Stage) (log : List LogEvent) : Option Stage := log.foldlM Stage.advance st

theorem Stage.follow_append (st : Stage) (log log' : List LogEvent) :
    st.follow (log ++ log') = (st.follow log).bind fun st' => st'.follow log' :=
  List.foldlM_append

/-- What a line or an action tells of a backend. -/
inductive Deed
  | skipped (backend : ℕ)
  | selected (backend : ℕ)
  | failed (backend : ℕ)
  | succeeded (backend : ℕ)
  | gave_up
  deriving DecidableEq, Repr

end Session

open Session in
/-- What a line tells. -/
def LogEvent.deed : LogEvent → Option Deed
  | .breaker_skip b => some (.skipped b)
  | .backend_selected b _ => some (.selected b)
  | .connect_failed b _ => some (.failed b)
  | .replay_failed b => some (.failed b)
  | .backend_failed_no_response b => some (.failed b)
  | .request_succeeded b => some (.succeeded b)
  | .fallback_503 _ => some .gave_up
  | _ => none

open Session in
/-- What was done: the breaker refused, the pool gave a socket, an outcome was recorded, or
the session gave up. -/
def Action.deed : Action → Option Deed
  | .breaker a (.allow_request _) (some false) => some (.skipped a.backend_index)
  | .acquired a _ => some (.selected a.backend_index)
  | .breaker a (.record_failure _) _ => some (.failed a.backend_index)
  | .breaker a (.record_success _) _ => some (.succeeded a.backend_index)
  | .fallback_503 => some .gave_up
  | _ => none

namespace Session

/-- **A step's lines tell what it did.** -/
theorem Telling.deeds {s s' : Session} {acts : List Action} {log : List LogEvent}
    (h : Telling s s' acts log) : log.filterMap LogEvent.deed = acts.filterMap Action.deed := by
  cases h with
  | gave_up hp log hlog => rcases hlog with rfl | rfl <;> rfl
  | wire s' acts hw =>
      rw [List.filterMap_nil, eq_comm, List.filterMap_eq_nil_iff]
      intro x hx
      have hwire := hw.acts x hx
      cases x with
      | received => rfl
      | read_failed => rfl
      | sent => rfl
      | write_failed => rfl
      | _ => cases hwire
  | _ => rfl

/-- The stage of the log is where the session stands. -/
structure Stands (s : Session) (tr : List Action) (st : Stage) : Prop where
  trying : s.point.settled = false → s.point.socket = none → ∃ f, st = .trying s.attempts f
  on : ∀ a socket, s.point.attempt = some a → s.point.socket = some socket →
    st = .on a.backend_index s.attempts
  settled : s.point.settled = true →
    (∃ a now, .breaker a (.record_success now) none ∈ tr ∧ st = .succeeded a.backend_index)
      ∨ .fallback_503 ∈ tr ∧ st = .gave_up s.attempts

/-- At the head of the loop. -/
theorem stands_loop {s : Session} {tr : List Action} {n : ℕ} {f : Bool} (hp : s.point = .loop)
    (hn : s.attempts = n) : Stands s tr (.trying n f) where
  trying := fun _ _ => ⟨f, by rw [hn]⟩
  on := by
    intro a socket ha
    rw [hp] at ha
    cases ha
  settled := by
    intro hs
    rw [hp] at hs
    cases hs

/-- With a socket in hand. -/
theorem stands_use (s : Session) (a : Attempt) (socket : ℕ) (tr : List Action) :
    Stands { s with point := s.usePoint a socket } tr (.on a.backend_index s.attempts) where
  trying := by
    intro _ hsock
    rw [usePoint_socket] at hsock
    cases hsock
  on := by
    intro a' socket' ha' _
    rw [usePoint_attempt] at ha'
    cases ha'
    rfl
  settled := by
    intro hs
    rw [usePoint_settled] at hs
    cases hs

/-- With the 503 on its way. -/
theorem stands_responding {s : Session} {tr : List Action} {n : ℕ} {rest : Bytes}
    (hp : s.point = .responding rest) (hn : s.attempts = n) (hmem : .fallback_503 ∈ tr) :
    Stands s tr (.gave_up n) where
  trying := by
    intro hs
    rw [hp] at hs
    cases hs
  on := by
    intro a socket ha
    rw [hp] at ha
    cases ha
  settled := fun _ => Or.inr ⟨hmem, by rw [hn]⟩

/-- The stage a session with a socket is at. -/
theorem Stands.at_on {s : Session} {tr : List Action} {st : Stage} (h : Stands s tr st)
    {a : Attempt} (ha : s.point.attempt = some a) (hsock : s.point.socket ≠ none) :
    st = .on a.backend_index s.attempts := by
  obtain ⟨socket, hs⟩ := Option.ne_none_iff_exists'.mp hsock
  exact h.on a socket ha hs

/-- **The reader follows a step.** -/
theorem Telling.follow {s s' : Session} {acts tr : List Action} {log : List LogEvent} {st : Stage}
    (h : Telling s s' acts log) (hst : Stands s tr st) :
    ∃ st', st.follow log = some st' ∧ Stands s' (tr ++ acts) st' := by
  cases h with
  | gave_up hp log hlog =>
      obtain ⟨f, rfl⟩ := hst.trying (by rw [hp]; rfl) (by rw [hp]; rfl)
      refine ⟨.gave_up s.attempts, ?_, stands_responding rfl rfl (by simp)⟩
      rcases hlog with rfl | rfl <;> simp [Stage.follow, Stage.advance]
  | threw hp =>
      obtain ⟨f, rfl⟩ := hst.trying (by rw [hp]; rfl) (by rw [hp]; rfl)
      refine ⟨_, rfl, ⟨fun _ _ => ⟨f, rfl⟩, ?_, ?_⟩⟩
      · intro a socket ha
        cases ha
      · intro hs
        cases hs
  | skipped b now hp =>
      obtain ⟨f, rfl⟩ := hst.trying (by rw [hp]; rfl) (by rw [hp]; rfl)
      exact ⟨_, rfl, stands_loop rfl rfl⟩
  | dialing b now hp =>
      obtain ⟨f, rfl⟩ := hst.trying (by rw [hp]; rfl) (by rw [hp]; rfl)
      refine ⟨_, rfl, ⟨fun _ _ => ⟨f, rfl⟩, ?_, ?_⟩⟩
      · intro a socket _ hsock
        cases hsock
      · intro hs
        cases hs
  | pooled b now socket hp =>
      obtain ⟨f, rfl⟩ := hst.trying (by rw [hp]; rfl) (by rw [hp]; rfl)
      exact ⟨_, by simp [Stage.follow, Stage.advance], stands_use s ⟨s.attempts, b⟩ socket _⟩
  | connected a socket hp =>
      obtain ⟨f, rfl⟩ := hst.trying (by rw [hp]; rfl) (by rw [hp]; rfl)
      exact ⟨_, by simp [Stage.follow, Stage.advance], stands_use s a socket _⟩
  | connect_failed a now what hp =>
      obtain ⟨f, rfl⟩ := hst.trying (by rw [hp]; rfl) (by rw [hp]; rfl)
      exact ⟨_, rfl, stands_loop rfl rfl⟩
  | replay_failed a socket rest out ec now hp =>
      obtain rfl := hst.at_on (a := a) (by rw [hp]; rfl) (by rw [hp]; simp [Point.socket])
      exact ⟨.trying (s.attempts + 1) false, by simp [Stage.follow, Stage.advance],
        stands_loop rfl rfl⟩
  | succeeded a socket race now hp =>
      obtain rfl := hst.at_on (a := a) (by rw [hp]; rfl) (by rw [hp]; simp [Point.socket])
      refine ⟨.succeeded a.backend_index, by simp [Stage.follow, Stage.advance], ⟨?_, ?_, ?_⟩⟩
      · intro hs
        cases hs
      · intro a' socket' ha'
        cases ha'
      · exact fun _ => Or.inl ⟨a, now, by simp, rfl⟩
  | failed a socket race now hp =>
      obtain rfl := hst.at_on (a := a) (by rw [hp]; rfl) (by rw [hp]; simp [Point.socket])
      exact ⟨.trying (s.attempts + 1) true, by simp [Stage.follow, Stage.advance],
        stands_loop rfl rfl⟩
  | failed_capped a socket race now n hp =>
      obtain rfl := hst.at_on (a := a) (by rw [hp]; rfl) (by rw [hp]; simp [Point.socket])
      exact ⟨_, by simp [Stage.follow, Stage.advance], stands_responding rfl rfl (by simp)⟩
  | wire s' acts hw =>
      -- moving bytes is not logged and leaves the session where it stands
      refine ⟨st, rfl, ⟨?_, ?_, ?_⟩⟩
      · intro hs hsock
        rw [hw.attempts]
        exact hst.trying (hw.settled ▸ hs) (hw.socket ▸ hsock)
      · intro a socket ha hsock
        rw [hw.attempts]
        exact hst.on a socket (hw.attempt ▸ ha) (hw.socket ▸ hsock)
      · intro hs
        rw [hw.attempts]
        rcases hst.settled (hw.settled ▸ hs) with ⟨a, now, hmem, hst⟩ | ⟨hmem, hst⟩
        · exact Or.inl ⟨a, now, List.mem_append_left _ hmem, hst⟩
        · exact Or.inr ⟨List.mem_append_left _ hmem, hst⟩

/-! ## The log of a run -/

/-- What was done, of all that a run with its log has emitted. -/
def done (tr : List (Action ⊕ LogEvent)) : List Action := tr.filterMap Sum.getLeft?

/-- The lines that were logged. -/
def log (tr : List (Action ⊕ LogEvent)) : List LogEvent := tr.filterMap Sum.getRight?

@[simp] theorem done_append (tr tr' : List (Action ⊕ LogEvent)) :
    done (tr ++ tr') = done tr ++ done tr' := List.filterMap_append

@[simp] theorem log_append (tr tr' : List (Action ⊕ LogEvent)) :
    log (tr ++ tr') = log tr ++ log tr' := List.filterMap_append

theorem done_told (acts : List Action) (lines : List LogEvent) :
    done (acts.map .inl ++ lines.map .inr) = acts := by
  simp [done, List.filterMap_map, Function.comp_def]

theorem log_told (acts : List Action) (lines : List LogEvent) :
    log (acts.map .inl ++ lines.map .inr) = lines := by
  simp [log, List.filterMap_map, Function.comp_def]

/-- What a log has to say of a session: what its lines tell is what was done, and the reader
follows them, from the line the session is greeted with, to where the session stands. -/
structure Tells (client_key : Bytes) (s : Session) (acts : List Action) (lines : List LogEvent) :
    Prop where
  deeds : lines.filterMap LogEvent.deed = acts.filterMap Action.deed
  stage : ∃ st, Stage.start.follow (.request_received client_key :: lines) = some st
    ∧ Stands s acts st

theorem tells_start (client_key : Bytes) (max_attempts : ℤ) :
    Tells client_key (start client_key max_attempts) [] [] where
  deeds := rfl
  stage := ⟨.trying 0 false, rfl, stands_loop rfl rfl⟩

/-- **A step keeps the log true.** -/
theorem Tells.step {client_key : Bytes} {s s' : Session} {acts acts' : List Action}
    {lines lines' : List LogEvent} (h : Tells client_key s acts lines)
    (ht : Telling s s' acts' lines') :
    Tells client_key s' (acts ++ acts') (lines ++ lines') where
  deeds := by rw [List.filterMap_append, List.filterMap_append, h.deeds, ht.deeds]
  stage := by
    obtain ⟨st, hfollow, hst⟩ := h.stage
    obtain ⟨st', hfollow', hst'⟩ := ht.follow hst
    refine ⟨st', ?_, hst'⟩
    rw [← List.cons_append, Stage.follow_append, hfollow]
    exact hfollow'

/-- A session whose first backend refuses the connection with an error of its own and whose
second one answers. -/
def refusedThenAnswered : List (Input × Bytes) :=
  [.resume, .connect_failed, .resume, .connected, .relay .downstream (.read_some [50]),
    .relay .downstream (.wrote_some 1), .relay .downstream (.error .eof),
    .relay .upstream (.error .operation_aborted), .resume].map
    fun e => (⟨.new 2 1 5 2 5000 (fun _ => 0), 0, e⟩, ascii "refused")

end Session

end AegisProxy
