/-
What the process answers by itself: the 503 of `send_status`, the 429 of `send_429` and the
200 of `serve_metrics`.

The three are written by the same lines of code, copied: a status line, three headers, an
empty line and the body, whose size is in `Content-Length`. `read_response` is how a client
reads such an answer off its stream: lines up to the empty one, then as many bytes as the
header says. It reads back what was written, and since the length is in front of the body it
is steady, so an answer that was cut short is not taken for a whole one
(`responses_self_delimiting`). The client of a session that falls back to the 503 reads the
503 if all of it went out and otherwise nothing (`fallback_read`).

The second part is the coroutines. `send_429` and `serve_metrics` end as `send_status` does:
the write, whose error is not looked at, then `shutdown_send`, then reads that are thrown
away until the client ends. `serve_metrics` first waits for one read, whatever comes of it,
and renders the metrics only then.
-/
import AegisProxy.Lib.Readers
import AegisProxy.SessionEnds
import AegisProxy.Text

set_option autoImplicit false

namespace AegisProxy

open Readers Runs

/-! ## The text -/

/-- The lines the three coroutines share. -/
def http_response (code : ℕ) (reason content_type body : Bytes) : Bytes :=
  ascii "HTTP/1.1 " ++ to_string code ++ ascii " " ++ reason ++ ascii "\r\n"
    ++ ascii "Content-Type: " ++ content_type ++ ascii "\r\n"
    ++ ascii "Content-Length: " ++ to_string body.length ++ ascii "\r\n"
    ++ ascii "Connection: close\r\n" ++ ascii "\r\n" ++ body

/-- The response of `send_429`. -/
def rate_limited_response : Bytes :=
  http_response 429 (ascii "Too Many Requests") (ascii "text/plain") (ascii "Rate limit exceeded\n")

/-- The response of `serve_metrics` around what `render_prometheus` returned. -/
def metrics_response (body : Bytes) : Bytes :=
  http_response 200 (ascii "OK") (ascii "text/plain; version=0.0.4") body

/-- `send_status` builds the same text. -/
theorem status_response_eq (code : ℕ) (reason body : Bytes) :
    status_response code reason body = http_response code reason (ascii "text/plain") body := by
  have htype : ascii "Content-Type: text/plain\r\n"
      = ascii "Content-Type: " ++ ascii "text/plain" ++ ascii "\r\n" := by decide
  simp only [status_response, http_response, htype, List.append_assoc]

/-! ## How a client reads it -/

/-- A response, read. -/
structure Response where
  code : ℕ
  reason : Bytes
  headers : List (Bytes × Bytes)
  body : Bytes
  deriving DecidableEq, Repr

/-- A line without the carriage return it has to end with. -/
def chomp (line : Bytes) : Option Bytes :=
  if line.getLast? = some 13 then some line.dropLast else none

/-- `HTTP/1.1 <code> <reason>`. -/
def read_status_line (line : Bytes) : Option (ℕ × Bytes) :=
  whole (bind (word (ascii "HTTP/1.1 ")) fun _ => bind (field 32) fun code =>
    bind (lift (read_nat code)) fun n => bind everything fun reason => lift (some (n, reason))) line

/-- `<name>: <value>`. -/
def read_header (line : Bytes) : Option (Bytes × Bytes) :=
  whole (bind (field 58) fun name => bind (word (ascii " ")) fun _ =>
    bind everything fun value => lift (some (name, value))) line

/-- The status line and the headers. -/
def read_head : List Bytes → Option ((ℕ × Bytes) × List (Bytes × Bytes))
  | [] => none
  | line :: lines =>
    match (chomp line).bind read_status_line, lines.mapM fun l => (chomp l).bind read_header with
    | some status, some headers => some (status, headers)
    | _, _ => none

/-- The number of bytes of the body. -/
def content_length (headers : List (Bytes × Bytes)) : Option ℕ :=
  (headers.lookup (ascii "Content-Length")).bind read_nat

/-- A response off the front of a stream: lines up to the empty one, then the body. -/
def read_response : Reader UInt8 Response :=
  bind (block 10 [13]) fun lines => bind (lift (read_head lines)) fun head =>
    bind (lift (content_length head.2)) fun n => bind (take n) fun body =>
      lift (some ⟨head.1.1, head.1.2, head.2, body⟩)

/-- More bytes behind a response do not change it. -/
theorem steady_read_response : Steady read_response :=
  (steady_block 10 [13]).bind fun _ => (steady_lift _).bind fun _ => (steady_lift _).bind fun n =>
    (steady_take n).bind fun _ => steady_lift _

/-! ## What is written reads back -/

theorem chomp_concat (line : Bytes) : chomp (line ++ [13]) = some line := by
  rw [chomp, List.getLast?_concat, if_pos rfl, List.dropLast_concat]

theorem read_status_line_eq (code : ℕ) (reason : Bytes) :
    read_status_line (ascii "HTTP/1.1 " ++ to_string code ++ ascii " " ++ reason)
      = some (code, reason) := by
  have hspace : ascii " " = [32] := by decide
  have hcode := reads_field (not_mem_to_string code (c := 32) (by decide))
  rw [read_status_line, hspace, List.append_assoc (ascii _), List.append_assoc (ascii _), whole,
    (reads_word _).bind_append, hcode.bind_append, bind_lift (read_nat_to_string code),
    bind_everything]
  rfl

theorem read_header_eq {name : Bytes} (value : Bytes) (h : 58 ∉ name) :
    read_header (name ++ ascii ": " ++ value) = some (name, value) := by
  have hcolon : ascii ": " = [58] ++ ascii " " := by decide
  rw [read_header, hcolon, ← List.append_assoc, List.append_assoc _ (ascii _), whole,
    (reads_field h).bind_append, (reads_word _).bind_append, bind_everything]
  rfl

/-- The lines of a response before the empty one. -/
def headLines (code : ℕ) (reason content_type : Bytes) (length : ℕ) : List Bytes :=
  [ascii "HTTP/1.1 " ++ to_string code ++ ascii " " ++ reason ++ [13],
    ascii "Content-Type" ++ ascii ": " ++ content_type ++ [13],
    ascii "Content-Length" ++ ascii ": " ++ to_string length ++ [13],
    ascii "Connection" ++ ascii ": " ++ ascii "close" ++ [13]]

/-- The response is its lines, the empty line, and the body. -/
theorem http_response_lines (code : ℕ) (reason content_type body : Bytes) :
    http_response code reason content_type body
      = (headLines code reason content_type body.length).flatMap (· ++ [10]) ++ ([13] ++ [10])
        ++ body := by
  have hcrlf : ascii "\r\n" = [13] ++ [10] := by decide
  have htype : ascii "Content-Type: " = ascii "Content-Type" ++ ascii ": " := by decide
  have hlength : ascii "Content-Length: " = ascii "Content-Length" ++ ascii ": " := by decide
  have hclose : ascii "Connection: close\r\n"
      = ascii "Connection" ++ ascii ": " ++ ascii "close" ++ [13] ++ [10] := by decide
  simp only [http_response, headLines, hcrlf, htype, hlength, hclose, List.flatMap_cons,
    List.flatMap_nil, List.append_assoc, List.append_nil]

/-- The three headers. -/
def responseHeaders (content_type : Bytes) (length : ℕ) : List (Bytes × Bytes) :=
  [(ascii "Content-Type", content_type), (ascii "Content-Length", to_string length),
    (ascii "Connection", ascii "close")]

/-- What a client reads in a response. -/
def readAs (code : ℕ) (reason content_type body : Bytes) : Response :=
  ⟨code, reason, responseHeaders content_type body.length, body⟩

theorem content_length_responseHeaders (content_type : Bytes) (length : ℕ) :
    content_length (responseHeaders content_type length) = some length := by
  have hne : (ascii "Content-Length" == ascii "Content-Type") = false := by decide
  rw [content_length, responseHeaders, List.lookup_cons, List.lookup_cons, hne, beq_self_eq_true]
  exact read_nat_to_string length

theorem read_head_headLines (code : ℕ) (reason content_type : Bytes) (length : ℕ) :
    read_head (headLines code reason content_type length)
      = some ((code, reason), responseHeaders content_type length) := by
  have hmap : ([ascii "Content-Type" ++ ascii ": " ++ content_type ++ [13],
      ascii "Content-Length" ++ ascii ": " ++ to_string length ++ [13],
      ascii "Connection" ++ ascii ": " ++ ascii "close" ++ [13]].mapM fun l =>
        (chomp l).bind read_header)
      = some (responseHeaders content_type length) := by
    simp only [List.mapM_cons, List.mapM_nil, chomp_concat, Option.bind_some,
      read_header_eq _ (show (58 : UInt8) ∉ ascii "Content-Type" by decide),
      read_header_eq _ (show (58 : UInt8) ∉ ascii "Content-Length" by decide),
      read_header_eq _ (show (58 : UInt8) ∉ ascii "Connection" by decide)]
    rfl
  rw [headLines, read_head, chomp_concat, Option.bind_some, read_status_line_eq, hmap]

/-- **A response reads back**, whatever comes behind it. -/
theorem reads_http_response (code : ℕ) {reason content_type : Bytes} (body : Bytes)
    (hreason : 10 ∉ reason) (htype : 10 ∉ content_type) :
    Reads read_response (http_response code reason content_type body)
      (readAs code reason content_type body) := by
  have hlines : ∀ l ∈ headLines code reason content_type body.length, 10 ∉ l ∧ l ≠ [13] := by
    intro l hl
    have hnum : ∀ n, (10 : UInt8) ∉ to_string n := fun n => not_mem_to_string n (by decide)
    have hlen : 1 < (ascii "HTTP/1.1 ").length ∧ 1 < (ascii "Content-Type").length
        ∧ 1 < (ascii "Content-Length").length ∧ 1 < (ascii "Connection").length := by decide
    simp only [headLines, List.mem_cons, List.not_mem_nil, or_false] at hl
    refine ⟨?_, fun h13 => ?_⟩
    · rcases hl with rfl | rfl | rfl | rfl <;> simp only [List.mem_append, not_or]
      · exact ⟨⟨⟨⟨by decide, hnum code⟩, by decide⟩, hreason⟩, by decide⟩
      · exact ⟨⟨⟨by decide, by decide⟩, htype⟩, by decide⟩
      · exact ⟨⟨⟨by decide, by decide⟩, hnum _⟩, by decide⟩
      · exact ⟨⟨⟨by decide, by decide⟩, by decide⟩, by decide⟩
    · -- the empty line is shorter than any of them
      have hone := congrArg List.length h13
      rcases hl with rfl | rfl | rfl | rfl <;> simp only [List.length_append,
        List.length_singleton] at hone <;> omega
  have hlast : (10 : UInt8) ∉ [13] := by decide
  have hblock := reads_block hlast hlines
  intro rest
  rw [http_response_lines, List.append_assoc, read_response, hblock.bind_append,
    bind_lift (read_head_headLines code reason content_type body.length)]
  dsimp only
  rw [bind_lift (content_length_responseHeaders content_type body.length),
    (reads_take body).bind_append]
  rfl

/-- **Responses delimit themselves.** A client that reads any of the three off its stream
gets the code, the reason, the headers and the body as they were written, and is left with
what came behind; and of a response that was cut short, wherever that was, it reads none. -/
theorem responses_self_delimiting (code : ℕ) (reason content_type body : Bytes)
    (hreason : 10 ∉ reason) (htype : 10 ∉ content_type) :
    (∀ rest, read_response (http_response code reason content_type body ++ rest)
        = some (readAs code reason content_type body, rest))
      ∧ ∀ sent, sent <+: http_response code reason content_type body →
        sent ≠ http_response code reason content_type body → read_response sent = none := by
  have hreads := reads_http_response code body hreason htype
  exact ⟨hreads, fun sent hsent hne => hreads.prefix_eq_none steady_read_response hsent hne⟩

/-- The 429 is read as one. -/
theorem responses_self_delimiting_429 :
    read_response rate_limited_response
      = some (readAs 429 (ascii "Too Many Requests") (ascii "text/plain")
          (ascii "Rate limit exceeded\n"), []) := by
  have hall := (responses_self_delimiting 429 (ascii "Too Many Requests") (ascii "text/plain")
    (ascii "Rate limit exceeded\n") (by decide) (by decide)).1 []
  rwa [List.append_nil] at hall

/-! ## The client of a session that falls back -/

namespace Session

/-- The 503, as a client reads it. -/
def unavailableRead : Response :=
  readAs 503 (ascii "Service Unavailable") (ascii "text/plain") (ascii "All backends unavailable\n")

theorem reads_unavailable : Reads read_response unavailable unavailableRead := by
  rw [unavailable, status_response_eq]
  exact reads_http_response 503 (ascii "All backends unavailable\n") (by decide) (by decide)

/-- **What the client of a session that falls back can read.** In every run of a session that
has fallen back to the 503, whatever it had tried before: the client's stream is the 503 as
far as it has gone out; the client reads one 503 and nothing behind it if all of it has, and
nothing at all otherwise; and once the session is past the write, all of it has, unless that
write failed. -/
theorem fallback_read (client_key : Bytes) (max_attempts : ℤ) (ins : List Input) (s : Session)
    (tr : List Action) (hrun : exec solo (start client_key max_attempts) ins = some (s, tr))
    (hfall : .fallback_503 ∈ tr) :
    sentTo .client tr <+: unavailable
      ∧ read_response (sentTo .client tr)
        = (if sentTo .client tr = unavailable then some (unavailableRead, []) else none)
      ∧ (s.point = .draining ∨ s.point = .finished → (∀ ec, .write_failed .client ec ∉ tr) →
        sentTo .client tr = unavailable) := by
  have hinv := exec_invariant
    (I := fun s tr => Numbered s tr ∧ ClientBytes s tr ∧ Outcome s tr ∧ Told s tr)
    (fun s tr i s' out hs he =>
      have hm := solo_move he
      ⟨hm.numbered hs.1, hm.clientBytes hs.1 hs.2.1, hm.outcome hs.2.1 hs.2.2.1,
        hm.told hs.2.1 hs.2.2.1 hs.2.2.2⟩)
    ⟨numbered_start client_key max_attempts, rfl, rfl, trivial⟩ hrun
  obtain ⟨-, hc, ho, htold⟩ := hinv
  have hpart : sentTo .client tr <+: unavailable := by
    unfold Outcome at ho
    split at ho
    · exact absurd hfall (fallback_not_mem ho.1)
    · rename_i rest hp
      simp only [ClientBytes, hp] at hc
      exact ⟨rest, hc⟩
    · rename_i hp
      simp only [ClientBytes, hp] at hc
      exact hc
    · rcases ho with ⟨ho, -⟩ | ⟨-, hpre⟩
      · exact absurd hfall (fallback_not_mem ho)
      · exact hpre
    · exact absurd hfall (fallback_not_mem ho)
  refine ⟨hpart, ?_, ?_⟩
  · split
    · rename_i hall
      rw [hall]
      exact reads_unavailable.self
    · rename_i hne
      exact reads_unavailable.prefix_eq_none steady_read_response hpart hne
  · intro hpast hok
    have hend : sentTo .client tr = unavailable ∨ ∃ ec, .write_failed .client ec ∈ tr := by
      rcases hpast with hp | hp <;> simp only [Told, hp] at htold
      · exact htold
      · exact htold hfall
    rcases hend with hall | ⟨ec, hec⟩
    · exact hall
    · exact absurd hec (hok ec)

/-- A session whose only backend refuses the connection and whose client takes the 503 in two
parts. -/
def turnedAway : List Input :=
  [.resume, .connect_failed, .resume, .io (.wrote_some 100), .io (.wrote_some 26),
    .io (.error .eof)].map (⟨.new 1 1 5 2 5000 (fun _ => 0), 0, ·⟩)

/-- Its client reads the 503. -/
theorem fallback_read_turned_away :
    ∃ s tr, exec solo (start [] 3) turnedAway = some (s, tr) ∧ s.point = .finished
      ∧ read_response (sentTo .client tr) = some (unavailableRead, []) := by
  refine ⟨_, _, rfl, rfl, ?_⟩
  obtain ⟨-, hread, hall⟩ := fallback_read [] 3 turnedAway _ _ rfl (by decide +kernel)
  have hsent := hall (Or.inr rfl) fun ec => by cases ec <;> decide +kernel
  rwa [if_pos hsent] at hread

end Session

/-! ## The coroutines -/

/-- Where `send_429` or `serve_metrics` is: the read `serve_metrics` begins with, the write of
the response, the reads that are thrown away, or the end. -/
inductive Responder
  | reading
  | responding (rest : Bytes)
  | draining
  | finished
  deriving DecidableEq, Repr

namespace Responder

/-- A responder, resumed. `response` is what `serve_metrics` answers if it is at the end of
its first read now; an error of that read is not looked at, and neither is one of the
write. -/
def step (response : Bytes) : Responder → Completion → Option (Responder × List Action)
  | .reading, c =>
    match async_read_some 512 false c with
    | none => none
    | some (.ok chunk) => some (.responding response, [.received .client chunk])
    | some (.error ec) => some (.responding response, [.read_failed .client ec])
  | .responding rest, c =>
    match async_write false rest c with
    | none => none
    | some (out, .pending rest') => some (.responding rest', [.sent .client out])
    | some (out, .done) => some (.draining, [.sent .client out])
    | some (out, .error ec) => some (.draining, [.sent .client out, .write_failed .client ec])
  | .draining, c =>
    match async_read_some 512 false c with
    | none => none
    | some (.ok chunk) => some (.draining, [.received .client chunk])
    | some (.error ec) => some (.finished, [.read_failed .client ec])
  | .finished, _ => none

/-- The responder has been answering with `response`, and `acts` is what it did so far. Past
the write, all of the response is out or the write has failed. -/
def Answers (response : Bytes) (acts : List Action) : Responder → Prop
  | .reading => sentTo .client acts = []
  | .responding rest => sentTo .client acts ++ rest = response
  | .draining => sentTo .client acts <+: response
      ∧ (sentTo .client acts = response ∨ ∃ ec, .write_failed .client ec ∈ acts)
  | .finished => sentTo .client acts <+: response
      ∧ (sentTo .client acts = response ∨ ∃ ec, .write_failed .client ec ∈ acts)

/-- What was sent is the response as far as it has gone out. -/
theorem Answers.isPrefix {response : Bytes} {acts : List Action} {r : Responder}
    (h : Answers response acts r) : sentTo .client acts <+: response := by
  cases r with
  | reading => rw [h]; exact List.nil_prefix
  | responding rest => exact ⟨rest, h⟩
  | draining => exact h.1
  | finished => exact h.1

/-- **A step goes on with the response.** The step that ends the first read chooses it. -/
theorem Answers.step {response response' : Bytes} {acts out : List Action} {r r' : Responder}
    {c : Completion} (h : Answers response acts r) (hstep : r.step response' c = some (r', out)) :
    Answers (if r = .reading then response' else response) (acts ++ out) r' := by
  cases r with
  | reading =>
      rw [if_pos rfl]
      simp only [Responder.step] at hstep
      split at hstep
      · cases hstep
      all_goals
        cases hstep
        simpa [Answers, Action.bytesTo] using h
  | responding rest =>
      rw [if_neg (by simp)]
      simp only [Answers] at h
      simp only [Responder.step] at hstep
      split at hstep
      · cases hstep
      · rename_i sent rest' hw
        cases hstep
        rcases async_write_spec hw with ⟨q, hq, hsplit, -⟩ | ⟨hq, -⟩ | ⟨ec, hq, -⟩ <;> cases hq
        simp only [Answers, sentTo_append, sentTo_cons, sentTo_nil, Action.bytesTo, if_true,
          List.append_nil, List.append_assoc, hsplit]
        exact h
      · rename_i sent hw
        cases hstep
        rcases async_write_spec hw with ⟨q, hq, -⟩ | ⟨-, rfl⟩ | ⟨ec, hq, -⟩
        · cases hq
        · have hall : sentTo .client (acts ++ [.sent .client sent]) = response := by
            simpa [Action.bytesTo] using h
          exact ⟨hall ▸ List.prefix_rfl, Or.inl hall⟩
        · cases hq
      · rename_i sent ec hw
        cases hstep
        rcases async_write_spec hw with ⟨q, hq, -⟩ | ⟨hq, -⟩ | ⟨ec', hq, hout, -⟩ <;> cases hq
        refine ⟨?_, Or.inr ⟨ec, by simp⟩⟩
        obtain ⟨rest', rfl⟩ := hout
        exact ⟨rest', by simpa [Action.bytesTo] using h⟩
  | draining =>
      rw [if_neg (by simp)]
      simp only [Responder.step] at hstep
      split at hstep
      · cases hstep
      all_goals
        cases hstep
        simpa [Answers, Action.bytesTo] using h
  | finished => cases hstep

end Responder

end AegisProxy
