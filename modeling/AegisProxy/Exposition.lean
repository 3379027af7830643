/-
`metrics.hpp`, `render_prometheus`: the registry as text.

The text is in the exposition format of Prometheus: for every metric a `HELP` line, a `TYPE`
line and its samples, one for the process or one for each backend, with the backend's number
as a label. The function writes eight such families, one after the other.

`read_exposition` is a scraper: it takes the text apart into lines, reads each of them by
itself, and puts the samples under the `HELP` and `TYPE` they come after, which have to name
the same metric. It accepts what is rendered and gets every number of the registry back
(`exposition_round_trip`). No series comes twice, and two registries with the same text have
the same readings.
-/
import AegisProxy.Lib.Readers
import AegisProxy.Metrics
import AegisProxy.Text

set_option autoImplicit false

namespace AegisProxy

open Readers

/-! ## The text -/

namespace MetricsRegistry

/-- The `HELP` and `TYPE` lines of a metric. -/
def announce (name help type : String) : Bytes :=
  ascii "# HELP " ++ ascii name ++ ascii " " ++ ascii help ++ ascii "\n"
    ++ ascii "# TYPE " ++ ascii name ++ ascii " " ++ ascii type ++ ascii "\n"

/-- A counter of the whole process. -/
def render_counter (name help : String) (value : ℕ) : Bytes :=
  announce name help "counter" ++ ascii name ++ ascii " " ++ to_string value ++ ascii "\n"

/-- A metric with one sample for each backend: the loop over one of the vectors. -/
def render_per_backend (name help type : String) (backend_count : ℕ) (value : ℕ → ℤ) : Bytes :=
  announce name help type ++ (List.range backend_count).flatMap fun i =>
    ascii name ++ ascii "\x7bbackend=\"" ++ to_string i ++ ascii "\"\x7d "
      ++ int_to_string (value i) ++ ascii "\n"

/-- `MetricsRegistry::render_prometheus`. `backend_count` is the size of the vectors. -/
def render_prometheus (m : MetricsRegistry) (backend_count : ℕ) : Bytes :=
  render_counter "aegis_requests_total" "Total requests accepted by the listener"
      m.total_requests_
    ++ render_counter "aegis_rate_limited_total" "Requests rejected with HTTP 429" m.rate_limited_
    ++ render_counter "aegis_fallback_503_total" "Requests exhausted all retry attempts"
      m.fallback_503_
    ++ render_per_backend "aegis_backend_success_total" "Successful relays per backend" "counter"
      backend_count (fun i => m.backend_success_ i)
    ++ render_per_backend "aegis_backend_failure_total" "Failed attempts per backend" "counter"
      backend_count (fun i => m.backend_failure_ i)
    ++ render_per_backend "aegis_breaker_state"
      "Circuit breaker state per backend (0=CLOSED, 1=OPEN, 2=HALF_OPEN)" "gauge"
      backend_count m.breaker_state_
    ++ render_per_backend "aegis_pool_active_connections" "Checked-out connections per backend"
      "gauge" backend_count m.pool_active_
    ++ render_per_backend "aegis_pool_idle_connections"
      "Idle (pooled, warm) connections per backend" "gauge" backend_count m.pool_idle_

end MetricsRegistry

/-! ## A scraper -/

/-- One line of an exposition. -/
inductive Line
  | help (name text : Bytes)
  | type (name kind : Bytes)
  | sample (name : Bytes) (label : Option (Bytes × Bytes)) (value : ℤ)
  deriving DecidableEq, Repr

/-- `# HELP <name> <text>`. -/
def help_line : Reader UInt8 Line :=
  bind (word (ascii "# HELP ")) fun _ => bind (field 32) fun name =>
    bind everything fun text => lift (some (.help name text))

/-- `# TYPE <name> <kind>`. -/
def type_line : Reader UInt8 Line :=
  bind (word (ascii "# TYPE ")) fun _ => bind (field 32) fun name =>
    bind everything fun kind => lift (some (.type name kind))

/-- A sample with a label. -/
def labelled_line : Reader UInt8 Line :=
  bind (field 123) fun name => bind (field 61) fun key => bind (word (ascii "\"")) fun _ =>
    bind (field 34) fun label => bind (word (ascii "\x7d ")) fun _ => bind everything fun digits =>
      bind (lift (read_int digits)) fun value => lift (some (.sample name (some (key, label)) value))

/-- A sample without one. -/
def plain_line : Reader UInt8 Line :=
  bind (field 32) fun name => bind everything fun digits =>
    bind (lift (read_int digits)) fun value => lift (some (.sample name none value))

/-- A line is a comment of one of the two kinds, or a sample. -/
def read_line (l : Bytes) : Option Line :=
  match whole help_line l, whole type_line l, whole labelled_line l with
  | some line, _, _ => some line
  | none, some line, _ => some line
  | none, none, some line => some line
  | none, none, none => whole plain_line l

/-- A metric with its samples. -/
structure Family where
  name : Bytes
  help : Bytes
  kind : Bytes
  samples : List (Option (Bytes × Bytes) × ℤ)
  deriving DecidableEq, Repr

/-- The series of a metric: its name with the label of each sample. -/
def Family.series (f : Family) : List (Bytes × Option (Bytes × Bytes)) :=
  f.samples.map fun x => (f.name, x.1)

/-- What the lines from some point on have come to: samples that are still without their
metric, a `TYPE` that is still without its `HELP`, and the metrics that are complete. -/
structure Gathered where
  samples : List (Bytes × Option (Bytes × Bytes) × ℤ)
  typed : Option (Bytes × Bytes)
  families : List Family
  deriving DecidableEq, Repr

/-- One line more in front. Samples come right after a `TYPE` that names them all, and a `TYPE`
right after a `HELP` that names the same. -/
def Gathered.add (line : Line) (g : Gathered) : Option Gathered :=
  match line, g.typed with
  | .sample name label value, none => some { g with samples := (name, label, value) :: g.samples }
  | .type name kind, none =>
    if ∀ x ∈ g.samples, x.1 = name then some { g with typed := some (name, kind) } else none
  | .help name text, some (typed, kind) =>
    if typed = name then some ⟨[], none, ⟨name, text, kind, g.samples.map Prod.snd⟩ :: g.families⟩
    else none
  | _, _ => none

/-- The metrics of a list of lines. -/
def gather : List Line → Option Gathered
  | [] => some ⟨[], none, []⟩
  | line :: ls => (gather ls).bind (Gathered.add line)

/-- A scrape, taken apart. -/
def read_exposition (text : Bytes) : Option (List Family) :=
  match ((lines 10 text).bind fun ls => ls.mapM read_line).bind gather with
  | some ⟨[], none, families⟩ => some families
  | _ => none

/-! ## What the scraper accepts -/

/-- The line of a sample. -/
def sample_line (name : Bytes) : Option (Bytes × Bytes) × ℤ → Bytes
  | (none, value) => name ++ ascii " " ++ int_to_string value
  | (some (key, label), value) =>
    name ++ ascii "\x7b" ++ key ++ ascii "=\"" ++ label ++ ascii "\"\x7d " ++ int_to_string value

/-- The lines of a metric. -/
def Family.lines (f : Family) : List Bytes :=
  (ascii "# HELP " ++ f.name ++ ascii " " ++ f.help)
    :: (ascii "# TYPE " ++ f.name ++ ascii " " ++ f.kind) :: f.samples.map (sample_line f.name)

/-- The lines of a metric, as they are read. -/
def Family.read (f : Family) : List Line :=
  .help f.name f.help :: .type f.name f.kind :: f.samples.map fun x => .sample f.name x.1 x.2

/-- The texts of a metric keep to the bytes they may have. -/
structure Family.Plain (f : Family) : Prop where
  name : f.name ≠ [] ∧ ∀ c ∈ f.name, c ≠ 10 ∧ c ≠ 32 ∧ c ≠ 35 ∧ c ≠ 123
  help : 10 ∉ f.help
  kind : 10 ∉ f.kind
  labels : ∀ x ∈ f.samples, ∀ key label, x.1 = some (key, label) →
    (10 ∉ key ∧ 61 ∉ key) ∧ 10 ∉ label ∧ 34 ∉ label

theorem read_line_help {name : Bytes} (text : Bytes) (h : 32 ∉ name) :
    read_line (ascii "# HELP " ++ name ++ ascii " " ++ text) = some (.help name text) := by
  have hhelp : whole help_line (ascii "# HELP " ++ name ++ ascii " " ++ text)
      = some (.help name text) := by
    have hspace : ascii " " = [32] := by decide
    rw [whole, help_line, hspace, List.append_assoc (ascii _), List.append_assoc (ascii _),
      (reads_word _).bind_append, (reads_field h).bind_append, bind_everything]
    rfl
  rw [read_line, hhelp]

theorem read_line_type {name : Bytes} (kind : Bytes) (h : 32 ∉ name) :
    read_line (ascii "# TYPE " ++ name ++ ascii " " ++ kind) = some (.type name kind) := by
  have hspace : ascii " " = [32] := by decide
  rw [hspace, List.append_assoc (ascii _), List.append_assoc (ascii _)]
  have hhelp : whole help_line (ascii "# TYPE " ++ (name ++ [32] ++ kind)) = none := by
    rw [whole, help_line, bind_eq_none (word_eq_none_of_ne (by decide) (by decide) _)]
  have htype : whole type_line (ascii "# TYPE " ++ (name ++ [32] ++ kind))
      = some (.type name kind) := by
    rw [whole, type_line, (reads_word _).bind_append, (reads_field h).bind_append,
      bind_everything]
    rfl
  rw [read_line, hhelp, htype]

/-- A line that begins with a name is no comment. -/
theorem not_comment {name : Bytes} (hne : name ≠ []) (h : 35 ∉ name) (rest : Bytes) :
    whole help_line (name ++ rest) = none ∧ whole type_line (name ++ rest) = none := by
  have hhead : (name ++ rest).head? ≠ some 35 := by
    rw [List.head?_append_of_ne_nil _ hne]
    intro hhead
    exact h (List.mem_of_head? hhead)
  have hhelp : ascii "# HELP " = 35 :: ascii " HELP " := by decide
  have htype : ascii "# TYPE " = 35 :: ascii " TYPE " := by decide
  constructor
  · rw [whole, help_line, hhelp, bind_eq_none (word_eq_none_of_head hhead)]
  · rw [whole, type_line, htype, bind_eq_none (word_eq_none_of_head hhead)]

theorem read_line_labelled {name key label : Bytes} (value : ℤ) (hne : name ≠ [])
    (hname : 35 ∉ name ∧ 123 ∉ name) (hkey : 61 ∉ key) (hlabel : 34 ∉ label) :
    read_line (sample_line name (some (key, label), value))
      = some (.sample name (some (key, label)) value) := by
  have hbrace : ascii "\x7b" = [123] := by decide
  have heq : ascii "=\"" = [61] ++ ascii "\"" := by decide
  have hquote : ascii "\"\x7d " = [34] ++ ascii "\x7d " := by decide
  have hline : sample_line name (some (key, label), value)
      = name ++ [123] ++ (key ++ [61] ++ (ascii "\"" ++ (label ++ [34]
        ++ (ascii "\x7d " ++ int_to_string value)))) := by
    simp only [sample_line, hbrace, heq, hquote, List.append_assoc]
  obtain ⟨hhelp, htype⟩ := not_comment hne hname.1
    ([123] ++ (key ++ [61] ++ (ascii "\"" ++ (label ++ [34]
      ++ (ascii "\x7d " ++ int_to_string value)))))
  rw [← List.append_assoc, ← hline] at hhelp htype
  have hsample : whole labelled_line (sample_line name (some (key, label), value))
      = some (.sample name (some (key, label)) value) := by
    rw [hline, whole, labelled_line, (reads_field hname.2).bind_append,
      (reads_field hkey).bind_append, (reads_word _).bind_append,
      (reads_field hlabel).bind_append, (reads_word _).bind_append, bind_everything,
      bind_lift (read_int_int_to_string value)]
    rfl
  rw [read_line, hhelp, htype, hsample]

theorem read_line_plain {name : Bytes} (value : ℤ) (hne : name ≠ [])
    (hname : 32 ∉ name ∧ 35 ∉ name ∧ 123 ∉ name) :
    read_line (sample_line name (none, value)) = some (.sample name none value) := by
  have hspace : ascii " " = [32] := by decide
  have hline : sample_line name (none, value) = name ++ [32] ++ int_to_string value := by
    rw [sample_line, hspace]
  obtain ⟨hhelp, htype⟩ := not_comment hne hname.2.1 ([32] ++ int_to_string value)
  rw [← List.append_assoc, ← hline] at hhelp htype
  -- there is no brace in it, so it has no label
  have hbrace : 123 ∉ sample_line name (none, value) := by
    rw [hline]
    simp only [List.mem_append, not_or]
    exact ⟨⟨hname.2.2, by decide⟩, not_mem_int_to_string value (by decide) (by decide)⟩
  have hlabel : whole labelled_line (sample_line name (none, value)) = none := by
    rw [whole, labelled_line, bind_eq_none (field_eq_none hbrace)]
  have hsample : whole plain_line (sample_line name (none, value))
      = some (.sample name none value) := by
    rw [hline, whole, plain_line, (reads_field hname.1).bind_append, bind_everything,
      bind_lift (read_int_int_to_string value)]
    rfl
  rw [read_line, hhelp, htype, hlabel, hsample]

namespace Family

variable {f : Family}

theorem Plain.not_mem (h : f.Plain) : 10 ∉ f.name ∧ 32 ∉ f.name ∧ 35 ∉ f.name ∧ 123 ∉ f.name :=
  ⟨fun hc => (h.name.2 10 hc).1 rfl, fun hc => (h.name.2 32 hc).2.1 rfl,
    fun hc => (h.name.2 35 hc).2.2.1 rfl, fun hc => (h.name.2 123 hc).2.2.2 rfl⟩

/-- Each line of a metric is read for itself. -/
theorem Plain.mapM_lines (h : f.Plain) : f.lines.mapM read_line = some f.read := by
  obtain ⟨-, h32, h35, h123⟩ := h.not_mem
  have hsamples : ∀ xs : List (Option (Bytes × Bytes) × ℤ), (∀ x ∈ xs, x ∈ f.samples) →
      (xs.map (sample_line f.name)).mapM read_line
        = some (xs.map fun x => .sample f.name x.1 x.2) := by
    intro xs
    induction xs with
    | nil => intro _; rfl
    | cons x xs ih =>
        intro hxs
        have hrest := ih fun y hy => hxs y (List.mem_cons_of_mem x hy)
        have hx : read_line (sample_line f.name x) = some (.sample f.name x.1 x.2) := by
          obtain ⟨label, value⟩ := x
          cases label with
          | none => exact read_line_plain value h.name.1 ⟨h32, h35, h123⟩
          | some kl =>
              have hl := h.labels _ (hxs _ List.mem_cons_self) kl.1 kl.2 rfl
              exact read_line_labelled value h.name.1 ⟨h35, h123⟩ hl.1.2 hl.2.2
        rw [List.map_cons, List.mapM_cons, hx, hrest]
        rfl
  rw [Family.lines, List.mapM_cons, List.mapM_cons, read_line_help f.help h32,
    read_line_type f.kind h32, hsamples f.samples fun x hx => hx]
  rfl

/-- No line of a metric has a line end in it. -/
theorem Plain.lines_not_mem (h : f.Plain) : ∀ l ∈ f.lines, 10 ∉ l := by
  intro l hl
  have h10 := h.not_mem.1
  simp only [Family.lines, List.mem_cons, List.mem_map] at hl
  rcases hl with rfl | rfl | ⟨⟨label, value⟩, hx, rfl⟩
  · simp only [List.mem_append, not_or]
    exact ⟨⟨⟨by decide, h10⟩, by decide⟩, h.help⟩
  · simp only [List.mem_append, not_or]
    exact ⟨⟨⟨by decide, h10⟩, by decide⟩, h.kind⟩
  · have hvalue : 10 ∉ int_to_string value := not_mem_int_to_string value (by decide) (by decide)
    cases label with
    | none =>
        simp only [sample_line, List.mem_append, not_or]
        exact ⟨⟨h10, by decide⟩, hvalue⟩
    | some kl =>
        have hkl := h.labels _ hx kl.1 kl.2 rfl
        simp only [sample_line, List.mem_append, not_or]
        exact ⟨⟨⟨⟨⟨⟨h10, by decide⟩, hkl.1.1⟩, by decide⟩, hkl.2.1⟩, by decide⟩, hvalue⟩

end Family

/-- The lines of a metric are gathered into it. -/
theorem gather_family (f : Family) {ls : List Line} {fs : List Family}
    (h : gather ls = some ⟨[], none, fs⟩) :
    gather (f.read ++ ls) = some ⟨[], none, f :: fs⟩ := by
  have hsamples : ∀ xs : List (Option (Bytes × Bytes) × ℤ),
      gather (xs.map (fun x => Line.sample f.name x.1 x.2) ++ ls)
        = some ⟨xs.map fun x => (f.name, x.1, x.2), none, fs⟩ := by
    intro xs
    induction xs with
    | nil => exact h
    | cons x xs ih =>
        rw [List.map_cons, List.cons_append, gather, ih]
        rfl
  have hnamed : ∀ x ∈ f.samples.map fun x => (f.name, x.1, x.2), x.1 = f.name := by
    intro x hx
    obtain ⟨y, -, rfl⟩ := List.mem_map.mp hx
    rfl
  have htype : Gathered.add (.type f.name f.kind)
      ⟨f.samples.map fun x => (f.name, x.1, x.2), none, fs⟩
        = some ⟨f.samples.map fun x => (f.name, x.1, x.2), some (f.name, f.kind), fs⟩ :=
    if_pos hnamed
  have hhelp : Gathered.add (.help f.name f.help)
      ⟨f.samples.map fun x => (f.name, x.1, x.2), some (f.name, f.kind), fs⟩
        = some ⟨[], none, ⟨f.name, f.help, f.kind,
          (f.samples.map fun x => (f.name, x.1, x.2)).map Prod.snd⟩ :: fs⟩ :=
    if_pos rfl
  rw [Family.read, List.cons_append, List.cons_append, gather, gather, hsamples f.samples,
    Option.bind_some, htype, Option.bind_some, hhelp, List.map_map]
  simp only [Function.comp_def, Prod.mk.eta, List.map_id_fun', id_eq]

/-- **What is written as metrics is read as the same metrics.** -/
theorem read_exposition_lines {fs : List Family} (h : ∀ f ∈ fs, f.Plain) :
    read_exposition ((fs.flatMap Family.lines).flatMap (· ++ [10])) = some fs := by
  have hlines : ∀ l ∈ fs.flatMap Family.lines, 10 ∉ l := by
    intro l hl
    obtain ⟨f, hf, hl⟩ := List.mem_flatMap.mp hl
    exact (h f hf).lines_not_mem l hl
  have hread : (fs.flatMap Family.lines).mapM read_line = some (fs.flatMap Family.read)
      ∧ gather (fs.flatMap Family.read) = some ⟨[], none, fs⟩ := by
    clear hlines
    induction fs with
    | nil => exact ⟨rfl, rfl⟩
    | cons f fs ih =>
        obtain ⟨hmap, hgather⟩ := ih fun f' hf' => h f' (List.mem_cons_of_mem f hf')
        refine ⟨?_, gather_family f hgather⟩
        rw [List.flatMap_cons, List.mapM_append, (h f List.mem_cons_self).mapM_lines, hmap]
        rfl
  rw [read_exposition, lines_flatMap hlines, Option.bind_some, hread.1, Option.bind_some,
    hread.2]

/-! ## The families of the registry -/

namespace MetricsRegistry

/-- A counter of the whole process, read. -/
def counter_family (name help : String) (value : ℕ) : Family :=
  ⟨ascii name, ascii help, ascii "counter", [(none, value)]⟩

/-- A metric per backend, read. -/
def per_backend_family (name help type : String) (backend_count : ℕ) (value : ℕ → ℤ) : Family :=
  ⟨ascii name, ascii help, ascii type,
    (List.range backend_count).map fun i => (some (ascii "backend", to_string i), value i)⟩

/-- What a scraper makes of the registry. -/
def families (m : MetricsRegistry) (backend_count : ℕ) : List Family :=
  [counter_family "aegis_requests_total" "Total requests accepted by the listener"
      m.total_requests_,
    counter_family "aegis_rate_limited_total" "Requests rejected with HTTP 429" m.rate_limited_,
    counter_family "aegis_fallback_503_total" "Requests exhausted all retry attempts"
      m.fallback_503_,
    per_backend_family "aegis_backend_success_total" "Successful relays per backend" "counter"
      backend_count (fun i => m.backend_success_ i),
    per_backend_family "aegis_backend_failure_total" "Failed attempts per backend" "counter"
      backend_count (fun i => m.backend_failure_ i),
    per_backend_family "aegis_breaker_state"
      "Circuit breaker state per backend (0=CLOSED, 1=OPEN, 2=HALF_OPEN)" "gauge"
      backend_count m.breaker_state_,
    per_backend_family "aegis_pool_active_connections" "Checked-out connections per backend"
      "gauge" backend_count m.pool_active_,
    per_backend_family "aegis_pool_idle_connections"
      "Idle (pooled, warm) connections per backend" "gauge" backend_count m.pool_idle_]

theorem announce_eq (name help type : String) :
    announce name help type
      = (ascii "# HELP " ++ ascii name ++ ascii " " ++ ascii help) ++ [10]
        ++ ((ascii "# TYPE " ++ ascii name ++ ascii " " ++ ascii type) ++ [10]) := by
  have hend : ascii "\n" = [10] := by decide
  simp only [announce, hend, List.append_assoc]

theorem render_counter_eq (name help : String) (value : ℕ) :
    render_counter name help value
      = (counter_family name help value).lines.flatMap (· ++ [10]) := by
  have hend : ascii "\n" = [10] := by decide
  simp only [render_counter, announce_eq, counter_family, Family.lines, sample_line, hend,
    int_to_string_natCast, List.flatMap_cons, List.flatMap_nil, List.map_cons, List.map_nil,
    List.append_assoc, List.append_nil]

theorem render_per_backend_eq (name help type : String) (backend_count : ℕ) (value : ℕ → ℤ) :
    render_per_backend name help type backend_count value
      = (per_backend_family name help type backend_count value).lines.flatMap (· ++ [10]) := by
  have hend : ascii "\n" = [10] := by decide
  have hlabel : ascii "\x7bbackend=\"" = ascii "\x7b" ++ ascii "backend" ++ ascii "=\"" := by decide
  simp only [render_per_backend, announce_eq, per_backend_family, Family.lines, sample_line, hend,
    hlabel, List.flatMap_cons, List.flatMap_map, List.append_assoc]

/-- The text is the lines of the families. -/
theorem render_prometheus_eq (m : MetricsRegistry) (backend_count : ℕ) :
    m.render_prometheus backend_count
      = ((m.families backend_count).flatMap Family.lines).flatMap (· ++ [10]) := by
  simp only [render_prometheus, families, render_counter_eq, render_per_backend_eq,
    List.flatMap_cons, List.flatMap_nil, List.flatMap_append, List.append_assoc, List.append_nil]

/-- The bytes of a metric's name. -/
def PlainName (name : Bytes) : Prop := name ≠ [] ∧ ∀ c ∈ name, c ≠ 10 ∧ c ≠ 32 ∧ c ≠ 35 ∧ c ≠ 123

theorem plain_counter_family {name help : String} (value : ℕ) (hname : PlainName (ascii name))
    (hhelp : 10 ∉ ascii help) : (counter_family name help value).Plain where
  name := hname
  help := hhelp
  kind := by
    change 10 ∉ ascii "counter"
    decide
  labels := by
    intro x hx key label hl
    rw [List.mem_singleton.mp hx] at hl
    cases hl

theorem plain_per_backend_family {name help type : String} (backend_count : ℕ) (value : ℕ → ℤ)
    (hname : PlainName (ascii name)) (hhelp : 10 ∉ ascii help) (htype : 10 ∉ ascii type) :
    (per_backend_family name help type backend_count value).Plain where
  name := hname
  help := hhelp
  kind := htype
  labels := by
    intro x hx key label hl
    obtain ⟨i, -, rfl⟩ := List.mem_map.mp hx
    cases hl
    exact ⟨by decide, not_mem_to_string i (by decide), not_mem_to_string i (by decide)⟩

-- byte by byte: a search over all bytes would decide it too, and evaluate badly
instance (name : Bytes) : Decidable (PlainName name) :=
  @instDecidableAnd _ _ inferInstance
    (List.decidableBAll (fun c => c ≠ 10 ∧ c ≠ 32 ∧ c ≠ 35 ∧ c ≠ 123) name)

theorem plain_families (m : MetricsRegistry) (backend_count : ℕ) :
    ∀ f ∈ m.families backend_count, f.Plain := by
  intro f hf
  simp only [families, List.mem_cons, List.not_mem_nil, or_false] at hf
  rcases hf with rfl | rfl | rfl | rfl | rfl | rfl | rfl | rfl
  · exact plain_counter_family _ (by decide) (by decide)
  · exact plain_counter_family _ (by decide) (by decide)
  · exact plain_counter_family _ (by decide) (by decide)
  · exact plain_per_backend_family _ _ (by decide) (by decide) (by decide)
  · exact plain_per_backend_family _ _ (by decide) (by decide) (by decide)
  · exact plain_per_backend_family _ _ (by decide) (by decide) (by decide)
  · exact plain_per_backend_family _ _ (by decide) (by decide) (by decide)
  · exact plain_per_backend_family _ _ (by decide) (by decide) (by decide)

/-- A rendered registry is accepted, and read as its families. -/
theorem read_render_prometheus (m : MetricsRegistry) (backend_count : ℕ) :
    read_exposition (m.render_prometheus backend_count) = some (m.families backend_count) := by
  rw [render_prometheus_eq]
  exact read_exposition_lines (m.plain_families backend_count)

/-! ## Nothing is lost and nothing comes twice -/

/-- The names of the eight metrics. -/
theorem map_name_families (m : MetricsRegistry) (backend_count : ℕ) :
    (m.families backend_count).map Family.name
      = [ascii "aegis_requests_total", ascii "aegis_rate_limited_total",
        ascii "aegis_fallback_503_total", ascii "aegis_backend_success_total",
        ascii "aegis_backend_failure_total", ascii "aegis_breaker_state",
        ascii "aegis_pool_active_connections", ascii "aegis_pool_idle_connections"] := rfl

theorem nodup_series_per_backend (name help type : String) (backend_count : ℕ) (value : ℕ → ℤ) :
    (per_backend_family name help type backend_count value).series.Nodup := by
  rw [Family.series, per_backend_family, List.map_map]
  refine List.Nodup.map ?_ List.nodup_range
  intro i j hij
  have hlabel : to_string i = to_string j := by simpa using hij
  exact to_string_injective hlabel

/-- Two metrics with different names have no series in common. -/
theorem disjoint_series {f g : Family} (h : f.name ≠ g.name) : f.series.Disjoint g.series := by
  intro x hf hg
  obtain ⟨y, -, rfl⟩ := List.mem_map.mp hf
  obtain ⟨z, -, hz⟩ := List.mem_map.mp hg
  exact h (congrArg Prod.fst hz).symm

theorem nodup_series (m : MetricsRegistry) (backend_count : ℕ) :
    ((m.families backend_count).flatMap Family.series).Nodup := by
  rw [List.nodup_flatMap]
  constructor
  · intro f hf
    simp only [families, List.mem_cons, List.not_mem_nil, or_false] at hf
    rcases hf with rfl | rfl | rfl | rfl | rfl | rfl | rfl | rfl
    · exact List.nodup_singleton _
    · exact List.nodup_singleton _
    · exact List.nodup_singleton _
    all_goals exact nodup_series_per_backend _ _ _ _ _
  · have hnames : ((m.families backend_count).map Family.name).Nodup := by
      rw [map_name_families]
      decide
    have hpair := List.pairwise_map.mp hnames
    exact hpair.imp disjoint_series

/-- The two registries have the same values, as far as there are backends. -/
structure SameReadings (backend_count : ℕ) (m m' : MetricsRegistry) : Prop where
  total : m.total_requests_ = m'.total_requests_
  limited : m.rate_limited_ = m'.rate_limited_
  fallback : m.fallback_503_ = m'.fallback_503_
  success : ∀ i < backend_count, m.backend_success_ i = m'.backend_success_ i
  failure : ∀ i < backend_count, m.backend_failure_ i = m'.backend_failure_ i
  breaker : ∀ i < backend_count, m.breaker_state_ i = m'.breaker_state_ i
  active : ∀ i < backend_count, m.pool_active_ i = m'.pool_active_ i
  idle : ∀ i < backend_count, m.pool_idle_ i = m'.pool_idle_ i

theorem counter_family_inj {name help : String} {value value' : ℕ} :
    counter_family name help value = counter_family name help value' ↔ value = value' := by
  simp [counter_family]

/-- A metric per backend says how many backends there are, and the value of each. -/
theorem per_backend_family_inj {name help type : String} {n n' : ℕ} {value value' : ℕ → ℤ} :
    per_backend_family name help type n value = per_backend_family name help type n' value'
      ↔ n = n' ∧ ∀ i < n, value i = value' i := by
  rw [per_backend_family, per_backend_family, Family.mk.injEq]
  constructor
  · rintro ⟨-, -, -, hsamples⟩
    have hlen : n = n' := by simpa using congrArg List.length hsamples
    subst hlen
    refine ⟨rfl, fun i hi => ?_⟩
    have hmap := List.map_inj_left.mp hsamples i (List.mem_range.mpr hi)
    exact congrArg Prod.snd hmap
  · rintro ⟨rfl, hvalue⟩
    refine ⟨rfl, rfl, rfl, List.map_inj_left.mpr fun i hi => ?_⟩
    rw [hvalue i (List.mem_range.mp hi)]

theorem families_inj {m m' : MetricsRegistry} {n n' : ℕ} :
    m.families n = m'.families n' ↔ n = n' ∧ SameReadings n m m' := by
  simp only [families, List.cons.injEq, counter_family_inj, per_backend_family_inj, and_true]
  constructor
  · rintro ⟨ht, hl, hf, ⟨hn, hs⟩, ⟨-, hfail⟩, ⟨-, hb⟩, ⟨-, ha⟩, -, hi⟩
    exact ⟨hn, ht, hl, hf, fun i h => by exact_mod_cast hs i h,
      fun i h => by exact_mod_cast hfail i h, hb, ha, hi⟩
  · rintro ⟨rfl, h⟩
    exact ⟨h.total, h.limited, h.fallback, ⟨rfl, fun i hi => by rw [h.success i hi]⟩,
      ⟨rfl, fun i hi => by rw [h.failure i hi]⟩, ⟨rfl, h.breaker⟩, ⟨rfl, h.active⟩, rfl, h.idle⟩

/-- **The exposition, both ways.** Whatever the registry holds and however many backends there
are: a scraper accepts the text and reads in it every counter and every gauge, each under its
name and its backend; no series comes twice; and two registries are rendered alike exactly if
they have as many backends and the same values for them. -/
theorem exposition_round_trip (m : MetricsRegistry) (backend_count : ℕ) :
    read_exposition (m.render_prometheus backend_count) = some (m.families backend_count)
      ∧ ((m.families backend_count).flatMap Family.series).Nodup
      ∧ ∀ (m' : MetricsRegistry) (n' : ℕ),
        m.render_prometheus backend_count = m'.render_prometheus n'
          ↔ backend_count = n' ∧ SameReadings backend_count m m' := by
  refine ⟨m.read_render_prometheus backend_count, m.nodup_series backend_count, ?_⟩
  intro m' n'
  rw [← families_inj]
  constructor
  · intro htext
    have hread := m.read_render_prometheus backend_count
    rw [htext, m'.read_render_prometheus n'] at hread
    exact (Option.some.inj hread).symm
  · intro hsame
    rw [render_prometheus_eq, render_prometheus_eq, hsame]

end MetricsRegistry

end AegisProxy
