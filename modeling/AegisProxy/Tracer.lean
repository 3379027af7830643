/-
`tracer.hpp`: correlation ids and log lines.

An id is the time in milliseconds and the next number of a counter, so two ids of one process
differ as long as the counter has not gone round (`generate_injective`). A line begins with
the id of the request it is about; an id has no space in it, so the lines of a request are
those that begin with its id and a space (`event_begins_iff`), and `grep` finds just them.
-/
import AegisProxy.Metrics
import AegisProxy.Text

set_option autoImplicit false

namespace AegisProxy

/-! ## Correlation ids -/

/-- `CorrelationId::generate`, with the time it reads and the value of `counter_`: the id, and
the counter after it. -/
def CorrelationId.generate (now_ms : ℤ) (counter_ : ℕ) : Bytes × ℕ :=
  (ascii "req-" ++ int_to_string now_ms ++ ascii "-" ++ to_string counter_,
    MetricsRegistry.fetch_add counter_)

namespace CorrelationId

/-- What stands behind the last dash of an id. -/
def sequence (id : Bytes) : Bytes := (id.reverse.takeWhile (· ≠ 45)).reverse

theorem sequence_generate (now_ms : ℤ) (n : ℕ) : sequence (generate now_ms n).1 = to_string n := by
  have hdash : ascii "-" = [45] := by decide
  have hdigits : ∀ c ∈ (to_string n).reverse, decide (c ≠ 45) = true := by
    intro c hc
    refine decide_eq_true fun heq => ?_
    exact not_mem_to_string n (by decide) (heq ▸ List.mem_reverse.mp hc)
  rw [sequence, generate, hdash, List.append_assoc _ [45], List.reverse_append,
    List.reverse_append, List.append_assoc, List.takeWhile_append_of_pos hdigits]
  simp

/-- **Ids of different numbers differ**, whenever they were made. -/
theorem generate_injective {t t' : ℤ} {n n' : ℕ} (h : (generate t n).1 = (generate t' n').1) :
    n = n' := by
  have hseq := congrArg sequence h
  rw [sequence_generate, sequence_generate] at hseq
  exact to_string_injective hseq

/-- An id is on one line and has no space in it. -/
theorem not_mem_generate (now_ms : ℤ) (n : ℕ) :
    32 ∉ (generate now_ms n).1 ∧ 10 ∉ (generate now_ms n).1 := by
  constructor
  · simp only [generate, List.mem_append, not_or]
    exact ⟨⟨⟨by decide, not_mem_int_to_string now_ms (by decide) (by decide)⟩, by decide⟩,
      not_mem_to_string n (by decide)⟩
  · simp only [generate, List.mem_append, not_or]
    exact ⟨⟨⟨by decide, not_mem_int_to_string now_ms (by decide) (by decide)⟩, by decide⟩,
      not_mem_to_string n (by decide)⟩

end CorrelationId

/-! ## Log lines -/

namespace TraceLogger

/-- `TraceLogger::event`, the line without its end. -/
def event (correlation_id event_name : Bytes) (fields : List (Bytes × Bytes)) : Bytes :=
  ascii "cid=" ++ correlation_id ++ ascii " event=" ++ event_name
    ++ fields.flatMap fun f => ascii " " ++ f.1 ++ ascii "=" ++ f.2

/-- The line begins with the id and a space. -/
def Begins (correlation_id line : Bytes) : Prop :=
  (ascii "cid=" ++ correlation_id ++ ascii " ") <+: line

instance (correlation_id line : Bytes) : Decidable (Begins correlation_id line) :=
  inferInstanceAs (Decidable (_ <+: _))

/-- Two words up to a space, at the front of the same text, are one. -/
theorem eq_of_prefix_space {u v s : Bytes} (hu : 32 ∉ u) (hv : 32 ∉ v)
    (h : (u ++ [32]) <+: v ++ 32 :: s) : u = v := by
  obtain ⟨t, ht⟩ := h
  have hword : ∀ w : Bytes, 32 ∉ w → ∀ r : Bytes, (w ++ 32 :: r).takeWhile (· ≠ 32) = w := by
    intro w hw r
    have hall : ∀ c ∈ w, decide (c ≠ 32) = true := by
      intro c hc
      exact decide_eq_true fun heq => hw (heq ▸ hc)
    rw [List.takeWhile_append_of_pos hall]
    simp
  rw [List.append_assoc, List.singleton_append] at ht
  rw [← hword u hu t, ht, hword v hv s]

/-- **The lines of an id** begin with it, and no others do. -/
theorem event_begins_iff {id id' : Bytes} (hid : 32 ∉ id) (hid' : 32 ∉ id') (name : Bytes)
    (fields : List (Bytes × Bytes)) : Begins id (event id' name fields) ↔ id = id' := by
  have hspace : ascii " " = [32] := by decide
  have hevent : ascii " event=" = 32 :: ascii "event=" := by decide
  have hline : event id' name fields = ascii "cid=" ++ (id' ++ 32 :: (ascii "event=" ++ (name
      ++ fields.flatMap fun f => ascii " " ++ f.1 ++ ascii "=" ++ f.2))) := by
    simp only [event, hevent, List.append_assoc, List.cons_append]
  rw [Begins, hspace, List.append_assoc, hline, List.prefix_append_right_inj]
  constructor
  · exact eq_of_prefix_space hid hid'
  · rintro rfl
    exact ⟨_, List.append_assoc _ _ _⟩

/-- A line is one line if what it is made of is. -/
theorem event_not_mem {id name : Bytes} {fields : List (Bytes × Bytes)} (hid : 10 ∉ id)
    (hname : 10 ∉ name) (hfields : ∀ f ∈ fields, 10 ∉ f.1 ∧ 10 ∉ f.2) :
    10 ∉ event id name fields := by
  have hall : 10 ∉ fields.flatMap fun f => ascii " " ++ f.1 ++ ascii "=" ++ f.2 := by
    intro hmem
    obtain ⟨f, hf, hmem⟩ := List.mem_flatMap.mp hmem
    obtain ⟨hkey, hvalue⟩ := hfields f hf
    have hnot : 10 ∉ ascii " " ++ f.1 ++ ascii "=" ++ f.2 := by
      simp only [List.mem_append, not_or]
      exact ⟨⟨⟨by decide, hkey⟩, by decide⟩, hvalue⟩
    exact hnot hmem
  simp only [event, List.mem_append, not_or]
  exact ⟨⟨⟨⟨by decide, hid⟩, by decide⟩, hname⟩, hall⟩

end TraceLogger

end AegisProxy
