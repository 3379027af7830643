/-
Readers: functions that take something off the front of a list, or cannot.

Two notions carry what is proved with them. `Reads r w x` says that `w` is a way to write
`x` for `r`: whatever stands behind `w`, the reader reads `x` and leaves just that. It is
the round trip of a format, and it is used one part after the other (`Reads.bind_append`).
`Steady r` says that more input behind changes nothing about what `r` reads.

Together they make a format self-delimiting: a reader that is steady and reads `w` reads
nothing from a proper part of `w` (`Reads.prefix_eq_none`).
-/
import Mathlib.Data.List.Basic
import Mathlib.Data.List.Infix

set_option autoImplicit false

namespace Readers

variable {α β γ : Type*}

/-- What was read and what is left, or nothing. -/
abbrev Reader (α β : Type*) := List α → Option (β × List α)

/-- `w` is written for `x`. -/
def Reads (r : Reader α β) (w : List α) (x : β) : Prop := ∀ rest, r (w ++ rest) = some (x, rest)

/-- What is read does not depend on how much more there is. -/
def Steady (r : Reader α β) : Prop :=
  ∀ s x rest, r s = some (x, rest) → ∀ more, r (s ++ more) = some (x, rest ++ more)

theorem Reads.self {r : Reader α β} {w : List α} {x : β} (h : Reads r w x) : r w = some (x, []) := by
  have hall := h []
  rwa [List.append_nil] at hall

/-- **Self-delimiting.** A proper part of what is written reads as nothing. -/
theorem Reads.prefix_eq_none {r : Reader α β} {w p : List α} {x : β} (h : Reads r w x)
    (hr : Steady r) (hp : p <+: w) (hne : p ≠ w) : r p = none := by
  obtain ⟨q, rfl⟩ := hp
  cases hread : r p with
  | none => rfl
  | some y =>
      -- with the missing part behind it, `p` would leave that part over
      have hmore := hr p y.1 y.2 hread q
      rw [h.self, Option.some.injEq, Prod.mk.injEq] at hmore
      have hq : q = [] := (List.append_eq_nil_iff.mp hmore.2.symm).2
      exact absurd (by rw [hq, List.append_nil]) hne

/-! ## One after the other -/

/-- Read with `r`, then with what it makes of it. -/
def bind (r : Reader α β) (k : β → Reader α γ) : Reader α γ := fun s =>
  match r s with
  | none => none
  | some (x, rest) => k x rest

theorem bind_eq_some {r : Reader α β} {k : β → Reader α γ} {s rest : List α} {y : γ}
    (h : bind r k s = some (y, rest)) : ∃ x mid, r s = some (x, mid) ∧ k x mid = some (y, rest) := by
  unfold bind at h
  split at h
  · cases h
  · rename_i x mid hs
    exact ⟨x, mid, hs, h⟩

/-- Where `w` stands in front, reading goes on behind it. -/
theorem Reads.bind_append {r : Reader α β} {w : List α} {x : β} (h : Reads r w x)
    (k : β → Reader α γ) (s : List α) : bind r k (w ++ s) = k x s := by
  rw [Readers.bind, h]

theorem bind_eq_none {r : Reader α β} {s : List α} (h : r s = none) (k : β → Reader α γ) :
    bind r k s = none := by
  rw [bind, h]

theorem Steady.bind {r : Reader α β} {k : β → Reader α γ} (hr : Steady r)
    (hk : ∀ x, Steady (k x)) : Steady (bind r k) := by
  intro s y rest h more
  obtain ⟨x, mid, hs, hmid⟩ := bind_eq_some h
  rw [Readers.bind, hr s x mid hs more]
  exact hk x mid y rest hmid more

/-- What was read is made into something else, if it can be. -/
def lift (f : Option β) : Reader α β := fun s => f.map (·, s)

theorem bind_lift {f : Option β} {x : β} (h : f = some x) (k : β → Reader α γ) (s : List α) :
    bind (lift f) k s = k x s := by
  rw [bind, lift, h]
  rfl

theorem steady_lift (f : Option β) : Steady (lift f : Reader α β) := by
  intro s x rest h more
  unfold lift at h ⊢
  cases f with
  | none => cases h
  | some y =>
      cases h
      rfl

/-! ## Words, fields and blocks -/

section Words

variable [DecidableEq α]

/-- Exactly `w`. -/
def word (w : List α) : Reader α Unit := fun s =>
  if w <+: s then some ((), s.drop w.length) else none

theorem reads_word (w : List α) : Reads (word w) w () := by
  intro rest
  rw [word, if_pos (List.prefix_append w rest), List.drop_left]

/-- Another word of the same length is not the word. -/
theorem word_eq_none_of_ne {w w' : List α} (hlen : w.length = w'.length) (hne : w ≠ w')
    (s : List α) : word w (w' ++ s) = none := by
  refine if_neg fun hp => hne ?_
  have htake := List.prefix_iff_eq_take.mp hp
  rwa [hlen, List.take_left] at htake

/-- Nor is what begins otherwise. -/
theorem word_eq_none_of_head {c : α} {w s : List α} (h : s.head? ≠ some c) :
    word (c :: w) s = none := by
  refine if_neg fun hp => h ?_
  obtain ⟨t, rfl⟩ := hp
  rfl

/-- Everything before the first `stop`, which is taken away. -/
def field (stop : α) : Reader α (List α)
  | [] => none
  | c :: s => if c = stop then some ([], s) else (field stop s).map fun y => (c :: y.1, y.2)

theorem reads_field {stop : α} {l : List α} (h : stop ∉ l) : Reads (field stop) (l ++ [stop]) l := by
  intro rest
  induction l with
  | nil => simp [field]
  | cons c l ih =>
      have hc : c ≠ stop := fun hc => h (hc ▸ List.mem_cons_self)
      have hrest := ih fun hmem => h (List.mem_cons_of_mem c hmem)
      rw [List.cons_append, List.cons_append, field, if_neg hc, hrest]
      rfl

/-- A field that was read is what stands before the first `stop`. -/
theorem field_eq_some {stop : α} {s l rest : List α} (h : field stop s = some (l, rest)) :
    s = l ++ stop :: rest ∧ stop ∉ l := by
  induction s generalizing l with
  | nil => cases h
  | cons c s ih =>
      rw [field] at h
      split at h
      · rename_i hc
        cases h
        exact ⟨by rw [hc]; rfl, List.not_mem_nil⟩
      · rename_i hc
        obtain ⟨⟨l', rest'⟩, hs, heq⟩ := Option.map_eq_some_iff.mp h
        cases heq
        obtain ⟨rfl, hnot⟩ := ih hs
        exact ⟨rfl, by simp [hnot, Ne.symm hc]⟩

theorem field_eq_none {stop : α} {s : List α} (h : stop ∉ s) : field stop s = none := by
  cases hs : field stop s with
  | none => rfl
  | some y =>
      obtain ⟨l, rest⟩ := y
      obtain ⟨rfl, -⟩ := field_eq_some hs
      simp at h

/-- The fields up to the first that is `last`, each with its `stop` behind it. `line` is
what has been read of the first of them. -/
def blockFrom (stop : α) (last line : List α) : Reader α (List (List α))
  | [] => none
  | c :: s =>
    if c = stop then
      if line = last then some ([], s)
      else (blockFrom stop last [] s).map fun y => (line :: y.1, y.2)
    else blockFrom stop last (line ++ [c]) s

/-- Fields, up to the first that is `last`. -/
def block (stop : α) (last : List α) : Reader α (List (List α)) := blockFrom stop last []

/-- The rest of a field that has been begun. -/
theorem blockFrom_append {stop : α} {l : List α} (last line s : List α) (h : stop ∉ l) :
    blockFrom stop last line (l ++ stop :: s)
      = if line ++ l = last then some ([], s)
        else (blockFrom stop last [] s).map fun y => ((line ++ l) :: y.1, y.2) := by
  induction l generalizing line with
  | nil => rw [List.nil_append, List.append_nil, blockFrom, if_pos rfl]
  | cons c l ih =>
      have hc : c ≠ stop := fun hc => h (hc ▸ List.mem_cons_self)
      rw [List.cons_append, blockFrom, if_neg hc,
        ih (line ++ [c]) fun hmem => h (List.mem_cons_of_mem c hmem), List.append_assoc]
      rfl

theorem reads_block {stop : α} {last : List α} {ls : List (List α)} (hlast : stop ∉ last)
    (hls : ∀ l ∈ ls, stop ∉ l ∧ l ≠ last) :
    Reads (block stop last) (ls.flatMap (· ++ [stop]) ++ (last ++ [stop])) ls := by
  intro rest
  rw [block]
  induction ls with
  | nil =>
      rw [List.flatMap_nil, List.nil_append, List.append_assoc]
      exact (blockFrom_append last [] rest hlast).trans (if_pos rfl)
  | cons l ls ih =>
      obtain ⟨hstop, hne⟩ := hls l List.mem_cons_self
      have hrest := ih fun l' hl' => hls l' (List.mem_cons_of_mem l hl')
      rw [List.flatMap_cons, List.append_assoc, List.append_assoc, List.append_assoc,
        List.singleton_append, blockFrom_append last [] _ hstop, List.nil_append, if_neg hne,
        ← List.append_assoc, hrest]
      rfl

theorem steady_block (stop : α) (last : List α) : Steady (block stop last) := by
  -- by induction on the input, for a field already begun
  have hfrom : ∀ s line x rest, blockFrom stop last line s = some (x, rest) →
      ∀ more, blockFrom stop last line (s ++ more) = some (x, rest ++ more) := by
    intro s
    induction s with
    | nil =>
        intro line x rest h
        cases h
    | cons c s ih =>
        intro line x rest h more
        rw [blockFrom] at h
        rw [List.cons_append, blockFrom]
        split at h
        · rename_i hc
          rw [if_pos hc]
          split at h
          · rename_i hl
            cases h
            exact if_pos hl
          · rename_i hl
            obtain ⟨⟨ls, rest'⟩, hs, heq⟩ := Option.map_eq_some_iff.mp h
            cases heq
            rw [if_neg hl, ih [] ls rest' hs more]
            rfl
        · rename_i hc
          rw [if_neg hc]
          exact ih (line ++ [c]) x rest h more
  intro s
  exact hfrom s []

/-! ## Lines -/

/-- The lines of a text, each with its `stop` behind it, or nothing if the last one has none.
`line` is what has been read of the first of them. -/
def linesFrom (stop : α) (line : List α) : List α → Option (List (List α))
  | [] => if line = [] then some [] else none
  | c :: s =>
    if c = stop then (linesFrom stop [] s).map (line :: ·) else linesFrom stop (line ++ [c]) s

/-- The lines of a text. -/
def lines (stop : α) (s : List α) : Option (List (List α)) := linesFrom stop [] s

theorem linesFrom_append {stop : α} {l : List α} (line s : List α) (h : stop ∉ l) :
    linesFrom stop line (l ++ stop :: s) = (linesFrom stop [] s).map ((line ++ l) :: ·) := by
  induction l generalizing line with
  | nil => rw [List.nil_append, List.append_nil, linesFrom, if_pos rfl]
  | cons c l ih =>
      have hc : c ≠ stop := fun hc => h (hc ▸ List.mem_cons_self)
      rw [List.cons_append, linesFrom, if_neg hc,
        ih (line ++ [c]) fun hmem => h (List.mem_cons_of_mem c hmem), List.append_assoc]
      rfl

/-- **The lines a text was put together from.** -/
theorem lines_flatMap {stop : α} {ls : List (List α)} (h : ∀ l ∈ ls, stop ∉ l) :
    lines stop (ls.flatMap (· ++ [stop])) = some ls := by
  rw [lines]
  induction ls with
  | nil => rfl
  | cons l ls ih =>
      have hrest := ih fun l' hl' => h l' (List.mem_cons_of_mem l hl')
      rw [List.flatMap_cons, List.append_assoc, List.singleton_append,
        linesFrom_append [] _ (h l List.mem_cons_self), hrest]
      rfl

end Words

/-- Exactly `n` symbols. -/
def take (n : ℕ) : Reader α (List α) := fun s =>
  if n ≤ s.length then some (s.take n, s.drop n) else none

theorem reads_take (w : List α) : Reads (take w.length) w w := by
  intro rest
  rw [take, if_pos (by rw [List.length_append]; omega), List.take_left, List.drop_left]

theorem steady_take (n : ℕ) : Steady (take n : Reader α (List α)) := by
  intro s x rest h more
  unfold take at h ⊢
  split at h
  · rename_i hn
    cases h
    rw [if_pos (by rw [List.length_append]; omega), List.take_append_of_le_length hn,
      List.drop_append_of_le_length hn]
  · cases h

/-- Everything there is. -/
def everything : Reader α (List α) := fun s => some (s, [])

theorem bind_everything (k : List α → Reader α γ) (s : List α) : bind everything k s = k s [] := rfl

/-! ## The whole of an input -/

/-- What the whole input reads as. -/
def whole (r : Reader α β) (s : List α) : Option β :=
  match r s with
  | some (x, []) => some x
  | _ => none

end Readers
