/-
Runs of a machine that reads one input at a time, may refuse an input, and emits
a list of outputs for every input it accepts.

Everything stateful in this development is such a machine: a partial step
function `σ → ι → Option (σ × List ο)`. A run is `exec step s is`, and it is
`none` as soon as one input is refused, so a statement about all runs quantifies
over all input lists the machine accepts. The outputs are the run's trace.

Four rules carry the proofs above this file:

* `exec_invariant`: what every step preserves holds after every run. The
  invariant reads the state **and** the trace so far, which is how a statement
  about bytes already written is tied to where the program stands.
* `exec_invariant_along`: the same, for the runs whose steps all meet a
  condition on the state before the step and the input (`Along`). Where a step that
  does not meet the condition breaks the invariant, the runs that keep it in every
  state are exactly those (`everywhere_iff_along`); where it leads to a set of states that
  no step leaves, every run ends in the one or in the other (`exec_kept_or_broken`).
* `exec_invariant_inputs`: the same, for what is said of the inputs as well.
* `exec_append_iff`: a run splits at any point, so "in every state reached" is
  "after every run".

`countSteps_le` bounds how often a run takes a step of some kind by a function of the
state that such a step moves up, and `exec_potential` bounds the length of a run by a function
that every step moves down, but for what it brings in. `since` is the part of a trace since
the machine last came into some set of states, and `exec_invariant_since` is the invariant
rule for what is said of that part.

The last section is about traces: `Justified P tr` says that every entry of `tr`
meets `P` of what came before it.
-/
import Mathlib.Algebra.GroupWithZero.Nat
import Mathlib.Data.List.Basic
import Mathlib.Data.List.Induction

set_option autoImplicit false

namespace Runs

variable {σ ι ο : Type*}

/-! ## Runs -/

/-- The run of `step` from `s` over the inputs `is`: the last state and all
outputs in order, or `none` if some input is refused. -/
def exec (step : σ → ι → Option (σ × List ο)) : σ → List ι → Option (σ × List ο)
  | s, [] => some (s, [])
  | s, i :: is =>
    match step s i with
    | none => none
    | some (s', out) =>
      match exec step s' is with
      | none => none
      | some (s'', outs) => some (s'', out ++ outs)

variable {step : σ → ι → Option (σ × List ο)}

@[simp] theorem exec_nil (s : σ) : exec step s [] = some (s, []) := rfl

/-- A run of one step. -/
theorem exec_singleton {s t : σ} {i : ι} {out : List ο} (h : step s i = some (t, out)) :
    exec step s [i] = some (t, out) := by
  simp only [exec, h, List.append_nil]

/-- A run over `i :: is` is one accepted step followed by a run over `is`. -/
theorem exec_cons_iff {s t : σ} {i : ι} {is : List ι} {tr : List ο} :
    exec step s (i :: is) = some (t, tr)
      ↔ ∃ u out outs, step s i = some (u, out) ∧ exec step u is = some (t, outs)
          ∧ tr = out ++ outs := by
  constructor
  · intro h
    simp only [exec] at h
    split at h
    · cases h
    · rename_i u out hu
      split at h
      · cases h
      · rename_i v outs hv
        simp only [Option.some.injEq, Prod.mk.injEq] at h
        obtain ⟨rfl, rfl⟩ := h
        exact ⟨u, out, outs, hu, hv, rfl⟩
  · rintro ⟨u, out, outs, hu, hv, rfl⟩
    simp only [exec, hu, hv]

/-- A run over `is ++ js` is a run over `is` followed by a run over `js`. -/
theorem exec_append_iff {s t : σ} {is js : List ι} {tr : List ο} :
    exec step s (is ++ js) = some (t, tr)
      ↔ ∃ u out outs, exec step s is = some (u, out) ∧ exec step u js = some (t, outs)
          ∧ tr = out ++ outs := by
  induction is generalizing s tr with
  | nil => simp
  | cons i is ih =>
      rw [List.cons_append, exec_cons_iff]
      constructor
      · rintro ⟨v, o, os, hv, hrest, rfl⟩
        obtain ⟨u, o', os', hu, hjs, rfl⟩ := ih.mp hrest
        exact ⟨u, o ++ o', os', exec_cons_iff.mpr ⟨v, o, o', hv, hu, rfl⟩, hjs,
          (List.append_assoc _ _ _).symm⟩
      · rintro ⟨u, out, outs, hu, hjs, rfl⟩
        obtain ⟨v, o, o', hv, hu', rfl⟩ := exec_cons_iff.mp hu
        exact ⟨v, o, o' ++ outs, hv, ih.mpr ⟨u, o', outs, hu', hjs, rfl⟩,
          List.append_assoc _ _ _⟩

/-! ## Invariants -/

/-- `Along step P s is`: at every step of the run of `is` from `s`, the state
before the step and the input meet `P`. Vacuous past a refused input. -/
def Along (step : σ → ι → Option (σ × List ο)) (P : σ → ι → Prop) : σ → List ι → Prop
  | _, [] => True
  | s, i :: is => P s i ∧ ∀ s' out, step s i = some (s', out) → Along step P s' is

/-- Whether a condition holds along a run can be computed if the condition can. -/
instance decidableAlong {P : σ → ι → Prop} [∀ s i, Decidable (P s i)] :
    ∀ (s : σ) (is : List ι), Decidable (Along step P s is)
  | _, [] => isTrue trivial
  | s, i :: is =>
    match h : step s i with
    | none => decidable_of_iff (P s i) ⟨fun hp => ⟨hp, fun _ _ he => nomatch h.symm.trans he⟩,
        And.left⟩
    | some (u, out) =>
      have := decidableAlong (P := P) u is
      decidable_of_iff (P s i ∧ Along step P u is)
        ⟨fun hp => ⟨hp.1, fun s' out' he => by
            rw [h] at he
            cases he
            exact hp.2⟩,
          fun hp => ⟨hp.1, hp.2 u out h⟩⟩

/-- A condition that each of the inputs meets in every state holds along the run. -/
theorem along_of_mem {P : σ → ι → Prop} {is : List ι} (hP : ∀ i ∈ is, ∀ s, P s i) (s : σ) :
    Along step P s is := by
  induction is generalizing s with
  | nil => trivial
  | cons i is ih =>
      exact ⟨hP i (by simp) s, fun s' _ _ => ih (fun j hj => hP j (by simp [hj])) s'⟩

/-- **The invariant rule**, for the runs whose steps all meet `P`. If one such
step carries `I` from the state and trace before it to the state and trace after
it, a whole run does. -/
theorem exec_invariant_along {P : σ → ι → Prop} {I : σ → List ο → Prop}
    (hstep : ∀ s tr i s' out, I s tr → P s i → step s i = some (s', out) → I s' (tr ++ out))
    {s t : σ} {is : List ι} {tr : List ο} (h₀ : I s []) (hP : Along step P s is)
    (h : exec step s is = some (t, tr)) : I t tr := by
  -- generalised to a run that continues a trace
  have hcont : ∀ (is : List ι) (s : σ) (before tr : List ο), I s before → Along step P s is →
      exec step s is = some (t, tr) → I t (before ++ tr) := by
    intro is
    induction is with
    | nil =>
        intro s before tr hs _ hrun
        simp only [exec_nil, Option.some.injEq, Prod.mk.injEq] at hrun
        obtain ⟨rfl, rfl⟩ := hrun
        simpa using hs
    | cons i is ih =>
        intro s before tr hs hP hrun
        obtain ⟨u, out, outs, hu, hrest, rfl⟩ := exec_cons_iff.mp hrun
        rw [← List.append_assoc]
        exact ih u _ outs (hstep _ _ _ _ _ hs hP.1 hu) (hP.2 u out hu) hrest
  exact hcont is s [] tr h₀ hP h

/-- The invariant rule for all runs. -/
theorem exec_invariant {I : σ → List ο → Prop}
    (hstep : ∀ s tr i s' out, I s tr → step s i = some (s', out) → I s' (tr ++ out))
    {s t : σ} {is : List ι} {tr : List ο} (h₀ : I s [])
    (h : exec step s is = some (t, tr)) : I t tr :=
  exec_invariant_along (P := fun _ _ => True)
    (fun s tr i s' out hs _ he => hstep s tr i s' out hs he) h₀
    (along_of_mem (fun _ _ _ => trivial) s) h

/-- The invariant rule for what is said of the inputs too. The run so far is at hand in the
step. -/
theorem exec_invariant_inputs {s₀ : σ} {I : List ι → σ → List ο → Prop}
    (hstep : ∀ is s tr i s' out, exec step s₀ is = some (s, tr) → I is s tr →
      step s i = some (s', out) → I (is ++ [i]) s' (tr ++ out))
    {t : σ} {is : List ι} {tr : List ο} (h₀ : I [] s₀ [])
    (h : exec step s₀ is = some (t, tr)) : I is t tr := by
  induction is using List.reverseRecOn generalizing t tr with
  | nil =>
      rw [exec_nil, Option.some.injEq, Prod.mk.injEq] at h
      obtain ⟨rfl, rfl⟩ := h
      exact h₀
  | append_singleton is i ih =>
      obtain ⟨u, out, outs, hu, hlast, rfl⟩ := exec_append_iff.mp h
      obtain ⟨v, o, os, hv, hnil, rfl⟩ := exec_cons_iff.mp hlast
      rw [exec_nil, Option.some.injEq, Prod.mk.injEq] at hnil
      obtain ⟨rfl, rfl⟩ := hnil
      rw [List.append_nil]
      exact hstep is u out i v o hu (ih hu) hv

/-- Two step conditions that agree on every accepted step from an invariant state
single out the same runs. -/
theorem along_congr {P Q : σ → ι → Prop} {I : σ → Prop}
    (hstep : ∀ s i s' out, I s → Q s i → step s i = some (s', out) → I s')
    (hPQ : ∀ s i s' out, I s → step s i = some (s', out) → (P s i ↔ Q s i))
    {s t : σ} {is : List ι} {tr : List ο} (h₀ : I s)
    (h : exec step s is = some (t, tr)) : Along step P s is ↔ Along step Q s is := by
  induction is generalizing s tr with
  | nil => exact Iff.rfl
  | cons i is ih =>
      obtain ⟨u, out, outs, hu, hrest, rfl⟩ := exec_cons_iff.mp h
      -- the step is a function, so the only continuation is the one at `u`
      have huniq : ∀ s' out', step s i = some (s', out') → s' = u := by
        intro s' out' hs'
        rw [hu] at hs'
        cases hs'
        rfl
      have hhead := hPQ s i u out h₀ hu
      constructor
      · rintro ⟨hp, hrestP⟩
        have hq := hhead.mp hp
        refine ⟨hq, fun s' out' hs' => ?_⟩
        rw [huniq s' out' hs']
        exact (ih (hstep s i u out h₀ hq hu) hrest).mp (hrestP u out hu)
      · rintro ⟨hq, hrestQ⟩
        refine ⟨hhead.mpr hq, fun s' out' hs' => ?_⟩
        rw [huniq s' out' hs']
        exact (ih (hstep s i u out h₀ hq hu) hrest).mpr (hrestQ u out hu)

/-- `I` holds in every state that the run of `is` from `s` comes through, the first and
the last included. -/
def Everywhere (step : σ → ι → Option (σ × List ο)) (I : σ → Prop) (s : σ) (is : List ι) : Prop :=
  ∀ pre post, is = pre ++ post → ∀ t tr, exec step s pre = some (t, tr) → I t

/-- A run comes through its first state and through those of the rest of it. -/
theorem everywhere_cons {I : σ → Prop} {s u : σ} {i : ι} {is : List ι} {out : List ο}
    (hu : step s i = some (u, out)) :
    Everywhere step I s (i :: is) ↔ I s ∧ Everywhere step I u is := by
  constructor
  · intro h
    refine ⟨h [] (i :: is) rfl s [] (exec_nil s), ?_⟩
    intro pre post hsplit t tr hrun
    exact h (i :: pre) post (by rw [hsplit, List.cons_append]) t (out ++ tr)
      (exec_cons_iff.mpr ⟨u, out, tr, hu, hrun, rfl⟩)
  · rintro ⟨hs, hrest⟩ pre post hsplit t tr hrun
    cases pre with
    | nil =>
        rw [exec_nil, Option.some.injEq, Prod.mk.injEq] at hrun
        exact hrun.1 ▸ hs
    | cons j pre =>
        rw [List.cons_append, List.cons.injEq] at hsplit
        obtain ⟨rfl, hsplit⟩ := hsplit
        obtain ⟨v, o, os, hv, hrun, -⟩ := exec_cons_iff.mp hrun
        rw [hu] at hv
        cases hv
        exact hrest pre post hsplit t os hrun

/-- **The invariant rule, exactly.** Let `C` be what is asked of every state and `I` an
invariant that gives it. If the steps that meet `P` keep `I`, and from a state with `I` only
those lead to a state with `C`, a run keeps `C` in every state precisely when all its steps
meet `P`. -/
theorem everywhere_iff_along {P : σ → ι → Prop} {I C : σ → Prop} (hC : ∀ s, I s → C s)
    (hkeep : ∀ s i s' out, I s → P s i → step s i = some (s', out) → I s')
    (honly : ∀ s i s' out, I s → step s i = some (s', out) → C s' → P s i)
    {s t : σ} {is : List ι} {tr : List ο} (h₀ : I s) (h : exec step s is = some (t, tr)) :
    Everywhere step C s is ↔ Along step P s is := by
  induction is generalizing s tr with
  | nil =>
      refine ⟨fun _ => trivial, ?_⟩
      intro _ pre post hsplit t' tr' hrun
      have hpre : pre = [] := (List.append_eq_nil_iff.mp hsplit.symm).1
      rw [hpre, exec_nil, Option.some.injEq, Prod.mk.injEq] at hrun
      exact hrun.1 ▸ hC s h₀
  | cons i is ih =>
      obtain ⟨u, out, outs, hu, hrest, -⟩ := exec_cons_iff.mp h
      rw [everywhere_cons hu]
      constructor
      · rintro ⟨-, hrun⟩
        have hP := honly s i u out h₀ hu (hrun [] is rfl u [] (exec_nil u))
        refine ⟨hP, ?_⟩
        intro u' out' hu'
        rw [hu] at hu'
        cases hu'
        exact (ih (hkeep s i u out h₀ hP hu) hrest).mp hrun
      · rintro ⟨hP, hrun⟩
        exact ⟨hC s h₀, (ih (hkeep s i u out h₀ hP hu) hrest).mpr (hrun u out hu)⟩

/-- **Kept or broken.** Let the steps that meet `P` keep `I`, and let the first that does not
lead to `J`, which every step keeps. Then a run all of whose steps meet `P` ends with `I`, and
any other with `J`. -/
theorem exec_kept_or_broken {P : σ → ι → Prop} {I J : σ → Prop}
    (hkeep : ∀ s i s' out, I s → P s i → step s i = some (s', out) → I s')
    (hbreak : ∀ s i s' out, I s → ¬ P s i → step s i = some (s', out) → J s')
    (hstay : ∀ s i s' out, J s → step s i = some (s', out) → J s')
    {s t : σ} {is : List ι} {tr : List ο} (h₀ : I s) (h : exec step s is = some (t, tr)) :
    Along step P s is ∧ I t ∨ ¬ Along step P s is ∧ J t := by
  induction is generalizing s tr with
  | nil =>
      rw [exec_nil, Option.some.injEq, Prod.mk.injEq] at h
      exact Or.inl ⟨trivial, h.1 ▸ h₀⟩
  | cons i is ih =>
      obtain ⟨u, out, outs, hu, hrest, -⟩ := exec_cons_iff.mp h
      by_cases hP : P s i
      · rcases ih (hkeep s i u out h₀ hP hu) hrest with ⟨halong, ht⟩ | ⟨hnot, ht⟩
        · refine Or.inl ⟨⟨hP, ?_⟩, ht⟩
          intro u' out' hu'
          rw [hu] at hu'
          cases hu'
          exact halong
        · exact Or.inr ⟨fun hall => hnot (hall.2 u out hu), ht⟩
      · refine Or.inr ⟨fun hall => hP hall.1, ?_⟩
        exact exec_invariant (I := fun s _ => J s) (fun v _ j v' o hv he => hstay v j v' o hv he)
          (hbreak s i u out h₀ hP hu) hrest

/-- How many steps of a run meet `P`. -/
def countSteps (step : σ → ι → Option (σ × List ο)) (P : σ → ι → Bool) : σ → List ι → ℕ
  | _, [] => 0
  | s, i :: is =>
    match step s i with
    | none => 0
    | some (s', _) => (if P s i then 1 else 0) + countSteps step P s' is

/-- **The counting rule.** If every step that meets `P` moves `f` up by one at least, and
no step moves it down, there are at most as many of them as `f` has moved up. -/
theorem countSteps_le {P : σ → ι → Bool} {f : σ → ℕ}
    (hstep : ∀ s i s' out, step s i = some (s', out) → f s + (if P s i then 1 else 0) ≤ f s')
    {s t : σ} {is : List ι} {tr : List ο} (h : exec step s is = some (t, tr)) :
    f s + countSteps step P s is ≤ f t := by
  induction is generalizing s tr with
  | nil =>
      rw [exec_nil, Option.some.injEq, Prod.mk.injEq] at h
      rw [h.1, countSteps]
      omega
  | cons i is ih =>
      obtain ⟨u, out, outs, hu, hrest, -⟩ := exec_cons_iff.mp h
      have hone := hstep s i u out hu
      have hmore := ih hrest
      rw [countSteps, hu]
      dsimp only
      omega

/-- **The potential rule.** Let `fed` be what an output brings in. If every step takes one from
`rank`, but for what it brings in, a run has no more steps than the rank it began with and all
that was brought in. -/
theorem exec_potential {I : σ → Prop} (rank : σ → ℕ) (fed : ο → ℕ)
    (hstep : ∀ s i s' out, I s → step s i = some (s', out) →
      I s' ∧ rank s' + 1 ≤ rank s + (out.map fed).sum)
    {s t : σ} {is : List ι} {tr : List ο} (h₀ : I s) (h : exec step s is = some (t, tr)) :
    is.length + rank t ≤ rank s + (tr.map fed).sum := by
  induction is generalizing s tr with
  | nil =>
      rw [exec_nil, Option.some.injEq, Prod.mk.injEq] at h
      rw [← h.1, List.length_nil]
      omega
  | cons i is ih =>
      obtain ⟨u, out, outs, hu, hrest, rfl⟩ := exec_cons_iff.mp h
      obtain ⟨hI, hone⟩ := hstep s i u out h₀ hu
      have hmore := ih hI hrest
      rw [List.map_append, List.sum_append, List.length_cons]
      omega

/-! ## The trace as part of the state

A condition on a step may have to speak of what the machine has emitted before it. `traced`
is the machine that remembers it; it accepts the same inputs and emits the same. -/

/-- The machine with its trace so far. -/
def traced (step : σ → ι → Option (σ × List ο)) (q : σ × List ο) (i : ι) :
    Option ((σ × List ο) × List ο) :=
  match step q.1 i with
  | none => none
  | some (s', out) => some ((s', q.2 ++ out), out)

theorem traced_eq_some {q q' : σ × List ο} {i : ι} {out : List ο}
    (h : traced step q i = some (q', out)) : step q.1 i = some (q'.1, out) ∧ q'.2 = q.2 ++ out := by
  unfold traced at h
  split at h
  · cases h
  · rename_i s' out' hs
    cases h
    exact ⟨hs, rfl⟩

/-- A run is a run of the machine that remembers. -/
theorem exec_traced {s t : σ} {is : List ι} {tr : List ο} (h : exec step s is = some (t, tr))
    (before : List ο) : exec (traced step) (s, before) is = some ((t, before ++ tr), tr) := by
  induction is generalizing s before tr with
  | nil =>
      rw [exec_nil, Option.some.injEq, Prod.mk.injEq] at h
      obtain ⟨rfl, rfl⟩ := h
      rw [List.append_nil]
      rfl
  | cons i is ih =>
      obtain ⟨u, out, outs, hu, hrest, rfl⟩ := exec_cons_iff.mp h
      refine exec_cons_iff.mpr ⟨(u, before ++ out), out, outs, ?_, ?_, rfl⟩
      · simp only [traced, hu]
      · rw [← List.append_assoc]
        exact ih hrest (before ++ out)

/-! ## Since when -/

/-- How one step from `s` to `s'` changes the outputs since the machine last came into
`P`: it adds its own while the machine stays, starts over with its own where the machine
comes in, and leaves none where it is outside. -/
def carry (P : σ → Bool) (s s' : σ) (tail out : List ο) : List ο :=
  if P s' then if P s then tail ++ out else out else []

/-- The outputs of a run since the machine last came into `P`, those of the step that took
it there included, and none if it ends outside `P`. What there is of them before the run
is `tail`. -/
def since (step : σ → ι → Option (σ × List ο)) (P : σ → Bool) : σ → List ι → List ο → List ο
  | _, [], tail => tail
  | s, i :: is, tail =>
    match step s i with
    | none => tail
    | some (s', out) => since step P s' is (carry P s s' tail out)

/-- The invariant rule for what is said of the state, the trace, and the part of the
trace since the machine last came into `P`. -/
theorem exec_invariant_since {P : σ → Bool} {I : σ → List ο → List ο → Prop}
    (hstep : ∀ s tr tail i s' out, I s tr tail → step s i = some (s', out) →
      I s' (tr ++ out) (carry P s s' tail out))
    {s t : σ} {is : List ι} {tr : List ο} (h₀ : I s [] [])
    (h : exec step s is = some (t, tr)) : I t tr (since step P s is []) := by
  have hcont : ∀ (is : List ι) (s : σ) (before tail tr : List ο), I s before tail →
      exec step s is = some (t, tr) → I t (before ++ tr) (since step P s is tail) := by
    intro is
    induction is with
    | nil =>
        intro s before tail tr hs hrun
        simp only [exec_nil, Option.some.injEq, Prod.mk.injEq] at hrun
        obtain ⟨rfl, rfl⟩ := hrun
        simpa [since] using hs
    | cons i is ih =>
        intro s before tail tr hs hrun
        obtain ⟨u, out, outs, hu, hrest, rfl⟩ := exec_cons_iff.mp hrun
        rw [← List.append_assoc, since, hu]
        exact ih u _ _ outs (hstep _ _ _ _ _ _ hs hu) hrest
  exact hcont is s [] [] tr h₀ h

/-! ## Traces -/

/-- Every entry of the trace meets `P` of the part of the trace before it. -/
def Justified (P : List ο → ο → Prop) (tr : List ο) : Prop :=
  ∀ pre x post, tr = pre ++ x :: post → P pre x

theorem justified_nil {P : List ο → ο → Prop} : Justified P [] := by
  intro pre x post h
  exact absurd h (by simp)

/-- One more entry. -/
theorem justified_concat_iff {P : List ο → ο → Prop} {tr : List ο} {x : ο} :
    Justified P (tr ++ [x]) ↔ Justified P tr ∧ P tr x := by
  constructor
  · intro h
    exact ⟨fun pre y post hs => h pre y (post ++ [x]) (by simp [hs]), h tr x [] rfl⟩
  · rintro ⟨htr, hx⟩ pre y post hs
    -- the entry in question is either the new one or stands before it
    rcases List.eq_nil_or_concat post with rfl | ⟨post', z, rfl⟩
    · obtain ⟨rfl, hy⟩ := List.append_inj' hs rfl
      cases hy
      exact hx
    · have hs' : tr ++ [x] = (pre ++ y :: post') ++ [z] := by simpa using hs
      exact htr pre y post' (List.append_inj' hs' rfl).1

/-- A trace is justified as far as it is justified. -/
theorem Justified.left {P : List ο → ο → Prop} {tr out : List ο} (h : Justified P (tr ++ out)) :
    Justified P tr := by
  intro pre x post hs
  exact h pre x (post ++ out) (by simp [hs])

/-- Entries that `P` asks nothing of leave a trace justified. -/
theorem Justified.append {P : List ο → ο → Prop} {tr out : List ο} (h : Justified P tr)
    (hout : ∀ x ∈ out, ∀ pre, P pre x) : Justified P (tr ++ out) := by
  induction out generalizing tr with
  | nil => simpa using h
  | cons x out ih =>
      have hx := justified_concat_iff.mpr ⟨h, hout x (by simp) tr⟩
      rw [List.append_cons]
      exact ih hx (fun y hy => hout y (by simp [hy]))

end Runs
