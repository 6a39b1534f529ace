import Mathlib.Tactic

/-!
# Labelled runs

A transition system is a relation `step : σ → ε → σ → Prop`.  A `Run` records the
transitions it took, so a property can speak about what happened on the way
(which event closed a ticket, which steps moved the clock back) and not only
about where the run ended.

Two rules carry most proofs: `Run.invariant` (what one step preserves, a run
preserves) and `Run.le` (a measure no step lowers is not lowered by a run).
`Run.split` takes a run apart at any of its transitions, `Run.last_change` finds the
step since which a property has held, and `Run.simulate` reads a run as one of another
system.
-/

namespace Roshi.Lib

universe u v

/-- One step of a run, with the state before and after it. -/
structure Transition (σ : Type u) (ε : Type v) where
  pre : σ
  event : ε
  post : σ

variable {σ : Type u} {ε : Type v}

/-- `Run step s tr s'`: from `s`, the transitions `tr` in order lead to `s'`. -/
inductive Run (step : σ → ε → σ → Prop) : σ → List (Transition σ ε) → σ → Prop
  | nil (s : σ) : Run step s [] s
  | cons {s t s' : σ} {e : ε} {tr : List (Transition σ ε)} (h : step s e t)
      (hr : Run step t tr s') : Run step s (⟨s, e, t⟩ :: tr) s'

namespace Run

variable {step : σ → ε → σ → Prop} {s t s' : σ} {tr tr' : List (Transition σ ε)}

theorem single {e : ε} (h : step s e t) : Run step s [⟨s, e, t⟩] t := .cons h (.nil t)

theorem append (h : Run step s tr t) (h' : Run step t tr' s') : Run step s (tr ++ tr') s' := by
  induction h with
  | nil => exact h'
  | cons hstep _ ih => exact .cons hstep (ih h')

/-- A run is cut at any point of its trace. -/
theorem of_append (h : Run step s (tr ++ tr') s') : ∃ t, Run step s tr t ∧ Run step t tr' s' := by
  induction tr generalizing s with
  | nil => exact ⟨s, .nil s, h⟩
  | cons x tr ih =>
    cases h with
    | cons hstep hr =>
      obtain ⟨t, h1, h2⟩ := ih hr
      exact ⟨t, .cons hstep h1, h2⟩

/-- Around one of its transitions, a run is a run up to it, the step, and a run after it. -/
theorem split {x : Transition σ ε} (h : Run step s (tr ++ x :: tr') s') :
    Run step s tr x.pre ∧ step x.pre x.event x.post ∧ Run step x.post tr' s' := by
  obtain ⟨t, h1, h2⟩ := of_append h
  cases h2 with
  | cons hstep hr => exact ⟨h1, hstep, hr⟩

theorem step_of_mem {x : Transition σ ε} (h : Run step s tr s') (hx : x ∈ tr) :
    step x.pre x.event x.post := by
  obtain ⟨a, b, rfl⟩ := List.append_of_mem hx
  exact h.split.2.1

/-- A run whose steps are steps of another system is a run of it. -/
theorem mono {step' : σ → ε → σ → Prop} (h : Run step s tr s')
    (hstep : ∀ x ∈ tr, step x.pre x.event x.post → step' x.pre x.event x.post) :
    Run step' s tr s' := by
  induction h with
  | nil => exact .nil _
  | cons hs _ ih =>
    refine .cons (hstep _ List.mem_cons_self hs) (ih ?_)
    intro x hx
    exact hstep x (List.mem_cons_of_mem _ hx)

/-- **Invariant rule.**  What every step of the run preserves holds at its end. -/
theorem invariant {P : σ → Prop} (h : Run step s tr s') (h0 : P s)
    (hstep : ∀ x ∈ tr, step x.pre x.event x.post → P x.pre → P x.post) : P s' := by
  induction h with
  | nil => exact h0
  | cons hs _ ih =>
    refine ih (hstep _ List.mem_cons_self hs h0) ?_
    intro x hx
    exact hstep x (List.mem_cons_of_mem _ hx)

/-- Every state a run passes satisfies what its steps preserve. -/
theorem invariant_of_mem {P : σ → Prop} {x : Transition σ ε} (h : Run step s tr s') (h0 : P s)
    (hstep : ∀ x ∈ tr, step x.pre x.event x.post → P x.pre → P x.post) (hx : x ∈ tr) :
    P x.pre ∧ P x.post := by
  obtain ⟨a, b, rfl⟩ := List.append_of_mem hx
  obtain ⟨h1, hs, -⟩ := h.split
  have hpre : P x.pre := h1.invariant h0 fun y hy => hstep y (List.mem_append_left _ hy)
  exact ⟨hpre, hstep x hx hs hpre⟩

/-- **History rule.**  The invariant may speak of the transitions so far. -/
theorem history {P : List (Transition σ ε) → σ → Prop} (h : Run step s tr s') (h0 : P [] s)
    (hstep : ∀ tr t e t', Run step s tr t → P tr t → step t e t' → P (tr ++ [⟨t, e, t'⟩]) t') :
    P tr s' := by
  induction tr using List.reverseRecOn generalizing s' with
  | nil =>
    cases h
    exact h0
  | append_singleton tr x ih =>
    obtain ⟨t, h1, h2⟩ := h.of_append
    cases h2 with
    | cons hs hr =>
      cases hr
      exact hstep tr t _ _ h1 (ih h1) hs

/-- **Simulation rule.**  Where every step of the run is matched by a step of another system
between related states, the run is matched by a run. -/
theorem simulate {σ' : Type*} {ε' : Type*} {step' : σ' → ε' → σ' → Prop} {R : σ → σ' → Prop}
    {M : Transition σ ε → Transition σ' ε' → Prop} {a : σ'} (h : Run step s tr s') (hR : R s a)
    (hstep : ∀ x ∈ tr, step x.pre x.event x.post → ∀ a, R x.pre a →
      ∃ e b, step' a e b ∧ R x.post b ∧ M x ⟨a, e, b⟩) :
    ∃ tr' b, Run step' a tr' b ∧ R s' b ∧ List.Forall₂ M tr tr' := by
  induction h generalizing a with
  | nil => exact ⟨[], a, .nil a, hR, .nil⟩
  | cons hs _ ih =>
    obtain ⟨e, b, hb, hRb, hM⟩ := hstep _ List.mem_cons_self hs a hR
    obtain ⟨tr', c, hrun, hc, hall⟩ := ih hRb fun x hx => hstep x (List.mem_cons_of_mem _ hx)
    exact ⟨⟨a, e, b⟩ :: tr', c, .cons hb hrun, hc, .cons hM hall⟩

/-- **Monotone-measure rule.**  A measure that no step lowers is not lowered by the run. -/
theorem le {α : Type*} [Preorder α] {f : σ → α} (h : Run step s tr s')
    (hstep : ∀ x ∈ tr, step x.pre x.event x.post → f x.pre ≤ f x.post) : f s ≤ f s' := by
  induction h with
  | nil => exact le_refl _
  | cons hs _ ih =>
    refine le_trans (hstep _ List.mem_cons_self hs) (ih ?_)
    intro x hx
    exact hstep x (List.mem_cons_of_mem _ hx)

/-- **Last-change rule.**  A property that holds at the end of a run has held all along, or
was established by some step and kept by every step after that one. -/
theorem last_change {Q : σ → Prop} (h : Run step s tr s') (hQ : Q s') :
    (Q s ∧ ∀ z ∈ tr, Q z.pre ∧ Q z.post) ∨
      ∃ before y between, tr = before ++ y :: between ∧ ¬ Q y.pre ∧ Q y.post ∧
        ∀ z ∈ between, Q z.pre ∧ Q z.post := by
  induction h with
  | nil => exact .inl ⟨hQ, by simp⟩
  | @cons s t s' e tr _ _ ih =>
    rcases ih hQ with ⟨ht, hkeep⟩ | ⟨p, y, q, rfl, hy, hy', hq⟩
    · by_cases hs : Q s
      · refine .inl ⟨hs, ?_⟩
        intro z hz
        rcases List.mem_cons.mp hz with rfl | hz
        · exact ⟨hs, ht⟩
        · exact hkeep z hz
      · exact .inr ⟨[], ⟨s, e, t⟩, tr, rfl, hs, ht, hkeep⟩
    · exact .inr ⟨⟨s, e, t⟩ :: p, y, q, rfl, hy, hy', hq⟩

end Run

/-- A loop with an early exit that went through is a run, one transition per element. -/
theorem run_of_foldlM {κ : Type u} {f : σ → ε → Except κ σ} {l : List ε} {s s' : σ}
    (h : l.foldlM f s = .ok s') :
    ∃ tr, Run (fun s e s' => f s e = .ok s') s tr s' ∧ tr.map Transition.event = l := by
  induction l generalizing s with
  | nil =>
    cases h
    exact ⟨[], .nil _, rfl⟩
  | cons e l ih =>
    rw [List.foldlM_cons] at h
    cases ht : f s e with
    | error k =>
      rw [ht] at h
      cases h
    | ok t =>
      rw [ht] at h
      obtain ⟨tr, hrun, htr⟩ := ih h
      exact ⟨⟨s, e, t⟩ :: tr, .cons ht hrun, by rw [List.map_cons, htr]⟩

end Roshi.Lib
