import AeProxy.Lib.System
import Mathlib.Data.List.Forall2

/-! One system carried out by another: each step of the one is a run of the other between related
states, so that every run of the one is a run of the other, and what holds of the other's runs can
be read off. -/
namespace AeProxy.Lib.Step
variable {σ τ ε δ : Type*}

/-- The other system's events a run comes to, given those of each step. -/
def trace (step : Step σ ε) (events : σ → ε → List δ) : σ → List ε → List δ
  | _, [] => []
  | s, e :: es => events s e ++ (step s e).elim [] fun t => trace step events t es

structure Simulates (step : Step σ ε) (step' : Step τ δ) (R : σ → τ → Prop)
    (events : σ → ε → List δ) : Prop where
  step : ∀ s u e t, R s u → step s e = some t → ∃ v, step'.run u (events s e) = some v ∧ R t v

variable {step : Step σ ε} {step' : Step τ δ} {R : σ → τ → Prop} {events : σ → ε → List δ}
  {s t : σ} {u : τ} {es es' : List ε}

instance decidableThroughout {C : σ → ε → Prop} [∀ s e, Decidable (C s e)] :
    ∀ s es, Decidable (step.Throughout C s es)
  | _, [] => .isTrue trivial
  | s, e :: es =>
    have : ∀ t, Decidable (step.Throughout C t es) := fun t => decidableThroughout t es
    inferInstanceAs (Decidable (C s e ∧ ∀ t ∈ step s e, step.Throughout C t es))

theorem trace_cons {e : ε} (h : step s e = some t) :
    step.trace events s (e :: es) = events s e ++ step.trace events t es := by
  rw [trace, h]
  rfl

theorem throughout_append {C : σ → ε → Prop} : step.Throughout C s (es ++ es') ↔
    step.Throughout C s es ∧ ∀ t, step.run s es = some t → step.Throughout C t es' := by
  induction es generalizing s with
  | nil => exact ⟨fun h => ⟨trivial, fun t ht => Option.some.inj ht ▸ h⟩, fun h => h.2 s rfl⟩
  | cons e es ih =>
    constructor
    · rintro ⟨hc, h⟩
      refine ⟨⟨hc, fun s' hs' => (ih.mp (h s' hs')).1⟩, fun t ht => ?_⟩
      obtain ⟨s', hs', ht⟩ := run_cons_eq_some.mp ht
      exact (ih.mp (h s' hs')).2 t ht
    · rintro ⟨⟨hc, h⟩, h'⟩
      exact ⟨hc, fun s' hs' => ih.mpr ⟨h s' hs', fun t ht =>
        h' t (run_cons_eq_some.mpr ⟨s', hs', ht⟩)⟩⟩

/-- A run whose steps meet one condition meets the other that this entails. -/
theorem throughout_of_throughout {C D : σ → ε → Prop} {I : σ → Prop}
    (h : ∀ s e t, I s → C s e → step s e = some t → D s e ∧ I t) (hs : I s)
    (hr : step.run s es = some t) (hc : step.Throughout C s es) : step.Throughout D s es := by
  induction es generalizing s with
  | nil => exact trivial
  | cons e es ih =>
    obtain ⟨s', hs', hr'⟩ := run_cons_eq_some.mp hr
    obtain ⟨hd, hi⟩ := h s e s' hs hc.1 hs'
    exact .cons hd hs' (ih hi hr' (hc.2 s' hs'))

/-- Damage that no step repairs, as long as the steps meet another condition. -/
theorem throughout_of_not_bad_of {C D : σ → ε → Prop} {I Bad : σ → Prop}
    (hbad : ∀ s e t, I s → D s e → ¬ C s e → step s e = some t → Bad t)
    (hkeep : ∀ s e t, Bad s → D s e → step s e = some t → Bad t)
    (h : ∀ s e t, I s → step s e = some t → I t) (hs : I s) (hr : step.run s es = some t)
    (hd : step.Throughout D s es) (ht : ¬ Bad t) : step.Throughout C s es := by
  induction es generalizing s with
  | nil => exact trivial
  | cons e es ih =>
    obtain ⟨s', hs', hr'⟩ := run_cons_eq_some.mp hr
    refine .cons ?_ hs' (ih (h s e s' hs hs') hr' (hd.2 s' hs'))
    by_contra hc
    exact ht (run_invariant_of hkeep (hbad s e s' hs hd.1 hc hs') (hd.2 s' hs') hr')

/-- If every step that meets the condition is taken, and carried out by the other system, so is every
run of such steps. -/
theorem run_simulated {C : σ → ε → Prop} {events : ε → List δ}
    (h : ∀ s u e, R s u → C s e →
      ∃ t v, step s e = some t ∧ step'.run u (events e) = some v ∧ R t v)
    (hr : R s u) (hc : step.Throughout C s es) :
    ∃ t v, step.run s es = some t ∧ step'.run u (es.flatMap events) = some v ∧ R t v := by
  induction es generalizing s u with
  | nil => exact ⟨s, u, rfl, rfl, hr⟩
  | cons e es ih =>
    obtain ⟨s', u', hs', hu', hr'⟩ := h s u e hr hc.1
    obtain ⟨t, v, ht, hv, hrt⟩ := ih hr' (hc.2 s' hs')
    exact ⟨t, v, run_cons_eq_some.mpr ⟨s', hs', ht⟩, run_append_eq_some.mpr ⟨u', hu', hv⟩, hrt⟩

/-- If every step that meets the condition and is taken is carried out by the other system, so is
every run of such steps. -/
theorem run_simulated_of {C : σ → ε → Prop}
    (h : ∀ s u e t, R s u → C s e → step s e = some t →
      ∃ v, step'.run u (events s e) = some v ∧ R t v)
    (hr : R s u) (hc : step.Throughout C s es) (ht : step.run s es = some t) :
    ∃ v, step'.run u (step.trace events s es) = some v ∧ R t v := by
  induction es generalizing s u with
  | nil =>
    cases ht
    exact ⟨u, rfl, hr⟩
  | cons e es ih =>
    obtain ⟨s', hs', ht⟩ := run_cons_eq_some.mp ht
    obtain ⟨v, hv, hr'⟩ := h s u e s' hr hc.1 hs'
    obtain ⟨w, hw, hrt⟩ := ih hr' (hc.2 s' hs') ht
    rw [trace_cons hs']
    exact ⟨w, run_append_eq_some.mpr ⟨v, hv, hw⟩, hrt⟩

/-- The first step that misses a condition. -/
theorem exists_of_not_throughout {C : σ → ε → Prop} (hr : step.run s es = some t)
    (h : ¬ step.Throughout C s es) : ∃ before e after s', es = before ++ e :: after ∧
      step.run s before = some s' ∧ step.Throughout C s before ∧ ¬ C s' e := by
  induction es generalizing s with
  | nil => exact absurd trivial h
  | cons e es ih =>
    obtain ⟨u, hu, hr⟩ := run_cons_eq_some.mp hr
    by_cases hc : C s e
    · obtain ⟨before, e', after, s', rfl, hs', hbefore, hn⟩ := ih hr fun hes => h (.cons hc hu hes)
      exact ⟨e :: before, e', after, s', rfl, run_cons_eq_some.mpr ⟨u, hu, hs'⟩, .cons hc hu hbefore, hn⟩
    · exact ⟨[], e, es, s, rfl, rfl, trivial, hc⟩

section related
variable {E : ε → δ → Prop} {ds : List δ}

/-- Related systems that take related events go the same way. -/
theorem run_related
    (h : ∀ s u e d t, R s u → E e d → step s e = some t → ∃ v, step' u d = some v ∧ R t v)
    (hr : R s u) (hes : List.Forall₂ E es ds) (ht : step.run s es = some t) :
    ∃ v, step'.run u ds = some v ∧ R t v := by
  induction hes generalizing s u with
  | nil =>
    cases ht
    exact ⟨u, rfl, hr⟩
  | cons he hes ih =>
    obtain ⟨s', hs', ht⟩ := run_cons_eq_some.mp ht
    obtain ⟨u', hu', hr'⟩ := h _ _ _ _ _ hr he hs'
    obtain ⟨v, hv, hrt⟩ := ih hr' ht
    exact ⟨v, run_cons_eq_some.mpr ⟨u', hu', hv⟩, hrt⟩

theorem throughout_related {C : σ → ε → Prop} {C' : τ → δ → Prop}
    (h : ∀ s u e d t, R s u → E e d → step s e = some t → ∃ v, step' u d = some v ∧ R t v)
    (hc : ∀ s u e d, R s u → E e d → C s e → C' u d) (hr : R s u) (hes : List.Forall₂ E es ds)
    (ht : step.run s es = some t) (hC : step.Throughout C s es) : step'.Throughout C' u ds := by
  induction hes generalizing s u with
  | nil => exact trivial
  | cons he hes ih =>
    obtain ⟨s', hs', ht⟩ := run_cons_eq_some.mp ht
    obtain ⟨u', hu', hr'⟩ := h _ _ _ _ _ hr he hs'
    exact .cons (hc _ _ _ _ hr he hC.1) hu' (ih hr' ht (hC.2 s' hs'))

end related

namespace Simulates

/-- Every run of the one system is a run of the other. -/
theorem run (h : Simulates step step' R events) (hr : R s u) (ht : step.run s es = some t) :
    ∃ v, step'.run u (step.trace events s es) = some v ∧ R t v :=
  run_simulated_of (fun s u e t hr _ hs => h.step s u e t hr hs) hr
    (throughout_of_forall fun _ _ _ => trivial) ht

/-- A condition on the steps of the one system under which those of the other meet theirs. -/
theorem throughout {C : σ → ε → Prop} {C' : τ → δ → Prop} (h : Simulates step step' R events)
    (hc : ∀ s u e, R s u → C s e → step'.Throughout C' u (events s e)) (hr : R s u)
    (ht : step.run s es = some t) (hes : step.Throughout C s es) :
    step'.Throughout C' u (step.trace events s es) := by
  induction es generalizing s u with
  | nil => exact trivial
  | cons e es ih =>
    obtain ⟨s', hs', ht⟩ := run_cons_eq_some.mp ht
    obtain ⟨v, hv, hr'⟩ := h.step s u e s' hr hs'
    have hrest := ih hr' ht (hes.2 s' hs')
    rw [trace_cons hs']
    exact throughout_append.mpr ⟨hc s u e hr hes.1, fun w hw =>
      Option.some.inj (hv.symm.trans hw) ▸ hrest⟩

end Simulates
end AeProxy.Lib.Step
