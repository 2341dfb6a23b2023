import Mathlib.Tactic.ByContra
import Mathlib.Tactic.TypeStar

/-! Systems that take one event after the other. A step that gives nothing is one the system
cannot take, or the fault it is checked against. -/
namespace AeProxy.Lib

/-- The state behind an event. -/
abbrev Step (σ ε : Type*) := σ → ε → Option σ

/-- The state behind an event, and what is done on the way. -/
abbrev Machine (σ ε α : Type*) := σ → ε → Option (σ × List α)

/-- The machine with a log of all it has done. -/
def Machine.logged {σ ε α : Type*} (machine : Machine σ ε α) : Step (σ × List α) ε := fun s e =>
  (machine s.1 e).map fun (t, out) => (t, s.2 ++ out)

theorem Machine.logged_eq_some {σ ε α : Type*} {machine : Machine σ ε α} {s : σ} {e : ε} {t : σ}
    {out : List α} (h : machine s e = some (t, out)) (log : List α) :
    machine.logged (s, log) e = some (t, log ++ out) :=
  congrArg (Option.map _) h

namespace Step
variable {σ ε : Type*} (step : Step σ ε)

def run : σ → List ε → Option σ
  | s, [] => some s
  | s, e :: es => (step s e).bind fun t => run t es

/-- Every step of the run meets a condition on its event and the state before it. -/
def Throughout (C : σ → ε → Prop) : σ → List ε → Prop
  | _, [] => True
  | s, e :: es => C s e ∧ ∀ t, step s e = some t → Throughout C t es

variable {step} {C : σ → ε → Prop} {I P Bad : σ → Prop} {s t : σ} {es es' : List ε}

theorem run_cons_eq_some {e : ε} :
    step.run s (e :: es) = some t ↔ ∃ s', step s e = some s' ∧ step.run s' es = some t :=
  Option.bind_eq_some_iff

theorem run_append_eq_some :
    step.run s (es ++ es') = some t ↔ ∃ u, step.run s es = some u ∧ step.run u es' = some t := by
  induction es generalizing s with
  | nil => exact ⟨fun h => ⟨s, rfl, h⟩, fun ⟨_, hs, h⟩ => Option.some.inj hs ▸ h⟩
  | cons e es ih =>
    rw [List.cons_append, run_cons_eq_some]
    constructor
    · rintro ⟨s', hs', hr⟩
      obtain ⟨u, hu, ht⟩ := ih.mp hr
      exact ⟨u, run_cons_eq_some.mpr ⟨s', hs', hu⟩, ht⟩
    · rintro ⟨u, hu, ht⟩
      obtain ⟨s', hs', hr⟩ := run_cons_eq_some.mp hu
      exact ⟨s', hs', ih.mpr ⟨u, hr, ht⟩⟩

theorem Throughout.cons {e : ε} (hc : C s e) (hs : step s e = some t)
    (h : step.Throughout C t es) : step.Throughout C s (e :: es) :=
  ⟨hc, fun _ ht => Option.some.inj (hs.symm.trans ht) ▸ h⟩

theorem Throughout.of_append (h : step.Throughout C s (es ++ es')) : step.Throughout C s es := by
  induction es generalizing s with
  | nil => exact trivial
  | cons e es ih => exact ⟨h.1, fun t ht => ih (h.2 t ht)⟩

/-- The last step's condition. -/
theorem Throughout.last {e : ε} (h : step.Throughout C s (es ++ [e]))
    (hr : step.run s es = some t) : C t e := by
  induction es generalizing s with
  | nil =>
    cases hr
    exact h.1
  | cons e' es ih =>
    obtain ⟨s', hs', hr'⟩ := run_cons_eq_some.mp hr
    exact ih (h.2 s' hs') hr'

/-- What every step meeting the condition preserves holds behind every run of such steps. -/
theorem run_invariant_of (h : ∀ s e t, I s → C s e → step s e = some t → I t) (hs : I s)
    (hc : step.Throughout C s es) (hr : step.run s es = some t) : I t := by
  induction es generalizing s with
  | nil =>
    cases hr
    exact hs
  | cons e es ih =>
    obtain ⟨s', hs', hr'⟩ := run_cons_eq_some.mp hr
    exact ih (h s e s' hs hc.1 hs') (hc.2 s' hs') hr'

/-- A condition on the events alone. -/
theorem throughout_of_forall (h : ∀ e ∈ es, ∀ s, C s e) : step.Throughout C s es := by
  induction es generalizing s with
  | nil => exact trivial
  | cons e es ih =>
    exact ⟨h e List.mem_cons_self s, fun t _ => ih fun e' he' => h e' (List.mem_cons_of_mem e he')⟩

theorem run_invariant (h : ∀ s e t, I s → step s e = some t → I t) (hs : I s)
    (hr : step.run s es = some t) : I t :=
  run_invariant_of (C := fun _ _ => True) (fun s e t hi _ => h s e t hi) hs
    (throughout_of_forall fun _ _ _ => trivial) hr

/-- If no step meeting the condition fails, no run of such steps does. -/
theorem run_total_of (h : ∀ s e, I s → C s e → ∃ t, step s e = some t ∧ I t) (hs : I s)
    (hc : step.Throughout C s es) : ∃ t, step.run s es = some t ∧ I t := by
  induction es generalizing s with
  | nil => exact ⟨s, rfl, hs⟩
  | cons e es ih =>
    obtain ⟨s', hs', hi⟩ := h s e hs hc.1
    obtain ⟨t, ht, hit⟩ := ih hi (hc.2 s' hs')
    exact ⟨t, run_cons_eq_some.mpr ⟨s', hs', ht⟩, hit⟩

/-- If a step fails exactly when it misses a condition, so does a run. -/
theorem run_isSome_iff (h : ∀ s e, (step s e).isSome ↔ C s e) :
    (step.run s es).isSome ↔ step.Throughout C s es := by
  induction es generalizing s with
  | nil => exact iff_of_true rfl trivial
  | cons e es ih =>
    rw [Throughout, ← h, run]
    cases step s e with
    | none => exact iff_of_false nofun fun hc => Bool.noConfusion hc.1
    | some t =>
      simp only [Option.bind_some, Option.isSome_some, true_and, Option.some.injEq, forall_eq']
      exact ih

/-- If a step keeps a property exactly when it meets the condition, the states along a run have it
exactly when all its steps meet the condition. -/
theorem prefixes_iff_throughout (hi : ∀ s e t, I s → P s → C s e → step s e = some t → I t)
    (hp : ∀ s e t, I s → P s → step s e = some t → (P t ↔ C s e)) (hs : I s) (hps : P s)
    (hr : step.run s es = some t) :
    (∀ before later u, es = before ++ later → step.run s before = some u → P u) ↔
      step.Throughout C s es := by
  constructor
  · intro h
    induction es generalizing s with
    | nil => exact trivial
    | cons e es ih =>
      obtain ⟨s', hs', hr'⟩ := run_cons_eq_some.mp hr
      have hps' := h [e] es s' rfl (run_cons_eq_some.mpr ⟨s', hs', rfl⟩)
      have hc := (hp s e s' hs hps hs').mp hps'
      refine ⟨hc, fun s'' hs'' => ?_⟩
      obtain rfl : s' = s'' := Option.some.inj (hs'.symm.trans hs'')
      apply ih (hi s e s' hs hps hc hs') hps' hr'
      intro before later u he hu
      exact h (e :: before) later u (by rw [he]; rfl) (run_cons_eq_some.mpr ⟨s', hs', hu⟩)
  · rintro hc before later u rfl hu
    exact (run_invariant_of (I := fun s => I s ∧ P s)
      (fun s e t hip he ht => ⟨hi s e t hip.1 hip.2 he ht, (hp s e t hip.1 hip.2 ht).mpr he⟩)
      ⟨hs, hps⟩ hc.of_append hu).2

/-- Damage no step repairs. -/
theorem throughout_of_not_bad (hbad : ∀ s e t, I s → ¬ C s e → step s e = some t → Bad t)
    (hkeep : ∀ s e t, Bad s → step s e = some t → Bad t)
    (h : ∀ s e t, I s → C s e → step s e = some t → I t) (hs : I s)
    (hr : step.run s es = some t) (ht : ¬ Bad t) : step.Throughout C s es := by
  induction es generalizing s with
  | nil => exact trivial
  | cons e es ih =>
    obtain ⟨s', hs', hr'⟩ := run_cons_eq_some.mp hr
    have hc : C s e := by
      by_contra hc
      exact ht (run_invariant hkeep (hbad s e s' hs hc hs') hr')
    refine ⟨hc, fun s'' hs'' => ?_⟩
    obtain rfl : s' = s'' := Option.some.inj (hs'.symm.trans hs'')
    exact ih (h s e s' hs hc hs') hr'

end Step
end AeProxy.Lib
