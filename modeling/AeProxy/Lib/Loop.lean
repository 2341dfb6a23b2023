import Mathlib.Data.Nat.Notation
import Mathlib.Tactic.TypeStar

/-! Loops whose body leaves with a result or goes round with a new state.
A measure that falls on every round makes the loop total and bounds its passes. -/
namespace AeProxy.Lib
variable {σ ρ : Type*}

/-- What one pass through a loop body does. -/
inductive Pass (σ ρ : Type*) where
  | leave (result : ρ)
  | again (state : σ)

/-- Run at most the given number of passes. -/
def passes (body : σ → Pass σ ρ) : Nat → σ → Option ρ
  | 0, _ => none
  | n+1, s =>
    match body s with
    | .leave r => some r
    | .again s' => passes body n s'

/-- The same for a body that may fault instead. -/
def checkedPasses (body : σ → Option (Pass σ ρ)) : Nat → σ → Option ρ
  | 0, _ => none
  | n+1, s =>
    match body s with
    | some (.leave r) => some r
    | some (.again s') => checkedPasses body n s'
    | none => none

/-- A body that never faults runs as if nothing were checked. -/
theorem checkedPasses_of_some {body : σ → Option (Pass σ ρ)} {plain : σ → Pass σ ρ}
    (h : ∀ s, body s = some (plain s)) (n : Nat) (s : σ) :
    checkedPasses body n s = passes plain n s := by
  induction n generalizing s with
  | zero => rfl
  | succ n ih =>
    rw [checkedPasses, passes, h]
    cases plain s with
    | leave r => rfl
    | again s' => exact ih s'

/-- A loop body carrying the measure that falls on every round. -/
structure Loop (σ ρ : Type*) where
  body : σ → Pass σ ρ
  measure : σ → Nat
  falls : ∀ s s', body s = .again s' → measure s' < measure s

namespace Loop

theorem passes_isSome (l : Loop σ ρ) (n : Nat) (s : σ) (h : l.measure s < n) :
    (passes l.body n s).isSome := by
  induction n generalizing s with
  | zero => omega
  | succ n ih =>
    rw [passes]
    cases he : l.body s with
    | leave r => rfl
    | again s' =>
      have hf := l.falls s s' he
      exact ih s' (by omega)

/-- The result of the loop; the measure bounds the passes that are needed. -/
def run (l : Loop σ ρ) (s : σ) : ρ :=
  (passes l.body (l.measure s + 1) s).get (l.passes_isSome _ s (Nat.lt_succ_self _))

theorem passes_run (l : Loop σ ρ) (s : σ) : passes l.body (l.measure s + 1) s = some (l.run s) :=
  (Option.some_get _).symm

private theorem passes_mono (body : σ → Pass σ ρ) (m n : Nat) (s : σ) (r : ρ) (h : m ≤ n)
    (hr : passes body m s = some r) : passes body n s = some r := by
  induction m generalizing n s with
  | zero => simp [passes] at hr
  | succ m ih =>
    obtain ⟨n, rfl⟩ : ∃ k, n = k + 1 := ⟨n - 1, by omega⟩
    rw [passes] at hr ⊢
    cases he : body s with
    | leave r' => simpa only [he] using hr
    | again s' =>
      simp only [he] at hr
      exact ih n s' (by omega) hr

/-- Any number of passes that returns a result returns the loop's result. -/
theorem run_of_passes (l : Loop σ ρ) {n : Nat} {s : σ} {r : ρ}
    (h : passes l.body n s = some r) : l.run s = r := by
  have hs := passes_mono l.body _ (max n (l.measure s + 1)) s _ (Nat.le_max_right _ _) (l.passes_run s)
  have hr := passes_mono l.body _ (max n (l.measure s + 1)) s _ (Nat.le_max_left _ _) h
  exact Option.some.inj (hs.symm.trans hr)

theorem run_leave (l : Loop σ ρ) {s : σ} {r : ρ} (h : l.body s = .leave r) : l.run s = r :=
  l.run_of_passes (show passes l.body 1 s = some r by simp only [passes, h])

theorem run_again (l : Loop σ ρ) {s s' : σ} (h : l.body s = .again s') : l.run s = l.run s' :=
  l.run_of_passes (show passes l.body (l.measure s' + 1 + 1) s = _ by
    simpa only [passes, h] using l.passes_run s')

/-- Induction along the passes of a run. -/
theorem run_induction (l : Loop σ ρ) {motive : σ → ρ → Prop}
    (leave : ∀ s r, l.body s = .leave r → motive s r)
    (again : ∀ s s', l.body s = .again s' → motive s' (l.run s') → motive s (l.run s'))
    (s : σ) : motive s (l.run s) := by
  induction h : l.measure s using Nat.strongRecOn generalizing s with
  | _ n ih =>
    cases he : l.body s with
    | leave r => exact l.run_leave he ▸ leave s r he
    | again s' =>
      rw [l.run_again he]
      exact again s s' he (ih _ (h ▸ l.falls s s' he) s' rfl)

/-- An invariant of every round that yields the postcondition on leaving. -/
theorem run_invariant (l : Loop σ ρ) (inv : σ → Prop) (post : ρ → Prop)
    (round : ∀ s s', inv s → l.body s = .again s' → inv s')
    (exit : ∀ s r, inv s → l.body s = .leave r → post r) (s : σ) (h : inv s) : post (l.run s) :=
  l.run_induction (motive := fun s r => inv s → post r) (fun s r he hi => exit s r hi he)
    (fun s s' he ih hi => ih (round s s' hi he)) s h

end Loop
end AeProxy.Lib
