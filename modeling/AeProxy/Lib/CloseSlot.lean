import Mathlib.Data.List.ReduceOption
import Mathlib.Tactic.TypeStar

/-! Asynchronous closing: a handle is closing from the request until the loop completes it, and an
object that closes one keeps a single slot for the callback to run then. -/
namespace AeProxy.Lib
variable {σ κ : Type*}

inductive Phase where
  | opened
  | closing
  | closed
  deriving DecidableEq, Repr

/-- From the request on, also when it has been completed. -/
def Phase.isClosing : Phase → Bool
  | .opened => false
  | .closing => true
  | .closed => true

@[simp] theorem Phase.isClosing_eq_false {p : Phase} : p.isClosing = false ↔ p = .opened := by
  cases p <;> simp [Phase.isClosing]

/-- What a request does at once: ask the loop to close the handle, or run the callback. -/
inductive CloseEffect (κ : Type*) where
  | uvClose
  | complete (callback : Option κ)

def CloseEffect.invoked : CloseEffect κ → List κ
  | .uvClose => []
  | .complete callback => callback.toList

/-- Objects with a handle and a slot. Filling the slot leaves the handle alone, and the handle's
phase the slot. -/
structure CloseSlot (σ κ : Type*) where
  phase : σ → Phase
  slot : σ → Option κ
  fill : σ → Option κ → σ
  withPhase : σ → Phase → σ
  phase_fill : ∀ s callback, phase (fill s callback) = phase s
  slot_fill : ∀ s callback, slot (fill s callback) = callback
  phase_withPhase : ∀ s p, phase (withPhase s p) = p
  slot_withPhase : ∀ s p, slot (withPhase s p) = slot s

namespace CloseSlot

/-- A request fills the slot whether or not it is the first. -/
def close (m : CloseSlot σ κ) (s : σ) (callback : Option κ) : σ × CloseEffect κ :=
  let s := m.fill s callback
  if (m.phase s).isClosing = false then (m.withPhase s .closing, .uvClose)
  else (s, .complete (m.slot s))

/-- The loop has closed the handle. -/
def onClosed (m : CloseSlot σ κ) (s : σ) : σ × Option κ := (m.withPhase s .closed, m.slot s)

/-- The requests of a list one after the other, with the callbacks they run. -/
def closes (m : CloseSlot σ κ) (s : σ) : List (Option κ) → σ × List κ
  | [] => (s, [])
  | callback :: calls =>
    let (s, effect) := m.close s callback
    let (s, invoked) := m.closes s calls
    (s, effect.invoked ++ invoked)

/-- The callbacks the completion runs; only a closing handle is completed. -/
def completes (m : CloseSlot σ κ) (s : σ) : List κ :=
  if m.phase s = .closing then (m.onClosed s).2.toList else []

/-- Nothing is run before the completion, and the completion runs every callback passed. -/
def DeliversOnce (m : CloseSlot σ κ) (s : σ) (calls : List (Option κ)) : Prop :=
  (m.closes s calls).2 = [] ∧ (m.completes (m.closes s calls).1).Perm calls.reduceOption

/-- A single request, or none that passes a callback. -/
def Single (calls : List (Option κ)) : Prop :=
  calls.length ≤ 1 ∨ ∀ callback ∈ calls, callback = none

variable (m : CloseSlot σ κ) {s : σ}

theorem closes_cons (s : σ) (callback : Option κ) (calls : List (Option κ)) :
    m.closes s (callback :: calls) =
      ((m.closes (m.close s callback).1 calls).1,
        (m.close s callback).2.invoked ++ (m.closes (m.close s callback).1 calls).2) := rfl

theorem close_opened (hs : m.phase s = .opened) (callback : Option κ) :
    m.phase (m.close s callback).1 = .closing ∧ m.slot (m.close s callback).1 = callback ∧
      (m.close s callback).2 = .uvClose := by
  have hclose : m.close s callback = (m.withPhase (m.fill s callback) .closing, .uvClose) := by
    apply if_pos
    rw [m.phase_fill, hs]
    rfl
  rw [hclose]
  exact ⟨m.phase_withPhase _ _, (m.slot_withPhase _ _).trans (m.slot_fill _ _), rfl⟩

theorem close_closing (hs : m.phase s ≠ .opened) (callback : Option κ) :
    m.phase (m.close s callback).1 = m.phase s ∧ m.slot (m.close s callback).1 = callback ∧
      (m.close s callback).2 = .complete callback := by
  have hclose : m.close s callback = (m.fill s callback, .complete (m.slot (m.fill s callback))) := by
    apply if_neg
    rwa [m.phase_fill, Phase.isClosing_eq_false]
  rw [hclose]
  exact ⟨m.phase_fill _ _, m.slot_fill _ _, congrArg _ (m.slot_fill _ _)⟩

/-- On a closing handle every callback is run by the request that passes it, and the slot keeps
the last. -/
theorem closes_closing (hs : m.phase s = .closing) (calls : List (Option κ)) :
    (m.closes s calls).2 = calls.reduceOption ∧ m.phase (m.closes s calls).1 = .closing ∧
      m.slot (m.closes s calls).1 = calls.getLast?.getD (m.slot s) := by
  induction calls generalizing s with
  | nil => exact ⟨rfl, hs, rfl⟩
  | cons callback calls ih =>
    obtain ⟨hp, hslot, heff⟩ := m.close_closing (by rw [hs]; exact Phase.noConfusion) callback
    obtain ⟨hi, hp', hslot'⟩ := ih (hp.trans hs)
    rw [closes_cons]
    refine ⟨?_, hp', ?_⟩
    · rw [heff, hi]
      cases callback <;> rfl
    · rw [hslot', hslot, List.getLast?_cons, Option.getD_some]

theorem closes_opened (hs : m.phase s = .opened) (callback : Option κ) (calls : List (Option κ)) :
    (m.closes s (callback :: calls)).2 = calls.reduceOption ∧
      m.completes (m.closes s (callback :: calls)).1 = (calls.getLast?.getD callback).toList := by
  obtain ⟨hp, hslot, heff⟩ := m.close_opened hs callback
  obtain ⟨hi, hp', hslot'⟩ := m.closes_closing hp calls
  rw [closes_cons]
  refine ⟨by rw [heff, hi]; rfl, ?_⟩
  rw [completes, if_pos hp', onClosed, hslot', hslot]

theorem reduceOption_eq_nil {calls : List (Option κ)} :
    calls.reduceOption = [] ↔ ∀ callback ∈ calls, callback = none := by
  rw [List.eq_nil_iff_forall_not_mem]
  simp only [List.reduceOption_mem_iff]
  constructor
  · intro h callback hm
    cases callback with
    | none => rfl
    | some k => exact absurd hm (h k)
  · intro h k hm
    cases h _ hm

/-- Two requests deliver only if they pass nothing: the second runs its callback at once, and the
first one's is gone. -/
theorem deliversOnce_iff (hs : m.phase s = .opened) (calls : List (Option κ)) :
    m.DeliversOnce s calls ↔ Single calls := by
  cases calls with
  | nil =>
    have hnone : m.completes s = [] := by
      apply if_neg
      rw [hs]
      exact Phase.noConfusion
    refine iff_of_true ⟨rfl, ?_⟩ (.inl (Nat.zero_le 1))
    exact hnone ▸ List.Perm.refl []
  | cons callback calls =>
    obtain ⟨hearly, hlate⟩ := m.closes_opened hs callback calls
    rw [DeliversOnce, hearly, hlate]
    cases calls with
    | nil =>
      refine iff_of_true ⟨rfl, ?_⟩ (.inl (Nat.le_refl 1))
      cases callback <;> exact List.Perm.refl _
    | cons callback' calls =>
      have hlen : ¬ (callback :: callback' :: calls).length ≤ 1 := by simp
      have hlast (h : ∀ c ∈ callback' :: calls, c = none) :
          (callback' :: calls).getLast?.getD callback = none := by
        rw [List.getLast?_eq_some_getLast (List.cons_ne_nil _ _)]
        exact h _ (List.getLast_mem _)
      rw [Single, or_iff_right hlen, reduceOption_eq_nil]
      constructor
      · rintro ⟨hnone, hperm⟩
        rw [hlast hnone] at hperm
        exact reduceOption_eq_nil.mp hperm.symm.eq_nil
      · intro hall
        have hnone : ∀ c ∈ callback' :: calls, c = none := fun c hc =>
          hall c (List.mem_cons_of_mem _ hc)
        refine ⟨hnone, ?_⟩
        rw [hlast hnone, reduceOption_eq_nil.mpr hall]
        exact List.Perm.refl _

end CloseSlot
end AeProxy.Lib
