import Mathlib.Data.List.Basic

/-! Logs of which every entry meets a condition on what was logged before it. -/
namespace AeProxy.Lib
variable {α : Type*}

def Each (P : List α → α → Prop) (log : List α) : Prop :=
  ∀ before a later, log = before ++ a :: later → P before a

variable {P Q : List α → α → Prop} {log out : List α}

theorem each_nil : Each P [] := fun _ _ _ h => absurd h.symm (by simp)

theorem each_append : Each P (log ++ out) ↔ Each P log ∧ Each (fun before => P (log ++ before)) out := by
  constructor
  · intro h
    constructor
    · rintro before a later rfl
      exact h before a (later ++ out) (by rw [List.append_assoc, List.cons_append])
    · rintro before a later rfl
      exact h (log ++ before) a later (by rw [List.append_assoc])
  · rintro ⟨hlog, hout⟩ before a later h
    rcases List.append_eq_append_iff.mp h with ⟨as, rfl, he⟩ | ⟨bs, hb, he⟩
    · exact hout as a later he
    · cases bs with
      | nil =>
        rw [List.append_nil] at hb
        subst hb
        have ha : P (log ++ []) a := hout [] a later he.symm
        rwa [List.append_nil] at ha
      | cons b bs =>
        obtain ⟨rfl, rfl⟩ := List.cons.inj he
        exact hlog before a bs hb

theorem each_singleton {a : α} : Each P [a] ↔ P [] a := by
  constructor
  · exact fun h => h [] a [] rfl
  · intro h before b later he
    obtain ⟨rfl, hb⟩ | ⟨before, rfl, hb⟩ := List.cons_eq_append_iff.mp he
    · obtain rfl := (List.cons.inj hb).1
      exact h
    · simp at hb

/-- The entry logged last. -/
theorem each_concat {a : α} : Each P (log ++ [a]) ↔ Each P log ∧ P log a := by
  rw [each_append, each_singleton, List.append_nil]

end AeProxy.Lib
