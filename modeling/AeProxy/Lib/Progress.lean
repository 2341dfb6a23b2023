import AeProxy.Lib.System

/-! Systems that work something off: a number that every step of the work lowers, and a step that
can be taken wherever the goal has not been met. -/
namespace AeProxy.Lib

/-- The work: the events `W`, carried out where `I` holds. -/
structure Progress {σ ε : Type*} (step : Step σ ε) (W : ε → Prop) (I goal : σ → Prop)
    (left : σ → Nat) : Prop where
  keeps : ∀ s e t, I s → W e → step s e = some t → I t
  lowers : ∀ s e t, I s → W e → step s e = some t → left t < left s
  enabled : ∀ s, I s → ¬ goal s → ∃ e t, W e ∧ step s e = some t

namespace Progress
variable {σ ε : Type*} {step : Step σ ε} {W : ε → Prop} {I goal : σ → Prop} {left : σ → Nat}
  {s t : σ} {es : List ε}

theorem run (h : Progress step W I goal left) (hs : I s) (hw : ∀ e ∈ es, W e)
    (ht : step.run s es = some t) : I t ∧ left t + es.length ≤ left s := by
  induction es generalizing s with
  | nil =>
    cases ht
    exact ⟨hs, Nat.le_refl _⟩
  | cons e es ih =>
    obtain ⟨u, hu, ht⟩ := Step.run_cons_eq_some.mp ht
    have he : W e := hw e List.mem_cons_self
    obtain ⟨hit, hle⟩ := ih (h.keeps s e u hs he hu) (fun e' hm => hw e' (List.mem_cons_of_mem e hm)) ht
    refine ⟨hit, ?_⟩
    have hlt := h.lowers s e u hs he hu
    rw [List.length_cons]
    omega

/-- No run of the work is longer than what is left to do. -/
theorem length_le (h : Progress step W I goal left) (hs : I s) (hw : ∀ e ∈ es, W e)
    (ht : step.run s es = some t) : es.length ≤ left s :=
  Nat.le_trans (Nat.le_add_left ..) (h.run hs hw ht).2

/-- And one that cannot go on has met the goal. -/
theorem goal_of_done (h : Progress step W I goal left) (hs : I s) (hw : ∀ e ∈ es, W e)
    (ht : step.run s es = some t) (hd : ∀ e, W e → step t e = none) : goal t := by
  by_contra hg
  obtain ⟨e, u, he, hu⟩ := h.enabled t (h.run hs hw ht).1 hg
  cases (hd e he).symm.trans hu

/-- It can be met from everywhere. -/
theorem exists_run (h : Progress step W I goal left) (hs : I s) :
    ∃ es t, (∀ e ∈ es, W e) ∧ step.run s es = some t ∧ goal t := by
  induction hn : left s using Nat.strongRecOn generalizing s with
  | ind n ih =>
    by_cases hg : goal s
    · exact ⟨[], s, nofun, rfl, hg⟩
    · obtain ⟨e, u, he, hu⟩ := h.enabled s hs hg
      obtain ⟨es, t, hw, ht, hgt⟩ := ih (left u) (hn ▸ h.lowers s e u hs he hu)
        (h.keeps s e u hs he hu) rfl
      refine ⟨e :: es, t, fun e' hm => ?_, Step.run_cons_eq_some.mpr ⟨u, hu, ht⟩, hgt⟩
      rcases List.mem_cons.mp hm with rfl | hm
      · exact he
      · exact hw e' hm

end Progress
end AeProxy.Lib
