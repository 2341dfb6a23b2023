import Mathlib.Data.Finset.Insert
import Mathlib.Logic.Function.Basic

/-! Forgetting after `n` ticks, twice: by counting the ticks since each value was last added, and
by `n` buckets in rotation, of which each tick empties the next and adds go to the current one. -/
namespace AeProxy.Lib
variable {α : Type*}

/-- How many ticks ago a value was last added, if it is still remembered. -/
abbrev Recency (α : Type*) := α → Option Nat

namespace Recency

def touch [DecidableEq α] (r : Recency α) (v : α) : Recency α := Function.update r v (some 0)

/-- What has reached `n` ticks is forgotten. -/
def tick (n : Nat) (r : Recency α) : Recency α :=
  fun v => (r v).bind fun k => if k + 1 < n then some (k + 1) else none

@[simp] theorem touch_self [DecidableEq α] (r : Recency α) (v : α) : r.touch v v = some 0 :=
  Function.update_self v _ r

theorem touch_of_ne [DecidableEq α] (r : Recency α) {v w : α} (h : w ≠ v) : r.touch v w = r w :=
  Function.update_of_ne h _ r

theorem tick_eq_some (n : Nat) (r : Recency α) (v : α) (k : Nat) :
    r.tick n v = some k ↔ ∃ j, r v = some j ∧ j + 1 < n ∧ j + 1 = k := by
  simp [tick, Option.bind_eq_some_iff]

end Recency

/-- Which bucket was current `k` ticks before `i`, and how many ticks ago bucket `k` was. -/
def back (n i k : Nat) : Nat := if k ≤ i then i - k else i + n - k

/-- The bucket after `i`. -/
def nextSlot (n i : Nat) : Nat := if i + 1 = n then 0 else i + 1

theorem back_lt {n i k : Nat} (hi : i < n) (hk : k < n) : back n i k < n := by
  unfold back
  split <;> omega

@[simp] theorem back_zero (n i : Nat) : back n i 0 = i := by simp [back]

theorem nextSlot_lt {n i : Nat} (hi : i < n) : nextSlot n i < n := by
  unfold nextSlot
  split <;> omega

/-- Seen from the next bucket, every other one is one tick older. -/
theorem back_nextSlot {n i j : Nat} (hi : i < n) (hj : j < n) (h : j ≠ nextSlot n i) :
    back n (nextSlot n i) j = back n i j + 1 := by
  have hn : nextSlot n i = 0 ∧ i + 1 = n ∨ nextSlot n i = i + 1 := by
    unfold nextSlot
    split <;> omega
  unfold back
  split <;> split <;> omega

theorem back_nextSlot_succ {n i k : Nat} (hk : k + 1 < n) :
    back n (nextSlot n i) (k + 1) = back n i k := by
  unfold back nextSlot
  split <;> split <;> split <;> omega

theorem back_ne_nextSlot {n i k : Nat} (hk : k + 1 < n) :
    back n i k ≠ nextSlot n i := by
  unfold back nextSlot
  split <;> split <;> omega

/-- The buckets hold what is remembered: a value lies in the bucket that was current when it was
last added, and in none that was current only after that. -/
structure Rotating (n i : Nat) (bucket : Nat → Finset α) (r : Recency α) : Prop where
  index_lt : i < n
  stored : ∀ v k, r v = some k → k < n ∧ v ∈ bucket (back n i k)
  recent : ∀ j < n, ∀ v ∈ bucket j, ∃ k, r v = some k ∧ k ≤ back n i j

namespace Rotating
variable {n i : Nat} {bucket : Nat → Finset α} {r : Recency α}

theorem empty {n i : Nat} (hi : i < n) {bucket : Nat → Finset α} (h : ∀ j < n, bucket j = ∅) :
    Rotating n i bucket fun _ => none where
  index_lt := hi
  stored v k hk := by cases hk
  recent j hj v hv := by simp [h j hj] at hv

/-- In some bucket exactly if remembered. -/
theorem mem_iff (h : Rotating n i bucket r) (v : α) :
    (∃ j < n, v ∈ bucket j) ↔ r v ≠ none := by
  constructor
  · rintro ⟨j, hj, hv⟩
    obtain ⟨k, hk, _⟩ := h.recent j hj v hv
    simp [hk]
  · intro hr
    obtain ⟨k, hk⟩ := Option.ne_none_iff_exists'.mp hr
    obtain ⟨hkn, hv⟩ := h.stored v k hk
    exact ⟨_, back_lt h.index_lt hkn, hv⟩

theorem touch [DecidableEq α] (h : Rotating n i bucket r) (v : α) {bucket' : Nat → Finset α}
    (hcurr : bucket' i = insert v (bucket i)) (hrest : ∀ j ≠ i, bucket' j = bucket j) :
    Rotating n i bucket' (r.touch v) where
  index_lt := h.index_lt
  stored w k hk := by
    rcases eq_or_ne w v with rfl | hw
    · obtain rfl : 0 = k := by simpa using hk
      exact ⟨Nat.zero_lt_of_lt h.index_lt, by simp [hcurr]⟩
    · rw [r.touch_of_ne hw] at hk
      obtain ⟨hkn, hm⟩ := h.stored w k hk
      refine ⟨hkn, ?_⟩
      rcases eq_or_ne (back n i k) i with hj | hj
      · rw [hj] at hm ⊢
        exact hcurr ▸ Finset.mem_insert_of_mem hm
      · exact hrest _ hj ▸ hm
  recent j hj w hm := by
    rcases eq_or_ne w v with rfl | hw
    · exact ⟨0, r.touch_self w, Nat.zero_le _⟩
    · rw [r.touch_of_ne hw]
      rcases eq_or_ne j i with rfl | hji
      · rw [hcurr, Finset.mem_insert, or_iff_right hw] at hm
        exact h.recent j hj w hm
      · exact h.recent j hj w (hrest j hji ▸ hm)

theorem tick (h : Rotating n i bucket r) {bucket' : Nat → Finset α}
    (hcurr : bucket' (nextSlot n i) = ∅) (hrest : ∀ j ≠ nextSlot n i, bucket' j = bucket j) :
    Rotating n (nextSlot n i) bucket' (r.tick n) where
  index_lt := nextSlot_lt h.index_lt
  stored v k hk := by
    obtain ⟨j, hj, hjn, rfl⟩ := (r.tick_eq_some n v k).mp hk
    refine ⟨hjn, ?_⟩
    rw [back_nextSlot_succ hjn, hrest _ (back_ne_nextSlot hjn)]
    exact (h.stored v j hj).2
  recent j hj v hm := by
    have hne : j ≠ nextSlot n i := by
      rintro rfl
      simp [hcurr] at hm
    obtain ⟨k, hk, hle⟩ := h.recent j hj v (hrest j hne ▸ hm)
    have hb := back_nextSlot h.index_lt hj hne
    have hlt := back_lt (nextSlot_lt h.index_lt) hj
    exact ⟨k + 1, (r.tick_eq_some n v _).mpr ⟨k, hk, by omega, rfl⟩, by omega⟩

end Rotating
end AeProxy.Lib
