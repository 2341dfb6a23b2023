import AeProxy.Lib.Loop
import Mathlib.Data.List.Induction

/-! Readers fed by chunks. One call takes an item off the front of a buffer or reports
that it needs more; draining repeats the call until then. A reader whose answers are
stable under appending delivers the same items for every way of cutting the stream. -/
namespace AeProxy.Lib
variable {α β : Type*}

/-- One call on a buffer: an item, if there is one, and what stays buffered. -/
structure Reader (α β : Type*) where
  next : List α → Option β × List α
  suffix : ∀ b, (next b).2 <:+ b
  shrinks : ∀ b x r, next b = (some x, r) → r.length < b.length

namespace Reader

/-- Repeat the call until it delivers nothing, collecting the items in order. -/
def drainLoop (R : Reader α β) : Loop (List β × List α) (List β × List α) where
  body s :=
    match R.next s.2 with
    | (some x, r) => .again (s.1 ++ [x], r)
    | (none, r) => .leave (s.1, r)
  measure s := s.2.length
  falls s s' h := by
    match hn : R.next s.2 with
    | (none, r) => simp [hn] at h
    | (some x, r) =>
      simp only [hn, Pass.again.injEq] at h
      subst h
      exact R.shrinks _ _ _ hn

def drain (R : Reader α β) (b : List α) : List β × List α := R.drainLoop.run ([], b)

private theorem drainLoop_acc (R : Reader α β) (s : List β × List α) :
    R.drainLoop.run s = (s.1 ++ (R.drain s.2).1, (R.drain s.2).2) := by
  suffices h : ∀ s r, R.drainLoop.run s = r → ∀ pre,
      R.drainLoop.run (pre ++ s.1, s.2) = (pre ++ r.1, r.2) by
    simpa [drain] using h ([], s.2) _ rfl s.1
  intro s
  refine R.drainLoop.run_induction (motive := fun s out => ∀ r, out = r → ∀ pre,
    R.drainLoop.run (pre ++ s.1, s.2) = (pre ++ r.1, r.2)) ?_ ?_ s
  · rintro s _ hl r rfl pre
    match hn : R.next s.2 with
    | (some x, r') => simp [drainLoop, hn] at hl
    | (none, r') =>
      obtain rfl : (s.1, r') = _ := by simpa [drainLoop, hn] using hl
      exact R.drainLoop.run_leave (by simp [drainLoop, hn])
  · rintro s s' ha ih r rfl pre
    match hn : R.next s.2 with
    | (none, r') => simp [drainLoop, hn] at ha
    | (some x, r') =>
      obtain rfl : (s.1 ++ [x], r') = s' := by simpa [drainLoop, hn] using ha
      have hb : R.drainLoop.body (pre ++ s.1, s.2) = .again (pre ++ (s.1 ++ [x]), r') := by
        simp [drainLoop, hn]
      rw [R.drainLoop.run_again hb]
      exact ih _ rfl pre

theorem drain_none (R : Reader α β) {b r : List α} (h : R.next b = (none, r)) :
    R.drain b = ([], r) :=
  R.drainLoop.run_leave (by simp [drainLoop, h])

theorem drain_some (R : Reader α β) {b r : List α} {x : β} (h : R.next b = (some x, r)) :
    R.drain b = (x :: (R.drain r).1, (R.drain r).2) := by
  have hb : R.drain b = R.drainLoop.run ([x], r) :=
    R.drainLoop.run_again (by simp [drainLoop, h])
  rw [hb, drainLoop_acc]
  rfl

/-- Draining, by the answer of each call. -/
theorem drain_induction (R : Reader α β) {motive : List α → Prop}
    (none : ∀ b r, R.next b = (none, r) → motive b)
    (some : ∀ b x r, R.next b = (some x, r) → motive r → motive b) (b : List α) : motive b := by
  induction h : b.length using Nat.strongRecOn generalizing b with
  | _ n ih =>
    match hn : R.next b with
    | (.none, r) => exact none b r hn
    | (.some x, r) => exact some b x r hn (ih _ (h ▸ R.shrinks _ _ _ hn) r rfl)

theorem next_nil (R : Reader α β) : R.next [] = (none, []) := by
  have hs := List.suffix_nil.mp (R.suffix [])
  match hn : R.next [] with
  | (none, r) => simpa [hn] using hs
  | (some x, r) => exact absurd (R.shrinks _ _ _ hn) (by simp)

/-- Append each chunk to the buffer and drain it, from an empty buffer. -/
def feed (R : Reader α β) (chunks : List (List α)) : List β × List α :=
  chunks.foldl (fun s c => (s.1 ++ (R.drain (s.2 ++ c)).1, (R.drain (s.2 ++ c)).2)) ([], [])

/-- The answer on `b` survives the further bytes `t`: an item stays the item, and what a call
that needs more has dropped makes no difference later. -/
def StableAt (R : Reader α β) (good : List α → Prop) (b t : List α) : Prop :=
  match R.next b with
  | (some x, r) => good (r ++ t) ∧ R.next (b ++ t) = (some x, r ++ t)
  | (none, r) => good (r ++ t) ∧ R.next (r ++ t) = R.next (b ++ t)

theorem stableAt_some {R : Reader α β} {good : List α → Prop} {b r : List α} {x : β}
    (h : R.next b = (some x, r)) (t : List α) :
    R.StableAt good b t ↔ good (r ++ t) ∧ R.next (b ++ t) = (some x, r ++ t) := by
  rw [StableAt, h]

theorem stableAt_none {R : Reader α β} {good : List α → Prop} {b r : List α}
    (h : R.next b = (none, r)) (t : List α) :
    R.StableAt good b t ↔ good (r ++ t) ∧ R.next (r ++ t) = R.next (b ++ t) := by
  rw [StableAt, h]

/-- On good buffers every answer survives. -/
structure StableOn (R : Reader α β) (good : List α → Prop) : Prop where
  head : ∀ b t, good (b ++ t) → good b
  stable : ∀ b t, good (b ++ t) → R.StableAt good b t

namespace StableOn
variable {R : Reader α β} {good : List α → Prop}

theorem drain_append (h : R.StableOn good) (b t : List α) (hg : good (b ++ t)) :
    good ((R.drain b).2 ++ t) ∧ R.drain (b ++ t) =
      ((R.drain b).1 ++ (R.drain ((R.drain b).2 ++ t)).1, (R.drain ((R.drain b).2 ++ t)).2) := by
  induction b using R.drain_induction with
  | none b r hn =>
    obtain ⟨hr, he⟩ := (stableAt_none hn t).mp (h.stable b t hg)
    rw [R.drain_none hn]
    refine ⟨hr, ?_⟩
    match hm : R.next (b ++ t) with
    | (none, u) => rw [R.drain_none hm, R.drain_none (he.trans hm)]; rfl
    | (some x, u) => rw [R.drain_some hm, R.drain_some (he.trans hm)]; rfl
  | some b x r hn ih =>
    obtain ⟨hr, he⟩ := (stableAt_some hn t).mp (h.stable b t hg)
    obtain ⟨hd, hi⟩ := ih hr
    rw [R.drain_some hn, R.drain_some he, hi]
    exact ⟨hd, by simp⟩

/-- A call on what draining left delivers nothing and changes nothing. -/
theorem next_drained (h : R.StableOn good) (b : List α) (hg : good b) :
    R.next (R.drain b).2 = (none, (R.drain b).2) := by
  induction b using R.drain_induction with
  | none b r hn =>
    have he := ((stableAt_none hn []).mp (h.stable b [] (by simpa using hg))).2
    rw [R.drain_none hn]
    simpa [hn] using he
  | some b x r hn ih =>
    have hr := ((stableAt_some hn []).mp (h.stable b [] (by simpa using hg))).1
    rw [R.drain_some hn]
    exact ih (by simpa using hr)

/-- Feeding a good stream in chunks delivers what one drain of the whole stream delivers. -/
theorem feed_eq_drain (h : R.StableOn good) (chunks : List (List α)) (hg : good chunks.flatten) :
    R.feed chunks = R.drain chunks.flatten := by
  have hstart : R.feed [] = R.drain [] := (R.drain_none R.next_nil).symm
  induction chunks using List.reverseRecOn with
  | nil => exact hstart
  | append_singleton cs c ih =>
    rw [List.flatten_concat] at hg ⊢
    have hd := h.drain_append _ c hg
    rw [feed, List.foldl_append, ← feed, ih (h.head _ _ hg), hd.2]
    rfl

end StableOn
end Reader
end AeProxy.Lib
