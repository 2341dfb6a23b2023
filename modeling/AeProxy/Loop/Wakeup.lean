import AeProxy.Loop.EventLoop

/-! Posted tasks are run once and in order, and as long as the loop is not stopped some wakeup is
still to come while a task waits in the queue. -/
namespace AeProxy.EventLoop
open Lib
variable {α : Type*} {s t : EventLoop α}

/-- The tasks pushed are those run, those of the batch and those in the queue, in this order. -/
structure Fifo (s : EventLoop α) : Prop where
  order : s.executed ++ s.batch ++ s.callbacks = s.posted
  batch : s.delivery ≠ .draining → s.batch = []

/-- Between the push of a task and the signal for it. -/
def Poster.InFlight : Poster α → Prop
  | .idle => False
  | .pushing _ => False
  | .pushed => True
  | .sending => True

/-- A signal is pending, or a poster or `init` has yet to send one. -/
def Pending (s : EventLoop α) : Prop :=
  s.signal = true ∨ (∃ thread, (s.poster thread).InFlight) ∨ s.init ≠ .sent

/-- The handle is open, and the queue of waiting tasks is about to be taken or has a wakeup. -/
structure Awake (s : EventLoop α) : Prop where
  opened : s.handle = .opened
  wakeup : s.callbacks ≠ [] → s.delivery = .started ∨ Pending s

theorem fifo_new : Fifo (new : EventLoop α) := ⟨rfl, fun _ => rfl⟩

theorem awake_new : Awake (new : EventLoop α) := ⟨rfl, fun h => absurd rfl h⟩

/-- Tasks only move forward. -/
theorem fifo_step (h : Fifo s) {event : Event α} (ht : step s event = some t) : Fifo t := by
  cases step_effect ht with
  | push thread func he ht =>
    rw [ht]
    refine ⟨?_, h.batch⟩
    show s.executed ++ s.batch ++ (s.callbacks ++ [func]) = s.posted ++ [func]
    rw [← h.order, ← List.append_assoc]
  | deliver he hst hd ho ht =>
    rw [ht]
    exact ⟨h.order, fun _ => h.batch (by rw [hd]; exact Delivery.noConfusion)⟩
  | swap he hd ht =>
    have hb : s.batch = [] := h.batch (by rw [hd]; exact Delivery.noConfusion)
    rw [ht]
    refine ⟨?_, fun hn => absurd rfl hn⟩
    show s.executed ++ s.callbacks ++ [] = s.posted
    rw [← h.order, hb, List.append_nil, List.append_nil]
  | exec func batch he hb ht =>
    rw [ht]
    refine ⟨?_, fun hn => ?_⟩
    · show s.executed ++ [func] ++ batch ++ s.callbacks = s.posted
      rw [← h.order, hb, List.append_assoc s.executed, List.singleton_append]
    · have hnil := h.batch hn
      rw [hb] at hnil
      cases hnil
  | drained he hd hb ht =>
    rw [ht]
    exact ⟨h.order, fun _ => hb⟩
  | still hs =>
    refine ⟨?_, fun hn => ?_⟩
    · rw [hs.executed, hs.batch, hs.callbacks, hs.posted]
      exact h.order
    · rw [hs.batch]
      exact h.batch (hs.delivery ▸ hn)

/-- A poster that is not in flight may go anywhere. -/
theorem Pending.setPoster (h : Pending s) {thread : Nat} (hp : ¬ (s.poster thread).InFlight)
    (poster : Poster α) : Pending (s.setPoster thread poster) := by
  rcases h with hs | ⟨thread', hp'⟩ | hi
  · exact .inl hs
  · have hne : thread' ≠ thread := by
      rintro rfl
      exact hp hp'
    refine .inr (.inl ⟨thread', ?_⟩)
    rwa [setPoster_of_ne s poster hne]
  · exact .inr (.inr hi)

theorem pending_of_inFlight {thread : Nat} {poster : Poster α} (hp : poster.InFlight) :
    Pending (s.setPoster thread poster) := by
  refine .inr (.inl ⟨thread, ?_⟩)
  rwa [setPoster_self]

/-- Only a delivery uses up what is pending. -/
theorem Pending.step (h : Pending s) {event : Event α} (hn : event ≠ .deliver)
    (ht : EventLoop.step s event = some t) : Pending t := by
  cases event with
  | deliver => exact absurd rfl hn
  | assign | asyncInit =>
    obtain ⟨_, ht⟩ := Option.ite_none_right_eq_some.mp ht
    cases ht
    exact .inr (.inr Init.noConfusion)
  | asyncSend =>
    obtain ⟨⟨_, hi⟩, ht⟩ := Option.ite_none_right_eq_some.mp ht
    cases ht
    refine .inl ?_
    show (s.signal || (s.init = .ready || s.init = .sent)) = true
    simp [hi]
  | call thread func =>
    simp only [EventLoop.step] at ht
    split at ht
    · rename_i hp
      rcases runInThisLoop_cases s thread func with he | ⟨f, he⟩ | ⟨f, he⟩
      · cases he ▸ ht
        exact h
      · rw [he] at ht
        cases ht
        exact h
      · rw [he] at ht
        cases ht
        exact h.setPoster (by rw [hp]; exact id) _
    · cases ht
  | push thread =>
    simp only [EventLoop.step] at ht
    split at ht
    · cases ht
      have hp : Pending (s.setPoster thread .pushed) := pending_of_inFlight trivial
      exact hp
    · cases ht
  | check thread =>
    simp only [EventLoop.step] at ht
    split at ht
    · cases ht
      unfold check
      split
      · rename_i hi
        refine .inr (.inr ?_)
        rw [show (s.setPoster thread _).init = s.init from rfl, hi]
        exact Init.noConfusion
      · exact pending_of_inFlight trivial
    · cases ht
  | send thread =>
    simp only [EventLoop.step] at ht
    split at ht
    · cases ht
      rcases eq_or_ne s.init .sent with hi | hi
      · refine .inl ?_
        show (s.signal || (s.init = .ready || s.init = .sent)) = true
        simp [hi]
      · exact .inr (.inr hi)
    · cases ht
  | run | swap | drained | asyncClosed =>
    obtain ⟨_, ht⟩ := Option.ite_none_right_eq_some.mp ht
    cases ht
    exact h
  | exec =>
    simp only [EventLoop.step] at ht
    split at ht
    · cases ht
      exact h
    · cases ht
  | enter | leave =>
    simp only [EventLoop.step] at ht
    split at ht
    · obtain ⟨_, ht⟩ := Option.ite_none_right_eq_some.mp ht
      cases ht
      exact h
    · cases ht
  | stop =>
    simp only [EventLoop.step] at ht
    split at ht
    all_goals
      cases ht
      exact h

/-- A push leaves its poster in flight, and whatever else uses up a wakeup takes the queue. -/
theorem awake_step (h : Awake s) {event : Event α} (hn : event ≠ .stop)
    (ht : step s event = some t) : Awake t := by
  have hpending (he : event ≠ .deliver) (hp : Pending s) : Pending t := hp.step he ht
  cases step_effect ht with
  | push thread func he hs =>
    have hp : Pending (s.setPoster thread .pushed) := pending_of_inFlight trivial
    rw [hs]
    exact ⟨h.opened, fun _ => .inr hp⟩
  | deliver he hst hd ho hs =>
    rw [hs]
    exact ⟨h.opened, fun _ => .inl rfl⟩
  | swap he hd hs =>
    rw [hs]
    exact ⟨h.opened, fun hq => absurd rfl hq⟩
  | exec func batch he hb hs =>
    rw [he] at hpending
    rw [hs] at hpending ⊢
    exact ⟨h.opened, fun hq => (h.wakeup hq).imp_right (hpending nofun)⟩
  | drained he hd hb hs =>
    rw [he] at hpending
    rw [hs] at hpending ⊢
    refine ⟨h.opened, fun hq => .inr (hpending nofun ?_)⟩
    apply (h.wakeup hq).resolve_left
    rw [hd]
    exact Delivery.noConfusion
  | still hs =>
    refine ⟨(hs.handle hn).mpr h.opened, fun hq => ?_⟩
    rw [hs.callbacks] at hq
    rw [hs.delivery]
    exact (h.wakeup hq).imp_right (hpending hs.undelivered)

/-- What is executed, batched and queued is what was pushed, in order; and unless a stop has been
requested, a task in the queue has a signal pending, a delivery that has not taken the queue yet, a
poster between its push and its send, or an `init` that has yet to send. -/
theorem wakeup_run (events : List (Event α)) {s : EventLoop α} (hn : .stop ∉ events)
    (hr : step.run new events = some s) :
    s.executed ++ s.batch ++ s.callbacks = s.posted ∧ s.executed <+: s.posted ∧
      (s.callbacks ≠ [] → s.signal = true ∨ s.delivery = .started ∨
        (∃ thread, (s.poster thread).InFlight) ∨ s.init ≠ .sent) := by
  have hfifo : Fifo s := Step.run_invariant (fun _ _ _ h ht => fifo_step h ht) fifo_new hr
  have hc : step.Throughout (fun _ (e : Event α) => e ≠ .stop) new events := by
    apply Step.throughout_of_forall
    rintro e he _ rfl
    exact hn he
  have hawake : Awake s :=
    Step.run_invariant_of (fun _ _ _ h hc ht => awake_step h hc ht) awake_new hc hr
  refine ⟨hfifo.order, ⟨s.batch ++ s.callbacks, ?_⟩, fun hq => ?_⟩
  · rw [← List.append_assoc, hfifo.order]
  · rcases hawake.wakeup hq with hd | hs | hp
    · exact .inr (.inl hd)
    · exact .inl hs
    · exact .inr (.inr hp)

/-- A task pushed in front of `init`, one from another thread while the first is being run. -/
theorem wakeup_run_two : ∃ s : EventLoop Nat,
    step.run new [.call 1 (some 10), .push 1, .check 1, .run 0 false, .assign, .asyncInit,
      .asyncSend, .enter, .deliver, .swap, .exec, .call 2 (some 20), .push 2] = some s ∧
    s.executed ++ s.batch ++ s.callbacks = s.posted ∧ s.executed <+: s.posted ∧
      (s.callbacks ≠ [] → s.signal = true ∨ s.delivery = .started ∨
        (∃ thread, (s.poster thread).InFlight) ∨ s.init ≠ .sent) :=
  ⟨_, rfl, wakeup_run [.call 1 (some 10), .push 1, .check 1, .run 0 false, .assign, .asyncInit,
    .asyncSend, .enter, .deliver, .swap, .exec, .call 2 (some 20), .push 2] (by simp) rfl⟩

end AeProxy.EventLoop
