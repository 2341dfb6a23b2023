import AeProxy.Loop.Wakeup

/-! What stopping the loop does to posted tasks: once the handle is closing no delivery starts any
more, so that only one that has started already takes the queue. -/
namespace AeProxy.EventLoop
open Lib
variable {α : Type*} {s t : EventLoop α}

/-- Each task that a call was to run in place has been run, and each task pushed, once, and none is
waiting. -/
structure Complete (s : EventLoop α) (events : List (Event α)) : Prop where
  inlined : s.inlined = step.trace inPlace new events
  executed : s.executed.Perm (step.trace pushed new events)
  callbacks : s.callbacks = []

/-- `stop` closes the handle only while nothing is waiting that no delivery is about to take, and a
task is pushed only while the handle is open or such a delivery has started. Behind a push the thread
may still send on a handle that has been deleted; `Retires` is about that. -/
def Caught (s : EventLoop α) : Event α → Prop
  | .stop => s.status = .started → s.handle = .opened → s.callbacks = [] ∨ s.delivery = .started
  | .push _ => s.handle = .opened ∨ s.delivery = .started
  | _ => True

/-- Behind the close of the handle, a waiting task has a delivery that is about to take it. -/
def Taken (s : EventLoop α) : Prop :=
  s.handle ≠ .opened → s.callbacks = [] ∨ s.delivery = .started

/-- Tasks that nothing takes any more. -/
def Stranded (s : EventLoop α) : Prop :=
  s.handle ≠ .opened ∧ s.delivery ≠ .started ∧ s.callbacks ≠ []

/-- `uv_run` has returned. -/
def Returned (s : EventLoop α) : Prop :=
  s.status = .stopped → s.handle = .closed ∧ s.delivery = .idle

theorem taken_step (h : Taken s) {event : Event α} (hc : Caught s event)
    (ht : step s event = some t) : Taken t := by
  cases step_effect ht with
  | push thread func he hs =>
    rw [he] at hc
    rw [hs]
    exact fun ho => .inr (hc.resolve_left ho)
  | deliver he hst hd ho hs =>
    rw [hs]
    exact fun _ => .inr rfl
  | swap he hd hs =>
    rw [hs]
    exact fun _ => .inl rfl
  | exec func batch he hb hs =>
    rw [hs]
    exact h
  | drained he hd hb hs =>
    rw [hs]
    refine fun ho => .inl ((h ho).resolve_right ?_)
    rw [hd]
    exact Delivery.noConfusion
  | still hs =>
    intro ho
    rw [hs.callbacks, hs.delivery]
    rcases eq_or_ne event .stop with rfl | hn
    · simp only [step] at ht
      split at ht
      · rename_i hst
        exact hc hst.1 hst.2
      · cases ht
        exact h ho
    · exact h ((hs.handle hn).not.mp ho)

theorem stranded_step (h : Stranded s) {event : Event α} (ht : step s event = some t) :
    Stranded t := by
  obtain ⟨ho, hd, hq⟩ := h
  cases step_effect ht with
  | push thread func he hs =>
    rw [hs]
    exact ⟨ho, hd, List.append_ne_nil_of_right_ne_nil _ (List.cons_ne_nil _ _)⟩
  | deliver he _ _ ho' hs => exact absurd ho' ho
  | swap he hd' hs => exact absurd hd' hd
  | exec func batch he hb hs =>
    rw [hs]
    exact ⟨ho, hd, hq⟩
  | drained he _ hb hs =>
    rw [hs]
    exact ⟨ho, Delivery.noConfusion, hq⟩
  | still hs =>
    rw [Stranded, hs.callbacks, hs.delivery]
    refine ⟨?_, hd, hq⟩
    rcases eq_or_ne event .stop with rfl | hn
    · simp only [step] at ht
      split at ht
      · rename_i hst
        exact absurd hst.2 ho
      · cases ht
        exact ho
    · exact (hs.handle hn).not.mpr ho

/-- A step that is not caught strands a task. -/
theorem stranded_of_not_caught {event : Event α} (hc : ¬ Caught s event)
    (ht : step s event = some t) : Stranded t := by
  cases event with
  | stop =>
    simp only [Caught, Classical.not_imp, not_or] at hc
    obtain ⟨hst, ho, hq, hd⟩ := hc
    have hstop : step s .stop = some { s with handle := .closing } := if_pos ⟨hst, ho⟩
    cases hstop.symm.trans ht
    exact ⟨Phase.noConfusion, hd, hq⟩
  | push thread =>
    simp only [Caught, not_or] at hc
    simp only [step] at ht
    split at ht
    · cases ht
      exact ⟨hc.1, hc.2, List.append_ne_nil_of_right_ne_nil _ (List.cons_ne_nil _ _)⟩
    · cases ht
  | _ => exact absurd trivial hc

theorem returned_step (h : Returned s) {event : Event α} (ht : step s event = some t) :
    Returned t := by
  intro hst
  cases step_effect ht with
  | push thread func he hs =>
    rw [hs] at hst ⊢
    exact h hst
  | deliver he hstart hd ho hs =>
    rw [hs] at hst
    cases hstart.symm.trans hst
  | swap he hd hs =>
    rw [hs] at hst
    cases hd.symm.trans (h hst).2
  | exec func batch he hb hs =>
    rw [hs] at hst ⊢
    exact h hst
  | drained he hd hb hs =>
    rw [hs] at hst
    cases hd.symm.trans (h hst).2
  | still hs =>
    rcases eq_or_ne event .leave with rfl | hn
    · simp only [step] at ht
      split at ht
      · rename_i noWait _
        obtain ⟨⟨hidle, hleave⟩, ht⟩ := Option.ite_none_right_eq_some.mp ht
        cases ht
        cases noWait with
        | true => cases hst
        | false => exact ⟨hleave.resolve_left Bool.noConfusion, hidle⟩
      · cases ht
    · obtain ⟨hs', he⟩ := hs.stopped hn hst
      rw [he, hs.delivery]
      exact h hs'

/-- Where the loop has stopped, nothing is lost exactly if every step was caught. -/
theorem complete_iff_caught (events : List (Event α)) {t : EventLoop α}
    (hr : step.run new events = some t) (hs : t.status = .stopped) :
    Complete t events ↔ step.Throughout Caught new events := by
  constructor
  · rintro ⟨-, -, hq⟩
    have hn : ¬ Stranded t := fun hbad => hbad.2.2 hq
    apply Step.throughout_of_not_bad (I := fun _ => True) _ _ _ trivial hr hn
    · exact fun _ _ _ _ hc ht => stranded_of_not_caught hc ht
    · exact fun _ _ _ h ht => stranded_step h ht
    · exact fun _ _ _ _ _ _ => trivial
  · intro hc
    have htaken : Taken t := Step.run_invariant_of (fun _ _ _ h hc ht => taken_step h hc ht)
      (fun ho => absurd rfl ho) hc hr
    have hfifo : Fifo t := Step.run_invariant (fun _ _ _ h ht => fifo_step h ht) fifo_new hr
    have hret : Returned t := Step.run_invariant (fun _ _ _ h ht => returned_step h ht)
      (fun hn => (by cases hn)) hr
    obtain ⟨hclosed, hidle⟩ := hret hs
    have hq : t.callbacks = [] := by
      apply (htaken (by rw [hclosed]; exact Phase.noConfusion)).resolve_right
      rw [hidle]
      exact Delivery.noConfusion
    have hb : t.batch = [] := hfifo.batch (by rw [hidle]; exact Delivery.noConfusion)
    obtain ⟨hinlined, hposted⟩ := run_logs hr
    refine ⟨hinlined, List.Perm.of_eq ?_, hq⟩
    have hpushed : t.posted = step.trace pushed new events := hposted
    rw [← hpushed, ← hfifo.order, hb, hq, List.append_nil, List.append_nil]

/-- A `stop` that a delivery has got ahead of, and a task behind it. -/
theorem complete_iff_caught_one :
    let events : List (Event Nat) := [.run 0 false, .assign, .asyncInit, .asyncSend, .enter,
      .call 1 (some 10), .push 1, .deliver, .stop, .swap, .exec, .drained, .asyncClosed, .leave,
      .call 2 (some 20)]
    ∃ t : EventLoop Nat, step.run new events = some t ∧
      (Complete t events ↔ step.Throughout Caught new events) := by
  refine ⟨_, rfl, ?_⟩
  exact complete_iff_caught _ (by rfl) (by rfl)

/-- A task pushed and signalled in front of a `stop` that comes before its delivery. -/
theorem not_complete_stopped :
    let events : List (Event Nat) := [.run 0 false, .assign, .asyncInit, .asyncSend, .enter,
      .call 1 (some 10), .push 1, .check 1, .send 1, .stop, .asyncClosed, .leave]
    ∃ t : EventLoop Nat, step.run new events = some t ∧ t.status = .stopped ∧
      ¬ Complete t events := by
  refine ⟨_, rfl, rfl, ?_⟩
  rintro ⟨-, -, hq⟩
  cases hq

end AeProxy.EventLoop
