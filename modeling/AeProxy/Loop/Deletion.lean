import AeProxy.Lib.Simulation
import AeProxy.Loop.EventLoop

/-! The handle of an `Async` is deleted when it has been closed, and the pointer to it stays: who may
still follow it. -/
namespace AeProxy.EventLoop
open Lib
variable {α : Type*} {s t : EventLoop α}

/-- libuv is handed a handle that has been deleted, for the signal of a task or to be closed. -/
def Dangles (s : EventLoop α) : Event α → Prop
  | .send _ => s.handle = .closed
  | .stop => s.handle = .closed ∧ s.status = .started
  | _ => False

/-- When the handle is deleted, no thread is about to queue or to signal a task; and behind that none
sets out to, and the loop is not stopped before `uv_run` has returned. -/
def Retires (s : EventLoop α) : Event α → Prop
  | .asyncClosed => ∀ thread, s.poster thread = .idle
  | .call thread func => s.handle = .closed →
    func = none ∨ (s.isRunInLoopThread thread || s.isStopped) = true
  | .stop => s.handle = .closed → s.status ≠ .started
  | _ => True

/-- A loop that runs, or has closed its handle, has initialised it. -/
structure Initialised (s : EventLoop α) : Prop where
  started : s.status = .started → s.init = .sent
  opened : s.handle ≠ .opened → s.init = .sent

/-- A thread is on its way to a handle that is not there any more. -/
def Astray (s : EventLoop α) : Prop :=
  s.handle = .closed ∧ s.init = .sent ∧ ∃ thread, s.poster thread ≠ .idle

/-- No thread is on its way to a handle that is not there. -/
def AtRest (s : EventLoop α) : Prop := s.handle = .closed → ∀ thread, s.poster thread = .idle

/-- What an event does to the handle, and to the threads on their way to it. -/
inductive Touches (s : EventLoop α) : Event α → EventLoop α → Prop
  | call {thread : Nat} {func : α} (hi : s.poster thread = .idle)
      (hn : (s.isRunInLoopThread thread || s.isStopped) = false) :
    Touches s (.call thread (some func)) (s.setPoster thread (.pushing func))
  | push {thread : Nat} {func : α} (hp : s.poster thread = .pushing func) :
    Touches s (.push thread) (s.push thread func)
  | check {thread : Nat} (hp : s.poster thread = .pushed) :
    Touches s (.check thread) (s.check thread)
  | send {thread : Nat} (hp : s.poster thread = .sending) :
    Touches s (.send thread) (s.asyncSend.setPoster thread .idle)
  | stop (hs : s.status = .started) (ho : s.handle = .opened) :
    Touches s .stop { s with handle := .closing }
  | asyncClosed (hs : s.status = .started) (hc : s.handle = .closing) :
    Touches s .asyncClosed { s with handle := .closed }
  | aside {event : Event α} {t : EventLoop α} (hh : t.handle = s.handle) (hp : t.poster = s.poster)
      (hi : s.init = .sent → t.init = .sent)
      (hst : t.status = .started → s.status = .started ∨ t.init = .sent)
      (hr : event = .stop ∨ Retires s event) (hd : event = .stop ∨ ¬ Dangles s event) :
    Touches s event t

theorem touches_of_step {event : Event α} (ht : step s event = some t) : Touches s event t := by
  cases event with
  | call thread func =>
    simp only [step] at ht
    split at ht
    next hi =>
      obtain rfl := Option.some.inj ht
      cases func with
      | none => exact .aside rfl rfl id .inl (.inr fun _ => .inl rfl) (.inr id)
      | some func =>
        rw [runInThisLoop]
        split
        next hr => exact .aside rfl rfl id .inl (.inr fun _ => .inr hr) (.inr id)
        next hr => exact .call hi (Bool.eq_false_iff.mpr hr)
    next => cases ht
  | push thread =>
    simp only [step] at ht
    split at ht
    next hp => exact Option.some.inj ht ▸ .push hp
    next => cases ht
  | check thread =>
    simp only [step] at ht
    split at ht
    next hp => exact Option.some.inj ht ▸ .check hp
    next => cases ht
  | send thread =>
    simp only [step] at ht
    split at ht
    next hp => exact Option.some.inj ht ▸ .send hp
    next => cases ht
  | stop =>
    simp only [step] at ht
    split at ht
    next hs => exact Option.some.inj ht ▸ .stop hs.1 hs.2
    next => exact Option.some.inj ht ▸ .aside rfl rfl id .inl (.inl rfl) (.inl rfl)
  | asyncClosed =>
    obtain ⟨⟨hs, -, hc⟩, ht⟩ := Option.ite_none_right_eq_some.mp ht
    exact Option.some.inj ht ▸ .asyncClosed hs hc
  | assign | asyncInit =>
    obtain ⟨⟨-, hi⟩, ht⟩ := Option.ite_none_right_eq_some.mp ht
    obtain rfl := Option.some.inj ht
    exact .aside rfl rfl (fun h => by cases hi.symm.trans h) .inl (.inr trivial) (.inr id)
  | asyncSend =>
    obtain ⟨-, ht⟩ := Option.ite_none_right_eq_some.mp ht
    obtain rfl := Option.some.inj ht
    exact .aside rfl rfl (fun _ => rfl) .inl (.inr trivial) (.inr id)
  | enter =>
    simp only [step] at ht
    split at ht
    next =>
      obtain ⟨hi, ht⟩ := Option.ite_none_right_eq_some.mp ht
      obtain rfl := Option.some.inj ht
      exact .aside rfl rfl id (fun _ => .inr hi) (.inr trivial) (.inr id)
    next => cases ht
  | leave =>
    simp only [step] at ht
    split at ht
    next noWait _ =>
      obtain ⟨-, ht⟩ := Option.ite_none_right_eq_some.mp ht
      obtain rfl := Option.some.inj ht
      refine .aside rfl rfl id (fun h => ?_) (.inr trivial) (.inr id)
      cases noWait <;> cases h
    next => cases ht
  | exec =>
    simp only [step] at ht
    split at ht
    next => exact Option.some.inj ht ▸ .aside rfl rfl id .inl (.inr trivial) (.inr id)
    next => cases ht
  | run | deliver | swap | drained =>
    obtain ⟨-, ht⟩ := Option.ite_none_right_eq_some.mp ht
    exact Option.some.inj ht ▸ .aside rfl rfl id .inl (.inr trivial) (.inr id)

theorem Initialised.step (h : Initialised s) {event : Event α}
    (ht : EventLoop.step s event = some t) : Initialised t := by
  cases touches_of_step ht with
  | call => exact ⟨h.started, h.opened⟩
  | push => exact ⟨h.started, h.opened⟩
  | check => exact ⟨h.started, h.opened⟩
  | send => exact ⟨h.started, h.opened⟩
  | stop hs => exact ⟨h.started, fun _ => h.started hs⟩
  | asyncClosed hs => exact ⟨h.started, fun _ => h.started hs⟩
  | aside hh hp hi hst =>
    refine ⟨fun hs => (hst hs).elim (fun hs => hi (h.started hs)) id, fun ho => hi (h.opened ?_)⟩
    rwa [← hh]

/-- A thread that goes on to something else than nothing. -/
theorem exists_setPoster (s : EventLoop α) (thread : Nat) {poster : Poster α} (hp : poster ≠ .idle) :
    ∃ thread', (s.setPoster thread poster).poster thread' ≠ .idle :=
  ⟨thread, by rwa [setPoster_self]⟩

/-- It can only end in the handle. -/
theorem Astray.step (h : Astray s) {event : Event α} (hd : ¬ Dangles s event)
    (ht : EventLoop.step s event = some t) : Astray t := by
  obtain ⟨hc, hi, thread, hp⟩ := h
  cases touches_of_step ht with
  | call => exact ⟨hc, hi, exists_setPoster s _ nofun⟩
  | push => exact ⟨hc, hi, exists_setPoster s _ nofun⟩
  | check =>
    refine ⟨hc, hi, exists_setPoster s _ ?_⟩
    rw [if_neg (by rw [hi]; exact nofun)]
    exact nofun
  | send => exact absurd hc hd
  | stop hs ho => exact nomatch hc.symm.trans ho
  | asyncClosed hs hc' => exact nomatch hc.symm.trans hc'
  | aside hh hposter hinit => exact ⟨hh.trans hc, hinit hi, thread, hposter ▸ hp⟩

theorem astray_of_not_retires (h : Initialised s) {event : Event α} (hd : ¬ Dangles s event)
    (hr : ¬ Retires s event) (ht : EventLoop.step s event = some t) : Astray t := by
  cases touches_of_step ht with
  | call =>
    obtain ⟨hc, -⟩ := Classical.not_imp.mp hr
    exact ⟨hc, h.opened (by rw [hc]; exact nofun), exists_setPoster s _ nofun⟩
  | push | check | send => exact absurd trivial hr
  | stop hs ho => exact absurd (fun hc => nomatch hc.symm.trans ho) hr
  | asyncClosed hs =>
    obtain ⟨thread, hp⟩ := not_forall.mp hr
    exact ⟨rfl, h.started hs, thread, hp⟩
  | aside _ _ _ _ hr' =>
    rcases hr' with rfl | hr'
    · exact absurd (fun hc hs => hd ⟨hc, hs⟩) hr
    · exact absurd hr' hr

theorem AtRest.step (h : AtRest s) {event : Event α} (hr : Retires s event)
    (ht : EventLoop.step s event = some t) : ¬ Dangles s event ∧ AtRest t := by
  have hbusy {thread : Nat} {poster : Poster α} (hp : s.poster thread = poster) (hne : poster ≠ .idle)
      (hc : s.handle = .closed) : False := hne (hp.symm.trans (h hc thread))
  cases touches_of_step ht with
  | call hi hn =>
    refine ⟨id, fun hc => ?_⟩
    rcases hr hc with hf | hrun
    · cases hf
    · exact nomatch hn.symm.trans hrun
  | push hp => exact ⟨id, fun hc => (hbusy hp nofun hc).elim⟩
  | check hp => exact ⟨id, fun hc => (hbusy hp nofun hc).elim⟩
  | send hp => exact ⟨hbusy hp nofun, fun hc => (hbusy hp nofun hc).elim⟩
  | stop hs ho => exact ⟨fun hd => (nomatch hd.1.symm.trans ho), nofun⟩
  | asyncClosed => exact ⟨id, fun _ => hr⟩
  | aside hh hp _ _ _ hd =>
    refine ⟨?_, fun hc => hp ▸ h (hh ▸ hc)⟩
    rcases hd with rfl | hd
    · exact fun hd => hr hd.1 hd.2
    · exact hd

/-- Along a run at whose end no thread is about to queue or to signal a task: libuv is never handed
the deleted handle exactly if every step retires it. -/
theorem undangling_iff_retires (events : List (Event α)) {t : EventLoop α}
    (ht : step.run new events = some t) (hidle : ∀ thread, t.poster thread = .idle) :
    step.Throughout (fun s event => ¬ Dangles s event) new events ↔
      step.Throughout Retires new events := by
  constructor
  · intro hd
    have hinit : Initialised (new : EventLoop α) := ⟨nofun, fun ho => absurd rfl ho⟩
    exact Step.throughout_of_not_bad_of
      (fun _ _ _ h hd hr ht => astray_of_not_retires h hd hr ht)
      (fun _ _ _ h hd ht => h.step hd ht) (fun _ _ _ h ht => h.step ht) hinit ht hd
      fun ⟨_, _, thread, hp⟩ => hp (hidle thread)
  · intro hr
    have hrest : AtRest (new : EventLoop α) := fun _ _ => rfl
    exact Step.throughout_of_throughout (fun _ _ _ h hr ht => h.step hr ht) hrest ht hr

/-- A task is queued in front of a `stop`, and another one run in place when the loop has stopped. -/
theorem undangling_iff_retires_stop :
    let events : List (Event Nat) := [.run 0 false, .assign, .asyncInit, .asyncSend, .enter,
      .call 1 (some 10), .push 1, .check 1, .send 1, .stop, .asyncClosed, .leave, .call 2 (some 20)]
    ∃ t, step.run new events = some t ∧
      (step.Throughout (fun s event => ¬ Dangles s event) new events ↔
        step.Throughout Retires new events) := by
  intro events
  refine ⟨_, rfl, undangling_iff_retires events rfl fun thread => ?_⟩
  simp [new, runInThisLoop, isRunInLoopThread, isStopped, push, check, asyncSend, setPoster]

end AeProxy.EventLoop
