import AeProxy.Lib.Clock
import AeProxy.Lib.Log
import AeProxy.Server.CloseOnce

/-! `Timer`: when its callback runs, in terms of the loop's time. libuv sets a timer again before it
runs the callback, so what the callback calls is an event of its own. -/
namespace AeProxy
open Lib

namespace LoopTimer

inductive Action (κ : Type*) where
  | start
  | timeOut
  | close
  | closeComplete (callback : κ)
  deriving DecidableEq

inductive Event (κ : Type*) where
  | start
  | close (callback : Option κ)
  | setTimerRepeat (ms : Nat)
  | pass (ms : Nat)
  | timeOut
  | closed
  deriving DecidableEq

end LoopTimer
open LoopTimer

/-- `Timer` with its other fields, the handle as an alarm against the loop's time, and what has been
done so far and when. The handle keeps an interval of its own, which is always `repeat_`. -/
structure LoopTimer (κ : Type*) extends Timer κ where
  started : Bool
  timeout : Nat
  repeat_ : Nat
  callback : Bool
  alarm : Alarm
  log : List (Nat × Action κ)

namespace LoopTimer
variable {κ : Type*}

def new (now timeout repeat_ : Nat) (callback : Bool) : LoopTimer κ :=
  ⟨⟨none, .opened⟩, false, timeout, repeat_, callback, ⟨now, none⟩, []⟩

def emit (self : LoopTimer κ) (action : Action κ) : LoopTimer κ :=
  { self with log := self.log ++ [(self.alarm.now, action)] }

/-- `uv_timer_start`, refused by a handle that is closing. -/
def uvTimerStart (self : LoopTimer κ) : LoopTimer κ :=
  if self.handle.isClosing then self else { self with alarm := self.alarm.set self.timeout }

def start (self : LoopTimer κ) : LoopTimer κ :=
  if self.started then self else ({ self with started := true }.emit .start).uvTimerStart

/-- `close_complete`. -/
def closeCompleted (self : LoopTimer κ) : Option κ → LoopTimer κ
  | some callback => self.emit (.closeComplete callback)
  | none => self

def close (self : LoopTimer κ) (callback : Option κ) : LoopTimer κ :=
  let (timer, effect) := self.toTimer.close callback
  let self := { self with toTimer := timer, alarm := self.alarm.stop }.emit .close
  match effect with
  | .uvClose => self
  | .complete callback => self.closeCompleted callback

def setTimerRepeat (self : LoopTimer κ) (ms : Nat) : LoopTimer κ := { self with repeat_ := ms }

def onTimeOut (self : LoopTimer κ) : LoopTimer κ :=
  if self.callback then self.emit .timeOut else self

/-- The handle, which is then deleted, has been closed. -/
def onClosed (self : LoopTimer κ) : LoopTimer κ :=
  let (timer, callback) := self.toTimer.onClosed
  { self with toTimer := timer }.closeCompleted callback

/-- `none` is also a call that goes to a handle that has been deleted. Time is the loop's, which
libuv caches: it sets and rearms a timer from the time at which it last looked at the clock. -/
def step : Step (LoopTimer κ) (Event κ) := fun self event =>
  match event with
  | .start => if self.started ∨ self.handle ≠ .closed then some self.start else none
  | .close callback => if self.handle ≠ .closed then some (self.close callback) else none
  | .setTimerRepeat ms => if self.handle ≠ .closed then some (self.setTimerRepeat ms) else none
  | .pass ms => some { self with alarm := self.alarm.pass ms }
  | .timeOut =>
    if self.alarm.isDue then
      some { self with alarm := self.alarm.rearm self.repeat_ }.onTimeOut
    else none
  | .closed => if self.handle = .closing then some self.onClosed else none

/-- The interval is none, or no shorter than this. -/
def AtLeast (interval ms : Nat) : Prop := ms = 0 ∨ interval ≤ ms

/-- When an entry may be logged: a start once; a run of the callback the timeout behind a start, an
interval behind the last run, and behind no request to close; an end behind such a request. -/
def InTurn (timeout interval : Nat) (before : List (Nat × Action κ)) : Nat × Action κ → Prop
  | (_, .start) => ∀ time, (time, .start) ∉ before
  | (now, .timeOut) => (∃ time, (time, .start) ∈ before ∧ time + timeout ≤ now) ∧
    (∀ time, (time, .timeOut) ∈ before → time + interval ≤ now) ∧ ∀ time, (time, .close) ∉ before
  | (_, .close) => True
  | (_, .closeComplete _) => ∃ time, (time, .close) ∈ before

/-- What the handle is due for. -/
structure Armed (interval : Nat) (s : LoopTimer κ) : Prop where
  due : ∀ d, s.alarm.due = some d → s.handle = .opened ∧
    (∃ time, (time, .start) ∈ s.log ∧ time + s.timeout ≤ d) ∧
    ∀ time, (time, .timeOut) ∈ s.log → time + interval ≤ d
  unstarted : s.started = false → ∀ time, (time, .start) ∉ s.log ∧ (time, .timeOut) ∉ s.log
  opened : s.handle = .opened → ∀ time, (time, .close) ∉ s.log
  asked : s.handle ≠ .opened → ∃ time, (time, .close) ∈ s.log
  atLeast : AtLeast interval s.repeat_
  inTurn : Each (InTurn s.timeout interval) s.log

variable {interval : Nat} {s t : LoopTimer κ}

theorem armed_new {now timeout repeat_ : Nat} {callback : Bool} (h : AtLeast interval repeat_) :
    Armed interval (new now timeout repeat_ callback : LoopTimer κ) where
  due := nofun
  unstarted _ _ := ⟨List.not_mem_nil, List.not_mem_nil⟩
  opened := nofun
  asked h := absurd rfl h
  atLeast := h
  inTurn := each_nil

namespace Armed

theorem emit (h : Armed interval s) {action : Action κ}
    (hs : action = .start ∨ action = .timeOut → s.started = true)
    (hc : action = .close → s.handle ≠ .opened)
    (ht : action = .timeOut → ∀ d, s.alarm.due = some d → s.alarm.now + interval ≤ d)
    (ha : InTurn s.timeout interval s.log (s.alarm.now, action)) : Armed interval (s.emit action) where
  due d hd := by
    obtain ⟨ho, ⟨time, hm, hle⟩, hall⟩ := h.due d hd
    refine ⟨ho, ⟨time, List.mem_append_left _ hm, hle⟩, fun time hm => ?_⟩
    rcases List.mem_append.mp hm with hm | hm
    · exact hall time hm
    · obtain ⟨rfl, rfl⟩ := Prod.mk.inj (List.mem_singleton.mp hm)
      exact ht rfl d hd
  unstarted hu time := by
    have hno (kind : Action κ) (hk : kind = .start ∨ kind = .timeOut) (hm : (time, kind) ∉ s.log) :
        (time, kind) ∉ s.log ++ [(s.alarm.now, action)] := by
      intro h
      rcases List.mem_append.mp h with h | h
      · exact hm h
      · obtain ⟨-, rfl⟩ := Prod.mk.inj (List.mem_singleton.mp h)
        exact Bool.noConfusion (hu.symm.trans (hs hk))
    exact ⟨hno _ (.inl rfl) (h.unstarted hu time).1, hno _ (.inr rfl) (h.unstarted hu time).2⟩
  opened ho time hm := by
    rcases List.mem_append.mp hm with hm | hm
    · exact h.opened ho time hm
    · exact hc (Prod.mk.inj (List.mem_singleton.mp hm)).2.symm ho
  asked ho := (h.asked ho).imp fun _ => List.mem_append_left _
  atLeast := h.atLeast
  inTurn := each_concat.mpr ⟨h.inTurn, ha⟩

theorem start (h : Armed interval s) : Armed interval s.start := by
  unfold LoopTimer.start
  split
  next => exact h
  next hs =>
    have hu := h.unstarted (Bool.not_eq_true _ ▸ hs)
    have hstarted : Armed interval { s with started := true } :=
      ⟨h.due, nofun, h.opened, h.asked, h.atLeast, h.inTurn⟩
    have hlogged : Armed interval ({ s with started := true }.emit .start) :=
      hstarted.emit (fun _ => rfl) nofun nofun fun time => (hu time).1
    unfold uvTimerStart
    split
    next => exact hlogged
    next ho =>
      refine ⟨fun d hd => ?_, nofun, hlogged.opened, hlogged.asked, h.atLeast, hlogged.inTurn⟩
      obtain rfl : s.alarm.now + s.timeout = d := Option.some.inj hd
      refine ⟨Phase.isClosing_eq_false.mp (Bool.not_eq_true _ ▸ ho),
        ⟨_, List.mem_append_right _ (List.mem_singleton.mpr rfl), Nat.le_refl _⟩, fun time hm => ?_⟩
      rcases List.mem_append.mp hm with hm | hm
      · exact absurd hm (hu time).2
      · cases List.mem_singleton.mp hm

/-- The end of a closing, at once or later. -/
theorem closeCompleted (h : Armed interval s) (ho : s.handle ≠ .opened) (callback : Option κ) :
    Armed interval (s.closeCompleted callback) := by
  cases callback with
  | none => exact h
  | some k => exact h.emit (by simp) nofun nofun (h.asked ho)

theorem close (h : Armed interval s) (callback : Option κ) : Armed interval (s.close callback) := by
  have hne : (s.toTimer.close callback).1.handle ≠ .opened := by
    by_cases ho : s.handle = .opened
    · obtain ⟨hp, -⟩ := Timer.closeSlot.close_opened (s := s.toTimer) ho callback
      exact fun h => Phase.noConfusion (hp.symm.trans h)
    · obtain ⟨hp, -⟩ := Timer.closeSlot.close_closing (s := s.toTimer) ho callback
      exact fun h => ho (hp.symm.trans h)
  have hclosed : Armed interval ({ s with
      toTimer := (s.toTimer.close callback).1, alarm := s.alarm.stop }.emit .close) := by
    have hlog : Each (InTurn s.timeout interval) (s.log ++ [(s.alarm.now, .close)]) :=
      each_concat.mpr ⟨h.inTurn, trivial⟩
    refine ⟨nofun, fun hu time => ?_, fun ho => absurd ho hne, fun _ => ⟨s.alarm.now, ?_⟩, h.atLeast,
      hlog⟩
    · have hno := h.unstarted hu time
      exact ⟨by simpa [LoopTimer.emit] using hno.1, by simpa [LoopTimer.emit] using hno.2⟩
    · exact List.mem_append_right _ (List.mem_singleton.mpr rfl)
  unfold LoopTimer.close
  dsimp only
  split
  next => exact hclosed
  next callback' _ => exact hclosed.closeCompleted hne callback'

theorem pass (h : Armed interval s) (ms : Nat) :
    Armed interval { s with alarm := s.alarm.pass ms } :=
  ⟨h.due, h.unstarted, h.opened, h.asked, h.atLeast, h.inTurn⟩

/-- The handle goes off, and is due again an interval later at least. -/
theorem timeOut (h : Armed interval s) (hd : s.alarm.isDue = true) :
    Armed interval { s with alarm := s.alarm.rearm s.repeat_ }.onTimeOut := by
  obtain ⟨d, hdue, hle⟩ := Alarm.isDue_iff.mp hd
  obtain ⟨ho, ⟨time, hm, hstart⟩, hall⟩ := h.due d hdue
  have hnext (d' : Nat) (hd' : (s.alarm.rearm s.repeat_).due = some d') :
      s.alarm.now + interval ≤ d' := by
    rcases h.atLeast with hz | hi
    · rw [hz] at hd'
      cases hd'
    · unfold Alarm.rearm at hd'
      split at hd'
      next => cases hd'
      next =>
        obtain rfl : s.alarm.now + s.repeat_ = d' := Option.some.inj hd'
        omega
  have hset : Armed interval { s with alarm := s.alarm.rearm s.repeat_ } := by
    refine ⟨fun d' hd' => ⟨ho, ⟨time, hm, ?_⟩, fun time hm => ?_⟩, h.unstarted, h.opened, h.asked,
      h.atLeast, h.inTurn⟩
    · have := hnext d' hd'
      show time + s.timeout ≤ d'
      omega
    · have := hnext d' hd'
      have := hall time hm
      omega
  have hstarted : s.started = true := by
    by_contra hs
    exact (h.unstarted (Bool.not_eq_true _ ▸ hs) time).1 hm
  unfold onTimeOut
  split
  next =>
    refine hset.emit (fun _ => hstarted) nofun (fun _ d' hd' => ?_)
      ⟨⟨time, hm, ?_⟩, fun time hm => ?_, h.opened ho⟩
    · simpa using hnext d' hd'
    · simpa using Nat.le_trans hstart hle
    · simpa using Nat.le_trans (hall time hm) hle
  next => exact hset

theorem closed (h : Armed interval s) (hc : s.handle = .closing) : Armed interval s.onClosed := by
  have hne : s.handle ≠ .opened := by
    rw [hc]
    exact Phase.noConfusion
  have hset : Armed interval { s with toTimer := s.toTimer.onClosed.1 } :=
    ⟨fun d hd => absurd (h.due d hd).1 hne, h.unstarted, fun ho => Phase.noConfusion ho,
      fun _ => h.asked hne, h.atLeast, h.inTurn⟩
  exact hset.closeCompleted (fun ho => Phase.noConfusion ho) _

end Armed

/-- The timeout is what the timer was made with. -/
theorem step_timeout {event : Event κ} (ht : step s event = some t) : t.timeout = s.timeout := by
  have hcompleted (s : LoopTimer κ) (callback : Option κ) :
      (s.closeCompleted callback).timeout = s.timeout := by cases callback <;> rfl
  cases event with
  | start =>
    obtain ⟨-, ht⟩ := Option.ite_none_right_eq_some.mp ht
    rw [← Option.some.inj ht]
    unfold start uvTimerStart
    split
    next => rfl
    next => split <;> rfl
  | close callback =>
    obtain ⟨-, ht⟩ := Option.ite_none_right_eq_some.mp ht
    rw [← Option.some.inj ht]
    unfold close
    dsimp only
    split
    next => rfl
    next => exact hcompleted _ _
  | setTimerRepeat ms =>
    obtain ⟨-, ht⟩ := Option.ite_none_right_eq_some.mp ht
    rw [← Option.some.inj ht]
    rfl
  | pass ms =>
    rw [← Option.some.inj ht]
  | timeOut =>
    obtain ⟨-, ht⟩ := Option.ite_none_right_eq_some.mp ht
    rw [← Option.some.inj ht]
    unfold onTimeOut
    split <;> rfl
  | closed =>
    obtain ⟨-, ht⟩ := Option.ite_none_right_eq_some.mp ht
    rw [← Option.some.inj ht]
    exact hcompleted _ _

/-- The step lemma. -/
theorem Armed.step (h : Armed interval s) {event : Event κ}
    (he : ∀ ms, event = .setTimerRepeat ms → AtLeast interval ms)
    (ht : LoopTimer.step s event = some t) : Armed interval t := by
  cases event with
  | start =>
    obtain ⟨-, ht⟩ := Option.ite_none_right_eq_some.mp ht
    exact Option.some.inj ht ▸ h.start
  | close callback =>
    obtain ⟨-, ht⟩ := Option.ite_none_right_eq_some.mp ht
    exact Option.some.inj ht ▸ h.close callback
  | setTimerRepeat ms =>
    obtain ⟨-, ht⟩ := Option.ite_none_right_eq_some.mp ht
    rw [← Option.some.inj ht]
    exact ⟨h.due, h.unstarted, h.opened, h.asked, he ms rfl, h.inTurn⟩
  | pass ms => exact Option.some.inj ht ▸ h.pass ms
  | timeOut =>
    obtain ⟨hd, ht⟩ := Option.ite_none_right_eq_some.mp ht
    exact Option.some.inj ht ▸ h.timeOut hd
  | closed =>
    obtain ⟨hc, ht⟩ := Option.ite_none_right_eq_some.mp ht
    exact Option.some.inj ht ▸ h.closed hc

theorem armed_run {now timeout repeat_ : Nat} {callback : Bool} {events : List (Event κ)}
    (hr : AtLeast interval repeat_)
    (he : ∀ ms, .setTimerRepeat ms ∈ events → AtLeast interval ms)
    (ht : LoopTimer.step.run (new now timeout repeat_ callback) events = some t) :
    Each (InTurn timeout interval) t.log := by
  have hinv : t.timeout = timeout ∧ Armed interval t := by
    refine Step.run_invariant_of (I := fun s => s.timeout = timeout ∧ Armed interval s)
      (C := fun _ event => ∀ ms, event = .setTimerRepeat ms → AtLeast interval ms)
      (fun s event u hs hc hu => ⟨(step_timeout hu).trans hs.1, hs.2.step hc hu⟩)
      ⟨rfl, armed_new hr⟩ (Step.throughout_of_forall fun event hm s ms hms => ?_) ht
    exact he ms (hms ▸ hm)
  exact hinv.1 ▸ hinv.2.inTurn

/-- In every run of a timer, whatever its user calls and however late its callback, by the time the
loop has cached: the callback runs the timeout behind the start at the earliest, then an interval
apart at least, whatever intervals have been set, and never behind a request to close; and a timer
without intervals runs it once. -/
theorem inTurn_run (now timeout repeat_ : Nat) (callback : Bool) (events : List (Event κ))
    (ht : LoopTimer.step.run (new now timeout repeat_ callback) events = some t) :
    (∀ interval, AtLeast interval repeat_ →
      (∀ ms, .setTimerRepeat ms ∈ events → AtLeast interval ms) →
      Each (InTurn timeout interval) t.log) ∧
    (repeat_ = 0 → (∀ ms, .setTimerRepeat ms ∈ events → ms = 0) →
      Each (fun before entry => entry.2 = .timeOut → ∀ time, (time, .timeOut) ∉ before) t.log) := by
  refine ⟨fun interval hr he => armed_run hr he ht, fun hr he before entry later hlog hentry time hm => ?_⟩
  obtain ⟨now', action⟩ := entry
  obtain rfl : action = .timeOut := hentry
  -- such a timer is one of every interval, also of one longer than the time between two runs
  have heach : Each (InTurn timeout (now' + 1)) t.log :=
    armed_run (.inl hr) (fun ms hms => .inl (he ms hms)) ht
  have hle := (heach before _ later hlog).2.1 time hm
  omega

/-- Started at 5, it runs at 1005 and, late, at 2100, is closed in that run, and completes. -/
theorem inTurn_run_twice :
    let events : List (Event Nat) := [.start, .pass 1000, .timeOut, .pass 1095, .timeOut,
      .close (some 7), .pass 3000, .closed]
    ∃ t, LoopTimer.step.run (new 5 1000 1000 true) events = some t ∧
      Each (InTurn 1000 1000) t.log := by
  intro events
  refine ⟨_, rfl, (inTurn_run 5 1000 1000 true events rfl).1 1000 (.inr (Nat.le_refl _)) ?_⟩
  simp [events]

end LoopTimer
end AeProxy
