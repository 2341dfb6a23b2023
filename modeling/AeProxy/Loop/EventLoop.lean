import Mathlib.Logic.Function.Basic
import AeProxy.Lib.CloseSlot
import AeProxy.Lib.Simulation

/-! `EventLoop` and its `Async`: any thread hands tasks to the thread that runs the loop, through a
queue under a mutex and a signal that libuv may deliver once for many. -/
namespace AeProxy
open Lib

namespace EventLoop

inductive Status where
  | notStarted
  | started
  | stopped
  deriving DecidableEq, Repr

/-- How far `Async::init` is: the pointer is assigned before the handle is initialised, and the
first signal comes last. -/
inductive Init where
  | notYet
  | assigned
  | ready
  | sent
  deriving DecidableEq, Repr

/-- A callback of the handle: none, one that has not taken the queue yet, one that runs a batch. -/
inductive Delivery where
  | idle
  | started
  | draining
  deriving DecidableEq, Repr

/-- Where the thread in `run` or `run_no_wait` is: outside, in front of `uv_run`, or inside. -/
inductive Runner where
  | out
  | starting (thread : Nat) (noWait : Bool)
  | looping (noWait : Bool)
  deriving DecidableEq, Repr

/-- Where a thread in `run_in_this_loop` is, behind its look at the status. -/
inductive Poster (α : Type*) where
  | idle
  | pushing (func : α)
  | pushed
  | sending

inductive Event (α : Type*) where
  | run (thread : Nat) (noWait : Bool)
  | assign
  | asyncInit
  | asyncSend
  | enter
  | deliver
  | swap
  | exec
  | drained
  | leave
  | call (thread : Nat) (func : Option α)
  | push (thread : Nat)
  | check (thread : Nat)
  | send (thread : Nat)
  | stop
  | asyncClosed

end EventLoop
open EventLoop

/-- The fields of both classes, the threads in them, and which tasks have been pushed, which of
those have been run, and which were run without being pushed. -/
structure EventLoop (α : Type*) where
  status : Status
  loopThreadId : Option Nat
  runner : Runner
  init : Init
  handle : Phase
  callbacks : List α
  signal : Bool
  delivery : Delivery
  batch : List α
  poster : Nat → Poster α
  posted : List α
  executed : List α
  inlined : List α

namespace EventLoop
variable {α : Type*}

def new : EventLoop α :=
  ⟨.notStarted, none, .out, .notYet, .opened, [], false, .idle, [], fun _ => .idle, [], [], []⟩

def setPoster (self : EventLoop α) (thread : Nat) (poster : Poster α) : EventLoop α :=
  { self with poster := Function.update self.poster thread poster }

def isRunInLoopThread (self : EventLoop α) (thread : Nat) : Bool :=
  self.status = .started && self.loopThreadId = some thread

def isStopped (self : EventLoop α) : Bool := self.status = .stopped

/-- `run_in_this_loop` up to the decision; the status may be another one when the task is pushed. -/
def runInThisLoop (self : EventLoop α) (thread : Nat) : Option α → EventLoop α
  | none => self
  | some func =>
    if self.isRunInLoopThread thread || self.isStopped then
      { self with inlined := self.inlined ++ [func] }
    else self.setPoster thread (.pushing func)

/-- `Async::runInThisLoop` under the mutex. -/
def push (self : EventLoop α) (thread : Nat) (func : α) : EventLoop α :=
  { self.setPoster thread .pushed with
    callbacks := self.callbacks ++ [func], posted := self.posted ++ [func] }

/-- `handle_ != nullptr`. -/
def check (self : EventLoop α) (thread : Nat) : EventLoop α :=
  self.setPoster thread (if self.init = .notYet then .idle else .sending)

/-- A signal sent before the handle is initialised is lost. What `uv_async_send` does to a handle
that is assigned and not initialised is undefined; here it does nothing. -/
def asyncSend (self : EventLoop α) : EventLoop α :=
  { self with signal := self.signal || (self.init = .ready || self.init = .sent) }

def step : Step (EventLoop α) (Event α) := fun self event =>
  match event with
  | .run thread noWait =>
    if self.runner = .out ∧ self.status = .notStarted then
      some { self with runner := .starting thread noWait }
    else none
  | .assign =>
    if self.runner ≠ .out ∧ self.init = .notYet then some { self with init := .assigned } else none
  | .asyncInit =>
    if self.runner ≠ .out ∧ self.init = .assigned then some { self with init := .ready } else none
  | .asyncSend =>
    if self.runner ≠ .out ∧ self.init = .ready then some { self.asyncSend with init := .sent }
    else none
  | .enter =>
    match self.runner with
    | .starting thread noWait =>
      if self.init = .sent then
        some { self with
          loopThreadId := some thread, status := .started, runner := .looping noWait }
      else none
    | _ => none
  | .deliver =>
    if self.status = .started ∧ self.delivery = .idle ∧ self.signal = true ∧
        self.handle = .opened then
      some { self with signal := false, delivery := .started }
    else none
  | .swap =>
    if self.delivery = .started then
      some { self with callbacks := [], batch := self.callbacks, delivery := .draining }
    else none
  | .exec =>
    match self.batch with
    | func :: batch => some { self with batch := batch, executed := self.executed ++ [func] }
    | [] => none
  | .drained =>
    if self.delivery = .draining ∧ self.batch = [] then some { self with delivery := .idle }
    else none
  | .leave =>
    match self.runner with
    | .looping noWait =>
      if self.delivery = .idle ∧ (noWait = true ∨ self.handle = .closed) then
        some { self with runner := .out, status := if noWait then .notStarted else .stopped }
      else none
    | _ => none
  | .call thread func =>
    match self.poster thread with
    | .idle => some (self.runInThisLoop thread func)
    | _ => none
  | .push thread =>
    match self.poster thread with
    | .pushing func => some (self.push thread func)
    | _ => none
  | .check thread =>
    match self.poster thread with
    | .pushed => some (self.check thread)
    | _ => none
  | .send thread =>
    match self.poster thread with
    | .sending => some (self.asyncSend.setPoster thread .idle)
    | _ => none
  | .stop =>
    if self.status = .started ∧ self.handle = .opened then some { self with handle := .closing }
    else some self
  | .asyncClosed =>
    if self.status = .started ∧ self.delivery = .idle ∧ self.handle = .closing then
      some { self with handle := .closed }
    else none

/-! What an event can do. -/

variable {s t : EventLoop α}

@[simp] theorem setPoster_self (s : EventLoop α) (thread : Nat) (poster : Poster α) :
    (s.setPoster thread poster).poster thread = poster := Function.update_self ..

theorem setPoster_of_ne (s : EventLoop α) {thread thread' : Nat} (poster : Poster α)
    (h : thread' ≠ thread) : (s.setPoster thread poster).poster thread' = s.poster thread' :=
  Function.update_of_ne h ..

/-- The call runs the task, or leaves it to a push, or there is none. -/
theorem runInThisLoop_cases (s : EventLoop α) (thread : Nat) (func : Option α) :
    s.runInThisLoop thread func = s ∨
    (∃ f, s.runInThisLoop thread func = { s with inlined := s.inlined ++ [f] }) ∨
    ∃ f, s.runInThisLoop thread func = s.setPoster thread (.pushing f) := by
  cases func with
  | none => exact .inl rfl
  | some f =>
    simp only [runInThisLoop]
    split
    · exact .inr (.inl ⟨f, rfl⟩)
    · exact .inr (.inr ⟨f, rfl⟩)

/-- No task moves, no delivery changes; only `stop` closes the handle, and only the return from
`uv_run` stops the loop. -/
structure Still (s : EventLoop α) (event : Event α) (t : EventLoop α) : Prop where
  undelivered : event ≠ .deliver
  callbacks : t.callbacks = s.callbacks
  batch : t.batch = s.batch
  posted : t.posted = s.posted
  executed : t.executed = s.executed
  delivery : t.delivery = s.delivery
  handle : event ≠ .stop → (t.handle = .opened ↔ s.handle = .opened)
  stopped : event ≠ .leave → t.status = .stopped → s.status = .stopped ∧ t.handle = s.handle

/-- Tasks and deliveries move in five ways. -/
inductive Effect (s : EventLoop α) (event : Event α) (t : EventLoop α) : Prop where
  | push (thread : Nat) (func : α) (he : event = .push thread) (ht : t = s.push thread func)
  | deliver (he : event = .deliver) (hst : s.status = .started) (hd : s.delivery = .idle)
      (ho : s.handle = .opened) (ht : t = { s with signal := false, delivery := .started })
  | swap (he : event = .swap) (hd : s.delivery = .started)
      (ht : t = { s with callbacks := [], batch := s.callbacks, delivery := .draining })
  | exec (func : α) (batch : List α) (he : event = .exec) (hb : s.batch = func :: batch)
      (ht : t = { s with batch := batch, executed := s.executed ++ [func] })
  | drained (he : event = .drained) (hd : s.delivery = .draining) (hb : s.batch = [])
      (ht : t = { s with delivery := .idle })
  | still (h : Still s event t)

theorem step_effect {event : Event α} (ht : step s event = some t) : Effect s event t := by
  cases event with
  | push thread =>
    simp only [step] at ht
    split at ht
    · exact .push thread _ rfl (Option.some.inj ht).symm
    · cases ht
  | deliver =>
    obtain ⟨⟨hst, hd, _, ho⟩, ht⟩ := Option.ite_none_right_eq_some.mp ht
    exact .deliver rfl hst hd ho (Option.some.inj ht).symm
  | swap =>
    obtain ⟨hd, ht⟩ := Option.ite_none_right_eq_some.mp ht
    exact .swap rfl hd (Option.some.inj ht).symm
  | exec =>
    simp only [step] at ht
    split at ht
    · rename_i func batch hb
      exact .exec func batch rfl hb (Option.some.inj ht).symm
    · cases ht
  | drained =>
    obtain ⟨⟨hd, hb⟩, ht⟩ := Option.ite_none_right_eq_some.mp ht
    exact .drained rfl hd hb (Option.some.inj ht).symm
  | run | assign | asyncInit | asyncSend =>
    obtain ⟨_, ht⟩ := Option.ite_none_right_eq_some.mp ht
    cases ht
    exact .still ⟨nofun, rfl, rfl, rfl, rfl, rfl, fun _ => Iff.rfl, fun _ h => ⟨h, rfl⟩⟩
  | enter =>
    simp only [step] at ht
    split at ht
    · obtain ⟨_, ht⟩ := Option.ite_none_right_eq_some.mp ht
      cases ht
      exact .still ⟨nofun, rfl, rfl, rfl, rfl, rfl, fun _ => Iff.rfl, fun _ h => (by cases h)⟩
    · cases ht
  | leave =>
    simp only [step] at ht
    split at ht
    · obtain ⟨_, ht⟩ := Option.ite_none_right_eq_some.mp ht
      cases ht
      exact .still ⟨nofun, rfl, rfl, rfl, rfl, rfl, fun _ => Iff.rfl, fun hn => absurd rfl hn⟩
    · cases ht
  | call thread func =>
    simp only [step] at ht
    split at ht
    · rcases runInThisLoop_cases s thread func with he | ⟨f, he⟩ | ⟨f, he⟩
      all_goals
        rw [he] at ht
        cases ht
        exact .still ⟨nofun, rfl, rfl, rfl, rfl, rfl, fun _ => Iff.rfl, fun _ h => ⟨h, rfl⟩⟩
    · cases ht
  | check | send =>
    simp only [step] at ht
    split at ht
    · cases ht
      exact .still ⟨nofun, rfl, rfl, rfl, rfl, rfl, fun _ => Iff.rfl, fun _ h => ⟨h, rfl⟩⟩
    · cases ht
  | stop =>
    simp only [step] at ht
    split at ht
    · rename_i hst
      cases ht
      refine .still ⟨nofun, rfl, rfl, rfl, rfl, rfl, fun hn => absurd rfl hn, fun _ h => ?_⟩
      cases hst.1.symm.trans h
    · cases ht
      exact .still ⟨nofun, rfl, rfl, rfl, rfl, rfl, fun hn => absurd rfl hn, fun _ h => ⟨h, rfl⟩⟩
  | asyncClosed =>
    obtain ⟨⟨hst, _, hc⟩, ht⟩ := Option.ite_none_right_eq_some.mp ht
    cases ht
    refine .still ⟨nofun, rfl, rfl, rfl, rfl, rfl, fun _ => ?_, fun _ h => ?_⟩
    · rw [hc]
      exact iff_of_false Phase.noConfusion Phase.noConfusion
    · cases hst.symm.trans h

/-! Where tasks end up: with the call, or in the queue. -/

/-- The task that a call runs in place. -/
def inPlace (s : EventLoop α) : Event α → List α
  | .call thread (some func) =>
    if s.isRunInLoopThread thread || s.isStopped then [func] else []
  | _ => []

/-- The task that a thread pushes. -/
def pushed (s : EventLoop α) : Event α → List α
  | .push thread =>
    match s.poster thread with
    | .pushing func => [func]
    | _ => []
  | _ => []

theorem step_logs {event : Event α} (ht : step s event = some t) :
    t.inlined = s.inlined ++ s.inPlace event ∧ t.posted = s.posted ++ s.pushed event := by
  have hsame (hi : t.inlined = s.inlined) (hp : t.posted = s.posted) :
      t.inlined = s.inlined ++ [] ∧ t.posted = s.posted ++ [] :=
    ⟨hi.trans (List.append_nil _).symm, hp.trans (List.append_nil _).symm⟩
  cases event with
  | call thread func =>
    simp only [step] at ht
    split at ht
    · obtain rfl := Option.some.inj ht
      cases func with
      | none => exact hsame rfl rfl
      | some func =>
        simp only [runInThisLoop, inPlace, pushed]
        split <;> simp [setPoster]
    · cases ht
  | push thread =>
    simp only [step] at ht
    split at ht
    · rename_i func hf
      obtain rfl := Option.some.inj ht
      simp only [pushed, hf]
      exact ⟨(List.append_nil _).symm, rfl⟩
    · cases ht
  | check | send | enter | leave | exec =>
    simp only [step] at ht
    split at ht <;> first
      | cases ht; exact hsame rfl rfl
      | cases ht
      | obtain ⟨-, ht⟩ := Option.ite_none_right_eq_some.mp ht
        cases ht
        exact hsame rfl rfl
  | stop =>
    simp only [step] at ht
    split at ht <;>
    · cases ht
      exact hsame rfl rfl
  | run | assign | asyncInit | asyncSend | deliver | swap | drained | asyncClosed =>
    obtain ⟨-, ht⟩ := Option.ite_none_right_eq_some.mp ht
    cases ht
    exact hsame rfl rfl

/-- What has been run in place, and pushed, is what the calls and the threads behind them did. -/
theorem run_logs {events : List (Event α)} (ht : step.run s events = some t) :
    t.inlined = s.inlined ++ step.trace inPlace s events ∧
      t.posted = s.posted ++ step.trace pushed s events := by
  induction events generalizing s with
  | nil =>
    cases ht
    exact ⟨(List.append_nil _).symm, (List.append_nil _).symm⟩
  | cons event events ih =>
    obtain ⟨u, hu, ht⟩ := Step.run_cons_eq_some.mp ht
    obtain ⟨hi, hp⟩ := step_logs hu
    obtain ⟨hi', hp'⟩ := ih ht
    rw [Step.trace_cons hu, Step.trace_cons hu, hi', hp', hi, hp, List.append_assoc, List.append_assoc]
    exact ⟨rfl, rfl⟩

end EventLoop
end AeProxy
