import AeProxy.Lib.System
import Mathlib.Data.List.Count

/-! A clock that only moves forward, and an alarm set against it that goes off late but never early
and is then set again. How often it goes off bounds the time that has passed, from both sides. -/
namespace AeProxy.Lib

/-- The time, and when the alarm goes off next, if it is set. -/
structure Alarm where
  now : Nat
  due : Option Nat
  deriving DecidableEq, Repr

namespace Alarm

inductive Event where
  | pass (time : Nat)
  | ring
  deriving DecidableEq, Repr

def set (self : Alarm) (delay : Nat) : Alarm := { self with due := some (self.now + delay) }

def stop (self : Alarm) : Alarm := { self with due := none }

def pass (self : Alarm) (time : Nat) : Alarm := { self with now := self.now + time }

def isDue (self : Alarm) : Bool := self.due.any (· ≤ self.now)

/-- Set again from the time it goes off at, and not at all with an interval of zero. -/
def rearm (self : Alarm) (interval : Nat) : Alarm :=
  if interval = 0 then self.stop else self.set interval

/-- It goes off some time after it is due. -/
def step (interval : Nat) : Step Alarm Event := fun self event =>
  match event with
  | .pass time => some (self.pass time)
  | .ring => if self.isDue then some (self.rearm interval) else none

/-- It goes off at most so much later than it is due. -/
def Timely (lateness : Nat) (self : Alarm) : Event → Prop
  | .pass time => ∀ d, self.due = some d → self.now + time ≤ d + lateness
  | .ring => True

/-- The time that passes over some events. -/
def elapsed : List Event → Nat
  | [] => 0
  | .pass time :: events => time + elapsed events
  | .ring :: events => elapsed events

theorem isDue_iff {self : Alarm} : self.isDue = true ↔ ∃ d, self.due = some d ∧ d ≤ self.now := by
  rw [isDue, Option.any_eq_true]
  simp only [decide_eq_true_eq]

@[simp] theorem rearm_now (self : Alarm) (interval : Nat) :
    (self.rearm interval).now = self.now := by
  unfold rearm
  split <;> rfl

theorem rearm_of_pos {interval : Nat} (h : 0 < interval) (self : Alarm) :
    self.rearm interval = self.set interval := if_neg (Nat.ne_of_gt h)

section run
variable {interval : Nat} {s t : Alarm} {events : List Event}

/-- A step that sets nothing but the time, or one that goes off. -/
theorem step_cases {event : Event} (h : step interval s event = some t) :
    (∃ time, event = .pass time ∧ t = s.pass time) ∨
    (event = .ring ∧ (∃ d, s.due = some d ∧ d ≤ s.now) ∧ t = s.rearm interval) := by
  cases event with
  | pass time => exact .inl ⟨time, rfl, (Option.some.inj h).symm⟩
  | ring =>
    obtain ⟨hd, h⟩ := Option.ite_none_right_eq_some.mp h
    exact .inr ⟨rfl, isDue_iff.mp hd, (Option.some.inj h).symm⟩

theorem run_now (h : (step interval).run s events = some t) : t.now = s.now + elapsed events := by
  induction events generalizing s with
  | nil =>
    cases h
    rfl
  | cons event events ih =>
    obtain ⟨u, hu, h⟩ := Step.run_cons_eq_some.mp h
    rw [ih h]
    rcases step_cases hu with ⟨time, rfl, rfl⟩ | ⟨rfl, -, rfl⟩
    · exact Nat.add_assoc ..
    · rw [rearm_now]
      rfl

/-- Each time it goes off takes the alarm on by an interval at least. -/
theorem due_ge (hp : 0 < interval) {d : Nat} (hd : s.due = some d)
    (h : (step interval).run s events = some t) :
    ∃ d', t.due = some d' ∧ d + events.count .ring * interval ≤ d' := by
  induction events generalizing s d with
  | nil =>
    cases h
    exact ⟨d, hd, by simp⟩
  | cons event events ih =>
    obtain ⟨u, hu, h⟩ := Step.run_cons_eq_some.mp h
    rcases step_cases hu with ⟨time, rfl, rfl⟩ | ⟨rfl, ⟨d₀, hd₀, hle⟩, rfl⟩
    · rw [List.count_cons_of_ne Event.noConfusion]
      exact ih (s := s.pass time) hd h
    · obtain rfl : d = d₀ := Option.some.inj (hd.symm.trans hd₀)
      rw [rearm_of_pos hp] at h
      obtain ⟨d', hd', hge⟩ := ih (s := s.set interval) rfl h
      refine ⟨d', hd', ?_⟩
      rw [List.count_cons_self, Nat.succ_mul]
      omega

/-- It is set an interval ahead at most. -/
def Ahead (interval : Nat) (self : Alarm) : Prop :=
  ∃ d, self.due = some d ∧ d ≤ self.now + interval

theorem Ahead.run (hp : 0 < interval) (ha : s.Ahead interval)
    (h : (step interval).run s events = some t) : t.Ahead interval := by
  refine Step.run_invariant (I := Ahead interval) (fun s event t ha h => ?_) ha h
  obtain ⟨d, hd, hle⟩ := ha
  rcases step_cases h with ⟨time, -, rfl⟩ | ⟨-, -, rfl⟩
  · exact ⟨d, hd, Nat.le_trans hle (Nat.add_le_add_right (Nat.le_add_right ..) _)⟩
  · rw [rearm_of_pos hp]
    exact ⟨_, rfl, Nat.le_refl _⟩

/-- All but the first of the times it goes off take an interval each. -/
theorem count_ring_mul_le (hp : 0 < interval) (ha : s.Ahead interval)
    (h : (step interval).run s events = some t) :
    events.count .ring * interval ≤ elapsed events + interval := by
  induction events generalizing s with
  | nil => simp
  | cons event events ih =>
    obtain ⟨u, hu, h⟩ := Step.run_cons_eq_some.mp h
    have hone : (step interval).run s [event] = some u :=
      Step.run_cons_eq_some.mpr ⟨u, hu, rfl⟩
    have hau := ha.run hp hone
    rcases step_cases hu with ⟨time, rfl, rfl⟩ | ⟨rfl, -, rfl⟩
    · rw [List.count_cons_of_ne Event.noConfusion]
      exact Nat.le_trans (ih hau h) (Nat.add_le_add_right (Nat.le_add_left ..) _)
    · -- behind the first time, the alarm is ahead by the intervals still to come
      rw [rearm_of_pos hp] at h hau
      obtain ⟨d, hd, hge⟩ := due_ge hp (s := s.set interval) rfl h
      obtain ⟨d', hd', hle⟩ := hau.run hp h
      obtain rfl : d = d' := Option.some.inj (hd.symm.trans hd')
      have hnow := run_now h
      rw [show (s.set interval).now = s.now from rfl] at hnow
      rw [List.count_cons_self, Nat.succ_mul]
      show _ ≤ elapsed events + interval
      omega

/-- It is not overdue by more than it may be late. -/
def OnTime (lateness : Nat) (self : Alarm) : Prop :=
  ∀ d, self.due = some d → self.now ≤ d + lateness

theorem OnTime.run {lateness : Nat} (ho : s.OnTime lateness)
    (ht : (step interval).Throughout (Timely lateness) s events)
    (h : (step interval).run s events = some t) : t.OnTime lateness := by
  refine Step.run_invariant_of (I := OnTime lateness) (fun s event t ho hc h => ?_) ho ht h
  rcases step_cases h with ⟨time, rfl, rfl⟩ | ⟨-, -, rfl⟩
  · exact hc
  · intro d hd
    unfold rearm at hd
    split at hd
    next => cases hd
    next =>
      obtain rfl : s.now + interval = d := Option.some.inj hd
      rw [rearm_now]
      omega

/-- An alarm that goes off on time goes off once in every interval and lateness, but for the first. -/
theorem elapsed_le {lateness : Nat} (hp : 0 < interval) (ha : s.Ahead interval)
    (ho : s.OnTime lateness) (ht : (step interval).Throughout (Timely lateness) s events)
    (h : (step interval).run s events = some t) :
    elapsed events ≤ (events.count .ring + 1) * (interval + lateness) := by
  obtain ⟨d, hd, hle⟩ := ha
  suffices hlate : s.now + elapsed events ≤
      d + lateness + events.count .ring * (interval + lateness) by
    rw [Nat.succ_mul]
    omega
  clear hle
  induction events generalizing s d with
  | nil => simpa [elapsed] using ho d hd
  | cons event events ih =>
    obtain ⟨u, hu, h⟩ := Step.run_cons_eq_some.mp h
    have htu := ht.2 u hu
    rcases step_cases hu with ⟨time, rfl, rfl⟩ | ⟨rfl, ⟨d₀, hd₀, -⟩, rfl⟩
    · have hon : (s.pass time).OnTime lateness := ht.1
      have hrest := ih hon htu h d hd
      rw [List.count_cons_of_ne Event.noConfusion]
      simpa [elapsed, pass, Nat.add_assoc] using hrest
    · have hnow := ho d hd
      rw [rearm_of_pos hp] at h htu
      have hon : (s.set interval).OnTime lateness := fun d' hd' => by
        obtain rfl : s.now + interval = d' := Option.some.inj hd'
        exact Nat.le_trans (Nat.le_add_right ..) (Nat.le_add_right ..)
      have hrest := ih hon htu h (s.now + interval) rfl
      have hset : (s.set interval).now = s.now := rfl
      rw [List.count_cons_self, Nat.succ_mul, elapsed]
      rw [hset] at hrest
      omega

end run
end Alarm
end AeProxy.Lib
