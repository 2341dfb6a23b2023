import AeProxy.Lib.System
import AeProxy.Server.IdleTimeout

/-! Which reconfigurations of the timer wheel keep its index within its buckets: `set_timeout` may
come at any time, but only `start` resizes the wheel and only a tick moves the index. -/
namespace AeProxy

namespace TimerWheel
variable {α : Type*}

/-- A wheel that has not been started has no bucket, and the index can be incremented. -/
structure Consistent (w : TimerWheel α) : Prop where
  fresh : w.started = false → w.wheel = [] ∧ w.index = 0
  index_lt : w.index.toNat + 1 < 2 ^ 32
  length_lt : w.wheel.length < 2 ^ 32

/-- Under timeout `T` the index stays within the buckets; the last case is the gate in front of
`insert`, closed from `2 ^ 31` on. -/
def FitsWith (w : TimerWheel α) (T : UInt32) : Prop :=
  T = 0 ∨ (w.index.toNat < T.toNat ∧ T.toNat ≤ w.wheel.length) ∨
    (w.started = false ∧ 2 ^ 31 ≤ T.toNat)

theorem toNat_pos {T : UInt32} (h : T ≠ 0) : 0 < T.toNat := by
  apply Nat.pos_of_ne_zero
  intro he
  exact h (UInt32.toNat_inj.mp he)

/-- What an access that goes through leaves as it was. -/
theorem modifyAt_eq_some {w w' : TimerWheel α} {index : UInt32} {f : Finset α → Finset α}
    (h : w.modifyAt index f = some w') :
    index.toNat < w.wheel.length ∧ w'.index = index ∧ w'.timeoutSec = w.timeoutSec ∧
      w'.started = w.started ∧ w'.wheel.length = w.wheel.length := by
  unfold modifyAt at h
  split at h
  · cases h
    exact ⟨by assumption, rfl, rfl, rfl, List.length_modify ..⟩
  · cases h

theorem modifyAt_eq_none {w : TimerWheel α} {index : UInt32} {f : Finset α → Finset α} :
    w.modifyAt index f = none ↔ w.wheel.length ≤ index.toNat := by
  unfold modifyAt
  split
  · simpa
  · simpa using Nat.le_of_not_lt (by assumption)

theorem consistent_new (T : UInt32) : (new T : TimerWheel α).Consistent where
  fresh _ := ⟨rfl, rfl⟩
  index_lt := by simp [new]
  length_lt := by simp [new]

namespace Consistent
variable {w w' : TimerWheel α}

theorem index_succ (h : w.Consistent) : (w.index + 1).toNat = w.index.toNat + 1 := by
  rw [UInt32.toNat_add, UInt32.toNat_one, Nat.mod_eq_of_lt h.index_lt]

theorem setTimeout (h : w.Consistent) (T : UInt32) : (w.setTimeout T).Consistent :=
  ⟨h.fresh, h.index_lt, h.length_lt⟩

theorem start (h : w.Consistent) : w.start.Consistent := by
  unfold TimerWheel.start
  split
  · refine ⟨fun hs => (by cases hs), h.index_lt, ?_⟩
    rw [List.takeD_length]
    exact w.timeoutSec.toNat_lt
  · exact h

theorem modifyAt (h : w.Consistent) {index : UInt32} {f : Finset α → Finset α}
    (hw : w.modifyAt index f = some w') : w'.Consistent := by
  obtain ⟨hi, hidx, _, hst, hlen⟩ := modifyAt_eq_some hw
  have hl := h.length_lt
  refine ⟨fun hs => ?_, by rw [hidx]; omega, by omega⟩
  rw [(h.fresh (hst ▸ hs)).1] at hi
  exact absurd hi (Nat.not_lt_zero _)

theorem insert [DecidableEq α] (h : w.Consistent) {v : Option α} (hw : w.insert v = some w') :
    w'.Consistent := by
  unfold TimerWheel.insert at hw
  split at hw
  · split at hw
    · exact h.modifyAt hw
    · exact Option.some.inj hw ▸ h
  · exact Option.some.inj hw ▸ h

theorem wheelCallback (h : w.Consistent) (hw : w.wheelCallback = some w') : w'.Consistent := by
  unfold TimerWheel.wheelCallback at hw
  split at hw
  · exact Option.some.inj hw ▸ h
  · exact h.modifyAt hw

end Consistent

/-- The index a tick moves to. -/
def nextIndex (w : TimerWheel α) : UInt32 := if w.index + 1 = w.timeoutSec then 0 else w.index + 1

theorem wheelCallback_eq {w : TimerWheel α} (hT : w.timeoutSec ≠ 0) :
    w.wheelCallback = w.modifyAt w.nextIndex fun _ => ∅ := if_neg hT

theorem insert_some_eq [DecidableEq α] {w : TimerWheel α} (hT : w.timeoutSec ≠ 0) (v : α) :
    w.insert (some v) = w.modifyAt w.index (Insert.insert v) := by
  have hpos : w.timeoutSec > 0 := UInt32.lt_iff_toNat_lt.mpr (toNat_pos hT)
  exact if_pos hpos

/-- While no index up to the end of the buckets is the timeout, ticks run off that end. -/
structure Doomed (w : TimerWheel α) : Prop where
  enabled : w.timeoutSec ≠ 0
  index_lt : w.index.toNat < w.wheel.length
  misses : ∀ j, w.index.toNat < j → j ≤ w.wheel.length → w.timeoutSec.toNat ≠ j

theorem Doomed.nextIndex {w : TimerWheel α} (h : w.Doomed) (hc : w.Consistent) :
    w.nextIndex.toNat = w.index.toNat + 1 := by
  rw [TimerWheel.nextIndex, if_neg, hc.index_succ]
  intro he
  exact h.misses _ (Nat.lt_succ_self _) h.index_lt (by rw [← he, hc.index_succ])

/-- A tick either fails or comes one bucket closer to failing. -/
theorem Doomed.tick {w : TimerWheel α} (h : w.Doomed) (hc : w.Consistent) :
    w.wheelCallback = none ∨ ∃ w', w.wheelCallback = some w' ∧ w'.started = w.started ∧
      w'.Doomed ∧ w'.wheel.length - w'.index.toNat < w.wheel.length - w.index.toNat := by
  rw [wheelCallback_eq h.enabled]
  cases hw : w.modifyAt w.nextIndex fun _ => ∅ with
  | none => exact .inl rfl
  | some w' =>
    obtain ⟨hi, hidx, hT, hst, hlen⟩ := modifyAt_eq_some hw
    have hn := h.nextIndex hc
    rw [← hidx] at hi hn
    refine .inr ⟨w', rfl, hst, ⟨hT ▸ h.enabled, by omega, fun j hj hle => ?_⟩, by omega⟩
    rw [hT]
    exact h.misses j (by omega) (by omega)

/-- A started wheel that does not fit its timeout fails on the next tick or is doomed after it. -/
theorem doomed_of_not_fits {w : TimerWheel α} (hc : w.Consistent) (hs : w.started = true)
    (hf : ¬ w.FitsWith w.timeoutSec) : w.Doomed ∨ w.wheelCallback = none ∨
      ∃ w', w.wheelCallback = some w' ∧ w'.started = true ∧ w'.Consistent ∧ w'.Doomed := by
  unfold FitsWith at hf
  push Not at hf
  obtain ⟨hT, hle, -⟩ := hf
  rcases Nat.lt_or_ge w.index.toNat w.wheel.length with hi | hi
  · exact .inl ⟨hT, hi, fun j hj hjl he => by have := hle (by omega); omega⟩
  · right
    rw [wheelCallback_eq hT]
    cases hw : w.modifyAt w.nextIndex fun _ => ∅ with
    | none => exact .inl rfl
    | some w' =>
      obtain ⟨hlt, hidx, hT', hst, hlen⟩ := modifyAt_eq_some hw
      -- only the index that closes the rotation is back within the buckets
      have he : w.index + 1 = w.timeoutSec := by
        by_contra hne
        rw [nextIndex, if_neg hne, hc.index_succ] at hlt
        omega
      have h0 : w'.index.toNat = 0 := by
        rw [hidx, nextIndex, if_pos he]
        rfl
      have hTn : w.timeoutSec.toNat = w.index.toNat + 1 := by rw [← he, hc.index_succ]
      refine .inr ⟨w', rfl, hst.trans hs, hc.modifyAt hw, hT' ▸ hT, by omega, fun j hj hjl => ?_⟩
      rw [hT']
      omega

/-- A wheel that fits keeps fitting, tick or insertion. -/
theorem FitsWith.wheelCallback {w : TimerWheel α} (hc : w.Consistent) (hs : w.started = true)
    (hf : w.FitsWith w.timeoutSec) :
    ∃ w', w.wheelCallback = some w' ∧ w'.FitsWith w'.timeoutSec := by
  rcases hf with h0 | ⟨hi, hl⟩ | ⟨hn, _⟩
  · exact ⟨w, if_pos h0, .inl h0⟩
  · have hT : w.timeoutSec ≠ 0 := by
      intro he
      rw [he] at hi
      exact absurd hi (Nat.not_lt_zero _)
    have hlt : w.nextIndex.toNat < w.timeoutSec.toNat := by
      unfold nextIndex
      split
      · exact toNat_pos hT
      · rename_i hne
        have hne' : w.index.toNat + 1 ≠ w.timeoutSec.toNat := by
          rw [← hc.index_succ]
          exact fun he => hne (UInt32.toNat_inj.mp he)
        rw [hc.index_succ]
        omega
    obtain ⟨w', hw, hidx, hT', -, hlen, -⟩ :=
      modifyAt_of_lt (fun _ => ∅) (Nat.lt_of_lt_of_le hlt hl)
    refine ⟨w', (wheelCallback_eq hT).trans hw, .inr (.inl ?_)⟩
    rw [hidx, hT', hlen]
    exact ⟨hlt, hl⟩
  · rw [hs] at hn
    cases hn

theorem FitsWith.insert [DecidableEq α] {w : TimerWheel α} (hg : w.getTimeout > 0)
    (hf : w.FitsWith w.timeoutSec) (v : Option α) :
    ∃ w', w.insert v = some w' ∧ w'.FitsWith w'.timeoutSec := by
  cases v with
  | none => exact ⟨w, rfl, hf⟩
  | some v =>
    obtain ⟨hpos, hlt⟩ := w.getTimeout_pos_iff.mp hg
    rcases hf with h0 | ⟨hi, hl⟩ | ⟨_, hle⟩
    · rw [h0] at hpos
      exact absurd hpos (Nat.lt_irrefl 0)
    · have hT : w.timeoutSec ≠ 0 := by
        intro he
        rw [he] at hpos
        exact absurd hpos (Nat.lt_irrefl 0)
      obtain ⟨w', hw, hidx, hT', -, hlen, -⟩ :=
        modifyAt_of_lt (Insert.insert v) (Nat.lt_of_lt_of_le hi hl)
      refine ⟨w', (insert_some_eq hT v).trans hw, .inr (.inl ?_)⟩
      rw [hidx, hT', hlen]
      exact ⟨hi, hl⟩
    · omega

end TimerWheel

namespace WheelSafety
open Lib

inductive Event where
  | setTimeout (seconds : UInt32)
  | listen
  | traffic (event : IdleTimeout.Event)
  deriving DecidableEq

/-- A server, and whether it has listened: nothing is accepted or received before. -/
structure State where
  server : IdleTimeout.Server
  listened : Bool

namespace State

def new : State := ⟨⟨TimerWheel.new 0, 0, 0⟩, false⟩

def wheel (self : State) : TimerWheel Nat := self.server.timerWheel

def setTimeout (self : State) (seconds : UInt32) : State :=
  { self with server := { self.server with timerWheel := self.wheel.setTimeout seconds } }

/-- Also once more, on another address; that this frees the handle of the first acceptor, on which
libuv still listens, is left out. -/
def listen (self : State) : State :=
  ⟨{ self.server with timerWheel := self.wheel.start }, true⟩

/-- `none` is an access outside the wheel. -/
def step : Step State Event := fun self event =>
  match event with
  | .setTimeout seconds => some (self.setTimeout seconds)
  | .listen => some self.listen
  | .traffic event =>
    if self.listened then (self.server.step event).map fun server => { self with server := server }
    else some self

variable {events : List IdleTimeout.Event}

theorem run_traffic {self : State} (hl : self.listened = true) :
    step.run self (events.map .traffic) =
      (self.server.run events).map fun server => { self with server := server } := by
  induction events generalizing self with
  | nil => rfl
  | cons event events ih =>
    have hstep : step self (.traffic event) =
      (self.server.step event).map fun server => { self with server := server } := if_pos hl
    rw [List.map_cons, Step.run, hstep, IdleTimeout.Server.run]
    cases self.server.step event with
    | none => rfl
    | some server => exact ih hl

/-- The idle timeout is what a server does whose timeout is set once, and which listens once. -/
theorem run_listening (T : UInt32) :
    step.run new (.setTimeout T :: .listen :: events.map .traffic) =
      ((IdleTimeout.Server.listening T).run events).map (⟨·, true⟩) := by
  have hl : (new.setTimeout T).listen.listened = true := rfl
  exact run_traffic hl

end State
open State

/-- No access has failed so far, and none will as long as the wheel is left as it is. -/
def Safe (s : State) : Prop := ∀ traffic : List IdleTimeout.Event,
  step.run s (traffic.map .traffic) ≠ none

/-- When `set_timeout` and `listen` may be called. -/
def Admissible (s : State) : Event → Prop
  | .setTimeout seconds => s.listened = false ∨ s.wheel.FitsWith seconds
  | .listen => s.wheel.timeoutSec = 0 ∨ s.wheel.index.toNat < s.wheel.timeoutSec.toNat
  | .traffic _ => True

/-- Before `listen` there is nothing to fit. -/
def Fits (s : State) : Prop := s.listened = false ∨ s.wheel.FitsWith s.wheel.timeoutSec

structure Good (s : State) : Prop where
  wheel : s.wheel.Consistent
  idle : s.listened = false → s.wheel.started = false

theorem good_new : Good new := ⟨TimerWheel.consistent_new 0, fun _ => rfl⟩

/-- An event of the traffic replaces the wheel by what one operation makes of it; that keeps it
consistent and cannot fail on a wheel that fits. -/
theorem server_step_eq {s : IdleTimeout.Server} (hc : s.timerWheel.Consistent)
    (event : IdleTimeout.Event) :
    ∃ (w : Option (TimerWheel Nat)) (f : TimerWheel Nat → IdleTimeout.Server),
      s.step event = w.map f ∧ (∀ w, (f w).timerWheel = w) ∧
      (∀ w', w = some w' → w'.Consistent) ∧
      (s.timerWheel.FitsWith s.timerWheel.timeoutSec →
        ∃ w', w = some w' ∧ w'.FitsWith w'.timeoutSec) := by
  have hinsert (hg : s.timerWheel.getTimeout > 0) (v : Option Nat) :
      (∀ w', s.timerWheel.insert v = some w' → w'.Consistent) ∧
      (s.timerWheel.FitsWith s.timerWheel.timeoutSec →
        ∃ w', s.timerWheel.insert v = some w' ∧ w'.FitsWith w'.timeoutSec) :=
    ⟨fun _ hw => hc.insert hw, fun hf => hf.insert hg v⟩
  have hkeep : (∀ w', some s.timerWheel = some w' → w'.Consistent) ∧
      (s.timerWheel.FitsWith s.timerWheel.timeoutSec →
        ∃ w', some s.timerWheel = some w' ∧ w'.FitsWith w'.timeoutSec) :=
    ⟨fun w' hw => Option.some.inj hw ▸ hc, fun hf => ⟨_, rfl, hf⟩⟩
  cases event with
  | accept =>
    simp only [IdleTimeout.Server.step, IdleTimeout.Server.onAccept]
    split
    · rename_i hg
      exact ⟨_, _, rfl, fun _ => rfl, hinsert hg _⟩
    · exact ⟨_, fun w => ⟨w, s.accepted + 1, s.closed⟩, rfl, fun _ => rfl, hkeep⟩
  | message c =>
    simp only [IdleTimeout.Server.step, IdleTimeout.Server.onMessage]
    split
    · rename_i hg
      exact ⟨_, _, rfl, fun _ => rfl, hinsert hg _⟩
    · exact ⟨_, fun w => { s with timerWheel := w }, rfl, fun _ => rfl, hkeep⟩
  | tick =>
    simp only [IdleTimeout.Server.step, IdleTimeout.Server.onTick]
    split
    · rename_i hs
      exact ⟨_, _, rfl, fun _ => rfl, fun _ hw => hc.wheelCallback hw,
        fun hf => hf.wheelCallback hc hs⟩
    · exact ⟨_, fun w => { s with timerWheel := w }, rfl, fun _ => rfl, hkeep⟩

namespace Good
variable {s t : State}

/-- Traffic keeps the state good, and goes through where the wheel fits. -/
theorem traffic (h : Good s) (event : IdleTimeout.Event) :
    (∀ t, step s (.traffic event) = some t → Good t) ∧
    (Fits s → ∃ t, step s (.traffic event) = some t ∧ Fits t) := by
  rcases hl : s.listened with _ | _
  · have hstep : step s (.traffic event) = some s := by simp [step, hl]
    rw [hstep]
    exact ⟨fun t ht => Option.some.inj ht ▸ h, fun hf => ⟨s, rfl, hf⟩⟩
  · obtain ⟨w, f, hw, hfw, hgood, hfit⟩ := server_step_eq h.wheel event
    have hstep : step s (.traffic event) = w.map fun w => ⟨f w, true⟩ := by
      have hmap : step s (.traffic event) =
          (s.server.step event).map fun server => ⟨server, s.listened⟩ := if_pos hl
      rw [hmap, hw, hl, Option.map_map]
      rfl
    have hwheel (w : TimerWheel Nat) : (⟨f w, true⟩ : State).wheel = w := hfw w
    rw [hstep]
    constructor
    · intro t ht
      obtain ⟨w', hw', rfl⟩ := Option.map_eq_some_iff.mp ht
      exact ⟨(hwheel w').symm ▸ hgood w' hw', fun hc => (by cases hc)⟩
    · intro hf
      obtain ⟨w', rfl, hf'⟩ := hfit (hf.resolve_left (by rw [hl]; exact Bool.noConfusion))
      refine ⟨_, rfl, .inr ?_⟩
      rw [hwheel]
      exact hf'

theorem setTimeout (h : Good s) (seconds : UInt32) : Good (s.setTimeout seconds) :=
  ⟨h.wheel.setTimeout seconds, h.idle⟩

theorem listen (h : Good s) : Good s.listen :=
  ⟨h.wheel.start, fun hc => (by cases hc)⟩

theorem step (h : Good s) {event : Event} (ht : State.step s event = some t) : Good t := by
  cases event with
  | setTimeout seconds => exact Option.some.inj ht ▸ h.setTimeout seconds
  | listen => exact Option.some.inj ht ▸ h.listen
  | traffic event => exact (h.traffic event).1 t ht

/-- After `start` the wheel is as long as its timeout. -/
theorem fits_listen_iff : Fits s.listen ↔ Admissible s .listen := by
  unfold Fits Admissible
  have hl : s.listen.listened = true := rfl
  have hw : s.listen.wheel = s.wheel.start := rfl
  rw [hl, hw]
  unfold TimerWheel.start
  split
  · rename_i hT
    simp [TimerWheel.FitsWith, hT]
  · rename_i hT
    have h0 : s.wheel.timeoutSec = 0 := not_not.mp hT
    simp [TimerWheel.FitsWith, h0]

/-- An event the code lets through keeps the wheel fitting exactly if it is admissible. -/
theorem fits_step_iff (h : Good s) (hf : Fits s) {event : Event}
    (ht : State.step s event = some t) : Fits t ↔ Admissible s event := by
  cases event with
  | setTimeout seconds =>
    obtain rfl : s.setTimeout seconds = t := Option.some.inj ht
    rfl
  | listen =>
    obtain rfl : s.listen = t := Option.some.inj ht
    exact fits_listen_iff
  | traffic event =>
    obtain ⟨u, hu, hfu⟩ := (h.traffic event).2 hf
    obtain rfl : u = t := Option.some.inj (hu.symm.trans ht)
    exact iff_of_true hfu trivial

/-- An admissible event goes through. -/
theorem step_admissible (h : Good s) (hf : Fits s) {event : Event} (ha : Admissible s event) :
    ∃ t, State.step s event = some t ∧ Good t ∧ Fits t := by
  have hgo : ∃ t, State.step s event = some t := by
    cases event with
    | setTimeout seconds => exact ⟨_, rfl⟩
    | listen => exact ⟨_, rfl⟩
    | traffic event =>
      obtain ⟨t, ht, _⟩ := (h.traffic event).2 hf
      exact ⟨t, ht⟩
  obtain ⟨t, ht⟩ := hgo
  exact ⟨t, ht, h.step ht, (h.fits_step_iff hf ht).mpr ha⟩

/-- Whatever the traffic, a wheel that fits is safe. -/
theorem safe (h : Good s) (hf : Fits s) : Safe s := by
  intro traffic
  have hadm : State.step.Throughout Admissible s (traffic.map .traffic) := by
    induction traffic generalizing s with
    | nil => exact trivial
    | cons event traffic ih =>
      refine ⟨trivial, fun t ht => ih (h.step ht) ?_⟩
      exact (h.fits_step_iff hf ht).mpr trivial
  obtain ⟨t, ht, _⟩ := Step.run_total_of (I := fun s => Good s ∧ Fits s)
    (fun s e ⟨hg, hf⟩ ha => hg.step_admissible hf ha) ⟨h, hf⟩ hadm
  rw [ht]
  exact Option.some_ne_none t

end Good

/-! A wheel that does not fit: enough ticks, or one accepted connection, reach outside it. -/

theorem step_tick {s : State} (hl : s.listened = true) (hs : s.wheel.started = true) :
    ∃ f : TimerWheel Nat → State, step s (.traffic .tick) = s.wheel.wheelCallback.map f ∧
      ∀ w, (f w).wheel = w ∧ (f w).listened = true := by
  have hstep : step s (.traffic .tick) = s.server.onTick.map fun server => ⟨server, s.listened⟩ :=
    if_pos hl
  have htick : s.server.onTick = s.wheel.wheelCallback.map fun w =>
      ⟨w, s.server.accepted, s.server.closed + (s.wheel.held \ w.held).val⟩ := if_pos hs
  rw [hstep, htick, Option.map_map]
  exact ⟨_, rfl, fun w => ⟨rfl, hl⟩⟩

theorem doomed_ticks {s : State} (hl : s.listened = true) (hs : s.wheel.started = true)
    (hc : s.wheel.Consistent) (hd : s.wheel.Doomed) :
    ∃ k, step.run s (List.replicate k (.traffic .tick)) = none := by
  induction hm : s.wheel.wheel.length - s.wheel.index.toNat using Nat.strongRecOn generalizing s with
  | _ m ih =>
    obtain ⟨f, hstep, hf⟩ := step_tick hl hs
    rcases hd.tick hc with hnone | ⟨w, hw, hst, hdw, hlt⟩
    · refine ⟨1, ?_⟩
      rw [List.replicate_succ, Step.run, hstep, hnone]
      rfl
    · have hfw := hf w
      obtain ⟨k, hk⟩ := ih (w.wheel.length - w.index.toNat) (by omega) (s := f w) hfw.2
        (by rw [hfw.1, hst, hs]) (by rw [hfw.1]; exact hc.wheelCallback hw)
        (by rw [hfw.1]; exact hdw) (by rw [hfw.1])
      refine ⟨k + 1, ?_⟩
      rw [List.replicate_succ, Step.run, hstep, hw]
      exact hk

/-- Before the wheel has been started a connection is inserted into no bucket at all. -/
theorem accept_fails {s : State} (h : Good s) (hl : s.listened = true)
    (hs : s.wheel.started = false) (hf : ¬ Fits s) : step s (.traffic .accept) = none := by
  unfold Fits TimerWheel.FitsWith at hf
  push Not at hf
  obtain ⟨-, hT, -, hgate⟩ := hf
  have hlt := hgate hs
  obtain ⟨hempty, -⟩ := h.wheel.fresh hs
  have hg : s.server.timerWheel.getTimeout > 0 :=
    s.wheel.getTimeout_pos_iff.mpr ⟨TimerWheel.toNat_pos hT, hlt⟩
  have hins : s.wheel.insert (some s.server.accepted) = none := by
    rw [TimerWheel.insert_some_eq hT, TimerWheel.modifyAt_eq_none, hempty]
    exact Nat.zero_le _
  have hacc : s.server.onAccept = none := by
    rw [IdleTimeout.Server.onAccept, if_pos hg]
    exact Option.map_eq_none_iff.mpr hins
  have hstep : step s (.traffic .accept) =
      s.server.onAccept.map fun server => ⟨server, s.listened⟩ := if_pos hl
  rw [hstep, hacc]
  rfl

/-- Some traffic reaches outside a wheel that does not fit. -/
theorem Good.fits_of_safe {s : State} (h : Good s) (hsafe : Safe s) : Fits s := by
  by_contra hf
  have hl : s.listened = true := by
    rw [Fits, not_or] at hf
    simpa using hf.1
  rcases hs : s.wheel.started with _ | _
  · apply hsafe [.accept]
    rw [List.map_cons, Step.run, accept_fails h hl hs hf]
    rfl
  · obtain ⟨f, hstep, hfw⟩ := step_tick hl hs
    have hfit : ¬ s.wheel.FitsWith s.wheel.timeoutSec := fun hfit => hf (.inr hfit)
    have hticks (k : Nat) : List.replicate k (Event.traffic .tick) =
        (List.replicate k .tick).map .traffic := by rw [List.map_replicate]
    rcases TimerWheel.doomed_of_not_fits h.wheel hs hfit with hd | hnone | ⟨w, hw, hst, hc, hd⟩
    · obtain ⟨k, hk⟩ := doomed_ticks hl hs h.wheel hd
      exact hsafe _ (hticks k ▸ hk)
    · apply hsafe [.tick]
      rw [List.map_cons, Step.run, hstep, hnone]
      rfl
    · obtain ⟨k, hk⟩ := doomed_ticks (s := f w) (hfw w).2 (by rw [(hfw w).1, hst])
        (by rw [(hfw w).1]; exact hc) (by rw [(hfw w).1]; exact hd)
      apply hsafe (.tick :: List.replicate k .tick)
      rw [List.map_cons, Step.run, hstep, hw, ← hticks]
      exact hk

/-- No access made along the events is outside the wheel, nor is any that traffic between them
could have made, exactly if every `set_timeout` and `listen` is admissible where it is called. -/
theorem safe_iff_admissible (events : List Event) :
    (∀ before later, events = before ++ later → ∃ s, step.run new before = some s ∧ Safe s) ↔
      step.Throughout Admissible new events := by
  have hfits : Fits new := .inl rfl
  constructor
  · intro h
    obtain ⟨t, ht, _⟩ := h events [] (List.append_nil events).symm
    refine (Step.prefixes_iff_throughout (fun s e t hg _ _ ht => hg.step ht)
      (fun s e t hg hf ht => hg.fits_step_iff hf ht) good_new hfits ht).mp ?_
    intro before later u he hu
    obtain ⟨s, hs, hsafe⟩ := h before later he
    obtain rfl : s = u := Option.some.inj (hs.symm.trans hu)
    exact (Step.run_invariant (fun s e t hg ht => hg.step ht) good_new hu).fits_of_safe hsafe
  · rintro h before later rfl
    obtain ⟨s, hs, hg, hf⟩ := Step.run_total_of (I := fun s => Good s ∧ Fits s)
      (fun s e ⟨hg, hf⟩ ha => hg.step_admissible hf ha) ⟨good_new, hfits⟩ h.of_append
    exact ⟨s, hs, hg.safe hf⟩

/-- `listen` without a timeout, a timeout of 5 seconds, and the first connection. -/
theorem accept_outside_wheel :
    step.run new [.listen, .setTimeout 5, .traffic .accept] = none := rfl

end WheelSafety
end AeProxy
