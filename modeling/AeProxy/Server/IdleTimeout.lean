import AeProxy.Server.TimerWheel
import Mathlib.Data.Multiset.Count
import Mathlib.Data.Multiset.AddSub

/-! The idle timeout of `TcpServer`: accepts and messages insert a connection's wrapper into the
wheel, and the destructor of a wrapper no bucket refers to any more closes its connection. -/
namespace AeProxy.IdleTimeout
open Lib

/-- Connections are numbered in the order they are accepted. -/
inductive Event where
  | accept
  | message (connection : Nat)
  | tick
  deriving DecidableEq, Repr

/-- The wheel of wrappers, the number of connections accepted, and those whose wrapper's
destructor has run `on_socket_close`, once for each run. -/
structure Server where
  timerWheel : TimerWheel Nat
  accepted : Nat
  closed : Multiset Nat

namespace Server

/-- `set_timeout` before `listen`. -/
def listening (T : UInt32) : Server := ⟨((TimerWheel.new 0).setTimeout T).start, 0, 0⟩

/-- The weak pointer a connection keeps; only buckets own wrappers. -/
def getWrapper (self : Server) (connection : Nat) : Option Nat :=
  if connection ∈ self.timerWheel.held then some connection else none

/-- `none`, here and below, is an access outside the wheel. -/
def onAccept (self : Server) : Option Server :=
  let server := { self with accepted := self.accepted + 1 }
  if self.timerWheel.getTimeout > 0 then
    (self.timerWheel.insert (some self.accepted)).map fun w => { server with timerWheel := w }
  else some server

def onMessage (self : Server) (connection : Nat) : Option Server :=
  if self.timerWheel.getTimeout > 0 then
    (self.timerWheel.insert (self.getWrapper connection)).map fun w =>
      { self with timerWheel := w }
  else some self

/-- A wrapper that leaves the last bucket is destroyed, and closes its connection. -/
def onTick (self : Server) : Option Server :=
  if self.timerWheel.started then
    self.timerWheel.wheelCallback.map fun w =>
      { self with timerWheel := w, closed := self.closed + (self.timerWheel.held \ w.held).val }
  else some self

def step (self : Server) : Event → Option Server
  | .accept => self.onAccept
  | .message connection => self.onMessage connection
  | .tick => self.onTick

def run (self : Server) : List Event → Option Server
  | [] => some self
  | event :: events => (self.step event).bind fun server => server.run events

theorem run_append (self : Server) (events events' : List Event) :
    self.run (events ++ events') = (self.run events).bind fun server => server.run events' := by
  induction events generalizing self with
  | nil => rfl
  | cons event events ih => simp [run, ih, Option.bind_assoc]

/-- A wrapper belongs to a connection that has been accepted. -/
def Numbered (self : Server) : Prop := ∀ c ∈ self.timerWheel.held, c < self.accepted

theorem Numbered.step {s t : Server} (h : s.Numbered) {event : Event} (ht : s.step event = some t) :
    t.Numbered ∧ t.accepted = s.accepted + (if event = .accept then 1 else 0) ∧
      ∀ c ∈ t.closed - s.closed, c < s.accepted := by
  have hnone (c : Nat) : c ∉ s.closed - s.closed := fun hc =>
    absurd (Multiset.mem_sub.mp hc) (Nat.lt_irrefl _)
  cases event with
  | accept =>
    simp only [Server.step, onAccept] at ht
    split at ht
    · obtain ⟨w, hw, rfl⟩ := Option.map_eq_some_iff.mp ht
      refine ⟨fun c hc => ?_, rfl, fun c hc => absurd hc (hnone c)⟩
      rcases TimerWheel.held_of_insert hw hc with hc | hc
      · exact Nat.lt_succ_of_lt (h c hc)
      · exact Option.some.inj hc ▸ Nat.lt_succ_self _
    · obtain rfl := Option.some.inj ht
      exact ⟨fun c hc => Nat.lt_succ_of_lt (h c hc), rfl, fun c hc => absurd hc (hnone c)⟩
  | message c =>
    simp only [Server.step, onMessage] at ht
    split at ht
    · obtain ⟨w, hw, rfl⟩ := Option.map_eq_some_iff.mp ht
      refine ⟨fun d hd => ?_, rfl, fun c hc => absurd hc (hnone c)⟩
      rcases TimerWheel.held_of_insert hw hd with hd | hd
      · exact h d hd
      · obtain ⟨hm, hd⟩ := Option.ite_none_right_eq_some.mp hd
        exact Option.some.inj hd ▸ h c hm
    · obtain rfl := Option.some.inj ht
      exact ⟨h, rfl, fun c hc => absurd hc (hnone c)⟩
  | tick =>
    simp only [Server.step, onTick] at ht
    split at ht
    · obtain ⟨w, hw, rfl⟩ := Option.map_eq_some_iff.mp ht
      refine ⟨fun c hc => h c (TimerWheel.held_of_wheelCallback hw hc), rfl, fun c hc => ?_⟩
      rw [Multiset.add_comm, Multiset.add_sub_cancel_right] at hc
      exact h c (Finset.mem_sdiff.mp hc).1
    · obtain rfl := Option.some.inj ht
      exact ⟨h, rfl, fun c hc => absurd hc (hnone c)⟩

/-- The event inserts the connection's wrapper. -/
def Inserts (self : Server) (connection : Nat) : Event → Prop
  | .accept => connection = self.accepted
  | .message c => c = connection ∧ connection ∈ self.timerWheel.held
  | .tick => False

end Server

open Server

/-- Under timeout `T` a wrapper is held for fewer than `T` ticks behind its latest insertion, from
the `T`-th on its connection has been closed, once, and it stays so. -/
structure IdleExact (T : UInt32) : Prop where
  runs : ∀ events, (listening T).run events ≠ none
  exact : ∀ before event later c s t, (listening T).run before = some s → s.Inserts c event →
    .message c ∉ later → (listening T).run (before ++ event :: later) = some t →
    (later.count .tick < T.toNat → c ∈ t.timerWheel.held ∧ t.closed.count c = 0) ∧
    (T.toNat ≤ later.count .tick → c ∉ t.timerWheel.held ∧ t.closed.count c = 1)
  final : ∀ before later c s t, (listening T).run before = some s → c ∈ s.closed →
    (listening T).run (before ++ later) = some t →
    c ∉ t.timerWheel.held ∧ t.closed.count c = 1

/-! The wheel forgets a connection as a count of its idle ticks would. -/

/-- What an event does to the idle ticks of the connections still open. -/
def advance (T accepted : Nat) (r : Recency Nat) : Event → Recency Nat
  | .accept => r.touch accepted
  | .message c => if r c = none then r else r.touch c
  | .tick => r.tick T

theorem advance_none {T accepted : Nat} {r : Recency Nat} {c : Nat} (hc : c ≠ accepted)
    (hr : r c = none) (event : Event) : advance T accepted r event c = none := by
  cases event with
  | accept => exact (r.touch_of_ne hc).trans hr
  | message d =>
    rcases eq_or_ne (r d) none with hd | hd
    · rw [advance, if_pos hd, hr]
    · have hne : c ≠ d := fun he => hd (he ▸ hr)
      rw [advance, if_neg hd, r.touch_of_ne hne, hr]
  | tick =>
    rw [advance, Recency.tick, hr]
    rfl

theorem advance_some (T : Nat) {accepted : Nat} {r : Recency Nat} {c k : Nat} (hc : c ≠ accepted)
    (hr : r c = some k) {event : Event} (hm : event ≠ .message c) :
    advance T accepted r event c =
      if event = .tick then if k + 1 < T then some (k + 1) else none else some k := by
  cases event with
  | accept => exact (r.touch_of_ne hc).trans hr
  | message d =>
    have hne : c ≠ d := fun he => hm (he ▸ rfl)
    have ht : Event.message d ≠ .tick := by simp
    rw [advance, if_neg ht]
    rcases eq_or_ne (r d) none with hd | hd
    · rw [if_pos hd, hr]
    · rw [if_neg hd, r.touch_of_ne hne, hr]
  | tick =>
    rw [advance, Recency.tick, hr, if_pos rfl]
    rfl

/-- The server holds the connections with idle ticks, and has closed the others once. -/
structure Tracks (T : UInt32) (s : Server) (r : Recency Nat) : Prop where
  timeout : s.timerWheel.timeoutSec = T
  turning : s.timerWheel.Turning r
  unseen : ∀ c, s.accepted ≤ c → r c = none ∧ s.closed.count c = 0
  live : ∀ c, r c ≠ none → s.closed.count c = 0
  gone : ∀ c, c < s.accepted → r c = none → s.closed.count c = 1

theorem tracks_listening {T : UInt32} (hT : 1 ≤ T.toNat) :
    Tracks T (listening T) fun _ => none where
  timeout := by
    unfold listening TimerWheel.start
    split <;> rfl
  turning := TimerWheel.turning_start hT
  unseen c _ := ⟨rfl, Multiset.count_zero c⟩
  live c hc := absurd rfl hc
  gone c hc := absurd hc (Nat.not_lt_zero c)

namespace Tracks
variable {T : UInt32} {s : Server} {r : Recency Nat}

theorem gate (h : Tracks T s r) (hT : T.toNat < 2 ^ 31) : s.timerWheel.getTimeout > 0 := by
  have hpos := h.turning.pos
  rw [h.timeout] at hpos
  rw [TimerWheel.getTimeout_pos_iff, h.timeout]
  exact ⟨hpos, hT⟩

theorem accept (h : Tracks T s r) (hT : T.toNat < 2 ^ 31) :
    ∃ t, s.onAccept = some t ∧ t.accepted = s.accepted + 1 ∧ Tracks T t (r.touch s.accepted) := by
  obtain ⟨w, hw, ht, hturn⟩ := h.turning.insert s.accepted
  have hstep : s.onAccept = some ⟨w, s.accepted + 1, s.closed⟩ := by
    rw [onAccept, if_pos (h.gate hT), hw]
    rfl
  refine ⟨_, hstep, rfl, ht.trans h.timeout, hturn, fun c (hc : s.accepted + 1 ≤ c) => ?_,
    fun c hc => ?_, fun c (hc : c < s.accepted + 1) hr => ?_⟩
  · rw [r.touch_of_ne (by omega)]
    exact h.unseen c (by omega)
  · rcases eq_or_ne c s.accepted with hne | hne
    · exact (h.unseen c (by omega)).2
    · exact h.live c (r.touch_of_ne hne ▸ hc)
  · have hne : c ≠ s.accepted := by
      rintro rfl
      simp at hr
    exact h.gone c (by omega) (r.touch_of_ne hne ▸ hr)

theorem message (h : Tracks T s r) (hT : T.toNat < 2 ^ 31) (c : Nat) :
    ∃ t, s.onMessage c = some t ∧ t.accepted = s.accepted ∧
      Tracks T t (if r c = none then r else r.touch c) := by
  have hheld := h.turning.mem_held_iff c
  rw [onMessage, if_pos (h.gate hT), getWrapper]
  rcases eq_or_ne (r c) none with hc | hc
  · rw [if_pos hc, if_neg (fun hm => hheld.mp hm hc)]
    exact ⟨s, rfl, rfl, h⟩
  · obtain ⟨w, hw, ht, hturn⟩ := h.turning.insert c
    rw [if_neg hc, if_pos (hheld.mpr hc), hw]
    have hrc (d : Nat) : r.touch c d = none ↔ r d = none := by
      rcases eq_or_ne d c with rfl | hd
      · simp [hc]
      · rw [r.touch_of_ne hd]
    exact ⟨⟨w, s.accepted, s.closed⟩, rfl, rfl, ht.trans h.timeout, hturn,
      fun d hd => ⟨(hrc d).mpr (h.unseen d hd).1, (h.unseen d hd).2⟩,
      fun d hd => h.live d ((hrc d).not.mp hd), fun d hd hr => h.gone d hd ((hrc d).mp hr)⟩

theorem tick (h : Tracks T s r) :
    ∃ t, s.onTick = some t ∧ t.accepted = s.accepted ∧ Tracks T t (r.tick T.toNat) := by
  obtain ⟨w, hw, ht, hturn⟩ := h.turning.wheelCallback
  rw [h.timeout] at hturn
  have hstep : s.onTick =
      some ⟨w, s.accepted, s.closed + (s.timerWheel.held \ w.held).val⟩ := by
    rw [onTick, if_pos h.turning.started, hw]
    rfl
  have hgone {c : Nat} (hc : r c = none) : r.tick T.toNat c = none := by
    rw [Recency.tick, hc]
    rfl
  have hcount (c : Nat) : (s.closed + (s.timerWheel.held \ w.held).val).count c =
      s.closed.count c + if r c ≠ none ∧ r.tick T.toNat c = none then 1 else 0 := by
    rw [Multiset.count_add, Multiset.count_eq_of_nodup (Finset.nodup _)]
    simp only [Finset.mem_val, Finset.mem_sdiff, h.turning.mem_held_iff, hturn.mem_held_iff, not_not]
  refine ⟨_, hstep, rfl, ht.trans h.timeout, hturn,
    fun c hc => ⟨hgone (h.unseen c hc).1, (hcount c).trans ?_⟩,
    fun c hc => (hcount c).trans ?_, fun c hc hr => (hcount c).trans ?_⟩
  · rw [(h.unseen c hc).2, if_neg (fun hn => hn.1 (h.unseen c hc).1)]
  · rw [h.live c (fun hr => hc (hgone hr)), if_neg (fun hn => hc hn.2)]
  · rcases eq_or_ne (r c) none with hrc | hrc
    · rw [h.gone c hc hrc, if_neg (fun hn => hn.1 hrc)]
    · rw [h.live c hrc, if_pos ⟨hrc, hr⟩]

/-- Every event goes through, and the idle ticks follow it. -/
theorem step (h : Tracks T s r) (hT : T.toNat < 2 ^ 31) (event : Event) :
    ∃ t, s.step event = some t ∧ s.accepted ≤ t.accepted ∧
      (event = .accept → s.accepted < t.accepted) ∧
      Tracks T t (advance T.toNat s.accepted r event) := by
  cases event with
  | accept =>
    obtain ⟨t, hs, ha, ht⟩ := h.accept hT
    exact ⟨t, hs, by omega, fun _ => by omega, ht⟩
  | message c =>
    obtain ⟨t, hs, ha, ht⟩ := h.message hT c
    exact ⟨t, hs, by omega, fun he => (by cases he), ht⟩
  | tick =>
    obtain ⟨t, hs, ha, ht⟩ := h.tick
    exact ⟨t, hs, by omega, fun he => (by cases he), ht⟩

/-- And so does every run: what has been closed stays closed, and a connection on which nothing is
received counts its idle ticks. -/
theorem run (h : Tracks T s r) (hT : T.toNat < 2 ^ 31) (events : List Event) :
    ∃ t q, s.run events = some t ∧ Tracks T t q ∧ s.accepted ≤ t.accepted ∧
      (∀ c < s.accepted, r c = none → q c = none) ∧
      ∀ c < s.accepted, ∀ k, r c = some k → .message c ∉ events →
        q c = if k + events.count .tick < T.toNat then some (k + events.count .tick) else none := by
  induction events generalizing s r with
  | nil =>
    refine ⟨s, r, rfl, h, Nat.le_refl _, fun c _ hc => hc, fun c _ k hk _ => ?_⟩
    have hlt := (h.turning.rotating.stored c k hk).1
    rw [h.timeout] at hlt
    rw [List.count_nil, Nat.add_zero, if_pos hlt, hk]
  | cons event events ih =>
    obtain ⟨s', hs, ha, _, h'⟩ := h.step hT event
    obtain ⟨t, q, ht, hq, ha', hnone, hsome⟩ := ih h'
    refine ⟨t, q, by rw [Server.run, hs]; exact ht, hq, Nat.le_trans ha ha', fun c hc hr => ?_,
      fun c hc k hk hm => ?_⟩
    · exact hnone c (Nat.lt_of_lt_of_le hc ha) (advance_none (Nat.ne_of_lt hc) hr event)
    · rw [List.mem_cons, not_or] at hm
      have hadv := advance_some T.toNat (Nat.ne_of_lt hc) hk (Ne.symm hm.1)
      rcases eq_or_ne event .tick with rfl | he
      · rw [if_pos rfl] at hadv
        rw [List.count_cons_self]
        rcases Nat.lt_or_ge (k + 1) T.toNat with hlt | hge
        · rw [if_pos hlt] at hadv
          rw [hsome c (Nat.lt_of_lt_of_le hc ha) _ hadv hm.2, Nat.add_assoc, Nat.add_comm 1]
        · rw [if_neg (Nat.not_lt.mpr hge)] at hadv
          rw [hnone c (Nat.lt_of_lt_of_le hc ha) hadv, if_neg (by omega)]
      · rw [if_neg he] at hadv
        rw [List.count_cons_of_ne he, hsome c (Nat.lt_of_lt_of_le hc ha) k hadv hm.2]

/-- An insertion leaves an accepted connection with no idle ticks. -/
theorem inserts (h : Tracks T s r) (hT : T.toNat < 2 ^ 31) {c : Nat} {event : Event}
    (hins : s.Inserts c event) :
    ∃ t, s.step event = some t ∧ c < t.accepted ∧
      ∃ q, Tracks T t q ∧ q c = some 0 := by
  obtain ⟨t, hs, ha, hacc, ht⟩ := h.step hT event
  cases event with
  | accept =>
    obtain rfl : c = s.accepted := hins
    exact ⟨t, hs, hacc rfl, _, ht, r.touch_self _⟩
  | message d =>
    obtain ⟨rfl, hheld⟩ : d = c ∧ c ∈ s.timerWheel.held := hins
    have hne := (h.turning.mem_held_iff d).mp hheld
    have hlt : d < s.accepted := by
      by_contra hd
      exact hne (h.unseen d (Nat.le_of_not_lt hd)).1
    refine ⟨t, hs, Nat.lt_of_lt_of_le hlt ha, _, ht, ?_⟩
    rw [advance, if_neg hne, r.touch_self]
  | tick => cases hins

end Tracks

/-! The gate in `on_accept` reads the timeout as an `int`. -/

private theorem idleExact_of_lt {T : UInt32} (h1 : 1 ≤ T.toNat) (hT : T.toNat < 2 ^ 31) :
    IdleExact T where
  runs events := by
    obtain ⟨t, _, ht, _⟩ := (tracks_listening h1).run hT events
    simp [ht]
  exact before event later c s t hs hins hm ht := by
    obtain ⟨s', r, hs', htr, _⟩ := (tracks_listening h1).run hT before
    obtain rfl : s' = s := Option.some.inj (hs'.symm.trans hs)
    obtain ⟨u, hu, hc, p, hp, hpc⟩ := htr.inserts hT hins
    obtain ⟨t', q, ht', hq, ha, _, hidle⟩ := hp.run hT later
    obtain rfl : t' = t := by
      rw [run_append, hs, Option.bind_some, Server.run, hu, Option.bind_some, ht'] at ht
      exact Option.some.inj ht
    have hqc := hidle c hc 0 hpc hm
    rw [Nat.zero_add] at hqc
    rw [hq.turning.mem_held_iff]
    refine ⟨fun hlt => ?_, fun hle => ?_⟩
    · have hne : q c ≠ none := by simp [hqc, hlt]
      exact ⟨hne, hq.live c hne⟩
    · rw [if_neg (Nat.not_lt.mpr hle)] at hqc
      exact ⟨not_not.mpr hqc, hq.gone c (Nat.lt_of_lt_of_le hc ha) hqc⟩
  final before later c s t hs hc ht := by
    obtain ⟨s', r, hs', htr, _⟩ := (tracks_listening h1).run hT before
    obtain rfl : s' = s := Option.some.inj (hs'.symm.trans hs)
    obtain ⟨t', q, ht', hq, ha, hnone, _⟩ := htr.run hT later
    obtain rfl : t' = t := by
      rw [run_append, hs, Option.bind_some, ht'] at ht
      exact Option.some.inj ht
    have hpos : s'.closed.count c ≠ 0 := Multiset.count_ne_zero.mpr hc
    have hrc : r c = none := by
      by_contra hr
      exact hpos (htr.live c hr)
    have hlt : c < s'.accepted := by
      by_contra hle
      exact hpos (htr.unseen c (Nat.le_of_not_lt hle)).2
    have hqc := hnone c hlt hrc
    rw [hq.turning.mem_held_iff]
    exact ⟨not_not.mpr hqc, hq.gone c (Nat.lt_of_lt_of_le hlt ha) hqc⟩

/-- From `2 ^ 31` on the gate never opens: the first connection is not inserted. -/
private theorem not_idleExact_of_le {T : UInt32} (hT : 2 ^ 31 ≤ T.toNat) : ¬ IdleExact T := by
  have h1 : 1 ≤ T.toNat := by omega
  have hgate : ¬ (listening T).timerWheel.getTimeout > 0 := by
    rw [TimerWheel.getTimeout_pos_iff, (tracks_listening h1).timeout]
    omega
  have hrun : (listening T).run ([] ++ .accept :: []) =
      some { listening T with accepted := (listening T).accepted + 1 } := by
    rw [List.nil_append, Server.run, Server.step, onAccept, if_neg hgate]
    rfl
  intro h
  have hheld := ((h.exact [] .accept [] 0 _ _ rfl rfl (by simp) hrun).1 h1).1
  exact (tracks_listening h1).turning.mem_held_iff 0 |>.mp hheld rfl

/-- The idle timeout is exact for the timeouts an `int` can hold. -/
theorem idleExact_iff (T : UInt32) (h1 : 1 ≤ T.toNat) : IdleExact T ↔ T.toNat < 2 ^ 31 := by
  constructor
  · intro h
    by_contra hT
    exact not_idleExact_of_le (Nat.le_of_not_lt hT) h
  · exact idleExact_of_lt h1

theorem idleExact_three : IdleExact 3 ↔ (3 : UInt32).toNat < 2 ^ 31 :=
  idleExact_iff 3 (by decide)

/-- A timeout of 2147483648 seconds: the first connection accepted is never watched. -/
theorem not_idleExact_two_pow : ¬ IdleExact 2147483648 := not_idleExact_of_le (by decide)

end AeProxy.IdleTimeout
