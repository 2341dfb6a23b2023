import AeProxy.Server.Lifecycle
import AeProxy.Server.WatchedServer

/-! How long, in the loop's time, a connection may be silent before the server asks to close it. -/
namespace AeProxy
open Lib

namespace WatchedServer
variable {s t : WatchedServer} {event : Event}

/-- The wheel knows of each connection for how long it has been idle. -/
structure Linked (T : UInt32) (s : WatchedServer) : Prop where
  tracks : ∃ r, IdleTimeout.Tracks T s.idle r
  numbered : Numbered s

section linked
variable {T : UInt32}

theorem Linked.step (hT : T.toNat < 2 ^ 31) (h : Linked T s) (ht : step s event = some t) :
    Linked T t := by
  obtain ⟨⟨r, hr⟩, hn⟩ := h
  refine ⟨?_, hn.step ht⟩
  obtain ⟨idle, hi, rfl⟩ := simulates_idle.step s s.idle event t rfl ht
  apply Step.run_invariant (I := fun idle => ∃ r, IdleTimeout.Tracks T idle r) ?_ ⟨r, hr⟩ hi
  rintro idle e idle' ⟨r, hr⟩ ht
  obtain ⟨u, hu, -, -, hr'⟩ := hr.step hT e
  obtain rfl := Option.some.inj (hu.symm.trans ht)
  exact ⟨_, hr'⟩

/-- A wrapper that has been destroyed was that of a connection. -/
theorem Linked.closed_lt (h : Linked T s) {c : Nat} (hc : c ∈ s.idle.closed) :
    c < s.server.accepted := by
  obtain ⟨r, hr⟩ := h.tracks
  by_contra hle
  have hcount := (hr.unseen c (h.numbered.accepted ▸ Nat.le_of_not_lt hle)).2
  exact Multiset.count_ne_zero.mpr hc hcount

end linked

/-- Accepted peers have names without an entry, and only the server closes connections. -/
def Managed (s : WatchedServer) : Event → Prop
  | .server event => TcpServer.Managed s.server event
  | _ => True

theorem Managed.serverEvents {server : TcpServer} (he : server = s.server) (hm : Managed s event) :
    TcpServer.step.Throughout TcpServer.Managed server (s.serverEvents event) := by
  subst he
  cases event with
  | server event => exact ⟨hm, fun _ _ => trivial⟩
  | pass ms => exact trivial
  | tick order =>
    refine Step.throughout_of_forall fun event he server => ?_
    obtain ⟨c, -, rfl⟩ := List.mem_map.mp he
    exact trivial

/-- A server whose connections live their lives, the open ones with its callbacks. -/
structure Cared (server : TcpServer) : Prop where
  follows : TcpServer.Follows (fun s => TcpServer.Life s ∧ s.sweeping = false) server
  called : TcpServer.Every TcpServer.Called server

section cared
variable {server server' : TcpServer}

theorem Cared.step (h : Cared server) {event : TcpServer.Event}
    (hm : TcpServer.Managed server event) (hs : TcpServer.step server event = some server') :
    Cared server' where
  follows := (TcpServer.step_lifecycle h.follows hm hs).1
  called := TcpServer.preserved_called.step h.called
    (fun _ _ => h.called.accept fun _ => ⟨rfl, rfl⟩) hs

theorem Cared.expire (h : Cared server) {c : Nat} (hc : c < server.accepted) :
    Cared (server.onSocketClose c) :=
  have hm : TcpServer.Managed server (.expire c) := trivial
  have hs : TcpServer.step server (.expire c) = some (server.onSocketClose c) := if_pos hc
  h.step hm hs

/-- A wrapper finds its connection by its name, and closes it if it is open. -/
theorem Cared.onSocketClose_shut (h : Cared server) (c : Nat) :
    ((server.onSocketClose c).connection c).handle ≠ .opened := by
  intro ho
  obtain ⟨hopen, hnot⟩ := ((TcpServer.Shuts.onSocketClose server c).opened c).mp ho
  apply hnot
  refine ⟨(h.called c hopen).2, h.follows.registered c ?_⟩
  rw [hopen]
  exact Phase.noConfusion

theorem Cared.shut_of_mem {order : List Nat} {c : Nat} (h : Cared server)
    (hlt : ∀ d ∈ order, d < server.accepted) (hc : c ∈ order) :
    ((order.foldl TcpServer.onSocketClose server).connection c).handle ≠ .opened := by
  induction order generalizing server with
  | nil => cases hc
  | cons d order ih =>
    rcases eq_or_ne c d with rfl | hne
    · have hshut : TcpServer.Every (fun e connection => e = c → connection.handle ≠ .opened)
          (server.onSocketClose c) := by
        rintro e rfl
        exact h.onSocketClose_shut e
      exact foldl_expired (TcpServer.preserved_shut c).toStable hshut order c rfl
    · refine ih (h.expire (hlt d List.mem_cons_self)) (fun e he => ?_) (List.mem_of_ne_of_mem hne hc)
      rw [(TcpServer.Shuts.onSocketClose server d).accepted]
      exact hlt e (List.mem_cons_of_mem d he)

end cared

theorem watch_closed {event : TcpServer.Event} {idle : IdleTimeout.Server}
    (hw : s.watch event = some idle) : idle.closed = s.idle.closed := by
  have hsame (h : some s.idle = some idle) : idle.closed = s.idle.closed := by
    rw [Option.some.inj h]
  cases event with
  | accept name =>
    simp only [watch, IdleTimeout.Server.onAccept] at hw
    split at hw
    next =>
      obtain ⟨w, -, rfl⟩ := Option.map_eq_some_iff.mp hw
      rfl
    next => rw [← Option.some.inj hw]
  | read c input =>
    cases input with
    | data =>
      simp only [watch, IdleTimeout.Server.onMessage] at hw
      split at hw
      next =>
        split at hw
        next =>
          obtain ⟨w, -, rfl⟩ := Option.map_eq_some_iff.mp hw
          rfl
        next => exact hsame hw
      next => exact hsame hw
    | error => exact hsame hw
    | eof => exact hsame hw
  | expire | shutdownDone | acceptorClosed | closed | close | closeConnection | closeByUser =>
    exact hsame hw

/-- The invariant: a connection whose wrapper has been destroyed is no longer open. -/
structure Reclaims (T : UInt32) (s : WatchedServer) : Prop where
  linked : Linked T s
  cared : Cared s.server
  shut : ∀ c ∈ s.idle.closed, (s.server.connection c).handle ≠ .opened

theorem Reclaims.step {T : UInt32} (hT : T.toNat < 2 ^ 31) (h : Reclaims T s)
    (hm : s.Managed event) (ht : WatchedServer.step s event = some t) : Reclaims T t := by
  have hl := h.linked.step hT ht
  obtain ⟨server, hr, rfl, -⟩ := simulates_server.step s s.server event t ⟨rfl, h.linked.numbered⟩ ht
  have hcared : Cared t.server :=
    Step.run_invariant_of (fun _ _ _ hc hm hs => hc.step hm hs) h.cared (hm.serverEvents rfl) hr
  refine ⟨hl, hcared, fun c hc => ?_⟩
  cases does_of_step ht with
  | @server event server idle he hs hw =>
    rw [watch_closed hw] at hc
    have hshut : TcpServer.Every (fun d connection => d = c → connection.handle ≠ .opened)
        s.server := by
      rintro d rfl
      exact h.shut d hc
    refine (TcpServer.preserved_shut c).step hshut (fun name _ => hshut.accept ?_) hs c rfl
    intro hnew
    exact absurd (h.linked.closed_lt hc) (hnew ▸ Nat.lt_irrefl _)
  | pass => exact h.shut c hc
  | @tick order idle hd hi ho =>
    rw [ho] at hc
    rcases Multiset.mem_add.mp hc with hc | hc
    · have hshut : TcpServer.Every (fun d connection => d = c → connection.handle ≠ .opened)
          s.server := by
        rintro d rfl
        exact h.shut d hc
      exact foldl_expired (TcpServer.preserved_shut c).toStable hshut order c rfl
    · refine h.cared.shut_of_mem (fun d hd => ?_) (Multiset.mem_coe.mp hc)
      rw [← accepted_expired s.server order]
      apply hl.closed_lt
      rw [ho]
      exact Multiset.mem_add.mpr (.inr (Multiset.mem_coe.mpr hd))

/-- The connection is accepted, or something is received on it while it is open. -/
def Hears (s : WatchedServer) (c : Nat) : Event → Prop
  | .server (.accept _) => c = s.server.accepted
  | .server (.read d .data) => d = c ∧ (s.server.connection c).handle = .opened
  | _ => False

/-- The timer's callback runs at most so many milliseconds late. -/
def Timely (lateness : Nat) (s : WatchedServer) : Event → Prop
  | .pass ms => s.timer.alarm.Timely lateness (.pass ms)
  | _ => True

/-- The time that passes over some events. -/
def elapsed : List Event → Nat
  | [] => 0
  | .pass ms :: events => ms + elapsed events
  | _ :: events => elapsed events

section times
variable {events : List Event}

theorem elapsed_trace (ht : step.run s events = some t) :
    Alarm.elapsed (step.trace alarmEvents s events) = elapsed events := by
  induction events generalizing s with
  | nil => rfl
  | cons event events ih =>
    obtain ⟨u, hu, ht⟩ := Step.run_cons_eq_some.mp ht
    have hrest := ih ht
    rw [Step.trace_cons hu]
    cases event with
    | server => exact hrest
    | pass ms => exact congrArg (ms + ·) hrest
    | tick => exact hrest

/-- The wheel turns whenever the alarm goes off. -/
theorem count_tick_eq (ht : step.run s events = some t) :
    (step.trace idleEvents s events).count .tick = (step.trace alarmEvents s events).count .ring := by
  induction events generalizing s with
  | nil => rfl
  | cons event events ih =>
    obtain ⟨u, hu, ht⟩ := Step.run_cons_eq_some.mp ht
    rw [Step.trace_cons hu, Step.trace_cons hu, List.count_append, List.count_append, ih ht]
    congr 1
    cases event with
    | server event =>
      cases event with
      | read c input =>
        cases input with
        | data =>
          simp only [idleEvents]
          split <;> rfl
        | error => rfl
        | eof => rfl
      | accept | expire | shutdownDone | acceptorClosed | closed | close | closeConnection
      | closeByUser => rfl
    | pass => rfl
    | tick => rfl

/-- Nothing received on a connection is no message of it to the wheel. -/
theorem message_notMem {c : Nat} (hq : .server (.read c .data) ∉ events)
    (ht : step.run s events = some t) : .message c ∉ step.trace idleEvents s events := by
  induction events generalizing s with
  | nil => exact List.not_mem_nil
  | cons event events ih =>
    obtain ⟨u, hu, ht⟩ := Step.run_cons_eq_some.mp ht
    rw [List.mem_cons, not_or] at hq
    rw [Step.trace_cons hu, List.mem_append, not_or]
    refine ⟨fun hm => ?_, ih hq.2 ht⟩
    cases event with
    | server event =>
      cases event with
      | read d input =>
        cases input with
        | data =>
          simp only [idleEvents] at hm
          split at hm
          next =>
            cases List.mem_singleton.mp hm
            exact hq.1 rfl
          next => cases hm
        | error => cases hm
        | eof => cases hm
      | accept => cases List.mem_singleton.mp hm
      | expire | shutdownDone | acceptorClosed | closed | close | closeConnection | closeByUser =>
        cases hm
    | pass => cases hm
    | tick => cases List.mem_singleton.mp hm

end times

theorem run_idle (idle : IdleTimeout.Server) (events : List IdleTimeout.Event) :
    Step.run IdleTimeout.Server.step idle events = idle.run events := by
  induction events generalizing idle with
  | nil => rfl
  | cons event events ih =>
    rw [Step.run, IdleTimeout.Server.run]
    simp only [ih]

section run
variable {T : UInt32} {now : Nat} {onMessage onConnectClose : Bool}

theorem reclaims_listening (h1 : 1 ≤ T.toNat) (now : Nat) (onMessage onConnectClose : Bool) :
    Reclaims T (listening T now onMessage onConnectClose) where
  linked := ⟨⟨_, IdleTimeout.tracks_listening h1⟩,
    ((numbered_new now onMessage onConnectClose).setTimeout T).start⟩
  cared := ⟨⟨TcpServer.sound_listening _ _, TcpServer.registered_listening _ _,
    TcpServer.life_listening _ _, rfl⟩, nofun⟩
  shut := nofun

theorem timer_listening (h1 : 1 ≤ T.toNat) (now : Nat) (onMessage onConnectClose : Bool) :
    (listening T now onMessage onConnectClose).timer.alarm = ⟨now, some (now + tickMs)⟩ ∧
      (listening T now onMessage onConnectClose).timer.repeat_ = tickMs := by
  have hne : T ≠ 0 := by
    rintro rfl
    exact absurd h1 (by decide)
  have hstart : (listening T now onMessage onConnectClose).timer =
      (LoopTimer.new now tickMs tickMs true : LoopTimer Unit).start := if_pos hne
  rw [hstart]
  exact ⟨rfl, rfl⟩

/-- What is heard of a connection puts its wrapper into the current bucket. -/
theorem Reclaims.hears (h : Reclaims T s) (hT : T.toNat < 2 ^ 31) {c : Nat} (hh : s.Hears c event)
    (ht : WatchedServer.step s event = some t) :
    c < t.idle.accepted ∧ ∃ q, IdleTimeout.Tracks T t.idle q ∧ q c = some 0 := by
  obtain ⟨⟨r, hr⟩, -, hacc⟩ := h.linked
  obtain ⟨idle, hi, rfl⟩ := simulates_idle.step s s.idle event t rfl ht
  suffices hins : ∃ e, s.idleEvents event = [e] ∧ s.idle.Inserts c e by
    obtain ⟨e, he, hins⟩ := hins
    obtain ⟨u, hu, hc, hq⟩ := hr.inserts hT hins
    rw [he] at hi
    obtain ⟨v, hv, hi⟩ := Step.run_cons_eq_some.mp hi
    obtain rfl : u = v := Option.some.inj (hu.symm.trans hv)
    obtain rfl : u = t.idle := Option.some.inj hi
    exact ⟨hc, hq⟩
  match event, hh with
  | .server (.accept name), hh => exact ⟨_, rfl, hh.trans hacc.symm⟩
  | .server (.read d .data), ⟨hd, ho⟩ =>
    subst hd
    have hlt : d < s.idle.accepted := by
      rw [hacc]
      by_contra hle
      rw [h.cared.follows.sound.unseen d (Nat.le_of_not_lt hle)] at ho
      cases ho
    have hheld : r d ≠ none := by
      intro hn
      have hcount := hr.gone d hlt hn
      exact h.shut d (Multiset.count_pos.mp (by omega)) ho
    exact ⟨_, if_pos (h.cared.called d ho).1, rfl, (hr.turning.mem_held_iff d).mpr hheld⟩

/-- In every run of a server with a timeout of `T` seconds, below `2 ^ 31`, that its user leaves the
closing to and that accepts no name which still has an entry, by the loop's time from the moment a
connection is last heard of: the wheel does not ask to close it before `T - 1` seconds have passed,
however late its ticks, and once `T` seconds have, with what each of the `T` ticks may be late, it is
no longer open. -/
theorem reclaimed (T : UInt32) (h1 : 1 ≤ T.toNat) (hT : T.toNat < 2 ^ 31) (now : Nat)
    (onMessage onConnectClose : Bool) {before later : List Event} {event : Event} {c : Nat}
    {s t : WatchedServer}
    (hm : step.Throughout Managed (listening T now onMessage onConnectClose)
      (before ++ event :: later))
    (hs : step.run (listening T now onMessage onConnectClose) before = some s)
    (hh : s.Hears c event) (hq : .server (.read c .data) ∉ later)
    (ht : step.run (listening T now onMessage onConnectClose) (before ++ event :: later) = some t) :
    (c ∈ t.idle.closed → T.toNat * tickMs ≤ elapsed later + tickMs) ∧
    ∀ lateness, step.Throughout (Timely lateness) (listening T now onMessage onConnectClose)
      (before ++ event :: later) → T.toNat * (tickMs + lateness) < elapsed later →
        (t.server.connection c).handle ≠ .opened := by
  obtain ⟨s', hs', hrest⟩ := Step.run_append_eq_some.mp ht
  obtain rfl : s = s' := Option.some.inj (hs.symm.trans hs')
  obtain ⟨u, hu, hlater⟩ := Step.run_cons_eq_some.mp hrest
  have hstep (s event t) (h : Reclaims T s) (hm : s.Managed event)
      (ht : step s event = some t) : Reclaims T t := h.step hT hm ht
  have hstart := reclaims_listening h1 now onMessage onConnectClose
  have hreclaims : Reclaims T s := Step.run_invariant_of hstep hstart hm.of_append hs
  have hfinal : Reclaims T t := Step.run_invariant_of hstep hstart hm ht
  -- the wheel has turned as often as the timer went off since
  obtain ⟨hc, q, hqu, hq0⟩ := hreclaims.hears hT hh hu
  obtain ⟨_, hidle, rfl⟩ := simulates_idle.run rfl hlater
  rw [run_idle] at hidle
  obtain ⟨idle, q', hidle', hqt, hle, -, hcount⟩ := hqu.run hT (step.trace idleEvents u later)
  obtain rfl : idle = t.idle := Option.some.inj (hidle'.symm.trans hidle)
  have hqc := hcount c hc 0 hq0 (message_notMem hq hlater)
  rw [Nat.zero_add, count_tick_eq hlater] at hqc
  -- and the timer in turn as often as the time that has passed allows
  obtain ⟨ha, hr⟩ := timer_listening h1 now onMessage onConnectClose
  have hsplit : before ++ event :: later = (before ++ [event]) ++ later := by
    rw [List.append_assoc, List.singleton_append]
  have hone : step.run s [event] = some u := Step.run_cons_eq_some.mpr ⟨u, hu, rfl⟩
  have hto := Step.run_append_eq_some.mpr ⟨s, hs, hone⟩
  obtain ⟨_, halarm, rfl, hru⟩ := simulates_alarm.run ⟨rfl, hr⟩ hto
  have hahead : u.timer.alarm.Ahead tickMs := by
    refine Alarm.Ahead.run (by decide) ?_ halarm
    rw [ha]
    exact ⟨_, rfl, Nat.le_refl _⟩
  obtain ⟨_, halarm', rfl, -⟩ := simulates_alarm.run ⟨rfl, hru⟩ hlater
  generalize hticks : (step.trace alarmEvents u later).count .ring = ticks at hqc
  constructor
  · intro hclosed
    have hnone : q' c = none := by
      by_contra hne
      exact Multiset.count_ne_zero.mpr hclosed (hqt.live c hne)
    have hge : T.toNat ≤ ticks := by
      by_contra hlt
      rw [hnone, if_pos (Nat.lt_of_not_le hlt)] at hqc
      cases hqc
    have htime := Alarm.count_ring_mul_le (by decide) hahead halarm'
    rw [hticks, elapsed_trace hlater] at htime
    exact Nat.le_trans (Nat.mul_le_mul_right _ hge) htime
  · intro lateness htimely hlt
    rw [hsplit, Step.throughout_append] at htimely
    have hcond (s : WatchedServer) (alarm : Alarm) (event : Event)
        (hr : alarm = s.timer.alarm ∧ s.timer.repeat_ = tickMs) (hc : s.Timely lateness event) :
        (Alarm.step tickMs).Throughout (Alarm.Timely lateness) alarm (s.alarmEvents event) := by
      obtain ⟨rfl, -⟩ := hr
      cases event with
      | server => exact trivial
      | pass ms => exact ⟨hc, fun _ _ => trivial⟩
      | tick => exact ⟨trivial, fun _ _ => trivial⟩
    have honstart : (listening T now onMessage onConnectClose).timer.alarm.OnTime lateness := by
      rw [ha]
      intro d hd
      obtain rfl : now + tickMs = d := Option.some.inj hd
      exact Nat.le_trans (Nat.le_add_right ..) (Nat.le_add_right ..)
    have hon := honstart.run (simulates_alarm.throughout hcond ⟨rfl, hr⟩ hto htimely.1) halarm
    have htime := Alarm.elapsed_le (by decide) hahead hon
      (simulates_alarm.throughout hcond ⟨rfl, hru⟩ hlater (htimely.2 u hto)) halarm'
    rw [hticks, elapsed_trace hlater] at htime
    have hge : T.toNat ≤ ticks :=
      Nat.le_of_lt_succ (Nat.lt_of_mul_lt_mul_right (Nat.lt_of_lt_of_le hlt htime))
    rw [if_neg (Nat.not_lt.mpr hge)] at hqc
    have hcount := hqt.gone c (Nat.lt_of_lt_of_le hc hle) hqc
    exact hfinal.shut c (Multiset.count_pos.mp (by omega))

end run

/-- With a timeout of two seconds, a connection that sends nothing is asked to close at the second
tick, on time. -/
theorem reclaimed_silent :
    let later : List Event := [.pass 1000, .tick [], .pass 1000, .tick [0], .pass 1]
    ∃ t, step.run (listening 2 0 true true) (.server (.accept "10.0.0.1:4000") :: later) = some t ∧
      2 * tickMs ≤ elapsed later + tickMs ∧ (t.server.connection 0).handle ≠ .opened := by
  intro later
  have hm : step.Throughout Managed (listening 2 0 true true)
      ([] ++ .server (.accept "10.0.0.1:4000") :: later) :=
    .cons rfl rfl <| .cons trivial rfl <| .cons trivial rfl <| .cons trivial rfl <|
      .cons trivial rfl <| .cons trivial rfl trivial
  have ht : step.Throughout (Timely 0) (listening 2 0 true true)
      (.server (.accept "10.0.0.1:4000") :: later) := by
    refine .cons trivial rfl <| .cons ?_ rfl <| .cons trivial rfl <| .cons ?_ rfl <|
      .cons trivial rfl <| .cons ?_ rfl trivial <;>
    · intro d hd
      rw [← Option.some.inj hd]
      decide
  have hmain := reclaimed 2 (by decide) (by decide) 0 true true hm rfl rfl
    (by decide) rfl
  exact ⟨_, rfl, hmain.1 (by decide), hmain.2 0 ht (by decide)⟩

end WatchedServer
end AeProxy
