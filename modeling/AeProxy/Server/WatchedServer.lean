import AeProxy.Lib.Simulation
import AeProxy.Loop.Timer
import AeProxy.Server.Entries
import AeProxy.Server.IdleTimeout

/-! The server with its wheel and the timer that turns it: connections insert their wrappers, and a
tick closes those whose wrappers it drops. -/
namespace AeProxy
open Lib

/-- The server, the wheel with the wrappers of its connections, and the wheel's timer. -/
structure WatchedServer where
  server : TcpServer
  idle : IdleTimeout.Server
  timer : LoopTimer Unit

namespace WatchedServer

/-- What libuv and the user do to the server, the passing of the loop's time, and a run of the
timer's callback, which destroys the wrappers of a bucket in some order. -/
inductive Event where
  | server (event : TcpServer.Event)
  | pass (ms : Nat)
  | tick (order : List Nat)
  deriving DecidableEq

/-- The interval of `timer_`. -/
abbrev tickMs : Nat := 1000

/-- A server constructed at some time of the loop. -/
def new (now : Nat) (onMessage onConnectClose : Bool) : WatchedServer where
  server := .listening onMessage onConnectClose
  idle := ⟨.new 0, 0, 0⟩
  timer := .new now tickMs tickMs true

def setTimeout (self : WatchedServer) (seconds : UInt32) : WatchedServer :=
  { self with idle := { self.idle with timerWheel := self.idle.timerWheel.setTimeout seconds } }

/-- What `listen` does to the wheel and its timer. -/
def start (self : WatchedServer) : WatchedServer where
  server := self.server
  idle := { self.idle with timerWheel := self.idle.timerWheel.start }
  timer := if self.idle.timerWheel.timeoutSec ≠ 0 then self.timer.start else self.timer

/-- `set_timeout` and `listen`. -/
def listening (T : UInt32) (now : Nat) (onMessage onConnectClose : Bool) : WatchedServer :=
  ((new now onMessage onConnectClose).setTimeout T).start

/-- What `on_accept` and `on_message` do to the wheel. A connection runs `on_message` as long as it
has the callback, whether or not the user has set one. -/
def watch (self : WatchedServer) : TcpServer.Event → Option IdleTimeout.Server
  | .accept _ => self.idle.onAccept
  | .read c .data =>
    if (self.server.connection c).onMessageCallback then self.idle.onMessage c else some self.idle
  | _ => some self.idle

/-- `wheel_callback`; each wrapper destroyed closes its connection. -/
def onTick (self : WatchedServer) (order : List Nat) : Option WatchedServer :=
  (LoopTimer.step self.timer .timeOut).bind fun timer => self.idle.onTick.bind fun idle =>
    if idle.closed = self.idle.closed + order then
      some { server := order.foldl TcpServer.onSocketClose self.server, idle := idle, timer := timer }
    else none

/-- A wrapper expires by a tick only. -/
def step : Step WatchedServer Event := fun self event =>
  match event with
  | .server (.expire _) => none
  | .server event =>
    (TcpServer.step self.server event).bind fun server => (self.watch event).map fun idle =>
      { self with server := server, idle := idle }
  | .pass ms =>
    (LoopTimer.step self.timer (.pass ms)).map fun timer => { self with timer := timer }
  | .tick order => self.onTick order

/-! The three parts of a run. -/

def serverEvents (_ : WatchedServer) : Event → List TcpServer.Event
  | .server event => [event]
  | .pass _ => []
  | .tick order => order.map .expire

def idleEvents (self : WatchedServer) : Event → List IdleTimeout.Event
  | .server (.accept _) => [.accept]
  | .server (.read c .data) => if (self.server.connection c).onMessageCallback then [.message c] else []
  | .server _ => []
  | .pass _ => []
  | .tick _ => [.tick]

def alarmEvents (_ : WatchedServer) : Event → List Alarm.Event
  | .server _ => []
  | .pass ms => [.pass ms]
  | .tick _ => [.ring]

variable {s t : WatchedServer} {event : Event}

/-- What an event does. -/
inductive Does (s : WatchedServer) : Event → WatchedServer → Prop
  | server {event : TcpServer.Event} {server : TcpServer} {idle : IdleTimeout.Server}
      (he : ∀ c, event ≠ .expire c) (hs : TcpServer.step s.server event = some server)
      (hw : s.watch event = some idle) :
      Does s (.server event) { s with server := server, idle := idle }
  | pass (ms : Nat) :
      Does s (.pass ms) { s with timer := { s.timer with alarm := s.timer.alarm.pass ms } }
  | tick {order : List Nat} {idle : IdleTimeout.Server} (hd : s.timer.alarm.isDue = true)
      (hi : s.idle.onTick = some idle) (ho : idle.closed = s.idle.closed + order) :
      Does s (.tick order)
        { server := order.foldl TcpServer.onSocketClose s.server, idle := idle
          timer := { s.timer with alarm := s.timer.alarm.rearm s.timer.repeat_ }.onTimeOut }

theorem does_of_step (ht : step s event = some t) : Does s event t := by
  cases event with
  | server event =>
    have hne : ∀ c, event ≠ .expire c := by
      rintro c rfl
      cases ht
    have ht' : ((TcpServer.step s.server event).bind fun server => (s.watch event).map fun idle =>
        { s with server := server, idle := idle }) = some t := by
      cases event with
      | expire c => exact absurd rfl (hne c)
      | _ => exact ht
    obtain ⟨server, hs, ht'⟩ := Option.bind_eq_some_iff.mp ht'
    obtain ⟨idle, hw, rfl⟩ := Option.map_eq_some_iff.mp ht'
    exact .server hne hs hw
  | pass ms =>
    rw [← Option.some.inj ht]
    exact .pass ms
  | tick order =>
    obtain ⟨timer, hti, ht⟩ := Option.bind_eq_some_iff.mp ht
    obtain ⟨idle, hi, ht⟩ := Option.bind_eq_some_iff.mp ht
    obtain ⟨ho, ht⟩ := Option.ite_none_right_eq_some.mp ht
    obtain ⟨hd, hti⟩ := Option.ite_none_right_eq_some.mp hti
    rw [← Option.some.inj ht, ← Option.some.inj hti]
    exact .tick hd hi ho

/-! The parts are runs of the wheel, of the timer's alarm and of the server. -/

theorem simulates_idle :
    step.Simulates IdleTimeout.Server.step (fun s u => u = s.idle) idleEvents where
  step s _ event t := by
    rintro rfl ht
    refine ⟨t.idle, ?_, rfl⟩
    cases does_of_step ht with
    | @server event _ idle he hs hw =>
      cases event with
      | accept name => exact Step.run_cons_eq_some.mpr ⟨idle, hw, rfl⟩
      | read c input =>
        cases input with
        | data =>
          rw [idleEvents]
          rw [watch] at hw
          split at hw
          next hm =>
            rw [if_pos hm]
            exact Step.run_cons_eq_some.mpr ⟨idle, hw, rfl⟩
          next hm =>
            rw [if_neg hm]
            exact hw
        | error => exact hw
        | eof => exact hw
      | expire c => exact absurd rfl (he c)
      | shutdownDone | acceptorClosed | closed | close | closeConnection | closeByUser => exact hw
    | pass => rfl
    | tick _ hi => exact Step.run_cons_eq_some.mpr ⟨_, hi, rfl⟩

theorem onTimeOut_fields (timer : LoopTimer Unit) :
    timer.onTimeOut.alarm = timer.alarm ∧ timer.onTimeOut.repeat_ = timer.repeat_ := by
  unfold LoopTimer.onTimeOut
  split <;> exact ⟨rfl, rfl⟩

theorem simulates_alarm : step.Simulates (Alarm.step tickMs)
    (fun s u => u = s.timer.alarm ∧ s.timer.repeat_ = tickMs) alarmEvents where
  step s _ event t := by
    rintro ⟨rfl, hr⟩ ht
    cases does_of_step ht with
    | server => exact ⟨_, rfl, rfl, hr⟩
    | pass ms => exact ⟨_, rfl, rfl, hr⟩
    | tick hd =>
      obtain ⟨ha, hr'⟩ := onTimeOut_fields { s.timer with alarm := s.timer.alarm.rearm s.timer.repeat_ }
      refine ⟨s.timer.alarm.rearm tickMs, Step.run_cons_eq_some.mpr ⟨_, if_pos hd, rfl⟩, ?_, ?_⟩
      · rw [ha, hr]
      · rw [hr', hr]

/-- The wrappers destroyed in some order are so many expiries. -/
theorem run_expire {server : TcpServer} {order : List Nat} (h : ∀ c ∈ order, c < server.accepted) :
    TcpServer.step.run server (order.map .expire) =
      some (order.foldl TcpServer.onSocketClose server) := by
  induction order generalizing server with
  | nil => rfl
  | cons c order ih =>
    have hc : TcpServer.step server (.expire c) = some (server.onSocketClose c) :=
      if_pos (h c List.mem_cons_self)
    refine Step.run_cons_eq_some.mpr ⟨_, hc, ih fun d hd => ?_⟩
    rw [(TcpServer.Shuts.onSocketClose server c).accepted]
    exact h d (List.mem_cons_of_mem c hd)

theorem foldl_expired {P : TcpServer → Prop} (hP : TcpServer.Stable P) {server : TcpServer}
    (h : P server) (order : List Nat) : P (order.foldl TcpServer.onSocketClose server) :=
  List.foldlRecOn order _ h fun _ hu c _ => hP.onSocketClose hu c

/-- The wheel counts the connections the server has accepted, and wraps no others. -/
structure Numbered (s : WatchedServer) : Prop where
  idle : s.idle.Numbered
  accepted : s.idle.accepted = s.server.accepted

theorem accepted_of_step {server server' : TcpServer} {event : TcpServer.Event}
    (he : ∀ name, event ≠ .accept name) (hs : TcpServer.step server event = some server') :
    server'.accepted = server.accepted :=
  (TcpServer.preserved_accepted server.accepted).step rfl (fun name h => absurd h (he name)) hs

theorem accepted_expired (server : TcpServer) (order : List Nat) :
    (order.foldl TcpServer.onSocketClose server).accepted = server.accepted :=
  foldl_expired (TcpServer.preserved_accepted server.accepted).toStable rfl order

theorem Numbered.step (h : Numbered s) (ht : step s event = some t) : Numbered t := by
  cases does_of_step ht with
  | @server event server idle he hs hw =>
    by_cases hacc : ∃ name, event = .accept name
    · obtain ⟨name, rfl⟩ := hacc
      have hw : s.idle.step .accept = some idle := hw
      obtain ⟨hidle, haccepted, -⟩ := h.idle.step hw
      obtain ⟨-, hs⟩ := Option.ite_none_right_eq_some.mp hs
      refine ⟨hidle, ?_⟩
      rw [haccepted, h.accepted, ← Option.some.inj hs, TcpServer.onAccept_accepted]
      rfl
    · have hsame := accepted_of_step (not_exists.mp hacc) hs
      have hkept (hi : some s.idle = some idle) : Numbered { s with server := server, idle := idle } := by
        obtain rfl := Option.some.inj hi
        exact ⟨h.idle, h.accepted.trans hsame.symm⟩
      cases event with
      | accept name => exact absurd ⟨name, rfl⟩ hacc
      | read c input =>
        cases input with
        | data =>
          rw [watch] at hw
          split at hw
          next =>
            have hw : s.idle.step (.message c) = some idle := hw
            obtain ⟨hidle, haccepted, -⟩ := h.idle.step hw
            exact ⟨hidle, haccepted.trans (h.accepted.trans hsame.symm)⟩
          next => exact hkept hw
        | error => exact hkept hw
        | eof => exact hkept hw
      | expire c => exact absurd rfl (he c)
      | shutdownDone | acceptorClosed | closed | close | closeConnection | closeByUser =>
        exact hkept hw
  | pass => exact ⟨h.idle, h.accepted⟩
  | @tick order idle hd hi ho =>
    have hi : s.idle.step .tick = some idle := hi
    obtain ⟨hidle, haccepted, -⟩ := h.idle.step hi
    exact ⟨hidle, haccepted.trans (h.accepted.trans (accepted_expired s.server order).symm)⟩

theorem simulates_server :
    step.Simulates TcpServer.step (fun s u => u = s.server ∧ Numbered s) serverEvents where
  step s _ event t := by
    rintro ⟨rfl, hn⟩ ht
    have hn' := hn.step ht
    cases does_of_step ht with
    | server he hs hw => exact ⟨_, Step.run_cons_eq_some.mpr ⟨_, hs, rfl⟩, rfl, hn'⟩
    | pass ms => exact ⟨_, rfl, rfl, hn'⟩
    | @tick order idle hd hi ho =>
      refine ⟨_, run_expire fun c hc => ?_, rfl, hn'⟩
      have hi : s.idle.step .tick = some idle := hi
      obtain ⟨-, -, hclosed⟩ := hn.idle.step hi
      rw [← hn.accepted]
      apply hclosed
      rw [ho, Multiset.add_comm, Multiset.add_sub_cancel_right]
      exact Multiset.mem_coe.mpr hc

theorem numbered_new (now : Nat) (onMessage onConnectClose : Bool) :
    Numbered (new now onMessage onConnectClose) := ⟨nofun, rfl⟩

theorem Numbered.setTimeout (h : Numbered s) (seconds : UInt32) : Numbered (s.setTimeout seconds) :=
  ⟨h.idle, h.accepted⟩

theorem Numbered.start (h : Numbered s) : Numbered s.start :=
  ⟨fun c hc => h.idle c (TimerWheel.held_of_start hc), h.accepted⟩

end WatchedServer
end AeProxy
