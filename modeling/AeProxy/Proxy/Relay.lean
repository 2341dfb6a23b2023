import AeProxy.Client.Attempt
import AeProxy.Server.Entries

/-! The proxy with its two sides: the server its clients come to, and the agents' links to the real
servers, each side closed by the reports of the other. -/
namespace AeProxy.Proxy.TcpProxy
open Lib

/-- An agent, with the connection its callback has captured. -/
structure Agent where
  client : Nat
  link : TcpClient

/-- The server of the proxy, the agents in the order they are made, and the table of them. -/
structure Relay where
  server : TcpServer
  agent : Nat → Agent
  agents : Nat
  session_ : AList fun _ : String => Nat

namespace Relay

/-- What libuv tells the server, a request to bind with what `uv_tcp_connect` then returns, and what
libuv tells an agent. -/
inductive Event where
  | server (event : TcpServer.Event)
  | bind (client : Nat) (accepted : Bool)
  | agent (agent : Nat) (event : TcpClient.Event)
  deriving DecidableEq

/-- Behind `start`, which sets the callback for messages alone. -/
def new (onConnectClose : Bool) : Relay :=
  ⟨.listening true onConnectClose, fun _ => ⟨0, .new true false⟩, 0, ∅⟩

/-- The `client_conn_ptr` of an agent. -/
def client (self : Relay) (i : Nat) : TcpConnection TcpServer.CloseCallback :=
  self.server.connection (self.agent i).client

def setLink (self : Relay) (i : Nat) (link : TcpClient) : Relay :=
  { self with agent := Function.update self.agent i { self.agent i with link := link } }

def connectRealServer (self : Relay) (c : Nat) (accepted : Bool) : Relay :=
  { self with
    agent := Function.update self.agent self.agents
      ⟨c, ((TcpClient.new true false).connect accepted).1⟩
    agents := self.agents + 1 }

/-- The callback of an agent. -/
def onConnectStatus (self : Relay) (i : Nat) : TcpClient.ConnectStatus → Relay
  | .connectSuccess => { self with session_ := self.session_.insert (self.client i).name i }
  | _ => { self with server := self.server.closeHandle (self.agent i).client none }

def onAction (i : Nat) (self : Relay) : TcpClient.Action → Relay
  | .status _ status => self.onConnectStatus i status
  | _ => self

/-- Nobody closes the server, or a connection by its name, and the wheel does not turn. -/
def serves : TcpServer.Event → Bool
  | .accept _ => true
  | .read _ _ => true
  | .shutdownDone _ => true
  | .closed _ closes => closes = 0
  | _ => false

/-- An agent connects once, and is not closed. -/
def links : TcpClient.Event → Bool
  | .connect _ => false
  | .close _ => false
  | _ => true

def step : Step Relay Event := fun self event =>
  match event with
  | .server event =>
    if serves event then
      (TcpServer.step self.server event).map fun server => { self with server := server }
    else none
  | .bind c accepted =>
    if (self.server.connection c).onMessageCallback && self.server.onMessageCallback then
      (TcpServer.step self.server (.read c .data)).map fun server =>
        { self with server := server }.connectRealServer c accepted
    else none
  | .agent i event =>
    if i < self.agents ∧ links event then
      (TcpClient.step (self.agent i).link event).map fun (link, out) =>
        out.foldl (onAction i) (self.setLink i link)
    else none

/-- No name is accepted that still has an entry. Nobody would keep that connection: it goes, with the
handle libuv reads from, at the end of `on_accept`. -/
def Clear (r : Relay) : Event → Prop
  | .server (.accept name) => r.server.getConnection name = none
  | _ => True

/-- The server is sound, and an agent's link in the attempt it was made for, with a client. -/
structure Wired (r : Relay) : Prop where
  sound : TcpServer.Sound r.server
  client : ∀ i, i < r.agents → (r.agent i).client < r.server.accepted
  live : ∀ i, i < r.agents → ∃ stage, TcpClient.Live (r.agent i).link stage ∧
    ∀ callback, stage ≠ .closing (.user callback)

@[simp] theorem setLink_self (r : Relay) (i : Nat) (link : TcpClient) :
    ((r.setLink i link).agent i).link = link := by
  simp only [setLink, Function.update_self]

theorem setLink_of_ne (r : Relay) {i j : Nat} (h : j ≠ i) (link : TcpClient) :
    (r.setLink i link).agent j = r.agent j := Function.update_of_ne h ..

@[simp] theorem setLink_client (r : Relay) (i : Nat) (link : TcpClient) (j : Nat) :
    ((r.setLink i link).agent j).client = (r.agent j).client := by
  by_cases hj : j = i
  · simp only [setLink, hj, Function.update_self]
  · rw [setLink_of_ne r hj]

@[simp] theorem client_setLink (r : Relay) (i : Nat) (link : TcpClient) (j : Nat) :
    (r.setLink i link).client j = r.client j := congrArg r.server.connection (setLink_client ..)

theorem onConnectStatus_of_ne {status : TcpClient.ConnectStatus} (h : status ≠ .connectSuccess)
    (r : Relay) (i : Nat) : r.onConnectStatus i status =
      { r with server := r.server.closeHandle (r.agent i).client none } := by
  cases status with
  | connectSuccess => exact absurd rfl h
  | connectFail => rfl
  | connectClose => rfl

/-- The peer has gone. -/
def Loses (event : TcpClient.Event) : Prop :=
  (∃ i, event = .read i .error) ∨ ∃ i, event = .shutdownDone i

/-- What an event does to a wired proxy. -/
inductive Does (r : Relay) : Event → Relay → Prop
  | server {event : TcpServer.Event} {server : TcpServer} (h : serves event = true)
      (hs : TcpServer.step r.server event = some server) :
      Does r (.server event) { r with server := server }
  | bind {c : Nat} (accepted : Bool) (hc : c < r.server.accepted)
      (ho : (r.server.connection c).handle ≠ .closed) :
      Does r (.bind c accepted)
        ({ r with server := r.server.emit (.message c) }.connectRealServer c accepted)
  | linked {i k : Nat} {link : TcpClient} (hi : i < r.agents)
      (hl : TcpClient.Live (r.agent i).link .waiting) (hl' : TcpClient.Live link .up) :
      Does r (.agent i (.connectDone k true)) ((r.setLink i link).onConnectStatus i .connectSuccess)
  | parted {i k : Nat} {stage : TcpClient.Stage} {link : TcpClient}
      (status : TcpClient.ConnectStatus) (hi : i < r.agents)
      (hl : TcpClient.Live (r.agent i).link stage) (hs : stage ≠ .up)
      (hl' : TcpClient.Live link .ended) (hstatus : status ≠ .connectSuccess) :
      Does r (.agent i (.closed k)) ((r.setLink i link).onConnectStatus i status)
  | moved {i : Nat} {event : TcpClient.Event} {stage stage' : TcpClient.Stage} {link : TcpClient}
      (hi : i < r.agents) (he : (∀ k, event ≠ .connectDone k true) ∧ ∀ k, event ≠ .closed k)
      (hl : TcpClient.Live (r.agent i).link stage) (hl' : TcpClient.Live link stage')
      (hup : stage' = .up ↔ stage = .up ∧ ¬ Loses event)
      (hs : ∀ callback, stage' ≠ .closing (.user callback)) :
      Does r (.agent i event) (r.setLink i link)

section does
variable {r t : Relay}

theorem wired_new (onConnectClose : Bool) : Wired (new onConnectClose) :=
  ⟨TcpServer.sound_listening true onConnectClose, nofun, nofun⟩

theorem Wired.does_agent (h : Wired r) {i : Nat} {event : TcpClient.Event}
    (ht : step r (.agent i event) = some t) : Does r (.agent i event) t := by
  obtain ⟨⟨hi, hlinks⟩, ht⟩ := Option.ite_none_right_eq_some.mp ht
  obtain ⟨⟨link, out⟩, hs, rfl⟩ := Option.map_eq_some_iff.mp ht
  obtain ⟨stage, hl, huser⟩ := h.live i hi
  have hconnect (accepted : Bool) : event ≠ .connect accepted := by
    rintro rfl
    exact Bool.noConfusion hlinks
  obtain ⟨stage', hm, hl'⟩ := hl.step hconnect hs
  cases hm with
  | connected => exact .linked hi hl hl'
  | failed => exact .moved hi ⟨nofun, nofun⟩ hl hl' (iff_of_false nofun fun h => nomatch h.1) nofun
  | reported => exact .parted .connectFail hi hl nofun hl' nofun
  | message =>
    refine .moved hi ⟨nofun, nofun⟩ hl hl' (iff_of_true rfl ⟨rfl, ?_⟩) nofun
    rintro (⟨k, he⟩ | ⟨k, he⟩) <;> cases he
  | lost he =>
    refine .moved hi ?_ hl hl' (iff_of_false nofun fun hup => hup.2 ?_) nofun
    · rcases he with rfl | rfl <;> exact ⟨nofun, nofun⟩
    · exact he.imp (fun he => ⟨_, he⟩) fun he => ⟨_, he⟩
  | close | closeAgain | closeIdle => exact Bool.noConfusion hlinks
  | closedByPeer => exact .parted .connectClose hi hl nofun hl' nofun
  | closedByUser callback => exact absurd rfl (huser callback)
  | silent stage he =>
    refine .moved hi ?_ hl hl' (iff_self_and.mpr fun hup he => ?_) huser
    · rcases he with ⟨input, rfl⟩ | rfl <;> exact ⟨nofun, nofun⟩
    · subst hup
      exact Phase.noConfusion ((hl.lost he hs).handle_eq.symm.trans hl'.handle_eq)

theorem Wired.does_of_step (h : Wired r) {event : Event} (ht : step r event = some t) :
    Does r event t := by
  cases event with
  | server event =>
    obtain ⟨hserves, ht⟩ := Option.ite_none_right_eq_some.mp ht
    obtain ⟨server, hs, rfl⟩ := Option.map_eq_some_iff.mp ht
    exact .server hserves hs
  | bind c accepted =>
    obtain ⟨hm, ht⟩ := Option.ite_none_right_eq_some.mp ht
    obtain ⟨server, hs, rfl⟩ := Option.map_eq_some_iff.mp ht
    obtain ⟨ho, hs⟩ := Option.ite_none_right_eq_some.mp hs
    have hserver : r.server.emit (.message c) = server := (if_pos hm).symm.trans (Option.some.inj hs)
    have hc : c < r.server.accepted := by
      by_contra hc
      exact ho (h.sound.unseen c (Nat.le_of_not_lt hc))
    exact hserver ▸ .bind accepted hc ho
  | agent i event => exact h.does_agent ht

end does

/-- The connections that an event of the server closes. -/
def Ends (s : TcpServer) : TcpServer.Event → Nat → Prop
  | .read c input, d => input = .error ∧ s.Closes c d
  | .shutdownDone c, d => s.Closes c d
  | _, _ => False

theorem shuts_of_serves {s t : TcpServer} {event : TcpServer.Event} (h : serves event = true)
    (hs : TcpServer.step s event = some t) (he : ∀ name, event ≠ .accept name) :
    TcpServer.Shuts (Ends s event) s t := by
  cases event with
  | accept name => exact absurd rfl (he name)
  | read c input =>
    obtain ⟨-, hs⟩ := Option.ite_none_right_eq_some.mp hs
    exact Option.some.inj hs ▸ .onMesageReceive s c input
  | shutdownDone c =>
    obtain ⟨-, hs⟩ := Option.ite_none_right_eq_some.mp hs
    obtain ⟨ha, hn, ho⟩ := TcpServer.Shuts.onSocketClose
      { s with shutdowns := Function.update s.shutdowns c (s.shutdowns c - 1) } c
    exact Option.some.inj hs ▸ ⟨ha, hn, ho⟩
  | closed c closes =>
    obtain rfl : closes = 0 := of_decide_eq_true h
    obtain ⟨⟨hc, -⟩, hs⟩ := Option.ite_none_right_eq_some.mp hs
    exact Option.some.inj hs ▸ .onClosed hc
  | _ => exact Bool.noConfusion h

section wired
variable {r t : Relay}

theorem Wired.setLink (h : Wired r) (i : Nat) {link : TcpClient} {stage : TcpClient.Stage}
    (hl : TcpClient.Live link stage) (hs : ∀ callback, stage ≠ .closing (.user callback)) :
    Wired (r.setLink i link) := by
  have hagent : ∀ j, j < r.agents → ((r.setLink i link).agent j).client < r.server.accepted ∧
      ∃ stage, TcpClient.Live ((r.setLink i link).agent j).link stage ∧
        ∀ callback, stage ≠ .closing (.user callback) := by
    intro j hj
    by_cases hji : j = i
    · subst hji
      simp only [Relay.setLink, Function.update_self]
      exact ⟨h.client j hj, stage, hl, hs⟩
    · simp only [Relay.setLink, Function.update_of_ne hji]
      exact ⟨h.client j hj, h.live j hj⟩
  exact ⟨h.sound, fun j hj => (hagent j hj).1, fun j hj => (hagent j hj).2⟩

theorem Wired.onConnectStatus (h : Wired r) (i : Nat) (status : TcpClient.ConnectStatus) :
    Wired (r.onConnectStatus i status) := by
  have hclose : Wired { r with server := r.server.closeHandle (r.agent i).client none } := by
    have hshuts := TcpServer.Shuts.closeHandle r.server (r.agent i).client none
    exact ⟨TcpServer.stable_sound.closeHandle h.sound _ none,
      fun j hj => hshuts.accepted ▸ h.client j hj, h.live⟩
  cases status with
  | connectSuccess => exact ⟨h.sound, h.client, h.live⟩
  | connectFail => exact hclose
  | connectClose => exact hclose

theorem Wired.connectRealServer (h : Wired r) {c : Nat} (hc : c < r.server.accepted)
    (accepted : Bool) : Wired (r.connectRealServer c accepted) := by
  have hagent : ∀ j, j < r.agents + 1 →
      ((r.connectRealServer c accepted).agent j).client < r.server.accepted ∧
      ∃ stage, TcpClient.Live ((r.connectRealServer c accepted).agent j).link stage ∧
        ∀ callback, stage ≠ .closing (.user callback) := by
    intro j hj
    by_cases hja : j = r.agents
    · subst hja
      simp only [Relay.connectRealServer, Function.update_self]
      refine ⟨hc, _, (TcpClient.live_new false).connect accepted, fun callback => ?_⟩
      cases accepted <;> exact nofun
    · have hj : j < r.agents := Nat.lt_of_le_of_ne (Nat.le_of_lt_succ hj) hja
      simp only [Relay.connectRealServer, Function.update_of_ne hja]
      exact ⟨h.client j hj, h.live j hj⟩
  exact ⟨h.sound, fun j hj => (hagent j hj).1, fun j hj => (hagent j hj).2⟩

theorem Wired.step (h : Wired r) {event : Event} (ht : step r event = some t) : Wired t := by
  cases h.does_of_step ht with
  | @server event server hserves hs =>
    have hle : r.server.accepted ≤ server.accepted := by
      by_cases he : ∃ name, event = .accept name
      · obtain ⟨name, rfl⟩ := he
        obtain ⟨-, hs⟩ := Option.ite_none_right_eq_some.mp hs
        rw [← Option.some.inj hs, TcpServer.onAccept_accepted]
        exact Nat.le_succ _
      · exact Nat.le_of_eq (shuts_of_serves hserves hs (not_exists.mp he)).accepted.symm
    exact ⟨h.sound.step hs, fun i hi => Nat.lt_of_lt_of_le (h.client i hi) hle, h.live⟩
  | @bind c accepted hc ho =>
    have hmessage : Wired { r with server := r.server.emit (.message c) } :=
      ⟨h.sound.emit _, h.client, h.live⟩
    exact hmessage.connectRealServer hc accepted
  | linked hi hl hl' => exact (h.setLink _ hl' nofun).onConnectStatus _ _
  | parted status hi hl hs hl' => exact (h.setLink _ hl' nofun).onConnectStatus _ _
  | moved hi he hl hl' hup hs => exact h.setLink _ hl' hs

/-- A client that is not closed stays what its name finds. -/
theorem Wired.registered (h : Wired r) (hr : r.server.Registered) {event : Event}
    (ht : Relay.step r event = some t) : t.server.Registered ↔ Clear r event := by
  cases h.does_of_step ht with
  | @server event server hserves hs =>
    refine (TcpServer.step_registry h.sound hr hs).2.trans ?_
    cases event with
    | accept name => exact Iff.rfl
    | closeConnection name => exact Bool.noConfusion hserves
    | _ => exact Iff.rfl
  | bind accepted hc ho =>
    exact iff_of_true (((TcpServer.Quiet.refl r.server).emit _).registered hr) trivial
  | linked hi hl hl' => exact iff_of_true hr trivial
  | parted status hi hl hs hl' hstatus =>
    refine iff_of_true ?_ trivial
    rw [onConnectStatus_of_ne hstatus, setLink_client]
    exact (TcpServer.quiet_closeByUser h.sound (r.agent _).client none).1.registered hr
  | moved hi he hl hl' hup hs => exact iff_of_true hr trivial

end wired
end Relay
end AeProxy.Proxy.TcpProxy
