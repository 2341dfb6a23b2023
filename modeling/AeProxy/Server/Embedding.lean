import AeProxy.Lib.Simulation
import AeProxy.Server.Callbacks
import AeProxy.Server.Entries

/-! A run of `TcpServer` is one of all the classes together: server 0 of them, with its acceptor, its
wheel and the connections it accepts, goes the same way and calls what the run says. -/
namespace AeProxy.TcpServer
open Lib Callbacks

def ofCloseCallback : CloseCallback → ConnectionClosed
  | .closeConnection => .server 0
  | .user callback => .user callback

/-- A connection of server 0, or one that is not accepted yet. -/
def ofServer (connection : TcpConnection CloseCallback) (shutdowns : Nat) (accepted : Bool) :
    Connection where
  name := connection.name
  connected := connection.connected
  onMessageCallback_ := if connection.onMessageCallback then some (.server 0) else none
  onConnectCloseCallback_ := if connection.onConnectCloseCallback then some (.server 0) else none
  closeCompleteCallback_ := connection.closeCompleteCallback.map ofCloseCallback
  handle := connection.handle
  shutdowns := shutdowns
  owner := if accepted then some (.server 0) else none
  alive := accepted

/-- The user's callback in what a server does, given those it has set and the one of every call of
`close`. -/
def calledBy (message connectClose : Option Nat) (done : Nat) : Action → Option Nat
  | .message _ => message
  | .connectClose _ => connectClose
  | .userClosed callback => some callback
  | .serverClosed => some done
  | _ => none

/-- The server is server 0 of the world, which has no callback for new connections, and nothing else
has called the user. -/
structure Embeds (message connectClose : Option Nat) (done : Nat) (t : TcpServer) (w : World) :
    Prop where
  server : w.server 0 = ⟨some 0, t.connnections, message, none, connectClose⟩
  acceptor : w.acceptor 0 =
    ⟨⟨t.accetper.onCloseCompletCallback.map fun _ => .server 0 (some done), t.accetper.handle⟩,
      some (.server 0)⟩
  wheel : w.timer (.wheel 0) = ⟨⟨none, .opened⟩, some .wheel⟩
  connections : w.connections = t.accepted
  connection : ∀ c, w.connection c = ofServer (t.connection c) (t.shutdowns c) (c < t.accepted)
  called : w.called = t.log.filterMap (calledBy message connectClose done)
  onMessage : t.onMessageCallback = message.isSome
  onConnectClose : t.onConnectCloseCallback = connectClose.isSome
  unseen : ∀ c, t.accepted ≤ c → t.shutdowns c = 0

/-- What a server takes alone, as one of the classes; its callbacks do not use it in turn. -/
inductive Carries (done : Nat) : Event → Callbacks.Event → Prop
  | accept (name : String) : Carries done (.accept name) (.acceptor 0 (.newConnect name))
  | read (c : Nat) (input : Input) : Carries done (.read c input) (.connection c (.read input))
  | shutdownDone (c : Nat) : Carries done (.shutdownDone c) (.connection c .shutdownDone)
  | expire (c : Nat) : Carries done (.expire c) (.timer (.wheel 0) (.timeOut [c]))
  | acceptorClosed : Carries done .acceptorClosed (.acceptor 0 .closed)
  | closed (c : Nat) : Carries done (.closed c 0) (.connection c .closed)
  | close : Carries done .close (.server 0 (.close (some done)))
  | closeConnection (name : String) :
    Carries done (.closeConnection name) (.server 0 (.closeConnection name))
  | closeByUser (c : Nat) (callback : Option Nat) :
    Carries done (.closeByUser c callback) (.connection c (.close callback))

namespace Embeds
variable {message connectClose : Option Nat} {done : Nat} {t t' : TcpServer} {w : World}

/-- The world goes on, to one that embeds what the server has come to. -/
def Goes (message connectClose : Option Nat) (done : Nat) (t : TcpServer) (next : Option World) :
    Prop :=
  ∃ v, next = some v ∧ Embeds message connectClose done t v

theorem goes (h : Embeds message connectClose done t w) : Goes message connectClose done t w :=
  ⟨w, rfl, h⟩

section parts
variable (h : Embeds message connectClose done t w)
include h

theorem getConnection (name : String) : w.getConnection 0 name = t.getConnection name := by
  rw [World.getConnection, h.server]
  rfl

/-- What calls no user. -/
theorem emit (action : Action) (ha : calledBy message connectClose done action = none) :
    Embeds message connectClose done (t.emit action) w :=
  { h with
    called := by
      rw [h.called, TcpServer.emit, List.filterMap_append, List.filterMap_cons, ha,
        List.filterMap_nil, List.append_nil] }

theorem invoke (action : Action) {callback : Nat}
    (ha : calledBy message connectClose done action = some callback) :
    Embeds message connectClose done (t.emit action) (w.invoke callback) :=
  { h with
    called := by
      rw [World.invoke, h.called, TcpServer.emit, List.filterMap_append, List.filterMap_cons, ha,
        List.filterMap_nil] }

theorem setConnection (c : Nat) (connection : TcpConnection CloseCallback) :
    Embeds message connectClose done (t.setConnection c connection)
      (w.setConnection c (ofServer connection (t.shutdowns c) (c < t.accepted))) :=
  { h with
    connection := fun d => by
      rcases eq_or_ne d c with rfl | hd
      · rw [setConnection_self, World.setConnection_self]
        rfl
      · rw [setConnection_of_ne _ _ _ hd, World.setConnection_of_ne _ _ _ hd]
        exact h.connection d }

/-- With its requests to shut down, if it has been accepted. -/
theorem setShutdowns {c : Nat} (hc : c < t.accepted) (connection : TcpConnection CloseCallback)
    (shutdowns : Nat) : Embeds message connectClose done
      { t.setConnection c connection with shutdowns := Function.update t.shutdowns c shutdowns }
      (w.setConnection c (ofServer connection shutdowns (c < t.accepted))) :=
  { h with
    connection := fun d => by
      rcases eq_or_ne d c with rfl | hd
      · rw [setConnection_self, World.setConnection_self]
        show _ = ofServer connection (Function.update t.shutdowns d shutdowns d) _
        rw [Function.update_self]
        rfl
      · rw [setConnection_of_ne _ _ _ hd, World.setConnection_of_ne _ _ _ hd]
        show _ = ofServer _ (Function.update t.shutdowns c shutdowns d) _
        rw [Function.update_of_ne hd]
        exact h.connection d
    unseen := fun d hd => by
      have hne : d ≠ c := by
        rintro rfl
        exact absurd hc (Nat.not_lt.mpr hd)
      exact (Function.update_of_ne hne ..).trans (h.unseen d hd) }

theorem setConnnections (connnections : AList fun _ : String => Nat) :
    Embeds message connectClose done { t with connnections := connnections }
      (w.setServer 0 { w.server 0 with connnections_ := connnections }) :=
  { h with
    server := by
      rw [h.server]
      exact Function.update_self 0 _ w.server }

theorem removeConnection (name : String) : Embeds message connectClose done
    (t.removeConnection name) (w.removeConnection 0 name) := by
  have herased := h.setConnnections (t.connnections.erase name)
  rw [World.removeConnection, h.server]
  rw [h.server] at herased
  exact herased.emit (.erase name t.sweeping) rfl

theorem addConnection (name : String) (c : Nat) :
    Embeds message connectClose done (t.addConnection name c) (w.addConnection 0 name c) := by
  have hinserted := h.setConnnections (t.connnections.insert name c)
  rw [h.server] at hinserted
  rw [TcpServer.addConnection, World.addConnection, h.getConnection, h.server]
  split
  next => exact hinserted
  next => exact h

end parts

section closing

theorem connectionClosed (h : Embeds message connectClose done t w) (name : String) :
    Goes message connectClose done (t.connectionClosed name id) (w.connectionClosed 0 name) := by
  rw [TcpServer.connectionClosed, World.connectionClosed, h.getConnection]
  cases t.getConnection name with
  | none => exact h.goes
  | some c =>
    have hset := h.onConnectClose
    simp only [h.server, hset]
    cases connectClose with
    | none => exact (h.removeConnection name).goes
    | some callback => exact ((h.invoke (.connectClose c) rfl).removeConnection name).goes

/-- With the callback that is in the slot. -/
theorem closeComplete (h : Embeds message connectClose done t w) (c : Nat) :
    Goes message connectClose done
      (t.closeComplete c id (t.connection c).closeCompleteCallback) (w.closeComplete c) := by
  rw [World.closeComplete, h.connection]
  simp only [ofServer]
  rcases (t.connection c).closeCompleteCallback with _ | _ | callback
  · exact h.goes
  · exact h.connectionClosed _
  · exact (h.invoke (.userClosed callback) rfl).goes

theorem closeHandle (h : Embeds message connectClose done t w) (c : Nat)
    (callback : Option CloseCallback) : Goes message connectClose done (t.closeHandle c callback)
      (w.closeHandle c (callback.map ofCloseCallback)) := by
  have hasked : { w.connection c with
      onMessageCallback_ := none, onConnectCloseCallback_ := none,
      closeCompleteCallback_ := callback.map ofCloseCallback } =
      ofServer (TcpConnection.closeSlot.fill (t.connection c) callback) (t.shutdowns c)
        (c < t.accepted) := by
    rw [h.connection]
    rfl
  rw [World.closeHandle, hasked]
  by_cases ho : (t.connection c).handle = .opened
  · rw [closeHandle_opened ho, closing, TcpConnection.close_of_opened ho]
    refine ⟨_, if_pos (Phase.isClosing_eq_false.mpr ho), ?_⟩
    exact (h.setConnection c _).emit (.uvClose c) rfl
  · rw [closeHandle_closing ho, TcpConnection.close_of_not_opened ho]
    have hslot := h.setConnection c (TcpConnection.closeSlot.fill (t.connection c) callback)
    have hcomplete := hslot.closeComplete c
    rw [setConnection_self] at hcomplete
    obtain ⟨v, hv, hembeds⟩ := hcomplete
    exact ⟨v, (if_neg (Phase.isClosing_eq_false.not.mpr ho)).trans hv, hembeds⟩

theorem closeConnection (h : Embeds message connectClose done t w) (name : String) :
    Goes message connectClose done (t.closeConnection name) (w.closeConnection 0 name) := by
  rw [TcpServer.closeConnection, World.closeConnection, h.getConnection]
  cases t.getConnection name with
  | none => exact h.goes
  | some c => exact h.closeHandle c (some .closeConnection)

theorem onSocketClose (h : Embeds message connectClose done t w) (c : Nat) :
    Goes message connectClose done (t.onSocketClose c) (w.onSocketClose c) := by
  rw [TcpServer.onSocketClose, World.onSocketClose, h.connection]
  simp only [ofServer]
  cases (t.connection c).onConnectCloseCallback with
  | false => exact h.goes
  | true => exact h.closeConnection _

end closing

section server

theorem foldl_onSocketClose (h : Embeds message connectClose done t w)
    (entries : List (Sigma fun _ : String => Nat)) : Goes message connectClose done
      (entries.foldl (fun server entry => server.onSocketClose entry.2) t)
      (entries.foldlM (fun (world : World) entry => world.onSocketClose entry.2) w) := by
  induction entries generalizing t w with
  | nil => exact h.goes
  | cons entry entries ih =>
    obtain ⟨v, hv, hv'⟩ := h.onSocketClose entry.2
    rw [List.foldl_cons, List.foldlM_cons, hv]
    exact ih hv'

theorem setSweeping (h : Embeds message connectClose done t w) (sweeping : Bool) :
    Embeds message connectClose done { t with sweeping := sweeping } w := { h with }

theorem sweep (h : Embeds message connectClose done t w) :
    Goes message connectClose done t.sweep (w.sweep 0 (some done)) := by
  obtain ⟨v, hv, hswept⟩ := (h.setSweeping true).foldl_onSocketClose t.connnections.entries
  refine ⟨v.invoke done, ?_, (hswept.setSweeping t.sweeping).invoke .serverClosed rfl⟩
  rw [World.sweep, h.server, hv]
  rfl

theorem onAcceptorClosed (h : Embeds message connectClose done t w) (callback : Option Unit) :
    Goes message connectClose done (t.onAcceptorClosed callback)
      (w.ifSet (callback.map fun _ => .server 0 (some done)) w.callAcceptorClosed) := by
  cases callback with
  | none => exact h.goes
  | some _ => exact h.sweep

theorem setAcceptor (h : Embeds message connectClose done t w) (acceptor : TcpAcceptor Unit) :
    Embeds message connectClose done { t with accetper := acceptor } (w.setAcceptor 0
      ⟨⟨acceptor.onCloseCompletCallback.map fun _ => .server 0 (some done), acceptor.handle⟩,
        some (.server 0)⟩) :=
  { h with acceptor := Function.update_self 0 _ w.acceptor }

theorem close (h : Embeds message connectClose done t w) :
    Goes message connectClose done t.close (w.close 0 (some done)) := by
  rw [World.close, h.server]
  show Goes _ _ _ _ (w.closeAcceptor 0 _)
  have hhandle : (w.acceptor 0).handle = t.accetper.handle := by rw [h.acceptor]
  rw [World.closeAcceptor, TcpServer.close]
  by_cases ho : t.accetper.handle = .opened
  · rw [TcpAcceptor.close_of_opened ho, TcpAcceptor.close_of_opened (hhandle.trans ho), h.acceptor]
    exact ((h.setAcceptor ⟨some (), .closing⟩).emit .uvCloseAcceptor rfl).goes
  · rw [TcpAcceptor.close_of_not_opened ho,
      TcpAcceptor.close_of_not_opened (ne_of_eq_of_ne hhandle ho), h.acceptor]
    exact (h.setAcceptor ⟨some (), t.accetper.handle⟩).sweep

theorem onMesageReceive (h : Embeds message connectClose done t w) {c : Nat} (hc : c < t.accepted)
    (input : Input) : Goes message connectClose done (t.onMesageReceive c input)
      (w.onMesageReceive c input) := by
  have hgone : { w.connection c with connected := false } =
      ofServer ((t.connection c).setConnectStatus false) (t.shutdowns c) (c < t.accepted) := by
    rw [h.connection]
    rfl
  cases input with
  | data =>
    have hset := h.onMessage
    simp only [TcpServer.onMesageReceive, World.onMesageReceive, h.connection, ofServer, hset]
    cases (t.connection c).onMessageCallback with
    | false => exact h.goes
    | true =>
      show Goes _ _ _ _ (w.ifSet (w.server 0).onMessageCallback_ w.call)
      rw [h.server]
      cases message with
      | none => exact h.goes
      | some callback => exact (h.invoke (.message c) rfl).goes
  | error =>
    rw [World.onMesageReceive, hgone]
    exact (h.setConnection c _).onSocketClose c
  | eof accepted =>
    cases accepted with
    | false =>
      refine ⟨_, rfl, ?_⟩
      rw [hgone]
      exact h.setConnection c _
    | true =>
      refine ⟨_, rfl, ?_⟩
      rw [hgone]
      exact h.setShutdowns hc _ _

theorem shutdownDone (h : Embeds message connectClose done t w) {c : Nat} (hc : c < t.accepted) :
    Goes message connectClose done
      ({ t with shutdowns := Function.update t.shutdowns c (t.shutdowns c - 1) }.onSocketClose c)
      ((w.setConnection c { w.connection c with
        shutdowns := (w.connection c).shutdowns - 1 }).onSocketClose c) := by
  have hspent := h.setShutdowns hc (t.connection c) (t.shutdowns c - 1)
  rw [TcpServer.setConnection, Function.update_eq_self] at hspent
  rw [h.connection]
  exact hspent.onSocketClose c

/-- libuv has closed the handle, and the callback leaves the server alone. -/
theorem onClosed (h : Embeds message connectClose done t w) (c : Nat) :
    Goes message connectClose done (t.onClosed c 0)
      ((w.setConnection c { w.connection c with handle := .closed }).closeComplete c) := by
  have hclosed := (h.setConnection c (t.connection c).onClosed.1).closeComplete c
  rw [setConnection_self] at hclosed
  rw [h.connection]
  exact hclosed

/-- The connection has the number the server gives it. -/
theorem makeConnection (h : Embeds message connectClose done t w) (name : String) :
    Embeds message connectClose done
      { t.setConnection t.accepted (.new name) with accepted := t.accepted + 1 }
      (w.makeConnection name (some (.server 0))) :=
  { h with
    connections := congrArg (· + 1) h.connections
    connection := fun d => by
      show (w.setConnection w.connections _).connection d = ofServer _ _ (d < t.accepted + 1)
      rw [h.connections]
      rcases eq_or_ne d t.accepted with rfl | hd
      · have hspent : t.shutdowns t.accepted = 0 := h.unseen t.accepted (Nat.le_refl _)
        have hlast : decide (t.accepted < t.accepted + 1) = true := decide_eq_true (Nat.lt_succ_self _)
        rw [World.setConnection_self, setConnection_self, hlast]
        show _ = ofServer _ (t.shutdowns t.accepted) true
        rw [hspent]
        rfl
      · have hlt : d < t.accepted ↔ d < t.accepted + 1 := by omega
        rw [World.setConnection_of_ne _ _ _ hd, setConnection_of_ne _ _ _ hd, h.connection]
        simp only [hlt]
        rfl
    unseen := fun d hd => h.unseen d (Nat.le_of_succ_le hd) }

theorem onAccept (h : Embeds message connectClose done t w) (name : String) :
    Goes message connectClose done (t.onAccept name) (w.onNewConnect 0 name) := by
  have haccepted := (h.makeConnection name).addConnection name t.accepted
  rw [World.onNewConnect, h.acceptor]
  show Goes _ _ _ _ (w.onAccept 0 name)
  refine ⟨_, ?_, haccepted⟩
  rw [World.onAccept, h.connections, haccepted.server]
  rfl

end server

theorem alive (h : Embeds message connectClose done t w) {c : Nat} (hc : c < t.accepted) :
    (w.connection c).alive = true := by
  rw [h.connection]
  exact decide_eq_true hc

/-- What libuv reports of a handle that is not closed it reports of one that has been accepted. -/
theorem connectionStep (h : Embeds message connectClose done t w) (hs : Sound t) {c : Nat}
    (hc : (t.connection c).handle ≠ .closed) (event : ConnectionEvent) :
    World.step w (.connection c event) = w.connectionStep c event := by
  have hlt : c < t.accepted := Nat.lt_of_not_le fun hle => hc (hs.unseen c hle)
  exact if_pos (h.alive hlt)

theorem step (h : Embeds message connectClose done t w) (hs : Sound t) {event : Event}
    {event' : Callbacks.Event} (he : Carries done event event') (ht : TcpServer.step t event = some t') :
    Goes message connectClose done t' (World.step w event') := by
  have haccetper : (w.acceptor 0).handle = t.accetper.handle := by rw [h.acceptor]
  have hhandle (c : Nat) : (w.connection c).handle = (t.connection c).handle := by
    rw [h.connection]
    rfl
  have hshutdowns (c : Nat) : (w.connection c).shutdowns = t.shutdowns c := by
    rw [h.connection]
    rfl
  cases he with
  | accept name =>
    obtain ⟨hopen, ht⟩ := Option.ite_none_right_eq_some.mp ht
    have hstep : World.step w (.acceptor 0 (.newConnect name)) = w.onNewConnect 0 name :=
      if_pos (haccetper.trans hopen)
    rw [← Option.some.inj ht, hstep]
    exact h.onAccept name
  | read c input =>
    obtain ⟨hne, ht⟩ := Option.ite_none_right_eq_some.mp ht
    have hstep : w.connectionStep c (.read input) = w.onMesageReceive c input :=
      if_pos (ne_of_eq_of_ne (hhandle c) hne)
    have hlt : c < t.accepted := Nat.lt_of_not_le fun hle => hne (hs.unseen c hle)
    rw [← Option.some.inj ht, h.connectionStep hs hne, hstep]
    exact h.onMesageReceive hlt input
  | shutdownDone c =>
    obtain ⟨hpos, ht⟩ := Option.ite_none_right_eq_some.mp ht
    have hlt : c < t.accepted := Nat.lt_of_not_le fun hle => Nat.ne_of_gt hpos (h.unseen c hle)
    have hstep : World.step w (.connection c .shutdownDone) =
        (w.setConnection c { w.connection c with
          shutdowns := (w.connection c).shutdowns - 1 }).onSocketClose c :=
      (if_pos (h.alive hlt)).trans (if_pos (by rwa [hshutdowns]))
    rw [← Option.some.inj ht, hstep]
    exact h.shutdownDone hlt
  | expire c =>
    obtain ⟨hlt, ht⟩ := Option.ite_none_right_eq_some.mp ht
    obtain ⟨v, hv, hembeds⟩ := h.onSocketClose c
    refine ⟨v, ?_, Option.some.inj ht ▸ hembeds⟩
    have hexpire : w.expire c = some v := (if_pos (h.alive hlt)).trans hv
    have hstep : World.step w (.timer (.wheel 0) (.timeOut [c])) =
        w.onTimeOut (.wheel 0) [c] := if_pos (by rw [h.wheel])
    rw [hstep, World.onTimeOut, h.wheel]
    show [c].foldlM World.expire w = some v
    rw [List.foldlM_cons, hexpire]
    rfl
  | acceptorClosed =>
    obtain ⟨hclosing, ht⟩ := Option.ite_none_right_eq_some.mp ht
    have hclosed := (h.setAcceptor t.accetper.onClosed.1).onAcceptorClosed t.accetper.onClosed.2
    have hstep : World.step w (.acceptor 0 .closed) = _ := if_pos (haccetper.trans hclosing)
    rw [← Option.some.inj ht, hstep, h.acceptor]
    exact hclosed
  | closed c =>
    obtain ⟨⟨hclosing, hnone⟩, ht⟩ := Option.ite_none_right_eq_some.mp ht
    have hstep : w.connectionStep c .closed =
        (w.setConnection c { w.connection c with handle := .closed }).closeComplete c :=
      if_pos ⟨(hhandle c).trans hclosing, (hshutdowns c).trans hnone⟩
    have hne : (t.connection c).handle ≠ .closed := by
      rw [hclosing]
      exact Phase.noConfusion
    rw [← Option.some.inj ht, h.connectionStep hs hne, hstep]
    exact h.onClosed c
  | close => exact Option.some.inj ht ▸ h.close
  | closeConnection name => exact Option.some.inj ht ▸ h.closeConnection name
  | closeByUser c callback =>
    obtain ⟨hlt, ht⟩ := Option.ite_none_right_eq_some.mp ht
    have hclosed := h.closeHandle c (callback.map .user)
    rw [Option.map_map] at hclosed
    have hstep : World.step w (.connection c (.close callback)) =
        w.closeHandle c (callback.map .user) := if_pos (h.alive hlt)
    rw [← Option.some.inj ht, hstep]
    exact hclosed

end Embeds

/-- How a server comes to listen. -/
def setup (message connectClose : Option Nat) : List Callbacks.Event :=
  [.server 0 (.setMessageCallback message), .server 0 (.setConnectCloseCallback connectClose),
    .server 0 (.listen true)]

theorem setup_embeds (message connectClose : Option Nat) (done : Nat) :
    ∃ w, World.step.run World.new (setup message connectClose) = some w ∧
      Embeds message connectClose done (listening message.isSome connectClose.isSome) w :=
  ⟨_, rfl, rfl, rfl, rfl, rfl, fun _ => rfl, rfl, rfl, rfl, fun _ _ => rfl⟩

/-- What a server does from when it listens on, it does among all the classes, and no call of it
finds an empty function. -/
theorem run_embeds {message connectClose : Option Nat} {done : Nat}
    {events : List Event} {events' : List Callbacks.Event} {t : TcpServer}
    (hr : TcpServer.step.run (listening message.isSome connectClose.isSome) events = some t)
    (he : List.Forall₂ (Carries done) events events') :
    ∃ w, World.step.run World.new (setup message connectClose ++ events') = some w ∧
      Embeds message connectClose done t w := by
  obtain ⟨w, hw, hembeds⟩ := setup_embeds message connectClose done
  have hstep (s : TcpServer) (u : World) (e : Event) (d : Callbacks.Event) (s' : TcpServer)
      (hsu : Embeds message connectClose done s u ∧ Sound s) (hed : Carries done e d)
      (hs' : TcpServer.step s e = some s') :
      ∃ v, World.step u d = some v ∧ Embeds message connectClose done s' v ∧ Sound s' := by
    obtain ⟨v, hv, hembeds⟩ := hsu.1.step hsu.2 hed hs'
    exact ⟨v, hv, hembeds, hsu.2.step hs'⟩
  obtain ⟨v, hv, hembeds, -⟩ := Step.run_related hstep ⟨hembeds, sound_listening _ _⟩ he hr
  exact ⟨v, Step.run_append_eq_some.mpr ⟨w, hw, hv⟩, hembeds⟩

end AeProxy.TcpServer
