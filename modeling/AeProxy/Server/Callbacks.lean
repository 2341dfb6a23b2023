import AeProxy.Server.CloseOnce
import AeProxy.Server.TcpServer
import AeProxy.Server.Write

/-! Every call of a `std::function` in the six classes that take one, with the test in front of it,
if there is one. A callback of the user may use the objects again, as an event of its own. -/
namespace AeProxy.Callbacks
open Lib

/-- In a slot of a connection: a function of the user, or one that its owner has bound. -/
inductive Bound where
  | user (callback : Nat)
  | server (server : Nat)
  | client (client : Nat)

/-- What runs when a connection has been closed: the lambda of `close_connection`, `on_close`, or
the lambda of `TcpClient::close`. -/
inductive ConnectionClosed where
  | user (callback : Nat)
  | server (server : Nat)
  | onClose (client : Nat)
  | close (callback : Option Nat)

inductive AcceptCallback where
  | user (callback : Nat)
  | server (server : Nat)

/-- What runs when an acceptor has been closed, the lambda of `TcpServer::close` with what it has
captured. -/
inductive AcceptorClosed where
  | user (callback : Nat)
  | server (server : Nat) (callback : Option Nat)

inductive TimerCallback where
  | user (callback : Nat)
  | wheel

/-- The timer in the wheel of a server, or one of the user. -/
inductive TimerName where
  | wheel (server : Nat)
  | user (timer : Nat)
  deriving DecidableEq

structure Server where
  accetper_ : Option Nat
  connnections_ : AList fun _ : String => Nat
  onMessageCallback_ : Option Nat
  onNewConnectCallback_ : Option Nat
  onConnectCloseCallback_ : Option Nat

/-- With how many connect requests are under way, and how many sockets are closing after a failed
one. -/
structure Client where
  connection_ : Option Nat
  connectCallback_ : Option Nat
  onMessageCallback_ : Option Nat
  connecting : Nat
  failing : Nat

/-- With its outstanding shutdown requests, who has made it, the user or one of the owners, and
whether it still exists. -/
structure Connection where
  name : String
  connected : Bool
  onMessageCallback_ : Option Bound
  onConnectCloseCallback_ : Option Bound
  closeCompleteCallback_ : Option ConnectionClosed
  handle : Phase
  shutdowns : Nat
  owner : Option Bound
  alive : Bool

structure Acceptor extends TcpAcceptor AcceptorClosed where
  callback_ : Option AcceptCallback

structure CallbackTimer extends Timer Nat where
  callback_ : Option TimerCallback

structure CallbackSocket extends UdpSocket Nat where
  on_message_callback_ : Option Nat

/-- All objects there are, the writes, and the callbacks of the user that have been called. -/
structure World where
  server : Nat → Server
  client : Nat → Client
  connection : Nat → Connection
  connections : Nat
  acceptor : Nat → Acceptor
  acceptors : Nat
  timer : TimerName → CallbackTimer
  socket : Nat → CallbackSocket
  writes : Write.State
  called : List Nat

namespace World

def invoke (self : World) (callback : Nat) : World :=
  { self with called := self.called ++ [callback] }

/-- `std::function::operator()`: an empty one throws. -/
def call (self : World) : Option Nat → Option World
  | some callback => some (self.invoke callback)
  | none => none

/-- `if (callback) callback(..)`. -/
def ifSet {κ : Type} (self : World) (callback : Option κ) (call : Option κ → Option World) :
    Option World :=
  if callback.isSome then call callback else some self

/-- What a request to close does at once. -/
def complete {κ : Type} (self : World) (effect : CloseEffect κ)
    (call : Option κ → Option World) : Option World :=
  match effect with
  | .uvClose => some self
  | .complete callback => self.ifSet callback call

def setServer (self : World) (s : Nat) (server : Server) : World :=
  { self with server := Function.update self.server s server }

def setClient (self : World) (k : Nat) (client : Client) : World :=
  { self with client := Function.update self.client k client }

def setConnection (self : World) (c : Nat) (connection : Connection) : World :=
  { self with connection := Function.update self.connection c connection }

def setAcceptor (self : World) (a : Nat) (acceptor : Acceptor) : World :=
  { self with acceptor := Function.update self.acceptor a acceptor }

def setTimer (self : World) (i : TimerName) (timer : CallbackTimer) : World :=
  { self with timer := Function.update self.timer i timer }

def setSocket (self : World) (u : Nat) (socket : CallbackSocket) : World :=
  { self with socket := Function.update self.socket u socket }

def getConnection (self : World) (s : Nat) (name : String) : Option Nat :=
  (self.server s).connnections_.lookup name

def removeConnection (self : World) (s : Nat) (name : String) : World :=
  self.setServer s { self.server s with connnections_ := (self.server s).connnections_.erase name }

/-- The lambda of `TcpServer::close_connection`. -/
def connectionClosed (self : World) (s : Nat) (name : String) : Option World :=
  match self.getConnection s name with
  | some _ =>
    (self.ifSet (self.server s).onConnectCloseCallback_ self.call).map (·.removeConnection s name)
  | none => some self

/-- `TcpClient::run_connect_callback`. -/
def runConnectCallback (self : World) (k : Nat) : Option World :=
  self.ifSet (self.client k).connectCallback_ self.call

def callConnectionClosed (self : World) (name : String) : Option ConnectionClosed → Option World
  | some (.user callback) => some (self.invoke callback)
  | some (.server s) => self.connectionClosed s name
  | some (.onClose k) => self.runConnectCallback k
  | some (.close callback) => self.ifSet callback self.call
  | none => none

/-- `TcpConnection::close_complete`. -/
def closeComplete (self : World) (c : Nat) : Option World :=
  self.ifSet (self.connection c).closeCompleteCallback_
    (self.callConnectionClosed (self.connection c).name)

/-- `TcpConnection::close`. -/
def closeHandle (self : World) (c : Nat) (callback : Option ConnectionClosed) : Option World :=
  let connection := { self.connection c with
    onMessageCallback_ := none, onConnectCloseCallback_ := none, closeCompleteCallback_ := callback }
  if connection.handle.isClosing = false then
    some (self.setConnection c { connection with handle := .closing })
  else (self.setConnection c connection).closeComplete c

def closeConnection (self : World) (s : Nat) (name : String) : Option World :=
  match self.getConnection s name with
  | some c => self.closeHandle c (some (.server s))
  | none => some self

/-- `TcpClient::on_connect_close`. -/
def onConnectClose (self : World) (k : Nat) : Option World :=
  match (self.client k).connection_ with
  | some c => self.closeHandle c (some (.onClose k))
  | none => some self

def callConnectClose (self : World) (name : String) : Option Bound → Option World
  | some (.user callback) => some (self.invoke callback)
  | some (.server s) => self.closeConnection s name
  | some (.client k) => self.onConnectClose k
  | none => none

/-- `TcpConnection::on_socket_close`. -/
def onSocketClose (self : World) (c : Nat) : Option World :=
  self.ifSet (self.connection c).onConnectCloseCallback_
    (self.callConnectClose (self.connection c).name)

/-- The lambda of `TcpServer::close`, whose last call is not tested. -/
def sweep (self : World) (s : Nat) (callback : Option Nat) : Option World :=
  ((self.server s).connnections_.entries.foldlM
    (fun (world : World) entry => world.onSocketClose entry.2) self).bind fun world => world.call callback

def callAcceptorClosed (self : World) : Option AcceptorClosed → Option World
  | some (.user callback) => some (self.invoke callback)
  | some (.server s callback) => self.sweep s callback
  | none => none

/-- `TcpAcceptor::close`, with `on_close_complete`. -/
def closeAcceptor (self : World) (a : Nat) (callback : Option AcceptorClosed) : Option World :=
  let (acceptor, effect) := (self.acceptor a).close callback
  let self := self.setAcceptor a { self.acceptor a with toTcpAcceptor := acceptor }
  self.complete effect self.callAcceptorClosed

/-- `TcpServer::close`. -/
def close (self : World) (s : Nat) (callback : Option Nat) : Option World :=
  match (self.server s).accetper_ with
  | some a => self.closeAcceptor a (some (.server s callback))
  | none => some self

/-- `TcpServer::on_message`. -/
def serverMessage (self : World) (s : Nat) : Option World :=
  self.ifSet (self.server s).onMessageCallback_ self.call

/-- `TcpClient::on_message`. -/
def clientMessage (self : World) (k : Nat) : Option World :=
  self.ifSet (self.client k).onMessageCallback_ self.call

def callMessage (self : World) : Option Bound → Option World
  | some (.user callback) => some (self.invoke callback)
  | some (.server s) => self.serverMessage s
  | some (.client k) => self.clientMessage k
  | none => none

/-- `TcpConnection::on_mesage_receive`, with `on_message`. -/
def onMesageReceive (self : World) (c : Nat) : TcpServer.Input → Option World
  | .data => self.ifSet (self.connection c).onMessageCallback_ self.callMessage
  | .error =>
    (self.setConnection c { self.connection c with connected := false }).onSocketClose c
  | .eof accepted =>
    let connection := { self.connection c with connected := false }
    some (self.setConnection c
      { connection with shutdowns := connection.shutdowns + accepted.toNat })

/-- A connection constructed, with the two callbacks its owner sets. -/
def makeConnection (self : World) (name : String) (owner : Option Bound) : World :=
  { self.setConnection self.connections
      ⟨name, true, owner, owner, none, .opened, 0, owner, true⟩ with
    connections := self.connections + 1 }

def addConnection (self : World) (s : Nat) (name : String) (c : Nat) : World :=
  if self.getConnection s name = none then
    self.setServer s { self.server s with
      connnections_ := (self.server s).connnections_.insert name c }
  else self

def onAccept (self : World) (s : Nat) (name : String) : Option World :=
  let self := (self.makeConnection name (some (.server s))).addConnection s name self.connections
  self.ifSet (self.server s).onNewConnectCallback_ self.call

def callAccept (self : World) (name : String) : Option AcceptCallback → Option World
  | some (.user callback) => some (self.invoke callback)
  | some (.server s) => self.onAccept s name
  | none => none

/-- `TcpAcceptor::on_new_connect`. -/
def onNewConnect (self : World) (a : Nat) (name : String) : Option World :=
  self.ifSet (self.acceptor a).callback_ (self.callAccept name)

def makeAcceptor (self : World) (callback : Option AcceptCallback) : World :=
  { self.setAcceptor self.acceptors ⟨.new, callback⟩ with acceptors := self.acceptors + 1 }

/-- An acceptor that cannot be bound is kept without a callback. -/
def listen (self : World) (s : Nat) (bound : Bool) : World :=
  let self := { self.makeAcceptor (if bound then some (.server s) else none) with
    server := Function.update self.server s { self.server s with accetper_ := some self.acceptors } }
  self

/-- `TcpClient::on_connect`; `isClosing` is what libuv says of the socket. -/
def onConnect (self : World) (k : Nat) (success isClosing : Bool) : Option World :=
  if success then
    let self := (self.makeConnection "" (some (.client k))).setClient k
      { self.client k with connection_ := some self.connections }
    self.runConnectCallback k
  else if isClosing then some self
  else some (self.setClient k { self.client k with failing := (self.client k).failing + 1 })

/-- `TcpClient::close`. -/
def closeClient (self : World) (k : Nat) (callback : Option Nat) : Option World :=
  match (self.client k).connection_ with
  | some c => self.closeHandle c (some (.close callback))
  | none => self.ifSet callback self.call

/-- `~ConnectionWrapper`. -/
def expire (self : World) (c : Nat) : Option World :=
  if (self.connection c).alive then self.onSocketClose c else some self

/-- The wheel drops the wrappers of some connections. -/
def callTimer (self : World) (expired : List Nat) : Option TimerCallback → Option World
  | some (.user callback) => some (self.invoke callback)
  | some .wheel => expired.foldlM expire self
  | none => none

/-- `Timer::on_time_out`. -/
def onTimeOut (self : World) (i : TimerName) (expired : List Nat) : Option World :=
  self.ifSet (self.timer i).callback_ (self.callTimer expired)

/-- `Timer::close`, with `close_complete`. -/
def closeTimer (self : World) (i : TimerName) (callback : Option Nat) : Option World :=
  let (timer, effect) := (self.timer i).close callback
  let self := self.setTimer i { self.timer i with toTimer := timer }
  self.complete effect self.call

/-- `UdpSocket::close`, with `on_close_completed`. -/
def closeSocket (self : World) (u : Nat) (callback : Option Nat) : Option World :=
  let (socket, effect) := (self.socket u).close callback
  let self := self.setSocket u { self.socket u with toUdpSocket := socket }
  self.complete effect self.call

/-- The writes, seeing the connections as they are. -/
def view (self : World) : Write.State :=
  { self.writes with world := { self.writes.world with
    connected := fun c => (self.connection c).connected
    alive := fun c => (self.connection c).alive } }

def setWrites (self : World) (writes : Write.State) : World := { self with writes := writes }

/-- Whoever has made the connection points to it. -/
def held (self : World) (c : Nat) : Bool :=
  match (self.connection c).owner with
  | some (.server s) => self.getConnection s (self.connection c).name = some c
  | some (.client k) => (self.client k).connection_ = some c
  | _ => false

end World

/-- What a write is called with, `rst` being what `uv_write` returns should it come to that. -/
structure WriteCall where
  thread : Nat
  buf : Nat
  callback : Option Nat
  rst : Int

inductive ServerEvent where
  | listen (bound : Bool)
  | close (callback : Option Nat)
  | closeConnection (name : String)
  | setNewConnectCallback (callback : Option Nat)
  | setConnectCloseCallback (callback : Option Nat)
  | setMessageCallback (callback : Option Nat)
  | write (connection : Option Nat) (size : UInt32) (call : WriteCall)
  | writeByName (name : String) (size : UInt32) (call : WriteCall)
  | writeInLoop (connection : Option Nat) (size : UInt32) (call : WriteCall)
  | writeInLoopByName (name : String) (size : UInt32) (call : WriteCall)

inductive ClientEvent where
  | connect
  | connectDone (success isClosing : Bool)
  | afterConnectFail
  | close (callback : Option Nat)
  | setConnectStatusCallback (callback : Option Nat)
  | setMessageCallback (callback : Option Nat)
  | write (size : UInt32) (call : WriteCall)
  | writeInLoop (size : UInt32) (call : WriteCall)

inductive ConnectionEvent where
  | setMessageCallback (callback : Option Nat)
  | setConnectCloseCallback (callback : Option Nat)
  | onSocketClose
  | close (callback : Option Nat)
  | write (size : Int) (call : WriteCall)
  | writeInLoop (size : Int) (call : WriteCall)
  | read (input : TcpServer.Input)
  | shutdownDone
  | closed
  | destroy

inductive AcceptorEvent where
  | setNewConnectionCallback (callback : Option Nat)
  | close (callback : Option Nat)
  | newConnect (name : String)
  | closed

inductive TimerEvent where
  | construct (callback : Option Nat)
  | timeOut (expired : List Nat)
  | close (callback : Option Nat)
  | closed

inductive SocketEvent where
  | setMessageCallback (callback : Option Nat)
  | message
  | close (callback : Option Nat)
  | closed

/-- What is called on one of the objects, or happens to it; the user constructs connections and
acceptors of its own; libuv completes a write; the loop runs a task, and is started or stopped. -/
inductive Event where
  | server (server : Nat) (event : ServerEvent)
  | client (client : Nat) (event : ClientEvent)
  | connection (connection : Nat) (event : ConnectionEvent)
  | acceptor (acceptor : Nat) (event : AcceptorEvent)
  | timer (timer : TimerName) (event : TimerEvent)
  | socket (socket : Nat) (event : SocketEvent)
  | makeConnection (name : String)
  | makeAcceptor
  | writeDone (request : Nat) (status : Int)
  | runTask (rst : Int)
  | loop (status : EventLoop.Status) (loopThreadId : Option Nat)

namespace World

def new : World where
  server _ := ⟨none, ∅, none, none, none⟩
  client _ := ⟨none, none, none, 0, 0⟩
  connection _ := ⟨"", false, none, none, none, .closed, 0, none, false⟩
  connections := 0
  acceptor _ := ⟨⟨none, .closed⟩, none⟩
  acceptors := 0
  timer
    | .wheel _ => ⟨⟨none, .opened⟩, some .wheel⟩
    | .user _ => ⟨⟨none, .closed⟩, none⟩
  socket _ := ⟨⟨none, .opened⟩, none⟩
  writes := .new ⟨∅, none, fun _ => false, fun _ => false, .notStarted, none⟩
  called := []

/-- A write of an owner, to a connection that exists, or to none. -/
def ownerWrite (self : World) (c : Option Nat) (size : UInt32) (call : WriteCall) : Option World :=
  if c.all fun c => (self.connection c).alive then
    some (self.setWrites (self.view.ownerWrite c call.buf size call.callback call.rst))
  else some self

def ownerWriteInLoop (self : World) (c : Option Nat) (size : UInt32) (call : WriteCall) :
    Option World :=
  if c.all fun c => (self.connection c).alive then
    (self.view.ownerWriteInLoop call.thread c call.buf size call.callback call.rst).map
      self.setWrites
  else some self

def serverStep (self : World) (s : Nat) : ServerEvent → Option World
  | .listen bound => some (self.listen s bound)
  | .close callback => self.close s callback
  | .closeConnection name => self.closeConnection s name
  | .setNewConnectCallback callback =>
    some (self.setServer s { self.server s with onNewConnectCallback_ := callback })
  | .setConnectCloseCallback callback =>
    some (self.setServer s { self.server s with onConnectCloseCallback_ := callback })
  | .setMessageCallback callback =>
    some (self.setServer s { self.server s with onMessageCallback_ := callback })
  | .write c size call => self.ownerWrite c size call
  | .writeByName name size call => self.ownerWrite (self.getConnection s name) size call
  | .writeInLoop c size call => self.ownerWriteInLoop c size call
  | .writeInLoopByName name size call => self.ownerWriteInLoop (self.getConnection s name) size call

def clientStep (self : World) (k : Nat) : ClientEvent → Option World
  | .connect => some (self.setClient k { self.client k with
      connecting := (self.client k).connecting + 1 })
  | .connectDone success isClosing =>
    if 0 < (self.client k).connecting then
      (self.setClient k { self.client k with
        connecting := (self.client k).connecting - 1 }).onConnect k success isClosing
    else some self
  | .afterConnectFail =>
    if 0 < (self.client k).failing then
      (self.setClient k { self.client k with
        failing := (self.client k).failing - 1 }).runConnectCallback k
    else some self
  | .close callback => self.closeClient k callback
  | .setConnectStatusCallback callback =>
    some (self.setClient k { self.client k with connectCallback_ := callback })
  | .setMessageCallback callback =>
    some (self.setClient k { self.client k with onMessageCallback_ := callback })
  | .write size call => self.ownerWrite (self.client k).connection_ size call
  | .writeInLoop size call => self.ownerWriteInLoop (self.client k).connection_ size call

/-- Of a connection that still exists. Nothing but the pointer of its owner keeps it, so that it can
go while its handle is open; what libuv then does with the handle is left out. -/
def connectionStep (self : World) (c : Nat) : ConnectionEvent → Option World
  | .setMessageCallback callback => some (self.setConnection c { self.connection c with
      onMessageCallback_ := callback.map .user })
  | .setConnectCloseCallback callback => some (self.setConnection c { self.connection c with
      onConnectCloseCallback_ := callback.map .user })
  | .onSocketClose => self.onSocketClose c
  | .close callback => self.closeHandle c (callback.map .user)
  | .write size call =>
    some (self.setWrites (self.view.write c call.buf size call.callback call.rst))
  | .writeInLoop size call =>
    (self.view.writeInLoop call.thread c call.buf size call.callback call.rst).map self.setWrites
  | .read input =>
    if (self.connection c).handle ≠ .closed then self.onMesageReceive c input else some self
  | .shutdownDone =>
    if 0 < (self.connection c).shutdowns then
      (self.setConnection c { self.connection c with
        shutdowns := (self.connection c).shutdowns - 1 }).onSocketClose c
    else some self
  | .closed =>
    if (self.connection c).handle = .closing ∧ (self.connection c).shutdowns = 0 then
      (self.setConnection c { self.connection c with handle := .closed }).closeComplete c
    else some self
  | .destroy =>
    if self.held c = false then
      some (self.setConnection c { self.connection c with alive := false })
    else some self

def acceptorStep (self : World) (a : Nat) : AcceptorEvent → Option World
  | .setNewConnectionCallback callback => some (self.setAcceptor a { self.acceptor a with
      callback_ := callback.map .user })
  | .close callback => self.closeAcceptor a (callback.map .user)
  | .newConnect name =>
    if (self.acceptor a).handle = .opened then self.onNewConnect a name else some self
  | .closed =>
    if (self.acceptor a).handle = .closing then
      let (acceptor, callback) := (self.acceptor a).onClosed
      (self.setAcceptor a { self.acceptor a with toTcpAcceptor := acceptor }).ifSet callback
        (self.setAcceptor a { self.acceptor a with toTcpAcceptor := acceptor }).callAcceptorClosed
    else some self

def timerStep (self : World) (i : TimerName) : TimerEvent → Option World
  | .construct callback =>
    match i with
    | .wheel _ => some self
    | .user _ => some (self.setTimer i ⟨⟨none, .opened⟩, callback.map .user⟩)
  | .timeOut expired =>
    if (self.timer i).handle = .opened then self.onTimeOut i expired else some self
  | .close callback =>
    match i with
    | .wheel _ => some self
    | .user _ => self.closeTimer i callback
  | .closed =>
    if (self.timer i).handle = .closing then
      let (timer, callback) := (self.timer i).onClosed
      let self := self.setTimer i { self.timer i with toTimer := timer }
      self.ifSet callback self.call
    else some self

def socketStep (self : World) (u : Nat) : SocketEvent → Option World
  | .setMessageCallback callback => some (self.setSocket u { self.socket u with
      on_message_callback_ := callback })
  | .message =>
    if (self.socket u).handle = .opened then
      self.ifSet (self.socket u).on_message_callback_ self.call
    else some self
  | .close callback => self.closeSocket u callback
  | .closed =>
    if (self.socket u).handle = .closing then
      let (socket, callback) := (self.socket u).onClosed
      let self := self.setSocket u { self.socket u with toUdpSocket := socket }
      self.ifSet callback self.call
    else some self

/-- An event that cannot happen changes nothing; a step that gives nothing has thrown. -/
def step : Step World Event := fun self event =>
  match event with
  | .server s event => self.serverStep s event
  | .client k event => self.clientStep k event
  | .connection c event =>
    if (self.connection c).alive then self.connectionStep c event else some self
  | .acceptor a event => self.acceptorStep a event
  | .timer i event => self.timerStep i event
  | .socket u event => self.socketStep u event
  | .makeConnection name => some (self.makeConnection name none)
  | .makeAcceptor => some (self.makeAcceptor none)
  | .writeDone i status =>
    match self.view.requests[i]? with
    | some request => some (self.setWrites ({ self.view with
        requests := self.view.requests.eraseIdx i }.afterWrite request status))
    | none => some self
  | .runTask rst =>
    match self.view.tasks with
    | task :: tasks => ({ self.view with tasks := tasks }.runTask task rst).map self.setWrites
    | [] => some self
  | .loop status loopThreadId => some (self.setWrites { self.writes with
      world := { self.writes.world with status := status, loopThreadId := loopThreadId } })

section fields
variable (w : World) (c : Nat) (connection : Connection)

theorem setConnection_self : (w.setConnection c connection).connection c = connection :=
  Function.update_self ..

theorem setConnection_of_ne {d : Nat} (h : d ≠ c) :
    (w.setConnection c connection).connection d = w.connection d := Function.update_of_ne h ..

end fields

end World
end AeProxy.Callbacks
