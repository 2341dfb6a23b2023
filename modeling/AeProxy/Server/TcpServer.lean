import Mathlib.Data.List.AList
import Mathlib.Logic.Function.Iterate
import AeProxy.Lib.System
import AeProxy.Server.TcpConnection

/-! `TcpServer`: the connections it accepts, the map it keeps them in by name, and the ways in which
they come to be closed. -/
namespace AeProxy
open Lib

namespace TcpServer

/-- What runs when a connection has been closed: the lambda of `close_connection`, or what a user
passed to `TcpConnection::close`. -/
inductive CloseCallback where
  | closeConnection
  | user (callback : Nat)
  deriving DecidableEq

/-- What the server does to libuv and to its user; an erasure says whether the map was being
iterated. -/
inductive Action where
  | uvClose (connection : Nat)
  | uvCloseAcceptor
  | message (connection : Nat)
  | connectClose (connection : Nat)
  | erase (name : String) (sweeping : Bool)
  | userClosed (callback : Nat)
  | serverClosed
  deriving DecidableEq

/-- What a read callback reports: data, an error, or the end of the stream, where the request to
shut down is accepted or refused. -/
inductive Input where
  | data
  | error
  | eof (accepted : Bool)
  deriving DecidableEq

inductive Event where
  | accept (name : String)
  | read (connection : Nat) (input : Input)
  | shutdownDone (connection : Nat)
  | expire (connection : Nat)
  | acceptorClosed
  | closed (connection : Nat) (closes : Nat)
  | close
  | closeConnection (name : String)
  | closeByUser (connection : Nat) (callback : Option Nat)
  deriving DecidableEq

end TcpServer
open TcpServer

/-- The server's fields; its connections, numbered in the order they are accepted, with the
outstanding shutdown requests of each; and what has been done so far. -/
structure TcpServer where
  accetper : TcpAcceptor Unit
  connnections : AList fun _ : String => Nat
  onMessageCallback : Bool
  onConnectCloseCallback : Bool
  connection : Nat → TcpConnection CloseCallback
  accepted : Nat
  shutdowns : Nat → Nat
  sweeping : Bool
  log : List Action

namespace TcpServer

/-- Stands where no connection has been accepted yet. -/
def absent : TcpConnection CloseCallback := ⟨"", false, false, false, none, .closed⟩

/-- Behind a successful `listen`, with or without the user's callbacks. -/
def listening (onMessage onConnectClose : Bool) : TcpServer :=
  ⟨.new, ∅, onMessage, onConnectClose, fun _ => absent, 0, fun _ => 0, false, []⟩

def emit (self : TcpServer) (action : Action) : TcpServer := { self with log := self.log ++ [action] }

def setConnection (self : TcpServer) (c : Nat) (connection : TcpConnection CloseCallback) :
    TcpServer :=
  { self with connection := Function.update self.connection c connection }

def getConnection (self : TcpServer) (name : String) : Option Nat := self.connnections.lookup name

/-- `map::insert` keeps an entry that is already there. -/
def addConnection (self : TcpServer) (name : String) (c : Nat) : TcpServer :=
  if self.getConnection name = none then
    { self with connnections := self.connnections.insert name c }
  else self

def removeConnection (self : TcpServer) (name : String) : TcpServer :=
  { self with connnections := self.connnections.erase name }.emit (.erase name self.sweeping)

/-- A connection whose name still has an entry is kept by nothing but the user's callback for new
connections, if it keeps it: the source destroys it at the end of `on_accept`, and its handle with
it. Results on what such a connection does later exclude that (`Clear`). -/
def onAccept (self : TcpServer) (name : String) : TcpServer :=
  { self.setConnection self.accepted (.new name) with
    accepted := self.accepted + 1 }.addConnection name self.accepted

/-- The lambda of `close_connection`; the user's callback may use the server. -/
def connectionClosed (self : TcpServer) (name : String) (user : TcpServer → TcpServer) :
    TcpServer :=
  match self.getConnection name with
  | some c =>
    let self := if self.onConnectCloseCallback then user (self.emit (.connectClose c)) else self
    self.removeConnection name
  | none => self

def closeComplete (self : TcpServer) (c : Nat) (user : TcpServer → TcpServer) :
    Option CloseCallback → TcpServer
  | some .closeConnection => self.connectionClosed (self.connection c).name user
  | some (.user callback) => self.emit (.userClosed callback)
  | none => self

/-- `TcpConnection::close`. -/
def closeHandle (self : TcpServer) (c : Nat) (callback : Option CloseCallback) : TcpServer :=
  let (connection, effect) := (self.connection c).close callback
  let self := self.setConnection c connection
  match effect with
  | .uvClose => self.emit (.uvClose c)
  | .complete callback => self.closeComplete c id callback

def closeConnection (self : TcpServer) (name : String) : TcpServer :=
  match self.getConnection name with
  | some c => self.closeHandle c (some .closeConnection)
  | none => self

/-- `TcpConnection::on_socket_close`, the callback being the server's `close_connection`. -/
def onSocketClose (self : TcpServer) (c : Nat) : TcpServer :=
  if (self.connection c).onConnectCloseCallback then self.closeConnection (self.connection c).name
  else self

/-- The lambda of `close`. -/
def sweep (self : TcpServer) : TcpServer :=
  let swept := self.connnections.entries.foldl (fun server entry => server.onSocketClose entry.2)
    { self with sweeping := true }
  { swept with sweeping := self.sweeping }.emit .serverClosed

def onAcceptorClosed (self : TcpServer) : Option Unit → TcpServer
  | some () => self.sweep
  | none => self

def close (self : TcpServer) : TcpServer :=
  let (acceptor, effect) := self.accetper.close (some ())
  let self := { self with accetper := acceptor }
  match effect with
  | .uvClose => self.emit .uvCloseAcceptor
  | .complete callback => self.onAcceptorClosed callback

/-- `TcpConnection::on_mesage_receive`. What `on_message` does to the wheel is left to `expire`,
which may come at any time. -/
def onMesageReceive (self : TcpServer) (c : Nat) : Input → TcpServer
  | .data =>
    if (self.connection c).onMessageCallback && self.onMessageCallback then
      self.emit (.message c)
    else self
  | .error =>
    (self.setConnection c ((self.connection c).setConnectStatus false)).onSocketClose c
  | .eof accepted =>
    let self := self.setConnection c ((self.connection c).setConnectStatus false)
    if accepted then
      { self with shutdowns := Function.update self.shutdowns c (self.shutdowns c + 1) }
    else self

/-- libuv has closed the handle of a connection; the user's callback closes the server so many
times. -/
def onClosed (self : TcpServer) (c closes : Nat) : TcpServer :=
  let (connection, callback) := (self.connection c).onClosed
  (self.setConnection c connection).closeComplete c (Nat.iterate close closes) callback

/-- An event happens only where libuv can deliver it, or later; a wrapper may expire at any time. -/
def step : Step TcpServer Event := fun self event =>
  match event with
  | .accept name => if self.accetper.handle = .opened then some (self.onAccept name) else none
  | .read c input =>
    if (self.connection c).handle ≠ .closed then some (self.onMesageReceive c input) else none
  | .shutdownDone c =>
    if 0 < self.shutdowns c then
      some ({ self with
        shutdowns := Function.update self.shutdowns c (self.shutdowns c - 1) }.onSocketClose c)
    else none
  | .expire c => if c < self.accepted then some (self.onSocketClose c) else none
  | .acceptorClosed =>
    if self.accetper.handle = .closing then
      let (acceptor, callback) := self.accetper.onClosed
      some ({ self with accetper := acceptor }.onAcceptorClosed callback)
    else none
  | .closed c closes =>
    if (self.connection c).handle = .closing ∧ self.shutdowns c = 0 then
      some (self.onClosed c closes)
    else none
  | .close => some self.close
  | .closeConnection name => some (self.closeConnection name)
  | .closeByUser c callback =>
    if c < self.accepted then some (self.closeHandle c (callback.map .user)) else none

end TcpServer
end AeProxy
